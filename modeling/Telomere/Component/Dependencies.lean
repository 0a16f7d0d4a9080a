import Telomere.Component.Names

/-!
# Dependencies, addresses and hashes

What an import may name beside an interface. The source has no display for these names; here they
are spelled in the grammar that the parsers follow, and each parser accepts what is spelled so and
nothing else.
-/

namespace Telomere.Component

open Lib (stripPrefix splitOnce rsplitOnce)

structure HashName where
  integrity : Text
deriving DecidableEq, Repr

structure PackagePath where
  «namespace» : Text
  name : Text
deriving DecidableEq, Repr

inductive VersionRange (V : Type) where
  | any
  | ranged (lower upper : Option V)
deriving DecidableEq, Repr

structure UnlockedDependency (V : Type) where
  package : PackagePath
  versionRange : Option (VersionRange V)
deriving DecidableEq, Repr

structure LockedDependency (V : Type) where
  package : PackagePath
  version : Option V
  hashName : Option HashName
deriving DecidableEq, Repr

inductive Dependency (V : Type) where
  | unlocked (dependency : UnlockedDependency V)
  | locked (dependency : LockedDependency V)
deriving DecidableEq, Repr

structure UrlName where
  url : Text
  hashName : Option HashName
deriving DecidableEq, Repr

def isWhitespace (c : Char) : Bool :=
  c.toNat ∈ [0x20, 0x85, 0xA0, 0x1680, 0x2028, 0x2029, 0x202F, 0x205F, 0x3000] ||
    (0x9 ≤ c.toNat && c.toNat ≤ 0xD) || (0x2000 ≤ c.toNat && c.toNat ≤ 0x200A)

def trim (text : Text) : Text :=
  ((text.dropWhile isWhitespace).reverse.dropWhile isWhitespace).reverse

def splitWhitespace (text : Text) : List Text :=
  (text.splitOnP isWhitespace).filter fun part => !part.isEmpty

def digestChar (ch : Char) : Bool :=
  ch.isAlphanum || ['+', '/', '?', '=', '.', '_', '-'].contains ch

/-- `padding` counts what was seen of it. -/
def digestChars (seenPadding : Bool) (padding : Nat) : Text → Bool
  | [] => true
  | ch :: rest =>
      if !digestChar ch then false
      else if ch = '=' then
        if 2 < padding + 1 then false else digestChars true (padding + 1) rest
      else if seenPadding then false
      else digestChars seenPadding padding rest

def isValidIntegrityDigest (digest : Text) : Bool :=
  if digest.isEmpty || digest.all (· == '=') then false
  else digestChars false 0 digest && digest.head? != some '='

def algorithms : List Text :=
  [['s', 'h', 'a', '2', '5', '6'], ['s', 'h', 'a', '3', '8', '4'], ['s', 'h', 'a', '5', '1', '2']]

def validateEntry (entry : Text) : Except String Unit :=
  match splitOnce ['-'] entry with
  | none => .error "expected `-` after hash algorithm"
  | some (algorithm, digest) =>
      if algorithm ∉ algorithms then
        .error "unrecognized hash algorithm"
      else if !isValidIntegrityDigest digest then .error "not valid base64"
      else .ok ()

def validateIntegrity (integrity : Text) : Except String Unit :=
  if (trim integrity).isEmpty then .error "integrity hash cannot be empty"
  else (splitWhitespace (trim integrity)).forM validateEntry

def trailingError {α : Type} (text : Text) : Except String α :=
  .error ("trailing characters found: `" ++ String.ofList text ++ "`")

def expectOpen (text : Text) : Except String Text :=
  match stripPrefix ['<'] text with
  | some rest => .ok rest
  | none => .error ("expected `<` at `" ++ String.ofList text ++ "`")

def parseIntegrityBracket (rest : Text) : Except String Text := do
  let rest ← expectOpen rest
  match splitOnce ['>'] rest with
  | none => .error "failed to find `>`"
  | some (integrity, trailing) => do
      validateIntegrity integrity
      if trailing.isEmpty then return integrity else trailingError trailing

def integrityWord : Text := ['i', 'n', 't', 'e', 'g', 'r', 'i', 't', 'y', '=']

def parseIntegritySuffix (suffix : Text) : Except String (Option HashName) :=
  if suffix.isEmpty then .ok none
  else
    match stripPrefix (',' :: integrityWord) suffix with
    | none => if suffix = [','] then .error "expected `integrity=<`" else trailingError suffix
    | some rest => do return some ⟨← parseIntegrityBracket rest⟩

def parseHashNameString (text : Text) : Except String (Option HashName) :=
  match stripPrefix integrityWord text with
  | none => .ok none
  | some rest => do return some ⟨← parseIntegrityBracket rest⟩

def urlWord : Text := ['u', 'r', 'l', '=']

def parseUrlNameString (text : Text) : Except String (Option UrlName) :=
  match stripPrefix urlWord text with
  | none => .ok none
  | some rest => do
      let rest ← expectOpen rest
      match splitOnce ['>'] rest with
      | none => .error "failed to find `>`"
      | some (url, suffix) =>
          if '<' ∈ url then .error "url cannot contain `<`"
          else do return some ⟨url, ← parseIntegritySuffix suffix⟩

/-- Up to `@` or `>`. -/
def parsePackagePath (rest : Text) : Except String (PackagePath × Text) :=
  let path := rest.takeWhile fun c => c != '@' && c != '>'
  let trailing := rest.dropWhile fun c => c != '@' && c != '>'
  match rsplitOnce ':' path with
  | none => .error "expected `/` after package name"
  | some (space, name) => do
      let space ← parseWordsPath space ':'
      let name ← parseWordsPath name '/'
      return (⟨space, name⟩, trailing)

section versions

variable {V : Type} (versions : Versions V)

def parseVersionRange (inner : Text) : Except String (VersionRange V) :=
  match stripPrefix ['>', '='] inner with
  | some version =>
      match splitOnce [' ', '<'] version with
      | some (lower, upper) => do
          let lower ← parseSemver versions lower
          let upper ← parseSemver versions upper
          return .ranged (some lower) (some upper)
      | none => do return .ranged (some (← parseSemver versions version)) none
  | none =>
      match stripPrefix ['<'] inner with
      | some version => do return .ranged none (some (← parseSemver versions version))
      | none => .error "expected `>=` or `<` at start of version range"

def expectClose {α : Type} (text : Text) (value : α) : Except String α :=
  if text = ['>'] then .ok value else trailingError text

/-- What stands behind `@`. -/
def parseVersionBody (body : Text) : Except String (VersionRange V) :=
  match stripPrefix ['*'] body with
  | some body => expectClose body .any
  | none =>
      match stripPrefix ['{'] body with
      | none => .error ("expected `\x7b` at `" ++ String.ofList (body.take 1) ++ "`")
      | some body =>
          match splitOnce ['}'] body with
          | none => .error "expected `\x7d` in version range"
          | some (range, trailing) => do
              let _ ← expectClose trailing ()
              parseVersionRange versions range

def parseUnlockedDependency (rest : Text) : Except String (UnlockedDependency V) := do
  let rest ← expectOpen rest
  let (package, rest) ← parsePackagePath rest
  match rest with
  | [] => .error "expected `>` at ``"
  | c :: body =>
      if c = '>' then
        if body.isEmpty then return ⟨package, none⟩ else trailingError body
      else if c = '@' then return ⟨package, some (← parseVersionBody versions body)⟩
      else .error ("expected `>` or `@` at `" ++ String.ofList [c] ++ "`")

def parseLockedDependency (rest : Text) : Except String (LockedDependency V) := do
  let rest ← expectOpen rest
  let (package, rest) ← parsePackagePath rest
  match rest with
  | [] => .error "expected `>` at ``"
  | c :: body =>
      if c = '>' then return ⟨package, none, ← parseIntegritySuffix body⟩
      else if c = '@' then
        match splitOnce ['>'] body with
        | none => .error "expected `>` at ``"
        | some (version, suffix) => do
            let version ← parseSemver versions version
            return ⟨package, some version, ← parseIntegritySuffix suffix⟩
      else .error ("expected `>` at `" ++ String.ofList [c] ++ "`")

def unlockedWord : Text := ['u', 'n', 'l', 'o', 'c', 'k', 'e', 'd', '-', 'd', 'e', 'p', '=']

def lockedWord : Text := ['l', 'o', 'c', 'k', 'e', 'd', '-', 'd', 'e', 'p', '=']

def parseDepNameString (text : Text) : Except String (Option (Dependency V)) :=
  match stripPrefix unlockedWord text with
  | some rest => do return some (.unlocked (← parseUnlockedDependency versions rest))
  | none =>
      match stripPrefix lockedWord text with
      | some rest => do return some (.locked (← parseLockedDependency versions rest))
      | none => .ok none

end versions

section hashes

variable {text rest digest : Text}

/-- Base64 characters, and at most two `=` behind them. -/
def DigestSpelled (digest : Text) : Prop :=
  ∃ body padding, digest = body ++ List.replicate padding '=' ∧ body ≠ [] ∧ padding ≤ 2 ∧
    ∀ ch ∈ body, digestChar ch = true ∧ ch ≠ '='

theorem digestChars_seen (padding : Nat) :
    digestChars true padding text = true ↔
      ∃ more, text = List.replicate more '=' ∧ (more = 0 ∨ padding + more ≤ 2) := by
  induction text generalizing padding with
  | nil =>
      simp only [digestChars, true_iff]
      exact ⟨0, rfl, Or.inl rfl⟩
  | cons ch rest ih =>
      by_cases hch : ch = '='
      · subst hch
        have hstep : digestChars true padding ('=' :: rest) =
            if 2 < padding + 1 then false else digestChars true (padding + 1) rest := rfl
        rw [hstep]
        by_cases hpadding : 2 < padding + 1
        · rw [if_pos hpadding]
          simp only [Bool.false_eq_true, false_iff, not_exists, not_and, not_or]
          intro more hmore
          cases more with
          | zero => simp at hmore
          | succ more => omega
        · rw [if_neg hpadding, ih]
          constructor
          · rintro ⟨more, rfl, hmore⟩
            exact ⟨more + 1, rfl, by omega⟩
          · rintro ⟨more, hmore, hle⟩
            cases more with
            | zero => simp at hmore
            | succ more => exact ⟨more, by simpa [List.replicate_succ] using hmore, by omega⟩
      · simp only [digestChars, hch, if_true, if_false, ite_self, Bool.false_eq_true, false_iff,
          not_exists, not_and]
        intro more hmore
        cases more with
        | zero => simp at hmore
        | succ more => simp [List.replicate_succ, hch] at hmore

theorem digestChars_unseen :
    digestChars false 0 text = true ↔ ∃ body padding, text = body ++ List.replicate padding '=' ∧
      padding ≤ 2 ∧ ∀ ch ∈ body, digestChar ch = true ∧ ch ≠ '=' := by
  induction text with
  | nil =>
      simp only [digestChars, true_iff]
      exact ⟨[], 0, by simp⟩
  | cons ch rest ih =>
      by_cases hch : ch = '='
      · subst hch
        have hstep : digestChars false 0 ('=' :: rest) = digestChars true 1 rest := rfl
        rw [hstep, digestChars_seen]
        constructor
        · rintro ⟨more, rfl, hmore⟩
          exact ⟨[], more + 1, rfl, by omega, by simp⟩
        · rintro ⟨body, padding, htext, hpadding, hbody⟩
          cases body with
          | nil =>
              cases padding with
              | zero => simp at htext
              | succ padding =>
                  exact ⟨padding, by simpa [List.replicate_succ] using htext, by omega⟩
          | cons first body =>
              obtain rfl := (List.cons.inj htext).1
              exact absurd rfl (hbody '=' (List.mem_cons_self ..)).2
      · by_cases hdigest : digestChar ch = true
        · have hstep : digestChars false 0 (ch :: rest) = digestChars false 0 rest := by
            simp [digestChars, hdigest, hch]
          rw [hstep, ih]
          constructor
          · rintro ⟨body, padding, rfl, hpadding, hbody⟩
            exact ⟨ch :: body, padding, rfl, hpadding, by simpa [hdigest, hch] using hbody⟩
          · rintro ⟨body, padding, htext, hpadding, hbody⟩
            cases body with
            | nil =>
                cases padding with
                | zero => simp at htext
                | succ padding => simp [List.replicate_succ, hch] at htext
            | cons first body =>
                exact ⟨body, padding, (List.cons.inj htext).2, hpadding,
                  fun c hmem => hbody c (List.mem_cons_of_mem first hmem)⟩
        · have hstep : digestChars false 0 (ch :: rest) = false := by
            simp [digestChars, hdigest]
          rw [hstep]
          simp only [Bool.false_eq_true, false_iff, not_exists, not_and]
          intro body padding htext _ hbody
          cases body with
          | nil =>
              cases padding with
              | zero => simp at htext
              | succ padding => simp [List.replicate_succ, hch] at htext
          | cons first body =>
              obtain rfl := (List.cons.inj htext).1
              exact hdigest (hbody ch (List.mem_cons_self ..)).1

theorem isValidIntegrityDigest_iff : isValidIntegrityDigest digest = true ↔ DigestSpelled digest := by
  unfold isValidIntegrityDigest DigestSpelled
  constructor
  · intro h
    split at h
    · cases h
    · next hsome =>
        obtain ⟨hchars, -⟩ := Bool.and_eq_true_iff.mp h
        obtain ⟨body, padding, rfl, hpadding, hbody⟩ := digestChars_unseen.mp hchars
        refine ⟨body, padding, rfl, ?_, hpadding, hbody⟩
        rintro rfl
        simp at hsome
  · rintro ⟨body, padding, rfl, hne, hpadding, hbody⟩
    cases body with
    | nil => exact absurd rfl hne
    | cons first body =>
        have hfirst := (hbody first (List.mem_cons_self ..)).2
        have hchars := digestChars_unseen.mpr ⟨first :: body, padding, rfl, hpadding, hbody⟩
        rw [List.cons_append] at hchars
        simp [hfirst, hchars]

def EntrySpelled (entry : Text) : Prop :=
  ∃ algorithm digest, entry = algorithm ++ '-' :: digest ∧
    algorithm ∈ algorithms ∧ DigestSpelled digest

theorem validateEntry_ok {entry : Text} : validateEntry entry = .ok () ↔ EntrySpelled entry := by
  unfold validateEntry
  constructor
  · intro h
    split at h
    · cases h
    · next algorithm digest hsplit =>
        obtain ⟨hentry, -⟩ := Lib.splitOnce_eq_some.mp hsplit
        obtain ⟨hknown, h⟩ := Lib.ite_error_eq_ok.mp h
        obtain ⟨hdigest, -⟩ := Lib.ite_error_eq_ok.mp h
        exact ⟨algorithm, digest, hentry, Classical.not_not.mp hknown,
          isValidIntegrityDigest_iff.mp (by simpa using hdigest)⟩
  · rintro ⟨algorithm, digest, rfl, hknown, hdigest⟩
    have hhyphen : ∀ algorithm ∈ algorithms, '-' ∉ algorithm := by decide
    have hsplit : splitOnce ['-'] (algorithm ++ '-' :: digest) = some (algorithm, digest) :=
      Lib.splitOnce_eq_some.mpr ⟨rfl, hhyphen algorithm hknown⟩
    have hvalid := isValidIntegrityDigest_iff.mpr hdigest
    simp [hsplit, hknown, hvalid]

theorem forM_ok {xs : List Text} {f : Text → Except String Unit} :
    xs.forM f = .ok () ↔ ∀ x ∈ xs, f x = .ok () := by
  induction xs with
  | nil => simp [pure, Except.pure]
  | cons x xs ih =>
      have hcons : (x :: xs).forM f = f x >>= fun _ => xs.forM f := rfl
      rw [hcons]
      simp only [Lib.bind_eq_ok, ih, List.mem_cons, forall_eq_or_imp]
      constructor
      · rintro ⟨_, hfirst, hrest⟩
        exact ⟨hfirst, hrest⟩
      · rintro ⟨hfirst, hrest⟩
        exact ⟨(), hfirst, hrest⟩

/-- Entries with whitespace between them, and at least one. -/
structure IntegritySpelled (integrity : Text) : Prop where
  nonempty : trim integrity ≠ []
  entries : ∀ entry ∈ splitWhitespace (trim integrity), EntrySpelled entry

theorem validateIntegrity_ok {integrity : Text} :
    validateIntegrity integrity = .ok () ↔ IntegritySpelled integrity := by
  unfold validateIntegrity
  rw [Lib.ite_error_eq_ok, forM_ok]
  simp only [List.isEmpty_iff, validateEntry_ok]
  exact ⟨fun h => ⟨h.1, h.2⟩, fun h => ⟨h.1, h.2⟩⟩

theorem expectOpen_eq_ok : expectOpen text = .ok rest ↔ text = '<' :: rest := by
  unfold expectOpen
  cases hstrip : stripPrefix ['<'] text with
  | none =>
      simp only [reduceCtorEq, false_iff]
      rintro rfl
      simp [stripPrefix] at hstrip
  | some rest' =>
      obtain rfl := Lib.stripPrefix_eq_some.mp hstrip
      simp

inductive BracketSpelled : Text → Text → Prop where
  | bracket {integrity : Text} (valid : IntegritySpelled integrity) (closed : '>' ∉ integrity) :
      BracketSpelled integrity ('<' :: integrity ++ ['>'])

theorem parseIntegrityBracket_iff {integrity : Text} :
    parseIntegrityBracket rest = .ok integrity ↔ BracketSpelled integrity rest := by
  unfold parseIntegrityBracket
  constructor
  · intro h
    obtain ⟨inner, hopen, h⟩ := Lib.bind_eq_ok.mp h
    rw [expectOpen_eq_ok.mp hopen]
    split at h
    · cases h
    · next integrity' trailing hsplit =>
        obtain ⟨rfl, hclosed⟩ := Lib.splitOnce_eq_some.mp hsplit
        obtain ⟨_, hvalid, h⟩ := Lib.bind_eq_ok.mp h
        split at h
        · next hnil =>
            obtain rfl := Lib.pure_eq_ok.mp h
            obtain rfl := List.isEmpty_iff.mp hnil
            exact .bracket (validateIntegrity_ok.mp hvalid) hclosed
        · cases h
  · rintro ⟨hvalid, hclosed⟩
    have hopen : expectOpen ('<' :: integrity ++ ['>']) = .ok (integrity ++ ['>']) :=
      expectOpen_eq_ok.mpr rfl
    have hsplit : splitOnce ['>'] (integrity ++ ['>']) = some (integrity, []) :=
      Lib.splitOnce_eq_some.mpr ⟨rfl, hclosed⟩
    rw [hopen, Lib.ok_bind]
    simp only [hsplit, validateIntegrity_ok.mpr hvalid, Lib.ok_bind]
    rfl

inductive SuffixSpelled : Option HashName → Text → Prop where
  | none : SuffixSpelled none []
  | hash {integrity bracket : Text} (spelled : BracketSpelled integrity bracket) :
      SuffixSpelled (some ⟨integrity⟩) (',' :: integrityWord ++ bracket)

theorem parseIntegritySuffix_iff {hashName : Option HashName} :
    parseIntegritySuffix text = .ok hashName ↔ SuffixSpelled hashName text := by
  unfold parseIntegritySuffix
  constructor
  · intro h
    split at h
    · next hnil =>
        obtain rfl := Except.ok.inj h
        obtain rfl := List.isEmpty_iff.mp hnil
        exact .none
    · split at h
      · split at h
        · cases h
        · cases h
      · next rest hstrip =>
          obtain ⟨integrity, hbracket, h⟩ := Lib.bind_eq_ok.mp h
          obtain rfl := Lib.pure_eq_ok.mp h
          rw [Lib.stripPrefix_eq_some.mp hstrip]
          exact .hash (parseIntegrityBracket_iff.mp hbracket)
  · intro h
    cases h with
    | none => rfl
    | hash spelled =>
        rw [if_neg (by simp)]
        simp only [Lib.stripPrefix_append, parseIntegrityBracket_iff.mpr spelled, Lib.ok_bind]
        rfl

inductive UrlSpelled : UrlName → Text → Prop where
  | url {url suffix : Text} {hashName : Option HashName} (closed : '>' ∉ url) (plain : '<' ∉ url)
      (behind : SuffixSpelled hashName suffix) :
      UrlSpelled ⟨url, hashName⟩ (urlWord ++ '<' :: url ++ '>' :: suffix)

theorem parseUrlNameString_iff {name : UrlName} :
    parseUrlNameString text = .ok (some name) ↔ UrlSpelled name text := by
  unfold parseUrlNameString
  constructor
  · intro h
    split at h
    · cases h
    · next rest hstrip =>
        obtain ⟨inner, hopen, h⟩ := Lib.bind_eq_ok.mp h
        have htext := Lib.stripPrefix_eq_some.mp hstrip
        rw [expectOpen_eq_ok.mp hopen] at htext
        split at h
        · cases h
        · next url suffix hsplit =>
            obtain ⟨hinner, hclosed⟩ := Lib.splitOnce_eq_some.mp hsplit
            split at h
            · cases h
            · next hplain =>
                obtain ⟨hashName, hsuffix, h⟩ := Lib.bind_eq_ok.mp h
                obtain rfl := Option.some.inj (Lib.pure_eq_ok.mp h)
                have hspelled := UrlSpelled.url hclosed hplain (parseIntegritySuffix_iff.mp hsuffix)
                rw [htext, hinner]
                simpa using hspelled
  · rintro ⟨hclosed, hplain, hbehind⟩
    rename_i url suffix hashName
    have hsplit : splitOnce ['>'] (url ++ '>' :: suffix) = some (url, suffix) :=
      Lib.splitOnce_eq_some.mpr ⟨rfl, hclosed⟩
    have hopen : expectOpen ('<' :: url ++ '>' :: suffix) = .ok (url ++ '>' :: suffix) :=
      expectOpen_eq_ok.mpr rfl
    rw [List.append_assoc]
    simp only [Lib.stripPrefix_append, hopen, Lib.ok_bind, hsplit, if_neg hplain,
      parseIntegritySuffix_iff.mpr hbehind]
    rfl

inductive HashSpelled : HashName → Text → Prop where
  | hash {integrity bracket : Text} (spelled : BracketSpelled integrity bracket) :
      HashSpelled ⟨integrity⟩ (integrityWord ++ bracket)

theorem parseHashNameString_iff {name : HashName} :
    parseHashNameString text = .ok (some name) ↔ HashSpelled name text := by
  unfold parseHashNameString
  constructor
  · intro h
    split at h
    · cases h
    · next rest hstrip =>
        obtain ⟨integrity, hbracket, h⟩ := Lib.bind_eq_ok.mp h
        obtain rfl := Option.some.inj (Lib.pure_eq_ok.mp h)
        rw [Lib.stripPrefix_eq_some.mp hstrip]
        exact .hash (parseIntegrityBracket_iff.mp hbracket)
  · rintro ⟨hspelled⟩
    simp only [Lib.stripPrefix_append, parseIntegrityBracket_iff.mpr hspelled, Lib.ok_bind]
    rfl

end hashes

section dependencies

variable {V : Type} {versions : Versions V} {text rest trailing : Text} {package : PackagePath}

inductive PackageSpelled : PackagePath → Text → Prop where
  | package {space name : Text} (spaceWords : WordsPath ':' space) (nameWords : WordsPath '/' name) :
      PackageSpelled ⟨space, name⟩ (space ++ ':' :: name)

theorem PackageSpelled.notMem (h : PackageSpelled package text) {c : Char}
    (hc : c.isAlphanum = false) (hne : c ≠ '-' ∧ c ≠ ':' ∧ c ≠ '/') : c ∉ text := by
  obtain ⟨hspace, hname⟩ := h
  have hfirst := wordsPath_notMem hspace hc hne.1 hne.2.1
  have hsecond := wordsPath_notMem hname hc hne.1 hne.2.2
  simp [hfirst, hsecond, hne]

def EndsPackage (trailing : Text) : Prop := ∀ c ∈ trailing.head?, c = '@' ∨ c = '>'

theorem takeWhile_package {path : Text} (hat : '@' ∉ path) (hclose : '>' ∉ path)
    (hends : EndsPackage trailing) :
    (path ++ trailing).takeWhile (fun c => c != '@' && c != '>') = path ∧
      (path ++ trailing).dropWhile (fun c => c != '@' && c != '>') = trailing := by
  induction path with
  | nil =>
      cases trailing with
      | nil => exact ⟨rfl, rfl⟩
      | cons c trailing =>
          rcases hends c rfl with rfl | rfl
          · exact ⟨rfl, rfl⟩
          · exact ⟨rfl, rfl⟩
  | cons c path ih =>
      simp only [List.mem_cons, not_or] at hat hclose
      obtain ⟨htake, hdrop⟩ := ih hat.2 hclose.2
      simp [Ne.symm hat.1, Ne.symm hclose.1, htake, hdrop]

theorem endsPackage_dropWhile (text : Text) :
    EndsPackage (text.dropWhile fun c => c != '@' && c != '>') := by
  intro c hc
  have hfirst := List.head?_dropWhile_not (fun c => c != '@' && c != '>') text
  rw [Option.mem_def.mp hc] at hfirst
  by_contra hother
  simp only [not_or] at hother
  simp [hother] at hfirst

theorem parsePackagePath_iff :
    parsePackagePath text = .ok (package, trailing) ↔
      ∃ path, PackageSpelled package path ∧ text = path ++ trailing ∧ EndsPackage trailing := by
  unfold parsePackagePath
  constructor
  · intro h
    dsimp only at h
    split at h
    · cases h
    · next space name hcut =>
        obtain ⟨space', hspace, h⟩ := Lib.bind_eq_ok.mp h
        obtain ⟨name', hname, h⟩ := Lib.bind_eq_ok.mp h
        obtain ⟨rfl, rfl⟩ := Prod.mk.inj (Lib.pure_eq_ok.mp h)
        obtain ⟨hspaceWords, rfl⟩ := parseWordsPath_eq_ok.mp hspace
        obtain ⟨hnameWords, rfl⟩ := parseWordsPath_eq_ok.mp hname
        refine ⟨space ++ ':' :: name, .package hspaceWords hnameWords, ?_, endsPackage_dropWhile text⟩
        rw [← (Lib.rsplitOnce_eq_some.mp hcut).1, List.takeWhile_append_dropWhile]
  · rintro ⟨path, hpackage, rfl, hends⟩
    obtain ⟨htake, hdrop⟩ := takeWhile_package (hpackage.notMem (by decide) (by decide))
      (hpackage.notMem (by decide) (by decide)) hends
    obtain ⟨hspace, hname⟩ := hpackage
    rename_i space name
    have hcut : rsplitOnce ':' (space ++ ':' :: name) = some (space, name) :=
      Lib.rsplitOnce_eq_some.mpr ⟨rfl, wordsPath_notMem hname (by decide) (by decide) (by decide)⟩
    have hspaceWords := parseWordsPath_eq_ok.mpr ⟨hspace, rfl⟩
    have hnameWords := parseWordsPath_eq_ok.mpr ⟨hname, rfl⟩
    simp only [htake, hdrop, hcut, hspaceWords, hnameWords, Lib.ok_bind]
    rfl

inductive RangeSpelled (versions : Versions V) : VersionRange V → Text → Prop where
  | between (lower upper : V) : RangeSpelled versions (.ranged (some lower) (some upper))
      ('>' :: '=' :: versions.display lower ++ ' ' :: '<' :: versions.display upper)
  | atLeast (lower : V) : RangeSpelled versions (.ranged (some lower) none)
      ('>' :: '=' :: versions.display lower)
  | below (upper : V) : RangeSpelled versions (.ranged none (some upper))
      ('<' :: versions.display upper)

theorem Versions.notMem (versions : Versions V) (v : V) {c : Char} (hc : c.isAlphanum = false)
    (hne : c ≠ '.' ∧ c ≠ '-' ∧ c ≠ '+') : c ∉ versions.display v := by
  intro hmem
  simpa [hc, hne] using versions.display_chars v c hmem

theorem parseSemver_display (versions : Versions V) (v : V) :
    parseSemver versions (versions.display v) = .ok v := parseSemver_eq_ok.mpr rfl

theorem parseVersionRange_iff {range : VersionRange V} :
    parseVersionRange versions text = .ok range ↔ RangeSpelled versions range text := by
  unfold parseVersionRange
  constructor
  · intro h
    split at h
    · next version hstrip =>
        rw [Lib.stripPrefix_eq_some.mp hstrip]
        split at h
        · next lower upper hcut =>
            obtain ⟨l, hlower, h⟩ := Lib.bind_eq_ok.mp h
            obtain ⟨u, hupper, h⟩ := Lib.bind_eq_ok.mp h
            rw [← Lib.pure_eq_ok.mp h, Lib.splitOnce_sound hcut, ← parseSemver_eq_ok.mp hlower,
              ← parseSemver_eq_ok.mp hupper]
            exact .between l u
        · obtain ⟨l, hlower, h⟩ := Lib.bind_eq_ok.mp h
          rw [← Lib.pure_eq_ok.mp h, ← parseSemver_eq_ok.mp hlower]
          exact .atLeast l
    · split at h
      · next version hstrip =>
          obtain ⟨u, hupper, h⟩ := Lib.bind_eq_ok.mp h
          rw [← Lib.pure_eq_ok.mp h, Lib.stripPrefix_eq_some.mp hstrip, ← parseSemver_eq_ok.mp hupper]
          exact .below u
      · cases h
  · intro h
    cases h with
    | between lower upper =>
        have hcut : splitOnce [' ', '<'] (versions.display lower ++ ' ' :: '<' ::
            versions.display upper) = some (versions.display lower, versions.display upper) :=
          Lib.splitOnce_append (versions.notMem lower (by decide) (by decide))
        simp only [List.cons_append, stripPrefix, if_true, hcut, parseSemver_display, Lib.ok_bind]
        rfl
    | atLeast lower =>
        have hcut : splitOnce [' ', '<'] (versions.display lower) = none :=
          Lib.splitOnce_of_notMem (versions.notMem lower (by decide) (by decide))
        simp only [stripPrefix, if_true, hcut, parseSemver_display, Lib.ok_bind]
        rfl
    | below upper =>
        simp only [stripPrefix, if_true, parseSemver_display, Lib.ok_bind]
        rfl

theorem RangeSpelled.notMem {range : VersionRange V} (h : RangeSpelled versions range text) :
    '}' ∉ text := by
  have hbrace : ∀ v, '}' ∉ versions.display v := fun v =>
    versions.notMem v (by decide) (by decide)
  cases h with
  | between lower upper => simp [hbrace]
  | atLeast lower => simp [hbrace]
  | below upper => simp [hbrace]

/-- What stands behind `@`. -/
inductive BodySpelled (versions : Versions V) : VersionRange V → Text → Prop where
  | any : BodySpelled versions .any ['*', '>']
  | braces {range : VersionRange V} {inner : Text} (spelled : RangeSpelled versions range inner) :
      BodySpelled versions range ('\x7b' :: inner ++ ['\x7d', '>'])

theorem expectClose_eq_ok {α : Type} {value value' : α} :
    expectClose text value = .ok value' ↔ text = ['>'] ∧ value = value' := by
  unfold expectClose
  by_cases h : text = ['>']
  · simp [h]
  · simp [h, trailingError]

theorem parseVersionBody_iff {range : VersionRange V} :
    parseVersionBody versions text = .ok range ↔ BodySpelled versions range text := by
  unfold parseVersionBody
  constructor
  · intro h
    split at h
    · next body hstrip =>
        obtain ⟨rfl, rfl⟩ := expectClose_eq_ok.mp h
        rw [Lib.stripPrefix_eq_some.mp hstrip]
        exact .any
    · split at h
      · cases h
      · next body hstrip =>
          rw [Lib.stripPrefix_eq_some.mp hstrip]
          split at h
          · cases h
          · next inner behind hcut =>
              obtain ⟨_, hclose, h⟩ := Lib.bind_eq_ok.mp h
              rw [(Lib.splitOnce_eq_some.mp hcut).1, (expectClose_eq_ok.mp hclose).1]
              exact .braces (parseVersionRange_iff.mp h)
  · intro h
    cases h with
    | any => rfl
    | @braces _ inner spelled =>
        have hcut : splitOnce ['}'] (inner ++ ['}', '>']) = some (inner, ['>']) :=
          Lib.splitOnce_eq_some.mpr ⟨rfl, spelled.notMem⟩
        have hany : stripPrefix ['*'] ('{' :: inner ++ ['}', '>']) = none :=
          Lib.stripPrefix_cons_of_ne (by decide)
        have hbrace : stripPrefix ['{'] ('{' :: inner ++ ['}', '>']) = some (inner ++ ['}', '>']) :=
          Lib.stripPrefix_append
        simp only [hany, hbrace, hcut]
        exact parseVersionRange_iff.mpr spelled

inductive UnlockedSpelled (versions : Versions V) : UnlockedDependency V → Text → Prop where
  | plain {package : PackagePath} {path : Text} (spelled : PackageSpelled package path) :
      UnlockedSpelled versions ⟨package, none⟩ ('<' :: path ++ ['>'])
  | ranged {package : PackagePath} {path body : Text} {range : VersionRange V}
      (spelled : PackageSpelled package path) (rangeSpelled : BodySpelled versions range body) :
      UnlockedSpelled versions ⟨package, some range⟩ ('<' :: path ++ '@' :: body)

theorem parsePackagePath_append {path : Text} {c : Char} (h : PackageSpelled package path)
    (hc : c = '@' ∨ c = '>') :
    parsePackagePath (path ++ c :: trailing) = .ok (package, c :: trailing) :=
  parsePackagePath_iff.mpr ⟨path, h, rfl, by simpa [EndsPackage] using hc⟩

theorem parseUnlockedDependency_iff {dependency : UnlockedDependency V} :
    parseUnlockedDependency versions text = .ok dependency ↔
      UnlockedSpelled versions dependency text := by
  unfold parseUnlockedDependency
  constructor
  · intro h
    obtain ⟨inner, hopen, h⟩ := Lib.bind_eq_ok.mp h
    obtain ⟨⟨package, rest⟩, hpackage, h⟩ := Lib.bind_eq_ok.mp h
    obtain ⟨path, hspelled, hinner, -⟩ := parsePackagePath_iff.mp hpackage
    rw [expectOpen_eq_ok.mp hopen, hinner]
    dsimp only at h
    split at h
    · cases h
    · next c body =>
        split at h
        · next hc =>
            split at h
            · next hnil =>
                rw [← Lib.pure_eq_ok.mp h, hc, List.isEmpty_iff.mp hnil]
                exact .plain hspelled
            · cases h
        · split at h
          · next hc =>
              obtain ⟨range, hbody, h⟩ := Lib.bind_eq_ok.mp h
              rw [← Lib.pure_eq_ok.mp h, hc]
              exact .ranged hspelled (parseVersionBody_iff.mp hbody)
          · cases h
  · intro h
    cases h with
    | @plain package path spelled =>
        have hopen : expectOpen ('<' :: path ++ ['>']) = .ok (path ++ ['>']) :=
          expectOpen_eq_ok.mpr rfl
        rw [hopen, Lib.ok_bind, parsePackagePath_append spelled (Or.inr rfl)]
        rfl
    | @ranged package path body range spelled rangeSpelled =>
        have hopen : expectOpen ('<' :: path ++ '@' :: body) = .ok (path ++ '@' :: body) :=
          expectOpen_eq_ok.mpr rfl
        rw [hopen, Lib.ok_bind, parsePackagePath_append spelled (Or.inl rfl), Lib.ok_bind]
        simp [parseVersionBody_iff.mpr rangeSpelled]

inductive LockedSpelled (versions : Versions V) : LockedDependency V → Text → Prop where
  | locked {package : PackagePath} {path suffix : Text} {version : Option V}
      {hashName : Option HashName} (spelled : PackageSpelled package path) (behind : SuffixSpelled hashName suffix) :
      LockedSpelled versions ⟨package, version, hashName⟩
        ('<' :: path ++ versionSuffix versions version ++ '>' :: suffix)

theorem parseLockedDependency_iff {dependency : LockedDependency V} :
    parseLockedDependency versions text = .ok dependency ↔
      LockedSpelled versions dependency text := by
  unfold parseLockedDependency
  constructor
  · intro h
    obtain ⟨inner, hopen, h⟩ := Lib.bind_eq_ok.mp h
    obtain ⟨⟨package, rest⟩, hpackage, h⟩ := Lib.bind_eq_ok.mp h
    obtain ⟨path, hspelled, hinner, -⟩ := parsePackagePath_iff.mp hpackage
    rw [expectOpen_eq_ok.mp hopen, hinner]
    dsimp only at h
    split at h
    · cases h
    · next c body =>
        split at h
        · next hc =>
            obtain ⟨hashName, hsuffix, h⟩ := Lib.bind_eq_ok.mp h
            have hlocked := @LockedSpelled.locked V versions package path body none hashName hspelled
              (parseIntegritySuffix_iff.mp hsuffix)
            rw [← Lib.pure_eq_ok.mp h, hc]
            simpa [versionSuffix] using hlocked
        · split at h
          · next hc =>
              split at h
              · cases h
              · next version suffix hcut =>
                  obtain ⟨v, hversion, h⟩ := Lib.bind_eq_ok.mp h
                  obtain ⟨hashName, hsuffix, h⟩ := Lib.bind_eq_ok.mp h
                  have hlocked := @LockedSpelled.locked V versions package path suffix (some v) hashName
                    hspelled (parseIntegritySuffix_iff.mp hsuffix)
                  rw [← Lib.pure_eq_ok.mp h, hc, (Lib.splitOnce_eq_some.mp hcut).1,
                    ← parseSemver_eq_ok.mp hversion]
                  simpa [versionSuffix] using hlocked
          · cases h
  · rintro ⟨spelled, behind⟩
    rename_i package path suffix version hashName
    cases version with
    | none =>
        have hopen : expectOpen ('<' :: path ++ versionSuffix versions none ++ '>' :: suffix) =
            .ok (path ++ '>' :: suffix) := expectOpen_eq_ok.mpr (by simp [versionSuffix])
        rw [hopen, Lib.ok_bind, parsePackagePath_append spelled (Or.inr rfl), Lib.ok_bind]
        simp only [if_true, parseIntegritySuffix_iff.mpr behind, Lib.ok_bind]
        rfl
    | some v =>
        have hopen : expectOpen ('<' :: path ++ versionSuffix versions (some v) ++ '>' :: suffix) =
            .ok (path ++ '@' :: (versions.display v ++ '>' :: suffix)) :=
          expectOpen_eq_ok.mpr (by simp [versionSuffix])
        have hcut : splitOnce ['>'] (versions.display v ++ '>' :: suffix) =
            some (versions.display v, suffix) :=
          Lib.splitOnce_eq_some.mpr ⟨rfl, versions.notMem v (by decide) (by decide)⟩
        rw [hopen, Lib.ok_bind, parsePackagePath_append spelled (Or.inl rfl), Lib.ok_bind]
        simp [hcut, parseSemver_display, parseIntegritySuffix_iff.mpr behind, Lib.ok_bind]

inductive DependencySpelled (versions : Versions V) : Dependency V → Text → Prop where
  | unlocked {dependency : UnlockedDependency V} {rest : Text}
      (spelled : UnlockedSpelled versions dependency rest) :
      DependencySpelled versions (.unlocked dependency) (unlockedWord ++ rest)
  | locked {dependency : LockedDependency V} {rest : Text}
      (spelled : LockedSpelled versions dependency rest) :
      DependencySpelled versions (.locked dependency) (lockedWord ++ rest)

theorem parseDepNameString_iff {dependency : Dependency V} :
    parseDepNameString versions text = .ok (some dependency) ↔
      DependencySpelled versions dependency text := by
  unfold parseDepNameString
  constructor
  · intro h
    split at h
    · next rest hstrip =>
        obtain ⟨unlocked, hparse, h⟩ := Lib.bind_eq_ok.mp h
        obtain rfl := Option.some.inj (Lib.pure_eq_ok.mp h)
        rw [Lib.stripPrefix_eq_some.mp hstrip]
        exact .unlocked (parseUnlockedDependency_iff.mp hparse)
    · split at h
      · next rest hstrip =>
          obtain ⟨locked, hparse, h⟩ := Lib.bind_eq_ok.mp h
          obtain rfl := Option.some.inj (Lib.pure_eq_ok.mp h)
          rw [Lib.stripPrefix_eq_some.mp hstrip]
          exact .locked (parseLockedDependency_iff.mp hparse)
      · cases h
  · intro h
    cases h with
    | unlocked spelled =>
        simp only [Lib.stripPrefix_append, parseUnlockedDependency_iff.mpr spelled, Lib.ok_bind]
        rfl
    | @locked dependency rest spelled =>
        have hother : stripPrefix unlockedWord (lockedWord ++ rest) = none := rfl
        simp only [hother, Lib.stripPrefix_append, parseLockedDependency_iff.mpr spelled, Lib.ok_bind]
        rfl

end dependencies

end Telomere.Component
