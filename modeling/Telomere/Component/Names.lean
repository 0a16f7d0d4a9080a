import Telomere.Lib.Except
import Telomere.Lib.Text

/-!
# Names of imports and exports

A name is a label, one that is annotated, or the name of an interface; an import may also name a
dependency, an address or a hash. A parser accepts what such a name is displayed as, and nothing
else. Versions are read by another library.
-/

namespace Telomere.Component

open Lib (stripPrefix splitOnce rsplitOnce)

abbrev Text := List Char

/-- The failures of `ComponentParseError` that names lead to. -/
inductive NameError where
  | invalidExportName (message : String)
  | invalidImportName (message : String)
  | typeMismatch (message : String)
deriving DecidableEq, Repr

/-- The segments of a text between its hyphens, told whether they are behind another one. -/
def segmentsAre (segment : Text → Bool → Bool) (text : Text) : Bool :=
  match text.splitOn '-' with
  | [] => false
  | first :: segments => segment first false && segments.all (segment · true)

def isGeneralLabelSegment (segment : Text) (allowLeadingDigit : Bool) : Bool :=
  match segment with
  | [] => false
  | first :: rest =>
      (first.isAlpha || (allowLeadingDigit && first.isDigit)) && rest.all Char.isAlphanum

def isGeneralLabel (text : Text) : Bool := segmentsAre isGeneralLabelSegment text

def isLowercaseKebabSegment (segment : Text) (allowNumericOnly : Bool) : Bool :=
  if segment.isEmpty || !segment.all Char.isAlphanum then false
  else
    match segment.any Char.isLower, segment.any Char.isUpper with
    | true, false => true
    | false, false => allowNumericOnly
    | _, _ => false

def isLowercaseKebab (text : Text) : Bool := segmentsAre isLowercaseKebabSegment text

def parseLabel (text : Text) : Except String Text :=
  if isGeneralLabel text then .ok text else .error ("Invalid label: " ++ String.ofList text)

def parseWords (text : Text) : Except String Text :=
  if isLowercaseKebab text then .ok text else .error ("Invalid words: " ++ String.ofList text)

def parseWordsPath (text : Text) (separator : Char) : Except String Text :=
  if text.isEmpty then .error "empty string"
  else do
    let _ ← (text.splitOn separator).mapM parseWords
    return text

inductive PlainName where
  | plain (label : Text)
  | constructor (label : Text)
  | method (resource name : Text)
  | static (resource name : Text)
deriving DecidableEq, Repr

def constructorPrefix : Text :=
  ['[', 'c', 'o', 'n', 's', 't', 'r', 'u', 'c', 't', 'o', 'r', ']']

def methodPrefix : Text := ['[', 'm', 'e', 't', 'h', 'o', 'd', ']']

def staticPrefix : Text := ['[', 's', 't', 'a', 't', 'i', 'c', ']']

namespace PlainName

def display : PlainName → Text
  | plain label => label
  | constructor label => constructorPrefix ++ label
  | method resource name => methodPrefix ++ (resource ++ '.' :: name)
  | static resource name => staticPrefix ++ (resource ++ '.' :: name)

def WellFormed : PlainName → Prop
  | plain label | constructor label => isGeneralLabel label = true
  | method resource name | static resource name =>
      isGeneralLabel resource = true ∧ isGeneralLabel name = true

end PlainName

def parseDotted (make : Text → Text → PlainName) (message : String) (text rest : Text) :
    Except NameError (Option PlainName) :=
  match rest.splitOn '.' with
  | [a, b] => do
      let a ← (parseLabel a).mapError .invalidExportName
      let b ← (parseLabel b).mapError .invalidExportName
      return some (make a b)
  | _ => .error (.invalidExportName (message ++ String.ofList text))

def parsePlainNameString (text : Text) : Except NameError (Option PlainName) :=
  match stripPrefix constructorPrefix text with
  | some rest => do
      return some (.constructor (← (parseLabel rest).mapError .invalidExportName))
  | none =>
      match stripPrefix methodPrefix text with
      | some rest => parseDotted .method "Invalid method export name: " text rest
      | none =>
          match stripPrefix staticPrefix text with
          | some rest => parseDotted .static "Invalid static export name: " text rest
          | none => if isGeneralLabel text then .ok (some (.plain text)) else .ok none

/-- What is relied on of the library that reads and prints versions: a version is read from what it
is printed as, and from nothing else; it is printed with letters, digits, `.`, `-` and `+`. -/
structure Versions (V : Type) where
  parse : Text → Option V
  display : V → Text
  parse_display : ∀ v, parse (display v) = some v
  display_parse : ∀ text v, parse text = some v → display v = text
  display_ne_nil : ∀ v, display v ≠ []
  display_chars : ∀ v, ∀ c ∈ display v, c.isAlphanum ∨ c = '.' ∨ c = '-' ∨ c = '+'

structure InterfaceName (V : Type) where
  «namespace» : Text
  label : Text
  projection : Text
  version : Option V
deriving DecidableEq, Repr

section versions

variable {V : Type} (versions : Versions V)

def parseSemver (text : Text) : Except String V :=
  match versions.parse text with
  | some v => .ok v
  | none => .error ("`" ++ String.ofList text ++ "` is not a valid semver")

/-- `@` and a version, or nothing. -/
def versionSuffix : Option V → Text
  | some v => '@' :: versions.display v
  | none => []

def InterfaceName.path (name : InterfaceName V) : Text :=
  name.namespace ++ ':' :: name.label ++ '/' :: name.projection

def InterfaceName.display (name : InterfaceName V) : Text :=
  name.path ++ versionSuffix versions name.version

def cutVersion (text : Text) : Except String (Text × Option V) :=
  match splitOnce ['@'] text with
  | some (_, []) => .error "empty string"
  | some (path, version) => do return (path, some (← parseSemver versions version))
  | none => .ok (text, none)

/-- The package in front of the first `/`, its name behind the last `:`. -/
def interfaceParts (path : Text) (version : Option V) : Except String (Option (InterfaceName V)) :=
  match splitOnce ['/'] path with
  | none => .error "expected `/` after package name"
  | some (head, projection) =>
      match rsplitOnce ':' head with
      | none => .ok none
      | some (space, label) => do
          let space ← parseWordsPath space ':'
          let label ← parseWords label
          let projection ← parseWordsPath projection '/'
          return some ⟨space, label, projection, version⟩

def parseInterfaceNameString (text : Text) : Except String (Option (InterfaceName V)) :=
  if ':' ∉ text ∧ '/' ∉ text then .ok none
  else do
    let (path, version) ← cutVersion versions text
    interfaceParts path version

end versions

section labels

variable {text : Text} {c : Char}

/-- Letters, digits and hyphens, and at least one of them. -/
structure LabelChars (text : Text) : Prop where
  nonempty : text ≠ []
  chars : ∀ c ∈ text, c.isAlphanum ∨ c = '-'

theorem LabelChars.notMem (h : LabelChars text) (hc : c.isAlphanum = false) (hne : c ≠ '-') :
    c ∉ text := by
  intro hmem
  simpa [hc, hne] using h.chars c hmem

theorem segmentsAre_chars {segment : Text → Bool → Bool}
    (hsegment : ∀ part behind, segment part behind = true →
      part ≠ [] ∧ ∀ c ∈ part, c.isAlphanum = true)
    (h : segmentsAre segment text = true) : LabelChars text := by
  unfold segmentsAre at h
  cases hparts : text.splitOn '-' with
  | nil => simp [hparts] at h
  | cons first segments =>
      simp only [hparts, Bool.and_eq_true, List.all_eq_true] at h
      constructor
      · intro hnil
        simp only [hnil, List.splitOn_nil, List.cons.injEq] at hparts
        exact (hsegment first false h.1).1 hparts.1.symm
      · intro c hmem
        rcases Lib.mem_splitOn (d := '-') hmem with hd | ⟨part, hpart, hin⟩
        · exact Or.inr hd
        · rw [hparts] at hpart
          rcases List.mem_cons.mp hpart with rfl | hpart
          · exact Or.inl ((hsegment part false h.1).2 c hin)
          · exact Or.inl ((hsegment part true (h.2 part hpart)).2 c hin)

theorem isAlphanum_of_isAlpha (h : c.isAlpha = true) : c.isAlphanum = true := by
  simp [Char.isAlphanum, h]

theorem isAlphanum_of_isDigit (h : c.isDigit = true) : c.isAlphanum = true := by
  simp [Char.isAlphanum, h]

theorem generalLabel_chars (h : isGeneralLabel text = true) : LabelChars text := by
  apply segmentsAre_chars _ h
  intro part behind hpart
  cases part with
  | nil => simp [isGeneralLabelSegment] at hpart
  | cons first rest =>
      simp only [isGeneralLabelSegment, Bool.and_eq_true, Bool.or_eq_true, List.all_eq_true] at hpart
      refine ⟨List.cons_ne_nil first rest, ?_⟩
      intro c hmem
      rcases List.mem_cons.mp hmem with rfl | hmem
      · rcases hpart.1 with hfirst | hfirst
        · exact isAlphanum_of_isAlpha hfirst
        · exact isAlphanum_of_isDigit hfirst.2
      · exact hpart.2 c hmem

theorem lowercaseKebab_chars (h : isLowercaseKebab text = true) : LabelChars text := by
  apply segmentsAre_chars _ h
  intro part behind hpart
  unfold isLowercaseKebabSegment at hpart
  split at hpart
  · simp at hpart
  · next hsome => simpa using hsome

theorem parseLabel_eq_ok {label : Text} :
    parseLabel text = .ok label ↔ isGeneralLabel text = true ∧ text = label := by
  unfold parseLabel
  by_cases h : isGeneralLabel text = true
  · simp [h]
  · simp [h]

theorem parseWords_eq_ok {words : Text} :
    parseWords text = .ok words ↔ isLowercaseKebab text = true ∧ text = words := by
  unfold parseWords
  by_cases h : isLowercaseKebab text = true
  · simp [h]
  · simp [h]

/-- Words, one behind the other with separators between them. -/
def WordsPath (separator : Char) (text : Text) : Prop :=
  ∀ segment ∈ text.splitOn separator, isLowercaseKebab segment = true

theorem parseWordsPath_eq_ok {separator : Char} {path : Text} :
    parseWordsPath text separator = .ok path ↔ WordsPath separator text ∧ text = path := by
  unfold parseWordsPath
  cases text with
  | nil => simp [WordsPath, isLowercaseKebab, segmentsAre, isLowercaseKebabSegment]
  | cons c text =>
      have hparts : ∀ words, ((c :: text).splitOn separator).mapM parseWords = .ok words ↔
          WordsPath separator (c :: text) ∧ (c :: text).splitOn separator = words := by
        intro words
        rw [Lib.mapM_eq_ok]
        simp only [parseWords_eq_ok, List.forall₂_and_left, List.forall₂_eq_eq_eq]
        rfl
      rw [if_neg (by simp)]
      refine Lib.bind_eq_ok.trans ?_
      simp [hparts, Lib.pure_eq_ok]

theorem wordsPath_notMem {separator : Char} (h : WordsPath separator text)
    (hc : c.isAlphanum = false) (hne : c ≠ '-') (hsep : c ≠ separator) : c ∉ text := by
  intro hmem
  rcases Lib.mem_splitOn (d := separator) hmem with hd | ⟨part, hpart, hin⟩
  · exact hsep hd
  · exact (lowercaseKebab_chars (h part hpart)).notMem hc hne hin

end labels

section plain

variable {text rest : Text} {name : PlainName}

theorem mapError_eq_ok {ε ε' α : Type} {f : ε → ε'} {x : Except ε α} {a : α} :
    x.mapError f = .ok a ↔ x = .ok a := by
  cases x <;> simp [Except.mapError]

theorem parseDotted_eq_ok {make : Text → Text → PlainName} {message : String} :
    parseDotted make message text rest = .ok (some name) ↔
      ∃ a b, (isGeneralLabel a = true ∧ isGeneralLabel b = true) ∧ rest = a ++ '.' :: b ∧
        name = make a b := by
  constructor
  · intro h
    unfold parseDotted at h
    split at h
    · next a b hparts =>
        obtain ⟨a', ha, h⟩ := Lib.bind_eq_ok.mp h
        obtain ⟨b', hb, h⟩ := Lib.bind_eq_ok.mp h
        obtain ⟨hfirst, rfl⟩ := parseLabel_eq_ok.mp (mapError_eq_ok.mp ha)
        obtain ⟨hsecond, rfl⟩ := parseLabel_eq_ok.mp (mapError_eq_ok.mp hb)
        have hname := Option.some.inj (Lib.pure_eq_ok.mp h)
        exact ⟨a, b, ⟨hfirst, hsecond⟩, Lib.eq_of_splitOn_pair hparts, hname.symm⟩
    · cases h
  · rintro ⟨a, b, ⟨ha, hb⟩, rfl, rfl⟩
    have hdot := Lib.splitOn_pair ((generalLabel_chars ha).notMem (c := '.') (by decide) (by decide))
      ((generalLabel_chars hb).notMem (by decide) (by decide))
    have hfirst : (parseLabel a).mapError NameError.invalidExportName = .ok a :=
      mapError_eq_ok.mpr (parseLabel_eq_ok.mpr ⟨ha, rfl⟩)
    have hsecond : (parseLabel b).mapError NameError.invalidExportName = .ok b :=
      mapError_eq_ok.mpr (parseLabel_eq_ok.mpr ⟨hb, rfl⟩)
    simp only [parseDotted, hdot, hfirst, hsecond, Lib.ok_bind]
    rfl

theorem stripPrefix_label (h : isGeneralLabel text = true) (start : Text) :
    stripPrefix ('[' :: start) text = none :=
  Lib.stripPrefix_of_notMem ((generalLabel_chars h).notMem (by decide) (by decide))

/-- A plain name is read from what it is displayed as, and from nothing else. -/
theorem parsePlainNameString_iff :
    parsePlainNameString text = .ok (some name) ↔ name.WellFormed ∧ name.display = text := by
  constructor
  · intro h
    unfold parsePlainNameString at h
    split at h
    · next rest hstrip =>
        obtain ⟨label, hlabel, h⟩ := Lib.bind_eq_ok.mp h
        obtain ⟨hgeneral, rfl⟩ := parseLabel_eq_ok.mp (mapError_eq_ok.mp hlabel)
        obtain rfl := Option.some.inj (Lib.pure_eq_ok.mp h)
        exact ⟨hgeneral, (Lib.stripPrefix_eq_some.mp hstrip).symm⟩
    · split at h
      · next rest hstrip =>
          obtain ⟨a, b, hlabels, rfl, rfl⟩ := parseDotted_eq_ok.mp h
          exact ⟨hlabels, (Lib.stripPrefix_eq_some.mp hstrip).symm⟩
      · split at h
        · next rest hstrip =>
            obtain ⟨a, b, hlabels, rfl, rfl⟩ := parseDotted_eq_ok.mp h
            exact ⟨hlabels, (Lib.stripPrefix_eq_some.mp hstrip).symm⟩
        · split at h
          · next hlabel =>
              obtain rfl := Option.some.inj (Except.ok.inj h)
              exact ⟨hlabel, rfl⟩
          · cases h
  · rintro ⟨hformed, rfl⟩
    unfold parsePlainNameString
    cases name with
    | plain label =>
        have hlabel : isGeneralLabel label = true := hformed
        have hconstructor : stripPrefix constructorPrefix label = none :=
          stripPrefix_label hlabel _
        have hmethod : stripPrefix methodPrefix label = none := stripPrefix_label hlabel _
        have hstatic : stripPrefix staticPrefix label = none := stripPrefix_label hlabel _
        simp only [PlainName.display, hconstructor, hmethod, hstatic]
        exact if_pos hlabel
    | constructor label =>
        have hlabel : (parseLabel label).mapError NameError.invalidExportName = .ok label :=
          mapError_eq_ok.mpr (parseLabel_eq_ok.mpr ⟨hformed, rfl⟩)
        simp only [PlainName.display, Lib.stripPrefix_append, hlabel, Lib.ok_bind]
        rfl
    | method resource name =>
        have hconstructor : stripPrefix constructorPrefix
            (methodPrefix ++ (resource ++ '.' :: name)) = none := rfl
        simp only [PlainName.display, hconstructor, Lib.stripPrefix_append]
        exact parseDotted_eq_ok.mpr ⟨resource, name, hformed, rfl, rfl⟩
    | static resource name =>
        have hconstructor : stripPrefix constructorPrefix
            (staticPrefix ++ (resource ++ '.' :: name)) = none := rfl
        have hmethod : stripPrefix methodPrefix
            (staticPrefix ++ (resource ++ '.' :: name)) = none := rfl
        simp only [PlainName.display, hconstructor, hmethod, Lib.stripPrefix_append]
        exact parseDotted_eq_ok.mpr ⟨resource, name, hformed, rfl, rfl⟩

end plain

section interface

variable {V : Type} {versions : Versions V} {text path : Text} {version : Option V}
  {name : InterfaceName V}

structure InterfaceName.WellFormed (name : InterfaceName V) : Prop where
  «namespace» : WordsPath ':' name.namespace
  label : isLowercaseKebab name.label = true
  projection : WordsPath '/' name.projection

theorem parseSemver_eq_ok {v : V} :
    parseSemver versions text = .ok v ↔ versions.display v = text := by
  unfold parseSemver
  constructor
  · intro h
    split at h
    · next v' hparse =>
        obtain rfl := Except.ok.inj h
        exact versions.display_parse text v' hparse
    · cases h
  · rintro rfl
    rw [versions.parse_display]

/-- A path without `@` is cut off from the version behind it. -/
theorem cutVersion_eq_ok :
    cutVersion versions text = .ok (path, version) ↔
      text = path ++ versionSuffix versions version ∧ '@' ∉ path := by
  constructor
  · intro h
    unfold cutVersion at h
    split at h
    · cases h
    · next path' version' _ hsplit =>
        obtain ⟨v, hv, h⟩ := Lib.bind_eq_ok.mp h
        obtain ⟨rfl, rfl⟩ := Prod.mk.inj (Lib.pure_eq_ok.mp h)
        obtain ⟨htext, hfirst⟩ := Lib.splitOnce_eq_some.mp hsplit
        rw [htext, ← parseSemver_eq_ok.mp hv]
        exact ⟨rfl, hfirst⟩
    · next hsplit =>
        obtain ⟨rfl, rfl⟩ := Prod.mk.inj (Except.ok.inj h)
        exact ⟨(List.append_nil text).symm, Lib.splitOnce_eq_none.mp hsplit⟩
  · rintro ⟨rfl, hfirst⟩
    unfold cutVersion
    cases version with
    | none => simp [versionSuffix, Lib.splitOnce_of_notMem hfirst]
    | some v =>
        have hsplit : splitOnce ['@'] (path ++ '@' :: versions.display v) =
            some (path, versions.display v) := Lib.splitOnce_eq_some.mpr ⟨rfl, hfirst⟩
        have hparse : parseSemver versions (versions.display v) = .ok v := parseSemver_eq_ok.mpr rfl
        simp only [versionSuffix, hsplit]
        cases hdisplay : versions.display v with
        | nil => exact absurd hdisplay (versions.display_ne_nil v)
        | cons c rest =>
            rw [hdisplay] at hparse
            simp only [hparse, Lib.ok_bind]
            rfl

theorem InterfaceName.WellFormed.notMem {c : Char} (h : name.WellFormed) (hc : c.isAlphanum = false)
    (hne : c ≠ '-' ∧ c ≠ ':' ∧ c ≠ '/') : c ∉ name.path := by
  have hspace := wordsPath_notMem h.namespace hc hne.1 hne.2.1
  have hlabel := (lowercaseKebab_chars h.label).notMem hc hne.1
  have hprojection := wordsPath_notMem h.projection hc hne.1 hne.2.2
  simp [InterfaceName.path, hspace, hlabel, hprojection, hne]

theorem interfaceParts_eq_ok :
    interfaceParts path version = .ok (some name) ↔
      name.WellFormed ∧ name.path = path ∧ name.version = version := by
  unfold interfaceParts
  constructor
  · intro h
    split at h
    · cases h
    · next head projection hhead =>
        obtain ⟨hpath, -⟩ := Lib.splitOnce_eq_some.mp hhead
        split at h
        · cases h
        · next space label hspace =>
            obtain ⟨hspaceText, -⟩ := Lib.rsplitOnce_eq_some.mp hspace
            obtain ⟨space', hspace', h⟩ := Lib.bind_eq_ok.mp h
            obtain ⟨label', hlabel', h⟩ := Lib.bind_eq_ok.mp h
            obtain ⟨projection', hprojection', h⟩ := Lib.bind_eq_ok.mp h
            obtain rfl := Option.some.inj (Lib.pure_eq_ok.mp h)
            obtain ⟨hspaceWords, rfl⟩ := parseWordsPath_eq_ok.mp hspace'
            obtain ⟨hlabelWords, rfl⟩ := parseWords_eq_ok.mp hlabel'
            obtain ⟨hprojectionWords, rfl⟩ := parseWordsPath_eq_ok.mp hprojection'
            refine ⟨⟨hspaceWords, hlabelWords, hprojectionWords⟩, ?_, rfl⟩
            simp [InterfaceName.path, hpath, hspaceText]
  · rintro ⟨h, rfl, rfl⟩
    have hslash : '/' ∉ name.namespace ++ ':' :: name.label := by
      have hspace := wordsPath_notMem h.namespace (c := '/') (by decide) (by decide) (by decide)
      have hlabel := (lowercaseKebab_chars h.label).notMem (c := '/') (by decide) (by decide)
      simp [hspace, hlabel]
    have hhead : splitOnce ['/'] name.path =
        some (name.namespace ++ ':' :: name.label, name.projection) :=
      Lib.splitOnce_eq_some.mpr ⟨rfl, hslash⟩
    have hspace : rsplitOnce ':' (name.namespace ++ ':' :: name.label) =
        some (name.namespace, name.label) :=
      Lib.rsplitOnce_eq_some.mpr ⟨rfl, (lowercaseKebab_chars h.label).notMem (by decide) (by decide)⟩
    have hspaceWords := parseWordsPath_eq_ok.mpr ⟨h.namespace, rfl⟩
    have hlabelWords := parseWords_eq_ok.mpr ⟨h.label, rfl⟩
    have hprojectionWords := parseWordsPath_eq_ok.mpr ⟨h.projection, rfl⟩
    simp only [hhead, hspace, hspaceWords, hlabelWords, hprojectionWords, Lib.ok_bind]
    rfl

/-- The name of an interface is read from what it is displayed as, and from nothing else. -/
theorem parseInterfaceNameString_iff :
    parseInterfaceNameString versions text = .ok (some name) ↔
      name.WellFormed ∧ name.display versions = text := by
  unfold parseInterfaceNameString
  constructor
  · intro h
    split at h
    · cases h
    · obtain ⟨parts, hcut, h⟩ := Lib.bind_eq_ok.mp h
      obtain ⟨hformed, hpath, hversion⟩ := interfaceParts_eq_ok.mp h
      refine ⟨hformed, ?_⟩
      rw [(cutVersion_eq_ok.mp hcut).1, InterfaceName.display, hpath, hversion]
  · rintro ⟨hformed, rfl⟩
    have hcut : cutVersion versions (name.display versions) = .ok (name.path, name.version) :=
      cutVersion_eq_ok.mpr ⟨rfl, hformed.notMem (by decide) (by decide)⟩
    rw [if_neg (by simp [InterfaceName.display, InterfaceName.path]), hcut]
    exact interfaceParts_eq_ok.mpr ⟨hformed, rfl, rfl⟩

end interface

end Telomere.Component
