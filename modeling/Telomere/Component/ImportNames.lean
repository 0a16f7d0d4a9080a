import Telomere.Component.Dependencies
import Mathlib.Data.List.Induction
import Mathlib.Data.List.Pairwise

/-!
# The names that a component declares

A text is a name of one kind only. The names of the imports of a component are told apart by more
than their texts: none of them is weakly equal to another, so the entry of one import in the map
from texts to descriptions is never replaced by that of another one. It is the same with exports.
-/

namespace Telomere.Component

open Lib (stripPrefix)

inductive ParsedExportName (V : Type) where
  | plain (name : PlainName)
  | interface (name : InterfaceName V)
deriving DecidableEq, Repr

structure ExportName (V : Type) where
  original : Text
  parsed : ParsedExportName V
deriving DecidableEq, Repr

inductive ParsedImportName (V : Type) where
  | plain (name : PlainName)
  | interface (name : InterfaceName V)
  | dependency (dependency : Dependency V)
  | url (name : UrlName)
  | hash (name : HashName)
deriving DecidableEq, Repr

structure ImportName (V : Type) where
  original : Text
  parsed : ParsedImportName V
deriving DecidableEq, Repr

def relativeUrlWord : Text :=
  ['r', 'e', 'l', 'a', 't', 'i', 'v', 'e', '-', 'u', 'r', 'l', '=']

def notExtern (text : Text) : String := "`" ++ String.ofList text ++ "` is not a valid extern name"

/-- A parser that takes the text, or leaves it to the next one. -/
def tryKind {α N : Type} (parsed : Except NameError (Option α)) (make : α → N)
    (next : Except NameError N) : Except NameError N := do
  match ← parsed with
  | some name => return make name
  | none => next

section parsers

variable {V : Type} (versions : Versions V)

def parseExportName (text : Text) : Except NameError (ExportName V) :=
  if (stripPrefix relativeUrlWord text).isSome then .error (.invalidExportName (notExtern text))
  else
    tryKind (parsePlainNameString text) (fun parsed => ⟨text, .plain parsed⟩) <|
    tryKind ((parseInterfaceNameString versions text).mapError .invalidExportName)
      (fun parsed => ⟨text, .interface parsed⟩) <|
    .error (.invalidExportName ("Invalid export name: `" ++ String.ofList text ++ "`"))

def parseImportName (text : Text) : Except NameError (ImportName V) :=
  if (stripPrefix relativeUrlWord text).isSome then .error (.invalidImportName (notExtern text))
  else
    tryKind (parsePlainNameString text) (fun parsed => ⟨text, .plain parsed⟩) <|
    tryKind ((parseDepNameString versions text).mapError .invalidImportName)
      (fun parsed => ⟨text, .dependency parsed⟩) <|
    tryKind ((parseUrlNameString text).mapError .invalidImportName)
      (fun parsed => ⟨text, .url parsed⟩) <|
    tryKind ((parseHashNameString text).mapError .invalidImportName)
      (fun parsed => ⟨text, .hash parsed⟩) <|
    tryKind ((parseInterfaceNameString versions text).mapError .invalidImportName)
      (fun parsed => ⟨text, .interface parsed⟩) <|
    .error (.invalidImportName ("Invalid import name: `" ++ String.ofList text ++ "`"))

end parsers

/-! ## A text is a name of one kind -/

section kinds

variable {V : Type} {versions : Versions V} {text rest : Text}

inductive ExportSpelled (versions : Versions V) : ParsedExportName V → Text → Prop where
  | plain {name : PlainName} (formed : name.WellFormed) :
      ExportSpelled versions (.plain name) name.display
  | interface {name : InterfaceName V} (formed : name.WellFormed) :
      ExportSpelled versions (.interface name) (name.display versions)

inductive ImportSpelled (versions : Versions V) : ParsedImportName V → Text → Prop where
  | plain {name : PlainName} (formed : name.WellFormed) :
      ImportSpelled versions (.plain name) name.display
  | interface {name : InterfaceName V} (formed : name.WellFormed) :
      ImportSpelled versions (.interface name) (name.display versions)
  | dependency {dependency : Dependency V} {text : Text}
      (spelled : DependencySpelled versions dependency text) :
      ImportSpelled versions (.dependency dependency) text
  | url {name : UrlName} {text : Text} (spelled : UrlSpelled name text) :
      ImportSpelled versions (.url name) text
  | hash {name : HashName} {text : Text} (spelled : HashSpelled name text) :
      ImportSpelled versions (.hash name) text

theorem stripPrefix_of_equals {start : Text} (hstart : '=' ∈ start) (h : '=' ∉ text) :
    stripPrefix start text = none := by
  cases hstrip : stripPrefix start text with
  | none => rfl
  | some rest =>
      rw [Lib.stripPrefix_eq_some.mp hstrip] at h
      exact absurd (List.mem_append_left rest hstart) h

theorem PlainName.WellFormed.notMem {name : PlainName} (h : name.WellFormed) : '=' ∉ name.display := by
  have hlabel : ∀ {label}, isGeneralLabel label = true → '=' ∉ label := fun hgeneral =>
    (generalLabel_chars hgeneral).notMem (by decide) (by decide)
  cases name with
  | plain label => exact hlabel h
  | constructor label => simpa [PlainName.display, constructorPrefix] using hlabel h
  | method resource name =>
      simpa [PlainName.display, methodPrefix] using ⟨hlabel h.1, hlabel h.2⟩
  | static resource name =>
      simpa [PlainName.display, staticPrefix] using ⟨hlabel h.1, hlabel h.2⟩

theorem InterfaceName.WellFormed.notMem_display {name : InterfaceName V} (h : name.WellFormed)
    {c : Char} (hc : c.isAlphanum = false)
    (hne : c ≠ '-' ∧ c ≠ ':' ∧ c ≠ '/' ∧ c ≠ '.' ∧ c ≠ '+' ∧ c ≠ '@') :
    c ∉ name.display versions := by
  have hpath := h.notMem hc ⟨hne.1, hne.2.1, hne.2.2.1⟩
  cases hversion : name.version with
  | none => simpa [InterfaceName.display, versionSuffix, hversion] using hpath
  | some v =>
      have hv := versions.notMem v hc ⟨hne.2.2.2.1, hne.1, hne.2.2.2.2.1⟩
      simp [InterfaceName.display, versionSuffix, hversion, hpath, hv, hne]

/-- A text with a character that no label has, and without an annotation. -/
theorem parsePlainNameString_none {c : Char} (hopen : text.head? ≠ some '[') (hmem : c ∈ text)
    (hc : c.isAlphanum = false) (hne : c ≠ '-') : parsePlainNameString text = .ok none := by
  have hstrip : ∀ start, stripPrefix ('[' :: start) text = none := by
    intro start
    cases text with
    | nil => rfl
    | cons d text =>
        apply Lib.stripPrefix_cons_of_ne
        rintro rfl
        exact hopen rfl
  have hlabel : ¬ isGeneralLabel text = true := fun hgeneral =>
    (generalLabel_chars hgeneral).notMem hc hne hmem
  have hconstructor : stripPrefix constructorPrefix text = none := hstrip _
  have hmethod : stripPrefix methodPrefix text = none := hstrip _
  have hstatic : stripPrefix staticPrefix text = none := hstrip _
  simp [parsePlainNameString, hconstructor, hmethod, hstatic, hlabel]

theorem InterfaceName.WellFormed.parsePlain_none {name : InterfaceName V} (h : name.WellFormed) :
    parsePlainNameString (name.display versions) = .ok none := by
  have hopen : '[' ∉ name.display versions := h.notMem_display (by decide) (by decide)
  have hcolon : ':' ∈ name.display versions := by simp [InterfaceName.display, InterfaceName.path]
  exact parsePlainNameString_none (fun hhead => hopen (List.mem_of_head? hhead)) hcolon (by decide)
    (by decide)

theorem tryKind_eq_ok {α N : Type} {parsed : Except NameError (Option α)} {make : α → N}
    {next : Except NameError N} {name : N} :
    tryKind parsed make next = .ok name ↔
      (∃ a, parsed = .ok (some a) ∧ make a = name) ∨ (parsed = .ok none ∧ next = .ok name) := by
  cases parsed with
  | error e => simp [tryKind, bind, Except.bind]
  | ok found =>
      cases found with
      | none => simp [tryKind, bind, Except.bind]
      | some a => simp [tryKind, bind, Except.bind, Lib.pure_eq_ok]

theorem ExportSpelled.notRelative {parsed : ParsedExportName V}
    (h : ExportSpelled versions parsed text) : stripPrefix relativeUrlWord text = none := by
  cases h with
  | plain formed => exact stripPrefix_of_equals (by decide) formed.notMem
  | interface formed =>
      exact stripPrefix_of_equals (by decide) (formed.notMem_display (by decide) (by decide))

theorem ImportSpelled.notRelative {parsed : ParsedImportName V}
    (h : ImportSpelled versions parsed text) : stripPrefix relativeUrlWord text = none := by
  cases h with
  | plain formed => exact stripPrefix_of_equals (by decide) formed.notMem
  | interface formed =>
      exact stripPrefix_of_equals (by decide) (formed.notMem_display (by decide) (by decide))
  | dependency spelled => cases spelled <;> rfl
  | url spelled => cases spelled; rfl
  | hash spelled => cases spelled; rfl

theorem parseExportName_sound {name : ExportName V} (h : parseExportName versions text = .ok name) :
    name.original = text ∧ ExportSpelled versions name.parsed text := by
  unfold parseExportName at h
  obtain ⟨-, h⟩ := Lib.ite_error_eq_ok.mp h
  rcases tryKind_eq_ok.mp h with ⟨plain, hplain, rfl⟩ | ⟨-, h⟩
  · obtain ⟨hformed, rfl⟩ := parsePlainNameString_iff.mp hplain
    exact ⟨rfl, .plain hformed⟩
  rcases tryKind_eq_ok.mp h with ⟨interface, hinterface, rfl⟩ | ⟨-, h⟩
  · obtain ⟨hformed, rfl⟩ := parseInterfaceNameString_iff.mp (mapError_eq_ok.mp hinterface)
    exact ⟨rfl, .interface hformed⟩
  · cases h

theorem parseExportName_complete {parsed : ParsedExportName V}
    (h : ExportSpelled versions parsed text) : parseExportName versions text = .ok ⟨text, parsed⟩ := by
  unfold parseExportName
  rw [if_neg (by simp [h.notRelative])]
  cases h with
  | @plain plain formed =>
      have hplain := parsePlainNameString_iff.mpr ⟨formed, rfl⟩
      exact tryKind_eq_ok.mpr (Or.inl ⟨plain, hplain, rfl⟩)
  | @interface interface formed =>
      have hinterface : parseInterfaceNameString versions (interface.display versions) =
          .ok (some interface) := parseInterfaceNameString_iff.mpr ⟨formed, rfl⟩
      refine tryKind_eq_ok.mpr (Or.inr ⟨formed.parsePlain_none, ?_⟩)
      exact tryKind_eq_ok.mpr (Or.inl ⟨interface, mapError_eq_ok.mpr hinterface, rfl⟩)

/-- The name of an export is read from what it is spelled as, and from nothing else. -/
theorem parseExportName_iff {name : ExportName V} :
    parseExportName versions text = .ok name ↔
      name.original = text ∧ ExportSpelled versions name.parsed text := by
  constructor
  · exact parseExportName_sound
  · rintro ⟨rfl, hspelled⟩
    exact parseExportName_complete hspelled

/-- Texts of the last three kinds start with a word that ends in `=`. -/
theorem parsePlain_word {c : Char} {word : Text} (hc : c ≠ '[') (hword : '=' ∈ word) :
    parsePlainNameString (c :: word ++ rest) = .ok none := by
  apply parsePlainNameString_none (c := '=')
  · simpa using hc
  · exact List.mem_append_left rest (List.mem_cons_of_mem c hword)
  · decide
  · decide

theorem DependencySpelled.parsePlain_none {dependency : Dependency V}
    (h : DependencySpelled versions dependency text) : parsePlainNameString text = .ok none := by
  cases h with
  | unlocked _ => exact parsePlain_word (by decide) (by decide)
  | locked _ => exact parsePlain_word (by decide) (by decide)

theorem parseDep_of_notMem (h : '=' ∉ text) : parseDepNameString versions text = .ok none := by
  have hunlocked : stripPrefix unlockedWord text = none := stripPrefix_of_equals (by decide) h
  have hlocked : stripPrefix lockedWord text = none := stripPrefix_of_equals (by decide) h
  simp [parseDepNameString, hunlocked, hlocked]

theorem parseUrl_of_notMem (h : '=' ∉ text) : parseUrlNameString text = .ok none := by
  have hurl : stripPrefix urlWord text = none := stripPrefix_of_equals (by decide) h
  simp [parseUrlNameString, hurl]

theorem parseHash_of_notMem (h : '=' ∉ text) : parseHashNameString text = .ok none := by
  have hhash : stripPrefix integrityWord text = none := stripPrefix_of_equals (by decide) h
  simp [parseHashNameString, hhash]

theorem parseImportName_sound {name : ImportName V} (h : parseImportName versions text = .ok name) :
    name.original = text ∧ ImportSpelled versions name.parsed text := by
  unfold parseImportName at h
  obtain ⟨-, h⟩ := Lib.ite_error_eq_ok.mp h
  rcases tryKind_eq_ok.mp h with ⟨plain, hplain, rfl⟩ | ⟨-, h⟩
  · obtain ⟨hformed, rfl⟩ := parsePlainNameString_iff.mp hplain
    exact ⟨rfl, .plain hformed⟩
  rcases tryKind_eq_ok.mp h with ⟨dependency, hdependency, rfl⟩ | ⟨-, h⟩
  · exact ⟨rfl, .dependency (parseDepNameString_iff.mp (mapError_eq_ok.mp hdependency))⟩
  rcases tryKind_eq_ok.mp h with ⟨url, hurl, rfl⟩ | ⟨-, h⟩
  · exact ⟨rfl, .url (parseUrlNameString_iff.mp (mapError_eq_ok.mp hurl))⟩
  rcases tryKind_eq_ok.mp h with ⟨hash, hhash, rfl⟩ | ⟨-, h⟩
  · exact ⟨rfl, .hash (parseHashNameString_iff.mp (mapError_eq_ok.mp hhash))⟩
  rcases tryKind_eq_ok.mp h with ⟨interface, hinterface, rfl⟩ | ⟨-, h⟩
  · obtain ⟨hformed, rfl⟩ := parseInterfaceNameString_iff.mp (mapError_eq_ok.mp hinterface)
    exact ⟨rfl, .interface hformed⟩
  · cases h

theorem parseImportName_complete {parsed : ParsedImportName V}
    (h : ImportSpelled versions parsed text) : parseImportName versions text = .ok ⟨text, parsed⟩ := by
  unfold parseImportName
  rw [if_neg (by simp [h.notRelative])]
  cases h with
  | @plain plain formed =>
      have hplain := parsePlainNameString_iff.mpr ⟨formed, rfl⟩
      exact tryKind_eq_ok.mpr (Or.inl ⟨plain, hplain, rfl⟩)
  | @dependency dependency text spelled =>
      have hdependency := parseDepNameString_iff.mpr spelled
      refine tryKind_eq_ok.mpr (Or.inr ⟨spelled.parsePlain_none, ?_⟩)
      exact tryKind_eq_ok.mpr (Or.inl ⟨dependency, mapError_eq_ok.mpr hdependency, rfl⟩)
  | @url name text spelled =>
      have hplain : parsePlainNameString text = .ok none := by
        cases spelled
        exact parsePlain_word (by decide) (by simp)
      have hdependency : parseDepNameString versions text = .ok none := by
        cases spelled
        rfl
      refine tryKind_eq_ok.mpr (Or.inr ⟨hplain, ?_⟩)
      refine tryKind_eq_ok.mpr (Or.inr ⟨mapError_eq_ok.mpr hdependency, ?_⟩)
      have hurl := parseUrlNameString_iff.mpr spelled
      exact tryKind_eq_ok.mpr (Or.inl ⟨name, mapError_eq_ok.mpr hurl, rfl⟩)
  | @hash name text spelled =>
      have hplain : parsePlainNameString text = .ok none := by
        cases spelled
        exact parsePlain_word (by decide) (by decide)
      have hdependency : parseDepNameString versions text = .ok none := by
        cases spelled
        rfl
      have hurl : parseUrlNameString text = .ok none := by
        cases spelled
        rfl
      refine tryKind_eq_ok.mpr (Or.inr ⟨hplain, ?_⟩)
      refine tryKind_eq_ok.mpr (Or.inr ⟨mapError_eq_ok.mpr hdependency, ?_⟩)
      refine tryKind_eq_ok.mpr (Or.inr ⟨mapError_eq_ok.mpr hurl, ?_⟩)
      have hhash := parseHashNameString_iff.mpr spelled
      exact tryKind_eq_ok.mpr (Or.inl ⟨name, mapError_eq_ok.mpr hhash, rfl⟩)
  | @interface interface formed =>
      have hequals : '=' ∉ interface.display versions :=
        formed.notMem_display (by decide) (by decide)
      have hinterface : parseInterfaceNameString versions (interface.display versions) =
          .ok (some interface) := parseInterfaceNameString_iff.mpr ⟨formed, rfl⟩
      refine tryKind_eq_ok.mpr (Or.inr ⟨formed.parsePlain_none, ?_⟩)
      refine tryKind_eq_ok.mpr (Or.inr ⟨mapError_eq_ok.mpr (parseDep_of_notMem hequals), ?_⟩)
      refine tryKind_eq_ok.mpr (Or.inr ⟨mapError_eq_ok.mpr (parseUrl_of_notMem hequals), ?_⟩)
      refine tryKind_eq_ok.mpr (Or.inr ⟨mapError_eq_ok.mpr (parseHash_of_notMem hequals), ?_⟩)
      exact tryKind_eq_ok.mpr (Or.inl ⟨interface, mapError_eq_ok.mpr hinterface, rfl⟩)

/-- The name of an import is read from what it is spelled as, and from nothing else. -/
theorem parseImportName_iff {name : ImportName V} :
    parseImportName versions text = .ok name ↔
      name.original = text ∧ ImportSpelled versions name.parsed text := by
  constructor
  · exact parseImportName_sound
  · rintro ⟨rfl, hspelled⟩
    exact parseImportName_complete hspelled

end kinds

def labelFlat (label : Text) : Text := label.map Char.toLower

inductive PlainNameShape where
  | bare (label : Text)
  | constructor (label : Text)
  | dotted (resource name : Text)
deriving DecidableEq, Repr

namespace PlainName

def shape : PlainName → PlainNameShape
  | plain label => .bare label
  | constructor label => .constructor label
  | method resource name | static resource name => .dotted resource name

def flat (name : PlainName) : Text :=
  match name.shape with
  | .bare label | .constructor label => labelFlat label
  | .dotted resource name => labelFlat resource ++ '.' :: labelFlat name

def weakEq (name other : PlainName) : Bool :=
  match name.shape, other.shape with
  | .bare _, .bare _ => name.flat == other.flat
  | .bare _, .constructor _ => false
  | .bare label, .dotted resource name =>
      labelFlat label == labelFlat resource && labelFlat label == labelFlat name
  | .constructor _, .bare _ => false
  | .constructor _, .constructor _ => name.flat == other.flat
  | .constructor _, .dotted _ _ => false
  | .dotted resource name, .bare label =>
      labelFlat resource == labelFlat label && labelFlat name == labelFlat label
  | .dotted _ _, .constructor _ => false
  | .dotted resource name, .dotted resource' name' =>
      labelFlat resource == labelFlat resource' && labelFlat name == labelFlat name'

end PlainName

section weak

variable {V : Type} [DecidableEq V] (versions : Versions V)

def ParsedExportName.weakEq : ParsedExportName V → ParsedExportName V → Bool
  | .plain name, .plain other => name.weakEq other
  | .interface name, .interface other => name.display versions == other.display versions
  | _, _ => false

def ParsedImportName.weakEq : ParsedImportName V → ParsedImportName V → Bool
  | .plain name, .plain other => name.weakEq other
  | .interface name, .interface other => name.display versions == other.display versions
  | .dependency name, .dependency other => name == other
  | .url name, .url other => name == other
  | .hash name, .hash other => name == other
  | _, _ => false

end weak

/-- What is left of a name for telling it from others. A label without an annotation stands in each
place of a dotted name. -/
inductive NameKey (V : Type) where
  | constructor (label : Text)
  | words (resource method : Text)
  | interface (text : Text)
  | dependency (dependency : Dependency V)
  | url (name : UrlName)
  | hash (name : HashName)

def PlainName.key (V : Type) : PlainName → NameKey V
  | plain label => .words (labelFlat label) (labelFlat label)
  | constructor label => .constructor (labelFlat label)
  | method resource name | static resource name => .words (labelFlat resource) (labelFlat name)

def ParsedExportName.key {V : Type} (versions : Versions V) : ParsedExportName V → NameKey V
  | .plain name => name.key V
  | .interface name => .interface (name.display versions)

def ParsedImportName.key {V : Type} (versions : Versions V) : ParsedImportName V → NameKey V
  | .plain name => name.key V
  | .interface name => .interface (name.display versions)
  | .dependency name => .dependency name
  | .url name => .url name
  | .hash name => .hash name

section keys

variable {V : Type} {versions : Versions V}

theorem PlainName.weakEq_iff {name other : PlainName} :
    name.weakEq other = true ↔ name.key V = other.key V := by
  cases name with
  | plain _ => cases other <;> simp [weakEq, shape, flat, key]
  | constructor _ => cases other <;> simp [weakEq, shape, flat, key]
  | method _ _ => cases other <;> simp [weakEq, shape, key]
  | static _ _ => cases other <;> simp [weakEq, shape, key]

theorem PlainName.key_eq (name : PlainName) :
    (∃ label, name.key V = .constructor label) ∨ ∃ a b, name.key V = .words a b := by
  cases name <;> simp [key]

theorem ParsedExportName.weakEq_iff {name other : ParsedExportName V} :
    name.weakEq versions other = true ↔ name.key versions = other.key versions := by
  cases name with
  | plain name =>
      cases other with
      | plain other => exact PlainName.weakEq_iff
      | interface other =>
          rcases @PlainName.key_eq V name with ⟨_, hkey⟩ | ⟨_, _, hkey⟩
          · simp [weakEq, key, hkey]
          · simp [weakEq, key, hkey]
  | interface name =>
      cases other with
      | plain other =>
          rcases @PlainName.key_eq V other with ⟨_, hkey⟩ | ⟨_, _, hkey⟩
          · simp [weakEq, key, hkey]
          · simp [weakEq, key, hkey]
      | interface other => simp [weakEq, key]

variable [DecidableEq V]

theorem ParsedImportName.weakEq_iff {name other : ParsedImportName V} :
    name.weakEq versions other = true ↔ name.key versions = other.key versions := by
  cases name with
  | plain name =>
      cases other with
      | plain other => exact PlainName.weakEq_iff
      | _ =>
          rcases @PlainName.key_eq V name with ⟨_, hkey⟩ | ⟨_, _, hkey⟩
          · simp [weakEq, key, hkey]
          · simp [weakEq, key, hkey]
  | _ =>
      cases other with
      | plain other =>
          rcases @PlainName.key_eq V other with ⟨_, hkey⟩ | ⟨_, _, hkey⟩
          · simp [weakEq, key, hkey]
          · simp [weakEq, key, hkey]
      | _ => simp [weakEq, key]

end keys

/-- Imports, or exports. -/
structure Naming (N : Type) where
  parse : Text → Except NameError N
  original : N → Text
  weakEq : N → N → Bool
  conflict : N → N → NameError
  parse_original : ∀ {text name}, parse text = .ok name → original name = text
  weakEq_self : ∀ name, weakEq name name = true

/-- Names in the order of their declarations, and the map from texts to what is declared. -/
structure Surface (N D : Type) where
  names : List N
  entries : List (Text × D)
deriving DecidableEq, Repr

variable {N D : Type}

/-- `HashMap::insert`. -/
def insertEntry (entries : List (Text × D)) (text : Text) (desc : D) : List (Text × D) :=
  if entries.any fun entry => entry.1 = text then
    entries.map fun entry => if entry.1 = text then (text, desc) else entry
  else entries ++ [(text, desc)]

namespace Naming

variable (naming : Naming N) (check : Surface N D → N → D → Except NameError Unit)

/-- What else is looked at is left to `check`: it reads the name, what is declared under it and the
surface in front of it. -/
def declare (surface : Surface N D) (decl : Text × D) : Except NameError (Surface N D) := do
  let name ← naming.parse decl.1
  match surface.names.find? (naming.weakEq · name) with
  | some existing => .error (naming.conflict name existing)
  | none => do
      check surface name decl.2
      return ⟨surface.names ++ [name], insertEntry surface.entries (naming.original name) decl.2⟩

def declareAll (decls : List (Text × D)) : Except NameError (Surface N D) :=
  decls.foldlM (naming.declare check) ⟨[], []⟩

/-- A declaration on its own, behind a surface. -/
def Declares (surface : Surface N D) (decl : Text × D) (name : N) : Prop :=
  naming.parse decl.1 = .ok name ∧ check surface name decl.2 = .ok ()

/-- Each declaration is in order behind those in front of it. -/
def InOrder (decls : List (Text × D)) (names : List N) : Prop :=
  names.length = decls.length ∧ ∀ i decl name, decls[i]? = some decl → names[i]? = some name →
    naming.Declares check ⟨names.take i, decls.take i⟩ decl name

def Apart (names : List N) : Prop := names.Pairwise fun a b => naming.weakEq a b = false

variable {naming check} {names : List N} {decls : List (Text × D)} {decl : Text × D}
  {surface : Surface N D}

theorem InOrder.of_length_eq_zero (hlength : names.length = 0) :
    naming.InOrder check ([] : List (Text × D)) names :=
  ⟨hlength, fun _ _ _ hdecl => by cases hdecl⟩

theorem inOrder_concat {name : N} :
    naming.InOrder check (decls ++ [decl]) (names ++ [name]) ↔
      naming.InOrder check decls names ∧ naming.Declares check ⟨names, decls⟩ decl name := by
  constructor
  · rintro ⟨hlength, hall⟩
    have hlength' : names.length = decls.length := by simpa using hlength
    refine ⟨⟨hlength', fun i decl' name' hdecl hname => ?_⟩, ?_⟩
    · have hd : i < decls.length := (List.getElem?_eq_some_iff.mp hdecl).1
      have hn : i < names.length := hlength' ▸ hd
      have hat := hall i decl' name' (by rw [List.getElem?_append_left hd, hdecl])
        (by rw [List.getElem?_append_left hn, hname])
      rwa [List.take_append_of_le_length (Nat.le_of_lt hn), List.take_append_of_le_length (Nat.le_of_lt hd)] at hat
    · have hlast := hall decls.length decl name (by simp) (by simp [← hlength'])
      rw [List.take_left, ← hlength', List.take_left] at hlast
      exact hlast
  · rintro ⟨⟨hlength, hall⟩, hlast⟩
    refine ⟨by simp [hlength], fun i decl' name' hdecl hname => ?_⟩
    rcases Nat.lt_trichotomy i decls.length with hd | rfl | hd
    · have hn : i < names.length := hlength ▸ hd
      rw [List.getElem?_append_left hd] at hdecl
      rw [List.getElem?_append_left hn] at hname
      rw [List.take_append_of_le_length (Nat.le_of_lt hn), List.take_append_of_le_length (Nat.le_of_lt hd)]
      exact hall i decl' name' hdecl hname
    · rw [List.getElem?_concat_length] at hdecl
      rw [← hlength, List.getElem?_concat_length] at hname
      obtain rfl := Option.some.inj hdecl
      obtain rfl := Option.some.inj hname
      rw [List.take_left, ← hlength, List.take_left]
      exact hlast
    · have hnone : (decls ++ [decl])[i]? = none := List.getElem?_eq_none (by simp; omega)
      rw [hnone] at hdecl
      cases hdecl

theorem InOrder.notMem (hdone : naming.InOrder check decls names) {name : N}
    (hparse : naming.parse decl.1 = .ok name)
    (hnew : ∀ existing ∈ names, naming.weakEq existing name = false) :
    decl.1 ∉ decls.map (·.1) := by
  intro hmem
  obtain ⟨entry, hentry, htext⟩ := List.mem_map.mp hmem
  obtain ⟨i, hi, rfl⟩ := List.getElem_of_mem hentry
  have hlt : i < names.length := hdone.1 ▸ hi
  have hold : naming.parse decls[i].1 = .ok names[i] :=
    (hdone.2 i _ _ (List.getElem?_eq_getElem hi) (List.getElem?_eq_getElem hlt)).1
  rw [htext, hparse] at hold
  obtain rfl := Except.ok.inj hold
  simpa [naming.weakEq_self] using hnew _ (List.getElem_mem hlt)

theorem declare_eq_ok (hdone : naming.InOrder check decls names) :
    naming.declare check ⟨names, decls⟩ decl = .ok surface ↔
      ∃ name, naming.Declares check ⟨names, decls⟩ decl name ∧
        (∀ existing ∈ names, naming.weakEq existing name = false) ∧
        surface = ⟨names ++ [name], decls ++ [decl]⟩ := by
  have hinsert : ∀ {name}, naming.parse decl.1 = .ok name →
      (∀ existing ∈ names, naming.weakEq existing name = false) →
        insertEntry decls (naming.original name) decl.2 = decls ++ [decl] := by
    intro name hparse hnew
    rw [naming.parse_original hparse]
    refine if_neg fun hany => hdone.notMem hparse hnew ?_
    obtain ⟨entry, hmem, hsame⟩ := List.any_eq_true.mp hany
    exact of_decide_eq_true hsame ▸ List.mem_map_of_mem hmem
  unfold declare
  constructor
  · intro h
    obtain ⟨name, hparse, h⟩ := Lib.bind_eq_ok.mp h
    split at h
    · cases h
    · next hfind =>
        obtain ⟨_, hcheck, h⟩ := Lib.bind_eq_ok.mp h
        have hnew : ∀ existing ∈ names, naming.weakEq existing name = false := by
          intro existing hmem
          simpa using List.find?_eq_none.mp hfind existing hmem
        refine ⟨name, ⟨hparse, hcheck⟩, hnew, ?_⟩
        rw [← Lib.pure_eq_ok.mp h]
        simp only [hinsert hparse hnew]
  · rintro ⟨name, ⟨hparse, hcheck⟩, hnew, rfl⟩
    have hfind : names.find? (naming.weakEq · name) = none := by
      simpa [List.find?_eq_none] using hnew
    simp only [hparse, Lib.ok_bind, hfind, hcheck, hinsert hparse hnew]
    rfl

theorem apart_concat {name : N} :
    naming.Apart (names ++ [name]) ↔
      naming.Apart names ∧ ∀ existing ∈ names, naming.weakEq existing name = false := by
  simp [Apart, List.pairwise_append]

/-- Declarations are accepted when each is in order and no name is weakly equal to an earlier one;
then each has an entry of its own. -/
theorem declareAll_iff :
    naming.declareAll check decls = .ok surface ↔
      ∃ names, naming.InOrder check decls names ∧ naming.Apart names ∧
        surface = ⟨names, decls⟩ := by
  induction decls using List.reverseRecOn generalizing surface with
  | nil =>
      constructor
      · intro h
        obtain rfl := Except.ok.inj h
        exact ⟨[], .of_length_eq_zero rfl, List.Pairwise.nil, rfl⟩
      · rintro ⟨names, ⟨hlength, -⟩, -, rfl⟩
        obtain rfl := List.length_eq_zero_iff.mp hlength
        rfl
  | append_singleton decls decl ih =>
      have hrun : naming.declareAll check (decls ++ [decl]) =
          (naming.declareAll check decls >>= fun s => naming.declare check s decl) := by
        simp [declareAll]
      rw [hrun, Lib.bind_eq_ok]
      constructor
      · rintro ⟨s, hs, hlast⟩
        obtain ⟨names, horder, hapart, rfl⟩ := ih.mp hs
        obtain ⟨name, hdeclares, hnew, rfl⟩ := (declare_eq_ok horder).mp hlast
        exact ⟨names ++ [name], inOrder_concat.mpr ⟨horder, hdeclares⟩,
          apart_concat.mpr ⟨hapart, hnew⟩, rfl⟩
      · rintro ⟨all, horder, hapart, rfl⟩
        have hne : all ≠ [] := by
          rintro rfl
          simp [InOrder] at horder
        obtain ⟨names, name, rfl⟩ := (List.eq_nil_or_concat' all).resolve_left hne
        obtain ⟨horder, hdeclares⟩ := inOrder_concat.mp horder
        obtain ⟨hapart, hnew⟩ := apart_concat.mp hapart
        exact ⟨_, ih.mpr ⟨names, horder, hapart, rfl⟩,
          (declare_eq_ok horder).mpr ⟨name, hdeclares, hnew, rfl⟩⟩

theorem apart_iff {κ : Type} {key : N → κ}
    (hkey : ∀ a b, naming.weakEq a b = true ↔ key a = key b) :
    naming.Apart names ↔ names.Pairwise fun a b => key a ≠ key b := by
  refine List.pairwise_iff_get.trans (Iff.trans ?_ List.pairwise_iff_get.symm)
  simp [← hkey]

end Naming

section namings

variable {V : Type} (versions : Versions V)

def conflictMessage (kind : String) (name existing : Text) : String :=
  kind ++ " name `" ++ String.ofList name ++ "` conflicts with previous name `" ++
    String.ofList existing ++ "`"

def exportNaming : Naming (ExportName V) where
  parse := parseExportName versions
  original name := name.original
  weakEq name other := name.parsed.weakEq versions other.parsed
  conflict name existing :=
    .invalidExportName (conflictMessage "export" name.original existing.original)
  parse_original h := (parseExportName_sound h).1
  weakEq_self _ := ParsedExportName.weakEq_iff.mpr rfl

def declareExports
    (check : Surface (ExportName V) D → ExportName V → D → Except NameError Unit)
    (decls : List (Text × D)) : Except NameError (Surface (ExportName V) D) :=
  (exportNaming versions).declareAll check decls

variable {versions}

/-- Exports are accepted when each is in order behind those in front of it and their keys are all
different; the map then has the declarations as they stand. -/
theorem declareExports_iff
    {check : Surface (ExportName V) D → ExportName V → D → Except NameError Unit}
    {decls : List (Text × D)} {surface : Surface (ExportName V) D} :
    declareExports versions check decls = .ok surface ↔
      ∃ names, (names.length = decls.length ∧ ∀ i decl name, decls[i]? = some decl →
          names[i]? = some name → parseExportName versions decl.1 = .ok name ∧
            check ⟨names.take i, decls.take i⟩ name decl.2 = .ok ()) ∧
        names.Pairwise (fun a b => a.parsed.key versions ≠ b.parsed.key versions) ∧
        surface = ⟨names, decls⟩ := by
  have hkey : ∀ a b : ExportName V, (exportNaming versions).weakEq a b = true ↔
      a.parsed.key versions = b.parsed.key versions := fun _ _ => ParsedExportName.weakEq_iff
  refine Naming.declareAll_iff.trans ?_
  simp only [Naming.apart_iff hkey]
  rfl

variable [DecidableEq V] (versions)

def importNaming : Naming (ImportName V) where
  parse := parseImportName versions
  original name := name.original
  weakEq name other := name.parsed.weakEq versions other.parsed
  conflict name existing :=
    .invalidImportName (conflictMessage "import" name.original existing.original)
  parse_original h := (parseImportName_sound h).1
  weakEq_self _ := ParsedImportName.weakEq_iff.mpr rfl

def declareImports
    (check : Surface (ImportName V) D → ImportName V → D → Except NameError Unit)
    (decls : List (Text × D)) : Except NameError (Surface (ImportName V) D) :=
  (importNaming versions).declareAll check decls

variable {versions}

/-- It is the same with imports. -/
theorem declareImports_iff
    {check : Surface (ImportName V) D → ImportName V → D → Except NameError Unit}
    {decls : List (Text × D)} {surface : Surface (ImportName V) D} :
    declareImports versions check decls = .ok surface ↔
      ∃ names, (names.length = decls.length ∧ ∀ i decl name, decls[i]? = some decl →
          names[i]? = some name → parseImportName versions decl.1 = .ok name ∧
            check ⟨names.take i, decls.take i⟩ name decl.2 = .ok ()) ∧
        names.Pairwise (fun a b => a.parsed.key versions ≠ b.parsed.key versions) ∧
        surface = ⟨names, decls⟩ := by
  have hkey : ∀ a b : ImportName V, (importNaming versions).weakEq a b = true ↔
      a.parsed.key versions = b.parsed.key versions := fun _ _ => ParsedImportName.weakEq_iff
  refine Naming.declareAll_iff.trans ?_
  simp only [Naming.apart_iff hkey]
  rfl

end namings

section printed

private def printed (text : Text) : Bool :=
  !text.isEmpty && text.all fun c => c.isAlphanum || c == '.' || c == '-' || c == '+'

private abbrev Printed : Type := { text : Text // printed text = true }

private def printedVersions : Versions Printed where
  parse text := if h : printed text = true then some ⟨text, h⟩ else none
  display v := v.1
  parse_display v := dif_pos v.2
  display_parse text v h := by
    split at h
    · exact congrArg Subtype.val (Option.some.inj h).symm
    · cases h
  display_ne_nil v hnil := by simpa [printed, hnil] using v.2
  display_chars v c hc := by
    have hall := (Bool.and_eq_true_iff.mp v.2).2
    simpa [or_assoc] using List.all_eq_true.mp hall c hc

private def interfaceText : Text := ['a', ':', 'b', '/', 'c', '@', '1', '.', '0', '.', '2']

example : parseImportName printedVersions interfaceText =
    .ok ⟨interfaceText, .interface ⟨['a'], ['b'], ['c'],
      some ⟨['1', '.', '0', '.', '2'], by decide⟩⟩⟩ := by decide

end printed

end Telomere.Component
