import Telomere.Parser.Instruction
import Telomere.Parser.Module

/-!
# Function references

`ref.func` makes a reference to a function of the module. The parser looks for a declaration only when
the function is out of range or is the one being parsed, and then only in declarative segments; the
rules ask for a declaration anywhere outside of the bodies.
-/

namespace Telomere.Parser

inductive RefFuncError where
  | undeclaredFunctionReference
  | parser (e : ParserError)
deriving DecidableEq, Repr

/-- The loop over the segments in the arm of `ref.func`. -/
def foundInElems (elems : List Elem) (idx : Nat) : Bool :=
  elems.any fun elem =>
    elem.kind == .funcRef && elem.mode == .declarative &&
      match elem.init with
      | .funcIdx idxs => idxs.contains idx
      | .constExpr exprs => exprs.flatten.any (· == .funcRef idx)

/-- `op_ref_func` and its operand. -/
def refFuncOp (idx : Nat) : SimpleOp := ⟨0xD2, [idx], [], [.funcRef]⟩

/-- The arm of `parse_inst` for `ref.func`, in the function `funcidx`. -/
def parseRefFunc (env : Env) (elems : List Elem) (funcidx : Nat) (s : State) (idx : Nat) :
    Except RefFuncError State :=
  if (env.functions.length ≤ idx ∨ idx = funcidx) ∧ ¬foundInElems elems idx then
    .error .undeclaredFunctionReference
  else (parseInst env s (.simple (refFuncOp idx))).mapError .parser

namespace Assembly

/-- What `parse_code_section` gives to the parser of a body. -/
def bodyEnv (a : Assembly) (typeidx : Nat) (functype : FuncType) : Env where
  types := a.fts
  functions := a.functions
  importedFunctionLen := (importedFuncs a.imports).length
  typeidx := typeidx
  functype := functype
  tables := a.tables.map (·.reftype)

/-- The function of a body: the bodies come after the imported functions. -/
def bodyFuncidx (a : Assembly) (body : Nat) : Nat := (importedFuncs a.imports).length + body

end Assembly

/-- The segment holds a reference to the function, whatever its mode and its encoding. -/
def RefersTo (elem : Elem) (idx : Nat) : Prop :=
  match elem.init with
  | .funcIdx idxs => idx ∈ idxs
  | .constExpr exprs => ∃ expr ∈ exprs, .funcRef idx ∈ expr

/-- The function occurs outside of the bodies. -/
def Assembly.Declared (a : Assembly) (idx : Nat) : Prop :=
  (∃ elem ∈ a.elems, RefersTo elem idx) ∨ (∃ ex ∈ a.exs, ex.desc = .func idx) ∨
    .funcRef idx ∈ a.globalInit

theorem foundInElems_iff {elems : List Elem} {idx : Nat} :
    foundInElems elems idx = true ↔
      ∃ elem ∈ elems, elem.kind = .funcRef ∧ elem.mode = .declarative ∧ RefersTo elem idx := by
  simp only [foundInElems, List.any_eq_true, Bool.and_eq_true, beq_iff_eq, and_assoc]
  refine exists_congr fun elem => and_congr_right fun _ => and_congr_right fun _ =>
    and_congr_right fun _ => ?_
  cases hinit : elem.init with
  | funcIdx idxs => simp [RefersTo, hinit]
  | constExpr exprs => simp [RefersTo, hinit]

/-- What a segment that passed its check refers to is a function of the module. -/
theorem refersTo_lt {globals : List GlobalType} {funcs : List Nat} {tables : List TableType}
    {elem : Elem} {idx : Nat} (hok : validateElem globals funcs tables elem = .ok ())
    (h : RefersTo elem idx) : idx < funcs.length := by
  have hinit : validateElemInit globals funcs elem.kind elem.init = .ok () := by
    rw [validateElem] at hok
    split at hok
    · obtain ⟨_, _, hok⟩ := Lib.bind_eq_ok.mp hok
      obtain ⟨_, _, hok⟩ := Lib.bind_eq_ok.mp hok
      obtain ⟨_, hinit, _⟩ := Lib.bind_eq_ok.mp hok
      exact hinit
    · exact hok
  cases hcase : elem.init with
  | funcIdx idxs =>
      rw [hcase] at hinit
      rw [RefersTo, hcase] at h
      have hidx := forM_ok hinit idx h
      by_contra hge
      rw [if_neg hge] at hidx
      cases hidx
  | constExpr exprs =>
      rw [hcase] at hinit
      rw [RefersTo, hcase] at h
      obtain ⟨expr, hexpr, hmem⟩ := h
      have hvalid := forM_ok hinit expr hexpr
      cases expr with
      | nil => cases hmem
      | cons first rest =>
          cases rest with
          | cons second rest => cases hvalid
          | nil =>
              obtain rfl := List.mem_singleton.mp hmem
              simp only [validateConstExprType] at hvalid
              by_contra hge
              rw [if_neg hge] at hvalid
              cases hvalid

theorem parseRefFunc_ok_iff {env : Env} {elems : List Elem} {funcidx : Nat} {s : State} {idx : Nat} :
    (∃ s', parseRefFunc env elems funcidx s idx = .ok s') ↔
      idx < env.functions.length ∧ idx ≠ funcidx ∨ foundInElems elems idx = true := by
  rw [parseRefFunc]
  have hread : ∃ s', (parseInst env s (.simple (refFuncOp idx))).mapError RefFuncError.parser =
      .ok s' := ⟨_, rfl⟩
  split
  next hundeclared =>
    constructor
    · rintro ⟨s', h⟩
      cases h
    · intro h
      exact absurd hundeclared (by
        rintro ⟨hreach, hnot⟩
        rcases h with ⟨hlt, hne⟩ | hfound
        · omega
        · exact hnot hfound)
  next hdeclared =>
    refine iff_of_true hread ?_
    by_cases hfound : foundInElems elems idx = true
    · exact Or.inr hfound
    · refine Or.inl ⟨?_, ?_⟩
      · by_contra hge
        exact hdeclared ⟨Or.inl (by omega), hfound⟩
      · intro heq
        exact hdeclared ⟨Or.inr heq, hfound⟩

/-- The parser asks for a declaration just when the function is the one being parsed, or when it need
not ask. -/
theorem refFunc_accepted_iff {sections : List Section} {a : Assembly}
    (hread : Assembly.empty.addSections sections = .ok a) (body typeidx : Nat) (functype : FuncType)
    (s : State) (idx : Nat) :
    ((∃ s', parseRefFunc (a.bodyEnv typeidx functype) a.elems (a.bodyFuncidx body) s idx = .ok s') ↔
        idx < a.functions.length ∧ a.Declared idx) ↔
      (idx < a.functions.length →
        if idx = a.bodyFuncidx body then a.Declared idx → foundInElems a.elems idx = true
        else a.Declared idx) := by
  have hshaped := addSections_shaped empty_shaped hread
  have hfound : foundInElems a.elems idx = true → idx < a.functions.length ∧ a.Declared idx := by
    intro h
    obtain ⟨elem, helem, -, -, hrefers⟩ := foundInElems_iff.mp h
    exact ⟨refersTo_lt (hshaped.elems elem helem) hrefers, Or.inl ⟨elem, helem, hrefers⟩⟩
  rw [parseRefFunc_ok_iff]
  have hfunctions : (a.bodyEnv typeidx functype).functions = a.functions := rfl
  rw [hfunctions]
  by_cases hself : idx = a.bodyFuncidx body
  · rw [if_pos hself]
    constructor
    · intro h hlt hdeclared
      obtain ⟨-, hne⟩ | hfound := h.mpr ⟨hlt, hdeclared⟩
      · exact absurd hself hne
      · exact hfound
    · intro h
      constructor
      · rintro (⟨-, hne⟩ | hin)
        · exact absurd hself hne
        · exact hfound hin
      · rintro ⟨hlt, hdeclared⟩
        exact Or.inr (h hlt hdeclared)
  · rw [if_neg hself]
    constructor
    · intro h hlt
      exact (h.mp (Or.inl ⟨hlt, hself⟩)).2
    · intro h
      constructor
      · rintro (⟨hlt, -⟩ | hin)
        · exact ⟨hlt, h hlt⟩
        · exact hfound hin
      · rintro ⟨hlt, -⟩
        exact Or.inl ⟨hlt, hself⟩

/-- A module of two functions without any segment, and one that exports its only function. -/
private def undeclared : List Section := [.type [⟨[], []⟩], .function [0, 0]]

private def exported : List Section :=
  [.type [⟨[], []⟩], .function [0], .export_ [⟨"f", .func 0⟩]]

private def anyPlace : State := ⟨[], [false], .new 0, [], [], []⟩

private def sharedExport : List Section :=
  [.type [⟨[], []⟩], .function [0, 0], .export_ [⟨"f", .func 0⟩]]

theorem refFunc_accepted_iff_exported :
    ∃ a, Assembly.empty.addSections sharedExport = .ok a ∧
      ∃ s', parseRefFunc (a.bodyEnv 0 ⟨[], []⟩) a.elems (a.bodyFuncidx 1) anyPlace 0 = .ok s' := by
  have hread : Assembly.empty.addSections sharedExport = .ok _ := rfl
  have hexact := (refFunc_accepted_iff hread 1 0 ⟨[], []⟩ anyPlace 0).mpr fun _ => by
    rw [if_neg (by decide)]
    exact Or.inr (Or.inl ⟨_, List.mem_singleton_self _, rfl⟩)
  exact ⟨_, hread, hexact.mpr ⟨by decide, Or.inr (Or.inl ⟨_, List.mem_singleton_self _, rfl⟩)⟩⟩

/-- Function 0 of the first module refers to function 1, which nothing declares; the function of the
second refers to itself, which is exported. -/
theorem undeclared_accepted_and_exported_refused :
    ∃ a b, Assembly.empty.addSections undeclared = .ok a ∧
      (∃ s', parseRefFunc (a.bodyEnv 0 ⟨[], []⟩) a.elems (a.bodyFuncidx 0) anyPlace 1 = .ok s') ∧
      ¬a.Declared 1 ∧
      Assembly.empty.addSections exported = .ok b ∧
      parseRefFunc (b.bodyEnv 0 ⟨[], []⟩) b.elems (b.bodyFuncidx 0) anyPlace 0 =
        .error .undeclaredFunctionReference ∧
      0 < b.functions.length ∧ b.Declared 0 := by
  refine ⟨_, _, rfl, ⟨_, rfl⟩, ?_, rfl, rfl, by decide, Or.inr (Or.inl ⟨_, List.mem_singleton_self _, rfl⟩)⟩
  rintro (⟨_, hmem, _⟩ | ⟨_, hmem, _⟩ | hmem) <;> cases hmem

end Telomere.Parser
