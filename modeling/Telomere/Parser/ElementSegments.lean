import Telomere.Parser.Module

/-!
# Element segments

The eight encodings of a segment, each with its own arm of `parse_elem`. Vectors and constant
expressions are decoded.
-/

namespace Telomere.Parser

open Lib

inductive ElemSegment where
  | kind0 (offset : List ConstExpr) (funcidx : List Nat)
  | kind1 (elemkind : BitVec 8) (funcidx : List Nat)
  | kind2 (tableidx : Nat) (offset : List ConstExpr) (elemkind : BitVec 8) (funcidx : List Nat)
  | kind3 (elemkind : BitVec 8) (funcidx : List Nat)
  | kind4 (offset : List ConstExpr) (init : List (List ConstExpr))
  | kind5 (rt : RefType) (init : List (List ConstExpr))
  | kind6 (tableidx : Nat) (offset : List ConstExpr) (rt : RefType)
      (init : List (List ConstExpr))
  | kind7 (rt : RefType) (init : List (List ConstExpr))
deriving DecidableEq, Repr

inductive ElemError where
  | invalidElemKind (elemkind : BitVec 8)
  | module (e : ModuleError)
deriving DecidableEq, Repr

def checkElemKind (elemkind : BitVec 8) : Except ElemError Unit :=
  if elemkind ≠ 0 then .error (.invalidElemKind elemkind) else .ok ()

def validated (check : Except ModuleError Unit) : Except ElemError Unit := check.mapError .module

section arms

variable (globals : List GlobalType) (funcs : List Nat) (tables : List TableType)

def parseElem : ElemSegment → Except ElemError Elem
  | .kind0 offset funcidx => do
      validated (validateTable tables 0)
      validated (validateOffsetConstExpr globals offset)
      validated (validateElemInit globals funcs .funcRef (.funcIdx funcidx))
      validated (validateActiveElem tables 0 .funcRef)
      return ⟨.funcRef, .funcIdx funcidx, .active 0 offset⟩
  | .kind1 elemkind funcidx => do
      checkElemKind elemkind
      validated (validateElemInit globals funcs .funcRef (.funcIdx funcidx))
      return ⟨.funcRef, .funcIdx funcidx, .passive⟩
  | .kind2 tableidx offset elemkind funcidx => do
      validated (validateTable tables tableidx)
      validated (validateOffsetConstExpr globals offset)
      checkElemKind elemkind
      validated (validateElemInit globals funcs .funcRef (.funcIdx funcidx))
      validated (validateActiveElem tables tableidx .funcRef)
      return ⟨.funcRef, .funcIdx funcidx, .active tableidx offset⟩
  | .kind3 elemkind funcidx => do
      checkElemKind elemkind
      validated (validateElemInit globals funcs .funcRef (.funcIdx funcidx))
      return ⟨.funcRef, .funcIdx funcidx, .declarative⟩
  | .kind4 offset init => do
      validated (validateTable tables 0)
      validated (validateOffsetConstExpr globals offset)
      validated (validateElemInit globals funcs .funcRef (.constExpr init))
      validated (validateActiveElem tables 0 .funcRef)
      return ⟨.funcRef, .constExpr init, .active 0 offset⟩
  | .kind5 rt init => do
      validated (validateElemInit globals funcs rt (.constExpr init))
      return ⟨rt, .constExpr init, .passive⟩
  | .kind6 tableidx offset rt init => do
      validated (validateTable tables tableidx)
      validated (validateOffsetConstExpr globals offset)
      validated (validateElemInit globals funcs rt (.constExpr init))
      validated (validateActiveElem tables 0 rt)
      return ⟨rt, .constExpr init, .active tableidx offset⟩
  | .kind7 rt init => do
      validated (validateElemInit globals funcs rt (.constExpr init))
      return ⟨rt, .constExpr init, .declarative⟩

end arms

def ElemSegment.table : ElemSegment → Option Nat
  | .kind0 .. | .kind4 .. => some 0
  | .kind2 tableidx .. | .kind6 tableidx .. => some tableidx
  | _ => none

def ElemSegment.reftype : ElemSegment → RefType
  | .kind5 rt _ | .kind6 _ _ rt _ | .kind7 rt _ => rt
  | _ => .funcRef

inductive EncodedSection where
  | element (segments : List ElemSegment)
  | plain (s : Section) (h : s.position ≠ some 8)

/-- `addSection`, with `parse_elem` for each segment. -/
def Assembly.addEncoded (a : Assembly) : EncodedSection → Except ElemError Assembly
  | .element segments => do
      let a ← (a.checkOrder (.element [])).mapError .module
      let elems ← segments.mapM
        (parseElem (a.globals.take a.importedGlobalLen) a.functions a.tables)
      return { a with elems := elems }
  | .plain s _ => do
      let a ← (a.checkOrder s).mapError .module
      (a.addSection s).mapError .module

def Assembly.addAllEncoded (a : Assembly) : List EncodedSection → Except ElemError Assembly
  | [] => .ok a
  | s :: rest => do
      let a ← a.addEncoded s
      a.addAllEncoded rest

/-- `parse_module` -/
def parseEncodedModule (sections : List EncodedSection) : Except ElemError Module := do
  let a ← Assembly.empty.addAllEncoded sections
  a.finish.mapError .module

/-- An active segment has the element type of the table that it targets. -/
def SegmentTyped (m : Module) (segment : ElemSegment) : Prop :=
  ∀ idx, segment.table = some idx →
    ∃ table, m.tables[idx]? = some table ∧ table.reftype = segment.reftype

/-- A segment of the sixth kind targets a table with the element type of the first table. -/
def TypedAsFirst (m : Module) (segment : ElemSegment) : Prop :=
  ∀ tableidx offset rt init, segment = .kind6 tableidx offset rt init →
    (m.tables[tableidx]?).map TableType.reftype = (m.tables[0]?).map TableType.reftype

section checks

variable {globals : List GlobalType} {funcs : List Nat} {tables : List TableType} {elem : Elem}
  {segment : ElemSegment} {m : Module}

@[simp] theorem validated_eq_ok {check : Except ModuleError Unit} {u : Unit} :
    validated check = .ok u ↔ check = .ok u := by
  unfold validated
  cases check <;> simp [Except.mapError]

theorem validateTable_ok {idx : Nat} {u : Unit} (h : validateTable tables idx = .ok u) :
    idx < tables.length := by
  unfold validateTable at h
  by_contra hge
  rw [if_neg hge] at h
  contradiction

theorem validateActiveElem_ok {idx : Nat} {rt : RefType} {u : Unit}
    (h : validateActiveElem tables idx rt = .ok u) :
    ∃ table, tables[idx]? = some table ∧ table.reftype = rt := by
  unfold validateActiveElem assertType at h
  cases htable : tables[idx]? with
  | none => simp [htable] at h
  | some table =>
      refine ⟨table, rfl, ?_⟩
      simp only [htable] at h
      by_contra hne
      have hval : table.reftype.valType ≠ rt.valType := by
        cases hkind : table.reftype <;> cases rt <;> simp_all [RefType.valType]
      rw [if_neg hval] at h
      contradiction

def ElemSegment.comparedTable : ElemSegment → Option Nat
  | .kind6 .. => some 0
  | segment => segment.table

theorem parseElem_compared (h : parseElem globals funcs tables segment = .ok elem) :
    (∀ idx, segment.table = some idx → idx < tables.length) ∧
    ∀ idx, segment.comparedTable = some idx →
      ∃ table, tables[idx]? = some table ∧ table.reftype = segment.reftype := by
  cases segment with
  | kind0 offset funcidx | kind4 offset init =>
      obtain ⟨_, htable, h⟩ := bind_eq_ok.mp h
      obtain ⟨_, -, h⟩ := bind_eq_ok.mp h
      obtain ⟨_, -, h⟩ := bind_eq_ok.mp h
      obtain ⟨_, hactive, -⟩ := bind_eq_ok.mp h
      constructor
      · rintro idx ⟨⟩
        exact validateTable_ok (validated_eq_ok.mp htable)
      · rintro idx ⟨⟩
        exact validateActiveElem_ok (validated_eq_ok.mp hactive)
  | kind2 tableidx offset elemkind funcidx =>
      obtain ⟨_, htable, h⟩ := bind_eq_ok.mp h
      obtain ⟨_, -, h⟩ := bind_eq_ok.mp h
      obtain ⟨_, -, h⟩ := bind_eq_ok.mp h
      obtain ⟨_, -, h⟩ := bind_eq_ok.mp h
      obtain ⟨_, hactive, -⟩ := bind_eq_ok.mp h
      constructor
      · rintro idx ⟨⟩
        exact validateTable_ok (validated_eq_ok.mp htable)
      · rintro idx ⟨⟩
        exact validateActiveElem_ok (validated_eq_ok.mp hactive)
  | kind6 tableidx offset rt init =>
      obtain ⟨_, htable, h⟩ := bind_eq_ok.mp h
      obtain ⟨_, -, h⟩ := bind_eq_ok.mp h
      obtain ⟨_, -, h⟩ := bind_eq_ok.mp h
      obtain ⟨_, hactive, -⟩ := bind_eq_ok.mp h
      constructor
      · rintro idx ⟨⟩
        exact validateTable_ok (validated_eq_ok.mp htable)
      · rintro idx ⟨⟩
        exact validateActiveElem_ok (validated_eq_ok.mp hactive)
  | kind1 | kind3 | kind5 | kind7 => simp [ElemSegment.table, ElemSegment.comparedTable]

/-- A segment of the sixth kind is compared with the first table; every other active one with the
table that it targets. -/
theorem parseElem_typed_iff (htables : m.tables = tables)
    (h : parseElem globals funcs tables segment = .ok elem) :
    SegmentTyped m segment ↔ TypedAsFirst m segment := by
  obtain ⟨hinside, hcompared⟩ := parseElem_compared h
  by_cases hsame : segment.comparedTable = segment.table
  · rw [hsame, ← htables] at hcompared
    refine iff_of_true hcompared ?_
    rintro tableidx offset rt init rfl
    simp only [ElemSegment.comparedTable, ElemSegment.table, Option.some.injEq] at hsame
    rw [hsame]
  · cases segment with
    | kind6 tableidx offset rt init =>
        obtain ⟨first, hfirst, hrt⟩ := hcompared 0 rfl
        have hlt : tableidx < tables.length := hinside tableidx rfl
        have htarget : m.tables[tableidx]? = some tables[tableidx] := by
          rw [htables, List.getElem?_eq_getElem hlt]
        rw [← htables] at hfirst
        constructor
        · intro htyped tableidx' offset' rt' init' heq
          cases heq
          obtain ⟨table, htable, htype⟩ := htyped tableidx rfl
          rw [htable, hfirst, Option.map_some, Option.map_some, htype, hrt]
        · rintro hfirst_type idx ⟨⟩
          have hmap := hfirst_type tableidx offset rt init rfl
          rw [htarget, hfirst, Option.map_some, Option.map_some, Option.some.injEq] at hmap
          exact ⟨_, htarget, hmap.trans hrt⟩
    | kind0 | kind1 | kind2 | kind3 | kind4 | kind5 | kind7 => exact absurd rfl hsame

end checks

section runs

variable {a b c : Assembly} {s : EncodedSection} {sections : List EncodedSection} {m : Module}

@[simp] theorem mapError_module_eq_ok {α : Type} {x : Except ModuleError α} {r : α} :
    x.mapError ElemError.module = .ok r ↔ x = .ok r := by
  cases x <;> simp [Except.mapError]

/-- The element section or a later one was read. -/
def Assembly.Late (a : Assembly) : Prop := ∃ p ∈ a.position, 8 ≤ p

theorem addEncoded_late (hlate : a.Late) (h : a.addEncoded s = .ok b) :
    b.Late ∧ b.tables = a.tables := by
  obtain ⟨p, hp, hle⟩ := hlate
  cases s with
  | element segments =>
      obtain ⟨d, horder, -⟩ := bind_eq_ok.mp h
      obtain ⟨hnone, -⟩ | ⟨new, hnew, -, hlt⟩ := checkOrder_ok (mapError_module_eq_ok.mp horder)
      · contradiction
      · obtain rfl := Option.some.inj hnew
        have hlt := hlt p hp
        omega
  | plain s hs =>
      obtain ⟨d, horder, hadd⟩ := bind_eq_ok.mp h
      have hadd := mapError_module_eq_ok.mp hadd
      obtain ⟨hnone, rfl⟩ | ⟨new, hnew, rfl, hlt⟩ := checkOrder_ok (mapError_module_eq_ok.mp horder)
      · cases s <;> cases hnone
        obtain rfl := Except.ok.inj hadd
        exact ⟨⟨p, hp, hle⟩, rfl⟩
      · have hlt := hlt p hp
        have hlater : 8 ≤ new := by omega
        cases s with
        | dataCount count =>
            obtain rfl := Except.ok.inj hadd
            exact ⟨⟨new, rfl, hlater⟩, rfl⟩
        | code | data =>
            obtain ⟨_, -, hadd⟩ := bind_eq_ok.mp hadd
            obtain rfl := pure_eq_ok.mp hadd
            exact ⟨⟨new, rfl, hlater⟩, rfl⟩
        | custom => cases hnew
        | type | import_ | function | table | memory | global | export_ | start | element =>
            obtain rfl := Option.some.inj hnew
            omega

theorem addAllEncoded_late (hlate : a.Late) (h : a.addAllEncoded sections = .ok c) :
    c.tables = a.tables := by
  induction sections generalizing a with
  | nil =>
      obtain rfl := Except.ok.inj h
      rfl
  | cons s rest ih =>
      obtain ⟨b, hstep, hrest⟩ := bind_eq_ok.mp h
      obtain ⟨hb, htables⟩ := addEncoded_late hlate hstep
      rw [ih hb hrest, htables]

/-- The segments of a section were checked against the tables that the module ends with. -/
theorem addAllEncoded_segments {segments : List ElemSegment}
    (h : a.addAllEncoded sections = .ok c) (hsection : .element segments ∈ sections) :
    ∃ globals funcs elems, segments.mapM (parseElem globals funcs c.tables) = .ok elems := by
  induction sections generalizing a with
  | nil => simp at hsection
  | cons s rest ih =>
      obtain ⟨b, hstep, hrest⟩ := bind_eq_ok.mp h
      rcases List.mem_cons.mp hsection with rfl | hsection
      · obtain ⟨d, horder, hstep⟩ := bind_eq_ok.mp hstep
        obtain ⟨elems, helems, hstep⟩ := bind_eq_ok.mp hstep
        obtain rfl := pure_eq_ok.mp hstep
        obtain ⟨hnone, -⟩ | ⟨new, hnew, hd, -⟩ := checkOrder_ok (mapError_module_eq_ok.mp horder)
        · contradiction
        · obtain rfl := Option.some.inj hnew
          have hlate : Assembly.Late { d with elems := elems } := by
            rw [hd]
            exact ⟨8, rfl, Nat.le_refl 8⟩
          rw [addAllEncoded_late hlate hrest]
          exact ⟨_, _, elems, helems⟩
      · exact ih hrest hsection

/-- The element types of an accepted module: an active segment of any kind fits the table that it
targets, but for the sixth kind, whose segments fit it when the first table has the same type. -/
theorem segment_typed_iff {segments : List ElemSegment} {segment : ElemSegment}
    (h : parseEncodedModule sections = .ok m) (hsection : .element segments ∈ sections)
    (hsegment : segment ∈ segments) : SegmentTyped m segment ↔ TypedAsFirst m segment := by
  obtain ⟨a, ha, hfinish⟩ := bind_eq_ok.mp h
  obtain ⟨globals, funcs, elems, helems⟩ := addAllEncoded_segments ha hsection
  have htables : m.tables = a.tables := by
    have hfinish := mapError_module_eq_ok.mp hfinish
    unfold Assembly.finish at hfinish
    obtain ⟨-, hfinish⟩ := ite_error_eq_ok.mp hfinish
    obtain ⟨-, hfinish⟩ := ite_error_eq_ok.mp hfinish
    rw [← Except.ok.inj hfinish]
  obtain ⟨i, hi, rfl⟩ := List.getElem_of_mem hsegment
  obtain ⟨hlen, heach⟩ := List.forall₂_iff_get.mp (mapM_eq_ok.mp helems)
  exact parseElem_typed_iff htables (heach i hi (hlen ▸ hi))

end runs

private def twoTables : List EncodedSection :=
  [.plain (.table [⟨.funcRef, ⟨1, none⟩⟩, ⟨.externRef, ⟨1, none⟩⟩]) (by decide)]

/-- A segment of functions fits the table that it names. -/
theorem segment_typed_second : ∃ m,
    parseEncodedModule (twoTables ++ [EncodedSection.element [.kind2 0 [.i32 0] 0 []]]) = .ok m ∧
    (SegmentTyped m (.kind2 0 [.i32 0] 0 []) ↔ TypedAsFirst m (.kind2 0 [.i32 0] 0 [])) := by
  have hparse : ∃ m,
      parseEncodedModule (twoTables ++ [EncodedSection.element [.kind2 0 [.i32 0] 0 []]]) =
        .ok m := ⟨_, rfl⟩
  obtain ⟨m, hm⟩ := hparse
  exact ⟨m, hm, segment_typed_iff hm (List.mem_append_right _ (List.mem_singleton.mpr rfl))
    (List.mem_singleton.mpr rfl)⟩

/-- A segment of functions goes into a table of external references, because the first table is one
of functions. -/
theorem not_segmentTyped_sixth : ∃ m,
    parseEncodedModule (twoTables ++ [EncodedSection.element [.kind6 1 [.i32 0] .funcRef []]]) =
      .ok m ∧
    ¬SegmentTyped m (.kind6 1 [.i32 0] .funcRef []) := by
  refine ⟨_, rfl, fun h => ?_⟩
  obtain ⟨table, htable, htype⟩ := h 1 rfl
  obtain rfl := Option.some.inj htable
  contradiction

end Telomere.Parser
