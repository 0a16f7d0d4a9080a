import Telomere.Component.Flatten
import Telomere.Lib.Except

/-!
# The metadata of types

What the engine stores for a type follows from what it stores for the types below. The engine finds
it in a walk with a memo; `infoOf` is the same without one.
-/

namespace Telomere.Component

variable {M : Type}

def addField (acc : Nat × Nat × Nat) (info : TypeInfo) : Nat × Nat × Nat :=
  (acc.1 + info.flatLen, saturatingAdd (alignTo acc.2.1 info.indirectAlign) info.indirectSize,
    max acc.2.2 info.indirectAlign)

/-- Flat length, size and alignment with one more payload. -/
def addCase (acc : Nat × Nat × Nat) (info : TypeInfo) : Nat × Nat × Nat :=
  (max acc.1 info.flatLen, max acc.2.1 info.indirectSize, max acc.2.2 info.indirectAlign)

def discriminantBytes (caseCount : Nat) : Nat :=
  if caseCount ≤ 2 ^ 8 then 1 else if caseCount ≤ 2 ^ 16 then 2 else 4

theorem variantDiscriminantSize_eq {caseCount size : Nat}
    (hok : variantDiscriminantSize caseCount = .ok size) : size = discriminantBytes caseCount := by
  unfold variantDiscriminantSize at hok
  unfold discriminantBytes
  split at hok
  · next h => rw [if_pos h, Except.ok.inj hok]
  · next h =>
      rw [if_neg h]
      split at hok
      · next h' => rw [if_pos h', Except.ok.inj hok]
      · next h' =>
          rw [if_neg h']
          split at hok
          · exact (Except.ok.inj hok).symm
          · cases hok

section level

variable (info : ValType → TypeInfo)

def recordAcc (fields : List LabelValType) : Nat × Nat × Nat :=
  (fields.map fun field => info field.ty).foldl addField (0, 0, 1)

def variantAcc (cases : List Case) : Nat × Nat × Nat :=
  (cases.filterMap fun case => case.ty.map info).foldl addCase
    (0, 0, discriminantBytes cases.length)

def defvalInfoOf (id : TypeId) : DefValType → TypeInfo
  | .primitive prim => primitiveInfo prim
  | .record fields =>
      let acc := recordAcc info fields
      ⟨id, acc.1, alignTo acc.2.1 (max acc.2.2 1), max acc.2.2 1, none⟩
  | .variant cases =>
      let acc := variantAcc info cases
      let align := max acc.2.2 1
      let offset := alignTo (discriminantBytes cases.length) align
      ⟨id, 1 + acc.1, alignTo (saturatingAdd offset acc.2.1) align, align, none⟩
  | .flags labels =>
      let (flatLen, size, align) := flagsInfo labels.length
      ⟨id, flatLen, size, align, some (labels.length % 2 ^ 32)⟩
  | .list _ len => ⟨id, 2, 8, 4, len.map (· % 2 ^ 32)⟩
  | .own _ | .borrow _ => ⟨id, 1, 4, 4, none⟩

def tyInfoOf (id : TypeId) : Ty M → TypeInfo
  | .defVal ty => defvalInfoOf info id ty
  | .resource _ | .generic _ => ⟨id, 1, 4, 4, none⟩
  | .func _ | .component _ | .instance _ => ⟨id, 0, 0, 1, none⟩

end level

def infoOf (types : List (Ty M)) : Nat → ValType → TypeInfo
  | _, .primitive prim => primitiveInfo prim
  | 0, .type id => ⟨id, 0, 0, 1, none⟩
  | depth + 1, .type id =>
      match types[id]? with
      | some ty => tyInfoOf (infoOf types depth) id ty
      | none => ⟨id, 0, 0, 1, none⟩

theorem defvalInfoOf_congr {info info' : ValType → TypeInfo} {ty : DefValType}
    (h : ∀ below : ValType, below.refs ⊆ ty.refs → info below = info' below) (id : TypeId) :
    defvalInfoOf info id ty = defvalInfoOf info' id ty := by
  cases ty with
  | record fields =>
      have hfields : (fields.map fun field => info field.ty) =
          fields.map fun field => info' field.ty :=
        List.map_congr_left fun field hmem => h field.ty (DefValType.field_refs hmem)
      simp only [defvalInfoOf, recordAcc, hfields]
  | variant cases =>
      have hcases : (cases.filterMap fun case => case.ty.map info) =
          cases.filterMap fun case => case.ty.map info' := by
        apply List.filterMap_congr
        intro case hmem
        cases hty : case.ty with
        | none => rfl
        | some ty => simp only [Option.map_some, h ty (DefValType.case_refs hmem hty)]
      simp only [defvalInfoOf, variantAcc, hcases]
  | _ => rfl

theorem infoOf_stable (a : TypeArena M) {depth depth' : Nat} {ty : ValType}
    (hlt : ∀ ref ∈ ty.refs, ref < depth) (hlt' : ∀ ref ∈ ty.refs, ref < depth') :
    infoOf a.types depth ty = infoOf a.types depth' ty := by
  induction depth generalizing depth' ty with
  | zero =>
      cases ty with
      | primitive prim => cases depth' <;> rfl
      | type id => exact absurd (hlt id (List.mem_singleton_self id)) (Nat.not_lt_zero _)
  | succ depth ih =>
      cases ty with
      | primitive prim => cases depth' <;> rfl
      | type id =>
          have hid := hlt id (List.mem_singleton_self id)
          have hid' := hlt' id (List.mem_singleton_self id)
          obtain ⟨depth', rfl⟩ := Nat.exists_eq_succ_of_ne_zero (by omega : depth' ≠ 0)
          simp only [infoOf]
          cases hty : a.types[id]? with
          | none => rfl
          | some ty =>
              cases ty with
              | defVal ty =>
                  apply defvalInfoOf_congr
                  intro below hbelow
                  have hrefs := a.refs_lt id _ hty
                  apply ih
                  · intro ref href
                    have := hrefs ref (hbelow href)
                    omega
                  · intro ref href
                    have := hrefs ref (hbelow href)
                    omega
              | _ => rfl

theorem infoOf_type (a : TypeArena M) {depth id : Nat} {ty : DefValType}
    (hty : a.types[id]? = some (.defVal ty)) (hid : id < depth) :
    infoOf a.types depth (.type id) = defvalInfoOf (infoOf a.types depth) id ty := by
  obtain ⟨depth, rfl⟩ := Nat.exists_eq_succ_of_ne_zero (by omega : depth ≠ 0)
  simp only [infoOf, hty]
  apply defvalInfoOf_congr
  intro below hbelow
  have hrefs := a.refs_lt id _ hty
  apply infoOf_stable a
  · intro ref href
    have := hrefs ref (hbelow href)
    omega
  · intro ref href
    have := hrefs ref (hbelow href)
    omega

def MemoRight (a : TypeArena M) (s : InfoState) : Prop :=
  ∀ (id : Nat) info, s.memo[id]? = some (some info) →
    info = infoOf a.types a.types.length (.type id)

/-- A walk that keeps the memo right and returns what is right. -/
def WalksRight (a : TypeArena M)
    (rec : TypeId → InfoState → Except ComponentError (TypeInfo × InfoState)) : Prop :=
  ∀ id s info s', rec id s = .ok (info, s') → MemoRight a s →
    info = infoOf a.types a.types.length (.type id) ∧ MemoRight a s'

section walk

variable {a : TypeArena M}
  {rec : TypeId → InfoState → Except ComponentError (TypeInfo × InfoState)}

theorem valtypeInfo_right (hrec : WalksRight a rec) {ty : ValType} {s s' : InfoState}
    {info : TypeInfo} (hok : valtypeInfo rec ty s = .ok (info, s')) (hs : MemoRight a s) :
    info = infoOf a.types a.types.length ty ∧ MemoRight a s' := by
  cases ty with
  | primitive prim =>
      obtain ⟨rfl, rfl⟩ := Prod.mk.inj (Except.ok.inj hok)
      refine ⟨?_, hs⟩
      unfold infoOf
      rfl
  | type id => exact hrec id s info s' hok hs

theorem record_right (hrec : WalksRight a rec) (fields : List LabelValType)
    {acc acc' : Nat × Nat × Nat} {s s' : InfoState}
    (hok : fields.foldlM (recordField rec) (acc, s) = .ok (acc', s')) (hs : MemoRight a s) :
    acc' = (fields.map fun field => infoOf a.types a.types.length field.ty).foldl addField acc ∧
      MemoRight a s' := by
  induction fields generalizing acc s with
  | nil =>
      obtain ⟨rfl, rfl⟩ := Prod.mk.inj (Except.ok.inj hok)
      exact ⟨rfl, hs⟩
  | cons field fields ih =>
      rw [List.foldlM_cons] at hok
      obtain ⟨⟨acc₁, s₁⟩, hfirst, hrest⟩ := Lib.bind_eq_ok.mp hok
      obtain ⟨⟨info, s₂⟩, hinfo, heq⟩ := Lib.bind_eq_ok.mp hfirst
      obtain ⟨rfl, hs₁⟩ := valtypeInfo_right hrec hinfo hs
      cases Lib.pure_eq_ok.mp heq
      rw [List.map_cons, List.foldl_cons]
      exact ih hrest hs₁

theorem variant_right (hrec : WalksRight a rec) (cases : List Case)
    {acc acc' : Nat × Nat × Nat} {s s' : InfoState}
    (hok : cases.foldlM (variantCase rec) (acc, s) = .ok (acc', s')) (hs : MemoRight a s) :
    acc' = (cases.filterMap fun case => case.ty.map (infoOf a.types a.types.length)).foldl addCase
      acc ∧ MemoRight a s' := by
  induction cases generalizing acc s with
  | nil =>
      obtain ⟨rfl, rfl⟩ := Prod.mk.inj (Except.ok.inj hok)
      exact ⟨rfl, hs⟩
  | cons case cases ih =>
      rw [List.foldlM_cons] at hok
      obtain ⟨⟨acc₁, s₁⟩, hfirst, hrest⟩ := Lib.bind_eq_ok.mp hok
      unfold variantCase at hfirst
      dsimp only at hfirst
      cases hty : case.ty with
      | none =>
          rw [hty] at hfirst
          cases Lib.pure_eq_ok.mp hfirst
          rw [List.filterMap_cons_none (by simp [hty])]
          exact ih hrest hs
      | some ty =>
          rw [hty] at hfirst
          obtain ⟨⟨info, s₂⟩, hinfo, heq⟩ := Lib.bind_eq_ok.mp hfirst
          obtain ⟨rfl, hs₁⟩ := valtypeInfo_right hrec hinfo hs
          cases Lib.pure_eq_ok.mp heq
          have hcons : ((case :: cases).filterMap fun case =>
              case.ty.map (infoOf a.types a.types.length)) =
              infoOf a.types a.types.length ty ::
                cases.filterMap fun case => case.ty.map (infoOf a.types a.types.length) :=
            List.filterMap_cons_some (by simp [hty])
          rw [hcons, List.foldl_cons]
          exact ih hrest hs₁

theorem defvalInfo_right (hrec : WalksRight a rec) {id : TypeId} {ty : DefValType}
    {s s' : InfoState} {info : TypeInfo} (hok : defvalInfo rec id ty s = .ok (info, s'))
    (hs : MemoRight a s) :
    info = defvalInfoOf (infoOf a.types a.types.length) id ty ∧ MemoRight a s' := by
  cases ty with
  | record fields =>
      obtain ⟨⟨⟨len, size, align⟩, s₁⟩, hfields, heq⟩ := Lib.bind_eq_ok.mp hok
      obtain ⟨hacc, hs'⟩ := record_right hrec fields hfields hs
      cases Lib.pure_eq_ok.mp heq
      refine ⟨?_, hs'⟩
      simp only [defvalInfoOf, recordAcc, ← hacc]
  | variant cases =>
      obtain ⟨size, hsize, hok⟩ := Lib.bind_eq_ok.mp hok
      obtain rfl := variantDiscriminantSize_eq hsize
      obtain ⟨⟨⟨len, size, align⟩, s₁⟩, hcases, heq⟩ := Lib.bind_eq_ok.mp hok
      obtain ⟨hacc, hs'⟩ := variant_right hrec cases hcases hs
      cases Lib.pure_eq_ok.mp heq
      refine ⟨?_, hs'⟩
      simp only [defvalInfoOf, variantAcc, ← hacc]
  | list elem len =>
      obtain ⟨⟨elemInfo, s₁⟩, helem, heq⟩ := Lib.bind_eq_ok.mp hok
      obtain ⟨-, hs'⟩ := valtypeInfo_right hrec helem hs
      cases Lib.pure_eq_ok.mp heq
      exact ⟨rfl, hs'⟩
  | primitive | flags | own | borrow =>
      obtain ⟨rfl, rfl⟩ := Prod.mk.inj (Except.ok.inj hok)
      exact ⟨rfl, hs⟩

theorem tyInfo_right (hrec : WalksRight a rec) {id : Nat} {ty : Ty M}
    (hty : a.types[id]? = some ty) {s s' : InfoState} {info : TypeInfo}
    (hok : tyInfo rec id ty s = .ok (info, s')) (hs : MemoRight a s) :
    info = infoOf a.types a.types.length (.type id) ∧ MemoRight a s' := by
  have hid := (List.getElem?_eq_some_iff.mp hty).1
  cases ty with
  | defVal ty =>
      rw [infoOf_type a hty hid]
      exact defvalInfo_right hrec hok hs
  | _ =>
      obtain ⟨rfl, rfl⟩ := Prod.mk.inj (Except.ok.inj hok)
      obtain ⟨length, hlength⟩ := Nat.exists_eq_succ_of_ne_zero (by omega : a.types.length ≠ 0)
      refine ⟨?_, hs⟩
      rw [hlength]
      simp only [infoOf, hty, tyInfoOf]

end walk

theorem typeInfo_right (a : TypeArena M) (depth : Nat) : WalksRight a (typeInfo a.types depth) := by
  induction depth with
  | zero =>
      intro id s info s' hok
      cases hok
  | succ depth ih =>
      intro id s info s' hok hs
      unfold typeInfo at hok
      split at hok
      · next info' hmemo =>
          obtain ⟨rfl, rfl⟩ := Prod.mk.inj (Except.ok.inj hok)
          exact ⟨hs id _ hmemo, hs⟩
      · split at hok
        · cases hok
        · next ty hvisiting hty =>
            obtain ⟨⟨info', s₁⟩, hinfo, heq⟩ := Lib.bind_eq_ok.mp hok
            cases Lib.pure_eq_ok.mp heq
            obtain ⟨hinfo', hs₁⟩ := tyInfo_right ih hty hinfo hs
            refine ⟨hinfo', ?_⟩
            intro id' info' hmemo
            rw [List.getElem?_set] at hmemo
            split at hmemo
            · next heq =>
                subst heq
                split at hmemo
                · rw [← Option.some.inj (Option.some.inj hmemo)]
                  exact hinfo'
                · cases hmemo
            · exact hs₁ id' info' hmemo
        · cases hok

theorem nextTypeInfo_right (a : TypeArena M) (ids : List Nat)
    {acc acc' : List TypeInfo × InfoState} (hs : MemoRight a acc.2)
    (hok : ids.foldlM (nextTypeInfo a.types) acc = .ok acc') :
    acc'.1 = acc.1 ++ ids.map fun id => infoOf a.types a.types.length (.type id) := by
  induction ids generalizing acc with
  | nil =>
      obtain rfl := Except.ok.inj hok
      simp
  | cons id ids ih =>
      rw [List.foldlM_cons] at hok
      obtain ⟨acc₁, hstep, hok⟩ := Lib.bind_eq_ok.mp hok
      obtain ⟨⟨info, s₁⟩, hinfo, heq⟩ := Lib.bind_eq_ok.mp hstep
      obtain rfl := Lib.pure_eq_ok.mp heq
      obtain ⟨rfl, hs₁⟩ := typeInfo_right a _ _ _ _ _ hinfo hs
      rw [ih hs₁ hok, List.map_cons, List.append_assoc]
      rfl

/-- The engine stores for every type what `infoOf` says. -/
theorem buildTypeInfos_eq {a : TypeArena M} {infos : List TypeInfo}
    (hok : buildTypeInfos a.types = .ok infos) :
    infos = (List.range a.types.length).map fun id => infoOf a.types a.types.length (.type id) := by
  obtain ⟨⟨infos', s⟩, hrun, heq⟩ := Lib.bind_eq_ok.mp hok
  obtain rfl := Lib.pure_eq_ok.mp heq
  have hstart : MemoRight a
      ⟨List.replicate a.types.length none, List.replicate a.types.length false⟩ := by
    intro id info hmemo
    rw [List.getElem?_replicate] at hmemo
    split at hmemo <;> cases hmemo
  exact nextTypeInfo_right a _ hstart hrun

namespace Program

variable (p : Program M)

def info (ty : ValType) : TypeInfo := infoOf p.arena.types p.arena.types.length ty

theorem getElem?_typeInfos {id : TypeId} (hid : id < p.arena.types.length) :
    p.typeInfos[id]? = some (p.info (.type id)) := by
  rw [buildTypeInfos_eq p.built, List.getElem?_map, List.getElem?_range hid]
  rfl

theorem info_type {id : TypeId} {ty : DefValType} (hty : p.arena.types[id]? = some (.defVal ty)) :
    p.info (.type id) = defvalInfoOf p.info id ty :=
  infoOf_type p.arena hty (List.getElem?_eq_some_iff.mp hty).1

end Program

end Telomere.Component
