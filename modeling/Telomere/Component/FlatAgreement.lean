import Telomere.Component.Flatten
import Telomere.Lib.Except

/-!
# The three flattenings agree

On every type the decoder flattens, the runtime finds the same core types and the engine has stored
their number. So both sides of a call see one core signature.
-/

namespace Telomere.Component

variable {M : Type}

theorem flattenPrimitive_eq (prim : PrimValType) (out : List CoreValType) :
    flattenPrimitive prim out = out ++ flatTypesForPrimitive prim := by
  cases prim <;> rfl

theorem flagsFlatLen_eq (labels : List Label) : flagsFlatLen labels = (labels.length + 31) / 32 := by
  unfold flagsFlatLen
  split
  · next h => simp [h]
  · next h =>
      have hpos := List.length_pos_iff.mpr h
      split <;> omega

/-- `f` appends what `g` finds, or both fail. -/
def Appends (f : ValType → List CoreValType → Except ParseError (List CoreValType))
    (g : ValType → Except ComponentError (List CoreValType)) (ty : ValType) : Prop :=
  ∀ out, (f ty out).toOption = (g ty).toOption.map (out ++ ·)

section step

variable {f : ValType → List CoreValType → Except ParseError (List CoreValType)}
  {g : ValType → Except ComponentError (List CoreValType)}

private theorem toOption_bind {ε α β : Type} (x : Except ε α) (k : α → Except ε β) :
    (x >>= k).toOption = x.toOption.bind fun a => (k a).toOption := by
  cases x <;> rfl

theorem record_appends (fields : List LabelValType)
    (h : ∀ field ∈ fields, Appends f g field.ty) (out flat : List CoreValType) :
    (fields.foldlM (fun out (field : LabelValType) => f field.ty out) (out ++ flat)).toOption =
      (fields.foldlM (fun types (field : LabelValType) => do return types ++ (← g field.ty)) flat).toOption.map
        (out ++ ·) := by
  induction fields generalizing flat with
  | nil => rfl
  | cons field fields ih =>
      have hfirst := h field (List.mem_cons_self ..) (out ++ flat)
      rw [List.foldlM_cons, List.foldlM_cons, toOption_bind, toOption_bind, hfirst, toOption_bind]
      rcases g field.ty with e | types
      · rfl
      · have hrest := ih (fun field hmem => h field (List.mem_cons_of_mem _ hmem)) (flat ++ types)
        rw [← List.append_assoc] at hrest
        exact hrest

theorem variant_appends (cases : List Case)
    (h : ∀ case ∈ cases, ∀ ty, case.ty = some ty → Appends f g ty) (payload : List CoreValType) :
    (cases.foldlM (flattenCase f) payload).toOption =
      (cases.foldlM (casePayloadFlatTypes g) payload).toOption := by
  induction cases generalizing payload with
  | nil => rfl
  | cons case cases ih =>
      have hrest := fun payload => ih (fun case hmem => h case (List.mem_cons_of_mem _ hmem)) payload
      rw [List.foldlM_cons, List.foldlM_cons, toOption_bind, toOption_bind]
      unfold flattenCase casePayloadFlatTypes
      cases hty : case.ty with
      | none => exact hrest payload
      | some ty =>
          have hfirst := h case (List.mem_cons_self ..) ty hty []
          dsimp only
          rw [toOption_bind, toOption_bind, hfirst]
          rcases g ty with e | flat
          · rfl
          · exact hrest (overlay joinComponentFlatTypes payload flat)

theorem flattenDefval_appends (ty : DefValType)
    (h : ∀ inner : ValType, inner.refs ⊆ ty.refs → Appends f g inner) (out : List CoreValType) :
    (flattenDefval f ty out).toOption = (flatTypesForDefval g ty).toOption.map (out ++ ·) := by
  cases ty with
  | primitive prim =>
      change some (flattenPrimitive prim out) = some _
      rw [flattenPrimitive_eq]
  | record fields =>
      have hfields : ∀ field ∈ fields, Appends f g field.ty :=
        fun field hmem => h field.ty (DefValType.field_refs hmem)
      have hrecord := record_appends fields hfields out []
      rw [List.append_nil] at hrecord
      exact hrecord
  | variant cases =>
      have hcases : ∀ case ∈ cases, ∀ ty, case.ty = some ty → Appends f g ty :=
        fun case hmem ty hty => h ty (DefValType.case_refs hmem hty)
      have hvariant := variant_appends cases hcases []
      unfold flattenDefval flatTypesForDefval variantPayloadFlatTypes
      dsimp only
      rw [toOption_bind, toOption_bind, hvariant, Option.map_bind]
      congr 1
      funext payload
      change some (out ++ [ValType.i32] ++ payload) = some (out ++ .i32 :: payload)
      rw [List.append_assoc]
      rfl
  | flags labels =>
      change some _ = some _
      rw [flagsFlatLen_eq]
  | list elem len => rfl
  | own id => rfl
  | borrow id => rfl

end step

/-- The types of the decoder are those of the program as far as they go. -/
theorem flattenValType_appends {a : TypeArena M} {types : List (Ty M)} (hpre : a.types <+: types)
    (depth depth' : Nat) (ty : ValType) (hlt : ∀ ref ∈ ty.refs, ref < depth)
    (hlt' : ∀ ref ∈ ty.refs, ref < depth') (hin : ∀ ref ∈ ty.refs, ref < a.types.length) :
    Appends (flattenValType a.types depth) (flatTypesForValtype types depth') ty := by
  induction depth generalizing depth' ty with
  | zero =>
      cases ty with
      | primitive prim =>
          intro out
          unfold flattenValType flatTypesForValtype
          change some (flattenPrimitive prim out) = some _
          rw [flattenPrimitive_eq]
      | type id => exact absurd (hlt id (List.mem_singleton_self id)) (Nat.not_lt_zero id)
  | succ depth ih =>
      cases ty with
      | primitive prim =>
          intro out
          unfold flattenValType flatTypesForValtype
          change some (flattenPrimitive prim out) = some _
          rw [flattenPrimitive_eq]
      | type id =>
          have hid := List.mem_singleton_self id
          obtain ⟨depth', rfl⟩ := Nat.exists_eq_succ_of_ne_zero (Nat.ne_of_gt
            (Nat.lt_of_le_of_lt (Nat.zero_le id) (hlt' id hid)))
          have hlen := hin id hid
          obtain ⟨ty, hty⟩ : ∃ ty, a.types[id]? = some ty := ⟨_, List.getElem?_eq_getElem hlen⟩
          have hty' : types[id]? = some ty := by
            obtain ⟨rest, rfl⟩ := hpre
            rw [List.getElem?_append_left (hin id hid), hty]
          have hrefs := a.refs_lt id ty hty
          intro out
          unfold flattenValType flatTypesForValtype
          rw [hty, hty']
          cases ty with
          | defVal def_ =>
              refine flattenDefval_appends def_ ?_ out
              intro inner hsub
              have hinner : ∀ ref ∈ inner.refs, ref < id := fun ref href => hrefs ref (hsub href)
              have h1 := hlt id hid
              have h2 := hlt' id hid
              have h3 := hin id hid
              exact ih depth' inner (fun ref href => by have := hinner ref href; omega)
                (fun ref href => by have := hinner ref href; omega)
                (fun ref href => by have := hinner ref href; omega)
          | generic g => rfl
          | func func => rfl
          | resource r => rfl
          | component c => rfl
          | «instance» i => rfl

theorem overlay_length (join : CoreValType → CoreValType → CoreValType)
    (payload flat : List CoreValType) :
    (overlay join payload flat).length = max payload.length flat.length := by
  induction payload generalizing flat with
  | nil => cases flat <;> simp [overlay]
  | cons current payload ih =>
      cases flat with
      | nil => simp [overlay]
      | cons ty flat => simp [overlay, ih, Nat.succ_max_succ]

theorem primitiveInfo_flatLen (prim : PrimValType) :
    (primitiveInfo prim).flatLen = (flatTypesForPrimitive prim).length := by
  cases prim <;> rfl

theorem flagsInfo_flatLen (labels : List Label) :
    (flagsInfo labels.length).1 = flagsFlatLen labels := by
  unfold flagsInfo
  rw [flagsFlatLen_eq]
  split
  · omega
  · split
    · dsimp only
      omega
    · split
      · dsimp only
        omega
      · rfl

/-- The stored length is that of the flat types, where there are any. -/
def Sized (types : List (Ty M)) (ty : ValType) (info : TypeInfo) : Prop :=
  ∀ depth flat, (∀ ref ∈ ty.refs, ref < depth) →
    flatTypesForValtype types depth ty = .ok flat → info.flatLen = flat.length

def MemoSized (types : List (Ty M)) (s : InfoState) : Prop :=
  ∀ (id : Nat) info, s.memo[id]? = some (some info) → Sized types (.type id) info

/-- A walk that keeps the memo right and returns what is right. -/
def Sizes (types : List (Ty M))
    (rec : TypeId → InfoState → Except ComponentError (TypeInfo × InfoState)) : Prop :=
  ∀ id s info s', rec id s = .ok (info, s') → MemoSized types s →
    Sized types (.type id) info ∧ MemoSized types s'

section walk

variable {types : List (Ty M)}
  {rec : TypeId → InfoState → Except ComponentError (TypeInfo × InfoState)}

theorem valtypeInfo_sizes (hrec : Sizes types rec) {ty : ValType} {s s' : InfoState}
    {info : TypeInfo} (hok : valtypeInfo rec ty s = .ok (info, s')) (hs : MemoSized types s) :
    Sized types ty info ∧ MemoSized types s' := by
  cases ty with
  | primitive prim =>
      obtain ⟨rfl, rfl⟩ := Prod.mk.inj (Except.ok.inj hok)
      refine ⟨?_, hs⟩
      intro depth flat _ hflat
      unfold flatTypesForValtype at hflat
      rw [primitiveInfo_flatLen, Except.ok.inj hflat]
  | type id => exact hrec id s info s' hok hs

theorem record_sizes (hrec : Sizes types rec) (fields : List LabelValType) {len size align : Nat}
    {len' size' align' : Nat} {s s' : InfoState}
    (hok : fields.foldlM (recordField rec) ((len, size, align), s) =
      .ok ((len', size', align'), s'))
    (hs : MemoSized types s) :
    MemoSized types s' ∧ ∀ depth (before flat : List CoreValType),
      (∀ field ∈ fields, ∀ ref ∈ field.ty.refs, ref < depth) → before.length = len →
      fields.foldlM (fun out (field : LabelValType) => do
        return out ++ (← flatTypesForValtype types depth field.ty)) before = .ok flat →
      len' = flat.length := by
  induction fields generalizing len size align s with
  | nil =>
      obtain ⟨hacc, rfl⟩ := Prod.mk.inj (Except.ok.inj hok)
      refine ⟨hs, ?_⟩
      intro depth before flat _ hbefore hflat
      rw [← Except.ok.inj hflat, hbefore]
      exact (Prod.mk.inj hacc).1.symm
  | cons field fields ih =>
      rw [List.foldlM_cons] at hok
      obtain ⟨⟨⟨len₁, size₁, align₁⟩, s₁⟩, hfirst, hrest⟩ := Lib.bind_eq_ok.mp hok
      obtain ⟨⟨info, s₂⟩, hinfo, heq⟩ := Lib.bind_eq_ok.mp hfirst
      cases heq
      obtain ⟨hsized, hs₁⟩ := valtypeInfo_sizes hrec hinfo hs
      obtain ⟨hs', hlen⟩ := ih hrest hs₁
      refine ⟨hs', ?_⟩
      intro depth before flat hlt hbefore hflat
      rw [List.foldlM_cons] at hflat
      obtain ⟨out, hout, hflat⟩ := Lib.bind_eq_ok.mp hflat
      obtain ⟨first, hfield, hout⟩ := Lib.bind_eq_ok.mp hout
      obtain rfl := Lib.pure_eq_ok.mp hout
      refine hlen depth _ flat (fun field hmem => hlt field (List.mem_cons_of_mem _ hmem)) ?_ hflat
      rw [List.length_append, hbefore,
        hsized depth first (hlt field (List.mem_cons_self ..)) hfield]

theorem variant_sizes (hrec : Sizes types rec) (cases : List Case) {len size align : Nat}
    {len' size' align' : Nat} {s s' : InfoState}
    (hok : cases.foldlM (variantCase rec) ((len, size, align), s) =
      .ok ((len', size', align'), s'))
    (hs : MemoSized types s) :
    MemoSized types s' ∧ ∀ depth (before flat : List CoreValType),
      (∀ case ∈ cases, ∀ ty, case.ty = some ty → ∀ ref ∈ ty.refs, ref < depth) →
      before.length = len →
      cases.foldlM (casePayloadFlatTypes (flatTypesForValtype types depth)) before = .ok flat →
      len' = flat.length := by
  induction cases generalizing len size align s with
  | nil =>
      obtain ⟨hacc, rfl⟩ := Prod.mk.inj (Except.ok.inj hok)
      refine ⟨hs, ?_⟩
      intro depth before flat _ hbefore hflat
      rw [← Except.ok.inj hflat, hbefore]
      exact (Prod.mk.inj hacc).1.symm
  | cons case cases ih =>
      rw [List.foldlM_cons] at hok
      obtain ⟨⟨⟨len₁, size₁, align₁⟩, s₁⟩, hfirst, hrest⟩ := Lib.bind_eq_ok.mp hok
      unfold variantCase at hfirst
      dsimp only at hfirst
      cases hty : case.ty with
      | none =>
          rw [hty] at hfirst
          cases Lib.pure_eq_ok.mp hfirst
          obtain ⟨hs', hlen⟩ := ih hrest hs
          refine ⟨hs', ?_⟩
          intro depth before flat hlt hbefore hflat
          rw [List.foldlM_cons] at hflat
          obtain ⟨out, hout, hflat⟩ := Lib.bind_eq_ok.mp hflat
          unfold casePayloadFlatTypes at hout
          rw [hty] at hout
          obtain rfl := Lib.pure_eq_ok.mp hout
          exact hlen depth before flat (fun case hmem => hlt case (List.mem_cons_of_mem _ hmem))
            hbefore hflat
      | some ty =>
          rw [hty] at hfirst
          obtain ⟨⟨info, s₂⟩, hinfo, heq⟩ := Lib.bind_eq_ok.mp hfirst
          cases heq
          obtain ⟨hsized, hs₁⟩ := valtypeInfo_sizes hrec hinfo hs
          obtain ⟨hs', hlen⟩ := ih hrest hs₁
          refine ⟨hs', ?_⟩
          intro depth before flat hlt hbefore hflat
          rw [List.foldlM_cons] at hflat
          obtain ⟨out, hout, hflat⟩ := Lib.bind_eq_ok.mp hflat
          unfold casePayloadFlatTypes at hout
          rw [hty] at hout
          obtain ⟨first, hcase, hout⟩ := Lib.bind_eq_ok.mp hout
          obtain rfl := Lib.pure_eq_ok.mp hout
          refine hlen depth _ flat (fun case hmem => hlt case (List.mem_cons_of_mem _ hmem)) ?_
            hflat
          rw [overlay_length, hbefore,
            hsized depth first (hlt case (List.mem_cons_self ..) ty hty) hcase]

theorem defvalInfo_sizes (hrec : Sizes types rec) {id : TypeId} {ty : DefValType}
    {s s' : InfoState} {info : TypeInfo} (hok : defvalInfo rec id ty s = .ok (info, s'))
    (hs : MemoSized types s) :
    MemoSized types s' ∧ ∀ depth flat, (∀ ref ∈ ty.refs, ref < depth) →
      flatTypesForDefval (flatTypesForValtype types depth) ty = .ok flat →
      info.flatLen = flat.length := by
  cases ty with
  | primitive prim =>
      obtain ⟨rfl, rfl⟩ := Prod.mk.inj (Except.ok.inj hok)
      refine ⟨hs, fun depth flat _ hflat => ?_⟩
      rw [primitiveInfo_flatLen, Except.ok.inj hflat]
  | record fields =>
      obtain ⟨⟨⟨len, size, align⟩, s₁⟩, hfields, heq⟩ := Lib.bind_eq_ok.mp hok
      cases heq
      obtain ⟨hs', hlen⟩ := record_sizes hrec fields hfields hs
      refine ⟨hs', fun depth flat hlt hflat => ?_⟩
      exact hlen depth [] flat (fun field hmem ref href =>
        hlt ref (DefValType.field_refs hmem href)) rfl hflat
  | variant cases =>
      obtain ⟨discriminantSize, -, hok⟩ := Lib.bind_eq_ok.mp hok
      obtain ⟨⟨⟨len, size, align⟩, s₁⟩, hcases, heq⟩ := Lib.bind_eq_ok.mp hok
      cases heq
      obtain ⟨hs', hlen⟩ := variant_sizes hrec cases hcases hs
      refine ⟨hs', fun depth flat hlt hflat => ?_⟩
      obtain ⟨payload, hpayload, hflat⟩ := Lib.bind_eq_ok.mp hflat
      obtain rfl := Lib.pure_eq_ok.mp hflat
      have hpayloadLen := hlen depth [] payload (fun case hmem ty hty ref href =>
        hlt ref (DefValType.case_refs hmem hty href)) rfl hpayload
      rw [List.length_cons, hpayloadLen, Nat.add_comm]
  | flags labels =>
      obtain ⟨rfl, rfl⟩ := Prod.mk.inj (Except.ok.inj hok)
      refine ⟨hs, fun depth flat _ hflat => ?_⟩
      rw [← Except.ok.inj hflat, List.length_replicate]
      exact flagsInfo_flatLen labels
  | list elem len =>
      obtain ⟨⟨elemInfo, s₁⟩, helem, heq⟩ := Lib.bind_eq_ok.mp hok
      cases heq
      obtain ⟨-, hs'⟩ := valtypeInfo_sizes hrec helem hs
      refine ⟨hs', fun depth flat _ hflat => ?_⟩
      rw [← Except.ok.inj hflat]
      rfl
  | own id =>
      obtain ⟨rfl, rfl⟩ := Prod.mk.inj (Except.ok.inj hok)
      refine ⟨hs, fun depth flat _ hflat => ?_⟩
      rw [← Except.ok.inj hflat]
      rfl
  | borrow id =>
      obtain ⟨rfl, rfl⟩ := Prod.mk.inj (Except.ok.inj hok)
      refine ⟨hs, fun depth flat _ hflat => ?_⟩
      rw [← Except.ok.inj hflat]
      rfl

end walk

private theorem sized_of_handle {types : List (Ty M)} {id : Nat} {ty : Ty M} {info : TypeInfo}
    (hty : types[id]? = some ty) (hhandle : (∃ r, ty = .resource r) ∨ ∃ g, ty = .generic g)
    (hlen : info.flatLen = 1) : Sized types (.type id) info := by
  intro depth flat hlt hflat
  have hid := hlt id (List.mem_singleton_self id)
  obtain ⟨depth, rfl⟩ := Nat.exists_eq_succ_of_ne_zero (by omega : depth ≠ 0)
  unfold flatTypesForValtype at hflat
  rw [hty] at hflat
  rw [hlen]
  rcases hhandle with ⟨r, rfl⟩ | ⟨g, rfl⟩ <;>
    rw [← Except.ok.inj hflat] <;> rfl

private theorem sized_of_unsupported {types : List (Ty M)} {id : Nat} {ty : Ty M} {info : TypeInfo}
    (hty : types[id]? = some ty) (hnone : ∀ g flat, flatTypesForType g ty ≠ .ok flat) :
    Sized types (.type id) info := by
  intro depth flat hlt hflat
  have hid := hlt id (List.mem_singleton_self id)
  obtain ⟨depth, rfl⟩ := Nat.exists_eq_succ_of_ne_zero (by omega : depth ≠ 0)
  unfold flatTypesForValtype at hflat
  rw [hty] at hflat
  exact absurd hflat (hnone _ _)

theorem typeInfo_sizes (a : TypeArena M) (depth : Nat) : Sizes a.types (typeInfo a.types depth) := by
  induction depth with
  | zero =>
      intro id s info s' hok
      cases hok
  | succ depth ih =>
      intro id s info s' hok hs
      unfold typeInfo at hok
      split at hok
      · next info' hmemo =>
          obtain ⟨rfl, rfl⟩ := Prod.mk.inj (Except.ok.inj hok)
          exact ⟨hs id _ hmemo, hs⟩
      · split at hok
        · cases hok
        · next ty hvisiting hty =>
            obtain ⟨⟨info', s₁⟩, hinfo, heq⟩ := Lib.bind_eq_ok.mp hok
            cases heq
            have hsized : MemoSized a.types s₁ ∧ Sized a.types (.type id) info := by
              have hrefs := a.refs_lt id ty hty
              cases ty with
              | defVal def_ =>
                  obtain ⟨hs₁, hlen⟩ := defvalInfo_sizes ih hinfo hs
                  refine ⟨hs₁, ?_⟩
                  intro depth flat hlt hflat
                  have hid := hlt id (List.mem_singleton_self id)
                  obtain ⟨depth, rfl⟩ := Nat.exists_eq_succ_of_ne_zero (by omega : depth ≠ 0)
                  unfold flatTypesForValtype at hflat
                  rw [hty] at hflat
                  refine hlen depth flat (fun ref href => ?_) hflat
                  have := hrefs ref href
                  omega
              | generic g =>
                  obtain ⟨rfl, rfl⟩ := Prod.mk.inj (Except.ok.inj hinfo)
                  refine ⟨hs, ?_⟩
                  exact sized_of_handle hty (Or.inr ⟨g, rfl⟩) rfl
              | resource r =>
                  obtain ⟨rfl, rfl⟩ := Prod.mk.inj (Except.ok.inj hinfo)
                  refine ⟨hs, ?_⟩
                  exact sized_of_handle hty (Or.inl ⟨r, rfl⟩) rfl
              | func func =>
                  obtain ⟨rfl, rfl⟩ := Prod.mk.inj (Except.ok.inj hinfo)
                  exact ⟨hs, sized_of_unsupported hty (by simp [flatTypesForType])⟩
              | component c =>
                  obtain ⟨rfl, rfl⟩ := Prod.mk.inj (Except.ok.inj hinfo)
                  exact ⟨hs, sized_of_unsupported hty (by simp [flatTypesForType])⟩
              | «instance» i =>
                  obtain ⟨rfl, rfl⟩ := Prod.mk.inj (Except.ok.inj hinfo)
                  exact ⟨hs, sized_of_unsupported hty (by simp [flatTypesForType])⟩
            refine ⟨hsized.2, ?_⟩
            intro id' info' hmemo
            rw [List.getElem?_set] at hmemo
            split at hmemo
            · next heq =>
                subst heq
                split at hmemo
                · obtain rfl := Option.some.inj (Option.some.inj hmemo)
                  exact hsized.2
                · cases hmemo
            · exact hsized.1 id' info' hmemo
        · cases hok

/-- From a prefix of the types on: what was found is right and so is the memo. -/
theorem nextTypeInfo_sized (a : TypeArena M) (ids : List Nat) {acc acc' : List TypeInfo × InfoState}
    (hids : ids = List.range' acc.1.length ids.length) (hs : MemoSized a.types acc.2)
    (hsized : ∀ (id : Nat) info, acc.1[id]? = some info → Sized a.types (.type id) info)
    (hok : ids.foldlM (nextTypeInfo a.types) acc = .ok acc') :
    acc'.1.length = acc.1.length + ids.length ∧
      ∀ (id : Nat) info, acc'.1[id]? = some info → Sized a.types (.type id) info := by
  induction ids generalizing acc with
  | nil =>
      obtain rfl := Except.ok.inj hok
      exact ⟨rfl, hsized⟩
  | cons id ids ih =>
      obtain ⟨infos, s⟩ := acc
      rw [List.length_cons, List.range'_succ] at hids
      obtain ⟨rfl, hids⟩ := List.cons.inj hids
      rw [List.foldlM_cons] at hok
      obtain ⟨acc₁, hstep, hok⟩ := Lib.bind_eq_ok.mp hok
      obtain ⟨⟨info, s₁⟩, hinfo, heq⟩ := Lib.bind_eq_ok.mp hstep
      obtain rfl := Lib.pure_eq_ok.mp heq
      obtain ⟨hfound, hs₁⟩ := typeInfo_sizes a _ _ _ _ _ hinfo hs
      have hsized₁ : ∀ (id : Nat) info', (infos ++ [info])[id]? = some info' →
          Sized a.types (.type id) info' := by
        intro id info' hget
        rcases Nat.lt_trichotomy id infos.length with hlt | rfl | hlt
        · rw [List.getElem?_append_left hlt] at hget
          exact hsized id info' hget
        · rw [List.getElem?_concat_length] at hget
          obtain rfl := Option.some.inj hget
          exact hfound
        · rw [List.getElem?_eq_none (by simp; omega)] at hget
          cases hget
      obtain ⟨hlen, hsized'⟩ := ih (by simpa using hids) hs₁ hsized₁ hok
      refine ⟨?_, hsized'⟩
      rw [hlen]
      simp only [List.length_append, List.length_cons, List.length_nil]
      omega

theorem buildTypeInfos_sized {a : TypeArena M} {infos : List TypeInfo}
    (hok : buildTypeInfos a.types = .ok infos) :
    infos.length = a.types.length ∧
      ∀ (id : Nat) info, infos[id]? = some info → Sized a.types (.type id) info := by
  obtain ⟨⟨infos', s⟩, hrun, heq⟩ := Lib.bind_eq_ok.mp hok
  obtain rfl := Lib.pure_eq_ok.mp heq
  have hstart : MemoSized a.types
      ⟨List.replicate a.types.length none, List.replicate a.types.length false⟩ := by
    intro id info hmemo
    rw [List.getElem?_replicate] at hmemo
    split at hmemo <;> cases hmemo
  obtain ⟨hlen, hsized⟩ := nextTypeInfo_sized a _ (by simp [List.range_eq_range']) hstart
    (fun id info h => by simp at h) hrun
  exact ⟨by simpa using hlen, hsized⟩

/-! ## One core signature -/

structure SameFlattening (a : TypeArena M) (p : Program M) (ty : ValType) : Prop where
  types : (flattenValType a.types a.types.length ty []).toOption = (p.flatTypes ty).toOption
  length : ∀ flat, p.flatTypes ty = .ok flat → p.valueFlatLen ty = .ok flat.length

section signature

variable {a : TypeArena M} {p : Program M}

theorem sameFlattening (hpre : a.types <+: p.arena.types) {ty : ValType}
    (hin : ∀ ref ∈ ty.refs, ref < a.types.length) : SameFlattening a p ty := by
  have hlen := hpre.length_le
  have hin' : ∀ ref ∈ ty.refs, ref < p.arena.types.length :=
    fun ref href => Nat.lt_of_lt_of_le (hin ref href) hlen
  constructor
  · rw [flattenValType_appends hpre _ _ ty hin hin' hin [], Program.flatTypes]
    simp
  · intro flat hflat
    cases ty with
    | primitive prim =>
        unfold Program.flatTypes flatTypesForValtype at hflat
        obtain rfl := Except.ok.inj hflat
        rfl
    | type id =>
        obtain ⟨hinfos, hsized⟩ := buildTypeInfos_sized p.built
        have hid := hin' id (List.mem_singleton_self id)
        have hget := List.getElem?_eq_getElem (hinfos ▸ hid)
        unfold Program.valueFlatLen
        dsimp only
        rw [hget]
        dsimp only
        rw [hsized id _ hget _ flat hin' hflat]

theorem flattenParams_eq (params : List ValType) (hsame : ∀ ty ∈ params, SameFlattening a p ty)
    (happends : ∀ ty ∈ params, Appends (flattenValType a.types a.types.length) p.flatTypes ty)
    {before flat : List CoreValType}
    (hok : params.foldlM (fun out ty => flattenValType a.types a.types.length ty out) before =
      .ok flat) :
    params.foldlM (fun out ty => do return out ++ (← p.flatTypes ty)) before = .ok flat ∧
      params.foldlM (fun len ty => do return len + (← p.valueFlatLen ty)) before.length =
        .ok flat.length := by
  induction params generalizing before with
  | nil =>
      obtain rfl := Except.ok.inj hok
      exact ⟨rfl, rfl⟩
  | cons ty params ih =>
      rw [List.foldlM_cons] at hok
      obtain ⟨out, hfirst, hok⟩ := Lib.bind_eq_ok.mp hok
      have happend := happends ty (List.mem_cons_self ..) before
      rw [hfirst] at happend
      rcases htypes : p.flatTypes ty with e | types
      · rw [htypes] at happend
        cases happend
      · rw [htypes] at happend
        have hout : out = before ++ types := Option.some.inj happend
        have hlen := (hsame ty (List.mem_cons_self ..)).length types htypes
        have hrest := ih (fun ty hmem => hsame ty (List.mem_cons_of_mem _ hmem))
          (fun ty hmem => happends ty (List.mem_cons_of_mem _ hmem)) hok
        rw [List.foldlM_cons, List.foldlM_cons, htypes, hlen]
        rw [hout, List.length_append] at hrest
        exact hrest

omit p in
theorem func_refs_lt {id : TypeId} {func : FuncType} (hfunc : a.get id = some (.func func))
    (ty : ValType) (hty : ty ∈ func.params ∨ func.result = some ty) :
    ∀ ref ∈ ty.refs, ref < a.types.length := by
  intro ref href
  have hlt := (List.getElem?_eq_some_iff.mp hfunc).1
  refine Nat.lt_trans (a.refs_lt id _ hfunc ref (List.mem_append.mpr ?_)) hlt
  rcases hty with hmem | hresult
  · exact Or.inl (List.mem_flatMap.mpr ⟨ty, hmem, href⟩)
  · refine Or.inr ?_
    rw [hresult]
    exact href

section function

variable (hpre : a.types <+: p.arena.types) {func : FuncType}
  (hin : ∀ ty, ty ∈ func.params ∨ func.result = some ty → ∀ ref ∈ ty.refs, ref < a.types.length)

include hpre hin

theorem flattenParamTypes_eq {params : List CoreValType}
    (hparams : flattenParamTypes a func = .ok params) :
    func.params.foldlM (fun out ty => do return out ++ (← p.flatTypes ty)) [] = .ok params ∧
      p.functionParamsFlatLen func = .ok params.length :=
  flattenParams_eq func.params
    (fun ty hmem => sameFlattening hpre (hin ty (Or.inl hmem)))
    (fun ty hmem => flattenValType_appends hpre _ _ ty (hin ty (Or.inl hmem))
      (fun ref href => Nat.lt_of_lt_of_le (hin ty (Or.inl hmem) ref href) hpre.length_le)
      (hin ty (Or.inl hmem))) hparams

theorem flattenResultTypes_eq {ty : ValType} (hresult : func.result = some ty)
    {results : List CoreValType} (hresults : flattenResultTypes a func = .ok results) :
    p.flatTypes ty = .ok results ∧ p.valueFlatLen ty = .ok results.length := by
  have hsame := sameFlattening hpre (hin ty (Or.inr hresult))
  have htypes := hsame.types
  unfold flattenResultTypes at hresults
  rw [hresult] at hresults
  dsimp only at hresults
  rw [hresults] at htypes
  rcases hflat : p.flatTypes ty with e | flat
  · rw [hflat] at htypes
    cases htypes
  · rw [hflat] at htypes
    obtain rfl : results = flat := Option.some.inj htypes
    exact ⟨rfl, hsame.length results hflat⟩

theorem flattenFuncType_eq {mode : CanonMode} {sig : CoreFuncType}
    (hok : flattenFuncType a func mode = .ok sig) : p.coreSignature func mode = .ok sig := by
  obtain ⟨params, hparams, hok⟩ := Lib.bind_eq_ok.mp hok
  obtain ⟨results, hresults, hok⟩ := Lib.bind_eq_ok.mp hok
  obtain ⟨hflat, hflatLen⟩ := flattenParamTypes_eq hpre hin hparams
  have hcoreParams : p.coreParams func = .ok (abiFlattenParams params) := by
    unfold Program.coreParams abiFlattenParams
    rw [hflatLen]
    change (if _ then _ else _) = _
    split
    · rfl
    · exact hflat
  have hcoreResults : p.spillsResult func = .ok (decide (maxFlatResults < results.length)) ∧
      p.coreResults func = .ok results := by
    unfold Program.spillsResult Program.coreResults
    cases hresult : func.result with
    | none =>
        unfold flattenResultTypes at hresults
        rw [hresult] at hresults
        obtain rfl := Except.ok.inj hresults
        exact ⟨rfl, rfl⟩
    | some ty =>
        obtain ⟨htypes, hlen⟩ := flattenResultTypes_eq hpre hin hresult hresults
        dsimp only
        rw [htypes, hlen]
        exact ⟨rfl, rfl⟩
  unfold abiFlattenResults at hok
  unfold Program.coreSignature
  rw [hcoreParams, hcoreResults.1, hcoreResults.2]
  by_cases hspill : maxFlatResults < results.length
  · rw [if_pos hspill] at hok
    rw [decide_eq_true hspill]
    cases mode <;> rw [← Lib.pure_eq_ok.mp hok] <;> rfl
  · rw [if_neg hspill] at hok
    rw [decide_eq_false hspill, ← Lib.pure_eq_ok.mp hok]
    rfl

end function

end signature

section chosen

/-- A variant of a string and a wide flag set, and a function that takes it in a list and alone. -/
private def sampleTypes : List (Ty Empty) :=
  [.defVal (.flags ((List.range 40).map toString)),
    .defVal (.variant [⟨"name", some (.primitive .string)⟩, ⟨"bits", some (.type 0)⟩,
      ⟨"ratio", some (.primitive .f64)⟩]),
    .defVal (.list (.type 1) (some 3)),
    .func ⟨[.type 2, .type 1], ["all", "one"], some (.type 1)⟩]

private def sampleArena : TypeArena Empty where
  types := sampleTypes
  refs_lt := by
    intro id ty h
    match id, h with
    | 0, h => cases h; decide
    | 1, h => cases h; decide
    | 2, h => cases h; decide
    | 3, h => cases h; decide
  names_nodup := by
    intro ty h
    simp only [sampleTypes, List.mem_cons, List.not_mem_nil, or_false] at h
    rcases h with rfl | rfl | rfl | rfl <;> trivial
  generic_sub := by
    intro g h
    simp [sampleTypes] at h

private def sampleProgram : Program Empty where
  arena := sampleArena
  typeInfos := [⟨0, 2, 8, 4, some 40⟩, ⟨1, 3, 16, 8, none⟩, ⟨2, 2, 8, 4, some 3⟩,
    ⟨3, 0, 0, 1, none⟩]
  built := rfl

end chosen

end Telomere.Component
