import Telomere.Component.StoredValues

/-!
# Values as core values

The core values of a value are lifted to the value again, as long as nobody wrote to the blocks that
were allocated for it. The payload of a variant comes back from the joined types of all its cases.
-/

namespace Telomere.Component

variable {M σ α β : Type}

/-- A number of the first type is kept whole as one of the second. -/
inductive Widens : CoreValType → CoreValType → Prop where
  | i32 : Widens .i32 .i32
  | i64 : Widens .i64 .i64
  | f32 : Widens .f32 .f32
  | f64 : Widens .f64 .f64
  | i32I64 : Widens .i32 .i64
  | f32I32 : Widens .f32 .i32
  | f32I64 : Widens .f32 .i64
  | f64I64 : Widens .f64 .i64

theorem Widens.trans {a b c : CoreValType} (hab : Widens a b) (hbc : Widens b c) : Widens a c := by
  cases hab <;> cases hbc <;> constructor

theorem widens_join {a b : CoreValType} (ha : Widens a a) (hb : Widens b b) :
    Widens (joinComponentFlatTypes a b) (joinComponentFlatTypes a b) ∧
      Widens a (joinComponentFlatTypes a b) ∧ Widens b (joinComponentFlatTypes a b) := by
  cases ha <;> cases hb <;> exact ⟨by constructor, by constructor, by constructor⟩

def Numbers (types : List CoreValType) : Prop := ∀ ty ∈ types, Widens ty ty

theorem numbers_nil : Numbers [] := by simp [Numbers]

/-- The types of a payload as the first of those it is passed as. -/
inductive WidensTo : List CoreValType → List CoreValType → Prop where
  | nil (types : List CoreValType) : WidensTo [] types
  | cons {ty ty' : CoreValType} {types types' : List CoreValType} (head : Widens ty ty')
      (tail : WidensTo types types') : WidensTo (ty :: types) (ty' :: types')

theorem WidensTo.trans {as bs cs : List CoreValType} (hab : WidensTo as bs) (hbc : WidensTo bs cs) :
    WidensTo as cs := by
  induction hab generalizing cs with
  | nil => exact .nil cs
  | cons head tail ih =>
      cases hbc with
      | cons head' tail' => exact .cons (head.trans head') (ih tail')

theorem WidensTo.refl {types : List CoreValType} (h : Numbers types) : WidensTo types types := by
  induction types with
  | nil => exact .nil []
  | cons ty types ih =>
      exact .cons (h ty (List.mem_cons_self ..)) (ih fun ty hmem => h ty (List.mem_cons_of_mem _ hmem))

theorem overlay_widens {payload flat : List CoreValType} (hpayload : Numbers payload)
    (hflat : Numbers flat) :
    Numbers (overlay joinComponentFlatTypes payload flat) ∧
      WidensTo payload (overlay joinComponentFlatTypes payload flat) ∧
        WidensTo flat (overlay joinComponentFlatTypes payload flat) := by
  induction payload generalizing flat with
  | nil =>
      cases flat with
      | nil => exact ⟨hflat, .nil [], .nil []⟩
      | cons ty flat => exact ⟨hflat, .nil _, .refl hflat⟩
  | cons current payload ih =>
      cases flat with
      | nil => exact ⟨hpayload, .refl hpayload, .nil _⟩
      | cons ty flat =>
          have hjoin := widens_join (hpayload current (List.mem_cons_self ..))
            (hflat ty (List.mem_cons_self ..))
          obtain ⟨hnumbers, hleft, hright⟩ := @ih flat
            (fun ty hmem => hpayload ty (List.mem_cons_of_mem _ hmem))
            fun ty hmem => hflat ty (List.mem_cons_of_mem _ hmem)
          refine ⟨?_, .cons hjoin.2.1 hleft, .cons hjoin.2.2 hright⟩
          intro joined hmem
          rcases List.mem_cons.mp hmem with rfl | hmem
          · exact hjoin.1
          · exact hnumbers joined hmem

theorem payload_widens {flatTypes : ValType → Except ComponentError (List CoreValType)}
    (hnumbers : ∀ ty types, flatTypes ty = .ok types → Numbers types) {cases : List Case}
    {acc payload : List CoreValType} (hacc : Numbers acc)
    (hok : cases.foldlM (casePayloadFlatTypes flatTypes) acc = .ok payload) :
    Numbers payload ∧ WidensTo acc payload ∧ ∀ case ∈ cases, ∀ ty, case.ty = some ty →
      ∃ flat, flatTypes ty = .ok flat ∧ WidensTo flat payload := by
  induction cases generalizing acc with
  | nil =>
      obtain rfl := Except.ok.inj hok
      exact ⟨hacc, .refl hacc, by simp⟩
  | cons case cases ih =>
      rw [List.foldlM_cons] at hok
      obtain ⟨next, hnext, hok⟩ := Lib.bind_eq_ok.mp hok
      unfold casePayloadFlatTypes at hnext
      cases hty : case.ty with
      | none =>
          rw [hty] at hnext
          obtain rfl := Except.ok.inj hnext
          obtain ⟨hpayload, hwiden, hcases⟩ := ih hacc hok
          refine ⟨hpayload, hwiden, ?_⟩
          intro case' hmem ty hcase
          rcases List.mem_cons.mp hmem with rfl | hmem
          · rw [hty] at hcase
            cases hcase
          · exact hcases case' hmem ty hcase
      | some ty =>
          rw [hty] at hnext
          obtain ⟨flat, hflat, hnext⟩ := Lib.bind_eq_ok.mp hnext
          obtain rfl := Lib.pure_eq_ok.mp hnext
          obtain ⟨hoverlay, hleft, hright⟩ := overlay_widens hacc (hnumbers ty flat hflat)
          obtain ⟨hpayload, hwiden, hcases⟩ := ih hoverlay hok
          refine ⟨hpayload, hleft.trans hwiden, ?_⟩
          intro case' hmem ty' hcase
          rcases List.mem_cons.mp hmem with rfl | hmem
          · rw [hty] at hcase
            obtain rfl := Option.some.inj hcase
            exact ⟨flat, hflat, hright.trans hwiden⟩
          · exact hcases case' hmem ty' hcase

theorem fields_numbers {flatTypes : ValType → Except ComponentError (List CoreValType)}
    (hnumbers : ∀ ty types, flatTypes ty = .ok types → Numbers types) {fields : List LabelValType}
    {acc total : List CoreValType} (hacc : Numbers acc)
    (hok : fields.foldlM (fun types field => do return types ++ (← flatTypes field.ty)) acc =
      .ok total) : Numbers total := by
  induction fields generalizing acc with
  | nil =>
      obtain rfl := Except.ok.inj hok
      exact hacc
  | cons field fields ih =>
      rw [List.foldlM_cons] at hok
      obtain ⟨next, hnext, hok⟩ := Lib.bind_eq_ok.mp hok
      obtain ⟨flat, hflat, hnext⟩ := Lib.bind_eq_ok.mp hnext
      obtain rfl := Lib.pure_eq_ok.mp hnext
      refine ih ?_ hok
      intro ty hmem
      rcases List.mem_append.mp hmem with hmem | hmem
      · exact hacc ty hmem
      · exact hnumbers field.ty flat hflat ty hmem

theorem numbers_primitive (prim : PrimValType) : Numbers (flatTypesForPrimitive prim) := by
  intro ty hmem
  cases prim <;> simp [flatTypesForPrimitive] at hmem <;> subst hmem <;> constructor

theorem numbers_i32 {types : List CoreValType} (h : ∀ ty ∈ types, ty = .i32) : Numbers types := by
  intro ty hmem
  rw [h ty hmem]
  exact .i32

theorem flatTypes_numbers {types : List (Ty M)} (depth : Nat) {ty : ValType}
    {flat : List CoreValType} (hok : flatTypesForValtype types depth ty = .ok flat) :
    Numbers flat := by
  induction depth generalizing ty flat with
  | zero =>
      cases ty with
      | primitive prim =>
          obtain rfl := Except.ok.inj hok
          exact numbers_primitive prim
      | type id => cases hok
  | succ depth ih =>
      cases ty with
      | primitive prim =>
          obtain rfl := Except.ok.inj hok
          exact numbers_primitive prim
      | type id =>
          unfold flatTypesForValtype at hok
          cases hty : types[id]? with
          | none =>
              rw [hty] at hok
              cases hok
          | some ty =>
              rw [hty] at hok
              cases ty with
              | defVal ty =>
                  cases ty with
                  | primitive prim =>
                      obtain rfl := Except.ok.inj hok
                      exact numbers_primitive prim
                  | record fields =>
                      exact @fields_numbers (flatTypesForValtype types depth) (fun _ _ h => ih h)
                        fields [] flat numbers_nil hok
                  | variant cases =>
                      obtain ⟨payload, hpayload, hok⟩ := Lib.bind_eq_ok.mp hok
                      obtain rfl := Lib.pure_eq_ok.mp hok
                      obtain ⟨hnumbers, -, -⟩ :=
                        payload_widens (fun _ _ h => ih h) numbers_nil hpayload
                      intro ty hmem
                      rcases List.mem_cons.mp hmem with rfl | hmem
                      · exact .i32
                      · exact hnumbers ty hmem
                  | flags | list | own | borrow =>
                      obtain rfl := Except.ok.inj hok
                      exact numbers_i32 (by simp)
              | resource | generic =>
                  obtain rfl := Except.ok.inj hok
                  exact numbers_i32 (by simp)
              | func | component | «instance» => cases hok

theorem coerceFlatValue_back {value : WasmValue} {source target : CoreValType}
    (hty : value.ty = source) (h : Widens source target) :
    ∃ coerced, coerceFlatValue value source target = .ok coerced ∧ coerced.ty = target ∧
      coerceFlatValue coerced target source = .ok value := by
  subst hty
  cases value with
  | i32 v =>
      cases h with
      | i32 => exact ⟨_, rfl, rfl, rfl⟩
      | i32I64 => exact ⟨_, rfl, rfl, by simp [coerceFlatValue, WasmValue.ty]⟩
  | i64 v => cases h with
      | i64 => exact ⟨_, rfl, rfl, rfl⟩
  | f32 bits =>
      cases h with
      | f32 => exact ⟨_, rfl, rfl, rfl⟩
      | f32I32 => exact ⟨_, rfl, rfl, rfl⟩
      | f32I64 => exact ⟨_, rfl, rfl, by simp [coerceFlatValue, WasmValue.ty]⟩
  | f64 bits =>
      cases h with
      | f64 => exact ⟨_, rfl, rfl, rfl⟩
      | f64I64 => exact ⟨_, rfl, rfl, rfl⟩
  | funcRef | externRef | v128 => cases h

theorem coercePayload_zeros (types flatTypes : List CoreValType) :
    coercePayload types [] flatTypes = .ok (types.map zeroWasmValue) := by
  induction types with
  | nil => rfl
  | cons ty types ih =>
      unfold coercePayload
      rw [ih]
      rfl

theorem map_zeroWasmValue_ty (types : List CoreValType) :
    (types.map zeroWasmValue).map WasmValue.ty = types := by
  rw [List.map_map]
  exact (List.map_congr_left fun ty _ => zeroWasmValue_ty ty).trans (List.map_id types)

theorem coercePayload_back {flat : List WasmValue} {types payloadTypes : List CoreValType}
    (hflat : flat.map WasmValue.ty = types) (h : WidensTo types payloadTypes) :
    ∃ raw, coercePayload payloadTypes flat types = .ok raw ∧ raw.map WasmValue.ty = payloadTypes ∧
      expectedPayload types raw payloadTypes = .ok flat := by
  induction h generalizing flat with
  | nil payloadTypes =>
      obtain rfl := List.map_eq_nil_iff.mp hflat
      refine ⟨payloadTypes.map zeroWasmValue, coercePayload_zeros payloadTypes [], ?_, rfl⟩
      exact map_zeroWasmValue_ty payloadTypes
  | @cons ty ty' types types' head tail ih =>
      obtain ⟨value, rest, rfl, hvalue, hrest⟩ := List.map_eq_cons_iff.mp hflat
      obtain ⟨first, hfirst, hty, hback⟩ := coerceFlatValue_back hvalue head
      obtain ⟨raw, hraw, htypes, hbacks⟩ := ih hrest
      refine ⟨first :: raw, ?_, by rw [List.map_cons, hty, htypes], ?_⟩
      · unfold coercePayload
        rw [hfirst, Lib.ok_bind, hraw]
        rfl
      · unfold expectedPayload
        rw [hback, Lib.ok_bind, hbacks]
        rfl

namespace CoreValueCursor

/-- The result comes from the next values; those behind them stay. -/
def Takes (x : CoreValueCursor α) (values : List WasmValue) (a : α) : Prop :=
  ∀ rest, x (values ++ rest) = .ok (a, rest)

theorem Takes.pure (a : α) : Takes (pure a) [] a := fun _ => rfl

theorem Takes.bind {x : CoreValueCursor α} {f : α → CoreValueCursor β} {values values' : List WasmValue}
    {a : α} {b : β} (hx : Takes x values a) (hf : Takes (f a) values' b) :
    Takes (x >>= f) (values ++ values') b := by
  intro rest
  rw [List.append_assoc]
  change (x (values ++ (values' ++ rest)) >>= fun r => f r.1 r.2) = _
  rw [hx (values' ++ rest), Lib.ok_bind, hf rest]

theorem Takes.bind_last {x : CoreValueCursor α} {f : α → CoreValueCursor β} {values : List WasmValue}
    {a : α} {b : β} (hx : Takes x values a) (hf : Takes (f a) [] b) : Takes (x >>= f) values b := by
  have h := hx.bind hf
  rwa [List.append_nil] at h

theorem Takes.map {x : CoreValueCursor α} {f : α → β} {values : List WasmValue} {a : α}
    (hx : Takes x values a) : Takes (x >>= fun a => Pure.pure (f a)) values (f a) := by
  exact hx.bind_last (.pure (f a))

theorem Takes.lift_bind {x : Except ComponentError α} {f : α → CoreValueCursor β}
    {values : List WasmValue} {a : α} {b : β} (hx : x = .ok a) (hf : Takes (f a) values b) :
    Takes (liftM x >>= f) values b := by
  rw [hx, Lib.lift_ok_bind]
  exact hf

theorem takes_nextI32 (v : BitVec 32) : Takes nextI32 [.i32 v] v := fun _ => rfl

theorem takes_nextForType {value : WasmValue} (h : Widens value.ty value.ty) :
    Takes (nextForType value.ty) [value] value := by
  cases value with
  | i32 | i64 | f32 | f64 => exact fun _ => rfl
  | funcRef | externRef | v128 => cases h

theorem takes_nextWords (words : List (BitVec 32)) :
    Takes (nextWords words.length) (words.map .i32) words := by
  induction words with
  | nil => exact .pure []
  | cons word words ih => exact (takes_nextI32 word).bind ih.map

theorem takes_raw {raw : List WasmValue} (h : Numbers (raw.map WasmValue.ty)) :
    Takes ((raw.map WasmValue.ty).mapM nextForType) raw raw := by
  induction raw with
  | nil => exact .pure []
  | cons value raw ih =>
      rw [List.map_cons] at h ⊢
      rw [List.mapM_cons]
      refine (takes_nextForType (h _ (List.mem_cons_self ..))).bind ?_
      exact (ih fun ty hmem => h ty (List.mem_cons_of_mem _ hmem)).map

end CoreValueCursor

open CoreValueCursor (Takes)

section flat

variable {alloc : Allocator σ} {B : List Lib.Region} {w : World σ} {o : RuntimeCanonicalOptions σ}

/-- The core values have the types of a primitive and are lifted to the value. -/
structure PrimitiveBack (o : RuntimeCanonicalOptions σ) (prim : PrimValType) (value : ComponentValue)
    (flat : List WasmValue) (m : LinearMemory) : Prop where
  types : flat.map WasmValue.ty = flatTypesForPrimitive prim
  takes : Takes (liftPrimitive o m prim) flat value

theorem takes_i32 {f : BitVec 32 → ComponentValue} {v : BitVec 32} {value : ComponentValue}
    (h : f v = value) :
    Takes (CoreValueCursor.nextI32 >>= fun v => pure (f v)) [.i32 v] value := by
  rw [← h]
  exact (CoreValueCursor.takes_nextI32 v).map

theorem liftString_takes (ho : Reaches alloc o) {m : LinearMemory} {ptr len : BitVec 32} {s : String}
    (hread : readStringFromMemory m ptr.toNat len o.stringEncoding = .ok s) :
    Takes (liftString o m) [.i32 ptr, .i32 len] (.string s) := by
  refine Takes.lift_bind ho.requireMemory_eq ?_
  refine (CoreValueCursor.takes_nextI32 ptr).bind ?_
  refine (CoreValueCursor.takes_nextI32 len).bind_last ?_
  exact Takes.lift_bind hread (.pure _)

theorem primitive_flat_stores (ho : Reaches alloc o) {prim : PrimValType} {value : ComponentValue}
    (htyped : PrimTyped (o.stringEncoding.getD .utf8) prim value) (hholds : alloc.Holds w.guest B) :
    Stores alloc B (fun _ => False) (lowerPrimitive o value prim) w (PrimitiveBack o prim value) := by
  cases htyped with
  | bool b =>
      refine Stores.pure hholds fun m => ⟨rfl, ?_⟩
      cases b <;> exact fun _ => rfl
  | s8 v =>
      refine Stores.pure hholds fun m => ⟨rfl, takes_i32 ?_⟩
      rw [setWidth_signExtend v (by decide), setWidth_signExtend v (by decide)]
  | u8 v =>
      refine Stores.pure hholds fun m => ⟨rfl, takes_i32 ?_⟩
      rw [setWidth_setWidth v (by decide), setWidth_setWidth v (by decide)]
  | s16 v =>
      refine Stores.pure hholds fun m => ⟨rfl, takes_i32 ?_⟩
      rw [setWidth_signExtend v (by decide), setWidth_signExtend v (by decide)]
  | u16 v =>
      refine Stores.pure hholds fun m => ⟨rfl, takes_i32 ?_⟩
      rw [setWidth_setWidth v (by decide), setWidth_setWidth v (by decide)]
  | s32 v | u32 v | s64 v | u64 v | f32 bits | f64 bits =>
      exact Stores.pure hholds fun m => ⟨rfl, fun _ => rfl⟩
  | char c =>
      refine Stores.pure hholds fun m => ⟨rfl, ?_⟩
      refine (CoreValueCursor.takes_nextI32 _).bind_last ?_
      exact Takes.lift_bind (charFromU32_toNat c) (.pure _)
  | string s hfits =>
      refine Stores.mono (lowerString_stores ho hfits hholds) (fun _ h => h) ?_
      rintro flat m ⟨ptr, len, rfl, hread⟩
      exact ⟨rfl, liftString_takes ho hread⟩

section level

variable {p : Program M} {typed : ValType → ComponentValue → Prop} {low : Lowering σ}
  {lift : LinearMemory → Lifting}

/-- The core values have the given types and are lifted to the value. -/
structure FlatBack (lift : LinearMemory → Lifting) (ty : ValType) (value : ComponentValue)
    (types : List CoreValType) (flat : List WasmValue) (m : LinearMemory) : Prop where
  types : flat.map WasmValue.ty = types
  takes : Takes ((lift m).flat ty) flat value

/-- Beside `LevelStores`: what is lowered one level down to core values is lifted again. -/
structure LevelBack (alloc : Allocator σ) (p : Program M) (typed : ValType → ComponentValue → Prop)
    (low : Lowering σ) (lift : LinearMemory → Lifting) : Prop extends
    LevelStores alloc p typed low lift where
  flatTypes : ∀ m, (lift m).flatTypes = low.flatTypes
  numbers : ∀ {ty types}, low.flatTypes ty = .ok types → Numbers types
  flat : ∀ {ty value types w B}, typed ty value → low.flatTypes ty = .ok types →
    alloc.Holds w.guest B →
      Stores alloc B (fun _ => False) (low.flat value ty) w (FlatBack lift ty value types)

theorem Stores.bind_flat {x : Canon σ α} {f : α → Canon σ β} {P : α → LinearMemory → Prop}
    {Q : β → LinearMemory → Prop} (hx : Stores alloc B (fun _ => False) x w P)
    (hf : ∀ a w₁ B₁, alloc.Holds w₁.guest B₁ → (∃ m, P a m) →
      Stores alloc B₁ (fun _ => False) (f a) w₁ fun b m => P a m → Q b m) :
    Stores alloc B (fun _ => False) (x >>= f) w Q :=
  Stores.bind_new (fun _ h => False.elim h) hx fun a w₁ B₁ hholds _ hp => hf a w₁ B₁ hholds hp

theorem lowerFields_stores (h : LevelBack alloc p typed low lift) {fields : List LabelValType}
    {values : List ComponentValue} {acc total : List CoreValType}
    (htyped : List.Forall₂ (fun field value => typed field.ty value) fields values)
    (hok : fields.foldlM (fun types field => do return types ++ (← low.flatTypes field.ty)) acc =
      .ok total) (hholds : alloc.Holds w.guest B) :
    Stores alloc B (fun _ => False) (lowerFields low values fields) w fun flat m =>
      acc ++ flat.map WasmValue.ty = total ∧ Takes (liftFields (lift m) fields) flat values := by
  induction htyped generalizing acc w B with
  | nil =>
      obtain rfl := Except.ok.inj hok
      exact Stores.pure hholds fun m => ⟨List.append_nil acc, .pure []⟩
  | @cons field value fields values hvalue _ ih =>
      rw [List.foldlM_cons] at hok
      obtain ⟨next, hnext, hok⟩ := Lib.bind_eq_ok.mp hok
      obtain ⟨types, htypes, hnext⟩ := Lib.bind_eq_ok.mp hnext
      obtain rfl := Lib.pure_eq_ok.mp hnext
      refine Stores.bind_flat (h.flat hvalue htypes hholds) ?_
      intro lowered w₁ B₁ hholds₁ _
      refine Stores.bind_pure (ih hok hholds₁) ?_
      rintro rest m ⟨hrest, htakes⟩ hback
      refine ⟨?_, hback.takes.bind htakes.map⟩
      rw [List.map_append, hback.types, ← List.append_assoc, hrest]

theorem record_flat (h : LevelBack alloc p typed low lift) {fields : List LabelValType}
    {value : ComponentValue} {types : List CoreValType} (htyped : RecordTyped p typed fields value)
    (hok : flatTypesForDefval low.flatTypes (.record fields) = .ok types)
    (hholds : alloc.Holds w.guest B) :
    Stores alloc B (fun _ => False) (lowerRecordValue low fields value) w fun flat m =>
      flat.map WasmValue.ty = types ∧ Takes (liftRecordValue (lift m) fields) flat value := by
  obtain ⟨values, rfl, hvalues⟩ := htyped.values
  refine Stores.ok_bind (recordValues_recordValue htyped.labels hvalues.length_eq) ?_
  refine Stores.mono (lowerFields_stores h hvalues hok hholds) (fun _ h => h) ?_
  rintro flat m ⟨htypes, htakes⟩
  exact ⟨htypes, htakes.map⟩

section variants

variable {cases : List Case} {case : Case} {payload : Option ComponentValue}

theorem lowerCasePayload_stores (h : LevelBack alloc p typed low lift)
    {payloadTypes : List CoreValType} (htyped : PayloadTyped typed case.ty payload)
    (hcase : ∀ ty, case.ty = some ty →
      ∃ types, low.flatTypes ty = .ok types ∧ WidensTo types payloadTypes)
    (hholds : alloc.Holds w.guest B) :
    Stores alloc B (fun _ => False) (lowerCasePayload low (chosenPayload case payload)) w fun r m =>
      ∃ raw, coercePayload payloadTypes r.1 r.2 = .ok raw ∧ raw.map WasmValue.ty = payloadTypes ∧
        liftCasePayload (lift m) payloadTypes raw case.ty = .ok payload := by
  unfold chosenPayload
  cases hty : case.ty with
  | none =>
      cases payload with
      | some value =>
          rw [hty] at htyped
          cases htyped
      | none =>
          refine Stores.pure hholds fun m => ⟨_, coercePayload_zeros payloadTypes [], ?_, rfl⟩
          exact map_zeroWasmValue_ty payloadTypes
  | some ty =>
      cases payload with
      | none =>
          rw [hty] at htyped
          cases htyped
      | some value =>
          rw [hty] at htyped
          obtain ⟨types, htypes, hwidens⟩ := hcase ty hty
          refine Stores.bind_flat (h.flat htyped htypes hholds) ?_
          intro flat w₁ B₁ hholds₁ _
          refine Stores.ok_bind htypes (Stores.pure hholds₁ fun m hback => ?_)
          obtain ⟨raw, hraw, hrawTypes, hexpected⟩ := coercePayload_back hback.types hwidens
          refine ⟨raw, hraw, hrawTypes, ?_⟩
          have hlift : (lift m).flat ty flat = .ok (value, []) := by
            simpa using hback.takes []
          unfold liftCasePayload
          simp only [h.flatTypes, htypes, Lib.ok_bind, hexpected, hlift]
          rfl

theorem variant_flat (h : LevelBack alloc p typed low lift) {value : ComponentValue}
    {types : List CoreValType} (htyped : VariantTyped p typed cases value)
    (hok : flatTypesForDefval low.flatTypes (.variant cases) = .ok types)
    (hholds : alloc.Holds w.guest B) :
    Stores alloc B (fun _ => False) (lowerVariantValue low cases value) w fun flat m =>
      flat.map WasmValue.ty = types ∧ Takes (liftVariantValue (lift m) cases) flat value := by
  obtain ⟨case, hmem, payload, rfl, hpayload⟩ := htyped.chosen
  obtain ⟨index, hindex⟩ := List.getElem?_of_mem hmem
  obtain ⟨given, hparts, hgiven⟩ := variantParts_caseValue hmem hpayload
  obtain ⟨payloadTypes, hpayloadTypes, hok⟩ := Lib.bind_eq_ok.mp hok
  obtain rfl := Lib.pure_eq_ok.mp hok
  obtain ⟨hnumbers, -, hcases⟩ := payload_widens (fun _ _ h' => h.numbers h') numbers_nil hpayloadTypes
  have hlt := (List.getElem?_eq_some_iff.mp hindex).1
  have hcount := htyped.count
  have hcaseAt : caseAt cases ((BitVec.ofNat 32 index).signExtend 64).toNat = .ok case := by
    rw [signExtend_index (by omega), caseAt, hindex]
  refine Stores.ok_bind hparts ?_
  refine Stores.ok_bind (findCase_label htyped.labels hindex) ?_
  refine Stores.ok_bind hpayloadTypes ?_
  simp only [hgiven, Lib.lift_ok_bind]
  refine Stores.bind_flat
    (lowerCasePayload_stores h hpayload (hcases case hmem) hholds) ?_
  rintro r w₁ B₁ hholds₁ ⟨-, raw, hraw, -, -⟩
  refine Stores.ok_bind hraw (Stores.pure hholds₁ fun m => ?_)
  rintro ⟨raw', hraw', htypes, hlift⟩
  obtain rfl := Except.ok.inj (hraw.symm.trans hraw')
  subst htypes
  refine ⟨rfl, ?_⟩
  refine (CoreValueCursor.takes_nextI32 _).bind ?_
  refine Takes.lift_bind hcaseAt ?_
  refine Takes.lift_bind ((congrArg (variantPayloadFlatTypes · cases) (h.flatTypes m)).trans
    hpayloadTypes) ?_
  refine (CoreValueCursor.takes_raw hnumbers).bind_last ?_
  exact Takes.lift_bind hlift (.pure (caseValue cases case payload))

end variants

theorem flags_flat {labels : List Label} {value : ComponentValue} (htyped : FlagsTyped labels value)
    (hholds : alloc.Holds w.guest B) :
    Stores alloc B (fun _ => False) (liftM (lowerFlagsValue labels value)) w fun flat _ =>
      flat.map WasmValue.ty = List.replicate (flagsFlatLen labels) .i32 ∧
        Takes (liftFlagsValue labels) flat value := by
  obtain ⟨chosen, rfl⟩ := htyped.chosen
  obtain ⟨words, hwords, hlen, hbits⟩ := @flagWords_filter labels chosen htyped.nodup
  have hlower : lowerFlagsValue labels (.flags (labels.filter chosen)) = .ok (words.map .i32) := by
    unfold lowerFlagsValue
    rw [hwords]
    rfl
  rw [hlower]
  refine Stores.pure hholds fun m => ⟨?_, ?_⟩
  · rw [List.map_map, ← hlen]
    exact List.map_const'
  · unfold liftFlagsValue
    rw [← flagsFlatLen_eq, ← hlen, ← selectedFlags_eq hbits]
    exact (CoreValueCursor.takes_nextWords words).map

theorem list_flat (h : LevelBack alloc p typed low lift) (ho : Reaches alloc o) {elem : ValType}
    {len : Option Nat} (hknown : p.Known elem) {value : ComponentValue}
    (htyped : ListTyped p typed elem len value) (hholds : alloc.Holds w.guest B) :
    Stores alloc B (fun _ => False) (lowerListValue p o low elem len value) w fun flat m =>
      flat.map WasmValue.ty = [.i32, .i32] ∧ Takes (liftListValue p o (lift m) elem len) flat value := by
  refine Stores.mono (lowerListValue_stores h.toLevelStores ho hknown htyped hholds) (fun _ h => h) ?_
  rintro flat m ⟨ptr, given, rfl, hcheck, hread⟩
  refine ⟨rfl, ?_⟩
  obtain ⟨values, hvalues, hvalue⟩ := Lib.bind_eq_ok.mp hread
  obtain rfl := Lib.pure_eq_ok.mp hvalue
  refine Takes.lift_bind ho.requireMemory_eq ?_
  refine (CoreValueCursor.takes_nextI32 ptr).bind ?_
  refine (CoreValueCursor.takes_nextI32 given).bind_last ?_
  exact Takes.lift_bind hcheck (Takes.lift_bind hvalues (.pure _))

theorem handle_flat {handle : BitVec 32} {value : ComponentValue}
    {back : BitVec 32 → ComponentValue} (hvalue : expectHandle value = .ok handle)
    (hback : back handle = value) (hholds : alloc.Holds w.guest B) :
    Stores alloc B (fun _ => False) (do return [.i32 (← expectHandle value)]) w fun flat _ =>
      flat.map WasmValue.ty = [.i32] ∧
        Takes (do return back (← CoreValueCursor.nextI32)) flat value :=
  Stores.ok_bind hvalue (Stores.pure hholds fun _ => ⟨rfl, takes_i32 hback⟩)

theorem lowerDefinedValue_stores (h : LevelBack alloc p typed low lift) (ho : Reaches alloc o)
    {id : TypeId} {value : ComponentValue} {ty : Ty M} {types : List CoreValType}
    (hty : p.arena.types[id]? = some ty)
    (htyped : TypeTyped p typed (o.stringEncoding.getD .utf8) value ty)
    (hok : flatTypesForType low.flatTypes ty = .ok types) (hholds : alloc.Holds w.guest B) :
    Stores alloc B (fun _ => False) (lowerDefinedValue p o low value id) w fun flat m =>
      flat.map WasmValue.ty = types ∧ Takes (liftDefinedValue p o m (lift m) id) flat value := by
  have hget : p.arena.get id = some ty := hty
  unfold lowerDefinedValue liftDefinedValue
  rw [hget]
  cases ty with
  | defVal ty =>
      cases ty with
      | primitive prim =>
          obtain rfl := Except.ok.inj hok
          exact Stores.mono (primitive_flat_stores ho htyped hholds) (fun _ h => h) fun _ _ hback =>
            ⟨hback.types, hback.takes⟩
      | record fields => exact record_flat h htyped hok hholds
      | variant cases => exact variant_flat h htyped hok hholds
      | flags labels =>
          obtain rfl := Except.ok.inj hok
          exact flags_flat htyped hholds
      | list elem len =>
          obtain rfl := Except.ok.inj hok
          exact list_flat h ho (Program.known_of_refs hty (List.Subset.refl _)) htyped hholds
      | own resource =>
          obtain rfl := Except.ok.inj hok
          obtain ⟨hresource, handle, rfl⟩ := htyped
          refine Stores.ok_bind hresource ?_
          refine Stores.mono (handle_flat rfl rfl hholds) (fun _ h => h) fun _ _ hback => ?_
          exact ⟨hback.1, Takes.lift_bind hresource hback.2⟩
      | borrow resource =>
          obtain rfl := Except.ok.inj hok
          obtain ⟨hresource, handle, rfl⟩ := htyped
          refine Stores.ok_bind hresource ?_
          refine Stores.mono (handle_flat rfl rfl hholds) (fun _ h => h) fun _ _ hback => ?_
          exact ⟨hback.1, Takes.lift_bind hresource hback.2⟩
  | resource resource =>
      obtain rfl := Except.ok.inj hok
      obtain ⟨handle, rfl⟩ := htyped
      exact handle_flat rfl rfl hholds
  | _ => exact False.elim htyped

theorem level_lifts (ho : Reaches alloc o) (depth : Nat) :
    LevelBack alloc p (Typed p (o.stringEncoding.getD .utf8) depth) (lowering p o depth)
      fun m => lifting p o m depth := by
  induction depth with
  | zero =>
      refine ⟨level_stores ho 0, fun m => rfl, flatTypes_numbers 0, ?_⟩
      intro ty value types w B htyped hok hholds
      cases ty with
      | primitive prim =>
          obtain rfl := Except.ok.inj hok
          exact Stores.mono (primitive_flat_stores ho htyped hholds) (fun _ h => h) fun _ _ hback =>
            ⟨hback.types, hback.takes⟩
      | type id => exact False.elim htyped
  | succ depth ih =>
      refine ⟨level_stores ho (depth + 1), fun m => rfl, flatTypes_numbers (depth + 1), ?_⟩
      intro ty value types w B htyped hok hholds
      cases ty with
      | primitive prim =>
          obtain rfl := Except.ok.inj hok
          exact Stores.mono (primitive_flat_stores ho htyped hholds) (fun _ h => h) fun _ _ hback =>
            ⟨hback.types, hback.takes⟩
      | type id =>
          obtain ⟨ty, hty, htyped⟩ := htyped
          have hok' := (flatTypes_type hty).symm.trans hok
          rw [← lowering_flatTypes p o depth] at hok'
          exact Stores.mono (lowerDefinedValue_stores ih ho hty htyped hok' hholds) (fun _ h => h)
            fun _ _ hback => ⟨hback.1, hback.2⟩

end level

end flat

end Telomere.Component
