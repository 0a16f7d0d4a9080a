import Telomere.Component.FlatAgreement
import Telomere.Component.Shape

/-!
# What lowering accepts

A value that is lowered has the shape of its type and gives the flat types of its signature exactly
when it tallies: lowering checks cases, payloads, flags and lengths of lists, but it walks the
fields of a record as far as there are values, and cuts small integers to their width.
-/

namespace Telomere.Component

variable {M σ : Type}

section primitives

variable {v : ComponentValue}

theorem expectBool_eq_ok {b : Bool} : expectBool v = .ok b ↔ v = .bool b := by
  cases v <;> simp [expectBool, ComponentValue.asBool]

theorem expectU32_eq_ok {n : BitVec 32} : expectU32 v = .ok n ↔ v.asU32 = some n := by
  unfold expectU32
  split <;> simp_all

theorem expectI32_eq_ok {n : BitVec 32} : expectI32 v = .ok n ↔ v.asI32 = some n := by
  unfold expectI32
  split <;> simp_all

theorem expectI64_eq_ok {n : BitVec 64} : expectI64 v = .ok n ↔ v = .s64 n ∨ v = .i64 n := by
  cases v <;> simp [expectI64]

theorem expectU64_eq_ok {n : BitVec 64} : expectU64 v = .ok n ↔ v = .u64 n := by
  cases v <;> simp [expectU64]

theorem expectF32_eq_ok {bits : BitVec 32} : expectF32 v = .ok bits ↔ v = .f32 bits := by
  cases v <;> simp [expectF32]

theorem expectF64_eq_ok {bits : BitVec 64} : expectF64 v = .ok bits ↔ v = .f64 bits := by
  cases v <;> simp [expectF64]

theorem expectChar_eq_ok {c : Char} : expectChar v = .ok c ↔ v = .char c := by
  cases v <;> simp [expectChar]

theorem expectString_eq_ok {s : String} : expectString v = .ok s ↔ v = .string s := by
  cases v <;> simp [expectString, ComponentValue.asStr]

theorem expectHandle_eq_ok {n : BitVec 32} :
    expectHandle v = .ok n ↔ v = .own n ∨ v = .borrow n ∨ v = .u32 n := by
  cases v <;> simp [expectHandle]

end primitives

section runs

variable {w w' : World σ}

section strings

variable {realloc : List WasmValue → Lib.Run (Guest σ) ComponentError (List WasmValue)}
  {s : String} {flat : List WasmValue}

theorem lowerCompactUtf16String_ty
    (hok : lowerCompactUtf16String realloc s w = .ok (flat, w')) :
    flat.map WasmValue.ty = [.i32, .i32] := by
  unfold lowerCompactUtf16String at hok
  obtain ⟨ptr, w₁, -, hok⟩ := Lib.run_bind_eq_ok.mp hok
  obtain ⟨dstLen, w₂, -, hok⟩ := Lib.run_bind_eq_ok.mp hok
  cases dstLen with
  | some dstLen =>
      obtain ⟨ptr', w₃, -, hok⟩ := Lib.run_bind_eq_ok.mp hok
      obtain ⟨rfl, -⟩ := Lib.run_pure_eq_ok.mp hok
      rfl
  | none =>
      obtain ⟨ptr', w₃, -, hok⟩ := Lib.run_bind_eq_ok.mp hok
      obtain ⟨_, w₄, -, hok⟩ := Lib.run_bind_eq_ok.mp hok
      obtain ⟨ptr'', w₅, -, hok⟩ := Lib.run_bind_eq_ok.mp hok
      obtain ⟨rfl, -⟩ := Lib.run_pure_eq_ok.mp hok
      rfl

theorem lowerEncoded_ty {bytes : List Byte} {align length : Nat} {allocation : String}
    (hok : lowerEncoded realloc bytes align length allocation w = .ok (flat, w')) :
    flat.map WasmValue.ty = [.i32, .i32] := by
  unfold lowerEncoded at hok
  obtain ⟨ptr, w₁, -, hok⟩ := Lib.run_bind_eq_ok.mp hok
  obtain ⟨_, w₂, -, hok⟩ := Lib.run_bind_eq_ok.mp hok
  obtain ⟨rfl, -⟩ := Lib.run_pure_eq_ok.mp hok
  rfl

theorem lowerString_spec {o : RuntimeCanonicalOptions σ} {v : ComponentValue}
    (hok : lowerString o v w = .ok (flat, w')) :
    (∃ s, v = .string s) ∧ flat.map WasmValue.ty = [.i32, .i32] := by
  unfold lowerString at hok
  obtain ⟨_, w₁, -, hok⟩ := Lib.run_bind_eq_ok.mp hok
  obtain ⟨realloc, w₂, -, hok⟩ := Lib.run_bind_eq_ok.mp hok
  obtain ⟨s, w₃, hs, hok⟩ := Lib.run_bind_eq_ok.mp hok
  refine ⟨⟨s, expectString_eq_ok.mp (Lib.run_lift_eq_ok.mp hs).1⟩, ?_⟩
  generalize o.stringEncoding.getD .utf8 = encoding at hok
  cases encoding with
  | utf8 => exact lowerEncoded_ty hok
  | utf16 => exact lowerEncoded_ty hok
  | compactUtf16 => exact lowerCompactUtf16String_ty hok

end strings

theorem lowered_one {α : Type} {x : Except ComponentError α} {f : α → WasmValue} {ty : CoreValType}
    {flat : List WasmValue}
    (hok : (do return [f (← x)] : Canon σ (List WasmValue)) w = .ok (flat, w'))
    (hty : ∀ a, (f a).ty = ty) :
    (∃ a, x = .ok a) ∧ flat.map WasmValue.ty = [ty] := by
  obtain ⟨a, w₁, hx, hok⟩ := Lib.run_bind_eq_ok.mp hok
  obtain ⟨rfl, -⟩ := Lib.run_pure_eq_ok.mp hok
  exact ⟨⟨a, (Lib.run_lift_eq_ok.mp hx).1⟩, by simp [hty]⟩

theorem lowerPrimitive_spec {o : RuntimeCanonicalOptions σ} {v : ComponentValue}
    {prim : PrimValType} {flat : List WasmValue}
    (hok : lowerPrimitive o v prim w = .ok (flat, w')) :
    PrimKind prim v ∧ flat.map WasmValue.ty = flatTypesForPrimitive prim := by
  cases prim <;> dsimp only [lowerPrimitive] at hok
  case bool =>
    obtain ⟨⟨b, hb⟩, hty⟩ := lowered_one hok fun _ => rfl
    exact ⟨⟨b, expectBool_eq_ok.mp hb⟩, hty⟩
  case s8 | s16 | s32 =>
    obtain ⟨⟨n, hn⟩, hty⟩ := lowered_one hok fun _ => rfl
    exact ⟨⟨n, expectI32_eq_ok.mp hn⟩, hty⟩
  case u8 | u16 | u32 =>
    obtain ⟨⟨n, hn⟩, hty⟩ := lowered_one hok fun _ => rfl
    exact ⟨⟨n, expectU32_eq_ok.mp hn⟩, hty⟩
  case s64 =>
    obtain ⟨⟨n, hn⟩, hty⟩ := lowered_one hok fun _ => rfl
    exact ⟨⟨n, expectI64_eq_ok.mp hn⟩, hty⟩
  case u64 =>
    obtain ⟨⟨n, hn⟩, hty⟩ := lowered_one hok fun _ => rfl
    exact ⟨⟨n, expectU64_eq_ok.mp hn⟩, hty⟩
  case f32 =>
    obtain ⟨⟨n, hn⟩, hty⟩ := lowered_one hok fun _ => rfl
    exact ⟨⟨n, expectF32_eq_ok.mp hn⟩, hty⟩
  case f64 =>
    obtain ⟨⟨n, hn⟩, hty⟩ := lowered_one hok fun _ => rfl
    exact ⟨⟨n, expectF64_eq_ok.mp hn⟩, hty⟩
  case char =>
    obtain ⟨⟨n, hn⟩, hty⟩ := lowered_one hok fun _ => rfl
    exact ⟨⟨n, expectChar_eq_ok.mp hn⟩, hty⟩
  case string => exact lowerString_spec hok
  case errorContext => cases hok

end runs

def Grows (w w' : World σ) : Prop := w.writes ⊆ w'.writes

section grows

theorem Grows.refl (w : World σ) : Grows w w := List.Subset.refl _

theorem Grows.trans (w w₁ w₂ : World σ) (h : Grows w w₁) (h' : Grows w₁ w₂) : Grows w w₂ :=
  List.Subset.trans h h'

theorem grows_bind {α β : Type} {x : Canon σ α} {f : α → Canon σ β} (hx : Lib.Keeps Grows x)
    (hf : ∀ a, Lib.Keeps Grows (f a)) : Lib.Keeps Grows (x >>= f) :=
  Lib.Keeps.bind Grows.trans hx hf

theorem grows_pure {α : Type} (a : α) : Lib.Keeps Grows (pure a : Canon σ α) :=
  Lib.Keeps.pure Grows.refl a

theorem grows_lift {α : Type} (x : Except ComponentError α) :
    Lib.Keeps Grows (liftM x : Canon σ α) :=
  Lib.Keeps.lift Grows.refl x

theorem writeMemory_eq_ok {ptr : Nat} {bytes : List Byte} {w w' : World σ} :
    writeMemory ptr bytes w = .ok ((), w') ↔ w.guest.memory.InBounds ptr bytes.length ∧
      w' = { guest := { w.guest with memory := w.guest.memory.write ptr bytes },
             writes := (ptr, bytes.length) :: w.writes } := by
  unfold writeMemory
  split
  · next hin => simp [hin, eq_comm]
  · next hin => simp [hin]

theorem writeMemory_mem {ptr : Nat} {bytes : List Byte} {w w' : World σ}
    (hok : writeMemory ptr bytes w = .ok ((), w')) : (ptr, bytes.length) ∈ w'.writes := by
  rw [(writeMemory_eq_ok.mp hok).2]
  exact List.mem_cons_self ..

theorem grows_writeMemory {ptr : Nat} {bytes : List Byte} :
    Lib.Keeps Grows (writeMemory ptr bytes : Canon σ Unit) := by
  intro w _ w' hok
  rw [(writeMemory_eq_ok.mp hok).2]
  exact List.subset_cons_self _ _

variable {realloc : List WasmValue → Lib.Run (Guest σ) ComponentError (List WasmValue)}

theorem grows_callRealloc {oldPtr oldLen align newLen : Nat} :
    Lib.Keeps Grows (callRealloc realloc oldPtr oldLen align newLen) := by
  intro w ptr w' hok
  obtain ⟨⟨results, guest⟩, -, hok⟩ := Lib.bind_eq_ok.mp hok
  split at hok
  · obtain ⟨-, rfl⟩ := Prod.mk.inj (Lib.pure_eq_ok.mp hok)
    exact List.Subset.refl _
  · cases hok

theorem grows_allocate {oldPtr oldLen align newLen : Nat} {allocation : String} :
    Lib.Keeps Grows (allocate realloc oldPtr oldLen align newLen allocation) :=
  grows_bind grows_callRealloc fun _ => grows_bind (grows_lift _) fun _ => grows_pure _

theorem grows_writeLatin1 {ptr dstLen : Nat} {chars : List Char} :
    Lib.Keeps Grows (writeLatin1 ptr dstLen chars : Canon σ (Option Nat)) := by
  induction chars generalizing dstLen with
  | nil => exact grows_pure _
  | cons character rest ih =>
      unfold writeLatin1
      split
      · exact grows_pure _
      · exact grows_bind grows_writeMemory fun _ => ih

theorem grows_shrink {ptr oldLen newLen : Nat} :
    Lib.Keeps Grows (shrink realloc ptr oldLen newLen) := by
  unfold shrink
  split
  · exact grows_allocate
  · exact grows_pure _

theorem grows_lowerCompactUtf16String {s : String} :
    Lib.Keeps Grows (lowerCompactUtf16String realloc s) := by
  refine grows_bind grows_allocate fun ptr => grows_bind grows_writeLatin1 ?_
  rintro (_ | dstLen)
  · refine grows_bind grows_allocate fun _ => grows_bind grows_writeMemory fun _ => ?_
    exact grows_bind grows_shrink fun _ => grows_pure _
  · exact grows_bind grows_shrink fun _ => grows_pure _

theorem grows_lowerString {o : RuntimeCanonicalOptions σ} {v : ComponentValue} :
    Lib.Keeps Grows (lowerString o v) := by
  refine grows_bind (grows_lift _) fun _ => grows_bind (grows_lift _) fun realloc =>
    grows_bind (grows_lift _) fun s => ?_
  have hencoded : ∀ bytes align length allocation,
      Lib.Keeps Grows (lowerEncoded realloc bytes align length allocation) :=
    fun _ _ _ _ => grows_bind grows_allocate fun _ =>
      grows_bind grows_writeMemory fun _ => grows_pure _
  cases o.stringEncoding.getD .utf8 with
  | utf8 => exact hencoded _ _ _ _
  | utf16 => exact hencoded _ _ _ _
  | compactUtf16 => exact grows_lowerCompactUtf16String

theorem grows_lowerPrimitive {o : RuntimeCanonicalOptions σ} {v : ComponentValue}
    {prim : PrimValType} : Lib.Keeps Grows (lowerPrimitive o v prim) := by
  cases prim with
  | string => exact grows_lowerString
  | errorContext => exact Lib.Keeps.throw _
  | _ => exact grows_bind (grows_lift _) fun _ => grows_pure _

theorem grows_writeFlatValues {cursor : Nat} {values : List WasmValue} :
    Lib.Keeps Grows (writeFlatValues cursor values : Canon σ Unit) := by
  induction values generalizing cursor with
  | nil => exact grows_pure _
  | cons value values ih => exact grows_bind grows_writeMemory fun _ => ih

theorem grows_writePrimitiveToMemory {o : RuntimeCanonicalOptions σ} {v : ComponentValue}
    {prim : PrimValType} {ptr : Nat} : Lib.Keeps Grows (writePrimitiveToMemory o v prim ptr) := by
  cases prim with
  | string =>
      exact grows_bind (grows_lift _) fun _ => grows_bind grows_lowerString fun _ =>
        grows_writeFlatValues
  | errorContext => exact Lib.Keeps.throw _
  | _ =>
      exact grows_bind (grows_lift _) fun _ => grows_bind (grows_lift _) fun _ =>
        grows_writeMemory

end grows

def PrimStored (W : List (Nat × Nat)) (ptr : Nat) : PrimValType → Prop
  | .string => (ptr, 4) ∈ W ∧ (u32Add ptr 4, 4) ∈ W
  | .errorContext => False
  | prim => (ptr, (memoryAbiForPrimitive prim).size) ∈ W

section stored

variable (p : Program M) (W : List (Nat × Nat)) (S : ComponentValue → ValType → Nat → Prop)

/-- Every field has a value, stored where the layout puts it. -/
def FieldsStored (ptr : Nat) : Nat → List ComponentValue → List LabelValType → Prop
  | _, [], [] => True
  | cursor, value :: values, field :: fields =>
      ∃ abi, p.memoryAbiForValtype field.ty = .ok abi ∧
        S value field.ty (u32Add ptr (alignTo cursor (max abi.align 1))) ∧
        FieldsStored ptr (saturatingAdd (alignTo cursor (max abi.align 1)) abi.size) values fields
  | _, _, _ => False

/-- The discriminant, the whole payload area, and in it the payload. -/
structure VariantStored (cases : List Case) (v : ComponentValue) (ptr size offset payloadSize : Nat)
    (name : String) (payload : Option ComponentValue) (case : Case) : Prop where
  discriminantSize : variantDiscriminantSize cases.length = .ok size
  discriminant : (ptr, size) ∈ W
  area : p.variantPayloadOffsetAndSize cases = .ok (offset, payloadSize)
  cleared : payloadSize ≠ 0 → (u32Add ptr offset, payloadSize) ∈ W
  picks : Picks cases v name payload
  named : caseNamed cases name = some case
  stored : ∀ ty value, case.ty = some ty → payload = some value → S value ty (u32Add ptr offset)

def FlagsStored (labels : List Label) (ptr : Nat) : Prop :=
  match (flagsMemoryAbi labels.length).size with
  | 0 => True
  | 1 => (ptr, 1) ∈ W
  | 2 => (ptr, 2) ∈ W
  | _ => ∀ i < flagsFlatLen labels, (u32Add ptr (i * 4 % 2 ^ 32), 4) ∈ W

def ElementsStored (elem : ValType) (v : ComponentValue) : Prop :=
  ∃ values abi base, v = .list values ∧ p.memoryAbiForValtype elem = .ok abi ∧
    ∀ i value, values[i]? = some value →
      S value elem (u32Add base (alignTo abi.size (max abi.align 1) * (i % 2 ^ 32) % 2 ^ 32))

def DefStored (v : ComponentValue) (ptr : Nat) : DefValType → Prop
  | .primitive prim => PrimStored W ptr prim
  | .record fields => ∃ values, recordValues fields v = .ok values ∧
      FieldsStored p S ptr 0 values fields
  | .variant cases => ∃ size offset payloadSize name payload case,
      VariantStored p W S cases v ptr size offset payloadSize name payload case
  | .flags labels => FlagsStored W labels ptr
  | .list elem _ => ((ptr, 4) ∈ W ∧ (u32Add ptr 4, 4) ∈ W) ∧ ElementsStored p S elem v
  | .own _ | .borrow _ => (ptr, 4) ∈ W

end stored

/-- Every field of the type was written, at its place, by the writes `W`. -/
def Stored (p : Program M) (W : List (Nat × Nat)) : Nat → ComponentValue → ValType → Nat → Prop
  | _, _, .primitive prim, ptr => PrimStored W ptr prim
  | 0, _, .type _, _ => False
  | depth + 1, v, .type id, ptr =>
      match p.arena.get id with
      | some (.defVal ty) => DefStored p W (Stored p W depth) v ptr ty
      | some (.resource _) | some (.generic _) => (ptr, 4) ∈ W
      | _ => False

section mono

variable {p : Program M} {W W' : List (Nat × Nat)} (hW : W ⊆ W')

include hW

theorem PrimStored.mono {ptr : Nat} {prim : PrimValType} (h : PrimStored W ptr prim) :
    PrimStored W' ptr prim := by
  cases prim with
  | string => exact ⟨hW h.1, hW h.2⟩
  | errorContext => exact h
  | _ => exact hW h

omit hW in
theorem FieldsStored.mono {S S' : ComponentValue → ValType → Nat → Prop}
    (hS : ∀ v ty ptr, S v ty ptr → S' v ty ptr) {ptr cursor : Nat} {values : List ComponentValue}
    {fields : List LabelValType} (h : FieldsStored p S ptr cursor values fields) :
    FieldsStored p S' ptr cursor values fields := by
  induction values generalizing cursor fields with
  | nil =>
      cases fields with
      | nil => trivial
      | cons field fields => exact h.elim
  | cons value values ih =>
      cases fields with
      | nil => exact h.elim
      | cons field fields =>
          obtain ⟨abi, habi, hfirst, hrest⟩ := h
          exact ⟨abi, habi, hS _ _ _ hfirst, ih hrest⟩

theorem FlagsStored.mono {labels : List Label} {ptr : Nat} (h : FlagsStored W labels ptr) :
    FlagsStored W' labels ptr := by
  unfold FlagsStored at *
  split
  · trivial
  · next hsize => rw [hsize] at h; exact hW h
  · next hsize => rw [hsize] at h; exact hW h
  · next h0 h1 h2 =>
      split at h
      · next hsize => exact absurd hsize h0
      · next hsize => exact absurd hsize h1
      · next hsize => exact absurd hsize h2
      · exact fun i hi => hW (h i hi)

theorem DefStored.mono {S S' : ComponentValue → ValType → Nat → Prop}
    (hS : ∀ v ty ptr, S v ty ptr → S' v ty ptr) {v : ComponentValue} {ptr : Nat} {ty : DefValType}
    (h : DefStored p W S v ptr ty) : DefStored p W' S' v ptr ty := by
  cases ty with
  | primitive prim => exact PrimStored.mono hW h
  | record fields =>
      obtain ⟨values, hvalues, hfields⟩ := h
      exact ⟨values, hvalues, hfields.mono hS⟩
  | variant cases =>
      obtain ⟨size, offset, payloadSize, name, payload, case, hstored⟩ := h
      exact ⟨size, offset, payloadSize, name, payload, case,
        { hstored with
          discriminant := hW hstored.discriminant
          cleared := fun hne => hW (hstored.cleared hne)
          stored := fun ty value hty hvalue => hS _ _ _ (hstored.stored ty value hty hvalue) }⟩
  | flags labels => exact FlagsStored.mono hW h
  | list elem len =>
      obtain ⟨⟨hptr, hlen⟩, values, abi, base, hv, habi, helements⟩ := h
      exact ⟨⟨hW hptr, hW hlen⟩, values, abi, base, hv, habi,
        fun i value hget => hS _ _ _ (helements i value hget)⟩
  | own | borrow => exact hW h

theorem Stored.mono {depth : Nat} {v : ComponentValue} {ty : ValType} {ptr : Nat}
    (h : Stored p W depth v ty ptr) : Stored p W' depth v ty ptr := by
  induction depth generalizing v ty ptr with
  | zero =>
      cases ty with
      | primitive prim => exact PrimStored.mono hW h
      | type id => exact h.elim
  | succ depth ih =>
      cases ty with
      | primitive prim => exact PrimStored.mono hW h
      | type id =>
          unfold Stored at h ⊢
          split at h
          · exact DefStored.mono hW (fun _ _ _ => ih) h
          · exact hW h
          · exact hW h
          · exact h.elim

end mono

/-- What lowering one level down does: of values that tally it takes those of the right shape. -/
structure LevelSpec (below : Lowering σ) (T S : ComponentValue → ValType → Prop)
    (St : List (Nat × Nat) → ComponentValue → ValType → Nat → Prop) : Prop where
  flat : ∀ {v ty w flat w'}, below.flat v ty w = .ok (flat, w') → T v ty →
    S v ty ∧ below.flatTypes ty = .ok (flat.map WasmValue.ty)
  memory : ∀ {v ty ptr w w'}, below.memory v ty ptr w = .ok ((), w') → T v ty →
    S v ty ∧ St w'.writes v ty ptr
  grows_flat : ∀ {v ty}, Lib.Keeps Grows (below.flat v ty)
  grows_memory : ∀ {v ty ptr}, Lib.Keeps Grows (below.memory v ty ptr)
  mono : ∀ {W W' v ty ptr}, W ⊆ W' → St W v ty ptr → St W' v ty ptr

section records

variable {p : Program M} {below : Lowering σ} {T S : ComponentValue → ValType → Prop}
  {St : List (Nat × Nat) → ComponentValue → ValType → Nat → Prop} {w w' : World σ}

theorem fieldValue_eq_ok {entries : List (String × ComponentValue)} {field : LabelValType}
    {value : ComponentValue} :
    fieldValue entries field = .ok value ↔ entries.lookup field.label = some value := by
  unfold fieldValue
  rcases entries.lookup field.label with _ | found <;> simp

/-- The values a record is lowered from, when there are as many as fields. -/
theorem recordValues_tally {fields : List LabelValType} {v : ComponentValue}
    {values : List ComponentValue} (hok : recordValues fields v = .ok values)
    (htallies : RecordTallies T fields v) :
    List.Forall₂ (fun value field => T value field.ty) values fields ∧
      (List.Forall₂ (fun value field => S value field.ty) values fields → RecordShape S fields v) := by
  have hrecord : ∀ entries, fields.mapM (fieldValue entries) = .ok values →
      RecordTallies T fields (.record entries) →
      List.Forall₂ (fun value field => T value field.ty) values fields ∧
        (List.Forall₂ (fun value field => S value field.ty) values fields →
          RecordShape S fields (.record entries)) := by
    intro entries hmap htallies
    have hfound := Lib.mapM_eq_ok.mp hmap
    constructor
    · rw [List.forall₂_iff_get]
      refine ⟨hfound.length_eq.symm, ?_⟩
      intro i hvalue hfield
      exact htallies.2 _ (List.get_mem ..) _ (fieldValue_eq_ok.mp (hfound.get hfield hvalue))
    · intro hshape
      refine ⟨htallies.1, ?_⟩
      intro field hmem
      obtain ⟨i, hi, rfl⟩ := List.getElem_of_mem hmem
      have hvalue : i < values.length := hfound.length_eq ▸ hi
      exact ⟨values[i], fieldValue_eq_ok.mp (hfound.get hi hvalue), hshape.get hvalue hi⟩
  unfold recordValues at hok
  split at hok
  · next htuple =>
      cases v with
      | tuple values' =>
          obtain rfl := Except.ok.inj hok
          refine ⟨List.forall₂_iff_zip.mpr ⟨htallies.1, fun hmem => htallies.2 _ hmem⟩, ?_⟩
          exact fun hshape => ⟨htuple, hshape⟩
      | record entries => exact hrecord entries hok htallies
      | _ => cases hok
  · cases v with
    | record entries => exact hrecord entries hok htallies
    | _ => cases hok

theorem lowerFields_spec (h : LevelSpec below T S St) {values : List ComponentValue}
    {fields : List LabelValType} {flat : List WasmValue}
    (hok : lowerFields below values fields w = .ok (flat, w'))
    (htallies : List.Forall₂ (fun value field => T value field.ty) values fields) :
    List.Forall₂ (fun value field => S value field.ty) values fields ∧
      ∀ types, fields.foldlM (fun types field => do
        return types ++ (← below.flatTypes field.ty)) types =
          Except.ok (types ++ flat.map WasmValue.ty) := by
  induction htallies generalizing w w' flat with
  | nil =>
      obtain ⟨rfl, -⟩ := Lib.run_pure_eq_ok.mp hok
      refine ⟨.nil, fun types => ?_⟩
      simp [pure, Except.pure]
  | @cons value field values fields hfirst hrest ih =>
      obtain ⟨lowered, w₁, hlower, hok⟩ := Lib.run_bind_eq_ok.mp hok
      obtain ⟨rest, w₂, hlowers, hok⟩ := Lib.run_bind_eq_ok.mp hok
      obtain ⟨rfl, -⟩ := Lib.run_pure_eq_ok.mp hok
      obtain ⟨hshape, htypes⟩ := h.flat hlower hfirst
      obtain ⟨hshapes, hrestTypes⟩ := ih hlowers
      refine ⟨.cons hshape hshapes, fun types => ?_⟩
      rw [List.foldlM_cons, htypes]
      change fields.foldlM _ (types ++ lowered.map WasmValue.ty) = _
      rw [hrestTypes, List.map_append, List.append_assoc]

theorem grows_lowerFields (h : LevelSpec below T S St) {values : List ComponentValue}
    {fields : List LabelValType} : Lib.Keeps Grows (lowerFields below values fields) := by
  induction values generalizing fields with
  | nil => exact grows_pure _
  | cons value values ih =>
      cases fields with
      | nil => exact grows_pure _
      | cons field fields =>
          exact grows_bind h.grows_flat fun _ => grows_bind ih fun _ => grows_pure _

theorem grows_writeFields (h : LevelSpec below T S St) {values : List ComponentValue}
    {fields : List LabelValType} {ptr cursor : Nat} :
    Lib.Keeps Grows (writeFields p below ptr cursor values fields) := by
  induction values generalizing cursor fields with
  | nil => exact grows_pure _
  | cons value values ih =>
      cases fields with
      | nil => exact grows_pure _
      | cons field fields =>
          exact grows_bind (grows_lift _) fun _ => grows_bind h.grows_memory fun _ => ih

theorem writeFields_spec (h : LevelSpec below T S St) {values : List ComponentValue}
    {fields : List LabelValType} {ptr cursor : Nat}
    (hok : writeFields p below ptr cursor values fields w = .ok ((), w'))
    (htallies : List.Forall₂ (fun value field => T value field.ty) values fields) :
    List.Forall₂ (fun value field => S value field.ty) values fields ∧
      FieldsStored p (St w'.writes) ptr cursor values fields := by
  induction htallies generalizing w w' cursor with
  | nil => exact ⟨.nil, trivial⟩
  | @cons value field values fields hfirst hrest ih =>
      obtain ⟨abi, w₁, habi, hok⟩ := Lib.run_bind_eq_ok.mp hok
      obtain ⟨_, w₂, hwrite, hok⟩ := Lib.run_bind_eq_ok.mp hok
      obtain ⟨hshape, hstored⟩ := h.memory hwrite hfirst
      obtain ⟨hshapes, hstoreds⟩ := ih hok
      have hgrows := grows_writeFields h _ _ _ hok
      exact ⟨.cons hshape hshapes, abi, (Lib.run_lift_eq_ok.mp habi).1, h.mono hgrows hstored,
        hstoreds⟩

theorem lowerRecordValue_spec (h : LevelSpec below T S St) {fields : List LabelValType}
    {v : ComponentValue} {flat : List WasmValue}
    (hok : lowerRecordValue below fields v w = .ok (flat, w')) (htallies : RecordTallies T fields v) :
    RecordShape S fields v ∧
      flatTypesForDefval below.flatTypes (.record fields) = .ok (flat.map WasmValue.ty) := by
  obtain ⟨values, w₁, hvalues, hok⟩ := Lib.run_bind_eq_ok.mp hok
  obtain ⟨htally, hshape⟩ := recordValues_tally (S := S) (Lib.run_lift_eq_ok.mp hvalues).1 htallies
  obtain ⟨hshapes, htypes⟩ := lowerFields_spec h hok htally
  exact ⟨hshape hshapes, htypes []⟩

theorem writeRecordValueToMemory_spec (h : LevelSpec below T S St) {fields : List LabelValType}
    {v : ComponentValue} {ptr : Nat}
    (hok : writeRecordValueToMemory p below fields v ptr w = .ok ((), w'))
    (htallies : RecordTallies T fields v) :
    RecordShape S fields v ∧ ∃ values, recordValues fields v = .ok values ∧
      FieldsStored p (St w'.writes) ptr 0 values fields := by
  obtain ⟨values, w₁, hvalues, hok⟩ := Lib.run_bind_eq_ok.mp hok
  have hvalues := (Lib.run_lift_eq_ok.mp hvalues).1
  obtain ⟨htally, hshape⟩ := recordValues_tally (S := S) hvalues htallies
  obtain ⟨hshapes, hstored⟩ := writeFields_spec h hok htally
  exact ⟨hshape hshapes, values, hvalues, hstored⟩

end records

section variants

variable {p : Program M} {below : Lowering σ} {T S : ComponentValue → ValType → Prop}
  {St : List (Nat × Nat) → ComponentValue → ValType → Nat → Prop} {w w' : World σ}

theorem coerceFlatValue_ty {value lowered : WasmValue} {source target : CoreValType}
    (hty : value.ty = source) (hok : coerceFlatValue value source target = .ok lowered) :
    lowered.ty = target := by
  unfold coerceFlatValue at hok
  split at hok
  · next heq => rw [← Except.ok.inj hok, hty, heq]
  · split at hok
    all_goals first
      | obtain rfl := Except.ok.inj hok
        rfl
      | cases hok

theorem zeroWasmValue_ty (ty : CoreValType) : (zeroWasmValue ty).ty = ty := by
  cases ty <;> rfl

theorem coercePayload_ty {tys : List CoreValType} {flat lowered : List WasmValue}
    (hok : coercePayload tys flat (flat.map WasmValue.ty) = .ok lowered) :
    lowered.map WasmValue.ty = tys := by
  induction tys generalizing flat lowered with
  | nil =>
      obtain rfl : [] = lowered := by simpa [coercePayload] using hok
      rfl
  | cons ty tys ih =>
      cases flat with
      | nil =>
          obtain ⟨rest, hrest, hok⟩ := Lib.bind_eq_ok.mp hok
          obtain rfl := Lib.pure_eq_ok.mp hok
          rw [List.map_cons, zeroWasmValue_ty, ih hrest]
      | cons value flat =>
          obtain ⟨first, hfirst, hok⟩ := Lib.bind_eq_ok.mp hok
          obtain ⟨rest, hrest, hok⟩ := Lib.bind_eq_ok.mp hok
          obtain rfl := Lib.pure_eq_ok.mp hok
          rw [List.map_cons, coerceFlatValue_ty rfl hfirst, ih hrest]

theorem picks_of_variantParts {cases : List Case} {v : ComponentValue} {name : String}
    {payload : Option ComponentValue} (hok : variantParts cases v = .ok (name, payload)) :
    Picks cases v name payload := by
  unfold variantParts at hok
  cases v with
  | variant case payload => cases hok; exact Picks.variant _ _
  | enum case => cases hok; exact Picks.enum _
  | option payload =>
      dsimp only at hok
      split at hok
      · next hcases =>
          cases payload with
          | none => cases hok; exact Picks.option_none hcases
          | some payload => cases hok; exact Picks.option_some hcases payload
      · cases hok
  | result ok err =>
      dsimp only at hok
      split at hok
      · next hcases =>
          cases ok <;> cases err <;> cases hok
          · exact Picks.err hcases _
          · exact Picks.ok hcases _
      · cases hok
  | _ => cases hok

theorem caseNamed_of_findCase {cases : List Case} {name : String} {index : Nat} {case : Case}
    (hok : findCase cases name = .ok (index, case)) : caseNamed cases name = some case := by
  unfold findCase at hok
  split at hok
  · next case' index' hfind =>
      cases hok
      unfold caseNamed
      nth_rewrite 1 [← List.zipIdx_map_fst 0 cases]
      rw [List.find?_map]
      change Option.map Prod.fst (List.find? (fun entry => entry.1.label == name) cases.zipIdx) = _
      rw [hfind]
      rfl
  · cases hok

/-- The payload that is lowered, and how its shape gives that of the variant. -/
theorem casePayload_tally {cases : List Case} {v : ComponentValue} {name : String}
    {payload : Option ComponentValue} {case : Case} {content : Option (ValType × ComponentValue)}
    (hok : casePayload cases case payload = .ok content) (hpicks : Picks cases v name payload)
    (hnamed : caseNamed cases name = some case) (htallies : VariantTallies T cases v) :
    (∀ ty value, content = some (ty, value) → T value ty) ∧
      ((∀ ty value, content = some (ty, value) → S value ty) → VariantShape S cases v) ∧
      ∀ ty value, case.ty = some ty → payload = some value → content = some (ty, value) := by
  unfold casePayload at hok
  rcases hty : case.ty with _ | ty <;> rcases payload with _ | value <;> rw [hty] at hok
  · obtain rfl := Except.ok.inj hok
    refine ⟨by simp, fun _ => ⟨name, none, case, hpicks, hnamed, ?_⟩, by simp⟩
    rw [hty]
    trivial
  · dsimp only at hok
    split at hok
    · next hunit =>
        obtain rfl := Except.ok.inj hok
        rw [Bool.and_eq_true] at hunit
        refine ⟨by simp, fun _ => ⟨name, some value, case, hpicks, hnamed, ?_⟩, by simp⟩
        rw [hty]
        refine ⟨hunit.1, ?_⟩
        unfold isEmptyTuple at hunit
        split at hunit
        · rfl
        · exact absurd hunit.2 (by simp)
    · cases hok
  · cases hok
  · obtain rfl := Except.ok.inj hok
    refine ⟨?_, ?_, ?_⟩
    · rintro _ _ ⟨⟩
      exact htallies name value case ty hpicks hnamed hty
    · intro hshape
      refine ⟨name, some value, case, hpicks, hnamed, ?_⟩
      rw [hty]
      exact hshape ty value rfl
    · rintro _ _ ⟨⟩ ⟨⟩
      rfl

theorem lowerVariantValue_spec (h : LevelSpec below T S St) {cases : List Case}
    {v : ComponentValue} {flat : List WasmValue}
    (hok : lowerVariantValue below cases v w = .ok (flat, w'))
    (htallies : VariantTallies T cases v) :
    VariantShape S cases v ∧
      flatTypesForDefval below.flatTypes (.variant cases) = .ok (flat.map WasmValue.ty) := by
  obtain ⟨⟨name, payload⟩, w₁, hparts, hok⟩ := Lib.run_bind_eq_ok.mp hok
  obtain ⟨⟨index, case⟩, w₂, hcase, hok⟩ := Lib.run_bind_eq_ok.mp hok
  obtain ⟨payloadTypes, w₃, htypes, hok⟩ := Lib.run_bind_eq_ok.mp hok
  obtain ⟨content, w₄, hcontent, hok⟩ := Lib.run_bind_eq_ok.mp hok
  obtain ⟨⟨caseFlat, caseFlatTypes⟩, w₅, hpayload, hok⟩ := Lib.run_bind_eq_ok.mp hok
  obtain ⟨coerced, w₆, hcoerced, hok⟩ := Lib.run_bind_eq_ok.mp hok
  obtain ⟨rfl, -⟩ := Lib.run_pure_eq_ok.mp hok
  have hpicks := picks_of_variantParts (Lib.run_lift_eq_ok.mp hparts).1
  have hnamed := caseNamed_of_findCase (Lib.run_lift_eq_ok.mp hcase).1
  obtain ⟨htally, hshape, -⟩ :=
    casePayload_tally (S := S) (Lib.run_lift_eq_ok.mp hcontent).1 hpicks hnamed htallies
  have hcaseTypes : (∀ ty value, content = some (ty, value) → S value ty) ∧
      caseFlatTypes = caseFlat.map WasmValue.ty := by
    rcases content with _ | ⟨ty, value⟩
    · obtain ⟨heq, -⟩ := Lib.run_pure_eq_ok.mp hpayload
      obtain ⟨rfl, rfl⟩ := Prod.mk.inj heq
      exact ⟨by simp, rfl⟩
    · obtain ⟨flat, w₇, hflat, hpayload⟩ := Lib.run_bind_eq_ok.mp hpayload
      obtain ⟨types, w₈, hlift, hpayload⟩ := Lib.run_bind_eq_ok.mp hpayload
      obtain ⟨heq, -⟩ := Lib.run_pure_eq_ok.mp hpayload
      obtain ⟨rfl, rfl⟩ := Prod.mk.inj heq
      obtain ⟨hvalue, htypes⟩ := h.flat hflat (htally ty value rfl)
      rw [(Lib.run_lift_eq_ok.mp hlift).1] at htypes
      refine ⟨?_, Except.ok.inj htypes⟩
      rintro _ _ ⟨⟩
      exact hvalue
  refine ⟨hshape hcaseTypes.1, ?_⟩
  have hcoerced := (Lib.run_lift_eq_ok.mp hcoerced).1
  rw [hcaseTypes.2] at hcoerced
  dsimp only [flatTypesForDefval]
  rw [(Lib.run_lift_eq_ok.mp htypes).1, List.map_cons, coercePayload_ty hcoerced]
  rfl

theorem grows_lowerVariantValue (h : LevelSpec below T S St) {cases : List Case}
    {v : ComponentValue} : Lib.Keeps Grows (lowerVariantValue below cases v) := by
  refine grows_bind (grows_lift _) fun _ => grows_bind (grows_lift _) fun _ =>
    grows_bind (grows_lift _) fun _ => grows_bind (grows_lift _) fun content => grows_bind ?_
      fun _ => grows_bind (grows_lift _) fun _ => grows_pure _
  rcases content with _ | ⟨ty, value⟩
  · exact grows_pure _
  · exact grows_bind h.grows_flat fun _ => grows_bind (grows_lift _) fun _ => grows_pure _

theorem grows_clearPayload {ptr size : Nat} :
    Lib.Keeps Grows (clearPayload ptr size : Canon σ Unit) := by
  unfold clearPayload
  split
  · exact grows_writeMemory
  · exact grows_pure _

theorem grows_writeCasePayload (h : LevelSpec below T S St) {ptr : Nat}
    {content : Option (ValType × ComponentValue)} :
    Lib.Keeps Grows (writeCasePayload below ptr content) := by
  rcases content with _ | ⟨ty, value⟩
  · exact grows_pure _
  · exact h.grows_memory

theorem grows_writeVariantValueToMemory (h : LevelSpec below T S St) {cases : List Case}
    {v : ComponentValue} {ptr : Nat} :
    Lib.Keeps Grows (writeVariantValueToMemory p below cases v ptr) :=
  grows_bind (grows_lift _) fun _ => grows_bind (grows_lift _) fun _ =>
    grows_bind (grows_bind (grows_lift _) fun _ => grows_writeMemory) fun _ =>
      grows_bind (grows_lift _) fun _ => grows_bind grows_clearPayload fun _ =>
        grows_bind (grows_lift _) fun _ => grows_writeCasePayload h

theorem length_toLeBytes {n count : Nat} (v : BitVec n) : (toLeBytes count v).length = count := by
  simp [toLeBytes]

theorem writeVariantValueToMemory_spec (h : LevelSpec below T S St) {cases : List Case}
    {v : ComponentValue} {ptr : Nat}
    (hok : writeVariantValueToMemory p below cases v ptr w = .ok ((), w'))
    (htallies : VariantTallies T cases v) :
    VariantShape S cases v ∧ ∃ size offset payloadSize name payload case,
      VariantStored p w'.writes (St w'.writes) cases v ptr size offset payloadSize name payload
        case := by
  obtain ⟨⟨name, payload⟩, w₁, hparts, hok⟩ := Lib.run_bind_eq_ok.mp hok
  obtain ⟨⟨index, case⟩, w₂, hcase, hok⟩ := Lib.run_bind_eq_ok.mp hok
  obtain ⟨_, w₃, hdiscriminant, hok⟩ := Lib.run_bind_eq_ok.mp hok
  obtain ⟨⟨offset, payloadSize⟩, w₄, harea, hok⟩ := Lib.run_bind_eq_ok.mp hok
  obtain ⟨_, w₅, hclear, hok⟩ := Lib.run_bind_eq_ok.mp hok
  obtain ⟨content, w₆, hcontent, hok⟩ := Lib.run_bind_eq_ok.mp hok
  obtain ⟨size, w₇, hsize, hdiscriminant⟩ := Lib.run_bind_eq_ok.mp hdiscriminant
  have hpicks := picks_of_variantParts (Lib.run_lift_eq_ok.mp hparts).1
  have hnamed := caseNamed_of_findCase (Lib.run_lift_eq_ok.mp hcase).1
  obtain ⟨htally, hshape, hpayload⟩ :=
    casePayload_tally (S := S) (Lib.run_lift_eq_ok.mp hcontent).1 hpicks hnamed htallies
  have hwritten : ∀ ty value, content = some (ty, value) →
      S value ty ∧ St w'.writes value ty (u32Add ptr offset) := by
    rintro ty value rfl
    exact h.memory hok (htally ty value rfl)
  obtain ⟨hoffset, rfl⟩ := Lib.run_lift_eq_ok.mp harea
  obtain ⟨-, rfl⟩ := Lib.run_lift_eq_ok.mp hcontent
  have hlast : Grows w₅ w' := grows_writeCasePayload h _ _ _ hok
  have hcleared : Grows w₃ w' := Grows.trans _ _ _ (grows_clearPayload _ _ _ hclear) hlast
  refine ⟨hshape fun ty value heq => (hwritten ty value heq).1, size, offset, payloadSize, name,
    payload, case, (Lib.run_lift_eq_ok.mp hsize).1, ?_, hoffset, ?_, hpicks, hnamed, ?_⟩
  · have hmem := writeMemory_mem hdiscriminant
    rw [length_toLeBytes] at hmem
    exact hcleared hmem
  · intro hne
    unfold clearPayload at hclear
    rw [if_pos hne] at hclear
    have hmem := writeMemory_mem hclear
    rw [List.length_replicate] at hmem
    exact hlast hmem
  · intro ty value hty hvalue
    exact (hwritten ty value (hpayload ty value hty hvalue)).2

end variants

section flags

variable {w w' : World σ}

theorem setFlag_spec {labels : List Label} {words words' : List (BitVec 32)} {flag : String}
    (hok : setFlag labels words flag = .ok words') :
    flag ∈ labels ∧ words'.length = words.length := by
  unfold setFlag at hok
  split at hok
  · next index hfind =>
      obtain rfl := Except.ok.inj hok
      refine ⟨?_, List.length_modify ..⟩
      obtain ⟨hlt, heq, -⟩ := List.findIdx?_eq_some_iff_getElem.mp hfind
      rw [← eq_of_beq heq]
      exact List.getElem_mem hlt
  · cases hok

theorem flagWords_spec {labels : List Label} {v : ComponentValue} {words : List (BitVec 32)}
    (hok : flagWords labels v = .ok words) :
    (∃ selected, v = .flags selected ∧ selected ⊆ labels) ∧
      words.length = flagsFlatLen labels := by
  have hfold : ∀ (selected : List String) (start words : List (BitVec 32)),
      selected.foldlM (setFlag labels) start = .ok words →
        selected ⊆ labels ∧ words.length = start.length := by
    intro selected
    induction selected with
    | nil =>
        intro start words hok
        obtain rfl := Lib.pure_eq_ok.mp hok
        exact ⟨List.nil_subset _, rfl⟩
    | cons flag selected ih =>
        intro start words hok
        rw [List.foldlM_cons] at hok
        obtain ⟨next, hflag, hrest⟩ := Lib.bind_eq_ok.mp hok
        obtain ⟨hmem, hlength⟩ := setFlag_spec hflag
        obtain ⟨hsubset, hlengths⟩ := ih next words hrest
        exact ⟨List.cons_subset.mpr ⟨hmem, hsubset⟩, hlengths.trans hlength⟩
  cases v with
  | flags selected =>
      obtain ⟨hsubset, hlength⟩ := hfold selected _ _ hok
      rw [List.length_replicate] at hlength
      exact ⟨⟨selected, rfl, hsubset⟩, hlength⟩
  | _ => cases hok

theorem grows_writeWords {ptr index : Nat} {words : List (BitVec 32)} :
    Lib.Keeps Grows (writeWords ptr index words : Canon σ Unit) := by
  induction words generalizing index with
  | nil => exact grows_pure _
  | cons word words ih => exact grows_bind grows_writeMemory fun _ => ih

theorem writeWords_mem {ptr index : Nat} {words : List (BitVec 32)}
    (hok : writeWords ptr index words w = .ok ((), w')) :
    ∀ i < words.length, (u32Add ptr ((index + i) * 4 % 2 ^ 32), 4) ∈ w'.writes := by
  induction words generalizing index w w' with
  | nil => simp
  | cons word words ih =>
      obtain ⟨_, w₁, hwrite, hok⟩ := Lib.run_bind_eq_ok.mp hok
      rintro (_ | i) hi
      · have hmem := writeMemory_mem hwrite
        rw [length_toLeBytes] at hmem
        exact grows_writeWords _ _ _ hok hmem
      · have hmem := ih hok i (by simpa using hi)
        rwa [show index + 1 + i = index + (i + 1) by omega] at hmem

theorem writeFlagsValueToMemory_spec {labels : List Label} {v : ComponentValue} {ptr : Nat}
    (hok : writeFlagsValueToMemory labels v ptr w = .ok ((), w')) :
    (∃ selected, v = .flags selected ∧ selected ⊆ labels) ∧ FlagsStored w'.writes labels ptr := by
  obtain ⟨words, w₁, hwords, hok⟩ := Lib.run_bind_eq_ok.mp hok
  obtain ⟨hselected, hlength⟩ := flagWords_spec (Lib.run_lift_eq_ok.mp hwords).1
  refine ⟨hselected, ?_⟩
  unfold FlagsStored
  generalize (flagsMemoryAbi labels.length).size = size at hok ⊢
  match size, hok with
  | 0, _ => trivial
  | 1, hok =>
      have hmem := writeMemory_mem hok
      rwa [length_toLeBytes] at hmem
  | 2, hok =>
      have hmem := writeMemory_mem hok
      rwa [length_toLeBytes] at hmem
  | size + 3, hok =>
      intro i hi
      have hmem := writeWords_mem hok i (hlength ▸ hi)
      rwa [Nat.zero_add] at hmem

end flags

section lists

variable {p : Program M} {o : RuntimeCanonicalOptions σ} {below : Lowering σ}
  {T S : ComponentValue → ValType → Prop}
  {St : List (Nat × Nat) → ComponentValue → ValType → Nat → Prop} {w w' : World σ}

theorem listValues_spec {len : Option Nat} {v : ComponentValue} {values : List ComponentValue}
    (hok : listValues len v = .ok values) :
    v = .list values ∧ ∀ expected, len = some expected → values.length = expected := by
  unfold listValues at hok
  cases v with
  | list values' =>
      dsimp only at hok
      split at hok
      · next expected =>
          obtain ⟨hlength, hok⟩ := Lib.ite_error_eq_ok.mp hok
          obtain rfl := Except.ok.inj hok
          refine ⟨rfl, ?_⟩
          rintro _ ⟨⟩
          exact not_not.mp hlength
      · obtain rfl := Except.ok.inj hok
        exact ⟨rfl, by simp⟩
  | _ => cases hok

theorem grows_writeElements (h : LevelSpec below T S St) {elem : ValType} {ptr stride index : Nat}
    {values : List ComponentValue} :
    Lib.Keeps Grows (writeElements below elem ptr stride index values) := by
  induction values generalizing index with
  | nil => exact grows_pure _
  | cons value values ih => exact grows_bind h.grows_memory fun _ => ih

theorem writeElements_spec (h : LevelSpec below T S St) {elem : ValType} {ptr stride index : Nat}
    {values : List ComponentValue}
    (hok : writeElements below elem ptr stride index values w = .ok ((), w'))
    (htallies : ∀ value ∈ values, T value elem) :
    (∀ value ∈ values, S value elem) ∧ ∀ i value, values[i]? = some value →
      St w'.writes value elem (u32Add ptr (stride * ((index + i) % 2 ^ 32) % 2 ^ 32)) := by
  induction values generalizing index w w' with
  | nil => simp
  | cons value values ih =>
      obtain ⟨_, w₁, hwrite, hok⟩ := Lib.run_bind_eq_ok.mp hok
      obtain ⟨hshape, hstored⟩ := h.memory hwrite (htallies value (List.mem_cons_self ..))
      obtain ⟨hshapes, hstoreds⟩ := ih hok fun x hx => htallies x (List.mem_cons_of_mem _ hx)
      refine ⟨List.forall_mem_cons.mpr ⟨hshape, hshapes⟩, ?_⟩
      rintro (_ | i) x hget
      · obtain rfl := Option.some.inj hget
        exact h.mono (grows_writeElements h _ _ _ hok) hstored
      · have hnext := hstoreds i x hget
        rwa [show index + 1 + i = index + (i + 1) by omega] at hnext

theorem grows_lowerListValue (h : LevelSpec below T S St) {elem : ValType} {len : Option Nat}
    {v : ComponentValue} : Lib.Keeps Grows (lowerListValue p o below elem len v) := by
  refine grows_bind (grows_lift _) fun _ => grows_bind (grows_lift _) fun realloc =>
    grows_bind (grows_lift _) fun abi => grows_bind ?_ fun _ =>
      grows_bind (grows_writeElements h) fun _ => grows_pure _
  unfold allocateList
  split
  · exact grows_pure _
  · exact grows_allocate

theorem lowerListValue_spec (h : LevelSpec below T S St) {elem : ValType} {len : Option Nat}
    {v : ComponentValue} {flat : List WasmValue}
    (hok : lowerListValue p o below elem len v w = .ok (flat, w'))
    (htallies : DefTallies T (.list elem len) v) :
    DefShape S (.list elem len) v ∧ flat.map WasmValue.ty = [.i32, .i32] ∧
      ElementsStored p (St w'.writes) elem v := by
  obtain ⟨values, w₁, hvalues, hok⟩ := Lib.run_bind_eq_ok.mp hok
  obtain ⟨realloc, w₂, -, hok⟩ := Lib.run_bind_eq_ok.mp hok
  obtain ⟨abi, w₃, habi, hok⟩ := Lib.run_bind_eq_ok.mp hok
  obtain ⟨ptr, w₄, -, hok⟩ := Lib.run_bind_eq_ok.mp hok
  obtain ⟨_, w₅, hwrite, hok⟩ := Lib.run_bind_eq_ok.mp hok
  obtain ⟨rfl, rfl⟩ := Lib.run_pure_eq_ok.mp hok
  obtain ⟨rfl, hlength⟩ := listValues_spec (Lib.run_lift_eq_ok.mp hvalues).1
  obtain ⟨hshapes, hstored⟩ := writeElements_spec h hwrite (htallies values rfl)
  refine ⟨⟨values, rfl, hlength, hshapes⟩, rfl, values, abi, ptr, rfl,
    (Lib.run_lift_eq_ok.mp habi).1, ?_⟩
  intro i value hget
  have hvalue := hstored i value hget
  rwa [Nat.zero_add] at hvalue

end lists

section primitives

variable {o : RuntimeCanonicalOptions σ} {w w' : World σ} {v : ComponentValue}

theorem writeFlatValues_mem {ptr : Nat} {flat : List WasmValue}
    (hty : flat.map WasmValue.ty = [.i32, .i32])
    (hok : writeFlatValues ptr flat w = .ok ((), w')) :
    (ptr, 4) ∈ w'.writes ∧ (u32Add ptr 4, 4) ∈ w'.writes := by
  have hlength : ∀ value : WasmValue, value.ty = .i32 → value.toLeBytes.length = 4 := by
    intro value hvalue
    cases value with
    | i32 v => exact length_toLeBytes v
    | _ => cases hvalue
  obtain ⟨first, second, rfl⟩ := List.length_eq_two.mp (by simpa using congrArg List.length hty)
  simp only [List.map_cons, List.map_nil, List.cons.injEq, and_true] at hty
  obtain ⟨_, w₁, hfirst, hok⟩ := Lib.run_bind_eq_ok.mp hok
  obtain ⟨_, w₂, hsecond, hok⟩ := Lib.run_bind_eq_ok.mp hok
  obtain ⟨-, rfl⟩ := Lib.run_pure_eq_ok.mp hok
  have hptr := writeMemory_mem hfirst
  have hlen := writeMemory_mem hsecond
  rw [hlength first hty.1] at hptr hlen
  rw [hlength second hty.2] at hlen
  exact ⟨grows_writeMemory _ _ _ hsecond hptr, hlen⟩

theorem primitiveBytes_spec {prim : PrimValType} {bytes : List Byte}
    (hok : primitiveBytes v prim = .ok bytes) :
    PrimKind prim v ∧ bytes.length = (memoryAbiForPrimitive prim).size := by
  cases prim <;> dsimp only [primitiveBytes] at hok
  case string | errorContext => cases hok
  all_goals
    obtain ⟨n, hn, hok⟩ := Lib.bind_eq_ok.mp hok
    obtain rfl := Lib.pure_eq_ok.mp hok
  case bool => exact ⟨⟨n, expectBool_eq_ok.mp hn⟩, rfl⟩
  case s8 | s16 | s32 => exact ⟨⟨n, expectI32_eq_ok.mp hn⟩, length_toLeBytes n⟩
  case u8 | u16 | u32 => exact ⟨⟨n, expectU32_eq_ok.mp hn⟩, length_toLeBytes n⟩
  case s64 => exact ⟨⟨n, expectI64_eq_ok.mp hn⟩, length_toLeBytes n⟩
  case u64 => exact ⟨⟨n, expectU64_eq_ok.mp hn⟩, length_toLeBytes n⟩
  case f32 => exact ⟨⟨n, expectF32_eq_ok.mp hn⟩, length_toLeBytes n⟩
  case f64 => exact ⟨⟨n, expectF64_eq_ok.mp hn⟩, length_toLeBytes n⟩
  case char => exact ⟨⟨n, expectChar_eq_ok.mp hn⟩, length_toLeBytes _⟩

theorem writePrimitiveToMemory_spec {prim : PrimValType} {ptr : Nat}
    (hok : writePrimitiveToMemory o v prim ptr w = .ok ((), w')) :
    PrimKind prim v ∧ PrimStored w'.writes ptr prim := by
  cases prim
  case errorContext => cases hok
  case string =>
    obtain ⟨_, w₁, -, hok⟩ := Lib.run_bind_eq_ok.mp hok
    obtain ⟨flat, w₂, hflat, hok⟩ := Lib.run_bind_eq_ok.mp hok
    obtain ⟨hstring, hty⟩ := lowerString_spec hflat
    exact ⟨hstring, writeFlatValues_mem hty hok⟩
  all_goals
    obtain ⟨_, w₁, -, hok⟩ := Lib.run_bind_eq_ok.mp hok
    obtain ⟨bytes, w₂, hbytes, hok⟩ := Lib.run_bind_eq_ok.mp hok
    obtain ⟨hkind, hlength⟩ := primitiveBytes_spec (Lib.run_lift_eq_ok.mp hbytes).1
    have hmem := writeMemory_mem hok
    rw [hlength] at hmem
    exact ⟨hkind, hmem⟩

end primitives

section levels

variable {p : Program M} {o : RuntimeCanonicalOptions σ} {below : Lowering σ}
  {T S : ComponentValue → ValType → Prop}
  {St : List (Nat × Nat) → ComponentValue → ValType → Nat → Prop} {w w' : World σ}

theorem handle_spec {v : ComponentValue} {n : BitVec 32} (hok : expectHandle v = .ok n) :
    IsHandle v :=
  ⟨n, expectHandle_eq_ok.mp hok⟩

theorem lowerDefinedValue_spec (h : LevelSpec below T S St) {v : ComponentValue} {id : TypeId}
    {flat : List WasmValue} (hok : lowerDefinedValue p o below v id w = .ok (flat, w')) :
    (∃ ty, p.arena.get id = some (.defVal ty) ∧ (DefTallies T ty v → DefShape S ty v ∧
      flatTypesForDefval below.flatTypes ty = .ok (flat.map WasmValue.ty))) ∨
    (∃ r, p.arena.get id = some (.resource r)) ∧ IsHandle v ∧ flat.map WasmValue.ty = [.i32] := by
  unfold lowerDefinedValue at hok
  generalize p.arena.get id = found at hok ⊢
  match found, hok with
  | some (.defVal (.primitive prim)), hok =>
      refine Or.inl ⟨_, rfl, fun htallies => ?_⟩
      obtain ⟨hkind, hty⟩ := lowerPrimitive_spec hok
      exact ⟨⟨hkind, htallies⟩, congrArg Except.ok hty.symm⟩
  | some (.defVal (.record fields)), hok =>
      exact Or.inl ⟨_, rfl, fun htallies => lowerRecordValue_spec h hok htallies⟩
  | some (.defVal (.variant cases)), hok =>
      exact Or.inl ⟨_, rfl, fun htallies => lowerVariantValue_spec h hok htallies⟩
  | some (.defVal (.flags labels)), hok =>
      refine Or.inl ⟨_, rfl, fun _ => ?_⟩
      obtain ⟨words, hwords, heq⟩ := Lib.bind_eq_ok.mp (Lib.run_lift_eq_ok.mp hok).1
      obtain rfl := Lib.pure_eq_ok.mp heq
      obtain ⟨hselected, hlength⟩ := flagWords_spec hwords
      refine ⟨hselected, ?_⟩
      dsimp only [flatTypesForDefval]
      rw [List.map_map, ← hlength, ← List.map_const']
      rfl
  | some (.defVal (.list elem len)), hok =>
      refine Or.inl ⟨_, rfl, fun htallies => ?_⟩
      obtain ⟨hshape, hty, -⟩ := lowerListValue_spec h hok htallies
      exact ⟨hshape, congrArg Except.ok hty.symm⟩
  | some (.defVal (.own resource)), hok | some (.defVal (.borrow resource)), hok =>
      refine Or.inl ⟨_, rfl, fun _ => ?_⟩
      obtain ⟨_, w₁, -, hok⟩ := Lib.run_bind_eq_ok.mp hok
      obtain ⟨⟨n, hn⟩, hty⟩ := lowered_one hok fun _ => rfl
      exact ⟨handle_spec hn, congrArg Except.ok hty.symm⟩
  | some (.resource r), hok =>
      obtain ⟨⟨n, hn⟩, hty⟩ := lowered_one hok fun _ => rfl
      exact Or.inr ⟨⟨r, rfl⟩, handle_spec hn, hty⟩

theorem writeDefinedValueToMemory_spec (h : LevelSpec below T S St) {v : ComponentValue}
    {id : TypeId} {ptr : Nat}
    (hok : writeDefinedValueToMemory p o below v id ptr w = .ok ((), w')) :
    (∃ ty, p.arena.get id = some (.defVal ty) ∧ (DefTallies T ty v → DefShape S ty v ∧
      DefStored p w'.writes (St w'.writes) v ptr ty)) ∨
    ((∃ r, p.arena.get id = some (.resource r)) ∨ ∃ g, p.arena.get id = some (.generic g)) ∧
      IsHandle v ∧ (ptr, 4) ∈ w'.writes := by
  have hhandle : ∀ {w : World σ}, (do
      let handle ← (expectHandle v : Canon σ _)
      writeMemory ptr (toLeBytes 4 handle)) w = .ok ((), w') →
        IsHandle v ∧ (ptr, 4) ∈ w'.writes := by
    intro w hok
    obtain ⟨n, w₁, hn, hok⟩ := Lib.run_bind_eq_ok.mp hok
    have hmem := writeMemory_mem hok
    rw [length_toLeBytes] at hmem
    exact ⟨handle_spec (Lib.run_lift_eq_ok.mp hn).1, hmem⟩
  obtain ⟨_, w₁, -, hok⟩ := Lib.run_bind_eq_ok.mp hok
  generalize p.arena.get id = found at hok ⊢
  match found, hok with
  | some (.defVal (.primitive prim)), hok =>
      refine Or.inl ⟨_, rfl, fun htallies => ?_⟩
      obtain ⟨hkind, hstored⟩ := writePrimitiveToMemory_spec hok
      exact ⟨⟨hkind, htallies⟩, hstored⟩
  | some (.defVal (.record fields)), hok =>
      exact Or.inl ⟨_, rfl, fun htallies => writeRecordValueToMemory_spec h hok htallies⟩
  | some (.defVal (.variant cases)), hok =>
      exact Or.inl ⟨_, rfl, fun htallies => writeVariantValueToMemory_spec h hok htallies⟩
  | some (.defVal (.flags labels)), hok =>
      exact Or.inl ⟨_, rfl, fun _ => writeFlagsValueToMemory_spec hok⟩
  | some (.defVal (.list elem len)), hok =>
      refine Or.inl ⟨_, rfl, fun htallies => ?_⟩
      obtain ⟨flat, w₂, hflat, hok⟩ := Lib.run_bind_eq_ok.mp hok
      obtain ⟨hshape, hty, values, abi, base, hv, habi, helements⟩ :=
        lowerListValue_spec h hflat htallies
      have hgrows := grows_writeFlatValues _ _ _ hok
      exact ⟨hshape, writeFlatValues_mem hty hok, values, abi, base, hv, habi,
        fun i value hget => h.mono hgrows (helements i value hget)⟩
  | some (.defVal (.own resource)), hok | some (.defVal (.borrow resource)), hok =>
      obtain ⟨_, w₂, -, hok⟩ := Lib.run_bind_eq_ok.mp hok
      exact Or.inl ⟨_, rfl, fun _ => hhandle hok⟩
  | some (.resource r), hok => exact Or.inr ⟨Or.inl ⟨r, rfl⟩, hhandle hok⟩
  | some (.generic g), hok => exact Or.inr ⟨Or.inr ⟨g, rfl⟩, hhandle hok⟩

theorem grows_lowerDefinedValue (h : LevelSpec below T S St) {v : ComponentValue} {id : TypeId} :
    Lib.Keeps Grows (lowerDefinedValue p o below v id) := by
  unfold lowerDefinedValue
  split
  · exact grows_lowerPrimitive
  · exact grows_bind (grows_lift _) fun _ => grows_lowerFields h
  · exact grows_lowerVariantValue h
  · exact grows_lift _
  · exact grows_lowerListValue h
  · exact grows_bind (grows_lift _) fun _ => grows_bind (grows_lift _) fun _ => grows_pure _
  · exact grows_bind (grows_lift _) fun _ => grows_bind (grows_lift _) fun _ => grows_pure _
  · exact grows_bind (grows_lift _) fun _ => grows_pure _
  · exact Lib.Keeps.throw _
  · exact Lib.Keeps.throw _

theorem grows_writeDefinedValueToMemory (h : LevelSpec below T S St) {v : ComponentValue}
    {id : TypeId} {ptr : Nat} :
    Lib.Keeps Grows (writeDefinedValueToMemory p o below v id ptr) := by
  have hhandle : Lib.Keeps Grows (do
      let handle ← (expectHandle v : Canon σ _)
      writeMemory ptr (toLeBytes 4 handle)) :=
    grows_bind (grows_lift _) fun _ => grows_writeMemory
  refine grows_bind (grows_lift _) fun _ => ?_
  split
  · exact grows_writePrimitiveToMemory
  · exact grows_bind (grows_lift _) fun _ => grows_writeFields h
  · exact grows_writeVariantValueToMemory h
  · refine grows_bind (grows_lift _) fun words => ?_
    generalize (flagsMemoryAbi _).size = size
    match size with
    | 0 => exact grows_pure _
    | 1 => exact grows_writeMemory
    | 2 => exact grows_writeMemory
    | size + 3 => exact grows_writeWords
  · exact grows_bind (grows_lowerListValue h) fun _ => grows_writeFlatValues
  · exact grows_bind (grows_lift _) fun _ => hhandle
  · exact grows_bind (grows_lift _) fun _ => hhandle
  · exact hhandle
  · exact hhandle
  · exact Lib.Keeps.throw _
  · exact Lib.Keeps.throw _

end levels

theorem primitive_flat {o : RuntimeCanonicalOptions σ} {v : ComponentValue} {prim : PrimValType}
    {flat : List WasmValue} {w w' : World σ} (hok : lowerPrimitive o v prim w = .ok (flat, w'))
    (hrange : InRange prim v) :
    (PrimKind prim v ∧ InRange prim v) ∧
      (Except.ok (flatTypesForPrimitive prim) : Except ComponentError _) =
        .ok (flat.map WasmValue.ty) := by
  obtain ⟨hkind, hty⟩ := lowerPrimitive_spec hok
  exact ⟨⟨hkind, hrange⟩, congrArg Except.ok hty.symm⟩

theorem primitive_memory {o : RuntimeCanonicalOptions σ} {v : ComponentValue} {prim : PrimValType}
    {ptr : Nat} {w w' : World σ} (hok : writePrimitiveToMemory o v prim ptr w = .ok ((), w'))
    (hrange : InRange prim v) :
    (PrimKind prim v ∧ InRange prim v) ∧ PrimStored w'.writes ptr prim := by
  obtain ⟨hkind, hstored⟩ := writePrimitiveToMemory_spec hok
  exact ⟨⟨hkind, hrange⟩, hstored⟩

theorem lowering_flatTypes (p : Program M) (o : RuntimeCanonicalOptions σ) (depth : Nat) :
    (lowering p o depth).flatTypes = flatTypesForValtype p.arena.types depth := by
  cases depth <;> rfl

theorem flatTypes_type {types : List (Ty M)} {depth : Nat} {id : TypeId} {ty : Ty M}
    (hget : types[id]? = some ty) :
    flatTypesForValtype types (depth + 1) (.type id) =
      flatTypesForType (flatTypesForValtype types depth) ty := by
  rw [flatTypesForValtype, hget]

theorem levelSpec_lowering (p : Program M) (o : RuntimeCanonicalOptions σ) (depth : Nat) :
    LevelSpec (lowering p o depth) (Tallies p.arena.types depth) (HasShape p.arena.types depth)
      fun W => Stored p W depth := by
  induction depth with
  | zero =>
      refine ⟨?_, ?_, ?_, ?_, fun hW h => h.mono hW⟩
      · rintro v (id | prim) w flat w' hok htallies
        · cases hok
        · exact primitive_flat hok htallies
      · rintro v (id | prim) ptr w w' hok htallies
        · cases hok
        · exact primitive_memory hok htallies
      · rintro v (id | prim)
        · exact Lib.Keeps.throw _
        · exact grows_lowerPrimitive
      · rintro v (id | prim) ptr
        · exact Lib.Keeps.throw _
        · exact grows_writePrimitiveToMemory
  | succ depth ih =>
      refine ⟨?_, ?_, ?_, ?_, fun hW h => h.mono hW⟩
      · rintro v (id | prim) w flat w' hok htallies
        · obtain ⟨ty, hget, hspec⟩ | ⟨⟨r, hget⟩, hhandle, hty⟩ := lowerDefinedValue_spec ih hok
          · rw [hasShape_defVal hget, lowering_flatTypes, flatTypes_type hget, flatTypesForType,
              ← lowering_flatTypes p o depth]
            exact hspec ((tallies_defVal hget).mp htallies)
          · rw [hasShape_resource hget, lowering_flatTypes, flatTypes_type hget]
            exact ⟨hhandle, congrArg Except.ok hty.symm⟩
        · exact primitive_flat hok htallies
      · rintro v (id | prim) ptr w w' hok htallies
        · obtain ⟨ty, hget, hspec⟩ | ⟨⟨r, hget⟩ | ⟨g, hget⟩, hhandle, hmem⟩ :=
            writeDefinedValueToMemory_spec ih hok
          · rw [hasShape_defVal hget, Stored, hget]
            exact hspec ((tallies_defVal hget).mp htallies)
          · rw [hasShape_resource hget, Stored, hget]
            exact ⟨hhandle, hmem⟩
          · rw [hasShape_generic hget, Stored, hget]
            exact ⟨hhandle, hmem⟩
        · exact primitive_memory hok htallies
      · rintro v (id | prim)
        · exact grows_lowerDefinedValue ih
        · exact grows_lowerPrimitive
      · rintro v (id | prim) ptr
        · exact grows_writeDefinedValueToMemory ih
        · exact grows_writePrimitiveToMemory

/-! ## The return slot -/

theorem length_wasmValue_toLeBytes (value : WasmValue) :
    value.toLeBytes.length = value.ty.stackSize := by
  cases value <;> exact length_toLeBytes _

theorem length_returnSlot (flat : List WasmValue) :
    (returnSlot flat).length = stackBytes (flat.map WasmValue.ty) := by
  unfold returnSlot
  induction flat with
  | nil => rfl
  | cons value flat ih =>
      rw [List.flatMap_cons, List.length_append, ih, List.map_cons, stackBytes_cons,
        length_wasmValue_toLeBytes]

/-- The core values of results that tally have the types of the signature. -/
theorem lowerComponentResults_ty {p : Program M} {o : RuntimeCanonicalOptions σ} {func : FuncType}
    {results : List ComponentValue} {area : Option Nat} {w w' : World σ} {flat : List WasmValue}
    {signature : CoreFuncType} (hsignature : p.coreSignature func .lower = .ok signature)
    (hok : p.lowerComponentResults o func results area w = .ok (flat, w'))
    (htallies : ∀ v ty, results.head? = some v → func.result = some ty →
      Tallies p.arena.types p.arena.types.length v ty) :
    flat.map WasmValue.ty = signature.results := by
  unfold Program.coreSignature Program.spillsResult Program.coreResults at hsignature
  unfold Program.lowerComponentResults at hok
  obtain ⟨params, -, hsignature⟩ := Lib.bind_eq_ok.mp hsignature
  obtain ⟨spills, hspills, hsignature⟩ := Lib.bind_eq_ok.mp hsignature
  cases hresult : func.result with
  | none =>
      rw [hresult] at hok hspills hsignature
      obtain rfl := Except.ok.inj hspills
      obtain ⟨_, hresults, hsignature⟩ := Lib.bind_eq_ok.mp hsignature
      obtain rfl := Except.ok.inj hresults
      obtain rfl := Lib.pure_eq_ok.mp hsignature
      dsimp only at hok
      split at hok
      · obtain ⟨rfl, -⟩ := Lib.run_pure_eq_ok.mp hok
        rfl
      · cases hok
  | some ty =>
      rw [hresult] at hok hspills hsignature
      obtain ⟨flatLen, hflatLen, hspills⟩ := Lib.bind_eq_ok.mp hspills
      obtain rfl := Lib.pure_eq_ok.mp hspills
      cases results with
      | nil => cases hok
      | cons v results =>
          obtain ⟨len, w₁, hlen, hok⟩ := Lib.run_bind_eq_ok.mp hok
          obtain rfl : flatLen = len :=
            Except.ok.inj (hflatLen.symm.trans (Lib.run_lift_eq_ok.mp hlen).1)
          by_cases hspill : maxFlatResults < flatLen
          · rw [if_pos hspill] at hok
            rw [decide_eq_true hspill] at hsignature
            obtain rfl := Lib.pure_eq_ok.mp hsignature
            obtain ⟨_, w₂, -, hok⟩ := Lib.run_bind_eq_ok.mp hok
            cases area with
            | none => cases hok
            | some ptr =>
                obtain ⟨_, w₃, -, hok⟩ := Lib.run_bind_eq_ok.mp hok
                obtain ⟨rfl, -⟩ := Lib.run_pure_eq_ok.mp hok
                rfl
          · rw [if_neg hspill] at hok
            rw [decide_eq_false hspill] at hsignature
            obtain ⟨types, htypes, hsignature⟩ := Lib.bind_eq_ok.mp hsignature
            obtain rfl := Lib.pure_eq_ok.mp hsignature
            obtain ⟨-, hflat⟩ := (levelSpec_lowering p o _).flat hok (htallies v ty rfl hresult)
            rw [lowering_flatTypes] at hflat
            exact Except.ok.inj (hflat.symm.trans htypes)

/-- A value that is lowered has the shape of its type, gives the flat types of the signature, and
in memory initialises every field, exactly when it tallies. The trampoline then writes as many
bytes as the core signature of the binding has results. -/
theorem lowered_shape_iff (p : Program M) (o : RuntimeCanonicalOptions σ) :
    (∀ v ty w flat w', p.lowerValueToFlat o v ty w = .ok (flat, w') →
      ((p.flatTypes ty = .ok (flat.map WasmValue.ty) ∧
          HasShape p.arena.types p.arena.types.length v ty) ↔
        Tallies p.arena.types p.arena.types.length v ty)) ∧
    (∀ v ty ptr w w', p.writeValueToMemory o v ty ptr w = .ok ((), w') →
      ((Stored p w'.writes p.arena.types.length v ty ptr ∧
          HasShape p.arena.types p.arena.types.length v ty) ↔
        Tallies p.arena.types p.arena.types.length v ty)) ∧
    ∀ (a : TypeArena M) (id : TypeId) func signature, a.types <+: p.arena.types →
      a.get id = some (.func func) → flattenFuncType a func .lower = .ok signature →
      ∀ results area w flat w', p.lowerComponentResults o func results area w = .ok (flat, w') →
      (∀ v ty, results.head? = some v → func.result = some ty →
        Tallies p.arena.types p.arena.types.length v ty) →
      (returnSlot flat).length = stackBytes signature.results := by
  have hspec := levelSpec_lowering p o p.arena.types.length
  refine ⟨?_, ?_, ?_⟩
  · intro v ty w flat w' hok
    refine ⟨fun h => hasShape_tallies h.2, fun htallies => ?_⟩
    obtain ⟨hshape, htypes⟩ := hspec.flat hok htallies
    rw [lowering_flatTypes] at htypes
    exact ⟨htypes, hshape⟩
  · intro v ty ptr w w' hok
    refine ⟨fun h => hasShape_tallies h.2, fun htallies => ?_⟩
    obtain ⟨hshape, hstored⟩ := hspec.memory hok htallies
    exact ⟨hstored, hshape⟩
  · intro a id func signature hpre hfunc hflatten results area w flat w' hok htallies
    have hsignature := flattenFuncType_eq hpre (func_refs_lt hfunc) hflatten
    rw [length_returnSlot, lowerComponentResults_ty hsignature hok htallies]

section chosen

/-- A tuple of one number, and a function that returns it. -/
private def singleTypes : List (Ty Empty) :=
  [.defVal (.record [⟨"0", .primitive .u32⟩]), .func ⟨[], [], some (.type 0)⟩]

private def singleArena : TypeArena Empty where
  types := singleTypes
  refs_lt := by
    intro id ty h
    match id, h with
    | 0, h => cases h; decide
    | 1, h => cases h; decide
  names_nodup := by
    intro ty h
    simp only [singleTypes, List.mem_cons, List.not_mem_nil, or_false] at h
    rcases h with rfl | rfl <;> trivial
  generic_sub := by
    intro g h
    simp [singleTypes] at h

private def singleProgram : Program Empty where
  arena := singleArena
  typeInfos := [⟨0, 1, 4, 4, none⟩, ⟨1, 0, 0, 1, none⟩]
  built := rfl

private def noOptions : RuntimeCanonicalOptions Unit := ⟨none, true, none⟩

private def smallWorld : World Unit := ⟨⟨⟨8, fun _ => 0⟩, ()⟩, []⟩

private theorem single_tallies (n : BitVec 32) :
    Tallies singleTypes 2 (.tuple [.u32 n]) (.type 0) := by
  refine ⟨rfl, ?_⟩
  rintro ⟨value, field⟩ hmem
  obtain ⟨rfl, rfl⟩ := Prod.mk.inj (List.mem_singleton.mp hmem)
  trivial

/-- A tuple of one number is lowered to it on both paths, and the trampoline writes its bytes. -/
theorem lowered_shape_iff_single :
    (singleProgram.flatTypes (.type 0) = .ok [.i32] ∧
      HasShape singleTypes 2 (.tuple [.u32 7]) (.type 0)) ∧
    (Stored singleProgram [(0, 4)] 2 (.tuple [.u32 7]) (.type 0) 0 ∧
      HasShape singleTypes 2 (.tuple [.u32 7]) (.type 0)) ∧
    (returnSlot [.i32 7]).length = stackBytes [.i32] := by
  obtain ⟨hflat, hmemory, hslot⟩ := lowered_shape_iff singleProgram noOptions
  refine ⟨?_, ?_, ?_⟩
  · exact (hflat (.tuple [.u32 7]) (.type 0) smallWorld _ _ rfl).mpr (single_tallies 7)
  · exact (hmemory (.tuple [.u32 7]) (.type 0) 0 smallWorld _ rfl).mpr (single_tallies 7)
  · refine hslot singleArena 1 ⟨[], [], some (.type 0)⟩ ⟨[], [.i32]⟩ (List.prefix_refl _) rfl rfl
      [.tuple [.u32 7]] none smallWorld _ _ rfl ?_
    rintro v ty ⟨⟩ ⟨⟩
    exact single_tallies 7

/-- A tuple without values passes for a tuple of one number, and the trampoline writes nothing where
four bytes are expected; the number 300 passes for an eight-bit one. -/
theorem lowered_short_tuple :
    singleProgram.lowerValueToFlat noOptions (.tuple []) (.type 0) smallWorld =
      .ok ([], smallWorld) ∧
    singleProgram.flatTypes (.type 0) = .ok [.i32] ∧
    singleProgram.writeValueToMemory noOptions (.tuple []) (.type 0) 0 smallWorld =
      .ok ((), smallWorld) ∧
    singleProgram.lowerComponentResults noOptions ⟨[], [], some (.type 0)⟩ [.tuple []] none
      smallWorld = .ok ([], smallWorld) ∧
    flattenFuncType singleArena ⟨[], [], some (.type 0)⟩ .lower = .ok ⟨[], [.i32]⟩ ∧
    (returnSlot []).length ≠ stackBytes [.i32] ∧
    singleProgram.lowerValueToFlat noOptions (.s32 300) (.primitive .s8) smallWorld =
      .ok ([.i32 44], smallWorld) ∧
    ¬ HasShape singleTypes 2 (.s32 300) (.primitive .s8) := by
  refine ⟨rfl, rfl, rfl, rfl, rfl, by decide, rfl, ?_⟩
  rintro ⟨-, hrange⟩
  exact absurd (hrange 300 rfl).2 (by decide)

end chosen

end Telomere.Component
