import Telomere.Component.TypedValues
import Telomere.Lib.Named

/-!
# Values in memory

What is written for a value of a type stays within the area of the type and new blocks, and is read
back as the value.
-/

namespace Telomere.Component

open Lib (Region Span Covered)

variable {M σ α β : Type}

section stores

variable {alloc : Allocator σ} {B : List Region} {R R' : Nat → Prop} {w : World σ}

theorem Stores.ok_bind {x : Except ComponentError α} {a : α} {f : α → Canon σ β}
    {Q : β → LinearMemory → Prop} (hx : x = .ok a) (hf : Stores alloc B R (f a) w Q) :
    Stores alloc B R (liftM x >>= f) w Q := by
  rw [hx, Lib.lift_ok_bind]
  exact hf

theorem Stores.bind_forget {x : Canon σ α} {f : α → Canon σ β} {P : α → LinearMemory → Prop}
    {Q : β → LinearMemory → Prop} (hx : Stores alloc B R x w P)
    (hf : ∀ a w₁ B₁, alloc.Holds w₁.guest B₁ → Grown B w B₁ w₁ → Stores alloc B₁ R (f a) w₁ Q) :
    Stores alloc B R (x >>= f) w Q := by
  refine Lib.Yields.bind hx ?_
  rintro a w₁ ⟨N₁, hfirst, -⟩
  refine Lib.Yields.mono (hf a w₁ _ hfirst.holds hfirst.covers) ?_
  rintro b w₂ ⟨N₂, hrest, hstored⟩
  refine ⟨N₂ ++ N₁, ?_, ?_⟩
  · have hboth := hfirst.trans hrest
    exact { hboth with kept := fun addr hB hR => hboth.kept addr hB (by simpa using hR) }
  · intro m hm
    refine hstored m (hm.mono ?_)
    rintro addr (h | h)
    · exact Or.inl h
    · exact Or.inr (Lib.covered_append.mpr (Or.inl h))

/-- Two parts that write up to `stop`, one behind the other. -/
theorem Stores.bind_next {x : Canon σ α} {f : α → Canon σ β} {P : α → LinearMemory → Prop}
    {Q : β → LinearMemory → Prop} {start stop first size : Nat} (next : Nat)
    (harea : Area B w start (stop - start)) (hle : start ≤ first) (hnext : first + size ≤ next)
    (hend : next ≤ stop) (hx : Stores alloc B (Span first size) x w P)
    (hf : ∀ a w₁ B₁, alloc.Holds w₁.guest B₁ → Area B₁ w₁ start (stop - start) → (∃ m, P a m) →
      Stores alloc B₁ (Span next (stop - next)) (f a) w₁ fun b m => P a m → Q b m) :
    Stores alloc B (Span start (stop - start)) (x >>= f) w Q := by
  have hfirst : ∀ addr, Span first size addr → Span start (stop - start) addr := fun addr h =>
    h.sub hle (by omega)
  have hrest : ∀ addr, Span next (stop - next) addr → Span start (stop - start) addr :=
    fun addr h => h.sub (by omega) (by omega)
  refine Stores.mono (Stores.bind (fun addr h => harea.covered addr (hfirst addr h))
    (fun addr h => harea.covered addr (hrest addr h)) ?_ hx ?_) ?_ fun _ _ h => h
  · intro addr h h'
    unfold Span at h h'
    omega
  · intro a w₁ B₁ hholds hgrown hstored
    exact hf a w₁ B₁ hholds (harea.mono hgrown) hstored
  · rintro addr (h | h)
    · exact hfirst addr h
    · exact hrest addr h

theorem Stores.bind_pure {x : Canon σ α} {f : α → β} {P : α → LinearMemory → Prop}
    {Q : β → LinearMemory → Prop} (hx : Stores alloc B R x w P) (h : ∀ a m, P a m → Q (f a) m) :
    Stores alloc B R (x >>= fun a => Pure.pure (f a)) w Q := by
  refine Lib.Yields.bind hx ?_
  rintro a w₁ ⟨N, hwrote, hstored⟩
  exact Lib.Yields.pure ⟨N, hwrote, fun m hm => h a m (hstored m hm)⟩

theorem Stores.bind_new {x : Canon σ α} {f : α → Canon σ β} {P : α → LinearMemory → Prop}
    {Q : β → LinearMemory → Prop} (hR : ∀ addr, R addr → Covered B addr)
    (hx : Stores alloc B (fun _ => False) x w P)
    (hf : ∀ a w₁ B₁, alloc.Holds w₁.guest B₁ → Grown B w B₁ w₁ → (∃ m, P a m) →
      Stores alloc B₁ R (f a) w₁ fun b m => P a m → Q b m) :
    Stores alloc B R (x >>= f) w Q := by
  refine Stores.mono (Stores.bind (fun _ h => False.elim h) hR (fun _ h => False.elim h) hx hf) ?_
    fun _ _ h => h
  rintro addr (h | h)
  · exact False.elim h
  · exact h

theorem fromLeBytes_toLeBytes_setWidth {n w count : Nat} (v : BitVec n) (hw : w ≤ 8 * count) :
    fromLeBytes w (toLeBytes count v) = v.setWidth w := by
  rw [fromLeBytes_eq]
  exact Lib.leValue_leDigits (by decide) v hw

theorem number_stores {n v ptr : Nat} {count : Nat} {x : BitVec n} (hholds : alloc.Holds w.guest B)
    (harea : Area B w ptr count) (hv : v ≤ 8 * count) :
    Stores alloc B (Span ptr count) (writeMemory ptr (toLeBytes count x)) w fun _ m =>
      readNumber m v count ptr = .ok (x.setWidth v) := by
  have hlen : (toLeBytes count x).length = count := length_toLeBytes x
  have hbytes : Area B w ptr (toLeBytes count x).length := by rwa [hlen]
  have hwrite := Stores.writeMemory hholds hbytes
  rw [hlen] at hwrite
  refine Stores.mono hwrite (fun _ h => h) fun _ m h => ?_
  unfold readNumber
  rw [h, Lib.ok_bind, fromLeBytes_toLeBytes_setWidth x hv]
  rfl

theorem u32Add_eq {a b : Nat} (h : a + b < 2 ^ 32) : u32Add a b = a + b := Nat.mod_eq_of_lt h

theorem pair_stores {ptr : Nat} {a b : BitVec 32} (hholds : alloc.Holds w.guest B)
    (harea : Area B w ptr 8) :
    Stores alloc B (Span ptr 8) (writeFlatValues ptr [.i32 a, .i32 b]) w fun _ m =>
      readI32FromMemory m ptr = .ok a ∧ readI32FromMemory m (ptr + 4) = .ok b := by
  have hnext : u32Add ptr 4 = ptr + 4 := u32Add_eq (by have := harea.inBounds.1; omega)
  have hrun : (writeFlatValues ptr [.i32 a, .i32 b] : Canon σ Unit) =
      (writeMemory ptr (toLeBytes 4 a) >>= fun _ =>
        writeMemory (u32Add ptr 4) (toLeBytes 4 b) >>= fun _ => pure ()) := rfl
  have hsize : ptr + 8 - ptr = 8 := Nat.add_sub_cancel_left ptr 8
  rw [hrun, hnext, bind_pure_unit, ← hsize]
  rw [← hsize] at harea
  refine Stores.bind_next (ptr + 4) harea (Nat.le_refl _) (Nat.le_refl _) (by omega)
    (number_stores (v := 32) hholds (harea.sub (Nat.le_refl _) (by omega)) (by omega)) ?_
  intro _ w₁ B₁ hholds₁ harea₁ _
  have hfour : ptr + 8 - (ptr + 4) = 4 := by omega
  rw [hfour]
  refine Stores.mono (number_stores (v := 32) hholds₁ (harea₁.sub (by omega) (by omega)) (by omega))
    (fun _ h => h) fun _ m hb ha => ?_
  rw [BitVec.setWidth_eq] at ha hb
  exact ⟨ha, hb⟩

/-- The host reaches the guest's memory and an allocator of the guest. -/
structure Reaches (alloc : Allocator σ) (o : RuntimeCanonicalOptions σ) : Prop where
  memory : o.memory = true
  realloc : o.realloc = some alloc.realloc

variable {o : RuntimeCanonicalOptions σ}

theorem Reaches.requireMemory_eq (ho : Reaches alloc o) : requireMemory o = .ok () := by
  rw [requireMemory, if_pos ho.memory]

theorem Reaches.requireRealloc_eq (ho : Reaches alloc o) :
    requireRealloc o = .ok alloc.realloc := by
  rw [requireRealloc, ho.realloc]

theorem readStringFromMemory_getD (m : LinearMemory) (ptr : Nat) (len : BitVec 32)
    (encoding : Option CanonicalStringEncoding) :
    readStringFromMemory m ptr len (some (encoding.getD .utf8)) =
      readStringFromMemory m ptr len encoding := by
  cases encoding <;> rfl

theorem lowerString_stores (ho : Reaches alloc o) {s : String}
    (hfits : StringFits s (o.stringEncoding.getD .utf8)) (hholds : alloc.Holds w.guest B) :
    Stores alloc B R (lowerString o (.string s)) w fun flat m => ∃ ptr len : BitVec 32,
      flat = [.i32 ptr, .i32 len] ∧
        readStringFromMemory m ptr.toNat len o.stringEncoding = .ok s := by
  unfold lowerString
  refine Stores.ok_bind ho.requireMemory_eq ?_
  refine Stores.ok_bind ho.requireRealloc_eq ?_
  refine Stores.ok_bind (a := s) rfl ?_
  refine Stores.mono (lowerStringAs_stores _ hholds hfits) (fun _ h => h) ?_
  rintro flat m ⟨ptr, len, hflat, hread⟩
  refine ⟨ptr, len, hflat, ?_⟩
  rwa [readStringFromMemory_getD] at hread

theorem charFromU32_toNat (c : Char) : charFromU32 (BitVec.ofNat 32 c.toNat).toNat = .ok c := by
  have hcases := char_toNat_cases c
  have hvalid : c.toNat.isValidChar := by
    unfold Nat.isValidChar
    omega
  rw [toNat_ofNat_of_lt (by omega), charFromU32, if_pos hvalid, Char.ofNat_toNat]

theorem plain_stores (ho : Reaches alloc o) {prim : PrimValType} {value : ComponentValue}
    {n v count ptr : Nat} {x : BitVec n} {back : BitVec v → Except ComponentError ComponentValue}
    (hrun : (writePrimitiveToMemory o value prim ptr : Canon σ Unit) =
      (do requireMemory o; writeMemory ptr (← primitiveBytes value prim)))
    (hread : ∀ m, readPrimitiveFromMemory o m ptr prim = readNumber m v count ptr >>= back)
    (hbytes : primitiveBytes value prim = .ok (toLeBytes count x)) (hv : v ≤ 8 * count)
    (hback : back (x.setWidth v) = .ok value) (hholds : alloc.Holds w.guest B)
    (harea : Area B w ptr count) :
    Stores alloc B (Span ptr count) (writePrimitiveToMemory o value prim ptr) w fun _ m =>
      readPrimitiveFromMemory o m ptr prim = .ok value := by
  rw [hrun]
  refine Stores.ok_bind ho.requireMemory_eq ?_
  refine Stores.ok_bind hbytes ?_
  refine Stores.mono (number_stores hholds harea hv) (fun _ h => h) fun _ m h => ?_
  rw [hread, h, Lib.ok_bind, hback]

theorem setWidth_signExtend {w : Nat} (v : BitVec w) (hw : w ≤ 32) :
    (v.signExtend 32).setWidth w = v := by
  apply BitVec.eq_of_getLsbD_eq
  intro i hi
  rw [BitVec.getLsbD_setWidth, BitVec.getLsbD_signExtend]
  simp [hi, Nat.lt_of_lt_of_le hi hw]

theorem setWidth_setWidth {w : Nat} (v : BitVec w) (hw : w ≤ 32) :
    (v.setWidth 32).setWidth w = v := by
  rw [BitVec.setWidth_setWidth_of_le v hw, BitVec.setWidth_eq]

theorem string_stores (ho : Reaches alloc o) {s : String} {ptr : Nat}
    (hfits : StringFits s (o.stringEncoding.getD .utf8)) (hholds : alloc.Holds w.guest B)
    (harea : Area B w ptr 8) :
    Stores alloc B (Span ptr 8) (writePrimitiveToMemory o (.string s) .string ptr) w fun _ m =>
      readPrimitiveFromMemory o m ptr .string = .ok (.string s) := by
  refine Stores.ok_bind ho.requireMemory_eq ?_
  refine Stores.bind_new harea.covered (lowerString_stores ho hfits hholds) ?_
  rintro flat w₁ B₁ hholds₁ hgrown ⟨-, at_, len, rfl, -⟩
  refine Stores.mono (pair_stores hholds₁ (harea.mono hgrown)) (fun _ h => h) ?_
  rintro _ m ⟨hptr, hlen⟩ ⟨at', len', hflat, hread⟩
  cases hflat
  have hnext : u32Add ptr 4 = ptr + 4 := u32Add_eq (by have := harea.inBounds.1; omega)
  unfold readPrimitiveFromMemory
  dsimp only
  rw [hptr, Lib.ok_bind, hnext, hlen, Lib.ok_bind, hread]
  rfl

theorem primitive_stores (ho : Reaches alloc o) {prim : PrimValType} {value : ComponentValue}
    {ptr : Nat} (htyped : PrimTyped (o.stringEncoding.getD .utf8) prim value)
    (hholds : alloc.Holds w.guest B) (harea : Area B w ptr (memoryAbiForPrimitive prim).size) :
    Stores alloc B (Span ptr (memoryAbiForPrimitive prim).size)
      (writePrimitiveToMemory o value prim ptr) w fun _ m =>
        readPrimitiveFromMemory o m ptr prim = .ok value := by
  have height : (8 : Nat) ≤ 8 * 1 := by decide
  have hsixteen : (16 : Nat) ≤ 8 * 2 := by decide
  have hword : (32 : Nat) ≤ 8 * 4 := by decide
  have hlong : (64 : Nat) ≤ 8 * 8 := by decide
  cases htyped with
  | bool b =>
      refine plain_stores (x := if b then (1 : BitVec 8) else 0) ho rfl (fun _ => rfl) ?_ height ?_
        hholds harea
      · cases b <;> rfl
      · cases b <;> rfl
  | s8 v =>
      refine plain_stores ho rfl (fun _ => rfl) rfl height ?_ hholds harea
      rw [setWidth_signExtend v (by decide)]
      rfl
  | u8 v =>
      refine plain_stores ho rfl (fun _ => rfl) rfl height ?_ hholds harea
      rw [setWidth_setWidth v (by decide)]
      rfl
  | s16 v =>
      refine plain_stores ho rfl (fun _ => rfl) rfl hsixteen ?_ hholds harea
      rw [setWidth_signExtend v (by decide)]
      rfl
  | u16 v =>
      refine plain_stores ho rfl (fun _ => rfl) rfl hsixteen ?_ hholds harea
      rw [setWidth_setWidth v (by decide)]
      rfl
  | s32 v => exact plain_stores ho rfl (fun _ => rfl) rfl hword rfl hholds harea
  | u32 v => exact plain_stores ho rfl (fun _ => rfl) rfl hword rfl hholds harea
  | s64 v => exact plain_stores ho rfl (fun _ => rfl) rfl hlong rfl hholds harea
  | u64 v => exact plain_stores ho rfl (fun _ => rfl) rfl hlong rfl hholds harea
  | f32 bits => exact plain_stores ho rfl (fun _ => rfl) rfl hword rfl hholds harea
  | f64 bits => exact plain_stores ho rfl (fun _ => rfl) rfl hlong rfl hholds harea
  | char c =>
      refine plain_stores ho rfl (fun _ => rfl) rfl hword ?_ hholds harea
      rw [BitVec.setWidth_eq, charFromU32_toNat]
      rfl
  | string s hfits => exact string_stores ho hfits hholds harea

section level

variable {p : Program M} {typed : ValType → ComponentValue → Prop} {low : Lowering σ}
  {lift : LinearMemory → Lifting}

/-- What is lowered one level down to memory is lifted again. -/
structure LevelStores (alloc : Allocator σ) (p : Program M) (typed : ValType → ComponentValue → Prop)
    (low : Lowering σ) (lift : LinearMemory → Lifting) : Prop where
  known : ∀ {ty value}, typed ty value → p.Known ty
  size_mod : ∀ {ty value}, typed ty value → (p.abi ty).size % (p.abi ty).align = 0
  memory : ∀ {ty value ptr w B}, typed ty value → alloc.Holds w.guest B →
    Area B w ptr (p.abi ty).size →
      Stores alloc B (Span ptr (p.abi ty).size) (low.memory value ty ptr) w fun _ m =>
        (lift m).memory ty ptr = .ok value

theorem fields_stores (h : LevelStores alloc p typed low lift) {fields : List LabelValType}
    {values : List ComponentValue}
    (htyped : List.Forall₂ (fun field value => typed field.ty value) fields values)
    (ptr total cursor : Nat) (hend : p.fieldsEnd cursor fields ≤ total)
    (hlt : ptr + total < 2 ^ 32) (hholds : alloc.Holds w.guest B)
    (harea : Area B w (ptr + cursor) (ptr + total - (ptr + cursor))) :
    Stores alloc B (Span (ptr + cursor) (ptr + total - (ptr + cursor)))
      (writeFields p low ptr cursor values fields) w fun _ m =>
        readFields p (lift m) ptr cursor fields = .ok values := by
  induction htyped generalizing cursor w B with
  | nil => exact Stores.pure hholds fun _ => rfl
  | @cons field value fields values hvalue _ ih =>
      have habi := Program.memoryAbiForValtype_eq (h.known hvalue)
      have hpos := p.abi_align_pos field.ty
      have hstart := le_alignUp cursor (p.abi field.ty).align
      unfold Program.fieldsEnd at hend
      have hnext := Program.le_fieldsEnd (p := p) fields
        (alignUp cursor (p.abi field.ty).align + (p.abi field.ty).size)
      have halign : alignTo cursor (max (p.abi field.ty).align 1) =
          alignUp cursor (p.abi field.ty).align := by
        rw [Nat.max_eq_left hpos, alignTo_eq (by omega)]
      have hadd : saturatingAdd (alignUp cursor (p.abi field.ty).align) (p.abi field.ty).size =
          alignUp cursor (p.abi field.ty).align + (p.abi field.ty).size :=
        Nat.min_eq_left (by omega)
      have hptr : u32Add ptr (alignUp cursor (p.abi field.ty).align) =
          ptr + alignUp cursor (p.abi field.ty).align := u32Add_eq (by omega)
      unfold writeFields
      refine Stores.ok_bind habi ?_
      dsimp only
      rw [halign, hadd, hptr]
      refine Stores.bind_next (ptr + (alignUp cursor (p.abi field.ty).align + (p.abi field.ty).size))
        harea (by omega) (by omega) (by omega)
        (h.memory hvalue hholds (harea.sub (by omega) (by omega))) ?_
      intro _ w₁ B₁ hholds₁ harea₁ _
      refine Stores.mono (ih _ hend hholds₁ (harea₁.sub (by omega) (by omega))) (fun _ h => h) ?_
      intro _ m hfields hfirst
      unfold readFields
      rw [habi, Lib.ok_bind, halign]
      dsimp only
      rw [hptr, hfirst, Lib.ok_bind, hadd, hfields]
      rfl

theorem lookup_zip {keys : List String} {values : List ComponentValue} (hkeys : keys.Nodup)
    (hlen : keys.length = values.length) :
    List.Forall₂ (fun key value => (keys.zip values).lookup key = some value) keys values := by
  refine List.forall₂_iff_zip.mpr ⟨hlen, fun hmem => (Lib.lookup_eq_some_iff ?_).mpr hmem⟩
  rwa [List.map_fst_zip (Nat.le_of_eq hlen)]

theorem recordValues_recordValue {fields : List LabelValType} {values : List ComponentValue}
    (hlabels : (fields.map (·.label)).Nodup) (hlen : fields.length = values.length) :
    recordValues fields (recordValue fields values) = .ok values := by
  unfold recordValues recordValue
  split
  · rfl
  · apply Lib.mapM_eq_ok.mpr
    have hlookup := lookup_zip hlabels (by simpa using hlen)
    rw [List.forall₂_map_left_iff] at hlookup
    refine hlookup.imp fun field value hvalue => ?_
    rw [fieldValue, hvalue]

theorem record_stores (h : LevelStores alloc p typed low lift) {id ptr : Nat}
    {fields : List LabelValType} {value : ComponentValue}
    (hty : p.arena.types[id]? = some (.defVal (.record fields)))
    (htyped : RecordTyped p typed fields value) (hholds : alloc.Holds w.guest B)
    (harea : Area B w ptr (p.abi (.type id)).size) :
    Stores alloc B (Span ptr (p.abi (.type id)).size)
      (writeRecordValueToMemory p low fields value ptr) w fun _ m =>
        readRecordValueFromMemory p (lift m) fields ptr = .ok value := by
  obtain ⟨values, rfl, hvalues⟩ := htyped.values
  have hsize := (Program.abi_record hty htyped.fits).1
  have hend := le_alignUp (p.fieldsEnd 0 fields) (p.fieldsAlign fields)
  have hspan : ptr + (p.abi (.type id)).size - (ptr + 0) = (p.abi (.type id)).size := by omega
  refine Stores.ok_bind (recordValues_recordValue htyped.labels hvalues.length_eq) ?_
  have hfields := fields_stores h hvalues ptr (p.abi (.type id)).size 0 (by omega)
    harea.inBounds.1 hholds (by rwa [hspan])
  rw [hspan] at hfields
  refine Stores.mono hfields (fun _ h => h) fun _ m hread => ?_
  unfold readRecordValueFromMemory
  rw [hread]
  rfl

section variants

variable {cases : List Case} {case : Case} {payload : Option ComponentValue} {index : Nat}

theorem findCase_label (hlabels : (cases.map (·.label)).Nodup) (hcase : cases[index]? = some case) :
    findCase cases case.label = .ok (index, case) := by
  have hmem : (case, index) ∈ cases.zipIdx := List.mem_zipIdx_iff_getElem?.mpr hcase
  unfold findCase
  cases hfind : cases.zipIdx.find? fun entry => entry.1.label == case.label with
  | none => exact absurd (List.find?_eq_none.mp hfind _ hmem) (by simp)
  | some entry =>
      obtain ⟨case', index'⟩ := entry
      have hcase' := List.mem_zipIdx_iff_getElem?.mp (List.mem_of_find?_eq_some hfind)
      have hlabel : case'.label = case.label := by simpa using List.find?_some hfind
      have hget : (cases.map (·.label))[index]? = some case.label := by simp [hcase]
      have hget' : (cases.map (·.label))[index']? = some case.label := by simp [hcase', hlabel]
      obtain ⟨hlt, hat⟩ := List.getElem?_eq_some_iff.mp hget
      obtain ⟨hlt', hat'⟩ := List.getElem?_eq_some_iff.mp hget'
      obtain rfl := hlabels.getElem_inj_iff.mp (hat.trans hat'.symm)
      rw [hcase] at hcase'
      obtain rfl := Option.some.inj hcase'
      rfl

theorem isOptionCases_eq (h : isOptionCases cases = true) :
    ∃ ty, cases = [⟨"none", none⟩, ⟨"some", some ty⟩] := by
  unfold isOptionCases at h
  split at h
  · simp only [Bool.and_eq_true, beq_iff_eq] at h
    obtain ⟨rfl, rfl⟩ := h
    exact ⟨_, rfl⟩
  · cases h

theorem isResultCases_eq (h : isResultCases cases = true) :
    ∃ ok err, cases = [⟨"ok", ok⟩, ⟨"err", err⟩] := by
  unfold isResultCases at h
  split at h
  · simp only [Bool.and_eq_true, beq_iff_eq] at h
    obtain ⟨rfl, rfl⟩ := h
    exact ⟨_, _, rfl⟩
  · cases h

/-- The payload of a case as the two halves of lowering see it. -/
def chosenPayload (case : Case) (payload : Option ComponentValue) :
    Option (ValType × ComponentValue) :=
  case.ty.bind fun ty => payload.map fun value => (ty, value)

theorem casePayload_given (htyped : PayloadTyped typed case.ty payload) :
    casePayload cases case payload = .ok (chosenPayload case payload) := by
  unfold casePayload chosenPayload
  cases hty : case.ty <;> cases payload <;> first | rfl | (rw [hty] at htyped; cases htyped)

theorem resultPayload_given (hresult : isResultCases cases = true)
    (htyped : PayloadTyped typed case.ty payload) : ∃ given,
      (if case.ty.isNone then some (.tuple []) else payload) = some given ∧
        casePayload cases case (some given) = .ok (chosenPayload case payload) := by
  cases hty : case.ty with
  | none =>
      refine ⟨.tuple [], rfl, ?_⟩
      unfold casePayload chosenPayload
      rw [hty]
      simp [hresult, isEmptyTuple]
  | some ty =>
      cases payload with
      | none =>
          rw [hty] at htyped
          cases htyped
      | some value => exact ⟨value, rfl, casePayload_given htyped⟩

/-- What is to be lowered for a case comes from the value that lifting makes of it. -/
theorem variantParts_caseValue (hmem : case ∈ cases)
    (htyped : PayloadTyped typed case.ty payload) : ∃ given,
      variantParts cases (caseValue cases case payload) = .ok (case.label, given) ∧
        casePayload cases case given = .ok (chosenPayload case payload) := by
  unfold caseValue
  split
  · rename_i hoption
    obtain ⟨ty, rfl⟩ := isOptionCases_eq hoption
    refine ⟨payload, ?_, casePayload_given htyped⟩
    rcases List.mem_pair.mp hmem with rfl | rfl
    · cases payload with
      | none => rfl
      | some value => cases htyped
    · cases payload with
      | none => cases htyped
      | some value => rfl
  · split
    · rename_i hresult
      obtain ⟨given, hgiven, hpayload⟩ := resultPayload_given hresult htyped
      refine ⟨some given, ?_, hpayload⟩
      obtain ⟨ok, err, rfl⟩ := isResultCases_eq hresult
      dsimp only
      rw [hgiven]
      rcases List.mem_pair.mp hmem with rfl | rfl <;> rfl
    · split
      · rename_i henum
        refine ⟨none, rfl, ?_⟩
        have hnone : case.ty = none := by
          have hall := (Bool.and_eq_true _ _ ▸ henum).2
          simpa using List.all_eq_true.mp hall case hmem
        unfold casePayload chosenPayload
        rw [hnone]
        rfl
      · exact ⟨payload, rfl, casePayload_given htyped⟩

theorem discriminantBytes_cases (caseCount : Nat) :
    discriminantBytes caseCount = 1 ∧ caseCount ≤ 2 ^ 8 ∨
      discriminantBytes caseCount = 2 ∧ caseCount ≤ 2 ^ 16 ∨ discriminantBytes caseCount = 4 := by
  unfold discriminantBytes
  split
  · exact Or.inl ⟨rfl, by assumption⟩
  · split
    · exact Or.inr (Or.inl ⟨rfl, by assumption⟩)
    · exact Or.inr (Or.inr rfl)

theorem signExtend_index (hindex : index < 2 ^ 31) :
    ((BitVec.ofNat 32 index).signExtend 64).toNat = index := by
  have hnat : (BitVec.ofNat 32 index).toNat = index := toNat_ofNat_of_lt (by omega)
  have hmsb : (BitVec.ofNat 32 index).msb = false := by
    rw [BitVec.msb_eq_false_iff_two_mul_lt, hnat]
    omega
  rw [BitVec.signExtend_eq_setWidth_of_msb_false hmsb, BitVec.toNat_setWidth, hnat]
  omega

theorem discriminant_stores {ptr : Nat} (hcount : cases.length ≤ 2 ^ 31) (hindex : index < cases.length)
    (hholds : alloc.Holds w.guest B) (harea : Area B w ptr (discriminantBytes cases.length)) :
    Stores alloc B (Span ptr (discriminantBytes cases.length))
      (writeVariantDiscriminantToMemory ptr cases.length index) w fun _ m =>
        readVariantDiscriminantFromMemory m ptr cases.length = .ok index := by
  have hsize := @Program.variantDiscriminantSize_ok cases (by omega)
  refine Stores.ok_bind hsize ?_
  unfold readVariantDiscriminantFromMemory
  simp only [hsize, Lib.ok_bind]
  rcases discriminantBytes_cases cases.length with ⟨hbytes, hle⟩ | ⟨hbytes, hle⟩ | hbytes
  · rw [hbytes] at harea ⊢
    refine Stores.mono (number_stores (v := 8) hholds harea (by decide)) (fun _ h => h) fun _ m h => ?_
    simp only [readU8FromMemory, h, Lib.ok_bind, BitVec.toNat_setWidth]
    rw [toNat_ofNat_of_lt (by omega), Nat.mod_eq_of_lt (by omega)]
    rfl
  · rw [hbytes] at harea ⊢
    refine Stores.mono (number_stores (v := 16) hholds harea (by decide)) (fun _ h => h) fun _ m h => ?_
    simp only [readU16FromMemory, h, Lib.ok_bind, BitVec.toNat_setWidth]
    rw [toNat_ofNat_of_lt (by omega), Nat.mod_eq_of_lt (by omega)]
    rfl
  · rw [hbytes] at harea ⊢
    refine Stores.mono (number_stores (v := 32) hholds harea (by decide)) (fun _ h => h) fun _ m h => ?_
    simp only [readI32FromMemory, h, Lib.ok_bind, BitVec.setWidth_eq]
    rw [signExtend_index (by omega)]
    rfl

theorem casePayload_stores (h : LevelStores alloc p typed low lift) {ptr : Nat}
    (hmem : case ∈ cases) (htyped : PayloadTyped typed case.ty payload)
    (hholds : alloc.Holds w.guest B) (harea : Area B w ptr (p.payloadSize cases)) :
    Stores alloc B (Span ptr (p.payloadSize cases))
      (do clearPayload ptr (p.payloadSize cases)
          writeCasePayload low ptr (chosenPayload case payload)) w fun _ m =>
        readCasePayload (lift m) ptr case.ty = .ok payload := by
  have hclear : Stores alloc B (Span ptr (p.payloadSize cases))
      (clearPayload ptr (p.payloadSize cases)) w fun _ _ => True := by
    unfold clearPayload
    split
    · have hlen : (List.replicate (p.payloadSize cases) (0 : Byte)).length = p.payloadSize cases :=
        List.length_replicate
      refine Stores.mono (Stores.writeMemory hholds (by rwa [hlen])) ?_ fun _ _ _ => trivial
      rw [hlen]
      exact fun _ h => h
    · exact Stores.pure hholds fun _ => trivial
  refine Stores.bind_forget hclear ?_
  intro _ w₁ B₁ hholds₁ hgrown
  unfold chosenPayload
  cases hty : case.ty with
  | none =>
      cases payload with
      | none => exact Stores.pure hholds₁ fun _ => rfl
      | some value =>
          rw [hty] at htyped
          cases htyped
  | some ty =>
      cases payload with
      | none =>
          rw [hty] at htyped
          cases htyped
      | some value =>
          rw [hty] at htyped
          have hle := Program.size_le_payloadSize (p := p) hmem hty
          have hstored := h.memory htyped hholds₁
            ((harea.mono hgrown).sub (Nat.le_refl ptr) (by omega))
          refine Stores.mono hstored (fun addr hspan => hspan.sub (Nat.le_refl _) (by omega)) ?_
          intro _ m hread
          simp only [readCasePayload, hread, Lib.ok_bind]
          rfl

theorem variant_stores (h : LevelStores alloc p typed low lift) {id ptr : Nat}
    {value : ComponentValue} (hty : p.arena.types[id]? = some (.defVal (.variant cases)))
    (htyped : VariantTyped p typed cases value) (hholds : alloc.Holds w.guest B)
    (harea : Area B w ptr (p.abi (.type id)).size) :
    Stores alloc B (Span ptr (p.abi (.type id)).size)
      (writeVariantValueToMemory p low cases value ptr) w fun _ m =>
        readVariantValueFromMemory p m (lift m) cases ptr = .ok value := by
  obtain ⟨case, hmem, payload, rfl, hpayload⟩ := htyped.chosen
  obtain ⟨index, hindex⟩ := List.getElem?_of_mem hmem
  obtain ⟨given, hparts, hgiven⟩ := variantParts_caseValue hmem hpayload
  have hlt := (List.getElem?_eq_some_iff.mp hindex).1
  have hsize := (Program.abi_variant hty htyped.fits).1
  have hend := le_alignUp (p.payloadOffset cases + p.payloadSize cases) (p.payloadAlign cases)
  have hbegin := Program.discriminant_fits (p := p) cases
  have hbounds := harea.inBounds.1
  have hknown : ∀ case ∈ cases, ∀ ty, case.ty = some ty → p.Known ty := fun case hmem ty hcase =>
    Program.known_of_refs hty (DefValType.case_refs hmem hcase)
  have hoffset := Program.variantPayloadOffsetAndSize_eq htyped.fits.count hknown
  have hptr : u32Add ptr (p.payloadOffset cases) = ptr + p.payloadOffset cases :=
    u32Add_eq (by omega)
  have hspan : ptr + (p.abi (.type id)).size - ptr = (p.abi (.type id)).size := by omega
  refine Stores.ok_bind hparts ?_
  refine Stores.ok_bind (findCase_label htyped.labels hindex) ?_
  rw [← hspan] at harea ⊢
  refine Stores.bind_next (ptr + p.payloadOffset cases) harea (Nat.le_refl _) (by omega) (by omega)
    (discriminant_stores htyped.count hlt hholds (harea.sub (Nat.le_refl _) (by omega))) ?_
  intro _ w₁ B₁ hholds₁ harea₁ _
  refine Stores.ok_bind hoffset ?_
  simp only [hgiven, hptr, Lib.lift_ok_bind]
  refine Stores.mono (casePayload_stores h hmem hpayload hholds₁
    (harea₁.sub (by omega) (by omega))) (fun addr hspan => hspan.sub (by omega) (by omega)) ?_
  intro _ m hread hdiscriminant
  unfold readVariantValueFromMemory
  have hcase : caseAt cases index = .ok case := by
    unfold caseAt
    rw [hindex]
  simp only [hdiscriminant, hcase, hoffset, hptr, hread, Lib.ok_bind]
  rfl

end variants

section flags

variable {labels : List Label} {words : List (BitVec 32)}

theorem flagsMemoryAbi_cases {count : Nat} (hfits : count + 31 < 2 ^ 32) :
    ((flagsMemoryAbi count).size = 0 ∧ count = 0) ∨ ((flagsMemoryAbi count).size = 1 ∧ count ≤ 8) ∨
      ((flagsMemoryAbi count).size = 2 ∧ count ≤ 16) ∨
        ∃ more, (flagsMemoryAbi count).size = more + 3 ∧ more + 3 = 4 * ((count + 31) / 32) := by
  unfold flagsMemoryAbi
  split
  · exact Or.inl ⟨rfl, by assumption⟩
  · split
    · exact Or.inr (Or.inl ⟨rfl, by assumption⟩)
    · split
      · exact Or.inr (Or.inr (Or.inl ⟨rfl, by assumption⟩))
      · refine Or.inr (Or.inr (Or.inr ⟨4 * ((count + 31) / 32) - 3, ?_, by omega⟩))
        dsimp only
        omega

def flagBit (words : List (BitVec 32)) (index : Nat) : Bool :=
  (words.getD (index / 32) 0).getLsbD (index % 32)

theorem flagBit_modify {index other : Nat} (hlt : index / 32 < words.length) :
    flagBit (words.modify (index / 32) (· ||| (1 <<< (index % 32)))) other =
      (flagBit words other || decide (other = index)) := by
  have hone : ((1 <<< (index % 32) : Nat) : BitVec 32) = BitVec.twoPow 32 (index % 32) := by
    apply BitVec.eq_of_toNat_eq
    rw [Nat.one_shiftLeft, BitVec.natCast_eq_ofNat, BitVec.toNat_ofNat, BitVec.toNat_twoPow]
  unfold flagBit
  rw [List.getD_eq_getElem?_getD, List.getD_eq_getElem?_getD, List.getElem?_modify,
    Option.map_eq_map]
  by_cases hword : index / 32 = other / 32
  · have hsame : (index % 32 = other % 32) = (other = index) := by
      apply propext
      omega
    have hbit : index % 32 < 32 := Nat.mod_lt _ (by decide)
    rw [← hword, List.getElem?_eq_getElem hlt]
    simp only [Option.map_some, Option.getD_some, if_true, hone, BitVec.getLsbD_or,
      BitVec.getLsbD_twoPow, hsame, hbit, decide_true, Bool.true_and]
  · have hne : other ≠ index := fun heq => hword (heq ▸ rfl)
    simp [hword, hne]

theorem foldlM_setFlag {selected : List Label} (hlabels : labels.Nodup)
    (hlen : labels.length ≤ 32 * words.length) (hsub : ∀ flag ∈ selected, flag ∈ labels) :
    ∃ words', selected.foldlM (setFlag labels) words = .ok words' ∧
      words'.length = words.length ∧ ∀ index label, labels[index]? = some label →
        flagBit words' index = (flagBit words index || decide (label ∈ selected)) := by
  induction selected generalizing words with
  | nil => exact ⟨words, rfl, rfl, by simp⟩
  | cons flag selected ih =>
      have hflag := hsub flag (List.mem_cons_self ..)
      have hset : ∃ at_, labels[at_]? = some flag ∧ setFlag labels words flag =
          .ok (words.modify (at_ / 32) (· ||| (1 <<< (at_ % 32)))) := by
        unfold setFlag
        cases hfind : labels.findIdx? (· == flag) with
        | none => exact absurd (List.findIdx?_eq_none_iff.mp hfind flag hflag) (by simp)
        | some at_ =>
            obtain ⟨hlt, heq, -⟩ := List.findIdx?_eq_some_iff_getElem.mp hfind
            exact ⟨at_, by simpa [hlt] using heq, rfl⟩
      obtain ⟨at_, hat, hset⟩ := hset
      have hlt := (List.getElem?_eq_some_iff.mp hat).1
      obtain ⟨words', hfold, hlen', hbits⟩ := @ih
        (words.modify (at_ / 32) (· ||| (1 <<< (at_ % 32)))) (by rwa [List.length_modify])
        fun flag hmem => hsub flag (List.mem_cons_of_mem _ hmem)
      refine ⟨words', ?_, by rw [hlen', List.length_modify], ?_⟩
      · rw [List.foldlM_cons, hset]
        exact hfold
      · intro index label hlabel
        rw [hbits index label hlabel, flagBit_modify (by omega)]
        have hsame : (index = at_) = (label = flag) := by
          obtain ⟨hindex, hget⟩ := List.getElem?_eq_some_iff.mp hlabel
          obtain ⟨hfirst, hget'⟩ := List.getElem?_eq_some_iff.mp hat
          rw [← hget, ← hget']
          exact propext hlabels.getElem_inj_iff.symm
        simp [hsame, Bool.or_assoc]

theorem selectedFlags_eq {chosen : Label → Bool}
    (hbits : ∀ index label, labels[index]? = some label → flagBit words index = chosen label) :
    selectedFlags labels words = labels.filter chosen := by
  have hfilter : (labels.zipIdx.filter fun entry => flagBit words entry.2) =
      labels.zipIdx.filter (chosen ∘ (·.1)) :=
    List.filter_congr fun entry hmem => hbits _ _ (List.mem_zipIdx_iff_getElem?.mp hmem)
  change (labels.zipIdx.filter fun entry => flagBit words entry.2).map (·.1) = _
  rw [hfilter, ← List.filter_map]
  simp

theorem readFlagsValueFromMemory_words {m : LinearMemory} {ptr more : Nat}
    (hsize : (flagsMemoryAbi labels.length).size = more + 3) :
    readFlagsValueFromMemory m labels ptr =
      (do let words ← readWords m ptr 0 ((labels.length + 31) / 32)
          return .flags (selectedFlags labels words)) := by
  unfold readFlagsValueFromMemory
  rw [hsize]
  rfl

theorem flagWords_filter {chosen : Label → Bool} (hlabels : labels.Nodup) :
    ∃ words, flagWords labels (.flags (labels.filter chosen)) = .ok words ∧
      words.length = flagsFlatLen labels ∧ ∀ index label, labels[index]? = some label →
        flagBit words index = chosen label := by
  have hroom : labels.length ≤ 32 * flagsFlatLen labels := by
    rw [flagsFlatLen_eq]
    omega
  obtain ⟨words, hfold, hlen, hbits⟩ := @foldlM_setFlag labels
    (List.replicate (flagsFlatLen labels) 0) (labels.filter chosen) hlabels
    (by rwa [List.length_replicate]) fun flag hmem => List.mem_of_mem_filter hmem
  refine ⟨words, hfold, by rw [hlen, List.length_replicate], ?_⟩
  intro index label hlabel
  have hmem := List.mem_of_getElem? hlabel
  have hclear : flagBit (List.replicate (flagsFlatLen labels) 0) index = false := by
    unfold flagBit
    rw [List.getD_eq_getElem?_getD, List.getElem?_replicate]
    split <;> simp
  rw [hbits index label hlabel, hclear]
  simp [hmem]

theorem flagBit_narrow {v index : Nat} (hv : v ≤ 32) (hindex : index < v) :
    flagBit [((words.headD 0).setWidth v).setWidth 32] index = flagBit words index := by
  have hword : index / 32 = 0 := Nat.div_eq_of_lt (by omega)
  have hbit : index % 32 = index := Nat.mod_eq_of_lt (by omega)
  have hlt : index < 32 := by omega
  unfold flagBit
  rw [hword, hbit]
  cases words <;> simp [hindex, hlt]

theorem words_stores {ptr : Nat} (index : Nat) (hholds : alloc.Holds w.guest B)
    (harea : Area B w (ptr + 4 * index) (4 * words.length)) :
    Stores alloc B (Span (ptr + 4 * index) (4 * words.length)) (writeWords ptr index words) w
      fun _ m => readWords m ptr index words.length = .ok words := by
  induction words generalizing index w B with
  | nil => exact Stores.pure hholds fun _ => rfl
  | cons word words ih =>
      have hbounds := harea.inBounds.1
      rw [List.length_cons] at harea hbounds ⊢
      have hwrite : u32Add ptr (index * 4 % 2 ^ 32) = ptr + 4 * index := by
        rw [Nat.mod_eq_of_lt (by omega), Nat.mul_comm, u32Add_eq (by omega)]
      have hread : u32Add ptr (index % 2 ^ 32 * 4 % 2 ^ 32) = ptr + 4 * index := by
        rw [Nat.mod_eq_of_lt (by omega : index < 2 ^ 32), hwrite]
      have hstop : 4 * (words.length + 1) =
          ptr + 4 * (index + 1 + words.length) - (ptr + 4 * index) := by omega
      have hrest : ptr + 4 * (index + 1 + words.length) - (ptr + 4 * (index + 1)) =
          4 * words.length := by omega
      unfold writeWords
      rw [hstop] at harea ⊢
      rw [hwrite]
      refine Stores.bind_next (ptr + 4 * (index + 1)) harea (Nat.le_refl _) (by omega) (by omega)
        (number_stores (v := 32) hholds (harea.sub (Nat.le_refl _) (by omega)) (by decide)) ?_
      intro _ w₁ B₁ hholds₁ harea₁ _
      rw [hrest]
      refine Stores.mono (ih (index + 1) hholds₁ (harea₁.sub (by omega) (by omega)))
        (fun _ h => h) fun _ m hwords hword => ?_
      unfold readWords
      rw [readI32FromMemory, hread, hword, Lib.ok_bind, BitVec.setWidth_eq, hwords]
      rfl

theorem flags_stores {ptr : Nat} {value : ComponentValue} (htyped : FlagsTyped labels value)
    (hholds : alloc.Holds w.guest B) (harea : Area B w ptr (flagsMemoryAbi labels.length).size) :
    Stores alloc B (Span ptr (flagsMemoryAbi labels.length).size)
      (writeFlagsValueToMemory labels value ptr) w fun _ m =>
        readFlagsValueFromMemory m labels ptr = .ok value := by
  obtain ⟨chosen, rfl⟩ := htyped.chosen
  obtain ⟨words, hwords, hlen, hbits⟩ :=
    @flagWords_filter labels chosen htyped.nodup
  have hnarrow : ∀ {v : Nat}, v ≤ 32 → labels.length ≤ v →
      selectedFlags labels [((words.headD 0).setWidth v).setWidth 32] = labels.filter chosen := by
    intro v hv hle
    refine selectedFlags_eq fun index label hlabel => ?_
    have hindex := (List.getElem?_eq_some_iff.mp hlabel).1
    rw [flagBit_narrow hv (by omega), hbits index label hlabel]
  refine Stores.ok_bind hwords ?_
  rcases flagsMemoryAbi_cases htyped.fits with ⟨hsize, hcount⟩ | ⟨hsize, hcount⟩ |
    ⟨hsize, hcount⟩ | ⟨more, hsize, hmore⟩
  · rw [hsize]
    refine Stores.pure hholds fun _ => ?_
    unfold readFlagsValueFromMemory
    obtain rfl := List.length_eq_zero_iff.mp hcount
    rfl
  · rw [hsize] at harea ⊢
    refine Stores.mono (number_stores (v := 8) hholds harea (by decide)) (fun _ h => h) ?_
    intro _ m h
    unfold readFlagsValueFromMemory
    simp only [hsize, readU8FromMemory, h, Lib.ok_bind, pure_bind]
    rw [hnarrow (by decide) hcount]
    rfl
  · rw [hsize] at harea ⊢
    refine Stores.mono (number_stores (v := 16) hholds harea (by decide)) (fun _ h => h) ?_
    intro _ m h
    unfold readFlagsValueFromMemory
    simp only [hsize, readU16FromMemory, h, Lib.ok_bind, pure_bind]
    rw [hnarrow (by decide) hcount]
    rfl
  · have hfour : more + 3 = 4 * words.length := by rw [hlen, flagsFlatLen_eq, hmore]
    rw [hsize] at harea ⊢
    change Stores alloc B _ (writeWords ptr 0 words) w _
    rw [hfour] at harea ⊢
    refine Stores.mono (words_stores 0 hholds harea) (fun _ h => h) fun _ m h => ?_
    rw [readFlagsValueFromMemory_words hsize, ← flagsFlatLen_eq, ← hlen, h, Lib.ok_bind,
      selectedFlags_eq hbits]
    rfl

end flags

section lists

variable {elem : ValType} {len : Option Nat} {values : List ComponentValue}

theorem elements_stores (h : LevelStores alloc p typed low lift) {ptr : Nat} (index : Nat)
    (htyped : ∀ value ∈ values, typed elem value) (hpos : 0 < (p.abi elem).size)
    (hholds : alloc.Holds w.guest B)
    (harea : Area B w (ptr + (p.abi elem).size * index) ((p.abi elem).size * values.length)) :
    Stores alloc B (Span (ptr + (p.abi elem).size * index) ((p.abi elem).size * values.length))
      (writeElements low elem ptr (p.abi elem).size index values) w fun _ m =>
        readElements (lift m) elem ptr (p.abi elem).size index values.length = .ok values := by
  induction values generalizing index w B with
  | nil => exact Stores.pure hholds fun _ => rfl
  | cons value values ih =>
      have hbounds := harea.inBounds.1
      have hvalue := htyped value (List.mem_cons_self ..)
      generalize hsize : (p.abi elem).size = size at *
      have hlen : size * (value :: values).length = size + size * values.length := by
        rw [List.length_cons, Nat.mul_succ, Nat.add_comm]
      have hnext : size * (index + 1) = size * index + size := Nat.mul_succ size index
      have hindex : index ≤ size * index := Nat.le_mul_of_pos_left index hpos
      have hwrite : u32Add ptr (size * (index % 2 ^ 32) % 2 ^ 32) = ptr + size * index := by
        rw [Nat.mod_eq_of_lt (by omega : index < 2 ^ 32), Nat.mod_eq_of_lt (by omega),
          u32Add_eq (by omega)]
      have hread : elementAddress ptr size index = .ok (ptr + size * index) := by
        unfold elementAddress
        rw [if_pos ⟨by omega, by omega⟩]
      have hstop : size + size * values.length =
          ptr + size * (index + 1) + size * values.length - (ptr + size * index) := by omega
      have hrest : ptr + size * (index + 1) + size * values.length - (ptr + size * (index + 1)) =
          size * values.length := by omega
      unfold writeElements
      rw [hlen, hstop] at harea ⊢
      rw [hwrite]
      refine Stores.bind_next (ptr + size * (index + 1)) harea (Nat.le_refl _) (by omega) (by omega)
        (hsize ▸ h.memory hvalue hholds (harea.sub (Nat.le_refl _) (by omega))) ?_
      intro _ w₁ B₁ hholds₁ harea₁ _
      rw [hrest]
      refine Stores.mono (ih (index + 1) (fun value hmem => htyped value (List.mem_cons_of_mem _ hmem))
        hholds₁ (harea₁.sub (by omega) (by omega))) (fun _ h => h) fun _ m hvalues hvalue => ?_
      rw [List.length_cons]
      unfold readElements
      rw [hread, Lib.ok_bind, hvalue, Lib.ok_bind, hvalues]
      rfl

theorem checkFixedLength_ok (hlen : ∀ expected, len = some expected → values.length = expected)
    (hlt : values.length < 2 ^ 32) :
    listValues len (.list values) = .ok values ∧
      checkFixedLength len (BitVec.ofNat 32 values.length) = .ok () := by
  cases len with
  | none => exact ⟨rfl, rfl⟩
  | some expected =>
      obtain rfl := hlen expected rfl
      unfold listValues checkFixedLength
      dsimp only
      rw [toNat_ofNat_of_lt hlt]
      exact ⟨if_neg (by simp), if_neg (by simp)⟩

theorem lowerListValue_stores (h : LevelStores alloc p typed low lift) (ho : Reaches alloc o)
    (hknown : p.Known elem) {value : ComponentValue} (htyped : ListTyped p typed elem len value)
    (hholds : alloc.Holds w.guest B) :
    Stores alloc B (fun _ => False) (lowerListValue p o low elem len value) w fun flat m =>
      ∃ ptr given : BitVec 32, flat = [.i32 ptr, .i32 given] ∧ checkFixedLength len given = .ok () ∧
        (do return .list (← readListElements p (lift m) elem ptr.toNat given)) =
          Except.ok value := by
  obtain ⟨values, rfl, hlen, hfits, hvalues⟩ := htyped
  have habi := Program.memoryAbiForValtype_eq hknown
  have halign := Nat.max_eq_left (p.abi_align_pos elem)
  have hlt : values.length < 2 ^ 32 := by
    cases values with
    | nil => decide
    | cons value values =>
        have hpos := (hvalues value (List.mem_cons_self ..)).2
        exact Nat.lt_of_le_of_lt (Nat.le_mul_of_pos_right _ hpos) hfits
  obtain ⟨hgiven, hcheck⟩ := checkFixedLength_ok hlen hlt
  have hstride : elementStride p elem = .ok (alignTo (p.abi elem).size (p.abi elem).align) := by
    unfold elementStride
    rw [habi, Lib.ok_bind, halign]
    rfl
  refine Stores.ok_bind hgiven ?_
  refine Stores.ok_bind ho.requireRealloc_eq ?_
  refine Stores.ok_bind habi ?_
  dsimp only
  rw [halign, Nat.mod_eq_of_lt hlt]
  by_cases hnil : values = []
  · subst hnil
    have hempty : saturatingMul (alignTo (p.abi elem).size (p.abi elem).align) 0 = 0 := by
      simp [saturatingMul]
    rw [List.length_nil, hempty, allocateList, if_pos rfl, pure_bind]
    refine Stores.pure hholds fun m => ⟨_, _, rfl, hcheck, ?_⟩
    unfold readListElements
    rw [hstride, Lib.ok_bind, if_neg (by simp)]
    rfl
  · obtain ⟨first, hfirst⟩ := List.exists_mem_of_ne_nil values hnil
    obtain ⟨hvalue, hpos⟩ := hvalues first hfirst
    have hmul := Nat.mul_comm values.length (p.abi elem).size
    have htotal : saturatingMul (p.abi elem).size values.length =
        (p.abi elem).size * values.length := Nat.min_eq_left (by omega)
    have hsome : (p.abi elem).size * values.length ≠ 0 :=
      Nat.mul_ne_zero (by omega) (by simpa using hnil)
    rw [alignTo_of_mod (h.size_mod hvalue)] at hstride ⊢
    rw [htotal, allocateList, if_neg hsome]
    refine Stores.allocate_bind hholds (p.abi_align elem) (by omega) ?_
    intro ptr w₁ hholds₁ _ harea _
    have hstores := elements_stores h 0 (fun value hmem => (hvalues value hmem).1) hpos hholds₁ harea
    refine Stores.bind_pure (Stores.mono hstores (fun _ h => Or.inr h) fun _ _ h => h) ?_
    intro _ m hread
    have hptr : (BitVec.ofNat 32 ptr).toNat = ptr :=
      toNat_ofNat_of_lt (Nat.lt_of_le_of_lt (Nat.le_add_right _ _) harea.inBounds.1)
    refine ⟨_, _, rfl, hcheck, ?_⟩
    unfold readListElements
    rw [hstride, Lib.ok_bind, if_neg (by omega), hptr, toNat_ofNat_of_lt hlt, hread]
    rfl

theorem list_stores (h : LevelStores alloc p typed low lift) (ho : Reaches alloc o) {ptr : Nat}
    (hknown : p.Known elem) {value : ComponentValue} (htyped : ListTyped p typed elem len value)
    (hholds : alloc.Holds w.guest B) (harea : Area B w ptr 8) :
    Stores alloc B (Span ptr 8)
      (do writeFlatValues ptr (← lowerListValue p o low elem len value)) w fun _ m =>
        readListValueFromMemory p m (lift m) elem len ptr = .ok value := by
  refine Stores.bind_new harea.covered (lowerListValue_stores h ho hknown htyped hholds) ?_
  rintro flat w₁ B₁ hholds₁ hgrown ⟨-, at_, given, rfl, -, -⟩
  refine Stores.mono (pair_stores hholds₁ (harea.mono hgrown)) (fun _ h => h) ?_
  rintro _ m ⟨hptr, hgiven⟩ ⟨at', given', hflat, hcheck, hread⟩
  cases hflat
  have hnext : lengthAddress ptr = .ok (ptr + 4) := by
    unfold lengthAddress
    rw [if_pos (by have := harea.inBounds.1; omega)]
  unfold readListValueFromMemory
  rw [hptr, Lib.ok_bind, hnext, Lib.ok_bind, hgiven, Lib.ok_bind, hcheck, Lib.ok_bind]
  exact hread

end lists

theorem handle_stores {ptr : Nat} {handle : BitVec 32} {value : ComponentValue}
    (hvalue : expectHandle value = .ok handle) (hholds : alloc.Holds w.guest B)
    (harea : Area B w ptr 4) :
    Stores alloc B (Span ptr 4) (do writeMemory ptr (toLeBytes 4 (← expectHandle value))) w
      fun _ m => readI32FromMemory m ptr = .ok handle := by
  refine Stores.ok_bind hvalue ?_
  refine Stores.mono (number_stores (v := 32) hholds harea (by decide)) (fun _ h => h) ?_
  intro _ m h
  rwa [BitVec.setWidth_eq] at h

theorem defined_stores (h : LevelStores alloc p typed low lift) (ho : Reaches alloc o)
    {id ptr : Nat} {value : ComponentValue} {ty : Ty M} (hty : p.arena.types[id]? = some ty)
    (htyped : TypeTyped p typed (o.stringEncoding.getD .utf8) value ty)
    (hholds : alloc.Holds w.guest B) (harea : Area B w ptr (p.abi (.type id)).size) :
    Stores alloc B (Span ptr (p.abi (.type id)).size) (writeDefinedValueToMemory p o low value id ptr)
      w fun _ m => readDefinedValueFromMemory p o m (lift m) id ptr = .ok value := by
  have hget : p.arena.get id = some ty := hty
  unfold writeDefinedValueToMemory readDefinedValueFromMemory
  refine Stores.ok_bind ho.requireMemory_eq ?_
  rw [hget]
  cases ty with
  | defVal ty =>
      cases ty with
      | primitive prim =>
          rw [Program.abi_prim hty] at harea ⊢
          exact primitive_stores ho htyped hholds harea
      | record fields => exact record_stores h hty htyped hholds harea
      | variant cases => exact variant_stores h hty htyped hholds harea
      | flags labels =>
          rw [Program.abi_flags hty] at harea ⊢
          exact flags_stores htyped hholds harea
      | list elem len =>
          rw [Program.abi_list hty] at harea ⊢
          exact list_stores h ho (Program.known_of_refs hty (List.Subset.refl _)) htyped hholds harea
      | own resource =>
          rw [Program.abi_own hty] at harea ⊢
          obtain ⟨hresource, handle, rfl⟩ := htyped
          refine Stores.ok_bind hresource ?_
          refine Stores.mono (handle_stores rfl hholds harea) (fun _ h => h) fun _ m hread => ?_
          simp only [hresource, hread, Lib.ok_bind]
          rfl
      | borrow resource =>
          rw [Program.abi_borrow hty] at harea ⊢
          obtain ⟨hresource, handle, rfl⟩ := htyped
          refine Stores.ok_bind hresource ?_
          refine Stores.mono (handle_stores rfl hholds harea) (fun _ h => h) fun _ m hread => ?_
          simp only [hresource, hread, Lib.ok_bind]
          rfl
  | resource resource =>
      rw [Program.abi_resource hty] at harea ⊢
      obtain ⟨handle, rfl⟩ := htyped
      refine Stores.mono (handle_stores rfl hholds harea) (fun _ h => h) fun _ m hread => ?_
      simp only [hread, Lib.ok_bind]
      rfl
  | _ => exact False.elim htyped

theorem level_stores (ho : Reaches alloc o) (depth : Nat) :
    LevelStores alloc p (Typed p (o.stringEncoding.getD .utf8) depth) (lowering p o depth)
      fun m => lifting p o m depth := by
  induction depth with
  | zero =>
      refine ⟨Typed.known, Typed.size_mod, ?_⟩
      intro ty value ptr w B htyped hholds harea
      cases ty with
      | primitive prim =>
          rw [p.abi_primitive] at harea ⊢
          exact primitive_stores ho htyped hholds harea
      | type id => exact False.elim htyped
  | succ depth ih =>
      refine ⟨Typed.known, Typed.size_mod, ?_⟩
      intro ty value ptr w B htyped hholds harea
      cases ty with
      | primitive prim =>
          rw [p.abi_primitive] at harea ⊢
          exact primitive_stores ho htyped hholds harea
      | type id =>
          obtain ⟨ty, hty, htyped⟩ := htyped
          exact defined_stores ih ho hty htyped hholds harea

end level

end stores

end Telomere.Component
