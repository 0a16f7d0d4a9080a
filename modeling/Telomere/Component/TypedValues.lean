import Telomere.Component.Layout
import Telomere.Component.StringCodec

/-!
# Values of a type

Which component values lifting returns for a type, and when they are small enough for the 32-bit
layout. A lowered value of a type is to come back as it was.
-/

namespace Telomere.Component

variable {M σ : Type}

inductive PrimTyped (encoding : CanonicalStringEncoding) : PrimValType → ComponentValue → Prop where
  | bool (v : Bool) : PrimTyped encoding .bool (.bool v)
  | s8 (v : BitVec 8) : PrimTyped encoding .s8 (.s8 v)
  | u8 (v : BitVec 8) : PrimTyped encoding .u8 (.u8 v)
  | s16 (v : BitVec 16) : PrimTyped encoding .s16 (.s16 v)
  | u16 (v : BitVec 16) : PrimTyped encoding .u16 (.u16 v)
  | s32 (v : BitVec 32) : PrimTyped encoding .s32 (.s32 v)
  | u32 (v : BitVec 32) : PrimTyped encoding .u32 (.u32 v)
  | s64 (v : BitVec 64) : PrimTyped encoding .s64 (.s64 v)
  | u64 (v : BitVec 64) : PrimTyped encoding .u64 (.u64 v)
  | f32 (bits : BitVec 32) : PrimTyped encoding .f32 (.f32 bits)
  | f64 (bits : BitVec 64) : PrimTyped encoding .f64 (.f64 bits)
  | char (v : Char) : PrimTyped encoding .char (.char v)
  | string (v : String) (fits : StringFits v encoding) : PrimTyped encoding .string (.string v)

section level

variable (p : Program M) (below : ValType → ComponentValue → Prop)

structure RecordTyped (fields : List LabelValType) (value : ComponentValue) : Prop where
  fits : p.RecordFits fields
  labels : (fields.map (·.label)).Nodup
  values : ∃ values, value = recordValue fields values ∧
    List.Forall₂ (fun field value => below field.ty value) fields values

def PayloadTyped : Option ValType → Option ComponentValue → Prop
  | some ty, some value => below ty value
  | none, none => True
  | _, _ => False

/-- A discriminant of four bytes is read as a signed number. -/
structure VariantTyped (cases : List Case) (value : ComponentValue) : Prop where
  fits : p.VariantFits cases
  labels : (cases.map (·.label)).Nodup
  count : cases.length ≤ 2 ^ 31
  chosen : ∃ case ∈ cases, ∃ payload, value = caseValue cases case payload ∧
    PayloadTyped below case.ty payload

structure FlagsTyped (labels : List Label) (value : ComponentValue) : Prop where
  fits : labels.length + 31 < 2 ^ 32
  nodup : labels.Nodup
  chosen : ∃ chosen : Label → Bool, value = .flags (labels.filter chosen)

structure ListTyped (elem : ValType) (len : Option Nat) (value : ComponentValue) : Prop where
  values : ∃ values, value = .list values ∧ (∀ expected, len = some expected →
    values.length = expected) ∧ values.length * (p.abi elem).size < 2 ^ 32 ∧
      ∀ value ∈ values, below elem value ∧ 0 < (p.abi elem).size

def DefTyped (encoding : CanonicalStringEncoding) (value : ComponentValue) : DefValType → Prop
  | .primitive prim => PrimTyped encoding prim value
  | .record fields => RecordTyped p below fields value
  | .variant cases => VariantTyped p below cases value
  | .flags labels => FlagsTyped labels value
  | .list elem len => ListTyped p below elem len value
  | .own resource =>
      validateResourceType p.arena.types p.arena.types.length resource = .ok () ∧
        ∃ handle, value = .own handle
  | .borrow resource =>
      validateResourceType p.arena.types p.arena.types.length resource = .ok () ∧
        ∃ handle, value = .borrow handle

def TypeTyped (encoding : CanonicalStringEncoding) (value : ComponentValue) : Ty M → Prop
  | .defVal ty => DefTyped p below encoding value ty
  | .resource _ => ∃ handle, value = .own handle
  | _ => False

end level

/-- `depth` bounds how far the references of types are followed. -/
def Typed (p : Program M) (encoding : CanonicalStringEncoding) :
    Nat → ValType → ComponentValue → Prop
  | _, .primitive prim, value => PrimTyped encoding prim value
  | 0, .type _, _ => False
  | depth + 1, .type id, value =>
      ∃ ty, p.arena.types[id]? = some ty ∧ TypeTyped p (Typed p encoding depth) encoding value ty

theorem Typed.known {p : Program M} {encoding : CanonicalStringEncoding} {depth : Nat}
    {ty : ValType} {value : ComponentValue} (h : Typed p encoding depth ty value) : p.Known ty := by
  cases ty with
  | primitive prim => simp [Program.Known, ValType.refs]
  | type id =>
      cases depth with
      | zero => exact False.elim h
      | succ depth =>
          obtain ⟨ty, hty, -⟩ := h
          intro ref href
          rw [List.mem_singleton.mp href]
          exact (List.getElem?_eq_some_iff.mp hty).1

theorem alignTo_of_mod {size align : Nat} (h : size % align = 0) : alignTo size align = size := by
  unfold alignTo
  rw [if_pos h, ite_self]

theorem memoryAbiForPrimitive_mod (prim : PrimValType) :
    (memoryAbiForPrimitive prim).size % (memoryAbiForPrimitive prim).align = 0 := by
  cases prim <;> rfl

theorem flagsMemoryAbi_mod (count : Nat) :
    (flagsMemoryAbi count).size % (flagsMemoryAbi count).align = 0 := by
  unfold flagsMemoryAbi
  split
  · rfl
  · split
    · rfl
    · split
      · rfl
      · dsimp only
        omega

namespace Program

variable {p : Program M}

theorem abi_flags {id : Nat} {labels : List Label}
    (hty : p.arena.types[id]? = some (.defVal (.flags labels))) :
    p.abi (.type id) = flagsMemoryAbi labels.length := by
  unfold abi
  rw [p.info_type hty]
  change MemoryAbiInfo.mk (flagsInfo labels.length).2.1 (max (flagsInfo labels.length).2.2 1) = _
  unfold flagsInfo flagsMemoryAbi
  split
  · rfl
  · split
    · rfl
    · split <;> rfl

theorem abi_list {id : Nat} {elem : ValType} {len : Option Nat}
    (hty : p.arena.types[id]? = some (.defVal (.list elem len))) : p.abi (.type id) = ⟨8, 4⟩ := by
  unfold abi
  rw [p.info_type hty]
  rfl

theorem abi_prim {id : Nat} {prim : PrimValType}
    (hty : p.arena.types[id]? = some (.defVal (.primitive prim))) :
    p.abi (.type id) = memoryAbiForPrimitive prim := by
  unfold abi
  rw [p.info_type hty]
  cases prim <;> rfl

theorem abi_own {id resource : Nat} (hty : p.arena.types[id]? = some (.defVal (.own resource))) :
    p.abi (.type id) = ⟨4, 4⟩ := by
  unfold abi
  rw [p.info_type hty]
  rfl

theorem abi_borrow {id resource : Nat}
    (hty : p.arena.types[id]? = some (.defVal (.borrow resource))) : p.abi (.type id) = ⟨4, 4⟩ := by
  unfold abi
  rw [p.info_type hty]
  rfl

theorem abi_resource {id resource : Nat} (hty : p.arena.types[id]? = some (.resource resource)) :
    p.abi (.type id) = ⟨4, 4⟩ := by
  have hid := (List.getElem?_eq_some_iff.mp hty).1
  obtain ⟨count, hcount⟩ := Nat.exists_eq_succ_of_ne_zero (by omega : p.arena.types.length ≠ 0)
  unfold abi info
  rw [hcount]
  simp only [infoOf, hty, tyInfoOf]
  rfl

end Program

theorem Typed.size_mod {p : Program M} {encoding : CanonicalStringEncoding} {depth : Nat}
    {ty : ValType} {value : ComponentValue} (h : Typed p encoding depth ty value) :
    (p.abi ty).size % (p.abi ty).align = 0 := by
  cases ty with
  | primitive prim =>
      rw [p.abi_primitive]
      exact memoryAbiForPrimitive_mod prim
  | type id =>
      cases depth with
      | zero => exact False.elim h
      | succ depth =>
          obtain ⟨ty, hty, htyped⟩ := h
          cases ty with
          | defVal ty =>
              cases ty with
              | primitive prim =>
                  rw [Program.abi_prim hty]
                  exact memoryAbiForPrimitive_mod prim
              | record fields =>
                  obtain ⟨hsize, halign⟩ := Program.abi_record hty htyped.fits
                  rw [hsize, ← halign]
                  exact alignUp_mod _ (p.abi_align_pos _)
              | variant cases =>
                  obtain ⟨hsize, halign⟩ := Program.abi_variant hty htyped.fits
                  rw [hsize, ← halign]
                  exact alignUp_mod _ (p.abi_align_pos _)
              | flags labels =>
                  rw [Program.abi_flags hty]
                  exact flagsMemoryAbi_mod labels.length
              | list elem len => simp [Program.abi_list hty]
              | own resource => simp [Program.abi_own hty]
              | borrow resource => simp [Program.abi_borrow hty]
          | resource resource => simp [Program.abi_resource hty]
          | _ => exact False.elim htyped

end Telomere.Component
