import Telomere.Common.LinearMemory
import Telomere.Lib.LittleEndian

/-!
# Accesses to a linear memory

Loads and stores of numbers and of arrays of bytes, and the atomic accesses. The functions for the
four widths are one function of the width.
-/

namespace Telomere.Linear

open Lib (leValue leDigit leDigits)

/-- A trap of an instruction, as opposed to an interruption. -/
def Failure.IsTrap (failure : Failure) : Prop :=
  failure ≠ .fuelExhausted ∧ failure ≠ .cancelled

structure MemArg where
  align : U32
  offset : U32
deriving DecidableEq, Repr

def computeMemoryOffset (memarg : MemArg) (offset : U32) : VMResult Nat :=
  match checkedAdd 32 memarg.offset.toNat offset.toNat with
  | some sum => .ok sum
  | none => .error .memoryIndexOutOfRange

/-- `u8`, `u16`, `u32` and `u64` -/
inductive AccessWidth where
  | w8 | w16 | w32 | w64
deriving DecidableEq, Repr

namespace AccessWidth

def bytes : AccessWidth → Nat
  | .w8 => 1
  | .w16 => 2
  | .w32 => 4
  | .w64 => 8

def bits (width : AccessWidth) : Nat := 8 * width.bytes

theorem bytes_pos (width : AccessWidth) : 0 < width.bytes := by
  cases width <;> decide

end AccessWidth

inductive AtomicRmwOp where
  | add | sub | and | or | xor | xchg
deriving DecidableEq, Repr

/-- `apply_u8` to `apply_u64` -/
def AtomicRmwOp.apply {w : Nat} (op : AtomicRmwOp) (old value : BitVec w) : BitVec w :=
  match op with
  | .add => old + value
  | .sub => old - value
  | .and => old &&& value
  | .or => old ||| value
  | .xor => old ^^^ value
  | .xchg => value

def ensureAtomicAlignment (offset alignment : Nat) : VMResult Unit :=
  if offset % alignment = 0 then .ok () else .error .unalignedAtomic

namespace Memory

def readU8Array (m : Memory) (n offset : Nat) : VMResult (List Byte) :=
  match checkedAdd 64 offset n with
  | none => .error .memoryIndexOutOfRange
  | some last =>
      if m.InSlice offset last then .ok (m.slice offset n) else .error .memoryIndexOutOfRange

def valueAt (m : Memory) (width : AccessWidth) (offset : Nat) : BitVec width.bits :=
  leValue width.bits (m.slice offset width.bytes)

/-- `read_u8_at` compares the offset itself, the others its sum with the width. -/
def readAt (m : Memory) (width : AccessWidth) (offset : Nat) : VMResult (BitVec width.bits) :=
  match width with
  | .w8 =>
      if m.dataSize ≤ offset then .error .memoryIndexOutOfRange else .ok (m.valueAt .w8 offset)
  | width =>
      match checkedAdd 64 offset width.bytes with
      | none => .error .memoryIndexOutOfRange
      | some last =>
          if m.dataSize < last then .error .memoryIndexOutOfRange else .ok (m.valueAt width offset)

def atomicLoad (m : Memory) (width : AccessWidth) (offset : Nat) : VMResult (BitVec width.bits) := do
  ensureAtomicAlignment offset width.bytes
  m.readAt width offset

def atomicStore (m : Memory) (width : AccessWidth) (offset : Nat) (value : BitVec width.bits) :
    VMResult Unit × Memory :=
  match ensureAtomicAlignment offset width.bytes with
  | .error e => (.error e, m)
  | .ok () => m.writeBytes offset (leDigits 8 width.bytes value)

def atomicRmw (m : Memory) (width : AccessWidth) (offset : Nat) (op : AtomicRmwOp)
    (value : BitVec width.bits) : VMResult (BitVec width.bits) × Memory :=
  match m.atomicLoad width offset with
  | .error e => (.error e, m)
  | .ok old =>
      match m.atomicStore width offset (op.apply old value) with
      | (.error e, m) => (.error e, m)
      | (.ok (), m) => (.ok old, m)

def atomicCmpxchg (m : Memory) (width : AccessWidth) (offset : Nat)
    (expected value : BitVec width.bits) : VMResult (BitVec width.bits) × Memory :=
  match m.atomicLoad width offset with
  | .error e => (.error e, m)
  | .ok old =>
      if old = expected then
        match m.atomicStore width offset value with
        | (.error e, m) => (.error e, m)
        | (.ok (), m) => (.ok old, m)
      else (.ok old, m)

/-- The bytes of a number written at a place; the others stay. -/
def withBytes {w : Nat} (m : Memory) (start n : Nat) (value : BitVec w) : Memory :=
  { m with bytes := fun i =>
      if start ≤ i ∧ i < start + n then leDigit 8 value (i - start) else m.bytes i }

/-- The place is aligned and lies in the memory. -/
def Accessible (m : Memory) (width : AccessWidth) (offset : Nat) : Prop :=
  offset % width.bytes = 0 ∧ offset + width.bytes ≤ m.dataSize

instance (m : Memory) (width : AccessWidth) (offset : Nat) : Decidable (m.Accessible width offset) :=
  inferInstanceAs (Decidable (_ ∧ _))

section

variable {m : Memory} {width : AccessWidth} {offset : Nat}

theorem readAt_eq (m : Memory) (width : AccessWidth) (offset : Nat) :
    m.readAt width offset =
      if offset + width.bytes ≤ m.dataSize then .ok (m.valueAt width offset)
      else .error .memoryIndexOutOfRange := by
  have hsize := m.dataSize_le
  have hwide (width : AccessWidth) : (match checkedAdd 64 offset width.bytes with
      | none => .error .memoryIndexOutOfRange
      | some last =>
          if m.dataSize < last then .error .memoryIndexOutOfRange
          else .ok (m.valueAt width offset) : VMResult (BitVec width.bits)) =
      if offset + width.bytes ≤ m.dataSize then .ok (m.valueAt width offset)
      else .error .memoryIndexOutOfRange := by
    by_cases hin : offset + width.bytes ≤ m.dataSize
    · have hsum : offset + width.bytes < 2 ^ 64 := by omega
      simp only [checkedAdd, if_pos hsum, if_pos hin, if_neg (Nat.not_lt.mpr hin)]
    · by_cases hsum : offset + width.bytes < 2 ^ 64
      · simp only [checkedAdd, if_pos hsum, if_neg hin, if_pos (Nat.not_le.mp hin)]
      · simp only [checkedAdd, if_neg hsum, if_neg hin]
  cases width with
  | w8 =>
      by_cases hin : offset + AccessWidth.bytes .w8 ≤ m.dataSize
      · have hlt : ¬m.dataSize ≤ offset := Nat.not_le.mpr hin
        rw [if_pos hin]
        exact if_neg hlt
      · have hle : m.dataSize ≤ offset := Nat.not_lt.mp hin
        rw [if_neg hin]
        exact if_pos hle
  | w16 | w32 | w64 => exact hwide _

theorem Accessible.lt (h : m.Accessible width offset) : offset < 2 ^ 32 := by
  have hpos := width.bytes_pos
  have hsize := m.dataSize_le
  have hin := h.2
  omega

theorem atomicLoad_ok (h : m.Accessible width offset) :
    m.atomicLoad width offset = .ok (m.valueAt width offset) := by
  rw [atomicLoad, ensureAtomicAlignment, if_pos h.1, Lib.ok_bind, readAt_eq, if_pos h.2]

theorem atomicLoad_error (h : ¬m.Accessible width offset) :
    ∃ e, (e = .unalignedAtomic ∨ e = .memoryIndexOutOfRange) ∧
      m.atomicLoad width offset = .error e := by
  rw [atomicLoad, ensureAtomicAlignment, readAt_eq]
  by_cases halign : offset % width.bytes = 0
  · have hout : ¬offset + width.bytes ≤ m.dataSize := fun hin => h ⟨halign, hin⟩
    exact ⟨_, .inr rfl, by rw [if_pos halign, Lib.ok_bind, if_neg hout]⟩
  · exact ⟨_, .inl rfl, by rw [if_neg halign, Lib.error_bind]⟩

theorem copyFromSlice_leDigits {w n : Nat} (m : Memory) (start : Nat) (value : BitVec w) :
    m.copyFromSlice start (leDigits 8 n value) = m.withBytes start n value := by
  simp only [copyFromSlice, withBytes, mk.injEq, true_and]
  funext i
  by_cases hlow : start ≤ i
  · by_cases hhigh : i < start + n
    · have hin : i - start < n := by omega
      rw [if_pos hlow, if_pos ⟨hlow, hhigh⟩, List.getD_eq_getElem?_getD,
        Lib.getElem?_leDigits value hin, Option.getD_some]
    · have hout : (leDigits 8 n value)[i - start]? = none :=
        List.getElem?_eq_none (by rw [Lib.length_leDigits]; omega)
      rw [if_pos hlow, if_neg (fun h => hhigh h.2), List.getD_eq_getElem?_getD, hout,
        Option.getD_none]
  · rw [if_neg hlow, if_neg (fun h => hlow h.1)]

theorem writeBytes_error {bytes : List Byte} (h : ¬offset + bytes.length ≤ m.dataSize) :
    m.writeBytes offset bytes = (.error .memoryIndexOutOfRange, m) := by
  by_cases hsum : offset + bytes.length < 2 ^ 64
  · simp only [writeBytes, checkedAdd, if_pos hsum]
    exact if_neg (fun hin => h (inSlice_add.mp hin))
  · simp only [writeBytes, checkedAdd, if_neg hsum]

theorem readU8Array_eq (m : Memory) (n offset : Nat) :
    m.readU8Array n offset =
      if offset + n ≤ m.dataSize then .ok (m.slice offset n)
      else .error .memoryIndexOutOfRange := by
  have hsize := m.dataSize_le
  by_cases hin : offset + n ≤ m.dataSize
  · have hsum : offset + n < 2 ^ 64 := by omega
    rw [if_pos hin]
    simp only [readU8Array, checkedAdd, if_pos hsum]
    exact if_pos (inSlice_add.mpr hin)
  · rw [if_neg hin]
    by_cases hsum : offset + n < 2 ^ 64
    · simp only [readU8Array, checkedAdd, if_pos hsum]
      exact if_neg fun h => hin (inSlice_add.mp h)
    · simp only [readU8Array, checkedAdd, if_neg hsum]

theorem atomicStore_ok (h : m.Accessible width offset) (value : BitVec width.bits) :
    m.atomicStore width offset value = (.ok (), m.withBytes offset width.bytes value) := by
  have hwrite := @writeBytes_ok m offset (leDigits 8 width.bytes value)
    (by rw [Lib.length_leDigits]; exact h.2)
  rw [copyFromSlice_leDigits] at hwrite
  simp only [atomicStore, ensureAtomicAlignment, if_pos h.1, hwrite]

theorem atomicStore_error (h : ¬m.Accessible width offset) (value : BitVec width.bits) :
    ∃ e, (e = .unalignedAtomic ∨ e = .memoryIndexOutOfRange) ∧
      m.atomicStore width offset value = (.error e, m) := by
  by_cases halign : offset % width.bytes = 0
  · have hwrite := @writeBytes_error m offset (leDigits 8 width.bytes value)
      (by rw [Lib.length_leDigits]; exact fun hin => h ⟨halign, hin⟩)
    exact ⟨_, .inr rfl, by simp only [atomicStore, ensureAtomicAlignment, if_pos halign, hwrite]⟩
  · exact ⟨_, .inl rfl, by simp only [atomicStore, ensureAtomicAlignment, if_neg halign]⟩

theorem atomicRmw_ok (h : m.Accessible width offset) (op : AtomicRmwOp) (value : BitVec width.bits) :
    m.atomicRmw width offset op value =
      (.ok (m.valueAt width offset),
        m.withBytes offset width.bytes (op.apply (m.valueAt width offset) value)) := by
  simp only [atomicRmw, atomicLoad_ok h, atomicStore_ok h]

theorem atomicRmw_error (h : ¬m.Accessible width offset) (op : AtomicRmwOp)
    (value : BitVec width.bits) : ∃ e, (e = .unalignedAtomic ∨ e = .memoryIndexOutOfRange) ∧
      m.atomicRmw width offset op value = (.error e, m) := by
  obtain ⟨e, he, hload⟩ := atomicLoad_error h
  exact ⟨e, he, by simp only [atomicRmw, hload]⟩

theorem atomicCmpxchg_ok (h : m.Accessible width offset) (expected value : BitVec width.bits) :
    m.atomicCmpxchg width offset expected value =
      (.ok (m.valueAt width offset),
        if m.valueAt width offset = expected then m.withBytes offset width.bytes value else m) := by
  simp only [atomicCmpxchg, atomicLoad_ok h, atomicStore_ok h]
  split
  · rfl
  · rfl

theorem atomicCmpxchg_error (h : ¬m.Accessible width offset) (expected value : BitVec width.bits) :
    ∃ e, (e = .unalignedAtomic ∨ e = .memoryIndexOutOfRange) ∧
      m.atomicCmpxchg width offset expected value = (.error e, m) := by
  obtain ⟨e, he, hload⟩ := atomicLoad_error h
  exact ⟨e, he, by simp only [atomicCmpxchg, hload]⟩

end

end Memory

end Telomere.Linear
