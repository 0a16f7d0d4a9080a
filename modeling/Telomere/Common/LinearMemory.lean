import Telomere.Lib.Except
import Mathlib.Data.Nat.Notation

/-!
# Linear memory

A memory holds whole pages, at most as many as 32-bit addresses reach. Bounds of the operations on one
memory are 32-bit sums, bounds across two memories are sums of `usize`.
-/

namespace Telomere.Linear

abbrev Byte := BitVec 8

abbrev U32 := BitVec 32

/-- The results of `VMResult` other than success. -/
inductive Failure where
  | memoryIndexOutOfRange
  | unalignedAtomic
  | invalidOperand
  | fuelExhausted
  | cancelled
deriving DecidableEq, Repr

abbrev VMResult (α : Type) := Except Failure α

def pageSize : Nat := 65536

def pageSizeMax : Nat := 65536

theorem one_le_pageSizeMax : 1 ≤ pageSizeMax := by decide

structure Memory where
  currentPages : Nat
  bytes : Nat → Byte
  currentPages_le : currentPages ≤ pageSizeMax

/-- `u32::checked_add` and `usize::checked_add`, by their widths. -/
def checkedAdd (width a b : Nat) : Option Nat :=
  if a + b < 2 ^ width then some (a + b) else none

theorem checkedAdd_of_lt {width a b : Nat} (h : a + b < 2 ^ width) :
    checkedAdd width a b = some (a + b) := if_pos h

theorem checkedAdd_of_not_lt {width a b : Nat} (h : ¬a + b < 2 ^ width) :
    checkedAdd width a b = none := if_neg h

namespace Memory

def dataSize (m : Memory) : Nat := m.currentPages * pageSize

theorem dataSize_le (m : Memory) : m.dataSize ≤ 2 ^ 32 := by
  have h := m.currentPages_le
  simp only [dataSize, pageSize, pageSizeMax] at *
  omega

/-- The range is one that `get` and `get_mut` find in the slice of the memory. -/
def InSlice (m : Memory) (start stop : Nat) : Prop :=
  start ≤ stop ∧ stop ≤ m.dataSize

instance (m : Memory) (start stop : Nat) : Decidable (m.InSlice start stop) :=
  inferInstanceAs (Decidable (_ ∧ _))

theorem inSlice_add {m : Memory} {start len : Nat} :
    m.InSlice start (start + len) ↔ start + len ≤ m.dataSize := by
  simp [InSlice]

def slice (m : Memory) (start len : Nat) : List Byte :=
  (List.range len).map fun i => m.bytes (start + i)

def fillSlice (m : Memory) (start stop : Nat) (value : Byte) : Memory :=
  { m with bytes := fun i => if start ≤ i ∧ i < stop then value else m.bytes i }

/-- `copy_within`: the bytes come from the memory as it was. -/
def copyWithin (m : Memory) (srcStart srcEnd dstStart : Nat) : Memory :=
  { m with bytes := fun i =>
      if dstStart ≤ i ∧ i < dstStart + (srcEnd - srcStart) then m.bytes (srcStart + (i - dstStart))
      else m.bytes i }

/-- `copy_from_slice` on the range of the memory that begins at `start`. -/
def copyFromSlice (m : Memory) (start : Nat) (bytes : List Byte) : Memory :=
  { m with bytes := fun i =>
      if start ≤ i then bytes.getD (i - start) (m.bytes i) else m.bytes i }

/-- `len` bytes of another memory, or of the memory as it was. -/
def copyFrom (m source : Memory) (dst src len : Nat) : Memory :=
  { m with bytes := fun i =>
      if dst ≤ i ∧ i < dst + len then source.bytes (src + (i - dst)) else m.bytes i }

def fill (m : Memory) (ptr len data : U32) : VMResult Unit × Memory :=
  match checkedAdd 32 ptr.toNat len.toNat with
  | none => (.error .memoryIndexOutOfRange, m)
  | some last =>
      if m.InSlice ptr.toNat last then (.ok (), m.fillSlice ptr.toNat last (data.setWidth 8))
      else (.error .memoryIndexOutOfRange, m)

def copy (m : Memory) (dst src len : U32) : VMResult Unit × Memory :=
  match checkedAdd 32 src.toNat len.toNat with
  | none => (.error .memoryIndexOutOfRange, m)
  | some srcLast =>
      if m.dataSize < srcLast then (.error .memoryIndexOutOfRange, m)
      else
        match checkedAdd 32 dst.toNat len.toNat with
        | none => (.error .memoryIndexOutOfRange, m)
        | some dstLast =>
            if m.dataSize < dstLast then (.error .memoryIndexOutOfRange, m)
            else (.ok (), m.copyWithin src.toNat srcLast dst.toNat)

def writeBytes (m : Memory) (offset : Nat) (bytes : List Byte) : VMResult Unit × Memory :=
  match checkedAdd 64 offset bytes.length with
  | none => (.error .memoryIndexOutOfRange, m)
  | some stop =>
      if m.InSlice offset stop then (.ok (), m.copyFromSlice offset bytes)
      else (.error .memoryIndexOutOfRange, m)

@[simp] theorem fillSlice_dataSize (m : Memory) (start stop : Nat) (value : Byte) :
    (m.fillSlice start stop value).dataSize = m.dataSize := rfl

@[simp] theorem copyFromSlice_dataSize (m : Memory) (start : Nat) (bytes : List Byte) :
    (m.copyFromSlice start bytes).dataSize = m.dataSize := rfl

@[simp] theorem copyFrom_dataSize (m source : Memory) (dst src len : Nat) :
    (m.copyFrom source dst src len).dataSize = m.dataSize := rfl

@[simp] theorem slice_length (m : Memory) (start len : Nat) : (m.slice start len).length = len := by
  simp [slice]

theorem copyWithin_eq (m : Memory) (srcStart len dstStart : Nat) :
    m.copyWithin srcStart (srcStart + len) dstStart = m.copyFrom m dstStart srcStart len := by
  simp [copyWithin, copyFrom]

theorem copyFromSlice_slice (m source : Memory) (dst src len : Nat) :
    m.copyFromSlice dst (source.slice src len) = m.copyFrom source dst src len := by
  simp only [copyFromSlice, copyFrom, mk.injEq, true_and]
  funext i
  by_cases hlow : dst ≤ i
  · by_cases hhigh : i < dst + len
    · have hin : i - dst < len := by omega
      simp [slice, hlow, hhigh, hin]
    · have hout : ¬i - dst < len := by omega
      simp [slice, hlow, hhigh, hout]
  · simp [hlow]

@[simp] theorem copyFrom_zero (m source : Memory) (dst src : Nat) :
    m.copyFrom source dst src 0 = m := by
  have hnone (i : Nat) : ¬(dst ≤ i ∧ i < dst) := by omega
  simp [copyFrom, hnone]

theorem copyFrom_copyFrom (m source : Memory) (dst src first rest : Nat) :
    (m.copyFrom source dst src first).copyFrom source (dst + first) (src + first) rest =
      m.copyFrom source dst src (first + rest) := by
  simp only [copyFrom, mk.injEq, true_and]
  funext i
  by_cases hrest : dst + first ≤ i ∧ i < dst + first + rest
  · have hin : dst ≤ i ∧ i < dst + (first + rest) := by omega
    have hplace : src + first + (i - (dst + first)) = src + (i - dst) := by omega
    rw [if_pos hrest, if_pos hin, hplace]
  · rw [if_neg hrest]
    by_cases hfirst : dst ≤ i ∧ i < dst + first
    · rw [if_pos hfirst, if_pos (by omega)]
    · rw [if_neg hfirst, if_neg (by omega)]

theorem fill_eq (m : Memory) (ptr len data : U32) :
    m.fill ptr len data =
      if ptr.toNat + len.toNat ≤ m.dataSize ∧ ptr.toNat + len.toNat < 2 ^ 32 then
        (.ok (), m.fillSlice ptr.toNat (ptr.toNat + len.toNat) (data.setWidth 8))
      else (.error .memoryIndexOutOfRange, m) := by
  by_cases hsum : ptr.toNat + len.toNat < 2 ^ 32
  · rw [fill, checkedAdd_of_lt hsum]
    by_cases hin : ptr.toNat + len.toNat ≤ m.dataSize
    · rw [if_pos ⟨hin, hsum⟩]
      exact if_pos (inSlice_add.mpr hin)
    · rw [if_neg fun h => hin h.1]
      exact if_neg fun h => hin (inSlice_add.mp h)
  · rw [fill, checkedAdd_of_not_lt hsum, if_neg fun h => hsum h.2]

/-- A memory is copied where the ends of both ranges are 32-bit numbers. -/
theorem copy_eq (m : Memory) (dst src len : U32) :
    m.copy dst src len =
      if (src.toNat + len.toNat ≤ m.dataSize ∧ src.toNat + len.toNat < 2 ^ 32) ∧
          dst.toNat + len.toNat ≤ m.dataSize ∧ dst.toNat + len.toNat < 2 ^ 32 then
        (.ok (), m.copyWithin src.toNat (src.toNat + len.toNat) dst.toNat)
      else (.error .memoryIndexOutOfRange, m) := by
  by_cases hsrc : src.toNat + len.toNat < 2 ^ 32
  · rw [copy, checkedAdd_of_lt hsrc]
    by_cases hsrcIn : src.toNat + len.toNat ≤ m.dataSize
    · refine (if_neg (Nat.not_lt.mpr hsrcIn)).trans ?_
      by_cases hdst : dst.toNat + len.toNat < 2 ^ 32
      · rw [checkedAdd_of_lt hdst]
        by_cases hdstIn : dst.toNat + len.toNat ≤ m.dataSize
        · rw [if_pos ⟨⟨hsrcIn, hsrc⟩, hdstIn, hdst⟩]
          exact if_neg (Nat.not_lt.mpr hdstIn)
        · rw [if_neg fun h => hdstIn h.2.1]
          exact if_pos (Nat.lt_of_not_le hdstIn)
      · rw [checkedAdd_of_not_lt hdst, if_neg fun h => hdst h.2.2]
    · rw [if_neg fun h => hsrcIn h.1.1]
      exact if_pos (Nat.lt_of_not_le hsrcIn)
  · rw [copy, checkedAdd_of_not_lt hsrc, if_neg fun h => hsrc h.1.2]

/-- Bytes are written where all of them fit; the sum is of `usize`. -/
theorem writeBytes_ok {m : Memory} {offset : Nat} {bytes : List Byte}
    (h : offset + bytes.length ≤ m.dataSize) :
    m.writeBytes offset bytes = (.ok (), m.copyFromSlice offset bytes) := by
  have hsize := m.dataSize_le
  have hsum : offset + bytes.length < 2 ^ 64 := by omega
  rw [writeBytes, checkedAdd_of_lt hsum]
  exact if_pos (inSlice_add.mpr h)

end Memory

end Telomere.Linear
