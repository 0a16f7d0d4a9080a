import Telomere.Common.Types
import Telomere.Parser.Leb128
import Telomere.Vm.SimdMemory

/-!
# Alignments of memory accesses

The parsers of the loads and stores, each with the bound that it passes for the alignment. The operands
on the stack are taken to be well typed.
-/

namespace Telomere.MemoryOps

open Linear Lib

/-- The loads and stores of a part of a number have the width of the part. -/
inductive ScalarInstr where
  | load (ty : ValType)
  | loadPart (ty : ValType) (width : AccessWidth) (signed : Bool)
  | store (ty : ValType)
  | storePart (ty : ValType) (width : AccessWidth)
deriving DecidableEq, Repr

def ScalarInstr.bytes : ScalarInstr → Nat
  | .load ty | .store ty => ty.stackSize
  | .loadPart _ width _ | .storePart _ width => width.bytes

structure ScalarOp where
  instr : ScalarInstr
  kind : HandlerKind
deriving DecidableEq, Repr

/-- The arms of `parse_inst` with a memarg: what they pass to `parse_memarg`. -/
def scalarArm : Nat → Option (Nat × ScalarInstr)
  | 0x28 => some (4, .load .i32)
  | 0x29 => some (8, .load .i64)
  | 0x2A => some (4, .load .f32)
  | 0x2B => some (8, .load .f64)
  | 0x2C => some (1, .loadPart .i32 .w8 true)
  | 0x2D => some (1, .loadPart .i32 .w8 false)
  | 0x2E => some (2, .loadPart .i32 .w16 true)
  | 0x2F => some (2, .loadPart .i32 .w16 false)
  | 0x30 => some (1, .loadPart .i64 .w8 true)
  | 0x31 => some (1, .loadPart .i64 .w8 false)
  | 0x32 => some (2, .loadPart .i64 .w16 true)
  | 0x33 => some (2, .loadPart .i64 .w16 false)
  | 0x34 => some (4, .loadPart .i64 .w32 true)
  | 0x35 => some (4, .loadPart .i64 .w32 false)
  | 0x36 => some (4, .store .i32)
  | 0x37 => some (8, .store .i64)
  | 0x38 => some (4, .store .f32)
  | 0x39 => some (8, .store .f64)
  | 0x3A => some (1, .storePart .i32 .w8)
  | 0x3B => some (2, .storePart .i32 .w16)
  | 0x3C => some (1, .storePart .i64 .w8)
  | 0x3D => some (2, .storePart .i64 .w16)
  | 0x3E => some (4, .storePart .i64 .w32)
  | _ => none

section

variable {R : Type} [BinaryReader R] (mems : List MemType)

def parseScalarArm (align : Nat) (instr : ScalarInstr) (reader : R) :
    Parsed (Nat × Emitted ScalarOp × R) := do
  let (len, memidx, memarg, reader) ← parseMemarg align reader
  let emitted ← pushMemargInstruction mems memidx memarg fun kind => ⟨instr, kind⟩
  return (1 + len, emitted, reader)

end

/-- Numbers are LEB128 in the bytes of a module. -/
instance : BinaryReader (List Parser.InputByte) where
  parseU32 reader := (Parser.parseU32 reader).mapError fun _ => .reader
  parseByte
    | [] => .error .reader
    | byte :: reader => .ok (1, byte, reader)

/-- The vector instructions have a second code behind the prefix. -/
inductive MemoryOpcode where
  | scalar (code : Nat)
  | simd (code : Nat)
deriving DecidableEq, Repr

/-- What the parser of an instruction passes on, and the bytes that the instruction accesses. -/
structure MemoryArm where
  align : Nat
  laneCount : Option Nat
  bytes : Nat
deriving DecidableEq, Repr

def memoryArm : MemoryOpcode → Option MemoryArm
  | .scalar code => (scalarArm code).map fun (align, instr) => ⟨align, none, instr.bytes⟩
  | .simd code =>
    match simdArm code with
    | some (align, instr) => some ⟨align, none, instr.bytes⟩
    | none => (simdLaneArm code).map fun (align, laneCount, instr) =>
        ⟨align, some laneCount, instr.bytes⟩

section

variable {R : Type} [BinaryReader R]

/-- The parser of the instruction accepts what stands behind its opcode. -/
def Accepted (mems : List MemType) (opcode : MemoryOpcode) (reader : R) : Prop :=
  match opcode with
  | .scalar code => ∃ align instr, scalarArm code = some (align, instr) ∧
      ∃ parsed, parseScalarArm mems align instr reader = .ok parsed
  | .simd code => ∃ parsed, parseSimdMemory mems code reader = some (.ok parsed)

def ReadsMemarg (reader : R) (len : Nat) (memidx : U32) (memarg : MemArg) (rest : R) : Prop :=
  parseMemargWith (fun _ => false) reader = .ok (len, memidx, memarg, rest)

def LaneInRange (arm : MemoryArm) (rest : R) : Prop :=
  ∀ laneCount, arm.laneCount = some laneCount →
    ∃ len lane left, BinaryReader.parseByte rest = .ok (len, lane, left) ∧ lane.toNat < laneCount

/-- An alignment is accepted up to the width of the access. -/
def AlignmentExact (mems : List MemType) (opcode : MemoryOpcode) (arm : MemoryArm)
    (align : U32) (reader : R) : Prop :=
  Accepted mems opcode reader ↔ 2 ^ align.toNat ≤ arm.bytes

variable {mems : List MemType} {reader rest : R} {len : Nat} {memidx : U32} {memarg : MemArg}

private theorem align_of_tail {len' : Nat} {memidx' align : U32} {reader' : R}
    (h : (do
      let (len₃, offset, reader) ← BinaryReader.parseU32 reader'
      return (len' + len₃, memidx', (⟨align, offset⟩ : MemArg), reader)) =
        (.ok (len, memidx, memarg, rest) : Parsed _)) : memarg.align = align := by
  obtain ⟨⟨len₃, offset, reader₃⟩, -, hend⟩ := bind_eq_ok.mp h
  simp only [pure_eq_ok, Prod.mk.injEq] at hend
  rw [← hend.2.2.1]

/-- The check of the alignment stands between two readings that do not depend on it. -/
theorem parseMemargWith_eq (h : ReadsMemarg reader len memidx memarg rest) (refuses : U32 → Bool) :
    parseMemargWith refuses reader =
      if refuses memarg.align then .error (.invalidAlignment memarg.align)
      else .ok (len, memidx, memarg, rest) := by
  unfold ReadsMemarg parseMemargWith at h
  unfold parseMemargWith
  cases hflags : BinaryReader.parseU32 reader with
  | error e => simp [hflags, error_bind] at h
  | ok read =>
      obtain ⟨len₁, flags, reader₁⟩ := read
      rw [hflags] at h
      simp only [ok_bind] at h ⊢
      by_cases hindexed : 0x40 ≤ flags.toNat
      · simp only [if_pos hindexed] at h ⊢
        cases hindex : BinaryReader.parseU32 reader₁ with
        | error e => simp [hindex, error_bind] at h
        | ok read =>
            obtain ⟨len₂, memidx', reader₂⟩ := read
            simp only [hindex, ok_bind, pure_bind] at h ⊢
            rw [align_of_tail h]
            by_cases hrefuses : refuses (flags - 0x40) = true
            · simp only [if_pos hrefuses]
              rfl
            · simp only [if_neg hrefuses]
              exact h
      · simp only [if_neg hindexed, pure_bind] at h ⊢
        rw [align_of_tail h]
        by_cases hrefuses : refuses flags = true
        · simp only [if_pos hrefuses]
          rfl
        · simp only [if_neg hrefuses]
          exact h

theorem parseMemarg_eq (h : ReadsMemarg reader len memidx memarg rest) (align : Nat) :
    parseMemarg align reader =
      if align < memarg.align.toNat then .error (.invalidAlignment memarg.align)
      else .ok (len, memidx, memarg, rest) := by
  unfold parseMemarg
  rw [parseMemargWith_eq h]
  simp only [decide_eq_true_eq]

theorem after_parseMemarg_ok_iff {α : Type} (h : ReadsMemarg reader len memidx memarg rest)
    (align : Nat) {following : Nat × U32 × MemArg × R → Parsed α}
    (hfollowing : ∃ parsed, following (len, memidx, memarg, rest) = .ok parsed) :
    (∃ parsed, (parseMemarg align reader >>= following) = .ok parsed) ↔
      memarg.align.toNat ≤ align := by
  rw [parseMemarg_eq h]
  by_cases hle : memarg.align.toNat ≤ align
  · rw [if_neg (Nat.not_lt.mpr hle), ok_bind]
    exact iff_of_true hfollowing hle
  · rw [if_pos (Nat.lt_of_not_le hle), error_bind]
    exact iff_of_false (fun ⟨_, hparsed⟩ => by simp at hparsed) hle

theorem pushMemargInstruction_ok {Op : Type} (hmem : memidx.toNat < mems.length)
    (memarg : MemArg) (op : HandlerKind → Op) :
    ∃ emitted, pushMemargInstruction mems memidx memarg op = .ok emitted :=
  ⟨_, pushMemargInstruction_eq_ok.mpr ⟨_, List.getElem?_eq_getElem hmem, rfl⟩⟩

theorem pushMemargLaneInstruction_ok {Op : Type} (hmem : memidx.toNat < mems.length)
    (memarg : MemArg) (lane : U32) (op : HandlerKind → Op) :
    ∃ emitted, pushMemargLaneInstruction mems memidx memarg lane op = .ok emitted :=
  ⟨_, pushMemargLaneInstruction_eq_ok.mpr ⟨_, List.getElem?_eq_getElem hmem, rfl⟩⟩

theorem parseScalarArm_ok_iff (h : ReadsMemarg reader len memidx memarg rest)
    (hmem : memidx.toNat < mems.length) (align : Nat) (instr : ScalarInstr) :
    (∃ parsed, parseScalarArm mems align instr reader = .ok parsed) ↔
      memarg.align.toNat ≤ align := by
  obtain ⟨emitted, hpush⟩ := pushMemargInstruction_ok hmem memarg (ScalarOp.mk instr)
  refine after_parseMemarg_ok_iff h align ⟨(1 + len, emitted, rest), ?_⟩
  simp only [hpush, ok_bind]
  rfl

theorem parseSimdArm_ok_iff (h : ReadsMemarg reader len memidx memarg rest)
    (hmem : memidx.toNat < mems.length) (align : Nat) (instr : SimdInstr) :
    (∃ parsed, parseSimdArm mems align instr reader = .ok parsed) ↔
      memarg.align.toNat ≤ align := by
  obtain ⟨emitted, hpush⟩ := pushMemargInstruction_ok hmem memarg (SimdOp.mk instr)
  refine after_parseMemarg_ok_iff h align ⟨(len, emitted, rest), ?_⟩
  simp only [hpush, ok_bind]
  rfl

theorem parseSimdLaneArm_ok_iff (h : ReadsMemarg reader len memidx memarg rest)
    (hmem : memidx.toNat < mems.length) {laneCount : Nat}
    (hlane : ∃ len lane left, BinaryReader.parseByte rest = .ok (len, lane, left) ∧
      lane.toNat < laneCount) (code align : Nat) (instr : SimdInstr) :
    (∃ parsed, parseSimdLaneArm mems code align laneCount instr reader = .ok parsed) ↔
      memarg.align.toNat ≤ align := by
  obtain ⟨len₂, lane, left, hread, hlt⟩ := hlane
  obtain ⟨emitted, hpush⟩ :=
    pushMemargLaneInstruction_ok hmem memarg (lane.setWidth 32) (SimdOp.mk instr)
  refine after_parseMemarg_ok_iff h align ⟨(len + len₂, emitted, lane, left), ?_⟩
  have hvalid : validateLane code lane laneCount = .ok () := if_neg (Nat.not_le.mpr hlt)
  simp only [hread, hvalid, hpush, ok_bind]
  rfl

theorem accepted_iff {opcode : MemoryOpcode} {arm : MemoryArm} (harm : memoryArm opcode = some arm)
    (h : ReadsMemarg reader len memidx memarg rest) (hmem : memidx.toNat < mems.length)
    (hlane : LaneInRange arm rest) :
    Accepted mems opcode reader ↔ memarg.align.toNat ≤ arm.align := by
  cases opcode with
  | scalar code =>
      obtain ⟨⟨align, instr⟩, hscalar, rfl⟩ := Option.map_eq_some_iff.mp harm
      rw [← parseScalarArm_ok_iff h hmem align instr]
      simp [Accepted, hscalar]
  | simd code =>
      unfold memoryArm at harm
      cases hsimd : simdArm code with
      | some row =>
          obtain ⟨align, instr⟩ := row
          simp only [hsimd, Option.some.injEq] at harm
          subst harm
          rw [← parseSimdArm_ok_iff h hmem align instr]
          simp only [Accepted, parseSimdMemory, hsimd, Option.some.injEq]
          cases parseSimdArm mems align instr reader <;> simp
      | none =>
          simp only [hsimd] at harm
          obtain ⟨⟨align, laneCount, instr⟩, hrow, rfl⟩ := Option.map_eq_some_iff.mp harm
          rw [← parseSimdLaneArm_ok_iff h hmem (hlane laneCount rfl) code align instr]
          simp only [Accepted, parseSimdMemory, hsimd, hrow, Option.map_some, Option.some.injEq]

theorem width_le_bound {opcode : MemoryOpcode} {arm : MemoryArm}
    (harm : memoryArm opcode = some arm) : 2 ^ Nat.log2 arm.bytes = arm.bytes ∧
      Nat.log2 arm.bytes ≤ arm.align := by
  cases opcode with
  | scalar code =>
      obtain ⟨⟨align, instr⟩, hscalar, rfl⟩ := Option.map_eq_some_iff.mp harm
      unfold scalarArm at hscalar
      split at hscalar <;> cases hscalar <;> decide
  | simd code =>
      unfold memoryArm at harm
      cases hsimd : simdArm code with
      | some row =>
          simp only [hsimd, Option.some.injEq] at harm
          subst harm
          unfold simdArm at hsimd
          split at hsimd <;> cases hsimd <;> decide
      | none =>
          simp only [hsimd] at harm
          obtain ⟨⟨align, laneCount, instr⟩, hrow, rfl⟩ := Option.map_eq_some_iff.mp harm
          unfold simdLaneArm at hrow
          split at hrow <;> cases hrow <;> decide

/-- Alignments are judged by the width of the access but for those between this width and the bound,
which is given in bytes where it is compared with an exponent. -/
theorem alignment_exact_iff (mems : List MemType) (opcode : MemoryOpcode) (arm : MemoryArm)
    (reader rest : R) (len : Nat) (memidx : U32) (memarg : MemArg)
    (harm : memoryArm opcode = some arm) (h : ReadsMemarg reader len memidx memarg rest)
    (hmem : memidx.toNat < mems.length) (hlane : LaneInRange arm rest) :
    AlignmentExact mems opcode arm memarg.align reader ↔
      ¬(Nat.log2 arm.bytes < memarg.align.toNat ∧ memarg.align.toNat ≤ arm.align) := by
  obtain ⟨hpow, hbound⟩ := width_le_bound harm
  have hwidth : 2 ^ memarg.align.toNat ≤ arm.bytes ↔
      memarg.align.toNat ≤ Nat.log2 arm.bytes := by
    rw [← hpow, Nat.log2_two_pow]
    exact Nat.pow_le_pow_iff_right (by decide)
  unfold AlignmentExact
  rw [accepted_iff harm h hmem hlane, hwidth]
  omega

end

/-- The natural alignment of a load of four bytes. -/
theorem alignment_exact_natural :
    memoryArm (.scalar 0x28) = some ⟨4, none, 4⟩ ∧
    ReadsMemarg ([0x02, 0x00] : List Parser.InputByte) 2 0 ⟨2, 0⟩ [] ∧
    AlignmentExact [⟨false⟩] (.scalar 0x28) ⟨4, none, 4⟩ 2
      ([0x02, 0x00] : List Parser.InputByte) := by
  have hread : ReadsMemarg ([0x02, 0x00] : List Parser.InputByte) 2 0 ⟨2, 0⟩ [] := by
    unfold ReadsMemarg
    rfl
  have hlane : LaneInRange ⟨4, none, 4⟩ ([] : List Parser.InputByte) := fun _ h => by simp at h
  exact ⟨rfl, hread, (alignment_exact_iff [⟨false⟩] (.scalar 0x28) ⟨4, none, 4⟩ [0x02, 0x00] [] 2 0
    ⟨2, 0⟩ rfl hread (by decide) hlane).mpr (by decide)⟩

/-- A load of four bytes is accepted with an alignment to eight. -/
theorem not_alignmentExact_load :
    memoryArm (.scalar 0x28) = some ⟨4, none, 4⟩ ∧
    ReadsMemarg ([0x03, 0x00] : List Parser.InputByte) 2 0 ⟨3, 0⟩ [] ∧
    ¬AlignmentExact [⟨false⟩] (.scalar 0x28) ⟨4, none, 4⟩ 3
      ([0x03, 0x00] : List Parser.InputByte) := by
  have hread : ReadsMemarg ([0x03, 0x00] : List Parser.InputByte) 2 0 ⟨3, 0⟩ [] := by
    unfold ReadsMemarg
    rfl
  have hlane : LaneInRange ⟨4, none, 4⟩ ([] : List Parser.InputByte) := fun _ h => by simp at h
  have haccepted : Accepted [⟨false⟩] (.scalar 0x28) ([0x03, 0x00] : List Parser.InputByte) :=
    (accepted_iff rfl hread (by decide) hlane).mpr (by decide)
  refine ⟨rfl, hread, fun h => ?_⟩
  have hwide := h.mp haccepted
  revert hwide
  decide

end Telomere.MemoryOps
