import Mathlib.Data.List.TakeWhile
import Telomere.Optimizer.Placement
import Telomere.Vm.Handlers

/-!
# The interpreter on lowered code

Handlers pass control by slot addresses. A position is the index of an op in the code, so the
same position can be compared in two layouts of one function; an address inside an op has none.
-/

namespace Telomere.Vm

open Optimizer

/-- The op that starts at this slot; the end of the code counts as a position. -/
def opAt (code : List LoweredOp) (slot : Nat) : Option Nat :=
  (List.range (code.length + 1)).find? fun index => startOf code index == slot

def skipEndOps (code : List LoweredOp) (index : Nat) : Nat :=
  index + ((code.drop index).takeWhile (·.op == .opEnd)).length

theorem startOf_lt_of_lt {code : List LoweredOp} {first second : Nat} (hlt : first < second)
    (hlen : second ≤ code.length) : startOf code first < startOf code second := by
  induction second with
  | zero => omega
  | succ second ih =>
      have hget : code[second]? = some code[second] := List.getElem?_eq_getElem hlen
      have hsucc := startOf_succ hget
      have hslot : 0 < slotLen code[second] := by
        rw [slotLen]
        omega
      rcases Nat.lt_succ_iff_lt_or_eq.mp hlt with hlt | rfl
      · have := ih hlt (by omega)
        omega
      · omega

private theorem startOf_le_of_le {code : List LoweredOp} {first second : Nat}
    (hle : first ≤ second) (hlen : second ≤ code.length) :
    startOf code first ≤ startOf code second := by
  rcases Nat.eq_or_lt_of_le hle with rfl | hlt
  · exact Nat.le_refl _
  · exact Nat.le_of_lt (startOf_lt_of_lt hlt hlen)

theorem opAt_startOf {code : List LoweredOp} {index : Nat} (hlen : index ≤ code.length) :
    opAt code (startOf code index) = some index := by
  unfold opAt
  rw [List.find?_range_eq_some]
  refine ⟨by simp, by simp; omega, ?_⟩
  intro j hj
  have := startOf_lt_of_lt hj hlen
  simp
  omega

theorem opAt_inside {code : List LoweredOp} {index slot : Nat} (hlen : index < code.length)
    (hlow : startOf code index < slot) (hhigh : slot < startOf code (index + 1)) :
    opAt code slot = none := by
  unfold opAt
  rw [List.find?_eq_none]
  intro j hj
  have hj' : j < code.length + 1 := List.mem_range.mp hj
  rcases Nat.lt_or_ge index j with hlt | hge
  · have := startOf_le_of_le (show index + 1 ≤ j by omega) (show j ≤ code.length by omega)
    simp
    omega
  · have := startOf_le_of_le hge (show index ≤ code.length by omega)
    simp
    omega

/-- The value of an operand. An address is read through `Next.jump` only. -/
def operandWord (pool : ConstPool) : LoweredOperand → BitVec 64
  | .raw encoded => encoded
  | .constPoolRef index => pool[index]?.getD 0
  | _ => 0

def words (pool : ConstPool) (op : LoweredOp) : Words :=
  fun index => (op.operands[index]?.map (operandWord pool)).getD 0

/-- Where the op at `index` passes control. -/
def landing (code : List LoweredOp) (index : Nat) (op : LoweredOp) : Next → Option Nat
  | .fall slots => opAt code (startOf code index + 1 + slots)
  | .jump operand extra =>
      match (op.operands[operand]? : Option LoweredOperand) with
      | some (.jumpTarget label) => opAt code (labelToAddr code label + extra)
      | _ => none

def continuation (code : List LoweredOp) (index : Nat) (op : LoweredOp) (control : Control) :
    Option Nat :=
  let next := landing code index op control.next
  if control.skipEnds then next.map (skipEndOps code) else next

/-- One op: how it leaves, the position it leaves to and the state. -/
def step (f : LoweredFunction) (index : Nat) (s : VmState) :
    Except Trap (Next × Option Nat × VmState) :=
  match f.code[index]? with
  | none => .error .invalidOperand
  | some op => do
      let (control, s) ← exec op.op (words f.constPool op) s
      return (control.next, continuation f.code index op control, s)

/-- `count` ops one after the other. -/
def runStraight (f : LoweredFunction) : Nat → Option Nat → VmState →
    Except Trap (Option Nat × VmState)
  | 0, index, s => .ok (index, s)
  | _ + 1, none, _ => .error .invalidOperand
  | count + 1, some index, s => do
      let (_, index, s) ← step f index s
      runStraight f count index s

def noopCount (code : List LoweredOp) (index : Nat) : Nat :=
  ((code.drop index).takeWhile loweredOpIsNoop).length

def skipNoopOpsAt (code : List LoweredOp) (index : Nat) : Nat :=
  index + noopCount code index

/-- A sequence of ops by its decisions: what follows when an op falls through and when it
branches, and where any number of ops that do nothing may stand. -/
inductive Path where
  | stop
  | step (fall taken : Path)
  | noops (rest : Path)
deriving DecidableEq, Repr

def Path.run (f : LoweredFunction) : Path → Option Nat → VmState →
    Except Trap (Option Nat × VmState)
  | .stop, index, s => .ok (index, s)
  | .step _ _, none, _ | .noops _, none, _ => .error .invalidOperand
  | .step fall taken, some index, s => do
      let (next, index, s) ← Vm.step f index s
      match next with
      | .fall _ => fall.run f index s
      | .jump _ _ => taken.run f index s
  | .noops rest, some index, s => do
      let (index, s) ← runStraight f (noopCount f.code index) (some index) s
      rest.run f index s

/-- Same trap, or same state and the same op up to `op_end`. -/
def Agrees (code : List LoweredOp) (first second : Except Trap (Option Nat × VmState)) : Prop :=
  match first, second with
  | .error trap, .error trap' => trap = trap'
  | .ok (some index, s), .ok (some index', s') =>
      skipEndOps code index = skipEndOps code index' ∧ s = s'
  | _, _ => False

section Landing

variable {code : List LoweredOp} {index : Nat} {op : LoweredOp}

theorem landing_fall (hget : code[index]? = some op) {slots : Nat}
    (hslots : slots = op.operands.length) : landing code index op (.fall slots) = some (index + 1) := by
  have hlt := (List.getElem?_eq_some_iff.mp hget).1
  rw [landing, hslots, Nat.add_assoc, ← slotLen, ← startOf_succ hget, opAt_startOf hlt]

theorem landing_jump {operand label target extra : Nat}
    (hoperand : op.operands[operand]? = some (.jumpTarget label))
    (haddr : labelToAddr code label + extra = startOf code target)
    (htarget : target ≤ code.length) : landing code index op (.jump operand extra) = some target := by
  simp only [landing, hoperand, haddr, opAt_startOf htarget]

end Landing

theorem runStraight_falls {f : LoweredFunction} {s : VmState} (count index : Nat)
    (h : ∀ i, i < count → ∃ op, f.code[index + i]? = some op ∧
      exec op.op (words f.constPool op) s = .ok (⟨.fall op.operands.length, false⟩, s)) :
    runStraight f count (some index) s = .ok (some (index + count), s) := by
  induction count generalizing index with
  | zero => rfl
  | succ count ih =>
      obtain ⟨op, hget, hexec⟩ := h 0 (by omega)
      rw [Nat.add_zero] at hget
      have hrest := ih (index + 1) fun i hi => by
        obtain ⟨op, hop, hexec⟩ := h (i + 1) (by omega)
        exact ⟨op, by rw [← hop]; congr 1; omega, hexec⟩
      rw [runStraight, step]
      simp only [hget, hexec, bind, Except.bind, pure, Except.pure, continuation,
        landing_fall hget rfl]
      rw [show index + (count + 1) = index + 1 + count by omega]
      exact hrest

private theorem takeWhile_drop_takeWhile {α : Type} (p : α → Bool) (l : List α) :
    (l.drop (l.takeWhile p).length).takeWhile p = [] := by
  induction l with
  | nil => rfl
  | cons a l ih =>
      by_cases h : p a
      · simpa [h] using ih
      · simp [h]

theorem skipEndOps_idem (code : List LoweredOp) (index : Nat) :
    skipEndOps code (skipEndOps code index) = skipEndOps code index := by
  unfold skipEndOps
  rw [← List.drop_drop, takeWhile_drop_takeWhile]
  rfl

theorem skipEndOps_of_ne {code : List LoweredOp} {index : Nat} {op : LoweredOp}
    (hget : code[index]? = some op) (hop : op.op ≠ .opEnd) : skipEndOps code index = index := by
  simp [skipEndOps, drop_eq_cons hget, hop]

/-- Skipping stops at the latest at an op that is not `op_end`. -/
theorem skipEndOps_le {code : List LoweredOp} {index stop : Nat} {op : LoweredOp}
    (hle : index ≤ stop) (hget : code[stop]? = some op) (hop : op.op ≠ .opEnd) :
    skipEndOps code index ≤ stop := by
  by_contra hlt
  have hlen : stop - index < ((code.drop index).takeWhile (·.op == .opEnd)).length := by
    unfold skipEndOps at hlt
    omega
  have hfront := List.takeWhile_prefix (fun op : LoweredOp => op.op == .opEnd) (l := code.drop index)
  have hget' := List.prefix_iff_getElem?.mp hfront _ hlen
  rw [List.getElem?_drop, Nat.add_sub_cancel' hle, hget] at hget'
  have hmem := List.mem_takeWhile_imp (List.getElem_mem hlen)
  rw [← Option.some.inj hget'] at hmem
  exact hop (by simpa using hmem)

theorem load8Update_congr {word word' : Words} {first first' : Nat}
    (h : ∀ i, i < 7 → word (first + i) = word' (first' + i)) (s : VmState) :
    load8Update word first s = load8Update word' first' s := by
  have hzero := h 0 (by decide)
  rw [Nat.add_zero, Nat.add_zero] at hzero
  simp only [load8Update, hzero, h 1 (by decide), h 2 (by decide), h 3 (by decide),
    h 4 (by decide), h 5 (by decide), h 6 (by decide)]

theorem evalLocalCmp32_congr {word word' : Words} {first first' : Nat}
    (h : ∀ i, i < 3 → word (first + i) = word' (first' + i)) (s : VmState) :
    evalLocalCmp32 word first s = evalLocalCmp32 word' first' s := by
  have hzero := h 0 (by decide)
  rw [Nat.add_zero, Nat.add_zero] at hzero
  simp only [evalLocalCmp32, hzero, h 1 (by decide), h 2 (by decide)]

end Telomere.Vm
