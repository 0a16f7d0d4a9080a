import Telomere.Lib.Loop
import Telomere.Vm.Machine

/-!
# Loop superinstructions

Handlers that run a whole loop on copies of locals, and the loops of ordinary ops they stand
for. A handler's checkpoints are not modelled.
-/

namespace Telomere.Vm

open Optimizer Lib

/-- What a loop handler keeps in variables of its own between two passes: the node it is at, and
the key of a search or the node before. -/
structure Cached where
  cursor : BitVec 32
  other : BitVec 32

structure LoopHandler where
  enter : Words → VmState → Cached
  pass : Words → Cached → VmState →
    Except Trap (Pass (Cached × VmState) (Control × VmState))

/-- The search loops differ in the width of the field, the mask of the key, the compare, where
the operands of the `next` field start and where a search without a match goes on. -/
structure SearchLoop where
  mask : BitVec 32
  read : Memory → Nat → Except Trap (BitVec 32)
  matched : Words → BitVec 32 → BitVec 32 → Bool
  nextAt : Nat
  miss : Next

def SearchLoop.handler (loop : SearchLoop) : LoopHandler where
  enter word s := ⟨s.locals (u32 (word 0)), s.locals (u32 (word 6)) &&& loop.mask⟩
  pass word cached s := do
    let data ← s.memory.readU32At (← computeMemoryOffset (word 2) (cached.cursor + u32 (word 1)))
    let s := s.setLocal (u32 (word 3)) data
    let value ← loop.read s.memory (← computeMemoryOffset (word 5) (data + u32 (word 4)))
    if loop.matched word value cached.other then
      return .leave (⟨.jump (loop.nextAt + 2) 0, false⟩, s)
    else
      let next ← s.memory.readU32At (← computeMemoryOffset (word (loop.nextAt + 1))
        (cached.cursor + u32 (word loop.nextAt)))
      let s := s.setLocal (u32 (word 0)) next
      if next = 0 then return .leave (⟨loop.miss, false⟩, s)
      else return .again (⟨next, cached.other⟩, s)

/-- `op_i32_load_local_base_set4_i32_load16_u_local_base_local_eq_search_loop` and its
fallthrough form. -/
def eqSearchLoop (miss : Next) : SearchLoop :=
  ⟨0xffff, readU16Word, fun _ value rhs => value == rhs, 7, miss⟩

/-- `op_i32_load_local_base_set4_i32_load8_u_local_base_local_masked_search_loop` and its
fallthrough form. -/
def maskedSearchLoop (miss : Next) : SearchLoop :=
  ⟨0xff, readU8Word, fun word => maskedCompare (u32 (word 7)).toNat, 8, miss⟩

/-- `op_i32_load_store_local_base_reverse_loop`: operands are the locals `prev`, `saved` and
`cursor` and two memargs. -/
def reverseLoop : LoopHandler where
  enter word s := ⟨s.locals (u32 (word 2)), s.locals (u32 (word 0))⟩
  pass word cached s := do
    let s := s.setLocal (u32 (word 1)) cached.other
    let s := s.setLocal (u32 (word 0)) cached.cursor
    let next ← s.memory.readU32At (← computeMemoryOffset (word 3) cached.cursor)
    let s := s.setLocal (u32 (word 2)) next
    let memory ← s.memory.writeU32At (← computeMemoryOffset (word 4) cached.cursor) cached.other
    let s := { s with memory := memory }
    if next = 0 then return .leave (⟨.fall 5, false⟩, s)
    else return .again (⟨next, cached.cursor⟩, s)

/-- `op_i32_load_store_local_base_relink_loop`: operands are the locals `cursor`, `current` and
`prev` and two memargs. `prev` is not cached. -/
def relinkLoop : LoopHandler where
  enter word s := ⟨s.locals (u32 (word 0)), 0⟩
  pass word cached s := do
    let s := s.setLocal (u32 (word 1)) cached.cursor
    let next ← s.memory.readU32At (← computeMemoryOffset (word 3) cached.cursor)
    let s := s.setLocal (u32 (word 0)) next
    let prev := s.locals (u32 (word 2))
    let memory ← s.memory.writeU32At (← computeMemoryOffset (word 4) cached.cursor) prev
    let s := ({ s with memory := memory }).setLocal (u32 (word 2)) cached.cursor
    if next = 0 then return .leave (⟨.fall 5, false⟩, s)
    else return .again (⟨next, cached.other⟩, s)

def loopHandler : Op → Option LoopHandler
  | .opI32LoadLocalBaseSet4I32Load16ULocalBaseLocalEqSearchLoop =>
      some (eqSearchLoop (.jump 10 0)).handler
  | .opI32LoadLocalBaseSet4I32Load16ULocalBaseLocalEqSearchLoopFallthrough =>
      some (eqSearchLoop (.fall 16)).handler
  | .opI32LoadLocalBaseSet4I32Load8ULocalBaseLocalMaskedSearchLoop =>
      some (maskedSearchLoop (.jump 11 0)).handler
  | .opI32LoadLocalBaseSet4I32Load8ULocalBaseLocalMaskedSearchLoopFallthrough =>
      some (maskedSearchLoop (.fall 17)).handler
  | .opI32LoadStoreLocalBaseReverseLoop => some reverseLoop
  | .opI32LoadStoreLocalBaseRelinkLoop => some relinkLoop
  | _ => none

abbrev Outcome := Except Trap (Option Nat × VmState)

/-- Where a pass of the superinstruction `op` leads. -/
def settle (code : List LoweredOp) (index : Nat) (op : LoweredOp) :
    Except Trap (Pass (Cached × VmState) (Control × VmState)) → Pass (Cached × VmState) Outcome
  | .error trap => .leave (.error trap)
  | .ok (.again state) => .again state
  | .ok (.leave (control, s)) => .leave (.ok (continuation code index op control, s))

def superPass (f : LoweredFunction) (index : Nat) (state : Cached × VmState) :
    Pass (Cached × VmState) Outcome :=
  match f.code[index]?.bind fun op => (loopHandler op.op).map (·, op) with
  | none => .leave (.error .invalidOperand)
  | some (handler, op) =>
      settle f.code index op (handler.pass (words f.constPool op) state.1 state.2)

def superEnter (f : LoweredFunction) (index : Nat) (s : VmState) : Cached × VmState :=
  match f.code[index]?.bind fun op => (loopHandler op.op).map (·, op) with
  | none => (⟨0, 0⟩, s)
  | some (handler, op) => (handler.enter (words f.constPool op) s, s)

/-- The ops of a loop by their decisions. `back` stands behind the taken branch that closes the
loop. -/
inductive LoopBody where
  | leave
  | back
  | op (fall taken : LoopBody)
deriving DecidableEq, Repr

/-- Whether the closing branch was taken, and where the ops lead. -/
def LoopBody.run (f : LoweredFunction) : LoopBody → Option Nat → VmState →
    Except Trap (Bool × Option Nat × VmState)
  | .leave, index, s => .ok (false, index, s)
  | .back, index, s => .ok (true, index, s)
  | .op _ _, none, _ => .error .invalidOperand
  | .op fall taken, some index, s => do
      let (next, index, s) ← step f index s
      match next with
      | .fall _ => fall.run f index s
      | .jump _ _ => taken.run f index s

/-- Behind the closing branch: the ops from its target on are executed until they are back at
the loop's first op. A target behind it closes no loop. -/
def reenter (f : LoweredFunction) (cursor : Nat) (s : VmState) : Option Nat → Pass VmState Outcome
  | none => .leave (.ok (none, s))
  | some target =>
      if cursor < target then .leave (.ok (some target, s))
      else
        match runStraight f (cursor - target) (some target) s with
        | .error trap => .leave (.error trap)
        | .ok (index, s) => if index = some cursor then .again s else .leave (.ok (index, s))

def close (f : LoweredFunction) (cursor : Nat) :
    Except Trap (Bool × Option Nat × VmState) → Pass VmState Outcome
  | .error trap => .leave (.error trap)
  | .ok (false, index, s) => .leave (.ok (index, s))
  | .ok (true, index, s) => reenter f cursor s index

def loopPass (f : LoweredFunction) (cursor : Nat) (body : LoopBody) (s : VmState) :
    Pass VmState Outcome :=
  close f cursor (body.run f (some cursor) s)

/-- An op that leaves a state with this many words on the stack as it is: `op_end`, and `op_loop`
when they are the words below the loop and its parameters. -/
def Idle (height : Nat) (op : LoweredOp) : Prop :=
  (op.op = .opEnd ∧ op.operands = []) ∨
    ∃ param, op.op = .opLoop ∧ op.operands = [.raw param] ∧
      loopStackTop param + loopParamSize param = height

theorem Idle.exec_eq {height : Nat} {op : LoweredOp} (h : Idle height op) (pool : ConstPool)
    {s : VmState} (hs : s.stack.length = height) :
    exec op.op (words pool op) s = .ok (⟨.fall op.operands.length, false⟩, s) := by
  rcases h with ⟨hop, hnone⟩ | ⟨param, hop, hone, hheight⟩
  · rw [hop, hnone]
    rfl
  · have hword : words pool op 0 = param := by simp [words, hone, operandWord]
    have hstack : s.stack.length - loopStackTop param = loopParamSize param := by omega
    have hreturn : blockReturn s (loopStackTop param) (loopParamSize param) = .ok s := by
      rw [blockReturn, if_neg (by omega), hstack, List.take_append_drop]
    rw [hop, hone]
    simp only [exec, hword, hreturn]
    rfl

/-- A closing branch that leads over idle ops to the loop's first op goes round again. -/
theorem reenter_again {f : LoweredFunction} {cursor target height : Nat} {s : VmState}
    (htarget : target ≤ cursor) (hs : s.stack.length = height)
    (hidle : ∀ i, target ≤ i → i < cursor → ∃ op, f.code[i]? = some op ∧ Idle height op) :
    reenter f cursor s (some target) = .again s := by
  have hrun : runStraight f (cursor - target) (some target) s = .ok (some cursor, s) := by
    have := runStraight_falls (f := f) (s := s) (cursor - target) target fun i hi => by
      obtain ⟨op, hget, hop⟩ := hidle (target + i) (by omega) (by omega)
      exact ⟨op, hget, hop.exec_eq f.constPool hs⟩
    rw [this, Nat.add_sub_cancel' htarget]
  rw [reenter, if_neg (by omega), hrun]
  simp

end Telomere.Vm
