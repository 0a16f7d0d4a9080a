import Telomere.Optimizer.Select
import Telomere.Vm.Machine

/-!
# Bit-step fusion

A shift by one, the same value xored with a polynomial and a `select` between the two are one op
of the interpreter. The matcher recognises the window's constants by their raw operands.
-/

namespace Telomere.Optimizer

open Vm

def rawI32 : Option LoweredOperand → Option (BitVec 32)
  | some (.raw encoded) => some (u32 encoded)
  | _ => none

/-- `raw_u32_operand` of a word. -/
def rawWordOperand (value : BitVec 32) : LoweredOperand :=
  rawU32Operand value.toNat

/-- `I32_SELECT_BIT_STEP_MASK_SHIFTED` -/
def maskShifted : BitVec 32 := 1

/-- `I32_SELECT_BIT_STEP_EQ_CONDITION` -/
def eqCondition : BitVec 32 := 2

/-- `I32_SELECT_BIT_STEP_TEE_DST` -/
def teeDst : BitVec 32 := 4

def isI32SelectInst (inst : CanonInst) : Bool :=
  inst.op = .opSelect || inst.op = .opSelect4

/-- The destination, the flags and the position of the window's last instruction. -/
def matchI32SelectBitStepConsumer (insts : List CanonInst) (cursor : Nat) (flags : BitVec 32) :
    LoweredOperand × BitVec 32 × Nat :=
  match insts[cursor]?.bind rawLocalTee with
  | some dst => (dst, flags ||| teeDst, cursor)
  | none => (rawU32Operand (2 ^ 32 - 1), flags, cursor - 1)

def makeI32SelectBitStepInst (first last : CanonInst) (operands : List LoweredOperand) :
    CanonInst where
  op := .opI32SelectBitStep4
  operands
  stackBefore := first.stackBefore
  stackAfter := last.stackAfter

def matchSourceShift (insts : List CanonInst) (cursor : Nat) : Option (BitVec 32 × Nat) :=
  match insts[cursor]?, insts[cursor + 1]? with
  | some shift, some shr =>
      if shift.op = .opI32Const ∧ shr.op = .opI32ShrU then do
        return (← rawI32 shift.operands.head?, cursor + 2)
      else some (0, cursor)
  | _, _ => some (0, cursor)

/-- The source, its shift, the previous value and the length of the condition. -/
def matchI32XorLsbCondition (insts : List CanonInst) (cursor : Nat) :
    Option (LoweredOperand × BitVec 32 × LoweredOperand × Nat) := do
  let source ← insts[cursor]?.bind rawLocalGet
  let (sourceShift, at_) ← matchSourceShift insts (cursor + 1)
  let prev ← insts[at_]?.bind rawLocalGet
  let xor ← insts[at_ + 1]?
  let one ← insts[at_ + 2]?
  let and ← insts[at_ + 3]?
  if xor.op ≠ .opI32Xor ∨ rawI32 one.operands.head? ≠ some 1 ∨ and.op ≠ .opI32And then none
  else some (source, sourceShift, prev, at_ + 4 - cursor)

def matchI32SelectBitStepXorCondition (insts : List CanonInst) (start cursor : Nat)
    (tmpLocal : LoweredOperand) (flags : BitVec 32) : Option (CanonInst × Nat) := do
  let poly ← insts[cursor]?
  let xor ← insts[cursor + 1]?
  let tmpGet ← insts[cursor + 2]?.bind rawLocalGet
  if xor.op ≠ .opI32Xor ∨ !sameRawOperand tmpGet tmpLocal then none
  else
    let (sourceLocal, sourceShift, prevLocal, conditionConsumed) ←
      matchI32XorLsbCondition insts (cursor + 3)
    let selectCursor := cursor + 3 + conditionConsumed
    let select ← insts[selectCursor]?
    if !isI32SelectInst select then none
    else
      let (dstLocal, flags, lastCursor) :=
        matchI32SelectBitStepConsumer insts (selectCursor + 1) flags
      let operands := [tmpLocal, ← poly.operands.head?, sourceLocal, rawWordOperand sourceShift,
        prevLocal, rawWordOperand flags, dstLocal]
      let first ← insts[start]?
      let last ← insts[lastCursor]?
      return (makeI32SelectBitStepInst first last operands, lastCursor + 1 - start)

def matchI32SelectBitStepEqCondition (insts : List CanonInst) (start cursor : Nat)
    (tmpLocal : LoweredOperand) (flags : BitVec 32) : Option (CanonInst × Nat) := do
  let tmpGet ← insts[cursor]?.bind rawLocalGet
  let poly ← insts[cursor + 1]?
  let xor ← insts[cursor + 2]?
  let prev ← insts[cursor + 3]?.bind rawLocalGet
  let one ← insts[cursor + 4]?
  let and ← insts[cursor + 5]?
  let source ← insts[cursor + 6]?.bind rawLocalGet
  let shift ← insts[cursor + 7]?
  let shr ← insts[cursor + 8]?
  let eq ← insts[cursor + 9]?
  let select ← insts[cursor + 10]?
  if !sameRawOperand tmpGet tmpLocal ∨ xor.op ≠ .opI32Xor ∨
      rawI32 one.operands.head? ≠ some 1 ∨ and.op ≠ .opI32And ∨ shr.op ≠ .opI32ShrU ∨
      eq.op ≠ .opI32Eq ∨ !isI32SelectInst select then none
  else
    let (dstLocal, flags, lastCursor) :=
      matchI32SelectBitStepConsumer insts (cursor + 11) (flags ||| eqCondition)
    let operands := [tmpLocal, ← poly.operands.head?, source,
      rawWordOperand (← rawI32 shift.operands.head?), prev, rawWordOperand flags, dstLocal]
    let first ← insts[start]?
    let last ← insts[lastCursor]?
    return (makeI32SelectBitStepInst first last operands, lastCursor + 1 - start)

/-- The optional mask: an operand `0x7fff` under an `and`. -/
def masksShifted (insts : List CanonInst) (cursor : Nat) : Bool :=
  insts[cursor]?.bind (fun inst => rawI32 inst.operands.head?) = some 0x7fff &&
    insts[cursor + 1]?.any (·.op = .opI32And)

def teeAt (insts : List CanonInst) (cursor : Nat) : Nat :=
  if masksShifted insts (cursor + 2) then cursor + 4 else cursor + 2

def shiftFlags (insts : List CanonInst) (cursor : Nat) : BitVec 32 :=
  if masksShifted insts (cursor + 2) then maskShifted else 0

def matchI32SelectBitStepWindow (insts : List CanonInst) (cursor : Nat) :
    Option (CanonInst × Nat) := do
  let shiftOne ← insts[cursor]?
  let shr ← insts[cursor + 1]?
  if rawI32 shiftOne.operands.head? ≠ some 1 ∨ shr.op ≠ .opI32ShrU then none
  else
    let flags := shiftFlags insts cursor
    let at_ := teeAt insts cursor
    let tmpLocal ← insts[at_]?.bind rawLocalTee
    (matchI32SelectBitStepXorCondition insts cursor (at_ + 1) tmpLocal flags).orElse fun _ =>
      matchI32SelectBitStepEqCondition insts cursor (at_ + 1) tmpLocal flags

def binop (f : BitVec 32 → BitVec 32 → BitVec 32) (s : VmState) : Except Trap VmState := do
  let (b, s) ← s.pop
  let (a, s) ← s.pop
  return s.push (f a b)

def wrappingShr (a b : BitVec 32) : BitVec 32 :=
  a >>> (b.toNat % 32)

/-- `internal_op_select4`, and `internal_op_select` of four bytes: the operands of the window's
`select` are words. -/
def select4 (s : VmState) : Except Trap VmState := do
  let (cond, s) ← s.pop
  let (rhs, s) ← s.pop
  let (lhs, s) ← s.pop
  return s.push (if cond = 0 then rhs else lhs)

def i32SelectBitStep4At (word : Words) (s : VmState) : Except Trap VmState := do
  let flags := u32 (word 5)
  let (value, s) ← s.pop
  let shifted := wrappingShr value 1
  let shifted := if flags &&& maskShifted ≠ 0 then shifted &&& 0x7fff else shifted
  let s := s.setLocal (u32 (word 0)) shifted
  let source := wrappingShr (s.locals (u32 (word 2))) (u32 (word 3))
  let prev := s.locals (u32 (word 4))
  let xored := shifted ^^^ u32 (word 1)
  let selected :=
    if flags &&& eqCondition ≠ 0 then
      if prev &&& 1 = source then shifted else xored
    else if (source ^^^ prev) &&& 1 ≠ 0 then xored else shifted
  let s := s.push selected
  return if flags &&& teeDst ≠ 0 then s.setLocal (u32 (word 6)) selected else s

def instWords (pool : ConstPool) (inst : CanonInst) : Words :=
  fun index => (inst.operands[index]?.map (operandWord pool)).getD 0

/-- One instruction of straight-line code. What the ops outside the window's do is up to
`others`. -/
def execInst (others : CanonInst → VmState → Except Trap VmState) (pool : ConstPool)
    (s : VmState) (inst : CanonInst) : Except Trap VmState :=
  let word := instWords pool inst
  match inst.op with
  | .opLocalGet4 => .ok (s.push (s.locals (u32 (word 0))))
  | .opLocalTee4 => do
      let (value, _) ← s.pop
      return s.setLocal (u32 (word 0)) value
  | .opI32Const => .ok (s.push (u32 (word 0)))
  | .opI32ShrU => binop wrappingShr s
  | .opI32And => binop (· &&& ·) s
  | .opI32Xor => binop (· ^^^ ·) s
  | .opI32Eq => binop (fun a b => if a = b then 1 else 0) s
  | .opSelect => select4 s
  | .opSelect4 => select4 s
  | .opI32SelectBitStep4 => i32SelectBitStep4At word s
  | _ => others inst s

def runInsts (others : CanonInst → VmState → Except Trap VmState) (pool : ConstPool)
    (insts : List CanonInst) (s : VmState) : Except Trap VmState :=
  insts.foldlM (execInst others pool) s

/-- The xor condition that a window starting at `cursor` ends with, if it does. -/
def xorConditionOf (insts : List CanonInst) (cursor : Nat) : Option (CanonInst × Nat) :=
  (insts[teeAt insts cursor]?.bind rawLocalTee).bind fun tmpLocal =>
    matchI32SelectBitStepXorCondition insts cursor (teeAt insts cursor + 1) tmpLocal
      (shiftFlags insts cursor)

def conditionOneAt (insts : List CanonInst) (cursor : Nat) : Nat :=
  match matchSourceShift insts (cursor + 1) with
  | some (_, at_) => at_ + 2
  | none => cursor

/-- Where the matcher takes an operand as a constant without a look at the handler. -/
def constantsAt (insts : List CanonInst) (cursor : Nat) : List Nat :=
  let at_ := teeAt insts cursor + 1
  let mask := if masksShifted insts (cursor + 2) then [cursor + 2] else []
  let condition :=
    if (xorConditionOf insts cursor).isSome then [at_, conditionOneAt insts (at_ + 3)]
    else [at_ + 1, at_ + 4, at_ + 7]
  cursor :: (mask ++ condition)

/-- The shift amount, the mask, the polynomial, the shift of the source and the final one are
`i32.const` instructions. -/
def ConstantsAreI32Const (insts : List CanonInst) (cursor : Nat) : Prop :=
  ∀ at_ ∈ constantsAt insts cursor, ∃ inst, insts[at_]? = some inst ∧ inst.op = .opI32Const

/-- The op does what the instructions it replaces do, whatever those outside the window's
vocabulary do, and what it takes for constants are constants. The first does not give the second:
see `zero_polynomial_same`. -/
structure ExactStep (pool : ConstPool) (insts : List CanonInst) (cursor : Nat)
    (step : CanonInst) (consumed : Nat) : Prop where
  same : ∀ others s, execInst others pool s step =
    runInsts others pool ((insts.drop cursor).take consumed) s
  constants : ConstantsAreI32Const insts cursor

theorem drop_take_succ {α : Type} {xs : List α} {cursor : Nat} {x : α} (h : xs[cursor]? = some x)
    (n : Nat) : (xs.drop cursor).take (n + 1) = x :: (xs.drop (cursor + 1)).take n := by
  obtain ⟨hbound, rfl⟩ := List.getElem?_eq_some_iff.mp h
  rw [List.drop_eq_getElem_cons hbound, List.take_succ_cons]

def runTo (others : CanonInst → VmState → Except Trap VmState) (pool : ConstPool)
    (insts : List CanonInst) (cursor stop : Nat) : VmState → Except Trap VmState :=
  runInsts others pool ((insts.drop cursor).take (stop - cursor))

/-- The instruction at a position does what `f` does. -/
def Executes (others : CanonInst → VmState → Except Trap VmState) (pool : ConstPool)
    (insts : List CanonInst) (at_ : Nat) (f : VmState → Except Trap VmState) : Prop :=
  ∃ inst, insts[at_]? = some inst ∧ ∀ s, execInst others pool s inst = f s

def operandU32 (pool : ConstPool) (operand : LoweredOperand) : BitVec 32 :=
  u32 (operandWord pool operand)

section Run

variable {others : CanonInst → VmState → Except Trap VmState} {pool : ConstPool}
variable {insts : List CanonInst} {cursor stop at_ : Nat}

theorem runTo_self (s : VmState) : runTo others pool insts stop stop s = .ok s := by
  simp [runTo, runInsts, pure, Except.pure]

theorem Executes.runTo {f : VmState → Except Trap VmState}
    (h : Executes others pool insts cursor f) (hlt : cursor < stop) (s : VmState) :
    runTo others pool insts cursor stop s =
      (f s).bind (runTo others pool insts (cursor + 1) stop) := by
  obtain ⟨inst, hinst, hexec⟩ := h
  have hlen : stop - cursor = stop - (cursor + 1) + 1 := by omega
  rw [Optimizer.runTo, hlen, drop_take_succ hinst, runInsts, List.foldlM_cons, hexec]
  rfl

theorem instWords_head {inst : CanonInst} {operand : LoweredOperand}
    (h : inst.operands.head? = some operand) :
    u32 (instWords pool inst 0) = operandU32 pool operand := by
  rw [List.head?_eq_getElem?] at h
  simp [instWords, h, operandU32]

theorem executes_localGet {operand : LoweredOperand}
    (h : insts[at_]?.bind rawLocalGet = some operand) :
    Executes others pool insts at_ fun s => .ok (s.push (s.locals (operandU32 pool operand))) := by
  obtain ⟨inst, hinst, hraw⟩ := Option.bind_eq_some_iff.mp h
  obtain ⟨hop, hhead⟩ := Option.ite_none_right_eq_some.mp hraw
  exact ⟨inst, hinst, fun s => by simp [execInst, hop, instWords_head hhead]⟩

theorem executes_localTee {operand : LoweredOperand}
    (h : insts[at_]?.bind rawLocalTee = some operand) :
    Executes others pool insts at_ fun s =>
      s.pop.bind fun popped => .ok (s.setLocal (operandU32 pool operand) popped.1) := by
  obtain ⟨inst, hinst, hraw⟩ := Option.bind_eq_some_iff.mp h
  obtain ⟨hop, hhead⟩ := Option.ite_none_right_eq_some.mp hraw
  exact ⟨inst, hinst, fun s => by simp [execInst, hop, instWords_head hhead]; rfl⟩

theorem executes_const {inst : CanonInst} {operand : LoweredOperand}
    (hinst : insts[at_]? = some inst)
    (hop : inst.op = .opI32Const) (hhead : inst.operands.head? = some operand) :
    Executes others pool insts at_ fun s => .ok (s.push (operandU32 pool operand)) :=
  ⟨inst, hinst, fun s => by simp [execInst, hop, instWords_head hhead]⟩

theorem operandU32_of_rawI32 (pool : ConstPool) {operand : Option LoweredOperand}
    {value : BitVec 32}
    (h : rawI32 operand = some value) :
    ∃ found, operand = some found ∧ operandU32 pool found = value := by
  unfold rawI32 at h
  split at h
  · next encoded => exact ⟨.raw encoded, rfl, Option.some.inj h⟩
  · cases h

/-- A position that holds an `i32.const` pushes the word that its raw operand was read as. -/
theorem executes_rawI32 {inst : CanonInst} {value : BitVec 32}
    (hconst : ∃ inst, insts[at_]? = some inst ∧ inst.op = .opI32Const)
    (hinst : insts[at_]? = some inst) (hraw : rawI32 inst.operands.head? = some value) :
    Executes others pool insts at_ fun s => .ok (s.push value) := by
  obtain ⟨found, hfound, hop⟩ := hconst
  obtain rfl : found = inst := Option.some.inj (hfound.symm.trans hinst)
  obtain ⟨operand, hhead, hvalue⟩ := operandU32_of_rawI32 pool hraw
  exact hvalue ▸ executes_const hinst hop hhead

theorem binop_push (f : BitVec 32 → BitVec 32 → BitVec 32) (s : VmState) (a b : BitVec 32) :
    binop f ((s.push a).push b) = .ok (s.push (f a b)) := rfl

theorem select4_push (s : VmState) (lhs rhs cond : BitVec 32) :
    select4 (((s.push lhs).push rhs).push cond) =
      .ok (s.push (if cond = 0 then rhs else lhs)) := rfl

theorem executes_select {inst : CanonInst} (hinst : insts[at_]? = some inst)
    (hselect : isI32SelectInst inst = true) : Executes others pool insts at_ select4 := by
  refine ⟨inst, hinst, fun s => ?_⟩
  simp only [isI32SelectInst, Bool.or_eq_true, decide_eq_true_eq] at hselect
  rcases hselect with hop | hop <;> simp [execInst, hop]

theorem binop_executes {inst : CanonInst} (hinst : insts[at_]? = some inst)
    {f : BitVec 32 → BitVec 32 → BitVec 32}
    (hexec : ∀ s, execInst others pool s inst = binop f s) (hlt : at_ < stop) (s : VmState)
    (a b : BitVec 32) :
    runTo others pool insts at_ stop ((s.push a).push b) =
      runTo others pool insts (at_ + 1) stop (s.push (f a b)) := by
  rw [Executes.runTo ⟨inst, hinst, hexec⟩ hlt, binop_push]
  rfl

end Run

/-- What the fused op shifts and masks the value on the stack to. -/
def shiftedValue (flags value : BitVec 32) : BitVec 32 :=
  if flags &&& maskShifted ≠ 0 then wrappingShr value 1 &&& 0x7fff else wrappingShr value 1

section Window

variable {others : CanonInst → VmState → Except Trap VmState} {pool : ConstPool}
variable {insts : List CanonInst} {cursor stop : Nat}

theorem cursor_lt_teeAt (insts : List CanonInst) (cursor : Nat) :
    cursor + 1 < teeAt insts cursor := by
  unfold teeAt
  split <;> omega

/-- What a match says about the instructions up to the first `local.tee`. -/
structure ShiftWindow (insts : List CanonInst) (cursor : Nat) (tmpLocal : LoweredOperand) :
    Prop where
  one : ∃ inst, insts[cursor]? = some inst ∧ rawI32 inst.operands.head? = some 1
  shr : ∃ inst, insts[cursor + 1]? = some inst ∧ inst.op = .opI32ShrU
  tee : insts[teeAt insts cursor]?.bind rawLocalTee = some tmpLocal

theorem runTo_mask (hconst : ConstantsAreI32Const insts cursor)
    (hstop : teeAt insts cursor < stop) (s : VmState) (value : BitVec 32) :
    runTo others pool insts (cursor + 2) stop (s.push (wrappingShr value 1)) =
      runTo others pool insts (teeAt insts cursor) stop
        (s.push (shiftedValue (shiftFlags insts cursor) value)) := by
  by_cases hmask : masksShifted insts (cursor + 2)
  · have hread := hmask
    simp only [masksShifted, Bool.and_eq_true, decide_eq_true_eq, Option.any_eq_true] at hread
    obtain ⟨hvalue, and, hand, hop⟩ := hread
    obtain ⟨mask, hget, hraw⟩ := Option.bind_eq_some_iff.mp hvalue
    have hat : teeAt insts cursor = cursor + 4 := if_pos hmask
    rw [hat] at hstop ⊢
    have hi32 := hconst (cursor + 2) (by simp [constantsAt, hmask])
    rw [(executes_rawI32 hi32 hget hraw).runTo (by omega), Except.bind,
      binop_executes hand (f := (· &&& ·)) (fun s => by simp [execInst, hop]) (by omega)]
    simp [shiftedValue, shiftFlags, hmask, maskShifted]
  · have hat : teeAt insts cursor = cursor + 2 := if_neg hmask
    rw [hat]
    simp [shiftedValue, shiftFlags, hmask]

theorem ShiftWindow.run {tmpLocal : LoweredOperand} (h : ShiftWindow insts cursor tmpLocal)
    (hconst : ConstantsAreI32Const insts cursor) (hstop : teeAt insts cursor < stop)
    (s : VmState) (value : BitVec 32) :
    runTo others pool insts cursor stop (s.push value) =
      runTo others pool insts (teeAt insts cursor + 1) stop
        ((s.setLocal (operandU32 pool tmpLocal)
          (shiftedValue (shiftFlags insts cursor) value)).push
            (shiftedValue (shiftFlags insts cursor) value)) := by
  obtain ⟨one, hone, hraw⟩ := h.one
  obtain ⟨shr, hshr, hop⟩ := h.shr
  have hlt := cursor_lt_teeAt insts cursor
  have hi32 := hconst cursor (by simp [constantsAt])
  rw [(executes_rawI32 hi32 hone hraw).runTo (by omega), Except.bind,
    binop_executes hshr (f := wrappingShr) (fun s => by simp [execInst, hop]) (by omega),
    runTo_mask hconst hstop,
    (executes_localTee h.tee).runTo hstop]
  rfl

theorem ShiftWindow.run_empty {tmpLocal : LoweredOperand} (h : ShiftWindow insts cursor tmpLocal)
    (hconst : ConstantsAreI32Const insts cursor) (hstop : teeAt insts cursor < stop)
    {s : VmState} (hempty : s.stack = []) :
    runTo others pool insts cursor stop s = .error .invalidOperand := by
  obtain ⟨one, hone, hraw⟩ := h.one
  obtain ⟨shr, hshr, hop⟩ := h.shr
  have hlt := cursor_lt_teeAt insts cursor
  have hi32 := hconst cursor (by simp [constantsAt])
  have hfail : binop wrappingShr (s.push 1) = .error .invalidOperand := by
    simp [binop, VmState.pop, VmState.push, hempty, bind, Except.bind]
  rw [(executes_rawI32 hi32 hone hraw).runTo (by omega), Except.bind,
    Executes.runTo ⟨shr, hshr, fun s => by simp [execInst, hop]; rfl⟩ (by omega), hfail]
  rfl

theorem sourceShift_run {shift : BitVec 32} {at_ : Nat}
    (h : matchSourceShift insts cursor = some (shift, at_)) (hstop : at_ ≤ stop) (s : VmState)
    (value : BitVec 32) :
    cursor ≤ at_ ∧ runTo others pool insts cursor stop (s.push value) =
      runTo others pool insts at_ stop (s.push (wrappingShr value shift)) := by
  have hzero : wrappingShr value 0 = value := by simp [wrappingShr]
  unfold matchSourceShift at h
  split at h
  · next found shr hfound hshr =>
      split at h
      · next hops =>
          obtain ⟨amount, hraw, heq⟩ := Option.bind_eq_some_iff.mp h
          obtain ⟨rfl, rfl⟩ := Prod.mk.inj (Option.some.inj heq)
          refine ⟨by omega, ?_⟩
          rw [(executes_rawI32 ⟨_, hfound, hops.1⟩ hfound hraw).runTo (by omega), Except.bind,
            binop_executes hshr (f := wrappingShr) (fun s => by simp [execInst, hops.2]) (by omega)]
      · obtain ⟨rfl, rfl⟩ := Prod.mk.inj (Option.some.inj h)
        exact ⟨le_refl _, by rw [hzero]⟩
  · obtain ⟨rfl, rfl⟩ := Prod.mk.inj (Option.some.inj h)
    exact ⟨le_refl _, by rw [hzero]⟩

/-- The lowest bit of the xor of the shifted source and the previous value. -/
def lsbCondition (locals : BitVec 32 → BitVec 32) (source shift prev : BitVec 32) : BitVec 32 :=
  (wrappingShr (locals source) shift ^^^ locals prev) &&& 1

theorem xorLsbCondition_run {source prev : LoweredOperand} {shift : BitVec 32} {consumed : Nat}
    (h : matchI32XorLsbCondition insts cursor = some (source, shift, prev, consumed))
    (hconst : ∃ inst, insts[conditionOneAt insts cursor]? = some inst ∧ inst.op = .opI32Const)
    (hstop : cursor + consumed ≤ stop) (s : VmState) :
    runTo others pool insts cursor stop s = runTo others pool insts (cursor + consumed) stop
      (s.push (lsbCondition s.locals (operandU32 pool source) shift (operandU32 pool prev))) := by
  obtain ⟨source, hsource, h⟩ := Option.bind_eq_some_iff.mp h
  obtain ⟨⟨shift, at_⟩, hshift, h⟩ := Option.bind_eq_some_iff.mp h
  obtain ⟨prev, hprev, h⟩ := Option.bind_eq_some_iff.mp h
  obtain ⟨xor, hxor, h⟩ := Option.bind_eq_some_iff.mp h
  obtain ⟨one, hone, h⟩ := Option.bind_eq_some_iff.mp h
  obtain ⟨and, hand, h⟩ := Option.bind_eq_some_iff.mp h
  obtain ⟨hops, h⟩ := Option.ite_none_left_eq_some.mp h
  simp only [not_or, not_not] at hops
  obtain ⟨hxorOp, hraw, handOp⟩ := hops
  simp only [Option.some.injEq, Prod.mk.injEq] at h
  obtain ⟨rfl, rfl, rfl, rfl⟩ := h
  have hat := (@sourceShift_run others pool _ _ _ _ _ hshift le_rfl s 0).1
  have honeAt : conditionOneAt insts cursor = at_ + 2 := by simp [conditionOneAt, hshift]
  rw [honeAt] at hconst
  have hend : cursor + (at_ + 4 - cursor) = at_ + 4 := by omega
  rw [hend] at hstop ⊢
  rw [(executes_localGet hsource).runTo (by omega), Except.bind,
    (sourceShift_run hshift (by omega) _ _).2, (executes_localGet hprev).runTo (by omega),
    Except.bind, binop_executes hxor (f := (· ^^^ ·)) (fun s => by simp [execInst, hxorOp])
      (by omega), (executes_rawI32 hconst hone hraw).runTo (by omega), Except.bind,
    binop_executes hand (f := (· &&& ·)) (fun s => by simp [execInst, handOp]) (by omega)]
  rfl

/-- The result on the stack, also in the destination when the flags say so. -/
def teeResult (flags dst value : BitVec 32) (s : VmState) : VmState :=
  if flags &&& teeDst ≠ 0 then (s.push value).setLocal dst value else s.push value

theorem consumer_run {flags flags' : BitVec 32} {dst : LoweredOperand} {last : Nat}
    (h : matchI32SelectBitStepConsumer insts (cursor + 1) flags = (dst, flags', last))
    (hflags : flags &&& teeDst = 0) (s : VmState) (value : BitVec 32) :
    runTo others pool insts (cursor + 1) (last + 1) (s.push value) =
      .ok (teeResult flags' (operandU32 pool dst) value s) := by
  unfold matchI32SelectBitStepConsumer at h
  split at h
  · next tee htee =>
      simp only [Prod.mk.injEq] at h
      obtain ⟨rfl, rfl, rfl⟩ := h
      have hset : (flags ||| teeDst) &&& teeDst ≠ 0 := by
        intro hzero
        have hbit := congrArg (·.getLsbD 2) hzero
        simp [teeDst] at hbit
      rw [(executes_localTee htee).runTo (by omega), teeResult, if_pos hset]
      exact runTo_self _
  · simp only [Prod.mk.injEq] at h
    obtain ⟨rfl, rfl, rfl⟩ := h
    rw [teeResult, if_neg (not_not.mpr hflags)]
    exact runTo_self _

theorem consumer_flags {flags flags' : BitVec 32} {dst : LoweredOperand} {last : Nat}
    (h : matchI32SelectBitStepConsumer insts (cursor + 1) flags = (dst, flags', last))
    {bit : BitVec 32} (hbit : teeDst &&& bit = 0) : flags' &&& bit = flags &&& bit := by
  unfold matchI32SelectBitStepConsumer at h
  split at h <;> obtain ⟨rfl, rfl, rfl⟩ := Prod.mk.inj h |>.imp id Prod.mk.inj
  · rw [BitVec.and_or_distrib_right, hbit]
    exact BitVec.or_zero
  · rfl

theorem cursor_le_last {flags flags' : BitVec 32} {dst : LoweredOperand} {last : Nat}
    (h : matchI32SelectBitStepConsumer insts (cursor + 1) flags = (dst, flags', last)) :
    cursor ≤ last := by
  unfold matchI32SelectBitStepConsumer at h
  split at h <;> simp only [Prod.mk.injEq] at h <;> omega

theorem operandU32_rawWord (pool : ConstPool) (value : BitVec 32) :
    operandU32 pool (rawWordOperand value) = value := by
  apply BitVec.eq_of_toNat_eq
  exact u32_ofNat value.isLt

def selected (flags shifted poly source prev : BitVec 32) : BitVec 32 :=
  if flags &&& eqCondition ≠ 0 then
    if prev &&& 1 = source then shifted else shifted ^^^ poly
  else if (source ^^^ prev) &&& 1 ≠ 0 then shifted ^^^ poly else shifted

theorem step_run (first last : CanonInst) (tmp poly source prev dst : LoweredOperand)
    (shift flags value : BitVec 32) (s : VmState) :
    execInst others pool (s.push value) (makeI32SelectBitStepInst first last
        [tmp, poly, source, rawWordOperand shift, prev, rawWordOperand flags, dst]) =
      .ok (let shifted := shiftedValue flags value
        let s := s.setLocal (operandU32 pool tmp) shifted
        teeResult flags (operandU32 pool dst)
          (selected flags shifted (operandU32 pool poly)
            (wrappingShr (s.locals (operandU32 pool source)) shift)
            (s.locals (operandU32 pool prev))) s) := by
  have hflags := operandU32_rawWord pool flags
  have hshift := operandU32_rawWord pool shift
  simp only [operandU32] at hflags hshift
  simp only [execInst, makeI32SelectBitStepInst, i32SelectBitStep4At, instWords, operandU32,
    List.getElem?_cons_zero, List.getElem?_cons_succ, Option.map_some, Option.getD_some, hflags,
    hshift, VmState.pop_push, bind, Except.bind, pure, Except.pure, selected, teeResult,
    shiftedValue]
  split <;> rfl

/-! ## The two forms of the window -/

theorem sameRawOperand_eq {first second : LoweredOperand}
    (h : sameRawOperand first second = true) : first = second := by
  unfold sameRawOperand at h
  split at h
  · rw [eq_of_beq h]
  · cases h

theorem ite_word_eq_zero {α : Type} (p : Prop) [Decidable p] (a b : α) :
    (if (if p then (1 : BitVec 32) else 0) = 0 then a else b) = if p then b else a := by
  by_cases hp : p <;> simp [hp]

theorem setLocal_locals_self (s : VmState) (addr value : BitVec 32) :
    (s.setLocal addr value).locals addr = value := if_pos rfl

theorem shiftFlags_low : shiftFlags insts cursor &&& teeDst = 0 ∧
    shiftFlags insts cursor &&& eqCondition = 0 := by
  unfold shiftFlags
  split <;> decide

/-- What the window leaves on a stack with the value on top. -/
def windowResult (pool : ConstPool) (insts : List CanonInst) (cursor : Nat)
    (tmp poly source prev dst : LoweredOperand) (shift flags value : BitVec 32) (s : VmState) :
    VmState :=
  let shifted := shiftedValue (shiftFlags insts cursor) value
  let s := s.setLocal (operandU32 pool tmp) shifted
  teeResult flags (operandU32 pool dst)
    (selected flags shifted (operandU32 pool poly)
      (wrappingShr (s.locals (operandU32 pool source)) shift)
      (s.locals (operandU32 pool prev))) s

structure StepWindow (pool : ConstPool) (insts : List CanonInst) (cursor : Nat)
    (tmp : LoweredOperand) (step : CanonInst) (consumed : Nat) : Prop where
  lt : teeAt insts cursor + 1 < cursor + consumed
  run : ConstantsAreI32Const insts cursor → ∃ first last poly source prev dst shift flags,
    step = makeI32SelectBitStepInst first last
      [tmp, poly, source, rawWordOperand shift, prev, rawWordOperand flags, dst] ∧
    flags &&& maskShifted = shiftFlags insts cursor &&& maskShifted ∧
    ∀ others s value, runTo others pool insts (teeAt insts cursor + 1) (cursor + consumed)
      ((s.setLocal (operandU32 pool tmp) (shiftedValue (shiftFlags insts cursor) value)).push
        (shiftedValue (shiftFlags insts cursor) value)) =
      .ok (windowResult pool insts cursor tmp poly source prev dst shift flags value s)

theorem StepWindow.of_xor {tmp : LoweredOperand} {step : CanonInst} {consumed : Nat}
    (htee : insts[teeAt insts cursor]?.bind rawLocalTee = some tmp)
    (h : matchI32SelectBitStepXorCondition insts cursor (teeAt insts cursor + 1) tmp
      (shiftFlags insts cursor) = some (step, consumed)) :
    StepWindow pool insts cursor tmp step consumed := by
  have hconstants : constantsAt insts cursor = cursor ::
      ((if masksShifted insts (cursor + 2) then [cursor + 2] else []) ++
        [teeAt insts cursor + 1, conditionOneAt insts (teeAt insts cursor + 1 + 3)]) := by
    simp [constantsAt, xorConditionOf, htee, h]
  obtain ⟨poly, hpoly, h⟩ := Option.bind_eq_some_iff.mp h
  obtain ⟨xor, hxor, h⟩ := Option.bind_eq_some_iff.mp h
  obtain ⟨tmpGet, htmp, h⟩ := Option.bind_eq_some_iff.mp h
  obtain ⟨hops, h⟩ := Option.ite_none_left_eq_some.mp h
  simp only [not_or, not_not, Bool.not_eq_true', Bool.not_eq_false] at hops
  obtain ⟨hxorOp, hsame⟩ := hops
  obtain rfl := sameRawOperand_eq hsame
  obtain ⟨⟨source, shift, prev, length⟩, hcond, h⟩ := Option.bind_eq_some_iff.mp h
  obtain ⟨select, hselect, h⟩ := Option.bind_eq_some_iff.mp h
  obtain ⟨hisSelect, h⟩ := Option.ite_none_left_eq_some.mp h
  obtain ⟨⟨dst, flags, last⟩, hcons⟩ : ∃ found, matchI32SelectBitStepConsumer insts
    (teeAt insts cursor + 1 + 3 + length + 1) (shiftFlags insts cursor) = found := ⟨_, rfl⟩
  simp only [hcons] at h
  obtain ⟨polyOperand, hpolyOperand, h⟩ := Option.bind_eq_some_iff.mp h
  obtain ⟨first, hfirst, h⟩ := Option.bind_eq_some_iff.mp h
  obtain ⟨lastInst, hlast, h⟩ := Option.bind_eq_some_iff.mp h
  obtain ⟨rfl, rfl⟩ := Prod.mk.inj (Option.some.inj h)
  have hlast := cursor_le_last hcons
  have htee := cursor_lt_teeAt insts cursor
  have hend : cursor + (last + 1 - cursor) = last + 1 := by omega
  have heq : flags &&& eqCondition = 0 :=
    (consumer_flags hcons (by decide)).trans shiftFlags_low.2
  refine ⟨by omega, fun hconst => ?_⟩
  refine ⟨first, lastInst, polyOperand, source, prev, dst, shift, flags, rfl,
    consumer_flags hcons (by decide), fun others s value => ?_⟩
  have hpolyConst := hconst (teeAt insts cursor + 1) (by simp [hconstants])
  obtain ⟨found, hfound, hpolyOp⟩ := hpolyConst
  obtain rfl : found = poly := Option.some.inj (hfound.symm.trans hpoly)
  have honeConst := hconst (conditionOneAt insts (teeAt insts cursor + 1 + 3))
    (by simp [hconstants])
  rw [hend, (executes_const hpoly hpolyOp hpolyOperand).runTo (by omega), Except.bind,
    binop_executes hxor (f := (· ^^^ ·)) (fun s => by simp [execInst, hxorOp]) (by omega),
    (executes_localGet htmp).runTo (by omega), Except.bind,
    xorLsbCondition_run hcond honeConst (by omega),
    (executes_select hselect (by simpa using hisSelect)).runTo (by omega)]
  simp only [VmState.push_locals, setLocal_locals_self, select4_push, Except.bind]
  rw [consumer_run hcons shiftFlags_low.1, windowResult, selected, if_neg (not_not.mpr heq)]
  simp only [lsbCondition, ne_eq, ite_not]
  congr

theorem StepWindow.of_eq {tmp : LoweredOperand} {step : CanonInst} {consumed : Nat}
    (hxorForm : xorConditionOf insts cursor = none)
    (h : matchI32SelectBitStepEqCondition insts cursor (teeAt insts cursor + 1) tmp
      (shiftFlags insts cursor) = some (step, consumed)) :
    StepWindow pool insts cursor tmp step consumed := by
  have hconstants : constantsAt insts cursor = cursor ::
      ((if masksShifted insts (cursor + 2) then [cursor + 2] else []) ++
        [teeAt insts cursor + 1 + 1, teeAt insts cursor + 1 + 4, teeAt insts cursor + 1 + 7]) := by
    simp [constantsAt, hxorForm]
  obtain ⟨tmpGet, htmp, h⟩ := Option.bind_eq_some_iff.mp h
  obtain ⟨poly, hpoly, h⟩ := Option.bind_eq_some_iff.mp h
  obtain ⟨xor, hxor, h⟩ := Option.bind_eq_some_iff.mp h
  obtain ⟨prev, hprev, h⟩ := Option.bind_eq_some_iff.mp h
  obtain ⟨one, hone, h⟩ := Option.bind_eq_some_iff.mp h
  obtain ⟨and, hand, h⟩ := Option.bind_eq_some_iff.mp h
  obtain ⟨source, hsource, h⟩ := Option.bind_eq_some_iff.mp h
  obtain ⟨shiftInst, hshift, h⟩ := Option.bind_eq_some_iff.mp h
  obtain ⟨shr, hshr, h⟩ := Option.bind_eq_some_iff.mp h
  obtain ⟨eq, heqInst, h⟩ := Option.bind_eq_some_iff.mp h
  obtain ⟨select, hselect, h⟩ := Option.bind_eq_some_iff.mp h
  obtain ⟨hops, h⟩ := Option.ite_none_left_eq_some.mp h
  simp only [not_or, not_not, Bool.not_eq_true', Bool.not_eq_false] at hops
  obtain ⟨hsame, hxorOp, honeRaw, handOp, hshrOp, heqOp, hisSelect⟩ := hops
  obtain rfl := sameRawOperand_eq hsame
  obtain ⟨⟨dst, flags, last⟩, hcons⟩ : ∃ found, matchI32SelectBitStepConsumer insts
    (teeAt insts cursor + 1 + 11) (shiftFlags insts cursor ||| eqCondition) = found := ⟨_, rfl⟩
  simp only [hcons] at h
  obtain ⟨polyOperand, hpolyOperand, h⟩ := Option.bind_eq_some_iff.mp h
  obtain ⟨shift, hshiftRaw, h⟩ := Option.bind_eq_some_iff.mp h
  obtain ⟨first, hfirst, h⟩ := Option.bind_eq_some_iff.mp h
  obtain ⟨lastInst, hlastInst, h⟩ := Option.bind_eq_some_iff.mp h
  obtain ⟨rfl, rfl⟩ := Prod.mk.inj (Option.some.inj h)
  have hlast := cursor_le_last hcons
  have htee := cursor_lt_teeAt insts cursor
  have hend : cursor + (last + 1 - cursor) = last + 1 := by omega
  have hmask : flags &&& maskShifted = shiftFlags insts cursor &&& maskShifted := by
    rw [consumer_flags hcons (by decide)]
    unfold shiftFlags
    split <;> decide
  have heq : flags &&& eqCondition ≠ 0 := by
    rw [consumer_flags hcons (by decide)]
    unfold shiftFlags
    split <;> decide
  have htee : (shiftFlags insts cursor ||| eqCondition) &&& teeDst = 0 := by
    unfold shiftFlags
    split <;> decide
  refine ⟨by omega, fun hconst => ?_⟩
  refine ⟨first, lastInst, polyOperand, source, prev, dst, shift, flags, rfl, hmask,
    fun others s value => ?_⟩
  obtain ⟨found, hfound, hpolyOp⟩ := hconst (teeAt insts cursor + 1 + 1) (by simp [hconstants])
  obtain rfl : found = poly := Option.some.inj (hfound.symm.trans hpoly)
  have honeConst := hconst (teeAt insts cursor + 1 + 4) (by simp [hconstants])
  have hshiftConst := hconst (teeAt insts cursor + 1 + 7) (by simp [hconstants])
  rw [hend, (executes_localGet htmp).runTo (by omega), Except.bind,
    (executes_const hpoly hpolyOp hpolyOperand).runTo (by omega), Except.bind,
    binop_executes hxor (f := (· ^^^ ·)) (fun s => by simp [execInst, hxorOp]) (by omega),
    (executes_localGet hprev).runTo (by omega), Except.bind,
    (executes_rawI32 honeConst hone honeRaw).runTo (by omega), Except.bind,
    binop_executes hand (f := (· &&& ·)) (fun s => by simp [execInst, handOp]) (by omega),
    (executes_localGet hsource).runTo (by omega), Except.bind,
    (executes_rawI32 hshiftConst hshift hshiftRaw).runTo (by omega), Except.bind,
    binop_executes hshr (f := wrappingShr) (fun s => by simp [execInst, hshrOp]) (by omega),
    binop_executes heqInst (f := fun a b => if a = b then 1 else 0)
      (fun s => by simp [execInst, heqOp]) (by omega),
    (executes_select hselect (by simpa using hisSelect)).runTo (by omega)]
  simp only [VmState.push_locals, setLocal_locals_self, select4_push, Except.bind]
  rw [consumer_run hcons htee, windowResult, selected, if_pos heq, ite_word_eq_zero]

theorem window_of_match (pool : ConstPool) {step : CanonInst} {consumed : Nat}
    (h : matchI32SelectBitStepWindow insts cursor = some (step, consumed)) :
    ∃ tmp, ShiftWindow insts cursor tmp ∧ StepWindow pool insts cursor tmp step consumed := by
  obtain ⟨shiftOne, hone, h⟩ := Option.bind_eq_some_iff.mp h
  obtain ⟨shr, hshr, h⟩ := Option.bind_eq_some_iff.mp h
  obtain ⟨hops, h⟩ := Option.ite_none_left_eq_some.mp h
  simp only [not_or, not_not] at hops
  obtain ⟨tmp, htmp, h⟩ := Option.bind_eq_some_iff.mp h
  refine ⟨tmp, ⟨⟨shiftOne, hone, hops.1⟩, ⟨shr, hshr, hops.2⟩, htmp⟩, ?_⟩
  cases hxor : matchI32SelectBitStepXorCondition insts cursor (teeAt insts cursor + 1) tmp
      (shiftFlags insts cursor) with
  | some found =>
      rw [hxor] at h
      obtain rfl : found = (step, consumed) := Option.some.inj h
      exact .of_xor htmp hxor
  | none =>
      rw [hxor] at h
      refine .of_eq ?_ h
      rw [xorConditionOf, htmp]
      exact hxor

/-- With constants where the matcher takes constants, the op does what the window does. -/
theorem step_same {step : CanonInst} {consumed : Nat}
    (h : matchI32SelectBitStepWindow insts cursor = some (step, consumed))
    (hconst : ConstantsAreI32Const insts cursor) (s : VmState) :
    execInst others pool s step =
      runInsts others pool ((insts.drop cursor).take consumed) s := by
  obtain ⟨tmp, hshift, hstep⟩ := window_of_match pool h
  obtain ⟨first, last, poly, source, prev, dst, shift, flags, rfl, hmask, hrun⟩ := hstep.run hconst
  have hrunTo : runInsts others pool ((insts.drop cursor).take consumed) s =
      runTo others pool insts cursor (cursor + consumed) s := by
    rw [runTo, Nat.add_sub_cancel_left]
  have hlt := hstep.lt
  rw [hrunTo]
  rcases hstack : s.stack with _ | ⟨value, rest⟩
  · rw [hshift.run_empty hconst (by omega) hstack]
    simp [execInst, makeI32SelectBitStepInst, i32SelectBitStep4At, VmState.pop, hstack, bind,
      Except.bind]
  · obtain ⟨locals, memory, stack⟩ := s
    subst hstack
    have hpush : (⟨locals, memory, value :: rest⟩ : VmState) =
        VmState.push ⟨locals, memory, rest⟩ value := rfl
    have hshifted : shiftedValue flags value = shiftedValue (shiftFlags insts cursor) value := by
      rw [shiftedValue, shiftedValue, hmask]
    rw [hpush, hshift.run hconst (by omega), hrun, step_run, hshifted]
    rfl

/-- A fused window is exact if and only if the instructions whose operands it takes as constants
are constants. -/
theorem bitStep_exact_iff {step : CanonInst} {consumed : Nat}
    (h : matchI32SelectBitStepWindow insts cursor = some (step, consumed)) :
    ExactStep pool insts cursor step consumed ↔ ConstantsAreI32Const insts cursor := by
  constructor
  · intro hexact
    exact hexact.constants
  · intro hconst
    exact ⟨fun others s => step_same h hconst s, hconst⟩

/-- A window in the form with a xor, without a mask or a shift of the source. The final one is read
from the local 1, and the polynomial is zero. -/
def zeroPolynomialStep : List CanonInst :=
  let inst (op : Op) (operand : BitVec 64) : CanonInst := ⟨op, [.raw operand], [], []⟩
  let plain (op : Op) : CanonInst := ⟨op, [], [], []⟩
  [inst .opI32Const 1, plain .opI32ShrU, inst .opLocalTee4 0, inst .opI32Const 0, plain .opI32Xor,
    inst .opLocalGet4 0, inst .opLocalGet4 4, inst .opLocalGet4 8, plain .opI32Xor,
    inst .opLocalGet4 1, plain .opI32And, plain .opSelect4]

/-- With the polynomial zero it does not matter what decides the select. -/
theorem zero_polynomial_same :
    ∃ step consumed, matchI32SelectBitStepWindow zeroPolynomialStep 0 = some (step, consumed) ∧
      (∀ others pool s, execInst others pool s step =
        runInsts others pool ((zeroPolynomialStep.drop 0).take consumed) s) ∧
      ¬ConstantsAreI32Const zeroPolynomialStep 0 := by
  refine ⟨_, _, rfl, fun others pool s => ?_, fun hconst => ?_⟩
  · obtain ⟨locals, memory, stack⟩ := s
    cases stack with
    | nil => rfl
    | cons value rest =>
        let shifted := shiftedValue 0 value
        let after : VmState := (VmState.mk locals memory rest).setLocal 0 shifted
        have hxor : shifted ^^^ 0 = shifted := BitVec.xor_zero
        have hselected (source prev : BitVec 32) : selected 0 shifted 0 source prev = shifted := by
          unfold selected
          rw [hxor, ite_self, ite_self, ite_self]
        have hfused := @step_run others pool ⟨.opI32Const, [.raw 1], [], []⟩
          ⟨.opSelect4, [], [], []⟩ (.raw 0) (.raw 0) (.raw 4) (.raw 8)
          (rawU32Operand (2 ^ 32 - 1)) 0 0 value ⟨locals, memory, rest⟩
        have hwindow : runInsts others pool zeroPolynomialStep ⟨locals, memory, value :: rest⟩ =
            .ok (after.push (if (after.locals 4 ^^^ after.locals 8) &&& after.locals 1 = 0
              then shifted else shifted ^^^ 0)) := rfl
        refine hfused.trans (Eq.trans ?_ hwindow.symm)
        rw [hxor, ite_self]
        exact congrArg (fun top => Except.ok (after.push top)) (hselected _ _)
  · obtain ⟨inst, hinst, hop⟩ := hconst 9 (by decide)
    obtain rfl := Option.some.inj hinst
    exact absurd hop (by decide)

end Window

theorem consumed_pos {insts : List CanonInst} {cursor consumed : Nat} {step : CanonInst}
    (h : matchI32SelectBitStepWindow insts cursor = some (step, consumed)) : 0 < consumed := by
  obtain ⟨tmp, -, hstep⟩ := window_of_match [] h
  have hlt := hstep.lt
  have htee := cursor_lt_teeAt insts cursor
  omega

/-- `fuse_i32_select_bit_steps`, from a cursor on. A window behind a `local.get` is looked for
first. -/
def fuseI32SelectBitSteps (insts : List CanonInst) (cursor : Nat) : List CanonInst :=
  match _hinst : insts[cursor]? with
  | none => []
  | some inst =>
      match hahead : (rawLocalGet inst).bind fun _ =>
          matchI32SelectBitStepWindow insts (cursor + 1) with
      | some (step, consumed) =>
          inst :: step :: fuseI32SelectBitSteps insts (cursor + 1 + consumed)
      | none =>
          match hhere : matchI32SelectBitStepWindow insts cursor with
          | some (step, consumed) => step :: fuseI32SelectBitSteps insts (cursor + consumed)
          | none => inst :: fuseI32SelectBitSteps insts (cursor + 1)
termination_by insts.length - cursor
decreasing_by
  all_goals
    have hlt := (List.getElem?_eq_some_iff.mp _hinst).1
    first
      | have hpos := consumed_pos hhere
      | skip
    omega

/-- When every match takes only constants for constants, the pass over a block changes nothing
that its instructions compute. -/
theorem fuseI32SelectBitSteps_run (others : CanonInst → VmState → Except Trap VmState)
    (pool : ConstPool) (insts : List CanonInst)
    (hconst : ∀ cursor found, matchI32SelectBitStepWindow insts cursor = some found →
      ConstantsAreI32Const insts cursor) (cursor : Nat) (s : VmState) :
    runInsts others pool (fuseI32SelectBitSteps insts cursor) s =
      runInsts others pool (insts.drop cursor) s := by
  have hwindow : ∀ {cursor step consumed},
      matchI32SelectBitStepWindow insts cursor = some (step, consumed) → ∀ s,
      runInsts others pool (insts.drop cursor) s =
        (execInst others pool s step).bind
          (runInsts others pool (insts.drop (cursor + consumed))) := by
    intro cursor step consumed hmatch s
    have hsame : execInst others pool s step = _ := step_same hmatch (hconst _ _ hmatch) s
    have hsplit : insts.drop cursor = (insts.drop cursor).take consumed ++
        insts.drop (cursor + consumed) := by
      rw [← List.drop_drop, List.take_append_drop]
    rw [hsame]
    conv => lhs; rw [hsplit, runInsts, List.foldlM_append]
    rfl
  have hcons : ∀ {cursor inst}, insts[cursor]? = some inst → ∀ s,
      runInsts others pool (insts.drop cursor) s =
        (execInst others pool s inst).bind (runInsts others pool (insts.drop (cursor + 1))) := by
    intro cursor inst hinst s
    obtain ⟨hlt, rfl⟩ := List.getElem?_eq_some_iff.mp hinst
    rw [List.drop_eq_getElem_cons hlt, runInsts, List.foldlM_cons]
    rfl
  fun_induction fuseI32SelectBitSteps insts cursor generalizing s with
  | case1 cursor hnone =>
      rw [List.drop_eq_nil_of_le (List.getElem?_eq_none_iff.mp hnone)]
  | case2 cursor inst hinst step consumed hahead ih =>
      obtain ⟨_, _, hmatch⟩ := Option.bind_eq_some_iff.mp hahead
      rw [hcons hinst, runInsts, List.foldlM_cons]
      congr 1
      funext s
      rw [hwindow hmatch, List.foldlM_cons]
      congr 1
      funext s
      exact ih s
  | case3 cursor inst hinst hahead step consumed hmatch ih =>
      rw [hwindow hmatch, runInsts, List.foldlM_cons]
      congr 1
      funext s
      exact ih s
  | case4 cursor inst hinst hahead hmatch ih =>
      rw [hcons hinst, runInsts, List.foldlM_cons]
      congr 1
      funext s
      exact ih s

/-- The masked window in the form with a xor: all its constants are constants. -/
def crcStep (poly : CanonInst) : List CanonInst :=
  let inst (op : Op) (operand : BitVec 64) : CanonInst := ⟨op, [.raw operand], [], []⟩
  let plain (op : Op) : CanonInst := ⟨op, [], [], []⟩
  [inst .opI32Const 1, plain .opI32ShrU, inst .opI32Const 0x7fff, plain .opI32And,
    inst .opLocalTee4 0, poly, plain .opI32Xor, inst .opLocalGet4 0, inst .opLocalGet4 4,
    inst .opI32Const 3, plain .opI32ShrU, inst .opLocalGet4 8, plain .opI32Xor, inst .opI32Const 1,
    plain .opI32And, plain .opSelect4, inst .opLocalTee4 12]

theorem bitStep_exact_iff_crcStep :
    ExactStep [] (crcStep ⟨.opI32Const, [.raw 0x4021], [], []⟩) 0
      ⟨.opI32SelectBitStep4, [.raw 0, .raw 0x4021, .raw 4, .raw 3, .raw 8, .raw 5, .raw 12], [], []⟩
      17 ↔ ConstantsAreI32Const (crcStep ⟨.opI32Const, [.raw 0x4021], [], []⟩) 0 :=
  bitStep_exact_iff rfl

/-- With the polynomial in a local, the fused op xors with the local's address. -/
theorem polynomial_in_local_fused :
    ∃ step consumed others s,
      matchI32SelectBitStepWindow (crcStep ⟨.opLocalGet4, [.raw 16], [], []⟩) 0 =
        some (step, consumed) ∧
      execInst others [] s step ≠ runInsts others []
        (((crcStep ⟨.opLocalGet4, [.raw 16], [], []⟩).drop 0).take consumed) s := by
  let s : VmState := ⟨fun a => if a = 8 then 1 else 0, ⟨0, fun _ => 0⟩, [2]⟩
  refine ⟨_, _, fun _ _ => .error .invalidOperand, s, rfl, fun heq => ?_⟩
  have hstack := congrArg (Except.map VmState.stack) heq
  revert hstack
  decide +kernel

end Telomere.Optimizer
