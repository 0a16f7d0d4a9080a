import Telomere.Parser.TypeChecker

/-!
# The instruction parser

`InstructionParser::parse_inst` validates one decoded instruction and emits flat code for it.
The source recurses through `parse_instrs` for the body of a block, loop or if; here the pending
calls are the explicit list `frames`, whose elements hold what the caller still needs when the
body's `end` returns to it. A body is the list of its decoded instructions up to, and without,
the `end` of the function itself.
-/

namespace Telomere.Parser

/-- An opcode that only pops and pushes operands: loads, stores, numeric, variable, table and
vector instructions. `id` stands for the handler and `operands` for its immediates. -/
structure SimpleOp where
  id : Nat
  operands : List Nat
  inputs : List ValType
  outputs : List ValType
deriving DecidableEq, Repr

inductive Inst where
  | unreachable
  | nop
  | block (blocktype : BlockType)
  | loop (blocktype : BlockType)
  | if_ (blocktype : BlockType)
  | else_
  | end_
  | br (idx : Nat)
  | brIf (idx : Nat)
  | brTable (idxs : List Nat) (defaultIdx : Nat)
  | return_
  | call (idx : Nat)
  | callIndirect (typeidx tableidx : Nat)
  | returnCall (idx : Nat)
  | returnCallIndirect (typeidx tableidx : Nat)
  | drop
  | select
  | selectTyped (operand : List ValType)
  | refIsNull
  | simple (op : SimpleOp)
deriving DecidableEq, Repr

/-- Interpreter handlers the parser emits. -/
inductive Handler where
  | opUnreachable | opLoop | opIf | opElse | opEnd | opBr | opBrIf | opBrTable | opReturn
  | opCall | opCallImport | opCallIndirect
  | opReturnCall | opReturnCallImport | opReturnCallIndirect
  | opDrop | opSelect | opRefIsNull
  | specialBlockReturn | specialFunctionReturn
  | simple (op : SimpleOp)
deriving DecidableEq, Repr

/-- The arms of the `Operand` union that emitted code uses. -/
inductive Operand where
  | jumpAddr (addr : Nat)
  | u32 (value : Nat)
  | dropSize (size : Nat)
  | select (size : Nat)
  | callRecipeRef (funcidx : Nat)
  | blockReturn (stackTop returnSize : Nat)
  | loopParam (stackTop paramSize : Nat)
deriving DecidableEq, Repr

inductive Instr where
  | op (handler : Handler)
  | operand (value : Operand)
deriving DecidableEq, Repr

inductive JumpResolverDSL where
  | enterForwardJumpBlock
  | enterBackwardJumpBlock (addr : Nat)
  | br (id programAddr : Nat)
  | return_ (programAddr : Nat)
  | leaveBlock (programAddr : Nat)
deriving DecidableEq, Repr

structure InstructionMeta where
  start : Nat
  len : Nat
  stackBefore : StackSnapshot
  stackAfter : StackSnapshot
deriving DecidableEq, Repr

/-- A pending `block`, `loop` or `if` arm of `parse_inst`: the locals it still reads after its
body. `index`, `isUnreachableIfBlock` and `elseAddr` are used by `if` only. -/
structure Frame where
  kind : BlockKind
  blocktype : BlockType
  index : Nat
  isUnreachableIfBlock : Bool
  elseAddr : Option Nat
deriving DecidableEq, Repr

/-- What the parser knows about the module and the function. -/
structure Env where
  types : List FuncType
  functions : List Nat
  importedFunctionLen : Nat
  typeidx : Nat
  functype : FuncType
  tables : List RefType
deriving DecidableEq, Repr

def maxControlNestingDepth : Nat := 512

/-- Parser state. `instr` and `unreachable` are the `InstructionGenerator`, the head of
`unreachable` being the innermost block's flag. -/
structure State where
  instr : List Instr
  unreachable : List Bool
  checker : TypeChecker
  jumpResolver : List JumpResolverDSL
  instrMeta : List InstructionMeta
  frames : List Frame
deriving DecidableEq, Repr

namespace State

def isUnreachable (s : State) : Bool :=
  s.unreachable.headD false

def pushSlot (s : State) (slot : Instr) : State :=
  if s.isUnreachable then s else { s with instr := s.instr ++ [slot] }

def forcePush (s : State) (slot : Instr) : State :=
  { s with instr := s.instr ++ [slot] }

def pushWithOperand (s : State) (handler : Handler) (operands : List Operand) : State :=
  operands.foldl (fun s value => s.pushSlot (.operand value)) (s.pushSlot (.op handler))

def setUnreachable (s : State) : State :=
  { s with unreachable := true :: s.unreachable.tail }

def genEnterBlock (s : State) : State :=
  { s with unreachable := s.isUnreachable :: s.unreachable }

def genLeaveBlock (s : State) : State :=
  { s with unreachable := s.unreachable.tail }

def pushDsl (s : State) (dsl : JumpResolverDSL) : State :=
  { s with jumpResolver := s.jumpResolver ++ [dsl] }

def withChecker (s : State) (checker : TypeChecker) : State :=
  { s with checker := checker }

def pushInstructionMeta (s : State) (start : Nat) (before after : StackSnapshot) : State :=
  if start < s.instr.length then
    { s with instrMeta := s.instrMeta ++ [⟨start, s.instr.length - start, before, after⟩] }
  else s

/-- `*else_addr = Some(addr)`: the variable belongs to the nearest pending `if`. -/
def setElseAddr (addr : Nat) : List Frame → List Frame
  | [] => []
  | frame :: rest =>
      if frame.kind = .if_ then { frame with elseAddr := some addr } :: rest
      else frame :: setElseAddr addr rest

section Fields

variable (s : State) (slot : Instr) (handler : Handler) (operands : List Operand)
  (dsl : JumpResolverDSL) (c : TypeChecker) (start : Nat) (before after : StackSnapshot)

@[simp] theorem pushSlot_checker : (s.pushSlot slot).checker = s.checker := by
  unfold pushSlot; split <;> rfl

@[simp] theorem pushSlot_unreachable : (s.pushSlot slot).unreachable = s.unreachable := by
  unfold pushSlot; split <;> rfl

@[simp] theorem pushSlot_frames : (s.pushSlot slot).frames = s.frames := by
  unfold pushSlot; split <;> rfl

@[simp] theorem pushSlot_jumpResolver : (s.pushSlot slot).jumpResolver = s.jumpResolver := by
  unfold pushSlot; split <;> rfl

@[simp] theorem pushSlot_isUnreachable :
    (s.pushSlot slot).isUnreachable = s.isUnreachable := by
  simp [isUnreachable]

theorem pushOperands_eq : operands.foldl (fun s value => s.pushSlot (.operand value)) s =
    { s with instr := s.instr ++ if s.isUnreachable then [] else operands.map .operand } := by
  induction operands generalizing s with
  | nil => simp
  | cons value operands ih =>
      rw [List.foldl_cons, ih, pushSlot_isUnreachable]
      by_cases h : s.isUnreachable <;> simp [pushSlot, h]

theorem pushWithOperand_eq : s.pushWithOperand handler operands =
    { s with instr := s.instr ++
        if s.isUnreachable then [] else .op handler :: operands.map .operand } := by
  unfold pushWithOperand
  rw [pushOperands_eq, pushSlot_isUnreachable]
  by_cases h : s.isUnreachable <;> simp [pushSlot, h]

@[simp] theorem pushWithOperand_checker :
    (s.pushWithOperand handler operands).checker = s.checker := by
  rw [pushWithOperand_eq]

@[simp] theorem pushWithOperand_unreachable :
    (s.pushWithOperand handler operands).unreachable = s.unreachable := by
  rw [pushWithOperand_eq]

@[simp] theorem pushWithOperand_frames :
    (s.pushWithOperand handler operands).frames = s.frames := by
  rw [pushWithOperand_eq]

@[simp] theorem pushWithOperand_jumpResolver :
    (s.pushWithOperand handler operands).jumpResolver = s.jumpResolver := by
  rw [pushWithOperand_eq]

@[simp] theorem forcePush_checker : (s.forcePush slot).checker = s.checker := rfl
@[simp] theorem forcePush_unreachable : (s.forcePush slot).unreachable = s.unreachable := rfl
@[simp] theorem forcePush_frames : (s.forcePush slot).frames = s.frames := rfl
@[simp] theorem forcePush_instr : (s.forcePush slot).instr = s.instr ++ [slot] := rfl
@[simp] theorem forcePush_jumpResolver :
    (s.forcePush slot).jumpResolver = s.jumpResolver := rfl

@[simp] theorem pushDsl_checker : (s.pushDsl dsl).checker = s.checker := rfl
@[simp] theorem pushDsl_unreachable : (s.pushDsl dsl).unreachable = s.unreachable := rfl
@[simp] theorem pushDsl_frames : (s.pushDsl dsl).frames = s.frames := rfl
@[simp] theorem pushDsl_instr : (s.pushDsl dsl).instr = s.instr := rfl
@[simp] theorem pushDsl_jumpResolver :
    (s.pushDsl dsl).jumpResolver = s.jumpResolver ++ [dsl] := rfl

@[simp] theorem withChecker_checker : (s.withChecker c).checker = c := rfl
@[simp] theorem withChecker_unreachable : (s.withChecker c).unreachable = s.unreachable := rfl
@[simp] theorem withChecker_frames : (s.withChecker c).frames = s.frames := rfl
@[simp] theorem withChecker_instr : (s.withChecker c).instr = s.instr := rfl
@[simp] theorem withChecker_jumpResolver :
    (s.withChecker c).jumpResolver = s.jumpResolver := rfl

@[simp] theorem setUnreachable_checker : s.setUnreachable.checker = s.checker := rfl
@[simp] theorem setUnreachable_unreachable :
    s.setUnreachable.unreachable = true :: s.unreachable.tail := rfl
@[simp] theorem setUnreachable_frames : s.setUnreachable.frames = s.frames := rfl
@[simp] theorem setUnreachable_instr : s.setUnreachable.instr = s.instr := rfl
@[simp] theorem setUnreachable_jumpResolver :
    s.setUnreachable.jumpResolver = s.jumpResolver := rfl

@[simp] theorem genEnterBlock_checker : s.genEnterBlock.checker = s.checker := rfl
@[simp] theorem genEnterBlock_unreachable :
    s.genEnterBlock.unreachable = s.isUnreachable :: s.unreachable := rfl
@[simp] theorem genEnterBlock_frames : s.genEnterBlock.frames = s.frames := rfl
@[simp] theorem genEnterBlock_instr : s.genEnterBlock.instr = s.instr := rfl
@[simp] theorem genEnterBlock_jumpResolver :
    s.genEnterBlock.jumpResolver = s.jumpResolver := rfl

@[simp] theorem genLeaveBlock_checker : s.genLeaveBlock.checker = s.checker := rfl
@[simp] theorem genLeaveBlock_unreachable :
    s.genLeaveBlock.unreachable = s.unreachable.tail := rfl
@[simp] theorem genLeaveBlock_frames : s.genLeaveBlock.frames = s.frames := rfl
@[simp] theorem genLeaveBlock_instr : s.genLeaveBlock.instr = s.instr := rfl
@[simp] theorem genLeaveBlock_jumpResolver :
    s.genLeaveBlock.jumpResolver = s.jumpResolver := rfl

@[simp] theorem pushInstructionMeta_checker :
    (s.pushInstructionMeta start before after).checker = s.checker := by
  unfold pushInstructionMeta; split <;> rfl

@[simp] theorem pushInstructionMeta_unreachable :
    (s.pushInstructionMeta start before after).unreachable = s.unreachable := by
  unfold pushInstructionMeta; split <;> rfl

@[simp] theorem pushInstructionMeta_frames :
    (s.pushInstructionMeta start before after).frames = s.frames := by
  unfold pushInstructionMeta; split <;> rfl

@[simp] theorem pushInstructionMeta_instr :
    (s.pushInstructionMeta start before after).instr = s.instr := by
  unfold pushInstructionMeta; split <;> rfl

@[simp] theorem pushInstructionMeta_jumpResolver :
    (s.pushInstructionMeta start before after).jumpResolver = s.jumpResolver := by
  unfold pushInstructionMeta; split <;> rfl

end Fields

end State

open State

def getType (env : Env) (idx : Nat) : Except ParserError FuncType :=
  match env.types[idx]? with
  | some ty => .ok ty
  | none => .error (.invalidTypeIdx idx)

def getFuncType (env : Env) (idx : Nat) : Except ParserError FuncType :=
  match env.functions[idx]? with
  | some typeidx =>
      match env.types[typeidx]? with
      | some ty => .ok ty
      | none => .error (.invalidTypeIdx idx)
  | none => .error (.invalidFuncIdx idx)

def checkTable (env : Env) (tableidx : Nat) : Except ParserError Unit :=
  match env.tables[tableidx]? with
  | some .funcRef => .ok ()
  | some .externRef => .error (.invalidTableType tableidx)
  | none => .error (.invalidTableIndex tableidx)

def sizeOr (size : Option Nat) : Except ParserError Nat :=
  match size with
  | some n => .ok n
  | none => .error .invalidStackValTypeAny

def nextControlNestingDepth (depth : Nat) : Except ParserError Nat :=
  if maxControlNestingDepth < depth + 1 then .error (.nestingTooDeep maxControlNestingDepth)
  else .ok (depth + 1)

/-- Pop the parameters of a block type, open the block and push them again. -/
def enterChecker (env : Env) (c : TypeChecker) (kind : BlockKind) (blocktype : BlockType) :
    Except ParserError TypeChecker :=
  match blocktype with
  | .typeIdx idx => do
      let ty ← getType env idx
      let c ← c.op ty.params []
      (c.enterBlock kind blocktype).op [] ty.params
  | _ => .ok (c.enterBlock kind blocktype)

/-- Pop the results of a block type, close the block and push them again. -/
def leaveChecker (env : Env) (c : TypeChecker) (blocktype : BlockType) :
    Except ParserError TypeChecker :=
  match blocktype with
  | .typeIdx idx => do
      let ty ← getType env idx
      let c ← c.op ty.results []
      let c ← c.leaveBlock
      c.op [] ty.results
  | .valType ty => do
      let c ← c.op [ty] []
      let c ← c.leaveBlock
      c.op [] [ty]
  | .void => c.leaveBlock

/-- The branch's own arm: operands the label of a `br` takes. -/
def popBrTypes (env : Env) (c : TypeChecker) (target : Block) : Except ParserError TypeChecker :=
  match target.kind with
  | .block | .if_ =>
      match target.blocktype with
      | .void => .ok c
      | .valType ty => c.op [ty] []
      | .typeIdx idx => do
          let ty ← getType env idx
          c.op ty.results []
  | .loop =>
      match target.blocktype with
      | .void | .valType _ => .ok c
      | .typeIdx idx => do
          let ty ← getType env idx
          c.op ty.params []

/-- Operands the label of a `br_if` takes; for a loop label the source does nothing. -/
def checkBrIfTypes (env : Env) (c : TypeChecker) (target : Block) :
    Except ParserError TypeChecker :=
  match target.kind with
  | .block | .if_ =>
      match target.blocktype with
      | .void => .ok c
      | .valType ty => c.op [ty] [ty]
      | .typeIdx idx => do
          let ty ← getType env idx
          c.op ty.results ty.results
  | .loop => .ok c

/-- `validate_br_table_types`: check one target, return the number of its values. -/
def validateBrTableTypes (env : Env) (c : TypeChecker) (idx : Nat) : Except ParserError Nat := do
  let target ← c.getBlock idx
  match target.kind with
  | .block | .if_ =>
      match target.blocktype with
      | .void => return 0
      | .valType ty => do
          c.check [ty]
          return 1
      | .typeIdx idx => do
          let ty ← getType env idx
          c.check ty.results
          return ty.results.length
  | .loop =>
      match target.blocktype with
      | .void | .valType _ => return 0
      | .typeIdx idx => do
          let ty ← getType env idx
          c.check ty.params
          return ty.params.length

def validateBrTableTargets (env : Env) (c : TypeChecker) (resultLen : Nat) :
    List Nat → Except ParserError Unit
  | [] => .ok ()
  | idx :: idxs => do
      let len ← validateBrTableTypes env c idx
      if resultLen = len then validateBrTableTargets env c resultLen idxs
      else .error .invalidStackValTypeAny

/-- `special_block_return` after the `end` of a block or loop that was entered reachable. -/
def emitBlockReturn (env : Env) (s : State) (blocktype : BlockType) :
    Except ParserError State := do
  if s.isUnreachable then return s
  else
    let stackTop ← s.checker.blockBaseStackSize
    let size ← sizeOr (blocktype.returnSize env.types)
    let snapshot := s.checker.snapshotStack
    let start := s.instr.length
    let s := s.pushWithOperand .specialBlockReturn [.blockReturn stackTop size]
    return s.pushInstructionMeta start snapshot snapshot

def enterBlock (env : Env) (s : State) (blocktype : BlockType) : Except ParserError State := do
  let checker ← enterChecker env s.checker .block blocktype
  let s := (s.withChecker checker).pushDsl .enterForwardJumpBlock
  let s := s.genEnterBlock
  return { s with frames := ⟨.block, blocktype, 0, false, none⟩ :: s.frames }

/-- The operand of `op_loop`: where the parameters sit when control is at the loop's head. -/
def emitLoopParam (env : Env) (s : State) (blocktype : BlockType) : Except ParserError State := do
  if s.isUnreachable then return s
  else
    let stackTop ← s.checker.blockBaseStackSize
    let size ← sizeOr (blocktype.paramSize env.types)
    return s.pushSlot (.operand (.loopParam stackTop size))

def enterLoop (env : Env) (s : State) (blocktype : BlockType) : Except ParserError State := do
  let checker ← enterChecker env s.checker .loop blocktype
  let start := s.instr.length
  let s := (s.withChecker checker).pushDsl (.enterBackwardJumpBlock start)
  let snapshot := s.checker.snapshotStack
  let s ← emitLoopParam env (s.pushSlot (.op .opLoop)) blocktype
  let s := (s.pushInstructionMeta start snapshot snapshot).genEnterBlock
  return { s with frames := ⟨.loop, blocktype, 0, false, none⟩ :: s.frames }

def enterIf (env : Env) (s : State) (blocktype : BlockType) : Except ParserError State := do
  let unreachableIf := s.isUnreachable
  let before := s.checker.snapshotStack
  let start := s.instr.length
  let s := s.pushWithOperand .opIf [.jumpAddr 0xFCFCFCFC]
  let checker ← s.checker.op [.i32] []
  let checker ← enterChecker env checker .if_ blocktype
  let s := s.withChecker checker
  let s := s.pushInstructionMeta start before s.checker.snapshotStack
  let s := (s.pushDsl .enterForwardJumpBlock).genEnterBlock
  return { s with frames := ⟨.if_, blocktype, s.instr.length - 1, unreachableIf, none⟩ :: s.frames }

/-- Close one branch of an `if`: in dead code its operands are dropped unchecked. -/
def closeBranch (c : TypeChecker) (dead : Bool) (results : List ValType) :
    Except ParserError TypeChecker :=
  if dead then c.resetStack else c.op results []

/-- The same for a branch without results, whose operands `leave_block` checks. -/
def closeVoidBranch (c : TypeChecker) (dead : Bool) : Except ParserError TypeChecker :=
  if dead then c.resetStack else .ok c

/-- What `else` does to the checker: close the first branch and open the second one. -/
def elseChecker (env : Env) (c : TypeChecker) (dead : Bool) : Except ParserError TypeChecker := do
  let current ← c.currentBlock
  match current.kind with
  | .if_ =>
      match current.blocktype with
      | .void => do
          let c ← closeVoidBranch c dead
          let c ← c.leaveBlock
          return c.enterBlock .if_ .void
      | .typeIdx idx => do
          let ty ← getType env idx
          let c ← closeBranch c dead ty.results
          let c ← c.leaveBlock
          (c.enterBlock .if_ (.typeIdx idx)).op [] ty.params
      | .valType ty => do
          let c ← closeBranch c dead [ty]
          let c ← c.leaveBlock
          return c.enterBlock .if_ (.valType ty)
  | _ => .error .invalidStackValTypeAny

def parseElse (env : Env) (s : State) : Except ParserError State := do
  let instUnreachable := s.isUnreachable
  let s := s.genLeaveBlock.genEnterBlock
  if s.isUnreachable then return s
  else
    let s := s.pushSlot (.op .opElse)
    let s := s.pushDsl (.br 0 s.instr.length)
    let s := s.pushSlot (.operand (.jumpAddr 0xFFFB0000))
    let s := { s with frames := setElseAddr s.instr.length s.frames }
    return s.withChecker (← elseChecker env s.checker instUnreachable)

/-- Without an `else` the missing branch is opened as one that pushes only the parameters. -/
def missingElse (c : TypeChecker) (dead hasElse : Bool) (blocktype : BlockType)
    (params results : List ValType) : Except ParserError TypeChecker :=
  if hasElse then .ok c
  else do
    let c ← closeBranch c dead results
    let c ← c.leaveBlock
    (c.enterBlock .if_ blocktype).op [] params

/-- Close an `if` with results. A first branch that ended in dead code also leaves the missing
second one unchecked. -/
def leaveIfResults (c : TypeChecker) (dead hasElse : Bool) (blocktype : BlockType)
    (params results : List ValType) : Except ParserError TypeChecker := do
  let c ← missingElse c dead hasElse blocktype params results
  let c ← closeBranch c dead results
  let c ← c.leaveBlock
  c.op [] results

def leaveIfChecker (env : Env) (c : TypeChecker) (dead hasElse : Bool) (blocktype : BlockType) :
    Except ParserError TypeChecker :=
  match blocktype with
  | .void => do
      let c ← closeVoidBranch c dead
      c.leaveBlock
  | .typeIdx idx => do
      let ty ← getType env idx
      leaveIfResults c dead hasElse blocktype ty.params ty.results
  | .valType ty => leaveIfResults c dead hasElse blocktype [] [ty]

/-- `instrs[index].operand = …`: where `op_if` goes when its condition is zero. -/
def patchIf (s : State) (frame : Frame) : State :=
  let target := frame.elseAddr.getD (s.instr.length - 1)
  if frame.isUnreachableIfBlock then s
  else { s with instr := s.instr.set frame.index (.operand (.jumpAddr target)) }

@[simp] theorem patchIf_checker (s : State) (frame : Frame) :
    (patchIf s frame).checker = s.checker := by
  unfold patchIf; split <;> rfl

@[simp] theorem patchIf_unreachable (s : State) (frame : Frame) :
    (patchIf s frame).unreachable = s.unreachable := by
  unfold patchIf; split <;> rfl

@[simp] theorem patchIf_frames (s : State) (frame : Frame) :
    (patchIf s frame).frames = s.frames := by
  unfold patchIf; split <;> rfl

@[simp] theorem patchIf_jumpResolver (s : State) (frame : Frame) :
    (patchIf s frame).jumpResolver = s.jumpResolver := by
  unfold patchIf; split <;> rfl

def leaveIf (env : Env) (s : State) (frame : Frame) : Except ParserError State := do
  let s := patchIf s frame
  let checker ←
    leaveIfChecker env s.checker s.isUnreachable frame.elseAddr.isSome frame.blocktype
  return (s.genLeaveBlock).withChecker checker

/-- `end`: the label is resolved here and the pending arm of `parse_inst` goes on. -/
def parseEnd (env : Env) (s : State) : Except ParserError State :=
  match s.frames with
  | [] => .error .unexpectedEnd
  | frame :: frames => do
      let s := s.pushDsl (.leaveBlock s.instr.length)
      let snapshot := s.checker.snapshotStack
      let start := s.instr.length
      let s := (s.forcePush (.op .opEnd)).pushInstructionMeta start snapshot snapshot
      let s := { s with frames := frames }
      match frame.kind with
      | .if_ => leaveIf env s frame
      | _ => do
          let s ← emitBlockReturn env s.genLeaveBlock frame.blocktype
          return s.withChecker (← leaveChecker env s.checker frame.blocktype)

def parseBr (env : Env) (s : State) (idx : Nat) : Except ParserError State := do
  let s := if s.isUnreachable then s else
    let s := s.pushSlot (.op .opBr)
    let s := s.pushDsl (.br idx s.instr.length)
    (s.pushSlot (.operand (.u32 (0xFFFF0000 ||| idx)))).setUnreachable
  let target ← s.checker.getBlock idx
  let c ← popBrTypes env s.checker target
  return s.withChecker c.unreachable

def parseBrIf (env : Env) (s : State) (idx : Nat) : Except ParserError State := do
  let c ← s.checker.op [.i32] []
  let target ← c.getBlock idx
  let c ← checkBrIfTypes env c target
  let s := s.withChecker c
  return if s.isUnreachable then s else
    let s := s.pushSlot (.op .opBrIf)
    let s := s.pushDsl (.br idx s.instr.length)
    s.pushSlot (.operand (.u32 (0xFFFE0000 ||| idx)))

def pushTableTarget (s : State) (idx : Nat) : State :=
  (s.pushDsl (.br idx s.instr.length)).pushSlot (.operand (.u32 (0xFFFD0000 ||| idx)))

def parseBrTable (env : Env) (s : State) (idxs : List Nat) (defaultIdx : Nat) :
    Except ParserError State := do
  let c ← s.checker.op [.i32] []
  let resultLen ← validateBrTableTypes env c defaultIdx
  validateBrTableTargets env c resultLen idxs
  let s := if s.isUnreachable then s else
    let s := s.pushWithOperand .opBrTable [.u32 idxs.length]
    pushTableTarget (idxs.foldl pushTableTarget s) defaultIdx
  return (s.withChecker c.unreachable).setUnreachable

def parseReturn (env : Env) (s : State) : Except ParserError State := do
  let s := if s.isUnreachable then s else
    let s := s.pushSlot (.op .opReturn)
    let s := s.pushDsl (.return_ s.instr.length)
    (s.pushSlot (.operand (.jumpAddr 0xFFFC0000))).setUnreachable
  let c ← s.checker.op env.functype.results []
  return s.withChecker c.unreachable

/-- `select` without an annotation: the operand type is taken from the stack. -/
def parseSelect (s : State) : Except ParserError State := do
  let c ← s.checker.op [.i32] []
  match ← c.pop with
  | (.normal x, c) => do
      let c ← c.op [x] [x]
      if x.isRef then .error .invalidStackValTypeAny
      else return (s.withChecker c).pushWithOperand .opSelect [.select x.stackSize]
  | (.unreachable _, c) => do
      match ← c.pop with
      | (.normal x, c) =>
          if x.isRef then .error .invalidStackValTypeAny
          else
            let s := (s.withChecker c).pushWithOperand .opSelect [.select x.stackSize]
            return s.withChecker (c.push x)
      | (.unreachable _, c) =>
          if s.isUnreachable then return s.withChecker c.pushAny
          else .error .invalidStackValTypeAny

def parseDrop (s : State) : Except ParserError State := do
  match ← s.checker.pop with
  | (.normal x, c) => return (s.withChecker c).pushWithOperand .opDrop [.dropSize x.stackSize]
  | (.unreachable _, c) => return s.withChecker c

def parseRefIsNull (s : State) : Except ParserError State := do
  match ← s.checker.pop with
  | (.normal x, c) =>
      if x.isRef then
        return (s.withChecker (← c.op [] [.i32])).pushWithOperand .opRefIsNull []
      else .error .invalidStackValTypeAny
  | (.unreachable _, c) =>
      return (s.withChecker (← c.op [] [.i32])).pushWithOperand .opRefIsNull []

/-- Arms whose code is recorded by `parse_instrs` as one instruction. -/
def parsePlain (env : Env) (s : State) : Inst → Except ParserError State
  | .unreachable =>
      let s := (s.pushSlot (.op .opUnreachable)).setUnreachable
      .ok (s.withChecker s.checker.unreachable)
  | .nop => .ok s
  | .else_ => parseElse env s
  | .br idx => parseBr env s idx
  | .brIf idx => parseBrIf env s idx
  | .brTable idxs defaultIdx => parseBrTable env s idxs defaultIdx
  | .return_ => parseReturn env s
  | .call idx => do
      let ty ← getFuncType env idx
      let s := s.withChecker (← s.checker.op ty.params ty.results)
      return s.pushWithOperand (if env.importedFunctionLen ≤ idx then .opCall else .opCallImport)
        [.callRecipeRef idx]
  | .callIndirect typeidx tableidx => do
      checkTable env tableidx
      let c ← s.checker.op [.i32] []
      let ty ← getType env typeidx
      let s := s.withChecker (← c.op ty.params ty.results)
      return s.pushWithOperand .opCallIndirect [.u32 tableidx, .u32 typeidx]
  | .returnCall idx => do
      let ty ← getFuncType env idx
      let c ← s.checker.op ty.params ty.results
      let c ← c.op env.functype.results []
      let s := s.withChecker c.unreachable
      return s.pushWithOperand
        (if env.importedFunctionLen ≤ idx then .opReturnCall else .opReturnCallImport)
        [.callRecipeRef idx]
  | .returnCallIndirect typeidx tableidx => do
      checkTable env tableidx
      let c ← s.checker.op [.i32] []
      let ty ← getType env typeidx
      let c ← c.op ty.params ty.results
      let c ← c.op env.functype.results []
      let s := s.withChecker c.unreachable
      return s.pushWithOperand .opReturnCallIndirect [.u32 tableidx, .u32 typeidx]
  | .drop => parseDrop s
  | .select => parseSelect s
  | .selectTyped operand => do
      if operand.length ≠ 1 then .error .invalidResultArity
      else
        let c ← s.checker.op [.i32] []
        let c ← c.op operand []
        let c ← c.op operand operand
        let s := s.withChecker c
        return if s.isUnreachable then s
          else s.pushWithOperand .opSelect [.select (stackBytes operand)]
  | .refIsNull => parseRefIsNull s
  | .simple op => do
      let s := s.withChecker (← s.checker.op op.inputs op.outputs)
      return s.pushWithOperand (.simple op) (op.operands.map .u32)
  | .block _ | .loop _ | .if_ _ | .end_ => .ok s

/-- One instruction, with the depth check of `block`, `loop` and `if` and the record that
`parse_instrs` makes of the emitted slots. -/
def parseInst (env : Env) (s : State) (inst : Inst) : Except ParserError State :=
  match inst with
  | .block blocktype => do
      let _ ← nextControlNestingDepth s.frames.length
      enterBlock env s blocktype
  | .loop blocktype => do
      let _ ← nextControlNestingDepth s.frames.length
      enterLoop env s blocktype
  | .if_ blocktype => do
      let _ ← nextControlNestingDepth s.frames.length
      enterIf env s blocktype
  | .end_ => parseEnd env s
  | inst => do
      let before := s.checker.snapshotStack
      let start := s.instr.length
      let s ← parsePlain env s inst
      return s.pushInstructionMeta start before s.checker.snapshotStack

def parseInstrs (env : Env) (s : State) : List Inst → Except ParserError State
  | [] => .ok s
  | inst :: insts => do
      parseInstrs env (← parseInst env s inst) insts

/-- The state in which `parse_code_inner` starts a function body. -/
def State.initial (env : Env) : State :=
  ⟨[], [false, false], .new env.typeidx, [.enterForwardJumpBlock], [], []⟩

/-- The `end` of the function and `special_function_return`. -/
def finish (env : Env) (s : State) : Except ParserError State := do
  match s.frames with
  | _ :: _ => .error .unexpectedEnd
  | [] => do
      let s := s.pushDsl (.leaveBlock s.instr.length)
      let snapshot := s.checker.snapshotStack
      let start := s.instr.length
      let s := (s.forcePush (.op .opEnd)).pushInstructionMeta start snapshot snapshot
      let c ← s.checker.op env.functype.results []
      let c ← c.leaveBlock
      let s := (s.withChecker c).genLeaveBlock
      let start := s.instr.length
      let s := s.pushWithOperand .specialFunctionReturn
        [.dropSize (stackBytes env.functype.results)]
      return s.pushInstructionMeta start ⟨true, env.functype.results⟩ ⟨true, []⟩

/-- `parse_code_inner` up to jump resolution. -/
def parseCode (env : Env) (body : List Inst) : Except ParserError State := do
  finish env (← parseInstrs env (.initial env) body)

end Telomere.Parser
