import Telomere.Optimizer.Lowered

/-!
# The encoder

`encode` flattens the blocks of a lowered kernel function, fuses adjacent ops in one pass from
left to right and moves repeated constants to a pool. A fused op replaces the first op of its
window; the ops it absorbs stay where they are, and the handler jumps over them.

A fusion that looks only at the ops from the cursor on takes that part of the code as a list.
-/

namespace Telomere.Optimizer

/-- `label_code_indices` -/
abbrev LabelIndices := Nat → Option Nat

/-- A fused op and the skip count behind its operands: slots from the first operand to the op
after the absorbed ones. -/
def withSkip (operands : List LoweredOperand) (absorbed : List LoweredOp) :
    List LoweredOperand :=
  operands ++ [rawU32Operand (operands.length + 1 + slotCount absorbed)]

def localGet4RunOperands (op : LoweredOp) : Option (List LoweredOperand) :=
  match op.op, op.operands with
  | .opLocalGet4, a :: _ => some [a]
  | .opLocalGet4LocalGet4, a :: b :: _ => some [a, b]
  | .opLocalGet4LocalGet4LocalGet4, a :: b :: c :: _ => some [a, b, c]
  | .opLocalGet4Run, .raw encodedCount :: rest =>
      let count := (u32 encodedCount).toNat
      if count = 0 ∨ rest.length < count then none else some (rest.take count)
  | _, _ => none

/-- The ops a run takes in after its first one: at most sixteen locals, no labelled op. -/
def runAbsorbed (locals : Nat) : List LoweredOp → List LoweredOp
  | [] => []
  | op :: rest =>
      if 16 ≤ locals ∨ op.label.isSome then []
      else
        match localGet4RunOperands op with
        | none => []
        | some next =>
            if 16 < locals + next.length then []
            else op :: runAbsorbed (locals + next.length) rest

def runLocals (ops : List LoweredOp) : List LoweredOperand :=
  ops.flatMap fun op => (localGet4RunOperands op).getD []

def fuseLocalGet4RunSkip (window : List LoweredOp) : Option LoweredOp := do
  let first ← window.head?
  let head ← localGet4RunOperands first
  let absorbed := runAbsorbed head.length window.tail
  let locals := head ++ runLocals absorbed
  if locals.length < 4 ∨ absorbed = [] then none
  else
    some ⟨first.label, .opLocalGet4RunSkip,
      withSkip (rawU32Operand locals.length :: locals) absorbed⟩

def isUnlabelled (op : LoweredOp) (handler : Op) : Bool :=
  op.label.isNone && decide (op.op = handler)

/-- The constant and the store that may follow a `local.tee`. -/
def constStore (rest : List LoweredOp) : Option (LoweredOp × LoweredOp) :=
  match rest with
  | storeValue :: store :: _ =>
      if isUnlabelled storeValue .opI32Const && isUnlabelled store .opI32Store then
        some (storeValue, store)
      else none
  | _ => none

def fuseLocalGet4x3AddConstBinopAddConsumer (window : List LoweredOp) : Option LoweredOp :=
  match window with
  | get3 :: addInner :: constBinop :: addOuter :: consumer :: rest =>
      if [addInner, constBinop, addOuter, consumer].any (·.label.isSome) then none
      else if get3.op ≠ .opLocalGet4LocalGet4LocalGet4 ∨ addInner.op ≠ .opI32Add ∨
          constBinop.op ≠ .opI32ConstBinop ∨ addOuter.op ≠ .opI32Add then none
      else
        match consumer.op, constStore rest with
        | .opLocalTee4, some (storeValue, store) =>
            match get3.operands, constBinop.operands, consumer.operands, storeValue.operands,
              store.operands with
            | [a, b, c], [kind, rhs], [dst], [value], [memarg] =>
                some ⟨get3.label, .opLocalGet4x3I32AddConstBinopI32AddTee4I32ConstStore,
                  withSkip [a, b, c, kind, rhs, dst, value, memarg]
                    [addInner, constBinop, addOuter, consumer, storeValue, store]⟩
            | _, _, _, _, _ => none
        | .opLocalTee4, none =>
            match get3.operands, constBinop.operands, consumer.operands with
            | [a, b, c], [kind, rhs], [dst] =>
                some ⟨get3.label, .opLocalGet4x3I32AddConstBinopI32AddTee4,
                  withSkip [a, b, c, kind, rhs, dst]
                    [addInner, constBinop, addOuter, consumer]⟩
            | _, _, _ => none
        | .opLocalSet4, _ =>
            match get3.operands, constBinop.operands, consumer.operands with
            | [a, b, c], [kind, rhs], [dst] =>
                some ⟨get3.label, .opLocalGet4x3I32AddConstBinopI32AddSet4,
                  withSkip [a, b, c, kind, rhs, dst]
                    [addInner, constBinop, addOuter, consumer]⟩
            | _, _, _ => none
        | _, _ => none
  | _ => none

def loweredI32ScalarLoadKind : Op → Option Nat
  | .opI32Load => some 0
  | .opI32Load8S => some 1
  | .opI32Load8U => some 2
  | .opI32Load16S => some 3
  | .opI32Load16U => some 4
  | _ => none

def loweredI32LocalBaseStoreLocalGet4Kind : Op → Option Nat
  | .opI32StoreLocalBaseLocalGet4 => some 0
  | .opI32Store8LocalBaseLocalGet4 => some 1
  | .opI32Store16LocalBaseLocalGet4 => some 2
  | _ => none

def fuseI32LoadStoreLocalBaseLocalGet4Pair (window : List LoweredOp) : Option LoweredOp :=
  match window with
  | load :: store :: _ => do
      let loadKind ← loweredI32ScalarLoadKind load.op
      let storeKind ← loweredI32LocalBaseStoreLocalGet4Kind store.op
      match load.operands, store.operands with
      | loadMemarg :: _, addr :: delta :: value :: memarg :: _ =>
          some ⟨load.label, .opI32LoadStoreLocalBaseLocalGet4,
            withSkip [rawU32Operand (loadKind ||| storeKind <<< 8), loadMemarg, addr, delta,
              value, memarg] [store]⟩
      | _, _ => none
  | _ => none

def localBaseI32LoadPairLocalGet4Family : Op → Option Op
  | .opI32Load16ULocalBaseLocalGet4I32Load16U =>
      some .opI32Load16ULocalBaseLocalGet4I32Load16ULocalGet4
  | .opI32Load16SLocalBaseLocalGet4I32Load16S =>
      some .opI32Load16SLocalBaseLocalGet4I32Load16SLocalGet4
  | _ => none

def localGet4LocalBaseI32LoadPairFamily : Op → Option Op
  | .opI32Load16ULocalBaseLocalGet4I32Load16U =>
      some .opLocalGet4I32Load16ULocalBaseLocalGet4I32Load16U
  | .opI32Load16SLocalBaseLocalGet4I32Load16S =>
      some .opLocalGet4I32Load16SLocalBaseLocalGet4I32Load16S
  | _ => none

def fuseLocalBaseI32LoadPairFallthroughLocalGet4 (window : List LoweredOp) : Option LoweredOp :=
  match window with
  | pair :: get :: _ =>
      if get.op ≠ .opLocalGet4 then none
      else do
        let op ← localBaseI32LoadPairLocalGet4Family pair.op
        let preserved ← get.operands.head?
        some ⟨pair.label, op, withSkip (pair.operands ++ [preserved]) [get]⟩
  | _ => none

def fuseLocalGet4LocalBaseI32LoadPair (window : List LoweredOp) : Option LoweredOp :=
  match window with
  | get :: pair :: _ =>
      if get.op ≠ .opLocalGet4 then none
      else do
        let op ← localGet4LocalBaseI32LoadPairFamily pair.op
        let preserved ← get.operands.head?
        some ⟨get.label, op, withSkip (preserved :: pair.operands) [pair]⟩
  | _ => none

def fuseLocalGet4BrTable (window : List LoweredOp) : Option LoweredOp :=
  match window with
  | get :: table :: _ =>
      if get.op ≠ .opLocalGet4 ∨ table.op ≠ .opBrTable then none
      else do
        let addr ← get.operands.head?
        some ⟨get.label, .opLocalGet4BrTable, addr :: table.operands⟩
  | _ => none

def fuseLocalGet4I32ConstAddBrTable (window : List LoweredOp) : Option LoweredOp :=
  match window with
  | add :: table :: _ =>
      if add.op ≠ .opLocalGet4I32ConstAdd ∨ table.op ≠ .opBrTable then none
      else
        match add.operands with
        | addr :: imm :: _ =>
            some ⟨add.label, .opLocalGet4I32ConstAddBrTable, addr :: imm :: table.operands⟩
        | _ => none
  | _ => none

def load8UpdateOperands (branch : LoweredOp) : Option (List LoweredOperand) :=
  match branch.operands, opJumpTarget branch with
  | a :: b :: c :: d :: e :: f :: g :: _, some target =>
      some [a, b, c, d, e, f, g, .jumpTarget target]
  | _, _ => none

def fuseI32IncLoad8UpdateBranchTail (window : List LoweredOp) : Option LoweredOp :=
  match window with
  | inc :: branch :: _ =>
      if inc.op ≠ .opI32IncLocalBase ∨
          branch.op ≠ .opI32Load8ULocalBaseSet4LocalGet4Set4LocalGet4BrIf then none
      else
        match inc.operands with
        | a :: b :: c :: d :: e :: _ => do
            let tail ← load8UpdateOperands branch
            some ⟨inc.label,
              .opI32IncLocalBaseI32Load8ULocalBaseSet4LocalGet4Set4LocalGet4BrIf,
              withSkip ([a, b, c, d, e] ++ tail) [branch]⟩
        | _ => none
  | _ => none

/-- `is_integer_i32_cmp32`: the comparison kinds below the floating point ones. -/
def isIntegerI32Cmp32 : LoweredOperand → Bool
  | .raw encoded => decide ((u32 encoded).toNat / 2 < 10)
  | _ => false

def fuseGuardedLoad8UpdateBranchTail (window : List LoweredOp) : Option LoweredOp :=
  match window with
  | nextSet :: guardCmp :: guardIf :: branch :: _ =>
      if nextSet.op ≠ .opLocalGet4I32ConstAddSet4 ∨ guardCmp.op ≠ .opLocalCmp32 ∨
          guardIf.op ≠ .opIf ∨
          branch.op ≠ .opI32Load8ULocalBaseSet4LocalGet4Set4LocalGet4BrIf then none
      else
        match nextSet.operands, guardCmp.operands with
        | src :: delta :: dst :: _, kind :: lhs :: rhs :: _ =>
            if isIntegerI32Cmp32 kind then do
              let falseTarget ← opJumpTarget guardIf
              let tail ← load8UpdateOperands branch
              some ⟨nextSet.label, .opI32GuardedLoad8ULocalBaseSet4LocalGet4Set4LocalGet4BrIf,
                [src, delta, dst, kind, lhs, rhs, .jumpTarget falseTarget] ++ tail⟩
            else none
        | _, _ => none
  | _ => none

def loweredOpIsNoop (op : LoweredOp) : Bool :=
  match op.op, op.operands with
  | .opEnd, _ => true
  | .opDrop, .raw encoded :: _ => u32 encoded == 0
  | _, _ => false

/-- `code[skip_noop_ops_at(code, target)..]` -/
def skipNoopOps (code : List LoweredOp) : List LoweredOp :=
  code.dropWhile loweredOpIsNoop

def localGet4BrTableOperandsAt (code : List LoweredOp) (target : Nat) :
    Option (List LoweredOperand) :=
  match skipNoopOps (code.drop target) with
  | [] => none
  | op :: rest =>
      if op.op = .opLocalGet4BrTable then some op.operands
      else (fuseLocalGet4BrTable (op :: rest)).map LoweredOp.operands

def fuseGuardedTakenLocalGet4BrTable (code : List LoweredOp) (cursor : Nat)
    (labels : LabelIndices) : Option LoweredOp := do
  let replacement ← fuseGuardedLoad8UpdateBranchTail (code.drop cursor)
  let target ← labels (← opJumpTarget replacement)
  let table ← localGet4BrTableOperandsAt code target
  some { replacement with
    op := .opI32GuardedLoad8ULocalBaseSet4LocalGet4Set4LocalGet4BrIfTakenLocalGet4BrTable
    operands := replacement.operands ++ table }

def guardedLoad8FalseTarget (op : LoweredOp) : Option Nat :=
  match (op.operands[6]? : Option LoweredOperand) with
  | some (.jumpTarget target) => some target
  | _ => none

def fuseGuardedFalseLocalGet4BrTable (code : List LoweredOp) (cursor : Nat)
    (labels : LabelIndices) : Option LoweredOp := do
  let replacement ← fuseGuardedLoad8UpdateBranchTail (code.drop cursor)
  let target ← labels (← guardedLoad8FalseTarget replacement)
  let table ← localGet4BrTableOperandsAt code target
  some { replacement with
    op := .opI32GuardedLoad8ULocalBaseSet4LocalGet4Set4LocalGet4BrIfFalseLocalGet4BrTable
    operands := replacement.operands ++ table }

def fuseGuardedTakenConstCompareBrTable (code : List LoweredOp) (cursor : Nat)
    (labels : LabelIndices) : Option LoweredOp := do
  let replacement ← fuseGuardedLoad8UpdateBranchTail (code.drop cursor)
  let target ← labels (← opJumpTarget replacement)
  match skipNoopOps (code.drop target) with
  | compare :: branch :: _ =>
      if compare.op ≠ .opLocalGet4I32ConstCompareBrIf ∨ branch.op ≠ .opBr then none
      else do
        let branchTarget ← opJumpTarget branch
        let table ← localGet4BrTableOperandsAt code (← labels branchTarget)
        some { replacement with
          op := .opI32GuardedLoad8ULocalBaseSet4LocalGet4Set4LocalGet4BrIfTakenConstCompareBrTable
          operands :=
            replacement.operands ++ compare.operands ++ [.jumpTarget branchTarget] ++ table }
  | _ => none

/-- The four guarded forms, in the order the pass tries them. -/
def fuseGuarded (code : List LoweredOp) (cursor : Nat) (labels : LabelIndices) :
    Option LoweredOp :=
  (fuseGuardedTakenConstCompareBrTable code cursor labels).or <|
    (fuseGuardedFalseLocalGet4BrTable code cursor labels).or <|
    (fuseGuardedTakenLocalGet4BrTable code cursor labels).or <|
    fuseGuardedLoad8UpdateBranchTail (code.drop cursor)

def fuseLocalBaseLoadTeeLoad8BranchTail (window : List LoweredOp) : Option LoweredOp :=
  match window with
  | loadPtr :: loadBranch :: _ =>
      if loadPtr.op ≠ .opI32LoadLocalBaseTee4 ∨ loadBranch.op ≠ .opI32Load8UTee4BrIf then none
      else
        match loadPtr.operands, loadBranch.operands with
        | a :: b :: c :: d :: _, memarg :: dst :: _ => do
            let target ← opJumpTarget loadBranch
            some ⟨loadPtr.label, .opI32LoadLocalBaseTee4I32Load8UTee4BrIf,
              [a, b, c, d, memarg, dst, .jumpTarget target]⟩
        | _, _ => none
  | _ => none

def fuseLocalAddSetLoad8EqzBranchTail (window : List LoweredOp) : Option LoweredOp :=
  match window with
  | addSet :: loadBranch :: _ =>
      if addSet.op ≠ .opLocalGet4I32ConstAddSet4 ∨
          loadBranch.op ≠ .opI32Load8ULocalBaseTee4I32EqzBrIf then none
      else
        match addSet.operands, loadBranch.operands with
        | src :: imm :: dst :: _, base :: delta :: memarg :: tee :: _ => do
            let target ← opJumpTarget loadBranch
            some ⟨addSet.label, .opLocalGet4I32ConstAddSet4I32Load8ULocalBaseTee4I32EqzBrIf,
              [src, imm, dst, base, delta, memarg, tee, .jumpTarget target]⟩
        | _, _ => none
  | _ => none

def fuseLoad8UpdateBranchTakenLocalGet4 (code : List LoweredOp) (cursor : Nat)
    (labels : LabelIndices) : Option LoweredOp := do
  let branch ← code[cursor]?
  if branch.op ≠ .opI32Load8ULocalBaseSet4LocalGet4Set4LocalGet4BrIf then none
  else
    let target ← labels (← opJumpTarget branch)
    if target = cursor then none
    else
      let targetOp ← code[target]?
      if targetOp.op ≠ .opLocalGet4 then none
      else
        let taken ← targetOp.operands.head?
        some ⟨branch.label, .opI32Load8ULocalBaseSet4LocalGet4Set4LocalGet4BrIfTakenLocalGet4,
          branch.operands ++ [taken]⟩

def fuseLoad8UpdateBranchFallthroughLocalGet4 (window : List LoweredOp) : Option LoweredOp :=
  match window with
  | branch :: fallthrough :: _ =>
      if branch.op ≠ .opI32Load8ULocalBaseSet4LocalGet4Set4LocalGet4BrIf ∨
          fallthrough.op ≠ .opLocalGet4 then none
      else do
        let preserved ← fallthrough.operands.head?
        some ⟨branch.label,
          .opI32Load8ULocalBaseSet4LocalGet4Set4LocalGet4BrIfFallthroughLocalGet4,
          withSkip (branch.operands ++ [preserved]) [fallthrough]⟩
  | _ => none

def rawLocalAddr : Option LoweredOperand → Option (BitVec 32)
  | some (.raw encoded) => some (u32 encoded)
  | _ => none

def sameLocalOperand (lhs rhs : Option LoweredOperand) : Bool :=
  (rawLocalAddr lhs).isSome && rawLocalAddr lhs == rawLocalAddr rhs

/-- What follows a search loop's window: a branch taken when the list ends, if there is one. -/
def missTarget (rest : List LoweredOp) : Option LoweredOp :=
  match rest with
  | miss :: _ => if miss.op = .opBr then some miss else none
  | [] => none

/-- The common part of the two search-loop fusions: `fields` are the operands taken over from
the compare op. -/
def fuseSearchLoopEntry (compareOp loopOp fallthroughOp : Op)
    (fields : List LoweredOperand → Option (List LoweredOperand)) (window : List LoweredOp) :
    Option LoweredOp :=
  match window with
  | compare :: next :: rest =>
      if compare.op ≠ compareOp ∨ next.op ≠ .opI32LoadLocalBaseTee4BrIf ∨
          (opJumpTarget next).isNone then none
      else if !sameLocalOperand compare.operands[0]? next.operands[0]? ||
          !sameLocalOperand compare.operands[0]? next.operands[3]? then none
      else do
        let compareFields ← fields compare.operands
        let nextDelta ← next.operands[1]?
        let nextMemarg ← next.operands[2]?
        let matchTarget ← opJumpTarget compare
        let operands := compareFields ++ [nextDelta, nextMemarg, .jumpTarget matchTarget]
        match missTarget rest with
        | some miss =>
            let target ← opJumpTarget miss
            some ⟨compare.label, loopOp, operands ++ [.jumpTarget target]⟩
        | none => some ⟨compare.label, fallthroughOp, operands⟩
  | _ => none

def takeSeven : List LoweredOperand → Option (List LoweredOperand)
  | a :: b :: c :: d :: e :: f :: g :: _ => some [a, b, c, d, e, f, g]
  | _ => none

def takeEight : List LoweredOperand → Option (List LoweredOperand)
  | a :: b :: c :: d :: e :: f :: g :: h :: _ => some [a, b, c, d, e, f, g, h]
  | _ => none

def fuseI32Load16ULocalBaseEqSearchLoopEntry : List LoweredOp → Option LoweredOp :=
  fuseSearchLoopEntry .opI32LoadLocalBaseSet4I32Load16ULocalBaseLocalEqBrIf
    .opI32LoadLocalBaseSet4I32Load16ULocalBaseLocalEqSearchLoop
    .opI32LoadLocalBaseSet4I32Load16ULocalBaseLocalEqSearchLoopFallthrough takeSeven

def fuseI32Load8ULocalBaseMaskedSearchLoopEntry : List LoweredOp → Option LoweredOp :=
  fuseSearchLoopEntry .opI32LoadLocalBaseSet4I32Load8ULocalBaseLocalMaskedCompareBrIf
    .opI32LoadLocalBaseSet4I32Load8ULocalBaseLocalMaskedSearchLoop
    .opI32LoadLocalBaseSet4I32Load8ULocalBaseLocalMaskedSearchLoopFallthrough takeEight

inductive Fusion where
  | localGet4RunSkip
  | localGet4x3AddConstBinopAddConsumer
  | i32LoadStoreLocalBaseLocalGet4Pair
  | localGet4LocalBaseI32LoadPair
  | localBaseI32LoadPairFallthroughLocalGet4
  | localGet4BrTable
  | localGet4I32ConstAddBrTable
  | i32IncLoad8UpdateBranchTail
  | guarded
  | localBaseLoadTeeLoad8BranchTail
  | localAddSetLoad8EqzBranchTail
  | load8UpdateBranchTakenLocalGet4
  | load8UpdateBranchFallthroughLocalGet4
  | i32Load16ULocalBaseEqSearchLoopEntry
  | i32Load8ULocalBaseMaskedSearchLoopEntry
deriving DecidableEq, Repr

def Fusion.apply (code : List LoweredOp) (cursor : Nat) (labels : LabelIndices) :
    Fusion → Option LoweredOp
  | .localGet4RunSkip => fuseLocalGet4RunSkip (code.drop cursor)
  | .localGet4x3AddConstBinopAddConsumer =>
      fuseLocalGet4x3AddConstBinopAddConsumer (code.drop cursor)
  | .i32LoadStoreLocalBaseLocalGet4Pair =>
      fuseI32LoadStoreLocalBaseLocalGet4Pair (code.drop cursor)
  | .localGet4LocalBaseI32LoadPair => fuseLocalGet4LocalBaseI32LoadPair (code.drop cursor)
  | .localBaseI32LoadPairFallthroughLocalGet4 =>
      fuseLocalBaseI32LoadPairFallthroughLocalGet4 (code.drop cursor)
  | .localGet4BrTable => fuseLocalGet4BrTable (code.drop cursor)
  | .localGet4I32ConstAddBrTable => fuseLocalGet4I32ConstAddBrTable (code.drop cursor)
  | .i32IncLoad8UpdateBranchTail => fuseI32IncLoad8UpdateBranchTail (code.drop cursor)
  | .guarded => fuseGuarded code cursor labels
  | .localBaseLoadTeeLoad8BranchTail => fuseLocalBaseLoadTeeLoad8BranchTail (code.drop cursor)
  | .localAddSetLoad8EqzBranchTail => fuseLocalAddSetLoad8EqzBranchTail (code.drop cursor)
  | .load8UpdateBranchTakenLocalGet4 => fuseLoad8UpdateBranchTakenLocalGet4 code cursor labels
  | .load8UpdateBranchFallthroughLocalGet4 =>
      fuseLoad8UpdateBranchFallthroughLocalGet4 (code.drop cursor)
  | .i32Load16ULocalBaseEqSearchLoopEntry =>
      fuseI32Load16ULocalBaseEqSearchLoopEntry (code.drop cursor)
  | .i32Load8ULocalBaseMaskedSearchLoopEntry =>
      fuseI32Load8ULocalBaseMaskedSearchLoopEntry (code.drop cursor)

/-- The order in which a cursor position is tried. -/
def Fusion.order : List Fusion :=
  [.localGet4RunSkip, .localGet4x3AddConstBinopAddConsumer, .i32LoadStoreLocalBaseLocalGet4Pair,
    .localGet4LocalBaseI32LoadPair, .localBaseI32LoadPairFallthroughLocalGet4, .localGet4BrTable,
    .localGet4I32ConstAddBrTable, .i32IncLoad8UpdateBranchTail, .guarded,
    .localBaseLoadTeeLoad8BranchTail, .localAddSetLoad8EqzBranchTail,
    .load8UpdateBranchTakenLocalGet4, .load8UpdateBranchFallthroughLocalGet4,
    .i32Load16ULocalBaseEqSearchLoopEntry, .i32Load8ULocalBaseMaskedSearchLoopEntry]

/-- The first fusion that applies at the cursor, with the op that replaces the one there. -/
def fuseAt (code : List LoweredOp) (cursor : Nat) (labels : LabelIndices) :
    Option (Fusion × LoweredOp) :=
  Fusion.order.findSome? fun fusion => (fusion.apply code cursor labels).map (fusion, ·)

def fuseStep (labels : LabelIndices) (code : List LoweredOp) (cursor : Nat) : List LoweredOp :=
  match fuseAt code cursor labels with
  | some (_, replacement) => code.set cursor replacement
  | none => code

/-- The code when the pass has visited the first `n` positions. -/
def fusePrefix (labels : LabelIndices) (code : List LoweredOp) (n : Nat) : List LoweredOp :=
  (List.range n).foldl (fuseStep labels) code

def fuseSearchLoopEntries (labels : LabelIndices) (code : List LoweredOp) : List LoweredOp :=
  fusePrefix labels code code.length

/-- Comparison and arithmetic families whose first operand encodes a kind: the number of kinds. -/
def kindCount : Op → Option Nat
  | .opLocalBinop32 | .opLocalBinop32Set4 | .opLocalBinop32Tee4 | .opLocalBinop32BrIf
  | .opLocalBinop64 | .opLocalBinop64Set8 | .opLocalBinop64Tee8 => some 15
  | .opLocalCmp32 | .opLocalCmp32BrIf | .opLocalCmp64 | .opLocalCmp64BrIf => some 16
  | _ => none

/-- The kind operand says that the right-hand side is a constant (`LocalFastRhsShape::Const`). -/
def hasConstRhs (op : Op) (operands : List LoweredOperand) : Bool :=
  match kindCount op, operands with
  | some kinds, .raw kind :: _ =>
      decide ((u32 kind).toNat / 2 < kinds) && decide ((u32 kind).toNat % 2 = 1)
  | _, _ => false

def poolableRawOperand (op : Op) (operandIndex : Nat) (operands : List LoweredOperand) : Bool :=
  match operandIndex, op with
  | 0, .opI32Const | 0, .opI64Const | 0, .opF32Const | 0, .opF64Const => true
  | 1, .opLocalGet4I32ConstAdd | 1, .opLocalGet4I32ConstAddSet4
  | 1, .opLocalGet4I32ConstAddTee4 | 1, .opLocalGet4I32ConstAddBrIf
  | 1, .opLocalGet4I32ConstAddTee4BrIf => true
  | 2, .opLocalGet4I32ConstCompareBrIf => true
  | 2, op => hasConstRhs op operands
  | _, _ => false

/-- Encodings that may move to the pool, one for each occurrence. -/
def poolableEncodings (code : List LoweredOp) : List (BitVec 64) :=
  code.flatMap fun op =>
    op.operands.zipIdx.filterMap fun (operand, index) =>
      match operand with
      | .raw encoded =>
          if poolableRawOperand op.op index op.operands then some encoded else none
      | _ => none

abbrev ConstPool := List (BitVec 64)

/-- One operand: a constant that occurs at least twice becomes a reference. -/
def poolOperand (counts : BitVec 64 → Nat) (pool : ConstPool) (poolable : Bool)
    (operand : LoweredOperand) : ConstPool × LoweredOperand :=
  match operand with
  | .raw encoded =>
      if poolable && decide (2 ≤ counts encoded) then
        match pool.idxOf? encoded with
        | some index => (pool, .constPoolRef index)
        | none => (pool ++ [encoded], .constPoolRef pool.length)
      else (pool, operand)
  | _ => (pool, operand)

def poolOperands (counts : BitVec 64 → Nat) (poolable : Nat → Bool) :
    ConstPool → Nat → List LoweredOperand → ConstPool × List LoweredOperand
  | pool, _, [] => (pool, [])
  | pool, index, operand :: operands =>
      let (pool, operand) := poolOperand counts pool (poolable index) operand
      let (pool, operands) := poolOperands counts poolable pool (index + 1) operands
      (pool, operand :: operands)

def poolCode (counts : BitVec 64 → Nat) :
    ConstPool → List LoweredOp → ConstPool × List LoweredOp
  | pool, [] => (pool, [])
  | pool, op :: code =>
      let (pool, operands) := poolOperands counts
        (fun index => poolableRawOperand op.op index op.operands) pool 0 op.operands
      let (pool, code) := poolCode counts pool code
      (pool, { op with operands := operands } :: code)

def buildConstPool (code : List LoweredOp) : ConstPool × List LoweredOp :=
  poolCode (fun encoded => (poolableEncodings code).count encoded) [] code

structure LoweredKernelBlock where
  blockId : Nat
  label : Nat
  ops : List LoweredOp
deriving DecidableEq, Repr

structure LoweredKernelFunction where
  blocks : List LoweredKernelBlock
deriving DecidableEq, Repr

structure LoweredBlockMap where
  blockId : Nat
  label : Nat
  codeIndex : Nat
deriving DecidableEq, Repr

structure LoweredFunction where
  code : List LoweredOp
  constPool : ConstPool
  blockMap : List LoweredBlockMap
deriving DecidableEq, Repr

def LoweredKernelFunction.code (kernel : LoweredKernelFunction) : List LoweredOp :=
  kernel.blocks.flatMap LoweredKernelBlock.ops

def blockMapFrom : Nat → List LoweredKernelBlock → List LoweredBlockMap
  | _, [] => []
  | index, block :: blocks =>
      ⟨block.blockId, block.label, index⟩ :: blockMapFrom (index + block.ops.length) blocks

/-- Collecting the pairs in a map keeps the last one of a label. -/
def labelCodeIndices (blockMap : List LoweredBlockMap) : LabelIndices :=
  fun label => (blockMap.reverse.find? (·.label == label)).map LoweredBlockMap.codeIndex

def LoweredKernelFunction.labels (kernel : LoweredKernelFunction) : LabelIndices :=
  labelCodeIndices (blockMapFrom 0 kernel.blocks)

def encode (kernel : LoweredKernelFunction) : LoweredFunction :=
  let (constPool, code) := buildConstPool (fuseSearchLoopEntries kernel.labels kernel.code)
  ⟨code, constPool, blockMapFrom 0 kernel.blocks⟩

/-- `LoweredOperand::materialize` for the operands whose value a handler reads as a number. -/
def operandValue (f : LoweredFunction) : LoweredOperand → Option (BitVec 64)
  | .raw encoded => some encoded
  | .constPoolRef index => f.constPool[index]?
  | .jumpTarget label => some (BitVec.ofNat 64 (labelToAddr f.code label))
  | .callRecipeRef _ => none

end Telomere.Optimizer
