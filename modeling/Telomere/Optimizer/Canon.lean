import Telomere.Common.Types
import Telomere.Optimizer.Lowered

/-!
# Canonical instructions

The optimizer's view of a function body: basic blocks of decoded instructions.
-/

namespace Telomere.Optimizer

structure CanonInst where
  op : Op
  operands : List LoweredOperand
  stackBefore : List ValType
  stackAfter : List ValType
deriving DecidableEq, Repr

structure CanonBlock where
  id : Nat
  insts : List CanonInst
  predecessors : List Nat
  successors : List Nat
deriving DecidableEq, Repr

end Telomere.Optimizer
