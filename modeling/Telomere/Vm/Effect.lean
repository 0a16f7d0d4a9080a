import Telomere.Parser.Instruction

/-!
# What a working handler does to the byte stack

A handler that is not in `control.rs` takes a fixed number of bytes off the operand stack and
leaves a fixed number there. A called function is one step.
-/

namespace Telomere.Vm

open Telomere.Parser

/-- Bytes taken off the stack, bytes left there, and operand slots after the handler. -/
structure Effect where
  popped : Nat
  pushed : Nat
  slots : Nat
deriving DecidableEq, Repr

/-- Handlers that only work on operands; `word i` is the slot `i` after the handler. -/
def effect (env : Env) (word : Nat → Option Operand) : Handler → Option Effect
  | .simple op => some ⟨stackBytes op.inputs, stackBytes op.outputs, op.operands.length⟩
  | .opDrop =>
      match word 0 with
      | some (.dropSize size) => some ⟨size, 0, 1⟩
      | _ => none
  | .opSelect =>
      match word 0 with
      | some (.select size) => some ⟨2 * size + 4, size, 1⟩
      | _ => none
  | .opRefIsNull => some ⟨4, 4, 0⟩
  | .opCall | .opCallImport =>
      match word 0 with
      | some (.callRecipeRef idx) =>
          match getFuncType env idx with
          | .ok ty => some ⟨stackBytes ty.params, stackBytes ty.results, 1⟩
          | .error _ => none
      | _ => none
  | .opCallIndirect =>
      match word 1 with
      | some (.u32 typeidx) =>
          match getType env typeidx with
          | .ok ty => some ⟨stackBytes ty.params + 4, stackBytes ty.results, 2⟩
          | .error _ => none
      | _ => none
  | _ => none

end Telomere.Vm
