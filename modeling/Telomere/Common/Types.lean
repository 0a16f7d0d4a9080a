import Mathlib.Algebra.Ring.Nat
import Mathlib.Data.List.Basic

/-!
# Value, function and block types

The type vocabulary shared by the validator, the code emitter and the interpreter, with the
byte sizes values take on the operand stack.
-/

namespace Telomere

inductive ValType where
  | i32 | i64 | f32 | f64 | v128 | funcRef | externRef
deriving DecidableEq, Repr

inductive RefType where
  | funcRef | externRef
deriving DecidableEq, Repr

/-- Bytes one value occupies on the operand stack and in a local slot. -/
def ValType.stackSize : ValType → Nat
  | .i32 | .f32 | .funcRef | .externRef => 4
  | .i64 | .f64 => 8
  | .v128 => 16

def ValType.isRef : ValType → Bool
  | .funcRef | .externRef => true
  | _ => false

structure FuncType where
  params : List ValType
  results : List ValType
deriving DecidableEq, Repr

inductive BlockType where
  | void
  | valType (ty : ValType)
  | typeIdx (idx : Nat)
deriving DecidableEq, Repr

def stackBytes (tys : List ValType) : Nat :=
  (tys.map ValType.stackSize).sum

@[simp] theorem stackBytes_nil : stackBytes [] = 0 := rfl

@[simp] theorem stackBytes_cons (ty : ValType) (tys : List ValType) :
    stackBytes (ty :: tys) = ty.stackSize + stackBytes tys := by
  simp [stackBytes]

@[simp] theorem stackBytes_append (left right : List ValType) :
    stackBytes (left ++ right) = stackBytes left + stackBytes right := by
  simp [stackBytes]

@[simp] theorem stackBytes_reverse (tys : List ValType) :
    stackBytes tys.reverse = stackBytes tys := by
  simp [stackBytes, List.map_reverse, List.sum_reverse]

/-- Parameter types a block type stands for, `none` when its type index is out of range. -/
def BlockType.params (types : List FuncType) : BlockType → Option (List ValType)
  | .void | .valType _ => some []
  | .typeIdx idx => (types[idx]?).map FuncType.params

def BlockType.results (types : List FuncType) : BlockType → Option (List ValType)
  | .void => some []
  | .valType ty => some [ty]
  | .typeIdx idx => (types[idx]?).map FuncType.results

def BlockType.paramSize (types : List FuncType) (blocktype : BlockType) : Option Nat :=
  (blocktype.params types).map stackBytes

def BlockType.returnSize (types : List FuncType) (blocktype : BlockType) : Option Nat :=
  (blocktype.results types).map stackBytes

end Telomere
