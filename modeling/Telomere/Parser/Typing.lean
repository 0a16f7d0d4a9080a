import Telomere.Parser.BranchTyping
import Mathlib.Data.List.Forall2

/-!
# Typing rules of bodies

The rules of WebAssembly for the instructions of a body, with the operands of the current block as a
list, its top at the head. After an unconditional transfer the operands can be any; `none` is the type
below all others that an operand can have there.
-/

namespace Telomere.Parser

abbrev OpdType := Option ValType

def OpdType.Below (operand expected : OpdType) : Prop := operand = none ∨ operand = expected

/-- Operands for values of these types, the last one first. -/
def Operands (operands : List OpdType) (types : List ValType) : Prop :=
  List.Forall₂ (fun operand ty => OpdType.Below operand (some ty)) operands types.reverse

def known (types : List ValType) : List OpdType := types.reverse.map some

@[simp] theorem known_singleton (ty : ValType) : known [ty] = [some ty] := rfl

/-- Instructions other than those that open and close blocks. `labels` are the types of the open
labels, the innermost first. -/
inductive PlainTyped (env : Env) (labels : List (List ValType)) :
    Inst → List OpdType → List OpdType → Prop where
  | nop (rest : List OpdType) : PlainTyped env labels .nop rest rest
  | unreachable (rest rest' : List OpdType) : PlainTyped env labels .unreachable rest rest'
  | simple {op : SimpleOp} {operands : List OpdType} (rest : List OpdType) :
      Operands operands op.inputs →
        PlainTyped env labels (.simple op) (operands ++ rest) (known op.outputs ++ rest)
  | call {idx : Nat} {ty : FuncType} {operands : List OpdType} (rest : List OpdType) :
      getFuncType env idx = .ok ty → Operands operands ty.params →
        PlainTyped env labels (.call idx) (operands ++ rest) (known ty.results ++ rest)
  | callIndirect {typeidx tableidx : Nat} {ty : FuncType} {callee : OpdType}
      {operands : List OpdType} (rest : List OpdType) :
      checkTable env tableidx = .ok () → getType env typeidx = .ok ty →
        callee.Below (some .i32) → Operands operands ty.params →
          PlainTyped env labels (.callIndirect typeidx tableidx) (callee :: (operands ++ rest))
            (known ty.results ++ rest)
  | returnCall {idx : Nat} {ty : FuncType} {operands : List OpdType} (rest rest' : List OpdType) :
      getFuncType env idx = .ok ty → ty.results = env.functype.results →
        Operands operands ty.params →
          PlainTyped env labels (.returnCall idx) (operands ++ rest) rest'
  | returnCallIndirect {typeidx tableidx : Nat} {ty : FuncType} {callee : OpdType}
      {operands : List OpdType} (rest rest' : List OpdType) :
      checkTable env tableidx = .ok () → getType env typeidx = .ok ty →
        ty.results = env.functype.results → callee.Below (some .i32) →
          Operands operands ty.params →
            PlainTyped env labels (.returnCallIndirect typeidx tableidx)
              (callee :: (operands ++ rest)) rest'
  | br {idx : Nat} {types : List ValType} {operands : List OpdType} (rest rest' : List OpdType) :
      labels[idx]? = some types → Operands operands types →
        PlainTyped env labels (.br idx) (operands ++ rest) rest'
  | brIf {idx : Nat} {types : List ValType} {condition : OpdType} {operands : List OpdType}
      (rest : List OpdType) :
      labels[idx]? = some types → condition.Below (some .i32) → Operands operands types →
        PlainTyped env labels (.brIf idx) (condition :: (operands ++ rest)) (known types ++ rest)
  | brTable {idxs : List Nat} {defaultIdx : Nat} {index : OpdType} {operands : List OpdType}
      (rest rest' : List OpdType) :
      index.Below (some .i32) →
        (∀ idx ∈ idxs ++ [defaultIdx],
          ∃ types, labels[idx]? = some types ∧ Operands operands types) →
          PlainTyped env labels (.brTable idxs defaultIdx) (index :: (operands ++ rest)) rest'
  | return_ {operands : List OpdType} (rest rest' : List OpdType) :
      Operands operands env.functype.results →
        PlainTyped env labels .return_ (operands ++ rest) rest'
  | drop (operand : OpdType) (rest : List OpdType) :
      PlainTyped env labels .drop (operand :: rest) rest
  | select {condition second first operand : OpdType} (rest : List OpdType) :
      condition.Below (some .i32) → second.Below operand → first.Below operand →
        (∀ ty, operand = some ty → ty.isRef = false) →
          PlainTyped env labels .select (condition :: second :: first :: rest) (operand :: rest)
  | selectTyped {condition second first : OpdType} {ty : ValType} (rest : List OpdType) :
      condition.Below (some .i32) → second.Below (some ty) → first.Below (some ty) →
        PlainTyped env labels (.selectTyped [ty]) (condition :: second :: first :: rest)
          (some ty :: rest)
  | refIsNull {operand : OpdType} (rest : List OpdType) :
      (∀ ty, operand = some ty → ty.isRef = true) →
        PlainTyped env labels .refIsNull (operand :: rest) (some .i32 :: rest)

/-- Sequences with at most so many blocks inside of each other. An `if` without an `else` returns its
parameters. -/
inductive Typed (env : Env) :
    Nat → List (List ValType) → List Inst → List OpdType → List OpdType → Prop where
  | nil (depth : Nat) (labels : List (List ValType)) (stack : List OpdType) :
      Typed env depth labels [] stack stack
  | plain {depth : Nat} {labels : List (List ValType)} {inst : Inst} {insts : List Inst}
      {stack stack' stack'' : List OpdType} :
      PlainTyped env labels inst stack stack' → Typed env depth labels insts stack' stack'' →
        Typed env depth labels (inst :: insts) stack stack''
  | block {depth : Nat} {labels : List (List ValType)} {blocktype : BlockType}
      {params results : List ValType} {body insts : List Inst}
      {operands ends rest stack : List OpdType} :
      blocktype.params env.types = some params → blocktype.results env.types = some results →
        Operands operands params →
          Typed env depth (results :: labels) body (known params) ends →
            Operands ends results →
              Typed env (depth + 1) labels insts (known results ++ rest) stack →
                Typed env (depth + 1) labels (.block blocktype :: (body ++ .end_ :: insts))
                  (operands ++ rest) stack
  | loop {depth : Nat} {labels : List (List ValType)} {blocktype : BlockType}
      {params results : List ValType} {body insts : List Inst}
      {operands ends rest stack : List OpdType} :
      blocktype.params env.types = some params → blocktype.results env.types = some results →
        Operands operands params →
          Typed env depth (params :: labels) body (known params) ends →
            Operands ends results →
              Typed env (depth + 1) labels insts (known results ++ rest) stack →
                Typed env (depth + 1) labels (.loop blocktype :: (body ++ .end_ :: insts))
                  (operands ++ rest) stack
  | ifElse {depth : Nat} {labels : List (List ValType)} {blocktype : BlockType}
      {params results : List ValType} {first second insts : List Inst} {condition : OpdType}
      {operands firstEnds secondEnds rest stack : List OpdType} :
      blocktype.params env.types = some params → blocktype.results env.types = some results →
        condition.Below (some .i32) → Operands operands params →
          Typed env depth (results :: labels) first (known params) firstEnds →
            Operands firstEnds results →
              Typed env depth (results :: labels) second (known params) secondEnds →
                Operands secondEnds results →
                  Typed env (depth + 1) labels insts (known results ++ rest) stack →
                    Typed env (depth + 1) labels
                      (.if_ blocktype :: (first ++ .else_ :: (second ++ .end_ :: insts)))
                      (condition :: (operands ++ rest)) stack
  | ifOnly {depth : Nat} {labels : List (List ValType)} {blocktype : BlockType}
      {results : List ValType} {first insts : List Inst} {condition : OpdType}
      {operands ends rest stack : List OpdType} :
      blocktype.params env.types = some results → blocktype.results env.types = some results →
        condition.Below (some .i32) → Operands operands results →
          Typed env depth (results :: labels) first (known results) ends →
            Operands ends results →
              Typed env (depth + 1) labels insts (known results ++ rest) stack →
                Typed env (depth + 1) labels (.if_ blocktype :: (first ++ .end_ :: insts))
                  (condition :: (operands ++ rest)) stack

/-- A body of the function's type, nested no deeper than the limit. -/
def ValidBody (env : Env) (body : List Inst) : Prop :=
  getType env env.typeidx = .ok env.functype ∧
    ∃ ends, Typed env maxControlNestingDepth [env.functype.results] body [] ends ∧
      Operands ends env.functype.results

end Telomere.Parser
