import Telomere.Parser.Typing

/-!
# The checker's stack and typed operands

What the checker's stack says of the operands that a typing of the code has: the entries of the
current block agree with them, and popping and pushing follows the typing rules.
-/

namespace Telomere.Parser

open TypeChecker State

/-- Operands that the entries of the checker's stack can stand for. -/
inductive Agrees : List MaybeUnreachable → List OpdType → Prop where
  | nil : Agrees [] []
  | normal (ty : ValType) {entries : List MaybeUnreachable} {stack : List OpdType} :
      Agrees entries stack → Agrees (.normal ty :: entries) (some ty :: stack)
  | unknown (entries : List MaybeUnreachable) (stack : List OpdType) :
      Agrees (.unreachable false :: entries) stack
  | any (operand : OpdType) (entries : List MaybeUnreachable) (stack : List OpdType) :
      Agrees (.unreachable true :: .unreachable false :: entries) (operand :: stack)

theorem pop_cons {v : MaybeUnreachable} {rest : List MaybeUnreachable} {b : Block}
    {bs : List Block} (hbase : b.base ≤ rest.length) :
    pop ⟨v :: rest, b :: bs⟩ =
      .ok (v, ⟨if isMarker v then .unreachable false :: rest else rest, b :: bs⟩) := by
  have hb : blockBase ⟨v :: rest, b :: bs⟩ = .ok b.base := blockBase_cons rfl
  unfold pop
  rw [hb, Lib.ok_bind]
  cases v <;> simp [isMarker, Nat.not_lt.mpr hbase, pure, Except.pure]

section Stack

variable {B entries : List MaybeUnreachable} {b : Block} {bs : List Block}
  {operands stack : List OpdType}

/-- The popped operand is one the checker knows, or what is left is unknown. -/
theorem Agrees.pop (bs : List Block) {operand : OpdType} (h : Agrees entries (operand :: stack))
    (hbase : b.base = B.length) :
    ∃ v entries', TypeChecker.pop ⟨entries ++ B, b :: bs⟩ = .ok (v, ⟨entries' ++ B, b :: bs⟩) ∧
      Agrees entries' stack ∧
        ((∃ ty, v = .normal ty ∧ operand = some ty) ∨
          ∃ any rest, v = .unreachable any ∧ entries' = .unreachable false :: rest) := by
  cases h with
  | normal ty h => exact ⟨_, _, pop_cons (by simp [hbase]), h, .inl ⟨ty, rfl, rfl⟩⟩
  | unknown rest _ =>
      exact ⟨_, .unreachable false :: rest, pop_cons (by simp [hbase]), .unknown _ _,
        .inr ⟨false, rest, rfl, rfl⟩⟩
  | any _ rest _ =>
      exact ⟨_, .unreachable false :: .unreachable false :: rest,
        pop_cons (by simp [hbase]; omega), .unknown _ _, .inr ⟨true, _, rfl, rfl⟩⟩

theorem Agrees.popExpect (bs : List Block) {operand : OpdType} {ty : ValType}
    (h : Agrees entries (operand :: stack)) (hbase : b.base = B.length)
    (hbelow : operand.Below (some ty)) :
    ∃ entries', TypeChecker.popExpect ⟨entries ++ B, b :: bs⟩ ty = .ok ⟨entries' ++ B, b :: bs⟩ ∧
      Agrees entries' stack := by
  obtain ⟨v, entries', hpop, hrest, hv⟩ := h.pop bs hbase
  refine ⟨entries', Lib.bind_eq_ok.mpr ⟨_, hpop, ?_⟩, hrest⟩
  rcases hv with ⟨actual, rfl, rfl⟩ | ⟨any, rest, rfl, -⟩
  · obtain rfl : actual = ty := by simpa [OpdType.Below] using hbelow
    simp [assertValtype, Lib.ok_bind, pure, Except.pure]
  · rfl

theorem Agrees.popAll (bs : List Block) {types : List ValType}
    (h : Agrees entries (operands ++ stack)) (hbase : b.base = B.length)
    (hoperands : List.Forall₂ (fun operand ty => OpdType.Below operand (some ty)) operands types) :
    ∃ entries', TypeChecker.popAll ⟨entries ++ B, b :: bs⟩ types = .ok ⟨entries' ++ B, b :: bs⟩ ∧
      Agrees entries' stack := by
  induction hoperands generalizing entries with
  | nil => exact ⟨entries, rfl, h⟩
  | cons hbelow _ ih =>
      obtain ⟨rest, hpop, hrest⟩ := Agrees.popExpect bs h hbase hbelow
      obtain ⟨entries', hall, hentries'⟩ := ih hrest
      exact ⟨entries', Lib.bind_eq_ok.mpr ⟨_, hpop, hall⟩, hentries'⟩

theorem Agrees.pushed (h : Agrees entries stack) (types : List ValType) :
    Agrees (types.reverse.map .normal ++ entries) (known types ++ stack) := by
  unfold known
  induction types.reverse with
  | nil => exact h
  | cons ty types ih => exact .normal ty ih

theorem Agrees.op (bs : List Block) {input : List ValType}
    (h : Agrees entries (operands ++ stack))
    (hbase : b.base = B.length) (hoperands : Operands operands input) (output : List ValType) :
    ∃ entries', TypeChecker.op ⟨entries ++ B, b :: bs⟩ input output =
        .ok ⟨entries' ++ B, b :: bs⟩ ∧ Agrees entries' (known output ++ stack) := by
  obtain ⟨entries', hpop, hentries'⟩ := Agrees.popAll bs h hbase hoperands
  refine ⟨_, Lib.bind_eq_ok.mpr ⟨_, hpop, ?_⟩, hentries'.pushed output⟩
  rw [pushAll_eq, List.append_assoc]
  rfl

theorem aboveBase_append (hbase : b.base = B.length) :
    aboveBase ⟨entries ++ B, b :: bs⟩ b.base = entries := by
  simp [aboveBase, hbase]

theorem checkFrom_marker (any : Bool) (rest : List MaybeUnreachable) (types : List ValType) :
    TypeChecker.checkFrom (.unreachable any :: rest) types = .ok () := by
  induction types with
  | nil => rfl
  | cons ty types ih => exact ih

theorem Agrees.checkFrom {types : List ValType} (h : Agrees entries (operands ++ stack))
    (hoperands : List.Forall₂ (fun operand ty => OpdType.Below operand (some ty)) operands types) :
    TypeChecker.checkFrom entries types = .ok () := by
  induction hoperands generalizing entries with
  | nil => cases entries <;> rfl
  | cons hbelow hoperands ih =>
      cases h with
      | normal ty h =>
          obtain rfl := by simpa [OpdType.Below] using hbelow
          simp [TypeChecker.checkFrom, assertValtype, Lib.ok_bind, ih h]
      | unknown rest _ => exact checkFrom_marker false rest _
      | any _ rest _ => exact checkFrom_marker true _ _

theorem Agrees.weaken {types : List ValType} (h : Agrees entries (operands ++ stack))
    (hoperands : Operands operands types) : Agrees entries (known types ++ stack) := by
  unfold Operands at hoperands
  unfold known
  generalize types.reverse = types at hoperands
  induction hoperands generalizing entries with
  | nil => exact h
  | cons hbelow hoperands ih =>
      cases h with
      | normal ty h =>
          obtain rfl := by simpa [OpdType.Below] using hbelow
          exact .normal ty (ih h)
      | unknown rest _ => exact .unknown _ _
      | any _ rest _ => exact .any _ _ _

end Stack

structure Opened (env : Env) (labels : List (List ValType)) (B : List MaybeUnreachable)
    (b : Block) (bs : List Block) : Prop where
  base : b.base = B.length
  labels : ∀ (idx : Nat) (types : List ValType), labels[idx]? = some types →
    ∃ target : Block, (b :: bs)[idx]? = some target ∧ labelTypes env target = some types

/-- Inside of the block the checker has these operands. -/
def Holds (B : List MaybeUnreachable) (b : Block) (bs : List Block) (stack : List OpdType)
    (c : TypeChecker) : Prop :=
  ∃ entries, c = ⟨entries ++ B, b :: bs⟩ ∧ Agrees entries stack

section Current

variable {env : Env} {labels : List (List ValType)} {B : List MaybeUnreachable} {b : Block}
  {bs : List Block} {s : State} {c : TypeChecker} {operands stack : List OpdType}

theorem Holds.op {input : List ValType} (h : Holds B b bs (operands ++ stack) c)
    (hbase : b.base = B.length) (hoperands : Operands operands input) (output : List ValType) :
    ∃ c', c.op input output = .ok c' ∧ Holds B b bs (known output ++ stack) c' := by
  obtain ⟨entries, rfl, hentries⟩ := h
  obtain ⟨entries', hop, hentries'⟩ := hentries.op bs hbase hoperands output
  exact ⟨_, hop, entries', rfl, hentries'⟩

theorem Holds.opOne {operand : OpdType} {ty : ValType} (h : Holds B b bs (operand :: stack) c)
    (hbase : b.base = B.length) (hbelow : operand.Below (some ty)) (output : List ValType) :
    ∃ c', c.op [ty] output = .ok c' ∧ Holds B b bs (known output ++ stack) c' := by
  have hone : Holds B b bs ([operand] ++ stack) c := h
  have hoperands : Operands [operand] [ty] := .cons hbelow .nil
  exact hone.op hbase hoperands output

theorem Holds.popOne {operand : OpdType} {ty : ValType} (h : Holds B b bs (operand :: stack) c)
    (hbase : b.base = B.length) (hbelow : operand.Below (some ty)) :
    ∃ c', c.op [ty] [] = .ok c' ∧ Holds B b bs stack c' :=
  h.opOne hbase hbelow []

theorem Holds.push (h : Holds B b bs stack c) (hbase : b.base = B.length)
    (output : List ValType) :
    ∃ c', c.op [] output = .ok c' ∧ Holds B b bs (known output ++ stack) c' := by
  have hnone : Holds B b bs ([] ++ stack) c := h
  have hoperands : Operands [] [] := .nil
  exact hnone.op hbase hoperands output

theorem operands_known (types : List ValType) : Operands (known types) types := by
  unfold Operands known
  induction types.reverse with
  | nil => exact .nil
  | cons ty types ih => exact .cons (.inr rfl) ih

theorem Holds.returned {types : List ValType} (h : Holds B b bs (known types ++ stack) c)
    (hbase : b.base = B.length) :
    ∃ c', c.op types [] = .ok c' ∧ Holds B b bs stack c' := by
  exact h.op hbase (operands_known types) []

theorem Holds.unreachable (h : Holds B b bs stack c) (stack' : List OpdType) :
    Holds B b bs stack' c.unreachable := by
  obtain ⟨entries, rfl, -⟩ := h
  exact ⟨.unreachable false :: entries, rfl, .unknown _ _⟩

theorem Holds.check {types : List ValType} (h : Holds B b bs (operands ++ stack) c)
    (hbase : b.base = B.length) (hoperands : Operands operands types) :
    c.check types = .ok () := by
  obtain ⟨entries, rfl, hentries⟩ := h
  have hblock : blockBase ⟨entries ++ B, b :: bs⟩ = .ok b.base := blockBase_cons rfl
  unfold TypeChecker.check
  rw [hblock, Lib.ok_bind, aboveBase_append hbase]
  exact hentries.checkFrom hoperands

theorem Holds.weaken {types : List ValType} (h : Holds B b bs (operands ++ stack) c)
    (hoperands : Operands operands types) : Holds B b bs (known types ++ stack) c := by
  obtain ⟨entries, rfl, hentries⟩ := h
  exact ⟨entries, rfl, hentries.weaken hoperands⟩

theorem popBrTypes_eq {c : TypeChecker} {target : Block} {types : List ValType}
    (htypes : labelTypes env target = some types) : popBrTypes env c target = c.op types [] := by
  obtain ⟨kind, blocktype, base⟩ := target
  cases kind <;> cases blocktype <;>
    simp only [labelTypes, BlockType.results, BlockType.params, Option.some.injEq,
      Option.map_eq_some_iff] at htypes
  case block.typeIdx idx | if_.typeIdx idx | loop.typeIdx idx =>
      obtain ⟨ty, hty, rfl⟩ := htypes
      simp [popBrTypes, getType, hty, Lib.ok_bind]
  all_goals
    subst htypes
    rfl

theorem checkBrIfTypes_eq {c : TypeChecker} {target : Block} {types : List ValType}
    (htypes : labelTypes env target = some types) :
    checkBrIfTypes env c target = .ok c ∨ checkBrIfTypes env c target = c.op types types := by
  obtain ⟨kind, blocktype, base⟩ := target
  cases kind <;> cases blocktype <;>
    simp only [labelTypes, BlockType.results, BlockType.params, Option.some.injEq,
      Option.map_eq_some_iff] at htypes
  case block.typeIdx idx | if_.typeIdx idx =>
      obtain ⟨ty, hty, rfl⟩ := htypes
      exact .inr (by simp [checkBrIfTypes, getType, hty, Lib.ok_bind])
  case block.valType ty | if_.valType ty =>
      subst htypes
      exact .inr rfl
  all_goals exact .inl rfl

theorem validateBrTableTypes_eq {c : TypeChecker} {idx : Nat} {target : Block}
    {types : List ValType} (htarget : c.blocks[idx]? = some target)
    (htypes : labelTypes env target = some types) (hcheck : c.check types = .ok ()) :
    validateBrTableTypes env c idx = .ok types.length := by
  have hget : c.getBlock idx = .ok target := by simp [getBlock, htarget]
  unfold validateBrTableTypes
  rw [hget, Lib.ok_bind]
  obtain ⟨kind, blocktype, base⟩ := target
  cases kind <;> cases blocktype <;>
    simp only [labelTypes, BlockType.results, BlockType.params, Option.some.injEq,
      Option.map_eq_some_iff] at htypes
  case block.typeIdx idx | if_.typeIdx idx | loop.typeIdx idx =>
      obtain ⟨ty, hty, rfl⟩ := htypes
      simp [getType, hty, hcheck, Lib.ok_bind, pure, Except.pure]
  case block.valType ty | if_.valType ty =>
      subst htypes
      simp [hcheck, Lib.ok_bind, pure, Except.pure]
  all_goals
    subst htypes
    rfl

theorem op_nil (c : TypeChecker) : c.op [] [] = .ok c := rfl

theorem enterChecker_eq {c : TypeChecker} {kind : BlockKind} {blocktype : BlockType}
    {params : List ValType} (hparams : blocktype.params env.types = some params) :
    enterChecker env c kind blocktype =
      (do let c ← c.op params []; (c.enterBlock kind blocktype).op [] params) := by
  cases blocktype with
  | typeIdx idx =>
      obtain ⟨ty, hty, rfl⟩ := Option.map_eq_some_iff.mp hparams
      simp [enterChecker, getType, hty, Lib.ok_bind]
  | void | valType =>
      obtain rfl := Option.some.inj hparams
      rfl

theorem leaveChecker_eq {c : TypeChecker} {blocktype : BlockType} {results : List ValType}
    (hresults : blocktype.results env.types = some results) :
    leaveChecker env c blocktype =
      (do let c ← c.op results []; let c ← c.leaveBlock; c.op [] results) := by
  cases blocktype with
  | typeIdx idx =>
      obtain ⟨ty, hty, rfl⟩ := Option.map_eq_some_iff.mp hresults
      simp [leaveChecker, getType, hty, Lib.ok_bind]
  | valType ty =>
      obtain rfl := Option.some.inj hresults
      rfl
  | void =>
      obtain rfl := Option.some.inj hresults
      rw [op_nil, Lib.ok_bind]
      change c.leaveBlock = c.leaveBlock >>= fun c => .ok c
      cases c.leaveBlock <;> rfl

theorem Holds.pop {operand : OpdType} (h : Holds B b bs (operand :: stack) c)
    (hbase : b.base = B.length) :
    ∃ v c', c.pop = .ok (v, c') ∧ Holds B b bs stack c' ∧
      ((∃ ty, v = .normal ty ∧ operand = some ty) ∨
        ∃ any rest, v = .unreachable any ∧ c' = ⟨.unreachable false :: rest ++ B, b :: bs⟩) := by
  obtain ⟨entries, rfl, hentries⟩ := h
  obtain ⟨v, entries', hpop, hentries', hv⟩ := hentries.pop bs hbase
  refine ⟨v, _, hpop, ⟨entries', rfl, hentries'⟩, hv.imp_right ?_⟩
  rintro ⟨any, rest, rfl, rfl⟩
  exact ⟨any, rest, rfl, rfl⟩

end Current

section Blocks

variable {env : Env} {labels : List (List ValType)} {B rest : List MaybeUnreachable} {b : Block}
  {bs : List Block} {s : State} {c : TypeChecker} {operands ends stack : List OpdType}
  {blocktype : BlockType} {params results : List ValType}

theorem Opened.enter {kind : BlockKind} {types : List ValType} (hopen : Opened env labels B b bs)
    (htypes : labelTypes env ⟨kind, blocktype, (rest ++ B).length⟩ = some types) :
    Opened env (types :: labels) (rest ++ B) ⟨kind, blocktype, (rest ++ B).length⟩ (b :: bs) := by
  refine ⟨rfl, fun idx types' hidx => ?_⟩
  cases idx with
  | zero =>
      obtain rfl : types = types' := by simpa using hidx
      exact ⟨_, rfl, htypes⟩
  | succ idx => exact hopen.labels idx types' hidx

theorem Holds.leaveBlock (h : Holds B b bs [] c) (hbase : b.base = B.length) :
    c.leaveBlock = .ok ⟨B, bs⟩ := by
  obtain ⟨entries, rfl, hentries⟩ := h
  have hblock : blockBase ⟨entries ++ B, b :: bs⟩ = .ok b.base := blockBase_cons rfl
  unfold TypeChecker.leaveBlock
  have hdrop : (entries ++ B).drop ((entries ++ B).length - b.base) = B := by simp [hbase]
  rw [hblock, Lib.ok_bind, aboveBase_append hbase]
  dsimp only
  rw [hdrop]
  cases hentries <;> rfl

theorem Holds.resetStack (h : Holds B b bs stack c) (hbase : b.base = B.length) :
    c.resetStack = .ok ⟨B, b :: bs⟩ := by
  obtain ⟨entries, rfl, -⟩ := h
  have hblock : blockBase ⟨entries ++ B, b :: bs⟩ = .ok b.base := blockBase_cons rfl
  unfold TypeChecker.resetStack
  rw [hblock, Lib.ok_bind]
  simp [hbase, pure, Except.pure]

theorem holds_pushed (types : List ValType) :
    Holds B b bs (known types) ⟨types.reverse.map .normal ++ B, b :: bs⟩ := by
  have hpushed := Agrees.nil.pushed types
  simp only [List.append_nil] at hpushed
  exact ⟨_, rfl, hpushed⟩

theorem op_push (types : List ValType) (c : TypeChecker) :
    c.op [] types = .ok ⟨types.reverse.map .normal ++ c.types, c.blocks⟩ := by
  rw [← pushAll_eq]
  rfl

theorem enterChecker_holds (kind : BlockKind) (hbase : b.base = B.length)
    (hparams : blocktype.params env.types = some params)
    (h : Holds B b bs (operands ++ stack) c) (hoperands : Operands operands params) :
    ∃ rest d c', c.op params [] = .ok d ∧ d.types = rest ++ B ∧
      enterChecker env c kind blocktype = .ok c' ∧ Agrees rest stack ∧
        Holds (rest ++ B) ⟨kind, blocktype, (rest ++ B).length⟩ (b :: bs) (known params) c' := by
  obtain ⟨_, hop, rest, rfl, hrest⟩ := h.op hbase hoperands []
  refine ⟨rest, _, _, hop, rfl, ?_, hrest, holds_pushed params⟩
  rw [enterChecker_eq hparams, hop, Lib.ok_bind, op_push]
  rfl

theorem leaveChecker_holds {kind : BlockKind}
    (hresults : blocktype.results env.types = some results)
    (h : Holds (rest ++ B) ⟨kind, blocktype, (rest ++ B).length⟩ (b :: bs) ends c)
    (hends : Operands ends results) (hrest : Agrees rest stack) :
    ∃ c', leaveChecker env c blocktype = .ok c' ∧ Holds B b bs (known results ++ stack) c' := by
  have happend : Holds (rest ++ B) ⟨kind, blocktype, (rest ++ B).length⟩ (b :: bs) (ends ++ []) c :=
    by simpa using h
  obtain ⟨d, hop, hd⟩ := happend.op rfl hends []
  have hleave := Holds.leaveBlock hd rfl
  refine ⟨⟨results.reverse.map .normal ++ rest ++ B, b :: bs⟩, ?_, _, rfl, hrest.pushed results⟩
  rw [leaveChecker_eq hresults, hop, Lib.ok_bind, hleave, Lib.ok_bind, op_push, List.append_assoc]

theorem concreteBytes_ok {types : List MaybeUnreachable} (h : NoMarker types) :
    concreteBytes types = .ok (typeBytes types) := by
  induction types with
  | nil => rfl
  | cons v types ih =>
      obtain ⟨ty, rfl⟩ := h v (by simp)
      have htypes := ih fun w hw => h w (List.mem_cons_of_mem _ hw)
      simp [concreteBytes, htypes, Lib.ok_bind, pure, Except.pure]

theorem concreteBytes_ok_iff {types : List MaybeUnreachable} :
    (∃ bytes, concreteBytes types = .ok bytes) ↔ NoMarker types := by
  constructor
  · intro h
    induction types with
    | nil => exact noMarker_nil
    | cons v types ih =>
        obtain ⟨bytes, h⟩ := h
        cases v with
        | unreachable any => cases h
        | normal ty =>
            obtain ⟨rest, hrest, -⟩ := Lib.bind_eq_ok.mp h
            intro w hw
            rcases List.mem_cons.mp hw with rfl | hw
            · exact ⟨ty, rfl⟩
            · exact ih ⟨rest, hrest⟩ w hw
  · intro h
    exact ⟨_, concreteBytes_ok h⟩

theorem below_base (hbase : b.base = B.length) : below b.base (rest ++ B) = B := by
  simp [below, hbase]

theorem blockBaseStackSize_eq (hbase : b.base = B.length) :
    blockBaseStackSize ⟨rest ++ B, b :: bs⟩ = concreteBytes B := by
  have hblock : blockBase ⟨rest ++ B, b :: bs⟩ = .ok b.base := blockBase_cons rfl
  have hbelow : (rest ++ B).drop ((rest ++ B).length - b.base) = B := below_base hbase
  unfold blockBaseStackSize
  rw [hblock, Lib.ok_bind]
  dsimp only
  rw [hbelow]

/-- One branch is closed: its operands are those of the results, or it is dead. -/
theorem closeBranch_holds {dead : Bool} (hbase : b.base = B.length) (h : Holds B b bs ends c)
    (hends : dead = true ∨ Operands ends results) :
    ∃ c', closeBranch c dead results = .ok c' ∧ Holds B b bs [] c' := by
  unfold closeBranch
  by_cases hdead : dead = true
  · rw [if_pos hdead]
    exact ⟨_, h.resetStack hbase, [], rfl, .nil⟩
  · have happend : Holds B b bs (ends ++ []) c := by simpa using h
    rw [if_neg hdead]
    exact happend.op hbase (hends.resolve_left hdead) []

theorem closeVoidBranch_eq (c : TypeChecker) (dead : Bool) :
    closeVoidBranch c dead = closeBranch c dead [] := by
  cases dead <;> rfl

/-- The second branch of an `if` starts with the parameters. -/
theorem elseChecker_holds {kind : BlockKind} (dead : Bool) (hkind : kind = .if_)
    (hparams : blocktype.params env.types = some params)
    (hresults : blocktype.results env.types = some results)
    (h : Holds B ⟨kind, blocktype, B.length⟩ bs ends c) (hends : Operands ends results) :
    ∃ c', elseChecker env c dead = .ok c' ∧
      Holds B ⟨.if_, blocktype, B.length⟩ bs (known params) c' := by
  subst hkind
  have hends' : dead = true ∨ Operands ends results := .inr hends
  obtain ⟨d, hclose, hd⟩ := closeBranch_holds rfl h hends'
  have hleave := hd.leaveBlock rfl
  have hcurrent : c.currentBlock = .ok ⟨.if_, blocktype, B.length⟩ := by
    obtain ⟨entries, rfl, -⟩ := h
    rfl
  refine ⟨_, ?_, holds_pushed params⟩
  unfold elseChecker
  rw [hcurrent, Lib.ok_bind]
  cases blocktype with
  | typeIdx idx =>
      obtain ⟨ty, hty, rfl⟩ := Option.map_eq_some_iff.mp hparams
      obtain rfl : ty.results = results := by simpa [BlockType.results, hty] using hresults
      simp [getType, hty, hclose, hleave, Lib.ok_bind, op_push, TypeChecker.enterBlock]
  | void =>
      obtain rfl := Option.some.inj hparams
      obtain rfl := Option.some.inj hresults
      simp only [closeVoidBranch_eq, hclose, hleave, Lib.ok_bind]
      rfl
  | valType ty =>
      obtain rfl := Option.some.inj hparams
      obtain rfl := Option.some.inj hresults
      simp only [hclose, hleave, Lib.ok_bind]
      rfl

/-- Without an `else`, parameters that are results or a dead branch make the `if` close. -/
theorem leaveIfResults_holds (dead hasElse : Bool)
    (hmissing : hasElse = true ∨ dead = true ∨ params = results)
    (h : Holds (rest ++ B) ⟨.if_, blocktype, (rest ++ B).length⟩ (b :: bs) ends c)
    (hends : dead = true ∨ Operands ends results) (hrest : Agrees rest stack) :
    ∃ c', leaveIfResults c dead hasElse blocktype params results = .ok c' ∧
      Holds B b bs (known results ++ stack) c' := by
  -- What the second branch ends with, when it is missing.
  obtain ⟨d, ends', hd, hdHolds, hends'⟩ :
      ∃ d ends', missingElse c dead hasElse blocktype params results = .ok d ∧
        Holds (rest ++ B) ⟨.if_, blocktype, (rest ++ B).length⟩ (b :: bs) ends' d ∧
          (dead = true ∨ Operands ends' results) := by
    unfold missingElse
    by_cases helse : hasElse = true
    · rw [if_pos helse]
      exact ⟨c, ends, rfl, h, hends⟩
    · obtain ⟨d, hclose, hd⟩ := closeBranch_holds rfl h hends
      have hleave := hd.leaveBlock rfl
      rw [if_neg helse, hclose, Lib.ok_bind, hleave, Lib.ok_bind, op_push]
      refine ⟨_, known params, rfl, holds_pushed params, ?_⟩
      refine (hmissing.resolve_left helse).imp_right fun hparams => ?_
      rw [hparams]
      exact operands_known results
  obtain ⟨e, hclose, he⟩ := closeBranch_holds rfl hdHolds hends'
  refine ⟨⟨results.reverse.map .normal ++ rest ++ B, b :: bs⟩, ?_, _, rfl, hrest.pushed results⟩
  unfold leaveIfResults
  rw [hd, Lib.ok_bind, hclose, Lib.ok_bind, he.leaveBlock rfl, Lib.ok_bind, op_push,
    List.append_assoc]

theorem leaveIfChecker_holds (dead hasElse : Bool)
    (hparams : blocktype.params env.types = some params)
    (hresults : blocktype.results env.types = some results)
    (hmissing : hasElse = true ∨ dead = true ∨ params = results)
    (h : Holds (rest ++ B) ⟨.if_, blocktype, (rest ++ B).length⟩ (b :: bs) ends c)
    (hends : dead = true ∨ Operands ends results) (hrest : Agrees rest stack) :
    ∃ c', leaveIfChecker env c dead hasElse blocktype = .ok c' ∧
      Holds B b bs (known results ++ stack) c' := by
  cases blocktype with
  | typeIdx idx =>
      obtain ⟨ty, hty, rfl⟩ := Option.map_eq_some_iff.mp hparams
      obtain rfl : ty.results = results := by simpa [BlockType.results, hty] using hresults
      simp only [leaveIfChecker, getType, hty, Lib.ok_bind]
      exact leaveIfResults_holds dead hasElse hmissing h hends hrest
  | valType ty =>
      obtain rfl := Option.some.inj hparams
      obtain rfl := Option.some.inj hresults
      exact leaveIfResults_holds dead hasElse hmissing h hends hrest
  | void =>
      obtain rfl := Option.some.inj hresults
      obtain ⟨d, hclose, hd⟩ := closeBranch_holds rfl h hends
      refine ⟨⟨rest ++ B, b :: bs⟩, ?_, rest, rfl, hrest⟩
      simp only [leaveIfChecker, closeVoidBranch_eq, hclose, hd.leaveBlock rfl, Lib.ok_bind]

end Blocks

end Telomere.Parser
