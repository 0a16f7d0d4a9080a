import Telomere.Parser.BlockStep

/-!
# Typing of branches

A branch jumps with the values its label expects on top of the operand stack: the results of a
block, an if or the function, the parameters of a loop. The checker's stack must show them at
every branch in reachable code. Reachability is the static notion of WebAssembly validation,
tracked here on the instructions alone.
-/

namespace Telomere.Parser

open TypeChecker State

def dead : List Bool → List Bool
  | [] => []
  | _ :: lives => false :: lives

/-- The other branch of an `if` is reachable when the `if` itself is. -/
def reopened : List Bool → List Bool
  | [] => []
  | _ :: lives => lives.headD false :: lives

/-- Reachability flags of the open blocks, innermost first, after one more instruction. -/
def reachStep (live : List Bool) : Inst → List Bool
  | .unreachable | .br _ | .brTable _ _ | .return_ | .returnCall _ | .returnCallIndirect _ _ =>
      dead live
  | .block _ | .loop _ | .if_ _ => live.headD false :: live
  | .else_ => reopened live
  | .end_ => live.tail
  | _ => live

/-- Flags after a prefix of a body; the function itself is the outermost block. -/
def reachFlags (insts : List Inst) : List Bool :=
  insts.foldl reachStep [true]

/-- The instruction after this prefix is reachable code. -/
def ReachableAfter (insts : List Inst) : Prop :=
  (reachFlags insts).headD false = true

/-- Types a branch to this block transfers. -/
def labelTypes (env : Env) (target : Block) : Option (List ValType) :=
  match target.kind with
  | .block | .if_ => target.blocktype.results env.types
  | .loop => target.blocktype.params env.types

/-- The stack above the current block's base ends with exactly these types. -/
def EndsWith (c : TypeChecker) (tys : List ValType) : Prop :=
  ∃ base rest, c.blockBase = .ok base ∧ c.aboveBase base = tys.reverse.map .normal ++ rest

def LabelSatisfied (env : Env) (c : TypeChecker) (idx : Nat) : Prop :=
  ∃ target tys, c.blocks[idx]? = some target ∧ labelTypes env target = some tys ∧ EndsWith c tys

/-- The operands a branching instruction needs are on the checker's stack; the condition or
index of `br_if` and `br_table` is popped first. -/
def BranchTyped (env : Env) (c : TypeChecker) : Inst → Prop
  | .br idx => LabelSatisfied env c idx
  | .brIf idx => ∃ c', c.op [.i32] [] = .ok c' ∧ LabelSatisfied env c' idx
  | .brTable idxs defaultIdx => ∃ c', c.op [.i32] [] = .ok c' ∧
      ∀ idx ∈ idxs ++ [defaultIdx], LabelSatisfied env c' idx
  | .return_ => EndsWith c env.functype.results
  | _ => True

/-- Every branch of the body in reachable code finds its operands. -/
def BranchesTyped (env : Env) (body : List Inst) : Prop :=
  ∀ pre inst post s, body = pre ++ inst :: post → ReachableAfter pre →
    parseInstrs env (.initial env) pre = .ok s → BranchTyped env s.checker inst

/-- Every `br_if` to a loop label in reachable code would pass the check that `br_table` makes
for the same label. -/
def LoopBrIfsChecked (env : Env) (body : List Inst) : Prop :=
  ∀ pre idx post s c target, body = pre ++ Inst.brIf idx :: post → ReachableAfter pre →
    parseInstrs env (.initial env) pre = .ok s → s.checker.op [.i32] [] = .ok c →
    c.blocks[idx]? = some target → target.kind = .loop →
    ∃ len, validateBrTableTypes env c idx = .ok len

/-- The stack seen from each open block: its base is inside, and a reachable block sees value
types only. -/
def LiveStack : List Block → List Bool → List MaybeUnreachable → Prop
  | [], [], _ => True
  | b :: bs, live :: lives, types =>
      b.base ≤ types.length ∧ (live = true → NoMarker types) ∧
        LiveStack bs lives (below b.base types)
  | _, _, _ => False

def FlagsOk : List Bool → List Bool → Prop
  | [], _ => True
  | live :: lives, flag :: flags => (live = true → flag = false) ∧ FlagsOk lives flags
  | _ :: _, [] => False

structure Live (s : State) (live : List Bool) : Prop where
  stack : LiveStack s.checker.blocks live s.checker.types
  flags : FlagsOk live s.unreachable

theorem LiveStack.baseOk {c : TypeChecker} {live : List Bool}
    (h : LiveStack c.blocks live c.types) : BaseOk c := by
  intro b hb
  cases hblocks : c.blocks with
  | nil => simp [hblocks] at hb
  | cons b' bs =>
      rw [hblocks] at hb h
      obtain rfl : b' = b := by simpa using hb
      cases live with
      | nil => exact h.elim
      | cons l ls => exact h.1

theorem LiveStack.concrete {c : TypeChecker} {live : List Bool}
    (h : LiveStack c.blocks live c.types) (hlive : live.headD false = true) :
    NoMarker c.types := by
  cases hblocks : c.blocks with
  | nil =>
      rw [hblocks] at h
      cases live with
      | nil => simp at hlive
      | cons l ls => exact h.elim
  | cons b bs =>
      rw [hblocks] at h
      cases live with
      | nil => exact h.elim
      | cons l ls => exact h.2.1 hlive

theorem LiveStack.keeps {c c' : TypeChecker} {live : List Bool}
    (h : LiveStack c.blocks live c.types) (hkeeps : Keeps c c') :
    LiveStack c'.blocks live c'.types := by
  have hbase := h.baseOk
  rw [hkeeps.blocks]
  cases hblocks : c.blocks with
  | nil =>
      rw [hblocks] at h
      cases live with
      | nil => trivial
      | cons l ls => exact h.elim
  | cons b bs =>
      have hb : b ∈ c.blocks.head? := by rw [hblocks]; rfl
      rw [hblocks] at h
      cases live with
      | nil => exact h.elim
      | cons l ls =>
          refine ⟨hkeeps.base hbase b (by rw [hkeeps.blocks]; exact hb),
            fun hl => hkeeps.concrete (h.2.1 hl), ?_⟩
          rw [hkeeps.below b hb (hbase b hb)]
          exact h.2.2

/-- Code after an unconditional transfer is unreachable up to the end of the block. -/
theorem LiveStack.transfer {c : TypeChecker} {live : List Bool}
    (h : LiveStack c.blocks live c.types) :
    LiveStack c.unreachable.blocks (dead live) c.unreachable.types := by
  unfold TypeChecker.unreachable
  cases hblocks : c.blocks with
  | nil =>
      rw [hblocks] at h
      cases live with
      | nil => trivial
      | cons l ls => exact h.elim
  | cons b bs =>
      rw [hblocks] at h
      cases live with
      | nil => exact h.elim
      | cons l ls =>
          refine ⟨by have := h.1; simp; omega, by simp, ?_⟩
          rw [show MaybeUnreachable.unreachable false :: c.types =
            [MaybeUnreachable.unreachable false] ++ c.types from rfl, below_append _ _ h.1]
          exact h.2.2

theorem LiveStack.enter {c : TypeChecker} {live : List Bool}
    (h : LiveStack c.blocks live c.types) (kind : BlockKind) (blocktype : BlockType) :
    LiveStack (c.enterBlock kind blocktype).blocks (live.headD false :: live)
      (c.enterBlock kind blocktype).types := by
  refine ⟨Nat.le_refl _, h.concrete, ?_⟩
  change LiveStack c.blocks live (below c.types.length c.types)
  rw [below_self]
  exact h

theorem LiveStack.leave {c c' : TypeChecker} {live : List Bool}
    (h : LiveStack c.blocks live c.types) (hleave : c.leaveBlock = .ok c') :
    LiveStack c'.blocks live.tail c'.types := by
  obtain ⟨b, bs, hblocks, rfl⟩ := leaveBlock_ok hleave
  rw [hblocks] at h
  cases live with
  | nil => exact h.elim
  | cons l ls => exact h.2.2

theorem LiveStack.reopen {c c' : TypeChecker} {live : List Bool} {kind : BlockKind}
    {blocktype : BlockType} (h : LiveStack c.blocks live c.types)
    (hreopens : Reopens kind blocktype c c') : LiveStack c'.blocks (reopened live) c'.types := by
  obtain ⟨d, e, hclose, hleave, hkeeps⟩ := hreopens
  cases live with
  | nil =>
      obtain ⟨b, bs, hblocks, _⟩ := leaveBlock_ok hleave
      have hd := h.keeps hclose
      rw [hblocks] at hd
      exact hd.elim
  | cons l ls => exact (((h.keeps hclose).leave hleave).enter kind blocktype).keeps hkeeps

theorem LiveStack.leftFrom {c c' : TypeChecker} {live : List Bool}
    (h : LiveStack c.blocks live c.types) (hleft : LeftFrom c c') :
    ∃ live', live'.tail = live.tail ∧ LiveStack c'.blocks live' c'.types := by
  obtain hkeeps | ⟨kind, blocktype, hreopens⟩ := hleft
  · exact ⟨live, rfl, h.keeps hkeeps⟩
  · exact ⟨reopened live, by cases live <;> rfl, h.reopen hreopens⟩

theorem FlagsOk.enter {live flags : List Bool} (h : FlagsOk live flags) :
    FlagsOk (live.headD false :: live) (flags.headD false :: flags) := by
  refine ⟨?_, h⟩
  cases live with
  | nil => simp
  | cons l ls =>
      cases flags with
      | nil => exact h.elim
      | cons f fs => exact h.1

theorem FlagsOk.leave {live flags : List Bool} (h : FlagsOk live flags) :
    FlagsOk live.tail flags.tail := by
  cases live with
  | nil => trivial
  | cons l ls =>
      cases flags with
      | nil => exact h.elim
      | cons f fs => exact h.2

theorem FlagsOk.dead {live flags : List Bool} (h : FlagsOk live flags) :
    FlagsOk (dead live) flags := by
  cases live with
  | nil => trivial
  | cons l ls =>
      cases flags with
      | nil => exact h.elim
      | cons f fs => exact ⟨by simp, h.2⟩

theorem FlagsOk.transfer {live flags : List Bool} (h : FlagsOk live flags) :
    FlagsOk (Parser.dead live) (true :: flags.tail) := by
  cases live with
  | nil => trivial
  | cons l ls => exact ⟨by simp, h.leave⟩

theorem FlagsOk.emitted {live flags : List Bool} (h : FlagsOk live flags)
    (hlive : live.headD false = true) : flags.headD false = false := by
  cases live with
  | nil => simp at hlive
  | cons l ls =>
      cases flags with
      | nil => exact h.elim
      | cons f fs => exact h.1 hlive

theorem FlagsOk.reopen {live flags : List Bool} (h : FlagsOk live flags) :
    FlagsOk (reopened live) (flags.tail.headD false :: flags.tail) := by
  cases live with
  | nil => trivial
  | cons l ls => exact h.leave.enter

/-- The checker of an `if` that lies in dead code as a whole is left as it is at `else`. -/
theorem LiveStack.deadElse {blocks : List Block} {live : List Bool}
    {types : List MaybeUnreachable} (h : LiveStack blocks live types)
    (hdead : live.tail.headD false = false) : LiveStack blocks (reopened live) types := by
  cases live with
  | nil => exact h
  | cons l ls =>
      cases blocks with
      | nil => exact h.elim
      | cons b bs =>
          refine ⟨h.1, ?_, h.2.2⟩
          intro hlive
          rw [List.tail_cons] at hdead
          rw [hdead] at hlive
          cases hlive

def Shape.reach (live : List Bool) : Shape → List Bool
  | .work => live
  | .transfer => dead live
  | .enter _ _ => live.headD false :: live
  | .else_ => reopened live
  | .end_ => live.tail

theorem reachStep_eq (live : List Bool) (inst : Inst) :
    reachStep live inst = (shape inst).reach live := by
  cases inst <;> rfl

private theorem Live.step {s s' : State} {shape : Shape} {live : List Bool}
    (hstep : BlockStep s s' shape) (h : Live s live) : Live s' (shape.reach live) := by
  cases hstep with
  | work hkeeps hflags => exact ⟨h.stack.keeps hkeeps, by rw [hflags]; exact h.flags⟩
  | transfer hkeeps hchecker hflags =>
      refine ⟨by rw [hchecker]; exact (h.stack.keeps hkeeps).transfer, ?_⟩
      obtain hsame | hset := hflags
      · rw [hsame]
        exact h.flags.dead
      · rw [hset]
        exact h.flags.transfer
  | enter hkeeps hinner hflags =>
      refine ⟨((h.stack.keeps hkeeps).enter _ _).keeps hinner, ?_⟩
      rw [hflags]
      exact h.flags.enter
  | deadElse hdead hchecker hflags =>
      have hout : live.tail.headD false = false := by
        by_contra hne
        have hemitted := h.flags.leave.emitted (by simpa using hne)
        cases hdead.symm.trans hemitted
      refine ⟨by rw [hchecker]; exact h.stack.deadElse hout, ?_⟩
      rw [hflags, ← hdead]
      exact h.flags.reopen
  | reopen hlive _ _ hreopens hflags =>
      refine ⟨h.stack.reopen hreopens, ?_⟩
      rw [hflags, ← hlive]
      exact h.flags.reopen
  | leave hleft hleave hkeeps hflags =>
      obtain ⟨live', htail, hlive'⟩ := h.stack.leftFrom hleft
      refine ⟨?_, by rw [hflags]; exact h.flags.leave⟩
      change LiveStack _ live.tail _
      rw [← htail]
      exact (hlive'.leave hleave).keeps hkeeps

/-- The results a branch to a block or an if transfers, or the parameters of a loop. -/
private theorem popBrTypes_ok {env : Env} {c c' : TypeChecker} {target : Block}
    (hok : popBrTypes env c target = .ok c') :
    ∃ tys, labelTypes env target = some tys ∧ c.op tys [] = .ok c' := by
  obtain ⟨kind, blocktype, base⟩ := target
  cases kind <;> cases blocktype
  case block.typeIdx idx | if_.typeIdx idx | loop.typeIdx idx =>
      obtain ⟨ty, hty, hok⟩ := Lib.bind_eq_ok.mp hok
      have hget := getType_ok hty
      exact ⟨_, by simp [labelTypes, BlockType.results, BlockType.params, hget], hok⟩
  all_goals exact ⟨_, rfl, hok⟩

/-- A `br_if` to a loop label checks nothing. -/
private theorem checkBrIfTypes_ok {env : Env} {c c' : TypeChecker} {target : Block}
    (hok : checkBrIfTypes env c target = .ok c') :
    (target.kind = .loop ∧ c' = c) ∨
      ∃ tys, labelTypes env target = some tys ∧ c.op tys tys = .ok c' := by
  obtain ⟨kind, blocktype, base⟩ := target
  cases kind
  case loop => exact Or.inl ⟨rfl, (Except.ok.inj hok).symm⟩
  all_goals
    refine Or.inr ?_
    cases blocktype with
    | void => exact ⟨[], rfl, hok⟩
    | valType ty => exact ⟨[ty], rfl, hok⟩
    | typeIdx idx =>
        obtain ⟨ty, hty, hok⟩ := Lib.bind_eq_ok.mp hok
        have hget := getType_ok hty
        exact ⟨_, by simp [labelTypes, BlockType.results, hget], hok⟩

private theorem check_nil {c : TypeChecker} {idx : Nat} {target : Block}
    (hget : c.blocks[idx]? = some target) : c.check [] = .ok () := by
  cases hblocks : c.blocks with
  | nil => simp [hblocks] at hget
  | cons b bs => simp [check, blockBase_cons hblocks, checkFrom, bind, Except.bind]

private theorem validateBrTableTypes_ok {env : Env} {c : TypeChecker} {idx len : Nat}
    (hok : validateBrTableTypes env c idx = .ok len) :
    ∃ target tys, c.blocks[idx]? = some target ∧ labelTypes env target = some tys ∧
      c.check tys = .ok () := by
  obtain ⟨target, htarget, hok⟩ := Lib.bind_eq_ok.mp hok
  have hget := getBlock_ok htarget
  have hnil := check_nil hget
  refine ⟨target, ?_⟩
  obtain ⟨kind, blocktype, base⟩ := target
  cases kind <;> cases blocktype
  case block.typeIdx idx | if_.typeIdx idx | loop.typeIdx idx =>
      obtain ⟨ty, hty, hok⟩ := Lib.bind_eq_ok.mp hok
      obtain ⟨_, hcheck, _⟩ := Lib.bind_eq_ok.mp hok
      have hget' := getType_ok hty
      exact ⟨_, hget, by simp [labelTypes, BlockType.results, BlockType.params, hget'], hcheck⟩
  case block.valType ty | if_.valType ty =>
      obtain ⟨_, hcheck, _⟩ := Lib.bind_eq_ok.mp hok
      exact ⟨[ty], hget, rfl, hcheck⟩
  all_goals exact ⟨[], hget, rfl, hnil⟩

private theorem validateBrTableTargets_ok {env : Env} {c : TypeChecker} {len : Nat}
    {idxs : List Nat} (hok : validateBrTableTargets env c len idxs = .ok ()) :
    ∀ idx ∈ idxs, validateBrTableTypes env c idx = .ok len := by
  induction idxs with
  | nil => simp
  | cons idx idxs ih =>
      obtain ⟨len', hlen, hok⟩ := Lib.bind_eq_ok.mp hok
      split at hok
      · next heq =>
          intro i hi
          rcases List.mem_cons.mp hi with rfl | hi
          · rw [hlen, heq]
          · exact ih hok i hi
      · cases hok

theorem parseInst_live {env : Env} {s s' : State} {inst : Inst} {live : List Bool}
    (hok : parseInst env s inst = .ok s') (h : Live s live) : Live s' (reachStep live inst) := by
  rw [reachStep_eq]
  exact Live.step (parseInst_step hok) h

theorem parseInstrs_live {env : Env} {s s' : State} {insts : List Inst} {live : List Bool}
    (hok : parseInstrs env s insts = .ok s') (h : Live s live) :
    Live s' (insts.foldl reachStep live) := by
  induction insts generalizing s live with
  | nil =>
      obtain rfl := Except.ok.inj hok
      exact h
  | cons inst insts ih =>
      obtain ⟨t, ht, hok⟩ := Lib.bind_eq_ok.mp hok
      exact ih hok (parseInst_live ht h)

theorem initial_live (env : Env) : Live (.initial env) [true] :=
  ⟨⟨Nat.le_refl _, fun _ => noMarker_nil, trivial⟩, fun _ => rfl, trivial⟩

theorem parseInstrs_append {env : Env} {s s' : State} {first second : List Inst} :
    parseInstrs env s (first ++ second) = .ok s' ↔
      ∃ t, parseInstrs env s first = .ok t ∧ parseInstrs env t second = .ok s' := by
  induction first generalizing s with
  | nil => simp [parseInstrs]
  | cons inst first ih =>
      simp only [List.cons_append, parseInstrs, Lib.bind_eq_ok, ih]
      constructor
      · rintro ⟨u, hu, t, ht, hok⟩
        exact ⟨t, ⟨u, hu, ht⟩, hok⟩
      · rintro ⟨t, ⟨u, hu, ht⟩, hok⟩
        exact ⟨u, hu, t, ht, hok⟩

/-! ## Branches in reachable code -/

private theorem endsWith_of_op {c c' : TypeChecker} {tys output : List ValType}
    (hok : c.op tys output = .ok c') (hconcrete : NoMarker c.types) (hbase : BaseOk c)
    (hblocks : c.blocks ≠ []) : EndsWith c tys := by
  obtain ⟨b, bs, hb⟩ := List.exists_cons_of_ne_nil hblocks
  obtain ⟨rest, htypes, _, hrest⟩ := op_exact hok hconcrete hbase
  have hlen := hrest b (by rw [hb]; rfl)
  refine ⟨b.base, rest.take (rest.length - b.base), blockBase_cons hb, ?_⟩
  unfold aboveBase
  rw [htypes, List.take_append, List.take_of_length_le]
  · congr 2
    simp only [List.length_append, List.length_map, List.length_reverse]
    omega
  · simp only [List.length_append, List.length_map, List.length_reverse]
    omega

private theorem endsWith_of_check {c : TypeChecker} {tys : List ValType}
    (hok : c.check tys = .ok ()) (hconcrete : NoMarker c.types) : EndsWith c tys := by
  obtain ⟨base, hbase, hok⟩ := Lib.bind_eq_ok.mp hok
  obtain ⟨rest, hrest⟩ := checkFrom_exact hok fun v hv => hconcrete v (List.mem_of_mem_take hv)
  exact ⟨base, rest, hbase, by rw [hrest]⟩

private theorem checkFrom_append (tys : List ValType) (rest : List MaybeUnreachable) :
    checkFrom (tys.map .normal ++ rest) tys = .ok () := by
  induction tys with
  | nil => rfl
  | cons ty tys ih => simpa [checkFrom, assertValtype, bind, Except.bind] using ih

private theorem check_of_endsWith {c : TypeChecker} {tys : List ValType} (h : EndsWith c tys) :
    c.check tys = .ok () := by
  obtain ⟨base, rest, hbase, habove⟩ := h
  simp only [check, hbase, bind, Except.bind, habove]
  exact checkFrom_append _ _

/-- The check of `br_table` fails only when the label's types are not on the stack. -/
private theorem validateBrTableTypes_of_satisfied {env : Env} {c : TypeChecker} {idx : Nat}
    (h : LabelSatisfied env c idx) : ∃ len, validateBrTableTypes env c idx = .ok len := by
  obtain ⟨target, tys, htarget, hlabel, hends⟩ := h
  have hcheck := check_of_endsWith hends
  unfold validateBrTableTypes getBlock
  simp only [htarget, bind, Except.bind]
  obtain ⟨kind, blocktype, base⟩ := target
  cases kind <;> cases blocktype <;>
    simp_all [labelTypes, BlockType.results, BlockType.params, getType, pure, Except.pure]
  all_goals
    obtain ⟨ty, hty, rfl⟩ := hlabel
    simp [hty, hcheck]

private theorem satisfied_of_validate {env : Env} {c : TypeChecker} {idx len : Nat}
    (hok : validateBrTableTypes env c idx = .ok len) (hconcrete : NoMarker c.types) :
    LabelSatisfied env c idx := by
  obtain ⟨target, tys, htarget, hlabel, hcheck⟩ := validateBrTableTypes_ok hok
  exact ⟨target, tys, htarget, hlabel, endsWith_of_check hcheck hconcrete⟩

theorem LiveStack.blocks_ne_nil {c : TypeChecker} {live : List Bool}
    (h : LiveStack c.blocks live c.types) (hlive : live.headD false = true) : c.blocks ≠ [] := by
  intro hnil
  rw [hnil] at h
  cases live with
  | nil => simp at hlive
  | cons l ls => exact h.elim

private theorem parseBr_typed {env : Env} {s s' : State} {idx : Nat} {live : List Bool}
    (hok : parseBr env s idx = .ok s') (h : Live s live) (hlive : live.headD false = true) :
    LabelSatisfied env s.checker idx := by
  obtain ⟨target, htarget, hok⟩ := Lib.bind_eq_ok.mp hok
  obtain ⟨c, hc, _⟩ := Lib.bind_eq_ok.mp hok
  obtain ⟨tys, hlabel, hop⟩ := popBrTypes_ok hc
  have hsame : (if s.isUnreachable then s else
      (((s.pushSlot (.op .opBr)).pushDsl (.br idx (s.pushSlot (.op .opBr)).instr.length)).pushSlot
        (.operand (.u32 (0xFFFF0000 ||| idx)))).setUnreachable).checker = s.checker := by
    split <;> simp
  refine ⟨target, tys, ?_, hlabel, ?_⟩
  · rw [← hsame]
    exact getBlock_ok htarget
  · have hop' : s.checker.op tys [] = .ok c := by
      rw [← hop]
      exact congrArg (fun d => TypeChecker.op d tys []) hsame.symm
    exact endsWith_of_op hop' (h.stack.concrete hlive) h.stack.baseOk
      (h.stack.blocks_ne_nil hlive)

private theorem parseBrIf_typed {env : Env} {s s' : State} {idx : Nat} {live : List Bool}
    (hok : parseBrIf env s idx = .ok s') (h : Live s live) (hlive : live.headD false = true)
    (hloop : ∀ c target, s.checker.op [.i32] [] = .ok c → c.blocks[idx]? = some target →
      target.kind = .loop → ∃ len, validateBrTableTypes env c idx = .ok len) :
    BranchTyped env s.checker (.brIf idx) := by
  obtain ⟨c, hc, hok⟩ := Lib.bind_eq_ok.mp hok
  obtain ⟨target, htarget, hok⟩ := Lib.bind_eq_ok.mp hok
  obtain ⟨d, hd, _⟩ := Lib.bind_eq_ok.mp hok
  have hstack := h.stack.keeps (op_keeps hc)
  have hconcrete := hstack.concrete hlive
  refine ⟨c, hc, ?_⟩
  obtain ⟨hkind, _⟩ | ⟨tys, hlabel, hop⟩ := checkBrIfTypes_ok hd
  · obtain ⟨len, hlen⟩ := hloop c target hc (getBlock_ok htarget) hkind
    exact satisfied_of_validate hlen hconcrete
  · exact ⟨target, tys, getBlock_ok htarget, hlabel,
      endsWith_of_op hop hconcrete hstack.baseOk (hstack.blocks_ne_nil hlive)⟩

private theorem parseBrTable_typed {env : Env} {s s' : State} {idxs : List Nat}
    {defaultIdx : Nat} {live : List Bool} (hok : parseBrTable env s idxs defaultIdx = .ok s')
    (h : Live s live) (hlive : live.headD false = true) :
    BranchTyped env s.checker (.brTable idxs defaultIdx) := by
  obtain ⟨c, hc, hok⟩ := Lib.bind_eq_ok.mp hok
  obtain ⟨len, hlen, hok⟩ := Lib.bind_eq_ok.mp hok
  obtain ⟨_, htargets, _⟩ := Lib.bind_eq_ok.mp hok
  have hconcrete := (h.stack.keeps (op_keeps hc)).concrete hlive
  refine ⟨c, hc, ?_⟩
  intro idx hidx
  rcases List.mem_append.mp hidx with hidx | hidx
  · exact satisfied_of_validate (validateBrTableTargets_ok htargets idx hidx) hconcrete
  · rw [List.mem_singleton.mp hidx]
    exact satisfied_of_validate hlen hconcrete

private theorem parseReturn_typed {env : Env} {s s' : State} {live : List Bool}
    (hok : parseReturn env s = .ok s') (h : Live s live) (hlive : live.headD false = true) :
    EndsWith s.checker env.functype.results := by
  obtain ⟨c, hc, _⟩ := Lib.bind_eq_ok.mp hok
  have hop : s.checker.op env.functype.results [] = .ok c := by
    rw [← hc]
    split <;> simp
  exact endsWith_of_op hop (h.stack.concrete hlive) h.stack.baseOk
    (h.stack.blocks_ne_nil hlive)

/-- Every branch but a `br_if` to a loop label is checked by its own arm. -/
private theorem parseInst_typed {env : Env} {s s' : State} {inst : Inst} {live : List Bool}
    (hok : parseInst env s inst = .ok s') (h : Live s live) (hlive : live.headD false = true)
    (hloop : ∀ idx c target, inst = .brIf idx → s.checker.op [.i32] [] = .ok c →
      c.blocks[idx]? = some target → target.kind = .loop →
      ∃ len, validateBrTableTypes env c idx = .ok len) :
    BranchTyped env s.checker inst := by
  cases inst
  case br idx =>
      obtain ⟨t, ht, _⟩ := Lib.bind_eq_ok.mp hok
      exact parseBr_typed ht h hlive
  case brIf idx =>
      obtain ⟨t, ht, _⟩ := Lib.bind_eq_ok.mp hok
      exact parseBrIf_typed ht h hlive fun c target => hloop idx c target rfl
  case brTable idxs defaultIdx =>
      obtain ⟨t, ht, _⟩ := Lib.bind_eq_ok.mp hok
      exact parseBrTable_typed ht h hlive
  case return_ =>
      obtain ⟨t, ht, _⟩ := Lib.bind_eq_ok.mp hok
      exact parseReturn_typed ht h hlive
  all_goals trivial

/-- In an accepted body every reachable branch finds the types of its label on the stack exactly
when each reachable `br_if` to a loop label passes the check its own arm omits. -/
theorem branchesTyped_iff {env : Env} {body : List Inst} {final : State}
    (hok : parseCode env body = .ok final) :
    BranchesTyped env body ↔ LoopBrIfsChecked env body := by
  obtain ⟨s', hbody, _⟩ := Lib.bind_eq_ok.mp hok
  constructor
  · intro htyped pre idx post s c target heq hreach hpre hc _ _
    obtain ⟨d, hd, hsat⟩ := htyped pre (.brIf idx) post s heq hreach hpre
    obtain rfl : d = c := Except.ok.inj (hd.symm.trans hc)
    exact validateBrTableTypes_of_satisfied hsat
  · intro hloop pre inst post s heq hreach hpre
    rw [heq] at hbody
    obtain ⟨t, ht, hrest⟩ := parseInstrs_append.mp hbody
    obtain rfl : t = s := Except.ok.inj (ht.symm.trans hpre)
    obtain ⟨u, hinst, _⟩ := Lib.bind_eq_ok.mp hrest
    refine parseInst_typed hinst (parseInstrs_live hpre (initial_live env)) hreach ?_
    intro idx c target hidx hc htarget hkind
    exact hloop pre idx post t c target (by rw [heq, hidx]) hreach hpre hc htarget hkind

def loopParamEnv : Env :=
  ⟨[⟨[], []⟩, ⟨[.i32], []⟩], [0], 0, 0, ⟨[], []⟩, []⟩

def i32Const : Inst := .simple ⟨0x41, [1], [], [.i32]⟩

def countdownBody : List Inst :=
  [i32Const, .loop (.typeIdx 1), i32Const, .brIf 0, .drop, .end_]

/-- The parameter is dropped before the back edge, and yet the body is accepted. -/
def droppedParamBody : List Inst :=
  [i32Const, .loop (.typeIdx 1), .drop, i32Const, .brIf 0, .end_]

theorem branchesTyped_iff_countdown :
    (∃ final, parseCode loopParamEnv countdownBody = .ok final) ∧
      (BranchesTyped loopParamEnv countdownBody ↔ LoopBrIfsChecked loopParamEnv countdownBody) := by
  have hok : ∃ final, parseCode loopParamEnv countdownBody = .ok final := ⟨_, rfl⟩
  obtain ⟨final, hfinal⟩ := hok
  exact ⟨⟨final, hfinal⟩, branchesTyped_iff hfinal⟩

theorem droppedParam_accepted_untyped :
    (∃ final, parseCode loopParamEnv droppedParamBody = .ok final) ∧
      ¬BranchesTyped loopParamEnv droppedParamBody := by
  refine ⟨⟨_, rfl⟩, ?_⟩
  intro htyped
  obtain ⟨c, hc, hsat⟩ := htyped [i32Const, .loop (.typeIdx 1), .drop, i32Const] (.brIf 0) [.end_]
    _ rfl rfl rfl
  obtain ⟨len, hlen⟩ := validateBrTableTypes_of_satisfied hsat
  obtain rfl : ⟨[], [⟨.loop, .typeIdx 1, 0⟩, ⟨.block, .typeIdx 0, 0⟩]⟩ = c := Except.ok.inj hc
  have herror : validateBrTableTypes loopParamEnv
      ⟨[], [⟨.loop, .typeIdx 1, 0⟩, ⟨.block, .typeIdx 0, 0⟩]⟩ 0 =
        .error .invalidStackValTypeAny := rfl
  rw [herror] at hlen
  cases hlen

end Telomere.Parser
