import Telomere.Parser.Instruction

/-!
# What one instruction does to the open blocks

Every arm of `parse_inst` treats the checker's blocks and the emitter's flags in one of a few
ways. They are listed once here, with the operand work in between left as `Keeps`.
-/

namespace Telomere.Parser

open TypeChecker State

inductive Shape where
  | work
  | transfer
  | enter (kind : BlockKind) (blocktype : BlockType)
  | else_
  | end_
deriving DecidableEq, Repr

def shape : Inst → Shape
  | .unreachable | .br _ | .brTable _ _ | .return_ | .returnCall _ | .returnCallIndirect _ _ =>
      .transfer
  | .block blocktype => .enter .block blocktype
  | .loop blocktype => .enter .loop blocktype
  | .if_ blocktype => .enter .if_ blocktype
  | .else_ => .else_
  | .end_ => .end_
  | _ => .work

/-- The current block is closed and another one opened in its place. -/
def Reopens (kind : BlockKind) (blocktype : BlockType) (c c' : TypeChecker) : Prop :=
  ∃ d e, Keeps c d ∧ d.leaveBlock = .ok e ∧ Keeps (e.enterBlock kind blocktype) c'

/-- What a block is left from: the current one, or the missing branch opened in its place. -/
def LeftFrom (c d : TypeChecker) : Prop :=
  Keeps c d ∨ ∃ kind blocktype, Reopens kind blocktype c d

inductive BlockStep (s s' : State) : Shape → Prop where
  | work : Keeps s.checker s'.checker → s'.unreachable = s.unreachable → BlockStep s s' .work
  | transfer {c : TypeChecker} : Keeps s.checker c → s'.checker = c.unreachable →
      s'.unreachable = s.unreachable ∨ s'.unreachable = true :: s.unreachable.tail →
      BlockStep s s' .transfer
  | enter {c : TypeChecker} {kind : BlockKind} {blocktype : BlockType} : Keeps s.checker c →
      Keeps (c.enterBlock kind blocktype) s'.checker →
      s'.unreachable = s.isUnreachable :: s.unreachable → BlockStep s s' (.enter kind blocktype)
  -- The `if` lies in dead code as a whole.
  | deadElse : s.unreachable.tail.headD false = true → s'.checker = s.checker →
      s'.unreachable = true :: s.unreachable.tail → BlockStep s s' .else_
  | reopen {current : Block} : s.unreachable.tail.headD false = false →
      s.checker.blocks.head? = some current → current.kind = .if_ →
      Reopens current.kind current.blocktype s.checker s'.checker →
      s'.unreachable = false :: s.unreachable.tail → BlockStep s s' .else_
  | leave {c d : TypeChecker} : LeftFrom s.checker c → c.leaveBlock = .ok d →
      Keeps d s'.checker → s'.unreachable = s.unreachable.tail → BlockStep s s' .end_

section Parts

variable {env : Env} {c c' : TypeChecker}

theorem getType_ok {idx : Nat} {ty : FuncType} (hok : getType env idx = .ok ty) :
    env.types[idx]? = some ty := by
  unfold getType at hok
  split at hok
  · next heq => rw [heq, Except.ok.inj hok]
  · cases hok

theorem getBlock_ok {idx : Nat} {target : Block} (hok : c.getBlock idx = .ok target) :
    c.blocks[idx]? = some target := by
  unfold getBlock at hok
  split at hok
  · next heq => rw [heq, Except.ok.inj hok]
  · cases hok

private theorem enterChecker_keeps {kind : BlockKind} {blocktype : BlockType}
    (hok : enterChecker env c kind blocktype = .ok c') :
    ∃ d, Keeps c d ∧ Keeps (d.enterBlock kind blocktype) c' := by
  cases blocktype with
  | void =>
      obtain rfl := Except.ok.inj hok
      exact ⟨c, .refl _, .refl _⟩
  | valType ty =>
      obtain rfl := Except.ok.inj hok
      exact ⟨c, .refl _, .refl _⟩
  | typeIdx idx =>
      obtain ⟨ty, _, hok⟩ := Lib.bind_eq_ok.mp hok
      obtain ⟨d, hd, hok⟩ := Lib.bind_eq_ok.mp hok
      exact ⟨d, op_keeps hd, op_keeps hok⟩

private theorem leaveChecker_keeps {blocktype : BlockType}
    (hok : leaveChecker env c blocktype = .ok c') :
    ∃ d e, Keeps c d ∧ d.leaveBlock = .ok e ∧ Keeps e c' := by
  cases blocktype with
  | void => exact ⟨c, c', .refl _, hok, .refl _⟩
  | valType ty =>
      obtain ⟨d, hd, hok⟩ := Lib.bind_eq_ok.mp hok
      obtain ⟨e, he, hok⟩ := Lib.bind_eq_ok.mp hok
      exact ⟨d, e, op_keeps hd, he, op_keeps hok⟩
  | typeIdx idx =>
      obtain ⟨ty, _, hok⟩ := Lib.bind_eq_ok.mp hok
      obtain ⟨d, hd, hok⟩ := Lib.bind_eq_ok.mp hok
      obtain ⟨e, he, hok⟩ := Lib.bind_eq_ok.mp hok
      exact ⟨d, e, op_keeps hd, he, op_keeps hok⟩

private theorem closeBranch_keeps {isDead : Bool} {results : List ValType}
    (hok : closeBranch c isDead results = .ok c') : Keeps c c' := by
  unfold closeBranch at hok
  split at hok
  · exact resetStack_keeps hok
  · exact op_keeps hok

private theorem closeVoidBranch_keeps {isDead : Bool}
    (hok : closeVoidBranch c isDead = .ok c') : Keeps c c' := by
  unfold closeVoidBranch at hok
  split at hok
  · exact resetStack_keeps hok
  · rw [Except.ok.inj hok]
    exact Keeps.refl c'

private theorem elseChecker_reopens {isDead : Bool} (hok : elseChecker env c isDead = .ok c') :
    ∃ current, c.blocks.head? = some current ∧ current.kind = .if_ ∧
      Reopens current.kind current.blocktype c c' := by
  obtain ⟨current, hcurrent, hok⟩ := Lib.bind_eq_ok.mp hok
  have hhead : c.blocks.head? = some current := by
    rw [List.head?_eq_getElem?]
    exact getBlock_ok hcurrent
  refine ⟨current, hhead, ?_⟩
  split at hok
  · next hkind =>
      refine ⟨hkind, ?_⟩
      rw [hkind]
      split at hok
      · next hvoid =>
          obtain ⟨d, hd, hok⟩ := Lib.bind_eq_ok.mp hok
          obtain ⟨e, he, hok⟩ := Lib.bind_eq_ok.mp hok
          rw [← Lib.pure_eq_ok.mp hok, hvoid]
          exact ⟨d, e, closeVoidBranch_keeps hd, he, .refl _⟩
      · next idx hidx =>
          obtain ⟨ty, _, hok⟩ := Lib.bind_eq_ok.mp hok
          obtain ⟨d, hd, hok⟩ := Lib.bind_eq_ok.mp hok
          obtain ⟨e, he, hok⟩ := Lib.bind_eq_ok.mp hok
          rw [hidx]
          exact ⟨d, e, closeBranch_keeps hd, he, op_keeps hok⟩
      · next ty hty =>
          obtain ⟨d, hd, hok⟩ := Lib.bind_eq_ok.mp hok
          obtain ⟨e, he, hok⟩ := Lib.bind_eq_ok.mp hok
          rw [← Lib.pure_eq_ok.mp hok, hty]
          exact ⟨d, e, closeBranch_keeps hd, he, .refl _⟩
  · cases hok

private theorem LeftFrom.keeps {d : TypeChecker} (h : LeftFrom c d) (hkeeps : Keeps d c') :
    LeftFrom c c' := by
  obtain hc | ⟨kind, blocktype, e, f, he, hf, hd⟩ := h
  · exact Or.inl (hc.trans hkeeps)
  · exact Or.inr ⟨kind, blocktype, e, f, he, hf, hd.trans hkeeps⟩

private theorem leaveIfResults_keeps {isDead hasElse : Bool} {blocktype : BlockType}
    {params results : List ValType}
    (hok : leaveIfResults c isDead hasElse blocktype params results = .ok c') :
    ∃ d e, LeftFrom c d ∧ d.leaveBlock = .ok e ∧ Keeps e c' := by
  obtain ⟨d, hd, hok⟩ := Lib.bind_eq_ok.mp hok
  obtain ⟨e, he, hok⟩ := Lib.bind_eq_ok.mp hok
  obtain ⟨f, hf, hok⟩ := Lib.bind_eq_ok.mp hok
  have hleft : LeftFrom c d := by
    unfold missingElse at hd
    split at hd
    · rw [Except.ok.inj hd]
      exact Or.inl (.refl _)
    · obtain ⟨x, hx, hd⟩ := Lib.bind_eq_ok.mp hd
      obtain ⟨y, hy, hd⟩ := Lib.bind_eq_ok.mp hd
      exact Or.inr ⟨.if_, blocktype, x, y, closeBranch_keeps hx, hy, op_keeps hd⟩
  exact ⟨e, f, hleft.keeps (closeBranch_keeps he), hf, op_keeps hok⟩

private theorem leaveIfChecker_keeps {isDead hasElse : Bool} {blocktype : BlockType}
    (hok : leaveIfChecker env c isDead hasElse blocktype = .ok c') :
    ∃ d e, LeftFrom c d ∧ d.leaveBlock = .ok e ∧ Keeps e c' := by
  cases blocktype with
  | void =>
      obtain ⟨d, hd, hok⟩ := Lib.bind_eq_ok.mp hok
      exact ⟨d, c', Or.inl (closeVoidBranch_keeps hd), hok, .refl _⟩
  | valType ty => exact leaveIfResults_keeps hok
  | typeIdx idx =>
      obtain ⟨ty, _, hok⟩ := Lib.bind_eq_ok.mp hok
      exact leaveIfResults_keeps hok

private theorem popBrTypes_keeps {target : Block} (hok : popBrTypes env c target = .ok c') :
    Keeps c c' := by
  obtain ⟨kind, blocktype, base⟩ := target
  cases kind <;> cases blocktype
  case block.typeIdx idx | if_.typeIdx idx | loop.typeIdx idx =>
      obtain ⟨ty, _, hok⟩ := Lib.bind_eq_ok.mp hok
      exact op_keeps hok
  case block.valType ty | if_.valType ty => exact op_keeps hok
  all_goals
    obtain rfl := Except.ok.inj hok
    exact .refl _

private theorem checkBrIfTypes_keeps {target : Block}
    (hok : checkBrIfTypes env c target = .ok c') : Keeps c c' := by
  obtain ⟨kind, blocktype, base⟩ := target
  cases kind <;> cases blocktype
  case block.typeIdx idx | if_.typeIdx idx =>
      obtain ⟨ty, _, hok⟩ := Lib.bind_eq_ok.mp hok
      exact op_keeps hok
  case block.valType ty | if_.valType ty => exact op_keeps hok
  all_goals
    obtain rfl := Except.ok.inj hok
    exact .refl _

/-- A popped marker is put back, so an entry of unknown type above it changes nothing. -/
private theorem pushAny_keeps {any : Bool} (hpop : c.pop = .ok (.unreachable any, c')) :
    Keeps c' c'.pushAny := by
  obtain ⟨b, bs, rest, _, _, _, rfl⟩ := pop_ok hpop
  refine ⟨rfl, ?_, ?_, ?_⟩
  · intro hbase d hd
    have := hbase d hd
    simp only [pushAny, List.length_cons] at this ⊢
    omega
  · intro d _ hbase
    exact below_append [.unreachable true] _ hbase
  · intro hconcrete
    obtain ⟨ty, hty⟩ := hconcrete (.unreachable false) (by simp [isMarker])
    cases hty

end Parts

section Arms

variable {env : Env} {s s' : State}

theorem emitLoopParam_fields {blocktype : BlockType}
    (hok : emitLoopParam env s blocktype = .ok s') :
    s'.checker = s.checker ∧ s'.unreachable = s.unreachable := by
  unfold emitLoopParam at hok
  split at hok
  · rw [← Lib.pure_eq_ok.mp hok]
    exact ⟨rfl, rfl⟩
  · obtain ⟨stackTop, _, hok⟩ := Lib.bind_eq_ok.mp hok
    obtain ⟨size, _, hok⟩ := Lib.bind_eq_ok.mp hok
    rw [← Lib.pure_eq_ok.mp hok]
    simp

theorem emitBlockReturn_fields {blocktype : BlockType}
    (hok : emitBlockReturn env s blocktype = .ok s') :
    s'.checker = s.checker ∧ s'.unreachable = s.unreachable := by
  unfold emitBlockReturn at hok
  split at hok
  · rw [← Lib.pure_eq_ok.mp hok]
    exact ⟨rfl, rfl⟩
  · obtain ⟨stackTop, _, hok⟩ := Lib.bind_eq_ok.mp hok
    obtain ⟨size, _, hok⟩ := Lib.bind_eq_ok.mp hok
    rw [← Lib.pure_eq_ok.mp hok]
    simp

private theorem enterBlock_step {blocktype : BlockType}
    (hok : enterBlock env s blocktype = .ok s') : BlockStep s s' (.enter .block blocktype) := by
  obtain ⟨c, hc, hok⟩ := Lib.bind_eq_ok.mp hok
  obtain ⟨d, hd, hkeeps⟩ := enterChecker_keeps hc
  rw [← Lib.pure_eq_ok.mp hok]
  exact .enter hd hkeeps rfl

private theorem enterLoop_step {blocktype : BlockType}
    (hok : enterLoop env s blocktype = .ok s') : BlockStep s s' (.enter .loop blocktype) := by
  obtain ⟨c, hc, hok⟩ := Lib.bind_eq_ok.mp hok
  obtain ⟨t, ht, hok⟩ := Lib.bind_eq_ok.mp hok
  obtain ⟨hchecker, hflags⟩ := emitLoopParam_fields ht
  obtain ⟨d, hd, hkeeps⟩ := enterChecker_keeps hc
  rw [← Lib.pure_eq_ok.mp hok]
  refine .enter hd ?_ ?_
  · simpa [hchecker] using hkeeps
  · simp [hflags, isUnreachable]

private theorem enterIf_step {blocktype : BlockType}
    (hok : enterIf env s blocktype = .ok s') : BlockStep s s' (.enter .if_ blocktype) := by
  obtain ⟨c, hc, hok⟩ := Lib.bind_eq_ok.mp hok
  obtain ⟨d, hd, hok⟩ := Lib.bind_eq_ok.mp hok
  rw [pushWithOperand_checker] at hc
  obtain ⟨e, he, hkeeps⟩ := enterChecker_keeps hd
  rw [← Lib.pure_eq_ok.mp hok]
  refine .enter ((op_keeps hc).trans he) ?_ ?_
  · simpa using hkeeps
  · simp [isUnreachable]

private theorem parseEnd_step (hok : parseEnd env s = .ok s') : BlockStep s s' .end_ := by
  unfold parseEnd at hok
  split at hok
  · cases hok
  · split at hok
    · obtain ⟨c, hc, hok⟩ := Lib.bind_eq_ok.mp hok
      rw [patchIf_checker, pushInstructionMeta_checker] at hc
      obtain ⟨d, e, hd, he, hkeeps⟩ := leaveIfChecker_keeps hc
      rw [← Lib.pure_eq_ok.mp hok]
      refine .leave hd he hkeeps ?_
      simp
    · obtain ⟨t, ht, hok⟩ := Lib.bind_eq_ok.mp hok
      obtain ⟨c, hc, hok⟩ := Lib.bind_eq_ok.mp hok
      obtain ⟨hchecker, hflags⟩ := emitBlockReturn_fields ht
      rw [hchecker, genLeaveBlock_checker, pushInstructionMeta_checker] at hc
      obtain ⟨d, e, hd, he, hkeeps⟩ := leaveChecker_keeps hc
      rw [← Lib.pure_eq_ok.mp hok]
      refine .leave (Or.inl hd) he hkeeps ?_
      simp [hflags]

private theorem parseElse_step (hok : parseElse env s = .ok s') : BlockStep s s' .else_ := by
  have hflag : s.genLeaveBlock.genEnterBlock.isUnreachable =
      s.unreachable.tail.headD false := rfl
  unfold parseElse at hok
  dsimp only at hok
  split at hok
  · next hdead =>
      rw [hflag] at hdead
      rw [← Lib.pure_eq_ok.mp hok]
      refine .deadElse hdead rfl ?_
      change s.unreachable.tail.headD false :: s.unreachable.tail = _
      rw [hdead]
  · next hlive =>
      rw [hflag, Bool.not_eq_true] at hlive
      obtain ⟨c, hc, hok⟩ := Lib.bind_eq_ok.mp hok
      obtain ⟨current, hcurrent, hkind, hreopens⟩ := elseChecker_reopens hc
      rw [← Lib.pure_eq_ok.mp hok]
      refine .reopen hlive (by simpa using hcurrent) hkind (by simpa using hreopens) ?_
      simp only [withChecker_unreachable, pushSlot_unreachable, pushDsl_unreachable]
      change s.unreachable.tail.headD false :: s.unreachable.tail = _
      rw [hlive]

private theorem parseBr_step {idx : Nat} (hok : parseBr env s idx = .ok s') :
    BlockStep s s' .transfer := by
  obtain ⟨target, _, hok⟩ := Lib.bind_eq_ok.mp hok
  obtain ⟨c, hc, hok⟩ := Lib.bind_eq_ok.mp hok
  have hkeeps := popBrTypes_keeps hc
  rw [← Lib.pure_eq_ok.mp hok]
  refine @BlockStep.transfer _ _ c ?_ rfl ?_
  · split at hkeeps <;> simpa using hkeeps
  · split
    · exact Or.inl rfl
    · exact Or.inr (by simp)

private theorem parseBrIf_step {idx : Nat} (hok : parseBrIf env s idx = .ok s') :
    BlockStep s s' .work := by
  obtain ⟨c, hc, hok⟩ := Lib.bind_eq_ok.mp hok
  obtain ⟨target, _, hok⟩ := Lib.bind_eq_ok.mp hok
  obtain ⟨d, hd, hok⟩ := Lib.bind_eq_ok.mp hok
  have hkeeps := (op_keeps hc).trans (checkBrIfTypes_keeps hd)
  rw [← Lib.pure_eq_ok.mp hok]
  refine .work ?_ ?_
  · split <;> simpa using hkeeps
  · split <;> simp

theorem pushTableTarget_fields (s : State) (idxs : List Nat) :
    (idxs.foldl pushTableTarget s).checker = s.checker ∧
      (idxs.foldl pushTableTarget s).unreachable = s.unreachable := by
  induction idxs generalizing s with
  | nil => exact ⟨rfl, rfl⟩
  | cons idx idxs ih =>
      rw [List.foldl_cons]
      have hstep := ih (pushTableTarget s idx)
      simpa [pushTableTarget] using hstep

private theorem parseBrTable_step {idxs : List Nat} {defaultIdx : Nat}
    (hok : parseBrTable env s idxs defaultIdx = .ok s') : BlockStep s s' .transfer := by
  obtain ⟨c, hc, hok⟩ := Lib.bind_eq_ok.mp hok
  obtain ⟨len, _, hok⟩ := Lib.bind_eq_ok.mp hok
  obtain ⟨_, _, hok⟩ := Lib.bind_eq_ok.mp hok
  rw [← Lib.pure_eq_ok.mp hok]
  refine .transfer (op_keeps hc) rfl (Or.inr ?_)
  rw [setUnreachable_unreachable, withChecker_unreachable]
  split
  · rfl
  · have hfold := pushTableTarget_fields (s.pushWithOperand .opBrTable [.u32 idxs.length]) idxs
    simp [pushTableTarget, hfold.2]

private theorem parseReturn_step (hok : parseReturn env s = .ok s') :
    BlockStep s s' .transfer := by
  obtain ⟨c, hc, hok⟩ := Lib.bind_eq_ok.mp hok
  have hkeeps := op_keeps hc
  rw [← Lib.pure_eq_ok.mp hok]
  refine @BlockStep.transfer _ _ c ?_ rfl ?_
  · split at hkeeps <;> simpa using hkeeps
  · split
    · exact Or.inl rfl
    · exact Or.inr (by simp)

/-- `select` in dead code may push an entry of unknown type. -/
private theorem parseSelect_step (hok : parseSelect s = .ok s') : BlockStep s s' .work := by
  obtain ⟨c, hc, hok⟩ := Lib.bind_eq_ok.mp hok
  obtain ⟨⟨v, d⟩, hd, hok⟩ := Lib.bind_eq_ok.mp hok
  have hkeeps := (op_keeps hc).trans (pop_keeps hd)
  cases v with
  | normal x =>
      obtain ⟨e, he, hok⟩ := Lib.bind_eq_ok.mp hok
      obtain ⟨_, hok⟩ := Lib.ite_error_eq_ok.mp hok
      rw [← Lib.pure_eq_ok.mp hok]
      exact .work (by simpa using hkeeps.trans (op_keeps he)) (by simp)
  | unreachable any =>
      obtain ⟨⟨w, e⟩, he, hok⟩ := Lib.bind_eq_ok.mp hok
      have hkeeps' := hkeeps.trans (pop_keeps he)
      cases w with
      | normal x =>
          obtain ⟨_, hok⟩ := Lib.ite_error_eq_ok.mp hok
          rw [← Lib.pure_eq_ok.mp hok]
          exact .work (hkeeps'.trans (pushAll_keeps e [x])) (by simp)
      | unreachable any =>
          dsimp only at hok
          split at hok
          · rw [← Lib.pure_eq_ok.mp hok]
            exact .work (hkeeps'.trans (pushAny_keeps he)) (by simp)
          · cases hok

private theorem parseDrop_step (hok : parseDrop s = .ok s') : BlockStep s s' .work := by
  obtain ⟨⟨v, c⟩, hc, hok⟩ := Lib.bind_eq_ok.mp hok
  have hkeeps := pop_keeps hc
  cases v <;> rw [← Lib.pure_eq_ok.mp hok] <;> exact .work (by simpa using hkeeps) (by simp)

private theorem parseRefIsNull_step (hok : parseRefIsNull s = .ok s') :
    BlockStep s s' .work := by
  obtain ⟨⟨v, c⟩, hc, hok⟩ := Lib.bind_eq_ok.mp hok
  have hkeeps := pop_keeps hc
  cases v with
  | normal x =>
      dsimp only at hok
      split at hok
      · obtain ⟨d, hd, hok⟩ := Lib.bind_eq_ok.mp hok
        rw [← Lib.pure_eq_ok.mp hok]
        exact .work (by simpa using hkeeps.trans (op_keeps hd)) (by simp)
      · cases hok
  | unreachable any =>
      obtain ⟨d, hd, hok⟩ := Lib.bind_eq_ok.mp hok
      rw [← Lib.pure_eq_ok.mp hok]
      exact .work (by simpa using hkeeps.trans (op_keeps hd)) (by simp)

private theorem parsePlain_step {inst : Inst} (hok : parsePlain env s inst = .ok s')
    (hplain : ∀ blocktype, inst ≠ .block blocktype ∧ inst ≠ .loop blocktype ∧
      inst ≠ .if_ blocktype ∧ inst ≠ .end_) : BlockStep s s' (shape inst) := by
  cases inst with
  | unreachable =>
      obtain rfl := Except.ok.inj hok
      exact .transfer (.refl _) (by simp) (Or.inr (by simp))
  | nop =>
      obtain rfl := Except.ok.inj hok
      exact .work (.refl _) rfl
  | block blocktype => exact absurd rfl (hplain blocktype).1
  | loop blocktype => exact absurd rfl (hplain blocktype).2.1
  | if_ blocktype => exact absurd rfl (hplain blocktype).2.2.1
  | end_ => exact absurd rfl (hplain .void).2.2.2
  | else_ => exact parseElse_step hok
  | br idx => exact parseBr_step hok
  | brIf idx => exact parseBrIf_step hok
  | brTable idxs defaultIdx => exact parseBrTable_step hok
  | return_ => exact parseReturn_step hok
  | call idx =>
      obtain ⟨ty, _, hok⟩ := Lib.bind_eq_ok.mp hok
      obtain ⟨c, hc, hok⟩ := Lib.bind_eq_ok.mp hok
      rw [← Lib.pure_eq_ok.mp hok]
      exact .work (by simpa using op_keeps hc) (by simp)
  | callIndirect typeidx tableidx =>
      obtain ⟨_, _, hok⟩ := Lib.bind_eq_ok.mp hok
      obtain ⟨c, hc, hok⟩ := Lib.bind_eq_ok.mp hok
      obtain ⟨ty, _, hok⟩ := Lib.bind_eq_ok.mp hok
      obtain ⟨d, hd, hok⟩ := Lib.bind_eq_ok.mp hok
      rw [← Lib.pure_eq_ok.mp hok]
      exact .work (by simpa using (op_keeps hc).trans (op_keeps hd)) (by simp)
  | returnCall idx =>
      obtain ⟨ty, _, hok⟩ := Lib.bind_eq_ok.mp hok
      obtain ⟨c, hc, hok⟩ := Lib.bind_eq_ok.mp hok
      obtain ⟨d, hd, hok⟩ := Lib.bind_eq_ok.mp hok
      rw [← Lib.pure_eq_ok.mp hok]
      exact .transfer ((op_keeps hc).trans (op_keeps hd)) (by simp) (Or.inl (by simp))
  | returnCallIndirect typeidx tableidx =>
      obtain ⟨_, _, hok⟩ := Lib.bind_eq_ok.mp hok
      obtain ⟨c, hc, hok⟩ := Lib.bind_eq_ok.mp hok
      obtain ⟨ty, _, hok⟩ := Lib.bind_eq_ok.mp hok
      obtain ⟨d, hd, hok⟩ := Lib.bind_eq_ok.mp hok
      obtain ⟨e, he, hok⟩ := Lib.bind_eq_ok.mp hok
      rw [← Lib.pure_eq_ok.mp hok]
      exact .transfer (((op_keeps hc).trans (op_keeps hd)).trans (op_keeps he)) (by simp)
        (Or.inl (by simp))
  | drop => exact parseDrop_step hok
  | select => exact parseSelect_step hok
  | selectTyped operand =>
      obtain ⟨_, hok⟩ := Lib.ite_error_eq_ok.mp hok
      obtain ⟨c, hc, hok⟩ := Lib.bind_eq_ok.mp hok
      obtain ⟨d, hd, hok⟩ := Lib.bind_eq_ok.mp hok
      obtain ⟨e, he, hok⟩ := Lib.bind_eq_ok.mp hok
      have hkeeps := ((op_keeps hc).trans (op_keeps hd)).trans (op_keeps he)
      rw [← Lib.pure_eq_ok.mp hok]
      refine .work ?_ ?_
      · split <;> simpa using hkeeps
      · split <;> simp
  | refIsNull => exact parseRefIsNull_step hok
  | simple op =>
      obtain ⟨c, hc, hok⟩ := Lib.bind_eq_ok.mp hok
      rw [← Lib.pure_eq_ok.mp hok]
      exact .work (by simpa using op_keeps hc) (by simp)

private theorem BlockStep.pushInstructionMeta {shape : Shape} (h : BlockStep s s' shape)
    (start : Nat) (before after : StackSnapshot) :
    BlockStep s (s'.pushInstructionMeta start before after) shape := by
  cases h with
  | work hkeeps hflags => exact .work (by simpa using hkeeps) (by simpa using hflags)
  | transfer hkeeps hchecker hflags =>
      exact .transfer hkeeps (by simpa using hchecker) (by simpa using hflags)
  | enter hkeeps hinner hflags =>
      exact .enter hkeeps (by simpa using hinner) (by simpa using hflags)
  | deadElse hdead hchecker hflags =>
      exact .deadElse hdead (by simpa using hchecker) (by simpa using hflags)
  | reopen hlive hcurrent hkind hreopens hflags =>
      exact .reopen hlive hcurrent hkind (by simpa using hreopens) (by simpa using hflags)
  | leave hleft hleave hkeeps hflags =>
      exact .leave hleft hleave (by simpa using hkeeps) (by simpa using hflags)

theorem parseInst_step {inst : Inst} (hok : parseInst env s inst = .ok s') :
    BlockStep s s' (shape inst) := by
  unfold parseInst at hok
  split at hok
  · obtain ⟨_, _, hok⟩ := Lib.bind_eq_ok.mp hok
    exact enterBlock_step hok
  · obtain ⟨_, _, hok⟩ := Lib.bind_eq_ok.mp hok
    exact enterLoop_step hok
  · obtain ⟨_, _, hok⟩ := Lib.bind_eq_ok.mp hok
    exact enterIf_step hok
  · exact parseEnd_step hok
  · next hblock hloop hif hend =>
      obtain ⟨t, ht, hok⟩ := Lib.bind_eq_ok.mp hok
      rw [← Lib.pure_eq_ok.mp hok]
      refine BlockStep.pushInstructionMeta (parsePlain_step ht ?_) _ _ _
      exact fun blocktype => ⟨hblock blocktype, hloop blocktype, hif blocktype, hend⟩

end Arms

end Telomere.Parser
