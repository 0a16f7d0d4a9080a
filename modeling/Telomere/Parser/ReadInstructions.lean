import Telomere.Parser.CheckedOperands

/-!
# Reading typed instructions

Each typed instruction is read by the parser when the byte sizes that the generator needs are known.
Dead code is tracked by the checker, with markers on its stack, and by the generator, with one flag a
block.
-/

namespace Telomere.Parser

open TypeChecker State

/-- What the generator does with an operand's size is not done with a marker. -/
def SizesKnownAt (s : State) : Inst → Prop
  | .loop _ => s.isUnreachable = true ∨ NoMarker s.checker.types
  | .end_ => ∀ frame frames, s.frames = frame :: frames → frame.kind ≠ .if_ →
      s.genLeaveBlock.isUnreachable = true ∨
        ∀ base, s.checker.blockBase = .ok base → NoMarker (below base s.checker.types)
  | .select => s.isUnreachable = true ∨ ∀ c v d, s.checker.op [.i32] [] = .ok c →
      c.pop = .ok (v, d) → isMarker v = false
  | _ => True

/-- An `else` in dead code finds the operands that its branch starts with. -/
def BranchKnownAt (env : Env) (s : State) : Inst → Prop
  | .else_ => s.genLeaveBlock.isUnreachable = true → ∀ b params, s.checker.currentBlock = .ok b →
      b.blocktype.params env.types = some params →
        ∃ rest, Agrees (s.checker.aboveBase b.base) (known params ++ rest)
  | _ => True

/-- What no instruction of a block changes: the pending blocks, the flags outside of it, and that
its code is dead. -/
structure Stays (s s' : State) : Prop where
  frames : s'.frames = s.frames
  outer : s'.unreachable.tail = s.unreachable.tail
  dead : s.isUnreachable = true → s'.isUnreachable = true

theorem Stays.same {s s' : State} (hframes : s'.frames = s.frames)
    (hflags : s'.unreachable = s.unreachable) : Stays s s' :=
  ⟨hframes, by rw [hflags], fun h => by rw [← h, isUnreachable, isUnreachable, hflags]⟩

theorem Stays.trans {s s' s'' : State} (h : Stays s s') (h' : Stays s' s'') : Stays s s'' :=
  ⟨h'.frames.trans h.frames, h'.outer.trans h.outer, fun hdead => h'.dead (h.dead hdead)⟩

theorem Stays.flagged {s s' : State} (hframes : s'.frames = s.frames)
    (hflags : s'.unreachable = true :: s.unreachable.tail) : Stays s s' :=
  ⟨hframes, by rw [hflags]; rfl, fun _ => by rw [isUnreachable, hflags]; rfl⟩

section Plain

variable {env : Env} {labels : List (List ValType)} {B : List MaybeUnreachable} {b : Block}
  {bs : List Block} {s : State} {c : TypeChecker} {operands stack : List OpdType}

/-- What is left of a state after an instruction of its block. -/
def Goes (B : List MaybeUnreachable) (b : Block) (bs : List Block) (stack : List OpdType)
    (s : State) (run : Except ParserError State) : Prop :=
  ∃ s', run = .ok s' ∧ Holds B b bs stack s'.checker ∧ Stays s s'

theorem parseBr_goes {idx : Nat} {types : List ValType} (hopen : Opened env labels B b bs)
    (h : Holds B b bs (operands ++ stack) s.checker) (htypes : labels[idx]? = some types)
    (hoperands : Operands operands types) (stack' : List OpdType) :
    Goes B b bs stack' s (parseBr env s idx) := by
  obtain ⟨target, htarget, hlabel⟩ := hopen.labels idx types htypes
  obtain ⟨c, hop, hc⟩ := h.op hopen.base hoperands []
  have hget : s.checker.getBlock idx = .ok target := by
    obtain ⟨entries, hentries, -⟩ := h
    simp [getBlock, hentries, htarget]
  unfold Goes parseBr
  by_cases hdead : s.isUnreachable = true
  · simp only [hdead, if_true, hget, popBrTypes_eq hlabel, hop, Lib.ok_bind]
    exact ⟨_, rfl, hc.unreachable stack', Stays.same rfl rfl⟩
  · simp only [hdead, Bool.false_eq_true, if_false, setUnreachable_checker, pushSlot_checker,
      pushDsl_checker, hget, popBrTypes_eq hlabel, hop, Lib.ok_bind]
    exact ⟨_, rfl, hc.unreachable stack', Stays.flagged (by simp) (by simp)⟩

theorem parseBrIf_goes {idx : Nat} {types : List ValType} {condition : OpdType}
    (hopen : Opened env labels B b bs)
    (h : Holds B b bs (condition :: (operands ++ stack)) s.checker)
    (htypes : labels[idx]? = some types) (hcondition : condition.Below (some .i32))
    (hoperands : Operands operands types) :
    Goes B b bs (known types ++ stack) s (parseBrIf env s idx) := by
  obtain ⟨target, htarget, hlabel⟩ := hopen.labels idx types htypes
  obtain ⟨c, hop, hc⟩ := h.popOne hopen.base hcondition
  have hget : c.getBlock idx = .ok target := by
    obtain ⟨entries, rfl, -⟩ := hc
    simp [getBlock, htarget]
  obtain ⟨c', hcheck, hc'⟩ : ∃ c', checkBrIfTypes env c target = .ok c' ∧
      Holds B b bs (known types ++ stack) c' := by
    rcases checkBrIfTypes_eq (c := c) hlabel with hcheck | hcheck
    · exact ⟨c, hcheck, hc.weaken hoperands⟩
    · rw [hcheck]
      exact hc.op hopen.base hoperands types
  unfold Goes parseBrIf
  simp only [hop, hget, hcheck, Lib.ok_bind]
  by_cases hdead : (s.withChecker c').isUnreachable = true
  · simp only [hdead, if_true]
    exact ⟨_, rfl, hc', Stays.same rfl rfl⟩
  · simp only [hdead, Bool.false_eq_true, if_false]
    exact ⟨_, rfl, by simpa using hc', Stays.same (by simp) (by simp)⟩

theorem pushTableTargets_same (idxs : List Nat) (s : State) :
    (idxs.foldl pushTableTarget s).checker = s.checker ∧
      (idxs.foldl pushTableTarget s).frames = s.frames ∧
        (idxs.foldl pushTableTarget s).unreachable = s.unreachable := by
  induction idxs generalizing s with
  | nil => exact ⟨rfl, rfl, rfl⟩
  | cons idx idxs ih => simpa [pushTableTarget] using ih (pushTableTarget s idx)

theorem validateBrTableTargets_eq {idxs : List Nat} {len : Nat}
    (h : ∀ idx ∈ idxs, validateBrTableTypes env c idx = .ok len) :
    validateBrTableTargets env c len idxs = .ok () := by
  induction idxs with
  | nil => rfl
  | cons idx idxs ih =>
      rw [validateBrTableTargets, h idx (List.mem_cons_self ..), Lib.ok_bind, if_pos rfl]
      exact ih fun idx hidx => h idx (List.mem_cons_of_mem _ hidx)

theorem parseBrTable_goes {idxs : List Nat} {defaultIdx : Nat} {index : OpdType}
    (hopen : Opened env labels B b bs)
    (h : Holds B b bs (index :: (operands ++ stack)) s.checker)
    (hindex : index.Below (some .i32))
    (htypes : ∀ idx ∈ idxs ++ [defaultIdx],
      ∃ types, labels[idx]? = some types ∧ Operands operands types) (stack' : List OpdType) :
    Goes B b bs stack' s (parseBrTable env s idxs defaultIdx) := by
  obtain ⟨c, hop, hc⟩ := h.popOne hopen.base hindex
  have hlen : ∀ idx ∈ idxs ++ [defaultIdx],
      validateBrTableTypes env c idx = .ok operands.length := by
    intro idx hidx
    obtain ⟨types, hidx, hoperands⟩ := htypes idx hidx
    obtain ⟨target, htarget, hlabel⟩ := hopen.labels idx types hidx
    have hblocks : c.blocks[idx]? = some target := by
      obtain ⟨entries, rfl, -⟩ := hc
      exact htarget
    have hlength : operands.length = types.length := by simpa using hoperands.length_eq
    rw [hlength]
    exact validateBrTableTypes_eq hblocks hlabel (hc.check hopen.base hoperands)
  have hdefault := hlen defaultIdx (by simp)
  have htargets := validateBrTableTargets_eq fun idx hidx =>
    hlen idx (List.mem_append_left _ hidx)
  unfold Goes parseBrTable
  simp only [hop, hdefault, htargets, Lib.ok_bind]
  refine ⟨_, rfl, hc.unreachable stack', Stays.flagged ?_ ?_⟩
  · by_cases hdead : s.isUnreachable = true
    · simp [hdead]
    · simp [hdead, pushTableTarget, pushTableTargets_same]
  · by_cases hdead : s.isUnreachable = true
    · simp [hdead]
    · simp [hdead, pushTableTarget, pushTableTargets_same]

theorem parseReturn_goes (hbase : b.base = B.length)
    (h : Holds B b bs (operands ++ stack) s.checker)
    (hoperands : Operands operands env.functype.results) (stack' : List OpdType) :
    Goes B b bs stack' s (parseReturn env s) := by
  obtain ⟨c, hop, hc⟩ := h.op hbase hoperands []
  unfold Goes parseReturn
  by_cases hdead : s.isUnreachable = true
  · simp only [hdead, if_true, hop, Lib.ok_bind]
    exact ⟨_, rfl, hc.unreachable stack', Stays.same rfl rfl⟩
  · simp only [hdead, Bool.false_eq_true, if_false, setUnreachable_checker, pushSlot_checker,
      pushDsl_checker, hop, Lib.ok_bind]
    exact ⟨_, rfl, hc.unreachable stack', Stays.flagged (by simp) (by simp)⟩

theorem parseDrop_goes {operand : OpdType} (hbase : b.base = B.length)
    (h : Holds B b bs (operand :: stack) s.checker) : Goes B b bs stack s (parseDrop s) := by
  obtain ⟨v, c, hpop, hc, hv⟩ := h.pop hbase
  unfold Goes parseDrop
  rw [hpop, Lib.ok_bind]
  rcases hv with ⟨ty, rfl, -⟩ | ⟨any, rest, rfl, -⟩
  · exact ⟨_, rfl, by simpa using hc, Stays.same (by simp) (by simp)⟩
  · exact ⟨_, rfl, hc, Stays.same rfl rfl⟩

theorem parseRefIsNull_goes {operand : OpdType} (hbase : b.base = B.length)
    (h : Holds B b bs (operand :: stack) s.checker)
    (href : ∀ ty, operand = some ty → ty.isRef = true) :
    Goes B b bs (some .i32 :: stack) s (parseRefIsNull s) := by
  obtain ⟨v, c, hpop, hc, hv⟩ := h.pop hbase
  obtain ⟨c', hop, hc'⟩ := hc.push hbase [.i32]
  unfold Goes parseRefIsNull
  rw [hpop, Lib.ok_bind]
  rcases hv with ⟨ty, rfl, hty⟩ | ⟨any, rest, rfl, -⟩
  · simp only [href ty hty, if_true, hop, Lib.ok_bind]
    exact ⟨_, rfl, by simpa using hc', Stays.same (by simp) (by simp)⟩
  · simp only [hop, Lib.ok_bind]
    exact ⟨_, rfl, by simpa using hc', Stays.same (by simp) (by simp)⟩

/-- With the second operand unknown so is the first, and the flag has to say that this is dead
code. -/
theorem parseSelect_goes {condition second first operand : OpdType} (hbase : b.base = B.length)
    (h : Holds B b bs (condition :: second :: first :: stack) s.checker)
    (hcondition : condition.Below (some .i32)) (hsecond : second.Below operand)
    (hfirst : first.Below operand) (hnumeric : ∀ ty, operand = some ty → ty.isRef = false)
    (hknown : SizesKnownAt s .select) : Goes B b bs (operand :: stack) s (parseSelect s) := by
  obtain ⟨c, hop, hc⟩ := h.popOne hbase hcondition
  obtain ⟨v, d, hpop, hd, hv⟩ := hc.pop hbase
  unfold Goes parseSelect
  simp only [hop, hpop, Lib.ok_bind]
  rcases hv with ⟨ty, rfl, rfl⟩ | ⟨any, rest, rfl, rfl⟩
  · obtain rfl : some ty = operand := by simpa [OpdType.Below] using hsecond
    obtain ⟨d', hop', hd'⟩ := hd.opOne hbase hfirst [ty]
    simp only [hop', hnumeric ty rfl, Lib.ok_bind, Bool.false_eq_true, if_false]
    exact ⟨_, rfl, by simpa using hd', Stays.same (by simp) (by simp)⟩
  · have hdead : s.isUnreachable = true := by
      rcases hknown with hdead | hmarker
      · exact hdead
      · cases hmarker c _ _ hop hpop
    have hagain : TypeChecker.pop ⟨.unreachable false :: rest ++ B, b :: bs⟩ =
        .ok (.unreachable false, ⟨.unreachable false :: (rest ++ B), b :: bs⟩) :=
      pop_cons (by simp [hbase])
    simp only [hagain, hdead, Lib.ok_bind, if_true]
    exact ⟨_, rfl, ⟨.unreachable true :: .unreachable false :: rest, rfl, .any _ _ _⟩,
      Stays.same rfl rfl⟩

theorem parseSelectTyped_goes {condition second first : OpdType} {ty : ValType}
    (hbase : b.base = B.length)
    (h : Holds B b bs (condition :: second :: first :: stack) s.checker)
    (hcondition : condition.Below (some .i32)) (hsecond : second.Below (some ty))
    (hfirst : first.Below (some ty)) :
    Goes B b bs (some ty :: stack) s (parsePlain env s (.selectTyped [ty])) := by
  obtain ⟨c, hop, hc⟩ := h.popOne hbase hcondition
  obtain ⟨d, hop', hd⟩ := hc.popOne hbase hsecond
  obtain ⟨e, hop'', he⟩ := hd.opOne hbase hfirst [ty]
  unfold Goes parsePlain
  simp only [hop, hop', hop'', Lib.ok_bind, List.length_singleton, ne_eq, not_true_eq_false,
    if_false]
  by_cases hdead : (s.withChecker e).isUnreachable = true
  · simp only [hdead, if_true]
    exact ⟨_, rfl, he, Stays.same rfl rfl⟩
  · simp only [hdead, Bool.false_eq_true, if_false]
    exact ⟨_, rfl, by simpa using he, Stays.same (by simp) (by simp)⟩

theorem parsePlain_goes {inst : Inst} {stack stack' : List OpdType}
    (hopen : Opened env labels B b bs) (hinst : PlainTyped env labels inst stack stack')
    (h : Holds B b bs stack s.checker) (hknown : SizesKnownAt s inst) :
    Goes B b bs stack' s (parsePlain env s inst) := by
  cases hinst with
  | nop rest => exact ⟨s, rfl, h, Stays.same rfl rfl⟩
  | unreachable rest rest' =>
      refine ⟨_, rfl, ?_, Stays.flagged (by simp) (by simp)⟩
      simpa using h.unreachable stack'
  | @simple op operands rest hoperands =>
      obtain ⟨c, hop, hc⟩ := h.op hopen.base hoperands op.outputs
      exact ⟨_, Lib.bind_eq_ok.mpr ⟨c, hop, rfl⟩, by simpa using hc,
        Stays.same (by simp) (by simp)⟩
  | @call idx ty operands rest hty hoperands =>
      obtain ⟨c, hop, hc⟩ := h.op hopen.base hoperands ty.results
      exact ⟨_, Lib.bind_eq_ok.mpr ⟨ty, hty, Lib.bind_eq_ok.mpr ⟨c, hop, rfl⟩⟩, by simpa using hc,
        Stays.same (by simp) (by simp)⟩
  | @callIndirect typeidx tableidx ty callee operands rest htable hty hcallee hoperands =>
      obtain ⟨c, hpop, hc⟩ := h.popOne hopen.base hcallee
      obtain ⟨d, hop, hd⟩ := hc.op hopen.base hoperands ty.results
      unfold Goes parsePlain
      simp only [htable, hpop, hty, hop, Lib.ok_bind]
      exact ⟨_, rfl, by simpa using hd, Stays.same (by simp) (by simp)⟩
  | @returnCall idx ty operands rest rest' hty hresults hoperands =>
      obtain ⟨c, hop, hc⟩ := h.op hopen.base hoperands ty.results
      obtain ⟨d, hreturn, hd⟩ := hc.returned hopen.base
      unfold Goes parsePlain
      simp only [hty, hop, ← hresults, hreturn, Lib.ok_bind]
      exact ⟨_, rfl, by simpa using hd.unreachable stack', Stays.same (by simp) (by simp)⟩
  | @returnCallIndirect typeidx tableidx ty callee operands rest rest' htable hty hresults hcallee
      hoperands =>
      obtain ⟨c, hpop, hc⟩ := h.popOne hopen.base hcallee
      obtain ⟨d, hop, hd⟩ := hc.op hopen.base hoperands ty.results
      obtain ⟨e, hreturn, he⟩ := hd.returned hopen.base
      unfold Goes parsePlain
      simp only [htable, hpop, hty, hop, ← hresults, hreturn, Lib.ok_bind]
      exact ⟨_, rfl, by simpa using he.unreachable stack', Stays.same (by simp) (by simp)⟩
  | br rest rest' htypes hoperands => exact parseBr_goes hopen h htypes hoperands stack'
  | brIf rest htypes hcondition hoperands =>
      exact parseBrIf_goes hopen h htypes hcondition hoperands
  | brTable rest rest' hindex htypes => exact parseBrTable_goes hopen h hindex htypes stack'
  | return_ rest rest' hoperands => exact parseReturn_goes hopen.base h hoperands stack'
  | drop operand rest => exact parseDrop_goes hopen.base h
  | select rest hcondition hsecond hfirst hnumeric =>
      exact parseSelect_goes hopen.base h hcondition hsecond hfirst hnumeric hknown
  | selectTyped rest hcondition hsecond hfirst =>
      exact parseSelectTyped_goes hopen.base h hcondition hsecond hfirst
  | refIsNull rest href => exact parseRefIsNull_goes hopen.base h href

theorem parseInst_goes {inst : Inst} {stack stack' : List OpdType}
    (hopen : Opened env labels B b bs) (hinst : PlainTyped env labels inst stack stack')
    (h : Holds B b bs stack s.checker) (hknown : SizesKnownAt s inst) :
    Goes B b bs stack' s (parseInst env s inst) := by
  obtain ⟨s', hok, hs', hstays⟩ := parsePlain_goes hopen hinst h hknown
  have hplain : parseInst env s inst = (do
      let s' ← parsePlain env s inst
      return s'.pushInstructionMeta s.instr.length s.checker.snapshotStack
        s'.checker.snapshotStack) := by
    cases hinst <;> rfl
  refine ⟨_, by rw [hplain, hok]; rfl, by simpa using hs', hstays.trans ?_⟩
  exact Stays.same (by simp) (by simp)

end Plain

section Blocks

variable {env : Env} {labels : List (List ValType)} {B rest : List MaybeUnreachable} {b : Block}
  {bs : List Block} {s : State} {c : TypeChecker} {operands ends stack : List OpdType}
  {blocktype : BlockType} {params results : List ValType}

structure Enters (kind : BlockKind) (blocktype : BlockType) (s s' : State) : Prop where
  frame : ∃ frame, s'.frames = frame :: s.frames ∧ frame.kind = kind ∧
    frame.blocktype = blocktype ∧ frame.elseAddr = none
  flags : s'.unreachable = s.isUnreachable :: s.unreachable

theorem enterBlock_goes (hbase : b.base = B.length)
    (hparams : blocktype.params env.types = some params)
    (h : Holds B b bs (operands ++ stack) s.checker) (hoperands : Operands operands params) :
    ∃ rest s', enterBlock env s blocktype = .ok s' ∧ Agrees rest stack ∧
      Holds (rest ++ B) ⟨.block, blocktype, (rest ++ B).length⟩ (b :: bs) (known params)
        s'.checker ∧ Enters .block blocktype s s' := by
  obtain ⟨rest, d, c, -, -, henter, hrest, hc⟩ :=
    enterChecker_holds .block hbase hparams h hoperands
  unfold enterBlock
  rw [henter, Lib.ok_bind]
  exact ⟨rest, _, rfl, hrest, hc, ⟨_, rfl, rfl, rfl, rfl⟩, rfl⟩

theorem emitLoopParam_goes (hbase : b.base = B.length)
    (hparams : blocktype.params env.types = some params) (h : Holds B b bs stack s.checker)
    (hknown : s.isUnreachable = true ∨ NoMarker B) :
    ∃ s', emitLoopParam env s blocktype = .ok s' ∧ s'.checker = s.checker ∧
      s'.frames = s.frames ∧ s'.unreachable = s.unreachable := by
  obtain ⟨entries, hchecker, -⟩ := h
  unfold emitLoopParam
  by_cases hdead : s.isUnreachable = true
  · rw [if_pos hdead]
    exact ⟨s, rfl, rfl, rfl, rfl⟩
  · have hbytes := concreteBytes_ok (hknown.resolve_left hdead)
    rw [if_neg hdead, hchecker, blockBaseStackSize_eq hbase, hbytes, Lib.ok_bind,
      BlockType.paramSize, hparams]
    exact ⟨_, rfl, by simp [hchecker], by simp, by simp⟩

theorem enterLoop_goes (hbase : b.base = B.length)
    (hparams : blocktype.params env.types = some params)
    (h : Holds B b bs (operands ++ stack) s.checker) (hoperands : Operands operands params)
    (hknown : SizesKnownAt s (.loop blocktype)) :
    ∃ rest s', enterLoop env s blocktype = .ok s' ∧ Agrees rest stack ∧
      Holds (rest ++ B) ⟨.loop, blocktype, (rest ++ B).length⟩ (b :: bs) (known params) s'.checker ∧
        Enters .loop blocktype s s' := by
  obtain ⟨rest, d, c, hop, hd, henter, hrest, hc⟩ :=
    enterChecker_holds .loop hbase hparams h hoperands
  have hknown' : s.isUnreachable = true ∨ NoMarker (rest ++ B) := by
    rw [← hd]
    exact hknown.imp_right (op_keeps hop).concrete
  have hpushed : Holds (rest ++ B) ⟨.loop, blocktype, (rest ++ B).length⟩ (b :: bs) (known params)
      ((((s.withChecker c).pushDsl (.enterBackwardJumpBlock s.instr.length)).pushSlot
        (.op .opLoop)).checker) := by simpa using hc
  obtain ⟨s', hemit, hchecker, hframes, hflags⟩ :=
    emitLoopParam_goes rfl hparams hpushed (by simpa [isUnreachable] using hknown')
  unfold enterLoop
  simp only [henter, hemit, Lib.ok_bind]
  refine ⟨rest, _, rfl, hrest, ?_, ⟨_, congrArg (List.cons _) ?_, rfl, rfl, rfl⟩, ?_⟩
  · simpa [hchecker] using hc
  · simp [hframes]
  · simp [hflags, isUnreachable]

theorem enterIf_goes {condition : OpdType} (hbase : b.base = B.length)
    (hparams : blocktype.params env.types = some params)
    (h : Holds B b bs (condition :: (operands ++ stack)) s.checker)
    (hcondition : condition.Below (some .i32)) (hoperands : Operands operands params) :
    ∃ rest s', enterIf env s blocktype = .ok s' ∧ Agrees rest stack ∧
      Holds (rest ++ B) ⟨.if_, blocktype, (rest ++ B).length⟩ (b :: bs) (known params) s'.checker ∧
        Enters .if_ blocktype s s' := by
  obtain ⟨c, hpop, hc⟩ := h.popOne hbase hcondition
  obtain ⟨rest, d, c', -, -, henter, hrest, hc'⟩ :=
    enterChecker_holds .if_ hbase hparams hc hoperands
  unfold enterIf
  simp only [pushWithOperand_checker, hpop, henter, Lib.ok_bind]
  refine ⟨rest, _, rfl, hrest, ?_, ⟨_, congrArg (List.cons _) ?_, rfl, rfl, rfl⟩, ?_⟩
  · simpa using hc'
  · simp
  · simp [isUnreachable]

structure Leaves (frames : List Frame) (s s' : State) : Prop where
  frames : s'.frames = frames
  flags : s'.unreachable = s.unreachable.tail

theorem emitBlockReturn_goes (hbase : b.base = B.length)
    (hresults : blocktype.results env.types = some results) (h : Holds B b bs stack s.checker)
    (hknown : s.isUnreachable = true ∨ NoMarker B) :
    ∃ s', emitBlockReturn env s blocktype = .ok s' ∧ s'.checker = s.checker ∧
      s'.frames = s.frames ∧ s'.unreachable = s.unreachable := by
  obtain ⟨entries, hchecker, -⟩ := h
  unfold emitBlockReturn
  by_cases hdead : s.isUnreachable = true
  · rw [if_pos hdead]
    exact ⟨s, rfl, rfl, rfl, rfl⟩
  · have hbytes := concreteBytes_ok (hknown.resolve_left hdead)
    rw [if_neg hdead, hchecker, blockBaseStackSize_eq hbase, hbytes, Lib.ok_bind,
      BlockType.returnSize, hresults]
    exact ⟨_, rfl, by simp [hchecker], by simp, by simp⟩

/-- The end of a `block` or `loop`. -/
theorem parseEnd_goes {kind : BlockKind} {frame : Frame} {frames : List Frame}
    (hframes : s.frames = frame :: frames) (hkind : frame.kind ≠ .if_)
    (hblocktype : frame.blocktype = blocktype)
    (hresults : blocktype.results env.types = some results)
    (h : Holds (rest ++ B) ⟨kind, blocktype, (rest ++ B).length⟩ (b :: bs) ends s.checker)
    (hends : Operands ends results) (hrest : Agrees rest stack) (hknown : SizesKnownAt s .end_) :
    ∃ s', parseEnd env s = .ok s' ∧ Holds B b bs (known results ++ stack) s'.checker ∧
      Leaves frames s s' := by
  subst hblocktype
  obtain ⟨c, hleave, hc⟩ := leaveChecker_holds hresults h hends hrest
  have hsizes : s.genLeaveBlock.isUnreachable = true ∨ NoMarker (rest ++ B) := by
    refine (hknown frame frames hframes hkind).imp_right fun hbelow => ?_
    obtain ⟨entries, hchecker, -⟩ := h
    have hblocks : s.checker.blocks = ⟨kind, frame.blocktype, (rest ++ B).length⟩ :: b :: bs := by
      rw [hchecker]
    have hmarkers := hbelow _ (blockBase_cons hblocks)
    rw [hchecker] at hmarkers
    exact below_base (b := ⟨kind, frame.blocktype, (rest ++ B).length⟩) rfl ▸ hmarkers
  let t : State := ({ (((s.pushDsl (.leaveBlock s.instr.length)).forcePush
    (.op .opEnd)).pushInstructionMeta s.instr.length s.checker.snapshotStack
      s.checker.snapshotStack) with frames := frames }).genLeaveBlock
  have ht : Holds (rest ++ B) ⟨kind, frame.blocktype, (rest ++ B).length⟩ (b :: bs) ends
      t.checker := by simpa [t] using h
  obtain ⟨s', hemit, hchecker, hframes', hflags⟩ := emitBlockReturn_goes rfl hresults ht
    (by simpa [t, isUnreachable] using hsizes)
  have hleave' : leaveChecker env s'.checker frame.blocktype = .ok c := by
    rw [hchecker]
    simpa [t] using hleave
  refine ⟨s'.withChecker c, ?_, hc, by simp [hframes', t], by simp [hflags, t]⟩
  unfold parseEnd
  rw [hframes]
  have hblock : (do
      let s' ← emitBlockReturn env t frame.blocktype
      return s'.withChecker (← leaveChecker env s'.checker frame.blocktype)) =
        .ok (s'.withChecker c) :=
    Lib.bind_eq_ok.mpr ⟨s', hemit, Lib.bind_eq_ok.mpr ⟨c, hleave', rfl⟩⟩
  cases hkind' : frame.kind with
  | if_ => exact absurd hkind' hkind
  | block | loop =>
      simp only [hkind']
      exact hblock

/-- The end of an `if`. -/
theorem parseEndIf_goes {frame : Frame} {frames : List Frame}
    (hframes : s.frames = frame :: frames) (hkind : frame.kind = .if_)
    (hblocktype : frame.blocktype = blocktype)
    (hparams : blocktype.params env.types = some params)
    (hresults : blocktype.results env.types = some results)
    (hmissing : frame.elseAddr.isSome = true ∨ s.isUnreachable = true ∨ params = results)
    (h : Holds (rest ++ B) ⟨.if_, blocktype, (rest ++ B).length⟩ (b :: bs) ends s.checker)
    (hends : s.isUnreachable = true ∨ Operands ends results) (hrest : Agrees rest stack) :
    ∃ s', parseEnd env s = .ok s' ∧ Holds B b bs (known results ++ stack) s'.checker ∧
      Leaves frames s s' := by
  subst hblocktype
  obtain ⟨c, hleave, hc⟩ :=
    leaveIfChecker_holds s.isUnreachable _ hparams hresults hmissing h hends hrest
  unfold parseEnd
  rw [hframes]
  simp only [hkind]
  unfold leaveIf
  simp only [isUnreachable, patchIf_checker, patchIf_unreachable, pushInstructionMeta_checker,
    pushInstructionMeta_unreachable, forcePush_checker, forcePush_unreachable, pushDsl_checker,
    pushDsl_unreachable] at hleave ⊢
  rw [hleave, Lib.ok_bind]
  exact ⟨_, rfl, hc, by simp, by simp⟩

/-- An `else` whose code is live reopens the `if` and is remembered by its frame. -/
theorem parseElse_live {frame : Frame} {frames : List Frame} (hframes : s.frames = frame :: frames)
    (hkind : frame.kind = .if_) (hlive : s.genLeaveBlock.isUnreachable = false)
    (hparams : blocktype.params env.types = some params)
    (hresults : blocktype.results env.types = some results)
    (h : Holds B ⟨.if_, blocktype, B.length⟩ bs ends s.checker) (hends : Operands ends results) :
    ∃ s', parseElse env s = .ok s' ∧
      Holds B ⟨.if_, blocktype, B.length⟩ bs (known params) s'.checker ∧
        (∃ addr, s'.frames = { frame with elseAddr := some addr } :: frames) ∧
          s'.unreachable.tail = s.unreachable.tail := by
  obtain ⟨c, helse, hc⟩ := elseChecker_holds s.isUnreachable rfl hparams hresults h hends
  have hagain : s.genLeaveBlock.genEnterBlock.isUnreachable = false := hlive
  unfold parseElse
  simp only [hagain, Bool.false_eq_true, if_false, pushSlot_checker, pushDsl_checker,
    genEnterBlock_checker, genLeaveBlock_checker, helse, Lib.ok_bind]
  exact ⟨_, rfl, hc, ⟨_, by simp [hframes, setElseAddr, hkind]; rfl⟩, by simp⟩

/-- An `else` whose code is dead only starts a branch of the generator. -/
theorem parseElse_dead (hdead : s.genLeaveBlock.isUnreachable = true) :
    parseElse env s = .ok s.genLeaveBlock.genEnterBlock := by
  have hagain : s.genLeaveBlock.genEnterBlock.isUnreachable = true := hdead
  unfold parseElse
  simp only [hagain, if_true]
  rfl

end Blocks

end Telomere.Parser
