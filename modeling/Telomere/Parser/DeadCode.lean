import Telomere.Parser.ReadInstructions

/-!
# Valid bodies in dead code

A tail call sets a marker and no flag, so what needs the byte size of an operand then fails on the
marker. With the flag of the enclosing block set, `else` leaves the checker as it is, so the second
branch starts with what the first one left.
-/

namespace Telomere.Parser

open TypeChecker State

/-- Before each instruction of a sequence, this holds of the state in which it is read. -/
def BeforeEach (env : Env) (P : State → Inst → Prop) (s : State) (insts : List Inst) : Prop :=
  ∀ pre inst post s', insts = pre ++ inst :: post → parseInstrs env s pre = .ok s' → P s' inst

def SizesKnown (env : Env) (body : List Inst) : Prop :=
  BeforeEach env SizesKnownAt (.initial env) body

def BranchesKnown (env : Env) (body : List Inst) : Prop :=
  BeforeEach env (BranchKnownAt env) (.initial env) body

namespace BeforeEach

variable {env : Env} {P Q : State → Inst → Prop} {s s' : State} {inst : Inst}
  {insts first second : List Inst}

theorem head (h : BeforeEach env P s (inst :: insts)) : P s inst :=
  h [] inst insts s rfl rfl

theorem left (h : BeforeEach env P s (first ++ second)) : BeforeEach env P s first := by
  intro pre inst post s' heq hpre
  exact h pre inst (post ++ second) s' (by simp [heq]) hpre

theorem right (h : BeforeEach env P s (first ++ second))
    (hfirst : parseInstrs env s first = .ok s') : BeforeEach env P s' second := by
  intro pre inst post s'' heq hpre
  exact h (first ++ pre) inst post s'' (by simp [heq]) (parseInstrs_append.mpr ⟨s', hfirst, hpre⟩)

theorem tail (h : BeforeEach env P s (inst :: insts)) (hinst : parseInst env s inst = .ok s') :
    BeforeEach env P s' insts := by
  have hsingle : parseInstrs env s [inst] = .ok s' := Lib.bind_eq_ok.mpr ⟨s', hinst, rfl⟩
  have happend : BeforeEach env P s ([inst] ++ insts) := h
  exact happend.right hsingle

theorem and (h : BeforeEach env P s insts) (h' : BeforeEach env Q s insts) :
    BeforeEach env (fun s inst => P s inst ∧ Q s inst) s insts :=
  fun pre inst post s' heq hpre => ⟨h pre inst post s' heq hpre, h' pre inst post s' heq hpre⟩

end BeforeEach

/-- Instructions that are read, with what they leave, wherever such operands and labels are
given. -/
def Reads (env : Env) (depth : Nat) (labels : List (List ValType)) (insts : List Inst)
    (stack stack' : List OpdType) : Prop :=
  ∀ B b bs s, Opened env labels B b bs → Holds B b bs stack s.checker →
    s.frames.length + depth ≤ maxControlNestingDepth →
      BeforeEach env (fun s inst => SizesKnownAt s inst ∧ BranchKnownAt env s inst) s insts →
        Goes B b bs stack' s (parseInstrs env s insts)

section Sequences

variable {env : Env} {depth : Nat} {labels : List (List ValType)} {blocktype : BlockType}
  {params results : List ValType} {first second body : List Inst}
  {operands ends ends' stack stack' stack'' : List OpdType} {condition : OpdType}

theorem Reads.nil (stack : List OpdType) : Reads env depth labels [] stack stack :=
  fun _ _ _ s _ hholds _ _ => ⟨s, rfl, hholds, Stays.same rfl rfl⟩

theorem Reads.single {inst : Inst} (hinst : PlainTyped env labels inst stack stack') :
    Reads env depth labels [inst] stack stack' := by
  intro B b bs s hopen hholds _ hknown
  obtain ⟨s', hok, hs', hstays⟩ := parseInst_goes hopen hinst hholds hknown.head.1
  exact ⟨s', Lib.bind_eq_ok.mpr ⟨s', hok, rfl⟩, hs', hstays⟩

theorem Reads.append (hfirst : Reads env depth labels first stack stack')
    (hsecond : Reads env depth labels second stack' stack'') :
    Reads env depth labels (first ++ second) stack stack'' := by
  intro B b bs s hopen hholds hdepth hknown
  obtain ⟨s', hok, hs', hstays⟩ := hfirst B b bs s hopen hholds hdepth hknown.left
  have hdepth' : s'.frames.length + depth ≤ maxControlNestingDepth := by rwa [hstays.frames]
  obtain ⟨s'', hok', hs'', hstays'⟩ := hsecond B b bs s' hopen hs' hdepth' (hknown.right hok)
  exact ⟨s'', parseInstrs_append.mpr ⟨s', hok, hok'⟩, hs'', hstays.trans hstays'⟩

theorem nextControlNestingDepth_ok {n : Nat} (h : n + (depth + 1) ≤ maxControlNestingDepth) :
    nextControlNestingDepth n = .ok (n + 1) := by
  unfold nextControlNestingDepth
  rw [if_neg (by omega)]

/-- A `block` or `loop`, once it has been entered. -/
theorem Reads.closed (kind : BlockKind) {inst : Inst} {types : List ValType} (hkind : kind ≠ .if_)
    (hlabel : ∀ base, labelTypes env ⟨kind, blocktype, base⟩ = some types)
    (henter : ∀ B b bs s, b.base = B.length → Holds B b bs (operands ++ stack) s.checker →
      s.frames.length + (depth + 1) ≤ maxControlNestingDepth → SizesKnownAt s inst →
        ∃ rest s', parseInst env s inst = .ok s' ∧ Agrees rest stack ∧
          Holds (rest ++ B) ⟨kind, blocktype, (rest ++ B).length⟩ (b :: bs) (known params)
            s'.checker ∧ Enters kind blocktype s s')
    (hresults : blocktype.results env.types = some results)
    (hbody : Reads env depth (types :: labels) body (known params) ends)
    (hends : Operands ends results) :
    Reads env (depth + 1) labels (inst :: (body ++ [Inst.end_])) (operands ++ stack)
      (known results ++ stack) := by
  intro B b bs s hopen hholds hdepth hknown
  obtain ⟨rest, s₁, hinst, hrest, hs₁, henters⟩ :=
    henter B b bs s hopen.base hholds hdepth hknown.head.1
  obtain ⟨frame, hframes, hkind', hblocktype, -⟩ := henters.frame
  have hinner := hknown.tail hinst
  have hdepth' : s₁.frames.length + depth ≤ maxControlNestingDepth := by
    rw [hframes, List.length_cons]
    omega
  obtain ⟨s₂, hok, hs₂, hstays⟩ :=
    hbody _ _ _ s₁ (hopen.enter (hlabel _)) hs₁ hdepth' hinner.left
  obtain ⟨s₃, hend, hs₃, hleaves⟩ := parseEnd_goes (hstays.frames.trans hframes)
    (by rwa [hkind']) hblocktype hresults hs₂ hends hrest (hinner.right hok).head.1
  refine ⟨s₃, ?_, hs₃, Stays.same hleaves.frames ?_⟩
  · exact Lib.bind_eq_ok.mpr ⟨s₁, hinst, parseInstrs_append.mpr ⟨s₂, hok,
      Lib.bind_eq_ok.mpr ⟨s₃, hend, rfl⟩⟩⟩
  · rw [hleaves.flags, hstays.outer, henters.flags, List.tail_cons]

theorem Reads.block (hparams : blocktype.params env.types = some params)
    (hresults : blocktype.results env.types = some results) (hoperands : Operands operands params)
    (hbody : Reads env depth (results :: labels) body (known params) ends)
    (hends : Operands ends results) :
    Reads env (depth + 1) labels (.block blocktype :: (body ++ [Inst.end_])) (operands ++ stack)
      (known results ++ stack) := by
  refine Reads.closed .block (by simp) (fun _ => hresults) ?_ hresults hbody hends
  intro B b bs s hbase hholds hdepth _
  obtain ⟨rest, s', henter, hentered⟩ := enterBlock_goes hbase hparams hholds hoperands
  exact ⟨rest, s', Lib.bind_eq_ok.mpr ⟨_, nextControlNestingDepth_ok hdepth, henter⟩, hentered⟩

theorem Reads.loop (hparams : blocktype.params env.types = some params)
    (hresults : blocktype.results env.types = some results) (hoperands : Operands operands params)
    (hbody : Reads env depth (params :: labels) body (known params) ends)
    (hends : Operands ends results) :
    Reads env (depth + 1) labels (.loop blocktype :: (body ++ [Inst.end_])) (operands ++ stack)
      (known results ++ stack) := by
  refine Reads.closed .loop (by simp) (fun _ => hparams) ?_ hresults hbody hends
  intro B b bs s hbase hholds hdepth hknown
  obtain ⟨rest, s', henter, hentered⟩ := enterLoop_goes hbase hparams hholds hoperands hknown
  exact ⟨rest, s', Lib.bind_eq_ok.mpr ⟨_, nextControlNestingDepth_ok hdepth, henter⟩, hentered⟩

theorem Reads.ifOnly (hparams : blocktype.params env.types = some results)
    (hresults : blocktype.results env.types = some results)
    (hcondition : condition.Below (some .i32)) (hoperands : Operands operands results)
    (hbody : Reads env depth (results :: labels) body (known results) ends)
    (hends : Operands ends results) :
    Reads env (depth + 1) labels (.if_ blocktype :: (body ++ [Inst.end_]))
      (condition :: (operands ++ stack)) (known results ++ stack) := by
  intro B b bs s hopen hholds hdepth hknown
  obtain ⟨rest, s₁, henter, hrest, hs₁, henters⟩ :=
    enterIf_goes hopen.base hparams hholds hcondition hoperands
  obtain ⟨frame, hframes, hkind, hblocktype, -⟩ := henters.frame
  have hinst : parseInst env s (.if_ blocktype) = .ok s₁ :=
    Lib.bind_eq_ok.mpr ⟨_, nextControlNestingDepth_ok hdepth, henter⟩
  have hinner := hknown.tail hinst
  have hdepth' : s₁.frames.length + depth ≤ maxControlNestingDepth := by
    rw [hframes, List.length_cons]
    omega
  have hlabel : labelTypes env ⟨.if_, blocktype, (rest ++ B).length⟩ = some results := hresults
  obtain ⟨s₂, hok, hs₂, hstays⟩ := hbody _ _ _ s₁ (hopen.enter hlabel) hs₁ hdepth' hinner.left
  obtain ⟨s₃, hend, hs₃, hleaves⟩ := parseEndIf_goes (hstays.frames.trans hframes) hkind hblocktype
    hparams hresults (.inr (.inr rfl)) hs₂ (.inr hends) hrest
  refine ⟨s₃, ?_, hs₃, Stays.same hleaves.frames ?_⟩
  · exact Lib.bind_eq_ok.mpr ⟨s₁, hinst, parseInstrs_append.mpr ⟨s₂, hok,
      Lib.bind_eq_ok.mpr ⟨s₃, hend, rfl⟩⟩⟩
  · rw [hleaves.flags, hstays.outer, henters.flags, List.tail_cons]

/-- After `else` the branch has the parameters, and nothing else if the frame knows of the `else`;
otherwise the branch is dead. -/
theorem parseElse_goes {B : List MaybeUnreachable} {bs : List Block} {s : State} {frame : Frame}
    {frames : List Frame} (hframes : s.frames = frame :: frames) (hkind : frame.kind = .if_)
    (hparams : blocktype.params env.types = some params)
    (hresults : blocktype.results env.types = some results)
    (h : Holds B ⟨.if_, blocktype, B.length⟩ bs ends s.checker) (hends : Operands ends results)
    (hknown : BranchKnownAt env s .else_) :
    ∃ s' frame' rest, parseElse env s = .ok s' ∧
      Holds B ⟨.if_, blocktype, B.length⟩ bs (known params ++ rest) s'.checker ∧
        s'.frames = frame' :: frames ∧ frame'.kind = .if_ ∧ frame'.blocktype = frame.blocktype ∧
          (frame'.elseAddr.isSome = true ∧ rest = [] ∨ s'.isUnreachable = true) ∧
            s'.unreachable.tail = s.unreachable.tail := by
  by_cases hdead : s.genLeaveBlock.isUnreachable = true
  · obtain ⟨entries, hchecker, -⟩ := h
    obtain ⟨rest, hagrees⟩ :=
      hknown hdead ⟨.if_, blocktype, B.length⟩ params (by rw [hchecker]; rfl) hparams
    refine ⟨_, frame, rest, parseElse_dead hdead, ?_, hframes, hkind, rfl, .inr hdead, rfl⟩
    have habove : s.checker.aboveBase B.length = entries := by
      rw [hchecker]
      exact aboveBase_append (b := ⟨.if_, blocktype, B.length⟩) rfl
    exact ⟨entries, hchecker, habove ▸ hagrees⟩
  · obtain ⟨s', helse, hs', ⟨addr, hframes'⟩, htail⟩ :=
      parseElse_live hframes hkind (by simpa using hdead) hparams hresults h hends
    exact ⟨s', _, [], helse, by simpa using hs', hframes', hkind, rfl, .inl ⟨rfl, rfl⟩, htail⟩

theorem Reads.ifElse (hparams : blocktype.params env.types = some params)
    (hresults : blocktype.results env.types = some results)
    (hcondition : condition.Below (some .i32)) (hoperands : Operands operands params)
    (hfirst : Reads env depth (results :: labels) first (known params) ends)
    (hends : Operands ends results)
    (hsecond : ∀ rest,
      Reads env depth (results :: labels) second (known params ++ rest) (ends' ++ rest))
    (hends' : Operands ends' results) :
    Reads env (depth + 1) labels (.if_ blocktype :: (first ++ Inst.else_ :: (second ++ [.end_])))
      (condition :: (operands ++ stack)) (known results ++ stack) := by
  intro B b bs s hopen hholds hdepth hknown
  obtain ⟨rest, s₁, henter, hrest, hs₁, henters⟩ :=
    enterIf_goes hopen.base hparams hholds hcondition hoperands
  obtain ⟨frame, hframes, hkind, hblocktype, -⟩ := henters.frame
  have hinst : parseInst env s (.if_ blocktype) = .ok s₁ :=
    Lib.bind_eq_ok.mpr ⟨_, nextControlNestingDepth_ok hdepth, henter⟩
  have hinner := hknown.tail hinst
  have hdepth' : s₁.frames.length + depth ≤ maxControlNestingDepth := by
    rw [hframes, List.length_cons]
    omega
  have hlabel : labelTypes env ⟨.if_, blocktype, (rest ++ B).length⟩ = some results := hresults
  obtain ⟨s₂, hok, hs₂, hstays⟩ := hfirst _ _ _ s₁ (hopen.enter hlabel) hs₁ hdepth' hinner.left
  have hbranch := hinner.right hok
  obtain ⟨t, frame', extra, helse, ht, hframes', hkind', hblocktype', hmark, htail⟩ :=
    parseElse_goes (hstays.frames.trans hframes) hkind hparams hresults hs₂ hends hbranch.head.2
  -- The record of the emitted slots changes nothing that matters here.
  let s₃ := t.pushInstructionMeta s₂.instr.length s₂.checker.snapshotStack t.checker.snapshotStack
  have helse' : parseInst env s₂ .else_ = .ok s₃ := Lib.bind_eq_ok.mpr ⟨t, helse, rfl⟩
  have hdepth₃ : s₃.frames.length + depth ≤ maxControlNestingDepth := by
    simp only [s₃, pushInstructionMeta_frames, hframes', List.length_cons]
    omega
  have hsecond' := hbranch.tail helse'
  obtain ⟨s₄, hok', hs₄, hstays'⟩ := hsecond extra _ _ _ s₃ (hopen.enter hlabel)
    (by simpa [s₃] using ht) hdepth₃ hsecond'.left
  have hframes₄ : s₄.frames = frame' :: s.frames := by
    rw [hstays'.frames]
    simpa [s₃] using hframes'
  have hmark' : frame'.elseAddr.isSome = true ∧ extra = [] ∨ s₄.isUnreachable = true := by
    refine hmark.imp_right fun hdead => hstays'.dead ?_
    simpa [s₃, isUnreachable] using hdead
  have hmissing : frame'.elseAddr.isSome = true ∨ s₄.isUnreachable = true ∨ params = results :=
    hmark'.imp And.left .inl
  have hends'' : s₄.isUnreachable = true ∨ Operands (ends' ++ extra) results := by
    rcases hmark' with ⟨-, rfl⟩ | hdead
    · exact .inr (by simpa using hends')
    · exact .inl hdead
  obtain ⟨s₅, hend, hs₅, hleaves⟩ := parseEndIf_goes hframes₄ hkind' (hblocktype'.trans hblocktype)
    hparams hresults hmissing hs₄ hends'' hrest
  refine ⟨s₅, ?_, hs₅, Stays.same hleaves.frames ?_⟩
  · exact Lib.bind_eq_ok.mpr ⟨s₁, hinst, parseInstrs_append.mpr ⟨s₂, hok,
      Lib.bind_eq_ok.mpr ⟨s₃, helse', parseInstrs_append.mpr ⟨s₄, hok',
        Lib.bind_eq_ok.mpr ⟨s₅, hend, rfl⟩⟩⟩⟩⟩
  · have htail₃ : s₃.unreachable.tail = s₂.unreachable.tail := by simpa [s₃] using htail
    rw [hleaves.flags, hstays'.outer, htail₃, hstays.outer, henters.flags, List.tail_cons]

theorem PlainTyped.frame {inst : Inst} (h : PlainTyped env labels inst stack stack')
    (extra : List OpdType) : PlainTyped env labels inst (stack ++ extra) (stack' ++ extra) := by
  cases h <;> try simp only [List.append_assoc, List.cons_append]
  case nop => exact .nop _
  case unreachable => exact .unreachable _ _
  case simple hoperands => exact .simple _ hoperands
  case call hty hoperands => exact .call _ hty hoperands
  case callIndirect htable hty hcallee hoperands =>
      exact .callIndirect _ htable hty hcallee hoperands
  case returnCall hty hresults hoperands => exact .returnCall _ _ hty hresults hoperands
  case returnCallIndirect htable hty hresults hcallee hoperands =>
      exact .returnCallIndirect _ _ htable hty hresults hcallee hoperands
  case br htypes hoperands => exact .br _ _ htypes hoperands
  case brIf htypes hcondition hoperands => exact .brIf _ htypes hcondition hoperands
  case brTable hindex htypes => exact .brTable _ _ hindex htypes
  case return_ hoperands => exact .return_ _ _ hoperands
  case drop => exact .drop _ _
  case select hcondition hsecond hfirst hnumeric =>
      exact .select _ hcondition hsecond hfirst hnumeric
  case selectTyped hcondition hsecond hfirst => exact .selectTyped _ hcondition hsecond hfirst
  case refIsNull href => exact .refIsNull _ href

theorem Typed.reads {insts : List Inst} (h : Typed env depth labels insts stack stack')
    (extra : List OpdType) :
    Reads env depth labels insts (stack ++ extra) (stack' ++ extra) := by
  induction h generalizing extra with
  | nil depth labels stack => exact Reads.nil _
  | plain hinst _ ih => exact (Reads.single (hinst.frame extra)).append (ih extra)
  | block hparams hresults hoperands _ hends _ ihbody ih =>
      have hbody := by simpa using ihbody []
      simpa using (Reads.block hparams hresults hoperands hbody hends).append
        (by simpa using ih extra)
  | loop hparams hresults hoperands _ hends _ ihbody ih =>
      have hbody := by simpa using ihbody []
      simpa using (Reads.loop hparams hresults hoperands hbody hends).append
        (by simpa using ih extra)
  | ifElse hparams hresults hcondition hoperands _ hends _ hends' _ ihfirst ihsecond ih =>
      have hfirst := by simpa using ihfirst []
      simpa using (Reads.ifElse hparams hresults hcondition hoperands hfirst hends ihsecond
        hends').append (by simpa using ih extra)
  | ifOnly hparams hresults hcondition hoperands _ hends _ ihbody ih =>
      have hbody := by simpa using ihbody []
      simpa using (Reads.ifOnly hparams hresults hcondition hoperands hbody hends).append
        (by simpa using ih extra)

end Sequences

section Bodies

variable {env : Env} {body : List Inst} {s s' : State}

theorem initial_holds (env : Env) :
    Holds [] ⟨.block, .typeIdx env.typeidx, 0⟩ [] [] (State.initial env).checker :=
  ⟨[], rfl, .nil⟩

theorem initial_opened (htype : getType env env.typeidx = .ok env.functype) :
    Opened env [env.functype.results] [] ⟨.block, .typeIdx env.typeidx, 0⟩ [] := by
  refine ⟨rfl, fun idx types hidx => ?_⟩
  cases idx with
  | zero =>
      obtain rfl : env.functype.results = types := by simpa using hidx
      refine ⟨_, rfl, ?_⟩
      simp [labelTypes, BlockType.results, getType_ok htype]
  | succ idx => simp at hidx

theorem finish_ok {ends : List OpdType}
    (h : Holds [] ⟨.block, .typeIdx env.typeidx, 0⟩ [] ends s.checker)
    (hends : Operands ends env.functype.results) (hframes : s.frames = []) :
    ∃ final, finish env s = .ok final := by
  have happend : Holds [] ⟨.block, .typeIdx env.typeidx, 0⟩ [] (ends ++ []) s.checker := by
    simpa using h
  obtain ⟨c, hop, hc⟩ := happend.op rfl hends []
  unfold finish
  rw [hframes]
  simp only [pushInstructionMeta_checker, forcePush_checker, pushDsl_checker, hop,
    hc.leaveBlock rfl, Lib.ok_bind]
  exact ⟨_, rfl⟩

/-- A valid body is accepted when the sizes that the generator needs are known and dead branches
start with their parameters. -/
theorem ValidBody.accepted (hvalid : ValidBody env body) (hsizes : SizesKnown env body)
    (hbranches : BranchesKnown env body) : ∃ final, parseCode env body = .ok final := by
  obtain ⟨htype, ends, htyped, hends⟩ := hvalid
  obtain ⟨s, hok, hs, hstays⟩ := htyped.reads [] [] _ [] _ (initial_opened htype)
    (initial_holds env) (by simp [State.initial]) (hsizes.and hbranches)
  obtain ⟨final, hfinish⟩ := finish_ok (by simpa using hs) hends hstays.frames
  exact ⟨final, Lib.bind_eq_ok.mpr ⟨s, hok, hfinish⟩⟩

theorem popExpect_noMarker {c c' : TypeChecker} {ty : ValType} (h : c.popExpect ty = .ok c')
    (hconcrete : NoMarker c'.types) : NoMarker c.types := by
  obtain ⟨⟨v, d⟩, hpop, h⟩ := Lib.bind_eq_ok.mp h
  obtain ⟨b, bs, rest, -, htypes, -, rfl⟩ := pop_ok hpop
  cases v with
  | normal actual =>
      obtain ⟨-, -, h⟩ := Lib.bind_eq_ok.mp h
      obtain rfl := Lib.pure_eq_ok.mp h
      rw [htypes]
      exact noMarker_append.mpr ⟨noMarker_map [actual], hconcrete⟩
  | unreachable any =>
      obtain rfl := Lib.pure_eq_ok.mp h
      obtain ⟨ty, hty⟩ := hconcrete (.unreachable false) (by simp [isMarker])
      cases hty

theorem popAll_noMarker {c c' : TypeChecker} {types : List ValType} (h : c.popAll types = .ok c')
    (hconcrete : NoMarker c'.types) : NoMarker c.types := by
  induction types generalizing c with
  | nil =>
      obtain rfl := Except.ok.inj h
      exact hconcrete
  | cons ty types ih =>
      obtain ⟨d, hpop, h⟩ := Lib.bind_eq_ok.mp h
      exact popExpect_noMarker hpop (ih h)

theorem blockBaseStackSize_noMarker {c : TypeChecker} {base bytes : Nat}
    (hsize : c.blockBaseStackSize = .ok bytes) (hbase : c.blockBase = .ok base) :
    NoMarker (below base c.types) := by
  obtain ⟨base', hbase', hbytes⟩ := Lib.bind_eq_ok.mp hsize
  obtain rfl := Except.ok.inj (hbase.symm.trans hbase')
  exact concreteBytes_ok_iff.mp ⟨bytes, hbytes⟩

/-- What is under an entered block has a marker when the stack before it has one. -/
theorem enterChecker_noMarker {c c' : TypeChecker} {kind : BlockKind} {blocktype : BlockType}
    (h : enterChecker env c kind blocktype = .ok c') :
    ∃ base, c'.blockBase = .ok base ∧ (NoMarker (below base c'.types) → NoMarker c.types) := by
  cases blocktype with
  | void | valType =>
      obtain rfl := Except.ok.inj h
      refine ⟨c.types.length, rfl, fun hbelow => ?_⟩
      exact below_self c.types ▸ hbelow
  | typeIdx idx =>
      obtain ⟨ty, -, h⟩ := Lib.bind_eq_ok.mp h
      obtain ⟨d, hop, h⟩ := Lib.bind_eq_ok.mp h
      obtain ⟨e, hpop, hd⟩ := Lib.bind_eq_ok.mp hop
      obtain rfl : e = d := Lib.pure_eq_ok.mp hd
      rw [op_push] at h
      obtain rfl := Except.ok.inj h
      refine ⟨e.types.length, rfl, fun hbelow => popAll_noMarker hpop ?_⟩
      have hsame : below e.types.length (ty.params.reverse.map .normal ++ e.types) = e.types :=
        (below_append _ _ (Nat.le_refl _)).trans (below_self e.types)
      exact hsame ▸ hbelow

theorem marker_stays {c d e : TypeChecker} {any : Bool} {v : MaybeUnreachable}
    (hpop : c.pop = .ok (.unreachable any, d)) (hagain : d.pop = .ok (v, e)) :
    v = .unreachable false := by
  obtain ⟨b, bs, rest, -, -, -, rfl⟩ := pop_ok hpop
  obtain ⟨b', bs', rest', -, htypes, -, -⟩ := pop_ok hagain
  exact (List.cons.inj htypes).1.symm

theorem parseEnd_emitted {frame : Frame} {frames : List Frame} (hok : parseEnd env s = .ok s')
    (hframes : s.frames = frame :: frames) (hkind : frame.kind ≠ .if_) :
    ∃ t u, emitBlockReturn env t frame.blocktype = .ok u ∧ t.checker = s.checker ∧
      t.isUnreachable = s.genLeaveBlock.isUnreachable := by
  unfold parseEnd at hok
  rw [hframes] at hok
  dsimp only at hok
  split at hok
  · next h => exact absurd h hkind
  · obtain ⟨u, hemit, -⟩ := Lib.bind_eq_ok.mp hok
    exact ⟨_, u, hemit, by simp, by simp [isUnreachable]⟩

theorem parseInst_sizesKnown {inst : Inst} (hok : parseInst env s inst = .ok s') :
    SizesKnownAt s inst := by
  cases inst <;> try trivial
  case loop blocktype =>
      obtain ⟨-, -, hok⟩ := Lib.bind_eq_ok.mp hok
      obtain ⟨c, henter, hok⟩ := Lib.bind_eq_ok.mp hok
      obtain ⟨t, hemit, -⟩ := Lib.bind_eq_ok.mp hok
      obtain ⟨base, hbase, hconcrete⟩ := enterChecker_noMarker henter
      unfold emitLoopParam at hemit
      split at hemit
      · next hdead => exact .inl (by simpa [isUnreachable] using hdead)
      · obtain ⟨bytes, hbytes, -⟩ := Lib.bind_eq_ok.mp hemit
        refine .inr (hconcrete (blockBaseStackSize_noMarker (by simpa using hbytes) hbase))
  case end_ =>
      intro frame frames hframes hkind
      obtain ⟨t, u, hemit, hchecker, hflag⟩ := parseEnd_emitted hok hframes hkind
      unfold emitBlockReturn at hemit
      rw [hchecker, hflag] at hemit
      split at hemit
      · next hdead => exact .inl hdead
      · obtain ⟨bytes, hbytes, -⟩ := Lib.bind_eq_ok.mp hemit
        exact .inr fun base hbase => blockBaseStackSize_noMarker hbytes hbase
  case select =>
      obtain ⟨t, hok, -⟩ := Lib.bind_eq_ok.mp hok
      obtain ⟨c, hop, hok⟩ := Lib.bind_eq_ok.mp hok
      obtain ⟨⟨v, d⟩, hpop, hok⟩ := Lib.bind_eq_ok.mp hok
      by_cases hdead : s.isUnreachable = true
      · exact .inl hdead
      refine .inr fun c' v' d' hop' hpop' => ?_
      obtain rfl := Except.ok.inj (hop.symm.trans hop')
      obtain ⟨rfl, rfl⟩ := Prod.mk.inj (Except.ok.inj (hpop.symm.trans hpop'))
      cases v with
      | normal ty => rfl
      | unreachable any =>
          -- The marker stays, so the first operand is unknown as well.
          obtain ⟨⟨w, e⟩, hagain, hok⟩ := Lib.bind_eq_ok.mp hok
          obtain rfl := marker_stays hpop hagain
          dsimp only at hok
          rw [if_neg hdead] at hok
          cases hok

/-- The sizes are known in every body that is accepted, and a valid body is accepted when they are and
the branches are known as well. -/
theorem validBody_accepted_when (hvalid : ValidBody env body) :
    (SizesKnown env body ∧ BranchesKnown env body → ∃ final, parseCode env body = .ok final) ∧
      ((∃ final, parseCode env body = .ok final) → SizesKnown env body) := by
  constructor
  · rintro ⟨hsizes, hbranches⟩
    exact hvalid.accepted hsizes hbranches
  · rintro ⟨final, hok⟩ pre inst post s heq hpre
    obtain ⟨s', hbody, -⟩ := Lib.bind_eq_ok.mp hok
    rw [heq] at hbody
    obtain ⟨t, hpre', hrest⟩ := parseInstrs_append.mp hbody
    obtain rfl := Except.ok.inj (hpre.symm.trans hpre')
    obtain ⟨u, hinst, -⟩ := Lib.bind_eq_ok.mp hrest
    exact parseInst_sizesKnown hinst

end Bodies

def deadCodeEnv : Env :=
  ⟨[⟨[], []⟩, ⟨[.i32], []⟩], [0], 0, 0, ⟨[], []⟩, []⟩

/-- An empty block after `unreachable`. -/
def deadBlockBody : List Inst := [.unreachable, .block .void, .end_]

def tailCallBlockBody : List Inst := [.returnCall 0, .block .void, .end_]

/-- An `if` that drops its parameter in both branches, after `unreachable`. -/
def deadElseBody : List Inst := [.unreachable, .if_ (.typeIdx 1), .drop, .else_, .drop, .end_]

private theorem emptyBlock_typed (stack : List OpdType) :
    Typed deadCodeEnv maxControlNestingDepth [[]] [.block .void, .end_] stack stack := by
  have hempty : Operands [] [] := .nil
  have hinner : Typed deadCodeEnv 511 [[], []] [] (known []) [] := .nil _ _ _
  have hafter : Typed deadCodeEnv 512 [[]] [] (known [] ++ stack) stack := .nil _ _ _
  exact .block rfl rfl hempty hinner hempty hafter

private theorem deadElse_typed :
    Typed deadCodeEnv maxControlNestingDepth [[]] deadElseBody.tail [some .i32, some .i32] [] := by
  have hone : Operands [some .i32] [.i32] := operands_known [.i32]
  have hempty : Operands [] [] := .nil
  have hdrop : Typed deadCodeEnv 511 [[], []] [.drop] (known [.i32]) [] :=
    .plain (.drop _ _) (.nil _ _ _)
  have hafter : Typed deadCodeEnv 512 [[]] [] (known [] ++ []) [] := .nil _ _ _
  exact .ifElse rfl rfl (.inr rfl) hone hdrop hempty hdrop hempty hafter

theorem validBody_accepted_when_deadBlock :
    (SizesKnown deadCodeEnv deadBlockBody ∧ BranchesKnown deadCodeEnv deadBlockBody →
        ∃ final, parseCode deadCodeEnv deadBlockBody = .ok final) ∧
      ((∃ final, parseCode deadCodeEnv deadBlockBody = .ok final) →
        SizesKnown deadCodeEnv deadBlockBody) :=
  validBody_accepted_when ⟨rfl, [], .plain (.unreachable _ _) (emptyBlock_typed []), .nil⟩

/-- The block after a tail call, and the `else` in dead code. -/
theorem deadCode_rejected :
    (ValidBody deadCodeEnv tailCallBlockBody ∧
        ¬∃ final, parseCode deadCodeEnv tailCallBlockBody = .ok final) ∧
      ValidBody deadCodeEnv deadElseBody ∧
        ¬∃ final, parseCode deadCodeEnv deadElseBody = .ok final := by
  refine ⟨⟨⟨rfl, [], ?_, .nil⟩, ?_⟩, ⟨rfl, [], ?_, .nil⟩, ?_⟩
  · have hcall : PlainTyped deadCodeEnv [[]] (.returnCall 0) [] [] :=
      @PlainTyped.returnCall deadCodeEnv [[]] 0 ⟨[], []⟩ [] [] [] rfl rfl .nil
    exact .plain hcall (emptyBlock_typed [])
  · rintro ⟨final, hok⟩
    cases hok
  · exact .plain (.unreachable _ _) deadElse_typed
  · rintro ⟨final, hok⟩
    cases hok

end Telomere.Parser
