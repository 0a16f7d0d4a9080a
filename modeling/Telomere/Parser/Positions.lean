import Telomere.Lib.Nesting
import Telomere.Parser.Layout

/-!
# Positions in an accepted body

The parser's state before each instruction of an accepted body, the code address at which the
instruction's slots begin, and the frames the parser records: they are pushed and popped with the
blocks.
-/

namespace Telomere.Parser

open TypeChecker State Lib

/-- The state before instruction `n`. -/
def stateAt (env : Env) (body : List Inst) (n : Nat) : State :=
  (parseInstrs env (.initial env) (body.take n)).toOption.getD (.initial env)

/-- The address of the first slot emitted for instruction `n`. -/
def pcOf (env : Env) (body : List Inst) (n : Nat) : Nat :=
  (stateAt env body n).instr.length

def flagsAt (body : List Inst) (n : Nat) : List Bool :=
  reachFlags (body.take n)

def nestAt (body : List Inst) (n : Nat) : Nest :=
  match body[n]?.map shape with
  | some (.enter _ _) => .push
  | some .end_ => .pop
  | _ => .keep

/-- Closing a block and opening another one in its place keeps its base. -/
private theorem blocks_reopens {kind : BlockKind} {blocktype : BlockType} {c c' : TypeChecker}
    (h : Reopens kind blocktype c c') (hbase : BaseOk c) {b : Block}
    (hcurrent : c.blocks.head? = some b) :
    c'.blocks = ⟨kind, blocktype, b.base⟩ :: c.blocks.tail := by
  obtain ⟨d, e, hkeeps, hleave, hinner⟩ := h
  obtain ⟨b', bs, hblocks, rfl⟩ := leaveBlock_ok hleave
  have hd := hkeeps.base hbase b' (by rw [hblocks]; rfl)
  rw [← hkeeps.blocks, hblocks] at hcurrent ⊢
  obtain rfl := Option.some.inj hcurrent
  rw [hinner.blocks]
  simp [TypeChecker.enterBlock, below_length hd]

private theorem leftFrom_blocks {c c' : TypeChecker} (h : LeftFrom c c') :
    c'.blocks.tail = c.blocks.tail := by
  obtain hkeeps | ⟨kind, blocktype, d, e, hkeeps, hleave, hinner⟩ := h
  · rw [hkeeps.blocks]
  · obtain ⟨b, bs, hblocks, rfl⟩ := leaveBlock_ok hleave
    rw [hinner.blocks, ← hkeeps.blocks, hblocks]
    rfl

section Steps

variable {s s' : State} {live : List Bool} {shape : Shape}

def BlocksStep (before after : List Block) : Shape → Prop
  | .enter kind blocktype => ∃ base, after = ⟨kind, blocktype, base⟩ :: before
  | .end_ => after = before.tail
  | _ => after = before

theorem BlockStep.blocks (h : BlockStep s s' shape) (hlive : Live s live) :
    BlocksStep s.checker.blocks s'.checker.blocks shape := by
  have hbase := hlive.stack.baseOk
  cases h with
  | work hkeeps _ => exact hkeeps.blocks
  | transfer hkeeps hchecker _ =>
      change s'.checker.blocks = _
      rw [hchecker]
      exact hkeeps.blocks
  | @enter c kind blocktype hkeeps hinner _ =>
      refine ⟨c.types.length, ?_⟩
      rw [hinner.blocks, ← hkeeps.blocks]
      rfl
  | deadElse _ hchecker _ =>
      change s'.checker.blocks = _
      rw [hchecker]
  | reopen _ hcurrent _ hreopens _ =>
      change s'.checker.blocks = _
      rw [blocks_reopens hreopens hbase hcurrent]
      cases hblocks : s.checker.blocks with
      | nil => simp [hblocks] at hcurrent
      | cons b bs =>
          rw [hblocks] at hcurrent
          obtain rfl := Option.some.inj hcurrent
          rfl
  | leave hleft hleave hkeeps _ =>
      obtain ⟨b, bs, hblocks, rfl⟩ := leaveBlock_ok hleave
      change s'.checker.blocks = _
      rw [hkeeps.blocks, ← leftFrom_blocks hleft, hblocks]
      rfl

end Steps

def Frame.sig (frame : Frame) : BlockKind × BlockType :=
  (frame.kind, frame.blocktype)

/-- The pending calls are the open blocks without that of the function. -/
def FramesMatch (env : Env) (s : State) : Prop :=
  s.checker.blocks.map (fun b => (b.kind, b.blocktype)) =
    s.frames.map Frame.sig ++ [(BlockKind.block, BlockType.typeIdx env.typeidx)]

section Frames

variable {env : Env} {s s' : State} {live : List Bool} {inst : Inst}

/-- An accepted `else` of a reachable `if` sets the address of the innermost frame. -/
theorem setElseAddr_head {current : Block} (hmatch : FramesMatch env s)
    (hcurrent : s.checker.blocks.head? = some current) (hkind : current.kind = .if_) (addr : Nat) :
    ∃ frame rest, s.frames = frame :: rest ∧ frame.kind = .if_ ∧
      setElseAddr addr s.frames = { frame with elseAddr := some addr } :: rest := by
  unfold FramesMatch at hmatch
  cases hblocks : s.checker.blocks with
  | nil => simp [hblocks] at hcurrent
  | cons b bs =>
      rw [hblocks] at hcurrent hmatch
      obtain rfl : b = current := Option.some.inj hcurrent
      cases hframes : s.frames with
      | nil => simp [hframes, hkind] at hmatch
      | cons frame rest =>
          rw [hframes] at hmatch
          have hsig : frame.kind = .if_ := by
            have h := congrArg List.head? hmatch
            simp only [List.map_cons, List.head?_cons, List.cons_append, Option.some.injEq,
              Frame.sig, Prod.mk.injEq] at h
            rw [← h.1]
            exact hkind
          exact ⟨frame, rest, rfl, hsig, by simp [setElseAddr, hsig]⟩

inductive FramesStep (s s' : State) : Shape → Prop where
  | work : s'.frames = s.frames → FramesStep s s' .work
  | transfer : s'.frames = s.frames → FramesStep s s' .transfer
  | enter {frame : Frame} {kind : BlockKind} {blocktype : BlockType} :
      s'.frames = frame :: s.frames → frame.sig = (kind, blocktype) → frame.elseAddr = none →
      FramesStep s s' (.enter kind blocktype)
  | deadElse : s.unreachable.tail.headD false = true → s'.frames = s.frames →
      FramesStep s s' .else_
  | else_ {frame : Frame} {rest : List Frame} : s.unreachable.tail.headD false = false →
      s.frames = frame :: rest → frame.kind = .if_ →
      s'.frames = { frame with elseAddr := some (s.instr.length + 2) } :: rest →
      FramesStep s s' .else_
  | end_ {frame : Frame} : s.frames = frame :: s'.frames → FramesStep s s' .end_

theorem parseInst_frames (hok : parseInst env s inst = .ok s') (hmatch : FramesMatch env s) :
    FramesStep s s' (shape inst) := by
  cases hshape : shape inst with
  | work =>
      obtain ⟨t, ht, hsame, _⟩ := parseInst_plain hok (Or.inl hshape)
      obtain ⟨slots, dsls, hemits, _⟩ := parsePlain_emits ht (Or.inl hshape)
      exact .work (hsame.frames.trans hemits.frames)
  | transfer =>
      obtain ⟨t, ht, hsame, _⟩ := parseInst_plain hok (Or.inr (Or.inl hshape))
      obtain ⟨slots, dsls, hemits, _⟩ := parsePlain_emits ht (Or.inr hshape)
      exact .transfer (hsame.frames.trans hemits.frames)
  | else_ =>
      obtain rfl : inst = .else_ := by cases inst <;> first | rfl | cases hshape
      obtain ⟨t, ht, hsame, _⟩ := parseInst_plain hok (by simp [shape])
      obtain ⟨hdead, hlive⟩ := parseElse_layout ht
      have hstep := parseInst_step hok
      cases hstep with
      | deadElse hflag _ _ => exact .deadElse hflag (hsame.frames.trans (hdead hflag).1)
      | reopen hflag hcurrent hkind _ _ =>
          obtain ⟨frame, rest, hframes, hif, hset⟩ :=
            setElseAddr_head hmatch hcurrent hkind (s.instr.length + 2)
          refine .else_ hflag hframes hif ?_
          rw [hsame.frames, (hlive hflag).1, hset]
  | end_ =>
      obtain rfl : inst = .end_ := by cases inst <;> first | rfl | cases hshape
      obtain ⟨frame, hend⟩ := parseEnd_layout hok
      exact .end_ hend.frames
  | enter kind blocktype =>
      cases inst <;> cases hshape
      all_goals obtain ⟨_, _, hok⟩ := Lib.bind_eq_ok.mp hok
      · exact .enter (enterBlock_layout hok).1 rfl rfl
      · exact .enter (enterLoop_layout hok).1 rfl rfl
      · exact .enter (enterIf_layout hok).1 rfl rfl

theorem parseInst_framesMatch (hok : parseInst env s inst = .ok s') (hmatch : FramesMatch env s)
    (hlive : Live s live) : FramesMatch env s' := by
  have hblocks := (parseInst_step hok).blocks hlive
  have hframes := parseInst_frames hok hmatch
  unfold FramesMatch at hmatch ⊢
  cases hshape : shape inst with
  | work | transfer =>
      rw [hshape] at hblocks hframes
      have hsame : s'.frames = s.frames := by cases hframes; assumption
      rw [hsame, show s'.checker.blocks = s.checker.blocks from hblocks]
      exact hmatch
  | else_ =>
      rw [hshape] at hblocks hframes
      rw [show s'.checker.blocks = s.checker.blocks from hblocks, hmatch]
      cases hframes with
      | deadElse _ hsame => rw [hsame]
      | else_ _ hbefore _ hafter =>
          rw [hbefore, hafter]
          rfl
  | end_ =>
      rw [hshape] at hblocks hframes
      rw [show s'.checker.blocks = s.checker.blocks.tail from hblocks, List.map_tail, hmatch]
      cases hframes with
      | end_ hbefore =>
          rw [hbefore]
          rfl
  | enter kind blocktype =>
      rw [hshape] at hblocks hframes
      obtain ⟨base, hcons⟩ := hblocks
      rw [hcons, List.map_cons, hmatch]
      cases hframes with
      | enter hafter hsig _ =>
          rw [hafter, List.map_cons, hsig]
          rfl

end Frames

theorem initial_framesMatch (env : Env) : FramesMatch env (.initial env) := rfl

theorem initial_bounded (env : Env) : Bounded (.initial env) := by
  constructor
  · intro dsl hdsl slot hslot
    obtain rfl : dsl = .enterForwardJumpBlock := by simpa [State.initial] using hdsl
    cases hslot
  · intro p hp
    cases hp

section Accepted

variable {env : Env} {body : List Inst} {final : State}

private theorem stateAt_ok (hok : parseCode env body = .ok final) (n : Nat) :
    parseInstrs env (.initial env) (body.take n) = .ok (stateAt env body n) := by
  obtain ⟨s, hbody, _⟩ := Lib.bind_eq_ok.mp hok
  rw [← List.take_append_drop n body] at hbody
  obtain ⟨t, ht, _⟩ := parseInstrs_append.mp hbody
  unfold stateAt
  rw [ht]
  rfl

theorem stateAt_zero (env : Env) (body : List Inst) : stateAt env body 0 = .initial env := rfl

theorem stateAt_step (hok : parseCode env body = .ok final) {n : Nat} {inst : Inst}
    (hn : body[n]? = some inst) :
    parseInst env (stateAt env body n) inst = .ok (stateAt env body (n + 1)) := by
  have hnext := stateAt_ok hok (n + 1)
  rw [List.take_add_one, hn] at hnext
  obtain ⟨t, ht, hinst⟩ := parseInstrs_append.mp hnext
  obtain rfl := Except.ok.inj ((stateAt_ok hok n).symm.trans ht)
  obtain ⟨u, hu, hrest⟩ := Lib.bind_eq_ok.mp hinst
  rw [hu, Except.ok.inj hrest]

theorem stateAt_finish (hok : parseCode env body = .ok final) :
    finish env (stateAt env body body.length) = .ok final := by
  have hlast := stateAt_ok hok body.length
  rw [List.take_length] at hlast
  obtain ⟨s, hbody, hfinish⟩ := Lib.bind_eq_ok.mp hok
  obtain rfl := Except.ok.inj (hbody.symm.trans hlast)
  exact hfinish

theorem stateAt_live (hok : parseCode env body = .ok final) (n : Nat) :
    Live (stateAt env body n) (flagsAt body n) :=
  parseInstrs_live (stateAt_ok hok n) (initial_live env)

theorem stateAt_framesMatch (hok : parseCode env body = .ok final) {n : Nat}
    (hle : n ≤ body.length) : FramesMatch env (stateAt env body n) := by
  induction n with
  | zero => exact initial_framesMatch env
  | succ n ih =>
      have hn : body[n]? = some (body[n]) := List.getElem?_eq_getElem (by omega)
      exact parseInst_framesMatch (stateAt_step hok hn) (ih (by omega)) (stateAt_live hok n)

/-- The instruction at a position of the body, with the step the parser makes there. -/
theorem exists_step (hok : parseCode env body = .ok final) {n : Nat} (hn : n < body.length) :
    ∃ inst, body[n]? = some inst ∧
      parseInst env (stateAt env body n) inst = .ok (stateAt env body (n + 1)) := by
  have hget : body[n]? = some (body[n]) := List.getElem?_eq_getElem hn
  exact ⟨body[n], hget, stateAt_step hok hget⟩

theorem nestAt_eq {n : Nat} {inst : Inst} (hn : body[n]? = some inst) :
    nestAt body n = match shape inst with
      | .enter _ _ => .push
      | .end_ => .pop
      | _ => .keep := by
  unfold nestAt
  rw [hn]
  cases inst <;> rfl

theorem frames_follows (hok : parseCode env body = .ok final) :
    Follows (nestAt body) body.length fun n => (stateAt env body n).frames := by
  intro n hn
  obtain ⟨inst, hget, hinst⟩ := exists_step hok hn
  have hframes := parseInst_frames hinst (stateAt_framesMatch hok (Nat.le_of_lt hn))
  rw [nestAt_eq hget]
  cases hshape : shape inst with
  | work | transfer =>
      rw [hshape] at hframes
      have hsame : (stateAt env body (n + 1)).frames = (stateAt env body n).frames := by
        cases hframes; assumption
      simp only [hsame]
  | else_ =>
      rw [hshape] at hframes
      cases hframes with
      | deadElse _ hsame => simp only [hsame]
      | else_ _ hbefore _ hafter => simp only [hbefore, hafter, List.tail_cons]
  | end_ =>
      rw [hshape] at hframes
      cases hframes with
      | end_ hbefore => simp only [hbefore, List.tail_cons]
  | enter kind blocktype =>
      rw [hshape] at hframes
      cases hframes with
      | enter hafter _ _ => simp only [hafter, List.tail_cons]

/-- Everything about a frame but its `else_addr`. -/
def Frame.core (frame : Frame) : Frame :=
  { frame with elseAddr := none }

theorem cores_follow (hok : parseCode env body = .ok final) :
    FollowsExactly (nestAt body) body.length
      fun n => (stateAt env body n).frames.map Frame.core := by
  intro n hn
  obtain ⟨inst, hget, hinst⟩ := exists_step hok hn
  have hframes := parseInst_frames hinst (stateAt_framesMatch hok (Nat.le_of_lt hn))
  rw [nestAt_eq hget]
  cases hshape : shape inst with
  | work | transfer =>
      rw [hshape] at hframes
      have hsame : (stateAt env body (n + 1)).frames = (stateAt env body n).frames := by
        cases hframes; assumption
      simp only [hsame]
  | else_ =>
      rw [hshape] at hframes
      cases hframes with
      | deadElse _ hsame => simp only [hsame]
      | else_ _ hbefore _ hafter =>
          simp only [hbefore, hafter, List.map_cons]
          rfl
  | end_ =>
      rw [hshape] at hframes
      cases hframes with
      | end_ hbefore => simp only [hbefore, List.map_cons, List.tail_cons]
  | enter kind blocktype =>
      rw [hshape] at hframes
      cases hframes with
      | enter hafter _ _ => simp only [hafter, List.map_cons, List.tail_cons]

theorem frames_length (hok : parseCode env body = .ok final) {n : Nat} (hle : n ≤ body.length) :
    (stateAt env body n).frames.length = (opensAt (nestAt body) n).length := by
  induction n with
  | zero => rfl
  | succ n ih =>
      have hlt : n < body.length := by omega
      have hstep := frames_follows hok n hlt
      have hlen := ih (by omega)
      obtain ⟨inst, hget, hinst⟩ := exists_step hok hlt
      have hframes := parseInst_frames hinst (stateAt_framesMatch hok (Nat.le_of_lt hlt))
      have hnest := nestAt_eq hget
      cases hshape : shape inst with
      | work | transfer =>
          rw [hshape] at hframes hnest
          have hsame : (stateAt env body (n + 1)).frames = (stateAt env body n).frames := by
            cases hframes; assumption
          rw [hsame, opensAt_keep hnest, hlen]
      | else_ =>
          rw [hshape] at hframes hnest
          rw [opensAt_keep hnest, ← hlen]
          cases hframes with
          | deadElse _ hsame => rw [hsame]
          | else_ _ hbefore _ hafter => rw [hbefore, hafter]; rfl
      | end_ =>
          rw [hshape] at hframes hnest
          rw [opensAt_pop hnest, List.length_tail, ← hlen]
          cases hframes with
          | end_ hbefore => rw [hbefore]; rfl
      | enter kind blocktype =>
          rw [hshape] at hframes hnest
          rw [opensAt_push hnest, List.length_cons, ← hlen]
          cases hframes with
          | enter hafter _ _ => rw [hafter]; rfl

theorem opensAt_length (hok : parseCode env body = .ok final) :
    opensAt (nestAt body) body.length = [] := by
  have hfinish := stateAt_finish hok
  have hlen := frames_length hok (Nat.le_refl body.length)
  unfold finish at hfinish
  split at hfinish
  · cases hfinish
  · next hframes =>
      rw [hframes] at hlen
      exact List.eq_nil_of_length_eq_zero hlen.symm

/-- An open block was opened by an instruction, whose kind and type its frame still records. -/
theorem frame_of_open (hok : parseCode env body = .ok final) {n i k : Nat}
    (hle : n ≤ body.length) (hk : (opensAt (nestAt body) n)[i]? = some k) :
    ∃ inst kind blocktype frame, body[k]? = some inst ∧ shape inst = .enter kind blocktype ∧
      (stateAt env body n).frames[i]? = some frame ∧ frame.sig = (kind, blocktype) := by
  have hmem := List.mem_of_getElem? hk
  have hlt : k < body.length := Nat.lt_of_lt_of_le (lt_of_mem_opensAt hmem) hle
  obtain ⟨inst, hget, hinst⟩ := exists_step hok hlt
  have hnest := nest_of_mem_opensAt hmem
  rw [nestAt_eq hget] at hnest
  have hframes := parseInst_frames hinst (stateAt_framesMatch hok (Nat.le_of_lt hlt))
  cases hshape : shape inst with
  | work | transfer | else_ | end_ => simp [hshape] at hnest
  | enter kind blocktype =>
      rw [hshape] at hframes
      cases hframes with
      | @enter opened _ _ hafter hsig _ =>
          have hcore := (cores_follow hok).get hle hk
          simp only [hafter, List.map_cons, List.head?_cons, List.getElem?_map,
            Option.map_eq_some_iff] at hcore
          obtain ⟨frame, hframe, heq⟩ := hcore
          refine ⟨inst, kind, blocktype, frame, hget, hshape, hframe, ?_⟩
          have hsame : frame.core.sig = opened.core.sig := congrArg Frame.sig heq
          exact hsame.trans hsig

/-- An address in `else_addr` is the one after an `else` of that very block. -/
theorem else_of_elseAddr (hok : parseCode env body = .ok final) {n i k addr : Nat} {frame : Frame}
    (hle : n ≤ body.length) (hk : (opensAt (nestAt body) n)[i]? = some k)
    (hframe : (stateAt env body n).frames[i]? = some frame) (haddr : frame.elseAddr = some addr) :
    ∃ x, x < n ∧ body[x]? = some .else_ ∧ (opensAt (nestAt body) x).head? = some k ∧
      (stateAt env body x).unreachable.tail.headD false = false ∧ addr = pcOf env body x + 2 := by
  induction n generalizing i with
  | zero => simp [opensAt] at hk
  | succ n ih =>
      have hlt : n < body.length := by omega
      have hearlier : ∀ j : Nat, (opensAt (nestAt body) n)[j]? = some k →
          (stateAt env body n).frames[j]? = some frame →
          ∃ x, x < n + 1 ∧ body[x]? = some .else_ ∧ (opensAt (nestAt body) x).head? = some k ∧
            (stateAt env body x).unreachable.tail.headD false = false ∧
            addr = pcOf env body x + 2 := by
        intro j hj hframe'
        obtain ⟨x, hx, hrest⟩ := ih (by omega) hj hframe'
        exact ⟨x, by omega, hrest⟩
      obtain ⟨inst, hget, hinst⟩ := exists_step hok hlt
      have hframes := parseInst_frames hinst (stateAt_framesMatch hok (Nat.le_of_lt hlt))
      have hnest := nestAt_eq hget
      cases hshape : shape inst with
      | work | transfer =>
          rw [hshape] at hframes hnest
          rw [opensAt_keep hnest] at hk
          have hsame : (stateAt env body (n + 1)).frames = (stateAt env body n).frames := by
            cases hframes; assumption
          rw [hsame] at hframe
          exact hearlier i hk hframe
      | enter kind blocktype =>
          rw [hshape] at hframes hnest
          rw [opensAt_push hnest] at hk
          cases hframes with
          | enter hafter _ hnone =>
              rw [hafter] at hframe
              cases i with
              | zero =>
                  obtain rfl := Option.some.inj hframe
                  cases hnone.symm.trans haddr
              | succ i => exact hearlier i hk hframe
      | end_ =>
          rw [hshape] at hframes hnest
          rw [opensAt_pop hnest, ← List.drop_one, List.getElem?_drop] at hk
          cases hframes with
          | end_ hbefore =>
              rw [Nat.add_comm] at hk
              refine hearlier (i + 1) hk ?_
              rw [hbefore]
              exact hframe
      | else_ =>
          rw [hshape] at hframes hnest
          rw [opensAt_keep hnest] at hk
          cases hframes with
          | deadElse _ hsame =>
              rw [hsame] at hframe
              exact hearlier i hk hframe
          | else_ hflag hbefore _ hafter =>
              rw [hafter] at hframe
              cases i with
              | zero =>
                  obtain rfl := Option.some.inj hframe
                  obtain rfl : inst = .else_ := by cases inst <;> first | rfl | cases hshape
                  refine ⟨n, by omega, hget, ?_, hflag, (Option.some.inj haddr).symm⟩
                  rw [List.head?_eq_getElem?]
                  exact hk
              | succ i => exact hearlier (i + 1) hk (by rw [hbefore]; exact hframe)

end Accepted

end Telomere.Parser
