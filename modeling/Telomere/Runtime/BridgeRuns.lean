import Telomere.Runtime.BridgeFrames

/-!
# Runs of native code and the interpreter

Every step keeps the calls that are waited for, and so in every run each native frame goes on as itself,
as long as the bridges look at the interpreter in calm states.
-/

namespace Telomere.Jit

variable {prog : Program} {m m' : Machine} {anchors : List Anchor} {anchor caller : Anchor} {pc : Pc}
  {waiting : Waiting} {rust : List RustFrame}

theorem Arrived.outer (h : Arrived prog (anchor :: anchors) m) : Arrived prog anchors m := by
  rcases h with ⟨hchain, hat⟩ | ⟨hpending, pc, hcont, hposition, hback⟩
  · exact .inl ⟨hchain.outer, hat⟩
  · rcases hback.outer with hstanding | hback
    · exact .inl ⟨hstanding.1, pc, hcont, fun _ => ⟨hposition, hstanding.2⟩⟩
    · exact .inr ⟨hpending, pc, hcont, hposition, hback⟩

theorem Left.outer {exit : JitNativeExit} (h : Left prog (anchor :: anchors) m exit)
    (hexit : ∀ pc, exit ≠ .continuePtr pc) : Left prog anchors m exit := by
  cases exit with
  | keepGoing => trivial
  | continuePtr pc => exact absurd rfl (hexit pc)
  | trap => trivial
  | done layout =>
      cases layout with
      | none => exact ⟨h.1.outer, h.2⟩
      | some layout => cases h
  | fallbackPtr pc => exact ⟨h.1, h.2.1.outer, h.2.2⟩
  | pending => exact Arrived.outer h

theorem Recorded.not_alone {recipe : Recipe} {frames : List Activation}
    (h : Recorded prog caller waiting) (hrecipe : waiting.recipe = some recipe)
    (hchain : Chain prog (waiting.anchor :: anchors) frames) : frames.length ≠ 1 := by
  obtain ⟨⟨above, base, rfl, -⟩, -⟩ := hchain
  rw [(h.called recipe hrecipe).1]
  simp
  omega

/-- The interpreter stands where the native code waits for it, and no later activation does. -/
theorem Recorded.resuming {exit : JitNativeExit} (h : Recorded prog caller waiting)
    (harrived : Arrived prog (waiting.anchor :: caller :: anchors) m)
    (hcont : m.cont = some (prog.next waiting.pc)) (hpending : m.pending = 0)
    (hbefore : m.CalledBefore waiting)
    (hexit : (∃ recipe, waiting.recipe = some recipe ∧ waiting.continuation = false ∧
      exit = .done (some (recipe.params, recipe.results))) ∨
        waiting.continuation = true ∧ exit = .keepGoing) :
    Resuming prog m waiting exit ∧ Chain prog (caller :: anchors) m.frames := by
  rcases harrived with ⟨hchain, pc, hpc, hat⟩ | ⟨-, pc, hpc, hposition, hback⟩
  · obtain rfl := Option.some.inj (hcont.symm.trans hpc)
    exact ⟨⟨hexit, hpending, h.resumes_here hchain.1 hbefore, (hat hpending).1⟩, hchain.outer⟩
  · obtain rfl := Option.some.inj (hcont.symm.trans hpc)
    exact ⟨⟨hexit, hpending, h.resumes_back hback, hposition⟩, h.chain_back hback⟩

/-- The bridge goes on with the interpreter where nothing has come back to it. -/
theorem Arrived.standing (h : Arrived prog (anchor :: anchors) m) (hcont : m.cont = some pc)
    (hpending : m.pending = 0) (hret : anchor.callee.ret ≠ some pc) :
    Standing prog (anchor :: anchors) m.frames pc := by
  rcases h with ⟨hchain, pc', hpc, hat⟩ | ⟨-, pc', hpc, -, hback⟩
  · obtain rfl := Option.some.inj (hcont.symm.trans hpc)
    exact ⟨hchain, (hat hpending).2⟩
  · obtain rfl := Option.some.inj (hcont.symm.trans hpc)
    obtain ⟨_, _, heq, hreturned, -⟩ := hback.length
    obtain ⟨rfl, rfl⟩ := List.cons.inj heq
    exact absurd hreturned hret

theorem reported_kept {exit : JitNativeExit} {previous : Option Pc} (hlinked : Linked prog m.frames)
    (hstacked : Stacked prog .entry rust (caller :: anchors) previous)
    (hfresh : ∀ anchor ∈ caller :: anchors, anchor.fresh ≤ m.nextId)
    (hrecorded : Recorded prog caller waiting)
    (hexit : Resuming prog m waiting exit ∧ Chain prog (caller :: anchors) m.frames ∨
      (waiting.continuation = true → exit ≠ .keepGoing) ∧ (∀ pc, exit ≠ .continuePtr pc) ∧
        Left prog (waiting.anchor :: caller :: anchors) m exit) :
    Kept prog { m with
      rust := .native waiting :: rust
      stop := previous
      control := .exit exit } := by
  refine ⟨hlinked, .inr ⟨waiting, rust, caller, anchors, rfl, ⟨hstacked, hfresh⟩, hrecorded, ?_⟩⟩
  rcases hexit with ⟨⟨hexit, hpending, hresumes, hposition⟩, hchain⟩ | ⟨hkeep, hptr, hleft⟩
  · exact .inl ⟨⟨hexit, hpending, hresumes, hposition⟩, hchain⟩
  · exact .inr ⟨hkeep, hptr, hleft⟩

def Handed (prog : Program) (anchors : List Anchor) (m : Machine) : VMResult → Prop
  | .success => Arrived prog anchors m ∨
      m.cont = none ∧ Chain prog anchors m.frames ∧ m.frames.length = 1
  | .unimplemented => m.pending = 0 ∧
      ∀ pc, m.cont = some pc → Standing prog anchors m.frames pc
  | .trap => True

theorem bridgeLoop_kept {stop : Pc} {previous : Option Pc} {recipe : Recipe} {result : VMResult}
    {choice : Choice} (hlinked : Linked prog m.frames)
    (hstacked : Stacked prog .entry rust (caller :: anchors) previous)
    (hfresh : ∀ anchor ∈ waiting.anchor :: caller :: anchors, anchor.fresh ≤ m.nextId)
    (hrecorded : Recorded prog caller waiting) (hcontinuation : waiting.continuation = false)
    (hrecipe : waiting.recipe = some recipe) (hrust : m.rust = .bridgeLoop stop previous recipe ::
      .native waiting :: rust) (hstop : m.stop = some stop) (hpc : stop = prog.next waiting.pc)
    (hcontrol : m.control = .vmResult result)
    (hready : Handed prog (waiting.anchor :: caller :: anchors) m result)
    (hcalm : PositionCalm m) (hstep : m.vmResultStep result choice = some m') : Kept prog m' := by
  have houter := fun anchor hanchor => hfresh anchor (List.mem_cons_of_mem _ hanchor)
  have hreport : ∀ exit, _ → Kept prog { m with
      rust := .native waiting :: rust
      stop := previous
      control := .exit exit } :=
    fun exit => reported_kept hlinked hstacked houter hrecorded
  obtain ⟨frames, cont, stopAt, rust', control, pending, position, nextId⟩ := m
  dsimp only at hrust hcontrol hstop
  subst hrust hcontrol hstop
  cases result with
  | trap =>
      obtain rfl := Option.some.inj hstep
      exact hreport .trap (.inr ⟨by simp [hcontinuation], by simp, trivial⟩)
  | unimplemented =>
      cases cont with
      | none =>
          obtain rfl := Option.some.inj hstep
          exact hreport .trap (.inr ⟨by simp [hcontinuation], by simp, trivial⟩)
      | some pc =>
          obtain rfl := Option.some.inj hstep
          exact hreport (.fallbackPtr pc)
            (.inr ⟨by simp [hcontinuation], by simp, hready.1, hready.2 pc rfl⟩)
  | success =>
      obtain ⟨hpending, hbefore⟩ := hcalm
      cases cont with
      | none =>
          rcases hready with harrived | ⟨-, hchain, hone⟩
          · rcases harrived with ⟨-, pc, hcont, -⟩ | ⟨-, pc, hcont, -⟩ <;> cases hcont
          · exact absurd hone (hrecorded.not_alone hrecipe hchain)
      | some pc =>
          have harrived := hready.resolve_right fun hnone => by cases hnone.1
          simp only [Machine.vmResultStep] at hstep
          split at hstep
          · next heq =>
              obtain rfl := Option.some.inj hstep
              obtain rfl := heq.trans hpc
              exact hreport _ (.inl (hrecorded.resuming harrived rfl hpending
                (hbefore (congrArg some heq))
                (.inl ⟨recipe, hrecipe, hcontinuation, rfl⟩)))
          · next hne =>
              obtain rfl := Option.some.inj hstep
              have hret : waiting.anchor.callee.ret ≠ some pc := by
                rw [(hrecorded.called recipe hrecipe).2.1, ← hpc]
                exact fun heq => hne (Option.some.inj heq).symm
              have hstanding := harrived.standing rfl hpending hret
              subst hpc
              exact ⟨hlinked, _, ⟨.bridgeLoop hstacked hrecorded hcontinuation hrecipe, hfresh⟩,
                hpending, .inl hstanding⟩

theorem continuationOp_kept {stop : Pc} {previous : Option Pc} {result : VMResult}
    {choice : Choice} (hlinked : Linked prog m.frames)
    (hstacked : Stacked prog .entry rust (caller :: anchors) previous)
    (hfresh : ∀ anchor ∈ waiting.anchor :: caller :: anchors, anchor.fresh ≤ m.nextId)
    (hrecorded : Recorded prog caller waiting) (hcontinuation : waiting.continuation = true)
    (hrust : m.rust = .continuationOp stop previous :: .native waiting :: rust)
    (hpc : stop = prog.next waiting.pc)
    (hcontrol : m.control = .vmResult result)
    (hready : Handed prog (waiting.anchor :: caller :: anchors) m result)
    (hcalm : PositionCalm m) (hstep : m.vmResultStep result choice = some m') : Kept prog m' := by
  have houter := fun anchor hanchor => hfresh anchor (List.mem_cons_of_mem _ hanchor)
  have hreport : ∀ exit, _ → Kept prog { m with
      rust := .native waiting :: rust
      stop := previous
      control := .exit exit } :=
    fun exit => reported_kept hlinked hstacked houter hrecorded
  obtain ⟨frames, cont, stopAt, rust', control, pending, position, nextId⟩ := m
  dsimp only at hrust hcontrol
  subst hrust hcontrol hpc
  cases result with
  | trap =>
      obtain rfl := Option.some.inj hstep
      exact hreport .trap (.inr ⟨by simp, by simp, trivial⟩)
  | unimplemented =>
      obtain rfl := Option.some.inj hstep
      exact hreport .trap (.inr ⟨by simp, by simp, trivial⟩)
  | success =>
      cases cont with
      | none =>
          obtain rfl := Option.some.inj hstep
          refine hreport (.done none) (.inr ⟨by simp, by simp, ?_⟩)
          rcases hready with harrived | ⟨-, hchain, hone⟩
          · rcases harrived with ⟨-, pc, hcont, -⟩ | ⟨-, pc, hcont, -⟩ <;> cases hcont
          · exact ⟨hchain, hone⟩
      | some pc =>
          have harrived := hready.resolve_right fun hnone => by cases hnone.1
          simp only [Machine.vmResultStep] at hstep
          split at hstep
          · next heq =>
              obtain rfl := Option.some.inj hstep
              subst heq
              obtain ⟨hpending, hbefore⟩ := hcalm rfl
              exact hreport .keepGoing (.inl (hrecorded.resuming harrived rfl hpending hbefore
                (.inr ⟨hcontinuation, rfl⟩)))
          · obtain rfl := Option.some.inj hstep
            exact hreport .pending (.inr ⟨by simp, by simp, harrived⟩)

theorem vmLoop_kept {result : VMResult} {choice : Choice} (hlinked : Linked prog m.frames)
    (hrust : m.rust = [.vmLoop]) (hstop : m.stop = none) (hcontrol : m.control = .vmResult result)
    (hready : Handed prog [] m result)
    (hstep : m.vmResultStep result choice = some m') : Kept prog m' := by
  obtain ⟨frames, cont, stopAt, rust', control, pending, position, nextId⟩ := m
  dsimp only at hrust hcontrol hstop
  subst hrust hcontrol hstop
  cases result with
  | trap => cases hstep
  | unimplemented => cases hstep
  | success =>
      cases cont with
      | none => cases hstep
      | some pc =>
          have harrived := hready.resolve_right fun hnone => by cases hnone.1
          simp only [Machine.vmResultStep] at hstep
          split at hstep
          · next results =>
              split at hstep
              · obtain ⟨⟨done, ret⟩, hpop, hstep⟩ := Option.bind_eq_some_iff.mp hstep
                rcases popFrame_some hpop with ⟨frame, below, rfl, hret, rfl, rfl⟩ |
                  ⟨frame, caller, rest, pc', rfl, hret, rfl, rfl⟩
                · obtain rfl := Option.some.inj hstep
                  obtain rfl := hlinked.first hret
                  exact ⟨hlinked, [], ⟨.vmLoop, by simp⟩, .inr ⟨rfl, trivial, rfl⟩⟩
                · obtain rfl := Option.some.inj hstep
                  exact ⟨hlinked.2.top rfl, [], ⟨.vmLoop, by simp⟩, rfl,
                    .inl ⟨trivial, by simpa using hlinked.ret_func hret⟩⟩
              · cases hstep
          · split at hstep
            · next hpending =>
                obtain rfl := Option.some.inj hstep
                refine ⟨hlinked, [], ⟨.vmLoop, by simp⟩, hpending, .inl ⟨trivial, ?_⟩⟩
                rcases harrived with ⟨-, _, hcont, hat⟩ | ⟨-, _, -, -, hback⟩
                · obtain rfl := Option.some.inj hcont
                  exact (hat hpending).2
                · obtain ⟨_, _, heq, -⟩ := hback
                  cases heq
            · cases hstep

theorem vmResult_kept {result : VMResult} {choice : Choice} (h : Kept prog m)
    (hcontrol : m.control = .vmResult result) (hcalm : PositionCalm m)
    (hstep : m.vmResultStep result choice = some m') : Kept prog m' := by
  obtain ⟨hlinked, hready⟩ := h
  have hwaits : ∃ anchors, Waits prog .runner m m.rust anchors ∧ Handed prog anchors m result := by
    cases result with
    | trap =>
        simp only [Ready, hcontrol] at hready
        obtain ⟨anchors, hwaits⟩ := hready
        exact ⟨anchors, hwaits, trivial⟩
    | _ => simpa only [Ready, hcontrol, Handed] using hready
  obtain ⟨anchors, ⟨hstacked, hfresh⟩, hhanded⟩ := hwaits
  generalize hrust : m.rust = rust, hstop : m.stop = stop at hstacked
  cases hstacked with
  | vmLoop => exact vmLoop_kept hlinked hrust hstop hcontrol hhanded hstep
  | bridgeLoop hentry hrecorded hcontinuation hrecipe =>
      exact bridgeLoop_kept hlinked hentry hfresh hrecorded hcontinuation hrecipe hrust hstop rfl
        hcontrol hhanded hcalm hstep
  | continuationOp hentry hrecorded hcontinuation =>
      exact continuationOp_kept hlinked hentry hfresh hrecorded hcontinuation hrust rfl hcontrol
        hhanded hcalm hstep

theorem callRecord_recorded {frame : Activation} {below : List Activation} {recipe : Recipe}
    {popped : Nat} {continuation : Bool} (hmem : recipe ∈ prog.callees pc)
    (hid : frame.id = anchor.callee.id) (hfunc : frame.func = anchor.callee.func)
    (hret : frame.ret = anchor.callee.ret) (hbelow : below = anchor.floor) :
    Recorded prog anchor (m.callRecord prog pc continuation recipe popped frame below) where
  id := hid
  func := hfunc
  ret := hret
  below := hbelow
  since := Nat.le_succ _
  called := by
    intro recipe' hrecipe
    obtain rfl := Option.some.inj hrecipe
    exact ⟨rfl, rfl, (prog.callee_results pc recipe hmem).symm, Nat.le_refl _⟩
  ran := nofun
  direct := nofun

theorem callRecord_chain {frame : Activation} {below : List Activation} {recipe : Recipe}
    {popped : Nat} {continuation lazily : Bool} (hchain : Chain prog anchors (frame :: below))
    (hlinked : Linked prog (frame :: below)) (hfresh : ∀ anchor ∈ anchors, anchor.fresh ≤ m.nextId)
    (hhandler : prog.handler pc = .call lazily) (hfunc : frame.func = pc.func) :
    Chain prog ((m.callRecord prog pc continuation recipe popped frame below).anchor :: anchors)
      (m.callee prog pc recipe :: frame.dropped popped :: below) := by
  refine ⟨⟨[], _, rfl, rfl, rfl, by simp, .inr ⟨rfl, rfl⟩⟩, ?_, ?_, ?_⟩
  · exact hlinked.push hhandler hfunc.symm rfl rfl
  · exact fun anchor hanchor => Nat.le_succ_of_le (hfresh anchor hanchor)
  · have hcalls : CallsInto prog anchors m.stop (m.callee prog pc recipe)
        (frame.dropped popped :: below) := hchain.callsInto hfresh
    exact hcalls.1

theorem callRecord_fresh {frame : Activation} {below : List Activation} {recipe : Recipe}
    {popped : Nat} {continuation : Bool} (hfresh : ∀ anchor ∈ anchors, anchor.fresh ≤ m.nextId) :
    ∀ anchor ∈ (m.callRecord prog pc continuation recipe popped frame below).anchor :: anchors,
      anchor.fresh ≤ m.nextId + 1 := by
  intro anchor hanchor
  rcases List.mem_cons.mp hanchor with rfl | hanchor
  · exact Nat.le_refl _
  · exact Nat.le_succ_of_le (hfresh anchor hanchor)

/-- Native code runs, and has made the frame of the call it makes. -/
structure Calling (prog : Program) (m : Machine) (anchor : Anchor) (anchors : List Anchor)
    (frame : Activation) (below : List Activation) : Prop where
  linked : Linked prog (frame :: below)
  stacked : Stacked prog .entry m.rust (anchor :: anchors) m.stop
  fresh : ∀ outer ∈ anchor :: anchors, outer.fresh ≤ m.nextId
  pending : m.pending = 0
  chain : Chain prog (anchor :: anchors) (frame :: below)
  id : frame.id = anchor.callee.id
  func : frame.func = anchor.callee.func
  ret : frame.ret = anchor.callee.ret
  below : below = anchor.floor

theorem Kept.calling {frame : Activation} {below : List Activation} (h : Kept prog m)
    (hcontrol : m.control = .native) (hframes : m.frames = frame :: below) :
    ∃ anchor anchors, Calling prog m anchor anchors frame below := by
  obtain ⟨hlinked, hready⟩ := h
  simp only [Ready, hcontrol] at hready
  obtain ⟨anchor, anchors, ⟨hstacked, hfresh⟩, hpending, hchain, top, htop, hid, hfunc, hret⟩ :=
    hready
  rw [hframes] at htop hlinked hchain
  obtain ⟨rfl, hbelow⟩ := List.cons.inj htop
  exact ⟨anchor, anchors, hlinked, hstacked, hfresh, hpending, hchain, hid, hfunc, hret, hbelow⟩

section Calling

variable {frame : Activation} {below : List Activation}

theorem Calling.worked (h : Calling prog m anchor anchors frame below) (operands : List Nat)
    (hcontrol : m.control = .native) :
    Kept prog { m with frames := { frame with operands := operands } :: below } := by
  refine ⟨h.linked.top rfl, ?_⟩
  simp only [Ready, hcontrol]
  exact ⟨anchor, anchors, ⟨h.stacked, h.fresh⟩, h.pending, h.chain.top rfl rfl rfl,
    { frame with operands := operands }, by rw [h.below], h.id, h.func, h.ret⟩

theorem Calling.trapped (h : Calling prog m anchor anchors frame below)
    (hlinked : Linked prog m'.frames) (hrust : m'.rust = m.rust) (hstop : m'.stop = m.stop)
    (hnext : m.nextId ≤ m'.nextId) : Kept prog (m'.withControl (.exit .trap)) := by
  refine ⟨hlinked, .inl ⟨anchor :: anchors, ⟨?_, ?_⟩, trivial⟩⟩
  · simpa only [Machine.withControl, hrust, hstop] using h.stacked
  · exact fun outer houter => Nat.le_trans (h.fresh outer houter) hnext

theorem returns_kept (h : Kept prog m) (hcontrol : m.control = .native)
    (hstep : m.nativeStep prog .go = some m') : Kept prog m' := by
  simp only [Machine.nativeStep] at hstep
  obtain ⟨results, hresults, hrest⟩ := Option.bind_eq_some_iff.mp hstep
  obtain ⟨⟨popped, ret⟩, hpop, hexit⟩ := Option.bind_eq_some_iff.mp hrest
  cases hframes : m.frames with
  | nil => simp [Machine.popFrame, hframes] at hpop
  | cons frame below =>
      obtain ⟨anchor, anchors, hcalling⟩ := h.calling hcontrol hframes
      have hchain := hframes ▸ hcalling.chain
      rcases popFrame_kept h.linked hchain (returned_some hresults) hpop with
        ⟨rfl, rfl, hone⟩ | ⟨pc, frames, rfl, rfl, hlinked, hat⟩
      · obtain rfl := Option.some.inj hexit
        exact ⟨h.linked, .inl ⟨_, ⟨hcalling.stacked, hcalling.fresh⟩, hchain, hone⟩⟩
      · obtain rfl := Option.some.inj hexit
        refine ⟨hlinked, .inl ⟨_, ⟨hcalling.stacked, hcalling.fresh⟩, hcalling.pending, rfl, ?_⟩⟩
        refine hat.resolve_left fun hstanding => ?_
        -- The frame that returns is that of the call, and it is gone.
        obtain ⟨⟨above, base, heq, -⟩, -⟩ := hstanding.1
        have hlonger := congrArg List.length heq
        have hbelow := hcalling.below
        rcases popFrame_some hpop with ⟨_, _, _, _, hnone, -⟩ | ⟨_, caller, rest, _, hframes', -, -, hm⟩
        · cases hnone
        · obtain rfl := congrArg Machine.frames hm
          obtain ⟨-, rfl⟩ := List.cons.inj (hframes.symm.trans hframes')
          rw [← hbelow] at hlonger
          simp at hlonger
          omega

theorem opRecord_called {choice : Choice} {recipe : Recipe} {popped : Nat} {lazily : Bool}
    (hhandler : prog.handler pc = .call lazily) (hcalls : choice.Calls recipe popped) :
    m.opRecord prog pc choice frame below = m.callRecord prog pc true recipe popped frame below := by
  rcases hcalls with ⟨entry, rfl⟩ | ⟨results, rfl⟩ <;> simp [Machine.opRecord, hhandler]

theorem opRecord_plain {choice : Choice} (hhandler : ∀ lazily, prog.handler pc ≠ .call lazily) :
    m.opRecord prog pc choice frame below =
      ⟨pc, true, none, frame, below, m.nextId, ⟨frame, below, m.nextId⟩⟩ := by
  unfold Machine.opRecord
  split
  · next hcall => exact absurd hcall (hhandler _)
  · next hcall => exact absurd hcall (hhandler _)
  · rfl

theorem opCall_calls {choice : Choice} {lazily : Bool}
    (h : m.opCall prog pc lazily choice = some m') :
    ∃ recipe popped, choice.Calls recipe popped ∧ recipe ∈ prog.callees pc ∧
      ∀ recipe' popped', choice.Calls recipe' popped' → recipe' = recipe ∧ popped' = popped := by
  cases choice with
  | call recipe popped entry =>
      simp only [Machine.opCall] at h
      split at h
      · next hmem =>
          refine ⟨recipe, popped, .inl ⟨entry, rfl⟩, hmem.1, ?_⟩
          rintro recipe' popped' (⟨_, heq⟩ | ⟨_, heq⟩)
          · cases heq
            exact ⟨rfl, rfl⟩
          · cases heq
      · cases h
  | hostResults recipe popped results =>
      simp only [Machine.opCall] at h
      split at h
      · next hmem =>
          refine ⟨recipe, popped, .inr ⟨results, rfl⟩, hmem.1, ?_⟩
          rintro recipe' popped' (⟨_, heq⟩ | ⟨_, heq⟩)
          · cases heq
          · cases heq
            exact ⟨rfl, rfl⟩
      · cases h
  | _ => cases h

/-- An instruction of native code that is no call, run by the interpreter. -/
theorem Calling.ran (h : Calling prog m anchor anchors frame below)
    (hhandler : ∀ lazily, prog.handler pc ≠ .call lazily) :
    Recorded prog anchor ⟨pc, true, none, frame, below, m.nextId, ⟨frame, below, m.nextId⟩⟩ ∧
      Chain prog (⟨frame, below, m.nextId⟩ :: anchor :: anchors) (frame :: below) ∧
        ∀ outer ∈ (⟨frame, below, m.nextId⟩ : Anchor) :: anchor :: anchors,
          outer.fresh ≤ m.nextId := by
  refine ⟨?_, ?_, ?_⟩
  · exact ⟨h.id, h.func, h.ret, h.below, Nat.le_refl _, nofun,
      fun _ => ⟨rfl, rfl, h.linked, hhandler⟩, nofun⟩
  · exact ⟨⟨[], frame, rfl, rfl, rfl, by simp, .inr ⟨rfl, rfl⟩⟩, h.linked, h.fresh, h.chain⟩
  · intro outer houter
    rcases List.mem_cons.mp houter with rfl | houter
    · exact Nat.le_refl _
    · exact h.fresh outer houter

/-- The machine in which the interpreter runs an instruction of native code. -/
def Machine.bridged (prog : Program) (m : Machine) (pc : Pc) (choice : Choice) (frame : Activation)
    (below : List Activation) : Machine :=
  { m with
    stop := some (prog.next pc)
    position := some pc
    rust := .continuationOp (prog.next pc) m.stop ::
      .native (m.opRecord prog pc choice frame below) :: m.rust }

theorem helperOp_some {choice : Choice} (h : m.helperOp prog pc choice = some m') :
    ∃ frame below, m.frames = frame :: below ∧ (m' = m.withControl (.exit .trap) ∨
      frame.func = pc.func ∧ (∀ result, choice ≠ .fail result) ∧
        (m.bridged prog pc choice frame below).handlerStep prog pc choice = some m') := by
  unfold Machine.helperOp at h
  split at h
  · cases h
  · cases h
  · next hne =>
      obtain rfl := Option.some.inj h
      cases hframes : m.frames with
      | nil => exact absurd hframes hne
      | cons frame below => exact ⟨frame, below, rfl, .inl rfl⟩
  · next frame below hframes hsuccess hfail =>
      split at h
      · next hfunc => exact ⟨frame, below, hframes, .inr ⟨hfunc, fun result => hfail result, h⟩⟩
      · cases h

theorem helperOp_kept {choice : Choice} (h : Kept prog m) (hcontrol : m.control = .native)
    (hcalm : HostCalm prog m (.helperOp pc choice)) (hstep : m.helperOp prog pc choice = some m') :
    Kept prog m' := by
  obtain ⟨frame, below, hframes, rfl | ⟨hfunc, hfail, hop⟩⟩ := helperOp_some hstep
  · obtain ⟨anchor, anchors, hcalling⟩ := h.calling hcontrol hframes
    exact hcalling.trapped h.linked rfl rfl (Nat.le_refl _)
  obtain ⟨anchor, anchors, hcalling⟩ := h.calling hcontrol hframes
  have hlinked : Linked prog (m.bridged prog pc choice frame below).frames := h.linked
  have hpending : (m.bridged prog pc choice frame below).pending = 0 := hcalling.pending
  have hhead : ∀ top ∈ (m.bridged prog pc choice frame below).frames.head?, pc.func = top.func := by
    intro top htop
    obtain rfl : frame = top := by simpa [Machine.bridged, hframes] using htop
    exact hfunc.symm
  -- An instruction that is no call runs in the frame of the native code.
  have hran : (∀ lazily, prog.handler pc ≠ .call lazily) → ∃ anchors,
      Waits prog .runner (m.bridged prog pc choice frame below)
          (m.bridged prog pc choice frame below).rust anchors ∧
        Standing prog anchors (m.bridged prog pc choice frame below).frames pc := by
    intro hhandler
    obtain ⟨hrecorded, hchain, hfresh⟩ := hcalling.ran hhandler
    refine ⟨_, ⟨?_, hfresh⟩, ?_, hhead⟩
    · simp only [Machine.bridged, opRecord_plain hhandler]
      exact .continuationOp hcalling.stacked hrecorded rfl
    · simpa only [Machine.bridged, hframes] using hchain
  rcases handlerStep_some hpending hop with
    ⟨result, rfl, -⟩ | ⟨operands, pc', frame', below', hinside, hframes', hpc, rfl⟩ |
    ⟨lazily, hhandler, hcall⟩ | ⟨lazily, hhandler, hcall⟩ | ⟨hhandler, hreturn⟩
  · exact absurd rfl (hfail result)
  · obtain ⟨anchors, hwaits, hstanding⟩ := hran (by simp [hinside])
    exact inside_kept hlinked hwaits hpending hstanding hframes' hpc
  · obtain ⟨recipe, popped, hcalls, hmem, hunique⟩ := opCall_calls hcall
    have hrecorded : Recorded prog anchor
        (m.callRecord prog pc true recipe popped frame below) :=
      callRecord_recorded hmem hcalling.id hcalling.func hcalling.ret hcalling.below
    have hwaits : Waits prog .runner { (m.bridged prog pc choice frame below) with
          nextId := m.nextId + 1 } (m.bridged prog pc choice frame below).rust
        ((m.callRecord prog pc true recipe popped frame below).anchor :: anchor :: anchors) := by
      refine ⟨?_, callRecord_fresh hcalling.fresh⟩
      simp only [Machine.bridged, opRecord_called hhandler hcalls]
      exact .continuationOp hcalling.stacked hrecorded rfl
    refine opCall_kept hlinked hwaits hpending hhandler hhead ?_ hcall
    · intro frame' below' recipe' popped' hframes' hcalls' _
      obtain ⟨rfl, rfl⟩ := hunique recipe' popped' hcalls'
      obtain ⟨rfl, rfl⟩ := List.cons.inj (hframes.symm.trans hframes')
      refine ⟨callRecord_chain hcalling.chain hcalling.linked hcalling.fresh hhandler hfunc, ?_⟩
      intro outer houter
      obtain rfl := Option.some.inj houter
      exact .inl rfl
  · obtain ⟨anchors, hwaits, hstanding⟩ := hran (by simp [hhandler])
    refine opReturnCall_kept hlinked hwaits hpending hhandler hstanding ?_ hcall
    rintro recipe popped results rfl
    exact absurd hhandler (hcalm lazily)
  · obtain ⟨anchors, hwaits, hstanding⟩ := hran (by simp [hhandler])
    exact functionReturn_kept hlinked hwaits hpending hstanding.1 hreturn

theorem helperCall_kept {recipe : Recipe} {popped : Nat} {rejected : Bool} {entry : Entry}
    (h : Kept prog m) (hcontrol : m.control = .native)
    (hstep : m.helperCall prog pc recipe popped rejected entry = some m') : Kept prog m' := by
  unfold Machine.helperCall at hstep
  split at hstep
  case h_2 => cases hstep
  next frame below lazily hframes hhandler =>
  obtain ⟨anchor, anchors, hcalling⟩ := h.calling hcontrol hframes
  split at hstep
  case isFalse => cases hstep
  next hat =>
  obtain ⟨hfunc, hmem⟩ := hat
  rw [if_neg (by simpa using hcalling.pending)] at hstep
  obtain ⟨called, hpush, hrest⟩ := Option.bind_eq_some_iff.mp hstep
  obtain ⟨frame', below', hframes', rfl⟩ := pushFrame_some hpush
  obtain ⟨rfl, rfl⟩ := List.cons.inj (hframes.symm.trans hframes')
  have hlinked : Linked prog (m.callee prog pc recipe :: frame.dropped popped :: below) :=
    hcalling.linked.push hhandler hfunc.symm rfl rfl
  have hrecorded : Recorded prog anchor
      (m.callRecord prog pc false recipe popped frame below) :=
    callRecord_recorded hmem hcalling.id hcalling.func hcalling.ret hcalling.below
  have hchain : Chain prog
      ((m.callRecord prog pc false recipe popped frame below).anchor :: anchor :: anchors)
      (m.callee prog pc recipe :: frame.dropped popped :: below) :=
    callRecord_chain hcalling.chain hcalling.linked hcalling.fresh hhandler hfunc
  have hfresh : ∀ outer ∈ (m.callRecord prog pc false recipe popped frame below).anchor ::
      anchor :: anchors, outer.fresh ≤ m.nextId + 1 := callRecord_fresh hcalling.fresh
  dsimp only at hrest
  split at hrest
  · cases hrest
  · obtain rfl := Option.some.inj hrest
    refine ⟨hlinked, .inl ⟨anchor :: anchors, ⟨hcalling.stacked, ?_⟩, .inl ⟨hchain.outer, _, rfl, ?_⟩⟩⟩
    · exact fun outer houter => Nat.le_succ_of_le (hcalling.fresh outer houter)
    · intro hpending
      cases hpending
  · split at hrest
    · obtain rfl := Option.some.inj hrest
      refine ⟨hlinked, _, ⟨.bridgeLoop hcalling.stacked hrecorded rfl rfl, hfresh⟩,
        hcalling.pending, .inl ⟨hchain, ?_⟩⟩
      simp
    · split at hrest
      · obtain rfl := Option.some.inj hrest
        exact ⟨hlinked, _, _, ⟨.finishCall hcalling.stacked hrecorded rfl rfl, hfresh⟩,
          hcalling.pending, hchain, _, rfl, rfl, rfl, rfl⟩
      · obtain rfl := Option.some.inj hrest
        refine ⟨hlinked, .inl ⟨_, ⟨.finishCall hcalling.stacked hrecorded rfl rfl, hfresh⟩,
          hcalling.pending, hchain, ?_⟩⟩
        intro top htop
        obtain rfl := Option.some.inj htop
        rfl
      · obtain rfl := Option.some.inj hrest
        exact hcalling.trapped hlinked rfl rfl (Nat.le_succ _)

theorem nativeStep_kept {choice : Choice} (h : Kept prog m) (hcontrol : m.control = .native)
    (hcalm : HostCalm prog m choice) (hstep : m.nativeStep prog choice = some m') :
    Kept prog m' := by
  cases choice with
  | go => exact returns_kept h hcontrol hstep
  | helperOp pc choice => exact helperOp_kept h hcontrol hcalm hstep
  | helperCall pc recipe popped rejected entry => exact helperCall_kept h hcontrol hstep
  | native operands =>
      cases hframes : m.frames with
      | nil => simp [Machine.nativeStep, hframes] at hstep
      | cons frame below =>
          obtain ⟨anchor, anchors, hcalling⟩ := h.calling hcontrol hframes
          simp only [Machine.nativeStep, hframes, Option.some.injEq] at hstep
          obtain rfl := hstep
          exact hcalling.worked operands hcontrol
  | hostResults recipe popped results =>
      cases hframes : m.frames with
      | nil => simp [Machine.nativeStep, Machine.helperHost, hframes] at hstep
      | cons frame below =>
          obtain ⟨anchor, anchors, hcalling⟩ := h.calling hcontrol hframes
          simp only [Machine.nativeStep, Machine.helperHost, hframes] at hstep
          split at hstep
          · obtain rfl := Option.some.inj hstep
            exact hcalling.worked _ hcontrol
          · cases hstep
  | fail result =>
      cases hframes : m.frames with
      | nil => exact absurd (hframes ▸ h.linked) (by simp [Linked])
      | cons frame below =>
          obtain ⟨anchor, anchors, hcalling⟩ := h.calling hcontrol hframes
          obtain rfl := Option.some.inj hstep
          exact hcalling.trapped h.linked rfl rfl (Nat.le_refl _)
  | _ => cases hstep

end Calling

theorem nativeResume_kept {exit : JitNativeExit} {output : Option Waiting}
    (hlinked : Linked prog m.frames)
    (hwaits : Waits prog .entry m rust (caller :: anchors)) (hrecorded : Recorded prog caller waiting)
    (hexit : Resuming prog m waiting exit ∧ Chain prog (caller :: anchors) m.frames ∨
      (waiting.continuation = true → exit ≠ .keepGoing) ∧ (∀ pc, exit ≠ .continuePtr pc) ∧
        Left prog (waiting.anchor :: caller :: anchors) m exit)
    (hstep : m.nativeResume prog waiting rust exit = (output, m')) :
    (∀ resumed, output = some resumed →
      Resumes resumed m'.frames ∧ m'.position = some (prog.next resumed.pc)) ∧ Kept prog m' := by
  have hpassed : ∀ exit, Left prog (caller :: anchors) m exit →
      Kept prog ({ m with rust := rust }.withControl (.exit exit)) :=
    fun exit hleft => ⟨hlinked, .inl ⟨_, ⟨hwaits.stacked, hwaits.fresh⟩, by
      cases exit <;> exact hleft⟩⟩
  have hresumed : Resuming prog m waiting exit → Chain prog (caller :: anchors) m.frames →
      Kept prog ({ m with rust := rust }.withControl .native) := by
    intro hresuming hchain
    obtain ⟨frame, hframes, hid, hfunc, hret, -⟩ := hresuming.resumes
    exact ⟨hlinked, caller, anchors, ⟨hwaits.stacked, hwaits.fresh⟩, hresuming.pending, hchain,
      frame, by rw [← hrecorded.below]; exact hframes, hid.trans hrecorded.id,
      hfunc.trans hrecorded.func, hret.trans hrecorded.ret⟩
  unfold Machine.nativeResume at hstep
  dsimp only at hstep
  split at hstep
  · next hcontinuation =>
      split at hstep
      · -- The interpreter ran the instruction, and stands behind it.
        rcases hexit with ⟨hresuming, hchain⟩ | ⟨hkeep, -⟩
        · split at hstep
          · obtain ⟨rfl, rfl⟩ := Prod.mk.inj hstep
            refine ⟨?_, hpassed .keepGoing trivial⟩
            intro resumed hresumed
            obtain rfl := Option.some.inj hresumed
            exact ⟨hresuming.resumes, hresuming.position⟩
          · obtain ⟨rfl, rfl⟩ := Prod.mk.inj hstep
            refine ⟨?_, hresumed hresuming hchain⟩
            intro resumed hresumed
            obtain rfl := Option.some.inj hresumed
            exact ⟨hresuming.resumes, hresuming.position⟩
        · exact absurd rfl (hkeep hcontinuation)
      · next hne =>
          obtain ⟨rfl, rfl⟩ := Prod.mk.inj hstep
          refine ⟨nofun, hpassed _ ?_⟩
          rcases hexit with ⟨hresuming, -⟩ | ⟨-, hptr, hleft⟩
          · rcases hresuming.exit with ⟨_, -, hdirect, -⟩ | ⟨-, heq⟩
            · simp [hcontinuation] at hdirect
            · exact absurd heq hne
          · exact hleft.outer hptr
  · next hcontinuation =>
      split at hstep
      · next layout =>
          split at hstep
          · next hlayout =>
              obtain ⟨rfl, rfl⟩ := Prod.mk.inj hstep
              rcases hexit with ⟨hresuming, hchain⟩ | ⟨-, -, hleft⟩
              · refine ⟨?_, hresumed hresuming hchain⟩
                intro resumed hresumed
                obtain rfl := Option.some.inj hresumed
                exact ⟨hresuming.resumes, hresuming.position⟩
              · -- The layout of a call comes with native code that goes on.
                have hdirect := hrecorded.direct (by simpa using hcontinuation)
                cases hrecipe : waiting.recipe with
                | none => exact absurd hrecipe hdirect
                | some recipe =>
                    rw [hrecipe] at hlayout
                    subst hlayout
                    cases hleft
          · obtain ⟨rfl, rfl⟩ := Prod.mk.inj hstep
            exact ⟨nofun, hpassed .trap trivial⟩
      · obtain ⟨rfl, rfl⟩ := Prod.mk.inj hstep
        exact ⟨nofun, hpassed .trap trivial⟩
      · next hdone hkeep =>
          obtain ⟨rfl, rfl⟩ := Prod.mk.inj hstep
          refine ⟨nofun, hpassed _ ?_⟩
          rcases hexit with ⟨hresuming, -⟩ | ⟨-, hptr, hleft⟩
          · rcases hresuming.exit with ⟨_, -, -, heq⟩ | ⟨htrue, -⟩
            · exact absurd heq (hdone _)
            · exact absurd htrue hcontinuation
          · exact hleft.outer hptr

theorem finishCall_kept {exit : JitNativeExit} {continuation : Pc} {recipe : Recipe}
    (hlinked : Linked prog m.frames)
    (hstacked : Stacked prog .entry rust (caller :: anchors) m.stop)
    (hfresh : ∀ anchor ∈ waiting.anchor :: caller :: anchors, anchor.fresh ≤ m.nextId)
    (hrecorded : Recorded prog caller waiting) (hcontinuation : waiting.continuation = false)
    (hrecipe : waiting.recipe = some recipe) (hpc : continuation = prog.next waiting.pc)
    (hrust : m.rust = .finishCall continuation recipe :: .native waiting :: rust)
    (hcontrol : m.control = .exit exit)
    (hleft : Left prog (waiting.anchor :: caller :: anchors) m exit) (hcalm : PositionCalm m) :
    Kept prog (m.finishCall continuation recipe (.native waiting :: rust) exit) := by
  have houter := fun anchor hanchor => hfresh anchor (List.mem_cons_of_mem _ hanchor)
  have hreport : ∀ exit, _ → Kept prog { m with
      rust := .native waiting :: rust
      control := .exit exit } :=
    fun exit => reported_kept hlinked hstacked houter hrecorded
  have hdone : Resuming prog m waiting (.done (some (recipe.params, recipe.results))) →
      Chain prog (caller :: anchors) m.frames → Kept prog { m with
        rust := .native waiting :: rust
        control := .exit (.done (some (recipe.params, recipe.results))) } :=
    fun hresuming hchain => hreport _ (.inl ⟨hresuming, hchain⟩)
  have hexit : (∃ recipe', waiting.recipe = some recipe' ∧ waiting.continuation = false ∧
      JitNativeExit.done (some (recipe.params, recipe.results)) =
        .done (some (recipe'.params, recipe'.results))) ∨
      waiting.continuation = true ∧
        JitNativeExit.done (some (recipe.params, recipe.results)) = .keepGoing :=
    .inl ⟨recipe, hrecipe, hcontinuation, rfl⟩
  obtain ⟨frames, cont, stopAt, rust', control, pending, position, nextId⟩ := m
  dsimp only at hrust hcontrol hstacked hlinked hfresh
  subst hrust hcontrol hpc
  cases exit with
  | keepGoing => exact hreport .keepGoing (.inr ⟨by simp [hcontinuation], by simp, trivial⟩)
  | trap => exact hreport .trap (.inr ⟨by simp, by simp, trivial⟩)
  | done layout =>
      cases layout with
      | none => exact absurd hleft.2 (hrecorded.not_alone hrecipe hleft.1)
      | some layout => cases hleft
  | continuePtr pc =>
      obtain ⟨hpending, hposition, hback⟩ := hleft
      obtain ⟨_, _, heq, hret, -⟩ := hback.length
      obtain ⟨rfl, rfl⟩ := List.cons.inj heq
      obtain rfl := Option.some.inj ((hrecorded.called recipe hrecipe).2.1.symm.trans hret)
      simp only [Machine.finishCall, if_true]
      exact hdone ⟨hexit, hpending, hrecorded.resumes_back hback, hposition⟩
        (hrecorded.chain_back hback)
  | fallbackPtr pc =>
      obtain ⟨hpending, hstanding⟩ := hleft
      exact ⟨hlinked, _, ⟨.bridgeLoop hstacked hrecorded hcontinuation hrecipe, hfresh⟩, hpending,
        .inl hstanding⟩
  | pending =>
      simp only [Machine.finishCall]
      split
      · next hcont =>
          obtain ⟨hpending, hbefore⟩ := hcalm hcont
          obtain ⟨hresuming, hchain⟩ := hrecorded.resuming hleft hcont hpending hbefore hexit
          exact hdone hresuming hchain
      · exact hreport .pending (.inr ⟨by simp, by simp, hleft⟩)

theorem lazyExit_kept {exit : JitNativeExit} {continuation : Option Pc}
    (hlinked : Linked prog m.frames) (hwaits : Waits prog .runner m rust anchors)
    (hfloor : ∀ outer ∈ anchors.head?, m.stop = outer.callee.ret ∨ Above prog outer anchor.floor)
    (hleft : Left prog (anchor :: anchors) m exit) :
    Kept prog (m.lazyExit continuation rust exit) := by
  have hwaits' : ∀ m', m'.stop = m.stop → m'.nextId = m.nextId → m'.rust = rust →
      Waits prog .runner m' m'.rust anchors := by
    intro m' hstop hnext hrust
    rw [hrust]
    exact hwaits.onward hstop (Nat.le_of_eq hnext.symm)
  cases exit with
  | keepGoing => exact ⟨hlinked, anchors, hwaits' _ rfl rfl rfl⟩
  | trap => exact ⟨hlinked, anchors, hwaits' _ rfl rfl rfl⟩
  | done layout =>
      cases layout with
      | none => exact ⟨hlinked, anchors, hwaits' _ rfl rfl rfl, .inr ⟨rfl, hleft.1.outer, hleft.2⟩⟩
      | some layout => cases hleft
  | fallbackPtr pc =>
      obtain ⟨hpending, hstanding⟩ := hleft
      exact ⟨hlinked, anchors, hwaits' _ rfl rfl rfl,
        .inl (.inl ⟨hstanding.1.outer, pc, rfl, fun _ => ⟨rfl, hstanding.2⟩⟩)⟩
  | pending => exact ⟨hlinked, anchors, hwaits' _ rfl rfl rfl, .inl (Arrived.outer hleft)⟩
  | continuePtr pc =>
      obtain ⟨hpending, -, hback⟩ := hleft
      simp only [Machine.lazyExit]
      split
      · refine ⟨hlinked, anchors, hwaits' _ rfl rfl rfl, hpending, ?_⟩
        refine hback.outer.imp_right fun hback' => ⟨?_, hback'⟩
        -- The caller was not inside of the call that has returned with it.
        obtain ⟨_, _, heq, -, hlength⟩ := hback.length
        obtain ⟨rfl, rfl⟩ := List.cons.inj heq
        obtain ⟨outer, _, rfl, hret, hlength'⟩ := hback'.length
        rcases hfloor outer rfl with hstop | ⟨above, base, heq', -⟩
        · exact hstop.trans hret
        · have hlonger := congrArg List.length heq'
          have hframes : m.frames.length = outer.floor.length := hlength'
          rw [← hlength, hframes, List.length_append, List.length_cons] at hlonger
          omega
      · refine ⟨hlinked, anchors, hwaits' _ rfl rfl rfl, .inl ?_⟩
        rcases hback.outer with hstanding | hback
        · exact .inl ⟨hstanding.1, pc, rfl, fun _ => ⟨rfl, hstanding.2⟩⟩
        · exact .inr ⟨hpending, pc, rfl, rfl, hback⟩

private theorem not_resumed {P : Waiting → Prop} (resumed : Waiting)
    (h : (none : Option Waiting) = some resumed) : P resumed := by
  cases h

theorem exitStep_kept {exit : JitNativeExit} {output : Option Waiting} (h : Kept prog m)
    (hcontrol : m.control = .exit exit) (hcalm : PositionCalm m)
    (hstep : m.exitStep prog exit = some (output, m')) :
    (∀ resumed, output = some resumed →
      Resumes resumed m'.frames ∧ m'.position = some (prog.next resumed.pc)) ∧ Kept prog m' := by
  obtain ⟨hlinked, hready⟩ := h
  simp only [Ready, hcontrol] at hready
  rcases hready with ⟨anchors, ⟨hstacked, hfresh⟩, hleft⟩ |
    ⟨waiting, rust, caller, anchors, hrust, hwaits, hrecorded, hexit⟩
  · unfold Machine.exitStep at hstep
    generalize hrust : m.rust = rust, hstop : m.stop = stop at hstacked
    cases hstacked with
    | finishCall hentry hrecorded hcontinuation hrecipe =>
        rw [hrust] at hstep
        obtain ⟨rfl, rfl⟩ := Prod.mk.inj (Option.some.inj hstep)
        subst hstop
        exact ⟨not_resumed, finishCall_kept hlinked hentry hfresh hrecorded hcontinuation hrecipe rfl hrust
          hcontrol hleft hcalm⟩
    | lazyCall hrunner hfloor =>
        rw [hrust] at hstep
        obtain ⟨rfl, rfl⟩ := Prod.mk.inj (Option.some.inj hstep)
        subst hstop
        have hfresh' := fun anchor hanchor => hfresh anchor (List.mem_cons_of_mem _ hanchor)
        exact ⟨not_resumed, lazyExit_kept hlinked ⟨hrunner, hfresh'⟩ hfloor hleft⟩
  · simp only [Machine.exitStep, hrust, Option.some.injEq] at hstep
    exact nativeResume_kept hlinked hwaits hrecorded hexit hstep

/-! ## Runs -/

theorem step_kept {choice : Choice} {output : Option Waiting} (h : Kept prog m)
    (hcalm : Calm prog ⟨m, choice, output, m'⟩) (hstep : m.step prog choice = some (output, m')) :
    ResumesOwnFrame prog ⟨m, choice, output, m'⟩ ∧ Kept prog m' := by
  obtain ⟨hposition, hhost⟩ := hcalm
  have hquiet : ∀ {next : Option Machine}, next.map (none, ·) = some (output, m') →
      (next = some m' → Kept prog m') → ResumesOwnFrame prog ⟨m, choice, output, m'⟩ ∧
        Kept prog m' := by
    intro next hnext hkept
    obtain ⟨_, rfl, heq⟩ := Option.map_eq_some_iff.mp hnext
    obtain ⟨rfl, rfl⟩ := Prod.mk.inj heq
    exact ⟨not_resumed, hkept rfl⟩
  unfold Machine.step at hstep
  cases hcontrol : m.control with
  | dispatch pc =>
      simp only [hcontrol, Option.some.injEq, Prod.mk.injEq] at hstep
      obtain ⟨rfl, rfl⟩ := hstep
      exact ⟨not_resumed, callCode_kept h hcontrol⟩
  | handler pc =>
      simp only [hcontrol] at hstep
      exact hquiet hstep (handler_kept h hcontrol hhost)
  | vmResult result =>
      simp only [hcontrol] at hstep
      exact hquiet hstep (vmResult_kept h hcontrol hposition)
  | native =>
      simp only [hcontrol] at hstep
      exact hquiet hstep (nativeStep_kept h hcontrol hhost)
  | exit exit =>
      simp only [hcontrol] at hstep
      exact exitStep_kept h hcontrol hposition hstep

theorem start_kept (prog : Program) (func : Nat) (compiled : Bool) :
    Kept prog (.start func compiled) := by
  cases compiled with
  | true =>
      refine ⟨rfl, _, [], ⟨.lazyCall .vmLoop (by simp), by simp [Machine.start]⟩, rfl,
        ⟨?_, rfl, by simp, trivial⟩, _, rfl, rfl, rfl, rfl⟩
      exact ⟨[], _, rfl, rfl, rfl, by simp, .inr ⟨rfl, rfl⟩⟩
  | false =>
      refine ⟨rfl, [], ⟨.vmLoop, by simp⟩, rfl, .inl ⟨trivial, ?_⟩⟩
      simp [Machine.start]

/-- In every run in which the bridges look at calm states, native code goes on in its own frame. -/
theorem bridge_resumes_own_frame (prog : Program) (func : Nat) (compiled : Bool)
    {choices : List Choice} {run : List BridgeMoment}
    (hrun : Lib.moments (Machine.step prog) (.start func compiled) choices = some run)
    (hcalm : ∀ now ∈ run, Calm prog now) : Lib.EachMoment (fun _ => ResumesOwnFrame prog) run := by
  refine Lib.eachMoment_of (fun _ => Kept prog) ?_ (start_kept prog func compiled) hrun hcalm
  intro _ m choice output m' hkept hstep hgood
  exact step_kept hkept hgood hstep

/-- Function 0 calls function 1, which can call function 0. -/
def recursiveCode : Program where
  handler
    | ⟨0, 0⟩ => .call true
    | ⟨1, 1⟩ => .call false
    | ⟨_, 2⟩ => .functionReturn
    | _ => .inside
  next pc := ⟨pc.func, pc.index + 1⟩
  callees
    | ⟨0, 0⟩ => [⟨1, 0, 0, .wasm⟩]
    | ⟨1, 1⟩ => [⟨0, 0, 0, .wasm⟩]
    | _ => []
  results _ := 0
  next_func _ := rfl
  next_injective := by
    rintro ⟨func, index⟩ ⟨func', index'⟩ h
    simp_all
  callee_results := by
    intro pc recipe h
    split at h <;> simp_all
  tail_results := by
    intro pc lazily h
    split at h <;> simp_all

/-- Native code of function 0 calls function 1, which returns at once. -/
def directReturn : List Choice :=
  [.helperCall ⟨0, 0⟩ ⟨1, 0, 0, .wasm⟩ 0 true .unimplemented, .go, .inside [] ⟨1, 2⟩, .go, .go, .go,
    .go]

theorem bridge_resumes_own_frame_directReturn :
    ∃ run, Lib.moments (Machine.step recursiveCode) (.start 0 true) directReturn = some run ∧
      Lib.EachMoment (fun _ => ResumesOwnFrame recursiveCode) run := by
  refine ⟨_, rfl, @bridge_resumes_own_frame recursiveCode 0 true directReturn _ rfl ?_⟩
  intro now hnow
  simp only [List.mem_cons, List.not_mem_nil, or_false] at hnow
  rcases hnow with rfl | rfl | rfl | rfl | rfl | rfl | rfl
  all_goals try exact ⟨trivial, trivial⟩
  refine ⟨⟨rfl, fun _ frame hframe => ?_⟩, trivial⟩
  obtain rfl := Option.some.inj hframe
  exact Nat.zero_lt_one

/-- Native code of function 0 calls function 1, which calls function 0 in the interpreter. That one calls
function 1 again, and this call returns to the stop position of the bridge. -/
def reentry : List Choice :=
  [.helperCall ⟨0, 0⟩ ⟨1, 0, 0, .wasm⟩ 0 true .unimplemented, .go, .inside [] ⟨1, 1⟩, .go,
    .call ⟨0, 0, 0, .wasm⟩ 0 .unimplemented, .go, .call ⟨1, 0, 0, .wasm⟩ 0 .unimplemented, .go, .go,
    .inside [] ⟨1, 2⟩, .go, .go, .go, .go]

theorem bridge_resumes_inner_frame :
    ∃ run, Lib.moments (Machine.step recursiveCode) (.start 0 true) reentry = some run ∧
      ¬ Lib.EachMoment (fun _ => ResumesOwnFrame recursiveCode) run := by
  refine ⟨_, rfl, fun hresumes => ?_⟩
  obtain ⟨⟨frame, hframes, -⟩, -⟩ :=
    hresumes [_, _, _, _, _, _, _, _, _, _, _, _, _] _ [] rfl _ rfl
  have hlength := congrArg List.length hframes
  cases hlength

end Telomere.Jit
