import Telomere.Runtime.JitBridge

/-!
# Native code goes on in its own frame

A bridge looks for the position at which its native code goes on, and not for the frame. As long as
nothing that was called since stands at this position, native code goes on with the frame it left, with
the results of its call.
-/

namespace Telomere.Jit

/-- The frame of the native code is the current one again, with the results of the call on what it had
kept. -/
def Resumes (waiting : Waiting) (frames : List Activation) : Prop :=
  ∃ frame, frames = frame :: waiting.below ∧ frame.id = waiting.frame.id ∧
    frame.func = waiting.frame.func ∧ frame.ret = waiting.frame.ret ∧
      ∀ recipe, waiting.recipe = some recipe → ∃ results : List Nat,
        results.length = recipe.results ∧ frame.operands = results ++ waiting.frame.operands

/-- Native code that goes on does so in its own frame, which stands behind the instruction. -/
def ResumesOwnFrame (prog : Program) (now : BridgeMoment) : Prop :=
  ∀ waiting, now.output = some waiting →
    Resumes waiting now.after.frames ∧ now.after.position = some (prog.next waiting.pc)

/-- The current activation was there when the native code began to wait. -/
def Machine.CalledBefore (m : Machine) (waiting : Waiting) : Prop :=
  ∀ frame ∈ m.frames.head?, frame.id < waiting.since

/-- When a bridge looks at the interpreter's position, no asynchronous host call is pending, and at the
position that the native code waits for there is no activation that was called since. -/
def PositionCalm (m : Machine) : Prop :=
  match m.control, m.rust with
  | .vmResult .success, .bridgeLoop stop _ _ :: .native waiting :: _ =>
      m.pending = 0 ∧ (m.cont = some stop → m.CalledBefore waiting)
  | .vmResult .success, .continuationOp stop _ :: .native waiting :: _ =>
      m.cont = some stop → m.pending = 0 ∧ m.CalledBefore waiting
  | .exit .pending, .finishCall continuation _ :: .native waiting :: _ =>
      m.cont = some continuation → m.pending = 0 ∧ m.CalledBefore waiting
  | _, _ => True

/-- A host function is not called in the place of the frame whose instruction a bridge runs: such a call
goes on below the frame instead of leaving the interpreter. -/
def HostCalm (prog : Program) (m : Machine) : Choice → Prop
  | .hostResults .. => ∀ pc lazily stop previous waiting rust, m.control = .handler pc →
      prog.handler pc = .returnCall lazily →
        m.rust = .continuationOp stop previous :: .native waiting :: rust →
          waiting.recipe = none → m.frames.length ≠ waiting.below.length + 1
  | .helperOp pc (.hostResults ..) => ∀ lazily, prog.handler pc ≠ .returnCall lazily
  | _ => True

def Calm (prog : Program) (now : BridgeMoment) : Prop :=
  PositionCalm now.before ∧ HostCalm prog now.before now.input

/-- Each frame returns behind a call of the frame below, the first one nowhere. -/
def Linked (prog : Program) : List Activation → Prop
  | [] => False
  | [frame] => frame.ret = none
  | frame :: caller :: rest =>
      (∃ pc lazily, prog.handler pc = .call lazily ∧ pc.func = caller.func ∧
        frame.ret = some (prog.next pc)) ∧ Linked prog (caller :: rest)

/-- The frames of a call that has not returned: the callee, or what replaced it, and what they called. -/
def Above (prog : Program) (anchor : Anchor) (frames : List Activation) : Prop :=
  ∃ above frame, frames = above ++ frame :: anchor.floor ∧ frame.ret = anchor.callee.ret ∧
    prog.results frame.func = prog.results anchor.callee.func ∧
      (∀ called ∈ above, anchor.fresh ≤ called.id) ∧
        (anchor.fresh ≤ frame.id ∨
          frame.id = anchor.callee.id ∧ frame.func = anchor.callee.func)

def Returned (prog : Program) (anchor : Anchor) (frames : List Activation) : Prop :=
  ∃ caller rest results, anchor.floor = caller :: rest ∧
    frames = { caller with operands := results ++ caller.operands } :: rest ∧
      results.length = prog.results anchor.callee.func

def Chain (prog : Program) : List Anchor → List Activation → Prop
  | [], _ => True
  | anchor :: anchors, frames =>
      Above prog anchor frames ∧ Linked prog (anchor.callee :: anchor.floor) ∧
        (∀ outer ∈ anchors, outer.fresh ≤ anchor.fresh) ∧
          Chain prog anchors (anchor.callee :: anchor.floor)

def Back (prog : Program) (anchors : List Anchor) (frames : List Activation) (pc : Pc) : Prop :=
  ∃ anchor outer, anchors = anchor :: outer ∧ Returned prog anchor frames ∧
    anchor.callee.ret = some pc ∧ Linked prog (anchor.callee :: anchor.floor) ∧
      (∀ b ∈ outer, b.fresh ≤ anchor.fresh) ∧ Chain prog outer (anchor.callee :: anchor.floor)

/-- The innermost call has not returned, and its current frame stands at this position. -/
def Standing (prog : Program) (anchors : List Anchor) (frames : List Activation) (pc : Pc) : Prop :=
  Chain prog anchors frames ∧ ∀ frame ∈ frames.head?, pc.func = frame.func

section Frames

variable {prog : Program} {anchor : Anchor} {anchors : List Anchor} {frame frame' : Activation}
  {rest : List Activation} {pc : Pc}

theorem Linked.top (h : Linked prog (frame :: rest)) (hret : frame'.ret = frame.ret) :
    Linked prog (frame' :: rest) := by
  cases rest with
  | nil => exact hret.trans h
  | cons caller rest =>
      obtain ⟨⟨pc, lazily, hhandler, hfunc, hpc⟩, htail⟩ := h
      exact ⟨⟨pc, lazily, hhandler, hfunc, hret.trans hpc⟩, htail⟩

theorem Linked.push {caller : Activation} (h : Linked prog (frame' :: rest))
    {lazily : Bool} (hhandler : prog.handler pc = .call lazily) (hfunc : pc.func = caller.func)
    (hret : frame.ret = some (prog.next pc)) (hcaller : caller.ret = frame'.ret) :
    Linked prog (frame :: caller :: rest) :=
  ⟨⟨pc, lazily, hhandler, hfunc, hret⟩, h.top hcaller⟩

theorem Linked.first (h : Linked prog (frame :: rest)) (hret : frame.ret = none) : rest = [] := by
  cases rest with
  | nil => rfl
  | cons caller rest =>
      obtain ⟨⟨pc, lazily, -, -, hpc⟩, -⟩ := h
      rw [hret] at hpc
      cases hpc

theorem Linked.ret_func {caller : Activation} (h : Linked prog (frame :: caller :: rest))
    (hret : frame.ret = some pc) : pc.func = caller.func := by
  obtain ⟨⟨pc', lazily, -, hfunc, hpc'⟩, -⟩ := h
  obtain rfl := Option.some.inj (hret.symm.trans hpc')
  rw [prog.next_func, hfunc]

theorem Above.top (h : Above prog anchor (frame :: rest)) (hid : frame'.id = frame.id)
    (hfunc : frame'.func = frame.func) (hret : frame'.ret = frame.ret) :
    Above prog anchor (frame' :: rest) := by
  obtain ⟨above, base, heq, hbase, hresults, habove, hid'⟩ := h
  cases above with
  | nil =>
      obtain ⟨rfl, rfl⟩ := List.cons.inj heq
      exact ⟨[], frame', rfl, hret.trans hbase, by rw [hfunc, hresults], by simp,
        by rwa [hid, hfunc]⟩
  | cons called above =>
      obtain ⟨rfl, rfl⟩ := List.cons.inj heq
      refine ⟨frame' :: above, base, rfl, hbase, hresults, ?_, hid'⟩
      intro x hx
      rcases List.mem_cons.mp hx with rfl | hx
      · rw [hid]
        exact habove frame (List.mem_cons_self ..)
      · exact habove x (List.mem_cons_of_mem _ hx)

theorem Above.push (h : Above prog anchor rest) (hid : anchor.fresh ≤ frame.id) :
    Above prog anchor (frame :: rest) := by
  obtain ⟨above, base, rfl, hbase, hresults, habove, hid'⟩ := h
  refine ⟨frame :: above, base, rfl, hbase, hresults, ?_, hid'⟩
  intro x hx
  rcases List.mem_cons.mp hx with rfl | hx
  · exact hid
  · exact habove x hx

theorem Above.replace (h : Above prog anchor (frame :: rest)) (hid : anchor.fresh ≤ frame'.id)
    (hret : frame'.ret = frame.ret)
    (hresults : prog.results frame'.func = prog.results frame.func) :
    Above prog anchor (frame' :: rest) := by
  obtain ⟨above, base, heq, hbase, hresults', habove, hid'⟩ := h
  cases above with
  | nil =>
      obtain ⟨rfl, rfl⟩ := List.cons.inj heq
      exact ⟨[], frame', rfl, hret.trans hbase, hresults.trans hresults', by simp, .inl hid⟩
  | cons called above =>
      obtain ⟨rfl, rfl⟩ := List.cons.inj heq
      refine ⟨frame' :: above, base, rfl, hbase, hresults', ?_, hid'⟩
      intro x hx
      rcases List.mem_cons.mp hx with rfl | hx
      · exact hid
      · exact habove x (List.mem_cons_of_mem _ hx)

/-- A frame that returns is one that was called inside, or the call itself. -/
theorem Above.pop {caller : Activation} (h : Above prog anchor (frame :: caller :: rest))
    {results : List Nat} (hlength : results.length = prog.results frame.func) :
    Above prog anchor ({ caller with operands := results ++ caller.operands } :: rest) ∨
      Returned prog anchor ({ caller with operands := results ++ caller.operands } :: rest) ∧
        frame.ret = anchor.callee.ret := by
  obtain ⟨above, base, heq, hbase, hresults, habove, hid⟩ := h
  cases above with
  | nil =>
      obtain ⟨rfl, hfloor⟩ := List.cons.inj heq
      exact .inr ⟨⟨caller, rest, results, hfloor.symm, rfl, hlength.trans hresults⟩, hbase⟩
  | cons called above =>
      obtain ⟨rfl, htail⟩ := List.cons.inj heq
      have hinner : Above prog anchor (caller :: rest) :=
        ⟨above, base, htail, hbase, hresults,
          fun x hx => habove x (List.mem_cons_of_mem _ hx), hid⟩
      exact .inl (hinner.top rfl rfl rfl)

theorem Above.outer {outer : Anchor} {frames : List Activation} (h : Above prog anchor frames)
    (houter : Above prog outer (anchor.callee :: anchor.floor))
    (hfresh : outer.fresh ≤ anchor.fresh) : Above prog outer frames := by
  obtain ⟨above, base, rfl, hbase, hresults, habove, hid⟩ := h
  obtain ⟨above', base', heq, hbase', hresults', habove', hid'⟩ := houter
  cases above' with
  | nil =>
      obtain ⟨rfl, hfloor⟩ := List.cons.inj heq
      refine ⟨above, base, by rw [hfloor], hbase.trans hbase', hresults.trans hresults',
        fun x hx => Nat.le_trans hfresh (habove x hx), ?_⟩
      rcases hid with hid | ⟨hid, hfunc⟩
      · exact .inl (Nat.le_trans hfresh hid)
      · rwa [hid, hfunc]
  | cons called above' =>
      obtain ⟨rfl, hfloor⟩ := List.cons.inj heq
      refine ⟨above ++ base :: above', base', by simp [hfloor], hbase', hresults', ?_, hid'⟩
      intro x hx
      rcases List.mem_append.mp hx with hx | hx
      · exact Nat.le_trans hfresh (habove x hx)
      · rcases List.mem_cons.mp hx with rfl | hx
        · rcases hid with hid | ⟨hid, -⟩
          · exact Nat.le_trans hfresh hid
          · rw [hid]
            exact habove' _ (List.mem_cons_self ..)
        · exact habove' x (List.mem_cons_of_mem _ hx)

theorem Chain.mono {frames frames' : List Activation} (h : Chain prog anchors frames)
    (habove : ∀ anchor ∈ anchors, Above prog anchor frames → Above prog anchor frames') :
    Chain prog anchors frames' := by
  cases anchors with
  | nil => trivial
  | cons anchor anchors =>
      exact ⟨habove anchor (List.mem_cons_self ..) h.1, h.2⟩

theorem Chain.top (h : Chain prog anchors (frame :: rest)) (hid : frame'.id = frame.id)
    (hfunc : frame'.func = frame.func) (hret : frame'.ret = frame.ret) :
    Chain prog anchors (frame' :: rest) :=
  h.mono fun _ _ habove => habove.top hid hfunc hret

theorem Chain.push (h : Chain prog anchors rest)
    (hfresh : ∀ anchor ∈ anchors, anchor.fresh ≤ frame.id) :
    Chain prog anchors (frame :: rest) :=
  h.mono fun anchor hanchor habove => habove.push (hfresh anchor hanchor)

theorem Chain.replace (h : Chain prog anchors (frame :: rest))
    (hfresh : ∀ anchor ∈ anchors, anchor.fresh ≤ frame'.id) (hret : frame'.ret = frame.ret)
    (hresults : prog.results frame'.func = prog.results frame.func) :
    Chain prog anchors (frame' :: rest) :=
  h.mono fun anchor hanchor habove => habove.replace (hfresh anchor hanchor) hret hresults

theorem Chain.outer {frames : List Activation} (h : Chain prog (anchor :: anchors) frames) :
    Chain prog anchors frames := by
  obtain ⟨habove, -, hfresh, houter⟩ := h
  exact houter.mono fun outer hmem hab => habove.outer hab (hfresh outer hmem)

/-- The frame that returns ends the innermost wait, or one that was called inside. -/
theorem Chain.pop {caller : Activation} (h : Chain prog anchors (frame :: caller :: rest))
    (hlinked : Linked prog (frame :: caller :: rest)) (hret : frame.ret = some pc)
    {results : List Nat} (hlength : results.length = prog.results frame.func) :
    Standing prog anchors ({ caller with operands := results ++ caller.operands } :: rest) pc ∨
      Back prog anchors ({ caller with operands := results ++ caller.operands } :: rest) pc := by
  have hfunc := hlinked.ret_func hret
  cases anchors with
  | nil => exact .inl ⟨trivial, by simpa using hfunc⟩
  | cons anchor anchors =>
      obtain ⟨habove, hbase, hfresh, houter⟩ := h
      rcases habove.pop hlength with habove | ⟨hreturned, hcallee⟩
      · exact .inl ⟨⟨habove, hbase, hfresh, houter⟩, by simpa using hfunc⟩
      · exact .inr ⟨anchor, anchors, rfl, hreturned, hcallee ▸ hret, hbase, hfresh, houter⟩

/-- When a wait is given up whose call has returned, the next one has returned with it or goes on. -/
theorem Back.outer {frames : List Activation} (h : Back prog (anchor :: anchors) frames pc) :
    Standing prog anchors frames pc ∨ Back prog anchors frames pc := by
  obtain ⟨_, _, heq, ⟨caller, below, results, hfloor, rfl, hlength⟩, hret, hbase, -, houter⟩ := h
  obtain ⟨rfl, rfl⟩ := List.cons.inj heq
  rw [hfloor] at hbase houter
  exact houter.pop hbase hret hlength

end Frames

/-- What waits, and in which frame: the outer wait is that of the call that entered the native code. -/
structure Recorded (prog : Program) (outer : Anchor) (waiting : Waiting) : Prop where
  id : waiting.frame.id = outer.callee.id
  func : waiting.frame.func = outer.callee.func
  ret : waiting.frame.ret = outer.callee.ret
  below : waiting.below = outer.floor
  since : waiting.since ≤ waiting.anchor.fresh
  called : ∀ recipe, waiting.recipe = some recipe →
    waiting.anchor.floor = waiting.frame :: waiting.below ∧
      waiting.anchor.callee.ret = some (prog.next waiting.pc) ∧
        prog.results waiting.anchor.callee.func = recipe.results ∧
          waiting.since ≤ waiting.anchor.callee.id
  ran : waiting.recipe = none → waiting.anchor.floor = waiting.below ∧
    waiting.anchor.callee = waiting.frame ∧ Linked prog (waiting.frame :: waiting.below) ∧
      ∀ lazily, prog.handler waiting.pc ≠ .call lazily
  direct : waiting.continuation = false → waiting.recipe ≠ none

inductive Mode where
  | runner | entry

/-- The Rust calls under the interpreter or under native code, with the calls they wait for and the stop
position they have set. -/
inductive Stacked (prog : Program) : Mode → List RustFrame → List Anchor → Option Pc → Prop where
  | vmLoop : Stacked prog .runner [.vmLoop] [] none
  | bridgeLoop {rust : List RustFrame} {outer : Anchor} {anchors : List Anchor} {stop : Option Pc}
      {waiting : Waiting} {recipe : Recipe} : Stacked prog .entry rust (outer :: anchors) stop →
        Recorded prog outer waiting → waiting.continuation = false →
          waiting.recipe = some recipe →
            Stacked prog .runner
              (.bridgeLoop (prog.next waiting.pc) stop recipe :: .native waiting :: rust)
              (waiting.anchor :: outer :: anchors) (some (prog.next waiting.pc))
  | continuationOp {rust : List RustFrame} {outer : Anchor} {anchors : List Anchor}
      {stop : Option Pc} {waiting : Waiting} : Stacked prog .entry rust (outer :: anchors) stop →
        Recorded prog outer waiting → waiting.continuation = true →
          Stacked prog .runner (.continuationOp (prog.next waiting.pc) stop :: .native waiting :: rust)
            (waiting.anchor :: outer :: anchors) (some (prog.next waiting.pc))
  | finishCall {rust : List RustFrame} {outer : Anchor} {anchors : List Anchor} {stop : Option Pc}
      {waiting : Waiting} {recipe : Recipe} : Stacked prog .entry rust (outer :: anchors) stop →
        Recorded prog outer waiting → waiting.continuation = false →
          waiting.recipe = some recipe →
            Stacked prog .entry
              (.finishCall (prog.next waiting.pc) recipe :: .native waiting :: rust)
              (waiting.anchor :: outer :: anchors) stop
  | lazyCall {rust : List RustFrame} {anchors : List Anchor} {stop continuation : Option Pc}
      {anchor : Anchor} : Stacked prog .runner rust anchors stop →
        (∀ outer ∈ anchors.head?, stop = outer.callee.ret ∨ Above prog outer anchor.floor) →
          Stacked prog .entry (.lazyCall continuation anchor :: rust) (anchor :: anchors) stop

/-- A position that the interpreter has come to: in the call that is waited for, or behind it. -/
def Arrived (prog : Program) (anchors : List Anchor) (m : Machine) : Prop :=
  (Chain prog anchors m.frames ∧ ∃ pc, m.cont = some pc ∧ (m.pending = 0 →
      m.position = some pc ∧ ∀ frame ∈ m.frames.head?, pc.func = frame.func)) ∨
    m.pending = 0 ∧ ∃ pc, m.cont = some pc ∧ m.position = some pc ∧ Back prog anchors m.frames pc

/-- What is known when an exit does not let native code go on. -/
def Left (prog : Program) (anchors : List Anchor) (m : Machine) : JitNativeExit → Prop
  | .keepGoing | .trap => True
  | .continuePtr pc => m.pending = 0 ∧ m.position = some pc ∧ Back prog anchors m.frames pc
  | .done none => Chain prog anchors m.frames ∧ m.frames.length = 1
  | .done (some _) => False
  | .fallbackPtr pc => m.pending = 0 ∧ Standing prog anchors m.frames pc
  | .pending => Arrived prog anchors m

/-- Native code of the current frame runs, for the innermost call. -/
def InNative (prog : Program) (anchor : Anchor) (anchors : List Anchor)
    (frames : List Activation) : Prop :=
  Chain prog (anchor :: anchors) frames ∧ ∃ frame, frames = frame :: anchor.floor ∧
    frame.id = anchor.callee.id ∧ frame.func = anchor.callee.func ∧ frame.ret = anchor.callee.ret

structure Waits (prog : Program) (mode : Mode) (m : Machine) (rust : List RustFrame)
    (anchors : List Anchor) : Prop where
  stacked : Stacked prog mode rust anchors m.stop
  fresh : ∀ anchor ∈ anchors, anchor.fresh ≤ m.nextId

structure Resuming (prog : Program) (m : Machine) (waiting : Waiting) (exit : JitNativeExit) :
    Prop where
  exit : (∃ recipe, waiting.recipe = some recipe ∧ waiting.continuation = false ∧
      exit = .done (some (recipe.params, recipe.results))) ∨
    waiting.continuation = true ∧ exit = .keepGoing
  pending : m.pending = 0
  resumes : Resumes waiting m.frames
  position : m.position = some (prog.next waiting.pc)

def Ready (prog : Program) (m : Machine) : Prop :=
  match m.control with
  | .dispatch pc => ∃ anchors, Waits prog .runner m m.rust anchors ∧ m.pending = 0 ∧
      (Standing prog anchors m.frames pc ∨ m.stop = some pc ∧ Back prog anchors m.frames pc)
  | .handler pc => ∃ anchors, Waits prog .runner m m.rust anchors ∧ m.pending = 0 ∧
      m.cont = some pc ∧ m.position = some pc ∧ Standing prog anchors m.frames pc
  | .vmResult .success => ∃ anchors, Waits prog .runner m m.rust anchors ∧
      (Arrived prog anchors m ∨ m.cont = none ∧ Chain prog anchors m.frames ∧ m.frames.length = 1)
  | .vmResult .unimplemented => ∃ anchors, Waits prog .runner m m.rust anchors ∧ m.pending = 0 ∧
      ∀ pc, m.cont = some pc → Standing prog anchors m.frames pc
  | .vmResult .trap => ∃ anchors, Waits prog .runner m m.rust anchors
  | .native => ∃ anchor anchors, Waits prog .entry m m.rust (anchor :: anchors) ∧ m.pending = 0 ∧
      InNative prog anchor anchors m.frames
  | .exit exit =>
      (∃ anchors, Waits prog .entry m m.rust anchors ∧ Left prog anchors m exit) ∨
      ∃ waiting rust outer anchors, m.rust = .native waiting :: rust ∧
        Waits prog .entry m rust (outer :: anchors) ∧ Recorded prog outer waiting ∧
          (Resuming prog m waiting exit ∧ Chain prog (outer :: anchors) m.frames ∨
            (waiting.continuation = true → exit ≠ .keepGoing) ∧ (∀ pc, exit ≠ .continuePtr pc) ∧
              Left prog (waiting.anchor :: outer :: anchors) m exit)

structure Kept (prog : Program) (m : Machine) : Prop where
  linked : Linked prog m.frames
  ready : Ready prog m

section Recorded

variable {prog : Program} {outer : Anchor} {waiting : Waiting} {anchors : List Anchor}
  {frames : List Activation}

/-- Of what was called or ran since, only the frame itself is older than the wait. -/
theorem Recorded.resumes_here (h : Recorded prog outer waiting)
    (habove : Above prog waiting.anchor frames)
    (hbefore : ∀ frame ∈ frames.head?, frame.id < waiting.since) : Resumes waiting frames := by
  obtain ⟨above, base, rfl, hbase, -, hnew, hid⟩ := habove
  have hsince := h.since
  cases above with
  | cons called above =>
      have hcalled := hnew called (List.mem_cons_self ..)
      have hold := hbefore called (by simp)
      omega
  | nil =>
      have hold := hbefore base (by simp)
      rcases hid with hid | ⟨hid, hfunc⟩
      · omega
      cases hrecipe : waiting.recipe with
      | some recipe =>
          obtain ⟨-, -, -, hcallee⟩ := h.called recipe hrecipe
          omega
      | none =>
          obtain ⟨hfloor, hcallee, -, -⟩ := h.ran hrecipe
          rw [hcallee] at hid hfunc hbase
          exact ⟨base, by rw [hfloor]; rfl, hid, hfunc, hbase, by simp [hrecipe]⟩

/-- A call that returns behind the instruction is the one that was waited for. -/
theorem Recorded.resumes_back (h : Recorded prog outer waiting)
    (hback : Back prog (waiting.anchor :: anchors) frames (prog.next waiting.pc)) :
    Resumes waiting frames := by
  obtain ⟨_, _, heq, ⟨caller, below, results, hfloor, rfl, hlength⟩, hret, -, -, -⟩ := hback
  obtain ⟨rfl, rfl⟩ := List.cons.inj heq
  cases hrecipe : waiting.recipe with
  | some recipe =>
      obtain ⟨hfloor', -, hresults, -⟩ := h.called recipe hrecipe
      obtain ⟨rfl, rfl⟩ := List.cons.inj (hfloor'.symm.trans hfloor)
      refine ⟨_, rfl, rfl, rfl, rfl, fun recipe' hrecipe' => ⟨results, ?_, rfl⟩⟩
      obtain rfl := Option.some.inj (hrecipe.symm.trans hrecipe')
      exact hlength.trans hresults
  | none =>
      -- The frame returns behind a call, and the instruction is none.
      obtain ⟨hfloor', hcallee, hlinked, hhandler⟩ := h.ran hrecipe
      rw [← hfloor', hfloor] at hlinked
      obtain ⟨⟨pc, lazily, hcall, -, hpc⟩, -⟩ := hlinked
      rw [← hcallee, hret] at hpc
      obtain rfl := prog.next_injective _ _ (Option.some.inj hpc)
      exact absurd hcall (hhandler lazily)

theorem Recorded.chain_back (h : Recorded prog outer waiting)
    (hback : Back prog (waiting.anchor :: outer :: anchors) frames (prog.next waiting.pc)) :
    Chain prog (outer :: anchors) frames := by
  obtain ⟨frame, rfl, -⟩ := h.resumes_back hback
  rcases hback.outer with hstanding | hback
  · exact hstanding.1
  · obtain ⟨_, _, heq, ⟨caller, below, results, hfloor, hframes, -⟩, -⟩ := hback
    obtain ⟨rfl, -⟩ := List.cons.inj heq
    have hlength := congrArg List.length hframes
    rw [h.below, hfloor] at hlength
    simp at hlength

end Recorded

section Interpreter

variable {prog : Program} {m m' called : Machine} {anchors : List Anchor} {pc : Pc}
  {recipe : Recipe}

theorem callCode_kept (h : Kept prog m) (hcontrol : m.control = .dispatch pc) :
    Kept prog (m.callCode pc) := by
  obtain ⟨hlinked, hready⟩ := h
  simp only [Ready, hcontrol] at hready
  obtain ⟨anchors, hwaits, hpending, hat⟩ := hready
  unfold Machine.callCode
  split
  · next hstop =>
      refine ⟨hlinked, anchors, ⟨hwaits.stacked, hwaits.fresh⟩, .inl ?_⟩
      rcases hat with ⟨hchain, hfunc⟩ | ⟨-, hback⟩
      · exact .inl ⟨hchain, pc, rfl, fun _ => ⟨rfl, hfunc⟩⟩
      · exact .inr ⟨hpending, pc, rfl, rfl, hback⟩
  · next hstop =>
      have hstanding := hat.resolve_right fun hback => hstop hback.1
      exact ⟨hlinked, anchors, ⟨hwaits.stacked, hwaits.fresh⟩, hpending, rfl, rfl, hstanding⟩

theorem Stacked.unguarded {rust : List RustFrame} {stop : Option Pc}
    (h : Stacked prog .runner rust anchors stop) (hstop : stop = none) : anchors = [] := by
  cases h with
  | vmLoop => rfl
  | bridgeLoop => cases hstop
  | continuationOp => cases hstop

theorem dispatchCallee_kept (hlinked : Linked prog called.frames)
    (hwaits : Waits prog .runner called called.rust anchors) (hpending : called.pending = 0)
    (hchain : Chain prog anchors called.frames)
    (hhead : ∀ frame ∈ called.frames.head?, frame.func = recipe.func) :
    Kept prog (called.withControl (.dispatch ⟨recipe.func, 0⟩)) :=
  ⟨hlinked, anchors, ⟨hwaits.stacked, hwaits.fresh⟩, hpending,
    .inl ⟨hchain, fun frame hframe => (hhead frame hframe).symm⟩⟩

theorem suspended_kept (hlinked : Linked prog called.frames)
    (hwaits : Waits prog .runner called called.rust anchors)
    (hchain : Chain prog anchors called.frames) (n : Nat) :
    Kept prog { (called.setCont pc) with pending := n + 1, control := .vmResult .success } := by
  refine ⟨hlinked, anchors, ⟨hwaits.stacked, hwaits.fresh⟩, .inl (.inl ⟨hchain, pc, rfl, ?_⟩)⟩
  intro hpending
  cases hpending

theorem enterLazily_kept {continuation : Option Pc} {entry : Entry}
    (hlinked : Linked prog called.frames)
    (hwaits : Waits prog .runner called called.rust anchors) (hpending : called.pending = 0)
    (hchain : Chain prog anchors called.frames)
    (hfloor : ∀ frame below, called.frames = frame :: below → ∀ outer ∈ anchors.head?,
      called.stop = outer.callee.ret ∨ Above prog outer below)
    (h : called.enterLazily continuation entry = some m') : Kept prog m' := by
  obtain ⟨frames, cont, stop, rust, control, pending, position, nextId⟩ := called
  cases frames with
  | nil => cases h
  | cons frame below =>
      cases entry with
      | trap =>
          obtain rfl := Option.some.inj h
          exact ⟨hlinked, anchors, ⟨hwaits.stacked, hwaits.fresh⟩⟩
      | unimplemented =>
          obtain rfl := Option.some.inj h
          refine ⟨hlinked, anchors, ⟨hwaits.stacked, hwaits.fresh⟩,
            .inl (.inl ⟨hchain, ⟨frame.func, 0⟩, rfl, fun _ => ⟨rfl, fun head hhead => ?_⟩⟩)⟩
          obtain rfl := Option.some.inj hhead
          rfl
      | compiled =>
          obtain rfl := Option.some.inj h
          refine ⟨hlinked, ⟨frame, below, nextId⟩, anchors,
            ⟨.lazyCall hwaits.stacked (hfloor frame below rfl), ?_⟩, hpending, ?_⟩
          · intro anchor hanchor
            rcases List.mem_cons.mp hanchor with rfl | hanchor
            · exact Nat.le_refl _
            · exact hwaits.fresh anchor hanchor
          · exact ⟨⟨⟨[], frame, rfl, rfl, rfl, by simp, .inr ⟨rfl, rfl⟩⟩, hlinked, hwaits.fresh,
              hchain⟩, frame, rfl, rfl, rfl, rfl⟩

theorem pushFrame_some {popped : Nat} {ret : Pc} (h : m.pushFrame recipe popped ret = some called) :
    ∃ frame below, m.frames = frame :: below ∧ called = { m with
      frames := ⟨m.nextId, recipe.func, some ret, []⟩ ::
        { frame with operands := frame.operands.drop popped } :: below
      nextId := m.nextId + 1 } := by
  unfold Machine.pushFrame at h
  split at h
  · cases h
  · next frame below hframes =>
      split at h
      · exact ⟨frame, below, hframes, (Option.some.inj h).symm⟩
      · cases h

theorem replaceFrame_some (h : m.replaceFrame recipe = some called) :
    ∃ frame below, m.frames = frame :: below ∧ called = { m with
      frames := ⟨m.nextId, recipe.func, frame.ret, []⟩ :: below
      nextId := m.nextId + 1 } := by
  unfold Machine.replaceFrame at h
  split at h
  · cases h
  · next frame below hframes => exact ⟨frame, below, hframes, (Option.some.inj h).symm⟩

theorem popFrame_some {results : List Nat} {ret : Option Pc} {popped : Machine}
    (h : m.popFrame results = some (popped, ret)) :
    (∃ frame below, m.frames = frame :: below ∧ frame.ret = none ∧ ret = none ∧ popped = m) ∨
      ∃ frame caller rest pc, m.frames = frame :: caller :: rest ∧ frame.ret = some pc ∧
        ret = some pc ∧ popped = { m with
          frames := { caller with operands := results ++ caller.operands } :: rest
          position := some pc } := by
  unfold Machine.popFrame at h
  cases hframes : m.frames with
  | nil =>
      rw [hframes] at h
      cases h
  | cons frame below =>
      simp only [hframes] at h
      cases hret : frame.ret with
      | none =>
          simp only [hret, Option.some.injEq, Prod.mk.injEq] at h
          obtain ⟨rfl, rfl⟩ := h
          exact .inl ⟨frame, below, rfl, hret, rfl, rfl⟩
      | some pc =>
          cases below with
          | nil => simp [hret] at h
          | cons caller rest =>
              simp only [hret, Option.some.injEq, Prod.mk.injEq] at h
              obtain ⟨rfl, rfl⟩ := h
              exact .inr ⟨frame, caller, rest, pc, rfl, hret, rfl, rfl⟩

theorem returned_some {results : List Nat} (h : m.returned prog = some results) :
    ∀ frame ∈ m.frames.head?, results.length = prog.results frame.func := by
  unfold Machine.returned at h
  intro frame hframe
  split at h
  · cases h
  · next head below hframes =>
      obtain rfl : head = frame := by simpa [hframes] using hframe
      split at h
      · next hle =>
          obtain rfl := Option.some.inj h
          exact List.length_take_of_le hle
      · cases h

theorem popFrame_kept {results : List Nat} {ret : Option Pc} {popped : Machine}
    (hlinked : Linked prog m.frames) (hchain : Chain prog anchors m.frames)
    (hlength : ∀ frame ∈ m.frames.head?, results.length = prog.results frame.func)
    (h : m.popFrame results = some (popped, ret)) :
    (ret = none ∧ popped = m ∧ m.frames.length = 1) ∨
      ∃ pc frames, ret = some pc ∧ popped = { m with frames := frames, position := some pc } ∧
        Linked prog frames ∧ (Standing prog anchors frames pc ∨ Back prog anchors frames pc) := by
  rcases popFrame_some h with ⟨frame, below, hframes, hret, rfl, rfl⟩ |
    ⟨frame, caller, rest, pc, hframes, hret, rfl, rfl⟩
  · rw [hframes] at hlinked
    refine .inl ⟨rfl, rfl, ?_⟩
    rw [hframes, hlinked.first hret, List.length_singleton]
  · rw [hframes] at hlinked hchain
    have hresults := hlength frame (by simp [hframes])
    refine .inr ⟨pc, _, rfl, rfl, ?_, hchain.pop hlinked hret hresults⟩
    exact hlinked.2.top rfl

theorem functionReturn_kept (hlinked : Linked prog m.frames)
    (hwaits : Waits prog .runner m m.rust anchors) (hpending : m.pending = 0)
    (hchain : Chain prog anchors m.frames) (h : m.functionReturn prog = some m') :
    Kept prog m' := by
  unfold Machine.functionReturn at h
  obtain ⟨results, hresults, h⟩ := Option.bind_eq_some_iff.mp h
  obtain ⟨⟨popped, ret⟩, hpop, h⟩ := Option.bind_eq_some_iff.mp h
  rcases popFrame_kept hlinked hchain (returned_some hresults) hpop with
    ⟨rfl, rfl, hlength⟩ | ⟨pc, frames, rfl, rfl, hlinked', hat⟩
  · obtain rfl := Option.some.inj h
    exact ⟨hlinked, anchors, ⟨hwaits.stacked, hwaits.fresh⟩, .inr ⟨rfl, hchain, hlength⟩⟩
  · dsimp only at h
    split at h
    · obtain rfl := Option.some.inj h
      refine ⟨hlinked', anchors, ⟨hwaits.stacked, hwaits.fresh⟩, .inl ?_⟩
      rcases hat with ⟨hchain', hfunc⟩ | hback
      · exact .inl ⟨hchain', pc, rfl, fun _ => ⟨rfl, hfunc⟩⟩
      · exact .inr ⟨hpending, pc, rfl, rfl, hback⟩
    · next hstop =>
        obtain rfl := Option.some.inj h
        have hnil := hwaits.stacked.unguarded (by simpa using hstop)
        refine ⟨hlinked', anchors, ⟨hwaits.stacked, hwaits.fresh⟩, hpending, .inl ?_⟩
        refine hat.resolve_right fun hback => ?_
        obtain ⟨_, _, heq, -⟩ := hback
        rw [hnil] at heq
        cases heq

theorem Back.length {frames : List Activation} (h : Back prog anchors frames pc) :
    ∃ anchor outer, anchors = anchor :: outer ∧ anchor.callee.ret = some pc ∧
      frames.length = anchor.floor.length := by
  obtain ⟨anchor, outer, rfl, ⟨caller, rest, results, hfloor, rfl, -⟩, hret, -⟩ := h
  exact ⟨anchor, outer, rfl, hret, by rw [hfloor]; rfl⟩

theorem Waits.onward {mode : Mode} {rust : List RustFrame} (h : Waits prog mode m rust anchors)
    (hstop : m'.stop = m.stop) (hnext : m.nextId ≤ m'.nextId) :
    Waits prog mode m' rust anchors :=
  ⟨hstop ▸ h.stacked, fun anchor hanchor => Nat.le_trans (h.fresh anchor hanchor) hnext⟩

theorem hostReturned_kept {frames : List Activation} {position : Option Pc} {nextId : Nat}
    (hlinked : Linked prog frames) (hwaits : Waits prog .runner m m.rust anchors)
    (hpending : m.pending = 0) (hnext : m.nextId ≤ nextId)
    (hat : Standing prog anchors frames pc ∨ m.stop = some pc ∧ Back prog anchors frames pc) :
    Kept prog { m with
      frames := frames
      position := position
      nextId := nextId
      control := .dispatch pc } :=
  ⟨hlinked, anchors, ⟨hwaits.stacked,
    fun anchor hanchor => Nat.le_trans (hwaits.fresh anchor hanchor) hnext⟩, hpending, hat⟩

theorem opReturnCall_kept {lazily : Bool} {choice : Choice} (hlinked : Linked prog m.frames)
    (hwaits : Waits prog .runner m m.rust anchors) (hpending : m.pending = 0)
    (hhandler : prog.handler pc = .returnCall lazily) (hstanding : Standing prog anchors m.frames pc)
    (hback : ∀ recipe popped results, choice = .hostResults recipe popped results →
      ∀ frames ret, frames.length + 1 = m.frames.length → Back prog anchors frames ret →
        m.stop = some ret)
    (h : m.opReturnCall prog pc lazily choice = some m') : Kept prog m' := by
  have hresults : ∀ frame below recipe, m.frames = frame :: below → recipe ∈ prog.callees pc →
      prog.results recipe.func = prog.results frame.func := by
    intro frame below recipe hframes hmem
    rw [← prog.callee_results pc recipe hmem, prog.tail_results pc lazily hhandler recipe hmem,
      hstanding.2 frame (by simp [hframes])]
  have hreplaced : ∀ recipe called, recipe ∈ prog.callees pc → m.replaceFrame recipe = some called →
      ∃ frame below, m.frames = frame :: below ∧ called = { m with
        frames := ⟨m.nextId, recipe.func, frame.ret, []⟩ :: below
        nextId := m.nextId + 1 } ∧
          Linked prog called.frames ∧ Chain prog anchors called.frames := by
    intro recipe called hmem hreplace
    obtain ⟨frame, below, hframes, rfl⟩ := replaceFrame_some hreplace
    rw [hframes] at hlinked
    have hchain := hframes ▸ hstanding.1
    exact ⟨frame, below, hframes, rfl, hlinked.top rfl,
      hchain.replace hwaits.fresh rfl (hresults frame below recipe hframes hmem)⟩
  cases choice with
  | call recipe popped entry =>
      unfold Machine.opReturnCall at h
      dsimp only at h
      split at h
      · next hmem =>
          obtain ⟨called, hreplace, h⟩ := Option.bind_eq_some_iff.mp h
          obtain ⟨frame, below, hframes, rfl, hlinked', hchain'⟩ := hreplaced _ _ hmem.1 hreplace
          have hwaits' : Waits prog .runner { m with
              frames := ⟨m.nextId, recipe.func, frame.ret, []⟩ :: below
              nextId := m.nextId + 1 } m.rust anchors :=
            hwaits.onward rfl (Nat.le_succ _)
          split at h
          · obtain rfl := Option.some.inj h
            exact suspended_kept hlinked' hwaits' hchain' m.pending
          · split at h
            · next hlazily =>
                -- Under no bridge, so that nothing is waited for.
                obtain rfl := hwaits.stacked.unguarded hlazily.2
                exact enterLazily_kept hlinked' hwaits' hpending hchain' (by simp) h
            · obtain rfl := Option.some.inj h
              exact dispatchCallee_kept hlinked' hwaits' hpending hchain' (by simp)
      · cases h
  | hostResults recipe popped results =>
      unfold Machine.opReturnCall at h
      dsimp only at h
      split at h
      · next hmem =>
          obtain ⟨called, hreplace, h⟩ := Option.bind_eq_some_iff.mp h
          obtain ⟨frame, below, hframes, rfl, hlinked', hchain'⟩ := hreplaced _ _ hmem.1 hreplace
          obtain ⟨⟨done, ret⟩, hpop, h⟩ := Option.bind_eq_some_iff.mp h
          have hlength : results.length = prog.results recipe.func :=
            hmem.2.2.trans (prog.callee_results pc recipe hmem.1)
          rcases popFrame_kept hlinked' hchain' (by simpa using hlength) hpop with
            ⟨rfl, rfl, hone⟩ | ⟨pc', frames, rfl, rfl, hlinked'', hat⟩
          · obtain rfl := Option.some.inj h
            have hwaits' : Waits prog .runner { m with nextId := m.nextId + 1 } m.rust anchors :=
              hwaits.onward rfl (Nat.le_succ _)
            exact ⟨hlinked', anchors, ⟨hwaits'.stacked, hwaits'.fresh⟩, .inr ⟨rfl, hchain', hone⟩⟩
          · obtain rfl := Option.some.inj h
            have hone : frames.length + 1 = m.frames.length := by
              rcases popFrame_some hpop with ⟨_, _, _, _, hnone, -⟩ |
                ⟨_, caller, rest, _, hcaller, -, -, heq⟩
              · cases hnone
              · obtain rfl := congrArg Machine.frames heq
                obtain ⟨-, rfl⟩ := List.cons.inj hcaller
                rw [hframes]
                rfl
            refine hostReturned_kept (m := m) hlinked'' hwaits hpending (Nat.le_succ _) ?_
            exact hat.imp_right fun h => ⟨hback recipe popped results rfl frames pc' hone h, h⟩
      · cases h
  | _ => cases h

/-- The callee's frame is made for the innermost call that is waited for, or inside of it. -/
def CallsInto (prog : Program) (anchors : List Anchor) (stop : Option Pc) (callee : Activation)
    (floor : List Activation) : Prop :=
  Chain prog anchors (callee :: floor) ∧
    ∀ outer ∈ anchors.head?, stop = outer.callee.ret ∨ Above prog outer floor

def Machine.callee (prog : Program) (m : Machine) (pc : Pc) (recipe : Recipe) : Activation :=
  ⟨m.nextId, recipe.func, some (prog.next pc), []⟩

def Activation.dropped (frame : Activation) (popped : Nat) : Activation :=
  { frame with operands := frame.operands.drop popped }

/-- The operands of this call are those that the choice names. -/
def Choice.Calls (choice : Choice) (recipe : Recipe) (popped : Nat) : Prop :=
  (∃ entry, choice = .call recipe popped entry) ∨
    ∃ results, choice = .hostResults recipe popped results

theorem Chain.callsInto {frame : Activation} {below : List Activation} {popped : Nat}
    {stop : Option Pc} (hchain : Chain prog anchors (frame :: below))
    (hfresh : ∀ anchor ∈ anchors, anchor.fresh ≤ m.nextId) :
    CallsInto prog anchors stop (m.callee prog pc recipe) (frame.dropped popped :: below) := by
  have hcaller : Chain prog anchors (frame.dropped popped :: below) := hchain.top rfl rfl rfl
  refine ⟨hcaller.push hfresh, ?_⟩
  intro outer houter
  cases anchors with
  | nil => cases houter
  | cons anchor anchors =>
      obtain rfl := Option.some.inj houter
      exact .inr hcaller.1

theorem opCall_kept {lazily : Bool} {choice : Choice} (hlinked : Linked prog m.frames)
    (hwaits : Waits prog .runner { m with nextId := m.nextId + 1 } m.rust anchors)
    (hpending : m.pending = 0) (hhandler : prog.handler pc = .call lazily)
    (hfunc : ∀ frame ∈ m.frames.head?, pc.func = frame.func)
    (hcalls : ∀ frame below recipe popped, m.frames = frame :: below → choice.Calls recipe popped →
      recipe ∈ prog.callees pc → CallsInto prog anchors m.stop (m.callee prog pc recipe)
        (frame.dropped popped :: below))
    (h : m.opCall prog pc lazily choice = some m') : Kept prog m' := by
  have hpushed : ∀ frame below recipe popped, m.frames = frame :: below →
      Linked prog (m.callee prog pc recipe :: frame.dropped popped :: below) := by
    intro frame below recipe popped hframes
    rw [hframes] at hlinked
    exact hlinked.push hhandler (hfunc frame (by simp [hframes])) rfl rfl
  cases choice with
  | call recipe popped entry =>
      unfold Machine.opCall at h
      dsimp only at h
      split at h
      · next hmem =>
          obtain ⟨called, hpush, h⟩ := Option.bind_eq_some_iff.mp h
          obtain ⟨frame, below, hframes, rfl⟩ := pushFrame_some hpush
          have hlinked' := hpushed frame below recipe popped hframes
          obtain ⟨hchain, hfloor⟩ := hcalls frame below recipe popped hframes (.inl ⟨entry, rfl⟩)
            hmem.1
          have hwaits' : Waits prog .runner { m with
              frames := m.callee prog pc recipe :: frame.dropped popped :: below
              nextId := m.nextId + 1 } m.rust anchors :=
            ⟨hwaits.stacked, hwaits.fresh⟩
          split at h
          · obtain rfl := Option.some.inj h
            exact suspended_kept hlinked' hwaits' hchain m.pending
          · split at h
            · refine enterLazily_kept hlinked' hwaits' hpending hchain ?_ h
              intro head below' heq outer houter
              obtain ⟨-, rfl⟩ := List.cons.inj heq
              exact hfloor outer houter
            · obtain rfl := Option.some.inj h
              exact dispatchCallee_kept hlinked' hwaits' hpending hchain (by simp)
      · cases h
  | hostResults recipe popped results =>
      unfold Machine.opCall at h
      dsimp only at h
      split at h
      · next hmem =>
          obtain ⟨called, hpush, h⟩ := Option.bind_eq_some_iff.mp h
          obtain ⟨frame, below, hframes, rfl⟩ := pushFrame_some hpush
          obtain ⟨⟨done, ret⟩, hpop, h⟩ := Option.bind_eq_some_iff.mp h
          have hlinked' := hpushed frame below recipe popped hframes
          obtain ⟨hchain, hfloor⟩ := hcalls frame below recipe popped hframes
            (.inr ⟨results, rfl⟩) hmem.1
          have hlength : results.length = prog.results recipe.func :=
            hmem.2.2.trans (prog.callee_results pc recipe hmem.1)
          obtain ⟨rfl, rfl⟩ := Prod.mk.inj (Option.some.inj hpop)
          obtain rfl := Option.some.inj h
          refine hostReturned_kept (m := { m with nextId := m.nextId + 1 }) (hlinked'.2.top rfl)
            hwaits hpending (Nat.le_refl _) ?_
          refine (hchain.pop hlinked' rfl hlength).imp_right fun hback => ⟨?_, hback⟩
          -- What goes on inside of a call has more frames than its caller.
          obtain ⟨outer, anchors, rfl, hret, hframes'⟩ := hback.length
          rcases hfloor outer rfl with hstop | ⟨above, base, hfloor, -⟩
          · exact hstop.trans hret
          · have hlonger := congrArg List.length hfloor
            simp at hlonger hframes'
            omega
      · cases h
  | _ => cases h

theorem handlerStep_some {choice : Choice} (hpending : m.pending = 0)
    (h : m.handlerStep prog pc choice = some m') :
    (∃ result, choice = .fail result ∧ result ≠ .success ∧
      m' = m.withControl (.vmResult result)) ∨
    (∃ operands pc' frame below, prog.handler pc = .inside ∧ m.frames = frame :: below ∧
      pc'.func = pc.func ∧ m' =
        { m with frames := { frame with operands := operands } :: below }.withControl
          (.dispatch pc')) ∨
    (∃ lazily, prog.handler pc = .call lazily ∧ m.opCall prog pc lazily choice = some m') ∨
    (∃ lazily, prog.handler pc = .returnCall lazily ∧
      m.opReturnCall prog pc lazily choice = some m') ∨
    (prog.handler pc = .functionReturn ∧ m.functionReturn prog = some m') := by
  unfold Machine.handlerStep at h
  split at h
  · cases h
  · next result hresult =>
      obtain rfl := Option.some.inj h
      exact .inl ⟨result, rfl, fun heq => hresult (by rw [heq]), rfl⟩
  · split at h
    · next hhandler =>
        split at h
        · next operands pc' frame below hframes _ _ =>
            split at h
            · next hpc =>
                obtain rfl := Option.some.inj h
                exact .inr (.inl ⟨operands, pc', frame, below, hhandler, hframes, hpc, rfl⟩)
            · cases h
        · cases h
    · next lazily hhandler =>
        rw [if_neg (by simpa using hpending)] at h
        exact .inr (.inr (.inl ⟨lazily, hhandler, h⟩))
    · next lazily hhandler =>
        rw [if_neg (by simpa using hpending)] at h
        exact .inr (.inr (.inr (.inl ⟨lazily, hhandler, h⟩)))
    · next hhandler => exact .inr (.inr (.inr (.inr ⟨hhandler, h⟩)))

theorem inside_kept {pc' : Pc} {operands : List Nat} {frame : Activation} {below : List Activation}
    (hlinked : Linked prog m.frames) (hwaits : Waits prog .runner m m.rust anchors)
    (hpending : m.pending = 0) (hstanding : Standing prog anchors m.frames pc)
    (hframes : m.frames = frame :: below) (hpc : pc'.func = pc.func) :
    Kept prog ({ m with frames := { frame with operands := operands } :: below }.withControl
      (.dispatch pc')) := by
  obtain ⟨hchain, hfunc⟩ := hstanding
  rw [hframes] at hlinked hchain
  refine ⟨hlinked.top rfl, anchors, ⟨hwaits.stacked, hwaits.fresh⟩, hpending,
    .inl ⟨hchain.top rfl rfl rfl, ?_⟩⟩
  intro head hhead
  obtain rfl := Option.some.inj hhead
  exact hpc.trans (hfunc frame (by simp [hframes]))

/-- What has returned to a bridge has returned to the bridge's stop position. -/
theorem Stacked.stop_of_back {frames : List Activation} {rust : List RustFrame} {stop : Option Pc}
    (h : Stacked prog .runner rust anchors stop) (hback : Back prog anchors frames pc)
    (hother : ∀ stop previous waiting rest, rust = .continuationOp stop previous ::
      .native waiting :: rest → waiting.recipe = none → frames.length ≠ waiting.below.length) :
    stop = some pc := by
  obtain ⟨anchor, outer, heq, hret, hlength⟩ := hback.length
  cases h with
  | vmLoop => cases heq
  | bridgeLoop _ hrecorded _ hrecipe =>
      obtain ⟨rfl, rfl⟩ := List.cons.inj heq
      exact (hrecorded.called _ hrecipe).2.1.symm.trans hret
  | @continuationOp rest _ _ previous waiting _ hrecorded _ =>
      obtain ⟨rfl, rfl⟩ := List.cons.inj heq
      cases hrecipe : waiting.recipe with
      | some recipe => exact (hrecorded.called recipe hrecipe).2.1.symm.trans hret
      | none =>
          have hne := hother _ _ _ _ rfl hrecipe
          rw [hlength, (hrecorded.ran hrecipe).1] at hne
          exact absurd rfl hne

theorem handler_kept {choice : Choice} (h : Kept prog m) (hcontrol : m.control = .handler pc)
    (hcalm : HostCalm prog m choice) (hstep : m.handlerStep prog pc choice = some m') :
    Kept prog m' := by
  obtain ⟨hlinked, hready⟩ := h
  simp only [Ready, hcontrol] at hready
  obtain ⟨anchors, hwaits, hpending, hcont, -, hstanding⟩ := hready
  rcases handlerStep_some hpending hstep with
    ⟨result, -, hresult, rfl⟩ | ⟨operands, pc', frame, below, -, hframes, hpc, rfl⟩ |
    ⟨lazily, hhandler, hcall⟩ | ⟨lazily, hhandler, hcall⟩ | ⟨-, hreturn⟩
  · cases result with
    | success => exact absurd rfl hresult
    | trap => exact ⟨hlinked, anchors, ⟨hwaits.stacked, hwaits.fresh⟩⟩
    | unimplemented =>
        refine ⟨hlinked, anchors, ⟨hwaits.stacked, hwaits.fresh⟩, hpending, ?_⟩
        intro pc' hpc'
        obtain rfl := Option.some.inj (hcont.symm.trans hpc')
        exact hstanding
  · exact inside_kept hlinked hwaits hpending hstanding hframes hpc
  · refine opCall_kept hlinked (hwaits.onward rfl (Nat.le_succ _)) hpending hhandler hstanding.2 ?_
      hcall
    intro frame below recipe popped hframes _ _
    exact (hframes ▸ hstanding.1).callsInto hwaits.fresh
  · refine opReturnCall_kept hlinked hwaits hpending hhandler hstanding ?_ hcall
    rintro recipe popped results rfl frames ret hlength hback
    refine hwaits.stacked.stop_of_back hback ?_
    intro stop previous waiting rest hrust hrecipe
    have hne := hcalm pc lazily stop previous waiting rest hcontrol hhandler hrust hrecipe
    omega
  · exact functionReturn_kept hlinked hwaits hpending hstanding.1 hreturn

end Interpreter

end Telomere.Jit
