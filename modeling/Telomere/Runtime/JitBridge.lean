import Telomere.Lib.Trace

/-!
# Bridges between native code and the interpreter

Native code enters the interpreter through helpers and goes on when a helper says so. The machine is
the VM with its frames, the interpreter's stop position of the thread, and the Rust calls that wait.
What an instruction does inside of its function is left to the input of a step, and so is what native
code does between its helper calls.
-/

namespace Telomere.Jit

structure Pc where
  func : Nat
  index : Nat
deriving DecidableEq, Repr

inductive CallDispatchTarget where
  | wasm | host | asyncHost
deriving DecidableEq, Repr

/-- `CallDispatchCache` -/
structure Recipe where
  func : Nat
  params : Nat
  results : Nat
  target : CallDispatchTarget
deriving DecidableEq, Repr

/-- What a handler does to the frames. `lazily` is for the handlers that enter native code when there
is some. -/
inductive Handler where
  | inside
  | call (lazily : Bool)
  | returnCall (lazily : Bool)
  | functionReturn
deriving DecidableEq, Repr

/-- Loaded code. The callee of an indirect call is one of several. A validated function is left by an
instruction for its results, and a tail call has the results of its function. -/
structure Program where
  handler : Pc → Handler
  next : Pc → Pc
  callees : Pc → List Recipe
  results : Nat → Nat
  next_func : ∀ pc, (next pc).func = pc.func
  next_injective : ∀ pc pc', next pc = next pc' → pc = pc'
  callee_results : ∀ pc, ∀ recipe ∈ callees pc, recipe.results = results recipe.func
  tail_results : ∀ pc lazily, handler pc = .returnCall lazily →
    ∀ recipe ∈ callees pc, recipe.results = results pc.func

/-- A frame of the VM's stack. `id` tells activations apart and is bookkeeping; `ret` is the return
address, which the first frame has none of. -/
structure Activation where
  id : Nat
  func : Nat
  ret : Option Pc
  operands : List Nat
deriving DecidableEq, Repr

inductive VMResult where
  | success | unimplemented | trap
deriving DecidableEq, Repr

/-- `JitNativeExit`. The layout of a call comes with the `done` of its helper. -/
inductive JitNativeExit where
  | keepGoing
  | continuePtr (pc : Pc)
  | trap
  | done (layout : Option (Nat × Nat))
  | fallbackPtr (pc : Pc)
  | pending
deriving DecidableEq, Repr

/-- The frames under a call: the callee, and what stays below it. -/
structure Anchor where
  callee : Activation
  floor : List Activation
  fresh : Nat
deriving DecidableEq, Repr

/-- Native code that waits for a helper it called at `pc`. All but `pc`, `continuation` and the recipe
is bookkeeping: the frame without the operands of the call, the frames below, and the identity the next
activation had. -/
structure Waiting where
  pc : Pc
  continuation : Bool
  recipe : Option Recipe
  frame : Activation
  below : List Activation
  since : Nat
  anchor : Anchor
deriving DecidableEq, Repr

/-- A Rust call that waits. A bridge keeps its stop position and the one its guard restores. -/
inductive RustFrame where
  | vmLoop
  | native (waiting : Waiting)
  | bridgeLoop (stop : Pc) (previous : Option Pc) (recipe : Recipe)
  | continuationOp (stop : Pc) (previous : Option Pc)
  | finishCall (continuation : Pc) (recipe : Recipe)
  | lazyCall (continuation : Option Pc) (anchor : Anchor)
deriving DecidableEq, Repr

/-- What runs: `call_code` is about to look at a position, a handler or native code runs, or one of
them has returned to the innermost Rust call. -/
inductive Control where
  | dispatch (pc : Pc)
  | handler (pc : Pc)
  | vmResult (result : VMResult)
  | native
  | exit (exit : JitNativeExit)
deriving DecidableEq, Repr

/-- `stop` is `JIT_INTERPRETER_STOP_AT`, `pending` the number of pending effects. `position` is where
the current frame stands, and is bookkeeping like `nextId`. -/
structure Machine where
  frames : List Activation
  cont : Option Pc
  stop : Option Pc
  rust : List RustFrame
  control : Control
  pending : Nat
  position : Option Pc
  nextId : Nat
deriving DecidableEq, Repr

/-- `enter_current_frame_raw`: whether the current frame has native code. -/
inductive Entry where
  | compiled | unimplemented | trap
deriving DecidableEq, Repr

/-- What the machine does not decide. -/
inductive Choice where
  | go
  | inside (operands : List Nat) (pc : Pc)
  | fail (result : VMResult)
  | call (recipe : Recipe) (popped : Nat) (entry : Entry)
  | hostResults (recipe : Recipe) (popped : Nat) (results : List Nat)
  | native (operands : List Nat)
  | helperOp (pc : Pc) (choice : Choice)
  | helperCall (pc : Pc) (recipe : Recipe) (popped : Nat) (rejected : Bool) (entry : Entry)
  | hostCompletes (results : List Nat)
deriving Repr

namespace Machine

variable (prog : Program) (m : Machine)

def setCont (pc : Pc) : Machine := { m with cont := some pc, position := some pc }

def withControl (control : Control) : Machine := { m with control := control }

def callCode (pc : Pc) : Machine :=
  if m.stop = some pc then (m.setCont pc).withControl (.vmResult .success)
  else (m.setCont pc).withControl (.handler pc)

/-- Take the operands of a call off the current frame, and make the frame of the callee. -/
def pushFrame (recipe : Recipe) (popped : Nat) (ret : Pc) : Option Machine :=
  match m.frames with
  | [] => none
  | frame :: below =>
      if popped ≤ frame.operands.length then
        some { m with
          frames := ⟨m.nextId, recipe.func, some ret, []⟩ ::
            { frame with operands := frame.operands.drop popped } :: below
          nextId := m.nextId + 1 }
      else none

/-- A tail call puts the callee's frame in the place of the current one. -/
def replaceFrame (recipe : Recipe) : Option Machine :=
  match m.frames with
  | [] => none
  | frame :: below =>
      some { m with
        frames := ⟨m.nextId, recipe.func, frame.ret, []⟩ :: below
        nextId := m.nextId + 1 }

/-- Drop the current frame and leave these results to the one below. -/
def popFrame (results : List Nat) : Option (Machine × Option Pc) :=
  match m.frames with
  | [] => none
  | frame :: below =>
      match frame.ret, below with
      | none, _ => some (m, none)
      | some _, [] => none
      | some ret, caller :: rest =>
          some ({ m with
            frames := { caller with operands := results ++ caller.operands } :: rest
            position := some ret }, some ret)

def returned : Option (List Nat) :=
  match m.frames with
  | [] => none
  | frame :: _ =>
      if prog.results frame.func ≤ frame.operands.length then
        some (frame.operands.take (prog.results frame.func))
      else none

/-- `enter_current_frame_from_lazy_call`, up to the entry of the native code. -/
def enterLazily (continuation : Option Pc) (entry : Entry) : Option Machine :=
  match m.frames with
  | [] => none
  | frame :: below =>
      match entry with
      | .compiled => some { m with
          rust := .lazyCall continuation ⟨frame, below, m.nextId⟩ :: m.rust
          control := .native }
      | .unimplemented => some ((m.setCont ⟨frame.func, 0⟩).withControl (.vmResult .success))
      | .trap => some (m.withControl (.vmResult .trap))

/-- `special_function_return` -/
def functionReturn : Option Machine := do
  let results ← m.returned prog
  match ← m.popFrame results with
  | (popped, none) => some { popped with cont := none, control := .vmResult .success }
  | (popped, some ret) =>
      if m.stop.isSome then some ((popped.setCont ret).withControl (.vmResult .success))
      else some (popped.withControl (.dispatch ret))

/-- `op_call` and `op_call_jit_lazy` for the targets. -/
def opCall (pc : Pc) (lazily : Bool) : Choice → Option Machine
  | .call recipe popped entry =>
      if recipe ∈ prog.callees pc ∧ recipe.target ≠ .host then do
        let called ← m.pushFrame recipe popped (prog.next pc)
        match recipe.target with
        | .asyncHost => some { (called.setCont (prog.next pc)) with
            pending := m.pending + 1
            control := .vmResult .success }
        | _ =>
            if lazily then called.enterLazily (some (prog.next pc)) entry
            else some (called.withControl (.dispatch ⟨recipe.func, 0⟩))
      else none
  | .hostResults recipe popped results =>
      if recipe ∈ prog.callees pc ∧ recipe.target = .host ∧ results.length = recipe.results then do
        let called ← m.pushFrame recipe popped (prog.next pc)
        let (done, _) ← called.popFrame results
        some (done.withControl (.dispatch (prog.next pc)))
      else none
  | _ => none

/-- `op_return_call` and `op_return_call_jit_lazy`; a bridge keeps them in the interpreter. -/
def opReturnCall (pc : Pc) (lazily : Bool) : Choice → Option Machine
  | .call recipe _ entry =>
      if recipe ∈ prog.callees pc ∧ recipe.target ≠ .host then do
        let called ← m.replaceFrame recipe
        match recipe.target with
        | .asyncHost => some { (called.setCont (prog.next pc)) with
            pending := m.pending + 1
            control := .vmResult .success }
        | _ =>
            if lazily ∧ m.stop = none then called.enterLazily (some (prog.next pc)) entry
            else some (called.withControl (.dispatch ⟨recipe.func, 0⟩))
      else none
  | .hostResults recipe _ results =>
      if recipe ∈ prog.callees pc ∧ recipe.target = .host ∧ results.length = recipe.results then do
        let called ← m.replaceFrame recipe
        match ← called.popFrame results with
        | (done, none) => some { done with cont := none, control := .vmResult .success }
        | (done, some ret) => some (done.withControl (.dispatch ret))
      else none
  | _ => none

/-- One handler. With effects pending a call leaves everything as it is. -/
def handlerStep (pc : Pc) (choice : Choice) : Option Machine :=
  match choice with
  | .fail .success => none
  | .fail result => some (m.withControl (.vmResult result))
  | choice =>
      match prog.handler pc with
      | .inside =>
          match choice, m.frames with
          | .inside operands pc', frame :: below =>
              if pc'.func = pc.func then
                some ({ m with frames := { frame with operands := operands } :: below }.withControl
                  (.dispatch pc'))
              else none
          | _, _ => none
      | .call lazily =>
          if m.pending ≠ 0 then some (m.withControl (.vmResult .success))
          else m.opCall prog pc lazily choice
      | .returnCall lazily =>
          if m.pending ≠ 0 then some (m.withControl (.vmResult .success))
          else m.opReturnCall prog pc lazily choice
      | .functionReturn => m.functionReturn prog

/-- What the innermost Rust call does with a result of the interpreter. A bridge that ends restores the
stop position. -/
def vmResultStep (result : VMResult) (choice : Choice) : Option Machine :=
  match m.rust with
  | .vmLoop :: _ =>
      match result, m.cont with
      | .success, some pc =>
          match choice with
          | .hostCompletes results => do
              if m.pending = 1 then
                match ← m.popFrame results with
                | (done, none) => some { done with cont := none, pending := 0 }
                | (done, some ret) => some { done with pending := 0, control := .dispatch ret }
              else none
          | _ => if m.pending = 0 then some (m.withControl (.dispatch pc)) else none
      | _, _ => none
  | .bridgeLoop stop previous recipe :: rust =>
      let ended : Machine := { m with rust := rust, stop := previous }
      let done := some (ended.withControl (.exit (.done (some (recipe.params, recipe.results)))))
      match result, m.cont with
      | .success, none => done
      | .success, some pc => if pc = stop then done else some (m.withControl (.dispatch pc))
      | .unimplemented, some pc => some (ended.withControl (.exit (.fallbackPtr pc)))
      | _, _ => some (ended.withControl (.exit .trap))
  | .continuationOp stop previous :: rust =>
      let ended : Machine := { m with rust := rust, stop := previous }
      match result, m.cont with
      | .success, some pc =>
          if pc = stop then some (ended.withControl (.exit .keepGoing))
          else some (ended.withControl (.exit .pending))
      | .success, none => some (ended.withControl (.exit (.done none)))
      | _, _ => some (ended.withControl (.exit .trap))
  | _ => none

def callRecord (pc : Pc) (continuation : Bool) (recipe : Recipe) (popped : Nat)
    (frame : Activation) (below : List Activation) : Waiting :=
  let caller := { frame with operands := frame.operands.drop popped }
  ⟨pc, continuation, some recipe, caller, below, m.nextId,
    ⟨⟨m.nextId, recipe.func, some (prog.next pc), []⟩, caller :: below, m.nextId + 1⟩⟩

/-- The record of native code that has the interpreter run one of its instructions. -/
def opRecord (pc : Pc) (choice : Choice) (frame : Activation) (below : List Activation) :
    Waiting :=
  match prog.handler pc, choice with
  | .call _, .call recipe popped _ => m.callRecord prog pc true recipe popped frame below
  | .call _, .hostResults recipe popped _ => m.callRecord prog pc true recipe popped frame below
  | _, _ => ⟨pc, true, none, frame, below, m.nextId, ⟨frame, below, m.nextId⟩⟩

/-- `runtime_continuation_op`: the handler of this position under a guard for the next one. -/
def helperOp (pc : Pc) (choice : Choice) : Option Machine :=
  match m.frames, choice with
  | [], _ => none
  | _, .fail .success => none
  | _, .fail _ => some (m.withControl (.exit .trap))
  | frame :: below, choice =>
      if frame.func = pc.func then
        { m with
          stop := some (prog.next pc)
          position := some pc
          rust := .continuationOp (prog.next pc) m.stop ::
            .native (m.opRecord prog pc choice frame below) :: m.rust }.handlerStep prog pc choice
      else none

/-- `jit_call_direct`, `jit_call_indirect` and `jit_call_direct_wasm_fast`. A helper that fails or does
not wait makes the native code return. -/
def helperCall (pc : Pc) (recipe : Recipe) (popped : Nat) (rejected : Bool) (entry : Entry) :
    Option Machine :=
  match m.frames, prog.handler pc with
  | frame :: below, .call _ =>
      if frame.func = pc.func ∧ recipe ∈ prog.callees pc then
        if m.pending ≠ 0 then some (m.withControl (.exit .pending))
        else do
          let called ← m.pushFrame recipe popped (prog.next pc)
          let waiting := m.callRecord prog pc false recipe popped frame below
          match recipe.target with
          | .host => none
          | .asyncHost => some { (called.setCont (prog.next pc)) with
              pending := m.pending + 1
              control := .exit .pending }
          | .wasm =>
              -- `finish_rejected_direct_wasm_call`
              if rejected then some { called with
                stop := some (prog.next pc)
                rust := .bridgeLoop (prog.next pc) m.stop recipe :: .native waiting :: m.rust
                control := .dispatch ⟨recipe.func, 0⟩ }
              else
                -- `finish_jit_wasm_call` up to the entry
                let entered : Machine := { called with
                  rust := .finishCall (prog.next pc) recipe :: .native waiting :: m.rust }
                match entry with
                | .compiled => some (entered.withControl .native)
                | .unimplemented =>
                    some (entered.withControl (.exit (.fallbackPtr ⟨recipe.func, 0⟩)))
                | .trap => some (called.withControl (.exit .trap))
      else none
  | _, _ => none

/-- A helper's call of a host function, after which native code goes on. -/
def helperHost (recipe : Recipe) (popped : Nat) (results : List Nat) : Option Machine :=
  match m.frames with
  | [] => none
  | frame :: below =>
      if recipe.target = .host ∧ results.length = recipe.results ∧
          popped ≤ frame.operands.length then
        some { m with
          frames := { frame with operands := results ++ frame.operands.drop popped } :: below }
      else none

/-- Native code of the current frame works on its operands, calls a helper, or returns. -/
def nativeStep (choice : Choice) : Option Machine :=
  match choice with
  | .native operands =>
      match m.frames with
      | [] => none
      | frame :: below => some { m with frames := { frame with operands := operands } :: below }
  | .helperOp pc choice => m.helperOp prog pc choice
  | .helperCall pc recipe popped rejected entry =>
      m.helperCall prog pc recipe popped rejected entry
  | .hostResults recipe popped results => m.helperHost recipe popped results
  | .go => do
      let results ← m.returned prog
      match ← m.popFrame results with
      | (popped, none) => some (popped.withControl (.exit (.done none)))
      | (popped, some ret) => some (popped.withControl (.exit (.continuePtr ret)))
  | .fail _ => some (m.withControl (.exit .trap))
  | _ => none

/-- Native code goes on after `keep_going`, and after `done` with the layout of its call. After a tail
call there is no code to go on with. -/
def nativeResume (waiting : Waiting) (rust : List RustFrame) (exit : JitNativeExit) :
    Option Waiting × Machine :=
  let m := { m with rust := rust }
  if waiting.continuation then
    match exit with
    | .keepGoing =>
        match prog.handler waiting.pc with
        | .returnCall _ => (some waiting, m.withControl (.exit .keepGoing))
        | _ => (some waiting, m.withControl .native)
    | exit => (none, m.withControl (.exit exit))
  else
    match exit with
    | .done layout =>
        if layout = waiting.recipe.map fun recipe => (recipe.params, recipe.results) then
          (some waiting, m.withControl .native)
        else (none, m.withControl (.exit .trap))
    | .keepGoing => (none, m.withControl (.exit .trap))
    | exit => (none, m.withControl (.exit exit))

/-- `finish_jit_wasm_call` after the entry. -/
def finishCall (continuation : Pc) (recipe : Recipe) (rust : List RustFrame)
    (exit : JitNativeExit) : Machine :=
  let done : Machine :=
    { m with rust := rust, control := .exit (.done (some (recipe.params, recipe.results))) }
  let bridge (pc : Pc) : Machine := { m with
    rust := .bridgeLoop continuation m.stop recipe :: rust
    stop := some continuation
    control := .dispatch pc }
  match exit with
  | .done _ => done
  | .continuePtr pc => if pc = continuation then done else bridge pc
  | .fallbackPtr pc => bridge pc
  | .pending => if m.cont = some continuation then done else { m with rust := rust }
  | _ => { m with rust := rust }

/-- `enter_current_frame_from_lazy_call` after the entry, with `handle_exit`. -/
def lazyExit (continuation : Option Pc) (rust : List RustFrame) (exit : JitNativeExit) :
    Machine :=
  let m := { m with rust := rust }
  match exit with
  | .continuePtr pc =>
      if continuation = some pc then m.withControl (.dispatch pc)
      else (m.setCont pc).withControl (.vmResult .success)
  | .fallbackPtr pc => (m.setCont pc).withControl (.vmResult .success)
  | .done _ => { m with cont := none, control := .vmResult .success }
  | .pending => m.withControl (.vmResult .success)
  | .keepGoing => m.withControl (.vmResult .trap)
  | .trap => { m with cont := none, control := .vmResult .trap }

def exitStep (exit : JitNativeExit) : Option (Option Waiting × Machine) :=
  match m.rust with
  | .native waiting :: rust => some (m.nativeResume prog waiting rust exit)
  | .finishCall continuation recipe :: rust =>
      some (none, m.finishCall continuation recipe rust exit)
  | .lazyCall continuation _ :: rust => some (none, m.lazyExit continuation rust exit)
  | _ => none

/-- One step. The output is the native code that goes on after a bridge. -/
def step (choice : Choice) : Option (Option Waiting × Machine) :=
  match m.control with
  | .dispatch pc => some (none, m.callCode pc)
  | .handler pc => (m.handlerStep prog pc choice).map (none, ·)
  | .vmResult result => (m.vmResultStep result choice).map (none, ·)
  | .native => (m.nativeStep prog choice).map (none, ·)
  | .exit exit => m.exitStep prog exit

/-- A task starts in the interpreter, or in native code of its function. -/
def start (func : Nat) (compiled : Bool) : Machine :=
  let frame : Activation := ⟨0, func, none, []⟩
  if compiled then
    ⟨[frame], none, none, [.lazyCall none ⟨frame, [], 1⟩, .vmLoop], .native, 0, none, 1⟩
  else ⟨[frame], none, none, [.vmLoop], .dispatch ⟨func, 0⟩, 0, none, 1⟩

end Machine

abbrev BridgeMoment := Lib.Moment Machine Choice (Option Waiting)

end Telomere.Jit
