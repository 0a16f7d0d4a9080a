import Telomere.Lib.Trace
import Mathlib.Data.List.Count
import Mathlib.Data.List.Perm.Basic

/-!
# Tasks of the scheduler

Tasks wait in a queue. A ready one is taken out and run; what it started and waits for is counted,
and the driver brings the completions back one by one. What an op does is left open: how many
effects it starts, and whether it goes on, ends or traps. The stacks, the places where tasks go on
and the contexts of traps are left out.
-/

namespace Telomere.Runtime

variable {F : Type}

/-- `F` stands for the results other than success. -/
inductive TaskResult (F : Type) where
  | success
  | failure (reason : F)
deriving DecidableEq, Repr

structure Task (F : Type) where
  taskId : Nat
  pendingEffects : Nat
  ready : Bool
  terminalResult : Option (TaskResult F)
deriving DecidableEq, Repr

/-- The effects are those that wait in the queue, then those that are with the driver, each by the
task that started it. The id of a completed task is bookkeeping. -/
structure Scheduler (F : Type) where
  tasks : List (Task F)
  pendingQueue : List Nat
  submitted : List Nat
  completedTasks : List (Nat × TaskResult F)
  readyCount : Nat
deriving DecidableEq, Repr

/-- The op returned with a continuation, without one, or with a failure. -/
inductive OpOutcome (F : Type) where
  | goesOn
  | finished
  | trapped (reason : F)
deriving DecidableEq, Repr

/-- For `resumeWithI32` with the failure to push the value, if there is one. -/
inductive CompletionPayload (F : Type) where
  | resume
  | resumeWithI32 (failure : Option F)
  | hostCall (failure : Option F)
deriving DecidableEq, Repr

/-- What there is to see of a step: the task whose op was run, and a result that ends a task. -/
structure SchedulerOutput (F : Type) where
  resumed : Option Nat
  ended : Option (Nat × TaskResult F)
deriving DecidableEq, Repr

def CompletionPayload.failure : CompletionPayload F → Option F
  | .resume => none
  | .resumeWithI32 failure | .hostCall failure => failure

namespace Scheduler

def new : Scheduler F := ⟨[], [], [], [], 0⟩

def effects (s : Scheduler F) : List Nat := s.pendingQueue ++ s.submitted

def push (s : Scheduler F) (task : Task F) : Scheduler F :=
  { s with
    tasks := s.tasks ++ [task]
    readyCount := if task.ready then s.readyCount + 1 else s.readyCount }

/-- The task ended; it is complete when it waits for nothing. -/
def finish (s : Scheduler F) (taskId pending : Nat) (result : TaskResult F) : Scheduler F :=
  if pending = 0 then { s with completedTasks := s.completedTasks ++ [(taskId, result)] }
  else { s with tasks := s.tasks ++ [⟨taskId, pending, false, some result⟩] }

/-- One turn of the loop of `run_ready_tasks_with_runtime`. -/
def runNext (s : Scheduler F) (effects : Nat) (outcome : OpOutcome F) :
    Option (SchedulerOutput F × Scheduler F) :=
  if s.readyCount = 0 then none
  else
    match s.tasks with
    | [] => none
    | task :: rest =>
        if task.ready then
          let pending := task.pendingEffects + effects
          let s := { s with
            tasks := rest
            readyCount := s.readyCount - 1
            pendingQueue := s.pendingQueue ++ List.replicate effects task.taskId }
          match outcome with
          | .goesOn =>
              some (⟨some task.taskId, none⟩, s.push ⟨task.taskId, pending, pending == 0, none⟩)
          | .finished =>
              some (⟨some task.taskId, some (task.taskId, .success)⟩,
                s.finish task.taskId pending .success)
          | .trapped reason =>
              some (⟨some task.taskId, some (task.taskId, .failure reason)⟩,
                s.finish task.taskId pending (.failure reason))
        else some (⟨none, none⟩, { s with tasks := rest ++ [task] })

/-- `submit_pending_ops` hands over one effect after the other. -/
def submit (s : Scheduler F) : Option (Scheduler F) :=
  match s.pendingQueue with
  | [] => none
  | taskId :: rest => some { s with pendingQueue := rest, submitted := s.submitted ++ [taskId] }

end Scheduler

inductive TaskChange (F : Type) where
  | kept (task : Task F)
  | madeReady (task : Task F)
  | completed (result : TaskResult F)

def Task.resumed (task : Task F) : TaskChange F :=
  match task.terminalResult with
  | some result => .completed result
  | none => .madeReady { task with ready := true }

def Task.complete (task : Task F) (payload : CompletionPayload F) : TaskChange F :=
  let task := { task with pendingEffects := task.pendingEffects - 1 }
  if task.pendingEffects = 0 then
    match payload.failure with
    | some reason => .completed (.failure reason)
    | none => task.resumed
  else
    match payload, payload.failure with
    | _, some reason => .kept { task with terminalResult := some (.failure reason) }
    | .resumeWithI32 _, none => .madeReady { task with ready := true }
    | _, none => .kept task

def replaceTask (taskId : Nat) (change : List (Task F)) : List (Task F) → List (Task F)
  | [] => []
  | task :: rest =>
      if task.taskId = taskId then change ++ rest else task :: replaceTask taskId change rest

def Scheduler.applyCompletion (s : Scheduler F) (taskId : Nat) (payload : CompletionPayload F) :
    SchedulerOutput F × Scheduler F :=
  match s.tasks.find? (·.taskId == taskId) with
  | none => (⟨none, none⟩, s)
  | some task =>
      (⟨none, payload.failure.map fun reason => (taskId, .failure reason)⟩,
        match task.complete payload with
        | .kept task => { s with tasks := replaceTask taskId [task] s.tasks }
        | .madeReady task =>
            { s with
              tasks := replaceTask taskId [task] s.tasks
              readyCount := s.readyCount + 1 }
        | .completed result =>
            { s with
              tasks := replaceTask taskId [] s.tasks
              completedTasks := s.completedTasks ++ [(taskId, result)] })

/-- A task is pushed with an id of its own; a completion is of an effect that the driver has. -/
inductive SchedulerInput (F : Type) where
  | push (taskId : Nat) (ready : Bool)
  | run (effects : Nat) (outcome : OpOutcome F)
  | submit
  | complete (taskId : Nat) (payload : CompletionPayload F)
deriving DecidableEq, Repr

def Scheduler.ids (s : Scheduler F) : List Nat :=
  s.tasks.map (·.taskId) ++ s.completedTasks.map (·.1)

def schedulerStep (s : Scheduler F) :
    SchedulerInput F → Option (SchedulerOutput F × Scheduler F)
  | .push taskId ready =>
      if taskId ∈ s.ids then none else some (⟨none, none⟩, s.push ⟨taskId, 0, ready, none⟩)
  | .run effects outcome => s.runNext effects outcome
  | .submit => s.submit.map fun s => (⟨none, none⟩, s)
  | .complete taskId payload =>
      if taskId ∈ s.submitted then
        some (Scheduler.applyCompletion { s with submitted := s.submitted.erase taskId } taskId payload)
      else none

abbrev SchedulerMoment (F : Type) :=
  Lib.Moment (Scheduler F) (SchedulerInput F) (SchedulerOutput F)

end Telomere.Runtime
