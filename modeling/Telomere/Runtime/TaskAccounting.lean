import Telomere.Runtime.Scheduler

/-!
# Tasks are accounted for

Every task that was pushed is in the queue or complete, with the first result that ended it, and
none is run after that. A completion can break this: one that makes a task ready that is ready or
has ended, and one that brings a failure to a task that is ready or has ended.
-/

namespace Telomere.Runtime

variable {F : Type}

def firstEnded (past : List (SchedulerMoment F)) (taskId : Nat) : Option (TaskResult F) :=
  past.findSome? fun now => now.output.ended.bind fun ended =>
    if ended.1 = taskId then some ended.2 else none

def SchedulerInput.pushed : SchedulerInput F → Option Nat
  | .push taskId _ => some taskId
  | _ => none

def pushedIds (past : List (SchedulerMoment F)) : List Nat := past.filterMap (·.input.pushed)

/-- After each step: the count is that of the ready tasks; what was run had not ended; each task that
was pushed is there once, waiting or complete; a complete one has its first result and no effects
are left of it; and one that ended and has no effects left is complete. -/
structure TaskAccounting (past : List (SchedulerMoment F)) (now : SchedulerMoment F) : Prop where
  readyCount : now.after.readyCount = now.after.tasks.countP (·.ready)
  resumed : ∀ taskId, now.output.resumed = some taskId → firstEnded past taskId = none
  distinct : now.after.ids.Nodup
  pushed : now.after.ids.Perm (pushedIds (past ++ [now]))
  result : ∀ task ∈ now.after.completedTasks,
    firstEnded (past ++ [now]) task.1 = some task.2 ∧ task.1 ∉ now.after.effects
  finished : ∀ task ∈ now.after.tasks, firstEnded (past ++ [now]) task.taskId ≠ none →
    task.taskId ∈ now.after.effects

section history

variable {past : List (SchedulerMoment F)} {now : SchedulerMoment F} {taskId : Nat}

theorem firstEnded_append : firstEnded (past ++ [now]) taskId =
    (firstEnded past taskId).or (now.output.ended.bind fun ended =>
      if ended.1 = taskId then some ended.2 else none) := by
  simp [firstEnded, List.findSome?_append]

theorem firstEnded_of_none (h : now.output.ended = none) :
    firstEnded (past ++ [now]) taskId = firstEnded past taskId := by
  simp [firstEnded_append, h]

theorem firstEnded_other {ended : Nat × TaskResult F} (h : now.output.ended = some ended)
    (hne : ended.1 ≠ taskId) : firstEnded (past ++ [now]) taskId = firstEnded past taskId := by
  simp [firstEnded_append, h, hne]

theorem firstEnded_new {result : TaskResult F} (h : now.output.ended = some (taskId, result))
    (hnone : firstEnded past taskId = none) :
    firstEnded (past ++ [now]) taskId = some result := by
  simp [firstEnded_append, h, hnone]

theorem pushedIds_append :
    pushedIds (past ++ [now]) = pushedIds past ++ now.input.pushed.toList := by
  cases h : now.input.pushed <;> simp [pushedIds, h]

end history

/-- A task counts its effects, its terminal result is the first one, and one that has ended waits
for effects. -/
structure TaskKept (past : List (SchedulerMoment F)) (s : Scheduler F) (task : Task F) : Prop where
  pending : task.pendingEffects = s.effects.count task.taskId
  terminal : firstEnded past task.taskId = task.terminalResult
  waiting : task.terminalResult ≠ none → task.ready = false ∧ task.pendingEffects ≠ 0

structure TasksKept (past : List (SchedulerMoment F)) (s : Scheduler F) : Prop where
  readyCount : s.readyCount = s.tasks.countP (·.ready)
  distinct : s.ids.Nodup
  pushed : s.ids.Perm (pushedIds past)
  tasks : ∀ task ∈ s.tasks, TaskKept past s task
  completed : ∀ task ∈ s.completedTasks, firstEnded past task.1 = some task.2
  effects : ∀ taskId ∈ s.effects, taskId ∈ s.tasks.map (·.taskId)
  ended : ∀ taskId, firstEnded past taskId ≠ none → taskId ∈ s.ids

theorem TasksKept.accounting {past : List (SchedulerMoment F)} {now : SchedulerMoment F}
    (hafter : TasksKept (past ++ [now]) now.after)
    (hresumed : ∀ taskId, now.output.resumed = some taskId → firstEnded past taskId = none) :
    TaskAccounting past now := by
  refine ⟨hafter.readyCount, hresumed, hafter.distinct, hafter.pushed, fun task hmem => ?_,
    fun task hmem hended => ?_⟩
  · refine ⟨hafter.completed task hmem, fun heffect => ?_⟩
    have hdisjoint := (List.nodup_append.mp hafter.distinct).2.2
    exact hdisjoint task.1 (hafter.effects task.1 heffect) task.1 (List.mem_map_of_mem hmem) rfl
  · have hkept := hafter.tasks task hmem
    rw [hkept.terminal] at hended
    have hpending := (hkept.waiting hended).2
    rw [hkept.pending] at hpending
    exact List.count_pos_iff.mp (Nat.pos_of_ne_zero hpending)

theorem TasksKept.alone {past : List (SchedulerMoment F)} {s : Scheduler F}
    (hs : TasksKept past s) {task : Task F} {rest : List (Task F)}
    (hbefore : s.tasks.Perm (task :: rest)) :
    (∀ other ∈ rest, other.taskId ≠ task.taskId) ∧
      ∀ completed ∈ s.completedTasks, completed.1 ≠ task.taskId := by
  have hnodup := List.nodup_append.mp hs.distinct
  constructor
  · have htasks := (hbefore.map (·.taskId)).nodup_iff.mp hnodup.1
    rw [List.map_cons, List.nodup_cons] at htasks
    exact fun other hmem heq => htasks.1 (heq ▸ List.mem_map_of_mem hmem)
  · intro completed hmem heq
    have htask : task ∈ s.tasks := hbefore.mem_iff.mpr (List.mem_cons_self ..)
    exact hnodup.2.2 task.taskId (List.mem_map_of_mem htask) completed.1
      (List.mem_map_of_mem hmem) heq.symm

theorem TasksKept.replace {past past' : List (SchedulerMoment F)} {s s' : Scheduler F}
    (hs : TasksKept past s) {task task' : Task F} {rest : List (Task F)}
    (hbefore : s.tasks.Perm (task :: rest)) (hafter : s'.tasks.Perm (task' :: rest))
    (hid : task'.taskId = task.taskId) (hcompleted : s'.completedTasks = s.completedTasks)
    (hpushed : pushedIds past' = pushedIds past)
    (hready : s'.readyCount + task.ready.toNat = s.readyCount + task'.ready.toNat)
    (hkept : TaskKept past' s' task')
    (hcount : ∀ taskId ≠ task.taskId, s'.effects.count taskId = s.effects.count taskId)
    (hended : ∀ taskId ≠ task.taskId, firstEnded past' taskId = firstEnded past taskId) :
    TasksKept past' s' := by
  have hsame : (s'.tasks.map (·.taskId)).Perm (s.tasks.map (·.taskId)) :=
    (hafter.map (·.taskId)).trans (by simpa [hid] using (hbefore.map (·.taskId)).symm)
  have hids : s'.ids.Perm s.ids := by
    simpa [Scheduler.ids, hcompleted] using hsame.append_right _
  obtain ⟨hdistinct, hout⟩ := hs.alone hbefore
  have hmember : task.taskId ∈ s.ids :=
    List.mem_append_left _ (List.mem_map_of_mem (hbefore.mem_iff.mpr (List.mem_cons_self ..)))
  refine ⟨?_, hids.nodup_iff.mpr hs.distinct, hids.trans (hpushed ▸ hs.pushed), ?_, ?_, ?_, ?_⟩
  · have h := hs.readyCount
    rw [hbefore.countP_eq, List.countP_cons] at h
    rw [hafter.countP_eq, List.countP_cons]
    cases hr : task.ready <;> cases hr' : task'.ready <;> simp [hr, hr'] at h hready ⊢ <;> omega
  · intro other hmem
    rcases List.mem_cons.mp (hafter.mem_iff.mp hmem) with rfl | hmem
    · exact hkept
    · have hne := hdistinct other hmem
      have hother := hs.tasks other (hbefore.mem_iff.mpr (List.mem_cons_of_mem _ hmem))
      exact ⟨hother.pending.trans (hcount _ hne).symm, (hended _ hne).trans hother.terminal,
        hother.waiting⟩
  · rw [hcompleted]
    intro c hmem
    rw [hended c.1 (hout c hmem)]
    exact hs.completed c hmem
  · intro taskId hmem
    rw [hsame.mem_iff]
    by_cases hne : taskId = task.taskId
    · rw [hne]
      exact List.mem_map_of_mem (hbefore.mem_iff.mpr (List.mem_cons_self ..))
    · refine hs.effects taskId (List.count_pos_iff.mp ?_)
      rw [← hcount taskId hne]
      exact List.count_pos_iff.mpr hmem
  · intro taskId hsome
    rw [hids.mem_iff]
    by_cases hne : taskId = task.taskId
    · exact hne ▸ hmember
    · exact hs.ended taskId (hended taskId hne ▸ hsome)

theorem TasksKept.complete {past past' : List (SchedulerMoment F)} {s s' : Scheduler F}
    (hs : TasksKept past s) {task : Task F} {rest : List (Task F)} {result : TaskResult F}
    (hbefore : s.tasks.Perm (task :: rest)) (hafter : s'.tasks.Perm rest)
    (hcompleted : s'.completedTasks = s.completedTasks ++ [(task.taskId, result)])
    (hpushed : pushedIds past' = pushedIds past)
    (hready : s'.readyCount + task.ready.toNat = s.readyCount)
    (hzero : s'.effects.count task.taskId = 0)
    (hcount : ∀ taskId ≠ task.taskId, s'.effects.count taskId = s.effects.count taskId)
    (hresult : firstEnded past' task.taskId = some result)
    (hended : ∀ taskId ≠ task.taskId, firstEnded past' taskId = firstEnded past taskId) :
    TasksKept past' s' := by
  have hids : s'.ids.Perm s.ids := by
    have hmap : s.ids.Perm (task.taskId :: (rest.map (·.taskId) ++ s.completedTasks.map (·.1))) := by
      simpa [Scheduler.ids] using (hbefore.map (·.taskId)).append_right (s.completedTasks.map (·.1))
    refine List.Perm.trans ?_ hmap.symm
    simp only [Scheduler.ids, hcompleted, List.map_append, List.map_cons, List.map_nil,
      ← List.append_assoc]
    exact (List.perm_append_singleton _ _).trans
      (((hafter.map (·.taskId)).append_right _).cons _)
  obtain ⟨hdistinct, hout⟩ := hs.alone hbefore
  have hmember : task.taskId ∈ s.ids :=
    List.mem_append_left _ (List.mem_map_of_mem (hbefore.mem_iff.mpr (List.mem_cons_self ..)))
  refine ⟨?_, hids.nodup_iff.mpr hs.distinct, hids.trans (hpushed ▸ hs.pushed), ?_, ?_, ?_, ?_⟩
  · have h := hs.readyCount
    rw [hbefore.countP_eq, List.countP_cons] at h
    rw [hafter.countP_eq]
    cases hr : task.ready <;> simp [hr] at h hready <;> omega
  · intro other hmem
    have hmem := hafter.mem_iff.mp hmem
    have hne := hdistinct other hmem
    have hother := hs.tasks other (hbefore.mem_iff.mpr (List.mem_cons_of_mem _ hmem))
    exact ⟨hother.pending.trans (hcount _ hne).symm, (hended _ hne).trans hother.terminal,
      hother.waiting⟩
  · rw [hcompleted]
    intro c hmem
    rcases List.mem_append.mp hmem with hmem | hmem
    · rw [hended c.1 (hout c hmem)]
      exact hs.completed c hmem
    · rw [List.mem_singleton.mp hmem]
      exact hresult
  · intro taskId hmem
    have hne : taskId ≠ task.taskId := by
      rintro rfl
      exact List.count_eq_zero.mp hzero hmem
    have hold : taskId ∈ s.effects := by
      rw [← List.count_pos_iff, ← hcount taskId hne]
      exact List.count_pos_iff.mpr hmem
    have hthere := (hbefore.map (·.taskId)).mem_iff.mp (hs.effects taskId hold)
    rw [(hafter.map (·.taskId)).mem_iff]
    exact (List.mem_cons.mp hthere).resolve_left hne
  · intro taskId hsome
    rw [hids.mem_iff]
    by_cases hne : taskId = task.taskId
    · exact hne ▸ hmember
    · exact hs.ended taskId (hended taskId hne ▸ hsome)

theorem TasksKept.same {past past' : List (SchedulerMoment F)} {s s' : Scheduler F}
    (hs : TasksKept past s) (htasks : s'.tasks = s.tasks)
    (hcompleted : s'.completedTasks = s.completedTasks) (hready : s'.readyCount = s.readyCount)
    (heffects : s'.effects.Perm s.effects) (hpushed : pushedIds past' = pushedIds past)
    (hended : ∀ taskId, firstEnded past' taskId = firstEnded past taskId) :
    TasksKept past' s' := by
  have hids : s'.ids = s.ids := by
    rw [Scheduler.ids, Scheduler.ids, htasks, hcompleted]
  refine ⟨?_, hids ▸ hs.distinct, hids ▸ hpushed ▸ hs.pushed, ?_, ?_, ?_, ?_⟩
  · rw [hready, htasks, hs.readyCount]
  · rw [htasks]
    intro task hmem
    have hkept := hs.tasks task hmem
    exact ⟨hkept.pending.trans (heffects.count_eq _).symm, (hended _).trans hkept.terminal,
      hkept.waiting⟩
  · rw [hcompleted]
    intro completed hmem
    rw [hended]
    exact hs.completed completed hmem
  · rw [htasks]
    exact fun taskId hmem => hs.effects taskId (heffects.mem_iff.mp hmem)
  · rw [hids]
    exact fun taskId hsome => hs.ended taskId (hended taskId ▸ hsome)

section steps

variable {past : List (SchedulerMoment F)} {s t : Scheduler F} {output : SchedulerOutput F}

theorem tasksKept_new : TasksKept [] (Scheduler.new : Scheduler F) := by
  constructor <;> simp [Scheduler.new, Scheduler.ids, Scheduler.effects, pushedIds, firstEnded]

theorem TasksKept.push (hs : TasksKept past s) {taskId : Nat} {ready : Bool}
    (hnew : taskId ∉ s.ids) {now : SchedulerMoment F} (hinput : now.input = .push taskId ready)
    (hended : now.output.ended = none) :
    TasksKept (past ++ [now]) (s.push ⟨taskId, 0, ready, none⟩) := by
  have hpushed : pushedIds (past ++ [now]) = pushedIds past ++ [taskId] := by
    rw [pushedIds_append, hinput]
    rfl
  have hids : (s.push ⟨taskId, 0, ready, none⟩).ids.Perm (s.ids ++ [taskId]) := by
    simp only [Scheduler.ids, Scheduler.push, List.map_append, List.append_assoc]
    exact List.perm_append_comm.append_left _
  have hnotask : taskId ∉ s.tasks.map (·.taskId) :=
    fun hmem => hnew (List.mem_append_left _ hmem)
  have hneverEnded : firstEnded past taskId = none := by
    by_contra hsome
    exact hnew (hs.ended taskId hsome)
  refine ⟨?_, ?_, ?_, ?_, ?_, ?_, ?_⟩
  · cases ready <;> simp [Scheduler.push, hs.readyCount]
  · rw [hids.nodup_iff, List.nodup_append]
    refine ⟨hs.distinct, by simp, fun other hmem => ?_⟩
    intro fresh hfresh heq
    rw [heq, List.mem_singleton.mp hfresh] at hmem
    exact hnew hmem
  · rw [hpushed]
    exact hids.trans (hs.pushed.append_right _)
  · intro task hmem
    rcases List.mem_append.mp hmem with hmem | hmem
    · have hkept := hs.tasks task hmem
      exact ⟨hkept.pending, (firstEnded_of_none hended).trans hkept.terminal, hkept.waiting⟩
    · obtain rfl := List.mem_singleton.mp hmem
      refine ⟨?_, ?_, by simp⟩
      · exact (List.count_eq_zero.mpr fun hmem => hnotask (hs.effects taskId hmem)).symm
      · exact (firstEnded_of_none hended).trans hneverEnded
  · intro completed hmem
    rw [firstEnded_of_none hended]
    exact hs.completed completed hmem
  · intro id hmem
    exact List.mem_map.mpr <| (List.mem_map.mp (hs.effects id hmem)).imp fun _ h =>
      ⟨List.mem_append_left _ h.1, h.2⟩
  · intro id hsome
    rw [firstEnded_of_none hended] at hsome
    exact hids.mem_iff.mpr (List.mem_append_left _ (hs.ended id hsome))

/-- The ready task was taken out and its op started effects. -/
def Scheduler.taken (s : Scheduler F) (task : Task F) (rest : List (Task F)) (effects : Nat) :
    Scheduler F :=
  { s with
    tasks := rest
    readyCount := s.readyCount - 1
    pendingQueue := s.pendingQueue ++ List.replicate effects task.taskId }

theorem Scheduler.taken_count {task : Task F} {rest : List (Task F)} {effects taskId : Nat} :
    (s.taken task rest effects).effects.count taskId =
      s.effects.count taskId + if task.taskId = taskId then effects else 0 := by
  simp only [taken, Scheduler.effects, List.count_append, List.count_replicate, beq_iff_eq]
  omega

/-- A task that is not ready goes to the end of the queue. A ready one is run; it goes there with
what it started, or has ended. -/
theorem runNext_cases {effects : Nat} {outcome : OpOutcome F}
    (h : s.runNext effects outcome = some (output, t)) :
    ∃ task rest, s.tasks = task :: rest ∧
      ((task.ready = false ∧ output = ⟨none, none⟩ ∧ t = { s with tasks := rest ++ [task] }) ∨
        (task.ready = true ∧ s.readyCount ≠ 0 ∧ output.resumed = some task.taskId ∧
          ((output.ended = none ∧ t = (s.taken task rest effects).push
              ⟨task.taskId, task.pendingEffects + effects, task.pendingEffects + effects == 0,
                none⟩) ∨
            ∃ result, output.ended = some (task.taskId, result) ∧
              t = (s.taken task rest effects).finish task.taskId (task.pendingEffects + effects)
                result))) := by
  rw [Scheduler.runNext] at h
  split at h
  · cases h
  next hcount =>
    split at h
    · cases h
    next task rest htasks =>
      refine ⟨task, rest, htasks, ?_⟩
      split at h
      next hready =>
        refine .inr ⟨hready, hcount, ?_⟩
        cases outcome <;> cases h
        case goesOn => exact ⟨rfl, .inl ⟨rfl, rfl⟩⟩
        case finished => exact ⟨rfl, .inr ⟨_, rfl, rfl⟩⟩
        case trapped => exact ⟨rfl, .inr ⟨_, rfl, rfl⟩⟩
      next hready =>
        cases h
        exact .inl ⟨by simpa using hready, rfl, rfl⟩

theorem pushedIds_run {effects : Nat} {outcome : OpOutcome F} :
    pushedIds (past ++ [⟨s, .run effects outcome, output, t⟩]) = pushedIds past := by
  rw [pushedIds_append]
  exact List.append_nil _

theorem TasksKept.run {effects : Nat} {outcome : OpOutcome F} (hs : TasksKept past s)
    (h : s.runNext effects outcome = some (output, t)) :
    (∀ taskId, output.resumed = some taskId → firstEnded past taskId = none) ∧
      TasksKept (past ++ [⟨s, .run effects outcome, output, t⟩]) t := by
  obtain ⟨task, rest, htasks, hcase⟩ := runNext_cases h
  have hbefore : s.tasks.Perm (task :: rest) := htasks ▸ .refl _
  have hkept := hs.tasks task (htasks ▸ List.mem_cons_self ..)
  rcases hcase with ⟨-, rfl, rfl⟩ | ⟨hready, hcount, hresumed, hcase⟩
  · refine ⟨by simp, hs.replace hbefore (List.perm_append_singleton _ _) rfl rfl pushedIds_run rfl
      ⟨hkept.pending, ?_, hkept.waiting⟩ (fun _ _ => rfl) fun _ _ => firstEnded_of_none rfl⟩
    exact (firstEnded_of_none rfl).trans hkept.terminal
  · have hterminal : task.terminalResult = none := by
      by_contra hsome
      have hwaiting := (hkept.waiting hsome).1
      rw [hready] at hwaiting
      cases hwaiting
    have hnotEnded : firstEnded past task.taskId = none := hkept.terminal.trans hterminal
    refine ⟨fun taskId heq => ?_, ?_⟩
    · rw [hresumed] at heq
      exact Option.some.inj heq ▸ hnotEnded
    have hother : ∀ taskId ≠ task.taskId,
        (s.taken task rest effects).effects.count taskId = s.effects.count taskId :=
      fun taskId hne => by simp [Scheduler.taken_count, hne.symm]
    have hpending : (s.taken task rest effects).effects.count task.taskId =
        task.pendingEffects + effects := by
      simp [Scheduler.taken_count, hkept.pending]
    rcases hcase with ⟨hended, rfl⟩ | ⟨result, hended, rfl⟩
    · refine hs.replace hbefore (List.perm_append_singleton _ _) rfl rfl pushedIds_run ?_
        ⟨hpending.symm, (firstEnded_of_none hended).trans hnotEnded, by simp⟩ hother
        fun _ _ => firstEnded_of_none hended
      by_cases hzero : task.pendingEffects + effects = 0
      · simp [Scheduler.push, Scheduler.taken, hready, hzero]
        omega
      · have hpositive : (task.pendingEffects + effects == 0) = false := by simpa using hzero
        simp only [Scheduler.push, Scheduler.taken, hready, hpositive]
        simp
        omega
    · have hfirst : firstEnded (past ++ [⟨s, .run effects outcome, output,
          (s.taken task rest effects).finish task.taskId (task.pendingEffects + effects) result⟩])
          task.taskId = some result := firstEnded_new hended hnotEnded
      by_cases hzero : task.pendingEffects + effects = 0
      · simp only [Scheduler.finish, if_pos hzero] at hfirst ⊢
        refine hs.complete hbefore (.refl _) rfl pushedIds_run ?_ ?_ hother hfirst
          fun taskId hne => firstEnded_other hended hne.symm
        · simp [Scheduler.taken, hready]
          omega
        · exact hpending.trans hzero
      · simp only [Scheduler.finish, if_neg hzero] at hfirst ⊢
        refine hs.replace hbefore (List.perm_append_singleton _ _) rfl rfl pushedIds_run ?_
          ⟨hpending.symm, hfirst, fun _ => ⟨rfl, hzero⟩⟩ hother
          fun taskId hne => firstEnded_other hended hne.symm
        simp [Scheduler.taken, hready]
        omega

theorem TasksKept.submit (hs : TasksKept past s) (h : s.submit = some t)
    {output : SchedulerOutput F} (hended : output.ended = none) :
    TasksKept (past ++ [⟨s, .submit, output, t⟩]) t := by
  rw [Scheduler.submit] at h
  split at h
  · cases h
  next taskId rest hqueue =>
    cases h
    refine hs.same rfl rfl rfl ?_ ?_ fun _ => firstEnded_of_none hended
    · rw [Scheduler.effects, Scheduler.effects, hqueue, ← List.append_assoc]
      exact List.perm_append_singleton _ _
    · rw [pushedIds_append]
      exact List.append_nil _

end steps

/-- When a completion leaves the accounts right: with a failure the task waits and has not ended;
it waits also when it is made ready, and only where its last effect is completed may it have ended
by then. -/
def CompletionPayload.Fits (payload : CompletionPayload F) (task : Task F) : Prop :=
  match payload, payload.failure with
  | _, some _ => task.ready = false ∧ task.terminalResult = none
  | .resumeWithI32 _, none =>
      task.ready = false ∧ (task.pendingEffects = 1 ∨ task.terminalResult = none)
  | _, none => task.pendingEffects = 1 → task.ready = false

def SchedulerInput.Fits (s : Scheduler F) : SchedulerInput F → Prop
  | .complete taskId payload => ∀ task ∈ s.tasks, task.taskId = taskId → payload.Fits task
  | _ => True

section completions

variable {past : List (SchedulerMoment F)} {s t : Scheduler F} {task task' : Task F}
  {payload : CompletionPayload F} {result : TaskResult F}

theorem CompletionPayload.Fits.of_failure {reason : F} (hfits : payload.Fits task)
    (hfailure : payload.failure = some reason) :
    task.ready = false ∧ task.terminalResult = none := by
  cases payload <;> simp_all [CompletionPayload.Fits, CompletionPayload.failure]

theorem CompletionPayload.Fits.last (hfits : payload.Fits task) (hlast : task.pendingEffects = 1) :
    task.ready = false := by
  cases hfailure : payload.failure with
  | some reason => exact (hfits.of_failure hfailure).1
  | none =>
      cases payload <;> simp_all [CompletionPayload.Fits, CompletionPayload.failure]

theorem Task.complete_last (hlast : task.pendingEffects - 1 = 0) :
    task.complete payload = match payload.failure with
      | some reason => .completed (.failure reason)
      | none => { task with pendingEffects := task.pendingEffects - 1 }.resumed := by
  cases hfailure : payload.failure <;> simp [Task.complete, hlast, hfailure]

theorem Task.complete_more (hmore : task.pendingEffects - 1 ≠ 0) :
    task.complete payload =
      match payload, payload.failure with
      | _, some reason => .kept { task with
          pendingEffects := task.pendingEffects - 1
          terminalResult := some (.failure reason) }
      | .resumeWithI32 _, none => .madeReady { task with
          pendingEffects := task.pendingEffects - 1
          ready := true }
      | _, none => .kept { task with pendingEffects := task.pendingEffects - 1 } := by
  rcases payload with _ | failure | failure
  · simp [Task.complete, CompletionPayload.failure, hmore]
  all_goals cases failure <;> simp [Task.complete, CompletionPayload.failure, hmore]

/-- The task goes on waiting, with a failure as its result if the completion brings one. -/
theorem Task.complete_kept (h : task.complete payload = .kept task') :
    task'.taskId = task.taskId ∧ task'.pendingEffects = task.pendingEffects - 1 ∧
      task'.pendingEffects ≠ 0 ∧ task'.ready = task.ready ∧
      task'.terminalResult = match payload.failure with
        | some reason => some (.failure reason)
        | none => task.terminalResult := by
  by_cases hlast : task.pendingEffects - 1 = 0
  · rw [Task.complete_last hlast, Task.resumed] at h
    split at h
    · cases h
    · split at h <;> cases h
  · rw [Task.complete_more hlast] at h
    split at h
    · cases h
      exact ⟨rfl, rfl, hlast, rfl, by simp [*]⟩
    · cases h
    · cases h
      exact ⟨rfl, rfl, hlast, rfl, by simp [*]⟩

/-- The task is made ready; when the completion fits it waited and has not ended. -/
theorem Task.complete_madeReady (h : task.complete payload = .madeReady task')
    (hfits : payload.Fits task) (hpending : task.pendingEffects ≠ 0) :
    task' = { task with pendingEffects := task.pendingEffects - 1, ready := true } ∧
      payload.failure = none ∧ task.ready = false ∧ task.terminalResult = none := by
  by_cases hlast : task.pendingEffects - 1 = 0
  · have hone : task.pendingEffects = 1 := by omega
    rw [Task.complete_last hlast, Task.resumed] at h
    split at h
    · cases h
    next hfailure =>
      split at h
      · cases h
      next hterminal =>
        cases h
        exact ⟨rfl, hfailure, hfits.last hone, hterminal⟩
  · rw [Task.complete_more hlast] at h
    split at h
    · cases h
    next hfailure =>
      cases h
      simp only [CompletionPayload.Fits, hfailure] at hfits
      exact ⟨rfl, hfailure, hfits.1, hfits.2.resolve_left (by omega)⟩
    · cases h

theorem Task.complete_completed (h : task.complete payload = .completed result)
    (hpending : task.pendingEffects ≠ 0) :
    task.pendingEffects = 1 ∧
      match payload.failure with
      | some reason => result = .failure reason
      | none => task.terminalResult = some result := by
  by_cases hlast : task.pendingEffects - 1 = 0
  · refine ⟨by omega, ?_⟩
    rw [Task.complete_last hlast, Task.resumed] at h
    split at h
    next reason hfailure =>
      cases h
      rfl
    next hfailure =>
      split at h
      next hterminal =>
        cases h
        exact hterminal
      · cases h
  · rw [Task.complete_more hlast] at h
    split at h <;> cases h

theorem replaceTask_append {taskId : Nat} {before after change : List (Task F)}
    (hbefore : ∀ other ∈ before, other.taskId ≠ taskId) (hid : task.taskId = taskId) :
    replaceTask taskId change (before ++ task :: after) = before ++ (change ++ after) := by
  induction before with
  | nil => simp [replaceTask, hid]
  | cons other before ih =>
      rw [List.forall_mem_cons] at hbefore
      simp [replaceTask, hbefore.1, ih hbefore.2]

theorem TasksKept.find (hs : TasksKept past s) {taskId : Nat} (heffect : taskId ∈ s.effects) :
    ∃ task before after, s.tasks.find? (·.taskId == taskId) = some task ∧ task.taskId = taskId ∧
      s.tasks = before ++ task :: after ∧
      ∀ change, replaceTask taskId change s.tasks = before ++ (change ++ after) := by
  obtain ⟨other, hmem, hid⟩ := List.mem_map.mp (hs.effects taskId heffect)
  cases hfind : s.tasks.find? (·.taskId == taskId) with
  | none =>
      have hno := List.find?_eq_none.mp hfind other hmem
      simp [hid] at hno
  | some task =>
      obtain ⟨hid, before, after, htasks, hbefore⟩ := List.find?_eq_some_iff_append.mp hfind
      have hid : task.taskId = taskId := by simpa using hid
      refine ⟨task, before, after, rfl, hid, htasks, fun change => ?_⟩
      rw [htasks]
      exact replaceTask_append (by simpa using hbefore) hid

theorem Scheduler.count_erase {taskId : Nat} (hsubmitted : taskId ∈ s.submitted) :
    s.effects.count taskId =
      { s with submitted := s.submitted.erase taskId }.effects.count taskId + 1 := by
  have hpos := List.count_pos_iff.mpr hsubmitted
  simp only [Scheduler.effects, List.count_append, List.count_erase_self]
  omega

theorem Scheduler.count_erase_other {taskId other : Nat} (hne : other ≠ taskId) :
    { s with submitted := s.submitted.erase taskId }.effects.count other =
      s.effects.count other := by
  simp [Scheduler.effects, List.count_append, List.count_erase_of_ne hne]

theorem TasksKept.completion (hs : TasksKept past s) {taskId : Nat} {output : SchedulerOutput F}
    (hsubmitted : taskId ∈ s.submitted)
    (hfits : ∀ task ∈ s.tasks, task.taskId = taskId → payload.Fits task)
    (h : Scheduler.applyCompletion { s with submitted := s.submitted.erase taskId } taskId payload =
      (output, t)) :
    output.resumed = none ∧ TasksKept (past ++ [⟨s, .complete taskId payload, output, t⟩]) t := by
  have heffect : taskId ∈ s.effects := List.mem_append_right _ hsubmitted
  obtain ⟨task, before, after, hfind, rfl, htasks, hreplace⟩ := hs.find heffect
  have hbefore : s.tasks.Perm (task :: (before ++ after)) := htasks ▸ List.perm_middle
  have hmem : task ∈ s.tasks := hbefore.mem_iff.mpr (List.mem_cons_self ..)
  have hkept := hs.tasks task hmem
  have hfits := hfits task hmem rfl
  have hcount := Scheduler.count_erase hsubmitted
  have hpending : task.pendingEffects ≠ 0 := by
    rw [hkept.pending, hcount]
    exact Nat.succ_ne_zero _
  have hpushed : pushedIds (past ++ [⟨s, .complete task.taskId payload, output, t⟩]) =
      pushedIds past := by
    rw [pushedIds_append]
    exact List.append_nil _
  simp only [Scheduler.applyCompletion, hfind, hreplace, Prod.mk.injEq] at h
  obtain ⟨rfl, h⟩ := h
  refine ⟨rfl, ?_⟩
  have hended : ∀ other ≠ task.taskId,
      firstEnded (past ++ [⟨s, .complete task.taskId payload,
        ⟨none, payload.failure.map fun reason => (task.taskId, .failure reason)⟩, t⟩]) other =
        firstEnded past other := by
    intro other hne
    cases hfailure : payload.failure with
    | none => exact firstEnded_of_none rfl
    | some reason => exact firstEnded_other rfl hne.symm
  have hfirst : firstEnded (past ++ [⟨s, .complete task.taskId payload,
      ⟨none, payload.failure.map fun reason => (task.taskId, .failure reason)⟩, t⟩]) task.taskId =
        match payload.failure with
        | some reason => some (.failure reason)
        | none => task.terminalResult := by
    cases hfailure : payload.failure with
    | none => exact (firstEnded_of_none rfl).trans hkept.terminal
    | some reason =>
        have hnotEnded := hkept.terminal.trans (hfits.of_failure hfailure).2
        exact firstEnded_new rfl hnotEnded
  cases hchange : task.complete payload with
  | kept task' =>
      obtain ⟨hid, hless, hmore, hready, hterminal⟩ := Task.complete_kept hchange
      rw [hchange] at h
      subst h
      refine hs.replace hbefore List.perm_middle hid rfl hpushed ?_ ⟨?_, ?_, ?_⟩
        (fun other hne => Scheduler.count_erase_other hne) hended
      · rw [hready]
      · rw [hid, hless, hkept.pending, hcount]
        rfl
      · rw [hid, hfirst, hterminal]
      · intro hsome
        refine ⟨?_, hmore⟩
        rw [hready]
        rw [hterminal] at hsome
        split at hsome
        next reason hfailure => exact (hfits.of_failure hfailure).1
        · exact (hkept.waiting hsome).1
  | madeReady task' =>
      obtain ⟨rfl, hfailure, hready, hterminal⟩ := Task.complete_madeReady hchange hfits hpending
      rw [hchange] at h
      subst h
      refine hs.replace hbefore List.perm_middle rfl rfl hpushed ?_ ⟨?_, ?_, ?_⟩
        (fun other hne => Scheduler.count_erase_other hne) hended
      · simp [hready]
      · simp only [hkept.pending, hcount]
        rfl
      · simpa [hfailure] using hfirst
      · simp [hterminal]
  | completed result =>
      obtain ⟨hlast, hresult⟩ := Task.complete_completed hchange hpending
      have hready := hfits.last hlast
      rw [hchange] at h
      subst h
      refine hs.complete hbefore (.refl _) rfl hpushed ?_ ?_
        (fun other hne => Scheduler.count_erase_other hne) ?_ hended
      · simp [hready]
      · rw [hkept.pending, hcount] at hlast
        exact Nat.succ.inj hlast
      · rw [hfirst]
        split at hresult
        next reason hfailure => rw [hresult]
        · exact hresult

end completions

/-! ## Runs -/

theorem TasksKept.step {past : List (SchedulerMoment F)} {s t : Scheduler F}
    {input : SchedulerInput F} {output : SchedulerOutput F} (hs : TasksKept past s)
    (h : schedulerStep s input = some (output, t)) (hfits : input.Fits s) :
    (∀ taskId, output.resumed = some taskId → firstEnded past taskId = none) ∧
      TasksKept (past ++ [⟨s, input, output, t⟩]) t := by
  cases input with
  | push taskId ready =>
      simp only [schedulerStep] at h
      split at h
      · cases h
      next hnew =>
        cases h
        exact ⟨by simp, hs.push hnew rfl rfl⟩
  | run effects outcome => exact hs.run h
  | submit =>
      obtain ⟨t, hsubmit, heq⟩ := Option.map_eq_some_iff.mp h
      cases heq
      exact ⟨by simp, hs.submit hsubmit rfl⟩
  | complete taskId payload =>
      simp only [schedulerStep] at h
      split at h
      next hsubmitted =>
        obtain ⟨hresumed, hkept⟩ := hs.completion hsubmitted hfits (Option.some.inj h)
        exact ⟨by simp [hresumed], hkept⟩
      · cases h

/-- In a run whose completions all find their tasks waiting for them, every task is accounted for. -/
theorem tasks_accounted_for {inputs : List (SchedulerInput F)} {run : List (SchedulerMoment F)}
    (hrun : Lib.moments schedulerStep Scheduler.new inputs = some run)
    (hfits : ∀ now ∈ run, now.input.Fits now.before) : Lib.EachMoment TaskAccounting run := by
  refine Lib.eachMoment_of TasksKept (fun past s input output t hs hstep hgood => ?_)
    tasksKept_new hrun hfits
  obtain ⟨hresumed, hkept⟩ := hs.step hstep hgood
  exact ⟨hkept.accounting hresumed, hkept⟩

/-- Two tasks; one starts an effect and goes on, then ends while its second effect is out. -/
private def twoTasks : List (SchedulerInput Unit) :=
  [.push 0 true, .push 1 true, .run 1 .goesOn, .run 0 .finished, .submit,
    .complete 0 (.resumeWithI32 none), .run 1 .finished, .submit, .complete 0 (.hostCall none)]

theorem tasks_accounted_for_two :
    ∃ run, Lib.moments schedulerStep (Scheduler.new : Scheduler Unit) twoTasks = some run ∧
      Lib.EachMoment TaskAccounting run := by
  refine ⟨_, rfl, @tasks_accounted_for Unit twoTasks _ rfl ?_⟩
  intro now hmem
  simp only [List.mem_cons, List.not_mem_nil, or_false] at hmem
  rcases hmem with rfl | rfl | rfl | rfl | rfl | rfl | rfl | rfl | rfl
  all_goals try exact trivial
  all_goals
    intro task hmem heq
    obtain rfl := List.mem_singleton.mp hmem
  · exact ⟨rfl, .inl rfl⟩
  · exact fun _ => rfl

/-- A task that waits for two effects ends; a value for the first one makes it ready again, and it is
run after its end. -/
private def resumedAfterEnd : List (SchedulerInput Unit) :=
  [.push 0 true, .run 2 .finished, .submit, .submit, .complete 0 (.resumeWithI32 none),
    .run 0 .goesOn]

theorem ended_task_resumed :
    ∃ run, Lib.moments schedulerStep (Scheduler.new : Scheduler Unit) resumedAfterEnd = some run ∧
      ¬Lib.EachMoment TaskAccounting run := by
  refine ⟨_, rfl, fun haccounted => ?_⟩
  have hlast := (haccounted [_, _, _, _, _] _ [] rfl).resumed 0 rfl
  cases hlast

end Telomere.Runtime
