import Telomere.Common.SharedMemory

/-!
# Waits are accounted for

Every registered wait comes out in one way: woken, timed out or abandoned. A notification wakes the
waiters of its address that have not come out yet, in the order of their registration, and counts
them. A wait that was dropped stays in its queue as one that waits, and a notification that comes to
it spends a wake on it.
-/

namespace Telomere.Shared

variable {M : Type}

def WaitOutput.fateOf (id : Nat) : WaitOutput → Option Fate
  | .fate other which => if other = id then some which else none
  | _ => none

def fates (past : List (WaitMoment M)) (id : Nat) : List Fate :=
  past.filterMap (·.output.fateOf id)

def live (past : List (WaitMoment M)) (id : Nat) : Bool := (fates past id).isEmpty

def registeredAt (offset : Nat) (now : WaitMoment M) : Option Nat :=
  match now.input, now.output with
  | .registerWait32 address _ _, .registered id | .registerWait64 address _ _, .registered id =>
      if address = offset then some id else none
  | _, _ => none

def waitersAt (past : List (WaitMoment M)) (offset : Nat) : List Nat :=
  past.filterMap (registeredAt offset)

/-- A call of `notify_waiters` and whom it has woken so far. -/
structure NotifyCall where
  offset : Nat
  count : Nat
  woken : List Nat
deriving DecidableEq, Repr

def nextCall (call : Option NotifyCall) (now : WaitMoment M) : Option NotifyCall :=
  match now.input, now.output with
  | .notifyWaiters offset count, .nothing => some ⟨offset, count, []⟩
  | _, .fate id .woken => call.map fun call => { call with woken := call.woken ++ [id] }
  | _, .counted _ => none
  | _, _ => call

def notifyCall (past : List (WaitMoment M)) : Option NotifyCall := past.foldl nextCall none

namespace SharedMemory

/-- Those whom `notify_one` will still be called for. -/
def toNotify (s : SharedMemory M) : List Nat :=
  s.notifyOnes ++ (s.notifying.map (·.wake)).getD []

/-- The queue of an address, with what `retain` has kept of it. -/
def queued (s : SharedMemory M) (offset : Nat) : List Nat :=
  (match s.notifying with
    | some notification => if notification.offset = offset then notification.kept.getD [] else []
    | none => []) ++ s.waitQueues offset

end SharedMemory

/-- A wait comes out once; one that is over has come out, and its value says how. Who is woken is the
first one that was registered at the address and has not come out, as long as the count allows; the
number that is returned is that of those woken, and if it is below the count there was no other one.
No wake is lost. -/
structure WaitAccounting (past : List (WaitMoment M)) (now : WaitMoment M) : Prop where
  once : ∀ id fate, now.output = .fate id fate → fates past id = []
  ends : ∀ id waiter, now.after.waiters id = some waiter →
    waiter.future = .ended ∨ waiter.future = .dropped → ∃ fate, fates (past ++ [now]) id = [fate]
  result : ∀ id value, now.output = .result id value →
    (value = 0 ∧ fates past id = [.woken]) ∨ (value = 2 ∧ fates past id = [.timedOut])
  woken : ∀ id, now.output = .fate id .woken → ∃ call, notifyCall past = some call ∧
    call.woken.length < call.count ∧ (waitersAt past call.offset).find? (live past) = some id
  counted : ∀ woken, now.output = .counted woken → ∃ call, notifyCall past = some call ∧
    woken = call.woken.length ∧ woken ≤ call.count ∧
    (woken < call.count → (waitersAt past call.offset).find? (live past) = none)
  delivered : ∀ id waiter, now.after.waiters id = some waiter → waiter.state = .notified →
    waiter.future = .awaiting → waiter.permit ∨ id ∈ now.after.toNotify

/-- The next waiter that the notification comes to, with wakes to give, was dropped while it waited. -/
def ComesToAbandoned (s : SharedMemory M) : Prop :=
  ∃ notification id rest waiter, s.notifying = some notification ∧ notification.kept = none ∧
    notification.remaining ≠ 0 ∧ s.waitQueues notification.offset = id :: rest ∧
    s.waiters id = some waiter ∧ waiter.state = .waiting ∧ waiter.future = .dropped

section history

variable {past : List (WaitMoment M)} {now : WaitMoment M} {id offset : Nat}

theorem fates_append :
    fates (past ++ [now]) id = fates past id ++ (now.output.fateOf id).toList := by
  cases h : now.output.fateOf id <;> simp [fates, h]

theorem fates_of_none (h : now.output.fateOf id = none) : fates (past ++ [now]) id = fates past id := by
  simp [fates_append, h]

theorem live_iff : live past id = true ↔ fates past id = [] := List.isEmpty_iff

theorem live_of_append (h : live (past ++ [now]) id = true) : live past id = true := by
  rw [live_iff, fates_append, List.append_eq_nil_iff] at h
  exact live_iff.mpr h.1

theorem waitersAt_append :
    waitersAt (past ++ [now]) offset = waitersAt past offset ++ (registeredAt offset now).toList := by
  cases h : registeredAt offset now <;> simp [waitersAt, h]

theorem notifyCall_append : notifyCall (past ++ [now]) = nextCall (notifyCall past) now := by
  simp [notifyCall]

end history

def SharedWaiter.fates (waiter : SharedWaiter) : List Fate :=
  match waiter.state with
  | .notified => [.woken]
  | .timedOut => [.timedOut]
  | .waiting => if waiter.future = .dropped then [.abandoned] else []

structure WaiterKept (waiter : SharedWaiter) : Prop where
  permit : waiter.permit = true → waiter.state = .notified
  removing : waiter.future = .removing → waiter.state = .timedOut
  timedOut : waiter.state = .timedOut → waiter.future = .removing ∨ waiter.future = .ended
  ended : waiter.future = .ended → waiter.state ≠ .waiting

structure TableKept (past : List (WaitMoment M)) (s : SharedMemory M) : Prop where
  fresh : ∀ id, s.nextWaiterId ≤ id → s.waiters id = none ∧ fates past id = []
  registered : ∀ offset id, id ∈ waitersAt past offset ↔
    ∃ waiter, s.waiters id = some waiter ∧ waiter.address = offset
  waiter : ∀ id waiter, s.waiters id = some waiter →
    WaiterKept waiter ∧ fates past id = waiter.fates

structure QueueKept (past : List (WaitMoment M)) (s : SharedMemory M) (offset : Nat) : Prop where
  order : (s.queued offset).filter (live past) = (waitersAt past offset).filter (live past)
  registered : ∀ id ∈ s.queued offset, id ∈ waitersAt past offset

structure CallKept (past : List (WaitMoment M)) (s : SharedMemory M) : Prop where
  call : notifyCall past = s.notifying.map fun notification =>
    ⟨notification.offset, notification.remaining + notification.wake.length, notification.wake⟩
  kept : ∀ notification kept, s.notifying = some notification → notification.kept = some kept →
    notification.remaining ≠ 0 → s.queued notification.offset = []
  notified : ∀ id ∈ s.toNotify, ∃ waiter, s.waiters id = some waiter ∧ waiter.state = .notified
  delivered : ∀ id waiter, s.waiters id = some waiter → waiter.state = .notified →
    waiter.future = .awaiting → waiter.permit = true ∨ id ∈ s.toNotify

structure WaitsKept (past : List (WaitMoment M)) (s : SharedMemory M) : Prop where
  table : TableKept past s
  queues : ∀ offset, QueueKept past s offset
  call : CallKept past s

section frame

variable {past : List (WaitMoment M)} {s t : SharedMemory M} {now : WaitMoment M}
  {id offset : Nat} {waiter : SharedWaiter}

structure Quiet (past past' : List (WaitMoment M)) : Prop where
  waitersAt : ∀ offset, waitersAt past' offset = waitersAt past offset
  fates : ∀ id, fates past' id = fates past id

theorem TableKept.same {past' : List (WaitMoment M)} (h : TableKept past s)
    (hquiet : Quiet past past') (hwaiters : t.waiters = s.waiters)
    (hnext : t.nextWaiterId = s.nextWaiterId) : TableKept past' t := by
  refine ⟨fun id hle => ?_, fun offset id => ?_, fun id waiter hwaiter => ?_⟩
  · rw [hwaiters, hquiet.fates]
    exact h.fresh id (hnext ▸ hle)
  · rw [hquiet.waitersAt, hwaiters]
    exact h.registered offset id
  · rw [hquiet.fates]
    exact h.waiter id waiter (hwaiters ▸ hwaiter)

theorem TableKept.setWaiter {past' : List (WaitMoment M)} (h : TableKept past s)
    (hwaiter : s.waiters id = some waiter) (waiter' : SharedWaiter)
    (haddress : waiter'.address = waiter.address) (hkept : WaiterKept waiter')
    (hregistered : ∀ offset, waitersAt past' offset = waitersAt past offset)
    (hfates : fates past' id = waiter'.fates)
    (hothers : ∀ other ≠ id, fates past' other = fates past other)
    (hwaiters : t.waiters = Function.update s.waiters id (some waiter'))
    (hnext : t.nextWaiterId = s.nextWaiterId) : TableKept past' t := by
  refine ⟨fun other hle => ?_, fun offset other => ?_, fun other waiter'' hother => ?_⟩
  · have hne : other ≠ id := by
      rintro rfl
      have hnone := (h.fresh other (hnext ▸ hle)).1
      rw [hwaiter] at hnone
      cases hnone
    rw [hwaiters, Function.update_of_ne hne, hothers other hne]
    exact h.fresh other (hnext ▸ hle)
  · rw [hregistered, hwaiters, h.registered]
    by_cases hne : other = id
    · simp [hne, hwaiter, haddress]
    · rw [Function.update_of_ne hne]
  · rw [hwaiters] at hother
    by_cases hne : other = id
    · subst hne
      obtain rfl : waiter' = waiter'' := by simpa using hother
      exact ⟨hkept, hfates⟩
    · rw [Function.update_of_ne hne] at hother
      rw [hothers other hne]
      exact h.waiter other waiter'' hother

def TakenOut (past : List (WaitMoment M)) (before after : List Nat) : Prop :=
  ∃ front id rest, before = front ++ id :: rest ∧ after = front ++ rest ∧ live past id = false

/-- Nothing is registered, and a queue loses at most one that is not live. -/
theorem QueueKept.next {past' : List (WaitMoment M)} (h : QueueKept past s offset)
    (hregistered : waitersAt past' offset = waitersAt past offset)
    (hlive : ∀ id, live past' id = true → live past id = true)
    (hqueue : t.queued offset = s.queued offset ∨
      TakenOut past' (s.queued offset) (t.queued offset)) : QueueKept past' t offset := by
  have hfilter : ∀ ids : List Nat,
      (ids.filter (live past)).filter (live past') = ids.filter (live past') := by
    intro ids
    rw [List.filter_filter]
    refine List.filter_congr fun id _ => ?_
    cases hid : live past' id
    · rfl
    · simp [hlive id hid]
  have horder := congrArg (List.filter (live past')) h.order
  rw [hfilter, hfilter] at horder
  rw [← hregistered] at horder
  rcases hqueue with hsame | ⟨front, id, rest, hbefore, hafter, hdead⟩
  · rw [← hsame] at horder
    refine ⟨horder, fun id hmem => ?_⟩
    rw [hregistered]
    exact h.registered id (hsame ▸ hmem)
  · refine ⟨?_, fun other hmem => ?_⟩
    · rw [← horder, hbefore, hafter]
      simp [List.filter_append, hdead]
    · rw [hregistered]
      refine h.registered other ?_
      rw [hbefore]
      rw [hafter] at hmem
      exact (List.mem_append.mp hmem).elim (List.mem_append_left _)
        fun hmem => List.mem_append_right _ (List.mem_cons_of_mem _ hmem)

theorem CallKept.same {past' : List (WaitMoment M)} (h : CallKept past s)
    (hcall : notifyCall past' = notifyCall past) (hwaiters : t.waiters = s.waiters)
    (hnotifying : t.notifying = s.notifying) (hones : t.notifyOnes = s.notifyOnes)
    (hqueues : ∀ offset, s.queued offset = [] → t.queued offset = []) : CallKept past' t := by
  have hto : t.toNotify = s.toNotify := by
    rw [SharedMemory.toNotify, SharedMemory.toNotify, hones, hnotifying]
  refine ⟨?_, ?_, ?_, ?_⟩
  · rw [hcall, hnotifying, h.call]
  · intro notification kept hsome hkept hne
    exact hqueues _ (h.kept notification kept (hnotifying ▸ hsome) hkept hne)
  · rw [hto, hwaiters]
    exact h.notified
  · rw [hto, hwaiters]
    exact h.delivered

/-- One waiter changes; what was marked stays so, and its wake is there. -/
theorem CallKept.setWaiter {past' : List (WaitMoment M)} (h : CallKept past s)
    {waiter' : SharedWaiter} (hcall : notifyCall past' = notifyCall past)
    (hwaiter : s.waiters id = some waiter)
    (hwaiters : t.waiters = Function.update s.waiters id (some waiter'))
    (hnotifying : t.notifying = s.notifying) (hones : t.notifyOnes = s.notifyOnes)
    (hqueues : ∀ offset, s.queued offset = [] → t.queued offset = [])
    (hstate : waiter.state = .notified → waiter'.state = .notified)
    (hdelivered : waiter'.state = .notified → waiter'.future = .awaiting →
      waiter'.permit = true ∨ id ∈ s.toNotify) : CallKept past' t := by
  have hto : t.toNotify = s.toNotify := by
    rw [SharedMemory.toNotify, SharedMemory.toNotify, hones, hnotifying]
  refine ⟨?_, ?_, ?_, ?_⟩
  · rw [hcall, hnotifying, h.call]
  · intro notification kept hsome hkept hne
    exact hqueues _ (h.kept notification kept (hnotifying ▸ hsome) hkept hne)
  · rw [hto, hwaiters]
    intro other hmem
    obtain ⟨waiter'', hother, hnotified⟩ := h.notified other hmem
    by_cases hne : other = id
    · subst hne
      obtain rfl : waiter = waiter'' := Option.some.inj (hwaiter.symm.trans hother)
      exact ⟨waiter', by simp, hstate hnotified⟩
    · exact ⟨waiter'', by rwa [Function.update_of_ne hne], hnotified⟩
  · rw [hto, hwaiters]
    intro other waiter'' hother
    by_cases hne : other = id
    · subst hne
      obtain rfl : waiter' = waiter'' := by simpa using hother
      exact hdelivered
    · rw [Function.update_of_ne hne] at hother
      exact h.delivered other waiter'' hother

theorem quiet_append (hregistered : ∀ offset, registeredAt offset now = none)
    (hfate : ∀ id, now.output.fateOf id = none) : Quiet past (past ++ [now]) :=
  ⟨fun offset => by simp [waitersAt_append, hregistered], fun id => fates_of_none (hfate id)⟩

theorem Quiet.live {past' : List (WaitMoment M)} (h : Quiet past past') : live past' = live past := by
  funext id
  rw [Shared.live, Shared.live, h.fates]

theorem WaitsKept.same {past' : List (WaitMoment M)} (hs : WaitsKept past s)
    (hquiet : Quiet past past') (hcall : notifyCall past' = notifyCall past) (memory : M) :
    WaitsKept past' { s with memory := memory } := by
  refine ⟨hs.table.same hquiet rfl rfl, fun offset => ?_,
    hs.call.same hcall rfl rfl rfl fun _ h => h⟩
  exact (hs.queues offset).next (hquiet.waitersAt offset) (fun id h => hquiet.live ▸ h)
    (.inl rfl)

theorem WaitsKept.register (hs : WaitsKept past s) (hidle : s.notifying = none) {timeoutNs : Int}
    (hregistered : ∀ other, registeredAt other now =
      if offset = other then some s.nextWaiterId else none)
    (hfate : ∀ id, now.output.fateOf id = none)
    (hcall : notifyCall (past ++ [now]) = notifyCall past) :
    WaitsKept (past ++ [now]) (s.register offset timeoutNs) := by
  have hfates : ∀ id, fates (past ++ [now]) id = fates past id := fun id => fates_of_none (hfate id)
  have hlive : live (past ++ [now]) = live past := by
    funext id
    rw [live, live, hfates]
  obtain ⟨hnone, hnoFate⟩ := hs.table.fresh s.nextWaiterId (Nat.le_refl _)
  have hwaiters : ∀ other, waitersAt (past ++ [now]) other =
      waitersAt past other ++ if offset = other then [s.nextWaiterId] else [] := by
    intro other
    rw [waitersAt_append, hregistered]
    split <;> rfl
  have hqueued : ∀ other, (s.register offset timeoutNs).queued other =
      s.queued other ++ if offset = other then [s.nextWaiterId] else [] := by
    intro other
    by_cases heq : offset = other
    · subst heq
      simp [SharedMemory.queued, SharedMemory.register, SharedMemory.setQueue,
        SharedMemory.setWaiter, hidle]
    · simp [SharedMemory.queued, SharedMemory.register, SharedMemory.setQueue,
        SharedMemory.setWaiter, hidle, heq, Ne.symm heq]
  refine ⟨⟨fun id hle => ?_, fun other id => ?_, fun id waiter hwaiter => ?_⟩,
    fun other => ⟨?_, ?_⟩, ?_⟩
  · have hlt : s.nextWaiterId < id := hle
    rw [hfates]
    obtain ⟨hfree, hnever⟩ := hs.table.fresh id (Nat.le_of_lt hlt)
    exact ⟨(Function.update_of_ne (Nat.ne_of_gt hlt) _ _).trans hfree, hnever⟩
  · have hold := hs.table.registered other id
    simp only [hwaiters, List.mem_append, hold, SharedMemory.register, SharedMemory.setQueue,
      SharedMemory.setWaiter]
    by_cases hne : id = s.nextWaiterId
    · subst hne
      by_cases heq : offset = other <;> simp [hnone, heq]
    · by_cases heq : offset = other <;> simp [hne, heq]
  · rw [hfates]
    by_cases hne : id = s.nextWaiterId
    · subst hne
      obtain rfl : (⟨offset, timeoutNs, .waiting, false, .fresh⟩ : SharedWaiter) = waiter := by
        simpa [SharedMemory.register, SharedMemory.setQueue, SharedMemory.setWaiter] using hwaiter
      exact ⟨⟨by simp, by simp, by simp, by simp⟩, hnoFate⟩
    · have hold : s.waiters id = some waiter := by
        simpa [SharedMemory.register, SharedMemory.setQueue, SharedMemory.setWaiter,
          Function.update_of_ne hne] using hwaiter
      exact hs.table.waiter id waiter hold
  · rw [hqueued, hwaiters, List.filter_append, List.filter_append, hlive, (hs.queues other).order]
  · rw [hqueued, hwaiters]
    exact List.append_subset.mpr ⟨List.subset_append_of_subset_left _ (hs.queues other).registered,
      List.subset_append_right _ _⟩
  · refine ⟨?_, fun notification kept hsome => ?_, fun id hmem => ?_, fun id waiter hwaiter => ?_⟩
    · rw [hcall]
      exact hs.call.call
    · rw [show (s.register offset timeoutNs).notifying = none from hidle] at hsome
      cases hsome
    · obtain ⟨waiter, hwaiter, hnotified⟩ := hs.call.notified id hmem
      have hne : id ≠ s.nextWaiterId := by
        rintro rfl
        rw [hnone] at hwaiter
        cases hwaiter
      exact ⟨waiter, (Function.update_of_ne hne _ _).trans hwaiter, hnotified⟩
    · by_cases hne : id = s.nextWaiterId
      · subst hne
        obtain rfl : (⟨offset, timeoutNs, .waiting, false, .fresh⟩ : SharedWaiter) = waiter := by
          simpa [SharedMemory.register, SharedMemory.setQueue, SharedMemory.setWaiter] using hwaiter
        exact fun hnotified => by cases hnotified
      · have hold : s.waiters id = some waiter := by
          simpa [SharedMemory.register, SharedMemory.setQueue, SharedMemory.setWaiter,
            Function.update_of_ne hne] using hwaiter
        exact hs.call.delivered id waiter hold

end frame

section notifications

variable {past : List (WaitMoment M)} {s t : SharedMemory M} {output : WaitOutput}
  {notification : Notification}

/-- What one step under the lock does: a waiter is woken, one that has come out is passed over, the
waking is over, `retain` looks at a waiter, or the lock is released. -/
theorem notify_cases (h : s.notify = some (output, t)) : ∃ notification,
    s.notifying = some notification ∧
      ((∃ id rest waiter, notification.kept = none ∧ notification.remaining ≠ 0 ∧
          s.waitQueues notification.offset = id :: rest ∧ s.waiters id = some waiter ∧
          ((waiter.state = .waiting ∧ output = .fate id .woken ∧
              t = { (s.setQueue notification.offset rest).setWaiter id
                  { waiter with state := .notified } with
                notifying := some { notification with
                  remaining := notification.remaining - 1
                  wake := notification.wake ++ [id] } }) ∨
            (waiter.state ≠ .waiting ∧ output = .nothing ∧
              t = s.setQueue notification.offset rest))) ∨
        (notification.kept = none ∧
          (notification.remaining = 0 ∨ s.waitQueues notification.offset = []) ∧
          output = .nothing ∧
          t = { s with notifying := some { notification with kept := some [] } }) ∨
        (∃ kept id rest waiter, notification.kept = some kept ∧
          s.waitQueues notification.offset = id :: rest ∧ s.waiters id = some waiter ∧
          output = .nothing ∧
          t = { s.setQueue notification.offset rest with
            notifying := some { notification with
              kept := some (if waiter.state = .waiting then kept ++ [id] else kept) } }) ∨
        (∃ kept, notification.kept = some kept ∧ s.waitQueues notification.offset = [] ∧
          output = .counted notification.wake.length ∧
          t = { s.setQueue notification.offset kept with
            notifying := none
            notifyOnes := s.notifyOnes ++ notification.wake })) := by
  obtain ⟨notification, hnotifying, h⟩ := Option.bind_eq_some_iff.mp h
  refine ⟨notification, hnotifying, ?_⟩
  cases hkept : notification.kept with
  | none =>
      simp only [hkept] at h
      split at h
      next remaining id rest hremaining hqueue =>
        obtain ⟨waiter, hwaiter, h⟩ := Option.bind_eq_some_iff.mp h
        refine .inl ⟨id, rest, waiter, rfl, by omega, hqueue, hwaiter, ?_⟩
        split at h
        next hwaiting =>
          cases h
          exact .inl ⟨hwaiting, rfl, by simp [hremaining]⟩
        next hwaiting =>
          cases h
          exact .inr ⟨hwaiting, rfl, rfl⟩
      next hnot =>
        cases h
        refine .inr (.inl ⟨rfl, ?_, rfl, rfl⟩)
        cases hremaining : notification.remaining with
        | zero => exact .inl rfl
        | succ remaining =>
            cases hqueue : s.waitQueues notification.offset with
            | nil => exact .inr rfl
            | cons id rest => exact (hnot remaining id rest hremaining hqueue).elim
  | some kept =>
      simp only [hkept] at h
      split at h
      next id rest hqueue =>
        obtain ⟨waiter, hwaiter, h⟩ := Option.bind_eq_some_iff.mp h
        cases h
        exact .inr (.inr (.inl ⟨kept, id, rest, waiter, rfl, hqueue, hwaiter, rfl, rfl⟩))
      next hqueue =>
        cases h
        exact .inr (.inr (.inr ⟨kept, rfl, hqueue, rfl, rfl⟩))

theorem queued_of_waking (hnotifying : s.notifying = some notification)
    (hkept : notification.kept = none) (offset : Nat) : s.queued offset = s.waitQueues offset := by
  simp [SharedMemory.queued, hnotifying, hkept]

theorem WaitsKept.not_live (hs : WaitsKept past s) {id : Nat} {waiter : SharedWaiter}
    (hwaiter : s.waiters id = some waiter) (hstate : waiter.state ≠ .waiting) :
    live past id = false := by
  have hfates := (hs.table.waiter id waiter hwaiter).2
  rw [live, hfates, SharedWaiter.fates]
  cases hcase : waiter.state with
  | waiting => exact (hstate hcase).elim
  | notified => rfl
  | timedOut => rfl

theorem WaitsKept.wake (hs : WaitsKept past s) {id : Nat} {rest : List Nat} {waiter : SharedWaiter}
    (hnotifying : s.notifying = some notification) (hkept : notification.kept = none)
    (hremaining : notification.remaining ≠ 0)
    (hqueue : s.waitQueues notification.offset = id :: rest) (hwaiter : s.waiters id = some waiter)
    (hstate : waiter.state = .waiting) (hdropped : waiter.future ≠ .dropped)
    (ht : t = { (s.setQueue notification.offset rest).setWaiter id
        { waiter with state := .notified } with
      notifying := some { notification with
        remaining := notification.remaining - 1
        wake := notification.wake ++ [id] } }) :
    live past id = true ∧ WaitsKept (past ++ [⟨s, .notify, .fate id .woken, t⟩]) t := by
  obtain ⟨hwaiterKept, hfates⟩ := hs.table.waiter id waiter hwaiter
  have hnoFate : fates past id = [] := by
    rw [hfates, SharedWaiter.fates, hstate]
    exact if_neg hdropped
  have hregistered : ∀ offset, waitersAt (past ++ [⟨s, .notify, .fate id .woken, t⟩]) offset =
      waitersAt past offset := by
    intro offset
    rw [waitersAt_append]
    exact List.append_nil _
  have hwoken : fates (past ++ [⟨s, .notify, .fate id .woken, t⟩]) id = [.woken] := by
    simp [fates_append, hnoFate, WaitOutput.fateOf]
  have hothers : ∀ other ≠ id,
      fates (past ++ [⟨s, .notify, .fate id .woken, t⟩]) other = fates past other :=
    fun other hne => fates_of_none (if_neg (Ne.symm hne))
  have hdead : live (past ++ [⟨s, .notify, .fate id .woken, t⟩]) id = false := by
    rw [live, hwoken]
    rfl
  refine ⟨live_iff.mpr hnoFate, ?_, fun offset => ?_, ?_⟩
  · refine hs.table.setWaiter hwaiter { waiter with state := .notified } rfl ?_
      hregistered hwoken hothers (by rw [ht]; rfl) (by rw [ht]; rfl)
    refine ⟨fun _ => rfl, fun hremoving => ?_, by simp, by simp⟩
    rw [hwaiterKept.removing hremoving] at hstate
    cases hstate
  · refine (hs.queues offset).next (hregistered offset) (fun other => live_of_append) ?_
    have htnotifying : t.notifying = some { notification with
        remaining := notification.remaining - 1
        wake := notification.wake ++ [id] } := by rw [ht]
    have htqueue : t.waitQueues = Function.update s.waitQueues notification.offset rest := by
      rw [ht]
      rfl
    rw [queued_of_waking hnotifying hkept, queued_of_waking htnotifying hkept, htqueue]
    by_cases heq : offset = notification.offset
    · subst heq
      exact .inr ⟨[], id, rest, hqueue, Function.update_self .., hdead⟩
    · exact .inl (Function.update_of_ne heq ..)
  · have hto : ∀ other, other ∈ t.toNotify ↔ other ∈ s.toNotify ∨ other = id := by
      intro other
      simp [ht, SharedMemory.toNotify, SharedMemory.setQueue, SharedMemory.setWaiter, hnotifying,
        or_assoc]
    have hwaiters : t.waiters =
        Function.update s.waiters id (some { waiter with state := .notified }) := by
      rw [ht]
      rfl
    refine ⟨?_, fun notification' kept hsome hsomeKept => ?_, fun other hmem => ?_,
      fun other waiter' hother hnotified hawaiting => ?_⟩
    · rw [notifyCall_append, hs.call.call, hnotifying, ht]
      simp [nextCall]
      omega
    · rw [ht] at hsome
      obtain rfl := Option.some.inj hsome
      rw [hkept] at hsomeKept
      cases hsomeKept
    · by_cases hne : other = id
      · exact ⟨_, by rw [hwaiters, hne]; exact Function.update_self .., rfl⟩
      · obtain ⟨waiter', hother, hnotified⟩ := hs.call.notified other
          (((hto other).mp hmem).resolve_right hne)
        exact ⟨waiter', by rwa [hwaiters, Function.update_of_ne hne], hnotified⟩
    · by_cases hne : other = id
      · exact .inr ((hto other).mpr (.inr hne))
      · rw [hwaiters, Function.update_of_ne hne] at hother
        exact (hs.call.delivered other waiter' hother hnotified hawaiting).imp_right
          fun hmem => (hto other).mpr (.inl hmem)

theorem WaitsKept.passOver (hs : WaitsKept past s) {id : Nat} {rest : List Nat}
    {waiter : SharedWaiter} (hnotifying : s.notifying = some notification)
    (hkept : notification.kept = none) (hqueue : s.waitQueues notification.offset = id :: rest)
    (hwaiter : s.waiters id = some waiter) (hstate : waiter.state ≠ .waiting) :
    WaitsKept (past ++ [⟨s, .notify, .nothing, s.setQueue notification.offset rest⟩])
      (s.setQueue notification.offset rest) := by
  have hquiet : Quiet past
      (past ++ [⟨s, .notify, .nothing, s.setQueue notification.offset rest⟩]) :=
    quiet_append (fun _ => rfl) fun _ => rfl
  have hdead := hs.not_live hwaiter hstate
  refine ⟨hs.table.same hquiet rfl rfl, fun offset => ?_, ?_⟩
  · refine (hs.queues offset).next (hquiet.waitersAt offset) (fun other => live_of_append) ?_
    rw [queued_of_waking hnotifying hkept, queued_of_waking (s := s.setQueue _ _) hnotifying hkept]
    by_cases heq : offset = notification.offset
    · subst heq
      exact .inr ⟨[], id, rest, hqueue, Function.update_self .., hquiet.live ▸ hdead⟩
    · exact .inl (Function.update_of_ne heq ..)
  · refine ⟨?_, fun notification' kept hsome hsomeKept => ?_, hs.call.notified, hs.call.delivered⟩
    · rw [notifyCall_append]
      exact hs.call.call
    · obtain rfl := Option.some.inj (hnotifying.symm.trans hsome)
      rw [hkept] at hsomeKept
      cases hsomeKept

theorem CallKept.notifying {past' : List (WaitMoment M)} (h : CallKept past s)
    {notification' : Notification} (hcall : notifyCall past' = notifyCall past)
    (hnotifying : s.notifying = some notification) (hnotifying' : t.notifying = some notification')
    (hoffset : notification'.offset = notification.offset)
    (hremaining : notification'.remaining = notification.remaining)
    (hwake : notification'.wake = notification.wake) (hwaiters : t.waiters = s.waiters)
    (hones : t.notifyOnes = s.notifyOnes)
    (hkept : notification.remaining ≠ 0 → t.queued notification.offset = []) : CallKept past' t := by
  have hto : t.toNotify = s.toNotify := by
    simp [SharedMemory.toNotify, hones, hnotifying, hnotifying', hwake]
  refine ⟨?_, fun other kept hsome _ hne => ?_, ?_, ?_⟩
  · rw [hcall, h.call, hnotifying, hnotifying']
    simp [hoffset, hremaining, hwake]
  · obtain rfl := Option.some.inj (hnotifying'.symm.trans hsome)
    rw [hoffset]
    exact hkept (hremaining ▸ hne)
  · rw [hto, hwaiters]
    exact h.notified
  · rw [hto, hwaiters]
    exact h.delivered

theorem WaitsKept.beginRetain (hs : WaitsKept past s)
    (hnotifying : s.notifying = some notification) (hkept : notification.kept = none)
    (hdone : notification.remaining = 0 ∨ s.waitQueues notification.offset = [])
    (ht : t = { s with notifying := some { notification with kept := some [] } }) :
    WaitsKept (past ++ [⟨s, .notify, .nothing, t⟩]) t := by
  have hquiet : Quiet past (past ++ [⟨s, .notify, .nothing, t⟩]) :=
    quiet_append (fun _ => rfl) fun _ => rfl
  have hqueued : ∀ offset, t.queued offset = s.queued offset := by
    intro offset
    rw [queued_of_waking hnotifying hkept, ht]
    simp [SharedMemory.queued]
  refine ⟨hs.table.same hquiet (by rw [ht]) (by rw [ht]), fun offset => ?_, ?_⟩
  · exact (hs.queues offset).next (hquiet.waitersAt offset) (fun other => live_of_append)
      (.inl (hqueued offset))
  · have hcall : notifyCall (past ++ [⟨s, .notify, .nothing, t⟩]) = notifyCall past :=
      notifyCall_append
    have hnext : t.notifying = some { notification with kept := some [] } := by rw [ht]
    refine hs.call.notifying hcall hnotifying hnext rfl rfl rfl (by rw [ht]) (by rw [ht])
      fun hne => ?_
    rw [hqueued, queued_of_waking hnotifying hkept]
    exact hdone.resolve_left hne

theorem WaitsKept.retain (hs : WaitsKept past s) {kept rest : List Nat} {id : Nat}
    {waiter : SharedWaiter} (hnotifying : s.notifying = some notification)
    (hkept : notification.kept = some kept) (hqueue : s.waitQueues notification.offset = id :: rest)
    (hwaiter : s.waiters id = some waiter)
    (ht : t = { s.setQueue notification.offset rest with
      notifying := some { notification with
        kept := some (if waiter.state = .waiting then kept ++ [id] else kept) } }) :
    WaitsKept (past ++ [⟨s, .notify, .nothing, t⟩]) t := by
  have hquiet : Quiet past (past ++ [⟨s, .notify, .nothing, t⟩]) :=
    quiet_append (fun _ => rfl) fun _ => rfl
  have hqueued : s.queued notification.offset = kept ++ id :: rest := by
    simp [SharedMemory.queued, hnotifying, hkept, hqueue]
  refine ⟨hs.table.same hquiet (by rw [ht]; rfl) (by rw [ht]; rfl), fun offset => ?_, ?_⟩
  · refine (hs.queues offset).next (hquiet.waitersAt offset) (fun other => live_of_append) ?_
    by_cases heq : offset = notification.offset
    · subst heq
      rw [hqueued]
      by_cases hstate : waiter.state = .waiting
      · exact .inl (by simp [ht, SharedMemory.queued, SharedMemory.setQueue, hstate])
      · exact .inr ⟨kept, id, rest, rfl,
          by simp [ht, SharedMemory.queued, SharedMemory.setQueue, hstate],
          hquiet.live ▸ hs.not_live hwaiter hstate⟩
    · exact .inl (by simp [ht, SharedMemory.queued, SharedMemory.setQueue, hnotifying, heq,
        Ne.symm heq])
  · have hcall : notifyCall (past ++ [⟨s, .notify, .nothing, t⟩]) = notifyCall past :=
      notifyCall_append
    have hnext : t.notifying = some { notification with
        kept := some (if waiter.state = .waiting then kept ++ [id] else kept) } := by rw [ht]
    refine hs.call.notifying hcall hnotifying hnext rfl rfl rfl (by rw [ht]; rfl)
      (by rw [ht]; rfl) fun hne => ?_
    have hempty := hs.call.kept notification kept hnotifying hkept hne
    rw [hqueued] at hempty
    simp at hempty

theorem WaitsKept.unlock (hs : WaitsKept past s) {kept : List Nat}
    (hnotifying : s.notifying = some notification) (hkept : notification.kept = some kept)
    (hqueue : s.waitQueues notification.offset = [])
    (ht : t = { s.setQueue notification.offset kept with
      notifying := none
      notifyOnes := s.notifyOnes ++ notification.wake }) :
    WaitsKept (past ++ [⟨s, .notify, .counted notification.wake.length, t⟩]) t := by
  have hquiet : Quiet past (past ++ [⟨s, .notify, .counted notification.wake.length, t⟩]) :=
    quiet_append (fun _ => rfl) fun _ => rfl
  have hto : t.toNotify = s.toNotify := by
    simp [ht, SharedMemory.toNotify, SharedMemory.setQueue, hnotifying]
  have hwaiters : t.waiters = s.waiters := by
    rw [ht]
    rfl
  refine ⟨hs.table.same hquiet hwaiters (by rw [ht]; rfl), fun offset => ?_, ?_⟩
  · refine (hs.queues offset).next (hquiet.waitersAt offset) (fun other => live_of_append) (.inl ?_)
    by_cases heq : offset = notification.offset
    · subst heq
      simp [ht, SharedMemory.queued, SharedMemory.setQueue, hnotifying, hkept, hqueue]
    · simp [ht, SharedMemory.queued, SharedMemory.setQueue, hnotifying, heq, Ne.symm heq]
  · refine ⟨?_, fun other kept' hsome => ?_, ?_, ?_⟩
    · rw [notifyCall_append, ht]
      rfl
    · rw [ht] at hsome
      cases hsome
    · rw [hto, hwaiters]
      exact hs.call.notified
    · rw [hto, hwaiters]
      exact hs.call.delivered

end notifications

section futures

variable {past : List (WaitMoment M)} {s t : SharedMemory M} {output : WaitOutput} {id : Nat}
  {waiter : SharedWaiter}

theorem WaitsKept.notifyWaiters (hs : WaitsKept past s) (hidle : s.notifying = none)
    {offset count : Nat}
    (ht : t = { s with notifying := some ⟨offset, count, [], none⟩ }) :
    WaitsKept (past ++ [⟨s, .notifyWaiters offset count, .nothing, t⟩]) t := by
  have hquiet : Quiet past (past ++ [⟨s, .notifyWaiters offset count, .nothing, t⟩]) :=
    quiet_append (fun _ => rfl) fun _ => rfl
  have hto : t.toNotify = s.toNotify := by
    simp [ht, SharedMemory.toNotify, hidle]
  have hwaiters : t.waiters = s.waiters := by rw [ht]
  refine ⟨hs.table.same hquiet hwaiters (by rw [ht]), fun other => ?_, ?_⟩
  · refine (hs.queues other).next (hquiet.waitersAt other) (fun id => live_of_append) (.inl ?_)
    simp [ht, SharedMemory.queued, hidle]
  · refine ⟨?_, fun notification kept hsome hkept => ?_, ?_, ?_⟩
    · rw [notifyCall_append, ht]
      rfl
    · rw [ht] at hsome
      obtain rfl := Option.some.inj hsome
      cases hkept
    · rw [hto, hwaiters]
      exact hs.call.notified
    · rw [hto, hwaiters]
      exact hs.call.delivered

theorem WaitsKept.notifyOne (hs : WaitsKept past s) (h : s.notifyOne = some (output, t)) :
    output = .nothing ∧ WaitsKept (past ++ [⟨s, .notifyOne, output, t⟩]) t := by
  rw [SharedMemory.notifyOne] at h
  split at h
  · cases h
  next id rest hones =>
    obtain ⟨waiter, hwaiter, h⟩ := Option.bind_eq_some_iff.mp h
    cases h
    refine ⟨rfl, ?_⟩
    generalize ht : ({ s.setWaiter id { waiter with permit := true } with notifyOnes := rest } :
      SharedMemory M) = t
    have hwaiters : t.waiters =
        Function.update s.waiters id (some { waiter with permit := true }) := by
      rw [← ht]
      rfl
    have hto : s.toNotify = id :: t.toNotify := by
      rw [← ht, SharedMemory.toNotify, hones]
      rfl
    have hquiet : Quiet past (past ++ [⟨s, .notifyOne, .nothing, t⟩]) :=
      quiet_append (fun _ => rfl) fun _ => rfl
    have hnotified : waiter.state = .notified := by
      obtain ⟨waiter', hwaiter', hnotified⟩ := hs.call.notified id (hto ▸ List.mem_cons_self ..)
      rwa [← Option.some.inj (hwaiter.symm.trans hwaiter')] at hnotified
    obtain ⟨hkept, hfates⟩ := hs.table.waiter id waiter hwaiter
    refine ⟨?_, fun offset => ?_, ?_⟩
    · exact hs.table.setWaiter hwaiter { waiter with permit := true } rfl
        ⟨fun _ => hnotified, hkept.removing, hkept.timedOut, hkept.ended⟩ hquiet.waitersAt
        ((hquiet.fates id).trans hfates) (fun other _ => hquiet.fates other) hwaiters
        (by rw [← ht]; rfl)
    · exact (hs.queues offset).next (hquiet.waitersAt offset) (fun other => live_of_append)
        (.inl (by rw [← ht]; rfl))
    · refine ⟨?_, fun notification kept hsome hkept hne => ?_, fun other hmem => ?_,
        fun other waiter' hother hstate hawaiting => ?_⟩
      · rw [notifyCall_append, ← ht]
        exact hs.call.call
      · rw [← ht] at hsome ⊢
        exact hs.call.kept notification kept hsome hkept hne
      · obtain ⟨waiter', hother, hstate⟩ := hs.call.notified other
          (hto ▸ List.mem_cons_of_mem _ hmem)
        by_cases hne : other = id
        · refine ⟨{ waiter with permit := true }, ?_, hnotified⟩
          rw [hwaiters, hne, Function.update_self]
        · exact ⟨waiter', by rwa [hwaiters, Function.update_of_ne hne], hstate⟩
      · rw [hwaiters] at hother
        by_cases hne : other = id
        · subst hne
          obtain rfl : { waiter with permit := true } = waiter' := by simpa using hother
          exact .inl rfl
        · rw [Function.update_of_ne hne] at hother
          refine (hs.call.delivered other waiter' hother hstate hawaiting).imp_right fun hmem => ?_
          rw [hto] at hmem
          exact (List.mem_cons.mp hmem).resolve_left hne

theorem WaitsKept.setWaiter {past' : List (WaitMoment M)} (hs : WaitsKept past s)
    (hwaiter : s.waiters id = some waiter) (waiter' : SharedWaiter) (haddress : waiter'.address = waiter.address)
    (hkept : WaiterKept waiter')
    (hregistered : ∀ offset, waitersAt past' offset = waitersAt past offset)
    (hfates : fates past' id = waiter'.fates)
    (hothers : ∀ other ≠ id, fates past' other = fates past other)
    (hlive : ∀ other, live past' other = true → live past other = true)
    (hcall : notifyCall past' = notifyCall past)
    (hstate : waiter.state = .notified → waiter'.state = .notified)
    (hdelivered : waiter'.state = .notified → waiter'.future = .awaiting →
      waiter'.permit = true ∨ id ∈ s.toNotify) : WaitsKept past' (s.setWaiter id waiter') :=
  ⟨hs.table.setWaiter hwaiter waiter' haddress hkept hregistered hfates hothers rfl rfl,
    fun offset => (hs.queues offset).next (hregistered offset) hlive (.inl rfl),
    hs.call.setWaiter hcall hwaiter rfl rfl rfl (fun _ h => h) hstate hdelivered⟩

structure OutputRight (past : List (WaitMoment M)) (output : WaitOutput) : Prop where
  once : ∀ id fate, output = .fate id fate → fates past id = []
  result : ∀ id value, output = .result id value →
    (value = 0 ∧ fates past id = [.woken]) ∨ (value = 2 ∧ fates past id = [.timedOut])
  woken : ∀ id, output = .fate id .woken → ∃ call, notifyCall past = some call ∧
    call.woken.length < call.count ∧ (waitersAt past call.offset).find? (live past) = some id
  counted : ∀ woken, output = .counted woken → ∃ call, notifyCall past = some call ∧
    woken = call.woken.length ∧ woken ≤ call.count ∧
    (woken < call.count → (waitersAt past call.offset).find? (live past) = none)

theorem outputRight_nothing : OutputRight past .nothing := by
  constructor <;> simp

theorem outputRight_result {value : Nat}
    (h : (value = 0 ∧ fates past id = [.woken]) ∨ (value = 2 ∧ fates past id = [.timedOut])) :
    OutputRight past (.result id value) := by
  refine ⟨by simp, fun other value' heq => ?_, by simp, by simp⟩
  obtain ⟨rfl, rfl⟩ := WaitOutput.result.inj heq
  exact h

theorem outputRight_fate {fate : Fate} (h : fates past id = []) (hfate : fate ≠ .woken) :
    OutputRight past (.fate id fate) := by
  refine ⟨fun other fate' heq => ?_, by simp, fun other heq => ?_, by simp⟩
  · obtain ⟨rfl, rfl⟩ := WaitOutput.fate.inj heq
    exact h
  · exact (hfate (WaitOutput.fate.inj heq).2).elim

theorem SharedWaiter.fates_of_notified (h : waiter.state = .notified) : waiter.fates = [.woken] := by
  rw [SharedWaiter.fates, h]

theorem WaitsKept.setFuture (hs : WaitsKept past s) (hwaiter : s.waiters id = some waiter)
    {input : WaitInput M} (permit : Bool) (future : WaitFuture)
    (hregistered : ∀ offset, registeredAt offset ⟨s, input, output, t⟩ = none)
    (hfate : ∀ id, output.fateOf id = none)
    (hcall : nextCall (notifyCall past) ⟨s, input, output, t⟩ = notifyCall past)
    (hkept : WaiterKept { waiter with permit := permit, future := future })
    (hdropped : waiter.state = .waiting → (future = .dropped ↔ waiter.future = .dropped))
    (hdelivered : waiter.state = .notified → future = .awaiting →
      permit = true ∨ id ∈ s.toNotify)
    (ht : t = s.setWaiter id { waiter with permit := permit, future := future }) :
    WaitsKept (past ++ [⟨s, input, output, t⟩]) t := by
  have hquiet : Quiet past (past ++ [⟨s, input, output, t⟩]) := quiet_append hregistered hfate
  have hsame : ({ waiter with permit := permit, future := future } : SharedWaiter).fates =
      waiter.fates := by
    cases hstate : waiter.state with
    | waiting => simp [SharedWaiter.fates, hstate, hdropped hstate]
    | notified => simp [SharedWaiter.fates, hstate]
    | timedOut => simp [SharedWaiter.fates, hstate]
  have hfates := (hs.table.waiter id waiter hwaiter).2
  have hkept' := hs.setWaiter hwaiter { waiter with permit := permit, future := future } rfl hkept
    hquiet.waitersAt
    ((hquiet.fates id).trans (hfates.trans hsame.symm)) (fun other _ => hquiet.fates other)
    (fun other => live_of_append) (notifyCall_append.trans hcall) (fun h => h)
    hdelivered
  rwa [← ht] at hkept'

theorem WaitsKept.poll (hs : WaitsKept past s) (h : s.poll id = some (output, t)) :
    OutputRight past output ∧ WaitsKept (past ++ [⟨s, .poll id, output, t⟩]) t := by
  obtain ⟨waiter, hwaiter, h⟩ := Option.bind_eq_some_iff.mp h
  obtain ⟨hkept, hfates⟩ := hs.table.waiter id waiter hwaiter
  split at h
  next hfresh =>
    have hnotOut : waiter.state ≠ .timedOut := fun hout => by
      have := hkept.timedOut hout
      simp [hfresh] at this
    split at h
    next hnotified =>
      cases h
      refine ⟨outputRight_result (.inl ⟨rfl, ?_⟩), ?_⟩
      · rw [hfates, SharedWaiter.fates_of_notified hnotified]
      · refine hs.setFuture hwaiter waiter.permit .ended (fun _ => rfl) (fun _ => rfl) rfl
          ⟨hkept.permit, by simp, by simp, ?_⟩ (by simp [hnotified]) (by simp) rfl
        simp [hnotified]
    next hnotified =>
      cases h
      refine ⟨outputRight_nothing, ?_⟩
      refine hs.setFuture hwaiter waiter.permit .awaiting (fun _ => rfl) (fun _ => rfl) rfl
        ⟨hkept.permit, by simp, fun hout => (hnotOut hout).elim, by simp⟩ (by simp [hfresh])
        (fun hstate => (hnotified hstate).elim) rfl
  next hawaiting =>
    split at h
    next hpermit =>
      cases h
      have hnotified := hkept.permit hpermit
      refine ⟨outputRight_result (.inl ⟨rfl, ?_⟩), ?_⟩
      · rw [hfates, SharedWaiter.fates_of_notified hnotified]
      · refine hs.setFuture hwaiter false .ended (fun _ => rfl) (fun _ => rfl) rfl
          ⟨by simp, by simp, by simp, ?_⟩ (by simp [hnotified]) (by simp) rfl
        simp [hnotified]
    next hpermit =>
      cases h
      exact ⟨outputRight_nothing, hs.same (quiet_append (fun _ => rfl) fun _ => rfl)
        notifyCall_append s.memory⟩
  · cases h

theorem SharedWaiter.fates_of_live (hstate : waiter.state = .waiting)
    (hfuture : waiter.future ≠ .dropped) : waiter.fates = [] := by
  rw [SharedWaiter.fates, hstate]
  exact if_neg hfuture

theorem WaitsKept.comeOut (hs : WaitsKept past s) (hwaiter : s.waiters id = some waiter)
    {input : WaitInput M} {fate : Fate} (waiter' : SharedWaiter)
    (haddress : waiter'.address = waiter.address) (hkept : WaiterKept waiter')
    (hregistered : ∀ offset, registeredAt offset ⟨s, input, .fate id fate, t⟩ = none)
    (hcall : nextCall (notifyCall past) ⟨s, input, .fate id fate, t⟩ = notifyCall past)
    (hlive : fates past id = []) (hfates : waiter'.fates = [fate])
    (hstate : waiter.state = .waiting) (hnotified : waiter'.state ≠ .notified)
    (ht : t = s.setWaiter id waiter') : WaitsKept (past ++ [⟨s, input, .fate id fate, t⟩]) t := by
  have hnone : ∀ offset, waitersAt (past ++ [⟨s, input, .fate id fate, t⟩]) offset =
      waitersAt past offset := by
    intro offset
    rw [waitersAt_append, hregistered]
    exact List.append_nil _
  have hothers : ∀ other ≠ id,
      fates (past ++ [⟨s, input, .fate id fate, t⟩]) other = fates past other :=
    fun other hne => fates_of_none (if_neg (Ne.symm hne))
  have hout : fates (past ++ [⟨s, input, .fate id fate, t⟩]) id = waiter'.fates := by
    simp [fates_append, hlive, hfates, WaitOutput.fateOf]
  have hkept' := hs.setWaiter hwaiter waiter' haddress hkept hnone hout hothers
    (fun other => live_of_append) (notifyCall_append.trans hcall)
    (fun h => by rw [hstate] at h; cases h) fun h => (hnotified h).elim
  rwa [← ht] at hkept'

theorem WaitsKept.timeout (hs : WaitsKept past s) (h : s.timeout id = some (output, t)) :
    OutputRight past output ∧ WaitsKept (past ++ [⟨s, .timeout id, output, t⟩]) t := by
  obtain ⟨waiter, hwaiter, h⟩ := Option.bind_eq_some_iff.mp h
  obtain ⟨hkept, hfates⟩ := hs.table.waiter id waiter hwaiter
  split at h
  next hcan =>
    have hawaiting := hcan.1
    split at h
    next hwaiting =>
      cases h
      have hlive : fates past id = [] := by
        rw [hfates, SharedWaiter.fates_of_live hwaiting (by simp [hawaiting])]
      refine ⟨outputRight_fate hlive (by simp), ?_⟩
      refine hs.comeOut hwaiter { waiter with state := .timedOut, future := .removing } rfl
        ⟨fun hpermit => ?_, by simp, by simp, by simp⟩ (fun _ => rfl) rfl hlive rfl hwaiting
        (by simp) rfl
      have hnotified := hkept.permit hpermit
      rw [hwaiting] at hnotified
      cases hnotified
    next hwaiting =>
      cases h
      have hnotified : waiter.state = .notified := by
        cases hstate : waiter.state with
        | waiting => exact (hwaiting hstate).elim
        | notified => rfl
        | timedOut =>
            have hover := hkept.timedOut hstate
            rw [hawaiting] at hover
            rcases hover with hover | hover <;> cases hover
      refine ⟨outputRight_result (.inl ⟨rfl, ?_⟩), ?_⟩
      · rw [hfates, SharedWaiter.fates_of_notified hnotified]
      · refine hs.setFuture hwaiter waiter.permit .ended (fun _ => rfl) (fun _ => rfl) rfl
          ⟨hkept.permit, by simp, by simp, ?_⟩ (by simp [hnotified]) (by simp) rfl
        simp [hnotified]
  · cases h

theorem WaitsKept.drop (hs : WaitsKept past s) (h : s.drop id = some (output, t)) :
    OutputRight past output ∧ WaitsKept (past ++ [⟨s, .drop id, output, t⟩]) t := by
  obtain ⟨waiter, hwaiter, h⟩ := Option.bind_eq_some_iff.mp h
  obtain ⟨hkept, hfates⟩ := hs.table.waiter id waiter hwaiter
  split at h
  next hopen =>
    have hnotOut : waiter.state ≠ .timedOut := fun hout => by
      have hover := hkept.timedOut hout
      rcases hopen with hopen | hopen <;> simp [hopen] at hover
    by_cases hwaiting : waiter.state = .waiting
    · simp only [hwaiting, if_true] at h
      cases h
      have hlive : fates past id = [] := by
        rw [hfates, SharedWaiter.fates_of_live hwaiting]
        rcases hopen with hopen | hopen <;> simp [hopen]
      refine ⟨outputRight_fate hlive (by simp), ?_⟩
      exact hs.comeOut hwaiter { waiter with future := .dropped } rfl
        ⟨hkept.permit, by simp, fun hout => (hnotOut hout).elim, by simp⟩ (fun _ => rfl) rfl hlive
        (by simp [SharedWaiter.fates, hwaiting]) hwaiting (by simp [hwaiting])
        (by simp [hwaiting])
    · simp only [hwaiting, if_false] at h
      cases h
      refine ⟨outputRight_nothing, ?_⟩
      exact hs.setFuture hwaiter waiter.permit .dropped (fun _ => rfl) (fun _ => rfl) rfl
        ⟨hkept.permit, by simp, fun hout => (hnotOut hout).elim, by simp⟩
        (fun hstate => (hwaiting hstate).elim) (by simp) rfl
  · cases h

theorem WaitsKept.removeWaiter (hs : WaitsKept past s) (h : s.removeWaiter id = some (output, t)) :
    OutputRight past output ∧ WaitsKept (past ++ [⟨s, .removeWaiter id, output, t⟩]) t := by
  obtain ⟨waiter, hwaiter, h⟩ := Option.bind_eq_some_iff.mp h
  obtain ⟨hkept, hfates⟩ := hs.table.waiter id waiter hwaiter
  split at h
  next hcan =>
    obtain ⟨hidle, hremoving⟩ := hcan
    have hidle : s.notifying = none := by simpa using hidle
    have hout := hkept.removing hremoving
    have hqueued : ∀ offset, s.queued offset = s.waitQueues offset := by
      intro offset
      simp [SharedMemory.queued, hidle]
    cases h
    refine ⟨outputRight_result (.inr ⟨rfl, ?_⟩), ?_⟩
    · rw [hfates, SharedWaiter.fates, hout]
    generalize ht : s.setQueue waiter.address ((s.waitQueues waiter.address).erase id) = u
    have huqueued : ∀ offset, u.queued offset =
        if offset = waiter.address then (s.waitQueues waiter.address).erase id
        else s.waitQueues offset := by
      intro offset
      simp [← ht, SharedMemory.queued, SharedMemory.setQueue, hidle, Function.update_apply]
    have hdead : live past id = false := hs.not_live hwaiter (by simp [hout])
    have hu : WaitsKept past u := by
      refine ⟨hs.table.same ⟨fun _ => rfl, fun _ => rfl⟩ (by rw [← ht]; rfl) (by rw [← ht]; rfl),
        fun offset => ?_, ?_⟩
      · refine (hs.queues offset).next rfl (fun _ h => h) ?_
        rw [huqueued, hqueued]
        split
        next heq =>
          subst heq
          by_cases hmem : id ∈ s.waitQueues waiter.address
          · obtain ⟨front, rest, -, hqueue, herase⟩ := List.exists_erase_eq hmem
            exact .inr ⟨front, id, rest, hqueue, herase, hdead⟩
          · exact .inl (List.erase_of_not_mem hmem)
        · exact .inl rfl
      · refine hs.call.same rfl (by rw [← ht]; rfl) (by rw [← ht]; rfl) (by rw [← ht]; rfl) ?_
        intro offset hempty
        rw [hqueued] at hempty
        rw [huqueued]
        split
        next heq => simp [← heq, hempty]
        · exact hempty
    have hquiet : Quiet past (past ++ [⟨s, .removeWaiter id, .result id 2,
        u.setWaiter id { waiter with future := .ended }⟩]) :=
      quiet_append (fun _ => rfl) fun _ => rfl
    have hwaiter' : u.waiters id = some waiter := by
      rw [← ht]
      exact hwaiter
    refine hu.setWaiter hwaiter' { waiter with future := .ended } rfl
      ⟨hkept.permit, by simp, by simp, by simp [hout]⟩ hquiet.waitersAt ?_
      (fun other _ => hquiet.fates other) (fun other => live_of_append) notifyCall_append
      (fun h => h) (by simp)
    rw [hquiet.fates, hfates]
    simp [SharedWaiter.fates, hout]
  · cases h

end futures

/-! ## Runs -/

section runs

variable {past : List (WaitMoment M)} {s t : SharedMemory M} {output : WaitOutput}

theorem WaitsKept.notify (hs : WaitsKept past s) (h : s.notify = some (output, t))
    (hfits : ¬ComesToAbandoned s) :
    OutputRight past output ∧ WaitsKept (past ++ [⟨s, .notify, output, t⟩]) t := by
  obtain ⟨notification, hnotifying, hcase⟩ := notify_cases h
  have hcall := hs.call.call
  rw [hnotifying] at hcall
  have horder := (hs.queues notification.offset).order
  rcases hcase with ⟨id, rest, waiter, hkept, hremaining, hqueue, hwaiter, hcase⟩ |
    ⟨hkept, hdone, rfl, ht⟩ | ⟨kept, id, rest, waiter, hkept, hqueue, hwaiter, rfl, ht⟩ |
    ⟨kept, hkept, hqueue, rfl, ht⟩
  · rcases hcase with ⟨hstate, rfl, ht⟩ | ⟨hstate, rfl, rfl⟩
    · have hdropped : waiter.future ≠ .dropped := fun hdropped =>
        hfits ⟨notification, id, rest, waiter, hnotifying, hkept, hremaining, hqueue, hwaiter,
          hstate, hdropped⟩
      obtain ⟨hlive, hkept'⟩ :=
        hs.wake hnotifying hkept hremaining hqueue hwaiter hstate hdropped ht
      refine ⟨⟨fun other fate heq => ?_, by simp, fun other heq => ?_, by simp⟩, hkept'⟩
      · obtain ⟨rfl, -⟩ := WaitOutput.fate.inj heq
        exact live_iff.mp hlive
      · obtain ⟨rfl, -⟩ := WaitOutput.fate.inj heq
        refine ⟨_, hcall, ?_, ?_⟩
        · show notification.wake.length < notification.remaining + notification.wake.length
          omega
        · rw [queued_of_waking hnotifying hkept, hqueue] at horder
          rw [← List.head?_filter, ← horder]
          simp [hlive]
    · exact ⟨outputRight_nothing, hs.passOver hnotifying hkept hqueue hwaiter hstate⟩
  · exact ⟨outputRight_nothing, hs.beginRetain hnotifying hkept hdone ht⟩
  · exact ⟨outputRight_nothing, hs.retain hnotifying hkept hqueue hwaiter ht⟩
  · refine ⟨⟨by simp, by simp, by simp, fun woken heq => ?_⟩,
      hs.unlock hnotifying hkept hqueue ht⟩
    obtain rfl := WaitOutput.counted.inj heq
    refine ⟨_, hcall, rfl, Nat.le_add_left _ _, fun hlt => ?_⟩
    have hremaining : notification.remaining ≠ 0 := by
      have hlt : notification.wake.length < notification.remaining + notification.wake.length := hlt
      omega
    rw [hs.call.kept notification kept hnotifying hkept hremaining] at horder
    rw [← List.head?_filter, ← horder]
    rfl

theorem WaitsKept.notify_abandoned (hs : WaitsKept past s) (h : s.notify = some (output, t))
    (habandoned : ComesToAbandoned s) : ∃ id, output = .fate id .woken ∧ fates past id ≠ [] := by
  obtain ⟨notification, id, rest, waiter, hnotifying, hkept, hremaining, hqueue, hwaiter, hstate,
    hdropped⟩ := habandoned
  have hfates := (hs.table.waiter id waiter hwaiter).2
  rw [SharedWaiter.fates, hstate] at hfates
  simp only [hdropped, if_true] at hfates
  refine ⟨id, ?_, by simp [hfates]⟩
  obtain ⟨remaining, heq⟩ := Nat.exists_eq_succ_of_ne_zero hremaining
  simp [SharedMemory.notify, hnotifying, hkept, heq, hqueue, hwaiter, hstate] at h
  exact h.1.symm

theorem WaitsKept.registerWait (hs : WaitsKept past s) {w : Nat} {load : Option (BitVec w)}
    {offset bytes : Nat} {expected : BitVec w} {timeoutNs : Int} {input : WaitInput M}
    (hregistered : ∀ (id : Nat) (u : SharedMemory M) (other : Nat),
      registeredAt other ⟨s, input, .registered id, u⟩ = if offset = other then some id else none)
    (hnone : ∀ (output : WaitOutput) (u : SharedMemory M) (other : Nat),
      (∀ id, output ≠ .registered id) → registeredAt other ⟨s, input, output, u⟩ = none)
    (hcall : ∀ (output : WaitOutput) (u : SharedMemory M),
      (∀ id fate, output ≠ .fate id fate) → (∀ woken, output ≠ .counted woken) →
        nextCall (notifyCall past) ⟨s, input, output, u⟩ = notifyCall past)
    (h : s.registerWait load offset bytes expected timeoutNs = some (output, t)) :
    OutputRight past output ∧ WaitsKept (past ++ [⟨s, input, output, t⟩]) t := by
  rw [SharedMemory.registerWait.eq_def] at h
  split at h
  · cases h
  next hidle =>
    have hidle : s.notifying = none := by simpa using hidle
    have hrefused : ∀ output, output = .trapped ∨ output = .notEqual →
        OutputRight past output ∧ WaitsKept (past ++ [⟨s, input, output, s⟩]) s := by
      rintro output (rfl | rfl)
      all_goals
        refine ⟨by constructor <;> simp, hs.same ?_ ?_ s.memory⟩
      · exact quiet_append (fun other => hnone _ _ _ (by simp)) fun _ => rfl
      · rw [notifyCall_append, hcall _ _ (by simp) (by simp)]
      · exact quiet_append (fun other => hnone _ _ _ (by simp)) fun _ => rfl
      · rw [notifyCall_append, hcall _ _ (by simp) (by simp)]
    split at h
    · cases h
      exact hrefused _ (.inl rfl)
    · split at h
      · cases h
        exact hrefused _ (.inl rfl)
      · split at h
        · cases h
          exact hrefused _ (.inr rfl)
        · cases h
          refine ⟨by constructor <;> simp, hs.register hidle (hregistered _ _) (fun _ => rfl) ?_⟩
          rw [notifyCall_append, hcall _ _ (by simp) (by simp)]

variable {load32 : M → Nat → Option (BitVec 32)} {load64 : M → Nat → Option (BitVec 64)}

theorem WaitsKept.step {input : WaitInput M} (hs : WaitsKept past s)
    (h : waitStep load32 load64 s input = some (output, t))
    (hfits : input = .notify → ¬ComesToAbandoned s) :
    OutputRight past output ∧ WaitsKept (past ++ [⟨s, input, output, t⟩]) t := by
  cases input with
  | write memory =>
      simp only [waitStep] at h
      split at h
      · cases h
      · cases h
        exact ⟨outputRight_nothing, hs.same (quiet_append (fun _ => rfl) fun _ => rfl)
          notifyCall_append memory⟩
  | registerWait32 offset expected timeoutNs =>
      refine hs.registerWait (fun _ _ _ => rfl) (fun output u other hne => ?_)
        (fun output u hfate hcounted => ?_) h
      · cases output <;> first | rfl | exact absurd rfl (hne _)
      · cases output <;> first | rfl | exact absurd rfl (hfate _ _) | exact absurd rfl (hcounted _)
  | registerWait64 offset expected timeoutNs =>
      refine hs.registerWait (fun _ _ _ => rfl) (fun output u other hne => ?_)
        (fun output u hfate hcounted => ?_) h
      · cases output <;> first | rfl | exact absurd rfl (hne _)
      · cases output <;> first | rfl | exact absurd rfl (hfate _ _) | exact absurd rfl (hcounted _)
  | notifyWaiters offset count =>
      simp only [waitStep, SharedMemory.notifyWaiters] at h
      split at h
      · cases h
      next hidle =>
        have hidle : s.notifying = none := by simpa using hidle
        split at h
        · cases h
          exact ⟨by constructor <;> simp, hs.same (quiet_append (fun _ => rfl) fun _ => rfl)
            notifyCall_append s.memory⟩
        · cases h
          exact ⟨outputRight_nothing, hs.notifyWaiters hidle rfl⟩
  | notify => exact hs.notify h (hfits rfl)
  | notifyOne =>
      obtain ⟨rfl, hkept⟩ := hs.notifyOne h
      exact ⟨outputRight_nothing, hkept⟩
  | poll id => exact hs.poll h
  | timeout id => exact hs.timeout h
  | removeWaiter id => exact hs.removeWaiter h
  | drop id => exact hs.drop h

theorem waitsKept_new (memory : M) : WaitsKept [] (SharedMemory.new memory) := by
  refine ⟨⟨?_, ?_, ?_⟩, fun offset => ⟨?_, ?_⟩, ⟨?_, ?_, ?_, ?_⟩⟩
  all_goals
    simp [SharedMemory.new, fates, waitersAt, notifyCall, SharedMemory.queued,
      SharedMemory.toNotify]

theorem WaitsKept.accounting {now : WaitMoment M} (hright : OutputRight past now.output)
    (hkept : WaitsKept (past ++ [now]) now.after) : WaitAccounting past now := by
  refine ⟨hright.once, fun id waiter hwaiter hover => ?_, hright.result, hright.woken,
    hright.counted, hkept.call.delivered⟩
  obtain ⟨hwaiterKept, hfates⟩ := hkept.table.waiter id waiter hwaiter
  rw [hfates, SharedWaiter.fates]
  cases hstate : waiter.state with
  | notified => exact ⟨_, rfl⟩
  | timedOut => exact ⟨_, rfl⟩
  | waiting =>
      rcases hover with hended | hdropped
      · exact (hwaiterKept.ended hended hstate).elim
      · exact ⟨.abandoned, if_pos hdropped⟩

/-- Waits are accounted for in a run exactly when no notification comes to one that was dropped
while it waited. -/
theorem waits_accounted_iff {memory : M} {inputs : List (WaitInput M)} {run : List (WaitMoment M)}
    (hrun : Lib.moments (waitStep load32 load64) (SharedMemory.new memory) inputs = some run) :
    Lib.EachMoment WaitAccounting run ↔
      ∀ now ∈ run, now.input = .notify → ¬ComesToAbandoned now.before := by
  refine Lib.eachMoment_iff WaitsKept (fun past s input output t hs hstep => ⟨⟨?_, ?_⟩, ?_⟩)
    (waitsKept_new memory) hrun
  · rintro haccounted hnotify habandoned
    obtain rfl : input = .notify := hnotify
    obtain ⟨id, rfl, hfates⟩ := hs.notify_abandoned hstep habandoned
    exact hfates (haccounted.once id .woken rfl)
  · intro hgood
    obtain ⟨hright, hkept⟩ := hs.step hstep hgood
    exact hkept.accounting hright
  · intro hgood
    exact (hs.step hstep hgood).2

end runs

private def anyLoad {w : Nat} (_ : Unit) (_ : Nat) : Option (BitVec w) := some 0

/-- The first wait times out before the notification comes to it, so the second one is woken. -/
private def timedOutFirst : List (WaitInput Unit) :=
  [.registerWait32 0 0 5, .registerWait32 0 0 (-1), .poll 0, .timeout 0, .notifyWaiters 0 1,
    .notify, .notify, .notify, .notify, .removeWaiter 0, .poll 1, .notifyOne]

theorem waits_accounted_timed_out :
    ∃ run, Lib.moments (waitStep anyLoad anyLoad) (SharedMemory.new ()) timedOutFirst = some run ∧
      Lib.EachMoment WaitAccounting run := by
  refine ⟨_, rfl,
    (@waits_accounted_iff Unit anyLoad anyLoad () timedOutFirst _ rfl).mpr ?_⟩
  intro now hmem
  simp only [List.mem_cons, List.not_mem_nil, or_false] at hmem
  rcases hmem with rfl | rfl | rfl | rfl | rfl | rfl | rfl | rfl | rfl | rfl | rfl | rfl
  all_goals
    intro hnotify
    cases hnotify
  all_goals
    rintro ⟨notification, id, rest, waiter, hnotifying, hkept, hremaining, hqueue, hwaiter, -,
      hdropped⟩
    cases hnotifying
    cases hqueue
  all_goals
    cases hwaiter
    cases hdropped

private def droppedFirst : List (WaitInput Unit) :=
  [.registerWait32 0 0 (-1), .registerWait32 0 0 (-1), .drop 0, .notifyWaiters 0 1, .notify]

theorem wake_spent_on_dropped :
    ∃ run, Lib.moments (waitStep anyLoad anyLoad) (SharedMemory.new ()) droppedFirst = some run ∧
      ¬Lib.EachMoment WaitAccounting run := by
  refine ⟨_, rfl, fun haccounted => ?_⟩
  have hlast := (haccounted [_, _, _, _] _ [] rfl).once 0 .woken rfl
  cases hlast

end Telomere.Shared
