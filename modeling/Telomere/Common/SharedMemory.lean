import Telomere.Lib.Trace
import Mathlib.Logic.Function.Basic

/-!
# Waiters of a shared memory

A wait is registered in the queue of its address and becomes a future; `notify_waiters` takes waiters
out of the queue and marks them, a timer marks its waiter, and each mark is one compare-exchange. The
steps are those between which another thread can come: a notification holds the lock, the timers and
the futures do not. The memory is a parameter with its two loads.
-/

namespace Telomere.Shared

inductive WaitState where
  | waiting
  | notified
  | timedOut
deriving DecidableEq, Repr

/-- How far `wait_result` is: not polled yet, waiting for its wake or its timer, past a timeout that
it has yet to take out of the queue, at its end, or dropped before its end. -/
inductive WaitFuture where
  | fresh
  | awaiting
  | removing
  | ended
  | dropped
deriving DecidableEq, Repr

/-- `permit` is what `notify_one` leaves for `notified`. -/
structure SharedWaiter where
  address : Nat
  timeoutNs : Int
  state : WaitState
  permit : Bool
  future : WaitFuture
deriving DecidableEq, Repr

/-- A call of `notify_waiters` that holds the lock. `kept` is what `retain` has kept so far. -/
structure Notification where
  offset : Nat
  remaining : Nat
  wake : List Nat
  kept : Option (List Nat)
deriving DecidableEq, Repr

/-- The waiters are held by their ids; `notifyOnes` are the calls of `notify_one` to come. The
ids are a `u64` in the source, counted up by one; here they have no bound. -/
structure SharedMemory (M : Type) where
  memory : M
  waitQueues : Nat → List Nat
  nextWaiterId : Nat
  waiters : Nat → Option SharedWaiter
  notifying : Option Notification
  notifyOnes : List Nat

/-- How a registered wait can come out. -/
inductive Fate where
  | woken
  | timedOut
  | abandoned
deriving DecidableEq, Repr

inductive WaitOutput where
  | nothing
  | trapped
  | notEqual
  | registered (id : Nat)
  | fate (id : Nat) (fate : Fate)
  | counted (woken : Nat)
  | result (id : Nat) (value : Nat)
deriving DecidableEq, Repr

inductive WaitInput (M : Type) where
  | write (memory : M)
  | registerWait32 (offset : Nat) (expected : BitVec 32) (timeoutNs : Int)
  | registerWait64 (offset : Nat) (expected : BitVec 64) (timeoutNs : Int)
  | notifyWaiters (offset count : Nat)
  | notify
  | notifyOne
  | poll (id : Nat)
  | timeout (id : Nat)
  | removeWaiter (id : Nat)
  | drop (id : Nat)

namespace SharedMemory

variable {M : Type}

def new (memory : M) : SharedMemory M :=
  ⟨memory, fun _ => [], 0, fun _ => none, none, []⟩

def setQueue (s : SharedMemory M) (offset : Nat) (queue : List Nat) : SharedMemory M :=
  { s with waitQueues := Function.update s.waitQueues offset queue }

def setWaiter (s : SharedMemory M) (id : Nat) (waiter : SharedWaiter) : SharedMemory M :=
  { s with waiters := Function.update s.waiters id (some waiter) }

def register (s : SharedMemory M) (offset : Nat) (timeoutNs : Int) : SharedMemory M :=
  let id := s.nextWaiterId
  { (s.setWaiter id ⟨offset, timeoutNs, .waiting, false, .fresh⟩).setQueue offset
      (s.waitQueues offset ++ [id]) with
    nextWaiterId := s.nextWaiterId + 1 }

/-- `register_wait32` and `register_wait64`, after their load. -/
def registerWait {w : Nat} (s : SharedMemory M) (load : Option (BitVec w)) (offset bytes : Nat)
    (expected : BitVec w) (timeoutNs : Int) : Option (WaitOutput × SharedMemory M) :=
  if s.notifying.isSome then none
  else if offset % bytes ≠ 0 then some (.trapped, s)
  else
    match load with
    | none => some (.trapped, s)
    | some current =>
        if current ≠ expected then some (.notEqual, s)
        else some (.registered s.nextWaiterId, s.register offset timeoutNs)

def notifyWaiters (s : SharedMemory M) (load : Option (BitVec 32)) (offset count : Nat) :
    Option (WaitOutput × SharedMemory M) :=
  if s.notifying.isSome then none
  else
    match load with
    | none => some (.trapped, s)
    | some _ => some (.nothing, { s with notifying := some ⟨offset, count, [], none⟩ })

/-- One step of the notification that holds the lock: the next waiter is taken from the queue, then
`retain` looks at what is left, then the lock is released. -/
def notify (s : SharedMemory M) : Option (WaitOutput × SharedMemory M) := do
  let notification ← s.notifying
  match notification.kept with
  | none =>
      match notification.remaining, s.waitQueues notification.offset with
      | remaining + 1, id :: rest => do
          let waiter ← s.waiters id
          let s := s.setQueue notification.offset rest
          if waiter.state = .waiting then
            some (.fate id .woken, { s.setWaiter id { waiter with state := .notified } with
              notifying := some { notification with
                remaining := remaining
                wake := notification.wake ++ [id] } })
          else some (.nothing, s)
      | _, _ => some (.nothing, { s with notifying := some { notification with kept := some [] } })
  | some kept =>
      match s.waitQueues notification.offset with
      | id :: rest => do
          let waiter ← s.waiters id
          some (.nothing, { s.setQueue notification.offset rest with
            notifying := some { notification with
              kept := some (if waiter.state = .waiting then kept ++ [id] else kept) } })
      | [] =>
          some (.counted notification.wake.length,
            { s.setQueue notification.offset kept with
              notifying := none
              notifyOnes := s.notifyOnes ++ notification.wake })

def notifyOne (s : SharedMemory M) : Option (WaitOutput × SharedMemory M) :=
  match s.notifyOnes with
  | [] => none
  | id :: rest => do
      let waiter ← s.waiters id
      some (.nothing, { s.setWaiter id { waiter with permit := true } with notifyOnes := rest })

/-- The future of `wait` is polled: it looks at the state first, later only at the permit. -/
def poll (s : SharedMemory M) (id : Nat) : Option (WaitOutput × SharedMemory M) := do
  let waiter ← s.waiters id
  match waiter.future with
  | .fresh =>
      if waiter.state = .notified then
        some (.result id 0, s.setWaiter id { waiter with future := .ended })
      else some (.nothing, s.setWaiter id { waiter with future := .awaiting })
  | .awaiting =>
      if waiter.permit then
        some (.result id 0, s.setWaiter id { waiter with permit := false, future := .ended })
      else some (.nothing, s)
  | _ => none

/-- The timer is there if the timeout is not negative, and can come at any time. -/
def timeout (s : SharedMemory M) (id : Nat) : Option (WaitOutput × SharedMemory M) := do
  let waiter ← s.waiters id
  if waiter.future = .awaiting ∧ 0 ≤ waiter.timeoutNs then
    if waiter.state = .waiting then
      some (.fate id .timedOut, s.setWaiter id { waiter with state := .timedOut, future := .removing })
    else some (.result id 0, s.setWaiter id { waiter with future := .ended })
  else none

/-- Each id is in a queue once at most: `erase` takes out what `position` finds. -/
def removeWaiter (s : SharedMemory M) (id : Nat) : Option (WaitOutput × SharedMemory M) := do
  let waiter ← s.waiters id
  if s.notifying.isNone ∧ waiter.future = .removing then
    some (.result id 2, (s.setQueue waiter.address ((s.waitQueues waiter.address).erase id)).setWaiter
      id { waiter with future := .ended })
  else none

/-- A future that is dropped does nothing; the waiter stays where it is. -/
def drop (s : SharedMemory M) (id : Nat) : Option (WaitOutput × SharedMemory M) := do
  let waiter ← s.waiters id
  if waiter.future = .fresh ∨ waiter.future = .awaiting then
    some (if waiter.state = .waiting then .fate id .abandoned else .nothing,
      s.setWaiter id { waiter with future := .dropped })
  else none

end SharedMemory

section

variable {M : Type} (load32 : M → Nat → Option (BitVec 32)) (load64 : M → Nat → Option (BitVec 64))

def waitStep (s : SharedMemory M) : WaitInput M → Option (WaitOutput × SharedMemory M)
  | .write memory => if s.notifying.isSome then none else some (.nothing, { s with memory := memory })
  | .registerWait32 offset expected timeoutNs =>
      s.registerWait (load32 s.memory offset) offset 4 expected timeoutNs
  | .registerWait64 offset expected timeoutNs =>
      s.registerWait (load64 s.memory offset) offset 8 expected timeoutNs
  | .notifyWaiters offset count => s.notifyWaiters (load32 s.memory offset) offset count
  | .notify => s.notify
  | .notifyOne => s.notifyOne
  | .poll id => s.poll id
  | .timeout id => s.timeout id
  | .removeWaiter id => s.removeWaiter id
  | .drop id => s.drop id

end

abbrev WaitMoment (M : Type) := Lib.Moment (SharedMemory M) (WaitInput M) WaitOutput

end Telomere.Shared
