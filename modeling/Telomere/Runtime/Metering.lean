import Mathlib.Algebra.Ring.Nat
import Mathlib.Data.Option.Basic

/-!
# Fuel

A store with metering has a ledger of fuel. An execution context reserves fuel from it in chunks and
spends its reservation without looking at the ledger; what it spent is booked when it reserves the
next chunk or ends. Sums saturate at 64 bits, and a difference that would be negative is no step.
-/

namespace Telomere.Runtime

def checkpointChunk : Nat := 4096

def u64Max : Nat := 2 ^ 64 - 1

def saturatingAdd (a b : Nat) : Nat := min (a + b) u64Max

/-- A subtraction of the source that must not go below zero. -/
def subtract (a b : Nat) : Option Nat := if b ≤ a then some (a - b) else none

inductive InterruptReason where
  | fuelExhausted
  | cancelled
deriving DecidableEq, Repr

/-- The ledger (`limit`, `consumed`, `epoch`), the flag beside it, and the counters that the one
execution context owns (`budget`, `reserved`, `budgetEpoch`). -/
structure Metered where
  limit : Option Nat
  consumed : Nat
  epoch : Nat
  interrupted : Bool
  budget : Nat
  reserved : Nat
  budgetEpoch : Nat
deriving DecidableEq, Repr

structure MeteringGrant where
  reserved : Nat
  budget : Nat
  epoch : Nat
deriving DecidableEq, Repr

namespace Metered

def finiteLimit (fuel : Option Nat) : Option Nat := fuel.filter (· ≠ u64Max)

def new (initialFuel : Option Nat) : Metered := ⟨finiteLimit initialFuel, 0, 0, false, 0, 0, 0⟩

def setFuel (s : Metered) (fuel : Nat) : Metered :=
  { s with limit := finiteLimit (some fuel), epoch := (s.epoch + 1) % 2 ^ 64 }

def take (s : Metered) : Nat :=
  match s.limit with
  | none => checkpointChunk
  | some limit => min limit checkpointChunk

def pay (s : Metered) (amount : Nat) : Option Metered :=
  match s.limit with
  | none => some s
  | some limit => do return { s with limit := some (← subtract limit amount) }

def grant (s : Metered) (completedReserved : Nat) :
    Option (Except InterruptReason MeteringGrant × Metered) :=
  let s := { s with consumed := saturatingAdd s.consumed completedReserved }
  if s.take = 0 then some (.error .fuelExhausted, s)
  else if s.interrupted then some (.error .cancelled, s)
  else do
    let paid ← s.pay s.take
    return (.ok ⟨s.take, ← subtract s.take 1, s.epoch⟩, paid)

def refillCheckpointBudget (s : Metered) : Option (Except InterruptReason Unit × Metered) := do
  let (outcome, s) ← grant { s with budget := 0, reserved := 0 } s.reserved
  match outcome with
  | .error reason => return (.error reason, s)
  | .ok grant =>
      return (.ok (), { s with
        reserved := grant.reserved, budget := grant.budget, budgetEpoch := grant.epoch })

/-- `MeteringHandle::charge_n`. -/
def chargeSlow (s : Metered) (amount : Nat) : Option (Except InterruptReason Unit × Metered) := do
  let additional ← subtract amount s.budget
  if s.limit.any (· < additional) then
    return (.error .fuelExhausted, { s with
      consumed := saturatingAdd (saturatingAdd s.consumed s.reserved) (s.limit.getD 0)
      limit := some 0, budget := 0, reserved := 0, budgetEpoch := s.epoch })
  else if s.interrupted then return (.error .cancelled, s)
  else
    let s ← pay { s with
      consumed := saturatingAdd (saturatingAdd s.consumed s.reserved) additional } additional
    let paid ← s.pay s.take
    return (.ok (), { paid with reserved := s.take, budget := s.take, budgetEpoch := s.epoch })

/-- What checkpoints and charges have in common while the budget lasts. -/
def spend (s : Metered) (amount : Nat) : Except InterruptReason Unit × Metered :=
  if s.reserved = 0 then (.ok (), { s with budget := s.budget - amount })
  else if s.interrupted then (.error .cancelled, s)
  else (.ok (), { s with budget := s.budget - amount })

def checkpoint (s : Metered) : Option (Except InterruptReason Unit × Metered) :=
  if 1 ≤ s.budget then some (s.spend 1) else s.refillCheckpointBudget

def chargeN (s : Metered) (amount : Nat) : Option (Except InterruptReason Unit × Metered) :=
  if amount = 0 then some (.ok (), s)
  else if amount ≤ s.budget then some (s.spend amount)
  else s.chargeSlow amount

/-- The context ends: what was not spent goes back into the ledger it came from. -/
def release (s : Metered) : Metered :=
  { s with
    consumed := saturatingAdd s.consumed (s.reserved - s.budget)
    limit := if s.budgetEpoch = s.epoch then s.limit.map (saturatingAdd · s.budget) else s.limit
    reserved := 0, budget := 0 }

end Metered

/-- What happens while a context runs; interrupts come from outside. -/
inductive MeterCall where
  | checkpoint
  | chargeN (amount : Nat)
  | interrupt
  | resetInterrupt
deriving DecidableEq, Repr

def meterStep (s : Metered) : MeterCall → Option (Except InterruptReason Unit × Metered)
  | .checkpoint => s.checkpoint
  | .chargeN amount => s.chargeN amount
  | .interrupt => some (.ok (), { s with interrupted := true })
  | .resetInterrupt => some (.ok (), { s with interrupted := false })

def MeterCall.units : MeterCall → Except InterruptReason Unit → Nat
  | .checkpoint, .ok _ => 1
  | .chargeN amount, .ok _ => amount
  | _, _ => 0

/-- What a refused charge takes away: all that was left in the ledger and in the reservation. -/
def MeterCall.lost (s : Metered) : MeterCall → Except InterruptReason Unit → Nat
  | .chargeN _, .error .fuelExhausted => s.limit.getD 0 + s.budget
  | _, _ => 0

/-- The calls one after the other, and the sum of what each counts for. -/
def meterRun (weigh : Metered → MeterCall → Except InterruptReason Unit → Nat) (s : Metered) :
    List MeterCall → Option (Nat × Metered)
  | [] => some (0, s)
  | call :: calls => do
      let (outcome, t) ← meterStep s call
      let (sum, u) ← meterRun weigh t calls
      return (weigh s call outcome + sum, u)

theorem meterRun_cons {weigh : Metered → MeterCall → Except InterruptReason Unit → Nat}
    {s t u : Metered} {call : MeterCall} {calls : List MeterCall}
    {outcome : Except InterruptReason Unit} {sum : Nat}
    (hstep : meterStep s call = some (outcome, t)) (hrun : meterRun weigh t calls = some (sum, u)) :
    meterRun weigh s (call :: calls) = some (weigh s call outcome + sum, u) := by
  simp [meterRun, hstep, hrun]

theorem meterRun_cons_eq_some {weigh : Metered → MeterCall → Except InterruptReason Unit → Nat}
    {s u : Metered} {call : MeterCall} {calls : List MeterCall} {sum : Nat}
    (h : meterRun weigh s (call :: calls) = some (sum, u)) :
    ∃ outcome t rest, meterStep s call = some (outcome, t) ∧
      meterRun weigh t calls = some (rest, u) ∧ sum = weigh s call outcome + rest := by
  rw [meterRun] at h
  obtain ⟨⟨outcome, t⟩, hstep, h⟩ := Option.bind_eq_some_iff.mp h
  obtain ⟨⟨rest, u'⟩, hrest, h⟩ := Option.bind_eq_some_iff.mp h
  obtain ⟨rfl, rfl⟩ := Prod.mk.inj (Option.some.inj h)
  exact ⟨outcome, t, rest, hstep, hrest, rfl⟩

/-- The effects of a call while the limit is finite. -/
inductive MeterMove (L : Nat) (s : Metered) :
    MeterCall → Except InterruptReason Unit → Metered → Prop
  | still {call : MeterCall} {outcome : Except InterruptReason Unit} (interrupted : Bool)
      (hunits : call.units outcome = 0) (hlost : call.lost s outcome = 0) :
      MeterMove L s call outcome { s with interrupted }
  | spend {call : MeterCall} {outcome : Except InterruptReason Unit} (amount : Nat)
      (hunits : call.units outcome = amount) (hlost : call.lost s outcome = 0)
      (hamount : amount ≤ s.budget) :
      MeterMove L s call outcome { s with budget := s.budget - amount }
  | closed (reason : InterruptReason) (hbudget : s.budget = 0) :
      MeterMove L s .checkpoint (.error reason)
        { s with consumed := saturatingAdd s.consumed s.reserved, budget := 0, reserved := 0 }
  | refilled (hbudget : s.budget = 0) (hlimit : 0 < L) :
      MeterMove L s .checkpoint (.ok ())
        { s with
          consumed := saturatingAdd s.consumed s.reserved
          limit := some (L - min L checkpointChunk)
          reserved := min L checkpointChunk
          budget := min L checkpointChunk - 1
          budgetEpoch := s.epoch }
  | exhausted (amount : Nat) (hamount : L < amount - s.budget) :
      MeterMove L s (.chargeN amount) (.error .fuelExhausted)
        { s with
          consumed := saturatingAdd (saturatingAdd s.consumed s.reserved) L
          limit := some 0, budget := 0, reserved := 0, budgetEpoch := s.epoch }
  | charged (amount : Nat) (hbudget : s.budget < amount) (hamount : amount - s.budget ≤ L) :
      MeterMove L s (.chargeN amount) (.ok ())
        { s with
          consumed := saturatingAdd (saturatingAdd s.consumed s.reserved) (amount - s.budget)
          limit := some (L - (amount - s.budget) - min (L - (amount - s.budget)) checkpointChunk)
          reserved := min (L - (amount - s.budget)) checkpointChunk
          budget := min (L - (amount - s.budget)) checkpointChunk
          budgetEpoch := s.epoch }

section moves

variable {s : Metered} {L : Nat}

theorem subtract_of_le {a b : Nat} (h : b ≤ a) : subtract a b = some (a - b) := by
  unfold subtract
  rw [if_pos h]

theorem spend_move {call : MeterCall} {amount : Nat} (hunits : call.units (.ok ()) = amount)
    (hcancelled : call.units (.error .cancelled) = 0) (hlost : call.lost s (.ok ()) = 0)
    (hnone : call.lost s (.error .cancelled) = 0) (hamount : amount ≤ s.budget) :
    MeterMove L s call (s.spend amount).1 (s.spend amount).2 := by
  unfold Metered.spend
  split
  · exact .spend amount hunits hlost hamount
  · split
    · exact .still s.interrupted hcancelled hnone
    · exact .spend amount hunits hlost hamount

theorem refill_move (hlimit : s.limit = some L) (hbudget : s.budget = 0) :
    ∃ outcome t, s.refillCheckpointBudget = some (outcome, t) ∧
      MeterMove L s .checkpoint outcome t := by
  by_cases hzero : min L checkpointChunk = 0
  · refine ⟨_, _, ?_, .closed .fuelExhausted hbudget⟩
    simp [Metered.refillCheckpointBudget, Metered.grant, Metered.take, hlimit, hzero]
  · by_cases hinterrupted : s.interrupted
    · refine ⟨_, _, ?_, .closed .cancelled hbudget⟩
      simp [Metered.refillCheckpointBudget, Metered.grant, Metered.take, hlimit, hzero, hinterrupted]
    · have hpos : 0 < L := by
        by_contra h
        simp [Nat.eq_zero_of_not_pos h] at hzero
      have hpay := subtract_of_le (Nat.min_le_left L checkpointChunk)
      have hone : subtract (min L checkpointChunk) 1 = some (min L checkpointChunk - 1) :=
        subtract_of_le (Nat.one_le_iff_ne_zero.mpr hzero)
      refine ⟨_, _, ?_, .refilled hbudget hpos⟩
      simp [Metered.refillCheckpointBudget, Metered.grant, Metered.take, Metered.pay, hlimit, hzero,
        hinterrupted, hpay, hone]

theorem chargeSlow_move {amount : Nat} (hlimit : s.limit = some L) (hbudget : s.budget < amount) :
    ∃ outcome t, s.chargeSlow amount = some (outcome, t) ∧
      MeterMove L s (.chargeN amount) outcome t := by
  have hadditional := subtract_of_le (Nat.le_of_lt hbudget)
  by_cases hamount : L < amount - s.budget
  · refine ⟨_, _, ?_, .exhausted amount hamount⟩
    simp [Metered.chargeSlow, hadditional, hlimit, hamount]
  · by_cases hinterrupted : s.interrupted
    · refine ⟨.error .cancelled, s, ?_, .still s.interrupted rfl rfl⟩
      simp [Metered.chargeSlow, hadditional, hlimit, hamount, hinterrupted]
    · have hpay := subtract_of_le (Nat.le_of_not_lt hamount)
      have htake := subtract_of_le (Nat.min_le_left (L - (amount - s.budget)) checkpointChunk)
      refine ⟨_, _, ?_, .charged amount hbudget (Nat.le_of_not_lt hamount)⟩
      simp [Metered.chargeSlow, Metered.pay, Metered.take, hadditional, hlimit, hamount,
        hinterrupted, hpay, htake]

theorem meterStep_move (hlimit : s.limit = some L) (call : MeterCall) :
    ∃ outcome t, meterStep s call = some (outcome, t) ∧ MeterMove L s call outcome t := by
  cases call with
  | checkpoint =>
      by_cases hbudget : 1 ≤ s.budget
      · refine ⟨(s.spend 1).1, (s.spend 1).2, ?_, spend_move rfl rfl rfl rfl hbudget⟩
        simp [meterStep, Metered.checkpoint, hbudget]
      · obtain ⟨outcome, t, hrefill, hmove⟩ := refill_move hlimit (by omega)
        refine ⟨outcome, t, ?_, hmove⟩
        simp [meterStep, Metered.checkpoint, hbudget, hrefill]
  | chargeN amount =>
      by_cases hzero : amount = 0
      · refine ⟨.ok (), s, ?_, .still s.interrupted hzero rfl⟩
        simp [meterStep, Metered.chargeN, hzero]
      · by_cases hbudget : amount ≤ s.budget
        · refine ⟨(s.spend amount).1, (s.spend amount).2, ?_, spend_move rfl rfl rfl rfl hbudget⟩
          simp [meterStep, Metered.chargeN, hzero, hbudget]
        · obtain ⟨outcome, t, hcharge, hmove⟩ := chargeSlow_move hlimit (Nat.lt_of_not_le hbudget)
          refine ⟨outcome, t, ?_, hmove⟩
          simp [meterStep, Metered.chargeN, hzero, hbudget, hcharge]
  | interrupt => exact ⟨_, _, rfl, .still true rfl rfl⟩
  | resetInterrupt => exact ⟨_, _, rfl, .still false rfl rfl⟩

theorem meterStep_eq_some (hlimit : s.limit = some L) {call : MeterCall}
    {outcome : Except InterruptReason Unit} {t : Metered}
    (h : meterStep s call = some (outcome, t)) : MeterMove L s call outcome t := by
  obtain ⟨outcome', t', hstep, hmove⟩ := meterStep_move hlimit call
  obtain ⟨rfl, rfl⟩ : outcome' = outcome ∧ t' = t := by simpa [hstep] using h
  exact hmove

end moves

end Telomere.Runtime
