import Telomere.Runtime.Metering

/-!
# Fuel is conserved

What is in the ledger, in the reservation of the context and booked as consumed adds up to the fuel
there was at the start. Fuel that is set while a reservation is out comes on top of what is left of
it, which can be a whole chunk.
-/

namespace Telomere.Runtime

theorem saturatingAdd_eq {a b : Nat} (h : a + b ≤ u64Max) : saturatingAdd a b = a + b :=
  Nat.min_eq_left h

/-- With fuel `F` and consumption `C` at the start: the fuel adds up, the reservation is a chunk at
most, and what is left of it belongs to this epoch. -/
structure Balanced (F C : Nat) (s : Metered) : Prop where
  limit : ∃ L, s.limit = some L ∧ L + s.reserved + (s.consumed - C) = F
  consumed : C ≤ s.consumed
  budget : s.budget ≤ s.reserved
  reserved : s.reserved ≤ checkpointChunk
  epoch : s.budget = 0 ∨ s.budgetEpoch = s.epoch

def Metered.spent (C : Nat) (s : Metered) : Nat := s.consumed - C + (s.reserved - s.budget)

section balanced

variable {F C L : Nat} {s t : Metered} {call : MeterCall} {outcome : Except InterruptReason Unit}

theorem MeterMove.balanced (hmove : MeterMove L s call outcome t) (hlimit : s.limit = some L)
    (hmax : C + F ≤ u64Max) (hs : Balanced F C s) :
    Balanced F C t ∧ t.spent C = s.spent C + (call.units outcome + call.lost s outcome) := by
  obtain ⟨⟨L', hlimit', hsum⟩, hconsumed, hbudget, hreserved, hepoch⟩ := hs
  obtain rfl : L' = L := by simpa [hlimit] using hlimit'.symm
  have hadd : saturatingAdd s.consumed s.reserved = s.consumed + s.reserved :=
    saturatingAdd_eq (by omega)
  have hchunk : 0 < checkpointChunk := by decide
  cases hmove with
  | still interrupted hunits hlost =>
      refine ⟨⟨⟨L', hlimit, hsum⟩, hconsumed, hbudget, hreserved, hepoch⟩, ?_⟩
      simp [Metered.spent, hunits, hlost]
  | spend amount hunits hlost hamount =>
      refine ⟨⟨⟨L', hlimit, hsum⟩, hconsumed, ?_, hreserved, ?_⟩, ?_⟩
      · dsimp only
        omega
      · dsimp only
        omega
      · simp only [Metered.spent, hunits, hlost]
        omega
  | closed reason hzero =>
      refine ⟨⟨⟨L', hlimit, ?_⟩, ?_, Nat.le_refl _, Nat.zero_le _, .inl rfl⟩, ?_⟩
      · dsimp only
        omega
      · dsimp only
        omega
      · simp only [Metered.spent, MeterCall.units, MeterCall.lost]
        omega
  | refilled hzero hpos =>
      have htake := Nat.min_le_left L' checkpointChunk
      have hone : 0 < min L' checkpointChunk := Nat.lt_min.mpr ⟨hpos, hchunk⟩
      refine ⟨⟨⟨_, rfl, ?_⟩, ?_, ?_, Nat.min_le_right _ _, .inr rfl⟩, ?_⟩
      · dsimp only
        omega
      · dsimp only
        omega
      · dsimp only
        omega
      · simp only [Metered.spent, MeterCall.units, MeterCall.lost]
        omega
  | exhausted amount hamount =>
      have hall : saturatingAdd (saturatingAdd s.consumed s.reserved) L' =
          s.consumed + s.reserved + L' := by
        rw [hadd]
        exact saturatingAdd_eq (by omega)
      refine ⟨⟨⟨_, rfl, ?_⟩, ?_, Nat.le_refl _, Nat.zero_le _, .inl rfl⟩, ?_⟩
      · dsimp only
        omega
      · dsimp only
        omega
      · simp only [Metered.spent, MeterCall.units, MeterCall.lost, hlimit, Option.getD_some]
        omega
  | charged amount hlt hamount =>
      have hall : saturatingAdd (saturatingAdd s.consumed s.reserved) (amount - s.budget) =
          s.consumed + s.reserved + (amount - s.budget) := by
        rw [hadd]
        exact saturatingAdd_eq (by omega)
      have htake := Nat.min_le_left (L' - (amount - s.budget)) checkpointChunk
      refine ⟨⟨⟨_, rfl, ?_⟩, ?_, Nat.le_refl _, Nat.min_le_right _ _, .inr rfl⟩, ?_⟩
      · dsimp only
        omega
      · dsimp only
        omega
      · simp only [Metered.spent, MeterCall.units, MeterCall.lost]
        omega

/-- Whole runs: no subtraction goes below zero, and the sums are right at the end of each. -/
theorem meterRun_balanced (hmax : C + F ≤ u64Max) (hs : Balanced F C s) (calls : List MeterCall) :
    ∃ sum t, meterRun (fun s call outcome => call.units outcome + call.lost s outcome) s calls =
      some (sum, t) ∧ Balanced F C t ∧ t.spent C = s.spent C + sum := by
  induction calls generalizing s with
  | nil => exact ⟨0, s, rfl, hs, rfl⟩
  | cons call calls ih =>
      obtain ⟨L, hlimit, -⟩ := hs.limit
      obtain ⟨outcome, t, hstep, hmove⟩ := meterStep_move hlimit call
      obtain ⟨ht, hspent⟩ := hmove.balanced hlimit hmax hs
      obtain ⟨sum, u, hrun, hu, hsum⟩ := ih ht
      refine ⟨_, u, meterRun_cons hstep hrun, hu, ?_⟩
      omega

theorem Balanced.release (hF : F < u64Max) (hmax : C + F ≤ u64Max) (hs : Balanced F C s) :
    ∃ L, s.release.limit = some L ∧ L + (s.release.consumed - C) = F ∧
      s.release.consumed - C = s.spent C := by
  obtain ⟨⟨L, hlimit, hsum⟩, hconsumed, hbudget, -, hepoch⟩ := hs
  have hspent : saturatingAdd s.consumed (s.reserved - s.budget) =
      s.consumed + (s.reserved - s.budget) := saturatingAdd_eq (by omega)
  have hback : saturatingAdd L s.budget = L + s.budget := saturatingAdd_eq (by omega)
  have hlimit' : s.release.limit = some (L + s.budget) := by
    rcases hepoch with hzero | heq
    · simp [Metered.release, hlimit, hzero, saturatingAdd_eq (show L + 0 ≤ u64Max by omega)]
    · simp [Metered.release, hlimit, heq, hback]
  refine ⟨_, hlimit', ?_, ?_⟩
  · simp only [Metered.release]
    omega
  · simp only [Metered.release, Metered.spent]
    omega

end balanced

/-- A store with fuel `F` and consumption `C` at which nothing runs; the context is a new one. -/
def Metered.idle (F C epoch budgetEpoch : Nat) (interrupted : Bool) : Metered :=
  ⟨some F, C, epoch, interrupted, 0, 0, budgetEpoch⟩

/-- In every run of a context, in every order and with every amount, the fuel adds up; and when the
context ends, exactly what succeeded is booked, and all of the rest if a charge was refused. -/
theorem fuel_conserved (F C epoch budgetEpoch : Nat) (interrupted : Bool) (hF : F < u64Max)
    (hmax : C + F ≤ u64Max) (calls : List MeterCall) :
    ∃ sum t, meterRun (fun s call outcome => call.units outcome + call.lost s outcome)
        (.idle F C epoch budgetEpoch interrupted) calls = some (sum, t) ∧ Balanced F C t ∧
      ∃ L, t.release.limit = some L ∧ L + (t.release.consumed - C) = F ∧
        t.release.consumed - C = sum := by
  have hidle : Balanced F C (.idle F C epoch budgetEpoch interrupted) := by
    refine ⟨⟨F, rfl, ?_⟩, Nat.le_refl _, Nat.le_refl _, Nat.zero_le _, .inl rfl⟩
    simp [Metered.idle]
  obtain ⟨sum, t, hrun, ht, hspent⟩ := meterRun_balanced hmax hidle calls
  obtain ⟨L, hlimit, hsum, hconsumed⟩ := ht.release hF hmax
  refine ⟨sum, t, hrun, ht, L, hlimit, hsum, ?_⟩
  rw [hconsumed, hspent]
  simp [Metered.idle, Metered.spent]

theorem fuel_conserved_refused :
    ∃ sum t, meterRun (fun s call outcome => call.units outcome + call.lost s outcome)
        (.idle 10 7 0 0 false) [.checkpoint, .chargeN 20] = some (sum, t) ∧ Balanced 10 7 t ∧
      ∃ L, t.release.limit = some L ∧ L + (t.release.consumed - 7) = 10 ∧
        t.release.consumed - 7 = sum :=
  fuel_conserved 10 7 0 0 false (by decide) (by decide) [.checkpoint, .chargeN 20]

/-- In a store that had unlimited fuel before, the count of what was consumed can be at its end. -/
private def atTheEnd : Option Metered := do
  let (_, s) ← meterRun (fun _ => MeterCall.units) (.new none) [.chargeN u64Max]
  return s.release.setFuel 10

/-- There the sum is not kept: a checkpoint takes a unit of fuel and none is booked. -/
theorem saturated_not_conserved :
    ∃ epoch sum t, atTheEnd = some (.idle 10 u64Max epoch 0 false) ∧
      meterRun (fun s call outcome => call.units outcome + call.lost s outcome)
        (.idle 10 u64Max epoch 0 false) [.checkpoint] = some (sum, t) ∧
      t.release.limit = some 9 ∧ t.release.consumed = u64Max ∧
      ¬∃ L, t.release.limit = some L ∧ L + (t.release.consumed - u64Max) = 10 := by
  refine ⟨1, 1, ⟨some 0, u64Max, 1, false, 9, 10, 1⟩, by decide +kernel, by decide +kernel,
    by decide +kernel, by decide +kernel, ?_⟩
  rintro ⟨L, hlimit, hsum⟩
  have hnine : some 9 = some L := by
    rw [← hlimit]
    decide +kernel
  obtain rfl := Option.some.inj hnine
  have hbooked : (⟨some 0, u64Max, 1, false, 9, 10, 1⟩ : Metered).release.consumed = u64Max := by
    decide +kernel
  omega

/-- A store that contexts run in one after the other, and that is given fuel at any time. -/
inductive MeterReached : Metered → Prop
  | new (initialFuel : Option Nat) : MeterReached (.new initialFuel)
  | call {s t : Metered} {call : MeterCall} {outcome : Except InterruptReason Unit}
      (hs : MeterReached s) (h : meterStep s call = some (outcome, t)) : MeterReached t
  | setFuel {s : Metered} (hs : MeterReached s) (fuel : Nat) : MeterReached (s.setFuel fuel)
  | ended {s : Metered} (hs : MeterReached s) : MeterReached { s.release with budgetEpoch := 0 }

structure OneChunk (s : Metered) : Prop where
  budget : s.budget ≤ s.reserved
  reserved : s.reserved ≤ checkpointChunk

section reached

variable {s t : Metered} {call : MeterCall} {outcome : Except InterruptReason Unit} {L : Nat}

theorem MeterMove.oneChunk (hmove : MeterMove L s call outcome t) (hs : OneChunk s) :
    OneChunk t := by
  obtain ⟨hbudget, hreserved⟩ := hs
  cases hmove with
  | still => exact ⟨hbudget, hreserved⟩
  | spend => exact ⟨Nat.le_trans (Nat.sub_le _ _) hbudget, hreserved⟩
  | closed => exact ⟨Nat.le_refl _, Nat.zero_le _⟩
  | refilled => exact ⟨Nat.sub_le _ _, Nat.min_le_right _ _⟩
  | exhausted => exact ⟨Nat.le_refl _, Nat.zero_le _⟩
  | charged => exact ⟨Nat.le_refl _, Nat.min_le_right _ _⟩

theorem spend_oneChunk (hs : OneChunk s) (amount : Nat) : OneChunk (s.spend amount).2 := by
  have hspent : OneChunk { s with budget := s.budget - amount } :=
    ⟨Nat.le_trans (Nat.sub_le _ _) hs.budget, hs.reserved⟩
  unfold Metered.spend
  split
  · exact hspent
  · split
    · exact hs
    · exact hspent

theorem meterStep_oneChunk_unlimited (hlimit : s.limit = none) (hs : OneChunk s)
    (h : meterStep s call = some (outcome, t)) : OneChunk t := by
  have hchunk : checkpointChunk ≠ 0 := by decide
  have hone : subtract checkpointChunk 1 = some (checkpointChunk - 1) := by decide
  cases call with
  | checkpoint =>
      by_cases hbudget : 1 ≤ s.budget
      · simp only [meterStep, Metered.checkpoint, hbudget, if_true, Option.some.injEq] at h
        rw [← show (s.spend 1).2 = t by rw [h]]
        exact spend_oneChunk hs 1
      · by_cases hinterrupted : s.interrupted
        · simp [meterStep, Metered.checkpoint, hbudget, Metered.refillCheckpointBudget,
            Metered.grant, Metered.take, hlimit, hchunk, hinterrupted] at h
          obtain ⟨-, rfl⟩ := h
          exact ⟨Nat.le_refl _, Nat.zero_le _⟩
        · simp [meterStep, Metered.checkpoint, hbudget, Metered.refillCheckpointBudget,
            Metered.grant, Metered.take, Metered.pay, hlimit, hchunk, hinterrupted, hone] at h
          obtain ⟨-, rfl⟩ := h
          exact ⟨Nat.sub_le _ _, Nat.le_refl _⟩
  | chargeN amount =>
      by_cases hzero : amount = 0
      · simp [meterStep, Metered.chargeN, hzero] at h
        obtain ⟨-, rfl⟩ := h
        exact hs
      · by_cases hbudget : amount ≤ s.budget
        · simp only [meterStep, Metered.chargeN, hzero, hbudget, if_true, if_false,
            Option.some.injEq] at h
          rw [← show (s.spend amount).2 = t by rw [h]]
          exact spend_oneChunk hs amount
        · have hadditional := subtract_of_le (Nat.le_of_not_le hbudget)
          by_cases hinterrupted : s.interrupted
          · simp [meterStep, Metered.chargeN, hzero, hbudget, Metered.chargeSlow, hadditional,
              hlimit, hinterrupted] at h
            obtain ⟨-, rfl⟩ := h
            exact hs
          · simp [meterStep, Metered.chargeN, hzero, hbudget, Metered.chargeSlow, hadditional,
              Metered.pay, Metered.take, hlimit, hinterrupted] at h
            obtain ⟨-, rfl⟩ := h
            exact ⟨Nat.le_refl _, Nat.le_refl _⟩
  | interrupt =>
      simp [meterStep] at h
      obtain ⟨-, rfl⟩ := h
      exact ⟨hs.budget, hs.reserved⟩
  | resetInterrupt =>
      simp [meterStep] at h
      obtain ⟨-, rfl⟩ := h
      exact ⟨hs.budget, hs.reserved⟩

theorem MeterReached.oneChunk (hs : MeterReached s) : OneChunk s := by
  induction hs with
  | new initialFuel => exact ⟨Nat.le_refl _, Nat.zero_le _⟩
  | @call s t call outcome _ h ih =>
      cases hlimit : s.limit with
      | none => exact meterStep_oneChunk_unlimited hlimit ih h
      | some L => exact (meterStep_eq_some hlimit h).oneChunk ih
  | setFuel _ fuel ih => exact ⟨ih.budget, ih.reserved⟩
  | ended _ ih => exact ⟨Nat.le_refl _, Nat.zero_le _⟩

end reached

/-- After `n` was set, with `b` left of the reservation at that time and `T` units succeeded since:
either this reservation is still in use and the limit untouched, or all that is left counts against
the new limit. -/
structure AfterSet (n b grantEpoch epoch T : Nat) (s : Metered) : Prop where
  epoch : s.epoch = epoch
  limit : ∃ L, s.limit = some L ∧
    ((L = n ∧ T + s.budget = b ∧ s.budgetEpoch = grantEpoch) ∨
      (L + s.budget + (T - b) ≤ n ∧ T + s.budget + L ≤ n + b))

section afterSet

variable {n b grantEpoch epoch T L : Nat} {s t : Metered} {call : MeterCall}
  {outcome : Except InterruptReason Unit}

theorem MeterMove.afterSet (hmove : MeterMove L s call outcome t) (hlimit : s.limit = some L)
    (hs : AfterSet n b grantEpoch epoch T s) :
    AfterSet n b grantEpoch epoch (T + call.units outcome) t := by
  obtain ⟨hepoch, L', hlimit', hs⟩ := hs
  obtain rfl : L' = L := by simpa [hlimit] using hlimit'.symm
  cases hmove with
  | still interrupted hunits hlost =>
      refine ⟨hepoch, L', hlimit, ?_⟩
      rw [hunits]
      exact hs
  | spend amount hunits hlost hamount =>
      refine ⟨hepoch, L', hlimit, ?_⟩
      rw [hunits]
      dsimp only
      rcases hs with ⟨rfl, hb, hgrant⟩ | ⟨hn, hT⟩
      · exact .inl ⟨rfl, by omega, hgrant⟩
      · exact .inr ⟨by omega, by omega⟩
  | closed reason hzero =>
      refine ⟨hepoch, L', hlimit, ?_⟩
      simp only [MeterCall.units]
      rcases hs with ⟨rfl, hb, hgrant⟩ | ⟨hn, hT⟩
      · exact .inl ⟨rfl, by omega, hgrant⟩
      · exact .inr ⟨by omega, by omega⟩
  | refilled hzero hpos =>
      have htake := Nat.min_le_left L' checkpointChunk
      have hone : 0 < min L' checkpointChunk := Nat.lt_min.mpr ⟨hpos, by decide⟩
      refine ⟨hepoch, _, rfl, .inr ?_⟩
      simp only [MeterCall.units]
      omega
  | exhausted amount hamount =>
      refine ⟨hepoch, _, rfl, .inr ?_⟩
      simp only [MeterCall.units]
      omega
  | charged amount hlt hamount =>
      have htake := Nat.min_le_left (L' - (amount - s.budget)) checkpointChunk
      refine ⟨hepoch, _, rfl, .inr ?_⟩
      simp only [MeterCall.units]
      omega

theorem meterRun_afterSet {calls : List MeterCall} {sum : Nat} {u : Metered}
    (hs : AfterSet n b grantEpoch epoch T s)
    (h : meterRun (fun _ => MeterCall.units) s calls = some (sum, u)) :
    AfterSet n b grantEpoch epoch (T + sum) u := by
  induction calls generalizing s T sum with
  | nil =>
      simp [meterRun] at h
      obtain ⟨rfl, rfl⟩ := h
      exact hs
  | cons call calls ih =>
      obtain ⟨L, hlimit, -⟩ := hs.limit
      obtain ⟨outcome, t, rest, hstep, hrest, rfl⟩ := meterRun_cons_eq_some h
      have hu := ih ((meterStep_eq_some hlimit hstep).afterSet hlimit hs) hrest
      rwa [Nat.add_assoc] at hu

end afterSet

/-- After `setFuel n`, whatever the context calls then: the units that succeed are within the bound,
and when the context ends the limit is what the new fuel pays for, without what was left of the old
reservation. -/
def SetFuelBounded (s : Metered) (n : Nat) : Prop :=
  ∀ calls units t, meterRun (fun _ => MeterCall.units) (s.setFuel n) calls = some (units, t) →
    units ≤ n + checkpointChunk - 1 ∧
      ∃ L, t.release.limit = some L ∧ L + (units - s.budget) ≤ n

section setFuel

variable {s : Metered} {n : Nat}

theorem setFuel_limit (hn : n < u64Max) : (s.setFuel n).limit = some n := by
  simp [Metered.setFuel, Metered.finiteLimit, Nat.ne_of_lt hn]

theorem setFuelBounded_of (hn : n < u64Max) (hbudget : s.budget < checkpointChunk)
    (hepoch : s.budget = 0 ∨ s.budgetEpoch ≠ (s.epoch + 1) % 2 ^ 64) : SetFuelBounded s n := by
  intro calls units t hrun
  have hstart : AfterSet n s.budget s.budgetEpoch ((s.epoch + 1) % 2 ^ 64) 0 (s.setFuel n) :=
    ⟨rfl, n, setFuel_limit hn, .inl ⟨rfl, Nat.zero_add _, rfl⟩⟩
  obtain ⟨hnow, L, hlimit, ht⟩ := meterRun_afterSet hstart hrun
  refine ⟨by omega, ?_⟩
  have hadd : saturatingAdd L t.budget ≤ L + t.budget := Nat.min_le_left _ _
  by_cases heq : t.budgetEpoch = t.epoch
  · refine ⟨saturatingAdd L t.budget, by simp [Metered.release, hlimit, heq], ?_⟩
    rcases ht with ⟨rfl, hb, hgrant⟩ | ⟨hn, hT⟩
    · -- the old reservation: its epoch is another one, or nothing is left of it
      rw [hgrant, hnow] at heq
      have hnone := hepoch.resolve_right fun h => h heq
      omega
    · omega
  · refine ⟨L, by simp [Metered.release, hlimit, heq], ?_⟩
    omega

theorem chargeN_limit (hlimit : s.limit = some n) (hbudget : s.budget = 0)
    (hrunning : s.interrupted = false) : ∃ t, meterStep s (.chargeN n) = some (.ok (), t) := by
  by_cases hzero : n = 0
  · refine ⟨s, ?_⟩
    simp [meterStep, Metered.chargeN, hzero]
  · refine ⟨{ s with
      consumed := saturatingAdd (saturatingAdd s.consumed s.reserved) n
      limit := some 0, reserved := 0, budget := 0, budgetEpoch := s.epoch }, ?_⟩
    simp [meterStep, Metered.chargeN, hzero, hbudget, Metered.chargeSlow, subtract, Metered.pay,
      Metered.take, hlimit, hrunning]

theorem not_setFuelBounded_of_chunk (hn : n < u64Max) (hs : OneChunk s)
    (hbudget : s.budget = checkpointChunk) : ¬SetFuelBounded s n := by
  have hchunk : 0 < checkpointChunk := by decide
  have hreserved : s.reserved ≠ 0 := by
    have := hs.budget
    omega
  intro hbounded
  have hreset : meterStep (s.setFuel n) .resetInterrupt =
      some (.ok (), { s.setFuel n with interrupted := false }) := rfl
  have hspend : meterStep { s.setFuel n with interrupted := false } (.chargeN checkpointChunk) =
      some (.ok (), { s.setFuel n with interrupted := false, budget := 0 }) := by
    simp [meterStep, Metered.chargeN, Metered.spend, Metered.setFuel, hbudget, hreserved,
      Nat.ne_of_gt hchunk]
  obtain ⟨t, hrest⟩ := chargeN_limit (s := { s.setFuel n with interrupted := false, budget := 0 })
    (setFuel_limit (s := s) hn) rfl rfl
  have hend : meterRun (fun _ => MeterCall.units) t [] = some (0, t) := rfl
  have htotal := meterRun_cons hreset (meterRun_cons hspend (meterRun_cons hrest hend))
  have hbound := (hbounded _ _ _ htotal).1
  simp only [MeterCall.units] at hbound
  omega

/-- What is left of a reservation of the same epoch goes into the new limit when the context ends. -/
theorem not_setFuelBounded_of_epoch (hn : n < u64Max) (hbudget : s.budget ≠ 0)
    (hepoch : s.budgetEpoch = (s.epoch + 1) % 2 ^ 64) : ¬SetFuelBounded s n := by
  intro hbounded
  obtain ⟨-, L, hlimit, hle⟩ := hbounded [] 0 (s.setFuel n) rfl
  have hback : (s.setFuel n).release.limit = some (saturatingAdd n s.budget) := by
    have hset : (s.setFuel n).budgetEpoch = (s.setFuel n).epoch := hepoch
    unfold Metered.release
    rw [if_pos hset, setFuel_limit hn]
    rfl
  obtain rfl : saturatingAdd n s.budget = L := by simpa [hlimit] using hback.symm
  have hmore : n < saturatingAdd n s.budget := Nat.lt_min.mpr ⟨by omega, hn⟩
  omega

end setFuel

/-- From every state of a store, setting finite fuel keeps to the documented bound and gives nothing
back of the old reservation, exactly when less than a chunk of that is left and it is not of the
epoch that begins. -/
theorem setFuel_bounded_iff (s : Metered) (hs : MeterReached s) (n : Nat) (hn : n < u64Max) :
    SetFuelBounded s n ↔ s.budget < checkpointChunk ∧
      (s.budget = 0 ∨ s.budgetEpoch ≠ (s.epoch + 1) % 2 ^ 64) := by
  constructor
  · intro hbounded
    have hle := Nat.le_trans hs.oneChunk.budget hs.oneChunk.reserved
    refine ⟨Nat.lt_of_le_of_ne hle fun heq => ?_, ?_⟩
    · exact not_setFuelBounded_of_chunk hn hs.oneChunk heq hbounded
    · by_contra h
      simp only [not_or, not_not] at h
      exact not_setFuelBounded_of_epoch hn h.1 h.2 hbounded
  · rintro ⟨hbudget, hepoch⟩
    exact setFuelBounded_of hn hbudget hepoch

/-- After a checkpoint there is one unit less than a chunk. -/
theorem setFuel_bounded_after_checkpoint :
    ∃ outcome s, meterStep (.new (some 10000)) .checkpoint = some (outcome, s) ∧
      s.budget = 4095 ∧ SetFuelBounded s 5 := by
  have hstep : meterStep (.new (some 10000)) .checkpoint =
      some (.ok (), ⟨some 5904, 0, 0, false, 4095, 4096, 0⟩) := rfl
  refine ⟨_, _, hstep, rfl, ?_⟩
  exact (setFuel_bounded_iff _ (.call (.new _) hstep) 5 (by decide)).mpr (by decide)

/-- After a charge there is a whole chunk: with no new fuel all of it still runs. -/
theorem charge_leaves_chunk :
    ∃ outcome s, meterStep (.new (some 10000)) (.chargeN 1) = some (outcome, s) ∧
      MeterReached s ∧ (∃ t, meterRun (fun _ => MeterCall.units) (s.setFuel 0) [.chargeN 4096] =
        some (4096, t)) ∧ ¬SetFuelBounded s 0 := by
  have hstep : meterStep (.new (some 10000)) (.chargeN 1) =
      some (.ok (), ⟨some 5903, 1, 0, false, 4096, 4096, 0⟩) := rfl
  have hrun : meterRun (fun _ => MeterCall.units)
      (Metered.setFuel ⟨some 5903, 1, 0, false, 4096, 4096, 0⟩ 0) [.chargeN 4096] =
        some (4096, ⟨some 0, 1, 1, false, 0, 4096, 0⟩) := by decide +kernel
  refine ⟨_, _, hstep, .call (.new _) hstep, ⟨_, hrun⟩, fun hbounded => ?_⟩
  have hbound := (hbounded _ _ _ hrun).1
  exact absurd hbound (by decide)

end Telomere.Runtime
