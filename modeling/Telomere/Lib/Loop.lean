import Mathlib.Logic.Basic

/-!
# Loops

A loop is a function that makes one pass over its state and either goes round again or leaves
with a result. Two loops end alike when each result of one is matched by a result of the other;
a loop that never ends is matched by one that never ends.
-/

namespace Telomere.Lib

variable {σ τ ρ ρ' : Type}

inductive Pass (σ ρ : Type) where
  | again (s : σ)
  | leave (r : ρ)

/-- The result of a loop that is left within `fuel` passes. -/
def runFor (pass : σ → Pass σ ρ) : Nat → σ → Option ρ
  | 0, _ => none
  | fuel + 1, s =>
      match pass s with
      | .again s => runFor pass fuel s
      | .leave r => some r

def Ends (pass : σ → Pass σ ρ) (s : σ) (r : ρ) : Prop :=
  ∃ fuel, runFor pass fuel s = some r

def EndAlike (agree : ρ → ρ' → Prop) (first : σ → Pass σ ρ) (s : σ) (second : τ → Pass τ ρ')
    (t : τ) : Prop :=
  (∀ r, Ends first s r → ∃ r', Ends second t r' ∧ agree r r') ∧
    ∀ r', Ends second t r' → ∃ r, Ends first s r ∧ agree r r'

private theorem runFor_add {pass : σ → Pass σ ρ} {fuel : Nat} {s : σ} {r : ρ} (more : Nat)
    (h : runFor pass fuel s = some r) : runFor pass (fuel + more) s = some r := by
  induction fuel generalizing s with
  | zero => cases h
  | succ fuel ih =>
      rw [Nat.succ_add, runFor]
      rw [runFor] at h
      split at h
      · next next hpass => simpa [hpass] using ih h
      · next result hpass => simpa [hpass] using h

theorem Ends.unique {pass : σ → Pass σ ρ} {s : σ} {r r' : ρ} (h : Ends pass s r)
    (h' : Ends pass s r') : r = r' := by
  obtain ⟨fuel, hfuel⟩ := h
  obtain ⟨fuel', hfuel'⟩ := h'
  have hlong := runFor_add fuel' hfuel
  have hlong' := runFor_add fuel hfuel'
  rw [Nat.add_comm] at hlong'
  exact Option.some.inj (hlong.symm.trans hlong')

/-- One pass of each loop: both go round again into related states, or both leave. -/
def PassAlike (related : σ → τ → Prop) (agree : ρ → ρ' → Prop) : Pass σ ρ → Pass τ ρ' → Prop
  | .again s, .again t => related s t
  | .leave r, .leave r' => agree r r'
  | _, _ => False

section Simulation

variable {related : σ → τ → Prop} {agree : ρ → ρ' → Prop} {first : σ → Pass σ ρ}
  {second : τ → Pass τ ρ'}

private theorem runFor_alike
    (hpass : ∀ s t, related s t → PassAlike related agree (first s) (second t)) (fuel : Nat)
    {s : σ} {t : τ} (h : related s t) :
    Option.Rel agree (runFor first fuel s) (runFor second fuel t) := by
  induction fuel generalizing s t with
  | zero => exact .none
  | succ fuel ih =>
      have hone := hpass s t h
      rw [runFor, runFor]
      cases hfirst : first s <;> cases hsecond : second t <;> rw [hfirst, hsecond] at hone
      case again.again => exact ih hone
      case leave.leave => exact .some hone
      case again.leave => exact hone.elim
      case leave.again => exact hone.elim

theorem endAlike_of_passAlike
    (hpass : ∀ s t, related s t → PassAlike related agree (first s) (second t)) {s : σ} {t : τ}
    (h : related s t) : EndAlike agree first s second t := by
  constructor
  · rintro r ⟨fuel, hfuel⟩
    have halike := runFor_alike hpass fuel h
    rw [hfuel] at halike
    cases hrun : runFor second fuel t with
    | none => rw [hrun] at halike; cases halike
    | some r' =>
        rw [hrun] at halike
        cases halike with
        | some hagree => exact ⟨r', ⟨fuel, hrun⟩, hagree⟩
  · rintro r' ⟨fuel, hfuel⟩
    have halike := runFor_alike hpass fuel h
    rw [hfuel] at halike
    cases hrun : runFor first fuel s with
    | none => rw [hrun] at halike; cases halike
    | some r =>
        rw [hrun] at halike
        cases halike with
        | some hagree => exact ⟨r, ⟨fuel, hrun⟩, hagree⟩

end Simulation

end Telomere.Lib
