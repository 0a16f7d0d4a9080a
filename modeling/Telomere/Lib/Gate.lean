import Telomere.Lib.Attempt

/-!
# Gated rounds

A loop whose rounds each pass a gate first. The gate has a state of its own; where it does not let the
loop go on, what the rounds before it did stays.
-/

namespace Telomere.Lib

variable {γ σ ε : Type}

inductive Passes (gate : Attempt γ ε Unit) (g : γ) : Nat → γ → Prop
  | start : Passes gate g 0 g
  | again {k : Nat} {before after : γ} (hbefore : Passes gate g k before)
      (hgate : gate before = (.ok (), after)) : Passes gate g (k + 1) after

/-- The rounds from `round` on, so many as `count` says. -/
def gatedRounds (gate : Attempt γ ε Unit) (act : Nat → Attempt σ ε Unit) (round : Nat) :
    Nat → Attempt (γ × σ) ε Unit
  | 0 => pure ()
  | count + 1 => fun s =>
      match gate s.1 with
      | (.error e, g) => (.error e, (g, s.2))
      | (.ok (), g) =>
          match act round s.2 with
          | (.error e, t) => (.error e, (g, t))
          | (.ok (), t) => gatedRounds gate act (round + 1) count (g, t)

section gatedRounds

variable {gate : Attempt γ ε Unit} {act : Nat → Attempt σ ε Unit} {round count : Nat} {g g' : γ}
  {s t : σ} {e : ε}

theorem gatedRounds_refused (hgate : gate g = (.error e, g')) :
    gatedRounds gate act round (count + 1) (g, s) = (.error e, (g', s)) := by
  simp [gatedRounds, hgate]

theorem gatedRounds_failed (hgate : gate g = (.ok (), g')) (hact : act round s = (.error e, t)) :
    gatedRounds gate act round (count + 1) (g, s) = (.error e, (g', t)) := by
  simp [gatedRounds, hgate, hact]

theorem gatedRounds_next (hgate : gate g = (.ok (), g')) (hact : act round s = (.ok (), t)) :
    gatedRounds gate act round (count + 1) (g, s) =
      gatedRounds gate act (round + 1) count (g', t) := by
  simp [gatedRounds, hgate, hact]

end gatedRounds

/-- How `total` rounds end, where `reached k` are the states that `k` rounds lead to. -/
inductive RoundsEnd (gate : Attempt γ ε Unit) (act : Nat → Attempt σ ε Unit)
    (reached : Nat → σ → Prop) (total : Nat) (g : γ) : Except ε Unit × (γ × σ) → Prop
  | done {g' : γ} {s : σ} (hpasses : Passes gate g total g') (hreached : reached total s) :
      RoundsEnd gate act reached total g (.ok (), (g', s))
  | refused {k : Nat} {g' g'' : γ} {s : σ} {e : ε} (hlt : k < total) (hpasses : Passes gate g k g')
      (hgate : gate g' = (.error e, g'')) (hreached : reached k s) :
      RoundsEnd gate act reached total g (.error e, (g'', s))
  | failed {k : Nat} {g' : γ} {s t : σ} {e : ε} (hlt : k < total)
      (hpasses : Passes gate g (k + 1) g') (hreached : reached k s)
      (hact : act k s = (.error e, t)) : RoundsEnd gate act reached total g (.error e, (g', t))

variable {gate : Attempt γ ε Unit} {act : Nat → Attempt σ ε Unit} {reached : Nat → σ → Prop}

/-- Each round leads on, so a loop stops behind some round or comes to its end. -/
theorem gatedRounds_end {total : Nat}
    (hstep : ∀ k s t, k < total → reached k s → act k s = (.ok (), t) → reached (k + 1) t)
    {g₀ g : γ} {round count : Nat} {s : σ} (htotal : round + count = total)
    (hpasses : Passes gate g₀ round g) (hreached : reached round s) :
    RoundsEnd gate act reached total g₀ (gatedRounds gate act round count (g, s)) := by
  induction count generalizing round g s with
  | zero =>
      obtain rfl : round = total := htotal
      exact .done hpasses hreached
  | succ count ih =>
      have hlt : round < total := by omega
      rcases hgate : gate g with ⟨e | ⟨⟩, g'⟩
      · rw [gatedRounds_refused hgate]
        exact .refused hlt hpasses hgate hreached
      · have hpasses' := Passes.again hpasses hgate
        rcases hact : act round s with ⟨e | ⟨⟩, t⟩
        · rw [gatedRounds_failed hgate hact]
          exact .failed hlt hpasses' hreached hact
        · rw [gatedRounds_next hgate hact]
          exact ih (by omega) hpasses' (hstep round s t hlt hreached hact)

end Telomere.Lib
