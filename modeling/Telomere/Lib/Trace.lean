import Mathlib.Data.List.Basic

/-!
# Moments of a run

A run as the list of its steps, each with the states before and after it. What holds of each step
in view of the steps before it follows from an invariant; where a step breaks the invariant is where
the property first fails.
-/

namespace Telomere.Lib

variable {σ ι ω : Type}

structure Moment (σ ι ω : Type) where
  before : σ
  input : ι
  output : ω
  after : σ

/-- The moments of a run; there are none when a step is not possible. -/
def moments (step : σ → ι → Option (ω × σ)) : σ → List ι → Option (List (Moment σ ι ω))
  | _, [] => some []
  | s, input :: inputs => do
      let (output, t) ← step s input
      let later ← moments step t inputs
      return ⟨s, input, output, t⟩ :: later

theorem moments_cons {step : σ → ι → Option (ω × σ)} {s : σ} {input : ι} {inputs : List ι}
    {run : List (Moment σ ι ω)} (h : moments step s (input :: inputs) = some run) :
    ∃ output t later, step s input = some (output, t) ∧ moments step t inputs = some later ∧
      run = ⟨s, input, output, t⟩ :: later := by
  rw [moments] at h
  obtain ⟨⟨output, t⟩, hstep, h⟩ := Option.bind_eq_some_iff.mp h
  obtain ⟨later, hlater, h⟩ := Option.bind_eq_some_iff.mp h
  exact ⟨output, t, later, hstep, hlater, (Option.some.inj h).symm⟩

theorem moments_inputs {step : σ → ι → Option (ω × σ)} {s : σ} {inputs : List ι}
    {run : List (Moment σ ι ω)} (h : moments step s inputs = some run) :
    run.map (·.input) = inputs := by
  induction inputs generalizing s run with
  | nil =>
      obtain rfl : [] = run := by simpa [moments] using h
      rfl
  | cons input inputs ih =>
      obtain ⟨output, t, later, -, hlater, rfl⟩ := moments_cons h
      rw [List.map_cons, ih hlater]

/-- Each moment satisfies the property together with its past. -/
def EachMoment (P : List (Moment σ ι ω) → Moment σ ι ω → Prop) (run : List (Moment σ ι ω)) : Prop :=
  ∀ past now later, run = past ++ now :: later → P past now

theorem eachMoment_append {P : List (Moment σ ι ω) → Moment σ ι ω → Prop}
    {past later : List (Moment σ ι ω)} {now : Moment σ ι ω} :
    (∀ past' now' later', now :: later = past' ++ now' :: later' → P (past ++ past') now') ↔
      P past now ∧ ∀ past' now' later', later = past' ++ now' :: later' →
        P ((past ++ [now]) ++ past') now' := by
  constructor
  · intro h
    refine ⟨?_, ?_⟩
    · have hfirst := h [] now later rfl
      rwa [List.append_nil] at hfirst
    · intro past' now' later' heq
      have hrest := h (now :: past') now' later' (by rw [heq, List.cons_append])
      rwa [List.append_assoc, List.singleton_append]
  · rintro ⟨hfirst, hrest⟩ past' now' later' heq
    cases past' with
    | nil =>
        obtain ⟨rfl, -⟩ := List.cons.inj heq
        rwa [List.append_nil]
    | cons first past' =>
        obtain ⟨rfl, htail⟩ := List.cons.inj heq
        have h := hrest past' now' later' htail
        rwa [List.append_assoc, List.singleton_append] at h

/-- As long as the invariant holds, a step is right exactly when it is good, and good steps keep the
invariant: so a run is right exactly when all its steps are good. -/
theorem eachMoment_iff {step : σ → ι → Option (ω × σ)}
    {P : List (Moment σ ι ω) → Moment σ ι ω → Prop} {good : Moment σ ι ω → Prop}
    (inv : List (Moment σ ι ω) → σ → Prop)
    (hstep : ∀ past s input output t, inv past s → step s input = some (output, t) →
      (P past ⟨s, input, output, t⟩ ↔ good ⟨s, input, output, t⟩) ∧
        (good ⟨s, input, output, t⟩ → inv (past ++ [⟨s, input, output, t⟩]) t))
    {s : σ} {inputs : List ι} {run : List (Moment σ ι ω)} (hinit : inv [] s)
    (hrun : moments step s inputs = some run) : EachMoment P run ↔ ∀ now ∈ run, good now := by
  suffices h : ∀ past, inv past s →
      ((∀ past' now later, run = past' ++ now :: later → P (past ++ past') now) ↔
        ∀ now ∈ run, good now) by
    exact h [] hinit
  clear hinit
  induction inputs generalizing s run with
  | nil =>
      obtain rfl : [] = run := by simpa [moments] using hrun
      intro past hinv
      constructor
      · intro _ now hmem
        cases hmem
      · intro _ past' now later heq
        cases past' <;> cases heq
  | cons input inputs ih =>
      intro past hinv
      obtain ⟨output, t, later, hnow, hlater, rfl⟩ := moments_cons hrun
      obtain ⟨hiff, hkeep⟩ := hstep past s input output t hinv hnow
      rw [eachMoment_append, List.forall_mem_cons, hiff]
      refine and_congr_right fun hgood => ?_
      exact ih hlater _ (hkeep hgood)

/-- Steps that are good keep the invariant and are right; so a run whose steps are all good is
right. -/
theorem eachMoment_of {step : σ → ι → Option (ω × σ)}
    {P : List (Moment σ ι ω) → Moment σ ι ω → Prop} {good : Moment σ ι ω → Prop}
    (inv : List (Moment σ ι ω) → σ → Prop)
    (hstep : ∀ past s input output t, inv past s → step s input = some (output, t) →
      good ⟨s, input, output, t⟩ →
        P past ⟨s, input, output, t⟩ ∧ inv (past ++ [⟨s, input, output, t⟩]) t)
    {s : σ} {inputs : List ι} {run : List (Moment σ ι ω)} (hinit : inv [] s)
    (hrun : moments step s inputs = some run) (hgood : ∀ now ∈ run, good now) :
    EachMoment P run := by
  suffices h : ∀ past, inv past s →
      ∀ past' now later, run = past' ++ now :: later → P (past ++ past') now by
    exact h [] hinit
  clear hinit
  induction inputs generalizing s run with
  | nil =>
      obtain rfl : [] = run := by simpa [moments] using hrun
      intro past hinv past' now later heq
      cases past' <;> cases heq
  | cons input inputs ih =>
      intro past hinv
      obtain ⟨output, t, later, hnow, hlater, rfl⟩ := moments_cons hrun
      obtain ⟨hgood, hgoods⟩ := List.forall_mem_cons.mp hgood
      obtain ⟨hright, hkeep⟩ := hstep past s input output t hinv hnow hgood
      rw [eachMoment_append]
      exact ⟨hright, ih hlater hgoods _ hkeep⟩

end Telomere.Lib
