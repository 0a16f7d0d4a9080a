import Mathlib.Algebra.Ring.Nat
import Mathlib.Data.List.Basic

/-!
# Computations that keep their state when they fail

A step returns the state it reached together with its outcome, so that what it did before it
failed stays visible. `runAll` runs one step per item and stops at the first failure.
-/

namespace Telomere.Lib

variable {σ τ ε ι α β : Type*}

def andThen (r : σ × Except ε α) (next : σ → α → σ × Except ε β) : σ × Except ε β :=
  match r with
  | (s, .ok a) => next s a
  | (s, .error e) => (s, .error e)

@[simp] theorem andThen_ok (s : σ) (a : α) (next : σ → α → σ × Except ε β) :
    andThen (s, .ok a) next = next s a := rfl

@[simp] theorem andThen_error (s : σ) (e : ε) (next : σ → α → σ × Except ε β) :
    andThen (s, .error e) next = (s, .error e) := rfl

theorem andThen_eq_ok {r : σ × Except ε α} {next : σ → α → σ × Except ε β} {t : σ} {b : β}
    (h : andThen r next = (t, .ok b)) : ∃ s a, r = (s, .ok a) ∧ next s a = (t, .ok b) := by
  obtain ⟨s, a | a⟩ := r
  · cases h
  · exact ⟨s, a, rfl, h⟩

def runAll (step : σ → ι → σ × Except ε Unit) : σ → List ι → σ × Except ε Unit
  | s, [] => (s, .ok ())
  | s, i :: is => andThen (step s i) fun s _ => runAll step s is

section runAll

variable {step : σ → ι → σ × Except ε Unit}

@[simp] theorem runAll_nil (s : σ) : runAll step s [] = (s, .ok ()) := rfl

@[simp] theorem runAll_cons (s : σ) (i : ι) (is : List ι) :
    runAll step s (i :: is) = andThen (step s i) fun s _ => runAll step s is := rfl

theorem runAll_append (s : σ) (is js : List ι) :
    runAll step s (is ++ js) = andThen (runAll step s is) fun s _ => runAll step s js := by
  induction is generalizing s with
  | nil => rfl
  | cons i is ih =>
      rw [List.cons_append, runAll_cons, runAll_cons]
      rcases step s i with ⟨t, e | u⟩
      · rfl
      · exact ih t

theorem runAll_stops {s t : σ} {is js : List ι} {i : ι} {e : ε}
    (hrun : runAll step s is = (t, .ok ())) (hfail : (step t i).2 = .error e) :
    runAll step s (is ++ i :: js) = step t i := by
  rw [runAll_append, hrun, andThen_ok, runAll_cons]
  rcases hr : step t i with ⟨u, e' | v⟩
  · rfl
  · rw [hr] at hfail
    cases hfail

theorem runAll_invariant {P : σ → Prop} {is : List ι}
    (hstep : ∀ s, ∀ i ∈ is, P s → P (step s i).1) {s : σ} (h : P s) :
    P (runAll step s is).1 := by
  induction is generalizing s with
  | nil => exact h
  | cons i is ih =>
      have hfirst : P (step s i).1 := hstep s i (List.mem_cons_self ..) h
      rw [runAll_cons]
      rcases hr : step s i with ⟨t, e | u⟩
      · rw [hr] at hfirst
        exact hfirst
      · rw [hr] at hfirst
        exact ih (fun s i hi => hstep s i (List.mem_cons_of_mem _ hi)) hfirst

/-- Two loops whose steps agree through a view of the states an invariant describes agree through
it. -/
theorem runAll_view {step' : τ → ι → τ × Except ε Unit} {view : σ → τ} {P : σ → Prop}
    {is : List ι} (hkeep : ∀ s, ∀ i ∈ is, P s → P (step s i).1)
    (hstep : ∀ s, ∀ i ∈ is, P s → step' (view s) i = (view (step s i).1, (step s i).2)) {s : σ}
    (h : P s) :
    runAll step' (view s) is = (view (runAll step s is).1, (runAll step s is).2) := by
  induction is generalizing s with
  | nil => rfl
  | cons i is ih =>
      have hfirst := hstep s i (List.mem_cons_self ..) h
      have hnext := hkeep s i (List.mem_cons_self ..) h
      rw [runAll_cons, runAll_cons, hfirst]
      rcases hr : step s i with ⟨t, e | u⟩
      · rfl
      · rw [hr] at hnext
        exact ih (fun s i hi => hkeep s i (List.mem_cons_of_mem _ hi))
          (fun s i hi => hstep s i (List.mem_cons_of_mem _ hi)) hnext

/-- A run succeeds exactly when every item passes, if an invariant decides which items do. -/
theorem runAll_ok_iff {P : σ → Prop} {passes : ι → Prop} {is : List ι}
    (hkeep : ∀ s, ∀ i ∈ is, P s → P (step s i).1)
    (hok : ∀ s, ∀ i ∈ is, P s → ((step s i).2 = .ok () ↔ passes i)) {s : σ} (h : P s) :
    (runAll step s is).2 = .ok () ↔ ∀ i ∈ is, passes i := by
  induction is generalizing s with
  | nil => simp
  | cons i is ih =>
      have hfirst := hok s i (List.mem_cons_self ..) h
      have hnext := hkeep s i (List.mem_cons_self ..) h
      rw [runAll_cons, List.forall_mem_cons]
      rcases hr : step s i with ⟨t, e | u⟩
      · rw [hr] at hfirst
        constructor
        · intro herror
          cases herror
        · intro hall
          cases hfirst.mpr hall.1
      · rw [hr] at hfirst hnext
        have hrest := ih (fun s i hi => hkeep s i (List.mem_cons_of_mem _ hi))
          (fun s i hi => hok s i (List.mem_cons_of_mem _ hi)) hnext
        exact ⟨fun hall => ⟨hfirst.mp rfl, hrest.mp hall⟩, fun hall => hrest.mpr hall.2⟩

theorem runAll_error {P : σ → Prop} {Q : ε → Prop} {is : List ι}
    (hkeep : ∀ s, ∀ i ∈ is, P s → P (step s i).1)
    (herror : ∀ s, ∀ i ∈ is, P s → ∀ e, (step s i).2 = .error e → Q e) {s : σ} (h : P s) {e : ε}
    (hrun : (runAll step s is).2 = .error e) : Q e := by
  induction is generalizing s with
  | nil => cases hrun
  | cons i is ih =>
      have hnext := hkeep s i (List.mem_cons_self ..) h
      have hfirst := herror s i (List.mem_cons_self ..) h
      rw [runAll_cons] at hrun
      rcases hr : step s i with ⟨t, e' | u⟩
      · rw [hr] at hrun hfirst
        obtain rfl := Except.error.inj hrun
        exact hfirst e' rfl
      · rw [hr] at hrun hnext
        exact ih (fun s i hi => hkeep s i (List.mem_cons_of_mem _ hi))
          (fun s i hi => herror s i (List.mem_cons_of_mem _ hi)) hnext hrun

theorem runAll_pure (f : σ → ι → σ) (s : σ) (is : List ι) :
    runAll (fun s i => ((f s i, .ok ()) : σ × Except ε Unit)) s is = (is.foldl f s, .ok ()) := by
  induction is generalizing s with
  | nil => rfl
  | cons i is ih => exact ih (f s i)

end runAll

end Telomere.Lib
