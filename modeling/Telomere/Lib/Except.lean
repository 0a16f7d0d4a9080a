import Mathlib.Algebra.Ring.Nat
import Mathlib.Data.List.Forall2

/-!
# Successful runs of fallible code

Inversion of sequenced `Except` computations: a run that succeeds is a chain of successful runs.
-/

namespace Telomere.Lib

variable {ε α β : Type}

theorem ok_bind {a : α} {f : α → Except ε β} : (Except.ok a >>= f) = f a := rfl

theorem error_bind {e : ε} {f : α → Except ε β} : (Except.error e >>= f) = .error e := rfl

theorem bind_eq_ok {x : Except ε α} {f : α → Except ε β} {r : β} :
    (x >>= f) = .ok r ↔ ∃ a, x = .ok a ∧ f a = .ok r := by
  cases x <;> simp [bind, Except.bind]

theorem bind_eq_error {x : Except ε α} {f : α → Except ε β} {e : ε} :
    (x >>= f) = .error e ↔ x = .error e ∨ ∃ a, x = .ok a ∧ f a = .error e := by
  cases x <;> simp [bind, Except.bind]

theorem pure_eq_ok {a r : α} : (pure a : Except ε α) = .ok r ↔ a = r := by
  simp [pure, Except.pure]

theorem ite_error_eq_ok {p : Prop} [Decidable p] {e : ε} {x : Except ε α} {r : α} :
    (if p then .error e else x) = .ok r ↔ ¬p ∧ x = .ok r := by
  by_cases h : p <;> simp [h]

theorem mapM_eq_ok {f : α → Except ε β} {xs : List α} {ys : List β} :
    xs.mapM f = .ok ys ↔ List.Forall₂ (fun x y => f x = .ok y) xs ys := by
  induction xs generalizing ys with
  | nil =>
      rw [List.mapM_nil, pure_eq_ok, List.forall₂_nil_left_iff]
      exact eq_comm
  | cons x xs ih =>
      rw [List.mapM_cons, bind_eq_ok, List.forall₂_cons_left_iff]
      refine exists_congr fun y => ?_
      rw [bind_eq_ok]
      constructor
      · rintro ⟨hfirst, ys, hrest, heq⟩
        exact ⟨ys, hfirst, ih.mp hrest, (pure_eq_ok.mp heq).symm⟩
      · rintro ⟨ys, hfirst, hrest, rfl⟩
        exact ⟨hfirst, ys, ih.mpr hrest, rfl⟩

/-- A measure that no step lowers and that some step brings to `n` ends at `n` or above. -/
theorem foldlM_reaches {f : β → α → Except ε β} {μ : β → Nat} {n : Nat} {Q : α → Prop}
    {xs : List α} (hgrows : ∀ x ∈ xs, ∀ b b', f b x = .ok b' → μ b ≤ μ b')
    (hreaches : ∀ x ∈ xs, ∀ b b', f b x = .ok b' → Q x → n ≤ μ b') {b out : β}
    (hok : xs.foldlM f b = .ok out) : μ b ≤ μ out ∧ ((∃ x ∈ xs, Q x) → n ≤ μ out) := by
  induction xs generalizing b with
  | nil =>
      obtain rfl := pure_eq_ok.mp hok
      exact ⟨Nat.le_refl _, fun ⟨_, hmem, _⟩ => (by cases hmem)⟩
  | cons x xs ih =>
      rw [List.foldlM_cons] at hok
      obtain ⟨b', hstep, hrest⟩ := bind_eq_ok.mp hok
      have hx := List.mem_cons_self (a := x) (l := xs)
      obtain ⟨hle, hreach⟩ := ih (fun x' hmem => hgrows x' (List.mem_cons_of_mem _ hmem))
        (fun x' hmem => hreaches x' (List.mem_cons_of_mem _ hmem)) hrest
      refine ⟨Nat.le_trans (hgrows x hx b b' hstep) hle, ?_⟩
      rintro ⟨x', hmem, hq⟩
      rcases List.mem_cons.mp hmem with rfl | hmem
      · exact Nat.le_trans (hreaches x' hx b b' hstep hq) hle
      · exact hreach ⟨x', hmem, hq⟩

/-- No failure is one of `P`. -/
def Spares (P : ε → Prop) (x : Except ε α) : Prop :=
  ∀ e, x = .error e → ¬P e

namespace Spares

variable {P : ε → Prop}

theorem ok (a : α) : Spares P (.ok a : Except ε α) := by
  intro e h
  cases h

theorem error {e : ε} (he : ¬P e) : Spares P (.error e : Except ε α) := by
  intro e' h
  obtain rfl := Except.error.inj h
  exact he

theorem bind {x : Except ε α} {f : α → Except ε β} (hx : Spares P x)
    (hf : ∀ a, x = .ok a → Spares P (f a)) : Spares P (x >>= f) := by
  intro e h
  rcases bind_eq_error.mp h with h | ⟨a, hfirst, hrest⟩
  · exact hx e h
  · exact hf a hfirst e hrest

theorem mapM {f : α → Except ε β} {xs : List α} (hf : ∀ x ∈ xs, Spares P (f x)) :
    Spares P (xs.mapM f) := by
  induction xs with
  | nil => exact ok []
  | cons x xs ih =>
      rw [List.mapM_cons]
      refine bind (hf x (List.mem_cons_self ..)) fun y _ => ?_
      exact bind (ih fun x' hmem => hf x' (List.mem_cons_of_mem _ hmem)) fun ys _ => ok _

theorem foldlM {f : β → α → Except ε β} {xs : List α} (hf : ∀ b, ∀ x ∈ xs, Spares P (f b x))
    (b : β) : Spares P (xs.foldlM f b) := by
  induction xs generalizing b with
  | nil => exact ok b
  | cons x xs ih =>
      rw [List.foldlM_cons]
      refine bind (hf b x (List.mem_cons_self ..)) fun b' _ => ?_
      exact ih (fun b x' hmem => hf b x' (List.mem_cons_of_mem _ hmem)) b'

end Spares

end Telomere.Lib
