import Telomere.Lib.Except

/-!
# Runs with a state

Inversion of sequenced computations that carry a state and can fail. A relation between states that
every step keeps is kept by the whole.
-/

namespace Telomere.Lib

variable {σ ε α β ι : Type}

abbrev Run (σ ε : Type) := StateT σ (Except ε)

theorem run_bind_eq_ok {x : Run σ ε α} {f : α → Run σ ε β} {s : σ} {r : β × σ} :
    (x >>= f) s = .ok r ↔ ∃ a s', x s = .ok (a, s') ∧ f a s' = .ok r := by
  change (x s >>= fun p => f p.1 p.2) = .ok r ↔ _
  rw [bind_eq_ok]
  exact Prod.exists

theorem run_pure_eq_ok {a b : α} {s s' : σ} :
    (pure a : Run σ ε α) s = .ok (b, s') ↔ a = b ∧ s = s' := by
  change (Except.ok (a, s) : Except ε (α × σ)) = .ok (b, s') ↔ _
  rw [Except.ok.injEq, Prod.mk.injEq]

theorem run_lift_eq_ok {x : Except ε α} {a : α} {s s' : σ} :
    (liftM x : Run σ ε α) s = .ok (a, s') ↔ x = .ok a ∧ s = s' := by
  cases x with
  | error e =>
      constructor
      · intro h
        cases h
      · rintro ⟨h, -⟩
        cases h
  | ok b =>
      change (Except.ok (b, s) : Except ε (α × σ)) = .ok (a, s') ↔ _
      rw [Except.ok.injEq, Prod.mk.injEq, Except.ok.injEq]

/-- A successful run relates the state it starts in to the state it ends in. -/
def Keeps (R : σ → σ → Prop) (x : Run σ ε α) : Prop :=
  ∀ s a s', x s = .ok (a, s') → R s s'

namespace Keeps

variable {R : σ → σ → Prop}

theorem pure (hrefl : ∀ s, R s s) (a : α) : Keeps R (pure a : Run σ ε α) := by
  intro s b s' h
  obtain ⟨-, rfl⟩ := run_pure_eq_ok.mp h
  exact hrefl s

theorem throw (e : ε) : Keeps R (throw e : Run σ ε α) := by
  intro s a s' h
  cases h

theorem lift (hrefl : ∀ s, R s s) (x : Except ε α) : Keeps R (liftM x : Run σ ε α) := by
  intro s a s' h
  obtain ⟨-, rfl⟩ := run_lift_eq_ok.mp h
  exact hrefl s

theorem bind (htrans : ∀ s t u, R s t → R t u → R s u) {x : Run σ ε α} {f : α → Run σ ε β}
    (hx : Keeps R x) (hf : ∀ a, Keeps R (f a)) : Keeps R (x >>= f) := by
  intro s b s' h
  obtain ⟨a, t, hfirst, hrest⟩ := run_bind_eq_ok.mp h
  exact htrans s t s' (hx s a t hfirst) (hf a t b s' hrest)

end Keeps

/-- The run ends with `Q`, or fails in one of the ways `F`. -/
def Yields (F : ε → Prop) (x : Run σ ε α) (s : σ) (Q : α → σ → Prop) : Prop :=
  match x s with
  | .ok (a, s') => Q a s'
  | .error e => F e

namespace Yields

variable {F : ε → Prop} {s : σ} {Q R : α → σ → Prop}

theorem of_ok {x : Run σ ε α} {a : α} {s' : σ} (hok : x s = .ok (a, s')) (hq : Q a s') :
    Yields F x s Q := by
  unfold Yields
  rw [hok]
  exact hq

theorem pure {a : α} (hq : Q a s) : Yields F (pure a : Run σ ε α) s Q := hq

theorem mono {x : Run σ ε α} (hx : Yields F x s Q) (h : ∀ a s', Q a s' → R a s') :
    Yields F x s R := by
  unfold Yields at hx ⊢
  split at hx
  · exact h _ _ hx
  · exact hx

theorem bind {x : Run σ ε α} {f : α → Run σ ε β} {P : β → σ → Prop} (hx : Yields F x s Q)
    (hf : ∀ a s', Q a s' → Yields F (f a) s' P) : Yields F (x >>= f) s P := by
  have hrun : (x >>= f) s = (x s >>= fun r => f r.1 r.2) := rfl
  unfold Yields at hx ⊢
  rw [hrun]
  cases hfirst : x s with
  | error e =>
      rw [hfirst] at hx
      exact hx
  | ok r =>
      rw [hfirst] at hx
      exact hf r.1 r.2 hx

theorem ok_bind {x : Run σ ε α} {f : α → Run σ ε β} {P : β → σ → Prop} {a : α} {s' : σ}
    (hok : x s = .ok (a, s')) (hf : Yields F (f a) s' P) : Yields F (x >>= f) s P := by
  refine bind (of_ok (Q := fun b t => b = a ∧ t = s') hok ⟨rfl, rfl⟩) ?_
  rintro _ _ ⟨rfl, rfl⟩
  exact hf

end Yields

theorem lift_ok_bind {a : α} {f : α → Run σ ε β} :
    (liftM (Except.ok a : Except ε α) >>= f : Run σ ε β) = f a := rfl

/-- In no state the failure is one of `P`. -/
def RunSpares (P : ε → Prop) (x : Run σ ε α) : Prop :=
  ∀ s, Spares P (x s)

namespace RunSpares

variable {P : ε → Prop}

theorem pure (a : α) : RunSpares P (pure a : Run σ ε α) :=
  fun s => Spares.ok (a, s)

theorem throw {e : ε} (he : ¬P e) : RunSpares P (throw e : Run σ ε α) :=
  fun _ => Spares.error he

theorem lift {x : Except ε α} (hx : Spares P x) : RunSpares P (liftM x : Run σ ε α) := by
  intro s
  cases x with
  | error e => exact Spares.error (hx e rfl)
  | ok a => exact Spares.ok (a, s)

theorem bind {x : Run σ ε α} {f : α → Run σ ε β} (hx : RunSpares P x)
    (hf : ∀ a s s', x s = .ok (a, s') → RunSpares P (f a)) : RunSpares P (x >>= f) := by
  intro s
  change Spares P (x s >>= fun r => f r.1 r.2)
  refine Spares.bind (hx s) ?_
  rintro ⟨a, s'⟩ hfirst
  exact hf a s s' hfirst s'

theorem mapM {f : α → Run σ ε β} {xs : List α} (hf : ∀ x ∈ xs, RunSpares P (f x)) :
    RunSpares P (xs.mapM f) := by
  induction xs with
  | nil => exact pure []
  | cons x xs ih =>
      rw [List.mapM_cons]
      refine bind (hf x (List.mem_cons_self ..)) fun y _ _ _ => ?_
      exact bind (ih fun x' hmem => hf x' (List.mem_cons_of_mem _ hmem)) fun ys _ _ _ => pure _

end RunSpares

end Telomere.Lib
