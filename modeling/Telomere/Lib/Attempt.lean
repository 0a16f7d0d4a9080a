import Mathlib.Algebra.Ring.Nat
import Mathlib.Data.List.Forall2

/-!
# Attempts

Computations that change a state and can fail, where what was changed before a failure stays. An
invariant and a relation between states are followed through a computation whether it fails or not.
-/

namespace Telomere.Lib

variable {σ ε α β : Type}

def Attempt (σ ε α : Type) := σ → Except ε α × σ

namespace Attempt

def bind (x : Attempt σ ε α) (f : α → Attempt σ ε β) : Attempt σ ε β := fun s =>
  match x s with
  | (.ok a, s') => f a s'
  | (.error e, s') => (.error e, s')

def fail (e : ε) : Attempt σ ε α := fun s => (.error e, s)

instance : Monad (Attempt σ ε) where
  pure a := fun s => (.ok a, s)
  bind := bind

def get : Attempt σ ε σ := fun s => (.ok s, s)

def modify (f : σ → σ) : Attempt σ ε Unit := fun s => (.ok (), f s)

/-- The results for the elements of a list, one after the other. -/
def each (f : α → Attempt σ ε β) : List α → Attempt σ ε (List β)
  | [] => pure []
  | x :: xs => do
      let y ← f x
      let ys ← each f xs
      return y :: ys

theorem bind_ok {x : Attempt σ ε α} {f : α → Attempt σ ε β} {s t : σ} {a : α}
    (h : x s = (.ok a, t)) : (x >>= f) s = f a t := by
  change bind x f s = f a t
  unfold bind
  rw [h]

theorem bind_error {x : Attempt σ ε α} {f : α → Attempt σ ε β} {s t : σ} {e : ε}
    (h : x s = (.error e, t)) : (x >>= f) s = (.error e, t) := by
  change bind x f s = (.error e, t)
  unfold bind
  rw [h]

theorem bind_assoc {γ : Type} (x : Attempt σ ε α) (f : α → Attempt σ ε β)
    (g : β → Attempt σ ε γ) : x >>= f >>= g = x >>= fun a => f a >>= g := by
  funext s
  rcases hrun : x s with ⟨outcome, t⟩
  cases outcome with
  | error e => rw [bind_error hrun, bind_error (bind_error hrun)]
  | ok a =>
      rw [bind_ok hrun]
      change bind (x >>= f) g s = bind (f a) g t
      unfold bind
      rw [bind_ok hrun]

end Attempt

/-- From this state: the invariant holds afterwards, the states are related, and `Q` holds of a
result. -/
structure Leads (I : σ → Prop) (G : σ → σ → Prop) (s : σ) (x : Attempt σ ε α)
    (Q : α → σ → Prop) : Prop where
  inv : I (x s).2
  grows : G s (x s).2
  post : ∀ a, (x s).1 = .ok a → Q a (x s).2

namespace Leads

variable {I : σ → Prop} {G : σ → σ → Prop} {s : σ}

theorem pure {Q : α → σ → Prop} {a : α} (hinv : I s) (hrefl : G s s) (hpost : Q a s) :
    Leads I G s (pure a : Attempt σ ε α) Q := by
  refine ⟨hinv, hrefl, fun b h => ?_⟩
  obtain rfl := Except.ok.inj h
  exact hpost

theorem fail {Q : α → σ → Prop} {e : ε} (hinv : I s) (hrefl : G s s) :
    Leads I G s (Attempt.fail e) Q :=
  ⟨hinv, hrefl, fun _ h => by cases h⟩

theorem bind (htrans : ∀ s t u, G s t → G t u → G s u) {x : Attempt σ ε α}
    {f : α → Attempt σ ε β} {R : α → σ → Prop} {Q : β → σ → Prop} (hx : Leads I G s x R)
    (hf : ∀ a t, I t → G s t → R a t → Leads I G t (f a) Q) : Leads I G s (x >>= f) Q := by
  obtain ⟨hinv, hgrows, hpost⟩ := hx
  rcases hrun : x s with ⟨outcome, t⟩
  rw [hrun] at hinv hgrows hpost
  cases outcome with
  | error e =>
      have hbind := Attempt.bind_error (f := f) hrun
      refine ⟨?_, ?_, ?_⟩
      · rw [hbind]
        exact hinv
      · rw [hbind]
        exact hgrows
      · intro b h
        rw [hbind] at h
        cases h
  | ok a =>
      have hbind := Attempt.bind_ok (f := f) hrun
      obtain ⟨hinv', hgrows', hpost'⟩ := hf a t hinv hgrows (hpost a rfl)
      refine ⟨?_, ?_, ?_⟩
      · rw [hbind]
        exact hinv'
      · rw [hbind]
        exact htrans s t _ hgrows hgrows'
      · rw [hbind]
        exact hpost'

theorem mono {x : Attempt σ ε α} {Q R : α → σ → Prop} (hx : Leads I G s x Q)
    (himp : ∀ a t, G s t → Q a t → R a t) : Leads I G s x R :=
  ⟨hx.inv, hx.grows, fun a h => himp a _ hx.grows (hx.post a h)⟩

theorem of_ok {x : Attempt σ ε α} {Q : α → σ → Prop} {a : α} {t : σ} (hrun : x s = (.ok a, t))
    (hinv : I t) (hgrows : G s t) (hpost : Q a t) : Leads I G s x Q := by
  refine ⟨?_, ?_, fun b h => ?_⟩
  · rw [hrun]
    exact hinv
  · rw [hrun]
    exact hgrows
  · rw [hrun] at h ⊢
    obtain rfl := Except.ok.inj h
    exact hpost

theorem of_error {x : Attempt σ ε α} {Q : α → σ → Prop} {e : ε} {t : σ}
    (hrun : x s = (.error e, t)) (hinv : I t) (hgrows : G s t) : Leads I G s x Q := by
  refine ⟨?_, ?_, fun b h => ?_⟩
  · rw [hrun]
    exact hinv
  · rw [hrun]
    exact hgrows
  · rw [hrun] at h
    cases h

theorem relate {H : σ → σ → Prop} {x : Attempt σ ε α} {Q : α → σ → Prop} (hx : Leads I G s x Q)
    (himp : ∀ t, G s t → H s t) : Leads I H s x Q :=
  ⟨hx.inv, himp _ hx.grows, hx.post⟩

theorem get_bind {f : σ → Attempt σ ε β} {Q : β → σ → Prop} (hf : Leads I G s (f s) Q) :
    Leads I G s (Attempt.get >>= f) Q :=
  ⟨hf.inv, hf.grows, hf.post⟩

theorem modify {f : σ → σ} {Q : Unit → σ → Prop} (hinv : I (f s)) (hgrows : G s (f s))
    (hpost : Q () (f s)) : Leads I G s (Attempt.modify f : Attempt σ ε Unit) Q :=
  ⟨hinv, hgrows, fun _ _ => hpost⟩

/-- What holds of one result goes on to hold while the others are found. -/
theorem each (hrefl : ∀ s, G s s) (htrans : ∀ s t u, G s t → G t u → G s u)
    {f : α → Attempt σ ε β} {R : α → β → σ → Prop}
    (hstable : ∀ {x y t u}, G t u → R x y t → R x y u) {xs : List α} (hinv : I s)
    (hf : ∀ x ∈ xs, ∀ t, I t → G s t → Leads I G t (f x) (R x)) :
    Leads I G s (Attempt.each f xs) fun ys t => List.Forall₂ (fun x y => R x y t) xs ys := by
  induction xs generalizing s with
  | nil => exact pure hinv (hrefl s) .nil
  | cons x xs ih =>
      refine bind htrans (hf x (List.mem_cons_self ..) s hinv (hrefl s)) ?_
      intro y t hinvt hgrows hy
      refine bind htrans (ih hinvt ?_) ?_
      · intro x' hmem u hinvu hgrows'
        exact hf x' (List.mem_cons_of_mem _ hmem) u hinvu (htrans s t u hgrows hgrows')
      · intro ys u hinvu hgrows' hys
        exact pure hinvu (hrefl u) (.cons (hstable hgrows' hy) hys)

end Leads

end Telomere.Lib
