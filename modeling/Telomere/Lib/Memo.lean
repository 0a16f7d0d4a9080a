import Telomere.Lib.State
import Mathlib.Data.Finset.Card
import Mathlib.Data.Finset.Range

/-!
# Recursions over numbered nodes

A recursion gives a node its value from the values of the nodes it refers to. Where references go
down in rank the recursion has one solution, found at a depth no smaller than the number of nodes.
Walks compute such values with the help of what earlier walks left behind.
-/

namespace Telomere.Lib

variable {σ ε α β ι : Type}

section recursion

variable {body : (Nat → α) → Nat → α} {dom : Nat → Prop} {rank : Nat → Nat}

/-- The recursion that `body` describes, followed down to a depth. -/
def unrolled (body : (Nat → α) → Nat → α) (cut : α) : Nat → Nat → α
  | 0, _ => cut
  | depth + 1, n => body (unrolled body cut depth) n

def Grounded (body : (Nat → α) → Nat → α) (dom : Nat → Prop) (rank : Nat → Nat) : Prop :=
  ∀ n, dom n → ∀ f g, (∀ m, dom m → rank m < rank n → f m = g m) → body f n = body g n

theorem Grounded.unrolled_stable (h : Grounded body dom rank) (cut : α) (depth depth' n : Nat)
    (hn : dom n) (hlt : rank n < depth) (hlt' : rank n < depth') :
    unrolled body cut depth n = unrolled body cut depth' n := by
  induction depth generalizing depth' n with
  | zero => omega
  | succ depth ih =>
      cases depth' with
      | zero => omega
      | succ depth' =>
          apply h n hn
          intro m hm hrank
          exact ih depth' m hm (by omega) (by omega)

theorem Grounded.unrolled_eq (h : Grounded body dom rank) (cut : α) {depth n : Nat} (hn : dom n)
    (hlt : rank n < depth) : unrolled body cut depth n = body (unrolled body cut depth) n := by
  have hsucc := h.unrolled_stable cut depth (depth + 1) n hn hlt (by omega)
  simpa only [unrolled] using hsucc

theorem Grounded.unique (h : Grounded body dom rank) {f g : Nat → α}
    (hf : ∀ n, dom n → f n = body f n) (hg : ∀ n, dom n → g n = body g n) (n : Nat) (hn : dom n) :
    f n = g n := by
  induction hk : rank n using Nat.strong_induction_on generalizing n with
  | _ k ih =>
      have hbelow : ∀ m, dom m → rank m < rank n → f m = g m := by
        intro m hm hrank
        exact ih (rank m) (by omega) m hm rfl
      calc f n = body f n := hf n hn
        _ = body g n := h n hn f g hbelow
        _ = g n := (hg n hn).symm

/-- How many nodes below `k` have a lower rank. -/
def height (rank : Nat → Nat) (k n : Nat) : Nat :=
  ((Finset.range k).filter fun m => rank m < rank n).card

theorem height_lt_height {k m n : Nat} (hm : m < k) (hlt : rank m < rank n) :
    height rank k m < height rank k n := by
  apply Finset.card_lt_card
  rw [Finset.ssubset_iff_of_subset]
  · refine ⟨m, ?_, ?_⟩ <;> simp [hm, hlt]
  · intro x hx
    simp only [Finset.mem_filter] at hx ⊢
    exact ⟨hx.1, hx.2.trans hlt⟩

theorem height_lt {k n : Nat} (hn : n < k) : height rank k n < k := by
  have hcard : height rank k n < (Finset.range k).card := by
    apply Finset.card_lt_card
    rw [Finset.ssubset_iff_of_subset (Finset.filter_subset ..)]
    refine ⟨n, ?_, ?_⟩ <;> simp [hn]
  simpa only [Finset.card_range] using hcard

end recursion

/-- From every state with `I` the run ends in one, with the value `a`. -/
def Gives (I : σ → Prop) (x : Run σ ε α) (a : α) : Prop :=
  ∀ s, I s → ∃ s', x s = .ok (a, s') ∧ I s'

namespace Gives

variable {I : σ → Prop}

theorem pure (a : α) : Gives I (pure a : Run σ ε α) a :=
  fun s hs => ⟨s, rfl, hs⟩

theorem bind {x : Run σ ε α} {f : α → Run σ ε β} {a : α} {b : β} (hx : Gives I x a)
    (hf : Gives I (f a) b) : Gives I (x >>= f) b := by
  intro s hs
  obtain ⟨s₁, hfirst, hs₁⟩ := hx s hs
  obtain ⟨s₂, hrest, hs₂⟩ := hf s₁ hs₁
  refine ⟨s₂, ?_, hs₂⟩
  rw [run_bind_eq_ok]
  exact ⟨a, s₁, hfirst, hrest⟩

theorem foldlM {step : β → α → β} {take : β → Run σ ε α → Run σ ε β}
    (htake : ∀ b x a, Gives I x a → Gives I (take b x) (step b a)) {xs : List (Run σ ε α)}
    {as : List α} (h : List.Forall₂ (Gives I) xs as) (b : β) :
    Gives I (xs.foldlM take b) (as.foldl step b) := by
  induction h generalizing b with
  | nil => exact pure b
  | cons hx _ ih =>
      rw [List.foldlM_cons, List.foldl_cons]
      exact bind (htake b _ _ hx) (ih _)

end Gives

end Telomere.Lib
