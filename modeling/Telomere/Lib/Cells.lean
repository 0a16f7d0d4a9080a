import Mathlib.Data.List.Basic

/-!
# Runs of cells

A memory as a function from addresses to cells, with a run of cells read and written at once. What
lies outside of a write stays; what lies inside is the part of the list that was written there.
-/

namespace Telomere.Lib

variable {α : Type}

def peek (m : Nat → α) (addr n : Nat) : List α := (List.range n).map fun i => m (addr + i)

def poke (m : Nat → α) (addr : Nat) (xs : List α) : Nat → α :=
  fun i => if addr ≤ i then xs[i - addr]?.getD (m i) else m i

@[simp] theorem length_peek (m : Nat → α) (addr n : Nat) : (peek m addr n).length = n := by
  simp [peek]

theorem getElem?_peek (m : Nat → α) (addr n i : Nat) :
    (peek m addr n)[i]? = if i < n then some (m (addr + i)) else none := by
  by_cases h : i < n
  · simp [peek, h]
  · simp [peek, h]

theorem peek_congr {m m' : Nat → α} {addr n : Nat}
    (h : ∀ i, addr ≤ i → i < addr + n → m i = m' i) : peek m addr n = peek m' addr n := by
  refine List.map_congr_left fun i hmem => ?_
  have hlt := List.mem_range.mp hmem
  exact h (addr + i) (Nat.le_add_right _ _) (by omega)

theorem poke_below (m : Nat → α) {addr i : Nat} (xs : List α) (h : i < addr) :
    poke m addr xs i = m i := if_neg (by omega)

theorem poke_above (m : Nat → α) {addr i : Nat} {xs : List α} (h : addr + xs.length ≤ i) :
    poke m addr xs i = m i := by
  have hnone : xs[i - addr]? = none := List.getElem?_eq_none (by omega)
  simp [poke, hnone]

theorem poke_at (m : Nat → α) (addr : Nat) {xs : List α} {i : Nat} (h : i < xs.length) :
    poke m addr xs (addr + i) = xs[i] := by
  simp [poke, h]

@[simp] theorem poke_nil (m : Nat → α) (addr : Nat) : poke m addr [] = m := by
  funext i
  simp [poke]

theorem poke_peek_self (m : Nat → α) (addr n : Nat) : poke m addr (peek m addr n) = m := by
  funext i
  by_cases hbelow : i < addr
  · exact poke_below m _ hbelow
  · by_cases habove : addr + n ≤ i
    · exact poke_above m (by rwa [length_peek])
    · have hlt : i - addr < n := by omega
      have hle : addr ≤ i := by omega
      rw [poke, if_pos hle, getElem?_peek, if_pos hlt, Nat.add_sub_cancel' hle]
      rfl

theorem peek_poke (m : Nat → α) (addr : Nat) {xs : List α} {k n : Nat} (h : k + n ≤ xs.length) :
    peek (poke m addr xs) (addr + k) n = (xs.drop k).take n := by
  refine List.ext_getElem? fun i => ?_
  rw [getElem?_peek, List.getElem?_take, List.getElem?_drop]
  by_cases hi : i < n
  · have hlt : k + i < xs.length := by omega
    rw [if_pos hi, if_pos hi, Nat.add_assoc, poke_at m addr hlt, List.getElem?_eq_getElem hlt]
  · rw [if_neg hi, if_neg hi]

theorem peek_poke_self (m : Nat → α) (addr : Nat) (xs : List α) :
    peek (poke m addr xs) addr xs.length = xs := by
  have h := peek_poke m addr (show 0 + xs.length ≤ xs.length by omega)
  simpa using h

end Telomere.Lib
