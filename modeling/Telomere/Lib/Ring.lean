import Mathlib.Data.List.Induction

/-!
# Rings

A ring keeps the last few of the values pushed into it, in slots that are taken in turn. Read from its
oldest slot it gives them in the order they came.
-/

namespace Telomere.Lib

variable {α : Type}

structure Ring (α : Type) where
  slots : List (Option α)
  next : Nat
  len : Nat

namespace Ring

def empty (size : Nat) : Ring α := ⟨List.replicate size none, 0, 0⟩

def push (r : Ring α) (x : α) : Ring α :=
  let size := r.slots.length
  ⟨r.slots.set r.next (some x), (r.next + 1) % size, min (r.len + 1) size⟩

def start (r : Ring α) : Nat := if r.len = r.slots.length then r.next else 0

/-- The values from the oldest on; there is no result when a slot that is read is empty. -/
def toList (r : Ring α) : Option (List α) :=
  (List.range r.len).mapM fun offset => (r.slots[(r.start + offset) % r.slots.length]?).join

theorem mapM_range {f : Nat → Option α} {ys : List α} (h : ∀ i < ys.length, f i = ys[i]?) :
    (List.range ys.length).mapM f = some ys := by
  induction ys using List.reverseRecOn with
  | nil => rfl
  | append_singleton ys y ih =>
      rw [List.length_append, List.length_singleton] at h
      have hinit : (List.range ys.length).mapM f = some ys := by
        refine ih fun i hi => ?_
        rw [h i (by omega), List.getElem?_append_left hi]
      have hlast : f ys.length = some y := by
        rw [h _ (by omega)]
        exact List.getElem?_concat_length
      rw [List.length_append, List.length_singleton, List.range_succ, List.mapM_append, hinit]
      simp [hlast]

/-- The ring after the values of a list: each of the last ones is in the slot of its place. -/
structure Holds (r : Ring α) (size : Nat) (xs : List α) : Prop where
  length : r.slots.length = size
  next : r.next = xs.length % size
  len : r.len = min xs.length size
  slots : ∀ j (h : j < xs.length), xs.length ≤ j + size → r.slots[j % size]? = some (some xs[j])

theorem holds_empty (size : Nat) : Holds (empty size : Ring α) size [] where
  length := List.length_replicate
  next := by simp [empty]
  len := by simp [empty]
  slots := by simp

theorem mod_ne_of_near {size i n : Nat} (hlt : i < n) (hnear : n < i + size) :
    i % size ≠ n % size := by
  intro heq
  have hi := Nat.div_add_mod i size
  have hn := Nat.div_add_mod n size
  rw [heq] at hi
  have hle : i / size ≤ n / size := Nat.div_le_div_right (Nat.le_of_lt hlt)
  obtain ⟨k, hk⟩ := Nat.exists_eq_add_of_le hle
  rw [hk, Nat.mul_add] at hn
  cases k with
  | zero => simp at hn; omega
  | succ k =>
      rw [Nat.mul_add, Nat.mul_one] at hn
      have hpos := Nat.zero_le (size * k)
      omega

theorem Holds.push {r : Ring α} {size : Nat} {xs : List α} (hsize : 0 < size)
    (h : Holds r size xs) (x : α) : Holds (r.push x) size (xs ++ [x]) where
  length := by simp [Ring.push, h.length]
  next := by simp [Ring.push, h.length, h.next]
  len := by
    simp only [Ring.push, h.length, h.len, List.length_append, List.length_singleton]
    omega
  slots := by
    intro j hj hlast
    rw [List.length_append, List.length_singleton] at hj hlast
    have hnext : r.next < r.slots.length := by
      rw [h.next, h.length]
      exact Nat.mod_lt _ hsize
    by_cases hnew : j = xs.length
    · subst hnew
      simp only [Ring.push, ← h.next]
      simp [List.getElem?_set_self hnext]
    · have hold : j < xs.length := by omega
      have hne : r.next ≠ j % size := by
        rw [h.next]
        exact Ne.symm (mod_ne_of_near hold (by omega))
      simp only [Ring.push]
      rw [List.getElem?_set_ne hne, h.slots j hold (by omega), List.getElem_append_left hold]

theorem Holds.toList {r : Ring α} {size : Nat} {xs : List α} (h : Holds r size xs) :
    r.toList = some (xs.drop (xs.length - size)) := by
  have hstart : ∀ offset, offset < r.len →
      (r.start + offset) % size = (xs.length - size + offset) % size := by
    intro offset hoffset
    rw [start, h.length]
    by_cases hfull : size ≤ xs.length
    · rw [if_pos (by rw [h.len]; omega), h.next]
      obtain ⟨rest, hrest⟩ := Nat.exists_eq_add_of_le hfull
      rw [hrest, Nat.add_sub_cancel_left, Nat.add_mod_left, Nat.mod_add_mod]
    · rw [if_neg (by rw [h.len]; omega), Nat.sub_eq_zero_of_le (by omega)]
  have hslot : ∀ offset ∈ List.range r.len,
      (r.slots[(r.start + offset) % r.slots.length]?).join = xs[xs.length - size + offset]? := by
    intro offset hmem
    have hoffset := List.mem_range.mp hmem
    have hlen := h.len
    have hin : xs.length - size + offset < xs.length := by omega
    rw [h.length, hstart offset hoffset, h.slots _ hin (by omega), List.getElem?_eq_getElem hin]
    rfl
  have hlength : r.len = (xs.drop (xs.length - size)).length := by
    rw [h.len, List.length_drop]
    omega
  rw [Ring.toList, hlength]
  refine mapM_range fun offset hoffset => ?_
  rw [hslot offset (by rw [List.mem_range]; omega), List.getElem?_drop]

end Ring

end Telomere.Lib
