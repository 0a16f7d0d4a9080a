import Mathlib.Data.BitVec
import Mathlib.Tactic.IntervalCases

/-!
# Words in byte buffers

A buffer is a list of bytes. A slice of it is overwritten in place, and four of its bytes are read as a
word, the lowest first.
-/

namespace Telomere.Lib

variable {α : Type}

/-- The buffer with a slice replaced by as many values, where it has them. -/
def overwrite (xs : List α) (start : Nat) (new : List α) : List α :=
  xs.take start ++ new ++ xs.drop (start + new.length)

section overwrite

variable {xs new : List α} {start i : Nat}

theorem length_overwrite (h : start + new.length ≤ xs.length) :
    (overwrite xs start new).length = xs.length := by
  rw [overwrite, List.length_append, List.length_append, List.length_take, List.length_drop]
  omega

theorem overwrite_below (h : start + new.length ≤ xs.length) (hi : i < start) :
    (overwrite xs start new)[i]? = xs[i]? := by
  have htake : (xs.take start).length = start := List.length_take_of_le (by omega)
  rw [overwrite, List.append_assoc, List.getElem?_append_left (by omega), List.getElem?_take_of_lt hi]

theorem overwrite_at (h : start + new.length ≤ xs.length) (hi : i < new.length) :
    (overwrite xs start new)[start + i]? = new[i]? := by
  have htake : (xs.take start).length = start := List.length_take_of_le (by omega)
  rw [overwrite, List.append_assoc, List.getElem?_append_right (by omega), htake,
    Nat.add_sub_cancel_left, List.getElem?_append_left hi]

theorem overwrite_above (h : start + new.length ≤ xs.length) (hi : start + new.length ≤ i) :
    (overwrite xs start new)[i]? = xs[i]? := by
  have htake : (xs.take start ++ new).length = start + new.length := by
    rw [List.length_append, List.length_take_of_le (by omega)]
  rw [overwrite, List.getElem?_append_right (by omega), htake, List.getElem?_drop]
  exact congrArg (xs[·]?) (by omega)

theorem overwrite_nil : overwrite xs start [] = xs := by
  simp [overwrite]

theorem overwrite_concat {x : α} (h : start + new.length < xs.length) :
    overwrite xs start (new ++ [x]) = (overwrite xs start new).set (start + new.length) x := by
  have htake : (xs.take start ++ new).length = start + new.length := by
    rw [List.length_append, List.length_take_of_le (by omega)]
  have hnext : xs.drop (start + new.length) = xs[start + new.length] ::
      xs.drop (start + new.length + 1) := List.drop_eq_getElem_cons h
  rw [overwrite, overwrite, hnext, List.set_append_right _ _ (by omega), htake, Nat.sub_self,
    List.set_cons_zero, List.length_append, List.length_singleton, ← Nat.add_assoc]
  simp

end overwrite

theorem modify_of_fixed {f : α → α} {xs : List α} {i : Nat} {x : α} (hx : xs[i]? = some x)
    (hf : f x = x) : xs.modify i f = xs := by
  apply List.ext_getElem?
  intro j
  rw [List.getElem?_modify]
  by_cases hij : i = j
  · subst hij
    simp [hx, hf]
  · simp [hij]

def wordBytes (w : BitVec 32) : List (BitVec 8) :=
  [w.extractLsb' 0 8, w.extractLsb' 8 8, w.extractLsb' 16 8, w.extractLsb' 24 8]

@[simp] theorem length_wordBytes (w : BitVec 32) : (wordBytes w).length = 4 := rfl

def joinBytes (b₀ b₁ b₂ b₃ : BitVec 8) : BitVec 32 :=
  b₀.setWidth 32 ||| b₁.setWidth 32 <<< 8 ||| b₂.setWidth 32 <<< 16 ||| b₃.setWidth 32 <<< 24

theorem joinBytes_wordBytes (w : BitVec 32) :
    joinBytes (w.extractLsb' 0 8) (w.extractLsb' 8 8) (w.extractLsb' 16 8) (w.extractLsb' 24 8) = w := by
  apply BitVec.eq_of_getLsbD_eq
  intro i hi
  interval_cases i <;> simp [joinBytes]

def wordAt (xs : List (BitVec 8)) (start : Nat) : Option (BitVec 32) :=
  match xs[start]?, xs[start + 1]?, xs[start + 2]?, xs[start + 3]? with
  | some b₀, some b₁, some b₂, some b₃ => some (joinBytes b₀ b₁ b₂ b₃)
  | _, _, _, _ => none

section wordAt

variable {xs ys : List (BitVec 8)} {start place : Nat} {w : BitVec 32}

theorem wordAt_congr (h : ∀ i, start ≤ i → i < start + 4 → ys[i]? = xs[i]?) :
    wordAt ys start = wordAt xs start := by
  rw [wordAt, wordAt, h start (by omega) (by omega), h (start + 1) (by omega) (by omega),
    h (start + 2) (by omega) (by omega), h (start + 3) (by omega) (by omega)]

theorem wordAt_overwrite (h : start + 4 ≤ xs.length) :
    wordAt (overwrite xs start (wordBytes w)) start = some w := by
  have hbyte : ∀ i < 4, (overwrite xs start (wordBytes w))[start + i]? = (wordBytes w)[i]? :=
    fun i hi => overwrite_at h hi
  have hfirst := hbyte 0 (by decide)
  rw [Nat.add_zero] at hfirst
  rw [wordAt, hfirst, hbyte 1 (by decide), hbyte 2 (by decide), hbyte 3 (by decide)]
  exact congrArg some (joinBytes_wordBytes w)

theorem wordAt_append (xs ys : List (BitVec 8)) (w : BitVec 32) :
    wordAt (xs ++ (wordBytes w ++ ys)) xs.length = some w := by
  have hbyte : ∀ i < 4, (xs ++ (wordBytes w ++ ys))[xs.length + i]? = (wordBytes w)[i]? := by
    intro i hi
    rw [List.getElem?_append_right (by omega), Nat.add_sub_cancel_left,
      List.getElem?_append_left hi]
  have hfirst := hbyte 0 (by decide)
  rw [Nat.add_zero] at hfirst
  rw [wordAt, hfirst, hbyte 1 (by decide), hbyte 2 (by decide), hbyte 3 (by decide)]
  exact congrArg some (joinBytes_wordBytes w)

theorem length_of_wordAt (h : wordAt xs start = some w) : start + 4 ≤ xs.length := by
  rw [wordAt] at h
  split at h
  next hlast =>
    have hlt := (List.getElem?_eq_some_iff.mp hlast).1
    omega
  · cases h

theorem wordAt_overwrite_of_apart (h : start + 4 ≤ xs.length)
    (happart : place + 4 ≤ start ∨ start + 4 ≤ place) :
    wordAt (overwrite xs start (wordBytes w)) place = wordAt xs place := by
  refine wordAt_congr fun i hle hlt => ?_
  obtain hbelow | habove := happart
  · exact overwrite_below h (by omega)
  · exact overwrite_above h (by rw [length_wordBytes]; omega)

end wordAt

end Telomere.Lib
