import Mathlib.Data.BitVec
import Mathlib.Data.Int.Order.Basic

/-!
# Byte memory of a 64-bit machine

Words are kept in little-endian order. Places are told by their distance from a base, so that a
frame of memory can be spoken of wherever it lies, also across the end of the address space.
-/

namespace Telomere.Lib

abbrev Word := BitVec 64

abbrev Bytes := Word → BitVec 8

namespace Bytes

def place (base : Word) (distance : Int) : Word := base + BitVec.ofInt 64 distance

def byteOf (value : Word) (k : Nat) : BitVec 8 := value.extractLsb' (8 * k) 8

/-- The low `n` bytes of a word are written. -/
def store (mem : Bytes) (a : Word) (n : Nat) (value : Word) : Bytes := fun x =>
  if (x - a).toNat < n then byteOf value (x - a).toNat else mem x

/-- A word of `n` bytes, with zeros above. -/
def load (mem : Bytes) (a : Word) : Nat → Word
  | 0 => 0
  | n + 1 => load mem (a + 1) n <<< 8 ||| (mem a).setWidth 64

theorem getLsbD_load (mem : Bytes) (a : Word) (n i : Nat) (hn : n ≤ 8) :
    (load mem a n).getLsbD i =
      (decide (i < 8 * n) && (mem (a + BitVec.ofNat 64 (i / 8))).getLsbD (i % 8)) := by
  induction n generalizing a i with
  | zero => simp [load]
  | succ n ih =>
      unfold load
      rw [BitVec.getLsbD_or, BitVec.getLsbD_shiftLeft, BitVec.getLsbD_setWidth, ih _ _ (by omega)]
      by_cases hlow : i < 8
      · have hdiv : i / 8 = 0 := by omega
        have hmod : i % 8 = i := by omega
        have hlt : i < 8 * (n + 1) := by omega
        have hwide : i < 64 := by omega
        simp [hlow, hdiv, hmod, hlt, hwide]
      · have hdiv : i / 8 = (i - 8) / 8 + 1 := by omega
        have hmod : i % 8 = (i - 8) % 8 := by omega
        have hplace : a + 1 + BitVec.ofNat 64 ((i - 8) / 8) = a + BitVec.ofNat 64 (i / 8) := by
          rw [hdiv, BitVec.ofNat_add, BitVec.add_assoc, BitVec.add_comm 1]
          rfl
        have hhigh : (mem a).getLsbD i = false := BitVec.getLsbD_of_ge _ _ (by omega)
        rw [hplace, ← hmod]
        by_cases hlt : i < 8 * (n + 1)
        · have hbelow : i - 8 < 8 * n := by omega
          have hwide : i < 64 := by omega
          simp [hlow, hlt, hbelow, hwide, hhigh]
        · have hbelow : ¬i - 8 < 8 * n := by omega
          simp [hlt, hbelow, hhigh]

theorem load_congr {mem mem' : Bytes} {a : Word} {n : Nat} (hn : n ≤ 8)
    (h : ∀ k < n, mem (a + BitVec.ofNat 64 k) = mem' (a + BitVec.ofNat 64 k)) :
    load mem a n = load mem' a n := by
  apply BitVec.eq_of_getLsbD_eq
  intro i _
  rw [getLsbD_load mem a n i hn, getLsbD_load mem' a n i hn]
  by_cases hlt : i < 8 * n
  · rw [h (i / 8) (by omega)]
  · simp [hlt]

theorem load_store (mem : Bytes) (a value : Word) : load (store mem a 8 value) a 8 = value := by
  apply BitVec.eq_of_getLsbD_eq
  intro i hi
  have hoffset : (a + BitVec.ofNat 64 (i / 8) - a).toNat = i / 8 := by
    rw [BitVec.add_comm, BitVec.add_sub_cancel, BitVec.toNat_ofNat]
    omega
  rw [getLsbD_load _ _ _ _ (Nat.le_refl 8)]
  unfold store byteOf
  rw [hoffset, if_pos (by omega), BitVec.getLsbD_extractLsb']
  have hmod : i % 8 < 8 := Nat.mod_lt i (by decide)
  have hsum : 8 * (i / 8) + i % 8 = i := Nat.div_add_mod i 8
  simp [hi, hmod, hsum]

theorem place_add (base : Word) (distance : Int) (k : Nat) :
    place base distance + BitVec.ofNat 64 k = place base (distance + k) := by
  unfold place
  rw [BitVec.ofInt_add, BitVec.add_assoc]
  congr 2

@[simp] theorem place_zero (base : Word) : place base 0 = base := by simp [place]

@[simp] theorem place_place (base : Word) (i j : Int) :
    place (place base i) j = place base (i + j) := by
  unfold place
  rw [BitVec.ofInt_add, BitVec.add_assoc]

theorem toNat_place_sub (base : Word) (i j : Int) :
    (place base i - place base j).toNat = ((i - j) % 2 ^ 64).toNat := by
  have hsub : place base i - place base j = BitVec.ofInt 64 (i - j) := by
    unfold place
    rw [add_sub_add_left_eq_sub, Int.sub_eq_add_neg, BitVec.ofInt_add, BitVec.ofInt_neg,
      BitVec.sub_eq_add_neg]
  rw [hsub, BitVec.toNat_ofInt]
  rfl

theorem store_place_of_ne (mem : Bytes) (base value : Word) {i j : Int} {n : Nat}
    (hout : i < j ∨ j + n ≤ i) (hnear : -(2 ^ 32) ≤ i - j ∧ i - j ≤ 2 ^ 32) (hn : n ≤ 2 ^ 32) :
    store mem (place base j) n value (place base i) = mem (place base i) := by
  unfold store
  rw [toNat_place_sub, if_neg]
  omega

theorem load_place_congr {mem mem' : Bytes} {base : Word} {i : Int} {n : Nat} (hn : n ≤ 8)
    (h : ∀ k : Nat, k < n → mem (place base (i + k)) = mem' (place base (i + k))) :
    load mem (place base i) n = load mem' (place base i) n := by
  apply load_congr hn
  intro k hk
  rw [place_add]
  exact h k hk

theorem load_store_of_ne (mem : Bytes) (base value : Word) {i j : Int} {n : Nat}
    (hout : i + 8 ≤ j ∨ j + n ≤ i) (hnear : -(2 ^ 31) ≤ i - j ∧ i - j ≤ 2 ^ 31) (hn : n ≤ 2 ^ 31) :
    load (store mem (place base j) n value) (place base i) 8 = load mem (place base i) 8 := by
  apply load_place_congr (Nat.le_refl 8)
  intro k hk
  apply store_place_of_ne <;> omega

end Bytes

end Telomere.Lib
