import Mathlib.Algebra.Ring.Nat
import Mathlib.Data.BitVec

/-!
# Little-endian numbers

A number of any width and the digits of `b` bits that hold it, the lowest first.
-/

namespace Telomere.Lib

variable {b width n i : Nat}

def leValue (width : Nat) : List (BitVec b) → BitVec width
  | [] => 0
  | d :: digits => d.setWidth width ||| leValue width digits <<< b

def leDigit (b : Nat) (value : BitVec width) (i : Nat) : BitVec b :=
  value.extractLsb' (b * i) b

def leDigits (b n : Nat) (value : BitVec width) : List (BitVec b) :=
  (List.range n).map (leDigit b value)

@[simp] theorem length_leDigits (value : BitVec width) : (leDigits b n value).length = n := by
  simp [leDigits]

theorem getElem?_leDigits (value : BitVec width) (hi : i < n) :
    (leDigits b n value)[i]? = some (leDigit b value i) := by
  simp [leDigits, hi]

theorem getLsbD_leValue (hb : 0 < b) (digits : List (BitVec b)) (hi : i < width) :
    (leValue width digits).getLsbD i = (digits.getD (i / b) 0).getLsbD (i % b) := by
  induction digits generalizing i with
  | nil => simp [leValue]
  | cons d digits ih =>
      rw [leValue, BitVec.getLsbD_or, BitVec.getLsbD_setWidth, BitVec.getLsbD_shiftLeft]
      by_cases hfirst : i < b
      · have hdiv : i / b = 0 := Nat.div_eq_of_lt hfirst
        have hmod : i % b = i := Nat.mod_eq_of_lt hfirst
        simp [hdiv, hmod, hi, hfirst]
      · have hle : b ≤ i := Nat.le_of_not_lt hfirst
        have hdiv : i / b = (i - b) / b + 1 := Nat.div_eq_sub_div hb hle
        have hmod : i % b = (i - b) % b := Nat.mod_eq_sub_mod hle
        have hhigh : d.getLsbD i = false := BitVec.getLsbD_of_ge d i hle
        rw [ih (by omega), hdiv, hmod]
        simp [hi, hfirst, hhigh]

theorem leValue_leDigits {w : Nat} (hb : 0 < b) (value : BitVec w) (hwidth : width ≤ b * n) :
    leValue width (leDigits b n value) = value.setWidth width := by
  apply BitVec.eq_of_getLsbD_eq
  intro i hi
  have hdigit : i / b < n := Nat.div_lt_of_lt_mul (by omega)
  have hplace : b * (i / b) + i % b = i := Nat.div_add_mod i b
  rw [getLsbD_leValue hb _ hi, List.getD_eq_getElem?_getD, getElem?_leDigits value hdigit,
    Option.getD_some, leDigit, BitVec.getLsbD_extractLsb', hplace]
  simp [Nat.mod_lt _ hb, hi]

theorem leDigits_leValue (hb : 0 < b) {digits : List (BitVec b)} (hlen : digits.length = n)
    (hwidth : b * n ≤ width) : leDigits b n (leValue width digits) = digits := by
  refine List.ext_getElem? fun k => ?_
  by_cases hk : k < n
  · have hget : digits[k]? = some digits[k] := List.getElem?_eq_getElem (by omega)
    rw [getElem?_leDigits _ hk, hget]
    congr 1
    apply BitVec.eq_of_getLsbD_eq
    intro i hi
    have hplace : b * k + i < width := by
      have hstep : b * (k + 1) ≤ b * n := Nat.mul_le_mul_left b hk
      rw [Nat.mul_succ] at hstep
      omega
    have hdiv : (b * k + i) / b = k := by
      rw [Nat.mul_add_div hb, Nat.div_eq_of_lt hi, Nat.add_zero]
    have hmod : (b * k + i) % b = i := by
      rw [Nat.mul_add_mod, Nat.mod_eq_of_lt hi]
    rw [leDigit, BitVec.getLsbD_extractLsb', getLsbD_leValue hb _ hplace, hdiv, hmod,
      List.getD_eq_getElem?_getD, hget, Option.getD_some]
    simp [hi]
  · have hleft : (leDigits b n (leValue width digits))[k]? = none :=
      List.getElem?_eq_none (by rw [length_leDigits]; omega)
    rw [hleft, List.getElem?_eq_none (by omega)]

end Telomere.Lib
