import Telomere.Lib.LittleEndian
import Telomere.Lib.Slices

/-!
# Lanes

A number in digits and in wider digits of `n` of them each: a wide digit is a run of narrow ones.
-/

namespace Telomere.Lib

variable {b n width : Nat}

/-- The number with one digit of `b` bits replaced. -/
def withDigit (value : BitVec width) (digit : Nat) (new : BitVec b) : BitVec width :=
  leValue width ((leDigits b (width / b) value).set digit new)

theorem getLsbD_leDigit (value : BitVec width) {k i : Nat} (hi : i < b) :
    (leDigit b value k).getLsbD i = value.getLsbD (b * k + i) := by
  simp [leDigit, hi]

theorem leDigit_leDigit (value : BitVec width) (j : Nat) {k : Nat} (hk : k < n) :
    leDigit b (leDigit (b * n) value j) k = leDigit b value (j * n + k) := by
  apply BitVec.eq_of_getLsbD_eq
  intro i hi
  have hin : b * k + i < b * n := by
    have hstep : b * (k + 1) ≤ b * n := Nat.mul_le_mul_left b hk
    rw [Nat.mul_succ] at hstep
    omega
  rw [getLsbD_leDigit _ hi, getLsbD_leDigit _ hin, getLsbD_leDigit _ hi, ← Nat.add_assoc]
  congr 2
  rw [Nat.mul_add, Nat.mul_comm j n, Nat.mul_assoc]

theorem leDigits_run (value : BitVec width) {m j : Nat} (hfit : j * n + n ≤ m) :
    ((leDigits b m value).drop (j * n)).take n = leDigits b n (leDigit (b * n) value j) := by
  refine List.ext_getElem? fun k => ?_
  by_cases hk : k < n
  · rw [List.getElem?_take_of_lt hk, List.getElem?_drop, getElem?_leDigits value (by omega),
      getElem?_leDigits _ hk, leDigit_leDigit value j hk]
  · rw [List.getElem?_eq_none (by rw [List.length_take]; omega),
      List.getElem?_eq_none (by rw [length_leDigits]; omega)]

theorem leValue_overwrite (hb : 0 < b) (hn : 0 < n) {l j : Nat} (hj : j < l) (hwidth : width = b * n * l)
    (value : BitVec width) {new : List (BitVec b)} (hlen : new.length = n) :
    leValue width (overwrite (leDigits b (n * l) value) (j * n) new) =
      withDigit value j (leValue (b * n) new) := by
  have hbn : 0 < b * n := Nat.mul_pos hb hn
  have hcount : width / (b * n) = l := by rw [hwidth, Nat.mul_div_cancel_left l hbn]
  have hfit : j * n + new.length ≤ (leDigits b (n * l) value).length := by
    have hstep : (j + 1) * n ≤ l * n := Nat.mul_le_mul_right n hj
    rw [length_leDigits, hlen, Nat.mul_comm n l]
    rwa [Nat.succ_mul] at hstep
  apply BitVec.eq_of_getLsbD_eq
  intro i hi
  have hnarrow : i / b < n * l := Nat.div_lt_of_lt_mul (by rwa [← Nat.mul_assoc, ← hwidth])
  have hwide : i / (b * n) < l := Nat.div_lt_of_lt_mul (hwidth ▸ hi)
  have hquot : i / (b * n) = i / b / n := (Nat.div_div_eq_div_mul i b n).symm
  have hrest : i % (b * n) / b = i / b % n := Nat.mod_mul_right_div_self i b n
  have hmod : i % (b * n) % b = i % b := Nat.mod_mul_right_mod i b n
  rw [withDigit, getLsbD_leValue hb _ hi, getLsbD_leValue hbn _ hi, hcount,
    List.getD_eq_getElem?_getD, List.getD_eq_getElem?_getD, List.getElem?_set]
  by_cases hin : i / (b * n) = j
  · have hplace : i / b = j * n + i / b % n := by
      rw [hquot] at hin
      rw [← hin, Nat.mul_comm]
      exact (Nat.div_add_mod (i / b) n).symm
    have hlt : i / b % n < new.length := by
      rw [hlen]
      exact Nat.mod_lt _ hn
    rw [if_pos hin.symm, if_pos (by rw [length_leDigits]; omega), hplace, overwrite_at hfit hlt,
      Option.getD_some, getLsbD_leValue hb new (Nat.mod_lt i hbn), hrest, hmod,
      List.getD_eq_getElem?_getD]
  · have hkeep : (overwrite (leDigits b (n * l) value) (j * n) new)[i / b]? =
        (leDigits b (n * l) value)[i / b]? := by
      have hne : i / b / n ≠ j := hquot ▸ hin
      rcases Nat.lt_or_gt_of_ne hne with hlow | hhigh
      · exact overwrite_below hfit (Nat.lt_of_div_lt_div (by rwa [Nat.mul_div_cancel _ hn]))
      · refine overwrite_above hfit ?_
        rw [hlen, ← Nat.succ_mul]
        exact (Nat.le_div_iff_mul_le hn).mp hhigh
    rw [if_neg (Ne.symm hin), hkeep, getElem?_leDigits value hnarrow, getElem?_leDigits value hwide,
      Option.getD_some, Option.getD_some, getLsbD_leDigit _ (Nat.mod_lt i hb),
      getLsbD_leDigit _ (Nat.mod_lt i hbn), Nat.div_add_mod, Nat.div_add_mod]

theorem withDigit_inj (hb : 0 < b) {j : Nat} (hj : j < width / b) (value : BitVec width)
    {new new' : BitVec b} (h : withDigit value j new = withDigit value j new') : new = new' := by
  have hread (d : BitVec b) : leDigits b (width / b) (withDigit value j d) =
      (leDigits b (width / b) value).set j d := by
    refine leDigits_leValue hb ?_ (Nat.mul_div_le width b)
    rw [List.length_set, length_leDigits]
  have hdigits := congrArg (fun v => (leDigits b (width / b) v)[j]?) h
  simp only [hread, List.getElem?_set, length_leDigits, hj, if_true] at hdigits
  exact Option.some.inj hdigits

end Telomere.Lib
