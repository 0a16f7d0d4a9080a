import Mathlib.Algebra.Ring.Nat
import Mathlib.Data.List.Count
import Mathlib.Algebra.BigOperators.Group.List.Basic

/-!
# Items grouped by kind

Items of several sizes are laid out kind after kind, each kind in the order of the items. An item's
place is the start of its kind's region and the room of the earlier items of its kind.
-/

namespace Telomere.Lib

variable {κ : Type} [DecidableEq κ] (size : κ → Nat)

def regionStart (items : List κ) : List κ → κ → Nat
  | [], _ => 0
  | first :: order, kind =>
    if first = kind then 0 else items.count first * size first + regionStart items order kind

def regionsEnd (items order : List κ) : Nat :=
  (order.map fun kind => items.count kind * size kind).sum

def itemPlace (items order : List κ) (i : Nat) (kind : κ) : Nat :=
  regionStart size items order kind + (items.take i).count kind * size kind

variable {size} {items order : List κ} {kind kind' : κ} {i j : Nat}

theorem regionsEnd_cons_of_notMem {item : κ} (hitem : item ∉ order) :
    regionsEnd size (item :: items) order = regionsEnd size items order := by
  unfold regionsEnd
  congr 1
  refine List.map_congr_left fun kind hkind => ?_
  have hne : item ≠ kind := fun heq => hitem (heq ▸ hkind)
  rw [List.count_cons_of_ne hne]

theorem regionsEnd_cons {item : κ} (hnodup : order.Nodup) (hitem : item ∈ order) :
    regionsEnd size (item :: items) order = size item + regionsEnd size items order := by
  induction order with
  | nil => simp at hitem
  | cons first order ih =>
      obtain ⟨hfirst, hnodup⟩ := List.nodup_cons.mp hnodup
      have hsplit (items : List κ) : regionsEnd size items (first :: order) =
          items.count first * size first + regionsEnd size items order := by
        simp [regionsEnd]
      rw [hsplit, hsplit]
      by_cases heq : item = first
      · subst heq
        rw [List.count_cons_self, regionsEnd_cons_of_notMem hfirst, Nat.succ_mul]
        omega
      · have hmem : item ∈ order := by simpa [heq] using hitem
        rw [List.count_cons_of_ne heq, ih hnodup hmem]
        omega

theorem regionsEnd_eq (hnodup : order.Nodup) (hkinds : ∀ kind ∈ items, kind ∈ order) :
    regionsEnd size items order = (items.map size).sum := by
  induction items with
  | nil => simp [regionsEnd]
  | cons item items ih =>
      have hrest : ∀ kind ∈ items, kind ∈ order := fun kind hkind =>
        hkinds kind (List.mem_cons_of_mem item hkind)
      rw [regionsEnd_cons hnodup (hkinds item List.mem_cons_self), ih hrest, List.map_cons,
        List.sum_cons]

theorem regionStart_add_le (hkind : kind ∈ order) :
    regionStart size items order kind + items.count kind * size kind ≤
      regionsEnd size items order := by
  induction order with
  | nil => simp at hkind
  | cons first order ih =>
      unfold regionStart regionsEnd
      rw [List.map_cons, List.sum_cons]
      by_cases hfirst : first = kind
      · subst hfirst
        simp
      · have hmem : kind ∈ order := by simpa [Ne.symm hfirst] using hkind
        have hrest := ih hmem
        unfold regionsEnd at hrest
        rw [if_neg hfirst]
        omega

theorem regions_apart (hkind : kind ∈ order) (hkind' : kind' ∈ order) (hne : kind ≠ kind') :
    regionStart size items order kind + items.count kind * size kind ≤
        regionStart size items order kind' ∨
      regionStart size items order kind' + items.count kind' * size kind' ≤
        regionStart size items order kind := by
  induction order with
  | nil => simp at hkind
  | cons first order ih =>
      unfold regionStart
      by_cases hfirst : first = kind
      · subst hfirst
        rw [if_pos rfl, if_neg hne]
        omega
      · by_cases hfirst' : first = kind'
        · subst hfirst'
          rw [if_neg hfirst, if_pos rfl]
          omega
        · have hmem : kind ∈ order := by simpa [Ne.symm hfirst] using hkind
          have hmem' : kind' ∈ order := by simpa [Ne.symm hfirst'] using hkind'
          have hrest := ih hmem hmem'
          rw [if_neg hfirst, if_neg hfirst']
          omega

theorem count_take_lt (hi : items[i]? = some kind) (hij : i < j) :
    (items.take i).count kind < (items.take j).count kind := by
  obtain ⟨hlt, hget⟩ := List.getElem?_eq_some_iff.mp hi
  have hstep : (items.take (i + 1)).count kind = (items.take i).count kind + 1 := by
    rw [List.take_succ_eq_append_getElem hlt, List.count_append, hget, List.count_singleton_self]
  have hmono : (items.take (i + 1)).count kind ≤ (items.take j).count kind :=
    List.Sublist.count_le _ (List.take_sublist_take_left hij)
  omega

theorem count_take_lt_count (hi : items[i]? = some kind) :
    (items.take i).count kind < items.count kind := by
  obtain ⟨hlt, -⟩ := List.getElem?_eq_some_iff.mp hi
  have hbelow := count_take_lt hi hlt
  rwa [List.take_length] at hbelow

theorem itemPlace_end_le (order : List κ) (hi : items[i]? = some kind) :
    itemPlace size items order i kind + size kind ≤
      regionStart size items order kind + items.count kind * size kind := by
  have hroom := Nat.mul_le_mul_right (size kind) (count_take_lt_count hi)
  rw [Nat.succ_mul] at hroom
  unfold itemPlace
  omega

theorem itemPlaces_apart (hi : items[i]? = some kind) (hj : items[j]? = some kind')
    (hkind : kind ∈ order) (hkind' : kind' ∈ order) (hne : i ≠ j) :
    itemPlace size items order i kind + size kind ≤ itemPlace size items order j kind' ∨
      itemPlace size items order j kind' + size kind' ≤ itemPlace size items order i kind := by
  by_cases hsame : kind = kind'
  · subst hsame
    unfold itemPlace
    rcases Nat.lt_or_gt_of_ne hne with hij | hij
    · have hroom := Nat.mul_le_mul_right (size kind) (count_take_lt hi hij)
      rw [Nat.succ_mul] at hroom
      omega
    · have hroom := Nat.mul_le_mul_right (size kind) (count_take_lt hj hij)
      rw [Nat.succ_mul] at hroom
      omega
  · have hend : itemPlace size items order i kind + size kind ≤ _ := itemPlace_end_le order hi
    have hend' : itemPlace size items order j kind' + size kind' ≤ _ := itemPlace_end_le order hj
    have hstart : regionStart size items order kind ≤ itemPlace size items order i kind :=
      Nat.le_add_right _ _
    have hstart' : regionStart size items order kind' ≤ itemPlace size items order j kind' :=
      Nat.le_add_right _ _
    have happart : regionStart size items order kind + items.count kind * size kind ≤
          regionStart size items order kind' ∨
        regionStart size items order kind' + items.count kind' * size kind' ≤
          regionStart size items order kind := regions_apart hkind hkind' hsame
    omega

end Telomere.Lib
