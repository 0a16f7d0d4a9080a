import Mathlib.Data.List.MinMax
import Mathlib.Data.List.Perm.Basic
import Telomere.Lib.Named

/-!
# Items by their last use

Items under keys, the one that was used last in front. When they take too much room it is the items
at the end that go. A table that has the items in any order, each stamped with the time of its last
use, can stand for such a list: what its oldest stamp is on is the item at the end.
-/

namespace Telomere.Lib

variable {κ α β : Type} [DecidableEq κ]

def dropKey (key : κ) (items : List (κ × α)) : List (κ × α) := items.filter fun item => item.1 ≠ key

def toFront (key : κ) (items : List (κ × α)) : List (κ × α) :=
  (items.filter fun item => item.1 = key) ++ dropKey key items

def totalSize (size : α → Nat) (items : List (κ × α)) : Nat := (items.map fun item => size item.2).sum

def keepRoom (size : α → Nat) : Nat → List (κ × α) → List (κ × α)
  | _, [] => []
  | room, item :: items =>
      if size item.2 ≤ room then item :: keepRoom size (room - size item.2) items else []

section room

variable {size : α → Nat} {items : List (κ × α)} {item : κ × α} {key : κ} {room : Nat}

omit [DecidableEq κ] in
theorem totalSize_append (items items' : List (κ × α)) :
    totalSize size (items ++ items') = totalSize size items + totalSize size items' := by
  simp [totalSize]

omit [DecidableEq κ] in
theorem totalSize_perm {items' : List (κ × α)} (h : items.Perm items') :
    totalSize size items = totalSize size items' := by
  unfold totalSize
  exact (h.map _).sum_nat

omit [DecidableEq κ] in
theorem totalSize_keepRoom : totalSize size (keepRoom size room items) ≤ room := by
  induction items generalizing room with
  | nil => simp [keepRoom, totalSize]
  | cons item items ih =>
      by_cases h : size item.2 ≤ room
      · have hrest := @ih (room - size item.2)
        simp only [keepRoom, h, if_true, totalSize, List.map_cons, List.sum_cons] at hrest ⊢
        omega
      · simp [keepRoom, h, totalSize]

omit [DecidableEq κ] in
theorem keepRoom_of_le (h : totalSize size items ≤ room) : keepRoom size room items = items := by
  induction items generalizing room with
  | nil => rfl
  | cons item items ih =>
      simp only [totalSize, List.map_cons, List.sum_cons] at h ih
      rw [keepRoom, if_pos (by omega), ih (by omega)]

omit [DecidableEq κ] in
theorem keepRoom_concat (h : room < totalSize size (items ++ [item])) :
    keepRoom size room (items ++ [item]) = keepRoom size room items := by
  induction items generalizing room with
  | nil =>
      have hsize : ¬ size item.2 ≤ room := by simpa [totalSize] using h
      simp [keepRoom, hsize]
  | cons first items ih =>
      by_cases hfirst : size first.2 ≤ room
      · have hrest : room - size first.2 < totalSize size (items ++ [item]) := by
          simp only [totalSize, List.cons_append, List.map_cons, List.sum_cons] at h ⊢
          omega
        simp [keepRoom, hfirst, ih hrest]
      · simp [keepRoom, hfirst]

omit [DecidableEq κ] in
theorem keepRoom_prefix : keepRoom size room items <+: items := by
  induction items generalizing room with
  | nil => exact List.prefix_refl []
  | cons item items ih =>
      by_cases h : size item.2 ≤ room
      · simpa [keepRoom, h] using ih
      · simp [keepRoom, h]

theorem toFront_perm : (toFront key items).Perm items := by
  have hsplit := List.filter_append_perm (fun item => decide (item.1 = key)) items
  simpa [toFront, dropKey] using hsplit

theorem notMem_of_lookup (h : items.lookup key = none) : key ∉ items.map (·.1) := by
  intro hmem
  obtain ⟨item, hitem, rfl⟩ := List.mem_map.mp hmem
  simpa using List.lookup_eq_none_iff.mp h item hitem

theorem dropKey_of_notMem (h : key ∉ items.map (·.1)) : dropKey key items = items := by
  apply List.filter_eq_self.mpr
  intro item hmem
  have hne : item.1 ≠ key := fun heq => h (heq ▸ List.mem_map_of_mem hmem)
  simpa using hne

theorem totalSize_dropKey {a : α} (hnodup : (items.map (·.1)).Nodup)
    (hlookup : items.lookup key = some a) :
    totalSize size items = size a + totalSize size (dropKey key items) := by
  induction items with
  | nil => cases hlookup
  | cons item items ih =>
      rw [List.map_cons, List.nodup_cons] at hnodup
      rw [List.lookup_cons] at hlookup
      by_cases hkey : item.1 = key
      · have hsame : (key == item.1) = true := by simp [hkey]
        have hnot : key ∉ items.map (·.1) := hkey ▸ hnodup.1
        rw [hsame] at hlookup
        obtain rfl := Option.some.inj hlookup
        have hrest : dropKey key (item :: items) = items := by
          refine Eq.trans ?_ (dropKey_of_notMem hnot)
          simp [dropKey, hkey]
        simp [hrest, totalSize]
      · have hother : (key == item.1) = false := beq_false_of_ne (Ne.symm hkey)
        rw [hother] at hlookup
        have hrest := ih hnodup.2 hlookup
        have hdrop : dropKey key (item :: items) = item :: dropKey key items := by
          simp [dropKey, hkey]
        simp only [hdrop, totalSize, List.map_cons, List.sum_cons] at hrest ⊢
        omega

end room

section stamps

variable (stamp : β → Nat) (value : β → α)

/-- The table has the items in any order, stamped no later than `clock`. -/
def Stamped (table : List (κ × β)) (clock : Nat) (items : List (κ × α)) : Prop :=
  ∃ sorted : List (κ × β), table.Perm sorted ∧ (sorted.map (·.1)).Nodup ∧
    sorted.Pairwise (fun newer older => stamp older.2 < stamp newer.2) ∧
    (∀ entry ∈ sorted, stamp entry.2 ≤ clock) ∧
    sorted.map (fun entry => (entry.1, value entry.2)) = items

variable {stamp value} {table : List (κ × β)} {clock clock' : Nat} {items : List (κ × α)} {key : κ}

omit [DecidableEq κ] in
theorem Stamped.empty : Stamped stamp value ([] : List (κ × β)) clock [] :=
  ⟨[], List.Perm.refl [], List.nodup_nil, List.Pairwise.nil, by simp, rfl⟩

omit [DecidableEq κ] in
theorem Stamped.later (h : Stamped stamp value table clock items) (hle : clock ≤ clock') :
    Stamped stamp value table clock' items := by
  obtain ⟨sorted, hperm, hnodup, hsorted, hstamps, hitems⟩ := h
  exact ⟨sorted, hperm, hnodup, hsorted, fun entry hmem => (hstamps entry hmem).trans hle, hitems⟩

omit [DecidableEq κ] in
theorem Stamped.nodup (h : Stamped stamp value table clock items) : (table.map (·.1)).Nodup := by
  obtain ⟨sorted, hperm, hnodup, -⟩ := h
  exact ((hperm.map _).nodup_iff).mpr hnodup

omit [DecidableEq κ] in
theorem Stamped.perm_items (h : Stamped stamp value table clock items) :
    (table.map fun entry => (entry.1, value entry.2)).Perm items := by
  obtain ⟨sorted, hperm, -, -, -, rfl⟩ := h
  exact hperm.map _

omit [DecidableEq κ] in
theorem Stamped.nodup_items (h : Stamped stamp value table clock items) :
    (items.map (·.1)).Nodup := by
  rw [← (h.perm_items.map (·.1)).nodup_iff, List.map_map]
  exact h.nodup

theorem Stamped.lookup (h : Stamped stamp value table clock items) :
    (table.lookup key).map value = items.lookup key := by
  have hnodup := h.nodup
  have hitems := h.nodup_items
  ext a
  rw [Option.map_eq_some_iff, lookup_eq_some_iff hitems, ← h.perm_items.mem_iff, List.mem_map]
  constructor
  · rintro ⟨b, hb, rfl⟩
    exact ⟨(key, b), (lookup_eq_some_iff hnodup).mp hb, rfl⟩
  · rintro ⟨⟨key', b⟩, hmem, heq⟩
    obtain ⟨rfl, rfl⟩ := Prod.mk.inj heq
    exact ⟨b, (lookup_eq_some_iff hnodup).mpr hmem, rfl⟩

def renewKey (set : β → β) (key : κ) (table : List (κ × β)) : List (κ × β) :=
  table.map fun entry => if entry.1 = key then (entry.1, set entry.2) else entry

theorem renewKey_keys (set : β → β) : (renewKey set key table).map (·.1) = table.map (·.1) := by
  rw [renewKey, List.map_map]
  apply List.map_congr_left
  intro entry _
  by_cases hkey : entry.1 = key
  · simp [hkey]
  · simp [hkey]

theorem totalSize_renewKey {size : β → Nat} {set : β → β} (h : ∀ b, size (set b) = size b) :
    totalSize size (renewKey set key table) = totalSize size table := by
  unfold totalSize renewKey
  rw [List.map_map]
  congr 1
  apply List.map_congr_left
  intro entry _
  by_cases hkey : entry.1 = key
  · simp [hkey, h]
  · simp [hkey]

theorem renewKey_dropKey (set : β → β) : renewKey set key (dropKey key table) = dropKey key table := by
  apply (List.map_congr_left fun entry hmem => ?_).trans (List.map_id _)
  have hkey : entry.1 ≠ key := by simpa [dropKey] using (List.mem_filter.mp hmem).2
  simp [hkey]

theorem dropKey_map {f : β → α} :
    (dropKey key table).map (fun entry => (entry.1, f entry.2)) =
      dropKey key (table.map fun entry => (entry.1, f entry.2)) := by
  simp [dropKey, List.filter_map, Function.comp_def]

theorem Stamped.touch {set : β → β} (h : Stamped stamp value table clock items)
    (hlt : clock < clock') (hstamp : ∀ b, stamp (set b) = clock')
    (hvalue : ∀ b, value (set b) = value b) :
    Stamped stamp value (renewKey set key table) clock' (toFront key items) := by
  obtain ⟨sorted, hperm, hnodup, hsorted, hstamps, rfl⟩ := h
  let front := sorted.filter fun entry => entry.1 = key
  have hfront : ∀ entry ∈ renewKey set key front, ∃ old ∈ front, entry = (key, set old.2) := by
    intro entry hmem
    obtain ⟨old, hold, rfl⟩ := List.mem_map.mp hmem
    have hkey : old.1 = key := by simpa using (List.mem_filter.mp hold).2
    exact ⟨old, hold, by simp [hkey]⟩
  have hrest : ∀ entry ∈ dropKey key sorted, stamp entry.2 ≤ clock := fun entry hmem =>
    hstamps entry (List.mem_filter.mp hmem).1
  have hsplit : (renewKey set key sorted).Perm (renewKey set key front ++ dropKey key sorted) := by
    rw [← @renewKey_dropKey _ _ _ sorted key set]
    simpa [renewKey, toFront] using
      (@toFront_perm _ _ _ sorted key).symm.map fun entry : κ × β =>
        if entry.1 = key then (entry.1, set entry.2) else entry
  refine ⟨renewKey set key front ++ dropKey key sorted, ?_, ?_, ?_, ?_, ?_⟩
  · exact (hperm.map _).trans hsplit
  · rw [← (hsplit.map (·.1)).nodup_iff, renewKey_keys]
    exact hnodup
  · have hapart : front.Pairwise fun a b => a.1 ≠ b.1 :=
      (List.pairwise_map.mp hnodup).sublist List.filter_sublist
    refine List.pairwise_append.mpr ⟨?_, hsorted.sublist List.filter_sublist, ?_⟩
    · refine List.pairwise_map.mpr (hapart.imp_of_mem ?_)
      intro a b ha hb hne
      have hkeys := (List.mem_filter.mp ha).2
      have hkeys' := (List.mem_filter.mp hb).2
      simp only [decide_eq_true_eq] at hkeys hkeys'
      exact absurd (hkeys.trans hkeys'.symm) hne
    · intro a ha b hb
      obtain ⟨old, -, rfl⟩ := hfront a ha
      rw [hstamp]
      exact Nat.lt_of_le_of_lt (hrest b hb) hlt
  · intro entry hmem
    rcases List.mem_append.mp hmem with hmem | hmem
    · obtain ⟨old, -, rfl⟩ := hfront entry hmem
      exact (hstamp old.2).le
    · exact (hrest entry hmem).trans hlt.le
  · rw [List.map_append, dropKey_map, toFront]
    congr 1
    simp only [front, renewKey, List.map_map, List.filter_map, Function.comp_def]
    apply List.map_congr_left
    intro entry hmem
    have hkey := (List.mem_filter.mp hmem).2
    simp only [decide_eq_true_eq] at hkey
    simp [hkey, hvalue]

theorem Stamped.dropKey (h : Stamped stamp value table clock items) :
    Stamped stamp value (dropKey key table) clock (dropKey key items) := by
  obtain ⟨sorted, hperm, hnodup, hsorted, hstamps, rfl⟩ := h
  refine ⟨Lib.dropKey key sorted, hperm.filter _, ?_, hsorted.sublist List.filter_sublist, ?_,
    dropKey_map⟩
  · exact hnodup.sublist (List.filter_sublist.map _)
  · exact fun entry hmem => hstamps entry (List.mem_filter.mp hmem).1

omit [DecidableEq κ] in
theorem Stamped.push {b : β} (h : Stamped stamp value table clock items) (hlt : clock < stamp b)
    (hkey : key ∉ items.map (·.1)) :
    Stamped stamp value (table ++ [(key, b)]) (stamp b) ((key, value b) :: items) := by
  obtain ⟨sorted, hperm, hnodup, hsorted, hstamps, rfl⟩ := h
  refine ⟨(key, b) :: sorted, ?_, ?_, ?_, ?_, rfl⟩
  · exact (List.perm_append_singleton (key, b) table).trans (hperm.cons _)
  · rw [List.map_cons, List.nodup_cons]
    exact ⟨by simpa using hkey, hnodup⟩
  · exact List.pairwise_cons.mpr
      ⟨fun entry hmem => Nat.lt_of_le_of_lt (hstamps entry hmem) hlt, hsorted⟩
  · intro entry hmem
    rcases List.mem_cons.mp hmem with rfl | hmem
    · exact Nat.le_refl _
    · exact (hstamps entry hmem).trans hlt.le

theorem dropKey_concat {item : κ × α} (h : ((items ++ [item]).map (·.1)).Nodup) :
    dropKey item.1 (items ++ [item]) = items := by
  have hapart : ∀ a ∈ items, a.1 ≠ item.1 := by
    simp only [List.map_append, List.nodup_append, List.mem_map] at h
    exact fun a ha => h.2.2 a.1 ⟨a, ha, rfl⟩ item.1 ⟨item, by simp, rfl⟩
  simpa [dropKey, List.filter_append] using hapart

theorem Stamped.oldest {entry : κ × β} (h : Stamped stamp value table clock items)
    (hmin : entry ∈ table.argmin fun entry => stamp entry.2) :
    ∃ init, items = init ++ [(entry.1, value entry.2)] ∧
      Stamped stamp value (Lib.dropKey entry.1 table) clock init := by
  have hdrop := @Stamped.dropKey _ _ _ _ _ _ _ _ _ entry.1 h
  obtain ⟨sorted, hperm, hnodup, hsorted, hstamps, rfl⟩ := h
  have hmem : entry ∈ sorted := hperm.mem_iff.mp (List.argmin_mem hmin)
  rcases List.eq_nil_or_concat' sorted with rfl | ⟨init, last, rfl⟩
  · cases hmem
  have hlast : last ∈ init ++ [last] := by simp
  have hle := List.le_of_mem_argmin (hperm.mem_iff.mpr hlast) hmin
  obtain rfl : entry = last := by
    rcases List.mem_append.mp hmem with hinit | hlast
    · have hnewer := (List.pairwise_append.mp hsorted).2.2 entry hinit last (by simp)
      omega
    · simpa using hlast
  refine ⟨init.map fun entry => (entry.1, value entry.2), by simp, ?_⟩
  rwa [← dropKey_map, dropKey_concat hnodup] at hdrop

end stamps

end Telomere.Lib
