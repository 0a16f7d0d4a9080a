import Mathlib.Data.List.Basic

/-!
# Cutting texts

A text is a list. It is cut behind a prefix, or at the first or the last place where a separator
stands.
-/

namespace Telomere.Lib

variable {α : Type} [DecidableEq α]

def stripPrefix : List α → List α → Option (List α)
  | [], text => some text
  | _ :: _, [] => none
  | c :: start, d :: text => if c = d then stripPrefix start text else none

/-- Cuts at the first place where the separator, which is not empty, stands. -/
def splitOnce (sep : List α) : List α → Option (List α × List α)
  | [] => none
  | c :: text =>
      match stripPrefix sep (c :: text) with
      | some rest => some ([], rest)
      | none => (splitOnce sep text).map fun parts => (c :: parts.1, parts.2)

def rsplitOnce (c : α) (text : List α) : Option (List α × List α) :=
  (splitOnce [c] text.reverse).map fun parts => (parts.2.reverse, parts.1.reverse)

section cuts

variable {start sep text rest before behind : List α} {c d : α}

@[simp] theorem stripPrefix_eq_some : stripPrefix start text = some rest ↔ text = start ++ rest := by
  induction start generalizing text with
  | nil => simp [stripPrefix, eq_comm]
  | cons c start ih =>
      cases text with
      | nil => simp [stripPrefix]
      | cons d text =>
          by_cases h : c = d
          · simp [stripPrefix, h, ih]
          · simp [stripPrefix, h, Ne.symm h]

theorem stripPrefix_append : stripPrefix start (start ++ rest) = some rest := by simp

theorem stripPrefix_cons_of_ne (h : c ≠ d) : stripPrefix (c :: start) (d :: text) = none := by
  simp [stripPrefix, h]

theorem stripPrefix_of_notMem (h : c ∉ text) : stripPrefix (c :: start) text = none := by
  cases text with
  | nil => rfl
  | cons d text => exact stripPrefix_cons_of_ne fun heq => h (by simp [heq])

theorem splitOnce_sound (h : splitOnce sep text = some (before, behind)) :
    text = before ++ (sep ++ behind) := by
  induction text generalizing before with
  | nil => cases h
  | cons c text ih =>
      unfold splitOnce at h
      cases hstrip : stripPrefix sep (c :: text) with
      | some rest =>
          rw [hstrip] at h
          cases h
          simpa using hstrip
      | none =>
          rw [hstrip] at h
          obtain ⟨parts, hparts, heq⟩ := Option.map_eq_some_iff.mp h
          cases heq
          rw [List.cons_append, ← ih hparts]

theorem splitOnce_append (h : c ∉ before) :
    splitOnce (c :: sep) (before ++ (c :: sep ++ behind)) = some (before, behind) := by
  induction before with
  | nil => simp [splitOnce, stripPrefix, stripPrefix_append]
  | cons d before ih =>
      have hne : c ≠ d := fun heq => h (by simp [heq])
      rw [List.cons_append, splitOnce, stripPrefix_cons_of_ne hne,
        ih fun hmem => h (List.mem_cons_of_mem d hmem)]
      rfl

theorem splitOnce_of_notMem (h : c ∉ text) : splitOnce (c :: sep) text = none := by
  induction text with
  | nil => rfl
  | cons d text ih =>
      rw [splitOnce, stripPrefix_of_notMem h, ih fun hmem => h (List.mem_cons_of_mem d hmem)]
      rfl

theorem splitOnce_first (h : splitOnce [c] text = some (before, behind)) : c ∉ before := by
  induction text generalizing before with
  | nil => cases h
  | cons d text ih =>
      unfold splitOnce at h
      by_cases heq : c = d
      · simp [stripPrefix, heq] at h
        simp [h.1]
      · rw [stripPrefix_cons_of_ne heq] at h
        obtain ⟨parts, hparts, hcons⟩ := Option.map_eq_some_iff.mp h
        cases hcons
        simp [heq, ih hparts]

theorem splitOnce_eq_some :
    splitOnce [c] text = some (before, behind) ↔ text = before ++ c :: behind ∧ c ∉ before := by
  constructor
  · exact fun h => ⟨splitOnce_sound h, splitOnce_first h⟩
  · intro h
    rw [h.1]
    exact splitOnce_append h.2

theorem splitOnce_eq_none : splitOnce [c] text = none ↔ c ∉ text := by
  refine ⟨fun h hmem => ?_, splitOnce_of_notMem⟩
  obtain ⟨before, behind, heq, hfirst⟩ := List.eq_append_cons_of_mem hmem
  have hcut : splitOnce [c] (before ++ c :: behind) = some (before, behind) := splitOnce_append hfirst
  rw [heq, hcut] at h
  cases h

theorem rsplitOnce_eq_some :
    rsplitOnce c text = some (before, behind) ↔ text = before ++ c :: behind ∧ c ∉ behind := by
  unfold rsplitOnce
  constructor
  · intro h
    obtain ⟨parts, hparts, heq⟩ := Option.map_eq_some_iff.mp h
    cases heq
    obtain ⟨htext, hfirst⟩ := splitOnce_eq_some.mp hparts
    refine ⟨?_, by simpa using hfirst⟩
    rw [← List.reverse_reverse text, htext]
    simp
  · intro h
    rw [h.1, Option.map_eq_some_iff]
    refine ⟨(behind.reverse, before.reverse), splitOnce_eq_some.mpr ⟨by simp, by simpa using h.2⟩, ?_⟩
    simp

theorem mem_splitOn (h : c ∈ text) : c = d ∨ ∃ part ∈ text.splitOn d, c ∈ part := by
  induction text with
  | nil => simp at h
  | cons e text ih =>
      rw [List.splitOn_cons_eq_if_modifyHead]
      by_cases heq : e = d
      · rcases List.mem_cons.mp h with hc | hc
        · exact Or.inl (hc.trans heq)
        · simpa [heq] using ih hc
      · obtain ⟨first, parts, hparts⟩ := List.exists_cons_of_ne_nil (List.splitOn_ne_nil d text)
        rcases List.mem_cons.mp h with hc | hc
        · exact Or.inr ⟨e :: first, by simp [heq, hparts], by simp [hc]⟩
        · rcases ih hc with hd | ⟨part, hpart, hmem⟩
          · exact Or.inl hd
          · rw [hparts] at hpart
            rcases List.mem_cons.mp hpart with rfl | hpart
            · exact Or.inr ⟨e :: part, by simp [heq, hparts], by simp [hmem]⟩
            · exact Or.inr ⟨part, by simp [heq, hparts, hpart], hmem⟩

theorem eq_of_splitOn_pair (h : text.splitOn c = [before, behind]) : text = before ++ c :: behind := by
  have hparts := @List.intercalate_splitOn _ text _ _ c
  rw [h] at hparts
  simpa using hparts.symm

theorem splitOn_pair (hbefore : c ∉ before) (hbehind : c ∉ behind) :
    (before ++ c :: behind).splitOn c = [before, behind] := by
  rw [List.splitOn_append_cons_self_of_not_mem hbefore, List.splitOn_eq_singleton hbehind]

end cuts

end Telomere.Lib
