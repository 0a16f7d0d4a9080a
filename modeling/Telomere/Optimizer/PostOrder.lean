import Telomere.Optimizer.Analysis

/-!
# The reverse postorder

The search marks what can be reached and finishes each block before the one it was found from; so in
the reversed order each block but the entry comes after one of its predecessors.
-/

namespace Telomere.Optimizer

open Lib (Reachable RootPath ForwardOrder)

theorem CanonFunc.WellFormed.successor_lt {func : CanonFunc} (h : func.WellFormed) {block succ : Nat}
    (hsucc : func.Edge block succ) : succ < func.blocks.length := by
  have hverified := h.verified
  simp only [CanonFunc.verify, Bool.and_eq_true, List.all_eq_true] at hverified
  simp only [CanonFunc.Edge, CanonFunc.successors] at hsucc
  cases hblock : func.blocks[block]? with
  | none => simp [hblock] at hsucc
  | some b =>
      have hmem : (b, block) ∈ func.blocks.zipIdx := List.mk_mem_zipIdx_iff_getElem?.mpr hblock
      have hall := (hverified.2 _ hmem).2
      simp only [hblock, Option.map_some, Option.getD_some] at hsucc
      simpa using hall succ hsucc

theorem CanonFunc.WellFormed.edge_iff {func : CanonFunc} (h : func.WellFormed) {pred block : Nat}
    (hblock : block < func.blocks.length) :
    func.Edge pred block ↔ pred ∈ func.predecessors block := by
  constructor
  · intro hedge
    by_cases hpred : pred < func.blocks.length
    · exact (h.agree block hblock pred hpred).mpr hedge
    · simp [CanonFunc.Edge, CanonFunc.successors, List.getElem?_eq_none (Nat.le_of_not_lt hpred)]
        at hedge
  · exact fun hpred => (h.agree block hblock pred (h.inRange block hblock pred hpred)).mp hpred

/-- Each block of a list is one of the starts or the successor of a later one. -/
def FoundLater (func : CanonFunc) (starts : List Nat) : List Nat → Prop
  | [] => True
  | block :: later =>
      (block ∈ starts ∨ ∃ pred ∈ later, func.Edge pred block) ∧ FoundLater func starts later

theorem FoundLater.append {func : CanonFunc} {starts starts' front back : List Nat}
    (hfront : FoundLater func starts front) (hback : FoundLater func starts' back) :
    FoundLater func (starts ++ starts') (front ++ back) := by
  induction front with
  | nil =>
      clear hfront
      induction back with
      | nil => trivial
      | cons block later ih =>
          refine ⟨hback.1.imp_left fun h => List.mem_append_right _ h, ih hback.2⟩
  | cons block later ih =>
      refine ⟨?_, ih hfront.2⟩
      rcases hfront.1 with hstart | ⟨pred, hpred, hedge⟩
      · exact .inl (List.mem_append_left _ hstart)
      · exact .inr ⟨pred, List.mem_append_left _ hpred, hedge⟩

/-- What a part of the search does: the blocks it finishes, in this order. -/
structure Visits (func : CanonFunc) (starts : List Nat) (s t : List Bool × List Nat)
    (new : List Nat) : Prop where
  out : t.2 = s.2 ++ new
  length : t.1.length = s.1.length
  marked : ∀ block, t.1[block]? = some true ↔ s.1[block]? = some true ∨ block ∈ new
  fresh : ∀ block ∈ new, s.1[block]? ≠ some true
  nodup : new.Nodup
  begun : ∀ block ∈ starts, t.1[block]? = some true
  closed : ∀ block ∈ new, ∀ succ, func.Edge block succ → t.1[succ]? = some true
  found : FoundLater func starts new
  fewer : t.1.count false ≤ s.1.count false

theorem count_set_true {seen : List Bool} {block : Nat} (h : seen[block]? = some false) :
    (seen.set block true).count false + 1 = seen.count false := by
  induction seen generalizing block with
  | nil => cases h
  | cons mark seen ih =>
      cases block with
      | zero =>
          obtain rfl := Option.some.inj h
          simp
      | succ block =>
          have hcount := ih (by simpa using h)
          simp only [List.set_cons_succ, List.count_cons]
          omega

section Visit

variable {func : CanonFunc}

theorem visits_all {fuel : Nat} (hvisit : ∀ block s, s.1.length = func.blocks.length →
      block < func.blocks.length → s.1.count false < fuel →
        ∃ t new, visit func fuel block s = some t ∧ Visits func [block] s t new)
    (blocks : List Nat) (s : List Bool × List Nat) (hlength : s.1.length = func.blocks.length)
    (hblocks : ∀ block ∈ blocks, block < func.blocks.length) (hfuel : s.1.count false < fuel) :
    ∃ t new, blocks.foldlM (fun s succ => visit func fuel succ s) s = some t ∧
      Visits func blocks s t new := by
  induction blocks generalizing s with
  | nil =>
      exact ⟨s, [], rfl, by simp, rfl, by simp, by simp, by simp, by simp, by simp, trivial,
        Nat.le_refl _⟩
  | cons block blocks ih =>
      obtain ⟨t, new, ht, hnew⟩ := hvisit block s hlength (hblocks block (List.mem_cons_self ..))
        hfuel
      obtain ⟨u, later, hu, hlater⟩ := ih t (hnew.length.trans hlength)
        (fun b hb => hblocks b (List.mem_cons_of_mem _ hb)) (hnew.fewer.trans_lt hfuel)
      have hkeeps : ∀ b, t.1[b]? = some true → u.1[b]? = some true :=
        fun b hb => (hlater.marked b).mpr (.inl hb)
      refine ⟨u, new ++ later, by rw [List.foldlM_cons, ht]; exact hu, ?_, ?_, ?_, ?_, ?_, ?_, ?_, ?_,
        ?_⟩
      · rw [hlater.out, hnew.out, List.append_assoc]
      · rw [hlater.length, hnew.length]
      · intro b
        rw [hlater.marked, hnew.marked, List.mem_append, or_assoc]
      · intro b hb hmarked
        rcases List.mem_append.mp hb with hb | hb
        · exact hnew.fresh b hb hmarked
        · exact hlater.fresh b hb ((hnew.marked b).mpr (.inl hmarked))
      · refine List.nodup_append'.mpr ⟨hnew.nodup, hlater.nodup, ?_⟩
        intro b hb hb'
        exact hlater.fresh b hb' ((hnew.marked b).mpr (.inr hb))
      · intro b hb
        rcases List.mem_cons.mp hb with rfl | hb
        · exact hkeeps b (hnew.begun b (List.mem_singleton_self b))
        · exact hlater.begun b hb
      · intro b hb succ hsucc
        rcases List.mem_append.mp hb with hb | hb
        · exact hkeeps succ (hnew.closed b hb succ hsucc)
        · exact hlater.closed b hb succ hsucc
      · exact hnew.found.append hlater.found
      · exact hlater.fewer.trans hnew.fewer

theorem Visits.finish {block : Nat} {seen : List Bool} {out new : List Nat}
    {t : List Bool × List Nat} (hseen : seen[block]? = some false)
    (h : Visits func (func.successors block) (seen.set block true, out) t new) :
    Visits func [block] (seen, out) (t.1, t.2 ++ [block]) (new ++ [block]) := by
  have hlt : block < seen.length := (List.getElem?_eq_some_iff.mp hseen).1
  have hset : ∀ b, (seen.set block true)[b]? = some true ↔ b = block ∨ seen[b]? = some true := by
    intro b
    rw [List.getElem?_set]
    by_cases hb : b = block
    · subst hb
      simp [hlt]
    · simp [hb, Ne.symm hb]
  have hblock : block ∉ new := fun hb => h.fresh block hb ((hset block).mpr (.inl rfl))
  refine ⟨by simp [h.out], by simp [h.length], ?_, ?_, ?_, ?_, ?_, ?_, ?_⟩
  · intro b
    rw [h.marked, hset, List.mem_append, List.mem_singleton]
    tauto
  · intro b hb hmarked
    rcases List.mem_append.mp hb with hb | hb
    · exact h.fresh b hb ((hset b).mpr (.inr hmarked))
    · obtain rfl := List.mem_singleton.mp hb
      rw [hseen] at hmarked
      cases hmarked
  · refine List.nodup_append'.mpr ⟨h.nodup, by simp, ?_⟩
    simpa using hblock
  · intro b hb
    obtain rfl := List.mem_singleton.mp hb
    exact (h.marked b).mpr (.inl ((hset b).mpr (.inl rfl)))
  · intro b hb succ hsucc
    rcases List.mem_append.mp hb with hb | hb
    · exact h.closed b hb succ hsucc
    · obtain rfl := List.mem_singleton.mp hb
      exact h.begun succ hsucc
  · have hfound := h.found
    clear h hblock
    induction new with
    | nil => exact ⟨.inl (List.mem_singleton_self _), trivial⟩
    | cons b later ih =>
        refine ⟨.inr ?_, ih hfound.2⟩
        rcases hfound.1 with hstart | ⟨pred, hpred, hedge⟩
        · exact ⟨block, by simp, hstart⟩
        · exact ⟨pred, List.mem_append_left _ hpred, hedge⟩
  · have hcount := count_set_true hseen
    have hfewer := h.fewer
    dsimp only at hfewer ⊢
    omega

theorem visit_visits (hwell : func.WellFormed) (fuel block : Nat) (s : List Bool × List Nat)
    (hlength : s.1.length = func.blocks.length) (hblock : block < func.blocks.length)
    (hfuel : s.1.count false < fuel) :
    ∃ t new, visit func fuel block s = some t ∧ Visits func [block] s t new := by
  induction fuel generalizing block s with
  | zero => omega
  | succ fuel ih =>
      obtain ⟨seen, out⟩ := s
      dsimp only at hlength hfuel
      by_cases hseen : seen[block]? = some true
      · refine ⟨(seen, out), [], by simp [visit, hseen], ?_⟩
        exact ⟨by simp, rfl, by simp, by simp, by simp, by simpa using hseen, by simp, trivial,
          Nat.le_refl _⟩
      · have hfalse : seen[block]? = some false := by
          rw [List.getElem?_eq_getElem (by omega)] at hseen ⊢
          simpa using hseen
        have hcount := count_set_true hfalse
        obtain ⟨t, new, ht, hnew⟩ := visits_all (fun b s hs hb => ih b s hs hb)
          (func.successors block) (seen.set block true, out) (by simpa using hlength)
          (fun succ hsucc => hwell.successor_lt hsucc) (by dsimp only; omega)
        refine ⟨(t.1, t.2 ++ [block]), new ++ [block], ?_, hnew.finish hfalse⟩
        rw [visit, if_neg hseen, ht]
        rfl

end Visit

section Order

variable {func : CanonFunc} {blocks : List Nat}

theorem FoundLater.reachable (h : FoundLater func [func.entryBlock] blocks) :
    ∀ block ∈ blocks, Reachable func.Edge func.entryBlock block := by
  induction blocks with
  | nil => simp
  | cons block later ih =>
      have hlater := ih h.2
      intro b hb
      rcases List.mem_cons.mp hb with rfl | hb
      · rcases h.1 with hstart | ⟨pred, hpred, hedge⟩
        · rw [List.mem_singleton.mp hstart]
          exact .start
        · exact (hlater pred hpred).step hedge
      · exact hlater b hb

theorem FoundLater.last (h : FoundLater func [func.entryBlock] blocks) (hne : blocks ≠ []) :
    ∃ front, blocks = front ++ [func.entryBlock] := by
  induction blocks with
  | nil => exact absurd rfl hne
  | cons block later ih =>
      cases later with
      | nil =>
          rcases h.1 with hstart | ⟨pred, hpred, -⟩
          · exact ⟨[], by rw [List.mem_singleton.mp hstart]; rfl⟩
          · cases hpred
      | cons b later =>
          obtain ⟨front, hfront⟩ := ih h.2 (by simp)
          exact ⟨block :: front, by rw [hfront]; rfl⟩

theorem FoundLater.split {front back : List Nat} {block : Nat} {starts : List Nat}
    (h : FoundLater func starts (front ++ block :: back)) :
    block ∈ starts ∨ ∃ pred ∈ back, func.Edge pred block := by
  induction front with
  | nil => exact h.1
  | cons _ front ih => exact ih h.2

/-- What the analysis relies on. -/
structure IsReversePostorder (func : CanonFunc) (rpo : List Nat) : Prop where
  nodup : rpo.Nodup
  head : ∃ rest, rpo = func.entryBlock :: rest
  mem : ∀ block, block ∈ rpo ↔ Reachable func.Edge func.entryBlock block
  order : ForwardOrder func.Edge func.entryBlock rpo.idxOf

theorem idxOf_lt_of_split {front back : List Nat} {block pred : Nat} (hpred : pred ∈ front)
    (hblock : block ∉ front) : (front ++ block :: back).idxOf pred <
      (front ++ block :: back).idxOf block := by
  rw [List.idxOf_append_of_mem hpred, List.idxOf_append_of_notMem hblock]
  have hlt := List.idxOf_lt_length_of_mem hpred
  omega

theorem reversePostorder_of_found (hfound : FoundLater func [func.entryBlock] blocks)
    (hnodup : blocks.Nodup) (hmem : ∀ block, block ∈ blocks ↔
      Reachable func.Edge func.entryBlock block) : IsReversePostorder func blocks.reverse := by
  have hentry : func.entryBlock ∈ blocks := (hmem _).mpr .start
  obtain ⟨front, hfront⟩ := hfound.last (List.ne_nil_of_mem hentry)
  refine ⟨List.nodup_reverse.mpr hnodup, ⟨front.reverse, by simp [hfront]⟩, ?_, ?_, ?_, ?_⟩
  · intro block
    rw [List.mem_reverse, hmem]
  · simp [hfront]
  · intro a b ha hb heq
    exact (List.idxOf_inj (List.mem_reverse.mpr ((hmem a).mpr ha))).mp heq
  · intro block hblock hne
    obtain ⟨before, after, rfl⟩ := List.append_of_mem ((hmem block).mpr hblock)
    obtain ⟨pred, hpred, hedge⟩ := hfound.split.resolve_left fun hstart =>
      hne (List.mem_singleton.mp hstart)
    refine ⟨pred, (hmem pred).mp (by simp [hpred]), hedge, ?_⟩
    have hafter : block ∉ after :=
      (List.nodup_cons.mp (List.nodup_append'.mp hnodup).2.1).1
    rw [List.reverse_append, List.reverse_cons, List.append_assoc, List.singleton_append]
    exact idxOf_lt_of_split (by simpa using hpred) (by simpa using hafter)

theorem computeReversePostorder_isReversePostorder (hwell : func.WellFormed) :
    ∃ rpo, computeReversePostorder func = some rpo ∧ IsReversePostorder func rpo := by
  obtain ⟨⟨seen, out⟩, new, hvisit, hvisits⟩ := visit_visits hwell (func.blocks.length + 1)
    func.entryBlock (List.replicate func.blocks.length false, []) (by simp) hwell.entry (by simp)
  have hmarked : ∀ block, seen[block]? = some true ↔ block ∈ new := by
    intro block
    rw [hvisits.marked]
    simp [List.getElem?_replicate]
  have hout : out = new := hvisits.out
  refine ⟨out.reverse, by rw [computeReversePostorder, hvisit]; rfl, ?_⟩
  rw [hout]
  refine reversePostorder_of_found hvisits.found hvisits.nodup fun block => ?_
  constructor
  · exact hvisits.found.reachable block
  · rintro ⟨nodes, hpath⟩
    induction hpath with
    | root => exact (hmarked _).mp (hvisits.begun _ (List.mem_singleton_self _))
    | step _ hedge ih => exact (hmarked _).mp (hvisits.closed _ ih _ hedge)

end Order

end Telomere.Optimizer
