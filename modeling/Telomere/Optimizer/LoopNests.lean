import Telomere.Optimizer.ImmediateDominators

/-!
# Loop headers and loop members

With the immediate dominators, `dominates` decides dominance. A header is to dominate one of its
predecessors; `analyze` asks the question the other way round.
-/

namespace Telomere.Optimizer

open Lib (Reachable RootPath ImmediatelyDominates Ancestor Settled)

section Checks

variable {α β : Type} {l : List α} {P : α → Prop} {check : α → Option Bool}

theorem anyM_ends (h : ∀ x ∈ l, ∃ r, check x = some r ∧ (r = true ↔ P x)) :
    ∃ r, l.anyM check = some r ∧ (r = true ↔ ∃ x ∈ l, P x) := by
  induction l with
  | nil => exact ⟨false, rfl, by simp⟩
  | cons x l ih =>
      obtain ⟨r, hr, hx⟩ := h x (List.mem_cons_self ..)
      obtain ⟨r', hr', hl⟩ := ih fun y hy => h y (List.mem_cons_of_mem _ hy)
      rw [List.anyM, hr]
      cases r with
      | true => exact ⟨true, rfl, by simp [hx.mp rfl]⟩
      | false =>
          refine ⟨r', hr', ?_⟩
          rw [hl, List.exists_mem_cons_iff]
          simp [← hx]

theorem filterAuxM_ends (h : ∀ x ∈ l, ∃ r, check x = some r ∧ (r = true ↔ P x)) (front : List α) :
    ∃ kept, l.filterAuxM check front = some kept ∧ ∀ x, x ∈ kept ↔ x ∈ front ∨ x ∈ l ∧ P x := by
  induction l generalizing front with
  | nil => exact ⟨front, rfl, by simp⟩
  | cons x l ih =>
      obtain ⟨r, hr, hx⟩ := h x (List.mem_cons_self ..)
      obtain ⟨kept, hkept, hl⟩ := ih (fun y hy => h y (List.mem_cons_of_mem _ hy))
        (if r then x :: front else front)
      refine ⟨kept, ?_, fun y => ?_⟩
      · rw [List.filterAuxM, hr]
        cases r <;> exact hkept
      · rw [hl]
        cases r with
        | true =>
            have hPx := hx.mp rfl
            simp only [if_true, List.mem_cons]
            constructor
            · rintro ((rfl | hy) | hy)
              · exact .inr ⟨.inl rfl, hPx⟩
              · exact .inl hy
              · exact .inr ⟨.inr hy.1, hy.2⟩
            · rintro (hy | ⟨rfl | hy, hPy⟩)
              · exact .inl (.inr hy)
              · exact .inl (.inl rfl)
              · exact .inr ⟨hy, hPy⟩
        | false =>
            have hPx : ¬P x := fun hp => Bool.false_ne_true (hx.mpr hp)
            simp only [Bool.false_eq_true, if_false, List.mem_cons]
            constructor
            · exact Or.imp_right fun hy => ⟨.inr hy.1, hy.2⟩
            · rintro (hy | ⟨rfl | hy, hPy⟩)
              · exact .inl hy
              · exact absurd hPy hPx
              · exact .inr ⟨hy, hPy⟩

theorem filterM_ends (h : ∀ x ∈ l, ∃ r, check x = some r ∧ (r = true ↔ P x)) :
    ∃ kept, l.filterM check = some kept ∧ ∀ x, x ∈ kept ↔ x ∈ l ∧ P x := by
  obtain ⟨kept, hkept, hmem⟩ := filterAuxM_ends h []
  refine ⟨kept.reverse, by simp [List.filterM, hkept], fun x => ?_⟩
  rw [List.mem_reverse, hmem]
  simp

theorem mapM_ends {f : α → Option β} {R : α → β → Prop} (h : ∀ x ∈ l, ∃ y, f x = some y ∧ R x y) :
    ∃ ys, l.mapM f = some ys ∧ ∀ (i : Nat) x, l[i]? = some x → ∃ y, ys[i]? = some y ∧ R x y := by
  induction l with
  | nil => exact ⟨[], rfl, by simp⟩
  | cons x l ih =>
      obtain ⟨y, hy, hx⟩ := h x (List.mem_cons_self ..)
      obtain ⟨ys, hys, hl⟩ := ih fun z hz => h z (List.mem_cons_of_mem _ hz)
      refine ⟨y :: ys, by simp [List.mapM_cons, hy, hys], fun i z hz => ?_⟩
      cases i with
      | zero =>
          obtain rfl := Option.some.inj hz
          exact ⟨y, rfl, hx⟩
      | succ i => exact hl i z hz

end Checks

/-- Of the blocks that are not reached each is dominated by itself. -/
def CanonFunc.Dominates (func : CanonFunc) (a b : Nat) : Prop :=
  a = b ∨ Lib.Dominates func.Edge func.entryBlock a b

/-- The entries of `compute_idom`, the parents that the last pass left without that of the entry. -/
structure IsIdom (func : CanonFunc) (rpo : List Nat) (idom : List (Option Nat))
    (t : Nat → Option Nat) : Prop where
  order : IsReversePostorder func rpo
  length : idom.length = func.blocks.length
  settled : Settled func.Edge func.entryBlock rpo.idxOf t
  parents : ∀ b, parent idom b = if b = func.entryBlock then none else t b

section Dominates

variable {func : CanonFunc} {rpo : List Nat} {idom : List (Option Nat)} {t : Nat → Option Nat}

theorem climb_ends (h : IsIdom func rpo idom t) (candidate fuel block : Nat) {d : Nat}
    (hblock : t block = some d) (hfuel : rpo.idxOf block < fuel) :
    ∃ r, climb candidate idom fuel (parent idom block) = some r ∧
      (r = true ↔ Ancestor t candidate block ∧ candidate ≠ block) := by
  induction fuel generalizing block d with
  | zero => omega
  | succ fuel ih =>
      rw [h.parents]
      by_cases hentry : block = func.entryBlock
      · rw [if_pos hentry]
        refine ⟨false, rfl, ?_⟩
        simp only [Bool.false_eq_true, false_iff, not_and, not_not]
        subst hentry
        exact fun hanc => hanc.of_root h.settled.toCandidates
      · rw [if_neg hentry, hblock, climb]
        have hlower := h.settled.lower block d hentry hblock
        by_cases hcand : d = candidate
        · refine ⟨true, by rw [if_pos hcand], ?_⟩
          simp only [true_iff]
          subst hcand
          refine ⟨.step hblock .refl, ?_⟩
          rintro rfl
          omega
        · obtain ⟨e, he⟩ := h.settled.closed block d hblock
          obtain ⟨r, hr, hiff⟩ := ih d he (by omega)
          refine ⟨r, by rw [if_neg hcand]; exact hr, hiff.trans ⟨fun hanc => ?_, fun hanc => ?_⟩⟩
          · refine ⟨.step hblock hanc.1, ?_⟩
            rintro rfl
            have hle := hanc.1.le h.settled.toCandidates
            omega
          · exact ⟨hanc.1.of_parent hanc.2 hblock, Ne.symm hcand⟩

theorem dominates_ends (hwell : func.WellFormed) (h : IsIdom func rpo idom t)
    (candidate block : Nat) : ∃ r, dominates candidate block idom = some r ∧
      (r = true ↔ func.Dominates candidate block) := by
  unfold dominates
  by_cases heq : candidate = block
  · exact ⟨true, by rw [if_pos heq], by simp [CanonFunc.Dominates, heq]⟩
  rw [if_neg heq]
  by_cases hreach : Reachable func.Edge func.entryBlock block
  · obtain ⟨d, hd⟩ := h.settled.found hreach
    have hidx := List.idxOf_lt_length_of_mem ((h.order.mem block).mpr hreach)
    have hlength := h.order.length_le hwell
    obtain ⟨r, hr, hiff⟩ := climb_ends h candidate (idom.length + 1) block hd
      (by rw [h.length]; omega)
    refine ⟨r, hr, ?_⟩
    rw [hiff, h.settled.ancestor_iff hreach, CanonFunc.Dominates]
    tauto
  · have hnone : parent idom block = none := by
      rw [h.parents]
      split
      · rfl
      · cases ht : t block with
        | none => rfl
        | some d => exact absurd (h.settled.reachable block d ht) hreach
    refine ⟨false, by rw [hnone]; rfl, ?_⟩
    simp only [Bool.false_eq_true, false_iff]
    rintro (hself | hdom)
    · exact heq hself
    · exact hreach hdom.1

end Dominates

/-- The edge from `block` to `header` goes back. -/
def CanonFunc.BackEdge (func : CanonFunc) (block header : Nat) : Prop :=
  func.Edge block header ∧ func.Dominates header block

/-- The header and what can reach the source of a back edge to it without passing it. -/
def CanonFunc.InNaturalLoop (func : CanonFunc) (header block : Nat) : Prop :=
  block = header ∨ block ≠ header ∧ ∃ source, func.BackEdge source header ∧
    Relation.ReflTransGen (fun b c => func.Edge b c ∧ c ≠ header) block source

section Members

variable {func : CanonFunc} {header : Nat}

theorem edge_lt {block succ : Nat} (h : func.Edge block succ) : block < func.blocks.length := by
  by_contra hge
  simp [CanonFunc.Edge, CanonFunc.successors, List.getElem?_eq_none (Nat.le_of_not_lt hge)] at h

theorem CanonFunc.InNaturalLoop.lt (h : func.InNaturalLoop header block)
    (hheader : header < func.blocks.length) : block < func.blocks.length := by
  rcases h with rfl | ⟨-, source, hback, hpath⟩
  · exact hheader
  · rcases hpath.cases_head with rfl | ⟨c, hedge, -⟩
    · exact edge_lt hback.1
    · exact edge_lt hedge.1

theorem CanonFunc.InNaturalLoop.pred {block pred : Nat} (h : func.InNaturalLoop header block)
    (hne : block ≠ header) (hedge : func.Edge pred block) : func.InNaturalLoop header pred := by
  obtain ⟨-, source, hback, hpath⟩ := h.resolve_left hne
  by_cases hpred : pred = header
  · exact .inl hpred
  · exact .inr ⟨hpred, source, hback, .head ⟨hedge, hne⟩ hpath⟩

structure Growing (func : CanonFunc) (header : Nat) (members worklist : List Nat) : Prop where
  kept : header ∈ members
  sound : ∀ b, b ∈ members ∨ b ∈ worklist → func.InNaturalLoop header b
  sources : ∀ b, func.BackEdge b header → b ∈ members ∨ b ∈ worklist
  preds : ∀ b ∈ members, b ≠ header → ∀ p, func.Edge p b → p ∈ members ∨ p ∈ worklist

theorem Growing.complete {members : List Nat} (h : Growing func header members [])
    (block : Nat) : block ∈ members ↔ func.InNaturalLoop header block := by
  constructor
  · exact fun hb => h.sound block (.inl hb)
  · rintro (rfl | ⟨-, source, hback, hpath⟩)
    · exact h.kept
    · induction hpath using Relation.ReflTransGen.head_induction_on with
      | refl => simpa using h.sources source hback
      | head hstep _ ih => simpa using h.preds _ ih hstep.2 _ hstep.1

/-- The work that the blocks outside of the loop can still make. -/
def loopWork (func : CanonFunc) (members : List Nat) : Nat :=
  ((List.range func.blocks.length).map fun block =>
    if block ∈ members then 0 else (func.predecessors block).length + 1).sum

theorem loopWork_cons {members : List Nat} {block : Nat} (hblock : block < func.blocks.length)
    (hnot : block ∉ members) :
    loopWork func (block :: members) + (func.predecessors block).length + 1 ≤
      loopWork func members := by
  have hnodup : (List.range func.blocks.length).Nodup := List.nodup_range
  have hmem := List.mem_range.mpr hblock
  unfold loopWork
  generalize List.range func.blocks.length = l at hnodup hmem
  induction l with
  | nil => cases hmem
  | cons first l ih =>
      obtain ⟨hfirst, hnodup⟩ := List.nodup_cons.mp hnodup
      simp only [List.map_cons, List.sum_cons, List.mem_cons]
      by_cases hb : first = block
      · subst hb
        have hrest : (l.map fun b => if b = first ∨ b ∈ members then 0
            else (func.predecessors b).length + 1) =
            l.map fun b => if b ∈ members then 0 else (func.predecessors b).length + 1 := by
          refine List.map_congr_left fun b hb => ?_
          have hne : b ≠ first := by
            rintro rfl
            exact hfirst hb
          simp [hne]
        rw [hrest]
        simp only [true_or, if_true, if_neg hnot]
        omega
      · have hl := ih hnodup ((List.mem_cons.mp hmem).resolve_left (Ne.symm hb))
        simp only [List.mem_cons] at hl
        simp only [hb, false_or]
        omega

theorem growLoop_ends (hwell : func.WellFormed) (hheader : header < func.blocks.length)
    (fuel : Nat) {members worklist : List Nat} (h : Growing func header members worklist)
    (hfuel : worklist.length + loopWork func members < fuel) :
    ∃ grown, growLoop func fuel members worklist = some grown ∧
      ∀ block, block ∈ grown ↔ func.InNaturalLoop header block := by
  induction fuel generalizing members worklist with
  | zero => omega
  | succ fuel ih =>
      cases worklist with
      | nil => exact ⟨members, rfl, h.complete⟩
      | cons block worklist =>
          rw [growLoop]
          rw [List.length_cons] at hfuel
          by_cases hmem : block ∈ members
          · have hdrop : ∀ {b}, b ∈ members ∨ b ∈ block :: worklist →
                b ∈ members ∨ b ∈ worklist := by
              rintro b (hb | hb)
              · exact .inl hb
              · rcases List.mem_cons.mp hb with rfl | hb
                · exact .inl hmem
                · exact .inr hb
            rw [if_pos hmem]
            refine ih ⟨h.kept, fun b hb => h.sound b (hb.imp_right (List.mem_cons_of_mem _)),
              fun b hb => hdrop (h.sources b hb), fun b hb hne p hp => hdrop (h.preds b hb hne p hp)⟩
              (by omega)
          · have hloop := h.sound block (.inr (List.mem_cons_self ..))
            have hblock := hloop.lt hheader
            have hne : block ≠ header := by
              rintro rfl
              exact hmem h.kept
            have hwork := loopWork_cons hblock hmem
            have hfilter := List.length_filter_le (fun p => decide (p ∉ block :: members))
              (func.predecessors block)
            -- Each predecessor is a member or has been put on the worklist.
            have hmove : ∀ {b}, b ∈ members ∨ b ∈ block :: worklist → b ∈ block :: members ∨
                b ∈ ((func.predecessors block).filter
                  (· ∉ block :: members)).reverse ++ worklist := by
              rintro b (hb | hb)
              · exact .inl (List.mem_cons_of_mem _ hb)
              · rcases List.mem_cons.mp hb with rfl | hb
                · exact .inl (List.mem_cons_self ..)
                · exact .inr (List.mem_append_right _ hb)
            rw [if_neg hmem]
            refine ih ⟨List.mem_cons_of_mem _ h.kept, ?_, fun b hb => hmove (h.sources b hb), ?_⟩ ?_
            · rintro b (hb | hb)
              · rcases List.mem_cons.mp hb with rfl | hb
                · exact hloop
                · exact h.sound b (.inl hb)
              · rcases List.mem_append.mp hb with hb | hb
                · have hpred := (List.mem_filter.mp (List.mem_reverse.mp hb)).1
                  exact hloop.pred hne ((hwell.edge_iff hblock).mpr hpred)
                · exact h.sound b (.inr (List.mem_cons_of_mem _ hb))
            · intro b hb hbne p hp
              rcases List.mem_cons.mp hb with rfl | hb
              · by_cases hpm : p ∈ b :: members
                · exact .inl hpm
                · refine .inr (List.mem_append_left _ (List.mem_reverse.mpr ?_))
                  exact List.mem_filter.mpr ⟨(hwell.edge_iff hblock).mp hp, by simpa using hpm⟩
              · exact hmove (h.preds b hb hbne p hp)
            · rw [List.length_append, List.length_reverse]
              omega

theorem membersOf_ends {rpo : List Nat} {idom : List (Option Nat)} {t : Nat → Option Nat}
    (hwell : func.WellFormed) (h : IsIdom func rpo idom t) (hheader : header < func.blocks.length) :
    ∃ members, membersOf func idom header = some members ∧
      ∀ block, block ∈ members ↔ func.InNaturalLoop header block := by
  obtain ⟨worklist, hworklist, hmem⟩ := filterM_ends fun pred _ =>
    dominates_ends hwell h header pred
  have hback : ∀ b, b ∈ worklist ↔ func.BackEdge b header := by
    intro b
    rw [hmem, ← hwell.edge_iff hheader, CanonFunc.BackEdge]
  have hgrowing : Growing func header [header] worklist.reverse := by
    refine ⟨List.mem_singleton_self _, ?_, ?_, ?_⟩
    · rintro b (hb | hb)
      · exact .inl (List.mem_singleton.mp hb)
      · by_cases hbh : b = header
        · exact .inl hbh
        · exact .inr ⟨hbh, b, (hback b).mp (List.mem_reverse.mp hb), .refl⟩
    · exact fun b hb => .inr (List.mem_reverse.mpr ((hback b).mpr hb))
    · exact fun b hb hne => absurd (List.mem_singleton.mp hb) hne
  have hfuel : worklist.reverse.length + loopWork func [header] < worklist.length +
      ((List.range func.blocks.length).map fun block =>
        (func.predecessors block).length + 1).sum + 1 := by
    have hle : loopWork func [header] ≤ ((List.range func.blocks.length).map fun block =>
        (func.predecessors block).length + 1).sum := by
      refine List.sum_le_sum fun b _ => ?_
      split <;> omega
    rw [List.length_reverse]
    omega
  obtain ⟨grown, hgrown, hloop⟩ := growLoop_ends hwell hheader _ hgrowing hfuel
  refine ⟨grown.insertionSort (· ≤ ·), ?_, fun b => ?_⟩
  · simp only [membersOf, hworklist, hgrown, Option.bind_eq_bind, Option.bind_some, Option.pure_def]
  · rw [List.mem_insertionSort, hloop]

end Members

/-- A block that is dominated by one of its predecessors. -/
def CanonFunc.BehindDominator (func : CanonFunc) (block : Nat) : Prop :=
  ∃ pred, func.Edge pred block ∧ func.Dominates pred block

def CanonFunc.IsLoopHeader (func : CanonFunc) (block : Nat) : Prop :=
  ∃ pred, func.BackEdge pred block

def AnalysisResults.IdomRight (func : CanonFunc) (results : AnalysisResults) : Prop :=
  ∀ block, Reachable func.Edge func.entryBlock block → block ≠ func.entryBlock →
    ∃ d, results.idom[block]? = some (some d) ∧
      ImmediatelyDominates func.Edge func.entryBlock d block

structure AnalysisResults.Right (func : CanonFunc) (results : AnalysisResults) : Prop where
  idom : results.IdomRight func
  headers : ∀ block < func.blocks.length,
    (results.loopHeaders[block]? = some true ↔ func.IsLoopHeader block)
  members : ∀ header < func.blocks.length, func.IsLoopHeader header →
    ∃ members, results.loopMembers[header]? = some members ∧
      ∀ block, block ∈ members ↔ func.InNaturalLoop header block

section Analyze

variable {func : CanonFunc}

theorem CanonFunc.WellFormed.id_eq (hwell : func.WellFormed) {block : CanonBlock} {index : Nat}
    (h : func.blocks[index]? = some block) : block.id = index := by
  have hverified := hwell.verified
  simp only [CanonFunc.verify, Bool.and_eq_true, List.all_eq_true] at hverified
  have hmem : (block, index) ∈ func.blocks.zipIdx := List.mk_mem_zipIdx_iff_getElem?.mpr h
  simpa using (hverified.2 _ hmem).1

theorem loopHeaders_ends {rpo : List Nat} {idom : List (Option Nat)} {t : Nat → Option Nat}
    (hwell : func.WellFormed) (h : IsIdom func rpo idom t) :
    ∃ headers, loopHeaders func idom = some headers ∧ ∀ block < func.blocks.length,
      (headers[block]? = some true ↔ func.BehindDominator block) := by
  obtain ⟨headers, hheaders, hall⟩ := @mapM_ends CanonBlock Bool func.blocks
    (fun block => block.predecessors.anyM fun pred => dominates pred block.id idom)
    (fun block r => r = true ↔ ∃ pred ∈ block.predecessors, func.Dominates pred block.id)
    fun block _ => anyM_ends fun pred _ => dominates_ends hwell h pred block.id
  refine ⟨headers, hheaders, fun index hindex => ?_⟩
  obtain ⟨block, hblock⟩ : ∃ block, func.blocks[index]? = some block :=
    ⟨_, List.getElem?_eq_getElem hindex⟩
  obtain ⟨r, hr, hiff⟩ := hall index block hblock
  rw [hwell.id_eq hblock] at hiff
  have hpreds : func.predecessors index = block.predecessors := by
    simp [CanonFunc.predecessors, hblock]
  rw [hr, Option.some.injEq, hiff, CanonFunc.BehindDominator]
  simp only [hwell.edge_iff hindex, hpreds]

theorem computeLoopMembers_ends {rpo : List Nat} {idom : List (Option Nat)} {t : Nat → Option Nat}
    (hwell : func.WellFormed) (h : IsIdom func rpo idom t) (headers : List Bool) :
    ∃ loops, computeLoopMembers func idom headers = some loops ∧
      ∀ header < func.blocks.length, ∃ members, loops[header]? = some members ∧
        ((headers[header]? = some true →
            ∀ block, block ∈ members ↔ func.InNaturalLoop header block) ∧
          (headers[header]? ≠ some true → members = [])) := by
  obtain ⟨loops, hloops, hall⟩ := @mapM_ends Nat (List Nat) (List.range func.blocks.length)
    (fun header => if headers[header]? = some true then membersOf func idom header else some [])
    (fun header members =>
      (headers[header]? = some true → ∀ block, block ∈ members ↔ func.InNaturalLoop header block) ∧
        (headers[header]? ≠ some true → members = []))
    fun header hheader => by
      by_cases hmarked : headers[header]? = some true
      · obtain ⟨members, hmembers, hmem⟩ := membersOf_ends hwell h (List.mem_range.mp hheader)
        exact ⟨members, by rw [if_pos hmarked, hmembers], fun _ => hmem, fun hn => absurd hmarked hn⟩
      · exact ⟨[], by rw [if_neg hmarked], fun hm => absurd hm hmarked, fun _ => rfl⟩
  exact ⟨loops, hloops, fun header hheader =>
    hall header header (by simp [List.getElem?_range hheader])⟩

/-- The analysis ends with the immediate dominators. It is right about the loops exactly when the
blocks behind one of their dominators are the targets of back edges. -/
theorem analyze_right_iff (hwell : func.WellFormed) :
    ∃ results, analyze func = some results ∧ results.IdomRight func ∧
      (results.Right func ↔
        ∀ block < func.blocks.length, func.BehindDominator block ↔ func.IsLoopHeader block) := by
  obtain ⟨rpo, hrpo, hreverse⟩ := computeReversePostorder_isReversePostorder hwell
  obtain ⟨idom, t, hidom, hlength, hsettled, hparents⟩ := computeIdom_immediate hwell hreverse
  have his : IsIdom func rpo idom t := ⟨hreverse, hlength, hsettled, hparents⟩
  obtain ⟨headers, hheaders, hmarked⟩ := loopHeaders_ends hwell his
  obtain ⟨loops, hloops, hmembers⟩ := computeLoopMembers_ends hwell his headers
  have hright : AnalysisResults.IdomRight func ⟨rpo, idom, headers, loops⟩ := by
    intro block hreach hne
    obtain ⟨d, hd⟩ := hsettled.found hreach
    refine ⟨d, ?_, hsettled.immediate hne hd⟩
    have hparent := hparents block
    rw [if_neg hne, hd] at hparent
    exact Option.join_eq_some_iff.mp hparent
  refine ⟨⟨rpo, idom, headers, loops⟩, ?_, hright, ?_⟩
  · simp only [analyze, hrpo, hidom, hheaders, hloops, Option.bind_eq_bind, Option.bind_some,
      Option.pure_def]
  constructor
  · intro hright block hblock
    rw [← hmarked block hblock]
    exact hright.headers block hblock
  · intro hagree
    refine ⟨hright, ?_, ?_⟩
    · intro block hblock
      rw [hmarked block hblock]
      exact hagree block hblock
    · intro header hheader hloop
      obtain ⟨members, hget, hmem, -⟩ := hmembers header hheader
      exact ⟨members, hget, hmem ((hmarked header hheader).mpr ((hagree header hheader).mpr hloop))⟩

end Analyze

/-- The second block is its own loop. -/
def selfLoop : CanonFunc :=
  ⟨0, [⟨0, [], [], [1]⟩, ⟨1, [], [0, 1], [1]⟩]⟩

theorem analyze_right_iff_selfLoop : ∃ results, analyze selfLoop = some results ∧
    results.IdomRight selfLoop ∧ (results.Right selfLoop ↔ ∀ block < selfLoop.blocks.length,
      selfLoop.BehindDominator block ↔ selfLoop.IsLoopHeader block) :=
  analyze_right_iff ⟨by decide, by decide, by decide, by decide⟩

def straightLine : CanonFunc :=
  ⟨0, [⟨0, [], [], [1]⟩, ⟨1, [], [0], []⟩]⟩

theorem straightLine_marked : straightLine.WellFormed ∧
    ∃ results, analyze straightLine = some results ∧ ¬results.Right straightLine := by
  refine ⟨⟨by decide, by decide, by decide, by decide⟩, _, rfl, fun hright => ?_⟩
  obtain ⟨pred, hedge, hdom⟩ := (hright.headers 1 (by decide)).mp rfl
  have hpred : pred = 0 := by
    have hlt := edge_lt hedge
    have hcases : pred = 0 ∨ pred = 1 := by
      simp only [straightLine, List.length_cons, List.length_nil] at hlt
      omega
    rcases hcases with rfl | rfl
    · rfl
    · exact absurd hedge (by decide)
  subst hpred
  rcases hdom with hself | hdom
  · cases hself
  · exact absurd (hdom.2 _ .root) (by decide)

end Telomere.Optimizer
