import Mathlib.Algebra.BigOperators.Group.List.Basic
import Mathlib.Algebra.Order.BigOperators.Group.List
import Telomere.Optimizer.PostOrder

/-!
# The immediate dominators

Each pass is a sweep along the reverse postorder. A pass that changes something moves a block's entry
to an earlier block, so the passes end; and what the last one leaves are the immediate dominators.
-/

namespace Telomere.Optimizer

open Lib (Reachable Dominates ImmediatelyDominates Ancestor Candidates Meets Swept Settled)

section Entries

variable {idom : List (Option Nat)} {block c n : Nat}

theorem parent_set (hblock : block < idom.length) (value : Option Nat) :
    parent (idom.set block value) c = if c = block then value else parent idom c := by
  unfold parent
  rw [List.getElem?_set]
  by_cases hc : c = block
  · simp [hc, hblock]
  · simp [hc, Ne.symm hc]

theorem blockOrder_fold {rpo order : List Nat} {k : Nat} (hnodup : rpo.Nodup)
    (hrange : ∀ b ∈ rpo, b < order.length) :
    (∀ b ∈ rpo, ((rpo.zipIdx k).foldl (fun order (block, index) => order.set block index) order)[b]? =
      some (k + rpo.idxOf b)) ∧
    ∀ b, b ∉ rpo → ((rpo.zipIdx k).foldl (fun order (block, index) => order.set block index)
      order)[b]? = order[b]? := by
  induction rpo generalizing order k with
  | nil => simp
  | cons first rpo ih =>
      obtain ⟨hfirst, hnodup⟩ := List.nodup_cons.mp hnodup
      obtain ⟨hin, hout⟩ := @ih (order.set first k) (k + 1) hnodup
        (by simpa using fun b hb => hrange b (List.mem_cons_of_mem _ hb))
      constructor
      · intro b hb
        rw [List.zipIdx_cons, List.foldl_cons]
        by_cases hbf : b = first
        · subst hbf
          rw [hout b hfirst, List.getElem?_set_self (hrange b hb), List.idxOf_cons_self]
          simp
        · rw [hin b ((List.mem_cons.mp hb).resolve_left hbf),
            List.idxOf_cons_ne _ (Ne.symm hbf)]
          congr 1
          omega
      · intro b hb
        rw [List.zipIdx_cons, List.foldl_cons, hout b (fun h => hb (List.mem_cons_of_mem _ h)),
          List.getElem?_set_ne (fun h => hb (by simp [h]))]

end Entries

theorem IsReversePostorder.lt {func : CanonFunc} {rpo : List Nat} (hwell : func.WellFormed)
    (h : IsReversePostorder func rpo) {block : Nat} (hblock : block ∈ rpo) :
    block < func.blocks.length := by
  obtain ⟨nodes, hpath⟩ := (h.mem block).mp hblock
  cases hpath with
  | root => exact hwell.entry
  | step _ hedge => exact hwell.successor_lt hedge

theorem IsReversePostorder.length_le {func : CanonFunc} {rpo : List Nat} (hwell : func.WellFormed)
    (h : IsReversePostorder func rpo) : rpo.length ≤ func.blocks.length := by
  have hsub : rpo ⊆ List.range func.blocks.length := fun b hb => List.mem_range.mpr (h.lt hwell hb)
  simpa using (List.subperm_of_subset h.nodup hsub).length_le

theorem blockOrder_eq {func : CanonFunc} {rpo : List Nat} (hwell : func.WellFormed)
    (h : IsReversePostorder func rpo) {block : Nat}
    (hblock : Reachable func.Edge func.entryBlock block) :
    (blockOrder func rpo)[block]? = some (rpo.idxOf block) := by
  have hfold := (@blockOrder_fold rpo (List.replicate func.blocks.length (2 ^ 64 - 1)) 0 h.nodup
    (fun b hb => by simpa using h.lt hwell hb)).1 block ((h.mem block).mpr hblock)
  rwa [Nat.zero_add] at hfold

section Intersect

variable {func : CanonFunc} {rpo order : List Nat} {idom : List (Option Nat)}

theorem intersect_meets (h : IsReversePostorder func rpo)
    (hcand : Candidates func.Edge func.entryBlock rpo.idxOf (parent idom))
    (horder : ∀ b, Reachable func.Edge func.entryBlock b → order[b]? = some (rpo.idxOf b))
    (fuel lhs rhs : Nat) {dl dr : Nat} (hlhs : parent idom lhs = some dl)
    (hrhs : parent idom rhs = some dr) (hfuel : rpo.idxOf lhs + rpo.idxOf rhs < fuel) :
    ∃ n, intersect idom order fuel lhs rhs = some n ∧ Ancestor (parent idom) n lhs ∧
      Ancestor (parent idom) n rhs ∧ ∀ x, Ancestor (parent idom) x lhs →
        Ancestor (parent idom) x rhs → Ancestor (parent idom) x n := by
  induction fuel generalizing lhs rhs dl dr with
  | zero => omega
  | succ fuel ih =>
      have hl := hcand.reachable lhs dl hlhs
      have hr := hcand.reachable rhs dr hrhs
      have hroot : ∀ b, rpo.idxOf b ≠ 0 → b ≠ func.entryBlock := by
        rintro b hb rfl
        exact hb h.order.start
      rw [intersect]
      by_cases heq : lhs = rhs
      · subst heq
        exact ⟨lhs, by simp, .refl, .refl, fun x hx _ => hx⟩
      rw [if_neg heq, horder lhs hl, horder rhs hr]
      simp only [Option.bind_eq_bind, Option.bind_some]
      by_cases hgt : rpo.idxOf lhs > rpo.idxOf rhs
      · -- The later one is no common ancestor.
        have hlower := hcand.lower lhs dl (hroot lhs (by omega)) hlhs
        obtain ⟨e, he⟩ := hcand.closed lhs dl hlhs
        obtain ⟨n, hn, hnl, hnr, hlast⟩ := ih dl rhs he hrhs (by omega)
        refine ⟨n, by rw [if_pos hgt, hlhs]; exact hn, .step hlhs hnl, hnr, fun x hxl hxr => ?_⟩
        refine hlast x (hxl.of_parent ?_ hlhs) hxr
        rintro rfl
        have hle := hxr.le hcand
        omega
      · have hlt : rpo.idxOf rhs > rpo.idxOf lhs := by
          have hne : rpo.idxOf lhs ≠ rpo.idxOf rhs :=
            fun hidx => heq (h.order.injective lhs rhs hl hr hidx)
          omega
        have hlower := hcand.lower rhs dr (hroot rhs (by omega)) hrhs
        obtain ⟨e, he⟩ := hcand.closed rhs dr hrhs
        obtain ⟨n, hn, hnl, hnr, hlast⟩ := ih lhs dr hlhs he (by omega)
        refine ⟨n, by rw [if_neg hgt, if_pos hlt, hrhs]; exact hn, hnl, .step hrhs hnr,
          fun x hxl hxr => ?_⟩
        refine hlast x hxl (hxr.of_parent ?_ hrhs)
        rintro rfl
        have hle := hxl.le hcand
        omega

theorem intersectAll_meets (h : IsReversePostorder func rpo)
    (hcand : Candidates func.Edge func.entryBlock rpo.idxOf (parent idom))
    (horder : ∀ b, Reachable func.Edge func.entryBlock b → order[b]? = some (rpo.idxOf b))
    (fuel : Nat) (hfuel : 2 * rpo.length < fuel) (preds : List Nat) (first : Nat) {d : Nat}
    (hfirst : parent idom first = some d) (hpreds : ∀ p ∈ preds, (parent idom p).isSome) :
    ∃ n, preds.foldlM (fun n pred => intersect idom order fuel pred n) first = some n ∧
      (∀ p ∈ first :: preds, Ancestor (parent idom) n p) ∧
        ∀ x, (∀ p ∈ first :: preds, Ancestor (parent idom) x p) → Ancestor (parent idom) x n := by
  induction preds generalizing first d with
  | nil => exact ⟨first, rfl, by simpa using Ancestor.refl, fun x hx => hx first (by simp)⟩
  | cons pred preds ih =>
      obtain ⟨dp, hdp⟩ := Option.isSome_iff_exists.mp (hpreds pred (List.mem_cons_self ..))
      have hlt : ∀ b e, parent idom b = some e → rpo.idxOf b < rpo.length := fun b e he =>
        List.idxOf_lt_length_of_mem ((h.mem b).mpr (hcand.reachable b e he))
      have hlp := hlt pred dp hdp
      have hlf := hlt first d hfirst
      obtain ⟨n, hn, hnp, hnf, hlast⟩ := intersect_meets h hcand horder fuel pred first hdp hfirst
        (by omega)
      obtain ⟨e, he⟩ := hnf.found hcand hfirst
      obtain ⟨m, hm, habove, hlast'⟩ := ih n he fun p hp => hpreds p (List.mem_cons_of_mem _ hp)
      have hmn : Ancestor (parent idom) m n := habove n (List.mem_cons_self ..)
      refine ⟨m, by rw [List.foldlM_cons, hn]; exact hm, ?_, fun x hx => ?_⟩
      · intro p hp
        rcases List.mem_cons.mp hp with rfl | hp
        · exact hmn.trans hnf
        · rcases List.mem_cons.mp hp with rfl | hp
          · exact hmn.trans hnp
          · exact habove p (List.mem_cons_of_mem _ hp)
      · refine hlast' x fun p hp => ?_
        rcases List.mem_cons.mp hp with rfl | hp
        · exact hlast x (hx pred (by simp)) (hx first (by simp))
        · exact hx p (by simp [hp])

end Intersect

def idomWeight (rpo : List Nat) (idom : List (Option Nat)) : Nat :=
  (rpo.map fun block => ((parent idom block).map rpo.idxOf).getD rpo.length).sum

section Passes

variable {func : CanonFunc} {rpo : List Nat} {idom : List (Option Nat)} {old : Nat → Option Nat}
  {block i : Nat}

theorem idomWeight_set {d : Nat} (hmem : block ∈ rpo) (hblock : block < idom.length)
    (hlt : rpo.idxOf d < ((parent idom block).map rpo.idxOf).getD rpo.length) :
    idomWeight rpo (idom.set block (some d)) < idomWeight rpo idom := by
  refine List.sum_lt_sum _ _ (fun b _ => ?_) ⟨block, hmem, ?_⟩
  · rw [parent_set hblock]
    by_cases hb : b = block
    · subst hb
      simpa using hlt.le
    · rw [if_neg hb]
  · rw [parent_set hblock, if_pos rfl]
    exact hlt

theorem idomWeight_le : idomWeight rpo idom ≤ rpo.length * rpo.length := by
  have hsum := List.sum_le_card_nsmul (rpo.map fun block =>
    ((parent idom block).map rpo.idxOf).getD rpo.length) rpo.length ?_
  · simpa [idomWeight] using hsum
  · intro weight hmem
    obtain ⟨b, -, rfl⟩ := List.mem_map.mp hmem
    cases hb : parent idom b with
    | none => simp
    | some d => simpa using List.idxOf_le_length

/-- A pass at one block: the entry changes to an earlier one, or it was right. -/
theorem updateIdom_swept (hwell : func.WellFormed) (h : IsReversePostorder func rpo)
    (hswept : Swept func.Edge func.entryBlock rpo.idxOf old (parent idom) i)
    (hlength : idom.length = func.blocks.length) (hmem : block ∈ rpo)
    (hne : block ≠ func.entryBlock) (hi : rpo.idxOf block = i) (changed : Bool) :
    ∃ idom' changed', updateIdom func (blockOrder func rpo) (idom, changed) block =
        some (idom', changed') ∧ idom'.length = idom.length ∧
      Swept func.Edge func.entryBlock rpo.idxOf old (parent idom') (i + 1) ∧
      (idom' = idom ∧ changed' = changed ∧
          (∃ d, parent idom block = some d ∧ Meets func.Edge (parent idom) block d) ∨
        changed' = true ∧ idomWeight rpo idom' < idomWeight rpo idom) := by
  have hblock := h.lt hwell hmem
  have hreach := (h.mem block).mp hmem
  have hrpo := h.length_le hwell
  -- One predecessor comes earlier and has its entry.
  obtain ⟨f, hf, hedge, hlt⟩ := h.order.forward block hreach hne
  obtain ⟨e, he⟩ := hswept.done f hf (by omega)
  have hpreds : ∀ p, p ∈ (func.predecessors block).filter (fun p => (parent idom p).isSome) ↔
      func.Edge p block ∧ (parent idom p).isSome := by
    intro p
    rw [List.mem_filter, hwell.edge_iff hblock]
  unfold updateIdom
  dsimp only
  cases hfilter : (func.predecessors block).filter (fun p => (parent idom p).isSome) with
  | nil =>
      have hmemf := (hpreds f).mpr ⟨hedge, by simp [he]⟩
      rw [hfilter] at hmemf
      cases hmemf
  | cons first preds =>
      rw [hfilter] at hpreds
      have hfirst := (hpreds first).mp (List.mem_cons_self ..)
      obtain ⟨d, hd⟩ := Option.isSome_iff_exists.mp hfirst.2
      obtain ⟨n, hn, habove, hlast⟩ := intersectAll_meets h hswept.after
        (fun b hb => blockOrder_eq hwell h hb) (2 * func.blocks.length + 1) (by omega) preds first hd
        (fun p hp => ((hpreds p).mp (List.mem_cons_of_mem _ hp)).2)
      have hmeets : Meets func.Edge (parent idom) block n :=
        ⟨fun p e hp hpe => habove p ((hpreds p).mpr ⟨hp, by simp [hpe]⟩),
          fun x hx => hlast x fun p hp => by
            obtain ⟨hp, hsome⟩ := (hpreds p).mp hp
            obtain ⟨e, he⟩ := Option.isSome_iff_exists.mp hsome
            exact hx p e hp he⟩
      dsimp only
      rw [hn]
      simp only [Option.bind_eq_bind, Option.bind_some]
      by_cases hsame : parent idom block = some n
      · refine ⟨idom, changed, by rw [if_neg (by simpa using hsame)]; rfl, rfl, ?_,
          .inl ⟨rfl, rfl, n, hsame, hmeets⟩⟩
        exact hswept.step h.order hreach hne hi hmeets hsame fun _ _ => rfl
      · refine ⟨idom.set block (some n), true, by rw [if_pos hsame]; rfl, by simp, ?_,
          .inr ⟨rfl, ?_⟩⟩
        · refine hswept.step h.order hreach hne hi hmeets ?_ ?_
          · rw [parent_set (by omega), if_pos rfl]
          · intro c hc
            rw [parent_set (by omega), if_neg hc]
        · refine idomWeight_set hmem (by omega) ?_
          cases hold : parent idom block with
          | none =>
              obtain ⟨e', he'⟩ := (habove first (List.mem_cons_self ..)).found hswept.after hd
              exact List.idxOf_lt_length_of_mem ((h.mem n).mpr (hswept.after.reachable n e' he'))
          | some d' =>
              have hup := hswept.above h.order hreach hne hi hmeets hold
              refine hup.lt hswept.after ?_
              rintro rfl
              exact hsame hold

theorem pass_swept (hwell : func.WellFormed) (h : IsReversePostorder func rpo)
    (front back : List Nat) (hsplit : rpo = front ++ back) (hfront : front ≠ [])
    (hswept : Swept func.Edge func.entryBlock rpo.idxOf old (parent idom) front.length)
    (hlength : idom.length = func.blocks.length) (changed : Bool) :
    ∃ idom' changed', back.foldlM (updateIdom func (blockOrder func rpo)) (idom, changed) =
        some (idom', changed') ∧ idom'.length = idom.length ∧
      Swept func.Edge func.entryBlock rpo.idxOf old (parent idom') rpo.length ∧
      (idom' = idom ∧ changed' = changed ∧
          (∀ b ∈ back, ∃ d, parent idom b = some d ∧ Meets func.Edge (parent idom) b d) ∨
        changed' = true ∧ idomWeight rpo idom' < idomWeight rpo idom) := by
  induction back generalizing front idom changed with
  | nil =>
      have hlen : rpo.length = front.length := by rw [hsplit, List.append_nil]
      exact ⟨idom, changed, rfl, rfl, hlen ▸ hswept, .inl ⟨rfl, rfl, by simp⟩⟩
  | cons block back ih =>
      have hnodup := hsplit ▸ h.nodup
      have hnot : block ∉ front := fun hb =>
        (List.nodup_append'.mp hnodup).2.2 hb (List.mem_cons_self ..)
      have hidx : rpo.idxOf block = front.length := by
        rw [hsplit, List.idxOf_append_of_notMem hnot]
        simp
      have hne : block ≠ func.entryBlock := by
        rintro rfl
        have hzero := h.order.start
        rw [hidx] at hzero
        exact hfront (List.length_eq_zero_iff.mp hzero)
      have hmem : block ∈ rpo := by
        rw [hsplit]
        simp
      obtain ⟨idom₁, changed₁, hstep, hlength₁, hswept₁, hcase₁⟩ :=
        updateIdom_swept hwell h hswept hlength hmem hne hidx changed
      obtain ⟨idom₂, changed₂, hrest, hlength₂, hswept₂, hcase₂⟩ :=
        ih (front ++ [block]) (by simp [hsplit]) (by simp) (by simpa using hswept₁)
          (hlength₁.trans hlength) changed₁
      refine ⟨idom₂, changed₂, by rw [List.foldlM_cons, hstep]; exact hrest,
        hlength₂.trans hlength₁, hswept₂, ?_⟩
      rcases hcase₁ with ⟨rfl, rfl, hmeets⟩ | ⟨rfl, hlt⟩
      · rcases hcase₂ with ⟨rfl, rfl, hall⟩ | ⟨rfl, hlt⟩
        · exact .inl ⟨rfl, rfl, List.forall_mem_cons.mpr ⟨hmeets, hall⟩⟩
        · exact .inr ⟨rfl, hlt⟩
      · rcases hcase₂ with ⟨rfl, rfl, -⟩ | ⟨rfl, hlt'⟩
        · exact .inr ⟨rfl, hlt⟩
        · exact .inr ⟨rfl, hlt'.trans hlt⟩

structure Ready (func : CanonFunc) (rpo : List Nat) (idom : List (Option Nat)) : Prop where
  length : idom.length = func.blocks.length
  candidates : Candidates func.Edge func.entryBlock rpo.idxOf (parent idom)
  forward : ∀ b d, b ≠ func.entryBlock → parent idom b = some d → ∀ f, func.Edge f b →
    Reachable func.Edge func.entryBlock f → rpo.idxOf f < rpo.idxOf b →
      Ancestor (parent idom) d f

theorem idomPasses_settled (hwell : func.WellFormed) (h : IsReversePostorder func rpo) (fuel : Nat)
    (hready : Ready func rpo idom) (hfuel : idomWeight rpo idom < fuel) :
    ∃ idom', idomPasses func rpo (blockOrder func rpo) fuel idom = some idom' ∧
      idom'.length = func.blocks.length ∧
        Settled func.Edge func.entryBlock rpo.idxOf (parent idom') := by
  induction fuel generalizing idom with
  | zero => omega
  | succ fuel ih =>
      obtain ⟨rest, hrest⟩ := h.head
      obtain ⟨idom₁, changed, hpass, hlength, hswept, hcase⟩ :=
        pass_swept hwell h [func.entryBlock] rest hrest (by simp)
          (Swept.start h.order hready.candidates hready.forward) hready.length false
      have hdrop : rpo.drop 1 = rest := by rw [hrest]; rfl
      have hlast : ∀ b, Reachable func.Edge func.entryBlock b → rpo.idxOf b < rpo.length :=
        fun b hb => List.idxOf_lt_length_of_mem ((h.mem b).mpr hb)
      rw [idomPasses, hdrop, hpass]
      rcases hcase with ⟨rfl, rfl, hmeets⟩ | ⟨rfl, hlt⟩
      · refine ⟨idom₁, by simp, hready.length, hready.candidates, fun b hb hne => ?_⟩
        have hmem : b ∈ rest := by
          have hb' := (h.mem b).mpr hb
          rw [hrest] at hb'
          exact (List.mem_cons.mp hb').resolve_left hne
        obtain ⟨d, hd, hmeet⟩ := hmeets b hmem
        refine ⟨d, hd, fun p hp hreach => ?_⟩
        obtain ⟨e, he⟩ := hswept.done p hreach (hlast p hreach)
        exact hmeet.above p e hp he
      · have hready₁ : Ready func rpo idom₁ := by
          refine ⟨hlength.trans hready.length, hswept.after, fun b d hne hd f hf hreach hlt' => ?_⟩
          exact hswept.forwardNow b d hne (hlast b (hswept.after.reachable b d hd)) hd f hf hreach
            hlt'
        simpa using ih hready₁ (by omega)

end Passes

theorem init_ready {func : CanonFunc} (hwell : func.WellFormed) {rpo : List Nat} :
    Ready func rpo ((List.replicate func.blocks.length none).set func.entryBlock
      (some func.entryBlock)) := by
  have hparent : ∀ b, parent ((List.replicate func.blocks.length none).set func.entryBlock
      (some func.entryBlock)) b = if b = func.entryBlock then some func.entryBlock else none := by
    intro b
    rw [parent_set (by simpa using hwell.entry)]
    by_cases hb : b = func.entryBlock
    · simp [hb]
    · rw [if_neg hb, if_neg hb, parent, List.getElem?_replicate]
      split <;> rfl
  refine ⟨by simp, Candidates.init (by rw [hparent, if_pos rfl]) ?_, ?_⟩
  · intro b hb
    rw [hparent, if_neg hb]
  · intro b d hne hd
    rw [hparent, if_neg hne] at hd
    cases hd

/-- The loops end, and the entries are the immediate dominators; the entry block has none, and
neither has a block that is not reached. -/
theorem computeIdom_immediate {func : CanonFunc} (hwell : func.WellFormed) {rpo : List Nat}
    (h : IsReversePostorder func rpo) :
    ∃ idom t, computeIdom func rpo = some idom ∧ idom.length = func.blocks.length ∧
      Settled func.Edge func.entryBlock rpo.idxOf t ∧
        ∀ b, parent idom b = if b = func.entryBlock then none else t b := by
  have hready : Ready func rpo _ := init_ready hwell
  have hweight : idomWeight rpo ((List.replicate func.blocks.length none).set func.entryBlock
      (some func.entryBlock)) < func.blocks.length * func.blocks.length + 1 := by
    refine Nat.lt_succ_of_le (idomWeight_le.trans ?_)
    exact Nat.mul_le_mul (h.length_le hwell) (h.length_le hwell)
  obtain ⟨idom, hpasses, hlength, hsettled⟩ := idomPasses_settled hwell h _ hready hweight
  refine ⟨idom.set func.entryBlock none, parent idom, ?_, by simpa using hlength, hsettled, ?_⟩
  · simp only [computeIdom, hpasses, Option.bind_eq_bind, Option.bind_some, Option.pure_def]
  · exact fun b => parent_set (by rw [hlength]; exact hwell.entry) none

end Telomere.Optimizer
