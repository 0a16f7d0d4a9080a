import Mathlib.Algebra.Order.Ring.Nat
import Mathlib.Logic.Relation

/-!
# Dominance

A node dominates another one when every path from the root to that one passes it. Candidates for the
immediate dominators, one parent for each node, are improved in sweeps along a numbering of the nodes
until each parent is the last common ancestor of the predecessors; then they are the immediate
dominators.
-/

namespace Telomere.Lib

inductive RootPath {V : Type} (edge : V → V → Prop) (root : V) : V → List V → Prop where
  | root : RootPath edge root root [root]
  | step {u v : V} {nodes : List V} :
      RootPath edge root u nodes → edge u v → RootPath edge root v (v :: nodes)

section Dominance

variable {V : Type} (edge : V → V → Prop) (root : V)

def Reachable (v : V) : Prop := ∃ nodes, RootPath edge root v nodes

/-- `a` dominates `b`. -/
def Dominates (a b : V) : Prop :=
  Reachable edge root b ∧ ∀ nodes, RootPath edge root b nodes → a ∈ nodes

def StrictlyDominates (a b : V) : Prop := Dominates edge root a b ∧ a ≠ b

/-- The strict dominator that every other one dominates. -/
def ImmediatelyDominates (a b : V) : Prop :=
  StrictlyDominates edge root a b ∧ ∀ x, StrictlyDominates edge root x b → Dominates edge root x a

variable {edge root} {a b c d : V}

theorem Reachable.step {u v : V} (h : Reachable edge root u) (hedge : edge u v) :
    Reachable edge root v := by
  obtain ⟨nodes, hpath⟩ := h
  exact ⟨_, .step hpath hedge⟩

theorem Reachable.start : Reachable edge root root := ⟨_, .root⟩

theorem Dominates.of_root (h : Dominates edge root a root) : a = root :=
  List.mem_singleton.mp (h.2 _ .root)

theorem StrictlyDominates.pred {p : V} (h : StrictlyDominates edge root a b) (hedge : edge p b)
    (hp : Reachable edge root p) : Dominates edge root a p := by
  refine ⟨hp, fun nodes hpath => ?_⟩
  exact (List.mem_cons.mp (h.1.2 _ (.step hpath hedge))).resolve_left h.2

end Dominance

section Candidates

variable {V : Type} {edge : V → V → Prop} {root : V} {order : V → Nat}
  {parent old now next : V → Option V} {a b c d n x : V}

/-- `a` is `b` or an ancestor of it. -/
def Ancestor (parent : V → Option V) (a b : V) : Prop :=
  Relation.ReflTransGen (fun c d => parent c = some d) b a

theorem Ancestor.refl : Ancestor parent a a := Relation.ReflTransGen.refl

theorem Ancestor.step (hparent : parent b = some d) (h : Ancestor parent a d) :
    Ancestor parent a b :=
  Relation.ReflTransGen.head hparent h

theorem Ancestor.trans (hab : Ancestor parent a b) (hbc : Ancestor parent b c) :
    Ancestor parent a c :=
  Relation.ReflTransGen.trans hbc hab

theorem Ancestor.cases (h : Ancestor parent a b) :
    a = b ∨ ∃ d, parent b = some d ∧ Ancestor parent a d :=
  h.cases_head.imp_left Eq.symm

theorem Ancestor.of_parent (h : Ancestor parent a b) (hne : a ≠ b) (hparent : parent b = some d) :
    Ancestor parent a d := by
  obtain ⟨e, he, h⟩ := h.cases.resolve_left hne
  obtain rfl := Option.some.inj (hparent.symm.trans he)
  exact h

/-- A numbering of the nodes in which each node comes after one of its predecessors. -/
structure ForwardOrder (edge : V → V → Prop) (root : V) (order : V → Nat) : Prop where
  start : order root = 0
  injective : ∀ a b, Reachable edge root a → Reachable edge root b → order a = order b → a = b
  forward : ∀ b, Reachable edge root b → b ≠ root →
    ∃ f, Reachable edge root f ∧ edge f b ∧ order f < order b

/-- Parents of some nodes, which come before them. All that strictly dominates a node dominates its
parent; and what is common to the predecessors found so far comes no later than the parent. -/
structure Candidates (edge : V → V → Prop) (root : V) (order : V → Nat) (parent : V → Option V) :
    Prop where
  start : parent root = some root
  reachable : ∀ b d, parent b = some d → Reachable edge root b
  lower : ∀ b d, b ≠ root → parent b = some d → order d < order b
  closed : ∀ b d, parent b = some d → ∃ e, parent d = some e
  sound : ∀ b d, b ≠ root → parent b = some d → ∀ x, StrictlyDominates edge root x b →
    Dominates edge root x d
  common : ∀ b d, b ≠ root → parent b = some d → ∀ x,
    (∀ p e, edge p b → parent p = some e → Ancestor parent x p) → order x ≤ order d

/-- The last common ancestor of the predecessors found so far. -/
structure Meets (edge : V → V → Prop) (parent : V → Option V) (b n : V) : Prop where
  above : ∀ p e, edge p b → parent p = some e → Ancestor parent n p
  last : ∀ x, (∀ p e, edge p b → parent p = some e → Ancestor parent x p) → Ancestor parent x n

theorem Ancestor.of_root (h : Candidates edge root order parent) (ha : Ancestor parent a root) :
    a = root := by
  induction ha with
  | refl => rfl
  | tail _ hparent ih =>
      rw [ih, h.start] at hparent
      exact (Option.some.inj hparent).symm

theorem Ancestor.found (h : Candidates edge root order parent) (ha : Ancestor parent a b)
    (hb : parent b = some d) : ∃ e, parent a = some e := by
  induction ha with
  | refl => exact ⟨d, hb⟩
  | tail _ hparent _ => exact h.closed _ _ hparent

theorem Ancestor.le (h : Candidates edge root order parent) (ha : Ancestor parent a b) :
    order a ≤ order b := by
  induction ha with
  | refl => exact Nat.le_refl _
  | @tail c d _ hparent ih =>
      by_cases hc : c = root
      · rw [hc, h.start] at hparent
        obtain rfl := Option.some.inj hparent
        rwa [hc] at ih
      · exact (h.lower c d hc hparent).le.trans ih

theorem Ancestor.lt (h : Candidates edge root order parent) (ha : Ancestor parent a b)
    (hne : a ≠ b) : order a < order b := by
  obtain ⟨d, hparent, ha⟩ := ha.cases.resolve_left hne
  by_cases hb : b = root
  · subst hb
    rw [h.start] at hparent
    obtain rfl := Option.some.inj hparent
    exact absurd (ha.of_root h) hne
  · exact (ha.le h).trans_lt (h.lower b d hb hparent)

theorem Candidates.ancestor_of_dominates (h : Candidates edge root order parent)
    (hb : parent b = some d) (hx : Dominates edge root x b) : Ancestor parent x b := by
  induction hn : order b using Nat.strongRecOn generalizing b d with
  | ind n ih =>
      by_cases hroot : b = root
      · subst hroot
        rw [hx.of_root]
        exact .refl
      by_cases hxb : x = b
      · rw [hxb]
        exact .refl
      obtain ⟨e, he⟩ := h.closed b d hb
      have hlower := h.lower b d hroot hb
      exact .step hb (ih (order d) (by omega) he (h.sound b d hroot hb x ⟨hx, hxb⟩) rfl)

theorem Dominates.up (h : Candidates edge root order parent) (ha : Ancestor parent a b)
    (hx : Dominates edge root x b) (hle : order x ≤ order a) : Dominates edge root x a := by
  induction ha using Relation.ReflTransGen.head_induction_on with
  | refl => exact hx
  | @head c e hstep hae ih =>
      by_cases hroot : c = root
      · subst hroot
        rw [h.start] at hstep
        obtain rfl := Option.some.inj hstep
        exact ih hx
      · have hlower := h.lower c e hroot hstep
        have hae' : order a ≤ order e := Ancestor.le h hae
        have hxc : x ≠ c := by
          rintro rfl
          omega
        exact ih (h.sound c e hroot hstep x ⟨hx, hxc⟩)

theorem Candidates.init (hroot : parent root = some root)
    (hother : ∀ b, b ≠ root → parent b = none) : Candidates edge root order parent := by
  have honly : ∀ b d, parent b = some d → b = root := by
    intro b d hb
    by_contra hne
    rw [hother b hne] at hb
    cases hb
  refine ⟨hroot, ?_, ?_, ?_, ?_, ?_⟩
  · intro b d hb
    rw [honly b d hb]
    exact .start
  · exact fun b d hne hb => absurd (honly b d hb) hne
  · intro b d hb
    obtain rfl := honly b d hb
    rw [hroot] at hb
    obtain rfl := Option.some.inj hb
    exact ⟨b, hroot⟩
  · exact fun b d hne hb => absurd (honly b d hb) hne
  · exact fun b d hne hb => absurd (honly b d hb) hne

/-- A sweep that started with the parents `old` has come to number `i`. Parents that it changes are
ancestors of what they were. -/
structure Swept (edge : V → V → Prop) (root : V) (order : V → Nat) (old now : V → Option V)
    (i : Nat) : Prop where
  before : Candidates edge root order old
  after : Candidates edge root order now
  forwardOld : ∀ b d, b ≠ root → old b = some d → ∀ f, edge f b → Reachable edge root f →
    order f < order b → Ancestor old d f
  forwardNow : ∀ b d, b ≠ root → order b < i → now b = some d → ∀ f, edge f b →
    Reachable edge root f → order f < order b → Ancestor now d f
  same : ∀ b, i ≤ order b → now b = old b
  lifted : ∀ b d, b ≠ root → old b = some d → ∃ e, now b = some e ∧ Ancestor now e d
  done : ∀ b, Reachable edge root b → order b < i → ∃ d, now b = some d

theorem Swept.kept {i : Nat} (h : Swept edge root order old now i) (hc : old c = some d) :
    ∃ e, now c = some e := by
  by_cases hroot : c = root
  · exact ⟨root, by rw [hroot, h.after.start]⟩
  · obtain ⟨e, he, -⟩ := h.lifted c d hroot hc
    exact ⟨e, he⟩

theorem Swept.ancestor_old {i : Nat} (h : Swept edge root order old now i)
    (hx : Ancestor now x c) (hc : old c = some d) : Ancestor old x c := by
  induction hn : order c using Nat.strongRecOn generalizing c d with
  | ind n ih =>
      by_cases hroot : c = root
      · subst hroot
        rw [hx.of_root h.after]
        exact .refl
      by_cases hxc : x = c
      · rw [hxc]
        exact .refl
      obtain ⟨e, he, hed⟩ := h.lifted c d hroot hc
      obtain ⟨e', he'⟩ := h.before.closed c d hc
      have hlower := h.before.lower c d hroot hc
      have hxd : Ancestor now x d := (hx.of_parent hxc he).trans hed
      exact .step hc (ih (order d) (by omega) hxd he' rfl)

/-- What is above a node now is above each of its former ancestors that comes later. -/
theorem Swept.between {i : Nat} (h : Swept edge root order old now i) {f e : V}
    (hf : old f = some e) (hd : Ancestor old d f) (hn : Ancestor now n f)
    (hle : order n ≤ order d) : Ancestor now n d := by
  induction hk : order f using Nat.strongRecOn generalizing f e with
  | ind k ih =>
      by_cases hdf : d = f
      · rw [hdf]
        exact hn
      by_cases hroot : f = root
      · subst hroot
        exact absurd (hd.of_root h.before) hdf
      have hlower := h.before.lower f e hroot hf
      have hde := hd.of_parent hdf hf
      have hnf : n ≠ f := by
        rintro rfl
        have hlt := hde.le h.before
        omega
      obtain ⟨g, hg, hge⟩ := h.lifted f e hroot hf
      obtain ⟨e', he'⟩ := h.before.closed f e hf
      exact ih (order e) (by omega) he' hde ((hn.of_parent hnf hg).trans hge) rfl

/-- The last common ancestor of the predecessors is above the parent that the node has. -/
theorem Swept.above {i : Nat} (hfwd : ForwardOrder edge root order)
    (h : Swept edge root order old now i) (hreach : Reachable edge root b) (hroot : b ≠ root)
    (hb : order b = i) (hmeets : Meets edge now b n) (hd : now b = some d) : Ancestor now n d := by
  have hold : old b = some d := by rw [← h.same b hb.ge, hd]
  obtain ⟨f, hf, hedge, hlt⟩ := hfwd.forward b hreach hroot
  obtain ⟨e, he⟩ := h.done f hf (by omega)
  have hfound : ∃ e', old f = some e' := by
    have hdf := h.forwardOld b d hroot hold f hedge hf hlt
    rcases hdf.cases with rfl | ⟨e', he', -⟩
    · exact h.before.closed b d hold
    · exact ⟨e', he'⟩
  obtain ⟨e', he'⟩ := hfound
  refine h.between he' (h.forwardOld b d hroot hold f hedge hf hlt) (hmeets.above f e hedge he) ?_
  refine h.before.common b d hroot hold n fun p g hp hg => ?_
  obtain ⟨g', hg'⟩ := h.kept hg
  exact h.ancestor_old (hmeets.above p g' hp hg') hg

/-- A parent of one node does not change what is above the nodes before it. -/
theorem Ancestor.unchanged (h : Candidates edge root order now) (hother : ∀ c, c ≠ b → next c = now c)
    (hlt : order c < order b) (hc : now c = some d) :
    Ancestor next x c ↔ Ancestor now x c := by
  have hstays : ∀ c d, order c < order b → now c = some d → next c = some d ∧ order d < order b := by
    intro c d hlt hc
    have hne : c ≠ b := by
      rintro rfl
      omega
    refine ⟨by rw [hother c hne, hc], ?_⟩
    by_cases hroot : c = root
    · rw [hroot, h.start] at hc
      rwa [← Option.some.inj hc, ← hroot]
    · exact (h.lower c d hroot hc).trans hlt
  constructor
  · intro hx
    induction hx using Relation.ReflTransGen.head_induction_on generalizing d with
    | refl => exact .refl
    | @head c e hstep _ ih =>
        obtain ⟨hnext, hlt'⟩ := hstays c d hlt hc
        obtain rfl := Option.some.inj (hnext.symm.trans hstep)
        obtain ⟨e, he⟩ := h.closed c d hc
        exact .step hc (ih hlt' he)
  · intro hx
    induction hx using Relation.ReflTransGen.head_induction_on generalizing d with
    | refl => exact .refl
    | @head c e hstep _ ih =>
        obtain ⟨hnext, hlt'⟩ := hstays c e hlt hstep
        obtain ⟨e', he⟩ := h.closed c e hstep
        exact .step hnext (ih hlt' he)

/-- With a parent that was above the node's own, what is above the nodes only becomes less. -/
theorem Ancestor.of_next (h : Candidates edge root order now) (hnext : next b = some n)
    (hother : ∀ c, c ≠ b → next c = now c) (hn : ∃ e, now n = some e)
    (habove : ∀ d, now b = some d → Ancestor now n d) (hc : now c = some d)
    (hx : Ancestor next x c) : Ancestor now x c := by
  induction hx using Relation.ReflTransGen.head_induction_on generalizing d with
  | refl => exact .refl
  | @head c e hstep _ ih =>
      by_cases hcb : c = b
      · subst hcb
        obtain rfl := Option.some.inj (hnext.symm.trans hstep)
        obtain ⟨e', he'⟩ := hn
        exact .step hc ((ih he').trans (habove d hc))
      · rw [hother c hcb, hc] at hstep
        obtain rfl := Option.some.inj hstep
        obtain ⟨e, he⟩ := h.closed c d hc
        exact .step hc (ih he)

/-- One node of a sweep gets the last common ancestor of its predecessors. -/
theorem Swept.step {i : Nat} (hfwd : ForwardOrder edge root order)
    (h : Swept edge root order old now i) (hreach : Reachable edge root b) (hroot : b ≠ root)
    (hb : order b = i) (hmeets : Meets edge now b n) (hnext : next b = some n)
    (hother : ∀ c, c ≠ b → next c = now c) : Swept edge root order old next (i + 1) := by
  obtain ⟨f, hf, hedge, hlt⟩ := hfwd.forward b hreach hroot
  obtain ⟨e, he⟩ := h.done f hf (by omega)
  have hnf := hmeets.above f e hedge he
  have hlower : order n < order b := (hnf.le h.after).trans_lt hlt
  have hfound := hnf.found h.after he
  have hnb : n ≠ b := by
    rintro rfl
    omega
  have habove : ∀ d, now b = some d → Ancestor now n d :=
    fun d hd => h.above hfwd hreach hroot hb hmeets hd
  have hless : ∀ {c d x}, now c = some d → Ancestor next x c → Ancestor now x c :=
    fun hc hx => hx.of_next h.after hnext hother hfound habove hc
  have hsame : ∀ {c d x}, order c < order b → now c = some d →
      (Ancestor next x c ↔ Ancestor now x c) :=
    fun hc hcd => Ancestor.unchanged h.after hother hc hcd
  have hstill : ∀ {c d}, now c = some d → ∃ e, next c = some e := by
    intro c d hc
    by_cases hcb : c = b
    · exact ⟨n, by rw [hcb, hnext]⟩
    · exact ⟨d, by rw [hother c hcb, hc]⟩
  have hcandidates : Candidates edge root order next := by
    refine ⟨?_, ?_, ?_, ?_, ?_, ?_⟩
    · rw [hother root hroot.symm, h.after.start]
    · intro c d hc
      by_cases hcb : c = b
      · rwa [hcb]
      · exact h.after.reachable c d (by rwa [← hother c hcb])
    · intro c d hcroot hc
      by_cases hcb : c = b
      · subst hcb
        obtain rfl := Option.some.inj (hnext.symm.trans hc)
        exact hlower
      · exact h.after.lower c d hcroot (by rwa [← hother c hcb])
    · intro c d hc
      by_cases hcb : c = b
      · subst hcb
        obtain rfl := Option.some.inj (hnext.symm.trans hc)
        obtain ⟨e, he⟩ := hfound
        exact hstill he
      · obtain ⟨e, he⟩ := h.after.closed c d (by rwa [← hother c hcb])
        exact hstill he
    · intro c d hcroot hc y hy
      by_cases hcb : c = b
      · subst hcb
        obtain rfl := Option.some.inj (hnext.symm.trans hc)
        -- A strict dominator is above all predecessors found, and so above their last common one.
        have hpred : ∀ p e, edge p c → now p = some e → Dominates edge root y p :=
          fun p e hp hpe => hy.pred hp (h.after.reachable p e hpe)
        have hyn := hmeets.last y fun p e hp hpe =>
          h.after.ancestor_of_dominates hpe (hpred p e hp hpe)
        exact (hpred f e hedge he).up h.after hnf (hyn.le h.after)
      · exact h.after.sound c d hcroot (by rwa [← hother c hcb]) y hy
    · intro c d hcroot hc y hy
      have hcommon : ∀ p e, edge p c → now p = some e → Ancestor now y p := by
        intro p e hp hpe
        obtain ⟨e', he'⟩ := hstill hpe
        exact hless hpe (hy p e' hp he')
      by_cases hcb : c = b
      · subst hcb
        obtain rfl := Option.some.inj (hnext.symm.trans hc)
        exact (hmeets.last y hcommon).le h.after
      · exact h.after.common c d hcroot (by rwa [← hother c hcb]) y hcommon
  refine ⟨h.before, hcandidates, h.forwardOld, ?_, ?_, ?_, ?_⟩
  · intro c d hcroot hc hcd f hcf hfreach hflt
    obtain ⟨e, he⟩ := h.done f hfreach (by omega)
    refine (hsame (by omega) he).mpr ?_
    by_cases hcb : c = b
    · subst hcb
      obtain rfl := Option.some.inj (hnext.symm.trans hcd)
      exact hmeets.above f e hcf he
    · rw [hother c hcb] at hcd
      have hci : order c ≠ i := by
        intro heq
        exact hcb (hfwd.injective c b (h.after.reachable c d hcd) hreach (heq.trans hb.symm))
      exact h.forwardNow c d hcroot (by omega) hcd f hcf hfreach hflt
  · intro c hc
    have hcb : c ≠ b := by
      rintro rfl
      omega
    rw [hother c hcb, h.same c (by omega)]
  · intro c d hcroot hcd
    by_cases hcb : c = b
    · subst hcb
      have hnow : now c = some d := by rw [h.same c hb.ge, hcd]
      obtain ⟨e, he⟩ := h.after.closed c d hnow
      exact ⟨n, hnext, (hsame (h.after.lower c d hroot hnow) he).mpr (habove d hnow)⟩
    · obtain ⟨e, he, hed⟩ := h.lifted c d hcroot hcd
      refine ⟨e, by rw [hother c hcb, he], ?_⟩
      by_cases hci : order c < i
      · obtain ⟨g, hg⟩ := h.before.closed c d hcd
        obtain ⟨g', hg'⟩ := h.kept hg
        have hlt' := h.before.lower c d hcroot hcd
        exact (hsame (by omega) hg').mpr hed
      · rw [h.same c (by omega), hcd] at he
        obtain rfl := Option.some.inj he
        exact .refl
  · intro c hc hci
    by_cases hcb : c = b
    · exact ⟨n, by rw [hcb, hnext]⟩
    · have hci' : order c ≠ i := fun heq => hcb (hfwd.injective c b hc hreach (heq.trans hb.symm))
      obtain ⟨d, hd⟩ := h.done c hc (by omega)
      exact hstill hd

theorem Swept.start (hfwd : ForwardOrder edge root order) (h : Candidates edge root order old)
    (hforward : ∀ b d, b ≠ root → old b = some d → ∀ f, edge f b → Reachable edge root f →
      order f < order b → Ancestor old d f) : Swept edge root order old old 1 := by
  have honly : ∀ b, Reachable edge root b → order b < 1 → b = root := by
    intro b hb hlt
    have hzero : order b = order root := by
      rw [hfwd.start]
      omega
    exact hfwd.injective b root hb .start hzero
  refine ⟨h, h, hforward, ?_, fun _ _ => rfl, fun b d _ hb => ⟨d, hb, .refl⟩, ?_⟩
  · exact fun b d hroot hlt hb => absurd (honly b (h.reachable b d hb) hlt) hroot
  · intro b hb hlt
    exact ⟨root, by rw [honly b hb hlt, h.start]⟩

structure Settled (edge : V → V → Prop) (root : V) (order : V → Nat) (parent : V → Option V) : Prop
    extends Candidates edge root order parent where
  meets : ∀ b, Reachable edge root b → b ≠ root → ∃ d, parent b = some d ∧
    ∀ p, edge p b → Reachable edge root p → Ancestor parent d p

theorem Settled.found (h : Settled edge root order parent) (hb : Reachable edge root b) :
    ∃ d, parent b = some d := by
  by_cases hroot : b = root
  · exact ⟨root, by rw [hroot, h.start]⟩
  · obtain ⟨d, hd, -⟩ := h.meets b hb hroot
    exact ⟨d, hd⟩

theorem Settled.on_path (h : Settled edge root order parent) {nodes : List V}
    (hpath : RootPath edge root b nodes) (hx : Ancestor parent x b) : x ∈ nodes := by
  induction hpath generalizing x with
  | root =>
      rw [hx.of_root h.toCandidates]
      exact List.mem_cons_self ..
  | @step u v nodes hpath hedge ih =>
      by_cases hxv : x = v
      · rw [hxv]
        exact List.mem_cons_self ..
      by_cases hroot : v = root
      · rw [hroot] at hx hxv
        exact absurd (hx.of_root h.toCandidates) hxv
      have hu : Reachable edge root u := ⟨nodes, hpath⟩
      obtain ⟨d, hd, hmeets⟩ := h.meets v (hu.step hedge) hroot
      exact List.mem_cons_of_mem _ (ih ((hx.of_parent hxv hd).trans (hmeets u hedge hu)))

theorem Settled.ancestor_iff (h : Settled edge root order parent) (hb : Reachable edge root b) :
    Ancestor parent x b ↔ Dominates edge root x b := by
  obtain ⟨d, hd⟩ := h.found hb
  constructor
  · exact fun hx => ⟨hb, fun _ hpath => h.on_path hpath hx⟩
  · exact fun hx => h.ancestor_of_dominates hd hx

theorem Settled.immediate (h : Settled edge root order parent) (hroot : b ≠ root)
    (hd : parent b = some d) : ImmediatelyDominates edge root d b := by
  have hb := h.reachable b d hd
  refine ⟨⟨(h.ancestor_iff hb).mp (.step hd .refl), ?_⟩, fun x hx => h.sound b d hroot hd x hx⟩
  rintro rfl
  exact absurd (h.lower d d hroot hd) (Nat.lt_irrefl _)

end Candidates

end Telomere.Lib
