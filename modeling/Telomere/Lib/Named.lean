import Mathlib.Data.List.Sort
import Telomere.Lib.Except

/-!
# Matching named entries

Two lists of entries under names, each name at most once. Every entry of the first is to be checked
against the entry of the same name in the second: by lookup, or in one walk along both lists when
they are sorted by key.
-/

namespace Telomere.Lib

theorem forM_eq_ok {ε α : Type} {f : α → Except ε Unit} {xs : List α} :
    xs.forM f = .ok () ↔ ∀ x ∈ xs, f x = .ok () := by
  induction xs with
  | nil => simp [Lib.pure_eq_ok]
  | cons x xs ih =>
      rw [List.forall_mem_cons, ← ih]
      change (f x >>= fun _ => xs.forM f) = .ok () ↔ _
      rw [bind_eq_ok]
      constructor
      · rintro ⟨_, hfirst, hrest⟩
        exact ⟨hfirst, hrest⟩
      · rintro ⟨hfirst, hrest⟩
        exact ⟨(), hfirst, hrest⟩

variable {ε κ α β : Type}

theorem lookup_eq_some_iff [DecidableEq κ] {entries : List (κ × α)}
    (hnodup : (entries.map (·.1)).Nodup) {key : κ} {a : α} :
    entries.lookup key = some a ↔ (key, a) ∈ entries := by
  induction entries with
  | nil => simp
  | cons entry entries ih =>
      obtain ⟨key', a'⟩ := entry
      rw [List.map_cons, List.nodup_cons] at hnodup
      rw [List.lookup_cons, List.mem_cons, ← ih hnodup.2]
      by_cases heq : key = key'
      · subst heq
        have hnot : (key, a) ∉ entries := fun hmem =>
          hnodup.1 (List.mem_map_of_mem (f := (·.1)) hmem)
        rw [ih hnodup.2]
        simp [hnot, eq_comm]
      · have hbeq : (key == key') = false := beq_false_of_ne heq
        rw [hbeq]
        simp [heq]

/-- Every entry has a partner of the same name that passes the check. -/
def Matched (check : α → β → Except ε Unit) (entries : List (κ × α)) (partners : List (κ × β)) :
    Prop :=
  ∀ key a, (key, a) ∈ entries → ∃ b, (key, b) ∈ partners ∧ check a b = .ok ()

theorem Matched.keys {check : α → β → Except ε Unit} {entries : List (κ × α)}
    {partners : List (κ × β)} (h : Matched check entries partners) :
    entries.map (·.1) ⊆ partners.map (·.1) := by
  intro key hkey
  obtain ⟨⟨key, a⟩, hmem, rfl⟩ := List.mem_map.mp hkey
  obtain ⟨b, hb, -⟩ := h key a hmem
  exact List.mem_map_of_mem (f := (·.1)) hb

theorem Matched.length_le {check : α → β → Except ε Unit} {entries : List (κ × α)}
    {partners : List (κ × β)} (h : Matched check entries partners)
    (hnodup : (entries.map (·.1)).Nodup) : entries.length ≤ partners.length := by
  have hle := (List.subperm_of_subset hnodup h.keys).length_le
  simpa using hle

/-- Where no name stands twice the partner is the only entry of its name. -/
theorem Matched.pair {check : α → β → Except ε Unit} {entries : List (κ × α)}
    {partners : List (κ × β)} (h : Matched check entries partners)
    (hnodup : (partners.map (·.1)).Nodup) {key : κ} {a : α} {b : β} (ha : (key, a) ∈ entries)
    (hb : (key, b) ∈ partners) : check a b = .ok () := by
  obtain ⟨b', hb', hcheck⟩ := h key a ha
  have heq := List.inj_on_of_nodup_map hnodup hb' hb rfl
  rw [← (Prod.mk.inj heq).2]
  exact hcheck

def matchNamed [DecidableEq κ] (missing : κ → ε) (check : α → β → Except ε Unit)
    (entries : List (κ × α)) (partners : List (κ × β)) : Except ε Unit :=
  entries.forM fun entry =>
    match partners.lookup entry.1 with
    | some partner => check entry.2 partner
    | none => .error (missing entry.1)

theorem matchNamed_eq_ok [DecidableEq κ] {missing : κ → ε} {check : α → β → Except ε Unit}
    {entries : List (κ × α)} {partners : List (κ × β)} (hnodup : (partners.map (·.1)).Nodup) :
    matchNamed missing check entries partners = .ok () ↔ Matched check entries partners := by
  unfold matchNamed
  rw [forM_eq_ok]
  constructor
  · intro h key a hmem
    have hentry := h (key, a) hmem
    dsimp only at hentry
    split at hentry
    · next b hlookup => exact ⟨b, (lookup_eq_some_iff hnodup).mp hlookup, hentry⟩
    · cases hentry
  · rintro h ⟨key, a⟩ hmem
    obtain ⟨b, hb, hcheck⟩ := h key a hmem
    have hlookup := (lookup_eq_some_iff hnodup).mpr hb
    dsimp only
    rw [hlookup]
    exact hcheck

def matchSorted [LinearOrder κ] (missing : ε) (check : α → β → Except ε Unit) :
    List (κ × α) → List (κ × β) → Except ε Unit
  | [], _ => .ok ()
  | entry :: entries, partners =>
      match partners.dropWhile (·.1 < entry.1) with
      | [] => .error missing
      | partner :: rest =>
          if partner.1 ≠ entry.1 then .error missing
          else do
            check entry.2 partner.2
            matchSorted missing check entries (partner :: rest)

def StrictlySorted [LinearOrder κ] (entries : List (κ × α)) : Prop :=
  entries.Pairwise (·.1 < ·.1)

theorem mem_dropWhile_iff [LinearOrder κ] {entries : List (κ × α)} (hsorted : StrictlySorted entries)
    (key : κ) (entry : κ × α) :
    entry ∈ entries.dropWhile (·.1 < key) ↔ entry ∈ entries ∧ key ≤ entry.1 := by
  induction entries with
  | nil => simp
  | cons first entries ih =>
      have hcons := List.pairwise_cons.mp hsorted
      by_cases hlt : first.1 < key
      · rw [List.dropWhile_cons_of_pos (by simpa using hlt), ih hcons.2, List.mem_cons]
        constructor
        · exact fun h => ⟨Or.inr h.1, h.2⟩
        · rintro ⟨rfl | hmem, hle⟩
          · exact absurd hle (not_le.mpr hlt)
          · exact ⟨hmem, hle⟩
      · rw [List.dropWhile_cons_of_neg (by simpa using hlt)]
        refine ⟨fun hmem => ⟨hmem, ?_⟩, fun h => h.1⟩
        have hle := not_lt.mp hlt
        rcases List.mem_cons.mp hmem with rfl | hmem
        · exact hle
        · exact hle.trans (hcons.1 entry hmem).le

theorem matchSorted_eq_ok [LinearOrder κ] {missing : ε} {check : α → β → Except ε Unit}
    {entries : List (κ × α)} {partners : List (κ × β)} (hentries : StrictlySorted entries)
    (hpartners : StrictlySorted partners) :
    matchSorted missing check entries partners = .ok () ↔ Matched check entries partners := by
  induction entries generalizing partners with
  | nil => simp [matchSorted, Matched]
  | cons entry entries ih =>
      obtain ⟨key, a⟩ := entry
      have hcons := List.pairwise_cons.mp hentries
      have hleft := mem_dropWhile_iff hpartners key
      have hsorted : StrictlySorted (partners.dropWhile (·.1 < key)) :=
        hpartners.sublist (List.dropWhile_sublist _)
      unfold matchSorted
      dsimp only
      -- what is left holds the partners from this key on, the first of them the smallest
      rcases hdrop : partners.dropWhile (·.1 < key) with _ | ⟨⟨key', b⟩, rest⟩
      · rw [hdrop] at hleft
        simp only [hdrop, reduceCtorEq, false_iff]
        intro h
        obtain ⟨b, hb, -⟩ := h key a (List.mem_cons_self ..)
        exact absurd ((hleft (key, b)).mpr ⟨hb, le_refl key⟩) (List.not_mem_nil)
      · rw [hdrop] at hleft hsorted
        have hfirst := (hleft (key', b)).mp (List.mem_cons_self ..)
        have hrest := (List.pairwise_cons.mp hsorted).1
        have hunique : ∀ b', (key, b') ∈ partners → key' = key ∧ b = b' := by
          intro b' hb'
          rcases List.mem_cons.mp ((hleft (key, b')).mpr ⟨hb', le_refl key⟩) with heq | hmem
          · exact ⟨(Prod.mk.inj heq).1.symm, (Prod.mk.inj heq).2.symm⟩
          · exact absurd hfirst.2 (not_le.mpr (hrest _ hmem))
        have htail : Matched check entries ((key', b) :: rest) ↔ Matched check entries partners := by
          refine forall_congr' fun k => forall_congr' fun x => forall_congr' fun hmem => ?_
          have hlt : key < k := hcons.1 _ hmem
          refine exists_congr fun y => and_congr_left fun _ => ?_
          rw [hleft (k, y)]
          exact and_iff_left hlt.le
        simp only [hdrop]
        rw [ite_error_eq_ok, not_not, bind_eq_ok]
        constructor
        · rintro ⟨rfl, _, hcheck, hok⟩
          intro k x hmem
          rcases List.mem_cons.mp hmem with heq | hmem
          · obtain ⟨rfl, rfl⟩ := Prod.mk.inj heq
            exact ⟨b, hfirst.1, hcheck⟩
          · exact htail.mp ((ih hcons.2 hsorted).mp hok) k x hmem
        · intro h
          obtain ⟨b', hb', hcheck⟩ := h key a (List.mem_cons_self ..)
          obtain ⟨rfl, rfl⟩ := hunique b' hb'
          refine ⟨rfl, (), hcheck, (ih hcons.2 hsorted).mpr (htail.mpr ?_)⟩
          exact fun k x hmem => h k x (List.mem_cons_of_mem _ hmem)

end Telomere.Lib
