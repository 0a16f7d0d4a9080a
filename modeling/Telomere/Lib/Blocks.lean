import Mathlib.Logic.Basic

/-!
# Code in blocks

Code is a list of blocks. Within a block jumps go to its places, out of it to other blocks. What
every instruction keeps is kept by any run, however it jumps.
-/

namespace Telomere.Lib

variable {I C S : Type}

/-- `jump` goes to a place of the block, `leave` to another block, if the condition holds. -/
inductive Item (I C : Type) where
  | insn (insn : I)
  | jump (cond : Option C) (place : Nat)
  | leave (cond : Option C) (block : Nat)

abbrev Block (I C : Type) := List (Item I C)

/-- What single instructions do and when conditions hold. -/
structure Machine (I C S : Type) where
  exec : I → S → S → Prop
  holds : C → S → Prop

namespace Machine

variable (m : Machine I C S)

def Goes (cond : Option C) (s : S) : Prop := ∀ c, cond = some c → m.holds c s

/-- A run of a block from a place on. It falls through at the end or goes to another block. -/
inductive Within (block : Block I C) : Nat → S → Option Nat → S → Prop
  | falls {at_ s} (hend : block.length ≤ at_) : Within block at_ s none s
  | insn {at_ i s t exit u} (hat : block[at_]? = some (.insn i)) (hexec : m.exec i s t)
      (hrest : Within block (at_ + 1) t exit u) : Within block at_ s exit u
  | jumps {at_ cond place s exit u} (hat : block[at_]? = some (.jump cond place))
      (hgoes : m.Goes cond s) (hrest : Within block place s exit u) : Within block at_ s exit u
  | passes {at_ cond place s exit u} (hat : block[at_]? = some (.jump cond place))
      (hgoes : ¬m.Goes cond s) (hrest : Within block (at_ + 1) s exit u) : Within block at_ s exit u
  | leaves {at_ cond other s} (hat : block[at_]? = some (.leave cond other))
      (hgoes : m.Goes cond s) : Within block at_ s (some other) s
  | stays {at_ cond other s exit u} (hat : block[at_]? = some (.leave cond other))
      (hgoes : ¬m.Goes cond s) (hrest : Within block (at_ + 1) s exit u) : Within block at_ s exit u

/-- A run of the code from the start of a block to the start of another one, or to the end. -/
inductive Reaches (blocks : List (Block I C)) : Nat → S → Nat → S → Prop
  | here {n s} : Reaches blocks n s n s
  | block {n block exit s t last u} (hat : blocks[n]? = some block)
      (hblock : m.Within block 0 s exit t) (hrest : Reaches blocks (exit.getD (n + 1)) t last u) :
      Reaches blocks n s last u

inductive Chain : List I → S → S → Prop
  | nil {s} : Chain [] s s
  | cons {i is s t u} (hexec : m.exec i s t) (hrest : Chain is t u) : Chain (i :: is) s u

variable {m}

theorem Within.keeps {P : S → Prop} {block : Block I C} {at_ : Nat} {exit : Option Nat} {s t : S}
    (hkeep : ∀ i, .insn i ∈ block → ∀ s t, P s → m.exec i s t → P t)
    (h : m.Within block at_ s exit t) (hs : P s) : P t := by
  induction h with
  | falls hend => exact hs
  | insn hat hexec _ ih => exact ih (hkeep _ (List.mem_of_getElem? hat) _ _ hs hexec)
  | jumps _ _ _ ih => exact ih hs
  | passes _ _ _ ih => exact ih hs
  | leaves _ _ => exact hs
  | stays _ _ _ ih => exact ih hs

theorem Reaches.keeps {P : S → Prop} {blocks : List (Block I C)} {n last : Nat} {s t : S}
    (hkeep : ∀ block ∈ blocks, ∀ i, .insn i ∈ block → ∀ s t, P s → m.exec i s t → P t)
    (h : m.Reaches blocks n s last t) (hs : P s) : P t := by
  induction h with
  | here => exact hs
  | block hat hblock _ ih => exact ih (hblock.keeps (hkeep _ (List.mem_of_getElem? hat)) hs)

theorem Chain.cons_iff {i : I} {is : List I} {s u : S} :
    m.Chain (i :: is) s u ↔ ∃ t, m.exec i s t ∧ m.Chain is t u := by
  constructor
  · rintro (_ | ⟨hexec, hrest⟩)
    exact ⟨_, hexec, hrest⟩
  · rintro ⟨t, hexec, hrest⟩
    exact .cons hexec hrest

theorem Chain.nil_iff {s u : S} : m.Chain [] s u ↔ u = s := by
  constructor
  · rintro ⟨⟩
    rfl
  · rintro rfl
    exact .nil

theorem Chain.exists_of_total {is : List I} (htotal : ∀ i ∈ is, ∀ s, ∃ t, m.exec i s t) (s : S) :
    ∃ t, m.Chain is s t := by
  induction is generalizing s with
  | nil => exact ⟨s, .nil⟩
  | cons i is ih =>
      rw [List.forall_mem_cons] at htotal
      obtain ⟨s', hexec⟩ := htotal.1 s
      obtain ⟨t, hrest⟩ := ih htotal.2 s'
      exact ⟨t, .cons hexec hrest⟩

theorem Chain.append_iff {is js : List I} {s u : S} :
    m.Chain (is ++ js) s u ↔ ∃ t, m.Chain is s t ∧ m.Chain js t u := by
  induction is generalizing s with
  | nil => simp [Chain.nil_iff]
  | cons i is ih =>
      rw [List.cons_append, cons_iff]
      constructor
      · rintro ⟨t, hexec, hrest⟩
        obtain ⟨t', hfirst, hlast⟩ := ih.mp hrest
        exact ⟨t', cons_iff.mpr ⟨t, hexec, hfirst⟩, hlast⟩
      · rintro ⟨t', hfirst, hlast⟩
        obtain ⟨t, hexec, hrest⟩ := cons_iff.mp hfirst
        exact ⟨t, hexec, ih.mpr ⟨t', hrest, hlast⟩⟩

end Machine

end Telomere.Lib
