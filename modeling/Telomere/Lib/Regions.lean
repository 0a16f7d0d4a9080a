import Mathlib.Algebra.Ring.Nat
import Mathlib.Data.List.Basic

/-!
# Regions of a memory

A region is an address and a length. Lists of regions cover addresses.
-/

namespace Telomere.Lib

abbrev Region := Nat × Nat

def Span (start len addr : Nat) : Prop := start ≤ addr ∧ addr < start + len

def Covered (blocks : List Region) (addr : Nat) : Prop := ∃ b ∈ blocks, Span b.1 b.2 addr

section regions

variable {blocks others : List Region} {b : Region} {addr start len : Nat}

theorem Span.sub {start' len' : Nat} (hspan : Span start' len' addr) (hle : start ≤ start')
    (hend : start' + len' ≤ start + len) : Span start len addr := by
  unfold Span at hspan ⊢
  omega

@[simp] theorem covered_nil : ¬Covered [] addr := by
  simp [Covered]

@[simp] theorem covered_cons : Covered (b :: blocks) addr ↔ Span b.1 b.2 addr ∨ Covered blocks addr := by
  simp [Covered]

@[simp] theorem covered_append :
    Covered (blocks ++ others) addr ↔ Covered blocks addr ∨ Covered others addr := by
  simp [Covered, or_and_right, exists_or]

end regions

end Telomere.Lib
