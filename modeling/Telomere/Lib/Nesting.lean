import Mathlib.Data.List.Basic

/-!
# Nesting

A sequence of tokens, some of which open a scope and some of which close the innermost one. The
open scopes after a prefix are named by the tokens that opened them. Anything that is kept as a
stack with one entry for each scope can be read back: what lies below an entry is what was there
when its scope was opened.
-/

namespace Telomere.Lib

inductive Nest where
  | push | keep | pop
deriving DecidableEq, Repr

/-- Scopes open before token `n`, innermost first. -/
def opensAt (nest : Nat → Nest) : Nat → List Nat
  | 0 => []
  | n + 1 =>
      match nest n with
      | .push => n :: opensAt nest n
      | .keep => opensAt nest n
      | .pop => (opensAt nest n).tail

/-- Token `e` closes the scope that token `k` opened. -/
def Closes (nest : Nat → Nest) (k e : Nat) : Prop :=
  nest e = .pop ∧ (opensAt nest e).head? = some k

variable {nest : Nat → Nest} {n e k i limit : Nat}

theorem opensAt_push (h : nest n = .push) : opensAt nest (n + 1) = n :: opensAt nest n := by
  simp [opensAt, h]

theorem opensAt_keep (h : nest n = .keep) : opensAt nest (n + 1) = opensAt nest n := by
  simp [opensAt, h]

theorem opensAt_pop (h : nest n = .pop) : opensAt nest (n + 1) = (opensAt nest n).tail := by
  simp [opensAt, h]

theorem lt_of_mem_opensAt (h : k ∈ opensAt nest n) : k < n := by
  induction n with
  | zero => cases h
  | succ n ih =>
      unfold opensAt at h
      split at h
      · rcases List.mem_cons.mp h with rfl | h
        · omega
        · have := ih h
          omega
      · have := ih h
        omega
      · have := ih (List.mem_of_mem_tail h)
        omega

theorem mem_opensAt_of_succ (hlt : k < n) (h : k ∈ opensAt nest (n + 1)) :
    k ∈ opensAt nest n := by
  unfold opensAt at h
  split at h
  · rcases List.mem_cons.mp h with rfl | h
    · omega
    · exact h
  · exact h
  · exact List.mem_of_mem_tail h

theorem mem_opensAt_of_le (h : k ∈ opensAt nest e) (hlt : k < n) (hle : n ≤ e) :
    k ∈ opensAt nest n := by
  induction e with
  | zero => cases h
  | succ e ih =>
      by_cases heq : n = e + 1
      · rw [heq]
        exact h
      · exact ih (mem_opensAt_of_succ (by omega) h) (by omega)

theorem nest_of_mem_opensAt (h : k ∈ opensAt nest n) : nest k = .push := by
  have hk := mem_opensAt_of_le h (Nat.lt_succ_self k) (lt_of_mem_opensAt h)
  unfold opensAt at hk
  split at hk
  · assumption
  · exact absurd (lt_of_mem_opensAt hk) (Nat.lt_irrefl k)
  · exact absurd (lt_of_mem_opensAt (List.mem_of_mem_tail hk)) (Nat.lt_irrefl k)

theorem opensAt_sorted : (opensAt nest n).Pairwise (· > ·) := by
  induction n with
  | zero => exact List.Pairwise.nil
  | succ n ih =>
      unfold opensAt
      split
      · exact List.pairwise_cons.mpr ⟨fun k hk => lt_of_mem_opensAt hk, ih⟩
      · exact ih
      · exact ih.sublist (List.tail_sublist _)

theorem Closes.mem (h : Closes nest k e) : k ∈ opensAt nest e :=
  List.mem_of_mem_head? h.2

theorem Closes.lt (h : Closes nest k e) : k < e :=
  lt_of_mem_opensAt h.mem

theorem Closes.opensAt_eq (h : Closes nest k e) :
    opensAt nest e = k :: opensAt nest (e + 1) ∧ ∀ k' ∈ opensAt nest (e + 1), k' < k := by
  have hsorted := @opensAt_sorted nest e
  have hhead := h.2
  rw [opensAt_pop h.1]
  cases hopens : opensAt nest e with
  | nil => simp [hopens] at hhead
  | cons first rest =>
      obtain rfl : first = k := by simpa [hopens] using hhead
      rw [hopens] at hsorted
      exact ⟨rfl, (List.pairwise_cons.mp hsorted).1⟩

theorem Closes.not_mem (h : Closes nest k e) (hlt : e < n) : k ∉ opensAt nest n := by
  intro hmem
  have hnext := mem_opensAt_of_le hmem (Nat.lt_succ_of_lt h.lt) (by omega : e + 1 ≤ n)
  exact Nat.lt_irrefl k (h.opensAt_eq.2 k hnext)

theorem Closes.unique {e' : Nat} (h : Closes nest k e) (h' : Closes nest k e') : e = e' := by
  rcases Nat.lt_trichotomy e e' with hlt | heq | hlt
  · exact absurd h'.mem (h.not_mem hlt)
  · exact heq
  · exact absurd h.mem (h'.not_mem hlt)

theorem exists_closes (hend : opensAt nest limit = []) (h : k ∈ opensAt nest n)
    (hle : n ≤ limit) : ∃ e, n ≤ e ∧ e < limit ∧ Closes nest k e := by
  induction hd : limit - n generalizing n with
  | zero =>
      obtain rfl : n = limit := by omega
      simp [hend] at h
  | succ d ih =>
      by_cases hmem : k ∈ opensAt nest (n + 1)
      · obtain ⟨e, hle', hlt, hcloses⟩ := ih hmem (by omega) (by omega)
        exact ⟨e, by omega, hlt, hcloses⟩
      · refine ⟨n, Nat.le_refl n, by omega, ?_⟩
        cases hn : nest n with
        | push => exact absurd (by rw [opensAt_push hn]; exact List.mem_cons_of_mem _ h) hmem
        | keep => exact absurd (by rw [opensAt_keep hn]; exact h) hmem
        | pop =>
            refine ⟨hn, ?_⟩
            rw [opensAt_pop hn] at hmem
            cases hopens : opensAt nest n with
            | nil => simp [hopens] at h
            | cons first rest =>
                rw [hopens] at h hmem
                rcases List.mem_cons.mp h with rfl | h
                · rfl
                · exact absurd h hmem

def Follows {α : Type} (nest : Nat → Nest) (limit : Nat) (stack : Nat → List α) : Prop :=
  ∀ n < limit, match nest n with
    | .push => (stack (n + 1)).tail = stack n
    | .keep => (stack (n + 1)).tail = (stack n).tail
    | .pop => stack (n + 1) = (stack n).tail

/-- As before, and only pushing and popping change anything. -/
def FollowsExactly {α : Type} (nest : Nat → Nest) (limit : Nat) (stack : Nat → List α) : Prop :=
  ∀ n < limit, match nest n with
    | .push => (stack (n + 1)).tail = stack n
    | .keep => stack (n + 1) = stack n
    | .pop => stack (n + 1) = (stack n).tail

variable {α : Type} {stack : Nat → List α}

theorem Follows.drop (h : Follows nest limit stack) (hle : n ≤ limit)
    (hi : (opensAt nest n)[i]? = some k) : (stack n).drop (i + 1) = stack k := by
  induction n generalizing i with
  | zero => simp [opensAt] at hi
  | succ n ih =>
      have hstep := h n (by omega)
      cases hn : nest n with
      | push =>
          rw [hn] at hstep
          rw [opensAt_push hn] at hi
          rw [← List.drop_tail, hstep]
          cases i with
          | zero =>
              obtain rfl : n = k := by simpa using hi
              rfl
          | succ i => exact ih (by omega) hi
      | keep =>
          rw [hn] at hstep
          rw [opensAt_keep hn] at hi
          rw [← List.drop_tail, hstep, List.drop_tail, ih (by omega) hi]
      | pop =>
          rw [hn] at hstep
          rw [opensAt_pop hn, ← List.drop_one, List.getElem?_drop] at hi
          rw [hstep, List.drop_tail, ← ih (by omega) hi, Nat.add_comm 1 i]

/-- A scope's entry, and what lies below it, is what its opening pushed. -/
theorem FollowsExactly.drop (h : FollowsExactly nest limit stack) (hle : n ≤ limit)
    (hi : (opensAt nest n)[i]? = some k) : (stack n).drop i = stack (k + 1) := by
  induction n generalizing i with
  | zero => simp [opensAt] at hi
  | succ n ih =>
      have hstep := h n (by omega)
      cases hn : nest n with
      | push =>
          rw [hn] at hstep
          rw [opensAt_push hn] at hi
          cases i with
          | zero =>
              obtain rfl : n = k := by simpa using hi
              rfl
          | succ i =>
              rw [← ih (by omega) hi, ← hstep, List.drop_tail]
      | keep =>
          rw [hn] at hstep
          rw [opensAt_keep hn] at hi
          rw [hstep]
          exact ih (by omega) hi
      | pop =>
          rw [hn] at hstep
          rw [opensAt_pop hn, ← List.drop_one, List.getElem?_drop] at hi
          rw [hstep, List.drop_tail, ← ih (by omega) hi, Nat.add_comm 1 i]

theorem FollowsExactly.get (h : FollowsExactly nest limit stack) (hle : n ≤ limit)
    (hi : (opensAt nest n)[i]? = some k) : (stack n)[i]? = (stack (k + 1)).head? := by
  rw [← h.drop hle hi, List.head?_drop]

end Telomere.Lib
