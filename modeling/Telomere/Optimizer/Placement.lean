import Mathlib.Data.List.Forall2
import Telomere.Optimizer.Fusion

/-!
# The encoded function, position by position

The pass replaces ops in place, so position `i` of the encoded function comes from position `i`
of the input: the same op, or the op a fusion put there, with repeated constants moved to the
pool. Which positions are fused can be read off the input.
-/

namespace Telomere.Optimizer

/-- A fusion other than the one that looks at its branch target applies here. -/
def windowFuses (code : List LoweredOp) (cursor : Nat) (labels : LabelIndices) : Bool :=
  Fusion.order.any fun fusion =>
    decide (fusion ≠ .load8UpdateBranchTakenLocalGet4) && (fusion.apply code cursor labels).isSome

/-- Where the taken form of the load8-update branch goes: to a `local.get` that is not fused
itself before the pass reaches the branch. -/
def takenTarget (code : List LoweredOp) (cursor : Nat) (labels : LabelIndices) : Option Nat := do
  let branch ← code[cursor]?
  if branch.op ≠ .opI32Load8ULocalBaseSet4LocalGet4Set4LocalGet4BrIf then none
  else
    let target ← labels (← opJumpTarget branch)
    let targetOp ← code[target]?
    if target = cursor ∨ targetOp.op ≠ .opLocalGet4 ∨ targetOp.operands = [] ∨
        (target < cursor ∧ windowFuses code target labels) then none
    else some target

/-- The first fusion that applies at a position of the input code. -/
def inputFusion (code : List LoweredOp) (cursor : Nat) (labels : LabelIndices) : Option Fusion :=
  Fusion.order.find? fun fusion =>
    if fusion = .load8UpdateBranchTakenLocalGet4 then (takenTarget code cursor labels).isSome
    else (fusion.apply code cursor labels).isSome

def Fires (kernel : LoweredKernelFunction) (cursor : Nat) (fusion : Fusion) : Prop :=
  ∃ replacement, fuseAt (fusePrefix kernel.labels kernel.code cursor) cursor kernel.labels =
    some (fusion, replacement)

section Pass

variable {labels : LabelIndices} {code : List LoweredOp}

private theorem fuseStep_length (code : List LoweredOp) (cursor : Nat) :
    (fuseStep labels code cursor).length = code.length := by
  unfold fuseStep
  split <;> simp

private theorem fuseStep_get_of_ne (code : List LoweredOp) {cursor index : Nat}
    (h : cursor ≠ index) : (fuseStep labels code cursor)[index]? = code[index]? := by
  unfold fuseStep
  split
  · exact List.getElem?_set_ne h
  · rfl

theorem fusePrefix_succ (n : Nat) :
    fusePrefix labels code (n + 1) = fuseStep labels (fusePrefix labels code n) n := by
  simp [fusePrefix, List.range_succ]

theorem fusePrefix_length (n : Nat) :
    (fusePrefix labels code n).length = code.length := by
  induction n with
  | zero => rfl
  | succ n ih => rw [fusePrefix_succ, fuseStep_length, ih]

theorem fusePrefix_get_ge {n index : Nat} (h : n ≤ index) :
    (fusePrefix labels code n)[index]? = code[index]? := by
  induction n with
  | zero => rfl
  | succ n ih => rw [fusePrefix_succ, fuseStep_get_of_ne _ (by omega), ih (by omega)]

theorem fusePrefix_drop (n : Nat) :
    (fusePrefix labels code n).drop n = code.drop n := by
  apply List.ext_getElem?
  intro i
  rw [List.getElem?_drop, List.getElem?_drop, fusePrefix_get_ge (by omega)]

theorem fusePrefix_get_lt {n m index : Nat} (hindex : index < n) (hnm : n ≤ m) :
    (fusePrefix labels code m)[index]? = (fusePrefix labels code n)[index]? := by
  induction m with
  | zero => omega
  | succ m ih =>
      rcases Nat.eq_or_lt_of_le hnm with rfl | hlt
      · rfl
      · rw [fusePrefix_succ, fuseStep_get_of_ne _ (by omega), ih (by omega)]

theorem fuseAt_out_of_range {cursor : Nat} (h : code.length ≤ cursor) (fusion : Fusion) :
    fusion.apply code cursor labels = none := by
  have hdrop : code.drop cursor = [] := List.drop_eq_nil_of_le h
  have hget : code[cursor]? = none := List.getElem?_eq_none h
  cases fusion <;> simp only [Fusion.apply, hdrop]
  case guarded =>
      simp [fuseGuarded, fuseGuardedTakenConstCompareBrTable, fuseGuardedFalseLocalGet4BrTable,
        fuseGuardedTakenLocalGet4BrTable, hdrop, fuseGuardedLoad8UpdateBranchTail]
  case load8UpdateBranchTakenLocalGet4 =>
      simp [fuseLoad8UpdateBranchTakenLocalGet4, hget]
  all_goals rfl

private theorem findSome?_eq_find? (fusions : List Fusion) (g : Fusion → Option LoweredOp) :
    fusions.findSome? (fun fusion => (g fusion).map (fusion, ·)) =
      (fusions.find? fun fusion => (g fusion).isSome).bind fun fusion =>
        (g fusion).map (fusion, ·) := by
  induction fusions with
  | nil => rfl
  | cons fusion fusions ih =>
      cases hg : g fusion with
      | none => simp [hg, ih]
      | some r => simp [hg]

private theorem fuseGuarded_isSome (code : List LoweredOp) (cursor : Nat) :
    (fuseGuarded code cursor labels).isSome =
      (fuseGuardedLoad8UpdateBranchTail (code.drop cursor)).isSome := by
  cases hbase : fuseGuardedLoad8UpdateBranchTail (code.drop cursor) with
  | none =>
      simp [fuseGuarded, fuseGuardedTakenConstCompareBrTable, fuseGuardedFalseLocalGet4BrTable,
        fuseGuardedTakenLocalGet4BrTable, hbase]
  | some base => simp [fuseGuarded, hbase]

/-- A fusion that does not look at its branch target sees the input only. -/
private theorem apply_isSome_of_drop_eq {first second : List LoweredOp} {cursor : Nat}
    {fusion : Fusion} (h : first.drop cursor = second.drop cursor)
    (hne : fusion ≠ .load8UpdateBranchTakenLocalGet4) :
    (fusion.apply first cursor labels).isSome = (fusion.apply second cursor labels).isSome := by
  cases fusion <;> simp only [Fusion.apply, h]
  case guarded => rw [fuseGuarded_isSome, fuseGuarded_isSome, h]
  case load8UpdateBranchTakenLocalGet4 => exact absurd rfl hne

private theorem windowFuses_of_drop_eq {first second : List LoweredOp} {cursor : Nat}
    (h : first.drop cursor = second.drop cursor) :
    windowFuses first cursor labels = windowFuses second cursor labels := by
  unfold windowFuses
  congr 1
  funext fusion
  by_cases hne : fusion = .load8UpdateBranchTakenLocalGet4
  · simp [hne]
  · rw [apply_isSome_of_drop_eq h hne]

private theorem taken_none_of_handler {code : List LoweredOp} {cursor : Nat} {op : LoweredOp}
    (hget : code[cursor]? = some op)
    (hop : op.op ≠ .opI32Load8ULocalBaseSet4LocalGet4Set4LocalGet4BrIf) :
    fuseLoad8UpdateBranchTakenLocalGet4 code cursor labels = none := by
  simp [fuseLoad8UpdateBranchTakenLocalGet4, hget, hop]

/-- At a `local.get` only the fusions that see the input can apply. -/
private theorem fuseAt_eq_none_iff {code : List LoweredOp} {cursor : Nat} {op : LoweredOp}
    (hget : code[cursor]? = some op)
    (hop : op.op ≠ .opI32Load8ULocalBaseSet4LocalGet4Set4LocalGet4BrIf) :
    fuseAt code cursor labels = none ↔ windowFuses code cursor labels = false := by
  unfold fuseAt windowFuses
  rw [List.findSome?_eq_none_iff, List.any_eq_false]
  constructor
  · intro h fusion hmem
    have := h fusion hmem
    simp only [Option.map_eq_none_iff] at this
    simp [this]
  · intro h fusion hmem
    by_cases htaken : fusion = .load8UpdateBranchTakenLocalGet4
    · subst htaken
      simp [Fusion.apply, taken_none_of_handler hget hop]
    · have := h fusion hmem
      simp only [htaken, ne_eq, not_false_eq_true, decide_true, Bool.true_and,
        Bool.not_eq_true, Option.isSome_eq_false_iff, Option.isNone_iff_eq_none] at this
      simp [this]

theorem window_mem {cursor : Nat} {op : LoweredOp} {rest : List LoweredOp}
    (hok : ∀ o ∈ code, OperandsOk o) (hwindow : code.drop cursor = op :: rest) :
    ∀ o ∈ op :: rest, OperandsOk o := by
  intro o ho
  rw [← hwindow] at ho
  exact hok o (List.mem_of_mem_drop ho)

theorem drop_eq_cons {cursor : Nat} {op : LoweredOp} (hget : code[cursor]? = some op) :
    code.drop cursor = op :: code.drop (cursor + 1) := by
  obtain ⟨hlt, rfl⟩ := List.getElem?_eq_some_iff.mp hget
  exact List.drop_eq_getElem_cons hlt

theorem fusePrefix_get_succ {cursor : Nat} {op : LoweredOp}
    (hget : code[cursor]? = some op) :
    (fusePrefix labels code (cursor + 1))[cursor]? =
      some (((fuseAt (fusePrefix labels code cursor) cursor labels).map Prod.snd).getD op) := by
  have hlt : cursor < (fusePrefix labels code cursor).length := by
    rw [fusePrefix_length]
    exact (List.getElem?_eq_some_iff.mp hget).1
  rw [fusePrefix_succ, fuseStep]
  cases hfuse : fuseAt (fusePrefix labels code cursor) cursor labels with
  | none => simp [fusePrefix_get_ge, hget]
  | some pair => simp [List.getElem?_set_self hlt]

theorem fuseAt_fused {cursor : Nat} {op : LoweredOp} {fusion : Fusion} {r : LoweredOp}
    (hok : ∀ o ∈ code, OperandsOk o) (hget : code[cursor]? = some op)
    (hfuse : fuseAt (fusePrefix labels code cursor) cursor labels = some (fusion, r)) :
    Fused op (code.drop (cursor + 1)) fusion r := by
  obtain ⟨fusion', _, hmap⟩ := List.exists_of_findSome?_eq_some hfuse
  obtain ⟨r', happly, heq⟩ := Option.map_eq_some_iff.mp hmap
  obtain ⟨rfl, rfl⟩ := Prod.mk.inj heq
  have hwindow := drop_eq_cons hget
  refine Fusion.apply_fused happly ?_ (window_mem hok hwindow)
  rw [fusePrefix_drop, hwindow]

/-- A position behind the pass still holds a `local.get` exactly when the input does and no
fusion applies there. -/
private theorem fusePrefix_localGet4 (labels : LabelIndices) {cursor target : Nat}
    {op : LoweredOp} (hok : ∀ o ∈ code, OperandsOk o) (hlt : target < cursor) (hget : code[target]? = some op) :
    ∃ final, (fusePrefix labels code cursor)[target]? = some final ∧
      (final.op = .opLocalGet4 ↔
        op.op = .opLocalGet4 ∧ windowFuses code target labels = false) ∧
      (final.op = .opLocalGet4 → final = op) := by
  have hpast : (fusePrefix labels code target)[target]? = some op := by
    rw [fusePrefix_get_ge (Nat.le_refl _), hget]
  have hwindow : windowFuses (fusePrefix labels code target) target labels =
      windowFuses code target labels := windowFuses_of_drop_eq (fusePrefix_drop target)
  refine ⟨_, (fusePrefix_get_lt (Nat.lt_succ_self target) hlt).trans (fusePrefix_get_succ hget),
    ?_⟩
  cases hfuse : fuseAt (fusePrefix labels code target) target labels with
  | none =>
      refine ⟨⟨fun hop => ⟨hop, ?_⟩, fun h => h.1⟩, fun _ => rfl⟩
      rw [← hwindow]
      refine (fuseAt_eq_none_iff hpast ?_).mp hfuse
      intro hne
      rw [show op.op = .opLocalGet4 from hop] at hne
      cases hne
  | some pair =>
      obtain ⟨fusion, r⟩ := pair
      have hhandler := (Fusion.handlers_ne (fuseAt_fused hok hget hfuse).handler).1
      refine ⟨⟨fun hop => absurd hop hhandler, ?_⟩, fun hop => absurd hop hhandler⟩
      rintro ⟨hop, hnone⟩
      have := (fuseAt_eq_none_iff hpast (by rw [hop]; simp)).mpr (hwindow.trans hnone)
      rw [this] at hfuse
      cases hfuse

private theorem taken_isSome (hok : ∀ o ∈ code, OperandsOk o) (cursor : Nat) :
    (fuseLoad8UpdateBranchTakenLocalGet4 (fusePrefix labels code cursor) cursor labels).isSome =
      (takenTarget code cursor labels).isSome := by
  unfold fuseLoad8UpdateBranchTakenLocalGet4 takenTarget
  rw [fusePrefix_get_ge (Nat.le_refl cursor)]
  cases hbranch : code[cursor]? with
  | none => rfl
  | some branch =>
      simp only [Option.bind_eq_bind, Option.bind_some]
      split
      · rfl
      · cases hlabel : opJumpTarget branch with
        | none => rfl
        | some label =>
            simp only [Option.bind_some]
            cases htarget : labels label with
            | none => rfl
            | some target =>
                simp only [Option.bind_some]
                by_cases hself : target = cursor
                · subst hself
                  simp [hbranch]
                · simp only [hself, if_false, false_or]
                  cases hget : code[target]? with
                  | none =>
                      have hnone : (fusePrefix labels code cursor)[target]? = none := by
                        rw [List.getElem?_eq_none_iff, fusePrefix_length]
                        exact List.getElem?_eq_none_iff.mp hget
                      simp [hnone]
                  | some op =>
                      rcases Nat.lt_or_gt_of_ne hself with hlt | hgt
                      · obtain ⟨final, hfinal, hiff, heq⟩ :=
                          fusePrefix_localGet4 labels hok hlt hget
                        simp only [hfinal, Option.bind_some]
                        by_cases hop : final.op = .opLocalGet4
                        · obtain ⟨hop', hnone⟩ := hiff.mp hop
                          obtain rfl := heq hop
                          cases final.operands <;> simp [hop, hnone]
                        · have hnot : ¬(op.op = .opLocalGet4 ∧
                              windowFuses code target labels = false) := fun h => hop (hiff.mpr h)
                          by_cases hop' : op.op = .opLocalGet4
                          · have hfuses : windowFuses code target labels = true := by
                              simpa [hop'] using hnot
                            simp [hop, hlt, hfuses]
                          · simp [hop, hop']
                      · have hnlt : ¬target < cursor := by omega
                        rw [fusePrefix_get_ge (by omega), hget]
                        simp only [Option.bind_some]
                        by_cases hop : op.op = .opLocalGet4
                        · cases op.operands <;> simp [hop, hnlt]
                        · simp [hop]

private theorem find?_eq_inputFusion (hok : ∀ o ∈ code, OperandsOk o) (cursor : Nat) :
    (Fusion.order.find? fun fusion =>
      (fusion.apply (fusePrefix labels code cursor) cursor labels).isSome) =
        inputFusion code cursor labels := by
  unfold inputFusion
  congr 1
  funext fusion
  by_cases htaken : fusion = .load8UpdateBranchTakenLocalGet4
  · subst htaken
    simp only [if_true]
    exact taken_isSome hok cursor
  · simp only [htaken, if_false]
    exact apply_isSome_of_drop_eq (fusePrefix_drop cursor) htaken

theorem fuseAt_none_iff (hok : ∀ o ∈ code, OperandsOk o) (cursor : Nat) :
    fuseAt (fusePrefix labels code cursor) cursor labels = none ↔
      inputFusion code cursor labels = none := by
  rw [← find?_eq_inputFusion hok, fuseAt, List.findSome?_eq_none_iff, List.find?_eq_none]
  simp

theorem fuseAt_some_iff (hok : ∀ o ∈ code, OperandsOk o) (cursor : Nat)
    (fusion : Fusion) :
    (∃ r, fuseAt (fusePrefix labels code cursor) cursor labels = some (fusion, r)) ↔
      inputFusion code cursor labels = some fusion := by
  rw [← find?_eq_inputFusion hok, fuseAt, findSome?_eq_find?]
  constructor
  · rintro ⟨r, h⟩
    obtain ⟨fusion', hfind, hmap⟩ := Option.bind_eq_some_iff.mp h
    obtain ⟨r', _, heq⟩ := Option.map_eq_some_iff.mp hmap
    rw [hfind, (Prod.mk.inj heq).1]
  · intro hfind
    have hsome := List.find?_some hfind
    obtain ⟨r, hr⟩ := Option.isSome_iff_exists.mp hsome
    exact ⟨r, by rw [hfind]; simp [hr]⟩

theorem fuseAt_eq_none_of_head {cursor : Nat} {op : LoweredOp} (hok : ∀ o ∈ code, OperandsOk o)
    (hget : code[cursor]? = some op) (hop : startsFusion op.op = false) :
    fuseAt (fusePrefix labels code cursor) cursor labels = none := by
  by_contra hne
  obtain ⟨⟨fusion, r⟩, hfuse⟩ := Option.ne_none_iff_exists'.mp hne
  have hhead := (fuseAt_fused hok hget hfuse).head
  unfold startsFusion at hop
  rw [List.any_eq_false] at hop
  exact hop fusion fusion.mem_order (by simpa using hhead)

/-- In the middle of the pass a position holds its op or the one a fusion put there. -/
theorem fusePrefix_get (labels : LabelIndices) {index : Nat} {op : LoweredOp}
    (hget : code[index]? = some op) (n : Nat) :
    (fusePrefix labels code n)[index]? = some op ∨ ∃ fusion r,
      fuseAt (fusePrefix labels code index) index labels = some (fusion, r) ∧
      (fusePrefix labels code n)[index]? = some r := by
  rcases Nat.lt_or_ge index n with hlt | hge
  · rw [fusePrefix_get_lt (Nat.lt_succ_self index) hlt, fusePrefix_get_succ hget]
    cases hfuse : fuseAt (fusePrefix labels code index) index labels with
    | none => exact Or.inl rfl
    | some pair => exact Or.inr ⟨pair.1, pair.2, rfl, rfl⟩
  · exact Or.inl ((fusePrefix_get_ge hge).trans hget)

end Pass

/-- The `u32` arm of a materialized operand. -/
def materializedU32 (f : LoweredFunction) (index operandIndex : Nat) : Nat :=
  match (f.code[index]?.bind fun op => op.operands[operandIndex]?).bind (operandValue f) with
  | some value => (u32 value).toNat
  | none => 0

/-- A pooled operand is unchanged, or refers to the value of a raw one. -/
def PooledOperand (pool : ConstPool) (operand pooled : LoweredOperand) : Prop :=
  pooled = operand ∨ ∃ encoded index, operand = .raw encoded ∧ pooled = .constPoolRef index ∧
    pool[index]? = some encoded

structure PooledOp (pool : ConstPool) (op pooled : LoweredOp) : Prop where
  label : pooled.label = op.label
  handler : pooled.op = op.op
  operands : List.Forall₂ (PooledOperand pool) op.operands pooled.operands

theorem PooledOperand.mono {pool pool' : ConstPool} {operand pooled : LoweredOperand}
    (h : PooledOperand pool operand pooled) (hpool : pool <+: pool') :
    PooledOperand pool' operand pooled := by
  obtain hsame | ⟨encoded, index, hraw, hindex, hget⟩ := h
  · exact Or.inl hsame
  · refine Or.inr ⟨encoded, index, hraw, hindex, ?_⟩
    obtain ⟨extra, rfl⟩ := hpool
    rw [List.getElem?_append_left (List.getElem?_eq_some_iff.mp hget).1, hget]

theorem PooledOp.mono {pool pool' : ConstPool} {op pooled : LoweredOp}
    (h : PooledOp pool op pooled) (hpool : pool <+: pool') : PooledOp pool' op pooled :=
  ⟨h.label, h.handler, h.operands.imp fun _ _ hop => hop.mono hpool⟩

private theorem poolOperand_spec (counts : BitVec 64 → Nat) (pool : ConstPool) (poolable : Bool)
    (operand : LoweredOperand) :
    pool <+: (poolOperand counts pool poolable operand).1 ∧
      PooledOperand (poolOperand counts pool poolable operand).1 operand
        (poolOperand counts pool poolable operand).2 := by
  unfold poolOperand
  split
  · next encoded =>
      split
      · split
        · next index hindex =>
            obtain ⟨hlt, hget, _⟩ := List.idxOf?_eq_some_iff.mp hindex
            refine ⟨List.prefix_refl _, Or.inr ⟨encoded, index, rfl, rfl, ?_⟩⟩
            rw [List.getElem?_eq_getElem hlt, hget]
        · exact ⟨List.prefix_append _ _, Or.inr ⟨encoded, pool.length, rfl, rfl, by simp⟩⟩
      · exact ⟨List.prefix_refl _, Or.inl rfl⟩
  · exact ⟨List.prefix_refl _, Or.inl rfl⟩

private theorem poolOperands_spec (counts : BitVec 64 → Nat) (poolable : Nat → Bool)
    (pool : ConstPool) (index : Nat) (operands : List LoweredOperand) :
    pool <+: (poolOperands counts poolable pool index operands).1 ∧
      List.Forall₂ (PooledOperand (poolOperands counts poolable pool index operands).1) operands
        (poolOperands counts poolable pool index operands).2 := by
  induction operands generalizing pool index with
  | nil => exact ⟨List.prefix_refl _, List.Forall₂.nil⟩
  | cons operand operands ih =>
      have hhead := poolOperand_spec counts pool (poolable index) operand
      have htail := ih (poolOperand counts pool (poolable index) operand).1 (index + 1)
      exact ⟨hhead.1.trans htail.1, List.Forall₂.cons (hhead.2.mono htail.1) htail.2⟩

private theorem poolCode_spec (counts : BitVec 64 → Nat) (pool : ConstPool)
    (code : List LoweredOp) :
    pool <+: (poolCode counts pool code).1 ∧
      List.Forall₂ (PooledOp (poolCode counts pool code).1) code
        (poolCode counts pool code).2 := by
  induction code generalizing pool with
  | nil => exact ⟨List.prefix_refl _, List.Forall₂.nil⟩
  | cons op code ih =>
      have hhead := poolOperands_spec counts
        (fun index => poolableRawOperand op.op index op.operands) pool 0 op.operands
      have htail := ih (poolOperands counts
        (fun index => poolableRawOperand op.op index op.operands) pool 0 op.operands).1
      exact ⟨hhead.1.trans htail.1, List.Forall₂.cons
        (PooledOp.mono ⟨rfl, rfl, hhead.2⟩ htail.1) htail.2⟩

theorem encode_pooled (kernel : LoweredKernelFunction) :
    List.Forall₂ (PooledOp (encode kernel).constPool)
      (fuseSearchLoopEntries kernel.labels kernel.code) (encode kernel).code :=
  (poolCode_spec _ _ _).2

theorem PooledOp.slotLen_eq {pool : ConstPool} {op pooled : LoweredOp}
    (h : PooledOp pool op pooled) : slotLen pooled = slotLen op := by
  rw [slotLen, slotLen, h.operands.length_eq]

theorem PooledOp.reads {f : LoweredFunction} {index : Nat} {op pooled : LoweredOp}
    (h : PooledOp f.constPool op pooled) (hget : f.code[index]? = some pooled) :
    Reads op (materializedU32 f index) := by
  intro i encoded hraw
  obtain ⟨hi, hrawEq⟩ := List.getElem?_eq_some_iff.mp hraw
  have hi' : i < pooled.operands.length := by
    rw [← h.operands.length_eq]
    exact hi
  have hpooled := h.operands.get hi hi'
  simp only [List.get_eq_getElem, hrawEq] at hpooled
  have hvalue : operandValue f pooled.operands[i] = some encoded := by
    obtain hsame | ⟨encoded', ref, hencoded, href, hpool⟩ := hpooled
    · rw [hsame, operandValue]
    · obtain rfl := LoweredOperand.raw.inj hencoded
      rw [href, operandValue, hpool]
  have hread : (f.code[index]?.bind fun op => op.operands[i]?).bind (operandValue f) =
      some encoded := by
    rw [hget]
    simp only [Option.bind_some, List.getElem?_eq_getElem hi', hvalue]
  simp only [materializedU32, hread]

/-- A position of the encoded function: same label, and more slots exactly when it was fused. -/
structure Placed (kernel : LoweredKernelFunction) (index : Nat) (op fused final : LoweredOp) :
    Prop where
  get : (encode kernel).code[index]? = some final
  result : fused = ((fuseAt (fusePrefix kernel.labels kernel.code index) index kernel.labels).map
    Prod.snd).getD op
  pooled : PooledOp (encode kernel).constPool fused final
  label : final.label = op.label
  grows : slotLen op ≤ slotLen final
  same_iff : slotLen final = slotLen op ↔ inputFusion kernel.code index kernel.labels = none
  fires : ∀ fusion, inputFusion kernel.code index kernel.labels = some fusion →
    Fused op (kernel.code.drop (index + 1)) fusion fused

theorem fused_get {kernel : LoweredKernelFunction} {index : Nat} {op : LoweredOp}
    (hget : kernel.code[index]? = some op) :
    (fuseSearchLoopEntries kernel.labels kernel.code)[index]? = some
      (((fuseAt (fusePrefix kernel.labels kernel.code index) index kernel.labels).map
        Prod.snd).getD op) := by
  have hlt := (List.getElem?_eq_some_iff.mp hget).1
  rw [fuseSearchLoopEntries, fusePrefix_get_lt (Nat.lt_succ_self index) hlt,
    fusePrefix_get_succ hget]

theorem placed {kernel : LoweredKernelFunction} (hwf : WellFormed kernel) {index : Nat}
    {op : LoweredOp} (hget : kernel.code[index]? = some op) :
    ∃ fused final, Placed kernel index op fused final := by
  have hfused := fused_get hget
  obtain ⟨hlt, hfusedGet⟩ := List.getElem?_eq_some_iff.mp hfused
  have hlt' : index < (encode kernel).code.length := by
    rw [← (encode_pooled kernel).length_eq]
    exact hlt
  have hpooled := (encode_pooled kernel).get hlt hlt'
  simp only [List.get_eq_getElem, hfusedGet] at hpooled
  have hlen := hpooled.slotLen_eq
  suffices hrest : (encode kernel).code[index].label = op.label ∧
      slotLen op ≤ slotLen (encode kernel).code[index] ∧
      (slotLen (encode kernel).code[index] = slotLen op ↔
        inputFusion kernel.code index kernel.labels = none) ∧
      ∀ fusion, inputFusion kernel.code index kernel.labels = some fusion →
        Fused op (kernel.code.drop (index + 1)) fusion
          (((fuseAt (fusePrefix kernel.labels kernel.code index) index kernel.labels).map
            Prod.snd).getD op) from
    ⟨_, _, List.getElem?_eq_getElem hlt', rfl, hpooled, hrest.1, hrest.2.1, hrest.2.2.1, hrest.2.2.2⟩
  cases hfuse : fuseAt (fusePrefix kernel.labels kernel.code index) index kernel.labels with
  | none =>
      have hnone := (fuseAt_none_iff hwf.operands index).mp hfuse
      simp only [hfuse, Option.map_none, Option.getD_none] at hpooled hlen
      refine ⟨hpooled.label, by omega, ?_, ?_⟩
      · simp [hlen, hnone]
      · simp [hnone]
  | some pair =>
      obtain ⟨fusion, r⟩ := pair
      have hspec := fuseAt_fused hwf.operands hget hfuse
      have hsome := (fuseAt_some_iff hwf.operands index fusion).mp ⟨r, hfuse⟩
      have hgrows := hspec.grows
      simp only [hfuse, Option.map_some, Option.getD_some] at hpooled hlen
      have hlt : slotLen op < slotLen r := by
        simp only [slotLen]
        omega
      refine ⟨hpooled.label.trans hspec.label, by omega, ?_, ?_⟩
      · rw [hsome]
        simp only [reduceCtorEq, iff_false]
        omega
      · intro fusion' hfusion'
        obtain rfl : fusion = fusion' := Option.some.inj (hsome.symm.trans hfusion')
        exact hspec

theorem encode_length (kernel : LoweredKernelFunction) :
    (encode kernel).code.length = kernel.code.length := by
  rw [← (encode_pooled kernel).length_eq, fuseSearchLoopEntries, fusePrefix_length]
theorem startOf_succ {code : List LoweredOp} {index : Nat} {op : LoweredOp}
    (hget : code[index]? = some op) : startOf code (index + 1) = startOf code index + slotLen op := by
  obtain ⟨hlt, rfl⟩ := List.getElem?_eq_some_iff.mp hget
  rw [startOf, List.take_succ_eq_append_getElem hlt, slotCount_append, startOf]
  simp

private theorem foldl_unlabelled {label : Nat} (code : List LoweredOp) (acc addr : Nat)
    (h : ∀ op ∈ code, op.label ≠ some label) :
    code.foldl (fun (acc : Nat × Nat) (op : LoweredOp) =>
      (if op.label = some label then acc.2 else acc.1, acc.2 + slotLen op)) (acc, addr) =
        (acc, addr + slotCount code) := by
  induction code generalizing addr with
  | nil => rfl
  | cons op code ih =>
      have hop := h op (by simp)
      rw [List.foldl_cons]
      simp only [hop, if_false]
      rw [ih _ fun o ho => h o (List.mem_cons_of_mem _ ho), slotCount_cons, Nat.add_assoc]

theorem labelToAddr_eq {code : List LoweredOp} {label index : Nat} {op : LoweredOp}
    (hget : code[index]? = some op) (hlabel : op.label = some label)
    (hunique : ∀ j o, code[j]? = some o → o.label = some label → j = index) :
    labelToAddr code label = startOf code index := by
  obtain ⟨hlt, rfl⟩ := List.getElem?_eq_some_iff.mp hget
  have hsplit : code = code.take index ++ code[index] :: code.drop (index + 1) := by
    rw [← List.drop_eq_getElem_cons hlt, List.take_append_drop]
  have hbefore : ∀ o ∈ code.take index, o.label ≠ some label := by
    intro o ho hlab
    obtain ⟨j, hj⟩ := List.mem_iff_getElem?.mp ho
    rw [List.getElem?_take] at hj
    split at hj
    · have := hunique j o hj hlab
      omega
    · cases hj
  have hafter : ∀ o ∈ code.drop (index + 1), o.label ≠ some label := by
    intro o ho hlab
    obtain ⟨j, hj⟩ := List.mem_iff_getElem?.mp ho
    rw [List.getElem?_drop] at hj
    have := hunique _ o hj hlab
    omega
  unfold labelToAddr
  dsimp only
  conv_lhs => rw [hsplit]
  rw [List.foldl_append, foldl_unlabelled _ _ _ hbefore, List.foldl_cons]
  simp only [hlabel, if_true]
  rw [foldl_unlabelled _ _ _ hafter, startOf]
  simp

theorem code_labelToAddr {kernel : LoweredKernelFunction} (hwf : WellFormed kernel)
    {label target : Nat} {op : LoweredOp} (hget : kernel.code[target]? = some op)
    (htarget : kernel.labels label = some target) :
    labelToAddr kernel.code label = startOf kernel.code target := by
  refine labelToAddr_eq hget ((hwf.labels target op label hget).mpr htarget) ?_
  intro j o hj hlab
  have := (hwf.labels j o label hj).mp hlab
  exact Option.some.inj (this.symm.trans htarget)

theorem encode_labelToAddr {kernel : LoweredKernelFunction} (hwf : WellFormed kernel)
    {label target : Nat} {op : LoweredOp} (hget : kernel.code[target]? = some op)
    (htarget : kernel.labels label = some target) :
    labelToAddr (encode kernel).code label = startOf (encode kernel).code target := by
  obtain ⟨fused, final, hplaced⟩ := placed hwf hget
  have hlabel := (hwf.labels target op label hget).mpr htarget
  refine labelToAddr_eq hplaced.get (hplaced.label.trans hlabel) ?_
  intro j o hj hlab
  have hlt : j < kernel.code.length := by
    rw [← encode_length]
    exact (List.getElem?_eq_some_iff.mp hj).1
  have hgetj : kernel.code[j]? = some kernel.code[j] := List.getElem?_eq_getElem hlt
  obtain ⟨_, finalj, hplacedj⟩ := placed hwf hgetj
  obtain rfl : finalj = o := Option.some.inj (hplacedj.get.symm.trans hj)
  have := (hwf.labels j _ label hgetj).mp (hplacedj.label.symm.trans hlab)
  exact Option.some.inj (this.symm.trans htarget)

theorem takenTarget_spec {kernel : LoweredKernelFunction} {cursor target : Nat}
    (h : takenTarget kernel.code cursor kernel.labels = some target) :
    ∃ branch label op, kernel.code[cursor]? = some branch ∧ opJumpTarget branch = some label ∧
      kernel.labels label = some target ∧ kernel.code[target]? = some op ∧
      op.op = .opLocalGet4 := by
  obtain ⟨branch, hbranch, h⟩ := Option.bind_eq_some_iff.mp h
  split at h
  · cases h
  · obtain ⟨label, hlabel, h⟩ := Option.bind_eq_some_iff.mp h
    obtain ⟨index, hindex, h⟩ := Option.bind_eq_some_iff.mp h
    obtain ⟨op, hop, h⟩ := Option.bind_eq_some_iff.mp h
    split at h
    · cases h
    · next hcond =>
        push Not at hcond
        obtain rfl := Option.some.inj h
        exact ⟨branch, label, op, hbranch, hlabel, hindex, hop, hcond.2.1⟩

theorem inputFusion_taken {code : List LoweredOp} {cursor : Nat} {labels : LabelIndices}
    (h : inputFusion code cursor labels = some .load8UpdateBranchTakenLocalGet4) :
    (takenTarget code cursor labels).isSome := by
  have := List.find?_some h
  simpa using this

theorem inputFusion_inRange {code : List LoweredOp} {cursor : Nat}
    {labels : LabelIndices} {fusion : Fusion} (h : inputFusion code cursor labels = some fusion) :
    ∃ op, code[cursor]? = some op := by
  by_contra hnot
  have hnone : code[cursor]? = none := by
    cases hget : code[cursor]? with
    | none => rfl
    | some op => exact absurd ⟨op, hget⟩ hnot
  have happlies := List.find?_some h
  have hlength := List.getElem?_eq_none_iff.mp hnone
  by_cases htaken : fusion = .load8UpdateBranchTakenLocalGet4
  · simp [htaken, takenTarget, hnone] at happlies
  · simp [htaken, fuseAt_out_of_range hlength] at happlies

end Telomere.Optimizer
