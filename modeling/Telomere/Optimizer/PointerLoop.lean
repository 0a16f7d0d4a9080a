import Telomere.Lib.Except
import Telomere.Optimizer.Select
import Telomere.Vm.Loops

/-!
# Pointer loops

The two superinstructions that `select` puts in place of a loop over a linked list: one reverses
the list, one relinks it. The handlers go round on copies of locals; the block they replace goes
round from its first op.
-/

namespace Telomere.Optimizer

open Vm Lib

/-- What stands around a window in the kernel: the blocks before and after its block, and the ops
emitted in front of the window and behind it. -/
structure Surroundings where
  before : List KernelBlock
  front : List KernelOp
  back : List KernelOp
  after : List KernelBlock

namespace Surroundings

/-- The kernel with these ops at the window of block `id`, as it is lowered. -/
def lowered (around : Surroundings) (id : Nat) (ops : List KernelOp) : LoweredFunction :=
  (KernelFunction.mk (around.before ++ ⟨id, around.front ++ ops ++ around.back⟩ ::
    around.after)).lower.unfused

def start (around : Surroundings) : Nat :=
  (KernelFunction.mk around.before).lower.code.length

def window (around : Surroundings) : Nat :=
  around.start + around.front.length

end Surroundings

/-- Ops that fall through, and the conditional branch behind them. -/
def straightBody : Nat → LoopBody
  | 0 => .op .leave .back
  | count + 1 => .op (straightBody count) .leave

/-- Same trap, or same state and both behind the window. -/
def EndBehind (window consumed : Nat) : Outcome → Outcome → Prop
  | .error trap, .error trap' => trap = trap'
  | .ok (index, s), .ok (index', s') =>
      index = some (window + 1) ∧ index' = some (window + consumed) ∧ s = s'
  | _, _ => False

/-- The emitted op ends as the instructions it replaces do. -/
def EqualsPointerLoop (around : Surroundings) (block : CanonBlock) (cursor : Nat)
    (result : MatchResult) (s : VmState) : Prop :=
  let insts := (block.insts.drop cursor).take result.consumed
  let fused := around.lowered block.id result.ops
  let unfused := around.lowered block.id (insts.map CanonInst.generic)
  EndAlike (EndBehind around.window result.consumed) (superPass fused around.window)
    (superEnter fused around.window s)
    (loopPass unfused around.window (straightBody (result.consumed - 1))) s

private theorem lower_get (block : KernelBlock) (i : Nat) :
    block.lower.ops[i]? = block.ops[i]?.map fun op =>
      ⟨if i = 0 then some block.blockId else none, op.op, op.operands⟩ := by
  unfold KernelBlock.lower
  dsimp only
  split
  · next h => simp [h]
  · next first rest h =>
      rw [h]
      cases i with
      | zero => simp
      | succ i => simp

private theorem lower_label {block : KernelBlock} {op : LoweredOp} {label : Nat}
    (h : op ∈ block.lower.ops) (hlabel : op.label = some label) : label = block.blockId := by
  obtain ⟨i, hi⟩ := List.mem_iff_getElem?.mp h
  rw [lower_get] at hi
  obtain ⟨kernelOp, _, rfl⟩ := Option.map_eq_some_iff.mp hi
  dsimp only at hlabel
  split at hlabel
  · exact (Option.some.inj hlabel).symm
  · cases hlabel

private theorem other_label {blocks : List KernelBlock} {id label : Nat}
    (hother : ∀ block ∈ blocks, block.blockId ≠ id) {op : LoweredOp}
    (h : op ∈ (KernelFunction.mk blocks).lower.code) (hlabel : op.label = some label) :
    label ≠ id := by
  simp only [KernelFunction.lower, LoweredKernelFunction.code, List.mem_flatMap, List.mem_map] at h
  obtain ⟨_, ⟨block, hmem, rfl⟩, hop⟩ := h
  rw [lower_label hop hlabel]
  exact hother block hmem

section Layout

variable {around : Surroundings} {id : Nat} {ops : List KernelOp}

private theorem lowered_code : (around.lowered id ops).code =
    (KernelFunction.mk around.before).lower.code ++
      ((KernelBlock.mk id (around.front ++ ops ++ around.back)).lower.ops ++
        (KernelFunction.mk around.after).lower.code) := by
  simp [Surroundings.lowered, LoweredKernelFunction.unfused, KernelFunction.lower,
    LoweredKernelFunction.code, List.flatMap_append]

private theorem get_start {i : Nat} {op : KernelOp}
    (h : (around.front ++ ops ++ around.back)[i]? = some op) :
    (around.lowered id ops).code[around.start + i]? =
      some ⟨if i = 0 then some id else none, op.op, op.operands⟩ := by
  have hget : (KernelBlock.mk id (around.front ++ ops ++ around.back)).lower.ops[i]? =
      some ⟨if i = 0 then some id else none, op.op, op.operands⟩ := by
    rw [lower_get, h]
    rfl
  have hlt := (List.getElem?_eq_some_iff.mp hget).1
  rw [lowered_code, List.getElem?_append_right (by simp [Surroundings.start]), Surroundings.start,
    Nat.add_sub_cancel_left, List.getElem?_append_left hlt, hget]

private theorem get_window {i : Nat} {op : KernelOp} (h : ops[i]? = some op) :
    ∃ label, (around.lowered id ops).code[around.window + i]? =
      some ⟨label, op.op, op.operands⟩ := by
  have hlt := (List.getElem?_eq_some_iff.mp h).1
  have hget : (around.front ++ ops ++ around.back)[around.front.length + i]? = some op := by
    rw [List.getElem?_append_left (by simp; omega), List.getElem?_append_right (by omega),
      Nat.add_sub_cancel_left, h]
  rw [Surroundings.window, Nat.add_assoc, get_start hget]
  exact ⟨_, rfl⟩

private theorem start_addr (hne : ops ≠ [])
    (hbefore : ∀ block ∈ around.before ++ around.after, block.blockId ≠ id) :
    labelToAddr (around.lowered id ops).code id =
      startOf (around.lowered id ops).code around.start := by
  obtain ⟨op, hop⟩ : ∃ op, (around.front ++ ops ++ around.back)[0]? = some op := by
    rw [← List.head?_eq_getElem?]
    cases hhead : (around.front ++ ops ++ around.back).head? with
    | none => simp [hne] at hhead
    | some op => exact ⟨op, rfl⟩
  have hget : (around.lowered id ops).code[around.start]? = some ⟨some id, op.op, op.operands⟩ :=
    get_start hop
  refine labelToAddr_eq hget rfl ?_
  intro j o hj hlabel
  rw [lowered_code] at hj
  rcases Nat.lt_or_ge j around.start with hlt | hge
  · rw [List.getElem?_append_left hlt] at hj
    exact absurd rfl (other_label (fun block hmem => hbefore block (by simp [hmem]))
      (List.mem_of_getElem? hj) hlabel)
  · rw [List.getElem?_append_right hge] at hj
    rcases Nat.lt_or_ge (j - around.start)
        (KernelBlock.mk id (around.front ++ ops ++ around.back)).lower.ops.length with hlt | hge'
    · rw [show (KernelFunction.mk around.before).lower.code.length = around.start from rfl,
        List.getElem?_append_left hlt, lower_get] at hj
      obtain ⟨kernelOp, _, rfl⟩ := Option.map_eq_some_iff.mp hj
      dsimp only at hlabel
      split at hlabel
      · omega
      · cases hlabel
    · rw [show (KernelFunction.mk around.before).lower.code.length = around.start from rfl,
        List.getElem?_append_right hge'] at hj
      exact absurd rfl (other_label (fun block hmem => hbefore block (by simp [hmem]))
        (List.mem_of_getElem? hj) hlabel)

end Layout

/-- Handlers that go on with the next op and read one operand. -/
def straight : Op → Bool
  | .opLocalGet4 | .opLocalSet4 | .opLocalTee4 | .opI32Load | .opI32Store => true
  | _ => false

def execAll (pool : ConstPool) : List KernelOp → VmState → Except Trap VmState
  | [], s => .ok s
  | op :: ops, s => do
      let (_, s) ← exec op.op (words pool ⟨none, op.op, op.operands⟩) s
      execAll pool ops s

private theorem exec_straight {op : Op} {word : Words} {s s' : VmState} {control : Control}
    (hop : straight op) (h : exec op word s = .ok (control, s')) : control = ⟨.fall 1, false⟩ := by
  cases op <;> simp only [straight, Bool.false_eq_true] at hop
  case opLocalGet4 => exact (Prod.mk.inj (Except.ok.inj h)).1.symm
  case opLocalSet4 =>
      obtain ⟨_, _, h⟩ := bind_eq_ok.mp h
      exact (Prod.mk.inj (Except.ok.inj h)).1.symm
  case opLocalTee4 =>
      obtain ⟨_, _, h⟩ := bind_eq_ok.mp h
      exact (Prod.mk.inj (Except.ok.inj h)).1.symm
  case opI32Load =>
      obtain ⟨_, _, h⟩ := bind_eq_ok.mp h
      obtain ⟨_, _, h⟩ := bind_eq_ok.mp h
      obtain ⟨_, _, h⟩ := bind_eq_ok.mp h
      exact (Prod.mk.inj (Except.ok.inj h)).1.symm
  case opI32Store =>
      obtain ⟨_, _, h⟩ := bind_eq_ok.mp h
      obtain ⟨_, _, h⟩ := bind_eq_ok.mp h
      obtain ⟨_, _, h⟩ := bind_eq_ok.mp h
      obtain ⟨_, _, h⟩ := bind_eq_ok.mp h
      exact (Prod.mk.inj (Except.ok.inj h)).1.symm

/-- A run over the straight ops of a window is their effect one after the other. -/
private theorem straightBody_run {f : LoweredFunction} (ops : List KernelOp) (index : Nat)
    (s : VmState) (hstraight : ∀ op ∈ ops, straight op.op ∧ op.operands.length = 1)
    (hget : ∀ i op, ops[i]? = some op →
      ∃ label, f.code[index + i]? = some ⟨label, op.op, op.operands⟩) :
    (straightBody ops.length).run f (some index) s =
      execAll f.constPool ops s >>= fun s =>
        (LoopBody.op .leave .back).run f (some (index + ops.length)) s := by
  induction ops generalizing index s with
  | nil => rfl
  | cons op ops ih =>
      obtain ⟨label, hop⟩ := hget 0 op rfl
      rw [Nat.add_zero] at hop
      obtain ⟨hkind, hone⟩ := hstraight op (by simp)
      have hrest := fun s' => ih (index + 1) s' (fun o ho => hstraight o (by simp [ho]))
        fun i o ho => by
          obtain ⟨label, h⟩ := hget (i + 1) o ho
          exact ⟨label, by rw [← h]; congr 1; omega⟩
      rw [List.length_cons, straightBody, LoopBody.run, step, hop, execAll]
      dsimp only
      rw [show words f.constPool ⟨label, op.op, op.operands⟩ =
        words f.constPool ⟨none, op.op, op.operands⟩ from rfl]
      cases hexec : exec op.op (words f.constPool ⟨none, op.op, op.operands⟩) s with
      | error trap => rfl
      | ok result =>
          obtain ⟨control, s'⟩ := result
          obtain rfl := exec_straight hkind hexec
          simp only [bind, Except.bind, pure, Except.pure, continuation]
          rw [landing_fall hop hone.symm, show index + (ops.length + 1) = index + 1 + ops.length by omega]
          exact hrest s'

/-- One pass of a handler next to the ops it replaces, up to the condition of their branch. -/
private def StepAlike (related : Cached → VmState → Prop) :
    Except Trap (Pass (Cached × VmState) (Control × VmState)) → Except Trap VmState → Prop
  | .error trap, .error trap' => trap = trap'
  | .ok (.leave (control, s)), .ok s' => control = ⟨.fall 5, false⟩ ∧ s' = s.push 0
  | .ok (.again (cached, s)), .ok s' => related cached s ∧ ∃ next, next ≠ 0 ∧ s' = s.push next
  | _, _ => False

section Pass

variable {around : Surroundings} {id height : Nat} {body : List KernelOp} {loop : KernelOp}
  {handler : LoopHandler} {related : Cached → VmState → Prop}

/-- The branch behind the ops of a window goes on behind it or back to the block's first op. -/
private theorem branch_run (hten : body.length = 10)
    (hlabels : ∀ block ∈ around.before ++ around.after, block.blockId ≠ id) (s : VmState)
    (cond : BitVec 32) :
    (LoopBody.op .leave .back).run
        (around.lowered id (body ++ [⟨.opBrIf, [.jumpTarget id]⟩])) (some (around.window + 10))
        (s.push cond) =
      if cond = 0 then .ok (false, some (around.window + 11), s)
      else .ok (true, some around.start, s) := by
  have hlast : (body ++ [⟨.opBrIf, [.jumpTarget id]⟩])[10]? =
      some (⟨.opBrIf, [.jumpTarget id]⟩ : KernelOp) := by
    rw [← hten, List.getElem?_concat_length]
  obtain ⟨label, hget⟩ := @get_window around id _ 10 _ hlast
  dsimp only at hget
  have hlt := (List.getElem?_eq_some_iff.mp hget).1
  have hstart : around.start ≤ (around.lowered id
      (body ++ [⟨.opBrIf, [.jumpTarget id]⟩])).code.length := by
    rw [Surroundings.window] at hlt
    omega
  have hexec : ∀ pool : ConstPool,
      exec .opBrIf (words pool ⟨label, .opBrIf, [.jumpTarget id]⟩) (s.push cond) =
      .ok (⟨if cond ≠ 0 then .jump 0 0 else .fall 1, false⟩, s) := fun _ => rfl
  rw [LoopBody.run, step, hget]
  dsimp only
  rw [hexec]
  simp only [bind, Except.bind, pure, Except.pure, continuation, Bool.false_eq_true, if_false]
  by_cases hzero : cond = 0
  · simp only [hzero, ne_eq, not_true_eq_false, if_false, if_true]
    have hfall := landing_fall hget (show 1 = [LoweredOperand.jumpTarget id].length from rfl)
    rw [hfall]
    rfl
  · simp only [hzero, ne_eq, not_false_eq_true, if_true, if_false]
    rw [landing_jump List.getElem?_cons_zero (start_addr (by simp) hlabels) hstart]
    rfl

private theorem superPass_lowered (hhandler : loopHandler loop.op = some handler)
    (cached : Cached) (s : VmState) :
    ∃ label, let f := around.lowered id [loop]
      f.code[around.window]? = some ⟨label, loop.op, loop.operands⟩ ∧
      superEnter f around.window s =
        (handler.enter (words f.constPool ⟨none, loop.op, loop.operands⟩) s, s) ∧
      superPass f around.window (cached, s) =
        settle f.code around.window ⟨label, loop.op, loop.operands⟩
          (handler.pass (words f.constPool ⟨none, loop.op, loop.operands⟩) cached s) := by
  obtain ⟨label, hget⟩ : ∃ label, (around.lowered id [loop]).code[around.window + 0]? =
      some ⟨label, loop.op, loop.operands⟩ := get_window rfl
  rw [Nat.add_zero] at hget
  refine ⟨label, hget, ?_, ?_⟩
  · simp only [superEnter, hget, hhandler, Option.bind_some, Option.map_some]
    rfl
  · simp only [superPass, hget, hhandler, Option.bind_some, Option.map_some]
    rfl

/-- A handler whose passes do what the ops of the window do ends as the loop does. -/
private theorem endAlike_of_stepAlike (hten : body.length = 10)
    (hlabels : ∀ block ∈ around.before ++ around.after, block.blockId ≠ id)
    (hstraight : ∀ op ∈ body, straight op.op ∧ op.operands.length = 1)
    (hidle : ∀ op ∈ around.front, Idle height ⟨none, op.op, op.operands⟩)
    (hhandler : loopHandler loop.op = some handler) (hfive : loop.operands.length = 5)
    (hheight : ∀ cached s, related cached s → s.stack.length = height)
    (hstep : ∀ cached s, related cached s → StepAlike related
      (handler.pass (words (around.lowered id [loop]).constPool ⟨none, loop.op, loop.operands⟩)
        cached s)
      (execAll (around.lowered id (body ++ [⟨.opBrIf, [.jumpTarget id]⟩])).constPool body s))
    {s : VmState} (henter : related
      (handler.enter (words (around.lowered id [loop]).constPool ⟨none, loop.op, loop.operands⟩) s)
      s) :
    EndAlike (EndBehind around.window 11) (superPass (around.lowered id [loop]) around.window)
      (superEnter (around.lowered id [loop]) around.window s)
      (loopPass (around.lowered id (body ++ [⟨.opBrIf, [.jumpTarget id]⟩])) around.window
        (straightBody 10)) s := by
  have hentered : superEnter (around.lowered id [loop]) around.window s = (handler.enter
      (words (around.lowered id [loop]).constPool ⟨none, loop.op, loop.operands⟩) s, s) := by
    obtain ⟨_, _, hentered, _⟩ := superPass_lowered hhandler ⟨0, 0⟩ s
    exact hentered
  have hwindow : ∀ i op, body[i]? = some op → ∃ label, (around.lowered id
      (body ++ [⟨.opBrIf, [.jumpTarget id]⟩])).code[around.window + i]? =
        some ⟨label, op.op, op.operands⟩ := by
    intro i op hop
    exact get_window (by rw [List.getElem?_append_left (List.getElem?_eq_some_iff.mp hop).1, hop])
  have hpass : ∀ state t, (state.2 = t ∧ related state.1 t) →
      PassAlike (fun state t => state.2 = t ∧ related state.1 t) (EndBehind around.window 11)
        (superPass (around.lowered id [loop]) around.window state)
        (loopPass (around.lowered id (body ++ [⟨.opBrIf, [.jumpTarget id]⟩])) around.window
          (straightBody 10) t) := by
    rintro ⟨cached, s⟩ _ ⟨rfl, hrelated⟩
    dsimp only at hrelated ⊢
    obtain ⟨label, hget, -, hsuper⟩ := superPass_lowered hhandler cached s
    have hrun := straightBody_run body around.window s hstraight hwindow
    rw [hten] at hrun
    rw [hsuper, loopPass, hrun]
    have halike := hstep cached s hrelated
    have hleave : continuation (around.lowered id [loop]).code around.window
        ⟨label, loop.op, loop.operands⟩ ⟨.fall 5, false⟩ = some (around.window + 1) :=
      continuation_landed (landing_fall hget hfive.symm)
    unfold StepAlike at halike
    split at halike
    · next trap trap' hfirst hsecond =>
        rw [hfirst, hsecond]
        exact halike
    · next control s₁ s₂ hfirst hsecond =>
        obtain ⟨rfl, rfl⟩ := halike
        rw [hfirst, hsecond]
        simp only [bind, Except.bind, branch_run hten hlabels, if_true, settle, close, hleave]
        exact ⟨rfl, rfl, rfl⟩
    · next cached' s₁ s₂ hfirst hsecond =>
        obtain ⟨hrelated', next, hne, rfl⟩ := halike
        have hagain : reenter (around.lowered id (body ++ [⟨.opBrIf, [.jumpTarget id]⟩]))
            around.window s₁ (some around.start) = .again s₁ := by
          refine reenter_again (Nat.le_add_right _ _) (hheight _ _ hrelated') ?_
          intro k hk hlt
          obtain ⟨i, rfl⟩ := Nat.exists_eq_add_of_le hk
          have hi : i < around.front.length := by
            unfold Surroundings.window at hlt
            omega
          refine ⟨_, get_start (by rw [List.append_assoc, List.getElem?_append_left hi,
            List.getElem?_eq_getElem hi]), hidle _ (List.getElem_mem hi)⟩
        rw [hfirst, hsecond]
        simp only [bind, Except.bind, branch_run hten hlabels, hne, if_false, settle, close, hagain]
        exact ⟨rfl, hrelated'⟩
    · exact halike.elim
  rw [hentered]
  exact endAlike_of_passAlike hpass ⟨rfl, henter⟩

end Pass

/-- The operands that decoding gives the instructions of a window. -/
structure CanonInst.Decoded (inst : CanonInst) : Prop where
  straight : straight inst.op → ∃ encoded, inst.operands = [.raw encoded]
  branch : inst.op = .opBrIf → inst.operands.length = 1

def reverseOps (prev saved cursor load store : BitVec 64) : List KernelOp :=
  [⟨.opLocalGet4, [.raw prev]⟩, ⟨.opLocalSet4, [.raw saved]⟩, ⟨.opLocalGet4, [.raw cursor]⟩,
    ⟨.opLocalTee4, [.raw prev]⟩, ⟨.opI32Load, [.raw load]⟩, ⟨.opLocalSet4, [.raw cursor]⟩,
    ⟨.opLocalGet4, [.raw prev]⟩, ⟨.opLocalGet4, [.raw saved]⟩, ⟨.opI32Store, [.raw store]⟩,
    ⟨.opLocalGet4, [.raw cursor]⟩]

def relinkOps (cursor current prev load store : BitVec 64) : List KernelOp :=
  [⟨.opLocalGet4, [.raw cursor]⟩, ⟨.opLocalTee4, [.raw current]⟩, ⟨.opI32Load, [.raw load]⟩,
    ⟨.opLocalSet4, [.raw cursor]⟩, ⟨.opLocalGet4, [.raw current]⟩, ⟨.opLocalGet4, [.raw prev]⟩,
    ⟨.opI32Store, [.raw store]⟩, ⟨.opLocalGet4, [.raw current]⟩, ⟨.opLocalSet4, [.raw prev]⟩,
    ⟨.opLocalGet4, [.raw cursor]⟩]

section Reverse

variable {prev saved cursor load store : BitVec 64}

private theorem reverse_step (pool pool' : ConstPool) (height : Nat)
    (hprevSaved : u32 prev ≠ u32 saved) (hprevCursor : u32 prev ≠ u32 cursor)
    (hsavedCursor : u32 saved ≠ u32 cursor) (cached : Cached) (s : VmState)
    (hrelated : cached.cursor = s.locals (u32 cursor) ∧ cached.other = s.locals (u32 prev) ∧
      s.stack.length = height) :
    StepAlike (fun cached s => cached.cursor = s.locals (u32 cursor) ∧
        cached.other = s.locals (u32 prev) ∧ s.stack.length = height)
      (reverseLoop.pass (words pool ⟨none, .opI32LoadStoreLocalBaseReverseLoop,
        [.raw prev, .raw saved, .raw cursor, .raw load, .raw store]⟩) cached s)
      (execAll pool' (reverseOps prev saved cursor load store) s) := by
  obtain ⟨hcursor, hother, hheight⟩ := hrelated
  have hread : (s.setLocal (u32 saved) cached.other).locals (u32 cursor) = cached.cursor := by
    rw [hcursor]
    exact if_neg (Ne.symm hsavedCursor)
  simp only [reverseOps, execAll, exec, bind, Except.bind, pure, Except.pure,
    VmState.pop_push, ← hother, hread, VmState.pop_setLocal_push, reverseLoop, words, operandWord,
    List.getElem?_cons_succ, List.getElem?_cons_zero, Option.map_some, Option.getD_some]
  generalize hs₁ : (s.setLocal (u32 saved) cached.other).setLocal (u32 prev) cached.cursor = s₁
  cases computeMemoryOffset load cached.cursor with
  | error trap => rfl
  | ok start =>
      dsimp only
      cases s₁.memory.readU32At start with
      | error trap => rfl
      | ok next =>
          have haddr : (s₁.setLocal (u32 cursor) next).locals (u32 prev) = cached.cursor := by
            subst hs₁
            exact (if_neg hprevCursor).trans (if_pos rfl)
          have hvalue : (s₁.setLocal (u32 cursor) next).locals (u32 saved) = cached.other := by
            subst hs₁
            exact (if_neg hsavedCursor).trans ((if_neg (Ne.symm hprevSaved)).trans (if_pos rfl))
          simp only [VmState.pop_push, VmState.push_locals, haddr, hvalue]
          cases computeMemoryOffset store cached.cursor with
          | error trap => rfl
          | ok start' =>
              dsimp only
              cases (s₁.setLocal (u32 cursor) next).memory.writeU32At start' cached.other with
              | error trap => rfl
              | ok memory =>
                  dsimp only
                  have hnext : (s₁.setLocal (u32 cursor) next).locals (u32 cursor) = next :=
                    if_pos rfl
                  by_cases hzero : next = 0
                  · rw [if_pos hzero, hnext, hzero]
                    exact ⟨rfl, rfl⟩
                  · rw [if_neg hzero, hnext]
                    refine ⟨⟨hnext.symm, haddr.symm, ?_⟩, next, hzero, rfl⟩
                    subst hs₁
                    exact hheight

end Reverse

section Relink

variable {cursor current prev load store : BitVec 64}

private theorem relink_step (pool pool' : ConstPool) (height : Nat)
    (hcursorCurrent : u32 cursor ≠ u32 current) (hcursorPrev : u32 cursor ≠ u32 prev)
    (cached : Cached) (s : VmState)
    (hrelated : cached.cursor = s.locals (u32 cursor) ∧ s.stack.length = height) :
    StepAlike (fun cached s => cached.cursor = s.locals (u32 cursor) ∧ s.stack.length = height)
      (relinkLoop.pass (words pool ⟨none, .opI32LoadStoreLocalBaseRelinkLoop,
        [.raw cursor, .raw current, .raw prev, .raw load, .raw store]⟩) cached s)
      (execAll pool' (relinkOps cursor current prev load store) s) := by
  obtain ⟨hcursor, hheight⟩ := hrelated
  simp only [relinkOps, execAll, exec, bind, Except.bind, pure, Except.pure,
    VmState.pop_push, ← hcursor, VmState.pop_setLocal_push, relinkLoop, words, operandWord,
    List.getElem?_cons_succ, List.getElem?_cons_zero, Option.map_some, Option.getD_some]
  generalize hs₁ : s.setLocal (u32 current) cached.cursor = s₁
  cases computeMemoryOffset load cached.cursor with
  | error trap => rfl
  | ok start =>
      dsimp only
      cases s₁.memory.readU32At start with
      | error trap => rfl
      | ok next =>
          have haddr : (s₁.setLocal (u32 cursor) next).locals (u32 current) = cached.cursor := by
            subst hs₁
            exact (if_neg (Ne.symm hcursorCurrent)).trans (if_pos rfl)
          simp only [VmState.pop_push, VmState.push_locals, haddr]
          generalize hs₂ : s₁.setLocal (u32 cursor) next = s₂
          cases computeMemoryOffset store cached.cursor with
          | error trap => rfl
          | ok start' =>
              dsimp only
              cases s₂.memory.writeU32At start' (s₂.locals (u32 prev)) with
              | error trap => rfl
              | ok memory =>
                  have hnext : (({ s₂ with memory := memory }).setLocal (u32 prev)
                      cached.cursor).locals (u32 cursor) = next := by
                    subst hs₂
                    exact (if_neg hcursorPrev).trans (if_pos rfl)
                  have haddr' : s₂.locals (u32 current) = cached.cursor := by
                    rw [← hs₂]
                    exact haddr
                  simp only [haddr', hnext]
                  by_cases hzero : next = 0
                  · rw [if_pos hzero, hzero]
                    exact ⟨rfl, rfl⟩
                  · rw [if_neg hzero]
                    refine ⟨⟨hnext.symm, ?_⟩, next, hzero, rfl⟩
                    subst hs₂ hs₁
                    exact hheight

end Relink

private theorem rawLocal_spec {handler : Op} {inst : CanonInst} {operand : LoweredOperand}
    (h : rawLocal handler inst = some operand) (hinst : inst.Decoded)
    (hhandler : straight handler) :
    ∃ encoded, operand = .raw encoded ∧ inst.generic = ⟨handler, [.raw encoded]⟩ := by
  unfold rawLocal at h
  split at h
  · next hop =>
      obtain ⟨encoded, hoperands⟩ := hinst.straight (by rw [hop]; exact hhandler)
      rw [hoperands] at h
      exact ⟨encoded, (Option.some.inj h).symm, by rw [CanonInst.generic, hop, hoperands]⟩
  · cases h

private theorem memory_spec {inst : CanonInst} {operand : LoweredOperand} {handler : Op}
    (hop : inst.op = handler) (hinst : inst.Decoded) (hhandler : straight handler)
    (h : inst.operands.head? = some operand) :
    ∃ encoded, operand = .raw encoded ∧ inst.generic = ⟨handler, [.raw encoded]⟩ :=
  rawLocal_spec (by rw [rawLocal, if_pos hop, h]) hinst hhandler

private theorem branch_spec {branch : CanonInst} {target : Nat} (hop : branch.op = .opBrIf)
    (hinst : branch.Decoded) (h : branchTarget branch = some target) :
    branch.generic = ⟨.opBrIf, [.jumpTarget target]⟩ := by
  unfold branchTarget at h
  split at h
  · next label hhead =>
      obtain ⟨operand, hoperands⟩ := List.length_eq_one_iff.mp (hinst.branch hop)
      rw [hoperands] at hhead
      rw [CanonInst.generic, hop, hoperands, ← Option.some.inj h, ← Option.some.inj hhead]
  · cases h

private theorem sameRawOperand_raw {first second : BitVec 64}
    (h : sameRawOperand (.raw first) (.raw second)) : first = second := by
  simpa [sameRawOperand] using h

section Emit

variable {block : CanonBlock} {cursor : Nat} {result : MatchResult}

private theorem emitReverse_spec (hdecoded : ∀ inst ∈ block.insts, inst.Decoded)
    (h : emitI32LoadStoreLocalBaseReverseLoop block cursor = some result) :
    ∃ prev saved cursorLocal load store,
      ((block.insts.drop cursor).take 11).map CanonInst.generic =
        reverseOps prev saved cursorLocal load store ++ [⟨.opBrIf, [.jumpTarget block.id]⟩] ∧
      result = ⟨11, [⟨.opI32LoadStoreLocalBaseReverseLoop,
        [.raw prev, .raw saved, .raw cursorLocal, .raw load, .raw store]⟩]⟩ := by
  unfold emitI32LoadStoreLocalBaseReverseLoop at h
  split at h
  · next prevGet savedSet cursorGet prevTee load cursorSet addrGet valueGet store condGet branch
        hinsts =>
      have hinst : ∀ inst ∈ [prevGet, savedSet, cursorGet, prevTee, load, cursorSet, addrGet,
          valueGet, store, condGet, branch], inst.Decoded := by
        rw [← hinsts]
        exact fun inst hmem => hdecoded inst (List.mem_of_mem_drop (List.mem_of_mem_take hmem))
      split at h
      · cases h
      · next hops =>
          push Not at hops
          obtain ⟨hload, hstore, hbranch, htarget⟩ := hops
          obtain ⟨_, hprev₀, h⟩ := Option.bind_eq_some_iff.mp h
          obtain ⟨_, hsaved₀, h⟩ := Option.bind_eq_some_iff.mp h
          obtain ⟨_, hcursor₀, h⟩ := Option.bind_eq_some_iff.mp h
          obtain ⟨_, htee₀, h⟩ := Option.bind_eq_some_iff.mp h
          obtain ⟨_, hset₀, h⟩ := Option.bind_eq_some_iff.mp h
          obtain ⟨_, haddr₀, h⟩ := Option.bind_eq_some_iff.mp h
          obtain ⟨_, hvalue₀, h⟩ := Option.bind_eq_some_iff.mp h
          obtain ⟨_, hcond₀, h⟩ := Option.bind_eq_some_iff.mp h
          obtain ⟨prev, rfl, hprev⟩ := rawLocal_spec hprev₀ (hinst prevGet (by simp)) rfl
          obtain ⟨saved, rfl, hsaved⟩ := rawLocal_spec hsaved₀ (hinst savedSet (by simp)) rfl
          obtain ⟨local_, rfl, hcursor⟩ := rawLocal_spec hcursor₀ (hinst cursorGet (by simp)) rfl
          obtain ⟨_, rfl, htee⟩ := rawLocal_spec htee₀ (hinst prevTee (by simp)) rfl
          obtain ⟨_, rfl, hset⟩ := rawLocal_spec hset₀ (hinst cursorSet (by simp)) rfl
          obtain ⟨_, rfl, haddr⟩ := rawLocal_spec haddr₀ (hinst addrGet (by simp)) rfl
          obtain ⟨_, rfl, hvalue⟩ := rawLocal_spec hvalue₀ (hinst valueGet (by simp)) rfl
          obtain ⟨_, rfl, hcond⟩ := rawLocal_spec hcond₀ (hinst condGet (by simp)) rfl
          split at h
          · cases h
          · next hsame =>
              simp only [Bool.or_eq_true, Bool.not_eq_true', not_or, Bool.not_eq_false] at hsame
              obtain ⟨⟨⟨⟨htee', haddr'⟩, hvalue'⟩, hset'⟩, hcond'⟩ := hsame
              obtain ⟨_, hloadArg, h⟩ := Option.bind_eq_some_iff.mp h
              obtain ⟨_, hstoreArg, h⟩ := Option.bind_eq_some_iff.mp h
              obtain ⟨loadArg, rfl, hload⟩ := memory_spec hload (hinst load (by simp)) rfl hloadArg
              obtain ⟨storeArg, rfl, hstore⟩ :=
                memory_spec hstore (hinst store (by simp)) rfl hstoreArg
              refine ⟨prev, saved, local_, loadArg, storeArg, ?_, (Option.some.inj h).symm⟩
              rw [hinsts]
              simp only [List.map_cons, List.map_nil, hprev, hsaved, hcursor, htee, hload, hset,
                haddr, hvalue, hstore, hcond, ← sameRawOperand_raw htee', ← sameRawOperand_raw haddr',
                ← sameRawOperand_raw hvalue', ← sameRawOperand_raw hset', ← sameRawOperand_raw hcond',
                branch_spec hbranch (hinst branch (by simp)) htarget]
              rfl
  · cases h

private theorem emitRelink_spec (hdecoded : ∀ inst ∈ block.insts, inst.Decoded)
    (h : emitI32LoadStoreLocalBaseRelinkLoop block cursor = some result) :
    ∃ cursorLocal current prev load store,
      ((block.insts.drop cursor).take 11).map CanonInst.generic =
        relinkOps cursorLocal current prev load store ++ [⟨.opBrIf, [.jumpTarget block.id]⟩] ∧
      result = ⟨11, [⟨.opI32LoadStoreLocalBaseRelinkLoop,
        [.raw cursorLocal, .raw current, .raw prev, .raw load, .raw store]⟩]⟩ := by
  unfold emitI32LoadStoreLocalBaseRelinkLoop at h
  split at h
  · next cursorGet currentTee load cursorSet addrGet prevGet store currentGet prevSet condGet branch
        hinsts =>
      have hinst : ∀ inst ∈ [cursorGet, currentTee, load, cursorSet, addrGet, prevGet, store,
          currentGet, prevSet, condGet, branch], inst.Decoded := by
        rw [← hinsts]
        exact fun inst hmem => hdecoded inst (List.mem_of_mem_drop (List.mem_of_mem_take hmem))
      split at h
      · cases h
      · next hops =>
          push Not at hops
          obtain ⟨hload, hstore, hbranch, htarget⟩ := hops
          obtain ⟨_, hcursor₀, h⟩ := Option.bind_eq_some_iff.mp h
          obtain ⟨_, htee₀, h⟩ := Option.bind_eq_some_iff.mp h
          obtain ⟨_, hset₀, h⟩ := Option.bind_eq_some_iff.mp h
          obtain ⟨_, haddr₀, h⟩ := Option.bind_eq_some_iff.mp h
          obtain ⟨_, hprev₀, h⟩ := Option.bind_eq_some_iff.mp h
          obtain ⟨_, hcurrent₀, h⟩ := Option.bind_eq_some_iff.mp h
          obtain ⟨_, hsetPrev₀, h⟩ := Option.bind_eq_some_iff.mp h
          obtain ⟨_, hcond₀, h⟩ := Option.bind_eq_some_iff.mp h
          obtain ⟨local_, rfl, hcursor⟩ := rawLocal_spec hcursor₀ (hinst cursorGet (by simp)) rfl
          obtain ⟨current, rfl, htee⟩ := rawLocal_spec htee₀ (hinst currentTee (by simp)) rfl
          obtain ⟨_, rfl, hset⟩ := rawLocal_spec hset₀ (hinst cursorSet (by simp)) rfl
          obtain ⟨_, rfl, haddr⟩ := rawLocal_spec haddr₀ (hinst addrGet (by simp)) rfl
          obtain ⟨prev, rfl, hprev⟩ := rawLocal_spec hprev₀ (hinst prevGet (by simp)) rfl
          obtain ⟨_, rfl, hcurrent⟩ := rawLocal_spec hcurrent₀ (hinst currentGet (by simp)) rfl
          obtain ⟨_, rfl, hsetPrev⟩ := rawLocal_spec hsetPrev₀ (hinst prevSet (by simp)) rfl
          obtain ⟨_, rfl, hcond⟩ := rawLocal_spec hcond₀ (hinst condGet (by simp)) rfl
          split at h
          · cases h
          · next hsame =>
              simp only [Bool.or_eq_true, Bool.not_eq_true', not_or, Bool.not_eq_false] at hsame
              obtain ⟨⟨⟨⟨hset', hcond'⟩, haddr'⟩, hcurrent'⟩, hprev'⟩ := hsame
              obtain ⟨_, hloadArg, h⟩ := Option.bind_eq_some_iff.mp h
              obtain ⟨_, hstoreArg, h⟩ := Option.bind_eq_some_iff.mp h
              obtain ⟨loadArg, rfl, hload⟩ := memory_spec hload (hinst load (by simp)) rfl hloadArg
              obtain ⟨storeArg, rfl, hstore⟩ :=
                memory_spec hstore (hinst store (by simp)) rfl hstoreArg
              refine ⟨local_, current, prev, loadArg, storeArg, ?_, (Option.some.inj h).symm⟩
              rw [hinsts]
              simp only [List.map_cons, List.map_nil, hcursor, htee, hload, hset, haddr, hprev,
                hstore, hcurrent, hsetPrev, hcond, ← sameRawOperand_raw hset',
                ← sameRawOperand_raw hcond', ← sameRawOperand_raw haddr',
                ← sameRawOperand_raw hcurrent', ← sameRawOperand_raw hprev',
                branch_spec hbranch (hinst branch (by simp)) htarget]
              rfl
  · cases h

end Emit

def MatchResult.localAddr (result : MatchResult) (operand : Nat) : Option (BitVec 32) := do
  rawLocalAddr (← result.ops.head?).operands[operand]?

/-- Only idle ops stand between the target of the closing branch, which is the first op of the
block, and the window. -/
def LeadsToWindow (around : Surroundings) (s : VmState) : Prop :=
  ∀ op ∈ around.front, Idle s.stack.length ⟨none, op.op, op.operands⟩

/-- The locals `prev`, `saved` and `cursor` differ. -/
structure ReverseLoopSafe (around : Surroundings) (result : MatchResult) (s : VmState) : Prop where
  front : LeadsToWindow around s
  prev_saved : result.localAddr 0 ≠ result.localAddr 1
  prev_cursor : result.localAddr 0 ≠ result.localAddr 2
  saved_cursor : result.localAddr 1 ≠ result.localAddr 2

/-- The local `cursor` is neither `current` nor `prev`; those may be one. -/
structure RelinkLoopSafe (around : Surroundings) (result : MatchResult) (s : VmState) : Prop where
  front : LeadsToWindow around s
  cursor_current : result.localAddr 0 ≠ result.localAddr 1
  cursor_prev : result.localAddr 0 ≠ result.localAddr 2

section Result

variable {around : Surroundings} {block : CanonBlock} {cursor : Nat} {result : MatchResult}
  {s : VmState}

theorem reverseLoop_equals (hdecoded : ∀ inst ∈ block.insts, inst.Decoded)
    (hlabels : ∀ other ∈ around.before ++ around.after, other.blockId ≠ block.id)
    (hemit : emitI32LoadStoreLocalBaseReverseLoop block cursor = some result)
    (hsafe : ReverseLoopSafe around result s) :
    EqualsPointerLoop around block cursor result s := by
  obtain ⟨prev, saved, cursorLocal, load, store, hinsts, rfl⟩ := emitReverse_spec hdecoded hemit
  have hprevSaved : u32 prev ≠ u32 saved := fun h => hsafe.prev_saved (congrArg some h)
  have hprevCursor : u32 prev ≠ u32 cursorLocal := fun h => hsafe.prev_cursor (congrArg some h)
  have hsavedCursor : u32 saved ≠ u32 cursorLocal := fun h => hsafe.saved_cursor (congrArg some h)
  unfold EqualsPointerLoop
  dsimp only
  rw [hinsts]
  exact endAlike_of_stepAlike rfl hlabels (by simp [reverseOps, straight]) hsafe.front rfl rfl
    (fun _ _ h => h.2.2)
    (fun cached t => reverse_step _ _ s.stack.length hprevSaved hprevCursor hsavedCursor cached t)
    ⟨rfl, rfl, rfl⟩

theorem relinkLoop_equals (hdecoded : ∀ inst ∈ block.insts, inst.Decoded)
    (hlabels : ∀ other ∈ around.before ++ around.after, other.blockId ≠ block.id)
    (hemit : emitI32LoadStoreLocalBaseRelinkLoop block cursor = some result)
    (hsafe : RelinkLoopSafe around result s) :
    EqualsPointerLoop around block cursor result s := by
  obtain ⟨cursorLocal, current, prev, load, store, hinsts, rfl⟩ := emitRelink_spec hdecoded hemit
  have hcursorCurrent : u32 cursorLocal ≠ u32 current :=
    fun h => hsafe.cursor_current (congrArg some h)
  have hcursorPrev : u32 cursorLocal ≠ u32 prev := fun h => hsafe.cursor_prev (congrArg some h)
  unfold EqualsPointerLoop
  dsimp only
  rw [hinsts]
  exact endAlike_of_stepAlike rfl hlabels (by simp [relinkOps, straight]) hsafe.front rfl rfl
    (fun _ _ h => h.2)
    (fun cached t => relink_step _ _ s.stack.length hcursorCurrent hcursorPrev cached t)
    ⟨rfl, rfl⟩

end Result

end Telomere.Optimizer
