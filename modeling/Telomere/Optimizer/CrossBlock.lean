import Telomere.Optimizer.UnfusedRun

/-!
# Fused ops across blocks

A fused op that takes in ops behind a branch decides by itself where the sequence it replaces
would go. It goes there, with the same state and trap, except in three cases that depend on
code the matcher does not look at:

* the guard of a guarded load8 holds and the branch under it is not taken, but the op behind
  that branch is not the one the guard's `if` goes to when it fails;
* a branch has taken in a `local.get` at its target or behind it, and the pass has put a longer
  op over that `local.get`.
-/

namespace Telomere.Optimizer

open Vm

def Fusion.crossesBlocks : Fusion → Bool
  | .localGet4BrTable | .localGet4I32ConstAddBrTable | .guarded
  | .localBaseLoadTeeLoad8BranchTail | .localAddSetLoad8EqzBranchTail
  | .load8UpdateBranchTakenLocalGet4 | .load8UpdateBranchFallthroughLocalGet4 => true
  | _ => false

/-- The set, the compare, the `if` and the branch under it. -/
def guardedPath (ifFalse brFalls brTaken : Path) : Path :=
  .step (.step (.step (.step brFalls brTaken) ifFalse) .stop) .stop

/-- The ops behind the branch under the guard lead to the table of the guard's `if`. -/
def fallsToTable (kernel : LoweredKernelFunction) (cursor : Nat) : Prop :=
  (branchIndex kernel (cursor + 2)).map (skipNoopOpsAt kernel.code) =
    some (skipNoopOpsAt kernel.code (cursor + 4))

instance (kernel : LoweredKernelFunction) (cursor : Nat) : Decidable (fallsToTable kernel cursor) :=
  inferInstanceAs (Decidable (_ = _))

/-- The input ops that a fused op at the cursor stands for. -/
def unfusedPath (kernel : LoweredKernelFunction) (cursor : Nat) : Op → Path
  | .opI32Load8ULocalBaseSet4LocalGet4Set4LocalGet4BrIfTakenLocalGet4 =>
      .step .stop (.step .stop .stop)
  | .opI32GuardedLoad8ULocalBaseSet4LocalGet4Set4LocalGet4BrIf => guardedPath .stop .stop .stop
  | .opI32GuardedLoad8ULocalBaseSet4LocalGet4Set4LocalGet4BrIfTakenLocalGet4BrTable =>
      guardedPath .stop .stop tablePath
  | .opI32GuardedLoad8ULocalBaseSet4LocalGet4Set4LocalGet4BrIfFalseLocalGet4BrTable =>
      guardedPath tablePath (if fallsToTable kernel cursor then tablePath else .stop) .stop
  | .opI32GuardedLoad8ULocalBaseSet4LocalGet4Set4LocalGet4BrIfTakenConstCompareBrTable =>
      guardedPath .stop .stop (.noops (.step (.step .stop tablePath) .stop))
  | _ => .step (.step .stop .stop) .stop

/-- The fused op at the cursor ends as the ops it stands for do. -/
def KeepsControlFlow (kernel : LoweredKernelFunction) (cursor : Nat) (s : VmState) : Prop :=
  Agrees kernel.code ((Path.step .stop .stop).run (encode kernel) (some cursor) s)
    ((unfusedPath kernel cursor (handlerAt (encode kernel) cursor)).run kernel.unfused
      (some cursor) s)

/-- The guard holds and the branch under it is not taken: the state behind the branch. -/
def guardedFall (kernel : LoweredKernelFunction) (cursor : Nat) (s : VmState) : Option VmState :=
  let word := opWords kernel cursor
  let s := s.setLocal (u32 (word 2)) (s.locals (u32 (word 0)) + u32 (word 1))
  match evalLocalCmp32 (opWords kernel (cursor + 1)) 0 s,
      load8Update (opWords kernel (cursor + 3)) 0 s with
  | .ok guard, .ok (cond, s') => if guard ≠ 0 ∧ cond = 0 then some s' else none
  | _, _ => none

/-- Nothing that the matcher did not see stands in the way. -/
def Undisturbed (kernel : LoweredKernelFunction) (cursor : Nat) (s : VmState) : Op → Prop
  | .opI32GuardedLoad8ULocalBaseSet4LocalGet4Set4LocalGet4BrIf
  | .opI32GuardedLoad8ULocalBaseSet4LocalGet4Set4LocalGet4BrIfTakenLocalGet4BrTable
  | .opI32GuardedLoad8ULocalBaseSet4LocalGet4Set4LocalGet4BrIfTakenConstCompareBrTable =>
      (guardedFall kernel cursor s).isSome →
        (branchIndex kernel (cursor + 2)).map (skipEndOps kernel.code) =
          some (skipEndOps kernel.code (cursor + 4))
  | .opI32GuardedLoad8ULocalBaseSet4LocalGet4Set4LocalGet4BrIfFalseLocalGet4BrTable =>
      ∀ s', guardedFall kernel cursor s = some s' → fallsToTable kernel cursor ∨
        ((branchIndex kernel (cursor + 2)).bind (tableAt kernel · s')).map
          (skipEndOps kernel.code) = some (skipEndOps kernel.code (cursor + 4))
  | .opI32Load8ULocalBaseSet4LocalGet4Set4LocalGet4BrIfTakenLocalGet4 =>
      ∀ cond s' target, load8Update (opWords kernel cursor) 0 s = .ok (cond, s') → cond ≠ 0 →
        branchIndex kernel cursor = some target →
        inputFusion kernel.code target kernel.labels = none
  | .opI32Load8ULocalBaseSet4LocalGet4Set4LocalGet4BrIfFallthroughLocalGet4 =>
      ∀ s', load8Update (opWords kernel cursor) 0 s = .ok (0, s') →
        inputFusion kernel.code (cursor + 1) kernel.labels = none
  | _ => True

/-! ## Comparing one fused op with its path -/

section Compare

variable {kernel : LoweredKernelFunction} {cursor : Nat} {fusion : Fusion} {r : LoweredOp}

private theorem keeps_iff_of_ok (hwf : WellFormed kernel)
    (hfuse : fuseAt (fusePrefix kernel.labels kernel.code cursor) cursor kernel.labels =
      some (fusion, r)) {s s' : VmState} {control : Control} {target reached : Nat}
    (hexec : exec r.op (words (encode kernel).constPool r) s = .ok (control, s'))
    (hlands : landing (encode kernel).code cursor r control.next = some target)
    (hrun : (unfusedPath kernel cursor r.op).run kernel.unfused (some cursor) s =
      .ok (some reached, s')) :
    KeepsControlFlow kernel cursor s ↔
      skipEndOps kernel.code target = skipEndOps kernel.code reached := by
  unfold KeepsControlFlow
  rw [(step_fused hwf hfuse s).1, hrun, run_fused_ok hwf hfuse hexec]
  by_cases hends : control.skipEnds
  · simp [continuation, hlands, hends, encode_skipEndOps hwf, Agrees, skipEndOps_idem]
  · simp [continuation, hlands, hends, Agrees]

private theorem keeps_of_trap (hwf : WellFormed kernel)
    (hfuse : fuseAt (fusePrefix kernel.labels kernel.code cursor) cursor kernel.labels =
      some (fusion, r)) {s : VmState} {trap : Trap}
    (hexec : exec r.op (words (encode kernel).constPool r) s = .error trap)
    (hrun : (unfusedPath kernel cursor r.op).run kernel.unfused (some cursor) s = .error trap) :
    KeepsControlFlow kernel cursor s := by
  unfold KeepsControlFlow
  rw [(step_fused hwf hfuse s).1, hrun, run_fused_trap hwf hfuse hexec]
  rfl

private theorem not_keeps_of_inside (hwf : WellFormed kernel)
    (hfuse : fuseAt (fusePrefix kernel.labels kernel.code cursor) cursor kernel.labels =
      some (fusion, r)) {s s' : VmState} {control : Control}
    (hexec : exec r.op (words (encode kernel).constPool r) s = .ok (control, s'))
    (hlands : landing (encode kernel).code cursor r control.next = none) :
    ¬KeepsControlFlow kernel cursor s := by
  unfold KeepsControlFlow
  rw [run_fused_ok hwf hfuse hexec]
  simp [continuation, hlands, Agrees]

private theorem branch_lands (cursor : Nat) (hex : Executable kernel) {index last offset : Nat} {op : LoweredOp}
    (hget : kernel.code[index]? = some op) (hbranch : branches op.op)
    (hlast : op.operands.length = last + 1) (hholds : Holds r offset op) :
    ∃ target, branchIndex kernel index = some target ∧ target < kernel.code.length ∧
      landing kernel.code index op (.jump last 0) = some target ∧
      landing (encode kernel).code cursor r (.jump (offset + last) 0) = some target := by
  have hmem := List.mem_of_getElem? hget
  obtain ⟨label, hlabel⟩ := Option.isSome_iff_exists.mp (hex.branch op hmem hbranch)
  have hoperand := jump_operand hlast hlabel
  obtain ⟨target, htarget, hlt⟩ := hex.target op hmem label (List.mem_of_getElem? hoperand)
  have hoperand' : r.operands[offset + last]? = some (.jumpTarget label) := by
    rw [hholds last (by omega), hoperand]
  refine ⟨target, by simp [branchIndex, hget, hlabel, htarget], hlt, ?_, ?_⟩
  · exact (jump_lands hex.toWellFormed htarget hlt hoperand index).1
  · exact (jump_lands hex.toWellFormed htarget hlt hoperand' cursor).2

private theorem eq_singleton {op : LoweredOp} {operand : LoweredOperand}
    (hone : op.operands.length = 1) (hhead : op.operands.head? = some operand) :
    op.operands = [operand] := by
  obtain ⟨a, ha⟩ := List.length_eq_one_iff.mp hone
  rw [ha] at hhead ⊢
  rw [Option.some.inj hhead]

private theorem localGet4BrTable_keeps (hex : Executable kernel)
    (hfuse : fuseAt (fusePrefix kernel.labels kernel.code cursor) cursor kernel.labels =
      some (.localGet4BrTable, r)) (s : VmState) : KeepsControlFlow kernel cursor s := by
  obtain ⟨get, table, rest, addr, hwindow, hgetOp, htableOp, haddr, hr⟩ :=
    fuseLocalGet4BrTable_spec (fuseAt_apply hfuse)
  rw [fusePrefix_drop] at hwindow
  have hget : kernel.code[cursor]? = some get := get_of_drop hwindow 0
  have htable : kernel.code[cursor + 1]? = some table := get_of_drop hwindow 1
  have hone := (hex.operands get (List.mem_of_getElem? hget)).count hgetOp rfl
  have hoperands : r.operands = get.operands ++ table.operands := by
    rw [hr, eq_singleton hone haddr]
    rfl
  have hop : r.op = .opLocalGet4BrTable := by rw [hr]
  have hfirst : Holds r 0 get := holds_of_append [] table.operands hoperands rfl
  have hsecond : Holds r 1 table := holds_of_append get.operands [] (by simp [hoperands]) hone.symm
  obtain ⟨target, htarget, _, hlands⟩ := table_lands hex (List.mem_of_getElem? htable) htableOp
    (s.locals (u32 (words (encode kernel).constPool get 0)))
  have hexec : exec r.op (words (encode kernel).constPool r) s = .ok (⟨brTableTarget
      (words (encode kernel).constPool r) 1 (s.locals (u32 (words (encode kernel).constPool get
        0))), true⟩, s) := by
    rw [hop, ← hfirst.words_eq (i := 0) (by omega)]
    rfl
  have hrun := run_getTable hex hget hgetOp htable htableOp s
  rw [htarget] at hrun
  refine (keeps_iff_of_ok hex.toWellFormed hfuse hexec (hlands _ 1 cursor hsecond) ?_).mpr rfl
  rw [hop]
  exact hrun

private theorem fuseLocalGet4I32ConstAddBrTable_spec {window : List LoweredOp}
    (h : fuseLocalGet4I32ConstAddBrTable window = some r) (hok : ∀ o ∈ window, OperandsOk o) :
    ∃ add table rest, window = add :: table :: rest ∧ add.op = .opLocalGet4I32ConstAdd ∧
      table.op = .opBrTable ∧ r.op = .opLocalGet4I32ConstAddBrTable ∧
      r.operands = add.operands ++ table.operands := by
  unfold fuseLocalGet4I32ConstAddBrTable at h
  split at h
  · next add table rest =>
      split at h
      · cases h
      · next hops =>
          push Not at hops
          have htwo := (hok add (by simp)).count hops.1 rfl
          split at h
          · next addr imm tail hoperands =>
              obtain rfl := Option.some.inj h
              have htail : tail = [] := by
                rw [hoperands] at htwo
                exact List.eq_nil_of_length_eq_zero (by simpa using htwo)
              exact ⟨add, table, rest, rfl, hops.1, hops.2, rfl, by simp [hoperands, htail]⟩
          · cases h
  · cases h

private theorem localGet4I32ConstAddBrTable_keeps (hex : Executable kernel)
    (hfuse : fuseAt (fusePrefix kernel.labels kernel.code cursor) cursor kernel.labels =
      some (.localGet4I32ConstAddBrTable, r)) (s : VmState) :
    KeepsControlFlow kernel cursor s := by
  have happly := fuseAt_apply hfuse
  simp only [Fusion.apply, fusePrefix_drop] at happly
  obtain ⟨add, table, rest, hwindow, haddOp, htableOp, hop, hoperands⟩ :=
    fuseLocalGet4I32ConstAddBrTable_spec happly fun o ho => hex.operands o (List.mem_of_mem_drop ho)
  have hget : kernel.code[cursor]? = some add := get_of_drop hwindow 0
  have htable : kernel.code[cursor + 1]? = some table := get_of_drop hwindow 1
  have htwo := (hex.operands add (List.mem_of_getElem? hget)).count haddOp rfl
  have hfirst : Holds r 0 add := holds_of_append [] table.operands hoperands rfl
  have hsecond : Holds r 2 table := holds_of_append add.operands [] (by simp [hoperands]) htwo.symm
  have hadd : exec add.op (words (encode kernel).constPool add) s = .ok (⟨.fall 2, false⟩,
      s.push (s.locals (u32 (words (encode kernel).constPool add 0)) +
        u32 (words (encode kernel).constPool add 1))) := by
    rw [haddOp]
    rfl
  obtain ⟨target, htarget, _, hlands⟩ := table_lands hex (List.mem_of_getElem? htable) htableOp
    (s.locals (u32 (words (encode kernel).constPool add 0)) +
      u32 (words (encode kernel).constPool add 1))
  have hexec : exec r.op (words (encode kernel).constPool r) s = .ok (⟨brTableTarget
      (words (encode kernel).constPool r) 2
      (s.locals (u32 (words (encode kernel).constPool add 0)) +
        u32 (words (encode kernel).constPool add 1)), true⟩, s) := by
    rw [hop, ← hfirst.words_eq (i := 0) (by omega), ← hfirst.words_eq (i := 1) (by omega)]
    rfl
  refine (keeps_iff_of_ok hex.toWellFormed hfuse hexec (hlands _ 2 cursor hsecond) ?_).mpr rfl
  have hpath : unfusedPath kernel cursor r.op = .step (.step .stop .stop) .stop := by
    rw [hop]
    rfl
  rw [hpath, run_ok hget hadd]
  simp only [continuation, landing_fall hget htwo.symm]
  rw [← htarget]
  exact run_table hex htable htableOp s _

private theorem eq_append_jump (front : List LoweredOperand) {op : LoweredOp}
    {tail : List LoweredOperand} {label : Nat} (hoperands : op.operands = front ++ tail)
    (hlen : op.operands.length = front.length + 1) (htarget : opJumpTarget op = some label) :
    tail = [.jumpTarget label] := by
  rw [hoperands, List.length_append] at hlen
  obtain ⟨last, rfl⟩ := List.length_eq_one_iff.mp (show tail.length = 1 by omega)
  unfold opJumpTarget at htarget
  rw [hoperands, List.getLast?_concat] at htarget
  split at htarget
  · next target hlast =>
      rw [← Option.some.inj htarget, Option.some.inj hlast]
  · cases htarget

/-- An op and a branch behind it that no fusion starts with: the fused op does what the two do
and steps over the branch. -/
private theorem tail_keeps (slots : Nat) (hex : Executable kernel)
    (hfuse : fuseAt (fusePrefix kernel.labels kernel.code cursor) cursor kernel.labels =
      some (fusion, r)) {first branch : LoweredOp} {last : Nat} {s : VmState}
    (hpath : unfusedPath kernel cursor r.op = .step (.step .stop .stop) .stop)
    (hfirst : kernel.code[cursor]? = some first)
    (hbranch : kernel.code[cursor + 1]? = some branch) (hbranches : branches branch.op)
    (hhead : startsFusion branch.op = false) (hlast : branch.operands.length = last + 1)
    (hoperands : r.operands = first.operands ++ branch.operands)
    (hslots : slots = r.operands.length + slotLen branch)
    (h : match exec first.op (words (encode kernel).constPool first) s with
      | .error trap => exec r.op (words (encode kernel).constPool r) s = .error trap
      | .ok (control, s') => control = ⟨.fall first.operands.length, false⟩ ∧
          match exec branch.op (words (encode kernel).constPool branch) s' with
          | .error trap => exec r.op (words (encode kernel).constPool r) s = .error trap
          | .ok (control, s'') => ∃ taken, control = memoryBrIf last (last + 1) taken ∧
              exec r.op (words (encode kernel).constPool r) s =
                .ok (⟨if taken then .jump (first.operands.length + last) 0 else .fall slots,
                  false⟩, s'')) :
    KeepsControlFlow kernel cursor s := by
  have hwf := hex.toWellFormed
  have hholds : Holds r first.operands.length branch :=
    holds_of_append first.operands [] (by simp [hoperands]) rfl
  obtain ⟨target, _, _, htaken, htaken'⟩ :=
    branch_lands cursor hex hbranch hbranches hlast hholds
  have hfalls := fall_over hwf hfuse hbranch hslots
  rw [if_pos (inputFusion_none_of_head hwf hbranch hhead)] at hfalls
  split at h
  · next trap hexec =>
      refine keeps_of_trap hwf hfuse h ?_
      rw [hpath, run_trap hfirst hexec]
  · next control s' hexec =>
      obtain ⟨rfl, h⟩ := h
      have hnext : (Path.step (.step .stop .stop) .stop).run kernel.unfused (some cursor) s =
          (Path.step .stop .stop).run kernel.unfused (some (cursor + 1)) s' := by
        rw [run_ok hfirst hexec]
        simp only [continuation, landing_fall hfirst rfl]
        rfl
      split at h
      · next trap hexec' =>
          refine keeps_of_trap hwf hfuse h ?_
          rw [hpath, hnext, run_trap hbranch hexec']
      · next control s'' hexec' =>
          obtain ⟨taken, rfl, hfused⟩ := h
          cases taken with
          | true =>
              have hrun : (unfusedPath kernel cursor r.op).run kernel.unfused (some cursor) s =
                  .ok (some (skipEndOps kernel.code target), s'') := by
                rw [hpath, hnext, run_ok hbranch hexec', continuation_landed htaken]
                rfl
              exact (keeps_iff_of_ok hwf hfuse hfused htaken' hrun).mpr (skipEndOps_idem _ _).symm
          | false =>
              have hrun : (unfusedPath kernel cursor r.op).run kernel.unfused (some cursor) s =
                  .ok (some (skipEndOps kernel.code (cursor + 2)), s'') := by
                rw [hpath, hnext, run_ok hbranch hexec',
                  continuation_landed (landing_fall hbranch hlast.symm)]
                rfl
              exact (keeps_iff_of_ok hwf hfuse hfused hfalls hrun).mpr (skipEndOps_idem _ _).symm

private theorem fuseLocalBaseLoadTeeLoad8BranchTail_spec {window : List LoweredOp}
    (h : fuseLocalBaseLoadTeeLoad8BranchTail window = some r) (hok : ∀ o ∈ window, OperandsOk o) :
    ∃ loadPtr loadBranch rest, window = loadPtr :: loadBranch :: rest ∧
      loadPtr.op = .opI32LoadLocalBaseTee4 ∧ loadBranch.op = .opI32Load8UTee4BrIf ∧
      r.op = .opI32LoadLocalBaseTee4I32Load8UTee4BrIf ∧
      r.operands = loadPtr.operands ++ loadBranch.operands := by
  unfold fuseLocalBaseLoadTeeLoad8BranchTail at h
  split at h
  · next loadPtr loadBranch rest =>
      split at h
      · cases h
      · next hops =>
          push Not at hops
          have hfour := (hok loadPtr (by simp)).count hops.1 rfl
          have hthree := (hok loadBranch (by simp)).count hops.2 rfl
          split at h
          · next a b c d tail memarg dst tail' hptr hbranch =>
              obtain ⟨target, htarget, h⟩ := Option.bind_eq_some_iff.mp h
              obtain rfl := Option.some.inj h
              have htail : tail = [] := by
                rw [hptr] at hfour
                exact List.eq_nil_of_length_eq_zero (by simpa using hfour)
              have htail' := eq_append_jump [memarg, dst] hbranch hthree htarget
              exact ⟨loadPtr, loadBranch, rest, rfl, hops.1, hops.2, rfl, by
                simp [hptr, hbranch, htail, htail']⟩
          · cases h
  · cases h

/-- The load of the pointer, the load of the byte and the branch on it. -/
private theorem localBaseLoadTeeLoad8BranchTail_keeps (hex : Executable kernel)
    (hfuse : fuseAt (fusePrefix kernel.labels kernel.code cursor) cursor kernel.labels =
      some (.localBaseLoadTeeLoad8BranchTail, r)) (s : VmState) :
    KeepsControlFlow kernel cursor s := by
  have happly := fuseAt_apply hfuse
  simp only [Fusion.apply, fusePrefix_drop] at happly
  obtain ⟨loadPtr, loadBranch, rest, hwindow, hptrOp, hbranchOp, hop, hoperands⟩ :=
    fuseLocalBaseLoadTeeLoad8BranchTail_spec happly
      fun o ho => hex.operands o (List.mem_of_mem_drop ho)
  have hptr : kernel.code[cursor]? = some loadPtr := get_of_drop hwindow 0
  have hbranch : kernel.code[cursor + 1]? = some loadBranch := get_of_drop hwindow 1
  have hfour := (hex.operands loadPtr (List.mem_of_getElem? hptr)).count hptrOp rfl
  have hthree := (hex.operands loadBranch (List.mem_of_getElem? hbranch)).count hbranchOp rfl
  have hfirst : Holds r 0 loadPtr := holds_of_append [] loadBranch.operands hoperands rfl
  have hsecond : Holds r 4 loadBranch :=
    holds_of_append loadPtr.operands [] (by simp [hoperands]) hfour.symm
  have hpath : unfusedPath kernel cursor r.op = .step (.step .stop .stop) .stop := by
    rw [hop]
    rfl
  refine tail_keeps 11 hex hfuse hpath hptr hbranch (by rw [hbranchOp]; rfl)
    (by rw [hbranchOp]; rfl) hthree hoperands (by simp [hoperands, hfour, hthree, slotLen]) ?_
  rw [hptrOp, hbranchOp, hop]
  simp only [exec, loadStartLocalBase, ← hfirst.words_eq (show 0 < _ by omega),
    ← hfirst.words_eq (show 1 < _ by omega), ← hfirst.words_eq (show 2 < _ by omega),
    ← hfirst.words_eq (show 3 < _ by omega), ← hsecond.words_eq (show 0 < _ by omega),
    ← hsecond.words_eq (show 1 < _ by omega), Nat.zero_add, Nat.reduceAdd]
  cases computeMemoryOffset (words (encode kernel).constPool r 2)
      (s.locals (u32 (words (encode kernel).constPool r 0)) +
        u32 (words (encode kernel).constPool r 1)) with
  | error trap => rfl
  | ok start =>
      cases hread : s.memory.readU32At start with
      | error trap => simp only [bind, Except.bind, hread]
      | ok ptr =>
          simp only [bind, Except.bind, hread, pure, Except.pure, VmState.pop_setLocal_push,
            VmState.setLocal_memory]
          refine ⟨by rw [hfour], ?_⟩
          cases computeMemoryOffset (words (encode kernel).constPool r 4) ptr with
          | error trap => rfl
          | ok offset =>
              cases hbyte : s.memory.readU8At offset with
              | error trap => simp only [hbyte]
              | ok byte =>
                  simp only [hbyte]
                  exact ⟨_, rfl, by simp [hfour]⟩

private theorem fuseLocalAddSetLoad8EqzBranchTail_spec {window : List LoweredOp}
    (h : fuseLocalAddSetLoad8EqzBranchTail window = some r) (hok : ∀ o ∈ window, OperandsOk o) :
    ∃ addSet loadBranch rest, window = addSet :: loadBranch :: rest ∧
      addSet.op = .opLocalGet4I32ConstAddSet4 ∧
      loadBranch.op = .opI32Load8ULocalBaseTee4I32EqzBrIf ∧
      r.op = .opLocalGet4I32ConstAddSet4I32Load8ULocalBaseTee4I32EqzBrIf ∧
      r.operands = addSet.operands ++ loadBranch.operands := by
  unfold fuseLocalAddSetLoad8EqzBranchTail at h
  split at h
  · next addSet loadBranch rest =>
      split at h
      · cases h
      · next hops =>
          push Not at hops
          have hthree := (hok addSet (by simp)).count hops.1 rfl
          have hfive := (hok loadBranch (by simp)).count hops.2 rfl
          split at h
          · next src imm dst tail base delta memarg tee tail' hset hbranch =>
              obtain ⟨target, htarget, h⟩ := Option.bind_eq_some_iff.mp h
              obtain rfl := Option.some.inj h
              have htail : tail = [] := by
                rw [hset] at hthree
                exact List.eq_nil_of_length_eq_zero (by simpa using hthree)
              have htail' := eq_append_jump [base, delta, memarg, tee] hbranch hfive htarget
              exact ⟨addSet, loadBranch, rest, rfl, hops.1, hops.2, rfl, by
                simp [hset, hbranch, htail, htail']⟩
          · cases h
  · cases h

/-- The update of the pointer, the load of the byte and the branch when it is zero. -/
private theorem localAddSetLoad8EqzBranchTail_keeps (hex : Executable kernel)
    (hfuse : fuseAt (fusePrefix kernel.labels kernel.code cursor) cursor kernel.labels =
      some (.localAddSetLoad8EqzBranchTail, r)) (s : VmState) :
    KeepsControlFlow kernel cursor s := by
  have happly := fuseAt_apply hfuse
  simp only [Fusion.apply, fusePrefix_drop] at happly
  obtain ⟨addSet, loadBranch, rest, hwindow, hsetOp, hbranchOp, hop, hoperands⟩ :=
    fuseLocalAddSetLoad8EqzBranchTail_spec happly
      fun o ho => hex.operands o (List.mem_of_mem_drop ho)
  have hset : kernel.code[cursor]? = some addSet := get_of_drop hwindow 0
  have hbranch : kernel.code[cursor + 1]? = some loadBranch := get_of_drop hwindow 1
  have hthree := (hex.operands addSet (List.mem_of_getElem? hset)).count hsetOp rfl
  have hfive := (hex.operands loadBranch (List.mem_of_getElem? hbranch)).count hbranchOp rfl
  have hfirst : Holds r 0 addSet := holds_of_append [] loadBranch.operands hoperands rfl
  have hsecond : Holds r 3 loadBranch :=
    holds_of_append addSet.operands [] (by simp [hoperands]) hthree.symm
  have hpath : unfusedPath kernel cursor r.op = .step (.step .stop .stop) .stop := by
    rw [hop]
    rfl
  refine tail_keeps 14 hex hfuse hpath hset hbranch (by rw [hbranchOp]; rfl)
    (by rw [hbranchOp]; rfl) hfive hoperands (by simp [hoperands, hthree, hfive, slotLen]) ?_
  rw [hsetOp, hbranchOp, hop]
  simp only [exec, loadStartLocalBase, ← hfirst.words_eq (show 0 < _ by omega),
    ← hfirst.words_eq (show 1 < _ by omega), ← hfirst.words_eq (show 2 < _ by omega),
    ← hsecond.words_eq (show 0 < _ by omega), ← hsecond.words_eq (show 1 < _ by omega),
    ← hsecond.words_eq (show 2 < _ by omega), ← hsecond.words_eq (show 3 < _ by omega),
    Nat.zero_add, Nat.reduceAdd]
  refine ⟨by rw [hthree], ?_⟩
  cases computeMemoryOffset (words (encode kernel).constPool r 5)
      ((s.setLocal (u32 (words (encode kernel).constPool r 2))
        (s.locals (u32 (words (encode kernel).constPool r 0)) +
          u32 (words (encode kernel).constPool r 1))).locals
        (u32 (words (encode kernel).constPool r 3)) +
        u32 (words (encode kernel).constPool r 4)) with
  | error trap => rfl
  | ok offset =>
      simp only [bind, Except.bind, pure, Except.pure, VmState.setLocal_memory]
      cases s.memory.readU8At offset with
      | error trap => rfl
      | ok byte => exact ⟨_, rfl, by simp [hthree]⟩

private theorem load8Update_holds {offset : Nat} {branch : LoweredOp} (pool : ConstPool)
    (hholds : Holds r offset branch) (height : branch.operands.length = 8) (s : VmState) :
    load8Update (words pool r) offset s = load8Update (words pool branch) 0 s :=
  load8Update_congr (fun i hi => by rw [hholds.words_eq (by omega), Nat.zero_add]) s

private theorem exec_load8UpdateBranch (pool : ConstPool) {branch : LoweredOp}
    (hop : branch.op = .opI32Load8ULocalBaseSet4LocalGet4Set4LocalGet4BrIf) (s : VmState) :
    exec branch.op (words pool branch) s = (do
      let (cond, s) ← load8Update (words pool branch) 0 s
      return (memoryBrIf 7 8 (cond ≠ 0), s)) := by
  rw [hop]
  rfl

private theorem exec_localGet4 (pool : ConstPool) {get : LoweredOp} (hop : get.op = .opLocalGet4)
    (s : VmState) : exec get.op (words pool get) s =
      .ok (⟨.fall 1, false⟩, s.push (s.locals (u32 (words pool get 0)))) := by
  rw [hop]
  rfl

private theorem fuseLoad8UpdateBranchTakenLocalGet4_spec {code : List LoweredOp}
    {labels : LabelIndices} (h : fuseLoad8UpdateBranchTakenLocalGet4 code cursor labels = some r) :
    ∃ branch label target get taken, code[cursor]? = some branch ∧
      branch.op = .opI32Load8ULocalBaseSet4LocalGet4Set4LocalGet4BrIf ∧
      opJumpTarget branch = some label ∧ labels label = some target ∧
      code[target]? = some get ∧ get.op = .opLocalGet4 ∧ get.operands.head? = some taken ∧
      r.op = .opI32Load8ULocalBaseSet4LocalGet4Set4LocalGet4BrIfTakenLocalGet4 ∧
      r.operands = branch.operands ++ [taken] := by
  obtain ⟨branch, hbranch, h⟩ := Option.bind_eq_some_iff.mp h
  split at h
  · cases h
  · next hop =>
      obtain ⟨label, hlabel, h⟩ := Option.bind_eq_some_iff.mp h
      obtain ⟨target, htarget, h⟩ := Option.bind_eq_some_iff.mp h
      split at h
      · cases h
      · obtain ⟨get, hget, h⟩ := Option.bind_eq_some_iff.mp h
        split at h
        · cases h
        · next hgetOp =>
            obtain ⟨taken, htaken, h⟩ := Option.bind_eq_some_iff.mp h
            obtain rfl := Option.some.inj h
            exact ⟨branch, label, target, get, taken, hbranch, not_not.mp hop, hlabel, htarget,
              hget, not_not.mp hgetOp, htaken, rfl, rfl⟩

private theorem taken_keeps_iff (hex : Executable kernel)
    (hfuse : fuseAt (fusePrefix kernel.labels kernel.code cursor) cursor kernel.labels =
      some (.load8UpdateBranchTakenLocalGet4, r)) (s : VmState) :
    KeepsControlFlow kernel cursor s ↔ Undisturbed kernel cursor s r.op := by
  have hwf := hex.toWellFormed
  obtain ⟨branch, label, target, get, taken, hbranch, hbranchOp, hlabel, htarget, hget, hgetOp,
    htaken, hop, hoperands⟩ := fuseLoad8UpdateBranchTakenLocalGet4_spec (fuseAt_apply hfuse)
  rw [fusePrefix_get_ge (Nat.le_refl cursor)] at hbranch
  have hget : kernel.code[target]? = some get := fusePrefix_get_of_head hwf hget (by
    intro fusion
    rw [hgetOp]
    cases fusion <;> simp [Fusion.handlers])
  have height := (hex.operands branch (List.mem_of_getElem? hbranch)).count hbranchOp rfl
  have hone := (hex.operands get (List.mem_of_getElem? hget)).count hgetOp rfl
  have hfirst : Holds r 0 branch := holds_of_append [] [taken] (by simp [hoperands]) rfl
  have hindex : branchIndex kernel cursor = some target := by
    simp [branchIndex, hbranch, hlabel, htarget]
  obtain ⟨target', hindex', hlt, hjump, _⟩ :=
    branch_lands cursor hex hbranch (by rw [hbranchOp]; rfl) height hfirst
  obtain rfl : target = target' := Option.some.inj (hindex.symm.trans hindex')
  have hexec : exec r.op (words (encode kernel).constPool r) s = (do
      let (cond, s) ← load8Update (words (encode kernel).constPool branch) 0 s
      if cond ≠ 0 then
        return (⟨.jump 7 takenAdvance, false⟩,
          s.push (s.locals (u32 (words (encode kernel).constPool r 8))))
      else return (⟨.fall 9, false⟩, s)) := by
    rw [hop, ← load8Update_holds _ hfirst height]
    rfl
  have hword : words (encode kernel).constPool r 8 = words (encode kernel).constPool get 0 := by
    simp only [words, hoperands, eq_singleton hone htaken]
    rw [List.getElem?_append_right (by omega), height]
  have hpath : unfusedPath kernel cursor r.op = .step .stop (.step .stop .stop) := by
    rw [hop]
    rfl
  have hsame := skipEndOps_of_ne hget (show get.op ≠ .opEnd by rw [hgetOp]; simp)
  have hstep := exec_load8UpdateBranch (encode kernel).constPool hbranchOp s
  have hcondition : Undisturbed kernel cursor s r.op ↔ ∀ cond s',
      load8Update (words (encode kernel).constPool branch) 0 s = .ok (cond, s') → cond ≠ 0 →
        inputFusion kernel.code target kernel.labels = none := by
    rw [hop]
    simp [Undisturbed, opWords_eq hbranch, hindex]
  rw [hcondition]
  cases hload : load8Update (words (encode kernel).constPool branch) 0 s with
  | error trap =>
      rw [hload] at hexec hstep
      refine iff_of_true (keeps_of_trap hwf hfuse hexec ?_) (by simp)
      rw [hpath, run_trap hbranch hstep]
  | ok result =>
      obtain ⟨cond, s'⟩ := result
      simp only [hload, bind, Except.bind, pure, Except.pure] at hexec hstep
      by_cases hcond : cond = 0
      · simp only [hcond, ne_eq, not_true_eq_false, if_false, decide_false] at hexec hstep
        have hrun : (unfusedPath kernel cursor r.op).run kernel.unfused (some cursor) s =
            .ok (some (skipEndOps kernel.code (cursor + 1)), s') := by
          rw [hpath, run_ok hbranch hstep,
            continuation_landed (landing_fall hbranch height.symm)]
          rfl
        have hfall := fall_behind hwf hfuse
        rw [hoperands, List.length_append, height] at hfall
        refine iff_of_true ((keeps_iff_of_ok hwf hfuse hexec hfall hrun).mpr
          (skipEndOps_idem _ _).symm) ?_
        rintro cond' s'' heq hne
        cases heq
        exact absurd hcond hne
      · simp only [hcond, ne_eq, not_false_eq_true, if_true, decide_true] at hexec hstep
        have hrun : (unfusedPath kernel cursor r.op).run kernel.unfused (some cursor) s =
            .ok (some (target + 1), s'.push (s'.locals (u32 (words (encode kernel).constPool r 8)))) := by
          rw [hpath, run_ok hbranch hstep, continuation_landed hjump]
          simp only [memoryBrIf, if_true, hsame]
          rw [run_ok hget (exec_localGet4 _ hgetOp _), hword,
            continuation_landed (landing_fall hget hone.symm)]
          rfl
        have hlanding : landing (encode kernel).code cursor r (.jump 7 takenAdvance) =
            if inputFusion kernel.code target kernel.labels = none then some (target + 1)
            else none := by
          have hoperand : r.operands[7]? = some (LoweredOperand.jumpTarget label) := by
            rw [← jump_operand height hlabel, ← hfirst 7 (by omega)]
          have htwo : takenAdvance = slotLen get := by
            rw [slotLen, hone]
            rfl
          simp only [landing, hoperand]
          rw [encode_labelToAddr hwf hget htarget, htwo, opAt_over hwf hget]
        by_cases hnone : inputFusion kernel.code target kernel.labels = none
        · rw [if_pos hnone] at hlanding
          exact iff_of_true ((keeps_iff_of_ok hwf hfuse hexec hlanding hrun).mpr rfl)
            fun _ _ _ _ => hnone
        · rw [if_neg hnone] at hlanding
          refine iff_of_false (not_keeps_of_inside hwf hfuse hexec hlanding) ?_
          intro h
          exact hnone (h cond s' rfl hcond)

private theorem fuseLoad8UpdateBranchFallthroughLocalGet4_spec {window : List LoweredOp}
    (h : fuseLoad8UpdateBranchFallthroughLocalGet4 window = some r) :
    ∃ branch get rest preserved, window = branch :: get :: rest ∧
      branch.op = .opI32Load8ULocalBaseSet4LocalGet4Set4LocalGet4BrIf ∧
      get.op = .opLocalGet4 ∧ get.operands.head? = some preserved ∧
      r.op = .opI32Load8ULocalBaseSet4LocalGet4Set4LocalGet4BrIfFallthroughLocalGet4 ∧
      r.operands = withSkip (branch.operands ++ [preserved]) [get] := by
  unfold fuseLoad8UpdateBranchFallthroughLocalGet4 at h
  split at h
  · next branch get rest =>
      split at h
      · cases h
      · next hops =>
          push Not at hops
          obtain ⟨preserved, hpreserved, h⟩ := Option.bind_eq_some_iff.mp h
          obtain rfl := Option.some.inj h
          exact ⟨branch, get, rest, preserved, rfl, hops.1, hops.2, hpreserved, rfl, rfl⟩
  · cases h

private theorem fallthrough_keeps_iff (hex : Executable kernel)
    (hfuse : fuseAt (fusePrefix kernel.labels kernel.code cursor) cursor kernel.labels =
      some (.load8UpdateBranchFallthroughLocalGet4, r)) (s : VmState) :
    KeepsControlFlow kernel cursor s ↔ Undisturbed kernel cursor s r.op := by
  have hwf := hex.toWellFormed
  have happly := fuseAt_apply hfuse
  simp only [Fusion.apply, fusePrefix_drop] at happly
  obtain ⟨branch, get, rest, preserved, hwindow, hbranchOp, hgetOp, hpreserved, hop, hoperands⟩ :=
    fuseLoad8UpdateBranchFallthroughLocalGet4_spec happly
  have hbranch : kernel.code[cursor]? = some branch := get_of_drop hwindow 0
  have hget : kernel.code[cursor + 1]? = some get := get_of_drop hwindow 1
  have height := (hex.operands branch (List.mem_of_getElem? hbranch)).count hbranchOp rfl
  have hone := (hex.operands get (List.mem_of_getElem? hget)).count hgetOp rfl
  have hlen : r.operands.length = 10 := by
    simp [hoperands, withSkip, height]
  have hfirst : Holds r 0 branch :=
    holds_of_append [] ([preserved] ++ [rawU32Operand (9 + 1 + slotCount [get])])
      (by simp [hoperands, withSkip, height]) rfl
  obtain ⟨target, _, _, hjump, hjump'⟩ :=
    branch_lands cursor hex hbranch (by rw [hbranchOp]; rfl) height hfirst
  have hskip : (u32 (words (encode kernel).constPool r 9)).toNat = 10 + slotLen get := by
    have hlast : r.operands[9]? = some (rawU32Operand (10 + slotLen get)) := by
      rw [hoperands, withSkip, List.getElem?_append_right (by simp [height])]
      simp [height, slotCount_cons]
    simp only [words, hlast, Option.map_some, Option.getD_some, rawU32Operand, operandWord]
    exact u32_ofNat (by rw [slotLen, hone]; decide)
  have hword : words (encode kernel).constPool r 8 = words (encode kernel).constPool get 0 := by
    have height : r.operands[8]? = some preserved := by
      rw [hoperands, withSkip, List.append_assoc, List.getElem?_append_right (by omega), height]
      rfl
    simp [words, height, eq_singleton hone hpreserved]
  have hexec : exec r.op (words (encode kernel).constPool r) s = (do
      let (cond, s) ← load8Update (words (encode kernel).constPool branch) 0 s
      if cond ≠ 0 then return (⟨.jump 7 0, false⟩, s)
      else return (⟨.fall (10 + slotLen get), false⟩,
        s.push (s.locals (u32 (words (encode kernel).constPool get 0))))) := by
    rw [hop, ← load8Update_holds _ hfirst height, ← hskip, ← hword]
    rfl
  have hpath : unfusedPath kernel cursor r.op = .step (.step .stop .stop) .stop := by
    rw [hop]
    rfl
  have hsame := skipEndOps_of_ne hget (show get.op ≠ .opEnd by rw [hgetOp]; simp)
  have hstep := exec_load8UpdateBranch (encode kernel).constPool hbranchOp s
  have hcondition : Undisturbed kernel cursor s r.op ↔ ∀ s',
      load8Update (words (encode kernel).constPool branch) 0 s = .ok (0, s') →
        inputFusion kernel.code (cursor + 1) kernel.labels = none := by
    rw [hop]
    simp [Undisturbed, opWords_eq hbranch]
  rw [hcondition]
  cases hload : load8Update (words (encode kernel).constPool branch) 0 s with
  | error trap =>
      rw [hload] at hexec hstep
      refine iff_of_true (keeps_of_trap hwf hfuse hexec ?_) (by simp)
      rw [hpath, run_trap hbranch hstep]
  | ok result =>
      obtain ⟨cond, s'⟩ := result
      simp only [hload, bind, Except.bind, pure, Except.pure] at hexec hstep
      by_cases hcond : cond = 0
      · simp only [hcond, ne_eq, not_true_eq_false, if_false, decide_false] at hexec hstep
        have hrun : (unfusedPath kernel cursor r.op).run kernel.unfused (some cursor) s =
            .ok (some (cursor + 2),
              s'.push (s'.locals (u32 (words (encode kernel).constPool get 0)))) := by
          rw [hpath, run_ok hbranch hstep,
            continuation_landed (landing_fall hbranch height.symm)]
          simp only [memoryBrIf, if_true, hsame]
          rw [run_ok hget (exec_localGet4 _ hgetOp _),
            continuation_landed (landing_fall hget hone.symm)]
          rfl
        have hlanding := fall_over hwf hfuse hget (show 10 + slotLen get = _ by rw [hlen])
        by_cases hnone : inputFusion kernel.code (cursor + 1) kernel.labels = none
        · rw [if_pos hnone] at hlanding
          exact iff_of_true ((keeps_iff_of_ok hwf hfuse hexec hlanding hrun).mpr rfl)
            fun _ _ => hnone
        · rw [if_neg hnone] at hlanding
          refine iff_of_false (not_keeps_of_inside hwf hfuse hexec hlanding) ?_
          intro h
          exact hnone (h s' (by rw [hcond]))
      · simp only [hcond, ne_eq, not_false_eq_true, if_true, decide_true] at hexec hstep
        have hrun : (unfusedPath kernel cursor r.op).run kernel.unfused (some cursor) s =
            .ok (some (skipEndOps kernel.code target), s') := by
          rw [hpath, run_ok hbranch hstep, continuation_landed hjump]
          rfl
        refine iff_of_true ((keeps_iff_of_ok hwf hfuse hexec hjump' hrun).mpr
          (skipEndOps_idem _ _).symm) ?_
        intro s'' heq
        cases heq
        exact absurd rfl hcond

/-- The four input ops that every guarded form starts with. -/
private structure GuardedWindow (kernel : LoweredKernelFunction) (cursor : Nat)
    (nextSet guardCmp guardIf branch : LoweredOp) : Prop where
  nextSet_op : nextSet.op = .opLocalGet4I32ConstAddSet4
  guardCmp_op : guardCmp.op = .opLocalCmp32
  guardIf_op : guardIf.op = .opIf
  branch_op : branch.op = .opI32Load8ULocalBaseSet4LocalGet4Set4LocalGet4BrIf
  nextSet_get : kernel.code[cursor]? = some nextSet
  guardCmp_get : kernel.code[cursor + 1]? = some guardCmp
  guardIf_get : kernel.code[cursor + 2]? = some guardIf
  branch_get : kernel.code[cursor + 3]? = some branch
  nextSet_len : nextSet.operands.length = 3
  guardCmp_len : guardCmp.operands.length = 3
  guardIf_len : guardIf.operands.length = 1
  branch_len : branch.operands.length = 8

private theorem load8UpdateOperands_eq {branch : LoweredOp} {tail : List LoweredOperand}
    (h : load8UpdateOperands branch = some tail) (height : branch.operands.length = 8) :
    tail = branch.operands := by
  unfold load8UpdateOperands at h
  split at h
  · next a b c d e f g rest target hoperands htarget =>
      obtain rfl := Option.some.inj h
      have hrest := eq_append_jump [a, b, c, d, e, f, g] hoperands height htarget
      simp [hoperands, hrest]
  · cases h

private theorem fuseGuardedLoad8UpdateBranchTail_window (hex : Executable kernel)
    (h : fuseGuardedLoad8UpdateBranchTail (kernel.code.drop cursor) = some r) :
    ∃ nextSet guardCmp guardIf branch,
      GuardedWindow kernel cursor nextSet guardCmp guardIf branch ∧
      r.op = .opI32GuardedLoad8ULocalBaseSet4LocalGet4Set4LocalGet4BrIf ∧
      r.operands = nextSet.operands ++ (guardCmp.operands ++ (guardIf.operands ++
        branch.operands)) := by
  unfold fuseGuardedLoad8UpdateBranchTail at h
  split at h
  · next nextSet guardCmp guardIf branch rest hwindow =>
      split at h
      · cases h
      · next hops =>
          push Not at hops
          have hget : ∀ i, kernel.code[cursor + i]? =
              (nextSet :: guardCmp :: guardIf :: branch :: rest)[i]? := get_of_drop hwindow
          have hlen1 := (hex.operands nextSet (List.mem_of_getElem? (hget 0))).count hops.1 rfl
          have hlen2 := hex.control guardCmp (List.mem_of_getElem? (hget 1)) 3 (by
            rw [hops.2.1]
            rfl)
          have hlen3 := hex.control guardIf (List.mem_of_getElem? (hget 2)) 1 (by
            rw [hops.2.2.1]
            rfl)
          have hlen4 :=
            (hex.operands branch (List.mem_of_getElem? (hget 3))).count hops.2.2.2 rfl
          split at h
          · next src delta dst tail kind lhs rhs tail' hset hcmp =>
              split at h
              · obtain ⟨falseTarget, hfalse, h⟩ := Option.bind_eq_some_iff.mp h
                obtain ⟨update, hupdate, h⟩ := Option.bind_eq_some_iff.mp h
                obtain rfl := Option.some.inj h
                have htail : tail = [] := by
                  rw [hset] at hlen1
                  exact List.eq_nil_of_length_eq_zero (by simpa using hlen1)
                have htail' : tail' = [] := by
                  rw [hcmp] at hlen2
                  exact List.eq_nil_of_length_eq_zero (by simpa using hlen2)
                have hif : guardIf.operands = [.jumpTarget falseTarget] :=
                  eq_append_jump [] rfl hlen3 hfalse
                refine ⟨nextSet, guardCmp, guardIf, branch, ⟨hops.1, hops.2.1, hops.2.2.1,
                  hops.2.2.2, hget 0, hget 1, hget 2, hget 3, hlen1, hlen2, hlen3, hlen4⟩,
                  rfl, ?_⟩
                simp [hset, hcmp, htail, htail', hif, load8UpdateOperands_eq hupdate hlen4]
              · cases h
          · cases h
  · cases h

private def advanced (kernel : LoweredKernelFunction) (nextSet : LoweredOp) (s : VmState) :
    VmState :=
  s.setLocal (u32 (words (encode kernel).constPool nextSet 2))
    (s.locals (u32 (words (encode kernel).constPool nextSet 0)) +
      u32 (words (encode kernel).constPool nextSet 1))

private theorem GuardedWindow.run (hex : Executable kernel)
    {nextSet guardCmp guardIf branch : LoweredOp}
    (w : GuardedWindow kernel cursor nextSet guardCmp guardIf branch) {ifTarget brTarget : Nat}
    (hif : branchIndex kernel (cursor + 2) = some ifTarget)
    (hbr : branchIndex kernel (cursor + 3) = some brTarget)
    (ifFalse brFalls brTaken : Path) (s : VmState) :
    (guardedPath ifFalse brFalls brTaken).run kernel.unfused (some cursor) s =
      match evalLocalCmp32 (words (encode kernel).constPool guardCmp) 0
        (advanced kernel nextSet s) with
      | .error trap => .error trap
      | .ok guard =>
          if guard = 0 then ifFalse.run kernel.unfused (some ifTarget) (advanced kernel nextSet s)
          else
            match load8Update (words (encode kernel).constPool branch) 0
              (advanced kernel nextSet s) with
            | .error trap => .error trap
            | .ok (cond, s') =>
                if cond = 0 then
                  brFalls.run kernel.unfused (some (skipEndOps kernel.code (cursor + 4))) s'
                else brTaken.run kernel.unfused (some (skipEndOps kernel.code brTarget)) s' := by
  have hset : exec nextSet.op (words (encode kernel).constPool nextSet) s =
      .ok (⟨.fall 3, false⟩, advanced kernel nextSet s) := by
    rw [w.nextSet_op]
    rfl
  have hcmp : exec guardCmp.op (words (encode kernel).constPool guardCmp)
      (advanced kernel nextSet s) = (do
        let result ← evalLocalCmp32 (words (encode kernel).constPool guardCmp) 0
          (advanced kernel nextSet s)
        return (⟨.fall 3, false⟩, (advanced kernel nextSet s).push result)) := by
    rw [w.guardCmp_op]
    rfl
  obtain ⟨ifTarget', hif', _, hifLands, _⟩ := branch_lands (r := guardIf) cursor hex w.guardIf_get
    (by rw [w.guardIf_op]; rfl) w.guardIf_len (holds_of_append [] [] (by simp) rfl)
  obtain rfl : ifTarget = ifTarget' := Option.some.inj (hif.symm.trans hif')
  obtain ⟨brTarget', hbr', _, hbrLands, _⟩ := branch_lands (r := branch) cursor hex w.branch_get
    (by rw [w.branch_op]; rfl) w.branch_len (holds_of_append [] [] (by simp) rfl)
  obtain rfl : brTarget = brTarget' := Option.some.inj (hbr.symm.trans hbr')
  have hstep := exec_load8UpdateBranch (encode kernel).constPool w.branch_op
    (advanced kernel nextSet s)
  rw [guardedPath, run_ok w.nextSet_get hset,
    continuation_landed (landing_fall w.nextSet_get w.nextSet_len.symm)]
  dsimp only
  cases hguard : evalLocalCmp32 (words (encode kernel).constPool guardCmp) 0
      (advanced kernel nextSet s) with
  | error trap =>
      rw [hguard] at hcmp
      exact run_trap w.guardCmp_get hcmp _ _
  | ok guard =>
      have hifExec : exec guardIf.op (words (encode kernel).constPool guardIf)
          ((advanced kernel nextSet s).push guard) = .ok (⟨if guard ≠ 0 then .fall 1
            else .jump 0 0, false⟩, advanced kernel nextSet s) := by
        rw [w.guardIf_op]
        rfl
      simp only [hguard, bind, Except.bind, pure, Except.pure] at hcmp
      rw [if_neg Bool.false_ne_true, run_ok w.guardCmp_get hcmp,
        continuation_landed (landing_fall w.guardCmp_get w.guardCmp_len.symm)]
      dsimp only
      rw [if_neg Bool.false_ne_true, run_ok w.guardIf_get hifExec]
      by_cases hzero : guard = 0
      · simp only [hzero, ne_eq, not_true_eq_false, if_false, if_true]
        rw [continuation_landed hifLands]
        rfl
      · simp only [hzero, ne_eq, not_false_eq_true, if_false, if_true]
        rw [continuation_landed (landing_fall w.guardIf_get w.guardIf_len.symm)]
        dsimp only
        rw [if_neg Bool.false_ne_true]
        cases hload : load8Update (words (encode kernel).constPool branch) 0
            (advanced kernel nextSet s) with
        | error trap =>
            rw [hload] at hstep
            exact run_trap w.branch_get hstep _ _
        | ok result =>
            obtain ⟨cond, s'⟩ := result
            simp only [hload, bind, Except.bind, pure, Except.pure] at hstep
            rw [run_ok w.branch_get hstep]
            by_cases hcond : cond = 0
            · simp only [hcond, ne_eq, not_true_eq_false, decide_false, memoryBrIf, if_true]
              rw [if_neg Bool.false_ne_true, continuation_landed
                (landing_fall w.branch_get w.branch_len.symm)]
              rfl
            · simp only [hcond, ne_eq, not_false_eq_true, decide_true, memoryBrIf, if_true,
                if_false]
              rw [continuation_landed hbrLands]
              rfl

/-- The guard and the branch of a fused op, in the words of the input ops. -/
private theorem GuardedWindow.cond_eq {nextSet guardCmp guardIf branch : LoweredOp}
    (w : GuardedWindow kernel cursor nextSet guardCmp guardIf branch)
    {extra : List LoweredOperand}
    (hoperands : r.operands = nextSet.operands ++ (guardCmp.operands ++ (guardIf.operands ++
      (branch.operands ++ extra)))) (s : VmState) :
    guardedLoad8UUpdateBranchCond (words (encode kernel).constPool r) s = (do
      let guard ← evalLocalCmp32 (words (encode kernel).constPool guardCmp) 0
        (advanced kernel nextSet s)
      if guard = 0 then return (0, advanced kernel nextSet s)
      else load8Update (words (encode kernel).constPool branch) 0 (advanced kernel nextSet s)) := by
  have hset : Holds r 0 nextSet := holds_of_append [] _ hoperands rfl
  have hcmp : Holds r 3 guardCmp := holds_of_append nextSet.operands _ hoperands
    w.nextSet_len.symm
  have hbranch : Holds r 7 branch :=
    holds_of_append (nextSet.operands ++ (guardCmp.operands ++ guardIf.operands)) extra
      (by simp [hoperands]) (by simp [w.nextSet_len, w.guardCmp_len, w.guardIf_len])
  have hlen := w.nextSet_len
  have hlen' := w.guardCmp_len
  have hadvanced : s.setLocal (u32 (words (encode kernel).constPool r 2))
      (s.locals (u32 (words (encode kernel).constPool r 0)) +
        u32 (words (encode kernel).constPool r 1)) = advanced kernel nextSet s := by
    rw [advanced, ← hset.words_eq (show 0 < _ by omega), ← hset.words_eq (show 1 < _ by omega),
      ← hset.words_eq (show 2 < _ by omega)]
  have hguard : evalLocalCmp32 (words (encode kernel).constPool r) 3 (advanced kernel nextSet s) =
      evalLocalCmp32 (words (encode kernel).constPool guardCmp) 0 (advanced kernel nextSet s) :=
    evalLocalCmp32_congr (fun i hi => by rw [hcmp.words_eq (by omega), Nat.zero_add]) _
  unfold guardedLoad8UUpdateBranchCond
  dsimp only
  rw [hadvanced, load8Update_holds _ hbranch w.branch_len, hguard]

/-- A guarded form whose parts agree with those of its path: all that can differ is where it
goes when the guard holds and the branch is not taken. -/
private theorem GuardedWindow.keeps_iff (hex : Executable kernel)
    (hfuse : fuseAt (fusePrefix kernel.labels kernel.code cursor) cursor kernel.labels =
      some (fusion, r)) {nextSet guardCmp guardIf branch : LoweredOp}
    (w : GuardedWindow kernel cursor nextSet guardCmp guardIf branch)
    (extra : List LoweredOperand)
    (hoperands : r.operands = nextSet.operands ++ (guardCmp.operands ++ (guardIf.operands ++
      (branch.operands ++ extra)))) {ifTarget brTarget : Nat}
    (hif : branchIndex kernel (cursor + 2) = some ifTarget)
    (hbr : branchIndex kernel (cursor + 3) = some brTarget)
    {ifFalse brFalls brTaken : Path}
    (hpath : unfusedPath kernel cursor r.op = guardedPath ifFalse brFalls brTaken)
    (control : BitVec 32 → VmState → Control) (zero taken falls : VmState → Nat)
    (hexec : ∀ s, exec r.op (words (encode kernel).constPool r) s = (do
      let (cond, s) ← guardedLoad8UUpdateBranchCond (words (encode kernel).constPool r) s
      return (control cond s, s)))
    (hzero : ∀ s, landing (encode kernel).code cursor r (control 0 s).next = some (zero s))
    (htaken : ∀ cond s, cond ≠ 0 →
      landing (encode kernel).code cursor r (control cond s).next = some (taken s))
    (hifFalse : ∀ s, ifFalse.run kernel.unfused (some ifTarget) s = .ok (some (zero s), s))
    (hbrTaken : ∀ s, ∃ reached,
      brTaken.run kernel.unfused (some (skipEndOps kernel.code brTarget)) s =
        .ok (some reached, s) ∧ skipEndOps kernel.code (taken s) = skipEndOps kernel.code reached)
    (hbrFalls : ∀ s, ∃ reached,
      brFalls.run kernel.unfused (some (skipEndOps kernel.code (cursor + 4))) s =
        .ok (some reached, s) ∧ skipEndOps kernel.code (falls s) = skipEndOps kernel.code reached)
    (s : VmState) :
    KeepsControlFlow kernel cursor s ↔ ∀ s', guardedFall kernel cursor s = some s' →
      skipEndOps kernel.code (zero s') = skipEndOps kernel.code (falls s') := by
  have hwf := hex.toWellFormed
  have hrun := w.run hex hif hbr ifFalse brFalls brTaken s
  rw [← hpath] at hrun
  have hexec := hexec s
  rw [w.cond_eq hoperands] at hexec
  have hfall : guardedFall kernel cursor s =
      match evalLocalCmp32 (words (encode kernel).constPool guardCmp) 0
          (advanced kernel nextSet s),
        load8Update (words (encode kernel).constPool branch) 0 (advanced kernel nextSet s) with
      | .ok guard, .ok (cond, s') => if guard ≠ 0 ∧ cond = 0 then some s' else none
      | _, _ => none := by
    simp only [guardedFall, opWords_eq w.nextSet_get, opWords_eq w.guardCmp_get,
      opWords_eq w.branch_get]
    rfl
  cases hguard : evalLocalCmp32 (words (encode kernel).constPool guardCmp) 0
      (advanced kernel nextSet s) with
  | error trap =>
      simp only [hguard] at hrun hfall
      rw [hguard] at hexec
      exact iff_of_true (keeps_of_trap hwf hfuse hexec hrun) (by simp [hfall])
  | ok guard =>
      by_cases hguardZero : guard = 0
      · simp only [hguard, hguardZero, bind, Except.bind, pure, Except.pure, if_true]
          at hrun hfall hexec
        rw [hifFalse] at hrun
        have hnone : guardedFall kernel cursor s = none := by
          rw [hfall]
          split <;> simp_all
        exact iff_of_true ((keeps_iff_of_ok hwf hfuse hexec (hzero _) hrun).mpr rfl)
          (by simp [hnone])
      · cases hload : load8Update (words (encode kernel).constPool branch) 0
            (advanced kernel nextSet s) with
        | error trap =>
            simp only [hguard, hguardZero, hload, bind, Except.bind, if_false] at hrun hfall hexec
            exact iff_of_true (keeps_of_trap hwf hfuse hexec hrun) (by simp [hfall])
        | ok result =>
            obtain ⟨cond, s'⟩ := result
            simp only [hguard, hguardZero, hload, bind, Except.bind, pure, Except.pure, if_false,
              ne_eq, not_false_eq_true, true_and] at hrun hfall hexec
            by_cases hcond : cond = 0
            · simp only [hcond, if_true] at hrun hfall hexec
              obtain ⟨reached, hreached, hsame⟩ := hbrFalls s'
              rw [hreached] at hrun
              rw [keeps_iff_of_ok hwf hfuse hexec (hzero s') hrun, hfall, ← hsame]
              simp
            · simp only [hcond, if_false] at hrun hfall
              obtain ⟨reached, hreached, hsame⟩ := hbrTaken s'
              rw [hreached] at hrun
              exact iff_of_true ((keeps_iff_of_ok hwf hfuse hexec (htaken _ _ hcond) hrun).mpr
                hsame) (by simp [hfall])

private theorem GuardedWindow.targets {nextSet guardCmp guardIf branch base : LoweredOp}
    (w : GuardedWindow kernel cursor nextSet guardCmp guardIf branch)
    (hoperands : base.operands = nextSet.operands ++ (guardCmp.operands ++ (guardIf.operands ++
      branch.operands))) :
    opJumpTarget base = opJumpTarget branch ∧
      guardedLoad8FalseTarget base = opJumpTarget guardIf := by
  have hne : branch.operands ≠ [] := by
    intro hnil
    have := w.branch_len
    simp [hnil] at this
  constructor
  · simp only [opJumpTarget, hoperands, List.getLast?_append_of_ne_nil _ hne, ← List.append_assoc]
  · obtain ⟨target, htarget⟩ := List.length_eq_one_iff.mp w.guardIf_len
    have hsix : base.operands[6]? = some target := by
      rw [hoperands, List.getElem?_append_right (by simp [w.nextSet_len]),
        List.getElem?_append_right (by simp [w.nextSet_len, w.guardCmp_len]),
        w.nextSet_len, w.guardCmp_len, htarget]
      rfl
    simp only [guardedLoad8FalseTarget, hsix, opJumpTarget, htarget]
    rfl

private theorem TableBehind.of_skip {index index' : Nat} {get table : LoweredOp}
    (h : TableBehind kernel index get table)
    (hskip : skipNoopOpsAt kernel.code index' = skipNoopOpsAt kernel.code index) :
    TableBehind kernel index' get table ∧
      ∀ s, tableAt kernel index' s = tableAt kernel index s := by
  refine ⟨⟨h.getOp, h.tableOp, by rw [hskip]; exact h.get, by rw [hskip]; exact h.table⟩, ?_⟩
  intro s
  simp only [tableAt, hskip]

private theorem TableBehind.lands (cursor : Nat) (hex : Executable kernel) {index offset : Nat}
    {get table : LoweredOp} (h : TableBehind kernel index get table)
    (hget : Holds r offset get) (htable : Holds r (offset + 1) table) (s : VmState) :
    tableAt kernel index s = some ((tableAt kernel index s).getD 0) ∧
      landing (encode kernel).code cursor r
        (brTableTarget (words (encode kernel).constPool r) (offset + 1)
          (s.locals (u32 (words (encode kernel).constPool r offset)))) =
        some ((tableAt kernel index s).getD 0) := by
  have hone := (hex.operands get (List.mem_of_getElem? h.get)).count h.getOp rfl
  obtain ⟨target, htarget, _, hlands⟩ := table_lands hex (List.mem_of_getElem? h.table) h.tableOp
    (s.locals (u32 (words (encode kernel).constPool get 0)))
  have hword := hget.words_eq (show 0 < _ by omega) (encode kernel).constPool
  rw [Nat.add_zero] at hword
  rw [h.tableAt_eq, htarget, hword]
  exact ⟨rfl, hlands r (offset + 1) cursor htable⟩

private theorem GuardedWindow.base_length {nextSet guardCmp guardIf branch base : LoweredOp}
    (w : GuardedWindow kernel cursor nextSet guardCmp guardIf branch)
    (hoperands : base.operands = nextSet.operands ++ (guardCmp.operands ++ (guardIf.operands ++
      branch.operands))) : base.operands.length = 15 := by
  simp [hoperands, w.nextSet_len, w.guardCmp_len, w.guardIf_len, w.branch_len]

/-- The `if` and the branch of a guarded form go where those of the input go. -/
private theorem GuardedWindow.lands (hex : Executable kernel)
    {nextSet guardCmp guardIf branch : LoweredOp}
    (w : GuardedWindow kernel cursor nextSet guardCmp guardIf branch)
    {extra : List LoweredOperand}
    (hoperands : r.operands = nextSet.operands ++ (guardCmp.operands ++ (guardIf.operands ++
      (branch.operands ++ extra)))) :
    ∃ ifTarget brTarget, branchIndex kernel (cursor + 2) = some ifTarget ∧
      branchIndex kernel (cursor + 3) = some brTarget ∧
      landing (encode kernel).code cursor r (.jump 6 0) = some ifTarget ∧
      landing (encode kernel).code cursor r (.jump 14 0) = some brTarget := by
  have hholdsIf : Holds r 6 guardIf :=
    holds_of_append (nextSet.operands ++ guardCmp.operands) (branch.operands ++ extra)
      (by simp [hoperands]) (by simp [w.nextSet_len, w.guardCmp_len])
  have hholdsBr : Holds r 7 branch :=
    holds_of_append (nextSet.operands ++ (guardCmp.operands ++ guardIf.operands)) extra
      (by simp [hoperands]) (by simp [w.nextSet_len, w.guardCmp_len, w.guardIf_len])
  obtain ⟨ifTarget, hif, _, _, hifLands⟩ := branch_lands cursor hex w.guardIf_get
    (by rw [w.guardIf_op]; rfl) w.guardIf_len hholdsIf
  obtain ⟨brTarget, hbr, _, _, hbrLands⟩ := branch_lands cursor hex w.branch_get
    (by rw [w.branch_op]; rfl) w.branch_len hholdsBr
  exact ⟨ifTarget, brTarget, hif, hbr, hifLands, hbrLands⟩

private theorem plain_keeps_iff (hex : Executable kernel)
    (hfuse : fuseAt (fusePrefix kernel.labels kernel.code cursor) cursor kernel.labels =
      some (fusion, r))
    (h : fuseGuardedLoad8UpdateBranchTail (kernel.code.drop cursor) = some r) (s : VmState) :
    KeepsControlFlow kernel cursor s ↔ Undisturbed kernel cursor s r.op := by
  obtain ⟨nextSet, guardCmp, guardIf, branch, w, hop, hbase⟩ :=
    fuseGuardedLoad8UpdateBranchTail_window hex h
  have hoperands : r.operands = nextSet.operands ++ (guardCmp.operands ++ (guardIf.operands ++
      (branch.operands ++ []))) := by
    rw [hbase, List.append_nil]
  obtain ⟨ifTarget, brTarget, hif, hbr, hifLands, hbrLands⟩ := w.lands hex hoperands
  have hpath : unfusedPath kernel cursor r.op = guardedPath .stop .stop .stop := by
    rw [hop]
    rfl
  have hcondition : Undisturbed kernel cursor s r.op ↔
      ∀ s', guardedFall kernel cursor s = some s' →
        skipEndOps kernel.code ifTarget = skipEndOps kernel.code (cursor + 4) := by
    rw [hop]
    simp [Undisturbed, hif, Option.isSome_iff_exists]
  rw [hcondition]
  refine w.keeps_iff hex hfuse [] hoperands hif hbr hpath
    (fun cond _ => ⟨if cond ≠ 0 then .jump 14 0 else .jump 6 0, true⟩)
    (fun _ => ifTarget) (fun _ => brTarget) (fun _ => cursor + 4) ?_ ?_ ?_ ?_ ?_ ?_ s
  · intro s
    rw [hop]
    rfl
  · intro s
    exact hifLands
  · intro cond s hcond
    simp only [ne_eq, hcond, not_false_eq_true, if_true]
    exact hbrLands
  · intro s
    rfl
  · intro s
    exact ⟨_, rfl, (skipEndOps_idem _ _).symm⟩
  · intro s
    exact ⟨_, rfl, (skipEndOps_idem _ _).symm⟩

private theorem extended_operands {nextSet guardCmp guardIf branch base : LoweredOp}
    (hbase : base.operands = nextSet.operands ++ (guardCmp.operands ++ (guardIf.operands ++
      branch.operands))) {extra : List LoweredOperand} (hr : r.operands = base.operands ++ extra) :
    r.operands = nextSet.operands ++ (guardCmp.operands ++ (guardIf.operands ++
      (branch.operands ++ extra))) := by
  rw [hr, hbase]
  simp only [List.append_assoc]

private theorem takenTable_keeps_iff (hex : Executable kernel)
    (hfuse : fuseAt (fusePrefix kernel.labels kernel.code cursor) cursor kernel.labels =
      some (fusion, r))
    (h : fuseGuardedTakenLocalGet4BrTable (fusePrefix kernel.labels kernel.code cursor) cursor
      kernel.labels = some r) (s : VmState) :
    KeepsControlFlow kernel cursor s ↔ Undisturbed kernel cursor s r.op := by
  obtain ⟨base, hbaseFuse, h⟩ := Option.bind_eq_some_iff.mp h
  obtain ⟨label, hlabel, h⟩ := Option.bind_eq_some_iff.mp h
  obtain ⟨target, htarget, h⟩ := Option.bind_eq_some_iff.mp h
  obtain ⟨operands, htable, h⟩ := Option.bind_eq_some_iff.mp h
  rw [fusePrefix_drop] at hbaseFuse
  obtain ⟨nextSet, guardCmp, guardIf, branch, w, _, hbase⟩ :=
    fuseGuardedLoad8UpdateBranchTail_window hex hbaseFuse
  obtain ⟨get, table, addr, hbehind, haddr, rfl⟩ := localGet4BrTableOperandsAt_spec hex htable
  have hone := (hex.operands get (List.mem_of_getElem? hbehind.get)).count hbehind.getOp rfl
  have hop : r.op =
      .opI32GuardedLoad8ULocalBaseSet4LocalGet4Set4LocalGet4BrIfTakenLocalGet4BrTable := by
    rw [← Option.some.inj h]
  have hr : r.operands = base.operands ++ (get.operands ++ table.operands) := by
    rw [← Option.some.inj h, eq_singleton hone haddr]
    rfl
  have hoperands := extended_operands hbase hr
  have hlen := w.base_length hbase
  have hget : Holds r 15 get := holds_of_append base.operands table.operands hr hlen.symm
  have htableHolds : Holds r 16 table :=
    holds_of_append (base.operands ++ get.operands) [] (by simp [hr]) (by simp [hlen, hone])
  obtain ⟨ifTarget, brTarget, hif, hbr, hifLands, hbrLands⟩ := w.lands hex hoperands
  obtain rfl : target = brTarget := by
    rw [(w.targets hbase).1] at hlabel
    simpa [branchIndex, w.branch_get, hlabel, htarget] using hbr
  have hpath : unfusedPath kernel cursor r.op = guardedPath .stop .stop tablePath := by
    rw [hop]
    rfl
  have hcondition : Undisturbed kernel cursor s r.op ↔
      ∀ s', guardedFall kernel cursor s = some s' →
        skipEndOps kernel.code ifTarget = skipEndOps kernel.code (cursor + 4) := by
    rw [hop]
    simp [Undisturbed, hif, Option.isSome_iff_exists]
  rw [hcondition]
  refine w.keeps_iff hex hfuse _ hoperands hif hbr hpath
    (fun cond s => if cond ≠ 0 then ⟨brTableTarget (words (encode kernel).constPool r) 16
      (s.locals (u32 (words (encode kernel).constPool r 15))), true⟩ else ⟨.jump 6 0, true⟩)
    (fun _ => ifTarget) (fun s => (tableAt kernel target s).getD 0) (fun _ => cursor + 4)
    ?_ ?_ ?_ ?_ ?_ ?_ s
  · intro s
    rw [hop]
    simp only [exec]
    congr 1
    funext popped
    obtain ⟨cond, s⟩ := popped
    by_cases hcond : cond ≠ 0
    · simp only [if_pos hcond]
    · simp only [if_neg hcond]
  · intro s
    exact hifLands
  · intro cond s hcond
    simp only [ne_eq, hcond, not_false_eq_true, if_true]
    exact (hbehind.lands cursor hex hget htableHolds s).2
  · intro s
    rfl
  · intro s
    obtain ⟨hbehind', hsame⟩ := hbehind.of_skip (skipNoopOpsAt_skipEndOps kernel.code target)
    refine ⟨(tableAt kernel target s).getD 0, ?_, rfl⟩
    rw [hbehind'.run hex, hsame, ← (hbehind.lands cursor hex hget htableHolds s).1]
  · intro s
    exact ⟨_, rfl, (skipEndOps_idem _ _).symm⟩

private theorem falseTable_keeps_iff (hex : Executable kernel)
    (hfuse : fuseAt (fusePrefix kernel.labels kernel.code cursor) cursor kernel.labels =
      some (fusion, r))
    (h : fuseGuardedFalseLocalGet4BrTable (fusePrefix kernel.labels kernel.code cursor) cursor
      kernel.labels = some r) (s : VmState) :
    KeepsControlFlow kernel cursor s ↔ Undisturbed kernel cursor s r.op := by
  obtain ⟨base, hbaseFuse, h⟩ := Option.bind_eq_some_iff.mp h
  obtain ⟨label, hlabel, h⟩ := Option.bind_eq_some_iff.mp h
  obtain ⟨target, htarget, h⟩ := Option.bind_eq_some_iff.mp h
  obtain ⟨operands, htable, h⟩ := Option.bind_eq_some_iff.mp h
  rw [fusePrefix_drop] at hbaseFuse
  obtain ⟨nextSet, guardCmp, guardIf, branch, w, _, hbase⟩ :=
    fuseGuardedLoad8UpdateBranchTail_window hex hbaseFuse
  obtain ⟨get, table, addr, hbehind, haddr, rfl⟩ := localGet4BrTableOperandsAt_spec hex htable
  have hone := (hex.operands get (List.mem_of_getElem? hbehind.get)).count hbehind.getOp rfl
  have hop : r.op =
      .opI32GuardedLoad8ULocalBaseSet4LocalGet4Set4LocalGet4BrIfFalseLocalGet4BrTable := by
    rw [← Option.some.inj h]
  have hr : r.operands = base.operands ++ (get.operands ++ table.operands) := by
    rw [← Option.some.inj h, eq_singleton hone haddr]
    rfl
  have hoperands := extended_operands hbase hr
  have hlen := w.base_length hbase
  have hget : Holds r 15 get := holds_of_append base.operands table.operands hr hlen.symm
  have htableHolds : Holds r 16 table :=
    holds_of_append (base.operands ++ get.operands) [] (by simp [hr]) (by simp [hlen, hone])
  obtain ⟨ifTarget, brTarget, hif, hbr, hifLands, hbrLands⟩ := w.lands hex hoperands
  obtain rfl : target = ifTarget := by
    rw [(w.targets hbase).2] at hlabel
    simpa [branchIndex, w.guardIf_get, hlabel, htarget] using hif
  have htableAt := fun s => (hbehind.lands cursor hex hget htableHolds s).1
  have hpath : unfusedPath kernel cursor r.op = guardedPath tablePath
      (if fallsToTable kernel cursor then tablePath else .stop) .stop := by
    rw [hop]
    rfl
  have hcondition : Undisturbed kernel cursor s r.op ↔
      ∀ s', guardedFall kernel cursor s = some s' →
        skipEndOps kernel.code ((tableAt kernel target s').getD 0) =
          skipEndOps kernel.code (if fallsToTable kernel cursor
            then (tableAt kernel target s').getD 0 else cursor + 4) := by
    rw [hop]
    simp only [Undisturbed, hif, Option.bind_some]
    refine forall_congr' fun s' => imp_congr_right fun _ => ?_
    rw [htableAt s', Option.map_some, Option.some.injEq, Option.getD_some]
    by_cases hfalls : fallsToTable kernel cursor <;> simp [hfalls]
  rw [hcondition]
  refine w.keeps_iff hex hfuse _ hoperands hif hbr hpath
    (fun cond s => if cond ≠ 0 then ⟨.jump 14 0, true⟩
      else ⟨brTableTarget (words (encode kernel).constPool r) 16
        (s.locals (u32 (words (encode kernel).constPool r 15))), true⟩)
    (fun s => (tableAt kernel target s).getD 0) (fun _ => brTarget)
    (fun s => if fallsToTable kernel cursor then (tableAt kernel target s).getD 0
      else cursor + 4) ?_ ?_ ?_ ?_ ?_ ?_ s
  · intro s
    rw [hop]
    simp only [exec]
    congr 1
    funext popped
    obtain ⟨cond, s⟩ := popped
    by_cases hcond : cond ≠ 0
    · simp only [if_pos hcond]
    · simp only [if_neg hcond]
  · intro s
    exact (hbehind.lands cursor hex hget htableHolds s).2
  · intro cond s hcond
    simp only [ne_eq, hcond, not_false_eq_true, if_true]
    exact hbrLands
  · intro s
    rw [hbehind.run hex, ← htableAt]
  · intro s
    exact ⟨_, rfl, (skipEndOps_idem _ _).symm⟩
  · intro s
    by_cases hfalls : fallsToTable kernel cursor
    · have hskip : skipNoopOpsAt kernel.code (skipEndOps kernel.code (cursor + 4)) =
          skipNoopOpsAt kernel.code target := by
        rw [skipNoopOpsAt_skipEndOps]
        unfold fallsToTable at hfalls
        rw [hif, Option.map_some, Option.some.injEq] at hfalls
        exact hfalls.symm
      obtain ⟨hbehind', hsame⟩ := hbehind.of_skip hskip
      simp only [if_pos hfalls]
      refine ⟨(tableAt kernel target s).getD 0, ?_, rfl⟩
      rw [hbehind'.run hex, hsame, ← htableAt]
    · simp only [if_neg hfalls]
      exact ⟨_, rfl, (skipEndOps_idem _ _).symm⟩

/-- A compare and a `br` of the input behind a position, and the table that the `br` leads to. -/
private structure CompareBehind (kernel : LoweredKernelFunction) (index : Nat)
    (compare br get table : LoweredOp) (tableIndex : Nat) : Prop where
  compare_op : compare.op = .opLocalGet4I32ConstCompareBrIf
  br_op : br.op = .opBr
  compare_get : kernel.code[skipNoopOpsAt kernel.code index]? = some compare
  br_get : kernel.code[skipNoopOpsAt kernel.code index + 1]? = some br
  br_index : branchIndex kernel (skipNoopOpsAt kernel.code index + 1) = some tableIndex
  behind : TableBehind kernel tableIndex get table
  compare_len : compare.operands.length = 4
  br_len : br.operands.length = 1
  get_len : get.operands.length = 1

private theorem fuseGuardedTakenConstCompareBrTable_spec (hex : Executable kernel)
    (h : fuseGuardedTakenConstCompareBrTable (fusePrefix kernel.labels kernel.code cursor) cursor
      kernel.labels = some r) :
    ∃ (base nextSet guardCmp guardIf branch compare br get table : LoweredOp)
      (target tableIndex : Nat), GuardedWindow kernel cursor nextSet guardCmp guardIf branch ∧
      base.operands = nextSet.operands ++ (guardCmp.operands ++ (guardIf.operands ++
        branch.operands)) ∧
      branchIndex kernel (cursor + 3) = some target ∧
      CompareBehind kernel target compare br get table tableIndex ∧
      r.op = .opI32GuardedLoad8ULocalBaseSet4LocalGet4Set4LocalGet4BrIfTakenConstCompareBrTable ∧
      r.operands = base.operands ++ (compare.operands ++ (br.operands ++ (get.operands ++
        table.operands))) := by
  have hwf := hex.toWellFormed
  have hplain : ∀ op : Op, op = .opLocalGet4I32ConstCompareBrIf ∨ op = .opBr →
      ∀ fusion : Fusion, op ∉ fusion.handlers := by
    rintro op (rfl | rfl) fusion <;> cases fusion <;> simp [Fusion.handlers]
  obtain ⟨base, hbaseFuse, h⟩ := Option.bind_eq_some_iff.mp h
  obtain ⟨label, hlabel, h⟩ := Option.bind_eq_some_iff.mp h
  obtain ⟨target, htarget, h⟩ := Option.bind_eq_some_iff.mp h
  rw [fusePrefix_drop] at hbaseFuse
  obtain ⟨nextSet, guardCmp, guardIf, branch, w, _, hbase⟩ :=
    fuseGuardedLoad8UpdateBranchTail_window hex hbaseFuse
  rw [skipNoopOps_fusePrefix hwf] at h
  split at h
  · next compare br rest hwindow =>
      split at h
      · cases h
      · next hops =>
          push Not at hops
          obtain ⟨brLabel, hbrLabel, h⟩ := Option.bind_eq_some_iff.mp h
          obtain ⟨tableIndex, htableIndex, h⟩ := Option.bind_eq_some_iff.mp h
          obtain ⟨operands, htable, h⟩ := Option.bind_eq_some_iff.mp h
          obtain ⟨get, table, addr, hbehind, haddr, rfl⟩ :=
            localGet4BrTableOperandsAt_spec hex htable
          have hcompare := fusePrefix_get_of_head hwf (get_of_drop hwindow 0)
            (hplain _ (Or.inl hops.1))
          have hbr := fusePrefix_get_of_head hwf (get_of_drop hwindow 1)
            (hplain _ (Or.inr hops.2))
          have hfour := hex.control compare (List.mem_of_getElem? hcompare) 4 (by
            rw [hops.1]
            rfl)
          have hbrLen := hex.control br (List.mem_of_getElem? hbr) 1 (by
            rw [hops.2]
            rfl)
          have hone :=
            (hex.operands get (List.mem_of_getElem? hbehind.get)).count hbehind.getOp rfl
          have hbrOperands : br.operands = [.jumpTarget brLabel] :=
            eq_append_jump [] rfl hbrLen hbrLabel
          refine ⟨base, nextSet, guardCmp, guardIf, branch, compare, br, get, table, target,
            tableIndex, w, hbase, ?_, ⟨hops.1, hops.2, hcompare, hbr, ?_, hbehind, hfour, hbrLen,
            hone⟩, ?_, ?_⟩
          · rw [(w.targets hbase).1] at hlabel
            simp [branchIndex, w.branch_get, hlabel, htarget]
          · simp [branchIndex, hbr, hbrLabel, htableIndex]
          · rw [← Option.some.inj h]
          · rw [← Option.some.inj h, hbrOperands, eq_singleton hone haddr]
            simp
  · cases h

/-- Where the ops behind a taken branch go: to the target of the compare, or by the table. -/
private def compareTarget (kernel : LoweredKernelFunction) (compare : LoweredOp)
    (compareIndex tableIndex : Nat) (s : VmState) : Nat :=
  if i32Compare (u32 (words (encode kernel).constPool compare 1)).toNat
      (s.locals (u32 (words (encode kernel).constPool compare 0)))
      (u32 (words (encode kernel).constPool compare 2)) then compareIndex
  else (tableAt kernel tableIndex s).getD 0

private theorem CompareBehind.run (hex : Executable kernel) {index tableIndex compareIndex : Nat}
    {compare br get table : LoweredOp}
    (h : CompareBehind kernel index compare br get table tableIndex)
    (hindex : branchIndex kernel (skipNoopOpsAt kernel.code index) = some compareIndex)
    (htable : ∀ s, tableAt kernel tableIndex s = some ((tableAt kernel tableIndex s).getD 0))
    (s : VmState) :
    (Path.noops (.step (.step .stop tablePath) .stop)).run kernel.unfused (some index) s =
      .ok (some (compareTarget kernel compare compareIndex tableIndex s), s) := by
  obtain ⟨compareIndex', hindex', _, hcompareLands, _⟩ := branch_lands (r := compare) index hex
    h.compare_get (by rw [h.compare_op]; rfl) h.compare_len (holds_of_append [] [] (by simp) rfl)
  obtain rfl : compareIndex = compareIndex' := Option.some.inj (hindex.symm.trans hindex')
  obtain ⟨tableIndex', hbrIndex, _, hbrLands, _⟩ := branch_lands (r := br) index hex
    h.br_get (by rw [h.br_op]; rfl) h.br_len (holds_of_append [] [] (by simp) rfl)
  obtain rfl : tableIndex = tableIndex' := Option.some.inj (h.br_index.symm.trans hbrIndex)
  have hcompare : exec compare.op (words (encode kernel).constPool compare) s =
      .ok (⟨if i32Compare (u32 (words (encode kernel).constPool compare 1)).toNat
        (s.locals (u32 (words (encode kernel).constPool compare 0)))
        (u32 (words (encode kernel).constPool compare 2)) then .jump 3 0 else .fall 4, false⟩,
        s) := by
    rw [h.compare_op]
    rfl
  have hbr : exec br.op (words (encode kernel).constPool br) s = .ok (⟨.jump 0 0, false⟩, s) := by
    rw [h.br_op]
    rfl
  rw [run_noops hex, run_ok h.compare_get hcompare, compareTarget]
  by_cases hcond : i32Compare (u32 (words (encode kernel).constPool compare 1)).toNat
      (s.locals (u32 (words (encode kernel).constPool compare 0)))
      (u32 (words (encode kernel).constPool compare 2))
  · simp only [if_pos hcond]
    rw [continuation_landed hcompareLands]
    rfl
  · simp only [if_neg hcond]
    rw [continuation_landed (landing_fall h.compare_get h.compare_len.symm)]
    simp only [Bool.false_eq_true, if_false]
    rw [run_ok h.br_get hbr, continuation_landed hbrLands]
    simp only [Bool.false_eq_true, if_false]
    rw [h.behind.run hex, ← htable]

private theorem takenCompareTable_keeps_iff (hex : Executable kernel)
    (hfuse : fuseAt (fusePrefix kernel.labels kernel.code cursor) cursor kernel.labels =
      some (fusion, r))
    (h : fuseGuardedTakenConstCompareBrTable (fusePrefix kernel.labels kernel.code cursor) cursor
      kernel.labels = some r) (s : VmState) :
    KeepsControlFlow kernel cursor s ↔ Undisturbed kernel cursor s r.op := by
  obtain ⟨base, nextSet, guardCmp, guardIf, branch, compare, br, get, table, target, tableIndex,
    w, hbase, hbr, hbehind, hop, hr⟩ := fuseGuardedTakenConstCompareBrTable_spec hex h
  have hoperands := extended_operands hbase hr
  have hlen := w.base_length hbase
  have hcompareHolds : Holds r 15 compare := holds_of_append base.operands _ hr hlen.symm
  have hget : Holds r 20 get :=
    holds_of_append (base.operands ++ (compare.operands ++ br.operands)) table.operands
      (by simp [hr]) (by simp [hlen, hbehind.compare_len, hbehind.br_len])
  have htable : Holds r 21 table :=
    holds_of_append (base.operands ++ (compare.operands ++ (br.operands ++ get.operands))) []
      (by simp [hr]) (by simp [hlen, hbehind.compare_len, hbehind.br_len, hbehind.get_len])
  obtain ⟨ifTarget, brTarget, hif, hbr', hifLands, _⟩ := w.lands hex hoperands
  obtain rfl : target = brTarget := Option.some.inj (hbr.symm.trans hbr')
  obtain ⟨compareIndex, hcompareIndex, _, _, hcompareLands⟩ := branch_lands cursor hex
    hbehind.compare_get (by rw [hbehind.compare_op]; rfl) hbehind.compare_len hcompareHolds
  have hfour := hbehind.compare_len
  have htableLands := fun s => hbehind.behind.lands cursor hex hget htable s
  have hpath : unfusedPath kernel cursor r.op =
      guardedPath .stop .stop (.noops (.step (.step .stop tablePath) .stop)) := by
    rw [hop]
    rfl
  have hcondition : Undisturbed kernel cursor s r.op ↔
      ∀ s', guardedFall kernel cursor s = some s' →
        skipEndOps kernel.code ifTarget = skipEndOps kernel.code (cursor + 4) := by
    rw [hop]
    simp [Undisturbed, hif, Option.isSome_iff_exists]
  rw [hcondition]
  refine w.keeps_iff hex hfuse _ hoperands hif hbr hpath
    (fun cond s => if cond ≠ 0 then
        if i32Compare (u32 (words (encode kernel).constPool r 16)).toNat
            (s.locals (u32 (words (encode kernel).constPool r 15)))
            (u32 (words (encode kernel).constPool r 17)) then ⟨.jump 18 0, true⟩
        else ⟨brTableTarget (words (encode kernel).constPool r) 21
          (s.locals (u32 (words (encode kernel).constPool r 20))), true⟩
      else ⟨.jump 6 0, true⟩)
    (fun _ => ifTarget) (compareTarget kernel compare compareIndex tableIndex)
    (fun _ => cursor + 4) ?_ ?_ ?_ ?_ ?_ ?_ s
  · intro s
    rw [hop]
    simp only [exec]
    congr 1
    funext popped
    obtain ⟨cond, s⟩ := popped
    by_cases hcond : cond ≠ 0
    · simp only [if_pos hcond]
      split <;> rfl
    · simp only [if_neg hcond]
  · intro s
    exact hifLands
  · intro cond s hcond
    simp only [ne_eq, hcond, not_false_eq_true, if_true, compareTarget,
      ← hcompareHolds.words_eq (show 0 < _ by omega),
      ← hcompareHolds.words_eq (show 1 < _ by omega),
      ← hcompareHolds.words_eq (show 2 < _ by omega)]
    split
    · exact hcompareLands
    · exact (htableLands s).2
  · intro s
    rfl
  · intro s
    have hskip := skipNoopOpsAt_skipEndOps kernel.code target
    have hbehind' : CompareBehind kernel (skipEndOps kernel.code target) compare br get table
        tableIndex := by
      refine ⟨hbehind.compare_op, hbehind.br_op, ?_, ?_, ?_, hbehind.behind, hbehind.compare_len,
        hbehind.br_len, hbehind.get_len⟩ <;> rw [hskip]
      · exact hbehind.compare_get
      · exact hbehind.br_get
      · exact hbehind.br_index
    exact ⟨_, hbehind'.run hex (by rw [hskip]; exact hcompareIndex)
      (fun s => (htableLands s).1) s, rfl⟩
  · intro s
    exact ⟨_, rfl, (skipEndOps_idem _ _).symm⟩

private theorem guarded_keeps_iff (hex : Executable kernel)
    (hfuse : fuseAt (fusePrefix kernel.labels kernel.code cursor) cursor kernel.labels =
      some (.guarded, r)) (s : VmState) :
    KeepsControlFlow kernel cursor s ↔ Undisturbed kernel cursor s r.op := by
  have happly : fuseGuarded (fusePrefix kernel.labels kernel.code cursor) cursor kernel.labels =
      some r := fuseAt_apply hfuse
  unfold fuseGuarded at happly
  rcases Option.or_eq_some_iff.mp happly with happly | ⟨_, happly⟩
  · exact takenCompareTable_keeps_iff hex hfuse happly s
  rcases Option.or_eq_some_iff.mp happly with happly | ⟨_, happly⟩
  · exact falseTable_keeps_iff hex hfuse happly s
  rcases Option.or_eq_some_iff.mp happly with happly | ⟨_, happly⟩
  · exact takenTable_keeps_iff hex hfuse happly s
  · rw [fusePrefix_drop] at happly
    exact plain_keeps_iff hex hfuse happly s

end Compare

/-- A fused op that spans blocks ends as the ops it stands for do, in a given state, if and only
if nothing behind the branch under its guard, and no fusion of a `local.get` that it takes in,
stands in the way. -/
theorem keepsControlFlow_iff {kernel : LoweredKernelFunction} (hex : Executable kernel)
    {cursor : Nat} {fusion : Fusion} (hfires : Fires kernel cursor fusion)
    (hcross : fusion.crossesBlocks) (s : VmState) :
    KeepsControlFlow kernel cursor s ↔
      Undisturbed kernel cursor s (handlerAt (encode kernel) cursor) := by
  obtain ⟨r, hfuse⟩ := hfires
  rw [(step_fused hex.toWellFormed hfuse s).1]
  have hhandler : r.op ∈ fusion.handlers := by
    obtain ⟨op, hget⟩ := inputFusion_inRange
      ((fuseAt_some_iff hex.operands cursor fusion).mp ⟨r, hfuse⟩)
    exact (fuseAt_fused hex.operands hget hfuse).handler
  cases fusion <;> simp only [Fusion.crossesBlocks, Bool.false_eq_true] at hcross
  case localGet4BrTable =>
      obtain hop : r.op = _ := by simpa [Fusion.handlers] using hhandler
      exact iff_of_true (localGet4BrTable_keeps hex hfuse s) (by rw [hop]; trivial)
  case localGet4I32ConstAddBrTable =>
      obtain hop : r.op = _ := by simpa [Fusion.handlers] using hhandler
      exact iff_of_true (localGet4I32ConstAddBrTable_keeps hex hfuse s) (by rw [hop]; trivial)
  case guarded => exact guarded_keeps_iff hex hfuse s
  case localBaseLoadTeeLoad8BranchTail =>
      obtain hop : r.op = _ := by simpa [Fusion.handlers] using hhandler
      exact iff_of_true (localBaseLoadTeeLoad8BranchTail_keeps hex hfuse s) (by rw [hop]; trivial)
  case localAddSetLoad8EqzBranchTail =>
      obtain hop : r.op = _ := by simpa [Fusion.handlers] using hhandler
      exact iff_of_true (localAddSetLoad8EqzBranchTail_keeps hex hfuse s) (by rw [hop]; trivial)
  case load8UpdateBranchTakenLocalGet4 => exact taken_keeps_iff hex hfuse s
  case load8UpdateBranchFallthroughLocalGet4 => exact fallthrough_keeps_iff hex hfuse s

/-! A byte loop whose `if` body goes on behind the branch: the cursor moves on, and while it is
below 100 the next byte is loaded; a byte other than zero repeats the loop, a zero is counted. The
source compares the constant with the cursor, so no tee is made of the cursor's set and get. -/

def countingLoop : LoweredKernelFunction :=
  ⟨[⟨0, 0, [⟨some 0, .opLocalGet4I32ConstAddSet4,
        [rawU32Operand 0, rawU32Operand 1, rawU32Operand 0]⟩,
      ⟨none, .opLocalCmp32, [rawU32Operand 7, rawU32Operand 0, rawU32Operand 100]⟩,
      ⟨none, .opIf, [.jumpTarget 2]⟩]⟩,
    ⟨1, 1, [⟨some 1, .opI32Load8ULocalBaseSet4LocalGet4Set4LocalGet4BrIf,
        [rawU32Operand 0, rawU32Operand 0, rawU32Operand 0, rawU32Operand 4, rawU32Operand 0,
          rawU32Operand 8, rawU32Operand 4, .jumpTarget 0]⟩,
      ⟨none, .opLocalGet4I32ConstAddSet4,
        [rawU32Operand 12, rawU32Operand 1, rawU32Operand 12]⟩]⟩,
    ⟨2, 2, [⟨some 2, .other 0, []⟩]⟩]⟩

def zeroBytes : VmState :=
  ⟨fun _ => 0, ⟨200, fun _ => 0⟩, []⟩

private theorem countingLoop_executable : Executable countingLoop := by
  refine ⟨wellFormed_of_entries ?_ (by decide) (by decide), ?_, by decide, ?_,
    target_of_operands (by decide), by decide⟩
  · simp [LoweredKernelFunction.code, countingLoop, OperandsOk, operandCount]
  · simp [LoweredKernelFunction.code, countingLoop, controlOperandCount]
  · simp [LoweredKernelFunction.code, countingLoop]

theorem keepsControlFlow_iff_countingLoop :
    Executable countingLoop ∧ Fires countingLoop 0 .guarded ∧
      (KeepsControlFlow countingLoop 0 zeroBytes ↔
        Undisturbed countingLoop 0 zeroBytes (handlerAt (encode countingLoop) 0)) :=
  ⟨countingLoop_executable, ⟨_, rfl⟩,
    keepsControlFlow_iff countingLoop_executable
      (show Fires countingLoop 0 .guarded from ⟨_, rfl⟩) rfl zeroBytes⟩

/-- The fused op leaves the loop where the input goes on to count. -/
theorem countingLoop_not_keepsControlFlow :
    Executable countingLoop ∧ Fires countingLoop 0 .guarded ∧
      ¬KeepsControlFlow countingLoop 0 zeroBytes := by
  refine ⟨countingLoop_executable, ⟨_, rfl⟩, ?_⟩
  intro hkeeps
  have hfused : (Path.step .stop .stop).run (encode countingLoop) (some 0) zeroBytes =
      .ok (some 5, _) := rfl
  have hunfused : (unfusedPath countingLoop 0 (handlerAt (encode countingLoop) 0)).run
      countingLoop.unfused (some 0) zeroBytes = .ok (some 4, _) := rfl
  unfold KeepsControlFlow at hkeeps
  rw [hfused, hunfused] at hkeeps
  have := hkeeps.1
  revert this
  decide

end Telomere.Optimizer
