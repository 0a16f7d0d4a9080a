import Telomere.Optimizer.Encode

/-!
# What one fusion does

Every fusion replaces the op at the cursor by one with more operands and the same label, and the
handler of the new op jumps over the ops that were absorbed, by as many slots as they take at
that moment.
-/

namespace Telomere.Optimizer

/-- Slots from the first operand to the next op when the handler falls through, as the handler
computes them; `operand i` is the `u32` arm of the operand it reads. Handlers that leave by a
jump only have no entry. -/
def fallthroughAdvance (op : Op) (operand : Nat → Nat) : Option Nat :=
  match op with
  | .opLocalGet4RunSkip => some (operand (1 + operand 0))
  | .opLocalGet4x3I32AddConstBinopI32AddSet4
  | .opLocalGet4x3I32AddConstBinopI32AddTee4 => some (operand 6)
  | .opLocalGet4x3I32AddConstBinopI32AddTee4I32ConstStore => some (operand 8)
  | .opI32LoadStoreLocalBaseLocalGet4
  | .opI32Load16ULocalBaseLocalGet4I32Load16ULocalGet4
  | .opI32Load16SLocalBaseLocalGet4I32Load16SLocalGet4
  | .opLocalGet4I32Load16ULocalBaseLocalGet4I32Load16U
  | .opLocalGet4I32Load16SLocalBaseLocalGet4I32Load16S => some (operand 6)
  | .opI32IncLocalBaseI32Load8ULocalBaseSet4LocalGet4Set4LocalGet4BrIf => some (operand 13)
  | .opI32Load8ULocalBaseSet4LocalGet4Set4LocalGet4BrIfFallthroughLocalGet4 => some (operand 9)
  | .opI32Load8ULocalBaseSet4LocalGet4Set4LocalGet4BrIfTakenLocalGet4 => some 9
  | .opI32LoadLocalBaseTee4I32Load8UTee4BrIf => some 11
  | .opLocalGet4I32ConstAddSet4I32Load8ULocalBaseTee4I32EqzBrIf => some 14
  | .opI32LoadLocalBaseSet4I32Load16ULocalBaseLocalEqSearchLoopFallthrough => some 16
  | .opI32LoadLocalBaseSet4I32Load8ULocalBaseLocalMaskedSearchLoopFallthrough => some 17
  | _ => none

/-- The ops a fusion's handler has to jump over, given the code from the cursor on. -/
def Fusion.skipped (window : List LoweredOp) : Fusion → List LoweredOp
  | .localGet4RunSkip =>
      match window with
      | first :: rest => runAbsorbed ((localGet4RunOperands first).getD []).length rest
      | [] => []
  | .localGet4x3AddConstBinopAddConsumer =>
      match window with
      | _ :: addInner :: constBinop :: addOuter :: consumer :: rest =>
          match consumer.op, constStore rest with
          | .opLocalTee4, some (storeValue, store) =>
              [addInner, constBinop, addOuter, consumer, storeValue, store]
          | _, _ => [addInner, constBinop, addOuter, consumer]
      | _ => []
  | .localGet4BrTable | .localGet4I32ConstAddBrTable | .guarded
  | .load8UpdateBranchTakenLocalGet4 => []
  | .i32Load16ULocalBaseEqSearchLoopEntry | .i32Load8ULocalBaseMaskedSearchLoopEntry =>
      match window with
      | _ :: next :: rest => if (missTarget rest).isSome then [] else [next]
      | _ => []
  | _ => (window.drop 1).take 1

def Fusion.heads : Fusion → List Op
  | .localGet4RunSkip => [.opLocalGet4, .opLocalGet4LocalGet4, .opLocalGet4LocalGet4LocalGet4,
      .opLocalGet4Run]
  | .localGet4x3AddConstBinopAddConsumer => [.opLocalGet4LocalGet4LocalGet4]
  | .i32LoadStoreLocalBaseLocalGet4Pair => [.opI32Load, .opI32Load8S, .opI32Load8U,
      .opI32Load16S, .opI32Load16U]
  | .localGet4LocalBaseI32LoadPair | .localGet4BrTable => [.opLocalGet4]
  | .localBaseI32LoadPairFallthroughLocalGet4 => [.opI32Load16ULocalBaseLocalGet4I32Load16U,
      .opI32Load16SLocalBaseLocalGet4I32Load16S]
  | .localGet4I32ConstAddBrTable => [.opLocalGet4I32ConstAdd]
  | .i32IncLoad8UpdateBranchTail => [.opI32IncLocalBase]
  | .guarded | .localAddSetLoad8EqzBranchTail => [.opLocalGet4I32ConstAddSet4]
  | .localBaseLoadTeeLoad8BranchTail => [.opI32LoadLocalBaseTee4]
  | .load8UpdateBranchTakenLocalGet4 | .load8UpdateBranchFallthroughLocalGet4 =>
      [.opI32Load8ULocalBaseSet4LocalGet4Set4LocalGet4BrIf]
  | .i32Load16ULocalBaseEqSearchLoopEntry =>
      [.opI32LoadLocalBaseSet4I32Load16ULocalBaseLocalEqBrIf]
  | .i32Load8ULocalBaseMaskedSearchLoopEntry =>
      [.opI32LoadLocalBaseSet4I32Load8ULocalBaseLocalMaskedCompareBrIf]

def Fusion.handlers : Fusion → List Op
  | .localGet4RunSkip => [.opLocalGet4RunSkip]
  | .localGet4x3AddConstBinopAddConsumer => [.opLocalGet4x3I32AddConstBinopI32AddSet4,
      .opLocalGet4x3I32AddConstBinopI32AddTee4,
      .opLocalGet4x3I32AddConstBinopI32AddTee4I32ConstStore]
  | .i32LoadStoreLocalBaseLocalGet4Pair => [.opI32LoadStoreLocalBaseLocalGet4]
  | .localGet4LocalBaseI32LoadPair => [.opLocalGet4I32Load16ULocalBaseLocalGet4I32Load16U,
      .opLocalGet4I32Load16SLocalBaseLocalGet4I32Load16S]
  | .localBaseI32LoadPairFallthroughLocalGet4 =>
      [.opI32Load16ULocalBaseLocalGet4I32Load16ULocalGet4,
        .opI32Load16SLocalBaseLocalGet4I32Load16SLocalGet4]
  | .localGet4BrTable => [.opLocalGet4BrTable]
  | .localGet4I32ConstAddBrTable => [.opLocalGet4I32ConstAddBrTable]
  | .i32IncLoad8UpdateBranchTail =>
      [.opI32IncLocalBaseI32Load8ULocalBaseSet4LocalGet4Set4LocalGet4BrIf]
  | .guarded => [.opI32GuardedLoad8ULocalBaseSet4LocalGet4Set4LocalGet4BrIf,
      .opI32GuardedLoad8ULocalBaseSet4LocalGet4Set4LocalGet4BrIfTakenLocalGet4BrTable,
      .opI32GuardedLoad8ULocalBaseSet4LocalGet4Set4LocalGet4BrIfFalseLocalGet4BrTable,
      .opI32GuardedLoad8ULocalBaseSet4LocalGet4Set4LocalGet4BrIfTakenConstCompareBrTable]
  | .localBaseLoadTeeLoad8BranchTail => [.opI32LoadLocalBaseTee4I32Load8UTee4BrIf]
  | .localAddSetLoad8EqzBranchTail =>
      [.opLocalGet4I32ConstAddSet4I32Load8ULocalBaseTee4I32EqzBrIf]
  | .load8UpdateBranchTakenLocalGet4 =>
      [.opI32Load8ULocalBaseSet4LocalGet4Set4LocalGet4BrIfTakenLocalGet4]
  | .load8UpdateBranchFallthroughLocalGet4 =>
      [.opI32Load8ULocalBaseSet4LocalGet4Set4LocalGet4BrIfFallthroughLocalGet4]
  | .i32Load16ULocalBaseEqSearchLoopEntry =>
      [.opI32LoadLocalBaseSet4I32Load16ULocalBaseLocalEqSearchLoop,
        .opI32LoadLocalBaseSet4I32Load16ULocalBaseLocalEqSearchLoopFallthrough]
  | .i32Load8ULocalBaseMaskedSearchLoopEntry =>
      [.opI32LoadLocalBaseSet4I32Load8ULocalBaseLocalMaskedSearchLoop,
        .opI32LoadLocalBaseSet4I32Load8ULocalBaseLocalMaskedSearchLoopFallthrough]

def startsFusion (op : Op) : Bool :=
  Fusion.order.any fun fusion => fusion.heads.contains op

theorem Fusion.mem_order (fusion : Fusion) : fusion ∈ Fusion.order := by
  cases fusion <;> decide

theorem Fusion.handlers_ne {fusion : Fusion} {op : Op} (h : op ∈ fusion.handlers) :
    op ≠ .opLocalGet4 ∧ op ≠ .opEnd ∧ op ≠ .opDrop := by
  refine ⟨?_, ?_, ?_⟩ <;> rintro rfl <;> cases fusion <;> simp [Fusion.handlers] at h

/-- Operands of the handlers with a fixed number of them that take part in a fusion. -/
def operandCount : Op → Option Nat
  | .opLocalGet4 => some 1
  | .opLocalGet4LocalGet4 => some 2
  | .opLocalGet4LocalGet4LocalGet4 => some 3
  | .opI32Add => some 0
  | .opI32ConstBinop => some 2
  | .opLocalSet4 | .opLocalTee4 | .opI32Const | .opI32Store => some 1
  | .opI32Load | .opI32Load8S | .opI32Load8U | .opI32Load16S | .opI32Load16U => some 1
  | .opI32StoreLocalBaseLocalGet4 | .opI32Store8LocalBaseLocalGet4
  | .opI32Store16LocalBaseLocalGet4 => some 4
  | .opI32Load16ULocalBaseLocalGet4I32Load16U
  | .opI32Load16SLocalBaseLocalGet4I32Load16S => some 5
  | .opLocalGet4I32ConstAdd => some 2
  | .opLocalGet4I32ConstAddSet4 => some 3
  | .opI32IncLocalBase => some 5
  | .opI32Load8ULocalBaseSet4LocalGet4Set4LocalGet4BrIf => some 8
  | .opI32LoadLocalBaseTee4 => some 4
  | .opI32Load8UTee4BrIf => some 3
  | .opI32Load8ULocalBaseTee4I32EqzBrIf => some 5
  | .opI32LoadLocalBaseTee4BrIf => some 5
  | .opI32LoadLocalBaseSet4I32Load16ULocalBaseLocalEqBrIf => some 8
  | .opI32LoadLocalBaseSet4I32Load8ULocalBaseLocalMaskedCompareBrIf => some 9
  | _ => none

def OperandsOk (op : LoweredOp) : Prop :=
  match op.op with
  | .opLocalGet4Run => ∃ encodedCount rest, op.operands = .raw encodedCount :: rest ∧
      rest.length = (u32 encodedCount).toNat
  | .opBrTable => ∃ encodedSize rest, op.operands = .raw encodedSize :: rest ∧
      rest.length = (u32 encodedSize).toNat + 1
  | handler => ∀ count, operandCount handler = some count → op.operands.length = count

/-- What instruction selection and `lower::verify` guarantee: every op has its operands, and
exactly the first op of a block carries the block's label. -/
structure WellFormed (kernel : LoweredKernelFunction) : Prop where
  operands : ∀ op ∈ kernel.code, OperandsOk op
  labels : ∀ index op label, kernel.code[index]? = some op →
    (op.label = some label ↔ kernel.labels label = some index)

/-- The labels are right when every labelled op is where its label points and every block has a
first op. -/
theorem wellFormed_of_entries {kernel : LoweredKernelFunction}
    (hoperands : ∀ op ∈ kernel.code, OperandsOk op)
    (hops : ∀ entry ∈ kernel.code.zipIdx, ∀ label ∈ entry.1.label,
      kernel.labels label = some entry.2)
    (hblocks : ∀ entry ∈ blockMapFrom 0 kernel.blocks, ∀ index ∈ kernel.labels entry.label,
      kernel.code[index]?.bind LoweredOp.label = some entry.label) : WellFormed kernel := by
  refine ⟨hoperands, fun index op label hget => ⟨fun hlabel => ?_, fun hlabel => ?_⟩⟩
  · exact hops (op, index) (List.mem_zipIdx_iff_getElem?.mpr hget) label hlabel
  · obtain ⟨entry, hfind, _⟩ := Option.map_eq_some_iff.mp hlabel
    have hmem := List.mem_reverse.mp (List.mem_of_find?_eq_some hfind)
    have hentry : entry.label = label := by simpa using List.find?_some hfind
    have := hblocks entry hmem index (by rw [hentry]; exact hlabel)
    rw [hget, hentry] at this
    exact this

/-- `operand` gives the `u32` arm of every raw operand. -/
def Reads (op : LoweredOp) (operand : Nat → Nat) : Prop :=
  ∀ (index : Nat) (encoded : BitVec 64), op.operands[index]? = some (.raw encoded) →
    operand index = (u32 encoded).toNat

/-- What every fusion does to the op at the cursor: it keeps the label, needs more operands, and
its handler's advance covers the skipped ops as they are at that moment. -/
structure Fused (op : LoweredOp) (rest : List LoweredOp) (fusion : Fusion) (r : LoweredOp) :
    Prop where
  label : r.label = op.label
  grows : op.operands.length < r.operands.length
  head : op.op ∈ fusion.heads
  handler : r.op ∈ fusion.handlers
  skipped : fusion.skipped (op :: rest) <+: rest
  falls : fusion.skipped (op :: rest) ≠ [] → ∀ operand, (fallthroughAdvance r.op operand).isSome
  advance : ∀ operand n, Reads r operand → fallthroughAdvance r.op operand = some n →
    n = r.operands.length + slotCount (fusion.skipped (op :: rest))

/-- The operand `withSkip` adds is the last one and counts itself. -/
private theorem reads_withSkip {label : Option Nat} {op : Op} {operands : List LoweredOperand}
    {absorbed : List LoweredOp} {operand : Nat → Nat}
    (hreads : Reads ⟨label, op, withSkip operands absorbed⟩ operand)
    (hsmall : operands.length + 1 + slotCount absorbed < 2 ^ 32) :
    operand operands.length = (withSkip operands absorbed).length + slotCount absorbed := by
  rw [hreads operands.length (BitVec.ofNat 64 (operands.length + 1 + slotCount absorbed)),
    u32_ofNat hsmall]
  · simp only [withSkip, List.length_append, List.length_singleton]
  · simp only [withSkip, List.getElem?_concat_length, rawU32Operand]

theorem OperandsOk.count {op : LoweredOp} {handler : Op} {count : Nat} (h : OperandsOk op)
    (hop : op.op = handler) (hcount : operandCount handler = some count) :
    op.operands.length = count := by
  unfold OperandsOk at h
  rw [hop] at h
  cases handler <;> first | exact h count hcount | cases hcount

private theorem fused_withSkip {op : LoweredOp} {rest : List LoweredOp} {fusion : Fusion}
    {handler : Op} {operands : List LoweredOperand} {absorbed : List LoweredOp}
    (hskipped : fusion.skipped (op :: rest) = absorbed) (hfront : absorbed <+: rest)
    (hgrows : op.operands.length ≤ operands.length)
    (hhandler : op.op ∈ fusion.heads ∧ handler ∈ fusion.handlers)
    (hadvance : ∀ operand, fallthroughAdvance handler operand = some (operand operands.length))
    (hsmall : operands.length + 1 + slotCount absorbed < 2 ^ 32) :
    Fused op rest fusion ⟨op.label, handler, withSkip operands absorbed⟩ := by
  refine ⟨rfl, ?_, hhandler.1, hhandler.2, ?_, ?_, ?_⟩
  · simp only [withSkip, List.length_append, List.length_singleton]
    omega
  · rw [hskipped]
    exact hfront
  · intro _ operand
    rw [hadvance]
    rfl
  · intro operand n hreads hn
    rw [hadvance, reads_withSkip hreads hsmall] at hn
    rw [hskipped]
    exact (Option.some.inj hn).symm

private theorem prefix_singleton (op : LoweredOp) (rest : List LoweredOp) : [op] <+: op :: rest :=
  ⟨rest, rfl⟩

private theorem fuseLocalGet4BrTable_fused {op r : LoweredOp} {rest : List LoweredOp}
    (h : fuseLocalGet4BrTable (op :: rest) = some r)
    (hok : ∀ o ∈ op :: rest, OperandsOk o) : Fused op rest .localGet4BrTable r := by
  cases rest with
  | nil => cases h
  | cons table rest =>
      simp only [fuseLocalGet4BrTable] at h
      split at h
      · cases h
      · next hops =>
          push Not at hops
          obtain ⟨addr, haddr, h⟩ := Option.bind_eq_some_iff.mp h
          obtain rfl := Option.some.inj h
          have hone := (hok op (by simp)).count hops.1 rfl
          refine ⟨rfl, ?_, by simp [Fusion.heads, hops], by simp [Fusion.handlers], List.nil_prefix,
            by simp [Fusion.skipped],
            by simp [fallthroughAdvance]⟩
          · have htable := hok table (by simp)
            unfold OperandsOk at htable
            rw [hops.2] at htable
            obtain ⟨size, targets, htargets, hlen⟩ := htable
            simp only [hone, List.length_cons, htargets]
            omega

private theorem fuseLocalGet4I32ConstAddBrTable_fused {op r : LoweredOp} {rest : List LoweredOp}
    (h : fuseLocalGet4I32ConstAddBrTable (op :: rest) = some r)
    (hok : ∀ o ∈ op :: rest, OperandsOk o) : Fused op rest .localGet4I32ConstAddBrTable r := by
  cases rest with
  | nil => cases h
  | cons table rest =>
      simp only [fuseLocalGet4I32ConstAddBrTable] at h
      split at h
      · cases h
      · next hops =>
          push Not at hops
          have htwo := (hok op (by simp)).count hops.1 rfl
          split at h
          · next addr imm tail hoperands =>
              obtain rfl := Option.some.inj h
              refine ⟨rfl, ?_, by simp [Fusion.heads, hops], by simp [Fusion.handlers], List.nil_prefix,
            by simp [Fusion.skipped],
                by simp [fallthroughAdvance]⟩
              have htable := hok table (by simp)
              unfold OperandsOk at htable
              rw [hops.2] at htable
              obtain ⟨size, targets, htargets, hlen⟩ := htable
              simp only [htwo, List.length_cons, htargets]
              omega
          · cases h

private theorem fuseI32LoadStoreLocalBaseLocalGet4Pair_fused {op r : LoweredOp}
    {rest : List LoweredOp} (h : fuseI32LoadStoreLocalBaseLocalGet4Pair (op :: rest) = some r)
    (hok : ∀ o ∈ op :: rest, OperandsOk o) :
    Fused op rest .i32LoadStoreLocalBaseLocalGet4Pair r := by
  cases rest with
  | nil => cases h
  | cons store rest =>
      obtain ⟨loadKind, hload, h⟩ := Option.bind_eq_some_iff.mp h
      obtain ⟨storeKind, hstore, h⟩ := Option.bind_eq_some_iff.mp h
      have hone : op.operands.length = 1 := by
        have hop := hok op (by simp)
        cases hh : op.op <;> rw [hh] at hload <;> first | exact hop.count hh rfl | cases hload
      have hfour : store.operands.length = 4 := by
        have hop := hok store (by simp)
        cases hh : store.op <;> rw [hh] at hstore <;>
          first | exact hop.count hh rfl | cases hstore
      split at h
      · obtain rfl := Option.some.inj h
        refine fused_withSkip rfl (prefix_singleton store rest) ?_ ?_ (fun _ => rfl) ?_
        · simp [hone]
        · cases hh : op.op <;> rw [hh] at hload <;> cases hload <;>
            simp [Fusion.heads, Fusion.handlers]
        · simp [slotLen, hfour]
      · cases h

private theorem loadPair_count {op : LoweredOp} {fused : Op} (hok : OperandsOk op)
    (h : localBaseI32LoadPairLocalGet4Family op.op = some fused ∨
      localGet4LocalBaseI32LoadPairFamily op.op = some fused) : op.operands.length = 5 := by
  cases hh : op.op <;> rw [hh] at h <;>
    first | exact hok.count hh rfl | (obtain h | h := h <;> cases h)

private theorem fuseLocalBaseI32LoadPairFallthroughLocalGet4_fused {op r : LoweredOp}
    {rest : List LoweredOp}
    (h : fuseLocalBaseI32LoadPairFallthroughLocalGet4 (op :: rest) = some r)
    (hok : ∀ o ∈ op :: rest, OperandsOk o) :
    Fused op rest .localBaseI32LoadPairFallthroughLocalGet4 r := by
  cases rest with
  | nil => cases h
  | cons get rest =>
      simp only [fuseLocalBaseI32LoadPairFallthroughLocalGet4] at h
      split at h
      · cases h
      · next hget =>
          obtain ⟨fused, hfused, h⟩ := Option.bind_eq_some_iff.mp h
          obtain ⟨preserved, hpreserved, h⟩ := Option.bind_eq_some_iff.mp h
          obtain rfl := Option.some.inj h
          have hfive := loadPair_count (hok op (by simp)) (Or.inl hfused)
          have hone := (hok get (by simp)).count (not_not.mp hget) rfl
          refine fused_withSkip rfl (prefix_singleton get rest) ?_ ?_ ?_ ?_
          · simp
          · cases hh : op.op <;> rw [hh] at hfused <;> cases hfused <;>
              simp [Fusion.heads, Fusion.handlers]
          · intro operand
            cases hh : op.op <;> rw [hh] at hfused <;> cases hfused <;>
              simp [fallthroughAdvance, hfive]
          · simp [slotLen, hfive, hone]

private theorem fuseLocalGet4LocalBaseI32LoadPair_fused {op r : LoweredOp}
    {rest : List LoweredOp} (h : fuseLocalGet4LocalBaseI32LoadPair (op :: rest) = some r)
    (hok : ∀ o ∈ op :: rest, OperandsOk o) :
    Fused op rest .localGet4LocalBaseI32LoadPair r := by
  cases rest with
  | nil => cases h
  | cons pair rest =>
      simp only [fuseLocalGet4LocalBaseI32LoadPair] at h
      split at h
      · cases h
      · next hget =>
          obtain ⟨fused, hfused, h⟩ := Option.bind_eq_some_iff.mp h
          obtain ⟨preserved, hpreserved, h⟩ := Option.bind_eq_some_iff.mp h
          obtain rfl := Option.some.inj h
          have hfive := loadPair_count (hok pair (by simp)) (Or.inr hfused)
          have hone := (hok op (by simp)).count (not_not.mp hget) rfl
          refine fused_withSkip rfl (prefix_singleton pair rest) ?_ ?_ ?_ ?_
          · simp [hone]
          · cases hh : pair.op <;> rw [hh] at hfused <;> cases hfused <;>
              simpa [Fusion.heads, Fusion.handlers] using hget
          · intro operand
            cases hh : pair.op <;> rw [hh] at hfused <;> cases hfused <;>
              simp [fallthroughAdvance, hfive]
          · simp [slotLen, hfive]

private theorem load8UpdateOperands_length {branch : LoweredOp} {tail : List LoweredOperand}
    (h : load8UpdateOperands branch = some tail) : tail.length = 8 := by
  unfold load8UpdateOperands at h
  split at h
  · obtain rfl := Option.some.inj h
    rfl
  · cases h

private theorem fuseI32IncLoad8UpdateBranchTail_fused {op r : LoweredOp} {rest : List LoweredOp}
    (h : fuseI32IncLoad8UpdateBranchTail (op :: rest) = some r)
    (hok : ∀ o ∈ op :: rest, OperandsOk o) : Fused op rest .i32IncLoad8UpdateBranchTail r := by
  cases rest with
  | nil => cases h
  | cons branch rest =>
      simp only [fuseI32IncLoad8UpdateBranchTail] at h
      split at h
      · cases h
      · next hops =>
          push Not at hops
          have hfive := (hok op (by simp)).count hops.1 rfl
          have height := (hok branch (by simp)).count hops.2 rfl
          split at h
          · obtain ⟨tail, htail, h⟩ := Option.bind_eq_some_iff.mp h
            obtain rfl := Option.some.inj h
            have hlen := load8UpdateOperands_length htail
            refine fused_withSkip rfl (prefix_singleton branch rest) ?_
              (by simp [Fusion.heads, Fusion.handlers, hops]) ?_ ?_
            · simp [hfive]
            · intro operand
              simp [fallthroughAdvance, hlen]
            · simp [slotLen, hlen, height]
          · cases h

private theorem fuseGuardedLoad8UpdateBranchTail_spec {window : List LoweredOp} {r : LoweredOp}
    (h : fuseGuardedLoad8UpdateBranchTail window = some r) (hok : ∀ o ∈ window, OperandsOk o) :
    r.op = .opI32GuardedLoad8ULocalBaseSet4LocalGet4Set4LocalGet4BrIf ∧
      ∀ op rest, window = op :: rest → r.label = op.label ∧
        op.op = .opLocalGet4I32ConstAddSet4 ∧ op.operands.length < r.operands.length := by
  unfold fuseGuardedLoad8UpdateBranchTail at h
  split at h
  · next nextSet guardCmp guardIf branch tail =>
      split at h
      · cases h
      · next hops =>
          push Not at hops
          have hthree := (hok nextSet (by simp)).count hops.1 rfl
          split at h
          · split at h
            · obtain ⟨falseTarget, _, h⟩ := Option.bind_eq_some_iff.mp h
              obtain ⟨update, hupdate, h⟩ := Option.bind_eq_some_iff.mp h
              obtain rfl := Option.some.inj h
              refine ⟨rfl, ?_⟩
              intro op rest heq
              obtain ⟨rfl, _⟩ := List.cons.inj heq
              exact ⟨rfl, hops.1, by simp [hthree, load8UpdateOperands_length hupdate]⟩
            · cases h
          · cases h
  · cases h

/-- The longer guarded forms extend the plain one; all of them leave by a jump. -/
private theorem fuseGuarded_spec {code : List LoweredOp} {cursor : Nat} {labels : LabelIndices}
    {r : LoweredOp} (h : fuseGuarded code cursor labels = some r)
    (hok : ∀ o ∈ code.drop cursor, OperandsOk o) :
    ∃ base extra, fuseGuardedLoad8UpdateBranchTail (code.drop cursor) = some base ∧
      r.label = base.label ∧ r.operands = base.operands ++ extra ∧
      r.op ∈ Fusion.guarded.handlers ∧ ∀ operand, fallthroughAdvance r.op operand = none := by
  unfold fuseGuarded at h
  rcases Option.or_eq_some_iff.mp h with h | ⟨_, h⟩
  · obtain ⟨base, hbase, h⟩ := Option.bind_eq_some_iff.mp h
    obtain ⟨label, _, h⟩ := Option.bind_eq_some_iff.mp h
    obtain ⟨target, _, h⟩ := Option.bind_eq_some_iff.mp h
    split at h
    · next compare branch _ _ =>
        split at h
        · cases h
        · obtain ⟨branchTarget, _, h⟩ := Option.bind_eq_some_iff.mp h
          obtain ⟨index, _, h⟩ := Option.bind_eq_some_iff.mp h
          obtain ⟨table, _, h⟩ := Option.bind_eq_some_iff.mp h
          obtain rfl := Option.some.inj h
          exact ⟨base, compare.operands ++ ([LoweredOperand.jumpTarget branchTarget] ++ table),
            hbase, rfl, by simp, by simp [Fusion.handlers], fun _ => rfl⟩
    · cases h
  rcases Option.or_eq_some_iff.mp h with h | ⟨_, h⟩
  · obtain ⟨base, hbase, h⟩ := Option.bind_eq_some_iff.mp h
    obtain ⟨label, _, h⟩ := Option.bind_eq_some_iff.mp h
    obtain ⟨target, _, h⟩ := Option.bind_eq_some_iff.mp h
    obtain ⟨table, _, h⟩ := Option.bind_eq_some_iff.mp h
    obtain rfl := Option.some.inj h
    exact ⟨base, table, hbase, rfl, rfl, by simp [Fusion.handlers], fun _ => rfl⟩
  rcases Option.or_eq_some_iff.mp h with h | ⟨_, h⟩
  · obtain ⟨base, hbase, h⟩ := Option.bind_eq_some_iff.mp h
    obtain ⟨label, _, h⟩ := Option.bind_eq_some_iff.mp h
    obtain ⟨target, _, h⟩ := Option.bind_eq_some_iff.mp h
    obtain ⟨table, _, h⟩ := Option.bind_eq_some_iff.mp h
    obtain rfl := Option.some.inj h
    exact ⟨base, table, hbase, rfl, rfl, by simp [Fusion.handlers], fun _ => rfl⟩
  · have hop := (fuseGuardedLoad8UpdateBranchTail_spec h hok).1
    refine ⟨r, [], h, rfl, by simp, ?_, ?_⟩
    · rw [hop]
      simp [Fusion.handlers]
    · intro operand
      rw [hop]; rfl

private theorem fuseGuarded_fused {code rest : List LoweredOp} {cursor : Nat}
    {labels : LabelIndices} {op r : LoweredOp} (h : fuseGuarded code cursor labels = some r)
    (hwindow : code.drop cursor = op :: rest) (hok : ∀ o ∈ op :: rest, OperandsOk o) :
    Fused op rest .guarded r := by
  rw [← hwindow] at hok
  obtain ⟨base, extra, hbase, hlabel, hoperands, hhandler, hadvance⟩ := fuseGuarded_spec h hok
  obtain ⟨hbaseLabel, hop, hgrows⟩ :=
    (fuseGuardedLoad8UpdateBranchTail_spec hbase hok).2 op rest hwindow
  refine ⟨hlabel.trans hbaseLabel, ?_, by simp [Fusion.heads, hop], hhandler, List.nil_prefix,
    by simp [Fusion.skipped], ?_⟩
  · rw [hoperands, List.length_append]
    omega
  · intro operand n _ hn
    rw [hadvance] at hn
    cases hn

private theorem fuseLocalBaseLoadTeeLoad8BranchTail_fused {op r : LoweredOp}
    {rest : List LoweredOp} (h : fuseLocalBaseLoadTeeLoad8BranchTail (op :: rest) = some r)
    (hok : ∀ o ∈ op :: rest, OperandsOk o) :
    Fused op rest .localBaseLoadTeeLoad8BranchTail r := by
  cases rest with
  | nil => cases h
  | cons loadBranch rest =>
      simp only [fuseLocalBaseLoadTeeLoad8BranchTail] at h
      split at h
      · cases h
      · next hops =>
          push Not at hops
          have hfour := (hok op (by simp)).count hops.1 rfl
          have hthree := (hok loadBranch (by simp)).count hops.2 rfl
          split at h
          · obtain ⟨target, _, h⟩ := Option.bind_eq_some_iff.mp h
            obtain rfl := Option.some.inj h
            refine ⟨rfl, by simp [hfour], by simp [Fusion.heads, hops], by simp [Fusion.handlers],
              prefix_singleton loadBranch rest,
              fun _ _ => rfl, ?_⟩
            intro operand n _ hn
            simp only [fallthroughAdvance, Option.some.injEq] at hn
            simp [← hn, Fusion.skipped, slotLen, hthree]
          · cases h

private theorem fuseLocalAddSetLoad8EqzBranchTail_fused {op r : LoweredOp}
    {rest : List LoweredOp} (h : fuseLocalAddSetLoad8EqzBranchTail (op :: rest) = some r)
    (hok : ∀ o ∈ op :: rest, OperandsOk o) :
    Fused op rest .localAddSetLoad8EqzBranchTail r := by
  cases rest with
  | nil => cases h
  | cons loadBranch rest =>
      simp only [fuseLocalAddSetLoad8EqzBranchTail] at h
      split at h
      · cases h
      · next hops =>
          push Not at hops
          have hthree := (hok op (by simp)).count hops.1 rfl
          have hfive := (hok loadBranch (by simp)).count hops.2 rfl
          split at h
          · obtain ⟨target, _, h⟩ := Option.bind_eq_some_iff.mp h
            obtain rfl := Option.some.inj h
            refine ⟨rfl, by simp [hthree], by simp [Fusion.heads, hops], by simp [Fusion.handlers],
              prefix_singleton loadBranch rest,
              fun _ _ => rfl, ?_⟩
            intro operand n _ hn
            simp only [fallthroughAdvance, Option.some.injEq] at hn
            simp [← hn, Fusion.skipped, slotLen, hfive]
          · cases h

private theorem fuseLoad8UpdateBranchFallthroughLocalGet4_fused {op r : LoweredOp}
    {rest : List LoweredOp}
    (h : fuseLoad8UpdateBranchFallthroughLocalGet4 (op :: rest) = some r)
    (hok : ∀ o ∈ op :: rest, OperandsOk o) :
    Fused op rest .load8UpdateBranchFallthroughLocalGet4 r := by
  cases rest with
  | nil => cases h
  | cons get rest =>
      simp only [fuseLoad8UpdateBranchFallthroughLocalGet4] at h
      split at h
      · cases h
      · next hops =>
          push Not at hops
          have height := (hok op (by simp)).count hops.1 rfl
          have hone := (hok get (by simp)).count hops.2 rfl
          obtain ⟨preserved, _, h⟩ := Option.bind_eq_some_iff.mp h
          obtain rfl := Option.some.inj h
          refine fused_withSkip rfl (prefix_singleton get rest) ?_
            (by simp [Fusion.heads, Fusion.handlers, hops]) ?_ ?_
          · simp
          · intro operand
            simp [fallthroughAdvance, height]
          · simp [slotLen, height, hone]

/-- The two ops of a search loop and the operands of the op that replaces the first. -/
structure SearchWindow (compareOp loopOp fallthroughOp : Op)
    (fields : List LoweredOperand → Option (List LoweredOperand)) (compare next : LoweredOp)
    (rest : List LoweredOp) (r : LoweredOp) : Prop where
  compareHandler : compare.op = compareOp
  nextHandler : next.op = .opI32LoadLocalBaseTee4BrIf
  back : (opJumpTarget next).isSome
  base : sameLocalOperand compare.operands[0]? next.operands[0]?
  dst : sameLocalOperand compare.operands[0]? next.operands[3]?
  label : r.label = compare.label
  operands : ∃ taken delta memarg target, fields compare.operands = some taken ∧
    next.operands[1]? = some delta ∧ next.operands[2]? = some memarg ∧
    opJumpTarget compare = some target ∧
    ((∃ miss label, missTarget rest = some miss ∧ opJumpTarget miss = some label ∧
        r.op = loopOp ∧
        r.operands =
          taken ++ [delta, memarg, LoweredOperand.jumpTarget target, .jumpTarget label]) ∨
      (missTarget rest = none ∧ r.op = fallthroughOp ∧
        r.operands = taken ++ [delta, memarg, LoweredOperand.jumpTarget target]))

theorem fuseSearchLoopEntry_spec {compareOp loopOp fallthroughOp : Op} {r : LoweredOp}
    {fields : List LoweredOperand → Option (List LoweredOperand)} {window : List LoweredOp}
    (h : fuseSearchLoopEntry compareOp loopOp fallthroughOp fields window = some r) :
    ∃ compare next rest, window = compare :: next :: rest ∧
      SearchWindow compareOp loopOp fallthroughOp fields compare next rest r := by
  unfold fuseSearchLoopEntry at h
  split at h
  · next compare next rest =>
      split at h
      · cases h
      · next hops =>
          push Not at hops
          split at h
          · cases h
          · next hsame =>
              simp only [Bool.not_eq_true', Bool.or_eq_true, not_or,
                Bool.not_eq_false] at hsame
              obtain ⟨taken, htaken, h⟩ := Option.bind_eq_some_iff.mp h
              obtain ⟨delta, hdelta, h⟩ := Option.bind_eq_some_iff.mp h
              obtain ⟨memarg, hmemarg, h⟩ := Option.bind_eq_some_iff.mp h
              obtain ⟨target, htarget, h⟩ := Option.bind_eq_some_iff.mp h
              have hback : (opJumpTarget next).isSome := Option.isSome_iff_ne_none.mpr (by simpa using hops.2.2)
              refine ⟨compare, next, rest, rfl, ?_⟩
              split at h
              · next miss hmiss =>
                  obtain ⟨label, hlabel, h⟩ := Option.bind_eq_some_iff.mp h
                  obtain rfl := Option.some.inj h
                  exact ⟨hops.1, hops.2.1, hback, hsame.1, hsame.2, rfl, taken, delta, memarg,
                    target, htaken, hdelta, hmemarg, htarget,
                    Or.inl ⟨miss, label, hmiss, hlabel, rfl, by simp⟩⟩
              · next hmiss =>
                  obtain rfl := Option.some.inj h
                  exact ⟨hops.1, hops.2.1, hback, hsame.1, hsame.2, rfl, taken, delta, memarg,
                    target, htaken, hdelta, hmemarg, htarget, Or.inr ⟨hmiss, rfl, rfl⟩⟩
  · cases h

private theorem fuseSearchLoopEntry_fused {op r : LoweredOp} {rest : List LoweredOp}
    {fusion : Fusion} {compareOp loopOp fallthroughOp : Op}
    {fields : List LoweredOperand → Option (List LoweredOperand)} (count : Nat)
    (h : fuseSearchLoopEntry compareOp loopOp fallthroughOp fields (op :: rest) = some r)
    (hok : ∀ o ∈ op :: rest, OperandsOk o)
    (hcount : operandCount compareOp = some (count + 1))
    (hfields : ∀ operands taken, fields operands = some taken → taken.length = count)
    (hskipped : ∀ next tail, rest = next :: tail →
      fusion.skipped (op :: rest) = if (missTarget tail).isSome then [] else [next])
    (hhead : compareOp ∈ fusion.heads) (hloop : loopOp ∈ fusion.handlers ∧
      ∀ operand, fallthroughAdvance loopOp operand = none)
    (hfall : fallthroughOp ∈ fusion.handlers ∧
      ∀ operand, fallthroughAdvance fallthroughOp operand = some (count + 9)) :
    Fused op rest fusion r := by
  obtain ⟨compare, next, tail, hwindow, hspec⟩ := fuseSearchLoopEntry_spec h
  obtain ⟨rfl, rfl⟩ := List.cons.inj hwindow
  have hskip := hskipped next tail rfl
  have hop := (hok op (by simp)).count hspec.compareHandler hcount
  have hfive := (hok next (by simp)).count hspec.nextHandler rfl
  obtain ⟨taken, delta, memarg, target, htaken, _, _, _, hcase⟩ := hspec.operands
  have hlen := hfields _ _ htaken
  rcases hcase with ⟨miss, label, hmiss, _, hop', hoperands⟩ | ⟨hmiss, hop', hoperands⟩
  · refine ⟨hspec.label, by simp [hoperands, hop, hlen], hspec.compareHandler ▸ hhead,
      hop' ▸ hloop.1, ?_, ?_, ?_⟩
    · rw [hskip, hmiss]
      exact List.nil_prefix
    · rw [hskip, hmiss]
      simp
    · intro operand n _ hn
      rw [hop', hloop.2] at hn
      cases hn
  · refine ⟨hspec.label, by simp [hoperands, hop, hlen], hspec.compareHandler ▸ hhead,
      hop' ▸ hfall.1, ?_, ?_, ?_⟩
    · rw [hskip, hmiss]
      exact prefix_singleton next tail
    · intro _ operand
      rw [hop', hfall.2]
      rfl
    · intro operand n _ hn
      rw [hop', hfall.2] at hn
      rw [hskip, hmiss, ← Option.some.inj hn]
      simp [hoperands, slotLen, hlen, hfive]

private theorem takeSeven_length {operands taken : List LoweredOperand}
    (h : takeSeven operands = some taken) : taken.length = 7 := by
  unfold takeSeven at h
  split at h
  · obtain rfl := Option.some.inj h
    rfl
  · cases h

private theorem takeEight_length {operands taken : List LoweredOperand}
    (h : takeEight operands = some taken) : taken.length = 8 := by
  unfold takeEight at h
  split at h
  · obtain rfl := Option.some.inj h
    rfl
  · cases h

private theorem fuseI32Load16ULocalBaseEqSearchLoopEntry_fused {op r : LoweredOp}
    {rest : List LoweredOp}
    (h : fuseI32Load16ULocalBaseEqSearchLoopEntry (op :: rest) = some r)
    (hok : ∀ o ∈ op :: rest, OperandsOk o) :
    Fused op rest .i32Load16ULocalBaseEqSearchLoopEntry r := by
  refine fuseSearchLoopEntry_fused 7 h hok rfl (fun _ _ => takeSeven_length) ?_
    (by simp [Fusion.heads]) ⟨by simp [Fusion.handlers], fun _ => rfl⟩
    ⟨by simp [Fusion.handlers], fun _ => rfl⟩
  rintro next tail rfl
  rfl

private theorem fuseI32Load8ULocalBaseMaskedSearchLoopEntry_fused {op r : LoweredOp}
    {rest : List LoweredOp}
    (h : fuseI32Load8ULocalBaseMaskedSearchLoopEntry (op :: rest) = some r)
    (hok : ∀ o ∈ op :: rest, OperandsOk o) :
    Fused op rest .i32Load8ULocalBaseMaskedSearchLoopEntry r := by
  refine fuseSearchLoopEntry_fused 8 h hok rfl (fun _ _ => takeEight_length) ?_
    (by simp [Fusion.heads]) ⟨by simp [Fusion.handlers], fun _ => rfl⟩
    ⟨by simp [Fusion.handlers], fun _ => rfl⟩
  rintro next tail rfl
  rfl

private theorem fuseLocalGet4x3_fused {op r : LoweredOp} {rest : List LoweredOp}
    (h : fuseLocalGet4x3AddConstBinopAddConsumer (op :: rest) = some r)
    (hok : ∀ o ∈ op :: rest, OperandsOk o) :
    Fused op rest .localGet4x3AddConstBinopAddConsumer r := by
  unfold fuseLocalGet4x3AddConstBinopAddConsumer at h
  split at h
  · next get3 addInner constBinop addOuter consumer tail heq =>
      obtain ⟨rfl, rfl⟩ := List.cons.inj heq
      split at h
      · cases h
      split at h
      · cases h
      next hops =>
        push Not at hops
        have hin := (hok addInner (by simp)).count hops.2.1 rfl
        have hout := (hok addOuter (by simp)).count hops.2.2.2 rfl
        split at h
        · next storeValue store htee hstore =>
            split at h
            · next a b c kind rhs dst value memarg hget hbinop hcons hvalue hmem =>
                obtain rfl := Option.some.inj h
                have hskip : Fusion.skipped (op :: addInner :: constBinop :: addOuter ::
                    consumer :: tail) .localGet4x3AddConstBinopAddConsumer =
                    [addInner, constBinop, addOuter, consumer, storeValue, store] := by
                  simp only [Fusion.skipped, htee, hstore]
                refine fused_withSkip hskip ?_ ?_ (by simp [Fusion.heads, Fusion.handlers, hops])
                  (fun _ => rfl) ?_
                · unfold constStore at hstore
                  split at hstore
                  · split at hstore
                    · simp only [Option.some.injEq, Prod.mk.injEq] at hstore
                      obtain ⟨rfl, rfl⟩ := hstore
                      exact ⟨_, rfl⟩
                    · cases hstore
                  · cases hstore
                · simp [hget]
                · simp [slotLen, hin, hout, hbinop, hcons, hvalue, hmem]
            · cases h
        · next htee hstore =>
            split at h
            · next a b c kind rhs dst hget hbinop hcons =>
                obtain rfl := Option.some.inj h
                have hskip : Fusion.skipped (op :: addInner :: constBinop :: addOuter ::
                    consumer :: tail) .localGet4x3AddConstBinopAddConsumer =
                    [addInner, constBinop, addOuter, consumer] := by
                  simp only [Fusion.skipped, htee, hstore]
                refine fused_withSkip hskip ⟨tail, rfl⟩ ?_
                  (by simp [Fusion.heads, Fusion.handlers, hops]) (fun _ => rfl) ?_
                · simp [hget]
                · simp [slotLen, hin, hout, hbinop, hcons]
            · cases h
        · next hset =>
            split at h
            · next a b c kind rhs dst hget hbinop hcons =>
                obtain rfl := Option.some.inj h
                have hskip : Fusion.skipped (op :: addInner :: constBinop :: addOuter ::
                    consumer :: tail) .localGet4x3AddConstBinopAddConsumer =
                    [addInner, constBinop, addOuter, consumer] := by
                  simp only [Fusion.skipped, hset]
                refine fused_withSkip hskip ⟨tail, rfl⟩ ?_
                  (by simp [Fusion.heads, Fusion.handlers, hops]) (fun _ => rfl) ?_
                · simp [hget]
                · simp [slotLen, hin, hout, hbinop, hcons]
            · cases h
        · cases h
  · cases h

private theorem localGet4RunOperands_length {op : LoweredOp} {locals : List LoweredOperand}
    (h : localGet4RunOperands op = some locals) (hok : OperandsOk op) :
    1 ≤ locals.length ∧ op.operands.length ≤ 1 + locals.length := by
  unfold localGet4RunOperands at h
  split at h
  · next hop hoperands =>
      obtain rfl := Option.some.inj h
      have := hok.count hop rfl
      simp [this]
  · next hop hoperands =>
      obtain rfl := Option.some.inj h
      have := hok.count hop rfl
      simp [this]
  · next hop hoperands =>
      obtain rfl := Option.some.inj h
      have := hok.count hop rfl
      simp [this]
  · next encodedCount rest hop hoperands =>
      unfold OperandsOk at hok
      rw [hop] at hok
      obtain ⟨encodedCount', rest', heq, hlen⟩ := hok
      rw [hoperands] at heq
      obtain ⟨hcount, rfl⟩ := List.cons.inj heq
      obtain rfl := LoweredOperand.raw.inj hcount
      dsimp only at h
      split at h
      · cases h
      · next hne =>
          push Not at hne
          obtain rfl := Option.some.inj h
          simp only [hoperands, List.length_cons, List.length_take]
          omega
  · cases h

private theorem localGet4RunOperands_head {op : LoweredOp} {locals : List LoweredOperand}
    (h : localGet4RunOperands op = some locals) : op.op ∈ Fusion.localGet4RunSkip.heads := by
  unfold localGet4RunOperands at h
  split at h <;> simp_all [Fusion.heads]

private theorem runAbsorbed_prefix (locals : Nat) (rest : List LoweredOp) :
    runAbsorbed locals rest <+: rest := by
  induction rest generalizing locals with
  | nil => exact List.nil_prefix
  | cons op rest ih =>
      unfold runAbsorbed
      split
      · exact List.nil_prefix
      · split
        · exact List.nil_prefix
        · split
          · exact List.nil_prefix
          · exact List.cons_prefix_cons.mpr ⟨rfl, ih _⟩

/-- A run stays within sixteen locals, and its ops take at most three slots for each. -/
private theorem runAbsorbed_bound (locals : Nat) (rest : List LoweredOp)
    (hok : ∀ o ∈ rest, OperandsOk o) (hlocals : locals ≤ 16) :
    locals + (runLocals (runAbsorbed locals rest)).length ≤ 16 ∧
      slotCount (runAbsorbed locals rest) ≤
        3 * (runLocals (runAbsorbed locals rest)).length := by
  induction rest generalizing locals with
  | nil => simp [runAbsorbed, runLocals, hlocals]
  | cons op rest ih =>
      unfold runAbsorbed
      split
      · simp [runLocals, hlocals]
      · split
        · simp [runLocals, hlocals]
        · next next hnext =>
            split
            · simp [runLocals, hlocals]
            · next hfits =>
                have hrest := ih (locals + next.length)
                  (fun o ho => hok o (List.mem_cons_of_mem _ ho)) (by omega)
                have hlen := localGet4RunOperands_length hnext (hok op (by simp))
                have hcons : runLocals (op :: runAbsorbed (locals + next.length) rest) =
                    next ++ runLocals (runAbsorbed (locals + next.length) rest) := by
                  simp [runLocals, hnext]
                rw [hcons, slotCount_cons, slotLen, List.length_append]
                omega

private theorem runAbsorbed_full {locals : Nat} {rest : List LoweredOp}
    (h : runAbsorbed locals rest ≠ []) : locals ≤ 16 := by
  by_contra hlt
  apply h
  cases rest with
  | nil => rfl
  | cons op rest =>
      have hfull : 16 ≤ locals := by omega
      simp [runAbsorbed, hfull]

private theorem fuseLocalGet4RunSkip_fused {op r : LoweredOp} {rest : List LoweredOp}
    (h : fuseLocalGet4RunSkip (op :: rest) = some r)
    (hok : ∀ o ∈ op :: rest, OperandsOk o) : Fused op rest .localGet4RunSkip r := by
  obtain ⟨head, hhead, h⟩ := Option.bind_eq_some_iff.mp h
  dsimp only [List.tail_cons] at h
  split at h
  · cases h
  · next hne =>
      push Not at hne
      obtain rfl := Option.some.inj h
      have hlen := localGet4RunOperands_length hhead (hok op (by simp))
      have hbound := runAbsorbed_bound head.length rest
        (fun o ho => hok o (List.mem_cons_of_mem _ ho)) (runAbsorbed_full hne.2)
      have hskip : Fusion.skipped (op :: rest) .localGet4RunSkip =
          runAbsorbed head.length rest := by
        simp [Fusion.skipped, hhead]
      have hcount : (head ++ runLocals (runAbsorbed head.length rest)).length < 2 ^ 32 := by
        rw [List.length_append]
        omega
      refine ⟨rfl, ?_, localGet4RunOperands_head hhead, by simp [Fusion.handlers], ?_,
        fun _ _ => rfl, ?_⟩
      · simp only [withSkip, List.length_append, List.length_cons, List.length_nil]
        omega
      · rw [hskip]
        exact runAbsorbed_prefix _ _
      · intro operand n hreads hn
        -- the count operand leads the handler to the skip operand
        have hzero : operand 0 = (head ++ runLocals (runAbsorbed head.length rest)).length := by
          rw [hreads 0 (BitVec.ofNat 64
            (head ++ runLocals (runAbsorbed head.length rest)).length) rfl, u32_ofNat hcount]
        have hlast := reads_withSkip hreads (by
          simp only [List.length_cons, List.length_append]
          omega)
        rw [List.length_cons, Nat.add_comm] at hlast
        rw [fallthroughAdvance, hzero, hlast] at hn
        rw [hskip]
        exact (Option.some.inj hn).symm

private theorem fuseLoad8UpdateBranchTakenLocalGet4_fused {code rest : List LoweredOp}
    {cursor : Nat} {labels : LabelIndices} {op r : LoweredOp}
    (h : fuseLoad8UpdateBranchTakenLocalGet4 code cursor labels = some r)
    (hwindow : code.drop cursor = op :: rest) (hok : ∀ o ∈ op :: rest, OperandsOk o) :
    Fused op rest .load8UpdateBranchTakenLocalGet4 r := by
  have hget : code[cursor]? = some op := by
    rw [← List.head?_drop, hwindow]
    rfl
  obtain ⟨branch, hbranch, h⟩ := Option.bind_eq_some_iff.mp h
  obtain rfl : op = branch := Option.some.inj (hget.symm.trans hbranch)
  split at h
  · cases h
  · next hop =>
      have height := (hok op (by simp)).count (not_not.mp hop) rfl
      obtain ⟨label, _, h⟩ := Option.bind_eq_some_iff.mp h
      obtain ⟨target, _, h⟩ := Option.bind_eq_some_iff.mp h
      split at h
      · cases h
      · obtain ⟨targetOp, _, h⟩ := Option.bind_eq_some_iff.mp h
        split at h
        · cases h
        · obtain ⟨taken, _, h⟩ := Option.bind_eq_some_iff.mp h
          obtain rfl := Option.some.inj h
          refine ⟨rfl, by simp, by simpa [Fusion.heads] using hop, by simp [Fusion.handlers],
            List.nil_prefix, fun _ _ => rfl, ?_⟩
          intro operand n _ hn
          simp only [fallthroughAdvance, Option.some.injEq] at hn
          simp [← hn, Fusion.skipped, height]

theorem Fusion.apply_fused {code rest : List LoweredOp} {cursor : Nat} {labels : LabelIndices}
    {fusion : Fusion} {op r : LoweredOp} (h : fusion.apply code cursor labels = some r)
    (hwindow : code.drop cursor = op :: rest) (hok : ∀ o ∈ op :: rest, OperandsOk o) :
    Fused op rest fusion r := by
  cases fusion <;> simp only [Fusion.apply, hwindow] at h
  case localGet4RunSkip => exact fuseLocalGet4RunSkip_fused h hok
  case localGet4x3AddConstBinopAddConsumer => exact fuseLocalGet4x3_fused h hok
  case i32LoadStoreLocalBaseLocalGet4Pair =>
      exact fuseI32LoadStoreLocalBaseLocalGet4Pair_fused h hok
  case localGet4LocalBaseI32LoadPair => exact fuseLocalGet4LocalBaseI32LoadPair_fused h hok
  case localBaseI32LoadPairFallthroughLocalGet4 =>
      exact fuseLocalBaseI32LoadPairFallthroughLocalGet4_fused h hok
  case localGet4BrTable => exact fuseLocalGet4BrTable_fused h hok
  case localGet4I32ConstAddBrTable => exact fuseLocalGet4I32ConstAddBrTable_fused h hok
  case i32IncLoad8UpdateBranchTail => exact fuseI32IncLoad8UpdateBranchTail_fused h hok
  case guarded => exact fuseGuarded_fused h hwindow hok
  case localBaseLoadTeeLoad8BranchTail => exact fuseLocalBaseLoadTeeLoad8BranchTail_fused h hok
  case localAddSetLoad8EqzBranchTail => exact fuseLocalAddSetLoad8EqzBranchTail_fused h hok
  case load8UpdateBranchTakenLocalGet4 =>
      exact fuseLoad8UpdateBranchTakenLocalGet4_fused h hwindow hok
  case load8UpdateBranchFallthroughLocalGet4 =>
      exact fuseLoad8UpdateBranchFallthroughLocalGet4_fused h hok
  case i32Load16ULocalBaseEqSearchLoopEntry =>
      exact fuseI32Load16ULocalBaseEqSearchLoopEntry_fused h hok
  case i32Load8ULocalBaseMaskedSearchLoopEntry =>
      exact fuseI32Load8ULocalBaseMaskedSearchLoopEntry_fused h hok

end Telomere.Optimizer
