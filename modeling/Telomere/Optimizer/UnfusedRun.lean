import Mathlib.Data.List.TakeWhile
import Telomere.Vm.Machine

/-!
# Running the input next to the encoded function

The ops the encoder is given are a function of their own: the same positions and labels in
another layout. Both are executed by the same machine, so the effect of one fused op can be
compared with the effect of the input ops it stands for.
-/

namespace Telomere.Optimizer

open Vm

def LoweredKernelFunction.unfused (kernel : LoweredKernelFunction) : LoweredFunction :=
  { encode kernel with code := kernel.code }

def handlerAt (f : LoweredFunction) (index : Nat) : Op :=
  (f.code[index]?.map LoweredOp.op).getD .opEnd

def opWords (kernel : LoweredKernelFunction) (index : Nat) : Words :=
  (kernel.code[index]?.map (words (encode kernel).constPool)).getD fun _ => 0

def branchIndex (kernel : LoweredKernelFunction) (index : Nat) : Option Nat := do
  kernel.labels (← opJumpTarget (← kernel.code[index]?))

/-- Handlers that keep a jump target in their last operand. -/
def branches : Op → Bool
  | .opIf | .opBr | .opLocalGet4I32ConstCompareBrIf | .opI32Load8UTee4BrIf
  | .opI32Load8ULocalBaseSet4LocalGet4Set4LocalGet4BrIf
  | .opI32Load8ULocalBaseTee4I32EqzBrIf => true
  | _ => false

/-- Operands of the handlers next to those that start or end a fusion. -/
def controlOperandCount : Op → Option Nat
  | .opEnd => some 0
  | .opDrop | .opIf | .opBr => some 1
  | .opLocalCmp32 => some 3
  | .opLocalGet4I32ConstCompareBrIf => some 4
  | _ => none

/-- What instruction selection emits: ops with all their operands, branches whose targets are
ops of the function, and none of the handlers that only the encoder installs. -/
structure Executable (kernel : LoweredKernelFunction) : Prop extends WellFormed kernel where
  control : ∀ op ∈ kernel.code, ∀ count, controlOperandCount op.op = some count →
    op.operands.length = count
  branch : ∀ op ∈ kernel.code, branches op.op → (opJumpTarget op).isSome
  table : ∀ op ∈ kernel.code, op.op = .opBrTable → ∀ operand ∈ op.operands.tail,
    ∃ label, operand = .jumpTarget label
  target : ∀ op ∈ kernel.code, ∀ label, .jumpTarget label ∈ op.operands →
    ∃ index, kernel.labels label = some index ∧ index < kernel.code.length
  selected : ∀ op ∈ kernel.code, op.op ≠ .opLocalGet4BrTable

def targetInRange (kernel : LoweredKernelFunction) : LoweredOperand → Bool
  | .jumpTarget label => (kernel.labels label).any (· < kernel.code.length)
  | _ => true

theorem target_of_operands {kernel : LoweredKernelFunction}
    (h : ∀ op ∈ kernel.code, ∀ operand ∈ op.operands, targetInRange kernel operand) :
    ∀ op ∈ kernel.code, ∀ label, .jumpTarget label ∈ op.operands →
      ∃ index, kernel.labels label = some index ∧ index < kernel.code.length := by
  intro op hop label hlabel
  have hany := h op hop (.jumpTarget label) hlabel
  simpa [targetInRange, Option.any_eq_true] using hany

/-- `local.get` and `br_table`. -/
def tablePath : Path :=
  .noops (.step (.step .stop .stop) .stop)

def tableTarget (kernel : LoweredKernelFunction) (table : LoweredOp) (index : BitVec 32) :
    Option Nat :=
  match brTableTarget (words (encode kernel).constPool table) 0 index with
  | .fall _ => none
  | .jump operand _ =>
      match (table.operands[operand]? : Option LoweredOperand) with
      | some (.jumpTarget label) => kernel.labels label
      | _ => none

/-- Where the `local.get` and `br_table` behind a position go. -/
def tableAt (kernel : LoweredKernelFunction) (index : Nat) (s : VmState) : Option Nat := do
  let get := skipNoopOpsAt kernel.code index
  tableTarget kernel (← kernel.code[get + 1]?) (s.locals (u32 (opWords kernel get 0)))

section Steps

variable {kernel : LoweredKernelFunction}

theorem opWords_eq {index : Nat} {op : LoweredOp} (hget : kernel.code[index]? = some op) :
    opWords kernel index = words (encode kernel).constPool op := by
  simp [opWords, hget]

theorem step_unfused {index : Nat} {op : LoweredOp} (hget : kernel.code[index]? = some op)
    (s : VmState) :
    step kernel.unfused index s = do
      let (control, s) ← exec op.op (words (encode kernel).constPool op) s
      return (control.next, continuation kernel.code index op control, s) := by
  simp only [step, LoweredKernelFunction.unfused, hget]

private theorem pooled_operand {pool : ConstPool} {op pooled : LoweredOp}
    (h : PooledOp pool op pooled) (index : Nat) :
    (op.operands[index]? = none ∧ pooled.operands[index]? = none) ∨
      ∃ operand pooledOperand, op.operands[index]? = some operand ∧
        pooled.operands[index]? = some pooledOperand ∧
        PooledOperand pool operand pooledOperand := by
  have hlen := h.operands.length_eq
  by_cases hlt : index < op.operands.length
  · have hlt' : index < pooled.operands.length := by omega
    exact Or.inr ⟨_, _, List.getElem?_eq_getElem hlt, List.getElem?_eq_getElem hlt',
      h.operands.get hlt hlt'⟩
  · exact Or.inl ⟨List.getElem?_eq_none (by omega), List.getElem?_eq_none (by omega)⟩

theorem run_ok {index : Nat} {op : LoweredOp} (hget : kernel.code[index]? = some op)
    {s s' : VmState} {control : Control}
    (hexec : exec op.op (words (encode kernel).constPool op) s = .ok (control, s'))
    (fall taken : Path) :
    (Path.step fall taken).run kernel.unfused (some index) s =
      match control.next with
      | .fall _ => fall.run kernel.unfused (continuation kernel.code index op control) s'
      | .jump _ _ => taken.run kernel.unfused (continuation kernel.code index op control) s' := by
  rw [Path.run, step_unfused hget, hexec]
  rfl

theorem run_trap {index : Nat} {op : LoweredOp} (hget : kernel.code[index]? = some op)
    {s : VmState} {trap : Trap}
    (hexec : exec op.op (words (encode kernel).constPool op) s = .error trap)
    (fall taken : Path) :
    (Path.step fall taken).run kernel.unfused (some index) s = .error trap := by
  rw [Path.run, step_unfused hget, hexec]
  rfl

private theorem words_pooled {pool : ConstPool} {op pooled : LoweredOp}
    (h : PooledOp pool op pooled) : words pool pooled = words pool op := by
  funext index
  unfold words
  rcases pooled_operand h index with ⟨hop, hpooled⟩ | ⟨operand, pooledOperand, hop, hpooled, hrel⟩
  · rw [hop, hpooled]
  · rw [hop, hpooled]
    rcases hrel with hsame | ⟨encoded, ref, hraw, href, hpool⟩
    · rw [hsame]
    · simp [hraw, href, operandWord, hpool]

private theorem landing_pooled {pool : ConstPool} {op pooled : LoweredOp}
    (h : PooledOp pool op pooled) (code : List LoweredOp) (index : Nat) (next : Next) :
    landing code index pooled next = landing code index op next := by
  cases next with
  | fall slots => rfl
  | jump operand extra =>
      simp only [landing]
      rcases pooled_operand h operand with ⟨hop, hpooled⟩ | ⟨_, _, hop, hpooled, hrel⟩
      · rw [hop, hpooled]
      · rw [hop, hpooled]
        rcases hrel with hsame | ⟨encoded, ref, hraw, href, hpool⟩
        · rw [hsame]
        · rw [hraw, href]

/-- The op a fusion puts at the cursor, as the encoded function has it. -/
theorem encoded_fused (hwf : WellFormed kernel) {cursor : Nat} {fusion : Fusion}
    {r : LoweredOp}
    (hfuse : fuseAt (fusePrefix kernel.labels kernel.code cursor) cursor kernel.labels =
      some (fusion, r)) :
    ∃ final, (encode kernel).code[cursor]? = some final ∧ final.op = r.op ∧
      words (encode kernel).constPool final = words (encode kernel).constPool r ∧
      continuation (encode kernel).code cursor final =
        continuation (encode kernel).code cursor r := by
  obtain ⟨op, hget⟩ := inputFusion_inRange
    ((fuseAt_some_iff hwf.operands cursor fusion).mp ⟨r, hfuse⟩)
  obtain ⟨fused, final, hplaced⟩ := placed hwf hget
  have hresult : fused = r := by
    rw [hplaced.result, hfuse]
    rfl
  subst hresult
  have hpooled := hplaced.pooled
  refine ⟨final, hplaced.get, hpooled.handler, words_pooled hpooled, ?_⟩
  funext control
  simp only [continuation, landing_pooled hpooled]

theorem step_fused (hwf : WellFormed kernel) {cursor : Nat} {fusion : Fusion}
    {r : LoweredOp}
    (hfuse : fuseAt (fusePrefix kernel.labels kernel.code cursor) cursor kernel.labels =
      some (fusion, r)) (s : VmState) :
    handlerAt (encode kernel) cursor = r.op ∧
      step (encode kernel) cursor s = do
        let (control, s) ← exec r.op (words (encode kernel).constPool r) s
        return (control.next, continuation (encode kernel).code cursor r control, s) := by
  obtain ⟨final, hget, hop, hwords, hcont⟩ := encoded_fused hwf hfuse
  constructor
  · simp [handlerAt, hget, hop]
  · simp only [step, hget, hop, hwords, hcont]

theorem run_fused_ok (hwf : WellFormed kernel) {cursor : Nat} {fusion : Fusion} {r : LoweredOp}
    (hfuse : fuseAt (fusePrefix kernel.labels kernel.code cursor) cursor kernel.labels =
      some (fusion, r)) {s s' : VmState} {control : Control}
    (hexec : exec r.op (words (encode kernel).constPool r) s = .ok (control, s')) :
    (Path.step .stop .stop).run (encode kernel) (some cursor) s =
      .ok (continuation (encode kernel).code cursor r control, s') := by
  rw [Path.run, (step_fused hwf hfuse s).2, hexec]
  simp only [bind, Except.bind, pure, Except.pure]
  cases control.next <;> rfl

theorem run_fused_trap (hwf : WellFormed kernel) {cursor : Nat} {fusion : Fusion} {r : LoweredOp}
    (hfuse : fuseAt (fusePrefix kernel.labels kernel.code cursor) cursor kernel.labels =
      some (fusion, r)) {s : VmState} {trap : Trap}
    (hexec : exec r.op (words (encode kernel).constPool r) s = .error trap) :
    (Path.step .stop .stop).run (encode kernel) (some cursor) s = .error trap := by
  rw [Path.run, (step_fused hwf hfuse s).2, hexec]
  rfl

theorem get_of_drop {code window : List LoweredOp} {cursor : Nat}
    (h : code.drop cursor = window) (i : Nat) : code[cursor + i]? = window[i]? := by
  rw [← h, List.getElem?_drop]

theorem continuation_landed {code : List LoweredOp} {index target : Nat} {op : LoweredOp}
    {control : Control} (h : landing code index op control.next = some target) :
    continuation code index op control =
      some (if control.skipEnds then skipEndOps code target else target) := by
  simp only [continuation, h]
  split <;> rfl

theorem jump_operand {op : LoweredOp} {last label : Nat}
    (hlast : op.operands.length = last + 1) (hlabel : opJumpTarget op = some label) :
    op.operands[last]? = some (.jumpTarget label) := by
  unfold opJumpTarget at hlabel
  split at hlabel
  · next target htarget =>
      rw [List.getLast?_eq_getElem?, hlast] at htarget
      rw [← Option.some.inj hlabel]
      exact htarget
  · cases hlabel

section Falls

variable {cursor : Nat} {fusion : Fusion} {r : LoweredOp}

theorem startOf_behind (hwf : WellFormed kernel)
    (hfuse : fuseAt (fusePrefix kernel.labels kernel.code cursor) cursor kernel.labels =
      some (fusion, r)) :
    cursor < (encode kernel).code.length ∧ startOf (encode kernel).code (cursor + 1) =
      startOf (encode kernel).code cursor + 1 + r.operands.length := by
  obtain ⟨op, hget⟩ := inputFusion_inRange
    ((fuseAt_some_iff hwf.operands cursor fusion).mp ⟨r, hfuse⟩)
  obtain ⟨fused, final, hplaced⟩ := placed hwf hget
  have hresult : fused = r := by
    rw [hplaced.result, hfuse]
    rfl
  subst hresult
  refine ⟨(List.getElem?_eq_some_iff.mp hplaced.get).1, ?_⟩
  rw [startOf_succ hplaced.get, hplaced.pooled.slotLen_eq, slotLen, Nat.add_assoc]

theorem fall_behind (hwf : WellFormed kernel)
    (hfuse : fuseAt (fusePrefix kernel.labels kernel.code cursor) cursor kernel.labels =
      some (fusion, r)) :
    landing (encode kernel).code cursor r (.fall r.operands.length) = some (cursor + 1) := by
  obtain ⟨hlt, hstart⟩ := startOf_behind hwf hfuse
  rw [landing, ← hstart, opAt_startOf hlt]

/-- The slot one input op behind the start of an op is the start of the next one, unless the
pass has fused the op. -/
theorem opAt_over (hwf : WellFormed kernel) {index : Nat} {op : LoweredOp}
    (hget : kernel.code[index]? = some op) :
    opAt (encode kernel).code (startOf (encode kernel).code index + slotLen op) =
      if inputFusion kernel.code index kernel.labels = none then some (index + 1) else none := by
  obtain ⟨fused, final, hplaced⟩ := placed hwf hget
  have hlt := (List.getElem?_eq_some_iff.mp hplaced.get).1
  have hsucc := startOf_succ hplaced.get
  split
  · next hnone => rw [← hplaced.same_iff.mpr hnone, ← hsucc, opAt_startOf hlt]
  · next hsome =>
      have hne := mt hplaced.same_iff.mp hsome
      have hle := hplaced.grows
      have hpos : 0 < slotLen op := by
        rw [slotLen]
        omega
      exact opAt_inside hlt (by omega) (by omega)

theorem fall_over (hwf : WellFormed kernel)
    (hfuse : fuseAt (fusePrefix kernel.labels kernel.code cursor) cursor kernel.labels =
      some (fusion, r)) {op : LoweredOp} (hget : kernel.code[cursor + 1]? = some op) {slots : Nat}
    (hslots : slots = r.operands.length + slotLen op) :
    landing (encode kernel).code cursor r (.fall slots) =
      if inputFusion kernel.code (cursor + 1) kernel.labels = none then some (cursor + 2)
      else none := by
  have hstart := (startOf_behind hwf hfuse).2
  rw [landing, hslots, ← Nat.add_assoc, ← hstart, opAt_over hwf hget]

theorem inputFusion_none_of_head (hwf : WellFormed kernel) {index : Nat} {op : LoweredOp}
    (hget : kernel.code[index]? = some op) (hhead : startsFusion op.op = false) :
    inputFusion kernel.code index kernel.labels = none :=
  (fuseAt_none_iff hwf.operands index).mp (fuseAt_eq_none_of_head hwf.operands hget hhead)

end Falls

/-- The pass neither makes nor removes an `op_end`. -/
theorem encode_skipEndOps (hwf : WellFormed kernel) (index : Nat) :
    skipEndOps (encode kernel).code index = skipEndOps kernel.code index := by
  have hmap : (encode kernel).code.map (·.op == .opEnd) = kernel.code.map (·.op == .opEnd) := by
    apply List.ext_getElem?
    intro i
    rw [List.getElem?_map, List.getElem?_map]
    by_cases hlt : i < kernel.code.length
    · have hget : kernel.code[i]? = some kernel.code[i] := List.getElem?_eq_getElem hlt
      obtain ⟨fused, final, hplaced⟩ := placed hwf hget
      rw [hplaced.get, hget]
      simp only [Option.map_some, hplaced.pooled.handler, Option.some.injEq]
      cases hfusion : inputFusion kernel.code i kernel.labels with
      | none =>
          have hnone := (fuseAt_none_iff hwf.operands i).mpr hfusion
          rw [hplaced.result, hnone]
          rfl
      | some fusion =>
          have hfused := hplaced.fires fusion hfusion
          have hhead : kernel.code[i].op ≠ .opEnd := by
            intro hend
            have := hfused.head
            rw [hend] at this
            cases fusion <;> simp [Fusion.heads] at this
          simp [(Fusion.handlers_ne hfused.handler).2.1, hhead]
    · have hlen := encode_length kernel
      rw [List.getElem?_eq_none (by omega), List.getElem?_eq_none (by omega)]
  have hcount : ∀ code : List LoweredOp, skipEndOps code index =
      index + (((code.map (·.op == .opEnd)).drop index).takeWhile id).length := by
    intro code
    rw [skipEndOps, ← List.map_drop, List.takeWhile_map, List.length_map]
    rfl
  rw [hcount, hcount, hmap]

theorem jump_lands (hwf : WellFormed kernel) {label target operand : Nat} {op : LoweredOp}
    (htarget : kernel.labels label = some target) (hlt : target < kernel.code.length)
    (hoperand : op.operands[operand]? = some (.jumpTarget label)) (index : Nat) :
    landing kernel.code index op (.jump operand 0) = some target ∧
      landing (encode kernel).code index op (.jump operand 0) = some target := by
  have hget : kernel.code[target]? = some kernel.code[target] := List.getElem?_eq_getElem hlt
  constructor
  · exact landing_jump hoperand (code_labelToAddr hwf hget htarget) (by omega)
  · exact landing_jump hoperand (encode_labelToAddr hwf hget htarget)
      (by rw [encode_length]; omega)

private theorem noop_of_lt {code : List LoweredOp} {index i : Nat} (h : i < noopCount code index) :
    ∃ op, code[index + i]? = some op ∧ loweredOpIsNoop op := by
  have hlt : i < ((code.drop index).takeWhile loweredOpIsNoop).length := h
  have hfront := List.takeWhile_prefix loweredOpIsNoop (l := code.drop index)
  refine ⟨((code.drop index).takeWhile loweredOpIsNoop)[i], ?_, ?_⟩
  · rw [← List.getElem?_drop]
    exact (List.prefix_iff_getElem?.mp hfront) i hlt
  · exact List.mem_takeWhile_imp (List.getElem_mem hlt)

private theorem exec_noop {op : LoweredOp} (pool : ConstPool) (hnoop : loweredOpIsNoop op)
    (hcount : ∀ count, controlOperandCount op.op = some count → op.operands.length = count)
    (s : VmState) :
    exec op.op (words pool op) s = .ok (⟨.fall op.operands.length, false⟩, s) := by
  unfold loweredOpIsNoop at hnoop
  split at hnoop
  · next hop =>
      rw [hcount 0 (by rw [hop]; rfl), hop]
      rfl
  · next encoded rest hop hoperands =>
      have hzero : words pool op 0 = encoded := by
        simp [words, hoperands, operandWord]
      have hdrop : u32 encoded = 0 := by simpa using hnoop
      rw [hcount 1 (by rw [hop]; rfl), hop]
      simp [exec, hzero, hdrop]
  · cases hnoop

theorem run_noops (hex : Executable kernel) (rest : Path) (index : Nat) (s : VmState) :
    (Path.noops rest).run kernel.unfused (some index) s =
      rest.run kernel.unfused (some (skipNoopOpsAt kernel.code index)) s := by
  have hrun : runStraight kernel.unfused (noopCount kernel.code index) (some index) s =
      .ok (some (skipNoopOpsAt kernel.code index), s) :=
    runStraight_falls _ _ fun i hi => by
      obtain ⟨op, hget, hnoop⟩ := noop_of_lt hi
      exact ⟨op, hget, exec_noop _ hnoop (hex.control op (List.mem_of_getElem? hget)) s⟩
  rw [Path.run, show kernel.unfused.code = kernel.code from rfl, hrun]
  rfl

/-- `op_end` is one of the ops that do nothing. -/
private theorem takeWhile_length_add {α : Type} {p q : α → Bool} (h : ∀ a, p a → q a)
    (l : List α) : (l.takeWhile p).length + ((l.drop (l.takeWhile p).length).takeWhile q).length =
      (l.takeWhile q).length := by
  induction l with
  | nil => rfl
  | cons a l ih =>
      by_cases hp : p a
      · simp only [hp, h a hp, List.takeWhile_cons_of_pos, List.length_cons, List.drop_succ_cons]
        omega
      · simp [hp]

theorem skipNoopOpsAt_skipEndOps (code : List LoweredOp) (index : Nat) :
    skipNoopOpsAt code (skipEndOps code index) = skipNoopOpsAt code index := by
  have hadd := takeWhile_length_add (p := fun op : LoweredOp => op.op == .opEnd)
    (q := loweredOpIsNoop) (fun op hop => by
      have : op.op = .opEnd := by simpa using hop
      simp [loweredOpIsNoop, this]) (code.drop index)
  rw [List.drop_drop] at hadd
  simp only [skipNoopOpsAt, noopCount, skipEndOps]
  omega

/-- The operands of `op` stand in `r` from `offset` on. -/
def Holds (r : LoweredOp) (offset : Nat) (op : LoweredOp) : Prop :=
  ∀ i, i < op.operands.length → r.operands[offset + i]? = op.operands[i]?

theorem holds_of_append {r op : LoweredOp} (front back : List LoweredOperand) {offset : Nat}
    (h : r.operands = front ++ (op.operands ++ back)) (hoffset : offset = front.length) :
    Holds r offset op := by
  intro i hi
  rw [h, hoffset, List.getElem?_append_right (by omega), Nat.add_sub_cancel_left,
    List.getElem?_append_left hi]

theorem Holds.words_eq {r op : LoweredOp} {offset i : Nat} (h : Holds r offset op)
    (hi : i < op.operands.length) (pool : ConstPool) :
    words pool r (offset + i) = words pool op i := by
  simp only [words, h i hi]

/-- A table goes to one of its targets, also behind other operands in a fused op. -/
theorem table_lands (hex : Executable kernel) {table : LoweredOp}
    (hmem : table ∈ kernel.code) (hop : table.op = .opBrTable) (selected : BitVec 32) :
    ∃ target, tableTarget kernel table selected = some target ∧
      (∀ index, landing kernel.code index table
        (brTableTarget (words (encode kernel).constPool table) 0 selected) = some target) ∧
      ∀ (r : LoweredOp) (offset index : Nat), Holds r offset table →
        landing (encode kernel).code index r
          (brTableTarget (words (encode kernel).constPool r) offset selected) = some target := by
  have hok := hex.operands table hmem
  unfold OperandsOk at hok
  rw [hop] at hok
  obtain ⟨size, targets, hoperands, hlen⟩ := hok
  -- the entry that the handler selects
  obtain ⟨entry, hentry⟩ : ∃ entry, entry = if selected.toNat < (u32 size).toNat
      then selected.toNat else (u32 size).toNat := ⟨_, rfl⟩
  have hlt : entry < targets.length := by
    rw [hentry, hlen]
    split <;> omega
  obtain ⟨label, hlabel⟩ := hex.table table hmem hop targets[entry]
    (by rw [hoperands]; exact List.getElem_mem hlt)
  obtain ⟨target, htarget, hin⟩ := hex.target table hmem label
    (by rw [hoperands, ← hlabel]; exact List.mem_cons_of_mem _ (List.getElem_mem hlt))
  have hget : table.operands[1 + entry]? = some (.jumpTarget label) := by
    rw [hoperands, Nat.add_comm, List.getElem?_cons_succ, List.getElem?_eq_getElem hlt, hlabel]
  have hzero : words (encode kernel).constPool table 0 = size := by
    simp [words, hoperands, operandWord]
  have hbr : brTableTarget (words (encode kernel).constPool table) 0 selected =
      .jump (1 + entry) 0 := by
    simp only [brTableTarget, hzero, Nat.zero_add, hentry]
  refine ⟨target, ?_, ?_, ?_⟩
  · simp only [tableTarget, hbr, hget, htarget]
  · intro index
    rw [hbr]
    exact (jump_lands hex.toWellFormed htarget hin hget index).1
  · intro r offset index hr
    have hsize : words (encode kernel).constPool r offset = size := by
      rw [← hzero]
      exact hr.words_eq (i := 0) (by rw [hoperands]; simp) _
    have hbr' : brTableTarget (words (encode kernel).constPool r) offset selected =
        .jump (offset + 1 + entry) 0 := by
      simp only [brTableTarget, hsize, hentry]
    have hget' : r.operands[offset + 1 + entry]? = some (.jumpTarget label) := by
      rw [Nat.add_assoc, hr (1 + entry) (by rw [hoperands, List.length_cons]; omega), hget]
    rw [hbr']
    exact (jump_lands hex.toWellFormed htarget hin hget' index).2

/-- A `local.get` and a `br_table` of the input behind a position. -/
structure TableBehind (kernel : LoweredKernelFunction) (index : Nat)
    (get table : LoweredOp) : Prop where
  getOp : get.op = .opLocalGet4
  tableOp : table.op = .opBrTable
  get : kernel.code[skipNoopOpsAt kernel.code index]? = some get
  table : kernel.code[skipNoopOpsAt kernel.code index + 1]? = some table

theorem TableBehind.tableAt_eq {index : Nat} {get table : LoweredOp}
    (h : TableBehind kernel index get table) (s : VmState) :
    tableAt kernel index s =
      tableTarget kernel table (s.locals (u32 (words (encode kernel).constPool get 0))) := by
  simp [tableAt, h.table, opWords_eq h.get]

private theorem exec_table (pool : ConstPool) {table : LoweredOp} (hop : table.op = .opBrTable)
    (s : VmState) (selected : BitVec 32) :
    exec table.op (words pool table) (s.push selected) =
      .ok (⟨brTableTarget (words pool table) 0 selected, false⟩, s) := by
  rw [hop]
  rfl

theorem run_table (hex : Executable kernel) {index : Nat} {table : LoweredOp}
    (htable : kernel.code[index]? = some table) (hop : table.op = .opBrTable)
    (s : VmState) (selected : BitVec 32) :
    (Path.step .stop .stop).run kernel.unfused (some index) (s.push selected) =
      .ok (tableTarget kernel table selected, s) := by
  obtain ⟨target, htarget, hlands, _⟩ :=
    table_lands hex (List.mem_of_getElem? htable) hop selected
  rw [run_ok htable (exec_table _ hop s selected), htarget, ← hlands index]
  rfl

theorem run_getTable (hex : Executable kernel) {index : Nat} {get table : LoweredOp}
    (hget : kernel.code[index]? = some get) (hgetOp : get.op = .opLocalGet4)
    (htable : kernel.code[index + 1]? = some table) (htableOp : table.op = .opBrTable)
    (s : VmState) :
    (Path.step (.step .stop .stop) .stop).run kernel.unfused (some index) s =
      .ok (tableTarget kernel table (s.locals (u32 (words (encode kernel).constPool get 0))),
        s) := by
  have hone := (hex.operands get (List.mem_of_getElem? hget)).count hgetOp rfl
  have hexec : exec get.op (words (encode kernel).constPool get) s =
      .ok (⟨.fall 1, false⟩, s.push (s.locals (u32 (words (encode kernel).constPool get 0)))) := by
    rw [hgetOp]
    rfl
  rw [run_ok hget hexec]
  simp only [continuation, landing_fall hget hone.symm]
  exact run_table hex htable htableOp s _

theorem TableBehind.run (hex : Executable kernel) {index : Nat} {get table : LoweredOp}
    (h : TableBehind kernel index get table) (s : VmState) :
    tablePath.run kernel.unfused (some index) s = .ok (tableAt kernel index s, s) := by
  rw [tablePath, run_noops hex, run_getTable hex h.get h.getOp h.table h.tableOp, h.tableAt_eq]

private theorem not_noop {op : LoweredOp} (hend : op.op ≠ .opEnd) (hdrop : op.op ≠ .opDrop) :
    loweredOpIsNoop op = false := by
  unfold loweredOpIsNoop
  split
  · next h => exact absurd h hend
  · next h _ => exact absurd h hdrop
  · rfl

private theorem dropWhile_eq_drop {α : Type} (p : α → Bool) (l : List α) :
    l.dropWhile p = l.drop (l.takeWhile p).length := by
  induction l with
  | nil => rfl
  | cons a l ih =>
      by_cases h : p a
      · simp [h, ih]
      · simp [h]

private theorem fusePrefix_noopCount (hwf : WellFormed kernel) (n index : Nat) :
    noopCount (fusePrefix kernel.labels kernel.code n) index = noopCount kernel.code index := by
  have hmap : (fusePrefix kernel.labels kernel.code n).map loweredOpIsNoop =
      kernel.code.map loweredOpIsNoop := by
    apply List.ext_getElem?
    intro i
    rw [List.getElem?_map, List.getElem?_map]
    cases hget : kernel.code[i]? with
    | none =>
        have hlen := List.getElem?_eq_none_iff.mp hget
        rw [List.getElem?_eq_none (by rw [fusePrefix_length]; exact hlen)]
    | some op =>
        rcases fusePrefix_get kernel.labels hget n with hsame | ⟨fusion, r, hfuse, hr⟩
        · rw [hsame]
        · have hfused := fuseAt_fused hwf.operands hget hfuse
          have hhandler := Fusion.handlers_ne hfused.handler
          have hhead : op.op ≠ .opEnd ∧ op.op ≠ .opDrop := by
            have := hfused.head
            constructor <;> intro hop <;> rw [hop] at this <;> cases fusion <;>
              simp [Fusion.heads] at this
          rw [hr]
          simp only [Option.map_some, not_noop hhandler.2.1 hhandler.2.2,
            not_noop hhead.1 hhead.2]
  have hcount : ∀ code : List LoweredOp, noopCount code index =
      (((code.map loweredOpIsNoop).drop index).takeWhile id).length := by
    intro code
    rw [noopCount, ← List.map_drop, List.takeWhile_map, List.length_map]
    rfl
  rw [hcount, hcount, hmap]

theorem skipNoopOps_fusePrefix (hwf : WellFormed kernel) (n index : Nat) :
    skipNoopOps ((fusePrefix kernel.labels kernel.code n).drop index) =
      (fusePrefix kernel.labels kernel.code n).drop (skipNoopOpsAt kernel.code index) := by
  rw [skipNoopOps, dropWhile_eq_drop, List.drop_drop, ← noopCount, fusePrefix_noopCount hwf,
    skipNoopOpsAt]

theorem fusePrefix_get_of_head (hwf : WellFormed kernel) {n index : Nat} {op : LoweredOp}
    (hget : (fusePrefix kernel.labels kernel.code n)[index]? = some op)
    (hhead : ∀ fusion : Fusion, op.op ∉ fusion.handlers) : kernel.code[index]? = some op := by
  cases hcode : kernel.code[index]? with
  | none =>
      have hlen := List.getElem?_eq_none_iff.mp hcode
      rw [List.getElem?_eq_none (by rw [fusePrefix_length]; exact hlen)] at hget
      cases hget
  | some input =>
      rcases fusePrefix_get kernel.labels hcode n with hsame | ⟨fusion, r, hfuse, hr⟩
      · rw [← hsame, hget]
      · obtain rfl : op = r := Option.some.inj (hget.symm.trans hr)
        exact absurd (fuseAt_fused hwf.operands hcode hfuse).handler (hhead fusion)

theorem fuseAt_apply {code : List LoweredOp} {cursor : Nat} {labels : LabelIndices}
    {fusion : Fusion} {r : LoweredOp} (h : fuseAt code cursor labels = some (fusion, r)) :
    fusion.apply code cursor labels = some r := by
  obtain ⟨fusion', _, hmap⟩ := List.exists_of_findSome?_eq_some h
  obtain ⟨r', happly, heq⟩ := Option.map_eq_some_iff.mp hmap
  obtain ⟨rfl, rfl⟩ := Prod.mk.inj heq
  exact happly

theorem fuseLocalGet4BrTable_spec {window : List LoweredOp} {r : LoweredOp}
    (h : fuseLocalGet4BrTable window = some r) :
    ∃ get table rest addr, window = get :: table :: rest ∧ get.op = .opLocalGet4 ∧
      table.op = .opBrTable ∧ get.operands.head? = some addr ∧
      r = ⟨get.label, .opLocalGet4BrTable, addr :: table.operands⟩ := by
  unfold fuseLocalGet4BrTable at h
  split at h
  · next get table rest =>
      split at h
      · cases h
      · next hops =>
          push Not at hops
          obtain ⟨addr, haddr, h⟩ := Option.bind_eq_some_iff.mp h
          exact ⟨get, table, rest, addr, rfl, hops.1, hops.2, haddr, (Option.some.inj h).symm⟩
  · cases h

/-- The table operands that a guarded form takes over are those of input ops, also where the
pass has fused these. -/
theorem localGet4BrTableOperandsAt_spec (hex : Executable kernel) {n index : Nat}
    {operands : List LoweredOperand}
    (h : localGet4BrTableOperandsAt (fusePrefix kernel.labels kernel.code n) index =
      some operands) :
    ∃ get table addr, TableBehind kernel index get table ∧ get.operands.head? = some addr ∧
      operands = addr :: table.operands := by
  have hwf := hex.toWellFormed
  have hplain : ∀ op : Op, op = .opLocalGet4 ∨ op = .opBrTable →
      ∀ fusion : Fusion, op ∉ fusion.handlers := by
    rintro op (rfl | rfl) fusion <;> cases fusion <;> simp [Fusion.handlers]
  unfold localGet4BrTableOperandsAt at h
  rw [skipNoopOps_fusePrefix hwf] at h
  split at h
  · cases h
  · next op rest hdrop =>
      have hop : (fusePrefix kernel.labels kernel.code n)[skipNoopOpsAt kernel.code index]? =
          some op := by
        rw [← List.head?_drop, hdrop]
        rfl
      split at h
      · next hhandler =>
          -- the pair has been fused already, so the input ops are those of that fusion
          have hinput : ∃ input, kernel.code[skipNoopOpsAt kernel.code index]? = some input := by
            have := (List.getElem?_eq_some_iff.mp hop).1
            rw [fusePrefix_length] at this
            exact ⟨_, List.getElem?_eq_getElem this⟩
          obtain ⟨input, hget⟩ := hinput
          rcases fusePrefix_get kernel.labels hget n with hsame | ⟨fusion, r, hfuse, hr⟩
          · obtain rfl : op = input := Option.some.inj (hop.symm.trans hsame)
            exact absurd hhandler (hex.selected op (List.mem_of_getElem? hget))
          · obtain rfl : op = r := Option.some.inj (hop.symm.trans hr)
            have hfusion : fusion = .localGet4BrTable := by
              have := (fuseAt_fused hwf.operands hget hfuse).handler
              rw [hhandler] at this
              cases fusion <;> simp [Fusion.handlers] at this
              rfl
            subst hfusion
            obtain ⟨get, table, tail, addr, hwindow, hgetOp, htableOp, haddr, hr⟩ :=
              fuseLocalGet4BrTable_spec (fuseAt_apply hfuse)
            rw [fusePrefix_drop] at hwindow
            refine ⟨get, table, addr, ⟨hgetOp, htableOp, ?_, ?_⟩, haddr, ?_⟩
            · rw [← List.head?_drop, hwindow]
              rfl
            · rw [← List.getElem?_drop, hwindow]
              rfl
            · rw [← Option.some.inj h, hr]
      · obtain ⟨r, hfuse, hr⟩ := Option.map_eq_some_iff.mp h
        obtain ⟨get, table, tail, addr, hwindow, hgetOp, htableOp, haddr, rfl⟩ :=
          fuseLocalGet4BrTable_spec hfuse
        obtain ⟨rfl, rfl⟩ := List.cons.inj hwindow
        have htable : (fusePrefix kernel.labels kernel.code n)[skipNoopOpsAt kernel.code index + 1]?
            = some table := by
          rw [← List.getElem?_drop, hdrop]
          rfl
        exact ⟨op, table, addr, ⟨hgetOp, htableOp,
          fusePrefix_get_of_head hwf hop (hplain _ (Or.inl hgetOp)),
          fusePrefix_get_of_head hwf htable (hplain _ (Or.inr htableOp))⟩, haddr, hr.symm⟩

end Steps

end Telomere.Optimizer
