import Telomere.Optimizer.Placement

/-!
# Skip counts after the pass

A fused op jumps over the ops it absorbed by a number of slots that was fixed when it was made.
The absorbed ops are still ahead of the pass, so each of them may be replaced later by an op with
more operands. The handlers' advances are exact if and only if none of them is.
-/

namespace Telomere.Optimizer

/-- In the encoded function the op fused at the cursor continues on the first slot of the op
after the ones it jumps over, and after the branch target's `local.get` where it takes that in. -/
def LandsExactly (kernel : LoweredKernelFunction) (cursor : Nat) (fusion : Fusion) : Prop :=
  let f := encode kernel
  (∀ op n, f.code[cursor]? = some op →
    fallthroughAdvance op.op (materializedU32 f cursor) = some n →
    startOf f.code cursor + 1 + n =
      startOf f.code (cursor + 1 + (fusion.skipped (kernel.code.drop cursor)).length)) ∧
  (fusion = .load8UpdateBranchTakenLocalGet4 → ∀ branch label target,
    kernel.code[cursor]? = some branch → opJumpTarget branch = some label →
    kernel.labels label = some target →
    labelToAddr f.code label + takenAdvance = startOf f.code (target + 1))

def SkipsExact (kernel : LoweredKernelFunction) : Prop :=
  ∀ cursor fusion, Fires kernel cursor fusion → LandsExactly kernel cursor fusion

/-- No op that a fused handler jumps over is fused itself, nor is the branch target whose
`local.get` a branch takes in. -/
def NoAbsorbedFusion (kernel : LoweredKernelFunction) : Prop :=
  ∀ cursor fusion, inputFusion kernel.code cursor kernel.labels = some fusion →
    (∀ i, i < (fusion.skipped (kernel.code.drop cursor)).length →
      inputFusion kernel.code (cursor + 1 + i) kernel.labels = none) ∧
    (fusion = .load8UpdateBranchTakenLocalGet4 → ∀ target,
      takenTarget kernel.code cursor kernel.labels = some target →
      inputFusion kernel.code target kernel.labels = none)

private theorem slotCount_take_succ {code : List LoweredOp} {first len : Nat} {op : LoweredOp}
    (hget : code[first + len]? = some op) :
    slotCount ((code.drop first).take (len + 1)) =
      slotCount ((code.drop first).take len) + slotLen op := by
  have hget' : (code.drop first)[len]? = some op := by rw [List.getElem?_drop, hget]
  obtain ⟨hlt, rfl⟩ := List.getElem?_eq_some_iff.mp hget'
  rw [List.take_succ_eq_append_getElem hlt, slotCount_append]
  simp

/-- A stretch of code keeps its slots exactly when none of its ops is fused. -/
private theorem slotCount_stretch {kernel : LoweredKernelFunction} (hwf : WellFormed kernel)
    {first len : Nat} (hlen : first + len ≤ kernel.code.length) :
    slotCount ((kernel.code.drop first).take len) ≤
        slotCount (((encode kernel).code.drop first).take len) ∧
      (slotCount (((encode kernel).code.drop first).take len) =
          slotCount ((kernel.code.drop first).take len) ↔
        ∀ i, i < len → inputFusion kernel.code (first + i) kernel.labels = none) := by
  induction len with
  | zero => simp
  | succ len ih =>
      obtain ⟨hle, hiff⟩ := ih (by omega)
      have hlt : first + len < kernel.code.length := by omega
      have hget : kernel.code[first + len]? = some kernel.code[first + len] :=
        List.getElem?_eq_getElem hlt
      obtain ⟨fused, final, hplaced⟩ := placed hwf hget
      rw [slotCount_take_succ hget, slotCount_take_succ hplaced.get]
      have hgrows := hplaced.grows
      refine ⟨by omega, ?_⟩
      constructor
      · intro heq i hi
        have hsame : slotLen final = slotLen kernel.code[first + len] := by omega
        rcases Nat.lt_succ_iff_lt_or_eq.mp hi with hi | rfl
        · exact hiff.mp (by omega) i hi
        · exact hplaced.same_iff.mp hsame
      · intro hnone
        have hsame := hplaced.same_iff.mpr (hnone len (by omega))
        have hprev := hiff.mpr fun i hi => hnone i (by omega)
        omega

private theorem takenTarget_of_fires {kernel : LoweredKernelFunction} {cursor label target : Nat}
    {branch : LoweredOp}
    (hfires : (takenTarget kernel.code cursor kernel.labels).isSome)
    (hbranch : kernel.code[cursor]? = some branch) (hlabel : opJumpTarget branch = some label)
    (htarget : kernel.labels label = some target) :
    takenTarget kernel.code cursor kernel.labels = some target := by
  unfold takenTarget at hfires ⊢
  simp only [hbranch, hlabel, htarget, Option.bind_eq_bind, Option.bind_some] at hfires ⊢
  split at hfires
  · simp at hfires
  · next hop =>
      simp only [hop, if_false]
      cases hget : kernel.code[target]? with
      | none => simp [hget] at hfires
      | some op =>
          simp only [hget, Option.bind_some] at hfires ⊢
          split at hfires
          · simp at hfires
          · next hcond => simp only [hcond, if_false]

private theorem falls_iff {kernel : LoweredKernelFunction} (hwf : WellFormed kernel)
    {cursor : Nat} {fusion : Fusion}
    (hfires : inputFusion kernel.code cursor kernel.labels = some fusion) :
    (∀ op n, (encode kernel).code[cursor]? = some op →
      fallthroughAdvance op.op (materializedU32 (encode kernel) cursor) = some n →
      startOf (encode kernel).code cursor + 1 + n = startOf (encode kernel).code
        (cursor + 1 + (fusion.skipped (kernel.code.drop cursor)).length)) ↔
    ∀ i, i < (fusion.skipped (kernel.code.drop cursor)).length →
      inputFusion kernel.code (cursor + 1 + i) kernel.labels = none := by
  obtain ⟨op, hget⟩ := inputFusion_inRange hfires
  have hwindow := drop_eq_cons hget
  obtain ⟨fused, final, hplaced⟩ := placed hwf hget
  have hfused := hplaced.fires fusion hfires
  rw [hwindow]
  have hfront := hfused.skipped
  have hreads := hplaced.pooled.reads hplaced.get
  have hskip : fusion.skipped (op :: kernel.code.drop (cursor + 1)) =
      (kernel.code.drop (cursor + 1)).take
        (fusion.skipped (op :: kernel.code.drop (cursor + 1))).length :=
    List.prefix_iff_eq_take.mp hfront
  have hlen : cursor + 1 + (fusion.skipped (op :: kernel.code.drop (cursor + 1))).length ≤
      kernel.code.length := by
    have hle := hfront.length_le
    rw [List.length_drop] at hle
    have := (List.getElem?_eq_some_iff.mp hget).1
    omega
  obtain ⟨_, hiff⟩ := slotCount_stretch hwf hlen
  rw [← hiff, ← hskip]
  have hstart := startOf_succ hplaced.get
  have hend := startOf_add (encode kernel).code (cursor + 1)
    (fusion.skipped (op :: kernel.code.drop (cursor + 1))).length
  have hslot : slotLen final = 1 + fused.operands.length := hplaced.pooled.slotLen_eq
  constructor
  · intro hlands
    by_cases hempty : fusion.skipped (op :: kernel.code.drop (cursor + 1)) = []
    · simp [hempty]
    · obtain ⟨n, hn⟩ := Option.isSome_iff_exists.mp
        (hfused.falls hempty (materializedU32 (encode kernel) cursor))
      have hadvance := hfused.advance _ n hreads hn
      rw [← hplaced.pooled.handler] at hn
      have := hlands final n hplaced.get hn
      omega
  · intro hsame op' n hop' hn
    obtain rfl : final = op' := Option.some.inj (hplaced.get.symm.trans hop')
    rw [hplaced.pooled.handler] at hn
    have hadvance := hfused.advance _ n hreads hn
    omega

/-- The address at which a branch that takes in its target's `local.get` goes on. -/
private theorem taken_iff {kernel : LoweredKernelFunction} (hwf : WellFormed kernel)
    {cursor target : Nat}
    (htaken : takenTarget kernel.code cursor kernel.labels = some target) {label : Nat}
    (htarget : kernel.labels label = some target) :
    labelToAddr (encode kernel).code label + takenAdvance =
        startOf (encode kernel).code (target + 1) ↔
      inputFusion kernel.code target kernel.labels = none := by
  obtain ⟨_, _, op, _, _, _, hget, hop⟩ := takenTarget_spec htaken
  obtain ⟨fused, final, hplaced⟩ := placed hwf hget
  have hone := (hwf.operands op (List.mem_of_getElem? hget)).count hop rfl
  have haddr := encode_labelToAddr hwf hget htarget
  rw [haddr, startOf_succ hplaced.get, ← hplaced.same_iff, slotLen, slotLen, hone, takenAdvance]
  omega

/-- Every fused op of the encoded function lands exactly where it has to if and only if no op
that one of them jumps over, or takes in at its branch target, is fused itself. -/
theorem skipsExact_iff {kernel : LoweredKernelFunction} (hwf : WellFormed kernel) :
    SkipsExact kernel ↔ NoAbsorbedFusion kernel := by
  have hfires : ∀ cursor fusion, Fires kernel cursor fusion ↔
      inputFusion kernel.code cursor kernel.labels = some fusion :=
    fun cursor fusion => fuseAt_some_iff hwf.operands cursor fusion
  constructor
  · intro hexact cursor fusion hfusion
    obtain ⟨hfalls, htaken⟩ := hexact cursor fusion ((hfires cursor fusion).mpr hfusion)
    refine ⟨(falls_iff hwf hfusion).mp hfalls, ?_⟩
    intro hkind target htarget
    obtain ⟨branch, label, op, hbranch, hlabel, hindex, _, _⟩ := takenTarget_spec htarget
    exact (taken_iff hwf htarget hindex).mp (htaken hkind branch label target hbranch hlabel hindex)
  · intro hnone cursor fusion hfire
    have hfusion := (hfires cursor fusion).mp hfire
    obtain ⟨hskipped, htarget⟩ := hnone cursor fusion hfusion
    refine ⟨(falls_iff hwf hfusion).mpr hskipped, ?_⟩
    intro hkind branch label target hbranch hlabel hindex
    have htaken := takenTarget_of_fires (inputFusion_taken (hkind ▸ hfusion)) hbranch hlabel hindex
    exact (taken_iff hwf htaken hindex).mpr (htarget hkind target htaken)

/-! Seventeen reads of a local, selected as two runs of eight and a single one. -/

def localGet4Of (label : Option Nat) : LoweredOp :=
  ⟨label, .opLocalGet4, [rawU32Operand 0]⟩

def localGet4RunOf (label : Option Nat) (count : Nat) : LoweredOp :=
  ⟨label, .opLocalGet4Run, rawU32Operand count :: List.replicate count (rawU32Operand 0)⟩

def seventeenGets : LoweredKernelFunction :=
  ⟨[⟨0, 0, [localGet4RunOf (some 0) 8, localGet4RunOf none 8, localGet4Of none,
    ⟨none, .other 0, []⟩]⟩]⟩

/-- One run of eight followed by a single read: nothing absorbed is fused again. -/
def nineGets : LoweredKernelFunction :=
  ⟨[⟨0, 0, [localGet4RunOf (some 0) 8, localGet4Of none, ⟨none, .other 0, []⟩]⟩]⟩

private theorem operandsOk_run (label : Option Nat) : OperandsOk (localGet4RunOf label 8) :=
  ⟨BitVec.ofNat 64 8, List.replicate 8 (rawU32Operand 0), rfl, by decide⟩

private theorem operandsOk_get (label : Option Nat) : OperandsOk (localGet4Of label) := by
  rintro count ⟨⟩
  rfl

private theorem operandsOk_other (id : Nat) : OperandsOk ⟨none, .other id, []⟩ := by
  rintro count ⟨⟩

private theorem nineGets_wellFormed : WellFormed nineGets := by
  refine wellFormed_of_entries ?_ (by decide) (by decide)
  simp only [LoweredKernelFunction.code, nineGets, List.flatMap_cons, List.flatMap_nil,
    List.append_nil, List.mem_cons, List.not_mem_nil, or_false, forall_eq_or_imp, forall_eq]
  exact ⟨operandsOk_run _, operandsOk_get _, operandsOk_other 0⟩

private theorem seventeenGets_wellFormed : WellFormed seventeenGets := by
  refine wellFormed_of_entries ?_ (by decide) (by decide)
  simp only [LoweredKernelFunction.code, seventeenGets, List.flatMap_cons, List.flatMap_nil,
    List.append_nil, List.mem_cons, List.not_mem_nil, or_false, forall_eq_or_imp, forall_eq]
  exact ⟨operandsOk_run _, operandsOk_run _, operandsOk_get _, operandsOk_other 0⟩

theorem skipsExact_iff_nineGets :
    WellFormed nineGets ∧ (SkipsExact nineGets ↔ NoAbsorbedFusion nineGets) :=
  ⟨nineGets_wellFormed, skipsExact_iff nineGets_wellFormed⟩

/-- The second run is fused with the last read after the first one was told its length. -/
theorem seventeenGets_not_skipsExact :
    WellFormed seventeenGets ∧ ¬SkipsExact seventeenGets := by
  refine ⟨seventeenGets_wellFormed, ?_⟩
  intro hexact
  have hlands := (hexact 0 .localGet4RunSkip ⟨_, rfl⟩).1 _ _ rfl rfl
  revert hlands
  decide

end Telomere.Optimizer
