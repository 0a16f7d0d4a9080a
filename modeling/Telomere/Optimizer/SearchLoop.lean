import Telomere.Lib.Except
import Telomere.Optimizer.UnfusedRun
import Telomere.Vm.Loops

/-!
# Search loops

The encoder puts a search loop over a compare of a list node and a branch on the next node. The
handler keeps the node and the key in variables and takes the branch to be the loop's back edge.
-/

namespace Telomere.Optimizer

open Vm Lib

def Fusion.searches : Fusion → Bool
  | .i32Load16ULocalBaseEqSearchLoopEntry | .i32Load8ULocalBaseMaskedSearchLoopEntry => true
  | _ => false

/-- The compare, the branch on the next node and the branch of a search without a match. -/
def searchBody (kernel : LoweredKernelFunction) (cursor : Nat) : LoopBody :=
  let miss := if (missTarget (kernel.code.drop (cursor + 2))).isSome then .op .leave .leave
    else .leave
  .op (.op miss .back) .leave

/-- The search loop at the cursor ends as the ops it stands for do. -/
def EqualsSearch (kernel : LoweredKernelFunction) (cursor : Nat) (s : VmState) : Prop :=
  EndAlike (Agrees kernel.code) (superPass (encode kernel) cursor)
    (superEnter (encode kernel) cursor s) (loopPass kernel.unfused cursor (searchBody kernel cursor))
    s

/-- From the target of the closing branch, only idle ops lead to the cursor. -/
def ClosesLoop (code : List LoweredOp) (target cursor height : Nat) : Prop :=
  target ≤ cursor ∧ ∀ i, target ≤ i → i < cursor → ∃ op, code[i]? = some op ∧ Idle height op

/-- What the matcher takes for granted: the branch on the next node goes back to the compare, the
three locals differ, and an unmasked key fits in the sixteen bits that are compared. -/
structure SearchLoopSafe (kernel : LoweredKernelFunction) (cursor : Nat) (s : VmState) : Prop where
  closes : ∃ target, branchIndex kernel (cursor + 1) = some target ∧
    ClosesLoop kernel.code target cursor s.stack.length
  node_data : u32 (opWords kernel cursor 0) ≠ u32 (opWords kernel cursor 3)
  key_node : u32 (opWords kernel cursor 6) ≠ u32 (opWords kernel cursor 0)
  key_data : u32 (opWords kernel cursor 6) ≠ u32 (opWords kernel cursor 3)
  key : handlerAt kernel.unfused cursor = .opI32LoadLocalBaseSet4I32Load16ULocalBaseLocalEqBrIf →
    (s.locals (u32 (opWords kernel cursor 6))).toNat < 2 ^ 16

private theorem loadSetLoadCompare_congr {read : Memory → Nat → Except Trap (BitVec 32)}
    {first second : BitVec 32 → BitVec 32 → Bool} {word word' : Words} {s : VmState}
    (hwords : ∀ i, i < 7 → word i = word' i) (hkey : u32 (word' 6) ≠ u32 (word' 3))
    (hcompare : ∀ value, first value (s.locals (u32 (word' 6))) =
      second value (s.locals (u32 (word' 6)))) :
    loadSetLoadCompare read first word s = loadSetLoadCompare read second word' s := by
  have hkept : ∀ addr, (s.setLocal (u32 (word' 3)) addr).locals (u32 (word' 6)) =
      s.locals (u32 (word' 6)) := fun addr => if_neg hkey
  simp only [loadSetLoadCompare, loadStartLocalBase, hwords 0 (by decide), hwords 1 (by decide),
    hwords 2 (by decide), hwords 3 (by decide), hwords 4 (by decide), hwords 5 (by decide),
    hwords 6 (by decide), hkept, hcompare]

private theorem loadSetLoadCompare_ok {read : Memory → Nat → Except Trap (BitVec 32)}
    {compare : BitVec 32 → BitVec 32 → Bool} {word : Words} {s s' : VmState} {cond : Bool}
    (h : loadSetLoadCompare read compare word s = .ok (cond, s')) :
    ∃ addr, s' = s.setLocal (u32 (word 3)) addr := by
  obtain ⟨start, _, h⟩ := bind_eq_ok.mp h
  obtain ⟨addr, _, h⟩ := bind_eq_ok.mp h
  obtain ⟨start', _, h⟩ := bind_eq_ok.mp h
  obtain ⟨value, _, h⟩ := bind_eq_ok.mp h
  exact ⟨addr, (Prod.mk.inj (pure_eq_ok.mp h)).2.symm⟩

/-- The first half of a handler's pass is the compare op on the cached values. -/
private theorem handler_pass (loop : SearchLoop) (word : Words) (cached : Cached) (s : VmState)
    (hnode : cached.cursor = s.locals (u32 (word 0))) :
    loop.handler.pass word cached s = do
      let (cond, s) ← loadSetLoadCompare loop.read
        (fun value _ => loop.matched word value cached.other) word s
      if cond then return .leave (⟨.jump (loop.nextAt + 2) 0, false⟩, s)
      else
        let next ← s.memory.readU32At (← computeMemoryOffset (word (loop.nextAt + 1))
          (cached.cursor + u32 (word loop.nextAt)))
        let s := s.setLocal (u32 (word 0)) next
        if next = 0 then return .leave (⟨loop.miss, false⟩, s)
        else return .again (⟨next, cached.other⟩, s) := by
  simp only [SearchLoop.handler, loadSetLoadCompare, loadStartLocalBase, hnode, bind_assoc,
    pure_bind]

section Body

variable {kernel : LoweredKernelFunction} {index : Nat} {op : LoweredOp} {s s' : VmState}

private theorem body_ok (hget : kernel.code[index]? = some op) {control : Control}
    (hexec : exec op.op (words (encode kernel).constPool op) s = .ok (control, s'))
    (fall taken : LoopBody) :
    (LoopBody.op fall taken).run kernel.unfused (some index) s =
      match control.next with
      | .fall _ => fall.run kernel.unfused (continuation kernel.code index op control) s'
      | .jump _ _ => taken.run kernel.unfused (continuation kernel.code index op control) s' := by
  rw [LoopBody.run, step_unfused hget, hexec]
  rfl

private theorem body_trap (hget : kernel.code[index]? = some op) {trap : Trap}
    (hexec : exec op.op (words (encode kernel).constPool op) s = .error trap)
    (fall taken : LoopBody) :
    (LoopBody.op fall taken).run kernel.unfused (some index) s = .error trap := by
  rw [LoopBody.run, step_unfused hget, hexec]
  rfl

end Body

/-- The two ops of a search, the op that replaces the first of them and how their operands and
targets correspond. -/
private structure Site (kernel : LoweredKernelFunction) (cursor : Nat) (compare next r : LoweredOp)
    (loop : SearchLoop) (test : BitVec 32 → BitVec 32 → Bool) : Prop where
  get_compare : kernel.code[cursor]? = some compare
  get_next : kernel.code[cursor + 1]? = some next
  handler : loopHandler r.op = some loop.handler
  exec_compare : ∀ s, exec compare.op (words (encode kernel).constPool compare) s = do
    let (cond, s) ← loadSetLoadCompare loop.read test (words (encode kernel).constPool compare) s
    return (memoryBrIf loop.nextAt (loop.nextAt + 1) cond, s)
  notEnd : compare.op ≠ .opEnd
  nextHandler : next.op = .opI32LoadLocalBaseTee4BrIf
  falls : compare.operands.length = loop.nextAt + 1
  nextFalls : next.operands.length = 5
  seven : 7 ≤ loop.nextAt
  fields : ∀ i, i < loop.nextAt → words (encode kernel).constPool r i =
    words (encode kernel).constPool compare i
  delta : words (encode kernel).constPool r loop.nextAt = words (encode kernel).constPool next 1
  memarg : words (encode kernel).constPool r (loop.nextAt + 1) =
    words (encode kernel).constPool next 2
  base : u32 (words (encode kernel).constPool next 0) =
    u32 (words (encode kernel).constPool compare 0)
  dst : u32 (words (encode kernel).constPool next 3) =
    u32 (words (encode kernel).constPool compare 0)
  found : ∃ target, landing kernel.code cursor compare (.jump loop.nextAt 0) = some target ∧
    landing (encode kernel).code cursor r (.jump (loop.nextAt + 2) 0) = some target

section Simulation

variable {kernel : LoweredKernelFunction} {cursor : Nat} {compare next r : LoweredOp}
  {loop : SearchLoop} {test : BitVec 32 → BitVec 32 → Bool} {fusion : Fusion}

private theorem superPass_fused (hwf : WellFormed kernel)
    (hfuse : fuseAt (fusePrefix kernel.labels kernel.code cursor) cursor kernel.labels =
      some (fusion, r)) {handler : LoopHandler} (hhandler : loopHandler r.op = some handler)
    (cached : Cached) (s : VmState) :
    superEnter (encode kernel) cursor s =
        (handler.enter (words (encode kernel).constPool r) s, s) ∧
      superPass (encode kernel) cursor (cached, s) =
        settle (encode kernel).code cursor r
          (handler.pass (words (encode kernel).constPool r) cached s) := by
  obtain ⟨final, hget, hop, hwords, hcont⟩ := encoded_fused hwf hfuse
  have hsettle : settle (encode kernel).code cursor final =
      settle (encode kernel).code cursor r := by
    funext outcome
    unfold settle
    rw [hcont]
  constructor
  · simp only [superEnter, hget, hop, hhandler, hwords, Option.bind_some, Option.map_some]
  · simp only [superPass, hget, hop, hhandler, hwords, hsettle, Option.bind_some, Option.map_some]

/-- The handler is at the loop's node and looks for its key. -/
private def Related (word : Words) (loop : SearchLoop) (key : BitVec 32) (height : Nat)
    (state : Cached × VmState) (s : VmState) : Prop :=
  state.2 = s ∧ state.1.cursor = s.locals (u32 (word 0)) ∧ state.1.other = key &&& loop.mask ∧
    s.locals (u32 (word 6)) = key ∧ s.stack.length = height

/-- Without a match on the last node both searches go on at the same op. -/
private def MissAlike (kernel : LoweredKernelFunction) (cursor : Nat) (r : LoweredOp)
    (loop : SearchLoop) : Prop :=
  ∀ s : VmState, ∃ target reached,
    landing (encode kernel).code cursor r loop.miss = some target ∧
    (if (missTarget (kernel.code.drop (cursor + 2))).isSome then LoopBody.op .leave .leave
      else .leave).run kernel.unfused (some (skipEndOps kernel.code (cursor + 2))) s =
        .ok (false, some reached, s) ∧
    skipEndOps kernel.code target = skipEndOps kernel.code reached

/-- What a handler does when the node's field does not match. -/
private def nextPass (loop : SearchLoop) (word : Words) (cached : Cached) (s : VmState) :
    Except Trap (Pass (Cached × VmState) (Control × VmState)) := do
  let next ← s.memory.readU32At (← computeMemoryOffset (word (loop.nextAt + 1))
    (cached.cursor + u32 (word loop.nextAt)))
  let s := s.setLocal (u32 (word 0)) next
  if next = 0 then return .leave (⟨loop.miss, false⟩, s)
  else return .again (⟨next, cached.other⟩, s)

private theorem next_alike (hsite : Site kernel cursor compare next r loop test)
    (hmiss : MissAlike kernel cursor r loop) {key : BitVec 32} {height target : Nat}
    (hkeyNode : u32 (words (encode kernel).constPool compare 6) ≠
      u32 (words (encode kernel).constPool compare 0))
    (hback : landing kernel.code (cursor + 1) next (.jump 4 0) = some target)
    (hcloses : ClosesLoop kernel.code target cursor height) {cached : Cached} {s : VmState}
    (hrelated : Related (words (encode kernel).constPool compare) loop key height (cached, s) s) :
    PassAlike (Related (words (encode kernel).constPool compare) loop key height)
      (Agrees kernel.code)
      (settle (encode kernel).code cursor r
        (nextPass loop (words (encode kernel).constPool r) cached s))
      (close kernel.unfused cursor ((LoopBody.op
        (if (missTarget (kernel.code.drop (cursor + 2))).isSome then .op .leave .leave else .leave)
        .back).run kernel.unfused (some (cursor + 1)) s)) := by
  obtain ⟨-, hcursor, hother, hkey, hheight⟩ := hrelated
  dsimp only at hcursor hother
  have hseven := hsite.seven
  have hload : computeMemoryOffset (words (encode kernel).constPool r (loop.nextAt + 1))
      (cached.cursor + u32 (words (encode kernel).constPool r loop.nextAt)) =
      loadStartLocalBase (words (encode kernel).constPool next) 0 s := by
    rw [loadStartLocalBase, hsite.memarg, hsite.delta, hcursor, hsite.base]
  have hexec : exec next.op (words (encode kernel).constPool next) s = (do
      let value ← s.memory.readU32At
        (← loadStartLocalBase (words (encode kernel).constPool next) 0 s)
      return (memoryBrIf 4 5 (value ≠ 0),
        s.setLocal (u32 (words (encode kernel).constPool next 3)) value)) := by
    rw [hsite.nextHandler]
    rfl
  rw [nextPass, hload, hsite.fields 0 (by omega)]
  rw [hsite.dst] at hexec
  cases hread : loadStartLocalBase (words (encode kernel).constPool next) 0 s >>=
      s.memory.readU32At with
  | error trap =>
      have htrap : exec next.op (words (encode kernel).constPool next) s = .error trap := by
        rw [hexec, ← bind_assoc, hread]
        rfl
      rw [body_trap hsite.get_next htrap, ← bind_assoc, hread]
      rfl
  | ok value =>
      have hok : exec next.op (words (encode kernel).constPool next) s =
          .ok (memoryBrIf 4 5 (value ≠ 0),
            s.setLocal (u32 (words (encode kernel).constPool compare 0)) value) := by
        rw [hexec, ← bind_assoc, hread]
        rfl
      rw [body_ok hsite.get_next hok, ← bind_assoc, hread]
      by_cases hzero : value = 0
      · obtain ⟨left, reached, hleft, hrun, hsame⟩ :=
          hmiss (s.setLocal (u32 (words (encode kernel).constPool compare 0)) value)
        have hfall : continuation kernel.code (cursor + 1) next ⟨.fall 5, true⟩ =
            some (skipEndOps kernel.code (cursor + 2)) :=
          continuation_landed (landing_fall hsite.get_next hsite.nextFalls.symm)
        rw [show memoryBrIf 4 5 (value ≠ 0) = ⟨.fall 5, true⟩ by simp [memoryBrIf, hzero]]
        dsimp only
        rw [hfall, hrun]
        simp only [bind, Except.bind, pure, Except.pure, hzero, if_true, settle, close,
          PassAlike, Agrees, continuation, hleft, Bool.false_eq_true, if_false, hsame, and_self]
      · have hjump : continuation kernel.code (cursor + 1) next ⟨.jump 4 0, true⟩ =
            some (skipEndOps kernel.code target) := continuation_landed hback
        have hagain : reenter kernel.unfused cursor
            (s.setLocal (u32 (words (encode kernel).constPool compare 0)) value)
            (some (skipEndOps kernel.code target)) =
              .again (s.setLocal (u32 (words (encode kernel).constPool compare 0)) value) := by
          refine reenter_again (skipEndOps_le hcloses.1 hsite.get_compare hsite.notEnd) hheight ?_
          intro i hi hlt
          exact hcloses.2 i (Nat.le_trans (Nat.le_add_right _ _) hi) hlt
        rw [show memoryBrIf 4 5 (value ≠ 0) = ⟨.jump 4 0, true⟩ by
          rw [memoryBrIf, if_pos (decide_eq_true hzero)]]
        dsimp only
        rw [hjump]
        simp only [bind, Except.bind, pure, Except.pure, hzero, if_false, settle, close,
          LoopBody.run, hagain, PassAlike]
        refine ⟨rfl, ?_, hother, ?_, hheight⟩
        · exact (if_pos rfl).symm
        · exact (if_neg hkeyNode).trans hkey

private theorem pass_alike (hwf : WellFormed kernel)
    (hfuse : fuseAt (fusePrefix kernel.labels kernel.code cursor) cursor kernel.labels =
      some (fusion, r)) (hsite : Site kernel cursor compare next r loop test)
    (hmiss : MissAlike kernel cursor r loop) {key : BitVec 32} {height target : Nat}
    (hdata : u32 (words (encode kernel).constPool compare 0) ≠
      u32 (words (encode kernel).constPool compare 3))
    (hkeyNode : u32 (words (encode kernel).constPool compare 6) ≠
      u32 (words (encode kernel).constPool compare 0))
    (hkeyData : u32 (words (encode kernel).constPool compare 6) ≠
      u32 (words (encode kernel).constPool compare 3))
    (htest : ∀ value, loop.matched (words (encode kernel).constPool r) value (key &&& loop.mask) =
      test value key)
    (hback : landing kernel.code (cursor + 1) next (.jump 4 0) = some target)
    (hcloses : ClosesLoop kernel.code target cursor height) (state : Cached × VmState) (s : VmState)
    (hrelated : Related (words (encode kernel).constPool compare) loop key height state s) :
    PassAlike (Related (words (encode kernel).constPool compare) loop key height)
      (Agrees kernel.code) (superPass (encode kernel) cursor state)
      (loopPass kernel.unfused cursor (searchBody kernel cursor) s) := by
  obtain ⟨cached, s'⟩ := state
  obtain ⟨rfl, hcursor, hother, hkey, hheight⟩ := hrelated
  dsimp only at hcursor hother hkey hheight
  have hseven := hsite.seven
  have hword := fun i (hi : i < 7) => hsite.fields i (by omega)
  have hhead : loadSetLoadCompare loop.read
      (fun value _ => loop.matched (words (encode kernel).constPool r) value cached.other)
      (words (encode kernel).constPool r) s' =
      loadSetLoadCompare loop.read test (words (encode kernel).constPool compare) s' :=
    loadSetLoadCompare_congr hword hkeyData fun value => by rw [hother, htest, hkey]
  rw [(superPass_fused hwf hfuse hsite.handler cached s').2,
    handler_pass _ _ _ _ (by rw [hcursor, hword 0 (by decide)]), hhead, loopPass, searchBody]
  have hexec := hsite.exec_compare s'
  cases hload : loadSetLoadCompare loop.read test (words (encode kernel).constPool compare) s' with
  | error trap =>
      rw [hload] at hexec
      rw [body_trap hsite.get_compare hexec]
      rfl
  | ok result =>
      obtain ⟨cond, s₁⟩ := result
      rw [hload] at hexec
      have hstep := body_ok hsite.get_compare hexec
      obtain ⟨addr, hs₁⟩ := loadSetLoadCompare_ok hload
      cases cond with
      | true =>
          obtain ⟨found, hfound, hfound'⟩ := hsite.found
          have hjump : continuation kernel.code cursor compare ⟨.jump loop.nextAt 0, true⟩ =
              some (skipEndOps kernel.code found) := continuation_landed hfound
          rw [hstep, show memoryBrIf loop.nextAt (loop.nextAt + 1) true =
            ⟨.jump loop.nextAt 0, true⟩ from rfl]
          dsimp only
          rw [hjump]
          simp only [bind, Except.bind, pure, Except.pure, if_true, settle, close, LoopBody.run,
            PassAlike, Agrees, continuation, hfound', Bool.false_eq_true, if_false,
            skipEndOps_idem, and_self]
      | false =>
          have hfall : continuation kernel.code cursor compare ⟨.fall (loop.nextAt + 1), true⟩ =
              some (cursor + 1) := by
            rw [continuation_landed (landing_fall hsite.get_compare hsite.falls.symm), if_pos rfl,
              skipEndOps_of_ne hsite.get_next (by rw [hsite.nextHandler]; decide)]
          rw [hstep, show memoryBrIf loop.nextAt (loop.nextAt + 1) false =
            ⟨.fall (loop.nextAt + 1), true⟩ from rfl]
          dsimp only
          rw [hfall]
          refine next_alike hsite hmiss hkeyNode hback hcloses ⟨rfl, ?_, hother, ?_, ?_⟩
          · rw [hs₁]
            exact hcursor.trans (if_neg hdata).symm
          · rw [hs₁]
            exact (if_neg hkeyData).trans hkey
          · rw [hs₁]
            exact hheight

end Simulation

private theorem sameLocalOperand_words {first second : LoweredOp} {i j : Nat}
    (h : sameLocalOperand first.operands[i]? second.operands[j]?) (pool : ConstPool) :
    u32 (words pool second j) = u32 (words pool first i) := by
  have hraw : ∀ op : LoweredOp, ∀ k, (rawLocalAddr op.operands[k]?).isSome →
      rawLocalAddr op.operands[k]? = some (u32 (words pool op k)) := by
    intro op k hsome
    unfold rawLocalAddr at hsome ⊢
    split at hsome
    · next encoded hget => simp [words, hget, operandWord]
    · cases hsome
  simp only [sameLocalOperand, Bool.and_eq_true, beq_iff_eq] at h
  have hsecond := hraw second j (h.2 ▸ h.1)
  rw [← h.2, hraw first i h.1] at hsecond
  exact (Option.some.inj hsecond).symm

section Window

variable {kernel : LoweredKernelFunction} {cursor : Nat} {compare next r : LoweredOp}
  {loop : SearchLoop} {test : BitVec 32 → BitVec 32 → Bool} {fusion : Fusion}
  {compareOp loopOp fallthroughOp : Op} {rest : List LoweredOp}
  {fields : List LoweredOperand → Option (List LoweredOperand)}

private theorem site_of_window (hex : Executable kernel)
    (hwindow : kernel.code.drop cursor = compare :: next :: rest)
    (hspec : SearchWindow compareOp loopOp fallthroughOp fields compare next rest r)
    (hfields : ∀ operands taken, fields operands = some taken →
      taken = operands.take loop.nextAt ∧ taken.length = loop.nextAt)
    (hcount : operandCount compareOp = some (loop.nextAt + 1)) (hseven : 7 ≤ loop.nextAt)
    (hhandler : loopHandler r.op = some loop.handler)
    (hexec : ∀ s, exec compareOp (words (encode kernel).constPool compare) s = do
      let (cond, s) ← loadSetLoadCompare loop.read test (words (encode kernel).constPool compare) s
      return (memoryBrIf loop.nextAt (loop.nextAt + 1) cond, s)) :
    Site kernel cursor compare next r loop test := by
  have hget : kernel.code[cursor]? = some compare := get_of_drop hwindow 0
  have hnext : kernel.code[cursor + 1]? = some next := get_of_drop hwindow 1
  have hlen := (hex.operands compare (List.mem_of_getElem? hget)).count hspec.compareHandler hcount
  obtain ⟨taken, delta, memarg, label, htaken, hdelta, hmemarg, hlabel, hcase⟩ := hspec.operands
  obtain ⟨htake, htakenLen⟩ := hfields _ _ htaken
  obtain ⟨tail, hoperands⟩ : ∃ tail, r.operands =
      taken ++ delta :: memarg :: .jumpTarget label :: tail := by
    rcases hcase with ⟨_, miss, _, _, _, h⟩ | ⟨_, _, h⟩
    · exact ⟨[.jumpTarget miss], h⟩
    · exact ⟨[], h⟩
  have hbehind : ∀ i, r.operands[loop.nextAt + i]? =
      (delta :: memarg :: LoweredOperand.jumpTarget label :: tail)[i]? := by
    intro i
    rw [hoperands, List.getElem?_append_right (by omega), htakenLen, Nat.add_sub_cancel_left]
  refine ⟨hget, hnext, hhandler, ?_, ?_, hspec.nextHandler, hlen,
    (hex.operands next (List.mem_of_getElem? hnext)).count hspec.nextHandler rfl, hseven, ?_, ?_,
    ?_, sameLocalOperand_words hspec.base _, sameLocalOperand_words hspec.dst _, ?_⟩
  · rw [hspec.compareHandler]
    exact hexec
  · rw [hspec.compareHandler]
    rintro rfl
    cases hcount
  · intro i hi
    have hsame : r.operands[i]? = compare.operands[i]? := by
      rw [hoperands, List.getElem?_append_left (by omega), htake, List.getElem?_take_of_lt hi]
    simp only [words, hsame]
  · have hzero := hbehind 0
    rw [Nat.add_zero] at hzero
    simp only [words, hzero, hdelta, List.getElem?_cons_zero]
  · simp only [words, hbehind 1, hmemarg, List.getElem?_cons_succ, List.getElem?_cons_zero]
  · have hjump := jump_operand hlen hlabel
    obtain ⟨target, htarget, hlt⟩ := hex.target compare (List.mem_of_getElem? hget) label
      (List.mem_of_getElem? hjump)
    exact ⟨target, (jump_lands hex.toWellFormed htarget hlt hjump cursor).1,
      (jump_lands hex.toWellFormed htarget hlt (hbehind 2) cursor).2⟩

private theorem missAlike_of_window (hex : Executable kernel)
    (hfuse : fuseAt (fusePrefix kernel.labels kernel.code cursor) cursor kernel.labels =
      some (fusion, r))
    (hwindow : kernel.code.drop cursor = compare :: next :: rest)
    (hspec : SearchWindow compareOp loopOp fallthroughOp fields compare next rest r)
    (hfields : ∀ operands taken, fields operands = some taken → taken.length = loop.nextAt)
    (hmiss : loop.miss = if r.op = loopOp then .jump (loop.nextAt + 3) 0
      else .fall (loop.nextAt + 9)) (hne : fallthroughOp ≠ loopOp) :
    MissAlike kernel cursor r loop := by
  intro s
  have hnext : kernel.code[cursor + 1]? = some next := get_of_drop hwindow 1
  have hrest : kernel.code.drop (cursor + 2) = rest := by
    rw [← List.drop_drop, hwindow]
    rfl
  have hfive := (hex.operands next (List.mem_of_getElem? hnext)).count hspec.nextHandler rfl
  obtain ⟨taken, delta, memarg, label, htaken, _, _, _, hcase⟩ := hspec.operands
  have htakenLen := hfields _ _ htaken
  rw [hrest]
  rcases hcase with ⟨miss, label', hsome, hlabel, hop, hoperands⟩ | ⟨hnone, hop, hoperands⟩
  · obtain ⟨tail, rfl, hbr⟩ : ∃ tail, rest = miss :: tail ∧ miss.op = .opBr := by
      unfold missTarget at hsome
      split at hsome
      · next first tail =>
          split at hsome
          · next hbr =>
              obtain rfl := Option.some.inj hsome
              exact ⟨tail, rfl, hbr⟩
          · cases hsome
      · cases hsome
    have hgetMiss : kernel.code[cursor + 2]? = some miss := get_of_drop hwindow 2
    have hmem := List.mem_of_getElem? hgetMiss
    have hone : miss.operands.length = 1 := hex.control miss hmem 1 (by rw [hbr]; rfl)
    have hjump := jump_operand hone hlabel
    obtain ⟨target, htarget, hlt⟩ := hex.target miss hmem label' (List.mem_of_getElem? hjump)
    have hmissing : r.operands[loop.nextAt + 3]? = some (.jumpTarget label') := by
      rw [hoperands, List.getElem?_append_right (by omega), htakenLen, Nat.add_sub_cancel_left]
      rfl
    have hexec : exec miss.op (words (encode kernel).constPool miss) s =
        .ok (⟨.jump 0 0, false⟩, s) := by
      rw [hbr]
      rfl
    have hleave : continuation kernel.code (cursor + 2) miss ⟨.jump 0 0, false⟩ = some target :=
      continuation_landed (jump_lands hex.toWellFormed htarget hlt hjump (cursor + 2)).1
    refine ⟨target, target, ?_, ?_, rfl⟩
    · rw [hmiss, if_pos hop]
      exact (jump_lands hex.toWellFormed htarget hlt hmissing cursor).2
    · rw [hsome, Option.isSome_some, if_pos rfl,
        skipEndOps_of_ne hgetMiss (by rw [hbr]; decide), body_ok hgetMiss hexec]
      dsimp only
      rw [hleave]
      rfl
  · refine ⟨cursor + 2, skipEndOps kernel.code (cursor + 2), ?_, ?_, (skipEndOps_idem _ _).symm⟩
    · have hslots : loop.nextAt + 9 = r.operands.length + slotLen next := by
        simp only [hoperands, slotLen, hfive, List.length_append, htakenLen, List.length_cons,
          List.length_nil]
      rw [hmiss, if_neg (by rw [hop]; exact hne),
        fall_over hex.toWellFormed hfuse hnext hslots, if_pos]
      exact inputFusion_none_of_head hex.toWellFormed hnext (by rw [hspec.nextHandler]; decide)
    · rw [hnone]
      rfl

/-- A search loop whose window is as the matcher takes it to be ends as its ops do. -/
private theorem equalsSearch_of_window (hex : Executable kernel)
    (hfuse : fuseAt (fusePrefix kernel.labels kernel.code cursor) cursor kernel.labels =
      some (fusion, r))
    (hspec : SearchWindow compareOp loopOp fallthroughOp fields compare next rest r)
    (hsite : Site kernel cursor compare next r loop test)
    (hmiss : MissAlike kernel cursor r loop) {s : VmState}
    (hsafe : SearchLoopSafe kernel cursor s)
    (htest : ∀ value, loop.matched (words (encode kernel).constPool r) value
      (s.locals (u32 (opWords kernel cursor 6)) &&& loop.mask) =
        test value (s.locals (u32 (opWords kernel cursor 6)))) :
    EqualsSearch kernel cursor s := by
  obtain ⟨target, htarget, hcloses⟩ := hsafe.closes
  have hdata := hsafe.node_data
  have hkeyNode := hsafe.key_node
  have hkeyData := hsafe.key_data
  rw [opWords_eq hsite.get_compare] at hdata hkeyNode hkeyData htest
  obtain ⟨label, hlabel⟩ := Option.isSome_iff_exists.mp hspec.back
  have hjump := jump_operand hsite.nextFalls hlabel
  have hback : landing kernel.code (cursor + 1) next (.jump 4 0) = some target := by
    obtain ⟨target', htarget', hlt⟩ := hex.target next (List.mem_of_getElem? hsite.get_next) label
      (List.mem_of_getElem? hjump)
    have hsame : target' = target := by
      simpa [branchIndex, hsite.get_next, hlabel, htarget'] using htarget
    rw [← hsame]
    exact (jump_lands hex.toWellFormed htarget' hlt hjump (cursor + 1)).1
  refine endAlike_of_passAlike
    (pass_alike hex.toWellFormed hfuse hsite hmiss hdata hkeyNode hkeyData htest hback hcloses) ?_
  have hseven := hsite.seven
  rw [(superPass_fused hex.toWellFormed hfuse hsite.handler ⟨0, 0⟩ s).1]
  refine ⟨rfl, ?_, ?_, rfl, rfl⟩
  · rw [← hsite.fields 0 (by omega)]
    rfl
  · rw [← hsite.fields 6 (by omega)]
    rfl

end Window

private theorem takeSeven_eq {operands taken : List LoweredOperand}
    (h : takeSeven operands = some taken) : taken = operands.take 7 ∧ taken.length = 7 := by
  unfold takeSeven at h
  split at h
  · obtain rfl := Option.some.inj h
    exact ⟨rfl, rfl⟩
  · cases h

private theorem takeEight_eq {operands taken : List LoweredOperand}
    (h : takeEight operands = some taken) : taken = operands.take 8 ∧ taken.length = 8 := by
  unfold takeEight at h
  split at h
  · obtain rfl := Option.some.inj h
    exact ⟨rfl, rfl⟩
  · cases h

section Families

variable {kernel : LoweredKernelFunction} {cursor : Nat} {r : LoweredOp} {s : VmState}

private theorem and_mask {key : BitVec 32} (h : key.toNat < 2 ^ 16) : key &&& 0xffff = key := by
  apply BitVec.eq_of_toNat_eq
  rw [BitVec.toNat_and]
  exact (Nat.and_two_pow_sub_one_eq_mod key.toNat 16).trans (Nat.mod_eq_of_lt h)

private theorem eq_equalsSearch (hex : Executable kernel)
    (hfuse : fuseAt (fusePrefix kernel.labels kernel.code cursor) cursor kernel.labels =
      some (.i32Load16ULocalBaseEqSearchLoopEntry, r)) (hsafe : SearchLoopSafe kernel cursor s) :
    EqualsSearch kernel cursor s := by
  have happly := fuseAt_apply hfuse
  simp only [Fusion.apply, fusePrefix_drop] at happly
  obtain ⟨compare, next, rest, hwindow, hspec⟩ := fuseSearchLoopEntry_spec happly
  have hget : kernel.code[cursor]? = some compare := get_of_drop hwindow 0
  obtain ⟨miss, hhandler, hmiss⟩ : ∃ miss, loopHandler r.op = some (eqSearchLoop miss).handler ∧
      miss = if r.op = .opI32LoadLocalBaseSet4I32Load16ULocalBaseLocalEqSearchLoop then
        .jump 10 0 else .fall 16 := by
    obtain ⟨_, _, _, _, _, _, _, _, hcase⟩ := hspec.operands
    rcases hcase with ⟨_, _, _, _, hop, _⟩ | ⟨_, hop, _⟩
    · exact ⟨.jump 10 0, by rw [hop]; rfl, by rw [hop]; rfl⟩
    · exact ⟨.fall 16, by rw [hop]; rfl, by rw [hop]; rfl⟩
  have hsite : Site kernel cursor compare next r (eqSearchLoop miss) fun value rhs => value == rhs :=
    site_of_window hex hwindow hspec (fun _ _ => takeSeven_eq) rfl (Nat.le_refl 7) hhandler
      fun _ => rfl
  have hkey := hsafe.key (by simp [handlerAt, LoweredKernelFunction.unfused, hget,
    hspec.compareHandler])
  refine equalsSearch_of_window hex hfuse hspec hsite
    (missAlike_of_window hex hfuse hwindow hspec (fun _ _ h => (takeSeven_eq h).2) hmiss
      (by decide)) hsafe fun value => ?_
  simp only [eqSearchLoop, and_mask hkey]

private theorem masked_equalsSearch (hex : Executable kernel)
    (hfuse : fuseAt (fusePrefix kernel.labels kernel.code cursor) cursor kernel.labels =
      some (.i32Load8ULocalBaseMaskedSearchLoopEntry, r)) (hsafe : SearchLoopSafe kernel cursor s) :
    EqualsSearch kernel cursor s := by
  have happly := fuseAt_apply hfuse
  simp only [Fusion.apply, fusePrefix_drop] at happly
  obtain ⟨compare, next, rest, hwindow, hspec⟩ := fuseSearchLoopEntry_spec happly
  obtain ⟨miss, hhandler, hmiss⟩ : ∃ miss, loopHandler r.op =
      some (maskedSearchLoop miss).handler ∧
      miss = if r.op = .opI32LoadLocalBaseSet4I32Load8ULocalBaseLocalMaskedSearchLoop then
        .jump 11 0 else .fall 17 := by
    obtain ⟨_, _, _, _, _, _, _, _, hcase⟩ := hspec.operands
    rcases hcase with ⟨_, _, _, _, hop, _⟩ | ⟨_, hop, _⟩
    · exact ⟨.jump 11 0, by rw [hop]; rfl, by rw [hop]; rfl⟩
    · exact ⟨.fall 17, by rw [hop]; rfl, by rw [hop]; rfl⟩
  have hsite : Site kernel cursor compare next r (maskedSearchLoop miss) fun value rhs =>
      maskedCompare (u32 (words (encode kernel).constPool compare 7)).toNat value (rhs &&& 0xff) :=
    site_of_window hex hwindow hspec (fun _ _ => takeEight_eq) rfl (Nat.le_succ 7) hhandler
      fun _ => rfl
  refine equalsSearch_of_window hex hfuse hspec hsite
    (missAlike_of_window hex hfuse hwindow hspec (fun _ _ h => (takeEight_eq h).2) hmiss
      (by decide)) hsafe fun value => ?_
  have hkind := hsite.fields 7 (Nat.lt_succ_self 7)
  simp only [maskedSearchLoop, hkind]

/-- A search loop ends as the ops it stands for do, from every state in which the matcher's
assumptions hold. -/
theorem equalsSearch (hex : Executable kernel) {fusion : Fusion}
    (hfires : Fires kernel cursor fusion) (hsearches : fusion.searches) (hsafe : SearchLoopSafe kernel cursor s) :
    EqualsSearch kernel cursor s := by
  obtain ⟨r, hfuse⟩ := hfires
  cases fusion <;> cases hsearches
  case i32Load16ULocalBaseEqSearchLoopEntry => exact eq_equalsSearch hex hfuse hsafe
  case i32Load8ULocalBaseMaskedSearchLoopEntry => exact masked_equalsSearch hex hfuse hsafe

end Families

end Telomere.Optimizer
