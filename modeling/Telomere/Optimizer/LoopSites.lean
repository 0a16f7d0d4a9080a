import Telomere.Optimizer.PointerLoop
import Telomere.Optimizer.SearchLoop

/-!
# Loop superinstructions and the loops they replace

The places at which the optimizer puts a loop superinstruction, with what has to hold there for
it to end as the replaced ops do.
-/

namespace Telomere.Optimizer

open Vm Lib

/-- A place at which an op that runs a whole loop takes the place of the loop's ops. -/
inductive LoopSite where
  | search (kernel : LoweredKernelFunction) (cursor : Nat)
  | reverse (around : Surroundings) (block : CanonBlock) (cursor : Nat) (result : MatchResult)
  | relink (around : Surroundings) (block : CanonBlock) (cursor : Nat) (result : MatchResult)

namespace LoopSite

/-- `encode` installs the search loop there, or `select` emits the pointer loop. -/
def Emitted : LoopSite → Prop
  | search kernel cursor =>
      Executable kernel ∧ ∃ fusion, fusion.searches ∧ Fires kernel cursor fusion
  | reverse around block cursor result =>
      (∀ inst ∈ block.insts, inst.Decoded) ∧
      (∀ other ∈ around.before ++ around.after, other.blockId ≠ block.id) ∧
      emitI32LoadStoreLocalBaseReverseLoop block cursor = some result
  | relink around block cursor result =>
      (∀ inst ∈ block.insts, inst.Decoded) ∧
      (∀ other ∈ around.before ++ around.after, other.blockId ≠ block.id) ∧
      emitI32LoadStoreLocalBaseRelinkLoop block cursor = some result

/-- Same locals, memory, trap and continuation as the replaced ops. -/
def Equals : LoopSite → VmState → Prop
  | search kernel cursor, s => EqualsSearch kernel cursor s
  | reverse around block cursor result, s => EqualsPointerLoop around block cursor result s
  | relink around block cursor result, s => EqualsPointerLoop around block cursor result s

def Safe : LoopSite → VmState → Prop
  | search kernel cursor, s => SearchLoopSafe kernel cursor s
  | reverse around _ _ result, s => ReverseLoopSafe around result s
  | relink around _ _ result, s => RelinkLoopSafe around result s

end LoopSite

/-- A loop superinstruction ends as the loop it replaces from every state in which the closing
branch leads straight back to the window, the locals do not alias and an unmasked key is small. -/
theorem loopSite_equals {site : LoopSite} (hemitted : site.Emitted) {s : VmState}
    (hsafe : site.Safe s) : site.Equals s := by
  cases site with
  | search kernel cursor =>
      obtain ⟨hex, fusion, hsearches, hfires⟩ := hemitted
      exact equalsSearch hex hfires hsearches hsafe
  | reverse around block cursor result =>
      obtain ⟨hdecoded, hlabels, hemit⟩ := hemitted
      exact reverseLoop_equals hdecoded hlabels hemit hsafe
  | relink around block cursor result =>
      obtain ⟨hdecoded, hlabels, hemit⟩ := hemitted
      exact relinkLoop_equals hdecoded hlabels hemit hsafe

/-- A loop block that reverses a list, with the locals `prev` 4, `saved` 8 and `cursor` 12 and
the `next` pointer at the start of a node. -/
def listReversal (front : List CanonInst) : CanonBlock where
  id := 0
  insts := ⟨.opLoop, [rawU32Operand 0], [], []⟩ :: front ++
    [⟨.opLocalGet4, [rawU32Operand 4], [], [.i32]⟩, ⟨.opLocalSet4, [rawU32Operand 8], [.i32], []⟩,
      ⟨.opLocalGet4, [rawU32Operand 12], [], [.i32]⟩,
      ⟨.opLocalTee4, [rawU32Operand 4], [.i32], [.i32]⟩,
      ⟨.opI32Load, [rawU32Operand 0], [.i32], [.i32]⟩,
      ⟨.opLocalSet4, [rawU32Operand 12], [.i32], []⟩,
      ⟨.opLocalGet4, [rawU32Operand 4], [], [.i32]⟩,
      ⟨.opLocalGet4, [rawU32Operand 8], [.i32], [.i32, .i32]⟩,
      ⟨.opI32Store, [rawU32Operand 0], [.i32, .i32], []⟩,
      ⟨.opLocalGet4, [rawU32Operand 12], [], [.i32]⟩, ⟨.opBrIf, [.jumpTarget 0], [.i32], []⟩]
  predecessors := [0]
  successors := [0, 1]

/-- `n := n + 1` for the local `n` 0. -/
def countNode : List CanonInst :=
  [⟨.opLocalGet4, [rawU32Operand 0], [], [.i32]⟩,
    ⟨.opI32Const, [rawU32Operand 1], [.i32], [.i32, .i32]⟩, ⟨.opI32Add, [], [.i32, .i32], [.i32]⟩,
    ⟨.opLocalSet4, [rawU32Operand 0], [.i32], []⟩]

/-- The function that is this loop, with these ops emitted in front of the window. -/
def reversalIn (front : List KernelOp) : Surroundings :=
  ⟨[], ⟨.opLoop, [rawU32Operand 0]⟩ :: front, [],
    [⟨1, [⟨.opEnd, []⟩]⟩, ⟨2, [⟨.other 0, []⟩]⟩]⟩

def reversal : MatchResult :=
  ⟨11, [⟨.opI32LoadStoreLocalBaseReverseLoop,
    [rawU32Operand 4, rawU32Operand 8, rawU32Operand 12, rawU32Operand 0, rawU32Operand 0]⟩]⟩

/-- The loop alone. -/
def plainReversal : LoopSite :=
  .reverse (reversalIn []) (listReversal []) 1 reversal

def countedBy : Surroundings :=
  reversalIn [⟨.opLocalGet4I32ConstAddSet4,
    [rawU32Operand 0, rawU32Operand 1, rawU32Operand 0]⟩]

/-- The loop that counts its nodes. -/
def countingReversal : LoopSite :=
  .reverse countedBy (listReversal countNode) 5 reversal

/-- Behind the first count: the node at 16 leads to the one at 32, which is the last. -/
def twoNodes : VmState where
  locals addr := if addr = 0 then 1 else if addr = 12 then 16 else 0
  memory := ⟨64, fun i => if i = 16 then 32 else 0⟩
  stack := []

private theorem decoded_raw {inst : CanonInst} {encoded : BitVec 64}
    (h : inst.operands = [.raw encoded]) : inst.Decoded :=
  ⟨fun _ => ⟨encoded, h⟩, fun _ => by rw [h]; rfl⟩

private theorem listReversal_decoded {front : List CanonInst}
    (hfront : ∀ inst ∈ front, inst.Decoded) :
    ∀ inst ∈ (listReversal front).insts, inst.Decoded := by
  intro inst hmem
  simp only [listReversal, List.cons_append, List.mem_cons, List.mem_append, List.not_mem_nil,
    or_false] at hmem
  rcases hmem with rfl | hmem | hmem
  · exact decoded_raw rfl
  · exact hfront inst hmem
  · rcases hmem with rfl | rfl | rfl | rfl | rfl | rfl | rfl | rfl | rfl | rfl | rfl <;>
      first
        | exact decoded_raw rfl
        | exact ⟨fun hop => absurd hop (by decide), fun _ => rfl⟩

private theorem countNode_decoded : ∀ inst ∈ countNode, inst.Decoded := by
  intro inst hmem
  simp only [countNode, List.mem_cons, List.not_mem_nil, or_false] at hmem
  rcases hmem with rfl | rfl | rfl | rfl
  · exact decoded_raw rfl
  · exact decoded_raw rfl
  · exact ⟨fun hop => absurd hop (by decide), fun hop => absurd hop (by decide)⟩
  · exact decoded_raw rfl

private theorem plainReversal_emitted : plainReversal.Emitted :=
  ⟨listReversal_decoded (List.forall_mem_nil _), by decide, by decide⟩

private theorem plainReversal_safe : plainReversal.Safe twoNodes := by
  refine ⟨?_, by decide, by decide, by decide⟩
  intro op hop
  obtain rfl := List.mem_singleton.mp hop
  exact Or.inr ⟨_, rfl, rfl, by decide⟩

theorem loopSite_equals_plainReversal :
    plainReversal.Emitted ∧ plainReversal.Safe twoNodes ∧ plainReversal.Equals twoNodes :=
  ⟨plainReversal_emitted, plainReversal_safe,
    loopSite_equals plainReversal_emitted plainReversal_safe⟩

/-- The branch of the loop leads to the count, the handler goes round behind it: the second node
is not counted. -/
theorem countingReversal_not_equals :
    countingReversal.Emitted ∧ ¬countingReversal.Equals twoNodes := by
  refine ⟨⟨listReversal_decoded countNode_decoded, by decide, by decide⟩, ?_⟩
  intro hequals
  have hfused : Ends (superPass (countedBy.lowered 0 reversal.ops) 2)
      (superEnter (countedBy.lowered 0 reversal.ops) 2 twoNodes) (.ok (some 3, _)) := ⟨2, rfl⟩
  have hunfused : Ends (loopPass (countedBy.lowered 0
      (((listReversal countNode).insts.drop 5).map CanonInst.generic)) 2 (straightBody 10))
      twoNodes (.ok (some 13, _)) := ⟨2, rfl⟩
  obtain ⟨r, hends, hagrees⟩ := hequals.1 _ hfused
  obtain rfl := hends.unique hunfused
  have hcount := congrArg (fun s => s.locals 0) hagrees.2.2
  revert hcount
  decide

end Telomere.Optimizer
