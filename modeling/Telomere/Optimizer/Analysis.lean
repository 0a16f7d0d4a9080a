import Mathlib.Data.List.Sort
import Telomere.Lib.Dominance
import Telomere.Optimizer.Canon

/-!
# Dominators and loops of a function

The analysis of the control flow that the optimizer hoists with. The recursion of the search and the
loops take a bound on their steps; `none` is a run that goes past it, or a panic.
-/

namespace Telomere.Optimizer

structure CanonFunc where
  entryBlock : Nat
  blocks : List CanonBlock
deriving DecidableEq, Repr

namespace CanonFunc

def successors (func : CanonFunc) (block : Nat) : List Nat :=
  (func.blocks[block]?.map (·.successors)).getD []

def predecessors (func : CanonFunc) (block : Nat) : List Nat :=
  (func.blocks[block]?.map (·.predecessors)).getD []

def verify (func : CanonFunc) : Bool :=
  !func.blocks.isEmpty && func.blocks.zipIdx.all fun (block, expected) =>
    block.id == expected && block.successors.all (· < func.blocks.length)

structure WellFormed (func : CanonFunc) : Prop where
  verified : func.verify = true
  entry : func.entryBlock < func.blocks.length
  inRange : ∀ block < func.blocks.length, ∀ pred ∈ func.predecessors block,
    pred < func.blocks.length
  agree : ∀ block < func.blocks.length, ∀ pred < func.blocks.length,
    pred ∈ func.predecessors block ↔ block ∈ func.successors pred

def Edge (func : CanonFunc) (pred block : Nat) : Prop := block ∈ func.successors pred

instance (func : CanonFunc) (pred block : Nat) : Decidable (func.Edge pred block) :=
  inferInstanceAs (Decidable (_ ∈ _))

end CanonFunc

/-- `visit` of `compute_reverse_postorder`, with the marks and the blocks that are finished. -/
def visit (func : CanonFunc) : Nat → Nat → List Bool × List Nat → Option (List Bool × List Nat)
  | 0, _, _ => none
  | fuel + 1, block, (seen, out) =>
      if seen[block]? = some true then some (seen, out)
      else do
        let (seen, out) ← (func.successors block).foldlM (fun s succ => visit func fuel succ s)
          (seen.set block true, out)
        return (seen, out ++ [block])

def computeReversePostorder (func : CanonFunc) : Option (List Nat) := do
  let (_, out) ← visit func (func.blocks.length + 1) func.entryBlock
    (List.replicate func.blocks.length false, [])
  return out.reverse

/-- An entry that is not there is a panic where the source indexes it. -/
def parent (idom : List (Option Nat)) (block : Nat) : Option Nat := idom[block]?.join

def intersect (idom : List (Option Nat)) (order : List Nat) : Nat → Nat → Nat → Option Nat
  | 0, _, _ => none
  | fuel + 1, lhs, rhs =>
      if lhs = rhs then some lhs
      else do
        let left ← order[lhs]?
        let right ← order[rhs]?
        if left > right then intersect idom order fuel (← parent idom lhs) rhs
        else if right > left then intersect idom order fuel lhs (← parent idom rhs)
        else intersect idom order fuel lhs rhs

/-- The place of each block in the order, `usize::MAX` for the blocks that are not in it. -/
def blockOrder (func : CanonFunc) (rpo : List Nat) : List Nat :=
  rpo.zipIdx.foldl (fun order (block, index) => order.set block index)
    (List.replicate func.blocks.length (2 ^ 64 - 1))

/-- One block of a pass: the entries, and whether one has changed. -/
def updateIdom (func : CanonFunc) (order : List Nat) (s : List (Option Nat) × Bool) (block : Nat) :
    Option (List (Option Nat) × Bool) :=
  let (idom, changed) := s
  match (func.predecessors block).filter fun pred => (parent idom pred).isSome with
  | [] => some (idom, changed)
  | first :: preds => do
      let newIdom ← preds.foldlM
        (fun newIdom pred => intersect idom order (2 * func.blocks.length + 1) pred newIdom) first
      if parent idom block ≠ some newIdom then return (idom.set block (some newIdom), true)
      else return (idom, changed)

def idomPasses (func : CanonFunc) (rpo order : List Nat) :
    Nat → List (Option Nat) → Option (List (Option Nat))
  | 0, _ => none
  | fuel + 1, idom => do
      let (idom, changed) ← (rpo.drop 1).foldlM (updateIdom func order) (idom, false)
      if changed then idomPasses func rpo order fuel idom else return idom

def computeIdom (func : CanonFunc) (rpo : List Nat) : Option (List (Option Nat)) := do
  let idom := (List.replicate func.blocks.length none).set func.entryBlock (some func.entryBlock)
  let idom ← idomPasses func rpo (blockOrder func rpo)
    (func.blocks.length * func.blocks.length + 1) idom
  return idom.set func.entryBlock none

/-- The loop of `dominates`. -/
def climb (candidate : Nat) (idom : List (Option Nat)) : Nat → Option Nat → Option Bool
  | 0, _ => none
  | _ + 1, none => some false
  | fuel + 1, some block =>
      if block = candidate then some true else climb candidate idom fuel (parent idom block)

def dominates (candidate block : Nat) (idom : List (Option Nat)) : Option Bool :=
  if candidate = block then some true
  else climb candidate idom (idom.length + 1) (parent idom block)

/-- The `loop_headers` of `analyze`. -/
def loopHeaders (func : CanonFunc) (idom : List (Option Nat)) : Option (List Bool) :=
  func.blocks.mapM fun block =>
    block.predecessors.anyM fun pred => dominates pred block.id idom

/-- The worklist of `compute_loop_members`, its last entry first. -/
def growLoop (func : CanonFunc) : Nat → List Nat → List Nat → Option (List Nat)
  | 0, _, _ => none
  | _ + 1, members, [] => some members
  | fuel + 1, members, block :: worklist =>
      if block ∈ members then growLoop func fuel members worklist
      else
        let members := block :: members
        growLoop func fuel members
          (((func.predecessors block).filter (· ∉ members)).reverse ++ worklist)

def membersOf (func : CanonFunc) (idom : List (Option Nat)) (header : Nat) : Option (List Nat) := do
  let worklist ← (func.predecessors header).filterM fun pred => dominates header pred idom
  let members ← growLoop func
    (worklist.length + ((List.range func.blocks.length).map fun block =>
      (func.predecessors block).length + 1).sum + 1) [header] worklist.reverse
  return members.insertionSort (· ≤ ·)

def computeLoopMembers (func : CanonFunc) (idom : List (Option Nat)) (headers : List Bool) :
    Option (List (List Nat)) :=
  (List.range func.blocks.length).mapM fun header =>
    if headers[header]? = some true then membersOf func idom header else some []

/-- The part of `AnalysisResults` that is about dominators and loops. -/
structure AnalysisResults where
  reversePostorder : List Nat
  idom : List (Option Nat)
  loopHeaders : List Bool
  loopMembers : List (List Nat)
deriving DecidableEq, Repr

def analyze (func : CanonFunc) : Option AnalysisResults := do
  let reversePostorder ← computeReversePostorder func
  let idom ← computeIdom func reversePostorder
  let headers ← loopHeaders func idom
  let loopMembers ← computeLoopMembers func idom headers
  return ⟨reversePostorder, idom, headers, loopMembers⟩

end Telomere.Optimizer
