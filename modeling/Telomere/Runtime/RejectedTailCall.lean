import Telomere.Runtime.TrapContext

/-!
# Tail calls that run out of stack

A tail call moves its arguments to the start of the frame before it finds out whether the frame of the
callee fits. When it does not fit, the arguments stay where they were moved to: over the locals of the
frame, and over its call record where they reach so far.
-/

namespace Telomere.Runtime

namespace Stack

/-- `function_return_call_cached`, with the stack as it is also where it fails. -/
def returnCallInPlace (s : Stack) (reference : LocalReference) (paramSize localSize : Nat)
    (frame : CallFrameCache) : Except StackFailure LocalReference × Stack :=
  match s.callStackInfo reference with
  | .error e => (.error e, s)
  | .ok info =>
      match s.copyTopBytesTo reference.localTop paramSize with
      | .error e => (.error e, s)
      | .ok t =>
          match t.frameEndFromLocalTop reference.localTop paramSize localSize with
          | .error e => (.error e, t)
          | .ok newTop =>
              match t.zeroNewLocals (reference.localTop + paramSize) localSize with
              | .error e => (.error e, t)
              | .ok u =>
                  match u.writeCallStackInfoAt (reference.localTop + paramSize + localSize)
                    { info with frame := frame } with
                  | .error e => (.error e, u)
                  | .ok v =>
                      (.ok (Stack.reference reference.localTop newTop), { v with top := newTop })

section copies

variable {s : Stack} {reference : LocalReference} {info : CallStackInfo}
  {paramSize localSize : Nat} {frame : CallFrameCache}

theorem copyTopBytesTo_within {dst size : Nat} (htop : s.top ≤ s.capacity) (hsize : size ≤ s.top)
    (hdst : dst + size ≤ s.capacity) :
    s.copyTopBytesTo dst size =
      .ok { s with memory := Lib.poke s.memory dst (s.peek (s.top - size) size) } := by
  rw [copyTopBytesTo, if_neg (Nat.not_lt.mpr hsize)]
  split
  next hsame =>
    rcases hsame with rfl | hsame
    · simp [Stack.peek, Lib.peek]
    · rw [hsame, Stack.peek, Lib.poke_peek_self]
  · rw [if_neg (Nat.not_lt.mpr htop), write_eq]
    rwa [Stack.peek, Lib.length_peek]

/-- Arguments that do not fit into the stack are refused by a panic, before anything is written. -/
theorem copyTopBytesTo_beyond {dst size : Nat} (htop : s.top ≤ s.capacity) (hsize : size ≤ s.top)
    (hpos : dst ≤ s.capacity) (hdst : s.capacity < dst + size) :
    s.copyTopBytesTo dst size = .error .panic := by
  have hmoved : ¬(size = 0 ∨ s.top - size = dst) := by omega
  rw [copyTopBytesTo, if_neg (Nat.not_lt.mpr hsize), if_neg hmoved, if_neg (Nat.not_lt.mpr htop),
    write, if_pos (by rwa [Stack.peek, Lib.length_peek])]

/-- The arguments are on the stack and would fit at the start of the frame, where the callee's whole
frame does not. -/
def OutOfRoom (s : Stack) (reference : LocalReference) (paramSize localSize : Nat) : Prop :=
  paramSize ≤ s.top ∧ reference.localTop + paramSize ≤ s.capacity ∧
    s.capacity < reference.localTop + paramSize + localSize + callStackInfoSize

def argumentsMoved (s : Stack) (reference : LocalReference) (paramSize : Nat) : Stack :=
  { s with memory := Lib.poke s.memory reference.localTop (s.peek (s.top - paramSize) paramSize) }

theorem returnCallInPlace_outOfRoom (htop : s.top ≤ s.capacity)
    (hinfo : s.callStackInfo reference = .ok info)
    (h : OutOfRoom s reference paramSize localSize) :
    s.returnCallInPlace reference paramSize localSize frame =
      (.error .stackOverflow, s.argumentsMoved reference paramSize) := by
  obtain ⟨hargs, hfits, hroom⟩ := h
  rw [returnCallInPlace, hinfo, copyTopBytesTo_within htop hargs hfits]
  simp only [frameEndFromLocalTop, if_pos hroom]
  rfl

theorem returnCallInPlace_fits (htop : s.top ≤ s.capacity)
    (hinfo : s.callStackInfo reference = .ok info) (hargs : paramSize ≤ s.top)
    (hroom : reference.localTop + paramSize + localSize + callStackInfoSize ≤ s.capacity) :
    (s.returnCallInPlace reference paramSize localSize frame).1 =
      .ok (Stack.reference reference.localTop
        (reference.localTop + paramSize + localSize + callStackInfoSize)) := by
  have hzero : (s.argumentsMoved reference paramSize).zeroNewLocals
      (reference.localTop + paramSize) localSize = .ok _ :=
    zeroNewLocals_eq (show reference.localTop + paramSize + localSize ≤ s.capacity by omega)
  have hcopy : s.copyTopBytesTo reference.localTop paramSize =
      .ok (s.argumentsMoved reference paramSize) :=
    copyTopBytesTo_within htop hargs (by omega)
  have hend : (s.argumentsMoved reference paramSize).frameEndFromLocalTop reference.localTop paramSize
      localSize = .ok (reference.localTop + paramSize + localSize + callStackInfoSize) :=
    if_neg (Nat.not_lt.mpr hroom)
  rw [returnCallInPlace, hinfo]
  simp only [hcopy, hend, hzero, writeCallStackInfoAt]
  rw [write_eq (by rw [CallStackInfo.length_toBytes]; exact hroom)]

/-- A tail call overflows for want of arguments, and leaves the stack, or for want of room, and leaves
the arguments moved. -/
theorem returnCallInPlace_overflows (htop : s.top ≤ s.capacity)
    (hin : reference.frameEnd ≤ s.capacity) (hinfo : s.callStackInfo reference = .ok info)
    (h : (s.returnCallInPlace reference paramSize localSize frame).1 = .error .stackOverflow) :
    (s.returnCallInPlace reference paramSize localSize frame).2 = s ∨
      OutOfRoom s reference paramSize localSize ∧
        (s.returnCallInPlace reference paramSize localSize frame).2 =
          s.argumentsMoved reference paramSize := by
  have hframe : reference.frameEnd = reference.localTop + reference.localSize := rfl
  by_cases hargs : s.top < paramSize
  · have hcopy : s.copyTopBytesTo reference.localTop paramSize = .error .stackOverflow := if_pos hargs
    rw [returnCallInPlace, hinfo, hcopy]
    exact Or.inl rfl
  · have hparam := Nat.not_lt.mp hargs
    by_cases hfits : reference.localTop + paramSize ≤ s.capacity
    · by_cases hroom : s.capacity < reference.localTop + paramSize + localSize + callStackInfoSize
      · rw [returnCallInPlace_outOfRoom htop hinfo ⟨hparam, hfits, hroom⟩]
        exact Or.inr ⟨⟨hparam, hfits, hroom⟩, rfl⟩
      · rw [returnCallInPlace_fits htop hinfo hparam (Nat.not_lt.mp hroom)] at h
        cases h
    · have hcopy := copyTopBytesTo_beyond (show s.top ≤ s.capacity from htop) hparam
        (show reference.localTop ≤ s.capacity by omega) (Nat.not_le.mp hfits)
      rw [returnCallInPlace, hinfo, hcopy]
      exact Or.inl rfl

end copies

end Stack

/-- A tail call from the frame of a state; the reference is set when the callee has its frame. -/
def FrameState.returnCall (s : FrameState) (paramSize localSize : Nat) (frame : CallFrameCache) :
    Except StackFailure Unit × FrameState :=
  match s.stack.returnCallInPlace s.reference paramSize localSize frame with
  | (.ok reference, stack) => (.ok (), { s with stack := stack, reference := reference })
  | (.error e, stack) => (.error e, { s with stack := stack })

section walk

variable {functions : Functions} {s t : Stack} {innermostPc pendingReturnPc : Option (BitVec 64)}
  {bound : Nat} {reference : LocalReference} {frames : List LiveFrame}

theorem walkFrames_congr {remaining : Nat} {c : Capture} (hcapacity : t.capacity = s.capacity)
    (hmem : ∀ i < bound, t.memory i = s.memory i) (hlive : LiveFrames s bound reference frames) :
    walkFrames functions t innermostPc remaining reference pendingReturnPc c =
      walkFrames functions s innermostPc remaining reference pendingReturnPc c := by
  induction frames generalizing bound reference pendingReturnPc remaining c with
  | nil =>
      cases remaining with
      | zero => rfl
      | succ remaining =>
          have hnone : ∀ u : Stack, u.frameRecord reference = none := fun u => if_pos hlive
          rw [walkFrames, walkFrames, hnone, hnone]
  | cons frame frames ih =>
      obtain ⟨hreference, hend, hsize, hinfo, hrest⟩ := hlive
      have hframe : reference.frameEnd = reference.localTop + reference.localSize := rfl
      have hsame : t.callStackInfo reference = s.callStackInfo reference :=
        Stack.callStackInfo_congr hcapacity fun i _ hi => hmem i (by omega)
      have hrecord : t.frameRecord reference = s.frameRecord reference := by
        rw [Stack.frameRecord, Stack.frameRecord, hcapacity, hsame]
      have hresolve : ∀ pc, t.resolveOptional functions reference pc =
          s.resolveOptional functions reference pc := by
        intro pc
        rw [Stack.resolveOptional, Stack.resolveOptional, hsame]
      cases remaining with
      | zero => rfl
      | succ remaining =>
          rw [walkFrames, walkFrames, hrecord]
          by_cases hin : s.capacity < reference.frameEnd
          · have hnone : s.frameRecord reference = none := by
              rw [Stack.frameRecord, if_pos hin, ite_self]
            rw [hnone]
          · have hsome : s.frameRecord reference = some frame.info := by
              rw [Stack.frameRecord, if_neg (Nat.not_lt.mpr hsize), if_neg hin, hinfo]
              rfl
            have hwalk : ∀ pending captured,
                walkFrames functions t innermostPc remaining frame.info.prev pending captured =
                  walkFrames functions s innermostPc remaining frame.info.prev pending captured :=
              fun pending captured => ih (fun i hi => hmem i (by omega)) hrest
            simp only [hsome, hresolve, hwalk]

theorem captureTrapContext_congr {ρ : Type} {result : ρ} {taskId : Nat}
    (hcapacity : t.capacity = s.capacity) (hmem : ∀ i < bound, t.memory i = s.memory i)
    (hlive : LiveFrames s bound reference frames) :
    captureTrapContext functions t reference innermostPc result taskId =
      captureTrapContext functions s reference innermostPc result taskId := by
  simp only [captureTrapContext, hcapacity, walkFrames_congr hcapacity hmem hlive]

end walk

/-- A tail call that is rejected keeps the bytes up to the top, the record and the reference, and a
trap reports the frames as before. -/
def TailCallIntact (s : FrameState) (paramSize localSize : Nat) (frame : CallFrameCache) : Prop :=
  (s.returnCall paramSize localSize frame).1 = .error .stackOverflow →
    (s.returnCall paramSize localSize frame).2.stack.top = s.stack.top ∧
    (∀ i < s.stack.top,
      (s.returnCall paramSize localSize frame).2.stack.memory i = s.stack.memory i) ∧
    (s.returnCall paramSize localSize frame).2.stack.callStackInfo s.reference =
      s.stack.callStackInfo s.reference ∧
    (s.returnCall paramSize localSize frame).2.reference = s.reference ∧
    ∀ functions innermostPc taskId,
      captureTrapContext functions (s.returnCall paramSize localSize frame).2.stack
          (s.returnCall paramSize localSize frame).2.reference innermostPc () taskId =
        captureTrapContext functions s.stack s.reference innermostPc () taskId

/-- The arguments on top of the stack are, byte by byte, what is already at the start of the frame. -/
def ArgumentsInPlace (s : FrameState) (paramSize : Nat) : Prop :=
  ∀ i < paramSize, s.reference.localTop + i < s.stack.top →
    s.stack.memory (s.reference.localTop + i) = s.stack.memory (s.stack.top - paramSize + i)

section intact

variable {s : FrameState} {paramSize localSize : Nat} {frame : CallFrameCache}

theorem returnCall_error {e : StackFailure}
    (h : (s.returnCall paramSize localSize frame).1 = .error e) :
    (s.stack.returnCallInPlace s.reference paramSize localSize frame).1 = .error e ∧
      (s.returnCall paramSize localSize frame).2 =
        { s with stack := (s.stack.returnCallInPlace s.reference paramSize localSize frame).2 } := by
  rw [FrameState.returnCall] at h ⊢
  split at h
  · cases h
  next e' stack hcall =>
    rw [hcall]
    exact ⟨congrArg Except.error (Except.error.inj h), rfl⟩

/-- A tail call leaves its frame intact unless it is the room that it lacks, when its arguments have
already been moved. -/
theorem tailCallIntact_iff {frames : List LiveFrame} (htop : s.stack.top ≤ s.stack.capacity)
    (hlive : LiveFrames s.stack s.stack.top s.reference frames) (hin : frames ≠ []) :
    TailCallIntact s paramSize localSize frame ↔
      (Stack.OutOfRoom s.stack s.reference paramSize localSize → ArgumentsInPlace s paramSize) := by
  obtain ⟨innermost, frames, rfl⟩ := List.exists_cons_of_ne_nil hin
  obtain ⟨_, hend, _, hinfo, _⟩ := id hlive
  have hlength : (s.stack.peek (s.stack.top - paramSize) paramSize).length = paramSize :=
    Lib.length_peek ..
  have hmoved : ∀ i < paramSize,
      (s.stack.argumentsMoved s.reference paramSize).memory (s.reference.localTop + i) =
        s.stack.memory (s.stack.top - paramSize + i) := by
    intro i hi
    show Lib.poke _ _ _ _ = _
    rw [Lib.poke_at _ _ (by rwa [hlength])]
    simp [Stack.peek, Lib.peek]
  constructor
  · intro hintact hroom i hi hbelow
    have hcall : s.stack.returnCallInPlace s.reference paramSize localSize frame = _ :=
      Stack.returnCallInPlace_outOfRoom htop hinfo hroom
    have hreturn : s.returnCall paramSize localSize frame =
        (.error .stackOverflow, { s with stack := s.stack.argumentsMoved s.reference paramSize }) := by
      rw [FrameState.returnCall, hcall]
    have hkept := (hintact (by rw [hreturn])).2.1 _ hbelow
    rw [hreturn] at hkept
    exact hkept.symm.trans (hmoved i hi)
  · intro hplace hrejected
    obtain ⟨herror, hstate⟩ := returnCall_error hrejected
    have hmemory : ∀ i < s.stack.top,
        (s.stack.returnCallInPlace s.reference paramSize localSize frame).2.memory i =
          s.stack.memory i := by
      obtain hsame | ⟨hroom, hsame⟩ :=
        Stack.returnCallInPlace_overflows htop (Nat.le_trans hend htop) hinfo herror
      · rw [hsame]
        exact fun _ _ => rfl
      · intro i hi
        rw [hsame]
        by_cases hbelow : i < s.reference.localTop
        · exact Lib.poke_below _ _ hbelow
        · by_cases habove : s.reference.localTop + paramSize ≤ i
          · exact Lib.poke_above _ (by rwa [hlength])
          · obtain ⟨k, rfl⟩ := Nat.exists_eq_add_of_le (Nat.not_lt.mp hbelow)
            exact (hmoved k (by omega)).trans (hplace hroom k (by omega) hi).symm
    have hcapacity : (s.stack.returnCallInPlace s.reference paramSize localSize frame).2.capacity =
          s.stack.capacity ∧
        (s.stack.returnCallInPlace s.reference paramSize localSize frame).2.top = s.stack.top := by
      obtain hsame | ⟨-, hsame⟩ :=
        Stack.returnCallInPlace_overflows htop (Nat.le_trans hend htop) hinfo herror
      · rw [hsame]
        exact ⟨rfl, rfl⟩
      · rw [hsame]
        exact ⟨rfl, rfl⟩
    rw [hstate]
    exact ⟨hcapacity.2, hmemory,
      Stack.callStackInfo_congr hcapacity.1 fun i _ hi => hmemory i (by omega), rfl,
      fun functions innermostPc taskId => captureTrapContext_congr hcapacity.1 hmemory hlive⟩

end intact

private def filledFrame : FrameState :=
  let s := nestedCall (nestedCall (FrameState.new 131072))
  match s.stack.pushSlice (List.replicate 48 1) with
  | .ok stack => { s with stack := stack }
  | .error _ => s

private def roomyFrame : CallFrameCache := ⟨8, 64, 1, .noMemory, 0⟩

/-- A callee without parameters is rejected with the frame intact. -/
theorem tailCallIntact_iff_noParams :
    (filledFrame.returnCall 0 131072 roomyFrame).1 = .error .stackOverflow ∧
      TailCallIntact filledFrame 0 131072 roomyFrame := by
  refine ⟨by decide +kernel, (@tailCallIntact_iff filledFrame 0 131072 roomyFrame
    (chainFrom filledFrame.stack 2 filledFrame.reference) (by decide +kernel) (by decide +kernel)
    ?_).mpr fun _ i hi => absurd hi (Nat.not_lt_zero i)⟩
  intro hnil
  have hlength : (chainFrom filledFrame.stack 2 filledFrame.reference).length = 2 := by
    decide +kernel
  rw [hnil] at hlength
  cases hlength

private def totalFrames (s : FrameState) : Option Nat :=
  (captureTrapContext (fun _ => some ⟨3, .wasm 8⟩) s.stack s.reference none () 1).map (·.totalFrames)

/-- Arguments that reach the call record: the trap reports one frame where two are live. -/
theorem tailCall_record_overwritten :
    (filledFrame.returnCall 48 131072 roomyFrame).1 = .error .stackOverflow ∧
      totalFrames filledFrame = some 2 ∧
      totalFrames (filledFrame.returnCall 48 131072 roomyFrame).2 = some 1 ∧
      ¬TailCallIntact filledFrame 48 131072 roomyFrame := by
  have hrejected : (filledFrame.returnCall 48 131072 roomyFrame).1 = .error .stackOverflow := by
    decide +kernel
  have hbefore : totalFrames filledFrame = some 2 := by decide +kernel
  have hafter : totalFrames (filledFrame.returnCall 48 131072 roomyFrame).2 = some 1 := by
    decide +kernel
  refine ⟨hrejected, hbefore, hafter, fun hintact => ?_⟩
  obtain ⟨-, -, -, -, hcapture⟩ := hintact hrejected
  have hsame : totalFrames (filledFrame.returnCall 48 131072 roomyFrame).2 = totalFrames filledFrame := by
    rw [totalFrames, totalFrames, hcapture]
  rw [hbefore, hafter] at hsame
  cases hsame

end Telomere.Runtime
