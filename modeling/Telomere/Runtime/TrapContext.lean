import Telomere.Lib.Ring
import Telomere.Runtime.CallFrames

/-!
# Trap contexts

A trap is reported with the frames that are live, from the innermost on: the first ones, and of a long
chain also the last ones, which go through a ring. The walk follows the references in the call records
and is bounded, so that a damaged stack ends it. A function of the store is told by its reference.
-/

namespace Telomere.Runtime

inductive FunctionBody where
  | wasm (codeLen : Nat)
  | host
  | asyncHost
deriving DecidableEq, Repr

structure FunctionInstanceData where
  funcidx : Nat
  body : FunctionBody
deriving DecidableEq, Repr

/-- `try_get_func` -/
abbrev Functions := BitVec 32 → Option FunctionInstanceData

inductive CapturedFrameKind where
  | wasm
  | host
  | asyncHost
  | unresolved
deriving DecidableEq, Repr

structure CapturedFrame where
  depth : Nat
  codeAddr : BitVec 32
  funcidx : Option Nat
  pcIndex : Option Nat
  kind : CapturedFrameKind
deriving DecidableEq, Repr

structure TrapContext (ρ : Type) where
  result : ρ
  taskId : Nat
  frames : List CapturedFrame
  totalFrames : Nat
  truncated : Bool

def headFrames : Nat := 48

def tailFrames : Nat := 16

def u32Max : Nat := 2 ^ 32 - 1

namespace Stack

/-- The record of a frame that lies wholly within the stack. -/
def frameRecord (s : Stack) (reference : LocalReference) : Option CallStackInfo :=
  if reference.localSize < callStackInfoSize then none
  else if s.capacity < reference.frameEnd then none
  else (s.callStackInfo reference).toOption

/-- `StablePc::resolve_optional`; there is no result where the source panics, for want of the function
of the frame. -/
def resolveOptional (s : Stack) (functions : Functions) (reference : LocalReference)
    (pc : BitVec 64) : Option (Option (BitVec 64)) :=
  if pc &&& 1 = 1 then
    if reference.localSize < callStackInfoSize then some none
    else
      match s.callStackInfo reference with
      | .error _ => none
      | .ok info =>
          if info.frame.codeBase = 0 then some none
          else
            match functions info.frame.codeAddr with
            | none => none
            | some ⟨_, .wasm _⟩ =>
                some (some (info.frame.codeBase + (pc >>> 1) * BitVec.ofNat 64 instrSize))
            | some _ => some none
  else some (some pc)

end Stack

def instrIndexFromBase (tailCode codeBase : BitVec 64) : Option Nat :=
  if codeBase = 0 then none
  else if tailCode.toNat < codeBase.toNat then none
  else
    let delta := tailCode.toNat - codeBase.toNat
    if delta % Stack.instrSize = 0 ∧ delta / Stack.instrSize ≤ u32Max then
      some (delta / Stack.instrSize)
    else none

def FunctionBody.capturedKind : FunctionBody → CapturedFrameKind
  | .wasm _ => .wasm
  | .host => .host
  | .asyncHost => .asyncHost

/-- The frame as it is reported, at its depth and with its pc. -/
def capturedFrame (functions : Functions) (depth : Nat) (pc : Option (BitVec 64))
    (record : CallStackInfo) : CapturedFrame where
  depth := depth
  codeAddr := record.frame.codeAddr
  funcidx := (functions record.frame.codeAddr).map (·.funcidx)
  pcIndex := pc.bind fun pc => instrIndexFromBase pc record.frame.codeBase
  kind := ((functions record.frame.codeAddr).map (·.body.capturedKind)).getD .unresolved

structure Capture where
  head : List CapturedFrame
  tail : Lib.Ring CapturedFrame
  totalFrames : Nat

namespace Capture

def empty : Capture := ⟨[], .empty tailFrames, 0⟩

def push (c : Capture) (frame : CapturedFrame) : Capture :=
  let totalFrames := min (c.totalFrames + 1) u32Max
  if totalFrames ≤ headFrames then
    { c with head := c.head ++ [frame], totalFrames := totalFrames }
  else
    { c with tail := c.tail.push frame, totalFrames := totalFrames }

theorem push_totalFrames {c : Capture} (frame : CapturedFrame) (h : c.totalFrames < u32Max) :
    (c.push frame).totalFrames = c.totalFrames + 1 := by
  have hmin : min (c.totalFrames + 1) u32Max = c.totalFrames + 1 := by omega
  simp only [push, hmin]
  split <;> rfl

end Capture

def walkFrames (functions : Functions) (s : Stack) (innermostPc : Option (BitVec 64)) :
    Nat → LocalReference → Option (BitVec 64) → Capture → Option (Capture × Bool)
  | 0, _, _, c => some (c, true)
  | remaining + 1, reference, pendingReturnPc, c =>
      match s.frameRecord reference with
      | none => some (c, false)
      | some record => do
          let pc ← match pendingReturnPc with
            | some returnPc => s.resolveOptional functions reference returnPc
            | none => some innermostPc
          walkFrames functions s innermostPc remaining record.prev (some record.returnPc)
            (c.push (capturedFrame functions c.totalFrames pc record))

/-- There is no result where the source panics. -/
def captureTrapContext {ρ : Type} (functions : Functions) (s : Stack) (reference : LocalReference)
    (innermostPc : Option (BitVec 64)) (result : ρ) (taskId : Nat) : Option (TrapContext ρ) := do
  let walkLimit := s.capacity / callStackInfoSize + 1
  let (c, limited) ← walkFrames functions s innermostPc walkLimit reference none .empty
  let tail ← c.tail.toList
  return {
    result := result
    taskId := taskId
    frames := c.head ++ tail
    totalFrames := c.totalFrames
    truncated := limited || decide (headFrames + tailFrames < c.totalFrames) }

/-- A frame of the chain, by its reference and its record. -/
structure LiveFrame where
  reference : LocalReference
  info : CallStackInfo

/-- The frames from a reference outwards, each below the one it called; the reference in the record of
the outermost is that of no frame. -/
def LiveFrames (s : Stack) : Nat → LocalReference → List LiveFrame → Prop
  | _, reference, [] => reference.localSize < callStackInfoSize
  | bound, reference, frame :: frames =>
      frame.reference = reference ∧ reference.frameEnd ≤ bound ∧
        callStackInfoSize ≤ reference.localSize ∧ s.callStackInfo reference = .ok frame.info ∧
        LiveFrames s reference.localTop frame.info.prev frames

instance LiveFrames.decidable (s : Stack) :
    (bound : Nat) → (reference : LocalReference) → (frames : List LiveFrame) →
      Decidable (LiveFrames s bound reference frames)
  | _, _, [] => inferInstanceAs (Decidable (_ < _))
  | _, reference, frame :: frames =>
      have := LiveFrames.decidable s reference.localTop frame.info.prev frames
      inferInstanceAs (Decidable (_ ∧ _ ∧ _ ∧ _ ∧ _))

def Runnable (functions : Functions) (frames : List LiveFrame) : Prop :=
  ∀ frame ∈ frames, (functions frame.info.frame.codeAddr).isSome

/-- Where a frame goes on after a return: the pc saved in the frame it called. -/
def continuationPc (functions : Functions) (info : CallStackInfo) (returnPc : BitVec 64) :
    Option (BitVec 64) :=
  if returnPc &&& 1 = 1 then
    match functions info.frame.codeAddr with
    | some ⟨_, .wasm _⟩ =>
        if info.frame.codeBase = 0 then none
        else some (info.frame.codeBase + (returnPc >>> 1) * BitVec.ofNat 64 Stack.instrSize)
    | _ => none
  else some returnPc

/-- Where a frame of the chain stands: the innermost one at the pc of the trap, every other one where
the frame it called returns to, which is a pointer or an index into the code of the frame itself. -/
inductive StandsAt (functions : Functions) (innermostPc : Option (BitVec 64))
    (frames : List LiveFrame) : Nat → BitVec 64 → Prop
  | trapped {pc : BitVec 64} (hpc : innermostPc = some pc) : StandsAt functions innermostPc frames 0 pc
  | pointer {i : Nat} {callee : LiveFrame} (hcallee : frames[i]? = some callee)
      (hpointer : callee.info.returnPc &&& 1 ≠ 1) :
      StandsAt functions innermostPc frames (i + 1) callee.info.returnPc
  | index {i funcidx codeLen : Nat} {callee caller : LiveFrame} (hcallee : frames[i]? = some callee)
      (hindex : callee.info.returnPc &&& 1 = 1) (hcaller : frames[i + 1]? = some caller)
      (hfunction : functions caller.info.frame.codeAddr = some ⟨funcidx, .wasm codeLen⟩)
      (hbase : caller.info.frame.codeBase ≠ 0) :
      StandsAt functions innermostPc frames (i + 1)
        (caller.info.frame.codeBase + (callee.info.returnPc >>> 1) * BitVec.ofNat 64 Stack.instrSize)

/-- The report of the frame at a place of the chain, from its call record and its function. -/
structure Reports (functions : Functions) (innermostPc : Option (BitVec 64))
    (frames : List LiveFrame) (i : Nat) (frame : LiveFrame) (captured : CapturedFrame) : Prop where
  depth : captured.depth = i
  codeAddr : captured.codeAddr = frame.info.frame.codeAddr
  function : ∃ function, functions frame.info.frame.codeAddr = some function ∧
    captured.funcidx = some function.funcidx ∧
    (∀ codeLen, function.body = .wasm codeLen → captured.kind = .wasm) ∧
    (function.body = .host → captured.kind = .host) ∧
    (function.body = .asyncHost → captured.kind = .asyncHost)
  pcIndex : ∀ k, captured.pcIndex = some k ↔ k < 2 ^ 32 ∧ frame.info.frame.codeBase ≠ 0 ∧
    ∃ pc, StandsAt functions innermostPc frames i pc ∧
      pc.toNat = frame.info.frame.codeBase.toNat + k * Stack.instrSize

/-- The whole chain is reported, frame by frame, the innermost first. -/
def ReportsChain (functions : Functions) (innermostPc : Option (BitVec 64)) (frames : List LiveFrame)
    (report : List CapturedFrame) : Prop :=
  report.length = frames.length ∧ ∀ (i : Nat) frame, frames[i]? = some frame →
    ∃ captured, report[i]? = some captured ∧ Reports functions innermostPc frames i frame captured

/-- The chain as the walk takes it. -/
def backtrace (functions : Functions) (innermostPc : Option (BitVec 64)) :
    Option (BitVec 64) → Nat → List LiveFrame → List CapturedFrame
  | _, _, [] => []
  | pendingReturnPc, depth, frame :: frames =>
      let pc := match pendingReturnPc with
        | some returnPc => continuationPc functions frame.info returnPc
        | none => innermostPc
      capturedFrame functions depth pc frame.info ::
        backtrace functions innermostPc (some frame.info.returnPc) (depth + 1) frames

section chains

variable {functions : Functions} {s t : Stack} {innermostPc pendingReturnPc : Option (BitVec 64)}
  {bound : Nat} {reference : LocalReference} {frames : List LiveFrame}

theorem length_backtrace {depth : Nat} :
    (backtrace functions innermostPc pendingReturnPc depth frames).length = frames.length := by
  induction frames generalizing pendingReturnPc depth with
  | nil => rfl
  | cons frame frames ih => simp [backtrace, ih]

theorem depths_backtrace {depth : Nat} :
    (backtrace functions innermostPc pendingReturnPc depth frames).map (·.depth) =
      List.range' depth frames.length := by
  induction frames generalizing pendingReturnPc depth with
  | nil => rfl
  | cons frame frames ih => simp [backtrace, capturedFrame, ih, List.range'_succ]

theorem instrIndexFromBase_eq_some {pc base : BitVec 64} {k : Nat} :
    instrIndexFromBase pc base = some k ↔
      k < 2 ^ 32 ∧ base ≠ 0 ∧ pc.toNat = base.toNat + k * Stack.instrSize := by
  unfold instrIndexFromBase
  by_cases hbase : base = 0
  · simp [hbase]
  · by_cases hlt : pc.toNat < base.toNat
    · simp only [if_neg hbase, if_pos hlt, reduceCtorEq, false_iff]
      rintro ⟨-, -, heq⟩
      omega
    · have hsize : Stack.instrSize = 8 := rfl
      have hmax : u32Max = 2 ^ 32 - 1 := rfl
      dsimp only
      rw [if_neg hbase, if_neg hlt]
      by_cases hfits : (pc.toNat - base.toNat) % Stack.instrSize = 0 ∧
          (pc.toNat - base.toNat) / Stack.instrSize ≤ u32Max
      · rw [if_pos hfits, Option.some.injEq]
        rw [hsize, hmax] at hfits
        rw [hsize]
        constructor
        · rintro rfl
          exact ⟨by omega, hbase, by omega⟩
        · rintro ⟨hk, -, heq⟩
          omega
      · rw [if_neg hfits]
        rw [hsize, hmax] at hfits
        rw [hsize]
        simp only [reduceCtorEq, false_iff]
        rintro ⟨hk, -, heq⟩
        exact hfits ⟨by omega, by omega⟩

/-- The pc with which the walk takes the frame at a place. -/
def framePc (functions : Functions) (first : Option (BitVec 64)) (frames : List LiveFrame)
    (info : CallStackInfo) : Nat → Option (BitVec 64)
  | 0 => first
  | i + 1 => (frames[i]?).bind fun callee => continuationPc functions info callee.info.returnPc

theorem standsAt_iff {i : Nat} {frame : LiveFrame} (hframe : frames[i]? = some frame)
    {pc : BitVec 64} :
    StandsAt functions innermostPc frames i pc ↔
      framePc functions innermostPc frames frame.info i = some pc := by
  constructor
  · rintro (hpc | ⟨hcallee, hpointer⟩ | ⟨hcallee, hindex, hcaller, hfunction, hbase⟩)
    · exact hpc
    · simp only [framePc, hcallee, Option.bind_some, continuationPc, if_neg hpointer]
    · obtain rfl := Option.some.inj (hframe.symm.trans hcaller)
      simp only [framePc, hcallee, Option.bind_some, continuationPc, if_pos hindex, hfunction,
        if_neg hbase]
  · intro h
    cases i with
    | zero => exact .trapped h
    | succ i =>
        obtain ⟨callee, hcallee, hpc⟩ := Option.bind_eq_some_iff.mp h
        unfold continuationPc at hpc
        split at hpc
        · next hindex =>
            split at hpc
            · next hfunction =>
                split at hpc
                · cases hpc
                · next hbase =>
                    obtain rfl := Option.some.inj hpc
                    exact .index hcallee hindex hframe hfunction hbase
            · cases hpc
        · next hpointer =>
            obtain rfl := Option.some.inj hpc
            exact .pointer hcallee hpointer

theorem backtrace_getElem? {depth i : Nat} {frame : LiveFrame} (hframe : frames[i]? = some frame) :
    (backtrace functions innermostPc pendingReturnPc depth frames)[i]? =
      some (capturedFrame functions (depth + i)
        (framePc functions (match pendingReturnPc with
          | some returnPc => continuationPc functions frame.info returnPc
          | none => innermostPc) frames frame.info i) frame.info) := by
  induction frames generalizing pendingReturnPc depth i with
  | nil => cases hframe
  | cons first frames ih =>
      cases i with
      | zero =>
          obtain rfl := Option.some.inj hframe
          rfl
      | succ i =>
          have hrest := @ih (some first.info.returnPc) (depth + 1) i hframe
          have hdepth : depth + 1 + i = depth + (i + 1) := by omega
          simp only [backtrace, List.getElem?_cons_succ, hrest, hdepth]
          cases i with
          | zero => rfl
          | succ i => rfl

theorem backtrace_reports (hrunnable : Runnable functions frames) :
    ReportsChain functions innermostPc frames (backtrace functions innermostPc none 0 frames) := by
  refine ⟨length_backtrace, fun i frame hframe => ⟨_, backtrace_getElem? hframe, ?_⟩⟩
  obtain ⟨function, hfunction⟩ :=
    Option.isSome_iff_exists.mp (hrunnable frame (List.mem_of_getElem? hframe))
  refine ⟨Nat.zero_add i, rfl, ⟨function, hfunction, ?_, ?_, ?_, ?_⟩, fun k => ?_⟩
  · simp [capturedFrame, hfunction]
  · intro codeLen hbody
    simp [capturedFrame, hfunction, hbody, FunctionBody.capturedKind]
  · intro hbody
    simp [capturedFrame, hfunction, hbody, FunctionBody.capturedKind]
  · intro hbody
    simp [capturedFrame, hfunction, hbody, FunctionBody.capturedKind]
  · simp only [capturedFrame, Option.bind_eq_some_iff, instrIndexFromBase_eq_some,
      standsAt_iff hframe]
    constructor
    · rintro ⟨pc, hpc, hk, hbase, heq⟩
      exact ⟨hk, hbase, pc, hpc, heq⟩
    · rintro ⟨hk, hbase, pc, hpc, heq⟩
      exact ⟨pc, hpc, hk, hbase, heq⟩

theorem LiveFrames.room (h : LiveFrames s bound reference frames) :
    callStackInfoSize * frames.length ≤ bound := by
  induction frames generalizing bound reference with
  | nil => simp
  | cons frame frames ih =>
      obtain ⟨-, hend, hsize, -, hrest⟩ := h
      have hroom := ih hrest
      have hframe : reference.frameEnd = reference.localTop + reference.localSize := rfl
      rw [List.length_cons, Nat.mul_add, Nat.mul_one]
      omega

theorem frameRecord_of_live {frame : LiveFrame} (hbound : bound ≤ s.capacity)
    (h : LiveFrames s bound reference (frame :: frames)) :
    s.frameRecord reference = some frame.info := by
  obtain ⟨-, hend, hsize, hinfo, -⟩ := h
  have hcapacity : ¬s.capacity < reference.frameEnd := by omega
  rw [Stack.frameRecord, if_neg (Nat.not_lt.mpr hsize), if_neg hcapacity, hinfo]
  rfl

theorem resolveOptional_of_live {info : CallStackInfo} (hsize : callStackInfoSize ≤ reference.localSize)
    (hinfo : s.callStackInfo reference = .ok info)
    (hfunction : (functions info.frame.codeAddr).isSome) (pc : BitVec 64) :
    s.resolveOptional functions reference pc = some (continuationPc functions info pc) := by
  obtain ⟨function, hfunction⟩ := Option.isSome_iff_exists.mp hfunction
  obtain ⟨funcidx, body⟩ := function
  rw [Stack.resolveOptional, continuationPc]
  by_cases htag : pc &&& 1 = 1
  · rw [if_pos htag, if_pos htag, if_neg (Nat.not_lt.mpr hsize), hinfo, hfunction]
    by_cases hbase : info.frame.codeBase = 0
    · cases body <;> simp [hbase]
    · cases body with
      | wasm codeLen => simp only [if_neg hbase, hfunction]
      | host => simp only [if_neg hbase, hfunction]
      | asyncHost => simp only [if_neg hbase, hfunction]
  · rw [if_neg htag, if_neg htag]

theorem walkFrames_of_live {remaining : Nat} {c : Capture} (hbound : bound ≤ s.capacity)
    (hlive : LiveFrames s bound reference frames) (hrunnable : Runnable functions frames)
    (hremaining : frames.length < remaining) (hcount : c.totalFrames + frames.length ≤ u32Max) :
    walkFrames functions s innermostPc remaining reference pendingReturnPc c =
      some ((backtrace functions innermostPc pendingReturnPc c.totalFrames frames).foldl
        Capture.push c, false) := by
  induction frames generalizing bound reference pendingReturnPc remaining c with
  | nil =>
      obtain ⟨remaining, rfl⟩ := Nat.exists_eq_succ_of_ne_zero (Nat.ne_of_gt hremaining)
      have hnone : s.frameRecord reference = none := if_pos hlive
      rw [walkFrames, hnone]
      rfl
  | cons frame frames ih =>
      obtain ⟨remaining, rfl⟩ := Nat.exists_eq_succ_of_ne_zero (Nat.ne_of_gt (Nat.zero_lt_of_lt hremaining))
      rw [List.length_cons] at hremaining hcount
      have hrecord := frameRecord_of_live hbound hlive
      obtain ⟨-, hend, hsize, hinfo, hrest⟩ := hlive
      have hframe : reference.frameEnd = reference.localTop + reference.localSize := rfl
      have hfunction := hrunnable frame List.mem_cons_self
      have hresolve := resolveOptional_of_live hsize hinfo hfunction
      have hwalk : ∀ captured,
          walkFrames functions s innermostPc remaining frame.info.prev (some frame.info.returnPc)
            (c.push captured) =
          some ((backtrace functions innermostPc (some frame.info.returnPc) (c.totalFrames + 1)
            frames).foldl Capture.push (c.push captured), false) := by
        intro captured
        have hpush := Capture.push_totalFrames captured (show c.totalFrames < u32Max by omega)
        rw [← hpush]
        exact ih (show reference.localTop ≤ s.capacity by omega) hrest
          (fun other hmem => hrunnable other (List.mem_cons_of_mem _ hmem)) (by omega)
          (by rw [hpush]; omega)
      rw [walkFrames, hrecord]
      cases pendingReturnPc with
      | none => exact hwalk _
      | some returnPc =>
          simp only [hresolve]
          exact hwalk _

end chains

/-! ## What is gathered -/

/-- After the frames of a list, the first are in the head and the others went through the ring. -/
structure Gathered (c : Capture) (frames : List CapturedFrame) : Prop where
  totalFrames : c.totalFrames = frames.length
  head : c.head = frames.take headFrames
  tail : c.tail.Holds tailFrames (frames.drop headFrames)

theorem gathered_empty : Gathered .empty [] where
  totalFrames := rfl
  head := rfl
  tail := Lib.Ring.holds_empty tailFrames

theorem Gathered.push {c : Capture} {frames : List CapturedFrame} (h : Gathered c frames)
    (frame : CapturedFrame) (hcount : frames.length < u32Max) :
    Gathered (c.push frame) (frames ++ [frame]) := by
  have htotal := h.totalFrames
  have hmin : min (c.totalFrames + 1) u32Max = frames.length + 1 := by omega
  by_cases hhead : frames.length + 1 ≤ headFrames
  · have hpush : c.push frame =
        { c with head := c.head ++ [frame], totalFrames := frames.length + 1 } := by
      simp only [Capture.push, hmin, if_pos hhead]
    rw [hpush]
    exact {
      totalFrames := by simp
      head := by
        rw [List.take_of_length_le (by simpa using hhead)]
        simp only [h.head]
        rw [List.take_of_length_le (by omega)]
      tail := by
        have htail := h.tail
        rw [List.drop_of_length_le (by omega)] at htail
        rwa [List.drop_of_length_le (by simpa using hhead)] }
  · have hpush : c.push frame =
        { c with tail := c.tail.push frame, totalFrames := frames.length + 1 } := by
      simp only [Capture.push, hmin, if_neg hhead]
    rw [hpush]
    exact {
      totalFrames := by simp
      head := by
        rw [List.take_append_of_le_length (by omega)]
        exact h.head
      tail := by
        rw [List.drop_append_of_le_length (by omega)]
        exact h.tail.push (by decide) frame }

theorem Gathered.pushAll {c : Capture} {frames : List CapturedFrame} (h : Gathered c frames)
    (more : List CapturedFrame) (hcount : frames.length + more.length ≤ u32Max) :
    Gathered (more.foldl Capture.push c) (frames ++ more) := by
  induction more generalizing c frames with
  | nil => simpa using h
  | cons frame more ih =>
      rw [List.length_cons] at hcount
      have hrest := ih (h.push frame (by omega)) (by
        rw [List.length_append, List.length_singleton]
        omega)
      rwa [List.append_assoc] at hrest

/-- A list without its middle, as far as it is longer than the two ends. -/
def ends (frames : List CapturedFrame) : List CapturedFrame :=
  if frames.length ≤ headFrames + tailFrames then frames
  else frames.take headFrames ++ frames.drop (frames.length - tailFrames)

theorem ends_sublist (frames : List CapturedFrame) : (ends frames).Sublist frames := by
  rw [ends]
  split
  · exact List.Sublist.refl _
  next hlong =>
    have hsplit : headFrames ≤ frames.length - tailFrames := by omega
    calc (frames.take headFrames ++ frames.drop (frames.length - tailFrames)).Sublist
          (frames.take headFrames ++ frames.drop headFrames) :=
        (List.drop_sublist_drop_left frames hsplit).append_left _
      _ = frames := List.take_append_drop _ _

theorem gathered_frames (frames : List CapturedFrame) :
    frames.take headFrames ++
      (frames.drop headFrames).drop ((frames.drop headFrames).length - tailFrames) = ends frames := by
  rw [ends, List.length_drop]
  split
  next hshort =>
    rw [Nat.sub_eq_zero_of_le (by omega), List.drop_zero, List.take_append_drop]
  next hlong =>
    have hdrop : headFrames + (frames.length - headFrames - tailFrames) =
      frames.length - tailFrames := by omega
    rw [List.drop_drop, hdrop]

/-- A trap reports the live frames: all of them, or the innermost 48 and the outermost 16. Stacks are
made with 128 KiB, and frames are counted in 32 bits. -/
theorem captureTrapContext_exact {ρ : Type} {functions : Functions} {s : Stack}
    {reference : LocalReference} {frames : List LiveFrame}
    (hcapacity : s.capacity < callStackInfoSize * 2 ^ 32)
    (hlive : LiveFrames s s.capacity reference frames) (hrunnable : Runnable functions frames)
    (innermostPc : Option (BitVec 64)) (result : ρ) (taskId : Nat) :
    ∃ context,
      captureTrapContext functions s reference innermostPc result taskId = some context ∧
      context.result = result ∧ context.taskId = taskId ∧
      context.totalFrames = frames.length ∧
      (context.truncated = true ↔ 64 < frames.length) ∧
      (∃ report, ReportsChain functions innermostPc frames report ∧
        (frames.length ≤ 64 → context.frames = report) ∧
        (64 < frames.length →
          context.frames = report.take 48 ++ report.drop (frames.length - 16))) ∧
      (context.frames.map (·.depth)).Nodup := by
  have hroom := hlive.room
  have hcount : frames.length ≤ u32Max := by
    have hlt : frames.length < 2 ^ 32 := by
      rw [callStackInfoSize] at *
      omega
    rw [u32Max]
    omega
  have hlimit : frames.length < s.capacity / callStackInfoSize + 1 := by
    have hdiv := (Nat.le_div_iff_mul_le (show 0 < callStackInfoSize by decide)).mpr
      (Nat.mul_comm callStackInfoSize frames.length ▸ hroom)
    omega
  have hlength : (backtrace functions innermostPc none 0 frames).length = frames.length :=
    length_backtrace
  have hwalk : walkFrames functions s innermostPc (s.capacity / callStackInfoSize + 1) reference none
        .empty =
      some ((backtrace functions innermostPc none 0 frames).foldl Capture.push .empty, false) :=
    walkFrames_of_live (Nat.le_refl _) hlive hrunnable hlimit
      (show 0 + frames.length ≤ u32Max by omega)
  have hgathered := gathered_empty.pushAll (backtrace functions innermostPc none 0 frames)
    (by rw [hlength, List.length_nil]; omega)
  rw [List.nil_append] at hgathered
  have hframes := gathered_frames (backtrace functions innermostPc none 0 frames)
  have hsublist := (ends_sublist (backtrace functions innermostPc none 0 frames)).map (·.depth)
  rw [depths_backtrace] at hsublist
  refine ⟨⟨result, taskId, ends (backtrace functions innermostPc none 0 frames), frames.length,
    decide (headFrames + tailFrames < frames.length)⟩, ?_, rfl, rfl, rfl, ?_,
    ⟨_, backtrace_reports hrunnable, ?_, ?_⟩, ?_⟩
  · simp only [captureTrapContext, hwalk, Option.bind_eq_bind, Option.bind_some,
      hgathered.tail.toList, hgathered.head, hgathered.totalFrames, hframes, hlength,
      Bool.false_or]
    rfl
  · exact decide_eq_true_iff
  · intro hshort
    exact if_pos (by rwa [hlength])
  · intro hlong
    have hnot : ¬(backtrace functions innermostPc none 0 frames).length ≤ headFrames + tailFrames := by
      rw [hlength]
      exact Nat.not_le.mpr hlong
    rw [ends, if_neg hnot, hlength]
    rfl
  · exact hsublist.nodup List.nodup_range'

private def anyFunction : Functions := fun _ => some ⟨3, .wasm 8⟩

def nestedCall (s : FrameState) : FrameState :=
  match s.stack.functionCallCached 0 0 ⟨7, 64, 1, .noMemory, 0⟩ s.reference 3 with
  | .ok (reference, stack) => ⟨stack, reference, s.depth + 1⟩
  | .error _ => s

private def nestedCalls : FrameState := nestedCall (nestedCall (nestedCall (FrameState.new 131072)))

/-- The frames from a reference outwards, as the records lead. -/
def chainFrom (s : Stack) : Nat → LocalReference → List LiveFrame
  | 0, _ => []
  | fuel + 1, reference =>
      match s.frameRecord reference with
      | none => []
      | some info => ⟨reference, info⟩ :: chainFrom s fuel info.prev

theorem captureTrapContext_exact_nested :
    ∃ context,
      captureTrapContext anyFunction nestedCalls.stack nestedCalls.reference (some 80) () 1 =
        some context ∧ context.totalFrames = 3 ∧ context.truncated = false := by
  have hlength : (chainFrom nestedCalls.stack 3 nestedCalls.reference).length = 3 := by
    decide +kernel
  obtain ⟨context, hcontext, -, -, htotal, htruncated, -⟩ :=
    @captureTrapContext_exact Unit anyFunction nestedCalls.stack nestedCalls.reference
      (chainFrom nestedCalls.stack 3 nestedCalls.reference) (by decide +kernel) (by decide +kernel)
      (fun _ _ => rfl) (some 80) () 1
  have hshort : ¬context.truncated = true := by
    rw [htruncated, hlength]
    decide
  exact ⟨context, hcontext, htotal.trans hlength, Bool.eq_false_iff.mpr hshort⟩

end Telomere.Runtime
