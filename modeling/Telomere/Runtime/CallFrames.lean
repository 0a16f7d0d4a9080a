import Telomere.Runtime.Stack

/-!
# Call frames

A call opens a frame over its arguments and a return closes it: the caller finds its reference, its
pc and its bytes as they were, with the results in the place of the arguments, however the callee and
what it called used the stack in between.
-/

namespace Telomere.Runtime

theorem fromLeBytes_leBytes {n value : Nat} (h : value < 256 ^ n) :
    fromLeBytes (leBytes n value) = value := by
  induction n generalizing value with
  | zero =>
      obtain rfl : value = 0 := by simpa using h
      rfl
  | succ n ih =>
      have hdiv : value / 256 < 256 ^ n := by
        rw [Nat.div_lt_iff_lt_mul (by decide)]
        simpa [Nat.pow_succ] using h
      rw [leBytes, fromLeBytes, ih hdiv, BitVec.toNat_ofNat]
      exact Nat.mod_add_div value 256

theorem CachedMemoryKind.ofByte_toByte (kind : CachedMemoryKind) :
    ofByte kind.toByte = kind := by
  cases kind <;> rfl

@[simp] theorem CallStackInfo.length_toBytes (info : CallStackInfo) :
    info.toBytes.length = callStackInfoSize := by
  simp [toBytes, callStackInfoSize]

namespace Stack

section record

variable {s t : Stack} {infoTop : Nat} {m : Nat → Byte} {info : CallStackInfo}
  {reference : LocalReference}

theorem readLe_written (hmem : s.memory = Lib.poke m infoTop info.toBytes) {k n value : Nat}
    (hk : k + n ≤ callStackInfoSize) (hfield : (info.toBytes.drop k).take n = leBytes n value)
    (hvalue : value < 256 ^ n) : s.readLe (infoTop + k) n = value := by
  rw [readLe, Stack.peek, hmem, Lib.peek_poke m infoTop (by rwa [info.length_toBytes]), hfield,
    fromLeBytes_leBytes hvalue]

theorem callStackInfo_written (hmem : s.memory = Lib.poke m infoTop info.toBytes)
    (hend : reference.frameEnd = infoTop + callStackInfoSize)
    (hcapacity : reference.frameEnd ≤ s.capacity) (htop : info.prev.localTop < 2 ^ 64)
    (hsize : info.prev.localSize < 2 ^ 32) : s.callStackInfo reference = .ok info := by
  have hrange : ¬(reference.frameEnd < callStackInfoSize ∨ s.capacity < reference.frameEnd) := by
    omega
  have hinfoTop : reference.frameEnd - callStackInfoSize = infoTop := by omega
  have hpc := readLe_written hmem (by decide) (show (info.toBytes.drop 0).take 8 = _ from rfl)
    info.returnPc.isLt
  have hprevTop := readLe_written hmem (by decide)
    (show (info.toBytes.drop 8).take 8 = _ from rfl) htop
  have hprevSize := readLe_written hmem (by decide)
    (show (info.toBytes.drop 16).take 4 = _ from rfl) hsize
  have haddr := readLe_written hmem (by decide)
    (show (info.toBytes.drop 20).take 4 = _ from rfl) info.frame.codeAddr.isLt
  have hbase := readLe_written hmem (by decide)
    (show (info.toBytes.drop 24).take 8 = _ from rfl) info.frame.codeBase.isLt
  have hinstance := readLe_written hmem (by decide)
    (show (info.toBytes.drop 32).take 4 = _ from rfl) info.frame.instanceId.isLt
  have hkind := readLe_written hmem (by decide)
    (show (info.toBytes.drop 36).take 1 = leBytes 1 info.frame.memory0Kind.toByte from rfl)
    (by cases info.frame.memory0Kind <;> decide)
  have hraw := readLe_written hmem (by decide)
    (show (info.toBytes.drop 37).take 4 = _ from rfl) info.frame.memory0Raw.isLt
  rw [Nat.add_zero] at hpc
  rw [callStackInfo, if_neg hrange]
  simp only [hinfoTop, hpc, hprevTop, hprevSize, haddr, hbase, hinstance, hkind, hraw,
    BitVec.ofNat_toNat, BitVec.setWidth_eq, CachedMemoryKind.ofByte_toByte]

theorem callStackInfo_congr (hcapacity : t.capacity = s.capacity)
    (hmem : ∀ i, reference.frameEnd ≤ i + callStackInfoSize → i < reference.frameEnd →
      t.memory i = s.memory i) : t.callStackInfo reference = s.callStackInfo reference := by
  rw [callStackInfo, callStackInfo, hcapacity]
  split
  · rfl
  next hrange =>
    have hread : ∀ k n, k + n ≤ callStackInfoSize →
        t.readLe (reference.frameEnd - callStackInfoSize + k) n =
          s.readLe (reference.frameEnd - callStackInfoSize + k) n := by
      intro k n hk
      rw [readLe, readLe, Stack.peek, Stack.peek]
      refine congrArg fromLeBytes (Lib.peek_congr fun i hle hlt => hmem i ?_ ?_)
      · omega
      · omega
    have hpc := hread 0 8 (by decide)
    rw [Nat.add_zero] at hpc
    simp only [hpc, hread 8 8 (by decide), hread 16 4 (by decide), hread 20 4 (by decide),
      hread 24 8 (by decide), hread 32 4 (by decide), hread 36 1 (by decide),
      hread 37 4 (by decide)]

end record

section operations

variable {s t : Stack} {reference : LocalReference}

theorem write_eq {addr : Nat} {bytes : List Byte} (h : addr + bytes.length ≤ s.capacity) :
    s.write addr bytes = .ok { s with memory := Lib.poke s.memory addr bytes } :=
  if_neg (by omega)

theorem zeroNewLocals_eq {start size : Nat} (h : start + size ≤ s.capacity) :
    s.zeroNewLocals start size =
      .ok { s with memory := Lib.poke s.memory start (List.replicate size 0) } := by
  by_cases hsize : size = 0
  · simp [zeroNewLocals, hsize]
  · rw [zeroNewLocals, if_neg hsize, if_neg (by omega), write_eq (by simpa using h)]

theorem copyTopBytesTo_eq {dst size : Nat} (htop : s.top ≤ s.capacity) (hsize : dst + size ≤ s.top) :
    s.copyTopBytesTo dst size =
      .ok { s with memory := Lib.poke s.memory dst (s.peek (s.top - size) size) } := by
  rw [copyTopBytesTo, if_neg (by omega)]
  split
  next hsame =>
    rcases hsame with rfl | hsame
    · simp [Stack.peek, Lib.peek]
    · rw [hsame, Stack.peek, Lib.poke_peek_self]
  · rw [if_neg (by omega), write_eq]
    rw [Stack.peek, Lib.length_peek]
    omega

theorem pushSlice_eq {bytes : List Byte} :
    s.pushSlice bytes = if s.capacity < s.top + bytes.length then .error .stackOverflow
      else .ok { s with
        memory := Lib.poke s.memory s.top bytes
        top := s.top + bytes.length } := by
  rw [pushSlice]
  split
  · rfl
  next hfits =>
    rw [write_eq (by omega)]
    rfl

theorem drop_eq {n : Nat} (h : n ≤ s.top) : s.drop n = .ok { s with top := s.top - n } :=
  if_neg (Nat.not_lt.mpr h)

theorem localSet_eq {localAddr size : Nat} (htop : s.top ≤ s.capacity) (hsize : size ≤ s.top)
    (hlocal : reference.localTop + localAddr + size ≤ s.capacity) :
    s.localSet reference localAddr size = .ok { s with
      memory := Lib.poke s.memory (reference.localTop + localAddr) (s.peek (s.top - size) size)
      top := s.top - size } := by
  rw [localSet, if_neg (by omega), write_eq (by rwa [Stack.peek, Lib.length_peek])]
  rfl

/-- The bytes of a new frame: zeros, then the record. -/
def withFrame (s : Stack) (localsTop localSize : Nat) (info : CallStackInfo) : Stack :=
  { s with
    memory := Lib.poke (Lib.poke s.memory localsTop (List.replicate localSize 0))
      (localsTop + localSize) info.toBytes
    top := localsTop + localSize + callStackInfoSize }

theorem functionCallCached_eq {paramSize localSize : Nat} {frame : CallFrameCache}
    {prev : LocalReference} {returnPc : BitVec 64} (hparam : paramSize ≤ s.top) :
    s.functionCallCached paramSize localSize frame prev returnPc =
      if s.capacity < s.top + localSize + callStackInfoSize then .error .stackOverflow
      else .ok (Stack.reference (s.top - paramSize) (s.top + localSize + callStackInfoSize),
        s.withFrame s.top localSize ⟨returnPc, prev, frame⟩) := by
  have hlocalsTop : s.top - paramSize + paramSize = s.top := Nat.sub_add_cancel hparam
  simp only [functionCallCached, if_neg (Nat.not_lt.mpr hparam), frameEndFromLocalTop, hlocalsTop]
  split
  · rfl
  next hfits =>
    have hroom : s.top + localSize ≤ s.capacity := by
      rw [callStackInfoSize] at hfits
      omega
    have hzero := zeroNewLocals_eq hroom
    have hrecord : s.top + localSize + callStackInfoSize ≤ s.capacity := by omega
    simp only [Lib.ok_bind, hzero, writeCallStackInfoAt]
    rw [write_eq (by rwa [CallStackInfo.length_toBytes])]
    rfl

/-- A tail call puts the arguments in the place of the frame's own and writes its frame above. -/
theorem functionReturnCallCached_eq {paramSize localSize : Nat} {frame : CallFrameCache}
    {info : CallStackInfo} (htop : s.top ≤ s.capacity) (hinfo : s.callStackInfo reference = .ok info)
    (hparam : reference.localTop + paramSize ≤ s.top) :
    s.functionReturnCallCached reference paramSize localSize frame =
      if s.capacity < reference.localTop + paramSize + localSize + callStackInfoSize then
        .error .stackOverflow
      else .ok (Stack.reference reference.localTop
          (reference.localTop + paramSize + localSize + callStackInfoSize),
        withFrame { s with
            memory := Lib.poke s.memory reference.localTop
              (s.peek (s.top - paramSize) paramSize) }
          (reference.localTop + paramSize) localSize { info with frame := frame }) := by
  simp only [functionReturnCallCached, hinfo, Lib.ok_bind, copyTopBytesTo_eq htop hparam,
    frameEndFromLocalTop]
  split
  · rfl
  next hfits =>
    have hrecord :
        reference.localTop + paramSize + localSize + callStackInfoSize ≤ s.capacity := by omega
    rw [Lib.ok_bind, zeroNewLocals_eq (by rw [callStackInfoSize] at hrecord; dsimp only; omega),
      Lib.ok_bind, writeCallStackInfoAt, write_eq (by rwa [CallStackInfo.length_toBytes])]
    rfl

theorem copyOrPanic_eq {dst size : Nat} (htop : s.top ≤ s.capacity) (hsize : dst + size ≤ s.top) :
    s.copyOrPanic dst size = .ok { s with
      memory := Lib.poke s.memory dst (s.peek (s.top - size) size)
      top := dst + size } := by
  rw [copyOrPanic, copyTopBytesTo_eq htop hsize]

theorem withFrame_memory {localsTop localSize : Nat} {info : CallStackInfo} :
    (s.withFrame localsTop localSize info).memory =
      Lib.poke (Lib.poke s.memory localsTop (List.replicate localSize 0)) (localsTop + localSize)
        info.toBytes := rfl

theorem withFrame_below {localsTop localSize i : Nat} {info : CallStackInfo} (h : i < localsTop) :
    (s.withFrame localsTop localSize info).memory i = s.memory i := by
  rw [withFrame_memory, Lib.poke_below _ _ (by omega), Lib.poke_below _ _ h]

theorem withFrame_local {localsTop localSize i : Nat} {info : CallStackInfo} (hle : localsTop ≤ i)
    (hlt : i < localsTop + localSize) : (s.withFrame localsTop localSize info).memory i = 0 := by
  obtain ⟨k, rfl⟩ := Nat.exists_eq_add_of_le hle
  have hk : k < (List.replicate localSize (0 : Byte)).length := by
    rw [List.length_replicate]
    omega
  rw [withFrame_memory, Lib.poke_below _ _ hlt, Lib.poke_at _ _ hk, List.getElem_replicate]

theorem withFrame_above {localsTop localSize i : Nat} {info : CallStackInfo}
    (h : localsTop + localSize + callStackInfoSize ≤ i) :
    (s.withFrame localsTop localSize info).memory i = s.memory i := by
  rw [callStackInfoSize] at h
  rw [withFrame_memory, Lib.poke_above _ (by rw [CallStackInfo.length_toBytes, callStackInfoSize]; omega),
    Lib.poke_above _ (by rw [List.length_replicate]; omega)]

end operations

end Stack

/-- The calls that have not returned, the last one first. A tail call leaves its caller's call. -/
def nextOpen (calls : List FrameMoment) (now : FrameMoment) : List FrameMoment :=
  match now.input with
  | .call _ _ _ _ => now :: calls
  | .ret _ _ => calls.tail
  | _ => calls

def openCalls (past : List FrameMoment) : List FrameMoment := past.foldl nextOpen []

theorem openCalls_append {past : List FrameMoment} {now : FrameMoment} :
    openCalls (past ++ [now]) = nextOpen (openCalls past) now := by
  simp [openCalls]

/-- Nothing at or beyond the capacity is written. A call and a tail call keep the arguments, and the
other locals are zero. A return gives back the reference and the pc of its call and the bytes below
the arguments as they were then, with the results in the place of the arguments. -/
structure FrameDiscipline (past : List FrameMoment) (now : FrameMoment) : Prop where
  inBounds : now.output ≠ .panicked ∧ now.after.stack.capacity = now.before.stack.capacity ∧
    now.after.stack.top ≤ now.after.stack.capacity ∧
    ∀ i, now.before.stack.capacity ≤ i → now.after.stack.memory i = now.before.stack.memory i
  called : ∀ paramSize localSize frame returnPc,
    now.input = .call paramSize localSize frame returnPc →
      now.after.reference.localTop + paramSize = now.before.stack.top ∧
      (∀ i < now.before.stack.top, now.after.stack.memory i = now.before.stack.memory i) ∧
      ∀ i, now.before.stack.top ≤ i → i < now.before.stack.top + localSize →
        now.after.stack.memory i = 0
  tailCalled : ∀ paramSize localSize frame, now.input = .tailCall paramSize localSize frame →
    now.after.reference.localTop = now.before.reference.localTop ∧
    now.after.stack.peek now.before.reference.localTop paramSize =
      now.before.stack.peek (now.before.stack.top - paramSize) paramSize ∧
    ∀ i, now.before.reference.localTop + paramSize ≤ i →
      i < now.before.reference.localTop + paramSize + localSize → now.after.stack.memory i = 0
  returned : ∀ code returnSize, now.input = .ret code returnSize →
    ∃ call calls paramSize localSize frame returnPc, openCalls past = call :: calls ∧
      call.input = .call paramSize localSize frame returnPc ∧
      now.after.reference = call.before.reference ∧
      now.output = .returned returnPc
        (call.before.stack.resolve code call.before.reference returnPc) ∧
      now.after.stack.top + paramSize = call.before.stack.top + returnSize ∧
      (∀ i, i + paramSize < call.before.stack.top →
        now.after.stack.memory i = call.before.stack.memory i) ∧
      now.after.stack.peek (call.before.stack.top - paramSize) returnSize =
        now.before.stack.peek (now.before.stack.top - returnSize) returnSize

/-! ## The invariant -/

/-- The frame of a call lies above the operands its caller kept; its record leads back to the caller,
whose bytes are as they were at the call, and who is himself in the frame of his call. -/
def Called : List FrameMoment → Stack → LocalReference → Prop
  | [], _, _ => True
  | call :: calls, s, reference =>
      (∃ paramSize localSize frame returnPc,
        call.input = .call paramSize localSize frame returnPc ∧
        reference.localTop + paramSize = call.before.stack.top ∧
        ∃ frame, s.callStackInfo reference = .ok ⟨returnPc, call.before.reference, frame⟩) ∧
      callStackInfoSize ≤ reference.localSize ∧
      call.before.reference.frameEnd ≤ reference.localTop ∧
      (∀ i < reference.localTop, s.memory i = call.before.stack.memory i) ∧
      s.capacity = call.before.stack.capacity ∧
      Called calls call.before.stack call.before.reference

structure FramesKept (past : List FrameMoment) (s : FrameState) : Prop where
  small : s.stack.capacity < 2 ^ 32
  top : s.stack.top ≤ s.stack.capacity
  frame : s.reference.frameEnd ≤ s.stack.top
  depth : s.depth = (openCalls past).length
  calls : Called (openCalls past) s.stack s.reference

namespace Stack

variable {s t : Stack} {reference : LocalReference}

theorem reference_localSize {localTop newTop : Nat} (hsmall : newTop < 2 ^ 32) :
    (Stack.reference localTop newTop).localSize = newTop - localTop :=
  Nat.mod_eq_of_lt (by omega)

theorem withFrame_callStackInfo {localsTop localSize : Nat} (info : CallStackInfo)
    (hend : reference.frameEnd = localsTop + localSize + callStackInfoSize)
    (hfits : localsTop + localSize + callStackInfoSize ≤ s.capacity)
    (htop : info.prev.localTop < 2 ^ 64) (hsize : info.prev.localSize < 2 ^ 32) :
    (s.withFrame localsTop localSize info).callStackInfo reference = .ok info :=
  callStackInfo_written rfl hend (hend ▸ hfits) htop hsize

theorem resolve_congr {code : BitVec 32 → Option Nat} {pc : BitVec 64}
    (h : t.callStackInfo reference = s.callStackInfo reference) :
    t.resolve code reference pc = s.resolve code reference pc := by
  rw [resolve, resolve, h]

end Stack

section steps

variable {past : List FrameMoment} {s t : FrameState}

theorem Called.congr {calls : List FrameMoment} {s t : Stack} {reference : LocalReference}
    (h : Called calls s reference) (hcapacity : t.capacity = s.capacity)
    (hbelow : ∀ i < reference.localTop, t.memory i = s.memory i)
    (hinfo : ∀ i, reference.frameEnd ≤ i + callStackInfoSize → i < reference.frameEnd →
      t.memory i = s.memory i) : Called calls t reference := by
  cases calls with
  | nil => trivial
  | cons call calls =>
      obtain ⟨⟨paramSize, localSize, frame, returnPc, hinput, hparam, hrecord⟩, hsize, hend, hsame,
        hcap, hcalls⟩ := h
      refine ⟨⟨paramSize, localSize, frame, returnPc, hinput, hparam, ?_⟩, hsize, hend,
        fun i hi => ?_, hcapacity.trans hcap, hcalls⟩
      · rwa [Stack.callStackInfo_congr hcapacity hinfo]
      · rw [hbelow i hi, hsame i hi]

/-- An op inside of a frame that leaves what is below the frame, and its record. -/
theorem FramesKept.within (hs : FramesKept past s) {op : FrameOp}
    (hopen : ∀ calls, nextOpen calls ⟨s, op, .done, t⟩ = calls)
    (hcall : ∀ paramSize localSize frame returnPc, op ≠ .call paramSize localSize frame returnPc)
    (htail : ∀ paramSize localSize frame, op ≠ .tailCall paramSize localSize frame)
    (hret : ∀ code returnSize, op ≠ .ret code returnSize)
    (hreference : t.reference = s.reference) (hdepth : t.depth = s.depth)
    (hcapacity : t.stack.capacity = s.stack.capacity) (htop : t.stack.top ≤ s.stack.capacity)
    (hframe : s.reference.frameEnd ≤ t.stack.top)
    (hbelow : ∀ i < s.reference.localTop, t.stack.memory i = s.stack.memory i)
    (hinfo : ∀ i, s.reference.frameEnd ≤ i + callStackInfoSize → i < s.reference.frameEnd →
      t.stack.memory i = s.stack.memory i)
    (hbeyond : ∀ i, s.stack.capacity ≤ i → t.stack.memory i = s.stack.memory i) :
    FrameDiscipline past ⟨s, op, .done, t⟩ ∧ FramesKept (past ++ [⟨s, op, .done, t⟩]) t := by
  refine ⟨⟨⟨by simp, hcapacity, hcapacity ▸ htop, hbeyond⟩, ?_, ?_, ?_⟩, ⟨?_, hcapacity ▸ htop, ?_, ?_,
    ?_⟩⟩
  · exact fun paramSize localSize frame returnPc h =>
      (hcall paramSize localSize frame returnPc h).elim
  · exact fun paramSize localSize frame h => (htail paramSize localSize frame h).elim
  · exact fun code returnSize h => (hret code returnSize h).elim
  · rw [hcapacity]
    exact hs.small
  · rwa [hreference]
  · rw [hdepth, openCalls_append, hopen]
    exact hs.depth
  · rw [hreference, openCalls_append, hopen]
    exact hs.calls.congr hcapacity hbelow hinfo

theorem FramesKept.push (hs : FramesKept past s) {bytes : List Byte}
    (hfits : s.stack.top + bytes.length ≤ s.stack.capacity)
    (ht : t = { s with stack := { s.stack with
      memory := Lib.poke s.stack.memory s.stack.top bytes
      top := s.stack.top + bytes.length } }) :
    FrameDiscipline past ⟨s, .push bytes, .done, t⟩ ∧
      FramesKept (past ++ [⟨s, .push bytes, .done, t⟩]) t := by
  have hframe := hs.frame
  have hend : s.reference.frameEnd = s.reference.localTop + s.reference.localSize := rfl
  subst ht
  refine hs.within (fun _ => rfl) (by simp) (by simp) (by simp) rfl rfl rfl hfits (by simp; omega)
    (fun i hi => Lib.poke_below _ _ (by omega)) (fun i _ hi => Lib.poke_below _ _ (by omega))
    fun i hi => Lib.poke_above _ (by omega)

theorem FramesKept.pop (hs : FramesKept past s) {size : Nat}
    (hsize : s.reference.frameEnd + size ≤ s.stack.top)
    (ht : t = { s with stack := { s.stack with top := s.stack.top - size } }) :
    FrameDiscipline past ⟨s, .pop size, .done, t⟩ ∧
      FramesKept (past ++ [⟨s, .pop size, .done, t⟩]) t := by
  have htop := hs.top
  subst ht
  exact hs.within (fun _ => rfl) (by simp) (by simp) (by simp) rfl rfl rfl (by simp; omega)
    (by simp; omega) (fun _ _ => rfl) (fun _ _ _ => rfl) fun _ _ => rfl

theorem FramesKept.localSet (hs : FramesKept past s) {localAddr size : Nat}
    (hsize : s.reference.frameEnd + size ≤ s.stack.top)
    (hlocal : localAddr + size + callStackInfoSize ≤ s.reference.localSize)
    (ht : t = { s with stack := { s.stack with
      memory := Lib.poke s.stack.memory (s.reference.localTop + localAddr)
        (s.stack.peek (s.stack.top - size) size)
      top := s.stack.top - size } }) :
    FrameDiscipline past ⟨s, .localSet localAddr size, .done, t⟩ ∧
      FramesKept (past ++ [⟨s, .localSet localAddr size, .done, t⟩]) t := by
  have htop := hs.top
  have hend : s.reference.frameEnd = s.reference.localTop + s.reference.localSize := rfl
  have hlength : (s.stack.peek (s.stack.top - size) size).length = size := Lib.length_peek ..
  subst ht
  exact hs.within (fun _ => rfl) (by simp) (by simp) (by simp) rfl rfl rfl (by simp; omega)
    (by simp; omega) (fun i hi => Lib.poke_below _ _ (by omega))
    (fun i hi _ => Lib.poke_above _ (by omega)) fun i hi => Lib.poke_above _ (by omega)

theorem FramesKept.blockReturn (hs : FramesKept past s) {stackTop returnSize : Nat}
    (hsize : s.reference.frameEnd + stackTop + returnSize ≤ s.stack.top)
    (ht : t = { s with stack := { s.stack with
      memory := Lib.poke s.stack.memory (s.reference.frameEnd + stackTop)
        (s.stack.peek (s.stack.top - returnSize) returnSize)
      top := s.reference.frameEnd + stackTop + returnSize } }) :
    FrameDiscipline past ⟨s, .blockReturn stackTop returnSize, .done, t⟩ ∧
      FramesKept (past ++ [⟨s, .blockReturn stackTop returnSize, .done, t⟩]) t := by
  have htop := hs.top
  have hend : s.reference.frameEnd = s.reference.localTop + s.reference.localSize := rfl
  have hlength : (s.stack.peek (s.stack.top - returnSize) returnSize).length = returnSize :=
    Lib.length_peek ..
  subst ht
  exact hs.within (fun _ => rfl) (by simp) (by simp) (by simp) rfl rfl rfl (by simp; omega)
    (by simp; omega) (fun i hi => Lib.poke_below _ _ (by omega))
    (fun i _ hi => Lib.poke_below _ _ (by omega)) fun i hi => Lib.poke_above _ (by omega)

theorem FramesKept.call (hs : FramesKept past s) {paramSize localSize : Nat}
    {frame : CallFrameCache} {returnPc : BitVec 64}
    (hparam : s.reference.frameEnd + paramSize ≤ s.stack.top)
    (hfits : s.stack.top + localSize + callStackInfoSize ≤ s.stack.capacity)
    (ht : t = ⟨s.stack.withFrame s.stack.top localSize ⟨returnPc, s.reference, frame⟩,
      Stack.reference (s.stack.top - paramSize) (s.stack.top + localSize + callStackInfoSize),
      s.depth + 1⟩) :
    FrameDiscipline past ⟨s, .call paramSize localSize frame returnPc, .done, t⟩ ∧
      FramesKept (past ++ [⟨s, .call paramSize localSize frame returnPc, .done, t⟩]) t := by
  have htop := hs.top
  have hsmall := hs.small
  have hcaller : s.reference.frameEnd = s.reference.localTop + s.reference.localSize := rfl
  have hopen : openCalls (past ++ [⟨s, .call paramSize localSize frame returnPc, .done, t⟩]) =
      ⟨s, .call paramSize localSize frame returnPc, .done, t⟩ :: openCalls past := openCalls_append
  have hlocalTop : t.reference.localTop = s.stack.top - paramSize := by rw [ht]; rfl
  have hlocalSize : t.reference.localSize = paramSize + localSize + callStackInfoSize := by
    rw [ht]
    dsimp only
    rw [Stack.reference_localSize (by omega)]
    omega
  have hend : t.reference.frameEnd = s.stack.top + localSize + callStackInfoSize := by
    rw [LocalReference.frameEnd, hlocalTop, hlocalSize]
    omega
  have hbelow : ∀ i < s.stack.top, t.stack.memory i = s.stack.memory i := by
    rw [ht]
    exact fun i hi => Stack.withFrame_below hi
  refine ⟨⟨⟨by simp, by rw [ht]; rfl, ?_, fun i hi => ?_⟩, ?_, by simp, by simp⟩, ?_⟩
  · rw [ht]
    exact hfits
  · rw [ht]
    exact Stack.withFrame_above (Nat.le_trans hfits hi)
  · rintro paramSize' localSize' frame' returnPc' heq
    obtain ⟨rfl, rfl, rfl, rfl⟩ := FrameOp.call.inj heq
    refine ⟨?_, hbelow, fun i hle hlt => ?_⟩
    · show t.reference.localTop + paramSize = s.stack.top
      omega
    · show t.stack.memory i = 0
      rw [ht]
      exact Stack.withFrame_local hle hlt
  · refine ⟨by rw [ht]; exact hsmall, by rw [ht]; exact hfits, ?_, ?_, ?_⟩
    · rw [hend, ht]
      exact Nat.le_refl _
    · rw [hopen, List.length_cons, ← hs.depth, ht]
    · rw [hopen]
      refine ⟨⟨paramSize, localSize, frame, returnPc, rfl, ?_, frame, ?_⟩, by omega, ?_,
        fun i hi => hbelow i (by omega), by rw [ht]; rfl, hs.calls⟩
      · show t.reference.localTop + paramSize = s.stack.top
        omega
      · have hrecord := Stack.withFrame_callStackInfo ⟨returnPc, s.reference, frame⟩ hend
          hfits (show s.reference.localTop < 2 ^ 64 by omega)
          (show s.reference.localSize < 2 ^ 32 by omega)
        rw [ht] at hrecord ⊢
        exact hrecord
      · show s.reference.frameEnd ≤ t.reference.localTop
        omega

theorem FramesKept.tailCall (hs : FramesKept past s) {paramSize localSize : Nat}
    {frame : CallFrameCache} {info : CallStackInfo} {call : FrameMoment}
    {calls : List FrameMoment} (hcalls : openCalls past = call :: calls)
    (hinfo : s.stack.callStackInfo s.reference = .ok info)
    (hparam : s.reference.frameEnd + paramSize ≤ s.stack.top)
    (hfits : s.reference.localTop + paramSize + localSize + callStackInfoSize ≤ s.stack.capacity)
    (ht : t = ⟨Stack.withFrame { s.stack with
          memory := Lib.poke s.stack.memory s.reference.localTop
            (s.stack.peek (s.stack.top - paramSize) paramSize) }
        (s.reference.localTop + paramSize) localSize { info with frame := frame },
      Stack.reference s.reference.localTop
        (s.reference.localTop + paramSize + localSize + callStackInfoSize), s.depth⟩) :
    FrameDiscipline past ⟨s, .tailCall paramSize localSize frame, .done, t⟩ ∧
      FramesKept (past ++ [⟨s, .tailCall paramSize localSize frame, .done, t⟩]) t := by
  have htop := hs.top
  have hsmall := hs.small
  have hframe : s.reference.frameEnd = s.reference.localTop + s.reference.localSize := rfl
  have hlength : (s.stack.peek (s.stack.top - paramSize) paramSize).length = paramSize :=
    Lib.length_peek ..
  have hopen : openCalls (past ++ [⟨s, .tailCall paramSize localSize frame, .done, t⟩]) =
      openCalls past := openCalls_append
  have hlocalTop : t.reference.localTop = s.reference.localTop := by rw [ht]; rfl
  have hlocalSize : t.reference.localSize = paramSize + localSize + callStackInfoSize := by
    rw [ht]
    dsimp only
    rw [Stack.reference_localSize (by omega)]
    omega
  have hend : t.reference.frameEnd =
      s.reference.localTop + paramSize + localSize + callStackInfoSize := by
    rw [LocalReference.frameEnd, hlocalTop, hlocalSize]
    omega
  have hbelow : ∀ i < s.reference.localTop, t.stack.memory i = s.stack.memory i := by
    rw [ht]
    intro i hi
    rw [Stack.withFrame_below (by omega)]
    exact Lib.poke_below _ _ hi
  have hkept := hs.calls
  rw [hcalls] at hkept
  obtain ⟨⟨paramSize', localSize', frame', returnPc, hinput, hparam', frame'', hrecord⟩, hsize,
    hcallerEnd, hsame, hcapacity, hrest⟩ := hkept
  obtain rfl := Except.ok.inj (hinfo.symm.trans hrecord)
  refine ⟨⟨⟨by simp, by rw [ht]; rfl, ?_, fun i hi => ?_⟩, by simp, ?_, by simp⟩, ?_⟩
  · rw [ht]
    exact hfits
  · have hbeyond : s.stack.capacity ≤ i := hi
    show t.stack.memory i = s.stack.memory i
    rw [ht]
    dsimp only
    rw [Stack.withFrame_above (by omega)]
    exact Lib.poke_above _ (by omega)
  · rintro paramSize' localSize' frame' heq
    obtain ⟨rfl, rfl, rfl⟩ := FrameOp.tailCall.inj heq
    refine ⟨hlocalTop, ?_, fun i hle hlt => ?_⟩
    · show Lib.peek t.stack.memory s.reference.localTop paramSize = _
      have hargs : ∀ i, s.reference.localTop ≤ i → i < s.reference.localTop + paramSize →
          t.stack.memory i = Lib.poke s.stack.memory s.reference.localTop
            (s.stack.peek (s.stack.top - paramSize) paramSize) i := by
        rw [ht]
        exact fun i _ hi => Stack.withFrame_below hi
      rw [Lib.peek_congr hargs]
      have hself := Lib.peek_poke_self s.stack.memory s.reference.localTop
        (s.stack.peek (s.stack.top - paramSize) paramSize)
      rwa [hlength] at hself
    · show t.stack.memory i = 0
      rw [ht]
      exact Stack.withFrame_local hle hlt
  · refine ⟨by rw [ht]; exact hsmall, by rw [ht]; exact hfits, ?_, ?_, ?_⟩
    · rw [hend, ht]
      exact Nat.le_refl _
    · rw [hopen, ht]
      exact hs.depth
    · rw [hopen, hcalls]
      have hcallerFrame : call.before.reference.frameEnd =
        call.before.reference.localTop + call.before.reference.localSize := rfl
      refine ⟨⟨paramSize', localSize', frame', returnPc, hinput, by rw [hlocalTop]; exact hparam',
        frame, ?_⟩, by omega, by rw [hlocalTop]; exact hcallerEnd, fun i hi => ?_,
        by rw [ht]; exact hcapacity, hrest⟩
      · have hrecord := Stack.withFrame_callStackInfo (s := { s.stack with
              memory := Lib.poke s.stack.memory s.reference.localTop
                (s.stack.peek (s.stack.top - paramSize) paramSize) })
          ⟨returnPc, call.before.reference, frame⟩ hend hfits
          (show call.before.reference.localTop < 2 ^ 64 by omega)
          (show call.before.reference.localSize < 2 ^ 32 by omega)
        rw [ht] at hrecord ⊢
        exact hrecord
      · rw [hlocalTop] at hi
        rw [hbelow i hi, hsame i hi]

theorem FramesKept.ret (hs : FramesKept past s) {code : BitVec 32 → Option Nat}
    {returnSize : Nat} {info : CallStackInfo} {call : FrameMoment} {calls : List FrameMoment}
    {u : Stack} {output : FrameOutput} (hcalls : openCalls past = call :: calls)
    (hinfo : s.stack.callStackInfo s.reference = .ok info)
    (hsize : s.reference.frameEnd + returnSize ≤ s.stack.top)
    (hu : u = { s.stack with
      memory := Lib.poke s.stack.memory s.reference.localTop
        (s.stack.peek (s.stack.top - returnSize) returnSize)
      top := s.reference.localTop + returnSize })
    (houtput : output = .returned info.returnPc (u.resolve code info.prev info.returnPc))
    (ht : t = ⟨u, info.prev, s.depth - 1⟩) :
    FrameDiscipline past ⟨s, .ret code returnSize, output, t⟩ ∧
      FramesKept (past ++ [⟨s, .ret code returnSize, output, t⟩]) t := by
  have htop := hs.top
  have hsmall := hs.small
  have hframe : s.reference.frameEnd = s.reference.localTop + s.reference.localSize := rfl
  have hlength : (s.stack.peek (s.stack.top - returnSize) returnSize).length = returnSize :=
    Lib.length_peek ..
  have hopen : openCalls (past ++ [⟨s, .ret code returnSize, output, t⟩]) = calls := by
    rw [openCalls_append, hcalls]
    rfl
  have hkept := hs.calls
  rw [hcalls] at hkept
  obtain ⟨⟨paramSize, localSize, frame, returnPc, hinput, hparam, frame', hrecord⟩, hrecordSize,
    hcallerEnd, hsame, hcapacity, hrest⟩ := hkept
  obtain rfl := Except.ok.inj (hinfo.symm.trans hrecord)
  have hcallerFrame : call.before.reference.frameEnd =
    call.before.reference.localTop + call.before.reference.localSize := rfl
  have hbelow : ∀ i < s.reference.localTop, u.memory i = call.before.stack.memory i := by
    rw [hu]
    intro i hi
    exact (Lib.poke_below _ _ hi).trans (hsame i hi)
  have hucapacity : u.capacity = call.before.stack.capacity := by rw [hu]; exact hcapacity
  have hcallerInfo : u.callStackInfo call.before.reference =
      call.before.stack.callStackInfo call.before.reference :=
    Stack.callStackInfo_congr hucapacity fun i _ hi => hbelow i (by omega)
  refine ⟨⟨⟨by rw [houtput]; simp, by rw [ht, hu], ?_, fun i hi => ?_⟩, by simp, by simp, ?_⟩, ?_⟩
  · rw [ht, hu]
    show s.reference.localTop + returnSize ≤ s.stack.capacity
    omega
  · have hbeyond : s.stack.capacity ≤ i := hi
    rw [ht, hu]
    exact Lib.poke_above _ (by omega)
  · rintro code' returnSize' heq
    obtain ⟨rfl, rfl⟩ := FrameOp.ret.inj heq
    refine ⟨call, calls, paramSize, localSize, frame, returnPc, hcalls, hinput, by rw [ht], ?_, ?_,
      fun i hi => ?_, ?_⟩
    · show output = _
      rw [houtput]
      exact congrArg (FrameOutput.returned returnPc) (Stack.resolve_congr hcallerInfo)
    · rw [ht, hu]
      show s.reference.localTop + returnSize + paramSize = call.before.stack.top + returnSize
      omega
    · show t.stack.memory i = _
      rw [ht]
      exact hbelow i (by omega)
    · have hargs : call.before.stack.top - paramSize = s.reference.localTop := by omega
      rw [hargs, ht, hu]
      have hself := Lib.peek_poke_self s.stack.memory s.reference.localTop
        (s.stack.peek (s.stack.top - returnSize) returnSize)
      rwa [hlength] at hself
  · refine ⟨by rw [ht, hu]; exact hsmall, ?_, ?_, ?_, ?_⟩
    · rw [ht, hu]
      show s.reference.localTop + returnSize ≤ s.stack.capacity
      omega
    · rw [ht, hu]
      show call.before.reference.frameEnd ≤ s.reference.localTop + returnSize
      omega
    · have hdepth := hs.depth
      rw [hcalls, List.length_cons] at hdepth
      rw [hopen, ht, hdepth]
      rfl
    · rw [hopen, ht]
      exact hrest.congr hucapacity (fun i hi => hbelow i (by omega)) fun i _ hi => hbelow i (by omega)

theorem FramesKept.callStackInfo (hs : FramesKept past s) (hdepth : s.depth ≠ 0) :
    ∃ call calls info, openCalls past = call :: calls ∧
      s.stack.callStackInfo s.reference = .ok info := by
  have hkept := hs.calls
  cases hcalls : openCalls past with
  | nil =>
      rw [hs.depth, hcalls] at hdepth
      exact (hdepth rfl).elim
  | cons call calls =>
      rw [hcalls] at hkept
      obtain ⟨⟨_, _, _, _, _, _, frame, hrecord⟩, _⟩ := hkept
      exact ⟨call, calls, _, rfl, hrecord⟩

theorem FramesKept.step (hs : FramesKept past s) {op : FrameOp} {output : FrameOutput}
    (h : frameStep s op = some (output, t)) :
    FrameDiscipline past ⟨s, op, output, t⟩ ∧ FramesKept (past ++ [⟨s, op, output, t⟩]) t := by
  have htop := hs.top
  have hframe : s.reference.frameEnd = s.reference.localTop + s.reference.localSize := rfl
  rw [frameStep] at h
  split at h
  next hallows =>
    cases op with
    | push bytes =>
        simp only [FrameState.run, Stack.pushSlice_eq] at h
        by_cases hfits : s.stack.capacity < s.stack.top + bytes.length
        · simp only [if_pos hfits] at h
          cases h
        · simp only [if_neg hfits] at h
          cases h
          exact hs.push (Nat.not_lt.mp hfits) rfl
    | pop size =>
        have hsize : s.reference.frameEnd + size ≤ s.stack.top := hallows
        simp only [FrameState.run, Stack.drop_eq (show size ≤ s.stack.top by omega)] at h
        cases h
        exact hs.pop hsize rfl
    | localSet localAddr size =>
        obtain ⟨-, hsize, hlocal⟩ := hallows
        rw [callStackInfoSize] at hlocal
        have hroom : s.reference.localTop + localAddr + size ≤ s.stack.capacity := by omega
        simp only [FrameState.run,
          Stack.localSet_eq htop (show size ≤ s.stack.top by omega) hroom] at h
        cases h
        exact hs.localSet hsize hlocal rfl
    | call paramSize localSize frame returnPc =>
        have hparam : s.reference.frameEnd + paramSize ≤ s.stack.top := hallows
        simp only [FrameState.run,
          Stack.functionCallCached_eq (show paramSize ≤ s.stack.top by omega)] at h
        by_cases hfits : s.stack.capacity < s.stack.top + localSize + callStackInfoSize
        · simp only [if_pos hfits] at h
          cases h
        · simp only [if_neg hfits] at h
          cases h
          exact hs.call hparam (Nat.not_lt.mp hfits) rfl
    | tailCall paramSize localSize frame =>
        obtain ⟨hdepth, hparam⟩ := hallows
        obtain ⟨call, calls, info, hcalls, hinfo⟩ := hs.callStackInfo hdepth
        have hargs : s.reference.localTop + paramSize ≤ s.stack.top := by omega
        simp only [FrameState.run, Stack.functionReturnCallCached_eq htop hinfo hargs] at h
        by_cases hfits : s.stack.capacity <
          s.reference.localTop + paramSize + localSize + callStackInfoSize
        · simp only [if_pos hfits] at h
          cases h
        · simp only [if_neg hfits] at h
          cases h
          exact hs.tailCall hcalls hinfo hparam (Nat.not_lt.mp hfits) rfl
    | blockReturn stackTop returnSize =>
        have hsize : s.reference.frameEnd + stackTop + returnSize ≤ s.stack.top := hallows
        simp only [FrameState.run, Stack.blockReturn, Stack.copyOrPanic_eq htop hsize] at h
        cases h
        exact hs.blockReturn hsize rfl
    | ret code returnSize =>
        obtain ⟨hdepth, hsize⟩ := hallows
        obtain ⟨call, calls, info, hcalls, hinfo⟩ := hs.callStackInfo hdepth
        have hresults : s.reference.localTop + returnSize ≤ s.stack.top := by omega
        simp only [FrameState.run, Stack.functionReturn, hinfo, Lib.ok_bind,
          Stack.copyOrPanic_eq htop hresults] at h
        cases h
        exact hs.ret hcalls hinfo hsize rfl rfl rfl
  · cases h

theorem framesKept_new {size : Nat} (hsize : size < 2 ^ 32) : FramesKept [] (FrameState.new size) :=
  ⟨hsize, Nat.zero_le _, Nat.le_refl _, rfl, trivial⟩

/-- The stack is below 4 GiB, for the size of a frame is kept in 32 bits; those of tasks have
128 KiB. -/
theorem frames_disciplined {size : Nat} {ops : List FrameOp} {run : List FrameMoment}
    (hsize : size < 2 ^ 32) (hrun : Lib.moments frameStep (FrameState.new size) ops = some run) :
    Lib.EachMoment FrameDiscipline run :=
  Lib.eachMoment_of FramesKept (fun _ _ _ _ _ hs hstep _ => hs.step hstep) (framesKept_new hsize)
    hrun fun _ _ => trivial

end steps

private def anyFrame : CallFrameCache := ⟨7, 64, 1, .noMemory, 0⟩

/-- A call, a call from it that is replaced by a larger frame, and both returns. -/
private def nestedFrames : List FrameOp :=
  [.push [1, 2, 3, 4], .call 4 8 anyFrame 512, .push [5, 6, 7, 8], .push [9, 9, 9, 9],
    .call 4 0 anyFrame 3, .push [11, 12], .localSet 1 2, .push [1, 1, 1, 1, 1, 1, 1, 1],
    .tailCall 8 16 anyFrame, .push [21, 22, 23, 24], .blockReturn 0 2, .ret (fun _ => some 4) 2,
    .ret (fun _ => none) 4]

theorem frames_disciplined_nested :
    ∃ run, Lib.moments frameStep (FrameState.new 131072) nestedFrames = some run ∧
      Lib.EachMoment FrameDiscipline run := by
  have hsome : (Lib.moments frameStep (FrameState.new 131072) nestedFrames).isSome = true := by
    decide +kernel
  obtain ⟨run, hrun⟩ := Option.isSome_iff_exists.mp hsome
  exact ⟨run, hrun, frames_disciplined (by decide) hrun⟩

end Telomere.Runtime
