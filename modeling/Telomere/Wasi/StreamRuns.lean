import Telomere.Lib.Trace
import Telomere.Wasi.Streams

/-!
# Calls on one input stream

A guest calls one stream again and again, and hands it to output streams as it likes. The calls take
the source's bytes one after the other; what they answer once there are none left, and in which order
a splice asks the two streams, is where the host departs from the interface it offers.
-/

namespace Telomere.Wasi

open Lib (Moment moments EachMoment)

inductive Call where
  | read (blocking : Bool) (len : BitVec 64)
  | skip (blocking : Bool) (len : BitVec 64)
  | splice (blocking : Bool) (output : Nat) (len : BitVec 64)
deriving DecidableEq, Repr

namespace Call

def len : Call → BitVec 64
  | .read _ len | .skip _ len | .splice _ _ len => len

def blocking : Call → Bool
  | .read blocking _ | .skip blocking _ | .splice blocking _ _ => blocking

end Call

/-- What a call moves: the bytes themselves, or how many there were. -/
inductive Transfer where
  | bytes (chunk : List Byte)
  | count (n : Nat)
deriving DecidableEq, Repr

def Transfer.length : Transfer → Nat
  | .bytes chunk => chunk.length
  | .count n => n

abbrev Outcome := Except ComponentError (Except StreamError Transfer)

def perform (answers : Answers) (stream : Nat) (call : Call) (s : Host) : Reply Transfer :=
  match call with
  | .read false len => (inputStreamRead answers stream len s).map .bytes
  | .read true len => (inputStreamBlockingRead answers stream len s).map .bytes
  | .skip false len => (inputStreamSkip answers stream len s).map .count
  | .skip true len => (inputStreamBlockingSkip answers stream len s).map .count
  | .splice _ output len => (outputStreamSplice answers output stream len s).map .count

def smaller (a b : BitVec 64) : BitVec 64 := if a.toNat ≤ b.toNat then a else b

theorem toNat_smaller (len : BitVec 64) : (smaller 4096 len).toNat = min 4096 len.toNat := by
  have hpermit : (4096 : BitVec 64).toNat = 4096 := rfl
  rw [smaller, hpermit]
  split
  · omega
  · omega

/-- `check-write`, then `read` with the smaller of the permit and the length, then `write`. -/
def spliceAsStated (answers : Answers) (output stream : Nat) (len : BitVec 64) (s : Host) :
    Reply Nat :=
  (outputStreamCheckWrite output s).andThen fun permit s =>
    (inputStreamRead answers stream (smaller permit len) s).andThen fun bytes s =>
      (outputStreamWriteBytes answers output bytes s).map fun _ => bytes.length

def asStated (answers : Answers) (stream : Nat) (call : Call) (s : Host) : Reply Transfer :=
  match call with
  | .splice _ output len => (spliceAsStated answers output stream len s).map .count
  | call => perform answers stream call s

/-- A call, and what the machine answers while it runs. Files do not change. -/
structure Input where
  call : Call
  stdin : Nat → Bool → Except IoError Vec
  console : OutputStreamKind → List Byte → Except IoError Unit

def Input.answers (input : Input) (files : String → Except IoError Vec) : Answers :=
  ⟨files, input.stdin, input.console⟩

section runs

variable (files : String → Except IoError Vec) (stream : Nat) (content : Vec)

def step (s : Host) (input : Input) : Option (Outcome × Host) :=
  some (perform (input.answers files) stream input.call s)

abbrev StreamMoment := Moment Host Input Outcome

def taken (past : List StreamMoment) : Nat :=
  (past.map fun now =>
    match now.output with
    | .ok (.ok transfer) => transfer.length
    | _ => 0).sum

/-- The bytes that a call moves are where it moves them to. -/
def Carries (now : StreamMoment) (slice : List Byte) : Transfer → Prop
  | .bytes chunk => chunk = slice
  | .count _ =>
      match now.input.call with
      | .read _ _ => False
      | .skip _ _ => True
      | .splice _ output _ => ∀ entry, now.before.outputStreams output = some entry →
          now.after.captured entry.kind = now.before.captured entry.kind ++ slice

/-- A call takes the bytes that follow those taken before, or none; it says that the stream is closed
when there are none left; a splice does what the interface states. -/
structure CallExact (past : List StreamMoment) (now : StreamMoment) : Prop where
  delivers : ∀ transfer, now.output = .ok (.ok transfer) →
    taken past + transfer.length ≤ content.val.length ∧
      Carries now ((content.val.drop (taken past)).take transfer.length) transfer
  keeps : (∀ transfer, now.output ≠ .ok (.ok transfer)) →
    now.after.inputStreams stream = now.before.inputStreams stream
  closes : taken past = content.val.length → 0 < now.input.call.len.toNat →
    now.output = .ok (.error .closed)
  blocks : now.input.call.blocking = true → 0 < now.input.call.len.toNat →
    ∀ transfer, now.output = .ok (.ok transfer) → transfer.length ≠ 0
  splices : (now.output, now.after) =
    asStated (now.input.answers files) stream now.input.call now.before

/-- The stream is closed, nothing is asked for or something is left. -/
def ReadSound (entry : InputStreamEntry) (len : Nat) : Prop :=
  entry.closed = true ∨ len = 0 ∨ entry.position < content.val.length

/-- What the output stream does not permit is not there to be moved. -/
def SpliceSound (entry : InputStreamEntry) (s : Host) (input : Input) (output len : Nat) : Prop :=
  let remaining := content.val.length - entry.position
  match s.outputStreams output with
  | none => ¬entry.closed = true ∧ len = 0
  | some target =>
      entry.closed = true ∨ len = 0 ∨
        if target.closed then remaining = 0
        else 0 < remaining ∧ (len ≤ 4096 ∨ remaining ≤ 4096) ∧
          (s.inheritStdio = true →
            input.console target.kind ((content.val.drop entry.position).take len) = .ok ())

def Sound (now : StreamMoment) : Prop :=
  ∃ entry, now.before.inputStreams stream = some entry ∧
    match now.input.call with
    | .read _ len | .skip _ len => ReadSound content entry len.toNat
    | .splice _ output len =>
        SpliceSound content entry now.before now.input output len.toNat

/-- The stream stands where the successful calls have left it. -/
def AtTaken (source : InputStreamSource) (past : List StreamMoment) (s : Host) : Prop :=
  ∃ entry, s.inputStreams stream = some entry ∧ entry.source = source ∧
    entry.position = taken past ∧ taken past ≤ content.val.length

def callOn (s : Host) (input : Input) : StreamMoment :=
  ⟨s, input, (perform (input.answers files) stream input.call s).1,
    (perform (input.answers files) stream input.call s).2⟩

end runs

section calls

variable {answers : Answers} {s : Host} {stream output : Nat} {len : BitVec 64} {blocking : Bool}
  {entry : InputStreamEntry} {target : OutputStreamEntry} {content : Vec} {bytes : List Byte}

@[simp] theorem streamError_inputStreams (s : Host) (message : String) (code : Option ErrorCode) :
    (s.streamError message code).2.inputStreams = s.inputStreams := rfl

@[simp] theorem capture_inputStreams (s : Host) (bytes : List Byte) (kind : OutputStreamKind) :
    (s.capture bytes kind).inputStreams = s.inputStreams := by
  cases kind <;> rfl

@[simp] theorem capture_inheritStdio (s : Host) (bytes : List Byte) (kind : OutputStreamKind) :
    (s.capture bytes kind).inheritStdio = s.inheritStdio := by
  cases kind <;> rfl

theorem captured_capture (s : Host) (bytes : List Byte) (kind : OutputStreamKind) :
    (s.capture bytes kind).captured kind = s.captured kind ++ bytes := by
  cases kind <;> rfl

theorem setPosition_at (hentry : s.inputStreams stream = some entry) (position : Nat) :
    (s.setPosition stream position).inputStreams stream = some { entry with position } := by
  simp [Host.setPosition, hentry]

theorem setPosition_same (hentry : s.inputStreams stream = some entry) :
    s.setPosition stream entry.position = s := by
  have hsame : (fun h => if h = stream then
      (s.inputStreams h).map fun e => { e with position := entry.position }
      else s.inputStreams h) = s.inputStreams := by
    funext h
    by_cases hstream : h = stream
    · rw [if_pos hstream, hstream, hentry]
      rfl
    · rw [if_neg hstream]
  rw [Host.setPosition]
  simp only [hsame]

theorem write_unknown (houtput : s.outputStreams output = none) :
    outputStreamWriteBytes answers output bytes s =
      (.error (.trap ("unknown output-stream handle " ++ toString output)), s) := by
  rw [outputStreamWriteBytes, houtput]

theorem write_closed (houtput : s.outputStreams output = some target)
    (hclosed : target.closed = true) :
    outputStreamWriteBytes answers output bytes s = (.ok (.error .closed), s) := by
  rw [outputStreamWriteBytes, houtput]
  exact if_pos hclosed

theorem write_ok (houtput : s.outputStreams output = some target) (hopen : ¬target.closed = true)
    (hconsole : s.inheritStdio = true → answers.console target.kind bytes = .ok ()) :
    outputStreamWriteBytes answers output bytes s = (.ok (.ok ()), s.capture bytes target.kind) := by
  simp only [outputStreamWriteBytes, houtput, if_neg hopen, capture_inheritStdio]
  by_cases hinherit : s.inheritStdio = true
  · rw [if_pos hinherit, hconsole hinherit]
  · rw [if_neg hinherit]

theorem write_failed {error : IoError} (houtput : s.outputStreams output = some target)
    (hopen : ¬target.closed = true) (hinherit : s.inheritStdio = true)
    (hconsole : answers.console target.kind bytes = .error error) :
    ∃ handle, (outputStreamWriteBytes answers output bytes s).1 =
      .ok (.error (.lastOperationFailed handle)) := by
  simp only [outputStreamWriteBytes, houtput, if_neg hopen, capture_inheritStdio, if_pos hinherit,
    hconsole]
  exact ⟨_, rfl⟩

theorem write_inputStreams (answers : Answers) (output : Nat) (bytes : List Byte) (s : Host) :
    (outputStreamWriteBytes answers output bytes s).2.inputStreams = s.inputStreams := by
  cases houtput : s.outputStreams output with
  | none => rw [write_unknown houtput]
  | some target =>
      by_cases hclosed : target.closed = true
      · rw [write_closed houtput hclosed]
      · simp only [outputStreamWriteBytes, houtput, if_neg hclosed, capture_inheritStdio]
        by_cases hinherit : s.inheritStdio = true
        · rw [if_pos hinherit]
          cases answers.console target.kind bytes with
          | error error => exact capture_inputStreams s bytes target.kind
          | ok _ => exact capture_inputStreams s bytes target.kind
        · rw [if_neg hinherit]
          exact capture_inputStreams s bytes target.kind

theorem splice_closed (hentry : s.inputStreams stream = some entry)
    (hclosed : entry.closed = true) :
    outputStreamSplice answers output stream len s = (.ok (.error .closed), s) := by
  rw [outputStreamSplice, inputStreamRead, read_closed hentry hclosed]
  rfl

theorem splice_open (hentry : s.inputStreams stream = some entry) (hopen : ¬entry.closed = true)
    (hreads : Reads answers.file content entry.source)
    (hposition : entry.position ≤ content.val.length) :
    outputStreamSplice answers output stream len s =
      (outputStreamWriteBytes answers output ((content.val.drop entry.position).take len.toNat)
        (s.setPosition stream (entry.position +
          ((content.val.drop entry.position).take len.toNat).length))).map
        fun _ => ((content.val.drop entry.position).take len.toNat).length := by
  rw [outputStreamSplice, inputStreamRead, read_open hentry hopen hreads hposition]
  rfl

theorem splice_count (hentry : s.inputStreams stream = some entry) (hopen : ¬entry.closed = true)
    (hreads : Reads answers.file content entry.source)
    (hposition : entry.position ≤ content.val.length) {n : Nat}
    (h : (outputStreamSplice answers output stream len s).1 = .ok (.ok n)) :
    n = ((content.val.drop entry.position).take len.toNat).length := by
  rw [splice_open hentry hopen hreads hposition] at h
  obtain ⟨_, _, hn⟩ := Reply.map_eq_ok h
  exact hn.symm

/-- A request that is cut to the permit moves the same, where no more is left or asked for. -/
theorem splice_cut (hentry : s.inputStreams stream = some entry) (hopen : ¬entry.closed = true)
    (hreads : Reads answers.file content entry.source)
    (hposition : entry.position ≤ content.val.length)
    (hpermit : len.toNat ≤ 4096 ∨ content.val.length - entry.position ≤ 4096) :
    outputStreamSplice answers output stream (smaller 4096 len) s =
      outputStreamSplice answers output stream len s := by
  have hchunk : (content.val.drop entry.position).take (smaller 4096 len).toNat =
      (content.val.drop entry.position).take len.toNat := by
    rw [List.take_eq_take_iff, List.length_drop, toNat_smaller]
    omega
  rw [splice_open hentry hopen hreads hposition, splice_open hentry hopen hreads hposition, hchunk]

theorem stated_permitted (houtput : s.outputStreams output = some target)
    (hopen : ¬target.closed = true) :
    spliceAsStated answers output stream len s =
      outputStreamSplice answers output stream (smaller 4096 len) s := by
  have hcheck : outputStreamCheckWrite output s = (.ok (.ok 4096), s) := by
    rw [outputStreamCheckWrite, houtput]
    exact if_neg hopen
  rw [spliceAsStated, hcheck]
  rfl

theorem stated_closed (houtput : s.outputStreams output = some target)
    (hclosed : target.closed = true) :
    spliceAsStated answers output stream len s = (.ok (.error .closed), s) := by
  have hcheck : outputStreamCheckWrite output s = (.ok (.error .closed), s) := by
    rw [outputStreamCheckWrite, houtput]
    exact if_pos hclosed
  rw [spliceAsStated, hcheck]
  rfl

theorem stated_unknown (houtput : s.outputStreams output = none) :
    spliceAsStated answers output stream len s =
      (.error (.trap ("unknown output-stream handle " ++ toString output)), s) := by
  have hcheck : outputStreamCheckWrite output s =
      (.error (.trap ("unknown output-stream handle " ++ toString output)), s) := by
    rw [outputStreamCheckWrite, houtput]
  rw [spliceAsStated, hcheck]
  rfl

end calls

section oneCall

variable {files : String → Except IoError Vec} {stream : Nat} {content : Vec}
  {past : List StreamMoment} {s : Host} {input : Input} {entry : InputStreamEntry}

/-- A call that moves what there is, and does what is stated, is exact when something is left or
nothing is asked for. -/
theorem callExact_of_moved {now : StreamMoment} {transfer : Transfer}
    (hwithin : taken past ≤ content.val.length) (houtput : now.output = .ok (.ok transfer))
    (hlength : transfer.length =
      ((content.val.drop (taken past)).take now.input.call.len.toNat).length)
    (hcarries : Carries now ((content.val.drop (taken past)).take now.input.call.len.toNat) transfer)
    (hstated : (now.output, now.after) =
      asStated (now.input.answers files) stream now.input.call now.before) :
    CallExact files stream content past now ↔
      now.input.call.len.toNat = 0 ∨ taken past < content.val.length := by
  rw [List.length_take, List.length_drop] at hlength
  constructor
  · intro hexact
    by_cases hzero : now.input.call.len.toNat = 0
    · exact .inl hzero
    · refine .inr (Nat.lt_of_le_of_ne hwithin fun hall => ?_)
      have hclosed := hexact.closes hall (Nat.pos_of_ne_zero hzero)
      rw [houtput] at hclosed
      cases hclosed
  · intro hleft
    refine ⟨?_, ?_, ?_, ?_, hstated⟩
    · intro moved hmoved
      obtain rfl : transfer = moved := Except.ok.inj (Except.ok.inj (houtput.symm.trans hmoved))
      have hslice : (content.val.drop (taken past)).take transfer.length =
          (content.val.drop (taken past)).take now.input.call.len.toNat := by
        rw [hlength, List.take_eq_take_iff, List.length_drop]
        omega
      rw [hslice]
      exact ⟨by omega, hcarries⟩
    · intro hfailed
      exact absurd houtput (hfailed transfer)
    · intro hall hpos
      omega
    · intro _ hpos moved hmoved
      obtain rfl : transfer = moved := Except.ok.inj (Except.ok.inj (houtput.symm.trans hmoved))
      omega

/-- A call that is refused and does what is stated is exact where it leaves the stream as it is and says
that it is closed, should nothing be left. -/
theorem callExact_of_refused {now : StreamMoment}
    (houtput : ∀ transfer, now.output ≠ .ok (.ok transfer))
    (hstated : (now.output, now.after) =
      asStated (now.input.answers files) stream now.input.call now.before)
    (hkeeps : now.after.inputStreams stream = now.before.inputStreams stream)
    (hcloses : 0 < now.input.call.len.toNat → now.output = .ok (.error .closed)) :
    CallExact files stream content past now where
  delivers transfer h := absurd h (houtput transfer)
  keeps _ := hkeeps
  closes _ := hcloses
  blocks _ _ transfer h := absurd h (houtput transfer)
  splices := hstated

theorem perform_read (answers : Answers) (blocking : Bool) (len : BitVec 64) :
    perform answers stream (.read blocking len) s =
      (inputStreamReadImpl answers stream len blocking s).map .bytes := by
  cases blocking <;> rfl

theorem perform_skip (answers : Answers) (blocking : Bool) (len : BitVec 64) :
    perform answers stream (.skip blocking len) s =
      ((inputStreamReadImpl answers stream len blocking s).map List.length).map .count := by
  cases blocking <;> rfl

theorem perform_closed (hentry : s.inputStreams stream = some entry)
    (hclosed : entry.closed = true) (answers : Answers) (call : Call) :
    perform answers stream call s = (.ok (.error .closed), s) := by
  cases call with
  | read blocking len => rw [perform_read, read_closed hentry hclosed]; rfl
  | skip blocking len => rw [perform_skip, read_closed hentry hclosed]; rfl
  | splice blocking output len => rw [perform, splice_closed hentry hclosed]; rfl

/-- A closed stream refuses, also where the output stream should have been asked first. -/
theorem callExact_closed_iff (hentry : s.inputStreams stream = some entry)
    (hclosed : entry.closed = true) :
    CallExact files stream content past (callOn files stream s input) ↔
      Sound stream content (callOn files stream s input) := by
  have hperform := perform_closed hentry hclosed (input.answers files) input.call
  have houtput : (callOn files stream s input).output = .ok (.error .closed) :=
    congrArg Prod.fst hperform
  have hafter : (callOn files stream s input).after = s := congrArg Prod.snd hperform
  have hrefused : ∀ transfer, (callOn files stream s input).output ≠ .ok (.ok transfer) := by
    intro transfer h
    rw [houtput] at h
    cases h
  have hexact (hstated : perform (input.answers files) stream input.call s =
      asStated (input.answers files) stream input.call s) :
      CallExact files stream content past (callOn files stream s input) :=
    callExact_of_refused hrefused hstated (congrFun (congrArg Host.inputStreams hafter) stream)
      fun _ => houtput
  cases hcall : input.call with
  | read blocking len =>
      refine iff_of_true (hexact (by rw [hcall]; rfl)) ⟨entry, hentry, ?_⟩
      simp only [callOn, hcall]
      exact .inl hclosed
  | skip blocking len =>
      refine iff_of_true (hexact (by rw [hcall]; rfl)) ⟨entry, hentry, ?_⟩
      simp only [callOn, hcall]
      exact .inl hclosed
  | splice blocking output len =>
      cases htarget : s.outputStreams output with
      | none =>
          refine iff_of_false ?_ ?_
          · intro h
            have hstated := congrArg Prod.fst h.splices
            simp only [callOn, hcall, asStated, stated_unknown htarget] at hstated
            rw [← hcall, congrArg Prod.fst hperform] at hstated
            cases hstated
          · rintro ⟨found, hfound, hsound⟩
            simp only [callOn, hcall, SpliceSound, htarget] at hsound
            obtain rfl : entry = found := Option.some.inj (hentry.symm.trans hfound)
            exact hsound.1 hclosed
      | some target =>
          refine iff_of_true (hexact ?_) ⟨entry, hentry, ?_⟩
          · rw [hperform, hcall, asStated]
            by_cases hopen : target.closed = true
            · rw [stated_closed htarget hopen]
              rfl
            · rw [stated_permitted htarget hopen, splice_closed hentry hclosed]
              rfl
          · simp only [callOn, hcall, SpliceSound, htarget]
            exact .inl hclosed

section opened

variable (hentry : s.inputStreams stream = some entry) (hopen : ¬entry.closed = true)
  (hreads : Reads files content entry.source) (hposition : entry.position = taken past)
  (hwithin : taken past ≤ content.val.length)
include hentry hopen hreads hposition hwithin

theorem callExact_read_iff {blocking : Bool} {len : BitVec 64}
    (hcall : input.call = .read blocking len ∨ input.call = .skip blocking len) :
    CallExact files stream content past (callOn files stream s input) ↔
      Sound stream content (callOn files stream s input) := by
  have hread : inputStreamReadImpl (input.answers files) stream len blocking s = _ :=
    read_open hentry hopen hreads (hposition ▸ hwithin)
  have hsound : Sound stream content (callOn files stream s input) ↔
      len.toNat = 0 ∨ taken past < content.val.length := by
    have hiff : ReadSound content entry len.toNat ↔
        len.toNat = 0 ∨ taken past < content.val.length := by
      rw [ReadSound, hposition]
      simp only [hopen, false_or, Bool.false_eq_true]
    rw [← hiff]
    obtain hcall | hcall := hcall
    · simp only [Sound, callOn, hcall, hentry, Option.some.injEq, exists_eq_left']
    · simp only [Sound, callOn, hcall, hentry, Option.some.injEq, exists_eq_left']
  rw [hsound]
  obtain hcall | hcall := hcall
  · have hperform : (callOn files stream s input).output =
        .ok (.ok (.bytes ((content.val.drop (taken past)).take len.toNat))) := by
      simp only [callOn, hcall, perform_read, hread, hposition]
      rfl
    have hlen : (callOn files stream s input).input.call.len = len := by
      simp only [callOn, hcall, Call.len]
    rw [callExact_of_moved hwithin hperform (by rw [hlen]; rfl) (by rw [hlen]; rfl)
      (by simp only [callOn, hcall, asStated]), hlen]
  · have hperform : (callOn files stream s input).output =
        .ok (.ok (.count ((content.val.drop (taken past)).take len.toNat).length)) := by
      simp only [callOn, hcall, perform_skip, hread, hposition]
      rfl
    have hlen : (callOn files stream s input).input.call.len = len := by
      simp only [callOn, hcall, Call.len]
    rw [callExact_of_moved hwithin hperform (by rw [hlen]; rfl)
      (by simp only [Carries, callOn, hcall]) (by simp only [callOn, hcall, asStated]), hlen]

theorem callExact_unknown_iff {blocking : Bool} {output : Nat} {len : BitVec 64}
    (hcall : input.call = .splice blocking output len) (htarget : s.outputStreams output = none) :
    CallExact files stream content past (callOn files stream s input) ↔
      Sound stream content (callOn files stream s input) := by
  have hsound : Sound stream content (callOn files stream s input) ↔ len.toNat = 0 := by
    simp only [Sound, callOn, hcall, hentry, Option.some.injEq, exists_eq_left', SpliceSound, htarget]
    exact and_iff_right hopen
  have hperform : perform (input.answers files) stream input.call s =
      (.error (.trap ("unknown output-stream handle " ++ toString output)),
        s.setPosition stream (entry.position +
          ((content.val.drop entry.position).take len.toNat).length)) := by
    have hsame (position : Nat) : (s.setPosition stream position).outputStreams output = none :=
      htarget
    rw [hcall, perform, splice_open hentry hopen hreads (hposition ▸ hwithin), write_unknown (hsame _)]
    rfl
  have houtput := congrArg Prod.fst hperform
  have hafter := congrArg Prod.snd hperform
  have hlen : (callOn files stream s input).input.call.len = len := by
    simp only [callOn, hcall, Call.len]
  have hrefused : ∀ transfer, (callOn files stream s input).output ≠ .ok (.ok transfer) := by
    intro transfer h
    cases houtput.symm.trans h
  rw [hsound]
  constructor
  · intro hexact
    by_cases hzero : len.toNat = 0
    · exact hzero
    · have hkept := hexact.keeps hrefused
      have hmoved := (congrArg (·.inputStreams stream) hafter).trans (setPosition_at hentry _)
      have hstays := congrArg InputStreamEntry.position
        (Option.some.inj (hmoved.symm.trans (hkept.trans hentry)))
      rw [List.length_take, List.length_drop] at hstays
      simp only at hstays
      have hclosed := hexact.closes (by omega) (by rw [hlen]; omega)
      cases houtput.symm.trans hclosed
  · intro hzero
    have hsame : perform (input.answers files) stream input.call s =
        (.error (.trap ("unknown output-stream handle " ++ toString output)), s) := by
      rw [hperform, hzero, List.take_zero, List.length_nil, Nat.add_zero, setPosition_same hentry]
    refine callExact_of_refused hrefused ?_ ?_ fun hpos => ?_
    · refine hsame.trans ?_
      simp only [callOn, hcall, asStated, stated_unknown htarget]
      rfl
    · exact congrFun (congrArg Host.inputStreams (congrArg Prod.snd hsame)) stream
    · rw [hlen] at hpos
      omega

theorem callExact_refused_iff {blocking : Bool} {output : Nat} {len : BitVec 64}
    {target : OutputStreamEntry} (hcall : input.call = .splice blocking output len)
    (htarget : s.outputStreams output = some target) (hclosed : target.closed = true) :
    CallExact files stream content past (callOn files stream s input) ↔
      Sound stream content (callOn files stream s input) := by
  have hsound : Sound stream content (callOn files stream s input) ↔
      len.toNat = 0 ∨ content.val.length - entry.position = 0 := by
    simp only [Sound, callOn, hcall, hentry, Option.some.injEq, exists_eq_left', SpliceSound, htarget,
      if_pos hclosed, hopen, false_or, Bool.false_eq_true]
  have hperform : perform (input.answers files) stream input.call s =
      (.ok (.error .closed), s.setPosition stream (entry.position +
        ((content.val.drop entry.position).take len.toNat).length)) := by
    have hsame (position : Nat) : (s.setPosition stream position).outputStreams output =
        some target := htarget
    rw [hcall, perform, splice_open hentry hopen hreads (hposition ▸ hwithin),
      write_closed (hsame _) hclosed]
    rfl
  have houtput := congrArg Prod.fst hperform
  have hafter := congrArg Prod.snd hperform
  have hrefused : ∀ transfer, (callOn files stream s input).output ≠ .ok (.ok transfer) := by
    intro transfer h
    cases houtput.symm.trans h
  rw [hsound]
  constructor
  · intro hexact
    have hkept := hexact.keeps hrefused
    have hmoved := (congrArg (·.inputStreams stream) hafter).trans (setPosition_at hentry _)
    have hstays := congrArg InputStreamEntry.position
      (Option.some.inj (hmoved.symm.trans (hkept.trans hentry)))
    rw [List.length_take, List.length_drop] at hstays
    simp only at hstays
    omega
  · intro hnone
    have hsame : perform (input.answers files) stream input.call s = (.ok (.error .closed), s) := by
      have hlength : ((content.val.drop entry.position).take len.toNat).length = 0 := by
        rw [List.length_take, List.length_drop]
        omega
      rw [hperform, hlength, Nat.add_zero, setPosition_same hentry]
    refine callExact_of_refused hrefused ?_ ?_ fun _ => houtput
    · refine hsame.trans ?_
      simp only [callOn, hcall, asStated, stated_closed htarget hclosed]
      rfl
    · exact congrFun (congrArg Host.inputStreams (congrArg Prod.snd hsame)) stream

/-- What an open output stream answers for a splice is told by the console. -/
theorem callExact_written_iff {blocking : Bool} {output : Nat} {len : BitVec 64}
    {target : OutputStreamEntry} (hcall : input.call = .splice blocking output len)
    (htarget : s.outputStreams output = some target) (hclosed : ¬target.closed = true)
    (hconsole : s.inheritStdio = true → input.console target.kind
      ((content.val.drop entry.position).take len.toNat) = .ok ()) :
    CallExact files stream content past (callOn files stream s input) ↔ len.toNat = 0 ∨
      taken past < content.val.length ∧
        (len.toNat ≤ 4096 ∨ content.val.length - entry.position ≤ 4096) := by
  have hle : entry.position ≤ content.val.length := hposition ▸ hwithin
  have hwrite (position : Nat) := @write_ok (input.answers files) (s.setPosition stream position)
    output target ((content.val.drop entry.position).take len.toNat) htarget hclosed hconsole
  have hperform : perform (input.answers files) stream input.call s =
      (.ok (.ok (.count ((content.val.drop entry.position).take len.toNat).length)),
        (s.setPosition stream (entry.position +
          ((content.val.drop entry.position).take len.toNat).length)).capture
          ((content.val.drop entry.position).take len.toNat) target.kind) := by
    rw [hcall, perform, splice_open hentry hopen hreads hle, hwrite]
    rfl
  have hstated : asStated (input.answers files) stream input.call s =
      (outputStreamSplice (input.answers files) output stream (smaller 4096 len) s).map .count := by
    rw [hcall, asStated, stated_permitted htarget hclosed]
  have hlen : (callOn files stream s input).input.call.len = len := by
    simp only [callOn, hcall, Call.len]
  by_cases hpermit : len.toNat ≤ 4096 ∨ content.val.length - entry.position ≤ 4096
  · have hcut : asStated (input.answers files) stream input.call s =
        perform (input.answers files) stream input.call s := by
      rw [hstated, splice_cut hentry hopen hreads hle hpermit, hcall, perform]
    have houtput : (callOn files stream s input).output =
        .ok (.ok (.count ((content.val.drop (taken past)).take len.toNat).length)) := by
      rw [← hposition]
      exact congrArg Prod.fst hperform
    have hcarries : Carries (callOn files stream s input)
        ((content.val.drop (taken past)).take len.toNat)
        (.count ((content.val.drop (taken past)).take len.toNat).length) := by
      rw [← hposition]
      simp only [Carries, callOn, hcall]
      intro found hfound
      obtain rfl : target = found := Option.some.inj (htarget.symm.trans hfound)
      rw [← hcall, congrArg Prod.snd hperform, captured_capture]
      cases target.kind <;> rfl
    rw [callExact_of_moved hwithin houtput (by rw [hlen]; rfl) (by rw [hlen]; exact hcarries)
      hcut.symm, hlen]
    simp only [hpermit, and_true]
  · have hlong : ¬(len.toNat = 0 ∨ taken past < content.val.length ∧
        (len.toNat ≤ 4096 ∨ content.val.length - entry.position ≤ 4096)) := by omega
    refine iff_of_false (fun hexact => ?_) hlong
    have hboth := (congrArg Prod.fst hperform).symm.trans (congrArg Prod.fst hexact.splices)
    simp only [callOn, hstated] at hboth
    obtain ⟨n, hsplice, hn⟩ := Reply.map_eq_ok hboth.symm
    have hcount := (Transfer.count.inj hn).symm.trans (splice_count hentry hopen hreads hle hsplice)
    rw [List.length_take, List.length_take, List.length_drop, toNat_smaller] at hcount
    omega

theorem callExact_failed_iff {blocking : Bool} {output : Nat} {len : BitVec 64} {error : IoError}
    {target : OutputStreamEntry} (hcall : input.call = .splice blocking output len)
    (htarget : s.outputStreams output = some target) (hclosed : ¬target.closed = true)
    (hinherit : s.inheritStdio = true) (hconsole : input.console target.kind
      ((content.val.drop entry.position).take len.toNat) = .error error) :
    CallExact files stream content past (callOn files stream s input) ↔ len.toNat = 0 := by
  have hle : entry.position ≤ content.val.length := hposition ▸ hwithin
  have hsplice := @splice_open (input.answers files) s stream output len entry content hentry hopen
    hreads hle
  obtain ⟨handle, hwrite⟩ := @write_failed (input.answers files) (s.setPosition stream
    (entry.position + ((content.val.drop entry.position).take len.toNat).length)) output target
    ((content.val.drop entry.position).take len.toNat) error htarget hclosed hinherit hconsole
  have houtput : (callOn files stream s input).output = .ok (.error (.lastOperationFailed handle)) := by
    simp only [callOn, hcall, perform, hsplice, Reply.fst_map, hwrite]
    rfl
  have hafter : (callOn files stream s input).after.inputStreams stream = some { entry with
      position := entry.position +
        ((content.val.drop entry.position).take len.toNat).length } := by
    simp only [callOn, hcall, perform, hsplice, Reply.snd_map, write_inputStreams]
    exact setPosition_at hentry _
  have hlen : (callOn files stream s input).input.call.len = len := by
    simp only [callOn, hcall, Call.len]
  have hrefused : ∀ transfer, (callOn files stream s input).output ≠ .ok (.ok transfer) := by
    intro transfer h
    cases houtput.symm.trans h
  constructor
  · intro hexact
    by_cases hzero : len.toNat = 0
    · exact hzero
    · have hstays := congrArg InputStreamEntry.position
        (Option.some.inj (hafter.symm.trans ((hexact.keeps hrefused).trans hentry)))
      rw [List.length_take, List.length_drop] at hstays
      simp only at hstays
      have hclosed := hexact.closes (by omega) (by rw [hlen]; omega)
      cases houtput.symm.trans hclosed
  · intro hzero
    refine callExact_of_refused hrefused ?_ ?_ fun hpos => ?_
    · have hcut := @splice_cut (input.answers files) s stream output len entry content hentry hopen
        hreads hle (.inl (by omega))
      simp only [callOn, hcall, perform, asStated, stated_permitted htarget hclosed, hcut]
    · rw [hafter, hzero, List.take_zero, List.length_nil, Nat.add_zero]
      exact hentry.symm
    · rw [hlen] at hpos
      omega

theorem callExact_splice_iff {blocking : Bool} {output : Nat} {len : BitVec 64}
    (hcall : input.call = .splice blocking output len) :
    CallExact files stream content past (callOn files stream s input) ↔
      Sound stream content (callOn files stream s input) := by
  cases htarget : s.outputStreams output with
  | none => exact callExact_unknown_iff hentry hopen hreads hposition hwithin hcall htarget
  | some target =>
      by_cases hclosed : target.closed = true
      · exact callExact_refused_iff hentry hopen hreads hposition hwithin hcall htarget hclosed
      · have hsound : Sound stream content (callOn files stream s input) ↔ len.toNat = 0 ∨
            0 < content.val.length - entry.position ∧
              (len.toNat ≤ 4096 ∨ content.val.length - entry.position ≤ 4096) ∧
              (s.inheritStdio = true → input.console target.kind
                ((content.val.drop entry.position).take len.toNat) = .ok ()) := by
          simp only [Sound, callOn, hcall, hentry, Option.some.injEq, exists_eq_left', SpliceSound,
            htarget, if_neg hclosed, hopen, false_or, Bool.false_eq_true]
        rw [hsound]
        by_cases hconsole : s.inheritStdio = true → input.console target.kind
            ((content.val.drop entry.position).take len.toNat) = .ok ()
        · rw [callExact_written_iff hentry hopen hreads hposition hwithin hcall htarget hclosed hconsole]
          have hleft : taken past < content.val.length ↔
              0 < content.val.length - entry.position := by omega
          rw [hleft, and_iff_left hconsole]
        · obtain ⟨hinherit, hnot⟩ := Classical.not_imp.mp hconsole
          simp only [hconsole, and_false, or_false]
          cases hanswer : input.console target.kind
              ((content.val.drop entry.position).take len.toNat) with
          | ok _ => exact absurd hanswer hnot
          | error error =>
              exact callExact_failed_iff hentry hopen hreads hposition hwithin hcall htarget hclosed
                hinherit hanswer

end opened

theorem callExact_iff (hat : AtTaken stream content entry.source past s)
    (hentry : s.inputStreams stream = some entry) (hreads : Reads files content entry.source) :
    CallExact files stream content past (callOn files stream s input) ↔
      Sound stream content (callOn files stream s input) := by
  obtain ⟨found, hfound, _, hposition, hwithin⟩ := hat
  obtain rfl : entry = found := Option.some.inj (hentry.symm.trans hfound)
  by_cases hclosed : entry.closed = true
  · exact callExact_closed_iff hentry hclosed
  · cases hcall : input.call with
    | read blocking len =>
        exact callExact_read_iff hentry hclosed hreads hposition hwithin (.inl hcall)
    | skip blocking len =>
        exact callExact_read_iff hentry hclosed hreads hposition hwithin (.inr hcall)
    | splice blocking output len =>
        exact callExact_splice_iff hentry hclosed hreads hposition hwithin hcall

theorem perform_moves (answers : Answers) (call : Call)
    (hentry : s.inputStreams stream = some entry) (hreads : Reads answers.file content entry.source)
    (hposition : entry.position ≤ content.val.length) :
    ∃ k, (perform answers stream call s).2.inputStreams stream =
        some { entry with position := entry.position + k } ∧
      entry.position + k ≤ content.val.length ∧
      ∀ transfer, (perform answers stream call s).1 = .ok (.ok transfer) → transfer.length = k := by
  by_cases hclosed : entry.closed = true
  · have hperform := perform_closed hentry hclosed answers call
    refine ⟨0, ?_, hposition, ?_⟩
    · rw [hperform]
      exact hentry
    · intro transfer h
      rw [hperform] at h
      cases h
  · refine ⟨((content.val.drop entry.position).take call.len.toNat).length, ?_, ?_, ?_⟩
    · cases call with
      | read blocking len =>
          rw [perform_read, read_open hentry hclosed hreads hposition]
          exact setPosition_at hentry _
      | skip blocking len =>
          rw [perform_skip, read_open hentry hclosed hreads hposition]
          exact setPosition_at hentry _
      | splice blocking output len =>
          rw [perform, splice_open hentry hclosed hreads hposition, Reply.snd_map, Reply.snd_map,
            write_inputStreams]
          exact setPosition_at hentry _
    · rw [List.length_take, List.length_drop]
      omega
    · intro transfer h
      cases call with
      | read blocking len =>
          rw [perform_read, read_open hentry hclosed hreads hposition] at h
          obtain rfl := Except.ok.inj (Except.ok.inj h)
          rfl
      | skip blocking len =>
          rw [perform_skip, read_open hentry hclosed hreads hposition] at h
          obtain rfl := Except.ok.inj (Except.ok.inj h)
          rfl
      | splice blocking output len =>
          rw [perform, splice_open hentry hclosed hreads hposition] at h
          obtain ⟨n, hn, rfl⟩ := Reply.map_eq_ok h
          obtain ⟨_, _, rfl⟩ := Reply.map_eq_ok hn
          rfl

/-- After an exact call the stream stands where the calls have left it. -/
theorem atTaken_callOn (hat : AtTaken stream content entry.source past s)
    (hreads : Reads files content entry.source)
    (hexact : CallExact files stream content past (callOn files stream s input)) :
    AtTaken stream content entry.source (past ++ [callOn files stream s input])
      (callOn files stream s input).after := by
  obtain ⟨found, hfound, hsource, hposition, hwithin⟩ := hat
  obtain ⟨k, hafter, hbound, hmoved⟩ := perform_moves (input.answers files) input.call hfound
    (hsource ▸ hreads) (hposition ▸ hwithin)
  have htaken : taken (past ++ [callOn files stream s input]) =
      taken past + taken [callOn files stream s input] := by
    simp only [taken, List.map_append, List.sum_append]
  rw [AtTaken, htaken]
  by_cases hsuccess : ∃ transfer, (callOn files stream s input).output = .ok (.ok transfer)
  · obtain ⟨transfer, hsuccess⟩ := hsuccess
    have hlast : taken [callOn files stream s input] = k := by
      simp only [taken, List.map_cons, List.map_nil, List.sum_cons, List.sum_nil, hsuccess,
        Nat.add_zero]
      exact hmoved transfer hsuccess
    rw [hlast, ← hposition]
    exact ⟨_, hafter, hsource, rfl, hbound⟩
  · have hrefused : ∀ transfer, (callOn files stream s input).output ≠ .ok (.ok transfer) :=
      fun transfer h => hsuccess ⟨transfer, h⟩
    have hlast : taken [callOn files stream s input] = 0 := by
      simp only [taken, List.map_cons, List.map_nil, List.sum_cons, List.sum_nil, Nat.add_zero]
    rw [hlast, Nat.add_zero]
    exact ⟨found, (hexact.keeps hrefused).trans hfound, hsource, hposition, hwithin⟩

end oneCall

/-! ## Sequences of calls -/

/-- From its start, the calls on a stream partition its source, say when it has ended and splice as the
interface states exactly when each of them is made while something is left and each splice within what
the output stream permits. -/
theorem streamCalls_exact_iff {files : String → Except IoError Vec} {stream : Nat} {content : Vec}
    {s : Host} {entry : InputStreamEntry} {inputs : List Input} {run : List StreamMoment}
    (hentry : s.inputStreams stream = some entry) (hstart : entry.position = 0)
    (hreads : Reads files content entry.source)
    (hrun : moments (step files stream) s inputs = some run) :
    EachMoment (CallExact files stream content) run ↔ ∀ now ∈ run, Sound stream content now := by
  refine Lib.eachMoment_iff (AtTaken stream content entry.source) ?_ ?_ hrun
  · intro past s input output t hat hstep
    obtain ⟨rfl, rfl⟩ := Prod.mk.inj (Option.some.inj hstep)
    obtain ⟨found, hfound, hsource, hrest⟩ := id hat
    have hfiles : Reads files content found.source := hsource ▸ hreads
    have hthere : AtTaken stream content found.source past s := hsource ▸ hat
    have hiff : CallExact files stream content past (callOn files stream s input) ↔
        Sound stream content (callOn files stream s input) := callExact_iff hthere hfound hfiles
    refine ⟨hiff, fun hsound => ?_⟩
    have hkept := atTaken_callOn hthere hfiles (hiff.mpr hsound)
    rwa [hsource] at hkept
  · exact ⟨entry, hentry, rfl, hstart, Nat.zero_le _⟩

def bufferHost (bytes : Vec) : Host where
  inputStreams h := if h = 0 then some ⟨.buffer bytes, 0, false⟩ else none
  outputStreams h := if h = 1 then some ⟨.stdout, false⟩ else none
  errors _ := none
  stdout := []
  stderr := []
  inheritStdio := false
  nextHandle := 2

def quietInput (call : Call) : Input :=
  ⟨call, fun _ _ => .ok ⟨[], by decide⟩, fun _ _ => .ok ()⟩

def noFiles (_ : String) : Except IoError Vec := .error ⟨.notFound, "not found"⟩

def twoBytes : Vec := ⟨[1, 2], by decide⟩

theorem streamCalls_exact_iff_twoBytes :
    EachMoment (CallExact noFiles 0 twoBytes)
      [callOn noFiles 0 (bufferHost twoBytes) (quietInput (.splice false 1 2))] := by
  refine (@streamCalls_exact_iff noFiles 0 twoBytes (bufferHost twoBytes)
    ⟨.buffer twoBytes, 0, false⟩ [quietInput (.splice false 1 2)] _ rfl rfl rfl rfl).mpr ?_
  intro now hnow
  obtain rfl := List.mem_singleton.mp hnow
  refine ⟨⟨.buffer twoBytes, 0, false⟩, rfl, .inr (.inr ?_)⟩
  exact ⟨by decide, .inl (by decide), fun hinherit => nomatch hinherit⟩

/-- Past its end a stream goes on to answer with no bytes, also to a call that blocks until there is
one. -/
theorem exhausted_reads_empty :
    ∃ run, moments (step noFiles 0) (bufferHost twoBytes)
        [quietInput (.read false 2), quietInput (.read true 1)] = some run ∧
      run.map (·.output) = [.ok (.ok (.bytes [1, 2])), .ok (.ok (.bytes []))] ∧
      ¬EachMoment (CallExact noFiles 0 twoBytes) run := by
  refine ⟨_, rfl, rfl, fun hexact => ?_⟩
  have hsecond := (hexact [_] _ [] rfl).closes rfl (by decide)
  cases hsecond

end Telomere.Wasi
