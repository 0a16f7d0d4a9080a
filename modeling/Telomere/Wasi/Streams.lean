import Mathlib.Data.List.Basic
import Mathlib.Data.BitVec

/-!
# WASI streams

The host's streams and the calls on them. What the machine answers during a call, the content of a
file, the bytes of its standard input and whether a write to its console succeeds, is given with the
call. Hosts are taken to have 64-bit addresses.
-/

namespace Telomere.Wasi

abbrev Byte := BitVec 8

def usizeMax : Nat := 2 ^ 64 - 1

/-- `Vec<u8>` -/
abbrev Vec := { bytes : List Byte // bytes.length ≤ usizeMax }

inductive ComponentError where
  | trap (message : String)
deriving DecidableEq, Repr

inductive ErrorKind where
  | notFound | permissionDenied | alreadyExists | invalidInput | invalidData | wouldBlock
  | writeZero | unexpectedEof | brokenPipe | notADirectory | isADirectory | unsupported | other
deriving DecidableEq, Repr

structure IoError where
  kind : ErrorKind
  text : String
deriving DecidableEq, Repr

inductive ErrorCode where
  | noEntry | access | exist | invalid | wouldBlock | pipe | notDirectory | isDirectory
  | unsupported | io
deriving DecidableEq, Repr

def mapIoError (error : IoError) : ErrorCode :=
  match error.kind with
  | .notFound => .noEntry
  | .permissionDenied => .access
  | .alreadyExists => .exist
  | .invalidInput | .invalidData => .invalid
  | .wouldBlock => .wouldBlock
  | .writeZero | .unexpectedEof | .brokenPipe => .pipe
  | .notADirectory => .notDirectory
  | .isADirectory => .isDirectory
  | .unsupported => .unsupported
  | .other => .io

structure ErrorEntry where
  debugMessage : String
  filesystemCode : Option ErrorCode
deriving DecidableEq, Repr

inductive StreamError where
  | lastOperationFailed (handle : Nat)
  | closed
deriving DecidableEq, Repr

inductive InputStreamSource where
  | buffer (bytes : Vec)
  | file (path : String)
  | hostStdin
deriving DecidableEq, Repr

structure InputStreamEntry where
  source : InputStreamSource
  position : Nat
  closed : Bool
deriving DecidableEq, Repr

inductive OutputStreamKind where
  | stdout | stderr
deriving DecidableEq, Repr

structure OutputStreamEntry where
  kind : OutputStreamKind
  closed : Bool
deriving DecidableEq, Repr

structure Host where
  inputStreams : Nat → Option InputStreamEntry
  outputStreams : Nat → Option OutputStreamEntry
  errors : Nat → Option ErrorEntry
  stdout : List Byte
  stderr : List Byte
  inheritStdio : Bool
  nextHandle : Nat

structure Answers where
  file : String → Except IoError Vec
  stdin : Nat → Bool → Except IoError Vec
  console : OutputStreamKind → List Byte → Except IoError Unit

abbrev Reply (α : Type) := Except ComponentError (Except StreamError α) × Host

namespace Reply

variable {α β : Type}

/-- Goes on with what was answered; traps and stream errors end the call. -/
def andThen (reply : Reply α) (next : α → Host → Reply β) : Reply β :=
  match reply with
  | (.error e, s) => (.error e, s)
  | (.ok (.error e), s) => (.ok (.error e), s)
  | (.ok (.ok a), s) => next a s

def map (f : α → β) (reply : Reply α) : Reply β :=
  reply.andThen fun a s => (.ok (.ok (f a)), s)

theorem fst_map (f : α → β) (reply : Reply α) :
    (reply.map f).1 = reply.1.map (Except.map f) := by
  obtain ⟨_ | _ | a, s⟩ := reply <;> rfl

theorem snd_map (f : α → β) (reply : Reply α) : (reply.map f).2 = reply.2 := by
  obtain ⟨_ | _ | a, s⟩ := reply <;> rfl

theorem map_eq_ok {f : α → β} {reply : Reply α} {b : β} (h : (reply.map f).1 = .ok (.ok b)) :
    ∃ a, reply.1 = .ok (.ok a) ∧ f a = b := by
  obtain ⟨_ | _ | a, s⟩ := reply
  · cases h
  · cases h
  · exact ⟨a, rfl, Except.ok.inj (Except.ok.inj h)⟩

end Reply

namespace Host

/-- `next_handle` -/
def takeHandle (s : Host) : Nat × Host :=
  (s.nextHandle, { s with nextHandle := min (s.nextHandle + 1) (2 ^ 32 - 1) })

def streamError (s : Host) (debugMessage : String) (filesystemCode : Option ErrorCode) :
    StreamError × Host :=
  let (handle, s) := s.takeHandle
  let entry : ErrorEntry := ⟨debugMessage, filesystemCode⟩
  (.lastOperationFailed handle,
    { s with errors := fun h => if h = handle then some entry else s.errors h })

def setPosition (s : Host) (stream position : Nat) : Host :=
  let moved (entry : InputStreamEntry) : InputStreamEntry := { entry with position }
  { s with inputStreams := fun h =>
      if h = stream then (s.inputStreams h).map moved else s.inputStreams h }

def captured (s : Host) : OutputStreamKind → List Byte
  | .stdout => s.stdout
  | .stderr => s.stderr

def capture (s : Host) (bytes : List Byte) : OutputStreamKind → Host
  | .stdout => { s with stdout := s.stdout ++ bytes }
  | .stderr => { s with stderr := s.stderr ++ bytes }

end Host

def requestedLen (len : BitVec 64) (context : String) : Except ComponentError Nat :=
  if len.toNat ≤ usizeMax then .ok len.toNat
  else .error (.trap (context ++ " length " ++ toString len.toNat ++
    " exceeds host addressable memory"))

/-- The bytes from a position on, and the position after them. -/
def chunkAt (bytes : Vec) (position readLen : Nat) : List Byte × Nat :=
  let start := min (min position usizeMax) bytes.val.length
  let stop := min (min (start + readLen) usizeMax) bytes.val.length
  ((bytes.val.drop start).take (stop - start), stop)

def inputStreamReadImpl (answers : Answers) (stream : Nat) (len : BitVec 64) (blocking : Bool)
    (s : Host) : Reply (List Byte) :=
  match s.inputStreams stream with
  | none => (.error (.trap ("unknown input-stream handle " ++ toString stream)), s)
  | some entry =>
      if entry.closed then (.ok (.error .closed), s)
      else
        match requestedLen len "input-stream.read" with
        | .error e => (.error e, s)
        | .ok readLen =>
            match entry.source with
            | .buffer bytes =>
                let (chunk, nextPosition) := chunkAt bytes entry.position readLen
                (.ok (.ok chunk), s.setPosition stream nextPosition)
            | .file path =>
                match answers.file path with
                | .error error =>
                    let (failure, s) := s.streamError
                      ("failed to read `" ++ path ++ "`: " ++ error.text) (some (mapIoError error))
                    (.ok (.error failure), s)
                | .ok bytes =>
                    let (chunk, nextPosition) := chunkAt bytes entry.position readLen
                    (.ok (.ok chunk), s.setPosition stream nextPosition)
            | .hostStdin =>
                match answers.stdin readLen blocking with
                | .error error =>
                    let (failure, s) := s.streamError ("failed to read stdin: " ++ error.text) none
                    (.ok (.error failure), s)
                | .ok chunk =>
                    let nextPosition := min (entry.position + chunk.val.length) (2 ^ 64 - 1)
                    (.ok (.ok chunk.val), s.setPosition stream nextPosition)

def inputStreamRead (answers : Answers) (stream : Nat) (len : BitVec 64) (s : Host) :
    Reply (List Byte) :=
  inputStreamReadImpl answers stream len false s

def inputStreamSkip (answers : Answers) (stream : Nat) (len : BitVec 64) (s : Host) : Reply Nat :=
  (inputStreamReadImpl answers stream len false s).map List.length

def inputStreamBlockingRead (answers : Answers) (stream : Nat) (len : BitVec 64) (s : Host) :
    Reply (List Byte) :=
  inputStreamReadImpl answers stream len true s

def inputStreamBlockingSkip (answers : Answers) (stream : Nat) (len : BitVec 64) (s : Host) :
    Reply Nat :=
  (inputStreamReadImpl answers stream len true s).map List.length

def outputStreamCheckWrite (stream : Nat) (s : Host) : Reply (BitVec 64) :=
  match s.outputStreams stream with
  | none => (.error (.trap ("unknown output-stream handle " ++ toString stream)), s)
  | some entry => if entry.closed then (.ok (.error .closed), s) else (.ok (.ok 4096), s)

def outputStreamWriteBytes (answers : Answers) (stream : Nat) (bytes : List Byte) (s : Host) :
    Reply Unit :=
  match s.outputStreams stream with
  | none => (.error (.trap ("unknown output-stream handle " ++ toString stream)), s)
  | some entry =>
      if entry.closed then (.ok (.error .closed), s)
      else
        let s := s.capture bytes entry.kind
        if s.inheritStdio then
          match answers.console entry.kind bytes with
          | .error error =>
              let (failure, s) := s.streamError error.text (some (mapIoError error))
              (.ok (.error failure), s)
          | .ok () => (.ok (.ok ()), s)
        else (.ok (.ok ()), s)

/-- `output_stream_splice`, which is also what the blocking call does. -/
def outputStreamSplice (answers : Answers) (stream src : Nat) (len : BitVec 64) (s : Host) :
    Reply Nat :=
  (inputStreamRead answers src len s).andThen fun bytes s =>
    (outputStreamWriteBytes answers stream bytes s).map fun _ => bytes.length

section calls

variable {answers : Answers} {s : Host} {stream : Nat} {len : BitVec 64} {blocking : Bool}

theorem requestedLen_eq (len : BitVec 64) (context : String) :
    requestedLen len context = .ok len.toNat := by
  have hlt := len.isLt
  exact if_pos (by rw [usizeMax]; omega)

/-- Within the bytes, a chunk is the next of them, as many as there are. -/
theorem chunkAt_eq {bytes : Vec} {position : Nat} (hposition : position ≤ bytes.val.length)
    (readLen : Nat) :
    chunkAt bytes position readLen = ((bytes.val.drop position).take readLen,
      position + ((bytes.val.drop position).take readLen).length) := by
  have hlen := bytes.property
  have hstart : min (min position usizeMax) bytes.val.length = position := by omega
  have hstop : min (min (position + readLen) usizeMax) bytes.val.length =
      position + ((bytes.val.drop position).take readLen).length := by
    rw [List.length_take, List.length_drop]
    omega
  have htake : (bytes.val.drop position).take ((bytes.val.drop position).take readLen).length =
      (bytes.val.drop position).take readLen := by
    rw [List.length_take, List.take_eq_take_iff]
    omega
  rw [chunkAt, hstart, hstop, Nat.add_sub_cancel_left, htake]

def Reads (files : String → Except IoError Vec) (content : Vec) : InputStreamSource → Prop
  | .buffer bytes => bytes = content
  | .file path => files path = .ok content
  | .hostStdin => False

theorem read_closed {entry : InputStreamEntry} (hentry : s.inputStreams stream = some entry)
    (hclosed : entry.closed = true) :
    inputStreamReadImpl answers stream len blocking s = (.ok (.error .closed), s) := by
  rw [inputStreamReadImpl, hentry]
  exact if_pos hclosed

theorem read_open {entry : InputStreamEntry} {content : Vec}
    (hentry : s.inputStreams stream = some entry) (hopen : ¬entry.closed = true)
    (hreads : Reads answers.file content entry.source) (hposition : entry.position ≤ content.val.length) :
    inputStreamReadImpl answers stream len blocking s =
      (.ok (.ok ((content.val.drop entry.position).take len.toNat)),
        s.setPosition stream (entry.position +
          ((content.val.drop entry.position).take len.toNat).length)) := by
  have hchunk := chunkAt_eq hposition len.toNat
  simp only [inputStreamReadImpl, hentry, if_neg hopen, requestedLen_eq]
  cases hsource : entry.source with
  | buffer bytes =>
      rw [hsource] at hreads
      obtain rfl : bytes = content := hreads
      simp only [hchunk]
  | file path =>
      rw [hsource] at hreads
      have hfile : answers.file path = .ok content := hreads
      simp only [hfile, hchunk]
  | hostStdin =>
      rw [hsource] at hreads
      exact absurd hreads id

end calls

end Telomere.Wasi
