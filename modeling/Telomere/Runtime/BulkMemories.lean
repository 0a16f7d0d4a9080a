import Telomere.Runtime.BulkOps

/-!
# Memories under bulk instructions

What the loop that copies between two memories leaves at each checkpoint that does not let it go on,
and that an instruction charged for as a whole is done as a whole or not at all.
-/

namespace Telomere.Runtime

open Lib (Attempt)

theorem Metered.pay_of_take (s : Metered) : ∃ t, s.pay s.take = some t := by
  unfold pay take
  cases s.limit with
  | none => exact ⟨_, rfl⟩
  | some limit => simp [subtract_of_le (Nat.min_le_left limit checkpointChunk)]

theorem Metered.grant_total (s : Metered) (completed : Nat) :
    ∃ outcome t, s.grant completed = some (outcome, t) := by
  unfold grant
  extract_lets charged
  by_cases hzero : charged.take = 0
  · exact ⟨_, _, if_pos hzero⟩
  by_cases hinterrupted : charged.interrupted
  · simp [hzero, hinterrupted]
  · obtain ⟨paid, hpaid⟩ := charged.pay_of_take
    have hone := subtract_of_le (Nat.one_le_iff_ne_zero.mpr hzero)
    simp [hzero, hinterrupted, hpaid, hone]

theorem Metered.checkpoint_total (s : Metered) : ∃ outcome t, s.checkpoint = some (outcome, t) := by
  by_cases hbudget : 1 ≤ s.budget
  · exact ⟨_, _, if_pos hbudget⟩
  · rw [checkpoint, if_neg hbudget, refillCheckpointBudget]
    obtain ⟨outcome, t, hgrant⟩ :=
      Metered.grant_total { s with budget := 0, reserved := 0 } s.reserved
    cases outcome with
    | error reason => simp [hgrant]
    | ok grant => simp [hgrant]

theorem Metered.chargeN_total (s : Metered) (amount : Nat) :
    ∃ outcome t, s.chargeN amount = some (outcome, t) := by
  by_cases hzero : amount = 0
  · exact ⟨_, _, if_pos hzero⟩
  by_cases hbudget : amount ≤ s.budget
  · exact ⟨(s.spend amount).1, (s.spend amount).2, by simp [chargeN, hzero, hbudget]⟩
  · have hadditional := subtract_of_le (Nat.le_of_not_le hbudget)
    rw [chargeN, if_neg hzero, if_neg hbudget, chargeSlow, hadditional]
    by_cases hlimit : s.limit.any (· < amount - s.budget)
    · simp [hlimit]
    · cases hinterrupted : s.interrupted with
      | true => simp [hlimit]
      | false =>
        have hpay : ∃ t, Metered.pay { s with
            consumed := saturatingAdd (saturatingAdd s.consumed s.reserved) (amount - s.budget) }
            (amount - s.budget) = some t := by
          unfold pay
          cases hfuel : s.limit with
          | none => exact ⟨_, rfl⟩
          | some limit =>
              have hle : amount - s.budget ≤ limit := by
                simpa [hfuel] using hlimit
              simp [subtract_of_le hle]
        obtain ⟨t, ht⟩ := hpay
        obtain ⟨paid, hpaid⟩ := t.pay_of_take
        simp only [hinterrupted] at ht
        simp [hlimit, ht, hpaid]

theorem meterCall_error {call : Metered → Option (Except InterruptReason Unit × Metered)}
    (htotal : ∀ s, ∃ outcome t, call s = some (outcome, t)) {g g' : Meter} {e : Stop}
    (h : meterCall call g = (.error e, g')) : ∃ reason, e = .interrupted reason := by
  unfold meterCall at h
  split at h
  · cases h
  · next s _ =>
      obtain ⟨outcome, t, hcall⟩ := htotal (g.outside g.calls s)
      rw [hcall] at h
      cases outcome with
      | ok _ => cases (Prod.mk.inj h).1
      | error reason => exact ⟨reason, (Except.error.inj (Prod.mk.inj h).1).symm⟩

theorem vmCheckpoint_error {g g' : Meter} {e : Stop} (h : vmCheckpoint g = (.error e, g')) :
    ∃ reason, e = .interrupted reason :=
  meterCall_error Metered.checkpoint_total h

theorem vmCheckpointN_error {amount : Nat} {g g' : Meter} {e : Stop}
    (h : vmCheckpointN amount g = (.error e, g')) : ∃ reason, e = .interrupted reason :=
  meterCall_error (fun s => s.chargeN_total amount) h

theorem MemoryObject.linear_eq_some {o : MemoryObject} {m : Linear.Memory} :
    o.linear = some m ↔ o.pages = m.currentPages ∧ o.bytes = m.bytes := by
  unfold linear
  split
  · next h =>
      constructor
      · intro heq
        obtain rfl := Option.some.inj heq
        exact ⟨rfl, rfl⟩
      · rintro ⟨hpages, hbytes⟩
        obtain ⟨pages, bytes, hle⟩ := m
        dsimp only at hpages hbytes
        subst hpages hbytes
        rfl
  · next h =>
      constructor
      · intro heq
        cases heq
      · rintro ⟨hpages, -⟩
        exact absurd (hpages ▸ m.currentPages_le) h

namespace Store

variable {s : Store} {shared shared' : Bool} {addr addr' : Nat} {m m' : Linear.Memory}

theorem memoryAt_eq_some : s.memoryAt shared addr = some m ↔
    ∃ o, s.memories[addr]? = some o ∧ o.shared = shared ∧ o.pages = m.currentPages ∧
      o.bytes = m.bytes := by
  simp only [memoryAt, Option.bind_eq_some_iff, Option.ite_none_right_eq_some,
    MemoryObject.linear_eq_some]

theorem memoryAt_setMemory (h : s.memoryAt shared addr = some m) :
    (s.setMemory addr m').memoryAt shared addr = some m' := by
  obtain ⟨o, ho, hshared, -, -⟩ := memoryAt_eq_some.mp h
  rw [memoryAt_eq_some]
  exact ⟨{ o with pages := m'.currentPages, bytes := m'.bytes },
    by simp [setMemory, ho], hshared, rfl, rfl⟩

theorem memoryAt_setMemory_of_ne (hne : addr ≠ addr') :
    (s.setMemory addr m').memoryAt shared addr' = s.memoryAt shared addr' := by
  simp [memoryAt, setMemory, hne]

theorem setMemory_self (h : s.memoryAt shared addr = some m) : s.setMemory addr m = s := by
  obtain ⟨o, ho, -, hpages, hbytes⟩ := memoryAt_eq_some.mp h
  have hsame : { o with pages := m.currentPages, bytes := m.bytes } = o := by
    rw [← hpages, ← hbytes]
  rw [setMemory, Lib.modify_of_fixed ho hsame]

theorem setMemory_setMemory : (s.setMemory addr m).setMemory addr m' = s.setMemory addr m' := by
  simp [setMemory, List.modify_modify_eq, Function.comp_def]

theorem addr_ne_of_kinds (h : s.memoryAt shared addr = some m)
    (h' : s.memoryAt shared' addr' = some m') (hkinds : shared ≠ shared') : addr ≠ addr' := by
  rintro rfl
  obtain ⟨o, ho, hshared, -⟩ := memoryAt_eq_some.mp h
  obtain ⟨o', ho', hshared', -⟩ := memoryAt_eq_some.mp h'
  obtain rfl := Option.some.inj (ho.symm.trans ho')
  exact hkinds (hshared.symm.trans hshared')

end Store

theorem withMemory_eq {α : Type} {shared : Bool} {addr : Nat}
    {f : Linear.Memory → Linear.VMResult α × Linear.Memory} {s : Store} {m : Linear.Memory}
    (h : s.memoryAt shared addr = some m) :
    withMemory shared addr f s = ((f m).1.mapError Stop.ofMemory, s.setMemory addr (f m).2) := by
  rw [withMemory, h]

theorem askMemory_eq {α : Type} {shared : Bool} {addr : Nat} {f : Linear.Memory → Linear.VMResult α}
    {s : Store} {m : Linear.Memory} (h : s.memoryAt shared addr = some m) :
    askMemory shared addr f s = ((f m).mapError Stop.ofMemory, s) := by
  rw [askMemory, withMemory_eq h, Store.setMemory_self h]

theorem checkMemoryRange_eq (m : Linear.Memory) (offset len : U32) :
    checkMemoryRange m offset len =
      if offset.toNat + len.toNat ≤ m.dataSize then .ok () else .error .memoryIndexOutOfRange :=
  Linear.LocalMemories.checkLocalMemoryRange_eq (fun _ => m) 0 offset len

theorem readBytesInto_eq {m : Linear.Memory} {cursor size : Nat} (hcursor : cursor < 2 ^ 32)
    (h : cursor + size ≤ m.dataSize) :
    (Linear.copyCursorU32 cursor >>= fun offset => readBytesInto m offset size) =
      .ok (m.slice cursor size) :=
  @Linear.LocalMemories.localReadBytesInto_eq (fun _ => m) 0 cursor size hcursor h

section copying

variable {s : Store} {dstShared srcShared : Bool} {dst src : Nat} {d m : Linear.Memory}

theorem copyChunk_eq (hdst : s.memoryAt dstShared dst = some d)
    (hsrc : s.memoryAt srcShared src = some m) {srcCursor dstCursor size : Nat}
    (hcursor : srcCursor < 2 ^ 32) (hread : srcCursor + size ≤ m.dataSize)
    (hwrite : dstCursor + size ≤ d.dataSize) :
    copyChunk dstShared srcShared dst src srcCursor dstCursor size s =
      (.ok (), s.setMemory dst (d.copyFrom m dstCursor srcCursor size)) := by
  have hslice : dstCursor + (m.slice srcCursor size).length ≤ d.dataSize := by
    rw [Linear.Memory.slice_length]
    exact hwrite
  have hasked : askMemory srcShared src (fun m => do
      readBytesInto m (← Linear.copyCursorU32 srcCursor) size) s =
      (.ok (m.slice srcCursor size), s) := by
    rw [askMemory_eq hsrc, readBytesInto_eq hcursor hread]
    rfl
  rw [copyChunk, Attempt.bind_ok hasked, withMemory_eq hdst, Linear.Memory.writeBytes_ok hslice,
    Linear.Memory.copyFromSlice_slice]
  rfl

def chunkRound (dstShared srcShared : Bool) (dst src srcOffset dstOffset len k : Nat) :
    Attempt Store Stop Unit :=
  copyChunk dstShared srcShared dst src (srcOffset + 4096 * k) (dstOffset + 4096 * k)
    (Linear.copyChunkSize (len - 4096 * k))

def chunkCount (len : Nat) : Nat := (len + 4095) / 4096

theorem lt_chunkCount {len k : Nat} : k < chunkCount len ↔ 4096 * k < len := by
  unfold chunkCount
  omega

theorem copyChunks_eq {srcOffset dstOffset len : Nat} {k count srcCursor dstCursor remaining : Nat}
    (hremaining : remaining = len - 4096 * k) (hcount : count = chunkCount remaining)
    (hsrc : remaining ≠ 0 → srcCursor = srcOffset + 4096 * k)
    (hdst : remaining ≠ 0 → dstCursor = dstOffset + 4096 * k) (state : Machine) :
    copyChunks dstShared srcShared dst src srcCursor dstCursor remaining state =
      Lib.gatedRounds vmCheckpoint
        (chunkRound dstShared srcShared dst src srcOffset dstOffset len) k count state := by
  induction count generalizing k srcCursor dstCursor remaining state with
  | zero =>
      have hzero : remaining = 0 := by
        unfold chunkCount at hcount
        omega
      rw [copyChunks, dif_pos hzero]
      rfl
  | succ count ih =>
      have hne : remaining ≠ 0 := by
        unfold chunkCount at hcount
        omega
      obtain ⟨g, t⟩ := state
      rw [copyChunks, dif_neg hne]
      rcases hgate : vmCheckpoint g with ⟨e | ⟨⟩, g'⟩
      · rw [Lib.gatedRounds_refused hgate, Attempt.bind_error (e := e) (t := (g', t))]
        simp [onMeter, hgate]
      rw [Attempt.bind_ok (a := ()) (t := (g', t)) (by simp [onMeter, hgate])]
      have hround : copyChunk dstShared srcShared dst src srcCursor dstCursor
          (Linear.copyChunkSize remaining) =
          chunkRound dstShared srcShared dst src srcOffset dstOffset len k := by
        rw [chunkRound, hsrc hne, hdst hne, hremaining]
      rw [hround]
      rcases hact : chunkRound dstShared srcShared dst src srcOffset dstOffset len k t
        with ⟨e | ⟨⟩, t'⟩
      · rw [Lib.gatedRounds_failed hgate hact, Attempt.bind_error (e := e) (t := (g', t'))]
        simp [onStore, hact]
      · rw [Lib.gatedRounds_next hgate hact, Attempt.bind_ok (a := ()) (t := (g', t'))
          (by simp [onStore, hact])]
        -- a chunk that is not full is the last
        refine ih ?_ ?_ ?_ ?_ _
        all_goals
          simp only [Linear.copyChunkSize, chunkCount] at *
          omega

/-- So many rounds done: the first bytes of the range are copied. -/
def Copied (s : Store) (dst : Nat) (d m : Linear.Memory) (srcOffset dstOffset len k : Nat)
    (t : Store) : Prop :=
  t = s.setMemory dst (d.copyFrom m dstOffset srcOffset (min (4096 * k) len))

theorem chunkRound_copied (hne : dst ≠ src) (hdst : s.memoryAt dstShared dst = some d)
    (hsrc : s.memoryAt srcShared src = some m) {srcOffset dstOffset len k : Nat}
    (hread : srcOffset + len ≤ m.dataSize) (hwrite : dstOffset + len ≤ d.dataSize)
    (hlt : k < chunkCount len) {t : Store} (h : Copied s dst d m srcOffset dstOffset len k t) :
    ∃ t', chunkRound dstShared srcShared dst src srcOffset dstOffset len k t = (.ok (), t') ∧
      Copied s dst d m srcOffset dstOffset len (k + 1) t' := by
  have hbound := m.dataSize_le
  have hbefore : 4096 * k < len := lt_chunkCount.mp hlt
  have hmin : min (4096 * k) len = 4096 * k := Nat.min_eq_left (Nat.le_of_lt hbefore)
  have hnext : 4096 * k + Linear.copyChunkSize (len - 4096 * k) = min (4096 * (k + 1)) len := by
    simp only [Linear.copyChunkSize]
    omega
  have hend : 4096 * k + Linear.copyChunkSize (len - 4096 * k) ≤ len := by omega
  rw [Copied, hmin] at h
  subst h
  have hdst' := @Store.memoryAt_setMemory s dstShared dst d
    (d.copyFrom m dstOffset srcOffset (4096 * k)) hdst
  have hsrc' := (@Store.memoryAt_setMemory_of_ne s srcShared dst src
    (d.copyFrom m dstOffset srcOffset (4096 * k)) hne).trans hsrc
  refine ⟨_, copyChunk_eq hdst' hsrc' (by omega) (by omega) ?_, ?_⟩
  · rw [Linear.Memory.copyFrom_dataSize]
    omega
  · rw [Copied, Store.setMemory_setMemory, Linear.Memory.copyFrom_copyFrom, hnext]

/-- How a copy between two memories ends. Where a checkpoint interrupts it, all the chunks before it
are copied and nothing else is written. -/
inductive CopyEnd (pending : Nat) (g : Meter) (s : Store) (dst : Nat) (d m : Linear.Memory)
    (dstOffset srcOffset len : U32) : Except Stop Dispatch × Machine → Prop
  | waits (hpending : pending ≠ 0) :
      CopyEnd pending g s dst d m dstOffset srcOffset len (.ok .returned, (g, s))
  | refused (hpending : pending = 0)
      (hout : ¬(srcOffset.toNat + len.toNat ≤ m.dataSize ∧
        dstOffset.toNat + len.toNat ≤ d.dataSize)) :
      CopyEnd pending g s dst d m dstOffset srcOffset len
        (.error (.trap .memoryIndexOutOfRange), (g, s))
  | interrupted {k : Nat} {reason : InterruptReason} {g' g'' : Meter} (hpending : pending = 0)
      (hsrc : srcOffset.toNat + len.toNat ≤ m.dataSize)
      (hdst : dstOffset.toNat + len.toNat ≤ d.dataSize) (hlt : 4096 * k < len.toNat)
      (hpasses : Lib.Passes vmCheckpoint g k g')
      (hgate : vmCheckpoint g' = (.error (.interrupted reason), g'')) :
      CopyEnd pending g s dst d m dstOffset srcOffset len
        (.error (.interrupted reason),
          (g'', s.setMemory dst (d.copyFrom m dstOffset.toNat srcOffset.toNat (4096 * k))))
  | done {g' : Meter} (hpending : pending = 0)
      (hsrc : srcOffset.toNat + len.toNat ≤ m.dataSize)
      (hdst : dstOffset.toNat + len.toNat ≤ d.dataSize)
      (hpasses : Lib.Passes vmCheckpoint g (chunkCount len.toNat) g') :
      CopyEnd pending g s dst d m dstOffset srcOffset len
        (.ok (.callNext 2),
          (g', s.setMemory dst (d.copyFrom m dstOffset.toNat srcOffset.toNat len.toNat)))

theorem copyMemoryWith_crossing (hne : dst ≠ src) (hdst : s.memoryAt dstShared dst = some d)
    (hsrc : s.memoryAt srcShared src = some m) (g : Meter) (dstOffset srcOffset len : U32) :
    CopyEnd 0 g s dst d m dstOffset srcOffset len
      ((do
        copyMemoryWith dstShared srcShared dst src dstOffset srcOffset len
        return .callNext 2 : Handler) (g, s)) := by
  have hkinds : ¬(dstShared = srcShared ∧ dst = src) := fun h => hne h.2
  have hfirst : onStore (askMemory srcShared src (checkMemoryRange · srcOffset len)) (g, s) =
      ((checkMemoryRange m srcOffset len).mapError Stop.ofMemory, (g, s)) := by
    simp [onStore, askMemory_eq hsrc]
  have hsecond : onStore (askMemory dstShared dst (checkMemoryRange · dstOffset len)) (g, s) =
      ((checkMemoryRange d dstOffset len).mapError Stop.ofMemory, (g, s)) := by
    simp [onStore, askMemory_eq hdst]
  rw [checkMemoryRange_eq] at hfirst hsecond
  rw [copyMemoryWith, if_neg hkinds, Attempt.bind_assoc]
  by_cases hread : srcOffset.toNat + len.toNat ≤ m.dataSize
  · rw [if_pos hread] at hfirst
    rw [Attempt.bind_ok hfirst, Attempt.bind_assoc]
    by_cases hwrite : dstOffset.toNat + len.toNat ≤ d.dataSize
    · rw [if_pos hwrite] at hsecond
      rw [Attempt.bind_ok hsecond]
      have hloop := @copyChunks_eq dstShared srcShared dst src srcOffset.toNat dstOffset.toNat
        len.toNat 0 (chunkCount len.toNat) srcOffset.toNat dstOffset.toNat len.toNat rfl rfl
        (fun _ => rfl) (fun _ => rfl) (g, s)
      have hstart : Copied s dst d m srcOffset.toNat dstOffset.toNat len.toNat 0 s := by
        rw [Copied, Nat.mul_zero, Nat.zero_min, Linear.Memory.copyFrom_zero,
          Store.setMemory_self hdst]
      have hend := @Lib.gatedRounds_end _ _ _ vmCheckpoint
        (chunkRound dstShared srcShared dst src srcOffset.toNat dstOffset.toNat len.toNat)
        (Copied s dst d m srcOffset.toNat dstOffset.toNat len.toNat) (chunkCount len.toNat) (by
          intro k t t' hlt hcopied hact
          obtain ⟨next, hround, hnext⟩ := chunkRound_copied hne hdst hsrc hread hwrite hlt hcopied
          obtain rfl : next = t' := by
            rw [hround] at hact
            exact (Prod.mk.inj hact).2
          exact hnext) g g 0 (chunkCount len.toNat) s (Nat.zero_add _) .start hstart
      rw [← hloop] at hend
      generalize hrun : copyChunks dstShared srcShared dst src srcOffset.toNat dstOffset.toNat
        len.toNat (g, s) = result at hend
      cases hend with
      | @done g' t hpasses hreached =>
          rw [Attempt.bind_ok hrun]
          have hall : min (4096 * chunkCount len.toNat) len.toNat = len.toNat := by
            unfold chunkCount
            omega
          rw [Copied, hall] at hreached
          subst hreached
          exact .done rfl hread hwrite hpasses
      | @refused k g' g'' t e hlt hpasses hgate hreached =>
          rw [Attempt.bind_error hrun]
          obtain ⟨reason, rfl⟩ := vmCheckpoint_error hgate
          have hbefore := lt_chunkCount.mp hlt
          rw [Copied, Nat.min_eq_left (Nat.le_of_lt hbefore)] at hreached
          subst hreached
          exact .interrupted rfl hread hwrite hbefore hpasses hgate
      | @failed k g' t t' e hlt hpasses hreached hact =>
          obtain ⟨next, hround, -⟩ := chunkRound_copied hne hdst hsrc hread hwrite hlt hreached
          rw [hround] at hact
          cases (Prod.mk.inj hact).1
    · rw [if_neg hwrite] at hsecond
      rw [Attempt.bind_error hsecond]
      exact .refused rfl fun h => hwrite h.2
  · rw [if_neg hread] at hfirst
    rw [Attempt.bind_error hfirst]
    exact .refused rfl fun h => hread h.1

end copying

end Telomere.Runtime
