import Telomere.Common.LinearMemory

/-!
# Bulk operations on linear memories

`memory.copy` between two memories goes through a buffer of one chunk, and comes to a checkpoint before
each chunk. The store is read as its memories by their ids.
-/

namespace Telomere.Linear

abbrev LocalMemoryId := Nat

abbrev LocalMemories := LocalMemoryId → Memory

/-- The sums are of `usize` and cannot wrap. -/
def checkedMemoryRange (offset : U32) (len : Nat) : VMResult (Nat × Nat) :=
  match checkedAdd 64 offset.toNat len with
  | none => .error .memoryIndexOutOfRange
  | some stop => .ok (offset.toNat, stop)

def copyChunkSize (remaining : Nat) : Nat := min remaining 4096

def copyCursorU32 (offset : Nat) : VMResult U32 :=
  if offset < 2 ^ 32 then .ok (BitVec.ofNat 32 offset) else .error .memoryIndexOutOfRange

namespace LocalMemories

def update (s : LocalMemories) (id : LocalMemoryId) (m : Memory) : LocalMemories :=
  fun other => if other = id then m else s other

@[simp] theorem update_self (s : LocalMemories) (id : LocalMemoryId) (m : Memory) :
    s.update id m id = m := by
  simp [update]

theorem update_of_ne {id other : LocalMemoryId} (s : LocalMemories) (m : Memory) (h : other ≠ id) :
    s.update id m other = s other := by
  simp [update, h]

@[simp] theorem update_update (s : LocalMemories) (id : LocalMemoryId) (m m' : Memory) :
    (s.update id m).update id m' = s.update id m' := by
  funext other
  by_cases h : other = id <;> simp [update, h]

@[simp] theorem update_eq_self (s : LocalMemories) (id : LocalMemoryId) :
    s.update id (s id) = s := by
  funext other
  by_cases h : other = id <;> simp [update, h]

def checkLocalMemoryRange (s : LocalMemories) (id : LocalMemoryId) (offset len : U32) :
    VMResult Unit := do
  let (start, stop) ← checkedMemoryRange offset len.toNat
  if (s id).InSlice start stop then .ok () else .error .memoryIndexOutOfRange

/-- `len` is the length of the slice that is read into. -/
def localReadBytesInto (s : LocalMemories) (id : LocalMemoryId) (offset : U32) (len : Nat) :
    VMResult (List Byte) := do
  let (start, stop) ← checkedMemoryRange offset len
  if (s id).InSlice start stop then .ok ((s id).slice start len)
  else .error .memoryIndexOutOfRange

def localWriteBytes (s : LocalMemories) (id : LocalMemoryId) (offset : Nat) (bytes : List Byte) :
    VMResult Unit × LocalMemories :=
  let (result, m) := (s id).writeBytes offset bytes
  (result, s.update id m)

def localCopyMemory (s : LocalMemories) (id : LocalMemoryId) (dst src len : U32) :
    VMResult Unit × LocalMemories :=
  let (result, m) := (s id).copy dst src len
  (result, s.update id m)

/-- The loop of `copy_memory_local_to_local`; `checkpoint` gives the result of its `round`-th call. -/
def copyChunks (checkpoint : Nat → VMResult Unit) (dst src : LocalMemoryId)
    (round srcCursor dstCursor remaining : Nat) (s : LocalMemories) :
    VMResult Unit × LocalMemories :=
  if remaining = 0 then (.ok (), s)
  else
    let size := copyChunkSize remaining
    let read : VMResult (List Byte) := do
      checkpoint round
      s.localReadBytesInto src (← copyCursorU32 srcCursor) size
    match read with
    | .error e => (.error e, s)
    | .ok chunk =>
        match s.localWriteBytes dst dstCursor chunk with
        | (.error e, s) => (.error e, s)
        | (.ok (), s) =>
            copyChunks checkpoint dst src (round + 1) (srcCursor + size) (dstCursor + size)
              (remaining - size) s
termination_by remaining
decreasing_by simp only [copyChunkSize]; omega

def copyMemoryLocalToLocal (s : LocalMemories) (dst src : LocalMemoryId)
    (dstOffset srcOffset len : U32) (checkpoint : Nat → VMResult Unit) :
    VMResult Unit × LocalMemories :=
  if dst = src then s.localCopyMemory dst dstOffset srcOffset len
  else
    let checks : VMResult Unit := do
      s.checkLocalMemoryRange src srcOffset len
      s.checkLocalMemoryRange dst dstOffset len
    match checks with
    | .error e => (.error e, s)
    | .ok () =>
        s.copyChunks checkpoint dst src 0 srcOffset.toNat dstOffset.toNat len.toNat

theorem checkedMemoryRange_eq {offset : U32} {len : Nat} (h : offset.toNat + len < 2 ^ 64) :
    checkedMemoryRange offset len = .ok (offset.toNat, offset.toNat + len) := by
  rw [checkedMemoryRange, checkedAdd_of_lt h]

theorem checkLocalMemoryRange_eq (s : LocalMemories) (id : LocalMemoryId) (offset len : U32) :
    s.checkLocalMemoryRange id offset len =
      if offset.toNat + len.toNat ≤ (s id).dataSize then .ok ()
      else .error .memoryIndexOutOfRange := by
  have hoffset := offset.isLt
  have hlen := len.isLt
  have hsum : offset.toNat + len.toNat < 2 ^ 64 := by omega
  rw [checkLocalMemoryRange, checkedMemoryRange_eq hsum, Lib.ok_bind]
  by_cases hin : offset.toNat + len.toNat ≤ (s id).dataSize
  · rw [if_pos hin]
    exact if_pos (Memory.inSlice_add.mpr hin)
  · rw [if_neg hin]
    exact if_neg fun h => hin (Memory.inSlice_add.mp h)

theorem localReadBytesInto_eq {s : LocalMemories} {id : LocalMemoryId} {cursor size : Nat}
    (hcursor : cursor < 2 ^ 32) (h : cursor + size ≤ (s id).dataSize) :
    (copyCursorU32 cursor >>= fun offset => s.localReadBytesInto id offset size) =
      .ok ((s id).slice cursor size) := by
  have hsize := (s id).dataSize_le
  have hsum : cursor + size < 2 ^ 64 := by omega
  have hmod : cursor % 2 ^ 32 = cursor := Nat.mod_eq_of_lt hcursor
  have hoffset : (BitVec.ofNat 32 cursor).toNat = cursor := by
    rw [BitVec.toNat_ofNat, hmod]
  have hrange : checkedMemoryRange (BitVec.ofNat 32 cursor) size = .ok (cursor, cursor + size) := by
    rw [checkedMemoryRange_eq (by rw [hoffset]; exact hsum), hoffset]
  rw [copyCursorU32, if_pos hcursor, Lib.ok_bind, localReadBytesInto, hrange, Lib.ok_bind]
  exact if_pos (Memory.inSlice_add.mpr h)

theorem localWriteBytes_eq {s : LocalMemories} {id : LocalMemoryId} {cursor : Nat}
    {bytes : List Byte} (h : cursor + bytes.length ≤ (s id).dataSize) :
    s.localWriteBytes id cursor bytes = (.ok (), s.update id ((s id).copyFromSlice cursor bytes)) := by
  rw [localWriteBytes, Memory.writeBytes_ok h]

/-- The source is another memory, so every chunk comes from it as it was. A checkpoint that interrupts
leaves the chunks before it copied. -/
theorem copyChunks_copies {checkpoint : Nat → VMResult Unit} {dst src : LocalMemoryId}
    (hne : dst ≠ src) {round srcCursor dstCursor remaining : Nat} {s : LocalMemories}
    (hsrc : srcCursor + remaining ≤ (s src).dataSize)
    (hdst : dstCursor + remaining ≤ (s dst).dataSize) :
    ∃ copied ≤ remaining,
      (s.copyChunks checkpoint dst src round srcCursor dstCursor remaining).2 =
        s.update dst ((s dst).copyFrom (s src) dstCursor srcCursor copied) ∧
      ((s.copyChunks checkpoint dst src round srcCursor dstCursor remaining).1 = .ok () ∧
          copied = remaining ∨
        ∃ k e, checkpoint k = .error e ∧
          (s.copyChunks checkpoint dst src round srcCursor dstCursor remaining).1 = .error e) := by
  induction remaining using Nat.strongRecOn generalizing round srcCursor dstCursor s with
  | ind remaining ih =>
      by_cases hdone : remaining = 0
      · subst hdone
        rw [copyChunks]
        exact ⟨0, Nat.le_refl 0, by simp, Or.inl ⟨rfl, rfl⟩⟩
      · have hbound := (s src).dataSize_le
        have hsize : copyChunkSize remaining ≤ remaining := Nat.min_le_left _ _
        have hpos : 0 < copyChunkSize remaining := by
          simp only [copyChunkSize]
          omega
        rw [copyChunks, if_neg hdone]
        cases hcheck : checkpoint round with
        | error e =>
            simp only [Lib.error_bind]
            exact ⟨0, Nat.zero_le _, by simp, Or.inr ⟨round, e, hcheck, rfl⟩⟩
        | ok _ =>
            have hread := @localReadBytesInto_eq s src srcCursor (copyChunkSize remaining) (by omega)
              (by omega)
            have hwrite := @localWriteBytes_eq s dst dstCursor
              ((s src).slice srcCursor (copyChunkSize remaining))
              (by rw [Memory.slice_length]; omega)
            rw [Memory.copyFromSlice_slice] at hwrite
            simp only [Lib.ok_bind, hread, hwrite]
            obtain ⟨copied, hcopied, hstate, hresult⟩ := @ih (remaining - copyChunkSize remaining)
              (by omega) (round + 1) (srcCursor + copyChunkSize remaining)
              (dstCursor + copyChunkSize remaining)
              (s.update dst ((s dst).copyFrom (s src) dstCursor srcCursor
                (copyChunkSize remaining)))
              (by rw [update_of_ne _ _ (Ne.symm hne)]; omega)
              (by rw [update_self, Memory.copyFrom_dataSize]; omega)
            refine ⟨copyChunkSize remaining + copied, by omega, ?_, ?_⟩
            · rw [hstate, update_update, update_self, update_of_ne _ _ (Ne.symm hne),
                Memory.copyFrom_copyFrom]
            · exact hresult.imp_left fun h => ⟨h.1, by omega⟩

/-- Between two memories, a copy that no checkpoint interrupts is accepted up to the end of each. -/
theorem copyMemoryLocalToLocal_accepts {checkpoint : Nat → VMResult Unit}
    (hrun : ∀ k, checkpoint k = .ok ()) {dst src : LocalMemoryId} (hne : dst ≠ src)
    (s : LocalMemories) (dstOffset srcOffset len : U32) :
    (s.copyMemoryLocalToLocal dst src dstOffset srcOffset len checkpoint).1 = .ok () ↔
      srcOffset.toNat + len.toNat ≤ (s src).dataSize ∧
        dstOffset.toNat + len.toNat ≤ (s dst).dataSize := by
  rw [copyMemoryLocalToLocal, if_neg hne, checkLocalMemoryRange_eq, checkLocalMemoryRange_eq]
  by_cases hsrc : srcOffset.toNat + len.toNat ≤ (s src).dataSize
  · by_cases hdst : dstOffset.toNat + len.toNat ≤ (s dst).dataSize
    · obtain ⟨_, _, _, hend⟩ := @copyChunks_copies checkpoint dst src hne 0 _ _ _ s hsrc hdst
      obtain ⟨hok, -⟩ | ⟨k, e, herror, -⟩ := hend
      · simp [hsrc, hdst, Lib.ok_bind, hok]
      · rw [hrun k] at herror
        cases herror
    · simp [hsrc, hdst, Lib.ok_bind]
  · simp [hsrc, Lib.error_bind]

end LocalMemories

/-- What `fill` and `copy` do at one place of a memory, and how `copy` compares with the copy between
two other memories of its size. -/
structure BulkExact (m : Memory) (ptr fillLen data dst src len : U32) : Prop where
  fill_accepts : (m.fill ptr fillLen data).1 = .ok () ↔ ptr.toNat + fillLen.toNat ≤ m.dataSize
  fill_changes : (m.fill ptr fillLen data).1 = .ok () → ∀ i,
    (m.fill ptr fillLen data).2.bytes i =
      if ptr.toNat ≤ i ∧ i < ptr.toNat + fillLen.toNat then data.setWidth 8 else m.bytes i
  fill_refuses : (m.fill ptr fillLen data).1 ≠ .ok () → (m.fill ptr fillLen data).2 = m
  copy_accepts : (m.copy dst src len).1 = .ok () ↔
    src.toNat + len.toNat ≤ m.dataSize ∧ dst.toNat + len.toNat ≤ m.dataSize
  copy_changes : (m.copy dst src len).1 = .ok () → ∀ i,
    (m.copy dst src len).2.bytes i =
      if dst.toNat ≤ i ∧ i < dst.toNat + len.toNat then m.bytes (src.toNat + (i - dst.toNat))
      else m.bytes i
  copy_refuses : (m.copy dst src len).1 ≠ .ok () → (m.copy dst src len).2 = m
  paths_agree : ∀ (s : LocalMemories) (dstId srcId : LocalMemoryId) (checkpoint : Nat → VMResult Unit),
    dstId ≠ srcId → (s dstId).dataSize = m.dataSize → (s srcId).dataSize = m.dataSize →
    (∀ k, checkpoint k = .ok ()) →
    ((m.copy dst src len).1 = .ok () ↔
      (s.copyMemoryLocalToLocal dstId srcId dst src len checkpoint).1 = .ok ())

/-- The range lies in the memory and ends where 32-bit addresses do. -/
def Memory.EndsAtTop (m : Memory) (start len : U32) : Prop :=
  start.toNat + len.toNat ≤ m.dataSize ∧ start.toNat + len.toNat = 2 ^ 32

namespace Memory

theorem fill_ok_iff (m : Memory) (ptr len data : U32) :
    (m.fill ptr len data).1 = .ok () ↔
      ptr.toNat + len.toNat ≤ m.dataSize ∧ ¬m.EndsAtTop ptr len := by
  have hbound := m.dataSize_le
  rw [fill_eq]
  by_cases h : ptr.toNat + len.toNat ≤ m.dataSize ∧ ptr.toNat + len.toNat < 2 ^ 32
  · simp only [if_pos h, EndsAtTop, true_iff]
    omega
  · simp only [if_neg h, EndsAtTop, reduceCtorEq, false_iff]
    omega

theorem copy_ok_iff (m : Memory) (dst src len : U32) :
    (m.copy dst src len).1 = .ok () ↔
      (src.toNat + len.toNat ≤ m.dataSize ∧ dst.toNat + len.toNat ≤ m.dataSize) ∧
        ¬m.EndsAtTop src len ∧ ¬m.EndsAtTop dst len := by
  have hbound := m.dataSize_le
  rw [copy_eq]
  split
  · simp only [EndsAtTop, true_iff]
    omega
  · simp only [EndsAtTop, reduceCtorEq, false_iff]
    omega

theorem fill_changes (m : Memory) (ptr len data : U32) (h : (m.fill ptr len data).1 = .ok ())
    (i : Nat) : (m.fill ptr len data).2.bytes i =
      if ptr.toNat ≤ i ∧ i < ptr.toNat + len.toNat then data.setWidth 8 else m.bytes i := by
  rw [fill_eq] at *
  split at h
  · next hin =>
      rw [if_pos hin]
      rfl
  · cases h

theorem fill_refuses (m : Memory) (ptr len data : U32) (h : (m.fill ptr len data).1 ≠ .ok ()) :
    (m.fill ptr len data).2 = m := by
  rw [fill_eq] at *
  split at h
  · exact absurd rfl h
  · next hout => rw [if_neg hout]

theorem copy_changes (m : Memory) (dst src len : U32) (h : (m.copy dst src len).1 = .ok ())
    (i : Nat) : (m.copy dst src len).2.bytes i =
      if dst.toNat ≤ i ∧ i < dst.toNat + len.toNat then m.bytes (src.toNat + (i - dst.toNat))
      else m.bytes i := by
  rw [copy_eq] at *
  split at h
  · next hin =>
      rw [if_pos hin, copyWithin_eq]
      rfl
  · cases h

theorem copy_refuses (m : Memory) (dst src len : U32) (h : (m.copy dst src len).1 ≠ .ok ()) :
    (m.copy dst src len).2 = m := by
  rw [copy_eq] at *
  split at h
  · exact absurd rfl h
  · next hout => rw [if_neg hout]

end Memory

/-- `fill` and `copy` take the ranges they should, apart from those that end with the last address. -/
theorem bulkExact_iff (m : Memory) (ptr fillLen data dst src len : U32) :
    BulkExact m ptr fillLen data dst src len ↔
      ¬m.EndsAtTop ptr fillLen ∧
        ¬((src.toNat + len.toNat ≤ m.dataSize ∧ dst.toNat + len.toNat ≤ m.dataSize) ∧
          (m.EndsAtTop src len ∨ m.EndsAtTop dst len)) := by
  constructor
  · intro h
    have hfill := (m.fill_ok_iff ptr fillLen data).symm.trans h.fill_accepts
    have hcopy := (m.copy_ok_iff dst src len).symm.trans h.copy_accepts
    constructor
    · intro htop
      exact (hfill.mpr htop.1).2 htop
    · rintro ⟨hin, hsrc | hdst⟩
      · exact (hcopy.mpr hin).2.1 hsrc
      · exact (hcopy.mpr hin).2.2 hdst
  · rintro ⟨hfill, hcopy⟩
    have hcopyAccepts : (m.copy dst src len).1 = .ok () ↔
        src.toNat + len.toNat ≤ m.dataSize ∧ dst.toNat + len.toNat ≤ m.dataSize := by
      rw [m.copy_ok_iff]
      constructor
      · exact And.left
      · intro hin
        exact ⟨hin, fun h => hcopy ⟨hin, Or.inl h⟩, fun h => hcopy ⟨hin, Or.inr h⟩⟩
    exact {
      fill_accepts := by
        rw [m.fill_ok_iff]
        exact and_iff_left hfill
      fill_changes := m.fill_changes ptr fillLen data
      fill_refuses := m.fill_refuses ptr fillLen data
      copy_accepts := hcopyAccepts
      copy_changes := m.copy_changes dst src len
      copy_refuses := m.copy_refuses dst src len
      paths_agree := by
        intro s dstId srcId checkpoint hne hdst hsrc hrun
        rw [hcopyAccepts, LocalMemories.copyMemoryLocalToLocal_accepts hrun hne s, hsrc, hdst] }

/-- The last byte of a memory of all pages can neither be filled nor be copied to. -/
theorem last_byte_refused :
    ∃ (m : Memory) (last : U32), (m.fill last 1 0).1 = .error .memoryIndexOutOfRange ∧
      (m.copy last 0 1).1 = .error .memoryIndexOutOfRange ∧ ¬BulkExact m last 1 0 last 0 1 := by
  refine ⟨⟨65536, fun _ => 0, Nat.le_refl _⟩, BitVec.ofNat 32 (2 ^ 32 - 1), by decide, by decide, ?_⟩
  intro h
  have haccepted := h.fill_accepts.mpr (by decide)
  revert haccepted
  decide

end Telomere.Linear
