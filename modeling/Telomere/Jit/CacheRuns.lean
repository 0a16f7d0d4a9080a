import Telomere.Jit.CodeCache

/-!
# Runs of the code cache

Calls of many tasks look into the cache, compile and insert in any order. Whatever the order, the
cache has what a list by the order of use would have, it takes no more bytes than it may, and what
runs for a function was compiled for it.
-/

namespace Telomere.Jit

open Lib (dropKey totalSize)

variable {config : CacheConfig}

namespace StoreJitCacheInner

variable {inner : StoreJitCacheInner} {funcaddr : ObjectRef}

theorem evictRounds_frame (target rounds : Nat) (inner : StoreJitCacheInner) :
    (inner.evictRounds target rounds).clock = inner.clock ∧
      (inner.evictRounds target rounds).disabled = inner.disabled := by
  induction rounds generalizing inner with
  | zero => exact ⟨rfl, rfl⟩
  | succ rounds ih =>
      unfold evictRounds
      split
      · exact ⟨rfl, rfl⟩
      · split
        · exact ⟨rfl, rfl⟩
        · exact ih _

theorem check_clock : (inner.check funcaddr).2.clock = inner.tick.clock := by
  unfold check
  dsimp only
  split
  · rfl
  · split
    · rfl
    · rfl

theorem touchCompiled_clock {compiled : CompiledFunction} :
    (inner.touchCompiled funcaddr compiled).2.clock = inner.tick.clock := by
  unfold touchCompiled
  dsimp only
  split
  · rfl
  · split
    · rfl
    · rfl

theorem insert_clock {code : Emitted config} {map : Option Nat} {arc : Nat} :
    (inner.insert funcaddr code map arc).2.clock = inner.tick.clock := by
  have hevict := (evictRounds_frame (config.maxBytes - code.len) inner.tick.compiled.length
    inner.tick).1
  unfold insert
  dsimp only
  split
  · rfl
  · split
    · rfl
    · split
      · exact hevict
      · exact hevict

theorem markRejected_clock : (inner.markRejected funcaddr).clock = inner.clock := by
  unfold markRejected
  dsimp only
  split
  · rfl
  · rfl

end StoreJitCacheInner

namespace StoreJitCacheInner

/-- One operation after the other, with what they answer. -/
def runAll (inner : StoreJitCacheInner) :
    List (CacheOp config) → List CacheAnswer × StoreJitCacheInner
  | [] => ([], inner)
  | op :: ops =>
      let later := (inner.run op).2.runAll ops
      ((inner.run op).1 :: later.1, later.2)

end StoreJitCacheInner

namespace RecentCode

def empty : RecentCode := ⟨[], []⟩

def runAll (recent : RecentCode) : List (CacheOp config) → List CacheAnswer × RecentCode
  | [] => ([], recent)
  | op :: ops =>
      let later := (recent.run op).2.runAll ops
      ((recent.run op).1 :: later.1, later.2)

end RecentCode

namespace Tracks

variable {inner : StoreJitCacheInner} {recent : RecentCode}

theorem tick_le (inner : StoreJitCacheInner) : inner.tick.clock ≤ inner.clock + 1 :=
  Nat.mod_le _ _

/-- One operation answers as on the list, and the table still stands for it. -/
theorem run (h : Tracks inner.clock inner recent) (hclock : inner.clock + 1 < 2 ^ 64)
    (op : CacheOp config) :
    (inner.run op).1 = (recent.run op).1 ∧
      Tracks (inner.run op).2.clock (inner.run op).2 (recent.run op).2 ∧
      (inner.run op).2.clock ≤ inner.clock + 1 := by
  cases op with
  | check funcaddr =>
      obtain ⟨hanswer, htracks⟩ := h.check hclock funcaddr
      rw [← StoreJitCacheInner.check_clock] at htracks
      exact ⟨congrArg CacheAnswer.checked hanswer, htracks,
        StoreJitCacheInner.check_clock.trans_le (tick_le inner)⟩
  | insert funcaddr code map arc =>
      obtain ⟨hanswer, htracks⟩ := h.insert hclock funcaddr code map arc
      rw [← @StoreJitCacheInner.insert_clock config inner funcaddr code map arc] at htracks
      exact ⟨congrArg CacheAnswer.inserted hanswer, htracks,
        StoreJitCacheInner.insert_clock.trans_le (tick_le inner)⟩
  | touch funcaddr compiled =>
      obtain ⟨hanswer, htracks⟩ := h.touch hclock funcaddr compiled
      rw [← @StoreJitCacheInner.touchCompiled_clock inner funcaddr compiled] at htracks
      exact ⟨congrArg CacheAnswer.touched hanswer, htracks,
        StoreJitCacheInner.touchCompiled_clock.trans_le (tick_le inner)⟩
  | markRejected funcaddr =>
      have htracks := h.markRejected funcaddr
      rw [← @StoreJitCacheInner.markRejected_clock inner funcaddr] at htracks
      exact ⟨rfl, htracks, StoreJitCacheInner.markRejected_clock.trans_le (Nat.le_succ _)⟩

theorem runAll (h : Tracks inner.clock inner recent) (ops : List (CacheOp config))
    (hclock : inner.clock + ops.length < 2 ^ 64) :
    (inner.runAll ops).1 = (recent.runAll ops).1 ∧
      Tracks (inner.runAll ops).2.clock (inner.runAll ops).2 (recent.runAll ops).2 := by
  induction ops generalizing inner recent with
  | nil => exact ⟨rfl, h⟩
  | cons op ops ih =>
      rw [List.length_cons] at hclock
      obtain ⟨hanswer, htracks, hle⟩ := h.run (by omega) op
      obtain ⟨hanswers, hrest⟩ := ih htracks (by omega)
      exact ⟨congrArg₂ List.cons hanswer hanswers, hrest⟩

end Tracks

/-- One of the operations has put in the code for the function. -/
def Inserted (ops : List (CacheOp config)) (funcaddr : ObjectRef) (compiled : CompiledFunction) :
    Prop :=
  ∃ code map arc, CacheOp.insert funcaddr code map arc ∈ ops ∧ code.compiled map arc = some compiled

/-- Each function has one entry, made of code that was put in for it and not rejected, and all of
them take no more bytes than they may. -/
structure Sound (ops : List (CacheOp config)) (inner : StoreJitCacheInner) : Prop where
  nodup : (inner.compiled.map (·.1)).Nodup
  used : inner.usedBytes = totalSize (fun cached => cached.tiers.codeSize) inner.compiled
  bounded : inner.usedBytes ≤ config.maxBytes
  apart : ∀ entry ∈ inner.compiled, entry.1 ∉ inner.disabled
  inserted : ∀ entry ∈ inner.compiled,
    ∃ compiled, entry.2.tiers = .ofBaseline compiled ∧ Inserted ops entry.1 compiled

theorem mem_insertRef {funcaddr other : ObjectRef} {refs : List ObjectRef} :
    other ∈ insertRef funcaddr refs ↔ other = funcaddr ∨ other ∈ refs := by
  unfold insertRef
  by_cases h : funcaddr ∈ refs
  · rw [if_pos h]
    exact ⟨.inr, fun hor => hor.elim (fun heq => heq ▸ h) id⟩
  · rw [if_neg h, List.mem_cons]

namespace Sound

variable {ops : List (CacheOp config)} {inner : StoreJitCacheInner} {funcaddr : ObjectRef}
  {cached : CachedFunction}

theorem empty : Sound ops .empty := by
  refine ⟨List.nodup_nil, rfl, Nat.zero_le _, ?_, ?_⟩
  · exact fun _ hmem => absurd hmem List.not_mem_nil
  · exact fun _ hmem => absurd hmem List.not_mem_nil

theorem tick (h : Sound ops inner) : Sound ops inner.tick :=
  ⟨h.nodup, h.used, h.bounded, h.apart, h.inserted⟩

theorem use (h : Sound ops inner) (funcaddr : ObjectRef) : Sound ops (inner.use funcaddr) := by
  have hold : ∀ entry ∈ (inner.use funcaddr).compiled,
      ∃ old ∈ inner.compiled, old.1 = entry.1 ∧ old.2.tiers = entry.2.tiers := by
    intro entry hmem
    obtain ⟨old, hold, rfl⟩ := List.mem_map.mp hmem
    by_cases hkey : old.1 = funcaddr
    · exact ⟨old, hold, by simp [hkey]⟩
    · exact ⟨old, hold, by simp [hkey]⟩
  refine ⟨?_, ?_, h.bounded, ?_, ?_⟩
  · simpa [StoreJitCacheInner.use, Lib.renewKey_keys] using h.nodup
  · have hsize := @Lib.totalSize_renewKey ObjectRef CachedFunction _ inner.compiled funcaddr
      (fun cached => cached.tiers.codeSize)
      (fun cached => { cached with lastUsed := inner.clock }) fun _ => rfl
    exact h.used.trans hsize.symm
  · intro entry hmem
    obtain ⟨old, hmem, hkey, -⟩ := hold entry hmem
    exact hkey ▸ h.apart old hmem
  · intro entry hmem
    obtain ⟨old, hmem, hkey, htiers⟩ := hold entry hmem
    exact hkey ▸ htiers ▸ h.inserted old hmem

theorem remove (h : Sound ops inner) (hlookup : inner.compiled.lookup funcaddr = some cached) :
    Sound ops (inner.remove funcaddr cached) := by
  have hsize := @Lib.totalSize_dropKey _ _ _ (fun cached : CachedFunction => cached.tiers.codeSize)
    _ _ _ h.nodup hlookup
  have hsubset : dropKey funcaddr inner.compiled ⊆ inner.compiled := List.filter_subset_self _
  refine ⟨?_, ?_, (Nat.sub_le _ _).trans h.bounded, ?_, ?_⟩
  · exact h.nodup.sublist (List.filter_sublist.map _)
  · have hused := h.used
    simp only [StoreJitCacheInner.remove]
    omega
  · exact fun entry hmem => h.apart entry (hsubset hmem)
  · exact fun entry hmem => h.inserted entry (hsubset hmem)

theorem disable (h : Sound ops inner) (hnew : funcaddr ∉ inner.compiled.map (·.1)) :
    Sound ops { inner with disabled := insertRef funcaddr inner.disabled } := by
  refine ⟨h.nodup, h.used, h.bounded, ?_, h.inserted⟩
  intro entry hmem hdisabled
  rcases mem_insertRef.mp hdisabled with heq | hdisabled
  · exact hnew (heq ▸ List.mem_map_of_mem hmem)
  · exact h.apart entry hmem hdisabled

theorem evictRounds (target rounds : Nat) (h : Sound ops inner)
    (hrounds : inner.compiled.length ≤ rounds) :
    Sound ops (inner.evictRounds target rounds) ∧
      (inner.evictRounds target rounds).usedBytes ≤ target ∧
      (inner.evictRounds target rounds).compiled ⊆ inner.compiled := by
  induction rounds generalizing inner with
  | zero =>
      have hnil := List.length_eq_zero_iff.mp (Nat.le_zero.mp hrounds)
      have hused := h.used
      rw [hnil] at hused
      exact ⟨h, hused.le.trans (Nat.zero_le _), List.Subset.refl _⟩
  | succ rounds ih =>
      unfold StoreJitCacheInner.evictRounds
      by_cases hle : inner.usedBytes ≤ target
      · rw [if_pos hle]
        exact ⟨h, hle, List.Subset.refl _⟩
      · rw [if_neg hle]
        cases hmin : inner.compiled.argmin fun entry => entry.2.lastUsed with
        | none =>
            have hused := h.used
            rw [List.argmin_eq_none.mp hmin] at hused
            exact absurd (hused.le.trans (Nat.zero_le _)) hle
        | some entry =>
            have hmem : entry ∈ inner.compiled := List.argmin_mem (Option.mem_def.mpr hmin)
            have hsubset : (inner.remove entry.1 entry.2).compiled ⊆ inner.compiled :=
              List.filter_subset_self _
            have hlength : (inner.remove entry.1 entry.2).compiled.length ≤ rounds :=
              Nat.le_of_lt_succ ((List.length_filter_lt_length_iff_exists.mpr
                ⟨entry, hmem, by simp⟩).trans_le hrounds)
            obtain ⟨hsound, hroom, hrest⟩ :=
              ih (h.remove ((Lib.lookup_eq_some_iff h.nodup).mpr hmem)) hlength
            exact ⟨hsound, hroom, fun _ hmem => hsubset (hrest hmem)⟩

theorem push {code : Emitted config} {map : Option Nat} {arc : Nat} {compiled : CompiledFunction}
    (h : Sound ops inner) (hop : CacheOp.insert funcaddr code map arc ∈ ops)
    (hcompiled : code.compiled map arc = some compiled)
    (hroom : inner.usedBytes ≤ config.maxBytes - code.len)
    (hnew : funcaddr ∉ inner.compiled.map (·.1)) (henabled : funcaddr ∉ inner.disabled) :
    Sound ops { inner with
      usedBytes := saturatingSum inner.usedBytes compiled.codeSize
      compiled := inner.compiled ++ [(funcaddr, ⟨.ofBaseline compiled, inner.clock⟩)] } := by
  have hlen := Emitted.codeSize_compiled hcompiled
  have hfits := code.fits
  have hmax := config.maxBytes_lt
  have hsum : saturatingSum inner.usedBytes compiled.codeSize =
      inner.usedBytes + compiled.codeSize := by
    unfold saturatingSum
    omega
  refine ⟨?_, ?_, ?_, ?_, ?_⟩
  · rw [List.map_append, List.nodup_append]
    refine ⟨h.nodup, List.nodup_singleton _, ?_⟩
    intro key hkey other hother heq
    obtain rfl : other = funcaddr := by simpa using hother
    exact hnew (heq ▸ hkey)
  · show saturatingSum inner.usedBytes compiled.codeSize = totalSize _ (inner.compiled ++ [_])
    rw [hsum, Lib.totalSize_append, ← h.used]
    rfl
  · simp only [hsum]
    omega
  · intro entry hmem
    rcases List.mem_append.mp hmem with hmem | hmem
    · exact h.apart entry hmem
    · obtain rfl := List.mem_singleton.mp hmem
      exact henabled
  · intro entry hmem
    rcases List.mem_append.mp hmem with hmem | hmem
    · exact h.inserted entry hmem
    · obtain rfl := List.mem_singleton.mp hmem
      exact ⟨compiled, rfl, code, map, arc, hop, hcompiled⟩

theorem check (h : Sound ops inner) (funcaddr : ObjectRef) :
    Sound ops (inner.check funcaddr).2 := by
  unfold StoreJitCacheInner.check
  dsimp only
  split
  · exact h.tick
  · split
    · exact h.tick.use funcaddr
    · exact h.tick

theorem touchCompiled (h : Sound ops inner) (funcaddr : ObjectRef) (compiled : CompiledFunction) :
    Sound ops (inner.touchCompiled funcaddr compiled).2 := by
  unfold StoreJitCacheInner.touchCompiled
  dsimp only
  split
  · exact h.tick
  · split
    · exact h.tick
    · exact h.tick.use funcaddr

theorem insert {code : Emitted config} {map : Option Nat} {arc : Nat} (h : Sound ops inner)
    (hop : CacheOp.insert funcaddr code map arc ∈ ops) :
    Sound ops (inner.insert funcaddr code map arc).2 := by
  have htick := h.tick
  unfold StoreJitCacheInner.insert
  dsimp only
  rw [code.fromBytes_eq]
  by_cases hmem : funcaddr ∈ inner.tick.disabled
  · simpa only [if_pos hmem] using htick
  simp only [if_neg hmem]
  cases hfound : inner.tick.compiled.lookup funcaddr with
  | some cached => exact htick.use funcaddr
  | none =>
      obtain ⟨hevicted, hroom, hsubset⟩ :=
        htick.evictRounds (config.maxBytes - code.len) inner.tick.compiled.length (Nat.le_refl _)
      have hnew : funcaddr ∉ (inner.tick.evictUntil (config.maxBytes - code.len)).compiled.map (·.1) :=
        fun hkey => Lib.notMem_of_lookup hfound (List.map_subset _ hsubset hkey)
      have hdisabled := (StoreJitCacheInner.evictRounds_frame (config.maxBytes - code.len)
        inner.tick.compiled.length inner.tick).2
      cases hcompiled : code.compiled map arc with
      | none => exact Sound.disable hevicted hnew
      | some compiled =>
          exact Sound.push hevicted hop hcompiled hroom hnew fun hold => hmem (hdisabled ▸ hold)

theorem markRejected (h : Sound ops inner) (funcaddr : ObjectRef) :
    Sound ops (inner.markRejected funcaddr) := by
  unfold StoreJitCacheInner.markRejected
  cases hfound : inner.compiled.lookup funcaddr with
  | none => exact h.disable (Lib.notMem_of_lookup hfound)
  | some cached =>
      refine (h.remove hfound).disable ?_
      simp [StoreJitCacheInner.remove, dropKey]

theorem run (h : Sound ops inner) {op : CacheOp config} (hop : op ∈ ops) :
    Sound ops (inner.run op).2 := by
  cases op with
  | check funcaddr => exact h.check funcaddr
  | insert funcaddr code map arc => exact h.insert hop
  | touch funcaddr compiled => exact h.touchCompiled funcaddr compiled
  | markRejected funcaddr => exact h.markRejected funcaddr

theorem runAll {later : List (CacheOp config)} (h : Sound ops inner) (hops : later ⊆ ops) :
    Sound ops (inner.runAll later).2 := by
  induction later generalizing inner with
  | nil => exact h
  | cons op later ih =>
      obtain ⟨hop, hlater⟩ := List.cons_subset.mp hops
      exact ih (h.run hop) hlater

end Sound

namespace StoreJitCacheInner

variable {inner : StoreJitCacheInner} {funcaddr : ObjectRef} {compiled : CompiledFunction}

theorem disabled_run (op : CacheOp config) (h : funcaddr ∈ inner.disabled) :
    funcaddr ∈ (inner.run op).2.disabled := by
  cases op with
  | check other =>
      show funcaddr ∈ (inner.check other).2.disabled
      unfold check
      dsimp only
      split
      · exact h
      · split
        · exact h
        · exact h
  | insert other code map arc =>
      show funcaddr ∈ (inner.insert other code map arc).2.disabled
      have hkept : funcaddr ∈ (inner.tick.evictUntil (config.maxBytes - code.len)).disabled := by
        rw [evictUntil, (evictRounds_frame _ _ inner.tick).2]
        exact h
      unfold insert
      dsimp only
      split
      · exact h
      · split
        · exact h
        · split
          · exact mem_insertRef.mpr (.inr hkept)
          · exact hkept
  | touch other compiled =>
      show funcaddr ∈ (inner.touchCompiled other compiled).2.disabled
      unfold touchCompiled
      dsimp only
      split
      · exact h
      · split
        · exact h
        · exact h
  | markRejected other =>
      show funcaddr ∈ (inner.markRejected other).disabled
      unfold markRejected
      dsimp only
      split
      · exact mem_insertRef.mpr (.inr h)
      · exact mem_insertRef.mpr (.inr h)

theorem rejected_runAll {ops : List (CacheOp config)}
    (h : CacheOp.markRejected funcaddr ∈ ops ∨ funcaddr ∈ inner.disabled) :
    funcaddr ∈ (inner.runAll ops).2.disabled := by
  induction ops generalizing inner with
  | nil => exact h.elim (fun hmem => absurd hmem List.not_mem_nil) id
  | cons op ops ih =>
      apply ih
      rcases h with hmem | hdisabled
      · rcases List.mem_cons.mp hmem with rfl | hmem
        · exact .inr (mem_insertRef.mpr (.inl rfl))
        · exact .inl hmem
      · exact .inr (disabled_run op hdisabled)

end StoreJitCacheInner

def CacheOp.funcaddr : CacheOp config → ObjectRef
  | .check funcaddr => funcaddr
  | .insert funcaddr _ _ _ => funcaddr
  | .touch funcaddr _ => funcaddr
  | .markRejected funcaddr => funcaddr

def CacheAnswer.code : CacheAnswer → Option CompiledFunction
  | .checked (.hit compiled) => some compiled
  | .inserted compiled => compiled
  | _ => none

theorem run_code {inner : StoreJitCacheInner} {op : CacheOp config} {compiled : CompiledFunction}
    (h : (inner.run op).1.code = some compiled) :
    op.funcaddr ∉ inner.disabled ∧
      ((∃ cached, inner.compiled.lookup op.funcaddr = some cached ∧ cached.tiers.active = compiled) ∨
        Inserted [op] op.funcaddr compiled) := by
  cases op with
  | check funcaddr =>
      simp only [StoreJitCacheInner.run, StoreJitCacheInner.check, Prod.map_fst] at h
      split at h
      · cases h
      · next henabled =>
          split at h
          · next cached hlookup => exact ⟨henabled, .inl ⟨cached, hlookup, Option.some.inj h⟩⟩
          · cases h
  | insert funcaddr code map arc =>
      simp only [StoreJitCacheInner.run, StoreJitCacheInner.insert, Prod.map_fst,
        code.fromBytes_eq] at h
      split at h
      · cases h
      · next henabled =>
          refine ⟨henabled, ?_⟩
          split at h
          · next cached hlookup => exact .inl ⟨cached, hlookup, Option.some.inj h⟩
          · split at h
            · cases h
            · next hcompiled =>
                obtain rfl := Option.some.inj h
                exact .inr ⟨code, map, arc, List.mem_cons_self, hcompiled⟩
  | touch funcaddr compiled => cases h
  | markRejected funcaddr => cases h

theorem Sound.lookup {ops : List (CacheOp config)} {inner : StoreJitCacheInner}
    {funcaddr : ObjectRef} {cached : CachedFunction} (h : Sound ops inner)
    (hlookup : inner.compiled.lookup funcaddr = some cached) :
    Inserted ops funcaddr cached.tiers.active := by
  obtain ⟨compiled, htiers, hinserted⟩ :=
    h.inserted (funcaddr, cached) ((Lib.lookup_eq_some_iff h.nodup).mp hlookup)
  dsimp only at htiers
  rw [htiers]
  exact hinserted

theorem Inserted.mono {ops later : List (CacheOp config)} {funcaddr : ObjectRef}
    {compiled : CompiledFunction} (h : Inserted ops funcaddr compiled) (hops : ops ⊆ later) :
    Inserted later funcaddr compiled := by
  obtain ⟨code, map, arc, hmem, hcompiled⟩ := h
  exact ⟨code, map, arc, hops hmem, hcompiled⟩

/-- As long as the clock does not run over, every operation answers as it would on the list of
functions by the order of their use, and the table has the functions of that list. -/
theorem runAll_recent (ops : List (CacheOp config)) (hlength : ops.length < 2 ^ 64) :
    (StoreJitCacheInner.empty.runAll ops).1 = (RecentCode.empty.runAll ops).1 ∧
      Tracks (StoreJitCacheInner.empty.runAll ops).2.clock (StoreJitCacheInner.empty.runAll ops).2
        (RecentCode.empty.runAll ops).2 :=
  Tracks.runAll .empty ops (by simpa [StoreJitCacheInner.empty] using hlength)

def twoPages : CacheConfig := ⟨4, 32, by decide, by decide⟩

def returnCode : Emitted twoPages := ⟨[0xC3], 16, rfl, by decide⟩

def threeFunctions : List (CacheOp twoPages) :=
  [.insert 1 returnCode (some 0x1000) 1, .insert 2 returnCode (some 0x2000) 2, .check 1,
    .insert 3 returnCode (some 0x3000) 3, .check 2]

theorem runAll_recent_threeFunctions :
    threeFunctions.length < 2 ^ 64 ∧
      (StoreJitCacheInner.empty.runAll threeFunctions).1 =
        (RecentCode.empty.runAll threeFunctions).1 ∧
      Tracks (StoreJitCacheInner.empty.runAll threeFunctions).2.clock
        (StoreJitCacheInner.empty.runAll threeFunctions).2
        (RecentCode.empty.runAll threeFunctions).2 :=
  ⟨by decide, runAll_recent threeFunctions (by decide)⟩

/-- Even when the clock has run over. -/
theorem runAll_sound (ops : List (CacheOp config)) :
    Sound ops (StoreJitCacheInner.empty.runAll ops).2 :=
  Sound.empty.runAll (List.Subset.refl ops)

/-- What is called for a function has been compiled for it, and it has not been rejected before. -/
theorem runAll_code {ops : List (CacheOp config)} {op : CacheOp config}
    {compiled : CompiledFunction}
    (h : ((StoreJitCacheInner.empty.runAll ops).2.run op).1.code = some compiled) :
    Inserted (ops ++ [op]) op.funcaddr compiled ∧ CacheOp.markRejected op.funcaddr ∉ ops := by
  have hsound : Sound ops (StoreJitCacheInner.empty.runAll ops).2 :=
    Sound.empty.runAll (List.Subset.refl ops)
  obtain ⟨henabled, hcode⟩ := run_code h
  refine ⟨?_, fun hop => henabled (StoreJitCacheInner.rejected_runAll (.inl hop))⟩
  rcases hcode with ⟨cached, hlookup, rfl⟩ | hinserted
  · exact (hsound.lookup hlookup).mono (List.subset_append_left ops [op])
  · exact hinserted.mono (List.subset_append_right ops [op])

theorem runAll_code_threeFunctions :
    ∃ compiled, returnCode.compiled (some 0x1000) 1 = some compiled ∧
      Inserted (threeFunctions ++ [CacheOp.check 1]) 1 compiled ∧
      CacheOp.markRejected 1 ∉ threeFunctions :=
  ⟨_, rfl, @runAll_code twoPages threeFunctions (.check 1) _ (by decide)⟩

end Telomere.Jit
