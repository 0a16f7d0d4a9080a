import Mathlib.Data.Nat.Bitwise
import Telomere.Lib.Recency

/-!
# The cache of compiled code

Native code is kept under the functions it was compiled for, each stamped with the time of its last
use. Code that is new drives out what was used least recently, until there is room for it.
-/

namespace Telomere.Jit

open Lib (dropKey toFront totalSize keepRoom renewKey Stamped)

abbrev Byte := BitVec 8

abbrev ObjectRef := BitVec 32

def codeAlignment : Nat := 16

/-- `value & !(align - 1)`, after the addition. -/
def alignUp (value align : Nat) : Option Nat :=
  if value + (align - 1) < 2 ^ 64 then some ((value + (align - 1)) &&& (2 ^ 64 - align)) else none

structure ExecutableCode where
  ptr : Nat
  len : Nat
  content : List Byte
deriving DecidableEq, Repr

def writeCode (mapping : List Byte) (offset len : Nat) (bytes : List Byte) : Option (List Byte) :=
  if len < bytes.length ∨ mapping.length < offset + len then none
  else some (mapping.take offset ++ bytes ++ List.replicate (len - bytes.length) 0 ++
    mapping.drop (offset + len))

namespace CodeArena

def allocationLen (page byteLen : Nat) : Option Nat :=
  if byteLen = 0 then none else do alignUp (← alignUp byteLen codeAlignment) page

/-- `map` is where the new pages lie, if there are any. -/
def allocate (page : Nat) (bytes : List Byte) (map : Option Nat) : Option ExecutableCode := do
  if bytes.isEmpty then none
  else
    let codeLen ← alignUp bytes.length codeAlignment
    let len ← allocationLen page bytes.length
    let ptr ← map
    return ⟨ptr, len, ← writeCode (List.replicate len 0) 0 codeLen bytes⟩

end CodeArena

/-- `arc` is its identity. -/
structure CompiledFunction where
  arc : Nat
  code : ExecutableCode
deriving DecidableEq, Repr

namespace CompiledFunction

def fromBytes (page : Nat) (bytes : List Byte) (map : Option Nat) (arc : Nat) :
    Option CompiledFunction := do
  return ⟨arc, ← CodeArena.allocate page bytes map⟩

def entry (compiled : CompiledFunction) : Nat := compiled.code.ptr

def codeSize (compiled : CompiledFunction) : Nat := compiled.code.len

end CompiledFunction

inductive ActiveTier where
  | baseline
  | optimized
deriving DecidableEq, Repr

structure CompiledTiers where
  baseline : CompiledFunction
  optimized : Option CompiledFunction
  activeTier : ActiveTier
deriving DecidableEq, Repr

namespace CompiledTiers

def ofBaseline (baseline : CompiledFunction) : CompiledTiers := ⟨baseline, none, .baseline⟩

def active (tiers : CompiledTiers) : CompiledFunction :=
  match tiers.activeTier with
  | .baseline => tiers.baseline
  | .optimized => tiers.optimized.getD tiers.baseline

def codeSize (tiers : CompiledTiers) : Nat :=
  tiers.baseline.codeSize + (tiers.optimized.map CompiledFunction.codeSize).getD 0

end CompiledTiers

structure CachedFunction where
  tiers : CompiledTiers
  lastUsed : Nat
deriving DecidableEq, Repr

def insertRef (funcaddr : ObjectRef) (refs : List ObjectRef) : List ObjectRef :=
  if funcaddr ∈ refs then refs else funcaddr :: refs

/-- `usize` sums stop at the end of the range. -/
def saturatingSum (a b : Nat) : Nat := min (a + b) (2 ^ 64 - 1)

structure StoreJitCacheInner where
  compiled : List (ObjectRef × CachedFunction)
  disabled : List ObjectRef
  usedBytes : Nat
  clock : Nat
deriving DecidableEq, Repr

namespace StoreJitCacheInner

def empty : StoreJitCacheInner := ⟨[], [], 0, 0⟩

def tick (inner : StoreJitCacheInner) : StoreJitCacheInner :=
  { inner with clock := (inner.clock + 1) % 2 ^ 64 }

def use (inner : StoreJitCacheInner) (funcaddr : ObjectRef) : StoreJitCacheInner :=
  { inner with
    compiled := renewKey (fun cached => { cached with lastUsed := inner.clock }) funcaddr
      inner.compiled }

def remove (inner : StoreJitCacheInner) (funcaddr : ObjectRef) (cached : CachedFunction) :
    StoreJitCacheInner :=
  { inner with
    compiled := dropKey funcaddr inner.compiled
    usedBytes := inner.usedBytes - cached.tiers.codeSize }

/-- Rounds of the loop of `evict_until`. Two entries have the same stamp only when the clock has run
over; then the source takes the one its hash map gives first, and here it is the first of the list. -/
def evictRounds (targetUsedBytes : Nat) : Nat → StoreJitCacheInner → StoreJitCacheInner
  | 0, inner => inner
  | rounds + 1, inner =>
      if inner.usedBytes ≤ targetUsedBytes then inner
      else
        match inner.compiled.argmin fun entry => entry.2.lastUsed with
        | none => inner
        | some (funcaddr, cached) =>
            evictRounds targetUsedBytes rounds (inner.remove funcaddr cached)

def evictUntil (targetUsedBytes : Nat) (inner : StoreJitCacheInner) : StoreJitCacheInner :=
  inner.evictRounds targetUsedBytes inner.compiled.length

end StoreJitCacheInner

/-- The size of pages, and the bound of the configuration. -/
structure CacheConfig where
  pageBits : Nat
  maxBytes : Nat
  pageBits_lt : pageBits < 64
  maxBytes_lt : maxBytes < 2 ^ 32

def CacheConfig.page (config : CacheConfig) : Nat := 2 ^ config.pageBits

/-- What was emitted, when it is not too large for the cache. -/
structure Emitted (config : CacheConfig) where
  bytes : List Byte
  len : Nat
  allocation : CodeArena.allocationLen config.page bytes.length = some len
  fits : len ≤ config.maxBytes

inductive Checked where
  | disabled
  | hit (compiled : CompiledFunction)
  | missing
deriving DecidableEq, Repr

inductive CacheOp (config : CacheConfig) where
  | check (funcaddr : ObjectRef)
  | insert (funcaddr : ObjectRef) (code : Emitted config) (map : Option Nat) (arc : Nat)
  | touch (funcaddr : ObjectRef) (compiled : CompiledFunction)
  | markRejected (funcaddr : ObjectRef)

inductive CacheAnswer where
  | checked (found : Checked)
  | inserted (compiled : Option CompiledFunction)
  | touched (current : Bool)
  | marked
deriving DecidableEq, Repr

namespace StoreJitCacheInner

variable {config : CacheConfig}

/-- The first section of `get_or_compile`. -/
def check (inner : StoreJitCacheInner) (funcaddr : ObjectRef) : Checked × StoreJitCacheInner :=
  let inner := inner.tick
  if funcaddr ∈ inner.disabled then (.disabled, inner)
  else
    match inner.compiled.lookup funcaddr with
    | some cached => (.hit cached.tiers.active, inner.use funcaddr)
    | none => (.missing, inner)

/-- The second section of `get_or_compile`. -/
def insert (inner : StoreJitCacheInner) (funcaddr : ObjectRef) (code : Emitted config)
    (map : Option Nat) (arc : Nat) : Option CompiledFunction × StoreJitCacheInner :=
  let inner := inner.tick
  if funcaddr ∈ inner.disabled then (none, inner)
  else
    match inner.compiled.lookup funcaddr with
    | some cached => (some cached.tiers.active, inner.use funcaddr)
    | none =>
        let inner := inner.evictUntil (config.maxBytes - code.len)
        match CompiledFunction.fromBytes config.page code.bytes map arc with
        | none => (none, { inner with disabled := insertRef funcaddr inner.disabled })
        | some compiled =>
            (some compiled, { inner with
              usedBytes := saturatingSum inner.usedBytes compiled.codeSize
              compiled := inner.compiled ++ [(funcaddr, ⟨.ofBaseline compiled, inner.clock⟩)] })

def touchCompiled (inner : StoreJitCacheInner) (funcaddr : ObjectRef) (compiled : CompiledFunction) :
    Bool × StoreJitCacheInner :=
  let inner := inner.tick
  match inner.compiled.lookup funcaddr with
  | none => (false, inner)
  | some cached =>
      if cached.tiers.active.arc ≠ compiled.arc then (false, inner) else (true, inner.use funcaddr)

def markRejected (inner : StoreJitCacheInner) (funcaddr : ObjectRef) : StoreJitCacheInner :=
  let inner :=
    match inner.compiled.lookup funcaddr with
    | some cached => inner.remove funcaddr cached
    | none => inner
  { inner with disabled := insertRef funcaddr inner.disabled }

def run (inner : StoreJitCacheInner) : CacheOp config → CacheAnswer × StoreJitCacheInner
  | .check funcaddr => (inner.check funcaddr).map .checked id
  | .insert funcaddr code map arc => (inner.insert funcaddr code map arc).map .inserted id
  | .touch funcaddr compiled => (inner.touchCompiled funcaddr compiled).map .touched id
  | .markRejected funcaddr => (.marked, inner.markRejected funcaddr)

end StoreJitCacheInner

section memory

variable {value k page len n : Nat} {bytes : List Byte}

theorem and_high_bits (hvalue : value < 2 ^ 64) (hk : k ≤ 64) :
    value &&& (2 ^ 64 - 2 ^ k) = value / 2 ^ k * 2 ^ k := by
  have hmask : 2 ^ 64 - 2 ^ k = (2 ^ (64 - k) - 1) * 2 ^ k := by
    rw [Nat.sub_mul, Nat.one_mul, ← Nat.pow_add, Nat.sub_add_cancel hk]
  apply Nat.eq_of_testBit_eq
  intro i
  rw [hmask, Nat.testBit_and, Nat.testBit_mul_two_pow, Nat.testBit_mul_two_pow,
    Nat.testBit_two_pow_sub_one, Nat.testBit_div_two_pow]
  by_cases hi : k ≤ i
  · by_cases hlt : i < 64
    · have hhigh : i - k < 64 - k := by omega
      simp [hi, hhigh]
    · have hbit : value.testBit i = false := Nat.testBit_lt_two_pow (Nat.lt_of_lt_of_le hvalue
        (Nat.pow_le_pow_right (by decide) (by omega)))
      simp [hi, hbit]
  · simp [hi]

theorem le_alignUp (hk : k ≤ 64) (h : alignUp value (2 ^ k) = some n) : value ≤ n := by
  unfold alignUp at h
  split at h
  · next hlt =>
      obtain rfl := Option.some.inj h
      have hpos := Nat.two_pow_pos k
      rw [and_high_bits hlt hk]
      have hdiv := Nat.div_add_mod (value + (2 ^ k - 1)) (2 ^ k)
      have hmod := Nat.mod_lt (value + (2 ^ k - 1)) hpos
      have hcomm := Nat.mul_comm (2 ^ k) ((value + (2 ^ k - 1)) / 2 ^ k)
      omega
  · cases h

namespace CodeArena

theorem allocationLen_eq_some (h : allocationLen page n = some len) :
    n ≠ 0 ∧ ∃ codeLen, alignUp n codeAlignment = some codeLen ∧ alignUp codeLen page = some len := by
  unfold allocationLen at h
  split at h
  · cases h
  · next hne => exact ⟨hne, Option.bind_eq_some_iff.mp h⟩

theorem allocate_eq (hk : k ≤ 64) (h : allocationLen (2 ^ k) bytes.length = some len)
    (map : Option Nat) :
    allocate (2 ^ k) bytes map =
      map.map fun ptr => ⟨ptr, len, bytes ++ List.replicate (len - bytes.length) 0⟩ := by
  obtain ⟨hne, codeLen, hcode, hlen⟩ := allocationLen_eq_some h
  have hbytes : bytes.length ≤ codeLen := le_alignUp (k := 4) (by decide) hcode
  have hle : codeLen ≤ len := le_alignUp hk hlen
  have hwrite : writeCode (List.replicate len 0) 0 codeLen bytes =
      some (bytes ++ List.replicate (len - bytes.length) 0) := by
    have hsum : codeLen - bytes.length + (len - codeLen) = len - bytes.length := by omega
    have hfits : ¬ (codeLen < bytes.length ∨ (List.replicate len (0 : Byte)).length < 0 + codeLen) := by
      rw [List.length_replicate]
      omega
    rw [writeCode, if_neg hfits]
    simp [hsum]
  have hsome : bytes.isEmpty = false := by
    cases bytes with
    | nil => exact absurd rfl hne
    | cons _ _ => rfl
  cases map with
  | none => simp [allocate, hsome, hcode, h]
  | some ptr =>
      simp only [allocate, hsome, Bool.false_eq_true, if_false, hcode, h, hwrite, Option.bind_eq_bind,
        Option.bind_some, Option.pure_def, Option.map_some]

end CodeArena

end memory

namespace Emitted

variable {config : CacheConfig} (code : Emitted config)

/-- What the cache makes of the code, given where its pages lie. -/
def compiled (map : Option Nat) (arc : Nat) : Option CompiledFunction :=
  map.map fun ptr =>
    ⟨arc, ptr, code.len, code.bytes ++ List.replicate (code.len - code.bytes.length) 0⟩

theorem fromBytes_eq (map : Option Nat) (arc : Nat) :
    CompiledFunction.fromBytes config.page code.bytes map arc = code.compiled map arc := by
  have hallocate := CodeArena.allocate_eq config.pageBits_lt.le code.allocation map
  unfold CompiledFunction.fromBytes CacheConfig.page
  rw [hallocate]
  cases map with
  | none => rfl
  | some ptr => rfl

variable {code} {map : Option Nat} {arc : Nat} {compiled : CompiledFunction}

theorem codeSize_compiled (h : code.compiled map arc = some compiled) : compiled.codeSize = code.len := by
  obtain ⟨ptr, -, rfl⟩ := Option.map_eq_some_iff.mp h
  rfl

end Emitted

/-- The cached functions with the one that was used last in front, and those that were rejected. -/
structure RecentCode where
  items : List (ObjectRef × CompiledTiers)
  disabled : List ObjectRef
deriving DecidableEq, Repr

namespace RecentCode

variable {config : CacheConfig}

def use (recent : RecentCode) (funcaddr : ObjectRef) : RecentCode :=
  { recent with items := toFront funcaddr recent.items }

def check (recent : RecentCode) (funcaddr : ObjectRef) : Checked × RecentCode :=
  if funcaddr ∈ recent.disabled then (.disabled, recent)
  else
    match recent.items.lookup funcaddr with
    | some tiers => (.hit tiers.active, recent.use funcaddr)
    | none => (.missing, recent)

/-- What was used least recently makes room, whether or not the code can be mapped then. -/
def insert (recent : RecentCode) (funcaddr : ObjectRef) (code : Emitted config) (map : Option Nat)
    (arc : Nat) : Option CompiledFunction × RecentCode :=
  if funcaddr ∈ recent.disabled then (none, recent)
  else
    match recent.items.lookup funcaddr with
    | some tiers => (some tiers.active, recent.use funcaddr)
    | none =>
        let kept := keepRoom CompiledTiers.codeSize (config.maxBytes - code.len) recent.items
        match code.compiled map arc with
        | none => (none, ⟨kept, insertRef funcaddr recent.disabled⟩)
        | some compiled => (some compiled, ⟨(funcaddr, .ofBaseline compiled) :: kept, recent.disabled⟩)

def touch (recent : RecentCode) (funcaddr : ObjectRef) (compiled : CompiledFunction) :
    Bool × RecentCode :=
  match recent.items.lookup funcaddr with
  | none => (false, recent)
  | some tiers =>
      if tiers.active.arc ≠ compiled.arc then (false, recent) else (true, recent.use funcaddr)

def markRejected (recent : RecentCode) (funcaddr : ObjectRef) : RecentCode :=
  ⟨dropKey funcaddr recent.items, insertRef funcaddr recent.disabled⟩

def run (recent : RecentCode) : CacheOp config → CacheAnswer × RecentCode
  | .check funcaddr => (recent.check funcaddr).map .checked id
  | .insert funcaddr code map arc => (recent.insert funcaddr code map arc).map .inserted id
  | .touch funcaddr compiled => (recent.touch funcaddr compiled).map .touched id
  | .markRejected funcaddr => (.marked, recent.markRejected funcaddr)

end RecentCode

/-- The table has the functions, stamped in the order of their use and no later than `clock`, and
their sizes are added up. -/
structure Tracks (clock : Nat) (inner : StoreJitCacheInner) (recent : RecentCode) : Prop where
  stamped : Stamped CachedFunction.lastUsed CachedFunction.tiers inner.compiled clock recent.items
  disabled : inner.disabled = recent.disabled
  used : inner.usedBytes = totalSize CompiledTiers.codeSize recent.items

namespace Tracks

variable {config : CacheConfig} {clock : Nat} {inner : StoreJitCacheInner} {recent : RecentCode}
  {funcaddr : ObjectRef} {cached : CachedFunction}

theorem empty : Tracks 0 .empty ⟨[], []⟩ := ⟨.empty, rfl, rfl⟩

theorem later {clock' : Nat} (h : Tracks clock inner recent) (hle : clock ≤ clock') :
    Tracks clock' inner recent :=
  ⟨h.stamped.later hle, h.disabled, h.used⟩

theorem tick (h : Tracks clock inner recent) : Tracks clock inner.tick recent :=
  ⟨h.stamped, h.disabled, h.used⟩

theorem lookup (h : Tracks clock inner recent) :
    (inner.compiled.lookup funcaddr).map CachedFunction.tiers = recent.items.lookup funcaddr :=
  h.stamped.lookup

theorem use (h : Tracks clock inner recent) (hlt : clock < inner.clock) (funcaddr : ObjectRef) :
    Tracks inner.clock (inner.use funcaddr) (recent.use funcaddr) := by
  refine ⟨?_, h.disabled, h.used.trans (Lib.totalSize_perm Lib.toFront_perm).symm⟩
  exact @Stamped.touch _ _ _ _ _ _ _ _ _ _ funcaddr
    (fun cached => { cached with lastUsed := inner.clock }) h.stamped hlt (fun _ => rfl) fun _ => rfl

theorem remove {init : List (ObjectRef × CompiledTiers)} {disabled : List ObjectRef}
    (h : Tracks clock inner ⟨init ++ [(funcaddr, cached.tiers)], disabled⟩)
    (hstamped : Stamped CachedFunction.lastUsed CachedFunction.tiers
      (dropKey funcaddr inner.compiled) clock init) :
    Tracks clock (inner.remove funcaddr cached) ⟨init, disabled⟩ := by
  refine ⟨hstamped, h.disabled, ?_⟩
  have hused := h.used
  rw [Lib.totalSize_append] at hused
  simp [StoreJitCacheInner.remove, hused, totalSize]

theorem evictRounds {items : List (ObjectRef × CompiledTiers)} {disabled : List ObjectRef}
    (target rounds : Nat) (h : Tracks clock inner ⟨items, disabled⟩)
    (hrounds : items.length ≤ rounds) :
    Tracks clock (inner.evictRounds target rounds)
        ⟨keepRoom CompiledTiers.codeSize target items, disabled⟩ ∧
      (inner.evictRounds target rounds).clock = inner.clock := by
  induction rounds generalizing inner items with
  | zero =>
      obtain rfl := List.length_eq_zero_iff.mp (Nat.le_zero.mp hrounds)
      exact ⟨h, rfl⟩
  | succ rounds ih =>
      unfold StoreJitCacheInner.evictRounds
      by_cases hle : inner.usedBytes ≤ target
      · rw [if_pos hle, Lib.keepRoom_of_le (h.used ▸ hle)]
        exact ⟨h, rfl⟩
      · rw [if_neg hle]
        cases hmin : inner.compiled.argmin fun entry => entry.2.lastUsed with
        | none =>
            have hnil : items = [] := by
              have hperm := h.stamped.perm_items
              rw [List.argmin_eq_none.mp hmin] at hperm
              exact hperm.symm.eq_nil
            have hused := h.used
            simp [hnil, totalSize] at hused
            omega
        | some entry =>
            obtain ⟨init, hitems, hstamped⟩ := h.stamped.oldest (Option.mem_def.mpr hmin)
            dsimp only at hitems
            subst hitems
            have hlength : init.length ≤ rounds := by simpa using hrounds
            obtain ⟨hrest, hclock⟩ := ih (h.remove hstamped) hlength
            have hover : target < totalSize CompiledTiers.codeSize
                (init ++ [(entry.1, entry.2.tiers)]) := by
              have hused := h.used
              dsimp only at hused
              omega
            rw [Lib.keepRoom_concat hover]
            exact ⟨hrest, hclock⟩

theorem evictUntil (h : Tracks clock inner recent) (target : Nat) :
    Tracks clock (inner.evictUntil target)
        ⟨keepRoom CompiledTiers.codeSize target recent.items, recent.disabled⟩ ∧
      (inner.evictUntil target).clock = inner.clock := by
  have hlength : recent.items.length = inner.compiled.length := by
    simpa using h.stamped.perm_items.length_eq.symm
  exact evictRounds target inner.compiled.length h hlength.le

theorem lt_tick (hclock : inner.clock + 1 < 2 ^ 64) : inner.clock < inner.tick.clock := by
  have htick : inner.tick.clock = inner.clock + 1 := Nat.mod_eq_of_lt hclock
  omega

theorem check (h : Tracks inner.clock inner recent) (hclock : inner.clock + 1 < 2 ^ 64)
    (funcaddr : ObjectRef) :
    (inner.check funcaddr).1 = (recent.check funcaddr).1 ∧
      Tracks inner.tick.clock (inner.check funcaddr).2 (recent.check funcaddr).2 := by
  have hlt := lt_tick hclock
  have hdisabled : inner.tick.disabled = recent.disabled := h.disabled
  have hlookup : (inner.tick.compiled.lookup funcaddr).map CachedFunction.tiers =
      recent.items.lookup funcaddr := h.lookup
  unfold StoreJitCacheInner.check RecentCode.check
  dsimp only
  rw [hdisabled, ← hlookup]
  by_cases hmem : funcaddr ∈ recent.disabled
  · simp only [if_pos hmem]
    exact ⟨trivial, h.tick.later hlt.le⟩
  · simp only [if_neg hmem]
    cases inner.tick.compiled.lookup funcaddr with
    | none => exact ⟨rfl, h.tick.later hlt.le⟩
    | some cached => exact ⟨rfl, h.tick.use hlt funcaddr⟩

theorem touch (h : Tracks inner.clock inner recent) (hclock : inner.clock + 1 < 2 ^ 64)
    (funcaddr : ObjectRef) (compiled : CompiledFunction) :
    (inner.touchCompiled funcaddr compiled).1 = (recent.touch funcaddr compiled).1 ∧
      Tracks inner.tick.clock (inner.touchCompiled funcaddr compiled).2
        (recent.touch funcaddr compiled).2 := by
  have hlt := lt_tick hclock
  have hlookup : (inner.tick.compiled.lookup funcaddr).map CachedFunction.tiers =
      recent.items.lookup funcaddr := h.lookup
  unfold StoreJitCacheInner.touchCompiled RecentCode.touch
  dsimp only
  rw [← hlookup]
  cases inner.tick.compiled.lookup funcaddr with
  | none => exact ⟨rfl, h.tick.later hlt.le⟩
  | some cached =>
      simp only [Option.map_some]
      by_cases hsame : cached.tiers.active.arc = compiled.arc
      · simp only [hsame, ne_eq, not_true, if_false]
        exact ⟨trivial, h.tick.use hlt funcaddr⟩
      · simp only [hsame, ne_eq, not_false_eq_true, if_true]
        exact ⟨trivial, h.tick.later hlt.le⟩

theorem markRejected (h : Tracks clock inner recent) (funcaddr : ObjectRef) :
    Tracks clock (inner.markRejected funcaddr) (recent.markRejected funcaddr) := by
  have hlookup := @lookup clock inner recent funcaddr h
  have hinsert : insertRef funcaddr inner.disabled = insertRef funcaddr recent.disabled := by
    rw [h.disabled]
  unfold StoreJitCacheInner.markRejected RecentCode.markRejected
  cases hfound : inner.compiled.lookup funcaddr with
  | none =>
      rw [hfound] at hlookup
      rw [Lib.dropKey_of_notMem (Lib.notMem_of_lookup hlookup.symm)]
      exact ⟨h.stamped, hinsert, h.used⟩
  | some cached =>
      rw [hfound] at hlookup
      refine ⟨h.stamped.dropKey, hinsert, ?_⟩
      have hsize := @Lib.totalSize_dropKey _ _ _ CompiledTiers.codeSize _ _ _ h.stamped.nodup_items
        hlookup.symm
      have hused := h.used
      simp only [StoreJitCacheInner.remove]
      omega

theorem insert (h : Tracks inner.clock inner recent) (hclock : inner.clock + 1 < 2 ^ 64)
    (funcaddr : ObjectRef) (code : Emitted config) (map : Option Nat) (arc : Nat) :
    (inner.insert funcaddr code map arc).1 = (recent.insert funcaddr code map arc).1 ∧
      Tracks inner.tick.clock (inner.insert funcaddr code map arc).2
        (recent.insert funcaddr code map arc).2 := by
  have hlt := lt_tick hclock
  have hdisabled : inner.tick.disabled = recent.disabled := h.disabled
  have hlookup : (inner.tick.compiled.lookup funcaddr).map CachedFunction.tiers =
      recent.items.lookup funcaddr := h.lookup
  unfold StoreJitCacheInner.insert RecentCode.insert
  dsimp only
  rw [hdisabled, ← hlookup, code.fromBytes_eq]
  by_cases hmem : funcaddr ∈ recent.disabled
  · simp only [if_pos hmem]
    exact ⟨trivial, h.tick.later hlt.le⟩
  simp only [if_neg hmem]
  cases hfound : inner.tick.compiled.lookup funcaddr with
  | some cached => exact ⟨rfl, h.tick.use hlt funcaddr⟩
  | none =>
      rw [hfound] at hlookup
      obtain ⟨hevicted, hkept⟩ := h.tick.evictUntil (config.maxBytes - code.len)
      dsimp only [Option.map_none]
      cases hcompiled : code.compiled map arc with
      | none =>
          exact ⟨rfl, hevicted.stamped.later hlt.le, congrArg (insertRef funcaddr) hevicted.disabled,
            hevicted.used⟩
      | some compiled =>
          have hnew : funcaddr ∉ (keepRoom CompiledTiers.codeSize (config.maxBytes - code.len)
              recent.items).map (·.1) := fun hkept =>
            Lib.notMem_of_lookup hlookup.symm ((Lib.keepRoom_prefix.map _).subset hkept)
          refine ⟨rfl, ?_, hevicted.disabled, ?_⟩
          · rw [← hkept] at hlt ⊢
            exact Stamped.push hevicted.stamped hlt hnew
          · have hroom : (inner.tick.evictUntil (config.maxBytes - code.len)).usedBytes ≤
                config.maxBytes - code.len := hevicted.used ▸ Lib.totalSize_keepRoom
            have hlen := Emitted.codeSize_compiled hcompiled
            have hfits := code.fits
            have hmax := config.maxBytes_lt
            have hused := hevicted.used
            have hsum : totalSize CompiledTiers.codeSize
                ((funcaddr, CompiledTiers.ofBaseline compiled) :: keepRoom CompiledTiers.codeSize
                  (config.maxBytes - code.len) recent.items) =
                compiled.codeSize + totalSize CompiledTiers.codeSize
                  (keepRoom CompiledTiers.codeSize (config.maxBytes - code.len) recent.items) := rfl
            simp only [hsum, saturatingSum]
            dsimp only at hused
            omega

end Tracks

end Telomere.Jit
