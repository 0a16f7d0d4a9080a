import Telomere.Component.Value

/-!
# Sections of a component

The decoder reads a component section by section. A section says how long it is; for custom
sections, core modules and nested components the decoder goes by that, for the others it reads as
many definitions as their vector has and does not look at the size.

The definitions themselves are read by parsers that are left open here: `Definitions` says only that
they read forwards and not beyond the end of the reader.
-/

namespace Telomere.Component

variable {S E : Type}

inductive ComponentSection where
  | custom | coreModule | coreInstance | coreType | component | «instance» | alias | type | canon
  | start | «import» | «export»
deriving DecidableEq, Repr

/-- `E` stands for the errors of the parsers of definitions. -/
inductive ComponentParseError (E : Type) where
  | io
  | invalidLeb128Encoding
  | invalidMagic (bytes : List Byte)
  | invalidVersion (bytes : List Byte)
  | invalidLayer (bytes : List Byte)
  | invalidSectionType (kind : Byte)
  | unsupported (message : String)
  | nestingTooDeep (limit : Nat)
  | definition (e : E)
deriving DecidableEq, Repr

/-- A section that was read: where its contents start, the size it declares, where its reader ends,
what the decoder knew before, and where its contents ended. -/
structure SectionRead (S : Type) where
  kind : ComponentSection
  depth : Nat
  start : Nat
  size : Nat
  limit : Nat
  before : S
  ended : Nat

structure Cursor (S : Type) where
  count : Nat
  state : S

abbrev Decode (S E : Type) := Lib.Run (Cursor S) (ComponentParseError E)

section readers

variable (input : List Byte) (limit : Nat)

def readOne : Decode S E (Option Byte) := fun c =>
  match input[c.count]? with
  | some byte =>
      if c.count < limit then .ok (some byte, { c with count := c.count + 1 }) else .ok (none, c)
  | none => .ok (none, c)

def readExact (n : Nat) : Decode S E (List Byte) := fun c =>
  if limit - c.count < n ∨ input.length - c.count < n then .error .io
  else .ok ((input.drop c.count).take n, { c with count := c.count + n })

def readExactOne : Decode S E Byte := do
  match ← readExact input limit 1 with
  | [byte] => return byte
  | _ => throw .io

/-- The bits of the last byte of a number in LEB128 that are beyond the 32. -/
def remainingBits (readBytes : Nat) (byte : Byte) : Byte :=
  let shift := 32 - (readBytes - 1) * 7
  if shift < 8 then byte >>> shift else 0

def finishU32 (readBytes : Nat) (byte : Byte) (result : BitVec 32) : Decode S E Nat :=
  if remainingBits readBytes byte ≠ 0 then throw .invalidLeb128Encoding else return result.toNat

/-- At most five bytes. -/
def parseU32Bytes : Nat → Nat → BitVec 32 → Decode S E Nat
  | 0, _, _ => throw .invalidLeb128Encoding
  | left + 1, readBytes, result => do
      let byte ← readExactOne input limit
      let result := result ||| ((byte &&& 0x7F).setWidth 32 <<< (readBytes * 7))
      if byte &&& 0x80 = 0 then finishU32 (readBytes + 1) byte result
      else parseU32Bytes left (readBytes + 1) result

def parseU32 : Decode S E Nat := parseU32Bytes input limit 5 0 0

/-- `take` narrows what is left of a reader. -/
def takeLimit (count size : Nat) : Nat := min (count + size) limit

end readers

/-- The parsers of what the sections hold. `core` reads one section of a core module behind its kind,
`finishCore` checks the module and adds it. -/
structure Definitions (S E : Type) where
  item : List Byte → ComponentSection → Nat → Nat → S → Nat → Except E (S × Nat)
  item_bounds : ∀ {input kind depth limit s count s' count'},
    item input kind depth limit s count = .ok (s', count') → count ≤ count' ∧ count' ≤ limit
  core : List Byte → Byte → Nat → S → Nat → Except E (S × Nat)
  core_bounds : ∀ {input kind limit s count s' count'},
    core input kind limit s count = .ok (s', count') → count ≤ count' ∧ count' ≤ limit
  finishCore : S → Except E S
  pushScope : S → S
  popScope : S → Except E S
  finishRoot : S → Except E S

section decoder

variable (D : Definitions S E) (input : List Byte)

def define (parse : S → Nat → Except E (S × Nat)) : Decode S E Unit := fun c =>
  match parse c.state c.count with
  | .ok (state, count) => .ok ((), { c with state, count })
  | .error e => .error (.definition e)

def update (change : S → Except E S) : Decode S E Unit := fun c =>
  match change c.state with
  | .ok state => .ok ((), { c with state })
  | .error e => .error (.definition e)

def parseItems (kind : ComponentSection) (depth limit : Nat) : Nat → Decode S E Unit
  | 0 => return ()
  | n + 1 => do
      define (D.item input kind depth limit)
      parseItems kind depth limit n

def parseVector (kind : ComponentSection) (depth limit : Nat) : Decode S E Unit := do
  parseItems D input kind depth limit (← parseU32 input limit)

def expectBytes (limit n : Nat) (expected : List Byte) (error : List Byte → ComponentParseError E) :
    Decode S E Unit := do
  let bytes ← readExact input limit n
  if bytes = expected then return () else throw (error bytes)

/-- The sections of a core module up to the end of the reader; `left` is what is left to read. -/
def parseCoreSections (limit : Nat) : Nat → Decode S E Unit
  | 0 => return ()
  | left + 1 => do
      match ← readOne input limit with
      | none => return ()
      | some kind => do
          define (D.core input kind limit)
          parseCoreSections limit left

def parseModule (limit : Nat) : Decode S E Unit := do
  expectBytes input limit 4 [0x00, 0x61, 0x73, 0x6d] .invalidMagic
  expectBytes input limit 4 [0x01, 0x00, 0x00, 0x00] .invalidVersion
  parseCoreSections D input limit (limit - (← get).count)
  update D.finishCore

def sectionType (kind : Byte) : Decode S E ComponentSection :=
  match kind.toNat with
  | 0x00 => return .custom
  | 0x01 => return .coreModule
  | 0x02 => return .coreInstance
  | 0x03 => return .coreType
  | 0x04 => return .component
  | 0x05 => return .instance
  | 0x06 => return .alias
  | 0x07 => return .type
  | 0x08 => return .canon
  | 0x09 => return .start
  | 0x0a => return .import
  | 0x0b => return .export
  | _ => throw (.invalidSectionType kind)

def parseCustomSection (limit : Nat) : Nat → Decode S E Unit
  | 0 => return ()
  | size + 1 => do
      let _ ← readExactOne input limit
      parseCustomSection limit size

/-- The contents of a section, with the sections found inside. `inner` reads a nested component up to
a limit. -/
def parseContents (inner : Nat → Decode S E (List (SectionRead S))) (depth limit count size : Nat) :
    ComponentSection → Decode S E (List (SectionRead S))
  | .custom => do
      parseCustomSection input limit size
      return []
  | .coreModule => do
      parseModule D input (takeLimit limit count size)
      return []
  | .component => do
      update fun s => .ok (D.pushScope s)
      let sections ← inner (takeLimit limit count size)
      update D.popScope
      return sections
  | .start => throw (.unsupported "unsupported component section: Start")
  | kind => do
      parseVector D input kind depth limit
      return []

/-- A section behind its kind, noted down when it has been read. -/
def parseSection (inner : Nat → Decode S E (List (SectionRead S))) (depth limit : Nat)
    (kind : ComponentSection) : Decode S E (List (SectionRead S)) := do
  let size ← parseU32 input limit
  let c ← get
  let sections ← parseContents D input inner depth limit c.count size kind
  return sections ++ [⟨kind, depth, c.count, size, limit, c.state, (← get).count⟩]

/-- The sections up to the end of the reader; `left` is what is left to read. -/
def parseSections (inner : Nat → Decode S E (List (SectionRead S))) (depth limit : Nat) :
    Nat → Decode S E (List (SectionRead S))
  | 0 => return []
  | left + 1 => do
      match ← readOne input limit with
      | none => return []
      | some kind => do
          let sections ← parseSection D input inner depth limit (← sectionType kind)
          return sections ++ (← parseSections inner depth limit left)

def maxComponentNestingDepth : Nat := 100

/-- `_parse_component`, with what is left of the nesting depth. -/
def parseComponentAt : Nat → Nat → Decode S E (List (SectionRead S))
  | 0, _ => throw (.nestingTooDeep maxComponentNestingDepth)
  | depthLeft + 1, limit => do
      expectBytes input limit 4 [0x00, 0x61, 0x73, 0x6d] .invalidMagic
      expectBytes input limit 2 [0x0d, 0x00] .invalidVersion
      expectBytes input limit 2 [0x01, 0x00] .invalidLayer
      parseSections D input (parseComponentAt depthLeft) (maxComponentNestingDepth - depthLeft) limit
        (limit - (← get).count)

def parseComponent : Decode S E (List (SectionRead S)) := do
  let sections ← parseComponentAt D input (maxComponentNestingDepth + 1) input.length
  update D.finishRoot
  return sections

end decoder

def Forwards (limit : Nat) (c c' : Cursor S) : Prop :=
  c.count ≤ c'.count ∧ (c.count ≤ limit → c'.count ≤ limit)

theorem Forwards.refl {limit : Nat} (c : Cursor S) : Forwards limit c c :=
  ⟨Nat.le_refl _, id⟩

theorem Forwards.trans {limit : Nat} (c c' c'' : Cursor S) (h : Forwards limit c c')
    (h' : Forwards limit c' c'') : Forwards limit c c'' :=
  ⟨Nat.le_trans h.1 h'.1, fun hle => h'.2 (h.2 hle)⟩

section forwards

variable {D : Definitions S E} {input : List Byte} {limit : Nat}

theorem readExact_forwards (n : Nat) :
    Lib.Keeps (Forwards limit) (readExact input limit n : Decode S E _) := by
  intro c a c' h
  unfold readExact at h
  split at h
  · cases h
  · cases h
    exact ⟨Nat.le_add_right _ _, fun _ => by dsimp only; omega⟩

theorem readExactOne_forwards :
    Lib.Keeps (Forwards limit) (readExactOne input limit : Decode S E _) := by
  refine .bind Forwards.trans (readExact_forwards 1) fun bytes => ?_
  split
  · exact .pure Forwards.refl _
  · exact .throw _

theorem finishU32_forwards (readBytes : Nat) (byte : Byte) (result : BitVec 32) :
    Lib.Keeps (Forwards limit) (finishU32 readBytes byte result : Decode S E _) := by
  unfold finishU32
  split
  · exact .throw _
  · exact .pure Forwards.refl _

theorem parseU32Bytes_forwards (left readBytes : Nat) (result : BitVec 32) :
    Lib.Keeps (Forwards limit) (parseU32Bytes input limit left readBytes result : Decode S E _) := by
  induction left generalizing readBytes result with
  | zero => exact .throw _
  | succ left ih =>
      refine .bind Forwards.trans readExactOne_forwards fun byte => ?_
      split
      · exact finishU32_forwards _ _ _
      · exact ih _ _

theorem parseU32_forwards : Lib.Keeps (Forwards limit) (parseU32 input limit : Decode S E _) :=
  parseU32Bytes_forwards 5 0 0

theorem define_forwards {parse : S → Nat → Except E (S × Nat)}
    (hbounds : ∀ {s count s' count'}, parse s count = .ok (s', count') →
      count ≤ count' ∧ count' ≤ limit) :
    Lib.Keeps (Forwards limit) (define parse) := by
  intro c a c' h
  unfold define at h
  split at h
  · next state count hparse =>
      cases h
      obtain ⟨hle, hlimit⟩ := hbounds hparse
      exact ⟨hle, fun _ => hlimit⟩
  · cases h

theorem update_same {change : S → Except E S} {c c' : Cursor S} {a : Unit}
    (h : update change c = .ok (a, c')) : c'.count = c.count := by
  unfold update at h
  split at h
  · cases h
    rfl
  · cases h

theorem parseItems_forwards (kind : ComponentSection) (depth n : Nat) :
    Lib.Keeps (Forwards limit) (parseItems D input kind depth limit n) := by
  induction n with
  | zero => exact .pure Forwards.refl _
  | succ n ih => exact .bind Forwards.trans (define_forwards D.item_bounds) fun _ => ih

theorem parseVector_forwards (kind : ComponentSection) (depth : Nat) :
    Lib.Keeps (Forwards limit) (parseVector D input kind depth limit) :=
  .bind Forwards.trans parseU32_forwards fun n => parseItems_forwards kind depth n

theorem parseCustomSection_forwards (size : Nat) :
    Lib.Keeps (Forwards limit) (parseCustomSection input limit size : Decode S E _) := by
  induction size with
  | zero => exact .pure Forwards.refl _
  | succ size ih => exact .bind Forwards.trans readExactOne_forwards fun _ => ih

theorem expectBytes_forwards (n : Nat) (expected : List Byte)
    (error : List Byte → ComponentParseError E) :
    Lib.Keeps (Forwards limit) (expectBytes input limit n expected error : Decode S E _) := by
  refine .bind Forwards.trans (readExact_forwards n) fun bytes => ?_
  split
  · exact .pure Forwards.refl _
  · exact .throw _

end forwards

/-- Where the contents of a section ended: a custom section at its size, a core module and a
component at their size or at the end of the reader, any other where its vector ended. -/
def Measured (D : Definitions S E) (input : List Byte) (r : SectionRead S) : Prop :=
  match r.kind with
  | .custom => r.ended = r.start + r.size
  | .coreModule | .component => r.ended = takeLimit r.limit r.start r.size
  | kind => ∃ c, parseVector D input kind r.depth r.limit ⟨r.start, r.before⟩ = .ok ((), c) ∧
      r.ended = c.count

section ends

variable {D : Definitions S E} {input : List Byte} {limit : Nat} {c c' : Cursor S}

theorem readOne_none (hlimit : limit ≤ input.length)
    (h : (readOne input limit : Decode S E _) c = .ok (none, c')) : c' = c ∧ limit ≤ c.count := by
  unfold readOne at h
  split at h
  · split at h
    · cases h
    · next hge =>
        cases h
        exact ⟨rfl, Nat.not_lt.mp hge⟩
  · next hnone =>
      cases h
      exact ⟨rfl, Nat.le_trans hlimit (List.getElem?_eq_none_iff.mp hnone)⟩

theorem readOne_some {byte : Byte} (h : (readOne input limit : Decode S E _) c = .ok (some byte, c')) :
    c'.count = c.count + 1 ∧ c.count < limit := by
  unfold readOne at h
  split at h
  · split at h
    · next hlt =>
        cases h
        exact ⟨rfl, hlt⟩
    · cases h
  · cases h

theorem readExactOne_count {byte : Byte}
    (h : (readExactOne input limit : Decode S E _) c = .ok (byte, c')) : c'.count = c.count + 1 := by
  obtain ⟨bytes, c₁, hread, hrest⟩ := Lib.run_bind_eq_ok.mp h
  have hcount : c₁.count = c.count + 1 := by
    unfold readExact at hread
    split at hread
    · cases hread
    · cases hread
      rfl
  split at hrest
  · obtain ⟨-, rfl⟩ := Lib.run_pure_eq_ok.mp hrest
    exact hcount
  · cases hrest

theorem parseCustomSection_count {size : Nat} {a : Unit}
    (h : (parseCustomSection input limit size : Decode S E _) c = .ok (a, c')) :
    c'.count = c.count + size := by
  induction size generalizing c with
  | zero =>
      obtain ⟨-, rfl⟩ := Lib.run_pure_eq_ok.mp h
      rfl
  | succ size ih =>
      obtain ⟨byte, c₁, hread, hrest⟩ := Lib.run_bind_eq_ok.mp h
      rw [ih hrest, readExactOne_count hread]
      omega

theorem parseCoreSections_ends (hlimit : limit ≤ input.length) {left : Nat} {a : Unit}
    (hleft : limit - c.count ≤ left) (hcount : c.count ≤ limit)
    (h : parseCoreSections D input limit left c = .ok (a, c')) : c'.count = limit := by
  induction left generalizing c with
  | zero =>
      obtain ⟨-, rfl⟩ := Lib.run_pure_eq_ok.mp h
      omega
  | succ left ih =>
      obtain ⟨kind, c₁, hread, hrest⟩ := Lib.run_bind_eq_ok.mp h
      cases kind with
      | none =>
          obtain ⟨-, rfl⟩ := Lib.run_pure_eq_ok.mp hrest
          obtain ⟨rfl, hge⟩ := readOne_none hlimit hread
          omega
      | some kind =>
          obtain ⟨hnext, hlt⟩ := readOne_some hread
          obtain ⟨_, c₂, hdefine, hrest⟩ := Lib.run_bind_eq_ok.mp hrest
          obtain ⟨hle, hwithin⟩ := define_forwards D.core_bounds _ _ _ hdefine
          exact ih (by omega) (hwithin (by omega)) hrest

theorem parseModule_ends (hlimit : limit ≤ input.length) (hcount : c.count ≤ limit) {a : Unit}
    (h : parseModule D input limit c = .ok (a, c')) : c'.count = limit := by
  obtain ⟨_, c₁, hmagic, h⟩ := Lib.run_bind_eq_ok.mp h
  obtain ⟨_, c₂, hversion, h⟩ := Lib.run_bind_eq_ok.mp h
  obtain ⟨c₃, c₄, hget, h⟩ := Lib.run_bind_eq_ok.mp h
  cases hget
  obtain ⟨_, c₅, hsections, hfinish⟩ := Lib.run_bind_eq_ok.mp h
  have hcount₁ := (expectBytes_forwards _ _ _ _ _ _ hmagic).2 hcount
  have hcount₂ := (expectBytes_forwards _ _ _ _ _ _ hversion).2 hcount₁
  rw [update_same hfinish]
  exact parseCoreSections_ends hlimit (Nat.le_refl _) hcount₂ hsections

/-- What is asked of the parser of nested components: it reads up to its limit. -/
def ReadsAll (D : Definitions S E) (input : List Byte)
    (inner : Nat → Decode S E (List (SectionRead S))) : Prop :=
  ∀ limit (c c' : Cursor S) sections, limit ≤ input.length → c.count ≤ limit →
    inner limit c = .ok (sections, c') → c'.count = limit ∧ ∀ r ∈ sections, Measured D input r

section contents

variable {inner : Nat → Decode S E (List (SectionRead S))} {depth size : Nat}
  {sections : List (SectionRead S)}

theorem takeLimit_bounds (size : Nat) {count : Nat} (hcount : count ≤ limit) :
    count ≤ takeLimit limit count size ∧ takeLimit limit count size ≤ limit := by
  unfold takeLimit
  omega

theorem parseContents_measured (hinner : ReadsAll D input inner) (hlimit : limit ≤ input.length)
    (hcount : c.count ≤ limit) {kind : ComponentSection}
    (h : parseContents D input inner depth limit c.count size kind c = .ok (sections, c')) :
    Forwards limit c c' ∧ (∀ r ∈ sections, Measured D input r) ∧
      Measured D input ⟨kind, depth, c.count, size, limit, c.state, c'.count⟩ := by
  obtain ⟨htake, hnarrow⟩ := takeLimit_bounds size hcount
  have hvector : ∀ {kind : ComponentSection},
      (do parseVector D input kind depth limit; return [] : Decode S E _) c = .ok (sections, c') →
      Forwards limit c c' ∧ (∀ r ∈ sections, Measured D input r) ∧
        ∃ c'', parseVector D input kind depth limit c = .ok ((), c'') ∧ c'.count = c''.count := by
    intro kind h
    obtain ⟨_, c₁, hparse, h⟩ := Lib.run_bind_eq_ok.mp h
    obtain ⟨rfl, rfl⟩ := Lib.run_pure_eq_ok.mp h
    exact ⟨parseVector_forwards kind depth _ _ _ hparse, fun r hr => absurd hr List.not_mem_nil,
      c₁, hparse, rfl⟩
  cases kind with
  | custom =>
      obtain ⟨_, c₁, hparse, h⟩ := Lib.run_bind_eq_ok.mp h
      obtain ⟨rfl, rfl⟩ := Lib.run_pure_eq_ok.mp h
      exact ⟨parseCustomSection_forwards size _ _ _ hparse, fun r hr => absurd hr List.not_mem_nil,
        parseCustomSection_count hparse⟩
  | coreModule =>
      obtain ⟨_, c₁, hparse, h⟩ := Lib.run_bind_eq_ok.mp h
      obtain ⟨rfl, rfl⟩ := Lib.run_pure_eq_ok.mp h
      have hend := parseModule_ends (Nat.le_trans hnarrow hlimit) htake hparse
      refine ⟨⟨?_, fun _ => ?_⟩, fun r hr => absurd hr List.not_mem_nil, hend⟩ <;> omega
  | component =>
      obtain ⟨_, c₁, hpush, h⟩ := Lib.run_bind_eq_ok.mp h
      obtain ⟨sections', c₂, hparse, h⟩ := Lib.run_bind_eq_ok.mp h
      obtain ⟨_, c₃, hpop, h⟩ := Lib.run_bind_eq_ok.mp h
      obtain ⟨rfl, rfl⟩ := Lib.run_pure_eq_ok.mp h
      have hcount₁ := update_same hpush
      have hcount₃ := update_same hpop
      obtain ⟨hend, hmeasured⟩ := hinner _ _ _ _ (Nat.le_trans hnarrow hlimit) (by omega) hparse
      have hended : c₃.count = takeLimit limit c.count size := hcount₃.trans hend
      refine ⟨⟨?_, fun _ => ?_⟩, hmeasured, hended⟩ <;> omega
  | start => cases h
  | coreInstance | coreType | «instance» | «alias» | type | canon | «import» | «export» =>
      exact hvector h

theorem parseSection_measured (hinner : ReadsAll D input inner) (hlimit : limit ≤ input.length)
    (hcount : c.count ≤ limit) {kind : ComponentSection}
    (h : parseSection D input inner depth limit kind c = .ok (sections, c')) :
    Forwards limit c c' ∧ ∀ r ∈ sections, Measured D input r := by
  obtain ⟨size, c₁, hsize, h⟩ := Lib.run_bind_eq_ok.mp h
  obtain ⟨c₂, c₃, hget, h⟩ := Lib.run_bind_eq_ok.mp h
  cases hget
  obtain ⟨sections', c₄, hcontents, h⟩ := Lib.run_bind_eq_ok.mp h
  obtain ⟨c₅, c₆, hget, h⟩ := Lib.run_bind_eq_ok.mp h
  cases hget
  obtain ⟨rfl, rfl⟩ := Lib.run_pure_eq_ok.mp h
  have hfirst := parseU32_forwards _ _ _ hsize
  obtain ⟨hforwards, hnested, hmeasured⟩ :=
    parseContents_measured hinner hlimit (hfirst.2 hcount) hcontents
  refine ⟨Forwards.trans _ _ _ hfirst hforwards, ?_⟩
  intro r hr
  rcases List.mem_append.mp hr with hr | hr
  · exact hnested r hr
  · rw [List.mem_singleton.mp hr]
    exact hmeasured

theorem sectionType_same (kind : Byte) :
    Lib.Keeps (fun c c' => c' = c) (sectionType kind : Decode S E _) := by
  unfold sectionType
  split <;> first | exact .pure (R := fun c c' => c' = c) (fun _ => rfl) _ | exact .throw _

theorem parseSections_measured (hinner : ReadsAll D input inner) (hlimit : limit ≤ input.length)
    {left : Nat} (hleft : limit - c.count ≤ left) (hcount : c.count ≤ limit)
    (h : parseSections D input inner depth limit left c = .ok (sections, c')) :
    c'.count = limit ∧ ∀ r ∈ sections, Measured D input r := by
  induction left generalizing c sections with
  | zero =>
      obtain ⟨rfl, rfl⟩ := Lib.run_pure_eq_ok.mp h
      exact ⟨by omega, fun r hr => absurd hr List.not_mem_nil⟩
  | succ left ih =>
      obtain ⟨kind, c₁, hread, h⟩ := Lib.run_bind_eq_ok.mp h
      cases kind with
      | none =>
          obtain ⟨rfl, rfl⟩ := Lib.run_pure_eq_ok.mp h
          obtain ⟨rfl, hge⟩ := readOne_none hlimit hread
          exact ⟨by omega, fun r hr => absurd hr List.not_mem_nil⟩
      | some kind =>
          obtain ⟨hnext, hlt⟩ := readOne_some hread
          obtain ⟨section', c₂, hkind, hrest⟩ := Lib.run_bind_eq_ok.mp h
          obtain ⟨first, c₃, hsection, hrest⟩ := Lib.run_bind_eq_ok.mp hrest
          obtain ⟨rest, c₄, hsections, hrest⟩ := Lib.run_bind_eq_ok.mp hrest
          obtain ⟨rfl, rfl⟩ := Lib.run_pure_eq_ok.mp hrest
          rw [sectionType_same kind _ _ _ hkind] at hsection
          obtain ⟨⟨hle, hwithin⟩, hfirst⟩ := parseSection_measured hinner hlimit (by omega) hsection
          obtain ⟨hend, hrest⟩ := ih (by omega) (hwithin (by omega)) hsections
          refine ⟨hend, fun r hr => ?_⟩
          rcases List.mem_append.mp hr with hr | hr
          · exact hfirst r hr
          · exact hrest r hr

end contents

theorem parseComponentAt_readsAll (depthLeft : Nat) :
    ReadsAll D input (parseComponentAt D input depthLeft) := by
  induction depthLeft with
  | zero =>
      intro limit c c' sections _ _ h
      cases h
  | succ depthLeft ih =>
      intro limit c c' sections hlimit hcount h
      obtain ⟨_, c₁, hmagic, h⟩ := Lib.run_bind_eq_ok.mp h
      obtain ⟨_, c₂, hversion, h⟩ := Lib.run_bind_eq_ok.mp h
      obtain ⟨_, c₃, hlayer, h⟩ := Lib.run_bind_eq_ok.mp h
      obtain ⟨c₄, c₅, hget, h⟩ := Lib.run_bind_eq_ok.mp h
      cases hget
      have hcount₁ := (expectBytes_forwards _ _ _ _ _ _ hmagic).2 hcount
      have hcount₂ := (expectBytes_forwards _ _ _ _ _ _ hversion).2 hcount₁
      have hcount₃ := (expectBytes_forwards _ _ _ _ _ _ hlayer).2 hcount₂
      exact parseSections_measured ih hlimit (Nat.le_refl _) hcount₃ h

theorem parseComponent_measured {s : S} {sections : List (SectionRead S)}
    (h : parseComponent D input ⟨0, s⟩ = .ok (sections, c)) :
    ∀ r ∈ sections, Measured D input r := by
  obtain ⟨sections', c₁, hparse, h⟩ := Lib.run_bind_eq_ok.mp h
  obtain ⟨_, c₂, -, h⟩ := Lib.run_bind_eq_ok.mp h
  obtain ⟨rfl, -⟩ := Lib.run_pure_eq_ok.mp h
  exact (parseComponentAt_readsAll _ _ _ _ _ (Nat.le_refl _) (Nat.zero_le _) hparse).2

end ends

/-! ## Sizes -/

/-- The contents end as many bytes behind their start as the section declares. -/
def SectionRead.Exact (r : SectionRead S) : Prop := r.ended = r.start + r.size

instance (r : SectionRead S) : Decidable r.Exact := inferInstanceAs (Decidable (_ = _))

/-- The size is right where the decoder does not compare it: of a core module and a component it does
not reach beyond the end of the bytes around, of a section that is a vector it is what the vector
takes. -/
def TrueSize (D : Definitions S E) (input : List Byte) (r : SectionRead S) : Prop :=
  match r.kind with
  | .custom => True
  | .coreModule | .component => r.start + r.size ≤ r.limit
  | kind => ∃ c, parseVector D input kind r.depth r.limit ⟨r.start, r.before⟩ = .ok ((), c) ∧
      c.count = r.start + r.size

theorem exact_iff_trueSize {D : Definitions S E} {input : List Byte} {r : SectionRead S}
    (h : Measured D input r) : r.Exact ↔ TrueSize D input r := by
  obtain ⟨kind, depth, start, size, limit, before, ended⟩ := r
  have hvector : ∀ {kind : ComponentSection},
      (∃ c, parseVector D input kind depth limit ⟨start, before⟩ = .ok ((), c) ∧ ended = c.count) →
      (ended = start + size ↔
        ∃ c, parseVector D input kind depth limit ⟨start, before⟩ = .ok ((), c) ∧
          c.count = start + size) := by
    rintro kind ⟨c, hparse, rfl⟩
    constructor
    · exact fun heq => ⟨c, hparse, heq⟩
    · rintro ⟨c', hparse', heq⟩
      rw [hparse] at hparse'
      cases hparse'
      exact heq
  cases kind with
  | custom => exact ⟨fun _ => trivial, fun _ => h⟩
  | coreModule | component =>
      change ended = min (start + size) limit at h
      change ended = start + size ↔ start + size ≤ limit
      omega
  | coreInstance | coreType | «instance» | «alias» | type | canon | start | «import» | «export» =>
      exact hvector h

/-- Of an accepted input all sections, at every level, end where they say exactly when the sizes that
are not compared are right. -/
theorem sections_exact_iff (D : Definitions S E) (input : List Byte) (s : S) {c : Cursor S}
    {sections : List (SectionRead S)} (h : parseComponent D input ⟨0, s⟩ = .ok (sections, c)) :
    (∀ r ∈ sections, r.Exact) ↔ ∀ r ∈ sections, TrueSize D input r := by
  have hmeasured := parseComponent_measured h
  refine forall_congr' fun r => forall_congr' fun hr => ?_
  exact exact_iff_trueSize (hmeasured r hr)

/-- No definitions are read, a core module without sections is accepted. -/
private def noDefinitions : Definitions Unit Unit where
  item := fun _ _ _ _ _ _ => .error ()
  item_bounds := fun h => by cases h
  core := fun _ _ _ _ _ => .error ()
  core_bounds := fun h => by cases h
  finishCore := .ok
  pushScope := id
  popScope := .ok
  finishRoot := .ok

private def header : List Byte := [0x00, 0x61, 0x73, 0x6d, 0x0d, 0x00, 0x01, 0x00]

/-- A type section without types that declares five bytes. -/
private def longTypes : List Byte := header ++ [0x07, 0x05, 0x00]

/-- A core module of eight bytes that declares nine, at the end of the input. -/
private def shortModule : List Byte :=
  header ++ [0x01, 0x09, 0x00, 0x61, 0x73, 0x6d, 0x01, 0x00, 0x00, 0x00]

theorem wrong_sizes_accepted :
    (∃ sections c, parseComponent noDefinitions longTypes ⟨0, ()⟩ = .ok (sections, c) ∧
      ¬ ∀ r ∈ sections, r.Exact) ∧
    ∃ sections c, parseComponent noDefinitions shortModule ⟨0, ()⟩ = .ok (sections, c) ∧
      ¬ ∀ r ∈ sections, r.Exact := by
  refine ⟨⟨[⟨.type, 0, 10, 5, 11, (), 11⟩], _, rfl, ?_⟩,
    ⟨[⟨.coreModule, 0, 10, 9, 18, (), 18⟩], _, rfl, ?_⟩⟩
  · intro hexact
    exact absurd (hexact _ (List.mem_singleton_self _)) (by decide)
  · intro hexact
    exact absurd (hexact _ (List.mem_singleton_self _)) (by decide)

/-- A custom section of one byte, a type section without types, and a component without sections. -/
private def threeSections : List Byte :=
  header ++ [0x00, 0x01, 0xaa] ++ [0x07, 0x01, 0x00] ++ [0x04, 0x08] ++ header

theorem sections_exact_iff_three :
    ∃ sections c, parseComponent noDefinitions threeSections ⟨0, ()⟩ = .ok (sections, c) ∧
      sections.length = 3 ∧ ∀ r ∈ sections, r.Exact := by
  have hrun : parseComponent noDefinitions threeSections ⟨0, ()⟩ =
      .ok ([⟨.custom, 0, 10, 1, 24, (), 11⟩, ⟨.type, 0, 13, 1, 24, (), 14⟩,
        ⟨.component, 0, 16, 8, 24, (), 24⟩], ⟨24, ()⟩) := rfl
  refine ⟨_, _, hrun, rfl, (sections_exact_iff noDefinitions threeSections () hrun).mpr ?_⟩
  intro r hr
  simp only [List.mem_cons, List.not_mem_nil, or_false] at hr
  rcases hr with rfl | rfl | rfl
  · trivial
  · exact ⟨⟨14, ()⟩, rfl, rfl⟩
  · exact Nat.le_refl 24

end Telomere.Component
