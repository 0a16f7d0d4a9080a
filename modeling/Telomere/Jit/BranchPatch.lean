import Telomere.Jit.BranchEncoding

/-!
# Patching branches

A branch whose target is not known yet is emitted as a placeholder and written over later, through
`patch_branch` of its machine or, for the loops inside one operation on RISC-V, through `patch_b`.
Offsets into a buffer are below 2 ^ 63, so that their differences are exact.
-/

namespace Telomere.Jit

open Lib

abbrev Patched := Except AsmError Unit × List (BitVec 8)

/-- `get_mut(start..start + 4)` and `copy_from_slice(&word.to_le_bytes())` -/
def putWord (bytes : List (BitVec 8)) (start : Nat) (word : BitVec 32) : Patched :=
  if start + 4 ≤ bytes.length then (.ok (), overwrite bytes start (wordBytes word))
  else (.error .invalidImmediate, bytes)

/-- A patch is exact: it goes through when the distance fits, the branch read at its place then has the
same form and goes to the target, and nothing but the word at `field` has changed; a patch that is
refused changes nothing. -/
structure PatchExact {Form : Type} (decodeAt : List (BitVec 8) → Option (Form × Int)) (form : Form)
    (bytes : List (BitVec 8)) (field target : Nat) (fits : Prop) (result : Patched) : Prop where
  ok_iff : result.1 = .ok () ↔ fits
  decoded : result.1 = .ok () → decodeAt result.2 = some (form, (target : Int))
  length : result.2.length = bytes.length
  frame : ∀ i, i < field ∨ field + 4 ≤ i → result.2[i]? = bytes[i]?
  refused : result.1 ≠ .ok () → result.2 = bytes

namespace PatchExact

variable {Form : Type} {decodeAt : List (BitVec 8) → Option (Form × Int)} {form : Form}
  {bytes : List (BitVec 8)} {field target : Nat} {fits : Prop}

theorem of_error {e : AsmError} (h : ¬fits) :
    PatchExact decodeAt form bytes field target fits (.error e, bytes) where
  ok_iff := ⟨fun hok => absurd hok nofun, fun hfits => absurd hfits h⟩
  decoded hok := nomatch hok
  length := rfl
  frame _ _ := rfl
  refused _ := rfl

theorem of_putWord {word : BitVec 32} (hfits : fits) (hfield : field + 4 ≤ bytes.length)
    (hdecode : decodeAt (overwrite bytes field (wordBytes word)) = some (form, (target : Int))) :
    PatchExact decodeAt form bytes field target fits (putWord bytes field word) := by
  have hput : putWord bytes field word = (.ok (), overwrite bytes field (wordBytes word)) :=
    if_pos hfield
  rw [hput]
  exact {
    ok_iff := ⟨fun _ => hfits, fun _ => rfl⟩
    decoded := fun _ => hdecode
    length := length_overwrite hfield
    frame := fun i hi => hi.elim (overwrite_below hfield)
      (@overwrite_above _ bytes (wordBytes word) field i hfield)
    refused := fun hno => absurd rfl hno }

end PatchExact

namespace Riscv64

def patchBranch (bytes : List (BitVec 8)) (start target : Nat) (_kind : BranchKind) : Patched :=
  let delta : Int := (target : Int) - start
  if delta % 2 ≠ 0 then (.error .invalidImmediate, bytes)
  else
    match encodeJal 0 delta with
    | none => (.error .branchOutOfRange, bytes)
    | some insn => putWord bytes start insn

inductive Form where
  | jump
  | unless (funct3 : BitVec 3) (rs1 rs2 : BitVec 5)
deriving DecidableEq, Repr

/-- A comparison leaves in `t4` whether its inverse holds, a register is loaded into `t0`. -/
def formOf : BranchKind → Form
  | .b => .jump
  | .bCond _ => .unless 1 29 0
  | .cbnzX _ | .cbnzW _ => .unless 0 5 0

def jumpAt (bytes : List (BitVec 8)) (start : Nat) : Option Int :=
  match (wordAt bytes start).bind decode with
  | some (.jal rd offset) => if rd = 0 then some (start + offset) else none
  | _ => none

def guardAt (bytes : List (BitVec 8)) (start : Nat) : Option Form :=
  if start < 4 then none
  else
    match (wordAt bytes (start - 4)).bind decode with
    | some (.branch funct3 rs1 rs2 offset) =>
        if offset = 8 then some (.unless funct3 rs1 rs2) else none
    | _ => none

def decodeAt (kind : BranchKind) (start : Nat) (bytes : List (BitVec 8)) : Option (Form × Int) :=
  match kind with
  | .b => (jumpAt bytes start).map (.jump, ·)
  | _ => (guardAt bytes start).bind fun form => (jumpAt bytes start).map (form, ·)

def Emitted (kind : BranchKind) (bytes : List (BitVec 8)) (start : Nat) : Prop :=
  ∃ destination, decodeAt kind start bytes = some (formOf kind, destination)

def InReach (start target : Nat) : Prop :=
  ((target : Int) - start) % 2 = 0 ∧ -2 ^ 20 ≤ (target : Int) - start ∧
    (target : Int) - start ≤ 2 ^ 20 - 2

section patchBranch

variable {kind : BranchKind} {bytes : List (BitVec 8)} {start target : Nat}

theorem jumpAt_of_emitted (h : Emitted kind bytes start) : ∃ destination,
    jumpAt bytes start = some destination := by
  obtain ⟨destination, hdecode⟩ := h
  cases kind with
  | b =>
      obtain ⟨found, hjump, _⟩ := Option.map_eq_some_iff.mp hdecode
      exact ⟨found, hjump⟩
  | bCond cond | cbnzX reg | cbnzW reg =>
      obtain ⟨form, _, hmap⟩ := Option.bind_eq_some_iff.mp hdecode
      obtain ⟨found, hjump, _⟩ := Option.map_eq_some_iff.mp hmap
      exact ⟨found, hjump⟩

theorem guardAt_of_emitted (h : Emitted kind bytes start) (hkind : kind ≠ .b) :
    guardAt bytes start = some (formOf kind) := by
  obtain ⟨destination, hdecode⟩ := h
  cases kind with
  | b => exact absurd rfl hkind
  | bCond cond | cbnzX reg | cbnzW reg =>
      obtain ⟨form, hguard, hmap⟩ := Option.bind_eq_some_iff.mp hdecode
      obtain ⟨found, _, hpair⟩ := Option.map_eq_some_iff.mp hmap
      exact hguard.trans (congrArg some (congrArg Prod.fst hpair))

theorem length_of_jumpAt {destination : Int} (h : jumpAt bytes start = some destination) :
    start + 4 ≤ bytes.length := by
  cases hword : wordAt bytes start with
  | none => simp [jumpAt, hword] at h
  | some w => exact length_of_wordAt hword

theorem guardAt_overwrite {word : BitVec 32} (hlen : start + 4 ≤ bytes.length) :
    guardAt (overwrite bytes start (wordBytes word)) start = guardAt bytes start := by
  by_cases hsmall : start < 4
  · rw [guardAt, guardAt, if_pos hsmall, if_pos hsmall]
  · rw [guardAt, guardAt, wordAt_overwrite_of_apart hlen (.inl (by omega))]

theorem jumpAt_overwrite {offset : Int} {word : BitVec 32} (hlen : start + 4 ≤ bytes.length)
    (hword : encodeJal 0 offset = some word) :
    jumpAt (overwrite bytes start (wordBytes word)) start = some (start + offset) := by
  have hdecode : decode word = some (.jal 0 offset) := @decode_encodeJal 0 offset word hword
  rw [jumpAt, wordAt_overwrite hlen, Option.bind_some, hdecode]
  exact if_pos rfl

theorem decodeAt_of_parts {destination : Int} (hjump : jumpAt bytes start = some destination)
    (hguard : kind ≠ .b → guardAt bytes start = some (formOf kind)) :
    decodeAt kind start bytes = some (formOf kind, destination) := by
  cases kind with
  | b => rw [decodeAt, hjump, Option.map_some]; rfl
  | bCond cond | cbnzX reg | cbnzW reg =>
      have hform := hguard (by simp)
      simp only [decodeAt, hform, hjump, Option.bind_some, Option.map_some]

/-- Placeholders of every kind end in a jump, so that the kind does not matter. -/
theorem patchBranch_kept (h : Emitted kind bytes start) :
    PatchExact (decodeAt kind start) (formOf kind) bytes start target (InReach start target)
      (patchBranch bytes start target kind) := by
  obtain ⟨old, hold⟩ := jumpAt_of_emitted h
  have hlen := length_of_jumpAt hold
  by_cases hodd : ((target : Int) - start) % 2 ≠ 0
  · have hresult : patchBranch bytes start target kind = (.error .invalidImmediate, bytes) :=
      if_pos hodd
    rw [hresult]
    exact .of_error fun hfits => hodd hfits.1
  · have hiff := @encodeJal_isSome_iff 0 ((target : Int) - start)
    cases hword : encodeJal 0 ((target : Int) - start) with
    | none =>
        have hresult : patchBranch bytes start target kind = (.error .branchOutOfRange, bytes) := by
          simp only [patchBranch, if_neg hodd, hword]
        rw [hresult]
        refine .of_error fun hfits => ?_
        rw [hword] at hiff
        exact nomatch hiff.mpr hfits
    | some word =>
        have hresult : patchBranch bytes start target kind = putWord bytes start word := by
          simp only [patchBranch, if_neg hodd, hword]
        have hfits : InReach start target := hiff.mp (Option.isSome_of_eq_some hword)
        have hjump := jumpAt_overwrite hlen hword
        rw [show (start : Int) + (target - start) = target by omega] at hjump
        rw [hresult]
        refine .of_putWord hfits hlen (decodeAt_of_parts hjump fun hkind => ?_)
        rw [guardAt_overwrite hlen]
        exact guardAt_of_emitted h hkind

end patchBranch

/-- `.expect(..)` -/
def encoded (insn : Option (BitVec 32)) : Except AsmError (List (BitVec 8)) :=
  match insn with
  | some w => .ok (wordBytes w)
  | none => .error .panic

def jumpPlaceholder (before : List (BitVec 8)) : Except AsmError (List (BitVec 8) × Nat) := do
  return (before ++ (← encoded (encodeJal 0 0)), before.length)

/-- `load` is the code of `load_slot64` and `load_slot32` into `t0`, `compare` that of `emit_cmp_bool`
into `t4`. -/
def branchPlaceholder (load : Width → VReg → List (BitVec 8))
    (compare : LastCmp → Cond → Except AsmError (List (BitVec 8))) (lastCmp : Option LastCmp)
    (bytes : List (BitVec 8)) : BranchKind → Except AsmError (List (BitVec 8) × Nat)
  | .b => jumpPlaceholder bytes
  | .bCond cond =>
      match lastCmp with
      | none => .error .invalidImmediate
      | some cmp => do
          let before := bytes ++ (← compare cmp cond.inverted)
          jumpPlaceholder (before ++ (← encoded (encodeB 0b001 29 0 8)))
  | .cbnzX reg => do
      jumpPlaceholder (bytes ++ load .x64 reg ++ (← encoded (encodeB 0b000 5 0 8)))
  | .cbnzW reg => do
      jumpPlaceholder (bytes ++ load .w32 reg ++ (← encoded (encodeB 0b000 5 0 8)))

section branchPlaceholder

variable {before code : List (BitVec 8)} {start : Nat}

theorem encoded_eq_ok {insn : Option (BitVec 32)} (h : encoded insn = .ok code) :
    ∃ w, insn = some w ∧ code = wordBytes w := by
  cases insn with
  | none => cases h
  | some w => exact ⟨w, rfl, (Except.ok.inj h).symm⟩

theorem jumpPlaceholder_eq_ok (h : jumpPlaceholder before = .ok (code, start))
    (later : List (BitVec 8)) :
    start = before.length ∧ (∃ jump, code = before ++ jump) ∧
      jumpAt (code ++ later) start = some (start : Int) := by
  obtain ⟨jump, hjump, hok⟩ := Lib.bind_eq_ok.mp h
  obtain ⟨rfl, rfl⟩ := Prod.mk.inj (Except.ok.inj hok)
  obtain ⟨w, hw, rfl⟩ := encoded_eq_ok hjump
  have hdecode : decode w = some (.jal 0 0) := @decode_encodeJal 0 0 w hw
  refine ⟨rfl, ⟨_, rfl⟩, ?_⟩
  rw [jumpAt, List.append_assoc, wordAt_append, Option.bind_some, hdecode]
  exact congrArg some (Int.add_zero _)

theorem guardAt_append {funct3 : BitVec 3} {rs1 rs2 : BitVec 5} {w : BitVec 32}
    (hw : encodeB (funct3.setWidth 32) (rs1.setWidth 8) (rs2.setWidth 8) 8 = some w)
    (later : List (BitVec 8)) :
    guardAt (before ++ wordBytes w ++ later) (before ++ wordBytes w).length =
      some (.unless funct3 rs1 rs2) := by
  have hlength : (before ++ wordBytes w).length = before.length + 4 := List.length_append
  rw [hlength, guardAt, if_neg (by omega), Nat.add_sub_cancel, List.append_assoc, wordAt_append,
    Option.bind_some, decode_encodeB hw]
  exact if_pos rfl

theorem emitted_guarded {kind : BranchKind} {funct3 : BitVec 3} {rs1 rs2 : BitVec 5}
    (hkind : formOf kind = .unless funct3 rs1 rs2)
    (h : (do jumpPlaceholder (before ++
      (← encoded (encodeB (funct3.setWidth 32) (rs1.setWidth 8) (rs2.setWidth 8) 8)))) =
        .ok (code, start))
    (later : List (BitVec 8)) : Emitted kind (code ++ later) start := by
  obtain ⟨skip, hskip, hjumps⟩ := Lib.bind_eq_ok.mp h
  obtain ⟨w, hw, rfl⟩ := encoded_eq_ok hskip
  obtain ⟨rfl, ⟨jump, rfl⟩, hjump⟩ := jumpPlaceholder_eq_ok hjumps later
  refine ⟨_, decodeAt_of_parts hjump fun _ => ?_⟩
  rw [hkind, List.append_assoc]
  exact guardAt_append hw (jump ++ later)

theorem emitted_branchPlaceholder {load : Width → VReg → List (BitVec 8)}
    {compare : LastCmp → Cond → Except AsmError (List (BitVec 8))} {lastCmp : Option LastCmp}
    {bytes : List (BitVec 8)} {kind : BranchKind}
    (h : branchPlaceholder load compare lastCmp bytes kind = .ok (code, start))
    (later : List (BitVec 8)) : Emitted kind (code ++ later) start := by
  cases kind with
  | b =>
      obtain ⟨rfl, _, hjump⟩ := jumpPlaceholder_eq_ok h later
      exact ⟨_, decodeAt_of_parts hjump fun hkind => absurd rfl hkind⟩
  | bCond cond =>
      cases lastCmp with
      | none => cases h
      | some cmp =>
          obtain ⟨test, _, hguarded⟩ := Lib.bind_eq_ok.mp h
          exact @emitted_guarded (bytes ++ test) code start (.bCond cond) 1 29 0 rfl hguarded later
  | cbnzX reg =>
      exact @emitted_guarded (bytes ++ load .x64 reg) code start (.cbnzX reg) 0 5 0 rfl h later
  | cbnzW reg =>
      exact @emitted_guarded (bytes ++ load .w32 reg) code start (.cbnzW reg) 0 5 0 rfl h later

end branchPlaceholder

/-- The fields that are kept are read from the word that is there. -/
def patchB (bytes : List (BitVec 8)) (start target : Nat) : Patched :=
  match wordAt bytes start with
  | none => (.error .panic, bytes)
  | some old =>
      let funct3 := (old >>> 12) &&& 0x7
      let rs1 := ((old >>> 15) &&& 0x1f).setWidth 8
      let rs2 := ((old >>> 20) &&& 0x1f).setWidth 8
      match encodeB funct3 rs1 rs2 ((target : Int) - start) with
      | none => (.error .panic, bytes)
      | some insn => putWord bytes start insn

def branchAt (start : Nat) (bytes : List (BitVec 8)) : Option ((BitVec 3 × BitVec 5 × BitVec 5) × Int) :=
  match (wordAt bytes start).bind decode with
  | some (.branch funct3 rs1 rs2 offset) => some ((funct3, rs1, rs2), start + offset)
  | _ => none

def InReachB (start target : Nat) : Prop :=
  ((target : Int) - start) % 2 = 0 ∧ -4096 ≤ (target : Int) - start ∧ (target : Int) - start ≤ 4094

section patchB

variable {bytes : List (BitVec 8)} {start target : Nat} {funct3 : BitVec 3} {rs1 rs2 : BitVec 5}

theorem branchAt_fields {old : BitVec 32} {destination : Int} (hword : wordAt bytes start = some old)
    (h : branchAt start bytes = some ((funct3, rs1, rs2), destination)) :
    funct3 = (old >>> 12).setWidth 3 ∧ rs1 = (old >>> 15).setWidth 5 ∧
      rs2 = (old >>> 20).setWidth 5 := by
  rw [branchAt, hword, Option.bind_some, decode] at h
  split_ifs at h
  cases h
  exact ⟨rfl, rfl, rfl⟩

theorem kept_fields (old : BitVec 32) :
    (old >>> 12) &&& (0x7 : BitVec 32) = ((old >>> 12).setWidth 3).setWidth 32 ∧
      ((old >>> 15) &&& 0x1f).setWidth 8 = ((old >>> 15).setWidth 5).setWidth 8 ∧
      ((old >>> 20) &&& 0x1f).setWidth 8 = ((old >>> 20).setWidth 5).setWidth 8 := by
  refine ⟨?_, ?_, ?_⟩
  · apply BitVec.eq_of_getLsbD_eq
    intro i hi
    interval_cases i <;> simp
  · apply BitVec.eq_of_getLsbD_eq
    intro i hi
    interval_cases i <;> simp
  · apply BitVec.eq_of_getLsbD_eq
    intro i hi
    interval_cases i <;> simp

theorem branchAt_overwrite {offset : Int} {word : BitVec 32} (hlen : start + 4 ≤ bytes.length)
    (hword : encodeB (funct3.setWidth 32) (rs1.setWidth 8) (rs2.setWidth 8) offset = some word) :
    branchAt start (overwrite bytes start (wordBytes word)) =
      some ((funct3, rs1, rs2), start + offset) := by
  rw [branchAt, wordAt_overwrite hlen, Option.bind_some, decode_encodeB hword]

theorem patchB_kept {destination : Int}
    (h : branchAt start bytes = some ((funct3, rs1, rs2), destination)) :
    PatchExact (branchAt start) (funct3, rs1, rs2) bytes start target (InReachB start target)
      (patchB bytes start target) := by
  cases hold : wordAt bytes start with
  | none =>
      rw [branchAt, hold] at h
      cases h
  | some old =>
      have hlen := length_of_wordAt hold
      obtain ⟨rfl, rfl, rfl⟩ := branchAt_fields hold h
      obtain ⟨hfunct3, hrs1, hrs2⟩ := kept_fields old
      have hunfold : patchB bytes start target =
          match encodeB (((old >>> 12).setWidth 3).setWidth 32) (((old >>> 15).setWidth 5).setWidth 8)
            (((old >>> 20).setWidth 5).setWidth 8) ((target : Int) - start) with
          | none => (.error .panic, bytes)
          | some insn => putWord bytes start insn := by
        rw [← hfunct3, ← hrs1, ← hrs2]
        simp only [patchB, hold]
      have hiff := @encodeB_isSome_iff (((old >>> 12).setWidth 3).setWidth 32)
        (((old >>> 15).setWidth 5).setWidth 8) (((old >>> 20).setWidth 5).setWidth 8)
        ((target : Int) - start)
      rw [hunfold]
      split
      next hword =>
        refine .of_error fun hfits => ?_
        rw [hword] at hiff
        exact nomatch hiff.mpr hfits
      next word hword =>
        have hbranch := branchAt_overwrite hlen hword
        rw [show (start : Int) + (target - start) = target by omega] at hbranch
        exact .of_putWord (hiff.mp (Option.isSome_of_eq_some hword)) hlen hbranch

end patchB

end Riscv64

namespace Aarch64

def patchBranch (bytes : List (BitVec 8)) (start target : Nat) (kind : BranchKind) : Patched :=
  let delta : Int := (target : Int) - start
  if delta % 4 ≠ 0 then (.error .invalidImmediate, bytes)
  else
    match branchWord (delta / 4) kind with
    | .error e => (.error e, bytes)
    | .ok insn => putWord bytes start insn

def decodeAt (start : Nat) (bytes : List (BitVec 8)) : Option (BranchKind × Int) :=
  ((wordAt bytes start).bind decode).map fun found => (found.1, start + found.2)

def Emitted (kind : BranchKind) (bytes : List (BitVec 8)) (start : Nat) : Prop :=
  ∃ destination, decodeAt start bytes = some (kind, destination)

def InReach (kind : BranchKind) (start target : Nat) : Prop :=
  ((target : Int) - start) % 4 = 0 ∧ Reaches (((target : Int) - start) / 4) kind

theorem patchBranch_kept {kind : BranchKind} {bytes : List (BitVec 8)} {start target : Nat}
    (h : Emitted kind bytes start) :
    PatchExact (decodeAt start) kind bytes start target (InReach kind start target)
      (patchBranch bytes start target kind) := by
  obtain ⟨destination, hdecode⟩ := h
  obtain ⟨⟨found, offset⟩, hfound, hpair⟩ := Option.map_eq_some_iff.mp hdecode
  obtain rfl : found = kind := congrArg Prod.fst hpair
  obtain ⟨old, hold, hdecoded⟩ := Option.bind_eq_some_iff.mp hfound
  obtain ⟨word, hplaceholder⟩ := placeholder_of_decode hdecoded
  have hlen := length_of_wordAt hold
  have hiff := @branchWord_ok_iff (((target : Int) - start) / 4) found word hplaceholder
  by_cases hmod : ((target : Int) - start) % 4 ≠ 0
  · have hresult : patchBranch bytes start target found = (.error .invalidImmediate, bytes) :=
      if_pos hmod
    rw [hresult]
    exact .of_error fun hfits => hmod hfits.1
  · cases hword : branchWord (((target : Int) - start) / 4) found with
    | error e =>
        have hresult : patchBranch bytes start target found = (.error e, bytes) := by
          simp only [patchBranch, if_neg hmod, hword]
        rw [hresult]
        refine .of_error fun hfits => ?_
        obtain ⟨w, hw⟩ := hiff.mpr hfits.2
        rw [hword] at hw
        cases hw
    | ok w =>
        have hresult : patchBranch bytes start target found = putWord bytes start w := by
          simp only [patchBranch, if_neg hmod, hword]
        have hexact : (start : Int) + 4 * ((target - start) / 4) = target := by omega
        rw [hresult]
        refine .of_putWord ⟨by omega, hiff.mp ⟨w, hword⟩⟩ hlen ?_
        rw [decodeAt, wordAt_overwrite hlen, Option.bind_some, decode_branchWord hword,
          Option.map_some, hexact]

def branchPlaceholder (bytes : List (BitVec 8)) (kind : BranchKind) :
    Except AsmError (List (BitVec 8) × Nat) := do
  let word ← placeholder kind
  return (bytes ++ wordBytes word, bytes.length)

theorem emitted_branchPlaceholder {bytes code : List (BitVec 8)} {kind : BranchKind} {start : Nat}
    (h : branchPlaceholder bytes kind = .ok (code, start)) (later : List (BitVec 8)) :
    Emitted kind (code ++ later) start := by
  obtain ⟨word, hword, hok⟩ := Lib.bind_eq_ok.mp h
  obtain ⟨rfl, rfl⟩ := Prod.mk.inj (Except.ok.inj hok)
  refine ⟨bytes.length + 0, ?_⟩
  rw [decodeAt, List.append_assoc, wordAt_append, Option.bind_some, decode_placeholder hword,
    Option.map_some]

end Aarch64

/-! ## x86-64 -/

namespace X64

/-- Where the displacement stands, and the length of the instruction. -/
def dispAt (start : Nat) : BranchKind → Nat × Nat
  | .b => (start + 1, 5)
  | .bCond _ | .cbnzX _ | .cbnzW _ => (start + 2, 6)

/-- The displacement counts from the end of the instruction. -/
def patchBranch (bytes : List (BitVec 8)) (start target : Nat) (kind : BranchKind) : Patched :=
  let (field, insnLen) := dispAt start kind
  let disp : Int := (target : Int) - (start + insnLen : Nat)
  if ¬(-2 ^ 31 ≤ disp ∧ disp < 2 ^ 31) then (.error .branchOutOfRange, bytes)
  else putWord bytes field (BitVec.ofInt 32 disp)

def Emitted (kind : BranchKind) (bytes : List (BitVec 8)) (start : Nat) : Prop :=
  ∃ destination, decodeAt start bytes = some (formOf kind, destination)

def InReach (kind : BranchKind) (start target : Nat) : Prop :=
  -2 ^ 31 ≤ (target : Int) - (start + (dispAt start kind).2 : Nat) ∧
    (target : Int) - (start + (dispAt start kind).2 : Nat) < 2 ^ 31

section patchBranch

variable {kind : BranchKind} {bytes : List (BitVec 8)} {start target : Nat}

theorem decodeAt_eq_jmp_iff {destination : Int} :
    decodeAt start bytes = some (.jmp, destination) ↔ bytes[start]? = some 0xe9 ∧
      ∃ disp, wordAt bytes (start + 1) = some disp ∧ start + 5 + disp.toInt = destination := by
  rw [decodeAt]
  by_cases hjmp : bytes[start]? = some 0xe9
  · rw [if_pos hjmp, Option.map_eq_some_iff]
    simp only [hjmp, true_and, Prod.mk.injEq]
  · rw [if_neg hjmp]
    refine ⟨fun h => ?_, fun h => absurd h.1 hjmp⟩
    by_cases hjcc : bytes[start]? = some 0x0f
    · rw [if_pos hjcc] at h
      simp [Option.bind_eq_some_iff] at h
    · rw [if_neg hjcc] at h
      cases h

theorem decodeAt_eq_jcc_iff {cond : Cond} {destination : Int} :
    decodeAt start bytes = some (.jcc cond, destination) ↔ bytes[start]? = some 0x0f ∧
      bytes[start + 1]?.bind condOf = some cond ∧
      ∃ disp, wordAt bytes (start + 2) = some disp ∧ start + 6 + disp.toInt = destination := by
  rw [decodeAt]
  by_cases hjmp : bytes[start]? = some 0xe9
  · rw [if_pos hjmp]
    simp [hjmp]
  · rw [if_neg hjmp]
    by_cases hjcc : bytes[start]? = some 0x0f
    · rw [if_pos hjcc]
      simp only [hjcc, true_and, Option.bind_eq_some_iff, Option.map_eq_some_iff, Prod.mk.injEq,
        Form.jcc.injEq]
      constructor
      · rintro ⟨found, hfound, disp, hdisp, rfl, hdest⟩
        exact ⟨hfound, disp, hdisp, hdest⟩
      · rintro ⟨hfound, disp, hdisp, hdest⟩
        exact ⟨cond, hfound, disp, hdisp, rfl, hdest⟩
    · rw [if_neg hjcc]
      exact ⟨nofun, fun h => absurd h.1 hjcc⟩

theorem patchBranch_of_fits (h : InReach kind start target) :
    patchBranch bytes start target kind = putWord bytes (dispAt start kind).1
      (BitVec.ofInt 32 ((target : Int) - (start + (dispAt start kind).2 : Nat))) :=
  if_neg (not_not_intro h)

theorem toInt_of_fits (h : InReach kind start target) :
    (BitVec.ofInt 32 ((target : Int) - (start + (dispAt start kind).2 : Nat))).toInt =
      (target : Int) - (start + (dispAt start kind).2 : Nat) :=
  BitVec.toInt_ofInt_eq_self (by decide) h.1 h.2

theorem patch_jcc {cond : Cond} (hkind : dispAt start kind = (start + 2, 6))
    (hdecode : ∃ destination, decodeAt start bytes = some (.jcc cond, destination))
    (hfits : InReach kind start target) :
    PatchExact (decodeAt start) (.jcc cond) bytes (start + 2) target (InReach kind start target)
      (patchBranch bytes start target kind) := by
  obtain ⟨destination, hdecode⟩ := hdecode
  obtain ⟨hfirst, hsecond, disp, hdisp, _⟩ := decodeAt_eq_jcc_iff.mp hdecode
  have hlen := length_of_wordAt hdisp
  have hvalue := toInt_of_fits hfits
  have hresult := @patchBranch_of_fits kind bytes start target hfits
  rw [hkind] at hvalue hresult
  rw [hresult]
  refine .of_putWord hfits hlen (decodeAt_eq_jcc_iff.mpr ⟨?_, ?_, _, wordAt_overwrite hlen, ?_⟩)
  · rw [overwrite_below hlen (by omega), hfirst]
  · rw [overwrite_below hlen (by omega), hsecond]
  · rw [hvalue]
    push_cast
    omega

theorem patch_jmp (hdecode : ∃ destination, decodeAt start bytes = some (.jmp, destination))
    (hfits : InReach .b start target) :
    PatchExact (decodeAt start) .jmp bytes (start + 1) target (InReach .b start target)
      (patchBranch bytes start target .b) := by
  obtain ⟨destination, hdecode⟩ := hdecode
  obtain ⟨hfirst, disp, hdisp, _⟩ := decodeAt_eq_jmp_iff.mp hdecode
  have hlen := length_of_wordAt hdisp
  have hvalue := toInt_of_fits hfits
  rw [@patchBranch_of_fits .b bytes start target hfits]
  refine .of_putWord hfits hlen (decodeAt_eq_jmp_iff.mpr ⟨?_, _, wordAt_overwrite hlen, ?_⟩)
  · rw [overwrite_below hlen (by omega), hfirst]
  · rw [hvalue]
    simp only [dispAt]
    push_cast
    omega

theorem patchBranch_kept (h : Emitted kind bytes start) :
    PatchExact (decodeAt start) (formOf kind) bytes (dispAt start kind).1 target
      (InReach kind start target) (patchBranch bytes start target kind) := by
  by_cases hfits : InReach kind start target
  · cases kind with
    | b => exact patch_jmp h hfits
    | bCond cond | cbnzX reg | cbnzW reg => exact patch_jcc rfl h hfits
  · have hresult : patchBranch bytes start target kind = (.error .branchOutOfRange, bytes) :=
      if_pos hfits
    rw [hresult]
    exact .of_error hfits

end patchBranch

/-- `test` is the code that loads a register and sets the flags by it. -/
def branchPlaceholder (test : Width → VReg → List (BitVec 8)) (bytes : List (BitVec 8)) :
    BranchKind → List (BitVec 8) × Nat
  | .b => (bytes ++ [0xe9, 0, 0, 0, 0], bytes.length)
  | .bCond cond => (bytes ++ [0x0f, 0x80 ||| condBits cond, 0, 0, 0, 0], bytes.length)
  | .cbnzX reg =>
      let before := bytes ++ test .x64 reg
      (before ++ [0x0f, 0x85, 0, 0, 0, 0], before.length)
  | .cbnzW reg =>
      let before := bytes ++ test .w32 reg
      (before ++ [0x0f, 0x85, 0, 0, 0, 0], before.length)

theorem getElem?_code (before code later : List (BitVec 8)) {i : Nat} (hi : i < code.length) :
    (before ++ code ++ later)[before.length + i]? = code[i]? := by
  rw [List.append_assoc, List.getElem?_append_right (by omega), Nat.add_sub_cancel_left,
    List.getElem?_append_left hi]

theorem emitted_jcc (before later : List (BitVec 8)) (cond : Cond) :
    decodeAt before.length (before ++ [0x0f, 0x80 ||| condBits cond, 0, 0, 0, 0] ++ later) =
      some (Form.jcc cond, (before.length : Int) + 6) := by
  have hbyte {i : Nat} (hi : i < 6) := getElem?_code before
    [0x0f, 0x80 ||| condBits cond, 0, 0, 0, 0] later (i := i) hi
  have hfirst := hbyte (i := 0) (by decide)
  rw [Nat.add_zero] at hfirst
  refine decodeAt_eq_jcc_iff.mpr ⟨hfirst, ?_, 0, ?_, by simp⟩
  · rw [hbyte (by decide)]
    exact condOf_condBits cond
  · rw [wordAt, hbyte (by decide), Nat.add_assoc, hbyte (by decide), Nat.add_assoc,
      hbyte (by decide), Nat.add_assoc, hbyte (by decide)]
    rfl

theorem emitted_jmp (before later : List (BitVec 8)) :
    decodeAt before.length (before ++ [0xe9, 0, 0, 0, 0] ++ later) =
      some (Form.jmp, (before.length : Int) + 5) := by
  have hbyte {i : Nat} (hi : i < 5) := getElem?_code before [0xe9, 0, 0, 0, 0] later (i := i) hi
  have hfirst := hbyte (i := 0) (by decide)
  rw [Nat.add_zero] at hfirst
  refine decodeAt_eq_jmp_iff.mpr ⟨hfirst, 0, ?_, by simp⟩
  rw [wordAt, hbyte (by decide), Nat.add_assoc, hbyte (by decide), Nat.add_assoc,
    hbyte (by decide), Nat.add_assoc, hbyte (by decide)]
  rfl

theorem emitted_branchPlaceholder {test : Width → VReg → List (BitVec 8)}
    {bytes code : List (BitVec 8)} {kind : BranchKind} {start : Nat}
    (h : branchPlaceholder test bytes kind = (code, start)) (later : List (BitVec 8)) :
    Emitted kind (code ++ later) start := by
  cases kind with
  | b =>
      obtain ⟨rfl, rfl⟩ := Prod.mk.inj h
      exact ⟨_, emitted_jmp bytes later⟩
  | bCond cond =>
      obtain ⟨rfl, rfl⟩ := Prod.mk.inj h
      exact ⟨_, emitted_jcc bytes later cond⟩
  | cbnzX reg | cbnzW reg =>
      obtain ⟨rfl, rfl⟩ := Prod.mk.inj h
      exact ⟨_, emitted_jcc _ later .ne⟩

end X64

/-- What is emitted as a branch is patched exactly on every machine, and so are the branches within one
operation. -/
theorem patchBranch_exact :
    (∀ kind bytes start target, Riscv64.Emitted kind bytes start →
      PatchExact (Riscv64.decodeAt kind start) (Riscv64.formOf kind) bytes start target
        (Riscv64.InReach start target) (Riscv64.patchBranch bytes start target kind)) ∧
    (∀ kind bytes start target, X64.Emitted kind bytes start →
      PatchExact (X64.decodeAt start) (X64.formOf kind) bytes (X64.dispAt start kind).1 target
        (X64.InReach kind start target) (X64.patchBranch bytes start target kind)) ∧
    (∀ kind bytes start target, Aarch64.Emitted kind bytes start →
      PatchExact (Aarch64.decodeAt start) kind bytes start target (Aarch64.InReach kind start target)
        (Aarch64.patchBranch bytes start target kind)) ∧
    (∀ fields destination bytes start target,
      Riscv64.branchAt start bytes = some (fields, destination) →
      PatchExact (Riscv64.branchAt start) fields bytes start target (Riscv64.InReachB start target)
        (Riscv64.patchB bytes start target)) ∧
    (∀ (funct3 : BitVec 3) (rs1 rs2 : BitVec 5) (offset : Int),
      let encoded := Riscv64.encodeB (funct3.setWidth 32) (rs1.setWidth 8) (rs2.setWidth 8) offset
      (encoded.isSome ↔ offset % 2 = 0 ∧ -4096 ≤ offset ∧ offset ≤ 4094) ∧
      ∀ w, encoded = some w → Riscv64.decode w = some (.branch funct3 rs1 rs2 offset)) := by
  refine ⟨?_, ?_, ?_, ?_, ?_⟩
  · intro kind bytes start target h
    exact Riscv64.patchBranch_kept h
  · intro kind bytes start target h
    exact X64.patchBranch_kept h
  · intro kind bytes start target h
    exact Aarch64.patchBranch_kept h
  · intro fields destination bytes start target h
    exact Riscv64.patchB_kept h
  · intro funct3 rs1 rs2 offset
    exact ⟨Riscv64.encodeB_isSome_iff, fun w hw => Riscv64.decode_encodeB hw⟩

theorem patchBranch_exact_placeholders :
    PatchExact (Riscv64.decodeAt (.cbnzW 0) 4) (.unless 0 5 0)
      [0x63, 0x84, 0x02, 0x00, 0x6f, 0x00, 0x00, 0x00] 4 8 (Riscv64.InReach 4 8)
      (Riscv64.patchBranch [0x63, 0x84, 0x02, 0x00, 0x6f, 0x00, 0x00, 0x00] 4 8 (.cbnzW 0)) ∧
    PatchExact (X64.decodeAt 0) (.jcc .lt) [0x0f, 0x8c, 0, 0, 0, 0] 2 6 (X64.InReach (.bCond .lt) 0 6)
      (X64.patchBranch [0x0f, 0x8c, 0, 0, 0, 0] 0 6 (.bCond .lt)) ∧
    PatchExact (Aarch64.decodeAt 0) (.cbnzX 3) [0x03, 0x00, 0x00, 0xb5] 0 4
      (Aarch64.InReach (.cbnzX 3) 0 4) (Aarch64.patchBranch [0x03, 0x00, 0x00, 0xb5] 0 4 (.cbnzX 3)) ∧
    PatchExact (Riscv64.branchAt 0) (0, 5, 0) [0x63, 0x80, 0x02, 0x00] 0 4 (Riscv64.InReachB 0 4)
      (Riscv64.patchB [0x63, 0x80, 0x02, 0x00] 0 4) ∧
    (Riscv64.encodeB 1 29 0 8).isSome :=
  ⟨patchBranch_exact.1 (.cbnzW 0) _ 4 8 ⟨4, by decide⟩,
    patchBranch_exact.2.1 (.bCond .lt) _ 0 6 ⟨6, by decide⟩,
    patchBranch_exact.2.2.1 (.cbnzX 3) _ 0 4 ⟨0, by decide⟩,
    patchBranch_exact.2.2.2.1 (0, 5, 0) 0 _ 0 4 (by decide),
    (patchBranch_exact.2.2.2.2 1 29 0 8).1.mpr (by decide)⟩

end Telomere.Jit
