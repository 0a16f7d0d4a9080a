import Telomere.Component.Allocator
import Telomere.Component.LoweredShape
import Telomere.Lib.LittleEndian
import Mathlib.Data.String.Basic

/-!
# Strings in the guest's memory

In each of the three encodings a string is read back as it was written, and lowering a string stores
it in a block of its own.
-/

namespace Telomere.Component

open Lib (Region Span Covered)

variable {σ : Type}

theorem fromLeBytes_eq (w : Nat) (bytes : List Byte) : fromLeBytes w bytes = Lib.leValue w bytes := by
  induction bytes with
  | nil => rfl
  | cons byte bytes ih =>
      unfold fromLeBytes at ih ⊢
      rw [List.foldr_cons, ih, Lib.leValue, BitVec.or_comm]

theorem fromLeBytes_toLeBytes {w count : Nat} (v : BitVec w) (hw : w ≤ 8 * count) :
    fromLeBytes w (toLeBytes count v) = v := by
  rw [fromLeBytes_eq]
  have h := Lib.leValue_leDigits (b := 8) (by decide) v hw
  rw [BitVec.setWidth_eq] at h
  exact h

private theorem toList_loop (bytes : ByteArray) (i : Nat) (read : List UInt8) :
    ByteArray.toList.loop bytes i read = read.reverse ++ bytes.data.toList.drop i := by
  fun_induction ByteArray.toList.loop bytes i read with
  | case1 i read hlt ih =>
      have hi : i < bytes.data.toList.length := by simpa using hlt
      have hget : bytes.get! i = bytes.data.toList[i] := getElem!_pos bytes.data i (by simpa using hi)
      rw [ih, List.drop_eq_getElem_cons hi, hget]
      simp
  | case2 i read hle =>
      have hnil : bytes.data.toList.drop i = [] := by
        apply List.drop_eq_nil_of_le
        simpa using hle
      rw [hnil, List.append_nil]

theorem asBytes_eq (s : String) : asBytes s = s.toByteArray.data.toList.map UInt8.toBitVec := by
  unfold asBytes ByteArray.toList
  rw [toList_loop]
  rfl

theorem length_asBytes (s : String) : (asBytes s).length = s.utf8ByteSize := by
  rw [asBytes_eq, List.length_map, Array.length_toList]
  rfl

theorem decodeUtf8_asBytes (s : String) : decodeUtf8 (asBytes s) = .ok s := by
  have hbytes : (⟨((asBytes s).map UInt8.ofBitVec).toArray⟩ : ByteArray) = s.toByteArray := by
    have hinverse : UInt8.ofBitVec ∘ UInt8.toBitVec = id := rfl
    rw [asBytes_eq, List.map_map, hinverse, List.map_id]
  have hvalid : String.fromUTF8? s.toByteArray = some s := by
    rw [String.fromUTF8?, dif_pos s.isValidUTF8]
    rfl
  unfold decodeUtf8
  rw [hbytes, hvalid]

theorem char_toNat_cases (c : Char) :
    c.toNat < 0xD800 ∨ 0xE000 ≤ c.toNat ∧ c.toNat < 0x110000 := by
  have := c.valid
  simp only [UInt32.isValidChar, Nat.isValidChar] at this
  change c.toNat < 0xD800 ∨ 0xDFFF < c.toNat ∧ c.toNat < 0x110000 at this
  omega

theorem charsFromUtf16_append (c : Char) (units : List (BitVec 16)) :
    charsFromUtf16 (encodeUtf16Char c ++ units) = (charsFromUtf16 units).map (c :: ·) := by
  have hc := char_toNat_cases c
  unfold encodeUtf16Char
  split
  · next hsmall =>
      have hnat : (BitVec.ofNat 16 c.toNat).toNat = c.toNat := by
        rw [BitVec.toNat_ofNat]
        exact Nat.mod_eq_of_lt hsmall
      rw [List.singleton_append, charsFromUtf16.eq_def]
      dsimp only
      rw [hnat, if_pos (by omega), Char.ofNat_toNat]
      cases charsFromUtf16 units <;> rfl
  · next hlarge =>
      have hhigh : (BitVec.ofNat 16 (0xD800 + (c.toNat - 0x10000) / 0x400)).toNat =
          0xD800 + (c.toNat - 0x10000) / 0x400 := by
        rw [BitVec.toNat_ofNat]
        apply Nat.mod_eq_of_lt
        omega
      have hlow : (BitVec.ofNat 16 (0xDC00 + (c.toNat - 0x10000) % 0x400)).toNat =
          0xDC00 + (c.toNat - 0x10000) % 0x400 := by
        rw [BitVec.toNat_ofNat]
        apply Nat.mod_eq_of_lt
        omega
      have hscalar : 0x10000 + (0xD800 + (c.toNat - 0x10000) / 0x400 - 0xD800) * 0x400 +
          (0xDC00 + (c.toNat - 0x10000) % 0x400 - 0xDC00) = c.toNat := by
        omega
      rw [List.cons_append, List.singleton_append, charsFromUtf16.eq_def]
      dsimp only
      rw [hhigh, hlow, if_neg (by omega), if_pos (by omega), hscalar, Char.ofNat_toNat]
      cases charsFromUtf16 units <;> rfl

theorem charsFromUtf16_encode (chars : List Char) :
    charsFromUtf16 (chars.flatMap encodeUtf16Char) = some chars := by
  induction chars with
  | nil => rfl
  | cons c chars ih => rw [List.flatMap_cons, charsFromUtf16_append, ih]; rfl

theorem unitsFromLe_toLeBytes (units : List (BitVec 16)) :
    unitsFromLe (units.flatMap (toLeBytes 2)) = units := by
  induction units with
  | nil => rfl
  | cons unit units ih =>
      have hbytes : toLeBytes 2 unit = [unit.extractLsb' 0 8, unit.extractLsb' 8 8] := rfl
      have hback := fromLeBytes_toLeBytes unit (by decide : 16 ≤ 8 * 2)
      rw [hbytes] at hback
      rw [List.flatMap_cons, hbytes]
      simp only [List.cons_append, List.nil_append, unitsFromLe]
      rw [hback, ih]

theorem decodeUtf16Le_encode (s : String) : decodeUtf16Le (encodeStringUtf16 s) = .ok s := by
  unfold decodeUtf16Le encodeStringUtf16
  rw [unitsFromLe_toLeBytes, charsFromUtf16_encode]
  simp

theorem length_encodeStringUtf16 (s : String) :
    (encodeStringUtf16 s).length = 2 * (s.toList.flatMap encodeUtf16Char).length := by
  unfold encodeStringUtf16
  rw [List.length_flatMap, List.map_congr_left (g := fun _ => 2) fun unit _ => length_toLeBytes unit]
  simp [Nat.mul_comm]

theorem length_encodeStringUtf16_le (s : String) :
    (encodeStringUtf16 s).length ≤ 2 * s.utf8ByteSize := by
  have hchars : ∀ chars : List Char,
      (chars.flatMap encodeUtf16Char).length ≤ (String.utf8Len chars) := by
    intro chars
    induction chars with
    | nil => exact Nat.le_refl _
    | cons c chars ih =>
        rw [List.flatMap_cons, List.length_append, String.utf8Len_cons]
        have hc : (encodeUtf16Char c).length ≤ c.utf8Size := by
          unfold encodeUtf16Char
          have := c.utf8Size_pos
          split
          · exact this
          · next hlarge =>
              have hfour := Char.utf8Size_eq_four_iff (c := c)
              have : 0xffff < c.val := by
                rw [UInt32.lt_iff_toNat_lt]
                change 0xffff < c.toNat
                omega
              rw [hfour.mpr this]
              simp
        omega
  have hsize := String.utf8ByteSize_ofList s.toList
  rw [String.ofList_toList] at hsize
  rw [length_encodeStringUtf16, hsize]
  have := hchars s.toList
  omega

theorem compactUtf16Tag_eq : compactUtf16Tag = BitVec.twoPow 32 31 := by decide

theorem tagged_ne_zero (len : BitVec 32) : (len ||| compactUtf16Tag) &&& compactUtf16Tag ≠ 0 := by
  intro h
  have hbit := congrArg (fun x => x.getLsbD 31) h
  simp [compactUtf16Tag] at hbit

section tag

variable {n : Nat}

private theorem length_bit (hn : n < 2 ^ 31) : (BitVec.ofNat 32 n).getLsbD 31 = false := by
  rw [BitVec.getLsbD_ofNat, Nat.testBit_lt_two_pow hn, Bool.and_false]

theorem untagged_eq_zero (hn : n < 2 ^ 31) : BitVec.ofNat 32 n &&& compactUtf16Tag = 0 := by
  rw [compactUtf16Tag_eq, BitVec.and_twoPow, length_bit hn]
  rfl

theorem untagged (hn : n < 2 ^ 31) :
    ((BitVec.ofNat 32 n ||| compactUtf16Tag) ^^^ compactUtf16Tag).toNat = n := by
  have hback : (BitVec.ofNat 32 n ||| compactUtf16Tag) ^^^ compactUtf16Tag = BitVec.ofNat 32 n := by
    apply BitVec.eq_of_getLsbD_eq
    intro i hi
    rw [compactUtf16Tag_eq, BitVec.getLsbD_xor, BitVec.getLsbD_or, BitVec.getLsbD_twoPow]
    by_cases htag : i = 31
    · subst htag
      rw [length_bit hn]
      rfl
    · have hne : ¬31 = i := fun h => htag h.symm
      simp [hne]
  rw [hback, BitVec.toNat_ofNat]
  exact Nat.mod_eq_of_lt (by omega)

end tag

/-- Beside `B` the host has one block, and has written nowhere else. -/
structure Scratch (alloc : Allocator σ) (B : List Region) (w w' : World σ) (b : Region) : Prop where
  holds : alloc.Holds w'.guest (b :: B)
  apart : ∀ addr, Span b.1 b.2 addr → ¬Covered B addr
  kept : ∀ addr, Covered B addr → w'.guest.memory.bytes addr = w.guest.memory.bytes addr
  inBounds : w'.guest.memory.InBounds b.1 b.2
  grown : w.guest.memory.size ≤ w'.guest.memory.size

section scratch

variable {alloc : Allocator σ} {B : List Region} {R : Nat → Prop} {w w₁ : World σ} {b : Region}

theorem Scratch.wrote (h : Scratch alloc B w w₁ b) : Wrote alloc B R w w₁ [b] where
  holds := h.holds
  apart := by
    intro addr hcovered
    rcases Lib.covered_cons.mp hcovered with hspan | hnil
    · exact h.apart addr hspan
    · exact absurd hnil Lib.covered_nil
  kept addr hB _ := h.kept addr hB
  grown := h.grown

theorem Scratch.of_served {w₂ : World σ} {old : Region} {ptr align newLen : Nat}
    (hkept : ∀ addr, Covered B addr → w₁.guest.memory.bytes addr = w.guest.memory.bytes addr)
    (hgrown : w.guest.memory.size ≤ w₁.guest.memory.size)
    (hserved : Served w₁.guest w₂.guest B old ptr align newLen)
    (hholds : alloc.Holds w₂.guest ((ptr, newLen) :: B)) : Scratch alloc B w w₂ (ptr, newLen) where
  holds := hholds
  apart := hserved.fresh
  kept addr hB := (hserved.kept addr hB).trans (hkept addr hB)
  inBounds := hserved.inBounds
  grown := Nat.le_trans hgrown hserved.grown

theorem allocate_scratch {align newLen : Nat} {allocation : String}
    (hholds : alloc.Holds w.guest B) (halign : align ∈ alignments) (hlen : newLen < 2 ^ 32) :
    Lib.Yields alloc.Refuses (allocate alloc.realloc 0 0 align newLen allocation) w fun ptr w' =>
      Scratch alloc B w w' (ptr, newLen) ∧ ptr % align = 0 := by
  refine Lib.Yields.mono (alloc.allocate_yields none hholds (by simp) halign hlen) ?_
  rintro ptr w' ⟨hserved, hholds', -⟩
  exact ⟨Scratch.of_served (fun _ _ => rfl) (Nat.le_refl _) hserved hholds', hserved.aligned⟩

/-- The block is given back for another, which starts with the same bytes. -/
theorem Scratch.again (h : Scratch alloc B w w₁ b) {align newLen : Nat} {allocation : String}
    (halign : align ∈ alignments) (hlen : newLen < 2 ^ 32) :
    Lib.Yields alloc.Refuses (allocate alloc.realloc b.1 b.2 align newLen allocation) w₁
      fun ptr w' => Scratch alloc B w w' (ptr, newLen) ∧ ptr % align = 0 ∧
        ∀ i < b.2, i < newLen →
          w'.guest.memory.bytes (ptr + i) = w₁.guest.memory.bytes (b.1 + i) := by
  refine Lib.Yields.mono (alloc.allocate_yields (some b) h.holds (by simp) halign hlen) ?_
  rintro ptr w' ⟨hserved, hholds', -⟩
  have hrest : without (b :: B) (some b) = B := by simp [without]
  rw [hrest] at hserved hholds'
  exact ⟨Scratch.of_served h.kept h.grown hserved hholds', hserved.aligned, hserved.copied⟩

theorem Scratch.write (h : Scratch alloc B w w₁ b) (ptr : Nat) (bytes : List Byte)
    (hle : b.1 ≤ ptr) (hend : ptr + bytes.length ≤ b.1 + b.2) :
    ∃ w₂, writeMemory ptr bytes w₁ = .ok ((), w₂) ∧ Scratch alloc B w w₂ b ∧
      w₂.guest.memory = w₁.guest.memory.write ptr bytes := by
  have hin : w₁.guest.memory.InBounds ptr bytes.length :=
    ⟨Nat.lt_of_le_of_lt hend h.inBounds.1, Nat.le_trans hend h.inBounds.2⟩
  refine ⟨_, writeMemory_eq_ok.mpr ⟨hin, rfl⟩, ?_, rfl⟩
  refine ⟨?_, h.apart, ?_, h.inBounds, h.grown⟩
  · apply alloc.write _ _ _ _ h.holds
    exact fun addr hspan => Lib.covered_cons.mpr (Or.inl (hspan.sub hle hend))
  · intro addr hB
    rw [← h.kept addr hB]
    apply LinearMemory.write_outside
    exact fun hspan => h.apart addr (hspan.sub hle hend) hB

theorem Scratch.stores (h : Scratch alloc B w w₁ b) {α : Type} {a : α}
    {Q : α → LinearMemory → Prop} (hq : ∀ m : LinearMemory, m.InBounds b.1 b.2 →
      (∀ addr, Span b.1 b.2 addr → m.bytes addr = w₁.guest.memory.bytes addr) → Q a m) :
    ∃ N, Wrote alloc B R w w₁ N ∧ ∀ m, LinearMemory.Same (fun addr => R addr ∨ Covered N addr)
      w₁.guest.memory m → Q a m := by
  refine ⟨[b], h.wrote, fun m hm => hq m (h.inBounds.mono hm.size) fun addr hspan => ?_⟩
  exact hm.bytes addr (Or.inr (Lib.covered_cons.mpr (Or.inl hspan)))

end scratch

/-- Lengths are 32-bit, the highest bit of a compact one is the tag. -/
def StringFits (s : String) : CanonicalStringEncoding → Prop
  | .utf8 => s.utf8ByteSize < 2 ^ 32
  | .utf16 => (encodeStringUtf16 s).length < 2 ^ 32
  | .compactUtf16 => s.utf8ByteSize < 2 ^ 32 ∧
      ((∀ c ∈ s.toList, c.toNat < 0x100) → s.toList.length < 2 ^ 31) ∧
      ((¬∀ c ∈ s.toList, c.toNat < 0x100) → 2 * s.utf8ByteSize < 2 ^ 32)

section strings

variable {alloc : Allocator σ} {B : List Region} {R : Nat → Prop} {w : World σ} {s : String}

/-- The core values of a string that is read back from the memory. -/
def StringAt (s : String) (encoding : CanonicalStringEncoding) (flat : List WasmValue)
    (m : LinearMemory) : Prop :=
  ∃ ptr len : BitVec 32, flat = [.i32 ptr, .i32 len] ∧
    readStringFromMemory m ptr.toNat len (some encoding) = .ok s

/-- A string of code units of `unit` bytes each. -/
theorem lowerEncoded_stores {bytes : List Byte} {align length : Nat} {allocation : String}
    {encoding : CanonicalStringEncoding} (hholds : alloc.Holds w.guest B)
    (halign : align ∈ alignments) (hlen : bytes.length < 2 ^ 32)
    (hread : ∀ m ptr, readMemory m ptr bytes.length = .ok bytes →
      readStringFromMemory m ptr (BitVec.ofNat 32 length) (some encoding) = .ok s) :
    Stores alloc B R (lowerEncoded alloc.realloc bytes align length allocation) w
      (StringAt s encoding) := by
  refine Lib.Yields.bind (allocate_scratch hholds halign hlen) ?_
  rintro ptr w₁ ⟨hscratch, -⟩
  obtain ⟨w₂, hwrite, hscratch₂, hmem⟩ :=
    hscratch.write ptr bytes (Nat.le_refl _) (Nat.le_refl _)
  have hptr : (BitVec.ofNat 32 ptr).toNat = ptr := by
    rw [BitVec.toNat_ofNat]
    apply Nat.mod_eq_of_lt
    have := hscratch.inBounds.1
    dsimp only at this
    omega
  refine Lib.Yields.ok_bind hwrite (Lib.Yields.pure (hscratch₂.stores ?_))
  intro m hin hsame
  refine ⟨_, _, rfl, ?_⟩
  rw [hptr]
  refine hread m ptr (readMemory_eq_ok.mpr ⟨hin, ?_⟩)
  rw [LinearMemory.read_congr hsame, hmem]
  exact LinearMemory.read_write _ _ _

def latin1Bytes (chars : List Char) : List Byte := chars.map fun c => BitVec.ofNat 8 c.toNat

theorem latin1_chars {chars : List Char} (h : ∀ c ∈ chars, c.toNat < 0x100) :
    (latin1Bytes chars).map (fun byte => Char.ofNat byte.toNat) = chars := by
  unfold latin1Bytes
  rw [List.map_map]
  conv_rhs => rw [← List.map_id chars]
  apply List.map_congr_left
  intro c hmem
  have hbyte : (BitVec.ofNat 8 c.toNat).toNat = c.toNat := by
    rw [BitVec.toNat_ofNat]
    exact Nat.mod_eq_of_lt (h c hmem)
  simp only [Function.comp_apply, id_eq, hbyte, Char.ofNat_toNat]

theorem writeLatin1_fits {w₁ : World σ} {ptr len : Nat} (chars : List Char)
    (hchars : ∀ c ∈ chars, c.toNat < 0x100) (before : List Byte)
    (hscratch : Scratch alloc B w w₁ (ptr, len)) (hlen : before.length + chars.length ≤ len)
    (hbefore : w₁.guest.memory.read ptr before.length = before) :
    ∃ w₂, writeLatin1 ptr before.length chars w₁ =
        .ok (some (before.length + chars.length), w₂) ∧ Scratch alloc B w w₂ (ptr, len) ∧
      w₂.guest.memory.read ptr (before.length + chars.length) = before ++ latin1Bytes chars := by
  induction chars generalizing before w₁ with
  | nil => exact ⟨w₁, rfl, hscratch, by simpa [latin1Bytes] using hbefore⟩
  | cons c chars ih =>
      have hc : ¬0x100 ≤ c.toNat := Nat.not_le.mpr (hchars c (List.mem_cons_self ..))
      have hin := hscratch.inBounds.1
      rw [List.length_cons] at hlen
      dsimp only at hin
      have haddr : u32Add ptr before.length = ptr + before.length := by
        apply Nat.mod_eq_of_lt
        omega
      obtain ⟨w₂, hwrite, hscratch₂, hmem⟩ := hscratch.write (ptr + before.length)
        [BitVec.ofNat 8 c.toNat] (by simp) (by simp; omega)
      have hnext : w₂.guest.memory.read ptr (before ++ [BitVec.ofNat 8 c.toNat]).length =
          before ++ [BitVec.ofNat 8 c.toNat] := by
        rw [List.length_append, LinearMemory.read_add, hmem, LinearMemory.read_write]
        congr 1
        rw [LinearMemory.read_congr, hbefore]
        intro addr hspan
        apply LinearMemory.write_outside
        unfold Span at hspan ⊢
        omega
      obtain ⟨w₃, hrest, hscratch₃, hread⟩ := ih (fun c hmem => hchars c (List.mem_cons_of_mem _ hmem))
        (before ++ [BitVec.ofNat 8 c.toNat]) hscratch₂ (by simp; omega) hnext
      refine ⟨w₃, ?_, hscratch₃, ?_⟩
      · rw [writeLatin1, if_neg hc, haddr, Lib.run_bind_eq_ok]
        refine ⟨(), w₂, hwrite, ?_⟩
        simpa [Nat.add_assoc, Nat.add_comm 1] using hrest
      · simpa [latin1Bytes, Nat.add_assoc, Nat.add_comm 1] using hread

theorem writeLatin1_stops {w₁ : World σ} {ptr len dstLen : Nat} (chars : List Char)
    (hchars : ¬∀ c ∈ chars, c.toNat < 0x100) (hscratch : Scratch alloc B w w₁ (ptr, len))
    (hlen : dstLen + chars.length ≤ len) :
    ∃ w₂, writeLatin1 ptr dstLen chars w₁ = .ok (none, w₂) ∧ Scratch alloc B w w₂ (ptr, len) := by
  induction chars generalizing dstLen w₁ with
  | nil => exact absurd (by simp) hchars
  | cons c chars ih =>
      unfold writeLatin1
      split
      · exact ⟨w₁, rfl, hscratch⟩
      · next hc =>
          have hin := hscratch.inBounds.1
          rw [List.length_cons] at hlen
          dsimp only at hin
          have haddr : u32Add ptr dstLen = ptr + dstLen := by
            apply Nat.mod_eq_of_lt
            omega
          obtain ⟨w₂, hwrite, hscratch₂, -⟩ := hscratch.write (ptr + dstLen)
            [BitVec.ofNat 8 c.toNat] (by simp) (by simp; omega)
          have hrest : ¬∀ c ∈ chars, c.toNat < 0x100 := by
            intro h
            apply hchars
            intro c' hmem
            rcases List.mem_cons.mp hmem with rfl | hmem
            · exact Nat.not_le.mp hc
            · exact h c' hmem
          obtain ⟨w₃, hrun, hscratch₃⟩ := ih hrest hscratch₂
            (by omega : dstLen + 1 + chars.length ≤ len)
          refine ⟨w₃, ?_, hscratch₃⟩
          rw [haddr, Lib.run_bind_eq_ok]
          exact ⟨(), w₂, hwrite, hrun⟩

theorem toNat_ofNat_of_lt {n : Nat} (hn : n < 2 ^ 32) : (BitVec.ofNat 32 n).toNat = n := by
  rw [BitVec.toNat_ofNat]
  exact Nat.mod_eq_of_lt hn

theorem shrink_scratch {w₁ : World σ} {ptr oldLen newLen : Nat}
    (hscratch : Scratch alloc B w w₁ (ptr, oldLen)) (haligned : ptr % 2 = 0) (hle : newLen ≤ oldLen)
    (hlen : oldLen < 2 ^ 32) :
    Lib.Yields alloc.Refuses (shrink alloc.realloc ptr oldLen newLen) w₁ fun ptr' w' =>
      Scratch alloc B w w' (ptr', newLen) ∧ ptr' % 2 = 0 ∧
        w'.guest.memory.read ptr' newLen = w₁.guest.memory.read ptr newLen := by
  unfold shrink
  split
  · refine Lib.Yields.mono (hscratch.again (by decide) (by omega)) ?_
    rintro ptr' w' ⟨hscratch', haligned', hcopied⟩
    refine ⟨hscratch', haligned', List.map_congr_left fun i hi => ?_⟩
    have := List.mem_range.mp hi
    exact hcopied i (by dsimp only; omega) this
  · have heq : newLen = oldLen := by omega
    subst heq
    exact Lib.Yields.pure ⟨hscratch, haligned, rfl⟩

theorem lowerLatin1_stores {w₁ : World σ} {ptr : Nat} (hchars : ∀ c ∈ s.toList, c.toNat < 0x100)
    (hscratch : Scratch alloc B w w₁ (ptr, s.utf8ByteSize)) (haligned : ptr % 2 = 0)
    (hle : s.toList.length ≤ s.utf8ByteSize) (hcount : s.toList.length < 2 ^ 31)
    (hlen : s.utf8ByteSize < 2 ^ 32)
    (hread : w₁.guest.memory.read ptr s.toList.length = latin1Bytes s.toList) :
    Lib.Yields alloc.Refuses (lowerLatin1 alloc.realloc ptr s.utf8ByteSize s.toList.length) w₁
      fun flat w' => ∃ N, Wrote alloc B R w w' N ∧
        ∀ m, LinearMemory.Same (fun addr => R addr ∨ Covered N addr) w'.guest.memory m →
          StringAt s .compactUtf16 flat m := by
  refine Lib.Yields.bind (shrink_scratch hscratch haligned hle hlen) ?_
  rintro ptr' w₂ ⟨hscratch₂, haligned₂, hread₂⟩
  refine Lib.Yields.pure (hscratch₂.stores ?_)
  intro m hin hsame
  refine ⟨_, _, rfl, ?_⟩
  have hptr : ptr' < 2 ^ 32 := by
    have := hscratch₂.inBounds.1
    dsimp only at this
    omega
  have hbytes : readMemory m ptr' s.toList.length = .ok (latin1Bytes s.toList) := by
    refine readMemory_eq_ok.mpr ⟨hin, ?_⟩
    rw [LinearMemory.read_congr hsame, hread₂, hread]
  unfold readStringFromMemory
  dsimp only [Option.getD_some]
  rw [toNat_ofNat_of_lt hptr, toNat_ofNat_of_lt (by omega), if_neg (by rw [haligned₂]; simp),
    if_neg (by rw [untagged_eq_zero hcount]; simp), hbytes, Lib.ok_bind, latin1_chars hchars, String.ofList_toList]
  rfl

theorem lowerTaggedUtf16_stores {w₁ : World σ} {ptr : Nat}
    (hscratch : Scratch alloc B w w₁ (ptr, s.utf8ByteSize)) (hlen : 2 * s.utf8ByteSize < 2 ^ 32) :
    Lib.Yields alloc.Refuses (lowerTaggedUtf16 alloc.realloc s ptr s.utf8ByteSize) w₁
      fun flat w' => ∃ N, Wrote alloc B R w w' N ∧
        ∀ m, LinearMemory.Same (fun addr => R addr ∨ Covered N addr) w'.guest.memory m →
          StringAt s .compactUtf16 flat m := by
  have hfit := length_encodeStringUtf16_le s
  have heven := length_encodeStringUtf16 s
  refine Lib.Yields.bind (hscratch.again (by decide) hlen) ?_
  rintro ptr₂ w₂ ⟨hscratch₂, haligned₂, -⟩
  obtain ⟨w₃, hwrite, hscratch₃, hmem⟩ :=
    hscratch₂.write ptr₂ (encodeStringUtf16 s) (Nat.le_refl _) (by dsimp only; omega)
  refine Lib.Yields.ok_bind hwrite ?_
  refine Lib.Yields.bind (shrink_scratch hscratch₃ haligned₂ hfit hlen) ?_
  rintro ptr₄ w₄ ⟨hscratch₄, haligned₄, hread⟩
  refine Lib.Yields.pure (hscratch₄.stores ?_)
  intro m hin hsame
  refine ⟨_, _, rfl, ?_⟩
  have hptr : ptr₄ < 2 ^ 32 := by
    have := hscratch₄.inBounds.1
    dsimp only at this
    omega
  have hhalf : (encodeStringUtf16 s).length / 2 * 2 = (encodeStringUtf16 s).length := by omega
  have hbytes : readMemory m ptr₄ (encodeStringUtf16 s).length = .ok (encodeStringUtf16 s) := by
    refine readMemory_eq_ok.mpr ⟨hin, ?_⟩
    rw [LinearMemory.read_congr hsame, hread, hmem]
    exact LinearMemory.read_write _ _ _
  unfold readStringFromMemory
  dsimp only [Option.getD_some]
  rw [toNat_ofNat_of_lt hptr, if_neg (by rw [haligned₄]; simp), if_pos (tagged_ne_zero _),
    untagged (by omega), hhalf, hbytes, Lib.ok_bind, decodeUtf16Le_encode]

theorem length_le_utf8ByteSize (s : String) : s.toList.length ≤ s.utf8ByteSize := by
  have hchars : ∀ chars : List Char, chars.length ≤ String.utf8Len chars := by
    intro chars
    induction chars with
    | nil => exact Nat.le_refl _
    | cons c chars ih =>
        have := c.utf8Size_pos
        rw [List.length_cons, String.utf8Len_cons]
        omega
  have hsize := String.utf8ByteSize_ofList s.toList
  rw [String.ofList_toList] at hsize
  rw [hsize]
  exact hchars s.toList

theorem lowerCompactUtf16String_stores (hholds : alloc.Holds w.guest B)
    (hfits : StringFits s .compactUtf16) :
    Stores alloc B R (lowerCompactUtf16String alloc.realloc s) w (StringAt s .compactUtf16) := by
  have hcount := length_le_utf8ByteSize s
  obtain ⟨hlen, hlatin1, hutf16⟩ := hfits
  refine Lib.Yields.bind (allocate_scratch hholds (by decide) hlen) ?_
  rintro ptr w₁ ⟨hscratch, haligned⟩
  by_cases hchars : ∀ c ∈ s.toList, c.toNat < 0x100
  · obtain ⟨w₂, hrun, hscratch₂, hread⟩ :=
      writeLatin1_fits s.toList hchars [] hscratch (by simpa using hcount) rfl
    simp only [List.length_nil, Nat.zero_add, List.nil_append] at hrun hread
    refine Lib.Yields.ok_bind hrun ?_
    exact lowerLatin1_stores hchars hscratch₂ haligned hcount (hlatin1 hchars) hlen hread
  · obtain ⟨w₂, hrun, hscratch₂⟩ :=
      writeLatin1_stops s.toList hchars hscratch (by omega : 0 + s.toList.length ≤ s.utf8ByteSize)
    refine Lib.Yields.ok_bind hrun ?_
    exact lowerTaggedUtf16_stores hscratch₂ (hutf16 hchars)

theorem lowerStringAs_stores (encoding : CanonicalStringEncoding) (hholds : alloc.Holds w.guest B)
    (hfits : StringFits s encoding) :
    Stores alloc B R (lowerStringAs alloc.realloc s encoding) w (StringAt s encoding) := by
  cases encoding with
  | utf8 =>
      have hlen : (asBytes s).length < 2 ^ 32 := by
        rw [length_asBytes]
        exact hfits
      refine lowerEncoded_stores hholds (by decide) hlen ?_
      intro m ptr hread
      unfold readStringFromMemory
      dsimp only [Option.getD_some]
      rw [toNat_ofNat_of_lt hlen, hread, Lib.ok_bind, decodeUtf8_asBytes]
  | utf16 =>
      have hlen : (encodeStringUtf16 s).length < 2 ^ 32 := hfits
      refine lowerEncoded_stores hholds (by decide) hlen ?_
      intro m ptr hread
      have heven := length_encodeStringUtf16 s
      have hhalf : (encodeStringUtf16 s).length / 2 * 2 = (encodeStringUtf16 s).length := by omega
      unfold readStringFromMemory
      dsimp only [Option.getD_some]
      rw [toNat_ofNat_of_lt (by omega), hhalf, hread, Lib.ok_bind, decodeUtf16Le_encode]
  | compactUtf16 => exact lowerCompactUtf16String_stores hholds hfits

end strings

end Telomere.Component
