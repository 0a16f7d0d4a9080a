import Telomere.Component.Lift
import Telomere.Lib.Regions

/-!
# A guest that allocates well

What is asked of `realloc`: aligned blocks inside of the memory, apart from everything that is handed
out, which it leaves as it is. It may also refuse. Beside that, what a run of the host stores there
stays readable as long as nothing else is written to the same places.
-/

namespace Telomere.Component

open Lib (Region Span Covered)

variable {σ α β : Type}

namespace LinearMemory

theorem write_at {m : LinearMemory} {ptr i : Nat} {bytes : List Byte} (hi : i < bytes.length) :
    (m.write ptr bytes).bytes (ptr + i) = bytes[i] := by
  simp [write, hi]

theorem write_outside {m : LinearMemory} {ptr addr : Nat} {bytes : List Byte}
    (h : ¬Span ptr bytes.length addr) : (m.write ptr bytes).bytes addr = m.bytes addr := by
  unfold write
  dsimp only
  split
  · next hle =>
      have hlen : bytes.length ≤ addr - ptr := by
        unfold Span at h
        omega
      simp [List.getD_eq_getElem?_getD, List.getElem?_eq_none hlen]
  · rfl

theorem read_write (m : LinearMemory) (ptr : Nat) (bytes : List Byte) :
    (m.write ptr bytes).read ptr bytes.length = bytes := by
  apply List.ext_getElem
  · simp [read]
  · intro i hi hi'
    simp only [read, List.getElem_map, List.getElem_range]
    exact write_at hi'

theorem read_congr {m m' : LinearMemory} {ptr len : Nat}
    (h : ∀ addr, Span ptr len addr → m'.bytes addr = m.bytes addr) :
    m'.read ptr len = m.read ptr len := by
  apply List.map_congr_left
  intro i hi
  have := List.mem_range.mp hi
  exact h _ ⟨by omega, by omega⟩

theorem read_add (m : LinearMemory) (ptr len len' : Nat) :
    m.read ptr (len + len') = m.read ptr len ++ m.read (ptr + len) len' := by
  unfold read
  rw [List.range_add, List.map_append, List.map_map]
  congr 1
  apply List.map_congr_left
  intro i _
  simp only [Function.comp_apply, Nat.add_assoc]

/-- The other memory is no smaller and has the same bytes at some addresses. -/
structure Same (A : Nat → Prop) (m m' : LinearMemory) : Prop where
  size : m.size ≤ m'.size
  bytes : ∀ addr, A addr → m'.bytes addr = m.bytes addr

theorem Same.mono {A A' : Nat → Prop} {m m' : LinearMemory} (h : Same A m m')
    (hsub : ∀ addr, A' addr → A addr) : Same A' m m' :=
  ⟨h.size, fun addr hA => h.bytes addr (hsub addr hA)⟩

theorem InBounds.mono {m m' : LinearMemory} {ptr len : Nat} (h : m.InBounds ptr len)
    (hsize : m.size ≤ m'.size) : m'.InBounds ptr len :=
  ⟨h.1, Nat.le_trans h.2 hsize⟩

end LinearMemory

theorem readMemory_eq_ok {m : LinearMemory} {ptr len : Nat} {bytes : List Byte} :
    readMemory m ptr len = .ok bytes ↔ m.InBounds ptr len ∧ m.read ptr len = bytes := by
  unfold readMemory
  split
  · next h => simp [h]
  · next h => simp [h]

def reallocArgs (old : Region) (align newLen : Nat) : List WasmValue :=
  [old.1, old.2, align, newLen].map fun n => .i32 (BitVec.ofNat 32 n)

def without (blocks : List Region) : Option Region → List Region
  | none => blocks
  | some old => blocks.erase old

/-- A block for an old one, `rest` being what else is handed out. -/
structure Served (g g' : Guest σ) (rest : List Region) (old : Region) (ptr align newLen : Nat) :
    Prop where
  aligned : ptr % align = 0
  inBounds : g'.memory.InBounds ptr newLen
  fresh : ∀ addr, Span ptr newLen addr → ¬Covered rest addr
  kept : ∀ addr, Covered rest addr → g'.memory.bytes addr = g.memory.bytes addr
  copied : ∀ i < old.2, i < newLen → g'.memory.bytes (ptr + i) = g.memory.bytes (old.1 + i)
  grown : g.memory.size ≤ g'.memory.size

def alignments : List Nat := [1, 2, 4, 8]

/-- `Holds` says what is handed out; the host writes nowhere else. The old block is none or one that
was handed out. -/
structure Allocator (σ : Type) where
  realloc : List WasmValue → Lib.Run (Guest σ) ComponentError (List WasmValue)
  Refuses : ComponentError → Prop
  Holds : Guest σ → List Region → Prop
  write : ∀ g blocks ptr bytes, Holds g blocks →
    (∀ addr, Span ptr bytes.length addr → Covered blocks addr) →
      Holds { g with memory := g.memory.write ptr bytes } blocks
  serves : ∀ g blocks (old : Option Region) align newLen, Holds g blocks →
    (∀ b, old = some b → b ∈ blocks) → align ∈ alignments → newLen < 2 ^ 32 →
      Lib.Yields Refuses (realloc (reallocArgs (old.getD (0, 0)) align newLen)) g fun results g' =>
        ∃ ptr : BitVec 32, results = [.i32 ptr] ∧
          Served g g' (without blocks old) (old.getD (0, 0)) ptr.toNat align newLen ∧
          Holds g' ((ptr.toNat, newLen) :: without blocks old)

namespace Allocator

variable {alloc : Allocator σ} {w w' : World σ} {B : List Region}

theorem callRealloc_ok {place : Region} {align newLen : Nat} {ptr : BitVec 32} {guest : Guest σ}
    (h : alloc.realloc (reallocArgs place align newLen) w.guest = .ok ([.i32 ptr], guest)) :
    callRealloc alloc.realloc place.1 place.2 align newLen w =
      .ok (ptr.toNat, { w with guest }) := by
  unfold callRealloc
  change (alloc.realloc (reallocArgs place align newLen) w.guest >>= _) = _
  rw [h]
  rfl

theorem callRealloc_error {place : Region} {align newLen : Nat} {e : ComponentError}
    (h : alloc.realloc (reallocArgs place align newLen) w.guest = .error e) :
    callRealloc alloc.realloc place.1 place.2 align newLen w = .error e := by
  unfold callRealloc
  change (alloc.realloc (reallocArgs place align newLen) w.guest >>= _) = _
  rw [h]
  rfl

theorem allocate_yields (old : Option Region) {align newLen : Nat} {allocation : String}
    (hholds : alloc.Holds w.guest B) (hold : ∀ b, old = some b → b ∈ B)
    (halign : align ∈ alignments) (hlen : newLen < 2 ^ 32) :
    Lib.Yields alloc.Refuses (allocate alloc.realloc (old.getD (0, 0)).1 (old.getD (0, 0)).2 align
      newLen allocation) w fun ptr w' =>
        Served w.guest w'.guest (without B old) (old.getD (0, 0)) ptr align newLen ∧
          alloc.Holds w'.guest ((ptr, newLen) :: without B old) ∧ ptr < 2 ^ 32 := by
  have hserved := alloc.serves w.guest B old align newLen hholds hold halign hlen
  generalize old.getD (0, 0) = place at hserved ⊢
  have hcall : Lib.Yields alloc.Refuses (callRealloc alloc.realloc place.1 place.2 align newLen) w
      fun ptr w' => Served w.guest w'.guest (without B old) place ptr align newLen ∧
        alloc.Holds w'.guest ((ptr, newLen) :: without B old) ∧ ptr < 2 ^ 32 := by
    unfold Lib.Yields at hserved ⊢
    cases hfirst : alloc.realloc (reallocArgs place align newLen) w.guest with
    | error e =>
        rw [hfirst] at hserved
        rw [callRealloc_error hfirst]
        exact hserved
    | ok r =>
        rw [hfirst] at hserved
        obtain ⟨ptr, hresults, hserved, hholds'⟩ := hserved
        obtain ⟨results, g'⟩ := r
        obtain rfl : results = [.i32 ptr] := hresults
        rw [callRealloc_ok hfirst]
        exact ⟨hserved, hholds', ptr.isLt⟩
  refine Lib.Yields.bind hcall ?_
  intro ptr w₁ h
  have hvalid : validateReallocPointerAlignment ptr align allocation = .ok () := by
    unfold validateReallocPointerAlignment
    rw [if_neg (by rw [h.1.aligned]; simp)]
  rw [hvalid, Lib.lift_ok_bind]
  exact Lib.Yields.pure h

end Allocator

/-- From `w`, where `B` was handed out, to `w'`, where `N` is too: of the places in `B` only those in
`R` were written. -/
structure Wrote (alloc : Allocator σ) (B : List Region) (R : Nat → Prop) (w w' : World σ)
    (N : List Region) : Prop where
  holds : alloc.Holds w'.guest (N ++ B)
  apart : ∀ addr, Covered N addr → ¬Covered B addr
  kept : ∀ addr, Covered B addr → ¬R addr →
    w'.guest.memory.bytes addr = w.guest.memory.bytes addr
  grown : w.guest.memory.size ≤ w'.guest.memory.size

/-- The run ends in a state where `Q` is true of the memory, also after changes elsewhere. -/
def Stores (alloc : Allocator σ) (B : List Region) (R : Nat → Prop) (x : Canon σ α) (w : World σ)
    (Q : α → LinearMemory → Prop) : Prop :=
  Lib.Yields alloc.Refuses x w fun a w' => ∃ N, Wrote alloc B R w w' N ∧
    ∀ m, LinearMemory.Same (fun addr => R addr ∨ Covered N addr) w'.guest.memory m → Q a m

structure Area (B : List Region) (w : World σ) (ptr size : Nat) : Prop where
  inBounds : w.guest.memory.InBounds ptr size
  covered : ∀ addr, Span ptr size addr → Covered B addr

/-- What is handed out and the memory have not become less. -/
structure Grown (B : List Region) (w : World σ) (B' : List Region) (w' : World σ) : Prop where
  covered : ∀ addr, Covered B addr → Covered B' addr
  size : w.guest.memory.size ≤ w'.guest.memory.size

theorem Area.mono {B B' : List Region} {w w' : World σ} {ptr size : Nat} (h : Area B w ptr size)
    (hgrown : Grown B w B' w') : Area B' w' ptr size :=
  ⟨h.inBounds.mono hgrown.size, fun addr hspan => hgrown.covered addr (h.covered addr hspan)⟩

theorem Area.sub {B : List Region} {w : World σ} {ptr size ptr' size' : Nat} (h : Area B w ptr size)
    (hle : ptr ≤ ptr') (hend : ptr' + size' ≤ ptr + size) : Area B w ptr' size' := by
  refine ⟨⟨?_, ?_⟩, fun addr hspan => h.covered addr (hspan.sub hle hend)⟩
  · exact Nat.lt_of_le_of_lt hend h.inBounds.1
  · exact Nat.le_trans hend h.inBounds.2

section stores

variable {alloc : Allocator σ} {B : List Region} {R R' : Nat → Prop} {w : World σ}
  {P Q : α → LinearMemory → Prop}

theorem Wrote.refl (hholds : alloc.Holds w.guest B) : Wrote alloc B R w w [] where
  holds := hholds
  apart _ h := absurd h Lib.covered_nil
  kept _ _ _ := rfl
  grown := Nat.le_refl _

theorem Wrote.trans {w₁ w₂ : World σ} {N₁ N₂ : List Region} (h₁ : Wrote alloc B R w w₁ N₁)
    (h₂ : Wrote alloc (N₁ ++ B) R' w₁ w₂ N₂) :
    Wrote alloc B (fun addr => R addr ∨ R' addr) w w₂ (N₂ ++ N₁) where
  holds := by
    rw [List.append_assoc]
    exact h₂.holds
  apart := by
    intro addr hcovered hB
    rcases Lib.covered_append.mp hcovered with h | h
    · exact h₂.apart addr h (Lib.covered_append.mpr (Or.inr hB))
    · exact h₁.apart addr h hB
  kept := by
    intro addr hB hR
    rw [h₂.kept addr (Lib.covered_append.mpr (Or.inr hB)) fun h => hR (Or.inr h)]
    exact h₁.kept addr hB fun h => hR (Or.inl h)
  grown := Nat.le_trans h₁.grown h₂.grown

theorem Wrote.covers {w₁ : World σ} {N : List Region} (h : Wrote alloc B R w w₁ N) :
    Grown B w (N ++ B) w₁ :=
  ⟨fun _ hB => Lib.covered_append.mpr (Or.inr hB), h.grown⟩

/-- What the first part stored is still there after the second, which writes elsewhere. -/
theorem Wrote.same_after {w₁ w₂ : World σ} {N₁ N₂ : List Region} (h₁ : Wrote alloc B R w w₁ N₁)
    (h₂ : Wrote alloc (N₁ ++ B) R' w₁ w₂ N₂) (hR : ∀ addr, R addr → Covered B addr)
    (hR' : ∀ addr, R' addr → Covered B addr) (hapart : ∀ addr, R addr → ¬R' addr) {m : LinearMemory}
    (hm : LinearMemory.Same (fun addr => (R addr ∨ R' addr) ∨ Covered (N₂ ++ N₁) addr)
      w₂.guest.memory m) :
    LinearMemory.Same (fun addr => R addr ∨ Covered N₁ addr) w₁.guest.memory m where
  size := Nat.le_trans h₂.grown hm.size
  bytes := by
    intro addr h
    have hm' := hm.bytes addr
    rcases h with h | h
    · rw [hm' (Or.inl (Or.inl h))]
      exact h₂.kept addr (Lib.covered_append.mpr (Or.inr (hR addr h))) (hapart addr h)
    · rw [hm' (Or.inr (Lib.covered_append.mpr (Or.inr h)))]
      refine h₂.kept addr (Lib.covered_append.mpr (Or.inl h)) fun h' => ?_
      exact h₁.apart addr h (hR' addr h')

namespace Stores

theorem pure {a : α} (hholds : alloc.Holds w.guest B) (hq : ∀ m, Q a m) :
    Stores alloc B R (pure a) w Q :=
  Lib.Yields.pure ⟨[], Wrote.refl hholds, fun m _ => hq m⟩

theorem mono {x : Canon σ α} (hx : Stores alloc B R x w P) (hR : ∀ addr, R addr → R' addr)
    (h : ∀ a m, P a m → Q a m) : Stores alloc B R' x w Q := by
  refine Lib.Yields.mono hx ?_
  rintro a w' ⟨N, hwrote, hstored⟩
  refine ⟨N, { hwrote with kept := ?_ }, ?_⟩
  · exact fun addr hB hR' => hwrote.kept addr hB fun h => hR' (hR addr h)
  · intro m hm
    refine h a m (hstored m (hm.mono ?_))
    exact fun addr hA => hA.imp (hR addr) id

theorem bind {x : Canon σ α} {f : α → Canon σ β} {Q : β → LinearMemory → Prop}
    (hR : ∀ addr, R addr → Covered B addr) (hR' : ∀ addr, R' addr → Covered B addr)
    (hapart : ∀ addr, R addr → ¬R' addr) (hx : Stores alloc B R x w P)
    (hf : ∀ a w₁ B₁, alloc.Holds w₁.guest B₁ → Grown B w B₁ w₁ → (∃ m, P a m) →
      Stores alloc B₁ R' (f a) w₁ fun b m => P a m → Q b m) :
    Stores alloc B (fun addr => R addr ∨ R' addr) (x >>= f) w Q := by
  refine Lib.Yields.bind hx ?_
  rintro a w₁ ⟨N₁, hfirst, hstored⟩
  have hself : P a w₁.guest.memory := hstored _ ⟨Nat.le_refl _, fun _ _ => rfl⟩
  refine Lib.Yields.mono (hf a w₁ _ hfirst.holds hfirst.covers ⟨_, hself⟩) ?_
  rintro b w₂ ⟨N₂, hrest, hstored'⟩
  refine ⟨N₂ ++ N₁, hfirst.trans hrest, ?_⟩
  intro m hm
  refine hstored' m (hm.mono ?_) (hstored m (hfirst.same_after hrest hR hR' hapart hm))
  intro addr h
  rcases h with h | h
  · exact Or.inl (Or.inr h)
  · exact Or.inr (Lib.covered_append.mpr (Or.inl h))

end Stores

theorem Stores.writeMemory {ptr : Nat} {bytes : List Byte} (hholds : alloc.Holds w.guest B)
    (harea : Area B w ptr bytes.length) :
    Stores alloc B (Span ptr bytes.length) (writeMemory ptr bytes) w fun _ m =>
      readMemory m ptr bytes.length = .ok bytes := by
  let guest : Guest σ := { w.guest with memory := w.guest.memory.write ptr bytes }
  have hrun : Component.writeMemory ptr bytes w =
      .ok ((), { guest := guest, writes := (ptr, bytes.length) :: w.writes }) := by
    unfold Component.writeMemory
    rw [if_pos harea.inBounds]
  refine Lib.Yields.of_ok hrun ⟨[], ⟨?_, ?_, ?_, Nat.le_refl _⟩, ?_⟩
  · exact alloc.write _ _ _ _ hholds harea.covered
  · exact fun _ h => absurd h Lib.covered_nil
  · exact fun addr _ h => LinearMemory.write_outside h
  · intro m hm
    refine readMemory_eq_ok.mpr ⟨harea.inBounds.mono hm.size, ?_⟩
    rw [LinearMemory.read_congr fun addr h => hm.bytes addr (Or.inl h)]
    exact LinearMemory.read_write _ _ _

theorem Stores.allocate_bind {align newLen : Nat} {allocation : String} {f : Nat → Canon σ β}
    {Q : β → LinearMemory → Prop} (hholds : alloc.Holds w.guest B) (halign : align ∈ alignments)
    (hlen : newLen < 2 ^ 32)
    (hf : ∀ ptr w₁, alloc.Holds w₁.guest ((ptr, newLen) :: B) →
      Grown B w ((ptr, newLen) :: B) w₁ → Area ((ptr, newLen) :: B) w₁ ptr newLen →
      ptr % align = 0 →
      Stores alloc ((ptr, newLen) :: B) (fun addr => R addr ∨ Span ptr newLen addr) (f ptr) w₁ Q) :
    Stores alloc B R (allocate alloc.realloc 0 0 align newLen allocation >>= f) w Q := by
  refine Lib.Yields.bind (alloc.allocate_yields none hholds (by simp) halign hlen) ?_
  rintro ptr w₁ ⟨hserved, hholds₁, hptr⟩
  have hgrown : Grown B w ((ptr, newLen) :: B) w₁ :=
    ⟨fun addr h => Lib.covered_cons.mpr (Or.inr h), hserved.grown⟩
  have harea : Area ((ptr, newLen) :: B) w₁ ptr newLen :=
    ⟨hserved.inBounds, fun addr h => Lib.covered_cons.mpr (Or.inl h)⟩
  refine Lib.Yields.mono (hf ptr w₁ hholds₁ hgrown harea hserved.aligned) ?_
  rintro b w₂ ⟨N, hwrote, hstored⟩
  refine ⟨N ++ [(ptr, newLen)], ⟨?_, ?_, ?_, Nat.le_trans hserved.grown hwrote.grown⟩, ?_⟩
  · rw [List.append_assoc]
    exact hwrote.holds
  · intro addr hcovered hB
    rcases Lib.covered_append.mp hcovered with h | h
    · exact hwrote.apart addr h (hgrown.covered addr hB)
    · rcases Lib.covered_cons.mp h with h | h
      · exact hserved.fresh addr h hB
      · exact Lib.covered_nil h
  · intro addr hB hR
    rw [hwrote.kept addr (hgrown.covered addr hB)]
    · exact hserved.kept addr hB
    · rintro (h | h)
      · exact hR h
      · exact hserved.fresh addr h hB
  · intro m hm
    refine hstored m (hm.mono ?_)
    rintro addr ((h | h) | h)
    · exact Or.inl h
    · exact Or.inr (Lib.covered_append.mpr (Or.inr (Lib.covered_cons.mpr (Or.inl h))))
    · exact Or.inr (Lib.covered_append.mpr (Or.inl h))

end stores

end Telomere.Component
