import Telomere.Component.References
import Telomere.Component.Sections

/-!
# Sections over the scopes of the decoder

How a definition is spelled is left to readers; what it does is what the decoder does with an item.
A component that is accepted byte by byte is then a run of the decoder over the items that were
read, those of a nested component between the item that opens it and the item that closes it.
-/

namespace Telomere.Component

variable {S E C P : Type}

/-- A relation between states that everything a section holds keeps. -/
structure Definitions.Keeps (D : Definitions S E) (R : S → S → Prop) : Prop where
  refl : ∀ s, R s s
  trans : ∀ s t u, R s t → R t u → R s u
  item : ∀ {input kind depth limit s count s' count'},
    D.item input kind depth limit s count = .ok (s', count') → R s s'
  core : ∀ {input kind limit s count s' count'},
    D.core input kind limit s count = .ok (s', count') → R s s'
  finishCore : ∀ {s s'}, D.finishCore s = .ok s' → R s s'
  pushScope : ∀ s, R s (D.pushScope s)
  popScope : ∀ {s s'}, D.popScope s = .ok s' → R s s'
  finishRoot : ∀ {s s'}, D.finishRoot s = .ok s' → R s s'

/-- The relation between the states behind two cursors. -/
def Through (R : S → S → Prop) (c c' : Cursor S) : Prop := R c.state c'.state

section keeps

variable {R : S → S → Prop} {input : List Byte} {limit : Nat}

theorem define_through {parse : S → Nat → Except E (S × Nat)}
    (hparse : ∀ {s count s' count'}, parse s count = .ok (s', count') → R s s') :
    Lib.Keeps (Through R) (define parse) := by
  intro c a c' h
  unfold define at h
  split at h
  · next hok =>
      cases h
      exact hparse hok
  · cases h

theorem update_through {change : S → Except E S}
    (hchange : ∀ {s s'}, change s = .ok s' → R s s') :
    Lib.Keeps (Through R) (update change) := by
  intro c a c' h
  unfold update at h
  split at h
  · next hok =>
      cases h
      exact hchange hok
  · cases h

theorem through_trans (htrans : ∀ s t u, R s t → R t u → R s u) (c c' c'' : Cursor S)
    (h : Through R c c') (h' : Through R c' c'') : Through R c c'' :=
  htrans c.state c'.state c''.state h h'

section readers

variable (hrefl : ∀ s, R s s) (htrans : ∀ s t u, R s t → R t u → R s u)

include hrefl

theorem readOne_through : Lib.Keeps (Through R) (readOne input limit : Decode S E _) := by
  intro c a c' h
  unfold readOne at h
  split at h
  · split at h <;> cases h <;> exact hrefl _
  · cases h
    exact hrefl _

theorem readExact_through (n : Nat) :
    Lib.Keeps (Through R) (readExact input limit n : Decode S E _) := by
  intro c a c' h
  unfold readExact at h
  split at h
  · cases h
  · cases h
    exact hrefl _

theorem get_through : Lib.Keeps (Through R) (get : Decode S E (Cursor S)) := by
  intro c a c' h
  cases h
  exact hrefl _

theorem sectionType_through (kind : Byte) :
    Lib.Keeps (Through R) (sectionType kind : Decode S E _) := by
  intro c a c' h
  rw [sectionType_same kind _ _ _ h]
  exact hrefl _

theorem finishU32_through (readBytes : Nat) (byte : Byte) (result : BitVec 32) :
    Lib.Keeps (Through R) (finishU32 readBytes byte result : Decode S E _) := by
  unfold finishU32
  split
  · exact .throw _
  · exact .pure (fun c => hrefl c.state) _

include htrans

theorem readExactOne_through : Lib.Keeps (Through R) (readExactOne input limit : Decode S E _) := by
  refine .bind (through_trans htrans) (readExact_through hrefl 1) fun bytes => ?_
  split
  · exact .pure (fun c => hrefl c.state) _
  · exact .throw _

theorem parseU32Bytes_through (left readBytes : Nat) (result : BitVec 32) :
    Lib.Keeps (Through R) (parseU32Bytes input limit left readBytes result : Decode S E _) := by
  induction left generalizing readBytes result with
  | zero => exact .throw _
  | succ left ih =>
      refine .bind (through_trans htrans) (readExactOne_through hrefl htrans) fun byte => ?_
      split
      · exact finishU32_through hrefl _ _ _
      · exact ih _ _

theorem parseCustomSection_through (size : Nat) :
    Lib.Keeps (Through R) (parseCustomSection input limit size : Decode S E _) := by
  induction size with
  | zero => exact .pure (fun c => hrefl c.state) _
  | succ size ih =>
      exact .bind (through_trans htrans) (readExactOne_through hrefl htrans) fun _ => ih

theorem expectBytes_through (n : Nat) (expected : List Byte)
    (error : List Byte → ComponentParseError E) :
    Lib.Keeps (Through R) (expectBytes input limit n expected error : Decode S E _) := by
  refine .bind (through_trans htrans) (readExact_through hrefl n) fun bytes => ?_
  split
  · exact .pure (fun c => hrefl c.state) _
  · exact .throw _

end readers

variable {D : Definitions S E} (hD : D.Keeps R)

include hD

theorem through_bind {α β : Type} {x : Decode S E α} {f : α → Decode S E β}
    (hx : Lib.Keeps (Through R) x) (hf : ∀ a, Lib.Keeps (Through R) (f a)) :
    Lib.Keeps (Through R) (x >>= f) :=
  .bind (through_trans hD.trans) hx hf

theorem through_pure {α : Type} (a : α) : Lib.Keeps (Through R) (pure a : Decode S E α) :=
  .pure (fun c => hD.refl c.state) a

theorem parseItems_through (kind : ComponentSection) (depth n : Nat) :
    Lib.Keeps (Through R) (parseItems D input kind depth limit n) := by
  induction n with
  | zero => exact through_pure hD ()
  | succ n ih => exact through_bind hD (define_through hD.item) fun _ => ih

theorem parseVector_through (kind : ComponentSection) (depth : Nat) :
    Lib.Keeps (Through R) (parseVector D input kind depth limit) :=
  through_bind hD (parseU32Bytes_through hD.refl hD.trans 5 0 0) fun n =>
    parseItems_through hD kind depth n

theorem parseCoreSections_through (left : Nat) :
    Lib.Keeps (Through R) (parseCoreSections D input limit left) := by
  induction left with
  | zero => exact through_pure hD ()
  | succ left ih =>
      refine through_bind hD (readOne_through hD.refl) fun kind => ?_
      cases kind with
      | none => exact through_pure hD ()
      | some kind => exact through_bind hD (define_through hD.core) fun _ => ih

theorem parseModule_through : Lib.Keeps (Through R) (parseModule D input limit) := by
  refine through_bind hD (expectBytes_through hD.refl hD.trans _ _ _) fun _ => ?_
  refine through_bind hD (expectBytes_through hD.refl hD.trans _ _ _) fun _ => ?_
  refine through_bind hD (get_through hD.refl) fun c => ?_
  exact through_bind hD (parseCoreSections_through hD _) fun _ => update_through hD.finishCore

section contents

variable {inner : Nat → Decode S E (List (SectionRead S))}
  (hinner : ∀ limit, Lib.Keeps (Through R) (inner limit))

include hinner

theorem parseContents_through (depth count size : Nat) (kind : ComponentSection) :
    Lib.Keeps (Through R) (parseContents D input inner depth limit count size kind) := by
  cases kind with
  | custom =>
      exact through_bind hD (parseCustomSection_through hD.refl hD.trans size) fun _ =>
        through_pure hD _
  | coreModule => exact through_bind hD (parseModule_through hD) fun _ => through_pure hD _
  | component =>
      refine through_bind hD (update_through fun h => ?_) fun _ => ?_
      · obtain rfl := Except.ok.inj h
        exact hD.pushScope _
      · refine through_bind hD (hinner _) fun sections => ?_
        exact through_bind hD (update_through hD.popScope) fun _ => through_pure hD sections
  | start => exact .throw _
  | coreInstance | coreType | «instance» | «alias» | type | canon | «import» | «export» =>
      exact through_bind hD (parseVector_through hD _ _) fun _ => through_pure hD _

theorem parseSections_through (depth left : Nat) :
    Lib.Keeps (Through R) (parseSections D input inner depth limit left) := by
  induction left with
  | zero => exact through_pure hD []
  | succ left ih =>
      refine through_bind hD (readOne_through hD.refl) fun kind => ?_
      cases kind with
      | none => exact through_pure hD []
      | some kind =>
          refine through_bind hD (sectionType_through hD.refl kind) fun kind => ?_
          refine through_bind hD ?_ fun sections => through_bind hD ih fun _ => through_pure hD _
          refine through_bind hD (parseU32Bytes_through hD.refl hD.trans 5 0 0) fun size => ?_
          refine through_bind hD (get_through hD.refl) fun c => ?_
          refine through_bind hD (parseContents_through hD hinner _ _ _ _) fun _ => ?_
          exact through_bind hD (get_through hD.refl) fun _ => through_pure hD _

end contents

theorem parseComponentAt_through (depthLeft limit : Nat) :
    Lib.Keeps (Through R) (parseComponentAt D input depthLeft limit) := by
  induction depthLeft generalizing limit with
  | zero => exact .throw _
  | succ depthLeft ih =>
      refine through_bind hD (expectBytes_through hD.refl hD.trans _ _ _) fun _ => ?_
      refine through_bind hD (expectBytes_through hD.refl hD.trans _ _ _) fun _ => ?_
      refine through_bind hD (expectBytes_through hD.refl hD.trans _ _ _) fun _ => ?_
      exact through_bind hD (get_through hD.refl) fun _ => parseSections_through hD ih _ _

/-- What all definitions keep is kept by reading a component. -/
theorem parseComponent_through : Lib.Keeps (Through R) (parseComponent D input) :=
  through_bind hD (parseComponentAt_through hD _ _) fun sections =>
    through_bind hD (update_through hD.finishRoot) fun _ => through_pure hD sections

end keeps

/-- How definitions are spelled; `P` is what is known of a core module of which a part was read. -/
structure ItemReaders (C P : Type) where
  item : List Byte → ComponentSection → Nat → Nat → Decoder C → Nat →
    Except ParseError (Item C × Nat)
  item_bounds : ∀ {input kind depth limit d count read count'},
    item input kind depth limit d count = .ok (read, count') → count ≤ count' ∧ count' ≤ limit
  emptyModule : P
  core : List Byte → Byte → Nat → P → Nat → Except ParseError (P × Nat)
  core_bounds : ∀ {input kind limit module count module' count'},
    core input kind limit module count = .ok (module', count') → count ≤ count' ∧ count' ≤ limit
  moduleType : P → Except ParseError C

/-- The decoder, and the core module that is being read. -/
structure SectionState (C P : Type) where
  decoder : Decoder C
  module : P

/-- `push_scope` of the parser and of the validator. -/
def Decoder.pushScope (d : Decoder C) : Decoder C :=
  { d with
    opened := d.opened + 1
    scopes := .empty (d.opened :: d.path) :: d.scopes
    guards := .empty :: d.guards }

theorem openComponent_eq (d : Decoder C) : openComponent d = .ok ((), d.pushScope) :=
  rfl

variable (k : Validator C) (r : ItemReaders C P)

def SectionState.decode (s : SectionState C P) (item : Item C) :
    Except ParseError (SectionState C P) := do
  let (_, decoder) ← decodeItem k item s.decoder
  return { s with decoder }

/-- The sections of a component, decoded item by item. The scopes of the root are the only ones that
are left at the end. -/
def decoderDefinitions : Definitions (SectionState C P) ParseError where
  item input kind depth limit s count := do
    let (item, count) ← r.item input kind depth limit s.decoder count
    return (← s.decode k item, count)
  item_bounds h := by
    obtain ⟨read, hread, h⟩ := Lib.bind_eq_ok.mp h
    obtain ⟨s, -, h⟩ := Lib.bind_eq_ok.mp h
    cases h
    exact r.item_bounds hread
  core input kind limit s count := do
    let (module, count) ← r.core input kind limit s.module count
    return ({ s with module }, count)
  core_bounds h := by
    obtain ⟨read, hread, h⟩ := Lib.bind_eq_ok.mp h
    cases h
    exact r.core_bounds hread
  finishCore s := do
    let ty ← r.moduleType s.module
    SectionState.decode k { s with module := r.emptyModule } (.coreModule ty)
  pushScope s := { s with decoder := s.decoder.pushScope }
  popScope s := s.decode k .closeComponent
  finishRoot s := if s.decoder.scopes.length = 1 then .ok s else .error Decoding.invalidScope

theorem finishRoot_eq_ok {k : Validator C} {r : ItemReaders C P} {s s' : SectionState C P}
    (h : (decoderDefinitions k r).finishRoot s = .ok s') :
    s.decoder.scopes.length = 1 ∧ s' = s := by
  by_cases hroot : s.decoder.scopes.length = 1
  · exact ⟨hroot, (Except.ok.inj ((if_pos hroot).symm.trans h)).symm⟩
  · cases (if_neg hroot).symm.trans h

/-- The second decoder is the first after some items. -/
def DecodedTo (s s' : SectionState C P) : Prop :=
  ∃ items : List (Item C), (items.forM (decodeItem k)).run s.decoder = .ok ((), s'.decoder)

namespace DecodedTo

variable {k} {s s' : SectionState C P}

theorem of_eq (h : s'.decoder = s.decoder) : DecodedTo k s s' := by
  refine ⟨[], ?_⟩
  rw [h]
  rfl

theorem single (item : Item C) (h : decodeItem k item s.decoder = .ok ((), s'.decoder)) :
    DecodedTo k s s' :=
  ⟨[item], Lib.run_bind_eq_ok.mpr ⟨(), s'.decoder, h, rfl⟩⟩

theorem trans {s'' : SectionState C P} (h : DecodedTo k s s') (h' : DecodedTo k s' s'') :
    DecodedTo k s s'' := by
  obtain ⟨items, hitems⟩ := h
  obtain ⟨items', hitems'⟩ := h'
  refine ⟨items ++ items', ?_⟩
  refine (congrArg (StateT.run · s.decoder) (List.forM_append ..)).trans ?_
  exact Lib.run_bind_eq_ok.mpr ⟨(), s'.decoder, hitems, hitems'⟩

theorem decode {item : Item C} (h : s.decode k item = .ok s') : DecodedTo k s s' := by
  obtain ⟨⟨⟨⟩, decoder⟩, hitem, h⟩ := Lib.bind_eq_ok.mp h
  cases h
  exact single item hitem

end DecodedTo

theorem decoderDefinitions_keeps : (decoderDefinitions k r).Keeps (DecodedTo k) where
  refl _ := .of_eq rfl
  trans _ _ _ := .trans
  item h := by
    obtain ⟨read, -, h⟩ := Lib.bind_eq_ok.mp h
    obtain ⟨s', hdecode, h⟩ := Lib.bind_eq_ok.mp h
    cases h
    exact .decode hdecode
  core h := by
    obtain ⟨read, -, h⟩ := Lib.bind_eq_ok.mp h
    cases h
    exact .of_eq rfl
  finishCore h := by
    obtain ⟨ty, -, h⟩ := Lib.bind_eq_ok.mp h
    refine .trans ?_ (.decode h)
    exact .of_eq rfl
  pushScope s := .single .openComponent (openComponent_eq s.decoder)
  popScope h := .decode h
  finishRoot h := by
    obtain ⟨-, rfl⟩ := finishRoot_eq_ok h
    exact .of_eq rfl

end Telomere.Component
