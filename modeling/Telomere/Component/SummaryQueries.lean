import Telomere.Component.PlainSummaries

/-!
# Queries for summaries

In an acyclic arena a walk finds no type that it is inside of, so what it keeps is what the plain
recursion gives, and stays so when types are added. Queries and additions can come in any order.
-/

namespace Telomere.Component

variable {M α β : Type}

open Lib (Gives)
open Walk

/-- Of one kind of summary the arena keeps nothing but what `value` says. -/
def KeptRight (kept : Walk.Kept α) (value : TypeId → α) (slots : Slots M) : Prop :=
  ∀ (id : Nat) slot a, slots[id]? = some slot → kept.get slot.summaries = some a → a = value id

def stored (kept : Walk.Kept α) (id : TypeId) (a : α) (slots : Slots M) : Slots M :=
  slots.modify id fun slot => { slot with summaries := kept.set slot.summaries a }

theorem stored_types (kept : Walk.Kept α) (id : TypeId) (a : α) (slots : Slots M) :
    (stored kept id a slots).map (·.ty) = slots.map (·.ty) := by
  apply List.ext_getElem?
  intro i
  unfold stored
  rw [List.getElem?_map, List.getElem?_map, List.getElem?_modify]
  cases slots[i]? with
  | none => rfl
  | some slot => by_cases h : id = i <;> simp [h]

theorem KeptRight.stored {kept : Walk.Kept α} {kept' : Walk.Kept β} {value : TypeId → α}
    {value' : TypeId → β} {slots : Slots M} {id : TypeId}
    (hget : ∀ summaries b, kept'.get (kept.set summaries (value id)) = some b →
      b = value' id ∨ kept'.get summaries = some b)
    (h : KeptRight kept' value' slots) :
    KeptRight kept' value' (stored kept id (value id) slots) := by
  intro i slot b hslot hb
  unfold Component.stored at hslot
  rw [List.getElem?_modify] at hslot
  obtain ⟨before, hbefore, rfl⟩ := Option.map_eq_some_iff.mp hslot
  by_cases heq : id = i
  · rw [if_pos heq] at hb
    rcases hget before.summaries b hb with rfl | hold
    · rw [heq]
    · exact h i before b hbefore hold
  · rw [if_neg heq] at hb
    exact h i before b hbefore hb

section walk

variable {types : List (Ty M)} {rank : TypeId → Nat}

structure Clear (types : List (Ty M)) (rank : TypeId → Nat) (k : Nat) (tracker : VisitTracker) :
    Prop where
  epoch_eq : tracker.epoch = 1
  length_eq : tracker.marks.length = types.length
  unmarked : ∀ id < types.length, rank id ≤ k → tracker.marks[id]? = some 0

def VisitTracker.marked (tracker : VisitTracker) (id : TypeId) : VisitTracker :=
  { tracker with marks := tracker.marks.set id tracker.epoch }

theorem Clear.marked {k k' : Nat} {tracker : VisitTracker} {id : TypeId}
    (h : Clear types rank k tracker) (hid : k' < rank id) (hle : k' ≤ k) :
    Clear types rank k' (tracker.marked id) where
  epoch_eq := h.epoch_eq
  length_eq := by
    unfold VisitTracker.marked
    rw [List.length_set]
    exact h.length_eq
  unmarked := by
    intro other hin hrank
    unfold VisitTracker.marked
    rw [List.getElem?_set_ne (by rintro rfl; omega)]
    exact h.unmarked other hin (by omega)

theorem Clear.new (k : Nat) : Clear types rank k (.new types.length) where
  epoch_eq := rfl
  length_eq := List.length_replicate
  unmarked := by
    intro id hid _
    unfold VisitTracker.new
    rw [List.getElem?_replicate, if_pos hid]

def At (I : Slots M → Prop) (tracker : VisitTracker) (s : Walking M) : Prop :=
  I s.slots ∧ s.visiting = tracker

variable {I : Slots M → Prop} {tracker : VisitTracker} {id : TypeId}

theorem enter_clear (hclear : Clear types rank (rank id) tracker) (hid : id < types.length)
    {s : Walking M} (hs : At I tracker s) :
    Walk.enter id s = .ok (true, ⟨s.slots, tracker.marked id⟩) := by
  obtain ⟨-, rfl⟩ := hs
  unfold Walk.enter
  rw [hclear.unmarked id hid (Nat.le_refl _), hclear.epoch_eq]
  dsimp only
  rw [if_neg (by decide)]
  unfold VisitTracker.marked
  rw [hclear.epoch_eq]

theorem leave_marked (hclear : Clear types rank (rank id) tracker) (hid : id < types.length)
    {s : Walking M} (hs : At I (tracker.marked id) s) :
    Walk.leave id s = .ok ((), ⟨s.slots, tracker⟩) := by
  obtain ⟨-, hvisiting⟩ := hs
  have hmarks : tracker.marks[id]? = some 0 := hclear.unmarked id hid (Nat.le_refl _)
  have hlt : id < tracker.marks.length := by
    rw [hclear.length_eq]
    exact hid
  have hmarked : (tracker.marked id).marks[id]? = some tracker.epoch := by
    unfold VisitTracker.marked
    exact List.getElem?_set_self hlt
  have hback : (tracker.marked id).marks.set id 0 = tracker.marks := by
    unfold VisitTracker.marked
    dsimp only
    rw [List.set_set]
    have hzero : tracker.marks[id] = 0 := (List.getElem?_eq_some_iff.mp hmarks).2
    have hself := List.set_getElem_self hlt
    rwa [hzero] at hself
  unfold Walk.leave
  rw [hvisiting, hmarked]
  dsimp only
  rw [hback]
  rfl

theorem getType_slot {ty : Ty M} {s : Walking M} (htypes : s.slots.map (·.ty) = types)
    (hty : types[id]? = some ty) : Walk.getType id s = .ok (ty, s) := by
  rw [← htypes, List.getElem?_map] at hty
  obtain ⟨slot, hslot, rfl⟩ := Option.map_eq_some_iff.mp hty
  unfold Walk.getType
  rw [hslot]

variable {kept : Walk.Kept α} {value : TypeId → α}
  {body : (TypeId → Walk M α) → TypeId → Ty M → Walk M α}

/-- The body finds the value of a type where the recursive calls find those of its references. -/
def Finds (types : List (Ty M)) (value : TypeId → α)
    (body : (TypeId → Walk M α) → TypeId → Ty M → Walk M α) : Prop :=
  ∀ (id : Nat) ty, types[id]? = some ty → ∀ (J : Walking M → Prop) (rec : TypeId → Walk M α),
    (∀ ref ∈ ty.refs, Gives J (rec ref) (value ref)) → Gives J (body rec id ty) (value id)

theorem summarize_gives (revisited : α) (hrank : Ranked types rank)
    (htypes : ∀ slots, I slots → slots.map (·.ty) = types)
    (hload : ∀ slots, I slots → KeptRight kept value slots)
    (hstore : ∀ slots id, I slots → I (stored kept id (value id) slots))
    (hbody : Finds types value body) (depth : Nat) (hid : id < types.length)
    (hdepth : rank id < depth) (hclear : Clear types rank (rank id) tracker) :
    Gives (At I tracker) (summarize kept revisited body depth id) (value id) := by
  induction depth generalizing id tracker with
  | zero => omega
  | succ depth ih =>
      intro s hs
      have hty : types[id]? = some types[id] := List.getElem?_eq_getElem hid
      unfold summarize
      cases hcached : (s.slots[id]?).bind fun slot => kept.get slot.summaries with
      | some summary =>
          obtain ⟨slot, hslot, hget⟩ := Option.bind_eq_some_iff.mp hcached
          obtain rfl := hload s.slots hs.1 id slot summary hslot hget
          refine ⟨s, ?_, hs⟩
          rw [Lib.run_bind_eq_ok]
          exact ⟨some (value id), s, congrArg (fun c => Except.ok (c, s)) hcached, rfl⟩
      | none =>
          -- what the types referred to are looked at under, this type being marked
          have hrec : ∀ ref ∈ types[id].refs, Gives (At I (tracker.marked id))
              (summarize kept revisited body depth ref) (value ref) := by
            intro ref href
            obtain ⟨hlt, hless⟩ := hrank id _ hty ref href
            exact ih hlt (by omega) (hclear.marked hless (Nat.le_of_lt hless))
          have hentered : At I (tracker.marked id) ⟨s.slots, tracker.marked id⟩ := ⟨hs.1, rfl⟩
          obtain ⟨s₁, hfound, hs₁⟩ := hbody id _ hty _ _ hrec _ hentered
          have hstored := hstore s₁.slots id hs₁.1
          refine ⟨⟨stored kept id (value id) s₁.slots, tracker⟩, ?_, hstored, rfl⟩
          rw [Lib.run_bind_eq_ok]
          refine ⟨none, s, congrArg (fun c => Except.ok (c, s)) hcached, ?_⟩
          dsimp only
          rw [Lib.run_bind_eq_ok]
          refine ⟨true, _, enter_clear hclear hid hs, ?_⟩
          rw [if_pos rfl, Lib.run_bind_eq_ok]
          refine ⟨_, _, getType_slot (htypes s.slots hs.1) hty, ?_⟩
          rw [Lib.run_bind_eq_ok]
          refine ⟨value id, s₁, hfound, ?_⟩
          rw [Lib.run_bind_eq_ok]
          exact ⟨(), _, leave_marked hclear hid hs₁, rfl⟩

end walk

/-- The exact size up to the ceiling, which that of flags can be above. -/
def summarySize (types : List (Ty M)) (id : TypeId) : Nat :=
  cappedSize (isFlags types id) (exactSize types id)

def summaryOwners (types : List (Ty M)) (owner : TypeId → ScopeId) (id : TypeId) :
    ResourceOwnerSummary :=
  ownersSummary (ownersOf types owner id)

/-- What is kept of the three kinds is what the plain recursion gives. -/
structure Summarized (owner : TypeId → ScopeId) (types : List (Ty M)) (slots : Slots M) : Prop where
  types_eq : slots.map (·.ty) = types
  size : KeptRight keptSize (summarySize types) slots
  handle : KeptRight keptHandle (holdsHandle types) slots
  owners : KeptRight keptOwners (summaryOwners types owner) slots

section kinds

variable {owner : TypeId → ScopeId} {types : List (Ty M)}

theorem local_expandedSize :
    Local fun (size : TypeId → Nat) _ (ty : Ty M) => ty.expandedSize size :=
  fun _ _ _ _ h => expandedSize_congr h

theorem local_standsForFlags :
    Local fun (flags : TypeId → Bool) _ (ty : Ty M) => ty.standsForFlags flags :=
  fun _ _ _ _ h => standsForFlags_congr h

theorem local_holdsHandle :
    Local fun (handle : TypeId → Bool) _ (ty : Ty M) => ty.holdsHandle handle :=
  fun _ _ _ _ h => holdsHandle_congr h

theorem local_owners (owner : TypeId → ScopeId) :
    Local fun (owners : TypeId → Finset ScopeId) id (ty : Ty M) => ty.owners (owner id) owners :=
  fun _ _ _ _ h => owners_congr h

variable (hacyclic : Acyclic types)

include hacyclic

theorem exactSize_eq {id : Nat} {ty : Ty M} (hty : types[id]? = some ty) :
    exactSize types id = ty.expandedSize (exactSize types) :=
  plain_eq hacyclic local_expandedSize hty

theorem isFlags_eq {id : Nat} {ty : Ty M} (hty : types[id]? = some ty) :
    isFlags types id = ty.standsForFlags (isFlags types) :=
  plain_eq hacyclic local_standsForFlags hty

theorem holdsHandle_eq {id : Nat} {ty : Ty M} (hty : types[id]? = some ty) :
    holdsHandle types id = ty.holdsHandle (holdsHandle types) :=
  plain_eq hacyclic local_holdsHandle hty

theorem ownersOf_eq {id : Nat} {ty : Ty M} (hty : types[id]? = some ty) :
    ownersOf types owner id = ty.owners (owner id) (ownersOf types owner) :=
  plain_eq hacyclic (local_owners owner) hty

theorem computeTypeSize_finds :
    Finds types (summarySize types) fun rec _ ty => computeTypeSize rec ty := by
  intro id ty hty J rec hrec
  unfold summarySize
  rw [exactSize_eq hacyclic hty, isFlags_eq hacyclic hty]
  exact computeTypeSize_gives hrec

theorem typeContainsResourceHandle_finds :
    Finds types (holdsHandle types) fun rec _ ty => typeContainsResourceHandle rec ty := by
  intro id ty hty J rec hrec
  rw [holdsHandle_eq hacyclic hty]
  exact typeContainsResourceHandle_gives hrec

theorem typeResourceOwnerSummary_finds :
    Finds types (summaryOwners types owner)
      (typeResourceOwnerSummary owner) := by
  intro id ty hty J rec hrec
  unfold summaryOwners
  rw [ownersOf_eq hacyclic hty]
  exact typeResourceOwnerSummary_gives hrec

end kinds

section stored

variable {owner : TypeId → ScopeId} {types : List (Ty M)} {slots : Slots M}
  (h : Summarized owner types slots) (id : TypeId)

include h

theorem Summarized.storedSize :
    Summarized owner types (stored keptSize id (summarySize types id) slots) where
  types_eq := (stored_types ..).trans h.types_eq
  size := h.size.stored fun _ _ hget => .inl (Option.some.inj hget).symm
  handle := h.handle.stored fun _ _ hget => .inr hget
  owners := h.owners.stored fun _ _ hget => .inr hget

theorem Summarized.storedHandle :
    Summarized owner types (stored keptHandle id (holdsHandle types id) slots) where
  types_eq := (stored_types ..).trans h.types_eq
  size := h.size.stored fun _ _ hget => .inr hget
  handle := h.handle.stored fun _ _ hget => .inl (Option.some.inj hget).symm
  owners := h.owners.stored fun _ _ hget => .inr hget

theorem Summarized.storedOwners :
    Summarized owner types
      (stored keptOwners id (summaryOwners types owner id) slots) where
  types_eq := (stored_types ..).trans h.types_eq
  size := h.size.stored fun _ _ hget => .inr hget
  handle := h.handle.stored fun _ _ hget => .inr hget
  owners := h.owners.stored fun _ _ hget => .inl (Option.some.inj hget).symm

end stored

section queries

variable {owner : TypeId → ScopeId} {types : List (Ty M)}

theorem query_gives {kept : Walk.Kept α} {revisited : α} {value : TypeId → α}
    {body : (TypeId → Walk M α) → TypeId → Ty M → Walk M α} {I : Slots M → Prop}
    (hacyclic : Acyclic types) (htypes : ∀ slots, I slots → slots.map (·.ty) = types)
    (hload : ∀ slots, I slots → KeptRight kept value slots)
    (hstore : ∀ slots id, I slots → I (stored kept id (value id) slots))
    (hbody : Finds types value body) {id : TypeId} (hid : id < types.length) :
    Gives I (query (summarize kept revisited body) id) (value id) := by
  obtain ⟨rank, hrank, hbound⟩ := hacyclic.ranked
  intro slots hslots
  have hlength : slots.length = types.length := by rw [← htypes slots hslots, List.length_map]
  have hwalk := summarize_gives revisited hrank htypes hload hstore hbody slots.length
    hid (by rw [hlength]; exact hbound id hid) (Clear.new (rank id))
  obtain ⟨s, hfound, hs⟩ := hwalk ⟨slots, .new types.length⟩ ⟨hslots, rfl⟩
  refine ⟨s.slots, ?_, hs.1⟩
  unfold query
  rw [hlength] at hfound ⊢
  rw [Lib.bind_eq_ok]
  exact ⟨(value id, s), hfound, rfl⟩

theorem computeEffectiveTypeSize_gives (hacyclic : Acyclic types) {id : TypeId}
    (hid : id < types.length) :
    Gives (Summarized owner types) (query computeEffectiveTypeSize id) (summarySize types id) :=
  query_gives hacyclic (fun _ h => h.types_eq) (fun _ h => h.size) (fun _ id h => h.storedSize id)
    (computeTypeSize_finds hacyclic) hid

theorem containsResourceHandle_gives (hacyclic : Acyclic types) {id : TypeId}
    (hid : id < types.length) :
    Gives (Summarized owner types) (query containsResourceHandleWithTracker id)
      (holdsHandle types id) :=
  query_gives hacyclic (fun _ h => h.types_eq) (fun _ h => h.handle)
    (fun _ id h => h.storedHandle id) (typeContainsResourceHandle_finds hacyclic) hid

theorem resourceOwnerSummary_gives (hacyclic : Acyclic types) {id : TypeId}
    (hid : id < types.length) :
    Gives (Summarized owner types) (query (resourceOwnerSummary owner) id)
      (summaryOwners types owner id) :=
  query_gives hacyclic (fun _ h => h.types_eq) (fun _ h => h.owners)
    (fun _ id h => h.storedOwners id) (typeResourceOwnerSummary_finds hacyclic) hid

theorem KeptRight.append {kept : Walk.Kept α} {value value' : TypeId → α} {slots : Slots M} {ty : Ty M}
    (hnew : kept.get (TypeSlot.new ty).summaries = none)
    (hvalue : ∀ id < slots.length, value' id = value id) (h : KeptRight kept value slots) :
    KeptRight kept value' (slots ++ [TypeSlot.new ty]) := by
  intro id slot a hslot ha
  rcases Nat.lt_trichotomy id slots.length with hlt | rfl | hlt
  · rw [List.getElem?_append_left hlt] at hslot
    rw [hvalue id hlt]
    exact h id slot a hslot ha
  · rw [List.getElem?_concat_length] at hslot
    obtain rfl := Option.some.inj hslot
    rw [hnew] at ha
    cases ha
  · rw [List.getElem?_eq_none (by simp; omega)] at hslot
    cases hslot

theorem Summarized.append {slots : Slots M} (h : Summarized owner types slots)
    (hacyclic : Acyclic types) {ty : Ty M} (hrefs : ∀ ref ∈ ty.refs, ref < types.length) :
    Summarized owner (types ++ [ty]) (slots ++ [TypeSlot.new ty]) := by
  have hlength : slots.length = types.length := by rw [← h.types_eq, List.length_map]
  have hkeep : ∀ {α : Type} {step : (TypeId → α) → TypeId → Ty M → α} {cut : α}, Local step →
      ∀ id < slots.length, plain (types ++ [ty]) step cut (types ++ [ty]).length id =
        plain types step cut types.length id := by
    intro α step cut hlocal id hid
    exact plain_append hacyclic hlocal hrefs (hlength ▸ hid)
  refine ⟨?_, h.size.append rfl ?_, h.handle.append rfl ?_, h.owners.append rfl ?_⟩
  · rw [List.map_append, h.types_eq]
    rfl
  · intro id hid
    exact congrArg₂ cappedSize (hkeep local_standsForFlags id hid) (hkeep local_expandedSize id hid)
  · exact hkeep local_holdsHandle
  · intro id hid
    exact congrArg ownersSummary (hkeep (local_owners owner) id hid)

theorem newType_gives {slots : Slots M} (h : Summarized owner types slots)
    (hacyclic : Acyclic types) {ty : Ty M} (hrefs : ∀ ref ∈ ty.refs, ref < types.length) :
    ∃ slots', newType ty slots = .ok (types.length, slots') ∧
      Summarized owner (types ++ [ty]) slots' := by
  refine ⟨slots ++ [TypeSlot.new ty], ?_, h.append hacyclic hrefs⟩
  have hlength : slots.length = types.length := by rw [← h.types_eq, List.length_map]
  unfold newType
  rw [hlength]

end queries

inductive SummaryStep (M : Type) where
  | add (ty : Ty M)
  | size (id : TypeId)
  | handle (id : TypeId)
  | owners (id : TypeId)

inductive Summary where
  | size (size : Nat)
  | handle (found : Bool)
  | owners (summary : ResourceOwnerSummary)
deriving DecidableEq

section runs

variable (owner : TypeId → ScopeId)

def SummaryStep.run : SummaryStep M → Validating M (List Summary)
  | .add ty => do
      let _ ← newType ty
      return []
  | .size id => do return [.size (← query computeEffectiveTypeSize id)]
  | .handle id => do return [.handle (← query containsResourceHandleWithTracker id)]
  | .owners id => do return [.owners (← query (resourceOwnerSummary owner) id)]

def runSteps : List (SummaryStep M) → Validating M (List Summary)
  | [] => return []
  | step :: steps => do
      let first ← step.run owner
      let rest ← runSteps steps
      return first ++ rest

def SummaryStep.plain (types : List (Ty M)) : SummaryStep M → List Summary
  | .add _ => []
  | .size id => [.size (cappedSize (isFlags types id) (exactSize types id))]
  | .handle id => [.handle (holdsHandle types id)]
  | .owners id => [.owners (ownersSummary (ownersOf types owner id))]

def SummaryStep.types (types : List (Ty M)) : SummaryStep M → List (Ty M)
  | .add ty => types ++ [ty]
  | .size _ | .handle _ | .owners _ => types

def plainSteps : List (Ty M) → List (SummaryStep M) → List Summary
  | _, [] => []
  | types, step :: steps => step.plain owner types ++ plainSteps (step.types types) steps

/-- Queries are about types that are there, and so are the references of types that are added. -/
def SummaryStep.Valid (types : List (Ty M)) : SummaryStep M → Prop
  | .add ty => ∀ ref ∈ ty.refs, ref < types.length
  | .size id | .handle id | .owners id => id < types.length

def ValidSteps : List (Ty M) → List (SummaryStep M) → Prop
  | _, [] => True
  | types, step :: steps => step.Valid types ∧ ValidSteps (step.types types) steps

variable {owner} {types : List (Ty M)}

theorem SummaryStep.run_eq (hacyclic : Acyclic types) {step : SummaryStep M}
    (hvalid : step.Valid types) {slots : Slots M} (h : Summarized owner types slots) :
    ∃ slots', step.run owner slots = .ok (step.plain owner types, slots') ∧
      Acyclic (step.types types) ∧ Summarized owner (step.types types) slots' := by
  cases step with
  | add ty =>
      obtain ⟨slots', hok, hslots'⟩ := newType_gives h hacyclic hvalid
      refine ⟨slots', ?_, hacyclic.append hvalid, hslots'⟩
      unfold SummaryStep.run
      rw [Lib.run_bind_eq_ok]
      exact ⟨_, slots', hok, rfl⟩
  | size id =>
      obtain ⟨slots', hok, hslots'⟩ := computeEffectiveTypeSize_gives hacyclic hvalid slots h
      refine ⟨slots', ?_, hacyclic, hslots'⟩
      unfold SummaryStep.run
      rw [Lib.run_bind_eq_ok]
      exact ⟨_, slots', hok, rfl⟩
  | handle id =>
      obtain ⟨slots', hok, hslots'⟩ := containsResourceHandle_gives hacyclic hvalid slots h
      refine ⟨slots', ?_, hacyclic, hslots'⟩
      unfold SummaryStep.run
      rw [Lib.run_bind_eq_ok]
      exact ⟨_, slots', hok, rfl⟩
  | owners id =>
      obtain ⟨slots', hok, hslots'⟩ := resourceOwnerSummary_gives hacyclic hvalid slots h
      refine ⟨slots', ?_, hacyclic, hslots'⟩
      unfold SummaryStep.run
      rw [Lib.run_bind_eq_ok]
      exact ⟨_, slots', hok, rfl⟩

theorem runSteps_eq (hacyclic : Acyclic types) {steps : List (SummaryStep M)}
    (hvalid : ValidSteps types steps) {slots : Slots M} (h : Summarized owner types slots) :
    ∃ slots', runSteps owner steps slots = .ok (plainSteps owner types steps, slots') := by
  induction steps generalizing types slots with
  | nil => exact ⟨slots, rfl⟩
  | cons step steps ih =>
      obtain ⟨slots₁, hfirst, hacyclic₁, h₁⟩ := SummaryStep.run_eq hacyclic hvalid.1 h
      obtain ⟨slots₂, hrest⟩ := ih hacyclic₁ hvalid.2 h₁
      refine ⟨slots₂, ?_⟩
      unfold runSteps
      rw [Lib.run_bind_eq_ok]
      refine ⟨_, slots₁, hfirst, ?_⟩
      rw [Lib.run_bind_eq_ok]
      exact ⟨_, slots₂, hrest, rfl⟩

theorem Summarized.new (owner : TypeId → ScopeId) (types : List (Ty M)) :
    Summarized owner types (types.map .new) := by
  have hnone : ∀ {α : Type} {kept : Walk.Kept α} {value : TypeId → α},
      (∀ ty : Ty M, kept.get (TypeSlot.new ty).summaries = none) →
        KeptRight kept value (types.map .new) := by
    intro α kept value hnew id slot a hslot ha
    rw [List.getElem?_map] at hslot
    obtain ⟨ty, -, rfl⟩ := Option.map_eq_some_iff.mp hslot
    rw [hnew] at ha
    cases ha
  refine ⟨?_, hnone fun _ => rfl, hnone fun _ => rfl, hnone fun _ => rfl⟩
  rw [List.map_map]
  exact List.map_id types

end runs

/-- Whatever is asked in whatever order, the answers are those of the plain recursion. -/
theorem summaries_eq_plain (owner : TypeId → ScopeId) (types : List (Ty M))
    (hacyclic : Acyclic types) (steps : List (SummaryStep M)) (hvalid : ValidSteps types steps) :
    (runSteps owner steps (types.map .new)).map (·.1) = .ok (plainSteps owner types steps) := by
  obtain ⟨slots, hok⟩ := runSteps_eq hacyclic hvalid (Summarized.new owner types)
  rw [hok]
  rfl

/-- A list of handles, asked about before and after a record of it is added. -/
theorem summaries_eq_plain_record :
    let owner : TypeId → ScopeId := fun id => toLex (1, id)
    let types : List (Ty Unit) := [.resource 7, .defVal (.own 0), .defVal (.list (.type 1) (some 2))]
    let steps : List (SummaryStep Unit) := [.size 2, .owners 2,
      .add (.defVal (.record [⟨"a", .type 2⟩, ⟨"b", .type 1⟩])), .size 3, .handle 3]
    (runSteps owner steps (types.map .new)).map (·.1) = .ok (plainSteps owner types steps) := by
  refine summaries_eq_plain _ _ ⟨id, ?_⟩ _ ?_
  · intro id ty hty ref href
    match id, hty with
    | 0, hty | 1, hty | 2, hty =>
        cases hty
        simp [Ty.refs, DefValType.refs, ValType.refs] at href <;> simp [href]
  · simp [ValidSteps, SummaryStep.Valid, SummaryStep.types, Ty.refs, DefValType.refs, ValType.refs]

theorem runSteps_flags (owner : TypeId → ScopeId) (labels : List Label) :
    (runSteps owner [.size 0] [.new (.defVal (.flags labels) : Ty Unit)]).map (·.1) =
      .ok [.size (max ((labels.length + 31) / 32) 1)] := rfl

theorem exactSize_flags (labels : List Label) :
    exactSize [(.defVal (.flags labels) : Ty Unit)] 0 = max ((labels.length + 31) / 32) 1 := rfl

/-- Flags can be larger than the ceiling. -/
theorem flagsSize_above_ceiling :
    let ty : Ty Unit := .defVal (.flags (List.replicate 32000033 ""))
    (runSteps (fun _ => toLex (0, 0)) [.size 0] [.new ty]).map (·.1) = .ok [.size 1000002] ∧
      min effectiveTypeSizeCeiling (exactSize [ty] 0) = 1000001 := by
  have hsize : max (((List.replicate 32000033 "").length + 31) / 32) 1 = 1000002 := by
    rw [List.length_replicate]
    decide
  constructor
  · rw [runSteps_flags, hsize]
  · rw [exactSize_flags, hsize]
    decide

end Telomere.Component
