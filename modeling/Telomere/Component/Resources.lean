import Telomere.Component.Value
import Telomere.Lib.Trace

/-!
# The table of resources

Handles of all resource types are drawn from one counter; the records are kept by type. A
destructor runs after its record is gone and may call the table again, so calls nest. The counter is
32-bit and goes round.
-/

namespace Telomere.Component

variable {R D : Type}

/-- `D` stands for core functions. -/
structure ResourceRecord (D : Type) where
  rep : BitVec 32
  destructor : Option D
deriving DecidableEq, Repr

/-- `R` stands for the identities of resource types. -/
structure SharedState (R D : Type) where
  nextResourceHandle : BitVec 32
  resources : R → BitVec 32 → Option (ResourceRecord D)

namespace SharedState

def empty : SharedState R D where
  nextResourceHandle := 0
  resources := fun _ _ => none

variable [DecidableEq R]

def set (s : SharedState R D) (resource : R) (handle : BitVec 32)
    (record : Option (ResourceRecord D)) : R → BitVec 32 → Option (ResourceRecord D) :=
  Function.update s.resources resource (Function.update (s.resources resource) handle record)

def allocResource (s : SharedState R D) (resource : R) (rep : BitVec 32)
    (destructor : Option D) : BitVec 32 × SharedState R D :=
  let handle := s.nextResourceHandle + 1
  (handle, ⟨handle, s.set resource handle (some ⟨rep, destructor⟩)⟩)

def invalidHandle (handle : BitVec 32) : ComponentError :=
  .trap s!"resource handle {handle.toNat} is invalid"

def dropResource (s : SharedState R D) (resource : R) (handle : BitVec 32) :
    Except ComponentError ((BitVec 32 × Option D) × SharedState R D) :=
  match s.resources resource handle with
  | some record =>
      .ok ((record.rep, record.destructor), { s with resources := s.set resource handle none })
  | none => .error (invalidHandle handle)

def resourceRep (s : SharedState R D) (resource : R) (handle : BitVec 32) :
    Except ComponentError (BitVec 32) :=
  match s.resources resource handle with
  | some record => .ok record.rep
  | none => .error (invalidHandle handle)

theorem set_same (s : SharedState R D) (resource : R) (handle : BitVec 32)
    (record : Option (ResourceRecord D)) : s.set resource handle record resource handle = record := by
  simp [set]

theorem set_other (s : SharedState R D) {resource resource' : R} {handle handle' : BitVec 32}
    (record : Option (ResourceRecord D)) (hne : ¬ (resource' = resource ∧ handle' = handle)) :
    s.set resource handle record resource' handle' = s.resources resource' handle' := by
  by_cases hresource : resource' = resource
  · subst hresource
    have hhandle : handle' ≠ handle := fun h => hne ⟨rfl, h⟩
    simp [set, hhandle]
  · simp [set, hresource]

end SharedState

/-- The built-ins, each for its resource type, and the return of the destructor that was called
last. -/
inductive ResourceCall (R D : Type) where
  | new (resource : R) (destructor : Option D) (args : List WasmValue)
  | drop (resource : R) (args : List WasmValue)
  | rep (resource : R) (args : List WasmValue)
  | finish (result : Except ComponentError (List WasmValue))

inductive CallOutcome (D : Type) where
  | returned (results : Except ComponentError (List WasmValue))
  | calls (destructor : D) (args : List WasmValue)

/-- The table and the drops that wait for their destructors, the last first, each with the table it
found. -/
structure ResourceState (R D : Type) where
  shared : SharedState R D
  waiting : List (SharedState R D)

def ResourceState.empty : ResourceState R D := ⟨.empty, []⟩

/-- The first argument; `name` is that of the built-in, `what` that of the argument. -/
def firstI32 (name what : String) : List WasmValue → Except ComponentError (BitVec 32)
  | .i32 v :: _ => .ok v
  | _ :: _ => .error (.runtime (name ++ " expects i32"))
  | [] => .error (.runtime (name ++ " missing " ++ what))

/-- One call of a built-in, as `call_sync` makes it, or the return of a destructor. -/
def resourceStep [DecidableEq R] (s : ResourceState R D) :
    ResourceCall R D → Option (CallOutcome D × ResourceState R D)
  | .new resource destructor args =>
      match firstI32 "resource.new" "rep argument" args with
      | .error e => some (.returned (.error e), s)
      | .ok rep =>
          let (handle, shared) := s.shared.allocResource resource rep destructor
          some (.returned (.ok [.i32 handle]), { s with shared })
  | .drop resource args =>
      match firstI32 "resource.drop" "handle" args with
      | .error e => some (.returned (.error e), s)
      | .ok handle =>
          match s.shared.dropResource resource handle with
          | .error e => some (.returned (.error e), s)
          | .ok ((rep, some destructor), shared) =>
              some (.calls destructor [.i32 rep], ⟨shared, s.shared :: s.waiting⟩)
          | .ok ((_, none), shared) => some (.returned (.ok []), { s with shared })
  | .rep resource args =>
      match firstI32 "resource.rep" "handle" args with
      | .error e => some (.returned (.error e), s)
      | .ok handle =>
          match s.shared.resourceRep resource handle with
          | .error e => some (.returned (.error e), s)
          | .ok rep => some (.returned (.ok [.i32 rep]), s)
  | .finish result =>
      match s.waiting with
      | [] => none
      | _ :: waiting => some (.returned (result.map fun _ => []), { s with waiting })

inductive ResourceTakes [DecidableEq R] (s : ResourceState R D) :
    ResourceCall R D → CallOutcome D → ResourceState R D → Prop
  | allocates (resource : R) (destructor : Option D) (rep : BitVec 32) (rest : List WasmValue) :
      ResourceTakes s (.new resource destructor (.i32 rep :: rest))
        (.returned (.ok [.i32 (s.shared.nextResourceHandle + 1)]))
        { s with shared := (s.shared.allocResource resource rep destructor).2 }
  | new_fails (resource : R) (destructor : Option D) (args : List WasmValue) (e : ComponentError)
      (hargs : ∀ rep rest, args ≠ .i32 rep :: rest) :
      ResourceTakes s (.new resource destructor args) (.returned (.error e)) s
  | drop_fails (resource : R) (args : List WasmValue) (e : ComponentError)
      (hargs : ∀ handle rest, args = .i32 handle :: rest →
        s.shared.resources resource handle = none) :
      ResourceTakes s (.drop resource args) (.returned (.error e)) s
  | removes (resource : R) (handle : BitVec 32) (rest : List WasmValue) (rep : BitVec 32)
      (hfound : s.shared.resources resource handle = some ⟨rep, none⟩) :
      ResourceTakes s (.drop resource (.i32 handle :: rest)) (.returned (.ok []))
        { s with shared := { s.shared with resources := s.shared.set resource handle none } }
  | destroys (resource : R) (handle : BitVec 32) (rest : List WasmValue) (rep : BitVec 32)
      (destructor : D) (hfound : s.shared.resources resource handle = some ⟨rep, some destructor⟩) :
      ResourceTakes s (.drop resource (.i32 handle :: rest)) (.calls destructor [.i32 rep])
        ⟨{ s.shared with resources := s.shared.set resource handle none }, s.shared :: s.waiting⟩
  | rep_fails (resource : R) (args : List WasmValue) (e : ComponentError)
      (hargs : ∀ handle rest, args = .i32 handle :: rest →
        s.shared.resources resource handle = none) :
      ResourceTakes s (.rep resource args) (.returned (.error e)) s
  | reads (resource : R) (handle : BitVec 32) (rest : List WasmValue) (record : ResourceRecord D)
      (hfound : s.shared.resources resource handle = some record) :
      ResourceTakes s (.rep resource (.i32 handle :: rest)) (.returned (.ok [.i32 record.rep])) s
  | finishes (result : Except ComponentError (List WasmValue)) (found : SharedState R D)
      (waiting : List (SharedState R D)) (hwaiting : s.waiting = found :: waiting) :
      ResourceTakes s (.finish result) (.returned (result.map fun _ => [])) { s with waiting }

theorem firstI32_eq_ok {name what : String} {args : List WasmValue} {v : BitVec 32}
    (h : firstI32 name what args = .ok v) : ∃ rest, args = .i32 v :: rest := by
  match args, h with
  | .i32 _ :: rest, h => exact ⟨rest, by rw [Except.ok.inj h]⟩

theorem firstI32_eq_error {name what : String} {args : List WasmValue} {e : ComponentError}
    (h : firstI32 name what args = .error e) (v : BitVec 32) (rest : List WasmValue) :
    args ≠ .i32 v :: rest := by
  rintro rfl
  cases h

theorem resourceStep_takes [DecidableEq R] {s t : ResourceState R D} {call : ResourceCall R D}
    {outcome : CallOutcome D} (h : resourceStep s call = some (outcome, t)) :
    ResourceTakes s call outcome t := by
  cases call with
  | new resource destructor args =>
      simp only [resourceStep] at h
      split at h
      · next e he =>
          cases h
          exact .new_fails resource destructor args e (firstI32_eq_error he)
      · next rep hrep =>
          obtain ⟨rest, rfl⟩ := firstI32_eq_ok hrep
          cases h
          exact .allocates resource destructor rep rest
  | drop resource args =>
      simp only [resourceStep] at h
      split at h
      · next e he =>
          cases h
          exact .drop_fails resource args e fun handle rest heq =>
            absurd heq (firstI32_eq_error he handle rest)
      · next handle hhandle =>
          obtain ⟨rest, rfl⟩ := firstI32_eq_ok hhandle
          unfold SharedState.dropResource at h
          rcases hfound : s.shared.resources resource handle with _ | ⟨rep, _ | destructor⟩
          · rw [hfound] at h
            cases h
            refine .drop_fails resource _ _ fun handle' rest' heq => ?_
            cases heq
            exact hfound
          · rw [hfound] at h
            cases h
            exact .removes resource handle rest rep hfound
          · rw [hfound] at h
            cases h
            exact .destroys resource handle rest rep destructor hfound
  | rep resource args =>
      simp only [resourceStep] at h
      split at h
      · next e he =>
          cases h
          exact .rep_fails resource args e fun handle rest heq =>
            absurd heq (firstI32_eq_error he handle rest)
      · next handle hhandle =>
          obtain ⟨rest, rfl⟩ := firstI32_eq_ok hhandle
          unfold SharedState.resourceRep at h
          rcases hfound : s.shared.resources resource handle with _ | record
          · rw [hfound] at h
            cases h
            refine .rep_fails resource _ _ fun handle' rest' heq => ?_
            cases heq
            exact hfound
          · rw [hfound] at h
            cases h
            exact .reads resource handle rest record hfound
  | finish result =>
      simp only [resourceStep] at h
      split at h
      · cases h
      · next found waiting hwaiting =>
          cases h
          exact .finishes result found waiting hwaiting

abbrev ResourceMoment (R D : Type) :=
  Lib.Moment (ResourceState R D) (ResourceCall R D) (CallOutcome D)

def Gives (x : ResourceMoment R D) (resource : R) (handle : BitVec 32)
    (record : ResourceRecord D) : Prop :=
  ∃ rest, x.input = .new resource record.destructor (.i32 record.rep :: rest) ∧
    x.output = .returned (.ok [.i32 handle])

/-- A handle is given back: the drop returns, or goes on in the destructor. -/
def Removes (x : ResourceMoment R D) (resource : R) (handle : BitVec 32) : Prop :=
  (∃ rest, x.input = .drop resource (.i32 handle :: rest)) ∧
    ∀ e, x.output ≠ .returned (.error e)

/-- The handle was handed out for the record and has not been given back. -/
def Live (past : List (ResourceMoment R D)) (resource : R) (handle : BitVec 32)
    (record : ResourceRecord D) : Prop :=
  ∃ earlier given later, past = earlier ++ given :: later ∧ Gives given resource handle record ∧
    ∀ x ∈ later, ¬ Removes x resource handle

def ResourceRecord.dropOutcome (record : ResourceRecord D) : CallOutcome D :=
  match record.destructor with
  | some destructor => .calls destructor [.i32 record.rep]
  | none => .returned (.ok [])

structure ResourceLaws [DecidableEq R] (past : List (ResourceMoment R D))
    (now : ResourceMoment R D) : Prop where
  new_fresh : ∀ resource destructor args handle, now.input = .new resource destructor args →
    now.output = .returned (.ok [.i32 handle]) →
    handle ≠ 0 ∧ ∀ resource' record, ¬ Live past resource' handle record
  rep_iff : ∀ resource handle rest rep, now.input = .rep resource (.i32 handle :: rest) →
    (now.output = .returned (.ok [.i32 rep]) ↔
      ∃ destructor, Live past resource handle ⟨rep, destructor⟩)
  drop_live : ∀ resource handle rest record, now.input = .drop resource (.i32 handle :: rest) →
    Live past resource handle record →
    now.after.shared = { now.before.shared with
      resources := now.before.shared.set resource handle none } ∧
    now.output = record.dropOutcome ∧ ∀ x ∈ past, ¬ Removes x resource handle
  drop_dead : ∀ resource handle rest, now.input = .drop resource (.i32 handle :: rest) →
    (∀ record, ¬ Live past resource handle record) → ∃ e, now.output = .returned (.error e)
  /-- No destructor is called but that of a record that is dropped. -/
  calls : ∀ destructor args, now.output = .calls destructor args →
    ∃ resource handle rest rep, now.input = .drop resource (.i32 handle :: rest) ∧
      Live past resource handle ⟨rep, some destructor⟩
  rep_fails : ∀ resource args e, now.input = .rep resource args →
    now.output = .returned (.error e) → now.after.shared = now.before.shared
  drop_fails : ∀ resource args e, now.input = .drop resource args →
    now.output = .returned (.error e) → now.after.shared = now.before.shared
  /-- A drop that fails in its destructor leaves the table as it found it. -/
  destructor_fails : ∀ e found waiting, now.input = .finish (.error e) →
    now.before.waiting = found :: waiting → now.after.shared = found

/-! ## Runs -/

/-- The counter can still be raised, and no destructor fails. -/
def Fits (now : ResourceMoment R D) : Prop :=
  (∀ resource destructor rep rest,
    now.input = .new resource destructor (.i32 rep :: rest) →
      now.before.shared.nextResourceHandle ≠ BitVec.allOnes 32) ∧
  ∀ e, now.input ≠ .finish (.error e)

/-- The table holds what is live; handles that were handed out or given back are not above the
counter; what a waiting drop found is not what the table holds. -/
structure ResourceInv (past : List (ResourceMoment R D)) (s : ResourceState R D) : Prop where
  live : ∀ resource handle record,
    s.shared.resources resource handle = some record ↔ Live past resource handle record
  given : ∀ x ∈ past, ∀ resource handle record, Gives x resource handle record →
    handle.toNat ≤ s.shared.nextResourceHandle.toNat
  removed : ∀ x ∈ past, ∀ resource handle, Removes x resource handle →
    handle.toNat ≤ s.shared.nextResourceHandle.toNat ∧ s.shared.resources resource handle = none
  waiting : ∀ found ∈ s.waiting, ∃ resource handle record,
    found.resources resource handle = some record ∧ ∃ x ∈ past, Removes x resource handle

section runs

variable {past : List (ResourceMoment R D)} {now : ResourceMoment R D} {s t : ResourceState R D}

theorem resourceInv_empty : ResourceInv [] (ResourceState.empty : ResourceState R D) where
  live := by
    intro resource handle record
    refine ⟨fun h => (Option.some_ne_none _ h.symm).elim, ?_⟩
    rintro ⟨earlier, given, later, heq, -⟩
    cases earlier <;> cases heq
  given := fun x hx => absurd hx List.not_mem_nil
  removed := fun x hx => absurd hx List.not_mem_nil
  waiting := fun found hfound => absurd hfound List.not_mem_nil

theorem live_snoc {resource : R} {handle : BitVec 32} {record : ResourceRecord D} :
    Live (past ++ [now]) resource handle record ↔
      Gives now resource handle record ∨
        Live past resource handle record ∧ ¬ Removes now resource handle := by
  constructor
  · rintro ⟨earlier, given, later, heq, hgives, hlater⟩
    rcases List.eq_nil_or_concat later with rfl | ⟨later', last, rfl⟩
    · obtain ⟨-, hlast⟩ := List.append_inj' heq rfl
      obtain ⟨rfl, -⟩ := List.cons.inj hlast
      exact Or.inl hgives
    · rw [List.concat_eq_append, ← List.cons_append, ← List.append_assoc] at heq
      obtain ⟨rfl, hlast⟩ := List.append_inj' heq rfl
      obtain ⟨rfl, -⟩ := List.cons.inj hlast
      simp only [List.concat_eq_append, List.mem_append, List.mem_singleton] at hlater
      exact Or.inr ⟨⟨earlier, given, later', rfl, hgives, fun x hx => hlater x (Or.inl hx)⟩,
        hlater now (Or.inr rfl)⟩
  · rintro (hgives | ⟨⟨earlier, given, later, rfl, hgives, hlater⟩, hnow⟩)
    · exact ⟨past, now, [], rfl, hgives, fun x hx => absurd hx List.not_mem_nil⟩
    · refine ⟨earlier, given, later ++ [now], by simp, hgives, ?_⟩
      intro x hx
      rcases List.mem_append.mp hx with hx | hx
      · exact hlater x hx
      · rw [List.mem_singleton.mp hx]
        exact hnow

theorem Live.le_next (hinv : ResourceInv past s) {resource : R} {handle : BitVec 32}
    {record : ResourceRecord D} (h : Live past resource handle record) :
    handle.toNat ≤ s.shared.nextResourceHandle.toNat := by
  obtain ⟨earlier, given, later, rfl, hgives, -⟩ := h
  exact hinv.given given (by simp) resource handle record hgives

theorem ResourceInv.quiet (hinv : ResourceInv past s)
    (hgives : ∀ resource handle record, ¬ Gives now resource handle record)
    (hremoves : ∀ resource handle, ¬ Removes now resource handle)
    (hshared : t.shared = s.shared) (hwaiting : t.waiting ⊆ s.waiting) :
    ResourceInv (past ++ [now]) t where
  live := by
    intro resource handle record
    rw [hshared, hinv.live, live_snoc]
    constructor
    · exact fun h => Or.inr ⟨h, hremoves resource handle⟩
    · rintro (h | h)
      · exact absurd h (hgives resource handle record)
      · exact h.1
  given := by
    intro x hx resource handle record h
    rw [hshared]
    rcases List.mem_append.mp hx with hx | hx
    · exact hinv.given x hx resource handle record h
    · rw [List.mem_singleton.mp hx] at h
      exact absurd h (hgives resource handle record)
  removed := by
    intro x hx resource handle h
    rw [hshared]
    rcases List.mem_append.mp hx with hx | hx
    · exact hinv.removed x hx resource handle h
    · rw [List.mem_singleton.mp hx] at h
      exact absurd h (hremoves resource handle)
  waiting := by
    intro found hfound
    obtain ⟨resource, handle, record, hrecord, x, hx, h⟩ := hinv.waiting found (hwaiting hfound)
    exact ⟨resource, handle, record, hrecord, x, List.mem_append_left _ hx, h⟩

theorem next_toNat {next : BitVec 32} (h : next ≠ BitVec.allOnes 32) :
    (next + 1).toNat = next.toNat + 1 := by
  have hlt : next.toNat ≠ 2 ^ 32 - 1 := by
    intro heq
    exact h (BitVec.eq_of_toNat_eq (by rw [heq, BitVec.toNat_allOnes]))
  have := next.isLt
  rw [BitVec.toNat_add]
  simp only [BitVec.ofNat_eq_ofNat, BitVec.toNat_ofNat]
  omega

theorem ResourceInv.not_live (hinv : ResourceInv past s) {resource : R} {args rest : List WasmValue}
    {handle : BitVec 32} {record : ResourceRecord D}
    (hargs : ∀ handle rest, args = .i32 handle :: rest →
      s.shared.resources resource handle = none)
    (heq : args = .i32 handle :: rest) : ¬ Live past resource handle record := by
  intro hlive
  have hfound := (hinv.live resource handle record).mpr hlive
  rw [hargs handle rest heq] at hfound
  cases hfound

variable [DecidableEq R]

theorem ResourceInv.allocates (hinv : ResourceInv past s) {resource : R} {destructor : Option D}
    {rep : BitVec 32} {rest : List WasmValue}
    (hnext : s.shared.nextResourceHandle ≠ BitVec.allOnes 32)
    (hinput : now.input = .new resource destructor (.i32 rep :: rest))
    (houtput : now.output = .returned (.ok [.i32 (s.shared.nextResourceHandle + 1)])) :
    ResourceInv (past ++ [now])
      { s with shared := (s.shared.allocResource resource rep destructor).2 } := by
  have hraised := next_toNat hnext
  have hremoves : ∀ r h, ¬ Removes now r h := by
    rintro r h ⟨⟨rest', heq⟩, -⟩
    rw [hinput] at heq
    cases heq
  have hgives : ∀ r h record, Gives now r h record ↔
      (r = resource ∧ h = s.shared.nextResourceHandle + 1) ∧ record = ⟨rep, destructor⟩ := by
    intro r h record
    constructor
    · rintro ⟨rest', heq, hout⟩
      rw [hinput] at heq
      rw [houtput] at hout
      obtain ⟨rfl, rfl, hargs⟩ := ResourceCall.new.inj heq
      obtain ⟨hrep, -⟩ := List.cons.inj hargs
      cases hout
      cases hrep
      exact ⟨⟨rfl, rfl⟩, rfl⟩
    · rintro ⟨⟨rfl, rfl⟩, rfl⟩
      exact ⟨rest, hinput, houtput⟩
  have hnew : ∀ r record, ¬ Live past r (s.shared.nextResourceHandle + 1) record := by
    intro r record h
    have := h.le_next hinv
    omega
  refine ⟨?_, ?_, ?_, ?_⟩
  · intro r h record
    rw [live_snoc, hgives]
    by_cases hsame : r = resource ∧ h = s.shared.nextResourceHandle + 1
    · obtain ⟨rfl, rfl⟩ := hsame
      change s.shared.set r _ _ r _ = some record ↔ _
      rw [SharedState.set_same]
      constructor
      · exact fun h => Or.inl ⟨⟨rfl, rfl⟩, (Option.some.inj h).symm⟩
      · rintro (⟨-, rfl⟩ | ⟨h, -⟩)
        · rfl
        · exact absurd h (hnew r record)
    · change s.shared.set resource _ _ r h = some record ↔ _
      rw [SharedState.set_other _ _ hsame, hinv.live]
      constructor
      · exact fun hlive => Or.inr ⟨hlive, hremoves r h⟩
      · rintro (⟨heq, -⟩ | ⟨hlive, -⟩)
        · exact absurd heq hsame
        · exact hlive
  · intro x hx r h record hx'
    change h.toNat ≤ (s.shared.nextResourceHandle + 1).toNat
    rcases List.mem_append.mp hx with hx | hx
    · have := hinv.given x hx r h record hx'
      omega
    · rw [List.mem_singleton.mp hx] at hx'
      exact Nat.le_of_eq (congrArg BitVec.toNat ((hgives r h record).mp hx').1.2)
  · intro x hx r h hx'
    rcases List.mem_append.mp hx with hx | hx
    · obtain ⟨hle, hnone⟩ := hinv.removed x hx r h hx'
      refine ⟨?_, ?_⟩
      · change h.toNat ≤ (s.shared.nextResourceHandle + 1).toNat
        omega
      · have hother : ¬ (r = resource ∧ h = s.shared.nextResourceHandle + 1) := by
          rintro ⟨-, rfl⟩
          omega
        change s.shared.set resource _ _ r h = none
        rw [SharedState.set_other _ _ hother]
        exact hnone
    · rw [List.mem_singleton.mp hx] at hx'
      exact absurd hx' (hremoves r h)
  · intro found hfound
    obtain ⟨r, h, record, hrecord, x, hx, hx'⟩ := hinv.waiting found hfound
    exact ⟨r, h, record, hrecord, x, List.mem_append_left _ hx, hx'⟩

theorem ResourceInv.drops (hinv : ResourceInv past s) {resource : R} {handle : BitVec 32}
    {rest : List WasmValue} {record : ResourceRecord D}
    (hinput : now.input = .drop resource (.i32 handle :: rest))
    (houtput : ∀ e, now.output ≠ .returned (.error e))
    (hfound : s.shared.resources resource handle = some record)
    (hshared : t.shared = { s.shared with resources := s.shared.set resource handle none })
    (hwaiting : t.waiting ⊆ s.shared :: s.waiting) : ResourceInv (past ++ [now]) t := by
  have hgives : ∀ r h record, ¬ Gives now r h record := by
    rintro r h record ⟨rest', heq, -⟩
    rw [hinput] at heq
    cases heq
  have hremoves : ∀ r h, Removes now r h ↔ r = resource ∧ h = handle := by
    intro r h
    constructor
    · rintro ⟨⟨rest', heq⟩, -⟩
      rw [hinput] at heq
      obtain ⟨rfl, hargs⟩ := ResourceCall.drop.inj heq
      cases hargs
      exact ⟨rfl, rfl⟩
    · rintro ⟨rfl, rfl⟩
      exact ⟨⟨rest, hinput⟩, houtput⟩
  refine ⟨?_, ?_, ?_, ?_⟩
  · intro r h record'
    rw [live_snoc, hremoves, hshared]
    by_cases hsame : r = resource ∧ h = handle
    · obtain ⟨rfl, rfl⟩ := hsame
      change s.shared.set r h none r h = some record' ↔ _
      rw [SharedState.set_same]
      simp [hgives r h record']
    · change s.shared.set resource handle none r h = some record' ↔ _
      rw [SharedState.set_other _ _ hsame, hinv.live]
      simp [hsame, hgives r h record']
  · intro x hx r h record' hx'
    rw [hshared]
    rcases List.mem_append.mp hx with hx | hx
    · exact hinv.given x hx r h record' hx'
    · rw [List.mem_singleton.mp hx] at hx'
      exact absurd hx' (hgives r h record')
  · intro x hx r h hx'
    rw [hshared]
    by_cases hsame : r = resource ∧ h = handle
    · obtain ⟨rfl, rfl⟩ := hsame
      exact ⟨((hinv.live _ _ _).mp hfound).le_next hinv, SharedState.set_same _ _ _ _⟩
    · rcases List.mem_append.mp hx with hx | hx
      · obtain ⟨hle, hnone⟩ := hinv.removed x hx r h hx'
        refine ⟨hle, ?_⟩
        change s.shared.set resource handle none r h = none
        rw [SharedState.set_other _ _ hsame]
        exact hnone
      · rw [List.mem_singleton.mp hx] at hx'
        exact absurd ((hremoves r h).mp hx') hsame
  · intro found hmem
    rcases List.mem_cons.mp (hwaiting hmem) with rfl | hmem
    · exact ⟨resource, handle, record, hfound, now, by simp, (hremoves _ _).mpr ⟨rfl, rfl⟩⟩
    · obtain ⟨r, h, record', hrecord, x, hx, hx'⟩ := hinv.waiting found hmem
      exact ⟨r, h, record', hrecord, x, List.mem_append_left _ hx, hx'⟩

theorem resourceLaws_of_fits (hinv : ResourceInv past s) {call : ResourceCall R D}
    {outcome : CallOutcome D} (htakes : ResourceTakes s call outcome t)
    (hfits : Fits ⟨s, call, outcome, t⟩) : ResourceLaws past ⟨s, call, outcome, t⟩ where
  new_fresh := by
    rintro resource destructor args handle rfl houtput
    cases htakes with
    | new_fails => cases houtput
    | allocates _ _ rep rest =>
        cases houtput
        have hraised : (s.shared.nextResourceHandle + 1).toNat = _ :=
          next_toNat (hfits.1 resource destructor rep rest rfl)
        refine ⟨?_, ?_⟩
        · intro hzero
          rw [hzero] at hraised
          simp at hraised
        · intro resource' record hlive
          have := hlive.le_next hinv
          omega
  rep_iff := by
    rintro resource handle rest rep rfl
    cases htakes with
    | rep_fails _ _ e hargs =>
        constructor
        · intro houtput
          cases houtput
        · rintro ⟨destructor, hlive⟩
          exact absurd hlive (hinv.not_live hargs rfl)
    | reads _ _ _ record hfound =>
        constructor
        · intro houtput
          cases houtput
          exact ⟨record.destructor, (hinv.live _ _ _).mp hfound⟩
        · rintro ⟨destructor, hlive⟩
          have hsame := (hinv.live _ _ _).mpr hlive
          rw [hfound] at hsame
          rw [Option.some.inj hsame]
  drop_live := by
    rintro resource handle rest record rfl hlive
    have hrecord := (hinv.live _ _ _).mpr hlive
    have hfirst : ∀ x ∈ past, ¬ Removes x resource handle := by
      intro x hx hremoves
      rw [(hinv.removed x hx resource handle hremoves).2] at hrecord
      cases hrecord
    cases htakes with
    | drop_fails _ _ e hargs => exact absurd hlive (hinv.not_live hargs rfl)
    | removes _ _ _ rep hfound =>
        rw [hrecord] at hfound
        cases hfound
        exact ⟨rfl, rfl, hfirst⟩
    | destroys _ _ _ rep destructor hfound =>
        rw [hrecord] at hfound
        cases hfound
        exact ⟨rfl, rfl, hfirst⟩
  drop_dead := by
    rintro resource handle rest rfl hdead
    cases htakes with
    | drop_fails _ _ e => exact ⟨e, rfl⟩
    | removes _ _ _ rep hfound => exact absurd ((hinv.live _ _ _).mp hfound) (hdead _)
    | destroys _ _ _ rep destructor hfound => exact absurd ((hinv.live _ _ _).mp hfound) (hdead _)
  calls := by
    rintro destructor args rfl
    cases htakes with
    | destroys resource handle rest rep _ hfound =>
        exact ⟨resource, handle, rest, rep, rfl, (hinv.live _ _ _).mp hfound⟩
  rep_fails := by
    rintro resource args e rfl rfl
    cases htakes with
    | rep_fails => rfl
  drop_fails := by
    rintro resource args e rfl rfl
    cases htakes with
    | drop_fails => rfl
  destructor_fails := fun e _ _ hinput => absurd hinput (hfits.2 e)

/-- Where the counter goes round the handle is zero; where a destructor fails its record is gone. -/
theorem fits_of_resourceLaws (hinv : ResourceInv past s) {call : ResourceCall R D}
    {outcome : CallOutcome D} (htakes : ResourceTakes s call outcome t)
    (hlaws : ResourceLaws past ⟨s, call, outcome, t⟩) : Fits ⟨s, call, outcome, t⟩ := by
  refine ⟨?_, ?_⟩
  · rintro resource destructor rep rest rfl hnext
    cases htakes with
    | new_fails _ _ _ e hargs => exact hargs rep rest rfl
    | allocates =>
        have hfresh := (hlaws.new_fresh resource destructor _ _ rfl rfl).1
        refine hfresh ?_
        change s.shared.nextResourceHandle = BitVec.allOnes 32 at hnext
        rw [hnext]
        decide
  · rintro e rfl
    cases htakes with
    | finishes _ found waiting hwaiting =>
        have hsame : s.shared = found := hlaws.destructor_fails e found waiting rfl hwaiting
        obtain ⟨resource, handle, record, hrecord, x, hx, hremoves⟩ :=
          hinv.waiting found (by rw [hwaiting]; exact List.mem_cons_self)
        have hnone := (hinv.removed x hx resource handle hremoves).2
        rw [hsame, hrecord] at hnone
        cases hnone

theorem ResourceInv.step (hinv : ResourceInv past s) {call : ResourceCall R D}
    {outcome : CallOutcome D} (htakes : ResourceTakes s call outcome t)
    (hfits : Fits ⟨s, call, outcome, t⟩) : ResourceInv (past ++ [⟨s, call, outcome, t⟩]) t := by
  have hfailed : ∀ e, outcome = .returned (.error e) → t = s →
      ResourceInv (past ++ [⟨s, call, outcome, t⟩]) t := by
    rintro e rfl rfl
    refine hinv.quiet ?_ ?_ rfl (List.Subset.refl _)
    · rintro r h record ⟨rest, -, houtput⟩
      cases houtput
    · rintro r h ⟨-, houtput⟩
      exact houtput e rfl
  cases htakes with
  | allocates resource destructor rep rest =>
      exact hinv.allocates (hfits.1 resource destructor rep rest rfl) rfl rfl
  | new_fails _ _ _ e => exact hfailed e rfl rfl
  | drop_fails _ _ e => exact hfailed e rfl rfl
  | rep_fails _ _ e => exact hfailed e rfl rfl
  | removes resource handle rest rep hfound =>
      exact hinv.drops rfl (fun e h => by cases h) hfound rfl (List.subset_cons_self _ _)
  | destroys resource handle rest rep destructor hfound =>
      exact hinv.drops rfl (fun e h => by cases h) hfound rfl (List.Subset.refl _)
  | reads resource handle rest record hfound =>
      refine hinv.quiet ?_ ?_ rfl (List.Subset.refl _)
      · rintro r h record' ⟨rest', hinput, -⟩
        cases hinput
      · rintro r h ⟨⟨rest', hinput⟩, -⟩
        cases hinput
  | finishes result found waiting hwaiting =>
      refine hinv.quiet ?_ ?_ rfl ?_
      · rintro r h record ⟨rest', hinput, -⟩
        cases hinput
      · rintro r h ⟨⟨rest', hinput⟩, -⟩
        cases hinput
      · rw [hwaiting]
        exact List.subset_cons_self _ _

/-- Over a whole run, with destructors calling the table while drops wait for them, the laws hold at
each call exactly when the counter is never raised beyond its last value and no destructor fails. -/
theorem resource_laws_iff {calls : List (ResourceCall R D)} {run : List (ResourceMoment R D)}
    (hrun : Lib.moments resourceStep ResourceState.empty calls = some run) :
    Lib.EachMoment ResourceLaws run ↔ ∀ now ∈ run, Fits now := by
  refine Lib.eachMoment_iff ResourceInv ?_ resourceInv_empty hrun
  intro past s call outcome t hinv hstep
  have htakes := resourceStep_takes hstep
  exact ⟨⟨fits_of_resourceLaws hinv htakes, resourceLaws_of_fits hinv htakes⟩, hinv.step htakes⟩

end runs

private def allocation : ResourceCall Unit Unit := .new () none [.i32 0]

private theorem allocations_run (n : Nat) (s : ResourceState Unit Unit) :
    ∃ run, Lib.moments resourceStep s (List.replicate n allocation) = some run := by
  induction n generalizing s with
  | zero => exact ⟨[], rfl⟩
  | succ n ih =>
      obtain ⟨run, hrun⟩ := ih { s with shared := (s.shared.allocResource () 0 none).2 }
      refine ⟨⟨s, allocation, .returned (.ok [.i32 (s.shared.nextResourceHandle + 1)]),
        { s with shared := (s.shared.allocResource () 0 none).2 }⟩ :: run, ?_⟩
      rw [List.replicate_succ, Lib.moments]
      change (Lib.moments resourceStep { s with shared := (s.shared.allocResource () 0 none).2 }
        (List.replicate n allocation)).bind _ = _
      rw [hrun]
      rfl

/-- After `n` more handles comes the zero handle. -/
private theorem allocations_zero (n : Nat) {s : ResourceState Unit Unit}
    {run : List (ResourceMoment Unit Unit)} (hnext : s.shared.nextResourceHandle.toNat + n = 2 ^ 32 - 1)
    (hrun : Lib.moments resourceStep s (List.replicate (n + 1) allocation) = some run) :
    ∃ (past : List (ResourceMoment Unit Unit)) (now : ResourceMoment Unit Unit),
      run = past ++ [now] ∧ now.input = allocation ∧ now.output = .returned (.ok [.i32 0]) := by
  induction n generalizing s run with
  | zero =>
      obtain ⟨output, t, later, hstep, hlater, rfl⟩ := Lib.moments_cons hrun
      obtain rfl : [] = later := by simpa [Lib.moments] using hlater
      have hall : s.shared.nextResourceHandle = BitVec.allOnes 32 :=
        BitVec.eq_of_toNat_eq (by rw [BitVec.toNat_allOnes]; omega)
      cases hstep
      refine ⟨[], _, rfl, rfl, ?_⟩
      change CallOutcome.returned (.ok [.i32 (s.shared.nextResourceHandle + 1)]) = _
      rw [hall]
      rfl
  | succ n ih =>
      obtain ⟨output, t, later, hstep, hlater, rfl⟩ := Lib.moments_cons hrun
      cases hstep
      have hne : s.shared.nextResourceHandle ≠ BitVec.allOnes 32 := by
        intro hall
        rw [hall, BitVec.toNat_allOnes] at hnext
        omega
      have hraised := next_toNat hne
      have hnext' : (s.shared.nextResourceHandle + 1).toNat + n = 2 ^ 32 - 1 := by omega
      obtain ⟨past, now, rfl, hinput, houtput⟩ := ih hnext' hlater
      exact ⟨_ :: past, now, rfl, hinput, houtput⟩

/-- The last of 2^32 handles is zero. -/
theorem handles_go_round :
    ∃ run, Lib.moments resourceStep (ResourceState.empty : ResourceState Unit Unit)
        (List.replicate (2 ^ 32) (.new () none [.i32 0])) = some run ∧
      ¬ Lib.EachMoment ResourceLaws run := by
  obtain ⟨run, hrun⟩ := allocations_run (2 ^ 32) ResourceState.empty
  refine ⟨run, hrun, ?_⟩
  intro hlaws
  have hlast : List.replicate (2 ^ 32) allocation = List.replicate (2 ^ 32 - 1 + 1) allocation := by
    rw [Nat.sub_add_cancel (Nat.one_le_two_pow)]
  rw [hlast] at hrun
  obtain ⟨past, now, rfl, hinput, houtput⟩ := allocations_zero (2 ^ 32 - 1) (Nat.zero_add _) hrun
  have hfresh := (hlaws past now [] rfl).new_fresh () none _ 0 hinput houtput
  exact hfresh.1 rfl

/-- A resource is made, read and dropped; its destructor makes another and returns. -/
private def nestedCalls : List (ResourceCall Nat Nat) :=
  [.new 0 (some 5) [.i32 7], .rep 0 [.i32 1], .drop 0 [.i32 1], .new 1 none [.i32 9],
    .finish (.ok []), .rep 0 [.i32 1]]

theorem resource_laws_iff_nested :
    ∃ run, Lib.moments resourceStep ResourceState.empty nestedCalls = some run ∧
      Lib.EachMoment ResourceLaws run := by
  refine ⟨_, rfl, (@resource_laws_iff Nat Nat _ nestedCalls _ rfl).mpr ?_⟩
  intro now hmem
  simp only [List.mem_cons, List.not_mem_nil, or_false] at hmem
  rcases hmem with rfl | rfl | rfl | rfl | rfl | rfl
  all_goals
    refine ⟨?_, fun e h => by cases h⟩
    rintro resource destructor rep rest h
    cases h <;> decide

end Telomere.Component
