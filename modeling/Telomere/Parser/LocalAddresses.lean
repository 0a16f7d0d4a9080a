import Telomere.Common.Types
import Telomere.Lib.Except
import Telomere.Lib.Regroup

/-!
# Addresses of locals

Locals are regrouped by type, indices stay as declared. Arithmetic on `u32` that the code does not
check is that of the build, which wraps or stops.
-/

namespace Telomere.Parser

open Lib

inductive LocalsError where
  | tooManyLocals
  | invalidLocalIndex (idx : Nat)
  | overflow
deriving DecidableEq, Repr

/-- What a build does when unchecked arithmetic overflows. -/
inductive Build where
  | wrapping
  | checking
deriving DecidableEq, Repr

def unchecked : Build → Nat → Except LocalsError Nat
  | .wrapping, n => .ok (n % 2 ^ 32)
  | .checking, n => if n < 2 ^ 32 then .ok n else .error .overflow

/-- A result of `checked_add` or `checked_mul`. -/
def checked (n : Nat) : Except LocalsError Nat :=
  if n < 2 ^ 32 then .ok n else .error .tooManyLocals

structure Locals where
  n : Nat
  t : ValType
deriving DecidableEq, Repr

/-- The counters of `LocalsData`, by type. -/
abbrev Counts := ValType → Nat

def Counts.add (build : Build) (counts : Counts) (l : Locals) : Except LocalsError Counts := do
  let sum ← unchecked build (counts l.t + l.n)
  return Function.update counts l.t sum

/-- `LocalsData::from` -/
def localsData (build : Build) (locals : List Locals) : Except LocalsError Counts :=
  locals.foldlM (Counts.add build) fun _ => 0

/-- What is added up for a base: `self` has the counts of all locals, `count` is that of the type so
far. -/
def baseAddr (build : Build) (self : Counts) (count : Nat) : ValType → Except LocalsError Nat
  | .i32 => checked (count * 4)
  | .f32 => do
      let words ← unchecked build (self .i32 + count)
      checked (words * 4)
  | .funcRef => do
      let words ← unchecked build (self .i32 + self .f32)
      let words ← unchecked build (words + count)
      checked (words * 4)
  | .externRef => do
      let words ← unchecked build (self .i32 + self .f32)
      let words ← unchecked build (words + self .funcRef)
      let words ← unchecked build (words + count)
      checked (words * 4)
  | .i64 => do
      let words ← unchecked build (self .i32 + self .f32)
      let words ← unchecked build (words + self .funcRef)
      let words ← unchecked build (words + self .externRef)
      let low ← checked (words * 4)
      let high ← checked (count * 8)
      unchecked build (low + high)
  | .f64 => do
      let words ← unchecked build (self .i32 + self .f32)
      let words ← unchecked build (words + self .funcRef)
      let words ← unchecked build (words + self .externRef)
      let low ← checked (words * 4)
      let longs ← unchecked build (self .i64 + count)
      let high ← checked (longs * 8)
      unchecked build (low + high)
  | .v128 => do
      let words ← unchecked build (self .i32 + self .f32)
      let words ← unchecked build (words + self .funcRef)
      let words ← unchecked build (words + self .externRef)
      let low ← checked (words * 4)
      let longs ← unchecked build (self .i64 + self .f64)
      let high ← checked (longs * 8)
      let sum ← unchecked build (low + high)
      let top ← checked (count * 16)
      unchecked build (sum + top)

structure ReassignEntry where
  bound : Nat
  t : ValType
  base : Nat
deriving DecidableEq, Repr

/-- The loop of `create_reassignment_table`, with the count of the locals and of those of each type so
far. -/
def reassign (build : Build) (self : Counts) :
    Nat → Counts → List Locals → Except LocalsError (List ReassignEntry)
  | _, _, [] => .ok []
  | index, counts, ⟨n, t⟩ :: locals => do
      let index ← checked (index + n)
      let base ← baseAddr build self (counts t) t
      let count ← checked (counts t + n)
      let table ← reassign build self index (Function.update counts t count) locals
      return ⟨index, t, base⟩ :: table

def createReassignmentTable (build : Build) (locals : List Locals) :
    Except LocalsError (List ReassignEntry) := do
  let self ← localsData build locals
  reassign build self 0 (fun _ => 0) locals

def validateLocals (locals : List Locals) : Except LocalsError Nat :=
  locals.foldlM (fun count l => checked (count + l.n)) 0

section address

variable (build : Build) (idx : Nat)

/-- The second loop of `get_local_addr`. -/
def localAddr (paramLen paramAddr : Nat) : Nat → List ReassignEntry →
    Except LocalsError (ValType × Nat)
  | _, [] => .error (.invalidLocalIndex idx)
  | i, ⟨n, t, base⟩ :: table => do
      let bound ← unchecked build (paramLen + n)
      if idx < bound then do
        let start ← unchecked build (paramAddr + base)
        let offset ← unchecked build ((idx - i) * t.stackSize)
        let addr ← unchecked build (start + offset)
        return (t, addr)
      else do
        let i ← unchecked build (paramLen + n)
        localAddr paramLen paramAddr i table

/-- The first loop of `get_local_addr`. -/
def paramAddr (table : List ReassignEntry) : Nat → Nat → List ValType →
    Except LocalsError (ValType × Nat)
  | i, addr, [] => localAddr build idx i addr i table
  | i, addr, t :: params => do
      let next ← unchecked build (i + 1)
      if idx < next then return (t, addr)
      else do
        let addr ← unchecked build (addr + t.stackSize)
        let i ← unchecked build (i + 1)
        paramAddr table i addr params

def getLocalAddr (params : List ValType) (table : List ReassignEntry) :
    Except LocalsError (ValType × Nat) :=
  paramAddr build idx table 0 0 params

end address

/-- The types of the locals, in the order of their indices. -/
def localTypes (locals : List Locals) : List ValType :=
  locals.flatMap fun l => List.replicate l.n l.t

def typeOrder : List ValType := [.i32, .f32, .funcRef, .externRef, .i64, .f64, .v128]

theorem mem_typeOrder (t : ValType) : t ∈ typeOrder := by
  cases t <;> decide

/-- Where a declaration starts, from the types of the locals before it. -/
def declStart (items done : List ValType) (t : ValType) : Nat :=
  regionStart ValType.stackSize items typeOrder t + done.count t * t.stackSize

def localStart (items : List ValType) (j : Nat) (t : ValType) : Nat :=
  itemPlace ValType.stackSize items typeOrder j t

/-- The parser takes the declarations, in a build that wraps. -/
def LocalsAccepted (locals : List Locals) : Prop :=
  ∃ table count, createReassignmentTable .wrapping locals = .ok table ∧
    validateLocals locals = .ok count

/-- The addresses of parameters and locals are what they should be, and no arithmetic overflows. -/
structure AddressesExact (params : List ValType) (locals : List Locals)
    (table : List ReassignEntry) : Prop where
  table_ok : createReassignmentTable .checking locals = .ok table
  unknown : ∀ idx < 2 ^ 32, params.length + (localTypes locals).length ≤ idx →
    getLocalAddr .checking idx params table = .error (.invalidLocalIndex idx)
  known : ∀ idx < 2 ^ 32, ∀ t, (params ++ localTypes locals)[idx]? = some t →
    ∃ addr, getLocalAddr .checking idx params table = .ok (t, addr) ∧
      addr + t.stackSize ≤ stackBytes params + stackBytes (localTypes locals) ∧
      (idx < params.length → addr = stackBytes (params.take idx))
  apart : ∀ idx < 2 ^ 32, ∀ idx' < 2 ^ 32, idx ≠ idx' → ∀ t addr t' addr',
    getLocalAddr .checking idx params table = .ok (t, addr) →
    getLocalAddr .checking idx' params table = .ok (t', addr') →
      addr + t.stackSize ≤ addr' ∨ addr' + t'.stackSize ≤ addr

/-- Everything starts below 2^32: the locals, counted from the first parameter, and the declarations,
also those of no local, counted from the first local. -/
structure StartsBelow (params : List ValType) (locals : List Locals) : Prop where
  indices : params.length + (localTypes locals).length < 2 ^ 32
  paramBytes : stackBytes params < 2 ^ 32
  starts : ∀ j t, (localTypes locals)[j]? = some t →
    stackBytes params + localStart (localTypes locals) j t < 2 ^ 32
  decls : ∀ before (l : Locals) after, locals = before ++ l :: after →
    declStart (localTypes locals) (localTypes before) l.t < 2 ^ 32

section arithmetic

variable {build : Build} {n m : Nat}

theorem below_eq_ok {e : LocalsError} :
    (if n < 2 ^ 32 then Except.ok n else .error e) = .ok m ↔ n = m ∧ n < 2 ^ 32 := by
  by_cases h : n < 2 ^ 32
  · rw [if_pos h, Except.ok.injEq]
    exact ⟨fun heq => ⟨heq, h⟩, And.left⟩
  · rw [if_neg h]
    exact iff_of_false (fun heq => by contradiction) fun heq => h heq.2

@[simp] theorem unchecked_eq_ok : unchecked .checking n = .ok m ↔ n = m ∧ n < 2 ^ 32 := below_eq_ok

@[simp] theorem checked_eq_ok : checked n = .ok m ↔ n = m ∧ n < 2 ^ 32 := below_eq_ok

theorem unchecked_of_lt (build : Build) (h : n < 2 ^ 32) : unchecked build n = .ok n := by
  cases build with
  | wrapping => rw [unchecked, Nat.mod_eq_of_lt h]
  | checking => exact if_pos h

theorem regionStart_typeOrder (items : List ValType) (t : ValType) :
    regionStart ValType.stackSize items typeOrder t =
      let words := items.count .i32 + items.count .f32 + items.count .funcRef
      match t with
      | .i32 => 0
      | .f32 => items.count .i32 * 4
      | .funcRef => (items.count .i32 + items.count .f32) * 4
      | .externRef => words * 4
      | .i64 => (words + items.count .externRef) * 4
      | .f64 => (words + items.count .externRef) * 4 + items.count .i64 * 8
      | .v128 => (words + items.count .externRef) * 4 +
          (items.count .i64 + items.count .f64) * 8 := by
  cases t <;> simp [regionStart, typeOrder, ValType.stackSize] <;> omega

theorem baseAddr_eq_ok {items : List ValType} {count base : Nat} {t : ValType} :
    baseAddr .checking (fun t => items.count t) count t = .ok base ↔
      regionStart ValType.stackSize items typeOrder t + count * t.stackSize = base ∧
        base < 2 ^ 32 := by
  rw [regionStart_typeOrder]
  cases t with
  | i32 =>
      simp only [baseAddr, checked_eq_ok, ValType.stackSize]
      omega
  | f32 | funcRef | externRef | i64 | f64 | v128 =>
      simp only [baseAddr, bind_eq_ok, unchecked_eq_ok, checked_eq_ok, and_assoc,
        exists_eq_left', ValType.stackSize]
      omega

end arithmetic

section table

variable {build : Build} {items done : List ValType} {locals : List Locals}
  {table : List ReassignEntry} {index : Nat}

@[simp] theorem localTypes_nil : localTypes [] = [] := rfl

@[simp] theorem localTypes_cons (l : Locals) (locals : List Locals) :
    localTypes (l :: locals) = List.replicate l.n l.t ++ localTypes locals := rfl

theorem update_count (done : List ValType) (l : Locals) :
    Function.update (fun t => done.count t) l.t (done.count l.t + l.n) =
      fun t => (done ++ List.replicate l.n l.t).count t := by
  funext t
  by_cases ht : t = l.t
  · subst ht
    simp
  · simp [Function.update_of_ne ht, List.count_replicate, Ne.symm ht]

theorem localsData_foldl (build : Build) (done : List ValType) (locals : List Locals)
    (hsum : (done ++ localTypes locals).length < 2 ^ 32) :
    locals.foldlM (Counts.add build) (fun t => done.count t) =
      .ok fun t => (done ++ localTypes locals).count t := by
  induction locals generalizing done with
  | nil => simp [pure, Except.pure]
  | cons l locals ih =>
      have hone : done.count l.t + l.n < 2 ^ 32 := by
        have hcount : done.count l.t ≤ done.length := List.count_le_length
        simp only [localTypes_cons, List.length_append, List.length_replicate] at hsum
        omega
      have hadd : Counts.add build (fun t => done.count t) l =
          .ok fun t => (done ++ List.replicate l.n l.t).count t := by
        rw [Counts.add, unchecked_of_lt build hone, ok_bind, update_count]
        rfl
      rw [localTypes_cons, ← List.append_assoc] at hsum
      rw [List.foldlM_cons, hadd, ok_bind, ih _ hsum, localTypes_cons, List.append_assoc]

theorem localsData_eq (build : Build) (hsum : (localTypes locals).length < 2 ^ 32) :
    localsData build locals = .ok fun t => (localTypes locals).count t :=
  localsData_foldl build [] locals hsum

def layoutTable (items : List ValType) : List ValType → List Locals → List ReassignEntry
  | _, [] => []
  | done, ⟨n, t⟩ :: locals =>
    ⟨(done ++ List.replicate n t).length, t, declStart items done t⟩ ::
      layoutTable items (done ++ List.replicate n t) locals

def DeclsBelow (items done : List ValType) (locals : List Locals) : Prop :=
  ∀ before (l : Locals) after, locals = before ++ l :: after →
    declStart items (done ++ localTypes before) l.t < 2 ^ 32

theorem declsBelow_nil : DeclsBelow items done [] := by
  intro before l after h
  simp at h

theorem declsBelow_cons {l : Locals} :
    DeclsBelow items done (l :: locals) ↔
      declStart items done l.t < 2 ^ 32 ∧
        DeclsBelow items (done ++ List.replicate l.n l.t) locals := by
  constructor
  · intro h
    refine ⟨by simpa using h [] l locals rfl, fun before l' after heq => ?_⟩
    have hlater := h (l :: before) l' after (by rw [heq, List.cons_append])
    rwa [localTypes_cons, ← List.append_assoc] at hlater
  · rintro ⟨hfirst, hrest⟩ before l' after heq
    cases before with
    | nil =>
        obtain ⟨rfl, -⟩ := List.cons.inj heq
        simpa using hfirst
    | cons first before =>
        obtain ⟨rfl, htail⟩ := List.cons.inj heq
        rw [localTypes_cons, ← List.append_assoc]
        exact hrest before l' after htail

/-- The loop makes the table when its bases are below 2^32, and stops when one is not. -/
theorem reassign_checking_iff (hsum : (done ++ localTypes locals).length < 2 ^ 32) :
    reassign .checking (fun t => items.count t) done.length (fun t => done.count t) locals =
        .ok table ↔
      table = layoutTable items done locals ∧ DeclsBelow items done locals := by
  induction locals generalizing done table with
  | nil =>
      simp only [reassign, layoutTable, Except.ok.injEq, declsBelow_nil, and_true]
      exact eq_comm
  | cons l locals ih =>
      obtain ⟨n, t⟩ := l
      have hsum' := hsum
      rw [localTypes_cons, ← List.append_assoc] at hsum'
      have hindex : done.length + n < 2 ^ 32 := by
        simp only [localTypes_cons, List.length_append, List.length_replicate] at hsum
        omega
      have hcount : done.count t + n < 2 ^ 32 := by
        have hle : done.count t ≤ done.length := List.count_le_length
        omega
      have hlength : done.length + n = (done ++ List.replicate n t).length := by simp
      rw [reassign, declsBelow_cons, layoutTable]
      simp only [bind_eq_ok, checked_eq_ok, baseAddr_eq_ok, and_assoc, exists_eq_left', pure_eq_ok]
      rw [update_count done ⟨n, t⟩, hlength]
      constructor
      · rintro ⟨-, hstart, -, rest, hrest, rfl⟩
        obtain ⟨rfl, hbelow⟩ := (ih hsum').mp hrest
        exact ⟨rfl, hstart, hbelow⟩
      · rintro ⟨rfl, hstart, hbelow⟩
        exact ⟨hlength ▸ hindex, hstart, hcount, _, (ih hsum').mpr ⟨rfl, hbelow⟩, rfl⟩

theorem reassign_index {self counts : Counts} (hindex : index < 2 ^ 32)
    (h : reassign build self index counts locals = .ok table) :
    index + (localTypes locals).length < 2 ^ 32 := by
  induction locals generalizing index counts table with
  | nil => simpa using hindex
  | cons l locals ih =>
      obtain ⟨_, hnext, h⟩ := bind_eq_ok.mp h
      obtain ⟨_, -, h⟩ := bind_eq_ok.mp h
      obtain ⟨_, -, h⟩ := bind_eq_ok.mp h
      obtain ⟨_, hrest, -⟩ := bind_eq_ok.mp h
      obtain ⟨rfl, hlt⟩ := checked_eq_ok.mp hnext
      have hlater := ih hlt hrest
      simp only [localTypes_cons, List.length_append, List.length_replicate]
      omega

end table

section addresses

variable {items done params : List ValType} {locals : List Locals} {table : List ReassignEntry}
  {idx i addr paramLen paramBytes : Nat} {t : ValType}

theorem localStart_of_decl {n j : Nat} {rest : List ValType}
    (hitems : items = done ++ List.replicate n t ++ rest) (hj : done.length ≤ j)
    (hlt : j < done.length + n) :
    localStart items j t = declStart items done t + (j - done.length) * t.stackSize := by
  have hcount : (items.take j).count t = done.count t + (j - done.length) := by
    have hmin : min (j - done.length) n = j - done.length := by omega
    have hzero : j - done.length - n = 0 := by omega
    rw [hitems, List.append_assoc, List.take_append, List.take_of_length_le hj, List.take_append,
      List.take_replicate, hmin, List.length_replicate, hzero, List.take_zero, List.append_nil,
      List.count_append, List.count_replicate_self]
  unfold localStart itemPlace declStart
  rw [hcount, Nat.add_mul]
  omega

/-- Two overflow checks on the way to a sum say nothing beyond that of the sum. -/
theorem unchecked_sum (x y : Nat) (f : Nat → Except LocalsError (ValType × Nat)) :
    (do
      let x ← unchecked .checking x
      let y ← unchecked .checking y
      let sum ← unchecked .checking (x + y)
      f sum) = unchecked .checking (x + y) >>= f := by
  unfold unchecked
  by_cases hx : x < 2 ^ 32
  · by_cases hy : y < 2 ^ 32
    · simp only [if_pos hx, if_pos hy, ok_bind]
    · have hsum : ¬x + y < 2 ^ 32 := by omega
      simp only [if_pos hx, if_neg hy, if_neg hsum, ok_bind, error_bind]
  · have hsum : ¬x + y < 2 ^ 32 := by omega
    simp only [if_neg hx, if_neg hsum, error_bind]

theorem localAddr_known (hitems : items = done ++ localTypes locals)
    (hsum : paramLen + items.length < 2 ^ 32) {j : Nat} (hj : done.length ≤ j)
    (hget : items[j]? = some t) :
    localAddr .checking (paramLen + j) paramLen paramBytes (paramLen + done.length)
        (layoutTable items done locals) =
      unchecked .checking (paramBytes + localStart items j t) >>= fun addr => .ok (t, addr) := by
  have hlt : j < items.length := (List.getElem?_eq_some_iff.mp hget).1
  induction locals generalizing done with
  | nil =>
      simp only [localTypes_nil, List.append_nil] at hitems
      rw [hitems] at hlt
      omega
  | cons l locals ih =>
      obtain ⟨n, t'⟩ := l
      simp only [localTypes_cons, ← List.append_assoc] at hitems
      have hlength : (done ++ List.replicate n t').length = done.length + n := by simp
      have hbelow : paramLen + (done ++ List.replicate n t').length < 2 ^ 32 := by
        rw [hitems, List.length_append] at hsum
        omega
      simp only [layoutTable, localAddr, unchecked_of_lt .checking hbelow, ok_bind]
      by_cases hhere : j < done.length + n
      · have htype : t' = t := by
          rw [hitems, List.append_assoc, List.getElem?_append_right hj,
            List.getElem?_append_left (by simpa using (by omega : j - done.length < n)),
            List.getElem?_replicate] at hget
          simpa [show j - done.length < n by omega] using hget
        subst htype
        have hbound : paramLen + j < paramLen + (done ++ List.replicate n t').length := by omega
        have hoffset : paramLen + j - (paramLen + done.length) = j - done.length := by omega
        rw [if_pos hbound, hoffset, unchecked_sum, localStart_of_decl hitems hj hhere,
          Nat.add_assoc]
        rfl
      · have hbound : ¬paramLen + j < paramLen + (done ++ List.replicate n t').length := by omega
        rw [if_neg hbound]
        exact ih hitems (by omega)

theorem localAddr_unknown (hsum : paramLen + (done ++ localTypes locals).length < 2 ^ 32)
    (hidx : paramLen + (done ++ localTypes locals).length ≤ idx) :
    localAddr .checking idx paramLen paramBytes i (layoutTable items done locals) =
      .error (.invalidLocalIndex idx) := by
  induction locals generalizing done i with
  | nil => rfl
  | cons l locals ih =>
      obtain ⟨n, t⟩ := l
      simp only [localTypes_cons, ← List.append_assoc] at hsum hidx
      have hlength : (done ++ List.replicate n t ++ localTypes locals).length =
          (done ++ List.replicate n t).length + (localTypes locals).length := List.length_append
      have hbelow : paramLen + (done ++ List.replicate n t).length < 2 ^ 32 := by omega
      have hbound : ¬idx < paramLen + (done ++ List.replicate n t).length := by omega
      simp only [layoutTable, localAddr, unchecked_of_lt .checking hbelow, ok_bind, if_neg hbound]
      exact ih hsum hidx

theorem paramAddr_known (hsum : i + params.length < 2 ^ 32)
    (hbytes : addr + stackBytes params < 2 ^ 32) {k : Nat} (hget : params[k]? = some t) :
    paramAddr .checking (i + k) table i addr params =
      .ok (t, addr + stackBytes (params.take k)) := by
  induction params generalizing i addr k with
  | nil => simp at hget
  | cons first params ih =>
      simp only [List.length_cons, stackBytes_cons] at hsum hbytes
      have hnext : i + 1 < 2 ^ 32 := by omega
      have haddr : addr + first.stackSize < 2 ^ 32 := by omega
      simp only [paramAddr, unchecked_of_lt .checking hnext, unchecked_of_lt .checking haddr, ok_bind]
      cases k with
      | zero =>
          obtain rfl : first = t := by simpa using hget
          rw [if_pos (by omega)]
          simp [pure, Except.pure]
      | succ k =>
          rw [if_neg (by omega), show i + (k + 1) = i + 1 + k by omega,
            ih (by omega) (by omega) (by simpa using hget), List.take_succ_cons, stackBytes_cons,
            Nat.add_assoc]

theorem paramAddr_locals (hsum : i + params.length < 2 ^ 32)
    (hbytes : addr + stackBytes params < 2 ^ 32) (hidx : i + params.length ≤ idx) :
    paramAddr .checking idx table i addr params =
      localAddr .checking idx (i + params.length) (addr + stackBytes params)
        (i + params.length) table := by
  induction params generalizing i addr with
  | nil => simp [paramAddr]
  | cons first params ih =>
      simp only [List.length_cons, stackBytes_cons] at hsum hbytes hidx
      have hnext : i + 1 < 2 ^ 32 := by omega
      have haddr : addr + first.stackSize < 2 ^ 32 := by omega
      simp only [paramAddr, unchecked_of_lt .checking hnext, unchecked_of_lt .checking haddr, ok_bind]
      rw [if_neg (by omega), ih (by omega) (by omega) (by omega), List.length_cons,
        stackBytes_cons, Nat.add_assoc, Nat.add_assoc, Nat.add_comm 1]

theorem localAddr_max : ∀ r, localAddr .checking (2 ^ 32 - 1) paramLen paramBytes i table ≠ .ok r := by
  intro r h
  induction table generalizing i with
  | nil => simp [localAddr] at h
  | cons entry table ih =>
      obtain ⟨bound, hbound, h⟩ := bind_eq_ok.mp h
      obtain ⟨rfl, hlt⟩ := unchecked_eq_ok.mp hbound
      rw [if_neg (by omega)] at h
      obtain ⟨i, -, h⟩ := bind_eq_ok.mp h
      exact ih h

theorem paramAddr_max : ∀ r, paramAddr .checking (2 ^ 32 - 1) table i addr params ≠ .ok r := by
  intro r h
  induction params generalizing i addr with
  | nil => exact localAddr_max r h
  | cons first params ih =>
      obtain ⟨bound, hbound, h⟩ := bind_eq_ok.mp h
      obtain ⟨rfl, hlt⟩ := unchecked_eq_ok.mp hbound
      rw [if_neg (by omega)] at h
      obtain ⟨addr, -, h⟩ := bind_eq_ok.mp h
      obtain ⟨i, -, h⟩ := bind_eq_ok.mp h
      exact ih h

theorem unchecked_then_error {n : Nat} {f : Nat → Except LocalsError (ValType × Nat)}
    (h : unchecked .checking n >>= f = .error (.invalidLocalIndex idx)) :
    n < 2 ^ 32 ∧ f n = .error (.invalidLocalIndex idx) := by
  by_cases hlt : n < 2 ^ 32
  · rw [unchecked_of_lt .checking hlt, ok_bind] at h
    exact ⟨hlt, h⟩
  · have hover : unchecked .checking n = .error .overflow := if_neg hlt
    rw [hover, error_bind, Except.error.injEq] at h
    contradiction

theorem paramAddr_bytes (haddr : addr < 2 ^ 32)
    (h : paramAddr .checking idx table i addr params = .error (.invalidLocalIndex idx)) :
    addr + stackBytes params < 2 ^ 32 := by
  induction params generalizing i addr with
  | nil => simpa using haddr
  | cons first params ih =>
      obtain ⟨-, h⟩ := unchecked_then_error h
      by_cases hhere : idx < i + 1
      · rw [if_pos hhere] at h
        contradiction
      · rw [if_neg hhere] at h
        obtain ⟨hlt, h⟩ := unchecked_then_error h
        obtain ⟨-, h⟩ := unchecked_then_error h
        have hrest := ih hlt h
        rw [stackBytes_cons]
        omega

end addresses

/-! ## Exactness -/

variable {params : List ValType} {locals : List Locals}

theorem LocalsAccepted.length_lt (h : LocalsAccepted locals) :
    (localTypes locals).length < 2 ^ 32 := by
  obtain ⟨table, count, htable, -⟩ := h
  obtain ⟨self, -, htable⟩ := bind_eq_ok.mp htable
  have hindex := reassign_index (by decide) htable
  rwa [Nat.zero_add] at hindex

/-- The table of a build that checks, for declarations that the parser takes. -/
theorem createReassignmentTable_iff (hsum : (localTypes locals).length < 2 ^ 32)
    {table : List ReassignEntry} :
    createReassignmentTable .checking locals = .ok table ↔
      table = layoutTable (localTypes locals) [] locals ∧
        DeclsBelow (localTypes locals) [] locals := by
  unfold createReassignmentTable
  rw [localsData_eq .checking hsum, ok_bind]
  have hall : ([] ++ localTypes locals).length < 2 ^ 32 := hsum
  exact reassign_checking_iff hall

theorem stackBytes_localTypes (items : List ValType) :
    regionsEnd ValType.stackSize items typeOrder = stackBytes items :=
  regionsEnd_eq (by decide) fun t _ => mem_typeOrder t

theorem getLocalAddr_local (hindices : params.length + (localTypes locals).length < 2 ^ 32)
    (hbytes : stackBytes params < 2 ^ 32) {j : Nat} {t : ValType}
    (hget : (localTypes locals)[j]? = some t) :
    getLocalAddr .checking (params.length + j) params (layoutTable (localTypes locals) [] locals) =
      unchecked .checking (stackBytes params + localStart (localTypes locals) j t) >>=
        fun addr => .ok (t, addr) := by
  have hlocal : localAddr .checking (params.length + j) params.length (stackBytes params)
      (params.length + ([] : List ValType).length) (layoutTable (localTypes locals) [] locals) = _ :=
    localAddr_known (List.nil_append _).symm hindices (Nat.zero_le j) hget
  unfold getLocalAddr
  rw [paramAddr_locals (by omega) (by omega) (by omega), Nat.zero_add, Nat.zero_add]
  exact hlocal

theorem getLocalAddr_param (hindices : params.length < 2 ^ 32) (hbytes : stackBytes params < 2 ^ 32)
    {table : List ReassignEntry} {idx : Nat} {t : ValType} (hget : params[idx]? = some t) :
    getLocalAddr .checking idx params table = .ok (t, stackBytes (params.take idx)) := by
  have hparam : paramAddr .checking (0 + idx) table 0 0 params =
      .ok (t, 0 + stackBytes (params.take idx)) :=
    paramAddr_known (by omega) (by omega) hget
  rwa [Nat.zero_add, Nat.zero_add] at hparam

theorem getLocalAddr_unknown (hindices : params.length + (localTypes locals).length < 2 ^ 32)
    (hbytes : stackBytes params < 2 ^ 32) {idx : Nat}
    (hidx : params.length + (localTypes locals).length ≤ idx) :
    getLocalAddr .checking idx params (layoutTable (localTypes locals) [] locals) =
      .error (.invalidLocalIndex idx) := by
  unfold getLocalAddr
  rw [paramAddr_locals (by omega) (by omega) (by omega), Nat.zero_add, Nat.zero_add]
  exact localAddr_unknown hindices hidx

theorem param_end_le {idx bound : Nat} {t : ValType} (hget : params[idx]? = some t)
    (hlt : idx < bound) :
    stackBytes (params.take idx) + t.stackSize ≤ stackBytes (params.take bound) := by
  obtain ⟨hlen, hget⟩ := List.getElem?_eq_some_iff.mp hget
  have hnext : stackBytes (params.take (idx + 1)) = stackBytes (params.take idx) + t.stackSize := by
    rw [List.take_succ_eq_append_getElem hlen, stackBytes_append, hget]
    simp
  have hsplit : params.take bound = params.take (idx + 1) ++ (params.take bound).drop (idx + 1) := by
    have htake : (params.take bound).take (idx + 1) = params.take (idx + 1) := by
      rw [List.take_take, Nat.min_eq_left hlt]
    rw [← htake, List.take_append_drop]
  rw [hsplit, stackBytes_append, hnext]
  omega

theorem local_end_le {items : List ValType} {j : Nat} {t : ValType} (hget : items[j]? = some t) :
    localStart items j t + t.stackSize ≤ stackBytes items := by
  rw [← stackBytes_localTypes]
  exact Nat.le_trans (itemPlace_end_le typeOrder hget) (regionStart_add_le (mem_typeOrder t))

section exact

variable (h : StartsBelow params locals)
include h

theorem StartsBelow.local_ok {j : Nat} {t : ValType} (hget : (localTypes locals)[j]? = some t) :
    getLocalAddr .checking (params.length + j) params (layoutTable (localTypes locals) [] locals) =
      .ok (t, stackBytes params + localStart (localTypes locals) j t) := by
  rw [getLocalAddr_local h.indices h.paramBytes hget,
    unchecked_of_lt .checking (h.starts j t hget), ok_bind]

theorem StartsBelow.cases_ok {idx addr : Nat} {t : ValType}
    (hok : getLocalAddr .checking idx params (layoutTable (localTypes locals) [] locals) =
      .ok (t, addr)) :
    (params[idx]? = some t ∧ addr = stackBytes (params.take idx)) ∨
      ∃ j, idx = params.length + j ∧ (localTypes locals)[j]? = some t ∧
        addr = stackBytes params + localStart (localTypes locals) j t := by
  have hindices := h.indices
  by_cases hparam : idx < params.length
  · have hget := List.getElem?_eq_getElem hparam
    rw [getLocalAddr_param (by omega) h.paramBytes hget] at hok
    simp only [Except.ok.injEq, Prod.mk.injEq] at hok
    obtain ⟨rfl, rfl⟩ := hok
    exact .inl ⟨hget, rfl⟩
  · obtain ⟨j, rfl⟩ := Nat.exists_eq_add_of_le (Nat.le_of_not_lt hparam)
    by_cases hlocal : j < (localTypes locals).length
    · have hget := List.getElem?_eq_getElem hlocal
      rw [h.local_ok hget] at hok
      simp only [Except.ok.injEq, Prod.mk.injEq] at hok
      obtain ⟨rfl, rfl⟩ := hok
      exact .inr ⟨j, rfl, hget, rfl⟩
    · rw [getLocalAddr_unknown h.indices h.paramBytes (by omega)] at hok
      contradiction

theorem StartsBelow.exact (hsum : (localTypes locals).length < 2 ^ 32) :
    AddressesExact params locals (layoutTable (localTypes locals) [] locals) where
  table_ok := (createReassignmentTable_iff hsum).mpr ⟨rfl, fun before l after heq => by
    simpa using h.decls before l after heq⟩
  unknown idx _ hidx := getLocalAddr_unknown h.indices h.paramBytes hidx
  known idx _ t hget := by
    have hindices := h.indices
    by_cases hparam : idx < params.length
    · rw [List.getElem?_append_left hparam] at hget
      have hend := param_end_le hget hparam
      rw [List.take_length] at hend
      exact ⟨_, getLocalAddr_param (by omega) h.paramBytes hget, by omega, fun _ => rfl⟩
    · obtain ⟨j, rfl⟩ := Nat.exists_eq_add_of_le (Nat.le_of_not_lt hparam)
      rw [List.getElem?_append_right (by omega), Nat.add_sub_cancel_left] at hget
      have hend := local_end_le hget
      exact ⟨_, h.local_ok hget, by omega, fun hlt => by omega⟩
  apart idx _ idx' _ hne t addr t' addr' hok hok' := by
    obtain ⟨hget, rfl⟩ | ⟨j, rfl, hget, rfl⟩ := h.cases_ok hok <;>
      obtain ⟨hget', rfl⟩ | ⟨j', rfl, hget', rfl⟩ := h.cases_ok hok'
    · rcases Nat.lt_or_gt_of_ne hne with hlt | hlt
      · exact .inl (param_end_le hget hlt)
      · exact .inr (param_end_le hget' hlt)
    · have hend := param_end_le hget (List.getElem?_eq_some_iff.mp hget).1
      rw [List.take_length] at hend
      exact .inl (by omega)
    · have hend := param_end_le hget' (List.getElem?_eq_some_iff.mp hget').1
      rw [List.take_length] at hend
      exact .inr (by omega)
    · have happart : localStart (localTypes locals) j t + t.stackSize ≤
            localStart (localTypes locals) j' t' ∨
          localStart (localTypes locals) j' t' + t'.stackSize ≤
            localStart (localTypes locals) j t :=
        itemPlaces_apart hget hget' (mem_typeOrder t) (mem_typeOrder t') (by omega)
      omega

end exact

theorem AddressesExact.startsBelow (hsum : (localTypes locals).length < 2 ^ 32)
    {table : List ReassignEntry} (h : AddressesExact params locals table) :
    StartsBelow params locals := by
  obtain ⟨rfl, hdecls⟩ := (createReassignmentTable_iff hsum).mp h.table_ok
  have hindices : params.length + (localTypes locals).length < 2 ^ 32 := by
    by_contra hmany
    have hlt : 2 ^ 32 - 1 < (params ++ localTypes locals).length := by
      rw [List.length_append]
      omega
    obtain ⟨addr, hok, -⟩ := h.known (2 ^ 32 - 1) (by decide) _ (List.getElem?_eq_getElem hlt)
    exact paramAddr_max _ hok
  have hbytes : stackBytes params < 2 ^ 32 := by
    have herror := h.unknown _ hindices (Nat.le_refl _)
    have hlt := paramAddr_bytes (by decide) herror
    rwa [Nat.zero_add] at hlt
  refine ⟨hindices, hbytes, fun j t hget => ?_, fun before l after heq => ?_⟩
  · have hidx : params.length + j < 2 ^ 32 := by
      have hlt := (List.getElem?_eq_some_iff.mp hget).1
      omega
    have hall : (params ++ localTypes locals)[params.length + j]? = some t := by
      rw [List.getElem?_append_right (by omega), Nat.add_sub_cancel_left, hget]
    obtain ⟨addr, hok, -⟩ := h.known _ hidx t hall
    rw [getLocalAddr_local hindices hbytes hget] at hok
    obtain ⟨sum, hsum, -⟩ := bind_eq_ok.mp hok
    exact (unchecked_eq_ok.mp hsum).2
  · simpa using hdecls before l after heq

/-- The addresses of accepted declarations are exact as long as everything starts below 2^32. -/
theorem localAddresses_exact_iff (params : List ValType) (locals : List Locals)
    (haccepted : LocalsAccepted locals) :
    (∃ table, AddressesExact params locals table) ↔ StartsBelow params locals :=
  ⟨fun ⟨_, h⟩ => h.startsBelow haccepted.length_lt, fun h => ⟨_, h.exact haccepted.length_lt⟩⟩

theorem localAddresses_exact_mixed :
    LocalsAccepted [⟨1, .v128⟩, ⟨2, .i32⟩] ∧
    ((∃ table, AddressesExact [.i64] [⟨1, .v128⟩, ⟨2, .i32⟩] table) ↔
      StartsBelow [.i64] [⟨1, .v128⟩, ⟨2, .i32⟩]) := by
  have haccepted : LocalsAccepted [⟨1, .v128⟩, ⟨2, .i32⟩] := ⟨_, _, rfl, rfl⟩
  exact ⟨haccepted, localAddresses_exact_iff [.i64] _ haccepted⟩

/-- With three parameters before them, the address of the last of 2^30 - 2 locals wraps to that of the
first parameter. -/
theorem not_addressesExact_wraps :
    LocalsAccepted [⟨2 ^ 30 - 2, .i32⟩] ∧
    ¬∃ table, AddressesExact [.i32, .i32, .i32] [⟨2 ^ 30 - 2, .i32⟩] table := by
  have haccepted : LocalsAccepted [⟨2 ^ 30 - 2, .i32⟩] :=
    ⟨[⟨2 ^ 30 - 2, .i32, 0⟩], 2 ^ 30 - 2, by decide +kernel, by decide +kernel⟩
  refine ⟨haccepted, ?_⟩
  rintro ⟨table, h⟩
  have htable : createReassignmentTable .checking [⟨2 ^ 30 - 2, .i32⟩] =
      .ok [⟨2 ^ 30 - 2, .i32, 0⟩] := by
    decide +kernel
  have heq : table = [⟨2 ^ 30 - 2, .i32, 0⟩] := by
    have hok := h.table_ok
    rw [htable, Except.ok.injEq] at hok
    exact hok.symm
  have hover : getLocalAddr .checking (2 ^ 30) [.i32, .i32, .i32] [⟨2 ^ 30 - 2, .i32, 0⟩] =
      .error .overflow := by
    decide +kernel
  have hget : ([ValType.i32, .i32, .i32] ++ localTypes [⟨2 ^ 30 - 2, .i32⟩])[2 ^ 30]? =
      some .i32 := by
    rw [List.getElem?_append_right (by simp), localTypes_cons, localTypes_nil, List.append_nil,
      List.getElem?_replicate, if_pos (by simp)]
  obtain ⟨addr, hok, -⟩ := h.known (2 ^ 30) (by decide) .i32 hget
  rw [heq, hover] at hok
  exact nomatch hok

end Telomere.Parser
