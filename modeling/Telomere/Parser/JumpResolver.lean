import Telomere.Parser.Instruction

/-!
# Jump resolution

The parser records branches and block boundaries in order; `evaluate` replays the record and
writes the jump addresses. A branch to a loop is written at once, a branch to any other block
when that block is left. Blocks are kept innermost first, and `none` is a failed `expect`,
`unwrap` or index. The record and the operands hold slot numbers as `u32`.
-/

namespace Telomere.Parser

inductive JumpResolverState where
  | resolved (addr : Nat)
  | lazy (items : List Nat)
deriving DecidableEq, Repr

structure JumpResolver where
  block : List JumpResolverState
  program : List Instr
deriving DecidableEq, Repr

/-- `as u32` -/
def asU32 (n : Nat) : Nat := n % 2 ^ 32

theorem asU32_of_lt {n : Nat} (h : n < 2 ^ 32) : asU32 n = n :=
  Nat.mod_eq_of_lt h

def JumpResolverDSL.stored : JumpResolverDSL → JumpResolverDSL
  | .enterForwardJumpBlock => .enterForwardJumpBlock
  | .enterBackwardJumpBlock addr => .enterBackwardJumpBlock (asU32 addr)
  | .br id slot => .br id (asU32 slot)
  | .return_ slot => .return_ (asU32 slot)
  | .leaveBlock addr => .leaveBlock (asU32 addr)

def Instr.stored : Instr → Instr
  | .operand (.jumpAddr addr) => .operand (.jumpAddr (asU32 addr))
  | instr => instr

/-- `program[slot].operand.jump_addr = addr` -/
def setJumpAddr (addr : Nat) (program : List Instr) (slot : Nat) : Option (List Instr) :=
  if slot < program.length then some (program.set slot (.operand (.jumpAddr addr))) else none

namespace JumpResolver

/-- A branch in `slot` to the block with this index. -/
def jump (r : JumpResolver) (index slot : Nat) : Option JumpResolver :=
  match r.block[index]? with
  | some (.resolved addr) => (setJumpAddr addr r.program slot).map fun program => ⟨r.block, program⟩
  | some (.lazy items) => some ⟨r.block.set index (.lazy (items ++ [slot])), r.program⟩
  | none => none

def leave (r : JumpResolver) (addr : Nat) : Option JumpResolver :=
  match r.block with
  | .resolved _ :: rest => some ⟨rest, r.program⟩
  | .lazy items :: rest => (items.foldlM (setJumpAddr addr) r.program).map fun program =>
      ⟨rest, program⟩
  | [] => none

def step (r : JumpResolver) : JumpResolverDSL → Option JumpResolver
  | .enterForwardJumpBlock => some ⟨.lazy [] :: r.block, r.program⟩
  | .enterBackwardJumpBlock addr => some ⟨.resolved addr :: r.block, r.program⟩
  | .br id slot => r.jump id slot
  | .return_ slot => r.jump (r.block.length - 1) slot
  | .leaveBlock addr => r.leave addr

def run (r : JumpResolver) (dsls : List JumpResolverDSL) : Option JumpResolver :=
  dsls.foldlM step r

end JumpResolver

def evaluate (dsls : List JumpResolverDSL) (program : List Instr) : Option (List Instr) :=
  ((JumpResolver.mk [] program).run (dsls.map .stored)).map JumpResolver.program

def JumpResolverDSL.slot : JumpResolverDSL → Option Nat
  | .br _ slot | .return_ slot => some slot
  | _ => none

/-- Where the block with this index is left, going by the rest of the record. -/
def leaveAddr : Nat → List JumpResolverDSL → Option Nat
  | _, [] => none
  | index, .enterForwardJumpBlock :: rest | index, .enterBackwardJumpBlock _ :: rest =>
      leaveAddr (index + 1) rest
  | 0, .leaveBlock addr :: _ => some addr
  | index + 1, .leaveBlock _ :: rest => leaveAddr index rest
  | index, .br _ _ :: rest | index, .return_ _ :: rest => leaveAddr index rest

def JumpResolverState.items : JumpResolverState → List Nat
  | .resolved _ => []
  | .lazy items => items

def JumpResolverState.addr : JumpResolverState → Option Nat
  | .resolved addr => some addr
  | .lazy _ => none

/-- The branch of a record, its slot and the index of its block. -/
def JumpResolverDSL.jump? (depth : Nat) : JumpResolverDSL → Option (Nat × Nat)
  | .br id slot => some (slot, id)
  | .return_ slot => some (slot, depth - 1)
  | _ => none

theorem JumpResolverDSL.slot_of_jump? {dsl : JumpResolverDSL} {depth slot label : Nat}
    (h : dsl.jump? depth = some (slot, label)) : dsl.slot = some slot := by
  cases dsl with
  | br id _ | return_ _ => exact congrArg (Option.map Prod.fst) h
  | enterForwardJumpBlock | enterBackwardJumpBlock _ | leaveBlock _ => cases h

theorem JumpResolverDSL.stored_jump? {dsl : JumpResolverDSL} {depth slot label : Nat}
    (h : dsl.jump? depth = some (slot, label)) (hslot : slot < 2 ^ 32) :
    dsl.stored.jump? depth = some (slot, label) := by
  have hsame := asU32_of_lt hslot
  cases dsl with
  | br id other =>
      obtain ⟨rfl, rfl⟩ := Prod.mk.inj (Option.some.inj h)
      exact congrArg (fun slot => some (slot, id)) hsame
  | return_ other =>
      obtain ⟨rfl, rfl⟩ := Prod.mk.inj (Option.some.inj h)
      exact congrArg (fun slot => some (slot, depth - 1)) hsame
  | enterForwardJumpBlock | enterBackwardJumpBlock _ | leaveBlock _ => cases h

namespace JumpResolver

variable {r r' : JumpResolver} {dsl : JumpResolverDSL} {slot addr index : Nat}

private theorem fill_get {items : List Nat} {program program' : List Instr}
    (h : items.foldlM (setJumpAddr addr) program = some program') :
    program'.length = program.length ∧ ∀ slot, program'[slot]? =
      if slot ∈ items then some (.operand (.jumpAddr addr)) else program[slot]? := by
  induction items generalizing program with
  | nil =>
      obtain rfl := Option.some.inj h
      simp
  | cons item items ih =>
      rw [List.foldlM_cons, Option.bind_eq_bind, Option.bind_eq_some_iff] at h
      obtain ⟨middle, hset, hrest⟩ := h
      unfold setJumpAddr at hset
      by_cases hlt : item < program.length
      · rw [if_pos hlt] at hset
        obtain rfl := Option.some.inj hset
        have hfill := ih hrest
        simp only [List.length_set] at hfill
        refine ⟨hfill.1, fun slot => ?_⟩
        rw [hfill.2 slot, List.getElem?_set]
        by_cases hmem : slot ∈ items
        · simp [hmem]
        · by_cases heq : item = slot
          · subst heq
            simp [hlt]
          · simp [hmem, heq, Ne.symm heq]
      · rw [if_neg hlt] at hset
        cases hset

private theorem fill_ok {items : List Nat} {program : List Instr}
    (h : ∀ slot ∈ items, slot < program.length) :
    ∃ program', items.foldlM (setJumpAddr addr) program = some program' := by
  induction items generalizing program with
  | nil => exact ⟨program, rfl⟩
  | cons item items ih =>
      have hlt := h item (by simp)
      have hrest : ∀ slot ∈ items,
          slot < (program.set item (.operand (.jumpAddr addr))).length := by
        intro slot hslot
        rw [List.length_set]
        exact h slot (by simp [hslot])
      obtain ⟨program', hprogram⟩ := ih hrest
      refine ⟨program', ?_⟩
      rw [List.foldlM_cons, setJumpAddr, if_pos hlt]
      exact hprogram

theorem jump_cases (h : r.jump index slot = some r') :
    (∃ addr, r.block[index]? = some (.resolved addr) ∧ slot < r.program.length ∧
      r' = ⟨r.block, r.program.set slot (.operand (.jumpAddr addr))⟩) ∨
    ∃ items, r.block[index]? = some (.lazy items) ∧
      r' = ⟨r.block.set index (.lazy (items ++ [slot])), r.program⟩ := by
  unfold jump at h
  split at h
  · next addr hget =>
      unfold setJumpAddr at h
      by_cases hlt : slot < r.program.length
      · rw [if_pos hlt] at h
        exact .inl ⟨addr, hget, hlt, (Option.some.inj h).symm⟩
      · rw [if_neg hlt] at h
        cases h
  · next items hget => exact .inr ⟨items, hget, (Option.some.inj h).symm⟩
  · cases h

theorem leave_cases (h : r.leave addr = some r') : ∃ first, r.block = first :: r'.block ∧
    r'.program.length = r.program.length ∧ ∀ slot, r'.program[slot]? =
      if slot ∈ first.items then some (.operand (.jumpAddr addr)) else r.program[slot]? := by
  unfold leave at h
  split at h
  · next addr' rest hblock =>
      obtain rfl := Option.some.inj h
      exact ⟨.resolved addr', hblock, rfl, by simp [JumpResolverState.items]⟩
  · next items rest hblock =>
      obtain ⟨program', hfill, rfl⟩ := Option.map_eq_some_iff.mp h
      exact ⟨.lazy items, hblock, (fill_get hfill).1, (fill_get hfill).2⟩
  · cases h

/-- What an event does to the stack of blocks, seen through `f`. -/
def onStack {β : Type} (f : JumpResolverState → β) : JumpResolverDSL → List β → List β
  | .enterForwardJumpBlock, stack => f (.lazy []) :: stack
  | .enterBackwardJumpBlock addr, stack => f (.resolved addr) :: stack
  | .br _ _, stack | .return_ _, stack => stack
  | .leaveBlock _, stack => stack.tail

private theorem jump_map {β : Type} (f : JumpResolverState → β)
    (hf : ∀ items, f (.lazy (items ++ [slot])) = f (.lazy items))
    (h : r.jump index slot = some r') : r'.block.map f = r.block.map f := by
  rcases jump_cases h with ⟨addr, -, -, rfl⟩ | ⟨items, hget, rfl⟩
  · rfl
  · apply List.ext_getElem?
    intro j
    rw [List.map_set, hf]
    by_cases heq : index = j
    · subst heq
      rw [List.getElem?_set_self (by simpa using (List.getElem?_eq_some_iff.mp hget).1)]
      simp [hget]
    · rw [List.getElem?_set_ne heq]

theorem step_map {β : Type} (f : JumpResolverState → β)
    (hf : ∀ slot ∈ dsl.slot, ∀ items, f (.lazy (items ++ [slot])) = f (.lazy items))
    (h : r.step dsl = some r') : r'.block.map f = onStack f dsl (r.block.map f) := by
  cases dsl with
  | enterForwardJumpBlock => rw [← Option.some.inj h]; rfl
  | enterBackwardJumpBlock addr => rw [← Option.some.inj h]; rfl
  | br id slot => exact jump_map f (hf slot rfl) h
  | return_ slot => exact jump_map f (hf slot rfl) h
  | leaveBlock addr =>
      obtain ⟨first, hblock, -, -⟩ := leave_cases h
      simp [onStack, hblock]

/-- An event without a branch in the slot writes it only where a block it waits for is left. -/
theorem step_get (hne : dsl.slot ≠ some slot) (h : r.step dsl = some r') :
    r'.program[slot]? = r.program[slot]? ∨
      ∃ addr first, dsl = .leaveBlock addr ∧ r.block.head? = some first ∧ slot ∈ first.items ∧
        r'.program[slot]? = some (.operand (.jumpAddr addr)) := by
  have hjump : ∀ index other, other ≠ slot → r.jump index other = some r' →
      r'.program[slot]? = r.program[slot]? := by
    intro index other hother hstep
    rcases jump_cases hstep with ⟨addr, -, -, rfl⟩ | ⟨items, -, rfl⟩
    · exact List.getElem?_set_ne hother
    · rfl
  cases dsl with
  | enterForwardJumpBlock => rw [← Option.some.inj h]; exact .inl rfl
  | enterBackwardJumpBlock addr => rw [← Option.some.inj h]; exact .inl rfl
  | br id other => exact .inl (hjump id other (fun heq => hne (by rw [heq]; rfl)) h)
  | return_ other => exact .inl (hjump _ other (fun heq => hne (by rw [heq]; rfl)) h)
  | leaveBlock addr =>
      obtain ⟨first, hblock, -, hget⟩ := leave_cases h
      rw [hget slot]
      by_cases hmem : slot ∈ first.items
      · exact .inr ⟨addr, first, rfl, by rw [hblock]; rfl, hmem, if_pos hmem⟩
      · exact .inl (if_neg hmem)

theorem step_length (h : r.step dsl = some r') : r'.program.length = r.program.length := by
  have hjump : ∀ index slot, r.jump index slot = some r' →
      r'.program.length = r.program.length := by
    intro index slot hstep
    rcases jump_cases hstep with ⟨addr, -, -, rfl⟩ | ⟨items, -, rfl⟩ <;> simp
  cases dsl with
  | enterForwardJumpBlock => rw [← Option.some.inj h]
  | enterBackwardJumpBlock addr => rw [← Option.some.inj h]
  | br id slot => exact hjump id slot h
  | return_ slot => exact hjump _ slot h
  | leaveBlock addr =>
      obtain ⟨first, -, hlen, -⟩ := leave_cases h
      exact hlen

variable {dsls later : List JumpResolverDSL}

theorem run_cons : r.run (dsl :: dsls) = some r' ↔ ∃ t, r.step dsl = some t ∧ t.run dsls = some r' := by
  rw [run, List.foldlM_cons, Option.bind_eq_bind, Option.bind_eq_some_iff]
  rfl

theorem run_append : r.run (dsls ++ later) = some r' ↔
    ∃ t, r.run dsls = some t ∧ t.run later = some r' := by
  rw [run, List.foldlM_append, Option.bind_eq_bind, Option.bind_eq_some_iff]
  rfl

theorem run_length (h : r.run dsls = some r') : r'.program.length = r.program.length := by
  induction dsls generalizing r with
  | nil => rw [Option.some.inj h]
  | cons dsl dsls ih =>
      obtain ⟨t, hstep, hrest⟩ := run_cons.mp h
      rw [ih hrest, step_length hstep]

/-- For each block, innermost first, whether this slot waits for it. -/
def waits (slot : Nat) (r : JumpResolver) : List Bool :=
  r.block.map fun state => decide (slot ∈ state.items)

def addrs (r : JumpResolver) : List (Option Nat) :=
  r.block.map JumpResolverState.addr

theorem step_waits (hne : dsl.slot ≠ some slot) (h : r.step dsl = some r') :
    r'.waits slot = onStack (fun state => decide (slot ∈ state.items)) dsl (r.waits slot) := by
  apply step_map _ _ h
  intro other hother items
  have hdiff : slot ≠ other := fun heq => hne (by rw [heq]; exact hother)
  apply decide_eq_decide.mpr
  simp [JumpResolverState.items, hdiff]

theorem step_addrs (h : r.step dsl = some r') :
    r'.addrs = onStack JumpResolverState.addr dsl r.addrs :=
  step_map _ (fun _ _ _ => rfl) h

theorem run_jumps_addrs (hjumps : ∀ dsl ∈ dsls, dsl.slot.isSome) (h : r.run dsls = some r') :
    r'.addrs = r.addrs := by
  induction dsls generalizing r with
  | nil => rw [Option.some.inj h]
  | cons dsl dsls ih =>
      obtain ⟨t, hstep, hrest⟩ := run_cons.mp h
      rw [ih (fun d hd => hjumps d (by simp [hd])) hrest, step_addrs hstep]
      have hjump := hjumps dsl (by simp)
      cases dsl <;> first | rfl | simp [JumpResolverDSL.slot] at hjump

/-- The slot waits for the block with this index, or with `none` for no block. -/
def Held (waiting : Option Nat) (slot : Nat) (r : JumpResolver) : Prop :=
  ∀ j : Nat, (r.waits slot)[j]? = some true ↔ waiting = some j

theorem Held.enter {waiting : Option Nat} (h : Held waiting slot r)
    (hwaits : r'.waits slot = false :: r.waits slot) :
    Held (waiting.map (· + 1)) slot r' := by
  intro j
  rw [hwaits]
  cases j with
  | zero => cases waiting <;> simp
  | succ j =>
      rw [List.getElem?_cons_succ, h j]
      cases waiting <;> simp

theorem Held.leave {waiting : Option Nat} (h : Held waiting slot r)
    (hwaits : r'.waits slot = (r.waits slot).tail) :
    Held (waiting.bind fun index => if index = 0 then none else some (index - 1)) slot r' := by
  intro j
  rw [hwaits, ← List.drop_one, List.getElem?_drop, Nat.add_comm, h (j + 1)]
  cases waiting with
  | none => simp
  | some index => cases index <;> simp

/-- A slot that no further branch is in gets the address at which the block is left that it
waits for. -/
theorem run_held {waiting : Option Nat} (hslots : ∀ dsl ∈ dsls, dsl.slot ≠ some slot)
    (hheld : Held waiting slot r) (h : r.run dsls = some r') :
    r'.program[slot]? = match waiting.bind (leaveAddr · dsls) with
      | some addr => some (.operand (.jumpAddr addr))
      | none => r.program[slot]? := by
  induction dsls generalizing r waiting with
  | nil =>
      obtain rfl := Option.some.inj h
      cases waiting <;> rfl
  | cons dsl dsls ih =>
      have hne := hslots dsl (by simp)
      have hrest := fun d hd => hslots d (List.mem_cons_of_mem dsl hd)
      obtain ⟨t, hstep, hrun⟩ := run_cons.mp h
      have hwaits := step_waits hne hstep
      have hget := step_get hne hstep
      cases dsl with
      | enterForwardJumpBlock =>
          have hsame : t.program[slot]? = r.program[slot]? := by simpa using hget
          rw [ih hrest (hheld.enter hwaits) hrun, hsame]
          cases waiting <;> rfl
      | enterBackwardJumpBlock addr =>
          have hsame : t.program[slot]? = r.program[slot]? := by simpa using hget
          rw [ih hrest (hheld.enter hwaits) hrun, hsame]
          cases waiting <;> rfl
      | br id other =>
          have hsame : t.program[slot]? = r.program[slot]? := by simpa using hget
          rw [ih hrest (fun j => by rw [hwaits]; exact hheld j) hrun, hsame]
          cases waiting <;> simp [leaveAddr]
      | return_ other =>
          have hsame : t.program[slot]? = r.program[slot]? := by simpa using hget
          rw [ih hrest (fun j => by rw [hwaits]; exact hheld j) hrun, hsame]
          cases waiting <;> simp [leaveAddr]
      | leaveBlock addr =>
          have hfirst : (r.waits slot)[0]? = some true ↔
              ∃ first, r.block.head? = some first ∧ slot ∈ first.items := by
            rw [waits, List.getElem?_map, ← List.head?_eq_getElem?, Option.map_eq_some_iff]
            simp
          rw [ih hrest (hheld.leave hwaits) hrun]
          have hzero := hheld 0
          cases waiting with
          | none =>
              have hsame : t.program[slot]? = r.program[slot]? := by
                rcases hget with hsame | ⟨addr', first, -, hhead, hmem, -⟩
                · exact hsame
                · cases hzero.mp (hfirst.mpr ⟨first, hhead, hmem⟩)
              simp [hsame]
          | some index =>
              cases index with
              | zero =>
                  obtain ⟨first, hhead, hmem⟩ := hfirst.mp (hzero.mpr rfl)
                  obtain ⟨first', hblock, -, hwritten⟩ := leave_cases hstep
                  obtain rfl : first' = first := by
                    rw [hblock] at hhead
                    exact Option.some.inj hhead
                  simp [leaveAddr, hwritten slot, hmem]
              | succ index =>
                  have hsame : t.program[slot]? = r.program[slot]? := by
                    rcases hget with hsame | ⟨addr', first, -, hhead, hmem, -⟩
                    · exact hsame
                    · cases hzero.mp (hfirst.mpr ⟨first, hhead, hmem⟩)
                  simp [leaveAddr, hsame]

theorem run_unheld (hslots : ∀ dsl ∈ dsls, dsl.slot ≠ some slot) (hheld : Held none slot r)
    (h : r.run dsls = some r') : Held none slot r' := by
  induction dsls generalizing r with
  | nil => rwa [← Option.some.inj h]
  | cons dsl dsls ih =>
      obtain ⟨t, hstep, hrun⟩ := run_cons.mp h
      refine ih (fun d hd => hslots d (List.mem_cons_of_mem dsl hd)) ?_ hrun
      have hwaits := step_waits (hslots dsl (by simp)) hstep
      cases dsl with
      | enterForwardJumpBlock => exact hheld.enter hwaits
      | enterBackwardJumpBlock addr => exact hheld.enter hwaits
      | br id other => exact fun j => by rw [hwaits]; exact hheld j
      | return_ other => exact fun j => by rw [hwaits]; exact hheld j
      | leaveBlock addr => exact hheld.leave hwaits

/-- A branch gets the address of the loop, or the address at which another block is left. -/
theorem run_jump {label : Nat} (hjump : dsl.jump? r.block.length = some (slot, label))
    (hslots : ∀ dsl ∈ dsls, dsl.slot ≠ some slot) (hheld : Held none slot r)
    (h : r.run (dsl :: dsls) = some r')
    (haddr : ∃ known, r.addrs[label]? = some known ∧ known.or (leaveAddr label dsls) = some addr) :
    r'.program[slot]? = some (.operand (.jumpAddr addr)) := by
  obtain ⟨t, hstep, hrun⟩ := run_cons.mp h
  have hstep' : r.jump label slot = some t := by
    cases dsl <;> simp only [JumpResolverDSL.jump?, Option.some.injEq, Prod.mk.injEq,
      reduceCtorEq] at hjump
    all_goals
      obtain ⟨rfl, rfl⟩ := hjump
      exact hstep
  obtain ⟨known, hknown, hor⟩ := haddr
  rw [addrs, List.getElem?_map] at hknown
  rcases jump_cases hstep' with ⟨addr', hget, hlt, rfl⟩ | ⟨items, hget, rfl⟩
  · rw [hget] at hknown
    obtain rfl := Option.some.inj hknown
    obtain rfl : addr' = addr := by simpa [JumpResolverState.addr] using hor
    have hfree : Held none slot ⟨r.block, r.program.set slot (.operand (.jumpAddr addr'))⟩ := hheld
    rw [run_held hslots hfree hrun]
    simp [hlt]
  · rw [hget] at hknown
    obtain rfl := Option.some.inj hknown
    have hleave : leaveAddr label dsls = some addr := by simpa [JumpResolverState.addr] using hor
    have hlt := (List.getElem?_eq_some_iff.mp hget).1
    have hwaiting : Held (some label) slot
        ⟨r.block.set label (.lazy (items ++ [slot])), r.program⟩ := by
      intro j
      rw [waits, List.map_set]
      by_cases heq : label = j
      · subst heq
        simp [hlt, JumpResolverState.items]
      · rw [List.getElem?_set_ne heq]
        have hfree := hheld j
        simpa [waits, heq] using hfree
    rw [run_held hslots hwaiting hrun]
    simp [hleave]

def Valid (depth length : Nat) : JumpResolverDSL → Prop
  | .enterForwardJumpBlock | .enterBackwardJumpBlock _ => True
  | .br id slot => id < depth ∧ slot < length
  | .return_ slot => 0 < depth ∧ slot < length
  | .leaveBlock _ => 0 < depth

def Inside (r : JumpResolver) : Prop :=
  ∀ state ∈ r.block, ∀ slot ∈ state.items, slot < r.program.length

private theorem jump_ok (hinside : r.Inside) (hindex : index < r.block.length)
    (hslot : slot < r.program.length) : ∃ r', r.jump index slot = some r' ∧ r'.Inside := by
  unfold jump
  rw [List.getElem?_eq_getElem hindex]
  cases hget : r.block[index] with
  | resolved addr =>
      refine ⟨⟨r.block, r.program.set slot (.operand (.jumpAddr addr))⟩,
        by simp [setJumpAddr, hslot], ?_⟩
      intro state hstate slot hmem
      rw [List.length_set]
      exact hinside state hstate slot hmem
  | lazy items =>
      refine ⟨_, rfl, ?_⟩
      intro state hstate other hmem
      rcases List.mem_or_eq_of_mem_set hstate with hstate | rfl
      · exact hinside state hstate other hmem
      · rcases List.mem_append.mp hmem with hmem | hmem
        · exact hinside (.lazy items) (by rw [← hget]; exact List.getElem_mem hindex) other hmem
        · obtain rfl := List.mem_singleton.mp hmem
          exact hslot

theorem step_ok (hinside : r.Inside) (hvalid : Valid r.block.length r.program.length dsl) :
    ∃ r', r.step dsl = some r' ∧ r'.Inside := by
  cases dsl with
  | enterForwardJumpBlock =>
      refine ⟨_, rfl, ?_⟩
      intro state hstate slot hmem
      rcases List.mem_cons.mp hstate with rfl | hstate
      · cases hmem
      · exact hinside state hstate slot hmem
  | enterBackwardJumpBlock addr =>
      refine ⟨_, rfl, ?_⟩
      intro state hstate slot hmem
      rcases List.mem_cons.mp hstate with rfl | hstate
      · cases hmem
      · exact hinside state hstate slot hmem
  | br id slot => exact jump_ok hinside hvalid.1 hvalid.2
  | return_ slot => exact jump_ok hinside (Nat.sub_lt hvalid.1 Nat.one_pos) hvalid.2
  | leaveBlock addr =>
      have hleave : ∃ r', r.leave addr = some r' := by
        unfold leave
        cases hblock : r.block with
        | nil => simp [Valid, hblock] at hvalid
        | cons first rest =>
            cases first with
            | resolved addr' => exact ⟨_, rfl⟩
            | lazy items =>
                have hitems : ∀ slot ∈ items, slot < r.program.length :=
                  hinside (.lazy items) (by simp [hblock])
                obtain ⟨program', hfill⟩ := @fill_ok addr items r.program hitems
                exact ⟨⟨rest, program'⟩, by simp [hfill]⟩
      obtain ⟨r', hr'⟩ := hleave
      obtain ⟨first, hblock, hlen, -⟩ := leave_cases hr'
      refine ⟨r', hr', ?_⟩
      intro state hstate slot hmem
      rw [hlen]
      exact hinside state (by rw [hblock]; exact List.mem_cons_of_mem _ hstate) slot hmem

theorem addrs_length (r : JumpResolver) : r.addrs.length = r.block.length := by
  simp [addrs]

theorem run_jumps_ok (hinside : r.Inside) (hjumps : ∀ dsl ∈ dsls, dsl.slot.isSome)
    (hvalid : ∀ dsl ∈ dsls, Valid r.block.length r.program.length dsl) :
    ∃ r', r.run dsls = some r' ∧ r'.Inside ∧ r'.addrs = r.addrs := by
  induction dsls generalizing r with
  | nil => exact ⟨r, rfl, hinside, rfl⟩
  | cons dsl dsls ih =>
      obtain ⟨t, hstep, ht⟩ := step_ok hinside (hvalid dsl (by simp))
      have hone : r.run [dsl] = some t := run_cons.mpr ⟨t, hstep, rfl⟩
      have haddrs : t.addrs = r.addrs := run_jumps_addrs (by simpa using hjumps dsl (by simp)) hone
      have hblock : t.block.length = r.block.length := by
        rw [← addrs_length, haddrs, addrs_length]
      obtain ⟨r', hrun, hr', haddrs'⟩ := ih ht (fun d hd => hjumps d (by simp [hd])) (by
        intro d hd
        rw [hblock, step_length hstep]
        exact hvalid d (by simp [hd]))
      exact ⟨r', run_cons.mpr ⟨t, hstep, hrun⟩, hr', haddrs'.trans haddrs⟩

/-- Every jump address in the program or of a block is one of 32 bits. -/
structure Narrow (r : JumpResolver) : Prop where
  slots : ∀ slot addr : Nat, r.program[slot]? = some (Instr.operand (.jumpAddr addr)) → addr < 2 ^ 32
  blocks : ∀ addr, .resolved addr ∈ r.block → addr < 2 ^ 32

theorem asU32_lt (n : Nat) : asU32 n < 2 ^ 32 :=
  Nat.mod_lt n (by decide)

private theorem jump_narrow (hnarrow : r.Narrow) (h : r.jump index slot = some r') :
    r'.Narrow := by
  rcases jump_cases h with ⟨addr, hget, hlt, rfl⟩ | ⟨items, hget, rfl⟩
  · refine ⟨?_, hnarrow.blocks⟩
    intro other addr' hother
    dsimp only at hother
    by_cases heq : slot = other
    · subst heq
      rw [List.getElem?_set_self hlt] at hother
      obtain rfl : addr = addr' := by simpa using hother
      exact hnarrow.blocks addr (List.mem_of_getElem? hget)
    · rw [List.getElem?_set_ne heq] at hother
      exact hnarrow.slots other addr' hother
  · refine ⟨hnarrow.slots, ?_⟩
    intro addr haddr
    rcases List.mem_or_eq_of_mem_set haddr with haddr | heq
    · exact hnarrow.blocks addr haddr
    · cases heq

theorem step_narrow (hnarrow : r.Narrow) (h : r.step dsl.stored = some r') : r'.Narrow := by
  cases dsl with
  | enterForwardJumpBlock =>
      obtain rfl := Option.some.inj h
      exact ⟨hnarrow.slots, fun addr haddr => hnarrow.blocks addr (by simpa using haddr)⟩
  | enterBackwardJumpBlock addr =>
      obtain rfl := Option.some.inj h
      refine ⟨hnarrow.slots, ?_⟩
      intro addr' haddr
      rcases List.mem_cons.mp haddr with heq | haddr
      · rw [JumpResolverState.resolved.inj heq]
        exact asU32_lt addr
      · exact hnarrow.blocks addr' haddr
  | br id slot => exact jump_narrow hnarrow h
  | return_ slot => exact jump_narrow hnarrow h
  | leaveBlock addr =>
      obtain ⟨first, hblock, -, hget⟩ := leave_cases h
      refine ⟨?_, fun addr' haddr =>
        hnarrow.blocks addr' (by rw [hblock]; exact List.mem_cons_of_mem _ haddr)⟩
      intro slot addr' hslot
      rw [hget slot] at hslot
      by_cases hmem : slot ∈ first.items
      · rw [if_pos hmem] at hslot
        obtain rfl : asU32 addr = addr' := by simpa using hslot
        exact asU32_lt addr
      · rw [if_neg hmem] at hslot
        exact hnarrow.slots slot addr' hslot

theorem run_narrow (hnarrow : r.Narrow) (h : r.run (dsls.map .stored) = some r') :
    r'.Narrow := by
  induction dsls generalizing r with
  | nil => rwa [← Option.some.inj h]
  | cons dsl dsls ih =>
      obtain ⟨t, hstep, hrest⟩ := run_cons.mp h
      exact ih (step_narrow hnarrow hstep) hrest

theorem leaveAddr_jumps {jumps rest : List JumpResolverDSL} (index : Nat)
    (hjumps : ∀ dsl ∈ jumps, dsl.slot.isSome) :
    leaveAddr index (jumps ++ rest) = leaveAddr index rest := by
  induction jumps with
  | nil => rfl
  | cons dsl jumps ih =>
      have hdsl := hjumps dsl (by simp)
      have hrest := ih fun d hd => hjumps d (by simp [hd])
      cases dsl with
      | br id slot => simpa [leaveAddr] using hrest
      | return_ slot => simpa [leaveAddr] using hrest
      | _ => cases hdsl

theorem leaveAddr_stored (index : Nat) (dsls : List JumpResolverDSL) :
    leaveAddr index (dsls.map .stored) = (leaveAddr index dsls).map asU32 := by
  induction dsls generalizing index with
  | nil => rfl
  | cons dsl dsls ih =>
      cases dsl with
      | enterForwardJumpBlock => simpa [leaveAddr, JumpResolverDSL.stored] using ih (index + 1)
      | enterBackwardJumpBlock addr => simpa [leaveAddr, JumpResolverDSL.stored] using ih (index + 1)
      | br id slot => simpa [leaveAddr, JumpResolverDSL.stored] using ih index
      | return_ slot => simpa [leaveAddr, JumpResolverDSL.stored] using ih index
      | leaveBlock addr =>
          cases index with
          | zero => rfl
          | succ index => simpa [leaveAddr, JumpResolverDSL.stored] using ih index

end JumpResolver

end Telomere.Parser
