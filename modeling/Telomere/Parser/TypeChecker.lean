import Telomere.Common.Types
import Telomere.Lib.Except

/-!
# The validator's type checker

Stacks are lists with the top at the head: the head of `types` is the last element of the
source vector, the head of `blocks` the innermost open block. A block's base is the number of
entries below its parameters.
-/

namespace Telomere.Parser

/-- Errors of `WasmParserError` that the modelled parts of the parser raise. -/
inductive ParserError where
  | invalidStackValTypeAny
  | invalidStackValType (expected : ValType) (actual : ValType)
  | invalidTypeIdx (idx : Nat)
  | invalidFuncIdx (idx : Nat)
  | invalidTableIndex (idx : Nat)
  | invalidTableType (idx : Nat)
  | invalidResultArity
  | nestingTooDeep (limit : Nat)
  | unexpectedEnd
deriving DecidableEq, Repr

inductive MaybeUnreachable where
  | unreachable (any : Bool)
  | normal (ty : ValType)
deriving DecidableEq, Repr

inductive BlockKind where
  | block | if_ | loop
deriving DecidableEq, Repr

structure Block where
  kind : BlockKind
  blocktype : BlockType
  base : Nat
deriving DecidableEq, Repr

structure TypeChecker where
  types : List MaybeUnreachable
  blocks : List Block
deriving DecidableEq, Repr

/-- A recorded stack: only concrete entries are kept, bottom first. -/
structure StackSnapshot where
  reachable : Bool
  types : List ValType
deriving DecidableEq, Repr

namespace TypeChecker

def new (typeidx : Nat) : TypeChecker :=
  ⟨[], [⟨.block, .typeIdx typeidx, 0⟩]⟩

def getBlock (c : TypeChecker) (idx : Nat) : Except ParserError Block :=
  match c.blocks[idx]? with
  | some b => .ok b
  | none => .error .invalidStackValTypeAny

def currentBlock (c : TypeChecker) : Except ParserError Block :=
  c.getBlock 0

def blockBase (c : TypeChecker) : Except ParserError Nat := do
  return (← c.currentBlock).base

def concrete : List MaybeUnreachable → List ValType :=
  List.filterMap fun
    | .normal ty => some ty
    | .unreachable _ => none

def isMarker : MaybeUnreachable → Bool
  | .unreachable _ => true
  | .normal _ => false

def snapshotStack (c : TypeChecker) : StackSnapshot :=
  ⟨!c.types.any isMarker, (concrete c.types).reverse⟩

/-- A popped marker is put back, so unreachable code can be popped for ever. -/
def pop (c : TypeChecker) : Except ParserError (MaybeUnreachable × TypeChecker) := do
  let base ← c.blockBase
  match c.types with
  | [] => .error .invalidStackValTypeAny
  | v :: rest =>
      if rest.length < base then
        .error .invalidStackValTypeAny
      else
        match v with
        | .unreachable _ => return (v, { c with types := MaybeUnreachable.unreachable false :: rest })
        | .normal _ => return (v, { c with types := rest })

def push (c : TypeChecker) (ty : ValType) : TypeChecker :=
  { c with types := .normal ty :: c.types }

def unreachable (c : TypeChecker) : TypeChecker :=
  { c with types := .unreachable false :: c.types }

def pushAny (c : TypeChecker) : TypeChecker :=
  { c with types := .unreachable true :: c.types }

/-- `assert_valtype(expected, Some(actual))` -/
def assertValtype (expected actual : ValType) : Except ParserError Unit :=
  if expected = actual then .ok () else .error (.invalidStackValType expected actual)

/-- The entries above the current block's base, top first. -/
def aboveBase (c : TypeChecker) (base : Nat) : List MaybeUnreachable :=
  c.types.take (c.types.length - base)

/-- The loop of `check` over the expected types, last one first. -/
def checkFrom : List MaybeUnreachable → List ValType → Except ParserError Unit
  | _, [] => .ok ()
  | [], _ :: _ => .error .invalidStackValTypeAny
  | .unreachable any :: rest, _ :: tys => checkFrom (.unreachable any :: rest) tys
  | .normal actual :: rest, ty :: tys => do
      assertValtype ty actual
      checkFrom rest tys

def check (c : TypeChecker) (input : List ValType) : Except ParserError Unit := do
  checkFrom (c.aboveBase (← c.blockBase)) input.reverse

def popExpect (c : TypeChecker) (ty : ValType) : Except ParserError TypeChecker := do
  match ← c.pop with
  | (.normal actual, c') => do
      assertValtype ty actual
      return c'
  | (.unreachable _, c') => return c'

def popAll (c : TypeChecker) : List ValType → Except ParserError TypeChecker
  | [] => .ok c
  | ty :: tys => do
      (← c.popExpect ty).popAll tys

def pushAll (c : TypeChecker) (output : List ValType) : TypeChecker :=
  output.foldl push c

def op (c : TypeChecker) (input output : List ValType) : Except ParserError TypeChecker := do
  return (← c.popAll input.reverse).pushAll output

def enterBlock (c : TypeChecker) (kind : BlockKind) (blocktype : BlockType) : TypeChecker :=
  { c with blocks := ⟨kind, blocktype, c.types.length⟩ :: c.blocks }

def leaveBlock (c : TypeChecker) : Except ParserError TypeChecker := do
  let base ← c.blockBase
  match c.aboveBase base with
  | [] | .unreachable false :: _ =>
      return ⟨c.types.drop (c.types.length - base), c.blocks.tail⟩
  | _ => .error .invalidStackValTypeAny

def resetStack (c : TypeChecker) : Except ParserError TypeChecker := do
  let base ← c.blockBase
  return { c with types := c.types.drop (c.types.length - base) }

/-- Byte size of a run of concrete entries; a marker among them rejects the module. -/
def concreteBytes : List MaybeUnreachable → Except ParserError Nat
  | [] => .ok 0
  | .normal ty :: rest => do return ty.stackSize + (← concreteBytes rest)
  | .unreachable _ :: _ => .error .invalidStackValTypeAny

def blockBaseStackSize (c : TypeChecker) : Except ParserError Nat := do
  let base ← c.blockBase
  concreteBytes (c.types.drop (c.types.length - base))

/-- The lowest `n` entries of a stack. -/
def below (n : Nat) (types : List MaybeUnreachable) : List MaybeUnreachable :=
  types.drop (types.length - n)

theorem below_length {n : Nat} {types : List MaybeUnreachable} (h : n ≤ types.length) :
    (below n types).length = n := by
  simp only [below, List.length_drop]
  omega

theorem below_append {n : Nat} (top types : List MaybeUnreachable) (h : n ≤ types.length) :
    below n (top ++ types) = below n types := by
  have hlen : (top ++ types).length - n = top.length + (types.length - n) := by
    simp only [List.length_append]
    omega
  rw [below, hlen, List.drop_append, List.drop_eq_nil_of_le (by omega), List.nil_append, below]
  congr 1
  omega

theorem below_self (types : List MaybeUnreachable) : below types.length types = types := by
  simp [below]

/-- Every entry is a value type: no code above it is unreachable. -/
def NoMarker (types : List MaybeUnreachable) : Prop :=
  ∀ v ∈ types, ∃ ty, v = .normal ty

theorem noMarker_nil : NoMarker [] := by
  simp [NoMarker]

theorem noMarker_append {top types : List MaybeUnreachable} :
    NoMarker (top ++ types) ↔ NoMarker top ∧ NoMarker types := by
  simp only [NoMarker, List.mem_append]
  constructor
  · intro h
    exact ⟨fun v hv => h v (Or.inl hv), fun v hv => h v (Or.inr hv)⟩
  · rintro ⟨htop, htypes⟩ v (hv | hv)
    · exact htop v hv
    · exact htypes v hv

theorem noMarker_map (tys : List ValType) : NoMarker (tys.map .normal) := by
  intro v hv
  obtain ⟨ty, _, rfl⟩ := List.mem_map.mp hv
  exact ⟨ty, rfl⟩

theorem NoMarker.below {types : List MaybeUnreachable} (h : NoMarker types) (n : Nat) :
    NoMarker (below n types) :=
  fun v hv => h v (List.mem_of_mem_drop hv)

def BaseOk (c : TypeChecker) : Prop :=
  ∀ b ∈ c.blocks.head?, b.base ≤ c.types.length

/-- What popping and pushing operands keeps: the blocks, the entries below the current base, and
the absence of markers. -/
structure Keeps (c c' : TypeChecker) : Prop where
  blocks : c'.blocks = c.blocks
  base : BaseOk c → BaseOk c'
  below : ∀ b ∈ c.blocks.head?, b.base ≤ c.types.length →
    below b.base c'.types = below b.base c.types
  concrete : NoMarker c.types → NoMarker c'.types

theorem Keeps.refl (c : TypeChecker) : Keeps c c :=
  ⟨rfl, id, fun _ _ _ => rfl, id⟩

theorem Keeps.trans {c c' c'' : TypeChecker} (first : Keeps c c') (second : Keeps c' c'') :
    Keeps c c'' := by
  refine ⟨second.blocks.trans first.blocks, fun h => second.base (first.base h), ?_,
    fun h => second.concrete (first.concrete h)⟩
  intro b hb hbase
  have hb' : b ∈ c'.blocks.head? := by rw [first.blocks]; exact hb
  have hbase' : BaseOk c' := first.base (by
    intro d hd
    obtain rfl : d = b := Option.some.inj (hd.symm.trans hb)
    exact hbase)
  rw [second.below b hb' (hbase' b hb'), first.below b hb hbase]

theorem blockBase_ok {c : TypeChecker} {base : Nat} (h : c.blockBase = .ok base) :
    ∃ b bs, c.blocks = b :: bs ∧ b.base = base := by
  unfold blockBase currentBlock getBlock at h
  cases hblocks : c.blocks with
  | nil => simp [hblocks, bind, Except.bind] at h
  | cons b bs =>
      simp only [hblocks, List.length_cons, Nat.zero_lt_succ, getElem?_pos,
        List.getElem_cons_zero, bind, Except.bind, pure, Except.pure, Except.ok.injEq] at h
      exact ⟨b, bs, rfl, h⟩

theorem blockBase_cons {c : TypeChecker} {b : Block} {bs : List Block}
    (h : c.blocks = b :: bs) : c.blockBase = .ok b.base := by
  simp [blockBase, currentBlock, getBlock, h, bind, Except.bind, pure, Except.pure]

/-- A successful `pop` takes the top entry of the current block. -/
theorem pop_ok {c c' : TypeChecker} {v : MaybeUnreachable} (h : c.pop = .ok (v, c')) :
    ∃ b bs rest, c.blocks = b :: bs ∧ c.types = v :: rest ∧ b.base ≤ rest.length ∧
      c' = ⟨if isMarker v then .unreachable false :: rest else rest, c.blocks⟩ := by
  unfold pop at h
  obtain ⟨base, hbase, h⟩ := Lib.bind_eq_ok.mp h
  obtain ⟨b, bs, hblocks, rfl⟩ := blockBase_ok hbase
  cases htypes : c.types with
  | nil => simp [htypes] at h
  | cons w rest =>
      rw [htypes] at h
      obtain ⟨hlen, h⟩ := Lib.ite_error_eq_ok.mp h
      cases w with
      | unreachable any =>
          simp only [pure, Except.pure, Except.ok.injEq, Prod.mk.injEq] at h
          obtain ⟨rfl, rfl⟩ := h
          exact ⟨b, bs, rest, hblocks, rfl, by omega, rfl⟩
      | normal ty =>
          simp only [pure, Except.pure, Except.ok.injEq, Prod.mk.injEq] at h
          obtain ⟨rfl, rfl⟩ := h
          exact ⟨b, bs, rest, hblocks, rfl, by omega, rfl⟩

theorem pop_keeps {c c' : TypeChecker} {v : MaybeUnreachable} (h : c.pop = .ok (v, c')) :
    Keeps c c' := by
  obtain ⟨b, bs, rest, hblocks, htypes, hlen, rfl⟩ := pop_ok h
  have hhead : c.blocks.head? = some b := by rw [hblocks]; rfl
  refine ⟨rfl, ?_, ?_, ?_⟩
  · intro _ d hd
    obtain rfl : b = d := Option.some.inj (hhead.symm.trans hd)
    cases v <;> simp [isMarker] <;> omega
  · intro d hd _
    obtain rfl : b = d := Option.some.inj (hhead.symm.trans hd)
    have hrest : below b.base (v :: rest) = below b.base rest := below_append [v] rest hlen
    rw [htypes, hrest]
    cases v with
    | unreachable any => exact below_append [.unreachable false] rest hlen
    | normal ty => rfl
  · intro hconcrete
    rw [htypes] at hconcrete
    obtain ⟨ty, rfl⟩ := hconcrete v (by simp)
    exact fun w hw => hconcrete w (List.mem_cons_of_mem _ hw)

theorem popExpect_keeps {c c' : TypeChecker} {ty : ValType} (h : c.popExpect ty = .ok c') :
    Keeps c c' := by
  obtain ⟨⟨v, d⟩, hpop, h⟩ := Lib.bind_eq_ok.mp h
  have hkeeps := pop_keeps hpop
  cases v with
  | normal actual =>
      obtain ⟨_, _, h⟩ := Lib.bind_eq_ok.mp h
      rw [← Lib.pure_eq_ok.mp h]
      exact hkeeps
  | unreachable any =>
      rw [← Lib.pure_eq_ok.mp h]
      exact hkeeps

theorem popAll_keeps {c c' : TypeChecker} {tys : List ValType} (h : c.popAll tys = .ok c') :
    Keeps c c' := by
  induction tys generalizing c with
  | nil =>
      obtain rfl : c = c' := by simpa [popAll] using h
      exact Keeps.refl c
  | cons ty tys ih =>
      obtain ⟨d, hd, h⟩ := Lib.bind_eq_ok.mp h
      exact (popExpect_keeps hd).trans (ih h)

theorem pushAll_eq (c : TypeChecker) (output : List ValType) :
    c.pushAll output = ⟨output.reverse.map .normal ++ c.types, c.blocks⟩ := by
  induction output generalizing c with
  | nil => rfl
  | cons ty output ih =>
      change (c.push ty).pushAll output = _
      rw [ih]
      simp [push]

theorem pushAll_keeps (c : TypeChecker) (output : List ValType) : Keeps c (c.pushAll output) := by
  rw [pushAll_eq]
  refine ⟨rfl, ?_, ?_, ?_⟩
  · intro hbase b hb
    have := hbase b hb
    simp only [List.length_append]
    omega
  · intro b _ hb
    exact below_append _ _ hb
  · intro hconcrete
    exact noMarker_append.mpr ⟨noMarker_map _, hconcrete⟩

theorem op_keeps {c c' : TypeChecker} {input output : List ValType}
    (h : c.op input output = .ok c') : Keeps c c' := by
  obtain ⟨d, hd, h⟩ := Lib.bind_eq_ok.mp h
  rw [← Lib.pure_eq_ok.mp h]
  exact (popAll_keeps hd).trans (pushAll_keeps d output)

theorem popExpect_exact {c c' : TypeChecker} {ty : ValType} (h : c.popExpect ty = .ok c')
    (hconcrete : NoMarker c.types) : c.types = .normal ty :: c'.types := by
  obtain ⟨⟨v, d⟩, hpop, h⟩ := Lib.bind_eq_ok.mp h
  obtain ⟨b, bs, rest, _, htypes, _, rfl⟩ := pop_ok hpop
  rw [htypes] at hconcrete
  obtain ⟨actual, rfl⟩ := hconcrete v (by simp)
  obtain ⟨_, hassert, h⟩ := Lib.bind_eq_ok.mp h
  rw [← Lib.pure_eq_ok.mp h, htypes]
  unfold assertValtype at hassert
  split at hassert
  · simp_all [isMarker]
  · cases hassert

theorem popAll_exact {c c' : TypeChecker} {tys : List ValType} (h : c.popAll tys = .ok c')
    (hconcrete : NoMarker c.types) : c.types = tys.map .normal ++ c'.types := by
  induction tys generalizing c with
  | nil =>
      obtain rfl : c = c' := by simpa [popAll] using h
      rfl
  | cons ty tys ih =>
      obtain ⟨d, hd, h⟩ := Lib.bind_eq_ok.mp h
      rw [popExpect_exact hd hconcrete, ih h ((popExpect_keeps hd).concrete hconcrete)]
      rfl

/-- In reachable code an instruction replaces exactly its operands by its results. -/
theorem op_exact {c c' : TypeChecker} {input output : List ValType}
    (h : c.op input output = .ok c') (hconcrete : NoMarker c.types) (hbase : BaseOk c) :
    ∃ rest : List MaybeUnreachable, c.types = input.reverse.map .normal ++ rest ∧
      c'.types = output.reverse.map .normal ++ rest ∧
      ∀ b ∈ c.blocks.head?, b.base ≤ rest.length := by
  obtain ⟨d, hd, h⟩ := Lib.bind_eq_ok.mp h
  refine ⟨d.types, popAll_exact hd hconcrete, ?_, ?_⟩
  · rw [← Lib.pure_eq_ok.mp h, pushAll_eq]
  · intro b hb
    exact (popAll_keeps hd).base hbase b (by rw [(popAll_keeps hd).blocks]; exact hb)

/-- In reachable code `check` succeeds only on a stack that ends with the expected types. -/
theorem checkFrom_exact {stack : List MaybeUnreachable} {tys : List ValType}
    (h : checkFrom stack tys = .ok ()) (hconcrete : NoMarker stack) :
    ∃ rest, stack = tys.map .normal ++ rest := by
  induction tys generalizing stack with
  | nil => exact ⟨stack, rfl⟩
  | cons ty tys ih =>
      cases stack with
      | nil => simp [checkFrom] at h
      | cons v rest =>
          obtain ⟨actual, rfl⟩ := hconcrete v (by simp)
          obtain ⟨_, hassert, h⟩ := Lib.bind_eq_ok.mp h
          obtain ⟨tail, htail⟩ := ih h (fun w hw => hconcrete w (List.mem_cons_of_mem _ hw))
          unfold assertValtype at hassert
          split at hassert
          · next heq => exact ⟨tail, by rw [htail, heq]; rfl⟩
          · cases hassert

theorem leaveBlock_ok {c c' : TypeChecker} (h : c.leaveBlock = .ok c') :
    ∃ b bs, c.blocks = b :: bs ∧ c' = ⟨below b.base c.types, bs⟩ := by
  obtain ⟨base, hbase, h⟩ := Lib.bind_eq_ok.mp h
  obtain ⟨b, bs, hblocks, rfl⟩ := blockBase_ok hbase
  refine ⟨b, bs, hblocks, ?_⟩
  split at h
  · rw [← Lib.pure_eq_ok.mp h, hblocks]; rfl
  · rw [← Lib.pure_eq_ok.mp h, hblocks]; rfl
  · cases h

theorem resetStack_ok {c c' : TypeChecker} (h : c.resetStack = .ok c') :
    ∃ b bs, c.blocks = b :: bs ∧ c' = ⟨below b.base c.types, c.blocks⟩ := by
  obtain ⟨base, hbase, h⟩ := Lib.bind_eq_ok.mp h
  obtain ⟨b, bs, hblocks, rfl⟩ := blockBase_ok hbase
  exact ⟨b, bs, hblocks, (Lib.pure_eq_ok.mp h).symm⟩

theorem resetStack_keeps {c c' : TypeChecker} (h : c.resetStack = .ok c') : Keeps c c' := by
  obtain ⟨b, bs, hblocks, rfl⟩ := resetStack_ok h
  have hhead : c.blocks.head? = some b := by rw [hblocks]; rfl
  refine ⟨rfl, ?_, ?_, fun hconcrete => hconcrete.below _⟩
  · intro hbase d hd
    obtain rfl : b = d := Option.some.inj (hhead.symm.trans hd)
    exact Nat.le_of_eq (below_length (hbase b hhead)).symm
  · intro d hd hbase
    obtain rfl : b = d := Option.some.inj (hhead.symm.trans hd)
    have hself := below_self (below b.base c.types)
    rwa [below_length hbase] at hself

/-- Stack bytes of the concrete entries. -/
def typeBytes (types : List MaybeUnreachable) : Nat :=
  stackBytes (concrete types)

@[simp] theorem typeBytes_nil : typeBytes [] = 0 := rfl

@[simp] theorem typeBytes_append (top types : List MaybeUnreachable) :
    typeBytes (top ++ types) = typeBytes top + typeBytes types := by
  simp [typeBytes, concrete]

@[simp] theorem typeBytes_normal_cons (ty : ValType) (types : List MaybeUnreachable) :
    typeBytes (.normal ty :: types) = ty.stackSize + typeBytes types := by
  simp [typeBytes, concrete]

@[simp] theorem typeBytes_map (tys : List ValType) :
    typeBytes (tys.map .normal) = stackBytes tys := by
  induction tys with
  | nil => rfl
  | cons ty tys ih => rw [List.map_cons, typeBytes_normal_cons, ih, stackBytes_cons]

end TypeChecker

end Telomere.Parser
