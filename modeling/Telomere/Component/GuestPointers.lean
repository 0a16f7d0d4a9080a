import Telomere.Component.Lift

/-!
# Pointers of the guest

Which pointers of the guest are followed on the way of core values into the host, with the
alignment of what they point to. They are listed up to the first error. Only the pointers of
latin1+utf16 strings are checked; a misaligned one of these is a trap.
-/

namespace Telomere.Component

variable {M σ ε α β γ : Type}

inductive Pointee where
  | string (encoding : CanonicalStringEncoding)
  | elements
  | area
deriving DecidableEq, Repr

structure GuestPointer where
  ptr : Nat
  align : Nat
  pointee : Pointee
deriving DecidableEq, Repr

namespace GuestPointer

def Misaligned (pointer : GuestPointer) : Prop := pointer.ptr % pointer.align ≠ 0

instance (pointer : GuestPointer) : Decidable pointer.Misaligned :=
  inferInstanceAs (Decidable (_ ≠ _))

def Checked (pointer : GuestPointer) : Prop := pointer.pointee = .string .compactUtf16

instance (pointer : GuestPointer) : Decidable pointer.Checked :=
  inferInstanceAs (Decidable (_ = _))

end GuestPointer

def encodingAlign : CanonicalStringEncoding → Nat
  | .utf8 => 1
  | .utf16 | .compactUtf16 => 2

def onOk (x : Except ε α) (f : α → List β) : List β :=
  match x with
  | .ok a => f a
  | .error _ => []

theorem mem_onOk {x : Except ε α} {f : α → List β} {b : β} :
    b ∈ onOk x f ↔ ∃ a, x = .ok a ∧ b ∈ f a := by
  cases x <;> simp [onOk]

def stringPointer (o : RuntimeCanonicalOptions σ) (ptr : BitVec 32) : GuestPointer :=
  let encoding := o.stringEncoding.getD .utf8
  ⟨ptr.toNat, encodingAlign encoding, .string encoding⟩

section primitives

variable (o : RuntimeCanonicalOptions σ) (m : LinearMemory)

def flatStringPointers (values : List WasmValue) : List GuestPointer :=
  onOk (requireMemory o) fun _ =>
    onOk (CoreValueCursor.nextI32 values) fun ptr =>
      onOk (CoreValueCursor.nextI32 ptr.2) fun _ => [stringPointer o ptr.1]

def memoryStringPointers (ptr : Nat) : List GuestPointer :=
  onOk (readI32FromMemory m ptr) fun stringPtr =>
    onOk (readI32FromMemory m (u32Add ptr 4)) fun _ => [stringPointer o stringPtr]

def flatPrimitivePointers (prim : PrimValType) (values : List WasmValue) : List GuestPointer :=
  match prim with
  | .string => flatStringPointers o values
  | _ => []

def memoryPrimitivePointers (prim : PrimValType) (ptr : Nat) : List GuestPointer :=
  match prim with
  | .string => memoryStringPointers o m ptr
  | _ => []

end primitives

structure Following where
  flat : ValType → List WasmValue → List GuestPointer
  memory : ValType → Nat → List GuestPointer

section level

variable (p : Program M) (o : RuntimeCanonicalOptions σ) (m : LinearMemory) (below : Lifting)
  (follow : Following)

def fieldsPointers : List LabelValType → List WasmValue → List GuestPointer
  | [], _ => []
  | field :: fields, values =>
      follow.flat field.ty values ++
        onOk (below.flat field.ty values) fun entry => fieldsPointers fields entry.2

def readFieldsPointers (ptr : Nat) : Nat → List LabelValType → List GuestPointer
  | _, [] => []
  | cursor, field :: fields =>
      onOk (p.memoryAbiForValtype field.ty) fun abi =>
        let cursor := alignTo cursor (max abi.align 1)
        follow.memory field.ty (u32Add ptr cursor) ++
          onOk (below.memory field.ty (u32Add ptr cursor)) fun _ =>
            readFieldsPointers ptr (saturatingAdd cursor abi.size) fields

def casePayloadPointers (payloadTypes : List CoreValType) (raw : List WasmValue) :
    Option ValType → List GuestPointer
  | some ty =>
      onOk (below.flatTypes ty) fun expected =>
        onOk (expectedPayload expected raw payloadTypes) fun values => follow.flat ty values
  | none => []

def variantPointers (cases : List Case) (values : List WasmValue) : List GuestPointer :=
  onOk (CoreValueCursor.nextI32 values) fun index =>
    onOk (caseAt cases (index.1.signExtend 64).toNat) fun case =>
      onOk (variantPayloadFlatTypes below.flatTypes cases) fun payloadTypes =>
        onOk (payloadTypes.mapM CoreValueCursor.nextForType index.2) fun raw =>
          casePayloadPointers below follow payloadTypes raw.1 case.ty

def readCasePayloadPointers (ptr : Nat) : Option ValType → List GuestPointer
  | some ty => follow.memory ty ptr
  | none => []

def readVariantPointers (cases : List Case) (ptr : Nat) : List GuestPointer :=
  onOk (readVariantDiscriminantFromMemory m ptr cases.length) fun discriminant =>
    onOk (caseAt cases discriminant) fun case =>
      onOk (p.variantPayloadOffsetAndSize cases) fun payload =>
        readCasePayloadPointers follow (u32Add ptr payload.1) case.ty

def elementsPointers (elem : ValType) (base stride : Nat) : Nat → Nat → List GuestPointer
  | _, 0 => []
  | index, count + 1 =>
      onOk (elementAddress base stride index) fun address =>
        follow.memory elem address ++
          onOk (below.memory elem address) fun _ =>
            elementsPointers elem base stride (index + 1) count

/-- The base of a list is followed if the list has elements. -/
def listPointers (elem : ValType) (base : Nat) (len : BitVec 32) : List GuestPointer :=
  onOk (p.memoryAbiForValtype elem) fun abi =>
    onOk (elementStride p elem) fun stride =>
      if stride = 0 ∨ len = 0 then []
      else ⟨base, max abi.align 1, .elements⟩ ::
        elementsPointers below follow elem base stride 0 len.toNat

def flatListPointers (elem : ValType) (len : Option Nat) (values : List WasmValue) :
    List GuestPointer :=
  onOk (requireMemory o) fun _ =>
    onOk (CoreValueCursor.nextI32 values) fun ptr =>
      onOk (CoreValueCursor.nextI32 ptr.2) fun given =>
        onOk (checkFixedLength len given.1) fun _ =>
          listPointers p below follow elem ptr.1.toNat given.1

def memoryListPointers (elem : ValType) (len : Option Nat) (ptr : Nat) : List GuestPointer :=
  onOk (readI32FromMemory m ptr) fun listPtr =>
    onOk (lengthAddress ptr) fun address =>
      onOk (readI32FromMemory m address) fun given =>
        onOk (checkFixedLength len given) fun _ =>
          listPointers p below follow elem listPtr.toNat given

def definedPointers (id : TypeId) (values : List WasmValue) : List GuestPointer :=
  match p.arena.get id with
  | some (.defVal (.primitive prim)) => flatPrimitivePointers o prim values
  | some (.defVal (.record fields)) => fieldsPointers below follow fields values
  | some (.defVal (.variant cases)) => variantPointers below follow cases values
  | some (.defVal (.list elem len)) => flatListPointers p o below follow elem len values
  | _ => []

def readDefinedPointers (id : TypeId) (ptr : Nat) : List GuestPointer :=
  match p.arena.get id with
  | some (.defVal (.primitive prim)) => memoryPrimitivePointers o m prim ptr
  | some (.defVal (.record fields)) => readFieldsPointers p below follow ptr 0 fields
  | some (.defVal (.variant cases)) => readVariantPointers p m follow cases ptr
  | some (.defVal (.list elem len)) => memoryListPointers p m below follow elem len ptr
  | _ => []

end level

/-- The pointers that `lifting` follows. -/
def following (p : Program M) (o : RuntimeCanonicalOptions σ) (m : LinearMemory) : Nat → Following
  | 0 =>
      { flat := fun ty values =>
          match ty with
          | .primitive prim => flatPrimitivePointers o prim values
          | .type _ => []
        memory := fun ty ptr =>
          match ty with
          | .primitive prim => memoryPrimitivePointers o m prim ptr
          | .type _ => [] }
  | depth + 1 =>
      { flat := fun ty values =>
          match ty with
          | .primitive prim => flatPrimitivePointers o prim values
          | .type id => definedPointers p o (lifting p o m depth) (following p o m depth) id values
        memory := fun ty ptr =>
          match ty with
          | .primitive prim => memoryPrimitivePointers o m prim ptr
          | .type id =>
              readDefinedPointers p o m (lifting p o m depth) (following p o m depth) id ptr }

namespace Program

variable (p : Program M) (o : RuntimeCanonicalOptions σ) (m : LinearMemory)

def valuePointers (ty : ValType) (values : List WasmValue) : List GuestPointer :=
  (following p o m p.arena.types.length).flat ty values

def readValuePointers (ty : ValType) (ptr : Nat) : List GuestPointer :=
  (following p o m p.arena.types.length).memory ty ptr

def readArgsPointers (ptr : Nat) : List ValType → List Nat → List GuestPointer
  | ty :: params, offset :: offsets =>
      p.readValuePointers o m ty (u32Add ptr offset) ++
        onOk (p.readValueFromMemory o m ty (u32Add ptr offset)) fun _ =>
          readArgsPointers ptr params offsets
  | _, _ => []

def argsPointers : List ValType → List WasmValue → List GuestPointer
  | [], _ => []
  | ty :: params, values =>
      p.valuePointers o m ty values ++
        onOk (p.liftValue o m ty values) fun entry => argsPointers params entry.2

/-- An area without parameters in it takes no memory. -/
def liftArgsPointers (func : FuncType) (args : List WasmValue) : List GuestPointer :=
  onOk (p.functionParamsFlatLen func) fun len =>
    if maxFlatParams < len then
      onOk (requireMemory o) fun _ =>
        onOk (areaPointer args) fun ptr =>
          onOk (p.valueAreaLayout func.params) fun layout =>
            ⟨ptr, layout.align, .area⟩ :: p.readArgsPointers o m ptr func.params layout.offsets
    else p.argsPointers o m func.params args

def liftResultPointers (ty : ValType) (results : List WasmValue) : List GuestPointer :=
  onOk (p.valueFlatLen ty) fun len =>
    if maxFlatResults < len then
      onOk (CoreValueCursor.nextI32 results) fun pointer =>
        onOk (requireMemory o) fun _ =>
          onOk (p.memoryAbiForValtype ty) fun abi =>
            ⟨pointer.1.toNat, max abi.align 1, .area⟩ ::
              p.readValuePointers o m ty pointer.1.toNat
    else p.valuePointers o m ty results

def liftResultsPointers (func : FuncType) (results : List WasmValue) : List GuestPointer :=
  match func.result with
  | some ty => p.liftResultPointers o m ty results
  | none => []

/-- The area for a result is followed if there is a result to write. -/
def resultAreaPointers (func : FuncType) (results : List ComponentValue)
    (resultArea : Option Nat) : List GuestPointer :=
  match func.result, results, resultArea with
  | some ty, _ :: _, some ptr =>
      onOk (p.valueFlatLen ty) fun len =>
        onOk (requireMemory o) fun _ =>
          onOk (p.memoryAbiForValtype ty) fun abi =>
            if maxFlatResults < len then [⟨ptr, max abi.align 1, .area⟩] else []
  | _, _, _ => []

end Program

def Traps (r : Except ComponentError α) : Prop := ∃ message, r = .error (.trap message)

/-- A misaligned pointer of the kind that is checked is a trap. -/
def Caught (pointers : List GuestPointer) (r : Except ComponentError α) : Prop :=
  ∀ pointer ∈ pointers, pointer.Misaligned → pointer.Checked → Traps r

theorem Traps.bind {x : Except ComponentError α} (h : Traps x) (f : α → Except ComponentError β) :
    Traps (x >>= f) := by
  obtain ⟨message, rfl⟩ := h
  exact ⟨message, rfl⟩

namespace Caught

variable {pointers : List GuestPointer} {s : List WasmValue}

theorem nil (r : Except ComponentError α) : Caught [] r := List.forall_mem_nil _

theorem left {x : Except ComponentError α} (h : Caught pointers x)
    (f : α → Except ComponentError β) : Caught pointers (x >>= f) :=
  fun pointer hmem hmisaligned hchecked => (h pointer hmem hmisaligned hchecked).bind f

theorem onOk {x : Except ComponentError α} {f : α → Except ComponentError β}
    {rest : α → List GuestPointer} (h : ∀ a, x = .ok a → Caught (rest a) (f a)) :
    Caught (Component.onOk x rest) (x >>= f) := by
  cases x with
  | error e => exact nil _
  | ok a => exact h a rfl

theorem append {r : Except ComponentError α} {others : List GuestPointer}
    (h : Caught pointers r) (hothers : Caught others r) : Caught (pointers ++ others) r :=
  List.forall_mem_append.mpr ⟨h, hothers⟩

theorem bind {x : Except ComponentError α} {f : α → Except ComponentError β}
    {rest : α → List GuestPointer} (hx : Caught pointers x)
    (hf : ∀ a, x = .ok a → Caught (rest a) (f a)) :
    Caught (pointers ++ Component.onOk x rest) (x >>= f) :=
  append (hx.left f) (onOk hf)

theorem cons {r : Except ComponentError α} {pointer : GuestPointer} (hpointer : ¬pointer.Checked)
    (h : Caught pointers r) : Caught (pointer :: pointers) r :=
  List.forall_mem_cons.mpr ⟨fun _ hchecked => absurd hchecked hpointer, h⟩

/-! Core values are taken on the way. -/

theorem run_onOk {x : CoreValueCursor α} {f : α → CoreValueCursor β}
    {rest : α × List WasmValue → List GuestPointer}
    (h : ∀ a s', x s = .ok (a, s') → Caught (rest (a, s')) (f a s')) :
    Caught (Component.onOk (x s) rest) ((x >>= f) s) :=
  onOk (f := fun (entry : α × List WasmValue) => f entry.1 entry.2) fun entry heq => h entry.1 entry.2 heq

theorem run_bind {x : CoreValueCursor α} {f : α → CoreValueCursor β}
    {rest : α × List WasmValue → List GuestPointer} (hx : Caught pointers (x s))
    (hf : ∀ a s', x s = .ok (a, s') → Caught (rest (a, s')) (f a s')) :
    Caught (pointers ++ Component.onOk (x s) rest) ((x >>= f) s) :=
  bind (f := fun (entry : α × List WasmValue) => f entry.1 entry.2) hx fun entry heq => hf entry.1 entry.2 heq

theorem run_left {x : CoreValueCursor α} (h : Caught pointers (x s)) (f : α → CoreValueCursor β) :
    Caught pointers ((x >>= f) s) :=
  left h fun (entry : α × List WasmValue) => f entry.1 entry.2

theorem lift_onOk {x : Except ComponentError α} {f : α → CoreValueCursor β}
    {rest : α → List GuestPointer} (h : ∀ a, x = .ok a → Caught (rest a) (f a s)) :
    Caught (Component.onOk x rest) ((liftM x >>= f : CoreValueCursor β) s) := by
  cases x with
  | error e => exact nil _
  | ok a => exact h a rfl

theorem lift_left {x : Except ComponentError α} (h : Caught pointers x)
    (f : α → CoreValueCursor β) : Caught pointers ((liftM x >>= f : CoreValueCursor β) s) :=
  run_left (left h fun a => pure (a, s)) f

end Caught

theorem readStringFromMemory_caught (o : RuntimeCanonicalOptions σ) (m : LinearMemory)
    (ptr len : BitVec 32) :
    Caught [stringPointer o ptr] (readStringFromMemory m ptr.toNat len o.stringEncoding) := by
  intro pointer hmem hmisaligned hchecked
  rw [List.mem_singleton.mp hmem] at hmisaligned hchecked
  have hcompact : o.stringEncoding.getD .utf8 = .compactUtf16 := by
    simpa [GuestPointer.Checked, stringPointer] using hchecked
  have hodd : ptr.toNat % 2 ≠ 0 := by
    simpa [GuestPointer.Misaligned, stringPointer, hcompact, encodingAlign] using hmisaligned
  unfold readStringFromMemory
  rw [hcompact]
  exact ⟨_, if_pos hodd⟩

section primitives

variable (o : RuntimeCanonicalOptions σ) (m : LinearMemory)

theorem liftString_caught (values : List WasmValue) :
    Caught (flatStringPointers o values) (liftString o m values) := by
  apply Caught.lift_onOk
  intro _ _
  apply Caught.run_onOk
  intro ptr values _
  apply Caught.run_onOk
  intro len values _
  exact Caught.lift_left (readStringFromMemory_caught o m ptr len) _

theorem liftPrimitive_caught (prim : PrimValType) (values : List WasmValue) :
    Caught (flatPrimitivePointers o prim values) (liftPrimitive o m prim values) := by
  cases prim with
  | string => exact liftString_caught o m values
  | _ => exact Caught.nil _

theorem readPrimitiveFromMemory_caught (prim : PrimValType) (ptr : Nat) :
    Caught (memoryPrimitivePointers o m prim ptr) (readPrimitiveFromMemory o m ptr prim) := by
  cases prim with
  | string =>
      apply Caught.onOk
      intro stringPtr _
      apply Caught.onOk
      intro len _
      exact (readStringFromMemory_caught o m stringPtr len).left _
  | _ => exact Caught.nil _

end primitives

structure Following.Caught (follow : Following) (below : Lifting) : Prop where
  flat : ∀ ty values, Component.Caught (follow.flat ty values) (below.flat ty values)
  memory : ∀ ty ptr, Component.Caught (follow.memory ty ptr) (below.memory ty ptr)

section level

variable (p : Program M) (o : RuntimeCanonicalOptions σ) (m : LinearMemory) {below : Lifting}
  {follow : Following}

theorem liftFields_caught (h : follow.Caught below) (fields : List LabelValType)
    (values : List WasmValue) :
    Caught (fieldsPointers below follow fields values) (liftFields below fields values) := by
  induction fields generalizing values with
  | nil => exact Caught.nil _
  | cons field fields ih =>
      apply Caught.run_bind (h.flat field.ty values)
      intro value values _
      exact Caught.run_left (ih values) _

theorem readFields_caught (h : follow.Caught below) (ptr cursor : Nat)
    (fields : List LabelValType) :
    Caught (readFieldsPointers p below follow ptr cursor fields)
      (readFields p below ptr cursor fields) := by
  induction fields generalizing cursor with
  | nil => exact Caught.nil _
  | cons field fields ih =>
      apply Caught.onOk
      intro abi _
      apply Caught.bind (h.memory field.ty _)
      intro value _
      exact (ih _).left _

theorem liftCasePayload_caught (h : follow.Caught below) (payloadTypes : List CoreValType)
    (raw : List WasmValue) (ty : Option ValType) :
    Caught (casePayloadPointers below follow payloadTypes raw ty)
      (liftCasePayload below payloadTypes raw ty) := by
  cases ty with
  | none => exact Caught.nil _
  | some ty =>
      apply Caught.onOk
      intro expected _
      apply Caught.onOk
      intro values _
      exact (h.flat ty values).left _

theorem liftVariantValue_caught (h : follow.Caught below) (cases : List Case)
    (values : List WasmValue) :
    Caught (variantPointers below follow cases values) (liftVariantValue below cases values) := by
  apply Caught.run_onOk
  intro index values _
  apply Caught.lift_onOk
  intro case _
  apply Caught.lift_onOk
  intro payloadTypes _
  apply Caught.run_onOk
  intro raw values _
  exact Caught.lift_left (liftCasePayload_caught h payloadTypes raw case.ty) _

theorem readCasePayload_caught (h : follow.Caught below) (ptr : Nat) (ty : Option ValType) :
    Caught (readCasePayloadPointers follow ptr ty) (readCasePayload below ptr ty) := by
  cases ty with
  | none => exact Caught.nil _
  | some ty => exact (h.memory ty ptr).left _

theorem readVariant_caught (h : follow.Caught below) (cases : List Case) (ptr : Nat) :
    Caught (readVariantPointers p m follow cases ptr)
      (readVariantValueFromMemory p m below cases ptr) := by
  apply Caught.onOk
  intro discriminant _
  apply Caught.onOk
  intro case _
  apply Caught.onOk
  intro payload _
  exact (readCasePayload_caught h _ case.ty).left _

theorem readElements_caught (h : follow.Caught below) (elem : ValType)
    (base stride index count : Nat) :
    Caught (elementsPointers below follow elem base stride index count)
      (readElements below elem base stride index count) := by
  induction count generalizing index with
  | zero => exact Caught.nil _
  | succ count ih =>
      apply Caught.onOk
      intro address _
      apply Caught.bind (h.memory elem address)
      intro value _
      exact (ih _).left _

theorem readListElements_caught (h : follow.Caught below) (elem : ValType) (base : Nat)
    (len : BitVec 32) :
    Caught (listPointers p below follow elem base len)
      (readListElements p below elem base len) := by
  unfold listPointers
  cases p.memoryAbiForValtype elem with
  | error e => exact Caught.nil _
  | ok abi =>
      refine Caught.onOk (x := elementStride p elem) fun stride _ => ?_
      by_cases hempty : stride = 0 ∨ len = 0
      · rw [if_pos hempty]
        exact Caught.nil _
      · rw [if_neg hempty, if_neg fun hzero => hempty (.inl hzero.1)]
        apply Caught.cons
        · rintro ⟨⟩
        · exact readElements_caught h elem base stride 0 len.toNat

theorem liftListValue_caught (h : follow.Caught below) (elem : ValType) (len : Option Nat)
    (values : List WasmValue) :
    Caught (flatListPointers p o below follow elem len values)
      (liftListValue p o below elem len values) := by
  apply Caught.lift_onOk
  intro _ _
  apply Caught.run_onOk
  intro ptr values _
  apply Caught.run_onOk
  intro given values _
  apply Caught.lift_onOk
  intro _ _
  exact Caught.lift_left (readListElements_caught p h elem ptr.toNat given) _

theorem readListValue_caught (h : follow.Caught below) (elem : ValType) (len : Option Nat)
    (ptr : Nat) :
    Caught (memoryListPointers p m below follow elem len ptr)
      (readListValueFromMemory p m below elem len ptr) := by
  apply Caught.onOk
  intro listPtr _
  apply Caught.onOk
  intro address _
  apply Caught.onOk
  intro given _
  apply Caught.onOk
  intro _ _
  exact (readListElements_caught p h elem listPtr.toNat given).left _

theorem liftDefinedValue_caught (h : follow.Caught below) (id : TypeId)
    (values : List WasmValue) :
    Caught (definedPointers p o below follow id values)
      (liftDefinedValue p o m below id values) := by
  unfold definedPointers liftDefinedValue
  cases p.arena.get id with
  | none => exact Caught.nil _
  | some ty =>
      cases ty with
      | defVal ty =>
          cases ty with
          | primitive prim => exact liftPrimitive_caught o m prim values
          | record fields => exact Caught.run_left (liftFields_caught h fields values) _
          | variant cases => exact liftVariantValue_caught h cases values
          | list elem len => exact liftListValue_caught p o h elem len values
          | _ => exact Caught.nil _
      | _ => exact Caught.nil _

theorem readDefinedValue_caught (h : follow.Caught below) (id : TypeId) (ptr : Nat) :
    Caught (readDefinedPointers p o m below follow id ptr)
      (readDefinedValueFromMemory p o m below id ptr) := by
  unfold readDefinedPointers readDefinedValueFromMemory
  cases p.arena.get id with
  | none => exact Caught.nil _
  | some ty =>
      cases ty with
      | defVal ty =>
          cases ty with
          | primitive prim => exact readPrimitiveFromMemory_caught o m prim ptr
          | record fields => exact (readFields_caught p h ptr 0 fields).left _
          | variant cases => exact readVariant_caught p m h cases ptr
          | list elem len => exact readListValue_caught p m h elem len ptr
          | _ => exact Caught.nil _
      | _ => exact Caught.nil _

theorem following_caught (depth : Nat) :
    (following p o m depth).Caught (lifting p o m depth) := by
  induction depth with
  | zero =>
      constructor
      · intro ty values
        cases ty with
        | primitive prim => exact liftPrimitive_caught o m prim values
        | type id => exact Caught.nil _
      · intro ty ptr
        cases ty with
        | primitive prim => exact readPrimitiveFromMemory_caught o m prim ptr
        | type id => exact Caught.nil _
  | succ depth ih =>
      constructor
      · intro ty values
        cases ty with
        | primitive prim => exact liftPrimitive_caught o m prim values
        | type id => exact liftDefinedValue_caught p o m ih id values
      · intro ty ptr
        cases ty with
        | primitive prim => exact readPrimitiveFromMemory_caught o m prim ptr
        | type id => exact readDefinedValue_caught p o m ih id ptr

end level

/-! ## Calls -/

section calls

variable (p : Program M) (o : RuntimeCanonicalOptions σ) (m : LinearMemory)

theorem liftValue_caught (ty : ValType) (values : List WasmValue) :
    Caught (p.valuePointers o m ty values) (p.liftValue o m ty values) :=
  (following_caught p o m _).flat ty values

theorem readValueFromMemory_caught (ty : ValType) (ptr : Nat) :
    Caught (p.readValuePointers o m ty ptr) (p.readValueFromMemory o m ty ptr) :=
  (following_caught p o m _).memory ty ptr

theorem readArgs_caught (ptr : Nat) (params : List ValType) (offsets : List Nat) :
    Caught (p.readArgsPointers o m ptr params offsets) (p.readArgs o m ptr params offsets) := by
  induction params generalizing offsets with
  | nil => exact Caught.nil _
  | cons ty params ih =>
      cases offsets with
      | nil => exact Caught.nil _
      | cons offset offsets =>
          apply Caught.bind (readValueFromMemory_caught p o m ty _)
          intro value _
          exact (ih offsets).left _

theorem liftArgs_caught (params : List ValType) (values : List WasmValue) :
    Caught (p.argsPointers o m params values) (p.liftArgs o m params values) := by
  induction params generalizing values with
  | nil => exact Caught.nil _
  | cons ty params ih =>
      apply Caught.run_bind (liftValue_caught p o m ty values)
      intro value values _
      exact Caught.run_left (ih values) _

theorem liftComponentArgs_caught (func : FuncType) (args : List WasmValue) :
    Caught (p.liftArgsPointers o m func args) (p.liftComponentArgs o m func args) := by
  apply Caught.onOk
  intro len _
  by_cases hspills : maxFlatParams < len
  · rw [if_pos hspills, if_pos hspills]
    apply Caught.onOk
    intro _ _
    apply Caught.onOk
    intro ptr _
    apply Caught.onOk
    intro layout _
    apply Caught.cons
    · rintro ⟨⟩
    · exact readArgs_caught p o m ptr func.params layout.offsets
  · rw [if_neg hspills, if_neg hspills]
    exact (liftArgs_caught p o m func.params args).left _

theorem liftResult_caught (ty : ValType) (results : List WasmValue) :
    Caught (p.liftResultPointers o m ty results) (p.liftResult o m ty results) := by
  apply Caught.lift_onOk
  intro len _
  by_cases hspills : maxFlatResults < len
  · rw [if_pos hspills, if_pos hspills]
    apply Caught.run_onOk
    intro pointer values _
    apply Caught.lift_onOk
    intro _ _
    cases p.memoryAbiForValtype ty with
    | error e => exact Caught.nil _
    | ok abi =>
        apply Caught.cons
        · rintro ⟨⟩
        · exact (readValueFromMemory_caught p o m ty _).left fun value => pure (value, values)
  · rw [if_neg hspills, if_neg hspills]
    exact liftValue_caught p o m ty results

theorem liftComponentResults_caught (func : FuncType) (results : List WasmValue) :
    Caught (p.liftResultsPointers o m func results) (p.liftComponentResults o m func results) := by
  unfold Program.liftResultsPointers Program.liftComponentResults
  cases func.result with
  | none => exact Caught.nil _
  | some ty => exact (liftResult_caught p o m ty results).left _

end calls

/-- Where core values of the guest come in: the arguments of a host function, the results of a
lifted function, and the area that the caller of a host function gives for its result. -/
inductive Crossing (σ : Type) where
  | args (func : FuncType) (args : List WasmValue)
  | results (func : FuncType) (results : List WasmValue)
  | resultArea (func : FuncType) (results : List ComponentValue) (args : List WasmValue)
      (world : World σ)

namespace Crossing

variable (p : Program M) (o : RuntimeCanonicalOptions σ) (m : LinearMemory)

def pointers : Crossing σ → List GuestPointer
  | .args func values => p.liftArgsPointers o m func values
  | .results func values => p.liftResultsPointers o m func values
  | .resultArea func values params _ =>
      onOk (p.loweredIndirectResultArea func params) fun area =>
        p.resultAreaPointers o func values area

def Fails : Crossing σ → Prop
  | .args func values => Traps (p.liftComponentArgs o m func values)
  | .results func values => Traps (p.liftComponentResults o m func values)
  | .resultArea func values params world =>
      Traps (do
        let area ← p.loweredIndirectResultArea func params
        p.lowerComponentResults o func values area world)

theorem resultAreaPointers_unchecked (func : FuncType) (values : List ComponentValue)
    (area : Option Nat) : ∀ pointer ∈ p.resultAreaPointers o func values area,
      ¬pointer.Checked := by
  intro pointer hmem hchecked
  unfold Program.resultAreaPointers at hmem
  split at hmem
  · obtain ⟨len, -, hmem⟩ := mem_onOk.mp hmem
    obtain ⟨_, -, hmem⟩ := mem_onOk.mp hmem
    obtain ⟨abi, -, hmem⟩ := mem_onOk.mp hmem
    split at hmem
    · rw [List.mem_singleton.mp hmem] at hchecked
      cases hchecked
    · cases hmem
  · cases hmem

theorem caught (crossing : Crossing σ) :
    ∀ pointer ∈ crossing.pointers p o m, pointer.Misaligned → pointer.Checked →
      crossing.Fails p o m := by
  cases crossing with
  | args func values => exact liftComponentArgs_caught p o m func values
  | results func values => exact liftComponentResults_caught p o m func values
  | resultArea func values params world =>
      intro pointer hmem _ hchecked
      obtain ⟨area, -, hmem⟩ := mem_onOk.mp hmem
      exact absurd hchecked (resultAreaPointers_unchecked p o func values area pointer hmem)

/-- Misaligned pointers are caught where one of them is the pointer of a latin1+utf16 string, and
trivially where there is none. -/
theorem misaligned_traps (crossing : Crossing σ)
    (hpointers : (∀ pointer ∈ crossing.pointers p o m, pointer.Misaligned → pointer.Checked) ∨
      ∃ pointer ∈ crossing.pointers p o m, pointer.Misaligned ∧ pointer.Checked) :
    (∃ pointer ∈ crossing.pointers p o m, pointer.Misaligned) → crossing.Fails p o m := by
  rintro ⟨pointer, hmem, hmisaligned⟩
  rcases hpointers with hchecked | ⟨other, hother, hodd, hchecked⟩
  · exact crossing.caught p o m pointer hmem hmisaligned (hchecked pointer hmem hmisaligned)
  · exact crossing.caught p o m other hother hodd hchecked

end Crossing

section chosen

private def numbersTypes : List (Ty Empty) := [.defVal (.list (.primitive .u32) none)]

private def numbersArena : TypeArena Empty where
  types := numbersTypes
  refs_lt := by
    intro id ty h
    match id, h with
    | 0, h => cases h; decide
  names_nodup := by
    intro ty h
    rw [List.mem_singleton.mp h]
    trivial
  generic_sub := by
    intro g h
    simp [numbersTypes] at h

private def numbersProgram : Program Empty where
  arena := numbersArena
  typeInfos := [⟨0, 2, 8, 4, none⟩]
  built := rfl

private def compactOptions : RuntimeCanonicalOptions Unit := ⟨some .compactUtf16, true, none⟩

private def smallMemory : LinearMemory := ⟨8, fun _ => 0⟩

/-- A latin1+utf16 string at an odd address. -/
theorem misaligned_traps_string :
    (Crossing.args ⟨[.primitive .string], ["s"], none⟩ [.i32 1, .i32 0]).Fails numbersProgram
      compactOptions smallMemory := by
  have hmem : (⟨1, 2, .string .compactUtf16⟩ : GuestPointer) ∈
      (Crossing.args ⟨[.primitive .string], ["s"], none⟩ [.i32 1, .i32 0]).pointers
        numbersProgram compactOptions smallMemory := List.mem_singleton_self _
  apply Crossing.misaligned_traps
  · exact .inr ⟨_, hmem, by decide, rfl⟩
  · exact ⟨_, hmem, by decide⟩

/-- A list of one number at an odd address is lifted. -/
theorem misaligned_list_lifted :
    (∃ pointer ∈ (Crossing.args ⟨[.type 0], ["xs"], none⟩ [.i32 1, .i32 1]).pointers
      numbersProgram compactOptions smallMemory, pointer.Misaligned) ∧
    ¬(Crossing.args ⟨[.type 0], ["xs"], none⟩ [.i32 1, .i32 1]).Fails numbersProgram
      compactOptions smallMemory := by
  constructor
  · exact ⟨⟨1, 4, .elements⟩, List.mem_cons_self, by decide⟩
  · rintro ⟨message, h⟩
    have hlifted : numbersProgram.liftComponentArgs compactOptions smallMemory
        ⟨[.type 0], ["xs"], none⟩ [.i32 1, .i32 1] = .ok [.list [.u32 0]] := rfl
    rw [hlifted] at h
    cases h

end chosen

end Telomere.Component
