import Mathlib.Algebra.Ring.Int.Defs
import Telomere.Component.Lower

/-!
# Shapes of component values

Which values belong to a type: as many as it has fields, integers in their range, cases, payloads
and flags that it knows. `Tallies` is the part of this that lowering does not look at: how many
values a record or a tuple has, and the ranges of small integers.
-/

namespace Telomere.Component

variable {M : Type}

/-- A value of the right kind: a wider integer stands for a narrower one. -/
def PrimKind : PrimValType → ComponentValue → Prop
  | .bool, v => ∃ b, v = .bool b
  | .s8, v | .s16, v | .s32, v => ∃ n, v.asI32 = some n
  | .u8, v | .u16, v | .u32, v => ∃ n, v.asU32 = some n
  | .s64, v => ∃ n, v = .s64 n ∨ v = .i64 n
  | .u64, v => ∃ n, v = .u64 n
  | .f32, v => ∃ bits, v = .f32 bits
  | .f64, v => ∃ bits, v = .f64 bits
  | .char, v => ∃ c, v = .char c
  | .string, v => ∃ s, v = .string s
  | .errorContext, _ => False

def InRange : PrimValType → ComponentValue → Prop
  | .s8, v => ∀ n, v.asI32 = some n → -2 ^ 7 ≤ n.toInt ∧ n.toInt < 2 ^ 7
  | .s16, v => ∀ n, v.asI32 = some n → -2 ^ 15 ≤ n.toInt ∧ n.toInt < 2 ^ 15
  | .u8, v => ∀ n, v.asU32 = some n → n.toNat < 2 ^ 8
  | .u16, v => ∀ n, v.asU32 = some n → n.toNat < 2 ^ 16
  | _, _ => True

def IsHandle (v : ComponentValue) : Prop :=
  ∃ n, v = .own n ∨ v = .borrow n ∨ v = .u32 n

/-- A value that picks a case of a variant, and what it carries. -/
inductive Picks (cases : List Case) : ComponentValue → String → Option ComponentValue → Prop
  | variant (name : String) (payload : Option ComponentValue) :
      Picks cases (.variant name payload) name payload
  | enum (name : String) : Picks cases (.enum name) name none
  | option_none (hcases : isOptionCases cases = true) : Picks cases (.option none) "none" none
  | option_some (hcases : isOptionCases cases = true) (payload : ComponentValue) :
      Picks cases (.option (some payload)) "some" (some payload)
  | ok (hcases : isResultCases cases = true) (payload : ComponentValue) :
      Picks cases (.result (some payload) none) "ok" (some payload)
  | err (hcases : isResultCases cases = true) (payload : ComponentValue) :
      Picks cases (.result none (some payload)) "err" (some payload)

def caseNamed (cases : List Case) (name : String) : Option Case :=
  cases.find? fun case => case.label == name

section relative

variable (S : ComponentValue → ValType → Prop)

def RecordShape (fields : List LabelValType) : ComponentValue → Prop
  | .tuple values =>
      isTupleFields fields = true ∧ List.Forall₂ (fun value field => S value field.ty) values fields
  | .record entries =>
      entries.length = fields.length ∧
        ∀ field ∈ fields, ∃ value, entries.lookup field.label = some value ∧ S value field.ty
  | _ => False

def PayloadShape (cases : List Case) : Option ValType → Option ComponentValue → Prop
  | some ty, some payload => S payload ty
  | none, none => True
  | none, some payload => isResultCases cases = true ∧ payload = .tuple []
  | some _, none => False

def VariantShape (cases : List Case) (v : ComponentValue) : Prop :=
  ∃ name payload case, Picks cases v name payload ∧ caseNamed cases name = some case ∧
    PayloadShape S cases case.ty payload

def DefShape : DefValType → ComponentValue → Prop
  | .primitive prim, v => PrimKind prim v ∧ InRange prim v
  | .record fields, v => RecordShape S fields v
  | .variant cases, v => VariantShape S cases v
  | .flags labels, v => ∃ selected, v = .flags selected ∧ selected ⊆ labels
  | .list elem len, v =>
      ∃ values, v = .list values ∧ (∀ expected, len = some expected → values.length = expected) ∧
        ∀ value ∈ values, S value elem
  | .own _, v | .borrow _, v => IsHandle v

def RecordTallies (fields : List LabelValType) : ComponentValue → Prop
  | .tuple values =>
      values.length = fields.length ∧ ∀ entry ∈ values.zip fields, S entry.1 entry.2.ty
  | .record entries =>
      entries.length = fields.length ∧
        ∀ field ∈ fields, ∀ value, entries.lookup field.label = some value → S value field.ty
  | _ => True

def VariantTallies (cases : List Case) (v : ComponentValue) : Prop :=
  ∀ name payload case ty, Picks cases v name (some payload) → caseNamed cases name = some case →
    case.ty = some ty → S payload ty

def DefTallies : DefValType → ComponentValue → Prop
  | .primitive prim, v => InRange prim v
  | .record fields, v => RecordTallies S fields v
  | .variant cases, v => VariantTallies S cases v
  | .list elem _, v => ∀ values, v = .list values → ∀ value ∈ values, S value elem
  | .flags _, _ | .own _, _ | .borrow _, _ => True

end relative

def HasShape (types : List (Ty M)) : Nat → ComponentValue → ValType → Prop
  | _, v, .primitive prim => PrimKind prim v ∧ InRange prim v
  | 0, _, .type _ => False
  | depth + 1, v, .type id =>
      match types[id]? with
      | some (.defVal ty) => DefShape (HasShape types depth) ty v
      | some (.resource _) | some (.generic _) => IsHandle v
      | _ => False

/-- Every record and tuple inside has as many values as its type has fields, every integer inside
is in the range of its type. -/
def Tallies (types : List (Ty M)) : Nat → ComponentValue → ValType → Prop
  | _, v, .primitive prim => InRange prim v
  | 0, _, .type _ => True
  | depth + 1, v, .type id =>
      match types[id]? with
      | some (.defVal ty) => DefTallies (Tallies types depth) ty v
      | _ => True

section unfolding

variable {types : List (Ty M)} {depth : Nat} {v : ComponentValue} {id : TypeId}

theorem hasShape_defVal {ty : DefValType} (hget : types[id]? = some (.defVal ty)) :
    HasShape types (depth + 1) v (.type id) ↔ DefShape (HasShape types depth) ty v := by
  rw [HasShape, hget]

theorem hasShape_resource {r : Nat} (hget : types[id]? = some (.resource r)) :
    HasShape types (depth + 1) v (.type id) ↔ IsHandle v := by
  rw [HasShape, hget]

theorem hasShape_generic {g : Generic} (hget : types[id]? = some (.generic g)) :
    HasShape types (depth + 1) v (.type id) ↔ IsHandle v := by
  rw [HasShape, hget]

theorem tallies_defVal {ty : DefValType} (hget : types[id]? = some (.defVal ty)) :
    Tallies types (depth + 1) v (.type id) ↔ DefTallies (Tallies types depth) ty v := by
  rw [Tallies, hget]

end unfolding

theorem recordShape_tallies {S T : ComponentValue → ValType → Prop} (h : ∀ v ty, S v ty → T v ty)
    {fields : List LabelValType} {v : ComponentValue} (hshape : RecordShape S fields v) :
    RecordTallies T fields v := by
  cases v with
  | tuple values =>
      obtain ⟨-, hvalues⟩ := hshape
      refine ⟨hvalues.length_eq, ?_⟩
      rintro ⟨value, field⟩ hmem
      exact h _ _ (List.forall₂_iff_zip.mp hvalues |>.2 hmem)
  | record entries =>
      refine ⟨hshape.1, ?_⟩
      intro field hfield value hvalue
      obtain ⟨value', hvalue', hS⟩ := hshape.2 field hfield
      rw [hvalue] at hvalue'
      obtain rfl := Option.some.inj hvalue'
      exact h _ _ hS
  | _ => exact hshape.elim

theorem picks_unique {cases : List Case} {v : ComponentValue} {name name' : String}
    {payload payload' : Option ComponentValue} (h : Picks cases v name payload)
    (h' : Picks cases v name' payload') : name = name' ∧ payload = payload' := by
  cases h <;> cases h' <;> exact ⟨rfl, rfl⟩

theorem variantShape_tallies {S T : ComponentValue → ValType → Prop} (h : ∀ v ty, S v ty → T v ty)
    {cases : List Case} {v : ComponentValue} (hshape : VariantShape S cases v) :
    VariantTallies T cases v := by
  obtain ⟨name, payload, case, hpicks, hcase, hpayload⟩ := hshape
  intro name' payload' case' ty hpicks' hcase' hty
  obtain ⟨rfl, rfl⟩ := picks_unique hpicks hpicks'
  rw [hcase] at hcase'
  obtain rfl := Option.some.inj hcase'
  rw [hty] at hpayload
  exact h _ _ hpayload

theorem defShape_tallies {S T : ComponentValue → ValType → Prop} (h : ∀ v ty, S v ty → T v ty)
    {ty : DefValType} {v : ComponentValue} (hshape : DefShape S ty v) : DefTallies T ty v := by
  cases ty with
  | primitive prim => exact hshape.2
  | record fields => exact recordShape_tallies h hshape
  | variant cases => exact variantShape_tallies h hshape
  | list elem len =>
      obtain ⟨values, rfl, -, hvalues⟩ := hshape
      rintro _ ⟨⟩ value hmem
      exact h _ _ (hvalues value hmem)
  | flags | own | borrow => trivial

theorem hasShape_tallies {types : List (Ty M)} {depth : Nat} {v : ComponentValue} {ty : ValType}
    (hshape : HasShape types depth v ty) : Tallies types depth v ty := by
  induction depth generalizing v ty with
  | zero =>
      cases ty with
      | primitive prim => exact hshape.2
      | type id => trivial
  | succ depth ih =>
      cases ty with
      | primitive prim => exact hshape.2
      | type id =>
          unfold HasShape at hshape
          unfold Tallies
          split at hshape
          · next hget =>
              rw [hget]
              exact defShape_tallies (fun _ _ => ih) hshape
          · next hget => rw [hget]; trivial
          · next hget => rw [hget]; trivial
          · exact hshape.elim

end Telomere.Component
