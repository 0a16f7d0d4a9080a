import Telomere.Parser.BranchTyping
import Telomere.Parser.JumpResolver
import Telomere.Vm.Effect

/-!
# Layout of the emitted code

What one instruction adds to the code and to the record of jumps, and what the rest of the body
does to slots that are already there. Slots are only written again for the jumps of open blocks:
by the resolver, and by the `end` of an `if`.
-/

namespace Telomere.Parser

open TypeChecker State

/-- Operand slots of `op_if` that are written when the `if` ends. -/
def pendingIfs (frames : List Frame) : List Nat :=
  frames.filterMap fun frame =>
    if frame.kind = .if_ ∧ frame.isUnreachableIfBlock = false then some frame.index else none

/-- The code has grown, and only slots that belong to open jumps have changed. -/
structure Extends (s s' : State) : Prop where
  length : s.instr.length ≤ s'.instr.length
  slots : ∀ p, p < s.instr.length → p ∉ pendingIfs s.frames → s'.instr[p]? = s.instr[p]?
  dsls : ∃ later, s'.jumpResolver = s.jumpResolver ++ later ∧
    ∀ dsl ∈ later, ∀ slot ∈ dsl.slot, s.instr.length ≤ slot ∧ slot < s'.instr.length
  pending : ∀ p ∈ pendingIfs s'.frames,
    p ∈ pendingIfs s.frames ∨ s.instr.length ≤ p ∧ p < s'.instr.length

structure Bounded (s : State) : Prop where
  dsls : ∀ dsl ∈ s.jumpResolver, ∀ slot ∈ dsl.slot, slot < s.instr.length
  pending : ∀ p ∈ pendingIfs s.frames, p < s.instr.length

theorem Extends.refl (s : State) : Extends s s :=
  ⟨Nat.le_refl _, fun _ _ _ => rfl, ⟨[], by simp, by simp⟩, fun _ hp => Or.inl hp⟩

theorem Extends.trans {s s' s'' : State} (first : Extends s s') (second : Extends s' s'') :
    Extends s s'' := by
  have hle := first.length
  have hle' := second.length
  refine ⟨by omega, ?_, ?_, ?_⟩
  · intro p hp hfree
    rw [second.slots p (by omega), first.slots p hp hfree]
    intro hpending
    rcases first.pending p hpending with h | h
    · exact hfree h
    · omega
  · obtain ⟨later, hlater, hbound⟩ := first.dsls
    obtain ⟨later', hlater', hbound'⟩ := second.dsls
    refine ⟨later ++ later', by rw [hlater', hlater, List.append_assoc], ?_⟩
    intro dsl hdsl slot hslot
    rcases List.mem_append.mp hdsl with h | h
    · have := hbound dsl h slot hslot
      omega
    · have := hbound' dsl h slot hslot
      omega
  · intro p hp
    rcases second.pending p hp with h | h
    · rcases first.pending p h with h | h
      · exact Or.inl h
      · exact Or.inr (by omega)
    · exact Or.inr (by omega)

theorem Extends.bounded {s s' : State} (h : Extends s s') (hs : Bounded s) : Bounded s' := by
  have hle := h.length
  constructor
  · obtain ⟨later, hlater, hbound⟩ := h.dsls
    rw [hlater]
    intro dsl hdsl slot hslot
    rcases List.mem_append.mp hdsl with hmem | hmem
    · have := hs.dsls dsl hmem slot hslot
      omega
    · exact (hbound dsl hmem slot hslot).2
  · intro p hp
    rcases h.pending p hp with hmem | hmem
    · have := hs.pending p hmem
      omega
    · exact hmem.2

structure Appends (s s' : State) (slots : List Instr) (dsls : List JumpResolverDSL) : Prop where
  instr : s'.instr = s.instr ++ slots
  jumpResolver : s'.jumpResolver = s.jumpResolver ++ dsls
  inside : ∀ dsl ∈ dsls, ∀ slot ∈ dsl.slot,
    s.instr.length ≤ slot ∧ slot < s.instr.length + slots.length

theorem Appends.extends {s s' : State} {slots : List Instr} {dsls : List JumpResolverDSL}
    (h : Appends s s' slots dsls)
    (hpending : ∀ p ∈ pendingIfs s'.frames,
      p ∈ pendingIfs s.frames ∨ s.instr.length ≤ p ∧ p < s'.instr.length) : Extends s s' := by
  have hlen : s'.instr.length = s.instr.length + slots.length := by
    rw [h.instr, List.length_append]
  refine ⟨by omega, ?_, ⟨dsls, h.jumpResolver, ?_⟩, hpending⟩
  · intro p hp _
    rw [h.instr, List.getElem?_append_left hp]
  · rw [hlen]
    exact h.inside

theorem Appends.of_eq {s s' : State} (hinstr : s'.instr = s.instr)
    (hdsls : s'.jumpResolver = s.jumpResolver) : Appends s s' [] [] :=
  ⟨by simp [hinstr], by simp [hdsls], by simp⟩

section Emission

variable {env : Env} {s s' : State}

/-- The open blocks stay, and these slots and jumps are appended unless the code is dead. -/
structure Emits (s s' : State) (slots : List Instr) (dsls : List JumpResolverDSL) : Prop where
  frames : s'.frames = s.frames
  dead : s.isUnreachable = true → Appends s s' [] []
  live : s.isUnreachable = false → Appends s s' slots dsls

theorem Emits.of_eq (hframes : s'.frames = s.frames) (hinstr : s'.instr = s.instr)
    (hdsls : s'.jumpResolver = s.jumpResolver) : Emits s s' [] [] :=
  ⟨hframes, fun _ => .of_eq hinstr hdsls, fun _ => .of_eq hinstr hdsls⟩

private theorem pushSlot_live (s : State) (hlive : s.isUnreachable = false) (slot : Instr) :
    s.pushSlot slot = { s with instr := s.instr ++ [slot] } := by
  simp [pushSlot, hlive]

private theorem pushSlot_dead (s : State) (hdead : s.isUnreachable = true) (slot : Instr) :
    s.pushSlot slot = s := by
  simp [pushSlot, hdead]

private theorem emits_withOperand (c : TypeChecker) (handler : Handler) (operands : List Operand) :
    Emits s ((s.withChecker c).pushWithOperand handler operands)
      (.op handler :: operands.map .operand) [] := by
  rw [pushWithOperand_eq]
  refine ⟨rfl, ?_, ?_⟩
  · intro hdead
    exact ⟨by simp [show (s.withChecker c).isUnreachable = true from hdead], by simp, by simp⟩
  · intro hlive
    exact ⟨by simp [show (s.withChecker c).isUnreachable = false from hlive], by simp, by simp⟩

/-- Two states with the same code, records and open blocks. -/
structure SameCode (t s' : State) : Prop where
  instr : s'.instr = t.instr
  jumpResolver : s'.jumpResolver = t.jumpResolver
  frames : s'.frames = t.frames

theorem Appends.same {t : State} {slots : List Instr} {dsls : List JumpResolverDSL}
    (h : Appends s t slots dsls) (hsame : SameCode t s') : Appends s s' slots dsls :=
  ⟨hsame.instr.trans h.instr, hsame.jumpResolver.trans h.jumpResolver, h.inside⟩

theorem Emits.same {t : State} {slots : List Instr} {dsls : List JumpResolverDSL}
    (h : Emits s t slots dsls) (hsame : SameCode t s') : Emits s s' slots dsls :=
  ⟨hsame.frames.trans h.frames, fun hdead => (h.dead hdead).same hsame,
    fun hlive => (h.live hlive).same hsame⟩

private theorem appends_branch (hlive : s.isUnreachable = false) (handler : Handler)
    (operand : Operand) (record : Nat → JumpResolverDSL) (hrecord : ∀ p, (record p).slot = some p) :
    Appends s (((s.pushSlot (.op handler)).pushDsl
        (record (s.pushSlot (.op handler)).instr.length)).pushSlot (.operand operand))
      [.op handler, .operand operand] [record (s.instr.length + 1)] := by
  have hpush := pushSlot_live s hlive (.op handler)
  have hdsl : ((s.pushSlot (.op handler)).pushDsl
      (record (s.pushSlot (.op handler)).instr.length)).isUnreachable = false := by
    simpa [isUnreachable] using hlive
  rw [pushSlot_live _ hdsl, hpush]
  refine ⟨by simp, by simp, ?_⟩
  intro dsl hdsl slot hslot
  obtain rfl := List.mem_singleton.mp hdsl
  rw [hrecord] at hslot
  obtain rfl := Option.some.inj hslot
  simp

theorem parseBr_emits {idx : Nat} (hok : parseBr env s idx = .ok s') :
    Emits s s' [.op .opBr, .operand (.u32 (0xFFFF0000 ||| idx))]
      [.br idx (s.instr.length + 1)] := by
  obtain ⟨target, _, hok⟩ := Lib.bind_eq_ok.mp hok
  obtain ⟨c, _, hok⟩ := Lib.bind_eq_ok.mp hok
  rw [← Lib.pure_eq_ok.mp hok]
  refine ⟨?_, ?_, ?_⟩
  · split <;> simp
  · intro hdead
    rw [if_pos hdead]
    exact .of_eq rfl rfl
  · intro hlive
    rw [if_neg (by simp [hlive])]
    have happends := appends_branch hlive .opBr (.u32 (0xFFFF0000 ||| idx)) (.br idx) fun _ => rfl
    exact ⟨happends.instr, happends.jumpResolver, happends.inside⟩

theorem parseBrIf_emits {idx : Nat} (hok : parseBrIf env s idx = .ok s') :
    Emits s s' [.op .opBrIf, .operand (.u32 (0xFFFE0000 ||| idx))]
      [.br idx (s.instr.length + 1)] := by
  obtain ⟨c, _, hok⟩ := Lib.bind_eq_ok.mp hok
  obtain ⟨target, _, hok⟩ := Lib.bind_eq_ok.mp hok
  obtain ⟨d, _, hok⟩ := Lib.bind_eq_ok.mp hok
  rw [← Lib.pure_eq_ok.mp hok]
  refine ⟨?_, ?_, ?_⟩
  · split <;> simp
  · intro hdead
    rw [if_pos (show (s.withChecker d).isUnreachable = true from hdead)]
    exact .of_eq rfl rfl
  · intro hlive
    rw [if_neg (by simp [show (s.withChecker d).isUnreachable = false from hlive])]
    have happends := @appends_branch (s.withChecker d) hlive .opBrIf
      (.u32 (0xFFFE0000 ||| idx)) (.br idx) fun _ => rfl
    exact ⟨happends.instr, happends.jumpResolver, happends.inside⟩

theorem parseReturn_emits (hok : parseReturn env s = .ok s') :
    Emits s s' [.op .opReturn, .operand (.jumpAddr 0xFFFC0000)]
      [.return_ (s.instr.length + 1)] := by
  obtain ⟨c, _, hok⟩ := Lib.bind_eq_ok.mp hok
  rw [← Lib.pure_eq_ok.mp hok]
  refine ⟨?_, ?_, ?_⟩
  · split <;> simp
  · intro hdead
    rw [if_pos hdead]
    exact .of_eq rfl rfl
  · intro hlive
    rw [if_neg (by simp [hlive])]
    have happends := appends_branch hlive .opReturn (.jumpAddr 0xFFFC0000) .return_ fun _ => rfl
    exact ⟨happends.instr, happends.jumpResolver, happends.inside⟩

/-- The records of a table's targets, the first one in `slot`. -/
def tableDsls : Nat → List Nat → List JumpResolverDSL
  | _, [] => []
  | slot, idx :: idxs => .br idx slot :: tableDsls (slot + 1) idxs

def tableSlots (idxs : List Nat) : List Instr :=
  idxs.map fun idx => .operand (.u32 (0xFFFD0000 ||| idx))

theorem mem_tableDsls {slot : Nat} {idxs : List Nat} {dsl : JumpResolverDSL}
    (h : dsl ∈ tableDsls slot idxs) :
    ∃ p, dsl.slot = some p ∧ slot ≤ p ∧ p < slot + idxs.length := by
  induction idxs generalizing slot with
  | nil => cases h
  | cons idx idxs ih =>
      rcases List.mem_cons.mp h with rfl | h
      · exact ⟨slot, rfl, Nat.le_refl _, by simp⟩
      · obtain ⟨p, hp, hle, hlt⟩ := ih h
        exact ⟨p, hp, by omega, by simp; omega⟩

private theorem pushTableTarget_foldl (hlive : s.isUnreachable = false) (idxs : List Nat) :
    idxs.foldl pushTableTarget s = { s with
      instr := s.instr ++ tableSlots idxs
      jumpResolver := s.jumpResolver ++ tableDsls s.instr.length idxs } := by
  induction idxs generalizing s with
  | nil => simp [tableSlots, tableDsls]
  | cons idx idxs ih =>
      have hpush : pushTableTarget s idx = { s with
          instr := s.instr ++ [.operand (.u32 (0xFFFD0000 ||| idx))]
          jumpResolver := s.jumpResolver ++ [.br idx s.instr.length] } :=
        pushSlot_live (s.pushDsl (.br idx s.instr.length)) hlive _
      rw [List.foldl_cons, hpush, ih]
      · simp [tableSlots, tableDsls]
      · exact hlive

theorem parseBrTable_emits {idxs : List Nat} {defaultIdx : Nat}
    (hok : parseBrTable env s idxs defaultIdx = .ok s') :
    Emits s s' (.op .opBrTable :: .operand (.u32 idxs.length) :: tableSlots (idxs ++ [defaultIdx]))
      (tableDsls (s.instr.length + 2) (idxs ++ [defaultIdx])) := by
  obtain ⟨c, _, hok⟩ := Lib.bind_eq_ok.mp hok
  obtain ⟨len, _, hok⟩ := Lib.bind_eq_ok.mp hok
  obtain ⟨_, _, hok⟩ := Lib.bind_eq_ok.mp hok
  have hsplit : pushTableTarget (idxs.foldl pushTableTarget
      (s.pushWithOperand .opBrTable [.u32 idxs.length])) defaultIdx =
      (idxs ++ [defaultIdx]).foldl pushTableTarget
        (s.pushWithOperand .opBrTable [.u32 idxs.length]) := by
    rw [List.foldl_append]
    rfl
  dsimp only at hok
  rw [hsplit] at hok
  rw [← Lib.pure_eq_ok.mp hok]
  cases hdead : s.isUnreachable with
  | true =>
      refine ⟨rfl, fun _ => .of_eq rfl rfl, ?_⟩
      intro hlive
      cases hdead.symm.trans hlive
  | false =>
      have hpush : s.pushWithOperand .opBrTable [.u32 idxs.length] =
          { s with instr := s.instr ++ [.op .opBrTable, .operand (.u32 idxs.length)] } := by
        simp [pushWithOperand_eq, hdead]
      rw [if_neg (by simp), hpush, pushTableTarget_foldl]
      · refine ⟨rfl, ?_, fun _ => ⟨by simp, by simp, ?_⟩⟩
        · intro hlive
          cases hdead.symm.trans hlive
        · intro dsl hdsl slot hslot
          obtain ⟨p, hp, hle, hlt⟩ := mem_tableDsls hdsl
          obtain rfl := Option.some.inj (hp.symm.trans hslot)
          simp only [List.length_append, List.length_cons, tableSlots, List.length_map] at hlt ⊢
          omega
      · exact hdead

/-- Entries above the current block's base are replaced, both lists top first. -/
def Takes (c c' : TypeChecker) (input output : List ValType) : Prop :=
  ∃ rest : List MaybeUnreachable, c.types = input.map .normal ++ rest ∧
    c'.types = output.map .normal ++ rest ∧ ∀ b ∈ c.blocks.head?, b.base ≤ rest.length

/-- The emitted slots are one handler that does to the stack what the checker says. -/
structure Works (env : Env) (s s' : State) (slots : List Instr) (handler : Handler)
    (operands : List Operand) (input output : List ValType) : Prop where
  code : slots = .op handler :: operands.map .operand
  effect : Vm.effect env (fun i => operands[i]?) handler =
    some ⟨stackBytes input, stackBytes output, operands.length⟩
  takes : Takes s.checker s'.checker input output

def isWork : Inst → Bool
  | .call _ | .callIndirect _ _ | .drop | .select | .selectTyped _ | .refIsNull | .simple _ => true
  | _ => false

theorem op_takes {c c' : TypeChecker} {input output : List ValType}
    (hok : c.op input output = .ok c') (hconcrete : NoMarker c.types) (hbase : BaseOk c) :
    Takes c c' input.reverse output.reverse :=
  op_exact hok hconcrete hbase

theorem pop_takes {c c' : TypeChecker} {ty : ValType} (hok : c.pop = .ok (.normal ty, c')) :
    Takes c c' [ty] [] := by
  obtain ⟨b, bs, rest, hblocks, htypes, hlen, rfl⟩ := pop_ok hok
  refine ⟨rest, htypes, rfl, ?_⟩
  intro d hd
  rw [hblocks] at hd
  obtain rfl := Option.some.inj hd
  exact hlen

theorem Takes.after_pop {c d c' : TypeChecker} {input input' output : List ValType}
    (first : Takes c d input []) (second : Takes d c' input' output)
    (hblocks : d.blocks = c.blocks) : Takes c c' (input ++ input') output := by
  obtain ⟨rest, htypes, hrest, _⟩ := first
  obtain ⟨rest', htypes', hrest', hbase⟩ := second
  refine ⟨rest', ?_, hrest', by rw [← hblocks]; exact hbase⟩
  have heq : rest = input'.map .normal ++ rest' := by
    rw [← htypes', hrest]
    rfl
  rw [htypes, heq, List.map_append, List.append_assoc]

private theorem pop_normal {c c' : TypeChecker} {v : MaybeUnreachable}
    (hok : c.pop = .ok (v, c')) (hconcrete : NoMarker c.types) : ∃ ty, v = .normal ty := by
  obtain ⟨b, bs, rest, _, htypes, _, _⟩ := pop_ok hok
  exact hconcrete v (by rw [htypes]; simp)

/-- Operand work appends one handler, or in dead code nothing. -/
def EmitsWork (env : Env) (s s' : State) : Prop :=
  ∃ slots, Emits s s' slots [] ∧ (NoMarker s.checker.types → BaseOk s.checker →
    ∃ handler operands input output, Works env s s' slots handler operands input output)

private theorem parseDrop_work (hok : parseDrop s = .ok s') : EmitsWork env s s' := by
  obtain ⟨⟨v, c⟩, hc, hok⟩ := Lib.bind_eq_ok.mp hok
  cases v with
  | normal x =>
      rw [← Lib.pure_eq_ok.mp hok]
      refine ⟨_, emits_withOperand c .opDrop [.dropSize x.stackSize], fun _ _ => ?_⟩
      exact ⟨_, _, [x], [], rfl, by simp [Vm.effect], by simpa using pop_takes hc⟩
  | unreachable any =>
      rw [← Lib.pure_eq_ok.mp hok]
      refine ⟨[], .of_eq rfl rfl rfl, fun hconcrete _ => ?_⟩
      obtain ⟨ty, hty⟩ := pop_normal hc hconcrete
      cases hty

private theorem stackSize_of_isRef {ty : ValType} (h : ty.isRef = true) :
    ty.stackSize = 4 := by
  cases ty <;> first | rfl | cases h

private theorem parseRefIsNull_work (hok : parseRefIsNull s = .ok s') : EmitsWork env s s' := by
  obtain ⟨⟨v, c⟩, hc, hok⟩ := Lib.bind_eq_ok.mp hok
  cases v with
  | normal x =>
      dsimp only at hok
      split at hok
      · next href =>
          obtain ⟨d, hd, hok⟩ := Lib.bind_eq_ok.mp hok
          rw [← Lib.pure_eq_ok.mp hok]
          refine ⟨_, emits_withOperand d .opRefIsNull [], fun hconcrete hbase => ?_⟩
          have hkeeps := pop_keeps hc
          have htakes := (pop_takes hc).after_pop
            (op_takes hd (hkeeps.concrete hconcrete) (hkeeps.base hbase)) hkeeps.blocks
          refine ⟨_, _, [x], [.i32], rfl, ?_, by simpa using htakes⟩
          rw [stackBytes_cons, stackSize_of_isRef href]
          rfl
      · cases hok
  | unreachable any =>
      obtain ⟨d, hd, hok⟩ := Lib.bind_eq_ok.mp hok
      rw [← Lib.pure_eq_ok.mp hok]
      refine ⟨_, emits_withOperand d .opRefIsNull [], fun hconcrete _ => ?_⟩
      obtain ⟨ty, hty⟩ := pop_normal hc hconcrete
      cases hty

private theorem parseSelect_work (hok : parseSelect s = .ok s') : EmitsWork env s s' := by
  obtain ⟨c, hc, hok⟩ := Lib.bind_eq_ok.mp hok
  obtain ⟨⟨v, d⟩, hd, hok⟩ := Lib.bind_eq_ok.mp hok
  have hkeeps := op_keeps hc
  cases v with
  | normal x =>
      obtain ⟨e, he, hok⟩ := Lib.bind_eq_ok.mp hok
      obtain ⟨_, hok⟩ := Lib.ite_error_eq_ok.mp hok
      rw [← Lib.pure_eq_ok.mp hok]
      refine ⟨_, emits_withOperand e .opSelect [.select x.stackSize], fun hconcrete hbase => ?_⟩
      have hkeeps' := hkeeps.trans (pop_keeps hd)
      have htakes := (op_takes hc hconcrete hbase).after_pop ((pop_takes hd).after_pop
        (op_takes he (hkeeps'.concrete hconcrete) (hkeeps'.base hbase)) (pop_keeps hd).blocks)
        hkeeps.blocks
      refine ⟨_, _, _, _, rfl, ?_, by simpa using htakes⟩
      simp [Vm.effect, ValType.stackSize]
      omega
  | unreachable any =>
      have hnever : NoMarker s.checker.types → False := by
        intro hconcrete
        obtain ⟨ty, hty⟩ := pop_normal hd (hkeeps.concrete hconcrete)
        cases hty
      obtain ⟨⟨w, e⟩, he, hok⟩ := Lib.bind_eq_ok.mp hok
      cases w with
      | normal x =>
          obtain ⟨_, hok⟩ := Lib.ite_error_eq_ok.mp hok
          rw [← Lib.pure_eq_ok.mp hok]
          exact ⟨_, (emits_withOperand e .opSelect [.select x.stackSize]).same ⟨rfl, rfl, rfl⟩,
            fun hconcrete => (hnever hconcrete).elim⟩
      | unreachable any =>
          dsimp only at hok
          split at hok
          · rw [← Lib.pure_eq_ok.mp hok]
            exact ⟨[], .of_eq rfl rfl rfl, fun hconcrete => (hnever hconcrete).elim⟩
          · cases hok

private theorem parsePlain_work {inst : Inst} (hok : parsePlain env s inst = .ok s')
    (hwork : isWork inst = true) : EmitsWork env s s' := by
  cases inst with
  | drop => exact parseDrop_work hok
  | select => exact parseSelect_work hok
  | refIsNull => exact parseRefIsNull_work hok
  | call idx =>
      obtain ⟨ty, hty, hok⟩ := Lib.bind_eq_ok.mp hok
      obtain ⟨c, hc, hok⟩ := Lib.bind_eq_ok.mp hok
      rw [← Lib.pure_eq_ok.mp hok]
      refine ⟨_, emits_withOperand c _ [.callRecipeRef idx], fun hconcrete hbase => ?_⟩
      refine ⟨_, _, _, _, rfl, ?_, by simpa using op_takes hc hconcrete hbase⟩
      split <;> simp [Vm.effect, hty]
  | callIndirect typeidx tableidx =>
      obtain ⟨_, _, hok⟩ := Lib.bind_eq_ok.mp hok
      obtain ⟨c, hc, hok⟩ := Lib.bind_eq_ok.mp hok
      obtain ⟨ty, hty, hok⟩ := Lib.bind_eq_ok.mp hok
      obtain ⟨d, hd, hok⟩ := Lib.bind_eq_ok.mp hok
      rw [← Lib.pure_eq_ok.mp hok]
      refine ⟨_, emits_withOperand d _ [.u32 tableidx, .u32 typeidx], fun hconcrete hbase => ?_⟩
      have hkeeps := op_keeps hc
      have htakes := (op_takes hc hconcrete hbase).after_pop
        (op_takes hd (hkeeps.concrete hconcrete) (hkeeps.base hbase)) hkeeps.blocks
      refine ⟨_, _, _, _, rfl, ?_, by simpa using htakes⟩
      simp [Vm.effect, hty, ValType.stackSize]
      omega
  | selectTyped operand =>
      obtain ⟨hone, hok⟩ := Lib.ite_error_eq_ok.mp hok
      obtain ⟨c, hc, hok⟩ := Lib.bind_eq_ok.mp hok
      obtain ⟨d, hd, hok⟩ := Lib.bind_eq_ok.mp hok
      obtain ⟨e, he, hok⟩ := Lib.bind_eq_ok.mp hok
      have hemit : (if (s.withChecker e).isUnreachable then s.withChecker e
          else (s.withChecker e).pushWithOperand .opSelect [.select (stackBytes operand)]) =
          (s.withChecker e).pushWithOperand .opSelect [.select (stackBytes operand)] := by
        split
        · next hdead => rw [pushWithOperand_eq, hdead, if_pos rfl, List.append_nil]
        · rfl
      rw [← Lib.pure_eq_ok.mp hok, hemit]
      refine ⟨_, emits_withOperand e _ [.select (stackBytes operand)], fun hconcrete hbase => ?_⟩
      have hkeeps := op_keeps hc
      have hkeeps' := hkeeps.trans (op_keeps hd)
      have htakes := (op_takes hc hconcrete hbase).after_pop ((op_takes hd
        (hkeeps.concrete hconcrete) (hkeeps.base hbase)).after_pop
        (op_takes he (hkeeps'.concrete hconcrete) (hkeeps'.base hbase)) (op_keeps hd).blocks)
        hkeeps.blocks
      refine ⟨_, _, .i32 :: (operand.reverse ++ operand.reverse), operand.reverse, rfl, ?_, ?_⟩
      · simp [Vm.effect, ValType.stackSize]
        omega
      · simpa using htakes
  | simple op =>
      obtain ⟨c, hc, hok⟩ := Lib.bind_eq_ok.mp hok
      rw [← Lib.pure_eq_ok.mp hok]
      refine ⟨_, emits_withOperand c _ (op.operands.map .u32), fun hconcrete hbase => ?_⟩
      refine ⟨_, _, op.inputs.reverse, op.outputs.reverse, rfl, ?_, ?_⟩
      · simp [Vm.effect]
      · simpa using op_takes hc hconcrete hbase
  | _ => cases hwork

theorem enterBlock_layout {blocktype : BlockType} (hok : enterBlock env s blocktype = .ok s') :
    s'.frames = ⟨.block, blocktype, 0, false, none⟩ :: s.frames ∧
      Appends s s' [] [.enterForwardJumpBlock] := by
  obtain ⟨c, _, hok⟩ := Lib.bind_eq_ok.mp hok
  rw [← Lib.pure_eq_ok.mp hok]
  exact ⟨rfl, by simp, rfl, by simp [JumpResolverDSL.slot]⟩

private theorem sizeOr_ok {size : Option Nat} {n : Nat} (hok : sizeOr size = .ok n) :
    size = some n := by
  unfold sizeOr at hok
  split at hok
  · rw [Except.ok.inj hok]
  · cases hok

private theorem emitLoopParam_layout {blocktype : BlockType}
    (hok : emitLoopParam env s blocktype = .ok s') :
    s'.frames = s.frames ∧ s'.jumpResolver = s.jumpResolver ∧
      (s.isUnreachable = true → s'.instr = s.instr) ∧
      (s.isUnreachable = false → ∃ top size, s.checker.blockBaseStackSize = .ok top ∧
        blocktype.paramSize env.types = some size ∧
        s'.instr = s.instr ++ [Instr.operand (.loopParam top size)]) := by
  unfold emitLoopParam at hok
  cases hdead : s.isUnreachable with
  | true =>
      rw [if_pos hdead] at hok
      rw [← Lib.pure_eq_ok.mp hok]
      exact ⟨rfl, rfl, fun _ => rfl, by simp⟩
  | false =>
      rw [if_neg (by simp [hdead])] at hok
      obtain ⟨top, htop, hok⟩ := Lib.bind_eq_ok.mp hok
      obtain ⟨size, hsize, hok⟩ := Lib.bind_eq_ok.mp hok
      rw [← Lib.pure_eq_ok.mp hok, pushSlot_live s hdead]
      exact ⟨rfl, rfl, by simp, fun _ => ⟨top, size, htop, sizeOr_ok hsize, rfl⟩⟩

private theorem emitBlockReturn_layout {blocktype : BlockType}
    (hok : emitBlockReturn env s blocktype = .ok s') :
    s'.frames = s.frames ∧ s'.jumpResolver = s.jumpResolver ∧
      (s.isUnreachable = true → s'.instr = s.instr) ∧
      (s.isUnreachable = false → ∃ top size, s.checker.blockBaseStackSize = .ok top ∧
        blocktype.returnSize env.types = some size ∧
        s'.instr = s.instr ++
          [Instr.op .specialBlockReturn, .operand (.blockReturn top size)]) := by
  unfold emitBlockReturn at hok
  cases hdead : s.isUnreachable with
  | true =>
      rw [if_pos hdead] at hok
      rw [← Lib.pure_eq_ok.mp hok]
      exact ⟨rfl, rfl, fun _ => rfl, by simp⟩
  | false =>
      rw [if_neg (by simp [hdead])] at hok
      obtain ⟨top, htop, hok⟩ := Lib.bind_eq_ok.mp hok
      obtain ⟨size, hsize, hok⟩ := Lib.bind_eq_ok.mp hok
      rw [← Lib.pure_eq_ok.mp hok]
      refine ⟨by simp, by simp, by simp, fun _ => ⟨top, size, htop, sizeOr_ok hsize, ?_⟩⟩
      simp [pushWithOperand_eq, hdead]

/-- `op_loop` is told where the block's values begin and how many bytes the parameters take. -/
theorem enterLoop_layout {blocktype : BlockType} (hok : enterLoop env s blocktype = .ok s') :
    s'.frames = ⟨.loop, blocktype, 0, false, none⟩ :: s.frames ∧
      (s.isUnreachable = true → Appends s s' [] [.enterBackwardJumpBlock s.instr.length]) ∧
      (s.isUnreachable = false → ∃ top size, s'.checker.blockBaseStackSize = .ok top ∧
        blocktype.paramSize env.types = some size ∧
        Appends s s' [.op .opLoop, .operand (.loopParam top size)]
          [.enterBackwardJumpBlock s.instr.length]) := by
  obtain ⟨c, _, hok⟩ := Lib.bind_eq_ok.mp hok
  obtain ⟨t, ht, hok⟩ := Lib.bind_eq_ok.mp hok
  obtain ⟨hframes, hdsls, hdead, hlive⟩ := emitLoopParam_layout ht
  have hchecker := (emitLoopParam_fields ht).1
  rw [pushSlot_isUnreachable] at hdead hlive
  rw [← Lib.pure_eq_ok.mp hok]
  refine ⟨by simp [hframes], ?_, ?_⟩
  · intro h
    have hpush := pushSlot_dead ((s.withChecker c).pushDsl (.enterBackwardJumpBlock s.instr.length))
      h (.op .opLoop)
    have hinstr := hdead h
    rw [hpush] at hinstr
    exact ⟨by simpa using hinstr, by simpa using hdsls, by simp [JumpResolverDSL.slot]⟩
  · intro h
    have hpush := pushSlot_live ((s.withChecker c).pushDsl (.enterBackwardJumpBlock s.instr.length))
      h (.op .opLoop)
    obtain ⟨top, size, htop, hsize, hinstr⟩ := hlive h
    rw [hpush] at hinstr
    exact ⟨top, size, by simpa [hchecker] using htop, hsize, by simpa using hinstr,
      by simpa using hdsls, by simp [JumpResolverDSL.slot]⟩

theorem enterIf_layout {blocktype : BlockType} (hok : enterIf env s blocktype = .ok s') :
    s'.frames = ⟨.if_, blocktype, s'.instr.length - 1, s.isUnreachable, none⟩ :: s.frames ∧
      (s.isUnreachable = true → Appends s s' [] [.enterForwardJumpBlock]) ∧
      (s.isUnreachable = false → Appends s s' [.op .opIf, .operand (.jumpAddr 0xFCFCFCFC)]
        [.enterForwardJumpBlock]) := by
  obtain ⟨c, _, hok⟩ := Lib.bind_eq_ok.mp hok
  obtain ⟨d, _, hok⟩ := Lib.bind_eq_ok.mp hok
  rw [← Lib.pure_eq_ok.mp hok]
  refine ⟨by simp, ?_, ?_⟩
  · intro hdead
    exact ⟨by simp [pushWithOperand_eq, hdead], by simp, by simp [JumpResolverDSL.slot]⟩
  · intro hlive
    exact ⟨by simp [pushWithOperand_eq, hlive], by simp, by simp [JumpResolverDSL.slot]⟩

theorem parseElse_layout (hok : parseElse env s = .ok s') :
    (s.unreachable.tail.headD false = true → s'.frames = s.frames ∧ Appends s s' [] []) ∧
      (s.unreachable.tail.headD false = false →
        s'.frames = setElseAddr (s.instr.length + 2) s.frames ∧
        Appends s s' [.op .opElse, .operand (.jumpAddr 0xFFFB0000)]
          [.br 0 (s.instr.length + 1)]) := by
  have hflag : s.genLeaveBlock.genEnterBlock.isUnreachable =
      s.unreachable.tail.headD false := rfl
  unfold parseElse at hok
  dsimp only at hok
  rw [hflag] at hok
  split at hok
  · next hdead =>
      rw [← Lib.pure_eq_ok.mp hok]
      exact ⟨fun _ => ⟨rfl, .of_eq rfl rfl⟩, fun hlive => by cases hdead.symm.trans hlive⟩
  · next hlive =>
      rw [Bool.not_eq_true] at hlive
      obtain ⟨c, _, hok⟩ := Lib.bind_eq_ok.mp hok
      rw [← Lib.pure_eq_ok.mp hok]
      refine ⟨fun hdead => (by cases hdead.symm.trans hlive), fun _ => ?_⟩
      have happends := appends_branch (hflag.trans hlive) .opElse (.jumpAddr 0xFFFB0000) (.br 0)
        fun _ => rfl
      refine ⟨?_, happends.instr, happends.jumpResolver, happends.inside⟩
      have hlen := congrArg List.length happends.instr
      simp only [genEnterBlock_instr, genLeaveBlock_instr, List.length_append, List.length_cons,
        List.length_nil] at hlen
      simp only [withChecker_frames]
      rw [hlen]
      simp

/-- `end` appends `op_end`. For an `if` it also writes where `op_if` goes, for another block that
was entered reachable it appends the cut down to the block's results. -/
structure EndLayout (env : Env) (s s' : State) (frame : Frame) : Prop where
  frames : s.frames = frame :: s'.frames
  dsls : s'.jumpResolver = s.jumpResolver ++ [JumpResolverDSL.leaveBlock s.instr.length]
  deadIf : frame.kind = .if_ → frame.isUnreachableIfBlock = true →
    s'.instr = s.instr ++ [Instr.op .opEnd]
  liveIf : frame.kind = .if_ → frame.isUnreachableIfBlock = false →
    s'.instr = (s.instr ++ [Instr.op .opEnd]).set frame.index
      (.operand (.jumpAddr (frame.elseAddr.getD s.instr.length)))
  dead : frame.kind ≠ .if_ → s.unreachable.tail.headD false = true →
    s'.instr = s.instr ++ [Instr.op .opEnd]
  live : frame.kind ≠ .if_ → s.unreachable.tail.headD false = false →
    ∃ top size, s.checker.blockBaseStackSize = .ok top ∧
      frame.blocktype.returnSize env.types = some size ∧
      s'.instr = s.instr ++
        [Instr.op .opEnd, .op .specialBlockReturn, .operand (.blockReturn top size)]

theorem parseEnd_layout (hok : parseEnd env s = .ok s') :
    ∃ frame, EndLayout env s s' frame := by
  unfold parseEnd at hok
  split at hok
  · cases hok
  · next frame frames hframes =>
      refine ⟨frame, ?_⟩
      split at hok
      · next hkind =>
          obtain ⟨c, _, hok⟩ := Lib.bind_eq_ok.mp hok
          rw [← Lib.pure_eq_ok.mp hok]
          refine ⟨by simpa using hframes, by simp, ?_, ?_, fun hne => absurd hkind hne,
            fun hne => absurd hkind hne⟩
          · intro _ hdead
            simp [patchIf, hdead]
          · intro _ hlive
            simp [patchIf, hlive]
      · next hkind =>
          obtain ⟨t, ht, hok⟩ := Lib.bind_eq_ok.mp hok
          obtain ⟨c, _, hok⟩ := Lib.bind_eq_ok.mp hok
          obtain ⟨hframes', hdsls, hdead, hlive⟩ := emitBlockReturn_layout ht
          rw [← Lib.pure_eq_ok.mp hok]
          refine ⟨by simpa [hframes'] using hframes, by simpa using hdsls,
            fun h => absurd h hkind, fun h => absurd h hkind, ?_, ?_⟩
          · intro _ h
            simpa using hdead (by simpa [isUnreachable] using h)
          · intro _ h
            obtain ⟨top, size, htop, hsize, hinstr⟩ := hlive (by simpa [isUnreachable] using h)
            exact ⟨top, size, by simpa using htop, hsize, by simpa using hinstr⟩

/-- The record that `parse_instrs` makes of a plain instruction changes nothing else. -/
theorem parseInst_plain {inst : Inst} (hok : parseInst env s inst = .ok s')
    (hplain : shape inst = .work ∨ shape inst = .transfer ∨ shape inst = .else_) :
    ∃ t, parsePlain env s inst = .ok t ∧ SameCode t s' ∧ s'.checker = t.checker := by
  have hmeta : ∀ r, (do
      let t ← parsePlain env s inst
      return t.pushInstructionMeta s.instr.length s.checker.snapshotStack
        t.checker.snapshotStack) = .ok r →
      ∃ t, parsePlain env s inst = .ok t ∧ SameCode t r ∧ r.checker = t.checker := by
    intro r hr
    obtain ⟨t, ht, hr⟩ := Lib.bind_eq_ok.mp hr
    rw [← Lib.pure_eq_ok.mp hr]
    exact ⟨t, ht, ⟨by simp, by simp, by simp⟩, by simp⟩
  cases inst <;> first | exact hmeta s' hok | simp [shape] at hplain

theorem parseInst_work {inst : Inst} (hok : parseInst env s inst = .ok s')
    (hwork : isWork inst = true) : EmitsWork env s s' := by
  have hshape : shape inst = .work := by
    cases inst <;> first | rfl | cases hwork
  obtain ⟨t, ht, hsame, hchecker⟩ := parseInst_plain hok (Or.inl hshape)
  obtain ⟨slots, hemits, hworks⟩ := parsePlain_work ht hwork
  refine ⟨slots, hemits.same hsame, fun hconcrete hbase => ?_⟩
  obtain ⟨handler, operands, input, output, hcode, heffect, htakes⟩ := hworks hconcrete hbase
  exact ⟨handler, operands, input, output, hcode, heffect, by rw [hchecker]; exact htakes⟩

def OnlyJumps (dsls : List JumpResolverDSL) : Prop :=
  ∀ dsl ∈ dsls, dsl.slot.isSome

private theorem onlyJumps_nil : OnlyJumps [] := by
  simp [OnlyJumps]

theorem parsePlain_emits {inst : Inst} (hok : parsePlain env s inst = .ok s')
    (hplain : shape inst = .work ∨ shape inst = .transfer) :
    ∃ slots dsls, Emits s s' slots dsls ∧ OnlyJumps dsls := by
  cases hwork : isWork inst with
  | true =>
      obtain ⟨slots, hemits, _⟩ := parsePlain_work hok hwork
      exact ⟨slots, [], hemits, onlyJumps_nil⟩
  | false =>
      cases inst with
      | unreachable =>
          obtain rfl := Except.ok.inj hok
          refine ⟨[.op .opUnreachable], [], ⟨by simp, ?_, ?_⟩, onlyJumps_nil⟩
          · intro hdead
            exact ⟨by simp [pushSlot_dead s hdead], by simp, by simp⟩
          · intro hlive
            exact ⟨by simp [pushSlot_live s hlive], by simp, by simp⟩
      | nop =>
          obtain rfl := Except.ok.inj hok
          exact ⟨[], [], .of_eq rfl rfl rfl, onlyJumps_nil⟩
      | br idx =>
          exact ⟨_, _, parseBr_emits hok, by simp [OnlyJumps, JumpResolverDSL.slot]⟩
      | brIf idx =>
          exact ⟨_, _, parseBrIf_emits hok, by simp [OnlyJumps, JumpResolverDSL.slot]⟩
      | brTable idxs defaultIdx =>
          refine ⟨_, _, parseBrTable_emits hok, ?_⟩
          intro dsl hdsl
          obtain ⟨p, hp, _⟩ := mem_tableDsls hdsl
          simp [hp]
      | return_ => exact ⟨_, _, parseReturn_emits hok, by simp [OnlyJumps, JumpResolverDSL.slot]⟩
      | returnCall idx =>
          obtain ⟨ty, _, hok⟩ := Lib.bind_eq_ok.mp hok
          obtain ⟨c, _, hok⟩ := Lib.bind_eq_ok.mp hok
          obtain ⟨d, _, hok⟩ := Lib.bind_eq_ok.mp hok
          rw [← Lib.pure_eq_ok.mp hok]
          exact ⟨_, [], emits_withOperand _ _ _, onlyJumps_nil⟩
      | returnCallIndirect typeidx tableidx =>
          obtain ⟨_, _, hok⟩ := Lib.bind_eq_ok.mp hok
          obtain ⟨c, _, hok⟩ := Lib.bind_eq_ok.mp hok
          obtain ⟨ty, _, hok⟩ := Lib.bind_eq_ok.mp hok
          obtain ⟨d, _, hok⟩ := Lib.bind_eq_ok.mp hok
          obtain ⟨e, _, hok⟩ := Lib.bind_eq_ok.mp hok
          rw [← Lib.pure_eq_ok.mp hok]
          exact ⟨_, [], emits_withOperand _ _ _, onlyJumps_nil⟩
      | call _ | callIndirect _ _ | drop | select | selectTyped _ | refIsNull | simple _ =>
          cases hwork
      | block _ | loop _ | if_ _ | else_ | end_ => simp [shape] at hplain

/-- What an instruction of this shape adds to the record of jumps. -/
def DslShape (s : State) (dsls : List JumpResolverDSL) : Shape → Prop
  | .enter .loop _ => dsls = [.enterBackwardJumpBlock s.instr.length]
  | .enter _ _ => dsls = [.enterForwardJumpBlock]
  | .end_ => dsls = [.leaveBlock s.instr.length]
  | _ => OnlyJumps dsls

private theorem pendingIfs_setElseAddr (addr : Nat) (frames : List Frame) :
    pendingIfs (setElseAddr addr frames) = pendingIfs frames := by
  induction frames with
  | nil => rfl
  | cons frame frames ih =>
      unfold setElseAddr
      split
      · simp only [pendingIfs, List.filterMap_cons]
      · unfold pendingIfs at ih ⊢
        rw [List.filterMap_cons, List.filterMap_cons, ih]

private theorem Appends.extends_same {slots : List Instr} {dsls : List JumpResolverDSL}
    (h : Appends s s' slots dsls) (hpending : pendingIfs s'.frames = pendingIfs s.frames) :
    Extends s s' :=
  h.extends fun p hp => Or.inl (by rw [← hpending]; exact hp)

private theorem Emits.appends {slots : List Instr} {dsls : List JumpResolverDSL}
    (h : Emits s s' slots dsls) (hjumps : OnlyJumps dsls) :
    ∃ slots' dsls', Appends s s' slots' dsls' ∧ OnlyJumps dsls' := by
  cases hdead : s.isUnreachable with
  | true => exact ⟨[], [], h.dead hdead, onlyJumps_nil⟩
  | false => exact ⟨slots, dsls, h.live hdead, hjumps⟩

private theorem mem_pendingIfs_cons {frame : Frame} {frames : List Frame} {p : Nat}
    (h : p ∈ pendingIfs frames) : p ∈ pendingIfs (frame :: frames) := by
  obtain ⟨f, hf, hp⟩ := List.mem_filterMap.mp h
  exact List.mem_filterMap.mpr ⟨f, List.mem_cons_of_mem _ hf, hp⟩

private theorem parseEnd_extends (hok : parseEnd env s = .ok s') : Extends s s' := by
  obtain ⟨frame, hend⟩ := parseEnd_layout hok
  have hpending : ∀ p ∈ pendingIfs s'.frames,
      p ∈ pendingIfs s.frames ∨ s.instr.length ≤ p ∧ p < s'.instr.length := by
    intro p hp
    rw [hend.frames]
    exact Or.inl (mem_pendingIfs_cons hp)
  have happends : ∀ slots, s'.instr = s.instr ++ slots → Extends s s' := by
    intro slots hinstr
    have happ : Appends s s' slots [.leaveBlock s.instr.length] :=
      ⟨hinstr, hend.dsls, by simp [JumpResolverDSL.slot]⟩
    exact happ.extends hpending
  by_cases hkind : frame.kind = .if_
  · cases hdead : frame.isUnreachableIfBlock with
    | true => exact happends _ (hend.deadIf hkind hdead)
    | false =>
        have hinstr := hend.liveIf hkind hdead
        have hmem : frame.index ∈ pendingIfs s.frames := by
          rw [hend.frames]
          simp [pendingIfs, hkind, hdead]
        refine ⟨by simp [hinstr], ?_, ⟨_, hend.dsls, by simp [JumpResolverDSL.slot]⟩, hpending⟩
        intro p hp hfree
        rw [hinstr, List.getElem?_set_ne, List.getElem?_append_left hp]
        intro heq
        rw [heq] at hmem
        exact hfree hmem
  · cases hdead : s.unreachable.tail.headD false with
    | true => exact happends _ (hend.dead hkind hdead)
    | false =>
        obtain ⟨top, size, _, _, hinstr⟩ := hend.live hkind hdead
        exact happends _ hinstr

private theorem parseElse_appends (hok : parseElse env s = .ok s') :
    pendingIfs s'.frames = pendingIfs s.frames ∧
      ∃ slots dsls, Appends s s' slots dsls ∧ OnlyJumps dsls := by
  obtain ⟨hdead, hlive⟩ := parseElse_layout hok
  cases hflag : s.unreachable.tail.headD false with
  | true =>
      obtain ⟨hframes, happends⟩ := hdead hflag
      exact ⟨by rw [hframes], [], [], happends, onlyJumps_nil⟩
  | false =>
      obtain ⟨hframes, happends⟩ := hlive hflag
      refine ⟨by rw [hframes, pendingIfs_setElseAddr], _, _, happends, ?_⟩
      simp [OnlyJumps, JumpResolverDSL.slot]

private theorem enterBlock_extends {blocktype : BlockType}
    (hok : enterBlock env s blocktype = .ok s') : Extends s s' ∧
      s'.jumpResolver = s.jumpResolver ++ [JumpResolverDSL.enterForwardJumpBlock] := by
  obtain ⟨hframes, happends⟩ := enterBlock_layout hok
  exact ⟨happends.extends_same (by simp [hframes, pendingIfs]), happends.jumpResolver⟩

private theorem enterLoop_extends {blocktype : BlockType}
    (hok : enterLoop env s blocktype = .ok s') : Extends s s' ∧
      s'.jumpResolver =
        s.jumpResolver ++ [JumpResolverDSL.enterBackwardJumpBlock s.instr.length] := by
  obtain ⟨hframes, hdead, hlive⟩ := enterLoop_layout hok
  have hpending : pendingIfs s'.frames = pendingIfs s.frames := by simp [hframes, pendingIfs]
  cases hflag : s.isUnreachable with
  | true => exact ⟨(hdead hflag).extends_same hpending, (hdead hflag).jumpResolver⟩
  | false =>
      obtain ⟨top, size, _, _, happends⟩ := hlive hflag
      exact ⟨happends.extends_same hpending, happends.jumpResolver⟩

private theorem enterIf_extends {blocktype : BlockType}
    (hok : enterIf env s blocktype = .ok s') : Extends s s' ∧
      s'.jumpResolver = s.jumpResolver ++ [JumpResolverDSL.enterForwardJumpBlock] := by
  obtain ⟨hframes, hdead, hlive⟩ := enterIf_layout hok
  cases hflag : s.isUnreachable with
  | true =>
      refine ⟨(hdead hflag).extends_same ?_, (hdead hflag).jumpResolver⟩
      simp [hframes, hflag, pendingIfs]
  | false =>
      have happends := hlive hflag
      refine ⟨happends.extends ?_, happends.jumpResolver⟩
      intro p hp
      rw [hframes, hflag] at hp
      have hlen : s'.instr.length = s.instr.length + 2 := by simp [happends.instr]
      have hcases : p = s'.instr.length - 1 ∨ p ∈ pendingIfs s.frames := by
        simpa [pendingIfs] using hp
      rcases hcases with rfl | hp
      · exact Or.inr (by omega)
      · exact Or.inl hp

/-- The code grows, and the record of jumps by what the instruction's shape says. -/
theorem parseInst_extends {inst : Inst} (hok : parseInst env s inst = .ok s') :
    Extends s s' ∧ ∃ dsls, s'.jumpResolver = s.jumpResolver ++ dsls ∧
      DslShape s dsls (shape inst) := by
  have hplain : shape inst = .work ∨ shape inst = .transfer → ∃ slots dsls,
      s'.frames = s.frames ∧ Appends s s' slots dsls ∧ OnlyJumps dsls := by
    intro hshape
    obtain ⟨t, ht, hsame, _⟩ := parseInst_plain hok (by tauto)
    obtain ⟨slots, dsls, hemits, hjumps⟩ := parsePlain_emits ht hshape
    obtain ⟨slots', dsls', happends, hjumps'⟩ := (hemits.same hsame).appends hjumps
    exact ⟨slots', dsls', (hemits.same hsame).frames, happends, hjumps'⟩
  cases hshape : shape inst with
  | work | transfer =>
      obtain ⟨slots, dsls, hframes, happends, hjumps⟩ := hplain (by simp [hshape])
      exact ⟨happends.extends_same (by rw [hframes]), dsls, happends.jumpResolver, hjumps⟩
  | else_ =>
      obtain rfl : inst = .else_ := by cases inst <;> first | rfl | cases hshape
      obtain ⟨t, ht, hsame, _⟩ := parseInst_plain hok (by simp [shape])
      obtain ⟨hpending, slots, dsls, happends, hjumps⟩ := parseElse_appends ht
      refine ⟨(happends.same hsame).extends_same ?_, dsls, (happends.same hsame).jumpResolver,
        hjumps⟩
      rw [hsame.frames, hpending]
  | end_ =>
      obtain rfl : inst = .end_ := by cases inst <;> first | rfl | cases hshape
      obtain ⟨frame, hend⟩ := parseEnd_layout hok
      exact ⟨parseEnd_extends hok, _, hend.dsls, rfl⟩
  | enter kind blocktype =>
      cases inst <;> cases hshape
      case enter.block.refl =>
          obtain ⟨_, _, hok⟩ := Lib.bind_eq_ok.mp hok
          obtain ⟨hextends, hdsls⟩ := enterBlock_extends hok
          exact ⟨hextends, _, hdsls, rfl⟩
      case enter.loop.refl =>
          obtain ⟨_, _, hok⟩ := Lib.bind_eq_ok.mp hok
          obtain ⟨hextends, hdsls⟩ := enterLoop_extends hok
          exact ⟨hextends, _, hdsls, rfl⟩
      case enter.if_.refl =>
          obtain ⟨_, _, hok⟩ := Lib.bind_eq_ok.mp hok
          obtain ⟨hextends, hdsls⟩ := enterIf_extends hok
          exact ⟨hextends, _, hdsls, rfl⟩

end Emission

end Telomere.Parser
