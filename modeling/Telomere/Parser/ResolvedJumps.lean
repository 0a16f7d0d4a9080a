import Telomere.Parser.JumpTargets

/-!
# Jump resolution of accepted bodies

Evaluation of the record never fails. It sends every emitted jump to `op_loop` of the loop or to
`op_end` of the other block or of the function that its label names, as long as the numbers of the
slots involved are numbers of 32 bits.
-/

namespace Telomere.Parser

open TypeChecker State Lib JumpResolver

/-- The code that `parse_code_inner` hands on. -/
def resolvedProgram (final : State) : Option (List Instr) :=
  evaluate final.jumpResolver (final.instr.map Instr.stored)

/-- Where `op_if` may go: after an `else` of this `if`, or to its `op_end`. -/
def IfAddr (env : Env) (body : List Inst) (k addr : Nat) : Prop :=
  (∃ e, Closes (nestAt body) k e ∧ addr = pcOf env body e) ∨
  ∃ x, body[x]? = some .else_ ∧ (opensAt (nestAt body) x).head? = some k ∧
    addr = pcOf env body x + 2

/-- Every slot that was emitted with a placeholder holds the address of its target. -/
structure JumpsResolved (env : Env) (body : List Inst) (program : List Instr) : Prop where
  jumps : ∀ n inst, body[n]? = some inst → ∀ slot label,
    (slot, label) ∈ jumpsOf (stateAt env body n) inst →
    ∃ addr handler, LabelAddr env body n label addr handler ∧
      program[addr]? = some (.op handler) ∧ program[slot]? = some (.operand (.jumpAddr addr))
  ifs : ∀ k blocktype, body[k]? = some (.if_ blocktype) →
    (stateAt env body k).isUnreachable = false →
    ∃ addr, IfAddr env body k addr ∧
      program[pcOf env body k + 1]? = some (.operand (.jumpAddr (asU32 addr)))

/-- Every emitted jump and its target have slot numbers of 32 bits. -/
def AddressesFit (env : Env) (body : List Inst) : Prop :=
  ∀ n inst, body[n]? = some inst → ∀ slot label,
    (slot, label) ∈ jumpsOf (stateAt env body n) inst →
    slot < 2 ^ 32 ∧ ∀ addr handler, LabelAddr env body n label addr handler → addr < 2 ^ 32

section Accepted

variable {env : Env} {body : List Inst} {final : State} {program : List Instr}

private theorem stored_length (instrs : List Instr) :
    (instrs.map Instr.stored).length = instrs.length :=
  List.length_map _

/-- No `expect`, `unwrap` or index of `evaluate` fails. -/
theorem exists_resolvedProgram (hok : parseCode env body = .ok final) :
    ∃ program, resolvedProgram final = some program := by
  obtain ⟨r, hrun, hinside, haddrs⟩ := @run_at env body final hok (final.instr.map Instr.stored)
    (Nat.le_of_eq (stored_length _).symm) body.length (Nat.le_refl _)
  have hblock : 0 < r.block.length := by
    rw [← addrs_length, haddrs]
    simp
  obtain ⟨r', hstep, -⟩ := @step_ok r (.leaveBlock (asU32 (pcOf env body body.length))) hinside
    hblock
  have hall : (JumpResolver.mk [] (final.instr.map Instr.stored)).run
      (final.jumpResolver.map .stored) = some r' := by
    rw [(final_split hok).2, List.map_append]
    exact run_append.mpr ⟨r, hrun, run_cons.mpr ⟨r', hstep, rfl⟩⟩
  exact ⟨r'.program, by rw [resolvedProgram, evaluate, hall]; rfl⟩

private theorem resolved_run (h : resolvedProgram final = some program) :
    ∃ r, (JumpResolver.mk [] (final.instr.map Instr.stored)).run
      (final.jumpResolver.map .stored) = some r ∧ r.program = program :=
  Option.map_eq_some_iff.mp h

private theorem unheld_initial (slot : Nat) (instrs : List Instr) :
    Held none slot ⟨[], instrs⟩ := by
  intro j
  simp [waits]

private theorem slot_kept (h : resolvedProgram final = some program) {p : Nat}
    (hfree : ∀ dsl ∈ final.jumpResolver.map JumpResolverDSL.stored, dsl.slot ≠ some p) :
    program[p]? = (final.instr.map Instr.stored)[p]? := by
  obtain ⟨r, hrun, rfl⟩ := resolved_run h
  exact run_held hfree (unheld_initial p _) hrun

private theorem addr_narrow (h : resolvedProgram final = some program) {p addr : Nat}
    (hp : program[p]? = some (.operand (.jumpAddr addr))) : addr < 2 ^ 32 := by
  obtain ⟨r, hrun, rfl⟩ := resolved_run h
  have hinitial : (JumpResolver.mk [] (final.instr.map Instr.stored)).Narrow := by
    refine ⟨?_, fun addr haddr => nomatch haddr⟩
    intro slot addr' hslot
    rw [List.getElem?_map, Option.map_eq_some_iff] at hslot
    obtain ⟨instr, -, hinstr⟩ := hslot
    unfold Instr.stored at hinstr
    split at hinstr
    · next addr'' =>
        obtain rfl : asU32 addr'' = addr' := by simpa using hinstr
        exact asU32_lt addr''
    · next hother => exact absurd hinstr (hother addr')
  exact (run_narrow hinitial hrun).slots p addr hp

private theorem stored_slot {dsl : JumpResolverDSL} {p : Nat} (h : dsl.stored.slot = some p) :
    ∃ slot, dsl.slot = some slot ∧ p = asU32 slot := by
  cases dsl with
  | br id slot => exact ⟨slot, rfl, (Option.some.inj h).symm⟩
  | return_ slot => exact ⟨slot, rfl, (Option.some.inj h).symm⟩
  | _ => cases h

def SlotsFit (final : State) : Prop :=
  ∀ dsl ∈ final.jumpResolver, ∀ slot ∈ dsl.slot, slot < 2 ^ 32

theorem AddressesFit.slots (hok : parseCode env body = .ok final) (h : AddressesFit env body) :
    SlotsFit final := by
  intro dsl hdsl slot hslot
  obtain ⟨n, inst, label, hn, hjump⟩ := jump_of_record hok hdsl hslot
  exact (h n inst hn slot label hjump).1

private theorem stored_free {dsls : List JumpResolverDSL} {p : Nat}
    (hfit : ∀ dsl ∈ dsls, ∀ slot ∈ dsl.slot, slot < 2 ^ 32)
    (hfree : ∀ dsl ∈ dsls, dsl.slot ≠ some p) :
    ∀ dsl ∈ dsls.map JumpResolverDSL.stored, dsl.slot ≠ some p := by
  intro dsl hdsl hslot
  obtain ⟨plain, hplain, rfl⟩ := List.mem_map.mp hdsl
  obtain ⟨slot, hplainSlot, heq⟩ := stored_slot hslot
  rw [asU32_of_lt (hfit plain hplain slot hplainSlot)] at heq
  exact hfree plain hplain (by rw [hplainSlot, heq])

private theorem slot_kept_of_fit (hfit : SlotsFit final) (h : resolvedProgram final = some program)
    {p : Nat} (hfree : ∀ dsl ∈ final.jumpResolver, dsl.slot ≠ some p) :
    program[p]? = (final.instr.map Instr.stored)[p]? :=
  slot_kept h (stored_free hfit hfree)

/-- No record stands for a slot of an instruction that is no jump, or for the function's end. -/
private theorem not_recorded (hok : parseCode env body = .ok final) {n p : Nat}
    (hle : n ≤ body.length) (hlow : pcOf env body n ≤ p)
    (hhigh : ∀ inst, body[n]? = some inst →
      p < pcOf env body (n + 1) ∧ jumpsOf (stateAt env body n) inst = []) :
    ∀ dsl ∈ final.jumpResolver, dsl.slot ≠ some p := by
  intro dsl hdsl hslot
  obtain ⟨m, inst, label, hm, hjump⟩ := jump_of_record hok hdsl hslot
  have hlt := (List.getElem?_eq_some_iff.mp hm).1
  have hbounds := parseInst_slots (stateAt_step hok hm) hjump
  change pcOf env body m ≤ p ∧ p < pcOf env body (m + 1) at hbounds
  rcases Nat.lt_trichotomy m n with hbefore | rfl | hafter
  · have := pcOf_mono hok (by omega : m + 1 ≤ n) hle
    omega
  · rw [(hhigh inst hm).2] at hjump
    cases hjump
  · have hget : body[n]? = some body[n] := List.getElem?_eq_getElem (by omega)
    have := pcOf_mono hok (by omega : n + 1 ≤ m) (Nat.le_of_lt hlt)
    have := (hhigh _ hget).1
    omega

private theorem stored_op {p : Nat} {handler : Handler}
    (h : final.instr[p]? = some (.op handler)) :
    (final.instr.map Instr.stored)[p]? = some (.op handler) := by
  rw [List.getElem?_map, h]
  rfl

/-- What the resolver holds for a label, or the rest of the record says of it. -/
private theorem known_addr (hok : parseCode env body = .ok final) {n label addr : Nat}
    {handler : Handler} {rest : List JumpResolverDSL} (hle : n ≤ body.length)
    (h : LabelAddr env body n label addr handler)
    (hrest : leaveAddr label rest = leaveAddr label (restAt env body final n)) :
    ∃ known : Option Nat,
      ((opensAt (nestAt body) n).map (loopAddr env body) ++ [none])[label]? = some known ∧
      known.or (leaveAddr label (rest.map .stored)) = some (asU32 addr) := by
  have hopen : ∀ k, (opensAt (nestAt body) n)[label]? = some k →
      ((opensAt (nestAt body) n).map (loopAddr env body) ++ [none])[label]? =
        some (loopAddr env body k) := by
    intro k hk
    have hlt := (List.getElem?_eq_some_iff.mp hk).1
    rw [List.getElem?_append_left (by simpa using hlt), List.getElem?_map, hk]
    rfl
  cases h with
  | @loop k blocktype hk hloop => exact ⟨_, hopen k hk, by simp [loopAddr, hloop]⟩
  | @block k e hk hother hcloses =>
      have hnone : loopAddr env body k = none := by
        unfold loopAddr
        split
        · next blocktype hloop => exact absurd hloop (hother blocktype)
        · rfl
      refine ⟨_, hopen k hk, ?_⟩
      rw [hnone, leaveAddr_stored, hrest, leaveAddr_rest hok hle (.inl ⟨k, e, hk, hcloses, rfl⟩)]
      rfl
  | function hlabel =>
      refine ⟨none, by simp [hlabel], ?_⟩
      rw [leaveAddr_stored, hrest, leaveAddr_rest hok hle (.inr ⟨hlabel, rfl⟩)]
      rfl

private theorem jump_written (hok : parseCode env body = .ok final) (hfit : SlotsFit final)
    (h : resolvedProgram final = some program) {n slot label addr : Nat} {inst : Inst}
    {handler : Handler} (hn : body[n]? = some inst)
    (hjump : (slot, label) ∈ jumpsOf (stateAt env body n) inst)
    (haddr : LabelAddr env body n label addr handler) :
    program[slot]? = some (.operand (.jumpAddr (asU32 addr))) := by
  have hle := Nat.le_of_lt (List.getElem?_eq_some_iff.mp hn).1
  obtain ⟨before, dsl, after, hsplit, hdsl, honly⟩ := records_split hjump
  have hbefore : ∀ d ∈ before, d.slot.isSome := fun d hd => honly d (by simp [hd])
  have hwhole : final.jumpResolver = ((stateAt env body n).jumpResolver ++ before) ++
      dsl :: (after ++ restAt env body final (n + 1)) := by
    rw [record_split hok hle, restAt_step hok hn, hsplit]
    simp
  have hslot : dsl.slot = some slot := dsl.slot_of_jump? hdsl
  have hnarrow : slot < 2 ^ 32 := hfit dsl (by rw [hwhole]; simp) slot hslot
  -- Slots are recorded in order, so that no other record is about this one.
  have hsorted := final_sorted hok
  rw [hwhole, List.filterMap_append, List.filterMap_cons_some hslot, List.pairwise_append,
    List.pairwise_cons] at hsorted
  obtain ⟨-, ⟨hlater, -⟩, hearlier⟩ := hsorted
  have hfreeEarlier : ∀ d ∈ (stateAt env body n).jumpResolver ++ before, d.slot ≠ some slot := by
    intro d hd heq
    have hmem := List.mem_filterMap.mpr ⟨d, hd, heq⟩
    exact Nat.lt_irrefl _ (hearlier slot hmem slot (List.mem_cons_self ..))
  have hfreeLater : ∀ d ∈ after ++ restAt env body final (n + 1), d.slot ≠ some slot := by
    intro d hd heq
    exact Nat.lt_irrefl _ (hlater slot (List.mem_filterMap.mpr ⟨d, hd, heq⟩))
  have hfitOf : ∀ part : List JumpResolverDSL, (∀ d ∈ part, d ∈ final.jumpResolver) →
      ∀ d ∈ part, ∀ p ∈ d.slot, p < 2 ^ 32 := fun part hpart d hd => hfit d (hpart d hd)
  -- The resolver when it meets the record.
  obtain ⟨r', hrun, rfl⟩ := resolved_run h
  rw [hwhole, List.map_append, List.map_cons] at hrun
  obtain ⟨r, hfirst, hrun⟩ := run_append.mp hrun
  have hheld : Held none slot r := run_unheld
    (stored_free (hfitOf _ fun d hd => by rw [hwhole]; exact List.mem_append_left _ hd)
      hfreeEarlier) (unheld_initial slot _) hfirst
  have haddrs : r.addrs = (opensAt (nestAt body) n).map (loopAddr env body) ++ [none] := by
    obtain ⟨t, ht, -, haddrs⟩ := @run_at env body final hok (final.instr.map Instr.stored)
      (Nat.le_of_eq (List.length_map _).symm) n hle
    rw [List.map_append] at hfirst
    obtain ⟨t', ht', hfirst⟩ := run_append.mp hfirst
    obtain rfl := Option.some.inj (ht.symm.trans ht')
    rw [run_jumps_addrs _ hfirst, haddrs]
    intro d hd
    obtain ⟨plain, hplain, rfl⟩ := List.mem_map.mp hd
    have hsome := hbefore plain hplain
    cases plain <;> first | rfl | cases hsome
  have hblock : r.block.length = (stateAt env body n).frames.length + 1 := by
    rw [← addrs_length, haddrs, frames_length hok hle]
    simp
  have hrest : leaveAddr label (after ++ restAt env body final (n + 1)) =
      leaveAddr label (restAt env body final n) := by
    rw [restAt_step hok hn, hsplit, leaveAddr_jumps label honly]
    exact leaveAddr_jumps label fun d hd => honly d (by simp [hd])
  apply run_jump _ (stored_free (hfitOf _ fun d hd => by
    rw [hwhole]; exact List.mem_append_right _ (List.mem_cons_of_mem _ hd)) hfreeLater) hheld hrun
  · rw [haddrs]
    exact known_addr hok hle haddr hrest
  · rw [hblock]
    exact dsl.stored_jump? hdsl hnarrow

/-- Only a branch leads to a loop: a `return` leads out of all blocks, an `else` out of its `if`. -/
private theorem branch_of_loop (hok : parseCode env body = .ok final) {n slot label k : Nat}
    {inst : Inst} {blocktype : BlockType} (hn : body[n]? = some inst)
    (hjump : (slot, label) ∈ jumpsOf (stateAt env body n) inst)
    (hk : (opensAt (nestAt body) n)[label]? = some k)
    (hloop : body[k]? = some (.loop blocktype)) : inst ≠ .return_ ∧ inst ≠ .else_ := by
  have hle := Nat.le_of_lt (List.getElem?_eq_some_iff.mp hn).1
  constructor
  · rintro rfl
    simp only [jumpsOf] at hjump
    split at hjump
    · cases hjump
    · obtain ⟨-, rfl⟩ := Prod.mk.inj (List.mem_singleton.mp hjump)
      simp [frames_length hok hle] at hk
  · rintro rfl
    simp only [jumpsOf] at hjump
    split at hjump
    · cases hjump
    · next hlive =>
        obtain ⟨-, rfl⟩ := Prod.mk.inj (List.mem_singleton.mp hjump)
        obtain ⟨inst, kind, blocktype', frame, hget, hshape, hframe, hsig⟩ :=
          frame_of_open hok hle hk
        have hstep := parseInst_frames (stateAt_step hok hn) (stateAt_framesMatch hok hle)
        cases hstep with
        | deadElse hdead _ => exact hlive hdead
        | @else_ first rest _ hbefore hkind _ =>
            rw [hbefore] at hframe
            obtain rfl : first = frame := Option.some.inj hframe
            obtain rfl := Option.some.inj (hloop.symm.trans hget)
            obtain ⟨rfl, -⟩ := Shape.enter.inj hshape
            have hsame := congrArg Prod.fst hsig
            dsimp only [Frame.sig] at hsame
            rw [hkind] at hsame
            cases hsame

private theorem jumpsOf_end (s : State) : jumpsOf s .end_ = [] := rfl

private theorem end_of_closes {k e : Nat} (h : Closes (nestAt body) k e) :
    body[e]? = some .end_ := by
  have hpop := h.1
  unfold nestAt at hpop
  cases hget : body[e]? with
  | none => simp [hget] at hpop
  | some inst => cases inst <;> simp [hget, shape] at hpop ⊢

private theorem forward_of_end (hok : parseCode env body = .ok final) {n slot label addr : Nat}
    {inst : Inst} (hn : body[n]? = some inst)
    (hjump : (slot, label) ∈ jumpsOf (stateAt env body n) inst)
    (haddr : EndsAt env body n label addr) : slot < addr := by
  have hlt := (List.getElem?_eq_some_iff.mp hn).1
  have hslot : slot < pcOf env body (n + 1) := (parseInst_slots (stateAt_step hok hn) hjump).2
  rcases haddr with ⟨k, e, hk, hcloses, rfl⟩ | ⟨-, rfl⟩
  · have hend := end_of_closes hcloses
    have hne : n ≠ e := by
      rintro rfl
      obtain rfl := Option.some.inj (hn.symm.trans hend)
      cases hjump
    have hle : ¬e < n := fun hlt => hcloses.not_mem hlt (List.mem_of_getElem? hk)
    have hmono := pcOf_mono hok (by omega : n + 1 ≤ e)
      (Nat.le_of_lt (List.getElem?_eq_some_iff.mp hend).1)
    omega
  · have hmono := pcOf_mono hok (by omega : n + 1 ≤ body.length) (Nat.le_refl _)
    omega

private theorem op_at_label (hok : parseCode env body = .ok final) (hfit : SlotsFit final)
    (h : resolvedProgram final = some program) {n slot label addr : Nat} {inst : Inst}
    {handler : Handler} (hn : body[n]? = some inst)
    (hjump : (slot, label) ∈ jumpsOf (stateAt env body n) inst)
    (haddr : LabelAddr env body n label addr handler) :
    program[addr]? = some (.op handler) := by
  have hle := Nat.le_of_lt (List.getElem?_eq_some_iff.mp hn).1
  have hend : ∀ e, body[e]? = some .end_ → program[pcOf env body e]? = some (.op .opEnd) := by
    intro e he
    have hlt := (List.getElem?_eq_some_iff.mp he).1
    have hop := op_at_end hok he
    rw [slot_kept_of_fit hfit h (not_recorded hok (Nat.le_of_lt hlt) (Nat.le_refl _) _)]
    · exact stored_op hop.2
    · intro inst hinst
      obtain rfl := Option.some.inj (he.symm.trans hinst)
      exact ⟨hop.1, rfl⟩
  cases haddr with
  | @loop k blocktype hk hloop =>
      have hklt := (List.getElem?_eq_some_iff.mp hloop).1
      obtain ⟨hreturn, helse⟩ := branch_of_loop hok hn hjump hk hloop
      have hlive := (parseInst_branchSlot (stateAt_step hok hn) hjump hreturn helse).1
      have hop := op_at_loop hok hloop (live_of_open hok hle hk hlive)
      rw [slot_kept_of_fit hfit h (not_recorded hok (Nat.le_of_lt hklt) (Nat.le_refl _) _)]
      · exact stored_op hop.2
      · intro inst hinst
        obtain rfl := Option.some.inj (hloop.symm.trans hinst)
        exact ⟨hop.1, rfl⟩
  | block _ _ hcloses => exact hend _ (end_of_closes hcloses)
  | function _ =>
      have hop : final.instr[pcOf env body body.length]? = some (.op .opEnd) := by
        obtain ⟨slots, hinstr⟩ := (final_split hok).1
        rw [hinstr, pcOf, List.getElem?_append_right (Nat.le_refl _), Nat.sub_self]
        rfl
      rw [slot_kept_of_fit hfit h (not_recorded hok (Nat.le_refl _) (Nat.le_refl _) _)]
      · exact stored_op hop
      · intro inst hinst
        simp at hinst

private theorem final_branchSlot (hok : parseCode env body = .ok final) {n slot label : Nat}
    {inst : Inst} (hn : body[n]? = some inst)
    (hjump : (slot, label) ∈ jumpsOf (stateAt env body n) inst) (hreturn : inst ≠ .return_)
    (helse : inst ≠ .else_) :
    ∃ value, final.instr[slot]? = some (.operand (.u32 value)) := by
  have hlt := (List.getElem?_eq_some_iff.mp hn).1
  have hinst := stateAt_step hok hn
  obtain ⟨-, value, hvalue⟩ := parseInst_branchSlot hinst hjump hreturn helse
  obtain ⟨hlow, hhigh⟩ := parseInst_slots hinst hjump
  have hframes : (stateAt env body (n + 1)).frames = (stateAt env body n).frames := by
    have hstep := parseInst_frames hinst (stateAt_framesMatch hok (Nat.le_of_lt hlt))
    cases inst with
    | br idx | brTable idxs defaultIdx => cases hstep with | transfer hsame => exact hsame
    | brIf idx => cases hstep with | work hsame => exact hsame
    | return_ => exact absurd rfl hreturn
    | else_ => exact absurd rfl helse
    | _ => cases hjump
  have hfree : slot ∉ pendingIfs (stateAt env body (n + 1)).frames := by
    rw [hframes]
    intro hp
    have := (stateAt_bounded hok (Nat.le_of_lt hlt)).pending slot hp
    omega
  exact ⟨value, by rw [final_slot (n := n + 1) hok hlt hhigh hfree, hvalue]⟩

/-! ## The exact condition -/

theorem AddressesFit.resolved (hok : parseCode env body = .ok final)
    (h : resolvedProgram final = some program) (hfit : AddressesFit env body) :
    JumpsResolved env body program := by
  have hslots := hfit.slots hok
  constructor
  · intro n inst hn slot label hjump
    have hle := Nat.le_of_lt (List.getElem?_eq_some_iff.mp hn).1
    have hlabel := parseInst_labels (stateAt_step hok hn) (stateAt_framesMatch hok hle) hjump
    rw [frames_length hok hle] at hlabel
    obtain ⟨addr, handler, haddr⟩ := exists_labelAddr hok hle hlabel
    have hwritten := jump_written hok hslots h hn hjump haddr
    rw [asU32_of_lt ((hfit n inst hn slot label hjump).2 addr handler haddr)] at hwritten
    exact ⟨addr, handler, haddr, op_at_label hok hslots h hn hjump haddr, hwritten⟩
  · intro k blocktype hk hlive
    have hlt := (List.getElem?_eq_some_iff.mp hk).1
    have hopen : k ∈ opensAt (nestAt body) (k + 1) := by
      rw [opensAt_push (by rw [nestAt_eq hk]; rfl)]
      exact List.mem_cons_self ..
    obtain ⟨e, -, -, hcloses⟩ := exists_closes (opensAt_length hok) hopen hlt
    obtain ⟨addr, haddr, hless, hslot⟩ := slot_of_if hok hk hcloses (end_of_closes hcloses) hlive
    refine ⟨addr, ?_, ?_⟩
    · rcases haddr with haddr | haddr
      · exact .inl ⟨e, hcloses, haddr⟩
      · exact .inr haddr
    · rw [slot_kept_of_fit hslots h (not_recorded hok (Nat.le_of_lt hlt) (Nat.le_succ _) _)]
      · rw [List.getElem?_map, hslot]
        rfl
      · intro inst hinst
        obtain rfl := Option.some.inj (hk.symm.trans hinst)
        exact ⟨hless, rfl⟩

theorem JumpsResolved.fit (hok : parseCode env body = .ok final)
    (h : resolvedProgram final = some program) (hresolved : JumpsResolved env body program) :
    AddressesFit env body := by
  intro n inst hn slot label hjump
  obtain ⟨addr, handler, haddr, -, hslot⟩ := hresolved.jumps n inst hn slot label hjump
  have hnarrow := addr_narrow h hslot
  constructor
  · by_contra hwide
    have hkept : program[slot]? = (final.instr.map Instr.stored)[slot]? := by
      apply slot_kept h
      intro dsl hdsl heq
      obtain ⟨plain, -, rfl⟩ := List.mem_map.mp hdsl
      obtain ⟨other, -, rfl⟩ := stored_slot heq
      exact hwide (asU32_lt other)
    cases haddr with
    | @loop k blocktype hk hloop =>
        obtain ⟨hreturn, helse⟩ := branch_of_loop hok hn hjump hk hloop
        obtain ⟨value, hvalue⟩ := final_branchSlot hok hn hjump hreturn helse
        rw [hkept, List.getElem?_map, hvalue] at hslot
        cases hslot
    | @block k e hk _ hcloses =>
        have := forward_of_end hok hn hjump (.inl ⟨k, e, hk, hcloses, rfl⟩)
        omega
    | function hlabel =>
        have := forward_of_end hok hn hjump (.inr ⟨hlabel, rfl⟩)
        omega
  · intro addr' handler' haddr'
    rw [(haddr'.unique haddr).1]
    exact hnarrow

/-- Evaluation never fails, and it resolves the jumps exactly when their slots and targets are
numbers of 32 bits. -/
theorem jumpsResolved_iff (hok : parseCode env body = .ok final) :
    ∃ program, resolvedProgram final = some program ∧
      (JumpsResolved env body program ↔ AddressesFit env body) := by
  obtain ⟨program, h⟩ := exists_resolvedProgram hok
  exact ⟨program, h, fun hresolved => hresolved.fit hok h, fun hfit => hfit.resolved hok h⟩

end Accepted

/-- A loop left by a branch table from dead and live code, inside an `if` with an `else`. -/
def nestedJumpsBody : List Inst :=
  [i32Const, .if_ .void, .loop .void, i32Const, .brTable [0, 1] 2, .br 1, .end_, .else_, .return_,
    .end_]

theorem jumpsResolved_iff_nested : (∃ final, parseCode loopParamEnv nestedJumpsBody = .ok final ∧
    ∃ program, resolvedProgram final = some program ∧
      (JumpsResolved loopParamEnv nestedJumpsBody program ↔
        AddressesFit loopParamEnv nestedJumpsBody)) := by
  have hok : ∃ final, parseCode loopParamEnv nestedJumpsBody = .ok final := ⟨_, rfl⟩
  obtain ⟨final, hfinal⟩ := hok
  exact ⟨final, hfinal, jumpsResolved_iff hfinal⟩

def returningBlock : List Inst :=
  [.block .void, .return_, .end_]

def wideBody (count : Nat) : List Inst :=
  (List.replicate count returningBlock).flatten

/-- The parser stands in the function's own block, with nothing on the stack. -/
structure Outermost (s : State) : Prop where
  checker : s.checker = .new 0
  unreachable : s.unreachable = [false, false]
  frames : s.frames = []

/-- The parser stands in the block of `returningBlock`. -/
structure InBlock (s : State) (dead : Bool) (checker : TypeChecker) : Prop where
  checker : s.checker = checker
  unreachable : s.unreachable = [dead, false, false]
  frames : s.frames = [⟨.block, .void, 0, false, none⟩]

def openedChecker : TypeChecker :=
  (TypeChecker.new 0).enterBlock .block .void

private theorem block_parsed {s : State} (h : Outermost s) :
    ∃ s', parseInst loopParamEnv s (.block .void) = .ok s' ∧ InBlock s' false openedChecker ∧
      s'.instr.length = s.instr.length := by
  obtain ⟨instr, flags, checker, dsls, records, frames⟩ := s
  obtain ⟨rfl, rfl, rfl⟩ := h
  exact ⟨_, rfl, ⟨rfl, rfl, rfl⟩, rfl⟩

private theorem return_parsed {s : State} (h : InBlock s false openedChecker) :
    ∃ s', parseInst loopParamEnv s .return_ = .ok s' ∧
      InBlock s' true openedChecker.unreachable ∧ s'.instr.length = s.instr.length + 2 := by
  obtain ⟨instr, flags, checker, dsls, records, frames⟩ := s
  obtain ⟨rfl, rfl, rfl⟩ := h
  refine ⟨_, rfl, ?_, by simp [pushSlot, isUnreachable]⟩
  exact ⟨by simp; rfl, by simp; rfl, by simp; rfl⟩

private theorem blockReturn_parsed {s : State} (hchecker : s.checker = openedChecker.unreachable)
    (hflags : s.unreachable = [false, false]) (hframes : s.frames = []) :
    ∃ s', (do
      let t ← emitBlockReturn loopParamEnv s .void
      return t.withChecker (← leaveChecker loopParamEnv t.checker .void)) = .ok s' ∧
      Outermost s' ∧ s'.instr.length = s.instr.length + 2 := by
  obtain ⟨instr, flags, checker, dsls, records, frames⟩ := s
  obtain ⟨rfl, rfl, rfl⟩ : _ ∧ _ ∧ _ := ⟨hchecker, hflags, hframes⟩
  obtain ⟨cut, hcut, hchecker, hflags, hframes, hinstr⟩ : ∃ cut,
      emitBlockReturn loopParamEnv
        ⟨instr, [false, false], openedChecker.unreachable, dsls, records, []⟩ .void = .ok cut ∧
      cut.checker = openedChecker.unreachable ∧ cut.unreachable = [false, false] ∧
      cut.frames = [] ∧ cut.instr.length = instr.length + 2 := by
    refine ⟨_, rfl, ?_, ?_, ?_, ?_⟩
    · rw [pushInstructionMeta_checker, pushWithOperand_checker]
    · rw [pushInstructionMeta_unreachable, pushWithOperand_unreachable]
    · rw [pushInstructionMeta_frames, pushWithOperand_frames]
    · simp [pushWithOperand_eq, isUnreachable]
  refine ⟨cut.withChecker (.new 0), ?_, ⟨rfl, hflags, hframes⟩, hinstr⟩
  rw [hcut, Lib.ok_bind, hchecker]
  rfl

private theorem end_parsed {s : State} (h : InBlock s true openedChecker.unreachable) :
    ∃ s', parseInst loopParamEnv s .end_ = .ok s' ∧ Outermost s' ∧
      s'.instr.length = s.instr.length + 3 := by
  obtain ⟨s', hs', houter, hlength⟩ := blockReturn_parsed
    (s := ({ (((s.pushDsl (.leaveBlock s.instr.length)).forcePush (.op .opEnd)).pushInstructionMeta
      s.instr.length s.checker.snapshotStack s.checker.snapshotStack) with
      frames := [] } : State).genLeaveBlock)
    (by simp [h.checker]) (by simp [h.unreachable]) rfl
  refine ⟨s', ?_, houter, by simpa using hlength⟩
  rw [← hs', parseInst, parseEnd, h.frames]
  rfl

private theorem returningBlock_parsed {s : State} (h : Outermost s) :
    ∃ s', parseInstrs loopParamEnv s returningBlock = .ok s' ∧ Outermost s' ∧
      s'.instr.length = s.instr.length + 5 := by
  obtain ⟨opened, hopened, hinside, hlength⟩ := block_parsed h
  obtain ⟨returned, hreturned, hinside', hlength'⟩ := return_parsed hinside
  obtain ⟨ended, hended, houter, hlength''⟩ := end_parsed hinside'
  refine ⟨ended, ?_, houter, by omega⟩
  rw [returningBlock, parseInstrs, hopened, Lib.ok_bind, parseInstrs, hreturned, Lib.ok_bind,
    parseInstrs, hended, Lib.ok_bind, parseInstrs]

private theorem wideBody_parsed (count : Nat) {s : State} (h : Outermost s) :
    ∃ s', parseInstrs loopParamEnv s (wideBody count) = .ok s' ∧ Outermost s' ∧
      s'.instr.length = s.instr.length + 5 * count := by
  induction count generalizing s with
  | zero => exact ⟨s, rfl, h, rfl⟩
  | succ count ih =>
      obtain ⟨t, ht, houter, hlength⟩ := returningBlock_parsed h
      obtain ⟨s', hs', houter', hlength'⟩ := ih houter
      refine ⟨s', ?_, houter', by omega⟩
      rw [wideBody, List.replicate_succ, List.flatten_cons]
      exact parseInstrs_append.mpr ⟨t, ht, hs'⟩

private theorem finish_parsed {s : State} (h : Outermost s) :
    ∃ final, finish loopParamEnv s = .ok final := by
  rw [finish, h.frames]
  dsimp only
  rw [pushInstructionMeta_checker, forcePush_checker, pushDsl_checker, h.checker]
  exact ⟨_, rfl⟩

/-- Any number of these blocks is accepted, and the function's `op_end` lies behind them. -/
theorem wideBody_accepted (count : Nat) :
    (∃ final, parseCode loopParamEnv (wideBody count) = .ok final) ∧
      pcOf loopParamEnv (wideBody count) (wideBody count).length = 5 * count := by
  obtain ⟨s, hs, houter, hlength⟩ := wideBody_parsed count
    (s := .initial loopParamEnv) ⟨rfl, rfl, rfl⟩
  obtain ⟨final, hfinal⟩ := finish_parsed houter
  constructor
  · exact ⟨final, by rw [parseCode, hs]; exact hfinal⟩
  · rw [pcOf, stateAt, List.take_length, hs]
    change s.instr.length = 5 * count
    simpa [State.initial] using hlength

/-- The first `return` leads behind the last block. -/
theorem not_addressesFit_wide {count : Nat} (h : 2 ^ 32 ≤ 5 * count) :
    ¬AddressesFit loopParamEnv (wideBody count) := by
  intro hfit
  cases count with
  | zero => simp at h
  | succ count =>
      have htarget : LabelAddr loopParamEnv (wideBody (count + 1)) 1 1
          (pcOf loopParamEnv (wideBody (count + 1)) (wideBody (count + 1)).length) .opEnd :=
        .function rfl
      have hbound := (hfit 1 .return_ rfl 1 1 (List.mem_singleton.mpr rfl)).2 _ _ htarget
      rw [(wideBody_accepted (count + 1)).2] at hbound
      omega

/-- A body of 3,435,973,840 bytes whose code has 4,294,967,303 slots. -/
theorem not_jumpsResolved_wide : ∃ final program,
    parseCode loopParamEnv (wideBody 858993460) = .ok final ∧
      resolvedProgram final = some program ∧
      ¬JumpsResolved loopParamEnv (wideBody 858993460) program := by
  obtain ⟨final, hfinal⟩ := (wideBody_accepted 858993460).1
  obtain ⟨program, hprogram⟩ := exists_resolvedProgram hfinal
  exact ⟨final, program, hfinal, hprogram,
    fun hresolved => not_addressesFit_wide (by decide) (hresolved.fit hfinal hprogram)⟩

end Telomere.Parser
