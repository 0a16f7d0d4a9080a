import Telomere.Parser.Positions

/-!
# Where the jumps of an accepted body go

The record of an accepted body always names blocks and slots that exist, so that its evaluation
does not fail. What a slot gets is the address of the target as a number of 32 bits, in the slot
with that number.
-/

namespace Telomere.Parser

open TypeChecker State Lib JumpResolver

/-- The targets of a table, the first one in `slot`. -/
def tableJumps : Nat → List Nat → List (Nat × Nat)
  | _, [] => []
  | slot, idx :: idxs => (slot, idx) :: tableJumps (slot + 1) idxs

/-- The operand slots an instruction leaves to the resolver, each with the label it goes to. Dead
code has none, and the label of a `return` is the function's own. -/
def jumpsOf (s : State) : Inst → List (Nat × Nat)
  | .br idx | .brIf idx => if s.isUnreachable then [] else [(s.instr.length + 1, idx)]
  | .brTable idxs defaultIdx =>
      if s.isUnreachable then [] else tableJumps (s.instr.length + 2) (idxs ++ [defaultIdx])
  | .return_ => if s.isUnreachable then [] else [(s.instr.length + 1, s.frames.length)]
  | .else_ => if s.unreachable.tail.headD false then [] else [(s.instr.length + 1, 0)]
  | _ => []

/-- A slot and the label it goes to, as the record of a branch. -/
def brRecord (jump : Nat × Nat) : JumpResolverDSL :=
  .br jump.2 jump.1

def records (s : State) : Inst → List JumpResolverDSL
  | .block _ | .if_ _ => [.enterForwardJumpBlock]
  | .loop _ => [.enterBackwardJumpBlock s.instr.length]
  | .end_ => [.leaveBlock s.instr.length]
  | .return_ => if s.isUnreachable then [] else [.return_ (s.instr.length + 1)]
  | inst => (jumpsOf s inst).map brRecord

theorem tableDsls_eq (slot : Nat) (idxs : List Nat) :
    tableDsls slot idxs = (tableJumps slot idxs).map brRecord := by
  induction idxs generalizing slot with
  | nil => rfl
  | cons idx idxs ih => simp [tableDsls, tableJumps, brRecord, ih]

theorem mem_tableJumps {start slot label : Nat} {idxs : List Nat} :
    (slot, label) ∈ tableJumps start idxs ↔ ∃ j, idxs[j]? = some label ∧ slot = start + j := by
  induction idxs generalizing start with
  | nil => simp [tableJumps]
  | cons idx idxs ih =>
      rw [tableJumps, List.mem_cons, ih]
      constructor
      · rintro (heq | ⟨j, hj, rfl⟩)
        · obtain ⟨rfl, rfl⟩ := Prod.mk.inj heq
          exact ⟨0, rfl, rfl⟩
        · exact ⟨j + 1, hj, by omega⟩
      · rintro ⟨j, hj, rfl⟩
        cases j with
        | zero =>
            obtain rfl : idx = label := by simpa using hj
            exact .inl rfl
        | succ j => exact .inr ⟨j, hj, by omega⟩

theorem tableJumps_sorted (start : Nat) (idxs : List Nat) :
    ((tableJumps start idxs).map Prod.fst).Pairwise (· < ·) := by
  induction idxs generalizing start with
  | nil => exact List.Pairwise.nil
  | cons idx idxs ih =>
      refine List.Pairwise.cons ?_ (ih (start + 1))
      intro slot hslot
      obtain ⟨⟨slot', label⟩, hmem, rfl⟩ := List.mem_map.mp hslot
      obtain ⟨j, -, rfl⟩ := mem_tableJumps.mp hmem
      omega

section Emitted

variable {env : Env} {s s' : State} {inst : Inst}

theorem jumpsOf_sorted (s : State) (inst : Inst) :
    ((jumpsOf s inst).map Prod.fst).Pairwise (· < ·) := by
  cases inst with
  | br idx | brIf idx | return_ | else_ =>
      simp only [jumpsOf]
      split <;> simp
  | brTable idxs defaultIdx =>
      simp only [jumpsOf]
      split
      · simp
      · exact tableJumps_sorted _ _
  | _ => exact List.Pairwise.nil

theorem records_slots (s : State) (inst : Inst) :
    (records s inst).filterMap JumpResolverDSL.slot = (jumpsOf s inst).map Prod.fst := by
  have hbr : ∀ jumps : List (Nat × Nat),
      (jumps.map brRecord).filterMap JumpResolverDSL.slot = jumps.map Prod.fst := by
    intro jumps
    rw [List.filterMap_map]
    exact congrFun List.filterMap_eq_map jumps
  cases inst <;> first
    | exact hbr _
    | rfl
    | (simp only [records, jumpsOf]; split <;> rfl)

theorem records_split {slot label : Nat} (h : (slot, label) ∈ jumpsOf s inst) :
    ∃ (before : List JumpResolverDSL) (dsl : JumpResolverDSL) (after : List JumpResolverDSL),
      records s inst = before ++ dsl :: after ∧
      dsl.jump? (s.frames.length + 1) = some (slot, label) ∧ OnlyJumps (before ++ dsl :: after) := by
  have hbr : ∀ jumps : List (Nat × Nat), (slot, label) ∈ jumps →
      ∃ (before : List JumpResolverDSL) (dsl : JumpResolverDSL) (after : List JumpResolverDSL),
        jumps.map brRecord = before ++ dsl :: after ∧
        dsl.jump? (s.frames.length + 1) = some (slot, label) ∧
        OnlyJumps (before ++ dsl :: after) := by
    intro jumps hmem
    obtain ⟨before, after, rfl⟩ := List.append_of_mem hmem
    have hsplit : (before ++ (slot, label) :: after).map brRecord =
        before.map brRecord ++ .br label slot :: after.map brRecord := by
      rw [List.map_append, List.map_cons]
      rfl
    refine ⟨before.map brRecord, .br label slot, after.map brRecord, hsplit, rfl, ?_⟩
    intro dsl hdsl
    rw [← hsplit] at hdsl
    obtain ⟨jump, -, rfl⟩ := List.mem_map.mp hdsl
    rfl
  cases inst with
  | return_ =>
      simp only [jumpsOf] at h
      split at h
      · cases h
      · next hlive =>
          obtain ⟨rfl, rfl⟩ := Prod.mk.inj (List.mem_singleton.mp h)
          refine ⟨[], .return_ (s.instr.length + 1), [], ?_, rfl, ?_⟩
          · simp [records, hlive]
          · intro dsl hdsl
            obtain rfl := List.mem_singleton.mp hdsl
            rfl
  | br idx | brIf idx | brTable idxs defaultIdx | else_ => exact hbr _ h
  | _ => cases h

theorem mem_records {dsl : JumpResolverDSL} (h : dsl ∈ records s inst) (hslot : dsl.slot.isSome) :
    ∃ slot label, dsl.jump? (s.frames.length + 1) = some (slot, label) ∧
      (slot, label) ∈ jumpsOf s inst := by
  have hbr : dsl ∈ (jumpsOf s inst).map brRecord → ∃ slot label,
      dsl.jump? (s.frames.length + 1) = some (slot, label) ∧ (slot, label) ∈ jumpsOf s inst := by
    intro hmem
    obtain ⟨⟨slot, label⟩, hjump, rfl⟩ := List.mem_map.mp hmem
    exact ⟨slot, label, rfl, hjump⟩
  cases inst with
  | return_ =>
      simp only [records] at h
      split at h
      · cases h
      · next hlive =>
          obtain rfl := List.mem_singleton.mp h
          exact ⟨s.instr.length + 1, s.frames.length, rfl, by simp [jumpsOf, hlive]⟩
  | block blocktype | loop blocktype | if_ blocktype | end_ =>
      obtain rfl := List.mem_singleton.mp h
      cases hslot
  | _ => exact hbr h

private theorem Emits.recorded {slots : List Instr} {dsls : List JumpResolverDSL}
    (h : Emits s s' slots dsls)
    (hrecords : records s inst = if s.isUnreachable then [] else dsls) :
    s'.jumpResolver = s.jumpResolver ++ records s inst := by
  rw [hrecords]
  cases hdead : s.isUnreachable with
  | true => exact (h.dead hdead).jumpResolver
  | false => exact (h.live hdead).jumpResolver

private theorem map_ite_nil {jumps : List (Nat × Nat)} {dead : Bool} :
    (if dead then [] else jumps).map brRecord = if dead then [] else jumps.map brRecord := by
  cases dead <;> rfl

theorem parseInst_records (hok : parseInst env s inst = .ok s') :
    s'.jumpResolver = s.jumpResolver ++ records s inst := by
  have hwork : isWork inst = true → records s inst = [] → 
      s'.jumpResolver = s.jumpResolver ++ records s inst := by
    intro hwork hnil
    obtain ⟨slots, hemits, -⟩ := parseInst_work hok hwork
    exact hemits.recorded (by rw [hnil]; split <;> rfl)
  cases inst with
  | br idx =>
      obtain ⟨t, ht, hsame, -⟩ := parseInst_plain hok (by simp [shape])
      exact ((parseBr_emits ht).same hsame).recorded map_ite_nil
  | brIf idx =>
      obtain ⟨t, ht, hsame, -⟩ := parseInst_plain hok (by simp [shape])
      exact ((parseBrIf_emits ht).same hsame).recorded map_ite_nil
  | brTable idxs defaultIdx =>
      obtain ⟨t, ht, hsame, -⟩ := parseInst_plain hok (by simp [shape])
      refine ((parseBrTable_emits ht).same hsame).recorded ?_
      rw [tableDsls_eq]
      exact map_ite_nil
  | return_ =>
      obtain ⟨t, ht, hsame, -⟩ := parseInst_plain hok (by simp [shape])
      exact ((parseReturn_emits ht).same hsame).recorded rfl
  | else_ =>
      obtain ⟨t, ht, hsame, -⟩ := parseInst_plain hok (by simp [shape])
      obtain ⟨hdead, hlive⟩ := parseElse_layout ht
      simp only [records, jumpsOf]
      cases hflag : s.unreachable.tail.headD false with
      | true => exact ((hdead hflag).2.same hsame).jumpResolver
      | false => exact ((hlive hflag).2.same hsame).jumpResolver
  | block blocktype =>
      obtain ⟨dsls, hdsls, hshape⟩ := (parseInst_extends hok).2
      obtain rfl : dsls = [.enterForwardJumpBlock] := hshape
      exact hdsls
  | loop blocktype =>
      obtain ⟨dsls, hdsls, hshape⟩ := (parseInst_extends hok).2
      obtain rfl : dsls = [.enterBackwardJumpBlock s.instr.length] := hshape
      exact hdsls
  | if_ blocktype =>
      obtain ⟨dsls, hdsls, hshape⟩ := (parseInst_extends hok).2
      obtain rfl : dsls = [.enterForwardJumpBlock] := hshape
      exact hdsls
  | end_ =>
      obtain ⟨dsls, hdsls, hshape⟩ := (parseInst_extends hok).2
      obtain rfl : dsls = [.leaveBlock s.instr.length] := hshape
      exact hdsls
  | unreachable =>
      obtain ⟨t, ht, hsame, -⟩ := parseInst_plain hok (by simp [shape])
      obtain rfl := Except.ok.inj ht
      simpa [records, jumpsOf] using hsame.jumpResolver
  | nop =>
      obtain ⟨t, ht, hsame, -⟩ := parseInst_plain hok (by simp [shape])
      obtain rfl := Except.ok.inj ht
      simpa [records, jumpsOf] using hsame.jumpResolver
  | returnCall idx =>
      obtain ⟨t, ht, hsame, -⟩ := parseInst_plain hok (by simp [shape])
      obtain ⟨ty, -, ht⟩ := Lib.bind_eq_ok.mp ht
      obtain ⟨c, -, ht⟩ := Lib.bind_eq_ok.mp ht
      obtain ⟨d, -, ht⟩ := Lib.bind_eq_ok.mp ht
      obtain rfl := Lib.pure_eq_ok.mp ht
      simpa [records, jumpsOf] using hsame.jumpResolver
  | returnCallIndirect typeidx tableidx =>
      obtain ⟨t, ht, hsame, -⟩ := parseInst_plain hok (by simp [shape])
      obtain ⟨_, -, ht⟩ := Lib.bind_eq_ok.mp ht
      obtain ⟨c, -, ht⟩ := Lib.bind_eq_ok.mp ht
      obtain ⟨ty, -, ht⟩ := Lib.bind_eq_ok.mp ht
      obtain ⟨d, -, ht⟩ := Lib.bind_eq_ok.mp ht
      obtain ⟨e, -, ht⟩ := Lib.bind_eq_ok.mp ht
      obtain rfl := Lib.pure_eq_ok.mp ht
      simpa [records, jumpsOf] using hsame.jumpResolver
  | call _ | callIndirect _ _ | drop | select | selectTyped _ | refIsNull | simple _ =>
      exact hwork rfl rfl

theorem parseInst_slots (hok : parseInst env s inst = .ok s') {slot label : Nat}
    (h : (slot, label) ∈ jumpsOf s inst) :
    s.instr.length ≤ slot ∧ slot < s'.instr.length := by
  obtain ⟨later, hlater, hbound⟩ := (parseInst_extends hok).1.dsls
  obtain rfl := List.append_cancel_left (hlater.symm.trans (parseInst_records hok))
  have hmem : slot ∈ (records s inst).filterMap JumpResolverDSL.slot := by
    rw [records_slots]
    exact List.mem_map.mpr ⟨(slot, label), h, rfl⟩
  obtain ⟨dsl, hdsl, hslot⟩ := List.mem_filterMap.mp hmem
  exact hbound dsl hdsl slot hslot

private theorem getBlock_lt {c : TypeChecker} {idx : Nat} {target : Block}
    (hok : c.getBlock idx = .ok target) : idx < c.blocks.length :=
  (List.getElem?_eq_some_iff.mp (getBlock_ok hok)).1

private theorem validateBrTableTypes_lt {c : TypeChecker} {idx len : Nat}
    (hok : validateBrTableTypes env c idx = .ok len) : idx < c.blocks.length := by
  obtain ⟨target, htarget, -⟩ := Lib.bind_eq_ok.mp hok
  exact getBlock_lt htarget

private theorem validateBrTableTargets_lt {c : TypeChecker} {len : Nat} {idxs : List Nat}
    (hok : validateBrTableTargets env c len idxs = .ok ()) :
    ∀ idx ∈ idxs, idx < c.blocks.length := by
  induction idxs with
  | nil => simp
  | cons idx idxs ih =>
      obtain ⟨n, hn, hok⟩ := Lib.bind_eq_ok.mp hok
      split at hok
      · simpa using ⟨validateBrTableTypes_lt hn, ih hok⟩
      · cases hok

theorem parseInst_labels (hok : parseInst env s inst = .ok s') (hmatch : FramesMatch env s)
    {slot label : Nat} (h : (slot, label) ∈ jumpsOf s inst) : label ≤ s.frames.length := by
  have hlen : s.checker.blocks.length = s.frames.length + 1 := by
    simpa using congrArg List.length hmatch
  cases inst with
  | br idx =>
      obtain ⟨t, ht, -, -⟩ := parseInst_plain hok (by simp [shape])
      obtain ⟨target, htarget, -⟩ := Lib.bind_eq_ok.mp ht
      have hlt := getBlock_lt htarget
      have hlabel : label = idx := by
        simp only [jumpsOf] at h
        split at h <;> simp_all
      have hblocks : idx < s.checker.blocks.length := by
        revert hlt
        split <;> simp
      omega
  | brIf idx =>
      obtain ⟨t, ht, -, -⟩ := parseInst_plain hok (by simp [shape])
      obtain ⟨c, hc, ht⟩ := Lib.bind_eq_ok.mp ht
      obtain ⟨target, htarget, -⟩ := Lib.bind_eq_ok.mp ht
      have hlt := getBlock_lt htarget
      rw [(op_keeps hc).blocks] at hlt
      have hlabel : label = idx := by
        simp only [jumpsOf] at h
        split at h <;> simp_all
      omega
  | brTable idxs defaultIdx =>
      obtain ⟨t, ht, -, -⟩ := parseInst_plain hok (by simp [shape])
      obtain ⟨c, hc, ht⟩ := Lib.bind_eq_ok.mp ht
      obtain ⟨len, hlen', ht⟩ := Lib.bind_eq_ok.mp ht
      obtain ⟨_, htargets, -⟩ := Lib.bind_eq_ok.mp ht
      have hdefault := validateBrTableTypes_lt hlen'
      have htable := validateBrTableTargets_lt htargets
      rw [(op_keeps hc).blocks] at hdefault htable
      simp only [jumpsOf] at h
      split at h
      · cases h
      · obtain ⟨j, hj, -⟩ := mem_tableJumps.mp h
        have hmem := List.mem_of_getElem? hj
        rcases List.mem_append.mp hmem with hmem | hmem
        · have := htable label hmem
          omega
        · obtain rfl := List.mem_singleton.mp hmem
          omega
  | return_ =>
      simp only [jumpsOf] at h
      split at h
      · cases h
      · obtain ⟨-, rfl⟩ := Prod.mk.inj (List.mem_singleton.mp h)
        exact Nat.le_refl _
  | else_ =>
      simp only [jumpsOf] at h
      split at h
      · cases h
      · obtain ⟨-, rfl⟩ := Prod.mk.inj (List.mem_singleton.mp h)
        exact Nat.zero_le _
  | _ => cases h

/-- The operand of a branch is no address before the resolver writes it. -/
theorem parseInst_branchSlot (hok : parseInst env s inst = .ok s') {slot label : Nat}
    (h : (slot, label) ∈ jumpsOf s inst) (hreturn : inst ≠ .return_) (helse : inst ≠ .else_) :
    s.isUnreachable = false ∧ ∃ value, s'.instr[slot]? = some (.operand (.u32 value)) := by
  have hat : ∀ {first : Instr} {slots : List Instr} {value : Nat} {j : Nat},
      s'.instr = s.instr ++ first :: slots → slots[j]? = some (.operand (.u32 value)) →
      s'.instr[s.instr.length + (j + 1)]? = some (.operand (.u32 value)) := by
    intro first slots value j hinstr hget
    rw [hinstr, List.getElem?_append_right (Nat.le_add_right _ _), Nat.add_sub_cancel_left]
    exact hget
  cases inst with
  | br idx =>
      obtain ⟨t, ht, hsame, -⟩ := parseInst_plain hok (by simp [shape])
      simp only [jumpsOf] at h
      split at h
      · cases h
      · next hlive =>
          rw [Bool.not_eq_true] at hlive
          obtain ⟨rfl, -⟩ := Prod.mk.inj (List.mem_singleton.mp h)
          exact ⟨hlive, _, @hat _ _ _ 0 (((parseBr_emits ht).same hsame).live hlive).instr rfl⟩
  | brIf idx =>
      obtain ⟨t, ht, hsame, -⟩ := parseInst_plain hok (by simp [shape])
      simp only [jumpsOf] at h
      split at h
      · cases h
      · next hlive =>
          rw [Bool.not_eq_true] at hlive
          obtain ⟨rfl, -⟩ := Prod.mk.inj (List.mem_singleton.mp h)
          exact ⟨hlive, _, @hat _ _ _ 0 (((parseBrIf_emits ht).same hsame).live hlive).instr rfl⟩
  | brTable idxs defaultIdx =>
      obtain ⟨t, ht, hsame, -⟩ := parseInst_plain hok (by simp [shape])
      simp only [jumpsOf] at h
      split at h
      · cases h
      · next hlive =>
          rw [Bool.not_eq_true] at hlive
          obtain ⟨j, hj, rfl⟩ := mem_tableJumps.mp h
          refine ⟨hlive, 0xFFFD0000 ||| label, ?_⟩
          have hentry : (tableSlots (idxs ++ [defaultIdx]))[j]? =
              some (.operand (.u32 (0xFFFD0000 ||| label))) := by
            rw [tableSlots, List.getElem?_map, hj]
            rfl
          have hslot := @hat _ _ _ (j + 1) (((parseBrTable_emits ht).same hsame).live hlive).instr
            hentry
          rwa [show s.instr.length + 2 + j = s.instr.length + (j + 1 + 1) by omega]
  | return_ => exact absurd rfl hreturn
  | else_ => exact absurd rfl helse
  | _ => cases h

end Emitted

/-- A block whose code is emitted lies in blocks whose code is. -/
def LiveAround (flags : List Bool) : Prop :=
  flags.Pairwise fun inner outer => inner = false → outer = false

private theorem LiveAround.step {s s' : State} {shape : Shape} (hstep : BlockStep s s' shape)
    (h : LiveAround s.unreachable) : LiveAround s'.unreachable := by
  have htail : LiveAround s.unreachable.tail := h.sublist (List.tail_sublist _)
  have hdead : LiveAround (true :: s.unreachable.tail) :=
    List.Pairwise.cons (by simp) htail
  cases hstep with
  | work _ hflags => rwa [hflags]
  | transfer _ _ hflags =>
      rcases hflags with hflags | hflags
      · rwa [hflags]
      · rwa [hflags]
  | enter _ _ hflags =>
      rw [hflags]
      refine List.Pairwise.cons ?_ h
      intro outer houter hlive
      cases hcases : s.unreachable with
      | nil => simp [hcases] at houter
      | cons first rest =>
          rw [isUnreachable, hcases] at hlive
          rw [hcases] at h houter
          rcases List.mem_cons.mp houter with rfl | hmem
          · exact hlive
          · exact (List.pairwise_cons.mp h).1 outer hmem hlive
  | deadElse _ _ hflags => rwa [hflags]
  | reopen hlive _ _ _ hflags =>
      rw [hflags]
      refine List.Pairwise.cons ?_ htail
      intro outer houter _
      cases hcases : s.unreachable.tail with
      | nil => simp [hcases] at houter
      | cons first rest =>
          rw [hcases] at hlive htail houter
          rcases List.mem_cons.mp houter with rfl | hmem
          · exact hlive
          · exact (List.pairwise_cons.mp htail).1 outer hmem hlive
  | leave _ _ _ hflags => rwa [hflags]

section Accepted

variable {env : Env} {body : List Inst} {final : State}

theorem stateAt_liveAround (hok : parseCode env body = .ok final) {n : Nat}
    (hle : n ≤ body.length) : LiveAround (stateAt env body n).unreachable := by
  induction n with
  | zero => simp [stateAt_zero, State.initial, LiveAround]
  | succ n ih =>
      obtain ⟨inst, -, hinst⟩ := exists_step hok (by omega : n < body.length)
      exact (ih (by omega)).step (parseInst_step hinst)

theorem unreachable_follows (hok : parseCode env body = .ok final) :
    Follows (nestAt body) body.length fun n => (stateAt env body n).unreachable := by
  intro n hn
  obtain ⟨inst, hget, hinst⟩ := exists_step hok hn
  have hstep := parseInst_step hinst
  rw [nestAt_eq hget]
  cases hshape : shape inst with
  | work =>
      rw [hshape] at hstep
      cases hstep with
      | work _ hflags => simp only [hflags]
  | transfer =>
      rw [hshape] at hstep
      cases hstep with
      | transfer _ _ hflags => rcases hflags with hflags | hflags <;> simp only [hflags, List.tail_cons]
  | enter kind blocktype =>
      rw [hshape] at hstep
      cases hstep with
      | enter _ _ hflags => simp only [hflags, List.tail_cons]
  | else_ =>
      rw [hshape] at hstep
      cases hstep with
      | deadElse _ _ hflags => simp only [hflags, List.tail_cons]
      | reopen _ _ _ _ hflags => simp only [hflags, List.tail_cons]
  | end_ =>
      rw [hshape] at hstep
      cases hstep with
      | leave _ _ _ hflags => simp only [hflags]

/-- Where code is emitted, it was emitted at the opening of each open block. -/
theorem live_of_open (hok : parseCode env body = .ok final) {n i k : Nat} (hle : n ≤ body.length)
    (hk : (opensAt (nestAt body) n)[i]? = some k)
    (hlive : (stateAt env body n).isUnreachable = false) :
    (stateAt env body k).isUnreachable = false := by
  have hdrop := (unreachable_follows hok).drop hle hk
  have haround := stateAt_liveAround hok hle
  unfold isUnreachable at hlive ⊢
  rw [← hdrop]
  cases hflags : (stateAt env body n).unreachable with
  | nil => rfl
  | cons first rest =>
      rw [hflags] at hlive haround
      rw [List.drop_succ_cons]
      cases hrest : rest.drop i with
      | nil => rfl
      | cons flag flags =>
          have hmem : flag ∈ rest := List.mem_of_mem_drop (by rw [hrest]; simp)
          exact (List.pairwise_cons.mp haround).1 flag hmem hlive

theorem stateAt_extends (hok : parseCode env body = .ok final) {m n : Nat} (hle : m ≤ n)
    (hn : n ≤ body.length) : Extends (stateAt env body m) (stateAt env body n) := by
  induction n with
  | zero =>
      obtain rfl : m = 0 := by omega
      exact .refl _
  | succ n ih =>
      by_cases heq : m = n + 1
      · subst heq
        exact .refl _
      · obtain ⟨inst, -, hinst⟩ := exists_step hok (by omega : n < body.length)
        exact (ih (by omega) (by omega)).trans (parseInst_extends hinst).1

theorem stateAt_bounded (hok : parseCode env body = .ok final) {n : Nat} (hn : n ≤ body.length) :
    Bounded (stateAt env body n) :=
  (stateAt_extends hok (Nat.zero_le n) hn).bounded (initial_bounded env)

/-- The function's `end` adds `op_end` and what follows it. -/
theorem final_split (hok : parseCode env body = .ok final) :
    (∃ slots, final.instr = (stateAt env body body.length).instr ++ Instr.op .opEnd :: slots) ∧
      final.jumpResolver = (stateAt env body body.length).jumpResolver ++
        [JumpResolverDSL.leaveBlock (pcOf env body body.length)] := by
  have hfinish := stateAt_finish hok
  unfold finish at hfinish
  split at hfinish
  · cases hfinish
  · obtain ⟨c, -, hfinish⟩ := Lib.bind_eq_ok.mp hfinish
    obtain ⟨d, -, hfinish⟩ := Lib.bind_eq_ok.mp hfinish
    obtain rfl := Lib.pure_eq_ok.mp hfinish
    refine ⟨?_, by simp [pcOf]⟩
    rw [pushInstructionMeta_instr, pushWithOperand_eq]
    simp

/-- What is emitted stays, except for the operands of open `if`s. -/
theorem final_slot (hok : parseCode env body = .ok final) {n p : Nat} (hn : n ≤ body.length)
    (hp : p < pcOf env body n) (hfree : p ∉ pendingIfs (stateAt env body n).frames) :
    final.instr[p]? = (stateAt env body n).instr[p]? := by
  obtain ⟨slots, hinstr⟩ := (final_split hok).1
  have hextends := stateAt_extends hok hn (Nat.le_refl _)
  have hlt := Nat.lt_of_lt_of_le hp hextends.length
  rw [hinstr, List.getElem?_append_left hlt]
  exact hextends.slots p hp hfree

private theorem pendingIfs_core (frames : List Frame) :
    pendingIfs (frames.map Frame.core) = pendingIfs frames := by
  rw [pendingIfs, List.filterMap_map]
  rfl

theorem pcOf_mono (hok : parseCode env body = .ok final) {m n : Nat} (hle : m ≤ n)
    (hn : n ≤ body.length) : pcOf env body m ≤ pcOf env body n :=
  (stateAt_extends hok hle hn).length

/-- At an `end` there is `op_end`. -/
theorem op_at_end (hok : parseCode env body = .ok final) {e : Nat}
    (he : body[e]? = some .end_) : pcOf env body e < pcOf env body (e + 1) ∧
      final.instr[pcOf env body e]? = some (.op .opEnd) := by
  have hlt := (List.getElem?_eq_some_iff.mp he).1
  obtain ⟨frame, hend⟩ := parseEnd_layout (stateAt_step hok he)
  have hbounded := (stateAt_bounded hok (Nat.le_of_lt hlt)).pending
  have hpending : ∀ p ∈ pendingIfs (stateAt env body (e + 1)).frames, p < pcOf env body e := by
    intro p hp
    apply hbounded p
    obtain ⟨f, hf, hp⟩ := List.mem_filterMap.mp hp
    exact List.mem_filterMap.mpr ⟨f, by rw [hend.frames]; exact List.mem_cons_of_mem _ hf, hp⟩
  have hop : pcOf env body e < pcOf env body (e + 1) ∧
      (stateAt env body (e + 1)).instr[pcOf env body e]? = some (.op .opEnd) := by
    by_cases hkind : frame.kind = .if_
    · cases hdead : frame.isUnreachableIfBlock with
      | true => simp [pcOf, hend.deadIf hkind hdead]
      | false =>
          have hindex : frame.index < pcOf env body e := by
            apply hbounded
            rw [hend.frames]
            simp [pendingIfs, hkind, hdead]
          have hne : frame.index ≠ (stateAt env body e).instr.length := Nat.ne_of_lt hindex
          refine ⟨by simp [pcOf, hend.liveIf hkind hdead], ?_⟩
          rw [hend.liveIf hkind hdead, pcOf, List.getElem?_set_ne hne]
          simp
    · cases hdead : (stateAt env body e).unreachable.tail.headD false with
      | true => simp [pcOf, hend.dead hkind hdead]
      | false =>
          obtain ⟨top, size, -, -, hinstr⟩ := hend.live hkind hdead
          simp [pcOf, hinstr]
  refine ⟨hop.1, ?_⟩
  rw [final_slot hok hlt hop.1 fun hp => Nat.lt_irrefl _ (hpending _ hp)]
  exact hop.2

/-- At a `loop` whose code is emitted there is `op_loop`. -/
theorem op_at_loop (hok : parseCode env body = .ok final) {k : Nat} {blocktype : BlockType}
    (hk : body[k]? = some (.loop blocktype))
    (hlive : (stateAt env body k).isUnreachable = false) :
    pcOf env body k < pcOf env body (k + 1) ∧
      final.instr[pcOf env body k]? = some (.op .opLoop) := by
  have hlt := (List.getElem?_eq_some_iff.mp hk).1
  obtain ⟨_, -, hloop⟩ := Lib.bind_eq_ok.mp (stateAt_step hok hk)
  obtain ⟨hframes, -, hcode⟩ := enterLoop_layout hloop
  obtain ⟨top, size, -, -, happends⟩ := hcode hlive
  have hless : pcOf env body k < pcOf env body (k + 1) := by simp [pcOf, happends.instr]
  have hfree : pcOf env body k ∉ pendingIfs (stateAt env body (k + 1)).frames := by
    have hpending : pendingIfs (stateAt env body (k + 1)).frames =
        pendingIfs (stateAt env body k).frames := by
      rw [hframes]
      simp [pendingIfs]
    rw [hpending]
    exact fun hp => Nat.lt_irrefl _ ((stateAt_bounded hok (Nat.le_of_lt hlt)).pending _ hp)
  refine ⟨hless, ?_⟩
  rw [final_slot hok hlt hless hfree]
  simp [pcOf, happends.instr]

/-- The operand of an emitted `op_if`: the code after an `else` of that `if`, or its `op_end`. -/
theorem slot_of_if (hok : parseCode env body = .ok final) {k e : Nat} {blocktype : BlockType}
    (hk : body[k]? = some (.if_ blocktype)) (hcloses : Closes (nestAt body) k e)
    (he : body[e]? = some .end_) (hlive : (stateAt env body k).isUnreachable = false) :
    ∃ addr, (addr = pcOf env body e ∨ ∃ x, body[x]? = some .else_ ∧
        (opensAt (nestAt body) x).head? = some k ∧ addr = pcOf env body x + 2) ∧
      pcOf env body k + 1 < pcOf env body (k + 1) ∧
      final.instr[pcOf env body k + 1]? = some (.operand (.jumpAddr addr)) := by
  have hlt := (List.getElem?_eq_some_iff.mp he).1
  obtain ⟨_, -, hif⟩ := Lib.bind_eq_ok.mp (stateAt_step hok hk)
  obtain ⟨hopened, -, hcode⟩ := enterIf_layout hif
  have hlength : pcOf env body (k + 1) = pcOf env body k + 2 := by
    simp [pcOf, (hcode hlive).instr]
  have hopen : (opensAt (nestAt body) e)[0]? = some k := by
    rw [← List.head?_eq_getElem?]
    exact hcloses.2
  have hcore := (cores_follow hok).get (Nat.le_of_lt hlt) hopen
  obtain ⟨frame, hend⟩ := parseEnd_layout (stateAt_step hok he)
  obtain ⟨hkind, hindex, hdead⟩ : frame.kind = .if_ ∧ frame.index = pcOf env body k + 1 ∧
      frame.isUnreachableIfBlock = false := by
    simp only [hend.frames, hopened, List.map_cons, List.getElem?_cons_zero, List.head?_cons,
      Option.some.injEq, Frame.core, Frame.mk.injEq] at hcore
    refine ⟨hcore.1, ?_, hcore.2.2.2.1.trans hlive⟩
    rw [hcore.2.2.1]
    change pcOf env body (k + 1) - 1 = _
    omega
  have hle : pcOf env body (k + 1) ≤ pcOf env body e :=
    pcOf_mono hok hcloses.lt (Nat.le_of_lt hlt)
  have hinstr := hend.liveIf hkind hdead
  have hlast : (stateAt env body (e + 1)).instr[pcOf env body k + 1]? =
      some (.operand (.jumpAddr (frame.elseAddr.getD (pcOf env body e)))) := by
    have hinside : pcOf env body k + 1 < ((stateAt env body e).instr ++ [Instr.op .opEnd]).length := by
      rw [List.length_append]
      change _ < pcOf env body e + 1
      omega
    rw [hinstr, hindex, List.getElem?_set_self hinside]
    rfl
  refine ⟨frame.elseAddr.getD (pcOf env body e), ?_, by omega, ?_⟩
  · cases haddr : frame.elseAddr with
    | none => exact .inl rfl
    | some addr =>
        obtain ⟨x, -, hx, hdirect, -, heq⟩ := else_of_elseAddr hok (Nat.le_of_lt hlt) hopen
          (by rw [hend.frames]; rfl) haddr
        exact .inr ⟨x, hx, hdirect, heq⟩
  · have hnext : pcOf env body e < pcOf env body (e + 1) := (op_at_end hok he).1
    have hcores : (stateAt env body (e + 1)).frames.map Frame.core =
        (stateAt env body k).frames.map Frame.core := by
      have hdrop := (cores_follow hok).drop (Nat.le_of_lt hlt) hopen
      simp only [List.drop_zero, hend.frames, hopened, List.map_cons, List.cons.injEq] at hdrop
      exact hdrop.2
    have hfree : pcOf env body k + 1 ∉ pendingIfs (stateAt env body (e + 1)).frames := by
      rw [← pendingIfs_core, hcores, pendingIfs_core]
      intro hp
      have := (stateAt_bounded hok (Nat.le_of_lt (Nat.lt_trans hcloses.lt hlt))).pending _ hp
      change pcOf env body k + 1 < pcOf env body k at this
      omega
    rw [final_slot (n := e + 1) hok hlt (by omega) hfree, hlast]

/-- Before instruction `n`, the block with this label ends at this address. -/
def EndsAt (env : Env) (body : List Inst) (n label addr : Nat) : Prop :=
  (∃ k e, (opensAt (nestAt body) n)[label]? = some k ∧ Closes (nestAt body) k e ∧
    addr = pcOf env body e) ∨
  (label = (opensAt (nestAt body) n).length ∧ addr = pcOf env body body.length)

/-- Before instruction `n`, a label leads to the head of a loop, or to the `end` of another block
or of the function. -/
inductive LabelAddr (env : Env) (body : List Inst) (n label : Nat) : Nat → Handler → Prop where
  | loop {k : Nat} {blocktype : BlockType} : (opensAt (nestAt body) n)[label]? = some k →
      body[k]? = some (.loop blocktype) → LabelAddr env body n label (pcOf env body k) .opLoop
  | block {k e : Nat} : (opensAt (nestAt body) n)[label]? = some k →
      (∀ blocktype, body[k]? ≠ some (.loop blocktype)) → Closes (nestAt body) k e →
      LabelAddr env body n label (pcOf env body e) .opEnd
  | function : label = (opensAt (nestAt body) n).length →
      LabelAddr env body n label (pcOf env body body.length) .opEnd

theorem LabelAddr.unique {n label addr addr' : Nat} {handler handler' : Handler}
    (h : LabelAddr env body n label addr handler)
    (h' : LabelAddr env body n label addr' handler') : addr = addr' ∧ handler = handler' := by
  cases h with
  | loop hk hloop =>
      cases h' with
      | loop hk' _ =>
          obtain rfl := Option.some.inj (hk.symm.trans hk')
          exact ⟨rfl, rfl⟩
      | block hk' hother _ =>
          obtain rfl := Option.some.inj (hk.symm.trans hk')
          exact absurd hloop (hother _)
      | function hlabel => simp [hlabel] at hk
  | block hk hother hcloses =>
      cases h' with
      | loop hk' hloop =>
          obtain rfl := Option.some.inj (hk.symm.trans hk')
          exact absurd hloop (hother _)
      | block hk' _ hcloses' =>
          obtain rfl := Option.some.inj (hk.symm.trans hk')
          obtain rfl := hcloses.unique hcloses'
          exact ⟨rfl, rfl⟩
      | function hlabel => simp [hlabel] at hk
  | function hlabel =>
      cases h' with
      | loop hk' _ => simp [hlabel] at hk'
      | block hk' _ _ => simp [hlabel] at hk'
      | function _ => exact ⟨rfl, rfl⟩

theorem exists_labelAddr (hok : parseCode env body = .ok final) {n label : Nat}
    (hle : n ≤ body.length) (hlabel : label ≤ (opensAt (nestAt body) n).length) :
    ∃ addr handler, LabelAddr env body n label addr handler := by
  by_cases hlast : label = (opensAt (nestAt body) n).length
  · exact ⟨_, _, .function hlast⟩
  · have hlt : label < (opensAt (nestAt body) n).length := by omega
    have hk : (opensAt (nestAt body) n)[label]? = some (opensAt (nestAt body) n)[label] :=
      List.getElem?_eq_getElem hlt
    by_cases hloop : ∃ blocktype, body[(opensAt (nestAt body) n)[label]]? = some (.loop blocktype)
    · obtain ⟨blocktype, hloop⟩ := hloop
      exact ⟨_, _, .loop hk hloop⟩
    · obtain ⟨e, -, -, hcloses⟩ :=
        exists_closes (opensAt_length hok) (List.mem_of_getElem? hk) hle
      exact ⟨_, _, .block hk (fun blocktype h => hloop ⟨blocktype, h⟩) hcloses⟩

/-- What is recorded from instruction `n` on. -/
def restAt (env : Env) (body : List Inst) (final : State) (n : Nat) : List JumpResolverDSL :=
  final.jumpResolver.drop (stateAt env body n).jumpResolver.length

theorem stateAt_records (hok : parseCode env body = .ok final) {n : Nat} {inst : Inst}
    (hn : body[n]? = some inst) : (stateAt env body (n + 1)).jumpResolver =
      (stateAt env body n).jumpResolver ++ records (stateAt env body n) inst :=
  parseInst_records (stateAt_step hok hn)

private theorem record_prefix (hok : parseCode env body = .ok final) {n : Nat}
    (hle : n ≤ body.length) : (stateAt env body n).jumpResolver <+: final.jumpResolver := by
  induction hd : body.length - n generalizing n with
  | zero =>
      obtain rfl : n = body.length := by omega
      exact ⟨_, (final_split hok).2.symm⟩
  | succ d ih =>
      have hget : body[n]? = some body[n] := List.getElem?_eq_getElem (by omega)
      exact List.IsPrefix.trans ⟨_, (stateAt_records hok hget).symm⟩ (ih (by omega) (by omega))

theorem record_split (hok : parseCode env body = .ok final) {n : Nat} (hle : n ≤ body.length) :
    final.jumpResolver = (stateAt env body n).jumpResolver ++ restAt env body final n := by
  obtain ⟨rest, hrest⟩ := record_prefix hok hle
  rw [restAt, ← hrest, List.drop_left]

theorem restAt_last (hok : parseCode env body = .ok final) :
    restAt env body final body.length = [.leaveBlock (pcOf env body body.length)] := by
  rw [restAt, (final_split hok).2, List.drop_left]

theorem restAt_step (hok : parseCode env body = .ok final) {n : Nat} {inst : Inst}
    (hn : body[n]? = some inst) :
    restAt env body final n =
      records (stateAt env body n) inst ++ restAt env body final (n + 1) := by
  have hlt := (List.getElem?_eq_some_iff.mp hn).1
  have hsplit := record_split hok (Nat.le_of_lt hlt)
  rw [record_split (n := n + 1) hok hlt, stateAt_records hok hn, List.append_assoc] at hsplit
  exact (List.append_cancel_left hsplit).symm

/-- The rest of the record leaves a block where its `end` is. -/
theorem leaveAddr_rest (hok : parseCode env body = .ok final) {n label addr : Nat}
    (hle : n ≤ body.length) (h : EndsAt env body n label addr) :
    leaveAddr label (restAt env body final n) = some addr := by
  induction hd : body.length - n generalizing n label with
  | zero =>
      obtain rfl : n = body.length := by omega
      rw [restAt_last hok]
      rcases h with ⟨k, e, hk, -, -⟩ | ⟨hlabel, rfl⟩
      · simp [opensAt_length hok] at hk
      · rw [hlabel, opensAt_length hok]
        rfl
  | succ d ih =>
      obtain ⟨inst, hget, hinst⟩ := exists_step hok (by omega : n < body.length)
      obtain ⟨dsls, hdsls, hshape⟩ := (parseInst_extends hinst).2
      obtain rfl := List.append_cancel_left (hdsls.symm.trans (stateAt_records hok hget))
      have hnest := nestAt_eq hget
      rw [restAt_step hok hget]
      cases hcases : shape inst with
      | work | transfer | else_ =>
          rw [hcases] at hshape hnest
          rw [leaveAddr_jumps label hshape]
          apply ih (by omega) _ (by omega)
          rwa [EndsAt, opensAt_keep hnest]
      | enter kind blocktype =>
          rw [hcases] at hshape hnest
          have hinner : EndsAt env body (n + 1) (label + 1) addr := by
            rw [EndsAt, opensAt_push hnest]
            simpa [EndsAt] using h
          have hrest := ih (by omega) hinner (by omega)
          cases kind with
          | block | if_ | loop =>
              rw [show records _ inst = _ from hshape]
              simpa [leaveAddr] using hrest
      | end_ =>
          rw [hcases] at hshape hnest
          rw [show records _ inst = [.leaveBlock (pcOf env body n)] from hshape]
          cases label with
          | zero =>
              rcases h with ⟨k, e, hk, hcloses, rfl⟩ | ⟨hlabel, -⟩
              · have hhere : Closes (nestAt body) k n :=
                  ⟨hnest, by rw [List.head?_eq_getElem?]; exact hk⟩
                rw [hcloses.unique hhere]
                rfl
              · have hlength := frames_length hok (by omega : n ≤ body.length)
                obtain rfl : inst = .end_ := by cases inst <;> first | rfl | cases hcases
                obtain ⟨frame, hend⟩ := parseEnd_layout hinst
                rw [hend.frames, ← hlabel] at hlength
                cases hlength
          | succ label =>
              have houter : EndsAt env body (n + 1) label addr := by
                rw [EndsAt, opensAt_pop hnest]
                rcases h with ⟨k, e, hk, hcloses, haddr⟩ | ⟨hlabel, haddr⟩
                · exact .inl ⟨k, e, by rw [List.getElem?_tail]; exact hk, hcloses, haddr⟩
                · exact .inr ⟨by rw [List.length_tail, ← hlabel]; rfl, haddr⟩
              simpa [leaveAddr] using ih (by omega) houter (by omega)

theorem pcOf_le_final (hok : parseCode env body = .ok final) {n : Nat} (hle : n ≤ body.length) :
    pcOf env body n ≤ final.instr.length := by
  obtain ⟨slots, hinstr⟩ := (final_split hok).1
  have hmono := pcOf_mono hok hle (Nat.le_refl body.length)
  rw [hinstr, List.length_append]
  exact Nat.le_trans hmono (Nat.le_add_right _ _)

theorem record_sorted (hok : parseCode env body = .ok final) {n : Nat} (hle : n ≤ body.length) :
    ((stateAt env body n).jumpResolver.filterMap JumpResolverDSL.slot).Pairwise (· < ·) := by
  induction n with
  | zero => exact List.Pairwise.nil
  | succ n ih =>
      obtain ⟨inst, hget, hinst⟩ := exists_step hok (by omega : n < body.length)
      rw [stateAt_records hok hget, List.filterMap_append, records_slots, List.pairwise_append]
      refine ⟨ih (by omega), jumpsOf_sorted _ _, ?_⟩
      intro earlier hearlier slot hslot
      obtain ⟨dsl, hdsl, hearlier⟩ := List.mem_filterMap.mp hearlier
      obtain ⟨⟨slot', label⟩, hmem, rfl⟩ := List.mem_map.mp hslot
      have hlow := (stateAt_bounded hok (by omega : n ≤ body.length)).dsls dsl hdsl earlier hearlier
      have hhigh := (parseInst_slots hinst hmem).1
      dsimp only
      omega

theorem final_sorted (hok : parseCode env body = .ok final) :
    (final.jumpResolver.filterMap JumpResolverDSL.slot).Pairwise (· < ·) := by
  have hlast : [JumpResolverDSL.leaveBlock (pcOf env body body.length)].filterMap
      JumpResolverDSL.slot = [] := rfl
  rw [(final_split hok).2, List.filterMap_append, hlast, List.append_nil]
  exact record_sorted hok (Nat.le_refl _)

theorem jump_of_record (hok : parseCode env body = .ok final) {dsl : JumpResolverDSL} {slot : Nat}
    (hdsl : dsl ∈ final.jumpResolver) (hslot : dsl.slot = some slot) :
    ∃ n inst label, body[n]? = some inst ∧
      (slot, label) ∈ jumpsOf (stateAt env body n) inst := by
  have hearlier : ∀ n ≤ body.length, dsl ∈ (stateAt env body n).jumpResolver →
      ∃ n inst label, body[n]? = some inst ∧
        (slot, label) ∈ jumpsOf (stateAt env body n) inst := by
    intro n
    induction n with
    | zero =>
        intro _ hmem
        obtain rfl := List.mem_singleton.mp hmem
        cases hslot
    | succ n ih =>
        intro hle hmem
        obtain ⟨inst, hget, hinst⟩ := exists_step hok (by omega : n < body.length)
        rw [stateAt_records hok hget] at hmem
        rcases List.mem_append.mp hmem with hmem | hmem
        · exact ih (by omega) hmem
        · have hslots : slot ∈ (records (stateAt env body n) inst).filterMap
              JumpResolverDSL.slot := List.mem_filterMap.mpr ⟨dsl, hmem, hslot⟩
          rw [records_slots] at hslots
          obtain ⟨⟨slot', label⟩, hjump, rfl⟩ := List.mem_map.mp hslots
          exact ⟨n, inst, label, hget, hjump⟩
  rw [(final_split hok).2] at hdsl
  rcases List.mem_append.mp hdsl with hmem | hmem
  · exact hearlier body.length (Nat.le_refl _) hmem
  · obtain rfl := List.mem_singleton.mp hmem
    cases hslot

/-- The address the resolver holds for an open block: that of a loop. -/
def loopAddr (env : Env) (body : List Inst) (k : Nat) : Option Nat :=
  match body[k]? with
  | some (.loop _) => some (asU32 (pcOf env body k))
  | _ => none

private theorem records_valid (hok : parseCode env body = .ok final) {n length : Nat}
    {inst : Inst} (hn : body[n]? = some inst) (hlength : final.instr.length ≤ length) :
    ∀ dsl ∈ (records (stateAt env body n) inst).map JumpResolverDSL.stored, dsl.slot.isSome →
      Valid ((opensAt (nestAt body) n).length + 1) length dsl := by
  have hlt := (List.getElem?_eq_some_iff.mp hn).1
  have hinst := stateAt_step hok hn
  intro dsl hdsl hslot
  obtain ⟨plain, hplain, rfl⟩ := List.mem_map.mp hdsl
  obtain ⟨slot, label, hplainJump, hjump⟩ := mem_records hplain (by cases plain <;> first
    | rfl
    | cases hslot)
  have hlabel := parseInst_labels hinst (stateAt_framesMatch hok (Nat.le_of_lt hlt)) hjump
  rw [frames_length hok (Nat.le_of_lt hlt)] at hlabel
  have hbound : slot < pcOf env body (n + 1) := (parseInst_slots hinst hjump).2
  have hcode := pcOf_le_final (n := n + 1) hok hlt
  have hmod : asU32 slot ≤ slot := Nat.mod_le _ _
  cases plain with
  | br id slot' =>
      obtain ⟨rfl, rfl⟩ := Prod.mk.inj (Option.some.inj hplainJump)
      exact ⟨by omega, by omega⟩
  | return_ slot' =>
      obtain ⟨rfl, -⟩ := Prod.mk.inj (Option.some.inj hplainJump)
      exact ⟨by omega, by omega⟩
  | _ => cases hslot

/-- Up to any instruction the record runs, and the resolver holds the open blocks. -/
theorem run_at (hok : parseCode env body = .ok final) {program : List Instr}
    (hlength : final.instr.length ≤ program.length) {n : Nat} (hle : n ≤ body.length) :
    ∃ r, (JumpResolver.mk [] program).run ((stateAt env body n).jumpResolver.map .stored) = some r ∧
      r.Inside ∧ r.addrs = (opensAt (nestAt body) n).map (loopAddr env body) ++ [none] := by
  induction n with
  | zero =>
      refine ⟨⟨[.lazy []], program⟩, rfl, ?_, rfl⟩
      intro state hstate slot hslot
      obtain rfl := List.mem_singleton.mp hstate
      cases hslot
  | succ n ih =>
      obtain ⟨inst, hget, hinst⟩ := exists_step hok (by omega : n < body.length)
      obtain ⟨r, hrun, hinside, haddrs⟩ := ih (by omega)
      obtain ⟨dsls, hdsls, hshape⟩ := (parseInst_extends hinst).2
      obtain rfl := List.append_cancel_left (hdsls.symm.trans (stateAt_records hok hget))
      have hblock : r.block.length = (opensAt (nestAt body) n).length + 1 := by
        rw [← addrs_length, haddrs]
        simp
      have hprogram : r.program.length = program.length := run_length hrun
      have hnest := nestAt_eq hget
      have hvalid := records_valid hok hget hlength
      rw [stateAt_records hok hget, List.map_append]
      suffices hstep : ∃ r', r.run ((records (stateAt env body n) inst).map .stored) = some r' ∧
          r'.Inside ∧ r'.addrs =
            (opensAt (nestAt body) (n + 1)).map (loopAddr env body) ++ [none] by
        obtain ⟨r', hrun', hr'⟩ := hstep
        exact ⟨r', run_append.mpr ⟨r, hrun, hrun'⟩, hr'⟩
      have hone : ∀ dsl : JumpResolverDSL, records (stateAt env body n) inst = [dsl] →
          Valid r.block.length r.program.length dsl.stored →
          onStack JumpResolverState.addr dsl.stored r.addrs =
            (opensAt (nestAt body) (n + 1)).map (loopAddr env body) ++ [none] →
          ∃ r', r.run ((records (stateAt env body n) inst).map .stored) = some r' ∧
            r'.Inside ∧ r'.addrs =
              (opensAt (nestAt body) (n + 1)).map (loopAddr env body) ++ [none] := by
        intro dsl hdsl hdslValid hstack
        obtain ⟨r', hstep, hr'⟩ := step_ok hinside hdslValid
        refine ⟨r', ?_, hr', (step_addrs hstep).trans hstack⟩
        rw [hdsl]
        exact run_cons.mpr ⟨r', hstep, rfl⟩
      cases hcases : shape inst with
      | work | transfer | else_ =>
          rw [hcases] at hshape hnest
          have hjumps : ∀ dsl ∈ (records (stateAt env body n) inst).map JumpResolverDSL.stored,
              dsl.slot.isSome := by
            intro dsl hdsl
            obtain ⟨plain, hplain, rfl⟩ := List.mem_map.mp hdsl
            have hslot := hshape plain hplain
            cases plain <;> first | rfl | cases hslot
          obtain ⟨r', hrun', hr', haddrs'⟩ := run_jumps_ok hinside hjumps (by
            intro dsl hdsl
            rw [hblock, hprogram]
            exact hvalid dsl hdsl (hjumps dsl hdsl))
          exact ⟨r', hrun', hr', by rw [haddrs', haddrs, opensAt_keep hnest]⟩
      | enter kind blocktype =>
          rw [hcases] at hnest
          cases inst <;> cases hcases
          case enter.block.refl =>
              apply hone _ rfl trivial
              rw [haddrs, opensAt_push hnest]
              simp [onStack, JumpResolverDSL.stored, JumpResolverState.addr, loopAddr, hget]
          case enter.loop.refl =>
              apply hone _ rfl trivial
              rw [haddrs, opensAt_push hnest]
              simp [onStack, JumpResolverDSL.stored, JumpResolverState.addr, loopAddr, hget, pcOf]
          case enter.if_.refl =>
              apply hone _ rfl trivial
              rw [haddrs, opensAt_push hnest]
              simp [onStack, JumpResolverDSL.stored, JumpResolverState.addr, loopAddr, hget]
      | end_ =>
          rw [hcases] at hnest
          obtain rfl : inst = .end_ := by cases inst <;> first | rfl | cases hcases
          obtain ⟨frame, hend⟩ := parseEnd_layout hinst
          have hopens := frames_length hok (by omega : n ≤ body.length)
          rw [hend.frames] at hopens
          apply hone _ rfl (by change 0 < r.block.length; omega)
          rw [haddrs, opensAt_pop hnest]
          cases hlist : opensAt (nestAt body) n with
          | nil =>
              rw [hlist] at hopens
              cases hopens
          | cons k ks => rfl

end Accepted

end Telomere.Parser
