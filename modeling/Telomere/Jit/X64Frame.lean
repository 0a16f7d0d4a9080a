import Telomere.Jit.X64
import Telomere.Lib.Except

/-!
# The frame on x86-64

The prologue sets the frame up, the operations only write slots and registers that a callee may
change, and the epilogue finds what the prologue saved.
-/

namespace Telomere.Jit.X64

open Lib (Word Bytes Item Block)
open Lib.Bytes (place load store)

variable {O : Type} {cpu : Cpu O}

/-- The frame is where it was when the operations began, with what was saved above the slots. -/
structure Kept (s₁ s : State O) : Prop where
  rbp_eq : s.regs rbp = s₁.regs rbp
  rsp_eq : s.regs rsp = s₁.regs rsp
  saved : ∀ i : Int, 0 ≤ i → i < 16 →
    s.mem (place (s₁.regs rbp) i) = s₁.mem (place (s₁.regs rbp) i)

def Free (reg : Reg) : Prop := reg ≠ rsp ∧ reg ≠ rbp

instance (reg : Reg) : Decidable (Free reg) := inferInstanceAs (Decidable (_ ∧ _))

@[simp] theorem rax_free : Free rax := by decide

@[simp] theorem rcx_free : Free rcx := by decide

@[simp] theorem rdx_free : Free rdx := by decide

@[simp] theorem rsi_free : Free rsi := by decide

@[simp] theorem rdi_free : Free rdi := by decide

@[simp] theorem r8_free : Free r8 := by decide

@[simp] theorem r9_free : Free r9 := by decide

@[simp] theorem r11_free : Free r11 := by decide

/-- An instruction that writes neither the frame's registers nor what was saved. -/
def Insn.Tame : Insn → Prop
  | .movStore n base disp _ => base = rbp → -frameSize ≤ disp ∧ disp + n ≤ 0
  | .storeXmm _ disp => -frameSize ≤ disp ∧ disp + 8 ≤ 0
  | .movLoad _ dst _ _ | .movReg dst _ => Free dst
  | .push _ | .pop _ | .subRsp _ => False
  | .call _ => True
  | i => ∀ reg ∈ i.writes, Free reg

theorem Kept.refl (s : State O) : Kept s s := ⟨rfl, rfl, fun _ _ _ => rfl⟩

theorem Kept.set {s₁ s : State O} (h : Kept s₁ s) {reg : Reg} {value : Word}
    (hreg : Free reg) : Kept s₁ (s.set reg value) where
  rbp_eq := (if_neg hreg.2.symm).trans h.rbp_eq
  rsp_eq := (if_neg hreg.1.symm).trans h.rsp_eq
  saved := h.saved

theorem Kept.compute {s₁ s : State O} (h : Kept s₁ s) {writes : List Reg} {result : Reg → Word}
    {other : O} (hwrites : ∀ reg ∈ writes, Free reg) :
    Kept s₁ ⟨fun r => if r ∈ writes then result r else s.regs r, s.mem, other⟩ where
  rbp_eq := (if_neg fun hmem => (hwrites rbp hmem).2 rfl).trans h.rbp_eq
  rsp_eq := (if_neg fun hmem => (hwrites rsp hmem).1 rfl).trans h.rsp_eq
  saved := h.saved

theorem Kept.storeFrame {s₁ s : State O} (h : Kept s₁ s) {n : Nat} {disp : Int} {value : Word}
    (hdisp : -frameSize ≤ disp ∧ disp + n ≤ 0) :
    Kept s₁ { s with mem := store s.mem (place (s.regs rbp) disp) n value } where
  rbp_eq := h.rbp_eq
  rsp_eq := h.rsp_eq
  saved := by
    intro i hlow hhigh
    unfold frameSize at hdisp
    rw [h.rbp_eq, ← h.saved i hlow hhigh]
    apply Lib.Bytes.store_place_of_ne <;> omega

theorem Kept.storeApart {s₁ s : State O} (h : Kept s₁ s) {n : Nat} {a value : Word}
    (hapart : Apart s a n) : Kept s₁ { s with mem := store s.mem a n value } where
  rbp_eq := h.rbp_eq
  rsp_eq := h.rsp_eq
  saved := by
    intro i hlow hhigh
    have hout := hapart i (by unfold frameSize; omega) hhigh
    rw [h.rbp_eq] at hout
    rw [← h.saved i hlow hhigh]
    exact if_neg (by omega)

theorem Kept.returns {s₁ s t : State O} (h : Kept s₁ s) (hreturns : Returns s t) : Kept s₁ t where
  rbp_eq := (hreturns.saved rbp (by decide)).trans h.rbp_eq
  rsp_eq := (hreturns.saved rsp (by decide)).trans h.rsp_eq
  saved := by
    intro i hlow hhigh
    have hframe := hreturns.frame i (by unfold vregs slotSize; omega) hhigh
    rw [h.rbp_eq] at hframe
    rw [hframe, h.saved i hlow hhigh]

theorem Exec.kept {i : Insn} (htame : i.Tame) {s₁ s t : State O} (hapart : StoresApart i s)
    (h : Kept s₁ s) (hexec : Exec cpu i s t) : Kept s₁ t := by
  obtain ⟨-, heffect⟩ := hexec
  cases i with
  | movLoad wide dst base disp =>
      rw [heffect]
      exact h.set htame
  | movReg dst src =>
      rw [heffect]
      exact h.set htame
  | movStore n base disp src =>
      rw [heffect]
      by_cases hbase : base = rbp
      · rw [hbase]
        exact h.storeFrame (htame hbase)
      · exact h.storeApart (hapart hbase)
  | storeXmm f64 disp =>
      rw [heffect]
      apply h.storeFrame
      refine ⟨htame.1, ?_⟩
      have hend := htame.2
      split <;> omega
  | call reg => exact h.returns heffect
  | push reg => exact htame.elim
  | pop reg => exact htame.elim
  | subRsp imm => exact htame.elim
  | _ =>
      rw [heffect]
      exact h.compute htame

def TameCode (block : Code) : Prop := ∀ i, .insn i ∈ block → i.Tame

@[simp] theorem tameCode_insns (is : List Insn) : TameCode (insns is) ↔ ∀ i ∈ is, i.Tame := by
  simp [TameCode, insns]

@[simp] theorem tameCode_nil : TameCode [] ↔ True := by simp [TameCode]

@[simp] theorem tameCode_append (a b : Code) : TameCode (a ++ b) ↔ TameCode a ∧ TameCode b := by
  simp only [TameCode, List.mem_append, or_imp, forall_and]

@[simp] theorem tameCode_jump (cond : Option Cond) (place : Nat) (rest : Code) :
    TameCode (.jump cond place :: rest) ↔ TameCode rest := by simp [TameCode]

@[simp] theorem tameCode_leave (cond : Option Cond) (block : Nat) (rest : Code) :
    TameCode (.leave cond block :: rest) ↔ TameCode rest := by simp [TameCode]

theorem slotDisp_range (slot : VReg) : -frameSize + 16 ≤ slotDisp slot ∧ slotDisp slot + 8 ≤ 0 := by
  have hslot := slot.isLt
  unfold slotDisp slotSize frameSize
  omega

@[simp] theorem loadSlot_tame (width : Width) (dst : Reg) (slot : VReg) :
    (loadSlot width dst slot).Tame ↔ Free dst := by
  cases width <;> rfl

@[simp] theorem loadSlot64_tame (dst : Reg) (slot : VReg) :
    (loadSlot64 dst slot).Tame ↔ Free dst := Iff.rfl

@[simp] theorem loadSlot32_tame (dst : Reg) (slot : VReg) :
    (loadSlot32 dst slot).Tame ↔ Free dst := Iff.rfl

@[simp] theorem storeSlot64_tame (slot : VReg) (src : Reg) : (storeSlot64 slot src).Tame := by
  intro _
  have hrange := slotDisp_range slot
  omega

@[simp] theorem storeSlot32_tame (slot : VReg) (src : Reg) : (storeSlot32 slot src).Tame :=
  storeSlot64_tame slot src

@[simp] theorem storeSlot_tame (width : Width) (slot : VReg) (src : Reg) :
    (storeSlot width slot src).Tame := by
  cases width <;> exact storeSlot64_tame slot src

@[simp] theorem storeXmm_tame (f64 : Bool) (slot : VReg) :
    (Insn.storeXmm f64 (slotDisp slot)).Tame := by
  have hrange := slotDisp_range slot
  constructor <;> omega

section computing

variable (wide f64 : Bool) (opcode subop shift mode : Nat) (disp : Int)

@[simp] theorem movImm_tame (reg : Reg) (value : Word) :
    (Insn.movImm wide reg value).Tame ↔ Free reg := List.forall_mem_singleton

@[simp] theorem movReg_tame (dst src : Reg) : (Insn.movReg dst src).Tame ↔ Free dst := Iff.rfl

@[simp] theorem movLoad_tame (dst base : Reg) :
    (Insn.movLoad wide dst base disp).Tame ↔ Free dst := Iff.rfl

@[simp] theorem alu_tame (dst src : Reg) : (Insn.alu opcode wide dst src).Tame ↔ Free dst :=
  List.forall_mem_singleton

theorem mem_writes_aluImm {reg other : Reg} {imm : BitVec 32}
    (hmem : other ∈ (Insn.aluImm subop wide reg imm).writes) : other = reg := by
  by_cases hcmp : subop = 7
  · rw [show (Insn.aluImm subop wide reg imm).writes = [] from if_pos hcmp] at hmem
    cases hmem
  · rw [show (Insn.aluImm subop wide reg imm).writes = [reg] from if_neg hcmp] at hmem
    exact List.mem_singleton.mp hmem

@[simp] theorem aluImm_tame {reg : Reg} (hreg : Free reg) (imm : BitVec 32) :
    (Insn.aluImm subop wide reg imm).Tame := by
  intro other hmem
  rwa [mem_writes_aluImm _ _ hmem]

@[simp] theorem modrmReg_tame {rm : Reg} (hrm : Free rm) :
    (Insn.modrmReg opcode subop wide rm).Tame := by
  intro other hmem
  by_cases hdiv : opcode = 0xf7 ∧ (subop = 6 ∨ subop = 7)
  · rw [show (Insn.modrmReg opcode subop wide rm).writes = [rax, rdx] from if_pos hdiv] at hmem
    rcases List.mem_pair.mp hmem with rfl | rfl
    · exact rax_free
    · exact rdx_free
  · rw [show (Insn.modrmReg opcode subop wide rm).writes = [rm] from if_neg hdiv] at hmem
    rwa [List.mem_singleton.mp hmem]

@[simp] theorem shiftImm_tame (reg : Reg) :
    (Insn.shiftImm subop wide reg shift).Tame ↔ Free reg := List.forall_mem_singleton

@[simp] theorem imulSlot_tame (dst : Reg) : (Insn.imulSlot wide dst disp).Tame ↔ Free dst :=
  List.forall_mem_singleton

@[simp] theorem movExtend_tame (dst base : Reg) :
    (Insn.movExtend opcode dst base).Tame ↔ Free dst := List.forall_mem_singleton

@[simp] theorem cmov_tame (cond : Cond) (dst src : Reg) :
    (Insn.cmov cond dst src).Tame ↔ Free dst := List.forall_mem_singleton

@[simp] theorem setcc_tame (dst : Reg) : (Insn.setcc opcode dst).Tame ↔ Free dst :=
  List.forall_mem_singleton

@[simp] theorem aluBytes_tame (dst src : Reg) :
    (Insn.aluBytes opcode dst src).Tame ↔ Free dst := List.forall_mem_singleton

@[simp] theorem movsxSlot_tame : (Insn.movsxSlot opcode disp).Tame :=
  List.forall_mem_singleton.mpr rax_free

@[simp] theorem movsxdSlot_tame : (Insn.movsxdSlot disp).Tame :=
  List.forall_mem_singleton.mpr rax_free

@[simp] theorem movzxAl_tame : Insn.movzxAl.Tame := List.forall_mem_singleton.mpr rax_free

@[simp] theorem bitScan_tame : (Insn.bitScan opcode wide).Tame :=
  List.forall_mem_singleton.mpr rax_free

@[simp] theorem cvtts2si_tame : (Insn.cvtts2si f64 wide disp).Tame :=
  List.forall_mem_singleton.mpr rax_free

@[simp] theorem zeroRdx_tame : (Insn.zeroRdx wide).Tame := List.forall_mem_singleton.mpr rdx_free

@[simp] theorem signRdx_tame : (Insn.signRdx wide).Tame := List.forall_mem_singleton.mpr rdx_free

@[simp] theorem cmpSlot_tame (lhs : Reg) : (Insn.cmpSlot wide lhs disp).Tame :=
  List.forall_mem_nil _

@[simp] theorem test_tame (lhs rhs : Reg) : (Insn.test wide lhs rhs).Tame := List.forall_mem_nil _

@[simp] theorem loadXmm_tame : (Insn.loadXmm f64 disp).Tame := List.forall_mem_nil _

@[simp] theorem sse_tame : (Insn.sse f64 opcode disp).Tame := List.forall_mem_nil _

@[simp] theorem ucomis_tame : (Insn.ucomis f64 disp).Tame := List.forall_mem_nil _

@[simp] theorem round_tame : (Insn.round f64 disp mode).Tame := List.forall_mem_nil _

@[simp] theorem cvtsi2s_tame : (Insn.cvtsi2s f64).Tame := List.forall_mem_nil _

@[simp] theorem addXmm_tame : (Insn.addXmm f64).Tame := List.forall_mem_nil _

@[simp] theorem cvtXmm_tame : (Insn.cvtXmm f64).Tame := List.forall_mem_nil _

@[simp] theorem call_tame (reg : Reg) : (Insn.call reg).Tame := trivial

@[simp] theorem movStore_tame {base : Reg} (hbase : Free base) (bytes : Nat) (src : Reg) :
    (Insn.movStore bytes base disp src).Tame := fun h => absurd h hbase.2

end computing

theorem storeFrameDisp64_tame {disp : Int} (hdisp : -frameSize ≤ disp ∧ disp + 8 ≤ 0) (src : Reg) :
    (storeFrameDisp64 disp src).Tame := fun _ => hdisp

@[simp] theorem extraArg6_tame (src : Reg) : (storeFrameDisp64 extraArg6 src).Tame :=
  storeFrameDisp64_tame (by decide) src

@[simp] theorem extraArg7_tame (src : Reg) : (storeFrameDisp64 extraArg7 src).Tame :=
  storeFrameDisp64_tame (by decide) src

@[simp] theorem tame_append (is js : List Insn) :
    (∀ i ∈ is ++ js, i.Tame) ↔ (∀ i ∈ is, i.Tame) ∧ ∀ i ∈ js, i.Tame := List.forall_mem_append

theorem shiftImm_list_tame (width : Width) (rd rn : VReg) (subop shift : Nat) :
    ∀ i ∈ shiftImm width rd rn subop shift, i.Tame := by
  simp [shiftImm]

theorem expect_eq_ok {α : Type} {result : Except AsmError α} {a : α}
    (h : expect result = .ok a) : result = .ok a := by
  cases result with
  | ok b => exact h
  | error _ => cases h

theorem lslXImm_tame {rd rn : VReg} {shift : Nat} {is : List Insn}
    (hok : lslXImm rd rn shift = .ok is) : ∀ i ∈ is, i.Tame := by
  unfold lslXImm at hok
  split at hok
  · cases hok
  · cases hok
    exact shiftImm_list_tame _ _ _ _ _

theorem lsrXImm_tame {rd rn : VReg} {shift : Nat} {is : List Insn}
    (hok : lsrXImm rd rn shift = .ok is) : ∀ i ∈ is, i.Tame := by
  unfold lsrXImm at hok
  split at hok
  · cases hok
  · cases hok
    exact shiftImm_list_tame _ _ _ _ _

theorem ubfm_tame {width : Width} {rd rn : VReg} {immr imms : Nat} {is : List Insn}
    (hok : ubfm width rd rn immr imms = .ok is) : ∀ i ∈ is, i.Tame := by
  cases width with
  | w32 =>
      by_cases hmask : immr = 0
      · simp only [ubfm, hmask, if_true] at hok
        cases hok
        simp
      · simp only [ubfm, hmask, if_false] at hok
        cases hok
        exact shiftImm_list_tame _ _ _ _ _
  | x64 =>
      by_cases hmask : immr = 0
      · simp only [ubfm, hmask, if_true] at hok
        cases hok
        split <;> simp
      · simp only [ubfm, hmask, if_false] at hok
        exact lsrXImm_tame (expect_eq_ok hok)

theorem sbfm_tame {width : Width} {rd rn : VReg} {immr imms : Nat} {is : List Insn}
    (hok : sbfm width rd rn immr imms = .ok is) : ∀ i ∈ is, i.Tame := by
  cases width with
  | w32 =>
      simp only [sbfm] at hok
      split at hok
      · cases hok
        simp [lslWImm, asrWImm, shiftImm]
      · cases hok
        exact shiftImm_list_tame _ _ _ _ _
  | x64 =>
      simp only [sbfm] at hok
      split at hok
      · obtain ⟨left, hleft, hrest⟩ := Lib.bind_eq_ok.mp hok
        cases hrest
        exact (tame_append _ _).mpr
          ⟨lslXImm_tame (expect_eq_ok hleft), shiftImm_list_tame _ _ _ _ _⟩
      · cases hok
        exact shiftImm_list_tame _ _ _ _ _

theorem round_code_tame {sse41 : Bool} {mode : Rounding} {width : FloatWidth} {vd vn : VReg}
    {is : List Insn} (hok : round sse41 mode width vd vn = .ok is) : ∀ i ∈ is, i.Tame := by
  unfold round at hok
  split at hok
  · cases hok
    simp
  · cases hok

theorem floatCset_tame {rd lhs rhs : VReg} {cond : Cond} {width : FloatWidth} {is : List Insn}
    (hok : floatCset rd cond width lhs rhs = .ok is) : ∀ i ∈ is, i.Tame := by
  cases cond <;> cases hok <;> simp

theorem csetW_tame {rd : VReg} {cond : Cond} {lastCmp : Option LastCmp} {is : List Insn}
    (hok : csetW rd cond lastCmp = .ok is) : ∀ i ∈ is, i.Tame := by
  unfold csetW at hok
  split at hok
  · exact floatCset_tame (expect_eq_ok hok)
  · cases hok
    simp

theorem ldrImm_tame {width : Width} {rt rn : VReg} {offset : Nat} {is : List Insn}
    (hok : ldrImm width rt rn offset = .ok is) : ∀ i ∈ is, i.Tame := by
  obtain ⟨disp, -, hrest⟩ := Lib.bind_eq_ok.mp hok
  cases hrest
  simp

theorem strImm_tame {width : Width} {rt rn : VReg} {offset : Nat} {is : List Insn}
    (hok : strImm width rt rn offset = .ok is) : ∀ i ∈ is, i.Tame := by
  obtain ⟨disp, -, hrest⟩ := Lib.bind_eq_ok.mp hok
  cases hrest
  simp

theorem countZeros_tame (width : Width) (rd rn : VReg) (scan : Nat) {flip : List Insn}
    (hflip : ∀ i ∈ flip, i.Tame) : TameCode (countZeros width rd rn scan flip) := by
  simp only [countZeros, tameCode_append, tameCode_jump, tameCode_insns, List.forall_mem_cons]
  simpa using hflip

theorem cvtIntToFloat_tame (dst : FloatWidth) (source : Width) (vd rn : VReg) (signed : Bool) :
    TameCode (cvtIntToFloat dst source vd rn signed) := by
  cases source <;> cases signed <;> simp [cvtIntToFloat, cvtU64RegToFloat]

theorem insns_tame {result : Except AsmError (List Insn)} {block : Code}
    (htame : ∀ is, result = .ok is → ∀ i ∈ is, i.Tame)
    (hok : (do return insns (← result)) = Except.ok block) : TameCode block := by
  obtain ⟨is, his, hrest⟩ := Lib.bind_eq_ok.mp hok
  cases hrest
  exact (tameCode_insns is).mpr (htame is his)

theorem code_tame {sse41 : Bool} {pending : Pending} {op : MasmOp} {block : Code}
    (hok : code sse41 pending op = .ok block) : TameCode block := by
  cases op with
  | branch target => cases hok; simp
  | branchCond cond target => cases hok; simp
  | cbnz width reg target => cases hok; simp [cbnz]
  | blrX rn => cases hok; simp [blrX, passArguments, takeResults]
  | movXFromSp rd => cases hok; simp
  | mov width rd rn => cases hok; simp
  | movImmU32 rd value => cases hok; simp
  | movImmU64 rd value => cases hok; simp
  | addImmU32 rd rn imm => cases hok; simp
  | addImmU64 rd rn imm =>
      cases hok
      rw [tameCode_insns]
      unfold addImmU64
      split <;> simp
  | subImmU32 rd rn imm => cases hok; simp
  | binary op width rd rn rm =>
      cases hok
      cases op <;> simp [binary, binop, mul, udiv, sdiv, shiftVar]
  | msub width rd rn rm ra => cases hok; simp
  | neg width rd rm => cases hok; simp
  | rbit width rd rn => cases hok; simp
  | clz width rd rn =>
      cases hok
      split
      · exact countZeros_tame _ _ _ _ (List.forall_mem_nil _)
      · exact countZeros_tame _ _ _ _ (by simp)
  | sxthW rd rn => cases hok; simp
  | sxtbW rd rn => cases hok; simp
  | cmp width rn rm => cases hok; simp
  | cmpWImm rn imm => cases hok; simp
  | csetW rd cond => exact insns_tame (fun _ => csetW_tame) hok
  | cselW rd rn rm cond => cases hok; simp
  | fmov width rd rn => cases width <;> cases hok <;> simp
  | fcmp width vn vm => cases hok; simp
  | floatBinary op width vd vn vm => cases hok; cases op <;> simp [floatBinary, floatBinop]
  | fabs width vd vn => cases hok; cases width <;> simp [fabs]
  | fneg width vd vn => cases hok; cases width <;> simp [fneg]
  | fsqrt width vd vn => cases hok; simp [floatUnop]
  | frint mode width vd vn => exact insns_tame (fun _ => round_code_tame) hok
  | cvtf dst source vd rn signed => cases hok; exact cvtIntToFloat_tame _ _ _ _ _
  | fcvtSFromD vd vn => cases hok; simp
  | fcvtDFromS vd vn => cases hok; simp
  | fcvtW source rd vn signed => cases hok; simp
  | lslWImm rd rn shift => cases hok; simp [lslWImm, shiftImm]
  | lsrWImm rd rn shift => cases hok; simp [lsrWImm, shiftImm]
  | asrWImm rd rn shift => cases hok; simp [asrWImm, shiftImm]
  | ubfm width rd rn immr imms => exact insns_tame (fun _ => ubfm_tame) hok
  | sbfm width rd rn immr imms => exact insns_tame (fun _ => sbfm_tame) hok
  | lslXImm rd rn shift => exact insns_tame (fun _ => lslXImm_tame) hok
  | lsrXImm rd rn shift => exact insns_tame (fun _ => lsrXImm_tame) hok
  | ldrImm width rt rn offset => exact insns_tame (fun _ => ldrImm_tame) hok
  | load kind rt rn => cases hok; cases kind <;> simp [loadMemExtend]
  | store kind rt rn => cases hok; simp [storeMemWidth]
  | strImm width rt rn offset => exact insns_tame (fun _ => strImm_tame) hok

theorem emitAll_tame {sse41 : Bool} {pending : Pending} {ops : List MasmOp} {blocks : List Code}
    (hok : emitAll sse41 pending ops = .ok blocks) : ∀ block ∈ blocks, TameCode block := by
  induction ops generalizing pending blocks with
  | nil =>
      cases hok
      exact List.forall_mem_nil _
  | cons op ops ih =>
      obtain ⟨block, hblock, hrest⟩ := Lib.bind_eq_ok.mp hok
      obtain ⟨rest, hops, heq⟩ := Lib.bind_eq_ok.mp hrest
      cases heq
      exact List.forall_mem_cons.mpr ⟨code_tame hblock, ih hops⟩

theorem Reaches.kept {blocks : List Code} (htame : ∀ block ∈ blocks, TameCode block)
    {n last : Nat} {s₁ s : State O} (hrun : (machine cpu).Reaches blocks n s₁ last s) :
    Kept s₁ s := by
  apply hrun.keeps _ (Kept.refl s₁)
  intro block hblock i hi _ _ hkept hexec
  exact hexec.2.kept (htame block hblock i hi) hexec.1 hkept

theorem Chain.kept {is : List Insn} (htame : ∀ i ∈ is, i.Tame) {s₁ s t : State O}
    (h : Kept s₁ s) (hrun : (machine cpu).Chain is s t) : Kept s₁ t := by
  induction hrun with
  | nil => exact h
  | cons hexec _ ih =>
      rw [List.forall_mem_cons] at htame
      exact ih htame.2 (hexec.2.kept htame.1 hexec.1 h)

structure Entered (s₀ s : State O) : Prop where
  rbp_eq : s.regs rbp = place (s₀.regs rsp) (-8)
  rsp_eq : s.regs rsp = place (s.regs rbp) (-frameSize)
  saved_rbp : load s.mem (s.regs rbp) 8 = s₀.regs rbp
  return_eq : load s.mem (place (s.regs rbp) 8) 8 = load s₀.mem (s₀.regs rsp) 8

theorem Entered.kept {s₀ s₁ s : State O} (h : Entered s₀ s₁) (hkept : Kept s₁ s) :
    Entered s₀ s where
  rbp_eq := hkept.rbp_eq.trans h.rbp_eq
  rsp_eq := by rw [hkept.rsp_eq, hkept.rbp_eq, h.rsp_eq]
  saved_rbp := by
    rw [hkept.rbp_eq, ← h.saved_rbp, ← Lib.Bytes.place_zero (s₁.regs rbp)]
    apply Lib.Bytes.load_place_congr (Nat.le_refl 8)
    intro k hk
    exact hkept.saved _ (by omega) (by omega)
  return_eq := by
    rw [hkept.rbp_eq, ← h.return_eq]
    apply Lib.Bytes.load_place_congr (Nat.le_refl 8)
    intro k hk
    exact hkept.saved _ (by omega) (by omega)

theorem setUp_entered {s₀ s : State O}
    (hrun : (machine cpu).Chain [.push rbp, .movReg rbp rsp, .subRsp frameSize] s₀ s) :
    Entered s₀ s := by
  obtain ⟨s₁, ⟨-, -, rfl⟩, hrun⟩ := Lib.Machine.Chain.cons_iff.mp hrun
  obtain ⟨s₂, ⟨-, -, rfl⟩, hrun⟩ := Lib.Machine.Chain.cons_iff.mp hrun
  obtain ⟨s₃, ⟨-, -, rfl⟩, hrun⟩ := Lib.Machine.Chain.cons_iff.mp hrun
  rw [Lib.Machine.Chain.nil_iff.mp hrun]
  refine ⟨?_, ?_, ?_, ?_⟩
  · simp [State.set, rsp, rbp]
  · simp [State.set, rsp, rbp]
  · simpa [State.set, rsp, rbp] using Lib.Bytes.load_store _ _ _
  · have hkept := Lib.Bytes.load_store_of_ne s₀.mem (s₀.regs rsp) (s₀.regs rbp) (i := 0)
      (j := -8) (n := 8) (by omega) (by omega) (by omega)
    rw [Lib.Bytes.place_zero] at hkept
    simpa [State.set, rsp, rbp] using hkept

theorem argumentStores_tame :
    ∀ i ∈ (List.finRange 8).map fun slot =>
      storeSlot64 (slot.castLE (by decide)) (argumentRegs.get slot), i.Tame := by
  intro i hi
  obtain ⟨slot, -, rfl⟩ := List.mem_map.mp hi
  exact storeSlot64_tame _ _

theorem stpPre_entered {s₀ s : State O} (hrun : (machine cpu).Chain stpPre s₀ s) :
    Entered s₀ s := by
  obtain ⟨s₁, hsetUp, hstores⟩ := Lib.Machine.Chain.append_iff.mp hrun
  exact (setUp_entered hsetUp).kept (Chain.kept argumentStores_tame (.refl s₁) hstores)

/-- The return registers, and the registers and the place that `ret` goes by. -/
structure Left (s t : State O) : Prop where
  rax_eq : t.regs rax = s.slot 0
  rdx_eq : t.regs rdx = s.slot 1
  rbp_eq : t.regs rbp = load s.mem (s.regs rbp) 8
  rsp_eq : t.regs rsp = place (s.regs rbp) 8
  mem_eq : t.mem = s.mem

theorem ldpPost_left {s t : State O} (hrun : (machine cpu).Chain ldpPost s t) : Left s t := by
  obtain ⟨s₁, ⟨-, -, rfl⟩, hrun⟩ := Lib.Machine.Chain.cons_iff.mp hrun
  obtain ⟨s₂, ⟨-, -, rfl⟩, hrun⟩ := Lib.Machine.Chain.cons_iff.mp hrun
  obtain ⟨s₃, ⟨-, -, rfl⟩, hrun⟩ := Lib.Machine.Chain.cons_iff.mp hrun
  obtain ⟨s₄, ⟨-, -, rfl⟩, hrun⟩ := Lib.Machine.Chain.cons_iff.mp hrun
  rw [Lib.Machine.Chain.nil_iff.mp hrun]
  constructor <;> simp [State.set, State.slot, rax, rdx, rsp, rbp]

theorem loads_chain {pairs : List (Reg × VReg)} (hbase : ∀ pair ∈ pairs, pair.1 ≠ rbp)
    (hnodup : (pairs.map Prod.fst).Nodup) {s t : State O}
    (hrun : (machine cpu).Chain (pairs.map fun pair => loadSlot64 pair.1 pair.2) s t) :
    (∀ pair ∈ pairs, t.regs pair.1 = s.slot pair.2) ∧
      (∀ reg, reg ∉ pairs.map Prod.fst → t.regs reg = s.regs reg) ∧ t.mem = s.mem := by
  induction pairs generalizing s with
  | nil =>
      rw [Lib.Machine.Chain.nil_iff.mp hrun]
      exact ⟨List.forall_mem_nil _, fun _ _ => rfl, rfl⟩
  | cons pair pairs ih =>
      obtain ⟨s', ⟨-, -, rfl⟩, hrest⟩ := Lib.Machine.Chain.cons_iff.mp hrun
      rw [List.forall_mem_cons] at hbase
      rw [List.map_cons, List.nodup_cons] at hnodup
      obtain ⟨hloads, hothers, hmem⟩ := ih hbase.2 hnodup.2 hrest
      have hslot : ∀ slot, (s.set pair.1 (s.slot pair.2)).slot slot = s.slot slot := by
        intro slot
        simp [State.slot, State.set, hbase.1.symm]
      refine ⟨List.forall_mem_cons.mpr ⟨?_, ?_⟩, ?_, hmem⟩
      · rw [hothers pair.1 hnodup.1]
        exact if_pos rfl
      · intro other hother
        exact (hloads other hother).trans (hslot other.2)
      · intro reg hreg
        rw [List.map_cons, List.mem_cons, not_or] at hreg
        rw [hothers reg hreg.2]
        exact if_neg hreg.1

theorem load_slot_store (mem : Bytes) (base value : Word) (slot : VReg) {disp : Int}
    (hdisp : disp = extraArg6 ∨ disp = extraArg7) :
    load (store mem (place base disp) 8 value) (place base (slotDisp slot)) 8 =
      load mem (place base (slotDisp slot)) 8 := by
  have hrange := slotDisp_range slot
  unfold extraArg6 extraArg7 frameSize slotSize at *
  apply Lib.Bytes.load_store_of_ne <;> omega

theorem stackArguments_chain {s t : State O}
    (hrun : (machine cpu).Chain [loadSlot64 rax 6, storeFrameDisp64 extraArg6 rax,
      loadSlot64 rax 7, storeFrameDisp64 extraArg7 rax] s t) :
    (∀ reg ≠ rax, t.regs reg = s.regs reg) ∧ (∀ slot, t.slot slot = s.slot slot) ∧
      load t.mem (place (s.regs rbp) extraArg6) 8 = s.slot 6 ∧
        load t.mem (place (s.regs rbp) extraArg7) 8 = s.slot 7 := by
  obtain ⟨s₁, ⟨-, -, rfl⟩, hrun⟩ := Lib.Machine.Chain.cons_iff.mp hrun
  obtain ⟨s₂, ⟨-, -, rfl⟩, hrun⟩ := Lib.Machine.Chain.cons_iff.mp hrun
  obtain ⟨s₃, ⟨-, -, rfl⟩, hrun⟩ := Lib.Machine.Chain.cons_iff.mp hrun
  obtain ⟨s₄, ⟨-, -, rfl⟩, hrun⟩ := Lib.Machine.Chain.cons_iff.mp hrun
  rw [Lib.Machine.Chain.nil_iff.mp hrun]
  have hrbp : rbp ≠ rax := by decide
  refine ⟨?_, ?_, ?_, ?_⟩
  · intro reg hreg
    simp [State.set, hreg]
  · intro slot
    simp only [State.slot, State.set, if_neg hrbp, if_true]
    rw [load_slot_store _ _ _ _ (.inr rfl), load_slot_store _ _ _ _ (.inl rfl)]
  · simp only [State.slot, State.set, if_neg hrbp, if_true]
    rw [Lib.Bytes.load_store_of_ne _ _ _ (by decide) (by decide) (by decide),
      Lib.Bytes.load_store]
  · simp only [State.slot, State.set, if_neg hrbp, if_true]
    rw [Lib.Bytes.load_store, load_slot_store _ _ _ _ (.inl rfl)]

def registerArguments (rn : VReg) : List (Reg × VReg) :=
  [(r11, rn), (rdi, 0), (rsi, 1), (rdx, 2), (rcx, 3), (r8, 4), (r9, 5)]

theorem passArguments_eq (rn : VReg) :
    passArguments rn = (registerArguments rn).map (fun pair => loadSlot64 pair.1 pair.2) ++
      [loadSlot64 rax 6, storeFrameDisp64 extraArg6 rax, loadSlot64 rax 7,
        storeFrameDisp64 extraArg7 rax] := rfl

/-- The arguments of a call are where the callee looks for them. -/
structure Passed (rn : VReg) (s t : State O) : Prop where
  registers : ∀ pair ∈ registerArguments rn, t.regs pair.1 = s.slot pair.2
  stack₀ : load t.mem (t.regs rsp) 8 = s.slot 6
  stack₁ : load t.mem (place (t.regs rsp) 8) 8 = s.slot 7
  rbp_eq : t.regs rbp = s.regs rbp
  slot_eq : ∀ slot, t.slot slot = s.slot slot

theorem passArguments_passed {rn : VReg} {s t : State O}
    (hframe : s.regs rsp = place (s.regs rbp) (-frameSize))
    (hrun : (machine cpu).Chain (passArguments rn) s t) : Passed rn s t := by
  rw [passArguments_eq] at hrun
  obtain ⟨s', hloads, hstack⟩ := Lib.Machine.Chain.append_iff.mp hrun
  obtain ⟨hregisters, hothers, hmem⟩ :=
    loads_chain (by simp [registerArguments]; decide) (by simp [registerArguments]; decide) hloads
  obtain ⟨hkept, hslots, hsix, hseven⟩ := stackArguments_chain hstack
  have hrbp : s'.regs rbp = s.regs rbp := hothers rbp (by simp [registerArguments]; decide)
  have hrsp : s'.regs rsp = s.regs rsp := hothers rsp (by simp [registerArguments]; decide)
  have hslot : ∀ slot, s'.slot slot = s.slot slot := by
    intro slot
    simp [State.slot, hmem, hrbp]
  have hbase : t.regs rsp = place (s'.regs rbp) extraArg6 := by
    rw [hkept rsp (by decide), hrsp, hframe, hrbp]
    rfl
  constructor
  · intro pair hpair
    have hnotRax : ∀ pair ∈ registerArguments rn, pair.1 ≠ rax := by
      simp [registerArguments]
      decide
    rw [hkept pair.1 (hnotRax pair hpair), hregisters pair hpair]
  · rw [hbase, hsix, hslot]
  · rw [hbase, Lib.Bytes.place_place, ← hslot, ← hseven]
    rfl
  · exact (hkept rbp (by decide)).trans hrbp
  · intro slot
    exact (hslots slot).trans (hslot slot)

theorem takeResults_chain {s t : State O} (hrun : (machine cpu).Chain takeResults s t) :
    t.slot 0 = s.regs rax ∧ t.slot 1 = s.regs rdx ∧
      ∀ slot : VReg, 2 ≤ slot.val → t.slot slot = s.slot slot := by
  obtain ⟨s₁, ⟨-, -, rfl⟩, hrun⟩ := Lib.Machine.Chain.cons_iff.mp hrun
  obtain ⟨s₂, ⟨-, -, rfl⟩, hrun⟩ := Lib.Machine.Chain.cons_iff.mp hrun
  rw [Lib.Machine.Chain.nil_iff.mp hrun]
  refine ⟨?_, Lib.Bytes.load_store _ _ _, ?_⟩
  · simp only [State.slot]
    rw [Lib.Bytes.load_store_of_ne _ _ _ (by decide) (by decide) (by decide),
      Lib.Bytes.load_store]
  · intro slot hslot
    have hlt := slot.isLt
    have hdisp : slotDisp slot + 8 ≤ slotDisp 1 ∧ slotDisp slot + 8 ≤ slotDisp 0 := by
      unfold slotDisp slotSize
      constructor <;> simp <;> omega
    have hrange := slotDisp_range slot
    have hnear : ∀ other : VReg, -(2 ^ 31) ≤ slotDisp slot - slotDisp other ∧
        slotDisp slot - slotDisp other ≤ 2 ^ 31 := by
      intro other
      have hother := slotDisp_range other
      unfold frameSize at *
      omega
    simp only [State.slot]
    rw [Lib.Bytes.load_store_of_ne _ _ _ (.inl hdisp.1) (hnear 1) (by decide),
      Lib.Bytes.load_store_of_ne _ _ _ (.inl hdisp.2) (hnear 0) (by decide)]

end Telomere.Jit.X64
