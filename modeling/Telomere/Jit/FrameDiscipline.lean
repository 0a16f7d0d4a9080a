import Telomere.Jit.Riscv64
import Telomere.Jit.X64Frame

/-!
# The frame of native code

A function of the baseline compiler keeps what its caller saved, hands the first virtual registers
to its helpers and returns with two of them. On RISC-V the return address and the frame pointer
are saved in the places of these two virtual registers.
-/

namespace Telomere.Jit

open Lib (Word Bytes Block Machine)
open Lib.Bytes (place load store)

/-- An assembler with the machine that its code runs on, by the calling convention of the machine.
The parts of the frame are told from the frame pointer, with their sizes. -/
structure Native (I C S : Type) where
  machine : Machine I C S
  emit : List MasmOp → Except AsmError (List (Block I C))
  prologue : List I
  epilogue : List I
  passArguments : VReg → List I
  call : I
  takeResults : List I
  returnAddress : S → Word
  stackPointer : S → Word
  framePointer : S → Word
  callTarget : S → Word
  argument : S → Fin 8 → Word
  result : S → Fin 2 → Word
  slot : S → VReg → Word
  areas : List (Int × Nat)

def slotAreas : List (Int × Nat) := (List.finRange vregs).map fun reg => (slotDisp reg, 8)

def AreasApart (a b : Int × Nat) : Prop := a.1 + a.2 ≤ b.1 ∨ b.1 + b.2 ≤ a.1

instance (a b : Int × Nat) : Decidable (AreasApart a b) := inferInstanceAs (Decidable (_ ∨ _))

/-- The code of the operations between the prologue and the epilogue, from the entry to the
instruction that returns. -/
structure Native.Disciplined {I C S : Type} (native : Native I C S) (ops : List MasmOp) : Prop where
  disjoint : native.areas.Pairwise AreasApart
  returns : ∀ blocks, native.emit ops = .ok blocks → ∀ entry start last finish leave,
    native.machine.Chain native.prologue entry start →
    native.machine.Reaches blocks 0 start last finish → blocks.length ≤ last →
    native.machine.Chain native.epilogue finish leave →
    native.returnAddress leave = native.returnAddress entry ∧
      native.stackPointer leave = native.stackPointer entry ∧
        native.framePointer leave = native.framePointer entry ∧
          ∀ k : Fin 2, native.result leave k = native.slot finish (k.castLE (by decide))
  calls : ∀ blocks, native.emit ops = .ok blocks → ∀ entry start n rn s passed returned t,
    native.machine.Chain native.prologue entry start →
    native.machine.Reaches blocks 0 start n s → ops[n]? = some (.blrX rn) →
    native.machine.Chain (native.passArguments rn) s passed →
    native.machine.exec native.call passed returned →
    native.machine.Chain native.takeResults returned t →
    native.callTarget passed = native.slot s rn ∧
      (∀ k : Fin 8, native.argument passed k = native.slot s (k.castLE (by decide))) ∧
        (∀ k : Fin 2, native.slot t (k.castLE (by decide)) = native.result returned k) ∧
          ∀ reg : VReg, 2 ≤ reg.val → native.slot t reg = native.slot s reg

namespace X64

variable {O : Type}

/-- The return address is on top of the stack at the entry and at the `ret`. -/
def native (sse41 : Bool) (cpu : Cpu O) : Native Insn Cond (State O) where
  machine := machine cpu
  emit := emitAll sse41 .initial
  prologue := stpPre
  epilogue := ldpPost
  passArguments := passArguments
  call := .call r11
  takeResults := takeResults
  returnAddress s := load s.mem (s.regs rsp) 8
  stackPointer s := s.regs rsp
  framePointer s := s.regs rbp
  callTarget s := s.regs r11
  argument s
    | 0 => s.regs rdi
    | 1 => s.regs rsi
    | 2 => s.regs rdx
    | 3 => s.regs rcx
    | 4 => s.regs r8
    | 5 => s.regs r9
    | 6 => load s.mem (s.regs rsp) 8
    | 7 => load s.mem (place (s.regs rsp) 8) 8
  result s
    | 0 => s.regs rax
    | 1 => s.regs rdx
  slot := State.slot
  areas := slotAreas ++ [(0, 8), (8, 8), (extraArg6, 8), (extraArg7, 8)]

theorem areas_apart (sse41 : Bool) (cpu : Cpu O) : (native sse41 cpu).areas.Pairwise AreasApart := by
  show (slotAreas ++ [(0, 8), (8, 8), (extraArg6, 8), (extraArg7, 8)]).Pairwise AreasApart
  decide +kernel

theorem Returns.slot_eq {s t : State O} (h : Returns s t) (reg : VReg) :
    t.slot reg = s.slot reg := by
  have hrange := slotDisp_range reg
  unfold State.slot
  rw [h.saved rbp (by decide)]
  apply Lib.Bytes.load_place_congr (Nat.le_refl 8)
  intro k hk
  apply h.frame
  · unfold vregs slotSize frameSize at *
    omega
  · omega

variable {sse41 : Bool} {cpu : Cpu O} {ops : List MasmOp}

theorem Reaches.entered {blocks : List Code} (hok : emitAll sse41 .initial ops = .ok blocks)
    {s₀ s₁ s : State O} {n : Nat} (hprologue : (machine cpu).Chain stpPre s₀ s₁)
    (hrun : (machine cpu).Reaches blocks 0 s₁ n s) : Entered s₀ s :=
  (stpPre_entered hprologue).kept (Reaches.kept (emitAll_tame hok) hrun)

theorem Passed.argument_eq {rn : VReg} {s t : State O} (h : Passed rn s t) (k : Fin 8) :
    (native sse41 cpu).argument t k = s.slot (k.castLE (by decide)) := by
  have hregisters : ∀ reg slot, (reg, slot) ∈ registerArguments rn → t.regs reg = s.slot slot :=
    fun reg slot hmem => h.registers (reg, slot) hmem
  match k with
  | 0 => exact hregisters rdi 0 (by simp [registerArguments])
  | 1 => exact hregisters rsi 1 (by simp [registerArguments])
  | 2 => exact hregisters rdx 2 (by simp [registerArguments])
  | 3 => exact hregisters rcx 3 (by simp [registerArguments])
  | 4 => exact hregisters r8 4 (by simp [registerArguments])
  | 5 => exact hregisters r9 5 (by simp [registerArguments])
  | 6 => exact h.stack₀
  | 7 => exact h.stack₁

theorem native_disciplined (sse41 : Bool) (cpu : Cpu O) (ops : List MasmOp) :
    (native sse41 cpu).Disciplined ops where
  disjoint := areas_apart sse41 cpu
  returns := by
    intro blocks hok entry start last finish leave hprologue hrun _ hepilogue
    have hentered : Entered entry finish := Reaches.entered hok hprologue hrun
    have hleft := ldpPost_left hepilogue
    refine ⟨?_, ?_, ?_, ?_⟩
    · show load leave.mem (leave.regs rsp) 8 = load entry.mem (entry.regs rsp) 8
      rw [hleft.mem_eq, hleft.rsp_eq, hentered.return_eq]
    · show leave.regs rsp = entry.regs rsp
      rw [hleft.rsp_eq, hentered.rbp_eq, Lib.Bytes.place_place]
      exact Lib.Bytes.place_zero _
    · show leave.regs rbp = entry.regs rbp
      rw [hleft.rbp_eq, hentered.saved_rbp]
    · intro k
      match k with
      | 0 => exact hleft.rax_eq
      | 1 => exact hleft.rdx_eq
  calls := by
    intro blocks hok entry start n rn s passed returned t hprologue hrun _ hpass hcall htake
    have hentered : Entered entry s := Reaches.entered hok hprologue hrun
    have hpassed : Passed rn s passed := passArguments_passed hentered.rsp_eq hpass
    have hreturns : Returns passed returned := hcall.2.2
    obtain ⟨hfirst, hsecond, hothers⟩ := takeResults_chain htake
    refine ⟨hpassed.registers (r11, rn) (by simp [registerArguments]), hpassed.argument_eq, ?_, ?_⟩
    · intro k
      match k with
      | 0 => exact hfirst
      | 1 => exact hsecond
    · intro reg hreg
      show t.slot reg = s.slot reg
      rw [hothers reg hreg, hreturns.slot_eq, hpassed.slot_eq]

end X64

namespace Riscv64

variable {O : Type}

/-- The return address is in `ra` at the entry and at the `ret`. -/
def native (cpu : Cpu O) : Native Insn Test (State O) where
  machine := machine cpu
  emit := emitAll .initial
  prologue := stpPre
  epilogue := ldpPost
  passArguments := passArguments
  call := call
  takeResults := takeResults
  returnAddress s := s.reg ra
  stackPointer s := s.reg sp
  framePointer s := s.reg s0
  callTarget s := s.reg t0
  argument s k := s.reg (argumentRegs.get k)
  result s
    | 0 => s.reg a0
    | 1 => s.reg a1
  slot := State.slot
  areas := slotAreas ++ [(raDisp - frameSize, 8), (s0Disp - frameSize, 8)]

theorem areas_overlap (cpu : Cpu O) : ¬(native cpu).areas.Pairwise AreasApart := by
  show ¬(slotAreas ++ [(raDisp - frameSize, 8), (s0Disp - frameSize, 8)]).Pairwise AreasApart
  decide +kernel

theorem ldpPost_eq :
    ldpPost = [.load 3 a0 s0 (-8), .load 3 a1 s0 (-16), .load 3 s0 sp 272, .load 3 ra sp 280,
      .addi sp sp 288] := by decide +kernel

def argumentSlots : List (VReg × Reg) :=
  (List.finRange 8).map fun slot => (slot.castLE eight_le_vregs, argumentRegs.get slot)

theorem stpPre_eq :
    stpPre = [Insn.addi sp sp (-288), .store 3 sp ra 280, .store 3 sp s0 272, .addi s0 sp 288] ++
      argumentSlots.map fun pair => Insn.store 3 s0 pair.2 (slotDisp pair.1) := by
  decide +kernel

variable {cpu : Cpu O}

/-- The epilogue returns to the first virtual register, with the second one as frame pointer. -/
theorem ldpPost_returns_to_slot {s t : State O}
    (hframe : s.reg sp = place (s.reg s0) (-frameSize))
    (hrun : (machine cpu).Chain ldpPost s t) : t.reg ra = s.slot 0 ∧ t.reg s0 = s.slot 1 := by
  rw [ldpPost_eq] at hrun
  obtain ⟨s₁, ⟨-, -, rfl⟩, hrun⟩ := Lib.Machine.Chain.cons_iff.mp hrun
  obtain ⟨s₂, ⟨-, -, rfl⟩, hrun⟩ := Lib.Machine.Chain.cons_iff.mp hrun
  obtain ⟨s₃, ⟨-, -, rfl⟩, hrun⟩ := Lib.Machine.Chain.cons_iff.mp hrun
  obtain ⟨s₄, ⟨-, -, rfl⟩, hrun⟩ := Lib.Machine.Chain.cons_iff.mp hrun
  obtain ⟨s₅, ⟨-, -, rfl⟩, hrun⟩ := Lib.Machine.Chain.cons_iff.mp hrun
  rw [Lib.Machine.Chain.nil_iff.mp hrun]
  have hsp : s.regs sp = place (s.regs s0) (-frameSize) := hframe
  constructor
  · simp [State.reg, State.set, State.slot, zero, ra, sp, s0, a0, a1] at hsp ⊢
    rw [hsp, Lib.Bytes.place_place]
    rfl
  · simp [State.reg, State.set, State.slot, zero, ra, sp, s0, a0, a1] at hsp ⊢
    rw [hsp, Lib.Bytes.place_place]
    rfl

def State.setSlot (s : State O) (slot : VReg) (value : Word) : State O :=
  { s with mem := store s.mem (place (s.reg s0) (slotDisp slot)) 8 value }

theorem State.setSlot_regs (s : State O) (slot : VReg) (value : Word) :
    (s.setSlot slot value).regs = s.regs := by
  unfold State.setSlot
  rfl

theorem State.setSlot_reg (s : State O) (slot : VReg) (value : Word) (reg : Reg) :
    (s.setSlot slot value).reg reg = s.reg reg := by
  unfold State.reg
  rw [State.setSlot_regs]

theorem State.setSlot_mem (s : State O) (slot : VReg) (value : Word) :
    (s.setSlot slot value).mem = store s.mem (place (s.reg s0) (slotDisp slot)) 8 value := rfl

theorem State.setSlot_slot (s : State O) (slot : VReg) (value : Word) :
    (s.setSlot slot value).slot slot = value := by
  unfold State.slot
  rw [State.setSlot_reg, State.setSlot_mem, Lib.Bytes.load_store]

theorem State.setSlot_other (s : State O) {slot other : VReg} (value : Word)
    (hne : slot ≠ other) : (s.setSlot other value).slot slot = s.slot slot := by
  have hslot := slot.isLt
  have hother := other.isLt
  have hval : slot.val ≠ other.val := fun heq => hne (Fin.ext heq)
  have hout : slotDisp slot + 8 ≤ slotDisp other ∨ slotDisp other + 8 ≤ slotDisp slot := by
    unfold slotDisp slotSize
    omega
  have hnear : -256 ≤ slotDisp slot - slotDisp other ∧ slotDisp slot - slotDisp other ≤ 256 := by
    unfold slotDisp slotSize
    omega
  unfold State.slot
  rw [State.setSlot_reg, State.setSlot_mem,
    Lib.Bytes.load_store_of_ne _ _ _ hout (by omega) (by decide)]

theorem Exec.setSlot {slot : VReg} {reg : Reg} {s t : State O}
    (hexec : Exec cpu (.store 3 s0 reg (slotDisp slot)) s t) : t = s.setSlot slot (s.reg reg) := by
  have heffect := hexec.2
  simp only [Nat.reducePow] at heffect
  exact heffect

theorem stores_chain {pairs : List (VReg × Reg)} (hnodup : (pairs.map Prod.fst).Nodup)
    {s t : State O}
    (hrun : (machine cpu).Chain
      (pairs.map fun pair => .store 3 s0 pair.2 (slotDisp pair.1)) s t) :
    t.regs = s.regs ∧ (∀ pair ∈ pairs, t.slot pair.1 = s.reg pair.2) ∧
      ∀ slot, slot ∉ pairs.map Prod.fst → t.slot slot = s.slot slot := by
  induction pairs generalizing s with
  | nil =>
      rw [Lib.Machine.Chain.nil_iff.mp hrun]
      exact ⟨rfl, List.forall_mem_nil _, fun _ _ => rfl⟩
  | cons pair pairs ih =>
      obtain ⟨s', ⟨-, hexec⟩, hrest⟩ := Lib.Machine.Chain.cons_iff.mp hrun
      rw [hexec.setSlot] at hrest
      rw [List.map_cons, List.nodup_cons] at hnodup
      obtain ⟨hregs, hstores, hothers⟩ := ih hnodup.2 hrest
      refine ⟨hregs.trans (State.setSlot_regs _ _ _), List.forall_mem_cons.mpr ⟨?_, ?_⟩, ?_⟩
      · rw [hothers pair.1 hnodup.1, State.setSlot_slot]
      · intro other hother
        rw [hstores other hother, State.setSlot_reg]
      · intro slot hslot
        rw [List.map_cons, List.mem_cons, not_or] at hslot
        rw [hothers slot hslot.2, State.setSlot_other _ _ hslot.1]

theorem stpPre_slot {s₀ s : State O} (hrun : (machine cpu).Chain stpPre s₀ s) :
    s.slot 0 = s₀.reg a0 ∧ s.reg sp = place (s.reg s0) (-frameSize) := by
  rw [stpPre_eq] at hrun
  obtain ⟨s₁, ⟨-, -, rfl⟩, hrun⟩ := Lib.Machine.Chain.cons_iff.mp hrun
  obtain ⟨s₂, ⟨-, -, rfl⟩, hrun⟩ := Lib.Machine.Chain.cons_iff.mp hrun
  obtain ⟨s₃, ⟨-, -, rfl⟩, hrun⟩ := Lib.Machine.Chain.cons_iff.mp hrun
  obtain ⟨s₄, ⟨-, -, rfl⟩, hstores⟩ := Lib.Machine.Chain.cons_iff.mp hrun
  obtain ⟨hregs, hslots, -⟩ := stores_chain (by decide +kernel) hstores
  constructor
  · rw [hslots (0, a0) (by decide +kernel)]
    simp [State.reg, State.set, zero, sp, s0, a0]
  · simp only [State.reg, hregs]
    simp [State.set, zero, sp, s0, frameSize]

theorem empty_returns_to_argument {entry start leave : State O}
    (hprologue : (machine cpu).Chain stpPre entry start)
    (hepilogue : (machine cpu).Chain ldpPost start leave) : leave.reg ra = entry.reg a0 := by
  obtain ⟨hslot, hframe⟩ := stpPre_slot hprologue
  rw [(ldpPost_returns_to_slot hframe hepilogue).1, hslot]

end Riscv64

inductive Assembler where
  | x64 (sse41 : Bool)
  | riscv64
deriving DecidableEq, Repr

/-- On every machine that computes as it likes. -/
def Assembler.Disciplined (ops : List MasmOp) : Assembler → Prop
  | .x64 sse41 => ∀ (O : Type) (cpu : X64.Cpu O), (X64.native sse41 cpu).Disciplined ops
  | .riscv64 => ∀ (O : Type) (cpu : Riscv64.Cpu O), (Riscv64.native cpu).Disciplined ops

/-- Code keeps the discipline of its frame on x86-64 only. -/
theorem disciplined_iff_x64 (assembler : Assembler) (ops : List MasmOp) :
    assembler.Disciplined ops ↔ assembler ≠ .riscv64 := by
  cases assembler with
  | x64 sse41 =>
      have hdisciplined : (Assembler.x64 sse41).Disciplined ops :=
        fun _ cpu => X64.native_disciplined sse41 cpu ops
      simpa using hdisciplined
  | riscv64 =>
      have hcpu : Riscv64.Cpu Unit :=
        ⟨fun _ _ => 0, fun _ _ => (), fun _ _ => 0, fun _ _ => False⟩
      have hbroken : ¬Assembler.riscv64.Disciplined ops :=
        fun h => Riscv64.areas_overlap hcpu (h Unit hcpu).disjoint
      simpa using hbroken

namespace Riscv64

variable {O : Type} {cpu : Cpu O}

def Insn.Local : Insn → Bool
  | .store _ base _ _ => base = s0 ∨ base = sp
  | .jalr _ _ => false
  | _ => true

theorem exec_of_local (hcpu : ∀ i s, ¬cpu.faults i s) {i : Insn} (hlocal : i.Local)
    (s : State O) : ∃ t, (machine cpu).exec i s t := by
  cases i with
  | store funct3 base src imm =>
      have hbase : base = s0 ∨ base = sp := of_decide_eq_true hlocal
      exact ⟨_, fun hs0 hsp => (hbase.elim hs0 hsp).elim, hcpu _ s, rfl⟩
  | jalr rd rs1 => cases hlocal
  | _ => exact ⟨_, trivial, hcpu _ s, rfl⟩

theorem local_total (cpu : Cpu O) (hcpu : ∀ i s, ¬cpu.faults i s) {is : List Insn}
    (hlocal : is.all Insn.Local) (s : State O) : ∃ t, (machine cpu).Chain is s t := by
  apply Lib.Machine.Chain.exists_of_total
  intro i hi
  exact exec_of_local hcpu (List.all_eq_true.mp hlocal i hi)

end Riscv64

/-- An empty body on RISC-V does not return to its caller. -/
theorem riscv64_empty_undisciplined : ¬Assembler.riscv64.Disciplined [] := by
  intro h
  let cpu : Riscv64.Cpu Unit := ⟨fun _ _ => 0, fun _ _ => (), fun _ _ => 0, fun _ _ => False⟩
  let entry : Riscv64.State Unit :=
    ⟨fun reg => if reg = Riscv64.ra then 0x2000 else 0x1000, fun _ => 0, ()⟩
  have hprologueLocal : Riscv64.stpPre.all Riscv64.Insn.Local := by decide +kernel
  have hepilogueLocal : Riscv64.ldpPost.all Riscv64.Insn.Local := by decide +kernel
  obtain ⟨start, hprologue⟩ := Riscv64.local_total cpu (fun _ _ => id) hprologueLocal entry
  obtain ⟨leave, hepilogue⟩ := Riscv64.local_total cpu (fun _ _ => id) hepilogueLocal start
  have hreturns := (h Unit cpu).returns [] rfl entry start 0 start leave hprologue .here
    (Nat.le_refl 0) hepilogue
  have haddress : leave.reg Riscv64.ra = entry.reg Riscv64.ra := hreturns.1
  rw [Riscv64.empty_returns_to_argument hprologue hepilogue] at haddress
  revert haddress
  decide +kernel

end Telomere.Jit
