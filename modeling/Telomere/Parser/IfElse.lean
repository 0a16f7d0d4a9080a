import Telomere.Parser.Positions

/-!
# The law of `if` and `else`

An `else` belongs to the `if` it stands directly in, an `if` has one `else` at most, and without
one its parameters must be its results. The parser checks the last two only in part: it does not
look for a second `else`, and it leaves a missing one unchecked when the code before the `end` is
dead.
-/

namespace Telomere.Parser

open TypeChecker State Lib

/-- Instruction `n` stands directly in the block that instruction `k` opens. -/
def DirectlyIn (body : List Inst) (n k : Nat) : Prop :=
  (opensAt (nestAt body) n).head? = some k

def ElsesInIfs (body : List Inst) : Prop :=
  ∀ n, body[n]? = some .else_ → ∃ k blocktype, DirectlyIn body n k ∧
    body[k]? = some (.if_ blocktype)

def SingleElses (body : List Inst) : Prop :=
  ∀ n n' k, body[n]? = some .else_ → body[n']? = some .else_ → DirectlyIn body n k →
    DirectlyIn body n' k → n = n'

/-- The `if` opened at `k` has no `else` and ends at `e`. -/
structure BareIf (body : List Inst) (k e : Nat) (blocktype : BlockType) : Prop where
  opens : body[k]? = some (.if_ blocktype)
  closes : Closes (nestAt body) k e
  bare : ∀ n, body[n]? = some .else_ → ¬DirectlyIn body n k

def BareIfsBalanced (env : Env) (body : List Inst) : Prop :=
  ∀ k e blocktype, BareIf body k e blocktype →
    blocktype.params env.types = blocktype.results env.types

def IfElseLaw (env : Env) (body : List Inst) : Prop :=
  ElsesInIfs body ∧ SingleElses body ∧ BareIfsBalanced env body

/-- The block around the current one is dead code for the generator. -/
def outerDead (s : State) : Bool :=
  s.unreachable.tail.headD false

/-- An `else` whose enclosing block lies in dead code stands in an `if` all the same. -/
def DeadElsesInIfs (env : Env) (body : List Inst) : Prop :=
  ∀ n, body[n]? = some .else_ → outerDead (stateAt env body n) = true →
    ∃ k blocktype, DirectlyIn body n k ∧ body[k]? = some (.if_ blocktype)

/-- An `if` without `else` whose code is dead at the `end` is balanced all the same. -/
def DeadBareIfsBalanced (env : Env) (body : List Inst) : Prop :=
  ∀ k e blocktype, BareIf body k e blocktype → (stateAt env body e).isUnreachable = true →
    blocktype.params env.types = blocktype.results env.types

/-- Popping from entries that all have types, down to the block's base. -/
private theorem popAll_above {c c' : TypeChecker} {tys input : List ValType}
    {low : List MaybeUnreachable} {b : Block} {bs : List Block} (hblocks : c.blocks = b :: bs)
    (hbase : b.base = low.length) (htypes : c.types = tys.map .normal ++ low)
    (hok : c.popAll input = .ok c') :
    ∃ rest, tys = input ++ rest ∧ c' = ⟨rest.map .normal ++ low, c.blocks⟩ := by
  induction input generalizing c tys with
  | nil =>
      obtain rfl := Except.ok.inj hok
      exact ⟨tys, rfl, by rw [← htypes]⟩
  | cons ty input ih =>
      obtain ⟨d, hd, hok⟩ := Lib.bind_eq_ok.mp hok
      obtain ⟨⟨v, x⟩, hpop, hd⟩ := Lib.bind_eq_ok.mp hd
      obtain ⟨b', bs', rest, hblocks', htop, hlen, rfl⟩ := pop_ok hpop
      obtain ⟨rfl, rfl⟩ := List.cons.inj (hblocks.symm.trans hblocks')
      cases tys with
      | nil =>
          rw [htypes] at htop
          have hshort := congrArg List.length htop
          simp only [List.map_nil, List.nil_append, List.length_cons] at hshort
          omega
      | cons actual tys =>
          rw [htypes] at htop
          obtain ⟨rfl, rfl⟩ := List.cons.inj htop
          obtain ⟨_, hassert, hd⟩ := Lib.bind_eq_ok.mp hd
          have heq : ty = actual := by
            unfold assertValtype at hassert
            split at hassert
            · assumption
            · cases hassert
          obtain rfl := Lib.pure_eq_ok.mp hd
          obtain ⟨rest', htys, hc'⟩ := @ih ⟨tys.map .normal ++ low, c.blocks⟩ tys hblocks rfl hok
          exact ⟨rest', by rw [heq, htys]; rfl, hc'⟩

private theorem leaveBlock_above {c c' : TypeChecker} {tys : List ValType}
    {low : List MaybeUnreachable} {b : Block} {bs : List Block} (hblocks : c.blocks = b :: bs)
    (hbase : b.base = low.length) (htypes : c.types = tys.map .normal ++ low)
    (hok : c.leaveBlock = .ok c') : tys = [] := by
  obtain ⟨base, hbase', hok⟩ := Lib.bind_eq_ok.mp hok
  rw [blockBase_cons hblocks] at hbase'
  obtain rfl := Except.ok.inj hbase'
  have habove : c.aboveBase b.base = tys.map .normal := by
    simp [aboveBase, htypes, hbase]
  rw [habove] at hok
  cases tys with
  | nil => rfl
  | cons ty tys => cases hok

/-- When the code before the `end` is not dead, the missing branch must turn the parameters into
the results by doing nothing. -/
private theorem leaveIfResults_balanced {c c' : TypeChecker} {blocktype : BlockType}
    {params results : List ValType}
    (hok : leaveIfResults c false false blocktype params results = .ok c') :
    params = results := by
  obtain ⟨d, hd, hok⟩ := Lib.bind_eq_ok.mp hok
  obtain ⟨e, he, hok⟩ := Lib.bind_eq_ok.mp hok
  obtain ⟨f, hf, _⟩ := Lib.bind_eq_ok.mp hok
  obtain ⟨x, _, hd⟩ := Lib.bind_eq_ok.mp hd
  obtain ⟨y, _, hd⟩ := Lib.bind_eq_ok.mp hd
  obtain ⟨z, hz, hd⟩ := Lib.bind_eq_ok.mp hd
  obtain rfl := Except.ok.inj hz
  have hd' := (Lib.pure_eq_ok.mp hd).symm
  rw [pushAll_eq] at hd'
  subst hd'
  obtain ⟨g, hg, he⟩ := Lib.bind_eq_ok.mp he
  obtain ⟨rest, hparams, rfl⟩ := popAll_above rfl rfl rfl hg
  obtain rfl := Lib.pure_eq_ok.mp he
  have hrest := leaveBlock_above rfl rfl rfl hf
  rw [hrest, List.append_nil] at hparams
  exact List.reverse_injective hparams

private theorem leaveIfChecker_balanced {env : Env} {c c' : TypeChecker} {blocktype : BlockType}
    (hok : leaveIfChecker env c false false blocktype = .ok c') :
    blocktype.params env.types = blocktype.results env.types := by
  cases blocktype with
  | void => rfl
  | valType ty => exact congrArg some (leaveIfResults_balanced hok)
  | typeIdx idx =>
      obtain ⟨ty, hty, hok⟩ := Lib.bind_eq_ok.mp hok
      simp only [BlockType.params, BlockType.results, getType_ok hty, Option.map_some]
      exact congrArg some (leaveIfResults_balanced hok)

private theorem parseEnd_checksIf {env : Env} {s s' : State} {frame : Frame} {frames : List Frame}
    (hok : parseEnd env s = .ok s') (hframes : s.frames = frame :: frames)
    (hkind : frame.kind = .if_) :
    ∃ c, leaveIfChecker env s.checker s.isUnreachable frame.elseAddr.isSome frame.blocktype =
      .ok c := by
  unfold parseEnd at hok
  rw [hframes] at hok
  simp only [hkind] at hok
  obtain ⟨c, hc, _⟩ := Lib.bind_eq_ok.mp hok
  refine ⟨c, ?_⟩
  simpa [isUnreachable] using hc

section Accepted

variable {env : Env} {body : List Inst} {final : State}

private theorem inst_of_shape_if {inst : Inst} {blocktype : BlockType}
    (h : shape inst = .enter .if_ blocktype) : inst = .if_ blocktype := by
  cases inst <;> simp_all [shape]

/-- Outside dead code the checker's current block must be an `if`. -/
private theorem else_in_if (hok : parseCode env body = .ok final) {n : Nat}
    (hn : body[n]? = some .else_) (hlive : outerDead (stateAt env body n) = false) :
    ∃ k blocktype, DirectlyIn body n k ∧ body[k]? = some (.if_ blocktype) := by
  have hlt := (List.getElem?_eq_some_iff.mp hn).1
  have hframes := parseInst_frames (stateAt_step hok hn)
    (stateAt_framesMatch hok (Nat.le_of_lt hlt))
  have hlen := frames_length hok (Nat.le_of_lt hlt)
  cases hframes with
  | deadElse hdead _ => cases hdead.symm.trans hlive
  | @else_ frame rest _ hbefore hkind _ =>
      cases hopens : opensAt (nestAt body) n with
      | nil =>
          rw [hopens, hbefore] at hlen
          cases hlen
      | cons k ks =>
          have hk : (opensAt (nestAt body) n)[0]? = some k := by rw [hopens]; rfl
          obtain ⟨inst, kind, blocktype, frame', hget, hshape, hframe, hsig⟩ :=
            frame_of_open hok (Nat.le_of_lt hlt) hk
          rw [hbefore] at hframe
          obtain rfl : frame = frame' := Option.some.inj hframe
          have hkind' : kind = .if_ := by
            rw [← hkind]
            exact (congrArg Prod.fst hsig).symm
          rw [hkind'] at hshape
          rw [inst_of_shape_if hshape] at hget
          exact ⟨k, blocktype, by rw [DirectlyIn, hopens]; rfl, hget⟩

private theorem bareIf_balanced (hok : parseCode env body = .ok final) {k e : Nat}
    {blocktype : BlockType} (hbare : BareIf body k e blocktype)
    (hlive : (stateAt env body e).isUnreachable = false) :
    blocktype.params env.types = blocktype.results env.types := by
  have hend : body[e]? = some .end_ := by
    have hpop := hbare.closes.1
    unfold nestAt at hpop
    cases hget : body[e]? with
    | none => simp [hget] at hpop
    | some inst => cases inst <;> simp [hget, shape] at hpop ⊢
  have hlt := (List.getElem?_eq_some_iff.mp hend).1
  have hk : (opensAt (nestAt body) e)[0]? = some k := by
    rw [← List.head?_eq_getElem?]
    exact hbare.closes.2
  obtain ⟨inst, kind, blocktype', frame, hget, hshape, hframe, hsig⟩ :=
    frame_of_open hok (Nat.le_of_lt hlt) hk
  obtain rfl := Option.some.inj (hbare.opens.symm.trans hget)
  obtain ⟨rfl, rfl⟩ := Shape.enter.inj hshape
  obtain ⟨hkind, htype⟩ := Prod.mk.inj hsig
  have hnone : frame.elseAddr = none := by
    cases haddr : frame.elseAddr with
    | none => rfl
    | some addr =>
        obtain ⟨x, _, hx, hdirect, _⟩ :=
          else_of_elseAddr hok (Nat.le_of_lt hlt) hk hframe haddr
        exact absurd hdirect (hbare.bare x hx)
  obtain ⟨frames, hframes⟩ : ∃ frames, (stateAt env body e).frames = frame :: frames := by
    cases hf : (stateAt env body e).frames with
    | nil => simp [hf] at hframe
    | cons first rest =>
        rw [hf] at hframe
        obtain rfl := Option.some.inj hframe
        exact ⟨rest, rfl⟩
  obtain ⟨c, hc⟩ := parseEnd_checksIf (stateAt_step hok hend) hframes hkind
  rw [hlive, hnone, htype] at hc
  exact leaveIfChecker_balanced hc

/-- An accepted body keeps the law exactly when it keeps it in the places the parser does not
look at: an `else` inside dead code, a second `else`, and an `if` without `else` that ends in dead
code. -/
theorem ifElseLaw_iff (hok : parseCode env body = .ok final) :
    IfElseLaw env body ↔
      DeadElsesInIfs env body ∧ SingleElses body ∧ DeadBareIfsBalanced env body := by
  constructor
  · rintro ⟨hin, hsingle, hbalanced⟩
    exact ⟨fun n hn _ => hin n hn, hsingle, fun k e blocktype h _ => hbalanced k e blocktype h⟩
  · rintro ⟨hin, hsingle, hbalanced⟩
    refine ⟨?_, hsingle, ?_⟩
    · intro n hn
      cases hdead : outerDead (stateAt env body n) with
      | true => exact hin n hn hdead
      | false => exact else_in_if hok hn hdead
    · intro k e blocktype hbare
      cases hdead : (stateAt env body e).isUnreachable with
      | true => exact hbalanced k e blocktype hbare hdead
      | false => exact bareIf_balanced hok hbare hdead

end Accepted

def chosenBody : List Inst :=
  [i32Const, .if_ (.valType .i32), i32Const, .else_, i32Const, .end_, .drop]

theorem ifElseLaw_iff_chosen :
    (∃ final, parseCode loopParamEnv chosenBody = .ok final) ∧
      (IfElseLaw loopParamEnv chosenBody ↔ DeadElsesInIfs loopParamEnv chosenBody ∧
        SingleElses chosenBody ∧ DeadBareIfsBalanced loopParamEnv chosenBody) := by
  have hok : ∃ final, parseCode loopParamEnv chosenBody = .ok final := ⟨_, rfl⟩
  obtain ⟨final, hfinal⟩ := hok
  exact ⟨⟨final, hfinal⟩, ifElseLaw_iff hfinal⟩

/-- The `if` promises a value, has no `else`, and its only branch ends in dead code. -/
def deadBranchBody : List Inst :=
  [i32Const, .if_ (.valType .i32), .unreachable, .end_, .drop]

theorem deadBranch_accepted_unbalanced :
    (∃ final, parseCode loopParamEnv deadBranchBody = .ok final) ∧
      ¬IfElseLaw loopParamEnv deadBranchBody := by
  refine ⟨⟨_, rfl⟩, ?_⟩
  rintro ⟨-, -, hbalanced⟩
  have hbare : BareIf deadBranchBody 1 3 (.valType .i32) := by
    refine ⟨rfl, ⟨rfl, rfl⟩, ?_⟩
    intro n hn
    exact absurd (List.mem_of_getElem? hn) (by decide)
  have hsame := hbalanced 1 3 (.valType .i32) hbare
  cases hsame

end Telomere.Parser
