import Telomere.Parser.BranchTyping

/-!
# Types of tail calls

A tail call is checked by pushing the results of the callee and popping those of the function. So the
function's results may come from operands below the arguments, and results of the callee may be left
over: what is checked is that the shorter list of the two ends the other one with what is below.
-/

namespace Telomere.Parser

open TypeChecker

def tailCallee (env : Env) : Inst → Option FuncType
  | .returnCall idx => (getFuncType env idx).toOption
  | .returnCallIndirect typeidx _ => (getType env typeidx).toOption
  | _ => none

/-- Every tail call of the body in reachable code has the results of the function. -/
def TailCallsTyped (env : Env) (body : List Inst) : Prop :=
  ∀ pre inst post callee, body = pre ++ inst :: post → ReachableAfter pre →
    tailCallee env inst = some callee → callee.results = env.functype.results

/-- Every tail call of the body in reachable code has as many results as the function. -/
def TailCallsCounted (env : Env) (body : List Inst) : Prop :=
  ∀ pre inst post callee, body = pre ++ inst :: post → ReachableAfter pre →
    tailCallee env inst = some callee → callee.results.length = env.functype.results.length

private theorem results_eq {c d e : TypeChecker} {params results expected : List ValType}
    (hcall : c.op params results = .ok d) (hreturn : d.op expected [] = .ok e)
    (hconcrete : NoMarker c.types) (hbase : BaseOk c)
    (hlength : results.length = expected.length) : results = expected := by
  have hkeeps := op_keeps hcall
  obtain ⟨rest, -, hpushed, -⟩ := op_exact hcall hconcrete hbase
  obtain ⟨rest', hpopped, -, -⟩ :=
    op_exact hreturn (hkeeps.concrete hconcrete) (hkeeps.base hbase)
  have hsame : results.reverse.map MaybeUnreachable.normal ++ rest =
      expected.reverse.map MaybeUnreachable.normal ++ rest' := hpushed.symm.trans hpopped
  have hmap := (List.append_inj hsame (by simp [hlength])).1
  have hreverse := List.map_injective_iff.mpr (fun _ _ h => MaybeUnreachable.normal.inj h) hmap
  exact List.reverse_injective hreverse

private theorem parseInst_tailCall {env : Env} {s s' : State} {inst : Inst} {callee : FuncType}
    (hok : parseInst env s inst = .ok s') (hcallee : tailCallee env inst = some callee) :
    ∃ c d e, Keeps s.checker c ∧ c.op callee.params callee.results = .ok d ∧
      d.op env.functype.results [] = .ok e := by
  cases inst
  case returnCall idx =>
      obtain ⟨t, ht, -⟩ := Lib.bind_eq_ok.mp hok
      obtain ⟨ty, hty, ht⟩ := Lib.bind_eq_ok.mp ht
      obtain ⟨d, hd, ht⟩ := Lib.bind_eq_ok.mp ht
      obtain ⟨e, he, -⟩ := Lib.bind_eq_ok.mp ht
      obtain rfl : ty = callee := by simpa [tailCallee, hty, Except.toOption] using hcallee
      exact ⟨s.checker, d, e, Keeps.refl _, hd, he⟩
  case returnCallIndirect typeidx tableidx =>
      obtain ⟨t, ht, -⟩ := Lib.bind_eq_ok.mp hok
      obtain ⟨-, -, ht⟩ := Lib.bind_eq_ok.mp ht
      obtain ⟨c, hc, ht⟩ := Lib.bind_eq_ok.mp ht
      obtain ⟨ty, hty, ht⟩ := Lib.bind_eq_ok.mp ht
      obtain ⟨d, hd, ht⟩ := Lib.bind_eq_ok.mp ht
      obtain ⟨e, he, -⟩ := Lib.bind_eq_ok.mp ht
      obtain rfl : ty = callee := by simpa [tailCallee, hty, Except.toOption] using hcallee
      exact ⟨c, d, e, op_keeps hc, hd, he⟩
  all_goals cases hcallee

/-- In an accepted body every reachable tail call has the results of the function exactly when each
has as many. -/
theorem tailCallsTyped_iff {env : Env} {body : List Inst} {final : State}
    (hok : parseCode env body = .ok final) :
    TailCallsTyped env body ↔ TailCallsCounted env body := by
  obtain ⟨s', hbody, -⟩ := Lib.bind_eq_ok.mp hok
  constructor
  · intro htyped pre inst post callee heq hreach hcallee
    rw [htyped pre inst post callee heq hreach hcallee]
  · intro hcounted pre inst post callee heq hreach hcallee
    have hlength := hcounted pre inst post callee heq hreach hcallee
    rw [heq] at hbody
    obtain ⟨s, hpre, hrest⟩ := parseInstrs_append.mp hbody
    obtain ⟨u, hinst, -⟩ := Lib.bind_eq_ok.mp hrest
    have hlive := parseInstrs_live hpre (initial_live env)
    obtain ⟨c, d, e, hkeeps, hcall, hreturn⟩ := parseInst_tailCall hinst hcallee
    exact results_eq hcall hreturn (hkeeps.concrete (hlive.stack.concrete hreach))
      (hkeeps.base hlive.stack.baseOk) hlength

/-- Function 0 returns an `i32`, function 1 nothing, function 2 an `i32`. -/
def tailCallEnv : Env :=
  ⟨[⟨[], [.i32]⟩, ⟨[], []⟩], [0, 1, 0], 0, 0, ⟨[], [.i32]⟩, []⟩

theorem tailCallsTyped_iff_same :
    (∃ final, parseCode tailCallEnv [.returnCall 2] = .ok final) ∧
      (TailCallsTyped tailCallEnv [.returnCall 2] ↔ TailCallsCounted tailCallEnv [.returnCall 2]) := by
  obtain ⟨final, hfinal⟩ : ∃ final, parseCode tailCallEnv [.returnCall 2] = .ok final := ⟨_, rfl⟩
  exact ⟨⟨final, hfinal⟩, tailCallsTyped_iff hfinal⟩

/-- The result that the function owes is an operand that the tail call throws away. -/
theorem operandBelow_accepted_untyped :
    (∃ final, parseCode tailCallEnv [i32Const, .returnCall 1] = .ok final) ∧
      ¬TailCallsTyped tailCallEnv [i32Const, .returnCall 1] := by
  refine ⟨⟨_, rfl⟩, fun htyped => ?_⟩
  have hresults := htyped [i32Const] (.returnCall 1) [] ⟨[], []⟩ rfl rfl rfl
  cases hresults

end Telomere.Parser
