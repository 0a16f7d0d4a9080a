import Telomere.Runtime.BulkMemories
import Telomere.Runtime.SegmentOrder

/-!
# Bulk instructions under fuel

Every bulk instruction, in any state of the meter and of the store: on one memory or on tables it is
done as a whole or not at all, and what is interrupted in between has done all its earlier rounds.
-/

namespace Telomere.Runtime

open Lib (Attempt)

/-- The handler is interrupted before it does anything, or does what it does without a meter, where a
failure is one of bounds and changes nothing. -/
def Whole (handler : Handler) (g : Meter) (s : Store) : Prop :=
  (∃ reason g', handler (g, s) = (.error (.interrupted reason), (g', s))) ∨
    (handler (g, s)).1 = (handler (.off, s)).1 ∧ (handler (g, s)).2.2 = (handler (.off, s)).2.2 ∧
      ∀ e, (handler (g, s)).1 = .error e → e.OutOfBounds ∧ (handler (g, s)).2.2 = s

/-- What fails out of bounds fails before it writes. -/
def FailsUnchanged (body : Attempt Store Stop Unit) (s : Store) : Prop :=
  ∀ e t, body s = (.error e, t) → e.OutOfBounds ∧ t = s

section whole

variable {g : Meter} {s : Store}

theorem charged_error {amount operands : Nat} {body : Attempt Store Stop Unit} {g' : Meter} {e : Stop}
    (h : vmCheckpointN amount g = (.error e, g')) :
    charged amount body operands (g, s) = (.error e, (g', s)) := by
  rw [charged, Attempt.bind_error (e := e) (t := (g', s))]
  simp [onMeter, h]

theorem charged_ok {amount operands : Nat} {body : Attempt Store Stop Unit} {g' : Meter}
    (h : vmCheckpointN amount g = (.ok (), g')) :
    charged amount body operands (g, s) =
      ((body s).1.map fun _ => .callNext operands, (g', (body s).2)) := by
  rw [charged, Attempt.bind_ok (a := ()) (t := (g', s)) (by simp [onMeter, h])]
  rcases hbody : body s with ⟨e | ⟨⟩, t⟩
  · rw [Attempt.bind_error (e := e) (t := (g', t)) (by simp [onStore, hbody])]
    rfl
  · rw [Attempt.bind_ok (a := ()) (t := (g', t)) (by simp [onStore, hbody])]
    rfl

theorem charged_whole {amount operands : Nat} {body : Attempt Store Stop Unit}
    (hbody : FailsUnchanged body s) : Whole (charged amount body operands) g s := by
  have hfree : vmCheckpointN amount .off = (.ok (), .off) := rfl
  rcases hcharge : vmCheckpointN amount g with ⟨e | ⟨⟩, g'⟩
  · obtain ⟨reason, rfl⟩ := vmCheckpointN_error hcharge
    exact Or.inl ⟨reason, g', charged_error hcharge⟩
  · refine Or.inr ?_
    rw [charged_ok hcharge, charged_ok hfree]
    refine ⟨rfl, rfl, fun e herror => ?_⟩
    rcases hrun : body s with ⟨e' | ⟨⟩, t⟩
    · rw [hrun] at herror
      obtain rfl := Except.error.inj herror
      exact hbody _ t hrun
    · rw [hrun] at herror
      cases herror

theorem unlessPending_whole {pending : Nat} {handler : Handler} (h : Whole handler g s) :
    Whole (unlessPending pending handler) g s := by
  unfold unlessPending
  split
  · exact Or.inr ⟨rfl, rfl, fun e herror => by cases herror⟩
  · exact h

/-- An operation on one memory that fails only out of bounds, and then before it writes. -/
def RefusesUnchanged (f : Linear.Memory → Linear.VMResult Unit × Linear.Memory) : Prop :=
  ∀ m e, (f m).1 = .error e → e = .memoryIndexOutOfRange ∧ (f m).2 = m

theorem fill_refuses (ptr len data : U32) : RefusesUnchanged (·.fill ptr len data) := by
  intro m e h
  simp only [Linear.Memory.fill_eq] at h ⊢
  split at h
  · cases h
  · next hout =>
      rw [if_neg hout]
      exact ⟨(Except.error.inj h).symm, rfl⟩

theorem copy_refuses (dst src len : U32) : RefusesUnchanged (·.copy dst src len) := by
  intro m e h
  simp only [Linear.Memory.copy_eq] at h ⊢
  split at h
  · cases h
  · next hout =>
      rw [if_neg hout]
      exact ⟨(Except.error.inj h).symm, rfl⟩

theorem writeBytes_refuses (offset : Nat) (bytes : List Linear.Byte) :
    RefusesUnchanged (·.writeBytes offset bytes) := by
  intro m e h
  dsimp only at h ⊢
  unfold Linear.Memory.writeBytes at h ⊢
  split at h
  · exact ⟨(Except.error.inj h).symm, rfl⟩
  · split at h
    · cases h
    · next hout =>
        rw [if_neg hout]
        exact ⟨(Except.error.inj h).symm, rfl⟩

theorem withMemory_failsUnchanged {shared : Bool} {addr : Nat}
    {f : Linear.Memory → Linear.VMResult Unit × Linear.Memory} {m : Linear.Memory}
    (hm : s.memoryAt shared addr = some m) (hf : RefusesUnchanged f) :
    FailsUnchanged (withMemory shared addr f) s := by
  intro e t h
  rw [withMemory_eq hm] at h
  obtain ⟨hresult, hstore⟩ := Prod.mk.inj h
  rcases hrun : (f m).1 with e' | ⟨⟩
  · obtain ⟨rfl, hsame⟩ := hf m e' hrun
    rw [hrun] at hresult
    rw [hsame, Store.setMemory_self hm] at hstore
    exact ⟨Or.inl (Except.error.inj hresult).symm, hstore.symm⟩
  · rw [hrun] at hresult
    cases hresult

theorem onForm_failsUnchanged {inst : InstanceData} {form : MemoryForm}
    {f : Linear.Memory → Linear.VMResult Unit × Linear.Memory}
    (hform : (form.memory inst s).isSome) (hf : RefusesUnchanged f) :
    FailsUnchanged (onForm inst form f) s := by
  obtain ⟨m, hm⟩ := Option.isSome_iff_exists.mp hform
  obtain ⟨addr, haddr, hm⟩ := Option.bind_eq_some_iff.mp hm
  simp only [onForm, haddr]
  exact withMemory_failsUnchanged hm hf

theorem memInitBytes_error {id idx start len : Nat} {failure : Failure}
    (h : s.memInitBytes id idx start len = .error failure) : failure = .memoryIndexOutOfRange := by
  unfold Store.memInitBytes at h
  split at h
  · split at h
    · cases h
    · exact (Except.error.inj h).symm
  · split at h
    · cases h
    · exact (Except.error.inj h).symm

theorem FailsUnchanged.afterReading {α : Type} {f : Store → Except Stop α}
    {body : α → Attempt Store Stop Unit} (hf : ∀ e, f s = .error e → e.OutOfBounds)
    (hbody : ∀ a, f s = .ok a → FailsUnchanged (body a) s) :
    FailsUnchanged (do body (← reading f)) s := by
  intro e t h
  rcases hread : f s with e' | a
  · have hrun : reading f s = (.error e', s) := by rw [reading, hread]
    rw [Attempt.bind_error hrun] at h
    obtain ⟨hresult, rfl⟩ := Prod.mk.inj h
    obtain rfl := Except.error.inj hresult
    exact ⟨hf _ hread, rfl⟩
  · have hrun : reading f s = (.ok a, s) := by rw [reading, hread]
    rw [Attempt.bind_ok hrun] at h
    exact hbody a hread e t h

theorem memInitImpl_failsUnchanged {inst : InstanceData} {form : MemoryForm} {idx : Nat}
    {dst src len : U32} (hform : (form.memory inst s).isSome) :
    FailsUnchanged (memInitImpl inst form idx dst src len) s := by
  refine .afterReading ?_ fun bytes _ => onForm_failsUnchanged hform (writeBytes_refuses _ _)
  intro e herror
  rcases hread : s.memInitBytes inst.instanceId idx src.toNat len.toNat with failure | bytes
  · rw [hread] at herror
    rw [memInitBytes_error hread] at herror
    exact Or.inl (Except.error.inj herror).symm
  · rw [hread] at herror
    cases herror

theorem getTable_eq {inst : InstanceData} {tableIdx : Nat} {table : Nat × TableInstance}
    (h : tableOf inst s tableIdx = some table) : getTable inst tableIdx s = (.ok table, s) := by
  rw [getTable, reading, h]

theorem tableSlice_error {t : TableInstance} {start len : Nat} {e : Stop}
    (h : tableSlice t start len = .error e) : e.OutOfBounds := by
  unfold tableSlice at h
  split at h
  · cases h
  · exact Or.inr (Except.error.inj h).symm

theorem FailsUnchanged.ofTable {inst : InstanceData} {tableIdx : Nat}
    {body : Nat × TableInstance → Attempt Store Stop Unit}
    (htable : (tableOf inst s tableIdx).isSome) (hbody : ∀ table, FailsUnchanged (body table) s) :
    FailsUnchanged (do body (← getTable inst tableIdx)) s := by
  obtain ⟨table, htable⟩ := Option.isSome_iff_exists.mp htable
  intro e t h
  rw [Attempt.bind_ok (getTable_eq htable)] at h
  exact hbody table e t h

theorem overwriteEntries_failsUnchanged {addr start : Nat} {table : TableInstance}
    {values : List Nat} : FailsUnchanged (overwriteEntries addr table start values) s := by
  intro e t h
  cases (Prod.mk.inj h).1

theorem opTableCopy_whole {inst : InstanceData} {dstTableIdx srcTableIdx : Nat} {dst src len : U32}
    (hdst : (tableOf inst s dstTableIdx).isSome) (hsrc : (tableOf inst s srcTableIdx).isSome) :
    Whole (opTableCopy inst dstTableIdx srcTableIdx dst src len) g s := by
  refine charged_whole (.ofTable hsrc fun srcTable => ?_)
  refine .afterReading (fun _ h => tableSlice_error h) fun values _ => ?_
  refine .ofTable hdst fun dstTable => ?_
  exact .afterReading (fun _ h => tableSlice_error h) fun _ _ => overwriteEntries_failsUnchanged

theorem opTableFill_whole {inst : InstanceData} {tableIdx : Nat} {i val n : U32}
    (htable : (tableOf inst s tableIdx).isSome) :
    Whole (opTableFill inst tableIdx i val n) g s := by
  refine charged_whole (.ofTable htable fun table => ?_)
  exact .afterReading (fun _ h => tableSlice_error h) fun _ _ => overwriteEntries_failsUnchanged

end whole

def entryRef (inst : InstanceData) (s : Store) (elemIdx : Nat) (t : TableInstance) (i : Nat) :
    Except Failure Nat :=
  match s.elems (inst.instanceId, elemIdx) with
  | none => .error .panic
  | some elem => elemRef s.globals inst.globals inst.funcs t.type.reftype elem.init i

/-- Both ranges are complete; a dropped segment has none but the empty one at 0. -/
def InitRanges (inst : InstanceData) (s : Store) (elemIdx : Nat) (t : TableInstance)
    (dst src len : Nat) : Prop :=
  dst + len ≤ t.entries.length ∧
    match s.elems (inst.instanceId, elemIdx) with
    | none => len = 0 ∧ src = 0
    | some elem => src + len ≤ elem.init.length

def EntryRefs (inst : InstanceData) (s : Store) (elemIdx : Nat) (t : TableInstance) (src k : Nat)
    (values : List Nat) : Prop :=
  values.length = k ∧
    ∀ i value, values[i]? = some value → entryRef inst s elemIdx t (src + i) = .ok value

/-- How `table.init` ends. Where a checkpoint interrupts it, the entries before it are written and
nothing else is; a reference that cannot be made ends it likewise. -/
inductive InitEnd (inst : InstanceData) (elemIdx : Nat) (g : Meter) (s : Store) (addr : Nat)
    (t : TableInstance) (dst src len : Nat) : Except Stop Dispatch × Machine → Prop
  | refused (hout : ¬InitRanges inst s elemIdx t dst src len) :
      InitEnd inst elemIdx g s addr t dst src len (.error (.trap .tableIndexOutOfRange), (g, s))
  | interrupted {k : Nat} {values : List Nat} {reason : InterruptReason} {g' g'' : Meter}
      (hranges : InitRanges inst s elemIdx t dst src len) (hlt : k < len)
      (hpasses : Lib.Passes vmCheckpoint g k g')
      (hgate : vmCheckpoint g' = (.error (.interrupted reason), g''))
      (hvalues : EntryRefs inst s elemIdx t src k values) :
      InitEnd inst elemIdx g s addr t dst src len
        (.error (.interrupted reason),
          (g'', s.setEntries addr (Lib.overwrite t.entries dst values)))
  | failed {k : Nat} {values : List Nat} {failure : Failure} {g' : Meter}
      (hranges : InitRanges inst s elemIdx t dst src len) (hlt : k < len)
      (hpasses : Lib.Passes vmCheckpoint g (k + 1) g')
      (href : entryRef inst s elemIdx t (src + k) = .error failure)
      (hvalues : EntryRefs inst s elemIdx t src k values) :
      InitEnd inst elemIdx g s addr t dst src len
        (.error (.trap failure), (g', s.setEntries addr (Lib.overwrite t.entries dst values)))
  | done {values : List Nat} {g' : Meter} (hranges : InitRanges inst s elemIdx t dst src len)
      (hpasses : Lib.Passes vmCheckpoint g len g')
      (hvalues : EntryRefs inst s elemIdx t src len values) :
      InitEnd inst elemIdx g s addr t dst src len
        (.ok (.callNext 2), (g', s.setEntries addr (Lib.overwrite t.entries dst values)))

section tableInit

variable {inst : InstanceData} {s : Store} {elemIdx addr : Nat} {t : TableInstance}

theorem setEntries_self (h : s.tables[addr]? = some t) : s.setEntries addr t.entries = s := by
  rw [Store.setEntries, Lib.modify_of_fixed h rfl]

theorem entryRefs_nil (src : Nat) : EntryRefs inst s elemIdx t src 0 [] :=
  ⟨rfl, fun i value h => by cases h⟩

theorem EntryRefs.concat {src k value : Nat} {values : List Nat}
    (h : EntryRefs inst s elemIdx t src k values)
    (href : entryRef inst s elemIdx t (src + k) = .ok value) :
    EntryRefs inst s elemIdx t src (k + 1) (values ++ [value]) := by
  obtain ⟨rfl, hrefs⟩ := h
  refine ⟨List.length_append, fun i v hv => ?_⟩
  by_cases hlt : i < values.length
  · rw [List.getElem?_append_left hlt] at hv
    exact hrefs i v hv
  · obtain ⟨hend, -⟩ := List.getElem?_eq_some_iff.mp hv
    obtain rfl : i = values.length := by
      rw [List.length_append, List.length_singleton] at hend
      omega
    rw [List.getElem?_concat_length] at hv
    obtain rfl := Option.some.inj hv
    exact href

def Written (inst : InstanceData) (s : Store) (elemIdx addr : Nat) (t : TableInstance)
    (dst src k : Nat) (u : Store) : Prop :=
  ∃ values, EntryRefs inst s elemIdx t src k values ∧
    u = s.setEntries addr (Lib.overwrite t.entries dst values)

theorem initEntry_error {elem : Elem} (helem : s.elems (inst.instanceId, elemIdx) = some elem)
    {dst src k : Nat} {u : Store} {failure : Failure} (hu : Written inst s elemIdx addr t dst src k u)
    (href : entryRef inst s elemIdx t (src + k) = .error failure) :
    initEntry inst elem.init addr t dst src k u = (.error (.trap failure), u) := by
  obtain ⟨values, -, rfl⟩ := hu
  simp only [entryRef, helem] at href
  simp [initEntry, Store.setEntries, href]

theorem initEntry_ok {elem : Elem} (helem : s.elems (inst.instanceId, elemIdx) = some elem)
    {dst src k value : Nat} {u : Store} (hu : Written inst s elemIdx addr t dst src k u)
    (href : entryRef inst s elemIdx t (src + k) = .ok value) :
    initEntry inst elem.init addr t dst src k u =
      (.ok (), { u with tables := u.tables.modify addr fun t =>
        { t with entries := t.entries.set (dst + k) value } }) := by
  obtain ⟨values, -, rfl⟩ := hu
  simp only [entryRef, helem] at href
  simp [initEntry, Store.setEntries, href]

theorem Written.next {dst src k value : Nat} {u : Store} (hfits : dst + k < t.entries.length)
    (hu : Written inst s elemIdx addr t dst src k u)
    (href : entryRef inst s elemIdx t (src + k) = .ok value) :
    Written inst s elemIdx addr t dst src (k + 1) { u with tables := u.tables.modify addr fun t =>
      { t with entries := t.entries.set (dst + k) value } } := by
  obtain ⟨values, hvalues, rfl⟩ := hu
  refine ⟨values ++ [value], hvalues.concat href, ?_⟩
  have hlen := hvalues.1
  rw [Lib.overwrite_concat (by omega), hlen]
  simp [Store.setEntries, List.modify_modify_eq, Function.comp_def]

theorem opTableInit_end {tableIdx : Nat} (htable : tableOf inst s tableIdx = some (addr, t))
    (g : Meter) (dst src len : U32) :
    InitEnd inst elemIdx g s addr t dst.toNat src.toNat len.toNat
      (opTableInit inst elemIdx tableIdx dst src len (g, s)) := by
  have hself : s.setEntries addr t.entries = s := by
    obtain ⟨_, _, hlookup⟩ := Option.bind_eq_some_iff.mp htable
    obtain ⟨t', ht, hpair⟩ := Option.map_eq_some_iff.mp hlookup
    obtain ⟨rfl, rfl⟩ := Prod.mk.inj hpair
    exact setEntries_self ht
  have hget : onStore (getTable inst tableIdx) (g, s) = (.ok (addr, t), (g, s)) := by
    simp [onStore, getTable_eq htable]
  rw [opTableInit, tableInitImpl, Attempt.bind_assoc, Attempt.bind_ok hget]
  dsimp only
  by_cases hdst : t.entries.length < dst.toNat + len.toNat
  · rw [if_pos hdst]
    exact .refused fun h => absurd h.1 (Nat.not_le.mpr hdst)
  rw [if_neg hdst, Attempt.bind_assoc]
  have hin := Nat.le_of_not_lt hdst
  cases helem : s.elems (inst.instanceId, elemIdx) with
  | none =>
      rw [Attempt.bind_ok (a := none) (t := (g, s)) (by simp [onStore, reading, helem])]
      dsimp only
      by_cases hempty : len.toNat = 0 ∧ src.toNat = 0
      · rw [if_pos hempty]
        have hnil : s = s.setEntries addr (Lib.overwrite t.entries dst.toNat []) := by
          rw [Lib.overwrite_nil, hself]
        have hdone : InitEnd inst elemIdx g s addr t dst.toNat src.toNat len.toNat
            (.ok (.callNext 2),
              (g, s.setEntries addr (Lib.overwrite t.entries dst.toNat []))) := by
          refine .done ⟨hin, by simpa [helem] using hempty⟩ ?_ ?_
          · rw [hempty.1]
            exact .start
          · rw [hempty.1]
            exact entryRefs_nil _
        rw [← hnil] at hdone
        exact hdone
      · rw [if_neg hempty]
        exact .refused fun h => hempty (by simpa [helem] using h.2)
  | some elem =>
      rw [Attempt.bind_ok (a := some elem) (t := (g, s)) (by simp [onStore, reading, helem])]
      dsimp only
      by_cases hsrc : elem.init.length < src.toNat + len.toNat
      · rw [if_pos hsrc]
        refine .refused fun h => ?_
        have hle : src.toNat + len.toNat ≤ elem.init.length := by simpa [helem] using h.2
        omega
      rw [if_neg hsrc]
      have hranges : InitRanges inst s elemIdx t dst.toNat src.toNat len.toNat :=
        ⟨hin, by simpa [helem] using Nat.le_of_not_lt hsrc⟩
      have hstart : Written inst s elemIdx addr t dst.toNat src.toNat 0 s :=
        ⟨[], entryRefs_nil _, by rw [Lib.overwrite_nil, hself]⟩
      have hend := @Lib.gatedRounds_end _ _ _ vmCheckpoint
        (initEntry inst elem.init addr t dst.toNat src.toNat)
        (Written inst s elemIdx addr t dst.toNat src.toNat) len.toNat (by
          intro k u u' hlt hwritten hact
          rcases href : entryRef inst s elemIdx t (src.toNat + k) with failure | value
          · rw [initEntry_error helem hwritten href] at hact
            cases (Prod.mk.inj hact).1
          · rw [initEntry_ok helem hwritten href] at hact
            obtain rfl := (Prod.mk.inj hact).2
            exact hwritten.next (by omega) href) g g 0 len.toNat s (Nat.zero_add _) .start hstart
      generalize hrun : Lib.gatedRounds vmCheckpoint
        (initEntry inst elem.init addr t dst.toNat src.toNat) 0 len.toNat (g, s) = result at hend
      cases hend with
      | @done g' u hpasses hreached =>
          rw [Attempt.bind_ok hrun]
          obtain ⟨values, hvalues, rfl⟩ := hreached
          exact .done hranges hpasses hvalues
      | @refused k g' g'' u e hlt hpasses hgate hreached =>
          rw [Attempt.bind_error hrun]
          obtain ⟨reason, rfl⟩ := vmCheckpoint_error hgate
          obtain ⟨values, hvalues, rfl⟩ := hreached
          exact .interrupted hranges hlt hpasses hgate hvalues
      | @failed k g' u u' e hlt hpasses hreached hact =>
          rw [Attempt.bind_error hrun]
          rcases href : entryRef inst s elemIdx t (src.toNat + k) with failure | value
          · rw [initEntry_error helem hreached href] at hact
            obtain ⟨hresult, rfl⟩ := Prod.mk.inj hact
            obtain rfl := Except.error.inj hresult
            obtain ⟨values, hvalues, rfl⟩ := hreached
            exact .failed hranges hlt hpasses href hvalues
          · rw [initEntry_ok helem hreached href] at hact
            cases (Prod.mk.inj hact).1

end tableInit

theorem constExpr_total {s : Store} {gts : List GlobalType} {functions globals funcs : List Nat}
    {expr : List ConstExpr} {rt : RefType} (hglobals : GlobalsAt s gts globals)
    (hfuncs : functions.length ≤ funcs.length)
    (hvalid : Parser.validateConstExprType gts functions expr rt.valType = .ok ()) :
    ∃ value, executeElemInitConstExpr s.globals globals funcs expr rt = .ok value := by
  have hno : ∀ vt : ValType, vt ≠ rt.valType → Parser.assertType rt.valType vt ≠ .ok () := by
    intro vt hne h
    unfold Parser.assertType at h
    split at h
    · next heq => exact hne heq.symm
    · cases h
  match expr with
  | [] => cases hvalid
  | _ :: _ :: _ => cases hvalid
  | [.i32 _] => exact absurd hvalid (hno _ (by cases rt <;> decide))
  | [.i64 _] => exact absurd hvalid (hno _ (by cases rt <;> decide))
  | [.f32 _] => exact absurd hvalid (hno _ (by cases rt <;> decide))
  | [.f64 _] => exact absurd hvalid (hno _ (by cases rt <;> decide))
  | [.v128 _] => exact absurd hvalid (hno _ (by cases rt <;> decide))
  | [.refNull ty] =>
      refine ⟨nullRef, ?_⟩
      have hty : rt = ty := by
        by_contra hne
        refine hno ty.valType ?_ hvalid
        cases rt <;> cases ty <;> first | exact absurd rfl hne | decide
      simp [executeElemInitConstExpr, hty]
  | [.funcRef idx] =>
      simp only [Parser.validateConstExprType] at hvalid
      split at hvalid
      · next hlt =>
          have hrt : rt = .funcRef := by
            by_contra hne
            refine hno .funcRef ?_ hvalid
            cases rt
            · exact absurd rfl hne
            · decide
          have haddr : getOr .invalidOperand funcs idx = .ok funcs[idx] :=
            getOr_eq_ok.mpr (List.getElem?_eq_getElem _)
          exact ⟨_, by simp [executeElemInitConstExpr, hrt, haddr]; rfl⟩
      · cases hvalid
  | [.globalGet idx] =>
      simp only [Parser.validateConstExprType] at hvalid
      split at hvalid
      · cases hvalid
      · next gt hgt =>
          split at hvalid
          · cases hvalid
          · obtain ⟨addr, haddr, hat⟩ := hglobals idx gt hgt
            unfold Parser.assertType at hvalid
            split at hvalid
            · next htype =>
                rw [GlobalAt, ← htype, List.getElem?_map] at hat
                obtain ⟨buf, hbuf, hlen⟩ := Option.map_eq_some_iff.mp hat
                have hwidth : buf.length = 4 := by
                  rw [hlen]
                  cases rt <;> rfl
                refine ⟨fromLeBytes buf, ?_⟩
                simp only [executeElemInitConstExpr, globalWord, Lib.bind_eq_ok, getOr_eq_ok,
                  index_eq_ok]
                exact ⟨addr, haddr, buf, hbuf, if_pos hwidth⟩
            · cases hvalid

/-- The entries of a segment that passed its check all have references. -/
theorem elemRef_total {s : Store} {gts : List GlobalType} {functions globals funcs : List Nat}
    {init : ElemInit} {rt : RefType} (hglobals : GlobalsAt s gts globals)
    (hfuncs : functions.length ≤ funcs.length)
    (hvalid : Parser.validateElemInit gts functions rt init = .ok ()) {i : Nat}
    (hi : i < init.length) : ∃ value, elemRef s.globals globals funcs rt init i = .ok value := by
  cases init with
  | funcIdx idxs =>
      have hidx : idxs[i] < functions.length := by
        have hcheck := Parser.forM_ok hvalid idxs[i] (List.getElem_mem _)
        by_contra hge
        rw [if_neg hge] at hcheck
        cases hcheck
      have hlt : idxs[i] < funcs.length := Nat.lt_of_lt_of_le hidx hfuncs
      refine ⟨funcRef funcs[idxs[i]], Lib.bind_eq_ok.mpr ⟨idxs[i], ?_, ?_⟩⟩
      · exact index_eq_ok.mpr (List.getElem?_eq_getElem hi)
      · exact Lib.bind_eq_ok.mpr ⟨_, index_eq_ok.mpr (List.getElem?_eq_getElem hlt), rfl⟩
  | constExpr exprs =>
      have hcheck := Parser.forM_ok hvalid exprs[i] (List.getElem_mem _)
      obtain ⟨value, hvalue⟩ := constExpr_total hglobals hfuncs hcheck
      exact ⟨value, Lib.bind_eq_ok.mpr
        ⟨exprs[i], index_eq_ok.mpr (List.getElem?_eq_getElem hi), hvalue⟩⟩

/-! ## All bulk instructions -/

inductive BulkOp where
  | memInit (idx : Nat) (dst src len : U32)
  | memInitShared (idx : Nat) (dst src len : U32)
  | memInitIndexedLocal (memidx idx : Nat) (dst src len : U32)
  | memInitIndexedShared (memidx idx : Nat) (dst src len : U32)
  | memFill (ptr data len : U32)
  | memFillShared (ptr data len : U32)
  | memFillIndexedLocal (memidx : Nat) (ptr data len : U32)
  | memFillIndexedShared (memidx : Nat) (ptr data len : U32)
  | memCopy (dst src len : U32)
  | memCopyShared (dst src len : U32)
  | memCopyIndexedLocalLocal (dstMemidx srcMemidx : Nat) (dst src len : U32)
  | memCopyIndexedLocalShared (dstMemidx srcMemidx : Nat) (dst src len : U32)
  | memCopyIndexedSharedLocal (dstMemidx srcMemidx : Nat) (dst src len : U32)
  | memCopyIndexedSharedShared (dstMemidx srcMemidx : Nat) (dst src len : U32)
  | tableInit (elemIdx tableIdx : Nat) (dst src len : U32)
  | tableCopy (dstTableIdx srcTableIdx : Nat) (dst src len : U32)
  | tableFill (tableIdx : Nat) (i val n : U32)

/-- A copy between two memories that the instruction names. -/
structure IndexedCopy where
  dstForm : MemoryForm
  srcForm : MemoryForm
  dst : U32
  src : U32
  len : U32

namespace BulkOp

def exec (inst : InstanceData) (pending : Nat) : BulkOp → Handler
  | .memInit idx dst src len => opMemInit inst idx dst src len
  | .memInitShared idx dst src len => opMemInitShared inst idx dst src len
  | .memInitIndexedLocal memidx idx dst src len => opMemInitIndexedLocal inst memidx idx dst src len
  | .memInitIndexedShared memidx idx dst src len => opMemInitIndexedShared inst memidx idx dst src len
  | .memFill ptr data len => opMemFill inst ptr data len
  | .memFillShared ptr data len => opMemFillShared inst ptr data len
  | .memFillIndexedLocal memidx ptr data len => opMemFillIndexedLocal inst memidx ptr data len
  | .memFillIndexedShared memidx ptr data len => opMemFillIndexedShared inst memidx ptr data len
  | .memCopy dst src len => opMemCopy inst pending dst src len
  | .memCopyShared dst src len => opMemCopyShared inst pending dst src len
  | .memCopyIndexedLocalLocal d s dst src len => opMemCopyIndexedLocalLocal inst d s pending dst src len
  | .memCopyIndexedLocalShared d s dst src len =>
      opMemCopyIndexedLocalShared inst d s pending dst src len
  | .memCopyIndexedSharedLocal d s dst src len =>
      opMemCopyIndexedSharedLocal inst d s pending dst src len
  | .memCopyIndexedSharedShared d s dst src len =>
      opMemCopyIndexedSharedShared inst d s pending dst src len
  | .tableInit elemIdx tableIdx dst src len => opTableInit inst elemIdx tableIdx dst src len
  | .tableCopy d s dst src len => opTableCopy inst d s dst src len
  | .tableFill tableIdx i val n => opTableFill inst tableIdx i val n

def copied : BulkOp → Option IndexedCopy
  | .memCopyIndexedLocalLocal d s dst src len => some ⟨⟨false, some d⟩, ⟨false, some s⟩, dst, src, len⟩
  | .memCopyIndexedLocalShared d s dst src len => some ⟨⟨false, some d⟩, ⟨true, some s⟩, dst, src, len⟩
  | .memCopyIndexedSharedLocal d s dst src len => some ⟨⟨true, some d⟩, ⟨false, some s⟩, dst, src, len⟩
  | .memCopyIndexedSharedShared d s dst src len => some ⟨⟨true, some d⟩, ⟨true, some s⟩, dst, src, len⟩
  | _ => none

def forms (op : BulkOp) : List MemoryForm :=
  match op, op.copied with
  | .memInit .., _ | .memFill .., _ | .memCopy .., _ => [⟨false, none⟩]
  | .memInitShared .., _ | .memFillShared .., _ | .memCopyShared .., _ => [⟨true, none⟩]
  | .memInitIndexedLocal memidx .., _ | .memFillIndexedLocal memidx .., _ => [⟨false, some memidx⟩]
  | .memInitIndexedShared memidx .., _ | .memFillIndexedShared memidx .., _ => [⟨true, some memidx⟩]
  | _, some copy => [copy.dstForm, copy.srcForm]
  | _, none => []

def tables : BulkOp → List Nat
  | .tableInit _ tableIdx .. => [tableIdx]
  | .tableCopy d s .. => [d, s]
  | .tableFill tableIdx .. => [tableIdx]
  | _ => []

/-- The instance has the memories, of their kinds, and the tables. -/
structure Valid (inst : InstanceData) (s : Store) (op : BulkOp) : Prop where
  forms : ∀ form ∈ op.forms, (form.memory inst s).isSome
  tables : ∀ tableIdx ∈ op.tables, (tableOf inst s tableIdx).isSome

def Crosses (inst : InstanceData) (op : BulkOp) : Prop :=
  ∃ copy, op.copied = some copy ∧ copy.dstForm.address inst ≠ copy.srcForm.address inst

def IsTableInit : BulkOp → Prop
  | .tableInit .. => True
  | _ => False

end BulkOp

/-- What an instruction comes to in a state of the meter and the store. -/
structure UnderFuel (inst : InstanceData) (op : BulkOp) (pending : Nat) (g : Meter) (s : Store) :
    Prop where
  whole : ¬op.Crosses inst → ¬op.IsTableInit → Whole (op.exec inst pending) g s
  copied : ∀ copy dst d m, op.copied = some copy →
    copy.dstForm.address inst ≠ copy.srcForm.address inst → copy.dstForm.address inst = some dst →
    copy.dstForm.memory inst s = some d → copy.srcForm.memory inst s = some m →
    CopyEnd pending g s dst d m copy.dst copy.src copy.len (op.exec inst pending (g, s))
  initialised : ∀ elemIdx tableIdx dst src len addr t,
    op = .tableInit elemIdx tableIdx dst src len → tableOf inst s tableIdx = some (addr, t) →
    InitEnd inst elemIdx g s addr t dst.toNat src.toNat len.toNat (op.exec inst pending (g, s))
  references : ∀ elemIdx tableIdx dst src len addr t gts functions failure,
    op = .tableInit elemIdx tableIdx dst src len → tableOf inst s tableIdx = some (addr, t) →
    GlobalsAt s gts inst.globals → functions.length ≤ inst.funcs.length →
    (∀ elem, s.elems (inst.instanceId, elemIdx) = some elem →
      Parser.validateElemInit gts functions t.type.reftype elem.init = .ok ()) →
    (op.exec inst pending (g, s)).1 = .error (.trap failure) → failure = .tableIndexOutOfRange

section instructions

variable {inst : InstanceData} {g : Meter} {s : Store}

theorem memInitWith_whole {form : MemoryForm} {idx : Nat} {dst src len : U32}
    (hform : (form.memory inst s).isSome) : Whole (memInitWith inst form idx dst src len) g s :=
  charged_whole (memInitImpl_failsUnchanged hform)

theorem memFillWith_whole {form : MemoryForm} {ptr data len : U32}
    (hform : (form.memory inst s).isSome) : Whole (memFillWith inst form ptr data len) g s :=
  charged_whole (onForm_failsUnchanged hform (fill_refuses ptr len data))

theorem memCopyWith_whole {shared : Bool} {pending : Nat} {dst src len : U32}
    (hform : (MemoryForm.memory inst s ⟨shared, none⟩).isSome) :
    Whole (memCopyWith inst shared pending dst src len) g s :=
  unlessPending_whole (charged_whole (onForm_failsUnchanged hform (copy_refuses dst src len)))

theorem memCopyIndexedWith_whole {dstShared srcShared : Bool} {d m pending : Nat} {dst src len : U32}
    (hdst : (MemoryForm.memory inst s ⟨dstShared, some d⟩).isSome)
    (hsrc : (MemoryForm.memory inst s ⟨srcShared, some m⟩).isSome)
    (hsame : inst.mems[d]? = inst.mems[m]?) :
    Whole (memCopyIndexedWith inst dstShared srcShared d m pending dst src len) g s := by
  obtain ⟨memory, hmemory⟩ := Option.isSome_iff_exists.mp hdst
  obtain ⟨addr, haddr, hat⟩ := Option.bind_eq_some_iff.mp hmemory
  obtain ⟨memory', hmemory'⟩ := Option.isSome_iff_exists.mp hsrc
  obtain ⟨addr', haddr', hat'⟩ := Option.bind_eq_some_iff.mp hmemory'
  obtain rfl : addr = addr' := Option.some.inj (haddr.symm.trans (hsame.trans haddr'))
  obtain rfl : dstShared = srcShared := by
    by_contra hkinds
    exact Store.addr_ne_of_kinds hat hat' hkinds rfl
  have hd : inst.mems[d]? = some addr := haddr
  have hm : inst.mems[m]? = some addr := haddr'
  refine unlessPending_whole ?_
  rw [hd, hm]
  simp only [copyMemoryWith, and_self, if_true]
  exact charged_whole (withMemory_failsUnchanged hat (copy_refuses dst src len))

theorem memCopyIndexedWith_crossing {dstShared srcShared : Bool} {dstMemidx srcMemidx pending : Nat}
    {addr : Nat} {d m : Linear.Memory} {dst src len : U32}
    (hne : inst.mems[dstMemidx]? ≠ inst.mems[srcMemidx]?) (haddr : inst.mems[dstMemidx]? = some addr)
    (hdst : MemoryForm.memory inst s ⟨dstShared, some dstMemidx⟩ = some d)
    (hsrc : MemoryForm.memory inst s ⟨srcShared, some srcMemidx⟩ = some m) :
    CopyEnd pending g s addr d m dst src len
      (memCopyIndexedWith inst dstShared srcShared dstMemidx srcMemidx pending dst src len (g, s)) := by
  obtain ⟨a, ha, hat⟩ := Option.bind_eq_some_iff.mp hdst
  obtain ⟨a', ha', hat'⟩ := Option.bind_eq_some_iff.mp hsrc
  obtain rfl : addr = a := Option.some.inj (haddr.symm.trans ha)
  have hm : inst.mems[srcMemidx]? = some a' := ha'
  have hapart : addr ≠ a' := by
    rintro rfl
    exact hne (haddr.trans hm.symm)
  have hcharge : ¬(dstShared = srcShared ∧ addr = a') := fun h => hapart h.2
  unfold memCopyIndexedWith unlessPending
  by_cases hpending : pending = 0
  · subst hpending
    rw [if_neg (fun h => h rfl), haddr, hm]
    simp only [hcharge, if_false]
    exact copyMemoryWith_crossing hapart hat hat' g dst src len
  · rw [if_pos hpending]
    exact .waits hpending

end instructions

/-- Every bulk instruction, in every state of the meter and the store. -/
theorem bulkOps_underFuel {inst : InstanceData} {op : BulkOp} (pending : Nat) (g : Meter) {s : Store}
    (hvalid : op.Valid inst s) : UnderFuel inst op pending g s := by
  obtain ⟨hforms, htables⟩ := hvalid
  refine ⟨fun hone hnot => ?_, ?_, ?_, ?_⟩
  · have hindexed : ∀ copy, op.copied = some copy →
        copy.dstForm.address inst = copy.srcForm.address inst := fun copy hcopy => by
      by_contra hne
      exact hone ⟨copy, hcopy, hne⟩
    cases op with
    | memInit | memInitShared | memInitIndexedLocal | memInitIndexedShared =>
        exact memInitWith_whole (hforms _ (List.mem_singleton_self _))
    | memFill | memFillShared | memFillIndexedLocal | memFillIndexedShared =>
        exact memFillWith_whole (hforms _ (List.mem_singleton_self _))
    | memCopy | memCopyShared => exact memCopyWith_whole (hforms _ (List.mem_singleton_self _))
    | memCopyIndexedLocalLocal | memCopyIndexedLocalShared | memCopyIndexedSharedLocal
    | memCopyIndexedSharedShared =>
        exact memCopyIndexedWith_whole (hforms _ (List.mem_cons_self ..))
          (hforms _ (List.mem_cons_of_mem _ (List.mem_singleton_self _))) (hindexed _ rfl)
    | tableInit => exact absurd trivial hnot
    | tableCopy =>
        exact opTableCopy_whole (htables _ (List.mem_cons_self ..))
          (htables _ (List.mem_cons_of_mem _ (List.mem_singleton_self _)))
    | tableFill => exact opTableFill_whole (htables _ (List.mem_singleton_self _))
  · intro copy addr d m hcopy hne haddr hdst hsrc
    cases op with
    | memCopyIndexedLocalLocal | memCopyIndexedLocalShared | memCopyIndexedSharedLocal
    | memCopyIndexedSharedShared =>
        obtain rfl := Option.some.inj hcopy
        exact memCopyIndexedWith_crossing hne haddr hdst hsrc
    | _ => cases hcopy
  · rintro elemIdx tableIdx dst src len addr t rfl htable
    exact opTableInit_end htable g dst src len
  · rintro elemIdx tableIdx dst src len addr t gts functions failure rfl htable hglobals hfuncs
      hchecked hfailure
    have hend : InitEnd inst elemIdx g s addr t dst.toNat src.toNat len.toNat _ :=
      opTableInit_end htable g dst src len
    rw [BulkOp.exec] at hfailure
    generalize opTableInit inst elemIdx tableIdx dst src len (g, s) = result at hend hfailure
    cases hend with
    | refused => exact (Stop.trap.inj (Except.error.inj hfailure)).symm
    | interrupted => cases hfailure
    | done => cases hfailure
    | @failed k values failure' g' hranges hlt hpasses href hvalues =>
        -- the segment was checked, so every entry has a reference
        obtain ⟨-, hsegment⟩ := hranges
        unfold entryRef at href
        split at href
        · next hnone =>
            rw [hnone] at hsegment
            omega
        · next elem helem =>
            rw [helem] at hsegment
            have hi : src.toNat + k < elem.init.length := by omega
            obtain ⟨value, hvalue⟩ := elemRef_total hglobals hfuncs (hchecked elem helem) hi
            rw [hvalue] at href
            cases href

/-- A local memory is copied to a shared one with fuel for one of two chunks. -/
theorem bulkOps_underFuel_shared :
    let inst : InstanceData := ⟨⟨[], [], [0, 1], []⟩, 0, 0⟩
    let object (shared : Bool) : MemoryObject := ⟨⟨1, none⟩, shared, 1, 1, fun _ => 7⟩
    UnderFuel inst (.memCopyIndexedSharedLocal 1 0 0 0 8192) 0 ⟨some (.new (some 1)), fun _ s => s, 0⟩
      { Store.empty 1 with memories := [object false, object true] } := by
  refine bulkOps_underFuel 0 _ ⟨?_, ?_⟩
  · intro form hform
    obtain rfl | rfl : form = ⟨true, some 1⟩ ∨ form = ⟨false, some 0⟩ := by
      simpa [BulkOp.forms, BulkOp.copied] using hform
    · rfl
    · rfl
  · intro tableIdx htable
    cases htable

end Telomere.Runtime
