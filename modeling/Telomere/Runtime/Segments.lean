import Telomere.Runtime.ImportMatching

/-!
# The order of the segments

Instantiation copies the data segments before it writes the element segments and keeps active data
segments in the store. Beside it stands the same instantiation with the segments in the order of
the WebAssembly specification.
-/

namespace Telomere.Runtime

/-- Element segments, then data segments, each stopping at the first that fails. -/
def instantiateInOrder (mappable : Nat → Bool) (registry : Registry) (s : Store) (m : Module) :
    Store × Except Failure Nat :=
  let id := s.nextInstanceId
  let inst := s.instances.length
  let mod := s.modules.length
  Lib.andThen (prepare mappable registry s m) fun s sp =>
  Lib.andThen (allocate inst m s sp) fun s sp =>
  Lib.andThen (initElems id sp s m.elems) fun s _ =>
  Lib.andThen (initData id sp s m.data) fun s _ =>
  (s.place inst ⟨sp, id, mod⟩, .ok inst)

def Store.withData (s : Store) (memories : List MemoryObject) (data : Nat × Nat → Option Data) :
    Store :=
  { s with memories := memories, data := data }

theorem allocGlobals_withData (funcs : List Nat) (s : Store) (globals : List Nat)
    (inits : List ConstExpr) (memories : List MemoryObject) (data : Nat × Nat → Option Data) :
    allocGlobals funcs (s.withData memories data) globals inits =
      ((allocGlobals funcs s globals inits).1.withData memories data,
        (allocGlobals funcs s globals inits).2) := by
  induction inits generalizing s globals with
  | nil => rfl
  | cons init rest ih =>
      have hglobals : (s.withData memories data).globals = s.globals := rfl
      unfold allocGlobals
      rw [hglobals]
      rcases initBytes s.globals globals funcs init with e | bytes
      · rfl
      · exact ih { s with globals := s.globals ++ [bytes] } (globals ++ [s.globals.length])

theorem allocate_withData (inst : Nat) (m : Module) (s : Store) (sp : Spaces)
    (memories : List MemoryObject) (data : Nat × Nat → Option Data) :
    allocate inst m (s.withData memories data) sp =
      ((allocate inst m s sp).1.withData memories data, (allocate inst m s sp).2) := by
  unfold allocate
  rw [allocFuncs_eq, allocFuncs_eq]
  have hglobals := allocGlobals_withData (sp.funcs ++ List.range' s.funcs.length m.codes.length)
    { s with funcs := s.funcs ++ newFuncs inst sp.funcs.length m.codes } sp.globals m.globalInit
    memories data
  change Lib.andThen (allocGlobals (sp.funcs ++ List.range' s.funcs.length m.codes.length)
    (Store.withData { s with
      funcs := s.funcs ++ newFuncs inst sp.funcs.length m.codes } memories data) _ _) _ = _
  rw [hglobals]
  dsimp only
  rcases allocGlobals (sp.funcs ++ List.range' s.funcs.length m.codes.length)
    { s with funcs := s.funcs ++ newFuncs inst sp.funcs.length m.codes } sp.globals m.globalInit
    with ⟨t, e | globals⟩
  · rfl
  · rw [Lib.andThen_ok, Lib.andThen_ok, allocTables_eq, allocTables_eq]
    rfl

theorem initElems_withData (id : Nat) (sp : Spaces) (s : Store) (elems : List Elem)
    (memories : List MemoryObject) (data : Nat × Nat → Option Data) :
    initElems id sp (s.withData memories data) elems =
      ((initElems id sp s elems).1.withData memories data, (initElems id sp s elems).2) := by
  refine @Lib.runAll_view _ _ _ _ (initElem id sp) (initElem id sp)
    (fun t => t.withData memories data) (fun _ => True) _ (fun _ _ _ _ => trivial) ?_ s trivial
  intro s entry _ _
  unfold initElem
  split <;> rfl

/-- The other parts of the store, those a data segment does not touch, taken from `u`. -/
def Store.dataOver (s u : Store) : Store := u.withData s.memories s.data

/-- Data segments do the same in a store that differs in the rest, where their offsets are the
same. -/
theorem initData_over {id : Nat} {sp sp' : Spaces} {s u : Store} {data : List Data}
    (hmems : sp'.mems = sp.mems)
    (hoffset : ∀ d ∈ data, ∀ mem offset, d.mode = .active mem offset →
      executeOffsetConstExpr u.globals sp'.globals offset =
        executeOffsetConstExpr s.globals sp.globals offset) :
    initData id sp' (s.dataOver u) data =
      ((initData id sp s data).1.dataOver u, (initData id sp s data).2) := by
  refine @Lib.runAll_view _ _ _ _ (initDatum id sp) (initDatum id sp') (fun t => t.dataOver u)
    (fun t => t.globals = s.globals) _ ?_ ?_ s rfl
  · intro t entry _ hglobals
    rw [(initDatum_frame id sp t entry).rest]
    exact hglobals
  · rintro t ⟨d, idx⟩ hentry hglobals
    have hmem : d ∈ data := List.fst_mem_of_mem_zipIdx hentry
    unfold initDatum
    dsimp only
    split
    · rfl
    · next mem offset hmode =>
        have hwrite : writeData (t.dataOver u).globals sp' (t.dataOver u).memories mem offset d.init =
            writeData t.globals sp t.memories mem offset d.init := by
          unfold writeData
          rw [hmems, hglobals, ← hoffset d hmem mem offset hmode]
          rfl
        rw [hwrite]
        split <;> rfl

theorem executeOffsetConstExpr_mono {values values' : List (List Byte)}
    {globals globals' : List Nat} {exprs : List ConstExpr} {offset : Nat}
    (hvalues : values <+: values') (hglobals : globals <+: globals')
    (hok : executeOffsetConstExpr values globals exprs = .ok offset) :
    executeOffsetConstExpr values' globals' exprs = .ok offset := by
  unfold executeOffsetConstExpr at hok ⊢
  split at hok
  · exact hok
  · next idx =>
      obtain ⟨addr, haddr, hok⟩ := Lib.bind_eq_ok.mp hok
      obtain ⟨buf, hbuf, hok⟩ := Lib.bind_eq_ok.mp hok
      exact Lib.bind_eq_ok.mpr
        ⟨addr, getOr_eq_ok.mpr (getElem?_prefix_mono hglobals (getOr_eq_ok.mp haddr)),
          Lib.bind_eq_ok.mpr ⟨buf, index_mono hvalues hbuf, hok⟩⟩
  · cases hok

/-- Imported globals of a type are where the instance has them. -/
def GlobalsAt (s : Store) (gts : List GlobalType) (globals : List Nat) : Prop :=
  ∀ (idx : Nat) gt, gts[idx]? = some gt → ∃ addr, globals[idx]? = some addr ∧ GlobalAt s gt addr

theorem offset_total {s : Store} {gts : List GlobalType} {globals : List Nat}
    {exprs : List ConstExpr} (hglobals : GlobalsAt s gts globals)
    (hvalid : Parser.validateOffsetConstExpr gts exprs = .ok ()) :
    ∃ offset, executeOffsetConstExpr s.globals globals exprs = .ok offset := by
  unfold Parser.validateOffsetConstExpr Parser.validateConstExprType at hvalid
  split at hvalid
  · next expr =>
      cases expr with
      | i32 v => exact ⟨v.toNat, rfl⟩
      | globalGet idx =>
          dsimp only at hvalid
          split at hvalid
          · cases hvalid
          · next gt hgt =>
              split at hvalid
              · cases hvalid
              · obtain ⟨addr, haddr, hat⟩ := hglobals idx gt hgt
                unfold Parser.assertType at hvalid
                split at hvalid
                · next htype =>
                    rw [GlobalAt, ← htype, List.getElem?_map] at hat
                    obtain ⟨buf, hbuf, hlen⟩ := Option.map_eq_some_iff.mp hat
                    refine ⟨fromLeBytes buf, ?_⟩
                    simp only [executeOffsetConstExpr, globalWord, Lib.bind_eq_ok, getOr_eq_ok,
                      index_eq_ok]
                    exact ⟨addr, haddr, buf, hbuf, by simp [hlen, ValType.stackSize]⟩
                · cases hvalid
      | refNull ty => cases ty <;> cases hvalid
      | _ => cases hvalid
  · cases hvalid

theorem initBytes_total {s : Store} {gts : List GlobalType} {functions globals funcs : List Nat}
    {init : ConstExpr} {vt : ValType} (hglobals : GlobalsAt s gts globals)
    (hfuncs : functions.length ≤ funcs.length)
    (hvalid : Parser.validateConstExprType gts functions [init] vt = .ok ()) :
    ∃ bytes, initBytes s.globals globals funcs init = .ok bytes := by
  cases init with
  | funcRef idx =>
      simp only [Parser.validateConstExprType] at hvalid
      split at hvalid
      · next hlt =>
          refine ⟨_, Lib.bind_eq_ok.mpr ⟨funcs[idx], getOr_eq_ok.mpr ?_, rfl⟩⟩
          exact List.getElem?_eq_getElem _
      · cases hvalid
  | globalGet idx =>
      simp only [Parser.validateConstExprType] at hvalid
      split at hvalid
      · cases hvalid
      · next gt hgt =>
          obtain ⟨addr, haddr, hat⟩ := hglobals idx gt hgt
          rw [GlobalAt, List.getElem?_map] at hat
          obtain ⟨buf, hbuf, -⟩ := Option.map_eq_some_iff.mp hat
          exact ⟨buf, Lib.bind_eq_ok.mpr ⟨addr, index_eq_ok.mpr haddr, index_eq_ok.mpr hbuf⟩⟩
  | _ => exact ⟨_, rfl⟩

theorem allocGlobals_total {funcs : List Nat} {s : Store} {globals : List Nat}
    {inits : List ConstExpr}
    (h : ∀ init ∈ inits, ∃ bytes, initBytes s.globals globals funcs init = .ok bytes) :
    ∃ t globals', allocGlobals funcs s globals inits = (t, .ok globals') := by
  induction inits generalizing s globals with
  | nil => exact ⟨s, globals, rfl⟩
  | cons init rest ih =>
      obtain ⟨bytes, hbytes⟩ := h init (List.mem_cons_self ..)
      unfold allocGlobals
      rw [hbytes]
      refine ih fun next hnext => ?_
      obtain ⟨value, hvalue⟩ := h next (List.mem_cons_of_mem _ hnext)
      exact ⟨value, initBytes_mono (List.prefix_append _ _) (List.prefix_append _ _) hvalue⟩

theorem allocate_total {inst : Nat} {m : Module} {s : Store} {sp : Spaces}
    (h : ∀ init ∈ m.globalInit, ∃ bytes, initBytes s.globals sp.globals
      (sp.funcs ++ List.range' s.funcs.length m.codes.length) init = .ok bytes) :
    ∃ t sp', allocate inst m s sp = (t, .ok sp') := by
  obtain ⟨t, globals, hglobals⟩ := @allocGlobals_total _
    { s with funcs := s.funcs ++ newFuncs inst sp.funcs.length m.codes } _ _ h
  unfold allocate
  rw [allocFuncs_eq]
  dsimp only
  rw [hglobals, Lib.andThen_ok, allocTables_eq]
  exact ⟨_, _, rfl⟩

/-- A data segment that is passive or lies inside the memory it names. -/
def DataFits (s : Store) (sp : Spaces) (d : Data) : Prop :=
  match d.mode with
  | .passive => True
  | .active mem offset => ∃ o addr size,
      executeOffsetConstExpr s.globals sp.globals offset = .ok o ∧ sp.mems[mem]? = some addr ∧
      (s.memories.map (·.dataSize))[addr]? = some size ∧ o + d.init.length ≤ size

/-- An element segment that is not active or lies inside the table it names and evaluates to
references of the table's type. -/
def ElemFits (s : Store) (sp : Spaces) (elem : Elem) : Prop :=
  match elem.mode with
  | .passive | .declarative => True
  | .active table offset => ∃ o addr tt size,
      executeOffsetConstExpr s.globals sp.globals offset = .ok o ∧ sp.tables[table]? = some addr ∧
      (s.tables.map (·.shape))[addr]? = some (tt, size) ∧ kindMismatch elem tt = false ∧
      o + elem.init.length ≤ size ∧
      ∀ i < elem.init.length, ∃ value,
        elemRef s.globals sp.globals sp.funcs tt.reftype elem.init i = .ok value

theorem initDatum_ok_iff (id : Nat) (sp : Spaces) (s : Store) (d : Data) (idx : Nat) :
    (initDatum id sp s (d, idx)).2 = .ok () ↔ DataFits s sp d := by
  unfold initDatum DataFits
  dsimp only
  cases d.mode with
  | passive => simp
  | active mem offset =>
      dsimp only
      constructor
      · intro hok
        split at hok
        · next memories hwrite =>
            simp only [writeData, Lib.bind_eq_ok, getOr_eq_ok, index_eq_ok, Lib.pure_eq_ok]
              at hwrite
            obtain ⟨o, ho, addr, haddr, memory, hmemory, written, hwritten, -⟩ := hwrite
            refine ⟨o, addr, memory.dataSize, ho, haddr, by simp [hmemory], ?_⟩
            unfold MemoryObject.writeBytes at hwritten
            split at hwritten
            · assumption
            · cases hwritten
        · cases hok
      · rintro ⟨o, addr, size, ho, haddr, hsize, hle⟩
        rw [List.getElem?_map] at hsize
        obtain ⟨memory, hmemory, rfl⟩ := Option.map_eq_some_iff.mp hsize
        have hwrite : writeData s.globals sp s.memories mem offset d.init =
            .ok (s.memories.set addr (memory.write o d.init)) := by
          simp only [writeData, Lib.bind_eq_ok, getOr_eq_ok, index_eq_ok, Lib.pure_eq_ok]
          exact ⟨o, ho, addr, haddr, memory, hmemory, _,
            by rw [MemoryObject.writeBytes, if_pos hle], rfl⟩
        rw [hwrite]

theorem writeEntries_ok_iff (ref : Nat → Except Failure Nat) (t : TableInstance)
    (src dst count : Nat) :
    (writeEntries ref t src dst count).2 = .ok () ↔
      ∀ i < count, ∃ value, ref (src + i) = .ok value := by
  induction count with
  | zero => simp [writeEntries]
  | succ count ih =>
      unfold writeEntries
      rw [Nat.forall_lt_succ_right, ← ih]
      rcases writeEntries ref t src dst count with ⟨u, e | _⟩
      · simp
      · rw [Lib.andThen_ok]
        rcases ref (src + count) with e | value <;> simp

theorem initElem_ok_iff (id : Nat) (sp : Spaces) (s : Store) (elem : Elem) (idx : Nat) :
    (initElem id sp s (elem, idx)).2 = .ok () ↔ ElemFits s sp elem := by
  unfold initElem ElemFits
  dsimp only
  cases elem.mode with
  | passive => simp
  | declarative => simp
  | active table offset =>
      simp only [Store.withTables, writeElem]
      rcases executeOffsetConstExpr s.globals sp.globals offset with e | o
      · simp
      rcases sp.tables[table]? with _ | addr
      · simp
      simp only [updateTable]
      rcases htable : s.tables[addr]? with _ | t
      · simp [htable]
      simp only [List.getElem?_map, TableInstance.shape, fillTable]
      by_cases hmismatch : kindMismatch elem t.type = true
      · simp [htable, hmismatch]
      · by_cases hle : t.entries.length < o + elem.init.length
        · simp [htable, hmismatch, hle, Nat.not_le.mpr hle]
        · simp [htable, hmismatch, hle, writeEntries_ok_iff, Nat.not_lt.mp hle]

theorem DataFrame.fits {s t : Store} (h : DataFrame s t) (sp : Spaces) (d : Data) :
    DataFits t sp d ↔ DataFits s sp d := by
  have hglobals : t.globals = s.globals := by rw [h.rest]
  have hsizes : t.memories.map (·.dataSize) = s.memories.map (·.dataSize) := by
    have hpages := congrArg (List.map fun shape => shape.2.1 * pageSize) h.memories
    simpa [MemoryObject.shape, MemoryObject.dataSize, Function.comp_def] using hpages
  unfold DataFits
  rw [hglobals, hsizes]

theorem ElemFrame.fits {s t : Store} (h : ElemFrame s t) (sp : Spaces) (elem : Elem) :
    ElemFits t sp elem ↔ ElemFits s sp elem := by
  have hglobals : t.globals = s.globals := by rw [h.rest]
  unfold ElemFits
  rw [hglobals, h.tables]

theorem initData_ok_iff (id : Nat) (sp : Spaces) (s : Store) (data : List Data) :
    (initData id sp s data).2 = .ok () ↔ ∀ d ∈ data, DataFits s sp d := by
  have hrun : (initData id sp s data).2 = .ok () ↔
      ∀ entry ∈ data.zipIdx, DataFits s sp entry.1 := by
    refine Lib.runAll_ok_iff (P := DataFrame s) ?_ ?_ (.refl s)
    · intro t entry _ h
      exact h.trans (initDatum_frame id sp t entry)
    · intro t entry _ h
      rw [initDatum_ok_iff, h.fits]
  rw [hrun]
  constructor
  · intro h d hd
    rw [← List.zipIdx_map_fst 0 data] at hd
    obtain ⟨entry, hentry, rfl⟩ := List.mem_map.mp hd
    exact h entry hentry
  · exact fun h entry hentry => h entry.1 (List.fst_mem_of_mem_zipIdx hentry)

theorem initElems_ok_iff (id : Nat) (sp : Spaces) (s : Store) (elems : List Elem) :
    (initElems id sp s elems).2 = .ok () ↔ ∀ elem ∈ elems, ElemFits s sp elem := by
  have hrun : (initElems id sp s elems).2 = .ok () ↔
      ∀ entry ∈ elems.zipIdx, ElemFits s sp entry.1 := by
    refine Lib.runAll_ok_iff (P := ElemFrame s) ?_ ?_ (.refl s)
    · intro t entry _ h
      exact h.trans (initElem_frame id sp t entry)
    · intro t entry _ h
      rw [initElem_ok_iff, h.fits]
  rw [hrun]
  constructor
  · intro h elem helem
    rw [← List.zipIdx_map_fst 0 elems] at helem
    obtain ⟨entry, hentry, rfl⟩ := List.mem_map.mp helem
    exact h entry hentry
  · exact fun h entry hentry => h entry.1 (List.fst_mem_of_mem_zipIdx hentry)

/-- A data segment that names a memory the store has can only fail by leaving it. -/
theorem writeData_error {values : List (List Byte)} {sp : Spaces} {memories : List MemoryObject}
    {mem : Nat} {offset : List ConstExpr} {init : List Byte} {e : Failure}
    (hoffset : ∃ o, executeOffsetConstExpr values sp.globals offset = .ok o)
    (hmems : ∀ addr ∈ sp.mems, addr < memories.length)
    (herror : writeData values sp memories mem offset init = .error e) :
    e = .memoryIndexOutOfRange := by
  obtain ⟨o, ho⟩ := hoffset
  rcases Lib.bind_eq_error.mp herror with herror | ⟨_, -, herror⟩
  · rw [ho] at herror
    cases herror
  rcases Lib.bind_eq_error.mp herror with herror | ⟨addr, haddr, herror⟩
  · exact getOr_error herror
  rcases Lib.bind_eq_error.mp herror with herror | ⟨memory, -, herror⟩
  · have hlt := hmems addr (List.mem_of_getElem? (getOr_eq_ok.mp haddr))
    rw [List.getElem?_eq_getElem hlt |> index_eq_ok.mpr] at herror
    cases herror
  rcases Lib.bind_eq_error.mp herror with herror | ⟨_, -, herror⟩
  · unfold MemoryObject.writeBytes at herror
    split at herror
    · cases herror
    · exact (Except.error.inj herror).symm
  · cases herror

theorem initData_error {id : Nat} {sp : Spaces} {s : Store} {data : List Data} {e : Failure}
    (hoffset : ∀ d ∈ data, ∀ mem offset, d.mode = .active mem offset →
      ∃ o, executeOffsetConstExpr s.globals sp.globals offset = .ok o)
    (hmems : ∀ addr ∈ sp.mems, addr < s.memories.length)
    (herror : (initData id sp s data).2 = .error e) : e = .memoryIndexOutOfRange := by
  refine Lib.runAll_error (P := DataFrame s) (Q := fun e => e = .memoryIndexOutOfRange) ?_ ?_
    (.refl s) herror
  · intro t entry _ h
    exact h.trans (initDatum_frame id sp t entry)
  · rintro t ⟨d, idx⟩ hentry h e herror
    have hglobals : t.globals = s.globals := by rw [h.rest]
    have hlen : t.memories.length = s.memories.length := by
      have hlengths := congrArg List.length h.memories
      simpa using hlengths
    unfold initDatum at herror
    dsimp only at herror
    split at herror
    · cases herror
    · next mem offset hmode =>
        split at herror
        · cases herror
        · next failure hwrite =>
            obtain rfl := Except.error.inj herror
            rw [hglobals] at hwrite
            refine writeData_error ?_ ?_ hwrite
            · exact hoffset d (List.fst_mem_of_mem_zipIdx hentry) mem offset hmode
            · rw [hlen]
              exact hmems

theorem globalWord_error {values : List (List Byte)} {globals : List Nat} {idx : Nat} {e : Failure}
    (herror : globalWord values globals idx = .error e) : e ≠ .memoryIndexOutOfRange := by
  rintro rfl
  rcases Lib.bind_eq_error.mp herror with herror | ⟨_, -, herror⟩
  · cases getOr_error herror
  rcases Lib.bind_eq_error.mp herror with herror | ⟨_, -, herror⟩
  · cases index_error herror
  · split at herror <;> cases herror

theorem elemRef_error {values : List (List Byte)} {globals funcs : List Nat} {expected : RefType}
    {init : ElemInit} {i : Nat} {e : Failure}
    (herror : elemRef values globals funcs expected init i = .error e) :
    e ≠ .memoryIndexOutOfRange := by
  rintro rfl
  cases init with
  | funcIdx idxs =>
      rcases Lib.bind_eq_error.mp herror with herror | ⟨_, -, herror⟩
      · cases index_error herror
      rcases Lib.bind_eq_error.mp herror with herror | ⟨_, -, herror⟩
      · cases index_error herror
      · cases herror
  | constExpr exprs =>
      rcases Lib.bind_eq_error.mp herror with herror | ⟨expr, -, herror⟩
      · cases index_error herror
      unfold executeElemInitConstExpr at herror
      split at herror
      · split at herror
        · cases herror
        · rcases Lib.bind_eq_error.mp herror with herror | ⟨_, -, herror⟩
          · cases getOr_error herror
          · cases herror
      · split at herror <;> cases herror
      · exact globalWord_error herror rfl
      · cases herror

theorem writeEntries_error {ref : Nat → Except Failure Nat} {t : TableInstance}
    {src dst count : Nat} {e : Failure} (herror : (writeEntries ref t src dst count).2 = .error e) :
    ∃ i, ref i = .error e := by
  induction count with
  | zero => cases herror
  | succ count ih =>
      unfold writeEntries at herror
      rcases hr : writeEntries ref t src dst count with ⟨u, e' | _⟩
      · rw [hr] at herror ih
        exact ih herror
      · rw [hr, Lib.andThen_ok] at herror
        rcases href : ref (src + count) with e' | value
        · rw [href] at herror
          obtain rfl := Except.error.inj herror
          exact ⟨_, href⟩
        · rw [href] at herror
          cases herror

theorem initElems_error {id : Nat} {sp : Spaces} {s : Store} {elems : List Elem} {e : Failure}
    (herror : (initElems id sp s elems).2 = .error e) : e ≠ .memoryIndexOutOfRange := by
  refine Lib.runAll_error (P := fun _ => True) (Q := fun e => e ≠ .memoryIndexOutOfRange)
    (fun _ _ _ _ => trivial) ?_ trivial herror
  rintro t ⟨elem, idx⟩ _ _ e herror
  unfold initElem at herror
  dsimp only at herror
  split at herror
  · cases herror
  · cases herror
  · next table offset hmode =>
      simp only [Store.withTables, writeElem] at herror
      split at herror
      · next failure hoffset =>
          obtain rfl := Except.error.inj herror
          rintro rfl
          unfold executeOffsetConstExpr at hoffset
          split at hoffset
          · cases hoffset
          · exact globalWord_error hoffset rfl
          · cases hoffset
      · obtain rfl := Except.error.inj herror
        simp
      · unfold updateTable at herror
        split at herror
        · obtain rfl := Except.error.inj herror
          simp
        · dsimp only [fillTable] at herror
          split at herror
          · obtain rfl := Except.error.inj herror
            simp
          · split at herror
            · obtain rfl := Except.error.inj herror
              simp
            · obtain ⟨i, href⟩ := writeEntries_error herror
              exact elemRef_error href

def landData (values : List (List Byte)) (sp : Spaces) (addr : Nat) (memory : MemoryObject)
    (d : Data) : MemoryObject :=
  match d.mode with
  | .passive => memory
  | .active mem offset =>
      match executeOffsetConstExpr values sp.globals offset with
      | .ok o => if sp.mems[mem]? = some addr then memory.write o d.init else memory
      | .error _ => memory

def landElem (values : List (List Byte)) (sp : Spaces) (addr : Nat) (t : TableInstance)
    (elem : Elem) : TableInstance :=
  match elem.mode with
  | .passive | .declarative => t
  | .active table offset =>
      match executeOffsetConstExpr values sp.globals offset with
      | .ok o => if sp.tables[table]? = some addr then (fillTable values sp o elem t).1 else t
      | .error _ => t

theorem initDatum_lands {id : Nat} {sp : Spaces} {s : Store} {d : Data} {idx : Nat}
    (hfits : DataFits s sp d) (addr : Nat) :
    (initDatum id sp s (d, idx)).1.memories[addr]? =
      (s.memories[addr]?).map (landData s.globals sp addr · d) := by
  unfold DataFits at hfits
  unfold initDatum landData
  dsimp only
  cases hmode : d.mode with
  | passive => simp
  | active mem offset =>
      rw [hmode] at hfits
      dsimp only at hfits ⊢
      obtain ⟨o, a, size, ho, ha, hsize, hle⟩ := hfits
      rw [List.getElem?_map] at hsize
      obtain ⟨memory, hmemory, rfl⟩ := Option.map_eq_some_iff.mp hsize
      have hwrite : writeData s.globals sp s.memories mem offset d.init =
          .ok (s.memories.set a (memory.write o d.init)) := by
        simp only [writeData, Lib.bind_eq_ok, getOr_eq_ok, index_eq_ok, Lib.pure_eq_ok]
        exact ⟨o, ho, a, ha, memory, hmemory, _,
          by rw [MemoryObject.writeBytes, if_pos hle], rfl⟩
      rw [hwrite]
      simp only [ho, ha, Option.some.injEq]
      rw [List.getElem?_set]
      by_cases heq : a = addr
      · subst heq
        have hlt := (List.getElem?_eq_some_iff.mp hmemory).1
        rw [if_pos rfl, if_pos hlt, hmemory, Option.map_some, if_pos rfl]
      · simp [heq]

theorem initElem_lands {id : Nat} {sp : Spaces} {s : Store} {elem : Elem} {idx : Nat} (addr : Nat) :
    (initElem id sp s (elem, idx)).1.tables[addr]? =
      (s.tables[addr]?).map (landElem s.globals sp addr · elem) := by
  unfold initElem landElem
  dsimp only
  cases elem.mode with
  | passive => simp
  | declarative => simp
  | active table offset =>
      dsimp only
      cases ho : executeOffsetConstExpr s.globals sp.globals offset with
      | error e => simp [Store.withTables, writeElem, ho]
      | ok o =>
          cases ha : sp.tables[table]? with
          | none => simp [Store.withTables, writeElem, ho, ha]
          | some a =>
              simp only [Store.withTables, writeElem, ho, ha, updateTable, Option.some.injEq]
              cases htable : s.tables[a]? with
              | none =>
                  by_cases heq : a = addr
                  · simp [← heq, htable]
                  · simp [heq]
              | some t =>
                  dsimp only
                  rw [List.getElem?_set]
                  by_cases heq : a = addr
                  · subst heq
                    have hlt := (List.getElem?_eq_some_iff.mp htable).1
                    rw [if_pos rfl, if_pos hlt, htable, Option.map_some, if_pos rfl]
                  · simp [heq]

private theorem foldl_map {α β : Type} (f : α → β → α) (o : Option α) (entries : List (β × Nat)) :
    entries.foldl (fun o e => o.map (f · e.1)) o =
      o.map fun a => (entries.map (·.1)).foldl f a := by
  induction entries generalizing o with
  | nil => simp
  | cons e entries ih =>
      rw [List.foldl_cons, ih]
      cases o <;> rfl

theorem initData_lands {id : Nat} {sp : Spaces} {s : Store} {data : List Data}
    (hfits : ∀ d ∈ data, DataFits s sp d) (addr : Nat) :
    (initData id sp s data).1.memories[addr]? =
      (s.memories[addr]?).map fun memory => data.foldl (landData s.globals sp addr) memory := by
  have hview := @Lib.runAll_view _ _ _ _ (initDatum id sp)
    (fun o e => (o.map (landData s.globals sp addr · e.1), .ok ())) (fun t => t.memories[addr]?)
    (DataFrame s) data.zipIdx (fun t entry _ h => h.trans (initDatum_frame id sp t entry)) ?_ s
    (.refl s)
  · rw [Lib.runAll_pure, foldl_map, List.zipIdx_map_fst] at hview
    exact (Prod.mk.inj hview).1.symm
  · rintro t ⟨d, idx⟩ hentry h
    have hglobals : t.globals = s.globals := by rw [h.rest]
    have hfit : DataFits t sp d := (h.fits sp d).mpr
      (hfits d (List.fst_mem_of_mem_zipIdx hentry))
    rw [initDatum_lands hfit addr, (initDatum_ok_iff id sp t d idx).mpr hfit, hglobals]

theorem initElems_lands {id : Nat} {sp : Spaces} {s : Store} {elems : List Elem}
    (hfits : ∀ elem ∈ elems, ElemFits s sp elem) (addr : Nat) :
    (initElems id sp s elems).1.tables[addr]? =
      (s.tables[addr]?).map fun t => elems.foldl (landElem s.globals sp addr) t := by
  have hview := @Lib.runAll_view _ _ _ _ (initElem id sp)
    (fun o e => (o.map (landElem s.globals sp addr · e.1), .ok ())) (fun t => t.tables[addr]?)
    (ElemFrame s) elems.zipIdx (fun t entry _ h => h.trans (initElem_frame id sp t entry)) ?_ s
    (.refl s)
  · rw [Lib.runAll_pure, foldl_map, List.zipIdx_map_fst] at hview
    exact (Prod.mk.inj hview).1.symm
  · rintro t ⟨elem, idx⟩ hentry h
    have hglobals : t.globals = s.globals := by rw [h.rest]
    have hfit : ElemFits t sp elem := (h.fits sp elem).mpr
      (hfits elem (List.fst_mem_of_mem_zipIdx hentry))
    rw [initElem_lands addr, (initElem_ok_iff id sp t elem idx).mpr hfit, hglobals]

/-- The segments up to the first that does not fit leave the tables as they are then; that one may
have written some of its entries. -/
theorem initElems_stops {id : Nat} {sp : Spaces} {s : Store} {done rest : List Elem} {elem : Elem}
    (hdone : ∀ e ∈ done, ElemFits s sp e) (helem : ¬ElemFits s sp elem) (addr : Nat) :
    (initElems id sp s (done ++ elem :: rest)).1.tables[addr]? =
      (s.tables[addr]?).map fun t => (done ++ [elem]).foldl (landElem s.globals sp addr) t := by
  have hframe := initElems_frame id sp s done
  have hok := (initElems_ok_iff id sp s done).mpr hdone
  have hlands := @initElems_lands id sp s done hdone addr
  rcases hrun : initElems id sp s done with ⟨t, e | u⟩
  · rw [hrun] at hok
    cases hok
  rw [hrun] at hframe hlands
  have hglobals : t.globals = s.globals := by rw [show t = _ from hframe.rest]
  have hnot := mt (initElem_ok_iff id sp t elem done.length).mp
    (mt (hframe.fits sp elem).mp helem)
  have hfail : ∃ e, (initElem id sp t (elem, done.length)).2 = .error e := by
    rcases hresult : (initElem id sp t (elem, done.length)).2 with e | u
    · exact ⟨e, rfl⟩
    · exact absurd hresult hnot
  obtain ⟨e, hfail⟩ := hfail
  have hstops : initElems id sp s (done ++ elem :: rest) = initElem id sp t (elem, done.length) := by
    unfold initElems at hrun ⊢
    rw [List.zipIdx_append, List.zipIdx_cons, Nat.zero_add]
    exact Lib.runAll_stops hrun hfail
  rw [hstops, initElem_lands addr, hlands, hglobals, Option.map_map]
  simp only [Function.comp_def, List.foldl_append, List.foldl_cons, List.foldl_nil]

end Telomere.Runtime
