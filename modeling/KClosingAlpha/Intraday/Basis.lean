import KClosingAlpha.Intraday.Backfill
/-!
# Basis — what a COMPLETE row of the backfill says of the raw partition

A chunk that is written stores each of its frames, the rows of a slot once, unless the partition holds more rows of the
symbol (`Stores`): the guard keeps those without raising, and the ledger row is appended all the same.  So a row recorded
on a raw basis is exact precisely where the partition held no more rows of its symbol when the run began.
-/
namespace Intraday

variable {Cell : Type} [DecidableEq Cell] {pd : Pandas Cell}

/-- The rows of a frame as the store keeps them: exact duplicates once. -/
def distinctRows (f : Frame Cell) : List (Row Cell) := f.rows.eraseDups

/-! ## One chunk -/

/-- The acquisitions of one chunk: complete, and of different symbols. -/
structure Chunk (pd : Pandas Cell) (batch : List (Acquisition Cell)) : Prop where
  acquired : ∀ a ∈ batch, Acquired pd (bufferKey a) a
  complete : ∀ a ∈ batch, a.2.status = .complete
  nodup : (batch.map bufferKey).Nodup

/-- Every frame of `batch` is stored unless more was, and nothing else changed. -/
structure Stores (pd : Pandas Cell) (t : Target) (batch : List (Acquisition Cell)) (w w' : World Cell) : Prop where
  replaced : ∀ a ∈ batch, storedRows pd (bufferKey a) (w.files t) ≤ (distinctRows a.1).length →
    (rowsIn pd (bufferKey a) (w'.files t)).Perm (distinctRows a.1)
  refused : ∀ a ∈ batch, ¬ storedRows pd (bufferKey a) (w.files t) ≤ (distinctRows a.1).length →
    rowsIn pd (bufferKey a) (w'.files t) = rowsIn pd (bufferKey a) (w.files t)
  rest : ∀ s, s ∉ batch.map bufferKey → rowsIn pd s (w'.files t) = rowsIn pd s (w.files t)

section chunk

variable {task : BackfillTask} {batch batch' : List (Acquisition Cell)} {w w₁ w' : World Cell} {t : Target}

omit [DecidableEq Cell] in
theorem Chunk.of_append (h : Chunk pd (batch ++ batch')) : Chunk pd batch ∧ Chunk pd batch' := by
  have hn := h.nodup
  rw [List.map_append] at hn
  exact ⟨⟨fun a ha => h.acquired a (List.mem_append_left _ ha), fun a ha => h.complete a (List.mem_append_left _ ha), hn.of_append_left⟩,
    ⟨fun a ha => h.acquired a (List.mem_append_right _ ha), fun a ha => h.complete a (List.mem_append_right _ ha), hn.of_append_right⟩⟩

theorem Stores.nil (hf : w'.files = w.files) : Stores pd t [] w w' :=
  ⟨fun a ha => (by cases ha), fun a ha => (by cases ha), fun s _ => by rw [hf]⟩

/-- One chunk after another that has no symbol in common with it. -/
theorem Stores.append (hn : ((batch ++ batch').map bufferKey).Nodup) (h : Stores pd t batch w w₁)
    (h' : Stores pd t batch' w₁ w') : Stores pd t (batch ++ batch') w w' := by
  rw [List.map_append] at hn
  have hdis := List.disjoint_of_nodup_append hn
  have hfirst : ∀ a ∈ batch, rowsIn pd (bufferKey a) (w'.files t) = rowsIn pd (bufferKey a) (w₁.files t) :=
    fun a ha => h'.rest _ (fun hmem => hdis (List.mem_map_of_mem ha) hmem)
  have hsecond : ∀ a ∈ batch', rowsIn pd (bufferKey a) (w₁.files t) = rowsIn pd (bufferKey a) (w.files t) :=
    fun a ha => h.rest _ (fun hmem => hdis hmem (List.mem_map_of_mem ha))
  have hcount : ∀ a ∈ batch', storedRows pd (bufferKey a) (w₁.files t) = storedRows pd (bufferKey a) (w.files t) :=
    fun a ha => congrArg List.length (hsecond a ha)
  constructor
  · intro a ha hle
    rcases List.mem_append.1 ha with ha | ha
    · rw [hfirst a ha]
      exact h.replaced a ha hle
    · exact h'.replaced a ha (by rw [hcount a ha]; exact hle)
  · intro a ha hlt
    rcases List.mem_append.1 ha with ha | ha
    · rw [hfirst a ha]
      exact h.refused a ha hlt
    · rw [h'.refused a ha (by rw [hcount a ha]; exact hlt), hsecond a ha]
  · intro s hs
    rw [List.map_append, List.mem_append, not_or] at hs
    rw [h'.rest s hs.2, h.rest s hs.1]

/-- The rows a chunk hands to its write. -/
def chunkRows (batch : List (Acquisition Cell)) : List (Row Cell) := batch.flatMap (fun a => a.1.rows)

omit [DecidableEq Cell] in
theorem Chunk.mem_rows_iff (h : Chunk pd batch) {a : Acquisition Cell} (ha : a ∈ batch) {row : Row Cell} :
    row ∈ chunkRows batch ∧ pd.key canonicalBarColumns row = bufferKey a ↔ row ∈ a.1.rows := by
  constructor
  · rintro ⟨hrow, hkey⟩
    obtain ⟨b, hb, hrow⟩ := List.mem_flatMap.1 hrow
    have hsame : bufferKey b = bufferKey a := ((h.acquired b hb).own row hrow).symm.trans hkey
    rw [List.inj_on_of_nodup_map h.nodup hb ha hsame] at hrow
    exact hrow
  · intro hrow
    exact ⟨List.mem_flatMap.2 ⟨a, ha, hrow⟩, (h.acquired a ha).own row hrow⟩

/-- The rows of a symbol that a chunk writes are those of its frame. -/
theorem Chunk.reconciled (h : Chunk pd batch) {rows : List (Row Cell)}
    (hrec : deduplicateBars pd (chunkRows batch) = .ok rows) {a : Acquisition Cell} (ha : a ∈ batch) :
    (rows.filter (fun r => decide (pd.key canonicalBarColumns r = bufferKey a))).Perm (distinctRows a.1) := by
  have hslot : (chunkRows batch).filter (fun r => !pd.missing canonicalBarColumns "symbol" r &&
      !pd.missing canonicalBarColumns "ts_hms" r) = chunkRows batch := by
    refine List.filter_eq_self.2 (fun row hrow => ?_)
    obtain ⟨b, hb, hrow⟩ := List.mem_flatMap.1 hrow
    obtain ⟨hsym, hts⟩ := (h.acquired b hb).slot row hrow
    rw [hsym, hts]
    rfl
  have hperm : rows.Perm (chunkRows batch).eraseDups := by
    unfold deduplicateBars at hrec
    dsimp only at hrec
    rw [hslot] at hrec
    split at hrec
    · cases hrec
    · cases hrec
      refine (List.mergeSort_perm _ _).trans ?_
      split_ifs with hempty
      · have hnil : chunkRows batch = [] :=
          List.eq_nil_iff_forall_not_mem.2 (fun r hr => by
            have hmem := List.mem_eraseDups.2 hr
            rw [List.isEmpty_iff.1 hempty] at hmem
            cases hmem)
        rw [hnil]
        rfl
      · exact .refl _
  refine (hperm.filter _).trans ((List.perm_ext_iff_of_nodup ((nodup_eraseDups _).filter _) (nodup_eraseDups _)).2 ?_)
  intro row
  rw [List.mem_filter, List.mem_eraseDups, decide_eq_true_eq, h.mem_rows_iff ha]
  exact List.mem_eraseDups.symm

/-- A write of rows that returns reconciled them. -/
theorem reconciled_of_ends {args : WriteArgs Cell} {df : Frame Cell} (hdf : args.df = some df) (hne : df.rows ≠ [])
    {n : Nat} (h : Prog.Ends Exec (writeIntradayPartition pd 1 args) w (.ok n) w') :
    ∃ rows, deduplicateBars pd df.rows = .ok rows := by
  unfold writeIntradayPartition writePartition at h
  obtain ⟨_, _, -, h⟩ := h.of_bind
  obtain ⟨_, _, -, h⟩ := h.of_bind
  obtain ⟨_, _, -, h⟩ := h.of_bind
  rw [hdf] at h
  dsimp only at h
  rw [if_neg (by simpa using hne)] at h
  unfold writeRows at h
  obtain ⟨_, _, -, h⟩ := h.of_bind
  obtain ⟨rows, _, hrec, -⟩ := h.of_bind
  exact ⟨rows, hrec.of_ofExcept⟩

/-- **A chunk that is written stores its frames**, but for the symbols of which the partition holds more. -/
theorem Chunk.stores (h : Chunk pd batch) (hne : batch ≠ []) {n : Nat}
    (hrun : Prog.Ends Exec (writeIntradayPartition pd 1 (chunkArgs task batch)) w (.ok n) w') :
    Stores pd task.target batch w w' := by
  obtain ⟨a₀, as, hbatch⟩ := List.exists_cons_of_ne_nil hne
  have hmem₀ : a₀ ∈ batch := by rw [hbatch]; exact List.mem_cons_self
  have hdf : (chunkArgs task batch).df = some ⟨canonicalBarColumns, chunkRows batch⟩ := by
    unfold chunkArgs
    rw [hbatch]
    exact congrArg (fun c => some (Frame.mk c _)) (h.acquired a₀ hmem₀).columns
  have hrows : chunkRows batch ≠ [] := by
    obtain ⟨row, rows, hrow⟩ := List.exists_cons_of_ne_nil ((h.acquired a₀ hmem₀).complete (h.complete a₀ hmem₀))
    refine List.ne_nil_of_mem (a := row) (List.mem_flatMap.2 ⟨a₀, hmem₀, ?_⟩)
    rw [hrow]
    exact List.mem_cons_self
  obtain ⟨rows, hrec⟩ := reconciled_of_ends hdf hrows hrun
  have hmade := (Write.ends_ok (c := .bars 1 (chunkArgs task batch)) hrun).1
  change Written pd ((chunkArgs task batch).normalized pd barLayout) ((chunkArgs task batch).asked pd) [] true
    (w.files task.target) (w'.files task.target) at hmade
  have hnorm : (chunkArgs task batch).normalized pd barLayout = ⟨canonicalBarColumns, rows⟩ := by
    unfold WriteArgs.normalized
    rw [hdf]
    dsimp only
    rw [if_neg (by simpa using hrows), show barLayout.reconcile pd (chunkRows batch) = .ok rows from hrec]
    rfl
  have hasked : ∀ s, s ∈ (chunkArgs task batch).asked pd ↔ s ∈ batch.map bufferKey := by
    have hnone : noTradesSymbols task.session (batch.map (fun a => (bufferKey a, a.2))) = [] := by
      unfold noTradesSymbols
      rw [List.map_eq_nil_iff, List.filter_eq_nil_iff]
      intro p hp
      obtain ⟨a, ha, rfl⟩ := List.mem_map.1 hp
      simp [h.complete a ha]
    intro s
    unfold WriteArgs.asked
    rw [hdf]
    change s ∈ pd.symbols canonicalBarColumns (chunkRows batch) ++ noTradesSymbols task.session _ ↔ _
    rw [hnone, List.append_nil, pd.mem_symbols, List.mem_map]
    constructor
    · rintro ⟨row, hrow, rfl⟩
      obtain ⟨a, ha, hrow⟩ := List.mem_flatMap.1 hrow
      exact ⟨a, ha, ((h.acquired a ha).own row hrow).symm⟩
    · rintro ⟨a, ha, rfl⟩
      obtain ⟨row, rows', hrow⟩ := List.exists_cons_of_ne_nil ((h.acquired a ha).complete (h.complete a ha))
      have hmem : row ∈ a.1.rows := by rw [hrow]; exact List.mem_cons_self
      exact ⟨row, List.mem_flatMap.2 ⟨a, ha, hmem⟩, (h.acquired a ha).own row hmem⟩
  rw [hnorm] at hmade
  have hreplaces : ∀ a ∈ batch, (Replaces pd (w.files task.target) ⟨canonicalBarColumns, rows⟩
      ((chunkArgs task batch).asked pd) [] (bufferKey a) ↔
        storedRows pd (bufferKey a) (w.files task.target) ≤ (distinctRows a.1).length) := by
    intro a ha
    have hcount : pd.count canonicalBarColumns (bufferKey a) rows = (distinctRows a.1).length := by
      unfold Pandas.count
      rw [List.countP_eq_length_filter]
      exact (h.reconciled hrec ha).length_eq
    unfold Replaces
    rw [hasked, hcount]
    simp only [List.not_mem_nil, or_false]
    exact and_iff_right (List.mem_map_of_mem ha)
  constructor
  · intro a ha hle
    have hnew := hmade.replaced _ ((hreplaces a ha).2 hle)
    exact List.Perm.trans hnew (h.reconciled hrec ha)
  · exact fun a ha hlt => hmade.kept _ (fun hrep => hlt ((hreplaces a ha).1 hrep))
  · exact fun s hs => hmade.kept s (fun hrep => hs ((hasked s).1 hrep.1))

end chunk

/-! ## The raw partition over a run -/

/-- A row that certifies bars of a raw basis. -/
def BackfillRow.CertifiesRaw (row : BackfillRow) : Prop :=
  row.status = "COMPLETE" ∧ (row.priceBasis = "kis_raw" ∨ row.priceBasis = "kiwoom_raw")

def BackfillRow.target (row : BackfillRow) : Target := .bars 1 row.snapshotDate row.session

/-- The partition has of the symbol the frame the row was recorded for, and no other rows. -/
def BackfillRecord.Exact (pd : Pandas Cell) (store : World Cell) (x : BackfillRecord Cell) : Prop :=
  (rowsIn pd x.row.symbol (store.files x.row.target)).Perm (distinctRows x.frame)

/-- The partition holds no more rows of the symbol than the frame has. -/
def BackfillRecord.Fits (pd : Pandas Cell) (store : World Cell) (x : BackfillRecord Cell) : Prop :=
  storedRows pd x.row.symbol (store.files x.row.target) ≤ (distinctRows x.frame).length

/-- What some tasks leave: their partitions apart nothing changed, and of the rows they recorded those that certify a
raw basis are exact where they fitted. -/
structure RunKeeps (pd : Pandas Cell) (targets : List Target) (w w' : BackfillWorld Cell) : Prop where
  others : ∀ t, t ∉ targets → w'.store.files t = w.store.files t
  recorded : ∃ new, w'.recorded = w.recorded ++ new ∧
    ∀ x ∈ new, x.row.target ∈ targets ∧ (x.row.CertifiesRaw → (x.Exact pd w'.store ↔ x.Fits pd w.store))

section run

variable {targets targets' : List Target} {w₀ w w₁ w' : BackfillWorld Cell}

theorem RunKeeps.refl (targets : List Target) (w : BackfillWorld Cell) : RunKeeps pd targets w w :=
  ⟨fun _ _ => rfl, [], (List.append_nil _).symm, fun x hx => by cases hx⟩

theorem RunKeeps.mono (h : RunKeeps pd targets w w') (hsub : targets ⊆ targets') : RunKeeps pd targets' w w' := by
  obtain ⟨new, hnew, hx⟩ := h.recorded
  exact ⟨fun t ht => h.others t (fun hmem => ht (hsub hmem)), new, hnew, fun x hmem => ⟨hsub (hx x hmem).1, (hx x hmem).2⟩⟩

/-- Some tasks after others that have no partition in common with them. -/
theorem RunKeeps.append (h : RunKeeps pd targets w w₁) (h' : RunKeeps pd targets' w₁ w')
    (hdis : targets.Disjoint targets') : RunKeeps pd (targets ++ targets') w w' := by
  obtain ⟨new, hnew, hx⟩ := h.recorded
  obtain ⟨new', hnew', hx'⟩ := h'.recorded
  constructor
  · intro t ht
    rw [List.mem_append, not_or] at ht
    rw [h'.others t ht.2, h.others t ht.1]
  · refine ⟨new ++ new', by rw [hnew', hnew, List.append_assoc], fun x hmem => ?_⟩
    rcases List.mem_append.1 hmem with hmem | hmem
    · obtain ⟨ht, hiff⟩ := hx x hmem
      refine ⟨List.mem_append_left _ ht, fun hraw => ?_⟩
      unfold BackfillRecord.Exact
      rw [h'.others _ (fun ht' => hdis ht ht')]
      exact hiff hraw
    · obtain ⟨ht, hiff⟩ := hx' x hmem
      refine ⟨List.mem_append_right _ ht, fun hraw => (hiff hraw).trans ?_⟩
      unfold BackfillRecord.Fits
      rw [h.others _ (fun ht' => hdis ht' ht)]

/-- Nothing recorded, and no partition changed but that of the task. -/
structure Apart (task : BackfillTask) (w w' : BackfillWorld Cell) : Prop where
  recorded : w'.recorded = w.recorded
  others : ∀ t, t ≠ task.target → w'.store.files t = w.store.files t

variable {task : BackfillTask}

theorem Apart.runKeeps (h : Apart task w w') : RunKeeps pd [task.target] w w' :=
  ⟨fun t ht => h.others t (fun heq => ht (List.mem_singleton.2 heq)), [], h.recorded.trans (List.append_nil _).symm,
    fun x hx => by cases hx⟩

omit [DecidableEq Cell] in
theorem Apart.store {store : World Cell} (h : Apart task w w')
    (hothers : ∀ t, t ≠ task.target → store.files t = w'.store.files t) : Apart task w { w' with store } :=
  ⟨h.recorded, fun t ht => (hothers t ht).trans (h.others t ht)⟩

/-! ### Operations -/

abbrev Keeps {α : Type} (pd : Pandas Cell) (I : BackfillWorld Cell → Prop) (p : BackfillCall Cell α)
    (φ : α → BackfillWorld Cell → Prop) (w : BackfillWorld Cell) : Prop := Prog.keeps (BackfillExec pd) I p φ w

/-- The operations that leave the partitions and the ledger alone. -/
def BackfillOp.calm : BackfillOp Cell → Bool
  | .write _ | .remove _ _ | .record _ _ _ _ => false
  | _ => true

theorem BackfillExec.calm {op : BackfillOp Cell} (hop : op.calm = true) {r : op.Ret} (h : BackfillExec pd op w r w') :
    w' = w := by
  cases op with
  | write | remove | record => cases hop
  | readLedger | storedSymbols | fetch | fetchRaw => exact h.2
  | stopped | evicted | pendingManifest | writeAdjusted | manifest => exact h

theorem ask_keeps {I : BackfillWorld Cell → Prop} {op : BackfillOp Cell} {φ : op.Ans → BackfillWorld Cell → Prop}
    (h : ∀ r w', BackfillExec pd op w r w' → I w' ∧ ∀ a, r = .ok a → φ a w') : Keeps pd I op.ask φ w := by
  apply Prog.keeps_call
  intro r w' hr
  obtain ⟨hw', hφ⟩ := h r w' hr
  exact ⟨hw', Prog.keeps_ofExcept hw' (fun a ha => hφ a ha)⟩

theorem calm_keeps {I : BackfillWorld Cell → Prop} {op : BackfillOp Cell} (hop : op.calm = true) (hw : I w) :
    Keeps pd I op.ask (fun _ w' => w' = w) w := by
  apply ask_keeps
  intro r w' hr
  have heq := BackfillExec.calm hop hr
  exact ⟨heq ▸ hw, fun _ _ => heq⟩

/-- A write, whatever it ends in, leaves the other partitions alone. -/
theorem write_others {args : WriteArgs Cell} {store store' : World Cell} {r : Except Exn Nat}
    (h : Prog.Ends Exec (writeIntradayPartition pd 1 args) store r store') :
    ∀ t, t ≠ .bars 1 args.snapshotDate args.session → store'.files t = store.files t := by
  intro t ht
  rcases Write.reach (c := .bars 1 args) h.reach with hq | hp
  · rw [hq.files]
  · exact hp.others t ht

omit [DecidableEq Cell] in
theorem rowCount_publishes {C : Option (Frame Cell) → Option (Frame Cell) → Prop} {L : Exn → Prop} {t : Target}
    {s₀ s : World Cell} (hs : Quiet s₀ s) (hC : C (s₀.files t) (s₀.files t)) :
    Publishes C L t s₀ (ask (.rowCount t)) s := by
  have hquiet : Quietly s₀ (ask (.rowCount t)) (fun _ _ => True) s := Quietly.ask rfl hs (fun _ _ _ _ => trivial)
  unfold Quietly Prog.keeps at hquiet
  exact Prog.wpx_mono hquiet (fun _ _ h => .inl h) (fun _ _ h => .inl ⟨h.1, fun _ _ => hC⟩)

omit [DecidableEq Cell] in
theorem removeIntradaySymbols_publishes (symbols : List String) (s₀ : World Cell) :
    Publishes (Written pd ⟨canonicalBarColumns, []⟩ symbols symbols true) (fun e => e.isOSError = true) task.target s₀
      (removeIntradaySymbols pd 1 task.snapshotDate task.session symbols) s₀ := by
  apply Publishes.bind (requireWritable_quietly (Quiet.refl s₀))
  intro _ s₁ hs₁ _
  apply Publishes.ite
  · intro hnil
    apply rowCount_publishes hs₁
    apply Written.nothing
    rintro s ⟨hs, -⟩
    rw [List.isEmpty_iff.1 hnil] at hs
    cases hs
  · intro _
    apply Publishes.bind (isThere_quietly hs₁)
    intro there s₂ hs₂ hthere
    apply Publishes.ite
    · intro _
      change Publishes (Written pd (frameOf (some ⟨canonicalBarColumns, []⟩)) symbols symbols true) _ _ _ _ _
      refine boundedSymbolReplace_publishes (fun r hr => ?_) hs₂
      change r ∈ [] at hr
      cases hr
    · intro hfalse
      apply rowCount_publishes hs₂
      rw [hfalse] at hthere
      have hnone : s₀.files task.target = none := by simpa [BackfillTask.target] using hthere.symm
      rw [hnone]
      exact ⟨fun s _ => List.Perm.refl [], fun s _ => rfl⟩

omit [DecidableEq Cell] in
/-- A removal, whatever it ends in, leaves the other symbols and the other partitions alone. -/
theorem remove_rest {symbols : List String} {store store' : World Cell} {r : Except Exn Nat}
    (h : Prog.Ends Exec (removeIntradaySymbols pd 1 task.snapshotDate task.session symbols) store r store') :
    (∀ t, t ≠ task.target → store'.files t = store.files t) ∧
      ∀ s, s ∉ symbols → rowsIn pd s (store'.files task.target) = rowsIn pd s (store.files task.target) := by
  rcases Prog.wpx_ends (removeIntradaySymbols_publishes symbols store) h with ⟨hq, -⟩ | ⟨hp, -⟩
  · rw [hq.files]
    exact ⟨fun _ _ => rfl, fun _ _ => rfl⟩
  · exact ⟨hp.others, fun s hs => hp.content.kept s (fun hrep => hs hrep.1)⟩

/-! ### Acquisitions -/

/-- What is collected is what a collector returned for the symbol, or failed. -/
def Settlement.Sound (pd : Pandas Cell) (st : Settlement Cell) : Prop :=
  ∀ symbol a, st.collected.lookup symbol = some a → Acquired pd symbol a

omit [DecidableEq Cell] in
theorem Settlement.Sound.add {st : Settlement Cell} (h : st.Sound pd) {symbol : String} {a : Acquisition Cell}
    {o : RawOutcome Cell} (ho : Acquired pd symbol o.acquisition) : (st.add symbol a o).Sound pd := by
  intro s b hb
  change (st.collected.set symbol o.acquisition).lookup s = some b at hb
  by_cases hs : s = symbol
  · rw [hs, Py.Dict.lookup_set_self] at hb
    rw [hs, ← Option.some.inj hb]
    exact ho
  · rw [Py.Dict.lookup_set_of_ne hs] at hb
    exact h s b hb

omit [DecidableEq Cell] in
/-- A failed acquisition has no rows. -/
theorem Acquired.failed {symbol : String} {a : Acquisition Cell} (h : Acquired pd symbol a) (reason : String)
    (refs : List String) : Acquired pd symbol (⟨a.1.columns, []⟩, basisFailedEntry a.2 reason refs) :=
  ⟨h.named, h.columns, fun row hrow => (by cases hrow), fun row hrow => (by cases hrow), fun heq => (by cases heq)⟩

theorem rawOne_keeps {ref : PriceReference} {hasRawClient : Bool} {symbol : String} {a : Acquisition Cell}
    (h : Acquired pd symbol a) : Keeps pd (fun w' => w' = w) (rawOne ref hasRawClient task symbol a)
      (fun o _ => Acquired pd symbol o.acquisition) w := by
  unfold rawOne
  dsimp only
  split_ifs
  · exact Prog.keeps_ret rfl (h.failed _ _)
  · exact Prog.keeps_ret rfl h
  · exact Prog.keeps_ret rfl (h.failed _ _)
  · apply Prog.keeps_bind (φ := fun raw w' => Acquired pd symbol raw)
    · apply ask_keeps
      rintro r w' ⟨hraw, rfl⟩
      exact ⟨rfl, hraw⟩
    · rintro raw w' rfl hraw
      split_ifs
      · exact Prog.keeps_ret rfl hraw
      · exact Prog.keeps_ret rfl (h.failed _ _)

theorem settleBases_keeps {ref : PriceReference} {hasRawClient : Bool} :
    ∀ {targets : List (String × Acquisition Cell)} {st : Settlement Cell} {w : BackfillWorld Cell},
      (∀ p ∈ targets, Acquired pd p.1 p.2) → st.Sound pd →
        Keeps pd (fun w' => w' = w) (settleBases ref hasRawClient task targets st) (fun st' _ => st'.Sound pd) w
  | [], _, _, _, hst => Prog.keeps_ret rfl hst
  | (symbol, a) :: targets, st, w, h, hst => by
    rw [List.forall_mem_cons] at h
    unfold settleBases
    apply Prog.keeps_bind (rawOne_keeps h.1)
    intro o w' hw' ho
    rw [hw']
    exact settleBases_keeps h.2 (hst.add ho)

omit [DecidableEq Cell] in
/-- The outcomes are the symbols' acquisitions, in their order. -/
theorem outcomes_of_mapM {st : Settlement Cell} (hst : st.Sound pd) : ∀ {pending : List String} {outcomes : List (Acquisition Cell)},
    pending.mapM (collectedOf st.collected) = .ok outcomes → outcomes.map bufferKey = pending ∧
      ∀ a ∈ outcomes, st.collected.lookup (bufferKey a) = some a ∧ Acquired pd (bufferKey a) a
  | [], outcomes, h => by
    cases h
    exact ⟨rfl, fun a ha => by cases ha⟩
  | symbol :: pending, outcomes, h => by
    obtain ⟨a, as, ha, has, rfl⟩ := (Exc.mapM_cons_eq_ok _ _ _ _).1 h
    obtain ⟨hkeys, hall⟩ := outcomes_of_mapM hst has
    have hlook : st.collected.lookup symbol = some a := by
      unfold collectedOf at ha
      cases hl : st.collected.lookup symbol with
      | none =>
        rw [hl] at ha
        cases ha
      | some b =>
        rw [hl] at ha
        cases ha
        rfl
    have hkey : bufferKey a = symbol := by
      unfold bufferKey
      rw [(hst symbol a hlook).named]
      rfl
    refine ⟨by rw [List.map_cons, hkeys, hkey], List.forall_mem_cons.2 ⟨?_, hall⟩⟩
    rw [hkey]
    exact ⟨hlook, hst symbol a hlook⟩

/-- The complete ones. -/
def completeOf (outcomes : List (Acquisition Cell)) : List (Acquisition Cell) :=
  outcomes.filter (fun a => decide (a.2.status = .complete))

omit [DecidableEq Cell] in
theorem compChunks_eq {collected : Py.Dict (Acquisition Cell)} :
    ∀ {outcomes : List (Acquisition Cell)},
      (∀ a ∈ outcomes, collected.lookup (bufferKey a) = some a ∧ Acquired pd (bufferKey a) a) →
        compChunks collected (outcomes.map Prod.snd) = completeOf outcomes
  | [], _ => rfl
  | a :: outcomes, h => by
    rw [List.forall_mem_cons] at h
    obtain ⟨⟨hlook, hacq⟩, h⟩ := h
    have ih := compChunks_eq h
    unfold compChunks completeOf at ih ⊢
    rw [List.map_cons, List.filterMap_cons, List.filter_cons, ih]
    by_cases hc : a.2.status = .complete
    · rw [if_pos hc, hacq.named]
      dsimp only [Option.bind]
      rw [hlook]
      dsimp only
      rw [if_neg (hacq.complete hc)]
      simp [hc]
    · rw [if_neg hc]
      simp [hc]

omit [DecidableEq Cell] in
theorem completeOf_chunk {outcomes : List (Acquisition Cell)} (hn : (outcomes.map bufferKey).Nodup)
    (h : ∀ a ∈ outcomes, Acquired pd (bufferKey a) a) : Chunk pd (completeOf outcomes) :=
  ⟨fun a ha => h a (List.mem_of_mem_filter ha), fun _ ha => of_decide_eq_true (List.mem_filter.1 ha).2,
    hn.sublist (List.filter_sublist.map _)⟩

omit [DecidableEq Cell] in
/-- What is removed is not complete. -/
theorem not_mem_staleSymbols {repairs pending : List String} {outcomes : List (Acquisition Cell)}
    (hkeys : outcomes.map bufferKey = pending) (hn : pending.Nodup) {a : Acquisition Cell} (ha : a ∈ completeOf outcomes) :
    bufferKey a ∉ staleSymbols repairs pending outcomes := by
  intro hmem
  obtain ⟨p, hp, heq⟩ := List.mem_map.1 hmem
  obtain ⟨hp, hstale⟩ := List.mem_filter.1 hp
  rw [← hkeys, List.zip_map_left, List.mem_map] at hp
  obtain ⟨⟨b, b'⟩, hb, rfl⟩ := hp
  have hbb : b = b' := by
    obtain ⟨i, hi, hi'⟩ := List.mem_iff_getElem.1 hb
    simp only [List.getElem_zip, Prod.mk.injEq] at hi'
    rw [← hi'.1, ← hi'.2]
  subst hbb
  have hmemb : b ∈ outcomes := (List.of_mem_zip hb).1
  rw [← hkeys] at hn
  have hsame : b = a := List.inj_on_of_nodup_map hn hmemb (List.mem_of_mem_filter ha) heq
  subst hsame
  have hc := of_decide_eq_true (List.mem_filter.1 ha).2
  simp [hc] at hstale

/-! ### A task -/

theorem flushBuffer_keeps {buffer : List (Acquisition Cell)} (hw : Apart task w₀ w) (h : Chunk pd buffer) :
    Keeps pd (Apart task w₀) (flushBuffer task buffer)
      (fun _ w' => Stores pd task.target buffer w.store w'.store) w := by
  unfold flushBuffer
  split_ifs with hempty
  · rw [List.isEmpty_iff.1 hempty]
    exact Prog.keeps_ret hw (.nil rfl)
  · apply Prog.keeps_bind (φ := fun _ w' => Stores pd task.target buffer w.store w'.store)
    · apply ask_keeps
      rintro r w' ⟨store, hrun, rfl⟩
      refine ⟨hw.store (write_others hrun), fun n hn => ?_⟩
      rw [hn] at hrun
      exact h.stores (fun hnil => hempty (List.isEmpty_iff.2 hnil)) hrun
    · exact fun _ w' hw' hstores => Prog.keeps_ret hw' hstores

/-- **The chunks of a task store the frames they hold**, but for the symbols of which the partition holds more. -/
theorem writeChunks_keeps {maxRows : Int} : ∀ {chunks buffer : List (Acquisition Cell)} {w : BackfillWorld Cell},
    Apart task w₀ w → Chunk pd (buffer ++ chunks) → Keeps pd (Apart task w₀) (writeChunks maxRows task chunks buffer)
      (fun _ w' => Stores pd task.target (buffer ++ chunks) w.store w'.store) w
  | [], buffer, w, hw, h => by
    rw [List.append_nil] at h ⊢
    exact flushBuffer_keeps hw h
  | a :: chunks, buffer, w, hw, h => by
    have hsplit : buffer ++ a :: chunks = (buffer ++ [a]) ++ chunks := by simp
    unfold writeChunks
    split_ifs
    · exact Prog.keeps_raise hw
    · rw [hsplit] at h ⊢
      apply Prog.keeps_bind (flushBuffer_keeps hw h.of_append.1)
      intro _ w₁ hw₁ hfirst
      have hrest : Keeps pd (Apart task w₀) (writeChunks maxRows task chunks [])
          (fun _ w' => Stores pd task.target chunks w₁.store w'.store) w₁ := writeChunks_keeps hw₁ h.of_append.2
      exact Prog.keeps_mono hrest (fun _ w₂ _ hsecond => hfirst.append h.nodup hsecond)
    · rw [hsplit] at h ⊢
      exact writeChunks_keeps hw h

/-- What a task has on disk when it records: its complete frames, exact where they fitted. -/
structure TaskStored (pd : Pandas Cell) (task : BackfillTask) (outcomes : List (Acquisition Cell))
    (w w' : BackfillWorld Cell) : Prop where
  apart : Apart task w w'
  exact_iff : ∀ a ∈ completeOf outcomes,
    ((rowsIn pd (bufferKey a) (w'.store.files task.target)).Perm (distinctRows a.1) ↔
      storedRows pd (bufferKey a) (w.store.files task.target) ≤ (distinctRows a.1).length)

/-- A frame that was stored is there exactly; one that was refused left more rows than it has. -/
theorem Stores.exact_iff {batch : List (Acquisition Cell)} {store store' : World Cell} {t : Target}
    (h : Stores pd t batch store store') {a : Acquisition Cell} (ha : a ∈ batch) :
    (rowsIn pd (bufferKey a) (store'.files t)).Perm (distinctRows a.1) ↔
      storedRows pd (bufferKey a) (store.files t) ≤ (distinctRows a.1).length := by
  constructor
  · intro hperm
    by_contra hlt
    have hlen := hperm.length_eq
    rw [h.refused a ha hlt] at hlen
    exact hlt (le_of_eq hlen)
  · exact h.replaced a ha

section publish

variable {outcomes : List (Acquisition Cell)} {repairs pending : List String}

/-- A removal takes nothing from what is complete. -/
theorem TaskStored.remove (h : TaskStored pd task outcomes w w₁) (hkeys : outcomes.map bufferKey = pending)
    (hn : pending.Nodup) {store : World Cell} {r : Except Exn Nat}
    (hrun : Prog.Ends Exec (removeIntradaySymbols pd 1 task.snapshotDate task.session
      (staleSymbols repairs pending outcomes)) w₁.store r store) :
    TaskStored pd task outcomes w { w₁ with store } := by
  obtain ⟨hothers, hrest⟩ := remove_rest hrun
  refine ⟨h.apart.store hothers, fun a ha => ?_⟩
  dsimp only
  rw [hrest _ (not_mem_staleSymbols hkeys hn ha)]
  exact h.exact_iff a ha

/-- A status that certifies is that of a complete entry. -/
theorem attemptOf_complete {before : Option BackfillRow} {entry : CoverageEntry}
    (h : (attemptOf before entry).1 = "COMPLETE") : entry.status = .complete := by
  unfold attemptOf at h
  dsimp only at h
  cases hs : entry.status with
  | complete => rfl
  | failed =>
    rw [if_pos hs] at h
    split_ifs at h <;> simp at h
  | _ =>
    rw [hs] at h
    simp [CaptureStatus.value] at h

/-- **The rows a task records on a raw basis are exact where their frames fitted.** -/
theorem TaskStored.record (h : TaskStored pd task outcomes w w')
    (hall : ∀ a ∈ outcomes, Acquired pd (bufferKey a) a) (ledger ledger' : List BackfillRow)
    (priceBases : Py.Dict String) (adjustedCopies : List String) :
    RunKeeps pd [task.target] w { w' with
      ledger := ledger'
      recorded := w'.recorded ++ recordedOf ledger task outcomes priceBases adjustedCopies } := by
  constructor
  · exact fun t ht => h.apart.others t (fun heq => ht (List.mem_singleton.2 heq))
  · refine ⟨_, by rw [h.apart.recorded], fun x hx => ?_⟩
    obtain ⟨a, ha, hx⟩ := List.mem_filterMap.1 hx
    rw [(hall a ha).named, Option.map_some, Option.some.injEq] at hx
    subst hx
    refine ⟨List.mem_singleton.2 rfl, fun hraw => ?_⟩
    have hcomplete : a.2.status = .complete := attemptOf_complete hraw.1
    exact h.exact_iff a (List.mem_filter.2 ⟨ha, decide_eq_true hcomplete⟩)

theorem publishTask_keeps {maxRows : Int} {st : Settlement Cell} (hst : st.Sound pd) (hn : pending.Nodup) :
    Keeps pd (RunKeeps pd [task.target] w) (publishTask maxRows task repairs pending st) (fun _ _ => True) w := by
  unfold publishTask
  apply Prog.keeps_bind (φ := fun outcomes w' => pending.mapM (collectedOf st.collected) = .ok outcomes ∧ w' = w)
  · exact Prog.keeps_ofExcept (.refl _ _) (fun outcomes h => ⟨h, rfl⟩)
  rintro outcomes w₁ - ⟨hmap, hw₁⟩
  rw [hw₁]
  obtain ⟨hkeys, hall⟩ := outcomes_of_mapM hst hmap
  have hacq : ∀ a ∈ outcomes, Acquired pd (bufferKey a) a := fun a ha => (hall a ha).2
  have hchunk : Chunk pd (completeOf outcomes) := completeOf_chunk (by rw [hkeys]; exact hn) hacq
  rw [compChunks_eq hall]
  -- the chunks
  apply Prog.keeps_bind (φ := fun _ w' => TaskStored pd task outcomes w w')
  · have hwrite : Keeps pd (Apart task w) (writeChunks maxRows task (completeOf outcomes) [])
        (fun _ w' => Stores pd task.target (completeOf outcomes) w.store w'.store) w :=
      writeChunks_keeps ⟨rfl, fun _ _ => rfl⟩ hchunk
    apply Prog.keeps_mono (Prog.keeps_weaken hwrite (fun _ h => h.runKeeps))
    exact fun _ w' _ h => ⟨h.1, fun a ha => h.2.exact_iff ha⟩
  intro _ w₂ hw₂ hstored
  -- the removal
  apply Prog.keeps_bind (φ := fun _ w' => TaskStored pd task outcomes w w')
  · split_ifs
    · exact Prog.keeps_ret hw₂ hstored
    · apply ask_keeps
      rintro r w' ⟨store, hrun, rfl⟩
      have hstored' := hstored.remove hkeys hn hrun
      exact ⟨hstored'.apart.runKeeps, fun _ _ => hstored'⟩
  intro _ w₃ hw₃ hstored
  apply Prog.keeps_bind (φ := fun _ w' => w' = w₃)
  · split_ifs
    · exact Prog.keeps_ret hw₃ rfl
    · exact calm_keeps rfl hw₃
  rintro _ w₄ hw₄ rfl
  apply Prog.keeps_bind (calm_keeps rfl hw₄)
  rintro _ w₅ hw₅ rfl
  apply ask_keeps
  rintro (e | ⟨⟩) w' hrec
  · have heq : w' = w₅ := hrec
    exact ⟨heq ▸ hw₅, fun _ _ => trivial⟩
  · have heq := hrec
    refine ⟨?_, fun _ _ => trivial⟩
    rw [show w' = _ from heq]
    exact hstored.record hacq _ _ _ _

omit [DecidableEq Cell] in
theorem basisTargets_acquired {fetched : Py.Dict (Acquisition Cell)}
    (h : ∀ symbol a, fetched.lookup symbol = some a → Acquired pd symbol a) :
    ∀ p ∈ basisTargets fetched pending, Acquired pd p.1 p.2 := by
  intro p hp
  obtain ⟨symbol, -, hsome⟩ := List.mem_filterMap.1 hp
  obtain ⟨a, ha, hif⟩ := Option.bind_eq_some_iff.1 hsome
  split_ifs at hif
  cases hif
  exact h symbol a ha

theorem runPending_keeps {ref : PriceReference} {hasRawClient : Bool} {maxRows : Int} (hn : pending.Nodup) :
    Keeps pd (RunKeeps pd [task.target] w) (runPending ref hasRawClient maxRows task repairs pending)
      (fun _ _ => True) w := by
  unfold runPending
  apply Prog.keeps_bind (calm_keeps rfl (.refl _ w))
  rintro evicted w₁ hw₁ heq₁
  split_ifs
  · exact Prog.keeps_ret hw₁ trivial
  apply Prog.keeps_bind (calm_keeps rfl hw₁)
  rintro _ w₂ hw₂ heq₂
  apply Prog.keeps_bind (φ := fun fetched w' => w' = w ∧
    ∀ symbol a, fetched.lookup symbol = some a → Acquired pd symbol a)
  · apply ask_keeps
    rintro r w' ⟨hanswer, rfl⟩
    exact ⟨hw₂, fun fetched hok => ⟨heq₂.trans heq₁, hanswer fetched hok⟩⟩
  rintro fetched w₃ - ⟨heq₃, hfetched⟩
  rw [heq₃]
  apply Prog.keeps_bind (φ := fun st w' => w' = w ∧ Settlement.Sound pd st)
  · have hsettle : Keeps pd (fun w' => w' = w) (settleBases ref hasRawClient task (basisTargets fetched pending)
        ⟨fetched, [], []⟩) (fun st _ => Settlement.Sound pd st) w :=
      settleBases_keeps (basisTargets_acquired hfetched) hfetched
    apply Prog.keeps_weaken hsettle
    intro w' hw'
    rw [hw']
    exact .refl _ w
  · rintro st w₄ - ⟨heq₄, hst⟩
    rw [heq₄]
    exact publishTask_keeps hst hn

theorem runTask_keeps {ref : PriceReference} {hasRawClient : Bool} {maxRows : Int} (hn : task.symbols.Nodup) :
    Keeps pd (RunKeeps pd [task.target] w) (runTask ref hasRawClient maxRows task) (fun _ _ => True) w := by
  unfold runTask
  apply Prog.keeps_bind (calm_keeps rfl (.refl _ w))
  intro ledger w₁ hw₁ heq₁
  apply Prog.keeps_call
  intro r w₂ hr
  have heq₂ : w₂ = w₁ := hr.2
  have hw₂ : RunKeeps pd [task.target] w w₂ := heq₂ ▸ hw₁
  refine ⟨hw₂, ?_⟩
  cases r with
  | error e =>
    change Keeps pd _ (if e.isOSError then _ else _) _ _
    split_ifs
    · exact Prog.keeps_ret hw₂ trivial
    · exact Prog.keeps_raise hw₂
  | ok stored =>
    apply Prog.keeps_bind (calm_keeps rfl hw₂)
    intro ledger' w₃ hw₃ heq₃
    dsimp only
    split_ifs
    · exact Prog.keeps_ret hw₃ trivial
    · rw [heq₃.trans (heq₂.trans heq₁)]
      apply Prog.keeps_bind (runPending_keeps (hn.filter _))
      exact fun _ _ hw' _ => Prog.keeps_ret hw' trivial

end publish

/-- One task after another, each on a partition of its own. -/
theorem runTasks_keeps {ref : PriceReference} {hasRawClient : Bool} {maxRows : Int} :
    ∀ {tasks : List BackfillTask} {w : BackfillWorld Cell}, (tasks.map BackfillTask.target).Nodup →
      (∀ task ∈ tasks, task.symbols.Nodup) →
        Keeps pd (RunKeeps pd (tasks.map BackfillTask.target) w) (runTasks ref hasRawClient maxRows tasks)
          (fun _ _ => True) w
  | [], w, _, _ => Prog.keeps_ret (.refl _ w) trivial
  | task :: tasks, w, hn, hsymbols => by
    rw [List.map_cons, List.nodup_cons] at hn
    rw [List.forall_mem_cons] at hsymbols
    have hhead : ∀ {w' : BackfillWorld Cell}, RunKeeps pd [task.target] w w' →
        RunKeeps pd ((task :: tasks).map BackfillTask.target) w w' :=
      fun h => h.mono (fun t ht => List.mem_singleton.1 ht ▸ List.mem_cons_self)
    unfold runTasks
    apply Prog.keeps_bind (calm_keeps rfl (.refl _ w))
    intro stop w₁ hw₁ heq₁
    split_ifs
    · exact Prog.keeps_ret hw₁ trivial
    rw [heq₁]
    apply Prog.keeps_bind (Prog.keeps_weaken (runTask_keeps hsymbols.1) (fun _ h => hhead h))
    rintro unreadable w₂ - ⟨hw₂, -⟩
    have hdis : List.Disjoint [task.target] (tasks.map BackfillTask.target) :=
      List.singleton_disjoint.2 hn.1
    apply Prog.keeps_bind (φ := fun _ _ => True)
    · apply Prog.keeps_mono (Prog.keeps_weaken (runTasks_keeps hn.2 hsymbols.2) (fun _ h => hw₂.append h hdis))
      exact fun _ _ _ _ => trivial
    · exact fun _ _ hw' _ => Prog.keeps_ret hw' trivial

theorem runExtendedSessionBackfill_keeps (args : BackfillArgs) :
    Keeps pd (RunKeeps pd (args.ordered.map BackfillTask.target) w) (runExtendedSessionBackfill args)
      (fun _ _ => True) w := by
  have hperm : args.ordered.Perm args.plan.tasks := List.mergeSort_perm _ _
  have htargets : (args.ordered.map BackfillTask.target).Nodup := (hperm.map _).nodup_iff.2 args.plan.targets
  have hsymbols : ∀ task ∈ args.ordered, task.symbols.Nodup := fun task ht => args.plan.symbols task (hperm.mem_iff.1 ht)
  have hcheck : ∀ x : Except Exn Unit, Keeps pd (RunKeeps pd (args.ordered.map BackfillTask.target) w) (Prog.ofExcept x)
      (fun _ w' => w' = w) w := fun x => Prog.keeps_ofExcept (.refl _ w) (fun _ _ => rfl)
  unfold runExtendedSessionBackfill
  apply Prog.keeps_bind (hcheck _)
  rintro _ w₁ - heq₁
  rw [heq₁]
  apply Prog.keeps_bind (hcheck _)
  rintro _ w₂ - heq₂
  rw [heq₂]
  apply Prog.keeps_bind (runTasks_keeps htargets hsymbols)
  intro unreadable w₃ hw₃ _
  split_ifs
  · exact Prog.keeps_ret hw₃ trivial
  · exact Prog.keeps_raise hw₃

/-- **A row that a run recorded COMPLETE on a raw basis is exact precisely where the partition held no more rows of its
symbol when the run began**, wherever the run is cut. -/
theorem runExtendedSessionBackfill_exact_iff (args : BackfillArgs) (w w' : BackfillWorld Cell) (hw : w.recorded = [])
    (hrun : Prog.Reach (BackfillExec pd) (runExtendedSessionBackfill args) w w') :
    ∀ x ∈ w'.recorded, x.row.CertifiesRaw → (x.Exact pd w'.store ↔ x.Fits pd w.store) := by
  obtain ⟨new, hnew, hall⟩ :=
    (Prog.keeps_reach (runExtendedSessionBackfill_keeps args) (.refl _ w) hrun).recorded
  rw [hw, List.nil_append] at hnew
  rw [hnew]
  exact fun x hx => (hall x hx).2

end run

/-! ## One bar over two -/

/-- A disk and vendors that answer. -/
def backfillAnswer (pd : Pandas Cell) (kis kiwoom : Py.Dict (Acquisition Cell)) :
    (op : BackfillOp Cell) → BackfillWorld Cell → op.Ret × BackfillWorld Cell
  | .stopped, w | .evicted _, w | .pendingManifest _ _, w => (.ok false, w)
  | .readLedger, w => (.ok w.ledger, w)
  | .storedSymbols task, w =>
    (.ok ((w.store.files task.target).elim [] (fun f => if "symbol" ∈ f.columns then pd.symbols f.columns f.rows else [])), w)
  | .fetch _ _, w => (.ok kis, w)
  | .fetchRaw _ symbol, w => ((kiwoom.lookup symbol).elim (.error (.os "Connection timed out")) .ok, w)
  | .write args, w =>
    ((Prog.run (answer (fun _ => none)) (writeIntradayPartition pd 1 args) w.store).1,
      { w with store := (Prog.run (answer (fun _ => none)) (writeIntradayPartition pd 1 args) w.store).2 })
  | .remove task symbols, w =>
    ((Prog.run (answer (fun _ => none)) (removeIntradaySymbols pd 1 task.snapshotDate task.session symbols) w.store).1,
      { w with store :=
        (Prog.run (answer (fun _ => none)) (removeIntradaySymbols pd 1 task.snapshotDate task.session symbols) w.store).2 })
  | .writeAdjusted _ frames, w => (.ok frames.length, w)
  | .manifest _ _ _, w => (.ok (), w)
  | .record task outcomes priceBases adjustedCopies, w =>
    let rows := recordedOf w.ledger task outcomes priceBases adjustedCopies
    (.ok (), { w with ledger := keepLast (w.ledger ++ rows.map BackfillRecord.row), recorded := w.recorded ++ rows })

theorem backfillAnswer_exec {kis kiwoom : Py.Dict (Acquisition Cell)}
    (hkis : ∀ symbol a, kis.lookup symbol = some a → Acquired pd symbol a)
    (hkiwoom : ∀ symbol a, kiwoom.lookup symbol = some a → Acquired pd symbol a) (op : BackfillOp Cell) (w : BackfillWorld Cell) :
    BackfillExec pd op w (backfillAnswer pd kis kiwoom op w).1 (backfillAnswer pd kis kiwoom op w).2 := by
  have hdisk : ∀ (op : Op Cell) w, Exec op w (answer (fun _ => none) op w).1 (answer (fun _ => none) op w).2 :=
    answer_exec (fun _ => none) (fun _ _ h => by cases h)
  cases op with
  | write args => exact ⟨_, Prog.run_ends hdisk (writeIntradayPartition pd 1 args) w.store, rfl⟩
  | remove task symbols =>
    exact ⟨_, Prog.run_ends hdisk (removeIntradaySymbols pd 1 task.snapshotDate task.session symbols) w.store, rfl⟩
  | readLedger =>
    refine ⟨fun rows h => ?_, rfl⟩
    cases h
    rfl
  | fetch =>
    refine ⟨fun answer h => ?_, rfl⟩
    cases h
    exact hkis
  | fetchRaw task symbol =>
    refine ⟨fun a h => hkiwoom symbol a ?_, rfl⟩
    change (kiwoom.lookup symbol).elim (Except.error (Exn.os "Connection timed out")) Except.ok = Except.ok a at h
    cases hl : kiwoom.lookup symbol with
    | none =>
      rw [hl] at h
      cases h
    | some b =>
      rw [hl] at h
      cases h
      rfl
  | storedSymbols task =>
    refine ⟨fun symbols h => ?_, rfl⟩
    cases h
    unfold StoredSymbols
    cases w.store.files task.target with
    | none => exact fun _ => rfl
    | some f =>
      intro s
      dsimp only [Option.elim]
      split_ifs with hcol
      · rw [pd.mem_symbols]
        exact (and_iff_right hcol).symm
      · simp [hcol]
  | stopped | evicted | pendingManifest | writeAdjusted | manifest | record => rfl

/-- An aftermarket bar at one price. -/
def aftermarketBar (vendor : String) (tsHms price : String × Option Rat) : Row (String × Option Rat) :=
  [("2026-03-02", none), ("005930", none), tsHms, price, price, price, price, ("3", some 3), ("150000", some 150000),
    ("True", none), (vendor, none)]

/-- The bar Kiwoom has. -/
def rawBar : Row (String × Option Rat) := aftermarketBar "kiwoom" ("160000", some 160000) ("50000", some 50000)

/-- The bars KIS has, their prices adjusted for a later split. -/
def adjustedBars : List (Row (String × Option Rat)) :=
  [aftermarketBar "kis" ("160000", some 160000) ("25000", some 25000),
    aftermarketBar "kis" ("160100", some 160100) ("25000", some 25000)]

/-- Bars that are acquired. -/
def acquired (bars : List (Row (String × Option Rat))) : Acquisition (String × Option Rat) :=
  (⟨canonicalBarColumns, bars⟩,
    { symbol := some "005930", venue := "NXT", session := "nxt_aftermarket", status := .complete, rows := bars.length
      reason := "", rawRefs := ["raw/bars-0.json"], evidence := by simp, certified := by simp })

theorem acquired_of_lookup {a : Acquisition (String × Option Rat)} (ha : Acquired textCells "005930" a) (symbol : String)
    (b : Acquisition (String × Option Rat)) (h : [("005930", a)].lookup symbol = some b) : Acquired textCells symbol b := by
  rw [List.lookup_cons] at h
  split at h
  next heq =>
    cases h
    rw [beq_iff_eq.1 heq]
    exact ha
  · cases h

/-- The aftermarket of the second of March, where the vendor adjusts the prices of 005930. -/
def repairOneDay : BackfillArgs where
  clients := 1
  stopAtAware := true
  maxRows := 4000000
  plan :=
    { tasks := [⟨"2026-03-02", "nxt_aftermarket", ["005930"]⟩]
      targets := by decide
      symbols := by decide }
  priceReference := ⟨[("2026-03-02", "005930")], [("2026-03-02", "005930")]⟩
  hasRawClient := true

/-- What an earlier run left: a row without a price basis, and some bars. -/
def unverifiedWorld (bars : List (Row (String × Option Rat))) : BackfillWorld (String × Option Rat) where
  store :=
    { World.empty with
      files := Function.update World.empty.files (.bars 1 "2026-03-02" "nxt_aftermarket") (some ⟨canonicalBarColumns, bars⟩) }
  ledger := [⟨"2026-03-02", "nxt_aftermarket", "005930", "COMPLETE", bars.length, "", "kis", "", 0, false⟩]
  recorded := []

/-- The vendors and a disk, where KIS has the adjusted bars and Kiwoom the raw one. -/
def adjustedAnswer : (op : BackfillOp (String × Option Rat)) → BackfillWorld (String × Option Rat) →
    op.Ret × BackfillWorld (String × Option Rat) :=
  backfillAnswer textCells [("005930", acquired adjustedBars)] [("005930", acquired [rawBar])]

theorem adjustedAnswer_exec (op : BackfillOp (String × Option Rat)) (w : BackfillWorld (String × Option Rat)) :
    BackfillExec textCells op w (adjustedAnswer op w).1 (adjustedAnswer op w).2 :=
  backfillAnswer_exec (acquired_of_lookup (by constructor <;> decide +kernel))
    (acquired_of_lookup (by constructor <;> decide +kernel)) op w

/-- The world after the repair. -/
def repairedWorld (bars : List (Row (String × Option Rat))) : BackfillWorld (String × Option Rat) :=
  (Prog.run adjustedAnswer (runExtendedSessionBackfill repairOneDay) (unverifiedWorld bars)).2

theorem runExtendedSessionBackfill_exact_iff_one_bar :
    (repairedWorld (adjustedBars.take 1)).recorded.map (fun x => (x.row.status, x.row.priceBasis)) =
      [("COMPLETE", "kiwoom_raw")] ∧
    ∀ x ∈ (repairedWorld (adjustedBars.take 1)).recorded, x.row.CertifiesRaw →
      (x.Exact textCells (repairedWorld (adjustedBars.take 1)).store ↔
        x.Fits textCells (unverifiedWorld (adjustedBars.take 1)).store) := by
  have hends := Prog.run_ends adjustedAnswer_exec (runExtendedSessionBackfill repairOneDay)
    (unverifiedWorld (adjustedBars.take 1))
  exact ⟨by decide +kernel, runExtendedSessionBackfill_exact_iff repairOneDay _ _ rfl hends.reach⟩

/-- Two adjusted bars are stored, the raw frame has one: the guard keeps the two, nothing raises, and the ledger says that
the raw frame is stored. -/
theorem certifies_adjusted_bars : ∃ w' : BackfillWorld (String × Option Rat),
    Prog.Ends (BackfillExec textCells) (runExtendedSessionBackfill repairOneDay) (unverifiedWorld adjustedBars) (.ok ()) w' ∧
      ∃ x ∈ w'.recorded, x.row.status = "COMPLETE" ∧ x.row.priceBasis = "kiwoom_raw" ∧ x.row ∈ w'.ledger ∧
        x.frame.rows = [rawBar] ∧ rowsIn textCells x.row.symbol (w'.store.files x.row.target) = adjustedBars ∧
        ¬ x.Exact textCells w'.store := by
  have hends := Prog.run_ends adjustedAnswer_exec (runExtendedSessionBackfill repairOneDay) (unverifiedWorld adjustedBars)
  have hreturned : (Prog.run adjustedAnswer (runExtendedSessionBackfill repairOneDay) (unverifiedWorld adjustedBars)).1 =
      .ok () := by decide +kernel
  rw [hreturned] at hends
  refine ⟨_, hends, ?_⟩
  unfold BackfillRecord.Exact
  decide +kernel

end Intraday
