import KClosingAlpha.Intraday.Tape
/-!
# Commit — what the ledger says of the partitions after a commit

A result whose write went through leaves its partition with as many rows of its symbol as the larger of what was there
and what it brought (`Settles`): the guard refuses a smaller tape without raising.  Its ledger record is true exactly when
nothing larger was there.
-/
namespace Intraday

variable {Cell : Type} {pd : Pandas Cell}

/-! ## Certified writes -/

/-- Every result of `D` is stored unless more was, and nothing else changed. -/
structure Settles (pd : Pandas Cell) (D : TapeDayResult Cell → Prop) (w w' : World Cell) : Prop where
  done : ∀ r, D r → storedRows pd r.symbol (w'.files r.target) = max (storedRows pd r.symbol (w.files r.target)) r.rows
  rest : ∀ t s, (∀ r, D r → r.target = t → r.symbol ≠ s) → storedRows pd s (w'.files t) = storedRows pd s (w.files t)

namespace Settles

variable {D D' : TapeDayResult Cell → Prop} {w w₁ w' : World Cell}

theorem nothing (hf : w'.files = w.files) (h : ∀ r, ¬ D r) : Settles pd D w w' :=
  ⟨fun r hr => absurd hr (h r), fun t s _ => by rw [hf]⟩

theorem congr (h : Settles pd D w w') (hD : ∀ r, D r ↔ D' r) : Settles pd D' w w' :=
  ⟨fun r hr => h.done r ((hD r).2 hr), fun t s hs => h.rest t s (fun r hr => hs r ((hD r).1 hr))⟩

/-- One set of results after another that has no symbol of a partition in common with it. -/
theorem append (h : Settles pd D w w₁) (h' : Settles pd D' w₁ w')
    (hdis : ∀ r, D r → ∀ r', D' r' → r'.target = r.target → r'.symbol ≠ r.symbol) :
    Settles pd (fun r => D r ∨ D' r) w w' := by
  constructor
  · rintro r (hr | hr)
    · rw [h'.rest _ _ (fun r' hr' => hdis r hr r' hr'), h.done r hr]
    · rw [h'.done r hr, h.rest]
      exact fun r' hr' ht hs => hdis r' hr' r hr ht.symm hs.symm
  · intro t s hs
    rw [h'.rest t s (fun r hr => hs r (.inr hr)), h.rest t s (fun r hr => hs r (.inl hr))]

end Settles

/-- Every result of `D` has its own rows on disk unless more were, and the rows of other symbols are as they were. -/
structure Lands (pd : Pandas Cell) (D : TapeDayResult Cell → Prop) (w w' : World Cell) : Prop where
  done : ∀ r, D r → rowsIn pd r.symbol (w'.files r.target) =
    if storedRows pd r.symbol (w.files r.target) ≤ r.rows then r.frame.rows else rowsIn pd r.symbol (w.files r.target)
  rest : ∀ t s, (∀ r, D r → r.target = t → r.symbol ≠ s) → rowsIn pd s (w'.files t) = rowsIn pd s (w.files t)

namespace Lands

variable {D D' : TapeDayResult Cell → Prop} {w w₁ w' : World Cell}

theorem settles (h : Lands pd D w w') : Settles pd D w w' := by
  constructor
  · intro r hr
    have hlen := congrArg List.length (h.done r hr)
    split_ifs at hlen with hle
    · rw [max_eq_right hle]
      exact hlen
    · rw [max_eq_left (not_le.1 hle).le]
      exact hlen
  · exact fun t s hs => congrArg List.length (h.rest t s hs)

theorem nothing (hf : w'.files = w.files) (h : ∀ r, ¬ D r) : Lands pd D w w' :=
  ⟨fun r hr => absurd hr (h r), fun t s _ => by rw [hf]⟩

theorem congr (h : Lands pd D w w') (hD : ∀ r, D r ↔ D' r) : Lands pd D' w w' :=
  ⟨fun r hr => h.done r ((hD r).2 hr), fun t s hs => h.rest t s (fun r hr => hs r ((hD r).1 hr))⟩

/-- One set of results after another that has no symbol of a partition in common with it. -/
theorem append (h : Lands pd D w w₁) (h' : Lands pd D' w₁ w')
    (hdis : ∀ r, D r → ∀ r', D' r' → r'.target = r.target → r'.symbol ≠ r.symbol) :
    Lands pd (fun r => D r ∨ D' r) w w' := by
  constructor
  · rintro r (hr | hr)
    · rw [h'.rest _ _ (fun r' hr' => hdis r hr r' hr'), h.done r hr]
    · have hsame : rowsIn pd r.symbol (w₁.files r.target) = rowsIn pd r.symbol (w.files r.target) :=
        h.rest _ _ fun r' hr' ht hs => hdis r' hr' r hr ht.symm hs.symm
      rw [h'.done r hr]
      unfold storedRows
      rw [hsame]
  · intro t s hs
    rw [h'.rest t s (fun r hr => hs r (.inr hr)), h.rest t s (fun r hr => hs r (.inl hr))]

end Lands

/-- The certified results of one write: settled, of one day and session, and of different symbols. -/
structure Batch (pd : Pandas Cell) (day session : String) (batch : List (TapeDayResult Cell)) : Prop where
  settled : ∀ r ∈ batch, Settled pd r
  certified : ∀ r ∈ batch, r.entry.isCertified = true
  group : ∀ r ∈ batch, r.group = (day, session)
  nodup : (batch.map TapeDayResult.symbol).Nodup

section batch

variable {day session : String} {batch : List (TapeDayResult Cell)}

theorem Batch.tail {r : TapeDayResult Cell} (h : Batch pd day session (r :: batch)) : Batch pd day session batch :=
  ⟨(List.forall_mem_cons.1 h.settled).2, (List.forall_mem_cons.1 h.certified).2, (List.forall_mem_cons.1 h.group).2,
    (List.nodup_cons.1 h.nodup).2⟩

theorem Batch.single {r : TapeDayResult Cell} (h : Batch pd day session batch) (hr : r ∈ batch) :
    Batch pd day session [r] := by
  refine ⟨?_, ?_, ?_, List.nodup_singleton _⟩
  · exact List.forall_mem_singleton.2 (h.settled r hr)
  · exact List.forall_mem_singleton.2 (h.certified r hr)
  · exact List.forall_mem_singleton.2 (h.group r hr)

theorem Batch.target (h : Batch pd day session batch) {r : TapeDayResult Cell} (hr : r ∈ batch) :
    r.target = .ticks day session := by
  have hg := h.group r hr
  unfold TapeDayResult.group at hg
  unfold TapeDayResult.target
  rw [(Prod.mk.inj hg).1, (Prod.mk.inj hg).2]

/-- A certified result is complete and has rows, or has none. -/
theorem Settled.rows_nil {r : TapeDayResult Cell} (h : Settled pd r) (hc : r.entry.isCertified = true)
    (hno : r.entry.status ≠ .complete) : r.entry.status = .noTrades ∧ r.frame.rows = [] := by
  have hst : r.entry.status = .noTrades := by
    unfold CoverageEntry.isCertified at hc
    simpa [hno] using hc
  exact ⟨hst, h.noTrades hst⟩

/-- The rows a batch hands to its write. -/
def batchRowsOf (batch : List (TapeDayResult Cell)) : List (Row Cell) :=
  (batch.filter (fun r => decide (r.entry.status = .complete))).flatMap (fun r => r.frame.rows)

theorem key_of_batchRowsOf (h : Batch pd day session batch) {row : Row Cell} (hrow : row ∈ batchRowsOf batch) :
    ∃ r ∈ batch, pd.key canonicalTickColumns row = r.symbol := by
  obtain ⟨r, hr, hmem⟩ := List.mem_flatMap.1 hrow
  exact ⟨r, List.mem_of_mem_filter hr, (h.settled r (List.mem_of_mem_filter hr)).own row hmem⟩

/-- The rows of a symbol are those of its result. -/
theorem batchRowsOf_symbol : ∀ {batch : List (TapeDayResult Cell)}, Batch pd day session batch → ∀ r ∈ batch,
    (batchRowsOf batch).filter (fun row => decide (pd.key canonicalTickColumns row = r.symbol)) = r.frame.rows
  | [], _, r, hr => by cases hr
  | a :: batch, h, r, hr => by
    have hsplit : batchRowsOf (a :: batch) = a.frame.rows ++ batchRowsOf batch := by
      unfold batchRowsOf
      by_cases hc : a.entry.status = .complete
      · rw [List.filter_cons_of_pos (by simpa using hc), List.flatMap_cons]
      · rw [List.filter_cons_of_neg (by simpa using hc),
          ((h.settled a List.mem_cons_self).rows_nil (h.certified a List.mem_cons_self) hc).2, List.nil_append]
    have hnot : ∀ b ∈ batch, b.symbol ≠ a.symbol := fun b hb heq =>
      (List.nodup_cons.1 h.nodup).1 (heq ▸ List.mem_map_of_mem hb)
    rw [hsplit, List.filter_append]
    rcases List.mem_cons.1 hr with rfl | hr
    · have hown : r.frame.rows.filter (fun row => decide (pd.key canonicalTickColumns row = r.symbol)) = r.frame.rows :=
        List.filter_eq_self.2 (fun row hrow => decide_eq_true ((h.settled r List.mem_cons_self).own row hrow))
      have hrest : (batchRowsOf batch).filter (fun row => decide (pd.key canonicalTickColumns row = r.symbol)) = [] := by
        refine List.filter_eq_nil_iff.2 (fun row hrow heq => ?_)
        obtain ⟨b, hb, hkey⟩ := key_of_batchRowsOf h.tail hrow
        exact hnot b hb (hkey.symm.trans (of_decide_eq_true heq))
      rw [hown, hrest, List.append_nil]
    · have hown : a.frame.rows.filter (fun row => decide (pd.key canonicalTickColumns row = r.symbol)) = [] := by
        refine List.filter_eq_nil_iff.2 (fun row hrow heq => ?_)
        rw [(h.settled a List.mem_cons_self).own row hrow] at heq
        exact hnot r hr (of_decide_eq_true heq).symm
      rw [hown, List.nil_append, batchRowsOf_symbol h.tail r hr]

/-- The coverage of a batch has one entry a result. -/
theorem batch_coverage {batchRows : Int} (h : Batch pd day session batch) :
    (groupArgs batchRows day session batch).coverage = some (batch.map (fun r => (r.symbol, r.entry))) := by
  have hfold : ∀ add : Coverage → TapeDayResult Cell → Coverage,
      (∀ acc r, r.entry.symbol = some r.symbol → r.symbol ≠ "" → add acc r = Py.Dict.set acc r.symbol r.entry) →
      ∀ (batch : List (TapeDayResult Cell)) (acc : Coverage), Batch pd day session batch →
      (∀ r ∈ batch, r.symbol ∉ acc.map Prod.fst) →
      batch.foldl add acc = acc ++ batch.map (fun r => (r.symbol, r.entry)) := by
    intro add hadd batch
    induction batch with
    | nil => exact fun acc _ _ => (List.append_nil acc).symm
    | cons a batch ih =>
      intro acc h hnew
      have ha := h.settled a List.mem_cons_self
      rw [List.foldl_cons, hadd acc a ha.symbol ha.named]
      rw [Py.Dict.set_of_not_mem (hnew a List.mem_cons_self), ih _ h.tail, List.append_assoc]
      · rfl
      · intro r hr
        rw [List.map_append, List.mem_append, not_or]
        refine ⟨hnew r (List.mem_cons_of_mem a hr), fun heq => ?_⟩
        have heq' : r.symbol = a.symbol := by simpa using heq
        exact (List.nodup_cons.1 h.nodup).1 (heq' ▸ List.mem_map_of_mem hr)
  refine congrArg some (hfold _ (fun acc r hsym hne => ?_) batch [] h (fun _ _ => List.not_mem_nil))
  rw [hsym]
  exact if_neg hne

/-- The symbols a batch asks to replace are those of its results. -/
theorem batch_asked {batchRows : Int} (h : Batch pd day session batch) (hne : batch ≠ []) {s : String} :
    s ∈ (groupArgs batchRows day session batch).asked pd ↔ ∃ r ∈ batch, r.symbol = s := by
  obtain ⟨a, as, rfl⟩ := List.exists_cons_of_ne_nil hne
  have hcol : a.frame.columns = canonicalTickColumns := (h.settled a List.mem_cons_self).columns
  unfold WriteArgs.asked
  rw [batch_coverage h]
  change s ∈ pd.symbols a.frame.columns (batchRowsOf (a :: as)) ++ noTradesSymbols session _ ↔ _
  rw [hcol, List.mem_append, pd.mem_symbols]
  constructor
  · rintro (⟨row, hrow, rfl⟩ | hs)
    · obtain ⟨r, hr, hkey⟩ := key_of_batchRowsOf h hrow
      exact ⟨r, hr, hkey.symm⟩
    · obtain ⟨p, hp, rfl⟩ := List.mem_map.1 hs
      obtain ⟨r, hr, rfl⟩ := List.mem_map.1 (List.mem_of_mem_filter hp)
      exact ⟨r, hr, rfl⟩
  · rintro ⟨r, hr, rfl⟩
    have hr' := h.settled r hr
    by_cases hc : r.entry.status = .complete
    · left
      obtain ⟨row, rows, hrows⟩ := List.exists_cons_of_ne_nil (hr'.complete hc)
      have hmem : row ∈ r.frame.rows := by rw [hrows]; exact List.mem_cons_self
      exact ⟨row, List.mem_flatMap.2 ⟨r, List.mem_filter.2 ⟨hr, decide_eq_true hc⟩, hmem⟩, hr'.own row hmem⟩
    · right
      have hno := (hr'.rows_nil (h.certified r hr) hc).1
      refine List.mem_map.2 ⟨(r.symbol, r.entry), List.mem_filter.2 ⟨List.mem_map_of_mem hr, ?_⟩, rfl⟩
      have hsession : r.entry.session = session := hr'.session.trans (Prod.mk.inj (h.group r hr)).2
      have hrefs := (r.entry.evidence (.inl hno)).2
      have hvenue := hr'.venue (h.certified r hr)
      simp [hno, hsession, hrefs, hvenue]

/-- **A batch that is written stores its results.** -/
theorem Batch.lands [DecidableEq Cell] {batchRows : Int} (h : Batch pd day session batch) (hne : batch ≠ [])
    {w w' : World Cell} {n : Nat}
    (hrun : Prog.Ends Exec (writeTickPartition pd (groupArgs batchRows day session batch)) w (.ok n) w') :
    Lands pd (· ∈ batch) w w' := by
  obtain ⟨hmade, hothers⟩ := Write.ends_ok (c := .ticks (groupArgs batchRows day session batch)) hrun
  change Written pd ((groupArgs batchRows day session batch).normalized pd tickLayout)
    ((groupArgs batchRows day session batch).asked pd) [] false (w.files (.ticks day session)) (w'.files (.ticks day session)) at hmade
  have hnorm : (groupArgs batchRows day session batch).normalized pd tickLayout =
      ⟨canonicalTickColumns, batchRowsOf batch⟩ := by
    obtain ⟨a, as, rfl⟩ := List.exists_cons_of_ne_nil hne
    have hdf : (groupArgs batchRows day session (a :: as)).df = some ⟨a.frame.columns, batchRowsOf (a :: as)⟩ := rfl
    unfold WriteArgs.normalized
    rw [hdf, (h.settled a List.mem_cons_self).columns]
    dsimp only
    split_ifs <;> rfl
  rw [hnorm] at hmade
  have hcount : ∀ r ∈ batch, pd.count canonicalTickColumns r.symbol (batchRowsOf batch) = r.rows := by
    intro r hr
    unfold Pandas.count TapeDayResult.rows
    rw [List.countP_eq_length_filter, batchRowsOf_symbol h r hr]
  have hreplaces : ∀ r ∈ batch, (Replaces pd (w.files (.ticks day session)) ⟨canonicalTickColumns, batchRowsOf batch⟩
      ((groupArgs batchRows day session batch).asked pd) [] r.symbol ↔
        storedRows pd r.symbol (w.files (.ticks day session)) ≤ r.rows) := by
    intro r hr
    unfold Replaces
    rw [batch_asked h hne, hcount r hr]
    simp only [List.not_mem_nil, or_false]
    exact and_iff_right ⟨r, hr, rfl⟩
  constructor
  · intro r hr
    rw [h.target hr]
    split_ifs with hle
    · exact (hmade.replaced _ ((hreplaces r hr).2 hle)).trans (batchRowsOf_symbol h r hr)
    · exact hmade.kept _ (fun hrep => hle ((hreplaces r hr).1 hrep))
  · intro t s hs
    by_cases ht : t = .ticks day session
    · subst ht
      refine hmade.kept s (fun hrep => ?_)
      obtain ⟨r, hr, rfl⟩ := (batch_asked h hne).1 hrep.1
      exact hs r hr (h.target hr) rfl
    · rw [hothers t ht]

/-- A batch that is written settles its results. -/
theorem Batch.settles [DecidableEq Cell] {batchRows : Int} (h : Batch pd day session batch) (hne : batch ≠ [])
    {w w' : World Cell} {n : Nat}
    (hrun : Prog.Ends Exec (writeTickPartition pd (groupArgs batchRows day session batch)) w (.ok n) w') :
    Settles pd (· ∈ batch) w w' := (h.lands hne hrun).settles

/-- A batch that is refused changes nothing. -/
theorem files_of_refused [DecidableEq Cell] {args : WriteArgs Cell} {w w' : World Cell} {e : Exn}
    (he : e.isValueError = true) (hrun : Prog.Ends Exec (writeTickPartition pd args) w (.error e) w') :
    w'.files = w.files := by
  apply Write.ends_error (c := .ticks args) hrun
  rintro (hlog | hos)
  · cases hlog
  · rw [Exn.isOSError_of_isValueError he] at hos
    cases hos

end batch

/-! ## Groups -/

theorem addToGroup_fst (r : TapeDayResult Cell) :
    ∀ groups : List ((String × String) × List (TapeDayResult Cell)),
      (addToGroup r groups).map Prod.fst =
        if r.group ∈ groups.map Prod.fst then groups.map Prod.fst else groups.map Prod.fst ++ [r.group]
  | [] => rfl
  | (g, items) :: groups => by
    unfold addToGroup
    by_cases hg : g = r.group
    · rw [if_pos hg, List.map_cons, List.map_cons, hg, if_pos List.mem_cons_self]
    · rw [if_neg hg, List.map_cons, List.map_cons, addToGroup_fst r groups]
      by_cases hm : r.group ∈ groups.map Prod.fst
      · rw [if_pos hm, if_pos (List.mem_cons_of_mem _ hm)]
      · rw [if_neg hm, if_neg (fun h => (List.mem_cons.1 h).elim (fun heq => hg heq.symm) hm), List.cons_append]

/-- A result goes to the end of its group, or opens it. -/
theorem mem_addToGroup {r : TapeDayResult Cell} :
    ∀ {groups : List ((String × String) × List (TapeDayResult Cell))} {g : (String × String) × List (TapeDayResult Cell)},
      (groups.map Prod.fst).Nodup → g ∈ addToGroup r groups →
        (g.1 ≠ r.group ∧ g ∈ groups) ∨
        (g.1 = r.group ∧ ∃ items, (g.1, items) ∈ groups ∧ g.2 = items ++ [r]) ∨
        (g.1 = r.group ∧ r.group ∉ groups.map Prod.fst ∧ g.2 = [r])
  | [], g, _, h => by
    rw [addToGroup, List.mem_singleton] at h
    subst h
    exact .inr (.inr ⟨rfl, List.not_mem_nil, rfl⟩)
  | (g₀, items) :: groups, g, hn, h => by
    rw [List.map_cons, List.nodup_cons] at hn
    unfold addToGroup at h
    by_cases hg : g₀ = r.group
    · rw [if_pos hg] at h
      rcases List.mem_cons.1 h with rfl | h
      · exact .inr (.inl ⟨hg, items, List.mem_cons_self, rfl⟩)
      · refine .inl ⟨fun heq => hn.1 ?_, List.mem_cons_of_mem _ h⟩
        rw [hg, ← heq]
        exact List.mem_map.2 ⟨g, h, rfl⟩
    · rw [if_neg hg] at h
      rcases List.mem_cons.1 h with rfl | h
      · exact .inl ⟨hg, List.mem_cons_self⟩
      · rcases mem_addToGroup hn.2 h with ⟨hne, hm⟩ | ⟨heq, items', hm, hit⟩ | ⟨heq, hno, hit⟩
        · exact .inl ⟨hne, List.mem_cons_of_mem _ hm⟩
        · exact .inr (.inl ⟨heq, items', List.mem_cons_of_mem _ hm, hit⟩)
        · refine .inr (.inr ⟨heq, ?_, hit⟩)
          rw [List.map_cons, List.mem_cons, not_or]
          exact ⟨fun h => hg h.symm, hno⟩

/-- The groups of a list of results: different, and each with its results in order. -/
structure Grouped (results : List (TapeDayResult Cell)) (groups : List ((String × String) × List (TapeDayResult Cell))) :
    Prop where
  nodup : (groups.map Prod.fst).Nodup
  items : ∀ g ∈ groups, g.2 = results.filter (fun r => decide (r.group = g.1))
  mem : ∀ g, g ∈ groups.map Prod.fst ↔ ∃ r ∈ results, r.group = g

theorem Grouped.add {results : List (TapeDayResult Cell)} {groups : List ((String × String) × List (TapeDayResult Cell))}
    (h : Grouped results groups) (r : TapeDayResult Cell) : Grouped (results ++ [r]) (addToGroup r groups) := by
  refine ⟨?_, ?_, ?_⟩
  · rw [addToGroup_fst]
    split_ifs with hm
    · exact h.nodup
    · exact h.nodup.append (List.nodup_singleton _) (fun g hg hg' => hm (List.mem_singleton.1 hg' ▸ hg))
  · intro g hg
    rw [List.filter_append]
    rcases mem_addToGroup h.nodup hg with ⟨hne, hmem⟩ | ⟨heq, items, hmem, hit⟩ | ⟨heq, hno, hit⟩
    · rw [h.items g hmem, List.filter_cons_of_neg (by simpa using Ne.symm hne), List.filter_nil, List.append_nil]
    · have hitems : items = results.filter (fun r => decide (r.group = g.1)) := h.items _ hmem
      rw [hit, hitems, List.filter_cons_of_pos (by simpa using heq.symm), List.filter_nil]
    · have hnil : results.filter (fun r' => decide (r'.group = g.1)) = [] := by
        refine List.filter_eq_nil_iff.2 (fun r' hr' heq' => hno ((h.mem _).2 ⟨r', hr', ?_⟩))
        exact (of_decide_eq_true heq').trans heq
      rw [hit, hnil, List.filter_cons_of_pos (by simpa using heq.symm), List.filter_nil, List.nil_append]
  · intro g
    rw [addToGroup_fst]
    have hlast : (∃ r' ∈ results ++ [r], r'.group = g) ↔ (∃ r' ∈ results, r'.group = g) ∨ r.group = g := by
      simp [or_and_right, exists_or]
    rw [hlast, ← h.mem]
    split_ifs with hm
    · exact (or_iff_left_of_imp (fun heq => heq ▸ hm)).symm
    · rw [List.mem_append, List.mem_singleton, eq_comm]

theorem groupResults_grouped (results : List (TapeDayResult Cell)) : Grouped results (groupResults results) := by
  unfold groupResults
  induction results using List.reverseRecOn with
  | nil => exact ⟨List.nodup_nil, fun g hg => (by cases hg), fun g => by simp⟩
  | append_singleton results r ih =>
    rw [List.foldl_append]
    exact ih.add r

/-! ## The flush -/

/-- The keys a flush failed. -/
def failedKeys (failed : Failed) : List (String × String × String) := failed.map Prod.fst

theorem Batch.key_ne {day session : String} {a r : TapeDayResult Cell} {batch : List (TapeDayResult Cell)}
    (h : Batch pd day session (a :: batch)) (hr : r ∈ batch) : r.symbol ≠ a.symbol := by
  intro heq
  apply (List.nodup_cons.1 h.nodup).1
  rw [← heq]
  exact List.mem_map_of_mem hr

variable {I : List LedgerRecord}

/-- The ledger as it was, and a value that satisfies `φ`. -/
abbrev Flushes {α : Type} (pd : Pandas Cell) (I : List LedgerRecord) (p : TapeCall Cell α) (φ : α → TapeWorld Cell → Prop)
    (w : TapeWorld Cell) : Prop := Prog.keeps (TapeExec pd) (fun w' => w'.ledger = I) p φ w

theorem guardAll_flushes : ∀ {items : List (TapeDayResult Cell)} {w : TapeWorld Cell}, w.ledger = I →
    Flushes pd I (guardAll items) (fun _ w' => w' = w) w
  | [], w, hw => Prog.keeps_ret hw rfl
  | r :: rs, w, hw => by
    apply Prog.keeps_call
    rintro closed w' rfl
    refine ⟨hw, ?_⟩
    cases closed with
    | true => exact guardAll_flushes hw
    | false => exact Prog.keeps_raise hw

section group

variable [DecidableEq Cell] {w : TapeWorld Cell} {day session : String}

/-- What a flush of some results leaves: all but the failed ones are settled. -/
def Flushed (pd : Pandas Cell) (results : List (TapeDayResult Cell)) (w : World Cell) (failed : Failed)
    (w' : TapeWorld Cell) : Prop :=
  Settles pd (fun r => r ∈ results ∧ r.key ∉ failedKeys failed) w w'.store ∧
    ∀ k ∈ failedKeys failed, ∃ r ∈ results, r.key = k

/-- One by one: each result is settled or failed. -/
theorem isolate_flushes {batchRows : Int} : ∀ {batch : List (TapeDayResult Cell)} {w : TapeWorld Cell}, w.ledger = I →
    Batch pd day session batch → Flushes pd I (isolate batchRows day session batch) (Flushed pd batch w.store) w
  | [], w, hw, _ => by
    unfold isolate
    refine Prog.keeps_ret hw ?_
    exact ⟨.nothing rfl (fun r hr => by cases hr.1), fun k hk => by cases hk⟩
  | a :: batch, w, hw, h => by
    have hkey : ∀ r ∈ batch, r.key ≠ a.key := fun r hr heq => h.key_ne hr (Prod.mk.inj heq).1
    unfold isolate
    apply Prog.keeps_call
    rintro o w₁ ⟨store, hrun, rfl⟩
    refine ⟨hw, ?_⟩
    -- the rest starts from the disk this write leaves
    have hrec : Flushes pd I (isolate batchRows day session batch) (Flushed pd batch store) ⟨store, w.ledger⟩ :=
      isolate_flushes (w := ⟨store, w.ledger⟩) hw h.tail
    cases o with
    | ok n =>
      have ha := (h.single List.mem_cons_self).settles (List.cons_ne_nil _ _) hrun
      apply Prog.keeps_mono hrec
      rintro failed w' - ⟨hset, hkeys⟩
      constructor
      · refine (ha.append hset ?_).congr (fun r => ?_)
        · rintro r hr r' ⟨hr', -⟩ - heq
          rw [List.mem_singleton.1 hr] at heq
          exact h.key_ne hr' heq
        · rw [List.mem_singleton, List.mem_cons]
          constructor
          · rintro (rfl | ⟨hr, hk⟩)
            · refine ⟨.inl rfl, fun hk => ?_⟩
              obtain ⟨r', hr', heq⟩ := hkeys _ hk
              exact hkey r' hr' heq
            · exact ⟨.inr hr, hk⟩
          · rintro ⟨rfl | hr, hk⟩
            · exact .inl rfl
            · exact .inr ⟨hr, hk⟩
      · intro k hk
        obtain ⟨r, hr, heq⟩ := hkeys k hk
        exact ⟨r, List.mem_cons_of_mem a hr, heq⟩
    | error e =>
      dsimp only
      split_ifs with he
      · have hfiles := files_of_refused he hrun
        apply Prog.keeps_bind hrec
        rintro failed w' hw' ⟨hset, hkeys⟩
        refine Prog.keeps_ret hw' ?_
        have hg := h.group a List.mem_cons_self
        have hak : (a.symbol, day, session) = a.key := by
          unfold TapeDayResult.key
          rw [← (Prod.mk.inj hg).1, ← (Prod.mk.inj hg).2]
        rw [hak]
        constructor
        · refine ((Settles.nothing hfiles (fun _ h => h)).append hset (fun _ h => h.elim)).congr (fun r => ?_)
          unfold failedKeys
          rw [List.map_cons, List.mem_cons, List.mem_cons, not_or]
          constructor
          · rintro (hr | ⟨hr, hk⟩)
            · exact hr.elim
            · exact ⟨.inr hr, hkey r hr, hk⟩
          · rintro ⟨rfl | hr, hne, hk⟩
            · exact absurd rfl hne
            · exact .inr ⟨hr, hk⟩
        · intro k hk
          rcases List.mem_cons.1 hk with rfl | hk
          · exact ⟨a, List.mem_cons_self, rfl⟩
          · obtain ⟨r, hr, heq⟩ := hkeys k hk
            exact ⟨r, List.mem_cons_of_mem a hr, heq⟩
      · exact Prog.keeps_raise hw

theorem writeCertified_flushes {batchRows : Int} {batch : List (TapeDayResult Cell)} (hw : w.ledger = I)
    (h : Batch pd day session batch) :
    Flushes pd I (writeCertified batchRows day session batch) (Flushed pd batch w.store) w := by
  unfold writeCertified
  split_ifs with hempty
  · rw [List.isEmpty_iff] at hempty
    subst hempty
    refine Prog.keeps_ret hw ?_
    exact ⟨.nothing rfl (fun r hr => by cases hr.1), fun k hk => by cases hk⟩
  · apply Prog.keeps_call
    rintro o w₁ ⟨store, hrun, rfl⟩
    refine ⟨hw, ?_⟩
    cases o with
    | ok n =>
      refine Prog.keeps_ret hw ?_
      have hset := h.settles (fun heq => hempty (List.isEmpty_iff.2 heq)) hrun
      exact ⟨hset.congr (fun r => by simp [failedKeys]), fun k hk => by cases hk⟩
    | error e =>
      dsimp only
      split_ifs with he
      · have hone : Flushes pd I (isolate batchRows day session batch) (Flushed pd batch store) ⟨store, w.ledger⟩ :=
          isolate_flushes (w := ⟨store, w.ledger⟩) hw h
        apply Prog.keeps_mono hone
        rintro failed w' - ⟨hset, hkeys⟩
        refine ⟨?_, hkeys⟩
        refine ((Settles.nothing (files_of_refused he hrun) (fun _ h => h)).append hset (fun _ h => h.elim)).congr ?_
        exact fun r => or_iff_right id
      · exact Prog.keeps_raise hw

theorem flushGroup_flushes {batchRows : Int} {items : List (TapeDayResult Cell)} (hw : w.ledger = I)
    (h : Batch pd day session (items.filter (fun r => r.entry.isCertified))) :
    Flushes pd I (flushGroup batchRows day session items)
      (Flushed pd (items.filter (fun r => r.entry.isCertified)) w.store) w := by
  apply Prog.keeps_bind (guardAll_flushes hw)
  rintro - w' hw' rfl
  apply Prog.keeps_bind (writeCertified_flushes hw' h)
  intro failed w₁ hw₁ hflushed
  apply Prog.keeps_call
  rintro o w₂ rfl
  refine ⟨hw₁, ?_⟩
  apply Prog.keeps_bind (φ := fun _ w' => w' = w₂)
  · exact Prog.keeps_ofExcept hw₁ (fun _ _ => rfl)
  · rintro - w₃ hw₃ rfl
    exact Prog.keeps_ret hw₃ hflushed

end group

/-- The certified results of some groups. -/
def certifiedOf (groups : List ((String × String) × List (TapeDayResult Cell))) : List (TapeDayResult Cell) :=
  groups.flatMap (fun g => g.2.filter (fun r => r.entry.isCertified))

theorem flushGroups_flushes [DecidableEq Cell] {batchRows : Int} :
    ∀ {groups : List ((String × String) × List (TapeDayResult Cell))} {w : TapeWorld Cell}, w.ledger = I →
      (groups.map Prod.fst).Nodup →
      (∀ g ∈ groups, Batch pd g.1.1 g.1.2 (g.2.filter (fun r => r.entry.isCertified))) →
      Flushes pd I (flushGroups batchRows groups) (Flushed pd (certifiedOf groups) w.store) w
  | [], w, hw, _, _ => by
    unfold flushGroups
    refine Prog.keeps_ret hw ?_
    exact ⟨.nothing rfl (fun r hr => by cases hr.1), fun k hk => by cases hk⟩
  | ((day, session), items) :: groups, w, hw, hn, hb => by
    unfold flushGroups
    rw [List.map_cons, List.nodup_cons] at hn
    rw [List.forall_mem_cons] at hb
    have hmem : ∀ r, r ∈ certifiedOf (((day, session), items) :: groups) ↔
        r ∈ items.filter (fun r => r.entry.isCertified) ∨ r ∈ certifiedOf groups := by
      intro r
      unfold certifiedOf
      rw [List.flatMap_cons, List.mem_append]
    -- results of different groups have different targets and keys
    have hgroup : ∀ r ∈ items.filter (fun r => r.entry.isCertified), ∀ r' ∈ certifiedOf groups, r'.group ≠ r.group := by
      intro r hr r' hr' heq
      obtain ⟨g, hg, hr'⟩ := List.mem_flatMap.1 hr'
      apply hn.1
      rw [show (day, session) = g.1 from ((hb.1.group r hr).symm.trans heq.symm).trans ((hb.2 g hg).group r' hr')]
      exact List.mem_map.2 ⟨g, hg, rfl⟩
    apply Prog.keeps_bind (flushGroup_flushes hw hb.1)
    rintro failed w₁ hw₁ ⟨hset, hkeys⟩
    apply Prog.keeps_bind (flushGroups_flushes hw₁ hn.2 hb.2)
    rintro failed' w₂ hw₂ ⟨hset', hkeys'⟩
    refine Prog.keeps_ret hw₂ ?_
    constructor
    · refine (hset.append hset' ?_).congr (fun r => ?_)
      · rintro r ⟨hr, -⟩ r' ⟨hr', -⟩ htarget -
        refine hgroup r hr r' hr' ?_
        unfold TapeDayResult.target at htarget
        injection htarget with hday hsession
        exact Prod.ext hday hsession
      · unfold failedKeys
        rw [hmem, List.map_append, List.mem_append, not_or]
        constructor
        · rintro (⟨hr, hk⟩ | ⟨hr, hk⟩)
          · refine ⟨.inl hr, hk, fun hk' => ?_⟩
            obtain ⟨r', hr', heq⟩ := hkeys' _ hk'
            exact hgroup r hr r' hr' (Prod.mk.inj heq).2
          · refine ⟨.inr hr, fun hk' => ?_, hk⟩
            obtain ⟨r', hr', heq⟩ := hkeys _ hk'
            exact hgroup r' hr' r hr (Prod.mk.inj heq).2.symm
        · rintro ⟨hr | hr, hk, hk'⟩
          · exact .inl ⟨hr, hk⟩
          · exact .inr ⟨hr, hk'⟩
    · intro k hk
      unfold failedKeys at hk
      rw [List.map_append, List.mem_append] at hk
      rcases hk with hk | hk
      · obtain ⟨r, hr, heq⟩ := hkeys k hk
        exact ⟨r, (hmem r).2 (.inl hr), heq⟩
      · obtain ⟨r, hr, heq⟩ := hkeys' k hk
        exact ⟨r, (hmem r).2 (.inr hr), heq⟩

/-! ## The ledger -/

/-- What the ledger says of a result. -/
def recordOf (failed : Failed) (runDate : String) (p : TapeDayResult Cell × String) : LedgerRecord :=
  settleRecord failed (pendingRecord p.2 runDate p.1)

/-- A record never claims ticks that are not on disk. -/
def Truthful (pd : Pandas Cell) (store : World Cell) (r : TapeDayResult Cell) (record : LedgerRecord) : Prop :=
  (record.status = CaptureStatus.complete.value →
    storedRows pd record.symbol (store.files (.ticks record.day record.session)) = r.rows) ∧
  (record.status = CaptureStatus.noTrades.value →
    storedRows pd record.symbol (store.files (.ticks record.day record.session)) = 0)

/-- A record that says its result is stored. -/
def LedgerRecord.Certifies (record : LedgerRecord) : Prop :=
  record.status = CaptureStatus.complete.value ∨ record.status = CaptureStatus.noTrades.value

theorem collect_eq (runDate : String) (results : List (TapeDayResult Cell × String)) :
    (collect runDate results).buffer = results.map Prod.fst ∧
      (collect runDate results).pendingLedger = results.map (fun p => pendingRecord p.2 runDate p.1) := by
  induction results using List.reverseRecOn with
  | nil => exact ⟨rfl, rfl⟩
  | append_singleton results p ih =>
    have hadd : collect runDate (results ++ [p]) = (collect runDate results).add runDate p := by
      unfold collect
      rw [List.foldl_append]
      rfl
    rw [hadd, List.map_append, List.map_append, ← ih.1, ← ih.2]
    exact ⟨rfl, rfl⟩

section harvest

variable {results : List (TapeDayResult Cell)}

theorem mem_certifiedOf {r : TapeDayResult Cell} :
    r ∈ certifiedOf (groupResults results) ↔ r ∈ results ∧ r.entry.isCertified = true := by
  have hg := groupResults_grouped results
  unfold certifiedOf
  rw [List.mem_flatMap]
  constructor
  · rintro ⟨g, hgm, hr⟩
    rw [hg.items g hgm] at hr
    obtain ⟨hr, hc⟩ := List.mem_filter.1 hr
    exact ⟨List.mem_of_mem_filter hr, hc⟩
  · rintro ⟨hr, hc⟩
    obtain ⟨g, hgm, heq⟩ := List.mem_map.1 ((hg.mem r.group).2 ⟨r, hr, rfl⟩)
    refine ⟨g, hgm, List.mem_filter.2 ⟨?_, hc⟩⟩
    rw [hg.items g hgm]
    exact List.mem_filter.2 ⟨hr, decide_eq_true heq.symm⟩

/-- The certified results of each group are a batch. -/
theorem HarvestSet.batch (h : HarvestSet pd results) :
    ∀ g ∈ groupResults results, Batch pd g.1.1 g.1.2 (g.2.filter (fun r => r.entry.isCertified)) := by
  intro g hg
  rw [(groupResults_grouped results).items g hg]
  have hmem : ∀ r ∈ (results.filter (fun r => decide (r.group = g.1))).filter (fun r => r.entry.isCertified),
      r ∈ results ∧ r.group = g.1 ∧ r.entry.isCertified = true := by
    intro r hr
    obtain ⟨hr, hc⟩ := List.mem_filter.1 hr
    obtain ⟨hr, hgr⟩ := List.mem_filter.1 hr
    exact ⟨hr, of_decide_eq_true hgr, hc⟩
  constructor
  · exact fun r hr => h.settled r (hmem r hr).1
  · exact fun r hr => (hmem r hr).2.2
  · exact fun r hr => (hmem r hr).2.1
  · apply List.Nodup.map_on
    · intro r hr r' hr' heq
      have hgr := (hmem r hr).2.1.trans (hmem r' hr').2.1.symm
      apply List.inj_on_of_nodup_map h.nodup (hmem r hr).1 (hmem r' hr').1
      unfold TapeDayResult.key
      rw [heq, (Prod.mk.inj hgr).1, (Prod.mk.inj hgr).2]
    · exact (h.nodup.of_map.filter _).filter _

end harvest

theorem appendLedger_keeps {J : TapeWorld Cell → Prop} {store : World Cell} :
    ∀ {records : List LedgerRecord} {w : TapeWorld Cell},
      (∀ appended, appended <+: records → J ⟨store, w.ledger ++ appended⟩) → w.store = store →
      Prog.keeps (TapeExec pd) J (appendLedger records) (fun _ _ => True) w
  | [], w, hJ, hs => by
    unfold appendLedger
    refine Prog.keeps_ret ?_ trivial
    have hnil := hJ [] (List.nil_prefix)
    rwa [List.append_nil, ← hs] at hnil
  | record :: records, w, hJ, hs => by
    unfold appendLedger
    apply Prog.keeps_call
    intro o w' hop
    cases o with
    | error e =>
      cases hop
      have hnil := hJ [] (List.nil_prefix)
      rw [List.append_nil, ← hs] at hnil
      exact ⟨hnil, Prog.keeps_raise hnil⟩
    | ok u =>
      cases hop
      constructor
      · have hone := hJ [record] ⟨records, rfl⟩
        rwa [← hs] at hone
      · refine appendLedger_keeps (w := ⟨w.store, w.ledger ++ [record]⟩) (fun appended hpre => ?_) hs
        have hmore := hJ (record :: appended) (List.cons_prefix_cons.2 ⟨rfl, hpre⟩)
        rwa [List.append_assoc]

theorem verifyGroups_keeps {J : TapeWorld Cell → Prop} :
    ∀ {groups : List ((String × String) × Nat)} {w : TapeWorld Cell}, J w →
      Prog.keeps (TapeExec pd) J (verifyGroups groups) (fun _ w' => w' = w) w
  | [], w, hw => Prog.keeps_ret hw rfl
  | ((day, session), minimum) :: groups, w, hw => by
    unfold verifyGroups
    apply Prog.keeps_call
    rintro o w' ⟨-, rfl⟩
    refine ⟨hw, ?_⟩
    cases o with
    | error e => exact Prog.keeps_raise hw
    | ok total =>
      dsimp only
      split_ifs with hless
      · exact Prog.keeps_raise hw
      · exact verifyGroups_keeps hw

/-- What a commit leaves, cut anywhere. -/
def Recorded (pd : Pandas Cell) (runDate : String) (results : List (TapeDayResult Cell × String)) (w w' : TapeWorld Cell) :
    Prop :=
  ∃ failed appended, w'.ledger = w.ledger ++ appended ∧ appended <+: results.map (recordOf failed runDate) ∧
    (appended = [] ∨ Flushed pd (certifiedOf (groupResults (results.map Prod.fst))) w.store failed w')

theorem commit_keeps [DecidableEq Cell] {batchRows : Int} {runDate : String} {results : List (TapeDayResult Cell × String)}
    (h : HarvestSet pd (results.map Prod.fst)) (w : TapeWorld Cell) :
    Prog.keeps (TapeExec pd) (Recorded pd runDate results w) (commit batchRows (collect runDate results)) (fun _ _ => True)
      w := by
  obtain ⟨hbuffer, hpending⟩ := collect_eq runDate results
  unfold commit
  rw [hbuffer, hpending]
  have hflush : Flushes pd w.ledger (flushGroups batchRows (groupResults (results.map Prod.fst)))
      (Flushed pd (certifiedOf (groupResults (results.map Prod.fst))) w.store) w :=
    flushGroups_flushes rfl (groupResults_grouped (results.map Prod.fst)).nodup h.batch
  apply Prog.keeps_bind (Prog.keeps_weaken hflush ?_)
  · rintro failed w₁ hw₁ ⟨hledger, hflushed⟩
    apply Prog.keeps_bind (verifyGroups_keeps hw₁)
    rintro - w₂ hw₂ rfl
    rw [List.map_map]
    apply appendLedger_keeps _ rfl
    intro appended hpre
    exact ⟨failed, appended, by rw [hledger], hpre, .inr hflushed⟩
  · intro w₁ hledger
    exact ⟨[], [], by rw [hledger, List.append_nil], List.nil_prefix, .inl rfl⟩

theorem CaptureStatus.value_injective : Function.Injective CaptureStatus.value := by
  intro a b h
  cases a <;> cases b <;> first | rfl | exact absurd h (by decide)

/-- A record certifies a result that is certified and was not failed. -/
theorem recordOf_certifies {failed : Failed} {runDate : String} {p : TapeDayResult Cell × String}
    (h : (recordOf failed runDate p).Certifies) :
    p.1.entry.isCertified = true ∧ p.1.key ∉ failedKeys failed ∧
      recordOf failed runDate p = pendingRecord p.2 runDate p.1 := by
  unfold recordOf settleRecord at h ⊢
  cases hlook : failed.lookup (p.1.symbol, p.1.day, p.1.session) with
  | some reason =>
    have hlook' : failed.lookup ((pendingRecord p.2 runDate p.1).symbol, (pendingRecord p.2 runDate p.1).day,
      (pendingRecord p.2 runDate p.1).session) = some reason := hlook
    rw [hlook'] at h
    have hfailed : CaptureStatus.failed.value = CaptureStatus.complete.value ∨
      CaptureStatus.failed.value = CaptureStatus.noTrades.value := h
    exact absurd hfailed (by decide)
  | none =>
    have hlook' : failed.lookup ((pendingRecord p.2 runDate p.1).symbol, (pendingRecord p.2 runDate p.1).day,
      (pendingRecord p.2 runDate p.1).session) = none := hlook
    rw [hlook'] at h ⊢
    refine ⟨?_, ?_, rfl⟩
    · unfold CoverageEntry.isCertified
      rw [Bool.or_eq_true, decide_eq_true_iff, decide_eq_true_iff]
      exact h.imp (fun heq => CaptureStatus.value_injective heq) (fun heq => CaptureStatus.value_injective heq)
    · intro hmem
      obtain ⟨f, hf, hkey⟩ := List.mem_map.1 hmem
      have hne := List.lookup_eq_none_iff.1 hlook f hf
      rw [hkey] at hne
      exact absurd hne (by simp [TapeDayResult.key])

/-- A certifying record is true exactly when the partition held no more than the result. -/
theorem truthful_iff {results : List (TapeDayResult Cell × String)} (h : HarvestSet pd (results.map Prod.fst))
    {failed : Failed} {runDate : String} {w : World Cell} {w' : TapeWorld Cell}
    (hflushed : Flushed pd (certifiedOf (groupResults (results.map Prod.fst))) w failed w')
    {p : TapeDayResult Cell × String} (hp : p ∈ results) (hcert : (recordOf failed runDate p).Certifies) :
    Truthful pd w'.store p.1 (recordOf failed runDate p) ↔
      storedRows pd p.1.symbol (w.files p.1.target) ≤ p.1.rows := by
  obtain ⟨hc, hkey, hrec⟩ := recordOf_certifies hcert
  have hmem : p.1 ∈ results.map Prod.fst := List.mem_map_of_mem hp
  have hstored : storedRows pd p.1.symbol (w'.store.files (.ticks p.1.day p.1.session)) =
      max (storedRows pd p.1.symbol (w.files p.1.target)) p.1.rows :=
    hflushed.1.done p.1 ⟨mem_certifiedOf.2 ⟨hmem, hc⟩, hkey⟩
  rw [hrec]
  unfold Truthful pendingRecord
  dsimp only
  rw [hstored]
  by_cases hcomplete : p.1.entry.status = .complete
  · rw [hcomplete]
    constructor
    · exact fun htrue => max_eq_right_iff.1 (htrue.1 rfl)
    · exact fun hle => ⟨fun _ => max_eq_right hle, fun heq => absurd heq (by decide)⟩
  · obtain ⟨hno, hrows⟩ := (h.settled p.1 hmem).rows_nil hc hcomplete
    have hzero : p.1.rows = 0 := List.length_eq_zero_iff.2 hrows
    rw [hno, hzero]
    constructor
    · exact fun htrue => max_eq_right_iff.1 (htrue.2 rfl)
    · exact fun hle => ⟨fun heq => absurd heq (by decide), fun _ => max_eq_right hle⟩

/-- **What a commit appends is true exactly where the partitions held no more than the results**: over any results and
partitions, and wherever the commit is cut, a record claims ticks that are not on disk exactly when it certifies a
result and more rows of its symbol were there. -/
theorem ledger_truthful_iff [DecidableEq Cell] {batchRows : Int} {runDate : String}
    {results : List (TapeDayResult Cell × String)} (h : HarvestSet pd (results.map Prod.fst)) {w w' : TapeWorld Cell}
    (hr : Prog.Reach (TapeExec pd) (commit batchRows (collect runDate results)) w w') :
    ∃ failed appended, w'.ledger = w.ledger ++ appended ∧ appended <+: results.map (recordOf failed runDate) ∧
      ((∀ p ∈ results, recordOf failed runDate p ∈ appended → Truthful pd w'.store p.1 (recordOf failed runDate p)) ↔
        ∀ p ∈ results, recordOf failed runDate p ∈ appended → (recordOf failed runDate p).Certifies →
          storedRows pd p.1.symbol (w.store.files p.1.target) ≤ p.1.rows) := by
  have hnow : Recorded pd runDate results w w := ⟨[], [], (List.append_nil _).symm, List.nil_prefix, .inl rfl⟩
  obtain ⟨failed, appended, hledger, hpre, hflushed⟩ := Prog.keeps_reach (commit_keeps h w) hnow hr
  refine ⟨failed, appended, hledger, hpre, ?_⟩
  rcases hflushed with rfl | hflushed
  · exact ⟨fun _ p _ hmem => (by cases hmem), fun _ p _ hmem => (by cases hmem)⟩
  · constructor
    · exact fun htrue p hp hmem hcert => (truthful_iff h hflushed hp hcert).1 (htrue p hp hmem)
    · intro hle p hp hmem
      by_cases hcert : (recordOf failed runDate p).Certifies
      · exact (truthful_iff h hflushed hp hcert).2 (hle p hp hmem hcert)
      · exact ⟨fun heq => absurd (.inl heq) hcert, fun heq => absurd (.inr heq) hcert⟩

/-! ## One tick over two -/

/-- A disk and a ledger that answer. -/
def tapeAnswer (pd : Pandas Cell) [DecidableEq Cell] : (op : TapeOp Cell) → TapeWorld Cell → op.Ret × TapeWorld Cell
  | .closed _ _, w => (true, w)
  | .write args, w =>
    ((Prog.run (answer (fun _ => none)) (writeTickPartition pd args) w.store).1,
      { w with store := (Prog.run (answer (fun _ => none)) (writeTickPartition pd args) w.store).2 })
  | .manifest _ _ _, w => (.ok (), w)
  | .rowCount t, w => (.ok ((w.store.files t).elim 0 (fun f => f.rows.length)), w)
  | .appendRecord record, w => (.ok (), { w with ledger := w.ledger ++ [record] })

theorem tapeAnswer_exec (pd : Pandas Cell) [DecidableEq Cell] (op : TapeOp Cell) (w : TapeWorld Cell) :
    TapeExec pd op w (tapeAnswer pd op w).1 (tapeAnswer pd op w).2 := by
  cases op with
  | write args =>
    exact ⟨_, Prog.run_ends (answer_exec (fun _ => none) (fun _ _ h => by cases h)) (writeTickPartition pd args) w.store, rfl⟩
  | rowCount t =>
    refine ⟨fun n hn => ?_, rfl⟩
    cases hn
    rfl
  | closed | manifest | appendRecord => rfl

/-- A complete tape of one tick. -/
def oneTick : TapeDayResult (String × Option Rat) where
  symbol := "005930"
  day := "2026-03-02"
  session := "regular"
  frame := ⟨canonicalTickColumns, [tick "005930"]⟩
  entry :=
    { symbol := some "005930", venue := "KRX", session := "regular", status := .complete, rows := 1, reason := ""
      rawRefs := ["raw/tape-0.json"], evidence := by simp, certified := by simp }

theorem oneTick_harvest : HarvestSet textCells [oneTick] := by
  constructor
  · rw [List.forall_mem_singleton]
    constructor <;> decide +kernel
  · exact List.nodup_singleton _

/-- A disk with some ticks of the day. -/
def tapeWorld (ticks : List (Row (String × Option Rat))) : TapeWorld (String × Option Rat) where
  store :=
    { World.empty with
      files := Function.update World.empty.files (.ticks "2026-03-02" "regular") (some ⟨canonicalTickColumns, ticks⟩) }
  ledger := []

/-- The commit of the tick. -/
def commitOneTick : TapeCall (String × Option Rat) Unit :=
  commit 1 (collect "20260303" [(oneTick, "tape-20260303-0000")])

theorem ledger_truthful_one_tick :
    (Prog.run (tapeAnswer textCells) commitOneTick (tapeWorld [])).2.ledger ≠ [] ∧
    ∃ failed appended, (Prog.run (tapeAnswer textCells) commitOneTick (tapeWorld [])).2.ledger = (tapeWorld []).ledger ++ appended ∧
      appended <+: [(oneTick, "tape-20260303-0000")].map (recordOf failed "20260303") ∧
      ((∀ p ∈ [(oneTick, "tape-20260303-0000")], recordOf failed "20260303" p ∈ appended →
          Truthful textCells (Prog.run (tapeAnswer textCells) commitOneTick (tapeWorld [])).2.store p.1
            (recordOf failed "20260303" p)) ↔
        ∀ p ∈ [(oneTick, "tape-20260303-0000")], recordOf failed "20260303" p ∈ appended →
          (recordOf failed "20260303" p).Certifies →
          storedRows textCells p.1.symbol ((tapeWorld []).store.files p.1.target) ≤ p.1.rows) := by
  have hends := Prog.run_ends (tapeAnswer_exec textCells) commitOneTick (tapeWorld [])
  exact ⟨by decide +kernel, ledger_truthful_iff oneTick_harvest hends.reach⟩

/-- Two ticks are stored, the tape has one: the guard keeps the two, their number is enough for `_verify_groups`, and the
record says that the tape is stored. -/
theorem certifies_what_is_not_stored : ∃ w' : TapeWorld (String × Option Rat),
    Prog.Ends (TapeExec textCells) commitOneTick (tapeWorld [tick "005930", tick "005930"]) (.ok ()) w' ∧
      ∃ record ∈ w'.ledger, record.symbol = oneTick.symbol ∧ record.status = CaptureStatus.complete.value ∧
        storedRows textCells record.symbol (w'.store.files (.ticks record.day record.session)) = 2 ∧ oneTick.rows = 1 := by
  have hends := Prog.run_ends (tapeAnswer_exec textCells) commitOneTick (tapeWorld [tick "005930", tick "005930"])
  have hreturned : (Prog.run (tapeAnswer textCells) commitOneTick (tapeWorld [tick "005930", tick "005930"])).1 = .ok () := by
    decide +kernel
  rw [hreturned] at hends
  refine ⟨_, hends, pendingRecord "tape-20260303-0000" "20260303" oneTick, ?_⟩
  decide +kernel

end Intraday
