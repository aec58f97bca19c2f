import KClosingAlpha.Intraday.BackfillLedger
/-!
# Attempts — the failures a ledger counts over its runs

The attempts of a failed row are the failures that count since its key last had another status (`Tracks`), where a
reopening counts as one less than the limit; so a key is exhausted by a structural failure, or by the failure that
reaches the limit (`run_sound`).
-/
namespace BackfillLedger

open KeepLast
open Intraday (CoverageEntry isStructuralFailure)

/-! ## What was written -/

/-- What a row was written by. -/
inductive Cause where
  | attempt (transient : Bool)
  | absence
  | reopening

structure Written where
  row : Row
  cause : Cause

/-- The count after a row; one that did not fail resets it. -/
def countStep (credit : Nat) (n : Nat) (w : Written) : Nat :=
  if w.row.status = "FAILED" then
    match w.cause with
    | .attempt true => n
    | .attempt false => n + 1
    | .reopening => credit
    | .absence => 0
  else 0

/-- The failures of a key since it last had another status. -/
def failures (credit : Nat) (k : Key) (ws : List Written) : Nat :=
  (ws.filter (fun w => decide (w.row.key = k))).foldl (countStep credit) 0

def RecordCall.written (ledger : List Row) (call : RecordCall) : List Written :=
  call.pending.map (fun p => ⟨call.row ledger p.1 p.2, .attempt (call.transient p.2.reason)⟩)

def AbsentCall.written (call : AbsentCall) : List Written := call.incoming.map (fun row => ⟨row, .absence⟩)

def ReopenCall.written (cal : Calendar) (ledger : List Row) (call : ReopenCall) (apply : Bool) : List Written :=
  if apply then (call.select cal ledger).1.map (fun row => ⟨call.reopenedRow row, .reopening⟩) else []

/-- Calls that returned, from a ledger without rows, and what they wrote. -/
inductive Run : List Row → List Written → Prop where
  | start : Run [] []
  | record {l : List Row} {ws : List Written} (h : Run l ws) (call : RecordCall) :
      Run (record l call).1 (ws ++ call.written l)
  | absent {l l' : List Row} {ws : List Written} (h : Run l ws) (call : AbsentCall)
      (hok : recordCachedAbsent l call = .ok l') : Run l' (ws ++ call.written)
  | reopen {l l' : List Row} {ws : List Written} (h : Run l ws) (cal : Calendar) (call : ReopenCall) (apply : Bool)
      {plan : ReopenPlan} (hok : reopenExhausted cal l call apply = .ok (l', plan)) :
      Run l' (ws ++ call.written cal l apply)

/-! ## The counts of a ledger -/

/-- The attempts of a key's row if it failed. -/
def failedAttempts (k : Key) (l : List Row) : Nat :=
  ((latest Row.key k l).filter (fun row => decide (row.status = "FAILED"))).elim 0 Row.attempts

/-- A ledger has one row a key, and carries the counts. -/
structure Tracks (l : List Row) (ws : List Written) : Prop where
  oneRow : (l.map Row.key).Nodup
  limit : ∀ row ∈ l, row.status = "FAILED" → row.attempts < maxFailedAttempts
  counted : ∀ k, failedAttempts k l = failures (maxFailedAttempts - 1) k ws

/-- A row carries the count on. -/
structure Counts (ws : List Written) (w : Written) : Prop where
  limit : w.row.status = "FAILED" → w.row.attempts < maxFailedAttempts
  counted : (if w.row.status = "FAILED" then w.row.attempts else 0) =
    countStep (maxFailedAttempts - 1) (failures (maxFailedAttempts - 1) w.row.key ws) w

section tracks

variable {l l' : List Row} {ws new : List Written} {k : Key}

theorem failures_append (credit : Nat) (k : Key) (ws new : List Written) :
    failures credit k (ws ++ new) =
      (new.filter (fun w => decide (w.row.key = k))).foldl (countStep credit) (failures credit k ws) := by
  unfold failures
  rw [List.filter_append, List.foldl_append]

/-- Of rows of different keys at most one is of a key. -/
theorem filter_key_eq (hn : (new.map (fun w => w.row.key)).Nodup) {w : Written} (hw : w ∈ new) :
    new.filter (fun v => decide (v.row.key = w.row.key)) = [w] := by
  obtain ⟨as, bs, rfl⟩ := List.append_of_mem hw
  rw [List.map_append, List.map_cons] at hn
  have hdis := List.nodup_append.1 hn
  have has : as.filter (fun v => decide (v.row.key = w.row.key)) = [] := by
    refine List.filter_eq_nil_iff.2 (fun v hv => ?_)
    rw [decide_eq_true_eq]
    exact hdis.2.2 _ (List.mem_map_of_mem hv) _ List.mem_cons_self
  have hbs : bs.filter (fun v => decide (v.row.key = w.row.key)) = [] := by
    refine List.filter_eq_nil_iff.2 (fun v hv heq => ?_)
    rw [decide_eq_true_eq] at heq
    exact (List.nodup_cons.1 hdis.2.1).1 (heq ▸ List.mem_map_of_mem hv)
  rw [List.filter_append, List.filter_cons_of_pos (by simp), has, hbs, List.nil_append]

/-- **Rows that carry the counts on leave a ledger that has them.** -/
theorem Tracks.step (h : Tracks l ws) (hone : (l'.map Row.key).Nodup) (hn : (new.map (fun w => w.row.key)).Nodup)
    (hlatest : ∀ k, latest Row.key k l' = (latest Row.key k (new.map Written.row)).or (latest Row.key k l))
    (hcounts : ∀ w ∈ new, Counts ws w) : Tracks l' (ws ++ new) := by
  have hnew : ∀ w ∈ new, latest Row.key w.row.key (new.map Written.row) = some w.row := by
    intro w hw
    refine (latest_eq_some_iff_mem ?_).2 (List.mem_map_of_mem hw)
    rw [List.map_map]
    exact hn
  constructor
  · exact hone
  · intro row hrow
    have hlast := (latest_eq_some_iff_mem hone).2 hrow
    rw [hlatest] at hlast
    rcases Option.or_eq_some_iff.1 hlast with hmem | ⟨-, hmem⟩
    · obtain ⟨w, hw, rfl⟩ := List.mem_map.1 (mem_of_latest hmem).1
      exact (hcounts w hw).limit
    · exact h.limit row (mem_of_latest hmem).1
  · intro k
    rw [failures_append]
    by_cases hk : k ∈ new.map (fun w => w.row.key)
    · obtain ⟨w, hw, rfl⟩ := List.mem_map.1 hk
      rw [filter_key_eq hn hw, List.foldl_cons, List.foldl_nil, ← (hcounts w hw).counted]
      unfold failedAttempts
      rw [hlatest, hnew w hw, Option.some_or]
      by_cases hf : w.row.status = "FAILED" <;> simp [hf, Option.filter]
    · have hnone : new.filter (fun w => decide (w.row.key = k)) = [] := by
        refine List.filter_eq_nil_iff.2 (fun w hw heq => hk ?_)
        exact of_decide_eq_true heq ▸ List.mem_map_of_mem hw
      have hlast : latest Row.key k (new.map Written.row) = none := by
        rw [latest_eq_none_iff, List.map_map]
        exact hk
      rw [hnone, List.foldl_nil, ← h.counted]
      unfold failedAttempts
      rw [hlatest, hlast, Option.none_or]

end tracks

/-! ## record -/

section record

variable {l : List Row} {ws : List Written} {call : RecordCall} {p : String × CoverageEntry}

theorem before_eq (s : String) : call.before l s = latest Row.key (call.snapshotDate, call.session, s) l := by
  unfold RecordCall.before latest
  rw [List.filter_filter]
  congr 2
  funext row
  by_cases hd : row.snapshotDate = call.snapshotDate <;> by_cases hse : row.session = call.session <;>
    by_cases hsy : row.symbol = s <;> simp [Row.key, hd, hse, hsy]

theorem failedBefore_eq (s : String) :
    (call.failedBefore l s).getD 0 = failedAttempts (call.snapshotDate, call.session, s) l ∧
      (call.failedBefore l s).elim 1 (· + 1) = failedAttempts (call.snapshotDate, call.session, s) l + 1 := by
  unfold RecordCall.failedBefore failedAttempts
  rw [before_eq]
  cases (latest Row.key (call.snapshotDate, call.session, s) l).filter (fun row => decide (row.status = "FAILED")) with
  | none => exact ⟨rfl, rfl⟩
  | some row => exact ⟨rfl, rfl⟩

@[simp] theorem key_row (s : String) (e : CoverageEntry) : (call.row l s e).key = (call.snapshotDate, call.session, s) := rfl

theorem nodup_pending : (call.pending.map Prod.fst).Nodup := by
  have heq : call.pending.map Prod.fst = call.entries.filterMap CoverageEntry.symbol := by
    unfold RecordCall.pending
    rw [List.map_filterMap]
    refine congrArg (fun f => call.entries.filterMap f) (funext fun e => ?_)
    cases e.symbol <;> rfl
  rw [heq]
  exact call.distinct

theorem written_rows : (call.written l).map Written.row = call.incoming l := by
  unfold RecordCall.written RecordCall.incoming
  rw [List.map_map]
  rfl

theorem nodup_written : ((call.written l).map (fun w => w.row.key)).Nodup := by
  have hkeys : (call.written l).map (fun w => w.row.key) =
      (call.pending.map Prod.fst).map (fun s => (call.snapshotDate, call.session, s)) := by
    unfold RecordCall.written
    rw [List.map_map, List.map_map]
    rfl
  rw [hkeys]
  exact nodup_pending.map (fun s t h => (Prod.mk.inj (Prod.mk.inj h).2).2)

theorem record_fst : (record l call).1 = if call.pending = [] then l else keepLast Row.key (l ++ call.incoming l) := by
  unfold record
  by_cases h : call.pending = [] <;> simp [h]

theorem latest_record (k : Key) :
    latest Row.key k (record l call).1 = (latest Row.key k (call.incoming l)).or (latest Row.key k l) := by
  rw [record_fst]
  split_ifs with h
  · rw [RecordCall.incoming, h, List.map_nil, latest_nil, Option.none_or]
  · rw [latest_keepLast, latest_append]

theorem nodup_record (hl : (l.map Row.key).Nodup) : ((record l call).1.map Row.key).Nodup := by
  rw [record_fst]
  split_ifs
  · exact hl
  · exact nodup_keys _

/-- The failures of the key of a symbol. -/
def RecordCall.count (call : RecordCall) (ws : List Written) (s : String) : Nat :=
  failures (maxFailedAttempts - 1) (call.snapshotDate, call.session, s) ws

/-- What is recorded, by the count of the key. -/
theorem outcome_eq (h : Tracks l ws) (s : String) (e : CoverageEntry) :
    call.outcome l s e =
      if e.status = .failed then
        if isStructuralFailure e.reason then ("EXHAUSTED", "exhausted:" ++ e.reason, 1)
        else if call.transient e.reason then ("FAILED", e.reason, call.count ws s)
        else if maxFailedAttempts ≤ call.count ws s + 1 then ("EXHAUSTED", "exhausted:" ++ e.reason, call.count ws s + 1)
        else ("FAILED", e.reason, call.count ws s + 1)
      else (e.status.value, e.reason, 0) := by
  unfold RecordCall.outcome RecordCall.count
  rw [(failedBefore_eq s).1, (failedBefore_eq s).2, h.counted]

/-- A count stays below the limit. -/
theorem Tracks.count_lt (h : Tracks l ws) (k : Key) : failures (maxFailedAttempts - 1) k ws < maxFailedAttempts := by
  rw [← h.counted]
  unfold failedAttempts
  cases hlast : latest Row.key k l with
  | none => decide
  | some row =>
    by_cases hf : row.status = "FAILED"
    · simpa [Option.filter, hf] using h.limit row (mem_of_latest hlast).1 hf
    · simpa [Option.filter, hf] using (by decide : 0 < maxFailedAttempts)

theorem value_ne_failed {e : CoverageEntry} (h : e.status ≠ .failed) : e.status.value ≠ "FAILED" := by
  cases hs : e.status with
  | failed => exact absurd hs h
  | _ => decide

theorem value_ne_exhausted (e : CoverageEntry) : e.status.value ≠ "EXHAUSTED" := by
  cases e.status <;> decide

theorem counts_written (h : Tracks l ws) : ∀ w ∈ call.written l, Counts ws w := by
  intro w hw
  obtain ⟨⟨s, e⟩, -, rfl⟩ := List.mem_map.1 hw
  have hlt : call.count ws s < maxFailedAttempts := h.count_lt _
  have hstatus : (call.row l s e).status = (call.outcome l s e).1 := rfl
  have hattempts : (call.row l s e).attempts = (call.outcome l s e).2.2 := rfl
  constructor
  · change (call.row l s e).status = "FAILED" → (call.row l s e).attempts < maxFailedAttempts
    rw [hstatus, hattempts, outcome_eq h]
    split_ifs with hfailed hstructural htransient hlimit
    · simp
    · exact fun _ => hlt
    · simp
    · exact fun _ => not_le.1 hlimit
    · exact fun heq => absurd heq (value_ne_failed hfailed)
  · change (if (call.row l s e).status = "FAILED" then (call.row l s e).attempts else 0) =
      (if (call.row l s e).status = "FAILED" then
        (match Cause.attempt (call.transient e.reason) with
          | .attempt true => call.count ws s
          | .attempt false => call.count ws s + 1
          | .reopening => maxFailedAttempts - 1
          | .absence => 0)
      else 0)
    rw [hstatus, hattempts, outcome_eq h]
    by_cases hfailed : e.status = .failed
    · by_cases hstructural : isStructuralFailure e.reason = true
      · simp [hfailed, hstructural]
      · by_cases htransient : call.transient e.reason = true
        · simp [hfailed, hstructural, htransient]
        · by_cases hlimit : maxFailedAttempts ≤ call.count ws s + 1 <;> simp [hfailed, hstructural, htransient, hlimit]
    · simp [hfailed, value_ne_failed hfailed]

/-- **A failure is recorded, and exhausts its key where it is structural or reaches the limit.** -/
theorem record_exhausts_iff (h : Tracks l ws) (s : String) (e : CoverageEntry) :
    (call.row l s e).status = "EXHAUSTED" ↔ e.status = .failed ∧ (isStructuralFailure e.reason = true ∨
      call.transient e.reason = false ∧ maxFailedAttempts ≤ call.count ws s + 1) := by
  change (call.outcome l s e).1 = "EXHAUSTED" ↔ _
  rw [outcome_eq h]
  split_ifs with hfailed hstructural htransient hlimit
  · simp [hfailed, hstructural]
  · simp [hfailed, hstructural, htransient]
  · simp [hfailed, hstructural, htransient, hlimit]
  · simp [hfailed, hstructural, htransient, hlimit]
  · simp [hfailed, value_ne_exhausted e]

theorem Tracks.record (h : Tracks l ws) (call : RecordCall) : Tracks (record l call).1 (ws ++ call.written l) := by
  refine h.step (nodup_record h.oneRow) nodup_written (fun k => ?_) (counts_written h)
  rw [written_rows]
  exact latest_record k

/-- A call leaves what it does not write. -/
theorem mem_record {row : Row} (h : row ∈ (record l call).1) : row ∈ l ∨ row ∈ call.incoming l := by
  rw [record_fst] at h
  split_ifs at h
  · exact .inl h
  · exact List.mem_append.1 (mem_of_mem_keepLast h)

theorem row_mem_record (hl : (l.map Row.key).Nodup) (hp : p ∈ call.pending) : call.row l p.1 p.2 ∈ (record l call).1 := by
  have hn : ((call.incoming l).map Row.key).Nodup := by
    rw [← written_rows, List.map_map]
    exact nodup_written
  have hmem : call.row l p.1 p.2 ∈ call.incoming l := List.mem_map_of_mem hp
  refine (latest_eq_some_iff_mem (nodup_record hl)).1 ?_
  rw [latest_record, (latest_eq_some_iff_mem hn).2 hmem, Option.some_or]

end record

/-! ## record_cached_absent -/

section absent

variable {l l' : List Row} {ws : List Written} {call : AbsentCall}

theorem nodup_names : call.names.Nodup := (List.perm_insertionSort _ _).nodup_iff.2 (List.nodup_dedup _)

theorem absent_eq (h : recordCachedAbsent l call = .ok l') :
    l' = if call.names = [] then l else keepLast Row.key (l ++ call.incoming) := by
  unfold recordCachedAbsent at h
  by_cases hn : call.names = []
  · rw [if_pos (by simp [hn])] at h
    rw [if_pos hn]
    exact (Except.ok.inj h).symm
  · rw [if_neg (by simpa using hn)] at h
    obtain ⟨-, -, h⟩ := (Exc.bind_eq_ok _ _ _).1 h
    rw [if_neg hn]
    exact (Except.ok.inj h).symm

theorem Tracks.absent (h : Tracks l ws) (hok : recordCachedAbsent l call = .ok l') : Tracks l' (ws ++ call.written) := by
  have hrows : call.written.map Written.row = call.incoming := by
    unfold AbsentCall.written
    rw [List.map_map]
    exact List.map_id _
  rw [absent_eq hok]
  refine h.step ?_ ?_ (fun k => ?_) ?_
  · split_ifs
    · exact h.oneRow
    · exact nodup_keys _
  · have hkeys : call.written.map (fun w => w.row.key) = call.names.map (fun s => (call.snapshotDate, call.session, s)) := by
      unfold AbsentCall.written AbsentCall.incoming
      rw [List.map_map, List.map_map]
      rfl
    rw [hkeys]
    exact nodup_names.map (fun s t heq => (Prod.mk.inj (Prod.mk.inj heq).2).2)
  · rw [hrows]
    split_ifs with hn
    · rw [AbsentCall.incoming, hn, List.map_nil, latest_nil, Option.none_or]
    · rw [latest_keepLast, latest_append]
  · intro w hw
    obtain ⟨row, hrow, rfl⟩ := List.mem_map.1 hw
    obtain ⟨s, -, rfl⟩ := List.mem_map.1 hrow
    have hstatus : (call.row s).status ≠ "FAILED" := by
      change "NOT_APPLICABLE" ≠ "FAILED"
      decide
    exact ⟨fun heq => absurd heq hstatus, by simp [countStep, hstatus]⟩

theorem mem_absent {row : Row} (hok : recordCachedAbsent l call = .ok l') (h : row ∈ l') :
    row ∈ l ∨ row.status = "NOT_APPLICABLE" := by
  rw [absent_eq hok] at h
  split_ifs at h
  · exact .inl h
  · rcases List.mem_append.1 (mem_of_mem_keepLast h) with h | h
    · exact .inl h
    · obtain ⟨s, -, rfl⟩ := List.mem_map.1 h
      exact .inr rfl

end absent

/-! ## reopen_exhausted -/

section reopen

variable {cal : Calendar} {l l' : List Row} {ws : List Written} {call : ReopenCall} {apply : Bool} {plan : ReopenPlan}

/-- With one row a key, changing the last row of a key is changing its row. -/
theorem updateLast_eq {k : Key} {f : Row → Row} : ∀ {l : List Row}, (l.map Row.key).Nodup →
    ReopenCall.updateLast k f l = l.map (fun row => if row.key = k then f row else row)
  | [], _ => rfl
  | row :: rows, h => by
    rw [List.map_cons, List.nodup_cons] at h
    unfold ReopenCall.updateLast
    rw [List.map_cons]
    by_cases hk : row.key = k
    · have hrest : rows.map (fun row => if row.key = k then f row else row) = rows := by
        refine (List.map_congr_left (fun r hr => if_neg (fun heq => h.1 ?_))).trans (List.map_id _)
        rw [hk, ← heq]
        exact List.mem_map_of_mem hr
      rw [if_pos ⟨hk, hk ▸ h.1⟩, if_pos hk, hrest]
    · rw [if_neg (fun h' => hk h'.1), if_neg hk, updateLast_eq h.2]

local instance lawfulKey : LawfulBEq Key := inferInstance

/-- The changed rows of some keys. -/
def changed (f : Row → Row) (ks : List Key) (row : Row) : Row := if row.key ∈ ks then f row else row

theorem key_changed {f : Row → Row} (hf : ∀ row, (f row).key = row.key) (ks : List Key) (row : Row) :
    (changed f ks row).key = row.key := by
  unfold changed
  split_ifs
  · exact hf row
  · rfl

/-- Key after key, each once. -/
theorem foldl_updateLast {f : Row → Row} (hf : ∀ row, (f row).key = row.key) : ∀ {ks : List Key} {l : List Row},
    ks.Nodup → (l.map Row.key).Nodup → ks.foldl (fun rows k => ReopenCall.updateLast k f rows) l = l.map (changed f ks)
  | [], l, _, _ => by
    refine ((List.map_congr_left (fun row _ => ?_)).trans (List.map_id l)).symm
    simp [changed]
  | k :: ks, l, hk, hl => by
    rw [List.nodup_cons] at hk
    have hkeys : (l.map (fun row => if row.key = k then f row else row)).map Row.key = l.map Row.key := by
      rw [List.map_map]
      refine List.map_congr_left (fun row _ => ?_)
      rw [Function.comp_apply]
      split_ifs
      · exact hf row
      · rfl
    rw [List.foldl_cons, updateLast_eq hl, foldl_updateLast hf hk.2 (by rw [hkeys]; exact hl), List.map_map]
    refine List.map_congr_left (fun row _ => ?_)
    rw [Function.comp_apply]
    unfold changed
    by_cases hrow : row.key = k
    · subst hrow
      simp [hf, hk.1]
    · simp [hrow]

theorem mem_select (hl : (l.map Row.key).Nodup) {row : Row} : row ∈ (call.select cal l).1 ↔
    row ∈ l ∧ row.status = "EXHAUSTED" ∧ selects cal call.selector row = true ∧ call.retained cal row = true := by
  unfold ReopenCall.select ReopenCall.candidates
  rw [List.mem_insertionSort, List.mem_filter, List.mem_filter, keepLast_eq_self hl, Bool.and_eq_true, decide_eq_true_eq]
  tauto

theorem nodup_select (hl : (l.map Row.key).Nodup) : ((call.select cal l).1.map Row.key).Nodup := by
  have hperm : (call.select cal l).1.Perm ((call.candidates cal l).filter (call.retained cal)) :=
    List.perm_insertionSort _ _
  have hsub : ((call.candidates cal l).filter (call.retained cal)).Sublist l :=
    List.filter_sublist.trans (List.filter_sublist.trans (keepLast_sublist l))
  exact (hperm.map Row.key).nodup_iff.2 (hl.sublist (hsub.map Row.key))

/-- What a call returns. -/
structure Reopens (cal : Calendar) (call : ReopenCall) (l l' : List Row) (plan : ReopenPlan) : Prop where
  keys : plan.keys = (call.select cal l).1.map Row.key
  matched : plan.matched = (call.select cal l).1.length
  skipped : plan.skippedOutOfRetention = (call.select cal l).2
  counts : plan.byReasonClass = ReopenCall.counts (call.select cal l).1
  rows : l' = l.map (changed call.reopenedRow plan.keys)

theorem reopens_of_ok (hl : (l.map Row.key).Nodup) (hok : reopenExhausted cal l call true = .ok (l', plan)) :
    Reopens cal call l l' plan := by
  unfold reopenExhausted at hok
  obtain ⟨-, -, hok⟩ := (Exc.bind_eq_ok _ _ _).1 hok
  obtain ⟨-, -, hok⟩ := (Exc.bind_eq_ok _ _ _).1 hok
  dsimp only at hok
  rw [if_neg (by decide)] at hok
  by_cases hm : (call.select cal l).1 = []
  · rw [if_pos (by simp [hm])] at hok
    obtain ⟨rfl, rfl⟩ := Prod.mk.inj (Except.ok.inj hok)
    refine ⟨by rw [hm]; rfl, by rw [hm]; rfl, rfl, by rw [hm]; rfl, ?_⟩
    exact ((List.map_congr_left (fun row _ => by simp [changed])).trans (List.map_id _)).symm
  · rw [if_neg (by simpa using hm)] at hok
    obtain ⟨rfl, rfl⟩ := Prod.mk.inj (Except.ok.inj hok)
    refine ⟨rfl, rfl, rfl, rfl, ?_⟩
    rw [← foldl_updateLast (f := call.reopenedRow) (fun _ => rfl) (nodup_select hl) hl, List.foldl_map]

/-- The plan of a dry run. -/
theorem dry_run (hok : reopenExhausted cal l call true = .ok (l', plan)) :
    reopenExhausted cal l call false = .ok (l, ⟨(call.select cal l).1.length, (call.select cal l).2, 0,
      ReopenCall.counts (call.select cal l).1, (call.select cal l).1.map Row.key, none⟩) := by
  unfold reopenExhausted at hok ⊢
  obtain ⟨_, hdays, hok⟩ := (Exc.bind_eq_ok _ _ _).1 hok
  obtain ⟨_, haware, hok⟩ := (Exc.bind_eq_ok _ _ _).1 hok
  rw [hdays, Exc.ok_bind, haware, Exc.ok_bind]
  rfl

theorem dry_run_rows (hok : reopenExhausted cal l call false = .ok (l', plan)) : l' = l := by
  unfold reopenExhausted at hok
  obtain ⟨-, -, hok⟩ := (Exc.bind_eq_ok _ _ _).1 hok
  obtain ⟨-, -, hok⟩ := (Exc.bind_eq_ok _ _ _).1 hok
  exact (Prod.mk.inj (Except.ok.inj hok)).1.symm

theorem Tracks.reopen (h : Tracks l ws) (hok : reopenExhausted cal l call apply = .ok (l', plan)) :
    Tracks l' (ws ++ call.written cal l apply) := by
  cases apply with
  | false =>
    rw [dry_run_rows hok, ReopenCall.written, if_neg (by decide), List.append_nil]
    exact h
  | true =>
    have hre := reopens_of_ok h.oneRow hok
    have hkey : ∀ row, (call.reopenedRow row).key = row.key := fun _ => rfl
    have hrows : (call.written cal l true).map Written.row = (call.select cal l).1.map call.reopenedRow := by
      rw [ReopenCall.written, if_pos rfl, List.map_map]
      rfl
    have hkeys : (call.written cal l true).map (fun w => w.row.key) = (call.select cal l).1.map Row.key := by
      rw [ReopenCall.written, if_pos rfl, List.map_map]
      rfl
    refine h.step ?_ (by rw [hkeys]; exact nodup_select h.oneRow) (fun k => ?_) ?_
    · rw [hre.rows, List.map_map]
      exact (List.map_congr_left (fun row _ => key_changed hkey _ row)) ▸ h.oneRow
    · rw [hrows, hre.rows, latest_map (key_changed hkey _), latest_map hkey]
      cases hlast : latest Row.key k (call.select cal l).1 with
      | none =>
        rw [latest_eq_none_iff, ← hre.keys] at hlast
        rw [Option.map_none, Option.none_or]
        cases hl : latest Row.key k l with
        | none => rfl
        | some row =>
          rw [Option.map_some, changed, if_neg (by rw [(mem_of_latest hl).2]; exact hlast)]
      | some row =>
        obtain ⟨hmem, hrow⟩ := mem_of_latest hlast
        have hmeml : row ∈ l := ((mem_select h.oneRow).1 hmem).1
        have hin : row.key ∈ plan.keys := hre.keys ▸ List.mem_map_of_mem hmem
        rw [← hrow, (latest_eq_some_iff_mem h.oneRow).2 hmeml, Option.map_some, Option.map_some, Option.some_or, changed,
          if_pos hin]
    · intro w hw
      rw [ReopenCall.written, if_pos rfl] at hw
      obtain ⟨row, -, rfl⟩ := List.mem_map.1 hw
      exact ⟨fun _ => Nat.sub_lt (by decide : 0 < maxFailedAttempts) Nat.one_pos, rfl⟩

end reopen

/-! ## Runs -/

theorem Run.tracks {l : List Row} {ws : List Written} (h : Run l ws) : Tracks l ws := by
  induction h with
  | start => exact ⟨List.nodup_nil, fun row hrow => (by cases hrow), fun k => rfl⟩
  | record _ call ih => exact ih.record call
  | absent _ call hok ih => exact ih.absent hok
  | reopen _ cal call apply hok ih => exact ih.reopen hok

/-- **A ledger over its runs**: one row a key; a failed row is below the limit; a failure exhausts its key exactly where
it is structural or the one that reaches the limit, a reopening counting as one less than the limit; and a reopening
changes the selected exhausted rows and no other, which are those its dry run plans. -/
theorem run_sound {l : List Row} {ws : List Written} (h : Run l ws) :
    (l.map Row.key).Nodup ∧
    (∀ row ∈ l, row.status = "FAILED" → row.attempts < maxFailedAttempts) ∧
    (∀ call : RecordCall, (∀ row ∈ (record l call).1, row ∈ l ∨ row ∈ call.incoming l) ∧
      ∀ p ∈ call.pending, call.row l p.1 p.2 ∈ (record l call).1 ∧
        ((call.row l p.1 p.2).status = "EXHAUSTED" ↔ p.2.status = .failed ∧ (isStructuralFailure p.2.reason = true ∨
          call.transient p.2.reason = false ∧
            maxFailedAttempts ≤ failures (maxFailedAttempts - 1) (call.row l p.1 p.2).key ws + 1))) ∧
    (∀ (call : AbsentCall) l', recordCachedAbsent l call = .ok l' →
      ∀ row ∈ l', row ∈ l ∨ row.status = "NOT_APPLICABLE") ∧
    ∀ (cal : Calendar) (call : ReopenCall) l' plan, reopenExhausted cal l call true = .ok (l', plan) →
      l' = l.map (changed call.reopenedRow plan.keys) ∧
      (∀ row ∈ l, row.key ∈ plan.keys ↔
        row.status = "EXHAUSTED" ∧ selects cal call.selector row = true ∧ call.retained cal row = true) ∧
      ∃ dry, reopenExhausted cal l call false = .ok (l, dry) ∧ dry.keys = plan.keys ∧ dry.matched = plan.matched ∧
        dry.skippedOutOfRetention = plan.skippedOutOfRetention ∧ dry.byReasonClass = plan.byReasonClass := by
  have ht := h.tracks
  refine ⟨ht.oneRow, ht.limit, fun call => ⟨fun row hrow => mem_record hrow, fun p hp =>
    ⟨row_mem_record ht.oneRow hp, record_exhausts_iff ht p.1 p.2⟩⟩, fun call l' hok row hrow => mem_absent hok hrow, ?_⟩
  intro cal call l' plan hok
  have hre := reopens_of_ok ht.oneRow hok
  refine ⟨hre.rows, fun row hrow => ?_, _, dry_run hok, hre.keys.symm, hre.matched.symm, hre.skipped.symm, hre.counts.symm⟩
  rw [hre.keys, List.mem_map]
  constructor
  · rintro ⟨other, hother, hkey⟩
    obtain ⟨hmem, hrest⟩ := (mem_select ht.oneRow).1 hother
    rw [List.inj_on_of_nodup_map ht.oneRow hmem hrow hkey] at hrest
    exact hrest
  · exact fun hrest => ⟨row, (mem_select ht.oneRow).2 ⟨hrow, hrest⟩, rfl⟩

def failedEntry (reason : String) : CoverageEntry :=
  ⟨some "005930", "NXT", "nxt_aftermarket", .failed, 0, reason, [], by simp, by simp⟩

/-- One symbol of a day fails. -/
def oneFailure (reason : String) : RecordCall where
  snapshotDate := "2026-01-15"
  session := "nxt_aftermarket"
  entries := [failedEntry reason]
  runId := "run"
  attemptedAt := "2026-01-16T00:00:00+00:00"
  vendor := "kis"
  priceBases := []
  isTransient := none
  adjustedCopies := []
  distinct := List.nodup_singleton _

/-- Two days are known, and no instant. -/
def twoDays : Calendar := ⟨fun day => if day < 100 then "2026-01-01" else "2026-02-01", fun _ => none⟩

def reopenAll : ReopenCall :=
  ⟨⟨[], none, none, none, [], none⟩, 100, 60, "run", "2026-01-17T00:00:00+00:00", true, "ledger.parquet"⟩

/-- The row of a structural failure, reopened. -/
def reopenedLedger : List Row :=
  [reopenAll.reopenedRow ((oneFailure "price_basis_no_raw_source").row [] "005930"
    (failedEntry "price_basis_no_raw_source"))]

theorem run_sound_one_failure :
    ((oneFailure "price_basis_no_raw_source").row (record [] (oneFailure "timeout")).1 "005930"
      (failedEntry "price_basis_no_raw_source")).status = "EXHAUSTED" := by
  have hall := (run_sound (.record .start (oneFailure "timeout"))).2.2.1 (oneFailure "price_basis_no_raw_source")
  exact (hall.2 ("005930", failedEntry "price_basis_no_raw_source") (List.mem_singleton_self _)).2.2
    ⟨rfl, .inl (by decide +kernel)⟩

/-- **A reopened key is exhausted by its next failure**, the first since it was exhausted. -/
theorem reopened_exhausts_at_once : ¬ ∀ l ws, Run l ws → ∀ (call : RecordCall), ∀ p ∈ call.pending,
    ((call.row l p.1 p.2).status = "EXHAUSTED" ↔ p.2.status = .failed ∧ (isStructuralFailure p.2.reason = true ∨
      call.transient p.2.reason = false ∧ maxFailedAttempts ≤ failures 0 (call.row l p.1 p.2).key ws + 1)) := by
  intro hall
  obtain ⟨plan, hok⟩ : ∃ plan, reopenExhausted twoDays (record [] (oneFailure "price_basis_no_raw_source")).1 reopenAll
      true = .ok (reopenedLedger, plan) := ⟨_, rfl⟩
  have hrow := hall _ _ (.reopen (.record .start _) _ _ _ hok) (oneFailure "timeout") ("005930", failedEntry "timeout")
    (List.mem_singleton_self _)
  exact absurd (hrow.1 (by decide +kernel)) (by decide +kernel)

end BackfillLedger
