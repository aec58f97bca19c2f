import KClosingAlpha.Alert.Remediation
import Mathlib.Data.List.Induction
/-!
# RemediationRuns — the bounds over a run of ticks

What was started is in the ledger, and what the ledger says of a key bounds what is started next (`Bounded`), as long as
every attempt's row is read back: a key that breaks its line is forgotten, and rerun at every tick.
-/
namespace AutoRemediation

open Alert (kstDay)

/-! ## Attempts and outcomes -/

/-- The attempts of some rows. -/
def attemptsOf (rows : List Row) : List Row := rows.filter (fun r => decide (r.outcome = .started))

def attemptsAt (key : String) (rows : List Row) : List Row := (attemptsOf rows).filter (fun r => decide (r.issueKey = key))

/-- The outcomes that `settle` gives. -/
def Row.isOutcome (r : Row) : Bool := decide (r.outcome = .resolved) || decide (r.outcome = .unresolved)

/-- Each outcome is of the last attempt of its key, which had none. -/
def OutcomesOnce (rows : List Row) : Prop :=
  ∀ as o bs, rows = as ++ o :: bs → o.isOutcome = true → ∃ xs s ys, as = xs ++ s :: ys ∧ s.outcome = .started ∧
    s.issueKey = o.issueKey ∧ s.unit = o.unit ∧ s.attempt = o.attempt ∧
    ∀ r ∈ ys, r.isOutcome = true → r.issueKey ≠ o.issueKey

def Event.start? : Event → Option (String × String × Int)
  | .row _ => none
  | .start unit key ts => some (unit, key, ts)

/-- The starts of a trace. -/
def startsOf (trace : List Event) : List (String × String × Int) := trace.filterMap Event.start?

/-- Every start comes after the row of its attempt. -/
def Preceded (trace : List Event) : Prop :=
  ∀ as unit key ts bs, trace = as ++ .start unit key ts :: bs →
    ∃ r ∈ rowsOf as, r.outcome = .started ∧ r.unit = unit ∧ r.issueKey = key ∧ r.ts = ts

/-- No key that may be rerun breaks its line in the ledger. -/
def Tick.Plain (t : Tick) : Prop := ∀ key ∈ t.openKeys, remediableUnit key ≠ none → breaksLine key = false

/-! ## What the ledger says of a key -/

section history

variable {history more : List Row} {key : String} {now : Int} {r s : Row} {lifecycleOnly : Bool}

/-- What `_attempts_today` folds. -/
def attemptsStep (key : String) (now : Int) (acc : Nat × Option Int) (rec : Row) : Nat × Option Int :=
  if rec.issueKey ≠ key then (acc.1, acc.2)
  else if rec.outcome = .started then
    (if kstDay rec.ts = kstDay now then acc.1 + 1 else acc.1, laterTs acc.2 rec.ts)
  else if rec.outcome = .failed then (acc.1, laterTs acc.2 rec.ts)
  else (acc.1, acc.2)

theorem attemptsToday_concat : attemptsToday (history ++ [r]) key now = attemptsStep key now (attemptsToday history key now) r := by
  unfold attemptsToday
  rw [List.foldl_append]
  rfl

theorem le_laterTs (latest : Option Int) (ts : Int) : ∃ t, laterTs latest ts = some t ∧ ts ≤ t ∧ ∀ u, latest = some u → u ≤ t := by
  unfold laterTs
  cases latest with
  | none => exact ⟨ts, rfl, le_refl ts, fun u hu => (by cases hu)⟩
  | some u =>
    dsimp only
    split_ifs with h
    · exact ⟨ts, rfl, le_refl ts, fun v hv => Option.some.inj hv ▸ le_of_lt h⟩
    · exact ⟨u, rfl, not_lt.1 h, fun v hv => le_of_eq (Option.some.inj hv).symm⟩

theorem attemptsToday_fst (history : List Row) (key : String) (now : Int) : (attemptsToday history key now).1 =
    ((attemptsAt key history).filter (fun r => decide (kstDay r.ts = kstDay now))).length := by
  unfold attemptsAt attemptsOf
  induction history using List.reverseRecOn with
  | nil => rfl
  | append_singleton history r ih =>
    rw [attemptsToday_concat, List.filter_append, List.filter_append, List.filter_append, List.length_append, ← ih]
    unfold attemptsStep
    by_cases hk : r.issueKey = key <;> by_cases ho : r.outcome = .started <;> by_cases hd : kstDay r.ts = kstDay now <;>
      by_cases hf : r.outcome = .failed <;> simp [hk, ho, hd, hf]

/-- The latest attempt is after every one. -/
theorem le_attemptsToday (hr : r ∈ history) (hk : r.issueKey = key) (ho : r.outcome = .started) :
    ∃ t, (attemptsToday history key now).2 = some t ∧ r.ts ≤ t := by
  induction history using List.reverseRecOn with
  | nil => cases hr
  | append_singleton history q ih =>
    rw [attemptsToday_concat]
    obtain ⟨u, hu, hle, hmono⟩ := le_laterTs (attemptsToday history key now).2 q.ts
    rcases List.mem_append.1 hr with hr | hr
    · obtain ⟨t, ht, hrt⟩ := ih hr
      unfold attemptsStep
      split_ifs
      · exact ⟨t, ht, hrt⟩
      · exact ⟨u, hu, hrt.trans (hmono t ht)⟩
      · exact ⟨u, hu, hrt.trans (hmono t ht)⟩
      · exact ⟨u, hu, hrt.trans (hmono t ht)⟩
      · exact ⟨t, ht, hrt⟩
    · obtain rfl := List.mem_singleton.1 hr
      unfold attemptsStep
      rw [if_neg (not_not.2 hk), if_pos ho]
      exact ⟨u, hu, hle⟩

/-- A row that `_latest_record` looks at. -/
def Row.counts (key : String) (lifecycleOnly : Bool) (r : Row) : Bool :=
  decide (r.issueKey = key) && (!lifecycleOnly || r.outcome.isLifecycle)

theorem latestRecord_concat : latestRecord (history ++ [r]) key lifecycleOnly =
    if r.counts key lifecycleOnly = true then
      (match latestRecord history key lifecycleOnly with
      | none => some r
      | some b => if b.ts ≤ r.ts then some r else some b)
    else latestRecord history key lifecycleOnly := by
  unfold latestRecord Row.counts
  rw [List.foldl_append, List.foldl_cons, List.foldl_nil]
  generalize List.foldl _ none history = best
  by_cases hk : r.issueKey = key <;> cases best <;> cases lifecycleOnly <;> cases r.outcome.isLifecycle <;> simp [hk]

/-- **The latest record** of a key, with only earlier ones after it. -/
theorem latestRecord_split (h : latestRecord history key lifecycleOnly = some s) :
    ∃ as bs, history = as ++ s :: bs ∧ s.counts key lifecycleOnly = true ∧
      ∀ r ∈ bs, r.counts key lifecycleOnly = true → r.ts < s.ts := by
  induction history using List.reverseRecOn generalizing s with
  | nil => cases h
  | append_singleton history q ih =>
    rw [latestRecord_concat] at h
    split_ifs at h with hq
    · cases hl : latestRecord history key lifecycleOnly with
      | none =>
        rw [hl] at h
        obtain rfl := Option.some.inj h
        exact ⟨history, [], rfl, hq, fun r hr => (by cases hr)⟩
      | some b =>
        rw [hl] at h
        dsimp only at h
        split_ifs at h with hle
        · obtain rfl := Option.some.inj h
          exact ⟨history, [], rfl, hq, fun r hr => (by cases hr)⟩
        · obtain rfl := Option.some.inj h
          obtain ⟨as, bs, rfl, hb, hbs⟩ := ih hl
          refine ⟨as, bs ++ [q], by simp, hb, fun r hr hc => ?_⟩
          rcases List.mem_append.1 hr with hr | hr
          · exact hbs r hr hc
          · rw [List.mem_singleton.1 hr]
            exact not_le.1 hle
    · obtain ⟨as, bs, rfl, hb, hbs⟩ := ih h
      refine ⟨as, bs ++ [q], by simp, hb, fun r hr hc => ?_⟩
      rcases List.mem_append.1 hr with hr | hr
      · exact hbs r hr hc
      · exact absurd (List.mem_singleton.1 hr ▸ hc) hq

/-- Rows that do not count change nothing. -/
theorem latestRecord_append_of_not (h : ∀ r ∈ more, r.counts key lifecycleOnly = false) :
    latestRecord (history ++ more) key lifecycleOnly = latestRecord history key lifecycleOnly := by
  induction more using List.reverseRecOn with
  | nil => rw [List.append_nil]
  | append_singleton more q ih =>
    rw [← List.append_assoc, latestRecord_concat, if_neg (by rw [h q (by simp)]; decide)]
    exact ih (fun r hr => h r (List.mem_append_left _ hr))

end history

/-! ## What is planned and settled -/

section rows

variable {blackout : Int → Int} {busy : String → Bool} {openKeys : List String} {history : List Row} {key : String} {now : Int}
  {r s : Row}

theorem mem_sortedKeys {keys : List String} : key ∈ sortedKeys keys ↔ key ∈ keys := by
  unfold sortedKeys
  rw [List.mem_insertionSort, List.mem_dedup]

theorem nodup_sortedKeys (keys : List String) : (sortedKeys keys).Nodup :=
  (List.perm_insertionSort _ _).nodup_iff.2 (List.nodup_dedup _)

/-- Rows found key by key have different keys. -/
theorem nodup_filterMap_key {f : String → Option Row} (hf : ∀ key r, f key = some r → r.issueKey = key)
    {keys : List String} (h : keys.Nodup) : ((keys.filterMap f).map Row.issueKey).Nodup := by
  rw [List.map_filterMap]
  refine h.filterMap (fun a b c ha hb => ?_)
  obtain ⟨p, hp, rfl⟩ := Option.map_eq_some_iff.1 ha
  obtain ⟨q, hq, hqp⟩ := Option.map_eq_some_iff.1 hb
  rw [← hf a p hp, ← hf b q hq, hqp]

theorem plan_key (h : planKey blackout busy now history key = some r) : r.issueKey = key ∧ r.ts = now ∧
    r.isOutcome = false := by
  unfold planKey at h
  obtain ⟨rule, -, h⟩ := Option.bind_eq_some_iff.1 h
  dsimp only at h
  split at h
  · obtain rfl := Option.some.inj h
    exact ⟨rfl, rfl, rfl⟩
  · split_ifs at h <;> cases h <;> exact ⟨rfl, rfl, rfl⟩

/-- **What a planned attempt was checked for.** -/
theorem plan_started (h : planKey blackout busy now history key = some r) (ho : r.outcome = .started) :
    ∃ rule, remediableUnit key = some (rule, r.unit) ∧ r.detail = "rule=" ++ rule.keyPrefix ∧ blackout now ≤ 0 ∧
      (attemptsToday history key now).1 < rule.maxAttemptsPerDay ∧
      ∀ t, (attemptsToday history key now).2 = some t → minSpacing ≤ now - t := by
  unfold planKey at h
  obtain ⟨rule, hrule, h⟩ := Option.bind_eq_some_iff.1 h
  dsimp only at h
  cases hu : isSafe (deriveUnit rule key) with
  | none =>
    rw [hu] at h
    obtain rfl := Option.some.inj h
    cases ho
  | some unit =>
    rw [hu] at h
    dsimp only at h
    split_ifs at h with hspace hblack hbusy hbudget
    · rw [← Option.some.inj h] at ho
      cases ho
    · rw [← Option.some.inj h] at ho
      cases ho
    · rw [← Option.some.inj h] at ho
      cases ho
    · obtain rfl := Option.some.inj h
      refine ⟨rule, ?_, rfl, not_lt.1 hblack, not_le.1 hbudget, fun t ht => ?_⟩
      · unfold remediableUnit
        rw [hrule, Option.bind_some, hu]
        rfl
      · rw [ht, Option.any_some, decide_eq_true_eq] at hspace
        exact not_lt.1 hspace

theorem mem_plan (h : r ∈ plan blackout busy openKeys now history) :
    r.issueKey ∈ openKeys ∧ planKey blackout busy now history r.issueKey = some r := by
  obtain ⟨key, hkey, hr⟩ := List.mem_filterMap.1 (List.mem_filter.1 h).1
  rw [(plan_key hr).1]
  exact ⟨mem_sortedKeys.1 hkey, hr⟩

theorem nodup_plan : ((plan blackout busy openKeys now history).map Row.issueKey).Nodup :=
  (nodup_filterMap_key (fun _ _ h => (plan_key h).1) (nodup_sortedKeys openKeys)).sublist (List.filter_sublist.map _)

theorem safe_unit {rule : Rule} {unit : String} (h : remediableUnit key = some (rule, unit)) :
    matchRule key = some rule ∧ unit ∈ safeRerunUnits := by
  unfold remediableUnit at h
  obtain ⟨rule', hrule, h⟩ := Option.bind_eq_some_iff.1 h
  obtain ⟨unit', hunit, heq⟩ := Option.map_eq_some_iff.1 h
  obtain ⟨rfl, rfl⟩ := Prod.mk.inj heq
  have hsafe := (Option.filter_eq_some_iff.1 hunit).2
  rw [Bool.and_eq_true, decide_eq_true_eq] at hsafe
  exact ⟨hrule, hsafe.2⟩

/-- The attempt of a key that does not break its line is read back. -/
theorem isRead_started (h : planKey blackout busy now history key = some r) (ho : r.outcome = .started)
    (hkey : breaksLine key = false) : r.isRead = true := by
  obtain ⟨rule, hrem, hdetail, -⟩ := plan_started h ho
  obtain ⟨hrule, hunit⟩ := safe_unit hrem
  have hunits : ∀ unit ∈ safeRerunUnits, breaksLine unit = false := by decide
  have hrules : ∀ rule ∈ rules, breaksLine ("rule=" ++ rule.keyPrefix) = false := by decide
  unfold Row.isRead
  rw [(plan_key h).1, hkey, hunits r.unit hunit, hdetail, hrules rule (List.mem_of_find?_eq_some hrule)]
  rfl

/-- **What is settled**: the last attempt of a key, as of now. -/
theorem settle_key (h : settleKey openKeys now history key = some r) : ∃ s, latestRecord history key true = some s ∧
    s.outcome = .started ∧ r.issueKey = key ∧ r.ts = now ∧ r.unit = s.unit ∧ r.attempt = s.attempt ∧ r.isOutcome = true ∧
    breaksLine r.detail = false := by
  unfold settleKey at h
  obtain ⟨s, hs, h⟩ := Option.bind_eq_some_iff.1 h
  refine ⟨s, hs, ?_⟩
  split_ifs at h with ho hopen hlate
  · obtain rfl := Option.some.inj h
    exact ⟨not_not.1 ho, rfl, rfl, rfl, rfl, rfl, (by decide : breaksLine "issue still open after spacing" = false)⟩
  · obtain rfl := Option.some.inj h
    exact ⟨not_not.1 ho, rfl, rfl, rfl, rfl, rfl, (by decide : breaksLine "issue no longer open" = false)⟩

theorem mem_settle (h : r ∈ settle openKeys now history) : settleKey openKeys now history r.issueKey = some r := by
  obtain ⟨key, -, hr⟩ := List.mem_filterMap.1 h
  obtain ⟨-, -, -, hkey, -⟩ := settle_key hr
  rw [hkey]
  exact hr

theorem nodup_settle : ((settle openKeys now history).map Row.issueKey).Nodup :=
  nodup_filterMap_key (fun _ _ h => (settle_key h).choose_spec.2.2.1) (nodup_sortedKeys _)

end rows

/-! ## The bounds -/

/-- A row that the lifecycle of an attempt orders. -/
def Row.isOrdered (r : Row) : Bool := decide (r.outcome = .started) || r.isOutcome

/-- The rows up to now. -/
structure Bounded (blackout : Int → Int) (rows : List Row) (now : Int) : Prop where
  read : ∀ r ∈ rows, r.isOrdered = true → r.isRead = true ∧ r.ts ≤ now
  ordered : (rows.filter Row.isOrdered).Pairwise (fun a b => a.ts ≤ b.ts)
  started : ∀ r ∈ rows, r.outcome = .started → blackout r.ts ≤ 0 ∧ ∃ rule, remediableUnit r.issueKey = some (rule, r.unit)
  spaced : ∀ key, (attemptsAt key rows).Pairwise (fun a b => minSpacing ≤ b.ts - a.ts)
  budget : ∀ key rule day, matchRule key = some rule →
    ((attemptsAt key rows).filter (fun r => decide (kstDay r.ts = day))).length ≤ rule.maxAttemptsPerDay
  once : OutcomesOnce rows

section bounded

variable {blackout : Int → Int} {rows more : List Row} {now later : Int} {openKeys : List String} {r s : Row} {key : String}
  {busy : String → Bool}

theorem bounded_nil (now : Int) : Bounded blackout [] now where
  read := fun r hr => (by cases hr)
  ordered := List.Pairwise.nil
  started := fun r hr => (by cases hr)
  spaced := fun key => List.Pairwise.nil
  budget := fun key rule day h => Nat.zero_le _
  once := fun as o bs h => (by cases as <;> cases h)

theorem Bounded.mono (h : Bounded blackout rows now) (hle : now ≤ later) : Bounded blackout rows later :=
  ⟨fun r hr ho => ⟨(h.read r hr ho).1, (h.read r hr ho).2.trans hle⟩, h.ordered, h.started, h.spaced, h.budget, h.once⟩

theorem attemptsAt_append (key : String) : attemptsAt key (rows ++ more) = attemptsAt key rows ++ attemptsAt key more := by
  unfold attemptsAt attemptsOf
  rw [List.filter_append, List.filter_append]

theorem mem_attemptsAt : r ∈ attemptsAt key rows ↔ r ∈ rows ∧ r.outcome = .started ∧ r.issueKey = key := by
  unfold attemptsAt attemptsOf
  rw [List.mem_filter, List.mem_filter, decide_eq_true_eq, decide_eq_true_eq, and_assoc]

/-- What is appended keeps each outcome to one attempt. -/
theorem once_append (h : OutcomesOnce rows) (hm : ∀ as o bs, more = as ++ o :: bs → o.isOutcome = true →
    ∃ xs s ys, rows ++ as = xs ++ s :: ys ∧ s.outcome = .started ∧ s.issueKey = o.issueKey ∧ s.unit = o.unit ∧
      s.attempt = o.attempt ∧ ∀ r ∈ ys, r.isOutcome = true → r.issueKey ≠ o.issueKey) : OutcomesOnce (rows ++ more) := by
  intro as o bs heq ho
  rcases List.append_eq_append_iff.1 heq with ⟨as', rfl, hmore⟩ | ⟨cs, hrows, hcs⟩
  · exact hm as' o bs hmore ho
  · cases cs with
    | nil =>
      rw [List.append_nil] at hrows
      have hfirst := hm [] o bs hcs.symm ho
      rwa [List.append_nil, hrows] at hfirst
    | cons c cs =>
      obtain ⟨rfl, -⟩ := List.cons.inj hcs
      exact h as o cs hrows ho

/-- Every attempt is read back. -/
theorem Bounded.attemptsAt_read (h : Bounded blackout rows now) (key : String) :
    attemptsAt key (readLedger rows) = attemptsAt key rows := by
  unfold attemptsAt attemptsOf readLedger
  rw [List.filter_filter, List.filter_filter, List.filter_filter]
  refine List.filter_congr (fun r hr => ?_)
  by_cases ho : r.outcome = .started
  · rw [(h.read r hr (by simp [Row.isOrdered, ho])).1]
    simp
  · simp [ho]

/-- Rows that no lifecycle orders change no bound. -/
theorem Bounded.append_other (h : Bounded blackout rows now) (hm : ∀ r ∈ more, r.isOrdered = false) :
    Bounded blackout (rows ++ more) now := by
  have hstarted : ∀ r ∈ more, r.outcome ≠ .started := fun r hr ho => by
    have hr' := hm r hr
    simp [Row.isOrdered, ho] at hr'
  have hnone : ∀ key, attemptsAt key more = [] := fun key =>
    List.filter_eq_nil_iff.2 (fun r hr => absurd (of_decide_eq_true (List.mem_filter.1 hr).2) (hstarted r (List.mem_filter.1 hr).1))
  refine ⟨fun r hr ho => ?_, ?_, fun r hr ho => ?_, fun key => ?_, fun key rule day hk => ?_, ?_⟩
  · rcases List.mem_append.1 hr with hr | hr
    · exact h.read r hr ho
    · rw [hm r hr] at ho
      cases ho
  · have hempty : more.filter Row.isOrdered = [] :=
      List.filter_eq_nil_iff.2 (fun r hr => by rw [hm r hr]; decide)
    rw [List.filter_append, hempty, List.append_nil]
    exact h.ordered
  · rcases List.mem_append.1 hr with hr | hr
    · exact h.started r hr ho
    · exact absurd ho (hstarted r hr)
  · rw [attemptsAt_append, hnone, List.append_nil]
    exact h.spaced key
  · rw [attemptsAt_append, hnone, List.append_nil]
    exact h.budget key rule day hk
  · refine once_append h.once (fun as o bs heq ho => ?_)
    have hother := hm o (heq ▸ List.mem_append_right _ List.mem_cons_self)
    simp [Row.isOrdered, ho] at hother

/-- Before the last readable attempt of a key there may be outcomes, after it none. -/
theorem Bounded.no_outcome_after (h : Bounded blackout rows now) (hs : latestRecord (readLedger rows) key true = some s)
    (ho : s.outcome = .started) : s ∈ rows ∧ s.issueKey = key ∧
      ∃ xs ys, rows = xs ++ s :: ys ∧ ∀ r ∈ ys, r.isOutcome = true → r.issueKey ≠ key := by
  obtain ⟨as, bs, hsplit, hcounts, hbs⟩ := latestRecord_split hs
  have hkey : s.issueKey = key := by
    unfold Row.counts at hcounts
    rw [Bool.and_eq_true, decide_eq_true_eq] at hcounts
    exact hcounts.1
  obtain ⟨xs, zs, hrows, -, hzs⟩ := List.filter_eq_append_iff.1 hsplit
  obtain ⟨ws, ys, hz, -, -, hys⟩ := List.filter_eq_cons_iff.1 hzs
  have hall : rows = (xs ++ ws) ++ s :: ys := by rw [hrows, hz, List.append_assoc]
  refine ⟨hall ▸ List.mem_append_right _ List.mem_cons_self, hkey, xs ++ ws, ys, hall, fun r hr hout hrkey => ?_⟩
  have hmem : r ∈ rows := hall ▸ List.mem_append_right _ (List.mem_cons_of_mem _ hr)
  have hord : r.isOrdered = true := by simp [Row.isOrdered, hout]
  have hread : r ∈ bs := hys ▸ List.mem_filter.2 ⟨hr, (h.read r hmem hord).1⟩
  have hlt : r.ts < s.ts := by
    refine hbs r hread ?_
    unfold Row.isOutcome at hout
    rw [Bool.or_eq_true, decide_eq_true_eq, decide_eq_true_eq] at hout
    rcases hout with hout | hout <;> simp [Row.counts, hrkey, hout, Outcome.isLifecycle]
  have hle : s.ts ≤ r.ts := by
    have hpair := h.ordered
    rw [hall, List.filter_append, List.filter_cons_of_pos (by simp [Row.isOrdered, ho])] at hpair
    exact (List.pairwise_cons.1 (List.pairwise_append.1 hpair).2.1).1 r (List.mem_filter.2 ⟨hr, hord⟩)
  omega

/-- Rows of now, which the lifecycle orders. -/
theorem Bounded.ordered_append (h : Bounded blackout rows now) (hts : ∀ r ∈ more, r.ts = now) :
    ((rows ++ more).filter Row.isOrdered).Pairwise (fun a b => a.ts ≤ b.ts) := by
  rw [List.filter_append]
  refine List.pairwise_append.2 ⟨h.ordered, ?_, fun a ha b hb => ?_⟩
  · refine List.Pairwise.filter _ (List.pairwise_iff_forall_sublist.2 (fun {a b} hab => ?_))
    rw [hts a (hab.subset (by simp)), hts b (hab.subset (by simp))]
  · obtain ⟨ham, hao⟩ := List.mem_filter.1 ha
    rw [hts b (List.mem_filter.1 hb).1]
    exact (h.read a ham hao).2

/-- What is settled is read back. -/
theorem Bounded.settle_rows (h : Bounded blackout rows now) (openKeys : List String) :
    ∀ r ∈ AutoRemediation.settle openKeys now (readLedger rows), r.ts = now ∧ r.isOutcome = true ∧ r.isRead = true := by
  intro r hr
  obtain ⟨s, hs, ho, hkey, hts, hunit, -, hout, hdetail⟩ := settle_key (mem_settle hr)
  obtain ⟨hmem, hskey, -⟩ := h.no_outcome_after hs ho
  have hread := (h.read s hmem (by simp [Row.isOrdered, ho])).1
  refine ⟨hts, hout, ?_⟩
  unfold Row.isRead at hread ⊢
  rw [hunit, hdetail, ← hskey]
  cases hk : breaksLine s.issueKey <;> cases hu : breaksLine s.unit <;> simp [hk, hu] at hread ⊢

/-- **Settling keeps the bounds.** -/
theorem Bounded.settle (h : Bounded blackout rows now) (openKeys : List String) :
    Bounded blackout (rows ++ AutoRemediation.settle openKeys now (readLedger rows)) now := by
  have hrow := h.settle_rows openKeys
  have hstarted : ∀ r ∈ AutoRemediation.settle openKeys now (readLedger rows), r.outcome ≠ .started := by
    intro r hr ho
    have hout := (hrow r hr).2.1
    simp [Row.isOutcome, ho] at hout
  have hnone : ∀ key, attemptsAt key (AutoRemediation.settle openKeys now (readLedger rows)) = [] := fun key =>
    List.eq_nil_iff_forall_not_mem.2 (fun r hr => hstarted r (mem_attemptsAt.1 hr).1 (mem_attemptsAt.1 hr).2.1)
  refine ⟨fun r hr ho => ?_, h.ordered_append (fun r hr => (hrow r hr).1), fun r hr ho => ?_, fun key => ?_,
    fun key rule day hk => ?_, once_append h.once (fun as o bs heq ho => ?_)⟩
  · rcases List.mem_append.1 hr with hr | hr
    · exact h.read r hr ho
    · exact ⟨(hrow r hr).2.2, le_of_eq (hrow r hr).1⟩
  · rcases List.mem_append.1 hr with hr | hr
    · exact h.started r hr ho
    · exact absurd ho (hstarted r hr)
  · rw [attemptsAt_append, hnone, List.append_nil]
    exact h.spaced key
  · rw [attemptsAt_append, hnone, List.append_nil]
    exact h.budget key rule day hk
  · have hin : o ∈ AutoRemediation.settle openKeys now (readLedger rows) :=
      heq ▸ List.mem_append_right _ List.mem_cons_self
    obtain ⟨s, hs, hso, -, -, hunit, hattempt, -⟩ := settle_key (mem_settle hin)
    obtain ⟨-, hskey, xs, ys, hrows, hys⟩ := h.no_outcome_after hs hso
    refine ⟨xs, s, ys ++ as, by rw [hrows]; simp, hso, hskey, hunit.symm, hattempt.symm, fun r hr hout => ?_⟩
    rcases List.mem_append.1 hr with hr | hr
    · exact hys r hr hout
    · have hn : (((as ++ o :: bs)).map Row.issueKey).Nodup := heq ▸ nodup_settle
      rw [List.map_append, List.map_cons] at hn
      exact (List.nodup_append.1 hn).2.2 _ (List.mem_map_of_mem hr) _ List.mem_cons_self

/-- **Planning keeps the bounds**, where what it reads has every attempt. -/
theorem Bounded.plan (h : Bounded blackout rows now) {history : List Row}
    (hhist : ∀ key, attemptsAt key history = attemptsAt key rows)
    (hplain : ∀ key ∈ openKeys, remediableUnit key ≠ none → breaksLine key = false) (busy : String → Bool) :
    Bounded blackout (rows ++ AutoRemediation.plan blackout busy openKeys now history) now := by
  have hrow : ∀ r ∈ AutoRemediation.plan blackout busy openKeys now history, r.ts = now := fun r hr =>
    (plan_key (mem_plan hr).2).2.1
  have hnot : ∀ r ∈ AutoRemediation.plan blackout busy openKeys now history, r.isOutcome = false :=
    fun r hr => (plan_key (mem_plan hr).2).2.2
  have hone : ∀ key, attemptsAt key (AutoRemediation.plan blackout busy openKeys now history) = [] ∨
      ∃ r, attemptsAt key (AutoRemediation.plan blackout busy openKeys now history) = [r] ∧
        planKey blackout busy now history key = some r ∧ r.outcome = .started := by
    intro key
    have hn : ((attemptsAt key (AutoRemediation.plan blackout busy openKeys now history)).map Row.issueKey).Nodup :=
      nodup_plan.sublist ((List.filter_sublist.trans List.filter_sublist).map _)
    have hmem : ∀ r ∈ attemptsAt key (AutoRemediation.plan blackout busy openKeys now history),
        planKey blackout busy now history key = some r ∧ r.outcome = .started ∧ r.issueKey = key := fun r hr => by
      obtain ⟨hin, ho, hk⟩ := mem_attemptsAt.1 hr
      exact ⟨hk ▸ (mem_plan hin).2, ho, hk⟩
    generalize attemptsAt key (AutoRemediation.plan blackout busy openKeys now history) = found at hn hmem
    match found with
    | [] => exact .inl rfl
    | [r] => exact .inr ⟨r, rfl, (hmem r (by simp)).1, (hmem r (by simp)).2.1⟩
    | a :: b :: rest =>
      rw [List.map_cons, List.map_cons, List.nodup_cons, (hmem a (by simp)).2.2, (hmem b (by simp)).2.2] at hn
      exact absurd List.mem_cons_self hn.1
  refine ⟨fun r hr ho => ?_, h.ordered_append hrow, fun r hr ho => ?_, fun key => ?_, fun key rule day hk => ?_,
    once_append h.once (fun as o bs heq ho => ?_)⟩
  · rcases List.mem_append.1 hr with hr | hr
    · exact h.read r hr ho
    · have hs : r.outcome = .started := by
        unfold Row.isOrdered at ho
        rw [hnot r hr, Bool.or_false, decide_eq_true_eq] at ho
        exact ho
      obtain ⟨hkey, hp⟩ := mem_plan hr
      obtain ⟨rule, hrem, -⟩ := plan_started hp hs
      refine ⟨isRead_started hp hs (hplain r.issueKey hkey ?_), le_of_eq (hrow r hr)⟩
      rw [hrem]
      exact Option.some_ne_none _
  · rcases List.mem_append.1 hr with hr | hr
    · exact h.started r hr ho
    · obtain ⟨rule, hrem, -, hblack, -⟩ := plan_started (mem_plan hr).2 ho
      exact ⟨hrow r hr ▸ hblack, rule, hrem⟩
  · rw [attemptsAt_append]
    rcases hone key with hnil | ⟨r, hr, hp, ho⟩
    · rw [hnil, List.append_nil]
      exact h.spaced key
    · rw [hr]
      refine List.pairwise_append.2 ⟨h.spaced key, List.pairwise_singleton _ _, fun a ha b hb => ?_⟩
      obtain rfl := List.mem_singleton.1 hb
      rw [← hhist key] at ha
      obtain ⟨hah, hao, hak⟩ := mem_attemptsAt.1 ha
      obtain ⟨rule, -, -, -, -, hspace⟩ := plan_started hp ho
      obtain ⟨t, ht, hle⟩ : ∃ t, (attemptsToday history key now).2 = some t ∧ a.ts ≤ t := le_attemptsToday hah hak hao
      have hnow := hspace t ht
      rw [(plan_key hp).2.1]
      omega
  · rw [attemptsAt_append, List.filter_append, List.length_append]
    rcases hone key with hnil | ⟨r, hr, hp, ho⟩
    · rw [hnil]
      exact h.budget key rule day hk
    · rw [hr]
      by_cases hday : kstDay r.ts = day
      · obtain ⟨rule', hrem, -, -, hbudget, -⟩ := plan_started hp ho
        obtain rfl : rule = rule' := Option.some.inj (hk.symm.trans (safe_unit hrem).1)
        rw [attemptsToday_fst, hhist key] at hbudget
        rw [(plan_key hp).2.1] at hday
        subst hday
        have hlen : ([r].filter (fun r => decide (kstDay r.ts = kstDay now))).length ≤ 1 := List.length_filter_le _ _
        omega
      · rw [List.filter_cons_of_neg (by simpa using hday), List.filter_nil, List.length_nil, Nat.add_zero]
        exact h.budget key rule day hk
  · have hin := hnot o (heq ▸ List.mem_append_right _ List.mem_cons_self)
    rw [ho] at hin
    cases hin

/-- **Settling twice adds nothing.** -/
theorem Bounded.settle_twice (h : Bounded blackout rows now) (openKeys : List String) :
    AutoRemediation.settle openKeys now (readLedger (rows ++ AutoRemediation.settle openKeys now (readLedger rows))) = [] := by
  have hread : readLedger (rows ++ AutoRemediation.settle openKeys now (readLedger rows)) =
      readLedger rows ++ AutoRemediation.settle openKeys now (readLedger rows) := by
    refine (List.filter_append _ _).trans (congrArg (readLedger rows ++ ·) ?_)
    exact List.filter_eq_self.2 (fun r hr => (h.settle_rows openKeys r hr).2.2)
  rw [hread]
  refine List.filterMap_eq_nil_iff.2 (fun key _ => ?_)
  cases hone : settleKey openKeys now (readLedger rows) key with
  | none =>
    have hnot : ∀ r ∈ AutoRemediation.settle openKeys now (readLedger rows), r.counts key true = false := by
      intro r hr
      have hmem := mem_settle hr
      by_contra hcounts
      unfold Row.counts at hcounts
      rw [Bool.not_eq_false, Bool.and_eq_true, decide_eq_true_eq] at hcounts
      rw [hcounts.1, hone] at hmem
      cases hmem
    unfold settleKey
    rw [latestRecord_append_of_not hnot]
    exact hone
  | some o =>
    obtain ⟨s, hs, hso, hkey, hts, -, -, hout, -⟩ := settle_key hone
    have hin : o ∈ AutoRemediation.settle openKeys now (readLedger rows) := by
      obtain ⟨as, bs, hsplit, hcounts, -⟩ := latestRecord_split hs
      refine List.mem_filterMap.2 ⟨key, mem_sortedKeys.2 (List.mem_map.2 ⟨s, ?_, ?_⟩), hone⟩
      · rw [hsplit]
        simp
      · unfold Row.counts at hcounts
        rw [Bool.and_eq_true, decide_eq_true_eq] at hcounts
        exact hcounts.1
    obtain ⟨as, bs, hsplit⟩ := List.append_of_mem hin
    have hn : ((as ++ o :: bs).map Row.issueKey).Nodup := hsplit ▸ nodup_settle
    rw [List.map_append, List.map_cons] at hn
    have hother : ∀ r ∈ as ++ bs, r.counts key true = false := by
      intro r hr
      have hne : r.issueKey ≠ key := by
        rcases List.mem_append.1 hr with hr | hr
        · exact hkey ▸ (List.nodup_append.1 hn).2.2 _ (List.mem_map_of_mem hr) _ List.mem_cons_self
        · intro heq
          exact (List.nodup_cons.1 (List.nodup_append.1 hn).2.1).1 (hkey ▸ heq ▸ List.mem_map_of_mem hr)
      simp [Row.counts, hne]
    have hocounts : o.counts key true = true := by
      unfold Row.isOutcome at hout
      rw [Bool.or_eq_true, decide_eq_true_eq, decide_eq_true_eq] at hout
      rcases hout with hout | hout <;> simp [Row.counts, hkey, hout, Outcome.isLifecycle]
    have hle : s.ts ≤ o.ts := by
      rw [hts]
      exact (h.read s (h.no_outcome_after hs hso).1 (by simp [Row.isOrdered, hso])).2
    have hlatest : latestRecord (readLedger rows ++ AutoRemediation.settle openKeys now (readLedger rows)) key true = some o := by
      have happ : readLedger rows ++ (as ++ o :: bs) = (readLedger rows ++ as ++ [o]) ++ bs := by simp
      rw [hsplit, happ, latestRecord_append_of_not (fun r hr => hother r (List.mem_append_right _ hr)), latestRecord_concat,
        if_pos hocounts, latestRecord_append_of_not (fun r hr => hother r (List.mem_append_left _ hr)), hs]
      exact if_pos hle
    unfold settleKey
    rw [hlatest, Option.bind_some, if_pos]
    intro hstart
    simp [Row.isOutcome, hstart] at hout

end bounded

/-! ## Ticks -/

section ticks

variable {blackout : Int → Int} {trace new : List Event} {t : Tick} {now : Int} {planned : List Row} {r : Row}

theorem rowsOf_append : rowsOf (trace ++ new) = rowsOf trace ++ rowsOf new := List.filterMap_append

theorem startsOf_append : startsOf (trace ++ new) = startsOf trace ++ startsOf new := List.filterMap_append

theorem rowsOf_map (rows : List Row) : rowsOf (rows.map .row) = rows := by
  unfold rowsOf
  rw [List.filterMap_map]
  exact List.filterMap_some

theorem startsOf_map (rows : List Row) : startsOf (rows.map .row) = [] := by
  unfold startsOf
  rw [List.filterMap_map]
  exact List.filterMap_eq_nil_iff.2 (fun r _ => rfl)

/-- An attempt adds failures, and starts its unit at most once. -/
theorem attempt_events (t : Tick) (r : Row) : (∀ q ∈ rowsOf (t.attempt r), q.outcome = .failed) ∧
    (startsOf (t.attempt r)).Sublist [(r.unit, r.issueKey, r.ts)] := by
  have hone : ∀ detail, ∀ q ∈ rowsOf [t.failure r detail], q.outcome = .failed := by
    intro detail q hq
    rw [List.mem_singleton.1 hq]
  unfold Tick.attempt
  split_ifs
  · exact ⟨hone _, List.nil_sublist _⟩
  · split
    · exact ⟨hone _, List.nil_sublist _⟩
    · split
      · exact ⟨hone _, List.Sublist.refl _⟩
      · exact ⟨fun q hq => (by cases hq), List.Sublist.refl _⟩

theorem attempts_events (t : Tick) : ∀ rows : List Row, (∀ q ∈ rowsOf (rows.flatMap t.attempt), q.outcome = .failed) ∧
    (startsOf (rows.flatMap t.attempt)).Sublist (rows.map (fun r => (r.unit, r.issueKey, r.ts)))
  | [] => ⟨fun q hq => (by cases hq), List.nil_sublist _⟩
  | r :: rows => by
    obtain ⟨hfail, hstarts⟩ := attempts_events t rows
    obtain ⟨hfail', hstarts'⟩ := attempt_events t r
    rw [List.flatMap_cons, rowsOf_append, startsOf_append, List.map_cons]
    refine ⟨fun q hq => ?_, hstarts'.append hstarts⟩
    exact (List.mem_append.1 hq).elim (hfail' q) (hfail q)

/-- The starts are of attempts, in their order. -/
def StartsOfAttempts (trace : List Event) : Prop :=
  (startsOf trace).Sublist ((attemptsOf (rowsOf trace)).map (fun r => (r.unit, r.issueKey, r.ts)))

theorem preceded_append (h : Preceded trace) (hnew : ∀ unit key ts, .start unit key ts ∈ new →
    ∃ r ∈ rowsOf trace, r.outcome = .started ∧ r.unit = unit ∧ r.issueKey = key ∧ r.ts = ts) : Preceded (trace ++ new) := by
  intro as unit key ts bs heq
  rcases List.append_eq_append_iff.1 heq with ⟨as', rfl, hnews⟩ | ⟨cs, htrace, hcs⟩
  · obtain ⟨r, hr, hrest⟩ := hnew unit key ts (hnews ▸ List.mem_append_right _ List.mem_cons_self)
    exact ⟨r, by rw [rowsOf_append]; exact List.mem_append_left _ hr, hrest⟩
  · cases cs with
    | nil =>
      rw [List.append_nil] at htrace
      have hfirst : .start unit key ts :: bs = new := hcs
      obtain ⟨r, hr, hrest⟩ := hnew unit key ts (hfirst ▸ List.mem_cons_self)
      exact ⟨r, htrace ▸ hr, hrest⟩
    | cons c cs =>
      obtain ⟨rfl, -⟩ := List.cons.inj hcs
      exact h as unit key ts cs htrace

/-- What a run keeps. -/
structure Keeps (blackout : Int → Int) (trace : List Event) (now : Int) : Prop where
  bounded : Bounded blackout (rowsOf trace) now
  starts : StartsOfAttempts trace
  preceded : Preceded trace

/-- Rows that are appended start nothing. -/
theorem Keeps.append_rows (h : Keeps blackout trace now) {rows : List Row} (hb : Bounded blackout (rowsOf trace ++ rows) now) :
    Keeps blackout (trace ++ rows.map .row) now := by
  refine ⟨?_, ?_, preceded_append h.preceded (fun unit key ts hs => ?_)⟩
  · rw [rowsOf_append, rowsOf_map]
    exact hb
  · unfold StartsOfAttempts
    rw [startsOf_append, startsOf_map, List.append_nil, rowsOf_append]
    refine h.starts.trans (List.Sublist.map _ ?_)
    exact (List.sublist_append_left _ _).filter _
  · obtain ⟨r, -, hr⟩ := List.mem_map.1 hs
    cases hr

/-- Attempts that are worked off. -/
theorem Keeps.append_attempts (h : Keeps blackout trace now) (hb : Bounded blackout (rowsOf trace ++ planned) now) (t : Tick)
    {taken : List Row} (htaken : taken.Sublist (attemptsOf planned)) :
    Keeps blackout (trace ++ planned.map .row ++ taken.flatMap t.attempt) now := by
  obtain ⟨hfail, hstarts⟩ := attempts_events t taken
  have hrows : rowsOf (trace ++ planned.map .row) = rowsOf trace ++ planned := by rw [rowsOf_append, rowsOf_map]
  refine ⟨?_, ?_, preceded_append (h.append_rows hb).preceded (fun unit key ts hs => ?_)⟩
  · rw [rowsOf_append, hrows]
    refine hb.append_other (fun r hr => ?_)
    simp [Row.isOrdered, Row.isOutcome, hfail r hr]
  · have hnone : attemptsOf (rowsOf (taken.flatMap t.attempt)) = [] :=
      List.filter_eq_nil_iff.2 (fun r hr => by simp [hfail r hr])
    have hsplit : attemptsOf (rowsOf (trace ++ planned.map .row ++ taken.flatMap t.attempt)) =
        attemptsOf (rowsOf trace) ++ attemptsOf planned := by
      rw [rowsOf_append, hrows]
      unfold attemptsOf at hnone ⊢
      rw [List.filter_append, hnone, List.append_nil, List.filter_append]
    unfold StartsOfAttempts
    rw [hsplit, startsOf_append, startsOf_append, startsOf_map, List.append_nil, List.map_append]
    exact h.starts.append (hstarts.trans (htaken.map _))
  · have hmem : (unit, key, ts) ∈ startsOf (taken.flatMap t.attempt) := List.mem_filterMap.2 ⟨_, hs, rfl⟩
    obtain ⟨r, hr, heq⟩ := List.mem_map.1 (hstarts.subset hmem)
    obtain ⟨hu, hrest⟩ := Prod.mk.inj heq
    obtain ⟨hk, hts⟩ := Prod.mk.inj hrest
    obtain ⟨hin, ho⟩ := List.mem_filter.1 (htaken.subset hr)
    exact ⟨r, by rw [hrows]; exact List.mem_append_right _ hin, of_decide_eq_true ho, hu, hk, hts⟩

/-- **One tick.** -/
theorem tick_keeps (h : Keeps blackout trace now) (hle : now ≤ t.now) (hplain : t.Plain) :
    Keeps blackout (trace ++ t.events blackout trace) t.now := by
  have hlater : Keeps blackout trace t.now := ⟨h.bounded.mono hle, h.starts, h.preceded⟩
  have hsettled := hlater.append_rows (hlater.bounded.settle t.openKeys)
  unfold Tick.events
  dsimp only
  cases t.reach with
  | none =>
    rw [List.append_nil]
    exact hsettled
  | some n =>
    have hrows : rowsOf (trace ++ (settle t.openKeys t.now (readLedger (rowsOf trace))).map .row) =
        rowsOf trace ++ settle t.openKeys t.now (readLedger (rowsOf trace)) := by rw [rowsOf_append, rowsOf_map]
    have hhist : ∀ key, attemptsAt key (readLedger (rowsOf trace) ++ settle t.openKeys t.now (readLedger (rowsOf trace))) =
        attemptsAt key (rowsOf (trace ++ (settle t.openKeys t.now (readLedger (rowsOf trace))).map .row)) := fun key => by
      rw [hrows, attemptsAt_append, attemptsAt_append, hlater.bounded.attemptsAt_read]
    have hplanned := hsettled.append_attempts (hsettled.bounded.plan hhist hplain t.unitBusy) t (List.take_sublist n _)
    unfold Tick.execute
    rw [← List.append_assoc, ← List.append_assoc]
    exact hplanned

theorem run_keeps {ts : List Tick} (hclock : (ts.map Tick.now).Pairwise (· ≤ ·)) (hplain : ∀ t ∈ ts, t.Plain) :
    ∀ {now : Int}, (∀ t ∈ ts, t.now ≤ now) → Keeps blackout (run blackout ts) now := by
  induction ts using List.reverseRecOn with
  | nil =>
    intro now _
    exact ⟨bounded_nil now, List.Sublist.refl _, fun as unit key ts bs h => (by cases as <;> cases h)⟩
  | append_singleton ts t ih =>
    intro now hnow
    rw [List.map_append, List.pairwise_append] at hclock
    have hprefix : Keeps blackout (run blackout ts) t.now :=
      ih hclock.1 (fun u hu => hplain u (List.mem_append_left _ hu))
        (fun u hu => hclock.2.2 u.now (List.mem_map_of_mem hu) t.now (by simp))
    have hstep := tick_keeps hprefix (le_refl _) (hplain t (by simp))
    have hrun : run blackout (ts ++ [t]) = run blackout ts ++ t.events blackout (run blackout ts) := by
      unfold run
      rw [List.foldl_append]
      rfl
    rw [hrun]
    exact ⟨hstep.bounded.mono (hnow t (by simp)), hstep.starts, hstep.preceded⟩

end ticks

/-- **Reruns stay within bounds** in every run of ticks whose keys are read back: on a KST day no more attempts of a key
than its rule allows, spaced; each start of an attempt, of a safe unit, outside the blackout, after its row; and one
outcome at most for an attempt, which settling again does not add to. -/
theorem reruns_bounded (blackout : Int → Int) (ts : List Tick) (hclock : (ts.map Tick.now).Pairwise (· ≤ ·))
    (hplain : ∀ t ∈ ts, t.Plain) :
    (∀ key rule day, matchRule key = some rule →
      ((attemptsAt key (rowsOf (run blackout ts))).filter (fun r => decide (kstDay r.ts = day))).length ≤
        rule.maxAttemptsPerDay) ∧
    (∀ key, (attemptsAt key (rowsOf (run blackout ts))).Pairwise (fun a b => minSpacing ≤ b.ts - a.ts)) ∧
    StartsOfAttempts (run blackout ts) ∧
    (∀ unit key t, (unit, key, t) ∈ startsOf (run blackout ts) → unit ∈ safeRerunUnits ∧ blackout t ≤ 0) ∧
    Preceded (run blackout ts) ∧ OutcomesOnce (rowsOf (run blackout ts)) ∧
    ∀ openKeys now, (∀ t ∈ ts, t.now ≤ now) →
      settle openKeys now (readLedger (rowsOf (run blackout ts) ++ settle openKeys now (readLedger (rowsOf (run blackout ts))))) =
        [] := by
  obtain ⟨now, hnow⟩ : ∃ now, ∀ t ∈ ts, t.now ≤ now := by
    induction ts with
    | nil => exact ⟨0, fun t ht => (by cases ht)⟩
    | cons t ts ih =>
      obtain ⟨now, hnow⟩ := ih (List.pairwise_cons.1 hclock).2 (fun u hu => hplain u (List.mem_cons_of_mem _ hu))
      refine ⟨max t.now now, fun u hu => ?_⟩
      rcases List.mem_cons.1 hu with rfl | hu
      · exact le_max_left _ _
      · exact (hnow u hu).trans (le_max_right _ _)
  have hkeeps : Keeps blackout (run blackout ts) now := run_keeps hclock hplain hnow
  refine ⟨fun key rule day hk => hkeeps.bounded.budget key rule day hk, hkeeps.bounded.spaced, hkeeps.starts,
    fun unit key t hs => ?_, hkeeps.preceded, hkeeps.bounded.once, fun openKeys later hlater => ?_⟩
  · obtain ⟨r, hr, heq⟩ := List.mem_map.1 (hkeeps.starts.subset hs)
    obtain ⟨rfl, hrest⟩ := Prod.mk.inj heq
    obtain ⟨-, rfl⟩ := Prod.mk.inj hrest
    obtain ⟨hin, ho⟩ := List.mem_filter.1 hr
    obtain ⟨hblack, rule, hrem⟩ := hkeeps.bounded.started r hin (of_decide_eq_true ho)
    exact ⟨(safe_unit hrem).2, hblack⟩
  · exact (run_keeps hclock hplain hlater).bounded.settle_twice openKeys

/-! A token that stays stale. -/

/-- A tick at which one key is open. -/
def staleTick (key : String) (now : Int) : Tick :=
  ⟨[key], now, fun _ => false, fun _ => none, fun _ => none, fun _ => now, some 1⟩

theorem reruns_bounded_two_ticks :
    ((attemptsAt "stale_kis_token:a" (rowsOf (run (fun _ => 0) [staleTick "stale_kis_token:a" 0, staleTick "stale_kis_token:a" 1]))).filter
      (fun r => decide (kstDay r.ts = 0))).length ≤ 2 := by
  refine (reruns_bounded (fun _ => 0) [staleTick "stale_kis_token:a" 0, staleTick "stale_kis_token:a" 1] (by simp [staleTick])
    (fun t ht key hk _ => ?_)).1 "stale_kis_token:a" ⟨"stale_kis_token:", .rerunUnit, some "kca-kis-token-warmup.service", 2⟩ 0
    (by decide +kernel)
  have hkey : key = "stale_kis_token:a" := by
    rcases List.mem_cons.1 ht with rfl | ht
    · exact List.mem_singleton.1 hk
    · rw [List.mem_singleton.1 ht] at hk
      exact List.mem_singleton.1 hk
  rw [hkey]
  decide

/-- **A key that breaks its line is rerun at every tick**: with a line separator in it, the rows of its attempts are not
read back, and the third attempt of a day starts a microsecond after the second. -/
theorem broken_key_reruns :
    (attemptsAt "stale_kis_token:a\u2028" (rowsOf (run (fun _ => 0) [staleTick "stale_kis_token:a\u2028" 0,
      staleTick "stale_kis_token:a\u2028" 1, staleTick "stale_kis_token:a\u2028" 2]))).map Row.ts = [0, 1, 2] ∧
    ¬ ((attemptsAt "stale_kis_token:a\u2028" (rowsOf (run (fun _ => 0) [staleTick "stale_kis_token:a\u2028" 0,
      staleTick "stale_kis_token:a\u2028" 1, staleTick "stale_kis_token:a\u2028" 2]))).filter
        (fun r => decide (kstDay r.ts = 0))).length ≤ 2 := by
  decide +kernel

end AutoRemediation
