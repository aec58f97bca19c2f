import KClosingAlpha.Lib.Exc
import KClosingAlpha.Lib.Retention
import KClosingAlpha.Offsite.CoreSnapshot
/-!
# CoreRules — what the parts of a snapshot that call nothing decide

Which dated directories a listing names, which of them are pruned, what validation without an issue says of every file, and
that the entries of a manifest are read as they were written.
-/
namespace CoreSnapshot

/-! ## Dated directories -/

theorem Day.toList_name (d : Day) : ∃ a₁ a₂ a₃ a₄ a₅ a₆ a₇ a₈, d.name.toList = [a₁, a₂, a₃, a₄, '-', a₅, a₆, '-', a₇, a₈] ∧
    a₁.isDigit = true ∧ a₈.isDigit = true := by
  have h := d.dated
  unfold isDatedDir at h
  split at h
  case h_1 a₁ a₂ a₃ a₄ a₅ a₆ a₇ a₈ heq =>
    simp only [List.all_cons, Bool.and_eq_true] at h
    exact ⟨a₁, a₂, a₃, a₄, a₅, a₆, a₇, a₈, heq, by simp [h], by simp [h]⟩
  case h_2 => cases h

theorem Day.ofName_name (d : Day) : Day.ofName d.name = some d := dif_pos d.dated

theorem Day.name_of_ofName {name : String} {d : Day} (h : Day.ofName name = some d) : d.name = name := by
  unfold Day.ofName at h
  split_ifs at h
  rw [← Option.some.inj h]

theorem isSpace_of_isDigit {c : Char} (h : c.isDigit = true) : Py.isSpace c = false := by
  have hc : 48 ≤ c.toNat ∧ c.toNat ≤ 57 := by
    simp only [Char.isDigit, Bool.and_eq_true, decide_eq_true_eq, ge_iff_le, UInt32.le_iff_toNat_le] at h
    exact h
  simp only [Py.isSpace, Bool.or_eq_false_iff, Bool.and_eq_false_iff, decide_eq_false_iff_not, beq_eq_false_iff_ne]
  omega

/-- The line of a dated directory names it. -/
theorem lineName_day (d : Day) : lineName (d.name ++ "/") = d.name := by
  obtain ⟨a₁, a₂, a₃, a₄, a₅, a₆, a₇, a₈, hname, h₁, h₈⟩ := d.toList_name
  have hslash : Py.isSpace '/' = false := by decide
  have hnot : a₈ ≠ '/' := fun heq => by
    rw [heq] at h₈
    exact absurd h₈ (by decide)
  have hstrip : Py.stripChars (d.name ++ "/").toList = d.name.toList ++ ['/'] := by
    rw [String.toList_append, hname]
    simp [Py.stripChars, isSpace_of_isDigit h₁, hslash]
  unfold lineName
  rw [hstrip, List.rdropWhile_concat_pos _ _ _ (by simp), hname]
  have hlast : ([a₁, a₂, a₃, a₄, '-', a₅, a₆, '-', a₇, a₈] : List Char) = [a₁, a₂, a₃, a₄, '-', a₅, a₆, '-', a₇] ++ [a₈] := rfl
  rw [hlast, List.rdropWhile_concat_neg _ _ _ (by simpa using hnot), ← hlast, ← hname, String.ofList_toList]

/-- **A listing names the dated directories.** -/
theorem mem_days_of_lines {lines : List String} {days : List Day} (hall : ∀ d ∈ days, d.name ++ "/" ∈ lines)
    (honly : ∀ line ∈ lines, (∃ d ∈ days, line = d.name ++ "/") ∨ line = "_blobs/") (d : Day) :
    d ∈ (lines.map lineName).filterMap Day.ofName ↔ d ∈ days := by
  rw [List.mem_filterMap]
  constructor
  · rintro ⟨name, hname, hd⟩
    obtain ⟨line, hline, rfl⟩ := List.mem_map.1 hname
    rcases honly line hline with ⟨e, he, rfl⟩ | rfl
    · rw [lineName_day, Day.ofName_name] at hd
      rwa [← Option.some.inj hd]
    · rw [show Day.ofName (lineName "_blobs/") = none by decide +kernel] at hd
      cases hd
  · exact fun hd => ⟨d.name, List.mem_map.2 ⟨_, hall d hd, lineName_day d⟩, d.ofName_name⟩

/-! ## Retention -/

theorem month_eq_iff (d e : Day) : e.month.toList.isPrefixOf d.name.toList = true ↔ d.month = e.month := by
  obtain ⟨a₁, a₂, a₃, a₄, a₅, a₆, a₇, a₈, hd, -⟩ := d.toList_name
  obtain ⟨b₁, b₂, b₃, b₄, b₅, b₆, b₇, b₈, he, -⟩ := e.toList_name
  rw [List.isPrefixOf_iff_prefix, Day.month, Day.month, String.toList_ofList, String.ofList_inj, hd, he]
  simp only [List.take_succ_cons, List.take_zero, List.cons_prefix_cons, List.nil_prefix, and_true, List.cons.injEq]
  constructor <;> (intro h; simp only [h, and_self])

/-- The first snapshot of a month is the earliest one. -/
theorem firstOfMonth_eq_some {names : List Day} {d e : Day} :
    firstOfMonth names e.month = some d ↔ d ∈ names ∧ d.month = e.month ∧ ∀ f ∈ names, f.month = e.month → d ≤ f := by
  unfold firstOfMonth
  rw [List.min?_eq_some_iff]
  simp only [List.mem_filter, month_eq_iff, and_imp, and_assoc]

theorem pairwise_sorted {α : Type} [LinearOrder α] {l : List α} (h : l.Nodup) :
    (l.insertionSort (· ≤ ·)).Pairwise (· < ·) := by
  have hle := List.pairwise_insertionSort (· ≤ ·) l
  have hne := ((List.perm_insertionSort (· ≤ ·) l).nodup_iff.2 h)
  exact hle.imp₂ (fun _ _ hab hne => lt_of_le_of_ne hab hne) hne

theorem pairwise_sorted_ge {α : Type} [LinearOrder α] {l : List α} (h : l.Nodup) :
    (l.insertionSort (· ≥ ·)).Pairwise (· > ·) := by
  have hge := List.pairwise_insertionSort (· ≥ ·) l
  have hne := ((List.perm_insertionSort (· ≥ ·) l).nodup_iff.2 h)
  exact hge.imp₂ (fun _ _ hab hne => lt_of_le_of_ne hab (Ne.symm hne)) hne

/-- **What is pruned is neither among the newest eight nor the first of one of the latest twelve months.** -/
theorem mem_selectSnapshotsToPrune {names : List Day} {d : Day} :
    d ∈ selectSnapshotsToPrune names ↔
      d ∈ names ∧ ¬ Retention.Retained Day.month keepWeekly keepMonthly names.toFinset d := by
  let sorted := names.dedup.insertionSort (· ≤ ·)
  let months := ((sorted.map Day.month).dedup).insertionSort (· ≥ ·)
  have hmem (e : Day) : e ∈ sorted ↔ e ∈ names := by
    rw [(List.perm_insertionSort _ _).mem_iff, List.mem_dedup]
  have hset : sorted.toFinset = names.toFinset := by
    ext e
    rw [List.mem_toFinset, List.mem_toFinset, hmem]
  have hmonths (m : String) : m ∈ months ↔ ∃ e ∈ names, e.month = m := by
    rw [(List.perm_insertionSort _ _).mem_iff, List.mem_dedup, List.mem_map]
    simp only [hmem]
  have hmset : months.toFinset = names.toFinset.image Day.month := by
    ext m
    simp only [List.mem_toFinset, hmonths, Finset.mem_image]
  have hsorted : sorted.Pairwise (· < ·) := pairwise_sorted (List.nodup_dedup _)
  have hweekly (he : d ∈ sorted) : d ∈ sorted.drop (sorted.length - keepWeekly) ↔
      (names.toFinset.filter (fun b => d < b)).card < keepWeekly := by
    rw [Retention.mem_drop_iff_card_lt (fun _ _ h h' => lt_asymm h h') hsorted he, hset]
  have hlatest (he : d ∈ names) : d.month ∈ months.take keepMonthly ↔
      ((names.toFinset.image Day.month).filter (fun g => d.month < g)).card < keepMonthly := by
    rw [Retention.mem_take_iff_card_lt (fun _ _ h h' => lt_asymm h h') (pairwise_sorted_ge (List.nodup_dedup _))
      ((hmonths _).2 ⟨d, he, rfl⟩), hmset]
  have hfirst (he : d ∈ names) : d ∈ (months.take keepMonthly).filterMap (firstOfMonth sorted) ↔
      (∀ b ∈ names.toFinset, b.month = d.month → d ≤ b) ∧ d.month ∈ months.take keepMonthly := by
    rw [List.mem_filterMap]
    constructor
    · rintro ⟨m, hm, hd⟩
      obtain ⟨e, -, rfl⟩ := (hmonths m).1 (List.mem_of_mem_take hm)
      obtain ⟨-, hde, hle⟩ := firstOfMonth_eq_some.1 hd
      rw [← hde] at hle hm
      exact ⟨fun b hb => hle b ((hmem b).2 (List.mem_toFinset.1 hb)), hm⟩
    · rintro ⟨hle, hm⟩
      exact ⟨_, hm, firstOfMonth_eq_some.2 ⟨(hmem d).2 he, rfl, fun b hb => hle b (List.mem_toFinset.2 ((hmem b).1 hb))⟩⟩
  change d ∈ (if sorted.length < keepWeekly then [] else _) ↔ _
  split_ifs with hlen
  · constructor
    · intro h
      cases h
    · rintro ⟨he, hnot⟩
      refine absurd (.inl ?_) hnot
      rw [← hweekly ((hmem d).2 he), Nat.sub_eq_zero_of_le hlen.le]
      exact (hmem d).2 he
  · rw [List.mem_filter, hmem, decide_eq_true_eq, List.mem_append]
    constructor
    · rintro ⟨he, hnot⟩
      refine ⟨he, fun hr => hnot ?_⟩
      rcases hr with hr | ⟨hle, hr⟩
      · exact .inl ((hweekly ((hmem d).2 he)).2 hr)
      · exact .inr ((hfirst he).2 ⟨hle, (hlatest he).2 hr⟩)
    · rintro ⟨he, hnot⟩
      refine ⟨he, fun hr => hnot ?_⟩
      rcases hr with hr | hr
      · exact .inl ((hweekly ((hmem d).2 he)).1 hr)
      · obtain ⟨hle, hr⟩ := (hfirst he).1 hr
        exact .inr ⟨hle, (hlatest he).1 hr⟩

/-! ## The manifest -/

/-- **An entry is read as it was written.** -/
theorem readEntry_entryJson (repr : Py.Json → String) (entry : CorePanelStat) :
    readEntry repr (entryJson entry) = some entry := by
  obtain ⟨relpath, sha256, bytes, rows, maxDate⟩ := entry
  cases rows <;> rfl

theorem entriesOf_manifestText (repr : Py.Json → String) (stats : List CorePanelStat) :
    entriesOf repr (manifestText stats) = stats.insertionSort (fun a b => a.relpath ≤ b.relpath) := by
  unfold entriesOf manifestText
  rw [Py.Json.loads_print]
  simp only [List.filterMap_map]
  rw [show readEntry repr ∘ entryJson = some from funext (readEntry_entryJson repr), List.filterMap_some]

theorem mem_entriesOf {repr : Py.Json → String} {stats : List CorePanelStat} {entry : CorePanelStat} :
    entry ∈ entriesOf repr (manifestText stats) ↔ entry ∈ stats := by
  rw [entriesOf_manifestText]
  exact (List.perm_insertionSort _ _).mem_iff

/-! ## The guard -/

theorem latest_mem {stats : List CorePanelStat} {relpath : String} {entry : CorePanelStat}
    (h : latest stats relpath = some entry) : entry ∈ stats ∧ entry.relpath = relpath := by
  unfold latest at h
  exact ⟨List.mem_reverse.1 (List.mem_of_find?_eq_some h), by simpa using List.find?_some h⟩

/-- Of paths that are not repeated, an entry is the entry of its path. -/
theorem latest_of_nodup {stats : List CorePanelStat} (hn : (stats.map (·.relpath)).Nodup) {entry : CorePanelStat}
    (h : entry ∈ stats) : latest stats entry.relpath = some entry := by
  cases hl : latest stats entry.relpath with
  | none =>
    unfold latest at hl
    simpa using List.find?_eq_none.1 hl entry (List.mem_reverse.2 h)
  | some e =>
    obtain ⟨he, heq⟩ := latest_mem hl
    rw [List.inj_on_of_nodup_map hn he h heq]

/-- What validation without an issue has found: nothing that was tracked is gone, and no file is worse. -/
structure Passed (stats previous : List CorePanelStat) (acceptedMissing : List String) : Prop where
  there : ∀ old ∈ previous, isTrackedCoreRelpath old.relpath = true → old.relpath ∈ acceptedMissing ∨
    old.relpath ∈ stats.map (·.relpath)
  readable : ∀ entry ∈ stats, entry.sha256 ≠ ""
  rows : ∀ entry ∈ stats, ∀ old, latest (previous.filter (fun e => isTrackedCoreRelpath e.relpath)) entry.relpath = some old →
    rowsShrank entry.rows old.rows = .ok false
  maxDate : ∀ entry ∈ stats, ∀ old, latest (previous.filter (fun e => isTrackedCoreRelpath e.relpath)) entry.relpath = some old →
    maxDateRegressed entry old = false

theorem panelIssues_eq_nil {entry : CorePanelStat} {old : Option CorePanelStat} (h : panelIssues entry old = .ok []) :
    entry.sha256 ≠ "" ∧ ∀ o, old = some o → rowsShrank entry.rows o.rows = .ok false ∧ maxDateRegressed entry o = false := by
  unfold panelIssues at h
  split_ifs at h with hsha
  · cases h
  refine ⟨hsha, fun o ho => ?_⟩
  rw [ho] at h
  obtain ⟨shrank, hshrank, h⟩ := (Exc.bind_eq_ok _ _ _).1 h
  rw [Exc.pure_eq_ok, List.append_eq_nil_iff] at h
  refine ⟨?_, ?_⟩
  · cases shrank with
    | true => simp at h
    | false => exact hshrank
  · cases hm : maxDateRegressed entry o with
    | true => simp [hm] at h
    | false => rfl

/-- **Validation without an issue.** -/
theorem passed_of_validate {stats previous : List CorePanelStat} {acceptedMissing : List String}
    (hn : (stats.map (·.relpath)).Nodup) (h : validateCorePanels stats previous acceptedMissing = .ok []) :
    Passed stats previous acceptedMissing := by
  unfold validateCorePanels at h
  obtain ⟨found, hfound, h⟩ := (Exc.bind_eq_ok _ _ _).1 h
  rw [Exc.pure_eq_ok] at h
  have hnil := (List.perm_nil.1 (h ▸ (List.perm_insertionSort _ _).symm))
  obtain ⟨hgone, hflat⟩ := List.append_eq_nil_iff.1 hnil
  have hentry : ∀ entry ∈ stats,
      panelIssues entry (latest (previous.filter (fun e => isTrackedCoreRelpath e.relpath)) entry.relpath) = .ok [] := by
    intro entry he
    have hmem : entry.relpath ∈ ((stats.map (·.relpath)).dedup.insertionSort (· ≤ ·)) := by
      rw [(List.perm_insertionSort _ _).mem_iff, List.mem_dedup]
      exact List.mem_map_of_mem he
    obtain ⟨issues, hin, hissues⟩ := Exc.result_of_mapM_eq_ok hfound hmem
    rw [latest_of_nodup hn he] at hissues
    rw [← List.flatten_eq_nil_iff.1 hflat issues hin]
    exact hissues
  refine ⟨fun old hold htracked => ?_, fun entry he => (panelIssues_eq_nil (hentry entry he)).1,
    fun entry he old hold => ((panelIssues_eq_nil (hentry entry he)).2 old hold).1,
    fun entry he old hold => ((panelIssues_eq_nil (hentry entry he)).2 old hold).2⟩
  rw [List.map_eq_nil_iff, List.filter_eq_nil_iff] at hgone
  have hnot := hgone old.relpath (List.mem_dedup.2 (List.mem_map_of_mem (List.mem_filter.2 ⟨hold, htracked⟩)))
  simp only [Bool.and_eq_true, decide_eq_true_eq, not_and, not_not] at hnot
  by_cases hin : old.relpath ∈ stats.map (·.relpath)
  · exact .inr hin
  · exact .inl (hnot hin)

/-- Below `2 ^ 53` the comparison of the rows is exact. -/
theorem le_of_rowsShrank {a b : Nat} (ha : a < 2 ^ 53) (hb : b < 2 ^ 53)
    (h : rowsShrank (some (a : Int)) (some (b : Int)) = .ok false) : b ≤ a := by
  unfold rowsShrank toFloat at h
  obtain ⟨x, hx, h⟩ := (Exc.bind_eq_ok _ _ _).1 h
  obtain ⟨y, hy, h⟩ := (Exc.bind_eq_ok _ _ _).1 h
  rw [Exc.pure_eq_ok] at h
  split_ifs at hx hy
  obtain rfl := Except.ok.inj hx
  obtain rfl := Except.ok.inj hy
  have hlt := Py.PyFloat.IsWhole.lt_iff (Py.PyFloat.isWhole_ofInt ha) ((Py.PyFloat.isWhole_ofInt hb).sub_zero hb)
  rw [show Py.PyFloat.ofInt 0 = coreRowShrinkTolerance from rfl, h] at hlt
  by_contra hnot
  exact absurd (hlt.2 (Nat.lt_of_not_le hnot)) (by simp)

end CoreSnapshot
