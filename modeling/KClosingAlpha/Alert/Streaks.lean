import KClosingAlpha.Py.Json
import KClosingAlpha.Py.Lookup
import Mathlib
/-!
# Streaks — degradations that warn once they persist (`tools/issue_registry.py`, `daily_audit`)

An audit splits its intraday issues by tier.  Those of the research tier block only after the third audit date in a row on
which their class was seen; the counts are kept in a file, which an audit may fail to read or to write.  Over any run of
audits the count is that of the dates without a break (`blocking_iff`), whatever the file went through.

Whether a character is a digit, and the text of a value of the file that is no string, are parameters.
-/
namespace Streaks

open Py (Json)

/-! ## Tiers -/

inductive IssueTier where
  | tradingChain
  | dataIntegrity
  | researchDegraded
  deriving DecidableEq

/-- ADVISORY_ESCALATION_AUDITS. -/
def advisoryEscalationAudits : Int := 3

/-- ADVISORY_STREAKS_SCHEMA_VERSION. -/
def advisoryStreaksSchemaVersion : Int := 1

def tradingChainSteps : List String :=
  ["archive", "close_confirmed", "decision", "paper_entry", "paper_exit", "price_history_fresh", "minute_bars"]

def tradingChainUnits : List String :=
  ["collect", "predict", "auction-close", "finalize-close", "paper-entry", "paper-exit", "kiwoom-token-rotate",
    "kis-token-warmup", "price-ingest"]

def researchDegradedClasses : List String :=
  ["intraday:regular_ticks:volume_gap", "intraday:regular_ticks:certified_gap",
    "intraday:krx_aftermarket_ticks:volume_mismatch", "intraday:nxt_aftermarket_ticks:volume_mismatch"]

/-- `issue_class`. -/
def issueClass (isdigit : Char → Bool) (key : String) : String :=
  match key.toList.splitOn ':' with
  | [a, b, n, d] => if n ≠ [] ∧ n.all isdigit = true then String.ofList (a ++ ':' :: b ++ ':' :: d) else key
  | _ => key

/-- `unit[len(lead):]` where the unit starts with it. -/
def dropLead (lead : String) (cs : List Char) : List Char :=
  if lead.toList.isPrefixOf cs then cs.drop lead.toList.length else cs

/-- `unit[: -len(tail)]` where the unit ends with it. -/
def dropTail (tail : String) (cs : List Char) : List Char :=
  if tail.toList.isSuffixOf cs then cs.take (cs.length - tail.toList.length) else cs

/-- `classify_issue_tier`. -/
def classifyIssueTier (isdigit : Char → Bool) (key : String) : IssueTier :=
  let cls := issueClass isdigit key
  if cls ∈ researchDegradedClasses then .researchDegraded
  else if "missing:".toList.isPrefixOf cls.toList then
    if String.ofList (dropLead "missing:" cls.toList) ∈ tradingChainSteps then .tradingChain else .dataIntegrity
  else if "failed_unit:".toList.isPrefixOf cls.toList then
    if String.ofList (dropTail ".service" (dropLead "kca-" (dropLead "failed_unit:" cls.toList))) ∈ tradingChainUnits then
      .tradingChain
    else .dataIntegrity
  else .dataIntegrity

/-- `split_intraday_issues`: what blocks, and what is advisory. -/
def splitIntradayIssues (isdigit : Char → Bool) (issues : List String) : List String × List String :=
  (issues.filter (fun key => decide (classifyIssueTier isdigit key ≠ .researchDegraded)),
    issues.filter (fun key => decide (classifyIssueTier isdigit key = .researchDegraded)))

/-! ## Streaks -/

structure AdvisoryStreak where
  firstDate : String
  lastDate : String
  consecutiveAudits : Int
  deriving DecidableEq

/-- The streak of a class that was observed. -/
def nextStreak (prev : Option AdvisoryStreak) (auditDate : String) (previousAuditDate : Option String) : AdvisoryStreak :=
  match prev with
  | some prev =>
    if prev.lastDate = auditDate then prev
    else if some prev.lastDate = previousAuditDate then ⟨prev.firstDate, auditDate, prev.consecutiveAudits + 1⟩
    else ⟨auditDate, auditDate, 1⟩
  | none => ⟨auditDate, auditDate, 1⟩

/-- `update_advisory_streaks`. -/
def updateAdvisoryStreaks (previous : Py.Dict AdvisoryStreak) (observedClasses : List String) (auditDate : String)
    (previousAuditDate : Option String) : Py.Dict AdvisoryStreak × List String :=
  let newMap := observedClasses.dedup.map (fun cls => (cls, nextStreak (previous.lookup cls) auditDate previousAuditDate))
  (newMap, ((newMap.filter (fun p => decide (advisoryEscalationAudits ≤ p.2.consecutiveAudits))).map Prod.fst).mergeSort
    (fun a b => decide (a ≤ b)))

/-! ## The file -/

inductive File where
  | absent
  | unreadable
  | json (v : Json)

def AdvisoryStreak.payload (s : AdvisoryStreak) : Json :=
  .obj [("first_date", .str s.firstDate), ("last_date", .str s.lastDate), ("consecutive_audits", .int s.consecutiveAudits)]

/-- The payload of `write_advisory_streaks`. -/
def payload (streaks : Py.Dict AdvisoryStreak) : Json :=
  .obj [("schema_version", .int advisoryStreaksSchemaVersion),
    ("streaks", .obj (streaks.map (fun p => (p.1, p.2.payload))))]

/-- `str(value)`. -/
def textOf (str : Json → String) : Json → String
  | .str s => s
  | v => str v

/-- `int(value)`. -/
def intOf : Json → Option Int
  | .int i => some i
  | .bool b => some (if b then 1 else 0)
  | .str s => Py.intOfChars (Py.stripChars s.toList)
  | _ => none

/-- An entry of the file; none where it is refused. -/
def entryOf (str : Json → String) : Json → Option AdvisoryStreak
  | .obj kvs => do
    let first ← (Json.obj kvs).get? "first_date"
    let last ← (Json.obj kvs).get? "last_date"
    let count ← ((Json.obj kvs).get? "consecutive_audits").bind intOf
    if count < 1 then none else some ⟨textOf str first, textOf str last, count⟩
  | _ => none

/-- The entries of a node, as `dict.items()` gives them. -/
def entriesOf (str : Json → String) : Json → Option (Py.Dict AdvisoryStreak)
  | .obj kvs => (Py.Dict.update [] kvs).mapM (fun p => (entryOf str p.2).map (fun streak => (p.1, streak)))
  | _ => none

def streaksOf (str : Json → String) : Json → Option (Py.Dict AdvisoryStreak)
  | .obj kvs => entriesOf str (((Json.obj kvs).get? "streaks").getD (.obj kvs))
  | _ => none

/-- `load_advisory_streaks`. -/
def loadAdvisoryStreaks (str : Json → String) : File → Py.Dict AdvisoryStreak
  | .json raw => (streaksOf str raw).getD []
  | _ => []

/-! ## Audits -/

/-- An audit, and whether it can read and write the file. -/
structure Audit where
  date : String
  intradayIssues : List String
  reads : Bool
  saves : Bool

/-- What blocks, with the count of the note where it is escalated. -/
abbrev Blocking := List (String × Option Int)

variable (isdigit : Char → Bool) (str : Json → String)

/-- The classes of the advisory issues. -/
def Audit.classes (a : Audit) : List String := (splitIntradayIssues isdigit a.intradayIssues).2.map (issueClass isdigit)

/-- The streaks of an audit, and the classes it escalates. -/
def Audit.update (file : File) (a : Audit) : Py.Dict AdvisoryStreak × List String :=
  let previous := loadAdvisoryStreaks str (if a.reads then file else .unreadable)
  updateAdvisoryStreaks previous (a.classes isdigit) a.date (previous.map (fun p => p.2.lastDate)).max?

/-- The audit of the intraday issues: the file after it, and what blocks. -/
def audit (file : File) (a : Audit) : File × Blocking :=
  let (newStreaks, escalated) := a.update isdigit str file
  let (blocking, advisory) := splitIntradayIssues isdigit a.intradayIssues
  if a.saves then
    (.json (payload newStreaks), blocking.map (fun key => (key, none)) ++
      (advisory.filter (fun key => decide (issueClass isdigit key ∈ escalated))).map
        (fun key => (key, (newStreaks.lookup (issueClass isdigit key)).map AdvisoryStreak.consecutiveAudits)))
  else (file, blocking.map (fun key => (key, none)) ++ [("audit:advisory_state:1:unwritable", none)])

/-- The file after audits. -/
def afterAudits : File → List Audit → File
  | file, [] => file
  | file, a :: audits => afterAudits (audit isdigit str file a).1 audits

/-! ## What the file remembers -/

/-- The dates of the audits that count, the newest first, with the classes observed: an audit that could not write left
no trace, and one that could not read forgot what was before. -/
def remembered : List Audit → List (String × List String)
  | [] => []
  | a :: older =>
    if a.saves then (a.date, a.classes isdigit) :: (if a.reads then remembered older else [])
    else remembered older

/-- The dates without a break on which a class was observed, the newest first. -/
def unbroken (cls : String) (history : List (String × List String)) : List String :=
  (history.takeWhile (fun a => decide (cls ∈ a.2))).map Prod.fst

/-- How many dates there are, counting audits of one date once. -/
def countDates : List String → Int
  | [] => 0
  | [_] => 1
  | a :: b :: dates => (if a = b then 0 else 1) + countDates (b :: dates)

/-- The streak of a class. -/
def streakOf (cls : String) (history : List (String × List String)) : Option AdvisoryStreak :=
  match unbroken cls history with
  | [] => none
  | d :: dates => some ⟨(d :: dates).getLast (List.cons_ne_nil d dates), d, countDates (d :: dates)⟩

/-! ## The file is read back -/

variable {isdigit str} {m : Py.Dict AdvisoryStreak} {file : File} {h : List (String × List String)} {cls key : String}

theorem update_nil {α : Type} : ∀ {items d : Py.Dict α}, ((d ++ items).map Prod.fst).Nodup → d.update items = d ++ items
  | [], d, _ => (List.append_nil d).symm
  | p :: items, d, hn => by
    have hnew : p.1 ∉ d.map Prod.fst := by
      simp only [List.map_append, List.map_cons, List.nodup_append, List.nodup_cons] at hn
      exact fun hmem => hn.2.2 _ hmem _ List.mem_cons_self rfl
    rw [Py.Dict.update_cons, Py.Dict.set_of_not_mem hnew, update_nil (by simpa using hn), List.append_assoc]
    rfl

theorem entryOf_payload {s : AdvisoryStreak} (hs : 1 ≤ s.consecutiveAudits) : entryOf str s.payload = some s := by
  simp [entryOf, AdvisoryStreak.payload, Json.get?, List.lookup, intOf, textOf, not_lt.2 hs]

theorem mapM_entryOf : ∀ {m : Py.Dict AdvisoryStreak}, (∀ p ∈ m, 1 ≤ p.2.consecutiveAudits) →
    (m.map (fun p => (p.1, p.2.payload))).mapM (fun p => (entryOf str p.2).map (fun streak => (p.1, streak))) = some m
  | [], _ => rfl
  | p :: m, hpos => by
    rw [List.map_cons, List.mapM_cons, mapM_entryOf (fun q hq => hpos q (List.mem_cons_of_mem _ hq)),
      entryOf_payload (hpos p List.mem_cons_self)]
    rfl

/-- **The file is read back.** -/
theorem load_payload (hn : (m.map Prod.fst).Nodup) (hpos : ∀ p ∈ m, 1 ≤ p.2.consecutiveAudits) :
    loadAdvisoryStreaks str (.json (payload m)) = m := by
  have hkeys : (m.map (fun p => (p.1, p.2.payload))).map Prod.fst = m.map Prod.fst := by simp
  have hupdate : Py.Dict.update [] (m.map (fun p => (p.1, p.2.payload))) = m.map (fun p => (p.1, p.2.payload)) :=
    update_nil (by rwa [List.nil_append, hkeys])
  have hnode : (payload m).get? "streaks" = some (.obj (m.map (fun p => (p.1, p.2.payload)))) := by
    simp [payload, Json.get?]
  have hstreaks : streaksOf str (payload m) = some m := by
    change entriesOf str (((payload m).get? "streaks").getD (payload m)) = some m
    rw [hnode, Option.getD_some, entriesOf, hupdate]
    exact mapM_entryOf hpos
  rw [loadAdvisoryStreaks, hstreaks, Option.getD_some]

/-! ## One audit -/

theorem unbroken_cons (cls date : String) (classes : List String) (h : List (String × List String)) :
    unbroken cls ((date, classes) :: h) = if cls ∈ classes then date :: unbroken cls h else [] := by
  by_cases hc : cls ∈ classes <;> simp [unbroken, hc]

/-- A streak ends on the last date. -/
theorem lastDate_of_streakOf {s : AdvisoryStreak} (hs : streakOf cls h = some s) : h.head?.map Prod.fst = some s.lastDate := by
  cases h with
  | nil => cases hs
  | cons a h =>
    obtain ⟨date, classes⟩ := a
    rw [streakOf, unbroken_cons] at hs
    by_cases hc : cls ∈ classes
    · simp only [hc, if_true] at hs
      cases hs
      rfl
    · simp only [hc, if_false] at hs
      cases hs

theorem countDates_pos : ∀ (d : String) (dates : List String), 1 ≤ countDates (d :: dates)
  | _, [] => le_refl 1
  | a, b :: dates => by
    have := countDates_pos b dates
    rw [countDates]
    split_ifs <;> omega

theorem streakOf_pos {s : AdvisoryStreak} (hs : streakOf cls h = some s) : 1 ≤ s.consecutiveAudits := by
  unfold streakOf at hs
  cases hu : unbroken cls h with
  | nil =>
    rw [hu] at hs
    cases hs
  | cons d dates =>
    rw [hu] at hs
    cases hs
    exact countDates_pos d dates

/-- The streaks that are escalated, by their counts. -/
theorem exists_streakOf_iff {n : Int} :
    (∃ s, streakOf cls h = some s ∧ advisoryEscalationAudits ≤ s.consecutiveAudits ∧ n = s.consecutiveAudits) ↔
      3 ≤ n ∧ n = countDates (unbroken cls h) := by
  unfold streakOf
  cases hu : unbroken cls h with
  | nil =>
    simp only [countDates]
    constructor
    · rintro ⟨s, hs, -⟩
      cases hs
    · omega
  | cons d dates =>
    constructor
    · rintro ⟨s, hs, hle, rfl⟩
      cases hs
      exact ⟨hle, rfl⟩
    · rintro ⟨hle, rfl⟩
      exact ⟨_, rfl, hle, rfl⟩

/-- The map holds the streaks of the history. -/
structure Tracks (m : Py.Dict AdvisoryStreak) (h : List (String × List String)) : Prop where
  keys : (m.map Prod.fst).Nodup
  lookup : ∀ cls, m.lookup cls = streakOf cls h

theorem tracks_nil : Tracks [] [] := ⟨.nil, fun _ => rfl⟩

theorem Tracks.mem (ht : Tracks m h) {p : String × AdvisoryStreak} (hp : p ∈ m) : streakOf p.1 h = some p.2 := by
  rw [← ht.lookup]
  exact Py.Dict.lookup_of_mem ht.keys hp

/-- The date of the previous audit is that of the newest. -/
theorem Tracks.max_lastDate (ht : Tracks m h) (hne : m ≠ []) :
    (m.map (fun p => p.2.lastDate)).max? = h.head?.map Prod.fst := by
  obtain ⟨p, m', rfl⟩ := List.exists_cons_of_ne_nil hne
  rw [lastDate_of_streakOf (ht.mem List.mem_cons_self), List.max?_eq_some_iff]
  refine ⟨List.mem_cons_self, fun date hdate => ?_⟩
  obtain ⟨q, hq, rfl⟩ := List.mem_map.1 hdate
  have hsame := (lastDate_of_streakOf (ht.mem hq)).symm.trans (lastDate_of_streakOf (ht.mem List.mem_cons_self))
  exact (Option.some.inj hsame).le

theorem streakOf_cons {date : String} {classes : List String} (hc : cls ∈ classes) :
    streakOf cls ((date, classes) :: h) = some ⟨(date :: unbroken cls h).getLast (List.cons_ne_nil _ _), date,
      countDates (date :: unbroken cls h)⟩ := by
  have hcons : unbroken cls ((date, classes) :: h) = date :: unbroken cls h := by rw [unbroken_cons, if_pos hc]
  unfold streakOf
  simp only [hcons]

/-- **A class that is seen again.** -/
theorem Tracks.nextStreak (ht : Tracks m h) {date : String} {classes : List String} (hc : cls ∈ classes) :
    some (nextStreak (m.lookup cls) date (m.map (fun p => p.2.lastDate)).max?) = streakOf cls ((date, classes) :: h) := by
  rw [ht.lookup cls, streakOf_cons hc]
  cases hu : unbroken cls h with
  | nil => simp [streakOf, hu, Streaks.nextStreak, countDates]
  | cons d dates =>
    have hs : streakOf cls h = some ⟨(d :: dates).getLast (List.cons_ne_nil d dates), d, countDates (d :: dates)⟩ := by
      simp [streakOf, hu]
    have hne : m ≠ [] := by
      rintro rfl
      have hnone := ht.lookup cls
      rw [hs] at hnone
      cases hnone
    rw [hs]
    by_cases hd : d = date
    · subst hd
      simp [Streaks.nextStreak, countDates]
    · have hlast : (m.map (fun p => p.2.lastDate)).max? = some d := by
        rw [ht.max_lastDate hne, lastDate_of_streakOf hs]
      have hne' : ¬ date = d := fun heq => hd heq.symm
      simp only [Streaks.nextStreak, if_neg hd, hlast, if_true, countDates, if_neg hne']
      congr 2
      rw [Int.add_comm]

theorem lookup_map_dedup {α : Type} (f : String → α) (classes : List String) (cls : String) :
    (classes.dedup.map (fun c => (c, f c))).lookup cls = if cls ∈ classes then some (f cls) else none := by
  have hkeys : (classes.dedup.map (fun c => (c, f c))).map Prod.fst = classes.dedup := by simp [Function.comp_def]
  by_cases hc : cls ∈ classes
  · rw [if_pos hc]
    refine Py.Dict.lookup_of_mem (by rw [hkeys]; exact List.nodup_dedup _) ?_
    exact List.mem_map.2 ⟨cls, List.mem_dedup.2 hc, rfl⟩
  · rw [if_neg hc]
    exact Py.Dict.lookup_of_not_mem (by rwa [hkeys, List.mem_dedup])

/-- **An audit keeps track.** -/
theorem Tracks.update (ht : Tracks m h) (classes : List String) (date : String) :
    Tracks (updateAdvisoryStreaks m classes date (m.map (fun p => p.2.lastDate)).max?).1 ((date, classes) :: h) := by
  refine ⟨?_, fun cls => ?_⟩
  · simp only [updateAdvisoryStreaks, List.map_map]
    simpa [Function.comp_def] using List.nodup_dedup classes
  · rw [updateAdvisoryStreaks, lookup_map_dedup (fun c => Streaks.nextStreak (m.lookup c) date _)]
    by_cases hc : cls ∈ classes
    · rw [if_pos hc, ht.nextStreak hc]
    · rw [if_neg hc, streakOf, unbroken_cons, if_neg hc]

theorem Tracks.mem_escalated (ht : Tracks m h) {classes : List String} {date : String} :
    cls ∈ (updateAdvisoryStreaks m classes date (m.map (fun p => p.2.lastDate)).max?).2 ↔
      ∃ s, streakOf cls ((date, classes) :: h) = some s ∧ advisoryEscalationAudits ≤ s.consecutiveAudits := by
  have hnew := ht.update classes date
  rw [← hnew.lookup cls, updateAdvisoryStreaks]
  simp only [List.mem_mergeSort, List.mem_map, List.mem_filter, decide_eq_true_eq]
  constructor
  · rintro ⟨p, ⟨hp, hle⟩, rfl⟩
    refine ⟨p.2, ?_, hle⟩
    exact Py.Dict.lookup_of_mem hnew.keys (List.mem_map.2 hp)
  · rintro ⟨s, hs, hle⟩
    exact ⟨(cls, s), ⟨List.mem_map.1 (Py.Dict.mem_of_lookup hs), hle⟩, rfl⟩

/-! ## Runs of audits -/

variable (str) in
/-- The file holds the streaks of the history. -/
def File.Tracks (file : File) (h : List (String × List String)) : Prop := Streaks.Tracks (loadAdvisoryStreaks str file) h

/-- What an audit read holds the streaks of what it remembers. -/
theorem File.Tracks.read (ht : file.Tracks str h) (reads : Bool) :
    Streaks.Tracks (loadAdvisoryStreaks str (if reads then file else .unreadable)) (if reads then h else []) := by
  cases reads with
  | true => exact ht
  | false => exact tracks_nil

theorem File.Tracks.audit (ht : file.Tracks str h) (a : Audit) : File.Tracks str (audit isdigit str file a).1
    (if a.saves then (a.date, a.classes isdigit) :: (if a.reads then h else []) else h) := by
  by_cases hs : a.saves = true
  · have hnew : Streaks.Tracks (a.update isdigit str file).1 ((a.date, a.classes isdigit) :: (if a.reads then h else [])) :=
      (ht.read a.reads).update (a.classes isdigit) a.date
    have hfile : (Streaks.audit isdigit str file a).1 = .json (payload (a.update isdigit str file).1) := by
      simp [Streaks.audit, hs]
    rw [if_pos hs, hfile, File.Tracks, load_payload hnew.keys (fun p hp => streakOf_pos (hnew.mem hp))]
    exact hnew
  · rw [if_neg hs]
    have hfile : (Streaks.audit isdigit str file a).1 = file := by simp [Streaks.audit, hs]
    rw [hfile]
    exact ht

/-- **Over a run of audits the file holds the streaks of what it remembers.** -/
theorem tracks_afterAudits : ∀ (audits older : List Audit) {file : File}, file.Tracks str (remembered isdigit older) →
    (afterAudits isdigit str file audits).Tracks str (remembered isdigit (audits.reverse ++ older))
  | [], _, _, ht => ht
  | a :: audits, older, file, ht => by
    rw [List.reverse_cons, List.append_assoc]
    exact tracks_afterAudits audits (a :: older) (ht.audit a)

/-- **What blocks.**  After any audits, an issue of the research tier blocks exactly when this audit is at least the third
date without a break on which its class was seen, and the note gives the number of the dates; every other issue blocks at
once.  Where the streaks cannot be written, that blocks as well, and nothing is escalated. -/
theorem blocking_iff (audits : List Audit) (a : Audit) (note : Option Int) :
    (key, note) ∈ (audit isdigit str (afterAudits isdigit str .absent audits) a).2 ↔
      key ∈ a.intradayIssues ∧ classifyIssueTier isdigit key ≠ .researchDegraded ∧ note = none ∨
      a.saves = true ∧ key ∈ a.intradayIssues ∧ classifyIssueTier isdigit key = .researchDegraded ∧
        (∃ n, note = some n ∧ 3 ≤ n ∧
          n = countDates (unbroken (issueClass isdigit key) (remembered isdigit (a :: audits.reverse)))) ∨
      a.saves = false ∧ key = "audit:advisory_state:1:unwritable" ∧ note = none := by
  have htrack : (afterAudits isdigit str .absent audits).Tracks str (remembered isdigit audits.reverse) := by
    have hrun : (afterAudits isdigit str .absent audits).Tracks str (remembered isdigit (audits.reverse ++ [])) :=
      tracks_afterAudits audits [] tracks_nil
    rwa [List.append_nil] at hrun
  generalize hfile : afterAudits isdigit str .absent audits = file at htrack
  have hread := htrack.read a.reads
  by_cases hs : a.saves = true
  · have hnew : Streaks.Tracks (a.update isdigit str file).1 (remembered isdigit (a :: audits.reverse)) := by
      rw [remembered, if_pos hs]
      exact hread.update (a.classes isdigit) a.date
    have hescalated (cls : String) : cls ∈ (a.update isdigit str file).2 ↔
        ∃ s, streakOf cls (remembered isdigit (a :: audits.reverse)) = some s ∧
          advisoryEscalationAudits ≤ s.consecutiveAudits := by
      rw [remembered, if_pos hs]
      exact hread.mem_escalated
    have hnote : issueClass isdigit key ∈ (a.update isdigit str file).2 ∧
        ((a.update isdigit str file).1.lookup (issueClass isdigit key)).map AdvisoryStreak.consecutiveAudits = note ↔
        ∃ n, note = some n ∧ 3 ≤ n ∧
          n = countDates (unbroken (issueClass isdigit key) (remembered isdigit (a :: audits.reverse))) := by
      rw [hescalated, hnew.lookup]
      constructor
      · rintro ⟨⟨s, hstreak, hle⟩, rfl⟩
        rw [hstreak]
        exact ⟨s.consecutiveAudits, rfl, exists_streakOf_iff.1 ⟨s, hstreak, hle, rfl⟩⟩
      · rintro ⟨n, rfl, hn⟩
        obtain ⟨s, hstreak, hle, rfl⟩ := exists_streakOf_iff.2 hn
        exact ⟨⟨s, hstreak, hle⟩, by rw [hstreak]; rfl⟩
    have hsaved : (audit isdigit str file a).2 =
        (splitIntradayIssues isdigit a.intradayIssues).1.map (fun key => (key, none)) ++
          ((splitIntradayIssues isdigit a.intradayIssues).2.filter
            (fun key => decide (issueClass isdigit key ∈ (a.update isdigit str file).2))).map
            (fun key => (key, ((a.update isdigit str file).1.lookup (issueClass isdigit key)).map
              AdvisoryStreak.consecutiveAudits)) := by
      simp [audit, hs]
    rw [hsaved, List.mem_append, List.mem_map, List.mem_map, ← hnote]
    simp only [splitIntradayIssues, List.mem_filter, decide_eq_true_eq, Prod.mk.injEq, hs, true_and]
    constructor
    · rintro (⟨k, ⟨hk, htier⟩, rfl, rfl⟩ | ⟨k, ⟨⟨hk, htier⟩, hesc⟩, rfl, hlook⟩)
      · exact .inl ⟨hk, htier, rfl⟩
      · exact .inr (.inl ⟨hk, htier, hesc, hlook⟩)
    · rintro (⟨hk, htier, rfl⟩ | ⟨hk, htier, hesc, hlook⟩ | ⟨habs, -⟩)
      · exact .inl ⟨key, ⟨hk, htier⟩, rfl, rfl⟩
      · exact .inr ⟨key, ⟨⟨hk, htier⟩, hesc⟩, rfl, hlook⟩
      · cases habs
  · have hlost : (audit isdigit str file a).2 =
        (splitIntradayIssues isdigit a.intradayIssues).1.map (fun key => (key, none)) ++
          [("audit:advisory_state:1:unwritable", none)] := by
      simp [audit, hs]
    rw [hlost, List.mem_append, List.mem_map, List.mem_singleton]
    simp only [splitIntradayIssues, List.mem_filter, decide_eq_true_eq, Prod.mk.injEq, hs]
    constructor
    · rintro (⟨k, ⟨hk, htier⟩, rfl, rfl⟩ | ⟨rfl, rfl⟩)
      · exact .inl ⟨hk, htier, rfl⟩
      · exact .inr (.inr ⟨trivial, rfl, rfl⟩)
    · rintro (⟨hk, htier, rfl⟩ | ⟨habs, -⟩ | ⟨-, rfl, rfl⟩)
      · exact .inl ⟨key, ⟨hk, htier⟩, rfl, rfl⟩
      · cases habs
      · exact .inr ⟨rfl, rfl⟩

end Streaks
