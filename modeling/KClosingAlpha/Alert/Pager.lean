import KClosingAlpha.Py.Value
import KClosingAlpha.Lib.Exc
import Mathlib.Data.List.Sort
/-!
# Pager — one mail an incident and KST day (`incident_pager`, `alert_policy`)

The ledger is read, rolled over to the day, changed and written under its lock, and what is mailed is mailed after; a
ledger that cannot be locked, read or written fails toward paging.  The texts of the mails, the log lines and the
silent records are left out.
-/
namespace Alert

/-! ## Time, in microseconds of the epoch -/

def kstDaySpan : Int := 86400 * 1000000

def kstOffset : Int := 9 * 3600 * 1000000

/-- `_kst_day`, whose ISO form has the order of the days. -/
def kstDay (t : Int) : Int := (t + kstOffset) / kstDaySpan

/-- `now.astimezone(ALERT_POLICY_TZ).time()`. -/
def kstTime (t : Int) : Int := (t + kstOffset) % kstDaySpan

theorem kstDay_mono {s t : Int} (h : s ≤ t) : kstDay s ≤ kstDay t := by
  unfold kstDay kstDaySpan
  omega

/-! ## The policy -/

inductive IncidentKind where
  | orderEntry
  | orderExit
  | orderReconcileEntry
  | orderReconcileExit
  | collect
  | predict
  | finalizeClose
  | pricePanelStale
  | kisTokenWarmup
  | kisTokenStale
  | backupFailing
  | krxDeferredRecreate
  | ksePageUndelivered
  deriving DecidableEq

def IncidentKind.value : IncidentKind → String
  | orderEntry => "order_entry"
  | orderExit => "order_exit"
  | orderReconcileEntry => "order_reconcile_entry"
  | orderReconcileExit => "order_reconcile_exit"
  | collect => "collect"
  | predict => "predict"
  | finalizeClose => "finalize_close"
  | pricePanelStale => "price_panel_stale"
  | kisTokenWarmup => "kis_token_warmup"
  | kisTokenStale => "kis_token_stale"
  | backupFailing => "backup_failing"
  | krxDeferredRecreate => "krx_deferred_recreate"
  | ksePageUndelivered => "kse_page_undelivered"

theorem IncidentKind.value_inj {k k' : IncidentKind} : k.value = k'.value ↔ k = k' := by
  constructor
  · intro h
    cases k <;> cases k' <;> first | rfl | exact absurd h (by decide)
  · exact fun h => congrArg value h

/-- `SourceScope`. -/
inductive SourceScope where
  | opened
  | day
  deriving DecidableEq

structure AlertPolicyConfig where
  backupPageAfter : Int
  kisTokenPageLead : Int
  decisionWindowStart : Int
  reminderEarliest : Int

def defaultAlertPolicy : AlertPolicyConfig where
  backupPageAfter := 24 * 3600 * 1000000
  kisTokenPageLead := 2 * 3600 * 1000000
  decisionWindowStart := (15 * 3600 + 20 * 60) * 1000000
  reminderEarliest := 8 * 3600 * 1000000

/-! ## The ledger -/

structure Source where
  kind : IncidentKind
  scope : SourceScope
  firstSeen : Int
  day : Int
  deriving DecidableEq

structure PageRecord where
  day : Int
  sentAt : Int
  deriving DecidableEq

/-- The pages are keyed by the values of their kinds. -/
structure Ledger where
  sources : Py.Dict Source
  pages : Py.Dict PageRecord
  deriving DecidableEq

inductive File where
  | absent
  | unreadable
  | ledger (l : Ledger)
  deriving DecidableEq

/-- What a call meets at the lock and at the write. -/
structure Access where
  locks : Bool
  saves : Bool
  deriving DecidableEq

def Access.fine : Access := ⟨true, true⟩

/-- `OSError` and `ValueError`. -/
inductive Exn where
  | os
  | value
  deriving DecidableEq

/-- `_load`. -/
def File.load : File → Except Exn Ledger
  | absent => .ok ⟨[], []⟩
  | unreadable => .error .value
  | ledger l => .ok l

def Ledger.liveKinds (l : Ledger) : List String := l.sources.map (fun p => p.2.kind.value)

/-- `_rollover`. -/
def Ledger.rollover (l : Ledger) (today : Int) : Ledger :=
  let sources := l.sources.filter (fun p => !(decide (p.2.scope = .day) && decide (p.2.day < today)))
  let live := sources.map (fun p => p.2.kind.value)
  ⟨sources, l.pages.filter (fun p => decide (p.1 ∈ live))⟩

/-- `_mutate`. -/
def mutate {α : Type} (io : Access) (file : File) (now : Int) (change : Ledger → Int → Ledger × α) :
    Except Exn (File × α) := do
  Exc.raiseIf (io.locks = false) .os
  let l ← file.load
  let (l', result) := change (l.rollover (kstDay now)) (kstDay now)
  Exc.raiseIf (io.saves = false) .os
  .ok (.ledger l', result)

/-! ## The calls -/

inductive PageDecision where
  | sent
  | deduped
  | reminderWait
  deriving DecidableEq

/-- A mail and when it is sent. -/
inductive Mail where
  | page (kind : IncidentKind) (autoAction : Option String) (at' : Int)
  | resolved (kind : IncidentKind) (at' : Int)
  deriving DecidableEq

/-- `ledger.sources.setdefault(source, …)` with its day set. -/
def Ledger.attach (l : Ledger) (kind : IncidentKind) (source : String) (scope : SourceScope) (now : Int) (today : Int) :
    Ledger × Source :=
  let entry := (l.sources.lookup source).getD ⟨kind, scope, now, today⟩
  ({ l with sources := l.sources.set source { entry with day := today } }, { entry with day := today })

/-- The file after, and the first sighting. -/
def observe (io : Access) (file : File) (kind : IncidentKind) (source : String) (scope : SourceScope) (now : Int) :
    File × Int :=
  match mutate io file now (fun l today =>
      let (l', entry) := l.attach kind source scope now today
      (l', entry.firstSeen)) with
  | .ok result => result
  | .error _ => (file, now)

/-- `_change` of a page. -/
def Ledger.page (cfg : AlertPolicyConfig) (kind : IncidentKind) (source : String) (scope : SourceScope) (now : Int)
    (l : Ledger) (today : Int) : Ledger × PageDecision :=
  let (l', _) := l.attach kind source scope now today
  match l'.pages.lookup kind.value with
  | some previous =>
    if previous.day = today then (l', .deduped)
    else if kstTime now < cfg.reminderEarliest then (l', .reminderWait)
    else ({ l' with pages := l'.pages.set kind.value ⟨today, now⟩ }, .sent)
  | none => ({ l' with pages := l'.pages.set kind.value ⟨today, now⟩ }, .sent)

/-- The file after, the decision and what is mailed. -/
def page (cfg : AlertPolicyConfig) (io : Access) (file : File) (kind : IncidentKind) (source : String) (scope : SourceScope)
    (now : Int) (autoAction : Option String) : File × PageDecision × List Mail :=
  let (file', decision) :=
    match mutate io file now (fun l today => l.page cfg kind source scope now today) with
    | .ok result => result
    | .error _ => (file, PageDecision.sent)
  (file', decision, if decision = .sent then [.page kind autoAction now] else [])

/-- `_change` of a resolution. -/
def Ledger.resolve (wanted : List String) (l : Ledger) : Ledger × List IncidentKind :=
  let touched := ((l.sources.filter (fun p => decide (p.1 ∈ wanted))).map (fun p => p.2.kind)).dedup
  let sources := l.sources.filter (fun p => !decide (p.1 ∈ wanted))
  let live := sources.map (fun p => p.2.kind.value)
  let done := (touched.filter (fun (kind : IncidentKind) => !decide (kind.value ∈ live) && l.pages.has kind.value)).insertionSort
    (fun a b => a.value ≤ b.value)
  (⟨sources, l.pages.filter (fun p => !decide (p.1 ∈ done.map IncidentKind.value))⟩, done)

/-- The file after, the kinds resolved and what is mailed. -/
def resolve (io : Access) (file : File) (sources : List String) (now : Int) : File × List IncidentKind × List Mail :=
  if sources.isEmpty then (file, [], [])
  else if file = .absent then (file, [], [])
  else
    match mutate io file now (fun l _ => l.resolve sources) with
    | .ok (file', kinds) => (file', kinds, kinds.map (fun kind => .resolved kind now))
    | .error _ => (file, [], [])

/-- The sources under the prefixes that are no longer open. -/
def Ledger.gone (l : Ledger) (openKeys measuredPrefixes : List String) : List String :=
  (l.sources.filter (fun p => decide (p.2.scope = .opened) &&
    measuredPrefixes.any (fun lead => lead.toList.isPrefixOf p.1.toList) && !decide (p.1 ∈ openKeys))).map Prod.fst

/-- What is resolved is read before the lock is taken, where the file was `seen`. -/
def resolveAbsent (io : Access) (seen file : File) (openKeys measuredPrefixes : List String) (now : Int) :
    File × List IncidentKind × List Mail :=
  match seen.load with
  | .ok l => resolve io file (l.gone openKeys measuredPrefixes) now
  | .error _ => (file, [], [])

end Alert
