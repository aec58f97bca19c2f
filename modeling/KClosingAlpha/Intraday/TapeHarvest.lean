import KClosingAlpha.Capture.Store
import KClosingAlpha.Intraday.Backfill
import KClosingAlpha.Intraday.Tape
import KClosingAlpha.Kiwoom.Delivered
import KClosingAlpha.Kiwoom.TickResume
/-!
# TapeHarvest — the results of one symbol's tape (`harvest_symbol_tape`)

A harvest walks the tape of a symbol, keeps what the walk that returned handed over, and gives every cell it was asked
for, a day and a session that is closed, one result.  What it emitted before it raises is dropped with the exception, as
its caller drops it.  Pages are kept as evidence while they arrive; the store's references are a parameter, and so is what
pandas makes of a text.
-/
namespace Intraday
namespace TapeHarvest

open Exc (raiseIf)
open Kiwoom (UnicodeDigits Delivery TapeDayCertificate Raised Event Page)
open Kiwoom.TickChart (eventKey)
open Py (Dict Value)

variable {Cell : Type}

/-! ## Sessions -/

structure TapeSession where
  session : String
  venue : String
  floor : String
  ceil : String
  deriving DecidableEq

/-- `TAPE_SESSIONS`. -/
def tapeSessions : List TapeSession :=
  [⟨"regular", "KRX", "090000", "153000"⟩, ⟨"krx_aftermarket", "KRX", "160000", "200000"⟩,
    ⟨"nxt_aftermarket", "NXT", "154000", "200000"⟩]

/-- An instant as Seoul writes it: its date, and its time as `HHMMSS`. -/
structure Instant where
  today : String
  hms : String

/-- `is_session_closed`. -/
def isSessionClosed (day session : String) (now : Instant) : Bool :=
  if now.today < day then false
  else
    let ready := if session = "regular" then "154000" else "200500"
    decide (day < now.today) || (decide (day = now.today) && decide (ready ≤ now.hms))

/-- `day.replace("-", "")`. -/
def compact (day : String) : String := String.ofList (day.toList.filter (· ≠ '-'))

/-- A time of day is in the session. -/
def TapeSession.covers (u : UnicodeDigits) (spec : TapeSession) (hms : String) : Bool :=
  decide (hms.toList.length = 6) && hms.toList.all u.isdigit && decide (spec.floor ≤ hms) && decide (hms ≤ spec.ceil)

/-- What `_split_session_window` keeps. -/
def sessionWindow (u : UnicodeDigits) (ymd : String) (spec : TapeSession) (rows : List Kiwoom.Row) : List Kiwoom.Row :=
  rows.filter fun r => ((eventKey r).1 == "" || (eventKey r).1 == ymd) && spec.covers u (eventKey r).2

/-! ## Frames -/

/-- What pandas makes of texts and numbers, `none` where a text is no finite number; a text is written as it is. -/
structure TickCast (pd : Pandas Cell) where
  toNumeric : String → Option Rat
  text : String → Cell
  int32 : Rat → Cell
  int64 : Rat → Cell
  na : Cell
  flag : Bool → Cell
  str_text : ∀ s, pd.str (text s) = s

/-- `_empty_tick_frame`. -/
def emptyTickFrame : Frame Cell := ⟨canonicalTickColumns, []⟩

/-- `extract_vendor_business_dates`, of one row. -/
def businessDate (r : Kiwoom.Row) : String :=
  String.ofList (((((List.lookup "cntr_tm" r).elim "nan" Value.toStr).toList).filter (· ≠ '-')).take 8)

/-- `filter_to_business_date`. -/
def filterToBusinessDate (snapshotDate : String) (rows : List Kiwoom.Row) : List Kiwoom.Row :=
  if rows.any (Dict.has · "cntr_tm") then
    rows.filter fun r => decide (businessDate r = String.ofList ((compact snapshotDate).toList.take 8))
  else rows

section frames

variable {pd : Pandas Cell} (c : TickCast pd)

/-- `to_numeric(column.astype(str), errors="coerce")`, of one row. -/
def TickCast.numeric (r : Kiwoom.Row) (column : String) : Option Rat :=
  (List.lookup column r).bind fun v => c.toNumeric v.toStr

/-- A canonical tick; a number that is missing does not become an integer. -/
def TickCast.tick (snapshotDate code : String) (r : Kiwoom.Row) : Except String (Row Cell) :=
  let hms := (List.lookup "cntr_tm" r).bind fun v => c.toNumeric (String.ofList (v.toStr.toList.drop (v.toStr.length - 6)))
  match hms, c.numeric r "cur_prc", c.numeric r "trde_qty" with
  | some hms, some price, some volume =>
    .ok [c.text snapshotDate, c.text (zfill6 code), c.int32 hms, c.int32 |price|, c.int64 |volume|, c.na, c.na, c.na,
      c.flag false, c.text "kiwoom"]
  | _, _, _ => .error "IntCastingNaNError"

/-- `normalize_tick_frame` of a Kiwoom tape, or the type name of what it raises. -/
def TickCast.normalizeTickFrame (snapshotDate code : String) (rows : List Kiwoom.Row) : Except String (Frame Cell) :=
  if rows = [] then .ok emptyTickFrame
  else
    let kept := filterToBusinessDate snapshotDate rows
    if kept = [] then .ok emptyTickFrame
    else if ["cntr_tm", "cur_prc", "trde_qty"].any (fun k => rows.all (fun r => !Dict.has r k)) then .error "ValueError"
    else (fun ticks => ⟨canonicalTickColumns, ticks⟩) <$> kept.mapM (c.tick snapshotDate code)

/-- `_strict_tape_frame`. -/
def TickCast.strictTapeFrame (day code : String) (rows : List Kiwoom.Row) : Except String (Frame Cell) :=
  if rows = [] then .ok emptyTickFrame else c.normalizeTickFrame day code rows

/-- `_has_nonpositive_tick_price`. -/
def hasNonpositiveTickPrice (pd : Pandas Cell) (frame : Frame Cell) : Bool :=
  frame.rows.any fun r => (pd.numOf frame.columns "price" r).all fun q => decide (q ≤ 0)

end frames

/-! ## One call -/

structure CollectionSettings where
  tapeMaxPages : Nat
  tapeLookbackDays : Nat
  transportRetries : Nat
  chartMaxPages : Nat
  verifiedChartRoutes : List (String × String)

/-- A try of the walk: the day its clock shows, what it is served, and the references of its pages. -/
structure TapeAttempt where
  todayYmd : String
  events : List Event
  ref : Nat → String

/-- The Unicode tables: a decimal is a digit, and a hyphen is no decimal. -/
structure Digits extends UnicodeDigits where
  isdigit_of_decimal : ∀ ch, (decimal ch).isSome → isdigit ch = true
  hyphen : decimal '-' = none

/-- A call, with what it meets: `closedNow` is the instant it starts, `today` the date once the walk has returned.
`ordinal` is `date.fromisoformat`, and `stageFragment` the reference of a staged frame, by day, session and reason. -/
structure HarvestCall (pd : Pandas Cell) where
  digits : Digits
  cast : TickCast pd
  settings : CollectionSettings
  code : String
  venue : String
  sessions : List TapeSession
  runId : String
  days : List String
  needed : Option (List (String × String))
  closedNow : Instant
  attempts : Nat → TapeAttempt
  transient : Raised → Bool
  today : String
  ordinal : String → Option Int
  stageFragment : String → String → String → Frame Cell → Except Exn String
  /-- A subset of `TAPE_SESSIONS`. -/
  known : ∀ spec ∈ sessions, spec ∈ tapeSessions
  distinct : sessions.Nodup
  dated : (ordinal today).isSome = true

/-- `TapeWalkOutcome`, with the results that were emitted. -/
structure Outcome (Cell : Type) where
  terminationReason : String
  pagesFetched : Nat
  unresolvedDays : List String
  skippedUnclosed : List (String × String)
  results : List (TapeDayResult Cell)

/-- What a harvest raises: what leaves the walk, or an exception of its own. -/
inductive Failure where
  | walk (exc : Raised)
  | exn (e : Exn)

/-- `termination_reason`. -/
def terminationValue : Kiwoom.Termination → String
  | .tapeEnd => "tape_end"
  | .crossedStopDay => "crossed_stop_day"
  | .tapeEmpty => "tape_empty"
  | .pageBudget => "page_budget"
  | .deadline => "deadline"
  | .nonprogress => "nonprogress"
  | .cursorInconsistent => "cursor_inconsistent"
  | .vendorFailure _ => "vendor_failure"

/-- `certificate.basis`. -/
def basisValue : Kiwoom.Basis → String
  | .vendorTotal => "vendor_total"
  | .bracketed => "bracketed"
  | .none => "none"

/-- The dates of a page's rows, valid or not. -/
def pageDays (u : UnicodeDigits) (p : Page) : List String :=
  let stamps := p.rows.filterMap fun r => r.map fun r => String.ofList ((Dict.getD r "cntr_tm" (.str "")).toStr.toList.take 8)
  (stamps.filter fun x => decide (x.toList.length = 8) && x.toList.all u.isdigit).map Kiwoom.dashDay

/-- Whether the observer keeps a page. -/
def isKept (wanted : List String) (pageIndex : Nat) (days : List String) : Bool :=
  days.any (fun d => decide (d ∈ wanted)) || (decide (pageIndex = 0) && days.isEmpty)

/-- `sorted(set(...))`. -/
def sortedSet {α : Type} [DecidableEq α] (le : α → α → Bool) (l : List α) : List α := l.dedup.insertionSort (fun a b => le a b)

/-- The order of pairs of texts. -/
def lePair (a b : String × String) : Bool := decide (a.1 < b.1) || (decide (a.1 = b.1) && decide (a.2 ≤ b.2))

/-- `_SYMBOL_RE.fullmatch`: ASCII letters and digits. -/
def isSymbolText (s : String) : Bool := !s.toList.isEmpty && s.toList.all fun ch => ch.isAlphanum

/-- A `CoverageEntry` of a tape, or what its validators raise. -/
def coverageEntry (code venue session : String) (status : CaptureStatus) (rows : Nat) (reason : String)
    (rawRefs : List String) : Except Exn CoverageEntry :=
  if isSymbolText code = false then .error (.value "symbol must be an alphanumeric security identifier string")
  else if Py.isBlank venue = true ∨ Py.isBlank session = true then .error (.value "coverage route must be nonempty")
  else if Capture.pathSafe venue = false ∨ Capture.pathSafe session = false then
    .error (.value "coverage route must be path-safe")
  else if hevidence : (status = .noTrades ∨ status = .notApplicable) ∧ (Py.isBlank reason = true ∨ rawRefs = []) then
    .error (.value "NO_TRADES and NOT_APPLICABLE require explicit evidence in raw_refs/reason")
  else if hvenue : venue = "UNKNOWN" ∧ status = .complete then
    .error (.value "UNKNOWN venue cannot certify a venue-specific dataset")
  else
    .ok { symbol := some code, venue, session, status, rows, reason, rawRefs
          evidence := fun hs => by
            have hor := not_and.1 hevidence hs
            rw [not_or] at hor
            exact ⟨by simpa using hor.1, hor.2⟩
          certified := fun hv hs => hvenue ⟨hv, hs⟩ }

/-- `f"{vendor_total}"`. -/
def totalText : Option Nat → String
  | none => "None"
  | some n => toString n

/-- `_call_with_transport_retry`, with `left` tries after this one; `none` while a try has not ended. -/
def callWithTransportRetry {α : Type} (transient : Raised → Bool) (invoke : Nat → Option (Except Raised α)) :
    Nat → Nat → Option (Except Raised (α × Nat))
  | left, slot =>
    match invoke slot with
    | none => none
    | some (.ok a) => some (.ok (a, slot + 1))
    | some (.error exc) =>
      match left with
      | 0 => some (.error exc)
      | left + 1 =>
        if transient exc then callWithTransportRetry transient invoke left (slot + 1) else some (.error exc)

namespace HarvestCall

variable {pd : Pandas Cell} (c : HarvestCall pd)

/-- The sessions of the venue. -/
def matched : List TapeSession := c.sessions.filter fun spec => decide (spec.venue = c.venue)

/-- `_tape_endpoint`. -/
def endpoint : String := if c.venue = "KRX" then "ka10079" else "ka10079-nx"

/-- `_verified_venue`. -/
def resolvedVenue : String := (c.settings.verifiedChartRoutes.lookup ("kiwoom:" ++ c.endpoint)).getD "UNKNOWN"

def isClosed (cell : String × String) : Bool := isSessionClosed cell.1 cell.2 c.closedNow

/-- The days of a call and the cells it is asked for: of `needed`, or all of its days. -/
def requested : Except Exn (List String × List (String × String)) :=
  let names := c.matched.map (·.session)
  match c.needed with
  | none => do
    let unique := sortedSet (fun a b => decide (a ≤ b)) c.days
    raiseIf (unique = []) (.value "days must be nonempty")
    match unique.find? (fun d => (c.ordinal d).isNone) with
    | some d => .error (.value ("invalid day: " ++ quoted d))
    | none => .ok (unique, unique.flatMap fun d => names.map fun s => (d, s))
  | some needed =>
    let normalized := sortedSet lePair needed
    match normalized.find? (fun p => (c.ordinal p.1).isNone) with
    | some p => .error (.value ("invalid needed day: " ++ quoted p.1))
    | none =>
      .ok (sortedSet (fun a b => decide (a ≤ b)) (normalized.map Prod.fst),
        normalized.filter fun p => decide (p.2 ∈ names))

/-- `needed_set`. -/
def cells (asked : List (String × String)) : List (String × String) := asked.filter c.isClosed

local instance lawfulCell : LawfulBEq (String × String) := inferInstance

/-- `_day_sessions`. -/
def daySessions (cells : List (String × String)) (day : String) : List TapeSession :=
  c.matched.filter fun spec => decide ((day, spec.session) ∈ cells)

/-! ### The walk -/

/-- The walk of an attempt. -/
def walk (oldest : String) (slot : Nat) : Except String Kiwoom.Turn :=
  Kiwoom.walkTickTape c.digits.toUnicodeDigits c.settings.chartMaxPages (c.attempts slot).todayYmd
    { code := c.code, venue := c.venue, stopBeforeDay := oldest, budget := some c.settings.tapeMaxPages, maxPages := none
      onDayComplete := some fun _ => none }
    (c.attempts slot).events

/-- `_invoke`; what `_on_day` buffered is returned with the payload. -/
def invoke (oldest : String) (wanted : List String) (slot : Nat) : Option (Except Raised (Kiwoom.Payload × List Delivery)) :=
  match c.walk oldest slot with
  | .error msg => some (.error (.exception msg))
  | .ok (.next _) => none
  | .ok (.stop w s) =>
    match w.payload s, s with
    | some payload, _ => some (.ok (payload, w.books.delivered.filter fun x => decide (x.day ∈ wanted)))
    | none, .raised exc _ => some (.error exc)
    | none, .broke _ => some (.error .base)

/-- What the observer of an attempt kept: each reference with the dates of its page. -/
def attemptRefs (oldest : String) (wanted : List String) (slot : Nat) : List (String × List String) :=
  match c.walk oldest slot with
  | .error _ => []
  | .ok t =>
    ((((c.attempts slot).events.filterMap Event.page?).take t.walk.pagesFetched).zipIdx.map fun p =>
      ((c.attempts slot).ref p.2, p.2, pageDays c.digits.toUnicodeDigits p.1)).filterMap fun p =>
        if isKept wanted p.2.1 p.2.2 then some (p.1, p.2.2) else none

/-- `page_refs` after some attempts. -/
def pageRefs (oldest : String) (wanted : List String) (slots : Nat) : List (String × List String) :=
  (List.range slots).flatMap (c.attemptRefs oldest wanted)

/-! ### One day -/

/-- The result of one session of a certified day. -/
def certifiedSession (day : String) (rows : List Kiwoom.Row) (proof : String) (vendorTotal : Option Nat)
    (rawRefs : List String) (spec : TapeSession) : Except Exn (TapeDayResult Cell) := do
  let result (status : CaptureStatus) (reason : String) (frame : Frame Cell) (refs : List String) :=
    (fun entry => (⟨c.code, day, spec.session, frame, entry⟩ : TapeDayResult Cell)) <$>
      coverageEntry c.code c.resolvedVenue spec.session status frame.rows.length reason refs
  if c.resolvedVenue = "UNKNOWN" then result .unknown "uncertified_venue" emptyTickFrame rawRefs
  else
    let kept := sessionWindow c.digits.toUnicodeDigits (compact day) spec rows
    match c.cast.strictTapeFrame day c.code kept with
    | .error name => result .part ("normalize_failure:" ++ name) emptyTickFrame rawRefs
    | .ok frame =>
      if hasNonpositiveTickPrice pd frame then
        (c.stageFragment day spec.session "nonpositive_price" frame).bind fun ref =>
          result .failed "nonpositive_price" emptyTickFrame (rawRefs ++ [ref])
      else if frame.rows ≠ [] then
        result .complete (proof ++ ":" ++ spec.session ++ "=" ++ toString kept.length ++ ":vendor_total=" ++ totalText vendorTotal)
          frame rawRefs
      else
        result .noTrades (proof ++ ":" ++ spec.session ++ "=0:vendor_total=" ++ totalText vendorTotal) emptyTickFrame rawRefs

/-- The references of a day, with the frame of its stray rows where it has one.  The rows a window keeps are copies, so
that every row of the day counts as a stray one. -/
def strayRefs (day : String) (rows : List Kiwoom.Row) (sessions : List TapeSession) (refs : List String) :
    Except Exn (List String) :=
  if rows = [] then .ok refs
  else
    match c.cast.strictTapeFrame day c.code rows with
    | .error _ => .ok refs
    | .ok frame =>
      (fun ref => refs ++ [ref]) <$> c.stageFragment day (sessions.head?.elim "" (·.session)) "out_of_window" frame

/-- `_settle_certified_day`. -/
def settleCertifiedDay (day : String) (rows : List Kiwoom.Row) (vendorTotal : Option Nat) (basis : String)
    (sessions : List TapeSession) (refs : List String) : Except Exn (List (TapeDayResult Cell)) := do
  let proof := if basis = "vendor_total" then "tape_complete" else if basis = "tape_empty" then "tape_empty" else "tape_bracketed"
  let dayRefs ← c.strayRefs day rows sessions refs
  sessions.mapM (c.certifiedSession day rows proof vendorTotal dayRefs)

/-- `_settle_uncertified_day`. -/
def settleUncertifiedDay (day : String) (status : CaptureStatus) (reason : String) (sessions : List TapeSession)
    (refs : List String) : Except Exn (List (TapeDayResult Cell)) :=
  sessions.mapM fun spec =>
    (fun entry => (⟨c.code, day, spec.session, emptyTickFrame, entry⟩ : TapeDayResult Cell)) <$>
      coverageEntry c.code c.resolvedVenue spec.session status 0 reason refs

/-- `_refs_for`. -/
def refsFor (refs : List (String × List String)) (day : String) : List String :=
  (refs.filter fun p => decide (day ∈ p.2)).map Prod.fst

/-- The pages without dates. -/
def emptyRefs (refs : List (String × List String)) : List String := (refs.filter fun p => p.2.isEmpty).map Prod.fst

/-- The evidence of a day that an empty tape certifies. -/
def emptyDayRefs (refs : List (String × List String)) (day : String) : List String :=
  refsFor refs day ++ (emptyRefs refs).filter fun r => decide (r ∉ refsFor refs day)

/-- A day that was handed over. -/
def settleDelivery (cells : List (String × String)) (refs : List (String × List String)) (x : Delivery) :
    Except Exn (List (TapeDayResult Cell)) :=
  c.settleCertifiedDay x.day x.rows x.cert.vendorTotal (basisValue x.cert.basis) (c.daySessions cells x.day) (refsFor refs x.day)

/-- The regular session of today, under an empty tape. -/
def settleEmptyRegular (day : String) (sessions : List TapeSession) (refs : List (String × List String)) :
    Except Exn (List (TapeDayResult Cell)) :=
  let regular := sessions.filter fun spec => decide (spec.session = "regular")
  if regular = [] then .ok [] else c.settleCertifiedDay day [] none "tape_empty" regular (emptyRefs refs)

/-- A day on which an empty tape is no proof for the sessions that are not regular. -/
def settleEmptyToday (day : String) (sessions : List TapeSession) (refs : List (String × List String)) :
    Except Exn (List (TapeDayResult Cell)) := do
  let late ← c.settleUncertifiedDay day .part "tape_total_mismatch:received=0:total=None"
    (sessions.filter fun spec => decide (spec.session ≠ "regular")) (emptyRefs refs)
  let early ← c.settleEmptyRegular day sessions refs
  .ok (late ++ early)

/-- A day that was not handed over, and whether it is settled all the same. -/
def settleRemaining (payload : Kiwoom.Payload) (cells : List (String × String)) (refs : List (String × List String))
    (day : String) : Except Exn (Bool × List (TapeDayResult Cell)) := do
  let sessions := c.daySessions cells day
  let unsettled (r : Except Exn (List (TapeDayResult Cell))) : Except Exn (Bool × List (TapeDayResult Cell)) := (false, ·) <$> r
  match (payload.certificates.filter fun cert => decide (cert.day = day)).getLast? with
  | some cert =>
    unsettled (c.settleUncertifiedDay day .part ("tape_total_mismatch:received=" ++ toString cert.received ++ ":total=" ++
      totalText cert.vendorTotal) sessions (refsFor refs day))
  | none =>
    if payload.terminationReason = .tapeEmpty then
      if day = c.today ∧ sessions.any (fun spec => decide (spec.session ≠ "regular")) = true then
        unsettled (c.settleEmptyToday day sessions refs)
      else if c.resolvedVenue = "UNKNOWN" then
        unsettled (c.settleCertifiedDay day [] none "tape_empty" sessions (emptyDayRefs refs day))
      else
        match c.ordinal c.today, c.ordinal day with
        | some now, some date =>
          if now - date ≤ c.settings.tapeLookbackDays then
            (true, ·) <$> c.settleCertifiedDay day [] none "tape_empty" sessions (emptyDayRefs refs day)
          else unsettled (c.settleUncertifiedDay day .unknown "day_not_on_tape" sessions [])
        | _, _ => .error (.value ("Invalid isoformat string: " ++ quoted day))
    else if payload.terminationReason = .tapeEnd ∨ payload.terminationReason = .crossedStopDay then
      unsettled (c.settleUncertifiedDay day .unknown "day_not_on_tape" sessions [])
    else
      unsettled (c.settleUncertifiedDay day .part ("walk_incomplete:" ++ terminationValue payload.terminationReason) sessions [])

/-! ### The harvest -/

/-- What a walk that returned settles. -/
def settle (wanted : List String) (asked : List (String × String)) (payload : Kiwoom.Payload) (deliveries : List Delivery)
    (refs : List (String × List String)) : Except Exn (Outcome Cell) := do
  let cells := c.cells asked
  let handed := deliveries.filter fun x => !(c.daySessions cells x.day).isEmpty
  let certified ← handed.mapM (c.settleDelivery cells refs)
  let settled : List String := handed.map (·.day)
  let remaining := wanted.reverse.filter fun d => decide (d ∉ settled) && !(c.daySessions cells d).isEmpty
  let others ← remaining.mapM fun d => (d, ·) <$> c.settleRemaining payload cells refs d
  let late := (others.filter (·.2.1)).map Prod.fst
  .ok {
    terminationReason := terminationValue payload.terminationReason
    pagesFetched := payload.pagesFetched
    unresolvedDays := wanted.filter fun d =>
      decide (d ∉ settled) && decide (d ∉ late) && !(c.daySessions cells d).isEmpty
    skippedUnclosed := sortedSet lePair (asked.filter fun cell => !c.isClosed cell)
    results := certified.flatten ++ others.flatMap (·.2.2) }

/-- `harvest_symbol_tape`; `none` while a walk has not ended. -/
def harvestSymbolTape : Option (Except Failure (Outcome Cell)) :=
  if c.venue ≠ "KRX" ∧ c.venue ≠ "NXT" then some (.error (.exn (.value ("unknown tape venue: " ++ quoted c.venue))))
  else if Py.isBlank c.runId = true then some (.error (.exn (.value "run_id must be nonempty")))
  else
    match c.requested with
    | .error e => some (.error (.exn e))
    | .ok (wanted, asked) =>
      if c.cells asked = [] then
        some (.ok ⟨"tape_end", 0, [], sortedSet lePair (asked.filter fun cell => !c.isClosed cell), []⟩)
      else
        -- the days are sorted
        let oldest := wanted.head?.getD ""
        (callWithTransportRetry c.transient (c.invoke oldest wanted) c.settings.transportRetries 0).map fun r =>
          match r with
          | .error exc => .error (.walk exc)
          | .ok ((payload, deliveries), slots) =>
            (c.settle wanted asked payload deliveries (c.pageRefs oldest wanted slots)).mapError .exn

end HarvestCall

end TapeHarvest
end Intraday
