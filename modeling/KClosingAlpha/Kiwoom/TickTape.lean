import KClosingAlpha.Order.Contract
import KClosingAlpha.Lib.Newest
import Mathlib.Data.String.Basic
import Mathlib.Logic.Function.Basic
/-!
# TickTape — walking a newest-first tick tape page by page (`api/kiwoom/client.py`)

One turn of the walk asks for a page, buffers its rows by date, checks the page against the vendor's cursor, and then
certifies the dates that are behind it.  A page, a failure of the request or of an observer, and a deadline that has
passed are the events of a walk.  Logging is left out, and so are the session and the request itself.
-/
namespace Kiwoom

open Py (Value Dict)

/-! ## Texts -/

/-- The digits of the runtime's Unicode tables: `str.isdigit`, and the value of what `\d` matches. -/
structure UnicodeDigits where
  isdigit : Char → Bool
  decimal : Char → Option Nat

/-- The tables on ASCII. -/
def asciiDigits : UnicodeDigits where
  isdigit := Char.isDigit
  decimal c := if c.isDigit then some (c.toNat - 48) else none

section

variable (u : UnicodeDigits)

def decimalValue (cs : List Char) : Option Nat := cs.foldlM (fun n c => (u.decimal c).map (10 * n + ·)) 0

/-- `int(text)` on digits; the runtime converts at most 4300 of them. -/
def intOfDigits (cs : List Char) : Except String Nat :=
  if 4300 < cs.length then
    .error ("Exceeds the limit (4300 digits) for integer string conversion: value has " ++ toString cs.length ++
      " digits; use sys.set_int_max_str_digits() to increase the limit")
  else
    match decimalValue u cs with
    | some n => .ok n
    | none => .error ("invalid literal for int() with base 10: '" ++ String.ofList cs ++ "'")

/-- One to nine. -/
def isNonzeroDigit (c : Char) : Bool := decide ('1' ≤ c) && decide (c ≤ '9')

/-- The value of an ASCII digit. -/
def asciiValue (c : Char) : Nat := c.toNat - 48

/-- `1[0-2]|0[1-9]|[1-9]`, with what each alternative leaves. -/
def monthMatches : List Char → List (Nat × List Char)
  | '1' :: c :: cs => (if c = '0' ∨ c = '1' ∨ c = '2' then [(10 + asciiValue c, cs)] else []) ++ [(1, c :: cs)]
  | '0' :: c :: cs => if isNonzeroDigit c then [(asciiValue c, cs)] else []
  | c :: cs => if isNonzeroDigit c then [(asciiValue c, cs)] else []
  | [] => []

/-- `3[0-1]|[1-2]\d|0[1-9]|[1-9]| [1-9]`, with what each alternative leaves. -/
def dayMatches : List Char → List (Nat × List Char)
  | '3' :: c :: cs => (if c = '0' ∨ c = '1' then [(30 + asciiValue c, cs)] else []) ++ [(3, c :: cs)]
  | '1' :: c :: cs => ((u.decimal c).elim [] fun n => [(10 + n, cs)]) ++ [(1, c :: cs)]
  | '2' :: c :: cs => ((u.decimal c).elim [] fun n => [(20 + n, cs)]) ++ [(2, c :: cs)]
  | '0' :: c :: cs | ' ' :: c :: cs => if isNonzeroDigit c then [(asciiValue c, cs)] else []
  | c :: cs => if isNonzeroDigit c then [(asciiValue c, cs)] else []
  | [] => []

/-- Whether `datetime.strptime(text, "%Y%m%d")` returns: the first match of the format takes the whole text, and it is a
date. -/
def isYmd (cs : List Char) : Bool :=
  match decimalValue u (cs.take 4), ((monthMatches (cs.drop 4)).flatMap fun m =>
      (dayMatches u m.2).map fun d => (m.1, d.1, d.2)).head? with
  | some year, some (month, day, []) =>
    decide (1 ≤ year) && decide (day ≤ Order.daysInMonth year month)
  | _, _ => false

/-- `validate_target_ymd`. -/
def validateTargetYmd (targetDate : String) : Except String String :=
  let ymd := targetDate.toList.filter (· ≠ '-')
  if isYmd u ymd then .ok (String.ofList ymd) else .error ("invalid target date: '" ++ targetDate ++ "'")

/-- `_parse_tape_key`; `int` may raise on a text `isdigit` accepts. -/
def parseTapeKey (nextKey baseCode : String) : Except String (Option (String × Nat)) :=
  let key := nextKey.toList
  let head := 'A' :: baseCode.toList
  if head.isPrefixOf key then
    let rest := key.drop head.length
    if rest.length < 9 ∨ (rest.take 8).all u.isdigit = false ∨ (rest.drop 8).all u.isdigit = false then .ok none
    else if isYmd u (rest.take 8) then
      (intOfDigits u (rest.drop 8)).map fun remaining => some (String.ofList (rest.take 8), remaining)
    else .ok none
  else .ok none

end

/-- `_dash_day`. -/
def dashDay (ymd : String) : String :=
  String.ofList (ymd.toList.take 4 ++ '-' :: ((ymd.toList.drop 4).take 2 ++ '-' :: (ymd.toList.drop 6).take 2))

/-! ## Pages -/

/-- A row of the tape. -/
abbrev Row := Dict Value

namespace Row

/-- `str(r.get("cntr_tm", "") or "")`. -/
def cntrTm (r : Row) : String :=
  let v := Dict.getD r "cntr_tm" (.str "")
  if v.truthy then v.toStr else ""

/-- The date of a row. -/
def ymd (r : Row) : String := String.ofList ((cntrTm r).toList.take 8)

end Row

/-- `_CNTR_TM_RE.fullmatch`. -/
def isCntrTm (u : UnicodeDigits) (s : String) : Bool :=
  decide (s.toList.length = 14) && s.toList.all fun c => (u.decimal c).isSome

/-- A vendor's answer: two headers and a body.  An item of the rows that is no dictionary is `none`. -/
structure Page where
  contYn : Option String
  nextKey : Option String
  returnCode : Option Int
  returnMsg : String
  rows : List (Option Row)

namespace Page

variable (u : UnicodeDigits) (p : Page)

def headerCont : String := let s := p.contYn.getD "N"; if s = "" then "N" else s

def headerKey : String := p.nextKey.getD ""

def accepted : Bool := p.returnCode == some 0

def validRows : List Row := p.rows.filterMap (fun r => r.filter (fun r => isCntrTm u (Row.cntrTm r)))

def malformed : Bool := p.rows.any (fun r => !r.any (fun r => isCntrTm u (Row.cntrTm r)))

/-- What two pages share when the vendor made no progress. -/
def identity : String × String × List String := (p.headerCont, p.headerKey, (p.validRows u).map Row.cntrTm)

/-- Whether the oldest row belongs to a date before the one to stop at. -/
def crosses (stopYmd : String) : Bool := (p.validRows u).getLast?.any (fun r => decide (Row.ymd r < stopYmd))

end Page

/-! ## Certificates -/

inductive Basis where
  | vendorTotal
  | bracketed
  | none
  deriving DecidableEq

structure TapeDayCertificate where
  day : String
  received : Nat
  vendorTotal : Option Nat
  complete : Bool
  basis : Basis
  deriving DecidableEq

/-- A call of `on_day_complete`. -/
structure Delivery where
  day : String
  rows : List Row
  cert : TapeDayCertificate
  deriving DecidableEq

/-- What a request or a callback raises. -/
inductive Raised where
  | timeout
  | exception (msg : String)
  | base
  deriving DecidableEq

/-- The records a walk keeps by date, with the calls of `on_day_complete` so far. -/
structure Books where
  dayOrder : List String
  received : String → Nat
  vendorTotals : String → Option Nat
  buffers : String → Option (List Row)
  certs : String → Option TapeDayCertificate
  certifiedOrder : List String
  delivered : List Delivery

structure WalkConfig where
  requestCode : String
  stopYmd : String
  pageBudget : Nat
  todayYmd : String
  /-- What the callback raises at its last call, when there is a callback. -/
  onDayComplete : Option (List Delivery → Option Raised)

namespace Books

def empty : Books := ⟨[], fun _ => 0, fun _ => none, fun _ => none, fun _ => none, [], []⟩

/-- The dates that have no certificate yet. -/
def pending (b : Books) : List String := b.dayOrder.filter (fun d => (b.certs d).isNone)

/-- A row joins the buffer of its date. -/
def absorbRow (b : Books) (r : Row) : Books :=
  let ymd := Row.ymd r
  let b := if (b.buffers ymd).isSome then b else
    { b with
      buffers := Function.update b.buffers ymd (some [])
      dayOrder := b.dayOrder ++ [ymd]
      received := Function.update b.received ymd 0 }
  { b with
    buffers := Function.update b.buffers ymd ((b.buffers ymd).map (· ++ [r]))
    received := Function.update b.received ymd (b.received ymd + 1) }

def absorb (b : Books) (rows : List Row) : Books := rows.foldl absorbRow b

/-- The vendor's total of a date, as the rows received and the rest a key tells of; a second one has to agree. -/
def noteTotal (b : Books) : Option (String × Nat) → Option Books
  | none => some b
  | some (ymd, remaining) =>
    let candidate := b.received ymd + remaining
    match b.vendorTotals ymd with
    | some total => if candidate = total then some b else none
    | none => some { b with vendorTotals := Function.update b.vendorTotals ymd (some candidate) }

/-- The certificate `_certify` writes. -/
def certificate (cfg : WalkConfig) (b : Books) (ymd : String) (olderSeen : Bool) : TapeDayCertificate :=
  match b.vendorTotals ymd with
  | some total =>
    let ok := decide (b.received ymd + 1 = total)
    ⟨dashDay ymd, b.received ymd, some total, ok, if ok then .vendorTotal else .none⟩
  | none =>
    let newerSeen := decide (0 < b.dayOrder.idxOf ymd) || decide (ymd < cfg.todayYmd)
    let ok := newerSeen && olderSeen
    ⟨dashDay ymd, b.received ymd, none, ok, if ok then .bracketed else .none⟩

/-- The date gets its certificate and its buffer is dropped. -/
def record (b : Books) (ymd : String) (cert : TapeDayCertificate) : Books :=
  { b with
    certs := Function.update b.certs ymd (some cert)
    certifiedOrder := b.certifiedOrder ++ [ymd]
    buffers := Function.update b.buffers ymd none }

/-- `_certify`, with what the callback raises. -/
def certify (cfg : WalkConfig) (b : Books) (ymd : String) (olderSeen : Bool) : Books × Option Raised :=
  let cert := b.certificate cfg ymd olderSeen
  let rows := (b.buffers ymd).getD []
  let b := b.record ymd cert
  match cfg.onDayComplete with
  | none => (b, none)
  | some onDayComplete =>
    if cert.complete then
      let delivered := b.delivered ++ [⟨cert.day, rows, cert⟩]
      ({ b with delivered }, onDayComplete delivered)
    else (b, none)

/-- `_certify` of one date after another, until the callback raises. -/
def certifyEach (cfg : WalkConfig) (b : Books) : List (String × Bool) → Books × Option Raised
  | [] => (b, none)
  | (ymd, olderSeen) :: rest =>
    match b.certify cfg ymd olderSeen with
    | (b, some exc) => (b, some exc)
    | (b, none) => b.certifyEach cfg rest

/-- The dates left at the end of the tape; nothing older than the last was seen. -/
def unsettled (b : Books) : List (String × Bool) :=
  b.pending.map (fun d => (d, decide (b.pending.getLast? ≠ some d)))

/-- The dates an older one was seen of. -/
def settled (b : Books) : List (String × Bool) := b.pending.dropLast.map (fun d => (d, true))

/-- The certificates a walk returns. -/
def certificates (b : Books) : List TapeDayCertificate :=
  b.certifiedOrder.filterMap b.certs ++
    b.pending.map (fun d => ⟨dashDay d, b.received d, b.vendorTotals d, false, .none⟩)

end Books

/-! ## The walk -/

structure Walk where
  books : Books
  contYn : String
  nextKey : String
  metadata : Option (String × String)
  pageIndex : Nat
  pagesFetched : Nat
  prevIdentity : Option (String × String × List String)
  stalls : Nat

inductive Termination where
  | tapeEnd
  | crossedStopDay
  | tapeEmpty
  | pageBudget
  | deadline
  | nonprogress
  | cursorInconsistent
  | vendorFailure (returnMsg : String)
  deriving DecidableEq

def Termination.truncated : Termination → Bool
  | tapeEnd | crossedStopDay | tapeEmpty => false
  | pageBudget | deadline | nonprogress | cursorInconsistent | vendorFailure _ => true

/-- What ends the loop: a `break`, or an exception, raised by the page observer or elsewhere. -/
inductive Stop where
  | broke (termination : Termination)
  | raised (exc : Raised) (inObserver : Bool)
  deriving DecidableEq

inductive Event where
  /-- No time is left before the request. -/
  | expired
  /-- The request raises. -/
  | raises (exc : Raised)
  /-- A page arrives; `observer` is what `on_page` raises on it. -/
  | response (page : Page) (observer : Option Raised)

/-- Where an iteration leaves the walk: before its next page, or out of the loop. -/
inductive Turn where
  | next (w : Walk)
  | stop (w : Walk) (s : Stop)

namespace Walk

def start : Walk := ⟨.empty, "N", "", none, 0, 0, none, 0⟩

/-- `stalls` counts the pages in a row that are no news. -/
def noteIdentity (w : Walk) (identity : String × String × List String) : Walk :=
  if some identity = w.prevIdentity then { w with stalls := w.stalls + 1 }
  else { w with stalls := 0, prevIdentity := some identity }

variable (u : UnicodeDigits) (cfg : WalkConfig)

/-- The end of an iteration whose page passed its checks: dates are certified, and the walk goes on or ends. -/
def settle (w : Walk) (p : Page) : Turn :=
  if p.headerCont ≠ "Y" then
    match w.books.certifyEach cfg w.books.unsettled with
    | (books, some exc) => .stop { w with books } (.raised exc false)
    | (books, none) => .stop { w with books } (.broke .tapeEnd)
  else if p.headerKey = "" then .stop w (.broke .cursorInconsistent)
  else
    match w.books.certifyEach cfg w.books.settled with
    | (books, some exc) => .stop { w with books } (.raised exc false)
    | (books, none) =>
      let w := { w with books }
      if p.crosses u cfg.stopYmd then .stop w (.broke .crossedStopDay)
      else .next { w with contYn := p.headerCont, nextKey := p.headerKey }

/-- The checks of a page against the vendor's cursor. -/
def check (w : Walk) (p : Page) : Turn :=
  if w.pageIndex = 0 ∧ p.validRows u = [] ∧ p.headerCont ≠ "Y" then .stop w (.broke .tapeEmpty)
  else if p.malformed u then .stop w (.broke .cursorInconsistent)
  else
    match if p.headerKey = "" then .ok none else parseTapeKey u p.headerKey cfg.requestCode with
    | .error msg => .stop w (.raised (.exception msg) false)
    | .ok parsed =>
      match w.books.noteTotal parsed with
      | none => .stop w (.broke .cursorInconsistent)
      | some books =>
        let w := { w with books }.noteIdentity (p.identity u)
        if 2 ≤ w.stalls then .stop w (.broke .nonprogress) else w.settle u cfg p

/-- A page arrives and is not refused by the observer: its rows are buffered before anything else is checked. -/
def receive (w : Walk) (p : Page) : Turn :=
  let w := { w with pagesFetched := w.pagesFetched + 1 }
  if p.accepted then { w with books := w.books.absorb (p.validRows u) }.check u cfg p
  else .stop w (.broke (.vendorFailure p.returnMsg))

/-- One iteration of the loop. -/
def turn (w : Walk) : Event → Turn
  | .expired => .stop w (.broke .deadline)
  | .raises exc => .stop w (.raised exc false)
  | .response p observer =>
    let w := { w with metadata := some (p.headerCont, p.headerKey) }
    match observer with
    | some exc => .stop w (.raised exc true)
    | none => w.receive u cfg p

/-- An iteration, and the page budget after it. -/
def step (w : Walk) (e : Event) : Turn :=
  match w.turn u cfg e with
  | .stop w s => .stop w s
  | .next w =>
    let w := { w with pageIndex := w.pageIndex + 1 }
    if max 1 cfg.pageBudget ≤ w.pageIndex then .stop w (.broke .pageBudget) else .next w

/-- The walk over the events so far. -/
def run (w : Walk) : List Event → Turn
  | [] => .next w
  | e :: es =>
    match w.step u cfg e with
    | .next w => w.run es
    | .stop w s => .stop w s

end Walk

/-! ## What the walk returns -/

structure Payload where
  rtCd : String
  msg1 : Option String
  truncated : Bool
  terminationReason : Termination
  pagesFetched : Nat
  continuation : Option (String × String)
  certificates : List TapeDayCertificate

/-- The payload of a walk that ends; `rt_cd` and `msg1` tell a vendor failure. -/
def Walk.ended (w : Walk) (t : Termination) : Payload where
  rtCd := match t with | .vendorFailure _ => "1" | _ => "0"
  msg1 := match t with | .vendorFailure msg => some msg | _ => none
  truncated := t.truncated
  terminationReason := t
  pagesFetched := w.pagesFetched
  continuation := w.metadata
  certificates := w.books.certificates

/-- The returned payload; `none` when the exception leaves the function. -/
def Walk.payload (w : Walk) : Stop → Option Payload
  | .broke t => some (w.ended t)
  | .raised .timeout _ => some (w.ended .deadline)
  | .raised (.exception msg) false => some (w.ended (.vendorFailure msg))
  | .raised (.exception _) true | .raised .base _ => none

structure WalkArgs where
  code : String
  venue : String
  stopBeforeDay : String
  /-- `budget.max_pages`. -/
  budget : Option Int
  maxPages : Option Int
  onDayComplete : Option (List Delivery → Option Raised)

/-- The bounds and the addressed symbol of a walk, or the text of its `ValueError`. -/
def WalkArgs.config (u : UnicodeDigits) (chartMaxPages : Int) (todayYmd : String) (a : WalkArgs) :
    Except String WalkConfig := do
  let stopYmd ← validateTargetYmd u a.stopBeforeDay
  if a.venue ≠ "KRX" ∧ a.venue ≠ "NXT" then
    throw ("unknown tick venue: '" ++ a.venue ++ "'")
  if a.maxPages.isSome ∧ a.budget.isSome ∧ a.maxPages ≠ a.budget then
    throw "conflicting tick acquisition limits"
  if a.maxPages.any (fun n => decide (n ≤ 0)) then
    throw "invalid tick acquisition limits"
  let pages := (a.budget <|> a.maxPages).getD chartMaxPages
  let baseCode := String.ofList (a.code.toList.takeWhile (· ≠ '_'))
  return {
    requestCode := if a.venue = "KRX" then a.code else baseCode ++ "_NX"
    stopYmd
    pageBudget := (max 1 pages).toNat
    todayYmd
    onDayComplete := a.onDayComplete }

/-- `walk_tick_tape` while its events arrive. -/
def walkTickTape (u : UnicodeDigits) (chartMaxPages : Int) (todayYmd : String) (a : WalkArgs) (events : List Event) :
    Except String Turn :=
  (a.config u chartMaxPages todayYmd).map fun cfg => Walk.start.run u cfg events

end Kiwoom
