import KClosingAlpha.Kiwoom.TickTape
/-!
# TickChart — one symbol's ticks in calls that continue each other (`KiwoomApiClient.get_tick_chart`)

A call asks for pages until one of them ends the pagination, its page budget is used up or its deadline passes; then its
cursor, with the rows received and the vendor's total so far, starts the next call.  The vendor is a function of the
headers of a request, so the pages of a pagination are a sequence, and what a page does to the tally (`judge`) does not
depend on the call it falls into.
-/
namespace Kiwoom
namespace TickChart

open Py (Value Dict)

/-! ## Queries and budgets -/

structure TickCursor where
  nextKey : String
  rowsReceived : Nat
  totalTicks : Option Nat
  deriving DecidableEq

/-- What a call reads of its validated arguments. -/
structure Query where
  baseCode : String
  ymd : String
  floorHms : Option String

section arguments

variable (u : UnicodeDigits)

/-- `str(code).split("_")[0]`. -/
def baseCodeOf (code : String) : String := String.ofList (code.toList.takeWhile (· ≠ '_'))

/-- The checks of the arguments, in their order, up to the budget. -/
def Query.make (code targetDate venue : String) (floorHms : Option String) : Except String Query := do
  let ymd ← validateTargetYmd u targetDate
  if venue ≠ "KRX" ∧ venue ≠ "NXT" then .error ("unknown tick venue: '" ++ venue ++ "'")
  else
    match floorHms with
    | some floor =>
      if floor.toList.length ≠ 6 ∨ floor.toList.all u.isdigit = false then .error ("invalid floor_hms: '" ++ floor ++ "'")
      else .ok ⟨baseCodeOf code, ymd, some floor⟩
    | none => .ok ⟨baseCodeOf code, ymd, none⟩

/-- The page budget, from `max_pages`, the pages of `budget` and the configured default. -/
def resolvePages (maxPages budgetPages : Option Int) (defaultPages : Int) : Except String Nat :=
  if maxPages.any (fun m => budgetPages.any (fun b => decide (m ≠ b))) then .error "conflicting tick acquisition limits"
  else if maxPages.any (fun m => decide (m ≤ 0)) then .error "invalid tick acquisition limits"
  else .ok (max 1 ((budgetPages.or maxPages).getD defaultPages)).toNat

/-- `_parse_tick_remaining`; `int` may raise on a text `isdigit` accepts. -/
def parseTickRemaining (nextKey : String) (q : Query) : Except String (Option Nat) :=
  let head := 'A' :: (q.baseCode.toList ++ q.ymd.toList)
  let tail := if head.isPrefixOf nextKey.toList then nextKey.toList.drop head.length else []
  if tail ≠ [] ∧ tail.all u.isdigit then (intOfDigits u tail).map some else .ok none

end arguments

/-! ## A page -/

/-- `str(r.get("cntr_tm", ""))`. -/
def cntrTmText (r : Row) : String := (Dict.getD r "cntr_tm" (.str "")).toStr

def dictRows (p : Page) : List Row := p.rows.filterMap id

/-- What two pages share when the vendor made no progress. -/
def identity (p : Page) : String × String × List String := (p.headerCont, p.headerKey, (dictRows p).map cntrTmText)

/-- The time of the oldest row. -/
def oldest (p : Page) : String := (dictRows p).getLast?.elim "" Row.cntrTm

inductive Termination where
  | exhausted
  | crossedTargetDate
  | crossedTimeFloor
  | pageBudget
  | deadline
  | nonprogress
  | cursorInconsistent
  | cursorUnknown
  | vendorFailure
  deriving DecidableEq

namespace Termination

def value : Termination → String
  | exhausted => "exhausted"
  | crossedTargetDate => "crossed_target_date"
  | crossedTimeFloor => "crossed_time_floor"
  | pageBudget => "page_budget"
  | deadline => "deadline"
  | nonprogress => "nonprogress"
  | cursorInconsistent => "cursor_inconsistent"
  | cursorUnknown => "cursor_unknown"
  | vendorFailure => "vendor_failure"

def truncated : Termination → Bool
  | exhausted | crossedTargetDate | crossedTimeFloor => false
  | pageBudget | deadline | nonprogress | cursorInconsistent | cursorUnknown | vendorFailure => true

/-- Whether a call ended before its pagination did. -/
def cut : Termination → Bool
  | pageBudget | deadline => true
  | _ => false

end Termination

/-- What a call counts. -/
structure Tally where
  allRows : List Row
  rowsReceived : Nat
  vendorTotal : Option Nat

namespace Tally

def absorb (t : Tally) (p : Page) : Tally :=
  { t with allRows := t.allRows ++ dictRows p, rowsReceived := t.rowsReceived + (dictRows p).length }

/-- The vendor's total, as the rows received and the rest the key tells of; a later one has to agree. -/
def noteTotal (t : Tally) : Option Nat → Option Tally
  | none => some t
  | some parsed =>
    match t.vendorTotal with
    | none => some { t with vendorTotal := some (t.rowsReceived + parsed) }
    | some total => if t.rowsReceived + parsed = total then some t else none

end Tally

/-- What ends the loop: a `break`, or an exception, raised by the page observer or elsewhere. -/
inductive Stop where
  | broke (reason : Termination)
  | raised (exc : Raised) (inObserver : Bool)
  deriving DecidableEq

section page

variable (u : UnicodeDigits) (q : Query)

/-- The first half of an iteration: the rows and the total of a page, and the rest its key tells of. -/
def account (t : Tally) (p : Page) : Except (Tally × Stop) (Tally × Option Nat) :=
  if p.accepted then
    match parseTickRemaining u p.headerKey q with
    | .error msg => .error (t.absorb p, .raised (.exception msg) false)
    | .ok parsed =>
      match (t.absorb p).noteTotal parsed with
      | none => .error (t.absorb p, .broke .cursorInconsistent)
      | some t' => .ok (t', parsed)
  else .error (t, .broke .vendorFailure)

/-- The second half: whether the page ends the pagination. -/
def ending (p : Page) (parsed : Option Nat) : Option Termination :=
  if parsed = some 0 then some .exhausted
  else if p.headerCont ≠ "Y" then some .exhausted
  else if p.headerKey = "" then some .cursorUnknown
  else if isCntrTm u (oldest p) = true ∧ String.ofList ((oldest p).toList.take 8) < q.ymd then some .crossedTargetDate
  else if q.floorHms.any (fun floor => isCntrTm u (oldest p) && decide (String.ofList ((oldest p).toList.take 8) = q.ymd) &&
      decide (String.ofList (((oldest p).toList.drop 8).take 6) < floor)) then some .crossedTimeFloor
  else none

end page

/-! ## A call -/

/-- What happens in an iteration, the page apart: `observer` is what `on_page` raises on it. -/
inductive Event where
  /-- No time is left before the request. -/
  | expired
  /-- The request raises, or takes longer than is left. -/
  | raises (exc : Raised)
  | arrives (observer : Option Raised)

structure Scan where
  contYn : String
  nextKey : String
  tally : Tally
  metadata : Option (String × String)
  pagesFetched : Nat
  prevIdentity : Option (String × String × List String)
  stalls : Nat

inductive Turn where
  | next (s : Scan)
  | stop (s : Scan) (e : Stop)

/-- The vendor: the page a request's `cont-yn` and `next-key` are answered with. -/
abbrev Tape := String → String → Page

namespace Scan

def start : Option TickCursor → Scan
  | some cursor => ⟨"Y", cursor.nextKey, ⟨[], cursor.rowsReceived, cursor.totalTicks⟩, none, 0, none, 0⟩
  | none => ⟨"N", "", ⟨[], 0, none⟩, none, 0, none, 0⟩

/-- `stalls` counts the pages in a row that are no news. -/
def noteIdentity (s : Scan) (id : String × String × List String) : Scan :=
  if some id = s.prevIdentity then { s with stalls := s.stalls + 1 } else { s with stalls := 0, prevIdentity := some id }

variable (u : UnicodeDigits) (q : Query) (tape : Tape)

/-- A page the observer accepted. -/
def receive (s : Scan) (p : Page) : Turn :=
  let s := { s with pagesFetched := s.pagesFetched + 1 }
  match account u q s.tally p with
  | .error (t, e) => .stop { s with tally := t } e
  | .ok (t, parsed) =>
    let s := { s with tally := t }.noteIdentity (identity p)
    if 2 ≤ s.stalls then .stop s (.broke .nonprogress)
    else
      match ending u q p parsed with
      | some reason => .stop s (.broke reason)
      | none => .next { s with contYn := p.headerCont, nextKey := p.headerKey }

/-- One iteration of the loop. -/
def turn (s : Scan) : Event → Turn
  | .expired => .stop s (.broke .deadline)
  | .raises exc => .stop s (.raised exc false)
  | .arrives observer =>
    let p := tape s.contYn s.nextKey
    let s := { s with metadata := some (p.headerCont, p.headerKey) }
    match observer with
    | some exc => .stop s (.raised exc true)
    | none => s.receive u q p

/-- The loop, with `left` iterations to go. -/
def run (events : Nat → Event) : Nat → Nat → Scan → Scan × Stop
  | 0, _, s => (s, .broke .pageBudget)
  | left + 1, i, s =>
    match s.turn u q tape (events i) with
    | .next s' => run events left (i + 1) s'
    | .stop s' e => (s', e)

end Scan

structure Payload where
  rtCd : String
  msg1 : Option String
  output2 : List Row
  truncated : Bool
  terminationReason : Termination
  pagesFetched : Nat
  continuation : Option (String × String)
  cursor : Option TickCursor
  vendorTotalTicks : Option Nat
  rowsReceived : Nat
  completeByTotal : Bool

/-- The rows of the target date. -/
def ofDate (q : Query) (rows : List Row) : List Row :=
  rows.filter (fun r => q.ymd.toList.isPrefixOf (cntrTmText r).toList)

namespace Scan

/-- The payload of a vendor failure. -/
def failed (s : Scan) (msg : String) : Payload where
  rtCd := "1"
  msg1 := some msg
  output2 := []
  truncated := true
  terminationReason := .vendorFailure
  pagesFetched := s.pagesFetched
  continuation := s.metadata
  cursor := none
  vendorTotalTicks := s.tally.vendorTotal
  rowsReceived := s.tally.rowsReceived
  completeByTotal := false

/-- The payload of any other end. -/
def ended (q : Query) (s : Scan) (reason : Termination) : Payload where
  rtCd := "0"
  msg1 := none
  output2 := ofDate q s.tally.allRows
  truncated := reason.truncated
  terminationReason := reason
  pagesFetched := s.pagesFetched
  continuation := s.metadata
  cursor :=
    let header := s.metadata.getD ("N", "")
    if reason.truncated ∧ header.1 = "Y" ∧ header.2 ≠ "" ∧
        (reason = .pageBudget ∨ reason = .deadline ∨ reason = .crossedTimeFloor) then
      some ⟨header.2, s.tally.rowsReceived, s.tally.vendorTotal⟩
    else none
  vendorTotalTicks := s.tally.vendorTotal
  rowsReceived := s.tally.rowsReceived
  completeByTotal := decide (reason = .exhausted) && s.tally.vendorTotal.isSome

/-- What follows the loop; a `TimeoutError` is a deadline wherever it comes from. -/
def outcome (q : Query) (tape : Tape) (s : Scan) : Stop → Except Raised Payload
  | .broke .vendorFailure => .ok (s.failed (tape s.contYn s.nextKey).returnMsg)
  | .broke reason => .ok (s.ended q reason)
  | .raised .timeout _ => .ok (s.ended q .deadline)
  | .raised (.exception msg) true => .error (.exception msg)
  | .raised (.exception msg) false => .ok (s.failed msg)
  | .raised .base _ => .error .base

end Scan

/-- `get_tick_chart`, its arguments checked. -/
def getTickChart (u : UnicodeDigits) (q : Query) (tape : Tape) (events : Nat → Event) (pages : Nat)
    (resume : Option TickCursor) : Except Raised Payload :=
  let r := Scan.run u q tape events (max 1 pages) 0 (.start resume)
  r.1.outcome q tape r.2

/-! ## A pagination -/

/-- The pages of a pagination nothing cuts. -/
def page (tape : Tape) : Nat → Page
  | 0 => tape "N" ""
  | n + 1 => tape (page tape n).headerCont (page tape n).headerKey

/-- Whether a page's headers ask for another page. -/
def Continues (p : Page) : Prop := p.headerCont = "Y" ∧ p.headerKey ≠ ""

def NoRepeats (tape : Tape) : Prop := ∀ n, Continues (page tape n) → page tape (n + 1) ≠ page tape n

/-- A repeated identity is a repeated page, one later at most: the next request is the same one again. -/
theorem identity_ne {tape : Tape} (h : NoRepeats tape) {n : Nat} (hn : Continues (page tape n)) :
    identity (page tape (n + 1)) ≠ identity (page tape n) := by
  intro hid
  obtain ⟨hcont, hkey, -⟩ : _ ∧ _ ∧ _ := by simpa only [identity, Prod.mk.injEq] using hid
  refine h (n + 1) ⟨hcont.trans hn.1, fun h0 => hn.2 (hkey.symm.trans h0)⟩ ?_
  calc page tape (n + 2) = tape (page tape (n + 1)).headerCont (page tape (n + 1)).headerKey := rfl
    _ = tape (page tape n).headerCont (page tape n).headerKey := by rw [hcont, hkey]
    _ = page tape (n + 1) := rfl

section judge

variable (u : UnicodeDigits) (q : Query)

/-- What a page does to the tally, in whichever call it arrives. -/
def judge (t : Tally) (p : Page) : Except (Tally × Stop) Tally :=
  match account u q t p with
  | .error e => .error e
  | .ok (t', parsed) =>
    match ending u q p parsed with
    | some reason => .error (t', .broke reason)
    | none => .ok t'

/-- The tally after `k` pages from the `n`th that all go on. -/
def ons (tape : Tape) : Nat → Nat → Tally → Option Tally
  | _, 0, t => some t
  | n, k + 1, t =>
    match judge u q t (page tape n) with
    | .ok t' => ons tape (n + 1) k t'
    | .error _ => none

variable {u q} {tape : Tape} {t t' : Tally} {p : Page} {n : Nat}

theorem judge_ok (h : judge u q t p = .ok t') :
    ∃ parsed, account u q t p = .ok (t', parsed) ∧ ending u q p parsed = none := by
  unfold judge at h
  split at h
  · cases h
  · split at h
    · cases h
    · cases h
      exact ⟨_, by assumption, by assumption⟩

theorem continues_of_ending {parsed : Option Nat} (h : ending u q p parsed = none) : Continues p := by
  unfold ending at h
  split at h
  · cases h
  · split at h
    · cases h
    · split at h
      · cases h
      · exact ⟨not_not.1 ‹_›, ‹_›⟩

theorem judge_continues (h : judge u q t p = .ok t') : Continues p :=
  let ⟨_, _, hp⟩ := judge_ok h
  continues_of_ending hp

theorem judge_not_timeout {e : Stop} {b : Bool} (h : judge u q t p = .error (t', e)) : e ≠ .raised .timeout b := by
  rintro rfl
  unfold judge account at h
  grind

/-! ## The rows of earlier calls -/

/-- The tally of a call that had these rows before. -/
def Tally.after (rows : List Row) (t : Tally) : Tally := { t with allRows := rows ++ t.allRows }

theorem Tally.absorb_after (rows : List Row) : (t.after rows).absorb p = (t.absorb p).after rows := by
  simp only [Tally.absorb, Tally.after, List.append_assoc]

theorem Tally.noteTotal_after (rows : List Row) (parsed : Option Nat) :
    (t.after rows).noteTotal parsed = (t.noteTotal parsed).map (Tally.after rows) := by
  cases parsed with
  | none => rfl
  | some parsed =>
    obtain ⟨all, received, total⟩ := t
    cases total with
    | none => rfl
    | some total =>
      by_cases hr : received + parsed = total
      · simp [Tally.noteTotal, Tally.after, hr]
      · simp [Tally.noteTotal, Tally.after, hr]

/-- No decision of a page depends on the rows before it. -/
theorem judge_after (rows : List Row) :
    judge u q (t.after rows) p = match judge u q t p with
      | .ok t' => .ok (t'.after rows)
      | .error (t', e) => .error (t'.after rows, e) := by
  unfold judge account
  by_cases ha : p.accepted = true
  · rw [if_pos ha, if_pos ha]
    cases parseTickRemaining u p.headerKey q with
    | error msg => simp only [Tally.absorb_after]
    | ok parsed =>
      simp only [Tally.absorb_after, Tally.noteTotal_after]
      cases (t.absorb p).noteTotal parsed with
      | none => rfl
      | some t' =>
        simp only [Option.map_some]
        cases ending u q p parsed <;> rfl
  · rw [if_neg ha, if_neg ha]

theorem ons_after (rows : List Row) {k : Nat} :
    ons u q tape n k (t.after rows) = (ons u q tape n k t).map (Tally.after rows) := by
  induction k generalizing n t with
  | zero => rfl
  | succ k ih =>
    simp only [ons, judge_after]
    cases judge u q t (page tape n) with
    | error e => rfl
    | ok t' => exact ih

theorem ons_add {k j : Nat} : ons u q tape n (k + j) t = (ons u q tape n k t).bind (ons u q tape (n + k) j) := by
  induction k generalizing n t with
  | zero => simp [ons]
  | succ k ih =>
    rw [show k + 1 + j = (k + j) + 1 by omega]
    simp only [ons]
    cases judge u q t (page tape n) with
    | error e => rfl
    | ok t' => rw [show n + (k + 1) = (n + 1) + k by omega]; exact ih

end judge

/-! ## A call on its way -/

/-- The next page of a call is the `n`th of the pagination. -/
structure At (tape : Tape) (n : Nat) (s : Scan) : Prop where
  asked : tape s.contYn s.nextKey = page tape n
  fresh : s.prevIdentity ≠ some (identity (page tape n))
  stalls : s.stalls = 0
  headers : s.pagesFetched ≠ 0 → s.metadata = some (s.contYn, s.nextKey) ∧ s.contYn = "Y" ∧ s.nextKey ≠ ""

/-- No observer of the call's pages raises `TimeoutError`. -/
def Quiet (events : Nat → Event) : Prop := ∀ i, events i ≠ .arrives (some .timeout)

section call

variable {u : UnicodeDigits} {q : Query} {tape : Tape} {n : Nat} {s : Scan} {t : Tally}

theorem At.start : At tape 0 (Scan.start none) := ⟨rfl, nofun, rfl, fun h => absurd rfl h⟩

/-- A call starts at the page after the one its cursor is of. -/
theorem At.resume (hn : At tape n s) (hs : s.pagesFetched ≠ 0) (received : Nat) (total : Option Nat) :
    At tape n (Scan.start (some ⟨s.nextKey, received, total⟩)) := by
  refine ⟨?_, nofun, rfl, fun h => absurd rfl h⟩
  rw [← hn.asked, (hn.headers hs).2.1]
  rfl

/-- A page that goes through the checks of its identity. -/
theorem At.turn_account (hn : At tape n s) {parsed : Option Nat}
    (ha : account u q s.tally (page tape n) = .ok (t, parsed)) :
    s.turn u q tape (.arrives none) =
      let p := page tape n
      let s' : Scan := ⟨s.contYn, s.nextKey, t, some (p.headerCont, p.headerKey), s.pagesFetched + 1,
        some (identity p), 0⟩
      match ending u q p parsed with
      | some reason => .stop s' (.broke reason)
      | none => .next { s' with contYn := p.headerCont, nextKey := p.headerKey } := by
  have hfresh : ¬ some (identity (page tape n)) = s.prevIdentity := fun hid => hn.fresh hid.symm
  have hstalls : ¬ 2 ≤ 0 := by omega
  simp only [Scan.turn, Scan.receive, hn.asked, ha, Scan.noteIdentity, if_neg hfresh, if_neg hstalls]

/-- The step lemma: a page does in a call what it does to the tally, and the next page is the next one. -/
theorem At.turn_ok (h : NoRepeats tape) (hn : At tape n s) (ht : judge u q s.tally (page tape n) = .ok t) :
    ∃ s', s.turn u q tape (.arrives none) = .next s' ∧ At tape (n + 1) s' ∧ s'.tally = t ∧
      s'.pagesFetched = s.pagesFetched + 1 := by
  obtain ⟨parsed, ha, he⟩ := judge_ok ht
  have hc := continues_of_ending he
  rw [hn.turn_account ha]
  simp only [he]
  refine ⟨_, rfl, ⟨rfl, ?_, rfl, fun _ => ⟨rfl, hc⟩⟩, rfl, rfl⟩
  exact fun hid => identity_ne h hc (Option.some.inj hid).symm

theorem At.turn_error {e : Stop} (hn : At tape n s) (ht : judge u q s.tally (page tape n) = .error (t, e)) :
    ∃ s', s.turn u q tape (.arrives none) = .stop s' e ∧ s'.tally = t ∧ s'.pagesFetched = s.pagesFetched + 1 := by
  unfold judge at ht
  cases ha : account u q s.tally (page tape n) with
  | error x =>
    rw [ha] at ht
    cases ht
    simp only [Scan.turn, Scan.receive, hn.asked, ha]
    exact ⟨_, rfl, rfl, rfl⟩
  | ok x =>
    obtain ⟨t', parsed⟩ := x
    rw [hn.turn_account ha]
    rw [ha] at ht
    cases he : ending u q (page tape n) parsed with
    | none => simp [he] at ht
    | some reason =>
      simp only [he] at ht ⊢
      cases ht
      exact ⟨_, rfl, rfl, rfl⟩

/-- The run lemma: a call stops between two pages, or at a page that ends the pagination. -/
theorem At.run_cases (h : NoRepeats tape) {events : Nat → Event} (hq : Quiet events) (hn : At tape n s) (left i : Nat) :
    let r := Scan.run u q tape events left i s
    (∃ k, At tape (n + k) r.1 ∧ ons u q tape n k s.tally = some r.1.tally ∧
        (r.2 = .broke .pageBudget ∨ r.2 = .broke .deadline ∨ ∃ exc, r.2 = .raised exc false)) ∨
      (∃ k t, ons u q tape n k s.tally = some t ∧ judge u q t (page tape (n + k)) = .error (r.1.tally, r.2)) ∨
      ∃ exc, exc ≠ .timeout ∧ r.2 = .raised exc true := by
  induction left generalizing n i s with
  | zero => exact .inl ⟨0, hn, rfl, .inl rfl⟩
  | succ left ih =>
    dsimp only
    unfold Scan.run
    cases he : events i with
    | expired => exact .inl ⟨0, hn, rfl, .inr (.inl rfl)⟩
    | raises exc => exact .inl ⟨0, hn, rfl, .inr (.inr ⟨exc, rfl⟩)⟩
    | arrives observer =>
      cases observer with
      | some exc => exact .inr (.inr ⟨exc, fun hx => hq i (hx ▸ he), rfl⟩)
      | none =>
        cases hj : judge u q s.tally (page tape n) with
        | error x =>
          obtain ⟨t, e⟩ := x
          obtain ⟨s', hs', rfl, -⟩ := hn.turn_error hj
          rw [hs']
          exact .inr (.inl ⟨0, s.tally, rfl, hj⟩)
        | ok t =>
          obtain ⟨s', hs', hn', ht, -⟩ := hn.turn_ok h hj
          rw [hs']
          have hons : ∀ k, ons u q tape n (k + 1) s.tally = ons u q tape (n + 1) k s'.tally := by
            intro k
            simp only [ons, hj, ht]
          obtain ⟨k, h1, h2, h3⟩ | ⟨k, t', h1, h2⟩ | h3 := ih hn' (i + 1)
          · exact .inl ⟨k + 1, by rw [show n + (k + 1) = n + 1 + k by omega]; exact h1, (hons k).trans h2, h3⟩
          · exact .inr (.inl ⟨k + 1, t', (hons k).trans h1, by rw [show n + (k + 1) = n + 1 + k by omega]; exact h2⟩)
          · exact .inr (.inr h3)

/-- A call with nothing in its way reaches the page that ends the pagination. -/
theorem At.run_reaches (h : NoRepeats tape) (hn : At tape n s) {k : Nat} (hk : ons u q tape n k s.tally = some t)
    {t' : Tally} {e : Stop} (hj : judge u q t (page tape (n + k)) = .error (t', e)) :
    ∃ s', s'.tally = t' ∧ 1 ≤ s'.pagesFetched ∧
      ∀ left, k < left → ∀ i, Scan.run u q tape (fun _ => .arrives none) left i s = (s', e) := by
  induction k generalizing n s with
  | zero =>
    cases hk
    obtain ⟨s', hs', ht, hp⟩ := hn.turn_error hj
    refine ⟨s', ht, by omega, fun left hleft i => ?_⟩
    obtain ⟨left, rfl⟩ := Nat.exists_eq_add_one.2 hleft
    simp only [Scan.run, hs']
  | succ k ih =>
    simp only [ons] at hk
    cases hj' : judge u q s.tally (page tape n) with
    | error x => rw [hj'] at hk; cases hk
    | ok t₁ =>
      rw [hj'] at hk
      obtain ⟨s₁, hs₁, hn₁, ht₁, -⟩ := hn.turn_ok h hj'
      obtain ⟨s', ht, hp, hrun⟩ := ih hn₁ (ht₁ ▸ hk) (by rw [show n + 1 + k = n + (k + 1) by omega]; exact hj)
      refine ⟨s', ht, hp, fun left hleft i => ?_⟩
      obtain ⟨left, rfl⟩ := Nat.exists_eq_add_one.2 (Nat.lt_of_le_of_lt (Nat.zero_le _) hleft)
      simp only [Scan.run, hs₁]
      exact hrun left (by omega) (i + 1)

end call

/-! ## Calls that continue each other -/

section chain

variable (u : UnicodeDigits) (q : Query) (tape : Tape)

/-- A call of a pagination: its page budget, what happens in it, and what it returns. -/
structure Call where
  pages : Nat
  events : Nat → Event
  payload : Payload

/-- The call returns its payload, and no vendor failure. -/
def Call.Returns (resume : Option TickCursor) (c : Call) : Prop :=
  getTickChart u q tape c.events c.pages resume = .ok c.payload ∧ c.payload.rtCd = "0"

/-- A pagination in calls: each one that is cut fetched a page and hands its cursor to the next. -/
inductive Chain : Option TickCursor → List Call → Payload → Prop
  | last {resume : Option TickCursor} {c : Call} (h : c.Returns u q tape resume)
      (hc : c.payload.terminationReason.cut = false) : Chain resume [c] c.payload
  | cut {resume : Option TickCursor} {c : Call} {cursor : TickCursor} {rest : List Call} {final : Payload}
      (h : c.Returns u q tape resume) (hc : c.payload.terminationReason.cut = true)
      (hp : 1 ≤ c.payload.pagesFetched) (hcur : c.payload.cursor = some cursor)
      (hrest : Chain (some cursor) rest final) : Chain resume (c :: rest) final

/-- What one call returns that nothing cuts. -/
def Unbroken (whole : Payload) : Prop :=
  ∃ n, ∀ pages, n ≤ pages → getTickChart u q tape (fun _ => .arrives none) pages none = .ok whole

variable {u q tape}

theorem Unbroken.eq {p p' : Payload} (h : Unbroken u q tape p) (h' : Unbroken u q tape p') : p = p' := by
  obtain ⟨n, hn⟩ := h
  obtain ⟨n', hn'⟩ := h'
  have := (hn (max n n') (le_max_left n n')).symm.trans (hn' (max n n') (le_max_right n n'))
  exact Except.ok.inj this

variable {n : Nat} {resume : Option TickCursor} {c : Call}

theorem judge_not_cut {t t' : Tally} {p : Page} {reason : Termination}
    (h : judge u q t p = .error (t', .broke reason)) : reason.cut = false := by
  unfold judge account ending at h
  grind [Termination.cut]

theorem outcome_ok {s : Scan} {e : Stop} {payload : Payload} (h : s.outcome q tape e = .ok payload)
    (h0 : payload.rtCd = "0") : ∃ reason, payload = s.ended q reason ∧
      (e = .broke reason ∧ reason ≠ .vendorFailure ∨ reason = .deadline ∧ ∃ b, e = .raised .timeout b) := by
  cases e with
  | broke reason =>
    by_cases hv : reason = .vendorFailure
    · subst hv
      cases h
      exact absurd h0 (by simp [Scan.failed])
    · refine ⟨reason, ?_, .inl ⟨rfl, hv⟩⟩
      cases reason <;> first | exact absurd rfl hv | exact (Except.ok.inj h).symm
  | raised exc inObserver =>
    cases exc with
    | timeout => cases h; exact ⟨_, rfl, .inr ⟨rfl, _, rfl⟩⟩
    | base => cases h
    | exception msg =>
      cases inObserver <;> cases h
      exact absurd h0 (by simp [Scan.failed])

theorem truncated_of_cut {events : Nat → Event} {pages : Nat} {payload : Payload}
    (h : getTickChart u q tape events pages resume = .ok payload) (h0 : payload.rtCd = "0")
    (hcut : payload.terminationReason.cut = true) : payload.truncated = true := by
  obtain ⟨reason, rfl, -⟩ := outcome_ok h h0
  revert hcut
  cases reason <;> simp [Scan.ended, Termination.cut, Termination.truncated]

/-- One call: it is cut between two pages, or ends at the page that ends the pagination. -/
theorem Call.Returns.cases (hr : c.Returns u q tape resume) (h : NoRepeats tape) (hq : Quiet c.events)
    (hn : At tape n (.start resume)) :
    (∃ (k : Nat) (s : Scan) (reason : Termination), At tape (n + k) s ∧
        ons u q tape n k (Scan.start resume).tally = some s.tally ∧ reason.cut = true ∧ c.payload = s.ended q reason) ∨
      ∃ (k : Nat) (t : Tally) (s : Scan) (reason : Termination), ons u q tape n k (Scan.start resume).tally = some t ∧
        judge u q t (page tape (n + k)) = .error (s.tally, .broke reason) ∧ reason ≠ .vendorFailure ∧
        c.payload = s.ended q reason := by
  obtain ⟨hret, h0⟩ := hr
  obtain ⟨reason, hp, he⟩ := outcome_ok hret h0
  obtain ⟨k, h1, h2, h3⟩ | ⟨k, t, h1, h2⟩ | ⟨exc, hx, h3⟩ := hn.run_cases (u := u) (q := q) h hq (max 1 c.pages) 0
  · refine .inl ⟨k, _, reason, h1, h2, ?_, hp⟩
    rcases he with ⟨he, -⟩ | ⟨rfl, -⟩
    · rcases h3 with h3 | h3 | ⟨exc, h3⟩ <;> rw [he] at h3 <;> cases h3 <;> rfl
    · rfl
  · rcases he with ⟨he, hv⟩ | ⟨-, b, he⟩
    · exact .inr ⟨k, t, _, reason, h1, by rw [h2, he], hv, hp⟩
    · exact absurd he (judge_not_timeout h2)
  · rcases he with ⟨he, -⟩ | ⟨-, b, he⟩ <;> rw [he] at h3 <;> cases h3
    exact absurd rfl hx

/-- The cursor of a call that is cut is that of the last page it counted. -/
theorem At.cursor {s : Scan} {reason : Termination} {cursor : TickCursor} (hn : At tape n s)
    (hs : 1 ≤ s.pagesFetched) (hcur : (s.ended q reason).cursor = some cursor) :
    cursor = ⟨s.nextKey, s.tally.rowsReceived, s.tally.vendorTotal⟩ := by
  obtain ⟨hm, -⟩ := hn.headers (by omega)
  simp only [Scan.ended, hm, Option.getD_some] at hcur
  split at hcur
  · exact (Option.some.inj hcur).symm
  · cases hcur

theorem cursor_of_not_cut {s : Scan} {reason : Termination} (h : reason.cut = false) :
    (s.ended q reason).cursor = none := by
  cases reason <;> simp_all [Scan.ended, Termination.cut, Termination.truncated]

theorem ofDate_append (rows rows' : List Row) : ofDate q (rows ++ rows') = ofDate q rows ++ ofDate q rows' :=
  List.filter_append ..

/-- The run lemma of the calls: together they read the pages up to the one that ends the pagination. -/
theorem Chain.reaches {calls : List Call} {final : Payload} (hc : Chain u q tape resume calls final)
    (h : NoRepeats tape) (hq : ∀ c ∈ calls, Quiet c.events) (hn : At tape n (.start resume)) :
    ∃ k t t' reason s, ons u q tape n k (Scan.start resume).tally = some t ∧
      judge u q t (page tape (n + k)) = .error (t', .broke reason) ∧ reason ≠ .vendorFailure ∧
      ofDate q t'.allRows = calls.flatMap (·.payload.output2) ∧ final = Scan.ended q s reason ∧
      s.tally.rowsReceived = t'.rowsReceived ∧ s.tally.vendorTotal = t'.vendorTotal := by
  induction hc generalizing n with
  | @last resume c hr hcut =>
    obtain ⟨k, s, reason, -, -, hreason, hp⟩ | ⟨k, t, s, reason, h1, h2, h3, hp⟩ := hr.cases h (hq c (by simp)) hn
    · rw [hp] at hcut
      exact absurd hcut (by simp [Scan.ended, hreason])
    · refine ⟨k, t, s.tally, reason, s, h1, h2, h3, ?_, hp, rfl, rfl⟩
      simp [hp, Scan.ended]
  | @cut resume c cursor rest final hr hcut hpages hcur hrest ih =>
    obtain ⟨k, s, reason, hs, h1, hreason, hp⟩ | ⟨k, t, s, reason, -, h2, -, hp⟩ := hr.cases h (hq c (by simp)) hn
    · rw [hp] at hcur hpages
      obtain rfl := hs.cursor hpages hcur
      have hstart := hs.resume (Nat.one_le_iff_ne_zero.1 hpages) s.tally.rowsReceived s.tally.vendorTotal
      obtain ⟨j, t, t', reason', s', h3, h4, h5, h6, h7, h8, h9⟩ := ih (fun c hc => hq c (by simp [hc])) hstart
      -- the second call starts at the tally of the first, the rows apart
      have htally : s.tally = (Scan.start (some ⟨s.nextKey, s.tally.rowsReceived, s.tally.vendorTotal⟩)).tally.after
          s.tally.allRows := by
        simp [Scan.start, Tally.after]
      refine ⟨k + j, t.after s.tally.allRows, t'.after s.tally.allRows, reason', s', ?_, ?_, h5, ?_, h7, h8, h9⟩
      · rw [ons_add, h1, Option.bind_some, htally, ons_after, ← htally, h3]
        rfl
      · rw [← Nat.add_assoc, judge_after, h4]
      · rw [Tally.after, ofDate_append, h6, List.flatMap_cons, hp]
        rfl
    · rw [hp] at hcut
      exact absurd hcut (by simp [Scan.ended, judge_not_cut h2])

/-- The calls of a pagination return together what one call returns that nothing cuts. -/
theorem Chain.unbroken {calls : List Call} {final : Payload} (hc : Chain u q tape none calls final)
    (h : NoRepeats tape) (hq : ∀ c ∈ calls, Quiet c.events) :
    ∃ whole, Unbroken u q tape whole ∧ whole.rtCd = "0" ∧ whole.output2 = calls.flatMap (·.payload.output2) ∧
      whole.vendorTotalTicks = final.vendorTotalTicks ∧ whole.rowsReceived = final.rowsReceived ∧
      whole.completeByTotal = final.completeByTotal ∧ whole.terminationReason = final.terminationReason ∧
      whole.truncated = final.truncated ∧ whole.cursor = none ∧ 1 ≤ whole.pagesFetched := by
  obtain ⟨k, t, t', reason, s, h1, h2, h3, h4, rfl, h6, h7⟩ := hc.reaches h hq .start
  obtain ⟨s', rfl, hp, hrun⟩ := At.start.run_reaches h h1 h2
  refine ⟨s'.ended q reason, ⟨k + 1, fun pages hpages => ?_⟩, rfl, h4, h7.symm, h6.symm, ?_, rfl, rfl,
    cursor_of_not_cut (judge_not_cut h2), hp⟩
  · unfold getTickChart
    rw [hrun (max 1 pages) (by omega) 0]
    cases reason <;> first | rfl | exact absurd rfl h3
  · simp only [Scan.ended, h7]

end chain

end TickChart
end Kiwoom
