import KClosingAlpha.Alert.Reconcile
import KClosingAlpha.Lib.Exc
import KClosingAlpha.Lib.Recurring
import KClosingAlpha.Lib.Regex
import KClosingAlpha.Py.Ratio
import Mathlib
/-!
# Sentinel — the scheduled jobs, measured (`tools/ops_sentinel`)

A timer unit is read into the slots of a week, a service unit into the longest runtime its job may take.  A pass asks of
each job whether it has started for its latest slot.

A moment is a number of microseconds of Korean time since the first day of the calendar, which is a Monday.  What
`systemctl` and the disk answer is a parameter of a pass, as it is of the source; which characters are decimal digits is a
parameter of the parsers.
-/
namespace Sentinel

open Regex (Text Place Pat)

def second : ℤ := 1000000

def dayLength : ℤ := 86400000000

/-- `SENTINEL_GRACE`. -/
def sentinelGrace : ℤ := 300 * second

/-- `SENTINEL_DEFAULT_MAX_RUNTIME`. -/
def sentinelDefaultMaxRuntime : ℤ := 7200 * second

/-- The most seconds a `timedelta` takes. -/
def timedeltaMaxSeconds : ℕ := 86399999999999

/-- `datetime.time`, to the second. -/
structure TimeOfDay where
  hour : ℕ
  minute : ℕ
  sec : ℕ
  hour_lt : hour < 24
  minute_lt : minute < 60
  sec_lt : sec < 60
  deriving DecidableEq

/-- The microseconds since midnight. -/
def TimeOfDay.micros (t : TimeOfDay) : ℤ := ((t.hour * 60 + t.minute) * 60 + t.sec : ℕ) * second

structure ScheduleSlot where
  weekdays : Finset ℕ
  timeOfDay : TimeOfDay
  deriving DecidableEq

structure JobSchedule where
  unit : String
  timer : String
  slots : List ScheduleSlot
  maxRuntime : ℤ
  after : List String
  deriving DecidableEq

structure UnitRunState where
  activeState : String
  result : String
  lastStart : Option ℤ
  lastExit : Option ℤ
  timerActiveSince : Option ℤ
  deriving DecidableEq

inductive JobVerdict where
  | pending
  | ok
  | running
  | late
  | overrun
  deriving DecidableEq

structure MeasuredIssue where
  key : String
  text : String
  deriving DecidableEq

/-- What a reader of units raises, with the text it quotes: `ValueError`, or the overflow of a `timedelta`, or
`FileNotFoundError`. -/
inductive UnitError where
  | weekdayRange (raw : Text)
  | dateSelector (raw : Text)
  | onCalendarValue (value : Text)
  | timezone (value : Text)
  | time (value : Text)
  | noOnCalendar
  | timeoutStartSec (raw : Text)
  | expectedRuntimeSec (service : String) (raw : Text)
  | overflow
  | serviceAbsent (timer unit : String)
  deriving DecidableEq

/-! ## Lines -/

def isLineBreak (c : Char) : Bool :=
  let n := c.toNat
  (decide (10 ≤ n) && decide (n ≤ 13)) || (decide (28 ≤ n) && decide (n ≤ 30)) || n == 0x85 || n == 0x2028 || n == 0x2029

/-- The lines of a text, after what was read of the first one. -/
def splitlinesFrom : Text → Text → List Text
  | read, [] => if read = [] then [] else [read.reverse]
  | read, '\r' :: '\n' :: cs => read.reverse :: splitlinesFrom [] cs
  | read, c :: cs => if isLineBreak c then read.reverse :: splitlinesFrom [] cs else splitlinesFrom (c :: read) cs

def splitlines (t : Text) : List Text := splitlinesFrom [] t

/-- What follows `lead` in a text that starts with it. -/
def after? (lead : String) (line : Text) : Option Text :=
  if lead.toList.isPrefixOf line then some (line.drop lead.toList.length) else none

/-- `text.split()`. -/
def words : ℕ → Text → List Text
  | 0, _ => []
  | fuel + 1, cs =>
    let cs := cs.dropWhile Py.isSpace
    if cs = [] then []
    else cs.takeWhile (fun c => !Py.isSpace c) :: words fuel (cs.dropWhile (fun c => !Py.isSpace c))

/-! ## Timers -/

/-- `_WEEKDAY_BY_NAME`. -/
def weekdayByName : List (Text × ℕ) :=
  [("Mon", 0), ("Tue", 1), ("Wed", 2), ("Thu", 3), ("Fri", 4), ("Sat", 5), ("Sun", 6)].map (fun p => (p.1.toList, p.2))

/-- `raw.partition("..")`, where there are two dots in a row. -/
def partitionDots : Text → Option (Text × Text)
  | [] => none
  | '.' :: '.' :: cs => some ([], cs)
  | c :: cs => (partitionDots cs).map (fun p => (c :: p.1, p.2))

/-- `_parse_weekdays`. -/
def parseWeekdays (raw : Text) : Except UnitError (Finset ℕ) :=
  if raw = "*-*-*".toList then .ok (Finset.range 7)
  else
    match partitionDots raw with
    | some (startRaw, endRaw) =>
      match weekdayByName.lookup startRaw, weekdayByName.lookup endRaw with
      | some start, some stop =>
        if stop < start then .error (.weekdayRange raw) else .ok (Finset.Icc start stop)
      | _, _ => .error (.weekdayRange raw)
    | none =>
      match weekdayByName.lookup raw with
      | some day => .ok {day}
      | none => .error (.dateSelector raw)

section digits

variable (decimal : Char → Option ℕ)

def isDecimal (c : Char) : Bool := (decimal c).isSome

/-- `int(text)` of decimal digits. -/
def decimalValue (t : Text) : ℕ := t.foldl (fun n c => 10 * n + (decimal c).getD 0) 0

/-- `\d{2}`. -/
def twoDigits : Pat Text := do
  let a ← Pat.chr (isDecimal decimal)
  let b ← Pat.chr (isDecimal decimal)
  pure [a, b]

/-- `$`. -/
def endOfText : Pat Unit := ⟨fun q => if q.after = [] ∨ q.after = ['\n'] then [((), q)] else []⟩

/-- The groups of `_ONCALENDAR_RE`. -/
structure OnCalendar where
  datePart : Text
  hourRaw : Text
  minuteRaw : Text
  secondRaw : Option Text
  tzPart : Text

/-- `_ONCALENDAR_RE`. -/
def onCalendarRe : Pat OnCalendar := do
  let datePart ← Pat.plus (fun c => !Py.isSpace c)
  let _ ← Pat.plus Py.isSpace
  let hourRaw ← twoDigits decimal
  let _ ← Pat.chr (fun c => decide (c = ':'))
  let minuteRaw ← twoDigits decimal
  let secondRaw ← Pat.either
    (do
      let _ ← Pat.chr (fun c => decide (c = ':'))
      let s ← twoDigits decimal
      pure (some s))
    (pure none)
  let _ ← Pat.plus Py.isSpace
  let tzPart ← Pat.plus (fun c => !Py.isSpace c)
  let _ ← Pat.star (Pat.one Py.isSpace)
  endOfText
  pure ⟨datePart, hourRaw, minuteRaw, secondRaw, tzPart⟩

/-- The slot of an `OnCalendar=` value. -/
def parseSlot (value : Text) : Except UnitError ScheduleSlot :=
  match ((onCalendarRe decimal).run (Place.start value)).head? with
  | none => .error (.onCalendarValue value)
  | some (m, _) =>
    if m.tzPart ≠ "Asia/Seoul".toList then .error (.timezone value)
    else
      match parseWeekdays m.datePart with
      | .error e => .error e
      | .ok weekdays =>
        if h : decimalValue decimal m.hourRaw < 24 ∧ decimalValue decimal m.minuteRaw < 60 ∧
            (m.secondRaw.map (decimalValue decimal)).getD 0 < 60 then
          .ok ⟨weekdays, ⟨_, _, _, h.1, h.2.1, h.2.2⟩⟩
        else .error (.time value)

/-- The values of the `OnCalendar=` lines. -/
def onCalendarValues (timerText : Text) : List Text :=
  (splitlines timerText).filterMap (fun line => (after? "OnCalendar=" (Py.stripChars line)).map Py.stripChars)

def parseTimerSchedule (timerText : Text) : Except UnitError (List ScheduleSlot) :=
  (onCalendarValues timerText).mapM (parseSlot decimal) >>= fun slots =>
    if slots = [] then .error .noOnCalendar else .ok slots

/-! ## Services -/

/-- `timedelta(seconds=n)`. -/
def seconds (n : ℕ) : Except UnitError ℤ :=
  if timedeltaMaxSeconds < n then .error .overflow else .ok (n * second)

/-- The seconds of a text that is amounts of hours, minutes and seconds and nothing else: `n` is the amount being read,
if one is. -/
def timeoutTotal : Option ℕ → ℕ → Text → Option ℕ
  | none, total, [] => some total
  | some _, _, [] => none
  | some n, total, 'h' :: cs => timeoutTotal none (total + n * 3600) cs
  | some n, total, 'm' :: 'i' :: 'n' :: cs => timeoutTotal none (total + n * 60) cs
  | some n, total, 's' :: cs => timeoutTotal none (total + n) cs
  | n, total, c :: cs =>
    match decimal c with
    | some d => timeoutTotal (some (10 * n.getD 0 + d)) total cs
    | none => none

/-- `_parse_timeout_value`. -/
def parseTimeoutValue (raw : Text) : Except UnitError ℤ :=
  let value := Py.stripChars raw
  if value = [] ∨ value = "infinity".toList then .ok sentinelDefaultMaxRuntime
  else
    match (if value.all (isDecimal decimal) then some (decimalValue decimal value) else timeoutTotal decimal none 0 value) with
    | none => .error (.timeoutStartSec raw)
    | some total => if total = 0 then .error (.timeoutStartSec raw) else seconds total

/-- What is read of a service unit. -/
structure ServiceLines where
  section_ : Text
  timeoutRaw : Option Text
  expectedRaw : Option Text
  after : List String

def ServiceLines.line (s : ServiceLines) (raw : Text) : ServiceLines :=
  let stripped := Py.stripChars raw
  if "[".toList.isPrefixOf stripped then { s with section_ := stripped }
  else if s.section_ = "[Unit]".toList ∧ (after? "After=" stripped).isSome then
    { s with after := s.after ++ (words stripped.length (((after? "After=" stripped)).getD [])).map String.ofList }
  else if s.section_ ≠ "[Service]".toList then s
  else if (after? "TimeoutStartSec=" stripped).isSome ∧ s.timeoutRaw = none then
    { s with timeoutRaw := after? "TimeoutStartSec=" stripped }
  else if (after? "X-ExpectedRuntimeSec=" stripped).isSome ∧ s.expectedRaw = none then
    { s with expectedRaw := after? "X-ExpectedRuntimeSec=" stripped }
  else s

def readService (serviceText : Text) : ServiceLines := (splitlines serviceText).foldl ServiceLines.line ⟨[], none, none, []⟩

/-- `finite_timeout`. -/
def ServiceLines.finiteTimeout (s : ServiceLines) : Except UnitError (Option ℤ) :=
  match s.timeoutRaw with
  | none => .ok none
  | some raw =>
    if Py.stripChars raw = [] ∨ Py.stripChars raw = "infinity".toList then .ok none
    else (parseTimeoutValue decimal raw).map some

/-- `max_runtime`. -/
def ServiceLines.maxRuntime (s : ServiceLines) (serviceName : String) : Except UnitError ℤ :=
  s.finiteTimeout decimal >>= fun finite =>
    match s.expectedRaw with
    | none => .ok (finite.getD sentinelDefaultMaxRuntime)
    | some raw =>
      let digits := Py.stripChars raw
      let bad : Except UnitError ℤ := .error (.expectedRuntimeSec serviceName raw)
      if digits = [] ∨ digits.all Char.isDigit = false then bad
      else
        match seconds (decimalValue (fun c => some (c.toNat - 48)) digits) with
        | .error _ => bad
        | .ok expected => if expected < 60 * second ∨ finite.any (fun f => decide (f < expected)) = true then bad else .ok expected

/-! ## Loading -/

/-- The directory of the units: its timers in the order of their names, and its services. -/
structure UnitDir where
  timers : List (String × Text)
  service : String → Option Text

/-- The unit a timer names: that of its first `Unit=` line, or the service of its name. -/
def unitName (timer : String) (timerText : Text) : String :=
  let named := ((splitlines timerText).findSome? (fun line => after? "Unit=" (Py.stripChars line))).getD []
  if Py.stripChars named = [] then String.ofList (timer.toList.take (timer.length - 6)) ++ ".service"
  else String.ofList (Py.stripChars named)

def loadSchedule (dir : UnitDir) (timer : String) (timerText : Text) : Except UnitError JobSchedule :=
  parseTimerSchedule decimal timerText >>= fun slots =>
    match dir.service (unitName timer timerText) with
    | none => .error (.serviceAbsent timer (unitName timer timerText))
    | some serviceText =>
      (readService serviceText).maxRuntime decimal (unitName timer timerText) >>= fun maxRuntime =>
        .ok ⟨unitName timer timerText, timer, slots, maxRuntime, (readService serviceText).after⟩

def loadJobSchedules (dir : UnitDir) : Except UnitError (List JobSchedule) :=
  ((dir.timers.filter (fun p => !Alert.hasPrefix "kca-alert@" p.1)).mapM (fun p => loadSchedule decimal dir p.1 p.2)).map
    (fun schedules => schedules.insertionSort (fun a b => a.unit ≤ b.unit))

end digits

/-! ## A pass -/

def day (now : ℤ) : ℤ := now / dayLength

/-- `day.weekday()`. -/
def weekday (d : ℤ) : ℕ := (d % 7).toNat

/-- The slot on a day. -/
def ScheduleSlot.at (slot : ScheduleSlot) (d : ℤ) : ℤ := d * dayLength + slot.timeOfDay.micros

/-- One slot of one day. -/
def dueSlot (now d : ℤ) (best : Option ℤ) (slot : ScheduleSlot) : Option ℤ :=
  if weekday d ∉ slot.weekdays then best else Recurring.later now best (slot.at d)

def latestDueSlot (schedule : JobSchedule) (now : ℤ) : Option ℤ :=
  (List.range 8).foldl (fun best offset => schedule.slots.foldl (dueSlot now (day now - offset)) best) none

def isActive (activeState : String) : Bool := activeState = "active" || activeState = "activating"

def evaluateJob (schedule : JobSchedule) (state : Option UnitRunState) (now grace : ℤ) (predecessorRunning : Bool) :
    JobVerdict :=
  match latestDueSlot schedule now with
  | none => .pending
  | some slot =>
    if now < slot + grace then .pending
    else
      match state with
      | none => if predecessorRunning then .pending else .late
      | some state =>
        if state.lastStart = none ∧ state.timerActiveSince.any (fun since => decide (slot < since)) = true then .pending
        else if isActive state.activeState then
          if state.lastStart.any (fun start => decide (schedule.maxRuntime < now - start)) then .overrun else .running
        else if state.lastStart.any (fun start => decide (slot - 60 * second ≤ start)) then .ok
        else if predecessorRunning then .pending
        else .late

/-- What a class answers, or the text of what it raises. -/
abbrev Answer (α : Type) := Except String α

structure Host where
  states : Answer (Py.Dict UnitRunState)
  inactiveTimers : Answer (List String)
  /-- The free and the total bytes. -/
  disk : Answer (ℕ × ℕ)

def predecessorRunning (states : Py.Dict UnitRunState) (schedule : JobSchedule) : Bool :=
  schedule.after.any (fun name => (states.lookup name).any (fun prior => isActive prior.activeState))

/-- The issue of a verdict. -/
def jobIssue (unit : String) : JobVerdict → List MeasuredIssue
  | .late => [⟨"job_late:" ++ unit, unit ++ " missed its slot"⟩]
  | .overrun => [⟨"job_overrun:" ++ unit, unit ++ " exceeded max runtime"⟩]
  | _ => []

def unavailable (cls text : String) : MeasuredIssue := ⟨"ops_measure_unavailable:" ++ cls, text⟩

def unitIssues (jobs : List JobSchedule) (states : Answer (Py.Dict UnitRunState)) (now : ℤ) : List MeasuredIssue :=
  match states with
  | .error exc => [unavailable "units" ("unit states unavailable: " ++ exc)]
  | .ok states =>
    if jobs ≠ [] ∧ states = [] then [unavailable "units" "systemd returned no unit state"]
    else
      jobs.flatMap (fun schedule => jobIssue schedule.unit
        (evaluateJob schedule (states.lookup schedule.unit) now sentinelGrace (predecessorRunning states schedule)))

def timerIssues : Answer (List String) → List MeasuredIssue
  | .error exc => [unavailable "timers" ("timers unavailable: " ++ exc)]
  | .ok names => names.map (fun name => ⟨"timer_inactive:" ++ name, name ++ " is not active"⟩)

/-- `free / total < HOST_DISK_FREE_MIN_FRACTION`. -/
def diskLow (free total : ℕ) : Bool :=
  decide (0 < total) && Py.PyFloat.lt (.ofFraction false free total) (.ofDecimal false 1 (-1))

/-- `int(free * 100 / total)`. -/
def freePercent (free total : ℕ) : ℕ := Py.PyFloat.floor (.ofFraction false (free * 100 : ℕ) total)

def diskIssues : Answer (ℕ × ℕ) → List MeasuredIssue
  | .error exc => [unavailable "disk" ("disk unavailable: " ++ exc)]
  | .ok (free, total) =>
    if diskLow free total then
      [⟨"host_disk_low:" ++ toString (freePercent free total),
        "data volume free " ++ toString (freePercent free total) ++ "% below threshold"⟩]
    else []

def measureOps (jobs : List JobSchedule) (host : Host) (now : ℤ) : List MeasuredIssue :=
  (unitIssues jobs host.states now ++ timerIssues host.inactiveTimers ++ diskIssues host.disk).insertionSort
    (fun a b => a.key ≤ b.key)

end Sentinel
