import KClosingAlpha.Py.Value
import Mathlib.Data.List.MinMax
import Mathlib.Data.Nat.Basic
/-!
# Blackout — blackout windows, and the end of the one that contains a moment (`blackout.py`)

Moments are on the clock of Seoul, which keeps one offset, and count microseconds from the first day of its calendar, a
Monday; the calendar has no last day here.  A window that ends where it begins, or before, goes over midnight.
-/
namespace Blackout

/-! ## The clock -/

section clock

variable (moment : Nat)

def day : Nat := moment / 86400000000

/-- `weekday()`: five and six are Saturday and Sunday. -/
def weekday : Nat := day moment % 7

def hour : Nat := moment % 86400000000 / 3600000000

def minuteOfHour : Nat := moment % 3600000000 / 60000000

/-- `moment.hour * 60 + moment.minute`. -/
def minuteOfDay : Nat := hour moment * 60 + minuteOfHour moment

/-- `replace(hour=…, minute=…, second=…, microsecond=0)`. -/
def replace (hour minute second : Nat) : Nat :=
  day moment * 86400000000 + hour * 3600000000 + minute * 60000000 + second * 1000000

theorem minuteOfDay_eq : minuteOfDay moment = moment % 86400000000 / 60000000 := by
  unfold minuteOfDay hour minuteOfHour
  omega

theorem minuteOfDay_lt : minuteOfDay moment < 24 * 60 := by
  rw [minuteOfDay_eq]
  omega

theorem minuteOfDay_le : day moment * 86400000000 + minuteOfDay moment * 60000000 ≤ moment := by
  rw [minuteOfDay_eq, day]
  omega

theorem lt_minuteOfDay : moment < day moment * 86400000000 + (minuteOfDay moment + 1) * 60000000 := by
  rw [minuteOfDay_eq, day]
  omega

end clock

/-! ## Windows -/

/-- A window as it is parsed, in minutes of the day. -/
structure Window where
  start : Nat
  stop : Nat
  start_lt : start < 24 * 60
  stop_le : stop ≤ 24 * 60

/-- The text of `parse_blackout_windows` that is no window. -/
structure InvalidWindow where
  spec : String

section parse

-- the value of a decimal digit of any script
variable (decimal : Char → Option (Fin 10))

/-- Hours and minutes, of four decimal digits. -/
def hoursMinutes : List Char → Option (Nat × Nat)
  | [a, b, c, d] => do
    let h ← decimal a
    let i ← decimal b
    let m ← decimal c
    let n ← decimal d
    pure (10 * h + i, 10 * m + n)
  | _ => none

/-- One turn of `parse_blackout_windows`. -/
def parseBlackoutWindow (spec : String) : Except InvalidWindow Window :=
  let text := Py.stripChars spec.toList
  let startRaw := text.takeWhile (· ≠ '-')
  let endRaw := (text.dropWhile (· ≠ '-')).tail
  match hoursMinutes decimal startRaw, hoursMinutes decimal endRaw with
  | some (h, m), some (h', m') =>
    if hok : (h ≤ 23 ∧ m ≤ 59) ∧ ((h' ≤ 23 ∧ m' ≤ 59) ∨ endRaw = "2400".toList ∧ h' = 24 ∧ m' = 0) then
      .ok ⟨h * 60 + m, h' * 60 + m', by omega, by omega⟩
    else .error ⟨spec⟩
  | _, _ => .error ⟨spec⟩

/-- `parse_blackout_windows`. -/
def parseBlackoutWindows (items : List String) : Except InvalidWindow (List Window) :=
  items.mapM (parseBlackoutWindow decimal)

end parse

/-- `_minute_in_window`. -/
def minuteInWindow (minute : Nat) (window : Window) : Bool :=
  if window.stop ≤ window.start then decide (window.start ≤ minute) || decide (minute < window.stop)
  else decide (window.start ≤ minute) && decide (minute < window.stop)

/-- `in_blackout`. -/
def inBlackout (now : Nat) (windows : List Window) (weekdaysOnly : Bool) : Bool :=
  if weekdaysOnly && decide (5 ≤ weekday now) then false else windows.any (minuteInWindow (minuteOfDay now))

/-- The end of a window that contains the moment. -/
def target (moment : Nat) (window : Window) : Nat :=
  if window.stop ≤ window.start then
    if minuteOfDay moment < window.stop then replace moment (window.stop / 60) (window.stop % 60) 0
    else replace moment 0 0 0 + 86400000000 + window.stop * 60000000
  else if 24 * 60 ≤ window.stop then replace moment 23 59 59 + 1000000
  else replace moment (window.stop / 60) (window.stop % 60) 0

/-- `blackout_end`. -/
def blackoutEnd (now : Nat) (windows : List Window) (weekdaysOnly : Bool) : Option Nat :=
  if weekdaysOnly && decide (5 ≤ weekday now) then none
  else ((windows.filter (minuteInWindow (minuteOfDay now))).map (target now)).max?

/-- `wait_for_blackout`, of what its clock reads, twice in a turn: how long it sleeps in each, and when it returns. -/
def waitForBlackout (windows : List Window) (weekdaysOnly : Bool) : List (Nat × Nat) → List Nat × Option Nat
  | [] => ([], none)
  | (first, second) :: readings =>
    match blackoutEnd first windows weekdaysOnly with
    | none => ([], some first)
    | some e =>
      let later := waitForBlackout windows weekdaysOnly readings
      -- what is negative is no sleep
      ((e - second) :: later.1, later.2)

/-! ## A window that contains a moment -/

/-- The window goes over midnight, and the moment is before midnight. -/
def crossesMidnight (now : Nat) (window : Window) : Bool :=
  decide (window.stop ≤ window.start) && decide (0 < window.stop) && decide (window.start ≤ minuteOfDay now) &&
    decide (window.stop ≤ minuteOfDay now)

/-- **Up to its end a window contains every moment**; some of them are of the next day when it goes over midnight. -/
theorem target_spec {now : Nat} {window : Window} (h : minuteInWindow (minuteOfDay now) window = true) :
    now < target now window ∧ ∀ t, now ≤ t → t < target now window →
      minuteInWindow (minuteOfDay t) window = true ∧
      (day t = day now ∨ day t = day now + 1 ∧ crossesMidnight now window = true) := by
  have hs := window.start_lt
  have he := window.stop_le
  have hle := minuteOfDay_le now
  have hlt := lt_minuteOfDay now
  have hm := minuteOfDay_lt now
  unfold minuteInWindow at h
  unfold target crossesMidnight replace
  by_cases hwrap : window.stop ≤ window.start
  · rw [if_pos hwrap] at h
    rw [if_pos hwrap]
    simp only [Bool.or_eq_true, decide_eq_true_eq] at h
    have hin (t : Nat) : minuteInWindow (minuteOfDay t) window = true ↔
        window.start ≤ minuteOfDay t ∨ minuteOfDay t < window.stop := by
      rw [minuteInWindow, if_pos hwrap]
      simp
    by_cases hbefore : minuteOfDay now < window.stop
    · rw [if_pos hbefore]
      refine ⟨Nat.lt_of_not_le fun hnot => by omega, fun t ht hte => ?_⟩
      have htle := minuteOfDay_le t
      have htlt := lt_minuteOfDay t
      have htm := minuteOfDay_lt t
      exact ⟨(hin t).2 (by omega), .inl (by omega)⟩
    · rw [if_neg hbefore]
      refine ⟨Nat.lt_of_not_le fun hnot => by omega, fun t ht hte => ?_⟩
      have htle := minuteOfDay_le t
      have htlt := lt_minuteOfDay t
      have htm := minuteOfDay_lt t
      refine ⟨(hin t).2 (by omega), ?_⟩
      simp only [Bool.and_eq_true, decide_eq_true_eq]
      omega
  · rw [if_neg hwrap] at h
    rw [if_neg hwrap]
    simp only [Bool.and_eq_true, decide_eq_true_eq] at h
    have hin (t : Nat) : minuteInWindow (minuteOfDay t) window = true ↔
        window.start ≤ minuteOfDay t ∧ minuteOfDay t < window.stop := by
      rw [minuteInWindow, if_neg hwrap]
      simp
    have hend : (if 24 * 60 ≤ window.stop then day now * 86400000000 + 23 * 3600000000 + 59 * 60000000 + 59 * 1000000 + 1000000
        else day now * 86400000000 + window.stop / 60 * 3600000000 + window.stop % 60 * 60000000 + 0 * 1000000) =
        day now * 86400000000 + window.stop * 60000000 := by
      split_ifs <;> omega
    rw [hend]
    refine ⟨Nat.lt_of_not_le fun hnot => by omega, fun t ht hte => ?_⟩
    have htle := minuteOfDay_le t
    have htlt := lt_minuteOfDay t
    have htm := minuteOfDay_lt t
    exact ⟨(hin t).2 (by omega), .inl (by omega)⟩

/-! ## The end of the blackout -/

section agree

variable {now e : Nat} {windows : List Window} {weekdaysOnly : Bool}

theorem blackoutEnd_eq_some (h : blackoutEnd now windows weekdaysOnly = some e) :
    (weekdaysOnly && decide (5 ≤ weekday now)) = false ∧
    (∃ w ∈ windows, minuteInWindow (minuteOfDay now) w = true ∧ target now w = e) ∧
    ∀ w ∈ windows, minuteInWindow (minuteOfDay now) w = true → target now w ≤ e := by
  unfold blackoutEnd at h
  split_ifs at h with hweekend
  obtain ⟨hmem, hmax⟩ := List.max?_eq_some_iff.1 h
  obtain ⟨w, hw, htarget⟩ := List.mem_map.1 hmem
  obtain ⟨hw, hin⟩ := List.mem_filter.1 hw
  refine ⟨by simpa using hweekend, ⟨w, hw, hin, htarget⟩, fun w' hw' hin' => ?_⟩
  exact hmax _ (List.mem_map_of_mem (List.mem_filter.2 ⟨hw', hin'⟩))

/-- **No end outside of the blackout, and one in it.** -/
theorem blackoutEnd_eq_none_iff : blackoutEnd now windows weekdaysOnly = none ↔ inBlackout now windows weekdaysOnly = false := by
  unfold blackoutEnd inBlackout
  split_ifs with hweekend
  · simp
  · rw [List.max?_eq_none_iff, List.map_eq_nil_iff, List.filter_eq_nil_iff, List.any_eq_false]

/-- What `blackout_end` is to say of a moment. -/
structure Agrees (now : Nat) (windows : List Window) (weekdaysOnly : Bool) : Prop where
  isNone : blackoutEnd now windows weekdaysOnly = none ↔ inBlackout now windows weekdaysOnly = false
  isEnd : ∀ e, blackoutEnd now windows weekdaysOnly = some e →
    now < e ∧ ∀ t, now ≤ t → t < e → inBlackout t windows weekdaysOnly = true

/-- No window of a Friday night goes on into the weekend that has no blackout. -/
def EndsByFriday (now : Nat) (windows : List Window) (weekdaysOnly : Bool) : Prop :=
  weekdaysOnly = true → weekday now = 4 → ∀ w ∈ windows, crossesMidnight now w = false

/-- Of a window over midnight, the midnight is before its end. -/
theorem midnight_lt_target {w : Window} (h : crossesMidnight now w = true) :
    minuteInWindow (minuteOfDay now) w = true ∧ (day now + 1) * 86400000000 < target now w := by
  unfold crossesMidnight at h
  simp only [Bool.and_eq_true, decide_eq_true_eq] at h
  obtain ⟨⟨⟨hwrap, hpos⟩, hstart⟩, hstop⟩ := h
  refine ⟨by simp [minuteInWindow, hwrap, hstart], ?_⟩
  rw [target, if_pos hwrap, if_neg (Nat.not_lt.2 hstop), replace]
  exact Nat.lt_of_not_le fun hnot => by omega

theorem inBlackout_of_endsByFriday (hfri : EndsByFriday now windows weekdaysOnly)
    (h : blackoutEnd now windows weekdaysOnly = some e) {t : Nat} (ht : now ≤ t) (hte : t < e) :
    inBlackout t windows weekdaysOnly = true := by
  obtain ⟨hweek, ⟨w, hw, hin, rfl⟩, -⟩ := blackoutEnd_eq_some h
  obtain ⟨hint, hday⟩ := (target_spec hin).2 t ht hte
  have hopen : (weekdaysOnly && decide (5 ≤ weekday t)) = false := by
    cases weekdaysOnly with
    | false => rfl
    | true =>
      simp only [Bool.true_and, decide_eq_false_iff_not, Nat.not_le] at hweek ⊢
      rcases hday with hday | ⟨hday, hcross⟩
      · unfold weekday at hweek ⊢
        rw [hday]
        exact hweek
      · -- the night before is not that of a Friday
        have hne : weekday now ≠ 4 := fun hf => by
          rw [hfri rfl hf w hw] at hcross
          cases hcross
        unfold weekday at hweek hne ⊢
        omega
  rw [inBlackout, hopen, if_neg (by decide)]
  exact List.any_eq_true.2 ⟨w, hw, hint⟩

/-- **Up to the end that is returned it is blackout, but for a Friday night that goes on into Saturday**; a wait returns
outside of the blackout, and otherwise it never sleeps past its end. -/
theorem blackoutEnd_agrees_iff (windows : List Window) (weekdaysOnly : Bool) :
    (∀ now, Agrees now windows weekdaysOnly ↔ EndsByFriday now windows weekdaysOnly) ∧
    ∀ readings, (∀ t, (waitForBlackout windows weekdaysOnly readings).2 = some t → inBlackout t windows weekdaysOnly = false) ∧
      ∀ x ∈ readings.zip (waitForBlackout windows weekdaysOnly readings).1, EndsByFriday x.1.1 windows weekdaysOnly →
        x.2 ≠ 0 → ∀ t, x.1.1 ≤ t → t < x.1.2 + x.2 → inBlackout t windows weekdaysOnly = true := by
  refine ⟨fun now => ⟨fun h hweekdays hfri w hw => ?_, fun hfri => ⟨blackoutEnd_eq_none_iff, fun e he => ?_⟩⟩, ?_⟩
  · by_contra hcross
    rw [Bool.not_eq_false] at hcross
    obtain ⟨hin, hmid⟩ := midnight_lt_target hcross
    cases he : blackoutEnd now windows weekdaysOnly with
    | none =>
      have hout := h.isNone.1 he
      unfold inBlackout at hout
      rw [hweekdays, hfri, if_neg (by decide), List.any_eq_false] at hout
      exact hout w hw hin
    | some e =>
      obtain ⟨-, -, hmax⟩ := blackoutEnd_eq_some he
      have hlt := lt_minuteOfDay now
      have hm := minuteOfDay_lt now
      have hsat := (h.isEnd e he).2 ((day now + 1) * 86400000000) (by omega) (Nat.lt_of_lt_of_le hmid (hmax w hw hin))
      have hweekend : 5 ≤ weekday ((day now + 1) * 86400000000) := by
        unfold weekday at hfri ⊢
        rw [show day ((day now + 1) * 86400000000) = day now + 1 from Nat.mul_div_cancel _ (by decide)]
        omega
      rw [inBlackout, hweekdays, if_pos (by simp [hweekend])] at hsat
      cases hsat
  · obtain ⟨-, ⟨w, -, hin, rfl⟩, -⟩ := blackoutEnd_eq_some he
    exact ⟨(target_spec hin).1, fun t ht hte => inBlackout_of_endsByFriday hfri he ht hte⟩
  · intro readings
    induction readings with
    | nil => exact ⟨fun t h => (by cases h), fun x hx => (by cases hx)⟩
    | cons r readings ih =>
      obtain ⟨first, second⟩ := r
      rw [waitForBlackout]
      cases he : blackoutEnd first windows weekdaysOnly with
      | none =>
        refine ⟨fun t ht => ?_, fun x hx => by cases hx⟩
        rw [← Option.some.inj ht]
        exact blackoutEnd_eq_none_iff.1 he
      | some e =>
        refine ⟨ih.1, fun x hx hfri hne t ht hlt => ?_⟩
        rw [List.zip_cons_cons, List.mem_cons] at hx
        rcases hx with rfl | hx
        · exact inBlackout_of_endsByFriday hfri he ht (by dsimp only at hlt hne; omega)
        · exact ih.2 x hx hfri hne t ht hlt

/-- From ten in the evening to six. -/
def overnight : Window := ⟨22 * 60, 6 * 60, by decide, by decide⟩

/-- On a Monday night the end is that of the blackout. -/
theorem blackoutEnd_agrees_monday : Agrees (23 * 3600000000) [overnight] true :=
  ((blackoutEnd_agrees_iff [overnight] true).1 (23 * 3600000000)).2 (by
    intro _ hfri
    exact absurd hfri (by decide))

/-- On a Friday night it is on Saturday morning, which is no blackout. -/
theorem not_agrees_friday : ¬ Agrees (4 * 86400000000 + 23 * 3600000000) [overnight] true := by
  intro h
  have hsat := (h.isEnd (5 * 86400000000 + 6 * 3600000000) (by decide +kernel)).2 (5 * 86400000000) (by decide) (by decide)
  exact absurd hsat (by decide +kernel)

end agree

end Blackout
