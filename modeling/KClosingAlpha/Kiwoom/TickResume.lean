import KClosingAlpha.Intraday.Frame
import KClosingAlpha.Kiwoom.TickChart
/-!
# TickResume — a symbol's ticks from a first pass and its resume (`_acquire_kiwoom_ticks`)

A first pass that is cut hands its cursor to a second, and the rows of both are checked against the vendor's total.
What is certified depends on a payload only through its rows and how its pagination ended (`certified_attempt`), so it is
what one pass that nothing cuts would be certified as.  Frames are parameters, and the store does not fail.
-/
namespace Kiwoom
namespace TickChart

open Intraday (CaptureStatus CoverageEntry)

/-! ## Settings -/

/-- The limits of an acquisition, with the bounds their fields are declared with. -/
structure CollectionSettings where
  chartMaxPages : Nat
  tickRepairMaxPages : Nat
  tickRowsPerPage : Nat
  tickResumeMarginPages : Nat
  transportRetries : Nat
  verifiedChartRoutes : List (String × String)
  chartMaxPages_pos : 0 < chartMaxPages
  tickRepairMaxPages_pos : 0 < tickRepairMaxPages
  tickRowsPerPage_pos : 0 < tickRowsPerPage

namespace CollectionSettings

variable (s : CollectionSettings)

def venueFor (endpoint : String) : String := (s.verifiedChartRoutes.lookup ("kiwoom:" ++ endpoint)).getD "UNKNOWN"

/-- The pages of `_repair_budget`. -/
def repairBudget : Nat := s.tickRepairMaxPages

/-- The pages of `_resume_budget`. -/
def resumeBudget : Option Nat → Nat
  | none => max 1 s.tickRepairMaxPages
  | some remaining =>
    max 1 (min s.tickRepairMaxPages
      ((remaining + s.tickRowsPerPage - 1) / s.tickRowsPerPage + s.tickResumeMarginPages))

end CollectionSettings

/-! ## One payload -/

/-- What an attempt reads of its call, the payload apart; `normalize` is `_safe_normalize_ticks`, `stage` the reference
`_stage_fragment` returns. -/
structure Attempt (Frame : Type) where
  settings : CollectionSettings
  endpoint : String
  code : String
  ymd : String
  floor : String
  ceil : String
  sessionTag : String
  allowNoTrades : Bool
  crossedDateNoTrades : Bool
  normalize : List Row → Bool → Frame
  emptyFrame : Frame
  height : Frame → Nat
  stage : String → Frame → String

/-- `_event_key`. -/
def eventKey (r : Row) : String × String :=
  let tm := Row.cntrTm r
  if 14 ≤ tm.toList.length then (String.ofList (tm.toList.take 8), String.ofList ((tm.toList.drop 8).take 6))
  else ("", "")

namespace Attempt

section

variable {Frame : Type} (u : UnicodeDigits) (a : Attempt Frame)

def venue : String := a.settings.venueFor a.endpoint

def inWindow (r : Row) : Bool :=
  let (day, hms) := eventKey r
  (day == "" || day == a.ymd) && decide (hms.toList.length = 6) && hms.toList.all u.isdigit &&
    decide (a.floor ≤ hms) && decide (hms ≤ a.ceil)

/-- `_split_session_window`. -/
def splitSessionWindow (rows : List Row) : List Row × List Row := rows.partition (a.inWindow u)

/-- `_terminal_entry`, of an attempt that certifies nothing. -/
def refused (status : CaptureStatus) (h : status = .failed ∨ status = .part ∨ status = .unknown) (reason : String)
    (refs : List String) : CoverageEntry where
  symbol := some a.code
  venue := a.venue
  session := a.sessionTag
  status := status
  rows := 0
  reason := reason
  rawRefs := refs
  evidence hs := by rcases h with rfl | rfl | rfl <;> simp at hs
  certified _ := by rcases h with rfl | rfl | rfl <;> simp

/-- `_terminal_entry`, of a window without trades. -/
def noTrades (refs : List String) (hrefs : refs ≠ []) : CoverageEntry where
  symbol := some a.code
  venue := a.venue
  session := a.sessionTag
  status := .noTrades
  rows := 0
  reason := "no_trades_in_window"
  rawRefs := refs
  evidence _ := ⟨by decide, hrefs⟩
  certified _ := nofun

/-- `_terminal_entry`, of a complete window. -/
def complete (rows : Nat) (reason : String) (refs : List String) (hvenue : a.venue ≠ "UNKNOWN") : CoverageEntry where
  symbol := some a.code
  venue := a.venue
  session := a.sessionTag
  status := .complete
  rows := rows
  reason := reason
  rawRefs := refs
  evidence hs := by simp at hs
  certified hv := absurd hv hvenue

/-- The references after staging rows, when there are any. -/
def stageRows (rows : List Row) (truncated : Bool) (reason : String) (refs : List String) : List String :=
  if rows.isEmpty then refs else refs ++ [a.stage reason (a.normalize rows truncated)]

/-- `_EXHAUSTED_TERMINALS`. -/
def exhaustedTerminals : List Termination := [.exhausted, .crossedTargetDate, .crossedTimeFloor]

/-- `_tick_source_attempt`, with the references it leaves. -/
def tickSourceAttempt (p : Payload) (refs : List String) : Option (Frame × CoverageEntry) × List String :=
  if p.rtCd ≠ "0" then (some (a.emptyFrame, a.refused .failed (.inl rfl) "vendor_failure" refs), refs)
  else
    let (regular, other) := a.splitSessionWindow u p.output2
    let refs := a.stageRows other p.truncated "out_of_window" refs
    if p.truncated then (none, a.stageRows regular true "truncated_partial" refs)
    else
      let uncertified := "uncertified:" ++ p.terminationReason.value
      if hv : p.terminationReason ∉ exhaustedTerminals ∨ a.venue = "UNKNOWN" then
        let refs := a.stageRows regular false uncertified refs
        (some (a.emptyFrame, a.refused .unknown (.inr (.inr rfl)) uncertified refs), refs)
      else
        let frame := a.normalize regular false
        if a.height frame = 0 then
          if h : (a.allowNoTrades ∨ a.crossedDateNoTrades ∧ p.terminationReason = .crossedTargetDate) ∧
              regular = [] ∧ refs ≠ [] then
            (some (a.emptyFrame, a.noTrades refs h.2.2), refs)
          else (some (a.emptyFrame, a.refused .unknown (.inr (.inr rfl)) "empty_without_proof" refs), refs)
        else
          (some (frame, a.complete (a.height frame)
            (p.terminationReason.value ++ ":regular=" ++ toString regular.length) refs (fun h => hv (.inr h))), refs)

/-- The reason of a certified entry also names the vendor's total. -/
def nameTotal (total : Option Nat) (o : Frame × CoverageEntry) : Frame × CoverageEntry :=
  match total with
  | none => o
  | some total =>
    if h : o.2.status = .complete then
      (o.1, { o.2 with
        reason := o.2.reason ++ ":vendor_total=" ++ toString total
        evidence := fun hs => by simp [h] at hs })
    else o

/-- `_certified_kiwoom_attempt`, with the references it leaves. -/
def certifiedKiwoomAttempt (payload : Payload) (firstRows : List Row) (refs : List String) :
    Option (Frame × CoverageEntry) × List String :=
  let p := if payload.rtCd = "0" then { payload with output2 := firstRows ++ payload.output2 } else payload
  let mismatch := p.vendorTotalTicks.filter (fun total => decide (p.output2.length ≠ total))
  match if p.rtCd = "0" ∧ p.truncated = false ∧ p.terminationReason = .exhausted then mismatch else none with
  | some total =>
    let refs := a.stageRows (a.splitSessionWindow u p.output2).1 false "total_mismatch" refs
    (some (a.emptyFrame, a.refused .part (.inr (.inl rfl)) ("total_mismatch:vendor_total=" ++ toString total ++
      ":delivered=" ++ toString p.output2.length) refs), refs)
  | none =>
    let r := a.tickSourceAttempt u p refs
    (r.1.map (nameTotal p.vendorTotalTicks), r.2)

end

end Attempt

/-! ## A first pass and its resume -/

/-- `_vendor_remaining`. -/
def Payload.vendorRemaining (p : Payload) : Option Nat := p.vendorTotalTicks.map (· - p.rowsReceived)

/-- A vendor call by its slot: what it returns or raises, and the references its pages leave. -/
abbrev Invoke := Nat → Except Raised Payload × List String

/-- `_call_with_transport_retry`, with `left` tries after this one. -/
def callWithTransportRetry (transient : Raised → Bool) (invoke : Invoke) :
    Nat → Nat → Except Raised (Payload × Nat) × List String
  | left, slot =>
    match invoke slot with
    | (.ok payload, refs) => (.ok (payload, slot + 1), refs)
    | (.error exc, refs) =>
      match left with
      | 0 => (.error exc, refs)
      | left + 1 =>
        if transient exc then
          let r := callWithTransportRetry transient invoke left (slot + 1)
          (r.1, refs ++ r.2)
        else (.error exc, refs)

structure KiwoomTickResult (Frame : Type) where
  outcome : Option (Frame × CoverageEntry)
  pendingRemaining : Option Nat
  transportError : Option Raised

section acquire

variable {Frame : Type} (u : UnicodeDigits) (a : Attempt Frame) (transient : Raised → Bool)

/-- `_acquire_kiwoom_ticks`; `fetch` reads a slot, the pages of a budget, and a cursor. -/
def acquireKiwoomTicks (fetch : Option Nat → Option TickCursor → Invoke) : Except Raised (KiwoomTickResult Frame) :=
  match callWithTransportRetry transient (fetch none none) a.settings.transportRetries 0 with
  | (.error .base, _) => .error .base
  | (.error exc, _) => .ok ⟨none, none, some exc⟩
  | (.ok (payload, slot), refs) =>
    match a.certifiedKiwoomAttempt u payload [] refs with
    | (some outcome, _) => .ok ⟨some outcome, none, none⟩
    | (none, refs) =>
      let remaining := payload.vendorRemaining
      let budget := if payload.cursor.isSome then a.settings.resumeBudget remaining else a.settings.repairBudget
      match callWithTransportRetry transient (fetch (some budget) payload.cursor) a.settings.transportRetries slot with
      | (.error .base, _) => .error .base
      | (.error exc, _) => .ok ⟨none, remaining, some exc⟩
      | (.ok (repaired, _), refs') =>
        let firstRows := if payload.cursor.isSome then payload.output2 else []
        match a.certifiedKiwoomAttempt u repaired firstRows (refs ++ refs') with
        | (some outcome, _) => .ok ⟨some outcome, none, none⟩
        | (none, _) => .ok ⟨none, repaired.vendorRemaining.or remaining, none⟩

/-- The fetch of a symbol: `max_pages` for a first pass, and the budget for a second. -/
def fetchTicks (s : CollectionSettings) (q : Query) (tape : Tape) (maxPages : Int) (events : Nat → Nat → Event)
    (ref : Nat → Nat → String) (budget : Option Nat) (resume : Option TickCursor) : Invoke := fun slot =>
  match resolvePages (if budget.isNone then some maxPages else none) (budget.map Int.ofNat) s.chartMaxPages with
  | .error msg => (.error (.exception msg), [])
  | .ok pages =>
    (getTickChart u q tape (events slot) pages resume,
      (List.range (Scan.run u q tape (events slot) (max 1 pages) 0 (.start resume)).1.pagesFetched).map (ref slot))

end acquire

/-! ## What is certified -/

section certified

variable {Frame : Type} {u : UnicodeDigits} {a : Attempt Frame}

/-- A certified outcome, its evidence apart: the frame, the status, the rows and the reason. -/
def settle (o : Frame × CoverageEntry) : Option (Frame × CaptureStatus × Nat × String) :=
  if o.2.isCertified then some (o.1, o.2.status, o.2.rows, o.2.reason) else none

/-- What an acquisition certifies. -/
def certified : Except Raised (KiwoomTickResult Frame) → Option (Frame × CaptureStatus × Nat × String)
  | .ok r => r.outcome.bind settle
  | .error _ => none

namespace Attempt

theorem stageRows_ne_nil {rows : List Row} {truncated : Bool} {reason : String} {refs : List String} (h : refs ≠ []) :
    a.stageRows rows truncated reason refs ≠ [] := by
  unfold stageRows
  split
  · exact h
  · simp

theorem settle_refused {frame : Frame} {status : CaptureStatus}
    {h : status = .failed ∨ status = .part ∨ status = .unknown}
    {reason : String} {refs : List String} : settle (frame, a.refused status h reason refs) = none := by
  rcases h with rfl | rfl | rfl <;> simp [settle, refused, CoverageEntry.isCertified]

theorem nameTotal_refused {frame : Frame} {status : CaptureStatus}
    {h : status = .failed ∨ status = .part ∨ status = .unknown} {reason : String} {refs : List String}
    {total : Option Nat} :
    nameTotal total (frame, a.refused status h reason refs) = (frame, a.refused status h reason refs) := by
  rcases h with rfl | rfl | rfl <;> cases total <;> simp [nameTotal, refused]

/-- What a payload is certified as, once pages of it were kept. -/
def verdict (u : UnicodeDigits) (a : Attempt Frame) (rows : List Row) (truncated : Bool) (reason : Termination)
    (total : Option Nat) : Option (Frame × CaptureStatus × Nat × String) :=
  if truncated = true ∨ reason ∉ exhaustedTerminals ∨ a.venue = "UNKNOWN" then none
  else if reason = .exhausted ∧ total.any (fun total => decide (rows.length ≠ total)) = true then none
  else
    let regular := (a.splitSessionWindow u rows).1
    let frame := a.normalize regular false
    if a.height frame = 0 then
      if (a.allowNoTrades ∨ a.crossedDateNoTrades ∧ reason = .crossedTargetDate) ∧ regular = [] then
        some (a.emptyFrame, .noTrades, 0, "no_trades_in_window")
      else none
    else
      let text := reason.value ++ ":regular=" ++ toString regular.length
      some (frame, .complete, a.height frame, match total with
        | none => text
        | some total => text ++ ":vendor_total=" ++ toString total)

theorem settle_tickSourceAttempt {p : Payload} {refs : List String} (h0 : p.rtCd = "0") (hrefs : refs ≠ [])
    (total : Option Nat) (ht : ¬ p.truncated = true → ¬ (p.terminationReason = .exhausted ∧
      total.any (fun total => decide (p.output2.length ≠ total)) = true)) :
    ((a.tickSourceAttempt u p refs).1.map (nameTotal total)).bind settle =
      verdict u a p.output2 p.truncated p.terminationReason total := by
  have hstaged : a.stageRows (a.splitSessionWindow u p.output2).2 p.truncated "out_of_window" refs ≠ [] :=
    stageRows_ne_nil hrefs
  unfold tickSourceAttempt verdict
  rw [if_neg (not_not.2 h0)]
  dsimp only
  by_cases htr : p.truncated = true
  · rw [if_pos htr, if_pos (.inl htr)]
    rfl
  · by_cases hv : p.terminationReason ∉ exhaustedTerminals ∨ a.venue = "UNKNOWN"
    · rw [if_neg htr, dif_pos hv, if_pos (.inr hv), Option.map_some, nameTotal_refused]
      exact settle_refused
    · have hend : ¬ (p.truncated = true ∨ p.terminationReason ∉ exhaustedTerminals ∨ a.venue = "UNKNOWN") :=
        fun h => h.elim htr hv
      rw [if_neg htr, dif_neg hv, if_neg hend, if_neg (ht htr)]
      by_cases hh : a.height (a.normalize (a.splitSessionWindow u p.output2).1 false) = 0
      · rw [if_pos hh, if_pos hh]
        by_cases hn : (a.allowNoTrades ∨ a.crossedDateNoTrades ∧ p.terminationReason = .crossedTargetDate) ∧
            (a.splitSessionWindow u p.output2).1 = []
        · rw [dif_pos ⟨hn.1, hn.2, hstaged⟩, if_pos hn]
          cases total <;> simp [settle, nameTotal, noTrades, CoverageEntry.isCertified]
        · rw [dif_neg (fun h => hn ⟨h.1, h.2.1⟩), if_neg hn, Option.map_some, nameTotal_refused]
          exact settle_refused
      · rw [if_neg hh, if_neg hh]
        cases total <;> simp [settle, nameTotal, complete, CoverageEntry.isCertified]

/-- What an attempt certifies is read off the rows and the end of the pagination. -/
theorem settle_certifiedKiwoomAttempt {p : Payload} {firstRows : List Row} {refs : List String} (h0 : p.rtCd = "0")
    (hrefs : refs ≠ []) :
    (a.certifiedKiwoomAttempt u p firstRows refs).1.bind settle =
      verdict u a (firstRows ++ p.output2) p.truncated p.terminationReason p.vendorTotalTicks := by
  unfold certifiedKiwoomAttempt
  simp only [h0, if_true, true_and]
  split
  · -- the total the vendor told is not the number of rows
    rename_i total hm
    obtain ⟨⟨-, hreason⟩, hf⟩ := (Option.ite_none_right_eq_some (p := p.truncated = false ∧ _)).1 hm
    obtain ⟨htotal, hne⟩ := Option.filter_eq_some_iff.1 hf
    have hnone : verdict u a (firstRows ++ p.output2) p.truncated p.terminationReason p.vendorTotalTicks = none := by
      unfold verdict
      rw [if_pos (show p.terminationReason = .exhausted ∧ p.vendorTotalTicks.any _ = true from
        ⟨hreason, by rw [htotal]; exact hne⟩)]
      split <;> rfl
    rw [hnone]
    exact settle_refused
  · rename_i hm
    refine settle_tickSourceAttempt rfl hrefs _ fun htr => ?_
    rintro ⟨hreason, hany⟩
    rw [if_pos ⟨by simpa using htr, hreason⟩] at hm
    cases htotal : p.vendorTotalTicks with
    | none => simp [htotal] at hany
    | some total =>
      rw [htotal] at hm hany
      exact absurd hany (by simpa using hm)

theorem settle_of_failed {p : Payload} {firstRows : List Row} {refs : List String} (h0 : p.rtCd ≠ "0") :
    (a.certifiedKiwoomAttempt u p firstRows refs).1.bind settle = none := by
  unfold certifiedKiwoomAttempt
  simp only [h0, false_and, if_false, tickSourceAttempt, ne_eq, not_false_eq_true, if_true, Option.map_some,
    nameTotal_refused]
  exact settle_refused

theorem none_of_truncated {p : Payload} {firstRows : List Row} {refs : List String} (h0 : p.rtCd = "0")
    (ht : p.truncated = true) : (a.certifiedKiwoomAttempt u p firstRows refs).1 = none := by
  unfold certifiedKiwoomAttempt
  simp [h0, ht, tickSourceAttempt]

theorem certifiedKiwoomAttempt_refs {p : Payload} {firstRows : List Row} {refs : List String} (h : refs ≠ []) :
    (a.certifiedKiwoomAttempt u p firstRows refs).2 ≠ [] := by
  have hsource : ∀ p : Payload, (a.tickSourceAttempt u p refs).2 ≠ [] := by
    intro p
    unfold tickSourceAttempt
    dsimp only
    split_ifs
    all_goals first | exact h | exact stageRows_ne_nil h | exact stageRows_ne_nil (stageRows_ne_nil h)
  unfold certifiedKiwoomAttempt
  dsimp only
  split
  · exact stageRows_ne_nil h
  · exact hsource _

end Attempt

/-! ## The calls of an acquisition -/

variable {transient : Raised → Bool} {q : Query} {tape : Tape} {events : Nat → Nat → Event} {ref : Nat → Nat → String}

theorem retry_ok {invoke : Invoke} {left slot slot' : Nat} {p : Payload} {refs : List String}
    (h : callWithTransportRetry transient invoke left slot = (.ok (p, slot'), refs)) :
    ∃ s earlier pages, invoke s = (.ok p, pages) ∧ refs = earlier ++ pages := by
  induction left generalizing slot refs with
  | zero =>
    unfold callWithTransportRetry at h
    cases hi : invoke slot with
    | mk r pages =>
      cases r with
      | ok payload =>
        rw [hi] at h
        cases h
        exact ⟨slot, [], refs, hi, rfl⟩
      | error exc => rw [hi] at h; cases h
  | succ left ih =>
    unfold callWithTransportRetry at h
    cases hi : invoke slot with
    | mk r pages =>
      cases r with
      | ok payload =>
        rw [hi] at h
        cases h
        exact ⟨slot, [], refs, hi, rfl⟩
      | error exc =>
        simp only [hi] at h
        split at h
        · cases hr : callWithTransportRetry transient invoke left (slot + 1) with
          | mk r later =>
            rw [hr] at h
            cases h
            obtain ⟨s, earlier, pages', hs, rfl⟩ := ih hr
            exact ⟨s, pages ++ earlier, pages', hs, (List.append_assoc ..).symm⟩
        · cases h

theorem fetch_ok {s : CollectionSettings} {maxPages : Int} {budget : Option Nat} {resume : Option TickCursor} {slot : Nat}
    {p : Payload} {refs : List String} (h : fetchTicks u s q tape maxPages events ref budget resume slot = (.ok p, refs)) :
    ∃ pages, getTickChart u q tape (events slot) pages resume = .ok p ∧
      (1 ≤ p.pagesFetched → p.rtCd = "0" → refs ≠ []) := by
  unfold fetchTicks at h
  split at h
  · cases h
  · obtain ⟨h1, rfl⟩ := Prod.mk.inj h
    refine ⟨_, h1, fun hp h0 => ?_⟩
    obtain ⟨reason, rfl, -⟩ := outcome_ok h1 h0
    simpa [Scan.ended, Nat.one_le_iff_ne_zero] using hp

/-- The first pass is cut after a page, and the second, from its cursor, is not. -/
def Resumes (a : Attempt Frame) (transient : Raised → Bool) (fetch : Option Nat → Option TickCursor → Invoke)
    (first second : Payload) : Prop :=
  ∃ slot slot' cursor refs refs',
    callWithTransportRetry transient (fetch none none) a.settings.transportRetries 0 = (.ok (first, slot), refs) ∧
    (first.rtCd = "0" ∧ first.terminationReason.cut = true ∧ 1 ≤ first.pagesFetched ∧ first.cursor = some cursor) ∧
    callWithTransportRetry transient (fetch (some (a.settings.resumeBudget first.vendorRemaining)) (some cursor))
      a.settings.transportRetries slot = (.ok (second, slot'), refs') ∧
    second.rtCd = "0" ∧ second.terminationReason.cut = false

/-- The second pass of an acquisition whose first certifies nothing. -/
theorem certified_second {fetch : Option Nat → Option TickCursor → Invoke} {p p' : Payload} {slot slot' : Nat}
    {refs refs' kept : List String}
    (h1 : callWithTransportRetry transient (fetch none none) a.settings.transportRetries 0 = (.ok (p, slot), refs))
    (hnone : a.certifiedKiwoomAttempt u p [] refs = (none, kept))
    (h2 : callWithTransportRetry transient
      (fetch (some (if p.cursor.isSome then a.settings.resumeBudget p.vendorRemaining else a.settings.repairBudget))
        p.cursor) a.settings.transportRetries slot = (.ok (p', slot'), refs')) :
    certified (acquireKiwoomTicks u a transient fetch) =
      (a.certifiedKiwoomAttempt u p' (if p.cursor.isSome then p.output2 else []) (kept ++ refs')).1.bind settle := by
  unfold acquireKiwoomTicks
  simp only [h1, hnone, h2]
  obtain ⟨outcome, _⟩ := a.certifiedKiwoomAttempt u p' (if p.cursor.isSome then p.output2 else []) (kept ++ refs')
  cases outcome <;> rfl

/-- A first pass and its resume are certified as the payload is that nothing cuts. -/
theorem Resumes.certified {maxPages : Int} {first second : Payload} (h : NoRepeats tape)
    (hq : ∀ slot, Quiet (events slot))
    (hr : Resumes a transient (fetchTicks u a.settings q tape maxPages events ref) first second) :
    ∃ whole, Unbroken u q tape whole ∧ whole.rtCd = "0" ∧ whole.cursor = none ∧ 1 ≤ whole.pagesFetched ∧
      certified (acquireKiwoomTicks u a transient (fetchTicks u a.settings q tape maxPages events ref)) =
        a.verdict u whole.output2 whole.truncated whole.terminationReason whole.vendorTotalTicks := by
  obtain ⟨slot, slot', cursor, refs, refs', h1, ⟨hrt, hcut, hpages, hcur⟩, h2, hrt', hcut'⟩ := hr
  obtain ⟨s₁, earlier, seen, hs₁, rfl⟩ := retry_ok h1
  obtain ⟨s₂, earlier', seen', hs₂, rfl⟩ := retry_ok h2
  obtain ⟨n₁, hg₁, hseen⟩ := fetch_ok hs₁
  obtain ⟨n₂, hg₂, -⟩ := fetch_ok hs₂
  have hchain : Chain u q tape none [⟨n₁, events s₁, first⟩, ⟨n₂, events s₂, second⟩] second :=
    .cut ⟨hg₁, hrt⟩ hcut hpages hcur (.last (c := ⟨n₂, events s₂, second⟩) ⟨hg₂, hrt'⟩ hcut')
  obtain ⟨whole, hw, hw0, hrows, htotal, -, -, hreason, htr, hwcur, hwpages⟩ := hchain.unbroken h (by simp [hq])
  refine ⟨whole, hw, hw0, hwcur, hwpages, ?_⟩
  have hseen' : (a.certifiedKiwoomAttempt u first [] (earlier ++ seen)).2 ≠ [] :=
    Attempt.certifiedKiwoomAttempt_refs (List.append_ne_nil_of_right_ne_nil earlier (hseen hpages hrt))
  have hnone : (a.certifiedKiwoomAttempt u first [] (earlier ++ seen)).1 = none :=
    Attempt.none_of_truncated hrt (truncated_of_cut hg₁ hrt hcut)
  rw [certified_second h1 (Prod.ext hnone rfl) (by rw [hcur]; exact h2),
    Attempt.settle_certifiedKiwoomAttempt hrt' (List.append_ne_nil_of_left_ne_nil hseen' _), hrows, htotal, hreason, htr]
  simp [hcur]

/-- A second pass without a cursor certifies nothing its first did not. -/
theorem settle_restart {whole p : Payload} {pages : Nat} (h : NoRepeats tape) (hw : Unbroken u q tape whole)
    (hnone : a.verdict u whole.output2 whole.truncated whole.terminationReason whole.vendorTotalTicks = none)
    (hp : getTickChart u q tape (fun _ => .arrives none) pages none = .ok p) {refs : List String} (hrefs : refs ≠ []) :
    (a.certifiedKiwoomAttempt u p [] refs).1.bind settle = none := by
  by_cases h0 : p.rtCd = "0"
  · cases hcut : p.terminationReason.cut with
    | true =>
      rw [Attempt.none_of_truncated h0 (truncated_of_cut hp h0 hcut)]
      rfl
    | false =>
      have hchain : Chain u q tape none [⟨pages, fun _ => .arrives none, p⟩] p :=
        .last (c := ⟨pages, fun _ => .arrives none, p⟩) ⟨hp, h0⟩ hcut
      obtain ⟨whole', hw', -, hrows, htotal, -, -, hreason, htr, -⟩ := hchain.unbroken h (by simp [Quiet])
      obtain rfl := hw'.eq hw
      rw [Attempt.settle_certifiedKiwoomAttempt h0 hrefs, ← hnone, hrows, htotal, hreason, htr]
      simp
  · exact Attempt.settle_of_failed h0

/-- A first pass that nothing cuts is certified as its payload. -/
theorem Unbroken.certified {whole : Payload} (h : NoRepeats tape) (hw : Unbroken u q tape whole)
    (h0 : whole.rtCd = "0") (hcur : whole.cursor = none) (hpages : 1 ≤ whole.pagesFetched) :
    ∃ n, ∀ pages : Int, n ≤ pages → ∀ ref,
      certified (acquireKiwoomTicks u a transient (fetchTicks u a.settings q tape pages (fun _ _ => .arrives none) ref)) =
        a.verdict u whole.output2 whole.truncated whole.terminationReason whole.vendorTotalTicks := by
  obtain ⟨n, hn⟩ := id hw
  refine ⟨max 1 n, fun pages hle ref => ?_⟩
  obtain ⟨refs, hfetch⟩ : ∃ refs,
      fetchTicks u a.settings q tape pages (fun _ _ => .arrives none) ref none none 0 = (.ok whole, refs) := by
    have hpos : ¬ pages ≤ 0 := by omega
    unfold fetchTicks resolvePages
    simp [hpos, hn (max 1 pages).toNat (by omega)]
  obtain ⟨_, -, hseen⟩ := fetch_ok hfetch
  generalize hf : fetchTicks u a.settings q tape pages (fun _ _ => .arrives none) ref = fetch at hfetch ⊢
  have h1 : callWithTransportRetry transient (fetch none none) a.settings.transportRetries 0 = (.ok (whole, 1), refs) := by
    unfold callWithTransportRetry
    rw [hfetch]
  have hsettle : (a.certifiedKiwoomAttempt u whole [] refs).1.bind settle = a.verdict u whole.output2 whole.truncated
      whole.terminationReason whole.vendorTotalTicks := Attempt.settle_certifiedKiwoomAttempt h0 (hseen hpages h0)
  have hkept : (a.certifiedKiwoomAttempt u whole [] refs).2 ≠ [] := Attempt.certifiedKiwoomAttempt_refs (hseen hpages h0)
  cases hfirst : a.certifiedKiwoomAttempt u whole [] refs with
  | mk outcome kept =>
    rw [hfirst] at hsettle hkept
    rw [← hsettle]
    cases outcome with
    | some outcome =>
      unfold acquireKiwoomTicks
      simp only [h1, hfirst]
      rfl
    | none =>
      cases hsecond : callWithTransportRetry transient (fetch (some a.settings.repairBudget) none)
          a.settings.transportRetries 1 with
      | mk r refs' =>
        cases r with
        | error exc =>
          unfold acquireKiwoomTicks
          simp only [h1, hfirst, hcur, Option.isSome_none, Bool.false_eq_true, if_false, hsecond]
          cases exc <;> rfl
        | ok x =>
          obtain ⟨p, slot⟩ := x
          obtain ⟨s, _, _, hs, rfl⟩ := retry_ok hsecond
          subst hf
          obtain ⟨_, hp, -⟩ := fetch_ok hs
          rw [certified_second h1 hfirst (by rw [hcur]; exact hsecond), hcur]
          exact settle_restart h hw hsettle.symm hp (List.append_ne_nil_of_left_ne_nil hkept _)

end certified

/-- **Resumed pagination is the unbroken one.**  As long as no page observer raises `TimeoutError`, the calls of a
pagination return together what one call without a bound does, and a symbol is certified after a resume as after an
unbounded first pass. -/
theorem resumed_is_unbroken (u : UnicodeDigits) (q : Query) (tape : Tape) (h : NoRepeats tape) :
    (∀ calls final, Chain u q tape none calls final → (∀ c ∈ calls, Quiet c.events) →
      ∃ n, ∀ pages, n ≤ pages → ∃ whole, getTickChart u q tape (fun _ => .arrives none) pages none = .ok whole ∧
        whole.output2 = calls.flatMap (·.payload.output2) ∧ whole.vendorTotalTicks = final.vendorTotalTicks ∧
        whole.rowsReceived = final.rowsReceived ∧ whole.completeByTotal = final.completeByTotal ∧
        whole.terminationReason = final.terminationReason) ∧
    ∀ (Frame : Type) (a : Attempt Frame) transient maxPages events ref first second, (∀ slot, Quiet (events slot)) →
      Resumes a transient (fetchTicks u a.settings q tape maxPages events ref) first second →
      ∃ n, ∀ pages, n ≤ pages → ∀ ref',
        certified (acquireKiwoomTicks u a transient (fetchTicks u a.settings q tape maxPages events ref)) =
          certified (acquireKiwoomTicks u a transient
            (fetchTicks u a.settings q tape pages (fun _ _ => .arrives none) ref')) := by
  refine ⟨fun calls final hc hq => ?_, fun Frame a transient maxPages events ref first second hq hr => ?_⟩
  · obtain ⟨whole, ⟨n, hn⟩, -, h1, h2, h3, h4, h5, -⟩ := hc.unbroken h hq
    exact ⟨n, fun pages hle => ⟨whole, hn pages hle, h1, h2, h3, h4, h5⟩⟩
  · obtain ⟨whole, hw, h0, hcur, hpages, hcert⟩ := hr.certified h hq
    obtain ⟨n, hn⟩ := hw.certified h h0 hcur hpages
    exact ⟨n, fun pages hle ref' => hcert.trans (hn pages hle ref').symm⟩

/-! ## Five ticks on three pages -/

def tickPage (cont key : String) (times : List String) : Page where
  contYn := some cont
  nextKey := some key
  returnCode := some 0
  returnMsg := ""
  rows := times.map (fun hms => some [("cntr_tm", .str ("20260918" ++ hms))])

def threePages (k₁ k₂ k₃ : String) : Tape := fun _ key =>
  if key = k₁ then tickPage "Y" k₂ ["152500", "152400"]
  else if key = k₂ then tickPage "N" k₃ ["090000"]
  else tickPage "Y" k₁ ["153000", "152900"]

theorem threePages_noRepeats {k₁ k₂ k₃ : String} (h : k₁ ≠ k₂) : NoRepeats (threePages k₁ k₂ k₃) := by
  intro n hn hrep
  have hpage : ∀ cont key, threePages k₁ k₂ k₃ cont key = tickPage "Y" k₂ ["152500", "152400"] ∨
      threePages k₁ k₂ k₃ cont key = tickPage "N" k₃ ["090000"] ∨
      threePages k₁ k₂ k₃ cont key = tickPage "Y" k₁ ["153000", "152900"] := by
    intro cont key
    unfold threePages
    split_ifs <;> simp
  have hn' : page (threePages k₁ k₂ k₃) n = tickPage "Y" k₂ ["152500", "152400"] ∨
      page (threePages k₁ k₂ k₃) n = tickPage "N" k₃ ["090000"] ∨
      page (threePages k₁ k₂ k₃) n = tickPage "Y" k₁ ["153000", "152900"] := by
    cases n <;> exact hpage _ _
  rw [page] at hrep
  rcases hn' with hp | hp | hp <;> rw [hp] at hrep hn
  · simp [threePages, tickPage, Page.headerKey, Ne.symm h] at hrep
  · exact absurd hn.1 (by simp [tickPage, Page.headerCont])
  · simp [threePages, tickPage, Page.headerKey] at hrep

def tickQuery : Query := ⟨"005930", "20260918", none⟩

/-- Frames are lists of rows, and every page is kept. -/
def tickAttempt : Attempt (List Row) where
  settings := ⟨30, 1000, 900, 5, 2, [("kiwoom:ka10079", "KRX")], by decide, by decide, by decide⟩
  endpoint := "ka10079"
  code := "005930"
  ymd := "20260918"
  floor := "090000"
  ceil := "153000"
  sessionTag := "regular"
  allowNoTrades := false
  crossedDateNoTrades := true
  normalize rows _ := rows
  emptyFrame := []
  height := List.length
  stage reason _ := reason

/-- The payload of a call on these pages that goes well, or the empty one. -/
def tickPayload (tape : Tape) (events : Nat → Event) (pages : Nat) (resume : Option TickCursor) : Payload :=
  match getTickChart asciiDigits tickQuery tape events pages resume with
  | .ok p => p
  | .error _ => (Scan.start none).failed ""

def countedPages : Tape := threePages "A005930202609183" "A005930202609181" "A005930202609180"

theorem resumed_is_unbroken_once :
    let first := tickPayload countedPages (fun _ => .arrives none) 1 none
    let second := tickPayload countedPages (fun _ => .arrives none) 6 (some ⟨"A005930202609183", 2, some 5⟩)
    (∃ n, ∀ pages, n ≤ pages → ∃ whole,
      getTickChart asciiDigits tickQuery countedPages (fun _ => .arrives none) pages none = .ok whole ∧
        whole.output2 = first.output2 ++ second.output2 ∧ whole.vendorTotalTicks = some 5 ∧ whole.rowsReceived = 5 ∧
        whole.completeByTotal = true ∧ whole.terminationReason = .exhausted) ∧
    ∃ n, ∀ pages, n ≤ pages → ∀ ref,
      certified (acquireKiwoomTicks asciiDigits tickAttempt (fun _ => false)
        (fetchTicks asciiDigits tickAttempt.settings tickQuery countedPages pages (fun _ _ => .arrives none) ref)) =
        some (first.output2 ++ second.output2, .complete, 5, "exhausted:regular=5:vendor_total=5") := by
  intro first second
  have hnorep : NoRepeats countedPages := threePages_noRepeats (by decide)
  constructor
  · obtain ⟨n, hn⟩ := (resumed_is_unbroken asciiDigits tickQuery countedPages hnorep).1
      [⟨1, fun _ => .arrives none, first⟩, ⟨6, fun _ => .arrives none, second⟩] second
      (.cut ⟨by rfl, by rfl⟩ (by rfl) (by decide +kernel) (by rfl)
        (.last (c := ⟨6, fun _ => .arrives none, second⟩) ⟨by rfl, by rfl⟩ (by rfl)))
      (by simp [Quiet])
    exact ⟨n, fun pages hle => hn pages hle⟩
  · have hbudget : tickAttempt.settings.resumeBudget first.vendorRemaining = 6 := by decide +kernel
    have hresumes : Resumes tickAttempt (fun _ => false) (fetchTicks asciiDigits tickAttempt.settings tickQuery
        countedPages 1 (fun _ _ => .arrives none) (fun _ _ => "page")) first second :=
      ⟨1, 2, ⟨"A005930202609183", 2, some 5⟩, ["page"], ["page", "page"], by rfl,
        ⟨by rfl, by rfl, by decide +kernel, by rfl⟩, by rw [hbudget]; rfl, by rfl, by rfl⟩
    obtain ⟨n, hn⟩ := (resumed_is_unbroken asciiDigits tickQuery countedPages hnorep).2 _ tickAttempt (fun _ => false) 1
      (fun _ _ => .arrives none) (fun _ _ => "page") first second (by simp [Quiet]) hresumes
    exact ⟨n, fun pages hle ref => (hn pages hle ref).symm.trans (by rfl)⟩

def plainPages : Tape := threePages "k1" "k2" ""

/-- A lock the store does not get in time ends a call as a deadline does: the page it was about is in no payload. -/
theorem lost_page :
    let first := tickPayload plainPages (fun i => .arrives (if i = 1 then some .timeout else none)) 9 none
    let second := tickPayload plainPages (fun _ => .arrives none) 9 (some ⟨"k2", 2, none⟩)
    let calls : List Call := [⟨9, fun i => .arrives (if i = 1 then some .timeout else none), first⟩,
      ⟨9, fun _ => .arrives none, second⟩]
    NoRepeats plainPages ∧ Chain asciiDigits tickQuery plainPages none calls second ∧
      ¬ ∃ n, ∀ pages, n ≤ pages → ∃ whole,
        getTickChart asciiDigits tickQuery plainPages (fun _ => .arrives none) pages none = .ok whole ∧
          whole.output2 = calls.flatMap (·.payload.output2) := by
  intro first second calls
  refine ⟨threePages_noRepeats (by decide), .cut ⟨by rfl, by rfl⟩ (by rfl) (by decide +kernel) (by rfl)
    (.last (c := ⟨9, fun _ => .arrives none, second⟩) ⟨by rfl, by rfl⟩ (by rfl)), ?_⟩
  rintro ⟨n, hn⟩
  obtain ⟨whole, hwhole, hrows⟩ := hn (n + 3) (by omega)
  have hthree : getTickChart asciiDigits tickQuery plainPages (fun _ => .arrives none) (n + 3) none =
      .ok (tickPayload plainPages (fun _ => .arrives none) 3 none) := by
    unfold getTickChart
    rw [show max 1 (n + 3) = n + 3 by omega]
    rfl
  rw [hthree] at hwhole
  cases hwhole
  exact absurd (congrArg List.length hrows) (by decide +kernel)

end TickChart
end Kiwoom
