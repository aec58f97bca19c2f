import KClosingAlpha.Lib.System
import Mathlib
/-!
# Pacer — host-wide pacing over one state file (`HostPacer`, `AsyncHostPacer`)

The state file holds one number, the first instant nobody has booked.  A caller locks the file, reads its own clock,
takes the later of the two as its slot and writes back the slot plus its interval; a caller with a bounded lead that
would land further ahead leaves the file as it is and comes back later.  The two classes differ in how they sleep,
not in what they book.  Instants are exact: the code's doubles round them.
-/
namespace Pacer

variable {T : Type*} [Field T] [LinearOrder T]

/-- The bytes of the state file: none, text that is no finite number, or a number. -/
inductive StateFile (T : Type*) where
  | blank
  | malformed
  | number (v : T)

/-- `_read_next_free_locked`. -/
def StateFile.nextFree : StateFile T → T
  | .blank => 0
  | .malformed => 0
  | .number v => v

/-- `_book_slot`: whether the slot was booked, how long to wait, and the file afterwards. -/
def bookSlot (f : StateFile T) (interval now : T) (maxLead : Option T) : (Bool × T) × StateFile T :=
  let slot := max now f.nextFree
  if maxLead.any (fun l => decide (l < slot - now)) then
    ((false, max (slot - now - maxLead.getD 0) interval), f)
  else ((true, slot - now), .number (slot + interval))

/-- A pacer of either class, as its constructor leaves it. -/
structure HostPacer (T : Type*) [Field T] [LinearOrder T] where
  maxRate : T
  timePeriod : T
  maxLead : Option T
  rate_pos : 0 < maxRate
  period_pos : 0 < timePeriod
  lead_pos : ∀ l, maxLead = some l → 0 < l

/-- `__init__`: the checks, in their order. -/
def HostPacer.make (maxRate timePeriod : T) (maxLead : Option T) : Except String (HostPacer T) :=
  if hr : 0 < maxRate ∧ 0 < timePeriod then
    if hl : ∀ l, maxLead = some l → 0 < l then .ok ⟨maxRate, timePeriod, maxLead, hr.1, hr.2, hl⟩
    else .error "max_lead_seconds must be positive"
  else .error "max_rate and time_period must be positive"

namespace HostPacer

def interval (p : HostPacer T) : T := p.timePeriod / p.maxRate

theorem interval_pos [IsStrictOrderedRing T] (p : HostPacer T) : 0 < p.interval := div_pos p.period_pos p.rate_pos

end HostPacer

/-! ## Callers of `acquire` -/

/-- Where a caller stands in `acquire`. -/
inductive Phase (T : Type*) where
  /-- About to lock the file, for the first time or after sleeping off a refusal. -/
  | ready
  /-- Sleeping until its slot. -/
  | booked (wait : T)
  /-- `acquire` returned. -/
  | done

/-- One booking, in the order the file's lock was held. -/
structure Booking (T : Type*) where
  interval : T
  maxLead : Option T
  reading : T
  slot : T

structure State (Caller T : Type*) where
  file : StateFile T
  phase : Caller → Phase T
  /-- Every clock reading under the lock, oldest first. -/
  readings : List T
  /-- Every booking, oldest first. -/
  log : List (Booking T)

section system

variable {Caller : Type*} [DecidableEq Caller]

/-- One pass through the locked section at a clock reading. -/
def State.attempt (s : State Caller T) (p : HostPacer T) (c : Caller) (now : T) : State Caller T :=
  let r := bookSlot s.file p.interval now p.maxLead
  { file := r.2
    phase := fun d => if d = c then (if r.1.1 then .booked r.1.2 else .ready) else s.phase d
    readings := s.readings ++ [now]
    log := if r.1.1 then s.log ++ [⟨p.interval, p.maxLead, now, now + r.1.2⟩] else s.log }

inductive Step (pacers : Caller → HostPacer T) : State Caller T → State Caller T → Prop where
  | attempt (s : State Caller T) (c : Caller) (now : T) (hc : s.phase c = .ready) :
      Step pacers s (s.attempt (pacers c) c now)
  | wake (s : State Caller T) (c : Caller) (w : T) (hc : s.phase c = .booked w) :
      Step pacers s { s with phase := fun d => if d = c then .done else s.phase d }
  | acquire (s : State Caller T) (c : Caller) (hc : s.phase c = .done) :
      Step pacers s { s with phase := fun d => if d = c then .ready else s.phase d }

/-- Any callers, each with its own pacer and clock, over one state file. -/
def system (pacers : Caller → HostPacer T) (file : StateFile T) : System (State Caller T) where
  start s := s = { file, phase := fun _ => .ready, readings := [], log := [] }
  step := Step pacers

/-! ## What one pass does -/

/-- **A pass books the later of the clock and the file, within its lead, or changes nothing.** -/
theorem bookSlot_cases (f : StateFile T) (i now : T) (lead : Option T) :
    (bookSlot f i now lead = ((true, max now f.nextFree - now), .number (max now f.nextFree + i)) ∧
      ∀ l, lead = some l → max now f.nextFree - now ≤ l) ∨
    ((bookSlot f i now lead).1.1 = false ∧ (bookSlot f i now lead).2 = f) := by
  unfold bookSlot
  cases lead with
  | none => exact .inl ⟨by simp, fun l hl => by cases hl⟩
  | some l =>
    by_cases h : l < max now f.nextFree - now
    · exact .inr ⟨by simp [h], by simp [h]⟩
    · refine .inl ⟨by simp [h], fun l' hl' => ?_⟩
      cases hl'
      exact not_lt.1 h

/-- An unbounded pass always books: the assertion of `_book_unconditional`. -/
theorem bookSlot_unbounded (f : StateFile T) (i now : T) :
    bookSlot f i now none = ((true, max now f.nextFree - now), .number (max now f.nextFree + i)) := by
  simp [bookSlot]

/-- The state after a booking. -/
def State.wrote (s : State Caller T) (c : Caller) (b : Booking T) : State Caller T :=
  { file := .number (b.slot + b.interval)
    phase := fun d => if d = c then .booked (b.slot - b.reading) else s.phase d
    readings := s.readings ++ [b.reading]
    log := s.log ++ [b] }

/-- **What a step does to the file and the log**: a pass books the slot the clock and the file give it, within its
lead; nothing else touches them. -/
theorem step_cases {pacers : Caller → HostPacer T} {s s' : State Caller T}
    (h : Step pacers s s') :
    (∃ c b, s' = s.wrote c b ∧ b.slot = max b.reading s.file.nextFree ∧ b.interval = (pacers c).interval ∧
      b.maxLead = (pacers c).maxLead ∧ ∀ l, b.maxLead = some l → b.slot - b.reading ≤ l) ∨
    (s'.file = s.file ∧ s'.log = s.log ∧ ∃ more, s'.readings = s.readings ++ more) := by
  cases h with
  | attempt c now hc =>
    rcases bookSlot_cases s.file (pacers c).interval now (pacers c).maxLead with ⟨heq, hl⟩ | ⟨hno, hf⟩
    · refine .inl ⟨c, ⟨(pacers c).interval, (pacers c).maxLead, now, max now s.file.nextFree⟩, ?_, rfl, rfl, rfl, hl⟩
      simp only [State.attempt, heq, State.wrote, if_true]
      rw [add_sub_cancel]
    · exact .inr ⟨hf, by simp [State.attempt, hno], [now], rfl⟩
  | wake c w hc => exact .inr ⟨rfl, rfl, [], by simp⟩
  | acquire c hc => exact .inr ⟨rfl, rfl, [], by simp⟩

/-! ## The spacing of slots and the lead of bulk callers -/

/-- What holds between two bookings: the file is one interval past the last slot, each slot is the interval of the slot
before it later, and no slot is further ahead than its caller allows. -/
structure Spaced (s : State Caller T) : Prop where
  file : ∀ b ∈ s.log.getLast?, s.file.nextFree = b.slot + b.interval
  chain : s.log.IsChain (fun a b => a.slot + a.interval ≤ b.slot)
  lead : ∀ b ∈ s.log, ∀ l, b.maxLead = some l → b.slot - b.reading ≤ l

theorem spaced_step {pacers : Caller → HostPacer T} {s s' : State Caller T} (h : Spaced s) (hs : Step pacers s s') :
    Spaced s' := by
  rcases step_cases hs with ⟨c, b, rfl, hslot, -, -, hl⟩ | ⟨hf, hlog, -⟩
  · refine ⟨fun a ha => ?_, ?_, fun a ha => ?_⟩
    · simp only [State.wrote, List.getLast?_append, List.getLast?_singleton, Option.some_or, Option.mem_some] at ha
      rw [← ha]
      rfl
    · refine List.IsChain.append h.chain (List.isChain_singleton b) (fun a ha b' hb' => ?_)
      simp only [List.head?_cons, Option.mem_some] at hb'
      rw [← hb', hslot, ← h.file a ha]
      exact le_max_right _ _
    · rcases List.mem_append.1 ha with ha | ha
      · exact h.lead a ha
      · rw [List.mem_singleton.1 ha]
        exact hl
  · exact ⟨by rw [hlog, hf]; exact h.file, by rw [hlog]; exact h.chain, by rw [hlog]; exact h.lead⟩

theorem always_spaced (pacers : Caller → HostPacer T) (file : StateFile T) : (system pacers file).Always Spaced := by
  refine System.Inductive.always ⟨?_, fun _ _ => spaced_step⟩
  intro s hs
  rw [show s = _ from hs]
  exact ⟨by simp, .nil, by simp⟩

/-! ## The wait of the order lane -/

/-- An unbounded booking whose slot is still in the future. -/
def Booking.outstanding (now : T) (b : Booking T) : Bool := b.maxLead.isNone && decide (now < b.slot)

/-- The intervals of the outstanding unbounded bookings. -/
def pending (now : T) (log : List (Booking T)) : T := ((log.filter (Booking.outstanding now)).map Booking.interval).sum

theorem pending_nil (now : T) : pending now ([] : List (Booking T)) = 0 := rfl

theorem pending_snoc (now : T) (log : List (Booking T)) (b : Booking T) :
    pending now (log ++ [b]) = pending now log + if b.outstanding now then b.interval else 0 := by
  unfold pending
  by_cases h : b.outstanding now = true
  · simp [List.filter_append, h]
  · simp [List.filter_append, h]

variable [IsStrictOrderedRing T]

/-- Every interval a caller books is positive. -/
def Positive (s : State Caller T) : Prop := ∀ b ∈ s.log, 0 < b.interval

theorem always_positive (pacers : Caller → HostPacer T) (file : StateFile T) :
    (system pacers file).Always Positive := by
  refine System.Inductive.always ⟨?_, ?_⟩
  · intro s hs b hb
    rw [show s = _ from hs] at hb
    cases hb
  · intro s s' h hs b hb
    rcases step_cases hs with ⟨c, b', rfl, -, hi, -, -⟩ | ⟨-, hlog, -⟩
    · rcases List.mem_append.1 hb with hb | hb
      · exact h b hb
      · rw [List.mem_singleton.1 hb, hi]
        exact (pacers c).interval_pos
    · rw [hlog] at hb
      exact h b hb

theorem pending_nonneg (now : T) {log : List (Booking T)} (h : ∀ b ∈ log, 0 < b.interval) : 0 ≤ pending now log := by
  refine List.sum_nonneg (fun x hx => ?_)
  obtain ⟨b, hb, rfl⟩ := List.mem_map.1 hx
  exact (h b (List.mem_of_mem_filter hb)).le

/-- The file is at most the lead, the outstanding intervals and one further interval ahead of an instant. -/
def Near (lead now : T) (s : State Caller T) : Prop :=
  s.file.nextFree ≤ now + lead + pending now s.log ∨
    ∃ b ∈ s.log, b.outstanding now = false ∧ s.file.nextFree ≤ now + lead + pending now s.log + b.interval

/-- **What a booking adds to the file is accounted for**: a bulk booking starts over from its lead, an unbounded one
that is past starts over from the clock, and an outstanding one adds its own interval. -/
theorem near_wrote {lead now : T} {s : State Caller T} {c : Caller} {b : Booking T} (h : Near lead now s)
    (hpos : ∀ a ∈ s.log, 0 < a.interval) (hlead : 0 ≤ lead) (hr : b.reading ≤ now)
    (hslot : b.slot = max b.reading s.file.nextFree) (hb : ∀ l, b.maxLead = some l → b.slot - b.reading ≤ lead) :
    Near lead now (s.wrote c b) := by
  have hp := pending_nonneg now hpos
  have hmem : b ∈ (s.wrote c b).log := List.mem_append_right _ List.mem_cons_self
  have hfile : (s.wrote c b).file.nextFree = b.slot + b.interval := rfl
  have hlog : (s.wrote c b).log = s.log ++ [b] := rfl
  by_cases ho : b.outstanding now = true
  · -- the slot is in the future of a reading in its past: it is the file's
    have hfut : now < b.slot := by simp [Booking.outstanding] at ho; exact ho.2
    have heq : b.slot = s.file.nextFree := by
      rcases max_choice b.reading s.file.nextFree with hm | hm
      · rw [hslot, hm] at hfut
        exact absurd hr (not_le.2 hfut)
      · rw [hslot, hm]
    rcases h with h | ⟨a, ha, hna, h⟩
    · left
      rw [hfile, hlog, pending_snoc, if_pos ho, heq]
      linarith
    · right
      refine ⟨a, List.mem_append_left _ ha, hna, ?_⟩
      rw [hfile, hlog, pending_snoc, if_pos ho, heq]
      linarith
  · right
    refine ⟨b, hmem, by simpa using ho, ?_⟩
    rw [hfile, hlog, pending_snoc, if_neg ho]
    have hle : b.slot ≤ now + lead := by
      cases hm : b.maxLead with
      | some l => linarith [hb l hm]
      | none =>
        have hn : ¬ now < b.slot := by simpa [Booking.outstanding, hm] using ho
        linarith [not_lt.1 hn]
    linarith

/-- **The file never runs away from the clock**: with readings that do not go back, a shared lead, and a file that was
not ahead of the clock when the run began. -/
theorem always_near {pacers : Caller → HostPacer T} {file : StateFile T} {lead : T} (hlead : 0 ≤ lead)
    (hshared : ∀ c l, (pacers c).maxLead = some l → l = lead) (s : State Caller T)
    (hs : (system pacers file).Reachable s) :
    ∀ now, (∀ r ∈ s.readings, r ≤ now) → file.nextFree ≤ now → Near lead now s := by
  refine System.Always.strengthen (J := fun s => ∀ now, (∀ r ∈ s.readings, r ≤ now) → file.nextFree ≤ now →
    Near lead now s) (always_positive pacers file) ?_ ?_ s hs
  · intro s hs now _ hfile
    rw [show s = _ from hs]
    refine .inl ?_
    rw [pending_nil]
    change file.nextFree ≤ _
    linarith
  · intro s s' hpos h hs now hr hfile
    rcases step_cases hs with ⟨c, b, rfl, hslot, -, hbl, hb⟩ | ⟨hf, hlog, more, hmore⟩
    · have hr' : ∀ r ∈ s.readings, r ≤ now := fun r hm => hr r (List.mem_append_left _ hm)
      have hbr : b.reading ≤ now := hr _ (List.mem_append_right _ List.mem_cons_self)
      refine near_wrote (h now hr' hfile) hpos hlead hbr hslot (fun l hl => ?_)
      rw [← hshared c l (hbl ▸ hl)]
      exact hb l hl
    · have hr' : ∀ r ∈ s.readings, r ≤ now := fun r hm => hr r (by rw [hmore]; exact List.mem_append_left _ hm)
      unfold Near
      rw [hf, hlog]
      exact h now hr' hfile

/-- **Host pacing**, over every run of any callers from any state file.  Each slot is at least the previous booking's
interval after the previous slot, and no bounded caller books further ahead of its reading than its lead.  And when
the readings do not go back, and the file held nothing later than the first of them (a missing file reads as the
epoch), an unbounded caller waits at most the lead the bulk callers share, the intervals of the outstanding unbounded
bookings and one interval more, of a booking that is not among them. -/
theorem host_pacing {pacers : Caller → HostPacer T} {file : StateFile T} {s : State Caller T}
    (hs : (system pacers file).Reachable s) :
    s.log.IsChain (fun a b => a.slot + a.interval ≤ b.slot) ∧
    (∀ b ∈ s.log, ∀ l, b.maxLead = some l → b.slot - b.reading ≤ l) ∧
    ∀ lead now i, 0 ≤ lead → (∀ c l, (pacers c).maxLead = some l → l = lead) →
      (s.readings ++ [now]).Pairwise (· ≤ ·) → (∀ r ∈ (s.readings ++ [now]).head?, file.nextFree ≤ r) →
      (bookSlot s.file i now none).1.2 ≤ lead + pending now s.log ∨
        ∃ b ∈ s.log, b.outstanding now = false ∧
          (bookSlot s.file i now none).1.2 ≤ lead + pending now s.log + b.interval := by
  have hsp := always_spaced pacers file s hs
  refine ⟨hsp.chain, hsp.lead, ?_⟩
  intro lead now i hlead hshared hsorted hfirst
  have hlast : ∀ r ∈ s.readings, r ≤ now := fun r hr =>
    (List.pairwise_append.1 hsorted).2.2 r hr now List.mem_cons_self
  have hfile : file.nextFree ≤ now := by
    cases hrs : s.readings with
    | nil => exact hfirst now (by rw [hrs]; rfl)
    | cons r rs =>
      have hr : r ∈ s.readings := by rw [hrs]; exact List.mem_cons_self
      exact le_trans (hfirst r (by rw [hrs]; rfl)) (hlast r hr)
  have hp := pending_nonneg now (always_positive pacers file s hs)
  rw [bookSlot_unbounded]
  change max now s.file.nextFree - now ≤ _ ∨ ∃ b ∈ s.log, b.outstanding now = false ∧ max now s.file.nextFree - now ≤ _
  rcases max_choice now s.file.nextFree with hm | hm
  · left
    rw [hm]
    linarith
  · rw [hm]
    rcases always_near hlead hshared s hs now hlast hfile with h | ⟨b, hb, hnb, h⟩
    · left
      linarith
    · right
      exact ⟨b, hb, hnb, by linarith⟩

end system

namespace Sample

local instance threeCallers : NeZero 3 := ⟨by decide⟩

/-- Two bulk callers, four requests a second and a quarter second of lead, and the order lane. -/
def pacers (c : Fin 3) : HostPacer ℚ :=
  if c = 2 then ⟨5, 1, none, by decide, by decide, by simp⟩
  else ⟨4, 1, some (1 / 4), by decide, by decide, fun l hl => by cases hl; norm_num⟩

/-- No state file yet. -/
def idle : State (Fin 3) ℚ := { file := .blank, phase := fun _ => .ready, readings := [], log := [] }

/-- All three arrive at the same instant. -/
def crowded : State (Fin 3) ℚ := ((idle.attempt (pacers 0) 0 100).attempt (pacers 1) 1 100).attempt (pacers 2) 2 100

theorem reachable_crowded : (system pacers .blank).Reachable crowded := by
  have h₀ : (system pacers .blank).Reachable idle := .start rfl
  have h₁ := h₀.step (Step.attempt _ 0 100 rfl)
  have h₂ := h₁.step (Step.attempt _ 1 100 rfl)
  exact h₂.step (Step.attempt _ 2 100 rfl)

end Sample

/-- The third of three simultaneous callers is half a second out; a fourth on the order lane is within the bound. -/
theorem host_pacing_crowded :
    Sample.crowded.log.map Booking.slot = [100, 100 + 1 / 4, 100 + 1 / 2] ∧
      ((bookSlot Sample.crowded.file (1 / 5) 100 none).1.2 ≤ 1 / 4 + pending 100 Sample.crowded.log ∨
        ∃ b ∈ Sample.crowded.log, b.outstanding 100 = false ∧
          (bookSlot Sample.crowded.file (1 / 5) 100 none).1.2 ≤ 1 / 4 + pending 100 Sample.crowded.log + b.interval) := by
  refine ⟨by decide +kernel, (host_pacing Sample.reachable_crowded).2.2 (1 / 4) 100 (1 / 5) (by decide +kernel) ?_
    (by decide +kernel) (fun r hr => ?_)⟩
  · intro c l hl
    unfold Sample.pacers at hl
    split_ifs at hl
    exact (Option.some.inj hl).symm
  · cases hr
    change (0 : ℚ) ≤ 100
    norm_num

end Pacer
