import KClosingAlpha.Offsite.Backup
/-!
# Staleness — what the check says while a run goes on

Runs follow one another, each started no earlier than the one before and cut anywhere, and one check goes on among them.
A run writes nothing but its own marker, its own report and the history, and clears the marker only behind its own report
(`runOffsiteBackup_does`).  So evidence of a run at or after the slot is in the marker or in the report at any time, and
once it is in the report it stays there, which is the order in which the check reads them.
-/
namespace Backup

open Prog (wp rg)

/-! ## The world -/

/-- The files, and everything that was ever published. -/
structure World where
  files : File → Option (Option Json)
  published : List (File × Json)

/-- A file is published. -/
def World.put (w : World) (f : File) (j : Json) : World where
  files := fun g => if g = f then some (some j) else w.files g
  published := w.published ++ [(f, j)]

/-- A file is removed. -/
def World.drop (w : World) (f : File) : World :=
  { w with files := fun g => if g = f then none else w.files g }

/-- What a caught read of a file gives. -/
def World.read (w : World) (f : File) : Option Json := (w.files f).join

section World

variable {w : World} {f g : File} {j : Json}

@[simp] theorem World.read_put_self : (w.put f j).read f = some j := by simp [World.read, World.put]

@[simp] theorem World.read_put_of_ne (h : g ≠ f) : (w.put f j).read g = w.read g := by simp [World.read, World.put, h]

@[simp] theorem World.read_drop_self : (w.drop f).read f = none := by simp [World.read, World.drop]

@[simp] theorem World.read_drop_of_ne (h : g ≠ f) : (w.drop f).read g = w.read g := by
  simp [World.read, World.drop, h]

@[simp] theorem World.files_put_self : (w.put f j).files f = some (some j) := by simp [World.put]

@[simp] theorem World.files_put_of_ne (h : g ≠ f) : (w.put f j).files g = w.files g := by simp [World.put, h]

@[simp] theorem World.files_drop_of_ne (h : g ≠ f) : (w.drop f).files g = w.files g := by simp [World.drop, h]

@[simp] theorem World.published_put : (w.put f j).published = w.published ++ [(f, j)] := rfl

@[simp] theorem World.published_drop : (w.drop f).published = w.published := rfl

end World

/-- What a call may do.  The report and the history may fail to be read; a write or a removal that fails does nothing. -/
def Does : Prog.Exec Op Ret World
  | .loads f, w, r, w' => w' = w ∧ (r = w.read f ∨ f ≠ .marker ∧ r = none)
  | .there f, w, r, w' => w' = w ∧ r = (w.files f).isSome
  | .write f j, w, true, w' => w' = w.put f j
  | .remove f, w, true, w' => w' = w.drop f
  | .write _ _, w, false, w' | .remove _, w, false, w' => w' = w
  | .inner, w, _, w' => w' = w

/-! ## What a run does -/

/-- A step of the run that started at `t`. -/
inductive RunStep (t : Int) : World → World → Prop where
  | reads (w : World) : RunStep t w w
  | begins (w : World) (pid : Int) (host : Text) : RunStep t w (w.put .marker (progressOf pid host t).payload)
  | publishes (w : World) (report : BackupRunReport) (own : report.startedAt = .moment (utc t)) :
    RunStep t w (w.put .report report.payload)
  | remembers (w : World) (j : Json) : RunStep t w (w.put .history j)
  | clears (w : World) (report : BackupRunReport) (own : report.startedAt = .moment (utc t))
    (left : w.files .report = some (some report.payload)) : RunStep t w (w.drop .marker)

/-- From here on, every call is a step of the run. -/
abbrev Runs {α : Type} (t : Int) (p : Program α) (Q : α → World → Prop) (w : World) : Prop := wp Does (RunStep t) p Q w

section Runs

variable {t : Int} {w : World}

theorem loads_does (f : File) {Q : Option Json → World → Prop} (h : ∀ r, Q r w) : Runs t (loads f) Q w := by
  rintro r w' ⟨rfl, -⟩
  exact ⟨.reads _, h r⟩

theorem isThere_does (f : File) {Q : Bool → World → Prop} (h : ∀ r, Q r w) : Runs t (isThere f) Q w := by
  rintro r w' ⟨rfl, -⟩
  exact ⟨.reads _, h r⟩

theorem inner_does {Q : Inner → World → Prop} (h : ∀ r, Q r w) : Runs t inner Q w := by
  intro r w' hw
  cases hw
  exact ⟨.reads _, h r⟩

theorem write_does {f : File} {j : Json} (hstep : RunStep t w (w.put f j)) {Q : Bool → World → Prop}
    (hdone : Q true (w.put f j)) (hfailed : Q false w) : Runs t (write f j) Q w := by
  intro r w' hw
  cases r with
  | true =>
    rw [show w' = w.put f j from hw]
    exact ⟨hstep, hdone⟩
  | false =>
    rw [show w' = w from hw]
    exact ⟨.reads w, hfailed⟩

theorem remove_does {f : File} (hstep : RunStep t w (w.drop f)) {Q : Bool → World → Prop}
    (h : ∀ r w', Q r w') : Runs t (remove f) Q w := by
  intro r w' hw
  cases r with
  | true =>
    rw [show w' = w.drop f from hw]
    exact ⟨hstep, h _ _⟩
  | false =>
    rw [show w' = w from hw]
    exact ⟨.reads w, h _ _⟩

theorem bind_does {α β : Type} {p : Program α} {f : α → Program β} {Q : β → World → Prop}
    (h : Runs t p (fun a w' => Runs t (f a) Q w') w) : Runs t (p >>= f) Q w := (Prog.wp_bind p f Q w).2 h

theorem loadPreviousCorePanels_does {Q : List Json → World → Prop} (h : ∀ panels, Q panels w) :
    Runs t loadPreviousCorePanels Q w := by
  refine bind_does (isThere_does .report fun there => ?_)
  split
  · refine bind_does (loads_does .report fun raw => ?_)
    split
    · split <;> exact h _
    · exact h _
  · exact h _

/-- The report of a run has its start, and no file has changed. -/
theorem runReport_does {Q : BackupRunReport → World → Prop} (h : ∀ report, report.startedAt = .moment (utc t) → Q report w) :
    Runs t (runReport (.moment (utc t))) Q w := by
  refine bind_does (inner_does fun outcome => ?_)
  cases outcome with
  | returned finishedAt steps corePanels => exact h _ rfl
  | raised error finishedAt => exact bind_does (loadPreviousCorePanels_does fun panels => h _ rfl)
  | interrupted => trivial

theorem appendDeferredProgress_does (entry : DeferredProgress) {Q : Bool → World → Prop}
    (hdone : ∀ j, Q true (w.put .history j)) (hfailed : Q false w) : Runs t (appendDeferredProgress entry) Q w :=
  bind_does (loads_does .history fun _ => write_does (.remembers w _) (hdone _) hfailed)

/-- **Every call of a run is a step of it**: the marker is cleared behind its own report. -/
theorem runOffsiteBackup_does (pid : Int) (host : Text) (t : Int) (w : World) :
    Runs t (runOffsiteBackup pid host t) (fun _ _ => True) w := by
  have hrest : ∀ w, Runs t (runReport (.moment (utc t)) >>= fun report => do
      if ← write .report report.payload then
        let state := deferredStateFromSteps report.steps
        let _ ← appendDeferredProgress {
          runStartedAt := report.startedAt, deferredDates := state.1, deferredLoose := state.2.1.map .plain
          oldestDeferredDate := state.2.2 }
        let _ ← remove .marker
        if report.status = "ok" then pure report
        else .raise (.runtime ("offsite backup failed: " ++ String.intercalate "," (failedSteps report.steps)))
      else .raise .os) (fun _ _ => True) w := by
    intro w
    refine bind_does (runReport_does fun report own => bind_does (write_does (.publishes w report own) ?_ ?_))
    · have hclear : ∀ w', w'.files .report = some (some report.payload) → Runs t (remove .marker >>= fun _ =>
          if report.status = "ok" then pure report
          else .raise (.runtime ("offsite backup failed: " ++ String.intercalate "," (failedSteps report.steps))))
          (fun _ _ => True) w' := by
        intro w' left
        refine bind_does (remove_does (.clears w' report own left) fun _ _ => ?_)
        split <;> trivial
      refine bind_does (appendDeferredProgress_does _ (fun j => hclear _ ?_) (hclear _ ?_)) <;> simp
    · trivial
  exact bind_does (write_does (.begins w pid host) (hrest _) (hrest _))

end Runs

/-! ## The runs and the check -/

structure State where
  world : World
  /-- When the runs so far started. -/
  starts : List Int
  /-- The run that goes on, and when it started. -/
  run : Option (Int × Program BackupRunReport)
  check : Option (Program (List String))

/-- A run starts, goes on or is cut; the check begins or goes on. -/
inductive Step (auditAt : Int) : State → State → Prop where
  | start (s : State) (pid : Int) (host : Text) (now : Int) (idle : s.run = none) (later : ∀ t ∈ s.starts, t ≤ now) :
    Step auditAt s { s with starts := s.starts ++ [now], run := some (now, runOffsiteBackup pid host now) }
  | run (s : State) (t : Int) (p p' : Program BackupRunReport) (w' : World) (going : s.run = some (t, p))
    (next : Prog.Next Does p s.world p' w') : Step auditAt s { s with world := w', run := some (t, p') }
  | cut (s : State) : Step auditAt s { s with run := none }
  | begin (s : State) (waiting : s.check = none) :
    Step auditAt s { s with check := some (backupStalenessIssues auditAt) }
  | check (s : State) (p p' : Program (List String)) (w' : World) (going : s.check = some p)
    (next : Prog.Next Does p s.world p' w') : Step auditAt s { s with world := w', check := some p' }

/-- No run has left a marker or a report that can be read. -/
def nights (auditAt : Int) : System State where
  start s := s.starts = [] ∧ s.run = none ∧ s.check = none ∧ s.world.published = [] ∧
    readBackupProgress (s.world.read .marker) = none ∧ readReport (s.world.read .report) = none
  step := Step auditAt

/-! ## What the files say -/

@[simp] theorem readBackupProgress_payload (pid : Int) (host : Text) (t : Int) :
    readBackupProgress (some (progressOf pid host t).payload) = some (progressOf pid host t) := rfl

/-- What the check takes from the report of a run. -/
def lastRun (report : BackupRunReport) (t : Int) : LastRun where
  status := .plain report.status
  startedRaw := report.startedAt
  startedAt := utc t
  steps := some (.obj report.steps)

theorem readReport_payload {report : BackupRunReport} {t : Int} (own : report.startedAt = .moment (utc t)) :
    readReport (some report.payload) = some (lastRun report t) := by
  obtain ⟨startedAt, finishedAt, status, steps, corePanels⟩ := report
  obtain rfl : startedAt = .moment (utc t) := own
  rfl

/-- Everything on disk that can be read, and everything published, comes from a run that started. -/
structure Left (starts : List Int) (w : World) : Prop where
  marker : ∀ progress, readBackupProgress (w.read .marker) = some progress →
    ∃ pid host, ∃ t ∈ starts, progress = progressOf pid host t
  report : ∀ run, readReport (w.read .report) = some run → ∃ t ∈ starts, run.startedAt = utc t
  markers : ∀ pid host t, (File.marker, (progressOf pid host t).payload) ∈ w.published → t ∈ starts
  reports : ∀ (report : BackupRunReport) (t : Int), report.startedAt = .moment (utc t) → (File.report, report.payload) ∈ w.published → t ∈ starts

theorem Left.mono {starts starts' : List Int} {w : World} (h : Left starts w) (hs : ∀ t ∈ starts, t ∈ starts') :
    Left starts' w where
  marker progress hp := by
    obtain ⟨pid, host, t, ht, rfl⟩ := h.marker progress hp
    exact ⟨pid, host, t, hs t ht, rfl⟩
  report run hr := by
    obtain ⟨t, ht, heq⟩ := h.report run hr
    exact ⟨t, hs t ht, heq⟩
  markers pid host t hm := hs t (h.markers pid host t hm)
  reports report t own hm := hs t (h.reports report t own hm)

theorem progressOf_inj {pid pid' : Int} {host host' : Text} {t t' : Int}
    (h : (progressOf pid host t).payload = (progressOf pid' host' t').payload) : t = t' := by
  have hp : progressOf pid host t = progressOf pid' host' t' := by
    have hr := congrArg (fun j => readBackupProgress (some j)) h
    simpa using hr
  have hm : utc t = utc t' := Text.moment.inj (congrArg BackupProgress.startedAt hp)
  exact congrArg Moment.instant hm

theorem startedAt_inj {report report' : BackupRunReport} {t t' : Int} (own : report.startedAt = .moment (utc t))
    (own' : report'.startedAt = .moment (utc t')) (h : report.payload = report'.payload) : t = t' := by
  have hr := congrArg (fun j => readReport (some j)) h
  simp only [readReport_payload own, readReport_payload own'] at hr
  exact congrArg Moment.instant (congrArg LastRun.startedAt (Option.some.inj hr))

/-- **What a run leaves comes from it.** -/
theorem RunStep.left {t : Int} {w w' : World} (h : RunStep t w w') {starts : List Int} (ht : t ∈ starts)
    (hl : Left starts w) : Left starts w' := by
  cases h with
  | reads => exact hl
  | begins pid host =>
    refine ⟨fun progress hp => ?_, fun run hr => hl.report run (by simpa using hr), fun pid' host' t' hm => ?_,
      fun report t' own hm => hl.reports report t' own (by simpa using hm)⟩
    · rw [World.read_put_self, readBackupProgress_payload] at hp
      exact ⟨pid, host, t, ht, (Option.some.inj hp).symm⟩
    · rw [World.published_put, List.mem_append, List.mem_singleton] at hm
      rcases hm with hm | hm
      · exact hl.markers pid' host' t' hm
      · rw [progressOf_inj (Prod.mk.inj hm).2]
        exact ht
  | publishes report own =>
    refine ⟨fun progress hp => hl.marker progress (by simpa using hp), fun run hr => ?_,
      fun pid host t' hm => hl.markers pid host t' (by simpa using hm), fun report' t' own' hm => ?_⟩
    · rw [World.read_put_self, readReport_payload own] at hr
      exact ⟨t, ht, by rw [← Option.some.inj hr]; rfl⟩
    · rw [World.published_put, List.mem_append, List.mem_singleton] at hm
      rcases hm with hm | hm
      · exact hl.reports report' t' own' hm
      · rw [startedAt_inj own' own (Prod.mk.inj hm).2]
        exact ht
  | remembers j =>
    exact ⟨fun progress hp => hl.marker progress (by simpa using hp), fun run hr => hl.report run (by simpa using hr),
      fun pid host t' hm => hl.markers pid host t' (by simpa using hm),
      fun report t' own hm => hl.reports report t' own (by simpa using hm)⟩
  | clears report own left =>
    exact ⟨fun progress hp => by simp [readBackupProgress] at hp, fun run hr => hl.report run (by simpa using hr),
      hl.markers, hl.reports⟩

/-! ## What every interleaving keeps -/

/-- A call of the check. -/
def Reads : Op → Prop
  | .loads _ | .there _ => True
  | .write _ _ | .remove _ | .inner => False

theorem Reads.quiet {op : Op} (h : Reads op) {w w' : World} {r : Ret op} (hop : Does op w r w') : w' = w := by
  cases op with
  | loads f => exact hop.1
  | there f => exact hop.1
  | write f j => cases h
  | remove f => cases h
  | inner => cases h

theorem backupStalenessIssues_reads (auditAt : Int) : (backupStalenessIssues auditAt).Calls Reads := by
  refine ⟨trivial, fun marker => ⟨trivial, fun there => ?_⟩⟩
  cases there with
  | false => exact trivial
  | true =>
    refine ⟨trivial, fun report => ?_⟩
    dsimp only [Prog.bind]
    cases readReport report with
    | none => trivial
    | some run =>
      refine .ite trivial (.ite trivial ?_)
      unfold deferredIssues
      split
      · exact .ite ⟨trivial, fun _ => trivial⟩ trivial
      · trivial

/-- The run that goes on is the last one, and only its own calls are left; the check only reads. -/
structure Inv (s : State) : Prop where
  last : ∀ t p, s.run = some (t, p) → t ∈ s.starts ∧ (∀ u ∈ s.starts, u ≤ t) ∧ Runs t p (fun _ _ => True) s.world
  left : Left s.starts s.world
  check : ∀ p, s.check = some p → p.Calls Reads

/-- What a step does to the world: nothing, or a step of the run that goes on. -/
theorem Step.world {auditAt : Int} {s s' : State} (h : Step auditAt s s') (hs : Inv s) :
    s'.world = s.world ∨ ∃ t ∈ s.starts, (∀ u ∈ s.starts, u ≤ t) ∧ RunStep t s.world s'.world := by
  cases h with
  | start pid host now idle later => exact .inl rfl
  | run t p p' w' going next =>
    obtain ⟨ht, hlast, hp⟩ := hs.last t p going
    cases next with
    | call r hop => exact .inr ⟨t, ht, hlast, (hp r w' hop).1⟩
  | cut => exact .inl rfl
  | begin waiting => exact .inl rfl
  | check p p' w' going next =>
    cases next with
    | call r hop => exact .inl ((hs.check _ going).1.quiet hop)

theorem nights_inv (auditAt : Int) : (nights auditAt).Always Inv := by
  refine System.Inductive.always ⟨?_, ?_⟩
  · rintro s ⟨hstarts, hrun, hcheck, hpublished, hmarker, hreport⟩
    refine ⟨fun t p h => ?_, ⟨fun progress h => ?_, fun run h => ?_, fun pid host t h => ?_, fun report t own h => ?_⟩,
      fun p h => ?_⟩
    · rw [hrun] at h
      cases h
    · rw [hmarker] at h
      cases h
    · rw [hreport] at h
      cases h
    · simp [hpublished] at h
    · simp [hpublished] at h
    · rw [hcheck] at h
      cases h
  · intro s s' hs hstep
    have hworld := Step.world hstep hs
    have hleft : Left s.starts s'.world := by
      rcases hworld with heq | ⟨t, ht, -, hrun⟩
      · rw [heq]
        exact hs.left
      · exact hrun.left ht hs.left
    cases hstep with
    | start pid host now idle later =>
      refine ⟨fun t p h => ?_, hs.left.mono fun t ht => List.mem_append_left _ ht, hs.check⟩
      cases h
      refine ⟨List.mem_append_right _ List.mem_cons_self, fun u hu => ?_, runOffsiteBackup_does pid host now _⟩
      rcases List.mem_append.1 hu with hu | hu
      · exact later u hu
      · rw [List.mem_singleton.1 hu]
    | run t p p' w' going next =>
      obtain ⟨ht, hlast, hp⟩ := hs.last t p going
      refine ⟨fun t' q h => ?_, hleft, hs.check⟩
      cases h
      cases next with
      | call r hop => exact ⟨ht, hlast, (hp r w' hop).2⟩
    | cut => exact ⟨fun t p h => (by cases h), hleft, hs.check⟩
    | begin waiting =>
      refine ⟨hs.last, hleft, fun p h => ?_⟩
      cases h
      exact backupStalenessIssues_reads auditAt
    | check p p' w' going next =>
      cases next with
      | call r hop =>
        obtain rfl : w' = s.world := (hs.check _ going).1.quiet hop
        refine ⟨hs.last, hleft, fun q h => ?_⟩
        cases h
        exact (hs.check _ going).2 r

/-! ## The evidence of a fresh run -/

section Evidence

variable {slot auditAt : Int} {w w' : World}

/-- A run at or after the slot has written its marker, or has published an ok report. -/
def Underway (slot : Int) (w : World) : Prop :=
  ∃ t, slot ≤ t ∧ ((∃ pid host, (File.marker, (progressOf pid host t).payload) ∈ w.published) ∨
    ∃ report : BackupRunReport, report.startedAt = .moment (utc t) ∧ report.status = "ok" ∧
      (File.report, report.payload) ∈ w.published)

/-- The report is there, and it is not an ok one from before the slot. -/
def Settled (slot : Int) (w : World) : Prop :=
  (w.files .report).isSome = true ∧
    ∀ run, readReport (w.read .report) = some run → run.status = .plain "ok" → slot ≤ run.startedAt.instant

/-- The evidence is in the marker or in the report. -/
def Covered (slot : Int) (w : World) : Prop :=
  (∃ pid host t, slot ≤ t ∧ readBackupProgress (w.read .marker) = some (progressOf pid host t)) ∨ Settled slot w

/-- What runs at or after the slot do to the evidence. -/
def Keeps (slot : Int) (w w' : World) : Prop := (Covered slot w → Covered slot w') ∧ (Settled slot w → Settled slot w')

theorem Keeps.refl (w : World) : Keeps slot w w := ⟨id, id⟩

theorem Keeps.trans (a b c : World) (h : Keeps slot a b) (h' : Keeps slot b c) : Keeps slot a c :=
  ⟨fun hc => h'.1 (h.1 hc), fun hs => h'.2 (h.2 hs)⟩

theorem settled_put {report : BackupRunReport} {t : Int} (own : report.startedAt = .moment (utc t)) (ht : slot ≤ t) :
    Settled slot (w.put .report report.payload) := by
  refine ⟨by simp, fun run hr _ => ?_⟩
  rw [World.read_put_self, readReport_payload own] at hr
  rw [← Option.some.inj hr]
  exact ht

theorem Settled.of_report (h : Settled slot w) (hr : w'.files .report = w.files .report) : Settled slot w' := by
  have hread : w'.read .report = w.read .report := by rw [World.read, World.read, hr]
  refine ⟨by rw [hr]; exact h.1, fun run => ?_⟩
  rw [hread]
  exact h.2 run

/-- **A run at or after the slot loses no evidence**: what it clears is already in its report. -/
theorem RunStep.keeps {t : Int} (h : RunStep t w w') (ht : slot ≤ t) : Keeps slot w w' := by
  cases h with
  | reads => exact .refl w
  | begins pid host =>
    exact ⟨fun _ => .inl ⟨pid, host, t, ht, by simp⟩, fun hs => hs.of_report (by simp)⟩
  | publishes report own => exact ⟨fun _ => .inr (settled_put own ht), fun _ => settled_put own ht⟩
  | remembers j =>
    refine ⟨fun hc => ?_, fun hs => hs.of_report (by simp)⟩
    rcases hc with ⟨pid, host, u, hu, hm⟩ | hs
    · exact .inl ⟨pid, host, u, hu, by simpa using hm⟩
    · exact .inr (hs.of_report (by simp))
  | clears report own left =>
    have hs : Settled slot (w.drop .marker) := by
      refine ⟨by simp [left], fun run hr _ => ?_⟩
      have hread : (w.drop .marker).read .report = some report.payload := by simp [World.read, left]
      rw [hread, readReport_payload own] at hr
      rw [← Option.some.inj hr]
      exact ht
    exact ⟨fun _ => .inr hs, fun _ => hs⟩

/-- **The evidence of a run at or after the slot is still there.** -/
theorem RunStep.covered {t : Int} (h : RunStep t w w') {starts : List Int} (hl : Left starts w)
    (hlast : ∀ u ∈ starts, u ≤ t) (hc : Underway slot w → Covered slot w) : Underway slot w' → Covered slot w' := by
  have hold : Underway slot w → Covered slot w' := by
    intro hu
    obtain ⟨u, hslot, hm | hr⟩ := id hu
    · obtain ⟨pid, host, hm⟩ := hm
      exact (h.keeps (le_trans hslot (hlast u (hl.markers pid host u hm)))).1 (hc hu)
    · obtain ⟨report, own, -, hr⟩ := hr
      exact (h.keeps (le_trans hslot (hlast u (hl.reports report u own hr)))).1 (hc hu)
  cases h with
  | reads => exact hc
  | begins pid host =>
    rintro ⟨u, hslot, ⟨pid', host', hm⟩ | ⟨report, own, hok, hr⟩⟩
    · rw [World.published_put, List.mem_append, List.mem_singleton] at hm
      rcases hm with hm | hm
      · exact hold ⟨u, hslot, .inl ⟨pid', host', hm⟩⟩
      · rw [progressOf_inj (Prod.mk.inj hm).2] at hslot
        exact .inl ⟨pid, host, t, hslot, by simp⟩
    · exact hold ⟨u, hslot, .inr ⟨report, own, hok, by simpa using hr⟩⟩
  | publishes report own =>
    rintro ⟨u, hslot, ⟨pid, host, hm⟩ | ⟨report', own', hok, hr⟩⟩
    · exact hold ⟨u, hslot, .inl ⟨pid, host, by simpa using hm⟩⟩
    · rw [World.published_put, List.mem_append, List.mem_singleton] at hr
      rcases hr with hr | hr
      · exact hold ⟨u, hslot, .inr ⟨report', own', hok, hr⟩⟩
      · rw [startedAt_inj own' own (Prod.mk.inj hr).2] at hslot
        exact .inr (settled_put own hslot)
  | remembers j =>
    rintro ⟨u, hslot, ⟨pid, host, hm⟩ | ⟨report, own, hok, hr⟩⟩
    · exact hold ⟨u, hslot, .inl ⟨pid, host, by simpa using hm⟩⟩
    · exact hold ⟨u, hslot, .inr ⟨report, own, hok, by simpa using hr⟩⟩
  | clears report own left => exact fun hu => hold hu

theorem nights_covered (auditAt slot : Int) :
    (nights auditAt).Always (fun s => Underway slot s.world → Covered slot s.world) := by
  refine (nights_inv auditAt).strengthen ?_ ?_
  · rintro s ⟨-, -, -, hpublished, -, -⟩ ⟨t, -, ⟨pid, host, h⟩ | ⟨report, -, -, h⟩⟩ <;> simp [hpublished] at h
  · intro s s' hs hc hstep
    rcases Step.world hstep hs with heq | ⟨t, ht, hlast, hrun⟩
    · rw [heq]
      exact hc
    · exact hrun.covered hs.left hlast hc

end Evidence

/-! ## The verdict -/

section Verdict

variable {slot auditAt : Int} {w : World}

/-- The check from here on, while the others do what `R` allows. -/
abbrev Judges (R : World → World → Prop) (p : Program (List String)) (Q : List String → Prop) (w : World) : Prop :=
  rg Does R (fun _ _ => True) p (fun o _ => ∀ issues, o = .ok issues → Q issues) w

theorem judges_pure {R : World → World → Prop} {Q : List String → Prop} {issues : List String} (h : Q issues) :
    Judges R (pure issues) Q w := by
  intro issues' heq
  cases heq
  exact h

/-- The last part of the check says nothing, or that the backlog drains or is deferred. -/
theorem deferredIssues_judges {R : World → World → Prop} {Q : List String → Prop} (run : LastRun) (hnil : Q [])
    (hdraining : Q ["offsite_backup:draining"]) (hdeferred : Q ["offsite_backup:deferred"]) :
    Judges R (deferredIssues auditAt run) Q w := by
  have hclassify : ∀ effective, Q [classifyDeferred effective auditAt] := by
    intro effective
    unfold classifyDeferred classifyNewestFirst
    split
    · exact hdraining
    · exact hdraining
    · dsimp only
      split_ifs
      · exact hdeferred
      · exact hdeferred
      · exact hdeferred
      · exact hdraining
  unfold deferredIssues
  split
  · dsimp only
    split
    · exact fun _ _ _ _ _ => ⟨trivial, judges_pure (hclassify _)⟩
    · exact judges_pure hnil
  · exact judges_pure hnil

theorem freshMarkerOutcome_of_fresh (pid : Int) (host : Text) {t : Int} (ht : slot ≤ t) :
    freshMarkerOutcome (some (progressOf pid host t)) slot auditAt = some ["offsite_backup:running"] ∨
      freshMarkerOutcome (some (progressOf pid host t)) slot auditAt = some ["offsite_backup:interrupted"] := by
  have heq : freshMarkerOutcome (some (progressOf pid host t)) slot auditAt = if t < slot then none
      else if auditAt < t + backupTotalBudget + backupProgressGrace then some ["offsite_backup:running"]
      else some ["offsite_backup:interrupted"] := rfl
  rw [heq, if_neg (by omega)]
  by_cases hd : auditAt < t + backupTotalBudget + backupProgressGrace
  · exact .inl (if_pos hd)
  · exact .inr (if_neg hd)

theorem freshMarkerOutcome_of_old (pid : Int) (host : Text) {t : Int} (ht : t < slot) :
    freshMarkerOutcome (some (progressOf pid host t)) slot auditAt = none := if_pos ht

/-- Neither missing nor stale. -/
def NoCry (issues : List String) : Prop := "offsite_backup:missing" ∉ issues ∧ "offsite_backup:stale" ∉ issues

/-- Something, and not that a run goes on. -/
def Alarm (issues : List String) : Prop := issues ≠ [] ∧ "offsite_backup:running" ∉ issues

/-- **The check among runs at or after the slot that left evidence.**  A marker that is not fresh was read where the
evidence was in the report, which is read after. -/
theorem check_noCry (hc : Covered (expectedBackupSlot auditAt) w) :
    Judges (Keeps (expectedBackupSlot auditAt)) (backupStalenessIssues auditAt) NoCry w := by
  rintro w₁ hw₁ raw w₂ ⟨rfl, hraw⟩
  refine ⟨trivial, ?_⟩
  rintro w₃ hw₃ there w₄ ⟨rfl, hthere⟩
  refine ⟨trivial, ?_⟩
  replace hraw : raw = w₂.read .marker := hraw.resolve_right (fun h => h.1 rfl)
  have hfresh : ∀ other, Settled (expectedBackupSlot auditAt) w₄ ∨
      NoCry ((freshMarkerOutcome (readBackupProgress raw) (expectedBackupSlot auditAt) auditAt).getD other) := by
    intro other
    rcases hw₁.1 hc with ⟨pid, host, t, ht, hm⟩ | hs
    · right
      rw [hraw, hm]
      rcases freshMarkerOutcome_of_fresh pid host ht with h | h <;>
        rw [h, Option.getD_some] <;> exact ⟨by decide, by decide⟩
    · exact .inl (hw₃.2 hs)
  cases there with
  | false =>
    refine judges_pure ((hfresh _).resolve_left fun hs => ?_)
    rw [hs.1] at hthere
    cases hthere
  | true =>
    rintro w₅ hw₅ report w₆ ⟨rfl, hreport⟩
    refine ⟨trivial, ?_⟩
    dsimp only [Prog.bind]
    cases hrun : readReport report with
    | none => exact judges_pure ⟨by decide, by decide⟩
    | some run =>
      dsimp only
      by_cases hok : run.status = .plain "ok"
      · rw [if_neg (not_not.2 hok)]
        by_cases hold : run.startedAt.instant < expectedBackupSlot auditAt
        · rw [if_pos hold]
          refine judges_pure ((hfresh _).resolve_left fun hs => ?_)
          rcases hreport with rfl | ⟨-, rfl⟩
          · have hnew := (hw₅.2 hs).2 run hrun hok
            omega
          · cases hrun
        · rw [if_neg hold]
          exact deferredIssues_judges run ⟨by decide, by decide⟩ ⟨by decide, by decide⟩ ⟨by decide, by decide⟩
      · rw [if_pos hok]
        exact judges_pure ⟨by decide, by decide⟩

/-- Nothing that can be read is of a run at or after the slot. -/
def Old (slot : Int) (w : World) : Prop :=
  (∀ progress, readBackupProgress (w.read .marker) = some progress →
    ∃ pid host, ∃ t < slot, progress = progressOf pid host t) ∧
  ∀ run, readReport (w.read .report) = some run → run.startedAt.instant < slot

theorem Left.old {starts : List Int} (h : Left starts w) (hslot : ∀ t ∈ starts, t < slot) : Old slot w := by
  refine ⟨fun progress hp => ?_, fun run hr => ?_⟩
  · obtain ⟨pid, host, t, ht, rfl⟩ := h.marker progress hp
    exact ⟨pid, host, t, hslot t ht, rfl⟩
  · obtain ⟨t, ht, heq⟩ := h.report run hr
    rw [heq]
    exact hslot t ht

/-- **The check among runs from before the slot.** -/
theorem check_alarm (ho : Old (expectedBackupSlot auditAt) w) :
    Judges (fun w w' => Old (expectedBackupSlot auditAt) w → Old (expectedBackupSlot auditAt) w')
      (backupStalenessIssues auditAt) Alarm w := by
  rintro w₁ hw₁ raw w₂ ⟨rfl, hraw⟩
  refine ⟨trivial, ?_⟩
  rintro w₃ hw₃ there w₄ ⟨rfl, -⟩
  refine ⟨trivial, ?_⟩
  have ho₂ : Old (expectedBackupSlot auditAt) w₂ := hw₁ ho
  have ho₄ : Old (expectedBackupSlot auditAt) w₄ := hw₃ ho₂
  have hfresh : freshMarkerOutcome (readBackupProgress raw) (expectedBackupSlot auditAt) auditAt = none := by
    rw [hraw.resolve_right (fun h => h.1 rfl)]
    cases hp : readBackupProgress (w₂.read .marker) with
    | none => rfl
    | some progress =>
      obtain ⟨pid, host, t, ht, rfl⟩ := ho₂.1 progress hp
      exact freshMarkerOutcome_of_old pid host ht
  cases there with
  | false =>
    refine judges_pure ?_
    rw [hfresh]
    exact ⟨by decide, by decide⟩
  | true =>
    rintro w₅ hw₅ report w₆ ⟨rfl, hreport⟩
    refine ⟨trivial, ?_⟩
    dsimp only [Prog.bind]
    cases hrun : readReport report with
    | none => exact judges_pure ⟨by decide, by decide⟩
    | some run =>
      dsimp only
      by_cases hok : run.status = .plain "ok"
      · have hold : run.startedAt.instant < expectedBackupSlot auditAt := by
          rcases hreport with rfl | ⟨-, rfl⟩
          · exact (hw₅ ho₄).2 run hrun
          · cases hrun
        rw [if_neg (not_not.2 hok), if_pos hold, hfresh]
        exact judges_pure ⟨by decide, by decide⟩
      · rw [if_pos hok]
        exact judges_pure ⟨by decide, by decide⟩

end Verdict

/-! ## The check among the runs -/

/-- The check that goes on gives `Q` while the others do what `R` allows. -/
def Checks (R : World → World → Prop) (Q : List String → Prop) (s : State) : Prop :=
  ∀ p, s.check = some p → Judges R p Q s.world

/-- What every step allows is all the check needs. -/
theorem Checks.step {auditAt : Int} {R : World → World → Prop} {Q : List String → Prop} {s s' : State}
    (hrefl : ∀ w, R w w) (htrans : ∀ a b c, R a b → R b c → R a c) (hstep : Step auditAt s s')
    (hR : R s.world s'.world) (hbegin : Judges R (backupStalenessIssues auditAt) Q s.world) (h : Checks R Q s) :
    Checks R Q s' := by
  cases hstep with
  | start pid host now idle later => exact h
  | run t p p' w' going next => exact fun q hq => Prog.rg_stable htrans (fun _ _ _ hQ _ => hQ) (h q hq) hR
  | cut => exact h
  | begin waiting =>
    intro q hq
    cases hq
    exact hbegin
  | check p p' w' going next =>
    intro q hq
    cases hq
    exact (Prog.rg_next hrefl (h p going) next).2

/-- Everything published stays published. -/
theorem RunStep.published {t : Int} {w w' : World} (h : RunStep t w w') : ∀ e ∈ w.published, e ∈ w'.published := by
  intro e he
  cases h with
  | reads => exact he
  | begins => exact List.mem_append_left _ he
  | publishes => exact List.mem_append_left _ he
  | remembers => exact List.mem_append_left _ he
  | clears => exact he

theorem Step.underway {auditAt slot : Int} {s s' : State} (h : Step auditAt s s') (hs : Inv s)
    (hu : Underway slot s.world) : Underway slot s'.world := by
  have hsub : ∀ e ∈ s.world.published, e ∈ s'.world.published := by
    rcases Step.world h hs with heq | ⟨t, -, -, hrun⟩
    · rw [heq]
      exact fun e he => he
    · exact hrun.published
  obtain ⟨t, ht, ⟨pid, host, hm⟩ | ⟨report, own, hok, hr⟩⟩ := hu
  · exact ⟨t, ht, .inl ⟨pid, host, hsub _ hm⟩⟩
  · exact ⟨t, ht, .inr ⟨report, own, hok, hsub _ hr⟩⟩

/-- Where there is evidence, every step keeps it. -/
theorem Step.keeps {auditAt slot : Int} {s s' : State} (h : Step auditAt s s') (hs : Inv s)
    (hu : Underway slot s.world) : Keeps slot s.world s'.world := by
  rcases Step.world h hs with heq | ⟨t, -, hlast, hrun⟩
  · rw [heq]
    exact .refl _
  · obtain ⟨u, hslot, ⟨pid, host, hm⟩ | ⟨report, own, -, hr⟩⟩ := hu
    · exact hrun.keeps (le_trans hslot (hlast u (hs.left.markers pid host u hm)))
    · exact hrun.keeps (le_trans hslot (hlast u (hs.left.reports report u own hr)))

theorem checks_noCry {auditAt : Int} {s s' : State} (hr : (nights auditAt).Reachable s) (hwait : s.check = none)
    (hu : Underway (expectedBackupSlot auditAt) s.world) (hrun : Relation.ReflTransGen (Step auditAt) s s') :
    Underway (expectedBackupSlot auditAt) s'.world ∧ Checks (Keeps (expectedBackupSlot auditAt)) NoCry s' := by
  induction hrun with
  | refl => exact ⟨hu, fun p hp => by rw [hwait] at hp; cases hp⟩
  | tail hprefix hstep ih =>
    obtain ⟨hu', hchecks⟩ := ih
    have hr' := hr.run hprefix
    have hinv := nights_inv auditAt _ hr'
    have hbegin := check_noCry (nights_covered auditAt _ _ hr' hu')
    exact ⟨hstep.underway hinv hu', hchecks.step .refl .trans hstep (hstep.keeps hinv hu') hbegin⟩

theorem checks_alarm (auditAt : Int) :
    (nights auditAt).Always (fun s => (∀ t ∈ s.starts, t < expectedBackupSlot auditAt) →
      Checks (fun w w' => Old (expectedBackupSlot auditAt) w → Old (expectedBackupSlot auditAt) w') Alarm s) := by
  refine (nights_inv auditAt).strengthen ?_ ?_
  · rintro s ⟨-, -, hcheck, -⟩ - p hp
    rw [hcheck] at hp
    cases hp
  · intro s s' hs hchecks hstep hslot
    have hstarts : ∀ t ∈ s.starts, t ∈ s'.starts := by
      cases hstep with
      | start => exact fun t ht => List.mem_append_left _ ht
      | run => exact fun t ht => ht
      | cut => exact fun t ht => ht
      | begin => exact fun t ht => ht
      | check => exact fun t ht => ht
    have hold : Old (expectedBackupSlot auditAt) s.world := hs.left.old fun t ht => hslot t (hstarts t ht)
    have hold' : Old (expectedBackupSlot auditAt) s'.world := by
      rcases Step.world hstep hs with heq | ⟨t, ht, -, hrun⟩
      · rw [heq]
        exact hold
      · exact (hrun.left ht hs.left).old fun t ht => hslot t (hstarts t ht)
    exact (hchecks fun t ht => hslot t (hstarts t ht)).step (fun _ => id) (fun _ _ _ h h' => h' ∘ h) hstep
      (fun _ => hold') (check_alarm hold)

/-- **The check never cries wolf across a race**: when it begins after a run at or after the slot has written its marker
or published an ok report, it says neither that the backup is missing nor that it is stale; and when every run started
before the slot, it says something, and not that one goes on. -/
theorem staleness_sound (auditAt : Int) :
    (∀ s s' issues, (nights auditAt).Reachable s → s.check = none → Underway (expectedBackupSlot auditAt) s.world →
      Relation.ReflTransGen (Step auditAt) s s' → s'.check = some (pure issues) →
      "offsite_backup:missing" ∉ issues ∧ "offsite_backup:stale" ∉ issues) ∧
    (∀ s issues, (nights auditAt).Reachable s → (∀ t ∈ s.starts, t < expectedBackupSlot auditAt) →
      s.check = some (pure issues) → issues ≠ [] ∧ "offsite_backup:running" ∉ issues) := by
  constructor
  · intro s s' issues hr hwait hu hrun hdone
    exact (checks_noCry hr hwait hu hrun).2 _ hdone issues rfl
  · intro s issues hr hslot hdone
    exact checks_alarm auditAt s hr hslot _ hdone issues rfl

/-- Every call succeeds, and the transfers end well. -/
private def answers : (op : Op) → World → Ret op × World
  | .loads f, w => (w.read f, w)
  | .there f, w => ((w.files f).isSome, w)
  | .write f j, w => (true, w.put f j)
  | .remove f, w => (true, w.drop f)
  | .inner, w => (.returned (.moment (utc 0)) [] [], w)

private theorem does_answers (op : Op) (w : World) : Does op w (answers op w).1 (answers op w).2 := by
  cases op with
  | loads f => exact ⟨rfl, .inl rfl⟩
  | there f => exact ⟨rfl, rfl⟩
  | write f j => exact rfl
  | remove f => exact rfl
  | inner => exact rfl

/-- An hour after a slot. -/
private def hourAfter : Int := slotOn 1 + 3600 * 1000000

private def firstNight : State where
  world := ⟨fun _ => none, []⟩
  starts := []
  run := none
  check := none

/-- The run that started at the slot, after `n` calls, with a check after `m` calls. -/
private def night (n : Nat) (check : Option (Program (List String))) : State :=
  let run := Prog.afterCalls answers n (runOffsiteBackup 1 (.plain "host") (slotOn 1)) firstNight.world
  { world := run.2, starts := [slotOn 1], run := some (slotOn 1, run.1), check }

private theorem firstNight_start : (nights hourAfter).start firstNight := ⟨rfl, rfl, rfl, rfl, rfl, rfl⟩

private theorem night_reachable : (nights hourAfter).Reachable (night 1 none) := by
  have h₁ : (nights hourAfter).step firstNight (night 0 none) :=
    .start firstNight 1 (.plain "host") (slotOn 1) rfl (fun t ht => by cases ht)
  have h₂ : (nights hourAfter).step (night 0 none) (night 1 none) :=
    .run _ (slotOn 1) _ _ _ rfl (Prog.next_afterCalls (n := 0) does_answers rfl)
  exact ((System.Reachable.start firstNight_start).step h₁).step h₂

/-- The check reads the marker, the run goes on to its end, and the check reads the report; a check before the first run. -/
theorem staleness_sound_race :
    ("offsite_backup:missing" ∉ ([] : List String) ∧ "offsite_backup:stale" ∉ ([] : List String)) ∧
      ["offsite_backup:missing"] ≠ [] ∧ "offsite_backup:running" ∉ ["offsite_backup:missing"] := by
  have hu : Underway (expectedBackupSlot hourAfter) (night 1 none).world :=
    ⟨slotOn 1, by decide, .inl ⟨1, .plain "host", List.mem_cons_self⟩⟩
  let p (n : Nat) := (Prog.afterCalls answers n (backupStalenessIssues hourAfter) (night 1 none).world).1
  let q (n : Nat) := (Prog.afterCalls answers n (p 1) (night 6 none).world).1
  have hbegin : Step hourAfter (night 1 none) (night 1 (some (p 0))) := .begin _ rfl
  have hmarker : Step hourAfter (night 1 (some (p 0))) (night 1 (some (p 1))) :=
    .check _ _ _ _ rfl (Prog.next_afterCalls (n := 0) does_answers rfl)
  have hcalls : ∀ n < 6, (night n none).run.any (fun run => run.2.isCall) = true := by decide
  have hrun : ∀ n < 6, Step hourAfter (night n (some (p 1))) (night (n + 1) (some (p 1))) := fun n hn =>
    .run _ (slotOn 1) _ _ _ rfl (Prog.next_afterCalls (n := n) does_answers (hcalls n hn))
  have hthere : Step hourAfter (night 6 (some (q 0))) (night 6 (some (q 1))) :=
    .check _ _ _ _ rfl (Prog.next_afterCalls (n := 0) does_answers rfl)
  have hreport : Step hourAfter (night 6 (some (q 1))) (night 6 (some (q 2))) :=
    .check _ _ _ _ rfl (Prog.next_afterCalls (n := 1) does_answers rfl)
  have hall : Relation.ReflTransGen (Step hourAfter) (night 1 none) (night 6 (some (q 2))) :=
    ((((((((Relation.ReflTransGen.refl.tail hbegin).tail hmarker).tail (hrun 1 (by omega))).tail
      (hrun 2 (by omega))).tail (hrun 3 (by omega))).tail (hrun 4 (by omega))).tail
      (hrun 5 (by omega))).tail hthere).tail hreport
  refine ⟨(staleness_sound hourAfter).1 _ _ _ night_reachable rfl hu hall rfl, ?_⟩
  let r (n : Nat) := (Prog.afterCalls answers n (backupStalenessIssues hourAfter) firstNight.world).1
  let early (n : Nat) : State := { firstNight with check := some (r n) }
  have hfirst : Step hourAfter firstNight (early 0) := .begin _ rfl
  have hread : Step hourAfter (early 0) (early 1) := .check _ _ _ _ rfl (Prog.next_afterCalls (n := 0) does_answers rfl)
  have hmissing : Step hourAfter (early 1) (early 2) :=
    .check _ _ _ _ rfl (Prog.next_afterCalls (n := 1) does_answers rfl)
  have hreach : (nights hourAfter).Reachable (early 2) :=
    (((System.Reachable.start firstNight_start).step hfirst).step hread).step hmissing
  exact (staleness_sound hourAfter).2 _ _ hreach (fun t ht => by cases ht) rfl

end Backup
