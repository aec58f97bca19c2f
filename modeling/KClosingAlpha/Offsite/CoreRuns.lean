import KClosingAlpha.Offsite.CoreRun
/-!
# CoreRuns — what a history of runs leaves of the snapshots it has made

Runs follow one another, each of any day and cut anywhere, and the core files and the form change at any moment.  A snapshot
whose upload went through stays what was staged until its directory is purged (`Standing`); a purge takes none that retention
keeps, and no base file that its form lists goes from the remote (`Spares`).
-/
set_option linter.unusedSectionVars false

namespace CoreSnapshot

open PriceForm (Frame Kind RelPath OffsiteFile OffsiteManifest)

variable {Cell Payload Digest : Type} [DecidableEq Digest]

/-- Runs of the snapshot, one after another, from a remote without any; the others change the core files and the form. -/
def snapshots (pd : PriceForm.Pandas Cell Payload Digest) (reader : Reader Payload) :
    System (Prog.Session (Op Cell Payload Digest) Ret Exn (List String) (World Cell Payload Digest)) :=
  Prog.Session.sessions (Does pd reader) (Changes fun _ => True)
    (fun p => ∃ day acceptedMissing, p = runCoreSnapshot reader.repr day acceptedMissing)
    (fun w => w.days = [] ∧ w.log = [])

/-- A manifest, and for each of its entries the file, or for the monolith its form. -/
def Dir.Complete (d : Dir Cell Payload Digest) : Prop :=
  ∃ stats, d.manifest = some (manifestText stats) ∧ ∀ entry ∈ stats,
    d.files (.core entry.relpath) ≠ none ∨ entry.relpath = priceHistoryRelpath ∧ d.form ≠ none

/-- Every snapshot that is kept is complete, and its directory holds all of it. -/
def Standing (w : World Cell Payload Digest) : Prop :=
  ∀ x ∈ kept w.log, x.1 ∈ w.days ∧ x.2.Holds (w.dirAt x.1) ∧ x.2.Complete

/-- What a step does to the snapshots that are kept. -/
structure Spares (w w' : World Cell Payload Digest) : Prop where
  retained : ∀ x ∈ kept w.log, x ∉ kept w'.log →
    ¬ Retention.Retained Day.month keepWeekly keepMonthly w.days.toFinset x.1
  base : ∀ x ∈ kept w.log, ∀ p, References w x.1 p → w.blobs p ≠ none → w'.blobs p = w.blobs p

variable {pd : PriceForm.Pandas Cell Payload Digest} {reader : Reader Payload} {w w' : World Cell Payload Digest}

/-! ## Steps -/

theorem Spares.of_same (hlog : w'.log = w.log) (hblobs : w'.blobs = w.blobs) : Spares w w' :=
  ⟨fun x hx hnot => absurd (hlog ▸ hx) hnot, fun _ _ p _ _ => by rw [hblobs]⟩

theorem Standing.changes {P : PriceForm.World Cell Payload Digest → Prop} (h : Standing w) (hc : Changes P w w') :
    Standing w' := by
  intro x hx
  rw [hc.log] at hx
  rw [World.dirAt_of_changes hc, hc.days]
  exact h x hx

/-- What was there is there after a copy, and so is what was staged when it succeeds. -/
theorem Dir.Holds.within {staging d new : Dir Cell Payload Digest} {st : Dir Cell Payload Digest} (h : st.Holds d)
    (hw : d.Within staging new) : st.Holds new where
  files p b hb := by
    rcases hw.files p with heq | ⟨hnone, -⟩
    · rw [heq, h.files p b hb]
    · rw [h.files p b hb] at hnone
      cases hnone
  form t ht := by
    rcases hw.form with heq | ⟨hnone, -⟩
    · rw [heq, h.form t ht]
    · rw [h.form t ht] at hnone
      cases hnone
  manifest t ht := by
    rcases hw.manifest with heq | ⟨hnone, -⟩
    · rw [heq, h.manifest t ht]
    · rw [h.manifest t ht] at hnone
      cases hnone

theorem Standing.copy {d : Day} {st : Dir Cell Payload Digest} {r : Ret (.copy d st : Op Cell Payload Digest)}
    (h : Standing w) (hst : st.Complete) (hdoes : Does pd reader (.copy d st) w r w') : Standing w' := by
  intro x hx
  have hkept := (mem_kept_copy hdoes).1 hx
  obtain ⟨w₁, hw₁, rfl⟩ := hdoes
  generalize succeeded r = ok at hw₁ hkept
  cases hw₁ with
  | nothing => exact h x (hkept.resolve_left fun hnew => by cases hnew.2)
  | entered ok new hwithin hwhole =>
    have hdir (e : Day) : World.dirAt ⟨w.core, w.form, w.days.insert d, Function.update w.dir d new, w.blobs,
        w.log ++ [.copied d st ok]⟩ e = if e = d then new else w.dirAt e := by
      unfold World.dirAt
      by_cases he : e = d
      · simp [he]
      · simp [he, Function.update_of_ne]
    change x.1 ∈ w.days.insert d ∧ x.2.Holds (World.dirAt ⟨_, _, _, _, _, _⟩ x.1) ∧ _
    rw [hdir, List.mem_insert_iff]
    rcases hkept with ⟨rfl, hok⟩ | hx
    · exact ⟨.inl rfl, by rw [if_pos rfl]; exact hwhole hok, hst⟩
    · obtain ⟨hthere, hholds, hcomplete⟩ := h x hx
      refine ⟨.inr hthere, ?_, hcomplete⟩
      split_ifs with he
      · rw [he] at hholds
        exact hholds.within hwithin
      · exact hholds

theorem Standing.purge {d : Day} {r : Ret (.purge d : Op Cell Payload Digest)} (h : Standing w)
    (hdoes : Does pd reader (.purge d) w r w') : Standing w' := by
  intro x hx
  obtain ⟨hx₀, hne⟩ := (mem_kept_purge hdoes).1 hx
  obtain ⟨hthere, hholds, hcomplete⟩ := h x hx₀
  obtain ⟨w₁, hw₁, rfl⟩ := hdoes
  generalize succeeded r = ok at hw₁
  refine ⟨?_, ?_, hcomplete⟩
  · cases hw₁ with
    | gone ok => exact List.mem_filter.2 ⟨hthere, by simpa using hne⟩
    | rest new hrest => exact hthere
  · have hdir : (w₁.tell (.purged d)).dirAt x.1 = w.dirAt x.1 := by
      unfold World.dirAt
      cases hw₁ with
      | gone ok => simp [World.tell, hne]
      | rest new hrest => simp [World.tell, Function.update_of_ne hne]
    rw [hdir]
    exact hholds

theorem Spares.purge {d : Day} {r : Ret (.purge d : Op Cell Payload Digest)}
    (hnot : ¬ Retention.Retained Day.month keepWeekly keepMonthly w.days.toFinset d)
    (hdoes : Does pd reader (.purge d) w r w') : Spares w w' where
  retained x hx hgone := by
    have hx₁ : x.1 = d := by
      by_contra hne
      exact hgone ((mem_kept_purge hdoes).2 ⟨hx, hne⟩)
    exact hx₁ ▸ hnot
  base _ _ p _ _ := by
    obtain ⟨w₁, hw₁, rfl⟩ := hdoes
    generalize succeeded r = ok at hw₁
    cases hw₁ <;> rfl

theorem Spares.copy {d : Day} {st : Dir Cell Payload Digest} {r : Ret (.copy d st : Op Cell Payload Digest)}
    (hdoes : Does pd reader (.copy d st) w r w') : Spares w w' where
  retained x hx hgone := absurd ((mem_kept_copy hdoes).2 (.inr hx)) hgone
  base _ _ p _ _ := by
    obtain ⟨w₁, hw₁, rfl⟩ := hdoes
    generalize succeeded r = ok at hw₁
    cases hw₁ <;> rfl

theorem Spares.copyBlobs {bs : List (RelPath Digest × Payload)} {r : Ret (.copyBlobs bs : Op Cell Payload Digest)}
    (hdoes : Does pd reader (.copyBlobs bs) w r w') : Spares w w' := by
  obtain ⟨new, rfl, hnew, -⟩ := hdoes
  exact ⟨fun x hx hnot => absurd hx hnot, fun _ _ p _ hp => (hnew p).resolve_right fun h => hp h.1⟩

theorem Spares.deleteBlobs {stale : List (RelPath Digest)} {r : Ret (.deleteBlobs stale : Op Cell Payload Digest)}
    (hnot : ∀ x ∈ kept w.log, ∀ p ∈ stale, ¬ References w x.1 p)
    (hdoes : Does pd reader (.deleteBlobs stale) w r w') : Spares w w' := by
  obtain ⟨new, rfl, hnew, -⟩ := hdoes
  exact ⟨fun x hx hgone => absurd hx hgone, fun x hx p href _ => (hnew p).resolve_right fun h => hnot x hx p h.1 href⟩

theorem Staged.complete {P : PriceForm.World Cell Payload Digest → Prop}
    {C : (op : Op Cell Payload Digest) → World Cell Payload Digest → Ret op → Prop} {stats : List CorePanelStat}
    {d : Dir Cell Payload Digest} (h : Staged P C stats d w) : d.Complete := by
  refine ⟨stats, h.manifest, fun entry he => ?_⟩
  rcases h.core entry he with ⟨b, hb, -⟩ | ⟨hpath, m, -, hform⟩
  · exact .inl (by simp [hb])
  · obtain ⟨text, htext, -⟩ := hform.manifest
    exact .inr ⟨hpath, by simp [htext]⟩

/-! ## Histories -/

/-- A step that lets what is kept stand, and spares it. -/
def Guarded (w w' : World Cell Payload Digest) : Prop := (Standing w → Standing w') ∧ Spares w w'

/-- **Every call of a run guards what is kept**, whatever the others do. -/
theorem run_guards (day : Day) (acceptedMissing : List String) (hw : Standing w) :
    Prog.rg (Does pd reader) (Changes fun _ => True) Guarded (runCoreSnapshot reader.repr day acceptedMissing)
      (fun _ _ => True) w := by
  have hsame : ∀ w : World Cell Payload Digest, Guarded w w := fun w => ⟨id, .of_same rfl rfl⟩
  have hmeets : Meets (fun _ _ _ => True) (Does pd reader) = Does pd reader := by
    funext op w r w'
    simp [Meets]
  rw [← hmeets]
  have hretains : Retains pd reader Guarded := by
    refine ⟨fun d w r w' hnot hdoes => ⟨fun h => h.purge hdoes, .purge hnot hdoes⟩,
      fun w stale r w' hnot hdoes => ⟨fun h => ?_, .deleteBlobs hnot hdoes⟩⟩
    obtain ⟨new, rfl, -⟩ := hdoes
    exact h
  refine run_among (P := fun _ => True) (B := fun _ => True) hsame
    (fun w bs r w' _ hdoes => ⟨fun h => ?_, .copyBlobs hdoes⟩) (fun _ _ _ _ => trivial) hretains
    (fun stats previous up w r w' _ hprep hdoes => ⟨fun h => h.copy hprep.staged.complete hdoes, .copy hdoes⟩)
    (fun x hx => (hw x hx).1) trivial
  obtain ⟨new, rfl, -⟩ := hdoes
  exact h

end CoreSnapshot
