import KClosingAlpha.Offsite.CoreStage
/-!
# CoreRun — what is known of every call of a run that changes something

The upload carries what was validated; a purge takes a dated directory that retention does not keep; and the base files that
are deleted are none that a kept snapshot lists (`run_among`).
-/
set_option linter.unusedSectionVars false

namespace CoreSnapshot

open PriceForm (Frame Kind RelPath OffsiteFile OffsiteManifest)
open Prog (Exec among among_bind among_ret among_raise among_mono)

variable {Cell Payload Digest : Type} [DecidableEq Digest] {pd : PriceForm.Pandas Cell Payload Digest}
  {reader : Reader Payload} {P : PriceForm.World Cell Payload Digest → Prop}
  {C : (op : Op Cell Payload Digest) → World Cell Payload Digest → Ret op → Prop}
  {G : World Cell Payload Digest → World Cell Payload Digest → Prop} {w₀ w : World Cell Payload Digest}

/-! ## What is kept -/

/-- The form of a snapshot lists a base file. -/
def References (w : World Cell Payload Digest) (d : Day) (p : RelPath Digest) : Prop :=
  ∃ m current, (w.dirAt d).form = some (some (m, current)) ∧ ∃ f ∈ m.base, f.relpath = p

theorem World.dirAt_of_changes {w' : World Cell Payload Digest} (h : Changes P w w') (d : Day) : w'.dirAt d = w.dirAt d := by
  unfold World.dirAt
  rw [h.days, h.dir]

/-- After a purge the snapshots that are kept are those that were, but for the one. -/
theorem mem_kept_purge {w' : World Cell Payload Digest} {d : Day} {r : Ret (.purge d : Op Cell Payload Digest)}
    (h : Does pd reader (.purge d) w r w') {x : Day × Dir Cell Payload Digest} :
    x ∈ kept w'.log ↔ x ∈ kept w.log ∧ x.1 ≠ d := by
  obtain ⟨w₁, hw₁, rfl⟩ := h
  rw [World.tell, kept_purged, hw₁.log, List.mem_filter, decide_eq_true_eq]

/-- A copy keeps what was kept, and its own day when it succeeds. -/
theorem mem_kept_copy {w' : World Cell Payload Digest} {d : Day} {st : Dir Cell Payload Digest}
    {r : Ret (.copy d st : Op Cell Payload Digest)} (h : Does pd reader (.copy d st) w r w')
    {x : Day × Dir Cell Payload Digest} :
    x ∈ kept w'.log ↔ x = (d, st) ∧ succeeded r = true ∨ x ∈ kept w.log := by
  obtain ⟨w₁, hw₁, rfl⟩ := h
  rw [World.tell, kept_copied, hw₁.log]
  cases succeeded r <;> simp

/-- A copy that succeeds leaves its directory there. -/
theorem days_of_copy {w' : World Cell Payload Digest} {d e : Day} {st : Dir Cell Payload Digest}
    {r : Ret (.copy d st : Op Cell Payload Digest)} (h : Does pd reader (.copy d st) w r w') (hok : succeeded r = true) :
    e ∈ w'.days ↔ e = d ∨ e ∈ w.days := by
  obtain ⟨w₁, hw₁, rfl⟩ := h
  rw [hok] at hw₁
  cases hw₁ with
  | entered ok new hwithin hwhole => exact List.mem_insert_iff

/-- A world in the middle of pruning: no other dated directory than those of `all` is there, and of these only some of `pruned`
are gone. -/
structure Purging (all pruned : List Day) (w : World Cell Payload Digest) : Prop where
  listed : ∀ d ∈ w.days, d ∈ all
  left : ∀ d ∈ all, d ∈ w.days ∨ d ∈ pruned

theorem Purging.changes {all pruned : List Day} {w' : World Cell Payload Digest} (h : Purging all pruned w)
    (hc : Changes P w w') : Purging all pruned w' := ⟨by rw [hc.days]; exact h.listed, by rw [hc.days]; exact h.left⟩

theorem Purging.purge {all pruned : List Day} {w' : World Cell Payload Digest} {d : Day}
    {r : Ret (.purge d : Op Cell Payload Digest)} (h : Purging all pruned w) (hd : d ∈ pruned)
    (hdoes : Does pd reader (.purge d) w r w') : Purging all pruned w' := by
  obtain ⟨w₁, hw₁, rfl⟩ := hdoes
  generalize succeeded r = ok at hw₁
  cases hw₁ with
  | gone ok =>
    refine ⟨fun e he => h.listed e (List.mem_filter.1 he).1, fun e he => ?_⟩
    by_cases heq : e = d
    · exact .inr (heq ▸ hd)
    · exact (h.left e he).imp_left fun hdays => List.mem_filter.2 ⟨hdays, by simpa using heq⟩
  | rest new hrest => exact ⟨h.listed, h.left⟩

/-- **What a run prunes is not retained of what is there**, however much of the rest it has pruned before. -/
theorem Purging.not_retained {all : List Day} {d : Day} (h : Purging all (selectSnapshotsToPrune all) w)
    (hd : d ∈ selectSnapshotsToPrune all) :
    ¬ Retention.Retained Day.month keepWeekly keepMonthly w.days.toFinset d := by
  refine fun hret => (mem_selectSnapshotsToPrune.1 hd).2 (hret.of_kept fun e he hkept => ?_)
  rw [List.mem_toFinset] at he ⊢
  exact (h.left e he).resolve_right fun hmem => (mem_selectSnapshotsToPrune.1 hmem).2 hkept

section run

variable (hG : ∀ w, G w w)
include hG

/-! ## Pruning -/

theorem purgeAll_among {all pruned : List Day} (hpurge : ∀ d ∈ pruned, ∀ w r w', Purging all pruned w →
      Does pd reader (.purge d) w r w' → G w w') : ∀ {names : List Day} {w : World Cell Payload Digest},
    names ⊆ pruned → Purging all pruned w → P w.form →
    among (Meets C (Does pd reader)) (Changes P) G (fun w => P w.form) (purgeAll names)
      (fun _ w' => ∀ x ∈ kept w'.log, x ∈ kept w.log ∧ x.1 ∉ names) w
  | [], w, _, _, hw => among_ret hw fun x hx => ⟨hx, by simp⟩
  | name :: names, w, hsub, hall, hw => by
    have hname : name ∈ pruned := hsub List.mem_cons_self
    refine bind_among (orRaise_among (perform_among fun w₁ hw₁ r w' hdoes => ?_)) (fun c w₁ hw₁ hc => ?_)
      (φ := fun _ w' => Purging all pruned w' ∧ ∀ x ∈ kept w'.log, x ∈ kept w.log ∧ x.1 ≠ name)
    · have hall₁ := hall.changes hw₁
      refine ⟨hpurge name hname _ _ _ hall₁ hdoes.1, ?_, fun c _ => ⟨hall₁.purge hname hdoes.1, fun x hx => ?_⟩⟩
      · obtain ⟨w₂, hw₂, rfl⟩ := hdoes.1
        change P w₂.form
        rw [hw₂.form]
        exact hw₁.form hw
      · rw [← hw₁.log]
        exact (mem_kept_purge hdoes.1).1 hx
    split_ifs
    · exact among_raise hw₁
    · have hrest : names ⊆ pruned := fun d hd => hsub (List.mem_cons_of_mem _ hd)
      refine among_mono (purgeAll_among hpurge hrest hc.1 hw₁) fun _ w' h x hx => ?_
      obtain ⟨hx₁, hnot⟩ := h x hx
      refine ⟨(hc.2 x hx₁).1, fun hmem => ?_⟩
      rcases List.mem_cons.1 hmem with heq | hmem
      · exact (hc.2 x hx₁).2 heq
      · exact hnot hmem

/-! ## The base files -/

/-- **A sweep that is not given up knows every base file that a snapshot lists.** -/
theorem referencedBlobs_among : ∀ {names : List Day} {w : World Cell Payload Digest}, Stays P w₀ w →
    among (Meets C (Does pd reader)) (Changes P) G (Stays P w₀) (referencedBlobs names)
      (fun o _ => ∀ referenced, o = some referenced → ∀ d ∈ names, ∀ p, References w₀ d p → p ∈ referenced) w
  | [], w, hw => among_ret hw fun _ _ d hd => by cases hd
  | name :: names, w, hw => by
    refine bind_among (orRaise_among (among_mono (read_among hG rfl hw) ?_)) (fun c w₁ hw₁ hc => ?_)
      (φ := fun c w' => Does pd reader (.lsfForm name) w' (some c : Option (Completed Bool)) w')
    · rintro r w' ⟨-, hdoes, -⟩ c rfl
      exact hdoes
    obtain ⟨hzero, hthree⟩ := hc.2 c rfl
    have hat := hw₁.dirAt name
    -- a directory without a manifest lists nothing
    have hskip (hnone : (w₀.dirAt name).form = none) :
        among (Meets C (Does pd reader)) (Changes P) G (Stays P w₀) (referencedBlobs names)
          (fun o _ => ∀ referenced, o = some referenced → ∀ d ∈ name :: names, ∀ p, References w₀ d p → p ∈ referenced) w₁ := by
      refine among_mono (referencedBlobs_among hw₁) fun o _ h referenced ho d hd p hp => ?_
      rcases List.mem_cons.1 hd with rfl | hd
      · obtain ⟨m, current, hm, -⟩ := hp
        rw [hnone] at hm
        cases hm
      · exact h referenced ho d hd p hp
    unfold listed
    by_cases h3 : c.returncode = 3
    · rw [if_pos h3]
      exact hskip (by rw [← hat]; exact hthree h3)
    rw [if_neg h3]
    by_cases h0 : c.returncode = 0
    · rw [if_neg (not_not.2 h0)]
      have hout := hzero h0
      cases hs : c.stdout with
      | false =>
        rw [hs, hat] at hout
        exact hskip (Option.isNone_iff_eq_none.1 (by simpa using hout.symm))
      | true =>
        refine bind_among (orRaise_among (among_mono (read_among hG rfl hw₁) ?_)) (fun shown w₂ hw₂ hshown => ?_)
          (φ := fun c w' => Does pd reader (.catForm name) w' (some c : Option (Completed (Option (OffsiteManifest Digest)))) w')
        · rintro r w' ⟨-, hdoes, -⟩ c rfl
          exact hdoes
        by_cases hrc : shown.returncode = 0
        · rw [if_neg (not_not.2 hrc)]
          have htext := hshown.2 shown rfl hrc
          rw [hw₂.dirAt] at htext
          cases hparse : PriceForm.parseManifest shown.stdout with
          | error e => exact among_ret hw₂ fun _ h => by cases h
          | ok m =>
            refine bind_among (referencedBlobs_among hw₂) (fun o w₃ hw₃ ho => ?_)
            cases o with
            | none => exact among_ret hw₃ fun _ h => by cases h
            | some referenced =>
              refine among_ret hw₃ fun _ h d hd p hp => ?_
              rw [← Option.some.inj h, List.mem_append]
              rcases List.mem_cons.1 hd with rfl | hd
              · obtain ⟨m', current, hm', f, hf, rfl⟩ := hp
                rw [hm', Option.map_some, Option.map_some, Option.some.injEq] at htext
                rw [← htext] at hparse
                simp only [PriceForm.parseManifest] at hparse
                split_ifs at hparse
                rw [← Except.ok.inj hparse]
                exact .inl (List.mem_map_of_mem hf)
              · exact .inr (ho referenced rfl d hd p hp)
        · rw [if_pos hrc]
          exact among_ret hw₂ fun _ h => by cases h
    · rw [if_pos h0]
      exact among_ret hw₁ fun _ h => by cases h

/-- **The base files that are deleted are none that one of the snapshots lists.** -/
theorem gcPriceHistoryBlobs_among (keptSnapshots : List Day) (blobs : List (RelPath Digest))
    (hdelete : ∀ w₁ stale r w', Stays P w w₁ → (∀ p ∈ stale, ∀ d ∈ keptSnapshots, ¬ References w₁ d p) →
      Does pd reader (.deleteBlobs stale) w₁ r w' → G w₁ w') (hw : P w.form) :
    among (Meets C (Does pd reader)) (Changes P) G (fun w => P w.form) (gcPriceHistoryBlobs keptSnapshots blobs)
      (fun _ _ => True) w := by
  have hstay : Stays P w w := ⟨rfl, rfl, rfl, hw⟩
  refine bind_among (φ := fun o w' => Stays P w w' ∧ ∀ referenced, o = some referenced → ∀ d ∈ keptSnapshots, ∀ p,
    References w d p → p ∈ referenced) ?_ (fun o w₁ hw₁ ho => ?_)
  · exact Prog.rg_mono (referencedBlobs_among hG hstay) fun o w' h => ⟨h.1.form, fun a ha => ⟨h.1, h.2 a ha⟩⟩
  cases o with
  | none => exact among_ret hw₁ trivial
  | some referenced =>
    dsimp only
    split_ifs
    · exact among_ret hw₁ trivial
    · refine bind_among (orRaise_among (perform_among fun w₂ hw₂ r w' hdoes => ?_)) (fun c w₃ hw₃ _ => ?_)
        (φ := fun _ _ => True)
      · have hs := ho.1.changes hw₂
        refine ⟨hdelete w₂ _ r w' hs (fun p hp d hd href => ?_) hdoes.1, ?_, fun _ _ => trivial⟩
        · have hin := ho.2 referenced rfl d hd p (by
            obtain ⟨m, current, hm, hf⟩ := href
            exact ⟨m, current, by rw [← hs.dirAt, hm], hf⟩)
          exact absurd hin (by simpa using (List.mem_filter.1 hp).2)
        · obtain ⟨new, rfl, -⟩ := hdoes.1
          exact hs.form
      · split_ifs
        · exact among_raise hw₃
        · exact among_ret hw₃ trivial

/-! ## The run -/

/-- The purges and the deletions that a run may call for. -/
structure Retains (pd : PriceForm.Pandas Cell Payload Digest) (reader : Reader Payload)
    (G : World Cell Payload Digest → World Cell Payload Digest → Prop) : Prop where
  purge : ∀ d w r w', ¬ Retention.Retained Day.month keepWeekly keepMonthly w.days.toFinset d →
    Does pd reader (.purge d) w r w' → G w w'
  delete : ∀ w stale r w', (∀ x ∈ kept w.log, ∀ p ∈ stale, ¬ References w x.1 p) →
    Does pd reader (.deleteBlobs stale) w r w' → G w w'

theorem retain_among {day : Day} {up : Upload Cell Payload Digest} (hr : Retains pd reader G)
    (hnames : ∀ d, d ∈ up.names ↔ d ∈ w₀.days) (hdays : ∀ d, d ∈ w.days ↔ d = day ∨ d ∈ w₀.days)
    (hkept : ∀ x ∈ kept w.log, x.1 = day ∨ x.1 ∈ w₀.days) (hw : P w.form) :
    among (Meets C (Does pd reader)) (Changes P) G (fun w => P w.form) (retain day up) (fun _ _ => True) w := by
  let allNames := ((up.names ++ [day]).dedup).insertionSort (· ≤ ·)
  have hmem (d : Day) : d ∈ allNames ↔ d = day ∨ d ∈ w₀.days := by
    rw [(List.perm_insertionSort _ _).mem_iff, List.mem_dedup, List.mem_append, List.mem_singleton, hnames, or_comm]
  have hall : Purging allNames (selectSnapshotsToPrune allNames) w :=
    ⟨fun d hd => (hmem d).2 ((hdays d).1 hd), fun d hd => .inl ((hdays d).2 ((hmem d).1 hd))⟩
  refine bind_among (purgeAll_among hG (fun d hd w r w' hpurging hdoes => ?_) (fun _ h => h) hall hw)
    (fun _ w₁ hw₁ hleft => ?_)
  · exact hr.purge d w r w' (hpurging.not_retained hd) hdoes
  cases up.blobs with
  | none => exact among_ret hw₁ trivial
  | some blobs =>
    refine bind_among (gcPriceHistoryBlobs_among hG _ blobs (fun w₂ stale r w' hs hstale hdoes => ?_) hw₁)
      (fun _ w₂ hw₂ _ => among_ret hw₂ trivial)
    refine hr.delete w₂ stale r w' (fun x hx p hp => hstale p hp x.1 ?_) hdoes
    rw [hs.log] at hx
    obtain ⟨hx₀, hnot⟩ := hleft x hx
    exact List.mem_filter.2 ⟨(hmem _).2 (hkept x hx₀), by simpa using hnot⟩

variable (hGb : ∀ (w : World Cell Payload Digest) (bs : List (RelPath Digest × Payload)) (r : Option (Completed Unit)) w',
  (∀ x ∈ bs, TakenForm P x.1 x.2) → Does pd reader (.copyBlobs bs) w r w' → G w w')
include hGb

/-- **What a run guarantees of every call**, when it does of the upload, of purges and of deletions. -/
theorem run_among {B : Nat → Prop} (hB : ∀ p (w : World Cell Payload Digest) (n : Nat),
      C (.numRows p) w (some n : Option Nat) → B n) {day : Day} {acceptedMissing : List String}
    (hr : Retains pd reader G)
    (hcopy : ∀ stats previous (up : Upload Cell Payload Digest) w r w', Stays P w₀ w →
      Prepared P C B reader.repr acceptedMissing w₀ stats previous up w → Does pd reader (.copy day up.staging) w r w' →
      G w w')
    (hthere : ∀ x ∈ kept w₀.log, x.1 ∈ w₀.days) (hw : P w₀.form) :
    Prog.rg (Meets C (Does pd reader)) (Changes P) G (runCoreSnapshot reader.repr day acceptedMissing) (fun _ _ => True) w₀ := by
  have hstay : Stays P w₀ w₀ := ⟨rfl, rfl, rfl, hw⟩
  have hrun : among (Meets C (Does pd reader)) (Changes P) G (fun w => P w.form)
      (runCoreSnapshot reader.repr day acceptedMissing) (fun _ _ => True) w₀ := by
    refine bind_among (φ := fun up w' => Stays P w₀ w' ∧ ∃ stats previous,
      Prepared P C B reader.repr acceptedMissing w₀ stats previous up w') ?_ (fun up w₁ hw₁ hup => ?_)
    · exact Prog.rg_mono (prepare_among hG hGb hB reader.repr acceptedMissing hstay) fun o w' h =>
        ⟨h.1.form, fun a ha => ⟨h.1, h.2 a ha⟩⟩
    obtain ⟨hs, stats, previous, hprep⟩ := hup
    refine bind_among (orRaise_among (perform_among fun w₂ hw₂ r w' hdoes => ?_)) (fun c w₃ hw₃ hkept => ?_)
      (φ := fun c w' => (c.returncode = 0 → ∀ d, d ∈ w'.days ↔ d = day ∨ d ∈ w₀.days) ∧
        ∀ x ∈ kept w'.log, x.1 = day ∨ x.1 ∈ w₀.days)
    · have hs₂ := hs.changes hw₂
      refine ⟨hcopy stats previous up w₂ r w' hs₂ (hprep.changes hw₂) hdoes.1, ?_,
        fun c hc => ⟨fun hzero d => ?_, fun x hx => ?_⟩⟩
      · obtain ⟨w₃, hw₃, rfl⟩ := hdoes.1
        change P w₃.form
        rw [hw₃.form]
        exact hs₂.form
      · rw [days_of_copy hdoes.1 (by rw [hc]; simpa [succeeded] using hzero), hs₂.days]
      · rcases (mem_kept_copy hdoes.1).1 hx with ⟨rfl, -⟩ | hx
        · exact .inl rfl
        · rw [hs₂.log] at hx
          exact .inr (hthere x hx)
    split_ifs with hrc
    · exact among_raise hw₃
    · exact retain_among hG hr hprep.names (hkept.1 (not_not.1 hrc)) hkept.2 hw₃
  exact Prog.rg_mono hrun fun _ _ _ => trivial

end run

end CoreSnapshot
