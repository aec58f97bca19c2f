import KClosingAlpha.Offsite.CoreReads
/-!
# CoreStage — what a run has staged when it uploads

Every core file of the manifest was copied at some moment, and so was every file of the form that is taken, and its manifest.
The base files that the form lists are on the remote before the snapshot is (`prepare_among`).
-/
set_option linter.unusedSectionVars false

namespace CoreSnapshot

open PriceForm (Frame Kind RelPath OffsiteFile OffsiteManifest)
open Prog (Exec among among_bind among_ret among_raise among_mono)

variable {Cell Payload Digest : Type}

section taken

variable (P : PriceForm.World Cell Payload Digest → Prop)
  (C : (op : Op Cell Payload Digest) → World Cell Payload Digest → Ret op → Prop)

/-- The file was the core file of an entry when it was copied. -/
def TakenCore (entry : CorePanelStat) (b : Payload) : Prop :=
  ∃ w : World Cell Payload Digest, w.core.lookup entry.relpath = some b ∧ C (.copyCore entry) w (some b : Option Payload)

/-- The file was one of the form when it was copied. -/
def TakenForm (p : RelPath Digest) (b : Payload) : Prop :=
  ∃ w : World Cell Payload Digest, P w.form ∧ w.form.files p = some b

/-- The text was the manifest of the form when it was copied, for a run that had read `m`. -/
def TakenManifest (m : OffsiteManifest Digest) (text : Option (OffsiteManifest Digest × Frame Cell)) : Prop :=
  ∃ w : World Cell Payload Digest, P w.form ∧ w.form.manifest = some text ∧
    C (.copyFormManifest m) w (some text : Option (Option (OffsiteManifest Digest × Frame Cell)))

end taken

variable {pd : PriceForm.Pandas Cell Payload Digest} {reader : Reader Payload}
  {P : PriceForm.World Cell Payload Digest → Prop}
  {C : (op : Op Cell Payload Digest) → World Cell Payload Digest → Ret op → Prop}
  {G : World Cell Payload Digest → World Cell Payload Digest → Prop} {w₀ w : World Cell Payload Digest}

section stage

variable [DecidableEq Digest]

@[simp] theorem Dir.put_self (d : Dir Cell Payload Digest) (p : SnapFile Digest) (b : Payload) :
    (d.put p b).files p = some b := if_pos rfl

theorem Dir.put_of_ne (d : Dir Cell Payload Digest) {p q : SnapFile Digest} (b : Payload) (h : q ≠ p) :
    (d.put p b).files q = d.files q := if_neg h

variable (hG : ∀ w, G w w)
include hG

/-- **Every core file is staged**, but for the monolith when its form is taken. -/
theorem stageCore_among (formTaken : Bool) : ∀ {stats : List CorePanelStat} {staging : Dir Cell Payload Digest}
    {w : World Cell Payload Digest}, (stats.map (·.relpath)).Nodup → Stays P w₀ w →
    among (Meets C (Does pd reader)) (Changes P) G (Stays P w₀) (stageCore formTaken stats staging)
      (fun d w' => w'.blobs = w.blobs ∧
        (∀ entry ∈ stats, (formTaken && decide (entry.relpath = priceHistoryRelpath)) = false →
          ∃ b, d.files (.core entry.relpath) = some b ∧ TakenCore C entry b) ∧
        (∀ q, (∀ entry ∈ stats, q ≠ .core entry.relpath) → d.files q = staging.files q)) w
  | [], staging, w, _, hw => among_ret hw ⟨rfl, fun _ h _ => (by cases h), fun _ _ => rfl⟩
  | entry :: stats, staging, w, hn, hw => by
    rw [List.map_cons, List.nodup_cons] at hn
    rw [stageCore]
    split_ifs with hskip
    · refine among_mono (stageCore_among formTaken hn.2 hw) fun d w' h => ⟨h.1, fun e he htaken => ?_, fun q hq => ?_⟩
      · rcases List.mem_cons.1 he with rfl | he
        · rw [hskip] at htaken
          cases htaken
        · exact h.2.1 e he htaken
      · exact h.2.2 q fun e he => hq e (List.mem_cons_of_mem _ he)
    · refine bind_among (orRaise_among (among_mono (read_among hG rfl hw) ?_)) (fun b w₁ hw₁ hb => ?_)
        (φ := fun b w' => w'.blobs = w.blobs ∧ TakenCore C entry b)
      · rintro r w' ⟨hblobs, hdoes, hc⟩ b rfl
        exact ⟨hblobs, w', (hdoes.2.resolve_left fun h => by cases h).symm, hc⟩
      have hother : ∀ e ∈ stats, (SnapFile.core entry.relpath : SnapFile Digest) ≠ .core e.relpath := fun e he heq =>
        hn.1 (SnapFile.core.inj heq ▸ List.mem_map_of_mem he)
      refine among_mono (stageCore_among formTaken hn.2 hw₁) fun d w' h => ⟨h.1.trans hb.1, fun e he htaken => ?_, fun q hq => ?_⟩
      · rcases List.mem_cons.1 he with rfl | he
        · exact ⟨b, by rw [h.2.2 _ hother, Dir.put_self], hb.2⟩
        · exact h.2.1 e he htaken
      · rw [h.2.2 q fun e he => hq e (List.mem_cons_of_mem _ he), Dir.put_of_ne _ _ (hq entry List.mem_cons_self)]

/-- What staging the form adds: its files, and those of the base that are to be uploaded. -/
structure FormStaged (P : PriceForm.World Cell Payload Digest → Prop) (missing items : List (OffsiteFile Digest))
    (old new : Dir Cell Payload Digest) (blobs : List (RelPath Digest × Payload)) : Prop where
  core : ∀ p, new.files (.core p) = old.files (.core p)
  keeps : ∀ p, old.files (.form p) ≠ none → new.files (.form p) ≠ none
  taken : ∀ p b, new.files (.form p) = some b → TakenForm P p b
  there : ∀ f ∈ items, f.kind ≠ .base → new.files (.form f.relpath) ≠ none
  base : ∀ f ∈ items, f.kind = .base → f ∈ missing → ∃ b, (f.relpath, b) ∈ blobs
  blobs : ∀ x ∈ blobs, TakenForm P x.1 x.2

theorem stageForm_among (missing : List (OffsiteFile Digest)) : ∀ {items : List (OffsiteFile Digest)}
    {staging : Dir Cell Payload Digest} {blobStage : List (RelPath Digest × Payload)} {w : World Cell Payload Digest},
    (∀ p b, staging.files (.form p) = some b → TakenForm P p b) → (∀ x ∈ blobStage, TakenForm P x.1 x.2) → Stays P w₀ w →
    among (Meets C (Does pd reader)) (Changes P) G (Stays P w₀) (stageForm missing items staging blobStage)
      (fun r w' => w'.blobs = w.blobs ∧ FormStaged P missing items staging r.1 r.2 ∧ blobStage ⊆ r.2) w
  | [], staging, blobStage, w, hst, hbs, hw =>
    among_ret hw ⟨rfl, ⟨fun _ => rfl, fun _ h => h, hst, fun f hf => (by cases hf), fun f hf => (by cases hf), hbs⟩,
      fun _ h => h⟩
  | item :: items, staging, blobStage, w, hst, hbs, hw => by
    rw [stageForm]
    by_cases hcopy : item.kind ≠ .base ∨ item ∈ missing
    · rw [if_pos hcopy]
      refine bind_among (orRaise_among (among_mono (read_among hG rfl hw) ?_)) (fun b w₁ hw₁ hb => ?_)
        (φ := fun b w' => w'.blobs = w.blobs ∧ w'.form.files item.relpath = some b)
      · rintro r w' ⟨hblobs, hdoes, -⟩ b rfl
        exact ⟨hblobs, (hdoes.2.resolve_left fun h => by cases h).symm⟩
      have htaken : TakenForm P item.relpath b := ⟨w₁, hw₁.form, hb.2⟩
      by_cases hbase : item.kind = .base
      · rw [if_pos hbase]
        have hbs' : ∀ x ∈ blobStage ++ [(item.relpath, b)], TakenForm P x.1 x.2 := by
          intro x hx
          rcases List.mem_append.1 hx with hx | hx
          · exact hbs x hx
          · rw [List.mem_singleton.1 hx]
            exact htaken
        refine among_mono (stageForm_among missing hst hbs' hw₁) fun r w' h => ⟨h.1.trans hb.1, ?_,
          fun x hx => h.2.2 (List.mem_append_left _ hx)⟩
        refine ⟨h.2.1.core, h.2.1.keeps, h.2.1.taken, fun f hf hk => ?_, fun f hf hk hm => ?_, h.2.1.blobs⟩
        · rcases List.mem_cons.1 hf with rfl | hf
          · exact absurd hbase hk
          · exact h.2.1.there f hf hk
        · rcases List.mem_cons.1 hf with rfl | hf
          · exact ⟨b, h.2.2 (List.mem_append_right _ (List.mem_singleton_self _))⟩
          · exact h.2.1.base f hf hk hm
      · rw [if_neg hbase]
        have hst' : ∀ p c, (staging.put (.form item.relpath) b).files (.form p) = some c → TakenForm P p c := by
          intro p c hc
          by_cases hp : p = item.relpath
          · rw [hp, Dir.put_self] at hc
            rw [hp, ← Option.some.inj hc]
            exact htaken
          · rw [Dir.put_of_ne _ _ fun h => hp (SnapFile.form.inj h)] at hc
            exact hst p c hc
        refine among_mono (stageForm_among missing hst' hbs hw₁) fun r w' h => ⟨h.1.trans hb.1, ?_, h.2.2⟩
        refine ⟨fun p => ?_, fun p hp => h.2.1.keeps p ?_, h.2.1.taken, fun f hf hk => ?_, fun f hf hk hm => ?_, h.2.1.blobs⟩
        · rw [h.2.1.core p, Dir.put_of_ne _ _ fun h => by cases h]
        · by_cases heq : p = item.relpath
          · simp [heq]
          · rwa [Dir.put_of_ne _ _ fun h => heq (SnapFile.form.inj h)]
        · rcases List.mem_cons.1 hf with rfl | hf
          · exact h.2.1.keeps _ (by simp)
          · exact h.2.1.there f hf hk
        · rcases List.mem_cons.1 hf with rfl | hf
          · exact absurd hk hbase
          · exact h.2.1.base f hf hk hm
    · -- a file of the base that is on the remote
      rw [if_neg hcopy]
      simp only [not_or, not_not] at hcopy
      refine among_mono (stageForm_among missing hst hbs hw) fun r w' h => ⟨h.1, ?_, h.2.2⟩
      refine ⟨h.2.1.core, h.2.1.keeps, h.2.1.taken, fun f hf hk => ?_, fun f hf hk hm => ?_, h.2.1.blobs⟩
      · rcases List.mem_cons.1 hf with rfl | hf
        · exact absurd hcopy.1 hk
        · exact h.2.1.there f hf hk
      · rcases List.mem_cons.1 hf with rfl | hf
        · exact absurd hm hcopy.2
        · exact h.2.1.base f hf hk hm

variable (hGb : ∀ (w : World Cell Payload Digest) (bs : List (RelPath Digest × Payload)) (r : Option (Completed Unit)) w',
  (∀ x ∈ bs, TakenForm P x.1 x.2) → Does pd reader (.copyBlobs bs) w r w' → G w w')

/-- What is staged of the form that is taken, with its base on the remote. -/
structure FormCarried (P : PriceForm.World Cell Payload Digest → Prop)
    (C : (op : Op Cell Payload Digest) → World Cell Payload Digest → Ret op → Prop) (m : OffsiteManifest Digest)
    (d : Dir Cell Payload Digest) (w' : World Cell Payload Digest) : Prop where
  taken : ∀ p b, d.files (.form p) = some b → TakenForm P p b
  manifest : ∃ text, d.form = some text ∧ TakenManifest P C m text
  there : ∀ f ∈ m.files, f.kind ≠ .base → d.files (.form f.relpath) ≠ none
  base : ∀ f ∈ m.files, f.kind = .base → w'.blobs f.relpath ≠ none

include hGb in
/-- **The form is staged, and its base is on the remote.** -/
theorem carryForm_among (m : OffsiteManifest Digest) (blobs : List (RelPath Digest)) {staging : Dir Cell Payload Digest}
    (hst : ∀ p, staging.files (.form p) = none) (hblobs : ∀ p ∈ blobs, w.blobs p ≠ none) (hw : Stays P w₀ w) :
    among (Meets C (Does pd reader)) (Changes P) G (Stays P w₀) (carryForm m blobs staging)
      (fun r w' => FormCarried P C m r.1 w' ∧ ∀ p, r.1.files (.core p) = staging.files (.core p)) w := by
  let missing := m.files.filter (fun f => decide (f.kind = .base ∧ f.relpath ∉ blobs))
  have hmissing (f : OffsiteFile Digest) (hf : f ∈ m.files) (hk : f.kind = .base) : f ∈ missing ∨ f.relpath ∈ blobs := by
    by_cases hb : f.relpath ∈ blobs
    · exact .inr hb
    · exact .inl (List.mem_filter.2 ⟨hf, by simp [hk, hb]⟩)
  have hempty : ∀ p b, staging.files (.form p) = some b → TakenForm P p b := fun p b h => by
    rw [hst p] at h
    cases h
  refine bind_among (stageForm_among hG missing hempty (fun x hx => by cases hx) hw) (fun staged w₁ hw₁ hs => ?_)
  refine bind_among (orRaise_among (among_mono (read_among hG rfl hw₁) ?_)) (fun text w₂ hw₂ ht => ?_)
    (φ := fun text w' => w'.blobs = w₁.blobs ∧ w'.form.manifest = some text ∧
      C (.copyFormManifest m) w' (some text : Option (Option (OffsiteManifest Digest × Frame Cell))))
  · rintro r w' ⟨hb, hdoes, hc⟩ text rfl
    exact ⟨hb, (hdoes.2.resolve_left fun h => by cases h).symm, hc⟩
  have hmanifest : TakenManifest P C m text := ⟨w₂, hw₂.form, ht.2.1, ht.2.2⟩
  have hold (p : RelPath Digest) (hp : p ∈ blobs) : w₂.blobs p ≠ none := by
    rw [ht.1, hs.1]
    exact hblobs p hp
  by_cases hnone : missing = []
  · rw [if_pos hnone]
    refine among_ret hw₂ ⟨⟨hs.2.1.taken, ⟨text, rfl, hmanifest⟩, hs.2.1.there, fun f hf hk => ?_⟩, hs.2.1.core⟩
    rcases hmissing f hf hk with hm | hb
    · rw [hnone] at hm
      cases hm
    · exact hold _ hb
  · rw [if_neg hnone]
    refine bind_among (orRaise_among (perform_among fun w₃ hw₃ r w' hdoes => ?_)) (fun sent w₄ hw₄ hsent => ?_)
      (φ := fun sent w' => (∀ p, w₂.blobs p ≠ none → w'.blobs p ≠ none) ∧
        (sent.returncode = 0 → ∀ p b, (p, b) ∈ staged.2 → w'.blobs p = some b))
    · obtain ⟨new, rfl, hnew, hall⟩ := hdoes.1
      have hstay := hw₂.changes hw₃
      refine ⟨hGb _ _ _ _ hs.2.1.blobs hdoes.1, ⟨hstay.days, hstay.dir, hstay.log, hstay.form⟩, ?_⟩
      rintro c rfl
      refine ⟨fun p hp => ?_, fun hc => hall (by simpa [succeeded] using hc)⟩
      rw [← hw₃.blobs] at hp
      rcases hnew p with h | ⟨h, -⟩
      · exact fun hn => hp (h.symm.trans hn)
      · exact absurd h hp
    split_ifs with hrc
    · exact among_raise hw₄
    · refine among_ret hw₄ ⟨⟨hs.2.1.taken, ⟨text, rfl, hmanifest⟩, hs.2.1.there, fun f hf hk => ?_⟩, hs.2.1.core⟩
      rcases hmissing f hf hk with hm | hb
      · obtain ⟨b, hb⟩ := hs.2.1.base f hf hk hm
        rw [hsent.2 (not_not.1 hrc) _ b hb]
        exact Option.some_ne_none b
      · exact hsent.1 _ (hold _ hb)

/-- What is staged of the stats, with the form when it is taken. -/
structure Staged (P : PriceForm.World Cell Payload Digest → Prop)
    (C : (op : Op Cell Payload Digest) → World Cell Payload Digest → Ret op → Prop) (stats : List CorePanelStat)
    (d : Dir Cell Payload Digest) (w' : World Cell Payload Digest) : Prop where
  manifest : d.manifest = some (manifestText stats)
  taken : ∀ p b, d.files (.form p) = some b → TakenForm P p b
  core : ∀ entry ∈ stats, (∃ b, d.files (.core entry.relpath) = some b ∧ TakenCore C entry b) ∨
    entry.relpath = priceHistoryRelpath ∧ ∃ m, m.sourceSha256 = entry.sha256 ∧ FormCarried P C m d w'

include hGb in
/-- **Every entry of the manifest is staged**: as its file, or the monolith as its form. -/
theorem stage_among {stats : List CorePanelStat} (hn : (stats.map (·.relpath)).Nodup)
    (taken : Option (OffsiteManifest Digest × List (RelPath Digest)))
    (htaken : ∀ m blobs, taken = some (m, blobs) → (∃ stat ∈ stats, stat.relpath = priceHistoryRelpath ∧
      m.sourceSha256 = stat.sha256) ∧ ∀ p ∈ blobs, w.blobs p ≠ none) (hw : Stays P w₀ w) :
    among (Meets C (Does pd reader)) (Changes P) G (Stays P w₀) (stage stats taken)
      (fun r w' => Staged P C stats r.1 w') w := by
  refine bind_among (stageCore_among hG taken.isSome hn hw) (fun d w₁ hw₁ hd => ?_)
  have hform (p : RelPath Digest) : d.files (.form p) = none := hd.2.2 _ fun e _ h => by cases h
  cases taken with
  | none =>
    refine among_ret hw₁ ⟨rfl, fun p b h => ?_, fun entry he => .inl (hd.2.1 entry he rfl)⟩
    rw [hform p] at h
    cases h
  | some x =>
    obtain ⟨m, blobs⟩ := x
    obtain ⟨⟨stat, hstat, hrel, hsha⟩, hblobs⟩ := htaken m blobs rfl
    refine bind_among (carryForm_among hG hGb m blobs hform (fun p hp => ?_) hw₁) (fun r w₂ hw₂ hr => ?_)
    · rw [hd.1]
      exact hblobs p hp
    obtain ⟨hcarried, hcore⟩ := hr
    refine among_ret hw₂ ⟨rfl, hcarried.taken, fun entry he => ?_⟩
    by_cases hp : entry.relpath = priceHistoryRelpath
    · have heq : entry = stat := List.inj_on_of_nodup_map hn he hstat (hp.trans hrel.symm)
      exact .inr ⟨hp, m, heq ▸ hsha, hcarried.taken, hcarried.manifest, hcarried.there, hcarried.base⟩
    · obtain ⟨b, hb, htk⟩ := hd.2.1 entry he (by simp [hp])
      exact .inl ⟨b, by rw [← hb]; exact hcore _, htk⟩

/-- What the guard has compared with: nothing when there is no dated directory, and else what was read of the manifest of
the newest. -/
inductive Baseline (P : PriceForm.World Cell Payload Digest → Prop)
    (C : (op : Op Cell Payload Digest) → World Cell Payload Digest → Ret op → Prop) (repr : Py.Json → String)
    (w₀ : World Cell Payload Digest) : List CorePanelStat → Prop where
  | nothing (h : w₀.days = []) : Baseline P C repr w₀ []
  | read (d : Day) (hd : d ∈ w₀.days) (newest : ∀ e ∈ w₀.days, e ≤ d) (text : List Char)
    (h : (w₀.dirAt d).manifest = some text) : Baseline P C repr w₀ (entriesOf repr text)
  | unread (d : Day) (hd : d ∈ w₀.days) (newest : ∀ e ∈ w₀.days, e ≤ d) (w : World Cell Payload Digest)
    (c : Completed (List Char)) (hw : Stays P w₀ w) (hc : c.returncode ≠ 0)
    (h : C (.cat d) w (some c : Option (Completed (List Char)))) : Baseline P C repr w₀ []

/-- What is known when a run uploads. -/
structure Prepared (P : PriceForm.World Cell Payload Digest → Prop)
    (C : (op : Op Cell Payload Digest) → World Cell Payload Digest → Ret op → Prop) (B : Nat → Prop)
    (repr : Py.Json → String) (acceptedMissing : List String) (w₀ : World Cell Payload Digest)
    (stats previous : List CorePanelStat) (up : Upload Cell Payload Digest) (w' : World Cell Payload Digest) : Prop where
  names : ∀ d, d ∈ up.names ↔ d ∈ w₀.days
  nodup : (stats.map (·.relpath)).Nodup
  formed : ∀ entry ∈ stats, Formed B entry
  baseline : Baseline P C repr w₀ previous
  passed : Passed stats previous acceptedMissing
  staged : Staged P C stats up.staging w'

omit hG in
theorem Prepared.changes {B : Nat → Prop} {repr : Py.Json → String} {acceptedMissing : List String}
    {stats previous : List CorePanelStat} {up : Upload Cell Payload Digest} {w' : World Cell Payload Digest}
    (h : Prepared P C B repr acceptedMissing w₀ stats previous up w) (hc : Changes P w w') :
    Prepared P C B repr acceptedMissing w₀ stats previous up w' := by
  refine ⟨h.names, h.nodup, h.formed, h.baseline, h.passed, h.staged.manifest, h.staged.taken, fun entry he => ?_⟩
  rcases h.staged.core entry he with hcore | ⟨hp, m, hsha, hm⟩
  · exact .inl hcore
  · refine .inr ⟨hp, m, hsha, hm.taken, hm.manifest, hm.there, fun f hf hk => ?_⟩
    rw [hc.blobs]
    exact hm.base f hf hk

include hGb in
/-- **What a run has read, compared and staged when it uploads.** -/
theorem prepare_among {B : Nat → Prop} (hB : ∀ p (w : World Cell Payload Digest) (n : Nat),
      C (.numRows p) w (some n : Option Nat) → B n) (repr : Py.Json → String) (acceptedMissing : List String)
    (hw : Stays P w₀ w) :
    among (Meets C (Does pd reader)) (Changes P) G (Stays P w₀) (prepare repr acceptedMissing)
      (fun up w' => ∃ stats previous, Prepared P C B repr acceptedMissing w₀ stats previous up w') w := by
  refine bind_among (collectCoreStats_among hG hB hw) (fun stats w₁ hw₁ hstats => ?_)
  refine bind_among (listRemoteSnapshotDirs_among hG hw₁) (fun names w₂ hw₂ hnames => ?_)
  refine bind_among (φ := fun previous _ => Baseline P C repr w₀ previous) ?_ (fun previous w₃ hw₃ hprev => ?_)
  · unfold readPrevious
    cases hlast : names.getLast? with
    | none =>
      refine among_ret hw₂ (.nothing ?_)
      rw [List.getLast?_eq_none_iff] at hlast
      refine List.eq_nil_iff_forall_not_mem.2 fun d hd => ?_
      rw [← hnames.2, hlast] at hd
      cases hd
    | some newest =>
      obtain ⟨l, rfl⟩ := List.getLast?_eq_some_iff.1 hlast
      have hd : newest ∈ w₀.days := (hnames.2 _).1 (List.mem_append_right _ (List.mem_singleton_self _))
      have hnewest : ∀ e ∈ w₀.days, e ≤ newest := by
        intro e he
        rcases List.mem_append.1 ((hnames.2 e).2 he) with hl | hl
        · exact (List.pairwise_append.1 hnames.1).2.2 e hl newest (List.mem_singleton_self _)
        · exact (List.mem_singleton.1 hl).le
      refine among_mono (readRemoteManifest_among hG repr newest hw₂) fun previous _ h => ?_
      rcases h with ⟨text, htext, rfl⟩ | ⟨rfl, w', c, hw', hc, h⟩
      · exact .read newest hd hnewest text htext
      · exact .unread newest hd hnewest w' c hw' hc h
  refine bind_among (among_mono (Prog.among_ofExcept hw₃ fun issues h => h) fun _ _ h => h) (fun issues w₄ hw₄ hissues => ?_)
    (φ := fun issues _ => validateCorePanels stats previous acceptedMissing = .ok issues)
  split_ifs with hnil
  · exact among_raise hw₄
  rw [not_not] at hnil
  rw [hnil] at hissues
  refine bind_among (chooseForm_among hG stats hw₄) (fun taken w₅ hw₅ htaken => ?_)
  refine bind_among (stage_among hG hGb hstats.1 taken htaken hw₅) (fun staged w₆ hw₆ hstaged => among_ret hw₆ ?_)
  exact ⟨stats, previous, hnames.2, hstats.1, hstats.2, hprev, passed_of_validate hstats.1 hissues, hstaged⟩

end stage

end CoreSnapshot
