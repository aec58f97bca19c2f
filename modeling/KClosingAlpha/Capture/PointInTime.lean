import KClosingAlpha.Capture.Publish
import Mathlib.Data.List.Infix
import Mathlib.Data.List.Sort
/-!
# PointInTime — a reader with a cutoff learns nothing of what comes after it

Below `manifests` there is only what was verified when it was published, and stays so (`Sound`).  So a reader finds
every manifest of a day in order, chooses by their completion times alone, and reads evidence that nobody replaces:
what is completed after its cutoff does not reach it, and a decision has no clock after its completion.
-/
namespace Capture

variable {Cell Bytes Caller : Type}

/-! ## What a store of regular publishers holds -/

/-- What was verified when a manifest was published. -/
structure Manifest.Stands (rt : Runtime Cell Bytes) (files : Files Bytes) (m : Manifest) : Prop where
  named : isManifestName m.runId = false
  refs : ∀ ref ∈ m.refs, Verified rt ref files
  decided : m.cohort.isSome → Decided rt m files

/-- A file is a manifest that stands, or not below `manifests`. -/
def Fine (rt : Runtime Cell Bytes) (files : Files Bytes) (p : Path) (b : Bytes) : Prop :=
  p.head? = some "manifests" → ∃ m : Manifest, p = m.path ∧ b = rt.dump m ∧ m.Stands rt files

def Sound (rt : Runtime Cell Bytes) (files : Files Bytes) : Prop := ∀ p b, files.lookup p = some b → Fine rt files p b

section sound

variable {rt : Runtime Cell Bytes} {files files' : Files Bytes} {m m' : Manifest} {p : Path} {b : Bytes} {day : String}

theorem Manifest.Stands.keeps (h : m.Stands rt files) (hk : Keeps files files') : m.Stands rt files' :=
  ⟨h.named, fun ref href => (h.refs ref href).keeps hk, fun hc => (h.decided hc).keeps hk⟩

theorem Fine.keeps (h : Fine rt files p b) (hk : Keeps files files') : Fine rt files' p b := by
  intro hp
  obtain ⟨m, hm, hb, hstands⟩ := h hp
  exact ⟨m, hm, hb, hstands.keeps hk⟩

theorem fits_fine {x : Publish Cell Bytes} (hx : x.Regular) : x.Fits rt (Fine rt) := by
  cases x with
  | manifest m =>
    refine fun files hrefs _ => ⟨m, rfl, rfl, hx.2, hrefs, fun hc => ?_⟩
    rw [hx.1] at hc
    cases hc
  | decision args =>
    refine ⟨fun files data hp => ?_, fun m files hrun hdecided hrefs _ => ⟨m, rfl, rfl, ?_, hrefs, fun _ => hdecided⟩⟩
    · rw [inputTarget_of_safe hx.1] at hp
      exact absurd hp (by simp [DecisionArgs.inputPath])
    · rw [hrun]
      exact hx.2
  | response route envelope => exact fun files hp => absurd hp (by simp)
  | frame route f => exact fun files data hp => absurd hp (by simp)

theorem Sound.step {c : Caller} {w w' : Disk Caller Bytes} (hs : Sound rt w.files) (hc : PublishStep (Fine rt) c w w') :
    Sound rt w'.files := by
  intro p b hb
  cases hc with
  | calm h =>
    rw [h.files] at hb ⊢
    exact hs p b hb
  | adds q b' hlock hno hfine =>
    by_cases hq : p = q
    · subst hq
      rw [show b = b' from Option.some.inj (hb.symm.trans (lookup_append_self hno))]
      exact hfine.keeps (keeps_append _)
    · rw [lookup_append_of_ne hq] at hb
      exact (hs p b hb).keeps (keeps_append _)

variable [DecidableEq Caller] [DecidableEq Bytes]

/-- **What is below `manifests` stands**, whoever publishes. -/
theorem sound_always : (host rt Publish.Regular []).Always (fun s : Host Caller Bytes => Sound rt s.world.files) := by
  refine System.Always.strengthen (fun s hs => hs) ?_ ?_
  · intro s h₀ p b hb
    rw [h₀.2.1] at hb
    cases hb
  · intro s s' hs hsound hstep
    obtain ⟨c, hc⟩ := publishStep_of_step (fun x hx => fits_fine hx) hs hstep
    exact hsound.step hc

end sound

/-! ## What a reader finds -/

/-- The manifest is there as it was published. -/
def Manifest.Stored (rt : Runtime Cell Bytes) (files : Files Bytes) (m : Manifest) : Prop :=
  files.lookup m.path = some (rt.dump m)

section reads

variable {rt : Runtime Cell Bytes} {files files' : Files Bytes} {m m' : Manifest} {p : Path} {day date : String} {t : Int}
  {runId : Option String}

theorem isManifestName_ofList (cs : List Char) :
    isManifestName (String.ofList ("manifest-".toList ++ cs ++ ".json".toList)) = true := by
  unfold isManifestName
  generalize "manifest-".toList = front
  generalize ".json".toList = back
  rw [String.toList_ofList, Bool.and_eq_true, List.isPrefixOf_iff_prefix, List.isSuffixOf_iff_suffix]
  refine ⟨?_, List.suffix_append ..⟩
  rw [List.append_assoc]
  exact List.prefix_append ..

theorem isManifestName_name (m : Manifest) : isManifestName m.name = true := isManifestName_ofList _

theorem isManifestOf_path : isManifestOf day m.path = true ↔ m.tradingDate = day := by
  unfold isManifestOf Manifest.path
  simp [isManifestName_name]

theorem head_of_isManifestOf {q : Path} (hday : isManifestOf day p = true) (hpq : p <+: q) :
    q.head? = some "manifests" := by
  unfold isManifestOf at hday
  split at hday
  · obtain ⟨rest', rfl⟩ := hpq
    rfl
  · cases hday

/-- On the way to the manifest of a named run nothing else is named like one. -/
theorem eq_path_of_prefix (hnamed : isManifestName m.runId = false) (hday : isManifestOf day p = true)
    (hpq : p <+: m.path) : p = m.path := by
  unfold isManifestOf at hday
  split at hday
  next d rest =>
    unfold Manifest.path at hpq ⊢
    rw [List.cons_prefix_cons, List.cons_prefix_cons] at hpq
    obtain ⟨-, rfl, hrest⟩ := hpq
    match rest, hrest, hday with
    | [], _, hday => simp at hday
    | [x], hrest, hday =>
      obtain ⟨rfl, -⟩ := List.cons_prefix_cons.1 hrest
      simp [hnamed] at hday
    | x :: y :: rest, hrest, _ =>
      rw [List.cons_prefix_cons, List.cons_prefix_cons, List.prefix_nil] at hrest
      obtain ⟨rfl, rfl, rfl⟩ := hrest
      rfl
  · cases hday

/-- A manifest that is there is the one its bytes were published as. -/
theorem Manifest.Stored.eq (h : m.Stored rt files) (h' : m'.Stored rt files) (hpath : m.path = m'.path) : m = m' := by
  unfold Stored at h h'
  rw [hpath, h'] at h
  have hdump := congrArg rt.validate (Option.some.inj h)
  rw [rt.validate_dump, rt.validate_dump] at hdump
  exact (Option.some.inj hdump).symm

theorem Sound.stands (hs : Sound rt files) (h : m.Stored rt files) : m.Stands rt files := by
  obtain ⟨m', hpath, hdump, hstands⟩ := hs _ _ h rfl
  have hstored : m'.Stored rt files := by
    unfold Manifest.Stored at h ⊢
    rw [← hpath, h, hdump]
  rwa [h.eq hstored hpath]

/-- What is named like a manifest is one; no directory is. -/
theorem mem_manifestPaths (hs : Sound rt files) :
    p ∈ manifestPaths files day ↔ ∃ m : Manifest, p = m.path ∧ m.Stored rt files ∧ m.tradingDate = day := by
  unfold manifestPaths
  rw [List.mem_mergeSort, List.mem_filter, List.mem_dedup, List.mem_flatMap]
  constructor
  · rintro ⟨⟨⟨q, b⟩, hmem, hpq⟩, hday⟩
    rw [List.mem_inits] at hpq
    have hthere : (files.lookup q).isSome := List.lookup_isSome_iff.2 ⟨(q, b), hmem, beq_self_eq_true q⟩
    obtain ⟨b', hb'⟩ := Option.isSome_iff_exists.1 hthere
    obtain ⟨m, rfl, rfl, hstands⟩ := hs q b' hb' (head_of_isManifestOf hday hpq)
    obtain rfl := eq_path_of_prefix hstands.named hday hpq
    exact ⟨m, rfl, hb', isManifestOf_path.1 hday⟩
  · rintro ⟨m, rfl, hstored, hday⟩
    obtain ⟨before, after, heq, -⟩ := List.lookup_eq_some_iff.1 hstored
    refine ⟨⟨(m.path, rt.dump m), ?_, ?_⟩, isManifestOf_path.2 hday⟩
    · rw [heq]
      exact List.mem_append_right before List.mem_cons_self
    · exact (List.mem_inits _ _).2 (List.prefix_refl _)

theorem loadManifest_path (hstored : m.Stored rt files) (hstands : m.Stands rt files) :
    loadManifest rt files m.path = .ok m := by
  have hrefs : ∃ bs, m.refs.mapM (fun ref => checkRef rt ref (files.lookup ref.path)) = .ok bs := by
    refine Exc.exists_mapM_eq_ok (fun ref href => ?_)
    obtain ⟨data, hdata, hcheck⟩ := hstands.refs ref href
    exact ⟨data, by rw [hdata]; exact hcheck⟩
  obtain ⟨bs, hbs⟩ := hrefs
  unfold loadManifest
  rw [show files.lookup m.path = some (rt.dump m) from hstored]
  simp only [rt.parses_dump, rt.validate_dump, hbs, Bool.not_true, Bool.false_eq_true, if_false, Exc.ok_bind]
  rfl

/-- **A sound store is read without an error**, and as it was published. -/
theorem readManifests_sound (hs : Sound rt files) (hday : rt.fromIsoformat date = .ok day) :
    ∃ ms, readManifests rt files date = .ok ms ∧ ∀ m, m ∈ ms ↔ m.Stored rt files ∧ m.tradingDate = day := by
  have hload : ∀ p ∈ manifestPaths files day, ∃ m, loadManifest rt files p = .ok m := by
    intro p hp
    obtain ⟨m, rfl, hstored, -⟩ := (mem_manifestPaths hs).1 hp
    exact ⟨m, loadManifest_path hstored (hs.stands hstored)⟩
  obtain ⟨found, hfound⟩ := Exc.exists_mapM_eq_ok hload
  refine ⟨found.mergeSort (fun a b => decide (a.key ≤ b.key)), ?_, fun m => ?_⟩
  · unfold readManifests
    rw [hday, Exc.ok_bind, hfound, Exc.ok_bind]
    rfl
  · rw [List.mem_mergeSort, Exc.mem_of_mapM_eq_ok hfound]
    constructor
    · rintro ⟨p, hp, hm⟩
      obtain ⟨m', rfl, hstored, htd⟩ := (mem_manifestPaths hs).1 hp
      rw [loadManifest_path hstored (hs.stands hstored), Except.ok.injEq] at hm
      rw [← hm]
      exact ⟨hstored, htd⟩
    · rintro ⟨hstored, htd⟩
      exact ⟨m.path, (mem_manifestPaths hs).2 ⟨m, rfl, hstored, htd⟩, loadManifest_path hstored (hs.stands hstored)⟩

/-! ## What comes after the cutoff -/

/-- Of two manifests of a day with one key and one status there is only one. -/
theorem Manifest.Stored.eq_of_key (h : m.Stored rt files) (h' : m'.Stored rt files) (hday : m.tradingDate = m'.tradingDate)
    (hstatus : m.status = m'.status) (hkey : m.key = m'.key) : m = m' := by
  apply h.eq h'
  have hrun : m.runId = m'.runId := congrArg (fun k => (ofLex k).2) hkey
  unfold Manifest.path Manifest.name
  rw [hday, hrun, hstatus]

/-- The largest of what is ordered by an injective key does not depend on the order it is looked through. -/
theorem argmax_congr {α β : Type} [LinearOrder β] [DecidableEq α] {f : α → β} {l l' : List α} (hmem : ∀ a, a ∈ l ↔ a ∈ l')
    (hinj : ∀ a ∈ l, ∀ b ∈ l, f a = f b → a = b) : l.argmax f = l'.argmax f := by
  cases h' : l'.argmax f with
  | none =>
    rw [List.argmax_eq_none] at h' ⊢
    rw [List.eq_nil_iff_forall_not_mem]
    intro a ha
    rw [hmem, h'] at ha
    cases ha
  | some m =>
    rw [List.argmax_eq_some_iff] at h' ⊢
    obtain ⟨hm, hle, -⟩ := h'
    refine ⟨(hmem m).2 hm, fun a ha => hle a ((hmem a).1 ha), fun a ha hma => ?_⟩
    rw [hinj m ((hmem m).2 hm) a ha (le_antisymm hma (hle a ((hmem a).1 ha)))]

/-- Each manifest of a day that was published since was completed after `t`. -/
def Later (rt : Runtime Cell Bytes) (t : Int) (files files' : Files Bytes) : Prop :=
  ∀ day p b m, isManifestOf day p = true → files.lookup p = none → files'.lookup p = some b → rt.validate b = some m →
    t < m.completedAt

/-- A manifest that a reader may choose was there before. -/
theorem Later.stored (h : Later rt t files files') (hk : Keeps files files') (hm : m.Stored rt files')
    (hle : m.completedAt ≤ t) : m.Stored rt files := by
  unfold Manifest.Stored at hm ⊢
  cases hb : files.lookup m.path with
  | none =>
    have hlt := h m.tradingDate m.path _ m (isManifestOf_path.2 rfl) hb hm (rt.validate_dump m)
    omega
  | some b =>
    have hb' := hk _ _ hb
    rw [hm] at hb'
    exact hb'.symm

theorem Manifest.complete_of_qualifies (h : m.qualifies t runId = true) : m.status = .complete ∧ m.completedAt ≤ t := by
  unfold Manifest.qualifies at h
  rw [Bool.and_eq_true, Bool.and_eq_true, decide_eq_true_eq, decide_eq_true_eq] at h
  exact h.1

/-- What a reader chooses is there, and was complete by its cutoff. -/
theorem selectDecision_sound (hs : Sound rt files) (h : selectDecision rt files date (some t) runId = .ok m) :
    m.Stored rt files ∧ m.completedAt ≤ t := by
  unfold selectDecision requireAware at h
  rw [Exc.ok_bind] at h
  obtain ⟨ms, hms, h⟩ := (Exc.bind_eq_ok _ _ _).1 h
  have hday : ∃ day, rt.fromIsoformat date = .ok day := by
    obtain ⟨day, hday, -⟩ := (Exc.bind_eq_ok _ _ _).1 hms
    exact ⟨day, hday⟩
  obtain ⟨day, hday⟩ := hday
  obtain ⟨ms', hms', hmem⟩ := readManifests_sound hs hday
  obtain rfl : ms = ms' := Except.ok.inj (hms.symm.trans hms')
  split at h
  next m' hmax =>
    obtain rfl : m' = m := (Exc.pure_eq_ok _ _).1 h
    obtain ⟨hm, hq⟩ := List.mem_filter.1 (List.argmax_mem hmax)
    exact ⟨((hmem m').1 hm).1, (Manifest.complete_of_qualifies hq).2⟩
  · cases h

/-- **The choice of a reader does not depend on what is completed after its cutoff.** -/
theorem selectDecision_later (hs : Sound rt files) (hs' : Sound rt files') (hk : Keeps files files')
    (hlater : Later rt t files files') :
    selectDecision rt files' date (some t) runId = selectDecision rt files date (some t) runId := by
  unfold selectDecision requireAware
  rw [Exc.ok_bind, Exc.ok_bind]
  cases hday : rt.fromIsoformat date with
  | error e =>
    have herr (files : Files Bytes) : readManifests rt files date = .error e := by
      unfold readManifests
      rw [hday, Exc.error_bind]
    rw [herr, herr, Exc.error_bind]
  | ok day =>
    obtain ⟨ms, hms, hmem⟩ := readManifests_sound hs hday
    obtain ⟨ms', hms', hmem'⟩ := readManifests_sound hs' hday
    have hsame : (ms'.filter (Manifest.qualifies t runId)).argmax Manifest.key =
        (ms.filter (Manifest.qualifies t runId)).argmax Manifest.key := by
      apply argmax_congr
      · intro m
        rw [List.mem_filter, List.mem_filter, hmem, hmem']
        constructor
        · rintro ⟨⟨hstored, htd⟩, hq⟩
          exact ⟨⟨hlater.stored hk hstored (Manifest.complete_of_qualifies hq).2, htd⟩, hq⟩
        · rintro ⟨⟨hstored, htd⟩, hq⟩
          exact ⟨⟨hk _ _ hstored, htd⟩, hq⟩
      · intro m hm m' hm' hkey
        obtain ⟨hm, hq⟩ := List.mem_filter.1 hm
        obtain ⟨hm', hq'⟩ := List.mem_filter.1 hm'
        obtain ⟨hstored, htd⟩ := (hmem' m).1 hm
        obtain ⟨hstored', htd'⟩ := (hmem' m').1 hm'
        exact hstored.eq_of_key hstored' (htd.trans htd'.symm)
          ((Manifest.complete_of_qualifies hq).1.trans (Manifest.complete_of_qualifies hq').1.symm) hkey
    rw [hms, hms', Exc.ok_bind, Exc.ok_bind, hsame]

/-- **A decision has no clock after the cutoff** it is read with. -/
theorem readDecision_clocks {f : Frame Cell} (hs : Sound rt files)
    (h : readDecision rt files date (some t) runId = .ok f) : ClocksBy rt t f := by
  unfold readDecision at h
  obtain ⟨m, hm, h⟩ := (Exc.bind_eq_ok _ _ _).1 h
  obtain ⟨hstored, hle⟩ := selectDecision_sound hs hm
  split at h
  · cases h
  · cases h
  next ref cohort href hcohort =>
    obtain ⟨ref', data, hartifacts, hdata, hclocks⟩ := (hs.stands hstored).decided (by rw [hcohort]; rfl)
    have hmem : ref ∈ m.artifacts := (List.mem_filter.1 (List.mem_of_mem_head? href)).1
    rw [hartifacts, List.mem_singleton] at hmem
    subst hmem
    obtain ⟨data', hdata', h⟩ := (Exc.bind_eq_ok _ _ _).1 h
    obtain rfl : data' = data := Option.some.inj ((checkRef_eq_ok rt hdata').symm.trans hdata)
    obtain ⟨f', hf', h⟩ := (Exc.bind_eq_ok _ _ _).1 h
    split at h
    · cases h
    · split_ifs at h
      obtain rfl : f' = f := (Exc.pure_eq_ok _ _).1 h
      obtain ⟨instants, hinstants, hby⟩ := hclocks f' hf'
      exact ⟨instants, hinstants, fun i hi => (hby i hi).trans hle⟩

/-- **What a reader is given does not depend on what is completed after its cutoff.** -/
theorem readDecision_later (hs : Sound rt files) (hs' : Sound rt files') (hk : Keeps files files')
    (hlater : Later rt t files files') :
    readDecision rt files' date (some t) runId = readDecision rt files date (some t) runId := by
  unfold readDecision
  rw [selectDecision_later hs hs' hk hlater]
  cases hm : selectDecision rt files date (some t) runId with
  | error e => rfl
  | ok m =>
    rw [Exc.ok_bind, Exc.ok_bind]
    have hstands := hs.stands (selectDecision_sound hs hm).1
    cases href : (m.artifacts.filter ArtifactRef.isInput).head? with
    | none => rfl
    | some ref =>
      have hmem : ref ∈ m.refs := List.mem_append_left _ (List.mem_filter.1 (List.mem_of_mem_head? href)).1
      obtain ⟨data, hdata, -⟩ := hstands.refs ref hmem
      cases m.cohort with
      | none => rfl
      | some cohort =>
        dsimp only
        rw [hdata, hk _ _ hdata]

end reads

/-! ## Every run -/

/-- **Reads are of their point in time**: over a store of regular publishers, a reader is given no clock after its cutoff,
and what is completed after the cutoff changes neither its choice nor its result or error; and whatever a store holds,
every path keeps its bytes. -/
theorem point_in_time [DecidableEq Caller] [DecidableEq Bytes] (rt : Runtime Cell Bytes) :
    (∀ s : Host Caller Bytes, (host rt Publish.Regular []).Reachable s → ∀ date t runId,
      (∀ m, selectDecision rt s.world.files date (some t) runId = .ok m → m.completedAt ≤ t) ∧
      (∀ f, readDecision rt s.world.files date (some t) runId = .ok f → ClocksBy rt t f) ∧
      ∀ s', Relation.ReflTransGen (host rt Publish.Regular []).step s s' → Later rt t s.world.files s'.world.files →
        selectDecision rt s'.world.files date (some t) runId = selectDecision rt s.world.files date (some t) runId ∧
        readDecision rt s'.world.files date (some t) runId = readDecision rt s.world.files date (some t) runId) ∧
    ∀ (content : Files Bytes) (s s' : Host Caller Bytes), (host rt (fun _ => True) content).Reachable s →
      Relation.ReflTransGen (host rt (fun _ => True) content).step s s' → Keeps s.world.files s'.world.files := by
  refine ⟨fun s hs date t runId => ?_, fun content s s' hs hrun => keeps_of_run hs hrun⟩
  have hsound := sound_always s hs
  refine ⟨fun m hm => (selectDecision_sound hsound hm).2, fun f hf => readDecision_clocks hsound hf, ?_⟩
  intro s' hrun hlater
  have hsound' := sound_always s' (hs.run hrun)
  have hkeeps := keeps_of_run hs hrun
  exact ⟨selectDecision_later hsound hsound' hkeeps hlater, readDecision_later hsound hsound' hkeeps hlater⟩

/-! ## One day -/

namespace Sample

/-- A cell is a text or a time. -/
inductive Datum where
  | text (s : String)
  | time (i : Int)
  deriving DecidableEq

/-- What a file holds is what was written. -/
inductive Blob where
  | manifest (m : Manifest)
  | frame (f : Frame Datum)
  deriving DecidableEq

def Blob.isManifest : Blob → Bool
  | manifest _ => true
  | frame _ => false

def Blob.toManifest : Blob → Option Manifest
  | manifest m => some m
  | frame _ => none

def Blob.toFrame : Blob → Except Exn (Frame Datum)
  | manifest _ => .error (.other "not a parquet file")
  | frame f => .ok f

def Datum.toText : Datum → String
  | text s => s
  | time i => toString i

def Datum.toTime : Datum → Option Int
  | text _ => none
  | time i => some i

def runtime : Runtime Datum Blob where
  sha256 b := if b.isManifest then "manifest" else "frame"
  size _ := 1
  dump := .manifest
  parses := Blob.isManifest
  validate := Blob.toManifest
  toParquet f := .ok (.frame f)
  readParquet := Blob.toFrame
  str := Datum.toText
  cell := .text
  toDatetime cells := .ok (cells.map Datum.toTime)
  fromIsoformat := .ok
  parses_dump _ := rfl
  validate_dump _ := rfl
  clocks_readParquet := by
    rintro f b f' ⟨⟩ ⟨⟩
    rfl

/-- A file system that answers one publisher. -/
def answer : (op : StoreOp Blob) → Disk Unit Blob → op.Ret × Disk Unit Blob
  | .lock p, w =>
    if w.lock p = none then (.ok (), { w with lock := Function.update w.lock p (some ()) })
    else (.error (.os "timed out acquiring publish lock"), w)
  | .unlock p, w => (.ok (), w.release () p)
  | .isThere p, w => (.ok (w.files.lookup p).isSome, w)
  | .readBytes p, w => (.ok (w.files.lookup p), w)
  | .write p data, w => (.ok (), { w with files := putFile p data w.files })

theorem answer_exec (op : StoreOp Blob) (w : Disk Unit Blob) : StoreExec () op w (answer op w).1 (answer op w).2 := by
  cases op with
  | unlock | write => rfl
  | isThere p | readBytes p =>
    refine ⟨fun a ha => ?_, rfl⟩
    cases ha
    rfl
  | lock p =>
    by_cases h : w.lock p = none
    · simp only [answer, if_pos h]
      exact ⟨h, rfl⟩
    · simp only [answer, if_neg h]
      rfl

/-- The disk after something was published, by a publisher that is gone again. -/
def publish (x : Publish Datum Blob) (w : Disk Unit Blob) : Disk Unit Blob :=
  (Prog.run answer (x.prog runtime) w).2.exit ()

/-- Nobody publishes. -/
def quiet (w : Disk Unit Blob) : Host Unit Blob := ⟨w, fun _ => .idle⟩

section runs

variable {allowed : Publish Datum Blob → Prop} {content : Files Blob} {w w' : Disk Unit Blob}

theorem step_run {l l' : Job Blob} (h : Job.Step runtime allowed () l w l' w') :
    (host runtime allowed content).step ⟨w, fun _ => l⟩ ⟨w', fun _ => l'⟩ := ⟨(), h, fun _ hd => absurd rfl hd⟩

theorem ends_run {p : StoreCall Blob ArtifactRef} {o : Except Exn ArtifactRef} (h : Prog.Ends (StoreExec ()) p w o w') :
    ∃ p', Relation.ReflTransGen (host runtime allowed content).step ⟨w, fun _ => .publishes p⟩ ⟨w', fun _ => .publishes p'⟩ := by
  induction h with
  | ret a w => exact ⟨_, .refl⟩
  | raise e w => exact ⟨_, .refl⟩
  | call r hop _ ih =>
    obtain ⟨p', hrun⟩ := ih
    exact ⟨p', .head (step_run (.publishes (.call r hop))) hrun⟩

theorem publish_run {x : Publish Datum Blob} (hx : allowed x) :
    Relation.ReflTransGen (host runtime allowed content).step (quiet w) (quiet (publish x w)) := by
  obtain ⟨p', hrun⟩ := ends_run (Prog.run_ends answer_exec (x.prog runtime) w)
  exact .head (step_run (.begins x hx w)) (hrun.tail (step_run (.gone _ _)))

end runs

def frame : Frame Datum :=
  [("symbol", [.text "005930"]), ("admitted", [.text "True"]), ("snapshot_timestamp", [.time 10]),
    ("feature_available_timestamp", [.time 12])]

def cohort : Cohort := ⟨"2026-03-02", "cohort-1", ["005930"]⟩

/-- The same candidates, frozen by a run that completed at some time. -/
def decision (runId : String) (completedAt : Int) : DecisionArgs Datum := ⟨frame, cohort, runId, some completedAt, []⟩

def empty : Disk Unit Blob := ⟨[], fun _ => none⟩

/-- One decision, complete at 20. -/
def one : Disk Unit Blob := publish (.decision (decision "run-1" 20)) empty

/-- And another, complete at 30. -/
def two : Disk Unit Blob := publish (.decision (decision "run-2" 30)) one

/-- A manifest of the input of the first decision that says it was complete at 5, on another day. -/
def backdated : Manifest :=
  ⟨"2026-03-03", "run-0", some cohort, 5, [], [⟨["decision", "2026-03-02", "run-1", "input.parquet"], "frame", 1, some 1⟩],
    .complete, by decide⟩

def read (w : Disk Unit Blob) (cutoff : Int) : Except Exn (Frame Datum) :=
  readDecision runtime w.files "2026-03-02" (some cutoff) none

/-- The paths of a day, sorted by a sort that evaluates. -/
theorem manifestPaths_eq (files : Files Blob) (day : String) : manifestPaths files day =
    ((files.flatMap (fun file => file.1.inits)).dedup.filter (isManifestOf day)).insertionSort (· ≤ ·) :=
  List.mergeSort_eq_insertionSort (· ≤ ·) _

theorem read_misnamed {w : Disk Unit Blob} {cutoff : Int} {e : Exn}
    (h : (((w.files.flatMap (fun file => file.1.inits)).dedup.filter (isManifestOf "2026-03-02")).insertionSort
      (· ≤ ·)).mapM (loadManifest runtime w.files) = .error e) : read w cutoff = .error e := by
  unfold read readDecision selectDecision readManifests
  rw [show runtime.fromIsoformat "2026-03-02" = .ok "2026-03-02" from rfl, Exc.ok_bind, manifestPaths_eq, h]
  rfl

theorem empty_start : Host.Start [] (quiet empty) := ⟨fun _ => rfl, rfl, fun _ => rfl⟩

end Sample

open Sample in
/-- Read at 25, the first decision is what is read, also after the second. -/
theorem point_in_time_one_day : read one 25 = .ok ((decision "run-1" 20).stamped runtime) ∧ read two 25 = read one 25 ∧
    ClocksBy runtime 25 ((decision "run-1" 20).stamped runtime) := by
  have hone : (host runtime Publish.Regular []).Reachable (quiet one) :=
    (System.Reachable.start empty_start).run (publish_run ⟨by decide, by decide⟩)
  have htwo : Relation.ReflTransGen (host runtime Publish.Regular []).step (quiet one) (quiet two) :=
    publish_run ⟨by decide, by decide⟩
  have hread : read one 25 = .ok ((decision "run-1" 20).stamped runtime) := by decide +kernel
  have hnew : ∀ file ∈ two.files, (one.files.lookup file.1).isSome ∨ ∀ m ∈ runtime.validate file.2, 25 < m.completedAt := by
    decide +kernel
  obtain ⟨-, hclocks, hlater⟩ := (point_in_time runtime).1 (quiet one) hone "2026-03-02" 25 none
  refine ⟨hread, (hlater (quiet two) htwo ?_).2, hclocks _ hread⟩
  intro day p b m _ hno hb hm
  obtain ⟨before, after, heq, -⟩ := List.lookup_eq_some_iff.1 hb
  have hmem : (p, b) ∈ two.files := by
    rw [show two.files = _ from heq]
    exact List.mem_append_right before List.mem_cons_self
  rcases hnew _ hmem with hsome | hall
  · rw [show one.files.lookup p = none from hno] at hsome
    cases hsome
  · exact hall m hm

open Sample in
/-- A manifest with a cohort that is no decision's may be read before its clocks; and a run that is named like a manifest,
or like a path to one, makes the day unreadable, however late it was completed. -/
theorem backdated_and_misnamed :
    (∃ f, readDecision runtime (publish (.manifest backdated) one).files "2026-03-03" (some 5) none = .ok f ∧
      ¬ ClocksBy runtime 5 f) ∧
    read (publish (.decision (decision "manifest-2.json" 30)) one) 25 =
      .error (.value "unreadable manifest evidence: 'manifest-2.json'") ∧
    read (publish (.decision (decision "../../manifests/2026-03-02/manifest-2.json" 30)) one) 25 =
      .error (.value "unreadable manifest evidence: 'manifest-2.json'") := by
  refine ⟨⟨(decision "run-1" 20).stamped runtime, by decide +kernel, ?_⟩, read_misnamed (by decide +kernel),
    read_misnamed (by decide +kernel)⟩
  rintro ⟨instants, hinstants, hby⟩
  obtain rfl : [some 10, some 12] = instants := Except.ok.inj hinstants
  exact absurd (hby 10 (by decide)) (by decide)

end Capture
