import KClosingAlpha.Lib.Prog
import KClosingAlpha.Py.Value
import Mathlib.Data.String.Basic
import Mathlib.Data.List.MinMax
/-!
# Publish — a panel build replaces its dates in three files beside one provenance sidecar (`data/pit1520_panel.py`)

A build under one mode and digest may only keep the dates of another build under the same ones; the sidecar is removed
before the first file is replaced and written after the last.  A write replaces a file whole or raises and leaves it.
The calls run one after another, under a lock.  Frames of one mode have the same columns, so putting one after another
keeps their rows.
-/
namespace Panel

inductive PanelFile where
  | panel
  | exclusions
  | days
  deriving DecidableEq

/-- The mode and the input digest of a build. -/
structure Build where
  reconstructConsolidated : Bool
  configDigest : String
  deriving DecidableEq

structure Provenance where
  reconstructConsolidated : Bool
  decompositionConfigSha256 : String
  builtAt : String
  startDay : String
  endDay : String
  deriving DecidableEq

inductive PanelError where
  | fileNotFound
  | value (msg : String)
  | storeUnreadable (file : PanelFile)
  | os
  deriving DecidableEq

/-- What is read off a row, and the texts that are dates. -/
structure Frames (Row κ : Type) where
  /-- The date of a row, as `%Y-%m-%d`. -/
  day : Row → String
  /-- The build a row comes from; no code reads it. -/
  build : Row → Build
  /-- The sort keys of a file. -/
  sortKey : PanelFile → Row → κ
  /-- `pd.Timestamp(d).strftime("%Y-%m-%d")`. -/
  timestamp : String → Option String
  /-- Whether `datetime.fromisoformat` reads a stamp, and whether it is aware then. -/
  fromIsoFormat : String → Option Bool
  /-- Whether `strptime` reads a date. -/
  isDay : String → Bool

structure World (Row : Type) where
  files : PanelFile → Option (List Row)
  provenance : Option Provenance

/-- The rows of a file; a missing one has none. -/
def World.rows {Row : Type} (w : World Row) (f : PanelFile) : List Row := (w.files f).getD []

inductive PanelOp (Row : Type) where
  /-- `read_existing_parquet` of the dates. -/
  | readDates (f : PanelFile)
  | readFile (f : PanelFile)
  /-- `atomic_write_parquet`. -/
  | replaceFile (f : PanelFile) (rows : List Row)
  | readProvenance
  | unlinkProvenance
  | now
  /-- `atomic_write_text` of the sidecar. -/
  | replaceProvenance (p : Provenance)

abbrev PanelOp.Ret {Row : Type} : PanelOp Row → Type
  | readDates _ => Except PanelError (List String)
  | readFile _ => Except PanelError (List Row)
  | readProvenance => Except PanelError (Option Provenance)
  | now => String
  | replaceFile _ _ | unlinkProvenance | replaceProvenance _ => Except PanelError Unit

abbrev PanelCall (Row α : Type) := Prog (PanelOp Row) PanelOp.Ret PanelError α

section

variable {Row κ : Type} [LinearOrder κ] (fr : Frames Row κ)

/-- A call does its work, or raises and does nothing. -/
def PanelExec : (op : PanelOp Row) → World Row → op.Ret → World Row → Prop
  | .readDates f, w, r, w' => (∀ days, r = .ok days → days = (w.rows f).map fr.day) ∧ w' = w
  | .readFile f, w, r, w' => (∀ rows, r = .ok rows → rows = w.rows f) ∧ w' = w
  | .replaceFile f rows, w, .ok (), w' => w' = { w with files := fun g => if g = f then some rows else w.files g }
  | .replaceFile _ _, w, .error _, w' => w' = w
  | .readProvenance, w, r, w' => (∀ p, r = .ok p → p = w.provenance) ∧ w' = w
  | .unlinkProvenance, w, .ok (), w' => w' = { w with provenance := none }
  | .unlinkProvenance, w, .error _, w' => w' = w
  | .now, w, _, w' => w' = w
  | .replaceProvenance p, w, .ok (), w' => w' = { w with provenance := some p }
  | .replaceProvenance _, w, .error _, w' => w' = w

/-! ## The sidecar -/

def isHex (c : Char) : Bool := "0123456789abcdefABCDEF".toList.contains c

/-- `_check_provenance_payload` on a mapping with the sidecar's keys and types. -/
def checkProvenancePayload (label : String) (p : Provenance) : Except PanelError Provenance :=
  let digest := p.decompositionConfigSha256
  if p.reconstructConsolidated ∧ (digest.toList.length ≠ 64 ∨ digest.toList.all isHex = false) then
    .error (.value (label ++ " carries a non-hex digest"))
  else if p.reconstructConsolidated = false ∧ digest ≠ "" then
    .error (.value (label ++ " carries a digest without reconstruction"))
  else
    match [("built_at", p.builtAt), ("start", p.startDay), ("end", p.endDay)].find? (fun item => Py.isBlank item.2) with
    | some (key, text) => .error (.value (label ++ " carries a mistyped " ++ key ++ ": '" ++ text ++ "'"))
    | none =>
      match fr.fromIsoFormat p.builtAt with
      | none => .error (.value (label ++ " carries an unparseable built_at"))
      | some false => .error (.value (label ++ " built_at is not timezone-aware"))
      | some true =>
        match [("start", p.startDay), ("end", p.endDay)].find? (fun item => !fr.isDay item.2) with
        | some (key, _) => .error (.value (label ++ " carries an unparseable " ++ key))
        | none => .ok p

def loadPanelProvenance : PanelCall Row Provenance :=
  .call .readProvenance fun
    | .error e => .raise e
    | .ok none => .raise .fileNotFound
    | .ok (some p) => .ofExcept (checkProvenancePayload fr "panel provenance" p)

def writePanelProvenance (b : Build) (startDay endDay : String) : PanelCall Row Unit :=
  .call .now fun builtAt =>
    match checkProvenancePayload fr "panel provenance payload" ⟨b.reconstructConsolidated, b.configDigest, builtAt, startDay, endDay⟩ with
    | .error e => .raise e
    | .ok payload =>
      .call (.replaceProvenance payload) fun
        | .error e => .raise e
        | .ok () => .ret ()

/-! ## The files -/

def rowLe (f : PanelFile) (a b : Row) : Bool := decide (fr.sortKey f a ≤ fr.sortKey f b)

/-- The rows a file holds after some dates of it are replaced: sorted, rows with one key as they stood. -/
def merged (f : PanelFile) (wanted : List String) (existing frame : List Row) : List Row :=
  (existing.filter (fun row => decide (fr.day row ∉ wanted)) ++ frame).mergeSort (rowLe fr f)

/-- `write_pit1520_panel` over the files left. -/
def writePit1520Panel (result : PanelFile → List Row) (wanted : List String) : List PanelFile → PanelCall Row Unit
  | [] => .ret ()
  | f :: fs =>
    .call (.readFile f) fun
      | .error e => .raise e
      | .ok existing =>
        .call (.replaceFile f (merged fr f wanted existing (result f))) fun
          | .error e => .raise e
          | .ok () => writePit1520Panel result wanted fs

/-- The dates in the files. -/
def existingDates : List PanelFile → PanelCall Row (List String)
  | [] => .ret []
  | f :: fs =>
    .call (.readDates f) fun
      | .error e => .raise e
      | .ok days => (existingDates fs).bind fun rest => .ret (days ++ rest)

def panelFiles : List PanelFile := [.panel, .exclusions, .days]

/-- The arguments of `_publish_panel_build`. -/
structure PanelBuild (Row : Type) where
  result : PanelFile → List Row
  replaceDates : List String
  build : Build

/-- Retained dates need the sidecar of a build like this one.  Its digest is hexadecimal, so no letter beyond ASCII can
be the other case of one of its own. -/
def requireCompatible (b : Build) (retained : List String) : PanelCall Row Unit :=
  if retained = [] then .ret ()
  else
    (loadPanelProvenance fr).bind fun p =>
      if p.reconstructConsolidated ≠ b.reconstructConsolidated ∨
          p.decompositionConfigSha256.toLower ≠ b.configDigest.toLower then
        .raise (.value "Partial panel rebuild has incompatible provenance; rebuild all existing dates")
      else .ret ()

/-- The build is published for the dates it leaves in the files. -/
def replacePanel (a : PanelBuild Row) (wanted retained : List String) : PanelCall Row Unit :=
  .call .unlinkProvenance fun
    | .error e => .raise e
    | .ok () =>
      (writePit1520Panel fr a.result wanted panelFiles).bind fun () =>
        match (wanted ++ retained).argmin id, (wanted ++ retained).argmax id with
        | some startDay, some endDay => writePanelProvenance fr a.build startDay endDay
        | _, _ => .raise (.value "min() iterable argument is empty")

/-- `_publish_panel_build`. -/
def publishPanelBuild (a : PanelBuild Row) : PanelCall Row Unit :=
  match a.replaceDates.mapM fr.timestamp with
  | none => .raise (.value "replace_dates")
  | some wanted =>
    (existingDates panelFiles).bind fun existing =>
      let retained := existing.filter (fun day => decide (day ∉ wanted))
      (requireCompatible fr a.build retained).bind fun () => replacePanel fr a wanted retained

/-! ## What holds of the files -/

/-- What the callers promise of a build: its rows are of the dates it replaces, and come from it. -/
structure PanelBuild.Honest (a : PanelBuild Row) : Prop where
  dates : ∀ wanted, a.replaceDates.mapM fr.timestamp = some wanted → ∀ f, ∀ row ∈ a.result f, fr.day row ∈ wanted
  built : ∀ f, ∀ row ∈ a.result f, fr.build row = a.build

/-- Every row was built under the sidecar's mode and digest, for a date of its window. -/
structure Certifies (p : Provenance) (w : World Row) : Prop where
  mode : ∀ f, ∀ row ∈ w.rows f, (fr.build row).reconstructConsolidated = p.reconstructConsolidated
  digest : ∀ f, ∀ row ∈ w.rows f, (fr.build row).configDigest.toLower = p.decompositionConfigSha256.toLower
  window : ∀ f, ∀ row ∈ w.rows f, p.startDay ≤ fr.day row ∧ fr.day row ≤ p.endDay

def Sorted (w : World Row) : Prop := ∀ f, (w.rows f).Pairwise (fun a b => rowLe fr f a b = true)

/-- Beside a sidecar the files are what it says, and sorted. -/
def Sound (w : World Row) : Prop := ∀ p, w.provenance = some p → Certifies fr p w ∧ Sorted fr w

theorem sound_of_no_sidecar {w : World Row} (h : w.provenance = none) : Sound fr w := fun p hp => by
  rw [h] at hp
  cases hp

/-- The rows of a date in a file. -/
def onDate (day : String) (rows : List Row) : List Row := rows.filter (fun row => decide (fr.day row = day))

variable {fr} {wanted : List String} {existing frame : List Row} {f : PanelFile}

theorem mem_merged {row : Row} : row ∈ merged fr f wanted existing frame ↔
    row ∈ existing ∧ fr.day row ∉ wanted ∨ row ∈ frame := by
  unfold merged
  simp

theorem rowLe_trans (a b c : Row) (hab : rowLe fr f a b = true) (hbc : rowLe fr f b c = true) : rowLe fr f a c = true :=
  decide_eq_true (le_trans (of_decide_eq_true hab) (of_decide_eq_true hbc))

theorem rowLe_total (a b : Row) : (rowLe fr f a b || rowLe fr f b a) = true := by
  simpa [rowLe] using le_total _ _

theorem merged_sorted : (merged fr f wanted existing frame).Pairwise (fun a b => rowLe fr f a b = true) :=
  List.pairwise_mergeSort rowLe_trans rowLe_total _

/-- **A date that is not replaced keeps its rows, in their order.** -/
theorem onDate_merged {day : String} (hday : day ∉ wanted) (hframe : ∀ row ∈ frame, fr.day row ∈ wanted)
    (hsorted : (onDate fr day existing).Pairwise (fun a b => rowLe fr f a b = true)) :
    onDate fr day (merged fr f wanted existing frame) = onDate fr day existing := by
  have hkept : onDate fr day (existing.filter (fun row => decide (fr.day row ∉ wanted)) ++ frame) = onDate fr day existing := by
    have hnone : onDate fr day frame = [] :=
      List.filter_eq_nil_iff.2 fun row hrow he => hday (of_decide_eq_true he ▸ hframe row hrow)
    unfold onDate at hnone ⊢
    rw [List.filter_append, hnone, List.append_nil, List.filter_filter]
    refine List.filter_congr fun row _ => ?_
    by_cases he : fr.day row = day <;> simp [he, hday]
  have hperm : (onDate fr day (merged fr f wanted existing frame)).Perm (onDate fr day existing) :=
    hkept ▸ (List.mergeSort_perm _ _).filter _
  have hsub : (onDate fr day existing).Sublist (merged fr f wanted existing frame) :=
    List.sublist_mergeSort rowLe_trans rowLe_total hsorted (hkept ▸ List.filter_sublist)
  have hown : (onDate fr day existing).Sublist (onDate fr day (merged fr f wanted existing frame)) := by
    have hself : onDate fr day (onDate fr day existing) = onDate fr day existing := by
      unfold onDate
      simp [List.filter_filter]
    rw [← hself]
    exact hsub.filter _
  exact (hown.eq_of_length hperm.length_eq.symm).symm

omit [LinearOrder κ] in
theorem check_eq {label : String} {p p' : Provenance} (h : checkProvenancePayload fr label p = .ok p') : p' = p := by
  unfold checkProvenancePayload at h
  dsimp only at h
  split at h
  · cases h
  · split at h
    · cases h
    · split at h
      · cases h
      · split at h
        · cases h
        · cases h
        · split at h
          · cases h
          · cases h
            rfl

/-! ## What a call leaves -/

abbrev Keeps {α : Type} (fr : Frames Row κ) (p : PanelCall Row α) (φ : α → World Row → Prop) (w : World Row) : Prop :=
  Prog.keeps (PanelExec fr) (Sound fr) p φ w

variable {w : World Row} {b : Build} {result : PanelFile → List Row}

theorem existingDates_keeps : ∀ (fs : List PanelFile) {w : World Row}, Sound fr w → Keeps fr (existingDates fs)
    (fun days w' => w' = w ∧ days = fs.flatMap fun f => (w.rows f).map fr.day) w
  | [], _, hw => Prog.keeps_ret hw ⟨rfl, rfl⟩
  | f :: fs, w, hw => by
    apply Prog.keeps_call
    rintro r w' ⟨hread, rfl⟩
    refine ⟨hw, ?_⟩
    cases r with
    | error e => exact Prog.keeps_raise hw
    | ok days =>
      apply Prog.keeps_bind (existingDates_keeps fs hw)
      rintro rest w' hw' ⟨rfl, rfl⟩
      exact Prog.keeps_ret hw' ⟨rfl, by rw [hread days rfl, List.flatMap_cons]⟩

theorem requireCompatible_keeps {retained : List String} (hw : Sound fr w) : Keeps fr (requireCompatible fr b retained)
    (fun _ w' => w' = w ∧ (retained ≠ [] → ∃ p, w.provenance = some p ∧
      p.reconstructConsolidated = b.reconstructConsolidated ∧
      p.decompositionConfigSha256.toLower = b.configDigest.toLower)) w := by
  unfold requireCompatible
  split
  · exact Prog.keeps_ret hw ⟨rfl, fun h => absurd ‹retained = []› h⟩
  · apply Prog.keeps_call
    rintro r w' ⟨hread, rfl⟩
    refine ⟨hw, ?_⟩
    match r, hread with
    | .error e, _ => exact Prog.keeps_raise hw
    | .ok none, _ => exact Prog.keeps_raise hw
    | .ok (some p), hread =>
      apply Prog.keeps_bind (φ := fun p' w₁ => w₁ = w' ∧ p' = p)
        (Prog.keeps_ofExcept hw fun p' hp' => ⟨rfl, check_eq hp'⟩)
      rintro p' w₁ hw₁ ⟨rfl, rfl⟩
      split
      · exact Prog.keeps_raise hw₁
      · rename_i hsame
        rw [not_or, not_not, not_not] at hsame
        exact Prog.keeps_ret hw₁ ⟨rfl, fun _ => ⟨p', (hread _ rfl).symm, hsame.1, hsame.2⟩⟩

/-- Without a sidecar the files are replaced one after another. -/
theorem writePit1520Panel_keeps : ∀ (fs : List PanelFile) {w : World Row}, fs.Nodup → w.provenance = none →
    Keeps fr (writePit1520Panel fr result wanted fs) (fun _ w' => w'.provenance = none ∧
      ∀ f, w'.rows f = if f ∈ fs then merged fr f wanted (w.rows f) (result f) else w.rows f) w
  | [], _, _, hw => Prog.keeps_ret (sound_of_no_sidecar fr hw) ⟨hw, fun _ => by simp⟩
  | f :: fs, w, hnd, hw => by
    obtain ⟨hf, hfs⟩ := List.nodup_cons.1 hnd
    apply Prog.keeps_call
    rintro r w' ⟨hread, rfl⟩
    refine ⟨sound_of_no_sidecar fr hw, ?_⟩
    cases r with
    | error e => exact Prog.keeps_raise (sound_of_no_sidecar fr hw)
    | ok existing =>
      obtain rfl := hread existing rfl
      apply Prog.keeps_call
      rintro (e | ⟨⟨⟩⟩) w₁ rfl
      · exact ⟨sound_of_no_sidecar fr hw, Prog.keeps_raise (sound_of_no_sidecar fr hw)⟩
      · refine ⟨sound_of_no_sidecar fr hw, ?_⟩
        apply Prog.keeps_mono (writePit1520Panel_keeps fs hfs (by exact hw))
        rintro - w₂ - ⟨hw₂, hrows⟩
        refine ⟨hw₂, fun g => ?_⟩
        rw [hrows g]
        by_cases hg : g = f
        · subst hg
          simp [hf, World.rows]
        · simp [hg, World.rows]

/-- The files of a build that keeps only dates of builds like it are certified by its sidecar. -/
theorem certifies_merged {a : PanelBuild Row} {retained : List String} {startDay endDay : String} {w w' : World Row}
    (builtAt : String) (ha : a.Honest fr) (hwanted : a.replaceDates.mapM fr.timestamp = some wanted)
    (hretained : ∀ f, ∀ row ∈ w.rows f, fr.day row ∉ wanted → fr.day row ∈ retained ∧
      (fr.build row).reconstructConsolidated = a.build.reconstructConsolidated ∧
      (fr.build row).configDigest.toLower = a.build.configDigest.toLower)
    (hstart : (wanted ++ retained).argmin id = some startDay) (hend : (wanted ++ retained).argmax id = some endDay)
    (hrows : ∀ f, w'.rows f = merged fr f wanted (w.rows f) (a.result f)) :
    Certifies fr ⟨a.build.reconstructConsolidated, a.build.configDigest, builtAt, startDay, endDay⟩ w' := by
  have hold (f : PanelFile) (row : Row) (hrow : row ∈ w'.rows f) : fr.day row ∈ wanted ++ retained ∧
      (fr.build row).reconstructConsolidated = a.build.reconstructConsolidated ∧
      (fr.build row).configDigest.toLower = a.build.configDigest.toLower := by
    rw [hrows, mem_merged] at hrow
    rcases hrow with ⟨hrow, hday⟩ | hrow
    · obtain ⟨hmem, hmode, hdigest⟩ := hretained f row hrow hday
      exact ⟨List.mem_append_right _ hmem, hmode, hdigest⟩
    · rw [ha.built f row hrow]
      exact ⟨List.mem_append_left _ (ha.dates wanted hwanted f row hrow), rfl, rfl⟩
  exact {
    mode := fun f row hrow => (hold f row hrow).2.1
    digest := fun f row hrow => (hold f row hrow).2.2
    window := fun f row hrow =>
      ⟨List.le_of_mem_argmin (hold f row hrow).1 hstart, List.le_of_mem_argmax (hold f row hrow).1 hend⟩ }

theorem replacePanel_keeps {a : PanelBuild Row} {retained : List String} (hw : Sound fr w) (ha : a.Honest fr)
    (hwanted : a.replaceDates.mapM fr.timestamp = some wanted)
    (hretained : ∀ f, ∀ row ∈ w.rows f, fr.day row ∉ wanted → fr.day row ∈ retained ∧
      (fr.build row).reconstructConsolidated = a.build.reconstructConsolidated ∧
      (fr.build row).configDigest.toLower = a.build.configDigest.toLower) :
    Keeps fr (replacePanel fr a wanted retained)
      (fun _ w' => ∀ f, w'.rows f = merged fr f wanted (w.rows f) (a.result f)) w := by
  apply Prog.keeps_call
  rintro (e | ⟨⟨⟩⟩) w' rfl
  · exact ⟨hw, Prog.keeps_raise hw⟩
  · have hnone : Sound fr { w with provenance := none } := sound_of_no_sidecar fr rfl
    refine ⟨hnone, ?_⟩
    apply Prog.keeps_bind (writePit1520Panel_keeps panelFiles (by decide) rfl)
    rintro ⟨⟩ w₁ hw₁ ⟨hsidecar, hrows⟩
    have hall (f : PanelFile) : w₁.rows f = merged fr f wanted (w.rows f) (a.result f) := by
      have hf : f ∈ panelFiles := by cases f <;> decide
      have hmerged := hrows f
      rw [if_pos hf] at hmerged
      exact hmerged
    split
    · rename_i startDay endDay hstart hend
      apply Prog.keeps_call
      rintro builtAt w₂ rfl
      refine ⟨hw₁, ?_⟩
      split
      · exact Prog.keeps_raise hw₁
      · rename_i payload hpayload
        obtain rfl := check_eq hpayload
        apply Prog.keeps_call
        rintro (e | ⟨⟨⟩⟩) w₃ rfl
        · exact ⟨hw₁, Prog.keeps_raise hw₁⟩
        · have hcert := certifies_merged builtAt ha hwanted hretained hstart hend hall
          have hsound : Sound fr { w₂ with provenance := some _ } := fun p hp => by
            cases hp
            exact ⟨⟨hcert.mode, hcert.digest, hcert.window⟩, fun f => (hall f).symm ▸ merged_sorted⟩
          exact ⟨hsound, Prog.keeps_ret hsound hall⟩
    · exact Prog.keeps_raise hw₁

/-- **Wherever a publication is cut the sidecar, if there is one, tells the truth; when it succeeds, the dates it does not
replace keep their rows.** -/
theorem publishPanelBuild_keeps {a : PanelBuild Row} (hw : Sound fr w) (ha : a.Honest fr) :
    Keeps fr (publishPanelBuild fr a) (fun _ w' => ∀ wanted, a.replaceDates.mapM fr.timestamp = some wanted →
      ∀ f, ∀ day ∉ wanted, onDate fr day (w'.rows f) = onDate fr day (w.rows f)) w := by
  unfold publishPanelBuild
  split
  · exact Prog.keeps_raise hw
  · rename_i wanted hwanted
    apply Prog.keeps_bind (existingDates_keeps panelFiles hw)
    rintro existing w' - ⟨rfl, rfl⟩
    apply Prog.keeps_bind (requireCompatible_keeps hw)
    rintro ⟨⟩ w₁ - ⟨rfl, hcompat⟩
    have hmem (f : PanelFile) (row : Row) (hrow : row ∈ w₁.rows f) (hday : fr.day row ∉ wanted) :
        fr.day row ∈ (panelFiles.flatMap fun f => (w₁.rows f).map fr.day).filter (fun day => decide (day ∉ wanted)) := by
      have hf : f ∈ panelFiles := by cases f <;> decide
      exact List.mem_filter.2 ⟨List.mem_flatMap.2 ⟨f, hf, List.mem_map_of_mem hrow⟩, by simpa using hday⟩
    apply Prog.keeps_mono (replacePanel_keeps hw ha hwanted ?_)
    · intro _ w₂ _ hrows wanted' hwanted' f day hday
      obtain rfl : wanted = wanted' := Option.some.inj (hwanted.symm.trans hwanted')
      rw [hrows f]
      refine onDate_merged hday (ha.dates wanted hwanted f) ?_
      by_cases hretained : (panelFiles.flatMap fun f => (w₁.rows f).map fr.day).filter (fun day => decide (day ∉ wanted)) = []
      · have hnone : onDate fr day (w₁.rows f) = [] := List.filter_eq_nil_iff.2 fun row hrow he => by
          obtain rfl : fr.day row = day := of_decide_eq_true he
          exact absurd (hretained ▸ hmem f row hrow hday) List.not_mem_nil
        rw [hnone]
        exact .nil
      · obtain ⟨p, hp, -⟩ := hcompat hretained
        exact ((hw p hp).2 f).filter _
    · intro f row hrow hday
      have hkept := hmem f row hrow hday
      obtain ⟨p, hp, hmode, hdigest⟩ := hcompat (List.ne_nil_of_mem hkept)
      have hcert := (hw p hp).1
      exact ⟨hkept, (hcert.mode f row hrow).trans hmode, (hcert.digest f row hrow).trans hdigest⟩

variable (fr) in
/-- One call of `_publish_panel_build`, to its end or cut anywhere. -/
def Called (w w' : World Row) : Prop :=
  ∃ a : PanelBuild Row, a.Honest fr ∧ Prog.Reach (PanelExec fr) (publishPanelBuild fr a) w w'

theorem sound_called {w₀ : World Row} (h₀ : w₀.provenance = none) (h : Relation.ReflTransGen (Called fr) w₀ w) :
    Sound fr w := by
  induction h with
  | refl => exact sound_of_no_sidecar fr h₀
  | tail _ hcall ih =>
    obtain ⟨a, ha, hreach⟩ := hcall
    exact Prog.keeps_reach (publishPanelBuild_keeps ih ha) ih hreach

/-- **Over any calls, each cut anywhere, the sidecar tells under what every date in the files was built; and a call that
succeeds leaves the rows of the dates it does not replace as they were.** -/
theorem panel_provenance (fr : Frames Row κ) (w₀ w : World Row) (h₀ : w₀.provenance = none)
    (hcalls : Relation.ReflTransGen (Called fr) w₀ w) :
    (∀ p, w.provenance = some p → Certifies fr p w) ∧
      ∀ a : PanelBuild Row, a.Honest fr → ∀ w', Prog.Ends (PanelExec fr) (publishPanelBuild fr a) w (.ok ()) w' →
        ∀ wanted, a.replaceDates.mapM fr.timestamp = some wanted →
          ∀ f, ∀ day ∉ wanted, onDate fr day (w'.rows f) = onDate fr day (w.rows f) := by
  have hsound := sound_called h₀ hcalls
  refine ⟨fun p hp => (hsound p hp).1, fun a ha w' hends => ?_⟩
  exact (Prog.wpx_ends (publishPanelBuild_keeps hsound ha) hends).2 () rfl

end

/-- Rows that are their dates. -/
private def dayFrames : Frames String String := ⟨id, fun _ => ⟨false, ""⟩, fun _ day => day, some, fun _ => some true, fun _ => true⟩

private def dayBuild : PanelBuild String := ⟨fun _ => ["2025-03-03"], ["2025-03-03"], ⟨false, ""⟩⟩

/-- An environment in which every call succeeds. -/
private def dayStep : (op : PanelOp String) → World String → op.Ret × World String
  | .readDates f, w => (.ok (w.rows f), w)
  | .readFile f, w => (.ok (w.rows f), w)
  | .replaceFile f rows, w => (.ok (), { w with files := fun g => if g = f then some rows else w.files g })
  | .readProvenance, w => (.ok w.provenance, w)
  | .unlinkProvenance, w => (.ok (), { w with provenance := none })
  | .now, w => ("2025-03-04T08:00:00+09:00", w)
  | .replaceProvenance p, w => (.ok (), { w with provenance := some p })

private theorem dayStep_exec (op : PanelOp String) (w : World String) :
    PanelExec dayFrames op w (dayStep op w).1 (dayStep op w).2 := by
  cases op with
  | readDates f => exact ⟨fun days he => by cases he; exact (List.map_id _).symm, rfl⟩
  | readFile f => exact ⟨fun rows he => by cases he; rfl, rfl⟩
  | readProvenance => exact ⟨fun p he => by cases he; rfl, rfl⟩
  | replaceFile | unlinkProvenance | now | replaceProvenance => rfl

private def published : World String := (Prog.run dayStep (publishPanelBuild dayFrames dayBuild) ⟨fun _ => none, none⟩).2

theorem panel_provenance_one_call : ∃ p, published.provenance = some p ∧ Certifies dayFrames p published := by
  have hsidecar : published.provenance = some ⟨false, "", "2025-03-04T08:00:00+09:00", "2025-03-03", "2025-03-03"⟩ := by
    decide +kernel
  have hhonest : dayBuild.Honest dayFrames := by
    constructor
    · rintro wanted hwanted f row hrow
      obtain rfl : ["2025-03-03"] = wanted := by simpa [dayBuild, dayFrames] using hwanted
      exact hrow
    · exact fun _ _ _ => rfl
  refine ⟨_, hsidecar, (panel_provenance dayFrames ⟨fun _ => none, none⟩ published rfl (.single ?_)).1 _ hsidecar⟩
  exact ⟨dayBuild, hhonest, (Prog.run_ends dayStep_exec _ _).reach⟩

end Panel
