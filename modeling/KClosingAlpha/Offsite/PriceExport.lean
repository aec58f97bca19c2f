import KClosingAlpha.Lib.Threads
import KClosingAlpha.Offsite.PriceRebuild
import Mathlib.Logic.Equiv.List
/-!
# PriceExport — what an export leaves, wherever it is cut

The directory only grows until the manifest is replaced, and the manifest is replaced when everything it lists is there
(`Sound`).  It then restores the current frame, unless a key that the base repeats kept one of its rows: then the check
of the rows fails, and a new base is built.
-/
set_option linter.unusedSectionVars false

namespace PriceForm

open Prog (keeps Reach Ends)

variable {Cell Payload Digest : Type} [DecidableEq Digest] [DecidableEq Cell] {pd : Pandas Cell Payload Digest}
  {w : World Cell Payload Digest}

/-! ## What every call keeps -/

variable (pd) in
/-- A key that the base repeats keeps none of its rows. -/
def BaseKeepsOnce (current : Frame Cell) (w : World Cell Payload Digest) : Prop :=
  ∀ m before parts, w.manifest = some (some (m, before)) → m.base.mapM (loadAt pd w) = .ok parts →
    Delta.KeepsOnce (keyOf pd current.columns) (parts.flatMap (·.rows)) current.rows

variable (pd) in
/-- Since the export began in `w₀`, the directory has only grown, or it restores the current frame. -/
structure Sound (current : Frame Cell) (w₀ w : World Cell Payload Digest) : Prop where
  form : Form pd w
  seen : BaseKeepsOnce pd current w₀ → Grows pd w₀ w ∨ Restores pd current w

theorem Sound.grows {current : Frame Cell} {w₀ w' : World Cell Payload Digest} (h : Sound pd current w₀ w)
    (hg : Grows pd w w') : Sound pd current w₀ w' := by
  refine ⟨hg.form h.form, fun honce => ?_⟩
  rcases h.seen honce with hs | hs
  · exact .inl (hs.trans hg)
  · exact .inr (hs.grows h.form hg)

section calls

variable {α β : Type} {I : World Cell Payload Digest → Prop}

theorem bind_keeps {p : Program Cell Payload Digest α} {f : α → Program Cell Payload Digest β}
    {φ : α → World Cell Payload Digest → Prop} {ψ : β → World Cell Payload Digest → Prop} (h : keeps Does I p φ w)
    (hf : ∀ a w', I w' → φ a w' → keeps Does I (f a) ψ w') : keeps Does I (p >>= f) ψ w := Prog.keeps_bind h hf

theorem pure_keeps {a : α} {φ : α → World Cell Payload Digest → Prop} (hw : I w) (h : φ a w) :
    keeps Does I (pure a : Program Cell Payload Digest α) φ w := Prog.keeps_ret hw h

theorem ofExcept_keeps {x : Except Exn α} (hw : I w) :
    keeps Does I (.ofExcept x : Program Cell Payload Digest α) (fun a w' => w' = w ∧ x = .ok a) w :=
  Prog.keeps_ofExcept hw fun _ ha => ⟨rfl, ha⟩

theorem readBytes_keeps (p : RelPath Digest) (hw : I w) :
    keeps Does I (readBytes p) (fun r w' => w' = w ∧ (r = w.files p ∨ r = none)) w := by
  rintro r w' ⟨rfl, hr⟩
  exact ⟨hw, pure_keeps hw ⟨rfl, hr⟩⟩

theorem isFile_keeps (p : RelPath Digest) (hw : I w) :
    keeps Does I (isFile p : Program Cell Payload Digest Bool) (fun r w' => w' = w ∧ r = (w.files p).isSome) w := by
  rintro r w' ⟨rfl, hr⟩
  exact ⟨hw, pure_keeps hw ⟨rfl, hr⟩⟩

theorem list_keeps (hw : I w) : keeps Does I (list : Program Cell Payload Digest (List (RelPath Digest)))
    (fun _ w' => w' = w) w := by
  rintro r w' ⟨rfl, -⟩
  refine ⟨hw, ?_⟩
  cases r with
  | none => exact Prog.keeps_raise hw
  | some ps => exact pure_keeps hw rfl

/-- A call that succeeded, or raised. -/
theorem orRaise_keeps {call : Program Cell Payload Digest Bool} {φ : World Cell Payload Digest → Prop}
    (h : keeps Does I call (fun r w' => r = true → φ w') w) : keeps Does I (orRaise call) (fun _ => φ) w := by
  refine bind_keeps h (fun r w' hw' hr => ?_)
  cases r with
  | true => exact pure_keeps hw' (hr rfl)
  | false => exact Prog.keeps_raise hw'

theorem writeBytes_keeps {p : RelPath Digest} {b : Payload} (hw : I w) (hput : I (w.put p b)) :
    keeps Does I (writeBytes p b) (fun _ w' => w' = w.put p b) w := by
  refine orRaise_keeps ?_
  intro r w' hop
  cases r with
  | true =>
    obtain rfl : w' = w.put p b := hop
    exact ⟨hput, pure_keeps hput fun _ => rfl⟩
  | false =>
    obtain rfl : w' = w := hop
    exact ⟨hw, pure_keeps hw fun h => by cases h⟩

theorem writeManifest_keeps {m : OffsiteManifest Digest} {current : Frame Cell} (hw : I w)
    (hput : I { w with manifest := some (some (m, current)) }) :
    keeps Does I (writeManifest m current) (fun _ w' => w' = { w with manifest := some (some (m, current)) }) w := by
  refine orRaise_keeps ?_
  intro r w' hop
  cases r with
  | true =>
    obtain rfl : w' = { w with manifest := some (some (m, current)) } := hop
    exact ⟨hput, pure_keeps hput fun _ => rfl⟩
  | false =>
    obtain rfl : w' = w := hop
    exact ⟨hw, pure_keeps hw fun h => by cases h⟩

theorem unlink_keeps {p : RelPath Digest} (hw : I w) (hdrop : I (w.drop p)) :
    keeps Does I (unlink p : Program Cell Payload Digest Unit) (fun _ w' => w' = w.drop p) w := by
  refine orRaise_keeps ?_
  intro r w' hop
  cases r with
  | true =>
    obtain rfl : w' = w.drop p := hop
    exact ⟨hdrop, pure_keeps hdrop fun _ => rfl⟩
  | false =>
    obtain rfl : w' = w := hop
    exact ⟨hw, pure_keeps hw fun h => by cases h⟩

theorem rmdirs_keeps (hw : I w) : keeps Does I (rmdirs : Program Cell Payload Digest Unit) (fun _ w' => w' = w) w := by
  refine orRaise_keeps ?_
  intro r w' hop
  obtain rfl : w' = w := by cases r <;> exact hop
  exact ⟨hw, pure_keeps hw fun _ => rfl⟩

theorem readManifest_keeps (hw : I w) :
    keeps Does I (readManifest : Program Cell Payload Digest _) (fun m w' => w' = w ∧ manifestAt w = .ok m) w := by
  rintro r w' ⟨rfl, hr⟩
  refine ⟨hw, ?_⟩
  rcases hr with rfl | rfl
  · obtain ⟨files, manifest⟩ := w'
    cases manifest with
    | none => exact Prog.keeps_raise hw
    | some text => exact ofExcept_keeps hw
  · exact Prog.keeps_raise hw

theorem load_keeps (entry : OffsiteFile Digest) (hw : I w) :
    keeps Does I (load pd entry) (fun part w' => w' = w ∧ loadAt pd w entry = .ok part) w := by
  refine bind_keeps (readBytes_keeps entry.relpath hw) ?_
  rintro r w' hw' ⟨rfl, hr⟩
  rcases hr with rfl | rfl
  · unfold loadAt
    cases w'.files entry.relpath with
    | none => exact Prog.keeps_raise hw'
    | some b =>
      dsimp only
      split_ifs
      · exact Prog.keeps_raise hw'
      · cases pd.read b with
        | none => exact Prog.keeps_raise hw'
        | some frame =>
          dsimp only
          split_ifs
          · exact Prog.keeps_raise hw'
          · exact pure_keeps hw' ⟨rfl, rfl⟩
  · exact Prog.keeps_raise hw'

theorem loadNext_keeps (kind : Kind) (m : OffsiteManifest Digest) (hw : I w) :
    keeps Does I (loadNext pd kind m) (fun part w' => w' = w ∧ nextAt pd w kind m = .ok part) w := by
  unfold loadNext nextAt
  cases m.files.find? (fun f => decide (f.kind = kind)) with
  | none => exact Prog.keeps_raise hw
  | some entry => exact load_keeps entry hw

end calls

/-! ## The files are published -/

section publish

variable {current : Frame Cell} {w₀ : World Cell Payload Digest}

theorem loadAt_entryOf {stem : Stem} {kind : Kind} {frame : Frame Cell}
    (h : w.files ⟨stem, pd.md5 (pd.write frame)⟩ = some (pd.write frame)) :
    loadAt pd w (entryOf pd stem kind frame).1 = .ok frame :=
  loadAt_eq_ok.2 ⟨pd.write frame, h, rfl, pd.read_write frame, rfl⟩

theorem publish_keeps (stem : Stem) (kind : Kind) (frame : Frame Cell) (hw : Sound pd current w₀ w) :
    keeps Does (Sound pd current w₀) (publish pd (entryOf pd stem kind frame))
      (fun _ w' => Grows pd w w' ∧ loadAt pd w' (entryOf pd stem kind frame).1 = .ok frame) w := by
  have hgrows : Grows pd w (w.put ⟨stem, pd.md5 (pd.write frame)⟩ (pd.write frame)) := .put rfl
  have hwrite : keeps Does (Sound pd current w₀) (do
      writeBytes (⟨stem, pd.md5 (pd.write frame)⟩ : RelPath Digest) (pd.write frame)
      pure true : Program Cell Payload Digest Bool)
      (fun _ w' => Grows pd w w' ∧ loadAt pd w' (entryOf pd stem kind frame).1 = .ok frame) w := by
    refine bind_keeps (writeBytes_keeps hw (hw.grows hgrows)) ?_
    rintro - w' hw' rfl
    exact pure_keeps hw' ⟨hgrows, loadAt_entryOf (by simp [World.put])⟩
  refine bind_keeps (isFile_keeps _ hw) ?_
  rintro there w' hw' ⟨rfl, -⟩
  cases there with
  | false => exact hwrite
  | true =>
    refine bind_keeps (readBytes_keeps _ hw') ?_
    rintro r w'' hw'' ⟨rfl, hr⟩
    cases r with
    | none => exact Prog.keeps_raise hw''
    | some b =>
      have hb : w''.files ⟨stem, pd.md5 (pd.write frame)⟩ = some b :=
        (hr.resolve_right fun h => by cases h).symm
      by_cases hsame : pd.size b = pd.size (pd.write frame) ∧ pd.md5 b = pd.md5 (pd.write frame)
      · change keeps Does _ (if pd.size b = pd.size (pd.write frame) ∧ pd.md5 b = pd.md5 (pd.write frame) then _ else _) _ _
        rw [if_pos hsame]
        refine pure_keeps hw'' ⟨.refl _, loadAt_entryOf ?_⟩
        rw [hb, pd.md5_inj hsame.2]
      · change keeps Does _ (if pd.size b = pd.size (pd.write frame) ∧ pd.md5 b = pd.md5 (pd.write frame) then _ else _) _ _
        rw [if_neg hsame]
        exact hwrite

theorem publishAll_keeps : ∀ {files : List (Stem × Kind × Frame Cell)} {w : World Cell Payload Digest},
    Sound pd current w₀ w →
    keeps Does (Sound pd current w₀) (publishAll pd (files.map fun f => entryOf pd f.1 f.2.1 f.2.2))
      (fun _ w' => Grows pd w w' ∧ ∀ f ∈ files, loadAt pd w' (entryOf pd f.1 f.2.1 f.2.2).1 = .ok f.2.2) w
  | [], w, hw => pure_keeps hw ⟨.refl w, fun f hf => by cases hf⟩
  | file :: files, w, hw => by
    refine bind_keeps (publish_keeps file.1 file.2.1 file.2.2 hw) (fun wrote w₁ hw₁ h₁ => ?_)
    refine bind_keeps (publishAll_keeps hw₁) (fun written w₂ hw₂ h₂ => pure_keeps hw₂ ⟨h₁.1.trans h₂.1, ?_⟩)
    intro f hf
    rcases List.mem_cons.1 hf with rfl | hf
    · exact h₂.1.same _ _ rfl h₁.2
    · exact h₂.2 f hf

end publish

/-! ## The difference to the base -/

section diff

variable {current : Frame Cell}

/-- A row of the base has the place of a current row when it is that row. -/
theorem mem_samePositions (hkeys : (current.rows.map (keyOf pd current.columns)).Nodup) {part : List (List Cell)} {i : Nat}
    (hi : i < current.rows.length) :
    i ∈ samePositions ((current.rows.map (keyOf pd current.columns)).map pd.hash) (current.rows.map pd.hash)
      ((part.map (keyOf pd current.columns)).map pd.hash, part.map pd.hash) ↔ current.rows[i] ∈ part := by
  have hnodup : ((current.rows.map (keyOf pd current.columns)).map pd.hash).Nodup := hkeys.map pd.hash_inj
  have hzip : ((part.map (keyOf pd current.columns)).map pd.hash).zip (part.map pd.hash) =
      part.map (fun b => (pd.hash (keyOf pd current.columns b), pd.hash b)) := by
    rw [List.map_map, List.zip_map']
    rfl
  unfold samePositions
  rw [hzip, List.mem_filterMap]
  constructor
  · rintro ⟨row, hrow, hpos⟩
    obtain ⟨b, hb, rfl⟩ := List.mem_map.1 hrow
    obtain ⟨-, hsame⟩ := Option.filter_eq_some_iff.1 hpos
    rw [decide_eq_true_eq, List.getElem?_map, List.getElem?_eq_getElem hi] at hsame
    rw [pd.hash_inj (Option.some.inj hsame)]
    exact hb
  · intro hb
    refine ⟨_, List.mem_map.2 ⟨current.rows[i], hb, rfl⟩, Option.filter_eq_some_iff.2 ⟨?_, ?_⟩⟩
    · refine List.idxOf?_eq_some_iff.2 ⟨by simpa using hi, by simp, fun j hj heq => ?_⟩
      have hlen : i < ((current.rows.map (keyOf pd current.columns)).map pd.hash).length := by simpa using hi
      have hjlen : j < ((current.rows.map (keyOf pd current.columns)).map pd.hash).length := by omega
      have heq' : ((current.rows.map (keyOf pd current.columns)).map pd.hash)[j] =
          ((current.rows.map (keyOf pd current.columns)).map pd.hash)[i] := by simpa using heq
      have hij : j = i := hnodup.getElem_inj_iff.1 heq'
      omega
    · simp [hi]

/-- One file of the base marks its rows as unchanged. -/
theorem mark_part (hkeys : (current.rows.map (keyOf pd current.columns)).Nodup) (seen part : List (List Cell)) :
    (current.rows.map (fun c => decide (c ∉ seen))).zipIdx.map (fun mark => mark.1 && decide (mark.2 ∉
      samePositions ((current.rows.map (keyOf pd current.columns)).map pd.hash) (current.rows.map pd.hash)
        ((part.map (keyOf pd current.columns)).map pd.hash, part.map pd.hash))) =
      current.rows.map (fun c => decide (c ∉ seen ++ part)) := by
  refine List.ext_getElem (by simp) (fun i hi hi' => ?_)
  have hlt : i < current.rows.length := by simpa using hi'
  have hmem : i ∈ samePositions _ _ ((part.map (keyOf pd current.columns)).map pd.hash, part.map pd.hash) ↔ _ :=
    mem_samePositions hkeys hlt
  simp only [List.getElem_map, List.getElem_zipIdx, Nat.zero_add, hmem, List.mem_append, not_or, Bool.decide_and]

/-- One file of the base gives its keys that are gone. -/
theorem gone_part (part : List (List Cell)) :
    (part.filter (fun r => decide (pd.hash (keyOf pd current.columns r) ∉
      (current.rows.map (keyOf pd current.columns)).map pd.hash))).map (keyOf pd current.columns) =
      Delta.gone (keyOf pd current.columns) part current.rows := by
  rw [Delta.gone, List.filter_map]
  congr 1
  refine List.filter_congr (fun r _ => ?_)
  simp only [Function.comp_apply, decide_eq_decide, not_iff_not]
  exact List.mem_map_of_injective pd.hash_inj

theorem gone_append (part part' : List (List Cell)) :
    Delta.gone (keyOf pd current.columns) (part ++ part') current.rows =
      Delta.gone (keyOf pd current.columns) part current.rows ++
        Delta.gone (keyOf pd current.columns) part' current.rows := by
  simp [Delta.gone]

/-- The keys of a frame with the current columns. -/
theorem keyFrame_of_columns (hcols : ∀ name ∈ keyColumns, name ∈ current.columns) {f : Frame Cell}
    (hf : f.columns = current.columns) : keyFrame pd f = .ok ⟨keyColumns, f.rows.map (keyOf pd current.columns)⟩ := by
  rw [keyFrame, hf, if_pos hcols]

theorem hashes_of_columns (hcols : ∀ name ∈ keyColumns, name ∈ current.columns) {f : Frame Cell}
    (hf : f.columns = current.columns) :
    hashes pd f = .ok ((f.rows.map (keyOf pd current.columns)).map pd.hash, f.rows.map pd.hash) := by
  rw [hashes, keyFrame_of_columns hcols hf, Exc.ok_bind]
  rfl

variable {I : World Cell Payload Digest → Prop}

/-- **The loop over the base** marks the current rows that it has, and collects its keys that are gone. -/
theorem diffLoop_keeps (hcols : ∀ name ∈ keyColumns, name ∈ current.columns)
    (hkeys : (current.rows.map (keyOf pd current.columns)).Nodup) (hw : I w) :
    ∀ {base : List (OffsiteFile Digest)} {seen : List (List Cell)} {gone : List (Frame Cell)},
      (∀ e ∈ base, ∀ part, loadAt pd w e = .ok part → part.columns = current.columns) →
      gone.flatMap (·.rows) = Delta.gone (keyOf pd current.columns) seen current.rows →
      (∀ g ∈ gone, g.columns = keyColumns) →
      keeps Does I (diffLoop pd ((current.rows.map (keyOf pd current.columns)).map pd.hash) (current.rows.map pd.hash) base
          (current.rows.map (fun c => decide (c ∉ seen))) gone)
        (fun out w' => w' = w ∧ ∃ parts, base.mapM (loadAt pd w) = .ok parts ∧
          out.1 = current.rows.map (fun c => decide (c ∉ seen ++ parts.flatMap (·.rows))) ∧
          out.2.flatMap (·.rows) = Delta.gone (keyOf pd current.columns) (seen ++ parts.flatMap (·.rows)) current.rows ∧
          ∀ g ∈ out.2, g.columns = keyColumns) w := by
  intro base
  induction base with
  | nil =>
    intro seen gone _ hgone hgc
    refine pure_keeps hw ⟨rfl, [], rfl, ?_, ?_, hgc⟩
    · simp
    · simpa using hgone
  | cons entry base ih =>
    intro seen gone hbase hgone hgc
    refine bind_keeps (load_keeps entry hw) ?_
    rintro part w' hw' ⟨rfl, hload⟩
    have hpc := hbase entry List.mem_cons_self part hload
    refine bind_keeps (ofExcept_keeps hw') ?_
    rintro hs w' hw' ⟨rfl, hhs⟩
    rw [hashes_of_columns hcols hpc] at hhs
    obtain rfl := Except.ok.inj hhs
    refine bind_keeps (ofExcept_keeps hw') ?_
    rintro keys w' hw' ⟨rfl, hkf⟩
    have hkeyFrame : ∀ rows, keyFrame pd ⟨current.columns, rows⟩ =
        .ok ⟨keyColumns, rows.map (keyOf pd current.columns)⟩ := fun _ => keyFrame_of_columns hcols rfl
    rw [hpc, hkeyFrame, gone_part] at hkf
    obtain rfl := Except.ok.inj hkf
    rw [mark_part hkeys]
    refine Prog.keeps_mono (@ih (seen ++ part.rows) _ (fun e he => hbase e (List.mem_cons_of_mem _ he)) ?_ ?_) ?_
    · rw [List.flatMap_append, hgone, gone_append]
      simp
    · intro g hg
      rcases List.mem_append.1 hg with hg | hg
      · exact hgc g hg
      · rw [List.mem_singleton.1 hg]
    · rintro out w'' - ⟨rfl, parts, hparts, hmask, hout, hoc⟩
      refine ⟨rfl, part :: parts, (Exc.mapM_cons_eq_ok _ _ _ _).2 ⟨part, parts, hload, hparts, rfl⟩, ?_, ?_, hoc⟩
      · rw [hmask]
        simp
      · rw [hout]
        simp

/-- The rows that are marked. -/
theorem marked_rows (p : List Cell → Bool) : ∀ rows : List (List Cell),
    ((rows.zip (rows.map p)).filter (·.2)).map Prod.fst = rows.filter p
  | [] => rfl
  | r :: rows => by
    rw [List.map_cons, List.zip_cons_cons]
    by_cases hp : p r = true
    · rw [List.filter_cons_of_pos (by exact hp), List.map_cons, marked_rows p rows, List.filter_cons_of_pos hp]
    · rw [List.filter_cons_of_neg (by exact hp), marked_rows p rows, List.filter_cons_of_neg hp]

/-- **The patch and the deletes of a base that could be loaded.** -/
theorem diff_keeps (hcols : ∀ name ∈ keyColumns, name ∈ current.columns)
    (hkeys : (current.rows.map (keyOf pd current.columns)).Nodup) (hw : I w) {base : List (OffsiteFile Digest)}
    (hbase : ∀ e ∈ base, ∀ part, loadAt pd w e = .ok part → part.columns = current.columns) :
    keeps Does I (diff pd current ((current.rows.map (keyOf pd current.columns)).map pd.hash) (current.rows.map pd.hash) base)
      (fun out w' => w' = w ∧ ∃ parts, base.mapM (loadAt pd w) = .ok parts ∧
        out.1 = ⟨current.columns, Delta.changed (parts.flatMap (·.rows)) current.rows⟩ ∧
        out.2 = ⟨keyColumns, Delta.gone (keyOf pd current.columns) (parts.flatMap (·.rows)) current.rows⟩) w := by
  have hstart : current.rows.map (fun _ => true) = current.rows.map (fun c => decide (c ∉ ([] : List (List Cell)))) := by
    simp
  unfold diff
  rw [hstart]
  refine bind_keeps (diffLoop_keeps hcols hkeys hw hbase (by simp [Delta.gone]) (by simp)) ?_
  rintro out w' hw' ⟨rfl, parts, hparts, hmask, hgone, hgc⟩
  rw [List.nil_append] at hmask hgone
  refine pure_keeps hw' ⟨rfl, parts, hparts, ?_, ?_⟩
  · rw [hmask, marked_rows, Delta.changed]
    refine congrArg (Frame.mk current.columns) (List.filter_congr fun c _ => ?_)
    exact decide_eq_decide.2 Iff.rfl
  · split_ifs with hout
    · rw [hout, List.flatMap_nil] at hgone
      rw [hgone]
    · rw [concat_of_columns hout hgc, hgone]

end diff

/-! ## The rounds -/

section rounds

variable {src : Source Cell} {base : List (OffsiteFile Digest)} {parts : List (Frame Cell)} {patch deletes : Frame Cell}
  {w₀ : World Cell Payload Digest}

theorem isSome_of_loadAt {e : OffsiteFile Digest} {part : Frame Cell} (h : loadAt pd w e = .ok part) :
    (w.files e.relpath).isSome = true := by
  obtain ⟨b, hb, -⟩ := loadAt_eq_ok.1 h
  rw [hb]
  rfl

theorem exists_loadAt_of_mapM : ∀ {base : List (OffsiteFile Digest)} {parts : List (Frame Cell)},
    base.mapM (loadAt pd w) = .ok parts → ∀ e ∈ base, ∃ part, loadAt pd w e = .ok part
  | [], _, _, e, he => by cases he
  | e' :: base, parts, h, e, he => by
    obtain ⟨part, rest, hp, hr, rfl⟩ := (Exc.mapM_cons_eq_ok _ _ _ _).1 h
    rcases List.mem_cons.1 he with rfl | he
    · exact ⟨part, hp⟩
    · exact exists_loadAt_of_mapM hr e he

variable (pd w src base parts patch deletes) in
/-- What a round has on disk when it writes its manifest. -/
structure Ready : Prop where
  kinds : ∀ e ∈ base, e.kind = .base
  named : ∀ e ∈ base, e.relpath.digest = e.md5 ∧
    ∃ part : Frame Cell, part.columns = src.current.columns ∧ e.md5 = pd.md5 (pd.write part)
  base : base.mapM (loadAt pd w) = .ok parts
  partColumns : ∀ part ∈ parts, part.columns = src.current.columns
  patchColumns : patch.columns = src.current.columns
  deleteColumns : deletes.columns = keyColumns
  deleteKeys : ∀ k ∈ deletes.rows, keyOf pd keyColumns k = k

theorem Ready.grows {w' : World Cell Payload Digest} (h : Ready pd w src base parts patch deletes) (hg : Grows pd w w') :
    Ready pd w' src base parts patch deletes :=
  { h with base := mapM_loadAt_of_same (fun e he part => hg.same e part (h.named e he).1) h.base }

/-- **A manifest whose files are there and stand for the current rows restores them.** -/
theorem Ready.restores (h : Ready pd w src base parts patch deletes) (hm : Monolith pd src.current)
    (hcols : ∀ name ∈ keyColumns, name ∈ src.current.columns)
    (hman : w.manifest = some (some (manifestOf pd src base patch deletes, src.current)))
    (hpatch : loadAt pd w (entryOf pd .patch .patch patch).1 = .ok patch)
    (hdeletes : loadAt pd w (entryOf pd .deletes .deletes deletes).1 = .ok deletes)
    (hperm : (Delta.patched (keyOf pd src.current.columns) (parts.flatMap (·.rows)) patch.rows deletes.rows).Perm
      src.current.rows) : Restores pd src.current w := by
  refine ⟨_, hman, fun f hf => ?_, ?_⟩
  · rcases List.mem_append.1 hf with hf | hf
    · obtain ⟨part, hpart⟩ := exists_loadAt_of_mapM h.base f hf
      exact isSome_of_loadAt hpart
    · rcases List.mem_cons.1 hf with rfl | hf
      · exact isSome_of_loadAt hpatch
      · rw [List.mem_singleton.1 hf]
        exact isSome_of_loadAt hdeletes
  · obtain ⟨g, hg, hgc, hgr⟩ := assemble_ok hm hcols (m := manifestOf pd src base patch deletes) rfl rfl h.partColumns
      h.patchColumns h.deleteColumns h.deleteKeys hperm
    refine ⟨g, ?_, hgc, hgr⟩
    have hmanifest : manifestAt w = .ok (manifestOf pd src base patch deletes) := by
      rw [manifestAt, hman]
      exact parse_manifestOf h.kinds
    rw [run_rebuildFrame, rebuildAt, hmanifest, Exc.ok_bind, base_manifestOf h.kinds, h.base, Exc.ok_bind,
      (nextAt_manifestOf h.kinds).1, hpatch, Exc.ok_bind, (nextAt_manifestOf h.kinds).2, hdeletes, Exc.ok_bind, hg]

variable {I : World Cell Payload Digest → Prop}

theorem keptHashes_keeps (hcols : ∀ name ∈ keyColumns, name ∈ src.current.columns) (dropped : List Nat) (hw : I w) :
    ∀ {base : List (OffsiteFile Digest)} {parts : List (Frame Cell)}, base.mapM (loadAt pd w) = .ok parts →
      (∀ part ∈ parts, part.columns = src.current.columns) →
      keeps Does I (keptHashes pd dropped base) (fun out w' => w' = w ∧ out = ((parts.flatMap (·.rows)).filter
        (fun r => decide (pd.hash (keyOf pd src.current.columns r) ∉ dropped))).map pd.hash) w := by
  intro base
  induction base with
  | nil =>
    intro parts hparts _
    obtain rfl : [] = parts := Except.ok.inj hparts
    exact pure_keeps hw ⟨rfl, rfl⟩
  | cons entry base ih =>
    intro parts hparts hpc
    obtain ⟨part, rest, hpart, hrest, rfl⟩ := (Exc.mapM_cons_eq_ok _ _ _ _).1 hparts
    refine bind_keeps (load_keeps entry hw) ?_
    rintro part' w' hw' ⟨rfl, hload⟩
    obtain rfl : part' = part := Except.ok.inj (hload.symm.trans hpart)
    refine bind_keeps (ofExcept_keeps hw') ?_
    rintro hs w' hw' ⟨rfl, hhs⟩
    rw [hashes_of_columns hcols (hpc part' List.mem_cons_self)] at hhs
    obtain rfl := Except.ok.inj hhs
    refine bind_keeps (ih hrest (fun p hp => hpc p (List.mem_cons_of_mem _ hp))) ?_
    rintro kept w' hw' ⟨rfl, rfl⟩
    refine pure_keeps hw' ⟨rfl, ?_⟩
    have hzip : ((part'.rows.map (keyOf pd src.current.columns)).map pd.hash).zip (part'.rows.map pd.hash) =
        part'.rows.map (fun b => (pd.hash (keyOf pd src.current.columns b), pd.hash b)) := by
      rw [List.map_map, List.zip_map']
      rfl
    rw [hzip, List.filter_map, List.map_map, List.flatMap_cons, List.filter_append, List.map_append]
    rfl

/-- **The check of the rows**: the files stand for the current rows. -/
theorem rebuildsRows_keeps (h : Ready pd w src base parts patch deletes)
    (hcols : ∀ name ∈ keyColumns, name ∈ src.current.columns)
    (hman : w.manifest = some (some (manifestOf pd src base patch deletes, src.current)))
    (hpatch : loadAt pd w (entryOf pd .patch .patch patch).1 = .ok patch)
    (hdeletes : loadAt pd w (entryOf pd .deletes .deletes deletes).1 = .ok deletes) (hw : I w) :
    keeps Does I (rebuildsRows pd (src.current.rows.map pd.hash)) (fun out w' => w' = w ∧ (out = true →
      (Delta.patched (keyOf pd src.current.columns) (parts.flatMap (·.rows)) patch.rows deletes.rows).Perm
        src.current.rows)) w := by
  refine bind_keeps (readManifest_keeps hw) ?_
  rintro m w' hw' ⟨rfl, hm⟩
  obtain ⟨before, hbefore⟩ := manifestAt_eq_ok hm
  obtain rfl : m = manifestOf pd src base patch deletes :=
    (Prod.mk.inj (Option.some.inj (Option.some.inj (hbefore.symm.trans hman)))).1
  refine bind_keeps (loadNext_keeps .patch _ hw') ?_
  rintro patch' w' hw' ⟨rfl, hp⟩
  rw [(nextAt_manifestOf h.kinds).1, hpatch] at hp
  obtain rfl := Except.ok.inj hp
  refine bind_keeps (loadNext_keeps .deletes _ hw') ?_
  rintro deletes' w' hw' ⟨rfl, hd⟩
  rw [(nextAt_manifestOf h.kinds).2, hdeletes] at hd
  obtain rfl := Except.ok.inj hd
  refine bind_keeps (ofExcept_keeps hw') ?_
  rintro hs w' hw' ⟨rfl, hhs⟩
  rw [hashes_of_columns hcols h.patchColumns] at hhs
  obtain rfl := Except.ok.inj hhs
  refine bind_keeps (ofExcept_keeps hw') ?_
  rintro hs w' hw' ⟨rfl, hhs⟩
  have hdk : hashes pd deletes = .ok (deletes.rows.map pd.hash, deletes.rows.map pd.hash) := by
    rw [hashes, keyFrame, h.deleteColumns, if_pos (fun _ hn => hn), List.map_congr_left h.deleteKeys, List.map_id']
    rfl
  rw [hdk] at hhs
  obtain rfl := Except.ok.inj hhs
  rw [base_manifestOf h.kinds]
  refine bind_keeps (keptHashes_keeps hcols _ hw' h.base h.partColumns) ?_
  rintro kept w' hw' ⟨rfl, rfl⟩
  refine pure_keeps hw' ⟨rfl, fun hsame => ?_⟩
  rw [decide_eq_true_eq, ← List.map_append, Delta.sorted_map_eq_iff pd.hash_inj] at hsame
  refine List.Perm.trans ?_ hsame
  refine (List.perm_append_comm).trans (List.Perm.append_left _ ?_)
  refine List.Perm.of_eq (List.filter_congr fun r _ => ?_)
  rw [decide_eq_decide, not_iff_not, ← List.map_append, List.mem_map_of_injective pd.hash_inj]

/-- A file that the manifest does not list is not missed. -/
theorem Restores.drop {current : Frame Cell} (h : Restores pd current w) {p : RelPath Digest}
    (hp : ∀ m before, w.manifest = some (some (m, before)) → p ∉ m.files.map (·.relpath)) :
    Restores pd current (w.drop p) := by
  refine h.of_same rfl fun m hm f hf => ?_
  have hne : f.relpath ≠ p := by
    rintro rfl
    exact hp m current hm (List.mem_map_of_mem hf)
  have hfiles : (w.drop p).files f.relpath = w.files f.relpath := by simp [World.drop, hne]
  refine ⟨fun hsome => by rw [hfiles]; exact hsome, fun part hl => ?_⟩
  unfold loadAt at hl ⊢
  rwa [hfiles]

theorem unlinkUnlisted_keeps {current : Frame Cell} {listed : List (RelPath Digest)} : ∀ {ps : List (RelPath Digest)}
    {w : World Cell Payload Digest}, Sound pd current w₀ w → Restores pd current w →
    (∀ m before, w.manifest = some (some (m, before)) → m.files.map (·.relpath) = listed) →
    keeps Does (Sound pd current w₀) (unlinkUnlisted listed ps) (fun _ => Restores pd current) w
  | [], w, hw, hr, _ => pure_keeps hw hr
  | p :: ps, w, hw, hr, hl => by
    unfold unlinkUnlisted
    split_ifs with hp
    · exact unlinkUnlisted_keeps hw hr hl
    · have hdrop : Restores pd current (w.drop p) := hr.drop fun m before hm => by rwa [hl m before hm]
      refine bind_keeps (unlink_keeps hw ⟨fun m before hm => hw.form m before hm, fun _ => .inr hdrop⟩) ?_
      rintro - w' hw' rfl
      refine bind_keeps (unlinkUnlisted_keeps hw' hdrop fun m before hm => hl m before hm) ?_
      exact fun removed w'' hw'' hr'' => pure_keeps hw'' hr''

/-- **The rest of a round**: where the files stand for the current rows, its manifest restores them, and where it returns
they do. -/
theorem publishRound_keeps (h : Ready pd w src base parts patch deletes) (hm : Monolith pd src.current)
    (hcols : ∀ name ∈ keyColumns, name ∈ src.current.columns) (hw : Sound pd src.current w₀ w)
    (hperm : BaseKeepsOnce pd src.current w₀ →
      (Delta.patched (keyOf pd src.current.columns) (parts.flatMap (·.rows)) patch.rows deletes.rows).Perm src.current.rows)
    (rebased : Bool) (written : List (RelPath Digest)) :
    keeps Does (Sound pd src.current w₀)
      (publishRound pd src (src.current.rows.map pd.hash) rebased base patch deletes written)
      (fun out w' => ∀ report, out = .inr report → Restores pd src.current w') w := by
  have hextra : keeps Does (Sound pd src.current w₀)
      (publishAll pd [entryOf pd .patch .patch patch, entryOf pd .deletes .deletes deletes])
      (fun _ w' => Grows pd w w' ∧ loadAt pd w' (entryOf pd .patch .patch patch).1 = .ok patch ∧
        loadAt pd w' (entryOf pd .deletes .deletes deletes).1 = .ok deletes) w :=
    Prog.keeps_mono (@publishAll_keeps _ _ _ _ _ _ _ _ [(.patch, .patch, patch), (.deletes, .deletes, deletes)] _ hw)
      fun _ _ _ hall => ⟨hall.1, hall.2 _ List.mem_cons_self, hall.2 _ (List.mem_cons_of_mem _ List.mem_cons_self)⟩
  refine bind_keeps hextra ?_
  rintro wrote w₁ hw₁ ⟨hg, hpatch, hdeletes⟩
  let w₂ : World Cell Payload Digest :=
    { w₁ with manifest := some (some (manifestOf pd src base patch deletes, src.current)) }
  have hready : Ready pd w₂ src base parts patch deletes := { h.grows hg with base := (h.grows hg).base }
  have hform : Form pd w₂ := by
    intro m before hmb e he
    obtain rfl : manifestOf pd src base patch deletes = m := (Prod.mk.inj (Option.some.inj (Option.some.inj hmb))).1
    rcases List.mem_append.1 he with he | he
    · exact ⟨(h.named e he).1, fun _ => (h.named e he).2⟩
    · rcases List.mem_cons.1 he with rfl | he
      · exact ⟨rfl, fun hk => by cases hk⟩
      · rw [List.mem_singleton.1 he]
        exact ⟨rfl, fun hk => by cases hk⟩
  have hrestores := fun hperm => hready.restores hm hcols rfl hpatch hdeletes hperm
  have hsound : Sound pd src.current w₀ w₂ := ⟨hform, fun honce => .inr (hrestores (hperm honce))⟩
  refine bind_keeps (writeManifest_keeps hw₁ hsound) ?_
  rintro - w' - rfl
  refine bind_keeps (rebuildsRows_keeps hready hcols rfl hpatch hdeletes hsound) ?_
  rintro ok w' hw' ⟨rfl, hok⟩
  cases ok with
  | true =>
    have hlisted : ∀ m before, w₂.manifest = some (some (m, before)) → m.files.map (·.relpath) =
        (base ++ [(entryOf pd .patch .patch patch).1, (entryOf pd .deletes .deletes deletes).1]).map (·.relpath) := by
      intro m before hmb
      rw [← (Prod.mk.inj (Option.some.inj (Option.some.inj hmb))).1]
      rfl
    refine bind_keeps (bind_keeps (list_keeps hw') ?_) (fun removed w' hw' hr => pure_keeps hw' fun _ _ => hr)
    rintro ps w' hw' rfl
    refine bind_keeps (unlinkUnlisted_keeps hw' (hrestores (hok rfl)) hlisted) (fun removed w₃ hw₃ hr => ?_)
    refine bind_keeps (rmdirs_keeps hw₃) ?_
    rintro - w' hw' rfl
    exact pure_keeps hw' hr
  | false =>
    cases rebased with
    | true => exact Prog.keeps_raise hw'
    | false => exact pure_keeps hw' fun _ hr => by cases hr

/-! ### A new base -/

/-- **The files of a new base are the parts of the frame by its months.** -/
theorem baseFiles_ok {current : Frame Cell} {built : List (OffsiteFile Digest × Payload)}
    (h : baseFiles pd current = .ok built) : ∃ files : List (Stem × Kind × Frame Cell),
      built = files.map (fun f => entryOf pd f.1 f.2.1 f.2.2) ∧
      (∀ f ∈ files, f.2.1 = .base ∧ f.2.2.columns = current.columns) ∧
      (files.flatMap (fun f => f.2.2.rows)).Perm current.rows := by
  unfold baseFiles at h
  split_ifs at h with hdate hnull
  let months := (current.rows.filterMap (monthOf pd current.columns)).dedup.insertionSort (· ≤ ·)
  refine ⟨months.map fun month => (.base month, .base, ⟨current.columns, current.rows.filter
    (fun r => decide (monthOf pd current.columns r = some month))⟩), ?_, ?_, ?_⟩
  · rw [← Except.ok.inj h, List.map_map]
    rfl
  · intro f hf
    obtain ⟨month, -, rfl⟩ := List.mem_map.1 hf
    exact ⟨rfl, rfl⟩
  · have hnodup : (months.map some).Nodup :=
      ((List.perm_insertionSort _ _).nodup_iff.2 (List.nodup_dedup _)).map (Option.some_injective Nat)
    have hall : ∀ r ∈ current.rows, monthOf pd current.columns r ∈ months.map some := by
      intro r hr
      cases hmonth : monthOf pd current.columns r with
      | none => exact absurd (List.any_eq_true.2 ⟨r, hr, by rw [hmonth]; rfl⟩) hnull
      | some month =>
        refine List.mem_map.2 ⟨month, ?_, rfl⟩
        exact (List.perm_insertionSort _ _).mem_iff.2 (List.mem_dedup.2 (List.mem_filterMap.2 ⟨r, hr, hmonth⟩))
    have hperm := Delta.flatMap_parts_perm (monthOf pd current.columns) hnodup hall
    rw [List.flatMap_map] at hperm ⊢
    exact hperm

theorem mapM_loadAt_entries : ∀ {files : List (Stem × Kind × Frame Cell)},
    (∀ f ∈ files, loadAt pd w (entryOf pd f.1 f.2.1 f.2.2).1 = .ok f.2.2) →
    ((files.map (fun f => entryOf pd f.1 f.2.1 f.2.2)).map Prod.fst).mapM (loadAt pd w) = .ok (files.map (·.2.2))
  | [], _ => rfl
  | f :: files, h => (Exc.mapM_cons_eq_ok _ _ _ _).2 ⟨f.2.2, files.map (·.2.2), h f List.mem_cons_self,
      mapM_loadAt_entries (fun f' hf' => h f' (List.mem_cons_of_mem _ hf')), rfl⟩

/-- A round that builds a new base. -/
theorem rebase_keeps (hm : Monolith pd src.current) (hcols : ∀ name ∈ keyColumns, name ∈ src.current.columns)
    (hw : Sound pd src.current w₀ w) (written : List (RelPath Digest)) :
    keeps Does (Sound pd src.current w₀) (do
      let built ← .ofExcept (baseFiles pd src.current)
      let wrote ← publishAll pd built
      publishRound pd src (src.current.rows.map pd.hash) true (built.map Prod.fst) ⟨src.current.columns, []⟩ ⟨keyColumns, []⟩
        (written ++ wrote))
      (fun out w' => ∀ report, out = .inr report → Restores pd src.current w') w := by
  refine bind_keeps (ofExcept_keeps hw) ?_
  rintro built w' hw' ⟨rfl, hbuilt⟩
  obtain ⟨files, rfl, hfiles, hperm⟩ := baseFiles_ok hbuilt
  refine bind_keeps (publishAll_keeps hw') ?_
  rintro wrote w₁ hw₁ ⟨-, hloads⟩
  have hready : Ready pd w₁ src ((files.map (fun f => entryOf pd f.1 f.2.1 f.2.2)).map Prod.fst) (files.map (·.2.2))
      ⟨src.current.columns, []⟩ ⟨keyColumns, []⟩ := by
    refine ⟨fun e he => ?_, fun e he => ?_, mapM_loadAt_entries hloads, fun part hp => ?_, rfl, rfl, fun k hk => by cases hk⟩
    · obtain ⟨file, hfile, rfl⟩ := List.mem_map.1 he
      obtain ⟨f, hf, rfl⟩ := List.mem_map.1 hfile
      exact (hfiles f hf).1
    · obtain ⟨file, hfile, rfl⟩ := List.mem_map.1 he
      obtain ⟨f, hf, rfl⟩ := List.mem_map.1 hfile
      exact ⟨rfl, f.2.2, (hfiles f hf).2, rfl⟩
    · obtain ⟨f, hf, rfl⟩ := List.mem_map.1 hp
      exact (hfiles f hf).2
  refine publishRound_keeps hready hm hcols hw₁ (fun _ => ?_) true _
  have hall : Delta.patched (keyOf pd src.current.columns) ((files.map (·.2.2)).flatMap (·.rows)) [] [] =
      files.flatMap (fun f => f.2.2.rows) := by
    simp [Delta.patched, List.flatMap_map]
  rw [hall]
  exact hperm

/-! ### The base there is -/

theorem attempt_keeps {α β : Type} {p : Program Cell Payload Digest α} {f : Except Exn α → Program Cell Payload Digest β}
    {φ : α → World Cell Payload Digest → Prop} {ψ : β → World Cell Payload Digest → Prop} (h : keeps Does I p φ w)
    (hok : ∀ a w', I w' → φ a w' → keeps Does I (f (.ok a)) ψ w')
    (herr : ∀ e w', I w' → keeps Does I (f (.error e)) ψ w') : keeps Does I (p.attempt >>= f) ψ w := by
  refine Prog.wpx_attempt _ h (fun o w' h' => ?_)
  cases o with
  | ok a => exact hok a w' h'.1 (h'.2 a rfl)
  | error e => exact herr e w' h'.1

/-- The base of the manifest, if its columns are the current ones. -/
theorem usableBase_keeps (columns : List String) (hw : I w) :
    keeps Does I (usableBase columns : Program Cell Payload Digest _) (fun out w' => ∀ base, out = some base →
      w' = w ∧ ∃ m before, w.manifest = some (some (m, before)) ∧ m.columns = columns ∧ base = m.base) w := by
  refine attempt_keeps (readManifest_keeps hw) ?_ ?_
  · rintro m w' hw' ⟨rfl, hm⟩
    refine pure_keeps hw' fun base hb => ⟨rfl, ?_⟩
    split_ifs at hb with hcols
    obtain ⟨before, hbefore⟩ := manifestAt_eq_ok hm
    exact ⟨m, before, hbefore, hcols, (Option.some.inj hb).symm⟩
  · intro e w' hw'
    dsimp only
    split_ifs
    · exact pure_keeps hw' fun base hb => by cases hb
    · exact Prog.keeps_raise hw'

theorem planRound_keeps (hcols : ∀ name ∈ keyColumns, name ∈ src.current.columns)
    (hkeys : (src.current.rows.map (keyOf pd src.current.columns)).Nodup) (hw : I w)
    (hbase : ∀ e ∈ base, ∀ part, loadAt pd w e = .ok part → part.columns = src.current.columns) :
    keeps Does I (planRound pd src ((src.current.rows.map (keyOf pd src.current.columns)).map pd.hash)
        (src.current.rows.map pd.hash) (some base))
      (fun out w' => ∀ plan, out = some plan → w' = w ∧ ∃ parts, base.mapM (loadAt pd w) = .ok parts ∧
        plan = (base, ⟨src.current.columns, Delta.changed (parts.flatMap (·.rows)) src.current.rows⟩,
          ⟨keyColumns, Delta.gone (keyOf pd src.current.columns) (parts.flatMap (·.rows)) src.current.rows⟩)) w := by
  refine attempt_keeps (diff_keeps hcols hkeys hw hbase) ?_ ?_
  · rintro out w' hw' ⟨rfl, parts, hparts, hpatch, hdeletes⟩
    refine pure_keeps hw' fun plan hp => ⟨rfl, parts, hparts, ?_⟩
    split_ifs at hp
    rw [← Option.some.inj hp, hpatch, hdeletes]
  · intro e w' hw'
    dsimp only
    split_ifs
    · exact pure_keeps hw' fun plan hp => by cases hp
    · exact Prog.keeps_raise hw'

/-- **A round**, with the base of the manifest the export began with, or with a new one. -/
theorem exportRound_keeps (hm : Monolith pd src.current) (hcols : ∀ name ∈ keyColumns, name ∈ src.current.columns)
    (hw : Sound pd src.current w₀ w) (old : Option (List (OffsiteFile Digest)))
    (hold : ∀ base, old = some base → (src.current.rows.map (keyOf pd src.current.columns)).Nodup ∧ w = w₀ ∧
      ∃ m before, w₀.manifest = some (some (m, before)) ∧ m.columns = src.current.columns ∧ base = m.base)
    (written : List (RelPath Digest)) :
    keeps Does (Sound pd src.current w₀)
      (exportRound pd src ((src.current.rows.map (keyOf pd src.current.columns)).map pd.hash)
        (src.current.rows.map pd.hash) old written)
      (fun out w' => ∀ report, out = .inr report → Restores pd src.current w') w := by
  cases old with
  | none =>
    refine bind_keeps (pure_keeps (φ := fun plan _ => plan = none) hw rfl) ?_
    rintro - w' hw' rfl
    exact rebase_keeps hm hcols hw' written
  | some base =>
    obtain ⟨hkeys, rfl, m, before, hman, hmc, rfl⟩ := hold base rfl
    have hnamed : ∀ e ∈ m.base, e.kind = .base ∧ e.relpath.digest = e.md5 ∧
        ∃ part : Frame Cell, part.columns = src.current.columns ∧ e.md5 = pd.md5 (pd.write part) := by
      intro e he
      obtain ⟨hef, hek⟩ := List.mem_filter.1 he
      rw [decide_eq_true_eq] at hek
      obtain ⟨hd, hpart⟩ := hw.form m before hman e hef
      rw [← hmc]
      exact ⟨hek, hd, hpart hek⟩
    have hcolumns : ∀ e ∈ m.base, ∀ part, loadAt pd w e = .ok part → part.columns = src.current.columns := by
      intro e he part hl
      obtain ⟨-, -, part₀, hpc, hmd⟩ := hnamed e he
      obtain ⟨b, -, hb, hread, -⟩ := loadAt_eq_ok.1 hl
      have hbw : b = pd.write part₀ := pd.md5_inj (hb.trans hmd)
      rw [hbw, pd.read_write] at hread
      rw [← Option.some.inj hread]
      exact hpc
    refine bind_keeps (planRound_keeps hcols hkeys hw hcolumns) ?_
    intro plan w' hw' hplan
    cases plan with
    | none => exact rebase_keeps hm hcols hw' written
    | some plan =>
      obtain ⟨rfl, parts, hparts, rfl⟩ := hplan plan rfl
      have hready : Ready pd w' src m.base parts
          ⟨src.current.columns, Delta.changed (parts.flatMap (·.rows)) src.current.rows⟩
          ⟨keyColumns, Delta.gone (keyOf pd src.current.columns) (parts.flatMap (·.rows)) src.current.rows⟩ := by
        refine ⟨fun e he => (hnamed e he).1, fun e he => (hnamed e he).2, hparts, fun part hp => ?_, rfl, rfl, fun k hk => ?_⟩
        · obtain ⟨e, he, hl⟩ := (Exc.mem_of_mapM_eq_ok hparts).1 hp
          exact hcolumns e he part hl
        · obtain ⟨⟨r, -, rfl⟩, -⟩ := Delta.mem_gone.1 hk
          exact keyOf_keyOf _ r
      exact publishRound_keeps hready hm hcols hw'
        (fun honce => Delta.patched_perm hkeys (honce m before parts hman hparts)) false _

end rounds

/-! ## The export -/

theorem hashes_ok {current : Frame Cell} {hs : List Nat × List Nat} (h : hashes pd current = .ok hs) :
    (∀ name ∈ keyColumns, name ∈ current.columns) ∧
      hs = ((current.rows.map (keyOf pd current.columns)).map pd.hash, current.rows.map pd.hash) := by
  unfold hashes keyFrame at h
  split_ifs at h with hcols
  · exact ⟨hcols, (Except.ok.inj h).symm⟩
  · rw [Exc.error_bind] at h
    cases h

/-- **An export keeps what there is until it restores the current frame**, and restores it when it returns. -/
theorem exportOffsiteForm_keeps {src : Source Cell} (hm : Monolith pd src.current) (hw : Form pd w) :
    keeps Does (Sound pd src.current w) (exportOffsiteForm pd src) (fun _ => Restores pd src.current) w := by
  have hsound : Sound pd src.current w w := ⟨hw, fun _ => .inl (.refl w)⟩
  refine bind_keeps (ofExcept_keeps hsound) ?_
  rintro hs w₁ hw₁ ⟨rfl, hhs⟩
  obtain ⟨hcols, rfl⟩ := hashes_ok hhs
  have hround : ∀ first again : List (RelPath Digest) ⊕ ExportReport Digest → Program Cell Payload Digest (ExportReport Digest),
      (∀ report, first (.inr report) = pure report) →
      (∀ written, first (.inl written) = exportRound pd src ((src.current.rows.map (keyOf pd src.current.columns)).map pd.hash)
        (src.current.rows.map pd.hash) none written >>= again) →
      (∀ report, again (.inr report) = pure report) → (∀ written, again (.inl written) = .raise .assertion) →
      ∀ old w', Sound pd src.current w₁ w' →
      (∀ base, old = some base → (src.current.rows.map (keyOf pd src.current.columns)).Nodup ∧ w' = w₁ ∧
        ∃ m before, w₁.manifest = some (some (m, before)) ∧ m.columns = src.current.columns ∧ base = m.base) →
      keeps Does (Sound pd src.current w₁)
        (exportRound pd src ((src.current.rows.map (keyOf pd src.current.columns)).map pd.hash)
          (src.current.rows.map pd.hash) old [] >>= first) (fun _ => Restores pd src.current) w' := by
    intro first again hfirst hforced hdone hraised old w' hw' hold
    refine bind_keeps (exportRound_keeps hm hcols hw' old hold []) (fun out w₂ hw₂ hout => ?_)
    cases out with
    | inr report =>
      rw [hfirst]
      exact pure_keeps hw₂ (hout report rfl)
    | inl written =>
      rw [hforced]
      refine bind_keeps (exportRound_keeps hm hcols hw₂ none (fun base hb => by cases hb) written) (fun out w₃ hw₃ hout => ?_)
      cases out with
      | inr report =>
        rw [hdone]
        exact pure_keeps hw₃ (hout report rfl)
      | inl _ =>
        rw [hraised]
        exact Prog.keeps_raise hw₃
  dsimp only
  by_cases hnodup : ((src.current.rows.map (keyOf pd src.current.columns)).map pd.hash).Nodup
  · rw [if_pos hnodup]
    refine bind_keeps (usableBase_keeps src.current.columns hw₁) (fun old w' hw' hold => ?_)
    refine hround _ _ (fun _ => rfl) (fun _ => rfl) (fun _ => rfl) (fun _ => rfl) old w' hw' (fun base hb => ?_)
    exact ⟨hnodup.of_map _, hold base hb⟩
  · rw [if_neg hnodup]
    refine bind_keeps (pure_keeps (φ := fun old _ => old = none) hw₁ rfl) ?_
    rintro - w' hw' rfl
    exact hround _ _ (fun _ => rfl) (fun _ => rfl) (fun _ => rfl) (fun _ => rfl) none _ hw' (fun base hb => by cases hb)

/-! ## Exports, one after another -/

variable (pd) in
/-- An export, ended or cut; anything that happens to the files; a manifest that is lost. -/
inductive Step : World Cell Payload Digest → World Cell Payload Digest → Prop where
  | exports (src : Source Cell) (monolith : Monolith pd src.current) (w w' : World Cell Payload Digest)
    (run : Reach Does (exportOffsiteForm pd src) w w') : Step w w'
  | damage (w : World Cell Payload Digest) (files : RelPath Digest → Option Payload) : Step w { w with files }
  | lose (w : World Cell Payload Digest) (text : Option (Option (OffsiteManifest Digest × Frame Cell)))
    (unreadable : text = none ∨ text = some none) : Step w { w with manifest := text }

variable (pd) in
/-- The directories that exports leave, whatever happens to their files in between. -/
def forms : System (World Cell Payload Digest) where
  start w := w.manifest = none ∨ w.manifest = some none
  step := Step pd

theorem form_of_unreadable (h : w.manifest = none ∨ w.manifest = some none) : Form pd w := by
  intro m current hm
  rcases h with h | h <;> rw [h] at hm <;> cases hm

theorem forms_form : (forms pd).Always (Form pd) := by
  refine System.Inductive.always ⟨fun w hw => form_of_unreadable hw, fun w w' hw hstep => ?_⟩
  cases hstep with
  | exports src monolith w w' run =>
    have hkeeps := exportOffsiteForm_keeps monolith hw
    exact (Prog.keeps_reach hkeeps ⟨hw, fun _ => .inl (.refl w)⟩ run).form
  | damage w files => exact hw
  | lose w text unreadable => exact form_of_unreadable unreadable

/-- Files are the frames they hold, and their own digests. -/
private def plainPandas : Pandas Nat (Frame Nat) (Frame Nat) where
  nan := 0
  write := id
  read := some
  read_write _ := rfl
  size _ := 0
  md5 := id
  md5_inj := Function.injective_id
  hash := Encodable.encode
  hash_inj := Encodable.encode_injective
  month c := some (c / 100)
  int32 := some
  int32_idem _ _ _ := rfl
  float32 := id
  float32_idem _ := rfl
  int64 := some
  int64_idem _ _ _ := rfl
  le a b := decide (a ≤ b)

/-- Every call succeeds, but for listing the directory. -/
private def succeeds : (op : Op Nat (Frame Nat) (Frame Nat)) → World Nat (Frame Nat) (Frame Nat) →
    Ret Nat op × World Nat (Frame Nat) (Frame Nat)
  | .readBytes p, w => (w.files p, w)
  | .isFile p, w => ((w.files p).isSome, w)
  | .readManifest, w => (w.manifest.map (·.map Prod.fst), w)
  | .writeBytes p b, w => (true, w.put p b)
  | .writeManifest m current, w => (true, { w with manifest := some (some (m, current)) })
  | .unlink p, w => (true, w.drop p)
  | .rmdirs, w => (true, w)
  | .list, w => (none, w)

private theorem does_succeeds (op : Op Nat (Frame Nat) (Frame Nat)) (w : World Nat (Frame Nat) (Frame Nat)) :
    Does op w (succeeds op w).1 (succeeds op w).2 := by
  cases op with
  | readBytes p => exact ⟨rfl, .inl rfl⟩
  | isFile p => exact ⟨rfl, rfl⟩
  | readManifest => exact ⟨rfl, .inl rfl⟩
  | writeBytes p b => exact rfl
  | writeManifest m current => exact rfl
  | unlink p => exact rfl
  | rmdirs => exact rfl
  | list => exact ⟨rfl, fun _ h => by cases h⟩

/-- The closes of one symbol on one day. -/
private def closes (prices : List Nat) : Source Nat where
  sha256 := "sha"
  current := ⟨["symbol", "date", "close"], prices.map fun price => [1, 2, price]⟩
  exceeds n rows := decide (2 * rows < 100 * n)

private def noForm : World Nat (Frame Nat) (Frame Nat) := ⟨fun _ => none, none⟩

/-- A key with two rows was exported. -/
private def repeated : World Nat (Frame Nat) (Frame Nat) :=
  (Prog.afterCalls succeeds 7 (exportOffsiteForm plainPandas (closes [10, 20])) noForm).2

/-- One of the rows is gone, and its export was cut behind its first manifest. -/
private def unverified : World Nat (Frame Nat) (Frame Nat) :=
  (Prog.afterCalls succeeds 7 (exportOffsiteForm plainPandas (closes [10])) repeated).2

private theorem closes_monolith (prices : List Nat) (h : downcastPriceHistoryFrame plainPandas (closes prices).current =
    .ok (closes prices).current) : Monolith plainPandas (closes prices).current := ⟨_, h⟩

private theorem repeated_reach :
    Reach Does (exportOffsiteForm plainPandas (closes [10, 20])) noForm repeated :=
  Prog.reach_afterCalls does_succeeds 7 _ _

private theorem noForm_reachable : (forms plainPandas).Reachable noForm := ⟨noForm, .inl rfl, .refl⟩

private theorem repeated_reachable : (forms plainPandas).Reachable repeated :=
  noForm_reachable.step
    (.exports (closes [10, 20]) (closes_monolith _ (by decide +kernel)) noForm repeated repeated_reach)

private theorem repeated_restores : Restores plainPandas (closes [10, 20]).current repeated := by
  have hform : Form plainPandas noForm := form_of_unreadable (.inl rfl)
  have hkeeps := exportOffsiteForm_keeps (closes_monolith [10, 20] (by decide +kernel)) hform
  rcases (Prog.keeps_reach hkeeps ⟨hform, fun _ => .inl (.refl noForm)⟩ repeated_reach).seen (fun _ _ _ h => by cases h) with
    hg | hr
  · exact absurd (congrArg Option.isSome hg.manifest) (by decide +kernel)
  · exact hr

/-- A manifest with which `rebuild_frame` raises is not intact. -/
private theorem not_intact {w : World Nat (Frame Nat) (Frame Nat)} (hman : w.manifest.map Option.isSome = some true)
    (hraises : (Prog.run onDisk (rebuildFrame plainPandas) w).1.isOk = false) : ¬ Intact plainPandas w := by
  intro h
  rcases hm : w.manifest with _ | _ | ⟨m, current⟩
  · rw [hm] at hman
    cases hman
  · rw [hm] at hman
    cases hman
  · obtain ⟨-, -, -, g, hg, -⟩ := h m current hm
    rw [hg] at hraises
    cases hraises

end PriceForm
