import KClosingAlpha.Lib.Exc
import KClosingAlpha.Lib.System
import KClosingAlpha.Offsite.PriceForm
import Mathlib.Data.List.Dedup
/-!
# PriceRebuild — what a directory of the form restores

What `rebuild_frame` gives depends on the manifest and on the files that it lists (`rebuildAt`, `Restores.of_same`).  A
file is named after its content, so a directory to which files are published keeps what it restores (`Grows`).
-/
set_option linter.unusedSectionVars false

namespace PriceForm

open Prog (keeps Reach Ends)

variable {Cell Payload Digest : Type}

/-! ## Frames that are put together again -/

section

variable {pd : Pandas Cell Payload Digest}

@[simp] theorem keyOf_keyOf (columns : List String) (r : List Cell) :
    keyOf pd keyColumns (keyOf pd columns r) = keyOf pd columns r := rfl

/-- A row that was cast stays as it is. -/
theorem castRow_idem : ∀ {names : List String} {r r' : List Cell}, castRow pd names r = some r' →
    castRow pd names r' = some r'
  | [], r, r', h => by
    obtain rfl : [] = r' := Option.some.inj h
    rfl
  | name :: names, [], r', h => by
    obtain rfl : [] = r' := Option.some.inj h
    rfl
  | name :: names, c :: r, r', h => by
    rw [castRow] at h
    obtain ⟨d, hd, h⟩ := Option.bind_eq_some_iff.1 h
    obtain ⟨s, hs, h⟩ := Option.bind_eq_some_iff.1 h
    obtain rfl : d :: s = r' := Option.some.inj h
    have hcell : castCell pd name d = some d := by
      unfold castCell at hd ⊢
      split_ifs at hd ⊢
      · exact pd.int32_idem c d hd
      · rw [← Option.some.inj hd, pd.float32_idem]
      · exact pd.int64_idem c d hd
      · rfl
    rw [castRow, hcell, castRow_idem hs]
    rfl

theorem mapM_of_fixed {f : List Cell → Option (List Cell)} : ∀ {rows : List (List Cell)}, (∀ r ∈ rows, f r = some r) →
    rows.mapM f = some rows
  | [], _ => rfl
  | r :: rows, h => by
    rw [List.mapM_cons, h r List.mem_cons_self, mapM_of_fixed (fun s hs => h s (List.mem_cons_of_mem _ hs))]
    rfl

theorem exists_of_mapM {f : List Cell → Option (List Cell)} : ∀ {rows rows' : List (List Cell)},
    rows.mapM f = some rows' → ∀ r' ∈ rows', ∃ r, f r = some r'
  | [], rows', h, r', hr => by
    obtain rfl : [] = rows' := Option.some.inj h
    cases hr
  | r :: rows, rows', h, r', hr => by
    rw [List.mapM_cons] at h
    obtain ⟨s, hs, h⟩ := Option.bind_eq_some_iff.1 h
    obtain ⟨ss, hss, h⟩ := Option.bind_eq_some_iff.1 h
    obtain rfl : s :: ss = rows' := Option.some.inj h
    rcases List.mem_cons.1 hr with rfl | hr
    · exact ⟨r, hs⟩
    · exact exists_of_mapM hss r' hr

/-- **The rows of a monolith, in any order, are written as they are.** -/
theorem downcast_perm {current : Frame Cell} (hm : Monolith pd current) {rows : List (List Cell)}
    (h : rows.Perm current.rows) :
    ∃ g, downcastPriceHistoryFrame pd ⟨current.columns, rows⟩ = .ok g ∧ g.columns = current.columns ∧
      g.rows.Perm current.rows := by
  obtain ⟨f, hf⟩ := hm
  unfold downcastPriceHistoryFrame at hf
  cases hcast : f.rows.mapM (castRow pd f.columns) with
  | none =>
    rw [hcast] at hf
    cases hf
  | some cast =>
    rw [hcast] at hf
    obtain rfl := Except.ok.inj hf
    have hfixed : rows.mapM (castRow pd f.columns) = some rows := by
      refine mapM_of_fixed (fun r hr => ?_)
      obtain ⟨r', hr'⟩ := exists_of_mapM hcast r ((List.perm_insertionSort _ _).mem_iff.1 (h.mem_iff.1 hr))
      exact castRow_idem hr'
    refine ⟨⟨f.columns, rows.insertionSort (fun r s => rowLe pd f.columns r s = true)⟩, ?_, rfl, ?_⟩
    · simp only [downcastPriceHistoryFrame, hfixed]
    · exact (List.perm_insertionSort _ _).trans h

theorem concat_of_columns {columns : List String} : ∀ {fs : List (Frame Cell)}, fs ≠ [] →
    (∀ f ∈ fs, f.columns = columns) → concat pd fs = ⟨columns, fs.flatMap (·.rows)⟩
  | [], h, _ => absurd rfl h
  | f :: fs, _, h => by
    have hf := h f List.mem_cons_self
    rw [concat, if_pos (fun g hg => (h g (List.mem_cons_of_mem _ hg)).trans hf.symm), hf]

variable [DecidableEq Cell]

/-- **Parts, a patch and deletes that stand for the current rows are put together to them.** -/
theorem assemble_ok {current : Frame Cell} (hm : Monolith pd current) (hkeys : ∀ name ∈ keyColumns, name ∈ current.columns)
    {m : OffsiteManifest Digest} (hcolumns : m.columns = current.columns) (hrows : m.rows = current.rows.length)
    {parts : List (Frame Cell)} {patch deletes : Frame Cell} (hparts : ∀ part ∈ parts, part.columns = current.columns)
    (hpatch : patch.columns = current.columns) (hdeletes : deletes.columns = keyColumns)
    (hkey : ∀ k ∈ deletes.rows, keyOf pd keyColumns k = k)
    (h : (Delta.patched (keyOf pd current.columns) (parts.flatMap (·.rows)) patch.rows deletes.rows).Perm current.rows) :
    ∃ g, assemble pd m parts patch deletes = .ok g ∧ g.columns = current.columns ∧ g.rows.Perm current.rows := by
  have hbase : (if parts = [] then (⟨patch.columns, []⟩ : Frame Cell) else concat pd parts) =
      ⟨current.columns, parts.flatMap (·.rows)⟩ := by
    split_ifs with hp
    · rw [hp, hpatch]
      rfl
    · exact concat_of_columns hp hparts
  have hpk : keyFrame pd patch = .ok ⟨keyColumns, patch.rows.map (keyOf pd current.columns)⟩ := by
    rw [keyFrame, hpatch, if_pos hkeys]
  have hdk : keyFrame pd deletes = .ok ⟨keyColumns, deletes.rows⟩ := by
    rw [keyFrame, hdeletes, if_pos (fun _ hn => hn), List.map_congr_left hkey, List.map_id']
  have hbk : keyFrame pd (⟨current.columns, parts.flatMap (·.rows)⟩ : Frame Cell) =
      .ok ⟨keyColumns, (parts.flatMap (·.rows)).map (keyOf pd current.columns)⟩ := by
    rw [keyFrame, if_pos hkeys]
  have hframe : concat pd [⟨current.columns, (parts.flatMap (·.rows)).filter (fun r =>
      decide (keyOf pd current.columns r ∉ patch.rows.map (keyOf pd current.columns) ++ deletes.rows))⟩, patch] =
      ⟨current.columns, Delta.patched (keyOf pd current.columns) (parts.flatMap (·.rows)) patch.rows deletes.rows⟩ := by
    have hall : ∀ f ∈ [⟨current.columns, (parts.flatMap (·.rows)).filter (fun r =>
        decide (keyOf pd current.columns r ∉ patch.rows.map (keyOf pd current.columns) ++ deletes.rows))⟩, patch],
        f.columns = current.columns := by simp [hpatch]
    rw [concat_of_columns (List.cons_ne_nil _ _) hall]
    simp [Delta.patched]
  obtain ⟨g, hg, hgc, hgr⟩ := downcast_perm hm h
  refine ⟨g, ?_, hgc, hgr⟩
  unfold assemble
  rw [hbase, hpk, hdk, Exc.ok_bind, Exc.ok_bind, hbk, Exc.ok_bind]
  dsimp only
  rw [hframe, if_neg (by simp [hcolumns, hrows, h.length_eq])]
  exact hg

end

/-! ## The directory of the form -/

/-- The files, and the manifest if there is one that can be read, with the frame that was current when it was made. -/
structure World (Cell Payload Digest : Type) where
  files : RelPath Digest → Option Payload
  manifest : Option (Option (OffsiteManifest Digest × Frame Cell))

/-- The answers where no read fails, for a program that only reads. -/
def onDisk : (op : Op Cell Payload Digest) → World Cell Payload Digest → Ret Cell op × World Cell Payload Digest
  | .readBytes p, w => (w.files p, w)
  | .isFile p, w => ((w.files p).isSome, w)
  | .readManifest, w => (w.manifest.map (·.map Prod.fst), w)
  | .writeBytes _ _, w | .writeManifest _ _, w | .unlink _, w | .rmdirs, w => (false, w)
  | .list, w => (none, w)

theorem run_ofExcept {α : Type} {w : World Cell Payload Digest} (x : Except Exn α) :
    Prog.run onDisk (Prog.ofExcept x : Program Cell Payload Digest α) w = (x, w) := by cases x <;> rfl

def manifestAt (w : World Cell Payload Digest) : Except Exn (OffsiteManifest Digest) :=
  match w.manifest with
  | none => .error .os
  | some text => parseManifest (text.map Prod.fst)

theorem run_readManifest {w : World Cell Payload Digest} :
    Prog.run onDisk (readManifest : Program Cell Payload Digest _) w = (manifestAt w, w) := by
  obtain ⟨files, manifest⟩ := w
  cases manifest with
  | none => rfl
  | some text => exact run_ofExcept _

section

variable [DecidableEq Digest]

def World.put (w : World Cell Payload Digest) (p : RelPath Digest) (b : Payload) : World Cell Payload Digest :=
  { w with files := fun q => if q = p then some b else w.files q }

def World.drop (w : World Cell Payload Digest) (p : RelPath Digest) : World Cell Payload Digest :=
  { w with files := fun q => if q = p then none else w.files q }

/-- What a call may do.  A read may fail; a write, a removal or the clearing of directories that fails does nothing. -/
def Does : Prog.Exec (Op Cell Payload Digest) (Ret Cell) (World Cell Payload Digest)
  | .readBytes p, w, r, w' => w' = w ∧ (r = w.files p ∨ r = none)
  | .isFile p, w, r, w' => w' = w ∧ r = (w.files p).isSome
  | .writeBytes p b, w, true, w' => w' = w.put p b
  | .readManifest, w, r, w' => w' = w ∧ (r = w.manifest.map (·.map Prod.fst) ∨ r = none)
  | .writeManifest m current, w, true, w' => w' = { w with manifest := some (some (m, current)) }
  | .list, w, r, w' => w' = w ∧ ∀ ps : List (RelPath Digest), r = some ps → ∀ p, p ∈ ps ↔ (w.files p).isSome = true
  | .unlink p, w, true, w' => w' = w.drop p
  | .writeBytes _ _, w, false, w' | .writeManifest _ _, w, false, w' | .unlink _, w, false, w' => w' = w
  | .rmdirs, w, _, w' => w' = w

variable (pd : Pandas Cell Payload Digest)

/-! ## What is loaded -/

/-- What `_load` gives. -/
def loadAt (w : World Cell Payload Digest) (entry : OffsiteFile Digest) : Except Exn (Frame Cell) :=
  match w.files entry.relpath with
  | none => .error .os
  | some payload =>
    if pd.md5 payload ≠ entry.md5 then .error (.value "md5 mismatch")
    else match pd.read payload with
      | none => .error (.value "not a parquet file")
      | some frame => if frame.rows.length ≠ entry.rows then .error (.value "row count mismatch") else .ok frame

def nextAt (w : World Cell Payload Digest) (kind : Kind) (m : OffsiteManifest Digest) : Except Exn (Frame Cell) :=
  match m.files.find? (fun f => decide (f.kind = kind)) with
  | none => .error .stopIteration
  | some entry => loadAt pd w entry

variable {pd} {w : World Cell Payload Digest} {entry : OffsiteFile Digest}

theorem loadAt_eq_ok {part : Frame Cell} : loadAt pd w entry = .ok part ↔
    ∃ b, w.files entry.relpath = some b ∧ pd.md5 b = entry.md5 ∧ pd.read b = some part ∧ part.rows.length = entry.rows := by
  unfold loadAt
  cases hb : w.files entry.relpath with
  | none => simp
  | some b =>
    by_cases hmd : pd.md5 b = entry.md5
    · cases hread : pd.read b with
      | none => simp [hmd, hread]
      | some frame =>
        by_cases hrows : frame.rows.length = entry.rows
        · simp only [hmd, hread, hrows, ne_eq, not_true_eq_false, if_false, Except.ok.injEq, Option.some.injEq]
          constructor
          · rintro rfl
            exact ⟨b, rfl, hmd, hread, hrows⟩
          · rintro ⟨b', rfl, -, h, -⟩
            exact Option.some.inj (hread.symm.trans h)
        · simp only [hmd, hread, hrows, ne_eq, not_true_eq_false, not_false_eq_true, if_true, if_false, reduceCtorEq,
            false_iff, Option.some.injEq]
          rintro ⟨b', rfl, -, h, h'⟩
          obtain rfl : frame = part := Option.some.inj (hread.symm.trans h)
          exact hrows h'
    · simp only [hmd, ne_eq, not_false_eq_true, if_true, reduceCtorEq, false_iff, Option.some.injEq]
      rintro ⟨b', rfl, h, -⟩
      exact hmd h

theorem run_load : Prog.run onDisk (load pd entry) w = (loadAt pd w entry, w) := by
  change Prog.run onDisk (match w.files entry.relpath with
    | none => _
    | some payload => _) w = _
  unfold loadAt
  cases w.files entry.relpath with
  | none => rfl
  | some b =>
    dsimp only
    split_ifs
    · rfl
    · cases pd.read b with
      | none => rfl
      | some frame =>
        dsimp only
        split_ifs <;> rfl

theorem run_loadAll (w : World Cell Payload Digest) : ∀ entries : List (OffsiteFile Digest),
    Prog.run onDisk (loadAll pd entries) w = (entries.mapM (loadAt pd w), w)
  | [] => rfl
  | entry :: entries => by
    rw [loadAll, Prog.bind_eq, Prog.run_bind, run_load, List.mapM_cons]
    cases loadAt pd w entry with
    | error e => rfl
    | ok part =>
      dsimp only
      rw [Prog.bind_eq, Prog.run_bind, run_loadAll w entries, Exc.ok_bind]
      cases entries.mapM (loadAt pd w) <;> rfl

theorem run_loadNext (kind : Kind) (m : OffsiteManifest Digest) :
    Prog.run onDisk (loadNext pd kind m) w = (nextAt pd w kind m, w) := by
  unfold loadNext nextAt
  cases m.files.find? (fun f => decide (f.kind = kind)) with
  | none => rfl
  | some entry => exact run_load

variable [DecidableEq Cell]

variable (pd) in
/-- What `rebuild_frame` gives. -/
def rebuildAt (w : World Cell Payload Digest) : Except Exn (Frame Cell) := do
  let m ← manifestAt w
  let parts ← m.base.mapM (loadAt pd w)
  let patch ← nextAt pd w .patch m
  let deletes ← nextAt pd w .deletes m
  assemble pd m parts patch deletes

/-- **What `rebuild_frame` gives, as a function of the directory.** -/
theorem run_rebuildFrame : Prog.run onDisk (rebuildFrame pd) w = (rebuildAt pd w, w) := by
  unfold rebuildFrame rebuildAt
  rw [Prog.bind_eq, Prog.run_bind, run_readManifest]
  cases manifestAt w with
  | error e => rfl
  | ok m =>
    dsimp only
    rw [Prog.bind_eq, Prog.run_bind, run_loadAll, Exc.ok_bind]
    cases m.base.mapM (loadAt pd w) with
    | error e => rfl
    | ok parts =>
      dsimp only
      rw [Prog.bind_eq, Prog.run_bind, run_loadNext, Exc.ok_bind]
      cases nextAt pd w .patch m with
      | error e => rfl
      | ok patch =>
        dsimp only
        rw [Prog.bind_eq, Prog.run_bind, run_loadNext, Exc.ok_bind]
        cases nextAt pd w .deletes m with
        | error e => rfl
        | ok deletes => exact run_ofExcept _

/-! ## What a directory restores -/

variable (pd) in
/-- The manifest lists files that are there, and `rebuild_frame` gives the rows of `current`, which it was made from. -/
def Restores (current : Frame Cell) (w : World Cell Payload Digest) : Prop :=
  ∃ m, w.manifest = some (some (m, current)) ∧ (∀ f ∈ m.files, (w.files f.relpath).isSome = true) ∧
    ∃ g, Prog.run onDisk (rebuildFrame pd) w = (.ok g, w) ∧ g.columns = current.columns ∧ g.rows.Perm current.rows

variable (pd) in
/-- The manifest, if there is one, restores the frame that was current when it was made. -/
def Intact (w : World Cell Payload Digest) : Prop :=
  ∀ m current, w.manifest = some (some (m, current)) → Restores pd current w

variable (pd) in
/-- The files of a manifest are named after their digests, and those of the base are parts of a frame with its columns. -/
def Listed (m : OffsiteManifest Digest) : Prop :=
  ∀ f ∈ m.files, f.relpath.digest = f.md5 ∧
    (f.kind = .base → ∃ part : Frame Cell, part.columns = m.columns ∧ f.md5 = pd.md5 (pd.write part))

variable (pd) in
def Form (w : World Cell Payload Digest) : Prop := ∀ m current, w.manifest = some (some (m, current)) → Listed pd m

variable (pd) in
/-- The manifest is the same, and nothing that could be loaded under its name is lost. -/
structure Grows (w w' : World Cell Payload Digest) : Prop where
  manifest : w'.manifest = w.manifest
  there : ∀ p, (w.files p).isSome = true → (w'.files p).isSome = true
  same : ∀ entry part, entry.relpath.digest = entry.md5 → loadAt pd w entry = .ok part → loadAt pd w' entry = .ok part

theorem Grows.refl (w : World Cell Payload Digest) : Grows pd w w := ⟨rfl, fun _ h => h, fun _ _ _ h => h⟩

theorem Grows.trans {w₁ w₂ w₃ : World Cell Payload Digest} (h : Grows pd w₁ w₂) (h' : Grows pd w₂ w₃) : Grows pd w₁ w₃ :=
  ⟨h'.manifest.trans h.manifest, fun p hp => h'.there p (h.there p hp),
    fun e part hn hl => h'.same e part hn (h.same e part hn hl)⟩

/-- **A file published under its digest replaces nothing that can be loaded.** -/
theorem Grows.put {p : RelPath Digest} {b : Payload} (h : p.digest = pd.md5 b) : Grows pd w (w.put p b) := by
  refine ⟨rfl, fun q hq => ?_, fun entry part hnamed hl => ?_⟩
  · by_cases heq : q = p
    · simp [World.put, heq]
    · simpa [World.put, heq] using hq
  · obtain ⟨b₀, hb, hmd, hread, hrows⟩ := loadAt_eq_ok.1 hl
    refine loadAt_eq_ok.2 ⟨b₀, ?_, hmd, hread, hrows⟩
    by_cases heq : entry.relpath = p
    · have hsame : b = b₀ := by
        apply pd.md5_inj
        rw [hmd, ← hnamed, heq, h]
      simp [World.put, heq, hsame]
    · simpa [World.put, heq] using hb

theorem Grows.form {w' : World Cell Payload Digest} (h : Grows pd w w') (hf : Form pd w) : Form pd w' := by
  intro m current hm
  exact hf m current (by rw [← h.manifest, hm])

theorem mapM_loadAt_of_same {w' : World Cell Payload Digest} : ∀ {entries : List (OffsiteFile Digest)} {parts : List (Frame Cell)},
    (∀ e ∈ entries, ∀ part, loadAt pd w e = .ok part → loadAt pd w' e = .ok part) →
      entries.mapM (loadAt pd w) = .ok parts → entries.mapM (loadAt pd w') = .ok parts
  | [], parts, _, hl => hl
  | e :: entries, parts, h, hl => by
    obtain ⟨part, rest, hp, hr, rfl⟩ := (Exc.mapM_cons_eq_ok _ _ _ _).1 hl
    exact (Exc.mapM_cons_eq_ok _ _ _ _).2 ⟨part, rest, h e List.mem_cons_self part hp,
      mapM_loadAt_of_same (fun e' he => h e' (List.mem_cons_of_mem _ he)) hr, rfl⟩

theorem nextAt_of_same {w' : World Cell Payload Digest} {m : OffsiteManifest Digest}
    (h : ∀ e ∈ m.files, ∀ part, loadAt pd w e = .ok part → loadAt pd w' e = .ok part) {kind : Kind} {part : Frame Cell}
    (hl : nextAt pd w kind m = .ok part) : nextAt pd w' kind m = .ok part := by
  unfold nextAt at hl ⊢
  cases hfind : m.files.find? (fun f => decide (f.kind = kind)) with
  | none =>
    rw [hfind] at hl
    cases hl
  | some entry =>
    rw [hfind] at hl
    exact h entry (List.mem_of_find?_eq_some hfind) part hl

theorem manifestAt_eq_ok {m : OffsiteManifest Digest} (h : manifestAt w = .ok m) :
    ∃ current, w.manifest = some (some (m, current)) := by
  unfold manifestAt parseManifest at h
  rcases hm : w.manifest with _ | _ | ⟨m', current⟩
  · rw [hm] at h
    cases h
  · rw [hm] at h
    cases h
  · rw [hm] at h
    simp only [Option.map_some] at h
    split_ifs at h
    rw [Except.ok.inj h]
    exact ⟨current, rfl⟩

/-- **What a directory restores depends on its manifest and on the files that it lists.** -/
theorem Restores.of_same {current : Frame Cell} {w' : World Cell Payload Digest} (hr : Restores pd current w)
    (hman : w'.manifest = w.manifest)
    (h : ∀ m, w.manifest = some (some (m, current)) → ∀ f ∈ m.files, ((w.files f.relpath).isSome = true →
      (w'.files f.relpath).isSome = true) ∧ ∀ part, loadAt pd w f = .ok part → loadAt pd w' f = .ok part) :
    Restores pd current w' := by
  obtain ⟨m, hm, hthere, g, hg, hgc, hgr⟩ := hr
  refine ⟨m, by rw [hman, hm], fun f hf => (h m hm f hf).1 (hthere f hf), g, ?_, hgc, hgr⟩
  rw [run_rebuildFrame] at hg ⊢
  have hgok : rebuildAt pd w = .ok g := (Prod.mk.inj hg).1
  unfold rebuildAt at hgok
  obtain ⟨m', hm', hgok⟩ := (Exc.bind_eq_ok _ _ _).1 hgok
  obtain ⟨parts, hparts, hgok⟩ := (Exc.bind_eq_ok _ _ _).1 hgok
  obtain ⟨patch, hpatch, hgok⟩ := (Exc.bind_eq_ok _ _ _).1 hgok
  obtain ⟨deletes, hdeletes, hgok⟩ := (Exc.bind_eq_ok _ _ _).1 hgok
  have hmm : manifestAt w' = .ok m' := by
    unfold manifestAt at hm' ⊢
    rw [hman]
    exact hm'
  obtain ⟨before, hbefore⟩ := manifestAt_eq_ok hm'
  obtain rfl : m' = m := (Prod.mk.inj (Option.some.inj (Option.some.inj (hbefore.symm.trans hm)))).1
  have hload : ∀ e ∈ m'.files, ∀ part, loadAt pd w e = .ok part → loadAt pd w' e = .ok part := fun e he => (h m' hm e he).2
  have hbase : m'.base.mapM (loadAt pd w') = .ok parts :=
    mapM_loadAt_of_same (fun e he => hload e (List.mem_filter.1 he).1) hparts
  rw [rebuildAt, hmm, Exc.ok_bind, hbase, Exc.ok_bind, nextAt_of_same hload hpatch, Exc.ok_bind,
    nextAt_of_same hload hdeletes, Exc.ok_bind, hgok]

theorem Restores.grows {current : Frame Cell} {w' : World Cell Payload Digest} (hr : Restores pd current w)
    (hf : Form pd w) (h : Grows pd w w') : Restores pd current w' :=
  hr.of_same h.manifest fun m hm f hfile => ⟨h.there _, fun part => h.same f part (hf m current hm f hfile).1⟩

theorem Intact.grows {w' : World Cell Payload Digest} (hi : Intact pd w) (hf : Form pd w) (h : Grows pd w w') :
    Intact pd w' := fun m current hm => (hi m current (by rw [← h.manifest, hm])).grows hf h

/-! ## A manifest of an export -/

variable (pd) in
/-- The manifest of a round: the base, with the patch and the deletes. -/
def manifestOf (src : Source Cell) (base : List (OffsiteFile Digest)) (patch deletes : Frame Cell) : OffsiteManifest Digest where
  sourceSha256 := src.sha256
  rows := src.current.rows.length
  columns := src.current.columns
  files := base ++ [(entryOf pd .patch .patch patch).1, (entryOf pd .deletes .deletes deletes).1]

section manifestOf

variable {src : Source Cell} {base : List (OffsiteFile Digest)} {patch deletes : Frame Cell}

theorem base_manifestOf (h : ∀ e ∈ base, e.kind = .base) : (manifestOf pd src base patch deletes).base = base := by
  rw [OffsiteManifest.base, manifestOf, List.filter_append, List.filter_eq_self.2 (fun e he => by simp [h e he])]
  simp [entryOf]

theorem nextAt_manifestOf (h : ∀ e ∈ base, e.kind = .base) :
    nextAt pd w .patch (manifestOf pd src base patch deletes) = loadAt pd w (entryOf pd .patch .patch patch).1 ∧
      nextAt pd w .deletes (manifestOf pd src base patch deletes) = loadAt pd w (entryOf pd .deletes .deletes deletes).1 := by
  have hnone : ∀ kind, kind ≠ .base → base.find? (fun f => decide (f.kind = kind)) = none := by
    intro kind hk
    rw [List.find?_eq_none]
    intro e he
    simp [h e he, hk.symm]
  constructor
  · rw [nextAt, manifestOf, List.find?_append, hnone .patch (by decide)]
    rfl
  · rw [nextAt, manifestOf, List.find?_append, hnone .deletes (by decide)]
    rfl

theorem parse_manifestOf (h : ∀ e ∈ base, e.kind = .base) :
    parseManifest (some (manifestOf pd src base patch deletes)) = .ok (manifestOf pd src base patch deletes) := by
  have hzero : base.countP (fun f => decide (f.kind ≠ .base)) = 0 := by
    rw [List.countP_eq_zero]
    intro e he
    simp [h e he]
  rw [parseManifest, if_pos]
  rw [manifestOf, List.countP_append, hzero]
  rfl

end manifestOf

end

end PriceForm
