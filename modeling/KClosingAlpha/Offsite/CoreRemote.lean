import KClosingAlpha.Lib.Session
import KClosingAlpha.Offsite.CoreSnapshot
import KClosingAlpha.Offsite.PriceRebuild
import Mathlib.Logic.Function.Basic
/-!
# CoreRemote — the project, the remote, and what a call may do to them

An answer of `rclone` with exit code zero is right and its effect whole; any other, or none, leaves an effect that is
partial.  Copies are immutable: they add files, or fail.  A listing says that a directory is not found only when it is not
there.  The others change the core files and the form, and nothing on the remote.
-/
set_option linter.unusedSectionVars false

namespace CoreSnapshot

open PriceForm (Frame Kind RelPath OffsiteFile OffsiteManifest)
open Prog (Exec)

variable {Cell Payload Digest : Type}

/-- What happened to the dated directories. -/
inductive Event (Cell Payload Digest : Type) where
  | copied (day : Day) (staging : Dir Cell Payload Digest) (ok : Bool)
  | purged (day : Day)

structure World (Cell Payload Digest : Type) where
  core : List (String × Payload)
  form : PriceForm.World Cell Payload Digest
  days : List Day
  dir : Day → Dir Cell Payload Digest
  blobs : RelPath Digest → Option Payload
  log : List (Event Cell Payload Digest)

namespace World

variable (w : World Cell Payload Digest)

/-- A dated directory; empty when it is not there. -/
def dirAt (day : Day) : Dir Cell Payload Digest := if day ∈ w.days then w.dir day else .empty

def tell (e : Event Cell Payload Digest) : World Cell Payload Digest := { w with log := w.log ++ [e] }

end World

/-! ## Copies -/

/-- Nothing that was there has changed, and what is new is staged. -/
structure Dir.Within (old staging new : Dir Cell Payload Digest) : Prop where
  files : ∀ p, new.files p = old.files p ∨ old.files p = none ∧ new.files p = staging.files p
  form : new.form = old.form ∨ old.form = none ∧ new.form = staging.form
  manifest : new.manifest = old.manifest ∨ old.manifest = none ∧ new.manifest = staging.manifest

/-- Everything that is staged is there. -/
structure Dir.Holds (staging d : Dir Cell Payload Digest) : Prop where
  files : ∀ p b, staging.files p = some b → d.files p = some b
  form : ∀ t, staging.form = some t → d.form = some t
  manifest : ∀ t, staging.manifest = some t → d.manifest = some t

/-- Some of it is gone. -/
structure Dir.Rest (old new : Dir Cell Payload Digest) : Prop where
  files : ∀ p, new.files p = old.files p ∨ new.files p = none
  form : new.form = old.form ∨ new.form = none
  manifest : new.manifest = old.manifest ∨ new.manifest = none

/-- Exit code zero. -/
def succeeded {α : Type} : Option (Completed α) → Bool
  | some c => decide (c.returncode = 0)
  | none => false

/-- The dated directory after a copy: nothing was done, or it is there with what was copied. -/
inductive Copied (w : World Cell Payload Digest) (day : Day) (staging : Dir Cell Payload Digest) :
    Bool → World Cell Payload Digest → Prop where
  | nothing : Copied w day staging false w
  | entered (ok : Bool) (new : Dir Cell Payload Digest) (within : (w.dirAt day).Within staging new)
      (whole : ok = true → staging.Holds new) :
      Copied w day staging ok { w with days := w.days.insert day, dir := Function.update w.dir day new }

/-- The dated directories after a purge: one is gone, or some of it may be. -/
inductive Purged (w : World Cell Payload Digest) (day : Day) : Bool → World Cell Payload Digest → Prop where
  | gone (ok : Bool) : Purged w day ok { w with days := w.days.filter (· ≠ day) }
  | rest (new : Dir Cell Payload Digest) (rest : (w.dir day).Rest new) :
      Purged w day false { w with dir := Function.update w.dir day new }

theorem Copied.log {w w' : World Cell Payload Digest} {day : Day} {staging : Dir Cell Payload Digest} {ok : Bool}
    (h : Copied w day staging ok w') : w'.log = w.log := by cases h <;> rfl

theorem Copied.form {w w' : World Cell Payload Digest} {day : Day} {staging : Dir Cell Payload Digest} {ok : Bool}
    (h : Copied w day staging ok w') : w'.form = w.form := by cases h <;> rfl

theorem Purged.log {w w' : World Cell Payload Digest} {day : Day} {ok : Bool} (h : Purged w day ok w') : w'.log = w.log := by
  cases h <;> rfl

theorem Purged.form {w w' : World Cell Payload Digest} {day : Day} {ok : Bool} (h : Purged w day ok w') :
    w'.form = w.form := by cases h <;> rfl

/-! ## The calls -/

/-- What a call may do, and answer. -/
def Does (pd : PriceForm.Pandas Cell Payload Digest) (reader : Reader Payload) :
    Exec (Op Cell Payload Digest) Ret (World Cell Payload Digest)
  | .rglob dir, w, r, w' => w' = w ∧ r = (w.core.map Prod.fst).filter (fun p => (below dir p).isSome)
  | .isFile p, w, r, w' => w' = w ∧ r = (w.core.lookup p).isSome
  | .digest p, w, r, w' => w' = w ∧ (r = none ∨ ∃ b, w.core.lookup p = some b ∧ r = some (pd.size b, reader.sha256 b))
  | .numRows p, w, r, w' => w' = w ∧ (r = none ∨ ∃ b, w.core.lookup p = some b ∧ r = reader.numRows b)
  | .maxDate p column, w, r, w' => w' = w ∧ (r = none ∨ ∃ b, w.core.lookup p = some b ∧ r = reader.maxDate b column)
  | .readFormManifest, w, r, w' => w' = w ∧ (r = none ∨ r = w.form.manifest.map (·.map Prod.fst))
  | .formSize p, w, r, w' => w' = w ∧ (r = none ∨ r = (w.form.files p).map pd.size)
  | .copyCore entry, w, r, w' => w' = w ∧ (r = none ∨ r = w.core.lookup entry.relpath)
  | .copyForm p, w, r, w' => w' = w ∧ (r = none ∨ r = w.form.files p)
  | .copyFormManifest _, w, r, w' => w' = w ∧ (r = none ∨ r = w.form.manifest)
  | .lsfDirs, w, r, w' => w' = w ∧ ∀ c : Completed (List String), r = some c →
      (c.returncode = 0 → (∀ day ∈ w.days, day.name ++ "/" ∈ c.stdout) ∧
        ∀ line ∈ c.stdout, (∃ day ∈ w.days, line = day.name ++ "/") ∨ line = "_blobs/") ∧
      (c.returncode ≠ 0 → saysNotFound c.stderr = true ∨ c.returncode = 3 → w.days = [])
  | .cat day, w, r, w' => w' = w ∧ ∀ c : Completed (List Char), r = some c →
      c.returncode = 0 → (w.dirAt day).manifest = some c.stdout
  | .lsfBlobs, w, r, w' => w' = w ∧ ∀ c : Completed (List (RelPath Digest)), r = some c →
      (c.returncode = 0 → ∀ p, p ∈ c.stdout ↔ w.blobs p ≠ none) ∧ (c.returncode = 3 → ∀ p, w.blobs p = none)
  | .lsfForm day, w, r, w' => w' = w ∧ ∀ c : Completed Bool, r = some c →
      (c.returncode = 0 → c.stdout = (w.dirAt day).form.isSome) ∧ (c.returncode = 3 → (w.dirAt day).form = none)
  | .catForm day, w, r, w' => w' = w ∧ ∀ c : Completed (Option (OffsiteManifest Digest)), r = some c →
      c.returncode = 0 → (w.dirAt day).form.map (·.map Prod.fst) = some c.stdout
  | .copyBlobs blobs, w, r, w' => ∃ new, w' = { w with blobs := new } ∧
      (∀ p, new p = w.blobs p ∨ w.blobs p = none ∧ ∃ b, (p, b) ∈ blobs ∧ new p = some b) ∧
      (succeeded r = true → ∀ p b, (p, b) ∈ blobs → new p = some b)
  | .copy day staging, w, r, w' => ∃ w₁, Copied w day staging (succeeded r) w₁ ∧ w' = w₁.tell (.copied day staging (succeeded r))
  | .purge day, w, r, w' => ∃ w₁, Purged w day (succeeded r) w₁ ∧ w' = w₁.tell (.purged day)
  | .deleteBlobs stale, w, r, w' => ∃ new, w' = { w with blobs := new } ∧
      (∀ p, new p = w.blobs p ∨ p ∈ stale ∧ new p = none) ∧ (succeeded r = true → ∀ p ∈ stale, new p = none)

/-- A call that only reads. -/
def Op.isRead : Op Cell Payload Digest → Bool
  | .copyBlobs _ | .copy _ _ | .purge _ | .deleteBlobs _ => false
  | _ => true

theorem Does.of_isRead {pd : PriceForm.Pandas Cell Payload Digest} {reader : Reader Payload} {op : Op Cell Payload Digest}
    {w w' : World Cell Payload Digest} {r : Ret op} (h : Does pd reader op w r w') (hop : op.isRead = true) : w' = w := by
  cases op <;> first | exact h.1 | cases hop

/-- What others may do. -/
structure Changes (P : PriceForm.World Cell Payload Digest → Prop) (w w' : World Cell Payload Digest) : Prop where
  days : w'.days = w.days
  dir : w'.dir = w.dir
  blobs : w'.blobs = w.blobs
  log : w'.log = w.log
  form : P w.form → P w'.form

variable {P : PriceForm.World Cell Payload Digest → Prop}

theorem Changes.refl (w : World Cell Payload Digest) : Changes P w w := ⟨rfl, rfl, rfl, rfl, id⟩

theorem Changes.trans {w₁ w₂ w₃ : World Cell Payload Digest} (h : Changes P w₁ w₂) (h' : Changes P w₂ w₃) :
    Changes P w₁ w₃ :=
  ⟨h'.days.trans h.days, h'.dir.trans h.dir, h'.blobs.trans h.blobs, h'.log.trans h.log, fun hp => h'.form (h.form hp)⟩

/-- A call whose answer meets a condition. -/
def Meets (C : (op : Op Cell Payload Digest) → World Cell Payload Digest → Ret op → Prop)
    (E : Exec (Op Cell Payload Digest) Ret (World Cell Payload Digest)) :
    Exec (Op Cell Payload Digest) Ret (World Cell Payload Digest) := fun op w r w' => E op w r w' ∧ C op w r

/-! ## Snapshots that are kept -/

/-- The copies that succeeded into directories that no purge was called for since, newest first. -/
def kept (log : List (Event Cell Payload Digest)) : List (Day × Dir Cell Payload Digest) :=
  log.foldl (fun kept e => match e with
    | .copied day staging ok => if ok then (day, staging) :: kept else kept
    | .purged day => kept.filter (fun x => decide (x.1 ≠ day))) []

/-- The last copy that succeeded. -/
def lastUpload (log : List (Event Cell Payload Digest)) : Option (Day × Dir Cell Payload Digest) :=
  log.foldl (fun last e => match e with
    | .copied day staging true => some (day, staging)
    | _ => last) none

@[simp] theorem kept_copied (log : List (Event Cell Payload Digest)) (day : Day) (staging : Dir Cell Payload Digest)
    (ok : Bool) : kept (log ++ [.copied day staging ok]) = if ok then (day, staging) :: kept log else kept log := by
  rw [kept, List.foldl_append]
  rfl

@[simp] theorem kept_purged (log : List (Event Cell Payload Digest)) (day : Day) :
    kept (log ++ [.purged day]) = (kept log).filter (fun x => decide (x.1 ≠ day)) := by
  rw [kept, List.foldl_append]
  rfl

end CoreSnapshot
