import KClosingAlpha.Lib.Session
import KClosingAlpha.Py.Lookup
import Mathlib.Data.List.Dedup
/-!
# LedgerUpload — the seal ledgers on the remote (`classify_ledger_files`, `_run_ledger_upload`)

A ledger file whose beginning still hashes to what the last completed upload recorded is sent without a backup
directory, any other changed file with one.  The record is saved only after both batches went through; the remote may be
ahead of it.  The files grow while a run is in progress; between two runs they may change in any way.
-/
namespace Offsite
namespace LedgerUpload

abbrev Bytes := List UInt8

/-- `LEDGER_UPLOAD_STATE_RELPATH`: size and digest of every file at the last completed upload. -/
abbrev UploadState (Digest : Type) := List (String × Nat × Digest)

inductive Raised where
  | os
  | timedOut

inductive Op (Digest : Type) where
  | readState
  | listFiles
  | stat (rel : String)
  | prefixSha256 (rel : String) (size : Nat)
  /-- `rclone copy --files-from-raw`, into the day's backup directory if there is one; whether it returned 0. -/
  | copy (backupDir : Option String) (files : List String)
  | saveState (state : UploadState Digest)

/-- A state that cannot be read is `none`. -/
def Ret {Digest : Type} : Op Digest → Type
  | .readState => Option (UploadState Digest)
  | .listFiles => Except Raised (List String)
  | .stat _ => Except Raised Nat
  | .prefixSha256 _ _ => Except Raised Digest
  | .copy _ _ => Except Raised Bool
  | .saveState _ => Except Raised Unit

variable {Digest : Type}

abbrev Action (Digest α : Type) := Prog (Op Digest) Ret Raised α

def readState : Action Digest (Option (UploadState Digest)) := .call .readState .ret

def listFiles : Action Digest (List String) := .call .listFiles Prog.ofExcept

def stat (rel : String) : Action Digest Nat := .call (.stat rel) Prog.ofExcept

/-- `_prefix_sha256`. -/
def prefixSha256 (rel : String) (size : Nat) : Action Digest Digest := .call (.prefixSha256 rel size) Prog.ofExcept

def copy (backupDir : Option String) (files : List String) : Action Digest Bool :=
  .call (.copy backupDir files) Prog.ofExcept

def saveState (state : UploadState Digest) : Action Digest Unit := .call (.saveState state) Prog.ofExcept

structure Classified (Digest : Type) where
  appended : List String := []
  unproven : List String := []
  rewritten : List String := []
  state : UploadState Digest := []

/-- The files that are in some batch. -/
def Classified.changed (c : Classified Digest) : List String := c.appended ++ (c.unproven ++ c.rewritten)

inductive StepResult where
  | skipped
  | failed
  | ok (appended unproven : Nat)
  | notAppendOnly (files : List String)

section program

variable [DecidableEq Digest] (previous : UploadState Digest)

/-- One file against what was recorded of it. -/
def classifyFile (c : Classified Digest) (rel : String) : Action Digest (Classified Digest) := do
  let size ← stat rel
  let digest ← prefixSha256 rel size
  let c := { c with state := c.state ++ [(rel, size, digest)] }
  match previous.lookup rel with
  | none => return { c with unproven := c.unproven ++ [rel] }
  | some old =>
    if old = (size, digest) then return c
    else if old.1 ≤ size then do
      let beginning ← prefixSha256 rel old.1
      if beginning = old.2 then return { c with appended := c.appended ++ [rel] }
      else return { c with rewritten := c.rewritten ++ [rel] }
    else return { c with rewritten := c.rewritten ++ [rel] }

def classifyEach : Classified Digest → List String → Action Digest (Classified Digest)
  | c, [] => return c
  | c, rel :: rels => do
    let c ← classifyFile previous c rel
    classifyEach c rels

end program

/-- `classify_ledger_files`. -/
def classifyLedgerFiles [DecidableEq Digest] : Action Digest (Classified Digest) := do
  let raw ← readState
  let files ← listFiles
  classifyEach (raw.getD []) {} files

/-- One batch, and what follows it when it went through. -/
def batch (backupDir : Option String) (files : List String) (next : Action Digest StepResult) : Action Digest StepResult :=
  if files = [] then next
  else do
    let returned ← copy backupDir files
    if returned then next else return .failed

/-- `_run_ledger_upload`, inside the data directory or not. -/
def runLedgerUpload [DecidableEq Digest] (inData : Bool) (snapshotDay : String) : Action Digest StepResult :=
  if inData then do
    let c ← classifyLedgerFiles
    batch none c.appended (batch (some snapshotDay) (c.unproven ++ c.rewritten) (do
      saveState c.state
      if c.rewritten = [] then return .ok c.appended.length c.unproven.length
      else return .notAppendOnly (c.rewritten.take 20)))
  else return .skipped

/-! ## The ledger directory and the remote -/

/-- A file that was sent, with what the remote had before. -/
structure Upload where
  file : String
  backupDir : Option String
  before : Option Bytes
  after : Bytes
  deriving DecidableEq

structure World (Digest : Type) where
  files : List (String × Bytes)
  remote : String → Option Bytes
  /-- `_deleted`, by day. -/
  kept : String × String → Option Bytes
  saved : UploadState Digest
  uploads : List Upload

def putAside (backupDir : Option String) (f : String) (old : Option Bytes) (kept : String × String → Option Bytes) :
    String × String → Option Bytes :=
  match backupDir, old with
  | some day, some b => Function.update kept (day, f) (some b)
  | _, _ => kept

/-- One file is sent; with a backup directory, what it overwrites is moved there, over what was moved there before. -/
def World.transfer (backupDir : Option String) (w : World Digest) (f : String) : World Digest :=
  match w.files.lookup f with
  | none => w
  | some b =>
    { w with
      remote := Function.update w.remote f (some b)
      kept := putAside backupDir f (w.remote f) w.kept
      uploads := w.uploads ++ [⟨f, backupDir, w.remote f, b⟩] }

/-- The answers of the machine.  A batch that goes through leaves every file it has as it is here; one that fails has
sent any of them. -/
def Does (sha256 : Bytes → Digest) : Prog.Exec (Op Digest) Ret (World Digest)
  | .readState, w, r, w' => (∀ state, r = some state → state = w.saved) ∧ w' = w
  | .listFiles, w, r, w' => (∀ l, r = .ok l → ∀ f, f ∈ l ↔ f ∈ w.files.map Prod.fst) ∧ w' = w
  | .stat rel, w, r, w' => (∀ n, r = .ok n → ∃ b, w.files.lookup rel = some b ∧ n = b.length) ∧ w' = w
  | .prefixSha256 rel size, w, r, w' =>
    (∀ d, r = .ok d → ∃ b, w.files.lookup rel = some b ∧ d = sha256 (b.take size)) ∧ w' = w
  | .copy backupDir files, w, r, w' => ∃ moved : List String, moved.Nodup ∧ moved ⊆ files ∧
      w' = moved.foldl (World.transfer backupDir) w ∧
      (r = .ok true → ∀ f ∈ files, ∀ b, w.files.lookup f = some b → w'.remote f = some b)
  | .saveState _, w, .error _, w' => w' = w
  | .saveState state, w, .ok _, w' => w' = { w with saved := state }

/-- Files may appear and grow. -/
structure Grows (w w' : World Digest) : Prop where
  same : w' = { w with files := w'.files }
  append : ∀ f b, w.files.lookup f = some b → ∃ b', w'.files.lookup f = some b' ∧ b <+: b'

/-- The files may change in any way. -/
def Changes (w w' : World Digest) : Prop := w' = { w with files := w'.files }

/-- Runs of the upload, cut anywhere, and changes between them. -/
inductive Step [DecidableEq Digest] (E : Prog.Exec (Op Digest) Ret (World Digest))
    (changes : World Digest → World Digest → Prop) (w w' : World Digest) : Prop where
  | changes (h : changes w w')
  | run (inData : Bool) (snapshotDay : String)
      (h : Prog.Reach (Prog.amid Grows E) (runLedgerUpload inData snapshotDay) w w')

/-- Before the first upload nothing is recorded; the remote may have anything. -/
def system [DecidableEq Digest] (E : Prog.Exec (Op Digest) Ret (World Digest))
    (changes : World Digest → World Digest → Prop) : System (World Digest) where
  start w := w.saved = [] ∧ w.uploads = []
  step := Step E changes

/-! ## What is meant to be kept -/

/-- A content of the remote is still the beginning of its file there, or of a kept version. -/
def Held (w : World Digest) (f : String) (old : Bytes) : Prop :=
  (∃ r, w.remote f = some r ∧ old <+: r) ∨ ∃ day k, w.kept (day, f) = some k ∧ old <+: k

/-- What was overwritten without a backup directory was the beginning of the file, and nothing is lost. -/
structure History (w : World Digest) : Prop where
  prefixed : ∀ u ∈ w.uploads, u.backupDir = none → ∀ old, u.before = some old → old <+: u.after
  held : ∀ u ∈ w.uploads, ∀ old, u.before = some old → Held w u.file old

/-- The record of a file, if there is one, is of what the remote has. -/
def Settled (sha256 : Bytes → Digest) (w : World Digest) (f : String) : Prop :=
  ∀ n d, w.saved.lookup f = some (n, d) → ∀ r, w.remote f = some r → r.length = n ∧ sha256 r = d

/-- A file that visibly no longer begins as it was recorded. -/
def Contradicts (sha256 : Bytes → Digest) (saved : UploadState Digest) (f : String) (files : List (String × Bytes)) : Prop :=
  ∀ n d, saved.lookup f = some (n, d) → ∃ b, files.lookup f = some b ∧ n ≤ b.length ∧ sha256 (b.take n) ≠ d

/-- Between two runs, a file grows, or its record is of what the remote has, or it contradicts its record. -/
structure Careful (sha256 : Bytes → Digest) (w w' : World Digest) : Prop where
  same : Changes w w'
  files : ∀ f, (∀ b, w.files.lookup f = some b → ∃ b', w'.files.lookup f = some b' ∧ b <+: b') ∨ Settled sha256 w f ∨
    Contradicts sha256 w.saved f w'.files

/-- A batch with a backup directory sends no file the directory already has. -/
def Fresh : Op Digest → World Digest → Prop
  | .copy (some day) files, w => ∀ f ∈ files, w.kept (day, f) = none
  | _, _ => True

/-- The machine, where every such batch is fresh. -/
def Freshly (sha256 : Bytes → Digest) : Prog.Exec (Op Digest) Ret (World Digest) :=
  fun op w r w' => Does sha256 op w r w' ∧ Fresh op w

/-! ## One file is sent -/

section transfers

variable {w w' : World Digest} {f g : String} {b : Bytes} {backupDir : Option String} {sha256 : Bytes → Digest}

/-- What the remote has of a file is the beginning of the file. -/
def Fits (w : World Digest) (f : String) : Prop :=
  ∀ r, w.remote f = some r → ∃ b, w.files.lookup f = some b ∧ r <+: b

theorem transfer_of_lookup (h : w.files.lookup f = some b) :
    w.transfer backupDir f =
      { w with
        remote := Function.update w.remote f (some b)
        kept := putAside backupDir f (w.remote f) w.kept
        uploads := w.uploads ++ [⟨f, backupDir, w.remote f, b⟩] } := by
  rw [World.transfer, h]

theorem transfer_of_none (h : w.files.lookup f = none) : w.transfer backupDir f = w := by rw [World.transfer, h]

@[simp] theorem transfer_files : (w.transfer backupDir f).files = w.files := by
  cases h : w.files.lookup f with
  | none => rw [transfer_of_none h]
  | some b => rw [transfer_of_lookup h]

@[simp] theorem transfer_saved : (w.transfer backupDir f).saved = w.saved := by
  cases h : w.files.lookup f with
  | none => rw [transfer_of_none h]
  | some b => rw [transfer_of_lookup h]

/-- The remote has the file as it is here, or what it had. -/
theorem transfer_remote (w : World Digest) (backupDir : Option String) (f g : String) :
    (w.transfer backupDir f).remote g = w.remote g ∨
      g = f ∧ ∃ b, w.files.lookup f = some b ∧ (w.transfer backupDir f).remote g = some b := by
  cases h : w.files.lookup f with
  | none =>
    rw [transfer_of_none h]
    exact .inl rfl
  | some b =>
    rw [transfer_of_lookup h]
    by_cases hg : g = f
    · subst hg
      exact .inr ⟨rfl, b, rfl, Function.update_self ..⟩
    · exact .inl (Function.update_of_ne hg ..)

theorem transfer_kept_of_ne {day : String} (hg : g ≠ f) : (w.transfer backupDir f).kept (day, g) = w.kept (day, g) := by
  have hne {day' : String} : (day, g) ≠ (day', f) := fun h => hg (Prod.mk.inj h).2
  cases h : w.files.lookup f with
  | none => rw [transfer_of_none h]
  | some b =>
    rw [transfer_of_lookup h]
    cases backupDir with
    | none => rfl
    | some day' =>
      cases w.remote f with
      | none => rfl
      | some old => exact Function.update_of_ne hne ..

theorem Fits.transfer (h : Fits w g) : Fits (w.transfer backupDir f) g := by
  intro r hr
  rw [transfer_files]
  rcases transfer_remote w backupDir f g with hsame | ⟨rfl, b, hb, hsent⟩
  · exact h r (hsame ▸ hr)
  · rw [hsent] at hr
    cases hr
    exact ⟨_, hb, List.prefix_refl _⟩

/-- What was held is held after a file was sent that had its beginning right, or whose old content is newly kept. -/
theorem Held.transfer {old : Bytes} (hheld : Held w g old) (hfits : backupDir = none → Fits w f)
    (hkept : ∀ day, backupDir = some day → w.kept (day, f) = none) : Held (w.transfer backupDir f) g old := by
  cases h : w.files.lookup f with
  | none =>
    rw [transfer_of_none h]
    exact hheld
  | some b =>
    rw [transfer_of_lookup h]
    by_cases hg : g = f
    · subst hg
      cases backupDir with
      | none =>
        rcases hheld with ⟨r, hr, hold⟩ | hlater
        · obtain ⟨b', hb', hpre⟩ := hfits rfl r hr
          rw [h, Option.some.injEq] at hb'
          subst hb'
          exact .inl ⟨_, Function.update_self .., hold.trans hpre⟩
        · exact .inr hlater
      | some day =>
        right
        cases hremote : w.remote g with
        | none =>
          rcases hheld with ⟨r, hr, -⟩ | hlater
          · rw [hremote] at hr
            cases hr
          · exact hlater
        | some r =>
          rcases hheld with ⟨r', hr', hold⟩ | ⟨day', k, hk, hold⟩
          · rw [hremote] at hr'
            cases hr'
            exact ⟨day, r, Function.update_self .., hold⟩
          · refine ⟨day', k, ?_, hold⟩
            have hne : (day', g) ≠ (day, g) := by
              intro heq
              rw [heq, hkept day rfl] at hk
              cases hk
            exact (Function.update_of_ne hne ..).trans hk
    · rcases hheld with ⟨r, hr, hold⟩ | ⟨day', k, hk, hold⟩
      · exact .inl ⟨r, (Function.update_of_ne hg ..).trans hr, hold⟩
      · refine .inr ⟨day', k, ?_, hold⟩
        have hsame : (w.transfer backupDir f).kept (day', g) = w.kept (day', g) := transfer_kept_of_ne hg
        rw [transfer_of_lookup h] at hsame
        exact hsame.trans hk

/-- **Sending one file keeps the history**, when it only extends what is there or has a fresh backup directory. -/
theorem History.transfer (hhist : History w) (hfits : backupDir = none → Fits w f)
    (hkept : ∀ day, backupDir = some day → w.kept (day, f) = none) : History (w.transfer backupDir f) := by
  cases h : w.files.lookup f with
  | none =>
    rw [transfer_of_none h]
    exact hhist
  | some b =>
    have huploads : (w.transfer backupDir f).uploads = w.uploads ++ [⟨f, backupDir, w.remote f, b⟩] := by
      rw [transfer_of_lookup h]
    constructor
    · intro u hu hdir old hold
      rw [huploads] at hu
      rcases List.mem_append.1 hu with hu | hu
      · exact hhist.prefixed u hu hdir old hold
      · obtain rfl := List.mem_singleton.1 hu
        obtain ⟨b', hb', hpre⟩ := hfits hdir old hold
        rw [h] at hb'
        cases hb'
        exact hpre
    · intro u hu old hold
      rw [huploads] at hu
      rcases List.mem_append.1 hu with hu | hu
      · exact (hhist.held u hu old hold).transfer hfits hkept
      · obtain rfl := List.mem_singleton.1 hu
        exact Held.transfer (.inl ⟨old, hold, List.prefix_refl old⟩) hfits hkept

end transfers

/-! ## What holds of every state -/

section invariant

variable {sha256 : Bytes → Digest} {w w' : World Digest} {backupDir : Option String}

/-- The beginning of a file as it was recorded, for as long as the record may be relied on: it is of what the remote
has, or the remote's copy is the beginning of the file, or the file contradicts it. -/
structure Sound (sha256 : Bytes → Digest) (w : World Digest) : Prop extends History w where
  recorded : ∀ f n d, w.saved.lookup f = some (n, d) → ∀ r, w.remote f = some r →
    (r.length = n ∧ sha256 r = d) ∨
      ∃ b, w.files.lookup f = some b ∧ (r <+: b ∨ (n ≤ b.length ∧ sha256 (b.take n) ≠ d))

theorem Fits.grows {f : String} (h : Fits w f) (hg : Grows w w') : Fits w' f := by
  intro r hr
  rw [hg.same] at hr
  obtain ⟨b, hb, hpre⟩ := h r hr
  obtain ⟨b', hb', hmore⟩ := hg.append f b hb
  exact ⟨b', hb', hpre.trans hmore⟩

/-- A prefix of a longer text has the same beginnings. -/
theorem take_of_prefix {b b' : Bytes} {n : Nat} (h : b <+: b') (hn : n ≤ b.length) : b'.take n = b.take n := by
  obtain ⟨more, rfl⟩ := h
  exact List.take_append_of_le_length hn

theorem History.of_same (h : History w) (hremote : w'.remote = w.remote) (hkept : w'.kept = w.kept)
    (huploads : w'.uploads = w.uploads) : History w' := by
  refine ⟨fun u hu => h.prefixed u (huploads ▸ hu), fun u hu old hold => ?_⟩
  have hheld := h.held u (huploads ▸ hu) old hold
  rw [Held, hremote, hkept]
  exact hheld

/-- **Careful changes keep what holds**, growth among them. -/
theorem Sound.careful (h : Sound sha256 w) (hc : Careful sha256 w w') : Sound sha256 w' := by
  have hsame : w' = { w with files := w'.files } := hc.same
  refine ⟨h.toHistory.of_same (by rw [hsame]) (by rw [hsame]) (by rw [hsame]), ?_⟩
  intro f n d hrecord r hr
  rw [hsame] at hrecord hr
  rcases hc.files f with hgrows | hsettled | hcontradicts
  · rcases h.recorded f n d hrecord r hr with hleft | ⟨b, hb, hright⟩
    · exact .inl hleft
    · obtain ⟨b', hb', hmore⟩ := hgrows b hb
      refine .inr ⟨b', hb', ?_⟩
      rcases hright with hpre | ⟨hn, hne⟩
      · exact .inl (hpre.trans hmore)
      · rw [← take_of_prefix hmore hn] at hne
        exact .inr ⟨hn.trans hmore.length_le, hne⟩
  · exact .inl (hsettled n d hrecord r hr)
  · obtain ⟨b, hb, hn, hne⟩ := hcontradicts n d hrecord
    exact .inr ⟨b, hb, .inr ⟨hn, hne⟩⟩

theorem Grows.careful (h : Grows w w') : Careful sha256 w w' := ⟨h.same, fun f => .inl (h.append f)⟩

theorem Sound.grows (h : Sound sha256 w) (hg : Grows w w') : Sound sha256 w' := h.careful hg.careful

theorem Sound.transfer {f : String} (h : Sound sha256 w) (hfits : backupDir = none → Fits w f)
    (hkept : ∀ day, backupDir = some day → w.kept (day, f) = none) : Sound sha256 (w.transfer backupDir f) := by
  refine ⟨h.toHistory.transfer hfits hkept, fun g n d hrecord r hr => ?_⟩
  rw [transfer_saved] at hrecord
  rw [transfer_files]
  rcases transfer_remote w backupDir f g with hsame | ⟨rfl, b, hb, hsent⟩
  · exact h.recorded g n d hrecord r (hsame ▸ hr)
  · rw [hsent] at hr
    cases hr
    exact .inr ⟨_, hb, .inl (List.prefix_refl _)⟩

/-- **A batch keeps what holds**: its files are sent one after the other. -/
theorem Sound.transfers : ∀ {moved : List String} {w : World Digest}, Sound sha256 w → moved.Nodup →
    (backupDir = none → ∀ f ∈ moved, Fits w f) → (∀ day, backupDir = some day → ∀ f ∈ moved, w.kept (day, f) = none) →
      Sound sha256 (moved.foldl (World.transfer backupDir) w)
  | [], w, h, _, _, _ => h
  | f :: moved, w, h, hnd, hfits, hkept => by
    obtain ⟨hf, hnd'⟩ := List.nodup_cons.1 hnd
    have hfirst := h.transfer (fun hdir => hfits hdir f List.mem_cons_self) (fun day hdir => hkept day hdir f List.mem_cons_self)
    rw [List.foldl_cons]
    refine Sound.transfers hfirst hnd' (fun hdir g hg => ?_) (fun day hdir g hg => ?_)
    · exact (hfits hdir g (List.mem_cons_of_mem _ hg)).transfer
    · rw [transfer_kept_of_ne (fun heq : g = f => hf (heq ▸ hg))]
      exact hkept day hdir g (List.mem_cons_of_mem _ hg)

/-- A batch leaves the files and the record, and whatever the remote had the beginning of. -/
theorem transfers_same (backupDir : Option String) : ∀ (moved : List String) (w : World Digest),
    (moved.foldl (World.transfer backupDir) w).files = w.files ∧
      (moved.foldl (World.transfer backupDir) w).saved = w.saved ∧
      ∀ f, Fits w f → Fits (moved.foldl (World.transfer backupDir) w) f
  | [], _ => ⟨rfl, rfl, fun _ h => h⟩
  | f :: moved, w => by
    obtain ⟨hfiles, hsaved, hfits⟩ := transfers_same backupDir moved (w.transfer backupDir f)
    exact ⟨hfiles.trans transfer_files, hsaved.trans transfer_saved, fun g hg => hfits g hg.transfer⟩

end invariant

/-! ## One run -/

section run

variable {sha256 : Bytes → Digest} {α : Type} {w w' : World Digest} {f : String} {previous : UploadState Digest}

/-- Amid growing files a program stays sound, and what it returns satisfies `φ`. -/
abbrev Runs (sha256 : Bytes → Digest) (p : Action Digest α) (φ : α → World Digest → Prop) (w : World Digest) : Prop :=
  Prog.among (Freshly sha256) Grows (fun _ w' => Sound sha256 w') (Sound sha256) p φ w

theorem Grows.refl (w : World Digest) : Grows w w := ⟨rfl, fun _ b hb => ⟨b, hb, List.prefix_refl b⟩⟩

theorem Grows.trans {w₁ : World Digest} (h : Grows w w₁) (h' : Grows w₁ w') : Grows w w' := by
  refine ⟨by rw [h'.same, h.same], fun f b hb => ?_⟩
  obtain ⟨b₁, hb₁, hp₁⟩ := h.append f b hb
  obtain ⟨b', hb', hp'⟩ := h'.append f b₁ hb₁
  exact ⟨b', hb', hp₁.trans hp'⟩

theorem Grows.saved (h : Grows w w') : w'.saved = w.saved := by rw [h.same]

theorem stat_runs (h : Sound sha256 w) :
    Runs sha256 (stat f) (fun n w' => Grows w w' ∧ ∃ b, w'.files.lookup f = some b ∧ n = b.length) w := by
  rintro w₁ hg r w₂ ⟨⟨hr, rfl⟩, -⟩
  exact ⟨h.grows hg, Prog.among_ofExcept (h.grows hg) (fun n hn => ⟨hg, hr n hn⟩)⟩

theorem prefixSha256_runs {n : Nat} (h : Sound sha256 w) : Runs sha256 (prefixSha256 f n)
    (fun d w' => Grows w w' ∧ ∃ b, w'.files.lookup f = some b ∧ d = sha256 (b.take n)) w := by
  rintro w₁ hg r w₂ ⟨⟨hr, rfl⟩, -⟩
  exact ⟨h.grows hg, Prog.among_ofExcept (h.grows hg) (fun d hd => ⟨hg, hr d hd⟩)⟩

/-- What is known of the files that were classified: those called appended only extend what the remote has, and what is
to be saved of a file in no batch was saved before. -/
structure Sorted (previous : UploadState Digest) (c : Classified Digest) (w : World Digest) : Prop where
  read : previous = [] ∨ previous = w.saved
  appended : ∀ f ∈ c.appended, Fits w f
  there : ∀ f ∈ c.changed, ∃ b, w.files.lookup f = some b
  state : ∀ e ∈ c.state, e.1 ∈ c.changed ∨ previous.lookup e.1 = some e.2

theorem there_grows (h : ∃ b, w.files.lookup f = some b) (hg : Grows w w') : ∃ b, w'.files.lookup f = some b := by
  obtain ⟨b, hb⟩ := h
  obtain ⟨b', hb', -⟩ := hg.append f b hb
  exact ⟨b', hb'⟩

theorem Sorted.grows {c : Classified Digest} (h : Sorted previous c w) (hg : Grows w w') : Sorted previous c w' where
  read := h.read.imp_right (fun heq => heq.trans hg.saved.symm)
  appended f hf := (h.appended f hf).grows hg
  there f hf := there_grows (h.there f hf) hg
  state := h.state

/-- A file that still begins as recorded extends what the remote has of it, no two contents having one digest. -/
theorem Sound.fits (hinj : Function.Injective sha256) (h : Sound sha256 w) {n : Nat} {d : Digest} {b : Bytes}
    (hrecord : w.saved.lookup f = some (n, d)) (hb : w.files.lookup f = some b)
    (hd : sha256 (b.take n) = d) : Fits w f := by
  intro r hr
  rcases h.recorded f n d hrecord r hr with ⟨hlen, hsha⟩ | ⟨b', hb', hpre | ⟨-, hne⟩⟩
  · have hsame : r = b.take n := hinj (hsha.trans hd.symm)
    exact ⟨b, hb, hsame ▸ List.take_prefix n b⟩
  · exact ⟨b', hb', hpre⟩
  · rw [hb, Option.some.injEq] at hb'
    subst hb'
    exact absurd hd hne

/-- One more file in one of the lists, or in none. -/
theorem Sorted.add {c c' : Classified Digest} {size : Nat} {digest : Digest} (h : Sorted previous c w)
    (hthere : ∃ b, w.files.lookup f = some b) (hstate : c'.state = c.state ++ [(f, size, digest)])
    (happended : ∀ g ∈ c'.appended, g ∈ c.appended ∨ g = f ∧ Fits w f)
    (hchanged : ∀ g, g ∈ c'.changed → g ∈ c.changed ∨ g = f) (hmore : c.changed ⊆ c'.changed)
    (hf : f ∈ c'.changed ∨ previous.lookup f = some (size, digest)) : Sorted previous c' w where
  read := h.read
  appended g hg := by
    rcases happended g hg with hg | ⟨rfl, hfits⟩
    · exact h.appended g hg
    · exact hfits
  there g hg := by
    rcases hchanged g hg with hg | rfl
    · exact h.there g hg
    · exact hthere
  state e he := by
    rw [hstate] at he
    rcases List.mem_append.1 he with he | he
    · exact (h.state e he).imp_left (fun hmem => hmore hmem)
    · obtain rfl := List.mem_singleton.1 he
      exact hf

variable [DecidableEq Digest]

/-- **One file is classified**: it is called appended only when it extends what the remote has. -/
theorem classifyFile_runs (hinj : Function.Injective sha256) {c : Classified Digest} (h : Sound sha256 w)
    (hc : Sorted previous c w) : Runs sha256 (classifyFile previous c f) (Sorted previous) w := by
  refine Prog.among_bind (stat_runs h) ?_
  rintro size w₁ h₁ ⟨hg₁, b₁, hb₁, rfl⟩
  refine Prog.among_bind (prefixSha256_runs h₁) ?_
  rintro digest w₂ h₂ ⟨hg₂, -⟩
  have hc₂ : Sorted previous c w₂ := hc.grows (hg₁.trans hg₂)
  obtain ⟨b₂, hb₂, hp₂⟩ := hg₂.append f b₁ hb₁
  cases hold : previous.lookup f with
  | none =>
    refine Prog.among_ret h₂ (hc₂.add ⟨b₂, hb₂⟩ rfl (fun g hg => .inl hg) ?_ ?_ (.inl ?_))
    · simp only [Classified.changed, List.mem_append, List.mem_singleton]
      grind
    · intro g
      simp only [Classified.changed, List.mem_append]
      grind
    · simp [Classified.changed]
  | some old =>
    dsimp only
    have hrewritten : Sorted previous
        { c with state := c.state ++ [(f, b₁.length, digest)], rewritten := c.rewritten ++ [f] } w₂ := by
      refine hc₂.add ⟨b₂, hb₂⟩ rfl (fun g hg => .inl hg) ?_ ?_ (.inl ?_)
      · simp only [Classified.changed, List.mem_append, List.mem_singleton]
        grind
      · intro g
        simp only [Classified.changed, List.mem_append]
        grind
      · simp [Classified.changed]
    split_ifs with hsame hsize
    · refine Prog.among_ret h₂ (hc₂.add ⟨b₂, hb₂⟩ rfl (fun g hg => .inl hg) (fun g hg => .inl hg) (fun g hg => hg) (.inr ?_))
      rw [hold, hsame]
    · refine Prog.among_bind (prefixSha256_runs h₂) ?_
      rintro beginning w₃ h₃ ⟨hg₃, b₃, hb₃, rfl⟩
      obtain ⟨b₃', hb₃', hp₃⟩ := hg₃.append f b₂ hb₂
      rw [hb₃, Option.some.injEq] at hb₃'
      subst hb₃'
      split_ifs with hbegins
      · -- what was read of the state is still what is saved
        have hfits : Fits w₃ f := by
          rcases (hc₂.grows hg₃).read with hnone | hread
          · rw [hnone] at hold
            cases hold
          · rw [hread] at hold
            exact h₃.fits hinj hold hb₃ hbegins
        refine Prog.among_ret h₃ ((hc₂.grows hg₃).add ⟨_, hb₃⟩ rfl ?_ ?_ ?_ (.inl ?_))
        · intro g hg
          rcases List.mem_append.1 hg with hg | hg
          · exact .inl hg
          · obtain rfl := List.mem_singleton.1 hg
            exact .inr ⟨rfl, hfits⟩
        · simp only [Classified.changed, List.mem_append, List.mem_singleton]
          grind
        · intro g
          simp only [Classified.changed, List.mem_append]
          grind
        · simp [Classified.changed]
      · exact Prog.among_ret h₃ (hrewritten.grows hg₃)
    · exact Prog.among_ret h₂ hrewritten

theorem classifyEach_runs (hinj : Function.Injective sha256) : ∀ (rels : List String) {c : Classified Digest}
    {w : World Digest}, Sound sha256 w → Sorted previous c w →
      Runs sha256 (classifyEach previous c rels) (Sorted previous) w
  | [], _, _, h, hc => Prog.among_ret h hc
  | _ :: rels, _, _, h, hc =>
    Prog.among_bind (classifyFile_runs hinj h hc) (fun _ _ h' hc' => classifyEach_runs hinj rels h' hc')

theorem classifyLedgerFiles_runs (hinj : Function.Injective sha256) (h : Sound sha256 w) :
    Runs sha256 classifyLedgerFiles (fun c w' => ∃ previous, Sorted previous c w') w := by
  rintro w₁ hg₁ raw w₂ ⟨⟨hraw, rfl⟩, -⟩
  have h₁ := h.grows hg₁
  refine ⟨h₁, ?_⟩
  rintro w₃ hg₃ listed w₄ ⟨⟨-, rfl⟩, -⟩
  have h₃ := h₁.grows hg₃
  refine ⟨h₃, ?_⟩
  cases listed with
  | error e => exact Prog.among_raise h₃
  | ok files =>
    have hread : raw.getD [] = [] ∨ raw.getD [] = w₄.saved := by
      cases raw with
      | none => exact .inl rfl
      | some state => exact .inr ((hraw state rfl).trans hg₃.saved.symm)
    have hc : Sorted (raw.getD []) {} w₄ :=
      ⟨hread, fun f hf => (by cases hf), fun f hf => (by cases hf), fun e he => (by cases he)⟩
    exact Prog.among_mono (classifyEach_runs hinj files h₃ hc) (fun c w' hc' => ⟨_, hc'⟩)

omit [DecidableEq Digest] in
/-- **A batch that went through left the remote with the beginning of each of its files.** -/
theorem batch_runs {backupDir : Option String} {files : List String} {next : Action Digest StepResult}
    {φ : StepResult → World Digest → Prop} {c : Classified Digest} (h : Sound sha256 w) (hc : Sorted previous c w)
    (hfiles : files ⊆ c.changed) (hfits : backupDir = none → ∀ f ∈ files, Fits w f)
    (hfailed : ∀ w', φ .failed w')
    (hnext : ∀ w', Sound sha256 w' → Sorted previous c w' → (∀ f, Fits w f → Fits w' f) → (∀ f ∈ files, Fits w' f) →
      Runs sha256 next φ w') : Runs sha256 (batch backupDir files next) φ w := by
  unfold batch
  split_ifs with hempty
  · subst hempty
    exact hnext w h hc (fun _ hf => hf) (fun f hf => by cases hf)
  · rintro w₁ hg r w₂ ⟨⟨moved, hnd, hmoved, rfl, hthrough⟩, hfresh⟩
    obtain ⟨hsamefiles, hsaved, hkeeps⟩ := transfers_same backupDir moved w₁
    have h₂ : Sound sha256 (moved.foldl (World.transfer backupDir) w₁) := by
      refine (h.grows hg).transfers hnd ?_ ?_
      · exact fun hdir f hf => (hfits hdir f (hmoved hf)).grows hg
      · rintro day rfl f hf
        exact hfresh f (hmoved hf)
    refine ⟨h₂, ?_⟩
    cases r with
    | error e => exact Prog.among_raise h₂
    | ok returned =>
      cases returned with
      | false => exact Prog.among_ret h₂ (hfailed _)
      | true =>
        have hc₁ := hc.grows hg
        refine hnext _ h₂ ⟨?_, ?_, ?_, hc.state⟩ (fun f hf => hkeeps f (hf.grows hg)) ?_
        · rw [hsaved]
          exact hc₁.read
        · exact fun f hf => hkeeps f (hc₁.appended f hf)
        · rw [hsamefiles]
          exact hc₁.there
        · intro f hf r' hr'
          obtain ⟨b, hb⟩ := hc₁.there f (hfiles hf)
          rw [hthrough rfl f hf b hb, Option.some.injEq] at hr'
          rw [hsamefiles]
          exact ⟨b, hb, hr' ▸ List.prefix_refl b⟩

omit [DecidableEq Digest] in
/-- **The record that is saved after both batches may be relied on.** -/
theorem Sound.save {c : Classified Digest} (h : Sound sha256 w) (hc : Sorted previous c w) (hfits : ∀ f ∈ c.changed, Fits w f) :
    Sound sha256 { w with saved := c.state } := by
  refine ⟨h.toHistory.of_same rfl rfl rfl, fun f n d hrecord r hr => ?_⟩
  have hmem : (f, n, d) ∈ c.state := Py.Dict.mem_of_lookup hrecord
  rcases hc.state _ hmem with hchanged | hsaved
  · obtain ⟨b, hb, hpre⟩ := hfits f hchanged r hr
    exact .inr ⟨b, hb, .inl hpre⟩
  · rcases hc.read with hnone | hread
    · rw [hnone] at hsaved
      cases hsaved
    · exact h.recorded f n d (hread ▸ hsaved) r hr

/-- **A whole run keeps what holds.** -/
theorem runLedgerUpload_runs (hinj : Function.Injective sha256) (inData : Bool) (snapshotDay : String)
    (h : Sound sha256 w) : Runs sha256 (runLedgerUpload inData snapshotDay) (fun _ _ => True) w := by
  unfold runLedgerUpload
  cases inData with
  | false => exact Prog.among_ret h trivial
  | true =>
    refine Prog.among_bind (classifyLedgerFiles_runs hinj h) ?_
    rintro c w₁ h₁ ⟨previous, hc₁⟩
    refine batch_runs h₁ hc₁ (List.subset_append_left _ _) (fun _ => hc₁.appended) (fun _ => trivial) ?_
    intro w₂ h₂ hc₂ _ happended
    refine batch_runs h₂ hc₂ (List.subset_append_right _ _) (fun hdir => by cases hdir) (fun _ => trivial) ?_
    intro w₃ h₃ hc₃ hkeeps hversioned
    have hfits : ∀ f ∈ c.changed, Fits w₃ f := fun f hf =>
      (List.mem_append.1 hf).elim (fun hf => hkeeps f (happended f hf)) (fun hf => hversioned f hf)
    rintro w₄ hg r w₅ ⟨hsave, -⟩
    have h₄ := h₃.grows hg
    cases r with
    | error e =>
      rw [show w₅ = w₄ from hsave]
      exact ⟨h₄, Prog.among_raise h₄⟩
    | ok _ =>
      rw [show w₅ = { w₄ with saved := c.state } from hsave]
      have h₅ := h₄.save (hc₃.grows hg) (fun f hf => (hfits f hf).grows hg)
      refine ⟨h₅, ?_⟩
      dsimp only [Prog.ofExcept_ok, Prog.ret_bind]
      split_ifs <;> exact Prog.among_ret h₅ trivial

end run

/-! ## Every run -/

/-- **The uploads keep history.**  In every run of uploads that may fail or be cut anywhere, whose ledger files only grow
while an upload is in progress and otherwise change carefully, and whose batches with a backup directory are fresh, what
was overwritten without a backup directory was the beginning of the file that was sent, and every content the remote
had is still the beginning of its file there or of a kept version. -/
theorem uploads_keep_history [DecidableEq Digest] (sha256 : Bytes → Digest) (hinj : Function.Injective sha256)
    (w : World Digest) (h : (system (Freshly sha256) (Careful sha256)).Reachable w) : History w := by
  have halways : (system (Freshly sha256) (Careful sha256)).Always (Sound sha256) := by
    refine System.Inductive.always ⟨?_, ?_⟩
    · rintro w ⟨hsaved, huploads⟩
      refine ⟨⟨fun u hu => ?_, fun u hu => ?_⟩, fun f n d hrecord => ?_⟩
      · rw [huploads] at hu
        cases hu
      · rw [huploads] at hu
        cases hu
      · rw [hsaved] at hrecord
        cases hrecord
    · rintro w w' hw (hchanges | ⟨inData, snapshotDay, hrun⟩)
      · exact hw.careful hchanges
      · exact Prog.rg_reach (fun _ _ hI hg => hI.grows hg) (fun _ _ hG _ => hG)
          (runLedgerUpload_runs hinj inData snapshotDay hw) hw hrun
  exact (halways w h).toHistory

/-! ## Two ledger files -/

private def content (w : World Bytes) (rel : String) : Except Raised Bytes :=
  (w.files.lookup rel).elim (.error .os) .ok

/-- A machine whose uploads of the second file never go through. -/
private def answers : (op : Op Bytes) → World Bytes → Ret op × World Bytes
  | .readState, w => (some w.saved, w)
  | .listFiles, w => (.ok (w.files.map Prod.fst), w)
  | .stat rel, w => ((content w rel).map List.length, w)
  | .prefixSha256 rel size, w => ((content w rel).map (List.take size), w)
  | .copy backupDir files, w =>
    if "b.jsonl" ∈ files then (.ok false, w) else (.ok true, files.dedup.foldl (World.transfer backupDir) w)
  | .saveState state, w => (.ok (), { w with saved := state })

private theorem content_map {α : Type} {w : World Bytes} {rel : String} {g : Bytes → α} {a : α}
    (h : (content w rel).map g = .ok a) : ∃ b, w.files.lookup rel = some b ∧ a = g b := by
  unfold content at h
  cases hb : w.files.lookup rel with
  | none =>
    rw [hb] at h
    cases h
  | some b =>
    rw [hb] at h
    cases h
    exact ⟨b, rfl, rfl⟩

private theorem transfers_send {backupDir : Option String} {f : String} {b : Bytes} : ∀ {moved : List String}
    {w : World Bytes}, w.files.lookup f = some b → (w.remote f = some b ∨ f ∈ moved) →
      (moved.foldl (World.transfer backupDir) w).remote f = some b
  | [], _, _, h => h.elim id (fun hf => by cases hf)
  | g :: moved, w, hb, h => by
    rw [List.foldl_cons]
    refine transfers_send (by rw [transfer_files]; exact hb) ?_
    rcases transfer_remote w backupDir g f with hsame | ⟨rfl, b', hb', hsent⟩
    · by_cases hfg : f = g
      · left
        subst hfg
        rw [transfer_of_lookup hb]
        exact Function.update_self ..
      · exact h.imp (fun hr => hsame.trans hr) (fun hf => (List.mem_cons.1 hf).resolve_left hfg)
    · rw [hb, Option.some.injEq] at hb'
      exact .inl (hb' ▸ hsent)

private theorem answers_does (op : Op Bytes) (w : World Bytes) : Does id op w (answers op w).1 (answers op w).2 := by
  cases op with
  | readState => exact ⟨fun state h => (Option.some.inj h).symm, rfl⟩
  | listFiles => exact ⟨fun l h f => by cases h; rfl, rfl⟩
  | stat rel => exact ⟨fun n h => content_map h, rfl⟩
  | prefixSha256 rel size => exact ⟨fun d h => content_map h, rfl⟩
  | copy backupDir files =>
    unfold answers Does
    dsimp only
    split_ifs
    · exact ⟨[], List.nodup_nil, List.nil_subset _, rfl, fun h => by cases h⟩
    · refine ⟨files.dedup, files.nodup_dedup, files.dedup_subset, rfl, fun _ f hf b hb => ?_⟩
      exact transfers_send hb (.inr (List.mem_dedup.2 hf))
  | saveState state => rfl

private def upload (w : World Bytes) : World Bytes := (Prog.run answers (runLedgerUpload true "2026-11-02") w).2

private theorem step_upload (w : World Bytes) (changes : World Bytes → World Bytes → Prop) :
    (system (Does id) changes).step w (upload w) := by
  refine .run true "2026-11-02" (Prog.Ends.reach (Prog.run_ends (fun op w => ?_) _ w))
  exact ⟨w, Grows.refl w, answers_does op w⟩

private def having (w : World Bytes) (files : List (String × Bytes)) : World Bytes := { w with files }

private def noUploads : World Bytes where
  files := [("a.jsonl", [97])]
  remote _ := none
  kept _ := none
  saved := []
  uploads := []

private def ahead : World Bytes := upload (having (upload noUploads) [("a.jsonl", [97, 98]), ("b.jsonl", [120])])

private def lost : World Bytes := upload (having ahead [("a.jsonl", [97, 99]), ("b.jsonl", [120])])

/-- The second batch fails, the remote is ahead of the record, and a rewrite passes for an append. -/
theorem not_always_history : ¬ (system (Does id) (Changes : World Bytes → World Bytes → Prop)).Always History := by
  intro h
  have hreach : (system (Does id) (Changes : World Bytes → World Bytes → Prop)).Reachable lost := by
    have hstart : (system (Does id) (Changes : World Bytes → World Bytes → Prop)).Reachable noUploads := .start ⟨rfl, rfl⟩
    have hchange (w : World Bytes) (files : List (String × Bytes)) :
        (system (Does id) (Changes : World Bytes → World Bytes → Prop)).step w (having w files) := .changes rfl
    have hahead : (system (Does id) (Changes : World Bytes → World Bytes → Prop)).Reachable ahead :=
      ((hstart.step (step_upload _ _)).step (hchange _ _)).step (step_upload _ _)
    exact (hahead.step (hchange _ _)).step (step_upload _ _)
  have hmem : (⟨"a.jsonl", none, some [97, 98], [97, 99]⟩ : Upload) ∈ lost.uploads := by decide
  exact absurd ((h lost hreach).prefixed _ hmem rfl _ rfl) (by decide)

instance : ∀ (op : Op Digest) (w : World Digest), Decidable (Fresh op w)
  | .copy (some day) files, w => inferInstanceAs (Decidable (∀ f ∈ files, w.kept (day, f) = none))
  | .copy none _, _ | .readState, _ | .listFiles, _ | .stat _, _ | .prefixSha256 _ _, _ | .saveState _, _ => .isTrue trivial

/-- An upload, a file that grows, and an upload of what it has more. -/
theorem uploads_keep_history_growing : History (upload (having (upload noUploads) [("a.jsonl", [97, 98])])) := by
  have hrun (w : World Bytes)
      (h : Prog.runKeeps answers (fun op w _ => Fresh op w) (runLedgerUpload true "2026-11-02") w = true) :
      (system (Freshly id) (Careful id)).step w (upload w) := by
    refine .run true "2026-11-02" (Prog.Reach.mono (fun op w r w' hop => ⟨w, Grows.refl w, hop⟩) ?_)
    exact (Prog.run_ends_kept answers_does h).reach
  have hstart : (system (Freshly id) (Careful id)).Reachable noUploads := .start ⟨rfl, rfl⟩
  have hfirst := hstart.step (hrun _ (by decide))
  have hfiles : (upload noUploads).files = [("a.jsonl", [97])] := by decide
  have hcareful : Careful id (upload noUploads) (having (upload noUploads) [("a.jsonl", [97, 98])]) := by
    refine ⟨rfl, fun f => .inl (fun b hb => ?_)⟩
    rw [hfiles] at hb
    by_cases hf : f = "a.jsonl"
    · subst hf
      obtain rfl := Option.some.inj hb
      exact ⟨[97, 98], rfl, [98], rfl⟩
    · rw [List.lookup_cons, beq_false_of_ne hf] at hb
      cases hb
  exact uploads_keep_history id Function.injective_id _ ((hfirst.step (.changes hcareful)).step (hrun _ (by decide)))

end LedgerUpload
end Offsite
