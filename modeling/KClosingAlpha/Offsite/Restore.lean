import KClosingAlpha.Offsite.Plan
import Mathlib.Data.List.Pairwise
/-!
# Restore — the files of a date, out of its recorded segments

Every recorded segment is downloaded, checked against its record and unpacked member by member; a file that is in the way
stops the restore.  Where each record is of files that are not in each other's way and its archive is still there
(`AllKept`), an empty directory ends up with exactly the recorded files.
-/
namespace Offsite

inductive RestoreError where
  | ledger (e : LedgerError)
  | download
  | archiveMd5 (segment : String)
  | unsafePath (name : String)
  | notListed (name : String)
  | unsafeType (name : String)
  | sizeMismatch (name : String)
  | hashMismatch (name : String)
  | notAFile (name : String)
  | conflict (name : String)
  | noDirectory (name : String)
  | missingMembers (segment : String)
  deriving DecidableEq

/-- The files of a directory. -/
abbrev Files (Bytes : Type) := List (String × Bytes)

abbrev Remote (Archive : Type) := List (String × Archive)

section

variable {Bytes Archive : Type}

/-- A file is put at `name`, unless the same file is there or something else is in the way. -/
def place (tools : Tools Bytes Archive) (dest : Files Bytes) (name : String) (b : Bytes) (sha256 : String) :
    Except RestoreError (Files Bytes) :=
  match dest.lookup name with
  | some b' => if tools.sha256 b' = sha256 then .ok dest else .error (.conflict name)
  | none =>
    if dest.any (fun f => inside name f.1) then .error (.notAFile name)
    else if dest.any (fun f => inside f.1 name) then .error (.noDirectory name)
    else .ok (dest ++ [(name, b)])

/-- One member of the archive; `expected[name]` is the last of equal names. -/
def restoreMember (tools : Tools Bytes Archive) (expected : List SegmentMember) (acc : Files Bytes × List String)
    (info : String × Option Bytes) : Except RestoreError (Files Bytes × List String) := do
  let name := info.1
  Exc.raiseIf (safePath name = false) (RestoreError.unsafePath name)
  let member ← (expected.reverse.find? (fun m => m.path == name)).elim (.error (.notListed name)) .ok
  let b ← info.2.elim (.error (RestoreError.unsafeType name)) .ok
  Exc.raiseIf ((tools.size b : Int) ≠ member.size) (RestoreError.sizeMismatch name)
  Exc.raiseIf (tools.sha256 b ≠ member.sha256) (RestoreError.hashMismatch name)
  let dest ← place tools acc.1 name b member.sha256
  pure (dest, acc.2 ++ [name])

/-- One segment, with the files and the names restored before it. -/
def restoreEntry (tools : Tools Bytes Archive) (remote : Remote Archive) (acc : Files Bytes × List String) (e : LedgerEntry) :
    Except RestoreError (Files Bytes × List String) := do
  let archive ← (remote.lookup e.remotePath).elim (.error RestoreError.download) .ok
  Exc.raiseIf (tools.md5 archive ≠ e.archiveMd5) (RestoreError.archiveMd5 e.segmentName)
  let (dest, names) ← (tools.untar archive).foldlM (restoreMember tools e.members) (acc.1, [])
  Exc.raiseIf (∃ m ∈ e.members, m.path ∉ names) (RestoreError.missingMembers e.segmentName)
  pure (dest, acc.2 ++ names)

/-- `restore_date` into a directory: its files, and the sorted names. -/
def restoreDate (tools : Tools Bytes Archive) (tier tradingDate : String) (ledger : List Char) (remote : Remote Archive)
    (dest : Files Bytes) : Except RestoreError (Files Bytes × List String) := do
  let entries ← (readLedger tier tradingDate ledger).mapError RestoreError.ledger
  let (dest, names) ← entries.foldlM (restoreEntry tools remote) (dest, [])
  pure (dest, names.mergeSort (fun a b => a ≤ b))

/-! ## What was stored comes back -/

/-- Archives that give back what they were made of, and checksums no two archives share. -/
structure Tools.Faithful (tools : Tools Bytes Archive) : Prop where
  untar_tar : ∀ files : Files Bytes, (∀ f ∈ files, cleanPath f.1 = true) →
    tools.untar (tools.tar files) = files.map (fun f => (f.1, some f.2))
  md5_injective : ∀ a a' : Archive, tools.md5 a = tools.md5 a' → a = a'

/-- The entry is the record of these files. -/
structure Records (tools : Tools Bytes Archive) (e : LedgerEntry) (files : Files Bytes) : Prop where
  members : e.members = files.map (fun f => tools.member f.1 f.2)
  clean : ∀ f ∈ files, cleanPath f.1 = true
  md5 : e.archiveMd5 = tools.md5 (tools.tar files)

/-- No two files are in each other's way. -/
def Separate (files : Files Bytes) : Prop := files.Pairwise (fun f f' => apart f.1 f'.1 = true)

variable {tools : Tools Bytes Archive} {t : Tree Bytes} {remote : Remote Archive} {e : LedgerEntry} {files dest : Files Bytes}

theorem Separate.nodup (h : Separate files) : (files.map Prod.fst).Nodup := List.pairwise_map.2 (h.imp apart_ne)

theorem Records.paths (h : Records tools e files) : e.paths = files.map Prod.fst := by
  rw [LedgerEntry.paths, h.members, List.map_map]
  rfl

theorem place_of_apart {path : String} {b : Bytes} {sha256 : String} (h : ∀ f ∈ dest, apart f.1 path = true) :
    place tools dest path b sha256 = .ok (dest ++ [(path, b)]) := by
  have hnone : dest.lookup path = none := List.lookup_eq_none_iff.2 (fun f hf => by
    have := apart_ne (h f hf)
    simpa using this.symm)
  unfold place
  rw [hnone]
  dsimp only
  rw [if_neg, if_neg]
  · simp only [List.any_eq_true, not_exists, not_and]
    intro f hf hin
    have hapart := h f hf
    simp [apart, hin] at hapart
  · simp only [List.any_eq_true, not_exists, not_and]
    intro f hf hin
    have hapart := h f hf
    simp [apart, hin] at hapart

theorem restoreMember_of_apart {expected : List SegmentMember} {names : List String} {path : String} {b : Bytes}
    (hexpected : tools.member path b ∈ expected) (hnodup : (expected.map SegmentMember.path).Nodup)
    (hclean : cleanPath path = true) (h : ∀ f ∈ dest, apart f.1 path = true) :
    restoreMember tools expected (dest, names) (path, some b) = .ok (dest ++ [(path, b)], names ++ [path]) := by
  have hfind : expected.reverse.find? (fun m => m.path == path) = some (tools.member path b) := by
    cases hfound : expected.reverse.find? (fun m => m.path == path) with
    | none =>
      have hnot := List.find?_eq_none.1 hfound _ (List.mem_reverse.2 hexpected)
      simp [Tools.member] at hnot
    | some m =>
      have hm : m.path = path := by simpa using List.find?_some hfound
      have hmem := List.mem_reverse.1 (List.mem_of_find?_eq_some hfound)
      rw [List.inj_on_of_nodup_map hnodup hmem hexpected hm]
  have hsafe : ¬ safePath path = false := by simp [safePath_of_clean hclean]
  unfold restoreMember
  dsimp only
  rw [Exc.raiseIf, if_neg hsafe, Exc.ok_bind, hfind, Option.elim_some, Exc.ok_bind, Option.elim_some, Exc.ok_bind,
    Exc.raiseIf, if_neg (by simp [Tools.member]), Exc.ok_bind, Exc.raiseIf, if_neg (by simp [Tools.member]), Exc.ok_bind,
    place_of_apart h]
  rfl

theorem restoreMembers_of_separate {expected : List SegmentMember} (hnodup : (expected.map SegmentMember.path).Nodup) :
    ∀ {files dest : Files Bytes} {names : List String}, (∀ f ∈ files, tools.member f.1 f.2 ∈ expected) →
      (∀ f ∈ files, cleanPath f.1 = true) → Separate (dest ++ files) →
      (files.map (fun f => (f.1, some f.2))).foldlM (restoreMember tools expected) (dest, names) =
        .ok (dest ++ files, names ++ files.map Prod.fst)
  | [], dest, names, _, _, _ => by simp
  | f :: files, dest, names, hexpected, hclean, hseparate => by
    obtain ⟨hf, hfiles⟩ := List.forall_mem_cons.1 hexpected
    obtain ⟨hcleanf, hcleans⟩ := List.forall_mem_cons.1 hclean
    have hapart : ∀ f' ∈ dest, apart f'.1 f.1 = true := fun f' hf' =>
      (List.pairwise_append.1 hseparate).2.2 f' hf' f List.mem_cons_self
    rw [List.append_cons] at hseparate
    rw [List.map_cons, List.foldlM_cons, restoreMember_of_apart hf hnodup hcleanf hapart, Exc.ok_bind,
      restoreMembers_of_separate hnodup hfiles hcleans hseparate]
    simp

theorem restoreEntry_of_records (hfaithful : tools.Faithful) {names : List String} (h : Records tools e files)
    (harchive : remote.lookup e.remotePath = some (tools.tar files)) (hseparate : Separate (dest ++ files)) :
    restoreEntry tools remote (dest, names) e = .ok (dest ++ files, names ++ e.paths) := by
  have hmembers : ∀ f ∈ files, tools.member f.1 f.2 ∈ e.members := fun f hf => by
    rw [h.members]
    exact List.mem_map.2 ⟨f, hf, rfl⟩
  have hnodup : e.paths.Nodup := by
    rw [h.paths]
    exact Separate.nodup (List.pairwise_append.1 hseparate).2.1
  have hnames : ¬ ∃ m ∈ e.members, m.path ∉ ([] : List String) ++ files.map Prod.fst := by
    rintro ⟨m, hm, hnot⟩
    apply hnot
    rw [List.nil_append, ← h.paths]
    exact List.mem_map.2 ⟨m, hm, rfl⟩
  unfold restoreEntry
  rw [harchive, Option.elim_some, Exc.ok_bind, Exc.raiseIf, if_neg (by simp [h.md5]), Exc.ok_bind,
    hfaithful.untar_tar files h.clean, restoreMembers_of_separate hnodup hmembers h.clean hseparate, Exc.ok_bind]
  dsimp only
  rw [Exc.raiseIf, if_neg hnames, Exc.ok_bind, List.nil_append, ← h.paths]
  rfl

/-- Each entry is the record of its contents, which the remote has. -/
def AllKept (tools : Tools Bytes Archive) (remote : Remote Archive) (contents : LedgerEntry → Files Bytes)
    (entries : List LedgerEntry) : Prop :=
  ∀ e ∈ entries, Records tools e (contents e) ∧ remote.lookup e.remotePath = some (tools.tar (contents e))

theorem restoreEntries_of_kept (hfaithful : tools.Faithful) {contents : LedgerEntry → Files Bytes} :
    ∀ {entries : List LedgerEntry} {dest : Files Bytes} {names : List String}, AllKept tools remote contents entries →
      Separate (dest ++ entries.flatMap contents) →
      entries.foldlM (restoreEntry tools remote) (dest, names) =
        .ok (dest ++ entries.flatMap contents, names ++ entries.flatMap LedgerEntry.paths)
  | [], dest, names, _, _ => by simp
  | e :: entries, dest, names, hkept, hseparate => by
    obtain ⟨⟨hrecords, harchive⟩, hentries⟩ := List.forall_mem_cons.1 hkept
    rw [List.flatMap_cons, ← List.append_assoc] at hseparate
    rw [List.foldlM_cons, restoreEntry_of_records hfaithful hrecords harchive (List.pairwise_append.1 hseparate).1,
      Exc.ok_bind, restoreEntries_of_kept hfaithful hentries hseparate]
    simp

/-- **An empty directory ends up with exactly the recorded files.** -/
theorem restoreDate_of_kept (hfaithful : tools.Faithful) {contents : LedgerEntry → Files Bytes} {tier tradingDate : String}
    {entries : List LedgerEntry} (hcommitted : Committed tier tradingDate entries) (hkept : AllKept tools remote contents entries)
    (hseparate : Separate (entries.flatMap contents)) :
    restoreDate tools tier tradingDate (render entries) remote [] =
      .ok (entries.flatMap contents, (entries.flatMap LedgerEntry.paths).mergeSort (fun a b => a ≤ b)) := by
  unfold restoreDate
  rw [readLedger_render hcommitted]
  change entries.foldlM (restoreEntry tools remote) ([], []) >>= _ = _
  rw [restoreEntries_of_kept hfaithful hkept hseparate]
  simp

/-! ## Files of one tree -/

/-- The entry is of these files of the tree, and their archive is in the remote. -/
structure StoredFiles (tools : Tools Bytes Archive) (t : Tree Bytes) (remote : Remote Archive) (e : LedgerEntry)
    (files : Files Bytes) : Prop where
  members : e.members = files.map (fun f => tools.member f.1 f.2)
  inTree : ∀ f ∈ files, t.lookup f.1 = some (.file f.2)
  settled : ∀ f ∈ files, isInflight f.1 = false
  archive : remote.lookup e.remotePath = some (tools.tar files)
  md5 : e.archiveMd5 = tools.md5 (tools.tar files)

def Stored (tools : Tools Bytes Archive) (t : Tree Bytes) (remote : Remote Archive) (e : LedgerEntry) : Prop :=
  ∃ files, StoredFiles tools t remote e files

theorem Tree.clean_of_lookup {path : String} {node : Node Bytes} (h : t.lookup path = some node) : cleanPath path = true :=
  t.clean (path, node) (Tree.lookup_iff.1 h)

theorem apart_symm {p q : String} (h : apart p q = true) : apart q p = true := by
  unfold apart at h ⊢
  simp only [Bool.and_eq_true, decide_eq_true_eq] at h ⊢
  exact ⟨⟨h.1.1.symm, h.2⟩, h.1.2⟩

/-- Two paths of the tree are not in each other's way. -/
theorem Tree.apart_of_lookup {p q : String} {node node' : Node Bytes} (hp : t.lookup p = some node)
    (hq : t.lookup q = some node') (hne : p ≠ q) : Offsite.apart p q = true := by
  have hsymm : Std.Symm (fun n n' : String × Node Bytes => Offsite.apart n.1 n'.1 = true) := ⟨fun _ _ h => apart_symm h⟩
  exact t.apart.forall (Tree.lookup_iff.1 hp) (Tree.lookup_iff.1 hq) (fun heq => hne (Prod.mk.inj heq).1)

theorem separate_of_tree (hin : ∀ f ∈ files, t.lookup f.1 = some (.file f.2)) (hnodup : (files.map Prod.fst).Nodup) :
    Separate files := by
  have hne : files.Pairwise (fun f f' => f.1 ≠ f'.1) := List.pairwise_map.1 hnodup
  exact hne.imp_of_mem (fun hf hf' hne => Tree.apart_of_lookup (hin _ hf) (hin _ hf') hne)

theorem StoredFiles.records (h : StoredFiles tools t remote e files) : Records tools e files :=
  ⟨h.members, fun f hf => Tree.clean_of_lookup (h.inTree f hf), h.md5⟩

theorem Committed.nodup_paths {tier tradingDate : String} {entries : List LedgerEntry} (h : Committed tier tradingDate entries) :
    (entries.flatMap LedgerEntry.paths).Nodup :=
  List.nodup_flatMap.2 ⟨fun e he => (h.wellFormed e he).nodup, h.disjoint⟩

/-- Stored entries have contents of their own, which are not in each other's way. -/
theorem exists_contents {tier tradingDate : String} {entries : List LedgerEntry} (hcommitted : Committed tier tradingDate entries)
    (hstored : ∀ e ∈ entries, Stored tools t remote e) : ∃ contents : LedgerEntry → Files Bytes,
      AllKept tools remote contents entries ∧ Separate (entries.flatMap contents) ∧
      (entries.flatMap contents).map Prod.fst = entries.flatMap LedgerEntry.paths ∧
      ∀ f ∈ entries.flatMap contents, t.lookup f.1 = some (.file f.2) := by
  classical
  choose files hfiles using hstored
  have hcontents (e : LedgerEntry) (he : e ∈ entries) : StoredFiles tools t remote e (if h : e ∈ entries then files e h else []) := by
    rw [dif_pos he]
    exact hfiles e he
  refine ⟨fun e => if h : e ∈ entries then files e h else [], fun e he => ⟨(hcontents e he).records, (hcontents e he).archive⟩, ?_⟩
  have hpaths : (entries.flatMap (fun e => if h : e ∈ entries then files e h else [])).map Prod.fst =
      entries.flatMap LedgerEntry.paths := by
    rw [List.map_flatMap]
    exact List.flatMap_congr (fun e he => (hcontents e he).records.paths.symm)
  have hin : ∀ f ∈ entries.flatMap (fun e => if h : e ∈ entries then files e h else []), t.lookup f.1 = some (.file f.2) := by
    intro f hf
    obtain ⟨e, he, hf⟩ := List.mem_flatMap.1 hf
    exact (hcontents e he).inTree f hf
  refine ⟨separate_of_tree hin ?_, hpaths, hin⟩
  rw [hpaths]
  exact hcommitted.nodup_paths

/-- **Stored entries come back as the files of the tree.** -/
theorem restoreDate_of_stored (hfaithful : tools.Faithful) {tier tradingDate : String} {entries : List LedgerEntry}
    (hcommitted : Committed tier tradingDate entries) (hstored : ∀ e ∈ entries, Stored tools t remote e) :
    ∃ files : Files Bytes, restoreDate tools tier tradingDate (render entries) remote [] =
        .ok (files, (entries.flatMap LedgerEntry.paths).mergeSort (fun a b => a ≤ b)) ∧
      files.map Prod.fst = entries.flatMap LedgerEntry.paths ∧ ∀ f ∈ files, t.lookup f.1 = some (.file f.2) := by
  obtain ⟨contents, hkept, hseparate, hpaths, hin⟩ := exists_contents hcommitted hstored
  exact ⟨_, restoreDate_of_kept hfaithful hcommitted hkept hseparate, hpaths, hin⟩

end

end Offsite
