import KClosingAlpha.Offsite.Sealed
/-!
# Prune — removing the local copy of what is sealed

A prune pass lists a date's directory, compares it with the ledger, asks the remote for the sum of every segment, and
removes the whole directory.  It holds the seal lock, so the ledgers stay as they are; publishers do not take it.  What
they publish between the listing and the removal goes with the directory.
-/
namespace Offsite

variable {Bytes Archive : Type}

/-! ## The pass -/

/-- What a name below a tier is. -/
inductive Child where
  | directory
  | link
  | other
  deriving DecidableEq

inductive PruneOp where
  /-- `iterdir` of a tier. -/
  | list (tier : Tier)
  /-- The deadline has passed. -/
  | now
  | walk (key : Tier × String)
  | md5sum (remote : String)
  | rmtree (key : Tier × String)

def PruneRet (Bytes : Type) : PruneOp → Type
  | .list _ => List (String × Child)
  | .now => Bool
  | .walk _ => List (String × Node Bytes)
  | .md5sum _ => Option (Option String)
  | .rmtree _ => Bool

/-- `OSError`: a removal failed. -/
inductive PruneError where
  | removal (label : String)

abbrev Pruner (Bytes α : Type) := Prog PruneOp (PruneRet Bytes) PruneError α

namespace Ask

def list (tier : Tier) : Pruner Bytes (List (String × Child)) := Prog.call (PruneOp.list tier) Prog.ret

def deadlinePassed : Pruner Bytes Bool := Prog.call PruneOp.now Prog.ret

def walk (key : Tier × String) : Pruner Bytes (List (String × Node Bytes)) := Prog.call (PruneOp.walk key) Prog.ret

def remoteMd5 (remote : String) : Pruner Bytes (Option (Option String)) := Prog.call (PruneOp.md5sum remote) Prog.ret

def rmtree (key : Tier × String) : Pruner Bytes Bool := Prog.call (PruneOp.rmtree key) Prog.ret

end Ask

structure LocalRetentionReport where
  removed : List String
  kept : List (String × String)
  bytesRemoved : Nat
  stoppedByDeadline : Bool

/-- The size of a regular file. -/
def fileSize (tools : Tools Bytes Archive) : Node Bytes → Option Int
  | .file b => some (tools.size b)
  | .link => none

/-- Why a directory is kept after the walk: the first reason counts. -/
def whyKept (tools : Tools Bytes Archive) (recorded : List (String × Int)) (nodes : List (String × Node Bytes)) : Option String :=
  let isFile (n : String × Node Bytes) : Bool := (fileSize tools n.2).isSome
  if nodes.any (fun n => isInflight n.1) then some "inflight"
  else if nodes.any (fun n => isFile n && (recorded.lookup n.1).isNone) then some "unsealed_file"
  else if nodes.any (fun n => isFile n && (recorded.lookup n.1).isSome && fileSize tools n.2 != recorded.lookup n.1) then
    some "size_mismatch"
  else if nodes.any (fun n => !isFile n) then some "symlink_member"
  else none

/-- Every segment has the recorded sum in the remote. -/
def verifyRemote : List LedgerEntry → Pruner Bytes Bool
  | [] => .ret true
  | e :: rest => do
    match ← Ask.remoteMd5 e.remotePath with
    | none => .ret false
    | some sum => if sum = some e.archiveMd5 then verifyRemote rest else .ret false

def LocalRetentionReport.keep (r : LocalRetentionReport) (label reason : String) : LocalRetentionReport :=
  { r with kept := r.kept ++ [(label, reason)] }

/-- One expired directory with its entries, from the walk on. -/
def pruneListed (tools : Tools Bytes Archive) (dryRun : Bool) (key : Tier × String) (entries : List LedgerEntry)
    (nodes : List (String × Node Bytes)) (report : LocalRetentionReport) : Pruner Bytes LocalRetentionReport :=
  let label := key.1.name ++ "/" ++ key.2
  match whyKept tools (sealedSizes entries) nodes with
  | some reason => .ret (report.keep label reason)
  | none => do
    let verified ← verifyRemote entries
    let bytes := ((nodes.filterMap (fun n => fileSize tools n.2)).sum).toNat
    let done := { report with removed := report.removed ++ [label], bytesRemoved := report.bytesRemoved + bytes }
    if verified = false then .ret (report.keep label "remote_unverified")
    else if dryRun then .ret done
    else
      match ← Ask.rmtree key with
      | true => .ret done
      | false => .raise (.removal label)

/-- One expired directory. -/
def pruneDate (tools : Tools Bytes Archive) (ledger : Tier → String → List Char) (dryRun : Bool) (key : Tier × String)
    (report : LocalRetentionReport) : Pruner Bytes LocalRetentionReport :=
  let label := key.1.name ++ "/" ++ key.2
  match readLedger key.1.name key.2 (ledger key.1 key.2) with
  | .error _ => .ret (report.keep label "ledger_invalid")
  | .ok [] => .ret (report.keep label "no_ledger")
  | .ok entries => do
    let nodes ← Ask.walk key
    pruneListed tools dryRun key entries nodes report

/-- The directories of a tier that are older than the cutoff, until the deadline. -/
def pruneNames (tools : Tools Bytes Archive) (ledger : Tier → String → List Char) (dryRun : Bool) (cutoff : String) (tier : Tier) :
    List (String × Child) → LocalRetentionReport → Pruner Bytes LocalRetentionReport
  | [], report => .ret report
  | (name, child) :: rest, report => do
    match ← Ask.deadlinePassed with
    | true => .ret { report with stoppedByDeadline := true }
    | false =>
      if isDateName name = false ∨ cutoff ≤ name then pruneNames tools ledger dryRun cutoff tier rest report
      else
        match child with
        | .link => pruneNames tools ledger dryRun cutoff tier rest (report.keep (tier.name ++ "/" ++ name) "symlink")
        | .other => pruneNames tools ledger dryRun cutoff tier rest report
        | .directory => do
          let report ← pruneDate tools ledger dryRun (tier, name) report
          pruneNames tools ledger dryRun cutoff tier rest report

/-- `prune_local_sealed_capture` under the lock.  The tiers are in order; dates before the cutoff are older than the
retention, which names in ISO format order as dates. -/
def pruneTiers (tools : Tools Bytes Archive) (ledger : Tier → String → List Char) (dryRun : Bool) (cutoff : String) :
    List Tier → LocalRetentionReport → Pruner Bytes LocalRetentionReport
  | [], report => .ret report
  | tier :: rest, report => do
    if report.stoppedByDeadline then return report
    let children ← Ask.list tier
    let report ← pruneNames tools ledger dryRun cutoff tier (children.mergeSort (fun a b => a.1 ≤ b.1)) report
    pruneTiers tools ledger dryRun cutoff rest report

def prune (tools : Tools Bytes Archive) (ledger : Tier → String → List Char) (dryRun : Bool) (cutoff : String) :
    Pruner Bytes LocalRetentionReport :=
  pruneTiers tools ledger dryRun cutoff [.manifests, .normalized, .raw] ⟨[], [], 0, false⟩

/-! ## Among publishers -/

/-- The local tree, what the pass listed last, and the files that its removals deleted. -/
structure Local (Bytes : Type) where
  tree : Tree Bytes
  listed : List (String × Node Bytes)
  removed : Files Bytes

/-- The nodes of a directory go that are `gone`: all of them, or those before a failure. -/
def Local.rmtree (w : Local Bytes) (key : Tier × String) (gone : String × Node Bytes → Bool) : Local Bytes where
  tree := w.tree.filter (fun n => !(inside (dateDir key.1 key.2) n.1 && gone n))
  listed := w.listed
  removed := w.removed ++ ((w.tree.walk key.1 key.2).filter gone).filterMap (fun n =>
    match n.2 with
    | .file b => some (n.1, b)
    | .link => none)

/-- What may happen besides the pass. -/
structure Rules (Bytes : Type) where
  mayPublish : Local Bytes → String → Node Bytes → Prop
  mayRemove : Local Bytes → Tier × String → Prop

/-- The surroundings of the pass: a remote that stays as it is, whatever it holds, and calls that may fail. -/
def pruneAnswers (tools : Tools Bytes Archive) (remote : Remote Archive) (rules : Rules Bytes) :
    Prog.Exec PruneOp (PruneRet Bytes) (Local Bytes)
  | .list _, w, _, w' | .now, w, _, w' => w' = w
  | .walk key, w, r, w' => r = w.tree.walk key.1 key.2 ∧ w' = { w with listed := r }
  | .md5sum path, w, r, w' =>
    w' = w ∧ ∀ sum, r = some (some sum) → ∃ archive, remote.lookup path = some archive ∧ sum = tools.md5 archive
  | .rmtree key, w, r, w' => rules.mayRemove w key ∧
    ∃ gone, w' = w.rmtree key gone ∧ (r = true → ∀ n ∈ w.tree.walk key.1 key.2, gone n = true)

structure Pruning (Bytes : Type) where
  world : Local Bytes
  pass : Option (Pruner Bytes LocalRetentionReport)

inductive PruneStep (tools : Tools Bytes Archive) (ledger : Tier → String → List Char) (remote : Remote Archive)
    (rules : Rules Bytes) (s : Pruning Bytes) : Pruning Bytes → Prop
  | publish (path : String) (node : Node Bytes) (hclean : cleanPath path = true)
      (hapart : ∀ n ∈ s.world.tree.nodes, apart n.1 path = true) (hmay : rules.mayPublish s.world path node) :
      PruneStep tools ledger remote rules s
        { s with world := { s.world with tree := s.world.tree.add path node hclean hapart } }
  /-- What is in flight does not stay. -/
  | discard (path : String) (hflight : isInflight path = true) :
      PruneStep tools ledger remote rules s { s with world := { s.world with tree := s.world.tree.remove path } }
  | start (dryRun : Bool) (cutoff : String) (hfree : s.pass = none) :
      PruneStep tools ledger remote rules s { s with pass := some (prune tools ledger dryRun cutoff) }
  | work (q q' : Pruner Bytes LocalRetentionReport) (w' : Local Bytes) (hrun : s.pass = some q)
      (hstep : Prog.Next (pruneAnswers tools remote rules) q s.world q' w') :
      PruneStep tools ledger remote rules s ⟨w', some q'⟩
  /-- The pass ends, raises or dies. -/
  | stop : PruneStep tools ledger remote rules s { s with pass := none }

/-! ## What can be restored -/

/-- The entries of a date. -/
def entriesOf (ledger : Tier → String → List Char) (key : Tier × String) : Except LedgerError (List LedgerEntry) :=
  readLedger key.1.name key.2 (ledger key.1 key.2)

/-- The file is a member of a segment whose sum was found in the remote, and a restore brings it back with its bytes. -/
def Recoverable (tools : Tools Bytes Archive) (ledger : Tier → String → List Char) (remote : Remote Archive)
    (f : String × Bytes) : Prop :=
  ∃ key entries e, entriesOf ledger key = .ok entries ∧ e ∈ entries ∧ f.1 ∈ e.paths ∧
    (∃ archive, remote.lookup e.remotePath = some archive ∧ tools.md5 archive = e.archiveMd5) ∧
    ∃ files names, restoreDate tools key.1.name key.2 (ledger key.1 key.2) remote [] = .ok (files, names) ∧ f ∈ files

/-- A ledger says that the path was sealed with these bytes. -/
def SealedAs (tools : Tools Bytes Archive) (ledger : Tier → String → List Char) (path : String) (b : Bytes) : Prop :=
  ∃ key entries e files, entriesOf ledger key = .ok entries ∧ e ∈ entries ∧ Records tools e files ∧ (path, b) ∈ files

/-- The ledgers are those of committed entries, each the record of files that are not in each other's way. -/
def HonestLedgers (tools : Tools Bytes Archive) (ledger : Tier → String → List Char) : Prop :=
  ∀ key : Tier × String, ∃ (entries : List LedgerEntry) (contents : LedgerEntry → Files Bytes),
    ledger key.1 key.2 = render entries ∧ Committed key.1.name key.2 entries ∧
    (∀ e ∈ entries, Records tools e (contents e)) ∧ Separate (entries.flatMap contents)

/-- A file of the recorded size has the recorded bytes. -/
def Unreplaced (tools : Tools Bytes Archive) (ledger : Tier → String → List Char) (path : String) (node : Node Bytes) : Prop :=
  ∀ b b₀, node = .file b → SealedAs tools ledger path b₀ → tools.size b = tools.size b₀ → b = b₀

/-- Prune passes over a tree whose recorded files are those that were sealed. -/
def pruning (tools : Tools Bytes Archive) (ledger : Tier → String → List Char) (remote : Remote Archive) (rules : Rules Bytes) :
    System (Pruning Bytes) where
  start s := s.pass = none ∧ s.world.listed = [] ∧ s.world.removed = [] ∧
    ∀ path node, s.world.tree.lookup path = some node → Unreplaced tools ledger path node
  step := PruneStep tools ledger remote rules

/-- Anything is published at any moment. -/
def anyRules (Bytes : Type) : Rules Bytes := ⟨fun _ _ _ => True, fun _ _ => True⟩

/-- A directory is removed as it was listed, and no file of a recorded size is published over other bytes. -/
def calmRules (tools : Tools Bytes Archive) (ledger : Tier → String → List Char) : Rules Bytes where
  mayPublish _ path node := Unreplaced tools ledger path node
  mayRemove w key := w.tree.walk key.1 key.2 = w.listed


/-! ## Only what can be restored is removed -/

section

variable {tools : Tools Bytes Archive} {ledger : Tier → String → List Char} {remote : Remote Archive} {w w' : Local Bytes}

/-- Every recorded file of the tree is the one that was sealed. -/
def AllUnreplaced (tools : Tools Bytes Archive) (ledger : Tier → String → List Char) (t : Tree Bytes) : Prop :=
  ∀ path node, t.lookup path = some node → Unreplaced tools ledger path node

/-- The publishers leave the pass its listing. -/
def KeepsListing (w w' : Local Bytes) : Prop := w'.listed = w.listed

/-- What a step of the pass does to the tree: nodes go, and their files can be restored. -/
structure Removes (tools : Tools Bytes Archive) (ledger : Tier → String → List Char) (remote : Remote Archive)
    (w w' : Local Bytes) : Prop where
  tree : ∀ path node, w'.tree.lookup path = some node → w.tree.lookup path = some node
  removed : ∀ f ∈ w'.removed, f ∈ w.removed ∨ (AllUnreplaced tools ledger w.tree → Recoverable tools ledger remote f)

/-- The precondition of the pass among calm publishers. -/
abbrev Prunes {α : Type} (tools : Tools Bytes Archive) (ledger : Tier → String → List Char) (remote : Remote Archive)
    (q : Pruner Bytes α) (Q : Except PruneError α → Local Bytes → Prop) (w : Local Bytes) : Prop :=
  Prog.rg (pruneAnswers tools remote (calmRules tools ledger)) KeepsListing (Removes tools ledger remote) q Q w

theorem Removes.of_eq (hw : w'.tree = w.tree) (hremoved : w'.removed = w.removed) : Removes tools ledger remote w w' where
  tree path node h := by
    rw [hw] at h
    exact h
  removed f h := by
    rw [hremoved] at h
    exact .inl h

/-- A directory whose every file is recorded with its size, and no link is there. -/
theorem recorded_of_whyKept {recorded : List (String × Int)} {nodes : List (String × Node Bytes)}
    (h : whyKept tools recorded nodes = none) {n : String × Node Bytes} (hn : n ∈ nodes) :
    ∃ b, n.2 = .file b ∧ recorded.lookup n.1 = some (tools.size b : Int) := by
  unfold whyKept at h
  simp only at h
  split_ifs at h with hflight hunsealed hsize hlink
  simp only [Bool.not_eq_true, List.any_eq_false, Bool.and_eq_true, not_and, bne_iff_ne, ne_eq, not_not] at hunsealed hsize hlink
  obtain ⟨path, b | _⟩ := n
  · refine ⟨b, rfl, ?_⟩
    have hrec := hunsealed _ hn rfl
    have heq := hsize _ hn ⟨rfl, by simpa [Option.isSome_iff_ne_none] using hrec⟩
    exact heq.symm
  · exact absurd (hlink _ hn) (by simp [fileSize])

theorem Records.unique (hfaithful : tools.Faithful) {e : LedgerEntry} {files files' : Files Bytes} (h : Records tools e files)
    (h' : Records tools e files') : files = files' := by
  have htar := hfaithful.md5_injective _ _ (h.md5.symm.trans h'.md5)
  have huntar := congrArg tools.untar htar
  rw [hfaithful.untar_tar _ h.clean, hfaithful.untar_tar _ h'.clean] at huntar
  have hinj : Function.Injective (fun f : String × Bytes => (f.1, some f.2)) := by
    rintro ⟨path, b⟩ ⟨path', b'⟩ heq
    cases heq
    rfl
  exact hinj.list_map huntar

/-- Every segment has the recorded sum in the remote. -/
def AllVerified (tools : Tools Bytes Archive) (remote : Remote Archive) (entries : List LedgerEntry) : Prop :=
  ∀ e ∈ entries, ∃ archive, remote.lookup e.remotePath = some archive ∧ tools.md5 archive = e.archiveMd5

/-- A recorded file whose segments are all verified comes back. -/
theorem recoverable_of_verified (hfaithful : tools.Faithful) (hledgers : HonestLedgers tools ledger) {key : Tier × String}
    {entries : List LedgerEntry} (hentries : entriesOf ledger key = .ok entries) (hverified : AllVerified tools remote entries)
    {path : String} {b : Bytes} (hsize : (sealedSizes entries).lookup path = some (tools.size b : Int))
    (hnode : Unreplaced tools ledger path (.file b)) : Recoverable tools ledger remote (path, b) := by
  obtain ⟨entries', contents, htext, hcommitted, hrecords, hseparate⟩ := hledgers key
  have hread : entriesOf ledger key = .ok entries' := by
    rw [entriesOf, htext]
    exact readLedger_render hcommitted
  rw [hread] at hentries
  cases hentries
  have hkept : AllKept tools remote contents entries := by
    intro e he
    obtain ⟨archive, harchive, hmd5⟩ := hverified e he
    rw [hfaithful.md5_injective _ _ (hmd5.trans (hrecords e he).md5)] at harchive
    exact ⟨hrecords e he, harchive⟩
  obtain ⟨e, he, m, hmember, hpath, hsizes⟩ := exists_member_of_lookup hsize
  have hm := hmember
  rw [(hrecords e he).members] at hm
  obtain ⟨⟨path', b₀⟩, hf, rfl⟩ := List.mem_map.1 hm
  have hpath' : path' = path := hpath
  have hsizes' : (tools.size b₀ : Int) = tools.size b := hsizes
  subst hpath'
  have hb : b = b₀ := hnode b b₀ rfl ⟨key, entries, e, contents e, hread, he, hrecords e he, hf⟩ (by omega)
  subst hb
  have hrestore := restoreDate_of_kept hfaithful hcommitted hkept hseparate
  rw [← htext] at hrestore
  exact ⟨key, entries, e, hread, he, List.mem_map.2 ⟨_, hmember, rfl⟩, hverified e he, _, _, hrestore,
    List.mem_flatMap.2 ⟨e, he, hf⟩⟩

theorem prunes_verifyRemote {nodes : List (String × Node Bytes)} : ∀ (entries : List LedgerEntry) {w : Local Bytes},
    w.listed = nodes → Prunes tools ledger remote (verifyRemote entries)
      (fun o w' => w'.listed = nodes ∧ (o = .ok true → AllVerified tools remote entries)) w
  | [], w, h => ⟨h, fun _ _ he => by cases he⟩
  | e :: rest, w, h => by
    intro w₁ hw₁ r w₂ hr
    obtain ⟨rfl, hsum⟩ := hr
    have hlisted : w₂.listed = nodes := Eq.trans hw₁ h
    refine ⟨.of_eq rfl rfl, ?_⟩
    cases r with
    | none => exact ⟨hlisted, fun heq => by cases heq⟩
    | some sum =>
      change Prunes tools ledger remote (if sum = some e.archiveMd5 then verifyRemote rest else .ret false) _ _
      by_cases heq : sum = some e.archiveMd5
      · rw [if_pos heq]
        rw [heq] at hsum
        obtain ⟨archive, harchive, hmd5⟩ := hsum _ rfl
        exact Prog.rg_mono (prunes_verifyRemote rest hlisted) (fun o w' hq =>
          ⟨hq.1, fun ho => List.forall_mem_cons.2 ⟨⟨archive, harchive, hmd5.symm⟩, hq.2 ho⟩⟩)
      · rw [if_neg heq]
        exact ⟨hlisted, fun h => by cases h⟩

/-- A directory that is removed as it was listed holds only files that can be restored. -/
theorem removes_rmtree (hfaithful : tools.Faithful) (hledgers : HonestLedgers tools ledger) {key : Tier × String}
    {entries : List LedgerEntry} (hentries : entriesOf ledger key = .ok entries) (hverified : AllVerified tools remote entries)
    (hkept : whyKept tools (sealedSizes entries) w.listed = none) (hcalm : w.tree.walk key.1 key.2 = w.listed)
    (gone : String × Node Bytes → Bool) : Removes tools ledger remote w (w.rmtree key gone) where
  tree path node h := Tree.lookup_iff.2 (List.mem_of_mem_filter (Tree.lookup_iff.1 h))
  removed f hf := by
    rcases List.mem_append.1 hf with hf | hf
    · exact .inl hf
    · refine .inr (fun hunreplaced => ?_)
      obtain ⟨n, hn, hfile⟩ := List.mem_filterMap.1 hf
      have hwalk := List.mem_of_mem_filter hn
      obtain ⟨hlookup, -⟩ := Tree.mem_walk.1 hwalk
      rw [hcalm] at hwalk
      obtain ⟨b, hb, hsize⟩ := recorded_of_whyKept hkept hwalk
      rw [hb] at hfile hlookup
      cases hfile
      exact recoverable_of_verified hfaithful hledgers hentries hverified hsize (hunreplaced _ _ hlookup)

theorem prunes_pruneListed (hfaithful : tools.Faithful) (hledgers : HonestLedgers tools ledger) (dryRun : Bool)
    {key : Tier × String} {entries : List LedgerEntry} (hentries : entriesOf ledger key = .ok entries)
    {nodes : List (String × Node Bytes)} (hlisted : w.listed = nodes) (report : LocalRetentionReport) :
    Prunes tools ledger remote (pruneListed tools dryRun key entries nodes report) (fun _ _ => True) w := by
  unfold pruneListed
  cases hkept : whyKept tools (sealedSizes entries) nodes with
  | some reason => trivial
  | none =>
    refine Prog.rg_bind _ (prunes_verifyRemote entries hlisted) ?_ (fun _ _ _ => trivial)
    rintro verified w₁ ⟨hlisted₁, hverified⟩
    cases verified with
    | false => trivial
    | true =>
      cases dryRun with
      | true => trivial
      | false =>
        intro w₂ hw₂ r w₃ hr
        obtain ⟨hcalm, gone, rfl, -⟩ := hr
        have hlisted₂ : w₂.listed = nodes := Eq.trans hw₂ hlisted₁
        rw [← hlisted₂] at hkept
        refine ⟨removes_rmtree hfaithful hledgers hentries (hverified rfl) hkept hcalm gone, ?_⟩
        cases r <;> trivial

theorem prunes_pruneDate (hfaithful : tools.Faithful) (hledgers : HonestLedgers tools ledger) (dryRun : Bool)
    (key : Tier × String) (report : LocalRetentionReport) :
    Prunes tools ledger remote (pruneDate tools ledger dryRun key report) (fun _ _ => True) w := by
  unfold pruneDate
  split
  · trivial
  · trivial
  next entries _ hentries =>
    intro w₁ _ nodes w₂ hwalk
    obtain ⟨-, rfl⟩ := hwalk
    refine ⟨.of_eq rfl rfl, ?_⟩
    change Prunes tools ledger remote (pruneListed tools dryRun key entries nodes report) _ _
    exact prunes_pruneListed (w := ⟨w₁.tree, nodes, w₁.removed⟩) hfaithful hledgers dryRun hentries rfl report

theorem prunes_pruneNames (hfaithful : tools.Faithful) (hledgers : HonestLedgers tools ledger) (dryRun : Bool)
    (cutoff : String) (tier : Tier) : ∀ (names : List (String × Child)) (report : LocalRetentionReport) {w : Local Bytes},
    Prunes tools ledger remote (pruneNames tools ledger dryRun cutoff tier names report) (fun _ _ => True) w
  | [], report, w => trivial
  | (name, child) :: rest, report, w => by
    have ih := prunes_pruneNames hfaithful hledgers dryRun cutoff tier rest
    intro w₁ _ late w₂ hlate
    have hw₂ : w₂ = w₁ := hlate
    subst hw₂
    refine ⟨.of_eq rfl rfl, ?_⟩
    cases late with
    | true => trivial
    | false =>
      change Prunes tools ledger remote (if isDateName name = false ∨ cutoff ≤ name then _ else _) _ _
      by_cases hskip : isDateName name = false ∨ cutoff ≤ name
      · rw [if_pos hskip]
        exact ih report
      · rw [if_neg hskip]
        cases child with
        | link => exact ih _
        | other => exact ih _
        | directory =>
          exact Prog.rg_bind _ (prunes_pruneDate hfaithful hledgers dryRun (tier, name) report)
            (fun report' w' _ => ih report') (fun _ _ _ => trivial)

/-- **A pass among calm publishers removes only what can be restored.** -/
theorem prunes_prune (hfaithful : tools.Faithful) (hledgers : HonestLedgers tools ledger) (dryRun : Bool) (cutoff : String) :
    Prunes tools ledger remote (prune tools ledger dryRun cutoff) (fun _ _ => True) w := by
  have htiers : ∀ (tiers : List Tier) (report : LocalRetentionReport) (w : Local Bytes),
      Prunes tools ledger remote (pruneTiers tools ledger dryRun cutoff tiers report) (fun _ _ => True) w := by
    intro tiers
    induction tiers with
    | nil => exact fun _ _ => trivial
    | cons tier rest ih =>
      intro report w
      unfold pruneTiers
      by_cases hstopped : report.stoppedByDeadline = true
      · rw [if_pos hstopped]
        trivial
      · rw [if_neg hstopped]
        intro w₁ _ children w₂ hlist
        have hw₂ : w₂ = w₁ := hlist
        subst hw₂
        refine ⟨.of_eq rfl rfl, ?_⟩
        let names : List (String × Child) := children
        change Prunes tools ledger remote
          (Prog.bind (pruneNames tools ledger dryRun cutoff tier (names.mergeSort (fun a b => a.1 ≤ b.1)) report) _) _ _
        exact Prog.rg_bind _ (prunes_pruneNames hfaithful hledgers dryRun cutoff tier _ report)
          (fun report' w' _ => ih report' w') (fun _ _ _ => trivial)
  exact htiers _ _ w

/-- What holds between any two steps. -/
structure PruningOk (tools : Tools Bytes Archive) (ledger : Tier → String → List Char) (remote : Remote Archive)
    (s : Pruning Bytes) : Prop where
  tree : AllUnreplaced tools ledger s.world.tree
  pass : ∀ q, s.pass = some q → Prunes tools ledger remote q (fun _ _ => True) s.world
  removed : ∀ f ∈ s.world.removed, Recoverable tools ledger remote f

theorem pruningOk_inductive (hfaithful : tools.Faithful) (hledgers : HonestLedgers tools ledger) :
    (pruning tools ledger remote (calmRules tools ledger)).Inductive (PruningOk tools ledger remote) where
  start := by
    rintro s ⟨hpass, -, hremoved, htree⟩
    refine ⟨htree, fun q hq => ?_, fun f hf => ?_⟩
    · rw [hpass] at hq
      cases hq
    · rw [hremoved] at hf
      cases hf
  step := by
    rintro s s' hs hstep
    have hothers (t : Tree Bytes) (q : Pruner Bytes LocalRetentionReport) (hq : s.pass = some q) :
        Prunes tools ledger remote q (fun _ _ => True) { s.world with tree := t } :=
      Prog.rg_stable (fun _ _ _ h h' => h'.trans h) (fun _ _ _ _ _ => trivial) (hs.pass q hq) rfl
    cases hstep with
    | publish path node hclean hapart hmay =>
      refine ⟨fun path' node' hlookup => ?_, fun q => hothers _ q, hs.removed⟩
      rcases List.mem_append.1 (Tree.lookup_iff.1 hlookup) with hmem | hmem
      · exact hs.tree path' node' (Tree.lookup_iff.2 hmem)
      · cases List.mem_singleton.1 hmem
        exact hmay
    | discard path hflight =>
      exact ⟨fun path' node' hlookup => hs.tree path' node' (Tree.lookup_iff.2 (List.mem_of_mem_filter (Tree.lookup_iff.1 hlookup))),
        fun q => hothers _ q, hs.removed⟩
    | start dryRun cutoff hfree =>
      refine ⟨hs.tree, fun q hq => ?_, hs.removed⟩
      cases hq
      exact prunes_prune hfaithful hledgers dryRun cutoff
    | work q q' w' hrun hnext =>
      obtain ⟨hremoves, hq'⟩ := Prog.rg_next (R := KeepsListing) (fun _ => rfl) (hs.pass q hrun) hnext
      refine ⟨fun path node hlookup => hs.tree path node (hremoves.tree path node hlookup), fun q hq => ?_, fun f hf => ?_⟩
      · cases hq
        exact hq'
      · rcases hremoves.removed f hf with hf | hrecoverable
        · exact hs.removed f hf
        · exact hrecoverable hs.tree
    | stop => exact ⟨hs.tree, fun q hq => (by cases hq), hs.removed⟩

/-- **As long as a directory is removed as it was listed, and no file of a recorded size is published over other bytes,
every file that was removed can be restored.** -/
theorem prune_safe (hfaithful : tools.Faithful) (hledgers : HonestLedgers tools ledger) :
    (pruning tools ledger remote (calmRules tools ledger)).Always
      (fun s => ∀ f ∈ s.world.removed, Recoverable tools ledger remote f) :=
  fun s hreach => ((pruningOk_inductive hfaithful hledgers).always s hreach).removed

end

/-! ## What sealing leaves, and one file more -/

/-- Sealing leaves honest ledgers, and recorded files that are those sealed. -/
theorem honest_of_sealing {tools : Tools Bytes Archive} {config : Config} (hfaithful : tools.Faithful) {s : Sealer Bytes Archive}
    (hreach : (sealing tools config).Reachable s) :
    HonestLedgers tools s.store.ledger ∧ AllUnreplaced tools s.store.ledger s.store.tree := by
  have hledgers := ((sealerOk_inductive hfaithful).always s hreach).ledgers
  constructor
  · intro key
    obtain ⟨entries, hentries⟩ := hledgers key
    obtain ⟨contents, hkept, hseparate, -⟩ := exists_contents hentries.committed hentries.stored
    exact ⟨entries, contents, hentries.text, hentries.committed, fun e he => (hkept e he).1, hseparate⟩
  · rintro path node hlookup b b₀ rfl ⟨key, entries', e, files, hread, he, hrecords, hf⟩ -
    obtain ⟨entries, hentries⟩ := hledgers key
    have heq : entries = entries' := Except.ok.inj (hentries.read.symm.trans hread)
    rw [← heq] at he
    obtain ⟨files', hstored⟩ := hentries.stored e he
    rw [hrecords.unique hfaithful hstored.records] at hf
    have hlookup' := hstored.inTree _ hf
    rw [hlookup] at hlookup'
    cases hlookup'
    rfl

/-- A pass whose calls all succeed, over a tier with one expired date. -/
def pruneAnswer (tools : Tools Bytes Archive) (remote : Remote Archive) :
    (op : PruneOp) → Local Bytes → PruneRet Bytes op × Local Bytes
  | .list tier, w => (if tier = .raw then [("2026-01-05", .directory)] else [], w)
  | .now, w => (false, w)
  | .walk key, w => (w.tree.walk key.1 key.2, { w with listed := w.tree.walk key.1 key.2 })
  | .md5sum path, w => (some ((remote.lookup path).map tools.md5), w)
  | .rmtree key, w => (true, w.rmtree key (fun _ => true))

/-- The next call is one that `P` allows. -/
def follows {α : Type} (P : PruneOp → Local Bytes → Bool) : Pruner Bytes α → Local Bytes → Bool
  | .call op _, w => P op w
  | _, _ => false

theorem follows_any {α : Type} {P : PruneOp → Local Bytes → Bool} {q : Pruner Bytes α} {w : Local Bytes}
    (h : follows P q w = true) (w' : Local Bytes) : follows (fun _ _ => true) q w' = true := by
  cases q with
  | call op k => rfl
  | ret a => cases h
  | raise e => cases h

theorem reachable_calls {tools : Tools Bytes Archive} {ledger : Tier → String → List Char} {remote : Remote Archive}
    (rules : Rules Bytes) {P : PruneOp → Local Bytes → Bool}
    (hP : ∀ op w, P op w = true →
      pruneAnswers tools remote rules op w (pruneAnswer tools remote op w).1 (pruneAnswer tools remote op w).2) :
    ∀ (n : Nat) (q : Pruner Bytes LocalRetentionReport) (w : Local Bytes),
      (pruning tools ledger remote rules).Reachable ⟨w, some q⟩ →
      (∀ m < n, follows P (Prog.afterCalls (pruneAnswer tools remote) m q w).1
        (Prog.afterCalls (pruneAnswer tools remote) m q w).2 = true) →
      (pruning tools ledger remote rules).Reachable
        ⟨(Prog.afterCalls (pruneAnswer tools remote) n q w).2, some (Prog.afterCalls (pruneAnswer tools remote) n q w).1⟩
  | 0, _, _, h, _ => h
  | n + 1, .call op k, w, h, hfollows =>
    reachable_calls rules hP n _ _ (h.step (.work _ _ _ rfl (.call _ (hP op w (hfollows 0 (Nat.succ_pos n))))))
      (fun m hm => hfollows (m + 1) (Nat.succ_lt_succ hm))
  | n + 1, .ret a, w, _, hfollows => by cases hfollows 0 (Nat.succ_pos n)
  | n + 1, .raise e, w, _, hfollows => by cases hfollows 0 (Nat.succ_pos n)

def sealedEntry : LedgerEntry :=
  ledgerEntry oneConfig oneJob ⟨0, 1, plainTools.md5 oneArchive⟩ "seg-raw/2026-01-05/a" [oneMember] "2026-01-05T08:00:00+00:00"

def sealedLedger (tier : Tier) (tradingDate : String) : List Char :=
  if tier = .raw ∧ tradingDate = "2026-01-05" then render [sealedEntry] else []

def sealedRemote : Remote (Files String) := [(sealedEntry.remotePath, oneArchive)]

theorem sealedEntry_committed : Committed "raw" "2026-01-05" [sealedEntry] where
  wellFormed := List.forall_mem_singleton.2 ⟨rfl, rfl, by decide, by decide +kernel, by decide⟩
  disjoint := List.pairwise_singleton _ _

theorem sealedEntry_records : Records plainTools sealedEntry oneArchive where
  members := rfl
  clean := by decide +kernel
  md5 := rfl

theorem sealedLedger_honest : HonestLedgers plainTools sealedLedger := by
  rintro ⟨tier, tradingDate⟩
  by_cases hkey : tier = .raw ∧ tradingDate = "2026-01-05"
  · obtain ⟨rfl, rfl⟩ := hkey
    exact ⟨[sealedEntry], fun _ => oneArchive, rfl, sealedEntry_committed, List.forall_mem_singleton.2 sealedEntry_records,
      List.pairwise_singleton _ _⟩
  · exact ⟨[], fun _ => [], if_neg hkey, ⟨fun _ h => (by cases h), .nil⟩, fun _ h => (by cases h), .nil⟩

theorem entriesOf_sealedLedger {key : Tier × String} {entries : List LedgerEntry} (h : entriesOf sealedLedger key = .ok entries) :
    ∀ e ∈ entries, e = sealedEntry := by
  obtain ⟨tier, tradingDate⟩ := key
  by_cases hkey : tier = .raw ∧ tradingDate = "2026-01-05"
  · obtain ⟨rfl, rfl⟩ := hkey
    have hread : entriesOf sealedLedger (.raw, "2026-01-05") = .ok [sealedEntry] := readLedger_render sealedEntry_committed
    rw [hread] at h
    cases h
    exact fun e he => List.mem_singleton.1 he
  · have hread : entriesOf sealedLedger (tier, tradingDate) = .ok [] := by
      simp only [entriesOf, sealedLedger]
      rw [if_neg hkey]
      rfl
    rw [hread] at h
    cases h
    exact fun e he => by cases he

theorem unreplaced_oneTree : AllUnreplaced plainTools sealedLedger oneTree := by
  rintro path node hlookup b b₀ rfl ⟨key, entries, e, files, hread, he, hrecords, hf⟩ -
  rw [entriesOf_sealedLedger hread e he] at hrecords
  rw [hrecords.unique plainTools_faithful sealedEntry_records] at hf
  cases List.mem_singleton.1 hf
  have hx : oneTree.lookup "raw/2026-01-05/a" = some (.file "x") := by decide +kernel
  rw [hx] at hlookup
  cases hlookup
  rfl

def sealedLocal : Local String := ⟨oneTree, [], []⟩

def onePass : Pruner String LocalRetentionReport := prune plainTools sealedLedger false "2026-03-01"

/-- What calm publishers allow. -/
def calmCall : PruneOp → Local String → Bool
  | .rmtree key, w => w.tree.walk key.1 key.2 == w.listed
  | _, _ => true

theorem calmCall_answers (op : PruneOp) (w : Local String) (h : calmCall op w = true) :
    pruneAnswers plainTools sealedRemote (calmRules plainTools sealedLedger) op w (pruneAnswer plainTools sealedRemote op w).1
      (pruneAnswer plainTools sealedRemote op w).2 := by
  cases op with
  | list | now => rfl
  | walk key => exact ⟨rfl, rfl⟩
  | md5sum path =>
    refine ⟨rfl, fun sum hsum => ?_⟩
    have h : (sealedRemote.lookup path).map plainTools.md5 = some sum := Option.some.inj hsum
    obtain ⟨archive, harchive, rfl⟩ := Option.map_eq_some_iff.1 h
    exact ⟨archive, harchive, rfl⟩
  | rmtree key => exact ⟨beq_iff_eq.1 h, _, rfl, fun _ _ _ => rfl⟩

theorem answers_of_any (op : PruneOp) (w : Local String) :
    pruneAnswers plainTools sealedRemote (anyRules String) op w (pruneAnswer plainTools sealedRemote op w).1
      (pruneAnswer plainTools sealedRemote op w).2 := by
  cases op with
  | list tier => exact calmCall_answers (.list tier) w rfl
  | now => exact calmCall_answers .now w rfl
  | walk key => exact calmCall_answers (.walk key) w rfl
  | md5sum path => exact calmCall_answers (.md5sum path) w rfl
  | rmtree key => exact ⟨trivial, _, rfl, fun _ _ _ => rfl⟩

theorem reachable_onePass {rules : Rules String} :
    (pruning plainTools sealedLedger sealedRemote rules).Reachable ⟨sealedLocal, some onePass⟩ := by
  have hstart : (pruning plainTools sealedLedger sealedRemote rules).Reachable ⟨sealedLocal, none⟩ :=
    .start ⟨rfl, rfl, rfl, unreplaced_oneTree⟩
  exact hstart.step (.start false "2026-03-01" rfl)

/-- What the pass and its surroundings are after some calls. -/
def afterOnePass (n : Nat) : Pruner String LocalRetentionReport × Local String :=
  Prog.afterCalls (pruneAnswer plainTools sealedRemote) n onePass sealedLocal

/-- Its calls are calm, it removes the one file, and another may be published before the removal. -/
theorem onePass_runs : (∀ m < 7, follows calmCall (afterOnePass m).1 (afterOnePass m).2 = true) ∧
    (afterOnePass 7).2.removed = [("raw/2026-01-05/a", "x")] ∧
    ∀ n ∈ (afterOnePass 6).2.tree.nodes, apart n.1 "raw/2026-01-05/b" = true := by
  decide +kernel

theorem prune_safe_one_date : ∃ s, (pruning plainTools sealedLedger sealedRemote (calmRules plainTools sealedLedger)).Reachable s ∧
    s.world.removed = [("raw/2026-01-05/a", "x")] ∧
    Recoverable plainTools sealedLedger sealedRemote ("raw/2026-01-05/a", "x") := by
  have hreach := reachable_calls _ calmCall_answers 7 onePass sealedLocal reachable_onePass onePass_runs.1
  refine ⟨_, hreach, onePass_runs.2.1, prune_safe plainTools_faithful sealedLedger_honest _ hreach _ ?_⟩
  change _ ∈ (afterOnePass 7).2.removed
  rw [onePass_runs.2.1]
  exact List.mem_cons_self

theorem latecomer_clean : cleanPath "raw/2026-01-05/b" = true := by decide +kernel

/-- The surroundings once a file is published after the last sum was asked for. -/
def latecomerLocal : Local String :=
  { (afterOnePass 6).2 with
    tree := (afterOnePass 6).2.tree.add "raw/2026-01-05/b" (.file "y") latecomer_clean onePass_runs.2.2 }

theorem latecomer_removed : ("raw/2026-01-05/b", "y") ∈
    (Prog.afterCalls (pruneAnswer plainTools sealedRemote) 1 (afterOnePass 6).1 latecomerLocal).2.removed := by
  decide +kernel

/-- A file that is published between the listing and the removal goes with the directory, and is in no segment. -/
theorem prune_removes_latecomer : ¬ ∀ ledger remote, HonestLedgers plainTools ledger →
    (pruning plainTools ledger remote (anyRules String)).Always
      (fun s => ∀ f ∈ s.world.removed, Recoverable plainTools ledger remote f) := by
  intro h
  have hcalls : ∀ m < 6, follows (fun _ _ => true) (afterOnePass m).1 (afterOnePass m).2 = true :=
    fun m hm => follows_any (onePass_runs.1 m (by omega)) _
  have hreach := reachable_calls (anyRules String) (fun op w _ => answers_of_any op w) 6 onePass sealedLocal reachable_onePass hcalls
  have hpublish := hreach.step (.publish "raw/2026-01-05/b" (.file "y") latecomer_clean onePass_runs.2.2 trivial)
  have hremoved := reachable_calls (anyRules String) (fun op w _ => answers_of_any op w) 1 (afterOnePass 6).1 latecomerLocal
    hpublish (fun m hm => by
      rw [Nat.lt_one_iff.1 hm]
      exact follows_any (onePass_runs.1 6 (by omega)) _)
  obtain ⟨key, entries, e, hread, he, hpath, -⟩ :=
    h sealedLedger sealedRemote sealedLedger_honest _ hremoved _ latecomer_removed
  rw [entriesOf_sealedLedger hread e he] at hpath
  exact absurd hpath (by decide)

end Offsite
