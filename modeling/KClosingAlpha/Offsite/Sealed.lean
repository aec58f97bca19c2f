import KClosingAlpha.Offsite.Seal
/-!
# Sealed — that what is recorded is what is restored

The store only grows under everything that happens (`Grows`), so what a worker verified is still there when it is recorded.
A ledger holds committed entries whose files are those of the tree, and a pass plans no recorded file again.
-/
namespace Offsite

open Py

variable {Bytes Archive : Type} {tools : Tools Bytes Archive} {config : Config}

/-! ## What stays -/

/-- Published files and remote objects stay. -/
structure Grows (w w' : Store Bytes Archive) : Prop where
  tree : ∀ path node, isInflight path = false → w.tree.lookup path = some node → w'.tree.lookup path = some node
  remote : ∀ path archive, w.remote.lookup path = some archive → w'.remote.lookup path = some archive

/-- Remote objects are added, no more. -/
structure Uploads (w w' : Store Bytes Archive) : Prop where
  tree : w'.tree = w.tree
  ledger : w'.ledger = w.ledger
  remote : ∀ path archive, w.remote.lookup path = some archive → w'.remote.lookup path = some archive

section

variable {w w₁ w' : Store Bytes Archive}

theorem Grows.refl (w : Store Bytes Archive) : Grows w w := ⟨fun _ _ _ h => h, fun _ _ h => h⟩

theorem Grows.trans (h : Grows w w₁) (h' : Grows w₁ w') : Grows w w' where
  tree path node hsettled hnode := h'.tree path node hsettled (h.tree path node hsettled hnode)
  remote path archive harchive := h'.remote path archive (h.remote path archive harchive)

theorem Uploads.refl (w : Store Bytes Archive) : Uploads w w := ⟨rfl, rfl, fun _ _ h => h⟩

theorem Uploads.grows (h : Uploads w w') : Grows w w' where
  tree path node _ hnode := by
    rw [h.tree]
    exact hnode
  remote := h.remote

theorem grows_publish {path : String} {node : Node Bytes} {hclean : cleanPath path = true}
    {hapart : ∀ n ∈ w.tree.nodes, apart n.1 path = true} : Grows w (w.publish path node hclean hapart) where
  tree path' node' _ hnode := by
    rw [Tree.lookup_iff] at hnode ⊢
    exact List.mem_append_left _ hnode
  remote _ _ h := h

theorem grows_discard {path : String} (hflight : isInflight path = true) :
    Grows w { w with tree := w.tree.remove path } where
  tree path' node' hsettled hnode := by
    have hne : path' ≠ path := by
      rintro rfl
      rw [hflight] at hsettled
      cases hsettled
    rw [Tree.lookup_iff] at hnode ⊢
    exact List.mem_filter.2 ⟨hnode, by simpa using hne⟩
  remote _ _ h := h

theorem grows_append {tier : Tier} {tradingDate : String} {e : LedgerEntry} : Grows w (w.append tier tradingDate e) :=
  ⟨fun _ _ _ h => h, fun _ _ h => h⟩

/-- Whatever a worker asks for, the answer only adds remote objects. -/
theorem answers_uploads {op : SealOp Archive} {r : SealRet op} (h : answers tools op w r w') : Uploads w w' := by
  cases op with
  | now | lsf => exact h ▸ .refl _
  | stage | md5sum => exact h.1 ▸ .refl _
  | copyto archive remote =>
    rcases h with rfl | ⟨hnone, archive', rfl⟩
    · exact .refl _
    · refine ⟨rfl, rfl, fun path a ha => ?_⟩
      rw [List.lookup_append, ha]
      rfl

/-! ## What a worker verified -/

/-- The members are these files, and their archive is in the remote with the sum. -/
structure VerifiedFiles (tools : Tools Bytes Archive) (w : Store Bytes Archive) (remote : String) (members : List SegmentMember)
    (localMd5 : String) (files : Files Bytes) : Prop where
  members : members = files.map (fun f => tools.member f.1 f.2)
  inTree : ∀ f ∈ files, w.tree.lookup f.1 = some (.file f.2)
  settled : ∀ f ∈ files, isInflight f.1 = false
  archive : w.remote.lookup remote = some (tools.tar files)
  md5 : localMd5 = tools.md5 (tools.tar files)

theorem VerifiedFiles.grows {remote localMd5 : String} {members : List SegmentMember} {files : Files Bytes}
    (h : VerifiedFiles tools w remote members localMd5 files) (hw : Grows w w') :
    VerifiedFiles tools w' remote members localMd5 files :=
  { h with
    inTree := fun f hf => hw.tree _ _ (h.settled f hf) (h.inTree f hf)
    archive := hw.remote _ _ h.archive }

theorem stageMember_eq_ok {t : Tree Bytes} {m : SegmentMember} {f : String × Bytes} (h : stageMember tools t m = .ok f) :
    m = tools.member f.1 f.2 ∧ t.lookup f.1 = some (.file f.2) := by
  unfold stageMember at h
  cases hlookup : t.lookup m.path with
  | none =>
    rw [hlookup] at h
    cases h
  | some node =>
    rw [hlookup] at h
    cases node with
    | link => cases h
    | file b =>
      dsimp only at h
      by_cases hsize : (tools.size b : Int) ≠ m.size
      · rw [if_pos hsize] at h
        cases h
      · by_cases hsha : tools.sha256 b ≠ m.sha256
        · rw [if_neg hsize, if_pos hsha] at h
          cases h
        · rw [if_neg hsize, if_neg hsha] at h
          cases h
          refine ⟨?_, hlookup⟩
          rw [Tools.member, not_ne_iff.1 hsize, not_ne_iff.1 hsha]

theorem mapM_stageMember {t : Tree Bytes} : ∀ {members : List SegmentMember} {files : Files Bytes},
    members.mapM (stageMember tools t) = .ok files →
      members = files.map (fun f => tools.member f.1 f.2) ∧ ∀ f ∈ files, t.lookup f.1 = some (.file f.2)
  | [], files, h => by
    rw [List.mapM_nil, Exc.pure_eq_ok] at h
    rw [← h]
    exact ⟨rfl, fun _ h => by cases h⟩
  | m :: members, files, h => by
    obtain ⟨f, files', hf, hfiles, rfl⟩ := (Exc.mapM_cons_eq_ok _ _ _ _).1 h
    obtain ⟨hm, hfile⟩ := stageMember_eq_ok hf
    obtain ⟨hms, hin⟩ := mapM_stageMember hfiles
    refine ⟨?_, List.forall_mem_cons.2 ⟨hfile, hin⟩⟩
    rw [List.map_cons, ← hm, ← hms]

theorem stageArchive_eq_ok {t : Tree Bytes} {members : List SegmentMember} {archive : Archive}
    (h : stageArchive tools t members = .ok archive) :
    ∃ files : Files Bytes, archive = tools.tar files ∧ members = files.map (fun f => tools.member f.1 f.2) ∧
      ∀ f ∈ files, t.lookup f.1 = some (.file f.2) := by
  obtain ⟨files, hfiles, h⟩ := (Exc.bind_eq_ok _ _ _).1 h
  obtain ⟨-, -, h⟩ := (Exc.bind_eq_ok _ _ _).1 h
  rw [Exc.pure_eq_ok] at h
  obtain ⟨hmembers, hin⟩ := mapM_stageMember hfiles
  exact ⟨files, h.symm, hmembers, hin⟩

/-- The precondition of a worker among the others. -/
abbrev Works {α : Type} (tools : Tools Bytes Archive) (p : Worker Archive α) (Q : Except SealError α → Store Bytes Archive → Prop)
    (w : Store Bytes Archive) : Prop := Prog.rg (answers tools) Grows Uploads p Q w

theorem works_checkRemote (localMd5 remote : String) :
    Works tools (checkRemote localMd5 remote)
      (fun o w' => o = .ok () → ∃ archive, w'.remote.lookup remote = some archive ∧ tools.md5 archive = localMd5) w := by
  intro w₁ _ r w₂ hr
  refine ⟨answers_uploads hr, ?_⟩
  obtain ⟨rfl, hsum⟩ := hr
  cases r with
  | none => exact fun h => by cases h
  | some sum =>
    change Works tools (if sum ≠ some localMd5 then Prog.raise (.remoteMismatch remote) else Prog.ret ()) _ _
    by_cases heq : sum ≠ some localMd5
    · rw [if_pos heq]
      exact fun h => by cases h
    · rw [if_neg heq]
      intro _
      rw [not_ne_iff.1 heq] at hsum
      obtain ⟨archive, harchive, hmd5⟩ := hsum localMd5 rfl
      exact ⟨archive, harchive, hmd5.symm⟩

/-- What is verified against the archive of files that are in the tree. -/
theorem works_checked (hfaithful : tools.Faithful) {remote : String} {members : List SegmentMember} {files : Files Bytes}
    (hmembers : members = files.map (fun f => tools.member f.1 f.2)) (hsettled : ∀ f ∈ files, isInflight f.1 = false)
    (hin : ∀ f ∈ files, w.tree.lookup f.1 = some (.file f.2)) :
    Works tools ((checkRemote (tools.md5 (tools.tar files)) remote).bind
        (fun _ => .ret (tools.archiveSize (tools.tar files), tools.md5 (tools.tar files))))
      (fun o w' => ∀ v, o = .ok v → ∃ files, VerifiedFiles tools w' remote members v.2 files) w := by
  have hgrows (w w' : Store Bytes Archive) (hw : Grows w w') (h : ∀ f ∈ files, w.tree.lookup f.1 = some (.file f.2)) :
      ∀ f ∈ files, w'.tree.lookup f.1 = some (.file f.2) := fun f hf => hw.tree _ _ (hsettled f hf) (h f hf)
  refine Prog.rg_bind _ (Prog.rg_frame hgrows (fun w w' hw => hgrows w w' hw.grows) (works_checkRemote _ _) hin) ?_ ?_
  · rintro _ w' ⟨hremote, hin'⟩ v hv
    cases hv
    obtain ⟨archive, harchive, hmd5⟩ := hremote rfl
    rw [hfaithful.md5_injective _ _ hmd5] at harchive
    exact ⟨files, hmembers, hin', hsettled, harchive, rfl⟩
  · exact fun e w' _ v hv => by cases hv

/-- **A segment that is sealed is in the remote, with the bytes of the tree.** -/
theorem works_sealOneSegment (hfaithful : tools.Faithful) {remote : String} {members : List SegmentMember}
    (hsettled : ∀ m ∈ members, isInflight m.path = false) (already : Bool) :
    Works tools (sealOneSegment tools remote members already)
      (fun o w' => ∀ v, o = .ok v → ∃ files, VerifiedFiles tools w' remote members v.2 files) w := by
  intro w₁ _ staged w₂ hstaged
  refine ⟨answers_uploads hstaged, ?_⟩
  obtain ⟨rfl, hstage⟩ := hstaged
  cases staged with
  | error e => exact fun v hv => by cases hv
  | ok archive =>
    obtain ⟨files, rfl, hmembers, hin⟩ := stageArchive_eq_ok (hstage archive rfl)
    have hfiles : ∀ f ∈ files, isInflight f.1 = false := fun f hf =>
      hsettled (tools.member f.1 f.2) (by rw [hmembers]; exact List.mem_map.2 ⟨f, hf, rfl⟩)
    cases already with
    | true => exact works_checked hfaithful hmembers hfiles hin
    | false =>
      intro w₃ hw₃ copied w₄ hcopied
      have huploads := answers_uploads hcopied
      refine ⟨huploads, ?_⟩
      cases copied with
      | false => exact fun v hv => by cases hv
      | true =>
        exact works_checked hfaithful hmembers hfiles
          (fun f hf => (hw₃.trans huploads.grows).tree _ _ (hfiles f hf) (hin f hf))

/-- The verified segments of an outcome, in the order of the plan, and all of them when it is complete. -/
structure OutcomeOk (tools : Tools Bytes Archive) (config : Config) (job : Job) (outcome : GroupOutcome)
    (w : Store Bytes Archive) : Prop where
  verified : ∀ (j : Nat) (v : VerifiedSegment), outcome.verified[j]? = some v → v.index = j ∧ ∀ members segment, job.segments[j]? = some members →
    segmentName tools members = .ok segment →
      ∃ files, VerifiedFiles tools w (remotePath config job.tier job.tradingDate segment) members v.localMd5 files
  complete : outcome.complete = true → outcome.verified.length = job.segments.length

theorem OutcomeOk.grows {job : Job} {outcome : GroupOutcome} (h : OutcomeOk tools config job outcome w) (hw : Grows w w') :
    OutcomeOk tools config job outcome w' where
  verified j v hv := by
    obtain ⟨hindex, hfiles⟩ := h.verified j v hv
    refine ⟨hindex, fun members segment hmembers hname => ?_⟩
    obtain ⟨files, hverified⟩ := hfiles members segment hmembers hname
    exact ⟨files, hverified.grows hw⟩
  complete := h.complete

theorem OutcomeOk.snoc {job : Job} {verified : List VerifiedSegment} {failure : Option SealError} {members : List SegmentMember}
    {segment localMd5 : String} (localBytes : Nat) (h : OutcomeOk tools config job ⟨verified, false, failure⟩ w)
    (hmembers : job.segments[verified.length]? = some members) (hname : segmentName tools members = .ok segment)
    (hfiles : ∃ files, VerifiedFiles tools w (remotePath config job.tier job.tradingDate segment) members localMd5 files) :
    OutcomeOk tools config job ⟨verified ++ [⟨verified.length, localBytes, localMd5⟩], false, none⟩ w where
  verified j v hv := by
    by_cases hj : j < verified.length
    · rw [List.getElem?_append_left hj] at hv
      exact h.verified j v hv
    · rw [List.getElem?_append_right (Nat.le_of_not_lt hj), List.getElem?_singleton] at hv
      split_ifs at hv with hzero
      cases hv
      have heq : verified.length = j := by omega
      refine ⟨heq, fun members' segment' hmembers' hname' => ?_⟩
      rw [← heq, hmembers] at hmembers'
      cases hmembers'
      rw [hname] at hname'
      cases hname'
      exact hfiles
  complete hcomplete := by cases hcomplete

/-- `OutcomeOk` of what is verified so far. -/
abbrev VerifiedSoFar (tools : Tools Bytes Archive) (config : Config) (job : Job) (verified : List VerifiedSegment)
    (w : Store Bytes Archive) : Prop := OutcomeOk tools config job ⟨verified, false, none⟩ w

theorem works_sealSegments (hfaithful : tools.Faithful) {job : Job} (existing : List String)
    (hsettled : ∀ segment ∈ job.segments, ∀ m ∈ segment, isInflight m.path = false) :
    ∀ (rest before : List (List SegmentMember)) {verified : List VerifiedSegment} {w : Store Bytes Archive}, job.segments = before ++ rest → verified.length = before.length →
      VerifiedSoFar tools config job verified w →
      Works tools (sealSegments tools config job.tier job.tradingDate existing before.length rest verified)
        (fun o w' => ∀ outcome, o = .ok outcome → OutcomeOk tools config job outcome w') w
  | [], before, verified, w, hsplit, hlen, hverified => by
    intro outcome houtcome
    cases houtcome
    refine ⟨hverified.verified, fun _ => ?_⟩
    rw [hsplit, List.append_nil]
    exact hlen
  | members :: rest, before, verified, w, hsplit, hlen, hverified => by
    intro w₁ hw₁ late w₂ hlate
    refine ⟨answers_uploads hlate, ?_⟩
    have hw₂ : VerifiedSoFar tools config job verified w₂ := hverified.grows (hw₁.trans (answers_uploads hlate).grows)
    cases late with
    | true =>
      intro outcome houtcome
      cases houtcome
      exact hw₂
    | false =>
      have hmembers : job.segments[before.length]? = some members := by
        rw [hsplit, List.getElem?_append_right (Nat.le_refl _), Nat.sub_self]
        rfl
      have hmem : members ∈ job.segments := List.mem_of_getElem? hmembers
      change Works tools (Prog.bind (Prog.ofExcept (segmentName tools members)) _) _ _
      cases hname : segmentName tools members with
      | error e => exact fun outcome houtcome => by cases houtcome
      | ok segment =>
        refine Prog.rg_attempt _ (Prog.rg_frame (fun w w' hw h => h.grows hw) (fun w w' hw h => h.grows hw.grows)
          (works_sealOneSegment hfaithful (hsettled members hmem) _) hw₂) ?_
        rintro (e | ⟨localBytes, localMd5⟩) w₃ ⟨hsealed, hw₃⟩
        · intro outcome houtcome
          cases houtcome
          exact ⟨hw₃.verified, fun h => by cases h⟩
        · rw [← hlen] at hmembers
          have hnext := hw₃.snoc localBytes hmembers hname (hsealed _ rfl)
          have hrest := works_sealSegments hfaithful existing hsettled rest (before ++ [members])
            (by rw [hsplit, List.append_assoc]; rfl) (by simp [hlen]) hnext
          rw [List.length_append, List.length_singleton, hlen] at hrest
          exact hrest

/-- **A worker reports what it verified.** -/
theorem works_sealGroup (hfaithful : tools.Faithful) {job : Job}
    (hsettled : ∀ segment ∈ job.segments, ∀ m ∈ segment, isInflight m.path = false) :
    Works tools (sealGroup tools config job.tier job.tradingDate job.segments)
      (fun o w' => ∀ outcome, o = .ok outcome → OutcomeOk tools config job outcome w') w := by
  have hnone (failure : Option SealError) (w : Store Bytes Archive) : OutcomeOk tools config job ⟨[], false, failure⟩ w :=
    ⟨fun j v hv => (by simp at hv), fun h => by cases h⟩
  intro w₁ _ listed w₂ hlisted
  refine ⟨answers_uploads hlisted, ?_⟩
  cases listed with
  | none =>
    intro outcome houtcome
    cases houtcome
    exact hnone _ _
  | some existing => exact works_sealSegments hfaithful existing hsettled job.segments [] rfl rfl (hnone _ _)

end

/-! ## What the ledgers hold -/

/-- The path is in an entry that the reader finds. -/
def Recorded (w : Store Bytes Archive) (key : Tier × String) (path : String) : Prop :=
  ∃ entries, w.entries key.1 key.2 = .ok entries ∧ ∃ e ∈ entries, path ∈ e.paths

/-- The ledger holds these entries, each of files below its date. -/
structure LedgerOk (tools : Tools Bytes Archive) (w : Store Bytes Archive) (key : Tier × String) (entries : List LedgerEntry) :
    Prop where
  text : w.ledger key.1 key.2 = render entries
  committed : Committed key.1.name key.2 entries
  stored : ∀ e ∈ entries, Stored tools w.tree w.remote e
  ofDate : ∀ e ∈ entries, isDateName key.2 = true ∧ ∀ path ∈ e.paths, inside (dateDir key.1 key.2) path = true

def LedgersOk (tools : Tools Bytes Archive) (w : Store Bytes Archive) : Prop := ∀ key, ∃ entries, LedgerOk tools w key entries

section

variable {w w' : Store Bytes Archive} {key : Tier × String} {entries : List LedgerEntry} {path : String}

theorem LedgerOk.read (h : LedgerOk tools w key entries) : w.entries key.1 key.2 = .ok entries := by
  rw [Store.entries, h.text]
  exact readLedger_render h.committed

theorem LedgerOk.recorded (h : LedgerOk tools w key entries) : Recorded w key path ↔ ∃ e ∈ entries, path ∈ e.paths := by
  constructor
  · rintro ⟨entries', hread, hmem⟩
    rw [h.read] at hread
    cases hread
    exact hmem
  · exact fun hmem => ⟨entries, h.read, hmem⟩

theorem LedgerOk.grows (h : LedgerOk tools w key entries) (hw : Grows w w')
    (hledger : w'.ledger key.1 key.2 = w.ledger key.1 key.2) : LedgerOk tools w' key entries where
  text := hledger.trans h.text
  committed := h.committed
  stored e he := by
    obtain ⟨files, hfiles⟩ := h.stored e he
    exact ⟨files, { hfiles with
      inTree := fun f hf => hw.tree _ _ (hfiles.settled f hf) (hfiles.inTree f hf)
      archive := hw.remote _ _ hfiles.archive }⟩
  ofDate := h.ofDate

theorem LedgersOk.grows (h : LedgersOk tools w) (hw : Grows w w') (hledger : w'.ledger = w.ledger) : LedgersOk tools w' := by
  intro key
  obtain ⟨entries, hentries⟩ := h key
  exact ⟨entries, hentries.grows hw (by rw [hledger])⟩

theorem recorded_congr (hledger : w'.ledger = w.ledger) : Recorded w' key path ↔ Recorded w key path := by
  unfold Recorded Store.entries
  rw [hledger]

/-- An entry of new files is appended. -/
theorem LedgersOk.append {e : LedgerEntry} (h : LedgersOk tools w) (hdate : isDateName key.2 = true)
    (hwf : e.WellFormed key.1.name key.2) (hstored : Stored tools w.tree w.remote e)
    (hinside : ∀ path ∈ e.paths, inside (dateDir key.1 key.2) path = true) (hfresh : ∀ path ∈ e.paths, ¬ Recorded w key path) :
    LedgersOk tools (w.append key.1 key.2 e) ∧
      ∀ key' path, Recorded (w.append key.1 key.2 e) key' path ↔ Recorded w key' path ∨ key' = key ∧ path ∈ e.paths := by
  have hnew (key' : Tier × String) : ∃ entries, LedgerOk tools (w.append key.1 key.2 e) key' entries ∧
      ∀ path, (∃ e' ∈ entries, path ∈ e'.paths) ↔ Recorded w key' path ∨ key' = key ∧ path ∈ e.paths := by
    obtain ⟨entries, hentries⟩ := h key'
    by_cases hkey : key' = key
    · subst hkey
      have hcommitted : Committed key'.1.name key'.2 (entries ++ [e]) := hentries.committed.snoc hwf (fun other hother path hpath hpath' =>
        hfresh path hpath (hentries.recorded.2 ⟨other, hother, hpath'⟩))
      refine ⟨entries ++ [e], ⟨?_, hcommitted, ?_, ?_⟩, fun path => ?_⟩
      · simp only [Store.append, and_self, if_true]
        rw [hentries.text, render_snoc]
      · exact List.forall_mem_append.2 ⟨hentries.stored, List.forall_mem_singleton.2 hstored⟩
      · exact List.forall_mem_append.2 ⟨hentries.ofDate, List.forall_mem_singleton.2 ⟨hdate, hinside⟩⟩
      · rw [hentries.recorded]
        simp only [List.mem_append, List.mem_singleton, or_and_right, exists_or, exists_eq_left, true_and]
    · refine ⟨entries, hentries.grows grows_append ?_, fun path => ?_⟩
      · simp only [Store.append]
        rw [if_neg (fun heq => hkey (Prod.ext heq.1 heq.2))]
      · rw [hentries.recorded]
        simp [hkey]
  constructor
  · exact fun key' => (hnew key').imp fun entries hentries => hentries.1
  · intro key' path
    obtain ⟨entries, hentries, hmem⟩ := hnew key'
    rw [hentries.recorded, hmem]

/-- A path is recorded for one date. -/
theorem LedgersOk.key_unique (h : LedgersOk tools w) {key' : Tier × String} (hpath : Recorded w key path)
    (hpath' : Recorded w key' path) : key = key' := by
  obtain ⟨entries, hentries⟩ := h key
  obtain ⟨entries', hentries'⟩ := h key'
  obtain ⟨e, he, hmem⟩ := hentries.recorded.1 hpath
  obtain ⟨e', he', hmem'⟩ := hentries'.recorded.1 hpath'
  obtain ⟨hdate, hin⟩ := hentries.ofDate e he
  obtain ⟨hdate', hin'⟩ := hentries'.ofDate e' he'
  obtain ⟨htier, hday⟩ := dateDir_unique hdate hdate' (hin path hmem) (hin' path hmem')
  exact Prod.ext htier hday

end

/-! ## What a pass knows -/

/-- A date whose segments are of its own settled files, each once. -/
structure Planned (job : Job) : Prop where
  date : isDateName job.tradingDate = true
  nonempty : ∀ segment ∈ job.segments, segment ≠ []
  nodup : (job.segments.flatten.map SegmentMember.path).Nodup
  ofDate : ∀ segment ∈ job.segments, ∀ m ∈ segment,
    inside (dateDir job.tier job.tradingDate) m.path = true ∧ isInflight m.path = false

/-- What is known of a worker: what it will report, or has reported. -/
def FutureOk (tools : Tools Bytes Archive) (config : Config) (job : Job) (w : Store Bytes Archive) : Future Archive → Prop
  | .unsubmitted => True
  | .running q => Works tools q (fun o w' => ∀ outcome, o = .ok outcome → OutcomeOk tools config job outcome w') w
  | .finished outcome => OutcomeOk tools config job outcome w

/-- The files that were there when a date was planned are recorded or planned. -/
def Covered (w : Store Bytes Archive) (jobs : List Job) (selected : (Tier × String) × Tree Bytes) : Prop :=
  ∀ path b, (path, Node.file b) ∈ selected.2.walk selected.1.1 selected.1.2 → isInflight path = false →
    Recorded w selected.1 path ∨ ∃ job ∈ jobs, job.key = selected.1 ∧ ∃ segment ∈ job.segments, ∃ m ∈ segment, m.path = path

structure PassOk (tools : Tools Bytes Archive) (config : Config) (w : Store Bytes Archive) (p : Pass Bytes Archive) : Prop where
  planned : ∀ job ∈ p.jobs, Planned job
  futures : ∀ i job, p.jobs[i]? = some job → FutureOk tools config job w (p.futures i)
  keys : (p.jobs.map Job.key ++ p.todo).Nodup
  dates : ∀ d ∈ p.todo, isDateName d.2 = true
  early : p.todo ≠ [] → p.nextCommit = 0 ∧ p.appended = 0 ∧ ∀ i, p.futures i = .unsubmitted
  ahead : ∀ (i : Nat) (job : Job), p.jobs[i]? = some job → ∀ (j : Nat) (segment : List SegmentMember),
    job.segments[j]? = some segment → (p.nextCommit < i ∨ p.nextCommit = i ∧ p.appended ≤ j) →
      ∀ m ∈ segment, ¬ Recorded w job.key m.path
  current : ∀ job, p.jobs[p.nextCommit]? = some job → ∀ (j : Nat) (segment : List SegmentMember),
    job.segments[j]? = some segment → j < p.appended → ∀ m ∈ segment, Recorded w job.key m.path
  behind : p.deferredDates = 0 → ∀ (i : Nat) (job : Job), p.jobs[i]? = some job → i < p.nextCommit →
    ∀ segment ∈ job.segments, ∀ m ∈ segment, Recorded w job.key m.path
  selected : ∀ s ∈ p.selected, Covered w p.jobs s

section

variable {w w' : Store Bytes Archive} {p p' : Pass Bytes Archive} {job : Job}

theorem FutureOk.grows {future : Future Archive} (h : FutureOk tools config job w future) (hw : Grows w w') :
    FutureOk tools config job w' future := by
  cases future with
  | unsubmitted => trivial
  | running q =>
    exact Prog.rg_stable (fun _ _ _ h h' => h.trans h') (fun o _ _ h hw outcome houtcome => (h outcome houtcome).grows hw) h hw
  | finished outcome => exact OutcomeOk.grows h hw

theorem Covered.mono {jobs jobs' : List Job} {selected : (Tier × String) × Tree Bytes} (h : Covered w jobs selected)
    (hrecorded : ∀ key path, Recorded w key path → Recorded w' key path) (hjobs : ∀ job ∈ jobs, job ∈ jobs') :
    Covered w' jobs' selected := by
  intro path b hb hsettled
  rcases h path b hb hsettled with hrec | ⟨job, hjob, hrest⟩
  · exact .inl (hrecorded _ _ hrec)
  · exact .inr ⟨job, hjobs job hjob, hrest⟩

/-- What happens outside leaves the pass as it is. -/
theorem PassOk.grows (h : PassOk tools config w p) (hw : Grows w w') (hledger : w'.ledger = w.ledger) :
    PassOk tools config w' p := by
  have hrecorded (key : Tier × String) (path : String) : Recorded w' key path ↔ Recorded w key path := recorded_congr hledger
  exact { h with
    futures := fun i job hjob => (h.futures i job hjob).grows hw
    ahead := fun i job hjob j segment hsegment hle m hm hrec =>
      h.ahead i job hjob j segment hsegment hle m hm ((hrecorded _ _).1 hrec)
    current := fun job hjob j segment hsegment hlt m hm => (hrecorded _ _).2 (h.current job hjob j segment hsegment hlt m hm)
    behind := fun hzero i job hjob hi segment hsegment m hm => (hrecorded _ _).2 (h.behind hzero i job hjob hi segment hsegment m hm)
    selected := fun s hs => (h.selected s hs).mono (fun key path => (hrecorded key path).2) (fun _ hjob => hjob) }

/-- A worker's next state. -/
theorem PassOk.update (h : PassOk tools config w p) (i : Nat) (future : Future Archive) (failed : Bool)
    (htodo : p.todo = []) (hfuture : ∀ job, p.jobs[i]? = some job → FutureOk tools config job w future) :
    PassOk tools config w { p with futures := Function.update p.futures i future, failed } :=
  { h with
    futures := by
      intro j job hjob
      by_cases hj : j = i
      · subst hj
        simp only [Function.update_self]
        exact hfuture job hjob
      · simp only [Function.update_of_ne hj]
        exact h.futures j job hjob
    early := fun hne => absurd htodo hne }

theorem todo_eq_nil_of_running (h : PassOk tools config w p) {i : Nat} {q : Worker Archive GroupOutcome}
    (hrun : p.futures i = .running q) : p.todo = [] := by
  by_contra hne
  rw [(h.early hne).2.2 i] at hrun
  cases hrun

theorem next_uploads {q q' : Worker Archive GroupOutcome} (h : Prog.Next (answers tools) q w q' w') : Uploads w w' := by
  cases h with
  | call r hop => exact answers_uploads hop

theorem PassOk.work (h : PassOk tools config w p) {i : Nat} {q q' : Worker Archive GroupOutcome}
    (hrun : p.futures i = .running q) (hnext : Prog.Next (answers tools) q w q' w') :
    PassOk tools config w' { p with futures := Function.update p.futures i (.running q') } := by
  have huploads := next_uploads hnext
  refine (h.grows huploads.grows huploads.ledger).update i _ p.failed (todo_eq_nil_of_running h hrun) (fun job hjob => ?_)
  have hfuture := h.futures i job hjob
  rw [hrun] at hfuture
  exact (Prog.rg_next Grows.refl hfuture hnext).2

theorem PassOk.collect (h : PassOk tools config w p) {i : Nat} {outcome : GroupOutcome}
    (hrun : p.futures i = .running (.ret outcome)) :
    PassOk tools config w
      { p with futures := Function.update p.futures i (.finished outcome), failed := p.failed || outcome.failure.isSome } := by
  refine h.update i _ _ (todo_eq_nil_of_running h hrun) (fun job hjob => ?_)
  have hfuture := h.futures i job hjob
  rw [hrun] at hfuture
  exact hfuture outcome rfl

theorem PassOk.submit (hfaithful : tools.Faithful) (h : PassOk tools config w p) {i : Nat} (htodo : p.todo = [])
    (hjob : p.jobs[i]? = some job) :
    PassOk tools config w
      { p with futures := Function.update p.futures i (.running (sealGroup tools config job.tier job.tradingDate job.segments)) } := by
  refine h.update i _ p.failed htodo (fun job' hjob' => ?_)
  rw [hjob] at hjob'
  cases hjob'
  exact works_sealGroup hfaithful (fun segment hsegment m hm =>
    ((h.planned job (List.mem_of_getElem? hjob)).ofDate segment hsegment m hm).2)

theorem PassOk.commit (h : PassOk tools config w p) {outcome : GroupOutcome} (htodo : p.todo = [])
    (hjob : p.jobs[p.nextCommit]? = some job) (hdone : p.futures p.nextCommit = .finished outcome)
    (hall : p.appended = outcome.verified.length) :
    PassOk tools config w
      { p with
        nextCommit := p.nextCommit + 1
        appended := 0
        deferredDates := if outcome.complete && outcome.failure.isNone then p.deferredDates else p.deferredDates + 1 } :=
  { h with
    early := fun hne => absurd htodo hne
    ahead := by
      intro i job hjob j segment hsegment hle
      refine h.ahead i job hjob j segment hsegment (.inl ?_)
      dsimp only at hle
      omega
    current := fun job hjob j segment hsegment hlt => absurd hlt (Nat.not_lt_zero j)
    behind := by
      dsimp only
      intro hzero i job' hjob' hi segment hsegment m hm
      split_ifs at hzero with hcomplete
      by_cases hlt : i < p.nextCommit
      · exact h.behind hzero i job' hjob' hlt segment hsegment m hm
      · have heq : i = p.nextCommit := by omega
        rw [heq, hjob] at hjob'
        cases hjob'
        have hfuture := h.futures _ job hjob
        rw [hdone] at hfuture
        rw [Bool.and_eq_true] at hcomplete
        have hlength := OutcomeOk.complete hfuture hcomplete.1
        obtain ⟨j, hj⟩ := List.getElem?_of_mem hsegment
        refine h.current job hjob j segment hj ?_ m hm
        rw [hall, hlength]
        exact (List.getElem?_eq_some_iff.1 hj).1 }

theorem planned_of_partitions {limit : Int} {t : Tree Bytes} {recorded : List (String × Int)} (hdate : isDateName job.tradingDate = true)
    (h : Partitions tools limit t job.tier job.tradingDate recorded job.segments) : Planned job where
  date := hdate
  nonempty := h.nonempty
  nodup := h.nodup
  ofDate segment hsegment m hm := by
    have hpending := (h.mem m).1 (List.mem_flatten.2 ⟨segment, hsegment, hm⟩)
    exact ⟨hpending.ofDate, hpending.settled⟩

/-- A date is planned against its ledger. -/
theorem PassOk.plan (hledgers : LedgersOk tools w) (h : PassOk tools config w p) {tier : Tier} {tradingDate : String}
    {rest : List (Tier × String)} {entries : List LedgerEntry} {segments : List (List SegmentMember)}
    (htodo : p.todo = (tier, tradingDate) :: rest) (hread : w.entries tier tradingDate = .ok entries)
    (hplan : planSegments tools config.limit w.tree tier tradingDate (sealedSizes entries) = .ok segments) :
    PassOk tools config w
      { p with
        todo := rest
        selected := p.selected ++ [((tier, tradingDate), w.tree)]
        jobs := if segments = [] then p.jobs else p.jobs ++ [⟨tier, tradingDate, segments⟩] } := by
  have hparts := planSegments_partitions hplan
  have hne : p.todo ≠ [] := by simp [htodo]
  obtain ⟨hcommit, happended, hfutures⟩ := h.early hne
  have hrecorded (path : String) : Recorded w (tier, tradingDate) path ↔ ∃ e ∈ entries, path ∈ e.paths := by
    obtain ⟨entries', hentries'⟩ := hledgers (tier, tradingDate)
    have heq : entries' = entries := Except.ok.inj (hentries'.read.symm.trans hread)
    rw [hentries'.recorded, heq]
  have hfresh : ∀ segment ∈ segments, ∀ m ∈ segment, ¬ Recorded w (tier, tradingDate) m.path := by
    intro segment hsegment m hm
    rw [hrecorded]
    have hpending := (hparts.mem m).1 (List.mem_flatten.2 ⟨segment, hsegment, hm⟩)
    rintro ⟨e, he, hmem⟩
    exact sealedSizes_lookup_eq_none.1 hpending.unrecorded e he hmem
  have hcovered : ∀ path b, (path, Node.file b) ∈ w.tree.walk tier tradingDate → isInflight path = false →
      Recorded w (tier, tradingDate) path ∨ ∃ segment ∈ segments, ∃ m ∈ segment, m.path = path := by
    intro path b hb hsettled
    by_cases hrec : Recorded w (tier, tradingDate) path
    · exact .inl hrec
    · obtain ⟨hlookup, hin⟩ := Tree.mem_walk.1 hb
      have hnone : (sealedSizes entries).lookup path = none := by
        rw [sealedSizes_lookup_eq_none]
        exact fun e he hmem => hrec ((hrecorded path).2 ⟨e, he, hmem⟩)
      obtain ⟨segment, hsegment, hm⟩ :=
        List.mem_flatten.1 ((hparts.mem (tools.member path b)).2 ⟨⟨b, hlookup, rfl⟩, hin, hsettled, hnone⟩)
      exact .inr ⟨segment, hsegment, _, hm, rfl⟩
  have hdate : isDateName tradingDate = true := h.dates (tier, tradingDate) (by simp [htodo])
  have hdates : ∀ d ∈ rest, isDateName d.2 = true := fun d hd => h.dates d (by rw [htodo]; exact List.mem_cons_of_mem _ hd)
  have hkeys := h.keys
  rw [htodo] at hkeys
  by_cases hempty : segments = []
  · rw [if_pos hempty]
    exact { h with
      keys := hkeys.sublist (List.Sublist.append_left (List.sublist_cons_self _ _) _)
      dates := hdates
      early := fun _ => h.early hne
      selected := List.forall_mem_append.2 ⟨h.selected, List.forall_mem_singleton.2 (by
        intro path b hb hsettled
        rcases hcovered path b hb hsettled with hrec | ⟨segment, hsegment, -⟩
        · exact .inl hrec
        · rw [hempty] at hsegment
          cases hsegment)⟩ }
  · rw [if_neg hempty]
    have hjobs (i : Nat) (job : Job) (hjob : (p.jobs ++ [⟨tier, tradingDate, segments⟩])[i]? = some job) :
        p.jobs[i]? = some job ∨ job = ⟨tier, tradingDate, segments⟩ := by
      rw [List.getElem?_append] at hjob
      split_ifs at hjob with hi
      · exact .inl hjob
      · rw [List.getElem?_singleton] at hjob
        split_ifs at hjob
        exact .inr (Option.some.inj hjob).symm
    exact {
      planned := List.forall_mem_append.2 ⟨h.planned, List.forall_mem_singleton.2 (planned_of_partitions hdate hparts)⟩
      futures := fun i job _ => by
        dsimp only
        rw [hfutures i]
        trivial
      keys := by
        rw [List.map_append, List.append_assoc]
        exact hkeys
      dates := hdates
      early := fun _ => h.early hne
      ahead := by
        intro i job hjob j segment hsegment hle m hm
        rcases hjobs i job hjob with hjob | rfl
        · exact h.ahead i job hjob j segment hsegment hle m hm
        · exact hfresh segment (List.mem_of_getElem? hsegment) m hm
      current := by
        intro job hjob j segment hsegment hlt
        dsimp only at hlt
        rw [happended] at hlt
        exact absurd hlt (Nat.not_lt_zero j)
      behind := by
        intro hzero i job hjob hi
        dsimp only at hi
        rw [hcommit] at hi
        exact absurd hi (Nat.not_lt_zero i)
      selected := by
        refine List.forall_mem_append.2 ⟨fun s hs => ?_, List.forall_mem_singleton.2 ?_⟩
        · exact (h.selected s hs).mono (fun _ _ hrec => hrec) (fun job hjob => List.mem_append_left _ hjob)
        · intro path b hb hsettled
          rcases hcovered path b hb hsettled with hrec | hplanned
          · exact .inl hrec
          · exact .inr ⟨_, List.mem_append_right _ (List.mem_singleton.2 rfl), rfl, hplanned⟩ }

/-- Each segment has its own files, and the segments of a plan share none. -/
theorem Planned.apart (h : Planned job) : (∀ segment ∈ job.segments, (segment.map SegmentMember.path).Nodup) ∧
    ∀ {i j : Nat} {segment segment' : List SegmentMember}, job.segments[i]? = some segment → job.segments[j]? = some segment' →
      i < j → (segment.map SegmentMember.path).Disjoint (segment'.map SegmentMember.path) := by
  have hnodup := h.nodup
  rw [List.map_flatten, List.nodup_flatten] at hnodup
  obtain ⟨hown, hpair⟩ := hnodup
  refine ⟨fun segment hsegment => hown _ (List.mem_map_of_mem hsegment), fun hi hj hlt => ?_⟩
  rw [List.pairwise_map, List.pairwise_iff_getElem] at hpair
  obtain ⟨hi', rfl⟩ := List.getElem?_eq_some_iff.1 hi
  obtain ⟨hj', rfl⟩ := List.getElem?_eq_some_iff.1 hj
  exact hpair _ _ hi' hj' hlt

theorem PassOk.key_inj (h : PassOk tools config w p) {i j : Nat} {job' : Job} (hi : p.jobs[i]? = some job)
    (hj : p.jobs[j]? = some job') (hkey : job.key = job'.key) : i = j := by
  have hnodup : (p.jobs.map Job.key).Nodup := List.Nodup.of_append_left h.keys
  have hlt : i < (p.jobs.map Job.key).length := by
    rw [List.length_map]
    exact (List.getElem?_eq_some_iff.1 hi).1
  refine (List.getElem?_inj hlt hnodup).1 ?_
  rw [List.getElem?_map, List.getElem?_map, hi, hj, Option.map_some, Option.map_some, hkey]

/-- A verified segment is recorded. -/
theorem PassOk.append (hledgers : LedgersOk tools w) (h : PassOk tools config w p) {outcome : GroupOutcome}
    {v : VerifiedSegment} {members : List SegmentMember} {segment : String} (committedAt : String) (htodo : p.todo = [])
    (hjob : p.jobs[p.nextCommit]? = some job) (hdone : p.futures p.nextCommit = .finished outcome)
    (hv : outcome.verified[p.appended]? = some v) (hmembers : job.segments[v.index]? = some members)
    (hname : segmentName tools members = .ok segment) :
    LedgersOk tools (w.append job.tier job.tradingDate (ledgerEntry config job v segment members committedAt)) ∧
    PassOk tools config (w.append job.tier job.tradingDate (ledgerEntry config job v segment members committedAt))
      { p with appended := p.appended + 1 } ∧
    ∀ key path, Recorded w key path →
      Recorded (w.append job.tier job.tradingDate (ledgerEntry config job v segment members committedAt)) key path := by
  have hplanned := h.planned job (List.mem_of_getElem? hjob)
  have houtcome := h.futures _ job hjob
  rw [hdone] at houtcome
  obtain ⟨hindex, hfiles⟩ := OutcomeOk.verified houtcome _ v hv
  rw [hindex] at hmembers
  obtain ⟨files, hverified⟩ := hfiles members segment hmembers hname
  have hmem : members ∈ job.segments := List.mem_of_getElem? hmembers
  have hfresh : ∀ path ∈ members.map SegmentMember.path, ¬ Recorded w job.key path := by
    intro path hpath
    obtain ⟨m, hm, rfl⟩ := List.mem_map.1 hpath
    exact h.ahead _ job hjob _ members hmembers (.inr ⟨rfl, Nat.le_refl _⟩) m hm
  have hwf : (ledgerEntry config job v segment members committedAt).WellFormed job.tier.name job.tradingDate := by
    refine ⟨rfl, rfl, hplanned.nonempty members hmem, fun m hm => ?_, hplanned.apart.1 members hmem⟩
    dsimp only [ledgerEntry] at hm
    rw [hverified.members] at hm
    obtain ⟨f, hf, rfl⟩ := List.mem_map.1 hm
    exact safePath_of_clean (Tree.clean_of_lookup (hverified.inTree f hf))
  have hstored : Stored tools w.tree w.remote (ledgerEntry config job v segment members committedAt) :=
    ⟨files, hverified.members, hverified.inTree, hverified.settled, hverified.archive, hverified.md5⟩
  have hinside : ∀ path ∈ members.map SegmentMember.path, inside (dateDir job.tier job.tradingDate) path = true := by
    intro path hpath
    obtain ⟨m, hm, rfl⟩ := List.mem_map.1 hpath
    exact (hplanned.ofDate members hmem m hm).1
  obtain ⟨hledgers', hrecorded⟩ :=
    @LedgersOk.append _ _ tools w job.key _ hledgers hplanned.date hwf hstored hinside hfresh
  refine ⟨hledgers', { h with
    futures := fun i job' hjob' => (h.futures i job' hjob').grows grows_append
    early := fun hne => absurd htodo hne
    ahead := ?_
    current := ?_
    behind := fun hzero i job' hjob' hi s hs m hm => (hrecorded _ _).2 (.inl (h.behind hzero i job' hjob' hi s hs m hm))
    selected := fun s hs =>
      (h.selected s hs).mono (fun key path hrec => (hrecorded key path).2 (.inl hrec)) (fun _ hjob' => hjob') },
    fun key path hrec => (hrecorded key path).2 (.inl hrec)⟩
  · intro i job' hjob' j segment' hsegment' hle m hm hrec
    dsimp only at hle
    rcases (hrecorded _ _).1 hrec with hrec | ⟨hkey, hpath⟩
    · exact h.ahead i job' hjob' j segment' hsegment' (by omega) m hm hrec
    · have hi := h.key_inj hjob' hjob hkey
      rw [hi, hjob] at hjob'
      cases hjob'
      exact hplanned.apart.2 hmembers hsegment' (by omega) hpath (List.mem_map_of_mem hm)
  · intro job' hjob' j segment' hsegment' hlt m hm
    dsimp only at hjob' hlt
    rw [hjob] at hjob'
    cases hjob'
    by_cases hj : j < p.appended
    · exact (hrecorded _ _).2 (.inl (h.current job hjob j segment' hsegment' hj m hm))
    · have heq : j = p.appended := by omega
      rw [heq, hmembers] at hsegment'
      cases hsegment'
      exact (hrecorded _ _).2 (.inr ⟨rfl, List.mem_map_of_mem hm⟩)

/-- What one step of a pass keeps. -/
theorem PassOk.step (hfaithful : tools.Faithful) (hledgers : LedgersOk tools w) (h : PassOk tools config w p)
    (hstep : PassStep tools config w p w' p') :
    LedgersOk tools w' ∧ PassOk tools config w' p' ∧ Grows w w' ∧ ∀ key path, Recorded w key path → Recorded w' key path := by
  cases hstep with
  | plan tier tradingDate rest entries segments htodo hread hplan =>
    exact ⟨hledgers, h.plan hledgers htodo hread hplan, .refl _, fun _ _ hrec => hrec⟩
  | submit i job htodo hjob =>
    exact ⟨hledgers, h.submit hfaithful htodo hjob, .refl _, fun _ _ hrec => hrec⟩
  | work i q q' _ hrun hnext =>
    have huploads := next_uploads hnext
    exact ⟨hledgers.grows huploads.grows huploads.ledger, h.work hrun hnext, huploads.grows,
      fun _ _ => (recorded_congr huploads.ledger).2⟩
  | collect i outcome hrun => exact ⟨hledgers, h.collect hrun, .refl _, fun _ _ hrec => hrec⟩
  | append job outcome v members segment committedAt htodo hjob hdone hv hmembers hname =>
    obtain ⟨hledgers', hpass, hrecorded⟩ := h.append hledgers committedAt htodo hjob hdone hv hmembers hname
    exact ⟨hledgers', hpass, grows_append, hrecorded⟩
  | commit job outcome htodo hjob hdone hall =>
    exact ⟨hledgers, h.commit htodo hjob hdone hall, .refl _, fun _ _ hrec => hrec⟩

end

/-! ## Seal, then restore -/

/-- What holds between any two steps. -/
structure SealerOk (tools : Tools Bytes Archive) (config : Config) (s : Sealer Bytes Archive) : Prop where
  ledgers : LedgersOk tools s.store
  pass : ∀ p, s.pass = some p → PassOk tools config s.store p
  report : ∀ r, s.report = some r → r.deferredDates = 0 → ∀ selected ∈ r.selected, Covered s.store [] selected

theorem PassOk.covered {w : Store Bytes Archive} {p : Pass Bytes Archive} (h : PassOk tools config w p)
    (hend : p.jobs.length ≤ p.nextCommit) (hzero : p.deferredDates = 0) {selected : (Tier × String) × Tree Bytes}
    (hselected : selected ∈ p.selected) : Covered w [] selected := by
  intro path b hb hsettled
  rcases h.selected selected hselected path b hb hsettled with hrec | ⟨job, hjob, hkey, segment, hsegment, m, hm, rfl⟩
  · exact .inl hrec
  · obtain ⟨i, hi⟩ := List.getElem?_of_mem hjob
    rw [← hkey]
    exact .inl (h.behind hzero i job hi (by have := (List.getElem?_eq_some_iff.1 hi).1; omega) segment hsegment m hm)

theorem sealerOk_inductive (hfaithful : tools.Faithful) : (sealing tools config).Inductive (SealerOk tools config) where
  start := by
    rintro s rfl
    refine ⟨fun key => ⟨[], rfl, ⟨fun _ h => (by cases h), .nil⟩, fun _ h => (by cases h), fun _ h => by cases h⟩, ?_, ?_⟩
    · exact fun p hp => by cases hp
    · exact fun r hr => by cases hr
  step := by
    rintro s s' hs hstep
    have houtside (w' : Store Bytes Archive) (hw : Grows s.store w') (hledger : w'.ledger = s.store.ledger) :
        SealerOk tools config { s with store := w' } :=
      ⟨hs.ledgers.grows hw hledger, fun p hp => (hs.pass p hp).grows hw hledger, fun r hr hzero selected hselected =>
        (hs.report r hr hzero selected hselected).mono (fun _ _ => (recorded_congr hledger).2) (fun _ hjob => hjob)⟩
    cases hstep with
    | publish path node hclean hapart => exact houtside _ grows_publish rfl
    | discard path hflight => exact houtside _ (grows_discard hflight) rfl
    | start dates hfree hnodup hdates =>
      refine ⟨hs.ledgers, fun p hp => ?_, fun r hr => by cases hr⟩
      cases hp
      exact {
        planned := fun _ h => by cases h
        futures := fun _ _ h => by simp at h
        keys := hnodup
        dates := hdates
        early := fun _ => ⟨rfl, rfl, fun _ => rfl⟩
        ahead := fun _ _ h => by simp at h
        current := fun _ h => by simp at h
        behind := fun _ _ _ h => by simp at h
        selected := fun _ h => by cases h }
    | pass p p' w' hpass hstep =>
      obtain ⟨hledgers, hp, hgrows, hrecorded⟩ := (hs.pass p hpass).step hfaithful hs.ledgers hstep
      refine ⟨hledgers, fun q hq => ?_, fun r hr hzero selected hselected =>
        (hs.report r hr hzero selected hselected).mono hrecorded (fun _ hjob => hjob)⟩
      cases hq
      exact hp
    | report p hpass htodo hend hfailed =>
      refine ⟨hs.ledgers, fun q hq => (by cases hq), fun r hr hzero selected hselected => ?_⟩
      cases hr
      dsimp only at hzero hselected
      obtain ⟨hdeferred, hnone⟩ := Nat.add_eq_zero_iff.1 hzero
      refine (hs.pass p hpass).covered ?_ hdeferred hselected
      rcases hend with hend | hunsubmitted
      · exact hend
      · by_contra hlt
        have hnot := List.countP_eq_zero.1 hnone p.nextCommit (List.mem_range.2 (Nat.lt_of_not_le hlt))
        simp [hunsubmitted] at hnot
    | stop => exact ⟨hs.ledgers, fun q hq => (by cases hq), fun r hr => by cases hr⟩

/-- **Sealing, then restoring, is the identity**: what a plan packs, what is recorded, and what comes back. -/
structure SealsAndRestores (tools : Tools Bytes Archive) (config : Config) (s : Sealer Bytes Archive) : Prop where
  /-- A date is planned against its ledger, and the plan partitions its other files. -/
  plans : ∀ tier tradingDate, ∃ entries segments, s.store.entries tier tradingDate = .ok entries ∧
    planSegments tools config.limit s.store.tree tier tradingDate (sealedSizes entries) = .ok segments ∧
    Partitions tools config.limit s.store.tree tier tradingDate (sealedSizes entries) segments
  /-- No path is in two entries. -/
  once : ∀ (key : Tier × String) (entries : List LedgerEntry), s.store.entries key.1 key.2 = .ok entries → (entries.flatMap LedgerEntry.paths).Nodup
  oneDate : ∀ key key' path, Recorded s.store key path → Recorded s.store key' path → key = key'
  /-- An empty directory ends up with the recorded paths and their bytes, no more and no less. -/
  restores : ∀ key : Tier × String, ∃ files names,
    restoreDate tools key.1.name key.2 (s.store.ledger key.1 key.2) s.store.remote [] = .ok (files, names) ∧
    (files.map Prod.fst).Nodup ∧ (∀ path, path ∈ names ↔ Recorded s.store key path) ∧
    ∀ path b, (path, b) ∈ files ↔ Recorded s.store key path ∧ s.store.tree.lookup path = some (.file b)
  /-- After a pass that deferred no date, every file it found when it planned is recorded. -/
  seals : ∀ r, s.report = some r → r.deferredDates = 0 → ∀ selected ∈ r.selected, ∀ path b,
    (path, Node.file b) ∈ selected.2.walk selected.1.1 selected.1.2 → isInflight path = false → Recorded s.store selected.1 path

theorem LedgerOk.sizes {w : Store Bytes Archive} {key : Tier × String} {entries : List LedgerEntry}
    (h : LedgerOk tools w key entries) {path : String} {b : Bytes} {size : Int} (hb : w.tree.lookup path = some (.file b))
    (hsize : (sealedSizes entries).lookup path = some size) : (tools.size b : Int) = size := by
  obtain ⟨e, he, m, hm, hpath, hsize⟩ := exists_member_of_lookup hsize
  obtain ⟨files, hfiles⟩ := h.stored e he
  rw [hfiles.members] at hm
  obtain ⟨f, hf, rfl⟩ := List.mem_map.1 hm
  have hlookup := hfiles.inTree f hf
  have hf1 : f.1 = path := hpath
  rw [hf1, hb] at hlookup
  cases hlookup
  exact hsize

theorem LedgerOk.restores (hfaithful : tools.Faithful) {w : Store Bytes Archive} {key : Tier × String}
    {entries : List LedgerEntry} (h : LedgerOk tools w key entries) : ∃ files names,
    restoreDate tools key.1.name key.2 (w.ledger key.1 key.2) w.remote [] = .ok (files, names) ∧
    (files.map Prod.fst).Nodup ∧ (∀ path, path ∈ names ↔ Recorded w key path) ∧
    ∀ path b, (path, b) ∈ files ↔ Recorded w key path ∧ w.tree.lookup path = some (.file b) := by
  obtain ⟨files, hrun, hpaths, hin⟩ := restoreDate_of_stored hfaithful h.committed h.stored
  have hrecorded (path : String) : Recorded w key path ↔ path ∈ entries.flatMap LedgerEntry.paths := by
    rw [h.recorded, List.mem_flatMap]
  refine ⟨files, _, by rw [h.text]; exact hrun, ?_, fun path => ?_, fun path b => ?_⟩
  · rw [hpaths]
    exact h.committed.nodup_paths
  · rw [List.mem_mergeSort, hrecorded]
  · rw [hrecorded, ← hpaths]
    constructor
    · exact fun hf => ⟨List.mem_map.2 ⟨_, hf, rfl⟩, hin _ hf⟩
    · rintro ⟨hpath, hlookup⟩
      obtain ⟨⟨path', b'⟩, hf, rfl⟩ := List.mem_map.1 hpath
      have hlookup' := hin _ hf
      dsimp only at hlookup'
      rw [hlookup] at hlookup'
      cases hlookup'
      exact hf

/-- **In every run of passes, what is recorded comes back, and what a complete pass found is recorded.** -/
theorem seal_restore_identity (hfaithful : tools.Faithful) :
    (sealing tools config).Always (SealsAndRestores tools config) := by
  intro s hreach
  obtain ⟨hledgers, -, hreport⟩ := (sealerOk_inductive hfaithful).always s hreach
  constructor
  · intro tier tradingDate
    obtain ⟨entries, hentries⟩ := hledgers (tier, tradingDate)
    obtain ⟨segments, hsegments⟩ := exists_planSegments (fun path b size => hentries.sizes)
    exact ⟨entries, segments, hentries.read, hsegments, planSegments_partitions hsegments⟩
  · intro key entries hread
    obtain ⟨entries', hentries⟩ := hledgers key
    have heq : entries' = entries := Except.ok.inj (hentries.read.symm.trans hread)
    rw [← heq]
    exact hentries.committed.nodup_paths
  · exact fun key key' path => hledgers.key_unique
  · intro key
    obtain ⟨entries, hentries⟩ := hledgers key
    exact hentries.restores hfaithful
  · intro r hr hzero selected hselected path b hb hsettled
    rcases hreport r hr hzero selected hselected path b hb hsettled with hrec | ⟨job, hjob, -⟩
    · exact hrec
    · cases hjob

/-! ## One file, sealed and restored -/

/-- Surroundings in which every call succeeds. -/
def sealAnswer (tools : Tools Bytes Archive) : (op : SealOp Archive) → Store Bytes Archive → SealRet op × Store Bytes Archive
  | .now, w => (false, w)
  | .lsf _, w => (some [], w)
  | .stage members, w => (stageArchive tools w.tree members, w)
  | .md5sum remote, w => (some ((w.remote.lookup remote).map tools.md5), w)
  | .copyto archive remote, w =>
    (true, if w.remote.lookup remote = none then { w with remote := w.remote ++ [(remote, archive)] } else w)

theorem sealAnswer_answers (tools : Tools Bytes Archive) (op : SealOp Archive) (w : Store Bytes Archive) :
    answers tools op w (sealAnswer tools op w).1 (sealAnswer tools op w).2 := by
  cases op with
  | now | lsf => rfl
  | stage members => exact ⟨rfl, fun _ h => h⟩
  | md5sum remote =>
    refine ⟨rfl, fun sum hsum => ?_⟩
    have h : (w.remote.lookup remote).map tools.md5 = some sum := Option.some.inj hsum
    obtain ⟨archive, harchive, rfl⟩ := Option.map_eq_some_iff.1 h
    exact ⟨archive, harchive, rfl⟩
  | copyto archive remote =>
    by_cases hnone : w.remote.lookup remote = none
    · exact .inr ⟨hnone, archive, if_pos hnone⟩
    · exact .inl (if_neg hnone)

/-- A worker's calls, answered one after the other. -/
theorem reachable_afterCalls {w : Store Bytes Archive}
    {report : Option (SealReport Bytes)} {p : Pass Bytes Archive} {i : Nat} {q : Worker Archive GroupOutcome}
    (h : (sealing tools config).Reachable ⟨w, some p, report⟩) (hrun : p.futures i = .running q) :
    ∀ n, (∀ m < n, (Prog.afterCalls (sealAnswer tools) m q w).1.isCall = true) →
      ∃ futures, futures i = .running (Prog.afterCalls (sealAnswer tools) n q w).1 ∧
        (sealing tools config).Reachable ⟨(Prog.afterCalls (sealAnswer tools) n q w).2, some { p with futures }, report⟩
  | 0, _ => ⟨p.futures, hrun, h⟩
  | n + 1, hcalls => by
    obtain ⟨futures, hfuture, hreach⟩ := reachable_afterCalls h hrun n (fun m hm => hcalls m (by omega))
    exact ⟨_, Function.update_self .., hreach.step (.pass _ _ _ rfl (.work i _ _ _ hfuture
      (Prog.next_afterCalls (sealAnswer_answers tools) (hcalls n (Nat.lt_succ_self n)))))⟩

/-- What a worker returns. -/
def returned : Worker Archive GroupOutcome → Option GroupOutcome
  | .ret outcome => some outcome
  | _ => none

theorem eq_ret_of_returned {q : Worker Archive GroupOutcome} {outcome : GroupOutcome} (h : returned q = some outcome) :
    q = .ret outcome := by
  cases q with
  | ret outcome' => rw [Option.some.inj h]
  | raise | call => cases h

/-- Archives are lists of files, and their sum spells them out. -/
def plainTools : Tools String (Files String) where
  size b := b.toList.length
  sha256 b := b
  sha256Text := String.ofList
  tar files := files
  untar archive := archive.map (fun f => (f.1, some f.2))
  archiveSize archive := archive.length
  md5 archive := String.ofList (Json.print (.arr (archive.map (fun f => .arr [.str f.1, .str f.2]))))

theorem plainTools_faithful : plainTools.Faithful where
  untar_tar _ _ := rfl
  md5_injective a a' h := by
    have hprint := congrArg Json.loads (String.ofList_injective h)
    rw [Json.loads_print, Json.loads_print] at hprint
    have hinj : Function.Injective (fun f : String × String => Json.arr [.str f.1, .str f.2]) := by
      rintro ⟨p, b⟩ ⟨p', b'⟩ heq
      cases heq
      rfl
    exact hinj.list_map (Json.arr.inj (Option.some.inj hprint))

def oneConfig : Config := ⟨"remote", 1000, 4⟩

def oneMember : SegmentMember := ⟨"raw/2026-01-05/a", 1, "x"⟩

theorem clean_onePath : cleanPath "raw/2026-01-05/a" = true := by decide +kernel

def oneTree : Tree String := Tree.empty.add "raw/2026-01-05/a" (.file "x") clean_onePath (fun _ hn => by cases hn)

def oneJob : Job := ⟨.raw, "2026-01-05", [[oneMember]]⟩

def oneArchive : Files String := [("raw/2026-01-05/a", "x")]

def oneStore : Store String (Files String) := ⟨oneTree, [], fun _ _ => []⟩

theorem name_oneMember : segmentName plainTools [oneMember] = .ok "seg-raw/2026-01-05/a" := by decide +kernel

def oneGroup : Worker (Files String) GroupOutcome := sealGroup plainTools oneConfig .raw "2026-01-05" [[oneMember]]

def oneOutcome : GroupOutcome := ⟨[⟨0, 1, plainTools.md5 oneArchive⟩], true, none⟩

theorem oneGroup_calls : ∀ m < 5, (Prog.afterCalls (sealAnswer plainTools) m oneGroup oneStore).1.isCall = true := by
  decide +kernel

theorem oneGroup_returned : returned (Prog.afterCalls (sealAnswer plainTools) 5 oneGroup oneStore).1 = some oneOutcome := by
  decide +kernel

theorem oneGroup_file : (Prog.afterCalls (sealAnswer plainTools) 5 oneGroup oneStore).2.tree.lookup "raw/2026-01-05/a" =
    some (.file "x") := by
  decide +kernel

theorem seal_restore_one_file : ∃ s r, (sealing plainTools oneConfig).Reachable s ∧ s.report = some r ∧ r.deferredDates = 0 ∧
    ∃ files names, restoreDate plainTools "raw" "2026-01-05" (s.store.ledger .raw "2026-01-05") s.store.remote [] = .ok (files, names) ∧
      ("raw/2026-01-05/a", "x") ∈ files := by
  have hempty : (sealing plainTools oneConfig).Reachable ⟨⟨Tree.empty, [], fun _ _ => []⟩, none, none⟩ := .start rfl
  have hpublish : (sealing plainTools oneConfig).Reachable ⟨oneStore, none, none⟩ :=
    hempty.step (.publish "raw/2026-01-05/a" (.file "x") clean_onePath (fun _ hn => by cases hn))
  have hstart := hpublish.step (.start [(.raw, "2026-01-05")] rfl (by decide) (by decide +kernel))
  have hplan := hstart.step (.pass _ _ _ rfl
    (.plan .raw "2026-01-05" [] [] [[oneMember]] rfl (by decide +kernel) (by decide +kernel)))
  have hsubmit := hplan.step (.pass _ _ _ rfl
    (.submit 0 oneJob rfl rfl rfl (fun j hj => by cases hj) (by decide) rfl))
  obtain ⟨futures, hfuture, hwork⟩ := reachable_afterCalls hsubmit (Function.update_self ..) 5 oneGroup_calls
  have hdone : futures 0 = .running (.ret oneOutcome) :=
    hfuture.trans (congrArg Future.running (eq_ret_of_returned oneGroup_returned))
  have hcollect := hwork.step (.pass _ _ _ rfl (.collect 0 oneOutcome hdone))
  have hfinished : Function.update futures 0 (.finished oneOutcome) 0 = .finished oneOutcome := Function.update_self ..
  have happend := hcollect.step (.pass _ _ _ rfl (.append oneJob oneOutcome ⟨0, 1, plainTools.md5 oneArchive⟩ [oneMember]
    "seg-raw/2026-01-05/a" "2026-01-05T08:00:00+00:00" rfl rfl hfinished rfl rfl name_oneMember))
  have hcommit := happend.step (.pass _ _ _ rfl (.commit oneJob oneOutcome rfl rfl hfinished rfl))
  have hreport := hcommit.step (.report _ rfl rfl (.inl (Nat.le_refl 1)) rfl)
  obtain ⟨-, -, -, hrestores, hseals⟩ := seal_restore_identity plainTools_faithful _ hreport
  have hrec := hseals _ rfl rfl _ (List.mem_singleton.2 rfl) "raw/2026-01-05/a" "x" (by decide +kernel) (by decide +kernel)
  obtain ⟨files, names, hrun, -, -, hfiles⟩ := hrestores (.raw, "2026-01-05")
  exact ⟨_, _, hreport, rfl, rfl, files, names, hrun, (hfiles _ _).2 ⟨hrec, oneGroup_file⟩⟩

end Offsite
