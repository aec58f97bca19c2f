import KClosingAlpha.Intraday.Commit
import KClosingAlpha.Intraday.TapeCells
import KClosingAlpha.Lib.KeepLast
/-!
# FlushReport — what a flush reports of the results it was given (`TickTapePublisher.flush`)

The certified results of a group are written together, and one by one when that write is refused.  The writes of a run
and their answers are kept beside the world, so that a result is reported as failed exactly where the last write of it
alone was refused; every other certified result has its own rows on disk, unless more were there.
-/
namespace Intraday

open KeepLast (latest)

variable {Cell : Type} {pd : Pandas Cell}

/-! ## The writes of a run -/

/-- The partition of a write and the symbols it certifies. -/
def WriteArgs.covers (args : WriteArgs Cell) : String × String × List String :=
  (args.snapshotDate, args.session, (args.coverage.getD []).map Prod.fst)

/-- Writes and their answers. -/
abbrev WriteLog (Cell : Type) := List (WriteArgs Cell × Except Exn Nat)

structure LoggedWorld (Cell : Type) where
  tape : TapeWorld Cell
  log : WriteLog Cell

/-- `TapeExec`, with the writes noted. -/
def LoggedExec (pd : Pandas Cell) : (op : TapeOp Cell) → LoggedWorld Cell → op.Ret → LoggedWorld Cell → Prop
  | .write args, w, r, w' => TapeExec pd (.write args) w.tape r w'.tape ∧ w'.log = w.log ++ [(args, r)]
  | .closed day session, w, r, w' => TapeExec pd (.closed day session) w.tape r w'.tape ∧ w'.log = w.log
  | .manifest day session entries, w, r, w' => TapeExec pd (.manifest day session entries) w.tape r w'.tape ∧ w'.log = w.log
  | .rowCount t, w, r, w' => TapeExec pd (.rowCount t) w.tape r w'.tape ∧ w'.log = w.log
  | .appendRecord record, w, r, w' => TapeExec pd (.appendRecord record) w.tape r w'.tape ∧ w'.log = w.log

/-- The last write of a result alone was refused. -/
def OwnWriteRaised (batchRows : Int) (log : WriteLog Cell) (r : TapeDayResult Cell) : Prop :=
  ∃ e, latest (fun p => p.1.covers) (r.day, r.session, [r.symbol]) log =
    some (groupArgs batchRows r.day r.session [r], .error e) ∧ e.isValueError = true

/-! ## One group -/

section group

variable {day session : String} {batch : List (TapeDayResult Cell)} {batchRows : Int}

theorem Batch.covers (h : Batch pd day session batch) :
    (groupArgs batchRows day session batch).covers = (day, session, batch.map TapeDayResult.symbol) := by
  unfold WriteArgs.covers
  rw [batch_coverage h, Option.getD_some, List.map_map]
  rfl

/-- The key of a result of the group. -/
theorem Batch.key (h : Batch pd day session batch) {r : TapeDayResult Cell} (hr : r ∈ batch) : r.key = (r.symbol, day, session) := by
  have hg := Prod.mk.inj (h.group r hr)
  unfold TapeDayResult.key
  rw [hg.1, hg.2]

/-- What some writes report of the results they are about. -/
structure Isolated (pd : Pandas Cell) (batchRows : Int) (day session : String) (batch : List (TapeDayResult Cell))
    (failed : Failed) (new : WriteLog Cell) (w w' : World Cell) : Prop where
  writes : new.map (fun p => p.1.covers) = batch.map (fun r => (day, session, [r.symbol]))
  failed_iff : ∀ r ∈ batch, r.key ∈ failedKeys failed ↔
    ∃ e, (groupArgs batchRows day session [r], .error e) ∈ new ∧ e.isValueError = true
  keys : ∀ k ∈ failedKeys failed, ∃ r ∈ batch, r.key = k
  lands : Lands pd (fun r => r ∈ batch ∧ r.key ∉ failedKeys failed) w w'

/-- The first of a batch is written, or refused. -/
theorem Isolated.cons {a : TapeDayResult Cell} {failed : Failed} {new : WriteLog Cell} {o : Except Exn Nat}
    {w w₁ w' : World Cell} [DecidableEq Cell] (h : Batch pd day session (a :: batch))
    (hrest : Isolated pd batchRows day session batch failed new w₁ w')
    (hrun : Prog.Ends Exec (writeTickPartition pd (groupArgs batchRows day session [a])) w o w₁)
    (ho : ∀ e, o = .error e → e.isValueError = true) (reason : String) :
    Isolated pd batchRows day session (a :: batch)
      ((match o with | .ok _ => [] | .error _ => [(a.key, reason)]) ++ failed) ((groupArgs batchRows day session [a], o) :: new) w w' := by
  have hone : Batch pd day session [a] := h.single List.mem_cons_self
  have hcovers : (groupArgs batchRows day session [a]).covers = (day, session, [a.symbol]) := hone.covers
  have hkey : ∀ r ∈ batch, r.key ≠ a.key := fun r hr heq => h.key_ne hr (Prod.mk.inj heq).1
  -- a write of one result is of no other
  have hother : ∀ r ∈ batch, ∀ o', (groupArgs batchRows day session [r], o') ∈ (groupArgs batchRows day session [a], o) :: new ↔
      (groupArgs batchRows day session [r], o') ∈ new := by
    intro r hr o'
    rw [List.mem_cons, or_iff_right]
    intro heq
    have hsame := congrArg WriteArgs.covers (Prod.mk.inj heq).1
    rw [(h.single (List.mem_cons_of_mem _ hr)).covers, hcovers] at hsame
    exact h.key_ne hr (List.singleton_inj.1 (Prod.mk.inj (Prod.mk.inj hsame).2).2)
  have hown : ∀ o', (groupArgs batchRows day session [a], o') ∈ (groupArgs batchRows day session [a], o) :: new ↔ o' = o := by
    intro o'
    constructor
    · intro hmem
      rcases List.mem_cons.1 hmem with heq | hmem
      · exact (Prod.mk.inj heq).2
      · have hin : (day, session, [a.symbol]) ∈ new.map fun p => p.1.covers := List.mem_map.2 ⟨_, hmem, hcovers⟩
        rw [hrest.writes] at hin
        obtain ⟨r, hr, heq⟩ := List.mem_map.1 hin
        exact absurd (List.singleton_inj.1 (Prod.mk.inj (Prod.mk.inj heq).2).2) (h.key_ne hr)
    · rintro rfl
      exact List.mem_cons_self
  have hnot : a.key ∉ failedKeys failed := by
    intro hmem
    obtain ⟨r, hr, heq⟩ := hrest.keys _ hmem
    exact hkey r hr heq
  have hdisjoint : ∀ r, r = a → ∀ r', (r' ∈ batch ∧ r'.key ∉ failedKeys failed) → r'.target = r.target → r'.symbol ≠ r.symbol := by
    rintro r rfl r' ⟨hr', -⟩ -
    exact h.key_ne hr'
  refine ⟨?_, ?_, ?_, ?_⟩
  · rw [List.map_cons, List.map_cons, hrest.writes, hcovers]
  · intro r hr
    unfold failedKeys
    rw [List.map_append, List.mem_append]
    rcases List.mem_cons.1 hr with rfl | hr
    · cases o with
      | ok n =>
        constructor
        · exact fun hk => absurd (hk.resolve_left List.not_mem_nil) hnot
        · rintro ⟨e, he, -⟩
          cases (hown _).1 he
      | error e => exact ⟨fun _ => ⟨e, (hown _).2 rfl, ho e rfl⟩, fun _ => .inl List.mem_cons_self⟩
    · simp only [hother r hr]
      rw [← hrest.failed_iff r hr]
      cases o with
      | ok n => simp [failedKeys]
      | error e => simp [failedKeys, hkey r hr]
  · intro k hk
    unfold failedKeys at hk
    rw [List.map_append, List.mem_append] at hk
    rcases hk with hk | hk
    · cases o with
      | ok n => cases hk
      | error e => exact ⟨a, List.mem_cons_self, (List.mem_singleton.1 hk).symm⟩
    · obtain ⟨r, hr, heq⟩ := hrest.keys k hk
      exact ⟨r, List.mem_cons_of_mem _ hr, heq⟩
  · cases o with
    | ok n =>
      have ha : Lands pd (fun r => r = a) w w₁ := (hone.lands (List.cons_ne_nil _ _) hrun).congr fun r => List.mem_singleton
      refine (ha.append hrest.lands hdisjoint).congr fun r => ?_
      rw [List.nil_append, List.mem_cons]
      constructor
      · rintro (rfl | ⟨hr, hk⟩)
        · exact ⟨.inl rfl, hnot⟩
        · exact ⟨.inr hr, hk⟩
      · rintro ⟨rfl | hr, hk⟩
        · exact .inl rfl
        · exact .inr ⟨hr, hk⟩
    | error e =>
      have hnone : Lands pd (fun _ => False) w w₁ := .nothing (files_of_refused (ho e rfl) hrun) fun _ h => h
      refine (hnone.append hrest.lands fun _ h => h.elim).congr fun r => ?_
      unfold failedKeys
      rw [List.singleton_append, List.map_cons, List.mem_cons, List.mem_cons, not_or]
      constructor
      · rintro (hr | ⟨hr, hk⟩)
        · exact hr.elim
        · exact ⟨.inr hr, hkey r hr, hk⟩
      · rintro ⟨rfl | hr, hne, hk⟩
        · exact absurd rfl hne
        · exact .inr ⟨hr, hk⟩

theorem isolate_ends [DecidableEq Cell] : ∀ {batch : List (TapeDayResult Cell)} {w w' : LoggedWorld Cell} {failed : Failed},
    Batch pd day session batch → Prog.Ends (LoggedExec pd) (isolate batchRows day session batch) w (.ok failed) w' →
    ∃ new, w'.log = w.log ++ new ∧ Isolated pd batchRows day session batch failed new w.tape.store w'.tape.store
  | [], w, w', failed, _, h => by
    cases h
    exact ⟨[], (List.append_nil _).symm, rfl, fun _ hr => (by cases hr), fun _ hk => (by cases hk),
      .nothing rfl fun _ hr => (by cases hr.1)⟩
  | a :: batch, w, w', failed, hb, h => by
    unfold isolate at h
    cases h with
    | call o hop hk =>
      obtain ⟨⟨store, hrun, hw₁⟩, hlog⟩ := hop
      cases o with
      | ok n =>
        obtain ⟨new, hnew, hrest⟩ := isolate_ends hb.tail hk
        rw [hw₁] at hrest
        refine ⟨_ :: new, ?_, hrest.cons hb hrun (fun e he => (by cases he)) ""⟩
        rw [hnew, hlog, List.append_assoc]
        rfl
      | error e =>
        dsimp only at hk
        split_ifs at hk with he
        · obtain ⟨failed', w₂, hk, hret⟩ := Prog.Ends.of_bind hk
          cases hret
          obtain ⟨new, hnew, hrest⟩ := isolate_ends hb.tail hk
          rw [hw₁] at hrest
          refine ⟨(groupArgs batchRows day session [a], .error e) :: new, ?_, ?_⟩
          · rw [hnew, hlog, List.append_assoc]
            rfl
          · rw [← hb.key List.mem_cons_self]
            exact hrest.cons hb hrun (fun e' he' => by cases he'; exact he) _
        · cases hk

/-- What a flush of some groups reports of their certified results. -/
structure Reported (pd : Pandas Cell) (batchRows : Int) (groups : List (String × String)) (results : List (TapeDayResult Cell))
    (failed : Failed) (new : WriteLog Cell) (w w' : World Cell) : Prop where
  writes : ∀ p ∈ new, (p.1.snapshotDate, p.1.session) ∈ groups
  failed_iff : ∀ r ∈ results, r.key ∈ failedKeys failed ↔ OwnWriteRaised batchRows new r
  keys : ∀ k ∈ failedKeys failed, ∃ r ∈ results, r.key = k
  lands : Lands pd (fun r => r ∈ results ∧ r.key ∉ failedKeys failed) w w'

theorem Reported.nothing {groups : List (String × String)} {w w' : World Cell} (hw : w' = w) :
    Reported pd batchRows groups [] [] [] w w' :=
  ⟨fun _ hp => (by cases hp), fun _ hr => (by cases hr), fun _ hk => (by cases hk),
    .nothing (by rw [hw]) fun _ hr => (by cases hr.1)⟩

/-- The write of the whole batch stands before those of its results. -/
theorem Isolated.reported {failed : Failed} {new : WriteLog Cell} {e : Exn} {w w' : World Cell} (hb : Batch pd day session batch)
    (h : Isolated pd batchRows day session batch failed new w w') :
    Reported pd batchRows [(day, session)] batch failed ((groupArgs batchRows day session batch, .error e) :: new) w w' := by
  have hnodup : (new.map fun p => p.1.covers).Nodup := by
    rw [h.writes]
    refine (List.Nodup.of_map TapeDayResult.symbol hb.nodup).map_on fun a ha b hb' heq => ?_
    exact List.inj_on_of_nodup_map hb.nodup ha hb' (List.singleton_inj.1 (Prod.mk.inj (Prod.mk.inj heq).2).2)
  refine ⟨fun p hp => ?_, fun r hr => ?_, h.keys, h.lands⟩
  · rcases List.mem_cons.1 hp with rfl | hp
    · exact List.mem_cons_self
    · have hin : p.1.covers ∈ new.map fun p => p.1.covers := List.mem_map_of_mem hp
      rw [h.writes] at hin
      obtain ⟨r, -, heq⟩ := List.mem_map.1 hin
      rw [List.mem_singleton]
      exact Prod.ext (Prod.mk.inj heq).1.symm (Prod.mk.inj (Prod.mk.inj heq).2).1.symm
  · have hgroup := Prod.mk.inj (hb.group r hr)
    have hcovers : (groupArgs batchRows day session [r]).covers = (day, session, [r.symbol]) := (hb.single hr).covers
    have hin : (day, session, [r.symbol]) ∈ new.map fun p => p.1.covers := by
      rw [h.writes]
      exact List.mem_map_of_mem hr
    have hlatest : latest (fun p => p.1.covers) (day, session, [r.symbol])
        ((groupArgs batchRows day session batch, .error e) :: new) = latest (fun p => p.1.covers) (day, session, [r.symbol]) new := by
      obtain ⟨p, hp⟩ := Option.ne_none_iff_exists'.1
        (fun hnone => KeepLast.latest_eq_none_iff.1 hnone hin : latest (fun p => p.1.covers) (day, session, [r.symbol]) new ≠ none)
      have happend : latest (fun p => p.1.covers) (day, session, [r.symbol])
          ([(groupArgs batchRows day session batch, .error e)] ++ new) =
            (latest (fun p => p.1.covers) (day, session, [r.symbol]) new).or _ := KeepLast.latest_append ..
      rw [hp, Option.some_or] at happend
      exact happend.trans hp.symm
    rw [h.failed_iff r hr]
    unfold OwnWriteRaised
    rw [hgroup.1, hgroup.2, hlatest, ← hcovers]
    constructor
    · rintro ⟨e, he, hvalue⟩
      exact ⟨e, (KeepLast.latest_eq_some_iff_mem hnodup).2 he, hvalue⟩
    · rintro ⟨e, he, hvalue⟩
      exact ⟨e, (KeepLast.latest_eq_some_iff_mem hnodup).1 he, hvalue⟩

theorem writeCertified_ends [DecidableEq Cell] {w w' : LoggedWorld Cell} {failed : Failed} (hb : Batch pd day session batch)
    (h : Prog.Ends (LoggedExec pd) (writeCertified batchRows day session batch) w (.ok failed) w') :
    ∃ new, w'.log = w.log ++ new ∧ Reported pd batchRows [(day, session)] batch failed new w.tape.store w'.tape.store := by
  unfold writeCertified at h
  split_ifs at h with hempty
  · rw [List.isEmpty_iff] at hempty
    subst hempty
    cases h
    exact ⟨[], (List.append_nil _).symm, .nothing rfl⟩
  · cases h with
    | call o hop hk =>
      obtain ⟨⟨store, hrun, hw₁⟩, hlog⟩ := hop
      cases o with
      | ok n =>
        cases hk
        rw [hw₁]
        refine ⟨_, hlog, ?_, fun r hr => ?_, fun _ hk => (by cases hk), ?_⟩
        · intro p hp
          rw [List.mem_singleton.1 hp]
          exact List.mem_cons_self
        · refine ⟨fun hk => (by cases hk), ?_⟩
          rintro ⟨e, he, -⟩
          cases (Prod.mk.inj (List.mem_singleton.1 (KeepLast.mem_of_latest he).1)).2
        · have hlands := hb.lands (fun heq => hempty (List.isEmpty_iff.2 heq)) hrun
          exact hlands.congr fun r => by simp [failedKeys]
      | error e =>
        dsimp only at hk
        split_ifs at hk with he
        · obtain ⟨new, hnew, hisolated⟩ := isolate_ends hb hk
          rw [hw₁] at hisolated
          have hnone : Lands pd (fun _ => False) w.tape.store store := .nothing (files_of_refused he hrun) fun _ h => h
          refine ⟨(groupArgs batchRows day session batch, .error e) :: new, ?_, Isolated.reported hb ?_⟩
          · rw [hnew, hlog, List.append_assoc]
            rfl
          · exact ⟨hisolated.writes, hisolated.failed_iff, hisolated.keys,
              (hnone.append hisolated.lands fun _ h => h.elim).congr fun r => or_iff_right id⟩
        · cases hk

theorem guardAll_ends : ∀ {items : List (TapeDayResult Cell)} {w w' : LoggedWorld Cell} {u : Unit},
    Prog.Ends (LoggedExec pd) (guardAll items) w (.ok u) w' → w'.log = w.log ∧ w'.tape = w.tape
  | [], w, w', u, h => by
    cases h
    exact ⟨rfl, rfl⟩
  | r :: rs, w, w', u, h => by
    unfold guardAll at h
    cases h with
    | call closed hop hk =>
      obtain ⟨htape, hlog⟩ := hop
      cases closed with
      | true =>
        obtain ⟨hlog', htape'⟩ := guardAll_ends hk
        exact ⟨hlog'.trans hlog, htape'.trans htape⟩
      | false => cases hk

theorem flushGroup_ends [DecidableEq Cell] {items : List (TapeDayResult Cell)} {w w' : LoggedWorld Cell} {failed : Failed}
    (hb : Batch pd day session (items.filter fun r => r.entry.isCertified))
    (h : Prog.Ends (LoggedExec pd) (flushGroup batchRows day session items) w (.ok failed) w') :
    ∃ new, w'.log = w.log ++ new ∧ Reported pd batchRows [(day, session)] (items.filter fun r => r.entry.isCertified) failed new
      w.tape.store w'.tape.store := by
  unfold flushGroup at h
  obtain ⟨u, w₁, hguard, h⟩ := Prog.Ends.of_bind h
  obtain ⟨hlog₁, htape₁⟩ := guardAll_ends hguard
  obtain ⟨failed', w₂, hwrite, h⟩ := Prog.Ends.of_bind h
  obtain ⟨new, hnew, hreported⟩ := writeCertified_ends hb hwrite
  cases h with
  | call o hop hk =>
    obtain ⟨htape, hlog⟩ := hop
    obtain ⟨u', w₃, hmanifest, hk⟩ := Prog.Ends.of_bind hk
    cases hk
    obtain rfl := Prog.Ends.of_ofExcept hmanifest
    cases hmanifest
    refine ⟨new, ?_, ?_⟩
    · rw [hlog, hnew, hlog₁]
    · rw [← htape₁, htape]
      exact hreported

end group

/-! ## The flush -/

/-- The writes of other groups say nothing of a result. -/
theorem latest_of_other_group {log : WriteLog Cell} {groups : List (String × String)} {r : TapeDayResult Cell}
    (hlog : ∀ p ∈ log, (p.1.snapshotDate, p.1.session) ∈ groups) (hr : r.group ∉ groups) :
    latest (fun p => p.1.covers) (r.day, r.session, [r.symbol]) log = none := by
  refine KeepLast.latest_eq_none_iff.2 fun hmem => ?_
  obtain ⟨p, hp, heq⟩ := List.mem_map.1 hmem
  apply hr
  have hgroup : r.group = (p.1.snapshotDate, p.1.session) :=
    Prod.ext (Prod.mk.inj heq).1.symm (Prod.mk.inj (Prod.mk.inj heq).2).1.symm
  rw [hgroup]
  exact hlog p hp

/-- One group after another. -/
theorem Reported.append {batchRows : Int} {groups groups' : List (String × String)} {results results' : List (TapeDayResult Cell)}
    {failed failed' : Failed} {new new' : WriteLog Cell} {w w₁ w' : World Cell}
    (h : Reported pd batchRows groups results failed new w w₁) (h' : Reported pd batchRows groups' results' failed' new' w₁ w')
    (hin : ∀ r ∈ results, r.group ∈ groups) (hin' : ∀ r ∈ results', r.group ∈ groups') (hdis : ∀ g ∈ groups, g ∉ groups') :
    Reported pd batchRows (groups ++ groups') (results ++ results') (failed ++ failed') (new ++ new') w w' := by
  have hkeys : ∀ k, k ∈ failedKeys (failed ++ failed') ↔ k ∈ failedKeys failed ∨ k ∈ failedKeys failed' := by
    intro k
    unfold failedKeys
    rw [List.map_append, List.mem_append]
  have hfirst : ∀ r ∈ results, r.key ∉ failedKeys failed' := by
    intro r hr hk
    obtain ⟨r', hr', heq⟩ := h'.keys _ hk
    have hgroup : r'.group = r.group := (Prod.mk.inj heq).2
    exact hdis _ (hin r hr) (hgroup ▸ hin' r' hr')
  have hsecond : ∀ r ∈ results', r.key ∉ failedKeys failed := by
    intro r hr hk
    obtain ⟨r', hr', heq⟩ := h.keys _ hk
    have hgroup : r'.group = r.group := (Prod.mk.inj heq).2
    exact hdis _ (hin r' hr') (hgroup ▸ hin' r hr)
  refine ⟨?_, ?_, ?_, ?_⟩
  · intro p hp
    rcases List.mem_append.1 hp with hp | hp
    · exact List.mem_append_left _ (h.writes p hp)
    · exact List.mem_append_right _ (h'.writes p hp)
  · intro r hr
    unfold OwnWriteRaised
    rw [hkeys, KeepLast.latest_append]
    rcases List.mem_append.1 hr with hr | hr
    · rw [latest_of_other_group h'.writes (hdis _ (hin r hr)), Option.none_or, or_iff_left (hfirst r hr)]
      exact h.failed_iff r hr
    · rw [latest_of_other_group h.writes (fun hg => hdis _ hg (hin' r hr)), Option.or_none, or_iff_right (hsecond r hr)]
      exact h'.failed_iff r hr
  · intro k hk
    rcases (hkeys k).1 hk with hk | hk
    · obtain ⟨r, hr, heq⟩ := h.keys k hk
      exact ⟨r, List.mem_append_left _ hr, heq⟩
    · obtain ⟨r, hr, heq⟩ := h'.keys k hk
      exact ⟨r, List.mem_append_right _ hr, heq⟩
  · refine (h.lands.append h'.lands ?_).congr fun r => ?_
    · rintro r ⟨hr, -⟩ r' ⟨hr', -⟩ htarget -
      refine hdis _ (hin r hr) ?_
      unfold TapeDayResult.target at htarget
      injection htarget with hday hsession
      have hgroup : r'.group = r.group := Prod.ext hday hsession
      exact hgroup ▸ hin' r' hr'
    · rw [List.mem_append, hkeys, not_or]
      constructor
      · rintro (⟨hr, hk⟩ | ⟨hr, hk⟩)
        · exact ⟨.inl hr, hk, hfirst r hr⟩
        · exact ⟨.inr hr, hsecond r hr, hk⟩
      · rintro ⟨hr | hr, hk, hk'⟩
        · exact .inl ⟨hr, hk⟩
        · exact .inr ⟨hr, hk'⟩

theorem flushGroups_ends [DecidableEq Cell] {batchRows : Int} :
    ∀ {groups : List ((String × String) × List (TapeDayResult Cell))} {w w' : LoggedWorld Cell} {failed : Failed},
      (groups.map Prod.fst).Nodup → (∀ g ∈ groups, Batch pd g.1.1 g.1.2 (g.2.filter fun r => r.entry.isCertified)) →
      Prog.Ends (LoggedExec pd) (flushGroups batchRows groups) w (.ok failed) w' →
      ∃ new, w'.log = w.log ++ new ∧
        Reported pd batchRows (groups.map Prod.fst) (certifiedOf groups) failed new w.tape.store w'.tape.store
  | [], w, w', failed, _, _, h => by
    cases h
    exact ⟨[], (List.append_nil _).symm, .nothing rfl⟩
  | ((day, session), items) :: groups, w, w', failed, hn, hb, h => by
    rw [List.map_cons, List.nodup_cons] at hn
    rw [List.forall_mem_cons] at hb
    unfold flushGroups at h
    obtain ⟨first, w₁, hfirst, h⟩ := Prog.Ends.of_bind h
    obtain ⟨rest, w₂, hrest, h⟩ := Prog.Ends.of_bind h
    cases h
    obtain ⟨new, hnew, hreported⟩ := flushGroup_ends hb.1 hfirst
    obtain ⟨new', hnew', hreported'⟩ := flushGroups_ends hn.2 hb.2 hrest
    refine ⟨new ++ new', by rw [hnew', hnew, List.append_assoc], ?_⟩
    refine hreported.append hreported' ?_ ?_ ?_
    · exact fun r hr => List.mem_singleton.2 (hb.1.group r hr)
    · intro r hr
      obtain ⟨g, hg, hr⟩ := List.mem_flatMap.1 hr
      exact List.mem_map.2 ⟨g, hg, ((hb.2 g hg).group r hr).symm⟩
    · intro g hg
      rw [List.mem_singleton.1 hg]
      exact hn.1

end Intraday
