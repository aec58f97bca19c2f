import KClosingAlpha.Intraday.Restoring
/-!
# Vault — a partition is there or has a tombstone

Under the flock of the Drive writers one process at a time restores or evicts.  The writers beside it publish only where
there is no tombstone, so what a restore has read of a tombstone still holds when it moves the partition in, and what an
eviction has read of one when it unlinks.
-/
namespace Intraday

variable {Caller Bytes Cell : Type}

/-! ## What a restore counts on, and does -/

/-- What a restore counts on: tombstones stay, and so does what has one. -/
structure Undisturbed (rd : Reader Bytes) (w w' : Archive Caller Bytes) : Prop where
  sound : Sound rd w.disk → Sound rd w'.disk
  staged : w'.staged = w.staged
  tombstones : w'.disk.tombstones = w.disk.tombstones
  files : ∀ p, (w.disk.tombstones p).isSome → w'.disk.files p = w.disk.files p

/-- A restore moves the bytes of a tombstone in, and drops the tombstone of what is there. -/
inductive RestoreStep (rd : Reader Bytes) (w : Archive Caller Bytes) : Archive Caller Bytes → Prop where
  | refl : RestoreStep rd w w
  | stage (p : Partition) (file : Option Bytes) : RestoreStep rd w (w.stage p file)
  | moveIn (p : Partition) (b : Bytes) (t : Tombstone) (ht : w.disk.tombstones p = some t) (hb : t.Matches rd b) :
      RestoreStep rd w (w.moveIn p b)
  | drop (p : Partition) (hfile : (w.disk.files p).isSome) : RestoreStep rd w (w.dropTombstone p)

section restores

variable {rd : Reader Bytes} {w w₁ w' : Archive Caller Bytes} {p : Partition} {α β : Type}

theorem Undisturbed.refl (w : Archive Caller Bytes) : Undisturbed rd w w := ⟨id, rfl, rfl, fun _ _ => rfl⟩

theorem Undisturbed.trans (h : Undisturbed rd w w₁) (h' : Undisturbed rd w₁ w') : Undisturbed rd w w' where
  sound hs := h'.sound (h.sound hs)
  staged := h'.staged.trans h.staged
  tombstones := h'.tombstones.trans h.tombstones
  files p hp := (h'.files p (by rw [h.tombstones]; exact hp)).trans (h.files p hp)

theorem sound_moveIn {b : Bytes} {t : Tombstone} (hs : Sound rd w.disk) (ht : w.disk.tombstones p = some t)
    (hb : t.Matches rd b) : Sound rd (w.moveIn p b).disk := by
  refine ⟨fun q b' t' hb' ht' => ?_, hs.verified⟩
  by_cases hq : q = p
  · subst hq
    have hfile : some b = some b' := (Disk.put_self w.disk q (some b)).symm.trans hb'
    rw [← Option.some.inj hfile, ← Option.some.inj (ht.symm.trans ht')]
    exact hb
  · exact hs.bytes q b' t' ((Disk.put_of_ne hq).symm.trans hb') ht'

theorem dropTombstone_tombstones (w : Archive Caller Bytes) (p q : Partition) :
    (w.dropTombstone p).disk.tombstones q = if q = p then none else w.disk.tombstones q :=
  Function.update_apply ..

theorem sound_dropTombstone (hs : Sound rd w.disk) : Sound rd (w.dropTombstone p).disk := by
  have hold : ∀ {q t}, (w.dropTombstone p).disk.tombstones q = some t → w.disk.tombstones q = some t := by
    intro q t ht
    rw [dropTombstone_tombstones] at ht
    split_ifs at ht
    exact ht
  exact ⟨fun q b t hb ht => hs.bytes q b t hb (hold ht), fun q t ht => hs.verified q t (hold ht)⟩

theorem RestoreStep.sound (h : RestoreStep rd w w') (hs : Sound rd w.disk) : Sound rd w'.disk := by
  cases h with
  | refl => exact hs
  | stage p file => exact hs
  | moveIn p b t ht hb => exact sound_moveIn hs ht hb
  | drop p hfile => exact sound_dropTombstone hs

/-- Undisturbed, every call is a step of a restore, and a value satisfies `φ`. -/
abbrev Restores (rd : Reader Bytes) (prog : RestoreCall α) (φ : α → Archive Caller Bytes → Prop)
    (w : Archive Caller Bytes) : Prop :=
  Prog.among (RestoreExec rd) (Undisturbed rd) (RestoreStep rd) (fun w => Sound rd w.disk) prog φ w

theorem Restores.ask {op : RestoreOp} {φ : op.Ans → Archive Caller Bytes → Prop} (hs : Sound rd w.disk)
    (h : ∀ w₁ r w₂, Undisturbed rd w w₁ → RestoreExec rd op w₁ r w₂ → RestoreStep rd w₁ w₂ ∧ ∀ a, r = .ok a → φ a w₂) :
    Restores rd op.ask φ w := by
  intro w₁ hR r w₂ hop
  obtain ⟨hstep, hφ⟩ := h w₁ r w₂ hR hop
  exact ⟨hstep, Prog.among_ofExcept (hstep.sound (hR.sound hs)) hφ⟩

/-- A partition with this tombstone. -/
def Buried (p : Partition) (t : Tombstone) (w : Archive Caller Bytes) : Prop := w.disk.tombstones p = some t

theorem Buried.undisturbed {t : Tombstone} (h : Buried p t w) (hR : Undisturbed rd w w₁) : Buried p t w₁ :=
  (congrFun hR.tombstones p).trans h

/-- What is moved in was read to be the bytes of the tombstone. -/
theorem downloadAndReplace_restores {base : String} {t : Tombstone} (hs : Sound rd w.disk) (h : Buried p t w) :
    Restores rd (downloadAndReplace base p t) (fun _ w' => Buried p t w' ∧ (w'.disk.files p).isSome) w := by
  apply Prog.among_bind (φ := fun _ w' => Buried p t w')
  · apply Restores.ask hs
    rintro w₁ r w₂ hR ⟨file, rfl⟩
    have h₁ : Buried p t w₁ := h.undisturbed hR
    exact ⟨.stage p file, fun _ _ => h₁⟩
  intro returncode w₁ hs₁ h₁
  split_ifs
  · exact Prog.among_raise hs₁
  apply Prog.among_bind (φ := fun _ w' => Buried p t w')
  · apply Restores.ask hs₁
    rintro w₂ r w₃ hR ⟨-, rfl⟩
    exact ⟨.refl, fun _ _ => h₁.undisturbed hR⟩
  intro there w₂ hs₂ h₂
  split_ifs
  · exact Prog.among_raise hs₂
  apply Prog.among_bind (φ := fun size w' => Buried p t w' ∧ ∃ b, w'.staged p = some b ∧ size = rd.size b)
  · apply Restores.ask hs₂
    rintro w₃ r w₄ hR ⟨hsize, rfl⟩
    exact ⟨.refl, fun size hr => ⟨h₂.undisturbed hR, hsize size hr⟩⟩
  rintro size w₃ hs₃ ⟨h₃, b, hb, hsize⟩
  split_ifs with hne
  · exact Prog.among_raise hs₃
  apply Prog.among_bind (φ := fun md5 w' => Buried p t w' ∧ w'.staged p = some b ∧ md5 = rd.md5 b)
  · apply Restores.ask hs₃
    rintro w₄ r w₅ hR ⟨hmd5, rfl⟩
    refine ⟨.refl, fun md5 hr => ?_⟩
    have hb' := (congrFun hR.staged p).trans hb
    obtain ⟨b', hfile, heq⟩ := hmd5 md5 hr
    rw [hfile, Option.some.injEq] at hb'
    exact ⟨h₃.undisturbed hR, hb' ▸ hfile, hb' ▸ heq⟩
  rintro md5 w₄ hs₄ ⟨h₄, hb₄, hmd5⟩
  split_ifs with hne'
  · exact Prog.among_raise hs₄
  rw [not_not] at hne hne'
  apply Restores.ask hs₄
  intro w₅ r w₆ hR hop
  have h₅ := h₄.undisturbed hR
  cases r with
  | error e =>
    cases hop
    exact ⟨.refl, fun a ha => by cases ha⟩
  | ok u =>
    obtain ⟨b', hfile, rfl⟩ := hop
    rw [hR.staged, hb₄, Option.some.injEq] at hfile
    subst hfile
    refine ⟨.moveIn p b t h₅ ⟨hne'.symm.trans hmd5, hne.symm.trans hsize⟩, fun _ _ => ⟨h₅, ?_⟩⟩
    exact congrArg Option.isSome (Disk.put_self ..)

theorem restoreBuried_restores {base : String} {t : Tombstone} (hs : Sound rd w.disk) (h : Buried p t w) :
    Restores rd (restoreBuried base p t) (fun _ _ => True) w := by
  apply Prog.rg_attempt _ (downloadAndReplace_restores hs h)
  rintro moved w₁ ⟨hs₁, hmoved⟩
  apply Prog.among_bind (φ := fun _ w' => ∀ u, moved = .ok u → Buried p t w' ∧ (w'.disk.files p).isSome)
  · apply Restores.ask hs₁
    intro w₂ r w₃ hR hop
    have hstill : ∀ u, moved = .ok u → Buried p t w₂ ∧ (w₂.disk.files p).isSome := fun u hu => by
      obtain ⟨hburied, hfile⟩ := hmoved u hu
      have hsome : (w₁.disk.tombstones p).isSome := by rw [show w₁.disk.tombstones p = some t from hburied]; rfl
      exact ⟨hburied.undisturbed hR, by rw [hR.files p hsome]; exact hfile⟩
    cases r with
    | error e =>
      cases hop
      exact ⟨.refl, fun a ha => by cases ha⟩
    | ok u =>
      cases hop
      exact ⟨.stage p none, fun _ _ => hstill⟩
  · intro _ w₂ hs₂ hstill
    cases moved with
    | error e =>
      dsimp only
      split_ifs
      · exact Prog.among_ret hs₂ trivial
      · exact Prog.among_raise hs₂
    | ok u =>
      obtain ⟨hburied, hfile⟩ := hstill u rfl
      have hsome : (w₂.disk.tombstones p).isSome := by rw [show w₂.disk.tombstones p = some t from hburied]; rfl
      apply Prog.among_bind (φ := fun _ _ => True)
      · apply Restores.ask hs₂
        intro w₃ r w₄ hR hop
        cases r with
        | error e =>
          cases hop
          exact ⟨.refl, fun a ha => by cases ha⟩
        | ok u =>
          obtain ⟨-, rfl⟩ := hop
          exact ⟨.drop p (by rw [hR.files p hsome]; exact hfile), fun _ _ => trivial⟩
      · exact fun _ w₃ hs₃ _ => Prog.among_ret hs₃ trivial

theorem restoreFile_restores {base : String} {dryRun : Bool} (hs : Sound rd w.disk) :
    Restores rd (restoreFile base dryRun p) (fun _ _ => True) w := by
  have hread : Restores rd (RestoreOp.readTombstone p).ask (fun tomb w' => ∀ t, tomb = some t → Buried p t w') w := by
    apply Restores.ask hs
    rintro w₁ r w₂ - ⟨htomb, rfl⟩
    exact ⟨.refl, fun tomb hr t ht => (htomb tomb hr).symm.trans ht⟩
  apply Prog.rg_attempt _ hread
  rintro read w₁ ⟨hs₁, hread⟩
  match read with
  | .error e =>
    dsimp only
    split_ifs
    · exact Prog.among_ret hs₁ trivial
    · exact Prog.among_raise hs₁
  | .ok none => exact Prog.among_ret hs₁ trivial
  | .ok (some t) =>
    have h₁ := hread (some t) rfl t rfl
    apply Prog.among_bind (φ := fun _ w' => Buried p t w')
    · apply Restores.ask hs₁
      rintro w₂ r w₃ hR ⟨-, rfl⟩
      exact ⟨.refl, fun _ _ => h₁.undisturbed hR⟩
    · intro there w₂ hs₂ h₂
      split_ifs
      · exact Prog.among_ret hs₂ trivial
      · exact Prog.among_ret hs₂ trivial
      · exact restoreBuried_restores hs₂ h₂

theorem restoreFiles_restores {base : String} {dryRun : Bool} : ∀ {ps : List Partition} {restored failed : List String}
    {w : Archive Caller Bytes}, Sound rd w.disk →
      Restores rd (restoreFiles base dryRun ps restored failed) (fun _ _ => True) w
  | [], _, _, _, hs => Prog.among_ret hs trivial
  | p :: ps, restored, failed, w, hs => by
    apply Prog.among_bind (restoreFile_restores hs)
    intro ok w₁ hs₁ _
    split_ifs
    · exact restoreFiles_restores hs₁
    · exact restoreFiles_restores hs₁

theorem restorePartitions_restores {base : String} {dryRun : Bool} {ps : List Partition} (hs : Sound rd w.disk) :
    Restores rd (restorePartitions base dryRun ps) (fun _ _ => True) w := by
  apply Prog.among_bind (restoreFiles_restores hs)
  intro r w₁ hs₁ _
  split_ifs
  · exact Prog.among_ret hs₁ trivial
  · exact Prog.among_raise hs₁

end restores

/-! ## All of them under the flock -/

/-- What a process counts on, and more while it holds the flock. -/
structure Archive.Rely (rd : Reader Bytes) (c : Caller) (w w' : Archive Caller Bytes) : Prop where
  shared : Shared rd c w.disk w'.disk
  drive : w.drive = some c → w'.drive = some c
  disk : w.drive = some c → Intraday.Rely rd c w.disk w'.disk
  undisturbed : w.drive = some c → Undisturbed rd w w'

/-- What a process does; it restores and evicts with the flock. -/
inductive Task.Does (rd : Reader Bytes) (c : Caller) : Task Cell → Archive Caller Bytes → Archive Caller Bytes → Prop where
  | calm (l : Task Cell) {w w' : Archive Caller Bytes} (h : Calm c w.disk w'.disk) (hstaged : w'.staged = w.staged)
      (hdrive : ∀ d, d ≠ c → w.drive = some d → w'.drive = some d) : Does rd c l w w'
  | writes {l : Task Cell} (hl : l.writes = true) {w : Archive Caller Bytes} {disk' : Disk Caller Bytes}
      (h : WriteStep c w.disk disk') : Does rd c l w { w with disk := disk' }
  | evicts (p : EvictCall EvictState) {w : Archive Caller Bytes} {disk' : Disk Caller Bytes} (hd : w.drive = some c)
      (h : EvictStep rd c w.disk disk') : Does rd c (.job (.evicts p)) w { w with disk := disk' }
  | restores (p : RestoreCall (List String)) {w w' : Archive Caller Bytes} (hd : w.drive = some c)
      (h : RestoreStep rd w w') : Does rd c (.restores p) w w'

/-- What a process asserts. -/
def Task.Asserts [DecidableEq Caller] (rd : Reader Bytes) (c : Caller) (l : Task Cell) (w : Archive Caller Bytes) : Prop :=
  Sound rd w.disk ∧
    match l with
    | .job .idle => True
    | .job (.evicts p) =>
      w.drive = some c ∧ Prog.rg (EvictExec rd c) (Rely rd c) (EvictStep rd c) p (fun _ d => Sound rd d) w.disk
    | .job (.writes p) => Prog.rg (StoreExec c) (Shared rd c) (WriteStep c) p (fun _ d => Sound rd d) w.disk
    | .job (.adjusts snapshotDate session p) =>
      Prog.rg (AdjustExec c (.kisAdjusted snapshotDate session)) (Shared rd c) (WriteStep c) p (fun _ d => Sound rd d) w.disk
    | .restores p =>
      w.drive = some c ∧ Prog.rg (RestoreExec rd) (Undisturbed rd) (RestoreStep rd) p (fun _ w' => Sound rd w'.disk) w

section vault

variable {rd : Reader Bytes} {pd : Pandas Cell} {c d : Caller} {w w' : Archive Caller Bytes} {l : Task Cell} {p : Partition}

theorem WriteStep.tombstones {disk disk' : Disk Caller Bytes} (h : WriteStep c disk disk') :
    disk'.tombstones = disk.tombstones := by
  cases h with
  | calm h => exact h.tombstones
  | publish => rfl

theorem WriteStep.files {disk disk' : Disk Caller Bytes} (h : WriteStep c disk disk') (hp : (disk.tombstones p).isSome) :
    disk'.files p = disk.files p := by
  cases h with
  | calm h => rw [h.files]
  | publish q file hlock hno =>
    refine Disk.put_of_ne (fun hq => ?_)
    rw [hq, hno] at hp
    cases hp

theorem RestoreStep.shared (h : RestoreStep rd w w') : Shared rd d w.disk w'.disk := by
  refine ⟨h.sound, fun q hq => ?_, fun q _ hno => ?_⟩
  · cases h <;> exact hq
  · cases h with
    | drop p hfile =>
      rw [dropTombstone_tombstones]
      split_ifs
      · rfl
      · exact hno
    | refl | stage | moveIn => exact hno

theorem Task.Does.rely (h : Task.Does rd c l w w') (hcd : c ≠ d) : Archive.Rely rd d w w' := by
  cases h with
  | calm l h hstaged hdrive =>
    have hrely : Rely rd d w.disk w'.disk := h.rely hcd
    exact ⟨hrely.shared, hdrive d hcd.symm, fun _ => hrely,
      fun _ => ⟨hrely.sound, hstaged, h.tombstones, fun q _ => by rw [h.files]⟩⟩
  | writes hl h =>
    have hrely : Rely rd d w.disk _ := h.rely hcd
    exact ⟨hrely.shared, id, fun _ => hrely, fun _ => ⟨hrely.sound, rfl, h.tombstones, fun _ hq => h.files hq⟩⟩
  | evicts p hd h =>
    have hno : w.drive ≠ some d := fun hd' => hcd (Option.some.inj (hd.symm.trans hd'))
    exact ⟨(h.rely hcd).shared, fun h' => absurd h' hno, fun h' => absurd h' hno, fun h' => absurd h' hno⟩
  | restores p hd h =>
    have hno : w.drive ≠ some d := fun hd' => hcd (Option.some.inj (hd.symm.trans hd'))
    exact ⟨h.shared, fun h' => absurd h' hno, fun h' => absurd h' hno, fun h' => absurd h' hno⟩

variable [DecidableEq Caller]

theorem Task.Asserts.stable (h : l.Asserts rd c w) (hR : Archive.Rely rd c w w') : l.Asserts rd c w' := by
  obtain ⟨hs, h⟩ := h
  refine ⟨hR.shared.sound hs, ?_⟩
  match l, h with
  | .job .idle, _ => trivial
  | .job (.evicts p), ⟨hd, h⟩ =>
    exact ⟨hR.drive hd, Prog.rg_stable (fun _ _ _ h h' => h.trans h') (fun _ _ _ hs hR => hR.sound hs) h (hR.disk hd)⟩
  | .job (.writes p), h =>
    exact Prog.rg_stable (fun _ _ _ h h' => h.trans h') (fun _ _ _ hs hR => hR.sound hs) h hR.shared
  | .job (.adjusts _ _ p), h =>
    exact Prog.rg_stable (fun _ _ _ h h' => h.trans h') (fun _ _ _ hs hR => hR.sound hs) h hR.shared
  | .restores p, ⟨hd, h⟩ =>
    exact ⟨hR.drive hd,
      Prog.rg_stable (fun _ _ _ h h' => h.trans h') (fun _ _ _ hs hR => hR.sound hs) h (hR.undisturbed hd)⟩

variable [DecidableEq Cell]

/-- One step of a process under the flock. -/
theorem Task.Asserts.step {l' : Task Cell} (h : l.Asserts rd c w) (hstep : Task.Step underFlock rd pd c l w l' w') :
    Task.Does rd c l w w' ∧ l'.Asserts rd c w' := by
  obtain ⟨hs, h⟩ := h
  cases hstep with
  | evict args hb =>
    obtain ⟨hfree, rfl⟩ := hb
    refine ⟨.calm _ (.refl _) rfl (fun d _ hd => ?_), hs, rfl, ?_⟩
    · rw [hfree] at hd
      cases hd
    · exact Prog.rg_mono (evictVerifiedPartitions_evicts hs) (fun _ _ h' => h'.1)
  | restore base dryRun ps hb =>
    obtain ⟨hfree, rfl⟩ := hb
    refine ⟨.calm _ (.refl _) rfl (fun d _ hd => ?_), hs, rfl, ?_⟩
    · rw [hfree] at hd
      cases hd
    · exact Prog.rg_mono (restorePartitions_restores hs) (fun _ _ h' => h'.1)
  | job hj hbegun hthere =>
    cases hj with
    | evict args => exact absurd rfl (hbegun rfl _)
    | gone => exact absurd rfl hthere
    | write call => exact ⟨.calm _ (.refl _) rfl (fun _ _ h => h), hs, program_keeps call _ hs⟩
    | remove => exact ⟨.calm _ (.refl _) rfl (fun _ _ h => h), hs, removeIntradaySymbols_keeps _ hs⟩
    | adjust => exact ⟨.calm _ (.refl _) rfl (fun _ _ h => h), hs, writeKisAdjustedPartition_keeps hs⟩
    | evicts hn =>
      obtain ⟨hG, h'⟩ := Prog.rg_next Rely.refl h.2 hn
      exact ⟨.evicts _ h.1 hG, hG.sound hs, h.1, h'⟩
    | writes hn =>
      obtain ⟨hG, h'⟩ := Prog.rg_next Shared.refl h hn
      exact ⟨.writes rfl hG, hG.sound hs, h'⟩
    | adjusts hn =>
      obtain ⟨hG, h'⟩ := Prog.rg_next Shared.refl h hn
      exact ⟨.writes rfl hG, hG.sound hs, h'⟩
  | restores hn =>
    obtain ⟨hG, h'⟩ := Prog.rg_next Undisturbed.refl h.2 hn
    refine ⟨.restores _ h.1 hG, hG.sound hs, ?_, h'⟩
    cases hG <;> exact h.1
  | gone =>
    refine ⟨.calm _ .exit rfl (fun d hd hw => ?_), Calm.exit.sound hs, trivial⟩
    exact (if_neg (fun hc => hd (Option.some.inj (hw.symm.trans hc)))).trans hw

omit [DecidableEq Caller] [DecidableEq Cell] in
/-- **No step leaves a partition without its file and its tombstone**, but a writer's that empties it. -/
theorem Task.Does.present (h : Task.Does rd c l w w') (hp : Present w.disk p)
    (hkeep : ¬ (l.writes = true ∧ (w.disk.files p).isSome ∧ w'.disk.files p = none)) : Present w'.disk p := by
  cases h with
  | calm l h hstaged hdrive =>
    unfold Present
    rw [h.files, h.tombstones]
    exact hp
  | writes hl h =>
    cases h with
    | calm h =>
      unfold Present
      rw [h.files, h.tombstones]
      exact hp
    | publish q file hlock hno =>
      by_cases hq : p = q
      · subst hq
        have hthere : (w.disk.files p).isSome := hp.resolve_right (by rw [hno]; exact Bool.false_ne_true)
        refine .inl (Option.isSome_iff_ne_none.2 (fun hnone => hkeep ⟨hl, hthere, hnone⟩))
      · exact hp.imp_left (fun hfile => by rw [Disk.put_of_ne hq]; exact hfile)
  | evicts prog hd h =>
    cases h with
    | calm h =>
      unfold Present
      rw [h.files, h.tombstones]
      exact hp
    | bury q b t hlock hfile hmatch hver =>
      exact hp.imp_right ((EvictStep.bury q b t hlock hfile hmatch hver).grows.buried p)
    | unlink q hlock hfile hburied =>
      by_cases hq : p = q
      · exact .inr (hq ▸ hburied)
      · exact hp.imp_left (fun hfile => by rw [Disk.put_of_ne hq]; exact hfile)
  | restores prog hd h =>
    cases h with
    | refl | stage => exact hp
    | moveIn q b t ht hb =>
      by_cases hq : p = q
      · subst hq
        exact .inl (congrArg Option.isSome (Disk.put_self w.disk p (some b)))
      · refine hp.imp_left (fun hfile => ?_)
        exact (congrArg Option.isSome (Disk.put_of_ne hq)).trans hfile
    | drop q hfile =>
      by_cases hq : p = q
      · exact .inl (hq ▸ hfile)
      · refine hp.imp_right (fun ht => ?_)
        rw [dropTombstone_tombstones, if_neg hq]
        exact ht

omit [DecidableEq Caller] [DecidableEq Cell] in
/-- A tombstone goes only beside its bytes. -/
theorem Task.Does.dropped {t : Tombstone} (h : Task.Does rd c l w w') (hs : Sound rd w.disk)
    (ht : w.disk.tombstones p = some t) (hnone : w'.disk.tombstones p = none) :
    ∃ b, w'.disk.files p = some b ∧ t.Matches rd b := by
  have hgrows : (w'.disk.tombstones p).isSome → ∃ b, w'.disk.files p = some b ∧ t.Matches rd b := fun hsome => by
    rw [hnone] at hsome
    cases hsome
  have hburied : (w.disk.tombstones p).isSome := by rw [ht]; rfl
  cases h with
  | calm l h => exact hgrows (by rw [h.tombstones]; exact hburied)
  | writes hl h => exact hgrows (by rw [h.tombstones]; exact hburied)
  | evicts prog hd h => exact hgrows (h.grows.buried p hburied)
  | restores prog hd h =>
    cases h with
    | refl | stage | moveIn => exact hgrows hburied
    | drop q hfile =>
      by_cases hq : p = q
      · subst hq
        obtain ⟨b, hb⟩ := Option.isSome_iff_exists.1 hfile
        exact ⟨b, hb, hs.bytes p b t hb ht⟩
      · refine hgrows ?_
        rw [dropTombstone_tombstones, if_neg hq]
        exact hburied

omit [DecidableEq Caller] [DecidableEq Cell] in
/-- **A writer changes a partition only where it has no tombstone.** -/
theorem Task.Does.changed (h : Task.Does rd c l w w') (hl : l.writes = true)
    (hp : w'.disk.files p ≠ w.disk.files p) : w.disk.tombstones p = none := by
  cases h with
  | calm l h => exact absurd (congrFun h.files p) hp
  | writes hl h =>
    by_contra hsome
    exact hp (h.files (Option.isSome_iff_ne_none.2 hsome))
  | evicts | restores => cases hl

theorem vault_relyGuarantee : Threads.RelyGuarantee (Task.Step underFlock rd pd)
    (fun (c : Caller) => Task.Asserts rd c) (Archive.Rely rd) (Task.Does rd) :=
  ⟨fun _ _ _ _ h hR => h.stable hR, fun _ _ _ _ _ h hstep => h.step hstep, fun _ _ _ _ _ hcd h => h.rely hcd⟩

omit [DecidableEq Cell] in
theorem asserts_vault {s : Vault Caller Cell Bytes} (h : s.Start) (c : Caller) : (s.thread c).Asserts rd c s.world := by
  obtain ⟨hidle, hno, -⟩ := h
  rw [hidle c]
  refine ⟨⟨fun p b t _ ht => ?_, fun p t ht => ?_⟩, trivial⟩
  · exact absurd ((hno p).symm.trans ht) (by simp)
  · exact absurd ((hno p).symm.trans ht) (by simp)

/-- Every tombstone there ever is was verified, and is of the bytes that are there. -/
theorem vault_sound {s : Vault Caller Cell Bytes} (hs : (vault underFlock rd pd).Reachable s) : Sound rd s.world.disk := by
  have hstart : ∀ s : Vault Caller Cell Bytes, s.Start → ∀ c, (s.thread c).Asserts rd c s.world :=
    fun s h => asserts_vault h
  obtain ⟨s₀, h₀, hr⟩ := id hs
  cases hr with
  | refl =>
    obtain ⟨-, hno, -⟩ := h₀
    exact ⟨fun p b t _ ht => absurd ((hno p).symm.trans ht) (by simp),
      fun p t ht => absurd ((hno p).symm.trans ht) (by simp)⟩
  | tail _ hstep =>
    obtain ⟨c, -⟩ := hstep
    exact (vault_relyGuarantee.always hstart s hs c).1

/-- Nothing that is there is lost on the way. -/
theorem vault_present {s s' : Vault Caller Cell Bytes} (hs : (vault underFlock rd pd).Reachable s)
    (hp : Present s.world.disk p)
    (h : Relation.ReflTransGen (Vault.Keeping (Task.Step underFlock rd pd) p) s s') :
    (vault underFlock rd pd).Reachable s' ∧ Present s'.world.disk p := by
  induction h with
  | refl => exact ⟨hs, hp⟩
  | tail _ hstep ih =>
    obtain ⟨c, hstep, hkeep⟩ := hstep
    have hdoes := vault_relyGuarantee.guarantee (fun s h => asserts_vault h) ih.1 hstep
    exact ⟨ih.1.step ⟨c, hstep⟩, hdoes.present ih.2 hkeep⟩

end vault

/-! ## A restore on its own -/

/-- A file system that answers, beside a remote with these files. -/
def restoreAnswer (rd : Reader Bytes) (remote : String → Option Bytes) :
    (op : RestoreOp) → Archive Caller Bytes → op.Ret × Archive Caller Bytes
  | .readTombstone p, w => (.ok (w.disk.tombstones p), w)
  | .partitionExists p, w => (.ok (w.disk.files p).isSome, w)
  | .copyto source p, w =>
    match remote source with
    | some b => (.ok 0, w.stage p (some b))
    | none => (.ok 3, w.stage p none)
  | .stagedIsFile p, w => (.ok (w.staged p).isSome, w)
  | .stagedSize p, w =>
    match w.staged p with
    | some b => (.ok (rd.size b), w)
    | none => (.error (.os "no such file"), w)
  | .stagedMd5 p, w =>
    match w.staged p with
    | some b => (.ok (rd.md5 b), w)
    | none => (.error (.os "no such file"), w)
  | .replace p, w =>
    match w.staged p with
    | some b => (.ok (), w.moveIn p b)
    | none => (.error (.os "no such file"), w)
  | .unlinkStaged p, w => (.ok (), w.stage p none)
  | .unlinkTombstone p, w =>
    if (w.disk.tombstones p).isSome then (.ok (), w.dropTombstone p) else (.error (.os "no such file"), w)

section alone

variable {rd : Reader Bytes} {remote : String → Option Bytes} {w : Archive Caller Bytes} {p : Partition} {t : Tombstone}
  {b : Bytes} {base : String}

theorem restoreAnswer_exec (op : RestoreOp) (w : Archive Caller Bytes) :
    RestoreExec rd op w (restoreAnswer rd remote op w).1 (restoreAnswer rd remote op w).2 := by
  cases op with
  | readTombstone p | partitionExists p | stagedIsFile p =>
    refine ⟨fun a ha => ?_, rfl⟩
    cases ha
    rfl
  | copyto source p =>
    cases hb : remote source with
    | none =>
      simp only [restoreAnswer, hb]
      exact ⟨none, rfl⟩
    | some b =>
      simp only [restoreAnswer, hb]
      exact ⟨some b, rfl⟩
  | stagedSize p | stagedMd5 p =>
    cases hb : w.staged p with
    | none =>
      simp only [restoreAnswer, hb]
      exact ⟨fun a ha => (by cases ha), rfl⟩
    | some b =>
      simp only [restoreAnswer, hb]
      refine ⟨fun a ha => ⟨b, hb, ?_⟩, rfl⟩
      cases ha
      rfl
  | replace p =>
    cases hb : w.staged p with
    | none =>
      simp only [restoreAnswer, hb]
      rfl
    | some b =>
      simp only [restoreAnswer, hb]
      exact ⟨b, hb, rfl⟩
  | unlinkStaged p => rfl
  | unlinkTombstone p =>
    by_cases h : (w.disk.tombstones p).isSome
    · simp only [restoreAnswer, if_pos h]
      exact ⟨h, rfl⟩
    · simp only [restoreAnswer, if_neg h]
      rfl

theorem restore_absent (ht : w.disk.tombstones p = some t) (hfile : w.disk.files p = none)
    (hremote : remote (base ++ "/" ++ t.part) = some b) (hb : t.Matches rd b) :
    ∃ w', Prog.run (restoreAnswer rd remote) (restorePartitions base false [p]) w = (.ok [p.rel], w') ∧
      w'.disk.files p = some b ∧ w'.disk.tombstones p = none := by
  have hstaged : (w.stage p (some b)).staged p = some b := Function.update_self ..
  have hmoved : Prog.run (restoreAnswer rd remote) (restorePartitions base false [p]) w =
      (.ok [p.rel], (((w.stage p (some b)).moveIn p b).stage p none).dropTombstone p) := by
    have hburied : (((w.stage p (some b)).moveIn p b).stage p none).disk.tombstones p = some t := ht
    simp [restorePartitions, restoreFiles, restoreFile, restoreBuried, downloadAndReplace, RestoreOp.ask, Prog.attempt,
      Prog.run, restoreAnswer, ht, hfile, hremote, hstaged, hburied, hb.1, hb.2]
  refine ⟨_, hmoved, ?_, ?_⟩
  · exact Disk.put_self ..
  · exact Function.update_self ..

theorem restore_present {b' : Bytes} (ht : w.disk.tombstones p = some t) (hfile : w.disk.files p = some b') :
    Prog.run (restoreAnswer rd remote) (restorePartitions base false [p]) w =
      (.error (.runtime "Partition restore failed"), w) := by
  simp [restorePartitions, restoreFiles, restoreFile, RestoreOp.ask, Prog.attempt, Prog.run, restoreAnswer, ht, hfile]

end alone

section main

variable [DecidableEq Caller] [DecidableEq Cell] {rd : Reader Bytes} {pd : Pandas Cell} {p : Partition}

/-- **Present or tombstoned**: of writers beside evictions and restores that run under the flock of the Drive writers,
interleaved and killed anywhere, none leaves a partition without its file and its tombstone but a writer that empties it;
both are of the same bytes, a writer publishes only in place of what is there whole, and a tombstone is dropped only
beside its bytes.  A restore of what has a tombstone ends with the remote copy in its place, or, where a restore was cut
after it had moved the copy in, refuses and leaves it beside its tombstone. -/
theorem present_or_tombstoned {s : Vault Caller Cell Bytes} (hs : (vault underFlock rd pd).Reachable s) :
    (∀ b t, s.world.disk.files p = some b → s.world.disk.tombstones p = some t → t.Matches rd b) ∧
    (Present s.world.disk p → ∀ s', Relation.ReflTransGen (Vault.Keeping (Task.Step underFlock rd pd) p) s s' →
      Present s'.world.disk p ∧
      ∀ c s'', Threads.Step (Task.Step underFlock rd pd) c s' s'' → (s'.thread c).writes = true →
        s''.world.disk.files p ≠ s'.world.disk.files p →
          s'.world.disk.tombstones p = none ∧ (s'.world.disk.files p).isSome) ∧
    (∀ c s' t, Threads.Step (Task.Step underFlock rd pd) c s s' → s.world.disk.tombstones p = some t →
      s'.world.disk.tombstones p = none → ∃ b, s'.world.disk.files p = some b ∧ t.Matches rd b) ∧
    (∀ base remote t b, s.world.disk.tombstones p = some t → remote (base ++ "/" ++ t.part) = some b → t.Matches rd b →
      (s.world.disk.files p = none →
        ∃ w', Prog.run (restoreAnswer rd remote) (restorePartitions base false [p]) s.world = (.ok [p.rel], w') ∧
          w'.disk.files p = some b ∧ w'.disk.tombstones p = none) ∧
      ∀ b', s.world.disk.files p = some b' →
        Prog.run (restoreAnswer rd remote) (restorePartitions base false [p]) s.world =
          (.error (.runtime "Partition restore failed"), s.world) ∧ t.Matches rd b') := by
  have hstart : ∀ s : Vault Caller Cell Bytes, s.Start → ∀ c, (s.thread c).Asserts rd c s.world :=
    fun s h => asserts_vault h
  refine ⟨fun b t hb ht => ?_, fun hp s' hrun => ?_, fun c s' t hstep ht hnone => ?_, fun base remote t b ht hremote hb => ?_⟩
  · exact (vault_sound hs).bytes p b t hb ht
  · obtain ⟨hs', hp'⟩ := vault_present hs hp hrun
    refine ⟨hp', fun c s'' hstep hl hchanged => ?_⟩
    have hno := (vault_relyGuarantee.guarantee hstart hs' hstep).changed hl hchanged
    exact ⟨hno, hp'.resolve_right (by rw [hno]; exact Bool.false_ne_true)⟩
  · exact (vault_relyGuarantee.guarantee hstart hs hstep).dropped (vault_sound hs) ht hnone
  · refine ⟨fun hfile => restore_absent ht hfile hremote hb, fun b' hb' => ⟨restore_present ht hb', ?_⟩⟩
    exact (vault_sound hs).bytes p b' t hb' ht

end main

/-! ## Segments of a run -/

section segments

variable [DecidableEq Caller] [DecidableEq Cell] {rd : Reader Bytes} {pd : Pandas Cell} {c : Caller} {p : Partition}
  {begins : Caller → Archive Caller Bytes → Archive Caller Bytes → Prop} {Op : Type} {Ret : Op → Type} {α σ : Type}
  {E : Prog.Exec Op Ret σ} {answer : (op : Op) → σ → Ret op × σ}

/-- Some calls of one process, each answered by a function. -/
theorem keeping_afterCalls (hE : ∀ op w, E op w (answer op w).1 (answer op w).2) (task : Prog Op Ret Exn α → Task Cell)
    (world : σ → Archive Caller Bytes) (hwrites : ∀ prog, (task prog).writes = false)
    (hstep : ∀ prog prog' w w', Prog.Next E prog w prog' w' →
      Task.Step begins rd pd c (task prog) (world w) (task prog') (world w')) :
    ∀ (n : Nat) (prog : Prog Op Ret Exn α) (w : σ) (thread : Caller → Task Cell),
      Relation.ReflTransGen (Vault.Keeping (Task.Step begins rd pd) p) ⟨world w, Function.update thread c (task prog)⟩
        ⟨world (Prog.afterCalls answer n prog w).2,
          Function.update thread c (task (Prog.afterCalls answer n prog w).1)⟩
  | 0, prog, w, thread => .refl
  | n + 1, .ret a, w, thread => .refl
  | n + 1, .raise e, w, thread => .refl
  | n + 1, .call op k, w, thread => by
    refine .head ⟨c, ⟨?_, fun d hd => ?_⟩, fun h => ?_⟩ (keeping_afterCalls hE task world hwrites hstep n _ _ thread)
    · simp only [Function.update_self]
      exact hstep _ _ _ _ (.call _ (hE op w))
    · simp only [Function.update_of_ne hd]
    · simp only [Function.update_self, hwrites] at h
      cases h.1

theorem evict_segment (n : Nat) {month : RemoteMonth} {prog : EvictCall EvictState} {q : Partition}
    {s : Vault Caller Cell Bytes} (h : s.thread c = .job (.evicts prog)) :
    Relation.ReflTransGen (Vault.Keeping (Task.Step begins rd pd) p) s
      ⟨{ s.world with disk := (Prog.afterCalls (evictAnswerTo c rd q month) n prog s.world.disk).2 }, Function.update s.thread c
        (.job (.evicts (Prog.afterCalls (evictAnswerTo c rd q month) n prog s.world.disk).1))⟩ := by
  have hnext : ∀ (prog prog' : EvictCall EvictState) (w w' : Disk Caller Bytes),
      Prog.Next (EvictExec rd c) prog w prog' w' →
      Task.Step begins rd pd c (.job (.evicts prog)) { s.world with disk := w } (.job (.evicts prog')) { s.world with disk := w' } :=
    fun _ _ _ _ hn => .job (.evicts hn) (fun h => by cases h) (fun h => by cases h)
  have hrun := @keeping_afterCalls _ _ _ _ _ _ _ _ p _ _ _ _ _ _ _ (evictAnswerTo_exec c rd q month)
    (fun prog => .job (.evicts prog)) (fun disk => { s.world with disk }) (fun _ => rfl) hnext n prog s.world.disk s.thread
  rwa [← h, Function.update_eq_self] at hrun

theorem restore_segment (n : Nat) {remote : String → Option Bytes} {prog : RestoreCall (List String)}
    {s : Vault Caller Cell Bytes} (h : s.thread c = .restores prog) :
    Relation.ReflTransGen (Vault.Keeping (Task.Step begins rd pd) p) s
      ⟨(Prog.afterCalls (restoreAnswer rd remote) n prog s.world).2, Function.update s.thread c
        (.restores (Prog.afterCalls (restoreAnswer rd remote) n prog s.world).1)⟩ := by
  have hnext : ∀ (prog prog' : RestoreCall (List String)) (w w' : Archive Caller Bytes),
      Prog.Next (RestoreExec rd) prog w prog' w' → Task.Step begins rd pd c (.restores prog) w (.restores prog') w' :=
    fun _ _ _ _ hn => .restores hn
  have hexec : ∀ op (w : Archive Caller Bytes),
      RestoreExec rd op w (restoreAnswer rd remote op w).1 (restoreAnswer rd remote op w).2 := restoreAnswer_exec
  have hrun := @keeping_afterCalls _ _ _ _ _ _ _ _ p _ _ _ _ _ _ _ hexec Task.restores id (fun _ => rfl) hnext n prog
    s.world s.thread
  rwa [← h, Function.update_eq_self] at hrun

/-- A process begins. -/
theorem keeping_begin {l : Task Cell} {s : Vault Caller Cell Bytes} {w' : Archive Caller Bytes}
    (h : Task.Step begins rd pd c (s.thread c) s.world l w') (hw : w'.disk.files = s.world.disk.files) :
    Vault.Keeping (Task.Step begins rd pd) p s ⟨w', Function.update s.thread c l⟩ := by
  refine ⟨c, ⟨?_, fun d hd => Function.update_of_ne hd ..⟩, ?_⟩
  · simp only [Function.update_self]
    exact h
  · rintro ⟨-, hthere, hgone⟩
    rw [← hw, hgone] at hthere
    cases hthere

end segments

namespace Sample

def archive : Archive Nat String := ⟨⟨disk.files, fun _ => none, fun _ => none, []⟩, fun _ => none, none⟩

def base : String := "gdrive:data/history"

def remote (source : String) : Option String := if source = base ++ "/" ++ part.rel then some "ticks" else none

/-- Some calls of an eviction. -/
def evicting (c n : Nat) (prog : EvictCall EvictState) (w : Archive Nat String) : EvictCall EvictState × Archive Nat String :=
  let after := Prog.afterCalls (evictAnswerTo c reader part month) n prog w.disk
  (after.1, { w with disk := after.2 })

/-- Some calls of a restore. -/
def restoring (n : Nat) (prog : RestoreCall (List String)) (w : Archive Nat String) :
    RestoreCall (List String) × Archive Nat String :=
  Prog.afterCalls (restoreAnswer reader remote) n prog w

/-- The partition is evicted. -/
def evicted : EvictCall EvictState × Archive Nat String := evicting 0 30 (evictVerifiedPartitions args) archive

/-- It is evicted while no other eviction and no restore can run. -/
def evictedUnderFlock : EvictCall EvictState × Archive Nat String :=
  evicting 0 30 (evictVerifiedPartitions args) { archive with drive := some 0 }

/-- A restore has moved it in again, and has not dropped the tombstone. -/
def movedIn : RestoreCall (List String) × Archive Nat String := restoring 8 (restorePartitions base false [part]) evicted.2

/-- Another eviction has read the tombstone. -/
def inspected : EvictCall EvictState × Archive Nat String := evicting 2 5 (evictVerifiedPartitions args) movedIn.2

/-- The restore drops it. -/
def restored : RestoreCall (List String) × Archive Nat String := restoring 9 movedIn.1 inspected.2

/-- The eviction goes on. -/
def lost : EvictCall EvictState × Archive Nat String := evicting 2 9 inspected.1 restored.2

abbrev Run (begins : Nat → Archive Nat String → Archive Nat String → Prop) : Vault Nat (String × Option Rat) String →
    Vault Nat (String × Option Rat) String → Prop :=
  Relation.ReflTransGen (Vault.Keeping (Task.Step begins reader textCells) part)

theorem run_evicting {begins : Nat → Archive Nat String → Archive Nat String → Prop} {c : Nat} (n : Nat)
    {prog : EvictCall EvictState} {s : Vault Nat (String × Option Rat) String} (h : s.thread c = .job (.evicts prog)) :
    Run begins s ⟨(evicting c n prog s.world).2, Function.update s.thread c (.job (.evicts (evicting c n prog s.world).1))⟩ :=
  evict_segment n h

theorem run_restoring {begins : Nat → Archive Nat String → Archive Nat String → Prop} {c : Nat} (n : Nat)
    {prog : RestoreCall (List String)} {s : Vault Nat (String × Option Rat) String} (h : s.thread c = .restores prog) :
    Run begins s ⟨(restoring n prog s.world).2, Function.update s.thread c (.restores (restoring n prog s.world).1)⟩ :=
  restore_segment n h

/-- Nobody runs. -/
def atRest : Vault Nat (String × Option Rat) String := ⟨archive, fun _ => .job .idle⟩

theorem atRest_reachable (begins : Nat → Archive Nat String → Archive Nat String → Prop) :
    (vault begins reader textCells).Reachable atRest :=
  .start ⟨fun _ => rfl, fun _ => rfl, fun _ => rfl, rfl, rfl⟩

end Sample

/-- An eviction under the flock, then a restore. -/
theorem present_or_tombstoned_evicted : ∃ s : Vault Nat (String × Option Rat) String,
    (vault underFlock Sample.reader textCells).Reachable s ∧ s.world.disk.files Sample.part = none ∧
      Present s.world.disk Sample.part ∧
      ∃ w', Prog.run (restoreAnswer Sample.reader Sample.remote) (restorePartitions Sample.base false [Sample.part])
          s.world = (.ok [Sample.part.rel], w') ∧
        w'.disk.files Sample.part = some "ticks" ∧ w'.disk.tombstones Sample.part = none := by
  have hevict := Relation.ReflTransGen.single (@keeping_begin _ _ _ _ _ Sample.reader textCells 0 Sample.part underFlock _
    Sample.atRest _ (.evict Sample.args ⟨rfl, rfl⟩) rfl)
  have hevicted := hevict.trans (Sample.run_evicting 30 (Function.update_self ..))
  have hs := (vault_present (Sample.atRest_reachable underFlock) (.inl (by decide)) hevicted).1
  have htomb : (Sample.evictedUnderFlock.2.disk.tombstones Sample.part).any (fun t =>
      t.part = Sample.part.rel ∧ Sample.reader.md5 "ticks" = t.md5 ∧ Sample.reader.size "ticks" = t.size) := by
    decide +kernel
  obtain ⟨t, ht, hread⟩ := (Option.any_eq_true ..).1 htomb
  obtain ⟨hpart, hmd5, hsize⟩ := of_decide_eq_true hread
  have hfile : Sample.evictedUnderFlock.2.disk.files Sample.part = none := by decide +kernel
  refine ⟨_, hs, hfile, ?_, ?_⟩
  · exact ((present_or_tombstoned (Sample.atRest_reachable underFlock)).2.1 (.inl (by decide)) _ hevicted).1
  · exact ((present_or_tombstoned hs).2.2.2 Sample.base Sample.remote t "ticks" ht (by rw [hpart]; rfl) ⟨hmd5.symm, hsize.symm⟩).1 hfile

/-- Where a restore and an eviction overlap, the eviction unlinks a partition whose tombstone the restore has dropped; and
where a restore was cut after it had moved the copy in, the next one refuses. -/
theorem lost_beside_restore :
    (∃ s, Sample.Run atWill Sample.atRest s ∧ Present Sample.atRest.world.disk Sample.part ∧
      ¬ Present s.world.disk Sample.part) ∧
    (∃ s, Sample.Run atWill Sample.atRest s ∧ (s.world.disk.tombstones Sample.part).isSome ∧
      Sample.remote (Sample.base ++ "/" ++ Sample.part.rel) = Sample.atRest.world.disk.files Sample.part ∧
      Prog.run (restoreAnswer Sample.reader Sample.remote) (restorePartitions Sample.base false [Sample.part]) s.world =
        (.error (.runtime "Partition restore failed"), s.world)) := by
  have hevict := Relation.ReflTransGen.single (@keeping_begin _ _ _ _ _ Sample.reader textCells 0 Sample.part atWill _
    Sample.atRest _ (.evict Sample.args rfl) rfl)
  have hevicted := hevict.trans (Sample.run_evicting 30 (Function.update_self ..))
  have hrestore := hevicted.tail (@keeping_begin _ _ _ _ _ Sample.reader textCells 1 Sample.part atWill _ _ _
    (.restore Sample.base false [Sample.part] rfl) rfl)
  have hmoved := hrestore.trans (Sample.run_restoring 8 (Function.update_self ..))
  refine ⟨?_, ?_⟩
  · have hagain := hmoved.tail (@keeping_begin _ _ _ _ _ Sample.reader textCells 2 Sample.part atWill _ _ _
      (.evict Sample.args rfl) rfl)
    have hread := hagain.trans (Sample.run_evicting 5 (Function.update_self ..))
    have hdropped := hread.trans (Sample.run_restoring (c := 1) 9 (by simp [Function.update]; rfl))
    have hlost := hdropped.trans (Sample.run_evicting (c := 2) 9 (by simp [Function.update]; rfl))
    refine ⟨_, hlost, .inl (by decide), ?_⟩
    show ¬ Present Sample.lost.2.disk Sample.part
    unfold Present
    decide +kernel
  · refine ⟨_, hmoved, ?_, by decide, ?_⟩
    · show (Sample.movedIn.2.disk.tombstones Sample.part).isSome
      decide +kernel
    · show Prog.run _ _ Sample.movedIn.2 = (_, Sample.movedIn.2)
      obtain ⟨t, ht⟩ := Option.isSome_iff_exists.1
        (show (Sample.movedIn.2.disk.tombstones Sample.part).isSome by decide +kernel)
      exact restore_present ht (show Sample.movedIn.2.disk.files Sample.part = some "ticks" by decide +kernel)

end Intraday
