import KClosingAlpha.Intraday.Evict
/-!
# Rely — what a process may count on while the others run, and that an eviction keeps to its steps

A process that holds the lock of a partition may count on its bytes and on its tombstone (`Rely`); that a tombstone is
there and what the remote has listed stay without any lock (`Disk.Grows`).  So what an eviction verified before it took
the lock still holds when it hashes again.
-/
namespace Intraday

variable {Caller Bytes Cell : Type}

/-! ## What the disk keeps -/

def Tombstone.Matches (rd : Reader Bytes) (t : Tombstone) (b : Bytes) : Prop := t.md5 = rd.md5 b ∧ t.size = rd.size b

/-- The remote listed a copy of the partition with this hash and size. -/
def Listed (base : String) (p : Partition) (md5 : String) (size : Nat) (listings : List (String × RemoteMonth)) : Prop :=
  ∃ month, (base ++ "/" ++ p.dir, month) ∈ listings ∧ month.md5.lookup p.name = some md5 ∧
    month.size.lookup p.name = some size

/-- The tombstone was verified against the remote copy it names. -/
def Tombstone.Verified (t : Tombstone) (p : Partition) (listings : List (String × RemoteMonth)) : Prop :=
  ∃ base, t.remotePath = base ++ "/" ++ p.rel ∧ Listed base p t.md5 t.size listings

/-- Every tombstone was verified, and is of the bytes that are still there. -/
structure Sound (rd : Reader Bytes) (w : Disk Caller Bytes) : Prop where
  bytes : ∀ p b t, w.files p = some b → w.tombstones p = some t → t.Matches rd b
  verified : ∀ p t, w.tombstones p = some t → t.Verified p w.listings

/-- What only grows. -/
structure Disk.Grows (w w' : Disk Caller Bytes) : Prop where
  listings : w.listings ⊆ w'.listings
  buried : ∀ p, (w.tombstones p).isSome → (w'.tombstones p).isSome

/-- What a process may count on while the others run. -/
structure Rely (rd : Reader Bytes) (c : Caller) (w w' : Disk Caller Bytes) : Prop where
  sound : Sound rd w → Sound rd w'
  grows : w.Grows w'
  lock : ∀ p, w.lock p = some c → w'.lock p = some c
  files : ∀ p, w.lock p = some c → w'.files p = w.files p
  tombstones : ∀ p, w.lock p = some c → w'.tombstones p = w.tombstones p

/-- What a write counts on: its lock, and that no tombstone comes where it holds one and found none. -/
structure Shared (rd : Reader Bytes) (c : Caller) (w w' : Disk Caller Bytes) : Prop where
  sound : Sound rd w → Sound rd w'
  lock : ∀ p, w.lock p = some c → w'.lock p = some c
  free : ∀ p, w.lock p = some c → w.tombstones p = none → w'.tombstones p = none

section steps

variable {rd : Reader Bytes} {c d : Caller} {w w₁ w' : Disk Caller Bytes} {p : Partition}

theorem Listed.mono {base md5 : String} {size : Nat} {l l' : List (String × RemoteMonth)} (h : Listed base p md5 size l)
    (hl : l ⊆ l') : Listed base p md5 size l' := by
  obtain ⟨month, hm, hmd5, hsize⟩ := h
  exact ⟨month, hl hm, hmd5, hsize⟩

theorem Tombstone.Verified.mono {t : Tombstone} {l l' : List (String × RemoteMonth)} (h : t.Verified p l) (hl : l ⊆ l') :
    t.Verified p l' := by
  obtain ⟨base, hpath, hlisted⟩ := h
  exact ⟨base, hpath, hlisted.mono hl⟩

@[simp] theorem Disk.put_self (w : Disk Caller Bytes) (p : Partition) (file : Option Bytes) :
    (w.put p file).files p = file := by
  unfold Disk.put
  exact Function.update_self ..

theorem Disk.put_of_ne {q : Partition} {file : Option Bytes} (h : q ≠ p) : (w.put p file).files q = w.files q := by
  unfold Disk.put
  exact Function.update_of_ne h ..

theorem Rely.refl (w : Disk Caller Bytes) : Rely rd c w w :=
  ⟨id, ⟨List.Subset.refl _, fun _ h => h⟩, fun _ h => h, fun _ _ => rfl, fun _ _ => rfl⟩

theorem Rely.trans (h : Rely rd c w w₁) (h' : Rely rd c w₁ w') : Rely rd c w w' where
  sound hs := h'.sound (h.sound hs)
  grows := ⟨List.Subset.trans h.grows.listings h'.grows.listings, fun p hp => h'.grows.buried p (h.grows.buried p hp)⟩
  lock p hp := h'.lock p (h.lock p hp)
  files p hp := (h'.files p (h.lock p hp)).trans (h.files p hp)
  tombstones p hp := (h'.tombstones p (h.lock p hp)).trans (h.tombstones p hp)

theorem Rely.shared (h : Rely rd c w w₁) : Shared rd c w w₁ :=
  ⟨h.sound, h.lock, fun p hp hno => (h.tombstones p hp).trans hno⟩

theorem Shared.refl (w : Disk Caller Bytes) : Shared rd c w w := ⟨id, fun _ h => h, fun _ _ h => h⟩

theorem Shared.trans (h : Shared rd c w w₁) (h' : Shared rd c w₁ w') : Shared rd c w w' where
  sound hs := h'.sound (h.sound hs)
  lock p hp := h'.lock p (h.lock p hp)
  free p hp hno := h'.free p (h.lock p hp) (h.free p hp hno)

/-! ## What a process does -/

/-- Locks are taken and let go of, and directories listed. -/
structure Calm (c : Caller) (w w' : Disk Caller Bytes) : Prop where
  files : w'.files = w.files
  tombstones : w'.tombstones = w.tombstones
  listings : w.listings ⊆ w'.listings
  lock : ∀ p d, d ≠ c → w.lock p = some d → w'.lock p = some d

/-- An eviction writes the tombstone of the bytes that are there, and unlinks what has one. -/
inductive EvictStep (rd : Reader Bytes) (c : Caller) (w : Disk Caller Bytes) : Disk Caller Bytes → Prop where
  | calm {w' : Disk Caller Bytes} (h : Calm c w w') : EvictStep rd c w w'
  | bury (p : Partition) (b : Bytes) (t : Tombstone) (hlock : w.lock p = some c) (hfile : w.files p = some b)
      (hmatch : t.Matches rd b) (hver : t.Verified p w.listings) :
      EvictStep rd c w { w with tombstones := Function.update w.tombstones p (some t) }
  | unlink (p : Partition) (hlock : w.lock p = some c) (hfile : (w.files p).isSome) (hburied : (w.tombstones p).isSome) :
      EvictStep rd c w (w.put p none)

/-- A writer publishes where there is no tombstone. -/
inductive WriteStep (c : Caller) (w : Disk Caller Bytes) : Disk Caller Bytes → Prop where
  | calm {w' : Disk Caller Bytes} (h : Calm c w w') : WriteStep c w w'
  | publish (p : Partition) (file : Option Bytes) (hlock : w.lock p = some c) (hno : w.tombstones p = none) :
      WriteStep c w (w.put p file)

theorem Calm.refl (w : Disk Caller Bytes) : Calm c w w := ⟨rfl, rfl, List.Subset.refl _, fun _ _ _ h => h⟩

theorem Calm.sound (h : Calm c w w') (hs : Sound rd w) : Sound rd w' := by
  constructor
  · intro p b t hb ht
    rw [h.files] at hb
    rw [h.tombstones] at ht
    exact hs.bytes p b t hb ht
  · intro p t ht
    rw [h.tombstones] at ht
    exact (hs.verified p t ht).mono h.listings

theorem Calm.rely (h : Calm c w w') (hcd : c ≠ d) : Rely rd d w w' where
  sound := h.sound
  grows := ⟨h.listings, fun p hp => by rw [h.tombstones]; exact hp⟩
  lock p hp := h.lock p d hcd.symm hp
  files p _ := by rw [h.files]
  tombstones p _ := by rw [h.tombstones]

theorem Calm.takes [DecidableEq Caller] (h : w.Takes c p w') : Calm c w w' := by
  obtain ⟨hfree, rfl⟩ := h
  refine ⟨rfl, rfl, List.Subset.refl _, fun q d _ hq => ?_⟩
  have hne : q ≠ p := by
    rintro rfl
    rw [hfree] at hq
    cases hq
  exact (Function.update_of_ne hne _ _).trans hq

theorem Calm.release [DecidableEq Caller] : Calm c w (w.release c p) := by
  refine ⟨rfl, rfl, List.Subset.refl _, fun q d hd hq => ?_⟩
  have hnot : ¬ (q = p ∧ w.lock p = some c) := by
    rintro ⟨rfl, hp⟩
    exact hd (Option.some.inj (hq.symm.trans hp))
  exact (if_neg hnot).trans hq

theorem Calm.exit [DecidableEq Caller] : Calm c w (w.exit c) := by
  refine ⟨rfl, rfl, List.Subset.refl _, fun q d hd hq => ?_⟩
  have hnot : w.lock q ≠ some c := fun hp => hd (Option.some.inj (hq.symm.trans hp))
  exact (if_neg hnot).trans hq

theorem EvictStep.sound (h : EvictStep rd c w w') (hs : Sound rd w) : Sound rd w' := by
  cases h with
  | calm h => exact h.sound hs
  | bury p b t hlock hfile hmatch hver =>
    constructor
    · intro q b' t' hb ht
      by_cases hq : q = p
      · subst hq
        have ht' : some t = some t' := (Function.update_self q (some t) w.tombstones).symm.trans ht
        rw [← Option.some.inj ht', ← Option.some.inj (hfile.symm.trans hb)]
        exact hmatch
      · exact hs.bytes q b' t' hb ((Function.update_of_ne hq _ _).symm.trans ht)
    · intro q t' ht
      by_cases hq : q = p
      · subst hq
        have ht' : some t = some t' := (Function.update_self q (some t) w.tombstones).symm.trans ht
        rw [← Option.some.inj ht']
        exact hver
      · exact hs.verified q t' ((Function.update_of_ne hq _ _).symm.trans ht)
  | unlink p hlock hfile hburied =>
    refine ⟨fun q b t hb ht => ?_, hs.verified⟩
    by_cases hq : q = p
    · rw [hq, Disk.put_self] at hb
      cases hb
    · rw [Disk.put_of_ne hq] at hb
      exact hs.bytes q b t hb ht

theorem EvictStep.grows (h : EvictStep rd c w w') : w.Grows w' := by
  cases h with
  | calm h => exact ⟨h.listings, fun p hp => by rw [h.tombstones]; exact hp⟩
  | bury p b t hlock hfile hmatch hver =>
    refine ⟨List.Subset.refl _, fun q hq => ?_⟩
    by_cases hqp : q = p
    · subst hqp
      exact congrArg Option.isSome (Function.update_self q (some t) w.tombstones)
    · exact (congrArg Option.isSome (Function.update_of_ne hqp (some t) w.tombstones)).trans hq
  | unlink p hlock hfile hburied => exact ⟨List.Subset.refl _, fun _ h => h⟩

/-- Another's lock is on another partition. -/
theorem ne_of_lock {q : Partition} (hcd : c ≠ d) (hp : w.lock p = some c) (hq : w.lock q = some d) : q ≠ p := by
  rintro rfl
  exact hcd (Option.some.inj (hp.symm.trans hq))

theorem EvictStep.rely (h : EvictStep rd c w w') (hcd : c ≠ d) : Rely rd d w w' := by
  cases h with
  | calm h => exact h.rely hcd
  | bury p b t hlock hfile hmatch hver =>
    have hstep : EvictStep rd c w _ := .bury p b t hlock hfile hmatch hver
    exact ⟨hstep.sound, hstep.grows, fun _ h => h, fun _ _ => rfl,
      fun q hq => Function.update_of_ne (ne_of_lock hcd hlock hq) _ _⟩
  | unlink p hlock hfile hburied =>
    have hstep : EvictStep rd c w _ := .unlink p hlock hfile hburied
    exact ⟨hstep.sound, hstep.grows, fun _ h => h, fun q hq => Disk.put_of_ne (ne_of_lock hcd hlock hq),
      fun _ _ => rfl⟩

theorem WriteStep.sound (h : WriteStep c w w') (hs : Sound rd w) : Sound rd w' := by
  cases h with
  | calm h => exact h.sound hs
  | publish p file hlock hno =>
    refine ⟨fun q b t hb ht => ?_, hs.verified⟩
    have hq : q ≠ p := by
      rintro rfl
      exact absurd (hno.symm.trans ht) (by simp)
    rw [Disk.put_of_ne hq] at hb
    exact hs.bytes q b t hb ht

theorem WriteStep.rely (h : WriteStep c w w') (hcd : c ≠ d) : Rely rd d w w' := by
  cases h with
  | calm h => exact h.rely hcd
  | publish p file hlock hno =>
    have hstep : WriteStep c w _ := .publish p file hlock hno
    exact ⟨hstep.sound, ⟨List.Subset.refl _, fun _ h => h⟩, fun _ h => h,
      fun q hq => Disk.put_of_ne (ne_of_lock hcd hlock hq), fun _ _ => rfl⟩

end steps

/-! ## The eviction keeps to its steps -/

section evicts

variable [DecidableEq Caller] {rd : Reader Bytes} {c : Caller} {w : Disk Caller Bytes} {p : Partition} {α β : Type}

/-- Among the others, every call is a step of an eviction, and a value satisfies `φ`. -/
abbrev Evicts (rd : Reader Bytes) (c : Caller) (prog : EvictCall α) (φ : α → Disk Caller Bytes → Prop)
    (w : Disk Caller Bytes) : Prop := Prog.among (EvictExec rd c) (Rely rd c) (EvictStep rd c) (Sound rd) prog φ w

/-- A fact that growing does not break. -/
def Lasts (F : Disk Caller Bytes → Prop) : Prop := ∀ w w', w.Grows w' → F w → F w'

theorem Evicts.attempt {φ : α → Disk Caller Bytes → Prop} {ψ : β → Disk Caller Bytes → Prop}
    {F : Disk Caller Bytes → Prop} {prog : EvictCall α} {f : Except Exn α → EvictCall β} (h : Evicts rd c prog φ w)
    (hF : Lasts F) (hw : F w)
    (hf : ∀ o w', Sound rd w' → F w' → (∀ a, o = .ok a → φ a w') → Evicts rd c (f o) ψ w') :
    Evicts rd c (prog.attempt.bind f) ψ w :=
  Prog.among_attempt h (fun w w' hR => hF w w' hR.grows) (fun w w' hG => hF w w' hG.grows) hw hf

theorem Evicts.ask {op : EvictOp} {φ : op.Ans → Disk Caller Bytes → Prop} (hs : Sound rd w)
    (h : ∀ w₁ r w₂, Rely rd c w w₁ → EvictExec rd c op w₁ r w₂ → EvictStep rd c w₁ w₂ ∧ ∀ a, r = .ok a → φ a w₂) :
    Evicts rd c op.ask φ w := by
  intro w₁ hR r w₂ hop
  obtain ⟨hstep, hφ⟩ := h w₁ r w₂ hR hop
  exact ⟨hstep, Prog.among_ofExcept (hstep.sound (hR.sound hs)) hφ⟩

/-- What only reads, or only writes the tombstone's staging file. -/
def EvictOp.Quiet : EvictOp → Prop
  | lock _ | unlock _ | publishTombstone _ _ | unlink _ | listMonth _ => False
  | _ => True

theorem EvictExec.quiet {op : EvictOp} {r : op.Ret} {w' : Disk Caller Bytes} (hq : op.Quiet)
    (h : EvictExec rd c op w r w') : w' = w := by
  cases op with
  | clock | isDir | candidates | now | stageTombstone | syncDir => exact h
  | md5 | size | rowsAndSymbols | readTombstone | tombstoneExists => exact h.2
  | lock | unlock | publishTombstone | unlink | listMonth => exact hq.elim

/-- A quiet call keeps what the process may count on. -/
theorem Evicts.quiet {op : EvictOp} {F : Disk Caller Bytes → Prop} (hs : Sound rd w) (hF : ∀ w₁, Rely rd c w w₁ → F w₁)
    (hq : op.Quiet) : Evicts rd c op.ask (fun _ => F) w := by
  apply Evicts.ask hs
  intro w₁ r w₂ hR hop
  rw [EvictExec.quiet hq hop]
  exact ⟨.calm (.refl w₁), fun _ _ => hF w₁ hR⟩

theorem Evicts.quiet_bind {op : EvictOp} {F : Disk Caller Bytes → Prop} {f : op.Ans → EvictCall β}
    {ψ : β → Disk Caller Bytes → Prop} (hs : Sound rd w) (hF : ∀ w₁, Rely rd c w w₁ → F w₁) (hq : op.Quiet)
    (hf : ∀ a w', Sound rd w' → F w' → Evicts rd c (f a) ψ w') : Evicts rd c (op.ask.bind f) ψ w :=
  Prog.among_bind (Evicts.quiet hs hF hq) hf

theorem inspect_evicts (hs : Sound rd w) :
    Evicts rd c (inspect p) (fun a w' => a.2.2.isSome → (w'.tombstones p).isSome) w := by
  apply Evicts.quiet_bind hs (fun _ _ => trivial)
  · trivial
  intro md5 w₁ hs₁ _
  apply Evicts.quiet_bind hs₁ (fun _ _ => trivial)
  · trivial
  intro size w₂ hs₂ _
  apply Prog.among_bind (φ := fun tomb w' => tomb.isSome → (w'.tombstones p).isSome)
  · apply Evicts.ask hs₂
    rintro w₃ r w₄ - ⟨htomb, rfl⟩
    refine ⟨.calm (.refl _), fun tomb hr hsome => ?_⟩
    rw [← htomb tomb hr]
    exact hsome
  · exact fun tomb w₃ hs₃ htomb => Prog.among_ret hs₃ htomb

/-- The months a run remembers were listed. -/
def Remembers (base : String) (st : EvictState) (w : Disk Caller Bytes) : Prop :=
  ∀ dir month, (dir, some month) ∈ st.months → (base ++ "/" ++ dir, month) ∈ w.listings

omit [DecidableEq Caller] in
theorem Remembers.lasts {base : String} {st : EvictState} : Lasts (Remembers base st : Disk Caller Bytes → Prop) :=
  fun _ _ hg h dir month hm => hg.listings (h dir month hm)

/-- What an eviction knows of a partition it may unlink: it has a tombstone, or the remote listed it. -/
def Cleared (base : String) (p : Partition) (md5 : String) (size : Nat) (tomb : Option Tombstone) (w : Disk Caller Bytes) :
    Prop :=
  match tomb with
  | some _ => (w.tombstones p).isSome
  | none => Listed base p md5 size w.listings

omit [DecidableEq Caller] in
theorem Cleared.lasts {base md5 : String} {size : Nat} {tomb : Option Tombstone} :
    Lasts (Cleared base p md5 size tomb : Disk Caller Bytes → Prop) := by
  intro w w' hg h
  cases tomb with
  | some t => exact hg.buried p h
  | none => exact Listed.mono h hg.listings

theorem monthOf_evicts {base : String} {st : EvictState} (hs : Sound rd w) (hst : Remembers base st w) :
    Evicts rd c (monthOf base p st)
      (fun a w' => Remembers base a.2 w' ∧ ∀ month, a.1 = some month → (base ++ "/" ++ p.dir, month) ∈ w'.listings) w := by
  unfold monthOf
  split
  next month hmonth =>
    refine Prog.among_ret hs ⟨hst, fun m hm => hst p.dir m ?_⟩
    obtain ⟨before, after, heq, -⟩ := List.lookup_eq_some_iff.1 hmonth
    have hmonth' : month = some m := hm
    rw [heq, hmonth']
    exact List.mem_append_right before List.mem_cons_self
  · apply Prog.among_bind (φ := fun month w' => Remembers base st w' ∧
      ∀ m, month = some m → (base ++ "/" ++ p.dir, m) ∈ w'.listings)
    · apply Evicts.ask hs
      intro w₁ r w₂ hR hop
      have hst₁ := Remembers.lasts _ _ hR.grows hst
      match r, hop with
      | .error e, hop =>
        cases hop
        exact ⟨.calm (.refl _), fun a ha => by cases ha⟩
      | .ok none, hop =>
        cases hop
        exact ⟨.calm (.refl _), fun a ha => by cases ha; exact ⟨hst₁, fun m hm => by cases hm⟩⟩
      | .ok (some month), hop =>
        cases hop
        have hcalm : Calm c w₁ { w₁ with listings := (base ++ "/" ++ p.dir, month) :: w₁.listings } :=
          ⟨rfl, rfl, List.subset_cons_self _ _, fun _ _ _ h => h⟩
        refine ⟨.calm hcalm, fun a ha => ?_⟩
        cases ha
        refine ⟨fun dir m hm => List.mem_cons_of_mem _ (hst₁ dir m hm), fun m hm => ?_⟩
        cases hm
        exact List.mem_cons_self
    · rintro month w₁ hs₁ ⟨hst₁, hlisted⟩
      refine Prog.among_ret hs₁ ⟨fun dir m hm => ?_, hlisted⟩
      rcases List.mem_cons.1 hm with heq | hm
      · rw [(Prod.mk.inj heq).1]
        exact hlisted m (Prod.mk.inj heq).2.symm
      · exact hst₁ dir m hm

/-- A listing that verifies a partition has its hash and size. -/
theorem listed_of_unverified {base md5 : String} {size : Nat} {month : Option RemoteMonth}
    {listings : List (String × RemoteMonth)} (h : unverified p md5 size month = none)
    (hm : ∀ m, month = some m → (base ++ "/" ++ p.dir, m) ∈ listings) : Listed base p md5 size listings := by
  cases month with
  | none => cases h
  | some month =>
    refine ⟨month, hm month rfl, ?_⟩
    unfold unverified at h
    dsimp only at h
    split at h
    next remoteMd5 remoteSize hmd5 hsize =>
      split_ifs at h with hempty hne
      rw [not_or, not_not, not_not] at hne
      rw [hmd5, hsize, hne.1, hne.2]
      exact ⟨rfl, rfl⟩
    · cases h

theorem whyKept_evicts {base md5 : String} {size : Nat} {tomb : Option Tombstone} {st : EvictState} (hs : Sound rd w)
    (hst : Remembers base st w) (htomb : tomb.isSome → (w.tombstones p).isSome) :
    Evicts rd c (whyKept base p md5 size tomb st)
      (fun a w' => Remembers base a.2 w' ∧ (a.1 = none → Cleared base p md5 size tomb w')) w := by
  unfold whyKept
  cases tomb with
  | some t => exact Prog.among_ret hs ⟨hst, fun _ => htomb rfl⟩
  | none =>
    apply Prog.among_bind (monthOf_evicts hs hst)
    rintro r w₁ hs₁ ⟨hst₁, hlisted⟩
    exact Prog.among_ret hs₁ ⟨hst₁, fun hnone => listed_of_unverified hnone hlisted⟩

/-! ### Under the lock -/

/-- The process holds the lock of a partition with these bytes, which may go. -/
structure Ready (base : String) (p : Partition) (b : Bytes) (md5 : String) (size : Nat) (tomb : Option Tombstone) (c : Caller)
    (w : Disk Caller Bytes) : Prop where
  lock : w.lock p = some c
  file : w.files p = some b
  cleared : Cleared base p md5 size tomb w

omit [DecidableEq Caller] in
theorem Ready.rely {base md5 : String} {size : Nat} {tomb : Option Tombstone} {b : Bytes} {w₁ : Disk Caller Bytes}
    (h : Ready base p b md5 size tomb c w) (hR : Rely rd c w w₁) : Ready base p b md5 size tomb c w₁ :=
  ⟨hR.lock p h.lock, (hR.files p h.lock).trans h.file, Cleared.lasts w w₁ hR.grows h.cleared⟩

theorem buryFirst_evicts {base md5 : String} {size : Nat} {tomb : Option Tombstone} {b : Bytes} (hs : Sound rd w)
    (h : Ready base p b md5 size tomb c w) (hmd5 : md5 = rd.md5 b) (hsize : size = rd.size b) :
    Evicts rd c (buryFirst base p md5 size tomb) (fun _ w' => w'.lock p = some c ∧ w'.files p = some b ∧
      (w'.tombstones p).isSome) w := by
  cases tomb with
  | some t => exact Prog.among_ret hs ⟨h.lock, h.file, h.cleared⟩
  | none =>
    apply Evicts.quiet_bind hs (fun _ hR => h.rely hR)
    · trivial
    intro stored w₁ hs₁ h₁
    apply Evicts.quiet_bind hs₁ (fun _ hR => h₁.rely hR)
    · trivial
    intro evictedAt w₂ hs₂ h₂
    apply Evicts.quiet_bind hs₂ (fun _ hR => h₂.rely hR)
    · trivial
    intro _ w₃ hs₃ h₃
    apply Prog.among_bind (φ := fun _ w' => w'.lock p = some c ∧ w'.files p = some b ∧ (w'.tombstones p).isSome)
    · apply Evicts.ask hs₃
      intro w₄ r w₅ hR hop
      have h₄ := h₃.rely hR
      cases r with
      | error e =>
        cases hop
        exact ⟨.calm (.refl _), fun a ha => by cases ha⟩
      | ok u =>
        cases hop
        refine ⟨.bury p b _ h₄.lock h₄.file ⟨hmd5, hsize⟩ ⟨base, rfl, h₄.cleared⟩, fun _ _ => ⟨h₄.lock, h₄.file, ?_⟩⟩
        simp
    · rintro _ w₄ hs₄ ⟨hlock, hfile, hburied⟩
      refine Evicts.quiet hs₄ (fun w₅ hR => ⟨hR.lock p hlock, (hR.files p hlock).trans hfile, ?_⟩) trivial
      exact hR.grows.buried p hburied

theorem evictLocked_evicts {base md5 : String} {size : Nat} {tomb : Option Tombstone} {b : Bytes} (hs : Sound rd w)
    (h : Ready base p b md5 size tomb c w) (hmd5 : md5 = rd.md5 b) (hsize : size = rd.size b) :
    Evicts rd c (evictLocked base p tomb md5 size) (fun _ _ => True) w := by
  apply Prog.among_bind (buryFirst_evicts hs h hmd5 hsize)
  rintro _ w₁ hs₁ ⟨hlock, hfile, hburied⟩
  apply Evicts.ask hs₁
  intro w₂ r w₃ hR hop
  cases r with
  | error e =>
    cases hop
    exact ⟨.calm (.refl _), fun a ha => by cases ha⟩
  | ok u =>
    obtain ⟨hthere, rfl⟩ := hop
    exact ⟨.unlink p (hR.lock p hlock) hthere (hR.grows.buried p hburied), fun _ _ => trivial⟩

theorem recheckAndEvict_evicts {base md5 : String} {size : Nat} {tomb : Option Tombstone} (hs : Sound rd w)
    (hlock : w.lock p = some c) (hcleared : Cleared base p md5 size tomb w) :
    Evicts rd c (recheckAndEvict base p tomb md5 size) (fun _ _ => True) w := by
  apply Prog.among_bind (φ := fun md5' w' => ∃ b, md5' = rd.md5 b ∧ Ready base p b md5 size tomb c w')
  · apply Evicts.ask hs
    rintro w₁ r w₂ hR ⟨hread, rfl⟩
    refine ⟨.calm (.refl _), fun md5' hr => ?_⟩
    obtain ⟨b, hfile, heq⟩ := hread md5' hr
    exact ⟨b, heq, hR.lock p hlock, hfile, Cleared.lasts _ _ hR.grows hcleared⟩
  · rintro md5' w₁ hs₁ ⟨b, hmd5, h₁⟩
    split_ifs with hne
    · exact Prog.among_ret hs₁ trivial
    · apply Prog.among_bind (φ := fun size' w' => size' = rd.size b ∧ Ready base p b md5 size tomb c w')
      · apply Evicts.ask hs₁
        rintro w₂ r w₃ hR ⟨hread, rfl⟩
        refine ⟨.calm (.refl _), fun size' hr => ?_⟩
        have h₂ := h₁.rely hR
        obtain ⟨b', hfile, heq⟩ := hread size' hr
        rw [Option.some.inj (h₂.file.symm.trans hfile)]
        exact ⟨heq, Option.some.inj (h₂.file.symm.trans hfile) ▸ h₂⟩
      · rintro size' w₂ hs₂ ⟨hsize, h₂⟩
        split_ifs with hne'
        · exact Prog.among_ret hs₂ trivial
        · rw [not_not] at hne hne'
          apply Prog.among_bind (evictLocked_evicts hs₂ h₂ (hne.symm.trans hmd5) (hne'.symm.trans hsize))
          exact fun _ w₃ hs₃ _ => Prog.among_ret hs₃ trivial

/-! ### The loops -/

theorem evictFailed_evicts {base : String} {st : EvictState} {e : Exn} (hs : Sound rd w) (hst : Remembers base st w) :
    Evicts rd c (evictFailed p st e) (Remembers base) w := by
  unfold evictFailed
  split_ifs
  · exact Prog.among_ret hs hst
  · exact Prog.among_raise hs

theorem evictUnderLock_evicts {base md5 : String} {size : Nat} {tomb : Option Tombstone} {st : EvictState}
    (hs : Sound rd w) (hst : Remembers base st w) (hcleared : Cleared base p md5 size tomb w) :
    Evicts rd c (evictUnderLock base p tomb md5 size st) (Remembers base) w := by
  have hlasts : Lasts (fun w : Disk Caller Bytes => Remembers base st w ∧ Cleared base p md5 size tomb w) :=
    fun w w' hg h => ⟨Remembers.lasts w w' hg h.1, Cleared.lasts w w' hg h.2⟩
  apply Evicts.attempt (φ := fun _ w' => w'.lock p = some c) _ hlasts ⟨hst, hcleared⟩
  · rintro acquired w₁ hs₁ ⟨hst₁, hcleared₁⟩ hlock
    cases acquired with
    | error e => exact evictFailed_evicts hs₁ hst₁
    | ok u =>
      apply Evicts.attempt (recheckAndEvict_evicts hs₁ (hlock u rfl) hcleared₁) Remembers.lasts hst₁
      intro o w₂ hs₂ hst₂ _
      apply Evicts.attempt (φ := fun _ _ => True) _ Remembers.lasts hst₂
      · intro released w₃ hs₃ hst₃ _
        match o, released with
        | .error e, _ => exact evictFailed_evicts hs₃ hst₃
        | .ok true, .ok _ => exact Prog.among_ret hs₃ hst₃
        | .ok true, .error e => exact evictFailed_evicts hs₃ hst₃
        | .ok false, .ok _ => exact Prog.among_ret hs₃ hst₃
        | .ok false, .error e => exact evictFailed_evicts hs₃ hst₃
      · apply Evicts.ask hs₂
        rintro w₃ r w₄ - rfl
        exact ⟨.calm .release, fun _ _ => trivial⟩
  · apply Evicts.ask hs
    intro w₁ r w₂ _ hop
    cases r with
    | error e =>
      cases hop
      exact ⟨.calm (.refl _), fun a ha => by cases ha⟩
    | ok u =>
      refine ⟨.calm (.takes hop), fun _ _ => ?_⟩
      rw [hop.2]
      exact Function.update_self ..

theorem evictFile_evicts {args : EvictArgs} {st : EvictState} (hs : Sound rd w) (hst : Remembers args.remoteBase st w) :
    Evicts rd c (evictFile args p st) (Remembers args.remoteBase) w := by
  apply Evicts.attempt (inspect_evicts hs) Remembers.lasts hst
  intro inspected w₁ hs₁ hst₁ htomb
  match inspected with
  | .error e =>
    dsimp only
    split_ifs
    · apply Evicts.quiet_bind hs₁ (fun _ hR => Remembers.lasts _ _ hR.grows hst₁)
      · trivial
      · exact fun there w₂ hs₂ hst₂ => Prog.among_ret hs₂ hst₂
    · exact Prog.among_raise hs₁
  | .ok (md5, size, tomb) =>
    apply Prog.among_bind (whyKept_evicts hs₁ hst₁ (htomb _ rfl))
    rintro ⟨reason, st₂⟩ w₂ hs₂ ⟨hst₂, hcleared⟩
    cases reason with
    | some reason => exact Prog.among_ret hs₂ hst₂
    | none =>
      dsimp only
      split_ifs
      · exact Prog.among_ret hs₂ hst₂
      · exact evictUnderLock_evicts hs₂ hst₂ (hcleared rfl)

theorem evictFiles_evicts {args : EvictArgs} : ∀ {ps : List Partition} {st : EvictState} {w : Disk Caller Bytes},
    Sound rd w → Remembers args.remoteBase st w → Evicts rd c (evictFiles args ps st) (Remembers args.remoteBase) w
  | [], st, w, hs, hst => Prog.among_ret hs hst
  | p :: ps, st, w, hs, hst => by
    apply Prog.among_bind (φ := fun _ w' => Remembers args.remoteBase st w')
    · unfold pastDeadline
      cases args.deadline with
      | none => exact Prog.among_ret hs hst
      | some deadline =>
        apply Evicts.quiet_bind hs (fun _ hR => Remembers.lasts _ _ hR.grows hst)
        · trivial
        · exact fun now w₁ hs₁ hst₁ => Prog.among_ret hs₁ hst₁
    · intro past w₁ hs₁ hst₁
      split_ifs
      · exact Prog.among_ret hs₁ hst₁
      · exact Prog.among_ret hs₁ hst₁
      · apply Prog.among_bind (evictFile_evicts hs₁ hst₁)
        exact fun st₂ w₂ hs₂ hst₂ => evictFiles_evicts hs₂ hst₂

theorem evictRoots_evicts {args : EvictArgs} {cutoff : Int} :
    ∀ {roots : List String} {st : EvictState} {w : Disk Caller Bytes}, Sound rd w → Remembers args.remoteBase st w →
      Evicts rd c (evictRoots args cutoff roots st) (Remembers args.remoteBase) w
  | [], st, w, hs, hst => Prog.among_ret hs hst
  | root :: roots, st, w, hs, hst => by
    unfold evictRoots
    split_ifs
    · exact evictRoots_evicts hs hst
    · apply Evicts.quiet_bind hs (fun _ hR => Remembers.lasts _ _ hR.grows hst)
      · trivial
      · intro there w₁ hs₁ hst₁
        split_ifs
        · apply Evicts.quiet_bind hs₁ (fun _ hR => Remembers.lasts _ _ hR.grows hst₁)
          · trivial
          · intro ps w₂ hs₂ hst₂
            apply Prog.among_bind (evictFiles_evicts hs₂ hst₂)
            exact fun st₃ w₃ hs₃ hst₃ => evictRoots_evicts hs₃ hst₃
        · exact evictRoots_evicts hs₁ hst₁

theorem evictFamilies_evicts {args : EvictArgs} :
    ∀ {families : List EvictionFamily} {st : EvictState} {w : Disk Caller Bytes}, Sound rd w →
      Remembers args.remoteBase st w → Evicts rd c (evictFamilies args families st) (Remembers args.remoteBase) w
  | [], st, w, hs, hst => Prog.among_ret hs hst
  | family :: families, st, w, hs, hst => by
    apply Prog.among_bind (evictRoots_evicts hs hst)
    exact fun st₁ w₁ hs₁ hst₁ => evictFamilies_evicts hs₁ hst₁

/-- **An eviction keeps to its steps**, whatever the others do in between. -/
theorem evictVerifiedPartitions_evicts {args : EvictArgs} (hs : Sound rd w) :
    Evicts rd c (evictVerifiedPartitions args) (Remembers args.remoteBase) w :=
  evictFamilies_evicts hs (fun dir month hm => by cases hm)

end evicts

end Intraday
