import KClosingAlpha.Intraday.Rely
/-!
# Eviction — no partition is lost to an eviction

A writer that saw no tombstone under the lock publishes where there is none; an eviction unlinks what has one.  Each is
something the other relies on, so both hold however they interleave and wherever they are killed.
-/
namespace Intraday

variable {Caller Bytes Cell : Type}

/-! ## The writers keep to theirs -/

section writes

variable {t : Target} {pd : Pandas Cell} {α β : Type}

/-- What neither takes a lock nor publishes. -/
def Op.Quiet : Op Cell → Prop
  | lock _ | unlock _ | replace _ | unlink _ => False
  | _ => True

/-- What a write does to its partition once it may. -/
def Op.Publishes (t : Target) (op : Op Cell) : Prop := op.Quiet ∨ op = .replace t ∨ op = .unlink t

theorem calls_ask {P : Op Cell → Prop} {op : Op Cell} (h : P op) : (ask op).Calls P :=
  ⟨h, fun r => Prog.calls_ofExcept r⟩

theorem certifyAll_calls {session : String} {coverage : Coverage} :
    ∀ symbols, (certifyAll session coverage symbols : Call Cell Unit).Calls Op.Quiet
  | [] => trivial
  | symbol :: symbols => by
    unfold certifyAll
    split
    · trivial
    · split
      · exact certifyAll_calls symbols
      · trivial
      · exact (calls_ask trivial).bind (fun _ => trivial)

theorem checkLegacyUnchanged_calls {incoming : Frame Cell} {symbols : List String} :
    (checkLegacyUnchanged pd t incoming symbols).Calls Op.Quiet := by
  apply (calls_ask trivial).bind
  exact fun stored => .ite trivial (Prog.calls_ofExcept _)

theorem storedSymbolCounts_calls : (storedSymbolCounts pd t).Calls Op.Quiet := by
  apply (calls_ask trivial).bind
  intro there
  apply Prog.Calls.ite _ (Prog.calls_ret _)
  exact (calls_ask trivial).bind (fun stored => .ite trivial trivial)

theorem quarantineAll_calls {incoming : Frame Cell} : ∀ symbols, (quarantineAll pd incoming symbols).Calls Op.Quiet
  | [] => trivial
  | symbol :: symbols => by
    unfold quarantineAll
    apply Prog.Calls.ite (quarantineAll_calls symbols)
    exact (calls_ask trivial).bind (fun _ => quarantineAll_calls symbols)

theorem applyShrinkGuard_calls {incoming : Option (Frame Cell)} {replaced allow : List String} :
    (applyShrinkGuard pd t incoming replaced allow).Calls Op.Quiet := by
  apply storedSymbolCounts_calls.bind
  intro before
  cases incoming with
  | none => trivial
  | some incoming => exact (quarantineAll_calls _).bind (fun _ => trivial)

theorem writeTable_calls {opened : Bool} {f : Frame Cell} : (writeTable opened f).Calls Op.Quiet :=
  .ite (calls_ask trivial) (calls_ask trivial)

theorem keepRows_calls {columns replaced : List String} :
    ∀ batches st, (keepRows pd columns replaced batches st).Calls Op.Quiet
  | [], _ => trivial
  | batch :: batches, st => by
    unfold keepRows
    apply Prog.Calls.ite (keepRows_calls batches _)
    exact writeTable_calls.bind (fun _ => keepRows_calls batches _)

theorem stage_calls {incoming : Frame Cell} {replaced : List String} {n : Nat} :
    (stage pd t incoming replaced n).Calls (Op.Publishes t) := by
  apply (calls_ask (.inl trivial)).bind
  intro there
  apply Prog.Calls.bind
  · apply Prog.Calls.ite _ (Prog.calls_ret _)
    exact (calls_ask (.inl trivial)).bind (fun stored => (keepRows_calls _ _).mono (fun _ => .inl))
  · intro st
    apply Prog.Calls.bind
    · apply Prog.Calls.ite (Prog.calls_ret _)
      exact (writeTable_calls.mono (fun _ => .inl)).bind (fun _ => trivial)
    · intro opened
      apply Prog.Calls.ite
      · apply (calls_ask (.inl trivial)).bind
        intro _
        apply (calls_ask (.inl trivial)).bind
        exact fun staged => .ite trivial ((calls_ask (.inr (.inl rfl))).bind (fun _ => trivial))
      · apply (calls_ask (.inl trivial)).bind
        exact fun there => .ite ((calls_ask (.inr (.inr rfl))).bind (fun _ => trivial)) trivial

theorem stageAndClean_calls {incoming : Frame Cell} {replaced : List String} {n : Nat} :
    (stageAndClean pd t incoming replaced n).Calls (Op.Publishes t) := by
  apply stage_calls.attempt.bind
  intro o
  cases o with
  | ok n => exact (calls_ask (.inl trivial)).bind (fun _ => trivial)
  | error e => exact (calls_ask (.inl trivial)).bind (fun _ => (calls_ask (.inl trivial)).bind (fun _ => trivial))

variable [DecidableEq Caller] {rd : Reader Bytes} {c : Caller} {w : Disk Caller Bytes}

theorem StoreExec.quiet {op : Op Cell} {r : op.Ret} {w' : Disk Caller Bytes} (hq : op.Quiet)
    (h : StoreExec c op w r w') : w' = w := by
  cases op with
  | tombstone => exact h.2
  | lock | unlock | replace | unlink => exact hq.elim
  | isThere | rowCount | read | preserve | quarantine | backup | convert | create | append | close | stagedCount
  | unstage | logCoverage => exact h

/-- Among the others, every call is a step of a writer. -/
def Writes (rd : Reader Bytes) (c : Caller) (prog : Call Cell α) : Prop :=
  ∀ w : Disk Caller Bytes, Sound rd w →
    Prog.rg (StoreExec c) (Rely rd c) (WriteStep c) prog (fun _ w' => Sound rd w') w

/-- The same, where the others do not leave alone what has a tombstone. -/
def WritesBeside (rd : Reader Bytes) (c : Caller) (prog : Call Cell α) : Prop :=
  ∀ w : Disk Caller Bytes, Sound rd w →
    Prog.rg (StoreExec c) (Shared rd c) (WriteStep c) prog (fun _ w' => Sound rd w') w

theorem WritesBeside.writes {prog : Call Cell α} (h : WritesBeside rd c prog) : Writes rd c prog :=
  fun w hs => Prog.rg_anti (h w hs) (fun _ _ hR => hR.shared)

theorem WritesBeside.bind {prog : Call Cell α} {f : α → Call Cell β} (h : WritesBeside rd c prog)
    (hf : ∀ a, WritesBeside rd c (f a)) : WritesBeside rd c (prog.bind f) := by
  intro w hs
  apply Prog.rg_bind _ (h w hs)
  · exact fun a w' hs' => hf a w' hs'
  · exact fun _ _ hs' => hs'

theorem WritesBeside.quiet {prog : Call Cell α} (h : prog.Calls Op.Quiet) : WritesBeside rd c prog := by
  intro w hs
  refine Prog.rg_of_calls (fun w w' hs hR => hR.sound hs) (fun op hop w r w' hs hE => ?_) h hs
  rw [StoreExec.quiet hop hE]
  exact ⟨.calm (.refl w), hs⟩

/-- Under the lock of a partition that has no tombstone. -/
structure Cleanly (rd : Reader Bytes) (c : Caller) (p : Partition) (w : Disk Caller Bytes) : Prop where
  sound : Sound rd w
  lock : w.lock p = some c
  free : w.tombstones p = none

omit [DecidableEq Caller] in
theorem Cleanly.rely {p : Partition} {w' : Disk Caller Bytes} (h : Cleanly rd c p w) (hR : Shared rd c w w') :
    Cleanly rd c p w' :=
  ⟨hR.sound h.sound, hR.lock p h.lock, hR.free p h.lock h.free⟩

omit [DecidableEq Caller] in
theorem Cleanly.put {p : Partition} (h : Cleanly rd c p w) (file : Option Bytes) :
    WriteStep c w (w.put p file) ∧ Cleanly rd c p (w.put p file) := by
  have hstep : WriteStep c w (w.put p file) := .publish p file h.lock h.free
  exact ⟨hstep, hstep.sound h.sound, h.lock, h.free⟩

/-- Once the tombstone was looked for under the lock, a write may publish. -/
theorem publishes_rg {prog : Call Cell α} (h : prog.Calls (Op.Publishes t)) (hw : Cleanly rd c (.store t) w) :
    Prog.rg (StoreExec c) (Shared rd c) (WriteStep c) prog (fun _ w' => Sound rd w') w := by
  have hkeeps : ∀ op : Op Cell, op.Publishes t → ∀ w r w', Cleanly rd c (.store t) w → StoreExec c op w r w' →
      WriteStep c w w' ∧ Cleanly rd c (.store t) w' := by
    rintro op (hq | rfl | rfl) w r w' hw hE
    · rw [StoreExec.quiet hq hE]
      exact ⟨.calm (.refl w), hw⟩
    · cases r with
      | error e =>
        cases hE
        exact ⟨.calm (.refl w), hw⟩
      | ok u =>
        obtain ⟨b, rfl⟩ := hE
        exact hw.put (some b)
    · cases r with
      | error e =>
        cases hE
        exact ⟨.calm (.refl w), hw⟩
      | ok u =>
        cases hE
        exact hw.put none
  apply Prog.rg_mono (Prog.rg_of_calls (fun w w' hw hR => hw.rely hR) hkeeps h hw)
  exact fun _ _ hw' => hw'.sound

theorem replaceLocked_rg {incoming : Option (Frame Cell)} {replaced allow : List String} {sortOutput : Bool}
    (hs : Sound rd w) (hlock : w.lock (.store t) = some c) :
    Prog.rg (StoreExec c) (Shared rd c) (WriteStep c) (replaceLocked pd t incoming replaced sortOutput allow)
      (fun _ w' => Sound rd w') w := by
  rintro w₁ hR r w₂ ⟨hread, rfl⟩
  refine ⟨.calm (.refl _), ?_⟩
  cases r with
  | error e => exact hR.sound hs
  | ok evicted =>
    cases evicted with
    | true => exact hR.sound hs
    | false =>
      have hno : w₂.tombstones (.store t) = none := by
        have h := hread false rfl
        exact Option.not_isSome_iff_eq_none.1 (by rw [← h]; exact Bool.false_ne_true)
      apply publishes_rg _ ⟨hR.sound hs, hR.lock _ hlock, hno⟩
      apply (calls_ask (.inl trivial)).bind
      intro beforeCount
      apply Prog.Calls.ite (Prog.calls_ret _)
      apply (applyShrinkGuard_calls.mono (fun _ => .inl)).bind
      intro guarded
      apply Prog.Calls.ite (Prog.calls_ret _)
      apply (calls_ask (.inl trivial)).bind
      intro there
      apply Prog.Calls.bind (.ite (calls_ask (.inl trivial)) (Prog.calls_ret _))
      intro _
      apply Prog.Calls.bind (.ite (Prog.calls_ret _) (calls_ask (.inl trivial)))
      exact fun _ => stageAndClean_calls

theorem requireWritable_keeps : WritesBeside rd c (requireWritable t : Call Cell Unit) := by
  apply WritesBeside.quiet
  apply (calls_ask trivial).bind
  exact fun evicted => .ite trivial trivial

/-- The locked section of a write. -/
theorem withLock_keeps {body : Call Cell α}
    (h : ∀ w : Disk Caller Bytes, Sound rd w → w.lock (.store t) = some c →
      Prog.rg (StoreExec c) (Shared rd c) (WriteStep c) body (fun _ w' => Sound rd w') w) :
    WritesBeside rd c (withLock t body) := by
  intro w hs
  have hunlock : ∀ w : Disk Caller Bytes, Sound rd w →
      Prog.rg (StoreExec c) (Shared rd c) (WriteStep c) (ask (.unlock t) : Call Cell Unit) (fun _ w' => Sound rd w') w := by
    rintro w hs w₁ hR r w₂ rfl
    exact ⟨.calm .release, Prog.rg_ofExcept (Calm.sound .release (hR.sound hs))⟩
  intro w₁ hR r w₂ hop
  have hs₁ := hR.sound hs
  cases r with
  | error e =>
    cases hop
    exact ⟨.calm (.refl _), hs₁⟩
  | ok u =>
    have hlock : w₂.lock (.store t) = some c := by
      rw [hop.2]
      exact Function.update_self ..
    refine ⟨.calm (.takes hop), ?_⟩
    apply Prog.rg_attempt _ (h w₂ (Calm.sound (.takes hop) hs₁) hlock)
    intro o w₃ hs₃
    cases o with
    | ok a =>
      apply Prog.rg_bind _ (hunlock w₃ hs₃)
      · exact fun _ _ hs₄ => hs₄
      · exact fun _ _ hs₄ => hs₄
    | error e =>
      apply Prog.rg_attempt _ (hunlock w₃ hs₃)
      exact fun _ _ hs₄ => hs₄

theorem boundedSymbolReplace_keeps {incoming : Option (Frame Cell)} {replaced allow : List String} {sortOutput : Bool} :
    WritesBeside rd c (boundedSymbolReplace pd t incoming replaced sortOutput allow) := by
  apply requireWritable_keeps.bind
  intro _
  exact withLock_keeps (fun w hs hlock => replaceLocked_rg hs hlock)

theorem writeEmpty_keeps {k : Layout Cell} {df : Option (Frame Cell)} {session : String} {coverage : Option Coverage}
    {allow : List String} : WritesBeside rd c (writeEmpty pd k t df session coverage allow) := by
  unfold writeEmpty
  cases coverage with
  | none => exact WritesBeside.quiet (calls_ask trivial)
  | some coverage =>
    dsimp only
    split_ifs
    · exact WritesBeside.quiet (calls_ask trivial)
    · exact boundedSymbolReplace_keeps

theorem writeRows_keeps {k : Layout Cell} {df : Frame Cell} {snapshotDate session : String} {coverage : Option Coverage}
    {allow : List String} : WritesBeside rd c (writeRows pd k t df snapshotDate session coverage allow) := by
  apply (WritesBeside.quiet (Prog.calls_ofExcept _)).bind
  intro symbols
  apply (WritesBeside.quiet (Prog.calls_ofExcept _)).bind
  intro rows
  apply WritesBeside.bind
  · apply WritesBeside.quiet
    cases coverage with
    | none =>
      apply (calls_ask trivial).bind
      exact fun there => (Prog.Calls.ite checkLegacyUnchanged_calls (Prog.calls_ret _)).bind (fun _ => trivial)
    | some coverage => exact (certifyAll_calls _).bind (fun _ => trivial)
  · intro replaced
    apply boundedSymbolReplace_keeps.bind
    intro total
    apply WritesBeside.quiet
    exact (Prog.Calls.ite (calls_ask trivial) (Prog.calls_ret _)).bind (fun _ => trivial)

theorem writePartition_keeps {k : Layout Cell} {args : WriteArgs Cell} :
    WritesBeside rd c (writePartition pd k t args) := by
  apply (WritesBeside.quiet (Prog.calls_ofExcept _)).bind
  intro _
  apply (WritesBeside.quiet (Prog.calls_ofExcept _)).bind
  intro _
  apply requireWritable_keeps.bind
  intro _
  cases args.df with
  | none => exact writeEmpty_keeps
  | some df =>
    dsimp only
    split_ifs
    · exact writeEmpty_keeps
    · exact writeRows_keeps

theorem program_keeps [DecidableEq Cell] (call : Write Cell) : WritesBeside rd c (call.program pd) := by
  cases call with
  | bars m args => exact writePartition_keeps
  | ticks args => exact writePartition_keeps

/-- **A write keeps to its steps**, whatever the others do in between. -/
theorem program_writes [DecidableEq Cell] (call : Write Cell) : Writes rd c (call.program pd) := (program_keeps call).writes

theorem removeIntradaySymbols_keeps {m : Int} {snapshotDate session : String} {symbols : List String} :
    WritesBeside rd c (removeIntradaySymbols pd m snapshotDate session symbols) := by
  apply requireWritable_keeps.bind
  intro _
  split_ifs
  · apply WritesBeside.quiet
    exact calls_ask trivial
  · apply WritesBeside.bind
    · apply WritesBeside.quiet
      exact calls_ask trivial
    · intro there
      split_ifs
      · exact boundedSymbolReplace_keeps
      · apply WritesBeside.quiet
        exact calls_ask trivial

theorem removeIntradaySymbols_writes {m : Int} {snapshotDate session : String} {symbols : List String} :
    Writes rd c (removeIntradaySymbols pd m snapshotDate session symbols) := removeIntradaySymbols_keeps.writes

end writes

/-! ## All of them at once -/

section host

variable [DecidableEq Caller] {rd : Reader Bytes} {pd : Pandas Cell} {c : Caller} {w : Disk Caller Bytes}

theorem writeKisAdjustedPartition_keeps {p : Partition} {checked : Except Exn Nat} (hs : Sound rd w) :
    Prog.rg (AdjustExec c p) (Shared rd c) (WriteStep c) (writeKisAdjustedPartition checked) (fun _ w' => Sound rd w') w := by
  have hunlock : ∀ w : Disk Caller Bytes, Sound rd w →
      Prog.rg (AdjustExec c p) (Shared rd c) (WriteStep c) AdjustOp.unlock.ask (fun _ w' => Sound rd w') w := by
    rintro w hs w₁ hR r w₂ rfl
    exact ⟨.calm .release, Prog.rg_ofExcept (Calm.sound .release (hR.sound hs))⟩
  have hpublish : ∀ w : Disk Caller Bytes, Cleanly rd c p w →
      Prog.rg (AdjustExec c p) (Shared rd c) (WriteStep c) AdjustOp.publish.ask (fun _ w' => Sound rd w') w := by
    intro w hw w₁ hR r w₂ hop
    cases r with
    | error e =>
      cases hop
      exact ⟨.calm (.refl _), hR.sound hw.sound⟩
    | ok u =>
      obtain ⟨b, rfl⟩ := hop
      exact ⟨((hw.rely hR).put (some b)).1, ((hw.rely hR).put (some b)).2.sound⟩
  apply Prog.rg_bind (fun _ w' => Sound rd w') (Prog.rg_ofExcept hs)
  · intro rows w hs
    split_ifs
    · exact hs
    · intro w₁ hR r w₂ hop
      have hs₁ := hR.sound hs
      cases r with
      | error e =>
        cases hop
        exact ⟨.calm (.refl _), hs₁⟩
      | ok u =>
        have hlock : w₂.lock p = some c := by
          rw [hop.2]
          exact Function.update_self ..
        refine ⟨.calm (.takes hop), ?_⟩
        apply Prog.rg_attempt (fun _ w' => Sound rd w')
        · rintro w₃ hR₃ r w₄ ⟨hread, rfl⟩
          have hs₃ := hR₃.sound (Calm.sound (.takes hop) hs₁)
          refine ⟨.calm (.refl _), ?_⟩
          cases r with
          | error e => exact hs₃
          | ok evicted =>
            cases evicted with
            | true => exact hs₃
            | false =>
              have hno : w₄.tombstones p = none := by
                have h := hread false rfl
                exact Option.not_isSome_iff_eq_none.1 (by rw [← h]; exact Bool.false_ne_true)
              rintro w₅ hR₅ r w₆ rfl
              have hw₆ : Cleanly rd c p w₆ := Cleanly.rely ⟨hs₃, hR₃.lock p hlock, hno⟩ hR₅
              refine ⟨.calm (.refl _), ?_⟩
              cases r with
              | error e => exact hw₆.sound
              | ok u => exact hpublish w₆ hw₆
        · intro o w₃ hs₃
          cases o with
          | ok a =>
            apply Prog.rg_bind _ (hunlock w₃ hs₃)
            · exact fun _ _ hs₄ => hs₄
            · exact fun _ _ hs₄ => hs₄
          | error e =>
            apply Prog.rg_attempt _ (hunlock w₃ hs₃)
            exact fun _ _ hs₄ => hs₄
  · exact fun _ _ hs' => hs'

theorem writeKisAdjustedPartition_rg {p : Partition} {checked : Except Exn Nat} (hs : Sound rd w) :
    Prog.rg (AdjustExec c p) (Rely rd c) (WriteStep c) (writeKisAdjustedPartition checked) (fun _ w' => Sound rd w') w :=
  Prog.rg_anti (writeKisAdjustedPartition_keeps hs) (fun _ _ hR => hR.shared)

/-- What a process asserts. -/
def Job.Asserts (rd : Reader Bytes) (c : Caller) (l : Job Cell) (w : Disk Caller Bytes) : Prop :=
  Sound rd w ∧
    match l with
    | .idle => True
    | .evicts p => Prog.rg (EvictExec rd c) (Rely rd c) (EvictStep rd c) p (fun _ w' => Sound rd w') w
    | .writes p => Prog.rg (StoreExec c) (Rely rd c) (WriteStep c) p (fun _ w' => Sound rd w') w
    | .adjusts snapshotDate session p =>
      Prog.rg (AdjustExec c (.kisAdjusted snapshotDate session)) (Rely rd c) (WriteStep c) p (fun _ w' => Sound rd w') w

/-- What a process guarantees. -/
def Job.Guarantees (rd : Reader Bytes) (c : Caller) (l : Job Cell) (w w' : Disk Caller Bytes) : Prop :=
  match l with
  | .evicts _ => EvictStep rd c w w'
  | .idle | .writes _ | .adjusts _ _ _ => WriteStep c w w'

variable [DecidableEq Cell]

theorem rely_guarantee : Threads.RelyGuarantee (Job.Step rd pd) (fun (c : Caller) => Job.Asserts rd c) (Rely rd)
    (Job.Guarantees rd) := by
  constructor
  · rintro c l w w' ⟨hs, h⟩ hR
    refine ⟨hR.sound hs, ?_⟩
    cases l with
    | idle => trivial
    | evicts p => exact Prog.rg_stable (fun _ _ _ h h' => h.trans h') (fun _ _ _ hs hR => hR.sound hs) h hR
    | writes p => exact Prog.rg_stable (fun _ _ _ h h' => h.trans h') (fun _ _ _ hs hR => hR.sound hs) h hR
    | adjusts _ _ p => exact Prog.rg_stable (fun _ _ _ h h' => h.trans h') (fun _ _ _ hs hR => hR.sound hs) h hR
  · rintro c l w l' w' ⟨hs, h⟩ hstep
    cases hstep with
    | evict args =>
      refine ⟨.calm (.refl w), hs, ?_⟩
      exact Prog.rg_mono (evictVerifiedPartitions_evicts hs) (fun _ _ h' => h'.1)
    | write call => exact ⟨.calm (.refl w), hs, program_writes call w hs⟩
    | remove => exact ⟨.calm (.refl w), hs, removeIntradaySymbols_writes w hs⟩
    | adjust => exact ⟨.calm (.refl w), hs, writeKisAdjustedPartition_rg hs⟩
    | evicts hn =>
      obtain ⟨hG, h'⟩ := Prog.rg_next Rely.refl h hn
      exact ⟨hG, hG.sound hs, h'⟩
    | writes hn =>
      obtain ⟨hG, h'⟩ := Prog.rg_next Rely.refl h hn
      exact ⟨hG, hG.sound hs, h'⟩
    | adjusts hn =>
      obtain ⟨hG, h'⟩ := Prog.rg_next Rely.refl h hn
      exact ⟨hG, hG.sound hs, h'⟩
    | gone =>
      refine ⟨?_, Calm.exit.sound hs, trivial⟩
      cases l with
      | evicts p => exact .calm .exit
      | idle | writes | adjusts => exact .calm .exit
  · intro c d l w w' hcd hG
    cases l with
    | evicts p => exact EvictStep.rely hG hcd
    | idle | writes | adjusts => exact WriteStep.rely hG hcd

omit [DecidableEq Cell] in
theorem asserts_start {s : Host Caller Cell Bytes} (h : s.Start) (c : Caller) : (s.thread c).Asserts rd c s.world := by
  obtain ⟨hidle, hno, -, -⟩ := h
  rw [hidle c]
  refine ⟨⟨fun p b t _ ht => ?_, fun p t ht => ?_⟩, trivial⟩
  · exact absurd ((hno p).symm.trans ht) (by simp)
  · exact absurd ((hno p).symm.trans ht) (by simp)

/-- A partition that may be unlinked: its bytes are those of its tombstone, and those were verified against the remote copy
the tombstone names. -/
def Evictable (rd : Reader Bytes) (w : Disk Caller Bytes) (p : Partition) : Prop :=
  ∃ b t, w.files p = some b ∧ w.tombstones p = some t ∧ t.Matches rd b ∧ t.Verified p w.listings

/-- **Eviction loses no data**: of any evictions and writers, interleaved and killed anywhere, an eviction only ever
unlinks a partition whose bytes are those of its verified tombstone, and nobody else changes a partition that has a
tombstone. -/
theorem eviction_safe {s s' : Host Caller Cell Bytes} (hs : (host rd pd).Reachable s)
    (hstep : Threads.Step (Job.Step rd pd) c s s') :
    (∀ prog, s.thread c = .evicts prog → ∀ p, s'.world.files p ≠ s.world.files p →
      s'.world.files p = none ∧ Evictable rd s.world p) ∧
    ((∀ prog, s.thread c ≠ .evicts prog) → ∀ p, s'.world.files p ≠ s.world.files p → s.world.tombstones p = none) := by
  have hG := rely_guarantee.guarantee (fun s h => asserts_start h) hs hstep
  have hsound := (rely_guarantee.always (fun s h => asserts_start h) s hs c).1
  constructor
  · intro prog hprog p hp
    rw [hprog] at hG
    have hG' : EvictStep rd c s.world s'.world := hG
    generalize s'.world = w' at hG' hp ⊢
    cases hG' with
    | calm h => exact absurd (congrFun h.files p) hp
    | bury => exact absurd rfl hp
    | unlink q hlock hthere hburied =>
      by_cases hq : p = q
      · subst hq
        obtain ⟨b, hb⟩ := Option.isSome_iff_exists.1 hthere
        obtain ⟨t, ht⟩ := Option.isSome_iff_exists.1 hburied
        exact ⟨Disk.put_self .., b, t, hb, ht, hsound.bytes p b t hb ht, hsound.verified p t ht⟩
      · exact absurd (Disk.put_of_ne hq) hp
  · intro hnot p hp
    have hG' : WriteStep c s.world s'.world := by
      cases hl : s.thread c with
      | evicts prog => exact absurd hl (hnot prog)
      | idle | writes | adjusts =>
        rw [hl] at hG
        exact hG
    generalize s'.world = w' at hG' hp
    cases hG' with
    | calm h => exact absurd (congrFun h.files p) hp
    | publish q file hlock hno =>
      by_cases hq : p = q
      · rw [hq]
        exact hno
      · exact absurd (Disk.put_of_ne hq) hp

/-! ## The locks -/

/-- What a call of `c` does to the lock of a partition. -/
inductive LockStep (p : Partition) (c : Caller) (w w' : Disk Caller Bytes) : Prop where
  | same (h : w'.lock p = w.lock p)
  | takes (h : w.lock p = none) (h' : w'.lock p = some c)
  | lets (h : w.lock p = some c) (h' : w'.lock p = none)

section lock

variable {p q : Partition} {w' : Disk Caller Bytes}

omit [DecidableEq Caller] [DecidableEq Cell] in
theorem LockStep.of_takes (h : w.Takes c q w') : LockStep p c w w' := by
  obtain ⟨hfree, rfl⟩ := h
  by_cases hp : p = q
  · subst hp
    exact .takes hfree (Function.update_self ..)
  · exact .same (Function.update_of_ne hp ..)

omit [DecidableEq Cell] in
theorem LockStep.of_release : LockStep p c w (w.release c q) := by
  by_cases hp : p = q ∧ w.lock q = some c
  · exact .lets (by rw [hp.1]; exact hp.2) (if_pos hp)
  · exact .same (if_neg hp)

omit [DecidableEq Cell] in
theorem LockStep.of_exit : LockStep p c w (w.exit c) := by
  by_cases hp : w.lock p = some c
  · exact .lets hp (if_pos hp)
  · exact .same (if_neg hp)

omit [DecidableEq Cell] in
theorem EvictExec.lockStep {op : EvictOp} {r : op.Ret} (h : EvictExec rd c op w r w') : LockStep p c w w' := by
  cases op with
  | clock | isDir | candidates | now | stageTombstone | syncDir => exact .same (by rw [show w' = w from h])
  | md5 | size | rowsAndSymbols | readTombstone | tombstoneExists => exact .same (by rw [show w' = w from h.2])
  | listMonth dir =>
    cases r with
    | error e => exact .same (by rw [show w' = w from h])
    | ok month =>
      cases month with
      | none => exact .same (by rw [show w' = w from h])
      | some month => exact .same (by rw [show w' = _ from h])
  | lock q =>
    cases r with
    | error e => exact .same (by rw [show w' = w from h])
    | ok u => exact .of_takes h
  | unlock q => exact (show w' = w.release c q from h) ▸ .of_release
  | publishTombstone q t =>
    cases r with
    | error e => exact .same (by rw [show w' = w from h])
    | ok u => exact .same (by rw [show w' = _ from h])
  | unlink q =>
    cases r with
    | error e => exact .same (by rw [show w' = w from h])
    | ok u =>
      obtain ⟨-, rfl⟩ := h
      exact .same rfl

omit [DecidableEq Cell] in
theorem StoreExec.lockStep {op : Op Cell} {r : op.Ret} (h : StoreExec c op w r w') : LockStep p c w w' := by
  cases op with
  | tombstone => exact .same (by rw [show w' = w from h.2])
  | lock t =>
    cases r with
    | error e => exact .same (by rw [show w' = w from h])
    | ok u => exact .of_takes h
  | unlock t => exact (show w' = w.release c (.store t) from h) ▸ .of_release
  | replace t =>
    cases r with
    | error e => exact .same (by rw [show w' = w from h])
    | ok u =>
      obtain ⟨b, rfl⟩ := h
      exact .same rfl
  | unlink t =>
    cases r with
    | error e => exact .same (by rw [show w' = w from h])
    | ok u => exact .same (by rw [show w' = w.put (.store t) none from h]; rfl)
  | isThere | rowCount | read | preserve | quarantine | backup | convert | create | append | close | stagedCount
  | unstage | logCoverage => exact .same (by rw [show w' = w from h])

omit [DecidableEq Cell] in
theorem AdjustExec.lockStep {op : AdjustOp} {r : Except Exn op.Ans} (h : AdjustExec c q op w r w') : LockStep p c w w' := by
  cases op with
  | tombstone => exact .same (by rw [show w' = w from h.2])
  | readExisting => exact .same (by rw [show w' = w from h])
  | lock =>
    cases r with
    | error e => exact .same (by rw [show w' = w from h])
    | ok u => exact .of_takes h
  | unlock => exact (show w' = w.release c q from h) ▸ .of_release
  | publish =>
    cases r with
    | error e => exact .same (by rw [show w' = w from h])
    | ok u =>
      obtain ⟨b, rfl⟩ := h
      exact .same rfl

theorem Job.Step.lockStep {l l' : Job Cell} (h : Job.Step rd pd c l w l' w') : LockStep p c w w' := by
  cases h with
  | evict | write | remove | adjust => exact .same rfl
  | evicts hn =>
    cases hn with
    | call r hop => exact hop.lockStep
  | writes hn =>
    cases hn with
    | call r hop => exact hop.lockStep
  | adjusts hn =>
    cases hn with
    | call r hop => exact hop.lockStep
  | gone => exact .of_exit

end lock

/-- **The lock of a partition is a mutex**, as `exclusive_file_lock` makes it one. -/
theorem refines_mutex (p : Partition) :
    (host rd pd).Refines (Mutex.system Caller) (fun s : Host Caller Cell Bytes => {c | s.world.lock p = some c}) := by
  constructor
  · rintro s ⟨-, -, hfree, -⟩
    change {c | s.world.lock p = some c} = ∅
    rw [hfree p]
    simp
  · rintro s s' - ⟨c, hs⟩
    cases hs.own.lockStep (p := p) with
    | same h =>
      left
      rw [h]
    | takes h h' =>
      right
      have hempty : {d | s.world.lock p = some d} = ∅ := by simp [h]
      have hone : {d | s'.world.lock p = some d} = {c} := by
        ext d
        simp [h', eq_comm]
      rw [hempty, hone]
      exact .enter c
    | lets h h' =>
      right
      have hone : {d | s'.world.lock p = some d} = {d | s.world.lock p = some d} \ {c} := by
        ext d
        simp [h, h']
      rw [hone]
      exact .leave _ c

end host

/-! ## One partition -/

section answers

variable [DecidableEq Caller]

/-- A file system that answers a process, for a partition whose remote copy is as it is. -/
def evictAnswerTo (c : Caller) (rd : Reader Bytes) (p : Partition) (month : RemoteMonth) :
    (op : EvictOp) → Disk Caller Bytes → op.Ret × Disk Caller Bytes
  | .clock, w => (.ok 0, w)
  | .isDir _, w => (.ok true, w)
  | .candidates _ _, w => (.ok [p], w)
  | .md5 q, w =>
    match w.files q with
    | some b => (.ok (rd.md5 b), w)
    | none => (.error (.os "no such file"), w)
  | .size q, w =>
    match w.files q with
    | some b => (.ok (rd.size b), w)
    | none => (.error (.os "no such file"), w)
  | .rowsAndSymbols q, w =>
    match w.files q with
    | some b => (.ok (rd.rowsAndSymbols b), w)
    | none => (.error (.os "no such file"), w)
  | .readTombstone q, w => (.ok (w.tombstones q), w)
  | .tombstoneExists q, w => (.ok (w.tombstones q).isSome, w)
  | .listMonth dir, w => (.ok (some month), { w with listings := (dir, month) :: w.listings })
  | .lock q, w =>
    if w.lock q = none then (.ok (), { w with lock := Function.update w.lock q (some c) })
    else (.error (.os "timed out acquiring eviction lock"), w)
  | .unlock q, w => (.ok (), w.release c q)
  | .now, w => (.ok "2026-09-01T00:00:00+00:00", w)
  | .stageTombstone _ _, w => (.ok (), w)
  | .publishTombstone q t, w => (.ok (), { w with tombstones := Function.update w.tombstones q (some t) })
  | .syncDir _, w => (.ok (), w)
  | .unlink q, w => if (w.files q).isSome then (.ok (), w.put q none) else (.error (.os "no such file"), w)

theorem evictAnswerTo_exec (c : Caller) (rd : Reader Bytes) (p : Partition) (month : RemoteMonth) (op : EvictOp)
    (w : Disk Caller Bytes) :
    EvictExec rd c op w (evictAnswerTo c rd p month op w).1 (evictAnswerTo c rd p month op w).2 := by
  cases op with
  | clock | isDir | candidates | listMonth | unlock | now | stageTombstone | publishTombstone | syncDir => rfl
  | readTombstone q | tombstoneExists q =>
    refine ⟨fun a ha => ?_, rfl⟩
    cases ha
    rfl
  | md5 q | size q | rowsAndSymbols q =>
    cases hb : w.files q with
    | none =>
      simp only [evictAnswerTo, hb]
      exact ⟨fun a ha => (by cases ha), rfl⟩
    | some b =>
      simp only [evictAnswerTo, hb]
      refine ⟨fun a ha => ⟨b, hb, ?_⟩, rfl⟩
      cases ha
      rfl
  | lock q =>
    by_cases h : w.lock q = none
    · simp only [evictAnswerTo, if_pos h]
      exact ⟨h, rfl⟩
    · simp only [evictAnswerTo, if_neg h]
      rfl
  | unlink q =>
    by_cases h : (w.files q).isSome
    · simp only [evictAnswerTo, if_pos h]
      exact ⟨h, rfl⟩
    · simp only [evictAnswerTo, if_neg h]
      rfl

end answers

/-- The same for the one process of a host. -/
def evictAnswer (rd : Reader String) (p : Partition) (month : RemoteMonth) :
    (op : EvictOp) → Disk Unit String → op.Ret × Disk Unit String :=
  evictAnswerTo () rd p month

theorem evictAnswer_exec (rd : Reader String) (p : Partition) (month : RemoteMonth) (op : EvictOp) (w : Disk Unit String) :
    EvictExec rd () op w (evictAnswer rd p month op w).1 (evictAnswer rd p month op w).2 :=
  evictAnswerTo_exec () rd p month op w

namespace Sample

/-- The hash of a file is its text. -/
def reader : Reader String := ⟨id, String.length, fun _ => (1, ["005930"])⟩

def part : Partition := .store (.ticks "2026-03-02" "regular")

/-- The month as the remote lists it: the file is there. -/
def month : RemoteMonth := ⟨[("2026-03-02.parquet", "ticks")], [("2026-03-02.parquet", 5)]⟩

/-- One partition, nobody holds its lock. -/
def disk : Disk Unit String := ⟨fun p => if p = part then some "ticks" else none, fun _ => none, fun _ => none, []⟩

def args : EvictArgs := ⟨20700, [⟨["intraday/ticks"], 60⟩], "gdrive:data/history", false, none, 10⟩

/-- The host after some calls of the eviction. -/
def evictedAfter (n : Nat) : Host Unit (String × Option Rat) String where
  world := (Prog.afterCalls (evictAnswer reader part month) n (evictVerifiedPartitions args) disk).2
  thread := fun _ => .evicts (Prog.afterCalls (evictAnswer reader part month) n (evictVerifiedPartitions args) disk).1

theorem evictedAfter_step {n : Nat}
    (h : (Prog.afterCalls (evictAnswer reader part month) n (evictVerifiedPartitions args) disk).1.isCall = true) :
    Threads.Step (Job.Step reader textCells) () (evictedAfter n) (evictedAfter (n + 1)) :=
  ⟨.evicts (Prog.next_afterCalls (evictAnswer_exec reader part month) h), fun _ hd => absurd rfl hd⟩

theorem evictedAfter_reachable : ∀ n : Nat,
    (∀ m < n, (Prog.afterCalls (evictAnswer reader part month) m (evictVerifiedPartitions args) disk).1.isCall = true) →
      (host reader textCells).Reachable (evictedAfter n)
  | 0, _ => by
    have hstart : (host reader textCells).Reachable ⟨disk, fun _ => .idle⟩ :=
      .start ⟨fun _ => rfl, fun _ => rfl, fun _ => rfl, rfl⟩
    exact hstart.step ⟨(), .evict args disk, fun _ hd => absurd rfl hd⟩
  | n + 1, h =>
    (evictedAfter_reachable n (fun m hm => h m (Nat.lt_succ_of_lt hm))).step ⟨(), evictedAfter_step (h n (Nat.lt_succ_self n))⟩

end Sample

/-- The fifteenth call unlinks the partition. -/
theorem eviction_safe_unlink :
    (Sample.evictedAfter 15).world.files Sample.part ≠ (Sample.evictedAfter 14).world.files Sample.part ∧
      (Sample.evictedAfter 15).world.files Sample.part = none ∧
      Evictable Sample.reader (Sample.evictedAfter 14).world Sample.part := by
  have hcalls : ∀ m < 15, (Prog.afterCalls (evictAnswer Sample.reader Sample.part Sample.month) m
      (evictVerifiedPartitions Sample.args) Sample.disk).1.isCall = true := by decide +kernel
  have hchanged : (Sample.evictedAfter 15).world.files Sample.part ≠ (Sample.evictedAfter 14).world.files Sample.part := by
    decide +kernel
  have hsafe := eviction_safe (Sample.evictedAfter_reachable 14 (fun m hm => hcalls m (Nat.lt_succ_of_lt hm)))
    (Sample.evictedAfter_step (hcalls 14 (Nat.lt_succ_self 14)))
  exact ⟨hchanged, hsafe.1 _ rfl Sample.part hchanged⟩

end Intraday
