import KClosingAlpha.Capture.Store
/-!
# Publish — that publishers only ever add, and what is known of what they add

A publisher that holds the lock of a path may count on what is there, and on everything published staying (`Rely`).  It
adds a file only where there is none; `Φ` is what is known of an added file, and is no more than what was verified and
published before it (`Publish.Fits`).  Whatever else happens, what is published keeps its bytes.
-/
namespace Capture

variable {Cell Bytes Caller : Type}

/-! ## What stays -/

/-- Every path keeps its bytes. -/
def Keeps (files files' : Files Bytes) : Prop := ∀ p b, files.lookup p = some b → files'.lookup p = some b

/-- What a publisher may count on while the others run. -/
structure Rely (c : Caller) (w w' : Disk Caller Bytes) : Prop where
  keeps : Keeps w.files w'.files
  lock : ∀ p, w.lock p = some c → w'.lock p = some c
  held : ∀ p, w.lock p = some c → w'.files.lookup p = w.files.lookup p

/-- Locks are taken and let go of. -/
structure Calm (c : Caller) (w w' : Disk Caller Bytes) : Prop where
  files : w'.files = w.files
  lock : ∀ p d, d ≠ c → w.lock p = some d → w'.lock p = some d

/-- A file is added under the lock of its path, where there is none. -/
inductive PublishStep (Φ : Files Bytes → Path → Bytes → Prop) (c : Caller) (w : Disk Caller Bytes) :
    Disk Caller Bytes → Prop where
  | calm {w' : Disk Caller Bytes} (h : Calm c w w') : PublishStep Φ c w w'
  | adds (p : Path) (b : Bytes) (hlock : w.lock p = some c) (hno : w.files.lookup p = none) (hΦ : Φ w.files p b) :
      PublishStep Φ c w { w with files := w.files ++ [(p, b)] }

section steps

variable {Φ : Files Bytes → Path → Bytes → Prop} {c d : Caller} {w w₁ w' : Disk Caller Bytes} {p q : Path} {b : Bytes}
  {files files₁ files' : Files Bytes}

theorem Keeps.refl (files : Files Bytes) : Keeps files files := fun _ _ h => h

theorem Keeps.trans (h : Keeps files files₁) (h' : Keeps files₁ files') : Keeps files files' :=
  fun p b hp => h' p b (h p b hp)

theorem keeps_append (added : Files Bytes) : Keeps files (files ++ added) := by
  intro p b hp
  rw [List.lookup_append, hp]
  rfl

theorem lookup_append_of_ne (h : q ≠ p) : (files ++ [(p, b)]).lookup q = files.lookup q := by
  have hq : (q == p) = false := by simpa using h
  rw [List.lookup_append, List.lookup_cons, hq, List.lookup_nil, Option.or_none]

theorem lookup_append_self (h : files.lookup p = none) : (files ++ [(p, b)]).lookup p = some b := by
  rw [List.lookup_append, h, List.lookup_cons_self, Option.none_or]

theorem Rely.refl (w : Disk Caller Bytes) : Rely c w w := ⟨Keeps.refl _, fun _ h => h, fun _ _ => rfl⟩

theorem Rely.trans (h : Rely c w w₁) (h' : Rely c w₁ w') : Rely c w w' where
  keeps := h.keeps.trans h'.keeps
  lock p hp := h'.lock p (h.lock p hp)
  held p hp := (h'.held p (h.lock p hp)).trans (h.held p hp)

theorem Calm.refl (w : Disk Caller Bytes) : Calm c w w := ⟨rfl, fun _ _ _ h => h⟩

theorem Calm.takes [DecidableEq Caller] (h : w.Takes c p w') : Calm c w w' := by
  obtain ⟨hfree, rfl⟩ := h
  refine ⟨rfl, fun q d _ hq => ?_⟩
  have hne : q ≠ p := by
    rintro rfl
    rw [hfree] at hq
    cases hq
  exact (Function.update_of_ne hne _ _).trans hq

theorem Calm.release [DecidableEq Caller] : Calm c w (w.release c p) := by
  refine ⟨rfl, fun q d hd hq => ?_⟩
  have hnot : ¬ (q = p ∧ w.lock p = some c) := by
    rintro ⟨rfl, hp⟩
    exact hd (Option.some.inj (hq.symm.trans hp))
  exact (if_neg hnot).trans hq

theorem Calm.exit [DecidableEq Caller] : Calm c w (w.exit c) := by
  refine ⟨rfl, fun q d hd hq => ?_⟩
  have hnot : w.lock q ≠ some c := fun hp => hd (Option.some.inj (hq.symm.trans hp))
  exact (if_neg hnot).trans hq

theorem PublishStep.keeps (h : PublishStep Φ c w w') : Keeps w.files w'.files := by
  cases h with
  | calm h =>
    rw [h.files]
    exact .refl _
  | adds p b hlock hno hΦ => exact keeps_append _

theorem PublishStep.rely (h : PublishStep Φ c w w') (hcd : c ≠ d) : Rely d w w' := by
  refine ⟨h.keeps, ?_, ?_⟩
  · cases h with
    | calm h => exact fun p hp => h.lock p d hcd.symm hp
    | adds p b hlock hno hΦ => exact fun _ hq => hq
  · intro q hq
    cases h with
    | calm h => rw [h.files]
    | adds p b hlock hno hΦ =>
      apply lookup_append_of_ne
      rintro rfl
      exact hcd (Option.some.inj (hlock.symm.trans hq))

/-- Where there is no file, one is added. -/
theorem putFile_of_none : ∀ {files : Files Bytes}, files.lookup p = none → putFile p b files = files ++ [(p, b)]
  | [], _ => rfl
  | (q, old) :: files, h => by
    have hq : q ≠ p := by
      rintro rfl
      rw [List.lookup_cons_self] at h
      cases h
    have hp : (p == q) = false := by simpa using hq.symm
    rw [List.lookup_cons, hp] at h
    rw [putFile, if_neg hq, putFile_of_none h]
    rfl

end steps

/-! ## The publishers keep to it -/

/-- Evidence that is there as its reference says. -/
def Verified (rt : Runtime Cell Bytes) (ref : ArtifactRef) (files : Files Bytes) : Prop :=
  ∃ data, files.lookup ref.path = some data ∧ checkRef rt ref (some data) = .ok data

/-- Every clock that is known is at or before `t`. -/
def ClocksBy (rt : Runtime Cell Bytes) (t : Int) (f : Frame Cell) : Prop :=
  ∃ instants, stamps rt f = .ok instants ∧ ∀ i ∈ instants.filterMap id, i ≤ t

/-- The one artifact of a decision is its input, which it came after. -/
def Decided (rt : Runtime Cell Bytes) (m : Manifest) (files : Files Bytes) : Prop :=
  ∃ ref data, m.artifacts = [ref] ∧ files.lookup ref.path = some data ∧
    ∀ f, rt.readParquet data = .ok f → ClocksBy rt m.completedAt f

theorem Verified.keeps {rt : Runtime Cell Bytes} {ref : ArtifactRef} {files files' : Files Bytes} (h : Verified rt ref files)
    (hk : Keeps files files') : Verified rt ref files' := by
  obtain ⟨data, hdata, hcheck⟩ := h
  exact ⟨data, hk _ _ hdata, hcheck⟩

theorem Decided.keeps {rt : Runtime Cell Bytes} {m : Manifest} {files files' : Files Bytes} (h : Decided rt m files)
    (hk : Keeps files files') : Decided rt m files' := by
  obtain ⟨ref, data, href, hdata, hclocks⟩ := h
  exact ⟨ref, data, href, hk _ _ hdata, hclocks⟩

section publishes

variable [DecidableEq Caller] {Φ : Files Bytes → Path → Bytes → Prop} {c : Caller} {w : Disk Caller Bytes} {p : Path}
  {α β : Type} {data : Bytes} {rows : Option Nat}

/-- Among the others, every call is a publisher's step, and a value satisfies `φ`. -/
abbrev Publishes (Φ : Files Bytes → Path → Bytes → Prop) (c : Caller) (prog : StoreCall Bytes α)
    (φ : α → Disk Caller Bytes → Prop) (w : Disk Caller Bytes) : Prop :=
  Prog.among (StoreExec c) (Rely c) (PublishStep Φ c) (fun _ => True) prog φ w

theorem Publishes.ask {op : StoreOp Bytes} {φ : op.Ans → Disk Caller Bytes → Prop}
    (h : ∀ w₁ r w₂, Rely c w w₁ → StoreExec c op w₁ r w₂ → PublishStep Φ c w₁ w₂ ∧ ∀ a, r = .ok a → φ a w₂) :
    Publishes Φ c op.ask φ w := by
  intro w₁ hR r w₂ hop
  obtain ⟨hstep, hφ⟩ := h w₁ r w₂ hR hop
  exact ⟨hstep, Prog.among_ofExcept trivial hφ⟩

/-- What was published before is there afterwards. -/
theorem Publishes.framed {φ : α → Disk Caller Bytes → Prop} {prog : StoreCall Bytes α} (h : Publishes Φ c prog φ w) :
    Publishes Φ c prog (fun a w' => φ a w' ∧ Keeps w.files w'.files) w := by
  have hframe := Prog.rg_frame (F := fun w' => Keeps w.files w'.files) (fun _ _ hR hF => hF.trans hR.keeps)
    (fun _ _ hG hF => hF.trans hG.keeps) h (Keeps.refl _)
  exact Prog.rg_mono hframe (fun _ _ h' => ⟨trivial, fun a ha => ⟨h'.1.2 a ha, h'.2⟩⟩)

theorem Publishes.bind {φ : α → Disk Caller Bytes → Prop} {ψ : β → Disk Caller Bytes → Prop} {prog : StoreCall Bytes α}
    {f : α → StoreCall Bytes β} (h : Publishes Φ c prog φ w)
    (hf : ∀ a w', Keeps w.files w'.files → φ a w' → Publishes Φ c (f a) ψ w') : Publishes Φ c (prog.bind f) ψ w :=
  Prog.among_bind h.framed (fun a w' _ h' => hf a w' h'.2 h'.1)

theorem Publishes.attempt {φ : α → Disk Caller Bytes → Prop} {ψ : β → Disk Caller Bytes → Prop} {prog : StoreCall Bytes α}
    {f : Except Exn α → StoreCall Bytes β} (h : Publishes Φ c prog φ w)
    (hf : ∀ o w', (∀ a, o = .ok a → φ a w') → Publishes Φ c (f o) ψ w') : Publishes Φ c (prog.attempt.bind f) ψ w :=
  Prog.among_attempt (F := fun _ => True) h (fun _ _ _ h => h) (fun _ _ _ h => h) trivial
    (fun o w' _ _ ho => hf o w' ho)

theorem Publishes.ofExcept {x : Except Exn α} {φ : α → Disk Caller Bytes → Prop} (h : ∀ a, x = .ok a → φ a w) :
    Publishes Φ c (Prog.ofExcept x) φ w := Prog.among_ofExcept trivial h

theorem lock_publishes : Publishes Φ c (StoreOp.lock p).ask (fun _ w' => w'.lock p = some c) w := by
  apply Publishes.ask
  intro w₁ r w₂ _ hop
  match r, hop with
  | .error _, hop =>
    rw [show w₂ = w₁ from hop]
    exact ⟨.calm (.refl w₁), fun a ha => by cases ha⟩
  | .ok _, hop =>
    refine ⟨.calm (Calm.takes hop), fun _ _ => ?_⟩
    rw [hop.2]
    exact Function.update_self ..

theorem unlock_publishes {q : Path} (h : w.files.lookup q = some data) :
    Publishes Φ c (StoreOp.unlock p).ask (fun _ w' => w'.files.lookup q = some data) w := by
  apply Publishes.ask
  intro w₁ r w₂ hR hop
  rw [show w₂ = w₁.release c p from hop]
  exact ⟨.calm Calm.release, fun _ _ => hR.keeps _ _ h⟩

theorem isThere_publishes (hlock : w.lock p = some c) : Publishes Φ c (StoreOp.isThere p).ask
    (fun there w' => w'.lock p = some c ∧ there = (w'.files.lookup p).isSome) w := by
  apply Publishes.ask
  rintro w₁ r w₂ hR ⟨hr, rfl⟩
  exact ⟨.calm (.refl _), fun there ha => ⟨hR.lock p hlock, hr there ha⟩⟩

theorem readBytes_publishes : Publishes Φ c (StoreOp.readBytes p).ask (fun o w' => o = w'.files.lookup p) w := by
  apply Publishes.ask
  rintro w₁ r w₂ - ⟨hr, rfl⟩
  exact ⟨.calm (.refl _), fun o ho => hr o ho⟩

theorem write_publishes (hlock : w.lock p = some c) (hno : w.files.lookup p = none)
    (hΦ : ∀ files, Keeps w.files files → Φ files p data) :
    Publishes Φ c (StoreOp.write p data).ask (fun _ w' => w'.files.lookup p = some data) w := by
  apply Publishes.ask
  intro w₁ r w₂ hR hop
  have hno₁ : w₁.files.lookup p = none := (hR.held p hlock).trans hno
  match r, hop with
  | .error _, hop =>
    rw [show w₂ = w₁ from hop]
    exact ⟨.calm (.refl w₁), fun a ha => by cases ha⟩
  | .ok _, hop =>
    rw [show w₂ = { w₁ with files := putFile p data w₁.files } from hop, putFile_of_none hno₁]
    exact ⟨.adds p data (hR.lock p hlock) hno₁ (hΦ _ hR.keeps), fun _ _ => lookup_append_self hno₁⟩

variable [DecidableEq Bytes] (rt : Runtime Cell Bytes) {rel : Path}

/-- The bytes that were asked for are there, whoever published them. -/
theorem publishLocked_publishes (hlock : w.lock p = some c) (hΦ : ∀ files, Keeps w.files files → Φ files p data) :
    Publishes Φ c (publishLocked rt rel p data rows)
      (fun ref w' => ref = refOf rt rel data rows ∧ w'.files.lookup p = some data) w := by
  apply Publishes.bind (isThere_publishes hlock)
  rintro there w₁ hk₁ ⟨hlock₁, hthere⟩
  split_ifs with h
  · apply Publishes.bind readBytes_publishes
    intro existing w₂ _ hexisting
    match existing, hexisting with
    | none, _ => exact Prog.among_raise trivial
    | some existing, hexisting =>
      dsimp only
      split_ifs with heq
      · subst heq
        exact Prog.among_ret trivial ⟨rfl, hexisting.symm⟩
      · exact Prog.among_raise trivial
  · have hno : w₁.files.lookup p = none := by simpa [h] using hthere.symm
    apply Publishes.bind (write_publishes hlock₁ hno (fun files hk => hΦ files (hk₁.trans hk)))
    exact fun _ w₂ _ hdata => Prog.among_ret trivial ⟨rfl, hdata⟩

theorem publishBytes_publishes (hΦ : ∀ files, Keeps w.files files → Φ files p data) :
    Publishes Φ c (publishBytes rt rel p data rows)
      (fun ref w' => ref = refOf rt rel data rows ∧ w'.files.lookup p = some data) w := by
  unfold publishBytes
  split_ifs
  · exact Prog.among_raise trivial
  apply Publishes.bind lock_publishes
  intro _ w₁ hk₁ hlock
  apply Publishes.attempt (publishLocked_publishes rt hlock (fun files hk => hΦ files (hk₁.trans hk)))
  intro o w₂ ho
  cases o with
  | ok ref =>
    obtain ⟨href, hdata⟩ := ho ref rfl
    apply Publishes.bind (unlock_publishes hdata)
    exact fun _ w₃ _ hdata' => Prog.among_ret trivial ⟨href, hdata'⟩
  | error e =>
    apply Publishes.attempt (φ := fun _ _ => True)
    · apply Publishes.ask
      intro w₃ r w₄ _ hop
      rw [show w₄ = w₃.release c p from hop]
      exact ⟨.calm Calm.release, fun _ _ => trivial⟩
    · exact fun _ _ _ => Prog.among_raise trivial

omit [DecidableEq Bytes] in
theorem checkRef_eq_ok {ref : ArtifactRef} {o : Option Bytes} (h : checkRef rt ref o = .ok data) : o = some data := by
  cases o with
  | none => cases h
  | some existing =>
    unfold checkRef at h
    dsimp only at h
    split_ifs at h
    rw [Except.ok.inj h]

omit [DecidableEq Bytes] in
/-- All evidence is there when it was read, and stays. -/
theorem verifyRefs_publishes : ∀ (refs : List ArtifactRef) (w : Disk Caller Bytes),
    Publishes Φ c (verifyRefs rt refs) (fun _ w' => ∀ ref ∈ refs, Verified rt ref w'.files) w
  | [], w => Prog.among_ret trivial (fun _ h => by cases h)
  | ref :: refs, w => by
    apply Publishes.bind readBytes_publishes
    intro data w₁ _ hdata
    apply Publishes.bind (φ := fun _ w' => Verified rt ref w'.files)
    · apply Publishes.ofExcept
      intro found hfound
      have hsome := checkRef_eq_ok rt hfound
      exact ⟨found, hdata.symm.trans hsome, by rw [← hsome]; exact hfound⟩
    · intro _ w₂ _ href
      apply Prog.among_mono (verifyRefs_publishes refs w₂).framed
      exact fun _ w' h => List.forall_mem_cons.2 ⟨href.keeps h.2, h.1⟩

theorem publishManifest_publishes {m : Manifest}
    (hΦ : ∀ files, Keeps w.files files → (∀ ref ∈ m.refs, Verified rt ref files) → Φ files m.path (rt.dump m)) :
    Publishes Φ c (publishManifest rt m) (fun _ _ => True) w := by
  unfold publishManifest
  split_ifs
  · exact Prog.among_raise trivial
  apply Publishes.bind (verifyRefs_publishes rt m.refs w)
  intro _ w₁ hk₁ hrefs
  refine Prog.among_mono (publishBytes_publishes rt fun files hk => ?_) (fun _ _ _ => trivial)
  exact hΦ files (hk₁.trans hk) (fun ref href => (hrefs ref href).keeps hk)

/-! ### A decision -/

omit [DecidableEq Caller] [DecidableEq Bytes] in
/-- The identity of the run leaves the clocks. -/
theorem clockCells_stamped (args : DecisionArgs Cell) : clockCells (args.stamped rt) = clockCells args.frame := by
  have hcol {name : String} (hrun : name ≠ "capture_run_id") (hcohort : name ≠ "cohort_id") :
      column (args.stamped rt) name = column args.frame name := by
    unfold column Py.Dict.getD DecisionArgs.stamped
    rw [Py.Dict.lookup_set_of_ne hcohort, Py.Dict.lookup_set_of_ne hrun]
  unfold clockCells
  rw [hcol (by decide) (by decide), hcol (by decide) (by decide)]

omit [DecidableEq Caller] in
/-- A run id that is path-safe leads nowhere else. -/
theorem inputTarget_of_safe {args : DecisionArgs Cell} (h : pathSafe args.runId = true) :
    args.inputTarget = args.inputPath := by
  unfold pathSafe at h
  have hslash : '/' ∉ args.runId.toList := by
    intro hmem
    simp only [Bool.and_eq_true, Bool.not_eq_true', List.any_eq_false] at h
    exact absurd (h.1.1.2 _ hmem) (by decide)
  have hplain : ¬ (args.runId = "" ∨ args.runId = ".") := by
    rintro (he | he) <;> rw [he] at h <;> revert h <;> decide
  have hup : args.runId ≠ ".." := by
    intro he
    rw [he] at h
    revert h
    decide
  unfold DecisionArgs.inputTarget DecisionArgs.inputPath
  rw [List.splitOn_eq_singleton hslash]
  simp [Path.enter, hplain, hup]

omit [DecidableEq Caller] [DecidableEq Bytes] in
/-- A completion time that was not refused is not before any clock. -/
theorem clocksBy_of_max {f : Frame Cell} {clocks : List (Option Int)} {completedAt : Int} (hclocks : stamps rt f = .ok clocks)
    (hmax : ¬ (clocks.filterMap id).max?.any (fun floor => decide (completedAt < floor)) = true) :
    ClocksBy rt completedAt f := by
  refine ⟨clocks, hclocks, fun i hi => ?_⟩
  cases hm : (clocks.filterMap id).max? with
  | none =>
    rw [List.max?_eq_none_iff.1 hm] at hi
    cases hi
  | some floor =>
    rw [hm] at hmax
    have hfloor : floor ≤ completedAt := by simpa using hmax
    exact ((List.max?_eq_some_iff.1 hm).2 i hi).trans hfloor

theorem publishDecision_publishes {args : DecisionArgs Cell} (hinput : ∀ files data, Φ files args.inputTarget data)
    (hmanifest : ∀ (m : Manifest) files, m.runId = args.runId → Decided rt m files →
      (∀ ref ∈ m.refs, Verified rt ref files) → Φ files m.path (rt.dump m)) :
    Publishes Φ c (publishDecision rt args) (fun _ _ => True) w := by
  unfold publishDecision
  split
  · exact Prog.among_raise trivial
  next completedAt _ =>
    apply Publishes.bind (φ := fun _ _ => True) (Publishes.ofExcept fun _ _ => trivial)
    intro _ w₁ _ _
    apply Publishes.bind (φ := fun clocks _ => stamps rt args.frame = .ok clocks) (Publishes.ofExcept fun _ h => h)
    intro clocks w₂ _ hclocks
    by_cases hmax : (clocks.filterMap id).max?.any (fun floor => decide (completedAt < floor)) = true
    · rw [if_pos hmax]
      exact Prog.among_raise trivial
    rw [if_neg hmax]
    apply Publishes.bind (φ := fun data _ => rt.toParquet (args.stamped rt) = .ok data) (Publishes.ofExcept fun _ h => h)
    intro data w₃ _ hdata
    apply Publishes.bind (publishBytes_publishes rt (fun files _ => hinput files data))
    rintro ref w₄ _ ⟨href, hthere⟩
    by_cases hsafe : pathSafe args.runId = true
    · rw [dif_pos hsafe]
      refine publishManifest_publishes rt fun files hk hrefs => hmanifest _ files rfl ?_ hrefs
      -- the input that was just published is read back with the clocks that were checked
      have hpath : ref.path = args.inputTarget := by
        rw [href, inputTarget_of_safe hsafe]
        rfl
      refine ⟨ref, data, rfl, hk _ _ (by rw [hpath]; exact hthere), fun f hf => ?_⟩
      obtain ⟨instants, hinstants, hby⟩ := clocksBy_of_max rt hclocks hmax
      refine ⟨instants, ?_, hby⟩
      unfold stamps at hinstants ⊢
      rw [rt.clocks_readParquet _ _ _ hdata hf, clockCells_stamped, hinstants]
    · rw [dif_neg hsafe]
      exact Prog.among_raise trivial

/-! ### Whatever is published -/

omit [DecidableEq Caller] [DecidableEq Bytes] in
/-- What is known of an added file is no more than what its publisher verified. -/
def Publish.Fits (Φ : Files Bytes → Path → Bytes → Prop) : Publish Cell Bytes → Prop
  | manifest m => ∀ files, (∀ ref ∈ m.refs, Verified rt ref files) → Φ files m.path (rt.dump m)
  | decision args => (∀ files data, Φ files args.inputTarget data) ∧
      ∀ (m : Manifest) files, m.runId = args.runId → Decided rt m files → (∀ ref ∈ m.refs, Verified rt ref files) →
        Φ files m.path (rt.dump m)
  | response route envelope => ∀ files, Φ files ("raw" :: route) envelope
  | frame route _ => ∀ files data, Φ files ("normalized" :: route) data

theorem prog_publishes {x : Publish Cell Bytes} (hx : x.Fits rt Φ) : Publishes Φ c (x.prog rt) (fun _ _ => True) w := by
  cases x with
  | manifest m => exact publishManifest_publishes rt (fun files _ => hx files)
  | decision args => exact publishDecision_publishes rt hx.1 hx.2
  | response route envelope =>
    exact Prog.among_mono (publishBytes_publishes rt (fun files _ => hx files)) (fun _ _ _ => trivial)
  | frame route f =>
    apply Publishes.attempt (φ := fun _ _ => True)
    · apply Publishes.bind (φ := fun _ _ => True) (Publishes.ofExcept fun _ _ => trivial)
      intro data w₁ _ _
      exact Prog.among_mono (publishBytes_publishes rt (fun files _ => hx files data)) (fun _ _ _ => trivial)
    · intro o w₁ _
      match o with
      | .ok ref => exact Prog.among_ret trivial trivial
      | .error (.os msg) => exact Prog.among_raise trivial
      | .error (.value _) | .error .validation | .error (.fileNotFound _) | .error (.rawCapture _) | .error (.other _) =>
        exact Prog.among_raise trivial

end publishes

/-! ## Any number of publishers -/

section host

variable [DecidableEq Caller] [DecidableEq Bytes] {rt : Runtime Cell Bytes} {Φ : Files Bytes → Path → Bytes → Prop}
  {allowed : Publish Cell Bytes → Prop} {content : Files Bytes} {s s' : Host Caller Bytes}

/-- Where a publisher is, it only takes its steps from here on. -/
def Job.Holds (Φ : Files Bytes → Path → Bytes → Prop) (c : Caller) : Job Bytes → Disk Caller Bytes → Prop
  | .idle, _ => True
  | .publishes p, w => Publishes Φ c p (fun _ _ => True) w

theorem relyGuarantee (hfits : ∀ x, allowed x → x.Fits rt Φ) :
    Threads.RelyGuarantee (Job.Step rt allowed) (Job.Holds Φ) Rely
      (fun (c : Caller) (_ : Job Bytes) => PublishStep Φ c) where
  stable := by
    intro c l w w' h hR
    cases l with
    | idle => trivial
    | publishes p => exact Prog.rg_stable (fun _ _ _ => Rely.trans) (fun _ _ _ h _ => ⟨trivial, fun _ _ => trivial⟩) h hR
  step := by
    intro c l w l' w' h hs
    cases hs with
    | begins x hx => exact ⟨.calm (.refl w), prog_publishes rt (hfits x hx)⟩
    | publishes hn => exact Prog.rg_next Rely.refl h hn
    | gone => exact ⟨.calm Calm.exit, trivial⟩
  compatible := fun _ _ _ _ _ hcd h => h.rely hcd

theorem publishStep_of_step (hfits : ∀ x, allowed x → x.Fits rt Φ) (hs : (host rt allowed content).Reachable s)
    (hstep : (host rt allowed content).step s s') : ∃ c, PublishStep Φ c s.world s'.world := by
  obtain ⟨c, hc⟩ := hstep
  refine ⟨c, (relyGuarantee hfits).guarantee (fun s₀ h₀ d => ?_) hs hc⟩
  rw [h₀.1 d]
  trivial

/-- **What is published keeps its bytes**, whatever is published after it. -/
theorem keeps_of_run (hs : (host rt allowed content).Reachable s)
    (hrun : Relation.ReflTransGen (host rt allowed content).step s s') : Keeps s.world.files s'.world.files := by
  induction hrun with
  | refl => exact .refl _
  | tail hr hstep ih =>
    have hfits (x : Publish Cell Bytes) (_ : allowed x) : x.Fits rt (fun _ _ _ => True) := by
      cases x with
      | manifest | frame => exact fun _ _ => trivial
      | decision => exact ⟨fun _ _ => trivial, fun _ _ _ _ _ => trivial⟩
      | response => exact fun _ => trivial
    obtain ⟨c, hc⟩ := publishStep_of_step hfits (hs.run hr) hstep
    exact ih.trans hc.keeps

end host

end Capture
