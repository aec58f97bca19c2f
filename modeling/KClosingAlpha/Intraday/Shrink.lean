import KClosingAlpha.Intraday.Rewrite
import KClosingAlpha.Lib.System
/-!
# Shrink — no symbol of a partition loses rows, over whole histories of writes

A symbol is replaced when the write asks for it and it does not lose rows by it, or is listed as one that may
(`Replaces`).  Replaced symbols have the rows that came in, the others the rows they had (`Written`).  A write cut
anywhere, or raising anywhere, has published all of that or nothing.
-/
namespace Intraday

variable {Cell α : Type} {pd : Pandas Cell} {w₀ w : World Cell}

/-- The same rows, in the same order where the write does not sort. -/
def SameRows (sortOutput : Bool) (a b : List (Row Cell)) : Prop := if sortOutput then a.Perm b else a = b

theorem SameRows.length {sortOutput : Bool} {a b : List (Row Cell)} (h : SameRows sortOutput a b) : a.length = b.length := by
  unfold SameRows at h
  split_ifs at h
  · exact h.length_eq
  · rw [h]

/-- What a write makes of a partition. -/
structure Written (pd : Pandas Cell) (df : Frame Cell) (asked allowShrinkSymbols : List String) (sortOutput : Bool)
    (old new : Option (Frame Cell)) : Prop where
  replaced : ∀ s, Replaces pd old df asked allowShrinkSymbols s →
    SameRows sortOutput (rowsIn pd s new) (rowsIn pd s (some df))
  kept : ∀ s, ¬ Replaces pd old df asked allowShrinkSymbols s → rowsIn pd s new = rowsIn pd s old

/-- **A symbol that is not listed keeps as many rows as it had.** -/
theorem Written.le {df : Frame Cell} {asked allow : List String} {sortOutput : Bool} {old new : Option (Frame Cell)}
    (h : Written pd df asked allow sortOutput old new) {s : String} (hs : s ∉ allow) :
    storedRows pd s old ≤ storedRows pd s new := by
  by_cases hr : Replaces pd old df asked allow s
  · have hle := hr.2.resolve_right hs
    have hlen : storedRows pd s new = pd.count df.columns s df.rows :=
      (h.replaced s hr).length.trans List.countP_eq_length_filter.symm
    rw [hlen]
    exact hle
  · unfold storedRows
    rw [h.kept s hr]

section bounded

variable {t : Target} {incoming : Option (Frame Cell)} {asked allow : List String} {sortOutput : Bool}

/-- A write that replaces nothing. -/
theorem Written.nothing {df : Frame Cell} {old : Option (Frame Cell)}
    (h : ∀ s, ¬ Replaces pd old df asked allow s) : Written pd df asked allow sortOutput old old :=
  ⟨fun s hs => absurd hs (h s), fun _ _ => rfl⟩

/-- The rows the guard let through, in the order they are written in. -/
theorem Content.written {df guarded : Frame Cell} {accepted : List String} {old new : Option (Frame Cell)}
    (hcol : guarded.columns = df.columns) (hacc : ∀ s, s ∈ accepted ↔ Replaces pd old df asked allow s)
    (hrows : guarded.rows = df.rows.filter
      (fun r => decide (pd.key df.columns r ∈ asked → pd.key df.columns r ∈ accepted)))
    (h : Content pd (ordered pd sortOutput guarded) accepted old new) : Written pd df asked allow sortOutput old new := by
  constructor
  · intro s hs
    have hmem := (hacc s).2 hs
    rw [h.fresh s hmem]
    have hsub : guarded.rows.filter (fun r => decide (pd.key guarded.columns r = s)) = rowsIn pd s (some df) := by
      rw [hrows, hcol, List.filter_filter]
      refine List.filter_congr (fun r _ => ?_)
      rw [Bool.eq_iff_iff]
      simp only [Bool.and_eq_true, decide_eq_true_eq]
      exact ⟨And.left, fun heq => ⟨heq, fun _ => heq ▸ hmem⟩⟩
    unfold SameRows ordered
    split_ifs with hsort
    · rw [← hsub]
      exact (List.mergeSort_perm _ _).filter _
    · exact hsub
  · exact fun s hs => h.others s (fun hmem => hs ((hacc s).1 hmem))

theorem replaceLocked_publishes (hasked : ∀ r ∈ (frameOf incoming).rows, pd.key (frameOf incoming).columns r ∈ asked)
    (hw : Quiet w₀ w) :
    Publishes (Written pd (frameOf incoming) asked allow sortOutput) (fun e => e.isOSError = true) t w₀
      (replaceLocked pd t incoming asked sortOutput allow) w := by
  apply Publishes.bind (requireWritable_quietly hw)
  intro _ w₁ hw₁ _
  apply Publishes.bind (φ := fun _ _ => True) (Quietly.ask rfl hw₁ (fun _ _ _ _ => trivial))
  intro beforeCount w₂ hw₂ _
  apply Publishes.ite
  · intro hnil
    rw [List.isEmpty_iff] at hnil
    apply Publishes.ret hw₂
    apply Written.nothing
    rintro s ⟨hs, -⟩
    rw [hnil] at hs
    cases hs
  · intro _
    apply Publishes.bind (applyShrinkGuard_quietly hw₂)
    rintro ⟨guarded, accepted⟩ w₃ hw₃ ⟨hsym, df, rfl, hcol, hacc, hrows⟩
    apply Publishes.ite
    · intro hnil
      rw [List.isEmpty_iff] at hnil
      apply Publishes.ret hw₃
      apply Written.nothing
      intro s hs
      have := (hacc s).2 hs
      rw [hnil] at this
      cases this
    · intro _
      apply Publishes.bind (isThere_quietly hw₃)
      intro there w₄ hw₄ _
      apply Publishes.bind (φ := fun _ _ => True)
      · apply Quietly.ite
        · exact fun _ => Quietly.ask rfl hw₄ (fun _ _ _ _ => trivial)
        · exact fun _ => Quietly.ret hw₄ trivial
      intro _ w₅ hw₅ _
      apply Publishes.bind (φ := fun _ _ => True)
      · apply Quietly.ite
        · exact fun _ => Quietly.ret hw₅ trivial
        · exact fun _ => Quietly.ask rfl hw₅ (fun _ _ _ _ => trivial)
      intro _ w₆ hw₆ _
      have hin : ∀ r ∈ (ordered pd sortOutput guarded).rows, pd.key (ordered pd sortOutput guarded).columns r ∈ accepted := by
        intro r hr
        have hmem : r ∈ guarded.rows ∧ (ordered pd sortOutput guarded).columns = guarded.columns := by
          unfold ordered at hr ⊢
          split_ifs at hr ⊢
          · exact ⟨(List.mergeSort_perm _ _).mem_iff.1 hr, rfl⟩
          · exact ⟨hr, rfl⟩
        rw [hmem.2, hcol]
        rw [hrows] at hmem
        exact of_decide_eq_true (List.mem_filter.1 hmem.1).2 (hasked r (List.mem_of_mem_filter hmem.1))
      exact (stageAndClean_publishes hsym hin hw₆).mono (fun new h => h.written hcol hacc hrows) (fun e he => he)

theorem withLock_publishes {C : Option (Frame Cell) → Option (Frame Cell) → Prop} {body : Call Cell α}
    (hbody : ∀ w', Quiet w₀ w' → Publishes C (fun e => e.isOSError = true) t w₀ body w') (hw : Quiet w₀ w) :
    Publishes C (fun e => e.isOSError = true) t w₀ (withLock t body) w := by
  apply Publishes.bind (φ := fun _ _ => True) (Quietly.ask rfl hw (fun _ _ _ _ => trivial))
  intro _ w₁ hw₁ _
  apply Publishes.attempt (hbody w₁ hw₁)
  intro o w₂ ho
  cases o with
  | ok a => exact Publishes.after rfl (fun e he => he) ho (fun _ _ h => h)
  | error e => exact Publishes.after_attempt rfl ho (fun _ _ h => h)

theorem boundedSymbolReplace_publishes
    (hasked : ∀ r ∈ (frameOf incoming).rows, pd.key (frameOf incoming).columns r ∈ asked) (hw : Quiet w₀ w) :
    Publishes (Written pd (frameOf incoming) asked allow sortOutput) (fun e => e.isOSError = true) t w₀
      (boundedSymbolReplace pd t incoming asked sortOutput allow) w := by
  apply Publishes.bind (requireWritable_quietly hw)
  exact fun _ w₁ hw₁ _ => withLock_publishes (fun w₂ hw₂ => replaceLocked_publishes hasked hw₂) hw₁

end bounded

/-! ## The two writes -/

/-- The rows a write hands to the rewrite. -/
def WriteArgs.normalized (pd : Pandas Cell) (k : Layout Cell) (args : WriteArgs Cell) : Frame Cell :=
  match args.df with
  | none => ⟨[], []⟩
  | some df => if df.rows.isEmpty then df else { df with rows := (k.reconcile pd df.rows).toOption.getD [] }

/-- The symbols a write asks to replace: those of its rows, and those certified as untraded. -/
def WriteArgs.asked (pd : Pandas Cell) (args : WriteArgs Cell) : List String :=
  args.df.elim [] (fun df => pd.symbols df.columns df.rows) ++ args.coverage.elim [] (noTradesSymbols args.session)

/-- What may still be raised after the publication: the coverage log computes. -/
def Layout.late (k : Layout Cell) (e : Exn) : Prop := k.logsCoverage = true ∨ e.isOSError = true

theorem requireCertified_quietly {session : String} {coverage : Coverage} {symbols : List String} (hw : Quiet w₀ w) :
    Quietly w₀ (requireCertified session coverage symbols)
      (fun replaced _ => replaced = symbols ++ noTradesSymbols session coverage) w := by
  apply Quietly.bind (certifyAll_quietly hw)
  exact fun _ w' hw' _ => Quietly.ret hw' rfl

section write

variable {k : Layout Cell} {t : Target} {args : WriteArgs Cell}

variable (k t args) in
theorem writeEmpty_publishes (hempty : (frameOf args.df).rows = []) (hw : Quiet w₀ w) :
    Publishes (Written pd (args.normalized pd k) (args.asked pd) args.allowShrinkSymbols k.sortOutput) k.late t w₀
      (writeEmpty pd k t args.df args.session args.coverage args.allowShrinkSymbols) w := by
  have hnorm : args.normalized pd k = frameOf args.df := by
    unfold WriteArgs.normalized
    cases hdf : args.df with
    | none => rfl
    | some df =>
      rw [hdf] at hempty
      exact if_pos (List.isEmpty_iff.2 hempty)
  have hasked : args.asked pd = args.coverage.elim [] (noTradesSymbols args.session) := by
    have hsym : args.df.elim [] (fun df => pd.symbols df.columns df.rows) = [] := by
      cases hdf : args.df with
      | none => rfl
      | some df =>
        rw [hdf] at hempty
        refine List.eq_nil_iff_forall_not_mem.2 (fun s hs => ?_)
        obtain ⟨r, hr, -⟩ := (pd.mem_symbols _).1 hs
        rw [show df.rows = [] from hempty] at hr
        cases hr
    unfold WriteArgs.asked
    rw [hsym, List.nil_append]
  have hcount : ∀ {w}, Quiet w₀ w → args.asked pd = [] →
      Publishes (Written pd (args.normalized pd k) (args.asked pd) args.allowShrinkSymbols k.sortOutput) k.late t w₀
        (ask (.rowCount t)) w := by
    intro w hw hnil
    apply Prog.wpx_mono (Quietly.ask (φ := fun _ _ => True) rfl hw (fun _ _ _ _ => trivial)) (fun _ _ h => .inl h)
    refine fun o w' h => .inl ⟨h.1, fun a _ => Written.nothing ?_⟩
    rintro s ⟨hs, -⟩
    rw [hnil] at hs
    cases hs
  unfold writeEmpty
  cases hcov : args.coverage with
  | none =>
    apply hcount hw
    rw [hasked, hcov]
    rfl
  | some coverage =>
    apply Publishes.ite
    · intro hnil
      apply hcount hw
      rw [hasked, hcov]
      exact List.isEmpty_iff.1 hnil
    · intro _
      rw [hnorm, hasked, hcov]
      apply (boundedSymbolReplace_publishes (fun r hr => ?_) hw).mono (fun _ h => h) (fun e he => .inr he)
      rw [hempty] at hr
      cases hr

theorem writeRows_publishes {df : Frame Cell} (hdf : args.df = some df) (hne : df.rows.isEmpty = false)
    (hw : Quiet w₀ w) :
    Publishes (Written pd (args.normalized pd k) (args.asked pd) args.allowShrinkSymbols k.sortOutput) k.late t w₀
      (writeRows pd k t df args.snapshotDate args.session args.coverage args.allowShrinkSymbols) w := by
  apply Publishes.bind (φ := fun symbols _ => symbols = pd.symbols df.columns df.rows)
    (Quietly.ofExcept hw (fun _ h => validateFrame_eq_ok h))
  intro symbols w₁ hw₁ hsym
  apply Publishes.bind (φ := fun rows _ => k.reconcile pd df.rows = .ok rows) (Quietly.ofExcept hw₁ (fun _ h => h))
  intro rows w₂ hw₂ hrows
  have hnorm : args.normalized pd k = { df with rows } := by
    unfold WriteArgs.normalized
    rw [hdf]
    dsimp only
    rw [hne, hrows]
    rfl
  apply Publishes.bind (φ := fun replaced _ => replaced = args.asked pd)
  · unfold WriteArgs.asked
    rw [hdf]
    cases args.coverage with
    | none =>
      apply Quietly.bind (isThere_quietly hw₂)
      intro there w₃ hw₃ _
      apply Quietly.bind (φ := fun _ _ => True)
      · apply Quietly.ite
        · exact fun _ => checkLegacyUnchanged_quietly hw₃
        · exact fun _ => Quietly.ret hw₃ trivial
      · exact fun _ w₄ hw₄ _ => Quietly.ret hw₄ (by rw [hsym]; exact (List.append_nil _).symm)
    | some coverage =>
      apply (requireCertified_quietly hw₂).mono
      rintro replaced w' - rfl
      rw [hsym]
      rfl
  rintro replaced w₃ hw₃ rfl
  rw [hnorm]
  have hasked : ∀ r ∈ (frameOf (some { df with rows })).rows, pd.key (frameOf (some { df with rows })).columns r ∈ args.asked pd := by
    intro r hr
    unfold WriteArgs.asked
    rw [hdf]
    exact List.mem_append_left _ ((pd.mem_symbols _).2 ⟨r, k.subset pd _ _ hrows hr, rfl⟩)
  have hbounded : Publishes (Written pd { df with rows } (args.asked pd) args.allowShrinkSymbols k.sortOutput) k.late t w₀
      (boundedSymbolReplace pd t (some { df with rows }) (args.asked pd) k.sortOutput args.allowShrinkSymbols) w₃ :=
    (boundedSymbolReplace_publishes hasked hw₃).mono (fun _ h => h) (fun e he => .inr he)
  apply Prog.wpx_bind _ hbounded
  · intro total w₄ ho
    cases hlog : k.logsCoverage with
    | false => exact ho
    | true => exact Publishes.after rfl (fun e _ => .inl hlog) ho (fun _ _ h => h)
  · exact fun e w₄ ho => ho

/-- **What a write can do, cut or raising anywhere.** -/
theorem writePartition_publishes :
    Publishes (Written pd (args.normalized pd k) (args.asked pd) args.allowShrinkSymbols k.sortOutput) k.late t w₀
      (writePartition pd k t args) w₀ := by
  have hw := Quiet.refl w₀
  apply Publishes.bind (φ := fun _ _ => True) (Quietly.ofExcept hw (fun _ _ => trivial))
  intro _ w₁ hw₁ _
  apply Publishes.bind (φ := fun _ _ => True) (Quietly.ofExcept hw₁ (fun _ _ => trivial))
  intro _ w₂ hw₂ _
  apply Publishes.bind (requireWritable_quietly hw₂)
  intro _ w₃ hw₃ _
  cases hdf : args.df with
  | none =>
    have : Publishes (Written pd _ _ _ _) _ _ _ _ _ := writeEmpty_publishes k t args (by rw [hdf]; rfl) hw₃
    rwa [hdf] at this
  | some df =>
    apply Publishes.ite
    · intro hempty
      have : Publishes (Written pd _ _ _ _) _ _ _ _ _ := writeEmpty_publishes k t args (by rw [hdf]; exact List.isEmpty_iff.1 hempty) hw₃
      rwa [hdf] at this
    · exact fun hne => writeRows_publishes hdf hne hw₃

end write

/-! ## Histories -/

/-- A call of either write. -/
inductive Write (Cell : Type) where
  | bars (barIntervalMinutes : Int) (args : WriteArgs Cell)
  | ticks (args : WriteArgs Cell)

namespace Write

variable [DecidableEq Cell]

def args : Write Cell → WriteArgs Cell
  | bars _ args | ticks args => args

def layout : Write Cell → Layout Cell
  | bars _ _ => barLayout
  | ticks _ => tickLayout

def target : Write Cell → Target
  | bars m args => .bars m args.snapshotDate args.session
  | ticks args => .ticks args.snapshotDate args.session

def program (pd : Pandas Cell) : Write Cell → Call Cell Nat
  | bars m args => writeIntradayPartition pd m args
  | ticks args => writeTickPartition pd args

/-- What the call makes of its partition. -/
def Makes (pd : Pandas Cell) (c : Write Cell) (old new : Option (Frame Cell)) : Prop :=
  Written pd (c.args.normalized pd c.layout) (c.args.asked pd) c.args.allowShrinkSymbols c.layout.sortOutput old new

theorem publishes (pd : Pandas Cell) (c : Write Cell) (w : World Cell) :
    Publishes (c.Makes pd) c.layout.late c.target w (c.program pd) w := by
  cases c with
  | bars m args => exact writePartition_publishes
  | ticks args => exact writePartition_publishes

/-- A call that returns. -/
theorem ends_ok {c : Write Cell} {w w' : World Cell} {n : Nat} (h : Prog.Ends Exec (c.program pd) w (.ok n) w') :
    c.Makes pd (w.files c.target) (w'.files c.target) ∧ ∀ t, t ≠ c.target → w'.files t = w.files t := by
  rcases Prog.wpx_ends (c.publishes pd w) h with ⟨hq, hmade⟩ | ⟨hp, -⟩
  · rw [hq.files]
    exact ⟨hmade n rfl, fun _ _ => rfl⟩
  · exact ⟨hp.content, hp.others⟩

/-- A call that raises what is not raised after a publication. -/
theorem ends_error {c : Write Cell} {w w' : World Cell} {e : Exn} (h : Prog.Ends Exec (c.program pd) w (.error e) w')
    (he : ¬ c.layout.late e) : w'.files = w.files := by
  rcases Prog.wpx_ends (c.publishes pd w) h with ⟨hq, -⟩ | ⟨-, hlate⟩
  · exact hq.files
  · exact absurd (hlate e rfl) he

/-- **Wherever a call is cut**, it has published all it was to publish, or nothing. -/
theorem reach {c : Write Cell} {w w' : World Cell} (h : Prog.Reach Exec (c.program pd) w w') :
    Quiet w w' ∨ Published (c.Makes pd) c.target w w' := by
  cases Prog.wpx_reach (c.publishes pd w) h with
  | refl => exact .inl (Quiet.refl w)
  | tail _ hstep => exact hstep

end Write

variable [DecidableEq Cell]

/-- Calls one after another, each cut somewhere or not at all. -/
inductive Runs (pd : Pandas Cell) : List (Write Cell) → World Cell → World Cell → Prop where
  | nil (w : World Cell) : Runs pd [] w w
  | cons {c : Write Cell} {cs : List (Write Cell)} {w w₁ w' : World Cell} (h : Prog.Reach Exec (c.program pd) w w₁)
      (hs : Runs pd cs w₁ w') : Runs pd (c :: cs) w w'

/-- One call. -/
theorem storedRows_le_of_reach {c : Write Cell} {w w' : World Cell} (h : Prog.Reach Exec (c.program pd) w w')
    {t : Target} {s : String} (hs : c.target = t → s ∉ c.args.allowShrinkSymbols) :
    storedRows pd s (w.files t) ≤ storedRows pd s (w'.files t) := by
  rcases Write.reach h with hq | hp
  · rw [hq.files]
  · by_cases ht : c.target = t
    · subst ht
      exact hp.content.le (hs rfl)
    · rw [hp.others t (Ne.symm ht)]

/-- Any number of calls. -/
theorem storedRows_le {t : Target} {s : String} {cs : List (Write Cell)} {w w' : World Cell} (h : Runs pd cs w w')
    (hs : ∀ c ∈ cs, c.target = t → s ∉ c.args.allowShrinkSymbols) :
    storedRows pd s (w.files t) ≤ storedRows pd s (w'.files t) := by
  induction h with
  | nil w => exact le_refl _
  | cons hc _ ih =>
    rw [List.forall_mem_cons] at hs
    exact (storedRows_le_of_reach hc hs.1).trans (ih hs.2)

/-- **The shrink guard**: over any history of calls, cut or raising anywhere, only a listed symbol loses rows; a call
that returns replaced what it was to replace and nothing else; and a call that raises left the partitions as they were,
or raised after it had published what a call that returns publishes. -/
theorem shrink_guard (pd : Pandas Cell) :
    (∀ (cs : List (Write Cell)) (w w' : World Cell), Runs pd cs w w' → ∀ t s, (∀ c ∈ cs, c.target = t → s ∉ c.args.allowShrinkSymbols) →
      storedRows pd s (w.files t) ≤ storedRows pd s (w'.files t)) ∧
    (∀ (c : Write Cell) (w : World Cell) n w', Prog.Ends Exec (c.program pd) w (.ok n) w' →
      c.Makes pd (w.files c.target) (w'.files c.target) ∧ ∀ t, t ≠ c.target → w'.files t = w.files t) ∧
    (∀ (c : Write Cell) (w : World Cell) e w', Prog.Ends Exec (c.program pd) w (.error e) w' →
      (w'.publications = w.publications → w'.files = w.files) ∧
      (w'.publications ≠ w.publications → c.Makes pd (w.files c.target) (w'.files c.target) ∧
        (∀ t, t ≠ c.target → w'.files t = w.files t) ∧ c.layout.late e)) := by
  refine ⟨fun cs w w' h t s hs => storedRows_le h hs, fun c w n w' h => Write.ends_ok h, fun c w e w' h => ?_⟩
  · rcases Prog.wpx_ends (c.publishes pd w) h with ⟨hq, -⟩ | ⟨hp, hlate⟩
    · exact ⟨fun _ => hq.files, fun hne => absurd hq.publications hne⟩
    · constructor
      · intro heq
        have := hp.publications
        omega
      · exact fun _ => ⟨hp.content, hp.others, hlate e rfl⟩

/-! ## One tick -/

/-- Cells that are a text and, some of them, a number. -/
def textCells : Pandas (String × Option Rat) where
  str c := c.1
  isna _ := false
  toNumeric c := c.2
  le a b := decide (a.1 ≤ b.1)

/-- A tick of a symbol on the second of March 2026. -/
def tick (symbol : String) : Row (String × Option Rat) :=
  [("2026-03-02", none), (symbol, none), ("90100", some 90100), ("50000", some 50000), ("3", some 3), ("100", some 100),
    ("50000", some 50000), ("49950", some 49950), ("False", none), ("kiwoom", none)]

/-- The ticks of one call. -/
def tickCall (symbols : List String) : Write (String × Option Rat) :=
  .ticks ⟨some ⟨canonicalTickColumns, symbols.map tick⟩, "2026-03-02", "regular", none, none, []⟩

/-- Nothing is stored yet. -/
def World.empty : World Cell := ⟨fun _ => none, fun _ => false, none, 0⟩

theorem shrink_guard_one_tick :
    storedRows textCells "005930" ((World.empty : World (String × Option Rat)).files (.ticks "2026-03-02" "regular")) ≤
      storedRows textCells "005930"
        ((Prog.run (answer (fun _ => none)) ((tickCall ["005930"]).program textCells) World.empty).2.files
          (.ticks "2026-03-02" "regular")) ∧
    storedRows textCells "005930"
        ((Prog.run (answer (fun _ => none)) ((tickCall ["005930"]).program textCells) World.empty).2.files
          (.ticks "2026-03-02" "regular")) = 1 := by
  have hends := Prog.run_ends (answer_exec (fun _ => none) (fun _ _ h => by cases h))
    ((tickCall ["005930"]).program textCells) World.empty
  refine ⟨(shrink_guard textCells).1 [tickCall ["005930"]] _ _ (.cons hends.reach (.nil _)) _ _ ?_, by decide +kernel⟩
  intro c hc _
  rw [List.mem_singleton.1 hc]
  exact List.not_mem_nil

/-- The lock's release fails, after the publication. -/
theorem raises_after_publication : ∃ (e : Exn) (w' : World (String × Option Rat)),
    Prog.Ends Exec ((tickCall ["005930"]).program textCells) World.empty (.error e) w' ∧
      w'.files (.ticks "2026-03-02" "regular") ≠ World.empty.files (.ticks "2026-03-02" "regular") := by
  let faults : Op (String × Option Rat) → Option Exn := fun op =>
    match op with
    | .unlock _ => some (.os "Read-only file system")
    | _ => none
  have hends := Prog.run_ends (answer_exec faults (fun op e h => by cases op <;> cases h; rfl))
    ((tickCall ["005930"]).program textCells) World.empty
  have hraised : (Prog.run (answer faults) ((tickCall ["005930"]).program textCells) World.empty).1 =
      .error (.os "Read-only file system") := by decide +kernel
  rw [hraised] at hends
  exact ⟨_, _, hends, by decide +kernel⟩

end Intraday
