import KClosingAlpha.Intraday.Store
/-!
# Rewrite — what the staged rewrite of a partition publishes

Up to the step that publishes, a write is quiet (`Quietly`): partitions and tombstones are as they were, whatever is
raised.  The published partition has the rows it kept of the old one, and then the rows that came in (`Content`).  What
follows the publication can still raise, and changes nothing (`Publishes`).
-/
namespace Intraday

variable {Cell : Type}

/-! ## Quiet programs -/

/-- Partitions and tombstones as they were. -/
structure Quiet (w w' : World Cell) : Prop where
  files : w'.files = w.files
  tombstones : w'.tombstones = w.tombstones
  publications : w'.publications = w.publications

theorem Quiet.refl (w : World Cell) : Quiet w w := ⟨rfl, rfl, rfl⟩

theorem Quiet.trans {w w' w'' : World Cell} (h : Quiet w w') (h' : Quiet w' w'') : Quiet w w'' :=
  ⟨h'.files.trans h.files, h'.tombstones.trans h.tombstones, h'.publications.trans h.publications⟩

theorem quiet_staging (w : World Cell) (staging : Option (Frame Cell)) : Quiet w { w with staging } := ⟨rfl, rfl, rfl⟩

/-- The two operations that change a partition. -/
def Op.publishes : Op Cell → Bool
  | replace _ | unlink _ => true
  | _ => false

theorem Op.Does.quiet {op : Op Cell} (hop : op.publishes = false) {w w' : World Cell} {a : op.Ans}
    (h : op.Does w a w') : Quiet w w' := by
  cases op with
  | replace | unlink => cases hop
  | tombstone | isThere | rowCount | read | stagedCount =>
    rw [h.2]
    exact Quiet.refl w
  | create | unstage =>
    rw [show w' = _ from h]
    exact quiet_staging w _
  | append f =>
    obtain ⟨g, -, -, rfl⟩ := h
    exact quiet_staging w _
  | lock | unlock | preserve | quarantine | backup | convert | close | logCoverage =>
    rw [show w' = w from h]
    exact Quiet.refl w

variable {α β : Type} {w₀ w : World Cell}

/-- From `w`, a program leaves the partitions as they were in `w₀`, and a value it returns satisfies `φ`. -/
def Quietly (w₀ : World Cell) (p : Call Cell α) (φ : α → World Cell → Prop) (w : World Cell) : Prop :=
  Prog.keeps Exec (Quiet w₀) p φ w

namespace Quietly

theorem ret {φ : α → World Cell → Prop} {a : α} (hw : Quiet w₀ w) (h : φ a w) : Quietly w₀ (.ret a) φ w :=
  Prog.keeps_ret hw h

theorem raise {φ : α → World Cell → Prop} {e : Exn} (hw : Quiet w₀ w) : Quietly w₀ (.raise e) φ w := Prog.keeps_raise hw

theorem ofExcept {φ : α → World Cell → Prop} {x : Except Exn α} (hw : Quiet w₀ w) (h : ∀ a, x = .ok a → φ a w) :
    Quietly w₀ (Prog.ofExcept x) φ w := Prog.keeps_ofExcept hw h

theorem bind {p : Call Cell α} {f : α → Call Cell β} {φ : α → World Cell → Prop} {ψ : β → World Cell → Prop}
    (h : Quietly w₀ p φ w) (hf : ∀ a w', Quiet w₀ w' → φ a w' → Quietly w₀ (f a) ψ w') : Quietly w₀ (p.bind f) ψ w :=
  Prog.keeps_bind h hf

theorem ask {op : Op Cell} {φ : op.Ans → World Cell → Prop} (hop : op.publishes = false) (hw : Quiet w₀ w)
    (h : ∀ a w', Quiet w₀ w' → op.Does w a w' → φ a w') : Quietly w₀ (Intraday.ask op) φ w := by
  intro r w' hr
  cases r with
  | error e =>
    obtain ⟨-, staging, rfl⟩ := hr
    have hw' := hw.trans (quiet_staging w staging)
    exact ⟨hw', raise hw'⟩
  | ok a =>
    have hw' := hw.trans (Op.Does.quiet hop hr)
    exact ⟨hw', ret hw' (h a w' hw' hr)⟩

theorem mono {p : Call Cell α} {φ ψ : α → World Cell → Prop} (h : Quietly w₀ p φ w)
    (hφ : ∀ a w', Quiet w₀ w' → φ a w' → ψ a w') : Quietly w₀ p ψ w := Prog.keeps_mono h hφ

theorem ite {p q : Call Cell α} {φ : α → World Cell → Prop} {b : Bool} (hp : b = true → Quietly w₀ p φ w)
    (hq : b = false → Quietly w₀ q φ w) : Quietly w₀ (if b then p else q) φ w := by
  cases b with
  | true => exact hp rfl
  | false => exact hq rfl

end Quietly

/-! ## Before the rewrite -/

theorem requireWritable_quietly {t : Target} (hw : Quiet w₀ w) :
    Quietly w₀ (requireWritable t) (fun _ _ => w₀.tombstones t = false) w := by
  apply Quietly.bind (φ := fun b _ => b = w₀.tombstones t)
  · apply Quietly.ask rfl hw
    rintro b w' - ⟨rfl, -⟩
    rw [hw.tombstones]
  · intro b w' hw' hb
    cases b with
    | true => exact Quietly.raise hw'
    | false => exact Quietly.ret hw' hb.symm

theorem certifyAll_quietly {session : String} {coverage : Coverage} : ∀ {symbols : List String} {w : World Cell},
    Quiet w₀ w → Quietly w₀ (certifyAll session coverage symbols) (fun _ _ => True) w
  | [], w, hw => Quietly.ret hw trivial
  | symbol :: symbols, w, hw => by
    unfold certifyAll
    split
    · exact Quietly.raise hw
    · split
      · exact certifyAll_quietly hw
      · exact Quietly.raise hw
      · exact Quietly.bind (Quietly.ask rfl hw (fun _ _ _ _ => trivial)) (fun _ _ hw' _ => Quietly.raise hw')

variable {pd : Pandas Cell}

theorem quarantineAll_quietly {incoming : Frame Cell} : ∀ {symbols : List String} {w : World Cell}, Quiet w₀ w →
    Quietly w₀ (quarantineAll pd incoming symbols) (fun _ _ => True) w
  | [], w, hw => Quietly.ret hw trivial
  | symbol :: symbols, w, hw => by
    unfold quarantineAll
    apply Quietly.ite
    · exact fun _ => quarantineAll_quietly hw
    · exact fun _ => Quietly.bind (Quietly.ask rfl hw (fun _ _ _ _ => trivial)) (fun _ _ hw' _ => quarantineAll_quietly hw')

/-- A read gives the rows of the partition, in some batches. -/
theorem read_quietly {t : Target} (hw : Quiet w₀ w) : Quietly w₀ (ask (.read t))
    (fun a _ => ∃ f, w₀.files t = some f ∧ a.1 = f.columns ∧ a.2.flatten = f.rows) w := by
  apply Quietly.ask rfl hw
  rintro a w' - ⟨h, -⟩
  rw [hw.files] at h
  exact h

theorem isThere_quietly {t : Target} (hw : Quiet w₀ w) :
    Quietly w₀ (ask (.isThere t)) (fun b _ => b = (w₀.files t).isSome) w := by
  apply Quietly.ask rfl hw
  rintro b w' - ⟨rfl, -⟩
  rw [hw.files]

theorem checkLegacyUnchanged_quietly {t : Target} {incoming : Frame Cell} {symbols : List String} (hw : Quiet w₀ w) :
    Quietly w₀ (checkLegacyUnchanged pd t incoming symbols) (fun _ _ => True) w := by
  apply Quietly.bind (read_quietly hw)
  intro stored w' hw' _
  split
  · exact Quietly.raise hw'
  · exact Quietly.ofExcept hw' (fun _ _ => trivial)

/-! ## The shrink guard -/

/-- The rows a partition has of a symbol. -/
def rowsIn (pd : Pandas Cell) (s : String) (file : Option (Frame Cell)) : List (Row Cell) :=
  file.elim [] (fun f => f.rows.filter (fun r => decide (pd.key f.columns r = s)))

/-- How many they are. -/
def storedRows (pd : Pandas Cell) (s : String) (file : Option (Frame Cell)) : Nat := (rowsIn pd s file).length

/-- A partition with rows but without symbols is refused. -/
def HasSymbols (file : Option (Frame Cell)) : Prop := ∀ f, file = some f → "symbol" ∉ f.columns → f.rows = []

theorem storedSymbolCounts_quietly {t : Target} (hw : Quiet w₀ w) : Quietly w₀ (storedSymbolCounts pd t)
    (fun counts _ => HasSymbols (w₀.files t) ∧ ∀ s, counts s = storedRows pd s (w₀.files t)) w := by
  apply Quietly.bind (isThere_quietly hw)
  intro there w₁ hw₁ hthere
  apply Quietly.ite
  · intro _
    apply Quietly.bind (read_quietly hw₁)
    rintro ⟨columns, batches⟩ w₂ hw₂ ⟨f, hf, rfl, hrows⟩
    dsimp only at hrows ⊢
    split_ifs with hno
    · exact Quietly.raise hw₂
    · apply Quietly.ret hw₂
      constructor
      · intro g hg hsym
        cases hf.symm.trans hg
        have hnil : batches = [] := by_contra (fun hne => hno ⟨hsym, hne⟩)
        rw [← hrows, hnil]
        rfl
      · intro s
        unfold storedRows rowsIn
        rw [hf]
        dsimp only [Option.elim]
        rw [← hrows, ← List.countP_eq_length_filter, List.countP_flatten]
        rfl
  · intro hfalse
    apply Quietly.ret hw₁
    rw [hfalse] at hthere
    have hnone : w₀.files t = none := by simpa using hthere.symm
    rw [hnone]
    exact ⟨fun f hf => (by cases hf), fun s => rfl⟩

/-- The symbols whose rows are replaced: asked for, and not refused. -/
def Replaces (pd : Pandas Cell) (file : Option (Frame Cell)) (incoming : Frame Cell)
    (replaced allowShrinkSymbols : List String) (s : String) : Prop :=
  s ∈ replaced ∧ (storedRows pd s file ≤ pd.count incoming.columns s incoming.rows ∨ s ∈ allowShrinkSymbols)

/-- **What the guard lets through**: the symbols it does not refuse, and their rows. -/
theorem applyShrinkGuard_quietly {t : Target} {incoming : Option (Frame Cell)} {replaced allow : List String}
    (hw : Quiet w₀ w) : Quietly w₀ (applyShrinkGuard pd t incoming replaced allow)
      (fun g _ => HasSymbols (w₀.files t) ∧ ∃ df, incoming = some df ∧ g.1.columns = df.columns ∧
        (∀ s, s ∈ g.2 ↔ Replaces pd (w₀.files t) df replaced allow s) ∧
        g.1.rows = df.rows.filter (fun r => decide (pd.key df.columns r ∈ replaced → pd.key df.columns r ∈ g.2))) w := by
  apply Quietly.bind (storedSymbolCounts_quietly hw)
  rintro before w₁ hw₁ ⟨hsym, hbefore⟩
  cases incoming with
  | none => exact Quietly.raise hw₁
  | some df =>
    apply Quietly.bind (quarantineAll_quietly hw₁)
    intro _ w₂ hw₂ _
    apply Quietly.ret hw₂
    refine ⟨hsym, df, rfl, rfl, ?_, ?_⟩
    · intro s
      dsimp only
      rw [List.mem_filter]
      unfold Replaces
      rw [← hbefore]
      simp only [List.mem_filter, Bool.and_eq_true, decide_eq_true_eq, not_and]
      constructor
      · rintro ⟨hs, h⟩
        refine ⟨hs, ?_⟩
        by_contra hno
        rw [not_or, not_le] at hno
        exact h hs hno.1 hno.2
      · rintro ⟨hs, h⟩
        exact ⟨hs, fun _ hlt hno => h.elim (fun hle => absurd hlt (not_lt.2 hle)) hno⟩
    · dsimp only
      refine List.filter_congr (fun r _ => ?_)
      rw [decide_eq_decide]
      simp only [List.mem_filter, Bool.and_eq_true, decide_eq_true_eq]
      tauto

/-! ## The rewrite -/

/-- The rows of other symbols. -/
def kept (pd : Pandas Cell) (columns replaced : List String) (rows : List (Row Cell)) : List (Row Cell) :=
  rows.filter (fun r => decide (pd.key columns r ∉ replaced))

/-- What is staged after these rows. -/
structure StagedAs (pd : Pandas Cell) (columns replaced : List String) (rows : List (Row Cell)) (st : Staged)
    (w : World Cell) : Prop where
  keptRows : st.keptRows = (kept pd columns replaced rows).length
  opened : st.opened = true ↔ kept pd columns replaced rows ≠ []
  before : st.beforeSymbols = rows.map (pd.key columns)
  staging : st.opened = true → w.staging = some ⟨columns, kept pd columns replaced rows⟩

theorem writeTable_quietly {opened : Bool} {f : Frame Cell} (hw : Quiet w₀ w) : Quietly w₀ (writeTable opened f)
    (fun _ w' => (opened = false → w'.staging = some f) ∧
      (opened = true → ∃ g, w.staging = some g ∧ g.columns = f.columns ∧
        w'.staging = some { g with rows := g.rows ++ f.rows })) w := by
  unfold writeTable
  apply Quietly.ite
  · rintro rfl
    apply Quietly.ask rfl hw
    rintro - w' - ⟨g, hg, hcol, rfl⟩
    exact ⟨fun h => (by cases h), fun _ => ⟨g, hg, hcol, rfl⟩⟩
  · rintro rfl
    apply Quietly.ask rfl hw
    rintro - w' - rfl
    exact ⟨fun _ => rfl, fun h => (by cases h)⟩

theorem keepRows_quietly {columns replaced : List String} (hsym : "symbol" ∈ columns) :
    ∀ (batches : List (List (Row Cell))) {st : Staged} {rows : List (Row Cell)} {w : World Cell}, Quiet w₀ w →
      StagedAs pd columns replaced rows st w → Quietly w₀ (keepRows pd columns replaced batches st)
        (fun st' w' => StagedAs pd columns replaced (rows ++ batches.flatten) st' w') w
  | [], st, rows, w, hw, h => by
    apply Quietly.ret hw
    rwa [List.flatten_nil, List.append_nil]
  | batch :: batches, st, rows, w, hw, h => by
    have hkept : kept pd columns replaced (rows ++ batch) =
        kept pd columns replaced rows ++ kept pd columns replaced batch := List.filter_append ..
    unfold keepRows
    rw [if_pos hsym, if_pos hsym, List.flatten_cons, ← List.append_assoc]
    apply Quietly.ite
    · intro hnil
      have hnil' : kept pd columns replaced batch = [] := List.isEmpty_iff.1 hnil
      apply keepRows_quietly hsym batches hw
      rw [hnil', List.append_nil] at hkept
      exact ⟨hkept ▸ h.keptRows, hkept ▸ h.opened, by rw [List.map_append, h.before], hkept ▸ h.staging⟩
    · intro hne
      have hne' : kept pd columns replaced batch ≠ [] := fun heq => by
        rw [show (List.filter _ batch).isEmpty = true from List.isEmpty_iff.2 heq] at hne
        cases hne
      apply Quietly.bind (writeTable_quietly hw)
      rintro - w' hw' ⟨hfirst, hnext⟩
      apply keepRows_quietly hsym batches hw'
      refine ⟨?_, ?_, ?_, ?_⟩
      · rw [hkept, List.length_append, h.keptRows]
        rfl
      · rw [hkept]
        simp [hne']
      · rw [List.map_append, h.before]
      · intro _
        rw [hkept]
        cases hop : st.opened with
        | false =>
          have hnone : kept pd columns replaced rows = [] := by
            by_contra hrows
            rw [h.opened.2 hrows] at hop
            cases hop
          rw [hfirst hop, hnone]
          rfl
        | true =>
          obtain ⟨g, hg, -, hw⟩ := hnext hop
          cases (h.staging hop).symm.trans hg
          exact hw

/-- What a rewrite makes of a partition: the rows that came in for their symbols, and the old ones of the others. -/
structure Content (pd : Pandas Cell) (incoming : Frame Cell) (replaced : List String) (old new : Option (Frame Cell)) :
    Prop where
  fresh : ∀ s ∈ replaced, rowsIn pd s new = incoming.rows.filter (fun r => decide (pd.key incoming.columns r = s))
  others : ∀ s, s ∉ replaced → rowsIn pd s new = rowsIn pd s old

/-- A step that publishes, from a partition to one that `C` allows. -/
structure Published (C : Option (Frame Cell) → Option (Frame Cell) → Prop) (t : Target) (w w' : World Cell) : Prop where
  content : C (w.files t) (w'.files t)
  others : ∀ t', t' ≠ t → w'.files t' = w.files t'
  tombstones : w'.tombstones = w.tombstones
  publications : w'.publications = w.publications + 1

/-- It returns having written what it was to write; it raises before it publishes, or something of `L` afterwards. -/
def Outcome (C : Option (Frame Cell) → Option (Frame Cell) → Prop) (L : Exn → Prop) (t : Target) (w₀ : World Cell)
    (o : Except Exn α) (w : World Cell) : Prop :=
  (Quiet w₀ w ∧ ∀ a, o = .ok a → C (w₀.files t) (w₀.files t)) ∨ (Published C t w₀ w ∧ ∀ e, o = .error e → L e)

/-- A program that publishes at most once. -/
def Publishes (C : Option (Frame Cell) → Option (Frame Cell) → Prop) (L : Exn → Prop) (t : Target) (w₀ : World Cell)
    (p : Call Cell α) (w : World Cell) : Prop :=
  Prog.wpx Exec (fun _ w' => Quiet w₀ w' ∨ Published C t w₀ w') p (Outcome C L t w₀) w

section publishes

variable {C : Option (Frame Cell) → Option (Frame Cell) → Prop} {L : Exn → Prop} {t : Target}

theorem Published.quiet {w w' w'' : World Cell} (h : Published C t w w') (h' : Quiet w' w'') : Published C t w w'' :=
  ⟨by rw [h'.files]; exact h.content, by rw [h'.files]; exact h.others, h'.tombstones.trans h.tombstones,
    h'.publications.trans h.publications⟩

theorem Published.mono {C' : Option (Frame Cell) → Option (Frame Cell) → Prop} {w w' : World Cell}
    (h : Published C t w w') (hC : ∀ new, C (w.files t) new → C' (w.files t) new) : Published C' t w w' :=
  ⟨hC _ h.content, h.others, h.tombstones, h.publications⟩

theorem Outcome.quiet {o : Except Exn α} {w' : World Cell} (h : Outcome C L t w₀ o w) (hq : Quiet w w') :
    Outcome C L t w₀ o w' :=
  h.imp (fun h' => ⟨h'.1.trans hq, h'.2⟩) (fun h' => ⟨h'.1.quiet hq, h'.2⟩)

theorem Outcome.steps {o : Except Exn α} (h : Outcome C L t w₀ o w) : Quiet w₀ w ∨ Published C t w₀ w :=
  h.imp And.left And.left

/-- An exception that is not raised after the publication. -/
theorem Outcome.quiet_of_error {e : Exn} (h : Outcome C L t w₀ (.error e : Except Exn α) w) (he : ¬ L e) : Quiet w₀ w :=
  h.elim And.left (fun h' => absurd (h'.2 e rfl) he)

namespace Publishes

theorem mono {C' : Option (Frame Cell) → Option (Frame Cell) → Prop} {L' : Exn → Prop} {p : Call Cell α}
    (h : Publishes C L t w₀ p w) (hC : ∀ new, C (w₀.files t) new → C' (w₀.files t) new) (hL : ∀ e, L e → L' e) :
    Publishes C' L' t w₀ p w := by
  apply Prog.wpx_mono h
  · exact fun _ w' h' => h'.imp_right (fun hp => hp.mono hC)
  · exact fun o w' h' => h'.imp (fun hq => ⟨hq.1, fun a ha => hC _ (hq.2 a ha)⟩)
      (fun hp => ⟨hp.1.mono hC, fun e he => hL e (hp.2 e he)⟩)

theorem bind {p : Call Cell α} {f : α → Call Cell β} {φ : α → World Cell → Prop} (h : Quietly w₀ p φ w)
    (hf : ∀ a w', Quiet w₀ w' → φ a w' → Publishes C L t w₀ (f a) w') : Publishes C L t w₀ (p.bind f) w := by
  apply Prog.wpx_bind _ (Prog.wpx_mono h (fun _ _ hq => .inl hq) (fun _ _ h' => h'))
  · exact fun a w' h' => hf a w' h'.1 (h'.2 a rfl)
  · exact fun e w' h' => .inl ⟨h'.1, fun b hb => by cases hb⟩

/-- A return without a publication, when there was nothing to write. -/
theorem ret {a : α} (hw : Quiet w₀ w) (h : C (w₀.files t) (w₀.files t)) : Publishes C L t w₀ (.ret a) w :=
  .inl ⟨hw, fun _ _ => h⟩

theorem raise {e : Exn} (hw : Quiet w₀ w) : Publishes C L t w₀ (.raise e : Call Cell α) w :=
  .inl ⟨hw, fun _ h => by cases h⟩

theorem ite {p q : Call Cell α} {b : Bool} (hp : b = true → Publishes C L t w₀ p w)
    (hq : b = false → Publishes C L t w₀ q w) : Publishes C L t w₀ (if b then p else q) w := by
  cases b with
  | true => exact hp rfl
  | false => exact hq rfl

/-- The publication itself. -/
theorem publish {op : Op Cell} {a : α} (hw : Quiet w₀ w) (hdoes : ∀ b w', op.Does w b w' → Published C t w₀ w') :
    Publishes C L t w₀ ((ask op).bind fun _ => .ret a) w := by
  intro r w' hr
  cases r with
  | error e =>
    obtain ⟨-, staging, rfl⟩ := hr
    have hw' := hw.trans (quiet_staging w staging)
    exact ⟨.inl hw', .inl ⟨hw', fun _ h => by cases h⟩⟩
  | ok b =>
    have hp := hdoes b w' hr
    exact ⟨.inr hp, .inr ⟨hp, fun _ h => by cases h⟩⟩

/-- A step that follows a publication. -/
theorem after {op : Op Cell} {o : Except Exn α} {k : op.Ans → Call Cell β} (hop : op.publishes = false)
    (hL : ∀ e, op.MayRaise e → L e) (h : Outcome C L t w₀ o w)
    (hk : ∀ a w', Outcome C L t w₀ o w' → Publishes C L t w₀ (k a) w') : Publishes C L t w₀ ((ask op).bind k) w := by
  intro r w' hr
  cases r with
  | error e =>
    obtain ⟨hmay, staging, rfl⟩ := hr
    have h' := h.quiet (quiet_staging w staging)
    refine ⟨h'.steps, ?_⟩
    exact h'.imp (fun hq => ⟨hq.1, fun _ ha => by cases ha⟩) (fun hp => ⟨hp.1, fun _ he => by cases he; exact hL e hmay⟩)
  | ok a =>
    have h' := h.quiet (Op.Does.quiet hop hr)
    exact ⟨h'.steps, hk a _ h'⟩

/-- A step whose own exception is dropped. -/
theorem after_attempt {op : Op Cell} {o : Except Exn α} {k : Except Exn op.Ans → Call Cell β}
    (hop : op.publishes = false) (h : Outcome C L t w₀ o w)
    (hk : ∀ r w', Outcome C L t w₀ o w' → Publishes C L t w₀ (k r) w') :
    Publishes C L t w₀ ((ask op).attempt.bind k) w := by
  intro r w' hr
  have h' : Outcome C L t w₀ o w' := by
    cases r with
    | error e =>
      obtain ⟨-, staging, rfl⟩ := hr
      exact h.quiet (quiet_staging w staging)
    | ok a => exact h.quiet (Op.Does.quiet hop hr)
  refine ⟨h'.steps, ?_⟩
  cases r with
  | error e => exact hk (.error e) w' h'
  | ok a => exact hk (.ok a) w' h'

/-- A handler. -/
theorem attempt {L' : Exn → Prop} {p : Call Cell α} {f : Except Exn α → Call Cell β} (h : Publishes C L t w₀ p w)
    (hf : ∀ o w', Outcome C L t w₀ o w' → Publishes C L' t w₀ (f o) w') : Publishes C L' t w₀ (p.attempt.bind f) w :=
  Prog.wpx_attempt _ h hf

end Publishes

end publishes

/-- The new rows after the ones that are kept. -/
theorem content_append {f incoming : Frame Cell} {replaced columns : List String}
    (hin : ∀ r ∈ incoming.rows, pd.key incoming.columns r ∈ replaced)
    (hold : kept pd f.columns replaced f.rows ≠ [] → columns = f.columns)
    (hnew : incoming.rows ≠ [] → columns = incoming.columns) :
    Content pd incoming replaced (some f) (some ⟨columns, kept pd f.columns replaced f.rows ++ incoming.rows⟩) := by
  have hkept : ∀ s, (kept pd f.columns replaced f.rows).filter (fun r => decide (pd.key columns r = s)) =
      (kept pd f.columns replaced f.rows).filter (fun r => decide (pd.key f.columns r = s)) := by
    intro s
    by_cases hk : kept pd f.columns replaced f.rows = []
    · rw [hk]
      rfl
    · rw [hold hk]
  have hrows : ∀ s, incoming.rows.filter (fun r => decide (pd.key columns r = s)) =
      incoming.rows.filter (fun r => decide (pd.key incoming.columns r = s)) := by
    intro s
    by_cases hi : incoming.rows = []
    · rw [hi]
      rfl
    · rw [hnew hi]
  constructor
  · intro s hs
    change List.filter _ (_ ++ _) = _
    rw [List.filter_append, hkept, hrows]
    have hnil : (kept pd f.columns replaced f.rows).filter (fun r => decide (pd.key f.columns r = s)) = [] := by
      refine List.filter_eq_nil_iff.2 (fun r hr heq => ?_)
      have := of_decide_eq_true (List.mem_filter.1 hr).2
      rw [of_decide_eq_true heq] at this
      exact this hs
    rw [hnil, List.nil_append]
  · intro s hs
    change List.filter _ (_ ++ _) = List.filter _ _
    rw [List.filter_append, hkept, hrows]
    have hnil : incoming.rows.filter (fun r => decide (pd.key incoming.columns r = s)) = [] := by
      refine List.filter_eq_nil_iff.2 (fun r hr heq => hs ?_)
      rw [← of_decide_eq_true heq]
      exact hin r hr
    rw [hnil, List.append_nil]
    unfold kept
    rw [List.filter_filter]
    refine List.filter_congr (fun r _ => ?_)
    rw [Bool.eq_iff_iff]
    simp only [Bool.and_eq_true, decide_eq_true_eq]
    exact ⟨fun h => h.1, fun h => ⟨h, fun hmem => hs (h ▸ hmem)⟩⟩

/-- The frame of a partition; one that is not there has no rows. -/
def frameOf (file : Option (Frame Cell)) : Frame Cell := file.getD ⟨[], []⟩

theorem rowsIn_frameOf (s : String) (file : Option (Frame Cell)) : rowsIn pd s (some (frameOf file)) = rowsIn pd s file := by
  cases file <;> rfl

theorem Content.of_frameOf {incoming : Frame Cell} {replaced : List String} {old new : Option (Frame Cell)}
    (h : Content pd incoming replaced (some (frameOf old)) new) : Content pd incoming replaced old new :=
  ⟨h.fresh, fun s hs => (h.others s hs).trans (rowsIn_frameOf s old)⟩

/-- A partition without symbols has no rows, so its batches are empty. -/
theorem keepRows_quietly_nil {columns replaced : List String} (hsym : "symbol" ∉ columns) :
    ∀ {batches : List (List (Row Cell))} {w : World Cell}, Quiet w₀ w → batches.flatten = [] →
      Quietly w₀ (keepRows pd columns replaced batches ⟨false, 0, []⟩)
        (fun st' w' => StagedAs pd columns replaced [] st' w') w
  | [], w, hw, _ => Quietly.ret hw ⟨rfl, by simp [kept], rfl, fun h => by cases h⟩
  | batch :: batches, w, hw, h => by
    rw [List.flatten_cons, List.append_eq_nil_iff] at h
    obtain ⟨rfl, h⟩ := h
    unfold keepRows
    rw [if_neg hsym, if_neg hsym]
    exact keepRows_quietly_nil hsym hw h

theorem close_quietly (hw : Quiet w₀ w) : Quietly w₀ (ask .close) (fun _ w' => w' = w) w :=
  Quietly.ask rfl hw (fun _ _ _ h => h)

theorem stagedCount_quietly (hw : Quiet w₀ w) : Quietly w₀ (ask .stagedCount) (fun _ w' => w' = w) w :=
  Quietly.ask rfl hw (fun _ _ _ h => h.2)

section rewrite

variable {t : Target} {incoming : Frame Cell} {replaced : List String}

/-- What is kept is staged. -/
theorem stageKept_quietly {there : Bool} (hsym : HasSymbols (w₀.files t)) (hthere : there = (w₀.files t).isSome)
    (hw : Quiet w₀ w) :
    Quietly w₀ (if there then (ask (.read t)).bind fun stored => keepRows pd stored.1 replaced stored.2 ⟨false, 0, []⟩
      else .ret ⟨false, 0, []⟩)
      (fun st w' => StagedAs pd (frameOf (w₀.files t)).columns replaced (frameOf (w₀.files t)).rows st w') w := by
  apply Quietly.ite
  · intro _
    apply Quietly.bind (read_quietly hw)
    rintro ⟨columns, batches⟩ w' hw' ⟨f, hf, rfl, hrows⟩
    rw [hf]
    change Quietly w₀ (keepRows pd f.columns replaced batches _) (fun st w' => StagedAs pd f.columns replaced f.rows st w') w'
    dsimp only at hrows
    by_cases hcol : "symbol" ∈ f.columns
    · have hstart : StagedAs pd f.columns replaced [] ⟨false, 0, []⟩ w' := ⟨rfl, by simp [kept], rfl, fun h => by cases h⟩
      have := keepRows_quietly hcol batches hw' hstart
      rwa [List.nil_append, hrows] at this
    · have hnil := hsym f hf hcol
      rw [hnil]
      exact keepRows_quietly_nil hcol hw' (hrows.trans hnil)
  · rintro rfl
    have hnone : w₀.files t = none := by simpa using hthere.symm
    rw [hnone]
    exact Quietly.ret hw ⟨rfl, by simp [kept, frameOf], rfl, fun h => by cases h⟩

variable (incoming) in
/-- What comes in is staged after it. -/
theorem stageIncoming_quietly {f : Frame Cell} {st : Staged} (hst : StagedAs pd f.columns replaced f.rows st w)
    (hw : Quiet w₀ w) :
    Quietly w₀ (if incoming.rows.isEmpty then .ret st.opened
      else (writeTable st.opened incoming).bind fun _ => .ret true)
      (fun opened w' =>
        (opened = false → kept pd f.columns replaced f.rows = [] ∧ incoming.rows = []) ∧
        (opened = true → ∃ columns, w'.staging = some ⟨columns, kept pd f.columns replaced f.rows ++ incoming.rows⟩ ∧
          (kept pd f.columns replaced f.rows ≠ [] → columns = f.columns) ∧
          (incoming.rows ≠ [] → columns = incoming.columns))) w := by
  apply Quietly.ite
  · intro hnil
    have hnil' : incoming.rows = [] := List.isEmpty_iff.1 hnil
    apply Quietly.ret hw
    constructor
    · intro hfalse
      refine ⟨by_contra (fun hne => ?_), hnil'⟩
      rw [hst.opened.2 hne] at hfalse
      cases hfalse
    · intro htrue
      refine ⟨f.columns, ?_, fun _ => rfl, fun hne => absurd hnil' hne⟩
      rw [hst.staging htrue, hnil', List.append_nil]
  · intro hne
    apply Quietly.bind (writeTable_quietly hw)
    rintro - w' hw' ⟨hfirst, hnext⟩
    apply Quietly.ret hw'
    refine ⟨fun h => (by cases h), fun _ => ?_⟩
    cases hop : st.opened with
    | false =>
      have hnone : kept pd f.columns replaced f.rows = [] := by
        by_contra hk
        rw [hst.opened.2 hk] at hop
        cases hop
      refine ⟨incoming.columns, ?_, fun hk => absurd hnone hk, fun _ => rfl⟩
      rw [hfirst hop, hnone]
      rfl
    | true =>
      obtain ⟨g, hg, hcol, hstaging⟩ := hnext hop
      cases (hst.staging hop).symm.trans hg
      exact ⟨f.columns, hstaging, fun _ => rfl, fun _ => hcol⟩

/-- **The rewrite publishes what it staged**, and raises nothing once it has. -/
theorem stage_publishes {beforeCount : Nat} (hsym : HasSymbols (w₀.files t))
    (hin : ∀ r ∈ incoming.rows, pd.key incoming.columns r ∈ replaced) (hw : Quiet w₀ w) :
    Publishes (Content pd incoming replaced) (fun _ => False) t w₀ (stage pd t incoming replaced beforeCount) w := by
  have hkeys : kept pd (frameOf (w₀.files t)).columns replaced (frameOf (w₀.files t)).rows = [] →
      ∀ r ∈ (frameOf (w₀.files t)).rows, pd.key (frameOf (w₀.files t)).columns r ∈ replaced := by
    intro hnil r hr
    by_contra hno
    have : r ∈ kept pd (frameOf (w₀.files t)).columns replaced (frameOf (w₀.files t)).rows :=
      List.mem_filter.2 ⟨hr, decide_eq_true hno⟩
    rw [hnil] at this
    cases this
  apply Publishes.bind (isThere_quietly hw)
  intro there w₁ hw₁ hthere
  apply Publishes.bind (stageKept_quietly hsym hthere hw₁)
  intro st w₂ hw₂ hst
  apply Publishes.bind (stageIncoming_quietly incoming hst hw₂)
  rintro opened w₃ hw₃ ⟨hclosed, hopened⟩
  apply Publishes.ite
  · intro htrue
    obtain ⟨columns, hstaging, hold, hnew⟩ := hopened htrue
    apply Publishes.bind (close_quietly hw₃)
    rintro _ w₄ hw₄ rfl
    apply Publishes.bind (stagedCount_quietly hw₄)
    rintro staged w₅ hw₅ rfl
    by_cases hcount : staged ≠ st.keptRows + incoming.rows.length
    · rw [if_pos hcount]
      exact Publishes.raise hw₅
    · rw [if_neg hcount]
      apply Publishes.publish hw₅
      rintro - w' ⟨-, rfl⟩
      have hcontent := (content_append hin hold hnew).of_frameOf
      rw [hstaging]
      refine ⟨?_, ?_, hw₅.tombstones, congrArg (· + 1) hw₅.publications⟩
      · dsimp only
        rw [Function.update_self]
        exact hcontent
      · intro t' ht'
        dsimp only
        rw [Function.update_of_ne ht', hw₅.files]
  · intro hfalse
    obtain ⟨hnil, hempty⟩ := hclosed hfalse
    apply Publishes.bind (isThere_quietly hw₃)
    intro there' w₄ hw₄ hthere'
    apply Publishes.ite
    · intro _
      apply Publishes.publish hw₄
      rintro - w' rfl
      refine ⟨⟨?_, ?_⟩, ?_, hw₄.tombstones, congrArg (· + 1) hw₄.publications⟩
      · intro s _
        dsimp only
        rw [Function.update_self, hempty]
        rfl
      · intro s hs
        dsimp only
        rw [Function.update_self, ← rowsIn_frameOf s (w₀.files t)]
        refine (List.filter_eq_nil_iff.2 (fun r hr heq => hs ?_)).symm
        rw [← of_decide_eq_true heq]
        exact hkeys hnil r hr
      · intro t' ht'
        dsimp only
        rw [Function.update_of_ne ht', hw₄.files]
    · intro hcond
      apply Publishes.ret hw₄
      refine ⟨fun s _ => ?_, fun s _ => rfl⟩
      -- the partition has no rows: all of them would be replaced, and it would be removed
      have hrows : (frameOf (w₀.files t)).rows = [] := by
        cases hfile : w₀.files t with
        | none => rfl
        | some f =>
          by_contra hne
          rw [hfile] at hthere' hst hkeys hnil
          have hall : st.beforeSymbols.all (fun s => decide (s ∈ replaced)) = true := by
            rw [List.all_eq_true, hst.before]
            intro s hs
            obtain ⟨r, hr, rfl⟩ := List.mem_map.1 hs
            exact decide_eq_true (hkeys hnil r hr)
          have hbefore : st.beforeSymbols.isEmpty = false := by
            rw [hst.before]
            simpa using hne
          rw [hthere', hall, hbefore] at hcond
          cases hcond
      rw [← rowsIn_frameOf s (w₀.files t), hempty]
      change List.filter _ (frameOf (w₀.files t)).rows = _
      rw [hrows]
      rfl

theorem stageAndClean_publishes {beforeCount : Nat} (hsym : HasSymbols (w₀.files t))
    (hin : ∀ r ∈ incoming.rows, pd.key incoming.columns r ∈ replaced) (hw : Quiet w₀ w) :
    Publishes (Content pd incoming replaced) (fun e => e.isOSError = true) t w₀
      (stageAndClean pd t incoming replaced beforeCount) w := by
  apply Publishes.attempt (stage_publishes hsym hin hw)
  intro o w' ho
  cases o with
  | ok n =>
    have ho' : Outcome (Content pd incoming replaced) (fun e => e.isOSError = true) t w₀ (.ok n : Except Exn Nat) w' :=
      ho.imp_right (fun hp => ⟨hp.1, fun e he => by cases he⟩)
    exact Publishes.after rfl (fun e he => he) ho' (fun _ _ h => h)
  | error e =>
    have hq := ho.quiet_of_error id
    apply Publishes.bind (φ := fun _ _ => True) (Quietly.ask rfl hq (fun _ _ _ _ => trivial))
    intro _ w₁ hw₁ _
    apply Publishes.bind (φ := fun _ _ => True) (Quietly.ask rfl hw₁ (fun _ _ _ _ => trivial))
    exact fun _ w₂ hw₂ _ => Publishes.raise hw₂

end rewrite

end Intraday
