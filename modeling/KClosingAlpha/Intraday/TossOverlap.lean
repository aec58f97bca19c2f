import KClosingAlpha.Intraday.Basis
import KClosingAlpha.Intraday.TossBackfill
import KClosingAlpha.Lib.KeepLast
/-!
# TossOverlap — what a date of the Toss backfill keeps of the rows that others wrote

The symbols a date fetches have no rows when it reads what is stored, and it does not look again.  Its write replaces
whole symbols, so what others stored meanwhile stays exactly where it is more than was fetched, or is among it
(`NothingToLose`); beside writers that leave the symbols under way alone nothing is lost (`LeavesFetched`).  In its ledger
a symbol is settled by the rows the date itself has put there (`Settled`).
-/
namespace Intraday

open KeepLast (latest)

variable {Cell : Type} {pd : Pandas Cell}

/-! ## One write -/

/-- Every row stays. -/
def KeepsRows (pd : Pandas Cell) (old new : Option (Frame Cell)) : Prop :=
  ∀ s, ∀ row ∈ rowsIn pd s old, row ∈ rowsIn pd s new

theorem KeepsRows.of_eq {old new : Option (Frame Cell)} (h : new = old) : KeepsRows pd old new := by
  subst h
  exact fun _ _ h => h

/-- The rows of every symbol are among those that come in, or are more. -/
def NothingToLose (pd : Pandas Cell) (incoming : Frame Cell) (file : Option (Frame Cell)) : Prop :=
  ∀ s, storedRows pd s file ≤ storedRows pd s (some incoming) → ∀ row ∈ rowsIn pd s file, row ∈ rowsIn pd s (some incoming)

theorem SameRows.mem_iff {sortOutput : Bool} {a b : List (Row Cell)} (h : SameRows sortOutput a b) {row : Row Cell} :
    row ∈ a ↔ row ∈ b := by
  unfold SameRows at h
  split_ifs at h
  · exact h.mem_iff
  · rw [h]

theorem rowsIn_eq_nil {df : Frame Cell} {s : String} (h : ∀ row ∈ df.rows, pd.key df.columns row ≠ s) :
    rowsIn pd s (some df) = [] :=
  List.filter_eq_nil_iff.2 (fun row hrow => by simpa using h row hrow)

/-- **What a write keeps**, where it replaces the symbols of its rows. -/
theorem Written.keepsRows_iff {df : Frame Cell} {asked : List String} {sortOutput : Bool} {old new : Option (Frame Cell)}
    (h : Written pd df asked [] sortOutput old new) (hasked : ∀ row ∈ df.rows, pd.key df.columns row ∈ asked) :
    KeepsRows pd old new ↔ NothingToLose pd df old := by
  have hcount : ∀ s, storedRows pd s (some df) = pd.count df.columns s df.rows := fun s =>
    List.countP_eq_length_filter.symm
  constructor
  · intro hkeeps s hle row hrow
    by_cases hs : s ∈ asked
    · exact (h.replaced s ⟨hs, .inl (hcount s ▸ hle)⟩).mem_iff.1 (hkeeps s row hrow)
    · have hnil : rowsIn pd s (some df) = [] := rowsIn_eq_nil (fun r hr heq => hs (heq ▸ hasked r hr))
      unfold storedRows at hle
      rw [hnil, List.length_nil, Nat.le_zero, List.length_eq_zero_iff] at hle
      rw [hle] at hrow
      cases hrow
  · intro hnothing s row hrow
    by_cases hr : Replaces pd old df asked [] s
    · have hle : storedRows pd s old ≤ storedRows pd s (some df) := by
        rw [hcount]
        exact hr.2.resolve_right List.not_mem_nil
      exact (h.replaced s hr).mem_iff.2 (hnothing s hle row hrow)
    · rw [h.kept s hr]
      exact hrow

/-- A write brings rows of its frame. -/
theorem normalized_sub (pd : Pandas Cell) (k : Layout Cell) {args : WriteArgs Cell} {df : Frame Cell}
    (hdf : args.df = some df) :
    (args.normalized pd k).columns = df.columns ∧ (args.normalized pd k).rows ⊆ df.rows := by
  unfold WriteArgs.normalized
  rw [hdf]
  dsimp only
  split_ifs
  · exact ⟨rfl, List.Subset.refl _⟩
  · cases hrec : k.reconcile pd df.rows with
    | error e => exact ⟨rfl, List.nil_subset _⟩
    | ok rows => exact ⟨rfl, k.subset pd _ _ hrec⟩

/-- They are of symbols it asks to replace. -/
theorem normalized_asked {k : Layout Cell} {args : WriteArgs Cell} :
    ∀ row ∈ (args.normalized pd k).rows, pd.key (args.normalized pd k).columns row ∈ args.asked pd := by
  intro row hrow
  cases hdf : args.df with
  | none =>
    unfold WriteArgs.normalized at hrow
    rw [hdf] at hrow
    cases hrow
  | some df =>
    obtain ⟨hcol, hsub⟩ := normalized_sub pd k hdf
    unfold WriteArgs.asked
    rw [hcol, hdf]
    exact List.mem_append_left _ ((pd.mem_symbols _).2 ⟨row, hsub hrow, rfl⟩)

/-- A partition that has none of the symbols of a frame has nothing to lose. -/
theorem nothingToLose_of_vacant {k : Layout Cell} {args : WriteArgs Cell} {df : Frame Cell} {old : Option (Frame Cell)}
    (hdf : args.df = some df) (h : ∀ row ∈ df.rows, rowsIn pd (pd.key df.columns row) old = []) :
    NothingToLose pd (args.normalized pd k) old := by
  obtain ⟨hcol, hsub⟩ := normalized_sub pd k hdf
  intro s hle row hrow
  exfalso
  by_cases hs : ∃ r ∈ (args.normalized pd k).rows, pd.key (args.normalized pd k).columns r = s
  · obtain ⟨r, hr, rfl⟩ := hs
    rw [hcol, h r (hsub hr)] at hrow
    cases hrow
  · have hnil : rowsIn pd s (some (args.normalized pd k)) = [] := rowsIn_eq_nil (fun r hr heq => hs ⟨r, hr, heq⟩)
    unfold storedRows at hle
    rw [hnil, List.length_nil, Nat.le_zero, List.length_eq_zero_iff] at hle
    rw [hle] at hrow
    cases hrow

/-- A write that has published has validated its rows. -/
theorem validated_of_reach {k : Layout Cell} {t : Target} {args : WriteArgs Cell} {df : Frame Cell} {w w' : World Cell}
    (hdf : args.df = some df) (hne : df.rows ≠ []) (h : Prog.Reach Exec (writePartition pd k t args) w w') :
    Quiet w w' ∨ ∃ symbols, validateFrame pd k df args.snapshotDate args.session args.coverage = .ok symbols := by
  refine or_iff_not_imp_right.2 (fun hno => ?_)
  have hquiet : Quietly w (writePartition pd k t args) (fun _ _ => True) w := by
    apply Quietly.bind (φ := fun _ _ => True) (Quietly.ofExcept (Quiet.refl w) (fun _ _ => trivial))
    intro _ w₁ hw₁ _
    apply Quietly.bind (φ := fun _ _ => True) (Quietly.ofExcept hw₁ (fun _ _ => trivial))
    intro _ w₂ hw₂ _
    apply Quietly.bind (requireWritable_quietly hw₂)
    intro _ w₃ hw₃ _
    rw [hdf]
    apply Quietly.ite
    · exact fun hempty => absurd (List.isEmpty_iff.1 hempty) hne
    intro _
    apply Quietly.bind (Quietly.ofExcept (φ := fun symbols _ =>
      validateFrame pd k df args.snapshotDate args.session args.coverage = .ok symbols) hw₃ (fun _ h => h))
    exact fun symbols _ _ hsymbols => absurd ⟨symbols, hsymbols⟩ hno
  exact Prog.keeps_reach hquiet (Quiet.refl w) h

/-- Rows that are validated have a coverage each. -/
theorem has_of_validateFrame {k : Layout Cell} {df : Frame Cell} {snapshotDate session : String} {coverage : Coverage}
    {symbols : List String} (h : validateFrame pd k df snapshotDate session (some coverage) = .ok symbols) :
    ∀ row ∈ df.rows, coverage.has (pd.key df.columns row) = true := by
  intro row hrow
  unfold validateFrame at h
  simp only [Exc.bind_eq_ok] at h
  obtain ⟨-, -, -, -, -, -, h⟩ := h
  split at h
  · cases h
  · simp only [Exc.bind_eq_ok, Exc.raiseIf_eq_ok] at h
    obtain ⟨-, -, -, -, -, hmissing, -⟩ := h
    by_contra hno
    refine hmissing (List.ne_nil_of_mem (List.mem_filter.2 ⟨(pd.mem_symbols _).2 ⟨row, hrow, rfl⟩, ?_⟩))
    simpa using hno

/-! ## The ledger of a date -/

def BackfillTask.key (task : BackfillTask) (s : String) : String × String × String := (task.snapshotDate, task.session, s)

theorem keepLast_eq (l : List BackfillRow) : keepLast l = KeepLast.keepLast BackfillRow.key l := by
  induction l with
  | nil => rfl
  | cons row l ih =>
    have hany : l.any (fun r => decide (r.key = row.key)) = true ↔ row.key ∈ l.map BackfillRow.key := by
      simp only [List.any_eq_true, decide_eq_true_eq, List.mem_map]
    unfold keepLast
    rw [KeepLast.keepLast_cons, ih]
    by_cases h : row.key ∈ l.map BackfillRow.key
    · rw [if_pos h, if_pos (hany.2 h)]
    · rw [if_neg h, if_neg (fun h' => h (hany.1 h'))]

theorem latest_filter_date (l : List BackfillRow) (task : BackfillTask) (s : String) :
    latest BackfillRow.key (task.key s) (l.filter (fun row => decide (row.snapshotDate = task.snapshotDate) &&
      decide (row.session = task.session))) = latest BackfillRow.key (task.key s) l := by
  unfold latest
  rw [List.filter_filter]
  refine congrArg List.getLast? (List.filter_congr (fun row _ => ?_))
  unfold BackfillRow.key BackfillTask.key
  by_cases hd : row.snapshotDate = task.snapshotDate <;> by_cases hse : row.session = task.session <;>
    by_cases hsy : row.symbol = s <;> simp [hd, hse, hsy]

/-- A symbol is settled by its last row. -/
theorem mem_terminalSymbols_iff {l : List BackfillRow} {task : BackfillTask} {s : String} : s ∈ terminalSymbols l task ↔
    ∃ row, latest BackfillRow.key (task.key s) l = some row ∧ row.status ∈ terminalLedgerStates := by
  unfold terminalSymbols latestRows
  rw [keepLast_eq]
  simp only [List.mem_map, List.mem_filter, decide_eq_true_eq]
  constructor
  · rintro ⟨row, ⟨hrow, hstatus⟩, rfl⟩
    have hin := (List.mem_filter.1 (KeepLast.mem_of_mem_keepLast hrow)).2
    simp only [Bool.and_eq_true, decide_eq_true_eq] at hin
    have hkey : row.key = task.key row.symbol := by
      unfold BackfillRow.key BackfillTask.key
      rw [hin.1, hin.2]
    refine ⟨row, ?_, hstatus⟩
    rw [← latest_filter_date, ← hkey]
    exact KeepLast.mem_keepLast_iff.1 hrow
  · rintro ⟨row, hrow, hstatus⟩
    rw [← latest_filter_date] at hrow
    have hkey := (KeepLast.mem_of_latest hrow).2
    refine ⟨row, ⟨KeepLast.mem_keepLast_iff.2 (hkey ▸ hrow), hstatus⟩, ?_⟩
    exact congrArg (fun k => k.2.2) hkey

/-- What the ledger says of a symbol that was not settled, the rows that the date has put say. -/
def DateUnderWay.Settled (d : DateUnderWay) (ledger : List BackfillRow) : Prop :=
  ∀ s, s ∉ d.terminal → (s ∈ terminalSymbols ledger d.task ↔ s ∈ terminalSymbols d.puts d.task)

theorem DateUnderWay.Settled.put {d : DateUnderWay} {ledger : List BackfillRow} (h : d.Settled ledger)
    (rows : List BackfillRow) : { d with puts := d.puts ++ rows }.Settled (keepLast (ledger ++ rows)) := by
  intro s hs
  have hs' := h s hs
  rw [mem_terminalSymbols_iff, mem_terminalSymbols_iff] at hs' ⊢
  rw [keepLast_eq, KeepLast.latest_keepLast, KeepLast.latest_append, KeepLast.latest_append]
  cases latest BackfillRow.key (d.task.key s) rows with
  | none => exact hs'
  | some row => exact Iff.rfl

/-! ## What a call does -/

variable [DecidableEq Cell]

/-- The date under way is settled by its own rows. -/
def TossWorld.Settled (w : TossWorld Cell) : Prop := ∀ d, w.underWay = some d → d.Settled w.ledger

section calls

variable {w w₁ w' : TossWorld Cell} {task : BackfillTask}

omit [DecidableEq Cell] in
theorem settled_put (h : w.Settled) (rows : List BackfillRow) : (w.put rows).Settled := by
  unfold TossWorld.put
  split_ifs
  · exact h
  · rintro d hd
    obtain ⟨d₀, hd₀, rfl⟩ := Option.map_eq_some_iff.1 hd
    exact (h d₀ hd₀).put rows

omit [DecidableEq Cell] in
theorem settled_note (h : w.Settled) (stored : Option (List String)) : (w.note stored).Settled := by
  rintro d hd
  obtain ⟨d₀, hd₀, rfl⟩ := Option.map_eq_some_iff.1 hd
  exact h d₀ hd₀

omit [DecidableEq Cell] in
theorem settled_begin (w : TossWorld Cell) (task : BackfillTask) : (w.begin task).Settled := by
  rintro d hd s hs
  cases hd
  exact ⟨fun h => absurd h hs, fun h => (by cases h)⟩

/-- **No call settles a symbol but by a row of the date.** -/
theorem TossExec.settled {op : TossOp Cell} {r : op.Ret} (hexec : TossExec pd op w r w') (h : w.Settled) : w'.Settled := by
  cases op with
  | stopped | evicted | manifest =>
    rw [show w' = w from hexec]
    exact h
  | readLedger | fetch =>
    rw [hexec.2]
    exact h
  | terminalSymbols task =>
    rw [hexec.2]
    exact settled_begin w task
  | storedSymbols task =>
    rw [hexec.2]
    exact settled_note h _
  | write args =>
    obtain ⟨store, -, rfl⟩ := hexec
    exact settled_note (w := { w with store }) h none
  | record | recordCachedAbsent =>
    rcases hexec with rfl | ⟨-, rfl⟩
    · exact settled_put h _
    · exact h

/-- The calls that leave the partitions alone. -/
def TossOp.writes : TossOp Cell → Bool
  | write _ => true
  | _ => false

omit [DecidableEq Cell] in
theorem store_put (w : TossWorld Cell) (rows : List BackfillRow) : (w.put rows).store = w.store := by
  unfold TossWorld.put
  split_ifs <;> rfl

theorem TossExec.store {op : TossOp Cell} (hop : op.writes = false) {r : op.Ret} (hexec : TossExec pd op w r w') :
    w'.store = w.store := by
  cases op with
  | write => cases hop
  | stopped | evicted | manifest => rw [show w' = w from hexec]
  | readLedger | fetch => rw [hexec.2]
  | terminalSymbols | storedSymbols =>
    rw [hexec.2]
    rfl
  | record | recordCachedAbsent =>
    rcases hexec with rfl | ⟨-, rfl⟩
    · exact store_put w _
    · rfl

/-- **What the write of a date keeps**: everything where it has nothing to lose, and only then where it returns. -/
theorem TossExec.keepsRows {args : WriteArgs Cell} {r : Except Exn Nat} (hexec : TossExec pd (.write args) w r w') :
    let t : Target := .bars 1 args.snapshotDate args.session
    args.allowShrinkSymbols = [] →
      (NothingToLose pd (args.normalized pd barLayout) (w.store.files t) → KeepsRows pd (w.store.files t) (w'.store.files t)) ∧
      ∀ n, r = .ok n → (KeepsRows pd (w.store.files t) (w'.store.files t) ↔
        NothingToLose pd (args.normalized pd barLayout) (w.store.files t)) := by
  intro t hallow
  obtain ⟨store, hends, rfl⟩ := hexec
  have hmade : ∀ {old new}, (Write.bars 1 args).Makes pd old new →
      (KeepsRows pd old new ↔ NothingToLose pd (args.normalized pd barLayout) old) := fun h => by
    unfold Write.Makes Write.args at h
    rw [hallow] at h
    exact h.keepsRows_iff normalized_asked
  constructor
  · intro hnothing
    rcases Write.reach (c := .bars 1 args) hends.reach with hquiet | hpublished
    · exact .of_eq (congrFun hquiet.files t)
    · exact (hmade hpublished.content).2 hnothing
  · rintro n rfl
    exact hmade (Write.ends_ok (c := .bars 1 args) hends).1

end calls

/-! ## Beside writers that leave the symbols under way alone -/

/-- Another process writes, and stores no rows of a symbol that the date under way takes for absent. -/
def LeavesFetched (pd : Pandas Cell) (w w' : TossWorld Cell) : Prop :=
  WritesAtWill pd w w' ∧ ∀ d stored, w.underWay = some d → d.stored = some stored → ∀ s ∈ d.task.symbols, s ∉ stored →
    rowsIn pd s (w.store.files d.task.target) = [] → rowsIn pd s (w'.store.files d.task.target) = []

/-- The date takes what it did not read as stored for absent, and it is. -/
structure Vacant (pd : Pandas Cell) (task : BackfillTask) (stored : List String) (w : TossWorld Cell) : Prop where
  underWay : ∃ terminal puts, w.underWay = some ⟨task, terminal, some stored, puts⟩
  vacant : ∀ s ∈ task.symbols, s ∉ stored → s ≠ "" → rowsIn pd s (w.store.files task.target) = []

section beside

variable {w w₁ w' : TossWorld Cell} {task : BackfillTask} {stored : List String} {α β : Type}

/-- Others wrote any number of times. -/
abbrev Left (pd : Pandas Cell) : TossWorld Cell → TossWorld Cell → Prop := Relation.ReflTransGen (LeavesFetched pd)

theorem LeavesFetched.underWay (h : LeavesFetched pd w w') : w'.underWay = w.underWay := by
  obtain ⟨⟨c, store, -, rfl⟩, -⟩ := h
  rfl

theorem left_underWay (h : Left pd w w') : w'.underWay = w.underWay := by
  induction h with
  | refl => rfl
  | tail _ hstep ih => rw [hstep.underWay, ih]

theorem Vacant.left (h : Vacant pd task stored w) (hleft : Left pd w w') : Vacant pd task stored w' := by
  induction hleft with
  | refl => exact h
  | tail _ hstep ih =>
    obtain ⟨terminal, puts, hd⟩ := ih.underWay
    refine ⟨⟨terminal, puts, hstep.underWay.trans hd⟩, fun s hs hno hne => ?_⟩
    exact hstep.2 _ stored hd rfl s hs hno (ih.vacant s hs hno hne)

/-- Every call keeps every row, and a value satisfies `φ`. -/
abbrev Beside (pd : Pandas Cell) (p : TossCall Cell α) (φ : α → TossWorld Cell → Prop) (w : TossWorld Cell) : Prop :=
  Prog.among (TossExec pd) (Left pd) (fun w w' => ∀ t, KeepsRows pd (w.store.files t) (w'.store.files t)) (fun _ => True) p φ w

theorem Beside.ask {op : TossOp Cell} (hop : op.writes = false) {φ : op.Ans → TossWorld Cell → Prop}
    (h : ∀ w₁ r w₂, Left pd w w₁ → TossExec pd op w₁ r w₂ → ∀ a, r = .ok a → φ a w₂) : Beside pd op.ask φ w := by
  intro w₁ hleft r w₂ hexec
  exact ⟨fun t => .of_eq (by rw [hexec.store hop]), Prog.among_ofExcept trivial (h w₁ r w₂ hleft hexec)⟩

theorem Beside.calm {op : TossOp Cell} (hop : op.writes = false) : Beside pd op.ask (fun _ _ => True) w :=
  .ask hop (fun _ _ _ _ _ _ _ => trivial)

theorem Beside.bind {p : TossCall Cell α} {f : α → TossCall Cell β} {φ : α → TossWorld Cell → Prop}
    {ψ : β → TossWorld Cell → Prop} (h : Beside pd p φ w) (hf : ∀ a w', φ a w' → Beside pd (f a) ψ w') :
    Beside pd (p.bind f) ψ w :=
  Prog.among_bind h (fun a w' _ h' => hf a w' h')

theorem Beside.ret {φ : α → TossWorld Cell → Prop} {a : α} (h : φ a w) : Beside pd (.ret a) φ w := Prog.among_ret trivial h

theorem Beside.ite {c : Prop} [Decidable c] {p q : TossCall Cell α} {φ : α → TossWorld Cell → Prop}
    (hp : c → Beside pd p φ w) (hq : ¬ c → Beside pd q φ w) : Beside pd (if c then p else q) φ w := by
  split_ifs with h
  · exact hp h
  · exact hq h

omit [DecidableEq Cell] in
theorem key_of_not_mem {columns : List String} (h : "symbol" ∉ columns) (row : Row Cell) : pd.key columns row = "" := by
  have hnone : cell columns "symbol" row = none := by
    unfold cell
    rw [List.lookup_eq_none_iff]
    rintro ⟨c, x⟩ hmem
    have hc : "symbol" ≠ c := fun heq => h (heq ▸ (List.of_mem_zip hmem).1)
    simpa using hc
  unfold Pandas.key Pandas.strOf
  rw [hnone]
  rfl

/-- What is not read as stored is vacant. -/
theorem vacant_of_storedSymbols {terminal : List String} {puts : List BackfillRow}
    (hd : w.underWay = some ⟨task, terminal, none, puts⟩) (hexec : TossExec pd (.storedSymbols task) w (.ok stored) w') :
    Vacant pd task stored w' := by
  obtain ⟨hstored, rfl⟩ := hexec
  refine ⟨⟨terminal, puts, ?_⟩, fun s hs hno hne => ?_⟩
  · exact congrArg (Option.map _) hd
  · have hread := hstored stored rfl
    unfold StoredSymbols at hread
    change rowsIn pd s (w.store.files task.target) = []
    cases hf : w.store.files task.target with
    | none => rfl
    | some f =>
      rw [hf] at hread
      refine rowsIn_eq_nil (fun row hrow heq => ?_)
      by_cases hcol : "symbol" ∈ f.columns
      · exact hno ((hread s).2 ⟨hcol, row, hrow, heq⟩)
      · exact hne (heq.symm.trans (key_of_not_mem hcol row))

/-- The write of a date whose symbols are vacant keeps every row. -/
theorem Vacant.write {args : WriteArgs Cell} {df : Frame Cell} {coverage : Coverage} {r : Except Exn Nat}
    (h : Vacant pd task stored w) (hexec : TossExec pd (.write args) w r w') (ht : Target.bars 1 args.snapshotDate args.session = task.target)
    (hdf : args.df = some df) (hcov : args.coverage = some coverage) (hallow : args.allowShrinkSymbols = [])
    (hnew : ∀ s, coverage.has s = true → s ∈ task.symbols ∧ s ∉ stored ∧ s ≠ "") (t : Target) :
    KeepsRows pd (w.store.files t) (w'.store.files t) := by
  obtain ⟨store, hends, rfl⟩ := id hexec
  rcases Write.reach (c := .bars 1 args) hends.reach with hquiet | hpublished
  · exact .of_eq (congrFun hquiet.files t)
  by_cases hne : t = .bars 1 args.snapshotDate args.session
  swap
  · exact .of_eq (hpublished.others t hne)
  subst hne
  refine (hexec.keepsRows hallow).1 (nothingToLose_of_vacant hdf (fun row hrow => ?_))
  rcases validated_of_reach hdf (List.ne_nil_of_mem hrow) hends.reach with hquiet | ⟨symbols, hvalid⟩
  · have := hpublished.publications
    have := hquiet.publications
    omega
  · rw [hcov] at hvalid
    obtain ⟨hs, hno, hnamed⟩ := hnew _ (has_of_validateFrame hvalid row hrow)
    rw [ht]
    exact h.vacant _ hs hno hnamed

/-- Calls that leave the partitions and the date under way alone keep what is vacant. -/
theorem Vacant.ask {op : TossOp Cell} {φ : op.Ans → Prop} (h : Vacant pd task stored w) (hop : op.writes = false)
    (hquiet : ∀ w₁ r w₂, TossExec pd op w₁ r w₂ → w₂ = w₁ ∧ ∀ a, r = .ok a → φ a) :
    Beside pd op.ask (fun a w' => Vacant pd task stored w' ∧ φ a) w := by
  refine .ask hop (fun w₁ r w₂ hleft hexec a ha => ?_)
  obtain ⟨rfl, hφ⟩ := hquiet w₁ r w₂ hexec
  exact ⟨h.left hleft, hφ a ha⟩

/-- What was fetched for some symbols. -/
structure Fetched (symbols : List String) (fetched : List (String × Acquisition Cell)) : Prop where
  symbols : fetched.map Prod.fst = symbols
  named : ∀ p ∈ fetched, p.2.2.symbol = some (zfill6 p.1)

theorem fetchAll_beside (task' : BackfillTask) : ∀ {symbols : List String} {w : TossWorld Cell}, Vacant pd task stored w →
    Beside pd (fetchAll task' symbols) (fun fetched w' => Vacant pd task stored w' ∧ Fetched symbols fetched) w
  | [], w, h => .ret ⟨h, ⟨rfl, fun p hp => by cases hp⟩⟩
  | symbol :: symbols, w, h => by
    unfold fetchAll
    have hfetch : Beside pd (TossOp.fetch task' symbol).ask
        (fun a w' => Vacant pd task stored w' ∧ a.2.symbol = some (zfill6 symbol)) w := by
      refine Vacant.ask h rfl ?_
      rintro w₁ r w₂ ⟨hacq, rfl⟩
      exact ⟨rfl, fun a ha => (hacq a ha).named⟩
    apply Beside.bind hfetch
    rintro a w₁ ⟨h₁, hnamed⟩
    apply Beside.bind (fetchAll_beside task' h₁)
    rintro rest w₂ ⟨h₂, hrest⟩
    refine .ret ⟨h₂, ⟨congrArg (symbol :: ·) hrest.symbols, ?_⟩⟩
    exact List.forall_mem_cons.2 ⟨hnamed, hrest.named⟩

omit [DecidableEq Cell] in
theorem zfill6_ne (s : String) : zfill6 s ≠ "" := by
  unfold zfill6
  intro h
  have hlist := congrArg String.toList h
  split at hlist
  · simp at hlist
  · simp at hlist
  · simp only [String.toList_ofList, String.toList_empty, List.append_eq_nil_iff] at hlist
    rw [hlist.2] at hlist
    simp at hlist

omit [DecidableEq Cell] in
theorem TossProfile.mem_kept {profile : TossProfile} {attempted : List CoverageEntry} {entry : CoverageEntry}
    (h : entry ∈ profile.kept attempted) : entry ∈ attempted := by
  unfold TossProfile.kept at h
  split_ifs at h
  · exact List.mem_of_mem_filter h
  · exact h

omit [DecidableEq Cell] in
/-- The coverage of a write is of symbols that were fetched. -/
theorem Fetched.coverage {symbols : List String} {fetched : List (String × Acquisition Cell)} (h : Fetched symbols fetched)
    {profile : TossProfile} {s : String}
    (hs : (tossCoverage (tossFrames fetched) (profile.kept (fetched.map (fun p => p.2.2)))).has s = true) :
    s ∈ symbols ∧ s ≠ "" := by
  obtain ⟨entry, hentry⟩ := Py.Dict.has_iff.1 hs
  have hkey := List.mem_map_of_mem (f := Prod.fst) (Py.Dict.mem_of_lookup hentry)
  obtain ⟨p, hp, rfl⟩ := List.mem_map.1 ((Py.Dict.mem_keys_update.1 hkey).resolve_left List.not_mem_nil)
  obtain ⟨entry', hkept, hsome⟩ := List.mem_filterMap.1 hp
  obtain ⟨symbol, hsymbol, hif⟩ := Option.bind_eq_some_iff.1 hsome
  split_ifs at hif with hframe
  cases hif
  constructor
  · obtain ⟨f, hf⟩ := Py.Dict.has_iff.1 hframe
    have hkey' := List.mem_map_of_mem (f := Prod.fst) (Py.Dict.mem_of_lookup hf)
    obtain ⟨q, hq, hname⟩ := List.mem_map.1 ((Py.Dict.mem_keys_update.1 hkey').resolve_left List.not_mem_nil)
    obtain ⟨a, ha, hif'⟩ := List.mem_filterMap.1 hq
    split_ifs at hif'
    cases hif'
    rw [← h.symbols, ← hname]
    exact List.mem_map_of_mem ha
  · obtain ⟨a, ha, rfl⟩ := List.mem_map.1 (profile.mem_kept hkept)
    have hnamed := h.named a ha
    rw [hsymbol, Option.some.injEq] at hnamed
    rw [hnamed]
    exact zfill6_ne _

theorem publishTossDate_beside {profile : TossProfile} {task : BackfillTask} {symbols cached : List String}
    {fetched : List (String × Acquisition Cell)} (h : Vacant pd task.regular stored w) (hf : Fetched symbols fetched)
    (hnew : ∀ s ∈ symbols, s ∈ task.symbols ∧ s ∉ stored) :
    Beside pd (publishTossDate profile task cached fetched) (fun _ _ => True) w := by
  unfold publishTossDate
  apply Beside.bind (φ := fun _ _ => True)
  · apply Beside.ite
    · exact fun _ => .ret trivial
    · intro _
      apply Beside.bind (φ := fun _ _ => True)
      · intro w₁ hleft r w₂ hexec
        refine ⟨(h.left hleft).write hexec rfl rfl rfl rfl (fun s hs => ?_), Prog.among_ofExcept trivial (fun _ _ => trivial)⟩
        obtain ⟨hmem, hne⟩ := hf.coverage hs
        exact ⟨(hnew s hmem).1, (hnew s hmem).2, hne⟩
      · exact fun _ _ _ => .ret trivial
  intro _ w₁ _
  apply Beside.bind (φ := fun _ _ => True)
  · apply Beside.ite
    · exact fun _ => .ret trivial
    · exact fun _ => .bind (.calm rfl) (fun _ _ _ => .bind (.calm rfl) (fun _ _ _ => .bind (.calm rfl) (fun _ _ _ => .ret trivial)))
  intro _ w₂ _
  apply Beside.ite
  · exact fun _ => .ret trivial
  · exact fun _ => .calm rfl

theorem runTossPending_beside {profile : TossProfile} {task : BackfillTask} {progress : TossProgress}
    {fetchable cached : List String} (h : Vacant pd task.regular stored w)
    (hnew : ∀ s ∈ fetchable, s ∈ task.symbols ∧ s ∉ stored) :
    Beside pd (runTossPending profile task progress fetchable cached) (fun _ _ => True) w := by
  unfold runTossPending
  have hevicted : Beside pd (TossOp.evicted task.regular).ask (fun _ w' => Vacant pd task.regular stored w' ∧ True) w :=
    Vacant.ask (φ := fun _ => True) h rfl (fun w₁ r w₂ hexec => ⟨hexec, fun _ _ => trivial⟩)
  apply Beside.bind hevicted
  rintro evicted w₁ ⟨h₁, -⟩
  apply Beside.ite
  · exact fun _ => .ret trivial
  intro _
  apply Beside.bind (fetchAll_beside task h₁)
  rintro fetched w₂ ⟨h₂, hfetched⟩
  apply Beside.bind (publishTossDate_beside h₂ hfetched hnew)
  exact fun _ _ _ => .ret trivial

theorem runTossTask_beside {profile : TossProfile} {task : BackfillTask} {progress : TossProgress} (w : TossWorld Cell) :
    Beside pd (runTossTask profile task progress) (fun _ _ => True) w := by
  unfold runTossTask
  apply Beside.bind (φ := fun _ w' => ∃ terminal, w'.underWay = some ⟨task.regular, terminal, none, []⟩)
  · refine .ask rfl (fun w₁ r w₂ _ hexec a _ => ?_)
    rw [hexec.2]
    exact ⟨_, rfl⟩
  rintro terminal w₁ ⟨before, hd⟩ w₂ hleft r w₃ hexec
  refine ⟨fun t => .of_eq (by rw [hexec.store rfl]), ?_⟩
  cases r with
  | error e =>
    change Beside pd (if e.isOSError then _ else _) _ _
    apply Beside.ite
    · exact fun _ => .ret trivial
    · exact fun _ => Prog.among_raise trivial
  | ok stored =>
    have hvacant := vacant_of_storedSymbols ((left_underWay hleft).trans hd) hexec
    apply Beside.ite
    · exact fun _ => .ret trivial
    intro _
    refine runTossPending_beside hvacant (fun s hs => ?_)
    have hpending := (List.mem_filter.1 (List.mem_of_mem_filter hs))
    simp only [Bool.and_eq_true, decide_eq_true_eq] at hpending
    exact ⟨hpending.1, hpending.2.2⟩

theorem runTossTasks_beside {profile : TossProfile} : ∀ (tasks : List BackfillTask) (progress : TossProgress)
    (w : TossWorld Cell), Beside pd (runTossTasks profile tasks progress) (fun _ _ => True) w
  | [], progress, w => .ret trivial
  | task :: tasks, progress, w => by
    unfold runTossTasks
    apply Beside.bind (.calm rfl)
    intro stop w₁ _
    apply Beside.ite
    · exact fun _ => .ret trivial
    intro _
    apply Beside.bind (runTossTask_beside w₁)
    intro progress' w₂ _
    apply Beside.ite
    · exact fun _ => .ret trivial
    · exact fun _ => runTossTasks_beside tasks progress' w₂

theorem runTossRegularBackfill_beside (args : TossArgs) (w : TossWorld Cell) :
    Beside pd (runTossRegularBackfill args) (fun _ _ => True) w := by
  unfold runTossRegularBackfill
  apply Beside.bind (φ := fun _ _ => True) (Prog.among_ofExcept trivial (fun _ _ => trivial))
  intro _ w₁ _
  apply Beside.bind (φ := fun _ _ => True) (Prog.among_ofExcept trivial (fun _ _ => trivial))
  intro _ w₂ _
  apply Beside.bind (.calm rfl)
  intro ledger w₃ _
  apply Beside.bind (runTossTasks_beside _ _ w₃)
  intro progress w₄ _
  apply Beside.ite
  · exact fun _ => .ret trivial
  · exact fun _ => Prog.among_raise trivial

end beside

/-! ## A run -/

section run

variable {args : TossArgs} {s : TossRun Cell}

theorem beside_reachable (hs : (tossBeside pd (LeavesFetched pd) args).Reachable s) :
    Beside pd s.program (fun _ _ => True) s.world := by
  obtain ⟨s₀, ⟨hprogram, -⟩, hrun⟩ := hs
  induction hrun with
  | refl =>
    rw [hprogram]
    exact runTossRegularBackfill_beside args s₀.world
  | tail _ hstep ih =>
    cases hstep with
    | own hn => exact (Prog.rg_next (fun _ => .refl) ih hn).2
    | other h =>
      exact Prog.rg_stable (fun _ _ _ => Relation.ReflTransGen.trans) (fun _ _ _ _ _ => ⟨trivial, fun _ _ => trivial⟩) ih (.single h)

theorem settled_reachable (hs : (tossBeside pd (WritesAtWill pd) args).Reachable s) : s.world.Settled := by
  obtain ⟨s₀, ⟨-, hnone⟩, hrun⟩ := hs
  induction hrun with
  | refl =>
    intro d hd
    rw [hnone] at hd
    cases hd
  | tail _ hstep ih =>
    cases hstep with
    | own hn =>
      cases hn with
      | call r hexec => exact hexec.settled ih
    | other h =>
      obtain ⟨c, store, -, rfl⟩ := h
      exact ih

/-- No write of a run lists symbols that may lose rows. -/
def NoShrink (op : TossOp Cell) : Prop := ∀ a, op = .write a → a.allowShrinkSymbols = []

omit [DecidableEq Cell] in
theorem TossOp.ask_calls {op : TossOp Cell} (h : NoShrink op) : op.ask.Calls NoShrink :=
  ⟨h, fun r => Prog.calls_ofExcept r⟩

omit [DecidableEq Cell] in
theorem noShrink_of_not_writes {op : TossOp Cell} (h : op.writes = false) : NoShrink op := by
  rintro a rfl
  cases h

omit [DecidableEq Cell] in
theorem fetchAll_calls (task : BackfillTask) : ∀ symbols : List String,
    (fetchAll task symbols : TossCall Cell _).Calls NoShrink
  | [] => trivial
  | symbol :: symbols => by
    unfold fetchAll
    refine .bind (TossOp.ask_calls (noShrink_of_not_writes rfl)) (fun a => .bind (fetchAll_calls task symbols) ?_)
    exact fun _ => trivial

omit [DecidableEq Cell] in
theorem publishTossDate_calls (profile : TossProfile) (task : BackfillTask) (cached : List String)
    (fetched : List (String × Acquisition Cell)) : (publishTossDate profile task cached fetched).Calls NoShrink := by
  have hcalm : ∀ {op : TossOp Cell}, op.writes = false → op.ask.Calls NoShrink :=
    fun h => TossOp.ask_calls (noShrink_of_not_writes h)
  unfold publishTossDate
  refine .bind (.ite trivial (.bind (TossOp.ask_calls (fun a ha => ?_)) (fun _ => trivial))) (fun _ => .bind (.ite trivial ?_) ?_)
  · cases ha
    rfl
  · exact .bind (hcalm rfl) (fun _ => .bind (hcalm rfl) (fun _ => .bind (hcalm rfl) (fun _ => trivial)))
  · exact fun _ => .ite trivial (hcalm rfl)

omit [DecidableEq Cell] in
theorem runTossTask_calls (profile : TossProfile) (task : BackfillTask) (progress : TossProgress) :
    (runTossTask profile task progress : TossCall Cell _).Calls NoShrink := by
  have hcalm : ∀ {op : TossOp Cell}, op.writes = false → op.ask.Calls NoShrink :=
    fun h => TossOp.ask_calls (noShrink_of_not_writes h)
  unfold runTossTask
  refine .bind (hcalm rfl) (fun terminal => .bind (hcalm rfl).attempt (fun o => ?_))
  cases o with
  | error e => exact .ite trivial trivial
  | ok stored =>
    refine .ite trivial (.bind (hcalm rfl) (fun evicted => .ite trivial ?_))
    refine .bind (fetchAll_calls task _) (fun fetched => .bind (publishTossDate_calls profile task _ fetched) ?_)
    exact fun _ => trivial

omit [DecidableEq Cell] in
theorem runTossTasks_calls (profile : TossProfile) : ∀ (tasks : List BackfillTask) (progress : TossProgress),
    (runTossTasks profile tasks progress : TossCall Cell _).Calls NoShrink
  | [], progress => trivial
  | task :: tasks, progress => by
    unfold runTossTasks
    refine .bind (TossOp.ask_calls (noShrink_of_not_writes rfl)) (fun stop => .ite trivial ?_)
    refine .bind (runTossTask_calls profile task progress) (fun progress' => .ite trivial ?_)
    exact runTossTasks_calls profile tasks progress'

theorem calls_reachable {beside : TossWorld Cell → TossWorld Cell → Prop} (hs : (tossBeside pd beside args).Reachable s) :
    s.program.Calls NoShrink := by
  obtain ⟨s₀, ⟨hprogram, -⟩, hrun⟩ := hs
  induction hrun with
  | refl =>
    rw [hprogram]
    unfold runTossRegularBackfill
    refine .bind (Prog.calls_ofExcept _) (fun _ => .bind (Prog.calls_ofExcept _) (fun _ => .bind ?_ (fun ledger => .bind ?_ ?_)))
    · exact TossOp.ask_calls (noShrink_of_not_writes rfl)
    · exact runTossTasks_calls _ _ _
    · exact fun _ => .ite trivial trivial
  | tail _ hstep ih =>
    cases hstep with
    | own hn =>
      cases hn with
      | call r hexec => exact ih.2 r
    | other h => exact ih

end run

/-- A disk and a vendor that answer; the ledger refuses the symbols that are not fetched. -/
def tossAnswer (pd : Pandas Cell) (toss : Acquisition Cell) : (op : TossOp Cell) → TossWorld Cell → op.Ret × TossWorld Cell
  | .stopped, w | .evicted _, w => (.ok false, w)
  | .readLedger, w => (.ok w.ledger, w)
  | .terminalSymbols task, w => (.ok (terminalSymbols w.ledger task), w.begin task)
  | .storedSymbols task, w =>
    let symbols := (w.store.files task.target).elim [] (fun f => if "symbol" ∈ f.columns then pd.symbols f.columns f.rows else [])
    (.ok symbols, w.note (some symbols))
  | .fetch _ symbol, w => if toss.2.symbol = some (zfill6 symbol) then (.ok toss, w) else (.error (.os "Connection reset"), w)
  | .write args, w =>
    ((Prog.run (answer (fun _ => none)) (writeIntradayPartition pd 1 args) w.store).1,
      { w with store := (Prog.run (answer (fun _ => none)) (writeIntradayPartition pd 1 args) w.store).2 }.note none)
  | .manifest _ _ _, w => (.ok (), w)
  | .record task entries priceBases, w => (.ok (), w.put (tossRows w.ledger task priceBases entries))
  | .recordCachedAbsent _ _, w => (.error (.os "No space left on device"), w)

omit [DecidableEq Cell] in
theorem answer_ends (p : Call Cell Nat) (w : World Cell) :
    Prog.Ends Exec p w (Prog.run (answer (fun _ => none)) p w).1 (Prog.run (answer (fun _ => none)) p w).2 :=
  Prog.run_ends (answer_exec (fun _ => none) (fun _ _ h => by cases h)) p w

theorem tossAnswer_exec {toss : Acquisition Cell} (htoss : ∀ symbol, toss.2.symbol = some symbol → Acquired pd symbol toss)
    (op : TossOp Cell) (w : TossWorld Cell) : TossExec pd op w (tossAnswer pd toss op w).1 (tossAnswer pd toss op w).2 := by
  cases op with
  | stopped | evicted | manifest => rfl
  | write args => exact ⟨_, answer_ends _ _, rfl⟩
  | readLedger =>
    refine ⟨fun rows h => ?_, rfl⟩
    cases h
    rfl
  | terminalSymbols task =>
    refine ⟨fun symbols h => ?_, rfl⟩
    cases h
    rfl
  | fetch task symbol =>
    unfold tossAnswer
    dsimp only
    split_ifs with h
    · refine ⟨fun a ha => ?_, rfl⟩
      cases ha
      exact htoss _ h
    · refine ⟨fun a ha => ?_, rfl⟩
      cases ha
  | record => exact .inl rfl
  | recordCachedAbsent => exact .inr ⟨⟨_, rfl⟩, rfl⟩
  | storedSymbols task =>
    refine ⟨fun symbols h => ?_, rfl⟩
    cases h
    unfold StoredSymbols
    cases w.store.files task.target with
    | none => exact fun _ => rfl
    | some f =>
      intro s
      dsimp only [Option.elim]
      split_ifs with hcol
      · rw [pd.mem_symbols]
        exact (and_iff_right hcol).symm
      · simp [hcol]

/-- Some calls of a run, each answered by a function. -/
theorem toss_afterCalls {beside : TossWorld Cell → TossWorld Cell → Prop} {step : (op : TossOp Cell) → TossWorld Cell → op.Ret × TossWorld Cell}
    (hE : ∀ op w, TossExec pd op w (step op w).1 (step op w).2) :
    ∀ (n : Nat) (p : TossCall Cell Unit) (w : TossWorld Cell), Relation.ReflTransGen (TossRun.Step pd beside) ⟨p, w⟩
      ⟨(Prog.afterCalls step n p w).1, (Prog.afterCalls step n p w).2⟩
  | 0, _, _ => .refl
  | _ + 1, .ret _, _ => .refl
  | _ + 1, .raise _, _ => .refl
  | n + 1, .call op _, w => .head (.own (.call _ (hE op w))) (toss_afterCalls hE n _ _)

namespace TossSample

/-- A regular bar at one price. -/
def bar (symbol vendor price : String) (value : Rat) : Row (String × Option Rat) :=
  let p := (price, some value)
  [("2022-12-20", none), (symbol, none), ("90100", some 90100), p, p, p, p, ("3", some 3), ("150000", some 150000),
    ("True", none), (vendor, none)]

theorem complete_certified : "KRX" = "UNKNOWN" → CaptureStatus.complete ≠ .complete := by simp

/-- What Toss has of 005930. -/
def toss : Acquisition (String × Option Rat) :=
  (⟨canonicalBarColumns, [bar "005930" "toss" "50000" 50000]⟩,
    { symbol := some "005930", venue := "KRX", session := "regular", status := .complete, rows := 1, reason := "toss_regular:1"
      rawRefs := ["raw/bars-0.json"], evidence := by simp, certified := complete_certified })

theorem toss_acquired (symbol : String) (h : toss.2.symbol = some symbol) : Acquired textCells symbol toss := by
  cases h
  constructor <;> decide +kernel

/-- A run over one date, with these symbols. -/
def args (symbols : List String) : TossArgs where
  hasClient := true
  stopAtAware := true
  profile := ⟨5, fun _ _ => false, by decide⟩
  tasks := [⟨"2022-12-20", "regular", symbols⟩]

def target : Target := .bars 1 "2022-12-20" "regular"

def calls (n : Nat) (p : TossCall (String × Option Rat) Unit) (w : TossWorld (String × Option Rat)) :
    TossCall (String × Option Rat) Unit × TossWorld (String × Option Rat) :=
  Prog.afterCalls (tossAnswer textCells toss) n p w

/-- A bar that another process collected. -/
def live (symbol : String) : Write (String × Option Rat) :=
  .bars 1 ⟨some ⟨canonicalBarColumns, [bar symbol "kis" "51000" 51000]⟩, "2022-12-20", "regular", none, none, []⟩

/-- Another process stores it. -/
def collect (symbol : String) (w : TossWorld (String × Option Rat)) : TossWorld (String × Option Rat) :=
  { w with store := (Prog.run (answer (fun _ => none)) ((live symbol).program textCells) w.store).2 }

theorem collect_atWill (symbol : String) (w : TossWorld (String × Option Rat)) : WritesAtWill textCells w (collect symbol w) :=
  ⟨live symbol, _, (answer_ends _ _).reach, rfl⟩

/-- Nothing is stored; another date has found that Toss does not have 000001. -/
def start : TossWorld (String × Option Rat) :=
  ⟨World.empty, [⟨"2022-12-19", "regular", "000001", "NOT_APPLICABLE", 0, stockNotFoundReason, "toss", "", 0, false⟩], none⟩

/-- The date is fetched. -/
def fetched (symbols : List String) : TossCall (String × Option Rat) Unit × TossWorld (String × Option Rat) :=
  calls 6 (runTossRegularBackfill (args symbols)) start

/-- What a program raises. -/
def raised : TossCall (String × Option Rat) Unit → Option Exn
  | .raise e => some e
  | _ => none

theorem raised_eq_some {p : TossCall (String × Option Rat) Unit} {e : Exn} (h : raised p = some e) : p = .raise e := by
  unfold raised at h
  split at h
  · rw [Option.some.inj h]
  · cases h

/-- The date is published as far as the symbols that Toss does not have. -/
def refused : TossCall (String × Option Rat) Unit × TossWorld (String × Option Rat) :=
  calls 11 (runTossRegularBackfill (args ["000001", "005930"])) start

/-- The date writes after somebody has stored a bar of this symbol. -/
def written (symbol : String) : TossCall (String × Option Rat) Unit × TossWorld (String × Option Rat) :=
  calls 1 (fetched ["005930"]).1 (collect symbol (fetched ["005930"]).2)

theorem fetched_reachable (beside : TossWorld (String × Option Rat) → TossWorld (String × Option Rat) → Prop)
    (symbols : List String) :
    (tossBeside textCells beside (args symbols)).Reachable ⟨(fetched symbols).1, (fetched symbols).2⟩ := by
  have hstart : (tossBeside textCells beside (args symbols)).Reachable ⟨runTossRegularBackfill (args symbols), start⟩ :=
    .start ⟨rfl, rfl⟩
  exact hstart.run (toss_afterCalls (tossAnswer_exec toss_acquired) 6 _ _)

theorem written_next (symbol : String) : Prog.Next (TossExec textCells) (fetched ["005930"]).1
    (collect symbol (fetched ["005930"]).2) (written symbol).1 (written symbol).2 := by
  have hcall : (Prog.afterCalls (tossAnswer textCells toss) 0 (fetched ["005930"]).1
      (collect symbol (fetched ["005930"]).2)).1.isCall = true := by
    show (fetched ["005930"]).1.isCall = true
    decide +kernel
  exact Prog.next_afterCalls (tossAnswer_exec toss_acquired) hcall

end TossSample

end Intraday
