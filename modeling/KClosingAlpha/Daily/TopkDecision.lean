import KClosingAlpha.Lib.KeepLast
import Mathlib.Algebra.BigOperators.Group.List.Basic
import Mathlib.Algebra.Order.Field.Rat
import Mathlib.Data.List.Dedup
import Mathlib.Data.List.Induction
import Mathlib.Data.List.Sort
import Mathlib.Data.String.Basic
import Mathlib.Logic.Function.Basic
/-!
# TopkDecision — the store of the automated decisions (`daily/predict.py`)

A run persists its sleeve under the store's lock: what is stored and the sleeve are put one after the other on the union
of their columns, a later row of a date and symbol replaces an earlier one, and the file is replaced whole.  A call that
raises writes nothing.  Log lines are left out.
-/
namespace TopkDecision

open KeepLast

/-- A row by its columns; a missing cell is `none`. -/
abbrev Row (α : Type) := String → Option α

structure Frame (α : Type) where
  columns : List String
  rows : List (Row α)

/-- What the cells of the store are read as. -/
structure Cells (α : Type) where
  ofText : String → α
  /-- `astype(str)`. -/
  toText : Option α → String
  toText_ofText : ∀ s, toText (some (ofText s)) = s

/-- A decision: some rows, of different symbols. -/
structure Sleeve (α : Type) extends Frame α where
  nonempty : rows ≠ []
  distinct : (rows.map (fun r => r "symbol")).Nodup
  hasSymbol : "symbol" ∈ columns
  hasAllocation : "allocation" ∈ columns

/-- The arguments of one call, and its clock. -/
structure Persist (α : Type) where
  /-- `decision_date.strftime("%Y-%m-%d")`. -/
  date : String
  decidedAt : α
  sleeve : Sleeve α

namespace Frame

variable {α : Type} (f : Frame α)

/-- The rows as they are read: only the frame's columns have cells. -/
def values : List (Row α) := f.rows.map (fun r c => if c ∈ f.columns then r c else none)

/-- `df.reindex(columns=…)`. -/
def reindex (columns : List String) : Frame α := ⟨columns, f.values⟩

/-- `df[column] = value`. -/
def assign (column : String) (value : α) : Frame α :=
  { columns := if column ∈ f.columns then f.columns else f.columns ++ [column]
    rows := f.rows.map (fun r => Function.update r column (some value)) }

def isEmpty : Bool := f.rows.isEmpty || f.columns.isEmpty

/-- The symbols and allocations of a frame. -/
def picks : List (Option α × Option α) := f.values.map (fun v => (v "symbol", v "allocation"))

end Frame

section

variable {α : Type} [DecidableEq α] (cs : Cells α)

/-- The frame a call appends. -/
def stamped (call : Persist α) : Frame α :=
  ((call.sleeve.toFrame.assign "decision_date" (cs.ofText call.date)).assign "decided_at" call.decidedAt).assign
    "bundle_dir" (cs.ofText "artifacts/models/topk_ranker")

/-- The key of `drop_duplicates(subset=["decision_date", "symbol"])`. -/
def decisionKey (v : Row α) : Option α × Option α := (v "decision_date", v "symbol")

/-- `sorted(set(existing.columns) | set(out.columns))`. -/
def unionColumns (existing out : Frame α) : List String :=
  ((existing.columns ++ out.columns).dedup).insertionSort (· ≤ ·)

def persistTopkDecision (stored : Option (Frame α)) (call : Persist α) : Option (Frame α) :=
  let out := stamped cs call
  match stored with
  | none => some out
  | some existing =>
    if existing.isEmpty then some out
    else
      let columns := unionColumns existing out
      some ⟨columns, keepLast decisionKey ((existing.reindex columns).rows ++ (out.reindex columns).rows)⟩

def loadTopkDecision (stored : Option (Frame α)) (date : String) : Frame α :=
  match stored with
  | none => ⟨[], []⟩
  | some df =>
    ⟨df.columns, keepLast (fun v => v "symbol") (df.values.filter (fun v => decide (cs.toText (v "decision_date") = date)))⟩

/-- What a history of calls leaves stored. -/
def history (calls : List (Persist α)) : Option (Frame α) := calls.foldl (persistTopkDecision cs) none

end

/-! ## The rows as they are read -/

section

variable {α : Type}

namespace Frame

variable {f : Frame α}

theorem mem_values {v : Row α} : v ∈ f.values ↔ ∃ r ∈ f.rows, (fun c => if c ∈ f.columns then r c else none) = v := List.mem_map

theorem values_assign (column : String) (value : α) :
    (f.assign column value).values = f.values.map (fun v => Function.update v column (some value)) := by
  unfold values assign
  dsimp only
  rw [List.map_map, List.map_map]
  refine List.map_congr_left (fun r _ => ?_)
  funext c
  by_cases hcolumn : column ∈ f.columns
  · by_cases hc : c = column
    · subst hc
      simp [hcolumn]
    · simp [hcolumn, hc]
  · by_cases hc : c = column
    · subst hc
      simp [hcolumn]
    · simp [hcolumn, hc]

theorem eq_none_of_mem_values {v : Row α} (h : v ∈ f.values) {c : String} (hc : c ∉ f.columns) : v c = none := by
  obtain ⟨r, -, rfl⟩ := mem_values.1 h
  exact if_neg hc

/-- Rows without cells outside the columns are read as they are. -/
theorem values_of_covered {columns : List String} {rows : List (Row α)} (h : ∀ v ∈ rows, ∀ c, c ∉ columns → v c = none) :
    (⟨columns, rows⟩ : Frame α).values = rows := by
  unfold values
  dsimp only
  refine (List.map_congr_left (fun v hv => ?_)).trans (List.map_id _)
  funext c
  by_cases hc : c ∈ columns
  · exact if_pos hc
  · rw [if_neg hc]
    exact (h v hv c hc).symm

end Frame

/-- The rows of a store; a missing one has none. -/
def storedValues (stored : Option (Frame α)) : List (Row α) := stored.elim [] Frame.values

variable [DecidableEq α] {cs : Cells α} {stored : Option (Frame α)} {call : Persist α} {d : String}

/-- A row of a sleeve as it is appended. -/
def stampRow (cs : Cells α) (call : Persist α) (v : Row α) : Row α :=
  Function.update (Function.update (Function.update v "decision_date" (some (cs.ofText call.date))) "decided_at"
    (some call.decidedAt)) "bundle_dir" (some (cs.ofText "artifacts/models/topk_ranker"))

omit [DecidableEq α] in
theorem values_stamped : (stamped cs call).values = call.sleeve.values.map (stampRow cs call) := by
  unfold stamped
  rw [Frame.values_assign, Frame.values_assign, Frame.values_assign, List.map_map, List.map_map]
  rfl

omit [DecidableEq α] in
@[simp] theorem stampRow_date (v : Row α) : stampRow cs call v "decision_date" = some (cs.ofText call.date) := by
  simp [stampRow]

omit [DecidableEq α] in
@[simp] theorem stampRow_symbol (v : Row α) : stampRow cs call v "symbol" = v "symbol" := by simp [stampRow]

omit [DecidableEq α] in
@[simp] theorem stampRow_allocation (v : Row α) : stampRow cs call v "allocation" = v "allocation" := by simp [stampRow]

/-- The symbols of a sleeve. -/
def Persist.symbols (call : Persist α) : List (Option α) := call.sleeve.values.map (fun v => v "symbol")

omit [DecidableEq α] in
theorem nodup_symbols (call : Persist α) : call.symbols.Nodup := by
  have heq : call.symbols = call.sleeve.rows.map (fun r => r "symbol") := by
    unfold Persist.symbols Frame.values
    rw [List.map_map]
    exact List.map_congr_left (fun r _ => if_pos call.sleeve.hasSymbol)
  rw [heq]
  exact call.sleeve.distinct

omit [DecidableEq α] in
theorem symbols_stamped (cs : Cells α) (call : Persist α) : (stamped cs call).values.map (fun v => v "symbol") = call.symbols := by
  rw [values_stamped, List.map_map]
  exact List.map_congr_left (fun v _ => stampRow_symbol v)

omit [DecidableEq α] in
theorem mem_unionColumns {existing out : Frame α} {c : String} :
    c ∈ unionColumns existing out ↔ c ∈ existing.columns ∨ c ∈ out.columns := by
  unfold unionColumns
  rw [List.mem_insertionSort, List.mem_dedup, List.mem_append]

/-- What a store holds: rows of dates, one a date and symbol. -/
structure Sound (cs : Cells α) (stored : Option (Frame α)) : Prop where
  columns : ∀ f, stored = some f → f.columns ≠ []
  dated : ∀ v ∈ storedValues stored, ∃ d, v "decision_date" = some (cs.ofText d)

/-- **A call appends its sleeve and drops what it replaces.** -/
theorem storedValues_persist (h : Sound cs stored) :
    storedValues (persistTopkDecision cs stored call) = keepLast decisionKey (storedValues stored ++ (stamped cs call).values) := by
  have hout : keepLast decisionKey (stamped cs call).values = (stamped cs call).values := by
    have hsymbols : (((stamped cs call).values.map decisionKey).map Prod.snd).Nodup := by
      rw [List.map_map]
      change ((stamped cs call).values.map (fun v => v "symbol")).Nodup
      rw [symbols_stamped]
      exact nodup_symbols call
    exact keepLast_eq_self (List.Nodup.of_map Prod.snd hsymbols)
  unfold persistTopkDecision
  cases stored with
  | none => exact hout.symm
  | some existing =>
    dsimp only
    split_ifs with hempty
    · have hrows : existing.rows = [] := by simpa [Frame.isEmpty, h.columns existing rfl] using hempty
      have hnil : storedValues (some existing) = [] := by
        change existing.values = []
        unfold Frame.values
        rw [hrows, List.map_nil]
      rw [hnil]
      exact hout.symm
    · refine Frame.values_of_covered (fun v hv c hc => ?_)
      rw [mem_unionColumns, not_or] at hc
      rcases List.mem_append.1 (mem_of_mem_keepLast hv) with hv | hv
      · exact Frame.eq_none_of_mem_values hv hc.1
      · exact Frame.eq_none_of_mem_values hv hc.2

omit [DecidableEq α] in
theorem date_of_mem_stamped {v : Row α} (h : v ∈ (stamped cs call).values) :
    v "decision_date" = some (cs.ofText call.date) := by
  rw [values_stamped] at h
  obtain ⟨u, -, rfl⟩ := List.mem_map.1 h
  exact stampRow_date u

omit [DecidableEq α] in
theorem columns_stamped : "decision_date" ∈ (stamped cs call).columns := by
  unfold stamped Frame.assign
  dsimp only
  split_ifs <;> simp_all

theorem Sound.persist (h : Sound cs stored) : Sound cs (persistTopkDecision cs stored call) := by
  constructor
  · intro f hf hnil
    have hmem : "decision_date" ∈ f.columns := by
      unfold persistTopkDecision at hf
      cases stored with
      | none =>
        cases hf
        exact columns_stamped
      | some existing =>
        dsimp only at hf
        split_ifs at hf
        · cases hf
          exact columns_stamped
        · cases hf
          exact mem_unionColumns.2 (.inr columns_stamped)
    rw [hnil] at hmem
    cases hmem
  · intro v hv
    rw [storedValues_persist h] at hv
    rcases List.mem_append.1 (mem_of_mem_keepLast hv) with hv | hv
    · exact h.dated v hv
    · exact ⟨call.date, date_of_mem_stamped hv⟩

/-! ## What a date is served -/

/-- The rows that are loaded for a date. -/
def served (cs : Cells α) (stored : Option (Frame α)) (d : String) : List (Row α) := (loadTopkDecision cs stored d).values

/-- The stored rows of a date. -/
def ofDate (cs : Cells α) (d : String) (l : List (Row α)) : List (Row α) :=
  l.filter (fun v => decide (cs.toText (v "decision_date") = d))

theorem served_eq : served cs stored d = keepLast (fun v => v "symbol") (ofDate cs d (storedValues stored)) := by
  unfold served loadTopkDecision
  cases stored with
  | none => rfl
  | some df =>
    exact Frame.values_of_covered (fun v hv c hc =>
      Frame.eq_none_of_mem_values (List.mem_of_mem_filter (mem_of_mem_keepLast hv)) hc)

/-- In one date the key is the symbol. -/
theorem keepLast_ofDate {l : List (Row α)} (h : ∀ v ∈ l, ∃ d, v "decision_date" = some (cs.ofText d)) :
    ofDate cs d (keepLast decisionKey l) = keepLast (fun v => v "symbol") (ofDate cs d l) := by
  have hdate : ∀ v ∈ ofDate cs d l, v "decision_date" = some (cs.ofText d) := by
    intro v hv
    obtain ⟨hmem, htext⟩ := List.mem_filter.1 hv
    obtain ⟨d', hd'⟩ := h v hmem
    rw [hd', cs.toText_ofText, decide_eq_true_eq] at htext
    rw [hd', htext]
  have hfilter : ofDate cs d (keepLast decisionKey l) = keepLast decisionKey (ofDate cs d l) :=
    @filter_keepLast _ _ _ decisionKey (fun k => decide (cs.toText k.1 = d)) l
  rw [hfilter]
  refine keepLast_congr (fun v hv u hu => ?_)
  unfold decisionKey
  rw [hdate v hv, hdate u hu, Prod.mk.injEq]
  exact and_iff_right rfl

/-- **Another date is served what it was.** -/
theorem served_persist_of_ne (h : Sound cs stored) (hd : d ≠ call.date) :
    served cs (persistTopkDecision cs stored call) d = served cs stored d := by
  have hnone : ofDate cs d (stamped cs call).values = [] := by
    refine List.filter_eq_nil_iff.2 (fun v hv => ?_)
    rw [date_of_mem_stamped hv, cs.toText_ofText, decide_eq_true_eq]
    exact Ne.symm hd
  have hdated : ∀ v ∈ storedValues stored ++ (stamped cs call).values, ∃ d, v "decision_date" = some (cs.ofText d) := by
    intro v hv
    rcases List.mem_append.1 hv with hv | hv
    · exact h.dated v hv
    · exact ⟨call.date, date_of_mem_stamped hv⟩
  rw [served_eq, served_eq, storedValues_persist h, keepLast_ofDate hdated, keepLast_eq_self (nodup_keys _)]
  unfold ofDate at hnone ⊢
  rw [List.filter_append, hnone, List.append_nil]

/-- **The date of a call is served its sleeve, after what it was served of other symbols.** -/
theorem served_persist_self (h : Sound cs stored) : served cs (persistTopkDecision cs stored call) call.date =
    (served cs stored call.date).filter (fun v => decide (v "symbol" ∉ call.symbols)) ++ (stamped cs call).values := by
  have hall : ofDate cs call.date (stamped cs call).values = (stamped cs call).values := by
    refine List.filter_eq_self.2 (fun v hv => ?_)
    rw [date_of_mem_stamped hv, cs.toText_ofText, decide_eq_true_eq]
  have hdated : ∀ v ∈ storedValues stored ++ (stamped cs call).values, ∃ d, v "decision_date" = some (cs.ofText d) := by
    intro v hv
    rcases List.mem_append.1 hv with hv | hv
    · exact h.dated v hv
    · exact ⟨call.date, date_of_mem_stamped hv⟩
  have hout : keepLast (fun v => v "symbol") (stamped cs call).values = (stamped cs call).values :=
    keepLast_eq_self (by rw [symbols_stamped]; exact nodup_symbols call)
  rw [served_eq, served_eq, storedValues_persist h, keepLast_ofDate hdated, keepLast_eq_self (nodup_keys _)]
  unfold ofDate at hall ⊢
  rw [List.filter_append, hall, keepLast_append, hout, symbols_stamped]
  exact congrArg (· ++ _) (List.filter_congr (fun v _ => decide_eq_decide.2 Iff.rfl))

/-! ## Histories -/

omit [DecidableEq α] in
theorem sound_none : Sound cs (none : Option (Frame α)) := ⟨fun f hf => (by cases hf), fun v hv => (by cases hv)⟩

variable {calls : List (Persist α)}

theorem history_snoc : history cs (calls ++ [call]) = persistTopkDecision cs (history cs calls) call := by
  unfold history
  rw [List.foldl_append]
  rfl

theorem sound_history : ∀ calls : List (Persist α), Sound cs (history cs calls) := by
  intro calls
  induction calls using List.reverseRecOn with
  | nil => exact sound_none
  | append_singleton calls call ih =>
    rw [history_snoc]
    exact ih.persist

/-- The symbols a date is served are those of all its calls. -/
theorem mem_symbols_served {s : Option α} : ∀ calls : List (Persist α),
    s ∈ (served cs (history cs calls) d).map (fun v => v "symbol") ↔ ∃ c ∈ calls, c.date = d ∧ s ∈ c.symbols := by
  intro calls
  induction calls using List.reverseRecOn with
  | nil =>
    constructor
    · intro hs
      cases hs
    · rintro ⟨c, hc, -⟩
      cases hc
  | append_singleton calls call ih =>
    rw [history_snoc]
    by_cases hd : call.date = d
    · subst hd
      rw [served_persist_self (sound_history calls), List.map_append, List.mem_append, symbols_stamped]
      constructor
      · rintro (hs | hs)
        · obtain ⟨v, hv, rfl⟩ := List.mem_map.1 hs
          obtain ⟨c, hc, hdate, hsym⟩ := ih.1 (List.mem_map_of_mem (List.mem_of_mem_filter hv))
          exact ⟨c, List.mem_append_left _ hc, hdate, hsym⟩
        · exact ⟨call, List.mem_append_right _ List.mem_cons_self, rfl, hs⟩
      · rintro ⟨c, hc, hdate, hsym⟩
        by_cases hnew : s ∈ call.symbols
        · exact .inr hnew
        · rcases List.mem_append.1 hc with hc | hc
          · obtain ⟨v, hv, rfl⟩ := List.mem_map.1 (ih.2 ⟨c, hc, hdate, hsym⟩)
            exact .inl (List.mem_map.2 ⟨v, List.mem_filter.2 ⟨hv, decide_eq_true hnew⟩, rfl⟩)
          · rw [List.mem_singleton.1 hc] at hsym
            exact absurd hsym hnew
    · rw [served_persist_of_ne (sound_history calls) (Ne.symm hd), ih]
      constructor
      · rintro ⟨c, hc, hrest⟩
        exact ⟨c, List.mem_append_left _ hc, hrest⟩
      · rintro ⟨c, hc, hdate, hsym⟩
        rcases List.mem_append.1 hc with hc | hc
        · exact ⟨c, hc, hdate, hsym⟩
        · rw [List.mem_singleton.1 hc] at hdate
          exact absurd hdate hd

/-- Calls for other dates. -/
theorem served_history_append {after : List (Persist α)} (h : ∀ c ∈ after, c.date ≠ d) :
    served cs (history cs (calls ++ after)) d = served cs (history cs calls) d := by
  induction after using List.reverseRecOn with
  | nil => rw [List.append_nil]
  | append_singleton after call ih =>
    have hcall : call.date ≠ d := h call (List.mem_append_right _ List.mem_cons_self)
    rw [← List.append_assoc, history_snoc, served_persist_of_ne (sound_history _) (Ne.symm hcall),
      ih (fun c hc => h c (List.mem_append_left _ hc))]

/-- The symbols and allocations a date is served, and what they sum to. -/
structure ServesLast (cs : Cells α) (calls : List (Persist α)) (last : Persist α) : Prop where
  picks : (loadTopkDecision cs (history cs calls) last.date).picks.Perm last.sleeve.picks
  allocations : ∀ weight : Option α → ℚ, ((last.sleeve.picks.map Prod.snd).map weight).sum ≤ 1 →
    (((loadTopkDecision cs (history cs calls) last.date).picks.map Prod.snd).map weight).sum ≤ 1

theorem ServesLast.of_picks {last : Persist α}
    (h : (loadTopkDecision cs (history cs calls) last.date).picks.Perm last.sleeve.picks) : ServesLast cs calls last :=
  ⟨h, fun weight hle => (((h.map Prod.snd).map weight).sum_eq).trans_le hle⟩

omit [DecidableEq α] in
theorem picks_stamped (cs : Cells α) (call : Persist α) : (stamped cs call).values.map (fun v => (v "symbol", v "allocation")) = call.sleeve.picks := by
  rw [values_stamped, List.map_map]
  refine List.map_congr_left (fun v _ => ?_)
  rw [Function.comp_apply, stampRow_symbol, stampRow_allocation]

/-- **A date is served its last sleeve exactly where that has every symbol of the date's earlier ones**, and a call
changes nothing that is served of another date. -/
theorem servesLast_iff (cs : Cells α) :
    (∀ (before after : List (Persist α)) (last : Persist α), (∀ c ∈ after, c.date ≠ last.date) →
      (ServesLast cs (before ++ [last] ++ after) last ↔
        ∀ c ∈ before, c.date = last.date → ∀ s ∈ c.symbols, s ∈ last.symbols)) ∧
    ∀ (calls : List (Persist α)) (call : Persist α) d, d ≠ call.date →
      served cs (history cs (calls ++ [call])) d = served cs (history cs calls) d := by
  constructor
  · intro before after last hafter
    have hserved : served cs (history cs (before ++ [last] ++ after)) last.date =
        (served cs (history cs before) last.date).filter (fun v => decide (v "symbol" ∉ last.symbols)) ++
          (stamped cs last).values := by
      rw [served_history_append hafter, history_snoc, served_persist_self (sound_history before)]
    have hpicks : (loadTopkDecision cs (history cs (before ++ [last] ++ after)) last.date).picks =
        ((served cs (history cs before) last.date).filter (fun v => decide (v "symbol" ∉ last.symbols))).map
          (fun v => (v "symbol", v "allocation")) ++ last.sleeve.picks := by
      rw [← picks_stamped cs last, ← List.map_append, ← hserved]
      rfl
    constructor
    · intro h c hc hdate s hs
      by_contra hnew
      obtain ⟨v, hv, rfl⟩ := List.mem_map.1 ((mem_symbols_served before).2 ⟨c, hc, hdate, hs⟩)
      have hlen := h.picks.length_eq
      have hkept : v ∈ (served cs (history cs before) last.date).filter (fun v => decide (v "symbol" ∉ last.symbols)) :=
        List.mem_filter.2 ⟨hv, decide_eq_true hnew⟩
      have hpos := List.length_pos_of_mem hkept
      rw [hpicks, List.length_append, List.length_map] at hlen
      omega
    · intro h
      have hnil : (served cs (history cs before) last.date).filter (fun v => decide (v "symbol" ∉ last.symbols)) = [] := by
        refine List.filter_eq_nil_iff.2 (fun v hv => ?_)
        obtain ⟨c, hc, hdate, hs⟩ := (mem_symbols_served before).1 (List.mem_map_of_mem hv)
        simpa using h c hc hdate _ hs
      refine .of_picks ?_
      rw [hpicks, hnil]
      exact .refl _
  · intro calls call d hd
    rw [history_snoc, served_persist_of_ne (sound_history calls) hd]

end

/-! ## Two runs on one date -/

inductive Cell where
  | text (s : String)
  | number (q : ℚ)
  deriving DecidableEq

/-- Cells that are texts or numbers. -/
def textOrNumber : Cells Cell where
  ofText := .text
  toText
    | some (.text s) => s
    | some (.number q) => toString q
    | none => "nan"
  toText_ofText _ := rfl

/-- Three names of equal weight. -/
def equalWeight (symbols : List String) (hsymbols : symbols ≠ [] ∧ symbols.Nodup) : Persist Cell where
  date := "2026-09-10"
  decidedAt := .text "2026-09-10 15:21:00+09:00"
  sleeve :=
    { columns := ["symbol", "allocation"]
      rows := symbols.map (fun s c => if c = "symbol" then some (.text s) else some (.number (1 / 3)))
      nonempty := by simpa using hsymbols.1
      distinct := by
        rw [List.map_map]
        exact hsymbols.2.map (fun s t h => by simpa using h)
      hasSymbol := by decide
      hasAllocation := by decide }

theorem servesLast_same_names :
    ServesLast textOrNumber ([equalWeight ["000660", "005380", "005930"] (by decide)] ++
      [equalWeight ["005930", "005380", "000660"] (by decide)] ++ [])
        (equalWeight ["005930", "005380", "000660"] (by decide)) := by
  refine ((servesLast_iff textOrNumber).1 _ [] _ (fun c hc => by cases hc)).2 (fun c hc _ => ?_)
  rw [List.mem_singleton.1 hc]
  decide +kernel

/-- A second run that picks two other names: the two names it dropped are served with its own, five thirds in all. -/
theorem serves_dropped_names :
    (loadTopkDecision textOrNumber (history textOrNumber [equalWeight ["000660", "005380", "005930"] (by decide),
      equalWeight ["005930", "035420", "051910"] (by decide)]) "2026-09-10").picks =
        ["000660", "005380", "005930", "035420", "051910"].map (fun s => (some (.text s), some (.number (1 / 3)))) ∧
      ¬ ServesLast textOrNumber [equalWeight ["000660", "005380", "005930"] (by decide),
        equalWeight ["005930", "035420", "051910"] (by decide)] (equalWeight ["005930", "035420", "051910"] (by decide)) := by
  constructor
  · decide +kernel
  · intro h
    have hlen := h.picks.length_eq
    exact absurd hlen (by decide +kernel)

end TopkDecision
