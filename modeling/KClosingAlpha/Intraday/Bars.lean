import KClosingAlpha.Intraday.Frame
import Mathlib.Data.Finset.Card
import Mathlib.Data.List.Nodup
import Mathlib.Data.List.Perm.Basic
/-!
# Bars — collapsing the bars of one slot (`_deduplicate_bars`)

Cells are what pandas tells apart, so a null is one cell.  A row with a symbol and a time has a slot, and where two rows
have one slot they are one row or the frame is refused: what is left is a function of the rows as a set.
-/
namespace Intraday

/-! ## The order of the slots -/

variable {Cell : Type}

/-- `sort_values` sorts in an order. -/
structure Pandas.Ordered (pd : Pandas Cell) : Prop where
  total : ∀ a b, (pd.le a b || pd.le b a) = true
  trans : ∀ a b c, pd.le a b = true → pd.le b c = true → pd.le a c = true
  antisymm : ∀ a b, pd.le a b = true → pd.le b a = true → a = b

/-- The slot of a bar. -/
def slot (r : Row Cell) : Option Cell × Option Cell := (cell canonicalBarColumns "symbol" r, cell canonicalBarColumns "ts_hms" r)

/-- A row with a slot. -/
def Pandas.keyed (pd : Pandas Cell) (r : Row Cell) : Bool :=
  !pd.missing canonicalBarColumns "symbol" r && !pd.missing canonicalBarColumns "ts_hms" r

/-- By the first order, and where that ties by the second. -/
def lexLe {α : Type} (r s : α → α → Bool) (a b : α) : Bool := if r a b && r b a then s a b else r a b

section order

variable {α : Type} {r s : α → α → Bool}

theorem lexLe_total (hr : ∀ a b, (r a b || r b a) = true) (hs : ∀ a b, (s a b || s b a) = true) (a b : α) :
    (lexLe r s a b || lexLe r s b a) = true := by
  have hr' := hr a b
  have hs' := hs a b
  unfold lexLe
  cases hab : r a b <;> cases hba : r b a <;> simp_all

theorem of_lexLe {a b : α} (h : lexLe r s a b = true) : r a b = true ∧ (r b a = true → s a b = true) := by
  unfold lexLe at h
  cases hab : r a b <;> cases hba : r b a <;> simp_all

theorem lexLe_trans (hr : ∀ a b c, r a b = true → r b c = true → r a c = true)
    (hs : ∀ a b c, s a b = true → s b c = true → s a c = true) (a b c : α) (hab : lexLe r s a b = true)
    (hbc : lexLe r s b c = true) : lexLe r s a c = true := by
  obtain ⟨rab, sab⟩ := of_lexLe hab
  obtain ⟨rbc, sbc⟩ := of_lexLe hbc
  have rac := hr a b c rab rbc
  unfold lexLe
  rw [rac]
  cases rca : r c a with
  | false => rfl
  | true => exact hs a b c (sab (hr b c a rbc rca)) (sbc (hr c a b rca rab))

end order

section slots

variable {pd : Pandas Cell} {columns : List String} {name : String}

theorem leOf_total (h : pd.Ordered) (a b : Row Cell) : (pd.leOf columns name a b || pd.leOf columns name b a) = true := by
  unfold Pandas.leOf
  cases cell columns name a <;> cases cell columns name b <;> simp
  simpa using h.total _ _

theorem leOf_trans (h : pd.Ordered) (a b c : Row Cell) (hab : pd.leOf columns name a b = true)
    (hbc : pd.leOf columns name b c = true) : pd.leOf columns name a c = true := by
  unfold Pandas.leOf at hab hbc ⊢
  generalize cell columns name a = x at *
  generalize cell columns name b = y at *
  generalize cell columns name c = z at *
  match x, y, z, hab, hbc with
  | x, _, none, _, _ => cases x <;> rfl
  | some x, some y, some z, hab, hbc => exact h.trans _ _ _ hab hbc

theorem leOf_antisymm (h : pd.Ordered) {a b : Row Cell} (hab : pd.leOf columns name a b = true)
    (hba : pd.leOf columns name b a = true) : cell columns name a = cell columns name b := by
  unfold Pandas.leOf at hab hba
  cases ha : cell columns name a <;> cases hb : cell columns name b <;> rw [ha, hb] at hab hba
  · cases hab
  · cases hba
  · rw [h.antisymm _ _ hab hba]

/-- The order of two bars. -/
def Pandas.slotLe (pd : Pandas Cell) : Row Cell → Row Cell → Bool :=
  lexLe (pd.leOf canonicalBarColumns "symbol") (pd.leOf canonicalBarColumns "ts_hms")

theorem slotLe_antisymm (h : pd.Ordered) {a b : Row Cell} (hab : pd.slotLe a b = true) (hba : pd.slotLe b a = true) :
    slot a = slot b := by
  obtain ⟨rab, sab⟩ := of_lexLe hab
  obtain ⟨rba, sba⟩ := of_lexLe hba
  exact Prod.ext (leOf_antisymm h rab rba) (leOf_antisymm h (sab rba) (sba rab))

/-- **Bars of different slots are sorted in one way.** -/
theorem sortRows_eq_of_perm (h : pd.Ordered) {rows rows' : List (Row Cell)} (hp : rows.Perm rows')
    (hslots : ∀ r ∈ rows, ∀ s ∈ rows, slot r = slot s → r = s) :
    pd.sortRows canonicalBarColumns rows = pd.sortRows canonicalBarColumns rows' := by
  have hsorted (rows : List (Row Cell)) : (pd.sortRows canonicalBarColumns rows).Pairwise (fun a b => pd.slotLe a b = true) :=
    List.pairwise_mergeSort (lexLe_trans (leOf_trans h) (leOf_trans h)) (lexLe_total (leOf_total h) (leOf_total h)) _
  have hmem (r : Row Cell) (hr : r ∈ pd.sortRows canonicalBarColumns rows) : r ∈ rows := (List.mergeSort_perm _ _).mem_iff.1 hr
  refine List.Perm.eq_of_pairwise (fun a b ha hb hab hba => ?_) (hsorted rows) (hsorted rows')
    ((List.mergeSort_perm _ _).trans (hp.trans (List.mergeSort_perm _ _).symm))
  exact hslots a (hmem a ha) b (hp.mem_iff.2 ((List.mergeSort_perm _ _).mem_iff.1 hb)) (slotLe_antisymm h hab hba)

end slots

/-! ## Collapsing -/

variable [DecidableEq Cell] {pd : Pandas Cell} {rows rows' out : List (Row Cell)}

/-- Two rows of one slot that are not one row. -/
def Pandas.Contradictory (pd : Pandas Cell) (rows : List (Row Cell)) : Prop :=
  ∃ r ∈ rows, ∃ s ∈ rows, pd.keyed r = true ∧ pd.keyed s = true ∧ slot r = slot s ∧ r ≠ s

/-- The rows with a slot, each once. -/
def Pandas.distinct (pd : Pandas Cell) (rows : List (Row Cell)) : List (Row Cell) := (rows.filter pd.keyed).eraseDups

theorem nodup_distinct (pd : Pandas Cell) (rows : List (Row Cell)) : (pd.distinct rows).Nodup := nodup_eraseDups _

theorem mem_distinct {r : Row Cell} : r ∈ pd.distinct rows ↔ r ∈ rows ∧ pd.keyed r = true := by
  rw [Pandas.distinct, List.mem_eraseDups, List.mem_filter]

/-- Of rows that are there once, a slot is counted twice when another row has it. -/
theorem one_lt_countP_iff {l : List (Row Cell)} (hn : l.Nodup) {r : Row Cell} (hr : r ∈ l) :
    1 < l.countP (fun r' => decide (slot r' = slot r)) ↔ ∃ s ∈ l, slot s = slot r ∧ s ≠ r := by
  rw [List.countP_eq_length_filter, ← List.toFinset_card_of_nodup (hn.filter _)]
  constructor
  · intro h
    obtain ⟨s, hs, hne⟩ := Finset.exists_mem_ne h r
    obtain ⟨hs, hslot⟩ := List.mem_filter.1 (List.mem_toFinset.1 hs)
    exact ⟨s, hs, of_decide_eq_true hslot, hne⟩
  · rintro ⟨s, hs, hslot, hne⟩
    exact Finset.one_lt_card.2 ⟨s, List.mem_toFinset.2 (List.mem_filter.2 ⟨hs, decide_eq_true hslot⟩),
      r, List.mem_toFinset.2 (List.mem_filter.2 ⟨hr, by simp⟩), hne⟩

/-- The row that is named, the first with a slot that another row has. -/
def Pandas.shared (pd : Pandas Cell) (rows : List (Row Cell)) : Option (Row Cell) :=
  (pd.distinct rows).find? (fun r => decide (1 < (pd.distinct rows).countP (fun r' => decide (slot r' = slot r))))

theorem deduplicateBars_eq : deduplicateBars pd rows = match pd.shared rows with
    | some r => .error (.value ("Contradictory bar slot for " ++ quoted (pd.key canonicalBarColumns r) ++ " ts=" ++
        pd.strOf canonicalBarColumns "ts_hms" r))
    | none => .ok (pd.sortRows canonicalBarColumns (if (pd.distinct rows).isEmpty then rows else pd.distinct rows)) := rfl

theorem shared_eq_none_iff : pd.shared rows = none ↔ ¬ pd.Contradictory rows := by
  have hcount (r : Row Cell) (hr : r ∈ pd.distinct rows) := one_lt_countP_iff (nodup_distinct pd rows) hr
  rw [Pandas.shared, List.find?_eq_none]
  constructor
  · rintro h ⟨r, hr, s, hs, hkr, hks, hslot, hne⟩
    have hs' := mem_distinct.2 ⟨hs, hks⟩
    exact h s hs' (decide_eq_true ((hcount s hs').2 ⟨r, mem_distinct.2 ⟨hr, hkr⟩, hslot, hne⟩))
  · intro h r hr hone
    obtain ⟨s, hs, hslot, hne⟩ := (hcount r hr).1 (of_decide_eq_true hone)
    rw [mem_distinct] at hr hs
    exact h ⟨s, hs.1, r, hr.1, hs.2, hr.2, hslot, hne⟩

/-- **It is refused when two rows of a slot differ, and only then.** -/
theorem deduplicateBars_error_iff : (∃ e, deduplicateBars pd rows = .error e) ↔ pd.Contradictory rows := by
  rw [deduplicateBars_eq]
  cases h : pd.shared rows with
  | none =>
    refine ⟨fun ⟨e, he⟩ => (by cases he), fun hc => absurd hc (shared_eq_none_iff.1 h)⟩
  | some r =>
    refine ⟨fun _ => ?_, fun _ => ⟨_, rfl⟩⟩
    by_contra hnot
    rw [shared_eq_none_iff.2 hnot] at h
    cases h

/-- What is left when some row has a slot, or there is none at all. -/
theorem deduplicateBars_eq_ok (hkeyed : rows = [] ∨ ∃ r ∈ rows, pd.keyed r = true) :
    deduplicateBars pd rows = .ok out ↔ ¬ pd.Contradictory rows ∧ out = pd.sortRows canonicalBarColumns (pd.distinct rows) := by
  have hrows : (if (pd.distinct rows).isEmpty then rows else pd.distinct rows) = pd.distinct rows := by
    rcases hkeyed with rfl | ⟨r, hr, hk⟩
    · rfl
    · rw [if_neg fun h => by
        have := mem_distinct.2 ⟨hr, hk⟩
        rw [List.isEmpty_iff.1 h] at this
        cases this]
  rw [deduplicateBars_eq, hrows, ← shared_eq_none_iff]
  cases pd.shared rows with
  | none =>
    rw [Except.ok.injEq, eq_comm]
    simp
  | some r => simp

omit [DecidableEq Cell] in
theorem Pandas.Contradictory.perm (hp : rows.Perm rows') (h : pd.Contradictory rows) : pd.Contradictory rows' := by
  obtain ⟨r, hr, s, hs, hrest⟩ := h
  exact ⟨r, hp.mem_iff.1 hr, s, hp.mem_iff.1 hs, hrest⟩

theorem distinct_perm (hp : rows.Perm rows') : (pd.distinct rows).Perm (pd.distinct rows') :=
  (List.perm_ext_iff_of_nodup (nodup_distinct _ _) (nodup_distinct _ _)).2 fun r => by
    rw [mem_distinct, mem_distinct, hp.mem_iff]

theorem slot_inj_distinct (h : ¬ pd.Contradictory rows) : ∀ r ∈ pd.distinct rows, ∀ s ∈ pd.distinct rows, slot r = slot s → r = s := by
  intro r hr s hs hslot
  rw [mem_distinct] at hr hs
  by_contra hne
  exact h ⟨r, hr.1, s, hs.1, hr.2, hs.2, hslot, hne⟩

omit [DecidableEq Cell] in
theorem mem_sortRows {r : Row Cell} {columns : List String} : r ∈ pd.sortRows columns rows ↔ r ∈ rows :=
  (List.mergeSort_perm _ _).mem_iff

/-- **Collapsing the bars is a function of the rows as a set.**  It is refused just when two rows of a slot differ.  When
some row has a slot, or there is no row, what is left are the rows with a slot, each slot once and in the order of the
slots, whatever the order of the rows; and collapsing it again changes nothing. -/
theorem deduplicateBars_canonical (h : pd.Ordered) (rows : List (Row Cell)) :
    ((∃ e, deduplicateBars pd rows = .error e) ↔ pd.Contradictory rows) ∧
    (rows = [] ∨ (∃ r ∈ rows, pd.keyed r = true) →
      (∀ out, deduplicateBars pd rows = .ok out →
        (out.map slot).Nodup ∧ (∀ r, r ∈ out ↔ r ∈ rows ∧ pd.keyed r = true) ∧
        out.Pairwise (fun a b => pd.slotLe a b = true) ∧ deduplicateBars pd out = .ok out) ∧
      ∀ rows', rows.Perm rows' → ∀ out, deduplicateBars pd rows = .ok out ↔ deduplicateBars pd rows' = .ok out) := by
  refine ⟨deduplicateBars_error_iff, fun hkeyed => ⟨fun out hout => ?_, fun rows' hp out => ?_⟩⟩
  · obtain ⟨hfine, rfl⟩ := (deduplicateBars_eq_ok hkeyed).1 hout
    have hmem (r : Row Cell) : r ∈ pd.sortRows canonicalBarColumns (pd.distinct rows) ↔ r ∈ rows ∧ pd.keyed r = true := by
      rw [mem_sortRows, mem_distinct]
    have hnodup : (pd.sortRows canonicalBarColumns (pd.distinct rows)).Nodup :=
      (List.mergeSort_perm _ _).nodup_iff.2 (nodup_distinct pd rows)
    have hinj := slot_inj_distinct hfine
    refine ⟨hnodup.map_on fun r hr s hs hslot => hinj r (mem_sortRows.1 hr) s (mem_sortRows.1 hs) hslot, hmem,
      List.pairwise_mergeSort (lexLe_trans (leOf_trans h) (leOf_trans h)) (lexLe_total (leOf_total h) (leOf_total h)) _, ?_⟩
    -- what is left has the same rows with a slot
    have hkeyed' : pd.sortRows canonicalBarColumns (pd.distinct rows) = [] ∨
        ∃ r ∈ pd.sortRows canonicalBarColumns (pd.distinct rows), pd.keyed r = true := by
      cases hl : pd.sortRows canonicalBarColumns (pd.distinct rows) with
      | nil => exact .inl rfl
      | cons r l => exact .inr ⟨r, List.mem_cons_self, ((hmem r).1 (hl ▸ List.mem_cons_self)).2⟩
    refine (deduplicateBars_eq_ok hkeyed').2 ⟨?_, ?_⟩
    · rintro ⟨r, hr, s, hs, -, -, hslot, hne⟩
      exact hne (hinj r (mem_sortRows.1 hr) s (mem_sortRows.1 hs) hslot)
    · refine sortRows_eq_of_perm h ?_ hinj
      refine (List.perm_ext_iff_of_nodup (nodup_distinct _ _) (nodup_distinct _ _)).2 fun r => ?_
      rw [mem_distinct, mem_distinct, hmem]
      exact ⟨fun hr => ⟨hr, hr.2⟩, fun hr => hr.1⟩
  · have hkeyed' : rows' = [] ∨ ∃ r ∈ rows', pd.keyed r = true := by
      rcases hkeyed with rfl | ⟨r, hr, hk⟩
      · exact .inl (List.nil_perm.1 hp)
      · exact .inr ⟨r, hp.mem_iff.1 hr, hk⟩
    rw [deduplicateBars_eq_ok hkeyed, deduplicateBars_eq_ok hkeyed']
    have hsame : pd.Contradictory rows ↔ pd.Contradictory rows' := ⟨.perm hp, .perm hp.symm⟩
    rw [hsame]
    refine and_congr_right fun hfine => ?_
    rw [sortRows_eq_of_perm h (distinct_perm hp) (slot_inj_distinct fun hc => hfine (hsame.1 hc))]

/-- Cells are numbers, zero the null, and texts are their decimals. -/
private def numbers : Pandas Nat where
  str := toString
  isna n := decide (n = 0)
  toNumeric n := some n
  le a b := decide (a ≤ b)

private theorem numbers_ordered : numbers.Ordered where
  total a b := by simp [numbers, Nat.le_total]
  trans a b c := by
    simp only [numbers, decide_eq_true_eq]
    omega
  antisymm a b := by
    simp only [numbers, decide_eq_true_eq]
    omega

/-- A bar of a symbol and a time. -/
private def bar (symbol ts close : Nat) : Row Nat := [1, symbol, ts, close, close, close, close, 1, 1, 1, 1]

/-- Three bars of which two are one, in two orders. -/
theorem deduplicateBars_three : ¬ (∃ e, deduplicateBars numbers [bar 2 9 5, bar 1 9 5, bar 2 9 5] = .error e) ∧
    ∀ out, deduplicateBars numbers [bar 2 9 5, bar 1 9 5, bar 2 9 5] = .ok out ↔
      deduplicateBars numbers [bar 1 9 5, bar 2 9 5, bar 2 9 5] = .ok out :=
  have h := deduplicateBars_canonical numbers_ordered [bar 2 9 5, bar 1 9 5, bar 2 9 5]
  ⟨fun he => shared_eq_none_iff.1 (by decide +kernel) (h.1.1 he),
    (h.2 (.inr ⟨bar 2 9 5, by decide, by decide +kernel⟩)).2 _ (by decide)⟩

/-- A row without a symbol is not among what is left. -/
theorem deduplicateBars_drops : bar 0 9 5 ∈ [bar 1 9 5, bar 0 9 5] ∧
    deduplicateBars numbers [bar 1 9 5, bar 0 9 5] = .ok [bar 1 9 5] ∧ bar 0 9 5 ∉ [bar 1 9 5] := by
  refine ⟨by decide, (deduplicateBars_eq_ok (.inr ⟨bar 1 9 5, by decide, by decide +kernel⟩)).2
    ⟨shared_eq_none_iff.1 (by decide +kernel), ?_⟩, by decide⟩
  rw [show numbers.distinct [bar 1 9 5, bar 0 9 5] = [bar 1 9 5] by decide +kernel, Pandas.sortRows, List.mergeSort_singleton]

end Intraday
