import KClosingAlpha.Daily.Archive
import KClosingAlpha.Lib.StableSort
/-!
# ArchiveCodes — the stock codes of a file that is written and read

A column of codes is stored as numbers when all of them parse as numbers, and read back filled with zeros.  A code is
read as it was where all codes are digits or one of them is no number (`readCode_cleanCell`); what is read of a date are
then the codes of its captures, each with the row of its latest one (`archive_roundTrip`).
-/

set_option linter.unusedSectionVars false

namespace Archive

open KeepLast (keepLast)
open ZeroFill (zfill isNumeral)

section

variable {F : Type} [DecidableEq F] {pd : Pandas F}

/-! ## Cells that hold a code -/

/-- A digit or a capital letter. -/
def isCodeChar (c : Char) : Bool := c.isDigit || c.isUpper

/-- Six digits and capital letters. -/
def isStockCode (s : String) : Bool := decide (s.toList.length = 6) && s.toList.all isCodeChar

/-- A numeral of at most six digits. -/
def isShortNumeral (s : String) : Bool := isNumeral s.toList && decide (s.toList.length ≤ 6)

/-- What is relied on of `pd.to_numeric`: a numeral parses as its number. -/
def ParsesNumerals (pd : Pandas F) : Prop :=
  ∀ s, isShortNumeral s = true → pd.toNumeric s = some (.inl (Nat.ofDigitChars 10 s.toList 0))

namespace Cell

/-- A cell that is read as a stock code: a number of six digits, or a text, which may lack zeros if it is a numeral. -/
def isCode : Cell F → Bool
  | int i => decide (0 ≤ i) && decide (i < 10 ^ 6)
  | text s => isStockCode s || isShortNumeral s
  | _ => false

end Cell

/-- The codes of a column are all digits, or one of them is no number. -/
def CodesKept (pd : Pandas F) (col : List (Cell F)) : Prop :=
  (∀ x ∈ col, isShortNumeral (x.str pd) = true) ∨ ∃ x ∈ col, x.number pd = none

theorem str_int_nat (n : Nat) : (Cell.int (n : Int) : Cell F).str pd = String.ofList (Nat.toDigits 10 n) := by
  rfl

theorem toList_toDigits (n : Nat) : (String.ofList (Nat.toDigits 10 n)).toList = Nat.toDigits 10 n := String.toList_ofList

theorem exists_nat_of_isCode {i : Int} (h : (Cell.int i : Cell F).isCode = true) : ∃ n : Nat, i = n ∧ n < 10 ^ 6 := by
  simp only [Cell.isCode, Bool.and_eq_true, decide_eq_true_eq] at h
  exact ⟨i.toNat, by omega, by omega⟩

theorem isShortNumeral_toDigits {n : Nat} (h : n < 10 ^ 6) : isShortNumeral (String.ofList (Nat.toDigits 10 n)) = true := by
  have hlength := (Nat.length_toDigits_le_iff (by decide : 1 < 10) (by decide : 0 < 6)).2 h
  have hpos : (Nat.toDigits 10 n).isEmpty = false := List.isEmpty_eq_false_iff.2 (List.length_pos_iff.1 Nat.length_toDigits_pos)
  rw [isShortNumeral, toList_toDigits, isNumeral, hpos, ZeroFill.all_toDigits]
  simpa using hlength

theorem isCodeChar_bounds {c : Char} (h : isCodeChar c = true) : 48 ≤ c.toNat ∧ c.toNat ≤ 90 := by
  simp only [isCodeChar, Char.isDigit, Char.isUpper, Bool.or_eq_true, Bool.and_eq_true, decide_eq_true_eq] at h
  rcases h with ⟨h1, h2⟩ | ⟨h1, h2⟩
  · have h1 : 48 ≤ c.toNat := h1
    have h2 : c.toNat ≤ 57 := h2
    omega
  · have h1 : 65 ≤ c.toNat := h1
    have h2 : c.toNat ≤ 90 := h2
    omega

theorem not_isSpace_of_isCodeChar {c : Char} (h : isCodeChar c = true) : Py.isSpace c = false := by
  obtain ⟨h1, h2⟩ := isCodeChar_bounds h
  simp only [Py.isSpace, Bool.or_eq_false_iff, Bool.and_eq_false_iff, decide_eq_false_iff_not, beq_eq_false_iff_ne]
  omega

/-- A text that holds a code: some digits and capital letters, six at most. -/
theorem codeText_spec {s : String} (h : (isStockCode s || isShortNumeral s) = true) :
    s.toList ≠ [] ∧ s.toList.all isCodeChar = true := by
  rw [Bool.or_eq_true] at h
  rcases h with h | h
  · simp only [isStockCode, Bool.and_eq_true, decide_eq_true_eq] at h
    refine ⟨fun hnil => ?_, h.2⟩
    rw [hnil] at h
    exact absurd h.1 (by decide)
  · simp only [isShortNumeral, isNumeral, Bool.and_eq_true, Bool.not_eq_true', List.isEmpty_eq_false_iff] at h
    refine ⟨h.1.1, List.all_eq_true.2 fun c hc => ?_⟩
    rw [isCodeChar, List.all_eq_true.1 h.1.2 c hc]
    rfl

/-- A cell that holds a code is not blank. -/
theorem not_isBlank_of_isCode {x : Cell F} (h : x.isCode = true) : x.isBlank = false := by
  cases x with
  | missing => cases h
  | int i => rfl
  | float f => cases h
  | time t => cases h
  | text s =>
    obtain ⟨hne, hall⟩ := codeText_spec h
    obtain ⟨c, cs, hcs⟩ := List.exists_cons_of_ne_nil hne
    rw [Cell.isBlank, Py.isBlank, hcs, List.all_cons, not_isSpace_of_isCodeChar]
    · rfl
    · exact List.all_eq_true.1 hall c (hcs ▸ List.mem_cons_self)

/-- The text of a code is none of those that stand for what is missing. -/
theorem str_not_null {x : Cell F} (h : x.isCode = true) : x.str pd ∉ ["nan", "None", "<NA>"] := by
  have hall : (x.str pd).toList.all isCodeChar = true := by
    cases x with
    | missing => cases h
    | float f => cases h
    | time t => cases h
    | text s => exact (codeText_spec h).2
    | int i =>
      obtain ⟨n, rfl, hn⟩ := exists_nat_of_isCode h
      rw [str_int_nat]
      exact (codeText_spec (by rw [isShortNumeral_toDigits hn, Bool.or_true])).2
  intro hmem
  simp only [List.mem_cons, List.not_mem_nil, or_false] at hmem
  rcases hmem with heq | heq | heq <;> rw [heq] at hall <;> exact absurd hall (by decide)

/-- A code of digits is a number of six digits, and the number is read as it was. -/
theorem number_of_digits (hnum : ParsesNumerals pd) {x : Cell F} (hx : x.isCode = true)
    (hd : isShortNumeral (x.str pd) = true) :
    ∃ n : Nat, n < 10 ^ 6 ∧ x.number pd = some (.inl n) ∧ readCode pd (.int n : Cell F) = readCode pd x := by
  cases x with
  | missing => cases hx
  | float f => cases hx
  | time t => cases hx
  | int i =>
    obtain ⟨n, rfl, hn⟩ := exists_nat_of_isCode hx
    exact ⟨n, hn, rfl, rfl⟩
  | text s =>
    have hs := hd
    rw [Cell.str, isShortNumeral, isNumeral, Bool.and_eq_true, Bool.and_eq_true] at hs
    have hlength := of_decide_eq_true hs.2
    have hlt : Nat.ofDigitChars 10 s.toList 0 < 10 ^ 6 :=
      (ZeroFill.ofDigitChars_lt hs.1.2).trans_le (Nat.pow_le_pow_right (by decide) hlength)
    refine ⟨_, hlt, hnum s hd, ?_⟩
    rw [readCode, readCode, str_int_nat, toList_toDigits, ZeroFill.zfill_toDigits (by decide) hs.1.2 hlength]
    rfl

/-- **A code is read as it was**, where all are digits or one is no number. -/
theorem readCode_cleanCell (hnum : ParsesNumerals pd) {col : List (Cell F)} (hcol : ∀ x ∈ col, x.isCode = true)
    (hkept : CodesKept pd col) {x : Cell F} (hx : x ∈ col) :
    readCode pd (cleanCell pd col x) = readCode pd x ∧ (cleanCell pd col x).isCode = true := by
  have hfull : col.countP (fun x => !x.isBlank) = col.length :=
    List.countP_eq_length.2 fun x hx => by rw [not_isBlank_of_isCode (hcol x hx)]; rfl
  have hpos : 0 < col.length := List.length_pos_of_mem hx
  unfold cleanCell
  split_ifs with hobject hnumeric
  · -- every cell parses, so all are digits
    have hdigits : ∀ x ∈ col, isShortNumeral (x.str pd) = true := by
      rcases hkept with h | ⟨y, hy, hnone⟩
      · exact h
      · rw [isNumeric, Bool.and_eq_true, decide_eq_true_eq, decide_eq_true_eq, hfull] at hnumeric
        have hall := List.countP_eq_length.1 hnumeric.2.symm y hy
        rw [hnone] at hall
        cases hall
    have hintegral : isIntegral pd col = true := by
      refine List.all_eq_true.2 fun y hy => ?_
      obtain ⟨n, -, hn, -⟩ := number_of_digits hnum (hcol y hy) (hdigits y hy)
      rw [hn]
      rfl
    obtain ⟨n, hn, hnumber, hread⟩ := number_of_digits hnum (hcol x hx) (hdigits x hx)
    have has : x.asNumber pd (isIntegral pd col) = .int n := by
      rw [Cell.asNumber, hnumber, hintegral]
      rfl
    rw [has]
    refine ⟨hread, ?_⟩
    simp only [Cell.isCode, Bool.and_eq_true, decide_eq_true_eq]
    omega
  · rw [Cell.asText, if_neg (str_not_null (hcol x hx))]
    refine ⟨rfl, ?_⟩
    have hx' := hcol x hx
    cases x with
    | missing => cases hx'
    | float f => cases hx'
    | time t => cases hx'
    | text s => exact hx'
    | int i =>
      obtain ⟨n, rfl, hn⟩ := exists_nat_of_isCode hx'
      rw [str_int_nat, Cell.isCode, isShortNumeral_toDigits hn, Bool.or_true]
  · exact ⟨rfl, hcol x hx⟩

/-! ## What is read of a date -/

variable {A : File F} {d : String} {r : Row F}

/-- The codes that are read of a date, in order. -/
def codesOf (pd : Pandas F) (A : File F) (date : String) : List String :=
  (fetchArchiveSnapshot pd A date).map (fun r => r.code.str pd)

theorem mem_captures : r ∈ captures pd A d ↔ ∃ q ∈ A.rows, q.date = d ∧ standardize pd q = r := by
  simp only [captures, List.mem_insertionSort, List.mem_map, List.mem_filter, decide_eq_true_eq, and_assoc]

theorem date_of_mem_captures (h : r ∈ captures pd A d) : r.date = d := by
  obtain ⟨q, -, hq, rfl⟩ := mem_captures.1 h
  exact hq

theorem mem_fetch : r ∈ fetchArchiveSnapshot pd A d ↔
    KeepLast.latest (fun r => (r.date, r.code)) (r.date, r.code) (captures pd A d) = some r := by
  rw [fetchArchiveSnapshot, List.mem_insertionSort, KeepLast.mem_keepLast_iff]

theorem mem_captures_of_mem_fetch (h : r ∈ fetchArchiveSnapshot pd A d) : r ∈ captures pd A d :=
  (KeepLast.mem_of_latest (mem_fetch.1 h)).1

/-- **The codes of a date are those of its rows.** -/
theorem mem_codesOf {s : String} : s ∈ codesOf pd A d ↔ ∃ q ∈ A.rows, q.date = d ∧ readCode pd q.code = s := by
  constructor
  · intro h
    obtain ⟨r, hr, rfl⟩ := List.mem_map.1 h
    obtain ⟨q, hq, hdate, rfl⟩ := mem_captures.1 (mem_captures_of_mem_fetch hr)
    exact ⟨q, hq, hdate, rfl⟩
  · rintro ⟨q, hq, hdate, rfl⟩
    have hmem : standardize pd q ∈ captures pd A d := mem_captures.2 ⟨q, hq, hdate, rfl⟩
    have hkey := KeepLast.mem_keys_keepLast.2 (List.mem_map_of_mem (f := fun r : Row F => (r.date, r.code)) hmem)
    obtain ⟨r, hr, heq⟩ := List.mem_map.1 hkey
    refine List.mem_map.2 ⟨r, (List.mem_insertionSort _).2 hr, ?_⟩
    rw [(Prod.mk.inj heq).2]
    rfl

theorem pairwise_codesOf : (codesOf pd A d).Pairwise (· ≤ ·) := by
  have htotal : Std.Total (fun a b : Row F => a.code.str pd ≤ b.code.str pd) := ⟨fun _ _ => le_total _ _⟩
  have htrans : IsTrans (Row F) (fun a b => a.code.str pd ≤ b.code.str pd) := ⟨fun _ _ _ => le_trans⟩
  exact List.pairwise_map.2 (List.pairwise_insertionSort _ _)

theorem nodup_codesOf : (codesOf pd A d).Nodup := by
  have hkeys : ((fetchArchiveSnapshot pd A d).map (fun r => (r.date, r.code))).Nodup :=
    ((List.perm_insertionSort _ _).map _).nodup_iff.2 (KeepLast.nodup_keys _)
  rw [codesOf, List.nodup_map_iff_inj_on (List.Nodup.of_map _ hkeys)]
  intro a ha b hb heq
  refine List.inj_on_of_nodup_map hkeys ha hb ?_
  obtain ⟨qa, -, hda, rfl⟩ := mem_captures.1 (mem_captures_of_mem_fetch ha)
  obtain ⟨qb, -, hdb, rfl⟩ := mem_captures.1 (mem_captures_of_mem_fetch hb)
  have heq : readCode pd qa.code = readCode pd qb.code := heq
  simp only [standardize, hda, hdb, heq]

theorem codesOf_congr {A' : File F} {d' : String} (h : ∀ s, s ∈ codesOf pd A d ↔ s ∈ codesOf pd A' d') :
    codesOf pd A d = codesOf pd A' d' :=
  ((List.perm_ext_iff_of_nodup nodup_codesOf nodup_codesOf).2 h).eq_of_pairwise
    (fun _ _ _ _ => le_antisymm) pairwise_codesOf pairwise_codesOf

/-! ## What a write leaves -/

/-- Every row of the file holds a code. -/
def File.Coded (A : File F) : Prop := ∀ r ∈ A.rows, r.code.isCode = true

/-- A snapshot of different stock codes, as texts. -/
structure Snapshot.Coded (S : Snapshot F) : Prop where
  codes : ∀ r ∈ S.rows, ∃ s, r.code = .text s ∧ isStockCode s = true
  distinct : (S.rows.map Row.code).Nodup

/-- A row as a file with the rows `file` stores it. -/
def cleanRow (pd : Pandas F) (file : List (Row F)) (r : Row F) : Row F :=
  { r with
    code := cleanCell pd (codeColumn file) r.code
    values := fun c => cleanCell pd (column c file) (r.values c) }

variable {rows : List (Row F)}

theorem keptRows_nil : keptRows A [] = A.rows := by
  refine List.filter_eq_self.2 fun r _ => ?_
  split_ifs <;> simp

theorem mem_of_mem_combined (h : r ∈ combined A rows) : r ∈ keptRows A rows ∨ r ∈ rows :=
  List.mem_append.1 (KeepLast.mem_of_mem_keepLast h)

/-- Of each identity one row is left. -/
theorem exists_mem_combined (h : r ∈ keptRows A rows ∨ r ∈ rows) : ∃ q ∈ combined A rows, q.identity = r.identity := by
  have hkey := KeepLast.mem_keys_keepLast.2 (List.mem_map_of_mem (f := Row.identity) (List.mem_append.2 h))
  obtain ⟨q, hq, heq⟩ := List.mem_map.1 hkey
  exact ⟨q, hq, heq⟩

theorem mem_combined_of_mem (hnodup : (rows.map Row.identity).Nodup) (h : r ∈ rows) : r ∈ combined A rows := by
  rw [combined, KeepLast.keepLast_append, KeepLast.keepLast_eq_self hnodup]
  exact List.mem_append.2 (.inr h)

theorem rows_upsert (h : rows ≠ []) :
    (upsertConditionParquet pd A rows).rows = (combined A rows).map (cleanRow pd (combined A rows)) := by
  rw [upsertConditionParquet, if_neg (by simpa using h)]
  rfl

/-- The columns of codes that a write puts together. -/
theorem isCode_of_mem_combined (hA : A.Coded) (hrows : ∀ r ∈ rows, r.code.isCode = true) :
    ∀ x ∈ codeColumn (combined A rows), x.isCode = true := by
  intro x hx
  obtain ⟨r, hr, rfl⟩ := List.mem_map.1 hx
  rcases mem_of_mem_combined hr with h | h
  · exact hA r (List.mem_of_mem_filter h)
  · exact hrows r h

/-- **The codes of a date after a write** are those of the rows that it leaves and of those that it puts there. -/
theorem mem_codesOf_upsert (hnum : ParsesNumerals pd) (hA : A.Coded) (hrows : ∀ r ∈ rows, r.code.isCode = true)
    (hkept : CodesKept pd (codeColumn (combined A rows))) {s : String} :
    s ∈ codesOf pd (upsertConditionParquet pd A rows) d ↔
      ∃ r, (r ∈ keptRows A rows ∨ r ∈ rows) ∧ r.date = d ∧ readCode pd r.code = s := by
  rw [mem_codesOf]
  by_cases hne : rows = []
  · subst hne
    simp [upsertConditionParquet, keptRows_nil]
  have hread : ∀ r ∈ combined A rows, readCode pd (cleanRow pd (combined A rows) r).code = readCode pd r.code := fun r hr =>
    (readCode_cleanCell hnum (isCode_of_mem_combined hA hrows) hkept (List.mem_map_of_mem hr)).1
  rw [rows_upsert hne]
  constructor
  · rintro ⟨_, hmem, hdate, hs⟩
    obtain ⟨r, hr, rfl⟩ := List.mem_map.1 hmem
    exact ⟨r, mem_of_mem_combined hr, hdate, by rw [← hread r hr, hs]⟩
  · rintro ⟨r, hr, hdate, rfl⟩
    obtain ⟨q, hq, heq⟩ := exists_mem_combined hr
    simp only [Row.identity, Prod.mk.injEq] at heq
    refine ⟨_, List.mem_map_of_mem hq, heq.1.trans hdate, ?_⟩
    rw [hread q hq, heq.2.2]

theorem coded_upsert (hnum : ParsesNumerals pd) (hA : A.Coded) (hrows : ∀ r ∈ rows, r.code.isCode = true)
    (hkept : CodesKept pd (codeColumn (combined A rows))) : (upsertConditionParquet pd A rows).Coded := by
  by_cases hne : rows = []
  · subst hne
    exact hA
  intro r hr
  rw [rows_upsert hne] at hr
  obtain ⟨q, hq, rfl⟩ := List.mem_map.1 hr
  exact (readCode_cleanCell hnum (isCode_of_mem_combined hA hrows) hkept (List.mem_map_of_mem hq)).2

/-! ## A snapshot that is stored -/

variable {S : Snapshot F}

theorem readCode_stockCode {s : String} (h : isStockCode s = true) : readCode pd (.text s : Cell F) = s := by
  simp only [isStockCode, Bool.and_eq_true, decide_eq_true_eq] at h
  rw [readCode, Cell.str, ZeroFill.zfill_of_le h.1.ge, String.ofList_toList]

/-- The rows of a snapshot, as they are stored. -/
def storedRow (pd : Pandas F) (S : Snapshot F) (date : String) (r : Row F) : Row F := standardize pd (stampRow pd S date r)

theorem storedRow_code (hS : S.Coded) (hr : r ∈ S.rows) : (storedRow pd S d r).code = r.code := by
  obtain ⟨s, hs, hcode⟩ := hS.codes r hr
  have : (storedRow pd S d r).code = .text (readCode pd r.code) := rfl
  rw [this, hs, readCode_stockCode hcode]

theorem codes_storedRow (hS : S.Coded) : (S.rows.map (storedRow pd S d)).map Row.code = S.rows.map Row.code := by
  rw [List.map_map]
  exact List.map_congr_left fun r hr => storedRow_code hS hr

theorem prepare_eq (hS : S.Coded) : prepare pd S d = S.rows.map (storedRow pd S d) := by
  have hnodup : ((S.rows.map (storedRow pd S d)).map Row.code).Nodup := by
    rw [codes_storedRow hS]
    exact hS.distinct
  unfold prepare
  simp only
  split_ifs
  · exact KeepLast.keepLast_eq_self (List.Nodup.of_map Prod.snd (by rw [List.map_map]; exact hnodup))
  · exact KeepLast.keepLast_eq_self (List.Nodup.of_map Prod.snd (by rw [List.map_map]; exact hnodup))


theorem mem_prepare (hS : S.Coded) : r ∈ prepare pd S d ↔ ∃ q ∈ S.rows, storedRow pd S d q = r := by
  rw [prepare_eq hS, List.mem_map]

theorem date_prepare (hS : S.Coded) (hr : r ∈ prepare pd S d) : r.date = d := by
  obtain ⟨q, -, rfl⟩ := (mem_prepare hS).1 hr
  rfl

theorem stamp_prepare (hS : S.Coded) (hr : r ∈ prepare pd S d) : ∃ t, r.stamp = some t := by
  obtain ⟨q, -, rfl⟩ := (mem_prepare hS).1 hr
  exact ⟨_, rfl⟩

theorem code_prepare (hS : S.Coded) (hr : r ∈ prepare pd S d) : ∃ s, r.code = .text s ∧ isStockCode s = true := by
  obtain ⟨q, hq, rfl⟩ := (mem_prepare hS).1 hr
  rw [storedRow_code hS hq]
  exact hS.codes q hq

theorem isCode_prepare (hS : S.Coded) (hr : r ∈ prepare pd S d) : r.code.isCode = true := by
  obtain ⟨s, hs, hcode⟩ := code_prepare hS hr
  rw [hs, Cell.isCode, hcode, Bool.true_or]

theorem codes_prepare (hS : S.Coded) : (prepare pd S d).map Row.code = S.rows.map Row.code := by
  rw [prepare_eq hS, codes_storedRow hS]

theorem identities_prepare (hS : S.Coded) : ((prepare pd S d).map Row.identity).Nodup := by
  refine List.Nodup.of_map (fun k => k.2.2) ?_
  have hnodup : ((prepare pd S d).map Row.code).Nodup := by
    rw [codes_prepare hS]
    exact hS.distinct
  rw [List.map_map]
  exact hnodup

/-- A stored row is told by its code. -/
theorem eq_of_readCode (hS : S.Coded) {q : Row F} (hr : r ∈ prepare pd S d) (hq : q ∈ prepare pd S d)
    (h : readCode pd r.code = readCode pd q.code) : r = q := by
  have hnodup : ((prepare pd S d).map Row.code).Nodup := by
    rw [codes_prepare hS]
    exact hS.distinct
  refine List.inj_on_of_nodup_map hnodup hr hq ?_
  obtain ⟨s, hs, hs'⟩ := code_prepare hS hr
  obtain ⟨t, ht, ht'⟩ := code_prepare hS hq
  rw [hs, ht, readCode_stockCode hs', readCode_stockCode ht'] at h
  rw [hs, ht, h]

/-! ## The order of the captures -/

instance : IsTrans (Row F) (fun a b => stampLe a b = true) := by
  refine ⟨fun a b c hab hbc => ?_⟩
  unfold stampLe at *
  cases ha : a.stamp with
  | none => rfl
  | some x =>
    cases hb : b.stamp with
    | none => simp [ha, hb] at hab
    | some y =>
      cases hc : c.stamp with
      | none => simp [hb, hc] at hbc
      | some z =>
        simp only [ha, hb, hc, decide_eq_true_eq] at *
        omega

instance : Std.Total (fun a b : Row F => stampLe a b = true) := by
  refine ⟨fun a b => ?_⟩
  unfold stampLe
  cases a.stamp with
  | none => exact .inl rfl
  | some x =>
    cases b.stamp with
    | none => exact .inr rfl
    | some y =>
      simp only [decide_eq_true_eq]
      omega

theorem stamp_eq_of_stampLe {q : Row F} (hrq : stampLe r q = true) (hqr : stampLe q r = true) : r.stamp = q.stamp := by
  unfold stampLe at *
  cases hr : r.stamp with
  | none =>
    cases hq : q.stamp with
    | none => rfl
    | some y => simp [hr, hq] at hqr
  | some x =>
    cases hq : q.stamp with
    | none => simp [hr, hq] at hrq
    | some y =>
      simp only [hr, hq, decide_eq_true_eq] at hrq hqr
      rw [le_antisymm hrq hqr]

/-- A row that a write leaves is of no capture that is written. -/
theorem stamp_ne_of_mem_keptRows {q : Row F} (hr : r ∈ keptRows A rows) (hq : q ∈ rows) (hdate : r.date = q.date) :
    r.stamp ≠ q.stamp := by
  intro hstamp
  have h := (List.mem_filter.1 hr).2
  split_ifs at h
  · exact of_decide_eq_true h (List.mem_map.2 ⟨q, hq, by rw [hdate, hstamp]⟩)
  · exact of_decide_eq_true h (List.mem_map.2 ⟨q, hq, hdate.symm⟩)

/-- **What a date gives for a code is the row of the latest capture.** -/
theorem mem_fetch_of_latest {q : Row F} (hq : q ∈ A.rows) (hdate : q.date = d)
    (h : ∀ r ∈ A.rows, r.date = d → readCode pd r.code = readCode pd q.code → stampLe q r = true → r = q) :
    standardize pd q ∈ fetchArchiveSnapshot pd A d := by
  rw [mem_fetch, KeepLast.latest, captures, StableSort.filter_insertionSort]
  refine StableSort.getLast?_insertionSort ?_ ?_
  · rw [List.mem_filter, List.mem_map]
    exact ⟨⟨q, List.mem_filter.2 ⟨hq, decide_eq_true hdate⟩, rfl⟩, decide_eq_true rfl⟩
  · intro b hb hle
    obtain ⟨hb, hkey⟩ := List.mem_filter.1 hb
    obtain ⟨r, hr, rfl⟩ := List.mem_map.1 hb
    obtain ⟨hr, hrd⟩ := List.mem_filter.1 hr
    have hcode := Cell.text.inj (Prod.mk.inj (of_decide_eq_true hkey)).2
    rw [h r hr (of_decide_eq_true hrd) hcode hle]

/-! ## Values that are stored -/

/-- A cell that a column stores as it is: the column has no texts, or its entries do not all parse as numbers and the
cell is missing or a text that does not stand for that. -/
def CellKept (pd : Pandas F) (col : List (Cell F)) (x : Cell F) : Prop :=
  isObject col = false ∨
    (isNumeric pd col = false ∧ (x = .missing ∨ ∃ s, x = .text s ∧ s ∉ ["nan", "None", "<NA>"]))

theorem cleanCell_of_kept {col : List (Cell F)} {x : Cell F} (h : CellKept pd col x) : cleanCell pd col x = x := by
  unfold cleanCell
  rcases h with h | ⟨h, hx⟩
  · rw [if_neg (by simp [h])]
  · rw [if_neg (by simp [h] : ¬ isNumeric pd col = true)]
    split_ifs
    · rcases hx with rfl | ⟨s, rfl, hs⟩
      · rfl
      · exact if_neg hs
    · rfl

theorem readTheme_idem (x : Cell F) : readTheme pd (readTheme pd x) = readTheme pd x := by
  unfold readTheme
  split_ifs with h h'
  · rfl
  · rfl
  · rfl

theorem standardize_values_prepare (hS : S.Coded) (hr : r ∈ prepare pd S d) (c : Col) :
    (standardize pd r).values c = r.values c := by
  obtain ⟨q, -, rfl⟩ := (mem_prepare hS).1 hr
  cases c <;> first | rfl | exact readTheme_idem _

theorem standardize_values_congr {q : Row F} {c : Col} (h : r.values c = q.values c) :
    (standardize pd r).values c = (standardize pd q).values c := by
  cases c <;> first | exact h | exact congrArg (readTheme pd) h

/-- **The round trip of a snapshot.**  What is read of its date are its codes and those of the date's other captures,
each with the stored values where it is the latest; the other dates have their codes. -/
theorem archive_roundTrip (hnum : ParsesNumerals pd) (hA : A.Coded) (hS : S.Coded)
    (hkept : CodesKept pd (codeColumn (combined A (prepare pd S d)))) :
    (upsertArchiveSnapshot pd A S d).Coded ∧ (codesOf pd (upsertArchiveSnapshot pd A S d) d).Nodup ∧
      (∀ s, s ∈ codesOf pd (upsertArchiveSnapshot pd A S d) d ↔
        .text s ∈ S.rows.map Row.code ∨ ∃ r ∈ keptRows A (prepare pd S d), r.date = d ∧ readCode pd r.code = s) ∧
      (∀ q ∈ prepare pd S d,
        (∀ r ∈ keptRows A (prepare pd S d), r.date = d → readCode pd r.code = readCode pd q.code → stampLe r q = true) →
        ∃ q' ∈ fetchArchiveSnapshot pd (upsertArchiveSnapshot pd A S d) d, q'.code = q.code ∧ q'.stamp = q.stamp ∧
          ∀ c, CellKept pd (column c (combined A (prepare pd S d))) (q.values c) → q'.values c = q.values c) ∧
      ∀ d' ≠ d, codesOf pd (upsertArchiveSnapshot pd A S d) d' = codesOf pd A d' := by
  have hrows : ∀ r ∈ prepare pd S d, r.code.isCode = true := fun r hr => isCode_prepare hS hr
  have hcodes : (prepare pd S d).map Row.code = S.rows.map Row.code := codes_prepare hS
  refine ⟨coded_upsert hnum hA hrows hkept, nodup_codesOf, fun s => ?_, fun q hq hlatest => ?_, fun d' hd' => ?_⟩
  · rw [upsertArchiveSnapshot, mem_codesOf_upsert hnum hA hrows hkept]
    constructor
    · rintro ⟨r, hr | hr, hdate, rfl⟩
      · exact .inr ⟨r, hr, hdate, rfl⟩
      · obtain ⟨t, ht, hcode⟩ := code_prepare hS hr
        rw [ht, readCode_stockCode hcode, ← ht, ← hcodes]
        exact .inl (List.mem_map_of_mem hr)
    · rintro (hs | ⟨r, hr, hdate, rfl⟩)
      · rw [← hcodes] at hs
        obtain ⟨r, hr, hcode⟩ := List.mem_map.1 hs
        obtain ⟨t, ht, ht'⟩ := code_prepare hS hr
        rw [hcode] at ht
        cases ht
        exact ⟨r, .inr hr, date_prepare hS hr, by rw [hcode, readCode_stockCode ht']⟩
      · exact ⟨r, .inl hr, hdate, rfl⟩
  · have hmem : q ∈ combined A (prepare pd S d) := mem_combined_of_mem (identities_prepare hS) hq
    have hread : ∀ r ∈ combined A (prepare pd S d),
        readCode pd (cleanRow pd (combined A (prepare pd S d)) r).code = readCode pd r.code := fun r hr =>
      (readCode_cleanCell hnum (isCode_of_mem_combined hA hrows) hkept (List.mem_map_of_mem hr)).1
    have hne : prepare pd S d ≠ [] := List.ne_nil_of_mem hq
    have hdateq : q.date = d := date_prepare hS hq
    obtain ⟨t, ht, hcode⟩ := code_prepare hS hq
    refine ⟨standardize pd (cleanRow pd (combined A (prepare pd S d)) q), ?_, ?_, rfl, fun c hc => ?_⟩
    · refine mem_fetch_of_latest (q := cleanRow pd (combined A (prepare pd S d)) q) ?_ ?_ ?_
      · rw [upsertArchiveSnapshot, rows_upsert hne]
        exact List.mem_map_of_mem hmem
      · exact hdateq
      · intro r' hr' hdate hsame hle
        rw [upsertArchiveSnapshot, rows_upsert hne] at hr'
        obtain ⟨r, hr, rfl⟩ := List.mem_map.1 hr'
        rw [hread r hr, hread q hmem] at hsame
        rcases mem_of_mem_combined hr with hold | hnew
        · have hle' := hlatest r hold hdate hsame
          exact absurd (stamp_eq_of_stampLe hle' hle) (stamp_ne_of_mem_keptRows hold hq (hdate.trans hdateq.symm))
        · rw [eq_of_readCode hS hnew hq hsame]
    · have hstd : (standardize pd (cleanRow pd (combined A (prepare pd S d)) q)).code =
          .text (readCode pd (cleanRow pd (combined A (prepare pd S d)) q).code) := rfl
      rw [hstd, hread q hmem, ht, readCode_stockCode hcode]
    · rw [standardize_values_congr (cleanCell_of_kept hc), standardize_values_prepare hS hq]
  · refine codesOf_congr fun s => ?_
    rw [upsertArchiveSnapshot, mem_codesOf_upsert hnum hA hrows hkept, mem_codesOf]
    constructor
    · rintro ⟨r, hr | hr, hdate, hs⟩
      · exact ⟨r, List.mem_of_mem_filter hr, hdate, hs⟩
      · exact absurd (hdate.symm.trans (date_prepare hS hr)) hd'
    · rintro ⟨r, hr, hdate, hs⟩
      refine ⟨r, .inl (List.mem_filter.2 ⟨hr, ?_⟩), hdate, hs⟩
      have hother : ∀ q ∈ prepare pd S d, q.date ≠ r.date := fun q hq heq =>
        hd' (hdate.symm.trans (heq.symm.trans (date_prepare hS hq)))
      split_ifs
      · refine decide_eq_true fun hmem => ?_
        obtain ⟨q, hq, heq⟩ := List.mem_map.1 hmem
        exact hother q hq (Prod.mk.inj heq).1
      · refine decide_eq_true fun hmem => ?_
        obtain ⟨q, hq, heq⟩ := List.mem_map.1 hmem
        exact hother q hq heq

end

/-! ## Two captures of one day -/

/-- Numbers written with digits, and with a capital E. -/
def plainNumeric (s : String) : Option (Int ⊕ Int) :=
  if isNumeral s.toList then some (.inl (Nat.ofDigitChars 10 s.toList 0))
  else match s.toList.span Char.isDigit with
    | (m, 'E' :: e) =>
      if isNumeral m && isNumeral e then some (.inr (Nat.ofDigitChars 10 m 0 * 10 ^ Nat.ofDigitChars 10 e 0)) else none
    | _ => none

/-- Texts of such numbers, whole doubles, and seconds; the one date is 2026-09-21. -/
def plainPandas : Pandas Int where
  toNumeric := plainNumeric
  ofInt := id
  strFloat f := toString f ++ ".0"
  strTime := toString
  toDatetime
    | .time t => some t
    | _ => none
  kstTimestamp _ := 1789972200

theorem parsesNumerals_plain : ParsesNumerals plainPandas := by
  intro s hs
  rw [isShortNumeral, Bool.and_eq_true] at hs
  exact if_pos hs.1

/-- A candidate with its closing price. -/
def plainRow (date : String) (stamp : Int) (code : String) (close : Int) : Row Int :=
  ⟨date, some stamp, .text code, fun
    | .close => .int close
    | .name => .text code
    | _ => .missing⟩

def earlierFile : File Int :=
  ⟨true, [plainRow "2026-09-18" 1789712400 "0010V0" 9120, plainRow "2026-09-21" 1789969800 "000660" 181000]⟩

def laterSnapshot : Snapshot Int := ⟨true, true, [plainRow "2026-09-21" 1789971600 "005930" 70100]⟩

theorem coded_laterSnapshot : laterSnapshot.Coded :=
  ⟨by simp [laterSnapshot, plainRow, isStockCode, isCodeChar], by simp [laterSnapshot]⟩

/-- A code of another capture of the day is read beside those of the snapshot. -/
theorem other_capture_is_read :
    laterSnapshot.rows.map Row.code = [.text "005930"] ∧
      codesOf plainPandas (upsertArchiveSnapshot plainPandas earlierFile laterSnapshot "2026-09-21") "2026-09-21" =
        ["000660", "005930"] := by
  decide +kernel

/-- The price of the snapshot is read. -/
theorem price_is_read : ∃ q ∈ fetchArchiveSnapshot plainPandas
      (upsertArchiveSnapshot plainPandas earlierFile laterSnapshot "2026-09-21") "2026-09-21",
    q.code = .text "005930" ∧ q.values .close = .int 70100 := by
  have hA : earlierFile.Coded := by
    unfold File.Coded
    decide +kernel
  have hkept : CodesKept plainPandas
      (codeColumn (combined earlierFile (prepare plainPandas laterSnapshot "2026-09-21"))) := by
    unfold CodesKept
    decide +kernel
  obtain ⟨-, -, -, hvalues, -⟩ := archive_roundTrip parsesNumerals_plain hA coded_laterSnapshot hkept
  obtain ⟨q, hq, hcode, -, hclose⟩ :=
    hvalues (storedRow plainPandas laterSnapshot "2026-09-21" (plainRow "2026-09-21" 1789971600 "005930" 70100))
      (by rw [prepare_eq coded_laterSnapshot]; exact List.mem_singleton.2 rfl) (by decide +kernel)
  exact ⟨q, hq, hcode, hclose .close (.inl (by decide +kernel))⟩

/-- Codes that all parse as numbers, one of them with an exponent, are stored as doubles. -/
example : codesOf plainPandas (upsertArchiveSnapshot plainPandas ⟨true, []⟩
    ⟨true, true, [plainRow "2026-09-21" 1789971600 "0001E0" 5000]⟩ "2026-09-21") "2026-09-21" = ["0001.0"] := by
  decide +kernel

end Archive
