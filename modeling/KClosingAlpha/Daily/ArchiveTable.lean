import KClosingAlpha.Daily.ArchiveCodes
/-!
# ArchiveTable — a file as the table of its rows, with the codes that are read

What is read of a date are the latest rows of its codes (`mem_fetch_iff`).  Written back with some of them changed, they
change the table in place, provided that with a latest row all rows of its capture are latest ones (`table_upsert`).
-/

set_option linter.unusedSectionVars false

namespace Archive

open KeepLast (keepLast)
open ZeroFill (zfill isNumeral)

section

variable {F : Type} [DecidableEq F] {pd : Pandas F} {A : File F} {d : String} {r q : Row F}

/-! ## Codes that are read -/

theorem readCode_readCode (x : Cell F) : readCode pd (.text (readCode pd x) : Cell F) = readCode pd x := by
  simp only [readCode, Cell.str, String.toList_ofList, ZeroFill.zfill_zfill]

theorem isShortNumeral_zfill {cs : List Char} (h : isShortNumeral (String.ofList cs) = true) :
    isShortNumeral (String.ofList (zfill 6 cs)) = true := by
  simp only [isShortNumeral, isNumeral, String.toList_ofList, Bool.and_eq_true, decide_eq_true_eq, Bool.not_eq_true',
    List.isEmpty_eq_false_iff] at h ⊢
  have hlength := ZeroFill.length_zfill_digits h.1.2 h.2
  refine ⟨⟨fun hnil => ?_, ZeroFill.all_zfill h.1.2⟩, hlength.le⟩
  rw [hnil] at hlength
  exact absurd hlength (by decide)

/-- A code is some digits, or six characters that are read as they are. -/
theorem readCode_cases (pd : Pandas F) {x : Cell F} (hx : x.isCode = true) :
    (isShortNumeral (x.str pd) = true ∧ isShortNumeral (readCode pd x) = true) ∨
      ∃ s, x = .text s ∧ isStockCode s = true ∧ readCode pd x = s := by
  have hdigits : ∀ {y : Cell F}, isShortNumeral (y.str pd) = true →
      isShortNumeral (y.str pd) = true ∧ isShortNumeral (readCode pd y) = true := fun {y} h =>
    ⟨h, isShortNumeral_zfill (by rwa [String.ofList_toList])⟩
  cases x with
  | missing => cases hx
  | float f => cases hx
  | time t => cases hx
  | int i =>
    obtain ⟨n, rfl, hn⟩ := exists_nat_of_isCode hx
    exact .inl (hdigits (isShortNumeral_toDigits hn))
  | text s =>
    rcases Bool.or_eq_true_iff.1 hx with h | h
    · exact .inr ⟨s, rfl, h, readCode_stockCode h⟩
    · exact .inl (hdigits h)

theorem isCode_readCode {x : Cell F} (hx : x.isCode = true) : (Cell.text (readCode pd x) : Cell F).isCode = true := by
  rcases readCode_cases pd hx with ⟨-, h⟩ | ⟨s, -, h, heq⟩
  · rw [Cell.isCode, h, Bool.or_true]
  · rw [heq, Cell.isCode, h, Bool.true_or]

/-- Whether a column keeps its codes is seen of the codes that are read. -/
theorem codesKept_read (hnum : ParsesNumerals pd) {col : List (Cell F)} (hcol : ∀ x ∈ col, x.isCode = true) :
    CodesKept pd (col.map (fun x => .text (readCode pd x))) ↔ CodesKept pd col := by
  unfold CodesKept
  refine or_congr ?_ ?_
  · rw [List.forall_mem_map]
    refine forall₂_congr fun x hx => ?_
    rcases readCode_cases pd (hcol x hx) with ⟨h, h'⟩ | ⟨s, rfl, -, heq⟩
    · exact ⟨fun _ => h, fun _ => h'⟩
    · rw [heq]
  · simp only [List.mem_map, exists_exists_and_eq_and]
    refine exists_congr fun x => and_congr_right fun hx => ?_
    rcases readCode_cases pd (hcol x hx) with ⟨h, h'⟩ | ⟨s, rfl, -, heq⟩
    · obtain ⟨n, -, hn, -⟩ := number_of_digits hnum (hcol x hx) h
      have hn' : (Cell.text (readCode pd x) : Cell F).number pd = _ := hnum _ h'
      rw [hn, hn']
      simp
    · rw [heq]

theorem codesKept_congr {col col' : List (Cell F)} (h : ∀ x, x ∈ col ↔ x ∈ col') : CodesKept pd col ↔ CodesKept pd col' := by
  unfold CodesKept
  simp only [h]

/-! ## The table of a file -/

/-- A row with its code as it is read. -/
def Row.told (pd : Pandas F) (r : Row F) : Row F := { r with code := .text (readCode pd r.code) }

def table (pd : Pandas F) (A : File F) : List (Row F) := A.rows.map (Row.told pd)

/-- The latest row of its code on a date. -/
def IsLatest (T : List (Row F)) (date : String) (q : Row F) : Prop :=
  q ∈ T ∧ q.date = date ∧ ∀ r ∈ T, r.date = date → r.code = q.code → stampLe r q = true

/-- With a latest row of a date, all rows of its capture are latest ones. -/
def Together (T : List (Row F)) (date : String) : Prop :=
  ∀ r ∈ T, ∀ q ∈ T, r.date = date → IsLatest T date q → r.stamp = q.stamp → IsLatest T date r

/-- A row that is written as it was read: it has its times, and a theme that stands for one. -/
structure Row.Kept (pd : Pandas F) (r : Row F) : Prop where
  stamp : ∃ t, r.stamp = some t
  theme : readTheme pd (r.values .theme) = r.values .theme
  featureAvailable : ∃ t, r.values .featureAvailable = .time t
  decisionTimestamp : ∃ t, r.values .decisionTimestamp = .time t
  executionTimestamp : ∃ t, r.values .executionTimestamp = .time t

/-- What is relied on of `pd.to_datetime`: a time is that time. -/
def ReadsTimes (pd : Pandas F) : Prop := ∀ t, pd.toDatetime (.time t) = some t

/-- The columns of a table are stored as they are. -/
def Stable (pd : Pandas F) (T : List (Row F)) : Prop := ∀ c, ∀ x ∈ column c T, cleanCell pd (column c T) x = x

theorem cleanCell_perm {col col' : List (Cell F)} (h : col.Perm col') (x : Cell F) : cleanCell pd col x = cleanCell pd col' x := by
  have hobject : isObject col = isObject col' := h.any_eq
  have hnumeric : isNumeric pd col = isNumeric pd col' := by
    simp only [isNumeric, h.countP_eq]
  have hintegral : isIntegral pd col = isIntegral pd col' := h.all_eq
  simp only [cleanCell, hobject, hnumeric, hintegral]

theorem Stable.perm {T T' : List (Row F)} (h : Stable pd T) (hp : T.Perm T') : Stable pd T' := by
  intro c x hx
  have hcol : (column c T).Perm (column c T') := hp.map _
  rw [← cleanCell_perm hcol]
  exact h c x (hcol.mem_iff.2 hx)

theorem told_told (r : Row F) : (r.told pd).told pd = r.told pd := by
  unfold Row.told
  rw [readCode_readCode]

theorem standardize_told (h : readTheme pd (r.values .theme) = r.values .theme) : standardize pd r = r.told pd := by
  unfold standardize Row.told
  congr 1
  funext c
  cases c <;> first | rfl | exact h

/-- A row that is kept is stored as it was. -/
theorem storedRow_kept (htimes : ReadsTimes pd) {rows : List (Row F)} (hr : r.Kept pd) (hdate : r.date = d)
    (htold : r.told pd = r) : standardize pd (stampRow pd ⟨true, true, rows⟩ d r) = r := by
  obtain ⟨t, ht⟩ := hr.stamp
  obtain ⟨t₁, h₁⟩ := hr.featureAvailable
  obtain ⟨t₂, h₂⟩ := hr.decisionTimestamp
  obtain ⟨t₃, h₃⟩ := hr.executionTimestamp
  have hstamped : stampRow pd ⟨true, true, rows⟩ d r = r := by
    unfold stampRow
    cases r with
    | mk date stamp code values =>
      simp only at ht hdate h₁ h₂ h₃
      simp only [ht, hdate, Option.getD_some, if_true, Row.mk.injEq, true_and]
      funext c
      cases c <;> simp [ensureTz, h₁, h₂, h₃, htimes _]
  rw [hstamped, standardize_told hr.theme, htold]

/-- Rows that are kept are written as they are. -/
theorem prepare_kept (htimes : ReadsTimes pd) {rows : List (Row F)} (h : ∀ r ∈ rows, r.Kept pd ∧ r.date = d ∧ r.told pd = r)
    (hn : (rows.map Row.code).Nodup) : prepare pd ⟨true, true, rows⟩ d = rows := by
  have hout : rows.map (fun r => standardize pd (stampRow pd ⟨true, true, rows⟩ d r)) = rows := by
    conv_rhs => rw [← List.map_id rows]
    exact List.map_congr_left fun r hr => storedRow_kept htimes (h r hr).1 (h r hr).2.1 (h r hr).2.2
  unfold prepare
  simp only [hout]
  split_ifs
  · exact KeepLast.keepLast_eq_self (List.Nodup.of_map Prod.snd (by rw [List.map_map]; exact hn))
  · exact KeepLast.keepLast_eq_self (List.Nodup.of_map Prod.snd (by rw [List.map_map]; exact hn))

/-! ## The latest rows of a date -/

/-- The rows of a date are told apart by capture and code, and their themes stand for some. -/
theorem mem_fetch_iff (hdistinct : ((table pd A).map Row.identity).Nodup)
    (htheme : ∀ r ∈ table pd A, r.date = d → readTheme pd (r.values .theme) = r.values .theme) :
    q ∈ fetchArchiveSnapshot pd A d ↔ IsLatest (table pd A) d q := by
  have hstd : ∀ r ∈ A.rows, r.date = d → standardize pd r = r.told pd := fun r hr hdate =>
    standardize_told (htheme (r.told pd) (List.mem_map_of_mem hr) hdate)
  constructor
  · intro h
    obtain ⟨q₀, hq₀, hdate, hq⟩ := mem_captures.1 (mem_captures_of_mem_fetch h)
    have hlast := mem_fetch.1 h
    rw [KeepLast.latest, captures, StableSort.filter_insertionSort] at hlast
    subst hq
    refine ⟨hstd q₀ hq₀ hdate ▸ List.mem_map_of_mem hq₀, hdate, fun r hr hrdate hcode => ?_⟩
    obtain ⟨r₀, hr₀, rfl⟩ := List.mem_map.1 hr
    have hmem : r₀.told pd ∈ (((A.rows.filter (fun r => decide (r.date = d))).map (standardize pd)).filter
        (fun r => decide ((r.date, r.code) = ((standardize pd q₀).date, (standardize pd q₀).code)))) := by
      refine List.mem_filter.2 ⟨List.mem_map.2 ⟨r₀, List.mem_filter.2 ⟨hr₀, decide_eq_true hrdate⟩, hstd r₀ hr₀ hrdate⟩,
        decide_eq_true (Prod.ext (hrdate.trans hdate.symm) hcode)⟩
    rcases StableSort.le_of_getLast? hlast hmem with heq | hle
    · rw [← heq]
      exact (Std.Total.total (r := fun a b : Row F => stampLe a b = true) _ _).elim id id
    · exact hle
  · rintro ⟨hq, hdate, hlatest⟩
    obtain ⟨q₀, hq₀, rfl⟩ := List.mem_map.1 hq
    rw [← hstd q₀ hq₀ hdate]
    refine mem_fetch_of_latest hq₀ hdate fun r hr hrdate hcode hle => ?_
    have htold : (r.told pd).code = (q₀.told pd).code := congrArg Cell.text hcode
    have hstamp : r.stamp = q₀.stamp :=
      stamp_eq_of_stampLe (hlatest (r.told pd) (List.mem_map_of_mem hr) hrdate htold) hle
    have hdistinct' : (A.rows.map (fun r => (r.told pd).identity)).Nodup := by
      rw [table, List.map_map] at hdistinct
      exact hdistinct
    refine List.inj_on_of_nodup_map hdistinct' hr hq₀ ?_
    exact Prod.ext (hrdate.trans hdate.symm) (Prod.ext hstamp htold)

/-! ## Rows that are written back -/

theorem told_eq_self {x : Cell F} (h : r.code = .text (readCode pd x)) : r.told pd = r := by
  cases r
  simp only at h
  simp only [Row.told, h, readCode_readCode]

theorem column_told (c : Col) (rows : List (Row F)) : column c (rows.map (Row.told pd)) = column c rows := by
  unfold column
  rw [List.map_map]
  rfl

theorem codeColumn_told (rows : List (Row F)) :
    codeColumn (rows.map (Row.told pd)) = (codeColumn rows).map (fun x => .text (readCode pd x)) := by
  unfold codeColumn
  rw [List.map_map, List.map_map]
  rfl

/-- **A stable file tells the same after it is cleaned.** -/
theorem told_clean (hnum : ParsesNumerals pd) {rows : List (Row F)} (hcol : ∀ x ∈ codeColumn rows, x.isCode = true)
    (hcodes : CodesKept pd (codeColumn rows)) (hstable : Stable pd (rows.map (Row.told pd))) :
    (rows.map (cleanRow pd rows)).map (Row.told pd) = rows.map (Row.told pd) := by
  rw [List.map_map]
  refine List.map_congr_left fun r hr => ?_
  have hcode := (readCode_cleanCell hnum hcol hcodes (List.mem_map_of_mem hr)).1
  simp only [Function.comp_apply, Row.told, cleanRow, hcode, Row.mk.injEq, true_and]
  funext c
  have hc := hstable c (r.values c)
  rw [column_told] at hc
  exact hc (List.mem_map_of_mem hr)

variable {g : Row F → Row F}

/-- What a write of the latest rows puts together is the table with them changed. -/
theorem combined_perm {rows : List (Row F)} (hstamped : A.stamped = true) (hdistinct : ((table pd A).map Row.identity).Nodup)
    (hrows : ∀ q, q ∈ rows ↔ IsLatest (table pd A) d q) (hn : rows.Nodup) (htogether : Together (table pd A) d)
    (hkey : ∀ r, (g r).identity = r.identity) (hother : ∀ r, r ∉ rows → g r = r) :
    ((combined A (rows.map g)).map (Row.told pd)).Perm ((table pd A).map g) := by
  have htold : (rows.map g).map (Row.told pd) = rows.map g := by
    rw [List.map_map]
    refine List.map_congr_left fun q hq => ?_
    obtain ⟨q₀, -, rfl⟩ := List.mem_map.1 ((hrows q).1 hq).1
    exact told_eq_self (congrArg (fun k => k.2.2) (hkey (q₀.told pd)))
  have hkept : (keptRows A (rows.map g)).map (Row.told pd) =
      (table pd A).filter (fun r => decide ((r.date, r.stamp) ∉ (rows.map g).map (fun q => (q.date, q.stamp)))) := by
    rw [table, List.filter_map, keptRows, hstamped]
    rfl
  have hclosed : ∀ r ∈ table pd A, (r.date, r.stamp) ∈ rows.map (fun q => (q.date, q.stamp)) → r ∈ rows := by
    intro r hr hgroup
    obtain ⟨q, hq, heq⟩ := List.mem_map.1 hgroup
    have hlatest := (hrows q).1 hq
    obtain ⟨hdate, hstamp⟩ := Prod.mk.inj heq
    exact (hrows r).2 (htogether r hr q hlatest.1 (hdate.symm.trans hlatest.2.1) hlatest hstamp.symm)
  have happend : ((keptRows A (rows.map g) ++ rows.map g).map (Row.told pd)).Perm ((table pd A).map g) := by
    rw [List.map_append, hkept, htold]
    exact KeepLast.putBack_perm (fun r => (r.date, r.stamp)) (List.Nodup.of_map _ hdistinct) hn
      (fun q hq => ((hrows q).1 hq).1) (fun r => decide_eq_true_iff) hclosed hother
      (fun r => congrArg (fun k => (k.1, k.2.1)) (hkey r))
  -- so what is put together has each identity once, and nothing is dropped from it
  have hnodup : ((keptRows A (rows.map g) ++ rows.map g).map Row.identity).Nodup := by
    have hidentity : ((table pd A).map g).map Row.identity = (table pd A).map Row.identity := by
      rw [List.map_map]
      exact List.map_congr_left fun r _ => hkey r
    have hmap := (happend.map Row.identity).nodup_iff.2 (hidentity ▸ hdistinct)
    refine List.Nodup.of_map (fun k => (k.1, k.2.1, (.text (readCode pd k.2.2) : Cell F))) ?_
    rw [List.map_map] at hmap ⊢
    exact hmap
  rw [combined, KeepLast.keepLast_eq_self hnodup]
  exact happend

theorem codes_table : codeColumn (table pd A) = (codeColumn A.rows).map (fun x => .text (readCode pd x)) :=
  codeColumn_told A.rows

/-- A file that keeps its codes. -/
structure File.KeepsCodes (pd : Pandas F) (A : File F) : Prop where
  stamped : A.stamped = true
  coded : A.Coded
  codes : CodesKept pd (codeColumn A.rows)
  distinct : ((table pd A).map Row.identity).Nodup

theorem File.Coded.column (hA : A.Coded) : ∀ x ∈ codeColumn A.rows, x.isCode = true := by
  intro x hx
  obtain ⟨r, hr, rfl⟩ := List.mem_map.1 hx
  exact hA r hr

/-- **The latest rows of a date, some of them changed, change the table in place.** -/
theorem table_upsert (hnum : ParsesNumerals pd) (htimes : ReadsTimes pd) (hA : A.KeepsCodes pd)
    (hkept : ∀ r ∈ table pd A, r.date = d → r.Kept pd) (htogether : Together (table pd A) d)
    (hkey : ∀ r, (g r).identity = r.identity) (hother : ∀ r, r ∉ fetchArchiveSnapshot pd A d → g r = r)
    (hgkept : ∀ r ∈ fetchArchiveSnapshot pd A d, (g r).Kept pd) (hstable : Stable pd ((table pd A).map g)) :
    (table pd (upsertArchiveSnapshot pd A ⟨true, true, (fetchArchiveSnapshot pd A d).map g⟩ d)).Perm ((table pd A).map g) ∧
      (upsertArchiveSnapshot pd A ⟨true, true, (fetchArchiveSnapshot pd A d).map g⟩ d).KeepsCodes pd := by
  have hrows : ∀ q, q ∈ fetchArchiveSnapshot pd A d ↔ IsLatest (table pd A) d q := fun q =>
    mem_fetch_iff hA.distinct fun r hr hdate => (hkept r hr hdate).theme
  have hcodesNodup : ((fetchArchiveSnapshot pd A d).map Row.code).Nodup := by
    have hnodup : (codesOf pd A d).Nodup := nodup_codesOf
    refine List.Nodup.of_map (fun x => x.str pd) ?_
    rw [List.map_map]
    exact hnodup
  generalize fetchArchiveSnapshot pd A d = rows at *
  have hidentity : ((table pd A).map g).map Row.identity = (table pd A).map Row.identity := by
    rw [List.map_map]
    exact List.map_congr_left fun r _ => hkey r
  have hcode : ∀ r, (g r).code = r.code := fun r => congrArg (fun k => k.2.2) (hkey r)
  have hprepare : prepare pd ⟨true, true, rows.map g⟩ d = rows.map g := by
    refine prepare_kept htimes (fun r hr => ?_) ?_
    · obtain ⟨q, hq, rfl⟩ := List.mem_map.1 hr
      obtain ⟨hmem, hdate, -⟩ := (hrows q).1 hq
      obtain ⟨q₀, -, rfl⟩ := List.mem_map.1 hmem
      exact ⟨hgkept _ hq, (congrArg Prod.fst (hkey _)).trans hdate, told_eq_self (hcode _)⟩
    · rw [List.map_map]
      have : rows.map (Row.code ∘ g) = rows.map Row.code := List.map_congr_left fun r _ => hcode r
      rwa [this]
  rw [upsertArchiveSnapshot, hprepare]
  by_cases hne : rows.map g = []
  · have hnil : rows = [] := List.map_eq_nil_iff.1 hne
    subst hnil
    have hid : (table pd A).map g = table pd A := by
      conv_rhs => rw [← List.map_id (table pd A)]
      exact List.map_congr_left fun r _ => hother r (List.not_mem_nil)
    rw [hid]
    exact ⟨.refl _, hA⟩
  have hperm := combined_perm hA.stamped hA.distinct hrows (List.Nodup.of_map _ hcodesNodup) htogether hkey hother
  have hcol : ∀ x ∈ codeColumn (combined A (rows.map g)), x.isCode = true := by
    refine isCode_of_mem_combined hA.coded fun r hr => ?_
    obtain ⟨q, hq, rfl⟩ := List.mem_map.1 hr
    obtain ⟨q₀, hq₀, rfl⟩ := List.mem_map.1 ((hrows q).1 hq).1
    rw [hcode]
    exact isCode_readCode (hA.coded q₀ hq₀)
  have hread : (codeColumn (table pd A)).Perm
      ((codeColumn (combined A (rows.map g))).map (fun x => .text (readCode pd x))) := by
    have hcodes : codeColumn ((table pd A).map g) = codeColumn (table pd A) := by
      unfold codeColumn
      rw [List.map_map]
      exact List.map_congr_left fun r _ => hcode r
    rw [← hcodes, ← codeColumn_told]
    exact (hperm.map Row.code).symm
  have hkeptCodes : CodesKept pd (codeColumn (combined A (rows.map g))) := by
    rw [← codesKept_read hnum hcol, ← codesKept_congr fun x => hread.mem_iff, codes_table,
      codesKept_read hnum hA.coded.column]
    exact hA.codes
  have hclean : table pd (upsertConditionParquet pd A (rows.map g)) = (combined A (rows.map g)).map (Row.told pd) := by
    rw [table, rows_upsert hne]
    exact told_clean hnum hcol hkeptCodes (hstable.perm hperm.symm)
  have hcoded : (upsertConditionParquet pd A (rows.map g)).Coded := coded_upsert hnum hA.coded (fun r hr => ?_) hkeptCodes
  · rw [hclean]
    refine ⟨hperm, ?_, hcoded, ?_, ?_⟩
    · rw [upsertConditionParquet, if_neg (by simpa using hne)]
    · rw [← codesKept_read hnum hcoded.column, ← codes_table, hclean, codeColumn_told, codesKept_read hnum hcol]
      exact hkeptCodes
    · rw [hclean, (hperm.map Row.identity).nodup_iff, hidentity]
      exact hA.distinct
  · obtain ⟨q, hq, rfl⟩ := List.mem_map.1 hr
    obtain ⟨q₀, hq₀, rfl⟩ := List.mem_map.1 ((hrows q).1 hq).1
    rw [hcode]
    exact isCode_readCode (hA.coded q₀ hq₀)

end

end Archive
