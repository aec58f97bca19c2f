import KClosingAlpha.Daily.ArchiveTable
import KClosingAlpha.Daily.FinalizeClose
/-!
# FinalizeRuns — what the runs of a day leave of a file

Where with a latest row of a date all rows of its capture are latest ones, a run changes the table of the file in place
(`run_table`), and so does any number of runs: each row is there after them, as it was or confirmed once
(`finalization_touches_confirmed`).  Where not, the write of a run loses rows (`not_together_loses_row`).
-/
namespace Archive

open Py

variable {rd : Reading} {pd : Pandas PyFloat} {A : File PyFloat} {d : String} {r q : Row PyFloat}
  {priceOutput : Dict Value} {ts : Clock} {update : List (Col × Cell PyFloat)}

/-! ## A row that is confirmed -/

theorem identity_put (r : Row PyFloat) (update : List (Col × Cell PyFloat)) : (r.put update).identity = r.identity := rfl

theorem Stores.values_put (h : Stores rd pd r priceOutput ts update) {c : Col} (hc : c ∉ finalizedCols) :
    (r.put update).values c = r.values c := by
  simp only [Row.put, h.cols c hc, Option.getD_none]

theorem Stores.isText_put (h : Stores rd pd r priceOutput ts update) (hr : ∀ c ∈ finalizedCols, (r.values c).isText = false)
    {c : Col} (hc : c ∈ finalizedCols) : ((r.put update).values c).isText = false := by
  simp only [Row.put]
  cases hx : update.lookup c with
  | none => exact hr c hc
  | some x =>
    by_contra htext
    rw [Option.getD_some, Bool.not_eq_false] at htext
    rw [h.texts c x hx htext, hr .close (by decide)] at htext
    cases htext

theorem Stores.kept_put (h : Stores rd pd r priceOutput ts update) (hr : r.Kept pd) : (r.put update).Kept pd := by
  refine ⟨hr.stamp, ?_, ?_, ?_, ?_⟩
  · rw [h.values_put (by decide)]
    exact hr.theme
  · rw [h.values_put (by decide)]
    exact hr.featureAvailable
  · rw [h.values_put (by decide)]
    exact hr.decisionTimestamp
  · simp only [Row.put, h.executed, Option.getD_some]
    exact ⟨_, rfl⟩

theorem Stores.isConfirmed_put (h : Stores rd pd r priceOutput ts update) : (r.put update).isConfirmed = true := by
  simp only [Row.isConfirmed, Row.put, h.confirmed, Option.getD_some]
  rfl

variable {round : Round} {r' : Row PyFloat}

theorem Round.Confirms.stores (h : round.Confirms rd pd r r') :
    ∃ priceOutput ts update, r' = r.put update ∧ Stores rd pd r priceOutput ts update := by
  obtain ⟨priceOutput, -, -, -, update, hbuild, rfl⟩ := h
  exact ⟨priceOutput, _, update, rfl, stores_of_build hbuild⟩

/-- A row before and after some rounds. -/
def Changed (rd : Reading) (pd : Pandas PyFloat) (rounds : List Round) (r r' : Row PyFloat) : Prop :=
  r' = r ∨ (r.isConfirmed = false ∧ ∃ round ∈ rounds, round.Confirms rd pd r r')

variable {rounds : List Round}

theorem Changed.identity (h : Changed rd pd rounds r r') : r'.identity = r.identity := by
  rcases h with rfl | ⟨-, round, -, hc⟩
  · rfl
  · obtain ⟨_, _, update, rfl, -⟩ := hc.stores
    rfl

theorem Changed.values (h : Changed rd pd rounds r r') {c : Col} (hc : c ∉ finalizedCols) : r'.values c = r.values c := by
  rcases h with rfl | ⟨-, round, -, hconfirms⟩
  · rfl
  · obtain ⟨_, _, update, rfl, hs⟩ := hconfirms.stores
    exact hs.values_put hc

theorem Changed.isText (h : Changed rd pd rounds r r') (hr : ∀ c ∈ finalizedCols, (r.values c).isText = false) :
    ∀ c ∈ finalizedCols, (r'.values c).isText = false := by
  rcases h with rfl | ⟨-, round, -, hconfirms⟩
  · exact hr
  · obtain ⟨_, _, update, rfl, hs⟩ := hconfirms.stores
    exact fun c hc => hs.isText_put hr hc

theorem Changed.kept (h : Changed rd pd rounds r r') (hr : r.Kept pd) : r'.Kept pd := by
  rcases h with rfl | ⟨-, round, -, hconfirms⟩
  · exact hr
  · obtain ⟨_, _, update, rfl, hs⟩ := hconfirms.stores
    exact hs.kept_put hr

/-! ## Files as a write leaves them -/

/-- A file that keeps its codes and its columns, with numbers and times where the runs write them; on the days of the runs
its rows have their times. -/
structure File.Sound (pd : Pandas PyFloat) (days : List String) (A : File PyFloat) : Prop extends A.KeepsCodes pd where
  stable : Stable pd (table pd A)
  numbers : ∀ r ∈ table pd A, ∀ c ∈ finalizedCols, (r.values c).isText = false
  kept : ∀ r ∈ table pd A, r.date ∈ days → r.Kept pd

variable {g : Row PyFloat → Row PyFloat} {T : List (Row PyFloat)}

/-- Columns that are stable stay so when numbers and times are written into columns of such. -/
theorem Stable.changed (h : Stable pd T) (hT : ∀ r ∈ T, ∀ c ∈ finalizedCols, (r.values c).isText = false)
    (hg : ∀ r ∈ T, Changed rd pd rounds r (g r)) : Stable pd (T.map g) := by
  intro c x hx
  by_cases hc : c ∈ finalizedCols
  · have hobject : isObject (column c (T.map g)) = false := by
      rw [isObject, List.any_eq_false]
      intro y hy
      obtain ⟨r', hr', rfl⟩ := List.mem_map.1 hy
      obtain ⟨r, hr, rfl⟩ := List.mem_map.1 hr'
      rw [(hg r hr).isText (hT r hr) c hc]
      decide
    rw [cleanCell, if_neg (by rw [hobject]; decide)]
  · have hcol : column c (T.map g) = column c T := by
      unfold column
      rw [List.map_map]
      exact List.map_congr_left fun r hr => (hg r hr).values hc
    rw [hcol] at hx ⊢
    exact h c x hx

/-! ## One run -/

theorem nodup_labels : ((fetchArchiveSnapshot pd A d).map (Row.label pd)).Nodup := nodup_codesOf

/-- What is pending at the start are the rows that are not confirmed. -/
theorem pending_spec {rows : List (Row PyFloat)} (hn : (rows.map (Row.label pd)).Nodup) (picks : List String) :
    ((orderPendingByPriority pd (rows.filter (fun r => !r.isConfirmed)) picks).map (Row.label pd)).Nodup ∧
      ∀ r ∈ rows, r.label pd ∈ (orderPendingByPriority pd (rows.filter (fun r => !r.isConfirmed)) picks).map (Row.label pd) →
        r.isConfirmed = false := by
  have hperm : (orderPendingByPriority pd (rows.filter (fun r => !r.isConfirmed)) picks).Perm
      (rows.filter (fun r => !r.isConfirmed)) := List.perm_insertionSort _ _
  refine ⟨(hperm.map _).nodup_iff.2 (hn.sublist (List.filter_sublist.map _)), fun r hr hmem => ?_⟩
  obtain ⟨q, hq, hlabel⟩ := List.mem_map.1 hmem
  obtain ⟨hq, hconfirmed⟩ := List.mem_filter.1 (hperm.mem_iff.1 hq)
  rw [← List.inj_on_of_nodup_map hn hq hr hlabel]
  simpa using hconfirmed

variable {run : Run}

/-- **What a run does to a file**: nothing, or its latest rows are written back, some of them confirmed. -/
theorem afterRun_cases (rd : Reading) (pd : Pandas PyFloat) (A : File PyFloat) (run : Run) :
    afterRun rd pd A run = A ∨ ∃ g : Row PyFloat → Row PyFloat,
      (∀ r ∈ fetchArchiveSnapshot pd A run.snap, Changed rd pd run.rounds r (g r)) ∧
      (∀ r, r ∉ fetchArchiveSnapshot pd A run.snap → g r = r) ∧
      afterRun rd pd A run =
        upsertArchiveSnapshot pd A ⟨true, true, (fetchArchiveSnapshot pd A run.snap).map g⟩ run.snap := by
  classical
  unfold afterRun
  cases hrun : runCloseFinalization rd pd A run with
  | error e => exact .inl rfl
  | ok result =>
    simp only [runCloseFinalization, Exc.bind_eq_ok, Exc.pure_eq_ok] at hrun
    obtain ⟨-, -, s, hpoll, rfl⟩ := hrun
    cases s with
    | none => exact .inl rfl
    | some p =>
      simp only [Option.map_some]
      split_ifs
      · have hn : ((fetchArchiveSnapshot pd A run.snap).map (Row.label pd)).Nodup := nodup_labels
        obtain ⟨hnodup, hunconfirmed⟩ := pending_spec hn run.pickCodes
        obtain ⟨g, hg, hcases⟩ := poll_rows hn hnodup hpoll
        refine .inr ⟨fun r => if r ∈ fetchArchiveSnapshot pd A run.snap then g r else r, fun r hr => ?_, fun r hr => if_neg hr, ?_⟩
        · simp only [if_pos hr]
          exact (hcases r hr).imp_right fun h => ⟨hunconfirmed r hr h.1, h.2⟩
        · rw [hg]
          congr 2
          exact List.map_congr_left fun r hr => (if_pos hr).symm
      · exact .inl rfl

/-- **A run changes the table in place**, and leaves a file of the kind. -/
theorem run_table (rd : Reading) (hnum : ParsesNumerals pd) (htimes : ReadsTimes pd) {days : List String} (hA : A.Sound pd days)
    (hday : run.snap ∈ days) (htogether : Together (table pd A) run.snap) :
    ∃ g : Row PyFloat → Row PyFloat, (table pd (afterRun rd pd A run)).Perm ((table pd A).map g) ∧
      (∀ r, Changed rd pd run.rounds r (g r)) ∧ (afterRun rd pd A run).Sound pd days := by
  rcases afterRun_cases rd pd A run with heq | ⟨g, hg, hother, heq⟩
  · rw [heq]
    exact ⟨id, by rw [List.map_id], fun r => .inl rfl, hA⟩
  · have hall : ∀ r, Changed rd pd run.rounds r (g r) := by
      intro r
      by_cases hr : r ∈ fetchArchiveSnapshot pd A run.snap
      · exact hg r hr
      · exact .inl (hother r hr)
    have hkept : ∀ r ∈ table pd A, r.date = run.snap → r.Kept pd := fun r hr hdate => hA.kept r hr (hdate ▸ hday)
    have hlatest : ∀ r ∈ fetchArchiveSnapshot pd A run.snap, IsLatest (table pd A) run.snap r := fun r hr =>
      (mem_fetch_iff hA.distinct fun q hq hdate => (hkept q hq hdate).theme).1 hr
    have hstable : Stable pd ((table pd A).map g) := hA.stable.changed hA.numbers fun r _ => hall r
    obtain ⟨hperm, hkeeps⟩ := table_upsert hnum htimes hA.toKeepsCodes hkept htogether (fun r => (hall r).identity) hother
      (fun r hr => (hall r).kept (hkept r (hlatest r hr).1 (hlatest r hr).2.1)) hstable
    rw [← heq] at hperm hkeeps
    refine ⟨g, hperm, hall, hkeeps, hstable.perm hperm.symm, fun r' hr' => ?_, fun r' hr' hdate => ?_⟩
    · obtain ⟨r, hr, rfl⟩ := List.mem_map.1 (hperm.mem_iff.1 hr')
      exact (hall r).isText (hA.numbers r hr)
    · obtain ⟨r, hr, rfl⟩ := List.mem_map.1 (hperm.mem_iff.1 hr')
      have hsame : (g r).date = r.date := congrArg Prod.fst (hall r).identity
      exact (hall r).kept (hA.kept r hr (hsame ▸ hdate))

/-! ## Any number of runs -/

theorem stampLe_congr {a b a' b' : Row PyFloat} (ha : a.stamp = a'.stamp) (hb : b.stamp = b'.stamp) :
    stampLe a b = stampLe a' b' := by
  unfold stampLe
  rw [ha, hb]

theorem isLatest_perm {T' : List (Row PyFloat)} (h : T.Perm T') : IsLatest T d q ↔ IsLatest T' d q := by
  simp only [IsLatest, h.mem_iff]

/-- Whether a row is a latest one is a matter of the identities. -/
theorem isLatest_map (hkey : ∀ r, (g r).identity = r.identity) (hq : q ∈ T) : IsLatest (T.map g) d (g q) ↔ IsLatest T d q := by
  have hdate : ∀ r, (g r).date = r.date := fun r => congrArg Prod.fst (hkey r)
  have hstamp : ∀ r, (g r).stamp = r.stamp := fun r => congrArg (fun k => k.2.1) (hkey r)
  have hcode : ∀ r, (g r).code = r.code := fun r => congrArg (fun k => k.2.2) (hkey r)
  simp only [IsLatest, List.forall_mem_map, hdate, hcode, stampLe_congr (hstamp _) (hstamp _), hq,
    List.mem_map_of_mem hq, true_and]

theorem Together.map (h : Together T d) (hkey : ∀ r, (g r).identity = r.identity) : Together (T.map g) d := by
  have hdate : ∀ r, (g r).date = r.date := fun r => congrArg Prod.fst (hkey r)
  have hstamp : ∀ r, (g r).stamp = r.stamp := fun r => congrArg (fun k => k.2.1) (hkey r)
  intro r' hr' q' hq' hrdate hlatest hsame
  obtain ⟨r, hr, rfl⟩ := List.mem_map.1 hr'
  obtain ⟨q, hq, rfl⟩ := List.mem_map.1 hq'
  rw [isLatest_map hkey hq] at hlatest
  rw [isLatest_map hkey hr]
  rw [hdate] at hrdate
  rw [hstamp, hstamp] at hsame
  exact h r hr q hq hrdate hlatest hsame

theorem Together.perm {T' : List (Row PyFloat)} (h : Together T d) (hp : T.Perm T') : Together T' d := by
  intro r hr q hq hdate hlatest hsame
  rw [← isLatest_perm hp] at hlatest ⊢
  exact h r (hp.mem_iff.2 hr) q (hp.mem_iff.2 hq) hdate hlatest hsame

/-- One capture a day is enough. -/
theorem together_of_one (h : ∀ r ∈ T, ∀ q ∈ T, r.date = d → q.date = d → r.stamp = q.stamp) : Together T d := by
  intro r hr _ _ hdate _ _
  refine ⟨hr, hdate, fun q hq hqdate _ => ?_⟩
  rw [stampLe_congr (h q hq r hr hqdate hdate) rfl]
  exact (Std.Total.total (r := fun a b : Row PyFloat => stampLe a b = true) r r).elim id id

/-- **Runs change the table in place**: a row is as it was, or confirmed by a round of one of them. -/
theorem runs_table (rd : Reading) (hnum : ParsesNumerals pd) (htimes : ReadsTimes pd) {days : List String} : ∀ {runs : List Run}
    {A : File PyFloat}, A.Sound pd days → (∀ run ∈ runs, run.snap ∈ days) →
    (∀ run ∈ runs, Together (table pd A) run.snap) →
    ∃ g : Row PyFloat → Row PyFloat, (table pd (runs.foldl (afterRun rd pd) A)).Perm ((table pd A).map g) ∧
      ∀ r, Changed rd pd (runs.flatMap Run.rounds) r (g r)
  | [], A, _, _, _ => ⟨id, by rw [List.map_id]; rfl, fun r => .inl rfl⟩
  | run :: runs, A, hA, hdays, htogether => by
    obtain ⟨g, hperm, hg, hsound⟩ := run_table rd hnum htimes hA (hdays run List.mem_cons_self)
      (htogether run List.mem_cons_self)
    obtain ⟨g', hperm', hg'⟩ := runs_table rd hnum htimes hsound (fun run' h => hdays run' (List.mem_cons_of_mem _ h))
      (fun run' h => ((htogether run' (List.mem_cons_of_mem _ h)).map fun r => (hg r).identity).perm hperm.symm)
    refine ⟨g' ∘ g, ?_, fun r => ?_⟩
    · rw [List.foldl_cons, ← List.map_map]
      exact hperm'.trans (hperm.map g')
    · rw [List.flatMap_cons, Function.comp_apply]
      rcases hg r with heq | ⟨hopen, round, hround, hc⟩
      · rw [heq]
        exact (hg' r).imp_right fun ⟨hopen, round, hround, hc⟩ => ⟨hopen, round, List.mem_append_right _ hround, hc⟩
      · -- what is confirmed is not confirmed again
        have hdone : (g r).isConfirmed = true := by
          obtain ⟨_, _, update, heq, hs⟩ := hc.stores
          rw [heq]
          exact hs.isConfirmed_put
        have hsame : g' (g r) = g r := (hg' (g r)).resolve_right fun ⟨hopen', _⟩ => by
          rw [hdone] at hopen'
          cases hopen'
        rw [hsame]
        exact .inr ⟨hopen, round, List.mem_append_left _ hround, hc⟩

/-- **Runs touch only what they confirm.**  Every row is there after them, and no other; a row is as it was, or in some
round its quote passed the gates and was consistent, and then its decision close is the one that it had. -/
theorem finalization_touches_confirmed (rd : Reading) (hnum : ParsesNumerals pd) (htimes : ReadsTimes pd) (runs : List Run)
    (hA : A.Sound pd (runs.map Run.snap)) (htogether : ∀ run ∈ runs, Together (table pd A) run.snap) :
    ((table pd (runs.foldl (afterRun rd pd) A)).map Row.identity).Perm ((table pd A).map Row.identity) ∧
      ∀ r' ∈ table pd (runs.foldl (afterRun rd pd) A), ∃ r ∈ table pd A, r'.identity = r.identity ∧
        (r' = r ∨
          (r.isConfirmed = false ∧ r'.isConfirmed = true ∧ decisionKeep rd pd r = .ok (r'.values .decisionClose) ∧
            (∀ c ∉ finalizedCols, r'.values c = r.values c) ∧
            ∃ run ∈ runs, ∃ round ∈ run.rounds, ∃ priceOutput bookOutput2,
              (round.answer (r.label pd)).quote = some (priceOutput, bookOutput2) ∧
                isCloseConfirmed rd priceOutput bookOutput2 (round.answer (r.label pd)).tick = true ∧
                Consistent rd pd r priceOutput)) := by
  obtain ⟨g, hperm, hg⟩ := runs_table rd hnum htimes hA (fun run => List.mem_map_of_mem) htogether
  refine ⟨?_, fun r' hr' => ?_⟩
  · have hidentity : ((table pd A).map g).map Row.identity = (table pd A).map Row.identity := by
      rw [List.map_map]
      exact List.map_congr_left fun r _ => (hg r).identity
    rw [← hidentity]
    exact hperm.map _
  · obtain ⟨r, hr, rfl⟩ := List.mem_map.1 (hperm.mem_iff.1 hr')
    refine ⟨r, hr, (hg r).identity, (hg r).imp_right ?_⟩
    rintro ⟨hopen, round, hround, priceOutput, bookOutput2, hquote, hgate, update, hbuild, heq⟩
    obtain ⟨run, hrun, hround⟩ := List.mem_flatMap.1 hround
    have hs := stores_of_build hbuild
    obtain ⟨keep, hkeep, hlookup⟩ := hs.decisionClose
    rw [heq]
    refine ⟨hopen, hs.isConfirmed_put, ?_, fun c hc => hs.values_put hc, run, hrun, round, hround, priceOutput, bookOutput2,
      hquote, hgate, hs.consistent⟩
    simp only [hkeep, Row.put, hlookup, Option.getD_some]

/-! ## A day with two captures -/

/-- Digits, with a sign or a point. -/
def plainFloat (s : String) : Option PyFloat :=
  let signed := s.toList.head? = some '-'
  match (if signed then s.toList.tail else s.toList).span Char.isDigit with
  | (m, []) => if ZeroFill.isNumeral m then some (.ofDecimal signed (Nat.ofDigitChars 10 m 0) 0) else none
  | (m, '.' :: f) =>
    if ZeroFill.isNumeral m && ZeroFill.isNumeral f then
      some (.ofDecimal signed (Nat.ofDigitChars 10 (m ++ f) 0) (-(f.length : Int)))
    else none
  | _ => none

def plainReading : Reading where
  floatOfStr := plainFloat
  nans _ := true

/-- Numbers that are digits, doubles as they are printed, and seconds; the one date is 2026-09-21. -/
def plainDoubles : Pandas PyFloat where
  toNumeric s := if ZeroFill.isNumeral s.toList then some (.inl (Nat.ofDigitChars 10 s.toList 0)) else Sum.inr <$> plainFloat s
  ofInt := .ofInt
  strFloat f := String.ofList f.repr
  strTime := toString
  toDatetime
    | .time t => some t
    | _ => none
  kstTimestamp _ := 1789972200

theorem parsesNumerals_doubles : ParsesNumerals plainDoubles := by
  intro s hs
  rw [isShortNumeral, Bool.and_eq_true] at hs
  exact if_pos hs.1

/-- A candidate of 2026-09-21. -/
def candidate (stamp : Int) (code name : String) (close : Int) : Row PyFloat :=
  ⟨"2026-09-21", some stamp, .text code, fun
    | .name => .text name
    | .close => .int close
    | .prevClose => .int 69000
    | .volume => .int 1000000
    | .admitted => .int 1
    | .featureAvailable | .decisionTimestamp | .executionTimestamp => .time stamp
    | .synthetic => .int 0
    | _ => .missing⟩

/-- One capture, at 15:20. -/
def oneCapture : File PyFloat :=
  ⟨true, [candidate 1789971600 "000660" "SK하이닉스" 181000, candidate 1789971600 "005930" "삼성전자" 70000]⟩

/-- Two captures, at 14:50 and at 15:20. -/
def twoCaptures : File PyFloat :=
  ⟨true, [candidate 1789969800 "000660" "SK하이닉스" 180500, candidate 1789969800 "005930" "삼성전자" 69800,
    candidate 1789971600 "005930" "삼성전자" 70000]⟩

/-- At 15:30:05 the close of one stock is confirmed, at 15:33:05 the run ends. -/
def closeRun : Run where
  snap := "2026-09-21"
  pickCodes := ["005930"]
  rounds :=
    [{ now := ⟨"2026-09-21", "153005", 1789972205⟩
       answer code := ⟨⟨"2026-09-21", "153005", 1789972205⟩,
        if code = "005930" then
          some ([("stck_shrn_iscd", .str "005930"), ("stck_prpr", .str "70100"), ("stck_sdpr", .str "69000"),
              ("stck_oprc", .str "69200"), ("stck_hgpr", .str "70300"), ("stck_lwpr", .str "69000"),
              ("acml_vol", .str "1200000"), ("acml_tr_pbmn", .str "84000000000"), ("prdy_ctrt", .str "1.59")],
            [("antc_mkop_cls_code", .str "112"), ("stck_prpr", .str "70100")])
        else some ([], [])⟩ },
     { now := ⟨"2026-09-21", "153305", 1789972385⟩
       answer _ := ⟨⟨"2026-09-21", "153305", 1789972385⟩, none⟩ }]

/-- The row of the earlier capture is lost, because the later one has another set of codes. -/
theorem not_together_loses_row :
    ("2026-09-21", some 1789969800, .text "005930") ∈ (table plainDoubles twoCaptures).map Row.identity ∧
      ("2026-09-21", some 1789969800, .text "005930") ∉
        (table plainDoubles (afterRun plainReading plainDoubles twoCaptures closeRun)).map Row.identity := by
  decide +kernel

theorem sound_oneCapture : oneCapture.Sound plainDoubles ["2026-09-21"] := by
  refine ⟨⟨rfl, ?_, ?_, by decide +kernel⟩, ?_, by decide +kernel, ?_⟩
  · unfold File.Coded
    decide +kernel
  · unfold CodesKept
    decide +kernel
  · intro c
    cases c <;> decide +kernel
  · intro r hr _
    obtain ⟨q, hq, rfl⟩ := List.mem_map.1 hr
    simp only [oneCapture, List.mem_cons, List.not_mem_nil, or_false] at hq
    rcases hq with rfl | rfl
    · exact ⟨⟨_, rfl⟩, rfl, ⟨_, rfl⟩, ⟨_, rfl⟩, ⟨_, rfl⟩⟩
    · exact ⟨⟨_, rfl⟩, rfl, ⟨_, rfl⟩, ⟨_, rfl⟩, ⟨_, rfl⟩⟩

/-- With one capture no row is lost. -/
theorem one_capture_keeps_rows :
    ("2026-09-21", some 1789971600, .text "000660") ∈
      (table plainDoubles ([closeRun].foldl (afterRun plainReading plainDoubles) oneCapture)).map Row.identity := by
  have hone : ∀ r ∈ table plainDoubles oneCapture, ∀ q ∈ table plainDoubles oneCapture, r.stamp = q.stamp := by decide +kernel
  have htogether : ∀ run ∈ [closeRun], Together (table plainDoubles oneCapture) run.snap := fun _ _ =>
    together_of_one fun r hr q hq _ _ => hone r hr q hq
  have h := finalization_touches_confirmed plainReading parsesNumerals_doubles (fun _ => rfl) [closeRun] sound_oneCapture
    htogether
  rw [h.1.mem_iff]
  decide +kernel

end Archive
