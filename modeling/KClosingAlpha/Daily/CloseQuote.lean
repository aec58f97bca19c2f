import KClosingAlpha.Daily.Archive
import KClosingAlpha.Lib.Exc
import KClosingAlpha.Py.Ratio
import KClosingAlpha.Py.Whole
/-!
# CloseQuote — when a closing price is confirmed, and what is stored of it (`daily/finalize_close.py`)

A quote confirms a close where the clock, the state of the market and two equal prices say so (`isCloseConfirmed`), and
its numbers agree with one another and with the decision (`buildFinalizedRow`).  What it stores of a row keeps the close
of the decision (`decisionClose_of_build`).
-/
namespace Archive

open Py
open Exc (raiseIf)

/-! ## Numbers of the vendor -/

/-- What a run raises; a request raises what its client does. -/
inductive Raised where
  | valueError (message : String)
  | overflowError (message : String)
  | typeError (message : String)
  | keyError
  | request
deriving DecidableEq

/-- What is used of the runtime: `float(text)`, and which columns hold a NaN for what is missing, not a `None`. -/
structure Reading where
  floatOfStr : String → Option PyFloat
  nans : Col → Bool

namespace Reading

variable (rd : Reading) (pd : Pandas PyFloat)

def zero : PyFloat := .ofInt 0

/-- `safe_float(text, 0.0)`. -/
def ofText (s : String) : PyFloat := (rd.floatOfStr (String.ofList (s.toList.filter (fun c => decide (c ≠ ','))))).getD zero

/-- `safe_float(value, 0.0)` of a field. -/
def safeFloat : Value → PyFloat
  | .none | .strs _ | .other => zero
  | .float f => f
  | v => rd.ofText v.toStr

/-- `safe_float(output.get(name), 0.0)`. -/
def field (output : Dict Value) (name : String) : PyFloat := rd.safeFloat (output.getD name .none)

/-- `safe_float(row.get(column), 0.0)`. -/
def cell (r : Row PyFloat) (c : Col) : PyFloat :=
  match r.values c with
  | .missing => if rd.nans c then .nan else zero
  | .int i => .ofInt i
  | .float f => f
  | .text s => rd.ofText s
  | .time t => rd.ofText (pd.strTime t)

end Reading

/-- `int(x)`. -/
def truncate : PyFloat → Except Raised Int
  | .nan => .error (.valueError "cannot convert float NaN to integer")
  | .inf _ => .error (.overflowError "cannot convert float infinity to integer")
  | .finite neg m e _ =>
    let n : Int := ((PyFloat.toRatio m e).1 / (PyFloat.toRatio m e).2 : Nat)
    .ok (if neg then -n else n)

/-- `round(x, 2)`. -/
def roundCents : PyFloat → PyFloat
  | .finite neg m e _ =>
    .ofRatio neg (roundHalfEven ((PyFloat.toRatio m e).1 * 100) (PyFloat.toRatio m e).2) 100
  | x => x

/-! ## The gates -/

/-- An instant, with its date and its time of the day in the market's zone. -/
structure Clock where
  date : String
  hhmmss : String
  instant : Int

def closingAuctionConfirmEarliestHhmmss : String := "153000"

def closingAuctionFinalizeDeadlineHhmmss : String := "153300"

def closingAuctionConfirmedMkopCode : String := "112"

/-- The clock, the state of the market and two equal prices. -/
def isCloseConfirmed (rd : Reading) (priceOutput bookOutput2 : Dict Value) (now : Clock) : Bool :=
  let price := rd.field priceOutput "stck_prpr"
  let book := rd.field bookOutput2 "stck_prpr"
  !decide (now.hhmmss < closingAuctionConfirmEarliestHhmmss) &&
    decide (strip (bookOutput2.getD "antc_mkop_cls_code" (.str "")).toStr = closingAuctionConfirmedMkopCode) &&
    PyFloat.lt Reading.zero price && PyFloat.le price book && PyFloat.le book price

/-- `not str(value or "").strip()`. -/
def isBlankField : Value → Bool
  | .strs xs => xs.isEmpty
  | .other => false
  | v => !v.truthy || isBlank v.toStr

/-- An answer for a code that the vendor does not know. -/
def isQuoteUnresolved (rd : Reading) (priceOutput : Dict Value) : Bool :=
  !priceOutput.isEmpty && isBlankField (priceOutput.getD "stck_shrn_iscd" .none) &&
    PyFloat.le (rd.field priceOutput "stck_prpr") Reading.zero

/-! ## What is stored -/

/-- `CLOSE_RATE_CONSISTENCY_ATOL`. -/
def closeRateConsistencyAtol : PyFloat := .ofDecimal false 2 (-4)

/-- `abs(close / prev - 1.0 - rate / 100.0)` of positive prices. -/
def rateDifference (close prev : Int) (rate : PyFloat) : PyFloat :=
  PyFloat.abs (PyFloat.sub (PyFloat.sub (.ofRatio false close.toNat prev.toNat) (.ofInt 1)) (PyFloat.div rate (.ofInt 100)))

/-- The close of the decision: the one that is kept, or the row's. -/
def decisionKeep (rd : Reading) (pd : Pandas PyFloat) (r : Row PyFloat) : Except Raised (Cell PyFloat) :=
  if PyFloat.lt Reading.zero (rd.cell pd r .decisionClose) then Cell.int <$> truncate (rd.cell pd r .decisionClose)
  else .ok (r.values .close)

/-- The previous close of the vendor, or the row's where that is zero. -/
def previousClose (rd : Reading) (pd : Pandas PyFloat) (r : Row PyFloat) (priceOutput : Dict Value) : Except Raised Int := do
  let quoted ← truncate (rd.field priceOutput "stck_sdpr")
  if quoted ≠ 0 then return quoted else truncate (rd.cell pd r .prevClose)

/-- The columns that a confirmed quote changes, with their cells. -/
def buildFinalizedRow (rd : Reading) (pd : Pandas PyFloat) (decisionRow : Row PyFloat) (priceOutput : Dict Value)
    (confirmedTs : Clock) : Except Raised (List (Col × Cell PyFloat)) := do
  let close ← truncate (rd.field priceOutput "stck_prpr")
  let prev ← previousClose rd pd decisionRow priceOutput
  let openPrice ← truncate (rd.field priceOutput "stck_oprc")
  let highPrice ← truncate (rd.field priceOutput "stck_hgpr")
  let lowPrice ← truncate (rd.field priceOutput "stck_lwpr")
  let vol ← truncate (rd.field priceOutput "acml_vol")
  let tradeValue := roundCents (PyFloat.div (rd.field priceOutput "acml_tr_pbmn") (.ofInt 100000000))
  let rate := rd.field priceOutput "prdy_ctrt"
  let decisionVol ← truncate (rd.cell pd decisionRow .volume)
  raiseIf (close ≤ 0 ∨ prev ≤ 0 ∨ vol < decisionVol)
    (.valueError ("invalid confirmed quote close=" ++ toString close ++ " prev=" ++ toString prev ++ " vol=" ++
      toString vol ++ " decision_vol=" ++ toString decisionVol))
  raiseIf (PyFloat.lt closeRateConsistencyAtol (rateDifference close prev rate) = true)
    (.valueError ("price/rate mismatch close=" ++ toString close ++ " prev=" ++ toString prev ++ " rate=" ++
      String.ofList rate.repr))
  let keep ← decisionKeep rd pd decisionRow
  let marketCap := rd.field priceOutput "hts_avls"
  return [(.open_, .int openPrice), (.high, .int highPrice), (.low, .int lowPrice), (.close, .int close),
    (.prevClose, .int prev), (.volume, .int vol), (.tradeValue, .float tradeValue), (.rate, .float rate),
    (.decisionClose, keep), (.closeConfirmed, .int 1), (.executionTimestamp, .time confirmedTs.instant)] ++
      (if PyFloat.lt Reading.zero marketCap then [(.marketCap, .float (roundCents marketCap))] else [])

/-- The columns that a confirmed quote may change. -/
def finalizedCols : List Col :=
  [.open_, .high, .low, .close, .prevClose, .volume, .tradeValue, .rate, .decisionClose, .closeConfirmed,
    .executionTimestamp, .marketCap]

/-- The row with some of its columns changed. -/
def Row.put (r : Row PyFloat) (update : List (Col × Cell PyFloat)) : Row PyFloat :=
  { r with values := fun c => (update.lookup c).getD (r.values c) }

/-! ## What a quote that is stored has said -/

variable {rd : Reading} {pd : Pandas PyFloat} {r : Row PyFloat} {priceOutput : Dict Value} {ts : Clock}
  {update : List (Col × Cell PyFloat)}

/-- Positive prices whose change is the rate that comes with them, and no smaller volume than at the decision. -/
def Consistent (rd : Reading) (pd : Pandas PyFloat) (r : Row PyFloat) (priceOutput : Dict Value) : Prop :=
  ∃ close prev vol decisionVol, truncate (rd.field priceOutput "stck_prpr") = .ok close ∧
    previousClose rd pd r priceOutput = .ok prev ∧ truncate (rd.field priceOutput "acml_vol") = .ok vol ∧
    truncate (rd.cell pd r .volume) = .ok decisionVol ∧ 0 < close ∧ 0 < prev ∧ decisionVol ≤ vol ∧
    PyFloat.lt closeRateConsistencyAtol (rateDifference close prev (rd.field priceOutput "prdy_ctrt")) = false

/-- What is stored of a confirmed quote. -/
structure Stores (rd : Reading) (pd : Pandas PyFloat) (r : Row PyFloat) (priceOutput : Dict Value) (ts : Clock)
    (update : List (Col × Cell PyFloat)) : Prop where
  consistent : Consistent rd pd r priceOutput
  decisionClose : ∃ keep, decisionKeep rd pd r = .ok keep ∧ update.lookup .decisionClose = some keep
  confirmed : update.lookup .closeConfirmed = some (.int 1)
  executed : update.lookup .executionTimestamp = some (.time ts.instant)
  cols : ∀ c ∉ finalizedCols, update.lookup c = none
  texts : ∀ c x, update.lookup c = some x → x.isText = true → x = r.values .close

theorem truncate_whole {x : PyFloat} {n : Nat} (h : x.IsWhole n) : truncate x = .ok (n : Int) := by
  obtain ⟨m, e, hc, rfl, hr⟩ := h
  have hdiv : (PyFloat.toRatio m e).1 / (PyFloat.toRatio m e).2 = n := by
    rw [hr, Nat.mul_div_cancel _ (PyFloat.den_pos m e)]
  simp only [truncate, hdiv, Bool.false_eq_true, if_false]

/-- **A whole price that is kept is kept as it is.** -/
theorem decisionKeep_whole {n : Nat} (h : (rd.cell pd r .decisionClose).IsWhole n) (hn : 0 < n) :
    decisionKeep rd pd r = .ok (.int n) := by
  have hpos : PyFloat.lt Reading.zero (rd.cell pd r .decisionClose) = true :=
    (PyFloat.IsWhole.lt_iff (PyFloat.isWhole_ofInt (by decide : 0 < 2 ^ 53)) h).2 hn
  rw [decisionKeep, if_pos hpos, truncate_whole h]
  rfl

theorem isText_of_decisionKeep {x : Cell PyFloat} (h : decisionKeep rd pd r = .ok x) (hx : x.isText = true) :
    x = r.values .close := by
  unfold decisionKeep at h
  split_ifs at h
  · obtain ⟨i, -, rfl⟩ := (Exc.map_eq_ok _ _ _).1 h
    cases hx
  · exact (Except.ok.inj h).symm

/-- **A quote that is stored is consistent**, and its row keeps the close of the decision. -/
theorem stores_of_build (h : buildFinalizedRow rd pd r priceOutput ts = .ok update) : Stores rd pd r priceOutput ts update := by
  simp only [buildFinalizedRow, Exc.bind_eq_ok, Exc.raiseIf_eq_ok, Exc.pure_eq_ok, not_or, not_le, not_lt,
    Bool.not_eq_true] at h
  obtain ⟨close, hclose, prev, hprev, openPrice, -, highPrice, -, lowPrice, -, vol, hvol, decisionVol, hdecision, -,
    ⟨hpos, hprevPos, hle⟩, -, hrate, keep, hkeep, rfl⟩ := h
  refine ⟨⟨close, prev, vol, decisionVol, hclose, hprev, hvol, hdecision, hpos, hprevPos, hle, hrate⟩,
    ⟨keep, hkeep, rfl⟩, rfl, rfl, fun c hc => ?_, fun c x hx htext => ?_⟩
  · cases c <;> first | exact absurd (by decide) hc | (split_ifs <;> rfl)
  · obtain ⟨before, after, heq, -⟩ := List.lookup_eq_some_iff.1 hx
    have hmem : (c, x) ∈ before ++ (c, x) :: after := List.mem_append_right _ List.mem_cons_self
    rw [← heq] at hmem
    rcases List.mem_append.1 hmem with hmem | hmem
    · simp only [List.mem_cons, Prod.mk.injEq, List.not_mem_nil, or_false] at hmem
      rcases hmem with h | h | h | h | h | h | h | h | h | h | h <;> rw [h.2] at htext ⊢ <;> first | cases htext | skip
      exact isText_of_decisionKeep hkeep htext
    · split_ifs at hmem
      · rw [(Prod.mk.inj (List.mem_singleton.1 hmem)).2] at htext
        cases htext
      · cases hmem

end Archive
