import KClosingAlpha.Order.Contract
import Mathlib.Data.List.DropRight
/-!
# Trading — what the trading client makes of the answer to a POST (`trading.py`, `classify_order_response`)

Three notions of an order number meet here.  The classifier takes one that is not blank, the client stores it without
its leading zeros, and the loops of the gateway take the zeros off once more.
-/
namespace Order

open Py (Value)

/-! ## The answer to a POST -/

/-- A decoded JSON value. -/
inductive Body where
  | value (v : Value)
  | list (xs : List Body)
  | dict (kvs : List (String × Body))

namespace Body

/-- `body.get(key)` of a dictionary. -/
def get? : Body → String → Option Body
  | dict kvs, key => kvs.lookup key
  | _, _ => none

/-- The value, when it is a string. -/
def asStr : Body → Option String
  | value (.str s) => some s
  | _ => none

def isDict : Body → Bool
  | dict _ => true
  | _ => false

def isNone : Body → Bool
  | value .none => true
  | _ => false

/-- `output.get("ODNO")` of a body whose output is a dictionary, when it is a string. -/
def odno (b : Body) : Option String := ((b.get? "output").bind (·.get? "ODNO")).bind asStr

end Body

/-- What came of a POST: an answer, decoded or not; no connection; a connection that was lost. -/
inductive Reply where
  | answered (status : Int) (body : Option Body)
  | unreachable
  | lost (status : Option Int)

/-- The order number of an answer. -/
def Reply.odno : Reply → Option String
  | .answered _ (some b) => b.odno
  | _ => none

/-- `AUTH_REJECTION_CODES["kis"]`. -/
def authRejectionCodes : List String := ["EGW00121", "EGW00123"]

/-- The client's view of text: `redact_secrets` with its secrets, and `str` of a list or a dictionary. -/
structure KisTradingClient where
  redact : String → String
  repr : Body → String

namespace KisTradingClient

variable (k : KisTradingClient)

/-- `str(value)`. -/
def str : Body → String
  | .value v => v.toStr
  | b => k.repr b

/-- `str(body.get(key, ""))`. -/
def text (b : Body) (key : String) : String := (b.get? key).elim "" k.str

/-- The verdict on a decoded answer. -/
def classifyOrderResponse (httpStatus : Int) (b : Body) : SubmitVerdict :=
  if b.isDict = false then .ambiguous
  else
    let msgCd := k.text b "msg_cd"
    if msgCd = "EGW00201" then .throttled
    else if authRejectionCodes.contains msgCd then .authRejected
    else if msgCd = "EGW02006" then .rejected
    else
      let rtCd := (b.get? "rt_cd").bind Body.asStr
      if rtCd = some "0" then (if b.odno.any (fun no => !Py.isBlank no) then .accepted else .ambiguous)
      else if httpStatus = 200 ∧ rtCd.any (· ≠ "") = true then .rejected
      else .ambiguous

/-- `x or None`. -/
def orNone (s : String) : Option String := if s = "" then none else some s

/-- The result of a POST that was not answered with a decoded body. -/
def unanswered (verdict : SubmitVerdict) (status : Option Int) (latencyMs : Py.PyFloat) : SubmitResult :=
  { verdict, brokerOrderNo := none, brokerOrgNo := none, httpStatus := status, msgCd := "", msg := "", latencyMs }

/-- `_send_order`: one POST and its classification.  The token refresh after a rejected token changes nothing here. -/
def sendOrder (latencyMs : Py.PyFloat) : Reply → SubmitResult
  | .unreachable => unanswered .notSent none latencyMs
  | .lost status => unanswered .ambiguous status latencyMs
  | .answered status none => unanswered .ambiguous (some status) latencyMs
  | .answered status (some b) =>
    let verdict := k.classifyOrderResponse status b
    let output := (b.get? "output").filter Body.isDict
    let accepted : Bool := decide (verdict = .accepted)
    { verdict
      brokerOrderNo := if accepted then b.odno.bind (fun no => orNone (normalizeOrderNo no)) else none
      brokerOrgNo := if accepted then
          (output.bind (·.get? "KRX_FWDG_ORD_ORGNO")).bind (fun raw =>
            if raw.isNone then none else orNone (Py.strip (k.str raw)))
        else none
      httpStatus := some status, msgCd := k.redact (k.text b "msg_cd"), msg := k.redact (k.text b "msg1"), latencyMs }

variable {k} {latencyMs : Py.PyFloat}

theorem classify_accepted {status : Int} {b : Body} (h : k.classifyOrderResponse status b = .accepted) :
    ∃ no, b.odno = some no ∧ Py.isBlank no = false := by
  unfold classifyOrderResponse at h
  dsimp only at h
  split_ifs at h with _ _ _ _ _ hno
  rw [Option.any_eq_true] at hno
  obtain ⟨no, hno, hb⟩ := hno
  exact ⟨no, hno, by simpa using hb⟩

end KisTradingClient

/-! ## Numbers that are not blank and have nothing left -/

/-- Zeros, white space and zeros again, each possibly empty, inside white space. -/
def zerosOnly (orderNo : String) : Bool :=
  (((Py.stripChars orderNo.toList).dropWhile (· == '0')).dropWhile Py.isSpace).all (· == '0')

theorem stripChars_suffix {cs t : List Char} (h : t <:+ Py.stripChars cs) : t.rdropWhile Py.isSpace = t := by
  rw [List.rdropWhile_eq_self_iff]
  intro hne
  have hcs : Py.stripChars cs ≠ [] := fun hnil => hne (List.suffix_nil.1 (hnil ▸ h))
  rw [h.getLast hne]
  exact List.rdropWhile_last_not Py.isSpace _ hcs

/-- **A stored number keeps something when the zeros are taken off once more**, unless it was zeros only. -/
theorem normalize_normalize {s : String} : normalizeOrderNo (normalizeOrderNo s) = "" ↔ zerosOnly s = true := by
  have hsuffix : ((Py.stripChars s.toList).dropWhile (· == '0')).dropWhile Py.isSpace <:+ Py.stripChars s.toList :=
    (List.dropWhile_suffix _).trans (List.dropWhile_suffix _)
  have hstrip : Py.stripChars ((Py.stripChars s.toList).dropWhile (· == '0')) =
      ((Py.stripChars s.toList).dropWhile (· == '0')).dropWhile Py.isSpace := stripChars_suffix hsuffix
  have hempty : ∀ cs : List Char, String.ofList cs = "" ↔ cs = [] := fun cs => by
    rw [← String.toList_inj, String.toList_ofList]
    rfl
  unfold normalizeOrderNo zerosOnly
  rw [String.toList_ofList, hempty, hstrip, List.dropWhile_eq_nil_iff, List.all_eq_true]

theorem zerosOnly_of_empty {s : String} (h : normalizeOrderNo s = "") : zerosOnly s = true := by
  rw [← normalize_normalize, h]
  rfl

end Order
