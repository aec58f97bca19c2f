import KClosingAlpha.Order.Journal
import Mathlib.Data.List.Induction
/-!
# View — `derive_intent_state` as a machine that reads one event at a time

`deriveIntentState` scans an intent's events a dozen times and compares sequence numbers.  On events in increasing
order it is the state of a machine, `View`, that pushes one event at a time (`deriveIntentState_eq`), and one more event
is readable exactly when the machine admits it (`deriveIntentState_snoc`).  Everything above this module reasons about
`View.push`.
-/
namespace Order

open Py (Value Dict)
open Exc (raiseIf)

/-- Events in file order. -/
abbrev Increasing (l : List JournalEvent) : Prop := l.Pairwise (fun a b => a.seq < b.seq)

theorem increasingSeq_iff : ∀ (l : List JournalEvent), increasingSeq l = true ↔ Increasing l
  | [] => by simp [increasingSeq]
  | [a] => by simp [increasingSeq]
  | a :: b :: t => by
    have ih := increasingSeq_iff (b :: t)
    simp only [increasingSeq, Bool.and_eq_true, decide_eq_true_eq, ih, List.pairwise_cons]
    constructor
    · rintro ⟨hab, hb, ht⟩
      refine ⟨fun x hx => ?_, hb, ht⟩
      rcases List.mem_cons.1 hx with rfl | hx
      · exact hab
      · exact Nat.lt_trans hab (hb x hx)
    · rintro ⟨ha, hb, ht⟩
      exact ⟨ha b List.mem_cons_self, hb, ht⟩

theorem sortBySeq_of_increasing {l : List JournalEvent} (h : Increasing l) : sortBySeq l = l :=
  List.Pairwise.insertionSort_eq (h.imp Nat.le_of_lt)

theorem Increasing.snoc {l : List JournalEvent} {e : JournalEvent} (h : Increasing (l ++ [e])) :
    Increasing l ∧ ∀ x ∈ l, x.seq < e.seq := by
  rw [Increasing, List.pairwise_append] at h
  exact ⟨h.1, fun x hx => h.2.2 x hx e (List.mem_singleton.2 rfl)⟩

theorem Increasing.take {l : List JournalEvent} (h : Increasing l) (n : Nat) : Increasing (l.take n) :=
  h.sublist (List.take_sublist n l)

/-! ## The machine -/

/-- What the fold keeps of the events so far.  `result`, `conflict` and `notFound` are about the last send alone. -/
structure View where
  intent : Option OrderIntent
  sends : Nat
  numbers : Option String × Option String
  fills : Option Fills
  finalPayload : Option Payload
  bound : Bool
  rejected : Bool
  notFound : Bool
  operatorNotFound : Bool
  result : Option Payload
  conflict : Bool
  skipped : Bool
  reason : String
  baseline : Option (List String)

/-- An event that binds the intent to a broker order. -/
def binds (e : JournalEvent) : Bool := isVerdict .accepted e || isAdoption e

namespace View

def start : View :=
  { intent := none, sends := 0, numbers := (none, none), fills := none, finalPayload := none, bound := false,
    rejected := false, notFound := false, operatorNotFound := false, result := none, conflict := false, skipped := false,
    reason := "", baseline := none }

/-- One more event. -/
def push (v : View) (e : JournalEvent) : View :=
  { intent := if e.kind = .intent then (intentFromPayload e.intentId e.payload).toOption else v.intent
    sends := if e.kind = .send then v.sends + 1 else v.sends
    numbers := if binds e then (numberOf e.payload "broker_order_no", numberOf e.payload "broker_org_no") else v.numbers
    fills := if e.kind = .brokerState then (checkFills v.intent v.fills e.payload).toOption else v.fills
    finalPayload := if isFinalState e then some e.payload else v.finalPayload
    bound := v.bound || binds e
    rejected := v.rejected || isVerdict .rejected e
    notFound := if e.kind = .send then false else if e.kind = .notFound then decide (0 < v.sends) else v.notFound
    operatorNotFound := v.operatorNotFound || isOperatorNotFound e
    result := if e.kind = .send then none else if e.kind = .result then some e.payload else v.result
    conflict := if e.kind = .send then false else v.conflict || e.kind == .resolveConflict
    skipped := v.skipped || e.kind == .skip
    reason := if e.kind = .skip then skipReason e.payload else v.reason
    baseline := if e.kind = .send ∧ v.baseline = none then (payloadBaseline e.payload).toOption.getD none else v.baseline }

/-- The last verdict since the last send. -/
def verdict (v : View) : Option SubmitVerdict := v.result.bind verdictOf

/-- The status while no final BROKER_STATE has closed the intent. -/
def openStatus (v : View) : IntentStatus × Bool :=
  if v.bound then (.acked, false)
  else if v.rejected then (.rejected, true)
  else if v.notFound then (.notFound, false)
  else if v.operatorNotFound then (.notFound, false)
  else if 0 < v.sends ∧ (v.result = none ∨ v.conflict = true) then (.unknown, false)
  else if v.verdict = some .ambiguous then (.unknown, false)
  else if v.verdict.any SubmitVerdict.retryable then (.notSent, false)
  else if v.skipped then (.skipped, true)
  else (.recorded, false)

def status (v : View) : IntentStatus × Bool :=
  match v.finalPayload with
  | some p => (finalStatus v.intent p, true)
  | none => v.openStatus

/-- The state a view stands for. -/
def state (v : View) : IntentState :=
  { intent := v.intent, status := v.status.1, nSends := v.sends, brokerOrderNo := v.numbers.1,
    brokerOrgNo := v.numbers.2, filledQty := v.fills.elim 0 (·.filledQty),
    filledAmountKrw := v.fills.elim 0 (·.filledAmountKrw), remainingQty := v.fills.elim 0 (·.remainingQty),
    final := v.status.2, reason := v.reason, baselineOrderNos := v.baseline }

/-- The events the fold can read next.  An INTENT is read first or not at all. -/
def Admits (v : View) (e : JournalEvent) : Prop :=
  match e.kind with
  | .intent => False
  | .send => ∃ b, payloadBaseline e.payload = .ok b
  | .result => (verdictOf e.payload).isSome = true
  | .operatorResolve =>
    validateOperatorPayload e.payload = .ok () ∧ (v.status.1 = .unknown ∨ v.status.1 = .notFound)
  | .brokerState => ∃ f, checkFills v.intent v.fills e.payload = .ok f
  | _ => True

end View

/-- The view of a list of events. -/
def viewOf (events : List JournalEvent) : View := events.foldl View.push View.start

@[simp] theorem viewOf_nil : viewOf [] = View.start := rfl

@[simp] theorem viewOf_snoc (l : List JournalEvent) (e : JournalEvent) : viewOf (l ++ [e]) = (viewOf l).push e := by
  simp [viewOf, List.foldl_append]

/-! ## Scans, one event at a time -/

@[simp] theorem ofKind_snoc (k : JournalEventKind) (l : List JournalEvent) (e : JournalEvent) :
    ofKind k (l ++ [e]) = if e.kind = k then ofKind k l ++ [e] else ofKind k l := by
  unfold ofKind
  rw [List.filter_append]
  by_cases h : e.kind = k <;> simp [h]

theorem mem_ofKind {k : JournalEventKind} {l : List JournalEvent} {x : JournalEvent} :
    x ∈ ofKind k l ↔ x ∈ l ∧ x.kind = k := by
  simp [ofKind, List.mem_filter]

@[simp] theorem maxSeq_nil : maxSeq [] = 0 := rfl

@[simp] theorem maxSeq_snoc (l : List JournalEvent) (e : JournalEvent) : maxSeq (l ++ [e]) = max (maxSeq l) e.seq := by
  simp [maxSeq, List.foldl_append]

theorem maxSeq_lt {l : List JournalEvent} {n : Nat} (hn : 0 < n) (h : ∀ x ∈ l, x.seq < n) : maxSeq l < n := by
  induction l using List.reverseRecOn with
  | nil => exact hn
  | append_singleton l e ih =>
    rw [maxSeq_snoc, Nat.max_lt]
    exact ⟨ih (fun x hx => h x (List.mem_append_left _ hx)), h e (by simp)⟩

/-- The events after the last send; all of them when there is none. -/
def sinceSend (events : List JournalEvent) : List JournalEvent :=
  events.foldl (fun acc e => if e.kind = .send then [] else acc ++ [e]) []

@[simp] theorem sinceSend_nil : sinceSend [] = [] := rfl

@[simp] theorem sinceSend_snoc (l : List JournalEvent) (e : JournalEvent) :
    sinceSend (l ++ [e]) = if e.kind = .send then [] else sinceSend l ++ [e] := by
  simp [sinceSend, List.foldl_append]

theorem sinceSend_of_no_send {l : List JournalEvent} (h : ofKind .send l = []) : sinceSend l = l := by
  induction l using List.reverseRecOn with
  | nil => rfl
  | append_singleton l e ih =>
    rw [ofKind_snoc] at h
    by_cases he : e.kind = .send
    · simp [he] at h
    · rw [sinceSend_snoc, if_neg he, ih (by simpa [he] using h)]

/-- **Later than the last send, by sequence number, is after it, by position.** -/
theorem filter_later_eq (k : JournalEventKind) (hk : k ≠ .send) {l : List JournalEvent} (hl : Increasing l)
    (hs : ofKind .send l ≠ []) :
    (ofKind k l).filter (fun e => decide (maxSeq (ofKind .send l) < e.seq)) = ofKind k (sinceSend l) := by
  induction l using List.reverseRecOn with
  | nil => exact absurd rfl hs
  | append_singleton l e ih =>
    obtain ⟨hl', hlt⟩ := hl.snoc
    by_cases he : e.kind = .send
    · have hke : e.kind ≠ k := fun h => hk (h.symm.trans he)
      rw [ofKind_snoc k, if_neg hke, ofKind_snoc .send, if_pos he, sinceSend_snoc, if_pos he]
      refine List.filter_eq_nil_iff.2 (fun x hx => ?_)
      have := hlt x (mem_ofKind.1 hx).1
      simp only [maxSeq_snoc, decide_eq_true_eq, Nat.not_lt]
      omega
    · have hs' : ofKind .send l ≠ [] := by rwa [ofKind_snoc, if_neg he] at hs
      have ihl := ih hl' hs'
      rw [ofKind_snoc .send, if_neg he, sinceSend_snoc, if_neg he, ofKind_snoc k, ofKind_snoc k]
      by_cases hke : e.kind = k
      · have hmax : maxSeq (ofKind .send l) < e.seq := by
          obtain ⟨s, hs⟩ := List.exists_mem_of_ne_nil _ hs'
          have := hlt s (mem_ofKind.1 hs).1
          exact maxSeq_lt (by omega) (fun x hx => hlt x (mem_ofKind.1 hx).1)
        rw [if_pos hke, if_pos hke, List.filter_append, ihl]
        simp [hmax]
      · rw [if_neg hke, if_neg hke, ihl]

/-- The latest event of a kind is later than the last send exactly when one comes after it. -/
theorem maxSeq_lt_iff (k : JournalEventKind) (hk : k ≠ .send) {l : List JournalEvent} (hl : Increasing l)
    (hs : ofKind .send l ≠ []) :
    maxSeq (ofKind .send l) < maxSeq (ofKind k l) ↔ ofKind k (sinceSend l) ≠ [] := by
  induction l using List.reverseRecOn with
  | nil => exact absurd rfl hs
  | append_singleton l e ih =>
    obtain ⟨hl', hlt⟩ := hl.snoc
    by_cases he : e.kind = .send
    · have hke : e.kind ≠ k := fun h => hk (h.symm.trans he)
      have hle : ∀ x ∈ ofKind k l, x.seq < e.seq := fun x hx => hlt x (mem_ofKind.1 hx).1
      rw [ofKind_snoc .send, if_pos he, ofKind_snoc k, if_neg hke, sinceSend_snoc, if_pos he, maxSeq_snoc]
      simp only [ofKind, List.filter_nil, ne_eq, not_true_eq_false, iff_false, Nat.not_lt]
      rcases Nat.eq_zero_or_pos e.seq with h0 | h0
      · have : ofKind k l = [] := List.eq_nil_iff_forall_not_mem.2 (fun x hx => by have := hle x hx; omega)
        unfold ofKind at this
        rw [this]
        exact Nat.zero_le _
      · exact Nat.le_trans (Nat.le_of_lt (maxSeq_lt h0 hle)) (Nat.le_max_right _ _)
    · have hs' : ofKind .send l ≠ [] := by rwa [ofKind_snoc, if_neg he] at hs
      have ihl := ih hl' hs'
      rw [ofKind_snoc .send, if_neg he, sinceSend_snoc, if_neg he, ofKind_snoc k, ofKind_snoc k]
      by_cases hke : e.kind = k
      · have hmax : maxSeq (ofKind .send l) < e.seq := by
          obtain ⟨s, hs⟩ := List.exists_mem_of_ne_nil _ hs'
          have := hlt s (mem_ofKind.1 hs).1
          exact maxSeq_lt (by omega) (fun x hx => hlt x (mem_ofKind.1 hx).1)
        simp only [hke, if_true, maxSeq_snoc, ne_eq, List.append_eq_nil_iff, List.cons_ne_self, and_false,
          not_false_eq_true, iff_true]
        omega
      · simpa only [hke, if_false] using ihl

/-! ## What each scan of the fold is on the view -/

theorem viewOf_sends (l : List JournalEvent) : (viewOf l).sends = (ofKind .send l).length := by
  induction l using List.reverseRecOn with
  | nil => rfl
  | append_singleton l e ih =>
    rw [viewOf_snoc, ofKind_snoc]
    by_cases he : e.kind = .send <;> simp [View.push, he, ih]

theorem viewOf_result (l : List JournalEvent) :
    (viewOf l).result = (ofKind .result (sinceSend l)).getLast?.map (·.payload) := by
  induction l using List.reverseRecOn with
  | nil => rfl
  | append_singleton l e ih =>
    rw [viewOf_snoc, sinceSend_snoc]
    by_cases he : e.kind = .send
    · simp [View.push, he, ofKind]
    · by_cases hr : e.kind = .result <;> simp [View.push, hr, he, ih]

theorem viewOf_conflict (l : List JournalEvent) :
    (viewOf l).conflict = !(ofKind .resolveConflict (sinceSend l)).isEmpty := by
  induction l using List.reverseRecOn with
  | nil => rfl
  | append_singleton l e ih =>
    rw [viewOf_snoc, sinceSend_snoc]
    by_cases he : e.kind = .send
    · simp [View.push, he, ofKind]
    · by_cases hr : e.kind = .resolveConflict <;> simp [View.push, hr, he, ih]

theorem viewOf_notFound (l : List JournalEvent) :
    (viewOf l).notFound = (decide (0 < (viewOf l).sends) && !(ofKind .notFound (sinceSend l)).isEmpty) := by
  induction l using List.reverseRecOn with
  | nil => rfl
  | append_singleton l e ih =>
    rw [viewOf_snoc, sinceSend_snoc]
    by_cases he : e.kind = .send
    · simp [View.push, he, ofKind]
    · by_cases hr : e.kind = .notFound
      · simp [View.push, hr]
      · simp [View.push, hr, he, ih]

theorem viewOf_bound (l : List JournalEvent) :
    (viewOf l).bound = (l.any (isVerdict .accepted) || l.any isAdoption) := by
  induction l using List.reverseRecOn with
  | nil => rfl
  | append_singleton l e ih =>
    rw [viewOf_snoc]
    simp only [View.push, ih, binds, List.any_append, List.any_cons, List.any_nil, Bool.or_false]
    cases l.any (isVerdict .accepted) <;> cases l.any isAdoption <;> simp

theorem viewOf_rejected (l : List JournalEvent) : (viewOf l).rejected = l.any (isVerdict .rejected) := by
  induction l using List.reverseRecOn with
  | nil => rfl
  | append_singleton l e ih => simp [View.push, ih, List.any_append]

theorem viewOf_operatorNotFound (l : List JournalEvent) : (viewOf l).operatorNotFound = l.any isOperatorNotFound := by
  induction l using List.reverseRecOn with
  | nil => rfl
  | append_singleton l e ih => simp [View.push, ih, List.any_append]

theorem viewOf_skipped (l : List JournalEvent) : (viewOf l).skipped = l.any (·.kind == .skip) := by
  induction l using List.reverseRecOn with
  | nil => rfl
  | append_singleton l e ih => simp [View.push, ih, List.any_append]

theorem viewOf_reason (l : List JournalEvent) : (viewOf l).reason = foldReason l := by
  induction l using List.reverseRecOn with
  | nil => rfl
  | append_singleton l e ih => simp [View.push, ih, foldReason, List.foldl_append]

theorem viewOf_finalPayload (l : List JournalEvent) :
    (viewOf l).finalPayload = (l.filter isFinalState).getLast?.map (·.payload) := by
  induction l using List.reverseRecOn with
  | nil => rfl
  | append_singleton l e ih =>
    rw [viewOf_snoc, List.filter_append]
    by_cases he : isFinalState e = true <;> simp [View.push, he, ih]

theorem viewOf_intent {l : List JournalEvent} {i : Option OrderIntent} (h : foldIntent l = .ok i) :
    (viewOf l).intent = i := by
  induction l using List.reverseRecOn generalizing i with
  | nil => simpa [foldIntent, View.start] using h
  | append_singleton l e ih =>
    rw [foldIntent, Exc.foldlM_snoc, Exc.bind_eq_ok] at h
    obtain ⟨i', hi', h⟩ := h
    rw [viewOf_snoc]
    by_cases he : e.kind = .intent
    · rw [if_pos he, Exc.map_eq_ok] at h
      obtain ⟨a, ha, rfl⟩ := h
      simp [View.push, he, ha, Except.toOption]
    · rw [if_neg he, Exc.pure_eq_ok] at h
      simp [View.push, he, ih hi', h]

theorem viewOf_baseline {l : List JournalEvent} {b : Option (List String)} (h : foldBaseline l = .ok b) :
    (viewOf l).baseline = b := by
  induction l using List.reverseRecOn generalizing b with
  | nil => simpa [foldBaseline, View.start] using h
  | append_singleton l e ih =>
    rw [foldBaseline, Exc.foldlM_snoc, Exc.bind_eq_ok] at h
    obtain ⟨b', hb', h⟩ := h
    rw [viewOf_snoc]
    by_cases he : e.kind = .send
    · rw [if_pos he, Exc.bind_eq_ok] at h
      obtain ⟨p, hp, h⟩ := h
      rw [Exc.pure_eq_ok] at h
      have ihb := ih hb'
      cases b' <;> simp [View.push, he, hp, ihb, Except.toOption] <;> simpa using h
    · rw [if_neg he, Exc.pure_eq_ok] at h
      simp [View.push, he, ih hb', h]

theorem viewOf_numbers {l : List JournalEvent} {n : Option String × Option String} (h : foldNumbers l = .ok n) :
    (viewOf l).numbers = n := by
  induction l using List.reverseRecOn generalizing n with
  | nil => simpa [foldNumbers, View.start] using h
  | append_singleton l e ih =>
    rw [foldNumbers, Exc.foldlM_snoc, Exc.bind_eq_ok] at h
    obtain ⟨n', hn', h⟩ := h
    have ihn := ih hn'
    rw [viewOf_snoc]
    by_cases he : e.kind = .result
    · have ha : isAdoption e = false := by simp [isAdoption, he]
      rw [if_pos he] at h
      cases hv : verdictOf e.payload with
      | none => simp [hv] at h
      | some v => cases v <;> simp_all [View.push, binds, isVerdict]
    · have hv : isVerdict .accepted e = false := by simp [isVerdict, he]
      rw [if_neg he] at h
      by_cases ha : isAdoption e = true <;> simp_all [View.push, binds]

theorem checkFills_none {i : Option OrderIntent} {prev : Option Fills} {p : Payload} {f : Fills}
    (h : checkFills i prev p = .ok f) : checkFills none prev p = .ok f := by
  simp only [checkFills, Exc.bind_eq_ok, Exc.raiseIf_eq_ok, Exc.pure_eq_ok] at h ⊢
  obtain ⟨fq, h1, fa, h2, rq, h3, oq, h4, _, _, _, _, _, h5, _, h6, h7⟩ := h
  exact ⟨fq, h1, fa, h2, rq, h3, oq, h4, (), by simp, (), by simp, (), h5, (), h6, h7⟩

theorem foldFills_none {i : Option OrderIntent} {l : List JournalEvent} {f : Option Fills} (h : foldFills i l = .ok f) :
    foldFills none l = .ok f := by
  induction l using List.reverseRecOn generalizing f with
  | nil => exact h
  | append_singleton l e ih =>
    rw [foldFills, Exc.foldlM_snoc, Exc.bind_eq_ok] at h ⊢
    obtain ⟨f', hf', h⟩ := h
    refine ⟨f', ih hf', ?_⟩
    by_cases he : e.kind = .brokerState
    · rw [if_pos he, Exc.map_eq_ok] at h ⊢
      obtain ⟨g, hg, rfl⟩ := h
      exact ⟨g, checkFills_none hg, rfl⟩
    · rwa [if_neg he] at h ⊢

theorem viewOf_intent_none {l : List JournalEvent} (h : ofKind .intent l = []) : (viewOf l).intent = none := by
  refine viewOf_intent ?_
  induction l using List.reverseRecOn with
  | nil => rfl
  | append_singleton l e ih =>
    rw [ofKind_snoc] at h
    by_cases he : e.kind = .intent
    · simp [he] at h
    · rw [foldIntent, Exc.foldlM_snoc, Exc.bind_eq_ok]
      exact ⟨none, ih (by simpa [he] using h), by simp [he]⟩

/-- The fills of the view are those of the fold, which reads every BROKER_STATE against the one intent. -/
theorem viewOf_fills {l : List JournalEvent} {f : Option Fills} (hc : (ofKind .intent l).length ≤ 1)
    (h : foldFills (viewOf l).intent l = .ok f) : (viewOf l).fills = f := by
  induction l using List.reverseRecOn generalizing f with
  | nil => simpa [foldFills, View.start] using h
  | append_singleton l e ih =>
    have h0 := h
    rw [foldFills, Exc.foldlM_snoc, Exc.bind_eq_ok] at h
    obtain ⟨f', hf', h⟩ := h
    rw [viewOf_snoc] at hf' h ⊢
    rw [ofKind_snoc] at hc
    by_cases hi : e.kind = .intent
    · have hl : ofKind .intent l = [] := by simpa [hi] using hc
      have hf0 : foldFills (viewOf l).intent l = .ok f' := by
        rw [viewOf_intent_none hl]
        exact foldFills_none hf'
      rw [hi, if_neg (by decide), Exc.pure_eq_ok] at h
      rw [← h, ← ih (by simp [hl]) hf0]
      simp [View.push, hi]
    · rw [if_neg hi] at hc
      have hin : ((viewOf l).push e).intent = (viewOf l).intent := by simp [View.push, hi]
      rw [hin] at hf' h
      have ihf := ih hc hf'
      by_cases he : e.kind = .brokerState
      · rw [if_pos he, Exc.map_eq_ok] at h
        obtain ⟨g, hg, rfl⟩ := h
        simp [View.push, he, ihf, hg, Except.toOption]
      · rw [if_neg he, Exc.pure_eq_ok] at h
        simp [View.push, he, ihf, h]

/-- A verdict the fold meets after its first branches: neither of the two that end an intent. -/
theorem verdict_cases {l : List JournalEvent} (ha : l.any (isVerdict .accepted) = false)
    (hr : l.any (isVerdict .rejected) = false) {r : JournalEvent} (hm : r ∈ l) (hk : r.kind = .result) :
    verdictOf r.payload ≠ some .accepted ∧ verdictOf r.payload ≠ some .rejected := by
  rw [List.any_eq_false] at ha hr
  have h1 := ha r hm
  have h2 := hr r hm
  simp only [isVerdict, hk, beq_self_eq_true, Bool.true_and, beq_iff_eq] at h1 h2
  exact ⟨h1, h2⟩

theorem sinceSend_sublist (l : List JournalEvent) : (sinceSend l).Sublist l := by
  induction l using List.reverseRecOn with
  | nil => exact .slnil
  | append_singleton l e ih =>
    rw [sinceSend_snoc]
    by_cases he : e.kind = .send
    · rw [if_pos he]; exact List.nil_sublist _
    · rw [if_neg he]; exact ih.append (List.Sublist.refl _)

/-- **The status of the scans is the status of the machine.** -/
theorem openStatus_eq {l : List JournalEvent} (hl : Increasing l)
    (hres : ∀ r ∈ l, r.kind = .result → (verdictOf r.payload).isSome = true) :
    openStatus l = (viewOf l).openStatus := by
  unfold openStatus View.openStatus View.verdict
  simp only
  rw [viewOf_bound, viewOf_rejected, viewOf_notFound, viewOf_operatorNotFound, viewOf_conflict, viewOf_skipped,
    viewOf_result, viewOf_sends]
  cases ha : l.any (isVerdict .accepted) with
  | true => simp
  | false =>
  cases had : l.any isAdoption with
  | true => simp
  | false =>
  cases hrj : l.any (isVerdict .rejected) with
  | true => simp
  | false =>
  by_cases hs : ofKind .send l = []
  · rw [hs, sinceSend_of_no_send hs]
    rcases (ofKind .result l).eq_nil_or_concat with hr | ⟨t, r, hr⟩
    · simp [hr]
    · obtain ⟨hm, hk⟩ := mem_ofKind.1 (show r ∈ ofKind .result l by simp [hr])
      obtain ⟨h1, h2⟩ := verdict_cases ha hrj hm hk
      have hsome := hres r hm hk
      cases hv : verdictOf r.payload with
      | none => simp [hv] at hsome
      | some v => cases v <;> simp_all [SubmitVerdict.retryable]
  · have hs' : (ofKind .send l).isEmpty = false := by simpa using hs
    have hlen : 0 < (ofKind .send l).length := List.length_pos_iff.2 hs
    have hnf : (!(ofKind .notFound l).isEmpty && decide (maxSeq (ofKind .send l) < maxSeq (ofKind .notFound l))) =
        !(ofKind .notFound (sinceSend l)).isEmpty := by
      have hiff := maxSeq_lt_iff .notFound (by decide) hl hs
      rw [Bool.eq_iff_iff, Bool.and_eq_true, decide_eq_true_eq, hiff]
      simp only [Bool.not_eq_true', List.isEmpty_eq_false_iff]
      refine ⟨And.right, fun h => ⟨?_, h⟩⟩
      exact fun h0 => h (List.eq_nil_of_sublist_nil (h0 ▸ (sinceSend_sublist l).filter _))
    rw [filter_later_eq .result (by decide) hl hs, filter_later_eq .resolveConflict (by decide) hl hs]
    simp only [hs', hlen, Bool.not_false, Bool.true_and, decide_true, true_and, hnf]
    rcases (ofKind .result (sinceSend l)).eq_nil_or_concat with hr | ⟨t, r, hr⟩
    · simp [hr]
    · obtain ⟨hm, hk⟩ := mem_ofKind.1 (show r ∈ ofKind .result (sinceSend l) by simp [hr])
      obtain ⟨h1, h2⟩ := verdict_cases ha hrj ((sinceSend_sublist l).subset hm) hk
      have hsome := hres r ((sinceSend_sublist l).subset hm) hk
      cases hv : verdictOf r.payload with
      | none => simp [hv] at hsome
      | some v => cases v <;> simp_all [SubmitVerdict.retryable]

/-! ## One event at a time -/

theorem finalStatus_view (l : List JournalEvent) : closedStatus (viewOf l).intent l = match (viewOf l).finalPayload with
    | some p => (finalStatus (viewOf l).intent p, true)
    | none => openStatus l := by
  unfold closedStatus
  rw [viewOf_finalPayload]
  cases (l.filter isFinalState).getLast? <;> rfl

theorem foldNumbers_results {l : List JournalEvent} {n : Option String × Option String} (h : foldNumbers l = .ok n) :
    ∀ r ∈ l, r.kind = .result → (verdictOf r.payload).isSome = true := by
  induction l using List.reverseRecOn generalizing n with
  | nil => simp
  | append_singleton l e ih =>
    rw [foldNumbers, Exc.foldlM_snoc, Exc.bind_eq_ok] at h
    obtain ⟨n', hn', h⟩ := h
    intro r hr hk
    rcases List.mem_append.1 hr with hr | hr
    · exact ih hn' r hr hk
    · obtain rfl := List.mem_singleton.1 hr
      rw [if_pos hk] at h
      cases hv : verdictOf r.payload with
      | none => simp [hv] at h
      | some v => rfl

/-- The checks of the fold other than those of its operator events. -/
structure Readable (l : List JournalEvent) : Prop where
  increasing : Increasing l
  oneIntent : (ofKind .intent l).length ≤ 1
  intentOk : foldIntent l = .ok (viewOf l).intent
  baselineOk : foldBaseline l = .ok (viewOf l).baseline
  numbersOk : foldNumbers l = .ok (viewOf l).numbers
  fillsOk : foldFills (viewOf l).intent l = .ok (viewOf l).fills

/-- **The fold of events in order: when it succeeds, and that its value is the view's state.** -/
theorem deriveWith_eq {prior : List JournalEvent → Except OrderError IntentState} {l : List JournalEvent}
    (hl : Increasing l) (s : IntentState) : deriveWith prior l = .ok s ↔
      l ≠ [] ∧ Readable l ∧ checkOperators prior [] l = .ok () ∧ s = (viewOf l).state := by
  have hinc := (increasingSeq_iff l).2 hl
  unfold deriveWith
  simp only [sortBySeq_of_increasing hl, hinc, Exc.bind_eq_ok, Exc.raiseIf_eq_ok, Exc.pure_eq_ok]
  constructor
  · rintro ⟨_, hne, _, _, _, hone, i, hi, _, hop, b, hb, n, hn, f, hf, rfl⟩
    have hone' : (ofKind .intent l).length ≤ 1 := by omega
    obtain rfl := viewOf_intent hi
    obtain rfl := viewOf_baseline hb
    obtain rfl := viewOf_numbers hn
    obtain rfl := viewOf_fills hone' hf
    refine ⟨by simpa using hne, ⟨hl, hone', hi, hb, hn, hf⟩, hop, ?_⟩
    rw [finalStatus_view, openStatus_eq hl (foldNumbers_results hn)]
    simp only [View.state, View.status, viewOf_sends, viewOf_reason]
  · rintro ⟨hne, hr, hop, rfl⟩
    refine ⟨(), by simpa using hne, (), by simp, (), by have := hr.oneIntent; omega, _, hr.intentOk, (), hop, _,
      hr.baselineOk, _, hr.numbersOk, _, hr.fillsOk, ?_⟩
    rw [finalStatus_view, openStatus_eq hl (foldNumbers_results hr.numbersOk)]
    simp only [View.state, View.status, viewOf_sends, viewOf_reason]

/-! ## The recursion into prefixes -/

theorem checkOperators_congr {p p' : List JournalEvent → Except OrderError IntentState} :
    ∀ {rest before : List JournalEvent}, (∀ m, m.length < before.length + rest.length → p m = p' m) →
      checkOperators p before rest = checkOperators p' before rest
  | [], _, _ => rfl
  | e :: rest, before, h => by
    have hhead : checkOperator p before e = checkOperator p' before e := by
      unfold checkOperator
      rw [h before (by simp)]
    have htail : checkOperators p (before ++ [e]) rest = checkOperators p' (before ++ [e]) rest :=
      checkOperators_congr (fun m hm => h m (by simp at hm ⊢; omega))
    rw [checkOperators, checkOperators, hhead, htail]

theorem deriveWith_congr {p p' : List JournalEvent → Except OrderError IntentState} {l : List JournalEvent}
    (h : ∀ m, m.length < l.length → p m = p' m) : deriveWith p l = deriveWith p' l := by
  have hlen : (sortBySeq l).length = l.length := List.length_insertionSort _ l
  unfold deriveWith
  simp only
  have hsame : checkOperators p [] (sortBySeq l) = checkOperators p' [] (sortBySeq l) :=
    checkOperators_congr (fun m hm => h m (by simpa [hlen] using hm))
  rw [hsame]

theorem deriveWith_nil (p : List JournalEvent → Except OrderError IntentState) :
    deriveWith p [] = .error (corrupt "empty event sequence") := rfl

/-- Fuel beyond the length changes nothing. -/
theorem deriveFuel_eq : ∀ (n k : Nat) (l : List JournalEvent), l.length ≤ n → l.length ≤ k →
    deriveFuel n l = deriveFuel k l
  | n, k, [], _, _ => by cases n <;> cases k <;> rfl
  | n + 1, k + 1, a :: t, hn, hk => by
    refine deriveWith_congr (fun m hm => ?_)
    exact deriveFuel_eq n k m (by omega) (by omega)

theorem deriveIntentState_unfold (l : List JournalEvent) : deriveIntentState l = deriveWith deriveIntentState l := by
  cases l with
  | nil => rfl
  | cons a t =>
    refine deriveWith_congr (fun m hm => ?_)
    rw [List.length_cons] at hm
    exact deriveFuel_eq t.length m.length m (by omega) (Nat.le_refl _)

theorem checkOperators_append (p : List JournalEvent → Except OrderError IntentState) :
    ∀ (l before l' : List JournalEvent), checkOperators p before (l ++ l') =
      checkOperators p before l >>= fun _ => checkOperators p (before ++ l) l'
  | [], before, l' => by simp [checkOperators]
  | e :: l, before, l' => by
    rw [List.cons_append, checkOperators, checkOperators, checkOperators_append p l]
    cases checkOperator p before e <;> simp

theorem checkOperators_snoc (p : List JournalEvent → Except OrderError IntentState) (l : List JournalEvent)
    (e : JournalEvent) :
    checkOperators p [] (l ++ [e]) = .ok () ↔ checkOperators p [] l = .ok () ∧ checkOperator p l e = .ok () := by
  rw [checkOperators_append, Exc.bind_eq_ok]
  simp only [checkOperators, List.nil_append, Exc.bind_eq_ok, Exc.pure_eq_ok]
  constructor
  · rintro ⟨_, h, _, h', _⟩; exact ⟨h, h'⟩
  · rintro ⟨h, h'⟩; exact ⟨(), h, (), h', trivial⟩

/-- What the fold of readable events gives, apart from the operator events. -/
theorem deriveIntentState_eq {l : List JournalEvent} (hl : Increasing l) (s : IntentState) :
    deriveIntentState l = .ok s ↔
      l ≠ [] ∧ Readable l ∧ checkOperators deriveIntentState [] l = .ok () ∧ s = (viewOf l).state := by
  rw [deriveIntentState_unfold]
  exact deriveWith_eq hl s

theorem Readable.snoc_iff {l : List JournalEvent} {e : JournalEvent} (hl : Increasing (l ++ [e])) (hk : e.kind ≠ .intent) :
    Readable (l ++ [e]) ↔ Readable l ∧ (e.kind = .send → ∃ b, payloadBaseline e.payload = .ok b) ∧
      (e.kind = .result → (verdictOf e.payload).isSome = true) ∧
      (e.kind = .brokerState → ∃ f, checkFills (viewOf l).intent (viewOf l).fills e.payload = .ok f) := by
  have hin : ((viewOf l).push e).intent = (viewOf l).intent := by simp [View.push, hk]
  constructor
  · intro h
    obtain ⟨_, h1, h2, h3, h4, h5⟩ := h
    rw [viewOf_snoc] at h2 h3 h4 h5
    rw [hin] at h2 h5
    have hres := foldNumbers_results h4
    rw [ofKind_snoc, if_neg hk] at h1
    rw [foldIntent, Exc.foldlM_snoc, Exc.bind_eq_ok] at h2
    rw [foldBaseline, Exc.foldlM_snoc, Exc.bind_eq_ok] at h3
    rw [foldNumbers, Exc.foldlM_snoc, Exc.bind_eq_ok] at h4
    rw [foldFills, Exc.foldlM_snoc, Exc.bind_eq_ok] at h5
    obtain ⟨i, hi, h2⟩ := h2
    obtain ⟨b, hb, h3⟩ := h3
    obtain ⟨n, hn, h4⟩ := h4
    obtain ⟨f, hf, h5⟩ := h5
    have hff := viewOf_fills h1 hf
    rw [viewOf_intent (show foldIntent l = .ok i from hi)] at hf h5 ⊢
    have hr : Readable l := by
      refine ⟨hl.snoc.1, h1, ?_, ?_, ?_, ?_⟩
      · rw [viewOf_intent hi]; exact hi
      · rw [viewOf_baseline hb]; exact hb
      · rw [viewOf_numbers hn]; exact hn
      · rw [viewOf_intent hi, hff]; exact hf
    refine ⟨hr, fun hs => ?_, fun hs => hres e (by simp) hs, fun hs => ?_⟩
    · rw [if_pos hs, Exc.bind_eq_ok] at h3
      obtain ⟨p, hp, _⟩ := h3
      exact ⟨p, hp⟩
    · rw [if_pos hs, Exc.map_eq_ok] at h5
      obtain ⟨g, hg, _⟩ := h5
      exact ⟨g, hff ▸ hg⟩
  · rintro ⟨hr, hs, hv, hb⟩
    refine ⟨hl, ?_, ?_, ?_, ?_, ?_⟩
    · rw [ofKind_snoc, if_neg hk]; exact hr.oneIntent
    · rw [viewOf_snoc, hin, foldIntent, Exc.foldlM_snoc, Exc.bind_eq_ok]
      exact ⟨_, hr.intentOk, by simp [hk]⟩
    · rw [viewOf_snoc, foldBaseline, Exc.foldlM_snoc, Exc.bind_eq_ok]
      refine ⟨_, hr.baselineOk, ?_⟩
      by_cases he : e.kind = .send
      · obtain ⟨b, hb⟩ := hs he
        rw [if_pos he, hb]
        cases hvb : (viewOf l).baseline <;> simp [View.push, he, hb, hvb, Except.toOption]
      · simp [View.push, he]
    · rw [viewOf_snoc, foldNumbers, Exc.foldlM_snoc, Exc.bind_eq_ok]
      refine ⟨_, hr.numbersOk, ?_⟩
      by_cases he : e.kind = .result
      · have hve := hv he
        have ha : isAdoption e = false := by simp [isAdoption, he]
        rw [if_pos he]
        cases hvd : verdictOf e.payload with
        | none => simp [hvd] at hve
        | some v => cases v <;> simp [View.push, binds, isVerdict, he, hvd, ha]
      · have hve : isVerdict .accepted e = false := by simp [isVerdict, he]
        rw [if_neg he]
        by_cases ha : isAdoption e = true <;> simp [View.push, binds, hve, ha]
    · rw [viewOf_snoc, hin, foldFills, Exc.foldlM_snoc, Exc.bind_eq_ok]
      refine ⟨_, hr.fillsOk, ?_⟩
      by_cases he : e.kind = .brokerState
      · obtain ⟨f, hf⟩ := hb he
        simp [View.push, he, hf, Except.toOption]
      · simp [View.push, he]

theorem checkOperator_eq_ok {before : List JournalEvent} {e : JournalEvent} (hk : e.kind = .operatorResolve) :
    checkOperator deriveIntentState before e = .ok () ↔ validateOperatorPayload e.payload = .ok () ∧
      ∃ p, deriveIntentState before = .ok p ∧ (p.status = .unknown ∨ p.status = .notFound) := by
  simp only [checkOperator, hk, if_true, Exc.bind_eq_ok, Exc.raiseIf_eq_ok]
  constructor
  · rintro ⟨_, hval, _, _, p, hp, hst⟩
    exact ⟨hval, p, hp, by tauto⟩
  · rintro ⟨hval, p, hp, hst⟩
    refine ⟨(), hval, (), fun h => ?_, p, hp, by tauto⟩
    rw [List.isEmpty_iff.1 h] at hp
    cases hp

/-- **One more event is readable exactly when the machine admits it**, and the state after it is one push further. -/
theorem deriveIntentState_snoc {l : List JournalEvent} {e : JournalEvent} (hl : Increasing (l ++ [e])) (hne : l ≠ [])
    (hk : e.kind ≠ .intent) (s : IntentState) : deriveIntentState (l ++ [e]) = .ok s ↔
      (∃ s', deriveIntentState l = .ok s') ∧ (viewOf l).Admits e ∧ s = ((viewOf l).push e).state := by
  rw [deriveIntentState_eq hl, Readable.snoc_iff hl hk, checkOperators_snoc, viewOf_snoc]
  simp only [deriveIntentState_eq hl.snoc.1]
  constructor
  · rintro ⟨_, ⟨hr, hs, hv, hb⟩, ⟨hop, hope⟩, rfl⟩
    refine ⟨⟨_, hne, hr, hop, rfl⟩, ?_, rfl⟩
    have hd : deriveIntentState l = .ok (viewOf l).state := (deriveIntentState_eq hl.snoc.1 _).2 ⟨hne, hr, hop, rfl⟩
    unfold View.Admits
    cases hkind : e.kind with
    | intent => exact hk hkind
    | send => exact hs hkind
    | result => exact hv hkind
    | brokerState => exact hb hkind
    | operatorResolve =>
      obtain ⟨hval, p, hp, hst⟩ := (checkOperator_eq_ok hkind).1 hope
      rw [hd] at hp
      cases hp
      exact ⟨hval, hst⟩
    | _ => trivial
  · rintro ⟨⟨_, _, hr, hop, rfl⟩, had, rfl⟩
    have hd : deriveIntentState l = .ok (viewOf l).state := (deriveIntentState_eq hl.snoc.1 _).2 ⟨hne, hr, hop, rfl⟩
    unfold View.Admits at had
    refine ⟨by simp, ⟨hr, fun h => ?_, fun h => ?_, fun h => ?_⟩, ⟨hop, ?_⟩, rfl⟩
    · simpa only [h] using had
    · simpa only [h] using had
    · simpa only [h] using had
    · by_cases h : e.kind = .operatorResolve
      · rw [h] at had
        exact (checkOperator_eq_ok h).2 ⟨had.1, _, hd, had.2⟩
      · simp [checkOperator, h]

end Order
