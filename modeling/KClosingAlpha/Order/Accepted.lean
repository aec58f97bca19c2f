import KClosingAlpha.Order.Trading
import KClosingAlpha.Order.Finality
import KClosingAlpha.Order.Oracle
/-!
# Accepted — whether the loops of the gateway look at an accepted order

A first number stays what it was (`session_number`), so what the loops see of an accepted order is decided by the number
its RESULT recorded.
-/
namespace Order

open Py (Value Dict)

/-- The loops that look at an intent of this number: the fill pass of a reconciliation finds its row, a cancel takes it,
and it is missing where no row has it. -/
structure Considered (j : Journal) (id no : String) : Prop where
  acked : (stateOf j id).status = .acked
  number : (stateOf j id).brokerOrderNo = some no
  reconciled : ∀ rows : List BrokerOrder, (∃ o ∈ rows, normalizeOrderNo o.orderNo = normalizeOrderNo no) →
    (findRow rows no).isSome = true
  cancelled : ∀ d, stateDate (stateOf j id) = some d → (id, stateOf j id) ∈ OrderGateway.cancelTargets (statesOf j) d
  missed : ∀ rows : List BrokerOrder, OrderGateway.isMissing rows (stateOf j id) = true ↔
    ∀ o ∈ rows, normalizeOrderNo o.orderNo ≠ normalizeOrderNo no

/-- The intent is final, or all the loops look at it. -/
def Followed (j : Journal) (id : String) : Prop := (stateOf j id).final = true ∨ ∃ no, Considered j id no

section numbers

variable {R : Rules} {g : OrderGateway} {c : Call} {start : Journal} {w w' : World} {e : JournalEvent} {id : String}

/-- An intent is bound once. -/
theorem Writes.unbound (h : Writes R g c start w e) (hb : binds e = true) : (view w.journal e.intentId).bound = false := by
  cases h with
  | result i n r hk hp hi hn hlast hr hst hres hconf => exact (View.live_of_unknown hst).unbound
  | adopt i o hk hp hi hst hm => exact (View.live_of_unknown hst).unbound
  | operatorAdopt i a o hk hp hi hst hm hno hne hval hcall =>
    rcases hst with hst | hst
    · exact (View.live_of_unknown hst).unbound
    · exact (View.notFound_iff.1 hst).2.1
  | operatorNotFound i a hk hp hi hst hval hcall => exact (View.live_of_unknown hst).unbound
  | cancel hk => rcases hk with hk | hk <;> simp [binds, isVerdict, isAdoption, hk, kind_beq] at hb
  | _ => simp_all [binds, isVerdict, isAdoption]

theorem step_number (h : Step R g c start w w') (hb : (view w.journal id).bound = true) :
    (view w'.journal id).bound = true ∧ (view w'.journal id).numbers = (view w.journal id).numbers := by
  cases h with
  | quiet w' hj hp hh => rw [hj]; exact ⟨hb, rfl⟩
  | posted i hd s hlast hk hid hi hst hnew hcall => exact ⟨hb, rfl⟩
  | wrote e happ hs hw =>
    rw [World.wrote_journal, view_snoc]
    split_ifs with hid
    · subst hid
      have hnot : binds e = false := by
        by_contra h
        rw [hw.unbound (by simpa using h)] at hb
        cases hb
      exact ⟨by rw [View.push_bound hnot, hb], View.push_numbers hnot⟩
    · exact ⟨hb, rfl⟩

/-- An accepted RESULT that was just written. -/
theorem step_accepted (h : Step R g c start w w') (hw : ∀ e, w.journal.getLast? = some e → isVerdict .accepted e = true →
    (view w.journal e.intentId).status.1 = .acked) (e : JournalEvent) (hlast : w'.journal.getLast? = some e)
    (ha : isVerdict .accepted e = true) : (view w'.journal e.intentId).status.1 = .acked := by
  cases h with
  | quiet w' hj hp hh => exact hj ▸ hw e (hj ▸ hlast) ha
  | posted i hd s hlast' hk hid hi hst hnew hcall => exact hw e hlast ha
  | wrote x happ hs hwr =>
    rw [World.wrote_journal, List.getLast?_concat, Option.some.injEq] at hlast
    subst hlast
    rw [World.wrote_journal, view_snoc, if_pos rfl]
    have hk : x.kind = .result ∧ verdictOf x.payload = some .accepted := by simpa [isVerdict] using ha
    cases hwr with
    | result i n r hk' hp hi hn hlast hr hst hres hconf =>
      rw [View.push_result hk'  hk.2 (View.live_of_unknown hst) hconf]
      rfl
    | cancel hk' => rcases hk' with hk' | hk' <;> simp [hk'] at hk
    | _ => simp_all

end numbers

section runs

variable {R : OrderGateway → Call → Rules} {A : OrderGateway → Call → Prop} {w w' : World} {id : String}

theorem session_number (ht : Timely w) (h : Session R A w w') (hb : (view w.journal id).bound = true) :
    (view w'.journal id).bound = true ∧ (view w'.journal id).numbers = (view w.journal id).numbers := by
  refine (session_invariant (I := fun x => (view x.journal id).bound = true ∧
    (view x.journal id).numbers = (view w.journal id).numbers) (fun _ _ _ h => h) (fun g c start x y _ hI hs => ?_) ht
    ⟨hb, rfl⟩ h).1
  obtain ⟨hb', hn'⟩ := step_number hs hI.1
  exact ⟨hb', hn'.trans hI.2⟩

theorem session_accepted (h : Session R A World.empty w) {e : JournalEvent} (hlast : w.journal.getLast? = some e)
    (ha : isVerdict .accepted e = true) : (view w.journal e.intentId).status.1 = .acked :=
  (session_invariant (I := fun x => ∀ e, x.journal.getLast? = some e → isVerdict .accepted e = true →
    (view x.journal e.intentId).status.1 = .acked) (fun _ _ _ h => h)
    (fun _ _ _ _ _ _ hI hs => step_accepted hs hI) timely_empty (fun e he => by cases he) h).1 e hlast ha

end runs

section states

variable {j : Journal} {id no : String}

/-- An ACKED intent with a number that normalizes to something is looked at by all three loops. -/
theorem considered_of_number (hst : (view j id).status.1 = .acked) (hno : (view j id).numbers.1 = some no)
    (hne : normalizeOrderNo no ≠ "") : Considered j id no := by
  have hne0 : no ≠ "" := fun h => hne (by rw [h]; rfl)
  have hid : id ∈ idsOf j := by
    by_contra hid
    rw [view_of_not_mem hid] at hno
    cases hno
  have hfin : (stateOf j id).final = false := View.not_final_of_acked hst
  have hnum : (stateOf j id).brokerOrderNo = some no := hno
  refine ⟨hst, hno, ?_, fun d hd => ?_, fun rows => ?_⟩
  · rintro rows ⟨o, ho, heq⟩
    rw [findRow, List.find?_isSome]
    exact ⟨o, ho, by simp [heq, hne]⟩
  · have hacked : (stateOf j id).status = .acked := hst
    refine List.mem_filter.2 ⟨List.mem_map.2 ⟨id, hid, rfl⟩, ?_⟩
    simp [hd, hacked, hfin, hnum, hne0]
  · simp [OrderGateway.isMissing, hnum, hfin, hne0]

/-- A number all the loops look at normalizes to something: one row with the same number is found. -/
theorem Considered.normalize_ne (h : Considered j id no) : normalizeOrderNo no ≠ "" := by
  intro hnil
  let o : BrokerOrder := { orderNo := no, orgNo := "", symbol := "", side := .buy, orderQty := 0, orderPrice := 0,
                           filledQty := 0, filledAmountKrw := 0, remainingQty := 0, cancelled := false, rejectedQty := 0 }
  have hfound := h.reconciled [o] ⟨o, List.mem_singleton_self o, rfl⟩
  rw [findRow, List.find?_isSome] at hfound
  obtain ⟨x, -, hx⟩ := hfound
  simp [hnil] at hx

end states

section accepted

variable {k : KisTradingClient} {latencyMs : Py.PyFloat} {reply : Reply} {n : Nat} {e : JournalEvent} {w w' : World}

/-- An accepted answer carries an order number, and the client stores what is left of it. -/
theorem sendOrder_accepted (h : (k.sendOrder latencyMs reply).verdict = .accepted) : ∃ odno, reply.odno = some odno ∧
    (k.sendOrder latencyMs reply).brokerOrderNo = KisTradingClient.orNone (normalizeOrderNo odno) := by
  cases reply with
  | unreachable => cases h
  | lost status => cases h
  | answered status b =>
    cases b with
    | none => cases h
    | some b =>
      have hv : k.classifyOrderResponse status b = .accepted := h
      obtain ⟨odno, hodno, -⟩ := KisTradingClient.classify_accepted hv
      exact ⟨odno, hodno, by simp [KisTradingClient.sendOrder, hv, hodno]⟩

theorem numberOf_resultPayload (n : Nat) (r : SubmitResult) :
    numberOf (resultPayload n r) "broker_order_no" = r.brokerOrderNo := by
  cases hb : r.brokerOrderNo <;> simp [numberOf, resultPayload, List.lookup, hb, Py.Value.toStr]

theorem isVerdict_resultPayload {r : SubmitResult} (hk : e.kind = .result) (hp : e.payload = resultPayload n r)
    (hr : r.verdict = .accepted) : isVerdict .accepted e = true := by
  simp [isVerdict, hk, hp, verdictOf_resultPayload, hr]

/-- What the journal says of an intent whose accepted RESULT was written, then and later. -/
theorem accepted_later {A : OrderGateway → Call → Prop} {R : OrderGateway → Call → Rules}
    (h : Session R A World.empty w) (hlast : w.journal.getLast? = some e) (ha : isVerdict .accepted e = true)
    (h' : Session R A w w') :
    ((view w'.journal e.intentId).status.1 = .acked ∨ (view w'.journal e.intentId).status.2 = true) ∧
      (view w'.journal e.intentId).numbers.1 = numberOf e.payload "broker_order_no" := by
  have ht : Timely w := (session_invariant (I := fun _ => True) (fun _ _ _ h => h) (fun _ _ _ _ _ _ h _ => h) timely_empty
    trivial h).2
  have hst := session_accepted h hlast ha
  have hnow : (view w.journal e.intentId).bound = true ∧
      (view w.journal e.intentId).numbers.1 = numberOf e.payload "broker_order_no" := by
    obtain ⟨j, hj⟩ : ∃ j, w.journal = j ++ [e] := ⟨_, (List.dropLast_append_getLast? e hlast).symm⟩
    rw [hj, view_snoc, if_pos rfl]
    simp [View.push, binds, ha]
  obtain ⟨-, hnumbers⟩ := session_number ht h' hnow.1
  refine ⟨?_, by rw [hnumbers, hnow.2]⟩
  rcases (session_later ht h' e.intentId).acked hst with hacked | hclosed
  · exact .inl hacked
  · exact .inr (View.status_of_final hclosed).1

/-- **An accepted order stays in view of every loop until it is final**, exactly when its number is more than zeros with
one gap of white space at most. -/
theorem accepted_reconcilable (h : FreeSession World.empty w) (hlast : w.journal.getLast? = some e) (hk : e.kind = .result)
    (hp : e.payload = resultPayload n (k.sendOrder latencyMs reply))
    (hacc : (k.sendOrder latencyMs reply).verdict = .accepted) :
    (∀ w', FreeSession w w' → Followed w'.journal e.intentId) ↔ ∀ odno, reply.odno = some odno → zerosOnly odno = false := by
  have ha := isVerdict_resultPayload hk hp hacc
  obtain ⟨odno, hodno, hstored⟩ := sendOrder_accepted hacc
  have hnumber : ∀ {w'}, FreeSession w w' →
      (view w'.journal e.intentId).numbers.1 = KisTradingClient.orNone (normalizeOrderNo odno) := fun h' => by
    rw [(accepted_later h hlast ha h').2, hp, numberOf_resultPayload, hstored]
  constructor
  · intro hall odno' hodno'
    obtain rfl : odno = odno' := Option.some.inj (hodno.symm.trans hodno')
    rcases hall w .refl with hfin | ⟨no, hno⟩
    · rw [show (stateOf w.journal e.intentId).final = false from
        View.not_final_of_acked (session_accepted h hlast ha)] at hfin
      cases hfin
    · have hnum : (stateOf w.journal e.intentId).brokerOrderNo = KisTradingClient.orNone (normalizeOrderNo odno) :=
        hnumber .refl
      rw [hno.number, KisTradingClient.orNone] at hnum
      split_ifs at hnum with hnil
      obtain rfl := Option.some.inj hnum
      by_contra hz
      exact hno.normalize_ne (normalize_normalize.2 (by simpa using hz))
  · intro hzeros w' h'
    have hz := hzeros odno hodno
    have hnil : normalizeOrderNo odno ≠ "" := fun h0 => by
      rw [zerosOnly_of_empty h0] at hz
      cases hz
    rcases (accepted_later h hlast ha h').1 with hacked | hfin
    · refine .inr ⟨normalizeOrderNo odno, considered_of_number hacked ?_ (fun h0 => ?_)⟩
      · rw [hnumber h', KisTradingClient.orNone, if_neg hnil]
      · rw [normalize_normalize.1 h0] at hz
        cases hz
    · exact .inl hfin

end accepted

namespace Sample

/-- A client that shows text as it is. -/
def client : KisTradingClient := ⟨id, fun _ => ""⟩

def numberReply (odno : String) : Reply :=
  .answered 200 (some (.dict [("rt_cd", .value (.str "0")), ("output", .dict [("ODNO", .value (.str odno))])]))

def clientResult (odno : String) : SubmitResult := client.sendOrder (Py.PyFloat.ofInt 0) (numberReply odno)

/-- The intent submitted, and accepted with the order number. -/
def acceptedAs (odno : String) : World := ordered (broker (fun _ => clientResult odno) (fun _ => false)) samsung

def resultOf (odno : String) : JournalEvent :=
  { seq := 3, ts := "t", kind := .result, intentId := samsung.intentId, runId := "run",
    payload := resultPayload 1 (clientResult odno) }

end Sample

/-- An order accepted with a number of zeros is followed by no loop. -/
theorem accepted_reconcilable_zeros : ¬ ∀ (k : KisTradingClient) w e n latencyMs reply, FreeSession World.empty w →
    w.journal.getLast? = some e → e.kind = .result → e.payload = resultPayload n (k.sendOrder latencyMs reply) →
    (k.sendOrder latencyMs reply).verdict = .accepted → ∀ w', FreeSession w w' → Followed w'.journal e.intentId := by
  intro hall
  have hfollowed := hall Sample.client (Sample.acceptedAs "0000000000") (Sample.resultOf "0000000000") 1
    (Py.PyFloat.ofInt 0) (Sample.numberReply "0000000000") (Sample.session_ordered _ _) rfl rfl rfl
    rfl _ .refl
  rcases hfollowed with hfin | ⟨no, hno⟩
  · revert hfin
    decide +kernel
  · have hnone : (stateOf (Sample.acceptedAs "0000000000").journal (Sample.resultOf "0000000000").intentId).brokerOrderNo =
        none := rfl
    cases hnone.symm.trans hno.number

theorem accepted_reconcilable_numbered : Followed (Sample.acceptedAs "0000012345").journal Sample.samsung.intentId :=
  (@accepted_reconcilable Sample.client (Py.PyFloat.ofInt 0) (Sample.numberReply "0000012345") 1
    (Sample.resultOf "0000012345") (Sample.acceptedAs "0000012345") (Sample.session_ordered _ _) rfl rfl
    rfl rfl).2 (fun odno hodno => by cases hodno; rfl) _ .refl

end Order
