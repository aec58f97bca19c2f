import KClosingAlpha.Order.Finality
import KClosingAlpha.Order.Oracle
/-!
# Binding — intents and broker orders are bound one to one

Four paths bind an order: an accepted POST, the polls of a submit, a reconciliation or carry-over, and an operator.  Each
checks the normalized number against the numbers of the whole journal, so one invariant, `OneToOne`, covers them all.
-/
namespace Order

open Py (Value Dict)

/-- What is assumed of the broker: every row has a number that normalizes to something, and the number of an accepted
POST is not already bound to another intent. -/
def numberRules : Rules
  | .fetchDailyOrders _, _, r => ∀ rows, r = .ok rows → ∀ o ∈ rows, normalizeOrderNo o.orderNo ≠ ""
  | .submitOrder i, w, r => ∀ res, r = .ok res → res.verdict = .accepted → ∀ no, res.brokerOrderNo = some no →
      ∀ id, id ≠ i.intentId → ∀ m, (stateOf w.journal id).brokerOrderNo = some m →
        normalizeOrderNo m ≠ normalizeOrderNo no
  | _, _, _ => True

/-- Different intents have different normalized numbers. -/
def OneToOne (j : Journal) : Prop := ∀ a b m n, a ≠ b → (view j a).numbers.1 = some m → (view j b).numbers.1 = some n →
  normalizeOrderNo m ≠ normalizeOrderNo n

section steps

variable {g : OrderGateway} {c : Call} {start : Journal} {w w' : World} {e : JournalEvent}

theorem unbound_of_live {id : String} (h : (view w.journal id).Live) : (view w.journal id).numbers = (none, none) :=
  numbers_of_unbound h.unbound

/-- The number of a matched row differs from every number of the journal. -/
theorem Matched.fresh {i : OrderIntent} {o : BrokerOrder} (hm : Matched numberRules w.journal i o) {id m : String}
    (h : (view w.journal id).numbers.1 = some m) : normalizeOrderNo m ≠ normalizeOrderNo o.orderNo := by
  obtain ⟨w0, rows, hR, ho⟩ := hm.read
  have hne : normalizeOrderNo o.orderNo ≠ "" := hR rows rfl o ho
  intro heq
  by_cases h0 : m = ""
  · subst h0
    exact hne (heq.symm.trans rfl)
  · exact hm.unbound (mem_boundOf.2 ⟨id, m, h, h0, heq⟩)

/-- What a record does to the numbers of its intent: nothing, or a first number no other intent has. -/
theorem Writes.numbers (h : Writes numberRules g c start w e) :
    ((view w.journal e.intentId).push e).numbers = (view w.journal e.intentId).numbers ∨
      ((view w.journal e.intentId).numbers.1 = none ∧
        ∀ n, ((view w.journal e.intentId).push e).numbers.1 = some n → ∀ id, id ≠ e.intentId → ∀ m,
          (view w.journal id).numbers.1 = some m → normalizeOrderNo m ≠ normalizeOrderNo n) := by
  by_cases hb : binds e = true
  · refine .inr ?_
    have hpush : ((view w.journal e.intentId).push e).numbers.1 = numberOf e.payload "broker_order_no" := by
      simp [View.push, hb]
    rw [hpush]
    cases h with
    | result i n r hk hp hi hn hlast hr hst hres hconf =>
      refine ⟨by rw [unbound_of_live (View.live_of_unknown hst)], fun no hno id hid m hm => ?_⟩
      obtain ⟨w0, hj, hR⟩ := hr
      have hacc : (safeResult "submit raised" r).verdict = .accepted := by
        have : isVerdict .accepted e = true := by
          simpa [binds, isAdoption, hk] using hb
        simpa [isVerdict, hk, hp, verdictOf_resultPayload] using this
      have hnum : (safeResult "submit raised" r).brokerOrderNo = some no := by
        rw [hp] at hno
        cases hb' : (safeResult "submit raised" r).brokerOrderNo with
        | none => simp [numberOf, resultPayload, List.lookup, hb'] at hno
        | some x => simpa [numberOf, resultPayload, List.lookup, hb', Py.Value.toStr] using hno
      have hii := view_intentId hi
      cases r with
      | error err => simp [safeResult, raisedResult] at hacc
      | ok res => exact hR res rfl hacc no hnum id (hii ▸ hid) m (hj ▸ hm)
    | adopt i o hk hp hi hst hm =>
      refine ⟨by rw [unbound_of_live (View.live_of_unknown hst)], fun no hno id hid m hm' => ?_⟩
      rw [hp, numberOf_adoptPayload] at hno
      cases hno
      exact hm.fresh hm'
    | operatorAdopt i a o hk hp hi hst hm hno hne hval hcall =>
      have hub : (view w.journal e.intentId).bound = false := by
        rcases hst with hst | hst
        · exact (View.live_of_unknown hst).unbound
        · exact (View.notFound_iff.1 hst).2.1
      refine ⟨by rw [view, numbers_of_unbound hub], fun no hno' id hid m hm' => ?_⟩
      have hnum : numberOf e.payload "broker_order_no" = some o.orderNo := by rw [hp]; rfl
      rw [hnum] at hno'
      cases hno'
      exact hm.fresh hm'
    | operatorNotFound i a hk hp hi hst hval hcall =>
      simp [binds, isVerdict, isAdoption, hk, hp, ResolveArgs.notFoundPayload] at hb
    | cancel hk => rcases hk with hk | hk <;> simp [binds, isVerdict, isAdoption, hk, kind_beq] at hb
    | _ => simp_all [binds, isVerdict, isAdoption]
  · exact .inl (View.push_numbers (by simpa using hb))

theorem oneToOne_wrote (hw : Writes numberRules g c start w e) (h : OneToOne w.journal) :
    OneToOne (w.journal ++ [e]) := by
  intro a b m n hab hm hn
  rw [view_snoc] at hm hn
  have hold := h a b m n hab
  split_ifs at hm hn with ha hb hb
  · exact absurd (ha.symm.trans hb) hab
  · subst ha
    rcases hw.numbers with hsame | ⟨-, hfresh⟩
    · rw [hsame] at hm
      exact hold hm hn
    · exact (hfresh m hm b (Ne.symm hab) n hn).symm
  · subst hb
    rcases hw.numbers with hsame | ⟨-, hfresh⟩
    · rw [hsame] at hn
      exact hold hm hn
    · exact hfresh n hn a hab m hm
  · exact hold hm hn

theorem keeps_number (hw : Writes numberRules g c start w e) {id n : String}
    (h : (view w.journal id).numbers.1 = some n) : (view (w.journal ++ [e]) id).numbers.1 = some n := by
  rw [view_snoc]
  split_ifs with hid
  · subst hid
    rcases hw.numbers with hsame | ⟨hnone, -⟩
    · rw [hsame, h]
    · rw [hnone] at h
      cases h
  · exact h

end steps

/-- **Broker-order binding is a partial injection**: in every state a run reaches, two intents never share a
normalized number, and a bound number never changes. -/
theorem binding_partial_injection {A : OrderGateway → Call → Prop} {w w' : World}
    (h : Session (fun _ _ => numberRules) A World.empty w) (h' : Session (fun _ _ => numberRules) A w w') :
    (∀ a b s s' m n, a ≠ b → derived w.journal a = some s → derived w.journal b = some s' → s.brokerOrderNo = some m →
      s'.brokerOrderNo = some n → normalizeOrderNo m ≠ normalizeOrderNo n) ∧
    (∀ id s s' n, derived w.journal id = some s → derived w'.journal id = some s' → s.brokerOrderNo = some n →
      s'.brokerOrderNo = some n) := by
  obtain ⟨hone, ht⟩ := session_invariant (I := fun x => OneToOne x.journal) (fun _ _ _ h => h)
    (fun g c start x y _ hI hs => by
      cases hs with
      | quiet y hj hp hh => rw [hj]; exact hI
      | wrote e happ hs hw => exact oneToOne_wrote hw hI
      | posted i hd s hlast hk hid hi hst hnew hcall => exact hI)
    timely_empty (fun a b m n _ hm => by cases hm) h
  refine ⟨fun a b s s' m n hab hs hs' hm hn => ?_, fun id s s' n hs hs' hn => ?_⟩
  · obtain ⟨-, -, rfl⟩ := derived_eq_some.1 hs
    obtain ⟨-, -, rfl⟩ := derived_eq_some.1 hs'
    exact hone a b m n hab hm hn
  · obtain ⟨-, -, rfl⟩ := derived_eq_some.1 hs
    obtain ⟨-, -, rfl⟩ := derived_eq_some.1 hs'
    refine (session_invariant (I := fun x => (view x.journal id).numbers.1 = some n) (fun _ _ _ h => h)
      (fun g c start x y _ hI hs => ?_) ht hn h').1
    cases hs with
    | quiet y hj hp hh => rw [hj]; exact hI
    | wrote e happ hs hw => exact keeps_number hw hI
    | posted i hd s hlast hk hid hi hst hnew hcall => exact hI

namespace Sample

/-- The broker accepts with the number 1 while no intent has it. -/
def numbering : Oracle :=
  { Oracle.fixed (fun _ => []) [] with
    submit := fun w _ => .ok (if (boundOf w.journal).contains "1" then verdict .rejected none
      else verdict .accepted (some "1")) }

theorem numbering_rules (op : GatewayOp) (w : World) : numberRules op w (numbering.answer op w).1 := by
  cases op with
  | fetchDailyOrders d =>
    intro rows hrows o ho
    cases hrows
    cases ho
  | submitOrder i =>
    intro res hres hacc no hno id hid m hm heq
    by_cases hc : (boundOf w.journal).contains "1" = true
    · simp only [Oracle.answer, numbering, if_pos hc, Except.ok.injEq] at hres
      subst hres
      cases hacc
    · simp only [Oracle.answer, numbering, if_neg hc, Except.ok.injEq] at hres
      subst hres
      cases hno
      have hm0 : m ≠ "" := by
        rintro rfl
        revert heq
        decide +kernel
      have h1 : normalizeOrderNo m = "1" := heq.trans rfl
      exact hc (List.contains_iff_mem.2 (mem_boundOf.2 ⟨id, m, hm, hm0, h1⟩))
  | _ => trivial

theorem session_numbering (g : OrderGateway) (c : Call) (w : World) :
    Session (fun _ _ => numberRules) (fun _ _ => True) w (numbering.after g c (w.enter 0 false)) :=
  .single (numbering.called trivial numbering_rules _ _ _)

def numberedTwice : World :=
  numbering.after gateway (.submit samsung.intentId 1) ((ordered numbering samsung).enter 0 false)

end Sample

theorem binding_partial_injection_numbered :
    (stateOf Sample.numberedTwice.journal Sample.samsung.intentId).brokerOrderNo = some "1" := by
  have hs : derived (Sample.ordered Sample.numbering Sample.samsung).journal Sample.samsung.intentId =
      some (stateOf (Sample.ordered Sample.numbering Sample.samsung).journal Sample.samsung.intentId) := by
    rfl
  have hs' : derived Sample.numberedTwice.journal Sample.samsung.intentId =
      some (stateOf Sample.numberedTwice.journal Sample.samsung.intentId) := by
    rfl
  exact (binding_partial_injection ((Sample.session_numbering _ _ _).trans (Sample.session_numbering _ _ _))
    (Sample.session_numbering _ _ _)).2 Sample.samsung.intentId _ _ "1" hs hs' rfl

end Order
