import Mathlib
import KClosingAlpha.Order.ReconcileSession
import KClosingAlpha.Order.EntryRuns
import KClosingAlpha.Order.Repeat
/-!
# ReconcileRuns — what the report of a reconcile run says of the day

A pass that returns has looked at every order of the day against the broker's list: one that a row of the list ends is
final after it (`keeps_reconcile`).  The report of a run is the one of its last pass, or says that the broker could not
be read.
-/
namespace Order

open Py (Value Dict)
open Prog (Reach Ends keeps)
open OrderGateway (dayIds reportOf shortfalls holdingOf sumByKey isMissing)

/-! ## Fills on record -/

/-- Every record of fills is one of a row. -/
def FromRows (j : Journal) : Prop := ∀ e ∈ j, e.kind = .brokerState → ∃ o final, e.payload = brokerStatePayload o final

/-- The fills that closed an intent are the last ones of it. -/
def ClosedBy (v : View) : Prop := ∀ p, v.finalPayload = some p →
  ∃ f, v.fills = some f ∧ f.filledQty = ((p.getD "filled_qty" .none).toInt).getD 0

section fills

variable {R : Rules} {g : OrderGateway} {c : Call} {start : Journal} {w : World} {e : JournalEvent}

theorem Writes.fromRow (h : Writes R g c start w e) (hk : e.kind = .brokerState) :
    ∃ o final, e.payload = brokerStatePayload o final := by
  cases h with
  | brokerState i o final hk' hp => exact ⟨o, final, hp⟩
  | cancel hk' => rcases hk' with hk' | hk' <;> simp [hk'] at hk
  | _ => simp_all

theorem FromRows.wrote (h : FromRows w.journal)
    (he : e.kind = .brokerState → ∃ o final, e.payload = brokerStatePayload o final) : FromRows (w.wrote e).journal := by
  intro x hx hk
  rcases List.mem_append.1 hx with hx | hx
  · exact h x hx hk
  · rw [List.mem_singleton.1 hx] at hk ⊢
    exact he hk

theorem session_fromRows (h : FreeSession World.empty w) : FromRows w.journal := by
  refine (session_invariant (I := fun x => FromRows x.journal) (fun _ _ _ h => h) (fun g c start x y _ hI hs => ?_)
    timely_empty (fun e he => by cases he) h).1
  cases hs with
  | quiet y hj hp hh =>
    rw [hj]
    exact hI
  | wrote e happ hs hw => exact hI.wrote hw.fromRow
  | posted i hd s hlast hk hid hi hst hnew hcall => exact hI

theorem filledQty_of_checkFills {i : Option OrderIntent} {prev : Option Fills} {o : BrokerOrder} {final : Bool} {f : Fills}
    (h : checkFills i prev (brokerStatePayload o final) = .ok f) : f.filledQty = o.filledQty := by
  simp only [checkFills, Exc.bind_eq_ok, Exc.raiseIf_eq_ok, Exc.pure_eq_ok] at h
  obtain ⟨fq, hfq, fa, -, rq, -, -, -, -, -, -, -, -, -, -, -, rfl⟩ := h
  cases hfq
  rfl

theorem Writes.closedBy (h : Writes R g c start w e) : ClosedBy ((view w.journal e.intentId).push e) := by
  intro p hp
  have hopen : (view w.journal e.intentId).finalPayload = none := by
    by_contra hne
    have := h.not_final
    rw [(View.status_of_final (Option.isSome_iff_ne_none.2 hne)).1] at this
    cases this
  have hstate : isFinalState e = true := by
    by_contra hne
    simp [View.push, hne, hopen] at hp
  have hk : e.kind = .brokerState := by
    simp only [isFinalState, Bool.and_eq_true, beq_iff_eq] at hstate
    exact hstate.1
  obtain rfl : e.payload = p := by simpa [View.push, hstate] using hp
  cases h with
  | brokerState i o final hk' hpay hi hno hfin hfill =>
    obtain ⟨f, hfill⟩ := hfill
    have hpush : ((view w.journal e.intentId).push e).fills = some f := by
      simp [View.push, hk, hi, hfill, Except.toOption]
    refine ⟨f, hpush, ?_⟩
    rw [hpay] at hfill ⊢
    rw [filledQty_of_checkFills hfill]
    rfl
  | cancel hk' => rcases hk' with hk' | hk' <;> simp [hk'] at hk
  | _ => simp_all

theorem session_closedBy (h : FreeSession World.empty w) (id : String) : ClosedBy (view w.journal id) := by
  refine (session_invariant (I := fun x => ClosedBy (view x.journal id)) (fun _ _ _ h => h)
    (fun g c start x y _ hI hs => ?_) timely_empty (fun p hp => by cases hp) h).1
  cases hs with
  | quiet y hj hp hh =>
    rw [hj]
    exact hI
  | wrote e happ hs hw =>
    rw [World.wrote_journal, view_snoc]
    split_ifs with hid
    · subst hid
      exact hw.closedBy
    · exact hI
  | posted i hd s hlast hk hid hi hst hnew hcall => exact hI

theorem View.closed_of_filled {v : View} (h : v.status.1 = .filled) :
    ∃ p, v.finalPayload = some p ∧ finalStatus v.intent p = .filled := by
  rcases View.status_cases v with ⟨p, hp, hs⟩ | ⟨-, -, hs⟩ | ⟨-, -, -, hs⟩ | ⟨-, -, -, -, hs⟩ | hlive
  · rw [hs] at h
    exact ⟨p, hp, h⟩
  · rw [hs] at h
    cases h
  · rw [hs] at h
    cases h
  · rw [hs] at h
    cases h
  · rcases hlive.status_mem with hs | hs | hs | hs <;> rw [hs] at h <;> cases h

theorem finalStatus_filled {i : Option OrderIntent} {p : Payload} : finalStatus i p = .filled →
    ((p.getD "filled_qty" .none).toInt).getD 0 = i.elim (((p.getD "order_qty" .none).toInt).getD 0) (·.qty) := by
  unfold finalStatus
  simp only
  split_ifs with hfull <;> simp
  exact hfull.1

/-- **A FILLED intent has filled in full, and is final.** -/
theorem filled_in_full (h : FreeSession World.empty w) {id : String} {i : OrderIntent}
    (hi : (view w.journal id).intent = some i) (hst : (view w.journal id).status.1 = .filled) :
    (view w.journal id).status.2 = true ∧ (stateOf w.journal id).filledQty = i.qty := by
  obtain ⟨p, hp, hfinal⟩ := View.closed_of_filled hst
  obtain ⟨f, hf, hqty⟩ := session_closedBy h id p hp
  refine ⟨(View.status_of_final (by rw [hp]; rfl)).1, ?_⟩
  have hfilled : (stateOf w.journal id).filledQty = f.filledQty := by simp [stateOf, View.state, hf]
  rw [hfilled, hqty]
  rw [hi] at hfinal
  exact finalStatus_filled hfinal

end fills

/-! ## One pass -/

/-- A call that plans nothing, and records no fills but those of a row. -/
def reconciles : GatewayOp → Prop
  | .append k _ p _ => k ≠ .intent ∧ (k = .brokerState → ∃ o final, p = brokerStatePayload o final)
  | _ => True

/-- No row of the list ends an order that is left open. -/
def Marked (rows : List BrokerOrder) (finalize : Bool) (v : View) : Prop :=
  ∀ no o, v.numbers.1 = some no → v.status.2 = false → findRow rows no = some o → isFinalRow o finalize = false

/-- What a pass that returns has read and reported, and that it has marked every order of the day. -/
inductive Reconciled (R : Rules) (d : String) (finalize : Bool) (report : ReconcileReport) (x : World) : Prop
  | mk (rows : List BrokerOrder) (positions : List BrokerPosition) (lots : List OpenLot) (foreign : Nat)
      (hread : ∃ y, R .fetchPositions y (.ok positions)) (hlots : openLots x.journal = .ok lots)
      (hreport : report = reportOf d (dayIds (statesOf x.journal) d) foreign (statesOf x.journal) rows positions lots)
      (hmarked : ∀ id ∈ dayIds (statesOf x.journal) d, Marked rows finalize (view x.journal id))

section pass

variable {R : Rules} {g : OrderGateway} {d id : String} {finalize : Bool} {rows : List BrokerOrder} {j : Journal} {w : World}
  {e : JournalEvent}

theorem dayIds_snoc (hk : e.kind ≠ .intent) : dayIds (statesOf (j ++ [e])) d = dayIds (statesOf j) d := by
  rw [dayIds_eq, dayIds_eq, idsOf_snoc]
  simp only [view_intent_snoc hk]
  by_cases hid : e.intentId ∈ idsOf j
  · rw [if_pos hid]
  · rw [if_neg hid, List.filter_append]
    have hnone : (view j e.intentId).intent = none := by
      rw [view_of_not_mem hid]
      rfl
    simp [hnone]

theorem calls_adopts : ∀ (bound ids : List String), (g.adoptDay rows bound ids).Calls reconciles
  | _, [] => trivial
  | bound, id :: ids => by
    have hstate : (stateAt id).Calls reconciles := by
      refine Prog.Calls.bind ⟨trivial, fun j => Prog.calls_ofExcept (states j)⟩ (fun sts => ?_)
      split <;> trivial
    have hwrite (k : JournalEventKind) (p : Payload) (hk : k ≠ .intent ∧ k ≠ .brokerState) : (g.write k id p).Calls reconciles :=
      ⟨⟨hk.1, fun h => absurd h hk.2⟩, fun r => Prog.calls_ofExcept (r.map (fun _ => ()))⟩
    refine hstate.bind (fun st => ?_)
    split
    · split
      · exact calls_adopts bound ids
      · exact (hwrite .adopt _ (by decide)).bind (fun _ => calls_adopts _ ids)
      · exact (hwrite .resolveConflict _ (by decide)).bind (fun _ => calls_adopts bound ids)
    · exact calls_adopts bound ids

/-- **The binding pass leaves the day's intents and the fills on record.** -/
theorem keeps_adoptDay (bound ids : List String) (hj : FromRows w.journal) :
    keeps (under R) (fun _ => True) (g.adoptDay rows bound ids)
      (fun _ x => FromRows x.journal ∧ dayIds (statesOf x.journal) d = dayIds (statesOf w.journal) d) w := by
  let same : World → Prop := fun x => FromRows x.journal ∧ dayIds (statesOf x.journal) d = dayIds (statesOf w.journal) d
  have hstep : ∀ op x (r : Answer op) y, reconciles op → same x → under R op x r y → same y := by
    rintro op x r y hop ⟨hrows, hday⟩ ⟨hE, -⟩
    cases op with
    | append k id p run =>
      obtain ⟨ts, -, hr, rfl⟩ := hE
      cases r with
      | error e => exact ⟨hrows, hday⟩
      | ok e =>
        obtain ⟨-, rfl⟩ := append_eq_ok.1 hr.symm
        exact ⟨hrows.wrote hop.2, (dayIds_snoc hop.1).trans hday⟩
    | submitOrder i =>
      obtain ⟨hd, rfl⟩ := hE
      exact ⟨hrows, hday⟩
    | journal | isHalted | sendsMade =>
      obtain ⟨-, rfl⟩ := hE
      exact ⟨hrows, hday⟩
    | now | countSend =>
      cases hE
      exact ⟨hrows, hday⟩
    | _ =>
      obtain ⟨hd, rfl⟩ := hE
      exact ⟨hrows, hday⟩
  exact Prog.wpx_mono (Prog.wpx_of_calls hstep (calls_adopts bound ids) ⟨hj, rfl⟩) (fun _ _ _ => trivial)
    (fun o x hx => ⟨trivial, fun _ _ => hx⟩)

/-- Equal records of fills close an order alike. -/
theorem final_of_dictEq {o o' : BrokerOrder} {b b' : Bool} (h : Dict.eq (brokerStatePayload o b) (brokerStatePayload o' b') = true) :
    b = b' := by
  obtain ⟨-, hall⟩ := Bool.and_eq_true_iff.1 h
  have hlast := List.all_eq_true.1 hall ("final", .bool b) (by simp [brokerStatePayload])
  have hlook : (brokerStatePayload o' b').lookup "final" = some (.bool b') := rfl
  rw [hlook, Option.any_some] at hlast
  cases b <;> cases b' <;> first | rfl | cases hlast

/-- The last fills of an intent that is open did not close it. -/
theorem lastFill_open (hj : FromRows j) {p : Payload} (hp : lastFill j id = some p) (hopen : (view j id).status.2 = false) :
    ∃ o, p = brokerStatePayload o false := by
  obtain ⟨e, he, rfl⟩ := Option.map_eq_some_iff.1 hp
  obtain ⟨hmem, hk⟩ := mem_ofKind.1 (List.mem_of_getLast? he)
  have hid := List.mem_filter.1 hmem
  obtain ⟨o, final, hpay⟩ := hj e hid.1 hk
  cases final with
  | false => exact ⟨o, hpay⟩
  | true =>
    have hstate : isFinalState e = true := by
      rw [isFinalState, hk, hpay]
      rfl
    have hclosed : (view j id).finalPayload.isSome = true := by
      rw [view, viewOf_finalPayload, Option.isSome_map, List.getLast?_isSome]
      exact List.ne_nil_of_mem (List.mem_filter.2 ⟨hmem, hstate⟩)
    rw [(View.status_of_final hclosed).1] at hopen
    cases hopen

/-- An intent the fill pass leaves alone is marked. -/
theorem marked_of_keep (hj : FromRows j) (h : fillOn rows finalize (view j id) (lastFill j id) = .keep) :
    Marked rows finalize (view j id) := by
  intro no o hno hopen hrow
  unfold fillOn at h
  rw [hno] at h
  simp only [hopen, Bool.false_eq_true, if_false, hrow] at h
  split_ifs at h with hprior
  · obtain ⟨p, hp, heq⟩ := (Option.any_eq_true _ _).1 hprior
    obtain ⟨o', rfl⟩ := lastFill_open hj hp hopen
    exact (final_of_dictEq heq).symm
  · unfold recordFills at h
    split at h <;> cases h

/-- An intent the fill pass records fills of is marked. -/
theorem marked_of_record {v : View} {last : Option Payload} {p : Payload} (h : fillOn rows finalize v last = .record p)
    (hk : e.kind = .brokerState) (hp : e.payload = p) : Marked rows finalize (v.push e) := by
  obtain ⟨-, no, found, hno, hfound, rfl, -⟩ := fillOn_record h
  have hnumbers : (v.push e).numbers = v.numbers :=
    View.push_numbers (View.binds_false (by simp [hk]) (by simp [hk]) (by simp [hk]))
  intro no' o hno' hopen hrow
  rw [hnumbers, hno] at hno'
  cases hno'
  rw [hfound] at hrow
  cases hrow
  by_contra hfinal
  have hstate : isFinalState e = true := by
    rw [Bool.not_eq_false] at hfinal
    rw [isFinalState, hk, hp, hfinal]
    rfl
  have hclosed : (v.push e).finalPayload.isSome = true := by simp [View.push, hstate]
  rw [(View.status_of_final hclosed).1] at hopen
  cases hopen

/-- **The fill pass marks the intents it goes over**, where it finds no contradiction. -/
theorem keeps_fillDay (hs : Sound j) (hj : FromRows j) : ∀ {ids : List String} {w : World}, ids.Nodup →
    (∀ id ∈ ids, id ∈ idsOf j ∧ view w.journal id = view j id) →
      keeps (under R) (fun _ => True) (g.fillDay rows finalize (statesOf j) j ids)
        (fun bad x => (bad = [] → ∀ id ∈ ids, Marked rows finalize (view x.journal id)) ∧
          (∀ k, k ∉ ids → view x.journal k = view w.journal k) ∧
          dayIds (statesOf x.journal) d = dayIds (statesOf w.journal) d) w
  | [], _, _, _ => Prog.keeps_ret trivial ⟨fun _ _ hm => (nomatch hm), fun _ _ => rfl, rfl⟩
  | id :: ids, w, hnd, hv => by
    obtain ⟨hid, hview⟩ := hv id List.mem_cons_self
    obtain ⟨hnot, hnd'⟩ := List.nodup_cons.1 hnd
    have hv' := fun k (hk : k ∈ ids) => hv k (List.mem_cons_of_mem _ hk)
    have hrest := @keeps_fillDay hs hj ids w hnd' hv'
    rw [OrderGateway.fillDay, statesOf_lookup, if_pos hid]
    dsimp only
    rw [fillStep_eq hs hid]
    cases hfill : fillOn rows finalize (view j id) (lastFill j id) with
    | keep =>
      refine Prog.keeps_mono hrest (fun bad x _ hx => ?_)
      obtain ⟨hmarked, hothers, hday⟩ := hx
      refine ⟨fun hbad k hk => ?_, fun k hk => hothers k (fun hm => hk (List.mem_cons_of_mem _ hm)), hday⟩
      rcases List.mem_cons.1 hk with rfl | hk
      · rw [hothers _ hnot, hview]
        exact marked_of_keep hj hfill
      · exact hmarked hbad k hk
    | contradicts =>
      refine Prog.keeps_bind hrest (fun bad x _ hx => Prog.keeps_ret trivial ⟨fun hbad => ?_, fun k hk => ?_, hx.2.2⟩)
      · cases hbad
      · exact hx.2.1 k (fun hm => hk (List.mem_cons_of_mem _ hm))
    | record p =>
      rintro r w' ⟨⟨ts, -, hr, rfl⟩, -⟩
      cases r with
      | error e => exact ⟨trivial, Prog.keeps_raise trivial⟩
      | ok e =>
        obtain ⟨-, he⟩ := append_eq_ok.1 hr.symm
        have hk : e.kind = .brokerState := by rw [he]
        have heid : e.intentId = id := by rw [he]
        have hp : e.payload = p := by rw [he]
        have hsame : ∀ k ∈ ids, view (w.wrote e).journal k = view w.journal k := fun k hm =>
          view_snoc_of_ne (fun heq => hnot (heid ▸ heq ▸ hm))
        have hafter := @keeps_fillDay hs hj ids (w.wrote e) hnd' (fun k hm => ⟨(hv' k hm).1, (hsame k hm).trans (hv' k hm).2⟩)
        refine ⟨trivial, Prog.keeps_mono hafter (fun bad x _ hx => ?_)⟩
        obtain ⟨hmarked, hothers, hday⟩ := hx
        refine ⟨fun hbad k hm => ?_, fun k hm => ?_, hday.trans (dayIds_snoc (by simp [hk]))⟩
        · rcases List.mem_cons.1 hm with rfl | hm
          · rw [hothers _ hnot, World.wrote_journal, view_snoc, if_pos heid, hview]
            exact marked_of_record hfill hk hp
          · exact hmarked hbad k hm
        · rw [hothers k (fun hm' => hm (List.mem_cons_of_mem _ hm')), World.wrote_journal, view_snoc_of_ne]
          rintro rfl
          exact hm (heid ▸ List.mem_cons_self)

/-- **A pass that returns** has marked every order of the day, and reports on the journal it leaves. -/
theorem keeps_reconcile (hj : FromRows w.journal) : keeps (under R) (fun _ => True) (g.reconcile d finalize)
    (fun report x => Reconciled R d finalize report x) w := by
  rintro r w₁ ⟨⟨hd, rfl⟩, -⟩
  refine ⟨trivial, ?_⟩
  cases r with
  | error e => exact Prog.keeps_raise trivial
  | ok rows =>
    simp only [Prog.ret_bind]
    refine Prog.keeps_bind (keeps_readStates trivial) (fun sts w₂ _ h₂ => ?_)
    obtain ⟨rfl, hsts⟩ := h₂
    obtain ⟨-, rfl⟩ := states_eq_ok.1 hsts
    refine Prog.keeps_bind (keeps_adoptDay (d := d) _ _ hj) (fun _ w₃ _ h₃ => ?_)
    obtain ⟨hrows, hday⟩ := h₃
    refine Prog.keeps_bind (keeps_readStates trivial) (fun sts w₄ _ h₄ => ?_)
    obtain ⟨rfl, hsts⟩ := h₄
    obtain ⟨hsound, rfl⟩ := states_eq_ok.1 hsts
    refine Prog.keeps_bind (keeps_load trivial) (fun events w₅ _ h₅ => ?_)
    obtain ⟨rfl, rfl⟩ := h₅
    rw [← hday]
    have hknown : ∀ id ∈ dayIds (statesOf w₅.journal) d, id ∈ idsOf w₅.journal ∧ view w₅.journal id = view w₅.journal id :=
      fun id hid => ⟨(mem_dayIds hid).1, rfl⟩
    refine Prog.keeps_bind (keeps_fillDay (d := d) hsound hrows (dayIds_nodup _ _) hknown) (fun bad w₆ _ h₆ => ?_)
    obtain ⟨hmarked, -, hsame⟩ := h₆
    split_ifs with hbad
    · refine Prog.keeps_bind (keeps_readStates trivial) (fun sts w₇ _ h₇ => ?_)
      obtain ⟨rfl, -⟩ := h₇
      rintro r w₈ ⟨⟨hd', rfl⟩, hread⟩
      refine ⟨trivial, ?_⟩
      cases r with
      | error e => exact Prog.keeps_raise trivial
      | ok positions =>
        simp only [Prog.ret_bind]
        refine Prog.keeps_bind (keeps_readLots trivial) (fun lots w₉ _ h₉ => ?_)
        obtain ⟨rfl, hlots⟩ := h₉
        refine Prog.keeps_bind (keeps_readStates trivial) (fun sts w₁₀ _ h₁₀ => ?_)
        obtain ⟨rfl, hsts⟩ := h₁₀
        obtain ⟨-, rfl⟩ := states_eq_ok.1 hsts
        refine Prog.keeps_ret trivial (.mk rows positions lots _ ⟨_, hread⟩ hlots (by rw [← hsame]) (fun id hid => ?_))
        exact hmarked (List.isEmpty_iff.1 hbad) id (hsame ▸ hid)
    · exact Prog.keeps_raise trivial

end pass

/-! ## What a pass reports -/

section reported

variable {R : Rules} {d : String} {finalize : Bool} {report : ReconcileReport} {w x : World} {id : String} {i : OrderIntent}

theorem Reconciled.none_unknown (h : Reconciled R d finalize report x) (h0 : report.nUnknownUnresolvedTotal = 0)
    (hi : (view x.journal id).intent = some i) : (stateOf x.journal id).status ≠ .unknown := by
  obtain ⟨rows, positions, lots, foreign, -, -, rfl, -⟩ := h
  intro hst
  have hnil := List.filter_eq_nil_iff.1 (List.length_eq_zero_iff.1 h0)
  refine hnil (id, stateOf x.journal id) (List.mem_map.2 ⟨id, mem_idsOf_of_intent hi, rfl⟩) ?_
  have hsome : (stateOf x.journal id).intent = some i := hi
  simp [hsome, hst]

/-- The positions of a broker cover lots, each symbol's together. -/
def Covers (positions : List BrokerPosition) (lots : List OpenLot) : Prop :=
  ∀ l ∈ lots, ((lots.filter (·.symbol == l.symbol)).map (·.qty)).sum ≤ holdingOf positions l.symbol

theorem covers_of_shortfalls {positions : List BrokerPosition} {lots : List OpenLot} (h : shortfalls lots positions = []) :
    Covers positions lots := by
  intro l hl
  by_contra hlt
  have hsum : ((lots.map (fun l => (l.symbol, l.qty))).filter (·.1 == l.symbol)).map (·.2) =
      (lots.filter (·.symbol == l.symbol)).map (·.qty) := by
    rw [List.filter_map, List.map_map]
    rfl
  have hkey : (l.symbol, ((lots.filter (·.symbol == l.symbol)).map (·.qty)).sum) ∈
      sumByKey (lots.map (fun l => (l.symbol, l.qty))) := by
    refine List.mem_map.2 ⟨l.symbol, ?_, by rw [hsum]⟩
    rw [List.mem_insertionSort, List.mem_dedup, List.map_map]
    exact List.mem_map.2 ⟨l, hl, rfl⟩
  have hnone := List.filterMap_eq_nil_iff.1 h _ hkey
  simp only [if_pos (not_le.1 hlt)] at hnone
  cases hnone

/-- **After a pass that finalizes, an order of the day that is not final is missing at the broker.** -/
theorem Reconciled.closed (h : Reconciled R d true report x) (h0 : report.nMissingAtBroker = 0)
    (hi : (view x.journal id).intent = some i) (hd : i.tradingDate = d) {no : String}
    (hno : (view x.journal id).numbers.1 = some no) (hne : normalizeOrderNo no ≠ "") :
    (stateOf x.journal id).final = true := by
  obtain ⟨rows, positions, lots, foreign, -, -, rfl, hmarked⟩ := h
  have hid := mem_idsOf_of_intent hi
  have hday : id ∈ dayIds (statesOf x.journal) d := by
    rw [dayIds_eq, List.mem_filter]
    exact ⟨hid, by simp [hi, hd]⟩
  by_contra hopen
  have hfinal : (view x.journal id).status.2 = false := Bool.eq_false_iff.2 hopen
  have hnil := List.filter_eq_nil_iff.1 (List.length_eq_zero_iff.1 h0)
  have hlookup : (statesOf x.journal).lookup id = some (stateOf x.journal id) := by rw [statesOf_lookup, if_pos hid]
  have hnot := hnil _ (List.mem_filterMap.2 ⟨id, hday, hlookup⟩)
  have hnumber : (stateOf x.journal id).brokerOrderNo = some no := hno
  have hstate : (stateOf x.journal id).final = false := hfinal
  have htext : (no != "") = true := by
    rw [bne_iff_ne]
    rintro rfl
    exact hne rfl
  simp only [isMissing, hnumber, hstate, htext, Option.any_some, Bool.true_and, Bool.not_false, Bool.not_eq_true',
    Bool.not_eq_false] at hnot
  obtain ⟨o, ho, heq⟩ := List.mem_map.1 (List.contains_iff_mem.1 hnot)
  -- a row of the list has its number, and a pass that finalizes ends it by that row
  have hfound : (findRow rows no).isSome = true := by
    rw [findRow, List.find?_isSome]
    exact ⟨o, ho, by simp [heq, hne]⟩
  obtain ⟨found, hfound⟩ := Option.isSome_iff_exists.1 hfound
  have hrow := hmarked id hday no found hno hfinal hfound
  simp [isFinalRow] at hrow

end reported

/-! ## The passes of a run -/

section passing

variable {R : Rules} {g : OrderGateway} {d env : String} {scope : OrderPhase} {clock : ReconcileClock} {backdated past finalize : Bool}
  {p q : Passes} {w x w₁ w₂ : World} {r : Nat × Option ReconcileReport}

theorem pass_ends (hw : FreeSession World.empty w) (h : Ends (under R) (g.reconcilePass d finalize) w (.ok r) x) :
    Tended w x ∧ ∀ report, r.2 = some report → Reconciled R d finalize report x := by
  have hany : ∀ op (y : World) (a : Answer op) z, under R op y a z → under anything op y a z := fun _ _ _ _ hE => ⟨hE.1, trivial⟩
  have hadopt : Tends (do
      let token ← ensureToken
      Prog.ofExcept token
      g.resolveCarryover d : Gw Nat) :=
    tends_ensureToken.bind (fun token => (tends_ofExcept token).bind (fun _ => tends_resolveCarryover d))
  obtain ⟨o, y, hcarry, hrest⟩ := h.of_bind
  have hy : Tended w y := Prog.keeps_reach (hadopt w w .refl) .refl (hcarry.of_attempt.reach.mono hany)
  cases o with
  | error e =>
    cases e <;> cases hrest
    exact ⟨hy, fun report hr => by cases hr⟩
  | ok n =>
    obtain ⟨o, z, hpass, hrest⟩ := hrest.of_bind
    have hends := hpass.of_attempt
    have hz : Tended y z := Prog.keeps_reach (tends_reconcile d finalize y y .refl) .refl (hends.reach.mono hany)
    cases o with
    | error e =>
      cases e <;> cases hrest
      exact ⟨hy.trans hz, fun report hr => by cases hr⟩
    | ok report =>
      cases hrest
      refine ⟨hy.trans hz, fun report' hr => ?_⟩
      cases hr
      have hrows := session_fromRows (hw.trans hy.free)
      exact (Prog.wpx_ends (keeps_reconcile hrows) hends).2 report rfl

/-- **The report of a run is the report of its last pass.** -/
theorem Passing.reported (hw : FreeSession World.empty w) (h : Passing R g d scope clock backdated p w q past w₁ w₂) :
    FreeSession World.empty w₁ ∧ FreeSession w₁ w₂ ∧ stops (states w₂.journal) d scope q past = .ok true ∧
      (q.lastFailed = false → ∃ report, q.lastReport = some report ∧ Reconciled R d (finalizes scope backdated past) report w₁) := by
  induction h with
  | @last p w w₁ w₂ now halted past r hpast hpass hothers hstops =>
    have henter := hw.trans (tended_enter w 0 halted).free
    obtain ⟨htended, hreport⟩ := pass_ends henter hpass
    refine ⟨henter.trans htended.free, hothers, hstops, fun hread => ?_⟩
    obtain ⟨n, o⟩ := r
    cases o with
    | none => cases hread
    | some report => exact ⟨report, rfl, hreport report rfl⟩
  | @more p q w w' w'' w₁ w₂ now halted past earlier r hearlier hpass hothers hstops hrest ih =>
    have henter := hw.trans (tended_enter w 0 halted).free
    exact ih ((henter.trans (pass_ends henter hpass).1.free).trans hothers)

theorem mem_relevant {j : Journal} {id : String} {i : OrderIntent} (hi : (view j id).intent = some i) (hphase : i.phase = scope)
    (hd : i.tradingDate = d) : stateOf j id ∈ relevant (statesOf j) d scope := by
  have hsome : (stateOf j id).intent = some i := hi
  refine List.mem_filter.2 ⟨List.mem_map.2 ⟨_, List.mem_map.2 ⟨id, mem_idsOf_of_intent hi, rfl⟩, rfl⟩, ?_⟩
  simp [ofScope, hsome, hphase, hd]

/-- The passes of a run that ends before its deadline left every order of the phase final. -/
theorem final_of_stops {j : Journal} (h : stops (states j) d scope q false = .ok true) {id : String} {i : OrderIntent}
    (hi : (view j id).intent = some i) (hphase : i.phase = scope) (hd : i.tradingDate = d) : (stateOf j id).final = true := by
  unfold stops at h
  split_ifs at h
  · cases h
  · obtain ⟨sts, hsts, h⟩ := (Exc.bind_eq_ok _ _ _).1 h
    obtain ⟨-, rfl⟩ := states_eq_ok.1 hsts
    have hall : allFinal (statesOf j) d scope = true := by
      simpa only [Bool.or_false, Exc.pure_eq_ok] using h
    have hmem := mem_relevant hi hphase hd
    unfold allFinal at hall
    rw [if_neg (by rw [List.isEmpty_iff]; exact List.ne_nil_of_mem hmem)] at hall
    exact List.all_eq_true.1 hall _ hmem

/-- The states a report of OK was made of. -/
theorem complete_of_ok {sts : Dict IntentState} (hok : (reconcileReport d env scope q sts).outcome = "OK") :
    q.lastFailed = false ∧ ∃ report, q.lastReport = some report ∧ isComplete (relevant sts d scope) report = true := by
  unfold reconcileReport at hok
  split at hok
  · rename_i report hread hlast
    refine ⟨hread, report, hlast, ?_⟩
    by_contra hnot
    simp [hnot] at hok
  · simp [earlyReconcile] at hok

/-- **A reconcile report of OK is true.**  Whatever any sessions do before it and between its passes, where a run reports OK
every intent of its phase and date has filled in full and is final, no intent of any date was UNKNOWN after its last pass,
and the positions the broker then reported cover the open lots of the journal. -/
theorem reconcile_ok_means_filled (hw : FreeSession World.empty w)
    (h : Passing R g d scope clock backdated .start w q past w₁ w₂)
    (hok : (reconcileReport d env scope q (statesOf w₂.journal)).outcome = "OK") :
    (∀ id i, (view w₂.journal id).intent = some i → i.phase = scope → i.tradingDate = d →
      (stateOf w₂.journal id).status = .filled ∧ (stateOf w₂.journal id).final = true ∧
        (stateOf w₂.journal id).filledQty = i.qty) ∧
    (∀ id i, (view w₁.journal id).intent = some i → (stateOf w₁.journal id).status ≠ .unknown) ∧
    ∃ positions lots, (∃ y, R .fetchPositions y (.ok positions)) ∧ openLots w₁.journal = .ok lots ∧ Covers positions lots := by
  obtain ⟨hfirst, hothers, -, hreport⟩ := h.reported hw
  obtain ⟨hread, report, hlast, hcomplete⟩ := complete_of_ok hok
  obtain ⟨report', hlast', hrec⟩ := hreport hread
  rw [hlast] at hlast'
  cases hlast'
  simp only [isComplete, Bool.and_eq_true, beq_iff_eq, List.isEmpty_iff] at hcomplete
  obtain ⟨⟨⟨⟨hfilled, -⟩, -⟩, hshort⟩, hunknown⟩ := hcomplete
  refine ⟨fun id i hi hphase hd => ?_, fun id i hi => hrec.none_unknown hunknown hi, ?_⟩
  · have hst : (stateOf w₂.journal id).status = .filled :=
      beq_iff_eq.1 (List.all_eq_true.1 hfilled _ (mem_relevant hi hphase hd))
    exact ⟨hst, filled_in_full (hfirst.trans hothers) hi hst⟩
  · obtain ⟨rows, positions, lots, foreign, hpos, hlots, rfl, -⟩ := hrec
    exact ⟨positions, lots, hpos, hlots, covers_of_shortfalls hshort⟩

/-- **What a run leaves working is missing at the broker.**  Where the last pass of a run could read the broker and missed no
order, every order it saw that has a number is final when the run ends: those of its phase where it ended before its
deadline, and those of the whole day where its last pass finalized. -/
theorem reconcile_leaves_none_working (hw : FreeSession World.empty w)
    (h : Passing R g d scope clock backdated .start w q past w₁ w₂) (hread : q.lastFailed = false) :
    ∃ report, q.lastReport = some report ∧ (report.nMissingAtBroker = 0 → ∀ id i no,
      (view w₁.journal id).intent = some i → i.tradingDate = d → (view w₁.journal id).numbers.1 = some no →
        normalizeOrderNo no ≠ "" → (i.phase = scope ∧ past = false ∨ finalizes scope backdated past = true) →
          (stateOf w₂.journal id).final = true) := by
  obtain ⟨hfirst, hothers, hstops, hreport⟩ := h.reported hw
  obtain ⟨report, hlast, hrec⟩ := hreport hread
  refine ⟨report, hlast, fun hmissing id i no hi hd hno hne hended => ?_⟩
  have htimely := session_timely hfirst
  rcases hended with ⟨hphase, rfl⟩ | hfinalizes
  · have hsame : (view w₂.journal id).intent = some i := (session_intent htimely hothers (mem_idsOf_of_intent hi)).trans hi
    exact final_of_stops hstops hsame hphase hd
  · rw [hfinalizes] at hrec
    have hclosed : (view w₁.journal id).status.2 = true := hrec.closed hmissing hi hd hno hne
    have hview := (session_later htimely hothers id).closed hclosed
    rw [stateOf, hview]
    exact hclosed

end passing

namespace Sample

/-- The answers of an oracle alone. -/
def answersOf (o : Oracle) : Rules := fun op w r => r = (o.answer op w).1

/-- The buy is accepted as order 1, and the broker fills it. -/
def acceptedBuy : World := ordered (broker (fun _ => verdict .accepted (some "1")) (fun _ => false)) samsung

def filling : Oracle := Oracle.fixed (fun _ => [row "1" samsung 10]) [⟨"005930", 10, 10⟩]

def closingClock : ReconcileClock :=
  { dateOf := fun _ => "2025-01-02", hhmmss := fun _ => "154000", earliest := 0, maxPrestartWait := 0, seconds := Py.PyFloat.ofInt }

/-- The pass at the deadline of the entries. -/
def closing : Except OrderError (Nat × Option ReconcileReport) × World :=
  filling.run (gateway.reconcilePass "2025-01-02" true) (acceptedBuy.enter 0 false)

def closingReport : ReconcileReport :=
  { tradingDate := "2025-01-02", nIntents := 1, nFilled := 1, nPartial := 0, nUnfilled := 0, nWorking := 0, nUnknown := 0,
    nMissingAtBroker := 0, nForeignOrders := 0, positionShortfalls := [], filledAmountKrw := 600000,
    nUnknownUnresolvedTotal := 0, unknownExposures := [] }

theorem passing_closing : Passing (answersOf filling) gateway "2025-01-02" .entry closingClock false .start acceptedBuy
    ⟨some closingReport, false, 0⟩ true closing.2 closing.2 := by
  have hends : Ends (under (answersOf filling)) (gateway.reconcilePass "2025-01-02" true) (acceptedBuy.enter 0 false)
      closing.1 closing.2 := Prog.run_ends (fun op w => ⟨filling.effect op w, rfl⟩) _ _
  have hreport : closing.1 = .ok (0, some closingReport) := by decide +kernel
  rw [hreport] at hends
  have hpast : true = pastDeadline closingClock .entry false 0 := by decide +kernel
  exact .last (p := Passes.start) (r := (0, some closingReport)) hpast hends .refl (by decide +kernel)

theorem session_acceptedBuy : FreeSession World.empty acceptedBuy := session_ordered _ _

end Sample

/-- The bought shares have all filled, and the account covers them. -/
theorem reconcile_ok_means_filled_closing : (stateOf Sample.closing.2.journal Sample.samsung.intentId).filledQty = 10 ∧
    ∃ lots, openLots Sample.closing.2.journal = .ok lots ∧ Covers [⟨"005930", 10, 10⟩] lots := by
  have hi : (view Sample.closing.2.journal Sample.samsung.intentId).intent = some Sample.samsung := by decide +kernel
  have hok : (reconcileReport "2025-01-02" "mock" .entry ⟨some Sample.closingReport, false, 0⟩
      (statesOf Sample.closing.2.journal)).outcome = "OK" := by decide +kernel
  obtain ⟨hfilled, -, positions, lots, ⟨y, hpos⟩, hlots, hcovers⟩ := reconcile_ok_means_filled Sample.session_acceptedBuy
    Sample.passing_closing hok
  cases hpos
  exact ⟨(hfilled _ _ hi rfl rfl).2.2, lots, hlots, hcovers⟩

/-- Nothing is left working. -/
theorem reconcile_leaves_none_working_closing :
    (stateOf Sample.closing.2.journal Sample.samsung.intentId).final = true := by
  have hi : (view Sample.closing.2.journal Sample.samsung.intentId).intent = some Sample.samsung := by decide +kernel
  obtain ⟨report, hreport, hclosed⟩ := reconcile_leaves_none_working Sample.session_acceptedBuy Sample.passing_closing rfl
  cases hreport
  exact hclosed rfl _ _ "1" hi rfl (by decide +kernel) (by decide +kernel) (.inr rfl)

end Order
