import KClosingAlpha.Lib.Threads
import KClosingAlpha.Order.Resolve
/-!
# Quiet — which calls an operation may make

Everything but a plan appends no INTENT, and only an attempt makes a POST.  The pieces of the operations are the ones
of `plain`, which is neither.
-/
namespace Order

/-- A call that appends no INTENT. -/
def plansNothing : GatewayOp → Prop
  | .append k _ _ _ => k ≠ .intent
  | _ => True

/-- A call that neither appends an INTENT, nor makes a POST, nor counts one. -/
def plain : GatewayOp → Prop
  | .append k _ _ _ => k ≠ .intent
  | .submitOrder _ | .countSend => False
  | _ => True

theorem plansNothing_of_plain (op : GatewayOp) (h : plain op) : plansNothing op := by
  cases op with
  | append k id p run => exact h
  | _ => trivial

section calls

variable {g : OrderGateway}

/-! ## Pieces -/

theorem calls_readStates : readStates.Calls plain := ⟨trivial, fun j => Prog.calls_ofExcept (states j)⟩

theorem calls_loadEvents : loadEvents.Calls plain := ⟨trivial, fun j => Prog.calls_ofExcept (load j)⟩

theorem calls_readLots : readLots.Calls plain := ⟨trivial, fun j => Prog.calls_ofExcept (openLots j)⟩

theorem calls_stateAt (id : String) : (stateAt id).Calls plain := by
  refine calls_readStates.bind (fun sts => ?_)
  split <;> trivial

theorem calls_writeAs (run : String) {k : JournalEventKind} (hk : k ≠ .intent) (id : String) (p : Payload) :
    (writeAs run k id p).Calls plain :=
  ⟨hk, fun r => Prog.calls_ofExcept (r.map (fun _ => ()))⟩

theorem calls_refuse (id : String) (i : OrderIntent) (reason : String) : (g.refuse id i reason).Calls plain :=
  (calls_writeAs _ (by decide) _ _).bind (fun _ => calls_stateAt id)

theorem calls_readBaseline (d : String) : (OrderGateway.readBaseline d).Calls plain := by
  refine ⟨trivial, fun r => ?_⟩
  cases r <;> trivial

theorem calls_wasNotFound (id : String) : (OrderGateway.wasNotFound id).Calls plain :=
  calls_loadEvents.bind (fun _ => trivial)

theorem calls_poll (i : OrderIntent) (bound : List String) : ∀ n, (g.poll i bound n).Calls plain
  | 0 => trivial
  | n + 1 => by
    refine ⟨trivial, fun r => ?_⟩
    cases r with
    | error e => trivial
    | ok rows =>
      refine (calls_stateAt _).bind (fun st => ?_)
      split
      · exact (calls_writeAs _ (by decide) _ _).bind (fun _ => trivial)
      · split_ifs
        · exact calls_poll i bound n
        · exact ⟨trivial, fun _ => calls_poll i bound n⟩
      · exact (calls_writeAs _ (by decide) _ _).bind (fun _ => trivial)

/-! ## Operations -/

theorem calls_sendOnce (id : String) (i : OrderIntent) (b : Option (List String)) :
    (g.sendOnce id i b).Calls plansNothing := by
  refine ((calls_stateAt id).mono plansNothing_of_plain).bind (fun st => ?_)
  refine ((calls_writeAs _ (by decide) _ _).mono plansNothing_of_plain).bind (fun _ => ⟨trivial, fun r => ⟨trivial, fun _ => ?_⟩⟩)
  exact ((calls_writeAs _ (by decide) _ _).mono plansNothing_of_plain).bind (fun _ => trivial)

theorem calls_resendExit (i : OrderIntent) (deadline : Int) (after : IntentState) :
    (g.resendExit i deadline after).Calls plansNothing := by
  refine ⟨trivial, fun halted => ?_⟩
  cases halted with
  | true => trivial
  | false =>
    refine ⟨trivial, fun r => ?_⟩
    cases r with
    | error e => trivial
    | ok positions =>
      have hstate := (calls_stateAt i.intentId).mono plansNothing_of_plain
      refine Prog.Calls.ite hstate ⟨trivial, fun t => ?_⟩
      exact Prog.Calls.ite ((calls_sendOnce _ _ _).bind (fun _ => hstate)) hstate

theorem calls_resolveUnknown (i : OrderIntent) (deadline : Int) : (g.resolveUnknown i deadline).Calls plansNothing := by
  have hstate := (calls_stateAt i.intentId).mono plansNothing_of_plain
  refine (calls_readStates.mono plansNothing_of_plain).bind (fun sts => Prog.Calls.ite ?_ ?_)
  · split <;> trivial
  · refine ((calls_poll _ _ _).mono plansNothing_of_plain).bind (fun polled => ?_)
    cases polled with
    | settled => exact hstate
    | unreadable => exact hstate
    | absent =>
      refine ((calls_writeAs _ (by decide) _ _).mono plansNothing_of_plain).bind (fun _ => hstate.bind (fun after => ?_))
      exact Prog.Calls.ite (calls_resendExit _ _ _) hstate

theorem calls_sendLoop (id : String) (i : OrderIntent) (deadline : Int) :
    ∀ (b : Option (List String)) (n : Nat), (g.sendLoop id i deadline b n).Calls plansNothing
  | _, 0 => (calls_stateAt id).mono plansNothing_of_plain
  | b, n + 1 => by
    have hstate := (calls_stateAt id).mono plansNothing_of_plain
    refine ⟨trivial, fun t => Prog.Calls.ite (hstate.bind (fun fresh => ?_)) ((calls_sendOnce _ _ _).bind (fun result => ?_))⟩
    · exact Prog.Calls.ite ((calls_refuse _ _ _).mono plansNothing_of_plain) trivial
    · refine Prog.Calls.ite hstate (Prog.Calls.ite (calls_sendLoop id i deadline none n) ?_)
      refine ((calls_wasNotFound id).mono plansNothing_of_plain).bind (fun found => ?_)
      exact Prog.Calls.ite hstate (calls_resolveUnknown i deadline)

theorem calls_riskRefusal (i : OrderIntent) : (g.riskRefusal i).Calls plain := by
  have hcap : g.runCapRefusal.Calls plain := ⟨trivial, fun _ => trivial⟩
  unfold OrderGateway.riskRefusal
  cases i.side with
  | buy =>
    refine Prog.Calls.ite trivial (calls_readStates.bind (fun sts => ?_))
    exact Prog.Calls.ite trivial hcap
  | sell =>
    refine calls_readLots.bind (fun lots => ?_)
    exact Prog.Calls.ite trivial hcap

theorem calls_submit (id : String) (deadline : Int) : (g.submit id deadline).Calls plansNothing := by
  refine (calls_readStates.mono plansNothing_of_plain).bind (fun sts => ?_)
  split
  · trivial
  · refine Prog.Calls.ite trivial ?_
    split
    · trivial
    · refine ⟨trivial, fun halted => Prog.Calls.ite ((calls_refuse _ _ _).mono plansNothing_of_plain) ?_⟩
      refine Prog.Calls.ite ?_ (calls_sendLoop _ _ _ _ _)
      refine ((calls_riskRefusal _).mono plansNothing_of_plain).bind (fun refusal => ?_)
      cases refusal with
      | some reason => exact (calls_refuse _ _ _).mono plansNothing_of_plain
      | none =>
        refine ((calls_readBaseline _).mono plansNothing_of_plain).bind (fun b => ⟨trivial, fun halted => ?_⟩)
        exact Prog.Calls.ite ((calls_refuse _ _ _).mono plansNothing_of_plain) (calls_sendLoop _ _ _ _ _)

theorem calls_adoptDay (rows : List BrokerOrder) : ∀ (bound ids : List String), (g.adoptDay rows bound ids).Calls plain
  | _, [] => trivial
  | bound, id :: ids => by
    refine (calls_stateAt id).bind (fun st => ?_)
    split
    · split
      · exact calls_adoptDay rows bound ids
      · exact (calls_writeAs _ (by decide) _ _).bind (fun _ => calls_adoptDay rows _ ids)
      · exact (calls_writeAs _ (by decide) _ _).bind (fun _ => calls_adoptDay rows bound ids)
    · exact calls_adoptDay rows bound ids

theorem calls_fillDay (rows : List BrokerOrder) (finalize : Bool) (sts : Py.Dict IntentState) (events : List JournalEvent) :
    ∀ ids : List String, (g.fillDay rows finalize sts events ids).Calls plain
  | [] => trivial
  | id :: ids => by
    rw [OrderGateway.fillDay]
    split
    · trivial
    · split
      · exact calls_fillDay rows finalize sts events ids
      · exact (calls_fillDay rows finalize sts events ids).bind (fun _ => trivial)
      · exact (calls_writeAs _ (by decide) _ _).bind (fun _ => calls_fillDay rows finalize sts events ids)

theorem calls_reconcile (d : String) (finalize : Bool) : (g.reconcile d finalize).Calls plain := by
  refine ⟨trivial, fun r => ?_⟩
  cases r with
  | error e => trivial
  | ok rows =>
    refine calls_readStates.bind (fun sts => (calls_adoptDay _ _ _).bind (fun _ => calls_readStates.bind (fun sts => ?_)))
    refine calls_loadEvents.bind (fun events => (calls_fillDay _ _ _ _ _).bind (fun bad => Prog.Calls.ite ?_ trivial))
    refine calls_readStates.bind (fun sts => ⟨trivial, fun r => ?_⟩)
    cases r with
    | error e => trivial
    | ok positions => exact calls_readLots.bind (fun lots => calls_readStates.bind (fun _ => trivial))

theorem calls_carryIntents (rows : List BrokerOrder) : ∀ (c : OrderGateway.Carry) (ts : List OrderGateway.Target),
    (g.carryIntents rows c ts).Calls plain
  | _, [] => trivial
  | c, t :: ts => by
    rw [OrderGateway.carryIntents]
    split
    · exact calls_carryIntents rows c ts
    · exact (calls_writeAs _ (by decide) _ _).bind (fun _ => calls_carryIntents rows _ ts)
    · exact Prog.Calls.ite (calls_carryIntents rows c ts)
        ((calls_writeAs _ (by decide) _ _).bind (fun _ => calls_carryIntents rows _ ts))

theorem calls_carryDates (targets : List OrderGateway.Target) : ∀ (c : OrderGateway.Carry) (ds : List String),
    (g.carryDates targets c ds).Calls plain
  | _, [] => trivial
  | c, d :: ds => by
    refine ⟨trivial, fun r => ?_⟩
    simp only [Prog.ret_bind]
    split
    · exact calls_carryDates targets c ds
    · trivial
    · exact (calls_carryIntents _ _ _).bind (fun c => calls_carryDates targets c ds)

theorem calls_carryFills (events : List JournalEvent) : ∀ adopted : List (String × BrokerOrder),
    (g.carryFills events adopted).Calls plain
  | [] => trivial
  | (id, o) :: adopted => by
    rw [OrderGateway.carryFills]
    split
    · exact (calls_writeAs _ (by decide) _ _).bind (fun _ => calls_carryFills events adopted)
    · exact (calls_carryFills events adopted).bind (fun _ => trivial)

theorem calls_resolveCarryover (d : String) : (g.resolveCarryover d).Calls plain := by
  refine Prog.Calls.bind (Prog.calls_ofExcept _) (fun asOf => calls_readStates.bind (fun sts => ?_))
  refine Prog.Calls.ite trivial (calls_loadEvents.bind (fun events => (calls_carryDates _ _ _).bind (fun c => ?_)))
  refine Prog.Calls.ite trivial (calls_loadEvents.bind (fun events => (calls_carryFills _ _).bind (fun bad => ?_)))
  exact Prog.Calls.ite trivial trivial

theorem calls_cancelEach (events : List JournalEvent) : ∀ targets : Py.Dict IntentState,
    (g.cancelEach events targets).Calls plain
  | [] => trivial
  | (id, st) :: targets => by
    refine (calls_writeAs _ (by decide) _ _).bind (fun _ => ⟨trivial, fun r => ?_⟩)
    exact (calls_writeAs _ (by decide) _ _).bind (fun _ => (calls_cancelEach events targets).bind (fun _ => trivial))

theorem calls_resolveUnknownIntent (enabled : Bool) (a : ResolveArgs) (id : String) :
    (resolveUnknownIntent enabled a id).Calls plain := by
  have happly : ∀ action p cs, (applyResolution a id action p cs).Calls plain := fun action p cs =>
    Prog.Calls.ite ((calls_writeAs _ (by decide) _ _).bind (fun _ => trivial)) trivial
  refine Prog.Calls.ite trivial (Prog.Calls.ite trivial (calls_readStates.bind (fun sts => ?_)))
  split
  · trivial
  split
  · trivial
  refine Prog.Calls.ite trivial (Prog.Calls.ite trivial ⟨trivial, fun r => ?_⟩)
  simp only [Prog.ret_bind]
  split
  · trivial
  · trivial
  refine ⟨trivial, fun r => ?_⟩
  simp only [Prog.ret_bind]
  split
  · trivial
  · trivial
  refine Prog.Calls.ite ?_ ?_
  · split
    · exact Prog.Calls.ite trivial (happly _ _ _)
    · trivial
  · split
    · exact happly _ _ _
    · trivial

end calls
end Order
