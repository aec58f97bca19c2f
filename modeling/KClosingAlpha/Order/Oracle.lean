import KClosingAlpha.Order.World
/-!
# Oracle — environments that answer by a function of the world

A run against an oracle is one of the runs of `World`, and it computes.
-/
namespace Order

open Prog (Exec Reach)

/-- A broker, a clock and a HALT file that are functions of the world; `stamp` dates the records. -/
structure Oracle where
  submit : World → OrderIntent → Except OrderError SubmitResult
  cancel : World → Except OrderError SubmitResult
  orders : World → String → Except OrderError (List BrokerOrder)
  positions : World → Except OrderError (List BrokerPosition)
  clock : World → Int
  halt : World → Bool
  stamp : Nat → String
  stampText : ∀ n, Py.isBlank (stamp n) = false

namespace Oracle

variable (o : Oracle)

def answer : (op : GatewayOp) → World → Answer op × World
  | .journal, w => (w.journal, w)
  | .append k id p run, w =>
    let r := append w.journal k id p run (o.stamp w.journal.length)
    (r, w.appended r)
  | .isHalted, w => (w.halted, w)
  | .now, w => (o.clock w, w)
  | .submitOrder i, w => (o.submit w i, w.posted i (o.halt w))
  | .cancelOrder .., w => (o.cancel w, { w with halted := o.halt w })
  | .ensureToken, w => (.ok (), { w with halted := o.halt w })
  | .fetchDailyOrders d, w => (o.orders w d, { w with halted := o.halt w })
  | .fetchPositions, w => (o.positions w, { w with halted := o.halt w })
  | .sleep _, w => ((), { w with halted := o.halt w })
  | .sendsMade, w => (w.sendsMade, w)
  | .countSend, w => ((), { w with sendsMade := w.sendsMade + 1 })

theorem effect (op : GatewayOp) (w : World) : Effect op w (o.answer op w).1 (o.answer op w).2 := by
  cases op with
  | journal => exact ⟨rfl, rfl⟩
  | append k id p run => exact ⟨o.stamp w.journal.length, o.stampText _, rfl, rfl⟩
  | isHalted => exact ⟨rfl, rfl⟩
  | now => rfl
  | submitOrder i => exact ⟨_, rfl⟩
  | cancelOrder x y => exact ⟨_, rfl⟩
  | ensureToken => exact ⟨_, rfl⟩
  | fetchDailyOrders d => exact ⟨_, rfl⟩
  | fetchPositions => exact ⟨_, rfl⟩
  | sleep s => exact ⟨_, rfl⟩
  | sendsMade => exact ⟨rfl, rfl⟩
  | countSend => rfl

/-- What a program returns or raises, and the world it leaves. -/
abbrev run {α : Type} (p : Gw α) (w : World) : Except OrderError α × World := Prog.run o.answer p w

/-- The world after an operation that was not cut. -/
def after (g : OrderGateway) (c : Call) (w : World) : World := (Prog.run o.answer (c.prog g) w).2

/-- **A run against an oracle that keeps the rules is a run under them.** -/
theorem called {R : OrderGateway → Call → Rules} {A : OrderGateway → Call → Prop} {g : OrderGateway} {c : Call}
    (hA : A g c) (hR : ∀ op w, R g c op w (o.answer op w).1) (w : World) (n : Nat) (h : Bool) :
    Called R A w (o.after g c (w.enter n h)) :=
  ⟨g, c, n, h, hA, (Prog.run_ends (fun op w => ⟨o.effect op w, hR op w⟩) _ _).reach⟩

theorem called_free (g : OrderGateway) (c : Call) (w : World) (n : Nat) (h : Bool) :
    Called (fun _ _ => anything) (fun _ _ => True) w (o.after g c (w.enter n h)) :=
  o.called trivial (fun _ _ => trivial) w n h

/-- The same, when the rules are only kept along the run. -/
theorem called_kept {R : OrderGateway → Call → Rules} {A : OrderGateway → Call → Prop} {g : OrderGateway} {c : Call}
    [∀ op w r, Decidable (R g c op w r)] (hA : A g c) (w : World) (n : Nat) (h : Bool)
    (hR : Prog.runKeeps o.answer (R g c) (c.prog g) (w.enter n h) = true) :
    Called R A w (o.after g c (w.enter n h)) :=
  ⟨g, c, n, h, hA, (Prog.run_ends_kept o.effect hR).reach⟩

end Oracle

/-- An oracle whose broker lists are fixed, one for each date. -/
def Oracle.fixed (orders : String → List BrokerOrder) (positions : List BrokerPosition) : Oracle :=
  { submit := fun _ _ => .error (.broker ""), cancel := fun _ => .error (.broker ""), orders := fun _ d => .ok (orders d),
    positions := fun _ => .ok positions, clock := fun _ => 0, halt := fun w => w.halted, stamp := fun _ => "t",
    stampText := fun _ => rfl }

/-! ## A small market -/

namespace Sample

def limits : GatewayLimits :=
  { seedCapitalKrw := 1000000, maxNotionalPerOrderKrw := 1000000, maxSendsPerRun := 10, sendMaxAttempts := 2,
    unknownResolvePolls := 1, unknownResolveIntervalSeconds := Py.PyFloat.ofInt 0, exitResendOnAmbiguous := true,
    carryoverLookbackDays := 5 }

def gateway : OrderGateway := ⟨limits, "run", rfl⟩

/-- Ten shares of a symbol at 60000 each: more than half the seed capital. -/
def entryFields (tradingDate symbol : String) : IntentFields :=
  { intentId := entryIntentId tradingDate symbol, tradingDate, phase := .entry, symbol, side := .buy, orderType := .limit,
    qty := 10, limitPrice := some 60000, decisionPrice := .int 60000, parentIntentId := none }

def exitFields (parent tradingDate symbol : String) (qty : Int) : IntentFields :=
  { intentId := exitIntentId parent tradingDate, tradingDate, phase := .exit, symbol, side := .sell, orderType := .market,
    qty, limitPrice := none, decisionPrice := .none, parentIntentId := some parent }

def samsung : OrderIntent := ⟨entryFields "2025-01-02" "005930", rfl⟩

def hynix : OrderIntent := ⟨entryFields "2025-01-02" "000660", rfl⟩

def verdict (v : SubmitVerdict) (orderNo : Option String) : SubmitResult :=
  { verdict := v, brokerOrderNo := orderNo, brokerOrgNo := none, httpStatus := some 200, msgCd := "", msg := "",
    latencyMs := Py.PyFloat.ofInt 0 }

/-- A broker row of an intent. -/
def row (orderNo : String) (i : OrderIntent) (filledQty : Int) : BrokerOrder :=
  { orderNo, orgNo := "06010", symbol := i.symbol, side := i.side, orderQty := i.qty, orderPrice := i.limitPrice.getD 0,
    filledQty, filledAmountKrw := filledQty * 60000, remainingQty := i.qty - filledQty, cancelled := false,
    rejectedQty := 0 }

/-- A market with nothing in it, whose answer to a POST depends on the POSTs before it. -/
def broker (submit : Nat → SubmitResult) (halt : World → Bool) : Oracle :=
  { Oracle.fixed (fun _ => []) [] with submit := fun w _ => .ok (submit w.posts.length), halt }

/-- An intent planned and submitted. -/
def ordered (o : Oracle) (i : OrderIntent) : World :=
  o.after gateway (.submit i.intentId 1) ((o.after gateway (.plan [i] []) (World.empty.enter 0 false)).enter 0 false)

theorem session_ordered (o : Oracle) (i : OrderIntent) : FreeSession World.empty (ordered o i) :=
  .tail (.single (o.called_free _ _ _ _ _)) (o.called_free _ _ _ _ _)

end Sample
end Order
