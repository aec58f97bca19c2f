import KClosingAlpha.Order.Resolve
import KClosingAlpha.Order.Sound
/-!
# World — what the calls of a program do, and whole runs of sessions over one journal

Beside the journal a world keeps what the properties are about and the code does not store: the POSTs that reached the
broker, and the SENDs written while the HALT file existed.  The broker, the clock and the HALT file are arbitrary, up
to a `Rules` that says which calls and answers a run may contain.  HALT appears and goes at the awaits of a call and
between calls: from its last check to the POST a call does not yield.
-/
namespace Order

open Prog (Exec Reach)

/-- One POST of an order, made when the journal had `sentAt` records. -/
structure Post where
  intent : OrderIntent
  sentAt : Nat
  halted : Bool
  deriving DecidableEq

structure World where
  journal : Journal
  halted : Bool
  sendsMade : Nat
  posts : List Post
  haltedSends : List JournalEvent
  deriving DecidableEq

namespace World

def empty : World := { journal := [], halted := false, sendsMade := 0, posts := [], haltedSends := [] }

/-- The world after a record is written. -/
def wrote (w : World) (e : JournalEvent) : World :=
  { w with journal := w.journal ++ [e]
           haltedSends := if e.kind = .send ∧ w.halted = true then w.haltedSends ++ [e] else w.haltedSends }

/-- The world after an append, which may have raised. -/
def appended (w : World) : Except OrderError JournalEvent → World
  | .ok e => w.wrote e
  | .error _ => w

/-- The world after a POST, during which HALT may have changed. -/
def posted (w : World) (i : OrderIntent) (halted : Bool) : World :=
  { w with posts := w.posts ++ [⟨i, w.journal.length, w.halted⟩], halted }

/-- The world an operation starts in: a new gateway or an old one, HALT there or not. -/
def enter (w : World) (sendsMade : Nat) (halted : Bool) : World := { w with sendsMade, halted }

@[simp] theorem wrote_journal (w : World) (e : JournalEvent) : (w.wrote e).journal = w.journal ++ [e] := rfl

@[simp] theorem wrote_posts (w : World) (e : JournalEvent) : (w.wrote e).posts = w.posts := rfl

@[simp] theorem wrote_halted (w : World) (e : JournalEvent) : (w.wrote e).halted = w.halted := rfl

@[simp] theorem posted_journal (w : World) (i : OrderIntent) (h : Bool) : (w.posted i h).journal = w.journal := rfl

@[simp] theorem posted_haltedSends (w : World) (i : OrderIntent) (h : Bool) :
    (w.posted i h).haltedSends = w.haltedSends := rfl

@[simp] theorem enter_journal (w : World) (n : Nat) (h : Bool) : (w.enter n h).journal = w.journal := rfl

@[simp] theorem enter_posts (w : World) (n : Nat) (h : Bool) : (w.enter n h).posts = w.posts := rfl

@[simp] theorem enter_haltedSends (w : World) (n : Nat) (h : Bool) : (w.enter n h).haltedSends = w.haltedSends := rfl

end World

/-- The calls and answers a run may contain. -/
abbrev Rules := (op : GatewayOp) → World → Answer op → Prop

/-- What a call does to the world, for each answer it may get. -/
def Effect : Exec GatewayOp Answer World
  | .journal, w, r, w' => r = w.journal ∧ w' = w
  | .append k id p run, w, r, w' => ∃ ts, Py.isBlank ts = false ∧ r = append w.journal k id p run ts ∧ w' = w.appended r
  | .isHalted, w, r, w' => r = w.halted ∧ w' = w
  | .now, w, _, w' => w' = w
  | .submitOrder i, w, _, w' => ∃ h, w' = w.posted i h
  | .cancelOrder .., w, _, w' | .ensureToken, w, _, w' | .fetchDailyOrders _, w, _, w' | .fetchPositions, w, _, w'
  | .sleep _, w, _, w' => ∃ h, w' = { w with halted := h }
  | .sendsMade, w, r, w' => r = w.sendsMade ∧ w' = w
  | .countSend, w, _, w' => w' = { w with sendsMade := w.sendsMade + 1 }

/-- The calls and answers that keep the rules. -/
def under (R : Rules) : Exec GatewayOp Answer World := fun op w r w' => Effect op w r w' ∧ R op w r

def anything : Rules := fun _ _ _ => True

/-! ## Runs of sessions -/

/-- One operation under the journal's lock. -/
inductive Call where
  | plan (intents : List OrderIntent) (skips : List PlannedSkip)
  | submit (intentId : String) (deadline : Int)
  | reconcile (tradingDate : String) (finalize : Bool)
  | resolveCarryover (asOfDate : String)
  | cancelWorking (tradingDate : String)
  | resolveUnknownIntent (tradingEnabled : Bool) (args : ResolveArgs) (intentId : String)

/-- The program of an operation, its value dropped. -/
def Call.prog (g : OrderGateway) : Call → Gw Unit
  | .plan intents skips => g.plan intents skips
  | .submit id deadline => (g.submit id deadline).bind fun _ => .ret ()
  | .reconcile d fin => (g.reconcile d fin).bind fun _ => .ret ()
  | .resolveCarryover d => (g.resolveCarryover d).bind fun _ => .ret ()
  | .cancelWorking d => (g.cancelWorking d).bind fun _ => .ret ()
  | .resolveUnknownIntent en a id => (Order.resolveUnknownIntent en a id).bind fun _ => .ret ()

/-- An operation of some gateway, run to its end or cut between two calls by a crash. -/
def Called (R : OrderGateway → Call → Rules) (A : OrderGateway → Call → Prop) (w w' : World) : Prop :=
  ∃ g c n h, A g c ∧ Reach (under (R g c)) (c.prog g) (w.enter n h) w'

/-- **A run of sessions**: operations one after the other over one journal, by any gateways, each possibly cut. -/
abbrev Session (R : OrderGateway → Call → Rules) (A : OrderGateway → Call → Prop) : World → World → Prop :=
  Relation.ReflTransGen (Called R A)

/-- Runs with an arbitrary broker, clock and HALT file, of any operations by any gateways. -/
abbrev FreeSession : World → World → Prop := Session (fun _ _ => anything) (fun _ _ => True)

end Order
