import KClosingAlpha.Order.Calls
import KClosingAlpha.Order.Oracle
/-!
# Acts — the records of a reconciliation or carry-over as a function of the journal and the broker's lists

Against fixed lists the passes of `reconcile` and `resolve_carryover` write a list of records that depends on the views
of the intents they look at and on the bound numbers alone.  The lists are the functions `adoptActs`, `fillActs` and
`carryActs`, and `run_adoptDay`, `run_fillDay` and `run_carryIntents` say that the programs write exactly these.
-/
namespace Order

open Py (Value Dict)

/-- A record before the journal numbers and dates it. -/
structure Act where
  kind : JournalEventKind
  intentId : String
  payload : Payload
  deriving DecidableEq

/-- The record an act becomes at the end of a journal. -/
def Act.event (run : String) (j : Journal) (a : Act) : JournalEvent :=
  { seq := nextSeq j, ts := "t", kind := a.kind, intentId := a.intentId, runId := run, payload := a.payload }

/-- A journal and more acts. -/
def extend (run : String) : Journal → List Act → Journal
  | j, [] => j
  | j, a :: acts => extend run (j ++ [a.event run j]) acts

theorem extend_append (run : String) : ∀ (j : Journal) (as bs : List Act),
    extend run j (as ++ bs) = extend run (extend run j as) bs
  | _, [], _ => rfl
  | _, _ :: as, bs => extend_append run _ as bs

/-- One more act on a view. -/
def View.act (v : View) (a : Act) : View := v.push (a.event "" [])

theorem View.push_event (v : View) (run : String) (j : Journal) (a : Act) : v.push (a.event run j) = v.act a := rfl

def actsOf (id : String) (acts : List Act) : List Act := acts.filter (·.intentId == id)

/-- **The view of an extended journal is the view before, and the intent's acts.** -/
theorem view_extend {run id : String} : ∀ (acts : List Act) (j : Journal),
    view (extend run j acts) id = (actsOf id acts).foldl View.act (view j id)
  | [], _ => rfl
  | a :: acts, j => by
    rw [extend, view_extend acts, view_snoc]
    change (actsOf id acts).foldl View.act (if a.intentId = id then (view j id).push (a.event run j) else view j id) = _
    by_cases h : a.intentId = id
    · rw [if_pos h, actsOf, actsOf, List.filter_cons_of_pos (by simpa using h), List.foldl_cons, View.push_event]
    · rw [if_neg h, actsOf, actsOf, List.filter_cons_of_neg (by simpa using h)]

/-- The last fills a journal records for an intent. -/
def lastFill (j : Journal) (id : String) : Option Payload := lastBrokerState (eventsOf j id)

/-- One more act on the last fills. -/
def nextFill (last : Option Payload) (a : Act) : Option Payload := if a.kind = .brokerState then some a.payload else last

theorem lastFill_snoc {run id : String} {j : Journal} {a : Act} :
    lastFill (j ++ [a.event run j]) id = if a.intentId = id then nextFill (lastFill j id) a else lastFill j id := by
  unfold lastFill lastBrokerState nextFill
  rw [eventsOf_snoc]
  change (ofKind .brokerState (if a.intentId = id then _ else _)).getLast?.map _ = _
  by_cases h : a.intentId = id
  · rw [if_pos h, if_pos h, ofKind_snoc]
    by_cases hk : a.kind = .brokerState <;> simp [Act.event, hk]
  · rw [if_neg h, if_neg h]

theorem lastFill_extend {run id : String} : ∀ (acts : List Act) (j : Journal),
    lastFill (extend run j acts) id = (actsOf id acts).foldl nextFill (lastFill j id)
  | [], _ => rfl
  | a :: acts, j => by
    rw [extend, lastFill_extend acts, lastFill_snoc]
    by_cases h : a.intentId = id
    · rw [if_pos h, actsOf, actsOf, List.filter_cons_of_pos (by simpa using h), List.foldl_cons]
    · rw [if_neg h, actsOf, actsOf, List.filter_cons_of_neg (by simpa using h)]

theorem view_act_of_ne {run id : String} {j : Journal} {a : Act} (h : a.intentId ≠ id) :
    view (j ++ [a.event run j]) id = view j id := view_snoc_of_ne h

theorem view_extend_of_not_mem {run id : String} {acts : List Act} {j : Journal} (h : ∀ a ∈ acts, a.intentId ≠ id) :
    view (extend run j acts) id = view j id := by
  rw [view_extend, actsOf, List.filter_eq_nil_iff.2 (fun a ha => by simpa using h a ha)]
  rfl

theorem extend_eq_append {run : String} : ∀ (acts : List Act) (j : Journal), ∃ l, extend run j acts = j ++ l ∧
    l.map (fun e => (⟨e.kind, e.intentId, e.payload⟩ : Act)) = acts
  | [], j => ⟨[], by simp [extend]⟩
  | a :: acts, j => by
    obtain ⟨l, hl, hm⟩ := extend_eq_append acts (j ++ [a.event run j])
    exact ⟨a.event run j :: l, by rw [extend, hl, List.append_assoc]; rfl, by rw [List.map_cons, hm]; rfl⟩

theorem extend_eq_self {run : String} {j : Journal} {acts : List Act} (h : extend run j acts = j) : acts = [] := by
  obtain ⟨l, hl, hm⟩ := @extend_eq_append run acts j
  rw [hl] at h
  rw [List.append_right_eq_self.1 h] at hm
  exact hm.symm

/-! ## Journals that take acts -/

/-- A sound journal none of whose ids is blank, as the checks of `append` leave it. -/
structure Kept (j : Journal) : Prop where
  sound : Sound j
  text : ∀ id ∈ idsOf j, Py.isBlank id = false

theorem session_text {R : OrderGateway → Call → Rules} {A : OrderGateway → Call → Prop} {w : World}
    (h : Session R A World.empty w) : ∀ id ∈ idsOf w.journal, Py.isBlank id = false := by
  refine (session_invariant (I := fun x => ∀ id ∈ idsOf x.journal, Py.isBlank id = false) (fun _ _ _ h => h)
    (fun g c start x y _ hI hs => ?_) timely_empty (fun id hid => by simp [World.empty, idsOf] at hid) h).1
  cases hs with
  | quiet y hj hp hh => rw [hj]; exact hI
  | wrote e happ hs hw =>
    intro id hid
    rcases mem_idsOf_snoc.1 hid with hid | rfl
    · exact hI id hid
    · exact (checkAppend_eq_ok.1 (append_eq_ok.1 happ.appended).1).1
  | posted i hd s hlast hk hid hi hst hnew hcall => exact hI

/-- An act the passes write: a binding, a conflict, or fills the intent admits. -/
structure Act.Legal (v : View) (a : Act) : Prop where
  kind : a.kind = .adopt ∨ a.kind = .resolveConflict ∨
    (a.kind = .brokerState ∧ ∃ f, checkFills v.intent v.fills a.payload = .ok f)
  keys : a.payload.any (fun q => q.1 == "") = false
  storable : a.payload.all isStorable = true

theorem legal_adopt (v : View) (id : String) (o : BrokerOrder) : Act.Legal v ⟨.adopt, id, adoptPayload o⟩ :=
  ⟨.inl rfl, rfl, rfl⟩

theorem legal_conflict (v : View) (id : String) (n : Nat) : Act.Legal v ⟨.resolveConflict, id, conflictPayload n⟩ :=
  ⟨.inr (.inl rfl), rfl, rfl⟩

theorem legal_fill {v : View} {id : String} {o : BrokerOrder} {final : Bool} {f : Fills}
    (h : checkFills v.intent v.fills (brokerStatePayload o final) = .ok f) :
    Act.Legal v ⟨.brokerState, id, brokerStatePayload o final⟩ :=
  ⟨.inr (.inr ⟨rfl, f, h⟩), rfl, rfl⟩

theorem Act.Legal.ne_intent {v : View} {a : Act} (h : a.Legal v) : a.kind ≠ .intent := by
  rcases h.kind with hk | hk | ⟨hk, -⟩ <;> simp [hk]

theorem Act.Legal.ne_send {v : View} {a : Act} (h : a.Legal v) : a.kind ≠ .send := by
  rcases h.kind with hk | hk | ⟨hk, -⟩ <;> simp [hk]

theorem append_act {g : OrderGateway} {j : Journal} {a : Act} {ts : String} (hj : Kept j) (hid : a.intentId ∈ idsOf j)
    (hl : a.Legal (view j a.intentId)) :
    append j a.kind a.intentId a.payload g.runId ts = .ok { a.event g.runId j with ts } := by
  refine append_eq_ok.2 ⟨checkAppend_eq_ok.2 ⟨hj.text _ hid, g.runText, hl.keys, hl.storable, fun hk => ?_, fun hk => ?_,
    hj.sound.loads⟩, rfl⟩
  · rcases hl.kind with h | h | ⟨h, -⟩ <;> simp [h] at hk
  · exact absurd hk hl.ne_intent

theorem idsOf_act {run : String} {j : Journal} {a : Act} (hid : a.intentId ∈ idsOf j) :
    idsOf (j ++ [a.event run j]) = idsOf j := by
  rw [idsOf_snoc, if_pos (show (a.event run j).intentId ∈ idsOf j from hid)]

theorem Kept.act {g : OrderGateway} {j : Journal} {a : Act} (hj : Kept j) (hid : a.intentId ∈ idsOf j)
    (hl : a.Legal (view j a.intentId)) : Kept (j ++ [a.event g.runId j]) := by
  refine ⟨hj.sound.snoc_admits (append_loads (append_act hj hid hl) rfl (.inr hid)) hid hl.ne_intent ?_, fun id h => ?_⟩
  · rcases hl.kind with h | h | ⟨h, hf⟩
    · simp [View.Admits, Act.event, h]
    · simp [View.Admits, Act.event, h]
    · simpa only [View.Admits, Act.event, h] using hf
  · rw [idsOf_act hid] at h
    exact hj.text id h

/-! ## Runs against fixed lists -/

/-- The world with another journal. -/
def World.at (w : World) (j : Journal) : World := { w with journal := j }

@[simp] theorem World.at_journal (w : World) (j : Journal) : (w.at j).journal = j := rfl

@[simp] theorem World.at_at (w : World) (j j' : Journal) : (w.at j).at j' = w.at j' := rfl

@[simp] theorem World.at_self (w : World) : w.at w.journal = w := rfl

section runs

variable {o : Oracle} {orders : String → List BrokerOrder} {positions : List BrokerPosition} {g : OrderGateway}
  {w w' : World} {α β : Type}

theorem run_bind_ok {p : Gw α} {f : α → Gw β} {a : α} {r : Except OrderError β × World}
    (hp : o.run p w = (.ok a, w')) (hf : o.run (f a) w' = r) :
    o.run (p >>= f) w = r := by
  unfold Oracle.run at hp ⊢
  rw [Prog.bind_eq, Prog.run_bind, hp]
  exact hf

theorem run_bind_error {p : Gw α} {f : α → Gw β} {e : OrderError}
    (hp : o.run p w = (.error e, w')) : o.run (p >>= f) w = (.error e, w') := by
  unfold Oracle.run at hp ⊢
  rw [Prog.bind_eq, Prog.run_bind, hp]

theorem run_except (x : Except OrderError α) : o.run (Prog.ofExcept x) w = (x, w) := by
  cases x <;> rfl

theorem run_readStates : o.run readStates w = (states w.journal, w) :=
  run_bind_ok rfl (run_except _)

theorem run_loadEvents : o.run loadEvents w = (load w.journal, w) :=
  run_bind_ok rfl (run_except _)

theorem run_readLots : o.run readLots w = (openLots w.journal, w) :=
  run_bind_ok rfl (run_except _)

theorem run_states (hj : Sound w.journal) :
    o.run readStates w = (.ok (statesOf w.journal), w) := by
  rw [run_readStates, states_eq_ok.2 ⟨hj, rfl⟩]

theorem run_load (hj : Sound w.journal) : o.run loadEvents w = (.ok w.journal, w) := by
  rw [run_loadEvents, load_eq_ok.2 ⟨hj.loads, rfl⟩]

theorem run_stateAt {id : String} (hj : Sound w.journal) (hid : id ∈ idsOf w.journal) :
    o.run (stateAt id) w = (.ok (stateOf w.journal id), w) := by
  refine run_bind_ok (run_states hj) ?_
  rw [statesOf_lookup, if_pos hid]
  rfl

theorem run_fetchDailyOrders (d : String) :
    (Oracle.fixed orders positions).run (fetchDailyOrders d) w = (.ok (.ok (orders d)), w) := rfl

theorem run_fetchPositions : (Oracle.fixed orders positions).run fetchPositions w = (.ok (.ok positions), w) := rfl

/-- **A legal act is written.** -/
theorem run_write {a : Act} (hj : Kept w.journal) (hid : a.intentId ∈ idsOf w.journal)
    (hl : a.Legal (view w.journal a.intentId)) :
    (Oracle.fixed orders positions).run (g.write a.kind a.intentId a.payload) w =
      (.ok (), w.at (w.journal ++ [a.event g.runId w.journal])) := by
  have happ : (Oracle.fixed orders positions).answer (.append a.kind a.intentId a.payload g.runId) w =
      (.ok (a.event g.runId w.journal), w.at (w.journal ++ [a.event g.runId w.journal])) := by
    have h : append w.journal a.kind a.intentId a.payload g.runId "t" = .ok (a.event g.runId w.journal) :=
      append_act hj hid hl
    simp only [Oracle.answer, show (Oracle.fixed orders positions).stamp w.journal.length = "t" from rfl, h]
    refine Prod.ext rfl ?_
    simp [World.appended, World.wrote, World.at, show (a.event g.runId w.journal).kind ≠ .send from hl.ne_send]
  refine @run_bind_ok (Oracle.fixed orders positions) w (w.at (w.journal ++ [a.event g.runId w.journal])) _ _ _ _ (.ok (a.event g.runId w.journal)) _ ?_ rfl
  unfold Oracle.run appendNow Prog.perform
  rw [Prog.run_call, happ]
  rfl

end runs

theorem idsOf_extend {run : String} : ∀ {acts : List Act} {j : Journal}, (∀ a ∈ acts, a.intentId ∈ idsOf j) →
    idsOf (extend run j acts) = idsOf j
  | [], _, _ => rfl
  | a :: acts, j, h => by
    have ha := @idsOf_act run _ _ (h a List.mem_cons_self)
    rw [extend, idsOf_extend (fun b hb => ha ▸ h b (List.mem_cons_of_mem _ hb)), ha]

/-! ## The adoption pass of a reconciliation -/

/-- What an intent makes of the rows: nothing, its one unbound candidate, or a conflict of several. -/
inductive Adopting where
  | nothing
  | bind (o : BrokerOrder)
  | conflict (n : Nat)

def Adopting.of : List BrokerOrder → Adopting
  | [] => .nothing
  | [o] => .bind o
  | c :: cs => .conflict (c :: cs).length

def adopting (rows : List BrokerOrder) (bound : List String) (st : IntentState) : Adopting :=
  match st.status, st.intent with
  | .unknown, some i => .of (matchCandidates i rows bound st.baselineOrderNos)
  | _, _ => .nothing

/-- The records of the pass over a day's intents, each with its state when the pass began. -/
def adoptActs (rows : List BrokerOrder) : List String → List (String × IntentState) → List Act
  | _, [] => []
  | bound, (id, st) :: rest =>
    match adopting rows bound st with
    | .nothing => adoptActs rows bound rest
    | .bind o => ⟨.adopt, id, adoptPayload o⟩ :: adoptActs rows (normalizeOrderNo o.orderNo :: bound) rest
    | .conflict n => ⟨.resolveConflict, id, conflictPayload n⟩ :: adoptActs rows bound rest

/-- The states of a day's intents. -/
def dayStates (j : Journal) (ids : List String) : List (String × IntentState) := ids.map (fun id => (id, stateOf j id))

theorem Adopting.of_eq_bind {cs : List BrokerOrder} {o : BrokerOrder} (h : Adopting.of cs = .bind o) : cs = [o] := by
  unfold Adopting.of at h
  split at h <;> cases h
  rfl

theorem Adopting.of_eq_nothing {cs : List BrokerOrder} : Adopting.of cs = .nothing ↔ cs = [] := by
  unfold Adopting.of
  split <;> simp

theorem adopting_eq {rows : List BrokerOrder} {bound : List String} {st : IntentState} {i : OrderIntent}
    (hst : st.status = .unknown) (hi : st.intent = some i) :
    adopting rows bound st = .of (matchCandidates i rows bound st.baselineOrderNos) := by
  unfold adopting
  rw [hst, hi]

/-- Only an UNKNOWN intent makes anything of the rows. -/
theorem adopting_ne_nothing {rows : List BrokerOrder} {bound : List String} {st : IntentState}
    (h : adopting rows bound st ≠ .nothing) : st.status = .unknown ∧ ∃ i, st.intent = some i ∧
      adopting rows bound st = .of (matchCandidates i rows bound st.baselineOrderNos) := by
  unfold adopting at h ⊢
  split at h
  · rename_i i hst hi
    exact ⟨hst, i, hi, rfl⟩
  · exact absurd rfl h

theorem adopting_eq_bind {rows : List BrokerOrder} {bound : List String} {st : IntentState} {o : BrokerOrder}
    (h : adopting rows bound st = .bind o) : st.status = .unknown ∧ ∃ i, st.intent = some i ∧
      matchCandidates i rows bound st.baselineOrderNos = [o] := by
  obtain ⟨hst, i, hi, hof⟩ := adopting_ne_nothing (fun hn => nomatch h.symm.trans hn)
  exact ⟨hst, i, hi, Adopting.of_eq_bind (hof.symm.trans h)⟩

theorem adopting_eq_nothing {rows : List BrokerOrder} {bound : List String} {st : IntentState} :
    adopting rows bound st = .nothing ↔ (st.status = .unknown → ∀ i, st.intent = some i →
      matchCandidates i rows bound st.baselineOrderNos = []) := by
  constructor
  · intro h hst i hi
    rw [adopting_eq hst hi] at h
    exact Adopting.of_eq_nothing.1 h
  · intro h
    by_contra hne
    obtain ⟨hst, i, hi, hof⟩ := adopting_ne_nothing hne
    exact hne (hof.trans (Adopting.of_eq_nothing.2 (h hst i hi)))

section runs

variable {orders : String → List BrokerOrder} {positions : List BrokerPosition} {g : OrderGateway}

/-- One intent of the adoption pass. -/
theorem run_adoptDay_cons {rows : List BrokerOrder} {bound : List String} {id : String} {ids : List String} {w : World}
    (hj : Sound w.journal) (hid : id ∈ idsOf w.journal) :
    (Oracle.fixed orders positions).run (g.adoptDay rows bound (id :: ids)) w =
      match adopting rows bound (stateOf w.journal id) with
      | .nothing => (Oracle.fixed orders positions).run (g.adoptDay rows bound ids) w
      | .bind o => (Oracle.fixed orders positions).run (g.write .adopt id (adoptPayload o) >>= fun _ =>
          g.adoptDay rows (normalizeOrderNo o.orderNo :: bound) ids) w
      | .conflict n => (Oracle.fixed orders positions).run (g.write .resolveConflict id (conflictPayload n) >>= fun _ =>
          g.adoptDay rows bound ids) w := by
  rw [OrderGateway.adoptDay]
  refine run_bind_ok (run_stateAt hj hid) ?_
  unfold adopting Adopting.of
  generalize stateOf w.journal id = st
  obtain ⟨intent, status⟩ := st
  cases status <;> cases intent <;> try rfl
  rename_i i
  dsimp only
  generalize matchCandidates i rows bound _ = cs
  match cs with
  | [] => rfl
  | [o] => rfl
  | c :: d :: ds => rfl

/-- **The adoption pass writes `adoptActs`.** -/
theorem run_adoptDay {rows : List BrokerOrder} {j0 : Journal} : ∀ {ids : List String} {bound : List String} {w : World},
    Kept w.journal → ids.Nodup → (∀ id ∈ ids, id ∈ idsOf w.journal ∧ view w.journal id = view j0 id) →
    (Oracle.fixed orders positions).run (g.adoptDay rows bound ids) w =
        (.ok (), w.at (extend g.runId w.journal (adoptActs rows bound (dayStates j0 ids)))) ∧
      Kept (extend g.runId w.journal (adoptActs rows bound (dayStates j0 ids)))
  | [], _, w, hj, _, _ => ⟨rfl, hj⟩
  | id :: ids, bound, w, hj, hnd, hids => by
    obtain ⟨hid, hview⟩ := hids id List.mem_cons_self
    obtain ⟨hnot, hnd'⟩ := List.nodup_cons.1 hnd
    have hids' := fun x (hx : x ∈ ids) => hids x (List.mem_cons_of_mem _ hx)
    -- a record of this intent leaves the later ones as they were
    have hwrite (a : Act) (b : List String) (ha : a.intentId = id) (hl : a.Legal (view w.journal a.intentId)) :
        (Oracle.fixed orders positions).run (g.write a.kind a.intentId a.payload >>= fun _ => g.adoptDay rows b ids) w =
            (.ok (), w.at (extend g.runId w.journal (a :: adoptActs rows b (dayStates j0 ids)))) ∧
          Kept (extend g.runId w.journal (a :: adoptActs rows b (dayStates j0 ids))) := by
      have hida : a.intentId ∈ idsOf w.journal := ha ▸ hid
      have hnext : ∀ x ∈ ids, x ∈ idsOf (w.journal ++ [a.event g.runId w.journal]) ∧
          view (w.journal ++ [a.event g.runId w.journal]) x = view j0 x := by
        intro x hx
        refine ⟨by rw [idsOf_act hida]; exact (hids' x hx).1, ?_⟩
        rw [view_act_of_ne (fun h : a.intentId = x => hnot (ha ▸ h ▸ hx)), (hids' x hx).2]
      obtain ⟨hrun, hkept⟩ := @run_adoptDay rows j0 ids b
        (w.at (w.journal ++ [a.event g.runId w.journal])) (hj.act hida hl) hnd' hnext
      exact ⟨run_bind_ok (run_write hj hida hl) hrun, hkept⟩
    rw [run_adoptDay_cons hj.sound hid, dayStates, List.map_cons, adoptActs, show stateOf w.journal id = stateOf j0 id by
      rw [stateOf, hview]]
    cases adopting rows bound (stateOf j0 id) with
    | nothing => exact run_adoptDay hj hnd' hids'
    | bind o => exact hwrite ⟨.adopt, id, adoptPayload o⟩ _ rfl (legal_adopt _ _ _)
    | conflict n => exact hwrite ⟨.resolveConflict, id, conflictPayload n⟩ _ rfl (legal_conflict _ _ _)

end runs
/-! ## The fill pass of a reconciliation -/

/-- The fills of a row, when they fit the ones recorded. -/
def recordFills (v : View) (payload : Payload) : FillStep :=
  match checkFills v.intent v.fills payload with
  | .ok _ => .record payload
  | .error _ => .contradicts

/-- What the fill pass does with an intent, given its view and its last fills. -/
def fillOn (rows : List BrokerOrder) (finalize : Bool) (v : View) (last : Option Payload) : FillStep :=
  match v.numbers.1 with
  | none => .keep
  | some no =>
    if v.status.2 then .keep
    else
      match findRow rows no with
      | none => .keep
      | some found =>
        let payload := brokerStatePayload found (isFinalRow found finalize)
        if last.any (fun prior => Dict.eq prior payload) then .keep else recordFills v payload

def recorded (id : String) : FillStep → Option Act
  | .record payload => some ⟨.brokerState, id, payload⟩
  | _ => none

def contradicts : FillStep → Bool
  | .contradicts => true
  | _ => false

def fillActs (rows : List BrokerOrder) (finalize : Bool) (j : Journal) (ids : List String) : List Act :=
  ids.filterMap (fun id => recorded id (fillOn rows finalize (view j id) (lastFill j id)))

def contradicted (rows : List BrokerOrder) (finalize : Bool) (j : Journal) (ids : List String) : List String :=
  ids.filter (fun id => contradicts (fillOn rows finalize (view j id) (lastFill j id)))

theorem probeFills_recordFills {j : Journal} (hs : Sound j) {id run : String} {p : Payload} (hid : id ∈ idsOf j) :
    probeFills (eventsOf j id) id run p = recordFills (view j id) p := by
  unfold recordFills
  rcases @probeFills_eq _ hs _ run p hid with ⟨⟨f, hf⟩, h⟩ | ⟨hf, h⟩
  · rw [h, hf]
  · rw [h]
    cases hc : checkFills (view j id).intent (view j id).fills p with
    | ok f => exact absurd ⟨f, hc⟩ hf
    | error err => rfl

theorem fillStep_eq {rows : List BrokerOrder} {finalize : Bool} {j : Journal} (hs : Sound j) {id run : String}
    (hid : id ∈ idsOf j) : fillStep rows finalize run id (stateOf j id) (eventsOf j id) =
      fillOn rows finalize (view j id) (lastFill j id) := by
  unfold fillStep fillOn
  simp only [probeFills_recordFills hs hid, View.state, lastFill]
  rfl

theorem recordFills_record {v : View} {p q : Payload} (h : recordFills v p = .record q) :
    q = p ∧ ∃ f, checkFills v.intent v.fills p = .ok f := by
  unfold recordFills at h
  split at h
  · rename_i f hf
    cases h
    exact ⟨rfl, f, hf⟩
  · cases h

theorem fillOn_record {rows : List BrokerOrder} {finalize : Bool} {v : View} {last : Option Payload} {p : Payload}
    (h : fillOn rows finalize v last = .record p) : v.status.2 = false ∧ ∃ no found, v.numbers.1 = some no ∧
      findRow rows no = some found ∧ p = brokerStatePayload found (isFinalRow found finalize) ∧
      ∃ f, checkFills v.intent v.fills p = .ok f := by
  unfold fillOn at h
  split at h
  · cases h
  · rename_i no hno
    split_ifs at h with hf
    split at h
    · cases h
    · rename_i found hfound
      dsimp only at h
      split_ifs at h
      obtain ⟨rfl, hfill⟩ := recordFills_record h
      exact ⟨by simpa using hf, no, found, hno, hfound, rfl, hfill⟩

theorem legal_record {rows : List BrokerOrder} {finalize : Bool} {v : View} {last : Option Payload} {p : Payload}
    (h : fillOn rows finalize v last = .record p) (id : String) : Act.Legal v ⟨.brokerState, id, p⟩ := by
  obtain ⟨-, no, found, -, -, rfl, f, hfill⟩ := fillOn_record h
  exact legal_fill hfill

theorem mem_fillActs {rows : List BrokerOrder} {finalize : Bool} {j : Journal} {ids : List String} {a : Act}
    (h : a ∈ fillActs rows finalize j ids) : a.intentId ∈ ids ∧ a.kind = .brokerState ∧
      fillOn rows finalize (view j a.intentId) (lastFill j a.intentId) = .record a.payload := by
  obtain ⟨id, hid, ha⟩ := List.mem_filterMap.1 h
  cases hf : fillOn rows finalize (view j id) (lastFill j id) with
  | keep => rw [hf] at ha; cases ha
  | contradicts => rw [hf] at ha; cases ha
  | record p => rw [hf] at ha; cases ha; exact ⟨hid, rfl, hf⟩

section runs

variable {orders : String → List BrokerOrder} {positions : List BrokerPosition} {g : OrderGateway}

/-- **The fill pass writes `fillActs` and returns the contradicted intents.** -/
theorem run_fillDay {rows : List BrokerOrder} {finalize : Bool} {j0 : Journal} (h0 : Sound j0) :
    ∀ {ids : List String} {w : World}, Kept w.journal → ids.Nodup →
    (∀ id ∈ ids, id ∈ idsOf j0 ∧ id ∈ idsOf w.journal ∧ view w.journal id = view j0 id) →
    (Oracle.fixed orders positions).run (g.fillDay rows finalize (statesOf j0) j0 ids) w =
        (.ok (contradicted rows finalize j0 ids), w.at (extend g.runId w.journal (fillActs rows finalize j0 ids))) ∧
      Kept (extend g.runId w.journal (fillActs rows finalize j0 ids))
  | [], w, hj, _, _ => ⟨rfl, hj⟩
  | id :: ids, w, hj, hnd, hids => by
    obtain ⟨hid0, hid, hview⟩ := hids id List.mem_cons_self
    obtain ⟨hnot, hnd'⟩ := List.nodup_cons.1 hnd
    have hids' := fun x (hx : x ∈ ids) => hids x (List.mem_cons_of_mem _ hx)
    have ih := @run_fillDay rows finalize j0 h0 ids w hj hnd' hids'
    rw [OrderGateway.fillDay, statesOf_lookup, if_pos hid0]
    dsimp only
    rw [fillStep_eq h0 hid0, fillActs, contradicted, List.filterMap_cons, List.filter_cons]
    cases hf : fillOn rows finalize (view j0 id) (lastFill j0 id) with
    | keep => exact ih
    | contradicts => exact ⟨run_bind_ok ih.1 rfl, ih.2⟩
    | record p =>
      let a : Act := ⟨.brokerState, id, p⟩
      have hl : a.Legal (view w.journal id) := hview ▸ legal_record hf id
      have hnext : ∀ x ∈ ids, x ∈ idsOf j0 ∧ x ∈ idsOf (w.journal ++ [a.event g.runId w.journal]) ∧
          view (w.journal ++ [a.event g.runId w.journal]) x = view j0 x := by
        intro x hx
        obtain ⟨h1, h2, h3⟩ := hids' x hx
        exact ⟨h1, by rw [idsOf_act hid]; exact h2, by rw [view_act_of_ne (fun h : id = x => hnot (h ▸ hx)), h3]⟩
      obtain ⟨hrun, hkept⟩ := @run_fillDay rows finalize j0 h0 ids
        (w.at (w.journal ++ [a.event g.runId w.journal])) (hj.act hid hl) hnd' hnext
      change (Oracle.fixed orders positions).run (g.write a.kind a.intentId a.payload >>= fun _ =>
          g.fillDay rows finalize (statesOf j0) j0 ids) w =
        (.ok (contradicted rows finalize j0 ids), w.at (extend g.runId w.journal (a :: fillActs rows finalize j0 ids))) ∧
          Kept (extend g.runId w.journal (a :: fillActs rows finalize j0 ids))
      exact ⟨run_bind_ok (run_write hj hid hl) hrun, hkept⟩

end runs
/-! ## Reconciliation -/

/-- The records of a reconciliation's adoption pass. -/
def dayAdoptions (rows : List BrokerOrder) (tradingDate : String) (j : Journal) : List Act :=
  adoptActs rows (boundOf j) (dayStates j (OrderGateway.dayIds (statesOf j) tradingDate))

/-- The journal between the two passes. -/
def bindDay (run : String) (rows : List BrokerOrder) (tradingDate : String) (j : Journal) : Journal :=
  extend run j (dayAdoptions rows tradingDate j)

/-- The records of the fill pass of a reconciliation. -/
def dayFills (run : String) (rows : List BrokerOrder) (tradingDate : String) (finalize : Bool) (j : Journal) : List Act :=
  fillActs rows finalize (bindDay run rows tradingDate j) (OrderGateway.dayIds (statesOf j) tradingDate)

/-- The journal after a reconciliation. -/
def reconciled (run : String) (rows : List BrokerOrder) (tradingDate : String) (finalize : Bool) (j : Journal) : Journal :=
  extend run (bindDay run rows tradingDate j) (dayFills run rows tradingDate finalize j)

/-- The report on a reconciled journal, or the exception. -/
def reconcileOutcome (rows : List BrokerOrder) (positions : List BrokerPosition) (tradingDate : String)
    (ids bad : List String) (j : Journal) : Except OrderError ReconcileReport :=
  if bad.isEmpty then do
    let lots ← openLots j
    return OrderGateway.reportOf tradingDate ids (OrderGateway.nForeign (statesOf j) rows) (statesOf j) rows positions lots
  else .error (contradiction bad)

theorem adopts_mem {rows : List BrokerOrder} : ∀ {bound : List String} {day : List (String × IntentState)} {a : Act},
    a ∈ adoptActs rows bound day → (∃ st, (a.intentId, st) ∈ day ∧ st.status = .unknown) ∧
      ((∃ o ∈ rows, a.kind = .adopt ∧ a.payload = adoptPayload o) ∨
        ∃ n, a.kind = .resolveConflict ∧ a.payload = conflictPayload n)
  | _, [], _, h => by cases h
  | bound, (id, st) :: rest, a, h => by
    have hrest {b : List String} (h : a ∈ adoptActs rows b rest) := (adopts_mem h).imp_left
      (Exists.imp (fun _ => And.imp_left (List.mem_cons_of_mem (id, st))))
    rw [adoptActs] at h
    cases hx : adopting rows bound st with
    | nothing =>
      rw [hx] at h
      exact hrest h
    | bind o =>
      rw [hx] at h
      obtain ⟨hst, i, hi, hc⟩ := adopting_eq_bind hx
      rcases List.mem_cons.1 h with rfl | h
      · have ho : o ∈ matchCandidates i rows bound st.baselineOrderNos := hc ▸ List.mem_singleton.2 rfl
        exact ⟨⟨st, List.mem_cons_self, hst⟩, .inl ⟨o, (mem_matchCandidates ho).1, rfl, rfl⟩⟩
      · exact hrest h
    | conflict n =>
      rw [hx] at h
      rcases List.mem_cons.1 h with rfl | h
      · exact ⟨⟨st, List.mem_cons_self, (adopting_ne_nothing (fun hn => nomatch hx.symm.trans hn)).1⟩, .inr ⟨n, rfl, rfl⟩⟩
      · exact hrest h

theorem dayAdoptions_ids {rows : List BrokerOrder} {d : String} {j : Journal} {a : Act} (h : a ∈ dayAdoptions rows d j) :
    a.intentId ∈ OrderGateway.dayIds (statesOf j) d := by
  obtain ⟨⟨st, hm, -⟩, -⟩ := adopts_mem h
  obtain ⟨id, hid, he⟩ := List.mem_map.1 hm
  cases he
  exact hid

theorem idsOf_bindDay {run : String} {rows : List BrokerOrder} {d : String} {j : Journal} :
    idsOf (bindDay run rows d j) = idsOf j :=
  idsOf_extend (fun _ ha => (mem_dayIds (dayAdoptions_ids ha)).1)

theorem idsOf_reconciled {run : String} {rows : List BrokerOrder} {d : String} {finalize : Bool} {j : Journal} :
    idsOf (reconciled run rows d finalize j) = idsOf j := by
  rw [reconciled, idsOf_extend, idsOf_bindDay]
  intro a ha
  rw [idsOf_bindDay]
  exact (mem_dayIds (mem_fillActs ha).1).1

section runs

variable {orders : String → List BrokerOrder} {positions : List BrokerPosition} {g : OrderGateway}

theorem run_finishReconcile {w : World} {d : String} {ids : List String} {rows : List BrokerOrder} (hj : Sound w.journal) :
    (Oracle.fixed orders positions).run (OrderGateway.finishReconcile d ids rows) w =
      (reconcileOutcome rows positions d ids [] w.journal, w) := by
  refine run_bind_ok (run_states hj) (run_bind_ok (run_fetchPositions) ?_)
  dsimp only
  unfold reconcileOutcome
  cases hl : openLots w.journal with
  | error e => exact run_bind_error (by rw [run_readLots, hl])
  | ok lots => exact run_bind_ok (by rw [run_readLots, hl]) (run_bind_ok (run_states hj) rfl)

/-- **A reconciliation writes its adoptions, then its fills, and reports on the journal it leaves.** -/
theorem run_reconcile {w : World} {d : String} {finalize : Bool} (hj : Kept w.journal) :
    (Oracle.fixed orders positions).run (g.reconcile d finalize) w =
        (reconcileOutcome (orders d) positions d (OrderGateway.dayIds (statesOf w.journal) d)
          (contradicted (orders d) finalize (bindDay g.runId (orders d) d w.journal) (OrderGateway.dayIds (statesOf w.journal) d))
          (reconciled g.runId (orders d) d finalize w.journal),
         w.at (reconciled g.runId (orders d) d finalize w.journal)) ∧
      Kept (reconciled g.runId (orders d) d finalize w.journal) := by
  have hnd := dayIds_nodup w.journal d
  have hids : ∀ id ∈ OrderGateway.dayIds (statesOf w.journal) d, id ∈ idsOf w.journal := fun id h => (mem_dayIds h).1
  have hadopt := @run_adoptDay orders positions g (orders d) w.journal _ (boundOf w.journal) w
    hj hnd (fun id h => ⟨hids id h, rfl⟩)
  have hids1 := @idsOf_bindDay g.runId (orders d) d w.journal
  rw [reconciled, dayFills]
  unfold bindDay dayAdoptions at hids1 ⊢
  -- the journal between the passes is a variable from here on
  generalize hd : OrderGateway.dayIds (statesOf w.journal) d = ids at *
  generalize extend g.runId w.journal (adoptActs (orders d) (boundOf w.journal) (dayStates w.journal ids)) = j1 at *
  obtain ⟨hrun1, hk1⟩ := hadopt
  have hfill := @run_fillDay orders positions g (orders d) finalize j1 hk1.sound ids (w.at j1) hk1 hnd
    (fun id h => ⟨hids1 ▸ hids id h, by rw [World.at_journal, hids1]; exact hids id h, rfl⟩)
  rw [World.at_at, World.at_journal] at hfill
  obtain ⟨hrun2, hk2⟩ := hfill
  have hs1 := @run_states (Oracle.fixed orders positions) (w.at j1) hk1.sound
  have hl1 := @run_load (Oracle.fixed orders positions) (w.at j1) hk1.sound
  rw [World.at_journal] at hs1 hl1
  generalize extend g.runId j1 (fillActs (orders d) finalize j1 ids) = j2 at *
  refine ⟨?_, hk2⟩
  refine run_bind_ok (run_fetchDailyOrders d) (run_bind_ok (run_states hj.sound) ?_)
  dsimp only
  rw [hd]
  refine run_bind_ok hrun1 (run_bind_ok hs1 (run_bind_ok hl1 (run_bind_ok hrun2 ?_)))
  cases hb : contradicted (orders d) finalize j1 ids with
  | nil => exact run_finishReconcile (w := w.at j2) hk2.sound
  | cons x xs => rfl

end runs
end Order
