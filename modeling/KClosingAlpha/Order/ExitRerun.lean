import KClosingAlpha.Order.ExitShares
import KClosingAlpha.Order.Quiet
/-!
# ExitRerun — what a rerun of the exit reports

A run plans the day's exits when there are none, and later runs leave the plan alone.  Between them anything may
happen but a plan of exits, which nothing else makes.
-/
namespace Order

open Py (Dict)
open Prog (Reach Ends keeps)

/-! ## Operations that plan nothing -/

def Call.isPlan : Call → Bool
  | .plan .. => true
  | _ => false

/-- **Operations that plan nothing**, by any gateways, each possibly cut. -/
abbrev Tended : World → World → Prop := Session (fun _ _ => anything) (fun _ c => c.isPlan = false)

section tended

variable {g : OrderGateway} {c : Call} {w w' w₀ : World} {α : Type}

theorem calls_prog (hc : c.isPlan = false) : (c.prog g).Calls plansNothing := by
  cases c with
  | plan intents skips => cases hc
  | submit id deadline => exact (calls_submit id deadline).bind (fun _ => trivial)
  | reconcile d finalize => exact ((calls_reconcile d finalize).mono plansNothing_of_plain).bind (fun _ => trivial)
  | resolveCarryover d => exact ((calls_resolveCarryover d).mono plansNothing_of_plain).bind (fun _ => trivial)
  | cancelWorking d =>
    refine Prog.Calls.bind ?_ (fun _ => trivial)
    refine Prog.Calls.mono ?_ plansNothing_of_plain
    exact calls_readStates.bind (fun sts => calls_loadEvents.bind (fun events => calls_cancelEach events _))
  | resolveUnknownIntent enabled a id =>
    exact ((calls_resolveUnknownIntent enabled a id).mono plansNothing_of_plain).bind (fun _ => trivial)

theorem effect_plansNothing {op : GatewayOp} {r : Answer op} (hop : plansNothing op) (h : Effect op w r w') (id : String) :
    (view w'.journal id).intent = (view w.journal id).intent := by
  cases op with
  | append k i p run =>
    obtain ⟨ts, -, hr, rfl⟩ := h
    cases r with
    | error e => rfl
    | ok e =>
      obtain ⟨-, rfl⟩ := append_eq_ok.1 hr.symm
      have hk : ({ seq := nextSeq w.journal, ts, kind := k, intentId := i, runId := run, payload := p } : JournalEvent).kind ≠
        .intent := hop
      exact view_intent_snoc hk id
  | submitOrder i =>
    obtain ⟨hd, rfl⟩ := h
    rfl
  | journal | isHalted | sendsMade =>
    obtain ⟨-, rfl⟩ := h
    rfl
  | now | countSend =>
    cases h
    rfl
  | _ =>
    obtain ⟨hd, rfl⟩ := h
    rfl

/-- **Operations that plan nothing leave every intent what it was.** -/
theorem tended_intent (h : Tended w w') (id : String) : (view w'.journal id).intent = (view w.journal id).intent := by
  induction h with
  | refl => rfl
  | @tail w₁ w₂ _ hcall ih =>
    obtain ⟨g, c, n, hd, hc, hreach⟩ := hcall
    refine Eq.trans ?_ ih
    let same : World → Prop := fun x => (view x.journal id).intent = (view w₁.journal id).intent
    have hkept : ∀ op x r y, plansNothing op → same x → under anything op x r y → same y :=
      fun op x r y hop hx hE => (effect_plansNothing hop hE.1 id).trans hx
    have hstart : same (w₁.enter n hd) := rfl
    have hend : same w₂ := Prog.reach_of_calls hkept (calls_prog hc) hstart hreach
    exact hend

theorem tended_call (hc : c.isPlan = false) (h : Reach (under anything) (c.prog g) w w') : Tended w w' :=
  .single ⟨g, c, w.sendsMade, w.halted, hc, h⟩

theorem tended_enter (w : World) (n : Nat) (hd : Bool) : Tended w (w.enter n hd) :=
  .single ⟨⟨Sample.limits, "run", rfl⟩, .submit "" 0, n, hd, rfl, .here _ _⟩

theorem Tended.free (h : Tended w w') : FreeSession w w' := by
  induction h with
  | refl => exact .refl
  | tail _ hcall ih =>
    obtain ⟨g, c, n, hd, -, hr⟩ := hcall
    exact .tail ih ⟨g, c, n, hd, trivial, hr⟩

end tended

/-! ## What stays of a journal -/

section grown

variable {w w' : World} {id : String} {i : OrderIntent}

/-- **An intent is never changed.** -/
theorem session_intent (ht : Timely w) (h : FreeSession w w') (hid : id ∈ idsOf w.journal) :
    (view w'.journal id).intent = (view w.journal id).intent := by
  refine (session_invariant
    (I := fun x => id ∈ idsOf x.journal ∧ (view x.journal id).intent = (view w.journal id).intent)
    (fun _ _ _ h => h) (fun g c start x y _ hI hs => ?_) ht ⟨hid, rfl⟩ h).1.2
  cases hs with
  | quiet y hj hp hh =>
    rw [hj]
    exact hI
  | wrote e happ hs hw =>
    refine ⟨mem_idsOf_snoc.2 (.inl hI.1), Eq.trans ?_ hI.2⟩
    by_cases hk : e.kind = .intent
    · have hne : e.intentId ≠ id := fun heq => hw.intent_new hk (heq ▸ hI.1)
      rw [World.wrote_journal, view_snoc, if_neg hne]
    · exact view_intent_snoc hk id
  | posted i hd s hlast hk hid' hi hst hnew hcall => exact hI

theorem session_grown (ht : Timely w) (h : FreeSession w w') : Grown w.journal w'.journal :=
  ⟨fun _ hid => session_recorded ht h hid, fun _ hid => session_intent ht h hid, fun id => (session_later ht h id).filled⟩

theorem session_timely (h : FreeSession World.empty w) : Timely w :=
  (session_invariant (I := fun _ => True) (fun _ _ _ h => h) (fun _ _ _ _ _ _ _ _ => trivial) timely_empty trivial h).2

/-- **An intent that a plan call leaves was there or is one of its own.** -/
theorem plan_intent {R : Rules} {g : OrderGateway} {intents : List OrderIntent} {skips : List PlannedSkip}
    (h : Reach (under R) (g.plan intents skips) w w') (hi : (view w'.journal id).intent = some i) :
    (view w.journal id).intent = some i ∨ i ∈ intents := by
  have hpart := plan_part h
  by_cases hid : id ∈ idsOf w.journal
  · rw [view, hpart.once.1 hid] at hi
    exact .inl hi
  · have hnone : eventsOf w.journal id = [] := not_not.1 (fun hne => hid (mem_idsOf_iff_ne_nil.2 hne))
    obtain ⟨acts, hpre, hw⟩ := hpart
    obtain ⟨es, hes, hacts⟩ := hw.eventsOf id
    have hsub : (actsOf id acts).Sublist (actsOf id (fresh (idsOf w.journal) (offers intents skips))) := hpre.sublist.filter _
    rw [actsOf_fresh, if_neg hid, ← hacts] at hsub
    rw [view, hes, hnone, List.nil_append] at hi
    rcases es with _ | ⟨e, es⟩
    · cases hi
    · -- its one record is an offer of the call
      have he : (⟨e.kind, e.intentId, e.payload⟩ : Act) ∈ offers intents skips := by
        refine List.mem_of_find?_eq_some (Option.mem_toList.1 (hsub.subset ?_))
        exact List.mem_cons_self
      have hlen := hsub.length_le.trans Option.length_toList_le
      rw [List.length_map, List.length_cons] at hlen
      obtain rfl : es = [] := List.length_eq_zero_iff.1 (by omega)
      rcases List.mem_append.1 he with hintent | hskip
      · obtain ⟨x, hx, heq⟩ := List.mem_map.1 hintent
        simp only [intentAct, Act.mk.injEq] at heq
        obtain ⟨hk, hxid, hp⟩ := heq
        simp only [viewOf, List.foldl_cons, List.foldl_nil, View.push, ← hk, ← hxid, ← hp, if_true,
          intentFromPayload_intentToPayload, Except.toOption, Option.some.injEq] at hi
        exact .inr (hi ▸ hx)
      · obtain ⟨x, -, heq⟩ := List.mem_map.1 hskip
        simp only [skipAct, Act.mk.injEq] at heq
        simp [viewOf, View.push, ← heq.1, View.start] at hi

end grown

/-! ## One run of the exits -/

/-- Cut anywhere, only operations that plan nothing have run. -/
def Tends {α : Type} (p : Gw α) : Prop :=
  ∀ w₀ w, Tended w₀ w → keeps (under anything) (Tended w₀) p (fun _ _ => True) w

section tends

variable {g : OrderGateway} {α β : Type} {I : World → Prop} {w : World}

theorem Tends.bind {p : Gw α} {f : α → Gw β} (h : Tends p) (hf : ∀ a, Tends (f a)) : Tends (p >>= f) :=
  fun w₀ w hw => Prog.keeps_bind (h w₀ w hw) (fun a w' hw' _ => hf a w₀ w' hw')

theorem Tends.keeps {p : Gw α} (h : Tends p) (hI : ∀ x, Tended w x → I x) :
    keeps (under anything) I p (fun _ x => Tended w x) w :=
  Prog.keeps_mono (Prog.keeps_weaken (h w w .refl) hI) (fun _ _ _ hx => hx.1)

theorem tends_ret (a : α) : Tends (Prog.ret a : Gw α) := fun _ _ hw => Prog.keeps_ret hw trivial

theorem tends_raise (e : OrderError) : Tends (Prog.raise e : Gw α) := fun _ _ hw => Prog.keeps_raise hw

/-- A call that changes nothing but HALT. -/
theorem tends_perform (op : GatewayOp) (h : ∀ w r w', Effect op w r w' → ∃ hd, w' = { w with halted := hd }) :
    Tends (Prog.perform op) := by
  rintro w₀ w hw r w' ⟨hE, -⟩
  obtain ⟨hd, rfl⟩ := h w r w' hE
  have hafter : Tended w₀ { w with halted := hd } := hw.trans (tended_enter w w.sendsMade hd)
  exact ⟨hafter, Prog.keeps_ret hafter trivial⟩

theorem tends_prog {c : Call} {p : Gw α} (hc : c.isPlan = false)
    (hp : ∀ w w', Reach (under anything) p w w' → Reach (under anything) (c.prog g) w w') : Tends p :=
  fun _ w hw => Prog.keeps_of_reach (fun _ hr => hw.trans (tended_call hc (hp w _ hr)))

theorem tends_submit (id : String) (deadline : Int) : Tends (g.submit id deadline) :=
  tends_prog (c := .submit id deadline) rfl (fun _ _ hr => hr.bind)

theorem tends_reconcile (d : String) (finalize : Bool) : Tends (g.reconcile d finalize) :=
  tends_prog (c := .reconcile d finalize) rfl (fun _ _ hr => hr.bind)

theorem tends_resolveCarryover (d : String) : Tends (g.resolveCarryover d) :=
  tends_prog (c := .resolveCarryover d) rfl (fun _ _ hr => hr.bind)

theorem tends_readStates : Tends readStates :=
  fun _ _ hw => Prog.keeps_mono (keeps_readStates hw) (fun _ _ _ _ => trivial)

theorem keeps_readLots {R : Rules} (h : I w) :
    Prog.keeps (under R) I readLots (fun lots w' => w' = w ∧ openLots w.journal = .ok lots) w := by
  rintro j w' ⟨⟨rfl, rfl⟩, -⟩
  exact ⟨h, Prog.keeps_ofExcept h (fun lots hlots => ⟨rfl, hlots⟩)⟩

theorem tends_readLots : Tends readLots :=
  fun _ _ hw => Prog.keeps_mono (keeps_readLots hw) (fun _ _ _ _ => trivial)

theorem keeps_loadEvents (h : I w) : Prog.keeps (under anything) I loadEvents (fun _ w' => w' = w) w := by
  rintro j w' ⟨⟨rfl, rfl⟩, -⟩
  exact ⟨h, Prog.keeps_ofExcept h (fun _ _ => rfl)⟩

theorem tends_submitEach (deadline : Int) : ∀ ids : List String, Tends (g.submitEach deadline ids)
  | [] => tends_ret ()
  | id :: ids => (tends_submit id deadline).bind (fun _ => tends_submitEach deadline ids)

theorem Tends.attempt {p : Gw α} {f : Except OrderError α → Gw β} (h : Tends p) (hf : ∀ o, Tends (f o)) :
    Tends (p.attempt.bind f) :=
  fun w₀ w hw => Prog.keeps_attempt (h w₀ w hw) (fun o w' hw' => hf o w₀ w' hw')

theorem tends_ofExcept (x : Except OrderError α) : Tends (Prog.ofExcept x : Gw α) := by
  cases x with
  | ok a => exact tends_ret a
  | error e => exact tends_raise e

theorem tends_ensureToken : Tends ensureToken := tends_perform _ (fun _ _ _ h => h)

theorem tends_exitCarryover (d : String) : Tends (g.exitCarryover d) := by
  refine tends_readStates.bind (fun sts => ?_)
  split_ifs
  · have hadopt : Tends (do
        let token ← ensureToken
        Prog.ofExcept token
        g.resolveCarryover d : Gw Nat) :=
      tends_ensureToken.bind (fun token => (tends_ofExcept token).bind (fun _ => tends_resolveCarryover d))
    refine hadopt.attempt (fun o => ?_)
    split
    · exact tends_ret _
    · exact tends_ret _
    · exact tends_raise _
  · exact tends_ret _

end tends

/-- The day's exits as a journal has them planned: none before, and of its lots within their quantities. -/
structure DayPlan (d : String) (j : Journal) (lots : List OpenLot) (intents : List OrderIntent) : Prop where
  none : exitsOf (statesOf j) d = []
  read : openLots j = .ok lots
  within : ∀ i ∈ intents, i.phase = .exit ∧ i.tradingDate = d ∧ ∃ l ∈ freshLots d lots,
    i.intentId = exitIntentId l.entryIntentId d ∧ i.parentIntentId = some l.entryIntentId ∧ i.qty ≤ l.qty

/-- A run of the exits after its plan. -/
def Planned (d : String) (w₀ : World) (lots : List OpenLot) (intents : List OrderIntent) (x : World) : Prop :=
  ∃ g skips w₁ w₂, Tended w₀ w₁ ∧ DayPlan d w₁.journal lots intents ∧
    Reach (under anything) (OrderGateway.plan g intents skips) w₁ w₂ ∧ Tended w₂ x

/-- A run of the exits, cut anywhere. -/
def Exited (d : String) (w₀ x : World) : Prop := Tended w₀ x ∨ ∃ lots intents, Planned d w₀ lots intents x

/-- What the report of a run says is left, of the lots it has read. -/
inductive Reported (d : String) (w₀ x : World) (m : ExitMetrics) : Prop
  | again (w₁ : World) (lots : List OpenLot) (h₁ : Tended w₀ w₁) (hlots : openLots w₁.journal = .ok lots)
      (hx : Tended w₁ x) (hm : m.shortfallQty = shortfallQty (statesOf x.journal)
        (plannedLots (statesOf w₁.journal) (exitsOf (statesOf w₁.journal) d) (freshLots d lots))
        ((exitsOf (statesOf w₁.journal) d).map (·.intentId)))
  | first (lots : List OpenLot) (intents : List OrderIntent) (hx : Planned d w₀ lots intents x)
      (hm : m.shortfallQty = shortfallQty (statesOf x.journal) (freshLots d lots) (intents.map (·.intentId)))

section run

variable {g : OrderGateway} {d env : String} {clock : ExitClock} {lots : List OpenLot} {intents : List OrderIntent}
  {n : Nat} {w w₀ x y : World} {I : World → Prop} {ids : List String} {skipped : Nat} {tLast : Int} {post : Option String}

theorem Planned.tended (h : Planned d w₀ lots intents x) (hy : Tended x y) : Planned d w₀ lots intents y := by
  obtain ⟨g, skips, w₁, w₂, h₁, hp, hr, hx⟩ := h
  exact ⟨g, skips, w₁, w₂, h₁, hp, hr, hx.trans hy⟩

theorem keeps_finishExitReport (h : I w) :
    keeps (under anything) I (g.finishExitReport d env clock lots ids skipped tLast n post)
      (fun r x => x = w ∧ ∀ m, r.metrics = some m → m.shortfallQty = shortfallQty (statesOf w.journal) lots ids) w := by
  refine Prog.keeps_bind (keeps_readStates h) (fun sts w' hI hsts => ?_)
  obtain ⟨rfl, hsts⟩ := hsts
  obtain ⟨-, rfl⟩ := states_eq_ok.1 hsts
  refine Prog.keeps_bind (keeps_loadEvents h) (fun events w'' hI'' heq => ?_)
  subst heq
  refine Prog.keeps_ret hI ⟨rfl, fun m hm => ?_⟩
  cases hm
  rfl

/-- A run that finds the exits planned. -/
theorem keeps_exitAgain (h₁ : Tended w₀ w) (hlots : openLots w.journal = .ok lots) :
    keeps (under anything) (Exited d w₀) (g.exitAgain d env clock n (freshLots d lots) (statesOf w.journal))
      (fun r x => ∀ m, r.metrics = some m → Reported d w₀ x m) w := by
  have hI : ∀ y, Tended w y → Exited d w₀ y := fun y hy => .inl (h₁.trans hy)
  refine Prog.keeps_bind ((tends_submitEach _ _).keeps hI) (fun _ w₂ _ h₂ => ?_)
  rintro t w₃ ⟨rfl, -⟩
  refine ⟨hI _ h₂, ?_⟩
  simp only [Prog.ret_bind]
  refine Prog.keeps_bind (keeps_readStates (hI _ h₂)) (fun sts w₄ _ hsts => ?_)
  obtain ⟨rfl, -⟩ := hsts
  refine Prog.keeps_bind (keeps_loadEvents (hI _ h₂)) (fun events w₅ _ heq => ?_)
  subst heq
  refine Prog.keeps_mono (keeps_finishExitReport (hI _ h₂)) (fun r x _ hr m hm => ?_)
  obtain ⟨rfl, hr⟩ := hr
  exact .again w lots h₁ hlots h₂ (hr m hm)

/-- A plan, and what follows it to the report. -/
theorem keeps_planned {skips : List PlannedSkip} {rest : Gw ExitReport} (hw : Tended w₀ w)
    (hp : DayPlan d w.journal lots intents)
    (hrest : ∀ y, Planned d w₀ lots intents y → keeps (under anything) (Planned d w₀ lots intents) rest (fun r x =>
      ∀ m, r.metrics = some m →
        m.shortfallQty = shortfallQty (statesOf x.journal) (freshLots d lots) (intents.map (·.intentId))) y) :
    keeps (under anything) (Exited d w₀) (g.plan intents skips >>= fun _ => rest)
      (fun r x => ∀ m, r.metrics = some m → Reported d w₀ x m) w := by
  have hplan : keeps (under anything) (Planned d w₀ lots intents) (g.plan intents skips) (fun _ _ => True) w :=
    Prog.keeps_of_reach (fun w₂ hr => ⟨g, skips, w, w₂, hw, hp, hr, .refl⟩)
  refine Prog.keeps_mono (Prog.keeps_weaken (Prog.keeps_bind hplan (fun _ y hy _ => hrest y hy)) ?_) ?_
  · exact fun y hy => .inr ⟨lots, intents, hy⟩
  · exact fun r x _ hr m hm => .first lots intents hr.1 (hr.2 m hm)

/-- A run that finds no exits planned. -/
theorem keeps_exitFirst (hw : Tended w₀ w) (hlots : openLots w.journal = .ok lots)
    (hnone : exitsOf (statesOf w.journal) d = []) :
    keeps (under anything) (Exited d w₀) (g.exitFirst d env clock n (freshLots d lots))
      (fun r x => ∀ m, r.metrics = some m → Reported d w₀ x m) w := by
  rintro halted w ⟨⟨rfl, rfl⟩, -⟩
  refine ⟨.inl hw, ?_⟩
  change keeps _ _ (ite _ _ _) _ _
  split_ifs
  · refine keeps_planned hw ⟨hnone, hlots, fun i hi => by cases hi⟩ (fun y hy => ?_)
    rintro t y' ⟨rfl, -⟩
    exact ⟨hy, Prog.keeps_mono (keeps_finishExitReport hy) (fun r x _ hr => by obtain ⟨rfl, hr⟩ := hr; exact hr)⟩
  · have hearly : ∀ {y} (outcome reason : String) (k : Option Nat), Tended w₀ y →
        keeps (under anything) (Exited d w₀)
          (Prog.ret (OrderGateway.early d env outcome reason k none) : Gw ExitReport)
          (fun r x => ∀ m, r.metrics = some m → Reported d w₀ x m) y :=
      fun _ _ _ hy => Prog.keeps_ret (.inl hy) (fun m hm => by cases hm)
    rintro token w' ⟨⟨hd, rfl⟩, -⟩
    have hw₁ := hw.trans (tended_enter w w.sendsMade hd)
    refine ⟨.inl hw₁, ?_⟩
    simp only [Prog.ret_bind]
    split
    · exact hearly _ _ _ hw₁
    · exact Prog.keeps_raise (.inl hw₁)
    · rintro positions w' ⟨⟨hd', rfl⟩, -⟩
      have hw₂ := hw₁.trans (tended_enter _ w.sendsMade hd')
      refine ⟨.inl hw₂, ?_⟩
      simp only [Prog.ret_bind]
      split
      · exact hearly _ _ _ hw₂
      · exact Prog.keeps_raise (.inl hw₂)
      · have hplan : keeps (under anything) (Exited d w₀)
            (Prog.ofExcept (exitIntents d (sellableOf ‹_›) (freshLots d lots)))
            (fun a x => x = { w with halted := hd' } ∧ exitIntents d (sellableOf ‹_›) (freshLots d lots) = .ok a)
            { w with halted := hd' } := Prog.keeps_ofExcept (.inl hw₂) (fun a ha => ⟨rfl, ha⟩)
        refine Prog.keeps_bind hplan (fun a w' _ ha => ?_)
        obtain ⟨intents, skips⟩ := a
        obtain ⟨rfl, ha⟩ := ha
        refine keeps_planned hw₂ ⟨hnone, hlots, exitIntents_within ha⟩ (fun y hy => ?_)
        refine Prog.keeps_bind ((tends_submitEach _ _).keeps (fun z hz => hy.tended hz)) (fun _ y₁ hy₁ _ => ?_)
        rintro t y₂ ⟨rfl, -⟩
        refine ⟨hy₁, ?_⟩
        simp only [Prog.ret_bind]
        refine Prog.keeps_attempt ((tends_reconcile d false).keeps (fun z hz => hy₁.tended hz)) (fun o y₃ hy₃ => ?_)
        have hreport : ∀ post, keeps (under anything) (Planned d w₀ lots intents)
            (g.finishExitReport d env clock (freshLots d lots) (intents.map (·.intentId)) skips.length t n post)
            (fun r x => ∀ m, r.metrics = some m → m.shortfallQty =
              shortfallQty (statesOf x.journal) (freshLots d lots) (intents.map (·.intentId))) y₃ :=
          fun post => Prog.keeps_mono (keeps_finishExitReport hy₃) (fun r x _ hr => by obtain ⟨rfl, hr⟩ := hr; exact hr)
        split
        · exact hreport _
        · exact hreport _
        · exact Prog.keeps_raise hy₃

theorem keeps_exitOn (hw : Tended w₀ w) : keeps (under anything) (Exited d w₀) (g.exitOn d env clock n)
    (fun r x => ∀ m, r.metrics = some m → Reported d w₀ x m) w := by
  refine Prog.keeps_bind (keeps_readLots (.inl hw)) (fun lots w' _ hlots => ?_)
  obtain ⟨rfl, hlots⟩ := hlots
  refine Prog.keeps_bind (keeps_readStates (.inl hw)) (fun sts w'' _ hsts => ?_)
  obtain ⟨rfl, hsts⟩ := hsts
  obtain ⟨-, rfl⟩ := states_eq_ok.1 hsts
  split_ifs with hnone
  · exact keeps_exitFirst hw hlots (List.isEmpty_iff.1 hnone)
  · exact keeps_exitAgain hw hlots

/-- **One run under the lock**: it tends and plans at most the day's exits, and reports what is left of the lots it read. -/
theorem keeps_exitLocked (carried : Option Nat) (w : World) :
    keeps (under anything) (Exited d w) (g.exitLocked d env clock carried)
      (fun r x => ∀ m, r.metrics = some m → Reported d w x m) w := by
  cases carried with
  | some n => exact keeps_exitOn .refl
  | none =>
    exact Prog.keeps_bind ((tends_exitCarryover d).keeps (fun y hy => .inl hy)) (fun _ y _ hy => keeps_exitOn hy)

/-- What a run does before the lock plans nothing. -/
theorem tends_exitOpening : Tends (g.exitOpening d env clock) := by
  have hnow : Tends nowFn := tends_perform _ (fun w r w' h => ⟨w.halted, h⟩)
  have hsleep : ∀ s, Tends (sleepFn s) := fun s => tends_perform (.sleep s) (fun _ _ _ h => h)
  refine tends_readLots.bind (fun before => Tends.bind ?_ (fun a => ?_))
  · split_ifs
    · exact (tends_exitCarryover d).bind (fun _ => tends_readLots.bind (fun _ => tends_ret _))
    · exact tends_ret _
  · obtain ⟨carried, lots⟩ := a
    dsimp only
    split_ifs
    · exact tends_ret _
    · refine hnow.bind (fun now => ?_)
      split_ifs
      · exact tends_ret _
      · refine (hsleep _).bind (fun _ => hnow.bind (fun now => tends_readLots.bind (fun lots => ?_)))
        split_ifs <;> exact tends_ret _
      all_goals exact tends_ret _

end run

/-! ## The desk -/

/-- What is done on the desk at a time, possibly cut: an operation that plans no exits, or a run of the exits. -/
inductive DeskStep (w x : World) : Prop
  | call (g : OrderGateway) (c : Call) (n : Nat) (hd : Bool)
      (hc : ∀ intents skips, c = .plan intents skips → ∀ i ∈ intents, i.phase = .entry)
      (h : Reach (under anything) (c.prog g) (w.enter n hd) x)
  | opening (g : OrderGateway) (d env : String) (clock : ExitClock) (n : Nat) (hd : Bool)
      (h : Reach (under anything) (g.exitOpening d env clock) (w.enter n hd) x)
  | run (g : OrderGateway) (d env : String) (clock : ExitClock) (carried : Option Nat) (n : Nat) (hd : Bool)
      (h : Reach (under anything) (g.exitLocked d env clock carried) (w.enter n hd) x)

/-- **The desk at work**, with any broker, clock, HALT file and crashes. -/
abbrev Desk : World → World → Prop := Relation.ReflTransGen DeskStep

theorem length_of_canonical {d : String} (h : isCanonicalDate d = true) : d.toList.length = 10 := by
  obtain ⟨ymd, hymd, -⟩ := (Option.any_eq_true _ _).1 h
  unfold parseDate at hymd
  split at hymd
  · rename_i heq
    rw [heq]
    rfl
  · cases hymd

/-- The id of an exit names its lot and its date. -/
theorem exitIntentId_inj {p p' d d' : String} (hd : isCanonicalDate d = true) (hd' : isCanonicalDate d' = true)
    (h : exitIntentId p d = exitIntentId p' d') : p = p' ∧ d = d' := by
  have hlist := congrArg String.toList h
  simp only [exitIntentId, String.toList_append] at hlist
  have hlen : d.toList.length = d'.toList.length := by rw [length_of_canonical hd, length_of_canonical hd']
  obtain ⟨hfront, hdate⟩ := List.append_inj' hlist hlen
  obtain ⟨hparent, -⟩ := List.append_inj' hfront rfl
  exact ⟨String.toList_inj.1 hparent, String.toList_inj.1 hdate⟩

section desk

variable {w x wA : World} {id d : String} {i : OrderIntent} {lots lots₀ : List OpenLot} {intents : List OrderIntent}

theorem called_plan {g : OrderGateway} {skips : List PlannedSkip}
    (h : Reach (under anything) (g.plan intents skips) w x) : FreeSession w x :=
  .single ⟨g, .plan intents skips, w.sendsMade, w.halted, trivial, h⟩

/-- Where a plan comes from: a session of entries, or a run of a day's exits. -/
theorem DeskStep.cases (h : DeskStep w x) : Tended w x ∨ ∃ g intents skips w₁ w₂, Tended w w₁ ∧
    Reach (under anything) (OrderGateway.plan g intents skips) w₁ w₂ ∧ Tended w₂ x ∧
      ((∀ i ∈ intents, i.phase = .entry) ∨ ∃ d lots, DayPlan d w₁.journal lots intents) := by
  cases h with
  | call g c n hd hc h =>
    cases hp : c.isPlan with
    | false => exact .inl ((tended_enter w n hd).trans (tended_call hp h))
    | true =>
      cases c with
      | plan intents skips => exact .inr ⟨g, intents, skips, _, _, tended_enter w n hd, h, .refl, .inl (hc _ _ rfl)⟩
      | _ => cases hp
  | opening g d env clock n hd h =>
    exact .inl (Prog.keeps_reach (tends_exitOpening w _ (tended_enter w n hd)) (tended_enter w n hd) h)
  | run g d env clock carried n hd h =>
    rcases Prog.keeps_reach (keeps_exitLocked carried _) (.inl .refl) h with ht | ⟨lots, intents, hplanned⟩
    · exact .inl ((tended_enter w n hd).trans ht)
    · obtain ⟨g, skips, w₁, w₂, h₁, hp, hr, hx⟩ := hplanned
      exact .inr ⟨g, intents, skips, w₁, w₂, (tended_enter w n hd).trans h₁, hr, hx, .inr ⟨d, lots, hp⟩⟩

theorem DeskStep.free (h : DeskStep w x) : FreeSession w x := by
  rcases h.cases with ht | ⟨g, intents, skips, w₁, w₂, h₁, hr, hx, -⟩
  · exact ht.free
  · exact h₁.free.trans ((called_plan hr).trans hx.free)

theorem desk_free (h : Desk w x) : FreeSession w x := by
  induction h with
  | refl => exact .refl
  | tail _ hs ih => exact ih.trans hs.free

/-- **An intent of a step** was there, is an entry, or is of a day's exits planned on the way. -/
theorem DeskStep.intent (h : DeskStep w x) (hi : (view x.journal id).intent = some i) :
    (view w.journal id).intent = some i ∨ i.phase = .entry ∨
      ∃ d lots intents w₁, Tended w w₁ ∧ FreeSession w₁ x ∧ DayPlan d w₁.journal lots intents ∧ i ∈ intents := by
  rcases h.cases with ht | ⟨g, intents, skips, w₁, w₂, h₁, hr, hx, hkind⟩
  · exact .inl ((tended_intent ht id).symm.trans hi)
  · rw [tended_intent hx id] at hi
    rcases plan_intent hr hi with hold | hnew
    · exact .inl ((tended_intent h₁ id).symm.trans hold)
    · rcases hkind with hentry | ⟨d, lots, hp⟩
      · exact .inr (.inl (hentry i hnew))
      · exact .inr (.inr ⟨d, lots, intents, w₁, h₁, (called_plan hr).trans hx.free, hp, hnew⟩)

theorem desk_named (h : Desk World.empty w) : Named w.journal := by
  induction h with
  | refl => exact fun id i hi => by cases hi
  | @tail w₁ w₂ _ hs ih =>
    intro id i hi hexit
    rcases hs.intent hi with hold | hentry | ⟨d, lots, intents, w', -, -, hp, hmem⟩
    · exact ih id i hold hexit
    · rw [hexit] at hentry
      cases hentry
    · obtain ⟨-, hdate, l, -, hid, hparent, -⟩ := hp.within i hmem
      rw [← view_intentId hi, hid, hparent, hdate, Option.getD_some]

theorem OthersKept.back {j₀ j j' : Journal} (hg₀ : Grown j₀ j) (hg : Grown j j') (h : OthersKept d j₀ j') :
    OthersKept d j₀ j := by
  intro id i hi helse
  have hsame := (hg.intent id (mem_idsOf_of_intent hi)).trans hi
  have hbefore := hg₀.filled id
  have hafter := hg.filled id
  have heq := h id i hsame helse
  omega

/-- **The day's exits are of the lots the day began with**, while no fill of an earlier entry or of another day's exit
comes in between. -/
theorem desk_within (h₀ : Desk World.empty wA) (hnone : exitsOf (statesOf wA.journal) d = [])
    (hlots : openLots wA.journal = .ok lots₀) (h : Desk wA w) (hs : OthersKept d wA.journal w.journal) :
    Within d (freshLots d lots₀) w.journal := by
  have htA := session_timely (desk_free h₀)
  induction h with
  | refl =>
    intro id i hi hexit hdate
    obtain rfl := view_intentId hi
    have hmem := mem_exitsOf.2 ⟨hi, hexit, hdate⟩
    rw [hnone] at hmem
    cases hmem
  | @tail w₁ w₂ hdesk hstep ih =>
    have ht₁ := session_timely (desk_free (h₀.trans hdesk))
    have hback := hs.back (session_grown htA (desk_free hdesk)) (session_grown ht₁ hstep.free)
    intro id i hi hexit hdate
    rcases hstep.intent hi with hold | hentry | ⟨d', lots, intents, w', h', hfree, hp, hmem⟩
    · exact ih hback id i hold hexit hdate
    · rw [hexit] at hentry
      cases hentry
    · obtain ⟨-, hdate', l, hl, -, hparent, hqty⟩ := hp.within i hmem
      obtain rfl : d' = d := hdate'.symm.trans hdate
      have hw' : FreeSession World.empty w' := (desk_free (h₀.trans hdesk)).trans h'.free
      have hg' := session_grown htA ((desk_free hdesk).trans h'.free)
      have hn' : Named w'.journal := fun k x hx => desk_named (h₀.trans hdesk) k x ((tended_intent h' k).symm.trans hx)
      obtain ⟨l₀, hl₀, heq, hle⟩ := planned_lot hlots hnone hg' (hs.back hg' (session_grown (session_timely hw') hfree))
        hp.read hn' (session_fits hw') hl
      exact ⟨l₀, hl₀, by rw [heq, hparent], hqty.trans hle⟩

/-- What a report counts of lots, its ids the day's exits. -/
theorem shortfallQty_eq {j : Journal} {ids : List String} {ls : List OpenLot} (hn : Named j)
    (hday : ∀ k ∈ ids, ∀ i, (view j k).intent = some i → i.phase = .exit → i.tradingDate = d)
    (hin : ∀ k i, (view j k).intent = some i → i.phase = .exit → i.tradingDate = d → k ∈ ids) :
    shortfallQty (statesOf j) ls ids = (ls.map (fun l => l.qty - soldOn j d l.entryIntentId)).sum := by
  refine congrArg List.sum (List.map_congr_left (fun l _ => ?_))
  rw [getD_soldByParent hn (fun k hk i hi hp => hday k hk i hi (i.exit_of_parent hp)) (fun i hi hon => ?_)]
  obtain ⟨hexit, -, hdate⟩ := isExitOn_iff.1 hon
  exact hin _ i hi hexit hdate

/-- **A run reports what is left of the lots the day began with.** -/
theorem reported_unsold (h₀ : Desk World.empty wA) (hnone : exitsOf (statesOf wA.journal) d = [])
    (hlots : openLots wA.journal = .ok lots₀) (h : Desk wA w) {n : Nat} {hd : Bool} {m : ExitMetrics}
    (hrep : Reported d (w.enter n hd) x m) (hnx : Named x.journal) (hs : OthersKept d wA.journal x.journal) :
    m.shortfallQty = unsoldQty d (freshLots d lots₀) x.journal := by
  -- the lots read on the way, with what the day had filled added back
  have hread : ∀ {w' : World} {lots : List OpenLot}, Tended (w.enter n hd) w' → FreeSession w' x →
      openLots w'.journal = .ok lots → ((freshLots d lots).map (fun l =>
        l.qty + totalOn w'.journal d l.entryIntentId (·.filledQty) - soldOn x.journal d l.entryIntentId)).sum =
      unsoldQty d (freshLots d lots₀) x.journal := by
    intro w' lots ht hfree hl
    have ht : Tended w w' := (tended_enter w n hd).trans ht
    have hsame := fun k => tended_intent ht k
    have hw : FreeSession wA w' := (desk_free h).trans ht.free
    have hw' : FreeSession World.empty w' := (desk_free h₀).trans hw
    have hgrown := session_grown (session_timely (desk_free h₀)) hw
    have hgrown' := session_grown (session_timely hw') hfree
    have hback := hs.back hgrown hgrown'
    have hfirst := hs.back (session_grown (session_timely (desk_free h₀)) (desk_free h))
      (session_grown (session_timely (desk_free (h₀.trans h))) (ht.free.trans hfree))
    have hnamed : Named w'.journal := fun k i hi => desk_named (h₀.trans h) k i ((hsame k).symm.trans hi)
    have hwithin : Within d (freshLots d lots₀) w'.journal :=
      fun k i hi => desk_within h₀ hnone hlots h hfirst k i ((hsame k).symm.trans hi)
    exact unsoldQty_rerun hlots hnone hgrown hback hl hwithin hnamed (session_fits hw') hgrown' hnx
      (session_fits (hw'.trans hfree))
  cases hrep with
  | again w₁ lots h₁ hl hx hm =>
    rw [hm, ← hread h₁ hx.free hl, shortfallQty_eq (d := d) hnx]
    · simp only [plannedLots, List.map_map, Function.comp_def, filledToday_eq]
    · intro k hk i hi _
      obtain ⟨i₀, hi₀, rfl⟩ := List.mem_map.1 hk
      obtain ⟨hi₀, -, hdate⟩ := mem_exitsOf.1 hi₀
      rw [tended_intent hx, hi₀] at hi
      cases hi
      exact hdate
    · intro k i hi hexit hdate
      rw [tended_intent hx] at hi
      obtain rfl := view_intentId hi
      exact List.mem_map_of_mem (mem_exitsOf.2 ⟨hi, hexit, hdate⟩)
  | first lots intents hx hm =>
    obtain ⟨g, skips, w₁, w₂, h₁, hp, hr, hx⟩ := hx
    have hsum := hread h₁ ((called_plan hr).trans hx.free) hp.read
    simp only [totalOn_eq_zero hp.none, Int.add_zero] at hsum
    rw [hm, ← hsum, shortfallQty_eq (d := d) hnx]
    · intro k hk i hi hexit
      obtain ⟨i₀, hi₀, rfl⟩ := List.mem_map.1 hk
      obtain ⟨-, hdate, l, -, hid, -⟩ := hp.within i₀ hi₀
      have hname := hnx _ i hi hexit
      rw [hid] at hname
      exact (exitIntentId_inj (hdate ▸ i₀.valid_parts.2.2.1) i.valid_parts.2.2.1 hname).2.symm
    · intro k i hi hexit hdate
      rw [tended_intent hx] at hi
      rcases plan_intent hr hi with hold | hnew
      · obtain rfl := view_intentId hold
        have hmem := mem_exitsOf.2 ⟨hold, hexit, hdate⟩
        rw [hp.none] at hmem
        cases hmem
      · exact view_intentId hi ▸ List.mem_map_of_mem hnew

/-- **The exits of a day and their reruns agree.**  A plan takes no more of a lot than it has, and of a symbol the least
of what may be sold and what is held.  A later run of the day that comes to its report says what is left of the lots the
day began with, and the first run's value while no state has changed, in every run in which no earlier entry and no other
day's exit fills in between. -/
theorem exit_rerun_agrees :
    (∀ lots positions intents skips, (∀ l ∈ lots, 0 < l.qty) → (∀ p ∈ positions, 0 ≤ p.sellableQty) →
      exitIntents d (sellableOf positions) lots = .ok (intents, skips) →
        (∀ i ∈ intents, ∃ l ∈ lots, i.intentId = exitIntentId l.entryIntentId d ∧
          i.parentIntentId = some l.entryIntentId ∧ i.qty ≤ l.qty) ∧
        ∀ symbol, plannedQty intents symbol = min (Dict.getD (sellableOf positions) symbol 0) (heldQty lots symbol)) ∧
    (Desk World.empty wA → exitsOf (statesOf wA.journal) d = [] → openLots wA.journal = .ok lots → Desk wA w →
      ∀ (g : OrderGateway) env clock carried n hd r m,
        Ends (under anything) (g.exitLocked d env clock carried) (w.enter n hd) (.ok r) x → r.metrics = some m →
        OthersKept d wA.journal x.journal →
          m.shortfallQty = unsoldQty d (freshLots d lots) x.journal ∧ 0 ≤ m.shortfallQty ∧
          ∀ (g₁ : OrderGateway) env₁ clock₁ n₁ r₁ m₁ w₁,
            Ends (under anything) (g₁.exitOn d env₁ clock₁ n₁) wA (.ok r₁) w₁ → r₁.metrics = some m₁ → Desk w₁ w →
            statesOf w₁.journal = statesOf x.journal → m.shortfallQty = m₁.shortfallQty) := by
  refine ⟨fun lots positions intents skips hpos hsell h => ⟨fun i hi => ?_, fun symbol => ?_⟩, ?_⟩
  · exact (exitIntents_within h i hi).2.2
  · exact exitIntents_qty h hpos (sellableOf_nonneg hsell)
  intro h₀ hnone hlots hdesk g env clock carried n hd r m hrun hm hs
  have hx : Desk wA x := hdesk.tail (.run g d env clock carried n hd hrun.reach)
  have hnx := desk_named (h₀.trans hx)
  have hunsold := reported_unsold h₀ hnone hlots hdesk
    ((Prog.wpx_ends (keeps_exitLocked carried _) hrun).2 r rfl m hm) hnx hs
  have hwithin := desk_within h₀ hnone hlots hx hs
  refine ⟨hunsold, ?_, fun g₁ env₁ clock₁ n₁ r₁ m₁ w₁ hrun₁ hm₁ hdesk₁ hsame => ?_⟩
  · exact hunsold ▸ unsoldQty_nonneg hlots hwithin hnx (session_fits (desk_free (h₀.trans hx)))
  · have hw₁ : Desk wA w₁ := .single (.run g₁ d env₁ clock₁ (some n₁) wA.sendsMade wA.halted hrun₁.reach)
    have hback := hs.back (session_grown (session_timely (desk_free h₀)) (desk_free hw₁))
      (session_grown (session_timely (desk_free (h₀.trans hw₁)))
        (desk_free (hdesk₁.tail (.run g d env clock carried n hd hrun.reach))))
    have hfirst := reported_unsold (w := wA) (n := wA.sendsMade) h₀ hnone hlots .refl
      ((Prog.wpx_ends (keeps_exitLocked (some n₁) wA) hrun₁).2 r₁ rfl m₁ hm₁) (desk_named (h₀.trans hw₁)) hback
    rw [hunsold, hfirst]
    unfold unsoldQty soldOn totalOn
    simp only [← sum_statesOf, hsame]

end desk

namespace Sample

/-- The first exit has sold four by the time its daily list can be read. -/
def splitMarket : Oracle :=
  { lateMarket with
    orders := fun w d =>
      if d = "2025-01-03" ∧ 3 ≤ w.posts.length then .ok [row "2" lateExit 4]
      else if d = "2025-01-06" ∧ 3 ≤ w.posts.length then .ok [row "3" secondExit 0]
      else lateMarket.orders w d }

def clock : ExitClock :=
  { hhmmss := fun _ => "084500", earliest := 0, deadline := 1, maxPrestartWait := 0, seconds := fun _ => Py.PyFloat.ofInt 0 }

/-- A run of the exits of a date. -/
def exitRun (d : String) (w : World) : Except OrderError ExitReport × World :=
  splitMarket.run (gateway.exitLocked d "mock" clock none) (w.enter 0 false)

/-- What a run reports left. -/
def left (r : Except OrderError ExitReport × World) : Option Int := (r.1.toOption.bind (·.metrics)).map (·.shortfallQty)

/-- The day before the lost exit's list can be read. -/
def beforeSplit : World := (exitRun "2025-01-03" held).2

theorem left_eq_some {r : Except OrderError ExitReport × World} {q : Int} (h : left r = some q) :
    ∃ report m, r.1 = .ok report ∧ report.metrics = some m := by
  obtain ⟨o, w⟩ := r
  cases o with
  | error e => cases h
  | ok report =>
    obtain ⟨m, hm, -⟩ := Option.map_eq_some_iff.1 h
    exact ⟨report, m, rfl, hm⟩

theorem exitRun_ends (d : String) (w : World) : Ends (under anything) (gateway.exitLocked d "mock" clock none)
    (w.enter 0 false) (exitRun d w).1 (exitRun d w).2 :=
  Prog.run_ends (fun op w => ⟨splitMarket.effect op w, trivial⟩) _ _

theorem desk_exitRun {w₀ w : World} (h : Desk w₀ w) (d : String) : Desk w₀ (exitRun d w).2 :=
  h.tail (.run gateway d "mock" clock none 0 false (exitRun_ends d w).reach)

theorem desk_held : Desk World.empty held := by
  have hcall : ∀ {w : World} (c : Call), (∀ intents skips, c = .plan intents skips → ∀ i ∈ intents, i.phase = .entry) →
      Desk World.empty w → Desk World.empty (step c w) := fun {w} c hc h =>
    h.tail (.call gateway c 0 false hc (Prog.run_ends (E := under anything) (fun op w => ⟨lateMarket.effect op w, trivial⟩) _ _).reach)
  refine hcall _ (fun _ _ h => by cases h) (hcall _ (fun _ _ h => by cases h) (hcall _ (fun intents skips h i hi => ?_) .refl))
  cases h
  rw [List.mem_singleton.1 hi]
  rfl

end Sample

/-- Where no other day's exit fills, a rerun says what is left. -/
theorem exit_rerun_agrees_held :
    plannedQty [Sample.secondExit] "005930" = min 20 (heldQty [⟨Sample.samsung.intentId, "005930", "2025-01-02", 10⟩] "005930") ∧
    ∃ lots r m, openLots Sample.held.journal = .ok lots ∧
      (Sample.exitRun "2025-01-06" (Sample.exitRun "2025-01-06" Sample.held).2).1 = .ok r ∧ r.metrics = some m ∧
      m.shortfallQty = unsoldQty "2025-01-06" (freshLots "2025-01-06" lots)
        (Sample.exitRun "2025-01-06" (Sample.exitRun "2025-01-06" Sample.held).2).2.journal ∧ 0 ≤ m.shortfallQty := by
  obtain ⟨hplan, hrerun⟩ := @exit_rerun_agrees (Sample.exitRun "2025-01-06" Sample.held).2
    (Sample.exitRun "2025-01-06" (Sample.exitRun "2025-01-06" Sample.held).2).2 Sample.held "2025-01-06"
    [⟨Sample.samsung.intentId, "005930", "2025-01-02", 10⟩]
  refine ⟨(hplan [⟨Sample.samsung.intentId, "005930", "2025-01-02", 10⟩] Sample.holdings [Sample.secondExit] [] (by decide)
    (by decide) rfl).2 "005930", ?_⟩
  have hleft : Sample.left (Sample.exitRun "2025-01-06" (Sample.exitRun "2025-01-06" Sample.held).2) = some 0 := by
    decide +kernel
  obtain ⟨r, m, hr, hm⟩ := Sample.left_eq_some hleft
  have hends := Sample.exitRun_ends "2025-01-06" (Sample.exitRun "2025-01-06" Sample.held).2
  rw [hr] at hends
  have hlots : openLots Sample.held.journal = .ok [⟨Sample.samsung.intentId, "005930", "2025-01-02", 10⟩] := by decide +kernel
  obtain ⟨hunsold, hnonneg, -⟩ := hrerun Sample.desk_held (by decide +kernel) hlots
    (Sample.desk_exitRun .refl _) _ _ _ _ _ _ r m hends hm (by decide +kernel)
  exact ⟨_, r, m, hlots, hr, hm, hunsold, hnonneg⟩

/-- The lost exit of another day is adopted with a partial fill between the day's first run and its rerun, which reports
that four shares less than none are left. -/
theorem exit_rerun_negative : Desk World.empty Sample.beforeSplit ∧
    exitsOf (statesOf Sample.beforeSplit.journal) "2025-01-06" = [] ∧
    Desk Sample.beforeSplit (Sample.exitRun "2025-01-06" Sample.beforeSplit).2 ∧
    Sample.left (Sample.exitRun "2025-01-06" Sample.beforeSplit) = some 0 ∧
    Sample.left (Sample.exitRun "2025-01-06" (Sample.exitRun "2025-01-06" Sample.beforeSplit).2) = some (-4) := by
  refine ⟨Sample.desk_exitRun Sample.desk_held _, by decide +kernel, Sample.desk_exitRun .refl _, ?_, ?_⟩
  · decide +kernel
  · decide +kernel

end Order
