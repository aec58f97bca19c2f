import KClosingAlpha.Order.Calls
import KClosingAlpha.Order.Oracle
import KClosingAlpha.Order.Quiet
/-!
# RunCap — the cap on the POSTs of one run

A gateway counts its POSTs at two places and compares the count at one: before an intent's first SEND.  The attempts of
the loop, a submit of an intent that has a SEND, and the resend of an exit are not compared.
-/
namespace Order

open Prog (Reach Ends wpx)

/-- Every SEND of an intent that has one is written below the cap. -/
def capRules (cap : Int) : Rules
  | .append .send id _ _, w, _ => 0 < (view w.journal id).sends → (w.sendsMade : Int) < cap
  | _, _, _ => True

/-- A submit that came to its end; the journal and HALT may have changed before it, the gateway's counter has not. -/
def Submitted (R : Rules) (g : OrderGateway) (w w' : World) : Prop :=
  ∃ id deadline j h o, Ends (under R) (g.submit id deadline) { w with journal := j, halted := h } o w'

/-- **A run of one gateway**: submits one after the other, the last one cut anywhere. -/
def SubmitRun (R : Rules) (g : OrderGateway) (w w' : World) : Prop :=
  ∃ w₁ id deadline j h, Relation.ReflTransGen (Submitted R g) w w₁ ∧
    Reach (under R) (g.submit id deadline) { w₁ with journal := j, halted := h } w'

/-! ## Calls that send nothing -/

/-- A call that neither makes a POST nor counts one. -/
def sendsNothing : GatewayOp → Prop
  | .submitOrder _ | .countSend => False
  | _ => True

theorem sendsNothing_of_plain (op : GatewayOp) (h : plain op) : sendsNothing op := by
  cases op with
  | submitOrder i => exact h
  | countSend => exact h
  | _ => trivial

theorem View.sends_le_push (v : View) (e : JournalEvent) : v.sends ≤ (v.push e).sends := by
  by_cases hk : e.kind = .send
  · rw [View.push_sends_send hk]
    omega
  · rw [View.push_sends hk]

theorem sends_le_snoc (j : Journal) (e : JournalEvent) (id : String) : (view j id).sends ≤ (view (j ++ [e]) id).sends := by
  rw [view_snoc]
  split_ifs
  · exact View.sends_le_push _ e
  · exact Nat.le_refl _

theorem effect_sendsNothing {op : GatewayOp} {w w' : World} {r : Answer op} (hop : sendsNothing op) (h : Effect op w r w') :
    w'.posts = w.posts ∧ w'.sendsMade = w.sendsMade ∧ ∀ id, (view w.journal id).sends ≤ (view w'.journal id).sends := by
  cases op with
  | append k id p run =>
    obtain ⟨ts, -, -, rfl⟩ := h
    cases r with
    | error e => exact ⟨rfl, rfl, fun _ => Nat.le_refl _⟩
    | ok e => exact ⟨rfl, rfl, sends_le_snoc w.journal e⟩
  | submitOrder i => exact absurd hop id
  | countSend => exact absurd hop id
  | journal | isHalted | sendsMade =>
    obtain ⟨-, rfl⟩ := h
    exact ⟨rfl, rfl, fun _ => Nat.le_refl _⟩
  | now =>
    cases h
    exact ⟨rfl, rfl, fun _ => Nat.le_refl _⟩
  | _ =>
    obtain ⟨_, rfl⟩ := h
    exact ⟨rfl, rfl, fun _ => Nat.le_refl _⟩

/-! ## The count along a submit -/

/-- The POSTs since the run began are the ones counted, and no more than the cap. -/
structure Tallied (base : Nat) (cap : Int) (w : World) : Prop where
  counted : w.posts.length = base + w.sendsMade
  within : (w.sendsMade : Int) ≤ max 0 cap

/-- The next SEND of an intent is below the cap: by the rules where there was one, by the check where there was none. -/
structure Roomy (base : Nat) (cap : Int) (id : String) (w : World) : Prop extends Tallied base cap w where
  room : 0 < (view w.journal id).sends ∨ (w.sendsMade : Int) < cap

/-- Along `p` no more POSTs are made than the cap allows, and its outcome satisfies `Q`. -/
abbrev Capped (base : Nat) (cap : Int) {α : Type} (p : Gw α) (Q : Except OrderError α → World → Prop) (w : World) : Prop :=
  wpx (under (capRules cap)) (fun _ w' => (w'.posts.length : Int) ≤ base + max 0 cap) p Q w

section count

variable {g : OrderGateway} {base : Nat} {cap : Int} {id : String} {w : World} {α β : Type}

theorem Tallied.bound (h : Tallied base cap w) : (w.posts.length : Int) ≤ base + max 0 cap := by
  have := h.counted
  have := h.within
  omega

theorem Tallied.kept {op : GatewayOp} {w' : World} {r : Answer op} (h : Tallied base cap w) (hop : sendsNothing op)
    (he : Effect op w r w') : Tallied base cap w' := by
  obtain ⟨hposts, hsends, -⟩ := effect_sendsNothing hop he
  exact ⟨by rw [hposts, hsends]; exact h.counted, by rw [hsends]; exact h.within⟩

theorem Roomy.kept {op : GatewayOp} {w' : World} {r : Answer op} (h : Roomy base cap id w) (hop : sendsNothing op)
    (he : Effect op w r w') : Roomy base cap id w' := by
  obtain ⟨-, hsends, hview⟩ := effect_sendsNothing hop he
  refine ⟨h.toTallied.kept hop he, ?_⟩
  have := h.room
  have := hview id
  omega

theorem capped_quiet {p : Gw α} (hp : p.Calls plain) (h : Tallied base cap w) :
    Capped base cap p (fun _ => Tallied base cap) w :=
  Prog.wpx_mono (Prog.wpx_of_calls (fun _ _ _ _ hop hw he => hw.kept (sendsNothing_of_plain _ hop) he.1) hp h)
    (fun _ _ h => h.bound) (fun _ _ h => h)

theorem roomy_quiet {p : Gw α} (hp : p.Calls plain) (h : Roomy base cap id w) :
    Capped base cap p (fun _ => Roomy base cap id) w :=
  Prog.wpx_mono (Prog.wpx_of_calls (fun _ _ _ _ hop hw he => hw.kept (sendsNothing_of_plain _ hop) he.1) hp h)
    (fun _ _ h => h.bound) (fun _ _ h => h)

theorem roomy_bind {p : Gw α} {f : α → Gw β} (h : Capped base cap p (fun _ => Roomy base cap id) w)
    (hf : ∀ a w', Roomy base cap id w' → Capped base cap (f a) (fun _ => Roomy base cap id) w') :
    Capped base cap (p >>= f) (fun _ => Roomy base cap id) w :=
  Prog.wpx_bind _ h hf (fun _ _ h => h)

/-- A SEND that is written is below the cap. -/
theorem capped_send {p : Payload} (h : Roomy base cap id w) : Capped base cap (g.write .send id p)
    (fun o w' => Roomy base cap id w' ∧ (o = .ok () → (w'.sendsMade : Int) < cap ∧ 0 < (view w'.journal id).sends)) w := by
  rintro r w' ⟨⟨ts, hts, hr, rfl⟩, hrule⟩
  have hroom : (w.sendsMade : Int) < cap := h.room.elim (hrule ·) (fun h => h)
  have he : Effect (.append .send id p g.runId) w r (w.appended r) := ⟨ts, hts, hr, rfl⟩
  have hnothing : sendsNothing (.append .send id p g.runId) := trivial
  have hkept : Roomy base cap id (w.appended r) := h.kept hnothing he
  refine ⟨hkept.bound, ?_⟩
  cases r with
  | error e => exact ⟨hkept, fun ho => by cases ho⟩
  | ok e =>
    obtain ⟨-, rfl⟩ := append_eq_ok.1 hr.symm
    refine ⟨hkept, fun _ => ⟨hroom, ?_⟩⟩
    have hsends := View.push_sends_send (v := view w.journal id)
      (e := { seq := nextSeq w.journal, ts, kind := .send, intentId := id, runId := g.runId, payload := p }) rfl
    rw [World.appended, World.wrote_journal, view_snoc, if_pos rfl, hsends]
    omega

/-- One attempt: its POST is counted before anything else is done. -/
theorem capped_sendOnce {i : OrderIntent} {b : Option (List String)} (h : Roomy base cap id w) :
    Capped base cap (g.sendOnce id i b) (fun _ => Roomy base cap id) w := by
  refine roomy_bind (roomy_quiet (calls_stateAt id) h) (fun st w₁ h₁ => ?_)
  dsimp only
  refine Prog.wpx_bind _ (capped_send h₁) ?_ ?_
  · rintro _ w₂ ⟨h₂, hok⟩
    obtain ⟨hlt, hsends⟩ := hok rfl
    have hcount := h₂.counted
    rintro r w₃ ⟨⟨hd, rfl⟩, -⟩
    have hbound : ((w₂.posted i hd).posts.length : Int) ≤ base + max 0 cap := by
      simp only [World.posted, List.length_append, List.length_singleton]
      omega
    refine ⟨hbound, ?_⟩
    rintro r' w₄ ⟨rfl, -⟩
    refine ⟨hbound, ?_⟩
    change Capped base cap (g.write .result id (resultPayload (st.nSends + 1) (safeResult "submit raised" r)) >>=
      fun _ => pure (safeResult "submit raised" r)) _ _
    refine roomy_bind (roomy_quiet (calls_writeAs _ (by decide) _ _) ⟨⟨?_, ?_⟩, .inl hsends⟩) (fun _ _ h => h)
    · simp only [World.posted, List.length_append, List.length_singleton]
      omega
    · simp only [World.posted]
      omega
  · exact fun e w₂ h₂ => h₂.1

theorem capped_resendExit {i : OrderIntent} {deadline : Int} {after : IntentState} (h : Roomy base cap i.intentId w) :
    Capped base cap (g.resendExit i deadline after) (fun _ => Roomy base cap i.intentId) w := by
  refine roomy_bind (roomy_quiet (p := isHalted) ⟨trivial, fun _ => trivial⟩ h) (fun halted w₁ h₁ => ?_)
  split_ifs
  · exact h₁
  · refine roomy_bind (roomy_quiet (p := fetchPositions) ⟨trivial, fun _ => trivial⟩ h₁) (fun r w₂ h₂ => ?_)
    cases r with
    | error e => exact h₂
    | ok positions =>
      dsimp only
      split_ifs
      · exact roomy_quiet (calls_stateAt _) h₂
      · refine roomy_bind (roomy_quiet (p := nowFn) ⟨trivial, fun _ => trivial⟩ h₂) (fun t w₃ h₃ => ?_)
        split_ifs
        · exact roomy_bind (capped_sendOnce h₃) (fun _ _ h₄ => roomy_quiet (calls_stateAt _) h₄)
        · exact roomy_quiet (calls_stateAt _) h₃

theorem capped_resolveUnknown {i : OrderIntent} {deadline : Int} (h : Roomy base cap i.intentId w) :
    Capped base cap (g.resolveUnknown i deadline) (fun _ => Roomy base cap i.intentId) w := by
  refine roomy_bind (roomy_quiet calls_readStates h) (fun sts w₁ h₁ => ?_)
  by_cases hpolls : g.limits.unknownResolvePolls ≤ 0
  · rw [if_pos hpolls]
    split
    · exact h₁
    · exact h₁
  · rw [if_neg hpolls]
    refine roomy_bind (roomy_quiet (calls_poll _ _ _) h₁) (fun polled w₂ h₂ => ?_)
    cases polled with
    | settled => exact roomy_quiet (calls_stateAt _) h₂
    | unreadable => exact roomy_quiet (calls_stateAt _) h₂
    | absent =>
      refine roomy_bind (roomy_quiet (calls_writeAs _ (by decide) _ _) h₂) (fun _ w₃ h₃ => ?_)
      refine roomy_bind (roomy_quiet (calls_stateAt _) h₃) (fun after w₄ h₄ => ?_)
      split_ifs
      · exact capped_resendExit h₄
      · exact roomy_quiet (calls_stateAt _) h₄

theorem capped_sendLoop {i : OrderIntent} {deadline : Int} : ∀ {n : Nat} {b : Option (List String)} {w : World},
    Roomy base cap i.intentId w →
      Capped base cap (g.sendLoop i.intentId i deadline b n) (fun _ => Roomy base cap i.intentId) w
  | 0, _, _, h => roomy_quiet (calls_stateAt _) h
  | n + 1, _, _, h => by
    refine roomy_bind (roomy_quiet (p := nowFn) ⟨trivial, fun _ => trivial⟩ h) (fun t w₁ h₁ => ?_)
    split_ifs
    · refine roomy_bind (roomy_quiet (calls_stateAt _) h₁) (fun fresh w₂ h₂ => ?_)
      split_ifs
      · exact roomy_quiet (calls_refuse _ _ _) h₂
      · exact h₂
    · refine roomy_bind (capped_sendOnce h₁) (fun result w₂ h₂ => ?_)
      split_ifs
      · exact roomy_quiet (calls_stateAt _) h₂
      · exact capped_sendLoop h₂
      · refine roomy_bind (roomy_quiet (calls_wasNotFound _) h₂) (fun found w₃ h₃ => ?_)
        split_ifs
        · exact roomy_quiet (calls_stateAt _) h₃
        · exact capped_resolveUnknown h₃

/-- The check before a first SEND, when it refuses nothing. -/
theorem capped_riskRefusal {i : OrderIntent} (h : Tallied base g.limits.maxSendsPerRun w) :
    Capped base g.limits.maxSendsPerRun (g.riskRefusal i) (fun o w' => Tallied base g.limits.maxSendsPerRun w' ∧
      (o = .ok none → (w'.sendsMade : Int) < g.limits.maxSendsPerRun)) w := by
  have hcap : ∀ w', Tallied base g.limits.maxSendsPerRun w' → Capped base g.limits.maxSendsPerRun g.runCapRefusal
      (fun o w' => Tallied base g.limits.maxSendsPerRun w' ∧
        (o = .ok none → (w'.sendsMade : Int) < g.limits.maxSendsPerRun)) w' := by
    rintro w' h' r w'' ⟨⟨rfl, rfl⟩, -⟩
    refine ⟨h'.bound, h', fun ho => ?_⟩
    by_contra hle
    rw [if_pos (by omega)] at ho
    cases ho
  unfold OrderGateway.riskRefusal
  cases i.side with
  | buy =>
    dsimp only
    split_ifs
    · exact ⟨h, fun ho => by cases ho⟩
    · refine Prog.wpx_bind _ (capped_quiet calls_readStates h) ?_ ?_
      · intro sts w₁ h₁
        split_ifs
        · exact ⟨h₁, fun ho => by cases ho⟩
        · exact hcap w₁ h₁
      · exact fun e w₁ h₁ => ⟨h₁, fun ho => by cases ho⟩
  | sell =>
    refine Prog.wpx_bind _ (capped_quiet calls_readLots h) ?_ ?_
    · intro lots w₁ h₁
      split_ifs
      · exact ⟨h₁, fun ho => by cases ho⟩
      · exact hcap w₁ h₁
    · exact fun e w₁ h₁ => ⟨h₁, fun ho => by cases ho⟩

theorem tallied_bind {p : Gw α} {f : α → Gw β} (h : Capped base cap p (fun _ => Tallied base cap) w)
    (hf : ∀ a w', Tallied base cap w' → Capped base cap (f a) (fun _ => Tallied base cap) w') :
    Capped base cap (p >>= f) (fun _ => Tallied base cap) w :=
  Prog.wpx_bind _ h hf (fun _ _ h => h)

theorem capped_firstSend {i : OrderIntent} {deadline : Int} (h : Tallied base g.limits.maxSendsPerRun w) :
    Capped base g.limits.maxSendsPerRun (g.firstSend i.intentId i deadline)
      (fun _ => Tallied base g.limits.maxSendsPerRun) w := by
  apply Prog.wpx_bind _ (capped_riskRefusal h)
  · rintro refusal w₁ ⟨h₁, hroom⟩
    cases refusal with
    | some reason => exact capped_quiet (calls_refuse _ _ _) h₁
    | none =>
      have hr : Roomy base g.limits.maxSendsPerRun i.intentId w₁ := ⟨h₁, .inr (hroom rfl)⟩
      refine Prog.wpx_mono (roomy_bind (roomy_quiet (calls_readBaseline _) hr) (fun b w₂ h₂ => ?_)) (fun _ _ h => h)
        (fun _ _ h => h.toTallied)
      refine roomy_bind (roomy_quiet (p := isHalted) ⟨trivial, fun _ => trivial⟩ h₂) (fun halted w₃ h₃ => ?_)
      split_ifs
      · exact roomy_quiet (calls_refuse _ _ _) h₃
      · exact capped_sendLoop h₃
  · exact fun e w₁ h₁ => h₁.1

theorem capped_states (h : Tallied base cap w) :
    Capped base cap readStates (fun o w' => w' = w ∧ o = states w.journal) w := by
  rintro j w' ⟨⟨rfl, rfl⟩, -⟩
  exact ⟨h.bound, (Prog.wpx_ofExcept _ _ _).2 ⟨rfl, rfl⟩⟩

/-- **One submit**: a gateway below its cap is not above it after. -/
theorem capped_submit {deadline : Int} (h : Tallied base g.limits.maxSendsPerRun w) :
    Capped base g.limits.maxSendsPerRun (g.submit id deadline) (fun _ => Tallied base g.limits.maxSendsPerRun) w := by
  refine Prog.wpx_bind _ (capped_states h) (fun sts w' h' => ?_) (fun e w' h' => h'.1 ▸ h)
  obtain ⟨rfl, hsts⟩ := h'
  obtain ⟨-, rfl⟩ := states_eq_ok.1 hsts.symm
  rw [statesOf_lookup]
  by_cases hid : id ∈ idsOf w'.journal
  · rw [if_pos hid]
    dsimp only
    by_cases hst : (stateOf w'.journal id).status.sendable = false
    · rw [if_pos hst]
      exact h
    · rw [if_neg hst]
      cases hi : (stateOf w'.journal id).intent with
      | none => exact h
      | some i =>
        obtain rfl := view_intentId hi
        rintro halted w'' ⟨⟨rfl, rfl⟩, -⟩
        refine ⟨h.bound, ?_⟩
        change Capped _ _ (ite _ _ _) _ _
        split_ifs with _ hfirst
        · exact capped_quiet (calls_refuse _ _ _) h
        · exact capped_firstSend h
        · exact Prog.wpx_mono (capped_sendLoop ⟨h, .inl (Nat.pos_of_ne_zero hfirst)⟩) (fun _ _ h => h)
            (fun _ _ h => h.toTallied)
  · rw [if_neg hid]
    exact h

end count

/-- What a submit may start with, after another one. -/
theorem Tallied.submits {base : Nat} {g : OrderGateway} {w w' : World} (hw : Tallied base g.limits.maxSendsPerRun w)
    (h : Relation.ReflTransGen (Submitted (capRules g.limits.maxSendsPerRun) g) w w') :
    Tallied base g.limits.maxSendsPerRun w' := by
  induction h with
  | refl => exact hw
  | @tail w₁ w₂ _ hrun ih =>
    obtain ⟨id, deadline, j, hd, o, hends⟩ := hrun
    have hnow : Tallied base g.limits.maxSendsPerRun { w₁ with journal := j, halted := hd } := ⟨ih.counted, ih.within⟩
    exact Prog.wpx_ends (capped_submit hnow) hends

/-- **The run cap**: when every SEND of an intent that already has one is written below the cap, a run of one gateway
makes no more POSTs than its limits allow, wherever it is cut. -/
theorem run_send_cap {g : OrderGateway} {w w' : World} (h0 : w.sendsMade = 0)
    (h : SubmitRun (capRules g.limits.maxSendsPerRun) g w w') :
    (w'.posts.length : Int) ≤ w.posts.length + max 0 g.limits.maxSendsPerRun := by
  obtain ⟨w₁, id, deadline, j, hd, hruns, hlast⟩ := h
  have hstart : Tallied w.posts.length g.limits.maxSendsPerRun w := ⟨by omega, by omega⟩
  have hbetween := hstart.submits hruns
  have hnow : Tallied w.posts.length g.limits.maxSendsPerRun { w₁ with journal := j, halted := hd } :=
    ⟨hbetween.counted, hbetween.within⟩
  have hreach := Prog.wpx_reach (capped_submit hnow) hlast
  cases hreach with
  | refl => exact hnow.bound
  | tail _ hstep => exact hstep

namespace Sample

/-- A gateway that may send once. -/
def once : OrderGateway := ⟨{ limits with maxSendsPerRun := 1 }, "run", gateway.runText⟩

/-- The first POST gets the verdict, the later ones are accepted. -/
def thenAccepted (v : SubmitVerdict) : Oracle :=
  broker (fun n => if n = 0 then verdict v none else verdict .accepted (some "1")) (fun _ => false)

def planned : World := (Oracle.fixed (fun _ => []) []).after once (.plan [samsung] []) (World.empty.enter 0 false)

/-- The planned intent, submitted by a gateway that may send once. -/
def submittedOnce (v : SubmitVerdict) : World := ((thenAccepted v).run (once.submit samsung.intentId 1) planned).2

instance (cap : Int) (op : GatewayOp) (w : World) (r : Answer op) : Decidable (capRules cap op w r) := by
  induction op using GatewayOp.casesOn
  case append k id payload run => induction k using JournalEventKind.casesOn <;> dsimp only [capRules] <;> infer_instance
  all_goals exact .isTrue trivial

end Sample

/-- A throttled first attempt is repeated, and the cap of one POST is exceeded. -/
theorem run_send_cap_exceeded : Sample.planned.sendsMade = 0 ∧
    SubmitRun anything Sample.once Sample.planned (Sample.submittedOnce .throttled) ∧
    ¬ ((Sample.submittedOnce .throttled).posts.length : Int) ≤
      Sample.planned.posts.length + max 0 Sample.once.limits.maxSendsPerRun := by
  refine ⟨rfl, ?_, by decide +kernel⟩
  have hends := Prog.run_ends (E := under anything) (fun op w => ⟨(Sample.thenAccepted .throttled).effect op w, trivial⟩)
    (Sample.once.submit Sample.samsung.intentId 1) Sample.planned
  exact ⟨Sample.planned, Sample.samsung.intentId, 1, Sample.planned.journal, Sample.planned.halted, .refl, hends.reach⟩

/-- A rejected attempt is the only one. -/
theorem run_send_cap_rejected :
    ((Sample.submittedOnce .rejected).posts.length : Int) ≤ Sample.planned.posts.length + 1 := by
  have hends := Prog.run_ends_kept (E := Effect) (P := capRules 1) (Sample.thenAccepted .rejected).effect
    (p := Sample.once.submit Sample.samsung.intentId 1) (w := Sample.planned) rfl
  exact @run_send_cap Sample.once _ _ rfl ⟨Sample.planned, Sample.samsung.intentId, 1,
    Sample.planned.journal, Sample.planned.halted, .refl, hends.reach⟩

end Order
