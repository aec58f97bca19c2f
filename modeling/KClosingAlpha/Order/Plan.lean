import KClosingAlpha.Order.Acts
/-!
# Plan — a plan records each new id once

The records a plan call appends are its offers, less those of an id that is recorded already (`fresh`).  A crash leaves
a prefix of them.
-/
namespace Order

open Prog (Reach Ends keeps)

/-- The offers that are recorded: the first of each id that is not. -/
def fresh : List String → List Act → List Act
  | _, [] => []
  | recorded, a :: acts =>
    if recorded.contains a.intentId then fresh recorded acts else a :: fresh (a.intentId :: recorded) acts

def intentAct (i : OrderIntent) : Act := ⟨.intent, i.intentId, intentToPayload i⟩

def skipAct (s : PlannedSkip) : Act := ⟨.skip, s.intentId, skipPayload s.symbol s.tradingDate s.phase s.reason⟩

/-- What a plan call offers, in its order. -/
def offers (intents : List OrderIntent) (skips : List PlannedSkip) : List Act :=
  intents.map intentAct ++ skips.map skipAct

/-- **Of an id that is not recorded the first offer is, and nothing else.** -/
theorem actsOf_fresh {id : String} : ∀ {recorded : List String} {acts : List Act},
    actsOf id (fresh recorded acts) = if id ∈ recorded then [] else (acts.find? (·.intentId == id)).toList
  | recorded, [] => by simp [fresh, actsOf]
  | recorded, a :: acts => by
    rw [fresh]
    by_cases hc : recorded.contains a.intentId = true
    · rw [if_pos hc, actsOf_fresh]
      by_cases hid : id ∈ recorded
      · rw [if_pos hid, if_pos hid]
      · have hne : a.intentId ≠ id := fun h => hid (h ▸ List.contains_iff_mem.1 hc)
        rw [if_neg hid, if_neg hid, List.find?_cons_of_neg (by simpa using hne)]
    · have hnew : a.intentId ∉ recorded := fun h => hc (List.contains_iff_mem.2 h)
      rw [if_neg hc]
      by_cases hid : a.intentId = id
      · subst hid
        have htail : actsOf a.intentId (fresh (a.intentId :: recorded) acts) = [] := by
          rw [actsOf_fresh, if_pos List.mem_cons_self]
        rw [if_neg hnew, List.find?_cons_of_pos (by simp), actsOf, List.filter_cons_of_pos (by simp)]
        exact congrArg (a :: ·) htail
      · have hmem : id ∈ a.intentId :: recorded ↔ id ∈ recorded := by simp [Ne.symm hid]
        rw [List.find?_cons_of_neg (by simpa using hid), actsOf, List.filter_cons_of_neg (by simpa using hid)]
        exact actsOf_fresh.trans (if_congr hmem rfl rfl)

theorem actsOf_eq_nil {id : String} {acts : List Act} : actsOf id acts = [] ↔ ∀ a ∈ acts, a.intentId ≠ id := by
  simp [actsOf, List.filter_eq_nil_iff]

/-- Where every offer is of a recorded id, nothing is left to record. -/
theorem fresh_eq_nil {recorded : List String} {acts : List Act} (h : ∀ a ∈ acts, a.intentId ∈ recorded) :
    fresh recorded acts = [] := by
  rw [List.eq_nil_iff_forall_not_mem]
  intro x hx
  have hnone : actsOf x.intentId (fresh recorded acts) = [] := by
    rw [actsOf_fresh]
    split_ifs with hr
    · rfl
    · rw [Option.toList_eq_nil_iff, List.find?_eq_none]
      intro a ha heq
      exact hr (beq_iff_eq.1 heq ▸ h a ha)
  exact actsOf_eq_nil.1 hnone x hx rfl

/-! ## The program appends them, in order -/

/-- The records appended to a journal are these. -/
def Wrote (j : Journal) (acts : List Act) (w : World) : Prop :=
  ∃ es, w.journal = j ++ es ∧ es.map (fun e => (⟨e.kind, e.intentId, e.payload⟩ : Act)) = acts

/-- A part of these records is appended. -/
def Part (j : Journal) (total : List Act) (w : World) : Prop := ∃ acts, acts <+: total ∧ Wrote j acts w

section program

variable {R : Rules} {g : OrderGateway} {j : Journal} {total done rest : List Act} {recorded : List String} {w : World}

theorem Wrote.write (h : Wrote j done w) (e : JournalEvent) :
    Wrote j (done ++ [⟨e.kind, e.intentId, e.payload⟩]) (w.wrote e) := by
  obtain ⟨es, hj, rfl⟩ := h
  exact ⟨es ++ [e], by rw [World.wrote_journal, hj, List.append_assoc], by simp⟩

theorem keeps_write {k : JournalEventKind} {id : String} {p : Payload} (hw : Wrote j done w)
    (ht : total = done ++ ⟨k, id, p⟩ :: rest) :
    keeps (under R) (Part j total) (g.write k id p) (fun _ w' => Wrote j (done ++ [⟨k, id, p⟩]) w') w := by
  rintro r w' ⟨⟨ts, -, hr, rfl⟩, -⟩
  cases r with
  | error e =>
    have hpart : Part j total w := ⟨done, ⟨_, ht.symm⟩, hw⟩
    exact ⟨hpart, Prog.keeps_raise hpart⟩
  | ok e =>
    obtain ⟨-, rfl⟩ := append_eq_ok.1 hr.symm
    have hnow := hw.write { seq := nextSeq w.journal, ts, kind := k, intentId := id, runId := g.runId, payload := p }
    have hpart : Part j total (w.wrote { seq := nextSeq w.journal, ts, kind := k, intentId := id, runId := g.runId, payload := p }) :=
      ⟨_, ⟨rest, by rw [ht, List.append_assoc]; rfl⟩, hnow⟩
    exact ⟨hpart, Prog.keeps_ret hpart hnow⟩

theorem keeps_planIntents : ∀ {intents : List OrderIntent} {recorded : List String} {done : List Act} {w : World},
    Wrote j done w → total = done ++ fresh recorded (intents.map intentAct ++ rest) →
      keeps (under R) (Part j total) (g.planIntents recorded intents)
        (fun recorded' w' => ∃ done', Wrote j done' w' ∧ total = done' ++ fresh recorded' rest) w
  | [], _, done, _, hw, ht => Prog.keeps_ret ⟨done, ⟨_, ht.symm⟩, hw⟩ ⟨done, hw, ht⟩
  | i :: intents, recorded, done, w, hw, ht => by
    rw [List.map_cons, List.cons_append, fresh, intentAct] at ht
    rw [OrderGateway.planIntents]
    by_cases hc : recorded.contains i.intentId = true
    · rw [if_pos hc] at ht ⊢
      exact keeps_planIntents hw ht
    · rw [if_neg hc] at ht ⊢
      exact Prog.keeps_bind (keeps_write hw ht) (fun _ w' _ hw' => keeps_planIntents hw' (by rw [ht]; simp))

theorem keeps_planSkips : ∀ {skips : List PlannedSkip} {recorded : List String} {done : List Act} {w : World},
    Wrote j done w → total = done ++ fresh recorded (skips.map skipAct) →
      keeps (under R) (Part j total) (g.planSkips recorded skips) (fun _ w' => Wrote j total w') w
  | [], _, done, _, hw, ht => by
    rw [List.map_nil, fresh, List.append_nil] at ht
    subst ht
    exact Prog.keeps_ret ⟨total, List.prefix_refl _, hw⟩ hw
  | s :: skips, recorded, done, w, hw, ht => by
    rw [List.map_cons, fresh, skipAct] at ht
    rw [OrderGateway.planSkips]
    by_cases hc : recorded.contains s.intentId = true
    · rw [if_pos hc] at ht ⊢
      exact keeps_planSkips hw ht
    · rw [if_neg hc] at ht ⊢
      exact Prog.keeps_bind (keeps_write hw ht) (fun _ w' _ hw' => keeps_planSkips hw' (by rw [ht]; simp))

theorem keeps_readStates {I : World → Prop} (h : I w) :
    keeps (under R) I readStates (fun sts w' => w' = w ∧ states w.journal = .ok sts) w := by
  rintro j w' ⟨⟨rfl, rfl⟩, -⟩
  exact ⟨h, Prog.keeps_ofExcept h (fun sts hsts => ⟨rfl, hsts⟩)⟩

theorem statesOf_keys (j : Journal) : (statesOf j).map (·.1) = idsOf j := by
  rw [statesOf, List.map_map]
  exact List.map_id _

/-- **One plan call**, cut anywhere, appends the first of its records, and all of them when it returns. -/
theorem keeps_plan {intents : List OrderIntent} {skips : List PlannedSkip} :
    keeps (under R) (Part w.journal (fresh (idsOf w.journal) (offers intents skips))) (g.plan intents skips)
      (fun _ w' => Wrote w.journal (fresh (idsOf w.journal) (offers intents skips)) w') w := by
  have hnone : Wrote w.journal [] w := ⟨[], by simp, rfl⟩
  refine Prog.keeps_bind (keeps_readStates ⟨[], List.nil_prefix, hnone⟩) (fun sts w' _ h => ?_)
  obtain ⟨rfl, hsts⟩ := h
  obtain ⟨-, rfl⟩ := states_eq_ok.1 hsts
  rw [statesOf_keys]
  refine Prog.keeps_bind (keeps_planIntents hnone rfl) (fun recorded w'' _ h => ?_)
  obtain ⟨done, hw'', ht⟩ := h
  exact keeps_planSkips hw'' ht

theorem Wrote.eventsOf (h : Wrote j done w) (id : String) :
    ∃ es, eventsOf w.journal id = eventsOf j id ++ es ∧ es.map (fun e => (⟨e.kind, e.intentId, e.payload⟩ : Act)) = actsOf id done := by
  obtain ⟨es, hj, rfl⟩ := h
  refine ⟨Order.eventsOf es id, by rw [hj, Order.eventsOf, List.filter_append]; rfl, ?_⟩
  rw [actsOf, List.filter_map]
  rfl

theorem mem_idsOf_fresh {id : String} (h : id ∈ rest.map (·.intentId)) :
    id ∈ recorded ∨ actsOf id (fresh recorded rest) ≠ [] := by
  rw [actsOf_fresh]
  by_cases hr : id ∈ recorded
  · exact .inl hr
  · obtain ⟨a, ha, rfl⟩ := List.mem_map.1 h
    rw [if_neg hr]
    refine .inr (fun hnone => ?_)
    rw [Option.toList_eq_nil_iff, List.find?_eq_none] at hnone
    exact hnone a ha (beq_self_eq_true _)

end program

/-! ## An INTENT is the first record of its id -/

/-- No INTENT follows another record of its id. -/
def IntentFirst (j : Journal) : Prop := ∀ id, ∀ e ∈ (eventsOf j id).tail, e.kind ≠ .intent

section sessions

variable {R : OrderGateway → Call → Rules} {A : OrderGateway → Call → Prop} {w w' : World}

theorem Writes.intent_new {r : Rules} {g : OrderGateway} {c : Call} {start : Journal} {e : JournalEvent}
    (h : Writes r g c start w e) (hk : e.kind = .intent) : e.intentId ∉ idsOf w.journal := by
  cases h with
  | intent i hk' hid hp hnew => exact hnew
  | cancel hk' => rcases hk' with hk' | hk' <;> simp [hk'] at hk
  | _ => simp_all

theorem Writes.intentFirst {r : Rules} {g : OrderGateway} {c : Call} {start : Journal} {e : JournalEvent}
    (h : Writes r g c start w e) (hj : IntentFirst w.journal) : IntentFirst (w.journal ++ [e]) := by
  intro id x hx
  rw [eventsOf_snoc] at hx
  split_ifs at hx with hid
  · rcases heq : eventsOf w.journal id with _ | ⟨y, ys⟩
    · rw [heq] at hx
      cases hx
    · rw [heq, List.cons_append, List.tail_cons, List.mem_append, List.mem_singleton] at hx
      rcases hx with hx | rfl
      · exact hj id x (by rwa [heq])
      · intro hk
        refine h.intent_new hk (mem_idsOf_iff_ne_nil.2 ?_)
        rw [hid, heq]
        exact List.cons_ne_nil y ys
  · exact hj id x hx

theorem session_intentFirst (h : Session R A World.empty w) : IntentFirst w.journal := by
  refine (session_invariant (I := fun x => IntentFirst x.journal) (fun _ _ _ h => h)
    (fun g c start x y _ hI hs => ?_) timely_empty (fun id e he => by cases he) h).1
  cases hs with
  | quiet y hj hp hh => rw [hj]; exact hI
  | wrote e happ hs hw => exact hw.intentFirst hI
  | posted i hd s hlast hk hid hi hst hnew hcall => exact hI

/-- An id that is recorded stays so. -/
theorem session_recorded (ht : Timely w) (h : Session R A w w') {id : String} (hid : id ∈ idsOf w.journal) :
    id ∈ idsOf w'.journal := by
  refine (session_invariant (I := fun x => id ∈ idsOf x.journal) (fun _ _ _ h => h)
    (fun g c start x y _ hI hs => ?_) ht hid h).1
  cases hs with
  | quiet y hj hp hh => rw [hj]; exact hI
  | wrote e happ hs hw => exact mem_idsOf_snoc.2 (.inl hI)
  | posted i hd s hlast hk hid hi hst hnew hcall => exact hI

end sessions

/-! ## Sessions of plans -/

/-- **Plan calls one after the other**, by any gateways, each possibly cut. -/
abbrev PlanSession : World → World → Prop :=
  Session (fun _ _ => anything) (fun _ c => ∃ intents skips, c = .plan intents skips)

section plans

variable {w w' : World} {id : String}

theorem plan_part {R : Rules} {g : OrderGateway} {intents : List OrderIntent} {skips : List PlannedSkip}
    (h : Reach (under R) (g.plan intents skips) w w') :
    Part w.journal (fresh (idsOf w.journal) (offers intents skips)) w' :=
  Prog.keeps_reach keeps_plan ⟨[], List.nil_prefix, [], by simp, rfl⟩ h

/-- What a part of the planned records leaves of an id: its records as they were, or its first one. -/
theorem Part.once {offered : List Act} (h : Part w.journal (fresh (idsOf w.journal) offered) w') :
    (id ∈ idsOf w.journal → eventsOf w'.journal id = eventsOf w.journal id) ∧
      (id ∉ idsOf w.journal → (eventsOf w'.journal id).length ≤ 1) := by
  obtain ⟨acts, hpre, hw⟩ := h
  obtain ⟨es, hes, hacts⟩ := hw.eventsOf id
  have hsub : (actsOf id acts).Sublist (actsOf id (fresh (idsOf w.journal) offered)) := hpre.sublist.filter _
  rw [actsOf_fresh] at hsub
  constructor
  · intro hid
    rw [if_pos hid, List.sublist_nil, ← hacts, List.map_eq_nil_iff] at hsub
    rw [hes, hsub, List.append_nil]
  · intro hid
    have hnone : eventsOf w.journal id = [] := not_not.1 (fun h => hid (mem_idsOf_iff_ne_nil.2 h))
    rw [if_neg hid] at hsub
    have hlen := hsub.length_le
    rw [← hacts, List.length_map] at hlen
    rw [hes, hnone, List.nil_append]
    exact hlen.trans (Option.length_toList_le)

theorem plans_once (h : PlanSession w w') : (id ∈ idsOf w.journal → eventsOf w'.journal id = eventsOf w.journal id) ∧
    (id ∉ idsOf w.journal → (eventsOf w'.journal id).length ≤ 1) := by
  induction h with
  | refl => exact ⟨fun _ => rfl, fun hid => by simp [not_not.1 (fun h => hid (mem_idsOf_iff_ne_nil.2 h))]⟩
  | @tail w₁ w₂ _ hcall ih =>
    obtain ⟨g, c, n, hd, ⟨intents, skips, rfl⟩, hreach⟩ := hcall
    have hone : (id ∈ idsOf w₁.journal → eventsOf w₂.journal id = eventsOf w₁.journal id) ∧
      (id ∉ idsOf w₁.journal → (eventsOf w₂.journal id).length ≤ 1) := (plan_part hreach).once
    constructor
    · intro hid
      have hsame := ih.1 hid
      rw [hone.1 (mem_idsOf_iff_ne_nil.2 (hsame ▸ mem_idsOf_iff_ne_nil.1 hid)), hsame]
    · intro hid
      by_cases hid₁ : id ∈ idsOf w₁.journal
      · rw [hone.1 hid₁]
        exact ih.2 hid
      · exact hone.2 hid₁

theorem plan_wrote {R : Rules} {g : OrderGateway} {intents : List OrderIntent} {skips : List PlannedSkip}
    (h : Ends (under R) (g.plan intents skips) w (.ok ()) w') :
    Wrote w.journal (fresh (idsOf w.journal) (offers intents skips)) w' :=
  (Prog.wpx_ends keeps_plan h).2 () rfl

/-- A completed plan call leaves every id it offers recorded. -/
theorem plan_recorded {R : Rules} {g : OrderGateway} {intents : List OrderIntent} {skips : List PlannedSkip}
    (h : Ends (under R) (g.plan intents skips) w (.ok ()) w') {a : Act} (ha : a ∈ offers intents skips) :
    a.intentId ∈ idsOf w'.journal := by
  obtain ⟨es, hes, hacts⟩ := (plan_wrote h).eventsOf a.intentId
  rw [mem_idsOf_iff_ne_nil, hes]
  rcases mem_idsOf_fresh (List.mem_map_of_mem ha) with hrec | hnew
  · exact fun hnil => mem_idsOf_iff_ne_nil.1 hrec (List.append_eq_nil_iff.1 hnil).1
  · intro hnil
    rw [(List.append_eq_nil_iff.1 hnil).2] at hacts
    exact hnew hacts.symm

/-- A plan call whose ids are all recorded writes nothing, wherever it is cut. -/
theorem plan_again {R : Rules} {g : OrderGateway} {intents : List OrderIntent} {skips : List PlannedSkip}
    (hall : ∀ a ∈ offers intents skips, a.intentId ∈ idsOf w.journal)
    (h : Reach (under R) (g.plan intents skips) w w') : w'.journal = w.journal := by
  obtain ⟨acts, hpre, es, hes, hacts⟩ := plan_part h
  rw [fresh_eq_nil hall, List.prefix_nil] at hpre
  rw [hpre, List.map_eq_nil_iff] at hacts
  rw [hes, hacts, List.append_nil]

/-- **A plan is write-once.**  Along plan calls, each possibly cut, no INTENT follows another record of its id, what is
recorded of an id is not added to, and what was not is recorded once.  A call that returned has recorded every id it
offered, and the same call by any gateway then writes nothing, whatever came between. -/
theorem plan_write_once (h : FreeSession World.empty w) (hplans : PlanSession w w') :
    IntentFirst w'.journal ∧ (∀ id ∈ idsOf w.journal, eventsOf w'.journal id = eventsOf w.journal id) ∧
      (∀ id ∉ idsOf w.journal, (eventsOf w'.journal id).length ≤ 1) ∧
      ∀ (g : OrderGateway) intents skips w'', Ends (under anything) (g.plan intents skips) w' (.ok ()) w'' →
        (∀ a ∈ offers intents skips, a.intentId ∈ idsOf w''.journal) ∧
        ∀ (g' : OrderGateway) w₁ w₂, FreeSession w'' w₁ → Reach (under anything) (g'.plan intents skips) w₁ w₂ →
          w₂.journal = w₁.journal := by
  have hfree : FreeSession World.empty w' := h.trans (hplans.lift id (fun _ _ ⟨g, c, n, hd, _, hreach⟩ =>
    ⟨g, c, n, hd, trivial, hreach⟩))
  refine ⟨session_intentFirst hfree, fun id => (plans_once hplans).1, fun id => (plans_once hplans).2, ?_⟩
  intro g intents skips w'' hends
  have hrecorded := fun a ha => plan_recorded hends (a := a) ha
  refine ⟨hrecorded, fun g' w₁ w₂ hlater hreach => ?_⟩
  have hcalled : Called (fun _ _ => anything) (fun _ _ => True) w' w'' :=
    ⟨g, .plan intents skips, w'.sendsMade, w'.halted, trivial, hends.reach⟩
  have htimely := timely_called (session_invariant (I := fun _ => True) (fun _ _ _ h => h)
    (fun _ _ _ _ _ _ h _ => h) timely_empty trivial hfree).2 hcalled
  exact plan_again (fun a ha => session_recorded htimely hlater (hrecorded a ha)) hreach

end plans

namespace Sample

/-- A pick offered twice as an intent and once as a skip. -/
def offeredThrice : World := (Oracle.fixed (fun _ => []) []).after gateway
  (.plan [samsung, samsung] [⟨samsung.intentId, "005930", "2025-01-02", .entry, "cash"⟩]) (World.empty.enter 0 false)

end Sample

/-- It is recorded once, and offered again as a skip it is not. -/
theorem plan_write_once_samsung : (eventsOf Sample.offeredThrice.journal Sample.samsung.intentId).length ≤ 1 ∧
    ∀ w₂, Reach (under anything) (Sample.gateway.plan [Sample.samsung] []) Sample.offeredThrice w₂ →
      w₂.journal = Sample.offeredThrice.journal := by
  have hplan : PlanSession World.empty Sample.offeredThrice :=
    .single (Oracle.called _ ⟨_, _, rfl⟩ (fun _ _ => trivial) _ _ _)
  have hnow := plan_write_once .refl hplan
  have hends := Prog.run_ends (E := under anything)
    (fun op w => ⟨(Oracle.fixed (fun _ => []) []).effect op w, trivial⟩) (Sample.gateway.plan [Sample.samsung] [])
    Sample.offeredThrice
  have hsame : (Prog.run (Oracle.fixed (fun _ => []) []).answer (Sample.gateway.plan [Sample.samsung] [])
      Sample.offeredThrice) = (.ok (), Sample.offeredThrice) := rfl
  rw [hsame] at hends
  exact ⟨hnow.2.2.1 _ (by decide), fun w₂ => (hnow.2.2.2 _ _ _ _ hends).2 _ _ _ .refl⟩

end Order
