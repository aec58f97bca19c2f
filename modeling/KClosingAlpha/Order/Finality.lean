import KClosingAlpha.Order.Calls
import KClosingAlpha.Order.Oracle
/-!
# Finality — final states absorb, fills only grow, and NOT_FOUND is left once

Nothing is ever appended to a final intent (`Writes.not_final`), so everything about final states is frozen with its
view; the rest compares a view with every later view of the same intent.
-/
namespace Order

open Py (Value Dict)
open Prog (Reach)

/-! ## Views over time -/

namespace View

/-- What one BROKER_STATE establishes of its fills. -/
theorem checkFills_bounds {i : Option OrderIntent} {prev : Option Fills} {p : Payload} {f : Fills}
    (h : checkFills i prev p = .ok f) : 0 ≤ f.filledQty ∧ 0 ≤ f.filledAmountKrw ∧ 0 ≤ f.remainingQty ∧
      (∀ x, i = some x → f.filledQty + f.remainingQty ≤ x.qty) ∧
      prev.elim 0 (·.filledQty) ≤ f.filledQty := by
  simp only [checkFills, Exc.bind_eq_ok, Exc.raiseIf_eq_ok, Exc.pure_eq_ok] at h
  obtain ⟨fq, -, fa, -, rq, -, -, -, -, -, -, hsum, -, hneg, -, hprev, rfl⟩ := h
  dsimp only
  refine ⟨by omega, by omega, by omega, fun x hx => ?_, ?_⟩
  · rw [hx] at hsum
    simp only [Option.any_some, decide_eq_true_eq] at hsum
    omega
  · cases prev with
    | none =>
      dsimp only [Option.elim]
      omega
    | some q =>
      simp only [Option.any_some, decide_eq_true_eq] at hprev
      dsimp only [Option.elim]
      omega

/-- The fills of a view are within its intent. -/
def Fits (v : View) : Prop := ∀ f, v.fills = some f → 0 ≤ f.filledQty ∧ 0 ≤ f.remainingQty ∧
  ∀ i, v.intent = some i → f.filledQty + f.remainingQty ≤ i.qty

/-- `v'` is a later view of the intent `v` is about. -/
structure Later (v v' : View) : Prop where
  closed : v.status.2 = true → v' = v
  filled : v.fills.elim 0 (·.filledQty) ≤ v'.fills.elim 0 (·.filledQty)
  acked : v.status.1 = .acked → v'.status.1 = .acked ∨ v'.finalPayload.isSome = true

theorem status_of_final {v : View} (h : v.finalPayload.isSome = true) : v.status.2 = true ∧
    (v.status.1 = .filled ∨ v.status.1 = .partlyFilled ∨ v.status.1 = .cancelled ∨ v.status.1 = .unfilled) := by
  obtain ⟨p, hp⟩ := Option.isSome_iff_exists.1 h
  have hs : v.status = (finalStatus v.intent p, true) := by
    unfold status
    rw [hp]
  rw [hs]
  exact ⟨rfl, finalStatus_cases v.intent p⟩

theorem Later.refl (v : View) : v.Later v := ⟨fun _ => rfl, Int.le_refl _, fun h => .inl h⟩

theorem Later.trans {a b c : View} (h : a.Later b) (h' : b.Later c) : a.Later c := by
  refine ⟨fun hc => ?_, Int.le_trans h.filled h'.filled, fun ha => ?_⟩
  · obtain rfl := h.closed hc
    exact h'.closed hc
  · rcases h.acked ha with hb | hb
    · exact h'.acked hb
    · rw [h'.closed (status_of_final hb).1]
      exact .inr hb

/-- An event that neither fills nor closes, on an intent that is neither final nor bound. -/
theorem later_push {v : View} {e : JournalEvent} (hk : e.kind ≠ .brokerState) (hf : v.status.2 = false)
    (ha : v.status.1 ≠ .acked) : v.Later (v.push e) := by
  refine ⟨fun h => ?_, ?_, fun h => absurd h ha⟩
  · rw [hf] at h
    cases h
  · simp [push, hk]

end View

/-- No number before an order is bound. -/
theorem numbers_of_unbound {l : List JournalEvent} (h : (viewOf l).bound = false) : (viewOf l).numbers = (none, none) := by
  induction l using List.reverseRecOn with
  | nil => rfl
  | append_singleton l e ih =>
    rw [viewOf_snoc] at h ⊢
    have hb : (viewOf l).bound = false ∧ binds e = false := by simpa [View.push] using h
    rw [View.push_numbers hb.2, ih hb.1]

section steps

variable {R : Rules} {g : OrderGateway} {c : Call} {start : Journal} {w w' : World} {e : JournalEvent}

theorem status_start : View.start.status = (.recorded, false) := rfl

/-- A bound intent that no BROKER_STATE has closed is ACKED. -/
theorem acked_of_number {j : Journal} {id : String} (hno : (view j id).numbers.1.isSome = true)
    (hf : (view j id).status.2 = false) : (view j id).status.1 = .acked := by
  rw [View.acked_iff]
  constructor
  · by_contra h
    rw [(View.status_of_final (Option.isSome_iff_ne_none.2 h)).1] at hf
    cases hf
  · by_contra h
    rw [Bool.not_eq_true] at h
    rw [view, numbers_of_unbound h] at hno
    cases hno

/-- **Nothing is appended to a final intent.** -/
theorem Writes.not_final (h : Writes R g c start w e) : (view w.journal e.intentId).status.2 = false := by
  cases h with
  | intent i hk hid hp hnew => rw [view_of_not_mem hnew, status_start]
  | skip hk hnew => rw [view_of_not_mem hnew, status_start]
  | refuse hk hid hst => exact View.not_final_of_sendable hst
  | send i b hk hp hi hst hrisk hcall => exact View.not_final_of_sendable hst
  | resend i hk hp hi hexit hflag hst hnf hop hlast hstart hcall => exact View.not_final_of_notFound hst
  | result i n r hk hp hi hn hlast hr hst hres hconf => exact View.not_final_of_unknown hst
  | notFound i hk hi hst hs hfirst => exact View.not_final_of_unknown hst
  | adopt i o hk hp hi hst hm => exact View.not_final_of_unknown hst
  | conflict i hk hi hst => exact View.not_final_of_unknown hst
  | operatorAdopt i a o hk hp hi hst hm hno hne hval hcall =>
    exact hst.elim View.not_final_of_unknown View.not_final_of_notFound
  | operatorNotFound i a hk hp hi hst hval hcall => exact View.not_final_of_unknown hst
  | brokerState i o final hk hp hi hno hfin hfill => exact hfin
  | cancel hk hst hid => exact View.not_final_of_acked hst

/-- **One record takes the view of its intent to a later one.** -/
theorem Writes.later (h : Writes R g c start w e) :
    (view w.journal e.intentId).Later ((view w.journal e.intentId).push e) := by
  have hf := h.not_final
  cases h with
  | intent i hk hid hp hnew =>
    rw [view_of_not_mem hnew]
    exact View.later_push (by simp [hk]) rfl (by simp [status_start])
  | skip hk hnew =>
    rw [view_of_not_mem hnew]
    exact View.later_push (by simp [hk]) rfl (by simp [status_start])
  | refuse hk hid hst => exact View.later_push (by simp [hk]) hf (fun h => by rw [h] at hst; cases hst)
  | send i b hk hp hi hst hrisk hcall =>
    exact View.later_push (by simp [hk]) hf (fun h => by rw [h] at hst; cases hst)
  | resend i hk hp hi hexit hflag hst hnf hop hlast hstart hcall => exact View.later_push (by simp [hk]) hf (by simp [hst])
  | result i n r hk hp hi hn hlast hr hst hres hconf => exact View.later_push (by simp [hk]) hf (by simp [hst])
  | notFound i hk hi hst hs hfirst => exact View.later_push (by simp [hk]) hf (by simp [hst])
  | adopt i o hk hp hi hst hm => exact View.later_push (by simp [hk]) hf (by simp [hst])
  | conflict i hk hi hst => exact View.later_push (by simp [hk]) hf (by simp [hst])
  | operatorAdopt i a o hk hp hi hst hm hno hne hval hcall =>
    exact View.later_push (by simp [hk]) hf (by rcases hst with hst | hst <;> simp [hst])
  | operatorNotFound i a hk hp hi hst hval hcall => exact View.later_push (by simp [hk]) hf (by simp [hst])
  | brokerState i o final hk hp hi hno hfin hfill =>
    obtain ⟨f, hfill⟩ := hfill
    have hb := (View.acked_iff.1 (acked_of_number hno hf)).2
    refine ⟨fun h => absurd h (by simp [hf]), ?_, fun _ => ?_⟩
    · have hpush : ((view w.journal e.intentId).push e).fills = some f := by
        simp [View.push, hk, hi, hfill, Except.toOption]
      rw [hpush]
      exact (View.checkFills_bounds hfill).2.2.2.2
    · by_cases hfin' : ((view w.journal e.intentId).push e).finalPayload.isSome = true
      · exact .inr hfin'
      · refine .inl (View.acked_iff.2 ⟨by simpa using hfin', ?_⟩)
        simp [View.push, hb]
  | cancel hk hst hid =>
    rw [View.push_cancel hk]
    exact View.Later.refl _

theorem Writes.fits (h : Writes R g c start w e) (hv : (view w.journal e.intentId).Fits) :
    ((view w.journal e.intentId).push e).Fits := by
  by_cases hk : e.kind = .brokerState
  · cases h with
    | brokerState i o final hk hp hi hno hfin hfill =>
      obtain ⟨f, hfill⟩ := hfill
      intro f' hf'
      have hpush : ((view w.journal e.intentId).push e).fills = some f := by
        simp [View.push, hk, hi, hfill, Except.toOption]
      obtain rfl := Option.some.inj (hpush.symm.trans hf')
      obtain ⟨h1, h2, h3, h4, -⟩ := View.checkFills_bounds hfill
      refine ⟨h1, h3, fun i' hi' => h4 i' ?_⟩
      rw [View.push_intent (by simp [hk])] at hi'
      exact hi.symm.trans hi'
    | cancel hk' => rcases hk' with hk' | hk' <;> simp [hk'] at hk
    | _ => simp_all
  · intro f hf
    have hf' : (view w.journal e.intentId).fills = some f := by simpa [View.push, hk] using hf
    obtain ⟨h1, h2, h3⟩ := hv f hf'
    refine ⟨h1, h2, fun i hi => ?_⟩
    by_cases hki : e.kind = .intent
    · cases h with
      | intent i' hk' hid hp hnew =>
        rw [view_of_not_mem hnew] at hf'
        cases hf'
      | cancel hk' => rcases hk' with hk' | hk' <;> simp [hk'] at hki
      | _ => simp_all
    · rw [View.push_intent hki] at hi
      exact h3 i hi

/-- What leaves NOT_FOUND: an operator's adoption, or the exit resend of the submit that gave the order up. -/
theorem Writes.leaves_notFound (h : Writes R g c start w e)
    (hst : (view w.journal e.intentId).status.1 = .notFound) :
    (e.kind = .operatorResolve ∧ isAdoption e = true ∧ ∃ en a, c = .resolveUnknownIntent en a e.intentId) ∨
      (e.kind = .send ∧ (∃ i, (view w.journal e.intentId).intent = some i ∧ i.phase = .exit) ∧
        (view start e.intentId).status.1 ≠ .notFound ∧
        ∃ n, w.journal.getLast? = some n ∧ n.kind = .notFound ∧ n.intentId = e.intentId) := by
  cases h with
  | intent i hk hid hp hnew => rw [view_of_not_mem hnew, status_start] at hst; cases hst
  | skip hk hnew => rw [view_of_not_mem hnew, status_start] at hst; cases hst
  | refuse hk hid hst' => rw [hst] at hst'; cases hst'
  | send i b hk hp hi hst' hrisk hcall => rw [hst] at hst'; cases hst'
  | resend i hk hp hi hexit hflag hst' hnf hop hlast hstart hcall => exact .inr ⟨hk, ⟨i, hi, hexit⟩, hstart, hlast⟩
  | result i n r hk hp hi hn hlast hr hst' hres hconf => rw [hst] at hst'; cases hst'
  | notFound i hk hi hst' hs hfirst => rw [hst] at hst'; cases hst'
  | adopt i o hk hp hi hst' hm => rw [hst] at hst'; cases hst'
  | conflict i hk hi hst' => rw [hst] at hst'; cases hst'
  | operatorAdopt i a o hk hp hi hst' hm hno hne hval hcall =>
    obtain ⟨en, hcall⟩ := hcall
    refine .inl ⟨hk, ?_, en, a, hcall⟩
    simp [isAdoption, hk, hp, ResolveArgs.adoptPayload]
  | operatorNotFound i a hk hp hi hst' hval hcall => rw [hst] at hst'; cases hst'
  | brokerState i o final hk hp hi hno hfin hfill =>
    rw [acked_of_number hno hfin] at hst
    cases hst
  | cancel hk hst' hid => rw [hst] at hst'; cases hst'

end steps

/-! ## Whole runs -/

def postsOf (w : World) (id : String) : List Post := w.posts.filter (·.intent.intentId == id)

section runs

variable {R : OrderGateway → Call → Rules} {A : OrderGateway → Call → Prop} {w w' : World}

theorem step_later {R : Rules} {g : OrderGateway} {c : Call} {start : Journal} (h : Step R g c start w w') (id : String) :
    (view w.journal id).Later (view w'.journal id) := by
  cases h with
  | quiet w' hj hp hh => rw [hj]; exact View.Later.refl _
  | wrote e happ hs hw =>
    rw [World.wrote_journal, view_snoc]
    split_ifs with hid
    · exact hid ▸ hw.later
    · exact View.Later.refl _
  | posted i hd s hlast hk hid hi hst hnew hcall => exact View.Later.refl _

theorem session_later (ht : Timely w) (h : Session R A w w') (id : String) :
    (view w.journal id).Later (view w'.journal id) :=
  (session_invariant (I := fun x => (view w.journal id).Later (view x.journal id)) (fun _ _ _ h => h)
    (fun _ _ _ _ _ _ hI hs => hI.trans (step_later hs id)) ht (View.Later.refl _) h).1

theorem session_fits (h : Session R A World.empty w) (id : String) : (view w.journal id).Fits := by
  refine (session_invariant (I := fun x => (view x.journal id).Fits) (fun _ _ _ h => h)
    (fun g c start x y _ hI hs => ?_) timely_empty (fun f hf => by cases hf) h).1
  cases hs with
  | quiet y hj hp hh => rw [hj]; exact hI
  | wrote e happ hs hw =>
    rw [World.wrote_journal, view_snoc]
    split_ifs with hid
    · subst hid
      exact hw.fits hI
    · exact hI
  | posted i hd s hlast hk hid hi hst hnew hcall => exact hI

/-- A final intent is not POSTed again. -/
theorem session_posts (ht : Timely w) (h : Session R A w w') {id : String} (hf : (view w.journal id).status.2 = true) :
    postsOf w' id = postsOf w id := by
  refine (session_invariant (I := fun x => (view w.journal id).Later (view x.journal id) ∧
    postsOf x id = postsOf w id) (fun _ _ _ h => h) (fun g c start x y _ hI hs => ?_) ht ⟨View.Later.refl _, rfl⟩ h).1.2
  refine ⟨hI.1.trans (step_later hs id), ?_⟩
  cases hs with
  | quiet y hj hp hh => unfold postsOf; rw [hp]; exact hI.2
  | wrote e happ hs hw => exact hI.2
  | posted i hd s hlast hk hid hi hst hnew hcall =>
    have hne : i.intentId ≠ id := fun h => by
      rw [h, hI.1.closed hf] at hst
      rw [View.not_final_of_unknown hst] at hf
      cases hf
    unfold postsOf
    simp only [World.posted, List.filter_append, List.filter_cons, beq_false_of_ne hne, List.filter_nil,
      Bool.false_eq_true, if_false, List.append_nil]
    exact hI.2

/-- How the records of a journal leave NOT_FOUND. -/
def LeavesNotFound (j l : Journal) (e : JournalEvent) : Prop :=
  (e.kind = .operatorResolve ∧ isAdoption e = true) ∨
    (e.kind = .send ∧ (∃ i, (stateOf l e.intentId).intent = some i ∧ i.phase = .exit) ∧
      ∃ n, l.getLast? = some n ∧ n.kind = .notFound ∧ n.intentId = e.intentId ∧
        ∀ x ∈ j, x.kind = .notFound → x.intentId = e.intentId → x = n)

/-- At most one NOT_FOUND an intent, and every record that leaves that status leaves it in one of the two ways. -/
structure LeftOnce (j : Journal) : Prop where
  one : ∀ x ∈ j, ∀ y ∈ j, x.kind = .notFound → y.kind = .notFound → x.intentId = y.intentId → x = y
  left : ∀ l e t, j = l ++ e :: t → (stateOf l e.intentId).status = .notFound → LeavesNotFound j l e

theorem snoc_eq_append_cons {j l t : Journal} {e x : JournalEvent} (h : j ++ [e] = l ++ x :: t) :
    (t = [] ∧ j = l ∧ e = x) ∨ ∃ t', t = t' ++ [e] ∧ j = l ++ x :: t' := by
  rcases t.eq_nil_or_concat with rfl | ⟨t', z, rfl⟩
  · obtain ⟨h1, h2⟩ := List.append_inj' h rfl
    exact .inl ⟨rfl, h1, List.cons.inj h2 |>.1⟩
  · rw [List.concat_eq_append] at h ⊢
    rw [← List.cons_append, ← List.append_assoc] at h
    obtain ⟨h1, h2⟩ := List.append_inj' h rfl
    exact .inr ⟨t', by rw [(List.cons.inj h2).1], h1⟩

theorem leftOnce_wrote {R : Rules} {g : OrderGateway} {c : Call} {start : Journal} {e : JournalEvent}
    (hw : Writes R g c start w e) (h : LeftOnce w.journal) : LeftOnce (w.journal ++ [e]) := by
  have hfirst : e.kind = .notFound → ∀ x ∈ w.journal, x.kind = .notFound → x.intentId ≠ e.intentId := by
    intro hk
    cases hw with
    | notFound i hk' hi hst hs hfirst => exact fun x hx hxk hxe => hfirst x hx hxe hxk
    | cancel hk' => rcases hk' with hk' | hk' <;> simp [hk'] at hk
    | _ => simp_all
  refine ⟨fun x hx y hy hxk hyk hxy => ?_, fun l x t hl hst => ?_⟩
  · rcases List.mem_append.1 hx with hx | hx <;> rcases List.mem_append.1 hy with hy | hy
    · exact h.one x hx y hy hxk hyk hxy
    · rw [List.mem_singleton.1 hy] at hyk hxy
      exact absurd hxy (hfirst hyk x hx hxk)
    · rw [List.mem_singleton.1 hx] at hxk hxy
      exact absurd hxy.symm (hfirst hxk y hy hyk)
    · rw [List.mem_singleton.1 hx, List.mem_singleton.1 hy]
  · rcases snoc_eq_append_cons hl with ⟨-, rfl, rfl⟩ | ⟨t', rfl, hj⟩
    · rcases hw.leaves_notFound hst with ⟨hk, ha, -⟩ | ⟨hk, hi, -, n, hn, hnk, hnid⟩
      · exact .inl ⟨hk, ha⟩
      · refine .inr ⟨hk, hi, n, hn, hnk, hnid, fun x hx hxk hxe => ?_⟩
        rcases List.mem_append.1 hx with hx | hx
        · exact h.one x hx n (List.mem_of_getLast? hn) hxk hnk (hxe.trans hnid.symm)
        · rw [List.mem_singleton.1 hx, hk] at hxk
          cases hxk
    · rcases h.left l x t' hj hst with hop | ⟨hk, hi, n, hn, hnk, hnid, huniq⟩
      · exact .inl hop
      · refine .inr ⟨hk, hi, n, hn, hnk, hnid, fun y hy hyk hye => ?_⟩
        rcases List.mem_append.1 hy with hy | hy
        · exact huniq y hy hyk hye
        · rw [List.mem_singleton.1 hy] at hyk hye ⊢
          have hnm : n ∈ w.journal := hj ▸ List.mem_append_left _ (List.mem_of_getLast? hn)
          exact absurd (hnid.trans hye.symm) (hfirst hyk n hnm hnk)

theorem session_leftOnce (h : Session R A World.empty w) : LeftOnce w.journal := by
  refine (session_invariant (I := fun x => LeftOnce x.journal) (fun _ _ _ h => h) (fun g c start x y _ hI hs => ?_)
    timely_empty ⟨fun x hx => absurd hx List.not_mem_nil, fun l e t hl => ?_⟩ h).1
  · cases hs with
    | quiet y hj hp hh => rw [hj]; exact hI
    | wrote e happ hs hw => exact leftOnce_wrote hw hI
    | posted i hd s hlast hk hid hi hst hnew hcall => exact hI
  · exact absurd (congrArg List.length hl) (by simp [World.empty])

/-- A call that began with an intent NOT_FOUND leaves it so, unless it is the operator's resolution of that intent. -/
theorem call_keeps_notFound {R : Rules} {g : OrderGateway} {c : Call} {id : String} (ht : Timely w)
    (h : Reach (under R) (c.prog g) w w') (hst : (view w.journal id).status.1 = .notFound) :
    (view w'.journal id).status.1 = .notFound ∨ ∃ en a, c = .resolveUnknownIntent en a id := by
  refine Prog.invariant_reach (I := fun x => (view x.journal id).status.1 = .notFound ∨
    ∃ en a, c = .resolveUnknownIntent en a id) (fun x y hI hs => ?_) (call_steps ht h) (.inl hst)
  rcases hI with hI | hI
  · cases hs with
    | quiet y hj hp hh => rw [hj]; exact .inl hI
    | wrote e happ hs hw =>
      by_cases hid : e.intentId = id
      · subst hid
        rcases hw.leaves_notFound hI with ⟨-, -, hc⟩ | ⟨-, -, hstart, -⟩
        · exact .inr hc
        · exact absurd hst hstart
      · rw [World.wrote_journal, view_snoc_of_ne hid]
        exact .inl hI
    | posted i hd s hlast hk hid hi hst hnew hcall => exact .inl hI
  · exact .inr hI

end runs

/-- **Finality is absorbing and fills are monotone**, over every run from the empty journal: `w` is any world of the
run, `w'` any later one.  A final state is frozen and never sent again; fills grow and stay within the intent; ACKED
is left for the closed statuses alone; an operation that finds an intent NOT_FOUND leaves it so unless it is the
operator's resolution of it, and the only other record that leaves NOT_FOUND is an exit's SEND directly after that
exit's one NOT_FOUND. -/
theorem finality_absorbing_fills_monotone {w w' : World} (h : FreeSession World.empty w) (h' : FreeSession w w')
    {id : String} {s s' : IntentState} (hs : derived w.journal id = some s) (hs' : derived w'.journal id = some s') :
    (s.final = true → s' = s ∧ postsOf w' id = postsOf w id) ∧ s.filledQty ≤ s'.filledQty ∧ 0 ≤ s.filledQty ∧
      (∀ i, s.intent = some i → s.filledQty + s.remainingQty ≤ i.qty) ∧
      (s.status = .acked → s'.status = .acked ∨ s'.status = .filled ∨ s'.status = .partlyFilled ∨
        s'.status = .unfilled ∨ s'.status = .cancelled) ∧
      (s.status = .notFound → ∀ g c n hd w'', Reach (under anything) (Call.prog g c) (w.enter n hd) w'' →
        ∀ s'', derived w''.journal id = some s'' →
          s''.status = .notFound ∨ ∃ en a, c = .resolveUnknownIntent en a id) ∧
      (∀ l e t, w.journal = l ++ e :: t → (stateOf l e.intentId).status = .notFound →
        LeavesNotFound w.journal l e) := by
  obtain ⟨-, -, rfl⟩ := derived_eq_some.1 hs
  obtain ⟨-, -, rfl⟩ := derived_eq_some.1 hs'
  have ht : Timely w := (session_invariant (I := fun _ => True) (fun _ _ _ h => h) (fun _ _ _ _ _ _ _ _ => trivial)
    timely_empty trivial h).2
  have hl := session_later ht h' id
  have hfit := session_fits h id
  refine ⟨fun hf => ⟨?_, session_posts ht h' hf⟩, hl.filled, ?_, fun i hi => ?_, fun ha => ?_, ?_,
    (session_leftOnce h).left⟩
  · rw [stateOf, hl.closed hf]
  · simp only [stateOf, View.state]
    cases hf : (view w.journal id).fills with
    | none => exact Int.le_refl 0
    | some f => exact (hfit f hf).1
  · simp only [stateOf, View.state] at hi ⊢
    cases hf : (view w.journal id).fills with
    | none =>
      have := i.qty_pos
      dsimp only [Option.elim]
      omega
    | some f => exact (hfit f hf).2.2 i hi
  · rcases hl.acked ha with h1 | h1
    · exact .inl h1
    · rcases (View.status_of_final h1).2 with h2 | h2 | h2 | h2
      · exact .inr (.inl h2)
      · exact .inr (.inr (.inl h2))
      · exact .inr (.inr (.inr (.inr h2)))
      · exact .inr (.inr (.inr (.inl h2)))
  · intro hst g c n hd w'' hr s'' hs''
    obtain ⟨-, -, rfl⟩ := derived_eq_some.1 hs''
    exact call_keeps_notFound (w := w.enter n hd) ht hr hst

namespace Sample

/-- The broker refuses the order, and the session asks again. -/
def refusing : Oracle := broker (fun _ => verdict .rejected none) (fun _ => false)

def refusedTwice : World := refusing.after gateway (.submit samsung.intentId 1) ((ordered refusing samsung).enter 0 false)

end Sample

theorem finality_absorbing_refused :
    stateOf Sample.refusedTwice.journal Sample.samsung.intentId =
      stateOf (Sample.ordered Sample.refusing Sample.samsung).journal Sample.samsung.intentId := by
  have hs : derived (Sample.ordered Sample.refusing Sample.samsung).journal Sample.samsung.intentId =
      some (stateOf (Sample.ordered Sample.refusing Sample.samsung).journal Sample.samsung.intentId) := by
    decide +kernel
  have hs' : derived Sample.refusedTwice.journal Sample.samsung.intentId =
      some (stateOf Sample.refusedTwice.journal Sample.samsung.intentId) := by
    decide +kernel
  exact ((finality_absorbing_fills_monotone (Sample.session_ordered Sample.refusing Sample.samsung)
    (.single (Oracle.called_free _ _ _ _ _ _)) hs hs').1 (by decide +kernel)).1

end Order
