import Mathlib.Data.List.Induction
import Mathlib.Data.Set.Subsingleton
import Mathlib.Logic.Relation
/-!
# System — transition systems, their invariants, and refinement

A system is where it starts and what one step may do.  An invariant is proved once for the start and once for a step
(`Inductive`), possibly with the help of another invariant that is already known.  A refinement maps the states of one
system to another so that every step is a step there or no step at all; what always holds there then holds here
(`Refines.always`).  `Mutex` is the smallest such target: a set of holders that is entered only when it is empty.  A
state may carry its history, each event of which its past allows (`History.Along`).
-/

/-- A transition system over states `σ`. -/
structure System (σ : Type*) where
  start : σ → Prop
  step : σ → σ → Prop

namespace System

variable {σ τ : Type*} {S : System σ} {T : System τ}

/-- The states a run passes through. -/
def Reachable (S : System σ) (s : σ) : Prop := ∃ s₀, S.start s₀ ∧ Relation.ReflTransGen S.step s₀ s

theorem Reachable.start {s : σ} (h : S.start s) : S.Reachable s := ⟨s, h, .refl⟩

theorem Reachable.step {s s' : σ} (h : S.Reachable s) (hs : S.step s s') : S.Reachable s' := by
  obtain ⟨s₀, h₀, hr⟩ := h
  exact ⟨s₀, h₀, hr.tail hs⟩

theorem Reachable.run {s s' : σ} (h : S.Reachable s) (hs : Relation.ReflTransGen S.step s s') : S.Reachable s' := by
  obtain ⟨s₀, h₀, hr⟩ := h
  exact ⟨s₀, h₀, hr.trans hs⟩

/-- What holds of every reachable state. -/
def Always (S : System σ) (I : σ → Prop) : Prop := ∀ s, S.Reachable s → I s

/-- A predicate that holds at the start and that no step breaks. -/
structure Inductive (S : System σ) (I : σ → Prop) : Prop where
  start : ∀ s, S.start s → I s
  step : ∀ s s', I s → S.step s s' → I s'

/-- **An inductive predicate always holds.** -/
theorem Inductive.always {I : σ → Prop} (h : S.Inductive I) : S.Always I := by
  rintro s ⟨s₀, h₀, hr⟩
  induction hr with
  | refl => exact h.start s₀ h₀
  | tail _ hs ih => exact h.step _ _ ih hs

/-- An invariant may be proved with the help of one that is already known. -/
theorem Always.strengthen {I J : σ → Prop} (hI : S.Always I) (start : ∀ s, S.start s → J s)
    (step : ∀ s s', I s → J s → S.step s s' → J s') : S.Always J := by
  rintro s ⟨s₀, h₀, hr⟩
  induction hr with
  | refl => exact start s₀ h₀
  | tail hr' hs ih => exact step _ _ (hI _ ⟨s₀, h₀, hr'⟩) ih hs

/-- A map of states under which every step from a reachable state is a step of the other system, or no step. -/
structure Refines (S : System σ) (T : System τ) (f : σ → τ) : Prop where
  start : ∀ s, S.start s → T.start (f s)
  step : ∀ s s', S.Reachable s → S.step s s' → f s' = f s ∨ T.step (f s) (f s')

theorem Refines.reachable {f : σ → τ} (h : S.Refines T f) {s : σ} (hs : S.Reachable s) : T.Reachable (f s) := by
  obtain ⟨s₀, h₀, hr⟩ := hs
  induction hr with
  | refl => exact .start (h.start s₀ h₀)
  | tail hr' hstep ih =>
    rcases h.step _ _ ⟨s₀, h₀, hr'⟩ hstep with heq | hstep'
    · rw [heq]
      exact ih
    · exact ih.step hstep'

/-- **What always holds of the refined system holds of the refining one.** -/
theorem Refines.always {f : σ → τ} (h : S.Refines T f) {I : τ → Prop} (hI : T.Always I) : S.Always (fun s => I (f s)) :=
  fun _ hs => hI _ (h.reachable hs)

end System

/-! ## Histories -/

namespace History

variable {ε ρ : Type*}

/-- Every event stands where its past allows it. -/
def Along (P : List ε → ε → Prop) (l : List ε) : Prop := ∀ past e future, l = past ++ e :: future → P past e

theorem along_nil (P : List ε → ε → Prop) : Along P [] := by
  intro past e future h
  cases past <;> cases h

theorem Along.snoc {P : List ε → ε → Prop} {l : List ε} {e : ε} (h : Along P l) (he : P l e) : Along P (l ++ [e]) := by
  intro past e' future heq
  rcases List.append_eq_append_iff.1 heq with ⟨mid, rfl, hmid⟩ | ⟨mid, hl, hmid⟩
  · cases mid with
    | nil =>
      rw [List.nil_append] at hmid
      cases hmid
      simpa using he
    | cons x xs =>
      cases xs <;> cases hmid
  · cases mid with
    | nil =>
      rw [List.nil_append] at hmid
      cases hmid
      rw [List.append_nil] at hl
      rw [← hl]
      exact he
    | cons x xs =>
      cases hmid
      exact h past e' xs hl

theorem Along.init {P : List ε → ε → Prop} {l : List ε} {e : ε} (h : Along P (l ++ [e])) : Along P l := by
  intro past e' future heq
  exact h past e' (future ++ [e]) (by rw [heq, List.append_assoc, List.cons_append])

theorem Along.last {P : List ε → ε → Prop} {l : List ε} {e : ε} (h : Along P (l ++ [e])) : P l e := h l e [] rfl

/-- More events, each allowed by what came before it. -/
theorem Along.append {P : List ε → ε → Prop} : ∀ {l' l : List ε}, Along P l →
    (∀ past e future, l' = past ++ e :: future → P (l ++ past) e) → Along P (l ++ l')
  | [], l, h, _ => by rwa [List.append_nil]
  | e :: l', l, h, h' => by
    have he : P l e := by simpa using h' [] e l' rfl
    have hrest : Along P ((l ++ [e]) ++ l') := by
      refine Along.append (h.snoc he) (fun past d future heq => ?_)
      rw [List.append_assoc]
      exact h' (e :: past) d future (by rw [heq, List.cons_append])
    rwa [List.append_assoc] at hrest

/-- Events may be struck out where the others do without them. -/
theorem Along.filter {P : List ε → ε → Prop} {q : ε → Bool} {l : List ε} (h : Along P l)
    (hq : ∀ past e future, l = past ++ e :: future → q e = true → P past e → P (past.filter q) e) :
    Along P (l.filter q) := by
  induction l using List.reverseRecOn with
  | nil => exact along_nil P
  | append_singleton l e ih =>
    have hl : Along P (l.filter q) := by
      refine ih h.init (fun past d future heq => hq past d (future ++ [e]) ?_)
      rw [heq, List.append_assoc, List.cons_append]
    rw [List.filter_append]
    by_cases he : q e = true
    · rw [List.filter_cons_of_pos he, List.filter_nil]
      exact hl.snoc (hq l e [] rfl he h.last)
    · rw [List.filter_cons_of_neg he, List.filter_nil, List.append_nil]
      exact hl

/-- The value a history leaves, where some events set it. -/
def replay (sets : ε → Option ρ) (v : Option ρ) (l : List ε) : Option ρ := l.foldl (fun v e => (sets e).or v) v

variable {sets : ε → Option ρ} {v : Option ρ}

theorem replay_append (l l' : List ε) : replay sets v (l ++ l') = replay sets (replay sets v l) l' := List.foldl_append ..

theorem replay_snoc (l : List ε) (e : ε) : replay sets v (l ++ [e]) = (sets e).or (replay sets v l) := by
  rw [replay_append]
  rfl

/-- Events that set nothing leave the value. -/
theorem replay_keeps : ∀ {l : List ε}, (∀ e ∈ l, sets e = none) → replay sets v l = v
  | [], _ => rfl
  | e :: l, h => by
    have he : (sets e).or v = v := by rw [h e List.mem_cons_self]; rfl
    change replay sets ((sets e).or v) l = v
    rw [he]
    exact replay_keeps (fun e' h' => h e' (List.mem_cons_of_mem _ h'))

end History

/-! ## Mutual exclusion -/

namespace Mutex

variable {α : Type*}

/-- Somebody enters when nobody is inside, or somebody leaves. -/
inductive Step : Set α → Set α → Prop where
  | enter (a : α) : Step ∅ {a}
  | leave (s : Set α) (a : α) : Step s (s \ {a})

/-- The holders of a mutex. -/
def system (α : Type*) : System (Set α) where
  start s := s = ∅
  step := Step

/-- **At most one holder.** -/
theorem always_subsingleton : (system α).Always Set.Subsingleton := by
  refine System.Inductive.always ⟨?_, ?_⟩
  · intro s hs
    rw [show s = ∅ from hs]
    exact Set.subsingleton_empty
  · intro s s' hI hs
    cases hs with
    | enter a => exact Set.subsingleton_singleton
    | leave _ a => exact hI.anti (fun _ hx => hx.1)

end Mutex
