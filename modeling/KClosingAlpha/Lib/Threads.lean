import KClosingAlpha.Lib.Prog
import KClosingAlpha.Lib.System
/-!
# Threads — threads over one world, and what each may rely on

Each thread has a state of its own; a step of the whole is a step of one thread, on that state and on the world.  An
assertion of every thread that its own steps keep, and that no step of another thread can break because each does only
what the others rely on, always holds (`RelyGuarantee.always`); then every step is one its thread guarantees.

For a thread that runs a program the assertion is `Prog.rg`: between any two calls the others take a step of the rely,
and every call is a step of the guarantee.
-/
namespace Threads

/-- The world, and where each thread is. -/
structure State (ι L σ : Type*) where
  world : σ
  thread : ι → L

variable {ι L σ : Type*}

/-- A step of the thread `c`. -/
structure Step (step : ι → L → σ → L → σ → Prop) (c : ι) (s s' : State ι L σ) : Prop where
  own : step c (s.thread c) s.world (s'.thread c) s'.world
  others : ∀ d, d ≠ c → s'.thread d = s.thread d

/-- Any interleaving of the threads. -/
def system (start : State ι L σ → Prop) (step : ι → L → σ → L → σ → Prop) : System (State ι L σ) where
  start
  step s s' := ∃ c, Step step c s s'

/-- What every thread asserts, relies on and guarantees. -/
structure RelyGuarantee (step : ι → L → σ → L → σ → Prop) (A : ι → L → σ → Prop) (R : ι → σ → σ → Prop)
    (G : ι → L → σ → σ → Prop) : Prop where
  stable : ∀ c l w w', A c l w → R c w w' → A c l w'
  step : ∀ c l w l' w', A c l w → step c l w l' w' → G c l w w' ∧ A c l' w'
  compatible : ∀ c d l w w', c ≠ d → G c l w w' → R d w w'

namespace RelyGuarantee

variable {start : State ι L σ → Prop} {step : ι → L → σ → L → σ → Prop} {A : ι → L → σ → Prop} {R : ι → σ → σ → Prop}
  {G : ι → L → σ → σ → Prop}

/-- **Every thread's assertion always holds.** -/
theorem always (h : RelyGuarantee step A R G) (hstart : ∀ s, start s → ∀ c, A c (s.thread c) s.world) :
    (system start step).Always (fun s => ∀ c, A c (s.thread c) s.world) := by
  refine System.Inductive.always ⟨hstart, ?_⟩
  rintro s s' hA ⟨c, hs⟩ d
  obtain ⟨hG, hc⟩ := h.step c _ _ _ _ (hA c) hs.own
  by_cases hd : d = c
  · rw [hd]
    exact hc
  · rw [hs.others d hd]
    exact h.stable d _ _ _ (hA d) (h.compatible c d _ _ _ (Ne.symm hd) hG)

/-- **Every step is one its thread guarantees.** -/
theorem guarantee (h : RelyGuarantee step A R G) (hstart : ∀ s, start s → ∀ c, A c (s.thread c) s.world)
    {s s' : State ι L σ} {c : ι} (hs : (system start step).Reachable s) (hstep : Step step c s s') :
    G c (s.thread c) s.world s'.world :=
  (h.step c _ _ _ _ (h.always hstart s hs c) hstep.own).1

end RelyGuarantee

end Threads

/-! ## Programs among threads -/

namespace Prog

variable {Op : Type} {Ret : Op → Type} {ε α β σ : Type} {E : Exec Op Ret σ} {R G : σ → σ → Prop}

/-- The next call of a program, and what is left. -/
inductive Next (E : Exec Op Ret σ) : Prog Op Ret ε α → σ → Prog Op Ret ε α → σ → Prop where
  | call {op : Op} {k : Ret op → Prog Op Ret ε α} {w w' : σ} (r : Ret op) (hop : E op w r w') : Next E (call op k) w (k r) w'

/-- The precondition under interference: the others take a step of `R` before every call, and every call is a step of
`G`; the outcome satisfies `Q` when it is there. -/
def rg (E : Exec Op Ret σ) (R G : σ → σ → Prop) : Prog Op Ret ε α → (Except ε α → σ → Prop) → σ → Prop
  | ret a, Q, w => Q (.ok a) w
  | raise e, Q, w => Q (.error e) w
  | call op k, Q, w => ∀ w₁, R w w₁ → ∀ r w₂, E op w₁ r w₂ → G w₁ w₂ ∧ rg E R G (k r) Q w₂

theorem rg_mono {p : Prog Op Ret ε α} {Q Q' : Except ε α → σ → Prop} {w : σ} (h : rg E R G p Q w)
    (hQ : ∀ o w, Q o w → Q' o w) : rg E R G p Q' w := by
  induction p generalizing w with
  | ret a => exact hQ _ _ h
  | raise e => exact hQ _ _ h
  | call op k ih => exact fun w₁ hw r w₂ hop => ⟨(h w₁ hw r w₂ hop).1, ih r (h w₁ hw r w₂ hop).2⟩

/-- Others that do less. -/
theorem rg_anti {R' : σ → σ → Prop} {p : Prog Op Ret ε α} {Q : Except ε α → σ → Prop} {w : σ} (h : rg E R G p Q w)
    (hR : ∀ w w', R' w w' → R w w') : rg E R' G p Q w := by
  induction p generalizing w with
  | ret a => exact h
  | raise e => exact h
  | call op k ih =>
    exact fun w₁ hw r w₂ hop => ⟨(h w₁ (hR _ _ hw) r w₂ hop).1, ih r (h w₁ (hR _ _ hw) r w₂ hop).2⟩

theorem rg_ofExcept {x : Except ε α} {Q : Except ε α → σ → Prop} {w : σ} (h : Q x w) :
    rg E R G (ofExcept x : Prog Op Ret ε α) Q w := by
  cases x with
  | error e => exact h
  | ok a => exact h

theorem rg_bind {p : Prog Op Ret ε α} {f : α → Prog Op Ret ε β} {Q : Except ε β → σ → Prop} {w : σ}
    (P : Except ε α → σ → Prop) (h : rg E R G p P w) (hok : ∀ a w, P (.ok a) w → rg E R G (f a) Q w)
    (herr : ∀ e w, P (.error e) w → Q (.error e) w) : rg E R G (p.bind f) Q w := by
  induction p generalizing w with
  | ret a => exact hok a w h
  | raise e => exact herr e w h
  | call op k ih => exact fun w₁ hw r w₂ hop => ⟨(h w₁ hw r w₂ hop).1, ih r (h w₁ hw r w₂ hop).2⟩

theorem rg_attempt {p : Prog Op Ret ε α} {f : Except ε α → Prog Op Ret ε β} {Q : Except ε β → σ → Prop} {w : σ}
    (P : Except ε α → σ → Prop) (h : rg E R G p P w) (hf : ∀ o w, P o w → rg E R G (f o) Q w) :
    rg E R G (p.attempt.bind f) Q w := by
  induction p generalizing w with
  | ret a => exact hf _ w h
  | raise e => exact hf _ w h
  | call op k ih => exact fun w₁ hw r w₂ hop => ⟨(h w₁ hw r w₂ hop).1, ih r (h w₁ hw r w₂ hop).2⟩

/-- What neither the others nor the program can break is still there. -/
theorem rg_frame {F : σ → Prop} {p : Prog Op Ret ε α} {Q : Except ε α → σ → Prop} {w : σ}
    (hR : ∀ w w', R w w' → F w → F w') (hG : ∀ w w', G w w' → F w → F w') (h : rg E R G p Q w) (hF : F w) :
    rg E R G p (fun o w' => Q o w' ∧ F w') w := by
  induction p generalizing w with
  | ret a => exact ⟨h, hF⟩
  | raise e => exact ⟨h, hF⟩
  | call op k ih =>
    intro w₁ hw r w₂ hop
    obtain ⟨hg, hk⟩ := h w₁ hw r w₂ hop
    exact ⟨hg, ih r hk (hG _ _ hg (hR _ _ hw hF))⟩

/-- The others may take a step first. -/
theorem rg_stable {p : Prog Op Ret ε α} {Q : Except ε α → σ → Prop} {w w' : σ} (htrans : ∀ a b c, R a b → R b c → R a c)
    (hQ : ∀ o w w', Q o w → R w w' → Q o w') (h : rg E R G p Q w) (hw : R w w') : rg E R G p Q w' := by
  cases p with
  | ret a => exact hQ _ _ _ h hw
  | raise e => exact hQ _ _ _ h hw
  | call op k => exact fun w₁ hw₁ r w₂ hop => h w₁ (htrans _ _ _ hw hw₁) r w₂ hop

theorem rg_next {p p' : Prog Op Ret ε α} {Q : Except ε α → σ → Prop} {w w' : σ} (hrefl : ∀ a, R a a)
    (h : rg E R G p Q w) (hn : Next E p w p' w') : G w w' ∧ rg E R G p' Q w' := by
  cases hn with
  | call r hop => exact h w (hrefl w) r w' hop

/-- A run that nobody disturbs. -/
theorem rg_ends {p : Prog Op Ret ε α} {Q : Except ε α → σ → Prop} {w w' : σ} {o : Except ε α} (hrefl : ∀ a, R a a)
    (h : rg E R G p Q w) (he : Ends E p w o w') : Q o w' := by
  induction he with
  | ret a w => exact h
  | raise e w => exact h
  | call r hop _ ih => exact ih (h _ (hrefl _) r _ hop).2

/-- Among the others: `I` holds of every outcome, and a value satisfies `φ`. -/
def among (E : Exec Op Ret σ) (R G : σ → σ → Prop) (I : σ → Prop) (p : Prog Op Ret ε α) (φ : α → σ → Prop) (w : σ) : Prop :=
  rg E R G p (fun o w' => I w' ∧ ∀ a, o = .ok a → φ a w') w

section among

variable {I : σ → Prop} {φ : α → σ → Prop} {ψ : β → σ → Prop} {p : Prog Op Ret ε α} {w : σ}

theorem among_ret {a : α} (hw : I w) (h : φ a w) : among E R G I (ret a : Prog Op Ret ε α) φ w := by
  refine ⟨hw, fun b hb => ?_⟩
  cases hb
  exact h

theorem among_raise {e : ε} (hw : I w) : among E R G I (raise e : Prog Op Ret ε α) φ w := ⟨hw, fun a ha => by cases ha⟩

theorem among_ofExcept {x : Except ε α} (hw : I w) (h : ∀ a, x = .ok a → φ a w) :
    among E R G I (ofExcept x : Prog Op Ret ε α) φ w := rg_ofExcept ⟨hw, h⟩

theorem among_bind {f : α → Prog Op Ret ε β} (h : among E R G I p φ w)
    (hf : ∀ a w', I w' → φ a w' → among E R G I (f a) ψ w') : among E R G I (p.bind f) ψ w := by
  apply rg_bind _ h
  · exact fun a w' h' => hf a w' h'.1 (h'.2 a rfl)
  · exact fun e w' h' => ⟨h'.1, fun b hb => by cases hb⟩

theorem among_mono {φ' : α → σ → Prop} (h : among E R G I p φ w) (hφ : ∀ a w', φ a w' → φ' a w') :
    among E R G I p φ' w :=
  rg_mono h (fun _ _ h' => ⟨h'.1, fun a ha => hφ _ _ (h'.2 a ha)⟩)

/-- What follows a caught outcome still has what nobody can break. -/
theorem among_attempt {F : σ → Prop} {f : Except ε α → Prog Op Ret ε β} (h : among E R G I p φ w)
    (hR : ∀ w w', R w w' → F w → F w') (hG : ∀ w w', G w w' → F w → F w') (hw : F w)
    (hf : ∀ o w', I w' → F w' → (∀ a, o = .ok a → φ a w') → among E R G I (f o) ψ w') :
    among E R G I (p.attempt.bind f) ψ w := by
  apply rg_attempt _ (rg_frame hR hG h hw)
  exact fun o w' h' => hf o w' h'.1.1 h'.2 h'.1.2

end among

/-! ### Which calls a program makes -/

/-- Every call a program may make is one of `P`. -/
def Calls (P : Op → Prop) : Prog Op Ret ε α → Prop
  | ret _ | raise _ => True
  | call op k => P op ∧ ∀ r, (k r).Calls P

section calls

variable {P P' : Op → Prop}

@[simp] theorem calls_ret (a : α) : (ret a : Prog Op Ret ε α).Calls P := trivial

@[simp] theorem calls_raise (e : ε) : (raise e : Prog Op Ret ε α).Calls P := trivial

@[simp] theorem calls_ofExcept (x : Except ε α) : (ofExcept x : Prog Op Ret ε α).Calls P := by
  cases x <;> trivial

theorem Calls.mono {p : Prog Op Ret ε α} (h : p.Calls P) (hP : ∀ op, P op → P' op) : p.Calls P' := by
  induction p with
  | ret a => trivial
  | raise e => trivial
  | call op k ih => exact ⟨hP op h.1, fun r => ih r (h.2 r)⟩

theorem Calls.bind {p : Prog Op Ret ε α} {f : α → Prog Op Ret ε β} (h : p.Calls P) (hf : ∀ a, (f a).Calls P) :
    (p.bind f).Calls P := by
  induction p with
  | ret a => exact hf a
  | raise e => trivial
  | call op k ih => exact ⟨h.1, fun r => ih r (h.2 r)⟩

theorem Calls.ite {q : Prop} [Decidable q] {p p' : Prog Op Ret ε α} (h : p.Calls P) (h' : p'.Calls P) :
    (if q then p else p').Calls P := by
  split_ifs
  · exact h
  · exact h'

theorem Calls.attempt {p : Prog Op Ret ε α} (h : p.Calls P) : p.attempt.Calls P := by
  induction p with
  | ret a => trivial
  | raise e => trivial
  | call op k ih => exact ⟨h.1, fun r => ih r (h.2 r)⟩

/-- A program all of whose calls keep an assertion keeps it. -/
theorem rg_of_calls {A : σ → Prop} {p : Prog Op Ret ε α} {w : σ} (hA : ∀ w w', A w → R w w' → A w')
    (hop : ∀ op, P op → ∀ w r w', A w → E op w r w' → G w w' ∧ A w') (h : p.Calls P) (hw : A w) :
    rg E R G p (fun _ w' => A w') w := by
  induction p generalizing w with
  | ret a => exact hw
  | raise e => exact hw
  | call op k ih =>
    intro w₁ hw₁ r w₂ hE
    obtain ⟨hG, hw₂⟩ := hop op h.1 w₁ r w₂ (hA w w₁ hw hw₁) hE
    exact ⟨hG, ih r (h.2 r) hw₂⟩

/-- The same without an environment that moves, whatever the program raises. -/
theorem wpx_of_calls {A : σ → Prop} {p : Prog Op Ret ε α} {w : σ} (hA : ∀ op w r w', P op → A w → E op w r w' → A w')
    (h : p.Calls P) (hw : A w) : wpx E (fun _ w' => A w') p (fun _ w' => A w') w := by
  induction p generalizing w with
  | ret a => exact hw
  | raise e => exact hw
  | call op k ih =>
    intro r w' hE
    have hw' := hA op w r w' h.1 hw hE
    exact ⟨hw', ih r (h.2 r) hw'⟩

theorem reach_of_calls {A : σ → Prop} {p : Prog Op Ret ε α} {w w' : σ}
    (hA : ∀ op w r w', P op → A w → E op w r w' → A w') (h : p.Calls P) (hw : A w) (hr : Reach E p w w') : A w' := by
  cases wpx_reach (wpx_of_calls hA h hw) hr with
  | refl => exact hw
  | tail _ hstep => exact hstep

end calls

/-! ### A program whose calls are answered by a function -/

/-- Whether a program has a next call. -/
def isCall : Prog Op Ret ε α → Bool
  | ret _ | raise _ => false
  | call _ _ => true

variable {step : (op : Op) → σ → Ret op × σ}

/-- What is left of a program after some calls, and the world. -/
def afterCalls (step : (op : Op) → σ → Ret op × σ) : Nat → Prog Op Ret ε α → σ → Prog Op Ret ε α × σ
  | 0, p, w => (p, w)
  | n + 1, call op k, w => afterCalls step n (k (step op w).1) (step op w).2
  | _ + 1, ret a, w => (ret a, w)
  | _ + 1, raise e, w => (raise e, w)

theorem next_afterCalls (hE : ∀ op w, E op w (step op w).1 (step op w).2) :
    ∀ {n : Nat} {p : Prog Op Ret ε α} {w : σ}, (afterCalls step n p w).1.isCall = true →
      Next E (afterCalls step n p w).1 (afterCalls step n p w).2 (afterCalls step (n + 1) p w).1
        (afterCalls step (n + 1) p w).2
  | 0, call op _, w, _ => .call _ (hE op w)
  | _ + 1, call op k, w, h => next_afterCalls (p := k (step op w).1) hE h

/-- The world after some calls is one the program passes through. -/
theorem reach_afterCalls (hE : ∀ op w, E op w (step op w).1 (step op w).2) :
    ∀ (n : Nat) (p : Prog Op Ret ε α) (w : σ), Reach E p w (afterCalls step n p w).2
  | 0, p, w => .here p w
  | n + 1, call op k, w => .step _ (hE op w) (reach_afterCalls hE n (k (step op w).1) (step op w).2)
  | _ + 1, ret _, w => .here _ w
  | _ + 1, raise _, w => .here _ w

end Prog
