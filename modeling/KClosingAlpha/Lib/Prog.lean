import Mathlib.Logic.Relation
/-!
# Prog — effectful programs that may be cut between any two effects

A program is a tree of calls to an environment (`Op`, answered in `Ret op`) that ends in a value or an exception.
`Reach` is every world a run passes through, so it is also every world a crash can leave behind; `wp` is the weakest
precondition of a postcondition together with a guarantee `G` that every single call keeps.  The rule the rest rests
on is `wp_reach`: a run that starts in its `wp`, cut anywhere, only ever took steps of `G`.  `run` is the
deterministic reading, for an environment that is a function of the world, and `run_ends` puts it among the runs.
-/

/-- A program over the operations `Op`, which raises `ε` or returns `α`. -/
inductive Prog (Op : Type) (Ret : Op → Type) (ε α : Type) where
  | ret (a : α)
  | raise (e : ε)
  | call (op : Op) (k : Ret op → Prog Op Ret ε α)

namespace Prog

variable {Op : Type} {Ret : Op → Type} {ε α β γ σ : Type}

/-- Sequencing; an exception of the first program is the exception of the whole. -/
def bind : Prog Op Ret ε α → (α → Prog Op Ret ε β) → Prog Op Ret ε β
  | ret a, f => f a
  | raise e, _ => raise e
  | call op k, f => call op (fun r => (k r).bind f)

instance : Monad (Prog Op Ret ε) where
  pure := ret
  bind := bind

/-- One call whose answer is the value. -/
def perform (op : Op) : Prog Op Ret ε (Ret op) := call op ret

/-- A pure computation that may raise, as a program without calls. -/
def ofExcept : Except ε α → Prog Op Ret ε α
  | .ok a => ret a
  | .error e => raise e

@[simp] theorem pure_eq (a : α) : (pure a : Prog Op Ret ε α) = ret a := rfl

@[simp] theorem bind_eq (p : Prog Op Ret ε α) (f : α → Prog Op Ret ε β) : (p >>= f) = p.bind f := rfl

@[simp] theorem ret_bind (a : α) (f : α → Prog Op Ret ε β) : (ret a : Prog Op Ret ε α).bind f = f a := rfl

@[simp] theorem raise_bind (e : ε) (f : α → Prog Op Ret ε β) : (raise e : Prog Op Ret ε α).bind f = raise e := rfl

@[simp] theorem call_bind (op : Op) (k : Ret op → Prog Op Ret ε α) (f : α → Prog Op Ret ε β) :
    (call op k).bind f = call op (fun r => (k r).bind f) := rfl

@[simp] theorem ofExcept_ok (a : α) : (ofExcept (.ok a) : Prog Op Ret ε α) = ret a := rfl

@[simp] theorem ofExcept_error (e : ε) : (ofExcept (.error e) : Prog Op Ret ε α) = raise e := rfl

theorem bind_assoc (p : Prog Op Ret ε α) (f : α → Prog Op Ret ε β) (g : β → Prog Op Ret ε γ) :
    (p.bind f).bind g = p.bind (fun a => (f a).bind g) := by
  induction p with
  | ret a => rfl
  | raise e => rfl
  | call op k ih => simp only [call_bind, ih]

/-! ## Runs that may be cut -/

/-- What an answer to a call may be, and the world after it. -/
abbrev Exec (Op : Type) (Ret : Op → Type) (σ : Type) := (op : Op) → σ → Ret op → σ → Prop

/-- The worlds a run of a program passes through: where a crash can leave the world, and where it ends. -/
inductive Reach (E : Exec Op Ret σ) : Prog Op Ret ε α → σ → σ → Prop where
  | here (p : Prog Op Ret ε α) (w : σ) : Reach E p w w
  | step {op : Op} {k : Ret op → Prog Op Ret ε α} {w w' w'' : σ} (r : Ret op) (hop : E op w r w')
      (hk : Reach E (k r) w' w'') : Reach E (call op k) w w''

/-- The outcomes of the runs that are not cut. -/
inductive Ends (E : Exec Op Ret σ) : Prog Op Ret ε α → σ → Except ε α → σ → Prop where
  | ret (a : α) (w : σ) : Ends E (ret a) w (.ok a) w
  | raise (e : ε) (w : σ) : Ends E (raise e) w (.error e) w
  | call {op : Op} {k : Ret op → Prog Op Ret ε α} {w w' w'' : σ} {o : Except ε α} (r : Ret op) (hop : E op w r w')
      (hk : Ends E (k r) w' o w'') : Ends E (call op k) w o w''

/-- A run that is not cut ends in a world it passes through. -/
theorem Ends.reach {E : Exec Op Ret σ} {p : Prog Op Ret ε α} {w w' : σ} {o : Except ε α} (h : Ends E p w o w') :
    Reach E p w w' := by
  induction h with
  | ret a w => exact .here _ w
  | raise e w => exact .here _ w
  | call r hop _ ih => exact .step r hop ih

/-- A sequence that returns returned from both its parts. -/
theorem Ends.of_bind {E : Exec Op Ret σ} {p : Prog Op Ret ε α} {f : α → Prog Op Ret ε β} {w w' : σ} {b : β}
    (h : Ends E (p.bind f) w (.ok b) w') : ∃ a w₁, Ends E p w (.ok a) w₁ ∧ Ends E (f a) w₁ (.ok b) w' := by
  induction p generalizing w with
  | ret a => exact ⟨a, w, .ret a w, h⟩
  | raise e => cases h
  | call op k ih =>
    cases h with
    | call r hop hk =>
      obtain ⟨a, w₁, hp, hf⟩ := ih r hk
      exact ⟨a, w₁, .call r hop hp, hf⟩

theorem Ends.of_ofExcept {E : Exec Op Ret σ} {x : Except ε α} {w w' : σ} {a : α}
    (h : Ends E (ofExcept x : Prog Op Ret ε α) w (.ok a) w') : x = .ok a := by
  cases x with
  | error e => cases h
  | ok b =>
    cases h
    rfl

/-- Where the first part of a sequence can be cut, the sequence can. -/
theorem Reach.bind {E : Exec Op Ret σ} {p : Prog Op Ret ε α} {f : α → Prog Op Ret ε β} {w w' : σ}
    (h : Reach E p w w') : Reach E (p.bind f) w w' := by
  induction h with
  | here p w => exact .here _ w
  | step r hop _ ih => exact .step r hop ih

theorem Reach.mono {E E' : Exec Op Ret σ} (hE : ∀ op w r w', E op w r w' → E' op w r w') {p : Prog Op Ret ε α}
    {w w' : σ} (h : Reach E p w w') : Reach E' p w w' := by
  induction h with
  | here p w => exact .here p w
  | step r hop _ ih => exact .step r (hE _ _ _ _ hop) ih

/-! ## The weakest precondition under a guarantee -/

/-- From `w`, every call of `p` is a step of `G`, and a returned value satisfies `Q`. -/
def wp (E : Exec Op Ret σ) (G : σ → σ → Prop) : Prog Op Ret ε α → (α → σ → Prop) → σ → Prop
  | ret a, Q, w => Q a w
  | raise _, _, _ => True
  | call op k, Q, w => ∀ r w', E op w r w' → G w w' ∧ wp E G (k r) Q w'

variable {E : Exec Op Ret σ} {G : σ → σ → Prop}

@[simp] theorem wp_ret (a : α) (Q : α → σ → Prop) (w : σ) : wp E G (ret a : Prog Op Ret ε α) Q w ↔ Q a w := Iff.rfl

@[simp] theorem wp_raise (e : ε) (Q : α → σ → Prop) (w : σ) : wp E G (raise e : Prog Op Ret ε α) Q w ↔ True := Iff.rfl

theorem wp_call (op : Op) (k : Ret op → Prog Op Ret ε α) (Q : α → σ → Prop) (w : σ) :
    wp E G (call op k) Q w ↔ ∀ r w', E op w r w' → G w w' ∧ wp E G (k r) Q w' := Iff.rfl

theorem wp_perform (op : Op) (Q : Ret op → σ → Prop) (w : σ) :
    wp E G (perform op : Prog Op Ret ε (Ret op)) Q w ↔ ∀ r w', E op w r w' → G w w' ∧ Q r w' := Iff.rfl

theorem wp_ofExcept (x : Except ε α) (Q : α → σ → Prop) (w : σ) :
    wp E G (ofExcept x : Prog Op Ret ε α) Q w ↔ ∀ a, x = .ok a → Q a w := by
  cases x with
  | error e => simp
  | ok a => simp

theorem wp_bind (p : Prog Op Ret ε α) (f : α → Prog Op Ret ε β) (Q : β → σ → Prop) (w : σ) :
    wp E G (p.bind f) Q w ↔ wp E G p (fun a => wp E G (f a) Q) w := by
  induction p generalizing w with
  | ret a => rfl
  | raise e => rfl
  | call op k ih => simp only [call_bind, wp_call, ih]

theorem wp_mono {G' : σ → σ → Prop} {p : Prog Op Ret ε α} {Q Q' : α → σ → Prop} {w : σ} (h : wp E G p Q w)
    (hG : ∀ w w', G w w' → G' w w') (hQ : ∀ a w, Q a w → Q' a w) : wp E G' p Q' w := by
  induction p generalizing w with
  | ret a => exact hQ _ _ h
  | raise e => trivial
  | call op k ih => exact fun r w' hop => ⟨hG _ _ (h r w' hop).1, ih r (h r w' hop).2⟩

theorem wp_post {p : Prog Op Ret ε α} {Q Q' : α → σ → Prop} {w : σ} (h : wp E G p Q w)
    (hQ : ∀ a w, Q a w → Q' a w) : wp E G p Q' w := wp_mono h (fun _ _ h => h) hQ

/-- **A run that starts in its weakest precondition, cut anywhere, only took steps of the guarantee.** -/
theorem wp_reach {p : Prog Op Ret ε α} {Q : α → σ → Prop} {w w' : σ} (h : wp E G p Q w)
    (hr : Reach E p w w') : Relation.ReflTransGen G w w' := by
  induction hr with
  | here p w => exact .refl
  | step r hop _ ih => exact .head (h r _ hop).1 (ih (h r _ hop).2)

/-- A run that returns satisfies the postcondition. -/
theorem wp_ends {p : Prog Op Ret ε α} {Q : α → σ → Prop} {w w' : σ} {a : α} (h : wp E G p Q w)
    (he : Ends E p w (.ok a) w') : Q a w' := by
  generalize ho : (Except.ok a : Except ε α) = o at he
  induction he with
  | ret b w => cases ho; exact h
  | raise e w => cases ho
  | call r hop _ ih => exact ih (h r _ hop).2 ho

/-- An invariant of the guarantee may be assumed at every call. -/
theorem wp_of_invariant {I : σ → Prop} (hI : ∀ w w', I w → G w w' → I w') {p : Prog Op Ret ε α} {Q : α → σ → Prop}
    {w : σ} (hw : I w) (h : wp (fun op w r w' => I w ∧ E op w r w') G p Q w) : wp E G p Q w := by
  induction p generalizing w with
  | ret a => exact h
  | raise e => trivial
  | call op k ih => exact fun r w' hop =>
      ⟨(h r w' ⟨hw, hop⟩).1, ih r (hI _ _ hw (h r w' ⟨hw, hop⟩).1) (h r w' ⟨hw, hop⟩).2⟩

/-- An invariant of the guarantee holds of every world a run passes through. -/
theorem invariant_reach {I : σ → Prop} (hI : ∀ w w', I w → G w w' → I w') {w w' : σ}
    (hr : Relation.ReflTransGen G w w') (hw : I w) : I w' := by
  induction hr with
  | refl => exact hw
  | tail _ hstep ih => exact hI _ _ ih hstep

/-! ## Exceptions that are caught -/

/-- `try: p`, with the exception as the value: what follows is the handler. -/
def attempt : Prog Op Ret ε α → Prog Op Ret ε (Except ε α)
  | ret a => ret (.ok a)
  | raise e => ret (.error e)
  | call op k => call op (fun r => (k r).attempt)

/-- A caught outcome is the one of the program. -/
theorem Ends.of_attempt {p : Prog Op Ret ε α} {w w' : σ} {x : Except ε α} (h : Ends E p.attempt w (.ok x) w') :
    Ends E p w x w' := by
  induction p generalizing w with
  | ret a =>
    cases h
    exact .ret a _
  | raise e =>
    cases h
    exact .raise e _
  | call op k ih =>
    cases h with
    | call r hop hk => exact .call r hop (ih r hk)

/-- The precondition under which every call is a step of `G`, and a value or an exception satisfies `Q`. -/
def wpx (E : Exec Op Ret σ) (G : σ → σ → Prop) : Prog Op Ret ε α → (Except ε α → σ → Prop) → σ → Prop
  | ret a, Q, w => Q (.ok a) w
  | raise e, Q, w => Q (.error e) w
  | call op k, Q, w => ∀ r w', E op w r w' → G w w' ∧ wpx E G (k r) Q w'

@[simp] theorem wpx_ret (a : α) (Q : Except ε α → σ → Prop) (w : σ) :
    wpx E G (ret a : Prog Op Ret ε α) Q w ↔ Q (.ok a) w := Iff.rfl

@[simp] theorem wpx_raise (e : ε) (Q : Except ε α → σ → Prop) (w : σ) :
    wpx E G (raise e : Prog Op Ret ε α) Q w ↔ Q (.error e) w := Iff.rfl

theorem wpx_call (op : Op) (k : Ret op → Prog Op Ret ε α) (Q : Except ε α → σ → Prop) (w : σ) :
    wpx E G (call op k) Q w ↔ ∀ r w', E op w r w' → G w w' ∧ wpx E G (k r) Q w' := Iff.rfl

@[simp] theorem wpx_ofExcept (x : Except ε α) (Q : Except ε α → σ → Prop) (w : σ) :
    wpx E G (ofExcept x : Prog Op Ret ε α) Q w ↔ Q x w := by
  cases x <;> rfl

theorem wpx_mono {G' : σ → σ → Prop} {p : Prog Op Ret ε α} {Q Q' : Except ε α → σ → Prop} {w : σ} (h : wpx E G p Q w)
    (hG : ∀ w w', G w w' → G' w w') (hQ : ∀ o w, Q o w → Q' o w) : wpx E G' p Q' w := by
  induction p generalizing w with
  | ret a => exact hQ _ _ h
  | raise e => exact hQ _ _ h
  | call op k ih => exact fun r w' hop => ⟨hG _ _ (h r w' hop).1, ih r (h r w' hop).2⟩

/-- A sequence: the exception of its first part is the exception of the whole. -/
theorem wpx_bind {p : Prog Op Ret ε α} {f : α → Prog Op Ret ε β} {Q : Except ε β → σ → Prop} {w : σ}
    (R : Except ε α → σ → Prop) (h : wpx E G p R w) (hok : ∀ a w, R (.ok a) w → wpx E G (f a) Q w)
    (herr : ∀ e w, R (.error e) w → Q (.error e) w) : wpx E G (p.bind f) Q w := by
  induction p generalizing w with
  | ret a => exact hok a w h
  | raise e => exact herr e w h
  | call op k ih => exact fun r w' hop => ⟨(h r w' hop).1, ih r (h r w' hop).2⟩

/-- A handler sees the value or the exception. -/
theorem wpx_attempt {p : Prog Op Ret ε α} {f : Except ε α → Prog Op Ret ε β} {Q : Except ε β → σ → Prop} {w : σ}
    (R : Except ε α → σ → Prop) (h : wpx E G p R w) (hf : ∀ o w, R o w → wpx E G (f o) Q w) :
    wpx E G (p.attempt.bind f) Q w := by
  induction p generalizing w with
  | ret a => exact hf _ w h
  | raise e => exact hf _ w h
  | call op k ih => exact fun r w' hop => ⟨(h r w' hop).1, ih r (h r w' hop).2⟩

/-- **A run from its precondition, cut anywhere, only took steps of the guarantee**, whatever it raised on the way. -/
theorem wpx_reach {p : Prog Op Ret ε α} {Q : Except ε α → σ → Prop} {w w' : σ} (h : wpx E G p Q w)
    (hr : Reach E p w w') : Relation.ReflTransGen G w w' := by
  induction hr with
  | here p w => exact .refl
  | step r hop _ ih => exact .head (h r _ hop).1 (ih (h r _ hop).2)

/-- The outcome of a run satisfies the postcondition. -/
theorem wpx_ends {p : Prog Op Ret ε α} {Q : Except ε α → σ → Prop} {w w' : σ} {o : Except ε α} (h : wpx E G p Q w)
    (he : Ends E p w o w') : Q o w' := by
  induction he with
  | ret a w => exact h
  | raise e w => exact h
  | call r hop _ ih => exact ih (h r _ hop).2

/-- `I` holds of every world on the way, and a value that is returned satisfies `φ`. -/
def keeps (E : Exec Op Ret σ) (I : σ → Prop) (p : Prog Op Ret ε α) (φ : α → σ → Prop) (w : σ) : Prop :=
  wpx E (fun _ w' => I w') p (fun o w' => I w' ∧ ∀ a, o = .ok a → φ a w') w

section keeps

variable {I : σ → Prop} {w : σ}

theorem keeps_ret {φ : α → σ → Prop} {a : α} (hw : I w) (h : φ a w) : keeps E I (ret a : Prog Op Ret ε α) φ w := by
  refine ⟨hw, fun b hb => ?_⟩
  cases hb
  exact h

theorem keeps_raise {φ : α → σ → Prop} {e : ε} (hw : I w) : keeps E I (raise e : Prog Op Ret ε α) φ w :=
  ⟨hw, fun a ha => by cases ha⟩

theorem keeps_ofExcept {φ : α → σ → Prop} {x : Except ε α} (hw : I w) (h : ∀ a, x = .ok a → φ a w) :
    keeps E I (ofExcept x : Prog Op Ret ε α) φ w := by
  cases x with
  | error e => exact keeps_raise hw
  | ok a => exact keeps_ret hw (h a rfl)

theorem keeps_call {op : Op} {k : Ret op → Prog Op Ret ε α} {φ : α → σ → Prop}
    (h : ∀ r w', E op w r w' → I w' ∧ keeps E I (k r) φ w') : keeps E I (call op k) φ w := h

theorem keeps_bind {p : Prog Op Ret ε α} {f : α → Prog Op Ret ε β} {φ : α → σ → Prop} {ψ : β → σ → Prop}
    (h : keeps E I p φ w) (hf : ∀ a w', I w' → φ a w' → keeps E I (f a) ψ w') : keeps E I (p.bind f) ψ w := by
  apply wpx_bind _ h
  · exact fun a w' h' => hf a w' h'.1 (h'.2 a rfl)
  · exact fun e w' h' => ⟨h'.1, fun b hb => by cases hb⟩

theorem keeps_mono {p : Prog Op Ret ε α} {φ ψ : α → σ → Prop} (h : keeps E I p φ w)
    (hφ : ∀ a w', I w' → φ a w' → ψ a w') : keeps E I p ψ w :=
  wpx_mono h (fun _ _ h => h) (fun _ w' h' => ⟨h'.1, fun a ha => hφ a w' h'.1 (h'.2 a ha)⟩)

/-- What follows a caught outcome. -/
theorem keeps_attempt {p : Prog Op Ret ε α} {f : Except ε α → Prog Op Ret ε β} {φ : α → σ → Prop} {ψ : β → σ → Prop}
    (h : keeps E I p φ w) (hf : ∀ o w', I w' → keeps E I (f o) ψ w') : keeps E I (p.attempt.bind f) ψ w :=
  wpx_attempt _ h (fun o w' h' => hf o w' h'.1)

/-- An invariant of the worlds a program passes through. -/
theorem keeps_of_reach {p : Prog Op Ret ε α} (h : ∀ w', Reach E p w w' → I w') : keeps E I p (fun _ _ => True) w := by
  induction p generalizing w with
  | ret a => exact ⟨h w (.here _ w), fun _ _ => trivial⟩
  | raise e => exact ⟨h w (.here _ w), fun _ _ => trivial⟩
  | call op k ih =>
    intro r w' hop
    exact ⟨h w' (.step r hop (.here _ w')), ih r (fun w'' hr => h w'' (.step r hop hr))⟩

/-- An invariant of the worlds a program passes through, and what holds where it returns. -/
theorem keeps_of_ends {p : Prog Op Ret ε α} {φ : α → σ → Prop} (h : ∀ w', Reach E p w w' → I w')
    (hφ : ∀ a w', Ends E p w (.ok a) w' → φ a w') : keeps E I p φ w := by
  induction p generalizing w with
  | ret a => exact keeps_ret (h w (.here _ w)) (hφ a w (.ret a w))
  | raise e => exact keeps_raise (h w (.here _ w))
  | call op k ih =>
    intro r w' hop
    refine ⟨h w' (.step r hop (.here _ w')), ih r (fun w'' hr => h w'' (.step r hop hr)) (fun a w'' he => ?_)⟩
    exact hφ a w'' (.call r hop he)

/-- A weaker invariant; what returned satisfies the stronger. -/
theorem keeps_weaken {J : σ → Prop} {p : Prog Op Ret ε α} {φ : α → σ → Prop} (h : keeps E I p φ w)
    (hJ : ∀ w, I w → J w) : keeps E J p (fun a w' => I w' ∧ φ a w') w :=
  wpx_mono h (fun _ w' h' => hJ w' h') (fun _ w' h' => ⟨hJ w' h'.1, fun a ha => ⟨h'.1, h'.2 a ha⟩⟩)

/-- **Wherever a run is cut, the invariant holds.** -/
theorem keeps_reach {p : Prog Op Ret ε α} {φ : α → σ → Prop} {w' : σ} (h : keeps E I p φ w) (hw : I w)
    (hr : Reach E p w w') : I w' := by
  cases wpx_reach h hr with
  | refl => exact hw
  | tail _ hstep => exact hstep

end keeps

/-! ## Environments that are functions -/

/-- The run of a program in an environment that answers by a function of the world. -/
def run (step : (op : Op) → σ → Ret op × σ) : Prog Op Ret ε α → σ → Except ε α × σ
  | ret a, w => (.ok a, w)
  | raise e, w => (.error e, w)
  | call op k, w => run step (k (step op w).1) (step op w).2

variable {step : (op : Op) → σ → Ret op × σ}

@[simp] theorem run_ret (a : α) (w : σ) : run step (ret a : Prog Op Ret ε α) w = (.ok a, w) := rfl

@[simp] theorem run_raise (e : ε) (w : σ) : run step (raise e : Prog Op Ret ε α) w = (.error e, w) := rfl

theorem run_call (op : Op) (k : Ret op → Prog Op Ret ε α) (w : σ) :
    run step (call op k) w = run step (k (step op w).1) (step op w).2 := rfl

theorem run_bind (p : Prog Op Ret ε α) (f : α → Prog Op Ret ε β) (w : σ) :
    run step (p.bind f) w = match run step p w with
      | (.ok a, w') => run step (f a) w'
      | (.error e, w') => (.error e, w') := by
  induction p generalizing w with
  | ret a => rfl
  | raise e => rfl
  | call op k ih => simp only [call_bind, run_call, ih]

/-- **A deterministic run is one of the runs** of every environment that allows its answers. -/
theorem run_ends (hE : ∀ op w, E op w (step op w).1 (step op w).2) (p : Prog Op Ret ε α) (w : σ) :
    Ends E p w (run step p w).1 (run step p w).2 := by
  induction p generalizing w with
  | ret a => exact .ret a w
  | raise e => exact .raise e w
  | call op k ih => exact .call _ (hE op w) (ih _ _)

/-- The environment that answers by a function of the world, as a relation. -/
def exec (step : (op : Op) → σ → Ret op × σ) : Exec Op Ret σ := fun op w r w' => step op w = (r, w')

theorem reach_ret {E : Exec Op Ret σ} {a : α} {w w' : σ} : Reach E (ret a : Prog Op Ret ε α) w w' ↔ w' = w := by
  constructor
  · intro h
    cases h
    rfl
  · rintro rfl
    exact .here _ _

theorem reach_raise {E : Exec Op Ret σ} {e : ε} {w w' : σ} : Reach E (raise e : Prog Op Ret ε α) w w' ↔ w' = w := by
  constructor
  · intro h
    cases h
    rfl
  · rintro rfl
    exact .here _ _

/-- A run is cut before its first call, or in what follows the answer. -/
theorem reach_call {op : Op} {k : Ret op → Prog Op Ret ε α} {w w' : σ} :
    Reach (exec step) (call op k) w w' ↔ w' = w ∨ Reach (exec step) (k (step op w).1) (step op w).2 w' := by
  constructor
  · intro h
    cases h with
    | here => exact .inl rfl
    | step r hop hk =>
      rw [exec] at hop
      rw [hop]
      exact .inr hk
  · rintro (rfl | h)
    · exact .here _ _
    · exact .step _ rfl h

/-- A sequence is cut in its first part, or in the second after the first returned. -/
theorem reach_bind {p : Prog Op Ret ε α} {f : α → Prog Op Ret ε β} {w w' : σ} :
    Reach (exec step) (p.bind f) w w' ↔
      Reach (exec step) p w w' ∨ ∃ a w₁, run step p w = (.ok a, w₁) ∧ Reach (exec step) (f a) w₁ w' := by
  induction p generalizing w with
  | ret a =>
    rw [ret_bind, run_ret, reach_ret]
    constructor
    · exact fun h => .inr ⟨a, w, rfl, h⟩
    · rintro (rfl | ⟨b, w₁, heq, h⟩)
      · exact .here _ _
      · cases heq
        exact h
  | raise e =>
    rw [raise_bind, run_raise, reach_raise, reach_raise]
    constructor
    · exact .inl
    · rintro (h | ⟨b, w₁, heq, -⟩)
      · exact h
      · cases heq
  | call op k ih => rw [call_bind, reach_call, reach_call, ih, run_call, or_assoc]

/-- Whether every answer of a run is one of `P`. -/
def runKeeps (step : (op : Op) → σ → Ret op × σ) (P : (op : Op) → σ → Ret op → Prop) [∀ op w r, Decidable (P op w r)] :
    Prog Op Ret ε α → σ → Bool
  | ret _, _ | raise _, _ => true
  | call op k, w => decide (P op w (step op w).1) && runKeeps step P (k (step op w).1) (step op w).2

theorem run_ends_kept {P : (op : Op) → σ → Ret op → Prop} [∀ op w r, Decidable (P op w r)]
    (hE : ∀ op w, E op w (step op w).1 (step op w).2) {p : Prog Op Ret ε α} {w : σ}
    (h : runKeeps step P p w = true) :
    Ends (fun op w r w' => E op w r w' ∧ P op w r) p w (run step p w).1 (run step p w).2 := by
  induction p generalizing w with
  | ret a => exact .ret a w
  | raise e => exact .raise e w
  | call op k ih =>
    simp only [runKeeps, Bool.and_eq_true, decide_eq_true_eq] at h
    exact .call _ ⟨hE op w, h.1⟩ (ih _ h.2)

end Prog
