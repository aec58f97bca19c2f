import KClosingAlpha.Lib.Threads
/-!
# Session — one program after another, amid what others do

At most one program is in progress.  Between any two of its calls the others take steps of a rely, it may be stopped
anywhere, and then the next one begins.  An invariant that the others keep and under which every program guarantees its
calls always holds (`sessions_always`).  For one run the interference may be counted to its calls (`amid`).
-/
namespace Prog

variable {Op : Type} {Ret : Op → Type} {ε α σ : Type} {E : Exec Op Ret σ} {R G : σ → σ → Prop}

/-- The calls of a program, each with what the others do before it. -/
def amid (R : σ → σ → Prop) (E : Exec Op Ret σ) : Exec Op Ret σ := fun op w r w' => ∃ w₁, R w w₁ ∧ E op w₁ r w'

/-- **What the others and every call keep holds wherever a run is cut.** -/
theorem rg_reach {I : σ → Prop} {p : Prog Op Ret ε α} {Q : Except ε α → σ → Prop} {w w' : σ}
    (hR : ∀ w w', I w → R w w' → I w') (hG : ∀ w w', G w w' → I w → I w') (h : rg E R G p Q w) (hw : I w)
    (hr : Reach (amid R E) p w w') : I w' := by
  induction hr with
  | here p w => exact hw
  | step r hop _ ih =>
    obtain ⟨w₁, hw₁, hop⟩ := hop
    obtain ⟨hg, hk⟩ := h w₁ hw₁ r _ hop
    exact ih hk (hG _ _ hg (hR _ _ hw hw₁))

/-- The world, and what is left of the program in progress. -/
structure Session (Op : Type) (Ret : Op → Type) (ε α σ : Type) where
  world : σ
  left : Option (Prog Op Ret ε α)

namespace Session

variable {starts : Prog Op Ret ε α → Prop} {start : σ → Prop}

inductive Step (E : Exec Op Ret σ) (R : σ → σ → Prop) (starts : Prog Op Ret ε α → Prop) :
    Session Op Ret ε α σ → Session Op Ret ε α σ → Prop where
  | begin (w : σ) (p : Prog Op Ret ε α) (h : starts p) : Step E R starts ⟨w, none⟩ ⟨w, some p⟩
  | call {p p' : Prog Op Ret ε α} {w w' : σ} (h : Next E p w p' w') : Step E R starts ⟨w, some p⟩ ⟨w', some p'⟩
  | stop (w : σ) (left : Option (Prog Op Ret ε α)) : Step E R starts ⟨w, left⟩ ⟨w, none⟩
  | others {w w' : σ} (left : Option (Prog Op Ret ε α)) (h : R w w') : Step E R starts ⟨w, left⟩ ⟨w', left⟩

/-- Programs that follow one another. -/
def sessions (E : Exec Op Ret σ) (R : σ → σ → Prop) (starts : Prog Op Ret ε α → Prop) (start : σ → Prop) :
    System (Session Op Ret ε α σ) where
  start s := start s.world ∧ s.left = none
  step := Step E R starts

/-- **What a run reaches amid the others is reached by the sessions**, when it began between two programs. -/
theorem reachable_of_reach {p : Prog Op Ret ε α} (hp : starts p) {w w' : σ}
    (hw : (sessions E R starts start).Reachable ⟨w, none⟩) (hr : Reach (amid R E) p w w') :
    (sessions E R starts start).Reachable ⟨w', none⟩ := by
  have hgo : ∀ {p : Prog Op Ret ε α} {w w' : σ}, Reach (amid R E) p w w' →
      ∃ left, Relation.ReflTransGen (Step E R starts) ⟨w, some p⟩ ⟨w', left⟩ := by
    intro p w w' hr
    induction hr with
    | here p w => exact ⟨some p, .refl⟩
    | step r hop _ ih =>
      obtain ⟨w₁, hw₁, hop⟩ := hop
      obtain ⟨left, hleft⟩ := ih
      exact ⟨left, .head (.others _ hw₁) (.head (.call (.call r hop)) hleft)⟩
  obtain ⟨left, hleft⟩ := hgo hr
  exact ((hw.step (.begin w p hp)).run hleft).step (.stop w' left)

/-- The invariant, and what the program in progress guarantees. -/
structure Guards (E : Exec Op Ret σ) (R G : σ → σ → Prop) (I : σ → Prop) (s : Session Op Ret ε α σ) : Prop where
  holds : I s.world
  left : ∀ p, s.left = some p → rg E R G p (fun _ _ => True) s.world

variable {I : σ → Prop}

/-- **The invariant always holds, and the program in progress keeps its guarantee.** -/
theorem sessions_always (hrefl : ∀ w, R w w) (htrans : ∀ a b c, R a b → R b c → R a c) (hI : ∀ w, start w → I w)
    (hR : ∀ w w', I w → R w w' → I w') (hG : ∀ w w', G w w' → I w → I w')
    (hp : ∀ p w, starts p → I w → rg E R G p (fun _ _ => True) w) :
    (sessions E R starts start).Always (Guards E R G I) := by
  refine System.Inductive.always ⟨?_, ?_⟩
  · rintro ⟨w, left⟩ ⟨hw, rfl⟩
    exact ⟨hI w hw, fun p hp => by cases hp⟩
  · rintro s s' hs hstep
    cases hstep with
    | begin w p h =>
      refine ⟨hs.holds, fun q hq => ?_⟩
      obtain rfl := Option.some.inj hq
      exact hp p w h hs.holds
    | call h =>
      obtain ⟨hg, hk⟩ := rg_next hrefl (hs.left _ rfl) h
      refine ⟨hG _ _ hg hs.holds, fun q hq => ?_⟩
      obtain rfl := Option.some.inj hq
      exact hk
    | stop w left => exact ⟨hs.holds, fun q hq => by cases hq⟩
    | others left h =>
      exact ⟨hR _ _ hs.holds h, fun q hq => rg_stable htrans (fun _ _ _ _ _ => trivial) (hs.left q hq) h⟩

/-- **Every call is one that is guaranteed.** -/
theorem Guards.call {p p' : Prog Op Ret ε α} {w w' : σ} (hrefl : ∀ w, R w w) (h : Guards E R G I ⟨w, some p⟩)
    (hn : Next E p w p' w') : G w w' := (rg_next hrefl (h.left p rfl) hn).1

end Session

end Prog
