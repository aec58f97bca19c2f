import Mathlib.Data.List.Basic
/-!
# Regex — backtracking patterns

A pattern gives, at a place of a text, every way it matches there in the order in which a backtracking matcher tries
them: the first one is the match.  What a match reads is said by a condition on its value and the text it takes
(`Reads`), with one rule a combinator; `search` and `sub` are read through it.
-/
namespace Regex

abbrev Text := List Char

/-- A place of a text: what stands before it, nearest first, and what follows. -/
structure Place where
  before : Text
  after : Text

namespace Place

def start (t : Text) : Place := ⟨[], t⟩

def advance (q : Place) (n : Nat) : Place := ⟨(q.after.take n).reverse ++ q.before, q.after.drop n⟩

/-- From `q`, reading `w` leads to `q'`. -/
structure Moves (q : Place) (w : Text) (q' : Place) : Prop where
  after : q.after = w ++ q'.after
  before : q'.before = w.reverse ++ q.before

theorem Moves.nil (q : Place) : q.Moves [] q := ⟨rfl, rfl⟩

theorem Moves.trans {q q' q'' : Place} {u v : Text} (h : q.Moves u q') (h' : q'.Moves v q'') : q.Moves (u ++ v) q'' :=
  ⟨by rw [h.after, h'.after, List.append_assoc], by rw [h'.before, h.before, List.reverse_append, List.append_assoc]⟩

theorem Moves.length {q q' : Place} {w : Text} (h : q.Moves w q') : q.after.length = w.length + q'.after.length := by
  rw [h.after, List.length_append]

theorem moves_advance (q : Place) (n : Nat) : q.Moves (q.after.take n) (q.advance n) :=
  ⟨(List.take_append_drop n q.after).symm, rfl⟩

theorem advance_of_moves {q q' : Place} {u v : Text} (h : q.Moves (u ++ v) q') :
    q.advance u.length = ⟨u.reverse ++ q.before, v ++ q'.after⟩ := by
  have hafter : q.after = u ++ (v ++ q'.after) := by rw [h.after, List.append_assoc]
  simp [advance, hafter]

end Place

/-- A pattern: every match at a place, the preferred one first. -/
structure Pat (α : Type) where
  run : Place → List (α × Place)

namespace Pat

variable {α β : Type}

instance : Monad Pat where
  pure a := ⟨fun q => [(a, q)]⟩
  bind p f := ⟨fun q => (p.run q).flatMap (fun r => (f r.1).run r.2)⟩

/-- One character of a class. -/
def chr (c : Char → Bool) : Pat Char :=
  ⟨fun q => match q.after with
    | d :: t => if c d then [(d, ⟨d :: q.before, t⟩)] else []
    | [] => []⟩

/-- A literal. -/
def word : Text → Pat Text
  | [] => pure []
  | c :: w => do
    let d ← chr (fun d => decide (d = c))
    let w ← word w
    pure (d :: w)

/-- `p|q`. -/
def either (p q : Pat α) : Pat α := ⟨fun r => p.run r ++ q.run r⟩

/-- `p*`, greedy, with at most `n` rounds. -/
def upTo (p : Pat Text) : Nat → Pat Text
  | 0 => pure []
  | n + 1 => either
      (do
        let u ← p
        let v ← upTo p n
        pure (u ++ v))
      (pure [])

/-- `p*`, greedy, for a pattern that matches no empty text. -/
def star (p : Pat Text) : Pat Text := ⟨fun q => (upTo p q.after.length).run q⟩

/-- A character of a class as a text. -/
def one (c : Char → Bool) : Pat Text := do
  let d ← chr c
  pure [d]

/-- `p+`. -/
def plus (c : Char → Bool) : Pat Text := do
  let d ← chr c
  let w ← star (one c)
  pure (d :: w)

/-- `\b`. -/
def boundary (isWord : Char → Bool) : Pat Unit :=
  ⟨fun q => if q.before.head?.any isWord = q.after.head?.any isWord then [] else [((), q)]⟩

/-! ## What is read -/

/-- Every match takes a text that satisfies the condition with its value. -/
def Reads (p : Pat α) (Q : α → Text → Prop) : Prop := ∀ q, ∀ r ∈ p.run q, ∃ w, q.Moves w r.2 ∧ Q r.1 w

section rules

variable {p p' : Pat α} {Q Q' : α → Text → Prop}

theorem Reads.imp (h : p.Reads Q) (hQ : ∀ a w, Q a w → Q' a w) : p.Reads Q' := fun q r hr => by
  obtain ⟨w, hw, hQw⟩ := h q r hr
  exact ⟨w, hw, hQ _ _ hQw⟩

theorem reads_pure {a : α} (h : Q a []) : (pure a : Pat α).Reads Q := fun q r hr => by
  obtain rfl : r = (a, q) := List.mem_singleton.1 hr
  exact ⟨[], .nil q, h⟩

theorem reads_bind {f : α → Pat β} {Q : β → Text → Prop} (h : p.Reads (fun a u => (f a).Reads (fun b v => Q b (u ++ v)))) :
    (p >>= f).Reads Q := fun q r hr => by
  obtain ⟨⟨a, q₁⟩, h₁, h₂⟩ := List.mem_flatMap.1 hr
  obtain ⟨u, hu, hf⟩ := h q _ h₁
  obtain ⟨v, hv, hQ⟩ := hf q₁ r h₂
  exact ⟨u ++ v, hu.trans hv, hQ⟩

theorem reads_chr (c : Char → Bool) : (chr c).Reads (fun d w => w = [d] ∧ c d = true) := by
  rintro ⟨before, after⟩ r hr
  cases after with
  | nil => cases hr
  | cons d t =>
    simp only [chr] at hr
    split_ifs at hr with hc
    · obtain rfl := List.mem_singleton.1 hr
      exact ⟨[d], ⟨rfl, rfl⟩, rfl, hc⟩
    · cases hr

theorem reads_word : ∀ w : Text, (word w).Reads (fun v u => v = w ∧ u = w)
  | [] => reads_pure ⟨rfl, rfl⟩
  | c :: w => by
    refine reads_bind ((reads_chr _).imp fun d u hd => reads_bind ((reads_word w).imp fun v v' hv => reads_pure ?_))
    obtain ⟨rfl, hd⟩ := hd
    obtain ⟨rfl, rfl⟩ := hv
    simpa using hd

theorem reads_either (h : p.Reads Q) (h' : p'.Reads Q) : (either p p').Reads Q := fun q r hr =>
  (List.mem_append.1 hr).elim (h q r) (h' q r)

/-- What holds of nothing, and is kept by one more round, holds of every repetition. -/
theorem reads_upTo {p : Pat Text} {Q : Text → Text → Prop} (hnil : Q [] [])
    (hp : p.Reads (fun a u => ∀ b v, Q b v → Q (a ++ b) (u ++ v))) : ∀ n, (upTo p n).Reads Q
  | 0 => reads_pure hnil
  | n + 1 => reads_either
      (reads_bind (hp.imp fun a u ha => reads_bind ((reads_upTo hnil hp n).imp fun b v hb => reads_pure (by
        simpa using ha b v hb))))
      (reads_pure hnil)

theorem reads_star {p : Pat Text} {Q : Text → Text → Prop} (hnil : Q [] [])
    (hp : p.Reads (fun a u => ∀ b v, Q b v → Q (a ++ b) (u ++ v))) : (star p).Reads Q :=
  fun q => reads_upTo hnil hp q.after.length q

theorem reads_one (c : Char → Bool) : (one c).Reads (fun a w => w = a ∧ ∀ d ∈ a, c d = true) := by
  refine reads_bind ((reads_chr c).imp fun d u hd => reads_pure ?_)
  simpa using hd

theorem reads_plus (c : Char → Bool) : (plus c).Reads (fun a w => w = a ∧ a ≠ [] ∧ ∀ d ∈ a, c d = true) := by
  have hstar : (star (one c)).Reads (fun a w => w = a ∧ ∀ d ∈ a, c d = true) := by
    refine reads_star (by simp) ((reads_one c).imp fun a u ha b v hb => ?_)
    obtain ⟨rfl, ha⟩ := ha
    obtain ⟨rfl, hb⟩ := hb
    refine ⟨rfl, fun d hd => ?_⟩
    rcases List.mem_append.1 hd with hd | hd
    · exact ha d hd
    · exact hb d hd
  refine reads_bind ((reads_chr c).imp fun d u hd => reads_bind (hstar.imp fun a w ha => reads_pure ?_))
  obtain ⟨rfl, hd⟩ := hd
  obtain ⟨rfl, ha⟩ := ha
  simpa [hd] using ha

theorem reads_boundary (isWord : Char → Bool) : (boundary isWord).Reads (fun _ w => w = []) := fun q r hr => by
  simp only [boundary] at hr
  split_ifs at hr
  · cases hr
  · obtain rfl := List.mem_singleton.1 hr
    exact ⟨[], .nil q, rfl⟩

end rules

/-! ## Searching -/

def searchFrom (p : Pat α) (before : Text) : Text → Option (Text × α × Place)
  | [] => (p.run ⟨before, []⟩).head?.map (fun r => ([], r.1, r.2))
  | c :: t => match p.run ⟨before, c :: t⟩ with
    | r :: _ => some ([], r.1, r.2)
    | [] => (searchFrom p (c :: before) t).map (fun r => (c :: r.1, r.2))

/-- `pattern.search(text, pos)`: what is skipped, and the match with the place it ends at. -/
def search (p : Pat α) (q : Place) : Option (Text × α × Place) := searchFrom p q.before q.after

theorem searchFrom_spec {p : Pat α} {s : Text} {a : α} {q' : Place} : ∀ {t before : Text},
    searchFrom p before t = some (s, a, q') →
      ∃ q₁, Place.Moves ⟨before, t⟩ s q₁ ∧ (a, q') ∈ p.run q₁
  | [], before, h => by
    simp only [searchFrom, Option.map_eq_some_iff] at h
    obtain ⟨r, hr, heq⟩ := h
    obtain ⟨rfl, hra⟩ := Prod.mk.inj heq
    cases hra
    exact ⟨_, .nil _, List.mem_of_mem_head? hr⟩
  | c :: t, before, h => by
    rw [searchFrom] at h
    split at h
    · rename_i r l hrun
      obtain ⟨rfl, hra⟩ := Prod.mk.inj (Option.some.inj h)
      exact ⟨_, .nil _, by rw [hrun, ← hra]; simp⟩
    · obtain ⟨r, hr, heq⟩ := Option.map_eq_some_iff.1 h
      obtain ⟨rfl, hra⟩ := Prod.mk.inj heq
      obtain ⟨s', a', q''⟩ := r
      cases hra
      obtain ⟨q₁, hq₁, hmem⟩ := searchFrom_spec hr
      exact ⟨q₁, ⟨by rw [List.cons_append, ← hq₁.after], by rw [hq₁.before]; simp⟩, hmem⟩

/-- **A match is found after what is skipped**, and takes a text as the pattern reads. -/
theorem search_spec {p : Pat α} {Q : α → Text → Prop} (hp : p.Reads Q) {q q' : Place} {s : Text} {a : α}
    (h : p.search q = some (s, a, q')) : ∃ w, q.Moves (s ++ w) q' ∧ Q a w := by
  obtain ⟨q₁, hq₁, hmem⟩ := searchFrom_spec h
  obtain ⟨w, hw, hQ⟩ := hp q₁ _ hmem
  exact ⟨w, hq₁.trans hw, hQ⟩

/-- At most `n` matches replaced, from the left. -/
def subUpTo (p : Pat α) (f : α → Text) : Nat → Place → Text
  | 0, q => q.after
  | n + 1, q => match p.search q with
    | none => q.after
    | some (s, a, q') => s ++ f a ++ subUpTo p f n q'

/-- `pattern.sub(f, text)`, for a pattern that matches no empty text: a text has no more matches than characters. -/
def sub (p : Pat α) (f : α → Text) (t : Text) : Text := subUpTo p f t.length (.start t)

/-- **What relates each match to its replacement, and is kept by appending, relates the text to the result.** -/
theorem sub_spec {p : Pat α} {f : α → Text} {R : Text → Text → Prop} (hrefl : ∀ t, R t t)
    (happend : ∀ {t o t' o'}, R t o → R t' o' → R (t ++ t') (o ++ o')) (hp : p.Reads (fun a w => R w (f a))) (t : Text) :
    R t (p.sub f t) := by
  have hgo : ∀ n q, R q.after (subUpTo p f n q) := by
    intro n
    induction n with
    | zero => exact fun q => hrefl _
    | succ n ih =>
      intro q
      rw [subUpTo]
      cases h : p.search q with
      | none => exact hrefl _
      | some r =>
        obtain ⟨s, a, q'⟩ := r
        obtain ⟨w, hw, hR⟩ := search_spec hp h
        rw [hw.after]
        exact happend (happend (hrefl s) hR) (ih q')
  exact hgo t.length (.start t)

end Pat

end Regex
