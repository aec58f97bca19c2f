import Mathlib.Data.List.Infix
/-!
# Masked — texts in which pieces are replaced by separators

A word is a list of letters; what is not a letter separates.  Where a text arises from another by replacing pieces with
separators (`Masks`), every word of it was one of the other (`Masks.infix_of_word`): two letters that become neighbours
were neighbours.  `replace` replaces every occurrence of a word, and leaves none (`not_infix_replace`).
-/
namespace Masked

variable {α : Type*} {p : α → Prop} {s t o : List α}

/-- `o` is `t` with pieces replaced by separators. -/
inductive Masks (p : α → Prop) : List α → List α → Prop where
  | nil : Masks p [] []
  | keep (c : α) {t o : List α} (h : Masks p t o) : Masks p (c :: t) (c :: o)
  | mask (w : List α) {m t o : List α} (hne : m ≠ []) (hm : ∀ c ∈ m, ¬ p c) (h : Masks p t o) : Masks p (w ++ t) (m ++ o)

namespace Masks

@[simp] theorem refl : ∀ t : List α, Masks p t t
  | [] => nil
  | c :: t => keep c (refl t)

theorem append (h : Masks p t o) {t' o' : List α} (h' : Masks p t' o') : Masks p (t ++ t') (o ++ o') := by
  induction h with
  | nil => exact h'
  | keep c _ ih => exact keep c ih
  | mask w hne hm _ ih =>
    rw [List.append_assoc, List.append_assoc]
    exact mask w hne hm ih

theorem all (w : List α) {m : List α} (hne : m ≠ []) (hm : ∀ c ∈ m, ¬ p c) : Masks p w m := by
  simpa using mask w hne hm nil

end Masks

theorem eq_nil_of_prefix_separators {m : List α} (hs : ∀ c ∈ s, p c) (hne : m ≠ []) (hm : ∀ c ∈ m, ¬ p c)
    (h : s <+: m ++ o) : s = [] := by
  cases s with
  | nil => rfl
  | cons c s =>
    cases m with
    | nil => exact absurd rfl hne
    | cons d m =>
      obtain ⟨rfl, -⟩ := List.cons_prefix_cons.1 h
      exact absurd (hs c (by simp)) (hm c (by simp))

/-- A word after separators stands wholly after them. -/
theorem infix_of_infix_separators (hs : ∀ c ∈ s, p c) : ∀ {m : List α}, (∀ c ∈ m, ¬ p c) → s <:+: m ++ o → s <:+: o
  | [], _, h => h
  | d :: m, hm, h => by
    rcases List.infix_cons_iff.1 h with h | h
    · rw [eq_nil_of_prefix_separators (m := d :: m) hs (by simp) hm h]
      exact List.nil_infix
    · exact infix_of_infix_separators hs (fun c hc => hm c (by simp [hc])) h

theorem prefix_before_separator {d : α} (hd : ¬ p d) : ∀ {s a b : List α}, (∀ c ∈ s, p c) → s <+: a ++ d :: b → s <+: a
  | [], _, _, _, _ => List.nil_prefix
  | y :: s, [], b, hs, h => by
    obtain ⟨rfl, -⟩ := List.cons_prefix_cons.1 h
    exact absurd (hs y List.mem_cons_self) hd
  | y :: s, x :: a, b, hs, h => by
    obtain ⟨rfl, hrest⟩ := List.cons_prefix_cons.1 h
    exact List.cons_prefix_cons.2 ⟨rfl, prefix_before_separator hd (fun c hc => hs c (List.mem_cons_of_mem _ hc)) hrest⟩

/-- A word stands before a separator or after it. -/
theorem infix_around_separator {d : α} (hs : ∀ c ∈ s, p c) (hd : ¬ p d) : ∀ {a b : List α}, s <:+: a ++ d :: b →
    s <:+: a ∨ s <:+: b
  | [], b, h => by
    have hm : ∀ c ∈ [d], ¬ p c := by simpa using hd
    exact .inr (infix_of_infix_separators hs hm h)
  | x :: a, b, h => by
    rcases List.infix_cons_iff.1 h with h | h
    · exact .inl (prefix_before_separator (a := x :: a) hd hs h).isInfix
    · exact (infix_around_separator hs hd h).imp_left List.infix_cons

namespace Masks

theorem prefix_of_word (h : Masks p t o) : ∀ {s : List α}, (∀ c ∈ s, p c) → s <+: o → s <+: t := by
  induction h with
  | nil => exact fun _ h => h
  | keep c _ ih =>
    intro s hs hpre
    cases s with
    | nil => exact List.nil_prefix
    | cons d s =>
      obtain ⟨rfl, htail⟩ := List.cons_prefix_cons.1 hpre
      exact List.cons_prefix_cons.2 ⟨rfl, ih (fun c hc => hs c (by simp [hc])) htail⟩
  | mask w hne hm _ _ =>
    intro s hs hpre
    rw [eq_nil_of_prefix_separators hs hne hm hpre]
    exact List.nil_prefix

/-- **Masking makes no word.** -/
theorem infix_of_word (h : Masks p t o) (hs : ∀ c ∈ s, p c) (hi : s <:+: o) : s <:+: t := by
  induction h with
  | nil => exact hi
  | keep c h ih =>
    rcases List.infix_cons_iff.1 hi with hi | hi
    · exact ((h.keep c).prefix_of_word hs hi).isInfix
    · exact List.infix_cons (ih hi)
  | mask w hne hm _ ih => exact List.infix_append_of_infix_right (ih (infix_of_infix_separators hs hm hi))

end Masks

section replace

variable [DecidableEq α]

/-- `replace` from a place on, the next `k` characters being of an occurrence already replaced. -/
def replaceFrom (s m : List α) : Nat → List α → List α
  | _, [] => []
  | k + 1, _ :: t => replaceFrom s m k t
  | 0, c :: t => if s <+: c :: t then m ++ replaceFrom s m (s.length - 1) t else c :: replaceFrom s m 0 t

/-- Every occurrence of `s`, from left to right and without overlaps, becomes `m`. -/
def replace (s m t : List α) : List α := replaceFrom s m 0 t

variable {m : List α}

theorem masks_replaceFrom (hs : s ≠ []) (hne : m ≠ []) (hm : ∀ c ∈ m, ¬ p c) :
    ∀ (t : List α) (k : Nat), Masks p (t.drop k) (replaceFrom s m k t)
  | [], k => by simp [replaceFrom]
  | _ :: t, k + 1 => masks_replaceFrom hs hne hm t k
  | c :: t, 0 => by
    rw [replaceFrom]
    split_ifs with h
    · obtain ⟨r, hr⟩ := h
      have hdrop : t.drop (s.length - 1) = r := by
        cases s with
        | nil => exact absurd rfl hs
        | cons d s =>
          obtain ⟨-, rfl⟩ := List.cons.inj hr
          simp
      rw [List.drop_zero, ← hr, ← hdrop]
      exact .mask s hne hm (masks_replaceFrom hs hne hm t _)
    · exact .keep c (masks_replaceFrom hs hne hm t 0)

theorem masks_replace (hs : s ≠ []) (hne : m ≠ []) (hm : ∀ c ∈ m, ¬ p c) (t : List α) : Masks p t (replace s m t) :=
  masks_replaceFrom hs hne hm t 0

theorem not_infix_replaceFrom (hs : s ≠ []) (hp : ∀ c ∈ s, p c) (hne : m ≠ []) (hm : ∀ c ∈ m, ¬ p c) :
    ∀ (t : List α) (k : Nat), ¬ s <:+: replaceFrom s m k t
  | [], k => by simpa [replaceFrom] using hs
  | _ :: t, k + 1 => not_infix_replaceFrom hs hp hne hm t k
  | c :: t, 0 => by
    intro hi
    by_cases h : s <+: c :: t
    · rw [replaceFrom, if_pos h] at hi
      exact not_infix_replaceFrom hs hp hne hm t _ (infix_of_infix_separators hp hm hi)
    · have hmask := masks_replaceFrom hs hne hm (c :: t) 0
      rw [replaceFrom, if_neg h] at hi hmask
      rcases List.infix_cons_iff.1 hi with hi | hi
      · exact h (hmask.prefix_of_word hp hi)
      · exact not_infix_replaceFrom hs hp hne hm t 0 hi

/-- **A word that is replaced by separators is gone.** -/
theorem not_infix_replace (hs : s ≠ []) (hp : ∀ c ∈ s, p c) (hne : m ≠ []) (hm : ∀ c ∈ m, ¬ p c) (t : List α) :
    ¬ s <:+: replace s m t := not_infix_replaceFrom hs hp hne hm t 0

end replace

end Masked
