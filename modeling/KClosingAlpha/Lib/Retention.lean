import Mathlib.Data.Finset.Card
import Mathlib.Data.Finset.Image
import Mathlib.Data.Finset.Max
import Mathlib.Order.Defs.LinearOrder
/-!
# Retention — keeping the newest of a set, and the first of each of its latest groups

What is kept is said by counting: an element stays when fewer than `n` are newer, or when it is the first of its group and
fewer than `k` groups are later (`Retained`).  Of a sorted list, the elements that fewer than `k` others precede are the
first `k` (`mem_take_iff_card_lt`), and so it is from the end (`mem_drop_iff_card_lt`).  Elements that are not retained may
go one by one: no other becomes retained by it (`Retained.of_kept`).
-/
namespace Retention

section rank

variable {α : Type*} [DecidableEq α] {r : α → α → Prop} [DecidableRel r]

/-- What is related to an element of an ordered list stands before it. -/
theorem card_filter_of_append (hasymm : ∀ a b, r a b → ¬ r b a) {s t : List α} {a : α}
    (h : (s ++ a :: t).Pairwise r) : ((s ++ a :: t).toFinset.filter (fun b => r b a)).card = s.length := by
  obtain ⟨hs, ht, hst⟩ := List.pairwise_append.1 h
  have hnodup : s.Nodup := hs.imp fun {x y} hxy heq => by
    subst heq
    exact hasymm _ _ hxy hxy
  have heq : (s ++ a :: t).toFinset.filter (fun b => r b a) = s.toFinset := by
    ext b
    simp only [Finset.mem_filter, List.mem_toFinset, List.mem_append, List.mem_cons]
    constructor
    · rintro ⟨hb | rfl | hb, hr⟩
      · exact hb
      · exact absurd hr (hasymm _ _ hr)
      · exact absurd hr (hasymm _ _ ((List.pairwise_cons.1 ht).1 b hb))
    · exact fun hb => ⟨.inl hb, hst b hb a List.mem_cons_self⟩
  rw [heq, List.toFinset_card_of_nodup hnodup]

/-- **Of an ordered list, the first `k` are those that fewer than `k` others precede.** -/
theorem mem_take_iff_card_lt (hasymm : ∀ a b, r a b → ¬ r b a) {l : List α} (hl : l.Pairwise r)
    {a : α} (ha : a ∈ l) (k : ℕ) : a ∈ l.take k ↔ (l.toFinset.filter (fun b => r b a)).card < k := by
  obtain ⟨s, t, rfl⟩ := List.append_of_mem ha
  rw [card_filter_of_append hasymm hl]
  have hnot : a ∉ s := fun hs => by
    have hself := (List.pairwise_append.1 hl).2.2 a hs a List.mem_cons_self
    exact hasymm _ _ hself hself
  rw [List.take_append]
  constructor
  · intro h
    by_contra hk
    rw [Nat.sub_eq_zero_of_le (by omega), List.take_zero, List.append_nil] at h
    exact hnot (List.mem_of_mem_take h)
  · intro h
    obtain ⟨j, hj⟩ : ∃ j, k - s.length = j + 1 := ⟨k - s.length - 1, by omega⟩
    rw [hj, List.take_succ_cons]
    exact List.mem_append_right _ List.mem_cons_self

/-- The same from the end of the list. -/
theorem mem_drop_iff_card_lt (hasymm : ∀ a b, r a b → ¬ r b a) {l : List α} (hl : l.Pairwise r)
    {a : α} (ha : a ∈ l) (k : ℕ) :
    a ∈ l.drop (l.length - k) ↔ (l.toFinset.filter (fun b => r a b)).card < k := by
  have hrev : l.reverse.Pairwise (fun x y => r y x) := List.pairwise_reverse.2 hl
  have h := mem_take_iff_card_lt (fun x y hxy hyx => hasymm x y hyx hxy) hrev
    (List.mem_reverse.2 ha) k
  rw [List.take_reverse, List.mem_reverse, List.toFinset_reverse] at h
  exact h

end rank

variable {α κ : Type*} [LinearOrder α] [LinearOrder κ] (group : α → κ) (n k : ℕ)

/-- Among the newest `n`, or the first of one of the latest `k` groups. -/
def Retained (s : Finset α) (a : α) : Prop :=
  (s.filter (fun b => a < b)).card < n ∨
    (∀ b ∈ s, group b = group a → a ≤ b) ∧ ((s.image group).filter (fun g => group a < g)).card < k

variable {group n k} {s t : Finset α} {a : α}

/-- Where only fewer than `m` of the elements above `a` are left, one that is gone has fewer than `m` above it. -/
theorem exists_gone {β : Type*} [LinearOrder β] {s t : Finset β} {a : β} {m : ℕ}
    (hleft : (t.filter (fun b => a < b)).card < m) (hm : m ≤ (s.filter (fun b => a < b)).card) :
    ∃ b ∈ s, b ∉ t ∧ (s.filter (fun c => b < c)).card < m := by
  let gone := (s.filter (fun b => a < b)).filter (fun b => b ∉ t)
  have hne : gone.Nonempty := by
    by_contra hnone
    have hsub : s.filter (fun b => a < b) ⊆ t.filter (fun b => a < b) := by
      intro b hb
      by_contra hbt
      refine hnone ⟨b, Finset.mem_filter.2 ⟨hb, fun h => hbt ?_⟩⟩
      exact Finset.mem_filter.2 ⟨h, (Finset.mem_filter.1 hb).2⟩
    exact absurd (Finset.card_le_card hsub) (by omega)
  -- the greatest of them
  obtain ⟨b, hb, hmax⟩ := gone.exists_max_image id hne
  obtain ⟨hbs, hbt⟩ := Finset.mem_filter.1 hb
  obtain ⟨hbs, hab⟩ := Finset.mem_filter.1 hbs
  refine ⟨b, hbs, hbt, lt_of_le_of_lt (Finset.card_le_card fun c hc => ?_) hleft⟩
  obtain ⟨hcs, hbc⟩ := Finset.mem_filter.1 hc
  have hac := hab.trans hbc
  refine Finset.mem_filter.2 ⟨?_, hac⟩
  by_contra hct
  exact absurd (hmax c (Finset.mem_filter.2 ⟨Finset.mem_filter.2 ⟨hcs, hac⟩, hct⟩)) (not_le.2 hbc)

/-- **Where only elements go that are not retained, none becomes retained.** -/
theorem Retained.of_kept (hkeep : ∀ b ∈ s, Retained group n k s b → b ∈ t)
    (h : Retained group n k t a) : Retained group n k s a := by
  rcases h with hnew | ⟨hfirst, hgroups⟩
  · left
    by_contra hm
    obtain ⟨b, hb, hbt, hcard⟩ := exists_gone hnew (not_lt.1 hm)
    exact hbt (hkeep b hb (.inl hcard))
  · right
    -- the first of a late group stays
    have hlate (g : κ) (hg : g ∈ s.image group) (hcard : ((s.image group).filter (fun g' => g < g')).card < k) :
        ∃ b ∈ t, group b = g ∧ ∀ c ∈ s, group c = g → b ≤ c := by
      obtain ⟨c, hc, rfl⟩ := Finset.mem_image.1 hg
      obtain ⟨b, hb, hmin⟩ := (s.filter (fun b => group b = group c)).exists_min_image id
        ⟨c, Finset.mem_filter.2 ⟨hc, rfl⟩⟩
      obtain ⟨hbs, hbc⟩ := Finset.mem_filter.1 hb
      have hle : ∀ c' ∈ s, group c' = group c → b ≤ c' := fun c' hc' heq => hmin c' (Finset.mem_filter.2 ⟨hc', heq⟩)
      refine ⟨b, hkeep b hbs (.inr ⟨fun c' hc' heq => hle c' hc' (heq.trans hbc), ?_⟩), hbc, hle⟩
      rw [hbc]
      exact hcard
    have hcard : ((s.image group).filter (fun g => group a < g)).card < k := by
      by_contra hm
      obtain ⟨g, hg, hgt, hlt⟩ := exists_gone hgroups (not_lt.1 hm)
      obtain ⟨b, hb, rfl, -⟩ := hlate g hg hlt
      exact hgt (Finset.mem_image_of_mem group hb)
    refine ⟨fun b hb heq => ?_, hcard⟩
    obtain ⟨e, he, hgroup, hle⟩ := hlate (group a) (heq ▸ Finset.mem_image_of_mem group hb) hcard
    exact (hfirst e he hgroup).trans (hle b hb heq)

end Retention
