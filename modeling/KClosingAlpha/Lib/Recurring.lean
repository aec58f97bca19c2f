import Mathlib
/-!
# Recurring — instants that come back every period of days

A rule is on at some days of a period and names an instant of each of them.  The instants a timetable names at or before
a moment have a latest one as soon as one rule is on at some day of the period, and a search over the moment's day and
the `P` days before it finds it (`isGreatest_window_iff`): an instant further back comes again one period later.
-/
namespace Recurring

/-! ## The latest of what a loop has seen -/

section later

variable {α : Type*} [LinearOrder α]

/-- What a search holds after it has seen the elements of `S`: nothing, or the greatest of them. -/
def Latest (S : Set α) : Option α → Prop
  | none => S = ∅
  | some a => IsGreatest S a

/-- Keeps the later of two, of what is not past `now`. -/
def later (now : α) (best : Option α) (c : α) : Option α :=
  if c ≤ now ∧ best.all (fun b => decide (b < c)) = true then some c else best

theorem Latest.later {S : Set α} {now c : α} {best : Option α} (h : Latest S best) :
    Latest (S ∪ {x | x = c ∧ x ≤ now}) (later now best c) := by
  by_cases hc : c ≤ now
  · have hset : S ∪ {x | x = c ∧ x ≤ now} = insert c S := by
      ext x
      simp only [Set.mem_union, Set.mem_ofPred_eq, Set.mem_insert_iff]
      constructor
      · rintro (hx | ⟨hx, -⟩)
        · exact Or.inr hx
        · exact Or.inl hx
      · rintro (rfl | hx)
        · exact Or.inr ⟨rfl, hc⟩
        · exact Or.inl hx
    rw [hset]
    cases best with
    | none =>
      have hS : S = ∅ := h
      subst hS
      simp [Recurring.later, hc, Latest, isGreatest_singleton]
    | some b =>
      have hb : IsGreatest S b := h
      by_cases hlt : b < c
      · have hmax : IsGreatest (insert c S) (max c b) := hb.insert c
        rw [max_eq_left hlt.le] at hmax
        simpa [Recurring.later, hc, hlt, Latest] using hmax
      · have hmax : IsGreatest (insert c S) (max c b) := hb.insert c
        rw [max_eq_right (not_lt.1 hlt)] at hmax
        simpa [Recurring.later, hlt, Latest] using hmax
  · have hset : S ∪ {x | x = c ∧ x ≤ now} = S := by
      ext x
      simp only [Set.mem_union, Set.mem_ofPred_eq, or_iff_left_iff_imp]
      rintro ⟨rfl, hx⟩
      exact absurd hx hc
    rw [hset]
    simpa [Recurring.later, hc] using h

/-- **A loop that adds to what was seen, one round after the other, has seen all of it at its end.** -/
theorem Latest.foldl {β : Type*} (step : Option α → β → Option α) (adds : β → Set α)
    (hstep : ∀ S best x, Latest S best → Latest (S ∪ adds x) (step best x)) :
    ∀ (xs : List β) (S : Set α) (best : Option α), Latest S best →
      Latest (S ∪ {a | ∃ x ∈ xs, a ∈ adds x}) (xs.foldl step best)
  | [], S, best, h => by simpa using h
  | x :: xs, S, best, h => by
    have hnext := Latest.foldl step adds hstep xs (S ∪ adds x) (step best x) (hstep S best x h)
    have hset : S ∪ adds x ∪ {a | ∃ y ∈ xs, a ∈ adds y} = S ∪ {a | ∃ y ∈ x :: xs, a ∈ adds y} := by
      ext a
      simp only [Set.mem_union, Set.mem_ofPred_eq, List.mem_cons, exists_eq_or_imp, or_assoc]
    rw [List.foldl_cons, ← hset]
    exact hnext

end later

/-! ## Timetables -/

section timetable

variable {ρ : Type*} (L P : ℤ) (on : ρ → ℤ → Prop) (time : ρ → ℤ)

/-- The instants the rules name: on the days `d` whose place in the period has the rule on. -/
def instants (rules : List ρ) : Set ℤ := {t | ∃ r ∈ rules, ∃ d : ℤ, on r (d % P) ∧ t = d * L + time r}

/-- The instants at or before a moment. -/
def due (rules : List ρ) (now : ℤ) : Set ℤ := {t ∈ instants L P on time rules | t ≤ now}

/-- Of those, the ones of the moment's day and of the `P` days before it. -/
def window (rules : List ρ) (now : ℤ) : Set ℤ :=
  {t | ∃ k : ℤ, 0 ≤ k ∧ k ≤ P ∧ ∃ r ∈ rules, on r ((now / L - k) % P) ∧ t = (now / L - k) * L + time r ∧ t ≤ now}

variable {L P on time} {rules : List ρ} {now : ℤ}

theorem window_subset_due : window L P on time rules now ⊆ due L P on time rules now := by
  rintro t ⟨k, -, -, r, hr, hon, rfl, hle⟩
  exact ⟨⟨r, hr, _, hon, rfl⟩, hle⟩

/-- An instant at or before a moment is not of a later day. -/
theorem day_le (hL : 0 < L) {d x : ℤ} (hx : 0 ≤ x) (hle : d * L + x ≤ now) : d ≤ now / L := by
  rw [Int.le_ediv_iff_mul_le hL]
  omega

/-- **An instant that is further back than the window comes again in it.** -/
theorem exists_window_ge (hL : 0 < L) (hP : 0 < P) (htime : ∀ r ∈ rules, 0 ≤ time r ∧ time r < L) {t : ℤ}
    (ht : t ∈ due L P on time rules now) : ∃ t' ∈ window L P on time rules now, t ≤ t' := by
  obtain ⟨⟨r, hr, d, hon, rfl⟩, hle⟩ := ht
  obtain ⟨hlo, hhi⟩ := htime r hr
  have hd : d ≤ now / L := day_le hL hlo hle
  by_cases hk : now / L - d ≤ P
  · have hday : now / L - (now / L - d) = d := by ring
    exact ⟨d * L + time r, ⟨now / L - d, by omega, hk, r, hr, by rw [hday]; exact hon, by rw [hday], hle⟩, le_rfl⟩
  · -- the last day of the same place in the period that is before the moment's day
    have hrem := Int.emod_nonneg (now / L - d - 1) hP.ne'
    have hrem' := Int.emod_lt_of_pos (now / L - d - 1) hP
    have hshift := Int.mul_ediv_add_emod (now / L - d - 1) P
    have hday : now / L - ((now / L - d - 1) % P + 1) = d + P * ((now / L - d - 1) / P) := by omega
    have hmod : (now / L - ((now / L - d - 1) % P + 1)) % P = d % P := by rw [hday, Int.add_mul_emod_self_left]
    have hbefore : (now / L - ((now / L - d - 1) % P + 1)) * L + L ≤ now / L * L := by
      have hstep : now / L - ((now / L - d - 1) % P + 1) + 1 ≤ now / L := by omega
      calc (now / L - ((now / L - d - 1) % P + 1)) * L + L
          = (now / L - ((now / L - d - 1) % P + 1) + 1) * L := by ring
        _ ≤ now / L * L := by gcongr
    have hnow := Int.ediv_mul_le now hL.ne'
    refine ⟨(now / L - ((now / L - d - 1) % P + 1)) * L + time r,
      ⟨(now / L - d - 1) % P + 1, by omega, by omega, r, hr, by rw [hmod]; exact hon, rfl, by omega⟩, ?_⟩
    have hge : d ≤ now / L - ((now / L - d - 1) % P + 1) := by omega
    gcongr

/-- **The window has the latest instant.** -/
theorem isGreatest_window_iff (hL : 0 < L) (hP : 0 < P) (htime : ∀ r ∈ rules, 0 ≤ time r ∧ time r < L) {t : ℤ} :
    IsGreatest (window L P on time rules now) t ↔ IsGreatest (due L P on time rules now) t := by
  constructor
  · rintro ⟨hmem, hub⟩
    refine ⟨window_subset_due hmem, fun u hu => ?_⟩
    obtain ⟨u', hu', hle⟩ := exists_window_ge hL hP htime hu
    exact hle.trans (hub hu')
  · rintro ⟨hmem, hub⟩
    obtain ⟨t', ht', hle⟩ := exists_window_ge hL hP htime hmem
    have heq : t = t' := le_antisymm hle (hub (window_subset_due ht'))
    rw [heq]
    exact ⟨ht', fun u hu => heq ▸ hub (window_subset_due hu)⟩

/-- **A rule that is on at some day of the period has named an instant before any moment.** -/
theorem window_nonempty (hL : 0 < L) (hP : 0 < P) (htime : ∀ r ∈ rules, 0 ≤ time r ∧ time r < L) {r : ρ}
    (hr : r ∈ rules) {w : ℤ} (hw : 0 ≤ w) (hwP : w < P) (hon : on r w) : (window L P on time rules now).Nonempty := by
  obtain ⟨hlo, hhi⟩ := htime r hr
  have hq := Int.mul_ediv_add_emod (now / L - 1 - w) P
  have hrem := Int.emod_nonneg (now / L - 1 - w) hP.ne'
  have hrem' := Int.emod_lt_of_pos (now / L - 1 - w) hP
  have hmod : (w + P * ((now / L - 1 - w) / P)) % P = w := by
    rw [Int.add_mul_emod_self_left, Int.emod_eq_of_lt hw hwP]
  have hday : w + P * ((now / L - 1 - w) / P) + 1 ≤ now / L := by omega
  have hnow := Int.ediv_mul_le now hL.ne'
  have hend : (w + P * ((now / L - 1 - w) / P) + 1) * L ≤ now / L * L := by gcongr
  have hle : (w + P * ((now / L - 1 - w) / P)) * L + time r ≤ now := by
    have hexp : (w + P * ((now / L - 1 - w) / P) + 1) * L = (w + P * ((now / L - 1 - w) / P)) * L + L := by ring
    omega
  have hdue : (w + P * ((now / L - 1 - w) / P)) * L + time r ∈ due L P on time rules now :=
    ⟨⟨r, hr, w + P * ((now / L - 1 - w) / P), by rw [hmod]; exact hon, rfl⟩, hle⟩
  obtain ⟨t', ht', -⟩ := exists_window_ge hL hP htime hdue
  exact ⟨t', ht'⟩

end timetable

end Recurring
