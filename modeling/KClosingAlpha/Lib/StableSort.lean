import Mathlib.Data.List.Sort
/-!
# StableSort — what a stable sort leaves in place

An insertion sort keeps the order of elements that are not told apart, so that it may be done before or after a filter
(`filter_insertionSort`); what is above everything else comes last (`getLast?_insertionSort`).
-/
namespace StableSort

variable {α : Type} {le : α → α → Prop} [DecidableRel le] {p : α → Bool}

theorem orderedInsert_of_forall_le {a : α} : ∀ {l : List α}, (∀ b ∈ l, le a b) → l.orderedInsert le a = a :: l
  | [], _ => rfl
  | b :: l, h => List.orderedInsert_cons_of_le le l (h b List.mem_cons_self)

/-- An element goes to its place among those that pass. -/
theorem filter_orderedInsert [IsTrans α le] {a : α} : ∀ {l : List α}, l.Pairwise le →
    (l.orderedInsert le a).filter p = if p a then (l.filter p).orderedInsert le a else l.filter p
  | [], _ => by cases h : p a <;> simp [h]
  | b :: l, hl => by
    obtain ⟨hb, hl'⟩ := List.pairwise_cons.1 hl
    rw [List.orderedInsert_cons]
    by_cases hab : le a b
    · have hall : ∀ c ∈ (b :: l).filter p, le a c := by
        intro c hc
        rcases List.mem_cons.1 (List.mem_of_mem_filter hc) with rfl | hc
        · exact hab
        · exact IsTrans.trans _ _ _ hab (hb c hc)
      rw [if_pos hab, List.filter_cons, orderedInsert_of_forall_le hall]
    · rw [if_neg hab, List.filter_cons, filter_orderedInsert hl', List.filter_cons]
      by_cases hpb : p b = true <;> by_cases hpa : p a = true <;> simp [hpa, hpb, hab]

/-- **A stable sort keeps the order of what passes.** -/
theorem filter_insertionSort [IsTrans α le] [Std.Total le] : ∀ l : List α,
    (l.insertionSort le).filter p = (l.filter p).insertionSort le
  | [] => rfl
  | a :: l => by
    rw [List.insertionSort_cons, filter_orderedInsert (List.pairwise_insertionSort le l), filter_insertionSort l,
      List.filter_cons]
    by_cases hpa : p a = true
    · rw [if_pos hpa, if_pos hpa, List.insertionSort_cons]
    · rw [if_neg hpa, if_neg hpa]

/-- **What the rest is below comes last.** -/
theorem getLast?_insertionSort [IsTrans α le] [Std.Total le] {a : α} {l : List α} (ha : a ∈ l)
    (h : ∀ b ∈ l, le a b → b = a) : (l.insertionSort le).getLast? = some a := by
  have hmem : a ∈ l.insertionSort le := (List.mem_insertionSort le).2 ha
  have hne := List.ne_nil_of_mem hmem
  have hsorted := List.pairwise_insertionSort le l
  rw [List.getLast?_eq_some_getLast hne]
  rw [← List.dropLast_append_getLast hne] at hmem hsorted
  rcases List.mem_append.1 hmem with hlow | hlast
  · have hle := (List.pairwise_append.1 hsorted).2.2 a hlow _ List.mem_cons_self
    rw [h _ ((List.mem_insertionSort le).1 (List.getLast_mem hne)) hle]
  · rw [List.mem_singleton.1 hlast]

/-- The rest is below what comes last. -/
theorem le_of_getLast? [IsTrans α le] [Std.Total le] {a b : α} {l : List α} (ha : (l.insertionSort le).getLast? = some a)
    (hb : b ∈ l) : b = a ∨ le b a := by
  obtain ⟨lower, heq⟩ := List.getLast?_eq_some_iff.1 ha
  have hsorted := List.pairwise_insertionSort le l
  have hmem := (List.mem_insertionSort le).2 hb
  rw [heq] at hsorted hmem
  rcases List.mem_append.1 hmem with hlow | hlast
  · exact .inr ((List.pairwise_append.1 hsorted).2.2 b hlow a List.mem_cons_self)
  · exact .inl (List.mem_singleton.1 hlast)

end StableSort
