import Mathlib
/-!
# Newest — lists that run from the newest key to the oldest

A tape lists its entries newest first, so the entries of one key stand together (`block`).  What has been read of a tape
holds the whole block of a key as soon as it holds an entry older than it (`block_append_of_older`).
-/
namespace Newest

variable {α κ : Type*} [LinearOrder κ] (key : α → κ)

/-- The keys do not increase. -/
def NewestFirst (l : List α) : Prop := l.Pairwise (fun a b => key b ≤ key a)

/-- The entries of one key, in the order of the list. -/
def block (l : List α) (k : κ) : List α := l.filter (fun a => decide (key a = k))

variable {key}

@[simp] theorem block_nil (k : κ) : block key [] k = [] := rfl

@[simp] theorem block_append (l m : List α) (k : κ) : block key (l ++ m) k = block key l k ++ block key m k :=
  List.filter_append ..

theorem block_singleton (a : α) (k : κ) : block key [a] k = if key a = k then [a] else [] := by
  by_cases h : key a = k <;> simp [block, h]

theorem block_cons (a : α) (l : List α) (k : κ) :
    block key (a :: l) k = if key a = k then a :: block key l k else block key l k := by
  by_cases h : key a = k <;> simp [block, h]

theorem block_eq_nil_iff {l : List α} {k : κ} : block key l k = [] ↔ k ∉ l.map key := by
  simp only [block, List.filter_eq_nil_iff, decide_eq_true_eq, List.mem_map, not_exists, not_and]

theorem length_block_pos {l : List α} {k : κ} (h : k ∈ l.map key) : 0 < (block key l k).length := by
  rw [List.length_pos_iff]
  exact fun h' => (block_eq_nil_iff.1 h') h

theorem NewestFirst.le_of_append {l m : List α} (h : NewestFirst key (l ++ m)) {a b : α} (ha : a ∈ l) (hb : b ∈ m) :
    key b ≤ key a :=
  (List.pairwise_append.1 h).2.2 a ha b hb

theorem NewestFirst.left {l m : List α} (h : NewestFirst key (l ++ m)) : NewestFirst key l := (List.pairwise_append.1 h).1

/-- **Nothing of a key follows an entry that is older than it.** -/
theorem block_append_of_older {l m : List α} (h : NewestFirst key (l ++ m)) {a : α} {k : κ} (ha : a ∈ l) (hk : key a < k) :
    block key (l ++ m) k = block key l k := by
  have hm : block key m k = [] := block_eq_nil_iff.2 fun hmem => by
    obtain ⟨b, hb, rfl⟩ := List.mem_map.1 hmem
    exact absurd (h.le_of_append ha hb) (not_le.2 hk)
  rw [block_append, hm, List.append_nil]

end Newest
