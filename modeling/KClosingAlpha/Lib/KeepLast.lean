import Mathlib.Data.List.Basic
import Mathlib.Data.List.Nodup
import Mathlib.Data.List.Perm.Basic
/-!
# KeepLast — tables in which a later row of a key replaces the earlier ones

`keepLast` drops from a list every row that a later one of its key follows.  What it leaves has one row a key
(`nodup_keys`), the latest one (`mem_keepLast_iff`), and appending to it replaces what is appended (`keepLast_append`).
-/
namespace KeepLast

variable {α κ : Type*} [DecidableEq κ] {key : α → κ}

/-- The rows that no later row of their key follows, in the order of the list. -/
def keepLast (key : α → κ) : List α → List α
  | [] => []
  | a :: l => if key a ∈ l.map key then keepLast key l else a :: keepLast key l

/-- The last row of a key. -/
def latest (key : α → κ) (k : κ) (l : List α) : Option α := (l.filter (fun a => decide (key a = k))).getLast?

@[simp] theorem keepLast_nil : keepLast key [] = [] := rfl

theorem keepLast_cons (a : α) (l : List α) :
    keepLast key (a :: l) = if key a ∈ l.map key then keepLast key l else a :: keepLast key l := rfl

theorem keepLast_sublist : ∀ l : List α, (keepLast key l).Sublist l
  | [] => .slnil
  | a :: l => by
    rw [keepLast_cons]
    split_ifs
    · exact (keepLast_sublist l).cons a
    · exact (keepLast_sublist l).cons_cons a

theorem mem_of_mem_keepLast {a : α} {l : List α} (h : a ∈ keepLast key l) : a ∈ l := (keepLast_sublist l).mem h

theorem mem_keys_keepLast {k : κ} : ∀ {l : List α}, k ∈ (keepLast key l).map key ↔ k ∈ l.map key
  | [] => Iff.rfl
  | a :: l => by
    rw [keepLast_cons, List.map_cons, List.mem_cons]
    split_ifs with ha
    · rw [mem_keys_keepLast]
      constructor
      · exact .inr
      · rintro (rfl | hk)
        · exact ha
        · exact hk
    · rw [List.map_cons, List.mem_cons, mem_keys_keepLast]

/-- One row a key. -/
theorem nodup_keys : ∀ l : List α, ((keepLast key l).map key).Nodup
  | [] => List.nodup_nil
  | a :: l => by
    rw [keepLast_cons]
    split_ifs with ha
    · exact nodup_keys l
    · rw [List.map_cons, List.nodup_cons, mem_keys_keepLast]
      exact ⟨ha, nodup_keys l⟩

theorem keepLast_eq_self : ∀ {l : List α}, (l.map key).Nodup → keepLast key l = l
  | [], _ => rfl
  | a :: l, h => by
    rw [List.map_cons, List.nodup_cons] at h
    rw [keepLast_cons, if_neg h.1, keepLast_eq_self h.2]

theorem keepLast_map {β : Type*} (g : β → α) : ∀ l : List β, keepLast key (l.map g) = (keepLast (fun b => key (g b)) l).map g
  | [] => rfl
  | b :: l => by
    have hmem : key (g b) ∈ (l.map g).map key ↔ key (g b) ∈ l.map (fun b => key (g b)) := by
      rw [List.map_map]
      rfl
    rw [List.map_cons, keepLast_cons, keepLast_cons, keepLast_map g l]
    by_cases hb : key (g b) ∈ l.map (fun b => key (g b))
    · rw [if_pos hb, if_pos (hmem.2 hb)]
    · rw [if_neg hb, if_neg (fun h => hb (hmem.1 h)), List.map_cons]

/-- Keys that tell the rows of a list apart alike. -/
theorem keepLast_congr {κ' : Type*} [DecidableEq κ'] {key' : α → κ'} : ∀ {l : List α},
    (∀ a ∈ l, ∀ b ∈ l, key a = key b ↔ key' a = key' b) → keepLast key l = keepLast key' l
  | [], _ => rfl
  | a :: l, h => by
    have hmem : key a ∈ l.map key ↔ key' a ∈ l.map key' := by
      simp only [List.mem_map]
      constructor
      · rintro ⟨b, hb, heq⟩
        exact ⟨b, hb, (h b (List.mem_cons_of_mem _ hb) a List.mem_cons_self).1 heq⟩
      · rintro ⟨b, hb, heq⟩
        exact ⟨b, hb, (h b (List.mem_cons_of_mem _ hb) a List.mem_cons_self).2 heq⟩
    have ih := keepLast_congr (fun b hb c hc => h b (List.mem_cons_of_mem _ hb) c (List.mem_cons_of_mem _ hc))
    rw [keepLast_cons, keepLast_cons, ih]
    by_cases hl : key a ∈ l.map key
    · rw [if_pos hl, if_pos (hmem.1 hl)]
    · rw [if_neg hl, if_neg (fun h' => hl (hmem.2 h'))]

/-- Rows that are appended replace those of their keys. -/
theorem keepLast_append (m : List α) : ∀ l : List α,
    keepLast key (l ++ m) = (keepLast key l).filter (fun a => decide (key a ∉ m.map key)) ++ keepLast key m
  | [] => rfl
  | a :: l => by
    have hmem : key a ∈ (l ++ m).map key ↔ key a ∈ l.map key ∨ key a ∈ m.map key := by
      rw [List.map_append, List.mem_append]
    rw [List.cons_append, keepLast_cons, keepLast_cons, keepLast_append m l]
    by_cases hl : key a ∈ l.map key
    · rw [if_pos (hmem.2 (.inl hl)), if_pos hl]
    · by_cases hm : key a ∈ m.map key
      · rw [if_pos (hmem.2 (.inr hm)), if_neg hl, List.filter_cons_of_neg (by simpa using hm)]
      · rw [if_neg (fun h => (hmem.1 h).elim hl hm), if_neg hl, List.filter_cons_of_pos (by simpa using hm),
          List.cons_append]

/-- What does not look past the key is kept apart. -/
theorem filter_keepLast (p : κ → Bool) : ∀ l : List α,
    (keepLast key l).filter (fun a => p (key a)) = keepLast key (l.filter (fun a => p (key a)))
  | [] => rfl
  | a :: l => by
    have ih := filter_keepLast p l
    by_cases hp : p (key a)
    · have hmem : key a ∈ (l.filter (fun b => p (key b))).map key ↔ key a ∈ l.map key := by
        simp only [List.mem_map, List.mem_filter]
        constructor
        · rintro ⟨b, ⟨hb, -⟩, heq⟩
          exact ⟨b, hb, heq⟩
        · rintro ⟨b, hb, heq⟩
          exact ⟨b, ⟨hb, heq ▸ hp⟩, heq⟩
      rw [List.filter_cons_of_pos (by simpa using hp), keepLast_cons, keepLast_cons]
      by_cases hl : key a ∈ l.map key
      · rw [if_pos hl, if_pos (hmem.2 hl), ih]
      · rw [if_neg hl, if_neg (fun h => hl (hmem.1 h)), List.filter_cons_of_pos (by simpa using hp), ih]
    · rw [List.filter_cons_of_neg (by simpa using hp), keepLast_cons]
      split_ifs
      · exact ih
      · rw [List.filter_cons_of_neg (by simpa using hp), ih]

/-- **Rows that are put back by group are changed in place**, where they are all those of their groups. -/
theorem putBack_perm {γ : Type*} (group : α → γ) {table rows : List α} {g : α → α} {others : α → Bool}
    (htable : table.Nodup) (hrows : rows.Nodup) (hsub : ∀ r ∈ rows, r ∈ table)
    (hothers : ∀ r, others r = true ↔ group r ∉ (rows.map g).map group)
    (hclosed : ∀ r ∈ table, group r ∈ rows.map group → r ∈ rows) (hg : ∀ r, r ∉ rows → g r = r)
    (hgroup : ∀ r, group (g r) = group r) : (table.filter others ++ rows.map g).Perm (table.map g) := by
  have hgroups : (rows.map g).map group = rows.map group := by
    rw [List.map_map]
    exact List.map_congr_left fun r _ => hgroup r
  rw [hgroups] at hothers
  have hrest : ∀ r ∈ table.filter others, r ∉ rows := fun r hr hmem =>
    (hothers r).1 (List.mem_filter.1 hr).2 (List.mem_map_of_mem hmem)
  have hsplit : (table.filter others ++ rows).Perm table := by
    refine (List.perm_ext_iff_of_nodup ?_ htable).2 fun r => ?_
    · exact List.nodup_append.2 ⟨htable.filter _, hrows, fun a ha b hb heq => hrest a ha (heq ▸ hb)⟩
    · rw [List.mem_append]
      refine ⟨fun h => h.elim List.mem_of_mem_filter (hsub r), fun hr => ?_⟩
      by_cases hmem : group r ∈ rows.map group
      · exact .inr (hclosed r hr hmem)
      · exact .inl (List.mem_filter.2 ⟨hr, (hothers r).2 hmem⟩)
  have hsame : (table.filter others).map g = table.filter others := by
    conv_rhs => rw [← List.map_id (table.filter others)]
    exact List.map_congr_left fun r hr => hg r (hrest r hr)
  have hmap := hsplit.map g
  rwa [List.map_append, hsame] at hmap

/-! ## The latest row of a key -/

@[simp] theorem latest_nil (k : κ) : latest key k [] = none := rfl

theorem latest_append (k : κ) (l m : List α) : latest key k (l ++ m) = (latest key k m).or (latest key k l) := by
  unfold latest
  rw [List.filter_append, List.getLast?_append]

theorem latest_eq_none_iff {k : κ} {l : List α} : latest key k l = none ↔ k ∉ l.map key := by
  unfold latest
  rw [List.getLast?_eq_none_iff, List.filter_eq_nil_iff]
  simp only [decide_eq_true_eq, List.mem_map, not_exists, not_and]

theorem mem_of_latest {k : κ} {l : List α} {a : α} (h : latest key k l = some a) : a ∈ l ∧ key a = k := by
  obtain ⟨ha, hk⟩ := List.mem_filter.1 (List.mem_of_getLast? h)
  exact ⟨ha, of_decide_eq_true hk⟩

/-- With one row a key, the latest is the one. -/
theorem latest_eq_some_iff_mem {l : List α} (h : (l.map key).Nodup) {a : α} : latest key (key a) l = some a ↔ a ∈ l := by
  constructor
  · exact fun ha => (mem_of_latest ha).1
  · intro ha
    obtain ⟨b, hb⟩ := Option.ne_none_iff_exists'.1
      (fun hnone => latest_eq_none_iff.1 hnone (List.mem_map_of_mem ha) : latest key (key a) l ≠ none)
    obtain ⟨hmem, hkey⟩ := mem_of_latest hb
    rw [hb, List.inj_on_of_nodup_map h hmem ha hkey]

/-- A change that leaves the keys changes the latest rows. -/
theorem latest_map {g : α → α} (hg : ∀ a, key (g a) = key a) (k : κ) (l : List α) :
    latest key k (l.map g) = (latest key k l).map g := by
  unfold latest
  rw [List.filter_map, List.getLast?_map]
  congr 3
  funext a
  exact decide_eq_decide.2 (by rw [hg])

@[simp] theorem latest_keepLast (k : κ) : ∀ l : List α, latest key k (keepLast key l) = latest key k l
  | [] => rfl
  | a :: l => by
    have hcons : latest key k (a :: l) = (latest key k l).or (latest key k [a]) := latest_append k [a] l
    rw [hcons, keepLast_cons]
    split_ifs with ha
    · rw [latest_keepLast k l]
      by_cases hk : key a = k
      · obtain ⟨b, hb⟩ := Option.ne_none_iff_exists'.1
          (fun hnone => latest_eq_none_iff.1 hnone (hk ▸ ha) : latest key k l ≠ none)
        rw [hb, Option.some_or]
      · have hnone : latest key k [a] = none := latest_eq_none_iff.2 (by simpa using Ne.symm hk)
        rw [hnone, Option.or_none]
    · have hcons' : latest key k (a :: keepLast key l) = (latest key k (keepLast key l)).or (latest key k [a]) :=
        latest_append k [a] _
      rw [hcons', latest_keepLast k l]

/-- **What is kept of a list are the latest rows of its keys.** -/
theorem mem_keepLast_iff {a : α} {l : List α} : a ∈ keepLast key l ↔ latest key (key a) l = some a := by
  rw [← latest_keepLast, latest_eq_some_iff_mem (nodup_keys l)]

/-- Two tables with one row a key are the same up to order where their latest rows are. -/
theorem perm_of_latest {l m : List α} (hl : (l.map key).Nodup) (hm : (m.map key).Nodup)
    (h : ∀ k, latest key k l = latest key k m) : l.Perm m := by
  refine (List.perm_ext_iff_of_nodup (List.Nodup.of_map key hl) (List.Nodup.of_map key hm)).2 (fun a => ?_)
  rw [← latest_eq_some_iff_mem hl, ← latest_eq_some_iff_mem hm, h]

end KeepLast
