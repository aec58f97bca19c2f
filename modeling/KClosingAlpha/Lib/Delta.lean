import Mathlib.Data.List.Nodup
import Mathlib.Data.List.Perm.Basic
import Mathlib.Data.List.Sort
/-!
# Delta — a keyed table as a base, a patch and the keys deleted

The patch holds the rows the base lacks, and the deletes the keys of the base that are gone; the table is the base
without the keys of either, and the patch.  The base may repeat a key.  A repeated key whose rows all changed does no
harm, as the patch drops them all; one that keeps a row would bring its other rows back (`patched_perm`).
-/
namespace Delta

variable {α κ : Type*} {key : α → κ} {base cur : List α}

/-- Rows with one key are one row. -/
theorem eq_of_key {l : List α} (h : (l.map key).Nodup) {a b : α} (ha : a ∈ l) (hb : b ∈ l) (hk : key a = key b) : a = b :=
  List.inj_on_of_nodup_map h ha hb hk

theorem eq_of_countP {l : List α} {p : α → Bool} (h : l.countP p = 1) {a b : α} (ha : a ∈ l) (hb : b ∈ l)
    (hpa : p a = true) (hpb : p b = true) : a = b := by
  rw [List.countP_eq_length_filter, List.length_eq_one_iff] at h
  obtain ⟨x, hx⟩ := h
  have hax : a ∈ l.filter p := List.mem_filter.2 ⟨ha, hpa⟩
  have hbx : b ∈ l.filter p := List.mem_filter.2 ⟨hb, hpb⟩
  rw [hx, List.mem_singleton] at hax hbx
  rw [hax, hbx]

/-- The keys of the base that are gone. -/
def gone [DecidableEq κ] (key : α → κ) (base cur : List α) : List κ :=
  (base.map key).filter (fun k => decide (k ∉ cur.map key))

@[simp] theorem mem_gone [DecidableEq κ] {k : κ} :
    k ∈ gone key base cur ↔ (∃ b ∈ base, key b = k) ∧ ∀ c ∈ cur, key c ≠ k := by simp [gone]

/-- The table that a base, a patch and deletes stand for. -/
def patched [DecidableEq κ] (key : α → κ) (base patch : List α) (deletes : List κ) : List α :=
  base.filter (fun b => decide (key b ∉ patch.map key ++ deletes)) ++ patch

/-- A key that the base repeats keeps none of its rows. -/
def KeepsOnce [DecidableEq κ] (key : α → κ) (base cur : List α) : Prop :=
  ∀ c ∈ cur, c ∈ base → base.countP (fun b => decide (key b = key c)) = 1

section changed

variable [DecidableEq α]

/-- The rows that the base lacks. -/
def changed (base cur : List α) : List α := cur.filter (fun c => decide (c ∉ base))

@[simp] theorem mem_changed {c : α} : c ∈ changed base cur ↔ c ∈ cur ∧ c ∉ base := by simp [changed]

theorem not_mem_changed_key (hcur : (cur.map key).Nodup) {c : α} (hc : c ∈ cur) (hb : c ∈ base) :
    key c ∉ (changed base cur).map key := by
  intro hk
  obtain ⟨p, hp, hpk⟩ := List.mem_map.1 hk
  obtain ⟨hpc, hpb⟩ := mem_changed.1 hp
  exact hpb (by rwa [eq_of_key hcur hpc hc hpk])

variable [DecidableEq κ]

/-- The rows of the base that are kept are the unchanged ones. -/
theorem mem_kept (hcur : (cur.map key).Nodup) (honce : KeepsOnce key base cur) {x : α} :
    x ∈ base.filter (fun b => decide (key b ∉ (changed base cur).map key ++ gone key base cur)) ↔ x ∈ cur ∧ x ∈ base := by
  rw [List.mem_filter, decide_eq_true_eq, List.mem_append, not_or]
  constructor
  · rintro ⟨hx, hpatch, hgone⟩
    have hthere : ∃ c ∈ cur, key c = key x := by
      by_contra hno
      push Not at hno
      exact hgone (mem_gone.2 ⟨⟨x, hx, rfl⟩, hno⟩)
    obtain ⟨c, hc, hk⟩ := hthere
    have hcb : c ∈ base := by
      by_contra hcb
      exact hpatch (List.mem_map.2 ⟨c, mem_changed.2 ⟨hc, hcb⟩, hk⟩)
    have heq : x = c := eq_of_countP (honce c hc hcb) hx hcb (by simp [hk]) (by simp)
    exact ⟨by rw [heq]; exact hc, hx⟩
  · rintro ⟨hc, hb⟩
    exact ⟨hb, not_mem_changed_key hcur hc hb, fun hg => (mem_gone.1 hg).2 x hc rfl⟩

/-- **The patch rebuilds the table**, in some order. -/
theorem patched_perm (hcur : (cur.map key).Nodup) (honce : KeepsOnce key base cur) :
    (patched key base (changed base cur) (gone key base cur)).Perm cur := by
  have hnodup : cur.Nodup := List.Nodup.of_map key hcur
  refine (List.perm_ext_iff_of_nodup ?_ hnodup).2 (fun x => ?_)
  · refine List.Nodup.append ?_ (hnodup.filter _) (fun x hx hp => (mem_changed.1 hp).2 ((mem_kept hcur honce).1 hx).2)
    rw [List.nodup_iff_count_le_one]
    intro x
    by_cases hx : x ∈ cur ∧ x ∈ base
    · have hone := honce x hx.1 hx.2
      have hle : base.count x ≤ base.countP (fun b => decide (key b = key x)) := by
        rw [List.count_eq_countP]
        refine List.countP_mono_left (fun b _ hb => ?_)
        rw [beq_iff_eq] at hb
        simp [hb]
      have hsub := (List.filter_sublist (l := base)
        (p := fun b => decide (key b ∉ (changed base cur).map key ++ gone key base cur))).count_le x
      omega
    · rw [List.count_eq_zero_of_not_mem (fun h => hx ((mem_kept hcur honce).1 h))]
      omega
  · rw [patched, List.mem_append, mem_kept hcur honce, mem_changed]
    tauto

end changed

/-! ## A table in parts -/

/-- **The parts of a table, by a key of its rows, are the table**, in some order. -/
theorem flatMap_parts_perm [DecidableEq κ] (f : α → κ) : ∀ {ks : List κ}, ks.Nodup → ∀ {l : List α}, (∀ a ∈ l, f a ∈ ks) →
    (ks.flatMap (fun k => l.filter (fun a => decide (f a = k)))).Perm l
  | [], _, l, h => by
    cases l with
    | nil => exact .nil
    | cons a l => exact absurd (h a List.mem_cons_self) List.not_mem_nil
  | k :: ks, hks, l, h => by
    rw [List.nodup_cons] at hks
    have hrest : (ks.flatMap (fun k' => (l.filter (fun a => !decide (f a = k))).filter (fun a => decide (f a = k')))).Perm
        (l.filter (fun a => !decide (f a = k))) := by
      refine flatMap_parts_perm f hks.2 (fun a ha => ?_)
      obtain ⟨hal, hne⟩ := List.mem_filter.1 ha
      exact (List.mem_cons.1 (h a hal)).resolve_left (by simpa using hne)
    have hsame : ks.flatMap (fun k' => (l.filter (fun a => !decide (f a = k))).filter (fun a => decide (f a = k'))) =
        ks.flatMap (fun k' => l.filter (fun a => decide (f a = k'))) := by
      refine List.flatMap_congr (fun k' hk' => ?_)
      rw [List.filter_filter]
      refine List.filter_congr (fun a _ => ?_)
      by_cases ha : f a = k'
      · have hne : k' ≠ k := fun heq => hks.1 (heq ▸ hk')
        simp [ha, hne]
      · simp [ha]
    rw [List.flatMap_cons, ← hsame]
    exact (hrest.append_left _).trans (List.filter_append_perm (fun a => decide (f a = k)) l)

/-! ## Tables by their hashes -/

/-- Two lists have the same sorted hashes exactly when one is a rearrangement of the other. -/
theorem sorted_map_eq_iff {hash : α → Nat} (hinj : Function.Injective hash) {l l' : List α} :
    (l.map hash).insertionSort (· ≤ ·) = (l'.map hash).insertionSort (· ≤ ·) ↔ l.Perm l' := by
  constructor
  · intro h
    have hperm : (l.map hash).Perm (l'.map hash) :=
      ((List.perm_insertionSort (· ≤ ·) (l.map hash)).symm.trans (by rw [h])).trans
        (List.perm_insertionSort (· ≤ ·) (l'.map hash))
    exact (List.map_perm_map_iff hinj).1 hperm
  · intro h
    exact List.Perm.eq_of_pairwise' (List.pairwise_insertionSort _ _) (List.pairwise_insertionSort _ _)
      (((List.perm_insertionSort _ _).trans (h.map hash)).trans (List.perm_insertionSort _ _).symm)

end Delta
