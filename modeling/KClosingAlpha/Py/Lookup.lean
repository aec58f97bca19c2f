import KClosingAlpha.Py.Value
import Mathlib.Data.List.Nodup
/-!
# Lookup — the items of a dictionary

A dictionary is its items, so a lookup is the first item of a key.
-/
namespace Py
namespace Dict

variable {α : Type} {d : Dict α} {key name : String} {value : α} {p : String × α}

theorem mem_of_lookup : ∀ {d : Dict α}, d.lookup key = some value → (key, value) ∈ d
  | (k, v) :: d, h => by
    rw [List.lookup_cons] at h
    by_cases hk : key = k
    · rw [beq_iff_eq.2 hk] at h
      rw [hk, ← Option.some.inj h]
      exact List.mem_cons_self
    · rw [beq_eq_false_iff_ne.2 hk] at h
      exact List.mem_cons_of_mem _ (mem_of_lookup h)

theorem exists_lookup_of_mem (h : key ∈ d.map Prod.fst) : ∃ v, d.lookup key = some v := by
  obtain ⟨p, hp, rfl⟩ := List.mem_map.1 h
  exact Option.isSome_iff_exists.1 (List.lookup_isSome_iff.2 ⟨p, hp, beq_self_eq_true _⟩)

theorem lookup_of_not_mem (h : key ∉ d.map Prod.fst) : d.lookup key = none := by
  cases hl : d.lookup key with
  | none => rfl
  | some v => exact absurd (List.mem_map_of_mem (mem_of_lookup hl)) h

theorem lookup_of_mem : ∀ {d : Dict α}, (d.map Prod.fst).Nodup → (key, value) ∈ d → d.lookup key = some value
  | (k, v) :: d, hn, h => by
    rw [List.map_cons, List.nodup_cons] at hn
    rw [List.lookup_cons]
    rcases List.mem_cons.1 h with heq | h
    · rw [← (Prod.mk.inj heq).1, beq_self_eq_true, (Prod.mk.inj heq).2]
    · have hk : key ≠ k := fun he => hn.1 (he ▸ List.mem_map.2 ⟨_, h, rfl⟩)
      rw [beq_eq_false_iff_ne.2 hk, lookup_of_mem hn.2 h]

/-- Where no key repeats, the order of the items decides no lookup. -/
theorem lookup_perm {d' : Dict α} (hp : d'.Perm d) (hn : (d.map Prod.fst).Nodup) : d'.lookup key = d.lookup key := by
  cases hl : d.lookup key with
  | none =>
    refine lookup_of_not_mem fun hmem => ?_
    obtain ⟨v, hv⟩ := exists_lookup_of_mem ((hp.map Prod.fst).mem_iff.1 hmem)
    rw [hl] at hv
    cases hv
  | some v => exact lookup_of_mem ((hp.map Prod.fst).nodup_iff.2 hn) (hp.mem_iff.2 (mem_of_lookup hl))

theorem has_iff : d.has key = true ↔ ∃ v, d.lookup key = some v := Option.isSome_iff_exists

theorem lookup_filter_key (f : String → Bool) : ∀ d : Dict α,
    (d.filter (fun p => f p.1)).lookup key = if f key then d.lookup key else none
  | [] => by simp
  | (k, v) :: d => by
    rw [List.filter_cons, List.lookup_cons]
    by_cases hf : f k = true
    · rw [if_pos hf, List.lookup_cons]
      by_cases hk : key = k
      · rw [beq_iff_eq.2 hk, hk, if_pos hf]
      · rw [beq_eq_false_iff_ne.2 hk, lookup_filter_key f d]
    · rw [if_neg hf, lookup_filter_key f d]
      by_cases hk : key = k
      · rw [hk, if_neg hf, if_neg hf]
      · rw [beq_eq_false_iff_ne.2 hk]

theorem mem_set : ∀ {d : Dict α}, p ∈ d.set key value → p = (key, value) ∨ p ∈ d
  | [], h => .inl (List.mem_singleton.1 h)
  | (k, v) :: d, h => by
    rw [set] at h
    split_ifs at h with hk
    · rcases List.mem_cons.1 h with h | h
      · exact .inl (hk ▸ h)
      · exact .inr (List.mem_cons_of_mem _ h)
    · rcases List.mem_cons.1 h with h | h
      · exact .inr (h ▸ List.mem_cons_self)
      · exact (mem_set h).imp_right (List.mem_cons_of_mem _)

theorem mem_set_of_ne (hp : p.1 ≠ key) : ∀ {d : Dict α}, p ∈ d → p ∈ d.set key value
  | (k, v) :: d, h => by
    rw [set]
    split_ifs with hk
    · rcases List.mem_cons.1 h with h | h
      · exact absurd (h ▸ hk) hp
      · exact List.mem_cons_of_mem _ h
    · rcases List.mem_cons.1 h with h | h
      · exact h ▸ List.mem_cons_self
      · exact List.mem_cons_of_mem _ (mem_set_of_ne hp h)

theorem mem_set_self (d : Dict α) : (key, value) ∈ d.set key value := mem_of_lookup (lookup_set_self d)

/-- `dict.update`. -/
def update (d : Dict α) (items : List (String × α)) : Dict α := items.foldl (fun d p => d.set p.1 p.2) d

theorem update_cons (d : Dict α) (p : String × α) (items : List (String × α)) :
    d.update (p :: items) = (d.set p.1 p.2).update items := rfl

theorem lookup_set (d : Dict α) : (d.set key value).lookup name = if name = key then some value else d.lookup name := by
  split_ifs with h
  · rw [h, lookup_set_self]
  · exact lookup_set_of_ne h d

theorem keys_set : ∀ {d : Dict α}, key ∈ d.map Prod.fst → (d.set key value).map Prod.fst = d.map Prod.fst
  | (k, v) :: d, h => by
    rw [set]
    split_ifs with hk
    · rfl
    · rw [List.map_cons, List.mem_cons] at h
      rw [List.map_cons, List.map_cons, keys_set (h.resolve_left (Ne.symm hk))]

theorem keys_set_of_not_mem (h : key ∉ d.map Prod.fst) : (d.set key value).map Prod.fst = d.map Prod.fst ++ [key] := by
  rw [set_of_not_mem h, List.map_append]
  rfl

theorem mem_keys_set : name ∈ (d.set key value).map Prod.fst ↔ name ∈ d.map Prod.fst ∨ name = key := by
  by_cases hk : key ∈ d.map Prod.fst
  · rw [keys_set hk]
    exact ⟨.inl, fun h => h.elim id (fun heq => heq ▸ hk)⟩
  · rw [keys_set_of_not_mem hk, List.mem_append, List.mem_singleton]

theorem nodup_set (h : (d.map Prod.fst).Nodup) : ((d.set key value).map Prod.fst).Nodup := by
  by_cases hk : key ∈ d.map Prod.fst
  · rw [keys_set hk]
    exact h
  · rw [keys_set_of_not_mem hk, List.nodup_append]
    refine ⟨h, List.nodup_singleton _, fun a ha b hb heq => hk ?_⟩
    rwa [← List.mem_singleton.1 hb, ← heq]

section update

variable {items : List (String × α)}

theorem nodup_update (h : (d.map Prod.fst).Nodup) : ((d.update items).map Prod.fst).Nodup := by
  induction items generalizing d with
  | nil => exact h
  | cons p items ih => exact ih (nodup_set h)

theorem mem_keys_update : name ∈ (d.update items).map Prod.fst ↔ name ∈ d.map Prod.fst ∨ name ∈ items.map Prod.fst := by
  induction items generalizing d with
  | nil => simp [update]
  | cons p items ih => rw [update_cons, ih, mem_keys_set, List.map_cons, List.mem_cons, or_assoc]

theorem lookup_update (h : (items.map Prod.fst).Nodup) :
    (d.update items).lookup name = (items.lookup name).or (d.lookup name) := by
  induction items generalizing d with
  | nil => rfl
  | cons p items ih =>
    rw [List.map_cons, List.nodup_cons] at h
    rw [update_cons, ih h.2, lookup_set, List.lookup_cons]
    by_cases hk : name = p.1
    · have hnone : items.lookup name = none := lookup_of_not_mem (hk ▸ h.1)
      rw [hnone, if_pos hk, beq_iff_eq.2 hk]
      rfl
    · rw [if_neg hk, beq_eq_false_iff_ne.2 hk]

theorem lookup_update_nil (h : (items.map Prod.fst).Nodup) : (update [] items).lookup name = items.lookup name := by
  rw [lookup_update h]
  exact Option.or_none

/-- What holds of all items holds of all that is updated. -/
theorem forall_mem_update {P : String × α → Prop} (hd : ∀ p ∈ d, P p) (hi : ∀ p ∈ items, P p) : ∀ p ∈ d.update items, P p := by
  induction items generalizing d with
  | nil => exact hd
  | cons q items ih =>
    refine ih (fun p hp => ?_) (fun p hp => hi p (List.mem_cons_of_mem _ hp))
    rcases mem_set hp with rfl | hp
    · exact hi q List.mem_cons_self
    · exact hd p hp

end update

/-- The first item of a key is found after a filter that keeps it. -/
theorem lookup_filter_of_pos (f : String × α → Bool) : ∀ {d : Dict α}, d.lookup key = some value → f (key, value) = true →
    (d.filter f).lookup key = some value
  | (k, v) :: d, h, hf => by
    rw [List.lookup_cons] at h
    by_cases hk : key = k
    · rw [beq_iff_eq.2 hk] at h
      obtain rfl := Option.some.inj h
      rw [List.filter_cons_of_pos (hk ▸ hf), List.lookup_cons, beq_iff_eq.2 hk]
    · rw [beq_eq_false_iff_ne.2 hk] at h
      rw [List.filter_cons]
      split_ifs
      · rw [List.lookup_cons, beq_eq_false_iff_ne.2 hk]
        exact lookup_filter_of_pos f h hf
      · exact lookup_filter_of_pos f h hf

end Dict
end Py
