import Mathlib.Data.List.Basic
import Mathlib.Data.List.Forall2
/-!
# Exc — checks, loops and maps that may raise

What a successful `Except` computation did, constructor by constructor: each lemma turns `… = .ok b` of a compound into
facts about its parts.
-/
namespace Exc

variable {ε α β γ : Type}

/-- `if bad: raise e`. -/
def raiseIf (bad : Prop) [Decidable bad] (e : ε) : Except ε Unit := if bad then .error e else .ok ()

@[simp] theorem raiseIf_eq_ok (bad : Prop) [Decidable bad] (e : ε) (u : Unit) :
    raiseIf bad e = .ok u ↔ ¬ bad := by
  unfold raiseIf
  by_cases h : bad <;> simp [h]

@[simp] theorem bind_eq_ok (x : Except ε α) (f : α → Except ε β) (b : β) :
    (x >>= f) = .ok b ↔ ∃ a, x = .ok a ∧ f a = .ok b := by
  cases x with
  | error e => simp [bind, Except.bind]
  | ok a => simp [bind, Except.bind]

@[simp] theorem map_eq_ok (f : α → β) (x : Except ε α) (b : β) : (f <$> x) = .ok b ↔ ∃ a, x = .ok a ∧ f a = b := by
  cases x with
  | error e => simp [Functor.map, Except.map]
  | ok a => simp [Functor.map, Except.map]

@[simp] theorem pure_eq_ok (a b : α) : (pure a : Except ε α) = .ok b ↔ a = b := by
  simp [pure, Except.pure]

@[simp] theorem throw_ne_ok (e : ε) (b : α) : (throw e : Except ε α) = .ok b ↔ False := by
  simp [throw, throwThe, MonadExceptOf.throw]

@[simp] theorem ok_bind (a : α) (f : α → Except ε β) : (Except.ok a >>= f) = f a := rfl

@[simp] theorem error_bind (e : ε) (f : α → Except ε β) : ((Except.error e : Except ε α) >>= f) = .error e := rfl

/-- A step that cannot raise does not change whether a computation returns. -/
theorem returns_bind_ok (x : Except ε α) (f : α → β) : (∃ b, (x >>= fun a => .ok (f a)) = .ok b) ↔ ∃ a, x = .ok a := by
  cases x with
  | error e => simp
  | ok a => simp

@[simp] theorem map_ok (f : α → β) (a : α) : (f <$> (Except.ok a : Except ε α)) = .ok (f a) := rfl

@[simp] theorem map_error (f : α → β) (e : ε) : (f <$> (Except.error e : Except ε α)) = .error e := rfl

/-- A fold over a list and one more element. -/
theorem foldlM_snoc (f : β → α → Except ε β) (b : β) (l : List α) (a : α) :
    (l ++ [a]).foldlM f b = l.foldlM f b >>= fun b' => f b' a := by
  rw [List.foldlM_append]
  simp only [List.foldlM_cons, List.foldlM_nil]
  congr 1
  funext b'
  cases f b' a <;> rfl

theorem mapM_cons_eq_ok (f : α → Except ε β) (a : α) (l : List α) (bs : List β) :
    (a :: l).mapM f = .ok bs ↔ ∃ b bs', f a = .ok b ∧ l.mapM f = .ok bs' ∧ bs = b :: bs' := by
  rw [List.mapM_cons]
  constructor
  · intro h
    obtain ⟨b, hb, h⟩ := (bind_eq_ok _ _ _).1 h
    obtain ⟨bs', hbs, h⟩ := (bind_eq_ok _ _ _).1 h
    exact ⟨b, bs', hb, hbs, ((pure_eq_ok _ _).1 h).symm⟩
  · rintro ⟨b, bs', hb, hbs, rfl⟩
    rw [hb, ok_bind, hbs, ok_bind]
    rfl

theorem exists_mapM_eq_ok {f : α → Except ε β} : ∀ {l : List α}, (∀ a ∈ l, ∃ b, f a = .ok b) → ∃ bs, l.mapM f = .ok bs
  | [], _ => ⟨[], rfl⟩
  | a :: l, h => by
    obtain ⟨b, hb⟩ := h a List.mem_cons_self
    obtain ⟨bs, hbs⟩ := exists_mapM_eq_ok (fun x hx => h x (List.mem_cons_of_mem _ hx))
    exact ⟨b :: bs, (mapM_cons_eq_ok f a l _).2 ⟨b, bs, hb, hbs, rfl⟩⟩

/-- Every element has its result. -/
theorem result_of_mapM_eq_ok {f : α → Except ε β} {a : α} : ∀ {l : List α} {bs : List β}, l.mapM f = .ok bs → a ∈ l →
    ∃ b ∈ bs, f a = .ok b
  | [], _, _, ha => by cases ha
  | x :: l, bs, h, ha => by
    obtain ⟨b, bs', hb, hbs, rfl⟩ := (mapM_cons_eq_ok f x l bs).1 h
    rcases List.mem_cons.1 ha with rfl | ha
    · exact ⟨b, List.mem_cons_self, hb⟩
    · obtain ⟨b', hb', hf⟩ := result_of_mapM_eq_ok hbs ha
      exact ⟨b', List.mem_cons_of_mem _ hb', hf⟩

theorem mem_of_mapM_eq_ok {f : α → Except ε β} {b : β} : ∀ {l : List α} {bs : List β}, l.mapM f = .ok bs →
    (b ∈ bs ↔ ∃ a ∈ l, f a = .ok b)
  | [], bs, h => by
    rw [List.mapM_nil, pure_eq_ok] at h
    rw [← h]
    simp
  | a :: l, bs, h => by
    obtain ⟨b', bs', hb, hbs, rfl⟩ := (mapM_cons_eq_ok f a l bs).1 h
    rw [List.mem_cons, mem_of_mapM_eq_ok hbs, List.exists_mem_cons_iff, hb, Except.ok.injEq, eq_comm]

theorem forall₂_of_mapM_eq_ok {f : α → Except ε β} : ∀ {l : List α} {bs : List β}, l.mapM f = .ok bs →
    List.Forall₂ (fun a b => f a = .ok b) l bs
  | [], bs, h => by
    rw [List.mapM_nil, pure_eq_ok] at h
    exact h ▸ .nil
  | a :: l, bs, h => by
    obtain ⟨b, bs', hb, hbs, rfl⟩ := (mapM_cons_eq_ok f a l bs).1 h
    exact .cons hb (forall₂_of_mapM_eq_ok hbs)

/-- What a result tells of its element. -/
theorem map_of_mapM_eq_ok {f : α → Except ε β} {g : β → γ} {k : α → γ} (hf : ∀ a b, f a = .ok b → g b = k a) :
    ∀ {l : List α} {bs : List β}, l.mapM f = .ok bs → bs.map g = l.map k
  | [], bs, h => by
    rw [List.mapM_nil, pure_eq_ok] at h
    rw [← h]
    rfl
  | a :: l, bs, h => by
    obtain ⟨b, bs', hb, hbs, rfl⟩ := (mapM_cons_eq_ok f a l bs).1 h
    rw [List.map_cons, List.map_cons, hf a b hb, map_of_mapM_eq_ok hf hbs]

/-- What results hold together, where each holds what its element tells, in some order. -/
theorem flatMap_perm_of_mapM {f : α → Except ε β} {g : β → List γ} {k : α → List γ}
    (hf : ∀ a b, f a = .ok b → (g b).Perm (k a)) :
    ∀ {l : List α} {bs : List β}, l.mapM f = .ok bs → (bs.flatMap g).Perm (l.flatMap k)
  | [], bs, h => by
    rw [List.mapM_nil, pure_eq_ok] at h
    rw [← h]
    exact .refl _
  | a :: l, bs, h => by
    obtain ⟨b, bs', hb, hbs, rfl⟩ := (mapM_cons_eq_ok f a l bs).1 h
    rw [List.flatMap_cons, List.flatMap_cons]
    exact (hf a b hb).append (flatMap_perm_of_mapM hf hbs)

/-- **A map that may raise succeeds when every element does**, with their results in order. -/
theorem mapM_eq_ok_iff {f : α → Except ε β} {g : α → β} :
    ∀ {l : List α} {bs : List β}, (∀ a ∈ l, ∀ b, f a = .ok b → b = g a) →
      (l.mapM f = .ok bs ↔ (∀ a ∈ l, f a = .ok (g a)) ∧ bs = l.map g)
  | [], bs, _ => by
    rw [List.mapM_nil, pure_eq_ok, eq_comm]
    simp
  | a :: l, bs, hg => by
    have ih (bs : List β) : l.mapM f = .ok bs ↔ (∀ a ∈ l, f a = .ok (g a)) ∧ bs = l.map g :=
      mapM_eq_ok_iff (fun x hx => hg x (List.mem_cons_of_mem _ hx))
    rw [mapM_cons_eq_ok, List.forall_mem_cons, List.map_cons]
    constructor
    · rintro ⟨b, bs', hb, hbs, rfl⟩
      obtain ⟨hl, rfl⟩ := (ih bs').1 hbs
      obtain rfl := hg a List.mem_cons_self b hb
      exact ⟨⟨hb, hl⟩, rfl⟩
    · rintro ⟨⟨ha, hl⟩, rfl⟩
      exact ⟨_, _, ha, (ih _).2 ⟨hl, rfl⟩, rfl⟩

/-- Two maps in a row, the second over the elements beside the first one's results. -/
theorem mapM_zip_eq_ok {f : α → Except ε β} {g : α × β → Except ε γ} : ∀ {l : List α} {cs : List γ},
    (∃ bs, l.mapM f = .ok bs ∧ (l.zip bs).mapM g = .ok cs) ↔
      List.Forall₂ (fun a c => ∃ b, f a = .ok b ∧ g (a, b) = .ok c) l cs
  | [], cs => by
    simp only [List.mapM_nil, pure_eq_ok, List.zip_nil_left, List.forall₂_nil_left_iff]
    exact ⟨fun ⟨_, _, h⟩ => h.symm, fun h => ⟨[], rfl, h.symm⟩⟩
  | a :: l, cs => by
    constructor
    · rintro ⟨bs, hbs, hcs⟩
      obtain ⟨b, bs', hb, hbs', rfl⟩ := (mapM_cons_eq_ok f a l bs).1 hbs
      obtain ⟨c, cs', hc, hcs', rfl⟩ := (mapM_cons_eq_ok g (a, b) _ cs).1 hcs
      exact .cons ⟨b, hb, hc⟩ (mapM_zip_eq_ok.1 ⟨bs', hbs', hcs'⟩)
    · rintro (_ | ⟨⟨b, hb, hc⟩, hl⟩)
      obtain ⟨bs, hbs, hcs⟩ := mapM_zip_eq_ok.2 hl
      exact ⟨b :: bs, (mapM_cons_eq_ok f a l _).2 ⟨b, bs, hb, hbs, rfl⟩,
        (mapM_cons_eq_ok g (a, b) _ _).2 ⟨_, _, hc, hcs, rfl⟩⟩

/-- A loop of checks passes when every check does. -/
theorem forM_eq_ok {f : α → Except ε Unit} : ∀ {l : List α}, l.forM f = .ok () ↔ ∀ a ∈ l, f a = .ok ()
  | [] => by simp [List.forM]
  | a :: l => by
    rw [List.forM, List.forall_mem_cons, ← forM_eq_ok (l := l)]
    exact (bind_eq_ok _ _ _).trans ⟨fun ⟨_, ha, hl⟩ => ⟨ha, hl⟩, fun ⟨ha, hl⟩ => ⟨(), ha, hl⟩⟩

/-! ## Results of one list beside each other -/

section

variable {R : α → β → Prop} {S : α → γ → Prop} {T : β → γ → Prop}

theorem forall₂_beside (h : ∀ a b c, R a b → S a c → T b c) : ∀ {l : List α} {bs : List β} {cs : List γ},
    List.Forall₂ R l bs → List.Forall₂ S l cs → List.Forall₂ T bs cs
  | _, _, _, .nil, .nil => .nil
  | _, _, _, .cons hb hbs, .cons hc hcs => .cons (h _ _ _ hb hc) (forall₂_beside h hbs hcs)

theorem exists_forall₂_beside (h : ∀ a b, R a b → ∃ c, S a c ∧ T b c) : ∀ {l : List α} {bs : List β},
    List.Forall₂ R l bs → ∃ cs, List.Forall₂ S l cs ∧ List.Forall₂ T bs cs
  | _, _, .nil => ⟨[], .nil, .nil⟩
  | _, _, .cons hb hbs => by
    obtain ⟨c, hs, ht⟩ := h _ _ hb
    obtain ⟨cs, hss, hts⟩ := exists_forall₂_beside h hbs
    exact ⟨c :: cs, .cons hs hss, .cons ht hts⟩

end

end Exc
