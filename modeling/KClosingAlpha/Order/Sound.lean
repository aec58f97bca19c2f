import KClosingAlpha.Order.View
/-!
# Sound — journals the reader accepts and every intent of which derives

The reader's checks of a whole file come down to one check of its last record (`checkRecords_snoc`), and the states of
a sound journal to one view an intent (`states_eq`), so that an append changes the view of its own intent by one `push`
and no other.
-/
namespace Order

open Py (Value Dict)
open Exc (raiseIf)

/-! ## The events of one intent -/

def view (j : Journal) (id : String) : View := viewOf (eventsOf j id)

abbrev stateOf (j : Journal) (id : String) : IntentState := (view j id).state

@[simp] theorem eventsOf_nil (id : String) : eventsOf [] id = [] := rfl

@[simp] theorem eventsOf_snoc (j : Journal) (e : JournalEvent) (id : String) :
    eventsOf (j ++ [e]) id = if e.intentId = id then eventsOf j id ++ [e] else eventsOf j id := by
  unfold eventsOf
  rw [List.filter_append]
  by_cases h : e.intentId = id <;> simp [h]

theorem mem_eventsOf {j : Journal} {id : String} {e : JournalEvent} :
    e ∈ eventsOf j id ↔ e ∈ j ∧ e.intentId = id := by
  simp [eventsOf, List.mem_filter]

theorem view_snoc (j : Journal) (e : JournalEvent) (id : String) :
    view (j ++ [e]) id = if e.intentId = id then (view j id).push e else view j id := by
  unfold view
  rw [eventsOf_snoc]
  by_cases h : e.intentId = id <;> simp [h]

@[simp] theorem view_snoc_self (j : Journal) (e : JournalEvent) :
    view (j ++ [e]) e.intentId = (view j e.intentId).push e := by
  rw [view_snoc, if_pos rfl]

theorem view_snoc_of_ne {j : Journal} {e : JournalEvent} {id : String} (h : e.intentId ≠ id) :
    view (j ++ [e]) id = view j id := by
  rw [view_snoc, if_neg h]

theorem mem_idsOf {id : String} : ∀ {j : Journal}, id ∈ idsOf j ↔ ∃ e ∈ j, e.intentId = id
  | [] => by simp [idsOf]
  | e :: j => by
    rw [idsOf, List.mem_cons, List.mem_filter, mem_idsOf (j := j)]
    by_cases h : id = e.intentId
    · simp [h]
    · simp [h, Ne.symm h]

theorem mem_idsOf_iff_ne_nil {j : Journal} {id : String} : id ∈ idsOf j ↔ eventsOf j id ≠ [] := by
  rw [mem_idsOf, ne_eq, List.eq_nil_iff_forall_not_mem]
  simp only [mem_eventsOf, not_and, not_forall, not_not, exists_prop]

theorem idsOf_nodup : ∀ (j : Journal), (idsOf j).Nodup
  | [] => by simp [idsOf]
  | e :: j => by
    rw [idsOf, List.nodup_cons]
    exact ⟨by simp [List.mem_filter], (idsOf_nodup j).filter _⟩

theorem idsOf_snoc : ∀ (j : Journal) (e : JournalEvent),
    idsOf (j ++ [e]) = if e.intentId ∈ idsOf j then idsOf j else idsOf j ++ [e.intentId]
  | [], e => by simp [idsOf]
  | a :: j, e => by
    rw [List.cons_append, idsOf, idsOf, idsOf_snoc j e]
    by_cases ha : e.intentId = a.intentId
    · by_cases hj : e.intentId ∈ idsOf j
      · rw [if_pos hj, if_pos (by simp [ha])]
      · rw [if_neg hj, if_pos (by simp [ha]), List.filter_append]
        simp [ha]
    · by_cases hj : e.intentId ∈ idsOf j
      · simp [hj, ha, List.mem_filter]
      · simp [hj, ha, List.filter_append, List.mem_filter]

theorem mem_idsOf_snoc {j : Journal} {e : JournalEvent} {id : String} :
    id ∈ idsOf (j ++ [e]) ↔ id ∈ idsOf j ∨ id = e.intentId := by
  simp only [mem_idsOf, List.mem_append, List.mem_singleton]
  constructor
  · rintro ⟨x, hx | rfl, rfl⟩
    · exact .inl ⟨x, hx, rfl⟩
    · exact .inr rfl
  · rintro (⟨x, hx, rfl⟩ | rfl)
    · exact ⟨x, .inl hx, rfl⟩
    · exact ⟨e, .inr rfl, rfl⟩

theorem view_of_not_mem {j : Journal} {id : String} (h : id ∉ idsOf j) : view j id = View.start := by
  rw [mem_idsOf_iff_ne_nil, not_not] at h
  rw [view, h]
  rfl

/-! ## The reader, one record at a time -/

/-- An event that may come first of its intent. -/
def opens (e : JournalEvent) : Bool := e.kind == .intent || e.kind == .skip

/-- A record the reader accepts after the records `j`. -/
structure RecordOk (j : Journal) (e : JournalEvent) : Prop where
  seqPos : 0 < e.seq
  seqLt : ∀ x, j.getLast? = some x → x.seq < e.seq
  tsText : Py.isBlank e.ts = false
  idNe : e.intentId ≠ ""
  runNe : e.runId ≠ ""
  storable : e.payload.all isStorable = true
  newIntent : e.kind = .intent → ∀ x ∈ j, x.kind = .intent → x.intentId ≠ e.intentId
  opened : opens e = false → ∃ x ∈ j, opens x = true ∧ x.intentId = e.intentId

/-- What the reader remembers of the records `j`. -/
structure Remembers (j : Journal) (seen : Seen) : Prop where
  prevSeq : seen.prevSeq = j.getLast?.map (·.seq)
  intents : ∀ id, id ∈ seen.intents ↔ ∃ x ∈ j, x.kind = .intent ∧ x.intentId = id
  ids : ∀ id, id ∈ seen.ids ↔ ∃ x ∈ j, opens x = true ∧ x.intentId = id

theorem remembers_nil : Remembers [] Seen.start := ⟨rfl, by simp [Seen.start], by simp [Seen.start]⟩

theorem exists_mem_snoc {j : Journal} {e : JournalEvent} {p : JournalEvent → Prop} :
    (∃ x ∈ j ++ [e], p x) ↔ (∃ x ∈ j, p x) ∨ p e := by
  simp only [List.mem_append, List.mem_singleton, or_and_right, exists_or, exists_eq_left]

/-- The reader's step: the checks are `RecordOk`, and it remembers the record. -/
theorem checkRecord_ok {j : Journal} {seen : Seen} (hr : Remembers j seen) (e : JournalEvent) (seen' : Seen)
    (h : checkRecord seen e = .ok seen') : RecordOk j e ∧ Remembers (j ++ [e]) seen' := by
  unfold checkRecord at h
  simp only [Exc.bind_eq_ok, Exc.raiseIf_eq_ok] at h
  obtain ⟨_, h1, _, h2, _, h3, _, h4, _, h5, _, h6, h⟩ := h
  have hlt : ∀ x, j.getLast? = some x → x.seq < e.seq := by
    intro x hx
    rw [hr.prevSeq, hx] at h2
    simpa using h2
  by_cases hi : e.kind = .intent
  · rw [if_pos hi, Exc.bind_eq_ok] at h
    obtain ⟨_, h7, h⟩ := h
    simp only [Exc.raiseIf_eq_ok, List.contains_iff_mem, hr.intents] at h7
    rw [Exc.pure_eq_ok] at h
    subst h
    refine ⟨⟨by omega, hlt, by simpa using h3, h4, h5, by simpa using h6, fun _ x hx hk he => h7 ⟨x, hx, hk, he⟩,
      fun ho => by simp [opens, hi] at ho⟩, by simp, fun id => ?_, fun id => ?_⟩
    · rw [exists_mem_snoc, List.mem_cons, hr.intents]
      simp only [hi, true_and, eq_comm, or_comm]
    · rw [exists_mem_snoc, List.mem_cons, hr.ids]
      simp only [opens, hi, beq_self_eq_true, Bool.true_or, true_and, eq_comm, or_comm]
  · rw [if_neg hi] at h
    by_cases hs : e.kind = .skip
    · rw [if_pos hs, Exc.pure_eq_ok] at h
      subst h
      refine ⟨⟨by omega, hlt, by simpa using h3, h4, h5, by simpa using h6, fun hk => absurd hk hi,
        fun ho => by simp [opens, hs] at ho⟩, by simp, fun id => ?_, fun id => ?_⟩
      · rw [exists_mem_snoc, hr.intents]
        simp only [hi, false_and, or_false]
      · rw [exists_mem_snoc, List.mem_cons, hr.ids]
        simp only [opens, hs, beq_self_eq_true, Bool.or_true, true_and, eq_comm, or_comm]
    · rw [if_neg hs, Exc.bind_eq_ok] at h
      obtain ⟨_, h7, h⟩ := h
      simp only [Exc.raiseIf_eq_ok, Bool.not_eq_false, List.contains_iff_mem, hr.ids] at h7
      rw [Exc.pure_eq_ok] at h
      subst h
      have ho : opens e = false := by simp [opens, hi, hs]
      refine ⟨⟨by omega, hlt, by simpa using h3, h4, h5, by simpa using h6, fun hk => absurd hk hi,
        fun _ => h7⟩, by simp, fun id => ?_, fun id => ?_⟩
      · rw [exists_mem_snoc, hr.intents]
        simp only [hi, false_and, or_false]
      · rw [exists_mem_snoc, hr.ids]
        simp only [ho, Bool.false_eq_true, false_and, or_false]

theorem checkRecord_of_recordOk {j : Journal} {seen : Seen} (hr : Remembers j seen) {e : JournalEvent}
    (h : RecordOk j e) : ∃ seen', checkRecord seen e = .ok seen' := by
  have h2 : seen.prevSeq.any (fun p => decide (e.seq ≤ p)) = false := by
    rw [hr.prevSeq]
    cases hx : j.getLast? with
    | none => rfl
    | some x =>
      have := h.seqLt x hx
      simpa using this
  unfold checkRecord
  simp only [Exc.bind_eq_ok, Exc.raiseIf_eq_ok]
  by_cases hi : e.kind = .intent
  · have h7 : e.intentId ∉ seen.intents := by
      rw [hr.intents]
      rintro ⟨x, hx, hk, he⟩
      exact h.newIntent hi x hx hk he
    exact ⟨_, (), by have := h.seqPos; omega, (), by simp [h2], (), by simp [h.tsText], (), h.idNe, (), h.runNe, (),
      by simp [h.storable], by rw [if_pos hi]; simp [h7]; rfl⟩
  · by_cases hs : e.kind = .skip
    · exact ⟨_, (), by have := h.seqPos; omega, (), by simp [h2], (), by simp [h.tsText], (), h.idNe, (), h.runNe, (),
        by simp [h.storable], by rw [if_neg hi, if_pos hs]; rfl⟩
    · have h7 : e.intentId ∈ seen.ids := by
        rw [hr.ids]
        exact h.opened (by simp [opens, hi, hs])
      exact ⟨_, (), by have := h.seqPos; omega, (), by simp [h2], (), by simp [h.tsText], (), h.idNe, (), h.runNe, (),
        by simp [h.storable], by rw [if_neg hi, if_neg hs]; simp [h7]; rfl⟩

theorem checkRecords_remembers {j : Journal} {seen : Seen} (h : checkRecords j = .ok seen) : Remembers j seen := by
  induction j using List.reverseRecOn generalizing seen with
  | nil => cases h; exact remembers_nil
  | append_singleton j e ih =>
    rw [checkRecords, Exc.foldlM_snoc, Exc.bind_eq_ok] at h
    obtain ⟨s, hs, h⟩ := h
    exact (checkRecord_ok (ih hs) e seen h).2

/-- A journal the reader accepts. -/
def Loads (j : Journal) : Prop := ∃ seen, checkRecords j = .ok seen

theorem loads_nil : Loads [] := ⟨_, rfl⟩

/-- **The reader's checks of a journal are those of its last record and of the journal before.** -/
theorem loads_snoc {j : Journal} {e : JournalEvent} : Loads (j ++ [e]) ↔ Loads j ∧ RecordOk j e := by
  constructor
  · rintro ⟨seen, h⟩
    rw [checkRecords, Exc.foldlM_snoc, Exc.bind_eq_ok] at h
    obtain ⟨s, hs, h⟩ := h
    exact ⟨⟨s, hs⟩, (checkRecord_ok (checkRecords_remembers hs) e seen h).1⟩
  · rintro ⟨⟨s, hs⟩, h⟩
    obtain ⟨seen, h'⟩ := checkRecord_of_recordOk (checkRecords_remembers hs) h
    refine ⟨seen, ?_⟩
    rw [checkRecords, Exc.foldlM_snoc, Exc.bind_eq_ok]
    exact ⟨s, hs, h'⟩

theorem load_eq_ok {j : Journal} {es : List JournalEvent} : load j = .ok es ↔ Loads j ∧ es = j := by
  unfold load Loads
  rw [Exc.map_eq_ok]
  constructor
  · rintro ⟨s, hs, rfl⟩; exact ⟨⟨s, hs⟩, rfl⟩
  · rintro ⟨⟨s, hs⟩, rfl⟩; exact ⟨s, hs, rfl⟩

theorem Loads.increasing {j : Journal} (h : Loads j) : Increasing j := by
  induction j using List.reverseRecOn with
  | nil => exact List.Pairwise.nil
  | append_singleton j e ih =>
    rw [loads_snoc] at h
    obtain ⟨hj, he⟩ := h
    have hinc := ih hj
    refine List.pairwise_append.2 ⟨hinc, List.pairwise_singleton _ _, fun x hx y hy => ?_⟩
    rw [List.mem_singleton.1 hy]
    rcases j.eq_nil_or_concat with rfl | ⟨t, z, rfl⟩
    · cases hx
    · rw [List.concat_eq_append] at hx hinc he
      have hz := he.seqLt z (by simp)
      rcases List.mem_append.1 hx with hx | hx
      · exact Nat.lt_trans (hinc.snoc.2 x hx) hz
      · rwa [List.mem_singleton.1 hx]

theorem Loads.lt_of_mem {j : Journal} {e x : JournalEvent} (h : Loads (j ++ [e])) (hx : x ∈ j) : x.seq < e.seq :=
  h.increasing.snoc.2 x hx

/-- The first event of an intent records or skips it. -/
theorem Loads.opened {j : Journal} (h : Loads j) {id : String} (hid : id ∈ idsOf j) :
    ∃ x ∈ j, opens x = true ∧ x.intentId = id := by
  induction j using List.reverseRecOn with
  | nil => simp [idsOf] at hid
  | append_singleton j e ih =>
    rw [loads_snoc] at h
    rw [exists_mem_snoc]
    rcases mem_idsOf_snoc.1 hid with hid | rfl
    · exact .inl (ih h.1 hid)
    · by_cases ho : opens e = true
      · exact .inr ⟨ho, rfl⟩
      · exact .inl (h.2.opened (by simpa using ho))

theorem eventsOf_increasing {j : Journal} (h : Increasing j) (id : String) : Increasing (eventsOf j id) := h.filter _

/-! ## States -/

/-- A journal that loads and every intent of which derives. -/
structure Sound (j : Journal) : Prop where
  loads : Loads j
  derives : ∀ id ∈ idsOf j, ∃ s, deriveIntentState (eventsOf j id) = .ok s

/-- The states of a sound journal. -/
def statesOf (j : Journal) : Dict IntentState := (idsOf j).map (fun id => (id, stateOf j id))

theorem Sound.derive_eq {j : Journal} (h : Sound j) {id : String} (hid : id ∈ idsOf j) :
    deriveIntentState (eventsOf j id) = .ok (stateOf j id) := by
  obtain ⟨s, hs⟩ := h.derives id hid
  rw [hs, ((deriveIntentState_eq (eventsOf_increasing h.loads.increasing id) s).1 hs).2.2.2]
  rfl

theorem sound_nil : Sound [] := ⟨loads_nil, by simp [idsOf]⟩

/-- **`states()` succeeds exactly on sound journals, with one view an intent.** -/
theorem states_eq_ok {j : Journal} {sts : Dict IntentState} : states j = .ok sts ↔ Sound j ∧ sts = statesOf j := by
  have hone (hl : Loads j) (id : String) (p : String × IntentState) :
      (do let s ← deriveIntentState (sortBySeq (eventsOf j id)); return (id, s)) = Except.ok p ↔
        deriveIntentState (eventsOf j id) = .ok p.2 ∧ p.1 = id := by
    rw [sortBySeq_of_increasing (eventsOf_increasing hl.increasing id), Exc.bind_eq_ok]
    simp only [Exc.pure_eq_ok]
    constructor
    · rintro ⟨s, hs, rfl⟩; exact ⟨hs, rfl⟩
    · rintro ⟨hs, rfl⟩; exact ⟨_, hs, rfl⟩
  unfold states
  simp only [Exc.bind_eq_ok, load_eq_ok]
  constructor
  · rintro ⟨es, ⟨hl, rfl⟩, h⟩
    have hg : ∀ id ∈ idsOf es, ∀ p, (do let s ← deriveIntentState (sortBySeq (eventsOf es id)); return (id, s)) =
        Except.ok p → p = (id, stateOf es id) := by
      intro id _ p hp
      obtain ⟨hd, hid⟩ := (hone hl id p).1 hp
      have := ((deriveIntentState_eq (eventsOf_increasing hl.increasing id) _).1 hd).2.2.2
      exact Prod.ext hid this
    obtain ⟨hall, rfl⟩ := (Exc.mapM_eq_ok_iff hg).1 h
    exact ⟨⟨hl, fun id hid => ⟨_, ((hone hl id _).1 (hall id hid)).1⟩⟩, rfl⟩
  · rintro ⟨hs, rfl⟩
    have hall : ∀ id ∈ idsOf j, (do let s ← deriveIntentState (sortBySeq (eventsOf j id)); return (id, s)) =
        Except.ok (id, stateOf j id) := fun id hid => (hone hs.loads id _).2 ⟨hs.derive_eq hid, rfl⟩
    refine ⟨j, ⟨hs.loads, rfl⟩, (Exc.mapM_eq_ok_iff (fun id hid p hp => ?_)).2 ⟨hall, rfl⟩⟩
    rw [hall id hid] at hp
    cases hp
    rfl

theorem lookup_map_of_mem {f : String → IntentState} {id : String} : ∀ {l : List String}, id ∈ l →
    (l.map (fun k => (k, f k))).lookup id = some (f id)
  | a :: l, h => by
    rw [List.map_cons, List.lookup_cons]
    by_cases ha : id = a
    · simp [ha]
    · rw [beq_false_of_ne ha]
      exact lookup_map_of_mem (List.mem_of_ne_of_mem ha h)

theorem lookup_map_of_not_mem {f : String → IntentState} {id : String} : ∀ {l : List String}, id ∉ l →
    (l.map (fun k => (k, f k))).lookup id = none
  | [], _ => rfl
  | a :: l, h => by
    rw [List.mem_cons, not_or] at h
    rw [List.map_cons, List.lookup_cons, beq_false_of_ne h.1]
    exact lookup_map_of_not_mem h.2

theorem statesOf_lookup {j : Journal} {id : String} :
    (statesOf j).lookup id = if id ∈ idsOf j then some (stateOf j id) else none := by
  by_cases h : id ∈ idsOf j
  · rw [if_pos h, statesOf, lookup_map_of_mem h]
  · rw [if_neg h, statesOf, lookup_map_of_not_mem h]

/-- `states().get(intent_id)`; nothing when the journal does not derive. -/
def derived (j : Journal) (id : String) : Option IntentState := (states j).toOption.bind (·.lookup id)

theorem derived_eq_some {j : Journal} {id : String} {s : IntentState} :
    derived j id = some s ↔ Sound j ∧ id ∈ idsOf j ∧ s = stateOf j id := by
  unfold derived
  constructor
  · intro h
    cases hs : states j with
    | error err => simp [hs, Except.toOption] at h
    | ok sts =>
      obtain ⟨hsound, rfl⟩ := states_eq_ok.1 hs
      simp only [hs, Except.toOption, Option.bind_some, statesOf_lookup] at h
      split_ifs at h with hid
      exact ⟨hsound, hid, (Option.some.inj h).symm⟩
  · rintro ⟨hsound, hid, rfl⟩
    rw [states_eq_ok.2 ⟨hsound, rfl⟩]
    simp only [Except.toOption, Option.bind_some, statesOf_lookup, if_pos hid]

/-! ## Appending -/

theorem append_eq_ok {j : Journal} {k : JournalEventKind} {id : String} {p : Payload} {run ts : String}
    {e : JournalEvent} : append j k id p run ts = .ok e ↔
      checkAppend j k id p run = .ok () ∧
        e = { seq := nextSeq j, ts, kind := k, intentId := id, runId := run, payload := p } := by
  unfold append
  rw [Exc.bind_eq_ok]
  constructor
  · rintro ⟨_, hc, h⟩
    rw [Exc.pure_eq_ok] at h
    exact ⟨hc, h.symm⟩
  · rintro ⟨hc, rfl⟩
    exact ⟨(), hc, rfl⟩

/-- The checks of `append`, one by one. -/
theorem checkAppend_eq_ok {j : Journal} {k : JournalEventKind} {id : String} {p : Payload} {run : String} :
    checkAppend j k id p run = .ok () ↔ Py.isBlank id = false ∧ Py.isBlank run = false ∧
      p.any (fun q => q.1 == "") = false ∧ p.all isStorable = true ∧ (k = .skip → isText (p.lookup "reason") = true) ∧
      (k = .intent → id ∉ intentIdsWithIntent j) ∧ Loads j := by
  unfold checkAppend
  simp only [Exc.bind_eq_ok, Exc.raiseIf_eq_ok, load_eq_ok, Bool.not_eq_true, Bool.not_eq_false, not_and,
    List.contains_iff_mem]
  constructor
  · rintro ⟨_, h1, _, h2, _, h3, _, h4, _, h5, _, h6, _, ⟨h7, _⟩, _⟩
    exact ⟨h1, h2, h3, h4, h5, fun hk => by simpa using h6 hk, h7⟩
  · rintro ⟨h1, h2, h3, h4, h5, h6, h7⟩
    exact ⟨(), h1, (), h2, (), h3, (), h4, (), h5, (), fun hk => by simpa using h6 hk, j, ⟨h7, rfl⟩, rfl⟩

theorem isBlank_false_ne {s : String} (h : Py.isBlank s = false) : s ≠ "" := by
  rintro rfl
  cases h

theorem seq_lt_nextSeq {j : Journal} {x : JournalEvent} (h : j.getLast? = some x) : x.seq < nextSeq j := by
  unfold nextSeq
  rw [h]
  exact Nat.lt_succ_self _

theorem nextSeq_pos (j : Journal) : 0 < nextSeq j := by
  unfold nextSeq
  cases j.getLast? <;> simp

/-- **What `append` writes, the reader accepts**, when the intent has been opened or the record opens it. -/
theorem append_loads {j : Journal} {k : JournalEventKind} {id : String} {p : Payload} {run ts : String}
    {e : JournalEvent} (h : append j k id p run ts = .ok e) (hts : Py.isBlank ts = false)
    (ho : opens e = true ∨ id ∈ idsOf j) : Loads (j ++ [e]) := by
  obtain ⟨hc, rfl⟩ := append_eq_ok.1 h
  obtain ⟨h1, h2, -, h4, -, h6, h7⟩ := checkAppend_eq_ok.1 hc
  refine loads_snoc.2 ⟨h7, nextSeq_pos j, fun x hx => seq_lt_nextSeq hx, hts, isBlank_false_ne h1, isBlank_false_ne h2, h4,
    fun hk x hx hxk hxe => h6 hk ?_, fun ho' => ?_⟩
  · exact List.mem_map.2 ⟨x, mem_ofKind.2 ⟨hx, hxk⟩, hxe⟩
  · rcases ho with ho | ho
    · rw [ho] at ho'; cases ho'
    · exact h7.opened ho

theorem Sound.snoc {j : Journal} {e : JournalEvent} (hs : Sound j) (hl : Loads (j ++ [e]))
    (hd : ∃ s, deriveIntentState (eventsOf j e.intentId ++ [e]) = .ok s) : Sound (j ++ [e]) := by
  refine ⟨hl, fun id hid => ?_⟩
  rw [eventsOf_snoc]
  by_cases he : e.intentId = id
  · rwa [if_pos he, ← he]
  · rw [if_neg he]
    exact hs.derives id ((mem_idsOf_snoc.1 hid).resolve_right (Ne.symm he))

theorem eventsOf_snoc_increasing {j : Journal} {e : JournalEvent} (hl : Loads (j ++ [e])) :
    Increasing (eventsOf j e.intentId ++ [e]) := by
  have := eventsOf_increasing hl.increasing e.intentId
  rwa [eventsOf_snoc, if_pos rfl] at this

/-- **An admitted event of a recorded intent keeps the journal sound.** -/
theorem Sound.snoc_admits {j : Journal} {e : JournalEvent} (hs : Sound j) (hl : Loads (j ++ [e]))
    (hid : e.intentId ∈ idsOf j) (hk : e.kind ≠ .intent) (had : (view j e.intentId).Admits e) : Sound (j ++ [e]) :=
  hs.snoc hl ⟨_, (deriveIntentState_snoc (eventsOf_snoc_increasing hl) (mem_idsOf_iff_ne_nil.1 hid) hk _).2
    ⟨hs.derives _ hid, had, rfl⟩⟩

/-- What a journal lost its soundness by. -/
theorem Sound.admits_of_snoc {j : Journal} {e : JournalEvent} (hs : Sound (j ++ [e])) (hid : e.intentId ∈ idsOf j)
    (hk : e.kind ≠ .intent) : (view j e.intentId).Admits e := by
  obtain ⟨s, h⟩ := hs.derives e.intentId (mem_idsOf_snoc.2 (.inr rfl))
  rw [eventsOf_snoc, if_pos rfl] at h
  exact ((deriveIntentState_snoc (eventsOf_snoc_increasing hs.loads) (mem_idsOf_iff_ne_nil.1 hid) hk s).1 h).2.1

theorem payload_lookup (i : OrderIntent) : fieldsOfPayload i.intentId (intentToPayload i) = some i.toIntentFields := by
  obtain ⟨⟨id, date, phase, symbol, side, type, qty, price, decision, parent⟩, hv⟩ := i
  cases price <;> cases parent <;>
    simp [fieldsOfPayload, intentToPayload, List.lookup, Py.Value.toStr, Py.Value.toInt, priceOfValue, parentOfValue]

/-- **An INTENT payload reads back as the intent it was written from.** -/
theorem intentFromPayload_intentToPayload (i : OrderIntent) :
    intentFromPayload i.intentId (intentToPayload i) = .ok i := by
  unfold intentFromPayload
  rw [payload_lookup i]
  simp only [OrderIntent.make_self]

theorem OrderIntent.make_eq_ok {f : IntentFields} {i : OrderIntent} (h : OrderIntent.make f = .ok i) :
    i.toIntentFields = f := by
  unfold OrderIntent.make at h
  split at h
  · cases h; rfl
  · cases h

theorem fieldsOfPayload_intentId {id : String} {p : Payload} {f : IntentFields} (h : fieldsOfPayload id p = some f) :
    f.intentId = id := by
  unfold fieldsOfPayload at h
  iterate 15 obtain ⟨_, -, h⟩ := Option.bind_eq_some_iff.1 h
  cases h
  rfl

/-- An intent carries the id its events were written under. -/
theorem view_intentId {j : Journal} {id : String} {i : OrderIntent} (h : (view j id).intent = some i) :
    i.intentId = id := by
  induction j using List.reverseRecOn with
  | nil => cases h
  | append_singleton j e ih =>
    rw [view_snoc] at h
    split_ifs at h with he
    · by_cases hk : e.kind = .intent
      · have h' : (intentFromPayload e.intentId e.payload).toOption = some i := by simpa [View.push, hk] using h
        unfold intentFromPayload at h'
        cases hf : fieldsOfPayload e.intentId e.payload with
        | none => simp [hf, Except.toOption] at h'
        | some f =>
          cases hm : OrderIntent.make f with
          | error _ => simp [hf, hm, Except.toOption] at h'
          | ok i' =>
            simp only [hf, hm, Except.toOption, Option.some.injEq] at h'
            rw [← h', show i'.intentId = f.intentId by rw [OrderIntent.make_eq_ok hm], fieldsOfPayload_intentId hf, he]
      · exact ih (by simpa [View.push, hk] using h)
    · exact ih h

/-- An intent's first record, an INTENT or a SKIP, derives. -/
theorem derive_single {e : JournalEvent}
    (h : (∃ i : OrderIntent, e.kind = .intent ∧ e.intentId = i.intentId ∧ e.payload = intentToPayload i) ∨
      e.kind = .skip) : ∃ s, deriveIntentState [e] = .ok s := by
  refine ⟨_, (deriveIntentState_eq (List.pairwise_singleton _ _) _).2 ⟨by simp, ⟨List.pairwise_singleton _ _, ?_, ?_, ?_,
    ?_, ?_⟩, ?_, rfl⟩⟩
  all_goals rcases h with ⟨i, hk, hid, hp⟩ | hk
  · simp [ofKind, hk]
  · simp [ofKind, hk]
  · simp [foldIntent, viewOf, View.push, hk, hid, hp, intentFromPayload_intentToPayload, Except.toOption]
  · simp [foldIntent, viewOf, View.push, hk, View.start]
  · simp [foldBaseline, viewOf, View.push, hk, View.start]
  · simp [foldBaseline, viewOf, View.push, hk, View.start]
  · simp [foldNumbers, viewOf, View.push, hk, View.start, binds, isVerdict, isAdoption]
  · simp [foldNumbers, viewOf, View.push, hk, View.start, binds, isVerdict, isAdoption]
  · simp [foldFills, viewOf, View.push, hk, View.start]
  · simp [foldFills, viewOf, View.push, hk, View.start]
  · simp [checkOperators, checkOperator, hk]
  · simp [checkOperators, checkOperator, hk]

end Order
