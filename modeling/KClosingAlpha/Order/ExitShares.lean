import KClosingAlpha.Order.ExitSession
import KClosingAlpha.Order.Plan
import Mathlib.Algebra.BigOperators.Group.Finset.Basic
/-!
# ExitShares — the quantities of a day's exits: per symbol within what may be sold, per lot what is left
-/
namespace Order

open Py (Value Dict)

/-! ## What is planned of a symbol -/

/-- The quantity of a symbol in a list of exits. -/
def plannedQty (intents : List OrderIntent) (symbol : String) : Int :=
  ((intents.filter (·.symbol == symbol)).map (·.qty)).sum

/-- The quantity of a symbol in a list of lots. -/
def heldQty (lots : List OpenLot) (symbol : String) : Int := ((lots.filter (·.symbol == symbol)).map (·.qty)).sum

section shares

variable {d symbol : String} {lots : List OpenLot}

theorem getD_set_self (dict : Dict Int) (k : String) (v : Int) : Dict.getD (Dict.set dict k v) k 0 = v := by
  rw [Dict.getD, Py.Dict.lookup_set_self]
  rfl

theorem getD_set_of_ne {k k' : String} (h : k' ≠ k) (dict : Dict Int) (v : Int) :
    Dict.getD (Dict.set dict k v) k' 0 = Dict.getD dict k' 0 := by
  rw [Dict.getD, Dict.getD, Py.Dict.lookup_set_of_ne h]

theorem heldQty_nonneg (h : ∀ l ∈ lots, 0 < l.qty) : 0 ≤ heldQty lots symbol := by
  refine List.sum_nonneg (fun x hx => ?_)
  obtain ⟨l, hl, rfl⟩ := List.mem_map.1 hx
  exact (h l (List.mem_filter.1 hl).1).le

/-- **Of each symbol the least of what may be sold and what is held is planned.** -/
theorem exitIntents_qty : ∀ {lots : List OpenLot} {sellable : Dict Int} {intents : List OrderIntent} {skips : List PlannedSkip},
    exitIntents d sellable lots = .ok (intents, skips) → (∀ l ∈ lots, 0 < l.qty) →
      0 ≤ Dict.getD sellable symbol 0 → plannedQty intents symbol = min (Dict.getD sellable symbol 0) (heldQty lots symbol)
  | [], _, intents, skips, h, _, hs => by
    cases h
    exact (min_eq_right hs).symm
  | lot :: lots, sellable, intents, skips, h, hpos, hs => by
    rw [exitIntents, Exc.bind_eq_ok] at h
    obtain ⟨⟨more, mskips⟩, hmore, h⟩ := h
    have hlot := hpos lot List.mem_cons_self
    have htail : ∀ l ∈ lots, 0 < l.qty := fun l hl => hpos l (List.mem_cons_of_mem _ hl)
    have hrest : 0 ≤ heldQty lots symbol := heldQty_nonneg htail
    -- the lots after this one, with what it leaves of its symbol
    have ih : ∀ {avail : Int}, Dict.getD (Dict.set sellable lot.symbol
        (Dict.getD sellable lot.symbol 0 - min lot.qty (Dict.getD sellable lot.symbol 0))) symbol 0 = avail →
        0 ≤ avail → plannedQty more symbol = min avail (heldQty lots symbol) := by
      rintro avail rfl h0
      exact exitIntents_qty hmore htail h0
    have hheld : heldQty (lot :: lots) symbol = (if lot.symbol = symbol then lot.qty else 0) + heldQty lots symbol := by
      unfold heldQty
      by_cases hsym : lot.symbol = symbol <;> simp [hsym]
    dsimp only at h
    by_cases hq : min lot.qty (Dict.getD sellable lot.symbol 0) ≤ 0
    · rw [if_pos hq] at h
      cases h
      by_cases hsym : lot.symbol = symbol
      · subst hsym
        rw [ih (getD_set_self _ _ _) (by omega), hheld, if_pos rfl]
        omega
      · rw [ih (getD_set_of_ne (Ne.symm hsym) _ _) hs, hheld, if_neg hsym, zero_add]
    · rw [if_neg hq] at h
      obtain ⟨x, hx, h⟩ := (Exc.bind_eq_ok _ _ _).1 h
      cases h
      have hf := OrderIntent.make_eq_ok hx
      have hplanned : plannedQty (x :: more) symbol = (if x.symbol = symbol then x.qty else 0) + plannedQty more symbol := by
        unfold plannedQty
        by_cases hsym : x.symbol = symbol <;> simp [hsym]
      have hxs : x.symbol = lot.symbol := by rw [hf]
      have hxq : x.qty = min lot.qty (Dict.getD sellable lot.symbol 0) := by rw [hf]
      rw [hplanned, hxs, hxq, hheld]
      by_cases hsym : lot.symbol = symbol
      · subst hsym
        rw [ih (getD_set_self _ _ _) (by omega), if_pos rfl, if_pos rfl]
        omega
      · rw [ih (getD_set_of_ne (Ne.symm hsym) _ _) hs, if_neg hsym, if_neg hsym, zero_add, zero_add]

/-- What the broker lets be sold of a symbol is what its last position of it says. -/
theorem sellableOf_nonneg {positions : List BrokerPosition} (h : ∀ p ∈ positions, 0 ≤ p.sellableQty) :
    0 ≤ Dict.getD (sellableOf positions) symbol 0 := by
  unfold sellableOf
  induction positions using List.reverseRecOn with
  | nil => exact Int.le_refl 0
  | append_singleton ps p ih =>
    rw [List.foldl_append, List.foldl_cons, List.foldl_nil]
    by_cases hsym : symbol = p.symbol
    · rw [hsym, getD_set_self]
      exact h p (by simp)
    · rw [getD_set_of_ne hsym]
      exact ih (fun q hq => h q (List.mem_append_left _ hq))

end shares

/-! ## Lots -/

/-- What an entry has bought less what its exits have sold. -/
def netQty (j : Journal) (id : String) : Int := (stateOf j id).filledQty - exitsByParent (statesOf j) id

/-- A lot of a journal: an entry with something left. -/
structure IsLot (j : Journal) (l : OpenLot) (i : OrderIntent) : Prop where
  intent : (view j l.entryIntentId).intent = some i
  entry : i.phase = .entry
  date : l.tradingDate = i.tradingDate
  qty : l.qty = netQty j l.entryIntentId
  pos : 0 < l.qty

/-- The lot of one state. -/
def lotOf (sold : String → Int) (p : String × IntentState) : Option OpenLot :=
  p.2.intent.bind (fun i =>
    if i.phase = .entry ∧ 0 < p.2.filledQty - sold p.1 then some ⟨p.1, i.symbol, i.tradingDate, p.2.filledQty - sold p.1⟩
    else none)

section lots

variable {j : Journal} {d : String} {lots : List OpenLot} {l : OpenLot} {sold : String → Int}

theorem lotOf_eq_some {p : String × IntentState} (h : lotOf sold p = some l) : ∃ i, p.2.intent = some i ∧ i.phase = .entry ∧
    0 < p.2.filledQty - sold p.1 ∧ l = ⟨p.1, i.symbol, i.tradingDate, p.2.filledQty - sold p.1⟩ := by
  obtain ⟨i, hi, h⟩ := Option.bind_eq_some_iff.1 h
  split_ifs at h with hlot
  cases h
  exact ⟨i, hi, hlot.1, hlot.2, rfl⟩

theorem lotFold_eq : ∀ {sts : Dict IntentState} {before lots : List OpenLot},
    sts.foldlM (lotStep sold) before = .ok lots → lots = before ++ sts.filterMap (lotOf sold)
  | [], before, lots, h => by
    cases h
    simp
  | p :: sts, before, lots, h => by
    rw [List.foldlM_cons, Exc.bind_eq_ok] at h
    obtain ⟨mid, hmid, h⟩ := h
    have hstep : mid = before ++ (lotOf sold p).toList := by
      unfold lotStep at hmid
      unfold lotOf
      cases hi : p.2.intent with
      | none =>
        rw [hi] at hmid
        cases hmid
        simp
      | some i =>
        rw [hi] at hmid
        simp only at hmid
        split_ifs at hmid with h1 h2 h3 <;> cases hmid <;> simp_all
    rw [lotFold_eq h, hstep, List.filterMap_cons]
    cases lotOf sold p <;> simp

theorem freshLots_perm (h : openLots j = .ok lots) : (freshLots d lots).Perm
    (((statesOf j).filterMap (lotOf (exitsByParent (statesOf j)))).filter (fun l => decide (l.tradingDate < d))) := by
  rw [openLots, Exc.bind_eq_ok] at h
  obtain ⟨sts, hsts, h⟩ := h
  obtain ⟨-, rfl⟩ := states_eq_ok.1 hsts
  obtain ⟨all, hall, h⟩ := (Exc.bind_eq_ok _ _ _).1 h
  cases h
  have heq := lotFold_eq hall
  rw [List.nil_append] at heq
  subst heq
  exact (List.perm_insertionSort _ _).trans ((List.perm_insertionSort _ _).filter _)

/-- **The lots an exit run may sell** are the entries of earlier dates with something left, each once. -/
theorem mem_freshLots (h : openLots j = .ok lots) (hl : l ∈ freshLots d lots) : l.tradingDate < d ∧ ∃ i, IsLot j l i := by
  obtain ⟨hl, hd⟩ := List.mem_filter.1 ((freshLots_perm h).mem_iff.1 hl)
  obtain ⟨p, hp, hlot⟩ := List.mem_filterMap.1 hl
  obtain ⟨id, -, rfl⟩ := List.mem_map.1 hp
  obtain ⟨i, hi, hentry, hpos, rfl⟩ := lotOf_eq_some hlot
  exact ⟨by simpa using hd, i, hi, hentry, rfl, rfl, hpos⟩

theorem lotOf_keys : ∀ sts : Dict IntentState,
    ((sts.filterMap (lotOf sold)).map (·.entryIntentId)).Sublist (sts.map (·.1))
  | [] => List.Sublist.refl _
  | p :: sts => by
    rw [List.filterMap_cons]
    cases hp : lotOf sold p with
    | none => exact (lotOf_keys sts).cons _
    | some l =>
      obtain ⟨i, -, -, -, rfl⟩ := lotOf_eq_some hp
      exact (lotOf_keys sts).cons_cons _

theorem freshLots_nodup (h : openLots j = .ok lots) : ((freshLots d lots).map (·.entryIntentId)).Nodup := by
  refine ((freshLots_perm h).map _).nodup_iff.2 (((List.filter_sublist.map _).trans (lotOf_keys _)).nodup ?_)
  rw [statesOf_keys]
  exact idsOf_nodup j

theorem exists_freshLot (h : openLots j = .ok lots) {id : String} {i : OrderIntent} (hi : (view j id).intent = some i)
    (hentry : i.phase = .entry) (hd : i.tradingDate < d) (hpos : 0 < netQty j id) :
    ∃ l ∈ freshLots d lots, l.entryIntentId = id := by
  refine ⟨⟨id, i.symbol, i.tradingDate, netQty j id⟩, (freshLots_perm h).mem_iff.2 ?_, rfl⟩
  refine List.mem_filter.2 ⟨List.mem_filterMap.2 ⟨(id, stateOf j id), ?_, ?_⟩, by simpa using hd⟩
  · exact List.mem_map.2 ⟨id, mem_idsOf_of_intent hi, rfl⟩
  · rw [lotOf, show (stateOf j id).intent = some i from hi, Option.bind_some, if_pos ⟨hentry, hpos⟩]
    rfl

end lots

/-! ## What the exits of a day take from a lot -/

def isExitOn (d parent : String) (i : OrderIntent) : Bool := isExitOf parent i && i.tradingDate == d

/-- The sum over the day's exits of a lot. -/
def totalOn (j : Journal) (d parent : String) (f : IntentState → Int) : Int :=
  total j (fun st => if st.intent.any (isExitOn d parent) then f st else 0)

/-- What the day's exits of a lot have acknowledged or filled. -/
def soldOn (j : Journal) (d parent : String) : Int := totalOn j d parent soldQty

/-- What the exits of other days have filled of a lot. -/
def filledOther (j : Journal) (d parent : String) : Int :=
  total j (fun st => if st.intent.any (fun i => isExitOf parent i && i.tradingDate != d) then st.filledQty else 0)

/-- Exits are named after their lots and dates. -/
def Named (j : Journal) : Prop := ∀ id i, (view j id).intent = some i → i.phase = .exit →
  id = exitIntentId (i.parentIntentId.getD "") i.tradingDate

section exits

variable {j : Journal} {d parent id : String} {i : OrderIntent} {f f' : IntentState → Int} {ids : List String}

theorem isExitOn_iff : isExitOn d parent i = true ↔ i.phase = .exit ∧ i.parentIntentId = some parent ∧ i.tradingDate = d := by
  simp [isExitOn, isExitOf, and_assoc]

theorem total_add (j : Journal) : total j (fun st => f st + f' st) = total j f + total j f' := List.sum_map_add

theorem total_single (hid : id ∈ idsOf j) (h : ∀ x, x ≠ id → f (stateOf j x) = 0) : total j f = f (stateOf j id) := by
  rw [total_split hid]
  have hothers : totalOthers j f id = 0 := by
    unfold totalOthers
    refine List.sum_eq_zero (fun y hy => ?_)
    obtain ⟨x, -, rfl⟩ := List.mem_map.1 hy
    split_ifs with hx
    · rfl
    · exact h x hx
  omega

theorem exitsByParent_split (j : Journal) (d parent : String) :
    exitsByParent (statesOf j) parent = totalOn j d parent (·.filledQty) + filledOther j d parent := by
  rw [exitsByParent_statesOf, totalOn, filledOther, ← total_add]
  refine congrArg List.sum (List.map_congr_left (fun x _ => ?_))
  unfold exitFilled isExitOn
  dsimp only
  cases (stateOf j x).intent with
  | none => rfl
  | some i =>
    by_cases hx : isExitOf parent i = true <;> by_cases hd : i.tradingDate = d <;> simp [hx, hd]

/-- **A lot has one exit a day**, the one of its name. -/
theorem Named.totalOn_eq (hn : Named j) (f : IntentState → Int) : totalOn j d parent f =
    if (stateOf j (exitIntentId parent d)).intent.any (isExitOn d parent) then f (stateOf j (exitIntentId parent d)) else 0 := by
  have hone : ∀ x, x ≠ exitIntentId parent d → (stateOf j x).intent.any (isExitOn d parent) = false := by
    intro x hx
    rw [Bool.eq_false_iff]
    intro hany
    obtain ⟨i, hi, hon⟩ := (Option.any_eq_true _ _).1 hany
    obtain ⟨hexit, hparent, hdate⟩ := isExitOn_iff.1 hon
    have hname := hn x i hi hexit
    rw [hparent, hdate] at hname
    exact hx hname
  by_cases hid : exitIntentId parent d ∈ idsOf j
  · exact total_single hid (fun x hx => by rw [hone x hx]; rfl)
  · have hstart : (stateOf j (exitIntentId parent d)).intent.any (isExitOn d parent) = false := by
      rw [stateOf, view_of_not_mem hid]
      rfl
    rw [hstart, totalOn]
    refine total_zero (fun x => ?_)
    by_cases hx : x = exitIntentId parent d
    · rw [hx, hstart]
      rfl
    · rw [hone x hx]
      rfl

theorem filledToday_eq (j : Journal) (d parent : String) :
    filledToday (statesOf j) (exitsOf (statesOf j) d) parent = totalOn j d parent (·.filledQty) := by
  unfold filledToday exitsOf totalOn total statesOf
  rw [List.filterMap_map, List.filter_filter, List.filter_filterMap, List.map_filterMap, sum_filterMap]
  refine congrArg List.sum (List.map_congr_left (fun x hx => ?_))
  simp only [Function.comp]
  cases hi : (stateOf j x).intent with
  | none => rfl
  | some i =>
    have hlookup : ((idsOf j).map (fun id => (id, stateOf j id))).lookup i.intentId = some (stateOf j x) := by
      rw [view_intentId hi]
      exact lookup_map_of_mem hx
    by_cases hon : isExitOn d parent i = true
    · obtain ⟨hexit, hparent, hdate⟩ := isExitOn_iff.1 hon
      simp [Option.filter, hon, hexit, hparent, hdate, hlookup]
    · have hno : ¬(i.parentIntentId = some parent ∧ i.phase = .exit ∧ i.tradingDate = d) :=
        fun h => hon (isExitOn_iff.2 ⟨h.2.1, h.1, h.2.2⟩)
      simp [Option.filter, hon, hno]

/-- The lot an id's exit is of. -/
def parentAt (sts : Dict IntentState) (id : String) : Option String :=
  ((sts.lookup id).bind (·.intent)).bind (·.parentIntentId)

theorem lookup_soldByParent {sts : Dict IntentState} : (soldByParent sts ids).lookup parent =
    ((ids.filter (fun id => parentAt sts id == some parent)).getLast?).map
      (fun id => ((sts.lookup id).map soldQty).getD 0) := by
  induction ids using List.reverseRecOn with
  | nil => rfl
  | append_singleton ids id ih =>
    unfold soldByParent at ih ⊢
    rw [List.foldl_append, List.foldl_cons, List.foldl_nil, List.filter_append]
    unfold parentAt at ih ⊢
    cases hst : sts.lookup id with
    | none => simpa [hst] using ih
    | some st =>
      cases hp : st.intent.bind (·.parentIntentId) with
      | none => simpa [hst, hp] using ih
      | some q =>
        by_cases hq : q = parent
        · subst hq
          simp [hst, hp, Py.Dict.lookup_set_self]
        · simpa [hst, hp, hq, Py.Dict.lookup_set_of_ne (Ne.symm hq)] using ih

theorem OrderIntent.exit_of_parent (i : OrderIntent) (h : i.parentIntentId = some parent) : i.phase = .exit := by
  have hcheck := i.valid_parts.2.2.2.2
  unfold IntentFields.checkPhase at hcheck
  cases hp : i.phase with
  | exit => rfl
  | entry =>
    simp only [hp, Exc.bind_eq_ok, Exc.raiseIf_eq_ok] at hcheck
    obtain ⟨-, -, -, hnone, -⟩ := hcheck
    simp [h] at hnone

/-- **What the report takes for sold of a lot is what the day's exit of it has acknowledged or filled**, when the ids it
goes through are exits of the day and that one is among them. -/
theorem getD_soldByParent (hn : Named j) (hday : ∀ id ∈ ids, ∀ i, (view j id).intent = some i →
    i.parentIntentId = some parent → i.tradingDate = d)
    (hin : ∀ i, (view j (exitIntentId parent d)).intent = some i → isExitOn d parent i = true →
      exitIntentId parent d ∈ ids) :
    Dict.getD (soldByParent (statesOf j) ids) parent 0 = soldOn j d parent := by
  have hparent : ∀ id, parentAt (statesOf j) id = some parent ↔
      ∃ i, (view j id).intent = some i ∧ i.parentIntentId = some parent := by
    intro id
    unfold parentAt
    rw [statesOf_lookup]
    split_ifs with hid
    · exact Option.bind_eq_some_iff
    · simp [view_of_not_mem hid, View.start]
  have hname : ∀ id ∈ ids.filter (fun id => parentAt (statesOf j) id == some parent), id = exitIntentId parent d ∧
      (stateOf j id).intent.any (isExitOn d parent) = true := by
    intro id hid
    obtain ⟨hid, hp⟩ := List.mem_filter.1 hid
    obtain ⟨i, hi, hip⟩ := (hparent id).1 (beq_iff_eq.1 hp)
    have hexit := i.exit_of_parent hip
    have hdate := hday id hid i hi hip
    refine ⟨by rw [hn id i hi hexit, hip, hdate, Option.getD_some], (Option.any_eq_true _ _).2 ⟨i, hi, ?_⟩⟩
    exact isExitOn_iff.2 ⟨hexit, hip, hdate⟩
  rw [Dict.getD, lookup_soldByParent, soldOn, hn.totalOn_eq]
  cases hlast : (ids.filter (fun id => parentAt (statesOf j) id == some parent)).getLast? with
  | none =>
    have hno : (stateOf j (exitIntentId parent d)).intent.any (isExitOn d parent) = false := by
      rw [Bool.eq_false_iff]
      intro hany
      obtain ⟨i, hi, hon⟩ := (Option.any_eq_true _ _).1 hany
      have hmem : exitIntentId parent d ∈ ids.filter (fun id => parentAt (statesOf j) id == some parent) :=
        List.mem_filter.2 ⟨hin i hi hon, beq_iff_eq.2 ((hparent _).2 ⟨i, hi, (isExitOn_iff.1 hon).2.1⟩)⟩
      rw [List.getLast?_eq_none_iff.1 hlast] at hmem
      cases hmem
    rw [hno]
    rfl
  | some id =>
    obtain ⟨rfl, hany⟩ := hname id (List.mem_of_getLast? hlast)
    have hmem : exitIntentId parent d ∈ idsOf j := by
      obtain ⟨i, hi, -⟩ := (Option.any_eq_true _ _).1 hany
      exact mem_idsOf_of_intent hi
    rw [if_pos hany, Option.map_some, statesOf_lookup, if_pos hmem]
    rfl

end exits

/-! ## From the plan to a later report -/

/-- A later journal of the same desk: recorded intents stay and fills grow. -/
structure Grown (j j' : Journal) : Prop where
  recorded : ∀ id ∈ idsOf j, id ∈ idsOf j'
  intent : ∀ id ∈ idsOf j, (view j' id).intent = (view j id).intent
  filled : ∀ id, (stateOf j id).filledQty ≤ (stateOf j' id).filledQty

/-- An entry of an earlier date, or an exit of another date. -/
def OrderIntent.isElsewhere (d : String) (i : OrderIntent) : Bool :=
  match i.phase with
  | .entry => decide (i.tradingDate < d)
  | .exit => i.tradingDate != d

/-- No entry of an earlier date has filled more, and no exit of another. -/
def OthersKept (d : String) (j j' : Journal) : Prop := ∀ id i, (view j' id).intent = some i → i.isElsewhere d = true →
  (stateOf j' id).filledQty = (stateOf j id).filledQty

theorem othersKept_iff {d : String} {j j' : Journal} : OthersKept d j j' ↔ ∀ id ∈ idsOf j',
    (view j' id).intent.all (fun i => !i.isElsewhere d || (stateOf j' id).filledQty == (stateOf j id).filledQty) = true := by
  simp only [Option.all_eq_true, Bool.or_eq_true, Bool.not_eq_true', beq_iff_eq]
  constructor
  · exact fun h id _ i hi => (Bool.eq_false_or_eq_true _).symm.imp_right (h id i hi)
  · exact fun h id i hi helse => (h id (mem_idsOf_of_intent hi) i hi).resolve_left (by simp [helse])

instance (d : String) (j j' : Journal) : Decidable (OthersKept d j j') := decidable_of_iff' _ othersKept_iff

/-- The day's exits are of these lots, and of no more than each has. -/
def Within (d : String) (lots : List OpenLot) (j : Journal) : Prop := ∀ id i, (view j id).intent = some i →
  i.phase = .exit → i.tradingDate = d → ∃ l ∈ lots, i.parentIntentId = some l.entryIntentId ∧ i.qty ≤ l.qty

/-- An entry's fills less those of its exits of other days. -/
def grossQty (j : Journal) (d id : String) : Int := (stateOf j id).filledQty - filledOther j d id

section later

variable {j j' j₀ : Journal} {d id : String} {i : OrderIntent} {lots lots₀ : List OpenLot} {f g : IntentState → Int}

theorem isElsewhere_exit {parent : String} (h : (isExitOf parent i && i.tradingDate != d) = true) :
    i.isElsewhere d = true := by
  simp only [isExitOf, Bool.and_eq_true, beq_iff_eq] at h
  rw [OrderIntent.isElsewhere, h.1.1]
  exact h.2

theorem isElsewhere_entry (h : i.phase = .entry) (hd : i.tradingDate < d) : i.isElsewhere d = true := by
  rw [OrderIntent.isElsewhere, h]
  exact decide_eq_true hd

theorem total_of_grown (hrec : ∀ id ∈ idsOf j, id ∈ idsOf j') (h0 : f View.start.state = 0)
    (h : ∀ id ∈ idsOf j', g (stateOf j' id) = f (stateOf j id)) : total j' g = total j f := by
  have hsum : ∀ {k : Journal} {v : IntentState → Int}, total k v = ∑ x ∈ (idsOf k).toFinset, v (stateOf k x) :=
    fun {k v} => (List.sum_toFinset _ (idsOf_nodup k)).symm
  rw [hsum, hsum]
  have hsub : (idsOf j).toFinset ⊆ (idsOf j').toFinset := fun x hx => by
    rw [List.mem_toFinset] at hx ⊢
    exact hrec x hx
  rw [Finset.sum_subset hsub (fun x _ hx => ?_)]
  · exact Finset.sum_congr rfl (fun x hx => h x (List.mem_toFinset.1 hx))
  · rw [stateOf, view_of_not_mem (fun hid => hx (List.mem_toFinset.2 hid)), h0]

theorem filledOther_kept (hg : Grown j j') (hs : OthersKept d j j') (parent : String) :
    filledOther j' d parent = filledOther j d parent := by
  refine total_of_grown hg.recorded rfl (fun x _ => ?_)
  by_cases hx : x ∈ idsOf j
  · have hintent : (stateOf j' x).intent = (stateOf j x).intent := hg.intent x hx
    rw [hintent]
    split_ifs with hany
    · obtain ⟨i, hi, hother⟩ := (Option.any_eq_true _ _).1 hany
      exact hs x i (hintent.trans hi) (isElsewhere_exit hother)
    · rfl
  · have hstart : stateOf j x = View.start.state := by rw [stateOf, view_of_not_mem hx]
    rw [hstart]
    change _ = (0 : Int)
    split_ifs with hany
    · obtain ⟨i, hi, hother⟩ := (Option.any_eq_true _ _).1 hany
      rw [hs x i hi (isElsewhere_exit hother), hstart]
      rfl
    · rfl

/-- **An entry keeps its gross quantity** while neither it nor an exit of another date fills. -/
theorem grossQty_kept (hg : Grown j j') (hs : OthersKept d j j') (hi : (view j' id).intent = some i)
    (hd : i.isElsewhere d = true) : grossQty j' d id = grossQty j d id := by
  rw [grossQty, grossQty, hs id i hi hd, filledOther_kept hg hs]

theorem netQty_eq (j : Journal) (d id : String) : netQty j id = grossQty j d id - totalOn j d id (·.filledQty) := by
  rw [netQty, exitsByParent_split j d, grossQty]
  omega

/-! ## What is left of the lots -/

/-- The quantities of lots less what the day's exits of them have acknowledged or filled. -/
def unsoldQty (d : String) (lots : List OpenLot) (j : Journal) : Int :=
  (lots.map (fun l => l.qty - soldOn j d l.entryIntentId)).sum

theorem soldQty_bounds (hfit : (view j id).Fits) (hi : (view j id).intent = some i) :
    0 ≤ (stateOf j id).filledQty ∧ (stateOf j id).filledQty ≤ soldQty (stateOf j id) ∧ soldQty (stateOf j id) ≤ i.qty := by
  have hle := filledQty_le hfit hi
  have hnonneg : 0 ≤ (stateOf j id).filledQty := by
    simp only [stateOf, View.state]
    cases hf : (view j id).fills with
    | none => exact Int.le_refl 0
    | some f => exact (hfit f hf).1
  have hqty : (stateOf j id).intent = some i := hi
  unfold soldQty
  rw [hqty, Option.elim_some]
  change (stateOf j id).filledQty ≤ i.qty at hle
  split_ifs <;> omega

theorem filledOther_nonneg (hfit : ∀ id, (view j id).Fits) (parent : String) : 0 ≤ filledOther j d parent := by
  refine List.sum_nonneg (fun y hy => ?_)
  obtain ⟨x, -, rfl⟩ := List.mem_map.1 hy
  dsimp only
  split_ifs with hany
  · obtain ⟨i, hi, -⟩ := (Option.any_eq_true _ _).1 hany
    exact (soldQty_bounds (hfit x) hi).1
  · exact Int.le_refl 0

theorem mem_exitsOf : i ∈ exitsOf (statesOf j) d ↔
    (view j i.intentId).intent = some i ∧ i.phase = .exit ∧ i.tradingDate = d := by
  unfold exitsOf statesOf
  simp only [List.mem_filter, List.mem_filterMap, List.mem_map, Bool.and_eq_true, beq_iff_eq]
  constructor
  · rintro ⟨⟨_, ⟨x, -, rfl⟩, hi⟩, hi'⟩
    obtain rfl := view_intentId hi
    exact ⟨hi, hi'⟩
  · rintro ⟨hi, hi'⟩
    exact ⟨⟨_, ⟨i.intentId, mem_idsOf_of_intent hi, rfl⟩, hi⟩, hi'⟩

theorem totalOn_eq_zero (h : exitsOf (statesOf j) d = []) (parent : String) (f : IntentState → Int) :
    totalOn j d parent f = 0 := by
  refine total_zero (fun x => if_neg (fun hany => ?_))
  obtain ⟨i, hi, hon⟩ := (Option.any_eq_true _ _).1 hany
  obtain ⟨hexit, -, hdate⟩ := isExitOn_iff.1 hon
  obtain rfl := view_intentId hi
  have hmem := mem_exitsOf.2 ⟨hi, hexit, hdate⟩
  rw [h] at hmem
  cases hmem

section lot

variable {l : OpenLot}

/-- The day's exit of a lot, if there is one, is within it. -/
theorem Within.exit_le (hw : Within d lots j) (hnd : (lots.map (·.entryIntentId)).Nodup) (hl : l ∈ lots)
    (hi : (view j id).intent = some i) (hon : isExitOn d l.entryIntentId i = true) : i.qty ≤ l.qty := by
  obtain ⟨hexit, hparent, hdate⟩ := isExitOn_iff.1 hon
  obtain ⟨l', hl', hparent', hle⟩ := hw id i hi hexit hdate
  rw [hparent, Option.some.injEq] at hparent'
  rwa [List.inj_on_of_nodup_map hnd hl hl' hparent']

theorem Within.soldOn_le (hn : Named j) (hfit : ∀ id, (view j id).Fits) (hw : Within d lots j)
    (hnd : (lots.map (·.entryIntentId)).Nodup) (hl : l ∈ lots) (hpos : 0 < l.qty) : soldOn j d l.entryIntentId ≤ l.qty := by
  rw [soldOn, hn.totalOn_eq]
  split_ifs with hany
  · obtain ⟨i, hi, hon⟩ := (Option.any_eq_true _ _).1 hany
    exact (soldQty_bounds (hfit _) hi).2.2.trans (hw.exit_le hnd hl hi hon)
  · exact hpos.le

/-- **A lot that has filled whole is sold whole**, then and later. -/
theorem Within.soldOn_eq (hn : Named j) (hn' : Named j') (hfit : ∀ id, (view j id).Fits)
    (hfit' : ∀ id, (view j' id).Fits) (hg : Grown j j') (hw : Within d lots j)
    (hnd : (lots.map (·.entryIntentId)).Nodup) (hl : l ∈ lots) (hpos : 0 < l.qty)
    (hfull : l.qty ≤ totalOn j d l.entryIntentId (·.filledQty)) : soldOn j' d l.entryIntentId = l.qty := by
  rw [hn.totalOn_eq] at hfull
  by_cases hany : (stateOf j (exitIntentId l.entryIntentId d)).intent.any (isExitOn d l.entryIntentId) = true
  · rw [if_pos hany] at hfull
    obtain ⟨i, hi, hon⟩ := (Option.any_eq_true _ _).1 hany
    have hle := hw.exit_le hnd hl hi hon
    have hsame := (hg.intent _ (mem_idsOf_of_intent hi)).trans hi
    have hbefore := soldQty_bounds (hfit _) hi
    have hafter := soldQty_bounds (hfit' _) hsame
    have hgrown := hg.filled (exitIntentId l.entryIntentId d)
    have hany' : (stateOf j' (exitIntentId l.entryIntentId d)).intent.any (isExitOn d l.entryIntentId) = true :=
      (Option.any_eq_true _ _).2 ⟨i, hsame, hon⟩
    rw [soldOn, hn'.totalOn_eq, if_pos hany']
    omega
  · rw [if_neg hany] at hfull
    omega

end lot

section rerun

variable {l : OpenLot}

theorem freshLot_prior (h : openLots j = .ok lots) (hl : l ∈ freshLots d lots) :
    ∃ i, IsLot j l i ∧ i.tradingDate < d ∧ i.isElsewhere d = true := by
  obtain ⟨hdate, i, hlot⟩ := mem_freshLots h hl
  rw [hlot.date] at hdate
  exact ⟨i, hlot, hdate, isElsewhere_entry hlot.entry hdate⟩

/-- A planned lot has its entry's gross quantity, then and later. -/
theorem planned_gross (h₀ : openLots j₀ = .ok lots₀) (hnone : exitsOf (statesOf j₀) d = []) (hg : Grown j₀ j)
    (hs : OthersKept d j₀ j) (hl : l ∈ freshLots d lots₀) : l.qty = grossQty j d l.entryIntentId := by
  obtain ⟨i, hlot, -, hd⟩ := freshLot_prior h₀ hl
  have hsame := (hg.intent _ (mem_idsOf_of_intent hlot.intent)).trans hlot.intent
  rw [hlot.qty, netQty_eq j₀ d, totalOn_eq_zero hnone, Int.sub_zero, grossQty_kept hg hs hsame hd]

/-- **A later lot is a planned one**, less what the day has filled of it. -/
theorem planned_lot (h₀ : openLots j₀ = .ok lots₀) (hnone : exitsOf (statesOf j₀) d = []) (hg : Grown j₀ j)
    (hs : OthersKept d j₀ j) (h : openLots j = .ok lots) (hn : Named j) (hfit : ∀ id, (view j id).Fits)
    (hl : l ∈ freshLots d lots) : ∃ l₀ ∈ freshLots d lots₀, l₀.entryIntentId = l.entryIntentId ∧ l.qty ≤ l₀.qty := by
  obtain ⟨i, hlot, hdate, hd⟩ := freshLot_prior h hl
  have hpos := hlot.pos
  have hfilled : 0 ≤ totalOn j d l.entryIntentId (·.filledQty) := by
    rw [hn.totalOn_eq]
    split_ifs with hany
    · obtain ⟨x, hx, -⟩ := (Option.any_eq_true _ _).1 hany
      exact (soldQty_bounds (hfit _) hx).1
    · exact Int.le_refl 0
  have hid : l.entryIntentId ∈ idsOf j₀ := by
    by_contra hnot
    have hstart : (stateOf j₀ l.entryIntentId).filledQty = 0 := by
      rw [stateOf, view_of_not_mem hnot]
      rfl
    rw [hlot.qty, netQty_eq j d, grossQty, hs _ i hlot.intent hd, hstart] at hpos
    have hother := filledOther_nonneg (d := d) hfit l.entryIntentId
    omega
  have hsame : (view j₀ l.entryIntentId).intent = some i := (hg.intent _ hid).symm.trans hlot.intent
  have hqty := hlot.qty
  rw [netQty_eq j d] at hqty
  have hnet : 0 < netQty j₀ l.entryIntentId := by
    rw [netQty_eq j₀ d, totalOn_eq_zero hnone, ← grossQty_kept hg hs hlot.intent hd]
    omega
  obtain ⟨l₀, hl₀, heq⟩ := exists_freshLot h₀ hsame hlot.entry hdate hnet
  refine ⟨l₀, hl₀, heq, ?_⟩
  rw [planned_gross h₀ hnone hg hs hl₀, heq]
  omega

/-- **The lots of a rerun, with what the day has filled added back, leave unsold what the planned ones do.** -/
theorem unsoldQty_rerun {k : Journal} (h₀ : openLots j₀ = .ok lots₀) (hnone : exitsOf (statesOf j₀) d = [])
    (hg₀ : Grown j₀ j) (hs : OthersKept d j₀ j) (h : openLots j = .ok lots) (hw : Within d (freshLots d lots₀) j)
    (hn : Named j) (hfit : ∀ id, (view j id).Fits) (hg : Grown j k) (hnk : Named k) (hfitk : ∀ id, (view k id).Fits) :
    ((freshLots d lots).map
        (fun l => l.qty + totalOn j d l.entryIntentId (·.filledQty) - soldOn k d l.entryIntentId)).sum =
      unsoldQty d (freshLots d lots₀) k := by
  have hnd₀ := freshLots_nodup (d := d) h₀
  have hsum : ∀ (ls : List OpenLot) (v : OpenLot → Int), (ls.map (·.entryIntentId)).Nodup →
      (∀ l ∈ ls, v l = grossQty j d l.entryIntentId - soldOn k d l.entryIntentId) →
      (ls.map v).sum = ∑ x ∈ (ls.map (·.entryIntentId)).toFinset, (grossQty j d x - soldOn k d x) := by
    intro ls v hls hv
    rw [List.sum_toFinset _ hls, List.map_map]
    exact congrArg List.sum (List.map_congr_left hv)
  rw [unsoldQty, hsum _ _ (freshLots_nodup h) (fun l hl => ?_),
    hsum _ _ hnd₀ (fun l hl => by rw [planned_gross h₀ hnone hg₀ hs hl])]
  · refine Finset.sum_subset (fun x hx => ?_) (fun x hx hgone => ?_)
    · obtain ⟨l, hl, rfl⟩ := List.mem_map.1 (List.mem_toFinset.1 hx)
      obtain ⟨l₀, hl₀, heq, -⟩ := planned_lot h₀ hnone hg₀ hs h hn hfit hl
      exact List.mem_toFinset.2 (List.mem_map.2 ⟨l₀, hl₀, heq⟩)
    · -- a lot that is gone has filled whole
      obtain ⟨l, hl, rfl⟩ := List.mem_map.1 (List.mem_toFinset.1 hx)
      obtain ⟨i, hlot, hdate, -⟩ := freshLot_prior h₀ hl
      have hqty := planned_gross h₀ hnone hg₀ hs hl
      have hsame := (hg₀.intent _ (mem_idsOf_of_intent hlot.intent)).trans hlot.intent
      have hnet : netQty j l.entryIntentId ≤ 0 := by
        by_contra hpos
        obtain ⟨l', hl', heq⟩ := exists_freshLot h hsame hlot.entry hdate (not_le.1 hpos)
        exact hgone (List.mem_toFinset.2 (List.mem_map.2 ⟨l', hl', heq⟩))
      rw [netQty_eq j d, ← hqty] at hnet
      rw [← hqty, hw.soldOn_eq hn hnk hfit hfitk hg hnd₀ hl hlot.pos (by omega), Int.sub_self]
  · obtain ⟨i, hlot, -⟩ := freshLot_prior h hl
    rw [hlot.qty, netQty_eq j d, Int.sub_add_cancel]

/-- What is left of lots is never negative. -/
theorem unsoldQty_nonneg (h₀ : openLots j₀ = .ok lots₀) (hw : Within d (freshLots d lots₀) j) (hn : Named j)
    (hfit : ∀ id, (view j id).Fits) : 0 ≤ unsoldQty d (freshLots d lots₀) j := by
  refine List.sum_nonneg (fun y hy => ?_)
  obtain ⟨l, hl, rfl⟩ := List.mem_map.1 hy
  obtain ⟨-, i, hlot⟩ := mem_freshLots h₀ hl
  have := hw.soldOn_le hn hfit (freshLots_nodup h₀) hl hlot.pos
  omega

end rerun

end later
end Order
