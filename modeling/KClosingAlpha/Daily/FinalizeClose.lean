import KClosingAlpha.Daily.CloseQuote
import Mathlib.Data.List.Induction
/-!
# FinalizeClose — the closing prices of a day are polled and stored (`daily/finalize_close.py`)

A run reads the latest row of each code of its date, asks for the quotes of those that are not confirmed round by round,
and writes all of them back when one is confirmed.  A round changes a row at most once, by a quote that confirms it
(`poll_rows`).  The evidence that is captured, the outcome that is recorded and the log lines are left out.
-/
namespace Archive

open Py
open Exc (raiseIf)

/-! ## Rounds -/

/-- What the vendor answers for a code: when it is asked, and the price and order book blocks; none where the request
raises. -/
structure Answer where
  tick : Clock
  quote : Option (Dict Value × Dict Value)

/-- A round of polling: when it begins, and the answers for the codes. -/
structure Round where
  now : Clock
  answer : String → Answer

/-- A run: its date, the codes that were picked, and the rounds until it ends or is cut. -/
structure Run where
  snap : String
  pickCodes : List String
  rounds : List Round

/-- A quote that was asked for in time. -/
structure Dispatched where
  code : String
  priceOutput : Dict Value
  bookOutput2 : Dict Value
  tick : Clock

/-- The rows of a run, and the codes that are pending. -/
structure Polling where
  rows : List (Row PyFloat)
  pending : List String
  nFinalized : Nat

/-- The rows of a round, and the codes that it has confirmed and dropped. -/
structure Settling where
  rows : List (Row PyFloat)
  confirmed : List String
  dropped : List String
  nFinalized : Nat

section

variable (rd : Reading) (pd : Pandas PyFloat)

/-- `str(row["종목코드"])`. -/
def Row.label (r : Row PyFloat) : String := r.code.str pd

/-- A cell of `astype("boolean")`. -/
def flag : Cell PyFloat → Except Raised (Option Bool)
  | .missing => .ok none
  | .int i => if i = 0 then .ok (some false) else if i = 1 then .ok (some true) else .error (.typeError "Need to pass bool-like values")
  | .float f =>
    if f.isNan then .ok none
    else if PyFloat.le f Reading.zero && PyFloat.le Reading.zero f then .ok (some false)
    else if f = .ofInt 1 then .ok (some true)
    else .error (.typeError "Need to pass bool-like values")
  | _ => .error (.typeError "Need to pass bool-like values")

/-- A row whose close is confirmed. -/
def Row.isConfirmed (r : Row PyFloat) : Bool :=
  match flag (r.values .closeConfirmed) with
  | .ok (some b) => b
  | _ => false

/-- `admitted.fillna(False).astype(bool)`. -/
def Row.isAdmitted (r : Row PyFloat) : Bool :=
  match r.values .admitted with
  | .missing => false
  | .int i => decide (i ≠ 0)
  | .float f => !f.isNan && !(PyFloat.le f Reading.zero && PyFloat.le Reading.zero f)
  | .text s => decide (s ≠ "")
  | .time _ => true

/-- Picks come first, then what is admitted, then the rest. -/
def tier (pickCodes : List String) (r : Row PyFloat) : Nat :=
  if r.label pd ∈ pickCodes then 0 else if r.isAdmitted then 1 else 2

def orderPendingByPriority (pending : List (Row PyFloat)) (pickCodes : List String) : List (Row PyFloat) :=
  pending.insertionSort (fun a b => tier pd pickCodes a ≤ tier pd pickCodes b)

/-- A request, unless it is past the deadline. -/
def dispatch (round : Round) (code : String) : Except Raised (Option Dispatched) :=
  if closingAuctionFinalizeDeadlineHhmmss < (round.answer code).tick.hhmmss then .ok none
  else match (round.answer code).quote with
    | none => .error .request
    | some (priceOutput, bookOutput2) => .ok (some ⟨code, priceOutput, bookOutput2, (round.answer code).tick⟩)

def putRow (code : String) (update : List (Col × Cell PyFloat)) (rows : List (Row PyFloat)) : List (Row PyFloat) :=
  rows.map (fun r => if r.label pd = code then r.put update else r)

/-- What a quote makes of its row; one that is inconsistent leaves it. -/
def settle (s : Settling) (d : Dispatched) : Except Raised Settling :=
  if isQuoteUnresolved rd d.priceOutput then .ok { s with dropped := s.dropped ++ [d.code] }
  else if !isCloseConfirmed rd d.priceOutput d.bookOutput2 d.tick then .ok s
  else match s.rows.find? (fun r => decide (r.label pd = d.code)) with
    | none => .error .keyError
    | some row =>
      match buildFinalizedRow rd pd row d.priceOutput d.tick with
      | .error (.valueError _) => .ok s
      | .error e => .error e
      | .ok update =>
        .ok { s with
          rows := putRow pd d.code update s.rows
          confirmed := s.confirmed ++ [d.code]
          nFinalized := s.nFinalized + 1 }

def pollRound (round : Round) (s : Polling) : Except Raised Polling := do
  let dispatched ← s.pending.mapM (dispatch round)
  let t ← (dispatched.filterMap id).foldlM (settle rd pd) ⟨s.rows, [], [], s.nFinalized⟩
  return ⟨t.rows, s.pending.filter (fun code => decide (code ∉ t.confirmed ∧ code ∉ t.dropped)), t.nFinalized⟩

/-- The rounds until nothing is pending or the deadline has passed; none where the run is cut before that. -/
def poll (snap : String) : List Round → Polling → Except Raised (Option Polling)
  | [], _ => .ok none
  | round :: rounds, s => do
    raiseIf (round.now.date ≠ snap)
      (.valueError ("close finalization is same-day only: snapshot_date=" ++ snap ++ " now=" ++ round.now.date))
    if closingAuctionFinalizeDeadlineHhmmss < round.now.hhmmss then return some s
    else
      let s' ← pollRound rd pd round s
      if s'.pending.isEmpty then return some s' else poll snap rounds s'

/-- The file after a run, and the number of closes that it confirmed. -/
def runCloseFinalization (A : File PyFloat) (run : Run) : Except Raised (Option (File PyFloat × Nat)) := do
  let df := fetchArchiveSnapshot pd A run.snap
  let _ ← df.mapM (fun r => flag (r.values .closeConfirmed))
  let pending := orderPendingByPriority pd (df.filter (fun r => !r.isConfirmed)) run.pickCodes
  let s ← poll rd pd run.snap run.rounds ⟨df, pending.map (Row.label pd), 0⟩
  return s.map (fun s =>
    (if 1 ≤ s.nFinalized then upsertArchiveSnapshot pd A ⟨true, true, s.rows⟩ run.snap else A, s.nFinalized))

/-- The file that a run leaves, also where it raises or is cut. -/
def afterRun (A : File PyFloat) (run : Run) : File PyFloat :=
  match runCloseFinalization rd pd A run with
  | .ok (some (A', _)) => A'
  | _ => A

end

/-! ## What a quote makes of the rows -/

variable {rd : Reading} {pd : Pandas PyFloat} {s t : Settling} {d : Dispatched} {ds : List Dispatched} {round : Round}

/-- A row that a quote has confirmed. -/
def Dispatched.Confirms (rd : Reading) (pd : Pandas PyFloat) (d : Dispatched) (r r' : Row PyFloat) : Prop :=
  r.label pd = d.code ∧ isCloseConfirmed rd d.priceOutput d.bookOutput2 d.tick = true ∧
    ∃ update, buildFinalizedRow rd pd r d.priceOutput d.tick = .ok update ∧ r' = r.put update

/-- **What a quote can do**: drop its code, nothing, or confirm its row. -/
theorem settle_cases (h : settle rd pd s d = .ok t) :
    t = { s with dropped := s.dropped ++ [d.code] } ∨ t = s ∨
      ∃ row ∈ s.rows, ∃ update, d.Confirms rd pd row (row.put update) ∧
        t = { s with
          rows := putRow pd d.code update s.rows
          confirmed := s.confirmed ++ [d.code]
          nFinalized := s.nFinalized + 1 } := by
  unfold settle at h
  split_ifs at h with hunresolved hgate
  · exact .inl (Except.ok.inj h).symm
  · exact .inr (.inl (Except.ok.inj h).symm)
  · cases hrow : s.rows.find? (fun r => decide (r.label pd = d.code)) with
    | none => simp [hrow] at h
    | some row =>
      have hlabel := List.find?_some hrow
      cases hbuild : buildFinalizedRow rd pd row d.priceOutput d.tick with
      | error e =>
        cases e <;> simp [hrow, hbuild] at h
        exact .inr (.inl h.symm)
      | ok update =>
        simp only [hrow, hbuild, Except.ok.injEq] at h
        exact .inr (.inr ⟨row, List.mem_of_find?_eq_some hrow, update,
          ⟨of_decide_eq_true hlabel, by simpa using hgate, update, hbuild, rfl⟩, h.symm⟩)

theorem label_put (r : Row PyFloat) (update : List (Col × Cell PyFloat)) : (r.put update).label pd = r.label pd := rfl

/-- What the quotes `ds` have made of the rows, each of its own. -/
structure Settled (rd : Reading) (pd : Pandas PyFloat) (rows : List (Row PyFloat)) (ds : List Dispatched) (t : Settling)
    (g : Row PyFloat → Row PyFloat) : Prop where
  rows_eq : t.rows = rows.map g
  label_eq : ∀ r, (g r).label pd = r.label pd
  cases : ∀ r ∈ rows, g r = r ∨ (r.label pd ∈ t.confirmed ∧ ∃ d ∈ ds, d.Confirms rd pd r (g r))
  confirmed : ∀ code ∈ t.confirmed, code ∈ ds.map Dispatched.code

variable {rows : List (Row PyFloat)} {g : Row PyFloat → Row PyFloat}

/-- **A quote keeps the rows that other quotes have made.** -/
theorem Settled.step (hn : (rows.map (Row.label pd)).Nodup) (h : Settled rd pd rows ds s g)
    (hnew : d.code ∉ ds.map Dispatched.code) (ht : settle rd pd s d = .ok t) :
    ∃ g', Settled rd pd rows (ds ++ [d]) t g' := by
  have hmono : ∀ r ∈ rows, g r = r ∨ (r.label pd ∈ s.confirmed ∧ ∃ d' ∈ ds ++ [d], d'.Confirms rd pd r (g r)) := by
    intro r hr
    refine (h.cases r hr).imp_right fun ⟨hmem, d', hd', hconfirms⟩ => ⟨hmem, d', List.mem_append_left _ hd', hconfirms⟩
  have hcodes : ∀ code ∈ s.confirmed, code ∈ (ds ++ [d]).map Dispatched.code := by
    intro code hcode
    rw [List.map_append]
    exact List.mem_append_left _ (h.confirmed code hcode)
  rcases settle_cases ht with rfl | rfl | ⟨row, hrow, update, hconfirms, rfl⟩
  · exact ⟨g, h.rows_eq, h.label_eq, hmono, hcodes⟩
  · exact ⟨g, h.rows_eq, h.label_eq, hmono, hcodes⟩
  · -- the row of the code is the one of the start, which no earlier quote has changed
    rw [h.rows_eq] at hrow
    obtain ⟨r₀, hr₀, rfl⟩ := List.mem_map.1 hrow
    have hlabel : r₀.label pd = d.code := (h.label_eq r₀).symm.trans hconfirms.1
    have hold : g r₀ = r₀ := (h.cases r₀ hr₀).resolve_right fun ⟨hmem, _⟩ => hnew (hlabel ▸ h.confirmed _ hmem)
    refine ⟨fun r => if (g r).label pd = d.code then (g r).put update else g r, ?_, fun r => ?_, fun r hr => ?_, ?_⟩
    · simp only [putRow, h.rows_eq, List.map_map]
      rfl
    · split_ifs
      · exact h.label_eq r
      · exact h.label_eq r
    · dsimp only
      rw [h.label_eq]
      split_ifs with hr'
      · have heq : r = r₀ := List.inj_on_of_nodup_map hn hr hr₀ (hr'.trans hlabel.symm)
        subst heq
        rw [hold] at hconfirms ⊢
        exact .inr ⟨hr' ▸ List.mem_append_right _ List.mem_cons_self, d, List.mem_append_right _ List.mem_cons_self, hconfirms⟩
      · exact (hmono r hr).imp_right fun ⟨hmem, hd⟩ => ⟨List.mem_append_left _ hmem, hd⟩
    · intro code hcode
      rcases List.mem_append.1 hcode with hcode | hcode
      · exact hcodes code hcode
      · rw [List.mem_singleton.1 hcode, List.map_append]
        exact List.mem_append_right _ List.mem_cons_self

/-- The quotes of a round, one a code. -/
theorem settled_foldlM (hn : (rows.map (Row.label pd)).Nodup) {n : Nat} : ∀ {ds : List Dispatched} {t : Settling},
    (ds.map Dispatched.code).Nodup → ds.foldlM (settle rd pd) ⟨rows, [], [], n⟩ = .ok t →
    ∃ g, Settled rd pd rows ds t g := by
  intro ds
  induction ds using List.reverseRecOn with
  | nil =>
    intro t _ h
    rw [List.foldlM_nil, Exc.pure_eq_ok] at h
    subst h
    exact ⟨id, (List.map_id _).symm, fun _ => rfl, fun _ _ => .inl rfl, fun _ hcode => absurd hcode (List.not_mem_nil)⟩
  | append_singleton ds d ih =>
    intro t hnodup h
    rw [Exc.foldlM_snoc, Exc.bind_eq_ok] at h
    obtain ⟨s, hs, ht⟩ := h
    rw [List.map_append, List.nodup_append] at hnodup
    obtain ⟨g, hg⟩ := ih hnodup.1 hs
    exact hg.step hn (fun hmem => hnodup.2.2 _ hmem _ List.mem_cons_self rfl) ht

/-! ## What the rounds make of the rows -/

/-- A row that an answer of a round has confirmed. -/
def Round.Confirms (rd : Reading) (pd : Pandas PyFloat) (round : Round) (r r' : Row PyFloat) : Prop :=
  ∃ priceOutput bookOutput2, (round.answer (r.label pd)).quote = some (priceOutput, bookOutput2) ∧
    isCloseConfirmed rd priceOutput bookOutput2 (round.answer (r.label pd)).tick = true ∧
    ∃ update, buildFinalizedRow rd pd r priceOutput (round.answer (r.label pd)).tick = .ok update ∧ r' = r.put update

theorem dispatch_eq_some {code : String} (h : dispatch round code = .ok (some d)) :
    d.code = code ∧ (round.answer code).quote = some (d.priceOutput, d.bookOutput2) ∧ d.tick = (round.answer code).tick := by
  unfold dispatch at h
  split_ifs at h
  · cases h
  · cases hq : (round.answer code).quote with
    | none => simp [hq] at h
    | some q =>
      simp only [hq, Except.ok.injEq, Option.some.injEq] at h
      subst h
      exact ⟨rfl, rfl, rfl⟩

theorem dispatched_codes {codes : List String} {qs : List (Option Dispatched)} (h : codes.mapM (dispatch round) = .ok qs) :
    ((qs.filterMap id).map Dispatched.code).Sublist codes := by
  induction codes generalizing qs with
  | nil =>
    rw [List.mapM_nil, Exc.pure_eq_ok] at h
    subst h
    exact .slnil
  | cons code codes ih =>
    obtain ⟨q, qs', hq, hqs, rfl⟩ := (Exc.mapM_cons_eq_ok _ _ _ _).1 h
    cases q with
    | none => exact (ih hqs).cons _
    | some d =>
      have hcode := (dispatch_eq_some hq).1
      have hsub := (ih hqs).cons_cons code
      rwa [← hcode] at hsub ⊢

variable {p p' : Polling}

/-- **What a round makes of the rows**: what a quote confirms is no longer pending. -/
theorem pollRound_rows (hn : (p.rows.map (Row.label pd)).Nodup) (hp : p.pending.Nodup)
    (h : pollRound rd pd round p = .ok p') :
    ∃ g : Row PyFloat → Row PyFloat, p'.rows = p.rows.map g ∧ (∀ r, (g r).label pd = r.label pd) ∧
      p'.pending.Sublist p.pending ∧ ∀ r ∈ p.rows, g r = r ∨
        (r.label pd ∈ p.pending ∧ r.label pd ∉ p'.pending ∧ round.Confirms rd pd r (g r)) := by
  simp only [pollRound, Exc.bind_eq_ok, Exc.pure_eq_ok] at h
  obtain ⟨qs, hqs, t, ht, rfl⟩ := h
  have hsub := dispatched_codes hqs
  obtain ⟨g, hg⟩ := settled_foldlM hn (hp.sublist hsub) ht
  refine ⟨g, hg.rows_eq, hg.label_eq, List.filter_sublist, fun r hr => (hg.cases r hr).imp_right ?_⟩
  rintro ⟨hmem, d, hd, hlabel, hgate, hbuild⟩
  obtain ⟨q, hq, rfl⟩ := List.mem_filterMap.1 hd
  obtain ⟨code, -, hcode⟩ := (Exc.mem_of_mapM_eq_ok hqs).1 hq
  obtain ⟨heq, hquote, htick⟩ := dispatch_eq_some hcode
  rw [heq] at hlabel
  subst hlabel
  rw [htick] at hgate hbuild
  exact ⟨hsub.subset (hg.confirmed _ hmem), by simp [hmem], _, _, hquote, hgate, hbuild⟩

/-- **What the rounds make of the rows**: a row that is pending may be confirmed, once. -/
theorem poll_rows {snap : String} : ∀ {rounds : List Round} {p : Polling}, (p.rows.map (Row.label pd)).Nodup →
    p.pending.Nodup → poll rd pd snap rounds p = .ok (some p') →
    ∃ g : Row PyFloat → Row PyFloat, p'.rows = p.rows.map g ∧ ∀ r ∈ p.rows, g r = r ∨
      (r.label pd ∈ p.pending ∧ ∃ round ∈ rounds, round.Confirms rd pd r (g r))
  | [], p, _, _, h => by cases h
  | round :: rounds, p, hn, hp, h => by
    simp only [poll, Exc.bind_eq_ok, Exc.raiseIf_eq_ok] at h
    obtain ⟨-, -, h⟩ := h
    split_ifs at h
    · obtain rfl : p = p' := by simpa using h
      exact ⟨id, (List.map_id _).symm, fun _ _ => .inl rfl⟩
    · obtain ⟨p₁, hp₁, h⟩ := (Exc.bind_eq_ok _ _ _).1 h
      obtain ⟨g, hg, hlabel, hsub, hcases⟩ := pollRound_rows hn hp hp₁
      have hone : ∀ r ∈ p.rows, g r = r ∨ (r.label pd ∈ p.pending ∧ ∃ round' ∈ round :: rounds, round'.Confirms rd pd r (g r)) :=
        fun r hr => (hcases r hr).imp_right fun h => ⟨h.1, round, List.mem_cons_self, h.2.2⟩
      split_ifs at h
      · obtain rfl : p₁ = p' := by simpa using h
        exact ⟨g, hg, hone⟩
      · have hn₁ : (p₁.rows.map (Row.label pd)).Nodup := by
          have hlabels : (p.rows.map g).map (Row.label pd) = p.rows.map (Row.label pd) := by
            rw [List.map_map]
            exact List.map_congr_left fun r _ => hlabel r
          rw [hg, hlabels]
          exact hn
        obtain ⟨g', hg', hcases'⟩ := poll_rows hn₁ (hp.sublist hsub) h
        rw [hg] at hg' hcases'
        refine ⟨g' ∘ g, by rw [hg', List.map_map], fun r hr => ?_⟩
        rcases hcases r hr with heq | ⟨hmem, hgone, hc⟩
        · have hnext := hcases' (g r) (List.mem_map_of_mem hr)
          rw [Function.comp_apply, heq] at *
          refine hnext.imp_right fun h => ?_
          obtain ⟨hmem, round', hround', hc⟩ := h
          exact ⟨hsub.subset hmem, round', List.mem_cons_of_mem _ hround', hc⟩
        · have hnext := (hcases' (g r) (List.mem_map_of_mem hr)).resolve_right fun h => hgone (hlabel r ▸ h.1)
          rw [Function.comp_apply, hnext]
          exact .inr ⟨hmem, round, List.mem_cons_self, hc⟩

end Archive
