import KClosingAlpha.Intraday.TapeHarvest
import KClosingAlpha.Intraday.TossOverlap
/-!
# TapeCells — a harvest gives every cell it needs one result

A day is settled once, by what the walk handed over or else by how the walk ended, and either way each of its sessions
gets one result (`Covers`).  Only the rows of a day that was handed over become ticks, so a complete result is certified,
and its ticks are the rows of its own day and session.
-/
namespace Intraday
namespace TapeHarvest

open Kiwoom (UnicodeDigits Delivery Raised Handed)
open Kiwoom.TickChart (eventKey)

variable {Cell : Type} {pd : Pandas Cell}

/-! ## The cells of a call -/

theorem mem_sortedSet {α : Type} [DecidableEq α] {le : α → α → Bool} {l : List α} {a : α} : a ∈ sortedSet le l ↔ a ∈ l := by
  unfold sortedSet
  rw [List.mem_insertionSort, List.mem_dedup]

theorem nodup_sortedSet {α : Type} [DecidableEq α] (le : α → α → Bool) (l : List α) : (sortedSet le l).Nodup := by
  unfold sortedSet
  exact (List.perm_insertionSort _ _).nodup_iff.2 l.nodup_dedup

/-- A session is named once. -/
theorem eq_of_session {a b : TapeSession} (ha : a ∈ tapeSessions) (hb : b ∈ tapeSessions) (h : a.session = b.session) :
    a = b := by
  simp only [tapeSessions, List.mem_cons, List.not_mem_nil, or_false] at ha hb
  rcases ha with rfl | rfl | rfl <;> rcases hb with rfl | rfl | rfl <;> first | rfl | exact absurd h (by decide)

/-- Two sessions of a venue have no time in common. -/
theorem eq_of_covers {u : UnicodeDigits} {a b : TapeSession} {hms : String} (ha : a ∈ tapeSessions) (hb : b ∈ tapeSessions)
    (hv : a.venue = b.venue) (hca : a.covers u hms = true) (hcb : b.covers u hms = true) : a = b := by
  unfold TapeSession.covers at hca hcb
  simp only [Bool.and_eq_true, decide_eq_true_eq] at hca hcb
  obtain ⟨⟨-, haf⟩, hac⟩ := hca
  obtain ⟨⟨-, hbf⟩, hbc⟩ := hcb
  have hab := haf.trans hbc
  have hba := hbf.trans hac
  clear haf hac hbf hbc
  simp only [tapeSessions, List.mem_cons, List.not_mem_nil, or_false] at ha hb
  rcases ha with rfl | rfl | rfl <;> rcases hb with rfl | rfl | rfl <;>
    first | rfl | exact absurd hv (by decide) | exact absurd hab (by decide) | exact absurd hba (by decide)

/-! ## Frames -/

section rows

variable {d : Digits} {row : Kiwoom.Row}

/-- The time of a valid row is the text of its cell. -/
theorem lookup_of_isCntrTm (h : Kiwoom.isCntrTm d.toUnicodeDigits (Kiwoom.Row.cntrTm row) = true) :
    ∃ v, List.lookup "cntr_tm" row = some v ∧ v.toStr = Kiwoom.Row.cntrTm row := by
  unfold Kiwoom.Row.cntrTm Py.Dict.getD at h ⊢
  cases hv : List.lookup "cntr_tm" row with
  | none => rw [hv] at h; exact absurd h (by simp [Kiwoom.isCntrTm, Py.Value.truthy])
  | some v =>
    rw [hv] at h
    dsimp only [Option.getD] at h ⊢
    split_ifs at h ⊢ with ht
    · exact ⟨v, rfl, rfl⟩
    · simp [Kiwoom.isCntrTm] at h

/-- The date of a valid row is eight decimals. -/
theorem ymd_of_isCntrTm (h : Kiwoom.isCntrTm d.toUnicodeDigits (Kiwoom.Row.cntrTm row) = true) :
    (Kiwoom.Row.ymd row).toList.length = 8 ∧ '-' ∉ (Kiwoom.Row.cntrTm row).toList := by
  unfold Kiwoom.isCntrTm at h
  rw [Bool.and_eq_true, decide_eq_true_iff, List.all_eq_true] at h
  refine ⟨by simp [Kiwoom.Row.ymd, h.1], fun hmem => ?_⟩
  have hsome := h.2 '-' hmem
  rw [d.hyphen] at hsome
  cases hsome

theorem eventKey_of_isCntrTm (h : Kiwoom.isCntrTm d.toUnicodeDigits (Kiwoom.Row.cntrTm row) = true) :
    (eventKey row).1 = Kiwoom.Row.ymd row := by
  unfold Kiwoom.isCntrTm at h
  rw [Bool.and_eq_true, decide_eq_true_iff] at h
  unfold eventKey
  dsimp only
  rw [if_pos h.1.ge]
  rfl

theorem businessDate_of_isCntrTm (h : Kiwoom.isCntrTm d.toUnicodeDigits (Kiwoom.Row.cntrTm row) = true) :
    businessDate row = Kiwoom.Row.ymd row := by
  obtain ⟨v, hv, htext⟩ := lookup_of_isCntrTm h
  have hplain : (Kiwoom.Row.cntrTm row).toList.filter (· ≠ '-') = (Kiwoom.Row.cntrTm row).toList :=
    List.filter_eq_self.2 fun ch hch => decide_eq_true fun heq => (ymd_of_isCntrTm h).2 (heq ▸ hch)
  unfold businessDate
  rw [hv, Option.elim_some, htext, hplain]
  rfl

/-- The date of a valid row is a date of its page. -/
theorem mem_pageDays {p : Kiwoom.Page} (hraw : some row ∈ p.rows)
    (h : Kiwoom.isCntrTm d.toUnicodeDigits (Kiwoom.Row.cntrTm row) = true) :
    Kiwoom.dashDay (Kiwoom.Row.ymd row) ∈ pageDays d.toUnicodeDigits p := by
  obtain ⟨v, hv, htext⟩ := lookup_of_isCntrTm h
  have hstamp : String.ofList ((Py.Dict.getD row "cntr_tm" (.str "")).toStr.toList.take 8) = Kiwoom.Row.ymd row := by
    unfold Py.Dict.getD
    rw [hv, Option.getD_some, htext]
    rfl
  have hlen := (ymd_of_isCntrTm h).1
  unfold Kiwoom.isCntrTm at h
  rw [Bool.and_eq_true, List.all_eq_true] at h
  refine List.mem_map_of_mem (List.mem_filter.2 ⟨List.mem_filterMap.2 ⟨_, hraw, congrArg some hstamp⟩, ?_⟩)
  rw [Bool.and_eq_true, decide_eq_true_iff, List.all_eq_true]
  refine ⟨hlen, fun ch hch => d.isdigit_of_decimal ch (h.2 ch ?_)⟩
  unfold Kiwoom.Row.ymd at hch
  rw [String.toList_ofList] at hch
  exact List.mem_of_mem_take hch

theorem compact_dashDay {ymd : String} (hlen : ymd.toList.length = 8) (hno : '-' ∉ ymd.toList) :
    compact (Kiwoom.dashDay ymd) = ymd := by
  apply String.toList_injective
  unfold compact Kiwoom.dashDay
  rw [String.toList_ofList, String.toList_ofList]
  generalize ymd.toList = cs at hlen hno
  match cs, hlen with
  | [_, _, _, _, _, _, _, _], _ =>
    simp only [List.mem_cons, List.not_mem_nil, or_false, not_or] at hno
    simp [hno, Ne.symm]

end rows

section frames

variable {cast : TickCast pd} {day code : String} {rows : List Kiwoom.Row} {frame : Frame Cell}

/-- A frame that is not empty has a tick for each row of the business date. -/
theorem strictTapeFrame_ok (h : cast.strictTapeFrame day code rows = .ok frame) :
    frame.columns = canonicalTickColumns ∧ (frame.rows = [] ∨
      List.Forall₂ (fun row tick => cast.tick day code row = .ok tick) (filterToBusinessDate day rows) frame.rows) := by
  unfold TickCast.strictTapeFrame TickCast.normalizeTickFrame at h
  dsimp only at h
  split_ifs at h
  · cases h; exact ⟨rfl, .inl rfl⟩
  · cases h; exact ⟨rfl, .inl rfl⟩
  · obtain ⟨ticks, hticks, rfl⟩ := (Exc.map_eq_ok _ _ _).1 h
    exact ⟨rfl, .inr (Exc.forall₂_of_mapM_eq_ok hticks)⟩

end frames

namespace HarvestCall

variable (c : HarvestCall pd)

/-- A cell the caller asks for. -/
def Asks (cell : String × String) : Prop :=
  match c.needed with
  | some needed => cell ∈ needed
  | none => cell.1 ∈ c.days

/-- A needed cell: asked for, of a session the tape of the venue carries, and closed. -/
def Needed (cell : String × String) : Prop :=
  c.Asks cell ∧ (∃ spec ∈ c.sessions, spec.venue = c.venue ∧ spec.session = cell.2) ∧
    isSessionClosed cell.1 cell.2 c.closedNow = true

variable {c} {wanted : List String} {asked : List (String × String)}

theorem mem_matched {spec : TapeSession} : spec ∈ c.matched ↔ spec ∈ c.sessions ∧ spec.venue = c.venue := by
  unfold matched
  rw [List.mem_filter, decide_eq_true_iff]

theorem mem_names {s : String} :
    s ∈ c.matched.map (·.session) ↔ ∃ spec ∈ c.sessions, spec.venue = c.venue ∧ spec.session = s := by
  simp only [List.mem_map, mem_matched, and_assoc]

theorem names_nodup : (c.matched.map (·.session)).Nodup := by
  refine (c.distinct.filter _).map_on fun a ha b hb h => ?_
  exact eq_of_session (c.known a (mem_matched.1 ha).1) (c.known b (mem_matched.1 hb).1) h

/-- What a call asks for is read off its arguments, each cell once, on days that are dates. -/
structure Requests (c : HarvestCall pd) (wanted : List String) (asked : List (String × String)) : Prop where
  mem : ∀ cell, cell ∈ asked ↔ c.Asks cell ∧ ∃ spec ∈ c.sessions, spec.venue = c.venue ∧ spec.session = cell.2
  nodup : asked.Nodup
  day : ∀ cell ∈ asked, cell.1 ∈ wanted
  days : wanted.Nodup
  dated : ∀ d ∈ wanted, (c.ordinal d).isSome = true

theorem requested_ok (h : c.requested = .ok (wanted, asked)) : Requests c wanted asked := by
  unfold requested at h
  dsimp only at h
  split at h
  · rename_i hnone
    obtain ⟨-, -, h⟩ := (Exc.bind_eq_ok _ _ _).1 h
    split at h
    · cases h
    · rename_i hfind
      cases h
      refine ⟨fun cell => ?_, ?_, ?_, nodup_sortedSet _ _, ?_⟩
      · unfold Asks
        rw [hnone, ← mem_names]
        simp only [List.mem_flatMap, mem_sortedSet]
        constructor
        · rintro ⟨d, hd, hcell⟩
          obtain ⟨s, hs, rfl⟩ := List.mem_map.1 hcell
          exact ⟨hd, hs⟩
        · rintro ⟨hd, hs⟩
          exact ⟨cell.1, hd, List.mem_map.2 ⟨cell.2, hs, rfl⟩⟩
      · refine List.nodup_flatMap.2 ⟨fun d _ => names_nodup.map fun a b hab => (Prod.mk.inj hab).2, ?_⟩
        refine (nodup_sortedSet _ _).imp fun hne x hx hy => ?_
        obtain ⟨s, -, rfl⟩ := List.mem_map.1 hx
        obtain ⟨s', -, heq⟩ := List.mem_map.1 hy
        exact hne (Prod.mk.inj heq).1.symm
      · intro cell hcell
        obtain ⟨d, hd, hcell⟩ := List.mem_flatMap.1 hcell
        obtain ⟨s, -, rfl⟩ := List.mem_map.1 hcell
        exact hd
      · intro d hd
        have hsome := List.find?_eq_none.1 hfind d hd
        simpa [Option.isSome_iff_ne_none] using hsome
  · rename_i needed hneeded
    split at h
    · cases h
    · rename_i hfind
      cases h
      refine ⟨fun cell => ?_, (nodup_sortedSet _ _).filter _, ?_, nodup_sortedSet _ _, ?_⟩
      · unfold Asks
        rw [hneeded, ← mem_names, List.mem_filter, mem_sortedSet, decide_eq_true_iff]
      · intro cell hcell
        exact mem_sortedSet.2 (List.mem_map_of_mem (List.mem_of_mem_filter hcell))
      · intro d hd
        obtain ⟨p, hp, rfl⟩ := List.mem_map.1 (mem_sortedSet.1 hd)
        have hsome := List.find?_eq_none.1 hfind p hp
        simpa [Option.isSome_iff_ne_none] using hsome

theorem Requests.mem_cells (h : Requests c wanted asked) {cell : String × String} : cell ∈ c.cells asked ↔ c.Needed cell := by
  unfold cells Needed isClosed
  rw [List.mem_filter, h.mem, and_assoc]

theorem mem_daySessions {cells : List (String × String)} {day : String} {spec : TapeSession} :
    spec ∈ c.daySessions cells day ↔ spec ∈ c.matched ∧ (day, spec.session) ∈ cells := by
  unfold daySessions
  rw [List.mem_filter, decide_eq_true_iff]

/-! ## One session -/

/-- A result of a session of a day: complete where the rows of its window are ticks, and without ticks otherwise. -/
structure Emitted (c : HarvestCall pd) (day : String) (rows : List Kiwoom.Row) (spec : TapeSession) (r : TapeDayResult Cell) :
    Prop where
  symbol : r.symbol = c.code
  group : r.group = (day, spec.session)
  entry : r.entry.symbol = some c.code ∧ r.entry.session = spec.session
  columns : r.frame.columns = canonicalTickColumns
  complete : r.entry.status = .complete → r.frame.rows ≠ [] ∧
    c.cast.strictTapeFrame day c.code (sessionWindow c.digits.toUnicodeDigits (compact day) spec rows) = .ok r.frame
  others : r.entry.status ≠ .complete → r.frame.rows = []
  venue : r.entry.isCertified = true → r.entry.venue ≠ "UNKNOWN"

/-- What the validators let through is the entry as it was asked for. -/
theorem coverageEntry_ok {code venue session reason : String} {status : CaptureStatus} {rows : Nat} {rawRefs : List String}
    {e : CoverageEntry} (h : coverageEntry code venue session status rows reason rawRefs = .ok e) :
    e.symbol = some code ∧ e.venue = venue ∧ e.session = session ∧ e.status = status := by
  unfold coverageEntry at h
  split_ifs at h
  cases h
  exact ⟨rfl, rfl, rfl, rfl⟩

/-- A result that brings no ticks. -/
theorem emitted_empty {day reason : String} {rows : List Kiwoom.Row} {spec : TapeSession} {status : CaptureStatus} {n : Nat}
    {refs : List String} {r : TapeDayResult Cell} (hstatus : status ≠ .complete)
    (hvenue : status = .noTrades → c.resolvedVenue ≠ "UNKNOWN")
    (h : (fun entry => (⟨c.code, day, spec.session, emptyTickFrame, entry⟩ : TapeDayResult Cell)) <$>
      coverageEntry c.code c.resolvedVenue spec.session status n reason refs = .ok r) : Emitted c day rows spec r := by
  obtain ⟨e, he, rfl⟩ := (Exc.map_eq_ok _ _ _).1 h
  obtain ⟨hsymbol, hven, hsession, hst⟩ := coverageEntry_ok he
  refine ⟨rfl, rfl, ⟨hsymbol, hsession⟩, rfl, fun hc => absurd (hst.symm.trans hc) hstatus, fun _ => rfl, fun hc => ?_⟩
  rw [hven]
  unfold CoverageEntry.isCertified at hc
  rw [hst, Bool.or_eq_true, decide_eq_true_iff, decide_eq_true_iff] at hc
  exact hvenue (hc.resolve_left hstatus)

theorem certifiedSession_ok {day proof : String} {rows : List Kiwoom.Row} {vendorTotal : Option Nat} {refs : List String}
    {spec : TapeSession} {r : TapeDayResult Cell}
    (h : c.certifiedSession day rows proof vendorTotal refs spec = .ok r) : Emitted c day rows spec r := by
  unfold certifiedSession at h
  dsimp only at h
  split_ifs at h with hunknown
  · exact emitted_empty (by decide) (by simp) h
  split at h
  · exact emitted_empty (by decide) (by simp) h
  · rename_i frame hframe
    split_ifs at h with hbad hrows
    · obtain ⟨ref, -, h⟩ := (Exc.bind_eq_ok _ _ _).1 h
      exact emitted_empty (by decide) (by simp) h
    · obtain ⟨e, he, rfl⟩ := (Exc.map_eq_ok _ _ _).1 h
      obtain ⟨hsymbol, hven, hsession, hst⟩ := coverageEntry_ok he
      refine ⟨rfl, rfl, ⟨hsymbol, hsession⟩, ?_, fun _ => ⟨hrows, hframe⟩, fun hne => absurd hst hne, fun _ => ?_⟩
      · exact (strictTapeFrame_ok hframe).1
      · exact fun hv => hunknown (hven.symm.trans hv)
    · exact emitted_empty (by decide) (fun _ => hunknown) h

/-! ## One day -/

/-- The sessions of a day have one result each. -/
structure Covers (c : HarvestCall pd) (day : String) (rows : List Kiwoom.Row) (sessions : List TapeSession)
    (results : List (TapeDayResult Cell)) : Prop where
  groups : (results.map TapeDayResult.group).Perm (sessions.map fun spec => (day, spec.session))
  emitted : ∀ r ∈ results, ∃ spec ∈ sessions, Emitted c day rows spec r

section day

variable {day : String} {rows : List Kiwoom.Row} {sessions sessions' : List TapeSession}
  {results results' : List (TapeDayResult Cell)}

/-- One session after another. -/
theorem covers_of_mapM {f : TapeSession → Except Exn (TapeDayResult Cell)} (hf : ∀ spec r, f spec = .ok r → Emitted c day rows spec r)
    (h : sessions.mapM f = .ok results) : Covers c day rows sessions results := by
  constructor
  · rw [Exc.map_of_mapM_eq_ok (fun spec r hr => (hf spec r hr).group) h]
  · intro r hr
    obtain ⟨spec, hspec, hr⟩ := (Exc.mem_of_mapM_eq_ok h).1 hr
    exact ⟨spec, hspec, hf spec r hr⟩

theorem Covers.append (h : Covers c day rows sessions results) (h' : Covers c day rows sessions' results') :
    Covers c day rows (sessions ++ sessions') (results ++ results') := by
  constructor
  · rw [List.map_append, List.map_append]
    exact h.groups.append h'.groups
  · intro r hr
    rcases List.mem_append.1 hr with hr | hr
    · obtain ⟨spec, hspec, hr⟩ := h.emitted r hr
      exact ⟨spec, List.mem_append_left _ hspec, hr⟩
    · obtain ⟨spec, hspec, hr⟩ := h'.emitted r hr
      exact ⟨spec, List.mem_append_right _ hspec, hr⟩

theorem Covers.perm (h : Covers c day rows sessions results) (hp : sessions.Perm sessions') : Covers c day rows sessions' results :=
  ⟨h.groups.trans (hp.map _), fun r hr => by
    obtain ⟨spec, hspec, hr⟩ := h.emitted r hr
    exact ⟨spec, hp.mem_iff.1 hspec, hr⟩⟩

theorem settleCertifiedDay_covers {basis : String} {vendorTotal : Option Nat} {refs : List String}
    (h : c.settleCertifiedDay day rows vendorTotal basis sessions refs = .ok results) :
    Covers c day rows sessions results := by
  unfold settleCertifiedDay at h
  obtain ⟨dayRefs, -, h⟩ := (Exc.bind_eq_ok _ _ _).1 h
  exact covers_of_mapM (fun _ _ hr => certifiedSession_ok hr) h

theorem settleUncertifiedDay_covers {reason : String} {status : CaptureStatus} {refs : List String}
    (hstatus : status = .part ∨ status = .unknown) (h : c.settleUncertifiedDay day status reason sessions refs = .ok results) :
    Covers c day [] sessions results := by
  have hne : status ≠ .complete ∧ status ≠ .noTrades := by
    rcases hstatus with rfl | rfl <;> decide
  unfold settleUncertifiedDay at h
  exact covers_of_mapM (fun _ _ hr => emitted_empty hne.1 (fun heq => absurd heq hne.2) hr) h

/-- Today the sessions that are not regular come first. -/
theorem settleEmptyToday_covers {refs : List (String × List String)} (h : c.settleEmptyToday day sessions refs = .ok results) :
    Covers c day [] sessions results := by
  unfold settleEmptyToday at h
  obtain ⟨late, hlate, h⟩ := (Exc.bind_eq_ok _ _ _).1 h
  obtain ⟨early, hearly, h⟩ := (Exc.bind_eq_ok _ _ _).1 h
  cases h
  have hregular : Covers c day [] (sessions.filter fun spec => decide (spec.session = "regular")) early := by
    unfold settleEmptyRegular at hearly
    dsimp only at hearly
    split_ifs at hearly with hnone
    · cases hearly
      rw [hnone]
      exact ⟨.refl _, fun _ hr => (by cases hr)⟩
    · exact settleCertifiedDay_covers hearly
  refine ((settleUncertifiedDay_covers (.inl rfl) hlate).append hregular).perm ?_
  have hsplit := List.filter_append_perm (fun spec : TapeSession => decide (spec.session ≠ "regular")) sessions
  simpa using hsplit

end day

theorem settleRemaining_covers {payload : Kiwoom.Payload} {cells : List (String × String)} {refs : List (String × List String)}
    {day : String} {o : Bool × List (TapeDayResult Cell)} (h : c.settleRemaining payload cells refs day = .ok o) :
    Covers c day [] (c.daySessions cells day) o.2 := by
  unfold settleRemaining at h
  dsimp only at h
  split at h
  · obtain ⟨rs, hrs, rfl⟩ := (Exc.map_eq_ok _ _ _).1 h
    exact settleUncertifiedDay_covers (.inl rfl) hrs
  · split_ifs at h
    · obtain ⟨rs, hrs, rfl⟩ := (Exc.map_eq_ok _ _ _).1 h
      exact settleEmptyToday_covers hrs
    · obtain ⟨rs, hrs, rfl⟩ := (Exc.map_eq_ok _ _ _).1 h
      exact settleCertifiedDay_covers hrs
    · split at h
      · split_ifs at h
        · obtain ⟨rs, hrs, rfl⟩ := (Exc.map_eq_ok _ _ _).1 h
          exact settleCertifiedDay_covers hrs
        · obtain ⟨rs, hrs, rfl⟩ := (Exc.map_eq_ok _ _ _).1 h
          exact settleUncertifiedDay_covers (.inr rfl) hrs
      · cases h
    · obtain ⟨rs, hrs, rfl⟩ := (Exc.map_eq_ok _ _ _).1 h
      exact settleUncertifiedDay_covers (.inr rfl) hrs
    · obtain ⟨rs, hrs, rfl⟩ := (Exc.map_eq_ok _ _ _).1 h
      exact settleUncertifiedDay_covers (.inl rfl) hrs

/-! ## The whole call -/

section settle

variable {payload : Kiwoom.Payload} {deliveries : List Delivery} {refs : List (String × List String)} {o : Outcome Cell}

/-- The needed cells of some days. -/
def cellsOn (c : HarvestCall pd) (cells : List (String × String)) (days : List String) : List (String × String) :=
  days.flatMap fun d => (c.daySessions cells d).map fun spec => (d, spec.session)

/-- Each day with something to settle is there once, so each needed cell is. -/
theorem cellsOn_perm {days : List String} (h : Requests c wanted asked) (hd : days.Nodup)
    (hdays : ∀ d, c.daySessions (c.cells asked) d ≠ [] → d ∈ wanted → d ∈ days) :
    (cellsOn c (c.cells asked) days).Perm (c.cells asked) := by
  have hmem : ∀ cell, cell ∈ cellsOn c (c.cells asked) days ↔ cell ∈ c.cells asked := by
    intro cell
    unfold cellsOn
    rw [List.mem_flatMap]
    constructor
    · rintro ⟨d, -, hcell⟩
      obtain ⟨spec, hspec, rfl⟩ := List.mem_map.1 hcell
      exact (mem_daySessions.1 hspec).2
    · intro hcell
      obtain ⟨spec, hspec, hv, hs⟩ := ((h.mem cell).1 (List.mem_of_mem_filter hcell)).2
      have hon : spec ∈ c.daySessions (c.cells asked) cell.1 := by
        rw [mem_daySessions, mem_matched, hs]
        exact ⟨⟨hspec, hv⟩, hcell⟩
      refine ⟨cell.1, hdays _ (List.ne_nil_of_mem hon) (h.day cell (List.mem_of_mem_filter hcell)), ?_⟩
      exact List.mem_map.2 ⟨spec, hon, by rw [hs]⟩
  refine (List.perm_ext_iff_of_nodup ?_ (h.nodup.filter _)).2 hmem
  refine List.nodup_flatMap.2 ⟨fun d _ => ?_, hd.imp fun hne x hx hy => ?_⟩
  · have hnames : ((c.daySessions (c.cells asked) d).map (·.session)).Nodup :=
      names_nodup.sublist (List.filter_sublist.map _)
    have hpairs := hnames.map (f := fun s => (d, s)) fun a b hab => (Prod.mk.inj hab).2
    rwa [List.map_map] at hpairs
  · obtain ⟨s, -, rfl⟩ := List.mem_map.1 hx
    obtain ⟨s', -, heq⟩ := List.mem_map.1 hy
    exact hne (Prod.mk.inj heq).1.symm

/-- **What a walk that returned settles: each needed cell, once.** -/
theorem settle_ok (hreq : Requests c wanted asked) (hnodup : (deliveries.map (·.day)).Nodup)
    (h : c.settle wanted asked payload deliveries refs = .ok o) :
    (o.results.map TapeDayResult.group).Perm (c.cells asked) ∧
    (∀ r ∈ o.results, ∃ day rows, (∃ spec ∈ c.matched, Emitted c day rows spec r) ∧
      (rows = [] ∨ ∃ x ∈ deliveries, x.day = day ∧ x.rows = rows)) ∧
    o.terminationReason = terminationValue payload.terminationReason ∧ o.pagesFetched = payload.pagesFetched := by
  unfold settle at h
  dsimp only at h
  obtain ⟨certified, hcertified, h⟩ := (Exc.bind_eq_ok _ _ _).1 h
  obtain ⟨others, hothers, h⟩ := (Exc.bind_eq_ok _ _ _).1 h
  cases h
  have hother : ∀ d p, (d, ·) <$> c.settleRemaining payload (c.cells asked) refs d = .ok p →
      Covers c d [] (c.daySessions (c.cells asked) d) p.2.2 := by
    intro d p hp
    obtain ⟨q, hq, rfl⟩ := (Exc.map_eq_ok _ _ _).1 hp
    exact settleRemaining_covers hq
  have hday : ∀ (spec : TapeSession) (d : String), spec ∈ c.daySessions (c.cells asked) d → spec ∈ c.matched :=
    fun spec d hs => (mem_daySessions.1 hs).1
  refine ⟨?_, ?_, rfl, rfl⟩
  · have hfirst := Exc.flatMap_perm_of_mapM (g := fun rs => rs.map TapeDayResult.group)
      (fun x rs hrs => (settleCertifiedDay_covers hrs).groups) hcertified
    have hsecond := Exc.flatMap_perm_of_mapM (g := fun p => p.2.2.map TapeDayResult.group)
      (fun d p hp => (hother d p hp).groups) hothers
    rw [List.map_append, List.map_flatten, List.map_flatMap]
    refine (hfirst.append hsecond).trans ?_
    set handed := deliveries.filter fun x => !(c.daySessions (c.cells asked) x.day).isEmpty with hhanded
    set remaining := wanted.reverse.filter fun d =>
      decide (d ∉ handed.map (·.day)) && !(c.daySessions (c.cells asked) d).isEmpty with hremaining
    have hjoin : cellsOn c (c.cells asked) (handed.map (·.day) ++ remaining) =
        (handed.flatMap fun x => (c.daySessions (c.cells asked) x.day).map fun spec => (x.day, spec.session)) ++
          remaining.flatMap fun d => (c.daySessions (c.cells asked) d).map fun spec => (d, spec.session) := by
      unfold cellsOn
      rw [List.flatMap_append, List.flatMap_map]
    rw [← hjoin]
    refine cellsOn_perm hreq ?_ ?_
    · refine List.nodup_append.2 ⟨?_, (List.nodup_reverse.2 hreq.days).filter _, ?_⟩
      · exact hnodup.sublist (List.filter_sublist.map _)
      · intro d hd d' hd' heq
        have hnot := (List.mem_filter.1 hd').2
        rw [Bool.and_eq_true, decide_eq_true_iff] at hnot
        exact hnot.1 (heq ▸ hd)
    · intro d hsome hd
      rw [List.mem_append, hremaining, List.mem_filter, List.mem_reverse, Bool.and_eq_true, decide_eq_true_iff]
      by_cases hin : d ∈ handed.map (·.day)
      · exact .inl hin
      · exact .inr ⟨hd, hin, by simpa using hsome⟩
  · intro r hr
    rcases List.mem_append.1 hr with hr | hr
    · obtain ⟨rs, hrs, hr⟩ := List.mem_flatten.1 hr
      obtain ⟨x, hx, hrs⟩ := (Exc.mem_of_mapM_eq_ok hcertified).1 hrs
      obtain ⟨spec, hspec, hr⟩ := (settleCertifiedDay_covers hrs).emitted r hr
      exact ⟨_, _, ⟨spec, hday spec _ hspec, hr⟩, .inr ⟨x, List.mem_of_mem_filter hx, rfl, rfl⟩⟩
    · obtain ⟨p, hp, hr⟩ := List.mem_flatMap.1 hr
      obtain ⟨d, hd, hp⟩ := (Exc.mem_of_mapM_eq_ok hothers).1 hp
      obtain ⟨spec, hspec, hr⟩ := (hother d p hp).emitted r hr
      exact ⟨d, [], ⟨spec, hday spec d hspec, hr⟩, .inl rfl⟩

end settle

/-! ## The walk behind a result -/

/-- The day of a row and the session of the venue its time is in. -/
def cellOf (c : HarvestCall pd) (row : Kiwoom.Row) : Option (String × String) :=
  (tapeSessions.find? fun spec =>
    decide (spec.venue = c.venue) && spec.covers c.digits.toUnicodeDigits (eventKey row).2).map fun spec =>
      (Kiwoom.dashDay (Kiwoom.Row.ymd row), spec.session)

theorem cellOf_eq_some {row : Kiwoom.Row} {day : String} {spec : TapeSession} (hspec : spec ∈ tapeSessions)
    (hv : spec.venue = c.venue) (hday : Kiwoom.dashDay (Kiwoom.Row.ymd row) = day) :
    cellOf c row = some (day, spec.session) ↔ spec.covers c.digits.toUnicodeDigits (eventKey row).2 = true := by
  unfold cellOf
  rw [Option.map_eq_some_iff]
  constructor
  · rintro ⟨other, hfind, heq⟩
    have hother := List.mem_of_find?_eq_some hfind
    have hcovers := List.find?_some hfind
    rw [Bool.and_eq_true] at hcovers
    rw [← eq_of_session hother hspec (Prod.mk.inj heq).2]
    exact hcovers.2
  · intro hcovers
    cases hfind : tapeSessions.find? fun spec =>
        decide (spec.venue = c.venue) && spec.covers c.digits.toUnicodeDigits (eventKey row).2 with
    | none =>
      have hnot := List.find?_eq_none.1 hfind spec hspec
      rw [hcovers, Bool.and_true, decide_eq_true_iff] at hnot
      exact absurd hv hnot
    | some other =>
      have hcovers' := List.find?_some hfind
      rw [Bool.and_eq_true, decide_eq_true_iff] at hcovers'
      have heq := eq_of_covers (List.mem_of_find?_eq_some hfind) hspec (hcovers'.1.trans hv.symm) hcovers'.2 hcovers
      exact ⟨other, rfl, by rw [heq, hday]⟩

/-- The rows that become ticks of a cell are the day's rows of that cell. -/
theorem rows_of_cell {rows : List Kiwoom.Row} {day : String} {spec : TapeSession} (hspec : spec ∈ tapeSessions)
    (hv : spec.venue = c.venue) (hvalid : ∀ row ∈ rows, Kiwoom.isCntrTm c.digits.toUnicodeDigits (Kiwoom.Row.cntrTm row) = true)
    (hday : ∀ row ∈ rows, Kiwoom.dashDay (Kiwoom.Row.ymd row) = day) :
    filterToBusinessDate day (sessionWindow c.digits.toUnicodeDigits (compact day) spec rows) =
      rows.filter fun row => decide (cellOf c row = some (day, spec.session)) := by
  have hcompact : ∀ row ∈ rows, compact day = Kiwoom.Row.ymd row := by
    intro row hrow
    have hno : '-' ∉ (Kiwoom.Row.ymd row).toList := by
      unfold Kiwoom.Row.ymd
      rw [String.toList_ofList]
      exact fun hmem => (ymd_of_isCntrTm (hvalid row hrow)).2 (List.mem_of_mem_take hmem)
    rw [← hday row hrow, compact_dashDay (ymd_of_isCntrTm (hvalid row hrow)).1 hno]
  have hwindow : sessionWindow c.digits.toUnicodeDigits (compact day) spec rows =
      rows.filter fun row => decide (cellOf c row = some (day, spec.session)) := by
    unfold sessionWindow
    refine List.filter_congr fun row hrow => ?_
    rw [eventKey_of_isCntrTm (hvalid row hrow), ← hcompact row hrow, Bool.eq_iff_iff, decide_eq_true_iff,
      cellOf_eq_some hspec hv (hday row hrow)]
    simp
  rw [hwindow]
  unfold filterToBusinessDate
  split_ifs
  · refine List.filter_eq_self.2 fun row hrow => decide_eq_true ?_
    have hmem := List.mem_of_mem_filter hrow
    have hlen := (ymd_of_isCntrTm (hvalid row hmem)).1
    rw [businessDate_of_isCntrTm (hvalid row hmem), hcompact row hmem, List.take_of_length_le hlen.le, String.ofList_toList]
  · rfl

/-- The walk that returned certified the day of a result, and its ticks are the rows of its cell. -/
def Certified (c : HarvestCall pd) (o : Outcome Cell) (r : TapeDayResult Cell) : Prop :=
  ∃ oldest slot w s payload x, c.walk oldest slot = .ok (.stop w s) ∧ w.payload s = some payload ∧
    o.pagesFetched = payload.pagesFetched ∧ x ∈ w.books.delivered ∧ x.day = r.day ∧
    Handed (Kiwoom.rowsFetched c.digits.toUnicodeDigits (c.attempts slot).events payload.pagesFetched) payload.certificates x ∧
    List.Forall₂ (fun row tick => c.cast.tick r.day c.code row = .ok tick)
      (x.rows.filter fun row => decide (cellOf c row = some r.group)) r.frame.rows

/-- What a harvest says of a cell. -/
structure Accounted (c : HarvestCall pd) (o : Outcome Cell) (r : TapeDayResult Cell) : Prop where
  symbol : r.symbol = c.code
  entry : r.entry.symbol = some c.code ∧ r.entry.session = r.session
  columns : r.frame.columns = canonicalTickColumns
  certified : r.entry.status = .complete → r.frame.rows ≠ [] ∧ Certified c o r
  others : r.entry.status ≠ .complete → r.frame.rows = []
  venue : r.entry.isCertified = true → r.entry.venue ≠ "UNKNOWN"

theorem retry_ok {α : Type} {transient : Raised → Bool} {invoke : Nat → Option (Except Raised α)} {a : α} :
    ∀ {left slot slots : Nat}, callWithTransportRetry transient invoke left slot = some (.ok (a, slots)) →
      ∃ s, invoke s = some (.ok a) ∧ slot ≤ s ∧ slots = s + 1
  | left, slot, slots, h => by
    unfold callWithTransportRetry at h
    split at h
    · cases h
    · rename_i hinvoke
      cases h
      exact ⟨slot, hinvoke, le_refl _, rfl⟩
    · cases left with
      | zero => cases h
      | succ left =>
        dsimp only at h
        split_ifs at h
        · obtain ⟨s, hs, hle, rfl⟩ := retry_ok h
          exact ⟨s, hs, Nat.le_of_succ_le hle, rfl⟩
        · cases h

theorem invoke_ok {oldest : String} {slot : Nat} {payload : Kiwoom.Payload} {deliveries : List Delivery}
    (h : c.invoke oldest wanted slot = some (.ok (payload, deliveries))) :
    ∃ w s, c.walk oldest slot = .ok (.stop w s) ∧ w.payload s = some payload ∧
      deliveries = w.books.delivered.filter fun x => decide (x.day ∈ wanted) := by
  unfold invoke at h
  split at h
  · cases h
  · cases h
  · rename_i w s hwalk
    cases hpayload : w.payload s with
    | some told =>
      rw [hpayload] at h
      cases h
      exact ⟨w, s, hwalk, hpayload, rfl⟩
    | none =>
      rw [hpayload] at h
      cases s with
      | broke => cases h
      | raised => cases h

/-- Whatever an attempt is served, it hands over different days, each certified. -/
theorem walk_deliveries {oldest : String} {slot : Nat} {w : Kiwoom.Walk} {s : Kiwoom.Stop} {payload : Kiwoom.Payload}
    (hwalk : c.walk oldest slot = .ok (.stop w s)) (h : w.payload s = some payload) :
    (w.books.delivered.map (·.day)).Nodup ∧ ∀ x ∈ w.books.delivered,
      Handed (Kiwoom.rowsFetched c.digits.toUnicodeDigits (c.attempts slot).events payload.pagesFetched) payload.certificates x := by
  unfold walk Kiwoom.walkTickTape at hwalk
  cases hcfg : Kiwoom.WalkArgs.config c.digits.toUnicodeDigits c.settings.chartMaxPages (c.attempts slot).todayYmd
      { code := c.code, venue := c.venue, stopBeforeDay := oldest, budget := some c.settings.tapeMaxPages, maxPages := none
        onDayComplete := some fun _ => none } with
  | error msg => rw [hcfg] at hwalk; cases hwalk
  | ok cfg =>
    rw [hcfg] at hwalk
    exact Kiwoom.Walk.deliveries _ cfg _ (Except.ok.inj hwalk) h

/-- A harvest that returns had nothing to walk for, or settled what a walk returned. -/
theorem harvest_cases {o : Outcome Cell} (h : c.harvestSymbolTape = some (.ok o)) :
    ∃ wanted asked, c.requested = .ok (wanted, asked) ∧ (c.cells asked = [] ∧ o.results = [] ∨
      ∃ payload deliveries slots, callWithTransportRetry c.transient (c.invoke (wanted.head?.getD "") wanted)
          c.settings.transportRetries 0 = some (.ok ((payload, deliveries), slots)) ∧
        c.settle wanted asked payload deliveries (c.pageRefs (wanted.head?.getD "") wanted slots) = .ok o) := by
  unfold harvestSymbolTape at h
  split at h
  · cases h
  split at h
  · cases h
  split at h
  · cases h
  · rename_i wanted asked hreq
    refine ⟨wanted, asked, hreq, ?_⟩
    split at h
    · rename_i hnone
      cases h
      exact .inl ⟨hnone, rfl⟩
    · obtain ⟨result, hresult, h⟩ := Option.map_eq_some_iff.1 h
      split at h
      · cases h
      · rename_i payload deliveries slots
        refine .inr ⟨payload, deliveries, slots, hresult, ?_⟩
        cases hsettle : c.settle wanted asked payload deliveries (c.pageRefs (wanted.head?.getD "") wanted slots) with
        | error e => rw [hsettle] at h; cases h
        | ok settled =>
          rw [hsettle] at h
          cases h
          rfl

/-- A result of a day that was handed over, or of none. -/
theorem Emitted.accounted {o : Outcome Cell} {r : TapeDayResult Cell} {day : String} {rows : List Kiwoom.Row}
    {spec : TapeSession} {oldest : String} {slot : Nat} {w : Kiwoom.Walk} {s : Kiwoom.Stop} {payload : Kiwoom.Payload}
    (hr : Emitted c day rows spec r) (hspec : spec ∈ c.matched) (hwalk : c.walk oldest slot = .ok (.stop w s))
    (hpayload : w.payload s = some payload) (hpages : o.pagesFetched = payload.pagesFetched)
    (hrows : rows = [] ∨ ∃ x ∈ w.books.delivered, x.day = day ∧ x.rows = rows) : Accounted c o r := by
  obtain ⟨hday, hsession⟩ := Prod.mk.inj hr.group
  refine ⟨hr.symbol, ⟨hr.entry.1, hr.entry.2.trans hsession.symm⟩, hr.columns, fun hc => ?_, hr.others, hr.venue⟩
  obtain ⟨hne, hframe⟩ := hr.complete hc
  refine ⟨hne, ?_⟩
  have hticks := (strictTapeFrame_ok hframe).2.resolve_left hne
  rcases hrows with rfl | ⟨x, hx, rfl, rfl⟩
  · exact absurd (List.forall₂_nil_left_iff.1 hticks) hne
  · have hhanded := (walk_deliveries hwalk hpayload).2 x hx
    obtain ⟨hknown, hv⟩ := mem_matched.1 hspec
    rw [rows_of_cell (c.known spec hknown) hv (fun row hrow => ?_) (fun row hrow => (hhanded.rows row hrow).2)] at hticks
    · refine ⟨oldest, slot, w, s, payload, x, hwalk, hpayload, hpages, hx, hday.symm, hhanded, ?_⟩
      rw [hr.group, hday]
      exact hticks
    · obtain ⟨p, -, hp⟩ := List.mem_flatMap.1 (hhanded.rows row hrow).1
      obtain ⟨raw, -, hraw⟩ := List.mem_filterMap.1 hp
      exact (Option.filter_eq_some_iff.1 hraw).2

/-- **Every needed cell has one result, and no other cell has one.** -/
theorem harvest_ok {o : Outcome Cell} (h : c.harvestSymbolTape = some (.ok o)) :
    (o.results.map TapeDayResult.group).Nodup ∧ (∀ cell, cell ∈ o.results.map TapeDayResult.group ↔ c.Needed cell) ∧
      ∀ r ∈ o.results, Accounted c o r := by
  obtain ⟨wanted, asked, hreq, ⟨hnone, hresults⟩ | ⟨payload, deliveries, slots, hresult, hsettle⟩⟩ := harvest_cases h
  · rw [hresults]
    refine ⟨List.nodup_nil, fun cell => ?_, fun r hr => (by cases hr)⟩
    rw [← (requested_ok hreq).mem_cells, hnone]
    rfl
  · have hasks := requested_ok hreq
    obtain ⟨slot, hinvoke, -, -⟩ := retry_ok hresult
    obtain ⟨w, s, hwalk, hpayload, rfl⟩ := invoke_ok hinvoke
    have hnodup := (walk_deliveries hwalk hpayload).1
    obtain ⟨hgroups, hemitted, -, hpages⟩ := settle_ok hasks (hnodup.sublist (List.filter_sublist.map _)) hsettle
    refine ⟨hgroups.nodup_iff.2 (hasks.nodup.filter _), fun cell => ?_, fun r hr => ?_⟩
    · rw [hgroups.mem_iff, hasks.mem_cells]
    · obtain ⟨day, rows, ⟨spec, hspec, hr⟩, hrows⟩ := hemitted r hr
      refine hr.accounted hspec hwalk hpayload hpages (hrows.imp id ?_)
      rintro ⟨x, hx, hxday, hxrows⟩
      exact ⟨x, List.mem_of_mem_filter hx, hxday, hxrows⟩

/-! ## A harvest returns -/

theorem pathSafe_session {spec : TapeSession} (h : spec ∈ tapeSessions) : Capture.pathSafe spec.session = true := by
  simp only [tapeSessions, List.mem_cons, List.not_mem_nil, or_false] at h
  rcases h with rfl | rfl | rfl <;> decide +kernel

theorem isBlank_of_pathSafe {s : String} (h : Capture.pathSafe s = true) : Py.isBlank s = false := by
  unfold Capture.pathSafe at h
  simp only [Bool.and_eq_true, Bool.not_eq_true'] at h
  exact h.1.1.1

/-- The reason of a certified session is not blank. -/
theorem isBlank_reason (proof session total : String) :
    Py.isBlank (proof ++ ":" ++ session ++ "=0:vendor_total=" ++ total) = false := by
  unfold Py.isBlank
  rw [List.all_eq_false]
  refine ⟨':', ?_, by decide⟩
  simp only [String.toList_append, List.mem_append]
  exact .inl (.inl (.inl (.inr (by decide))))

/-- What the entries of a call need: a symbol, and a route of one. -/
structure Routed (c : HarvestCall pd) : Prop where
  code : isSymbolText c.code = true
  venue : Capture.pathSafe c.resolvedVenue = true
  staged : ∀ day session reason frame, ∃ ref, c.stageFragment day session reason frame = .ok ref

/-- A result whose entry the validators let through. -/
theorem Routed.result {day session reason : String} {status : CaptureStatus} {n : Nat} {refs : List String} {frame : Frame Cell}
    (h : Routed c) (hsession : Capture.pathSafe session = true)
    (hevidence : status = .noTrades → Py.isBlank reason = false ∧ refs ≠ []) (happlicable : status ≠ .notApplicable)
    (hvenue : status = .complete → c.resolvedVenue ≠ "UNKNOWN") :
    ∃ r, (fun entry => (⟨c.code, day, session, frame, entry⟩ : TapeDayResult Cell)) <$>
      coverageEntry c.code c.resolvedVenue session status n reason refs = .ok r := by
  have hentry : ∃ e, coverageEntry c.code c.resolvedVenue session status n reason refs = .ok e := by
    unfold coverageEntry
    rw [if_neg (by simp [h.code]), if_neg (by simp [isBlank_of_pathSafe h.venue, isBlank_of_pathSafe hsession]),
      if_neg (by simp [h.venue, hsession]), dif_neg, dif_neg]
    · exact ⟨_, rfl⟩
    · exact fun hv => hvenue hv.2 hv.1
    · rintro ⟨hs, hnone⟩
      obtain ⟨hblank, hrefs⟩ := hevidence (hs.resolve_right happlicable)
      exact hnone.elim (fun hb => by rw [hblank] at hb; cases hb) hrefs
  obtain ⟨e, he⟩ := hentry
  exact ⟨_, by rw [he]; rfl⟩

section returns

variable {day : String} {rows : List Kiwoom.Row} {sessions : List TapeSession} {refs : List String}

theorem Routed.certifiedSession {proof : String} {vendorTotal : Option Nat} {spec : TapeSession} (h : Routed c)
    (hspec : spec ∈ tapeSessions) (hrefs : refs ≠ []) : ∃ r, c.certifiedSession day rows proof vendorTotal refs spec = .ok r := by
  have hsession := pathSafe_session hspec
  unfold HarvestCall.certifiedSession
  dsimp only
  split_ifs with hunknown
  · exact h.result hsession nofun nofun nofun
  split
  · exact h.result hsession nofun nofun nofun
  · rename_i frame _
    split_ifs
    · obtain ⟨ref, href⟩ := h.staged day spec.session "nonpositive_price" frame
      rw [href]
      exact h.result hsession nofun nofun nofun
    · exact h.result hsession nofun nofun fun _ => hunknown
    · exact h.result hsession (fun _ => ⟨isBlank_reason .., hrefs⟩) nofun nofun

theorem Routed.settleCertifiedDay {basis : String} {vendorTotal : Option Nat} (h : Routed c)
    (hsessions : ∀ spec ∈ sessions, spec ∈ tapeSessions) (hrefs : refs ≠ []) :
    ∃ results, c.settleCertifiedDay day rows vendorTotal basis sessions refs = .ok results := by
  have hstray : ∃ dayRefs, c.strayRefs day rows sessions refs = .ok dayRefs ∧ dayRefs ≠ [] := by
    unfold strayRefs
    split_ifs
    · exact ⟨refs, rfl, hrefs⟩
    split
    · exact ⟨refs, rfl, hrefs⟩
    · rename_i frame _
      obtain ⟨ref, href⟩ := h.staged day (sessions.head?.elim "" (·.session)) "out_of_window" frame
      exact ⟨refs ++ [ref], by rw [href]; rfl, by simp⟩
  obtain ⟨dayRefs, hday, hne⟩ := hstray
  unfold HarvestCall.settleCertifiedDay
  dsimp only
  rw [hday]
  exact Exc.exists_mapM_eq_ok fun spec hspec => h.certifiedSession (hsessions spec hspec) hne

theorem Routed.settleUncertifiedDay {reason : String} {status : CaptureStatus} (h : Routed c)
    (hsessions : ∀ spec ∈ sessions, spec ∈ tapeSessions) (hstatus : status = .part ∨ status = .unknown) :
    ∃ results, c.settleUncertifiedDay day status reason sessions refs = .ok results := by
  unfold HarvestCall.settleUncertifiedDay
  refine Exc.exists_mapM_eq_ok fun spec hspec => ?_
  rcases hstatus with rfl | rfl <;> exact h.result (pathSafe_session (hsessions spec hspec)) nofun nofun nofun

theorem Routed.settleEmptyToday {refs : List (String × List String)} (h : Routed c)
    (hsessions : ∀ spec ∈ sessions, spec ∈ tapeSessions) (hrefs : emptyRefs refs ≠ []) :
    ∃ results, c.settleEmptyToday day sessions refs = .ok results := by
  have hsub : ∀ p : TapeSession → Bool, ∀ spec ∈ sessions.filter p, spec ∈ tapeSessions :=
    fun p spec hspec => hsessions spec (List.mem_of_mem_filter hspec)
  have hlate : ∃ late, c.settleUncertifiedDay day .part "tape_total_mismatch:received=0:total=None"
      (sessions.filter fun spec => decide (spec.session ≠ "regular")) (emptyRefs refs) = .ok late :=
    h.settleUncertifiedDay (hsub _) (.inl rfl)
  obtain ⟨late, hlate⟩ := hlate
  have hearly : ∃ early, c.settleEmptyRegular day sessions refs = .ok early := by
    unfold settleEmptyRegular
    dsimp only
    split_ifs
    · exact ⟨[], rfl⟩
    · exact h.settleCertifiedDay (hsub _) hrefs
  obtain ⟨early, hearly⟩ := hearly
  unfold HarvestCall.settleEmptyToday
  rw [hlate, Exc.ok_bind, hearly]
  exact ⟨_, rfl⟩

theorem Routed.settleRemaining {payload : Kiwoom.Payload} {cells : List (String × String)} {refs : List (String × List String)}
    (h : Routed c) (hday : (c.ordinal day).isSome = true) (hrefs : payload.terminationReason = .tapeEmpty → emptyRefs refs ≠ []) :
    ∃ o, c.settleRemaining payload cells refs day = .ok o := by
  have hsessions : ∀ spec ∈ c.daySessions cells day, spec ∈ tapeSessions :=
    fun spec hspec => c.known spec (mem_matched.1 (mem_daySessions.1 hspec).1).1
  have hempty : emptyRefs refs ≠ [] → emptyDayRefs refs day ≠ [] := by
    intro hne hnone
    unfold emptyDayRefs at hnone
    rw [List.append_eq_nil_iff] at hnone
    rw [hnone.1] at hnone
    exact hne (by simpa using hnone.2)
  have hmark : ∀ (b : Bool) {r : Except Exn (List (TapeDayResult Cell))}, (∃ results, r = .ok results) →
      ∃ o, (b, ·) <$> r = .ok o := by
    rintro b r ⟨results, rfl⟩
    exact ⟨(b, results), rfl⟩
  unfold HarvestCall.settleRemaining
  dsimp only
  split
  · exact hmark _ (h.settleUncertifiedDay hsessions (.inl rfl))
  · split_ifs with hend
    · exact hmark _ (h.settleEmptyToday hsessions (hrefs hend))
    · exact hmark _ (h.settleCertifiedDay hsessions (hempty (hrefs hend)))
    · obtain ⟨now, hnow⟩ := Option.isSome_iff_exists.1 c.dated
      obtain ⟨date, hdate⟩ := Option.isSome_iff_exists.1 hday
      rw [hnow, hdate]
      dsimp only
      split_ifs
      · exact hmark _ (h.settleCertifiedDay hsessions (hempty (hrefs hend)))
      · exact hmark _ (h.settleUncertifiedDay hsessions (.inr rfl))
    · exact hmark _ (h.settleUncertifiedDay hsessions (.inr rfl))
    · exact hmark _ (h.settleUncertifiedDay hsessions (.inl rfl))

/-- The observer kept a page of every day that was handed over. -/
theorem refsFor_ne_nil {oldest : String} {slot : Nat} {w : Kiwoom.Walk} {s : Kiwoom.Stop} {payload : Kiwoom.Payload}
    {x : Delivery} (hwalk : c.walk oldest slot = .ok (.stop w s)) (hpayload : w.payload s = some payload)
    (hx : x ∈ w.books.delivered) (hday : x.day ∈ wanted) : refsFor (c.pageRefs oldest wanted (slot + 1)) x.day ≠ [] := by
  obtain ⟨row, hrow, hymd⟩ := ((walk_deliveries hwalk hpayload).2 x hx).seen
  obtain ⟨p, hp, hrow⟩ := List.mem_flatMap.1 hrow
  have htaken := List.mem_of_mem_filter hp
  obtain ⟨raw, hraw, hfilter⟩ := List.mem_filterMap.1 hrow
  obtain ⟨rfl, hvalid⟩ := Option.filter_eq_some_iff.1 hfilter
  rw [(Kiwoom.Walk.certificates_of_payload hpayload).2] at htaken
  obtain ⟨i, hi, hget⟩ := List.mem_iff_getElem.1 htaken
  have hzip : (p, i) ∈ (((c.attempts slot).events.filterMap Kiwoom.Event.page?).take w.pagesFetched).zipIdx :=
    List.mk_mem_zipIdx_iff_getElem?.2 (List.getElem?_eq_some_iff.2 ⟨hi, hget⟩)
  have hdays : x.day ∈ pageDays c.digits.toUnicodeDigits p := by
    rw [← hymd]
    exact mem_pageDays hraw hvalid
  have hkept : isKept wanted i (pageDays c.digits.toUnicodeDigits p) = true := by
    unfold isKept
    rw [Bool.or_eq_true, List.any_eq_true]
    exact .inl ⟨x.day, hdays, decide_eq_true hday⟩
  have hmem : ((c.attempts slot).ref i, pageDays c.digits.toUnicodeDigits p) ∈ c.pageRefs oldest wanted (slot + 1) := by
    refine List.mem_flatMap.2 ⟨slot, List.mem_range.2 (Nat.lt_succ_self slot), ?_⟩
    unfold attemptRefs
    rw [hwalk]
    refine List.mem_filterMap.2 ⟨_, List.mem_map_of_mem hzip, ?_⟩
    dsimp only
    rw [if_pos hkept]
  refine List.ne_nil_of_mem (a := (c.attempts slot).ref i) (List.mem_map.2 ⟨_, List.mem_filter.2 ⟨hmem, ?_⟩, rfl⟩)
  exact decide_eq_true hdays

/-- **A harvest returns once its walk does**, where the entries are routed and an empty tape has a page to show. -/
theorem harvest_returns {asked : List (String × String)} {payload : Kiwoom.Payload} {deliveries : List Delivery} {slots : Nat}
    (h : Routed c) (hvenue : c.venue = "KRX" ∨ c.venue = "NXT") (hrun : Py.isBlank c.runId = false)
    (hreq : c.requested = .ok (wanted, asked))
    (hwalk : callWithTransportRetry c.transient (c.invoke (wanted.head?.getD "") wanted) c.settings.transportRetries 0 =
      some (.ok ((payload, deliveries), slots)))
    (hrefs : payload.terminationReason = .tapeEmpty → emptyRefs (c.pageRefs (wanted.head?.getD "") wanted slots) ≠ []) :
    ∃ o, c.harvestSymbolTape = some (.ok o) := by
  have hv : ¬ (c.venue ≠ "KRX" ∧ c.venue ≠ "NXT") := fun hne => hvenue.elim hne.1 hne.2
  unfold harvestSymbolTape
  rw [if_neg hv, if_neg (by simp [hrun]), hreq]
  dsimp only
  split_ifs
  · exact ⟨_, rfl⟩
  rw [hwalk]
  obtain ⟨slot, hinvoke, -, rfl⟩ := retry_ok hwalk
  obtain ⟨w, s, hturn, hpayload, rfl⟩ := invoke_ok hinvoke
  have hsettle : ∃ o, c.settle wanted asked payload (w.books.delivered.filter fun x => decide (x.day ∈ wanted))
      (c.pageRefs (wanted.head?.getD "") wanted (slot + 1)) = .ok o := by
    unfold settle
    dsimp only
    have hcertified := Exc.exists_mapM_eq_ok (f := c.settleDelivery (c.cells asked) (c.pageRefs (wanted.head?.getD "") wanted (slot + 1)))
      (l := (w.books.delivered.filter fun x => decide (x.day ∈ wanted)).filter
        fun x => !(c.daySessions (c.cells asked) x.day).isEmpty) fun x hx => by
        obtain ⟨hx, hday⟩ := List.mem_filter.1 (List.mem_of_mem_filter hx)
        exact h.settleCertifiedDay (fun spec hspec => c.known spec (mem_matched.1 (mem_daySessions.1 hspec).1).1)
          (refsFor_ne_nil hturn hpayload hx (of_decide_eq_true hday))
    obtain ⟨certified, hcertified⟩ := hcertified
    rw [hcertified, Exc.ok_bind]
    refine (Exc.returns_bind_ok _ _).2 (Exc.exists_mapM_eq_ok fun d hd => ?_)
    have hdated := (requested_ok hreq).dated d (List.mem_reverse.1 (List.mem_of_mem_filter hd))
    have hremaining : ∃ o, c.settleRemaining payload (c.cells asked)
        (c.pageRefs (wanted.head?.getD "") wanted (slot + 1)) d = .ok o := h.settleRemaining hdated hrefs
    obtain ⟨o, ho⟩ := hremaining
    exact ⟨(d, o), by rw [ho]; rfl⟩
  obtain ⟨o, ho⟩ := hsettle
  exact ⟨o, by rw [Option.map_some]; dsimp only; rw [ho]; rfl⟩

end returns

end HarvestCall

end TapeHarvest
end Intraday
