import KClosingAlpha.Intraday.FlushReport
/-!
# Harvested — every needed cell has one result, and what a flush then has on disk

The results of harvests of different tapes are a set of results as the publisher takes it (`HarvestSet`): a symbol and a
venue are harvested once, and a session belongs to one venue.
-/
namespace Intraday
namespace TapeHarvest

open Kiwoom (Delivery)

variable {Cell : Type} {pd : Pandas Cell}

theorem exists_of_forall₂ {α β : Type} {R : α → β → Prop} {l : List α} {l' : List β} {b : β} (h : List.Forall₂ R l l')
    (hb : b ∈ l') : ∃ a ∈ l, R a b := by
  induction h with
  | nil => cases hb
  | @cons a b' l l' hab _ ih =>
    rcases List.mem_cons.1 hb with rfl | hb
    · exact ⟨a, List.mem_cons_self, hab⟩
    · obtain ⟨x, hx, hr⟩ := ih hb
      exact ⟨x, List.mem_cons_of_mem _ hx, hr⟩

namespace HarvestCall

variable {c : HarvestCall pd} {o : Outcome Cell} {r : TapeDayResult Cell}

/-- A tick is stored under the symbol, padded to six characters. -/
theorem key_of_tick {day code : String} {cast : TickCast pd} {row : Kiwoom.Row} {tick : Row Cell}
    (h : cast.tick day code row = .ok tick) : pd.key canonicalTickColumns tick = zfill6 code := by
  unfold TickCast.tick at h
  dsimp only at h
  split at h
  · cases h
    exact cast.str_text _
  · cases h

/-- What a harvest says of a cell is what the publisher relies on, for a symbol of six characters. -/
theorem Accounted.settled (h : Accounted c o r) (hcode : zfill6 c.code = c.code) : Intraday.Settled pd r where
  symbol := h.entry.1.trans (congrArg some h.symbol.symm)
  named := by
    rw [h.symbol, ← hcode]
    exact zfill6_ne _
  session := h.entry.2
  columns := h.columns
  own row hrow := by
    by_cases hc : r.entry.status = .complete
    · obtain ⟨-, oldest, slot, w, s, payload, x, -, -, -, -, -, -, hticks⟩ := h.certified hc
      obtain ⟨source, -, htick⟩ := exists_of_forall₂ hticks hrow
      rw [key_of_tick htick, hcode, h.symbol]
    · rw [h.others hc] at hrow
      cases hrow
  complete hc := (h.certified hc).1
  noTrades hno := h.others (by rw [hno]; decide)
  venue := h.venue

/-- Two harvests of one symbol are of different venues, and have no session in common. -/
theorem group_ne {c' : HarvestCall pd} {o' : Outcome Cell} {r' : TapeDayResult Cell} (h : c.harvestSymbolTape = some (.ok o))
    (h' : c'.harvestSymbolTape = some (.ok o')) (hr : r ∈ o.results) (hr' : r' ∈ o'.results)
    (hne : (c.code, c.venue) ≠ (c'.code, c'.venue)) : r.key ≠ r'.key := by
  intro hkey
  obtain ⟨-, hcells, hall⟩ := harvest_ok h
  obtain ⟨-, hcells', hall'⟩ := harvest_ok h'
  obtain ⟨-, ⟨spec, hspec, hv, hs⟩, -⟩ := (hcells r.group).1 (List.mem_map_of_mem hr)
  obtain ⟨-, ⟨spec', hspec', hv', hs'⟩, -⟩ := (hcells' r'.group).1 (List.mem_map_of_mem hr')
  have hgroup : r.group = r'.group := (Prod.mk.inj hkey).2
  have hsame := eq_of_session (c.known spec hspec) (c'.known spec' hspec') (hs.trans ((congrArg Prod.snd hgroup).trans hs'.symm))
  have hsymbol : r.symbol = r'.symbol := (Prod.mk.inj hkey).1
  rw [(hall r hr).symbol, (hall' r' hr').symbol] at hsymbol
  exact hne (Prod.ext hsymbol (hv.symm.trans ((congrArg TapeSession.venue hsame).trans hv')))

end HarvestCall

/-! ## Harvests of different tapes -/

/-- Harvests of different tapes, each with what it returned. -/
structure Harvests (calls : List (HarvestCall pd)) (outcomes : List (Outcome Cell)) : Prop where
  returned : List.Forall₂ (fun c o => c.harvestSymbolTape = some (.ok o)) calls outcomes
  tapes : (calls.map fun c => (c.code, c.venue)).Nodup
  codes : ∀ c ∈ calls, zfill6 c.code = c.code

theorem Harvests.harvestSet {calls : List (HarvestCall pd)} {outcomes : List (Outcome Cell)} (h : Harvests calls outcomes) :
    HarvestSet pd (outcomes.flatMap (·.results)) := by
  obtain ⟨hreturned, htapes, hcodes⟩ := h
  constructor
  · intro r hr
    obtain ⟨o, ho, hr⟩ := List.mem_flatMap.1 hr
    obtain ⟨c, hc, hreturn⟩ := exists_of_forall₂ hreturned ho
    exact ((HarvestCall.harvest_ok hreturn).2.2 r hr).settled (hcodes c hc)
  · clear hcodes
    induction hreturned with
    | nil => exact List.nodup_nil
    | @cons c o calls outcomes hreturn hrest ih =>
      rw [List.map_cons, List.nodup_cons] at htapes
      rw [List.flatMap_cons, List.map_append, List.nodup_append]
      refine ⟨?_, ih htapes.2, ?_⟩
      · have hgroups : (o.results.map (Prod.snd ∘ TapeDayResult.key)).Nodup := (HarvestCall.harvest_ok hreturn).1
        rw [← List.map_map] at hgroups
        exact List.Nodup.of_map _ hgroups
      · intro k hk k' hk' heq
        obtain ⟨r, hr, rfl⟩ := List.mem_map.1 hk
        obtain ⟨r', hr', rfl⟩ := List.mem_map.1 hk'
        obtain ⟨o', ho', hr'⟩ := List.mem_flatMap.1 hr'
        obtain ⟨c', hc', hreturn'⟩ := exists_of_forall₂ hrest ho'
        refine HarvestCall.group_ne hreturn hreturn' hr hr' (fun hsame => htapes.1 ?_) heq
        rw [hsame]
        exact List.mem_map.2 ⟨c', hc', rfl⟩

/-- **A harvest gives each needed cell one result, and a flush has on disk what it does not report.**  A harvest that
returns has one result of each closed cell it was asked for on its venue's tape, and no other; a complete one is of a day
its walk certified, with the rows of that day and session for ticks, and the others bring none.  It returns once its walk
has, where an empty tape has a page to show.  A flush of such results that returns reports those whose own write was
refused, and every other certified one has its ticks on disk, unless more were there. -/
theorem harvest_accounts [DecidableEq Cell] (pd : Pandas Cell) (batchRows : Int) :
    (∀ (c : HarvestCall pd) (o : Outcome Cell), c.harvestSymbolTape = some (.ok o) →
      (o.results.map TapeDayResult.group).Nodup ∧ (∀ cell, cell ∈ o.results.map TapeDayResult.group ↔ c.Needed cell) ∧
        ∀ r ∈ o.results, c.Accounted o r) ∧
    (∀ (c : HarvestCall pd) (wanted : List String) (asked : List (String × String)) (payload : Kiwoom.Payload)
      (deliveries : List Delivery) (slots : Nat), c.Routed → c.venue = "KRX" ∨ c.venue = "NXT" → Py.isBlank c.runId = false →
      c.requested = .ok (wanted, asked) →
      callWithTransportRetry c.transient (c.invoke (wanted.head?.getD "") wanted) c.settings.transportRetries 0 =
        some (.ok ((payload, deliveries), slots)) →
      (payload.terminationReason = .tapeEmpty →
        HarvestCall.emptyRefs (c.pageRefs (wanted.head?.getD "") wanted slots) ≠ []) →
      ∃ o, c.harvestSymbolTape = some (.ok o)) ∧
    ∀ (calls : List (HarvestCall pd)) (outcomes : List (Outcome Cell)), Harvests calls outcomes →
      ∀ (w w' : LoggedWorld Cell) (failed : Failed), Prog.Ends (LoggedExec pd)
        (flushGroups batchRows (groupResults (outcomes.flatMap (·.results)))) w (.ok failed) w' →
      ∃ new, w'.log = w.log ++ new ∧ (∀ k ∈ failedKeys failed, ∃ r ∈ outcomes.flatMap (·.results), r.key = k) ∧
        ∀ r ∈ outcomes.flatMap (·.results),
          (r.key ∈ failedKeys failed ↔ r.entry.isCertified = true ∧ OwnWriteRaised batchRows new r) ∧
          (r.entry.isCertified = false → r.frame.rows = []) ∧
          (r.entry.isCertified = true → r.key ∉ failedKeys failed →
            storedRows pd r.symbol (w.tape.store.files r.target) ≤ r.rows →
            rowsIn pd r.symbol (w'.tape.store.files r.target) = r.frame.rows) := by
  refine ⟨fun c o h => HarvestCall.harvest_ok h, ?_, ?_⟩
  · exact fun c wanted asked payload deliveries slots h hvenue hrun hreq hwalk hrefs =>
      HarvestCall.harvest_returns h hvenue hrun hreq hwalk hrefs
  · intro calls outcomes hharvests w w' failed hends
    have hset := hharvests.harvestSet
    obtain ⟨new, hnew, hreported⟩ := flushGroups_ends (groupResults_grouped _).nodup hset.batch hends
    refine ⟨new, hnew, ?_, fun r hr => ⟨?_, ?_, ?_⟩⟩
    · intro k hk
      obtain ⟨r, hr, heq⟩ := hreported.keys k hk
      exact ⟨r, (mem_certifiedOf.1 hr).1, heq⟩
    · constructor
      · intro hk
        obtain ⟨r', hr', heq⟩ := hreported.keys _ hk
        obtain ⟨hin, hc⟩ := mem_certifiedOf.1 hr'
        obtain rfl := List.inj_on_of_nodup_map hset.nodup hin hr heq
        exact ⟨hc, (hreported.failed_iff r' hr').1 hk⟩
      · rintro ⟨hc, hraised⟩
        exact (hreported.failed_iff r (mem_certifiedOf.2 ⟨hr, hc⟩)).2 hraised
    · intro hc
      obtain ⟨o, ho, hr⟩ := List.mem_flatMap.1 hr
      obtain ⟨c, -, hreturn⟩ := exists_of_forall₂ hharvests.returned ho
      refine ((HarvestCall.harvest_ok hreturn).2.2 r hr).others fun hcomplete => ?_
      rw [CoverageEntry.isCertified, hcomplete] at hc
      cases hc
    · intro hc hk hle
      have hdone := hreported.lands.done r ⟨mem_certifiedOf.2 ⟨hr, hc⟩, hk⟩
      rwa [if_pos hle] at hdone

/-! ## One tape of one tick -/

/-- Texts and numbers as cells. -/
def textCast : TickCast textCells where
  toNumeric s := (Kiwoom.decimalValue Kiwoom.asciiDigits s.toList).map fun n => (n : Rat)
  text s := (s, none)
  int32 q := ("", some q)
  int64 q := ("", some q)
  na := ("<NA>", none)
  flag b := (if b then "True" else "False", none)
  str_text _ := rfl

/-- ASCII digits. -/
def plainDigits : Digits where
  toUnicodeDigits := Kiwoom.asciiDigits
  isdigit_of_decimal ch h := by
    unfold Kiwoom.asciiDigits at h ⊢
    dsimp only at h ⊢
    split_ifs at h with hd
    · exact hd
    · cases h
  hyphen := by decide

/-- A tape of one tick, walked for the regular session of its day. -/
def oneTape (now : Instant) : HarvestCall textCells where
  digits := plainDigits
  cast := textCast
  settings := ⟨12000, 25, 2, 100, [("kiwoom:ka10079", "KRX")]⟩
  code := "005930"
  venue := "KRX"
  sessions := [⟨"regular", "KRX", "090000", "153000"⟩]
  runId := "tape-20260905-0000"
  days := []
  needed := some [("2026-09-04", "regular")]
  closedNow := now
  attempts _ :=
    { todayYmd := "20260905"
      events := [.response ⟨some "N", some "A005930202609041", some 0, "",
        [some [("cntr_tm", .str "20260904100000"), ("cur_prc", .str "71000"), ("trde_qty", .str "10")]]⟩ none]
      ref := fun i => "raw/tape-" ++ toString i ++ ".json" }
  transient _ := false
  today := "2026-09-05"
  ordinal s := (Order.fromisoformat s).toOption
  stageFragment _ _ _ _ := .ok "raw/staged.parquet"
  known := by decide
  distinct := by decide
  dated := by decide +kernel

/-- What a harvest returned, or an outcome without results. -/
def outcomeOf (c : HarvestCall textCells) : Outcome (String × Option Rat) :=
  match c.harvestSymbolTape with
  | some (.ok o) => o
  | _ => ⟨"", 0, [], [], []⟩

/-- Whether it returned. -/
def returns (c : HarvestCall textCells) : Bool :=
  match c.harvestSymbolTape with
  | some (.ok _) => true
  | _ => false

theorem harvest_of_returns {c : HarvestCall textCells} (h : returns c = true) : c.harvestSymbolTape = some (.ok (outcomeOf c)) := by
  unfold returns at h
  unfold outcomeOf
  split at h
  · rename_i o ho
    rw [ho]
  · cases h

/-- A disk that answers, with the writes noted. -/
def loggedAnswer (pd : Pandas Cell) [DecidableEq Cell] (op : TapeOp Cell) (w : LoggedWorld Cell) : op.Ret × LoggedWorld Cell :=
  ((tapeAnswer pd op w.tape).1,
    { tape := (tapeAnswer pd op w.tape).2
      log := match op with
        | .write args => w.log ++ [(args, (tapeAnswer pd (.write args) w.tape).1)]
        | _ => w.log })

theorem loggedAnswer_exec (pd : Pandas Cell) [DecidableEq Cell] (op : TapeOp Cell) (w : LoggedWorld Cell) :
    LoggedExec pd op w (loggedAnswer pd op w).1 (loggedAnswer pd op w).2 := by
  have h := tapeAnswer_exec pd op w.tape
  cases op with
  | write | closed | manifest | rowCount | appendRecord => exact ⟨h, rfl⟩

/-- The tape walked the day after. -/
def dayAfter : HarvestCall textCells := oneTape ⟨"2026-09-05", "090000"⟩

/-- The tape asked for while the session is open. -/
def sameDay : HarvestCall textCells := oneTape ⟨"2026-09-04", "100000"⟩

/-- The flush of the results of the day after, to a disk without ticks. -/
def flushDayAfter : TapeCall (String × Option Rat) Failed := flushGroups 1 (groupResults (outcomeOf dayAfter).results)

theorem harvest_accounts_one_tape : ∃ o w', dayAfter.harvestSymbolTape = some (.ok o) ∧
    o.results.map (fun r => (r.group, r.entry.status, r.rows)) = [(("2026-09-04", "regular"), .complete, 1)] ∧
    (o.results.map TapeDayResult.group).Nodup ∧
    (∀ cell, cell ∈ o.results.map TapeDayResult.group ↔ dayAfter.Needed cell) ∧
    Prog.Ends (LoggedExec textCells) (flushGroups 1 (groupResults o.results)) ⟨tapeWorld [], []⟩ (.ok []) w' ∧
    ∀ r ∈ o.results, rowsIn textCells r.symbol (w'.tape.store.files r.target) = r.frame.rows := by
  have hreturned : dayAfter.harvestSymbolTape = some (.ok (outcomeOf dayAfter)) := harvest_of_returns (by decide +kernel)
  have haccounts := harvest_accounts textCells 1
  have hends := Prog.run_ends (loggedAnswer_exec textCells) flushDayAfter ⟨tapeWorld [], []⟩
  have hok : (Prog.run (loggedAnswer textCells) flushDayAfter ⟨tapeWorld [], []⟩).1 = .ok [] := by decide +kernel
  rw [hok] at hends
  have hone : Harvests [dayAfter] [outcomeOf dayAfter] :=
    ⟨.cons hreturned .nil, List.nodup_singleton _, List.forall_mem_singleton.2 (by decide +kernel)⟩
  have hcertified : ∀ r ∈ (outcomeOf dayAfter).results, r.entry.isCertified = true ∧
      storedRows textCells r.symbol ((tapeWorld []).store.files r.target) ≤ r.rows := by decide +kernel
  have hflat : [outcomeOf dayAfter].flatMap (·.results) = (outcomeOf dayAfter).results := List.append_nil _
  have hflush := hends
  unfold flushDayAfter at hflush
  rw [← hflat] at hflush
  obtain ⟨new, -, -, hall⟩ := haccounts.2.2 _ _ hone _ _ _ hflush
  refine ⟨_, _, hreturned, by decide +kernel, (haccounts.1 _ _ hreturned).1, (haccounts.1 _ _ hreturned).2.1, hends, ?_⟩
  intro r hr
  obtain ⟨hc, hle⟩ := hcertified r hr
  exact (hall r (hflat ▸ hr)).2.2 hc List.not_mem_nil hle

/-- While the session is open its cell has no result: it is told as skipped. -/
theorem open_cell_without_result : ∃ o, sameDay.harvestSymbolTape = some (.ok o) ∧
    sameDay.needed = some [("2026-09-04", "regular")] ∧
    ("2026-09-04", "regular") ∉ o.results.map TapeDayResult.group ∧ o.skippedUnclosed = [("2026-09-04", "regular")] :=
  ⟨outcomeOf sameDay, harvest_of_returns (by decide +kernel), rfl, by decide +kernel⟩

end TapeHarvest
end Intraday
