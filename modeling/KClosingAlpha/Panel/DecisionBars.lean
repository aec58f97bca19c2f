import KClosingAlpha.Lib.Exc
import KClosingAlpha.Lib.Flt
import Mathlib
/-!
# DecisionBars — one day's bars up to the decision (`aggregate_decision_bars`)

A vendor stamps a minute bar at its start or at its end, and the bounds of the window are held against the interval the
stamp stands for.  Stamps are whole HHMMSS numbers, or missing; prices are computed exactly.  Whether a bar has a trade
is read from its column before.
-/
namespace DecisionBars

set_option linter.unusedSectionVars false

open Flt (nan fin)

/-! ## Clock numbers -/

def hhmmssToSeconds (hms : Int) : Int := hms / 10000 * 3600 + hms / 100 % 100 * 60 + hms % 100

def secondsToHhmmss (seconds : Int) : Int := seconds / 3600 * 10000 + seconds % 3600 / 60 * 100 + seconds % 60

def shiftMinutes (hms deltaMinutes : Int) : Int := secondsToHhmmss (hhmmssToSeconds hms + deltaMinutes * 60)

/-- A time of day: its minutes and seconds are below 60. -/
def IsClock (hms : Int) : Prop := 0 ≤ hms ∧ hms / 100 % 100 < 60 ∧ hms % 100 < 60

theorem hhmmssToSeconds_secondsToHhmmss (s : Int) : hhmmssToSeconds (secondsToHhmmss s) = s := by
  unfold hhmmssToSeconds secondsToHhmmss
  omega

theorem secondsToHhmmss_hhmmssToSeconds {t : Int} (h : IsClock t) : secondsToHhmmss (hhmmssToSeconds t) = t := by
  obtain ⟨h0, hm, hs⟩ := h
  unfold hhmmssToSeconds secondsToHhmmss
  omega

theorem shiftMinutes_back {t : Int} (h : IsClock t) : shiftMinutes (shiftMinutes t 1) (-1) = t := by
  rw [shiftMinutes, shiftMinutes, hhmmssToSeconds_secondsToHhmmss]
  have hsame : hhmmssToSeconds t + 1 * 60 + -1 * 60 = hhmmssToSeconds t := by omega
  rw [hsame, secondsToHhmmss_hhmmssToSeconds h]

/-! ## Configuration and rows -/

/-- BAR_STAMP_START and BAR_STAMP_END. -/
inductive Stamp where
  | start | finish
deriving DecidableEq

/-- The interval a bar stands for. -/
def Stamp.span : Stamp → Int → Int × Int
  | start, ts => (ts, shiftMinutes ts 1)
  | finish, ts => (shiftMinutes ts (-1), ts)

/-- A bar stamped at its start and the same bar stamped at its end stand for one interval. -/
theorem span_shiftMinutes {ts : Int} (h : IsClock ts) :
    Stamp.finish.span (shiftMinutes ts 1) = Stamp.start.span ts := by
  rw [Stamp.span, Stamp.span, shiftMinutes_back h]

/-- The fields of `Pit1520PanelConfig` that are read; a vendor of no declared convention is not in `stampConventions`. -/
structure Config (K : Type) where
  cutoffHhmmss : Int
  floorHhmmss : Int
  headWindowMinutes : Int
  stampConventions : List (String × Stamp)
  valueReconstructedVendors : List String
  excludedBarVendors : List String
  minuteGapMinSymbols : Int
  minuteGapMinShare : K

def Config.stampOf {K : Type} (cfg : Config K) (vendor : String) : Option Stamp := cfg.stampConventions.lookup vendor

structure BarRow (K : Type) where
  symbol : String
  tsHms : Option Int
  open_ : Flt K
  high : Flt K
  low : Flt K
  close : Flt K
  volume : Flt K
  valueKrw : Flt K
  hasTrade : Bool
  vendor : String
deriving DecidableEq

structure Aggregate (K : Type) where
  symbol : String
  open_ : Flt K
  high : Flt K
  low : Flt K
  close : Flt K
  volume : Flt K
  tradeValue100m : Flt K
  barsVendor : String
  nBars : Nat
  firstBarHms : Option Int
  lastBarHms : Option Int
  headLow : Flt K
  headHigh : Flt K
deriving DecidableEq

inductive Reason (K : Type) where
  | vendorExcluded (vendors : List String)
  | unknownBarStamp (vendors : List String)
  | mixedVendor (vendors : List String)
  | noBarsBeforeCutoff (included : Nat)
  | invalidPrice (open_ close : Flt K)
  | vendorMinuteGap (first : List Int) (n : Nat)
deriving DecidableEq

section

variable {K : Type} [Field K] [LinearOrder K] (cfg : Config K)

/-! ## Values -/

local instance two : Nat.AtLeastTwo 2 := ⟨le_rfl⟩

local instance three : Nat.AtLeastTwo 3 := ⟨by decide⟩

/-- The largest double, which `np.nan_to_num` puts for an infinity. -/
def maxDouble : K := (2 ^ 53 - 1) * 2 ^ 971

/-- `np.nan_to_num(x, nan=0.0)`. -/
def nanToNum : Flt K → Flt K
  | .nan => fin 0
  | .inf m => fin (if m then -maxDouble else maxDouble)
  | .fin x => fin x

/-- The traded value of a bar, rebuilt from the typical price where the vendor's own is not to be trusted. -/
def valueOf (r : BarRow K) : Flt K :=
  let typical := Flt.div (Flt.add (Flt.add r.high r.low) r.close) (fin 3)
  if r.vendor ∈ cfg.valueReconstructedVendors then nanToNum (Flt.mul (r.volume.fillna (fin 0)) typical)
  else r.valueKrw.fillna (fin 0)

/-- The reduction of a non-empty column. -/
def reduce (op : Flt K → Flt K → Flt K) : List (Flt K) → Flt K
  | [] => nan
  | x :: l => l.foldl op x

def maxOf : List (Flt K) → Flt K := reduce Flt.maximum

def minOf : List (Flt K) → Flt K := reduce Flt.minimum

def sumOf (l : List (Flt K)) : Flt K := l.foldl Flt.add (fin 0)

/-! ## One symbol -/

/-- A bar with its interval. -/
abbrev Slot (K : Type) := BarRow K × (Int × Int)

/-- The bars of a group whose stamp is a number, in the group's order. -/
def slots (stamp : Stamp) (group : List (BarRow K)) : List (Slot K) :=
  group.filterMap (fun r => r.tsHms.map (fun ts => (r, stamp.span ts)))

/-- A bar is admitted when its interval starts at or after the floor and ends at or before the cutoff. -/
def admitted (l : List (Slot K)) : List (Slot K) :=
  l.filter (fun x => decide (cfg.floorHhmmss ≤ x.2.1) && decide (x.2.2 ≤ cfg.cutoffHhmmss))

def priced (opens highs lows closes : List (Flt K)) : Bool :=
  (opens.headD nan).isFinite && (closes.getLastD nan).isFinite && highs.all Flt.isFinite && lows.all Flt.isFinite &&
    Flt.lt (fin 0) (opens.headD nan) && Flt.lt (fin 0) (closes.getLastD nan) && Flt.lt (fin 0) (maxOf highs) &&
    Flt.lt (fin 0) (minOf lows)

/-- The row of a symbol whose bars are of one vendor. -/
def aggregateBars (symbol vendor : String) (bars : List (Slot K)) : Except (Reason K) (Aggregate K) :=
  let inWindow := admitted cfg bars
  let used := inWindow.filter (fun x => x.1.hasTrade)
  let ordered := used.mergeSort (fun a b => decide (a.2.1 ≤ b.2.1))
  let opens := ordered.map (fun x => x.1.open_)
  let highs := ordered.map (fun x => x.1.high)
  let lows := ordered.map (fun x => x.1.low)
  let closes := ordered.map (fun x => x.1.close)
  let head := ordered.filter (fun x => decide (x.2.1 < shiftMinutes cfg.floorHhmmss cfg.headWindowMinutes))
  if used.isEmpty then .error (.noBarsBeforeCutoff inWindow.length)
  else if !priced opens highs lows closes then .error (.invalidPrice (opens.headD nan) (closes.getLastD nan))
  else .ok
    { symbol := symbol
      open_ := opens.headD nan
      high := maxOf highs
      low := minOf lows
      close := closes.getLastD nan
      volume := sumOf (inWindow.map (fun x => x.1.volume.fillna (fin 0)))
      tradeValue100m := Flt.div (sumOf (inWindow.map (fun x => valueOf cfg x.1))) (fin 100000000)
      barsVendor := vendor
      nBars := used.length
      firstBarHms := ordered.head?.bind (fun x => x.1.tsHms)
      lastBarHms := ordered.getLast?.bind (fun x => x.1.tsHms)
      headLow := minOf (head.map (fun x => x.1.low))
      headHigh := maxOf (head.map (fun x => x.1.high)) }

/-- The vendors of a group, each once, in order. -/
def groupVendors (group : List (BarRow K)) : List String :=
  (group.map BarRow.vendor).dedup.mergeSort (fun a b => decide (a ≤ b))

def aggregateGroup (symbol : String) (group : List (BarRow K)) : Except (Reason K) (Aggregate K) :=
  let vendors := groupVendors group
  if vendors.any (fun v => decide (v ∈ cfg.excludedBarVendors)) then .error (.vendorExcluded vendors)
  else if vendors.any (fun v => (cfg.stampOf v).isNone) then .error (.unknownBarStamp vendors)
  else match vendors with
    | [vendor] => match cfg.stampOf vendor with
      | some stamp => aggregateBars cfg symbol vendor (slots stamp group)
      | none => .error (.unknownBarStamp vendors)
    | _ => .error (.mixedVendor vendors)

/-! ## Minutes that a vendor dropped -/

/-- The start of a bar in seconds. -/
def startSeconds (r : BarRow K) : Option Int :=
  r.tsHms.map (fun ts => hhmmssToSeconds ts - if cfg.stampOf r.vendor = some .finish then 60 else 0)

/-- `np.arange(lo, hi, 60)`. -/
def minutesFrom (lo hi : Int) : List Int := (List.range ((hi - lo + 59) / 60).toNat).map (fun i => lo + 60 * i)

def median (counts : List Nat) : Flt K :=
  let sorted := counts.mergeSort (fun a b => decide (a ≤ b))
  match sorted[(counts.length - 1) / 2]?, sorted[counts.length / 2]? with
  | some a, some b => fin (((a : K) + (b : K)) / 2)
  | _, _ => nan

/-- `vendor_minute_gaps`. -/
def vendorMinuteGaps (bars : List (BarRow K)) : List Int :=
  if bars.any (fun r => (cfg.stampOf r.vendor).isNone) then []
  else
    let traded := (bars.filter BarRow.hasTrade).map (fun r => (r.symbol, startSeconds cfg r))
    if ((traded.map Prod.fst).dedup.length : Int) < cfg.minuteGapMinSymbols then []
    else
      let floor := hhmmssToSeconds cfg.floorHhmmss
      let cutoff := hhmmssToSeconds cfg.cutoffHhmmss
      let count (m : Int) : Nat :=
        ((traded.filter (fun x => decide (x.2 = some m) && decide (floor ≤ m) && decide (m + 60 ≤ cutoff))).map Prod.fst).dedup.length
      let minutes := minutesFrom floor cutoff
      let mid : Flt K := median (minutes.map count)
      if Flt.le mid (fin 0) then []
      else (minutes.filter (fun m => Flt.lt (fin (count m : K)) (Flt.mul (fin cfg.minuteGapMinShare) mid))).map secondsToHhmmss

/-! ## The table -/

def symbolsOf (bars : List (BarRow K)) : List String :=
  (bars.map BarRow.symbol).dedup.mergeSort (fun a b => decide (a ≤ b))

/-- `aggregate_decision_bars`: the aggregates and the exclusions. -/
def aggregateDecisionBars (bars : List (BarRow K)) : List (Aggregate K) × List (String × Reason K) :=
  let results := (symbolsOf bars).map
    (fun s => (s, aggregateGroup cfg s (bars.filter (fun r => decide (r.symbol = s)))))
  let rows := results.filterMap (fun x => x.2.toOption)
  let excluded := results.filterMap (fun x => match x.2 with
    | .error reason => some (x.1, reason)
    | .ok _ => none)
  let gaps := vendorMinuteGaps cfg (bars.filter (fun r => decide (r.vendor ∉ cfg.excludedBarVendors)))
  if gaps.isEmpty then (rows, excluded)
  else ([], excluded ++ rows.map (fun r => (r.symbol, .vendorMinuteGap (gaps.take 5) gaps.length)))

/-! ## Another stamp -/

/-- The fields of a bar that a row is made of. -/
structure SameBar (r r' : BarRow K) : Prop where
  symbol : r'.symbol = r.symbol
  open_ : r'.open_ = r.open_
  high : r'.high = r.high
  low : r'.low = r.low
  close : r'.close = r.close
  volume : r'.volume = r.volume
  value : valueOf cfg r' = valueOf cfg r
  hasTrade : r'.hasTrade = r.hasTrade

/-- A row without its vendor and the stamps of its first and last bar. -/
def Aggregate.content (a : Aggregate K) : Aggregate K := { a with barsVendor := "", firstBarHms := none, lastBarHms := none }

/-- The content of a row, where there is one. -/
def rowContent (x : Except (Reason K) (Aggregate K)) : Option (Aggregate K) := x.toOption.map Aggregate.content

/-- **A row is made of the intervals and the bars**, whatever they are stamped with. -/
theorem aggregateBars_congr (symbol vendor vendor' : String) (f : Slot K → Slot K) (bars : List (Slot K))
    (hspan : ∀ x, (f x).2 = x.2) (hbar : ∀ x ∈ bars, SameBar cfg x.1 (f x).1) :
    rowContent (aggregateBars cfg symbol vendor' (bars.map f)) = rowContent (aggregateBars cfg symbol vendor bars) := by
  have hwindow : admitted cfg (bars.map f) = (admitted cfg bars).map f := by
    rw [admitted, admitted, List.filter_map]
    exact congrArg (List.map f) (List.filter_congr fun x _ => by simp only [Function.comp_apply, hspan])
  have hsub : ∀ x ∈ admitted cfg bars, x ∈ bars := fun x hx => List.mem_of_mem_filter hx
  have hused : ((admitted cfg bars).map f).filter (fun x => x.1.hasTrade) =
      ((admitted cfg bars).filter (fun x => x.1.hasTrade)).map f := by
    rw [List.filter_map]
    exact congrArg (List.map f) (List.filter_congr fun x hx => by
      simp only [Function.comp_apply, (hbar x (hsub x hx)).hasTrade])
  have hordered : (((admitted cfg bars).filter (fun x => x.1.hasTrade)).map f).mergeSort (fun a b => decide (a.2.1 ≤ b.2.1)) =
      (((admitted cfg bars).filter (fun x => x.1.hasTrade)).mergeSort (fun a b => decide (a.2.1 ≤ b.2.1))).map f :=
    (List.map_mergeSort fun a _ b _ => by rw [hspan, hspan]).symm
  have hcolumn : ∀ (g : Slot K → Flt K), (∀ x ∈ bars, g (f x) = g x) → ∀ l : List (Slot K), (∀ x ∈ l, x ∈ bars) →
      (l.map f).map g = l.map g := fun g hg l hl => by
    rw [List.map_map]
    exact List.map_congr_left fun x hx => hg x (hl x hx)
  have hmem : ∀ x ∈ ((admitted cfg bars).filter (fun x => x.1.hasTrade)).mergeSort (fun a b => decide (a.2.1 ≤ b.2.1)),
      x ∈ bars := fun x hx => hsub x (List.mem_of_mem_filter ((List.mergeSort_perm _ _).mem_iff.1 hx))
  simp only [rowContent, aggregateBars, hwindow, hused, hordered]
  generalize ((admitted cfg bars).filter (fun x => x.1.hasTrade)).mergeSort (fun a b => decide (a.2.1 ≤ b.2.1)) = ordered at hmem
  have hhead : (ordered.map f).filter (fun x => decide (x.2.1 < shiftMinutes cfg.floorHhmmss cfg.headWindowMinutes)) =
      (ordered.filter (fun x => decide (x.2.1 < shiftMinutes cfg.floorHhmmss cfg.headWindowMinutes))).map f := by
    rw [List.filter_map]
    exact congrArg (List.map f) (List.filter_congr fun x _ => by simp only [Function.comp_apply, hspan])
  have hmemHead : ∀ x ∈ ordered.filter (fun x => decide (x.2.1 < shiftMinutes cfg.floorHhmmss cfg.headWindowMinutes)),
      x ∈ bars := fun x hx => hmem x (List.mem_of_mem_filter hx)
  have hopens := hcolumn (fun x => x.1.open_) (fun x hx => (hbar x hx).open_) ordered hmem
  have hhighs := hcolumn (fun x => x.1.high) (fun x hx => (hbar x hx).high) ordered hmem
  have hlows := hcolumn (fun x => x.1.low) (fun x hx => (hbar x hx).low) ordered hmem
  have hcloses := hcolumn (fun x => x.1.close) (fun x hx => (hbar x hx).close) ordered hmem
  have hheadHighs := hcolumn (fun x => x.1.high) (fun x hx => (hbar x hx).high) _ hmemHead
  have hheadLows := hcolumn (fun x => x.1.low) (fun x hx => (hbar x hx).low) _ hmemHead
  have hvolumes := hcolumn (fun x => x.1.volume.fillna (fin 0)) (fun x hx => by rw [(hbar x hx).volume]) _ hsub
  have hvalues := hcolumn (fun x => valueOf cfg x.1) (fun x hx => (hbar x hx).value) _ hsub
  simp only [hhead, hopens, hhighs, hlows, hcloses, hheadHighs, hheadLows, hvolumes, hvalues, List.isEmpty_map,
    List.length_map]
  split_ifs <;> rfl

/-- A symbol's START-stamped bars with another vendor's END stamp, a minute later; the other bars stay. -/
def restamp (symbol : String) (σ : String → String) (r : BarRow K) : BarRow K :=
  if r.symbol = symbol ∧ cfg.stampOf r.vendor = some .start then
    { r with vendor := σ r.vendor, tsHms := r.tsHms.map (fun ts => shiftMinutes ts 1) }
  else r

/-- The new vendors stamp at the end and are treated alike, and bars of different vendors stay so. -/
structure Interchanges (bars : List (BarRow K)) (symbol : String) (σ : String → String) : Prop where
  stamp : ∀ r ∈ bars, r.symbol = symbol → cfg.stampOf r.vendor = some .start → cfg.stampOf (σ r.vendor) = some .finish
  value : ∀ r ∈ bars, r.symbol = symbol → cfg.stampOf r.vendor = some .start →
    (σ r.vendor ∈ cfg.valueReconstructedVendors ↔ r.vendor ∈ cfg.valueReconstructedVendors)
  excluded : ∀ r ∈ bars, r.symbol = symbol → cfg.stampOf r.vendor = some .start →
    (σ r.vendor ∈ cfg.excludedBarVendors ↔ r.vendor ∈ cfg.excludedBarVendors)
  apart : ∀ r ∈ bars, ∀ r' ∈ bars, r.symbol = symbol → r'.symbol = symbol →
    (restamp cfg symbol σ r).vendor = (restamp cfg symbol σ r').vendor → r.vendor = r'.vendor
  clock : ∀ r ∈ bars, r.symbol = symbol → cfg.stampOf r.vendor = some .start → ∀ ts, r.tsHms = some ts → IsClock ts

section

variable {cfg} {bars : List (BarRow K)} {symbol : String} {σ : String → String}

theorem restamp_of_start {r : BarRow K} (hs : r.symbol = symbol) (hv : cfg.stampOf r.vendor = some .start) :
    restamp cfg symbol σ r = { r with vendor := σ r.vendor, tsHms := r.tsHms.map (fun ts => shiftMinutes ts 1) } :=
  if_pos ⟨hs, hv⟩

theorem restamp_of_not {r : BarRow K} (h : ¬ (r.symbol = symbol ∧ cfg.stampOf r.vendor = some .start)) :
    restamp cfg symbol σ r = r := if_neg h

theorem restamp_symbol (r : BarRow K) : (restamp cfg symbol σ r).symbol = r.symbol := by
  unfold restamp
  split <;> rfl

theorem restamp_hasTrade (r : BarRow K) : (restamp cfg symbol σ r).hasTrade = r.hasTrade := by
  unfold restamp
  split <;> rfl

theorem sameBar_restamp (h : Interchanges cfg bars symbol σ) {r : BarRow K} (hr : r ∈ bars) :
    SameBar cfg r (restamp cfg symbol σ r) := by
  by_cases hv : r.symbol = symbol ∧ cfg.stampOf r.vendor = some .start
  · rw [restamp_of_start hv.1 hv.2]
    refine ⟨rfl, rfl, rfl, rfl, rfl, rfl, ?_, rfl⟩
    simp only [valueOf, h.value r hr hv.1 hv.2]
  · rw [restamp_of_not hv]
    exact ⟨rfl, rfl, rfl, rfl, rfl, rfl, rfl, rfl⟩

/-- A new vendor is declared, and excluded, just where the old one is. -/
theorem vendor_restamp (h : Interchanges cfg bars symbol σ) {r : BarRow K} (hr : r ∈ bars) :
    ((restamp cfg symbol σ r).vendor ∈ cfg.excludedBarVendors ↔ r.vendor ∈ cfg.excludedBarVendors) ∧
      (cfg.stampOf (restamp cfg symbol σ r).vendor).isNone = (cfg.stampOf r.vendor).isNone := by
  by_cases hv : r.symbol = symbol ∧ cfg.stampOf r.vendor = some .start
  · rw [restamp_of_start hv.1 hv.2]
    exact ⟨h.excluded r hr hv.1 hv.2, by simp only [h.stamp r hr hv.1 hv.2, hv.2, Option.isNone_some]⟩
  · rw [restamp_of_not hv]
    exact ⟨Iff.rfl, rfl⟩

theorem startSeconds_restamp (h : Interchanges cfg bars symbol σ) {r : BarRow K} (hr : r ∈ bars) :
    startSeconds cfg (restamp cfg symbol σ r) = startSeconds cfg r := by
  by_cases hv : r.symbol = symbol ∧ cfg.stampOf r.vendor = some .start
  · rw [restamp_of_start hv.1 hv.2]
    simp only [startSeconds, h.stamp r hr hv.1 hv.2, hv.2, Option.map_map]
    refine congrArg (fun g => Option.map g r.tsHms) (funext fun ts => ?_)
    simp only [Function.comp_apply, shiftMinutes, hhmmssToSeconds_secondsToHhmmss]
    simp
  · rw [restamp_of_not hv]

/-! ## One group -/

theorem mem_groupVendors {group : List (BarRow K)} {v : String} : v ∈ groupVendors group ↔ ∃ r ∈ group, r.vendor = v := by
  rw [groupVendors, (List.mergeSort_perm _ _).mem_iff, List.mem_dedup, List.mem_map]

theorem any_groupVendors (p : String → Bool) (group : List (BarRow K)) :
    (groupVendors group).any p = group.any (fun r => p r.vendor) := by
  rw [Bool.eq_iff_iff, List.any_eq_true, List.any_eq_true]
  constructor
  · rintro ⟨v, hv, hp⟩
    obtain ⟨r, hr, rfl⟩ := mem_groupVendors.1 hv
    exact ⟨r, hr, hp⟩
  · rintro ⟨r, hr, hp⟩
    exact ⟨r.vendor, mem_groupVendors.2 ⟨r, hr, rfl⟩, hp⟩

theorem groupVendors_eq_singleton {group : List (BarRow K)} {v : String} :
    groupVendors group = [v] ↔ group ≠ [] ∧ ∀ r ∈ group, r.vendor = v := by
  have hnd : (groupVendors group).Nodup := (List.mergeSort_perm _ _).nodup_iff.2 (List.nodup_dedup _)
  constructor
  · intro h
    refine ⟨fun hnil => by simp [hnil, groupVendors] at h, fun r hr => ?_⟩
    exact List.mem_singleton.1 (h ▸ mem_groupVendors.2 ⟨r, hr, rfl⟩)
  · rintro ⟨hne, hall⟩
    obtain ⟨r, hr⟩ := List.exists_mem_of_ne_nil _ hne
    have hperm : (groupVendors group).Perm [v] := (List.perm_ext_iff_of_nodup hnd (List.nodup_singleton v)).2 fun v' => by
      rw [mem_groupVendors, List.mem_singleton]
      exact ⟨fun ⟨r', hr', hv'⟩ => hv'.symm.trans (hall r' hr'), fun hv' => ⟨r, hr, (hall r hr).trans hv'.symm⟩⟩
    exact List.perm_singleton.1 hperm

theorem slots_restamp (h : Interchanges cfg bars symbol σ) {group : List (BarRow K)} (hsub : ∀ r ∈ group, r ∈ bars)
    (hsymbol : ∀ r ∈ group, r.symbol = symbol) (hstart : ∀ r ∈ group, cfg.stampOf r.vendor = some .start) :
    slots .finish (group.map (restamp cfg symbol σ)) =
      (slots .start group).map (fun x => (restamp cfg symbol σ x.1, x.2)) := by
  rw [slots, slots, List.filterMap_map, List.map_filterMap]
  refine List.filterMap_congr fun r hr => ?_
  have hclock := h.clock r (hsub r hr) (hsymbol r hr) (hstart r hr)
  cases hts : r.tsHms with
  | none => simp [restamp_of_start (hsymbol r hr) (hstart r hr), hts]
  | some ts =>
    simp only [Function.comp_apply, restamp_of_start (hsymbol r hr) (hstart r hr), hts, Option.map_some,
      span_shiftMinutes (hclock ts hts)]

theorem map_restamp_of_not {group : List (BarRow K)}
    (h : ∀ r ∈ group, ¬ (r.symbol = symbol ∧ cfg.stampOf r.vendor = some .start)) :
    group.map (restamp cfg symbol σ) = group :=
  (List.map_congr_left fun r hr => restamp_of_not (h r hr)).trans group.map_id'

/-- No row is made of bars of several vendors. -/
theorem rowContent_of_mixed {group : List (BarRow K)} (h : ¬ ∃ v, groupVendors group = [v]) :
    rowContent (aggregateGroup cfg symbol group) = none := by
  unfold aggregateGroup
  dsimp only
  split_ifs
  · rfl
  · rfl
  · split
    · next v hv => exact absurd ⟨v, hv⟩ h
    · rfl

/-- **The row of a symbol is the same under the other stamp.** -/
theorem aggregateGroup_restamp (h : Interchanges cfg bars symbol σ) {group : List (BarRow K)} (hsub : ∀ r ∈ group, r ∈ bars)
    (hsymbol : ∀ r ∈ group, r.symbol = symbol) :
    rowContent (aggregateGroup cfg symbol (group.map (restamp cfg symbol σ))) =
      rowContent (aggregateGroup cfg symbol group) := by
  have hexcluded : (groupVendors (group.map (restamp cfg symbol σ))).any (fun v => decide (v ∈ cfg.excludedBarVendors)) =
      (groupVendors group).any (fun v => decide (v ∈ cfg.excludedBarVendors)) := by
    rw [any_groupVendors, any_groupVendors, List.any_map, Bool.eq_iff_iff, List.any_eq_true, List.any_eq_true]
    exact exists_congr fun r => and_congr_right fun hr => by
      simp only [Function.comp_apply, (vendor_restamp h (hsub r hr)).1]
  have hunknown : (groupVendors (group.map (restamp cfg symbol σ))).any (fun v => (cfg.stampOf v).isNone) =
      (groupVendors group).any (fun v => (cfg.stampOf v).isNone) := by
    rw [any_groupVendors, any_groupVendors, List.any_map, Bool.eq_iff_iff, List.any_eq_true, List.any_eq_true]
    exact exists_congr fun r => and_congr_right fun hr => by
      simp only [Function.comp_apply, (vendor_restamp h (hsub r hr)).2]
  by_cases hone : ∃ v, groupVendors group = [v]
  · obtain ⟨v, hv⟩ := hone
    obtain ⟨hne, hall⟩ := groupVendors_eq_singleton.1 hv
    by_cases hstart : cfg.stampOf v = some .start
    · have hstarts : ∀ r ∈ group, cfg.stampOf r.vendor = some .start := fun r hr => (hall r hr).symm ▸ hstart
      have hv' : groupVendors (group.map (restamp cfg symbol σ)) = [σ v] := by
        rw [groupVendors_eq_singleton]
        refine ⟨by simpa using hne, fun r' hr' => ?_⟩
        obtain ⟨r, hr, rfl⟩ := List.mem_map.1 hr'
        rw [restamp_of_start (hsymbol r hr) (hstarts r hr), hall r hr]
      obtain ⟨r, hr⟩ := List.exists_mem_of_ne_nil _ hne
      have hfinish : cfg.stampOf (σ v) = some .finish := hall r hr ▸ h.stamp r (hsub r hr) (hsymbol r hr) (hstarts r hr)
      have hbars := aggregateBars_congr cfg symbol v (σ v) (fun x => (restamp cfg symbol σ x.1, x.2)) (slots .start group)
        (fun _ => rfl) (fun x hx => by
          obtain ⟨r, hr, hx⟩ := List.mem_filterMap.1 hx
          obtain ⟨ts, -, rfl⟩ := Option.map_eq_some_iff.1 hx
          exact sameBar_restamp h (hsub r hr))
      rw [← slots_restamp h hsub hsymbol hstarts] at hbars
      rw [hv, hv'] at hexcluded hunknown
      simp only [aggregateGroup, hv, hv', hexcluded, hunknown, hstart, hfinish]
      split_ifs
      · rfl
      · rfl
      · exact hbars
    · rw [map_restamp_of_not fun r hr hr' => hstart (hall r hr ▸ hr'.2)]
  · have hone' : ¬ ∃ v, groupVendors (group.map (restamp cfg symbol σ)) = [v] := by
      rintro ⟨v', hv'⟩
      obtain ⟨hne, hall⟩ := groupVendors_eq_singleton.1 hv'
      have hne' : group ≠ [] := by simpa using hne
      obtain ⟨r, hr⟩ := List.exists_mem_of_ne_nil _ hne'
      refine hone ⟨r.vendor, groupVendors_eq_singleton.2 ⟨hne', fun r' hr' => ?_⟩⟩
      refine h.apart r' (hsub r' hr') r (hsub r hr) (hsymbol r' hr') (hsymbol r hr) ?_
      rw [hall _ (List.mem_map_of_mem hr'), hall _ (List.mem_map_of_mem hr)]
    rw [rowContent_of_mixed hone, rowContent_of_mixed hone']

/-! ## The table -/

theorem symbolsOf_restamp : symbolsOf (bars.map (restamp cfg symbol σ)) = symbolsOf bars := by
  have hsymbols : (bars.map (restamp cfg symbol σ)).map BarRow.symbol = bars.map BarRow.symbol := by
    rw [List.map_map]
    exact List.map_congr_left fun r _ => restamp_symbol r
  rw [symbolsOf, symbolsOf, hsymbols]

theorem group_restamp (s : String) : (bars.map (restamp cfg symbol σ)).filter (fun r => decide (r.symbol = s)) =
    (bars.filter (fun r => decide (r.symbol = s))).map (restamp cfg symbol σ) := by
  rw [List.filter_map]
  exact congrArg (List.map _) (List.filter_congr fun r _ => by simp only [Function.comp_apply, restamp_symbol])

theorem vendorMinuteGaps_restamp (h : Interchanges cfg bars symbol σ) {l : List (BarRow K)} (hsub : ∀ r ∈ l, r ∈ bars) :
    vendorMinuteGaps cfg (l.map (restamp cfg symbol σ)) = vendorMinuteGaps cfg l := by
  have hunknown : (l.map (restamp cfg symbol σ)).any (fun r => (cfg.stampOf r.vendor).isNone) =
      l.any (fun r => (cfg.stampOf r.vendor).isNone) := by
    rw [List.any_map, Bool.eq_iff_iff, List.any_eq_true, List.any_eq_true]
    exact exists_congr fun r => and_congr_right fun hr => by
      simp only [Function.comp_apply, (vendor_restamp h (hsub r hr)).2]
  have htraded : ((l.map (restamp cfg symbol σ)).filter BarRow.hasTrade).map (fun r => (r.symbol, startSeconds cfg r)) =
      (l.filter BarRow.hasTrade).map (fun r => (r.symbol, startSeconds cfg r)) := by
    have hfilter : (l.map (restamp cfg symbol σ)).filter BarRow.hasTrade =
        (l.filter BarRow.hasTrade).map (restamp cfg symbol σ) := by
      rw [List.filter_map]
      exact congrArg (List.map _) (List.filter_congr fun r _ => by simp only [Function.comp_apply, restamp_hasTrade])
    rw [hfilter, List.map_map]
    refine List.map_congr_left fun r hr => ?_
    simp only [Function.comp_apply, restamp_symbol, startSeconds_restamp h (hsub r (List.mem_of_mem_filter hr))]
  simp only [vendorMinuteGaps, hunknown, htraded]

/-- **Stamp conventions are interchangeable**: every row of the day has the content it had. -/
theorem aggregateDecisionBars_restamp (h : Interchanges cfg bars symbol σ) :
    (aggregateDecisionBars cfg (bars.map (restamp cfg symbol σ))).1.map Aggregate.content =
      (aggregateDecisionBars cfg bars).1.map Aggregate.content := by
  have hgaps : vendorMinuteGaps cfg ((bars.map (restamp cfg symbol σ)).filter
      (fun r => decide (r.vendor ∉ cfg.excludedBarVendors))) =
        vendorMinuteGaps cfg (bars.filter (fun r => decide (r.vendor ∉ cfg.excludedBarVendors))) := by
    have hfilter : (bars.map (restamp cfg symbol σ)).filter (fun r => decide (r.vendor ∉ cfg.excludedBarVendors)) =
        (bars.filter (fun r => decide (r.vendor ∉ cfg.excludedBarVendors))).map (restamp cfg symbol σ) := by
      rw [List.filter_map]
      exact congrArg (List.map _) (List.filter_congr fun r hr => by simp only [Function.comp_apply, (vendor_restamp h hr).1])
    rw [hfilter, vendorMinuteGaps_restamp h fun r hr => List.mem_of_mem_filter hr]
  have hgroup : ∀ s, rowContent (aggregateGroup cfg s ((bars.map (restamp cfg symbol σ)).filter
      (fun r => decide (r.symbol = s)))) = rowContent (aggregateGroup cfg s (bars.filter (fun r => decide (r.symbol = s)))) := by
    intro s
    rw [group_restamp]
    have hsymbol : ∀ r ∈ bars.filter (fun r => decide (r.symbol = s)), r.symbol = s := fun r hr => by
      simpa using (List.mem_filter.1 hr).2
    by_cases hs : s = symbol
    · subst hs
      exact aggregateGroup_restamp h (fun r hr => List.mem_of_mem_filter hr) hsymbol
    · rw [map_restamp_of_not fun r hr hr' => hs ((hsymbol r hr).symm.trans hr'.1)]
  have hrows : ∀ l : List (BarRow K), (((symbolsOf bars).map
      (fun s => (s, aggregateGroup cfg s (l.filter (fun r => decide (r.symbol = s)))))).filterMap (fun x => x.2.toOption)).map
        Aggregate.content =
      (symbolsOf bars).filterMap (fun s => rowContent (aggregateGroup cfg s (l.filter (fun r => decide (r.symbol = s))))) := by
    intro l
    rw [List.filterMap_map, List.map_filterMap]
    rfl
  have hcontents := (hrows (bars.map (restamp cfg symbol σ))).trans
    ((List.filterMap_congr fun s _ => hgroup s).trans (hrows bars).symm)
  simp only [aggregateDecisionBars, hgaps, symbolsOf_restamp]
  split_ifs
  · exact hcontents
  · rfl

end

end

/-! ## A vendor that is left out -/

/-- The declared conventions, no rebuilt values, and some vendors excluded. -/
def sampleConfig (excluded : List String) : Config ℚ :=
  { cutoffHhmmss := 152000
    floorHhmmss := 90000
    headWindowMinutes := 5
    stampConventions := [("kis", .start), ("kiwoom", .start), ("ls", .finish), ("toss", .finish), ("dbsec", .start)]
    valueReconstructedVendors := []
    excludedBarVendors := excluded
    minuteGapMinSymbols := 30
    minuteGapMinShare := 1 / 5 }

/-- A minute of a KIS symbol. -/
def kisBar (ts : Int) : BarRow ℚ :=
  ⟨"005930", some ts, fin 70000, fin 70100, fin 69900, fin 70000, fin 10, fin 700000, true, "kis"⟩

theorem interchanges_ls : Interchanges (sampleConfig []) [kisBar 90000, kisBar 151900] "005930" (fun _ => "ls") := by
  refine ⟨by decide, by decide, by decide, by decide, fun r hr _ _ ts hts => ?_⟩
  simp only [List.mem_cons, List.not_mem_nil, or_false] at hr
  rcases hr with rfl | rfl <;> cases hts <;> exact ⟨by decide, by decide, by decide⟩

/-- The first and the last minute of a day, stamped at their ends. -/
theorem aggregate_ls : (aggregateDecisionBars (sampleConfig [])
      ([kisBar 90000, kisBar 151900].map (restamp (sampleConfig []) "005930" (fun _ => "ls")))).1.map Aggregate.content =
    (aggregateDecisionBars (sampleConfig []) [kisBar 90000, kisBar 151900]).1.map Aggregate.content :=
  aggregateDecisionBars_restamp interchanges_ls

theorem kis_row : ((aggregateGroup (sampleConfig ["ls"]) "005930" [kisBar 90000]).toOption).isSome = true := by
  have hvendors : groupVendors [kisBar 90000] = ["kis"] := groupVendors_eq_singleton.2 ⟨by decide, by decide⟩
  have hadmitted : admitted (sampleConfig ["ls"]) (slots .start [kisBar 90000]) = [(kisBar 90000, (90000, 90100))] := by
    decide +kernel
  have hstamp : (sampleConfig ["ls"]).stampOf "kis" = some .start := by decide
  have hused : [(kisBar 90000, ((90000, 90100) : Int × Int))].filter (fun x => x.1.hasTrade) =
      [(kisBar 90000, (90000, 90100))] := rfl
  simp only [aggregateGroup, hvendors, hstamp, aggregateBars, hadmitted, hused, List.mergeSort_singleton]
  decide +kernel

/-- **The bars of an excluded vendor make no row**, though it stamps at the end and its values are taken as they are. -/
theorem excluded_ls : (sampleConfig ["ls"]).stampOf "ls" = some .finish ∧
    (aggregateDecisionBars (sampleConfig ["ls"]) [kisBar 90000]).1.length = 1 ∧
    (aggregateDecisionBars (sampleConfig ["ls"]) ([kisBar 90000].map
      (restamp (sampleConfig ["ls"]) "005930" (fun _ => "ls")))).1 = [] := by
  have hsymbols : symbolsOf [kisBar 90000] = ["005930"] := List.mergeSort_singleton _
  have hgroup : [kisBar 90000].filter (fun r => decide (r.symbol = "005930")) = [kisBar 90000] := by decide +kernel
  refine ⟨by decide, ?_, ?_⟩
  · obtain ⟨a, ha⟩ := Option.isSome_iff_exists.1 kis_row
    have hgaps : vendorMinuteGaps (sampleConfig ["ls"]) ([kisBar 90000].filter
        (fun r => decide (r.vendor ∉ (sampleConfig ["ls"]).excludedBarVendors))) = [] := by decide +kernel
    simp only [aggregateDecisionBars, hsymbols, hgaps, List.isEmpty_nil, if_true, List.map_cons, List.map_nil, hgroup,
      List.filterMap_cons, ha, List.filterMap_nil, List.length_singleton]
  · have hrow : (aggregateGroup (sampleConfig ["ls"]) "005930"
        ([kisBar 90000].map (restamp (sampleConfig ["ls"]) "005930" (fun _ => "ls")))).toOption = none := by
      have hvendors : groupVendors ([kisBar 90000].map (restamp (sampleConfig ["ls"]) "005930" (fun _ => "ls"))) = ["ls"] :=
        groupVendors_eq_singleton.2 ⟨by decide, by decide⟩
      simp only [aggregateGroup, hvendors]
      decide +kernel
    simp only [aggregateDecisionBars, symbolsOf_restamp, hsymbols, List.map_cons (f := fun s => (s, _)), List.map_nil,
      group_restamp, hgroup, List.filterMap_cons, hrow, List.filterMap_nil]
    split_ifs <;> rfl

end DecisionBars
