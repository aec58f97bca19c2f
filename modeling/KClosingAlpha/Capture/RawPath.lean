import KClosingAlpha.Capture.Publish
/-!
# RawPath — where a raw response is kept (`CaptureStore._raw_rel`)

The path of a response is made of its date, vendor, dataset, endpoint, run, symbol, page and attempt.  Its pieces hold no
slash and its name splits at its dashes, so the path tells each of them apart; venue, session, cohort and clocks are in
the envelope only.
-/
namespace Capture

inductive CaptureDataset where
  | scan
  | price
  | investorEstimate
  | orderbook
  | program
  | minuteBars
  | tradeTicks
  | dailyBars
  | disclosure
  | shorting
  | creditBalance
  | derivativesBasis
  | programDaily
  | auctionPath
  deriving DecidableEq

def CaptureDataset.value : CaptureDataset → String
  | scan => "SCAN"
  | price => "PRICE"
  | investorEstimate => "INVESTOR_ESTIMATE"
  | orderbook => "ORDERBOOK"
  | program => "PROGRAM"
  | minuteBars => "MINUTE_BARS"
  | tradeTicks => "TRADE_TICKS"
  | dailyBars => "DAILY_BARS"
  | disclosure => "DISCLOSURE"
  | shorting => "SHORTING"
  | creditBalance => "CREDIT_BALANCE"
  | derivativesBasis => "DERIVATIVES_BASIS"
  | programDaily => "PROGRAM_DAILY"
  | auctionPath => "AUCTION_PATH"

structure Date where
  year : Nat
  month : Nat
  day : Nat
  deriving DecidableEq

/-- `f"{n:0{width}d}"`. -/
def zeroPadded (width n : Nat) : List Char :=
  List.replicate (width - (Nat.toDigits 10 n).length) '0' ++ Nat.toDigits 10 n

def Date.isoformat (d : Date) : String :=
  String.ofList (zeroPadded 4 d.year ++ '-' :: (zeroPadded 2 d.month ++ '-' :: zeroPadded 2 d.day))

/-- `[A-Za-z0-9]`. -/
def asciiAlnum (c : Char) : Bool := c.isUpper || c.isLower || c.isDigit

/-- `_SYMBOL_RE` in full. -/
def isSymbol (s : String) : Bool := !s.toList.isEmpty && s.toList.all asciiAlnum

/-- `CaptureContext`, as its validators leave it. -/
structure CaptureContext where
  tradingDate : Date
  runId : String
  dataset : CaptureDataset
  vendor : String
  endpoint : String
  symbol : Option String
  venue : String
  session : String
  captureReason : String
  cohortId : Option String
  scheduledAt : Option Int
  routed : [runId, vendor, endpoint, venue, session, captureReason].all pathSafe = true
  cohorted : cohortId.all pathSafe = true
  named : symbol.all isSymbol = true

/-- `CapturedResponse`, with instants for its observation clocks and the payload left to its envelope. -/
structure CapturedResponse where
  context : CaptureContext
  requestStartedAt : Int
  receivedAt : Int
  pageIndex : Nat
  attemptIndex : Nat
  chronological : requestStartedAt ≤ receivedAt

/-- `[A-Za-z0-9_-]`. -/
def endpointChar (c : Char) : Bool := asciiAlnum c || c = '_' || c = '-'

/-- Every run of other characters becomes one dash; the flag says whether one is under way. -/
def dashed : Bool → List Char → List Char
  | _, [] => []
  | inRun, c :: cs =>
    if endpointChar c then c :: dashed false cs else if inRun then dashed true cs else '-' :: dashed true cs

/-- `text.strip("-")`. -/
def stripDashes (cs : List Char) : List Char :=
  ((cs.dropWhile (fun c => decide (c = '-'))).reverse.dropWhile (fun c => decide (c = '-'))).reverse

/-- The endpoint's directory. -/
def endpointSegment (endpoint : String) : String :=
  let cs := stripDashes (dashed false endpoint.toList)
  if cs = [] then "endpoint" else String.ofList cs

def symbolSegment (symbol : Option String) : String := symbol.getD "nosymbol"

namespace CapturedResponse

def name (r : CapturedResponse) : String :=
  String.ofList ((symbolSegment r.context.symbol).toList ++ '-' :: 'p' :: (zeroPadded 4 r.pageIndex ++
    '-' :: 'a' :: (zeroPadded 2 r.attemptIndex ++ ".json.gz".toList)))

/-- The path below `raw`. -/
def route (r : CapturedResponse) : Path :=
  [r.context.tradingDate.isoformat, r.context.vendor, r.context.dataset.value, endpointSegment r.context.endpoint,
    r.context.runId, r.name]

/-- `_raw_rel`. -/
def rawRel (r : CapturedResponse) : Path := "raw" :: r.route

end CapturedResponse

/-! ## Texts that split -/

/-- A delimiter that neither front holds splits a list in one way. -/
theorem split_unique {α : Type} {c : α} {xs ys xs' ys' : List α} (hxs : c ∉ xs) (hys : c ∉ ys)
    (h : xs ++ c :: xs' = ys ++ c :: ys') : xs = ys ∧ xs' = ys' := by
  induction xs generalizing ys with
  | nil =>
    cases ys with
    | nil =>
      cases h
      exact ⟨rfl, rfl⟩
    | cons y ys =>
      cases h
      exact absurd List.mem_cons_self hys
  | cons x xs ih =>
    cases ys with
    | nil =>
      cases h
      exact absurd List.mem_cons_self hxs
    | cons y ys =>
      rw [List.cons_append, List.cons_append] at h
      obtain ⟨rfl, htail⟩ := List.cons.inj h
      obtain ⟨rfl, hrest⟩ := ih (fun hc => hxs (List.mem_cons_of_mem _ hc)) (fun hc => hys (List.mem_cons_of_mem _ hc)) htail
      exact ⟨rfl, hrest⟩

theorem isDigit_of_mem_zeroPadded {width n : Nat} {c : Char} (h : c ∈ zeroPadded width n) : c.isDigit = true := by
  rcases List.mem_append.1 h with h | h
  · rw [List.eq_of_mem_replicate h]
    rfl
  · exact Nat.isDigit_of_mem_toDigits (by decide) (by decide) h

/-- A number padded to any width reads back. -/
theorem zeroPadded_inj {width n m : Nat} (h : zeroPadded width n = zeroPadded width m) : n = m := by
  have hread (k : Nat) : Nat.ofDigitChars 10 (zeroPadded width k) 0 = k := by
    rw [zeroPadded, Nat.ofDigitChars_append, Nat.ofDigitChars_replicate_zero, Nat.mul_zero, Nat.ofDigitChars_ten_toDigits]
  rw [← hread n, h, hread m]

theorem not_mem_zeroPadded {width n : Nat} {c : Char} (hc : c.isDigit = false) : c ∉ zeroPadded width n := by
  intro h
  rw [isDigit_of_mem_zeroPadded h] at hc
  cases hc

theorem isoformat_inj : ∀ {d d' : Date}, d.isoformat = d'.isoformat → d = d' := by
  rintro ⟨year, month, day⟩ ⟨year', month', day'⟩ h
  have hlist := String.ofList_injective h
  obtain ⟨hyear, hrest⟩ := split_unique (not_mem_zeroPadded rfl) (not_mem_zeroPadded rfl) hlist
  obtain ⟨hmonth, hday⟩ := split_unique (not_mem_zeroPadded rfl) (not_mem_zeroPadded rfl) hrest
  obtain rfl := zeroPadded_inj hyear
  obtain rfl := zeroPadded_inj hmonth
  obtain rfl := zeroPadded_inj hday
  rfl

theorem value_inj {x y : CaptureDataset} (h : x.value = y.value) : x = y := by
  revert h
  cases x <;> cases y <;> decide

theorem not_mem_symbolSegment {symbol : Option String} (h : symbol.all isSymbol = true) {c : Char}
    (hc : asciiAlnum c = false) : c ∉ (symbolSegment symbol).toList := by
  intro hmem
  have hall : (symbolSegment symbol).toList.all asciiAlnum = true := by
    cases symbol with
    | none => decide
    | some s =>
      simp only [Option.all_some, isSymbol, Bool.and_eq_true] at h
      exact h.2
  rw [List.all_eq_true.1 hall c hmem] at hc
  cases hc

/-- A name tells the symbol, the page and the attempt. -/
theorem name_inj {r s : CapturedResponse} (h : r.name = s.name) :
    symbolSegment r.context.symbol = symbolSegment s.context.symbol ∧ r.pageIndex = s.pageIndex ∧
      r.attemptIndex = s.attemptIndex := by
  have hlist := String.ofList_injective h
  obtain ⟨hsymbol, hrest⟩ := split_unique (not_mem_symbolSegment r.context.named rfl)
    (not_mem_symbolSegment s.context.named rfl) hlist
  obtain ⟨-, hrest⟩ := List.cons.inj hrest
  obtain ⟨hpage, hrest⟩ := split_unique (not_mem_zeroPadded rfl) (not_mem_zeroPadded rfl) hrest
  obtain ⟨-, hrest⟩ := List.cons.inj hrest
  exact ⟨String.toList_injective hsymbol, zeroPadded_inj hpage, zeroPadded_inj (List.append_cancel_right hrest)⟩

/-! ## Paths without slashes in their segments -/

def SlashFree (s : String) : Prop := '/' ∉ s.toList

/-- The text of a path tells its segments. -/
theorem text_inj {p q : Path} (hp : ∀ s ∈ p, SlashFree s) (hq : ∀ s ∈ q, SlashFree s) (hpn : p ≠ []) (hqn : q ≠ [])
    (h : p.text = q.text) : p = q := by
  have hsplit {l : Path} (hl : ∀ s ∈ l, SlashFree s) (hn : l ≠ []) : l.text.toList.splitOn '/' = l.map String.toList := by
    rw [Path.text, String.toList_intercalate]
    exact List.splitOn_intercalate _ (by simpa [SlashFree] using hl) (by simpa using hn)
  have hmap : p.map String.toList = q.map String.toList := by rw [← hsplit hp hpn, h, hsplit hq hqn]
  exact List.map_injective_iff.2 (fun _ _ => String.toList_injective) hmap

theorem slashFree_of_pathSafe {s : String} (h : pathSafe s = true) : SlashFree s := by
  intro hmem
  simp only [pathSafe, Bool.and_eq_true, Bool.not_eq_true', List.any_eq_false] at h
  simpa using h.1.1.2 '/' hmem

theorem mem_dashed {c : Char} : ∀ {cs : List Char} {inRun : Bool}, c ∈ dashed inRun cs → endpointChar c = true
  | [], _, h => by cases h
  | d :: cs, inRun, h => by
    rw [dashed] at h
    split_ifs at h with hd hrun
    · rcases List.mem_cons.1 h with rfl | h
      · exact hd
      · exact mem_dashed h
    · exact mem_dashed h
    · rcases List.mem_cons.1 h with rfl | h
      · decide
      · exact mem_dashed h

theorem mem_of_mem_stripDashes {c : Char} {cs : List Char} (h : c ∈ stripDashes cs) : c ∈ cs := by
  have h' := (List.dropWhile_sublist _).subset (List.mem_reverse.1 h)
  exact (List.dropWhile_sublist _).subset (List.mem_reverse.1 h')

theorem slashFree_endpointSegment (endpoint : String) : SlashFree (endpointSegment endpoint) := by
  unfold SlashFree endpointSegment
  dsimp only
  split_ifs with h
  · decide
  · rw [String.toList_ofList]
    exact fun hmem => absurd (mem_dashed (mem_of_mem_stripDashes hmem)) (by decide)

theorem slashFree_rawRel (r : CapturedResponse) : ∀ s ∈ r.rawRel, SlashFree s := by
  have hroute : ∀ s ∈ [r.context.runId, r.context.vendor, r.context.endpoint, r.context.venue, r.context.session,
      r.context.captureReason], pathSafe s = true := List.all_eq_true.1 r.context.routed
  intro s hs
  simp only [CapturedResponse.rawRel, CapturedResponse.route, List.mem_cons, List.not_mem_nil, or_false] at hs
  rcases hs with rfl | rfl | rfl | rfl | rfl | rfl | rfl
  · unfold SlashFree
    decide
  · unfold SlashFree Date.isoformat
    simp [not_mem_zeroPadded (c := '/') rfl]
  · exact slashFree_of_pathSafe (hroute _ (by simp))
  · unfold SlashFree
    cases r.context.dataset <;> decide
  · exact slashFree_endpointSegment _
  · exact slashFree_of_pathSafe (hroute _ (by simp))
  · unfold SlashFree CapturedResponse.name
    simp [not_mem_zeroPadded (c := '/') rfl, not_mem_symbolSegment r.context.named (c := '/') rfl]

/-! ## What a path identifies -/

/-- The parts of a response's identity its path is made of, as the path has them. -/
structure SamePlace (r s : CapturedResponse) : Prop where
  tradingDate : r.context.tradingDate = s.context.tradingDate
  vendor : r.context.vendor = s.context.vendor
  dataset : r.context.dataset = s.context.dataset
  endpoint : endpointSegment r.context.endpoint = endpointSegment s.context.endpoint
  runId : r.context.runId = s.context.runId
  symbol : symbolSegment r.context.symbol = symbolSegment s.context.symbol
  page : r.pageIndex = s.pageIndex
  attempt : r.attemptIndex = s.attemptIndex

theorem SamePlace.rawRel {r s : CapturedResponse} (h : SamePlace r s) : r.rawRel = s.rawRel := by
  have hname : r.name = s.name := by rw [CapturedResponse.name, CapturedResponse.name, h.symbol, h.page, h.attempt]
  rw [CapturedResponse.rawRel, CapturedResponse.rawRel, CapturedResponse.route, CapturedResponse.route, h.tradingDate,
    h.vendor, h.dataset, h.endpoint, h.runId, hname]

/-- **Two paths have one text exactly for one place.** -/
theorem rawRel_text_eq_iff {r s : CapturedResponse} : r.rawRel.text = s.rawRel.text ↔ SamePlace r s := by
  constructor
  · intro h
    have hpath : r.rawRel = s.rawRel :=
      text_inj (slashFree_rawRel r) (slashFree_rawRel s) (List.cons_ne_nil _ _) (List.cons_ne_nil _ _) h
    simp only [CapturedResponse.rawRel, CapturedResponse.route, List.cons.injEq, and_true, true_and] at hpath
    obtain ⟨hdate, hvendor, hdataset, hendpoint, hrun, hname⟩ := hpath
    obtain ⟨hsymbol, hpage, hattempt⟩ := name_inj hname
    exact ⟨isoformat_inj hdate, hvendor, value_inj hdataset, hendpoint, hrun, hsymbol, hpage, hattempt⟩
  · intro h
    rw [h.rawRel]

section store

variable {Cell Bytes Caller : Type} [DecidableEq Caller] [DecidableEq Bytes]

/-- **A raw path tells date, vendor, dataset, endpoint, run, symbol, page and attempt**, and nothing else of a response;
and whatever is published after a response, by any number of publishers, its path keeps its bytes. -/
theorem rawRel_identifies (rt : Runtime Cell Bytes) (allowed : Publish Cell Bytes → Prop) (content : Files Bytes) :
    (∀ r s : CapturedResponse, ¬ SamePlace r s → r.rawRel.text ≠ s.rawRel.text) ∧
    (∀ r s : CapturedResponse, r.context.tradingDate = s.context.tradingDate → r.context.vendor = s.context.vendor →
      r.context.dataset = s.context.dataset → r.context.endpoint = s.context.endpoint →
      r.context.runId = s.context.runId → r.context.symbol = s.context.symbol → r.pageIndex = s.pageIndex →
      r.attemptIndex = s.attemptIndex → r.rawRel = s.rawRel) ∧
    (∀ (s s' : Host Caller Bytes) (r : CapturedResponse) (envelope : Bytes), (host rt allowed content).Reachable s →
      s.world.files.lookup r.rawRel = some envelope → Relation.ReflTransGen (host rt allowed content).step s s' →
      s'.world.files.lookup r.rawRel = some envelope) := by
  refine ⟨fun r s hplace heq => hplace (rawRel_text_eq_iff.1 heq), ?_, ?_⟩
  · intro r s hdate hvendor hdataset hendpoint hrun hsymbol hpage hattempt
    exact SamePlace.rawRel ⟨hdate, hvendor, hdataset, congrArg _ hendpoint, hrun, congrArg _ hsymbol, hpage, hattempt⟩
  · exact fun s s' r envelope hs hfile hrun => keeps_of_run hs hrun _ _ hfile

end store

private def askedOn (venue : String) (h : pathSafe venue = true) : CapturedResponse where
  context :=
    { tradingDate := ⟨2026, 9, 17⟩, runId := "run-1", dataset := .price, vendor := "kis", endpoint := "price"
      symbol := some "005930", venue, session := "regular", captureReason := "scan", cohortId := none, scheduledAt := none
      routed := by simp only [List.all_cons, h]; decide
      cohorted := rfl
      named := by decide }
  requestStartedAt := 0
  receivedAt := 1
  pageIndex := 0
  attemptIndex := 0
  chronological := by decide

/-- One run asks two venues. -/
theorem rawRel_ignores_venue :
    (askedOn "KRX" (by decide)).context.venue ≠ (askedOn "NXT" (by decide)).context.venue ∧
      (askedOn "KRX" (by decide)).rawRel = (askedOn "NXT" (by decide)).rawRel := ⟨by decide, rfl⟩

example : (askedOn "KRX" (by decide)).rawRel =
    ["raw", "2026-09-17", "kis", "PRICE", "price", "run-1", "005930-p0000-a00.json.gz"] := by decide

end Capture
