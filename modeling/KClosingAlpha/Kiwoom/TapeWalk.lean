import KClosingAlpha.Kiwoom.Certify
/-!
# TapeWalk — what a walk certifies of the tape it is served (`walk_tick_tape`)

A tape is served page by page, each page once or twice, until something fails.  The returned certificates always name
the dates read.  What is delivered is whole as long as no page is read twice unnoticed (`repeatTold`).
-/
namespace Kiwoom

open Newest

/-! ## A tape and how it is served -/

/-- An event that ends the walk: the deadline, or a request, an observer or a page that fails. -/
def Event.fails : Event → Bool
  | .expired | .raises _ | .response _ (some _) => true
  | .response p none => !p.accepted

def Event.page? : Event → Option Page
  | .response p none => some p
  | _ => none

/-- A page as it is served: a second time or not. -/
def servings : Page × Bool → List Event
  | (p, again) => .response p none :: if again then [.response p none] else []

/-- The rows on pages. -/
def rowsOf (u : UnicodeDigits) (pages : List Page) : List Row := pages.flatMap (Page.validRows u)

/-- A newest-first tape in pages, all but the last of them continued, and the start of it that is served, followed by
events that fail. -/
structure TapeServing (u : UnicodeDigits) where
  pages : List Page
  newest : NewestFirst Row.ymd (rowsOf u pages)
  continued : ∀ p ∈ pages.dropLast, p.headerCont = "Y"
  served : List (Page × Bool)
  inOrder : served.map Prod.fst <+: pages
  failures : List Event
  failing : ∀ e ∈ failures, e.fails = true

namespace TapeServing

variable {u : UnicodeDigits} (s : TapeServing u)

def tape : List Row := rowsOf u s.pages

def events : List Event := s.served.flatMap servings ++ s.failures

end TapeServing

/-- The rows on the first `n` pages that arrive. -/
def rowsFetched (u : UnicodeDigits) (events : List Event) (n : Nat) : List Row :=
  rowsOf u (((events.filterMap Event.page?).take n).filter Page.accepted)

def Turn.walk : Turn → Walk
  | .next w | .stop w _ => w

@[simp] theorem Turn.walk_next (w : Walk) : (Turn.next w).walk = w := rfl

@[simp] theorem Turn.walk_stop (w : Walk) (s : Stop) : (Turn.stop w s).walk = w := rfl

def Turn.payload : Turn → Option Payload
  | .next _ => none
  | .stop w s => w.payload s

/-- The walk certifies the truth about the tape. -/
structure Certifies (u : UnicodeDigits) (tape : List Row) (events : List Event) (t : Turn) : Prop where
  delivered : Truthful tape t.walk.books.delivered
  nodup : ∀ payload ∈ t.payload, (payload.certificates.map (·.day)).Nodup
  named : ∀ payload ∈ t.payload, ∀ day, day ∈ payload.certificates.map (·.day) ↔
    ∃ row ∈ rowsFetched u events payload.pagesFetched, dashDay (Row.ymd row) = day

/-! ## A page read twice -/

/-- Whether the second reading of a page is told from news: the page has no rows, or its key counts a date that has one
row more by now, or one that is counted anew, or the page before it was the same to the vendor. -/
def repeatTold (u : UnicodeDigits) (requestCode : String) (front : List Page) (p : Page) : Bool :=
  (p.validRows u).isEmpty ||
  (match parseTapeKey u p.headerKey requestCode with
    | .ok (some (ymd, _)) =>
      decide (ymd ∈ (p.validRows u).map Row.ymd) &&
        (decide (((p.validRows u).getLast?.map Row.ymd) = some ymd) || decide (ymd ∈ (rowsOf u front).map Row.ymd))
    | _ => false) ||
  decide (front.getLast?.map (Page.identity u) = some (p.identity u))

/-- Along the walk every second reading of a page is told. -/
def steady (u : UnicodeDigits) (cfg : WalkConfig) : Walk → List Page → List (Page × Bool) → Bool
  | _, _, [] => true
  | w, front, (p, again) :: rest =>
    match w.step u cfg (.response p none), again with
    | .stop _ _, _ => true
    | .next w, false => steady u cfg w (front ++ [p]) rest
    | .next w, true =>
      repeatTold u cfg.requestCode front p &&
        match w.step u cfg (.response p none) with
        | .stop _ _ => true
        | .next w => steady u cfg w (front ++ [p]) rest

/-! ## What a page does to the records -/

/-- What a page may do to the records, where `read` are those with its rows: dates of them are certified, the last one
only at the end of the tape. -/
inductive Books.Settles (cfg : WalkConfig) (p : Page) (read : Books) : Books → Prop
  | checked : Settles cfg p read read
  | unsettled : p.headerCont ≠ "Y" → Settles cfg p read (read.certifyEach cfg read.unsettled).1
  | settled : p.headerCont = "Y" → Settles cfg p read (read.certifyEach cfg read.settled).1

/-- The records with the rows of a page, and the vendor's totals after it. -/
def Books.withPage (b : Books) (u : UnicodeDigits) (p : Page) (vendorTotals : String → Option Nat) : Books :=
  { b.absorb (p.validRows u) with vendorTotals }

namespace Walk

variable {u : UnicodeDigits} {cfg : WalkConfig} {w w' : Walk} {p : Page} {s : Stop}

@[simp] theorem noteIdentity_books {identity : String × String × List String} :
    (w.noteIdentity identity).books = w.books := by
  unfold noteIdentity; split <;> rfl

@[simp] theorem noteIdentity_pagesFetched {identity : String × String × List String} :
    (w.noteIdentity identity).pagesFetched = w.pagesFetched := by
  unfold noteIdentity; split <;> rfl

@[simp] theorem noteIdentity_prevIdentity {identity : String × String × List String} :
    (w.noteIdentity identity).prevIdentity = some identity := by
  unfold noteIdentity
  split
  · exact (‹some identity = w.prevIdentity›).symm
  · rfl

/-- The walk goes on after a page: the page passed every check. -/
structure Advances (u : UnicodeDigits) (cfg : WalkConfig) (w : Walk) (p : Page) (w' : Walk) : Prop where
  accepted : p.accepted = true
  wellFormed : p.malformed u = false
  more : p.headerCont = "Y"
  key : p.headerKey ≠ ""
  parsed : ∃ parsed books, parseTapeKey u p.headerKey cfg.requestCode = .ok parsed ∧
    (w.books.absorb (p.validRows u)).noteTotal parsed = some books ∧ books.certifyEach cfg books.settled = (w'.books, none)
  uncrossed : p.crosses u cfg.stopYmd = false
  stalls : w'.stalls = (w.noteIdentity (p.identity u)).stalls ∧ w'.stalls < 2
  prevIdentity : w'.prevIdentity = some (p.identity u)
  pagesFetched : w'.pagesFetched = w.pagesFetched + 1

theorem receive_next (h : w.receive u cfg p = .next w') : Advances u cfg w p w' := by
  unfold receive at h
  dsimp only at h
  split at h
  case isFalse => cases h
  case isTrue haccepted =>
  unfold check at h
  dsimp only at h
  split at h
  case isTrue => cases h
  case isFalse =>
  split at h
  case isTrue => cases h
  case isFalse hformed =>
  split at h
  case h_1 => cases h
  case h_2 parsed hparsed =>
  split at h
  case h_1 => cases h
  case h_2 books hbooks =>
  split at h
  case isTrue => cases h
  case isFalse hstalls =>
  unfold settle at h
  split at h
  case isTrue =>
    split at h <;> cases h
  case isFalse hmore =>
  split at h
  case isTrue => cases h
  case isFalse hkey =>
  split at h
  case h_1 => cases h
  case h_2 books' hcertified =>
  dsimp only at h
  split at h
  case isTrue => cases h
  case isFalse hcross =>
  cases h
  rw [if_neg hkey] at hparsed
  rw [noteIdentity_books] at hcertified
  exact {
    accepted := haccepted
    wellFormed := by simpa using hformed
    more := not_not.1 hmore
    key := hkey
    parsed := ⟨parsed, books, hparsed, hbooks, hcertified⟩
    uncrossed := by simpa using hcross
    stalls := ⟨by unfold noteIdentity; dsimp only; split <;> rfl, not_le.1 hstalls⟩
    prevIdentity := noteIdentity_prevIdentity
    pagesFetched := noteIdentity_pagesFetched }

/-- Where the walk ends at a page, the page was refused, or some of its dates are certified. -/
theorem receive_stop (h : w.receive u cfg p = .stop w' s) : w'.pagesFetched = w.pagesFetched + 1 ∧
    (p.accepted = false ∧ w'.books = w.books ∨
      p.accepted = true ∧ ∃ vendorTotals, Books.Settles cfg p (w.books.withPage u p vendorTotals) w'.books) := by
  unfold receive at h
  dsimp only at h
  split at h
  case isFalse hrefused =>
    cases h
    exact ⟨rfl, .inl ⟨by simpa using hrefused, rfl⟩⟩
  case isTrue haccepted =>
  unfold check at h
  dsimp only at h
  split at h
  case isTrue =>
    cases h
    exact ⟨rfl, .inr ⟨haccepted, _, .checked⟩⟩
  case isFalse =>
  split at h
  case isTrue =>
    cases h
    exact ⟨rfl, .inr ⟨haccepted, _, .checked⟩⟩
  case isFalse =>
  split at h
  case h_1 =>
    cases h
    exact ⟨rfl, .inr ⟨haccepted, _, .checked⟩⟩
  case h_2 parsed hparsed =>
  split at h
  case h_1 =>
    cases h
    exact ⟨rfl, .inr ⟨haccepted, _, .checked⟩⟩
  case h_2 books hbooks =>
  obtain ⟨vendorTotals, rfl, -⟩ := Books.noteTotal_eq hbooks
  split at h
  case isTrue =>
    cases h
    exact ⟨noteIdentity_pagesFetched, .inr ⟨haccepted, vendorTotals, by rw [noteIdentity_books]; exact .checked⟩⟩
  case isFalse =>
  unfold settle at h
  rw [noteIdentity_books] at h
  split at h
  case isTrue hend =>
    refine ⟨?_, .inr ⟨haccepted, vendorTotals, ?_⟩⟩
    · split at h <;> cases h <;> exact noteIdentity_pagesFetched
    · have : Books.Settles cfg p (w.books.withPage u p vendorTotals) _ := .unsettled hend
      split at h <;> rename_i hc <;> cases h <;> simpa [Books.withPage, hc] using this
  case isFalse hmore =>
  split at h
  case isTrue =>
    cases h
    exact ⟨noteIdentity_pagesFetched, .inr ⟨haccepted, vendorTotals, by rw [noteIdentity_books]; exact .checked⟩⟩
  case isFalse =>
  have hsettled : Books.Settles cfg p (w.books.withPage u p vendorTotals) _ := .settled (not_not.1 hmore)
  split at h
  case h_1 hc =>
    cases h
    exact ⟨noteIdentity_pagesFetched, .inr ⟨haccepted, vendorTotals, by simpa [Books.withPage, hc] using hsettled⟩⟩
  case h_2 hc =>
    dsimp only at h
    split at h
    · cases h
      exact ⟨noteIdentity_pagesFetched, .inr ⟨haccepted, vendorTotals, by simpa [Books.withPage, hc] using hsettled⟩⟩
    · cases h

end Walk

/-! ## The certificates name what was read -/

namespace Books

variable {cfg : WalkConfig} {u : UnicodeDigits} {p : Page} {read : List Row} {b b' : Books}

theorem Named.withPage (u : UnicodeDigits) (p : Page) (vendorTotals : String → Option Nat) (h : Named read b) :
    Named (read ++ p.validRows u) (b.withPage u p vendorTotals) := h.absorb.vendorTotals

theorem Named.settles (h : Named read b) (hs : Settles cfg p b b') : Named read b' := by
  cases hs with
  | checked => exact h
  | unsettled _ => exact h.unsettled
  | settled _ => exact h.settled

end Books

section

variable {u : UnicodeDigits} {cfg : WalkConfig} {w w' : Walk} {p : Page} {s : Stop} {e : Event} {es : List Event}

theorem rowsFetched_zero : rowsFetched u es 0 = [] := rfl

theorem rowsFetched_page {n : Nat} : rowsFetched u (.response p none :: es) (n + 1) =
    (if p.accepted then p.validRows u else []) ++ rowsFetched u es n := by
  cases h : p.accepted <;> simp [rowsFetched, rowsOf, Event.page?, h]

/-- An event that is no page ends the walk and leaves its records. -/
theorem Walk.turn_of_not_page (cfg : WalkConfig) (u : UnicodeDigits) (w : Walk) (h : e.page? = none) : ∃ w' s, w.turn u cfg e = .stop w' s ∧ w'.books = w.books ∧
    w'.pagesFetched = w.pagesFetched := by
  cases e with
  | expired => exact ⟨_, _, rfl, rfl, rfl⟩
  | raises exc => exact ⟨_, _, rfl, rfl, rfl⟩
  | response p observer =>
    cases observer with
    | some exc => exact ⟨_, _, rfl, rfl, rfl⟩
    | none => cases h

theorem Event.page?_eq_some (h : e.page? = some p) : e = .response p none := by
  unfold Event.page? at h
  split at h <;> cases h
  rfl

theorem Walk.turn_page : w.turn u cfg (.response p none) =
    { w with metadata := some (p.headerCont, p.headerKey) }.receive u cfg p := rfl

theorem Walk.step_walk : (w.step u cfg e).walk.books = (w.turn u cfg e).walk.books ∧
    (w.step u cfg e).walk.pagesFetched = (w.turn u cfg e).walk.pagesFetched := by
  unfold step
  cases w.turn u cfg e with
  | stop w' s => exact ⟨rfl, rfl⟩
  | next w' =>
    dsimp only
    split <;> exact ⟨rfl, rfl⟩

@[simp] theorem Walk.run_nil : w.run u cfg [] = .next w := rfl

theorem Walk.run_next (h : w.step u cfg e = .next w') : w.run u cfg (e :: es) = w'.run u cfg es := by
  rw [run, h]

theorem Walk.run_stop (h : w.step u cfg e = .stop w' s) : w.run u cfg (e :: es) = .stop w' s := by
  rw [run, h]

/-- What a page does to the records keeps `P`, of the rows read and the records. -/
structure Books.Kept (u : UnicodeDigits) (cfg : WalkConfig) (P : List Row → Books → Prop) : Prop where
  page : ∀ {read : List Row} {b : Books} (p : Page) (vendorTotals : String → Option Nat), P read b →
    P (read ++ p.validRows u) (b.withPage u p vendorTotals)
  settles : ∀ {read : List Row} {b b' : Books} {p : Page}, P read b → Books.Settles cfg p b b' → P read b'

theorem Books.named_kept (u : UnicodeDigits) (cfg : WalkConfig) : Books.Kept u cfg Books.Named :=
  ⟨fun p vendorTotals h => h.withPage u p vendorTotals, fun h hs => h.settles hs⟩

variable {P : List Row → Books → Prop} {read : List Row}

/-- One page, and what it keeps holds with its rows too. -/
theorem Walk.step_kept (hP : Books.Kept u cfg P) (p : Page) (h : P read w.books) :
    P (read ++ if p.accepted then p.validRows u else []) (w.step u cfg (.response p none)).walk.books ∧
      (w.step u cfg (.response p none)).walk.pagesFetched = w.pagesFetched + 1 := by
  rw [step_walk.1, step_walk.2, turn_page]
  cases ht : Walk.receive u cfg { w with metadata := some (p.headerCont, p.headerKey) } p with
  | next w' =>
    have ha := receive_next ht
    obtain ⟨parsed, books, -, hbooks, hcertified⟩ := ha.parsed
    obtain ⟨vendorTotals, rfl, -⟩ := Books.noteTotal_eq hbooks
    refine ⟨?_, ha.pagesFetched⟩
    have hsettles : Books.Settles cfg p (w.books.withPage u p vendorTotals) _ := .settled ha.more
    have := hP.settles (hP.page p vendorTotals h) hsettles
    rw [if_pos ha.accepted]
    simpa [Books.withPage, hcertified] using this
  | stop w' s =>
    obtain ⟨hfetched, ⟨hrefused, hbooks⟩ | ⟨haccepted, vendorTotals, hsettles⟩⟩ := receive_stop ht
    · refine ⟨?_, hfetched⟩
      simpa [hrefused, hbooks] using h
    · refine ⟨?_, hfetched⟩
      rw [if_pos haccepted]
      exact hP.settles (hP.page p vendorTotals h) hsettles

/-- **What every page keeps holds of a walk and of the rows it read, whatever it is served.** -/
theorem Walk.run_kept (hP : Books.Kept u cfg P) : ∀ (es : List Event) {w : Walk} {read : List Row}, P read w.books →
    ∃ n, (w.run u cfg es).walk.pagesFetched = w.pagesFetched + n ∧
      P (read ++ rowsFetched u es n) (w.run u cfg es).walk.books
  | [], w, read, h => ⟨0, rfl, by simpa [rowsFetched_zero] using h⟩
  | e :: es, w, read, h => by
    cases he : e.page? with
    | none =>
      obtain ⟨w', s, ht, hbooks, hfetched⟩ := Walk.turn_of_not_page cfg u w he
      have hstep : w.step u cfg e = .stop w' s := by rw [step, ht]
      rw [run_stop hstep]
      exact ⟨0, hfetched, by simpa [rowsFetched_zero, hbooks] using h⟩
    | some p =>
      obtain rfl := Event.page?_eq_some he
      obtain ⟨hkept, hfetched⟩ := Walk.step_kept hP p h
      cases ht : w.step u cfg (.response p none) with
      | stop w' s =>
        rw [ht] at hkept hfetched
        rw [run_stop ht]
        refine ⟨1, hfetched, ?_⟩
        rw [rowsFetched_page, rowsFetched_zero, List.append_nil]
        exact hkept
      | next w' =>
        rw [ht] at hkept hfetched
        rw [run_next ht]
        obtain ⟨n, hn, hrest⟩ := Walk.run_kept hP es hkept
        refine ⟨n + 1, ?_, ?_⟩
        · rw [Turn.walk_next] at hfetched hn
          omega
        · rw [rowsFetched_page, ← List.append_assoc]
          exact hrest

/-- **The certified and the pending dates of a walk are those of the pages it fetched, whatever it is served.** -/
theorem Walk.run_named (cfg : WalkConfig) (es : List Event) {w : Walk} {read : List Row} (h : Books.Named read w.books) :
    ∃ n, (w.run u cfg es).walk.pagesFetched = w.pagesFetched + n ∧
      Books.Named (read ++ rowsFetched u es n) (w.run u cfg es).walk.books :=
  run_kept (Books.named_kept u cfg) es h

end

/-! ## One reading of each page -/

theorem rowsOf_append (u : UnicodeDigits) (front : List Page) (p : Page) :
    rowsOf u (front ++ [p]) = rowsOf u front ++ p.validRows u := by
  simp [rowsOf]

/-- A walk that read the pages `front`: only the oldest date is pending. -/
structure Following (u : UnicodeDigits) (tape : List Row) (front : List Page) (w : Walk) : Prop
    extends Books.Open tape (rowsOf u front) w.books where
  alone : w.books.pending.length ≤ 1
  prevIdentity : w.prevIdentity = front.getLast?.map (Page.identity u)

section

variable {u : UnicodeDigits} {cfg : WalkConfig} {tape later : List Row} {front : List Page} {w w' : Walk} {p : Page} {s : Stop}

theorem Following.start : Following u tape [] Walk.start :=
  ⟨Books.open_empty, by simp [Walk.start, Books.empty, Books.pending], rfl⟩

theorem Books.Open.withPage {read : List Row} {b : Books} (vendorTotals : String → Option Nat) (h : Open tape read b)
    (hnew : NewestFirst Row.ymd (read ++ p.validRows u)) :
    Open tape (read ++ p.validRows u) (b.withPage u p vendorTotals) :=
  let h' := h.absorb hnew
  ⟨h'.toConsistent.vendorTotals, h'.pending⟩

theorem Books.Open.settled {read : List Row} {b : Books} (cfg : WalkConfig) (h : Open (read ++ later) read b)
    (hnew : NewestFirst Row.ymd (read ++ later)) (hc : (b.certifyEach cfg b.settled).2 = none) :
    Open (read ++ later) read (b.certifyEach cfg b.settled).1 ∧ (b.certifyEach cfg b.settled).1.pending.length ≤ 1 := by
  obtain ⟨hcons, hpend⟩ := h.toConsistent.settled cfg hnew
  rw [hpend hc]
  refine ⟨⟨hcons, fun he => ?_⟩, by cases b.pending.getLast? <;> simp⟩
  -- nothing pending is left only where nothing was pending, and then nothing was certified
  rw [hpend hc] at he
  have hnil : b.pending = [] := by
    cases hl : b.pending.getLast? with
    | none => exact List.getLast?_eq_none_iff.1 hl
    | some d => rw [hl] at he; cases he
  have hsettled : b.settled = [] := by simp [Books.settled, hnil]
  rw [hsettled]
  exact h.pending hnil

theorem Books.Open.settles {read : List Row} {b b' : Books} (h : Open (read ++ later) read b)
    (hnew : NewestFirst Row.ymd (read ++ later)) (hend : p.headerCont ≠ "Y" → later = []) (hs : Settles cfg p b b') :
    Truthful (read ++ later) b'.delivered := by
  cases hs with
  | checked => exact h.toConsistent.truthful
  | unsettled hcont =>
    obtain rfl := hend hcont
    rw [List.append_nil] at h ⊢
    exact h.toConsistent.unsettled.truthful
  | settled _ => exact (h.toConsistent.settled cfg hnew).1.truthful

/-- A page of the tape that follows those read leaves the walk behind it. -/
theorem Following.next (h : Following u (rowsOf u (front ++ [p]) ++ later) front w)
    (hnew : NewestFirst Row.ymd (rowsOf u (front ++ [p]) ++ later)) (ha : Walk.Advances u cfg w p w') :
    Following u (rowsOf u (front ++ [p]) ++ later) (front ++ [p]) w' := by
  obtain ⟨parsed, books, -, hbooks, hcertified⟩ := ha.parsed
  obtain ⟨vendorTotals, rfl, -⟩ := Books.noteTotal_eq hbooks
  have hopen := h.toOpen.withPage vendorTotals (rowsOf_append u front p ▸ hnew.left)
  rw [← rowsOf_append] at hopen
  have hsettled := hopen.settled cfg hnew (by rw [Books.withPage, hcertified])
  rw [Books.withPage, hcertified] at hsettled
  exact ⟨hsettled.1, hsettled.2, by rw [ha.prevIdentity]; simp⟩

/-- Wherever the walk ends at a page of the tape, what it delivered is whole. -/
theorem Following.truthful (h : Following u (rowsOf u (front ++ [p]) ++ later) front w)
    (hnew : NewestFirst Row.ymd (rowsOf u (front ++ [p]) ++ later)) (hend : p.headerCont ≠ "Y" → later = [])
    (ht : w.receive u cfg p = .stop w' s) : Truthful (rowsOf u (front ++ [p]) ++ later) w'.books.delivered := by
  obtain ⟨-, ⟨-, hbooks⟩ | ⟨-, vendorTotals, hsettles⟩⟩ := Walk.receive_stop ht
  · rw [hbooks]
    exact h.toConsistent.truthful
  · have hopen := h.toOpen.withPage vendorTotals (rowsOf_append u front p ▸ hnew.left)
    rw [← rowsOf_append] at hopen
    exact hopen.settles hnew hend hsettles

/-! ## A second reading -/

/-- What the first reading of a page leaves for the second: the vendor's total is of the rows counted by then, and a
page that was no news has stalled the walk. -/
structure Reread (u : UnicodeDigits) (cfg : WalkConfig) (front : List Page) (w : Walk) (p : Page) : Prop where
  total : ∀ ymd remaining, parseTapeKey u p.headerKey cfg.requestCode = .ok (some (ymd, remaining)) →
    w.books.vendorTotals ymd = some (w.books.received ymd + remaining)
  prevIdentity : w.prevIdentity = some (p.identity u)
  stalled : 1 ≤ w.stalls ↔ front.getLast?.map (Page.identity u) = some (p.identity u)

theorem Following.reread (h : Following u tape front w) (ha : Walk.Advances u cfg w p w') : Reread u cfg front w' p := by
  obtain ⟨parsed, books, hparsed, hbooks, hcertified⟩ := ha.parsed
  obtain ⟨vendorTotals, rfl, htotals⟩ := Books.noteTotal_eq hbooks
  have hcounts := Books.certifyEach_counts cfg (Books.settled { w.books.absorb (p.validRows u) with vendorTotals })
    { w.books.absorb (p.validRows u) with vendorTotals }
  rw [hcertified] at hcounts
  refine ⟨fun ymd remaining hkey => ?_, ha.prevIdentity, ?_⟩
  · rw [hcounts.1, hcounts.2]
    exact htotals ymd remaining (Except.ok.inj (hparsed.symm.trans hkey))
  · rw [ha.stalls.1, ← h.prevIdentity]
    unfold Walk.noteIdentity
    split
    · rename_i he
      simp [he]
    · rename_i he
      simpa using Ne.symm he

/-- The date of the last row read is pending. -/
theorem Following.oldest_pending (h : Following u tape (front ++ [p]) w) (hnew : NewestFirst Row.ymd (rowsOf u (front ++ [p])))
    {d : String} (hd : (p.validRows u).getLast?.map Row.ymd = some d) : d ∈ w.books.pending := by
  obtain ⟨last, hlast, rfl⟩ := Option.map_eq_some_iff.1 hd
  have hmem : last ∈ rowsOf u (front ++ [p]) := by
    rw [rowsOf_append]
    exact List.mem_append_right _ (List.mem_of_getLast? hlast)
  obtain ⟨init, hinit⟩ := List.getLast?_eq_some_iff.1 hlast
  have hle : ∀ row ∈ rowsOf u (front ++ [p]), Row.ymd last ≤ Row.ymd row := by
    intro row hrow
    rw [rowsOf_append, hinit, ← List.append_assoc] at hnew hrow
    rcases List.mem_append.1 hrow with hrow | hrow
    · exact hnew.le_of_append hrow (List.mem_singleton_self _)
    · rw [List.mem_singleton.1 hrow]
  exact (List.mem_append.1 ((h.seen _).2 (List.mem_map_of_mem hmem))).resolve_left (h.toOpen.not_certified hle)

theorem Books.Settles.eq {b b' : Books} (hs : Settles cfg p b b') (hmore : p.headerCont = "Y") (hnone : b.settled = []) :
    b' = b := by
  cases hs with
  | checked => rfl
  | unsettled hcont => exact absurd hmore hcont
  | settled _ => rw [hnone]; rfl

/-- After a second reading the dates pending are the same, and there is none to certify. -/
theorem Following.reread_settled (h : Following u tape (front ++ [p]) w) (vendorTotals : String → Option Nat) :
    (w.books.withPage u p vendorTotals).pending = w.books.pending ∧
      (w.books.withPage u p vendorTotals).settled = [] := by
  have hpend : (w.books.withPage u p vendorTotals).pending = w.books.pending :=
    h.toNamed.absorb_pending fun r hr => List.mem_map_of_mem (by
      rw [rowsOf_append]
      exact List.mem_append_right _ hr)
  refine ⟨hpend, ?_⟩
  have halone := h.alone
  unfold Books.settled
  rw [hpend]
  match w.books.pending, halone with
  | [], _ => rfl
  | [_], _ => rfl

/-- A second reading delivers nothing. -/
theorem Following.reread_delivered (h : Following u tape (front ++ [p]) w) (hmore : p.headerCont = "Y")
    (ht : w.receive u cfg p = .stop w' s) : w'.books.delivered = w.books.delivered := by
  obtain ⟨-, ⟨-, hbooks⟩ | ⟨-, vendorTotals, hsettles⟩⟩ := Walk.receive_stop ht
  · rw [hbooks]
  · rw [hsettles.eq hmore (h.reread_settled vendorTotals).2]
    exact Books.absorb_delivered ..

/-- The count of a date after a second reading: a pending date goes on counting, a certified one is counted anew. -/
theorem Following.reread_received (h : Following u tape (front ++ [p]) w) {d : String} (hd : d ∈ (p.validRows u).map Row.ymd) :
    (w.books.absorb (p.validRows u)).received d =
      (if d ∈ w.books.pending then w.books.received d else 0) + (onDay (p.validRows u) d).length := by
  have hbuf : (w.books.buffers d).isSome = decide (d ∈ w.books.pending) := by
    rw [h.buffers]
    split <;> simp [*]
  rw [Books.absorb_received, if_pos hd, hbuf]
  simp

/-- **A second reading of a page with rows that is told from news ends the walk.** -/
theorem Following.told_stops (h : Following u tape (front ++ [p]) w) (hre : Reread u cfg front w p)
    (hnew : NewestFirst Row.ymd (rowsOf u (front ++ [p]))) (hrows : p.validRows u ≠ [])
    (htold : repeatTold u cfg.requestCode front p = true) : w.receive u cfg p ≠ .next w' := by
  intro hnext
  have ha := Walk.receive_next hnext
  unfold repeatTold at htold
  simp only [Bool.or_eq_true, List.isEmpty_iff, hrows, false_or, decide_eq_true_eq] at htold
  rcases htold with hkey | hstale
  · split at hkey
    · rename_i ymd remaining hparse
      simp only [Bool.and_eq_true, Bool.or_eq_true, decide_eq_true_eq] at hkey
      obtain ⟨hmem, hcase⟩ := hkey
      obtain ⟨parsed, books, hparsed, hbooks, -⟩ := ha.parsed
      obtain rfl : parsed = some (ymd, remaining) := Except.ok.inj (hparsed.symm.trans hparse)
      -- the key's total can only agree when the date counts the same rows as after the first reading
      have hsame : (w.books.absorb (p.validRows u)).received ymd = w.books.received ymd := by
        have htotal := hre.total ymd remaining hparse
        rw [← Books.absorb_vendorTotals (p.validRows u)] at htotal
        rw [Books.noteTotal_known htotal] at hbooks
        split at hbooks
        · omega
        · cases hbooks
      have hpos : 0 < (onDay (p.validRows u) ymd).length := length_block_pos hmem
      rw [h.reread_received hmem] at hsame
      rcases hcase with hlast | hfront
      · rw [if_pos (h.oldest_pending hnew hlast)] at hsame
        omega
      · have hfirst : 0 < (onDay (rowsOf u front) ymd).length := length_block_pos hfront
        rw [h.received, rowsOf_append] at hsame
        simp only [onDay, block_append, List.length_append] at hsame hfirst hpos
        split at hsame <;> omega
    · cases hkey
  · have hstalls : w'.stalls = w.stalls + 1 := by
      rw [ha.stalls.1, Walk.noteIdentity, if_pos hre.prevIdentity.symm]
    have := hre.stalled.2 hstale
    have := ha.stalls.2
    omega

/-- **A second reading of a page with rows that is not told from news puts them into the oldest date's buffer once
more, and the walk goes on.** -/
theorem Following.untold_doubles (h : Following u tape (front ++ [p]) w') (hre : Reread u cfg front w' p)
    (ha : Walk.Advances u cfg w p w') (hnew : NewestFirst Row.ymd (rowsOf u (front ++ [p]))) {d : String}
    (hd : (p.validRows u).getLast?.map Row.ymd = some d) (htold : repeatTold u cfg.requestCode front p = false) :
    ∃ w'', w'.receive u cfg p = .next w'' ∧
      w''.books.buffers d = some (onDay (rowsOf u (front ++ [p])) d ++ onDay (p.validRows u) d) := by
  have hrows : p.validRows u ≠ [] := fun he => by simp [he] at hd
  obtain ⟨parsed, _, hparsed, -⟩ := ha.parsed
  unfold repeatTold at htold
  simp only [Bool.or_eq_false_iff, List.isEmpty_eq_false_iff, decide_eq_false_iff_not] at htold
  obtain ⟨⟨-, hkey⟩, hstale⟩ := htold
  have hstalls : w'.stalls = 0 := by
    have := hre.stalled.not.2 hstale
    omega
  -- the vendor's total of the key's date is the one of the first reading
  have htotal : (w'.books.absorb (p.validRows u)).noteTotal parsed = some (w'.books.absorb (p.validRows u)) := by
    cases parsed with
    | none => rfl
    | some key =>
      obtain ⟨ymd, remaining⟩ := key
      have htotal := hre.total ymd remaining hparsed
      rw [← Books.absorb_vendorTotals (p.validRows u)] at htotal
      rw [Books.noteTotal_known htotal, if_pos]
      rw [Nat.add_right_cancel_iff]
      rw [hparsed] at hkey
      by_cases hmem : ymd ∈ (p.validRows u).map Row.ymd
      · simp only [hmem, decide_true, Bool.true_and, Bool.or_eq_false_iff, decide_eq_false_iff_not] at hkey
        obtain ⟨hlast, hfront⟩ := hkey
        have hcert : ymd ∉ w'.books.pending := fun hp => by
          obtain ⟨only, honly⟩ := List.length_eq_one_iff.1 (Nat.le_antisymm h.alone (List.length_pos_of_mem hp))
          have hdp := h.oldest_pending hnew hd
          rw [honly, List.mem_singleton] at hp hdp
          exact hlast (by rw [hd, hp, hdp])
        rw [h.reread_received hmem, if_neg hcert, h.received, rowsOf_append, onDay, onDay, block_append,
          block_eq_nil_iff.2 hfront]
        simp
      · rw [Books.absorb_received, if_neg hmem]
  have hsettled : (w'.books.absorb (p.validRows u)).settled = [] :=
    (h.reread_settled (w'.books.absorb (p.validRows u)).vendorTotals).2
  have hbuffers : (w'.books.absorb (p.validRows u)).buffers d =
      some (onDay (rowsOf u (front ++ [p])) d ++ onDay (p.validRows u) d) := by
    obtain ⟨last, hlast, hymd⟩ := Option.map_eq_some_iff.1 hd
    have hmem : d ∈ (p.validRows u).map Row.ymd := hymd ▸ List.mem_map_of_mem (List.mem_of_getLast? hlast)
    rw [Books.absorb_buffers, if_pos hmem, h.buffers, if_pos (h.oldest_pending hnew hd)]
    rfl
  refine ⟨{ w' with
    pagesFetched := w'.pagesFetched + 1
    books := w'.books.absorb (p.validRows u)
    stalls := 1
    contYn := p.headerCont
    nextKey := p.headerKey }, ?_, hbuffers⟩
  simp [Walk.receive, Walk.check, Walk.settle, Walk.noteIdentity, ha.accepted, hrows, ha.wellFormed, ha.key, hparsed, htotal,
    hre.prevIdentity, hstalls, ha.more, hsettled, Books.certifyEach, ha.uncrossed]

/-! ## The whole walk -/

/-- What an iteration makes of a page: the budget may end the walk after a page that passed. -/
theorem Walk.step_page (u : UnicodeDigits) (cfg : WalkConfig) (w : Walk) (p : Page) :
    (∃ w', Walk.receive u cfg { w with metadata := some (p.headerCont, p.headerKey) } p = .next w' ∧
      (w.step u cfg (.response p none) = .next { w' with pageIndex := w'.pageIndex + 1 } ∨
        ∃ s, w.step u cfg (.response p none) = .stop { w' with pageIndex := w'.pageIndex + 1 } s)) ∨
    ∃ w' s, Walk.receive u cfg { w with metadata := some (p.headerCont, p.headerKey) } p = .stop w' s ∧
      w.step u cfg (.response p none) = .stop w' s := by
  unfold step
  rw [turn_page]
  cases ht : Walk.receive u cfg { w with metadata := some (p.headerCont, p.headerKey) } p with
  | stop w' s => exact .inr ⟨w', s, rfl, rfl⟩
  | next w' =>
    refine .inl ⟨w', rfl, ?_⟩
    dsimp only
    split
    · exact .inr ⟨_, rfl⟩
    · exact .inl rfl

theorem Walk.step_of_fails (u : UnicodeDigits) (cfg : WalkConfig) (w : Walk) {e : Event} (he : e.fails = true) :
    ∃ w' s, w.step u cfg e = .stop w' s ∧ w'.books = w.books := by
  match e, he with
  | .expired, _ => exact ⟨_, _, rfl, rfl⟩
  | .raises _, _ => exact ⟨_, _, rfl, rfl⟩
  | .response _ (some _), _ => exact ⟨_, _, rfl, rfl⟩
  | .response p none, he =>
    have hrefused : p.accepted = false := by simpa [Event.fails] using he
    refine ⟨{ w with metadata := some (p.headerCont, p.headerKey), pagesFetched := w.pagesFetched + 1 },
      .broke (.vendorFailure p.returnMsg), ?_, rfl⟩
    rw [step, turn_page, receive]
    simp [hrefused]

/-- What an iteration may leave: a walk that goes on behind `front`, or one that ended with whole deliveries. -/
def Turn.Keeps (u : UnicodeDigits) (tape : List Row) (front : List Page) : Turn → Prop
  | .next w => Following u tape front w
  | .stop w _ => Truthful tape w.books.delivered

theorem Following.withIndex (h : Following u tape front w) (i : Nat) : Following u tape front { w with pageIndex := i } :=
  ⟨h.toOpen, h.alone, h.prevIdentity⟩

theorem Following.withMetadata (h : Following u tape front w) (m : Option (String × String)) :
    Following u tape front { w with metadata := m } :=
  ⟨h.toOpen, h.alone, h.prevIdentity⟩

/-- The first reading of the next page. -/
theorem Following.step (cfg : WalkConfig) (h : Following u (rowsOf u (front ++ [p]) ++ later) front w)
    (hnew : NewestFirst Row.ymd (rowsOf u (front ++ [p]) ++ later)) (hend : p.headerCont ≠ "Y" → later = []) :
    (w.step u cfg (.response p none)).Keeps u (rowsOf u (front ++ [p]) ++ later) (front ++ [p]) ∧
      ∀ w', w.step u cfg (.response p none) = .next w' → Reread u cfg front w' p ∧ p.headerCont = "Y" := by
  have h' := h.withMetadata (some (p.headerCont, p.headerKey))
  obtain ⟨w', ht, hstep | ⟨s, hstep⟩⟩ | ⟨w', s, ht, hstep⟩ := Walk.step_page u cfg w p
  · have ha := Walk.receive_next ht
    have hre := h'.reread ha
    rw [hstep]
    exact ⟨(h'.next hnew ha).withIndex _, fun _ he => by
      cases he
      exact ⟨⟨hre.total, hre.prevIdentity, hre.stalled⟩, ha.more⟩⟩
  · rw [hstep]
    exact ⟨(h'.next hnew (Walk.receive_next ht)).toConsistent.truthful, fun _ he => by cases he⟩
  · rw [hstep]
    exact ⟨h'.truthful hnew hend ht, fun _ he => by cases he⟩

/-- Without rows a second reading is one more page of the tape. -/
theorem Following.drop_empty (h : Following u tape (front ++ [p] ++ [p]) w) (hrows : p.validRows u = []) :
    Following u tape (front ++ [p]) w := by
  have hread : rowsOf u (front ++ [p] ++ [p]) = rowsOf u (front ++ [p]) := by
    rw [rowsOf_append u (front ++ [p]), hrows, List.append_nil]
  exact ⟨hread ▸ h.toOpen, h.alone, by simpa using h.prevIdentity⟩

/-- The second reading of a page, when it is told from news. -/
theorem Following.step_again (h : Following u (rowsOf u (front ++ [p]) ++ later) (front ++ [p]) w)
    (hre : Reread u cfg front w p) (hmore : p.headerCont = "Y")
    (hnew : NewestFirst Row.ymd (rowsOf u (front ++ [p]) ++ later)) (htold : repeatTold u cfg.requestCode front p = true) :
    (w.step u cfg (.response p none)).Keeps u (rowsOf u (front ++ [p]) ++ later) (front ++ [p]) := by
  by_cases hrows : p.validRows u = []
  · have hread : rowsOf u (front ++ [p] ++ [p]) = rowsOf u (front ++ [p]) := by
      rw [rowsOf_append u (front ++ [p]), hrows, List.append_nil]
    rw [← hread] at h hnew
    have hkeeps := (h.step cfg hnew fun hcont => absurd hmore hcont).1
    rw [hread] at hkeeps
    cases ht : w.step u cfg (.response p none) with
    | next w' =>
      rw [ht] at hkeeps
      exact Following.drop_empty hkeeps hrows
    | stop w' s =>
      rw [ht] at hkeeps
      exact hkeeps
  · have h' := h.withMetadata (some (p.headerCont, p.headerKey))
    have hstops (w' : Walk) : Walk.receive u cfg _ p ≠ .next w' := h'.told_stops ⟨hre.total, hre.prevIdentity, hre.stalled⟩ hnew.left hrows htold
    obtain ⟨w', ht, -⟩ | ⟨w', s, ht, hstep⟩ := Walk.step_page u cfg w p
    · exact absurd ht (hstops w')
    · rw [hstep, Turn.Keeps, h'.reread_delivered hmore ht]
      exact h.toConsistent.truthful

theorem Walk.run_failures {failures : List Event} (hfails : ∀ e ∈ failures, e.fails = true) :
    (w.run u cfg failures).walk.books = w.books := by
  cases failures with
  | nil => rfl
  | cons e es =>
    obtain ⟨w', s, hstep, hbooks⟩ := Walk.step_of_fails u cfg w (hfails e List.mem_cons_self)
    rw [run_stop hstep]
    exact hbooks

/-- **Over any serving of a tape whose second readings are told, what is delivered is whole.** -/
theorem Following.run {pages rest : List Page} {failures : List Event} (hnew : NewestFirst Row.ymd (rowsOf u pages))
    (hmore : ∀ p ∈ pages.dropLast, p.headerCont = "Y") (hfails : ∀ e ∈ failures, e.fails = true) :
    ∀ (served : List (Page × Bool)) {front : List Page} {w : Walk}, Following u (rowsOf u pages) front w →
      pages = front ++ served.map Prod.fst ++ rest → steady u cfg w front served = true →
      Truthful (rowsOf u pages) (w.run u cfg (served.flatMap servings ++ failures)).walk.books.delivered
  | [], front, w, h, _, _ => by
    rw [List.flatMap_nil, List.nil_append, Walk.run_failures hfails]
    exact h.toConsistent.truthful
  | (p, again) :: served, front, w, h, hpages, hsteady => by
    have hsplit : pages = (front ++ [p]) ++ (served.map Prod.fst ++ rest) := by simp [hpages]
    have htape : rowsOf u pages = rowsOf u (front ++ [p]) ++ rowsOf u (served.map Prod.fst ++ rest) := by
      rw [hsplit, rowsOf, List.flatMap_append]
      rfl
    have hend : p.headerCont ≠ "Y" → rowsOf u (served.map Prod.fst ++ rest) = [] := fun hcont => by
      cases hafter : served.map Prod.fst ++ rest with
      | nil => rfl
      | cons q qs =>
        refine absurd (hmore p ?_) hcont
        rw [hsplit, hafter, List.dropLast_append_of_ne_nil (by simp)]
        simp
    have hpages' : pages = front ++ [p] ++ served.map Prod.fst ++ rest := by simp [hpages]
    have hfirst := h
    rw [htape] at hfirst
    obtain ⟨hkeeps, hreread⟩ := hfirst.step cfg (htape ▸ hnew) hend
    rw [← htape] at hkeeps
    unfold steady at hsteady
    rw [List.flatMap_cons, servings, List.cons_append, List.cons_append]
    cases ht : w.step u cfg (.response p none) with
    | stop w' s =>
      rw [ht] at hkeeps
      rw [Walk.run_stop ht]
      exact hkeeps
    | next w' =>
      rw [ht] at hkeeps hsteady
      rw [Walk.run_next ht]
      cases again with
      | false => exact hkeeps.run hnew hmore hfails served hpages' hsteady
      | true =>
        obtain ⟨hre, hcont⟩ := hreread w' ht
        obtain ⟨htold, hsteady⟩ := Bool.and_eq_true_iff.1 hsteady
        have hsecond := hkeeps
        rw [htape] at hsecond
        have hagain := Following.step_again hsecond hre hcont (htape ▸ hnew) htold
        rw [← htape] at hagain
        simp only [if_true, List.cons_append, List.nil_append]
        cases ht' : w'.step u cfg (.response p none) with
        | stop w'' s =>
          rw [ht'] at hagain
          rw [Walk.run_stop ht']
          exact hagain
        | next w'' =>
          rw [ht'] at hagain hsteady
          rw [Walk.run_next ht']
          exact Following.run hnew hmore hfails served hagain hpages' hsteady

end

/-! ## The dates as texts -/

theorem dashDay_injective {a b : String} (ha : a.toList.length = 8) (hb : b.toList.length = 8) (h : dashDay a = dashDay b) :
    a = b := by
  have hlist := congrArg String.toList h
  simp only [dashDay, String.toList_ofList] at hlist
  apply String.toList_injective
  generalize a.toList = cs at ha hlist ⊢
  generalize b.toList = ds at hb hlist ⊢
  match cs, ha, ds, hb with
  | [_, _, _, _, _, _, _, _], _, [_, _, _, _, _, _, _, _], _ => simpa using hlist

theorem Page.length_ymd {u : UnicodeDigits} {p : Page} {row : Row} (h : row ∈ p.validRows u) : (Row.ymd row).toList.length = 8 := by
  obtain ⟨raw, -, hraw⟩ := List.mem_filterMap.1 h
  obtain ⟨-, hvalid⟩ := Option.filter_eq_some_iff.1 hraw
  simp only [isCntrTm, Bool.and_eq_true, decide_eq_true_eq] at hvalid
  simp [Row.ymd, hvalid.1]

theorem Walk.certificates_of_payload {w : Walk} {s : Stop} {payload : Payload} (h : w.payload s = some payload) :
    payload.certificates = w.books.certificates ∧ payload.pagesFetched = w.pagesFetched := by
  unfold Walk.payload at h
  split at h <;> cases h <;> exact ⟨rfl, rfl⟩

/-- **The returned certificates name every date of the pages fetched, each once, whatever the walk is served.** -/
theorem certificates_name_dates (u : UnicodeDigits) (cfg : WalkConfig) (events : List Event) {payload : Payload}
    (h : (Walk.start.run u cfg events).payload = some payload) : (payload.certificates.map (·.day)).Nodup ∧
      ∀ day, day ∈ payload.certificates.map (·.day) ↔
        ∃ row ∈ rowsFetched u events payload.pagesFetched, dashDay (Row.ymd row) = day := by
  obtain ⟨n, hn, hnamed⟩ := Walk.run_named (u := u) cfg events (w := .start) Books.named_empty
  cases hrun : Walk.start.run u cfg events with
  | next w => rw [hrun] at h; cases h
  | stop w s =>
    rw [hrun] at h hn hnamed
    rw [Turn.walk_stop] at hn hnamed
    obtain ⟨hcerts, hfetched⟩ := Walk.certificates_of_payload h
    rw [hcerts, hfetched, show w.pagesFetched = n by simpa [Walk.start] using hn, hnamed.certificates]
    rw [List.nil_append] at hnamed
    have hlength (d : String) (hd : d ∈ w.books.certifiedOrder ++ w.books.pending) : d.toList.length = 8 := by
      obtain ⟨row, hrow, rfl⟩ := List.mem_map.1 ((hnamed.seen d).1 hd)
      obtain ⟨p, -, hp⟩ := List.mem_flatMap.1 hrow
      exact Page.length_ymd hp
    refine ⟨hnamed.nodup.map_on fun a ha b hb => dashDay_injective (hlength a ha) (hlength b hb), fun day => ?_⟩
    rw [List.mem_map]
    constructor
    · rintro ⟨d, hd, rfl⟩
      obtain ⟨row, hrow, hymd⟩ := List.mem_map.1 ((hnamed.seen d).1 hd)
      exact ⟨row, hrow, by rw [hymd]⟩
    · rintro ⟨row, hrow, rfl⟩
      exact ⟨_, (hnamed.seen _).2 (List.mem_map_of_mem hrow), rfl⟩

/-- **A walk certifies only the truth about a tape, as long as every second reading of a page is told from news.** -/
theorem walkTickTape_certifies (u : UnicodeDigits) (chartMaxPages : Int) (todayYmd : String) (a : WalkArgs) (cfg : WalkConfig)
    (hcfg : a.config u chartMaxPages todayYmd = .ok cfg) (s : TapeServing u)
    (hsteady : steady u cfg .start [] s.served = true) (t : Turn)
    (ht : walkTickTape u chartMaxPages todayYmd a s.events = .ok t) : Certifies u s.tape s.events t := by
  obtain rfl : Walk.start.run u cfg s.events = t := by
    rw [walkTickTape, hcfg] at ht
    exact Except.ok.inj ht
  obtain ⟨rest, hrest⟩ := s.inOrder
  exact {
    delivered := Following.start.run s.newest s.continued s.failing s.served (by simpa using hrest.symm) hsteady
    nodup := fun payload h => (certificates_name_dates u cfg s.events h).1
    named := fun payload h => (certificates_name_dates u cfg s.events h).2 }

private def rowAt (cntrTm : String) : Row := [("cntr_tm", .str cntrTm)]

private def pageOf (rows : List Row) (contYn nextKey : String) : Page := ⟨some contYn, some nextKey, some 0, "", rows.map some⟩

private def plainArgs : WalkArgs := ⟨"005930", "KRX", "2026-09-03", none, some 10, some fun _ => none⟩

private def plainConfig : WalkConfig := ⟨"005930", "20260903", 10, "20260905", some fun _ => none⟩

/-- Two dates on two pages, the first of which is served twice. -/
private def twoDates (nextKey : String) : TapeServing asciiDigits where
  pages := [pageOf [rowAt "20260904150003"] "Y" nextKey, pageOf [rowAt "20260903150003"] "N" ""]
  newest := by
    have hrows : rowsOf asciiDigits [pageOf [rowAt "20260904150003"] "Y" nextKey, pageOf [rowAt "20260903150003"] "N" ""] =
        [rowAt "20260904150003", rowAt "20260903150003"] := by rfl
    rw [hrows]
    exact List.pairwise_pair.2 (by decide +kernel)
  continued := by simp [pageOf, Page.headerCont]
  served := [(pageOf [rowAt "20260904150003"] "Y" nextKey, true), (pageOf [rowAt "20260903150003"] "N" "", false)]
  inOrder := by simp
  failures := []
  failing := by simp

theorem walkTickTape_certifies_two_dates : Certifies asciiDigits (twoDates "A005930202609041").tape
    (twoDates "A005930202609041").events (Walk.start.run asciiDigits plainConfig (twoDates "A005930202609041").events) :=
  walkTickTape_certifies asciiDigits 10 "20260905" plainArgs plainConfig (by rfl) (twoDates "A005930202609041")
    (by decide +kernel) _ (by rfl)

/-- A page served twice, with a key the walk cannot read: its row is delivered twice, under a certificate. -/
theorem walkTickTape_doubles : ∃ t, walkTickTape asciiDigits 10 "20260905" plainArgs (twoDates "k1").events = .ok t ∧
    ¬ Certifies asciiDigits (twoDates "k1").tape (twoDates "k1").events t := by
  refine ⟨Walk.start.run asciiDigits plainConfig (twoDates "k1").events, rfl, fun h => ?_⟩
  obtain ⟨days, -, hdays⟩ := h.delivered
  have hdelivered : (Walk.start.run asciiDigits plainConfig (twoDates "k1").events).walk.books.delivered =
      [⟨"2026-09-04", [rowAt "20260904150003", rowAt "20260904150003"], ⟨"2026-09-04", 2, none, true, .bracketed⟩⟩] := by
    decide +kernel
  rw [hdelivered] at hdays
  cases hdays with
  | cons hday _ =>
    have htape : (twoDates "k1").tape.Nodup := by decide +kernel
    have hrows := hday.rows
    dsimp only at hrows
    have hnodup : [rowAt "20260904150003", rowAt "20260904150003"].Nodup := hrows ▸ htape.filter _
    exact absurd hnodup (by decide +kernel)

end Kiwoom
