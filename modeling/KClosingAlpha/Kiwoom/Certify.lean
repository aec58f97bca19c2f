import KClosingAlpha.Kiwoom.TickTape
import Mathlib.Data.List.Nodup
/-!
# Certify — the records of a walk against the rows it read (`walk_tick_tape`)

`Named` holds of every walk: the dates read are the certified ones and the pending ones, each once.  `Consistent` holds
as long as no page of a pending date was buffered twice: the buffer of a pending date is all that was read of it.
-/
namespace Kiwoom

open Newest

/-- The rows of a date. -/
abbrev onDay (rows : List Row) (d : String) : List Row := block Row.ymd rows d

/-- A delivery of all the tape's rows of a date, under a certificate that counts them. -/
structure WholeDay (tape : List Row) (d : String) (x : Delivery) : Prop where
  day : x.day = dashDay d
  rows : x.rows = onDay tape d
  certDay : x.cert.day = dashDay d
  received : x.cert.received = (onDay tape d).length
  complete : x.cert.complete = true

/-- Dates are delivered once, newest to oldest, and whole. -/
def Truthful (tape : List Row) (delivered : List Delivery) : Prop :=
  ∃ days : List String, days.Pairwise (· > ·) ∧ List.Forall₂ (WholeDay tape) days delivered

namespace Books

variable {cfg : WalkConfig} {b : Books} {r : Row} {d : String}

/-! ## One row -/

@[simp] theorem absorbRow_certs : (b.absorbRow r).certs = b.certs := by
  unfold absorbRow; dsimp only; split <;> rfl

@[simp] theorem absorbRow_certifiedOrder : (b.absorbRow r).certifiedOrder = b.certifiedOrder := by
  unfold absorbRow; dsimp only; split <;> rfl

@[simp] theorem absorbRow_delivered : (b.absorbRow r).delivered = b.delivered := by
  unfold absorbRow; dsimp only; split <;> rfl

@[simp] theorem absorbRow_vendorTotals : (b.absorbRow r).vendorTotals = b.vendorTotals := by
  unfold absorbRow; dsimp only; split <;> rfl

theorem absorbRow_dayOrder :
    (b.absorbRow r).dayOrder = if (b.buffers (Row.ymd r)).isSome then b.dayOrder else b.dayOrder ++ [Row.ymd r] := by
  unfold absorbRow; dsimp only; split <;> rfl

theorem absorbRow_buffers :
    (b.absorbRow r).buffers d = if d = Row.ymd r then some ((b.buffers d).getD [] ++ [r]) else b.buffers d := by
  unfold absorbRow
  dsimp only
  by_cases hd : d = Row.ymd r
  · subst hd
    cases hb : b.buffers (Row.ymd r) <;> simp [hb]
  · split <;> simp [hd]

theorem absorbRow_received :
    (b.absorbRow r).received d =
      if d = Row.ymd r then (if (b.buffers d).isSome then b.received d else 0) + 1 else b.received d := by
  unfold absorbRow
  dsimp only
  by_cases hd : d = Row.ymd r
  · subst hd
    cases hb : b.buffers (Row.ymd r) <;> simp
  · split <;> simp [hd]

/-- A date becomes pending when it has neither a buffer nor a certificate. -/
theorem absorbRow_pending :
    (b.absorbRow r).pending =
      if (b.buffers (Row.ymd r)).isSome ∨ (b.certs (Row.ymd r)).isSome then b.pending else b.pending ++ [Row.ymd r] := by
  unfold pending
  rw [absorbRow_dayOrder, absorbRow_certs]
  by_cases hb : (b.buffers (Row.ymd r)).isSome
  · simp [hb]
  · cases hc : b.certs (Row.ymd r) <;> simp [hb, hc]

theorem mem_pending : d ∈ b.pending ↔ d ∈ b.dayOrder ∧ b.certs d = none := by
  simp [pending]

/-! ## The dates read -/

/-- The dates of the rows read are certified or pending, each once. -/
structure Named (read : List Row) (b : Books) : Prop where
  nodup : (b.certifiedOrder ++ b.pending).Nodup
  seen : ∀ d, d ∈ b.certifiedOrder ++ b.pending ↔ d ∈ read.map Row.ymd
  certs : ∀ d, (b.certs d).isSome ↔ d ∈ b.certifiedOrder
  day : ∀ d, ∀ c ∈ b.certs d, c.day = dashDay d
  ordered : ∀ d, (b.buffers d).isSome → d ∈ b.dayOrder
  opened : ∀ d ∈ b.pending, (b.buffers d).isSome

theorem named_empty : Named [] empty := by
  constructor <;> simp [empty, pending]

variable {read : List Row}

theorem Named.absorbRow (h : Named read b) : Named (read ++ [r]) (b.absorbRow r) := by
  have hpend : (b.absorbRow r).pending = b.pending ∧ Row.ymd r ∈ b.certifiedOrder ++ b.pending ∨
      (b.absorbRow r).pending = b.pending ++ [Row.ymd r] ∧ Row.ymd r ∉ b.certifiedOrder ++ b.pending := by
    rw [absorbRow_pending]
    split
    · rename_i hold
      refine .inl ⟨rfl, ?_⟩
      rw [List.mem_append, ← h.certs, mem_pending]
      cases hc : b.certs (Row.ymd r) with
      | some c => exact .inl rfl
      | none => exact .inr ⟨h.ordered _ (by simpa [hc] using hold), rfl⟩
    · rename_i hnew
      refine .inr ⟨rfl, ?_⟩
      rw [List.mem_append, ← h.certs]
      rintro (hc | hp)
      · exact hnew (.inr hc)
      · exact hnew (.inl (h.opened _ hp))
  refine ⟨?_, fun d => ?_, by simpa using h.certs, by simpa using h.day, fun d hd => ?_, fun d hd => ?_⟩
  · obtain ⟨hp, -⟩ | ⟨hp, hnot⟩ := hpend
    · simpa [hp] using h.nodup
    · rw [absorbRow_certifiedOrder, hp, ← List.append_assoc]
      exact List.nodup_append.2 ⟨h.nodup, List.nodup_singleton _, fun a ha c hc hac =>
        hnot (by rwa [← List.mem_singleton.1 hc, ← hac])⟩
  · have hread : d ∈ (read ++ [r]).map Row.ymd ↔ d ∈ b.certifiedOrder ++ b.pending ∨ d = Row.ymd r := by
      rw [List.map_append, List.mem_append, h.seen d, List.map_singleton, List.mem_singleton]
    rw [hread, absorbRow_certifiedOrder]
    obtain ⟨hp, hmem⟩ | ⟨hp, -⟩ := hpend
    · rw [hp]
      exact ⟨.inl, fun hd => hd.elim id fun hd => hd ▸ hmem⟩
    · rw [hp, ← List.append_assoc, List.mem_append, List.mem_singleton]
  · rw [absorbRow_dayOrder]
    rw [absorbRow_buffers] at hd
    by_cases hr : d = Row.ymd r
    · subst hr
      split
      · exact h.ordered _ ‹_›
      · simp
    · rw [if_neg hr] at hd
      have := h.ordered d hd
      split <;> simp [this]
  · rw [absorbRow_buffers]
    by_cases hr : d = Row.ymd r
    · rw [if_pos hr]; rfl
    · rw [if_neg hr]
      obtain ⟨hp, -⟩ | ⟨hp, -⟩ := hpend
      · exact h.opened d (hp ▸ hd)
      · rw [hp, List.mem_append, List.mem_singleton] at hd
        exact h.opened d (hd.resolve_right hr)

theorem Named.absorb (h : Named read b) : ∀ {rows : List Row}, Named (read ++ rows) (b.absorb rows) := by
  intro rows
  induction rows generalizing b read with
  | nil => simpa [Books.absorb] using h
  | cons r rows ih =>
    have := ih (h.absorbRow (r := r))
    rwa [List.append_assoc] at this

theorem absorb_certifiedOrder : ∀ (rows : List Row) (b : Books), (b.absorb rows).certifiedOrder = b.certifiedOrder
  | [], _ => rfl
  | r :: rows, b => (absorb_certifiedOrder rows (b.absorbRow r)).trans absorbRow_certifiedOrder

theorem absorb_delivered : ∀ (rows : List Row) (b : Books), (b.absorb rows).delivered = b.delivered
  | [], _ => rfl
  | r :: rows, b => (absorb_delivered rows (b.absorbRow r)).trans absorbRow_delivered

theorem absorb_vendorTotals : ∀ (rows : List Row) (b : Books), (b.absorb rows).vendorTotals = b.vendorTotals
  | [], _ => rfl
  | r :: rows, b => (absorb_vendorTotals rows (b.absorbRow r)).trans absorbRow_vendorTotals

theorem absorb_buffers (d : String) : ∀ (rows : List Row) (b : Books), (b.absorb rows).buffers d =
    if d ∈ rows.map Row.ymd then some ((b.buffers d).getD [] ++ onDay rows d) else b.buffers d
  | [], b => by simp [absorb]
  | r :: rows, b => by
    have ih : (b.absorb (r :: rows)).buffers d = _ := absorb_buffers d rows (b.absorbRow r)
    rw [ih, absorbRow_buffers, onDay, onDay, block_cons]
    by_cases hd : d = Row.ymd r
    · subst hd
      by_cases hm : Row.ymd r ∈ rows.map Row.ymd
      · simp [hm]
      · simp [hm, block_eq_nil_iff.2 hm]
    · simp [hd, Ne.symm hd]

/-- A date whose buffer is gone is counted anew. -/
theorem absorb_received (d : String) : ∀ (rows : List Row) (b : Books), (b.absorb rows).received d =
    if d ∈ rows.map Row.ymd then (if (b.buffers d).isSome then b.received d else 0) + (onDay rows d).length else b.received d
  | [], b => by simp [absorb]
  | r :: rows, b => by
    have ih : (b.absorb (r :: rows)).received d = _ := absorb_received d rows (b.absorbRow r)
    rw [ih, absorbRow_buffers, absorbRow_received, onDay, onDay, block_cons]
    by_cases hd : d = Row.ymd r
    · subst hd
      by_cases hm : Row.ymd r ∈ rows.map Row.ymd
      · simp [hm]
        omega
      · simp [hm, block_eq_nil_iff.2 hm]
    · simp [hd, Ne.symm hd]

/-- A row of a date that was read before opens no date. -/
theorem Named.absorb_pending {rows : List Row} (h : Named read b) (hrows : ∀ r ∈ rows, Row.ymd r ∈ read.map Row.ymd) :
    (b.absorb rows).pending = b.pending := by
  induction rows generalizing b read with
  | nil => rfl
  | cons r rows ih =>
    have hpend : (b.absorbRow r).pending = b.pending := by
      rw [absorbRow_pending, if_pos]
      exact (List.mem_append.1 ((h.seen _).2 (hrows r List.mem_cons_self))).elim (fun hc => .inr ((h.certs _).2 hc))
        fun hp => .inl (h.opened _ hp)
    rw [← hpend]
    exact ih (h.absorbRow (r := r)) fun x hx => by
      rw [List.map_append]
      exact List.mem_append_left _ (hrows x (List.mem_cons_of_mem _ hx))

/-! ## One certificate -/

@[simp] theorem certificate_day (olderSeen : Bool) : (b.certificate cfg d olderSeen).day = dashDay d := by
  unfold certificate; split <;> rfl

@[simp] theorem certificate_received (olderSeen : Bool) : (b.certificate cfg d olderSeen).received = b.received d := by
  unfold certificate; split <;> rfl

/-- What `_certify` does to the records, and what it may deliver. -/
theorem certify_cases (cfg : WalkConfig) (b : Books) (d : String) (olderSeen : Bool) : ∃ cert delivered, cert.day = dashDay d ∧ cert.received = b.received d ∧
    (b.certify cfg d olderSeen).1 = { b.record d cert with delivered := b.delivered ++ delivered } ∧
    (delivered = [] ∨ delivered = [⟨dashDay d, (b.buffers d).getD [], cert⟩] ∧ cert.complete = true) := by
  refine ⟨b.certificate cfg d olderSeen, ?_⟩
  unfold certify
  cases cfg.onDayComplete with
  | none => exact ⟨[], by simp, by simp, by simp [record], .inl rfl⟩
  | some onDayComplete =>
    dsimp only
    split
    · rename_i hc
      exact ⟨_, by simp, by simp, rfl, .inr ⟨by simp, hc⟩⟩
    · exact ⟨[], by simp, by simp, by simp [record], .inl rfl⟩

theorem record_pending {cert : TapeDayCertificate} : (b.record d cert).pending = b.pending.filter (fun x => decide (x ≠ d)) := by
  unfold pending record
  rw [List.filter_filter]
  refine List.filter_congr fun x _ => ?_
  by_cases hx : x = d <;> simp [hx]

/-- The oldest of the dates to certify moves from the pending dates to the certified ones. -/
theorem Named.record_pending {rest : List String} {cert : TapeDayCertificate} (h : Named read b) (hp : b.pending = d :: rest) :
    (b.record d cert).pending = rest := by
  have hnd : (d :: rest).Nodup := hp ▸ (List.nodup_append.1 h.nodup).2.1
  rw [Books.record_pending, hp, List.filter_cons_of_neg (by simp), List.filter_eq_self]
  intro x hx
  exact decide_eq_true fun he => (List.nodup_cons.1 hnd).1 (he ▸ hx)

theorem Named.record {rest : List String} {cert : TapeDayCertificate} (h : Named read b) (hp : b.pending = d :: rest)
    (hday : cert.day = dashDay d) : Named read (b.record d cert) := by
  have hlist : (b.record d cert).certifiedOrder ++ (b.record d cert).pending = b.certifiedOrder ++ b.pending := by
    rw [h.record_pending hp, hp]
    simp [Books.record]
  refine ⟨hlist ▸ h.nodup, fun x => hlist ▸ h.seen x, fun x => ?_, fun x c hc => ?_, fun x hx => ?_, fun x hx => ?_⟩
  · by_cases hx : x = d
    · simp [Books.record, hx]
    · simp [Books.record, hx, h.certs]
  · by_cases hx : x = d
    · simp only [Books.record, hx, Function.update_self, Option.mem_def, Option.some.injEq] at hc
      rw [← hc, hday, hx]
    · simp only [Books.record, Function.update_of_ne hx] at hc
      exact h.day x c hc
  · by_cases hxd : x = d
    · simp [Books.record, hxd] at hx
    · exact h.ordered x (by simpa [Books.record, hxd] using hx)
  · have hxd : x ≠ d := fun he => by
      have := (mem_pending.1 hx).2
      simp [Books.record, he] at this
    have : x ∈ b.pending := by
      rw [h.record_pending hp] at hx
      rw [hp]
      exact List.mem_cons_of_mem _ hx
    simpa [Books.record, hxd] using h.opened x this

theorem Named.deliver {delivered : List Delivery} (h : Named read b) : Named read { b with delivered } :=
  ⟨h.nodup, h.seen, h.certs, h.day, h.ordered, h.opened⟩

theorem Named.vendorTotals {vendorTotals : String → Option Nat} (h : Named read b) : Named read { b with vendorTotals } :=
  ⟨h.nodup, h.seen, h.certs, h.day, h.ordered, h.opened⟩

theorem noteTotal_known {ymd : String} {remaining total : Nat} (h : b.vendorTotals ymd = some total) :
    b.noteTotal (some (ymd, remaining)) = if b.received ymd + remaining = total then some b else none := by
  simp only [Books.noteTotal, h]

theorem noteTotal_eq {parsed : Option (String × Nat)} {b' : Books} (h : b.noteTotal parsed = some b') :
    ∃ vendorTotals, b' = { b with vendorTotals } ∧
      ∀ ymd remaining, parsed = some (ymd, remaining) → vendorTotals ymd = some (b.received ymd + remaining) := by
  unfold Books.noteTotal at h
  split at h
  · cases h
    exact ⟨_, rfl, fun _ _ he => (by cases he)⟩
  · dsimp only at h
    split at h
    · split at h
      · rename_i total htotal hcand
        cases h
        refine ⟨_, rfl, fun _ _ he => ?_⟩
        cases he
        rw [htotal, hcand]
      · cases h
    · cases h
      refine ⟨_, rfl, fun _ _ he => ?_⟩
      cases he
      exact Function.update_self ..

theorem Named.certifyEach (rest : List String) : ∀ {dates : List (String × Bool)} {b : Books}, Named read b →
    b.pending = dates.map Prod.fst ++ rest → Named read (b.certifyEach cfg dates).1
  | [], _, h, _ => h
  | (d, olderSeen) :: dates, b, h, hp => by
    obtain ⟨cert, delivered, hday, -, hb, -⟩ := certify_cases cfg b d olderSeen
    have hrec : Named read (b.certify cfg d olderSeen).1 := hb ▸ (h.record hp hday).deliver
    unfold Books.certifyEach
    rcases hc : b.certify cfg d olderSeen with ⟨b', exc⟩
    rw [hc] at hrec hb
    cases exc with
    | some exc => exact hrec
    | none =>
      refine hrec.certifyEach rest ?_
      rw [hb]
      exact h.record_pending hp

/-- **The certificates name every date read, each once.** -/
theorem Named.certificates (h : Named read b) :
    b.certificates.map (·.day) = (b.certifiedOrder ++ b.pending).map dashDay := by
  unfold Books.certificates
  have hcert : ∀ l : List String, (∀ d ∈ l, (b.certs d).isSome) → (l.filterMap b.certs).map (·.day) = l.map dashDay := by
    intro l hl
    induction l with
    | nil => rfl
    | cons d l ih =>
      obtain ⟨c, hc⟩ := Option.isSome_iff_exists.1 (hl d List.mem_cons_self)
      rw [List.filterMap_cons_some hc, List.map_cons, List.map_cons, h.day d c hc,
        ih fun x hx => hl x (List.mem_cons_of_mem _ hx)]
  rw [List.map_append, hcert _ fun d hd => (h.certs d).2 hd, List.map_append, List.map_map]
  rfl

/-! ## Whole days -/

/-- Every date read has all its rows in the count, and in the buffer as long as it is pending; what was delivered is
whole. -/
structure Consistent (tape read : List Row) (b : Books) : Prop extends Named read b where
  days : (b.certifiedOrder ++ b.pending).Pairwise (· > ·)
  buffers : ∀ d, b.buffers d = if d ∈ b.pending then some (onDay read d) else none
  received : ∀ d, b.received d = (onDay read d).length
  delivered : ∃ days : List String, days.Sublist b.certifiedOrder ∧ List.Forall₂ (WholeDay tape) days b.delivered

variable {tape : List Row}

theorem consistent_empty : Consistent tape [] empty where
  toNamed := named_empty
  days := by simp [empty, pending]
  buffers := by simp [empty, pending]
  received := by simp [empty]
  delivered := ⟨[], .slnil, .nil⟩

theorem Consistent.truthful (h : Consistent tape read b) : Truthful tape b.delivered := by
  obtain ⟨days, hsub, hdays⟩ := h.delivered
  exact ⟨days, (List.pairwise_append.1 h.days).1.sublist hsub, hdays⟩

/-- `Consistent`, and a date is pending as soon as one was read. -/
structure Open (tape read : List Row) (b : Books) : Prop extends Consistent tape read b where
  pending : b.pending = [] → b.certifiedOrder = []

theorem open_empty : Open tape [] empty := ⟨consistent_empty, fun _ => rfl⟩

theorem Open.le (h : Open tape read b) (hr : ∀ row ∈ read, Row.ymd r ≤ Row.ymd row) (hd : d ∈ b.certifiedOrder ++ b.pending) :
    Row.ymd r ≤ d := by
  obtain ⟨row, hrow, rfl⟩ := List.mem_map.1 ((h.seen d).1 hd)
  exact hr row hrow

/-- No row of a certified date comes: a pending date is older, and was read. -/
theorem Open.not_certified (h : Open tape read b) (hr : ∀ row ∈ read, Row.ymd r ≤ Row.ymd row) :
    Row.ymd r ∉ b.certifiedOrder := fun hmem => by
  obtain ⟨p, hp⟩ := List.exists_mem_of_ne_nil _ (fun he => by simp [h.pending he] at hmem)
  have hlt : p < Row.ymd r := (List.pairwise_append.1 h.days).2.2 _ hmem p hp
  exact absurd (h.le hr (List.mem_append_right _ hp)) (not_le.2 hlt)

/-- A row that is not newer than what was read joins the oldest date, or opens one older still. -/
theorem Open.absorbRow (h : Open tape read b) (hr : ∀ row ∈ read, Row.ymd r ≤ Row.ymd row) :
    Open tape (read ++ [r]) (b.absorbRow r) := by
  have hfresh := h.not_certified hr
  have hcert : (b.certs (Row.ymd r)).isSome = false := by
    simpa [← h.certs] using hfresh
  have hbuf : (b.buffers (Row.ymd r)).isSome = decide (Row.ymd r ∈ b.pending) := by
    rw [h.buffers]
    split <;> simp [*]
  have hpend : (b.absorbRow r).pending = if Row.ymd r ∈ b.pending then b.pending else b.pending ++ [Row.ymd r] := by
    simp [absorbRow_pending, hbuf, hcert]
  have hnone (hd : Row.ymd r ∉ b.pending) : onDay read (Row.ymd r) = [] :=
    block_eq_nil_iff.2 fun hmem => (List.mem_append.1 ((h.seen _).2 hmem)).elim hfresh hd
  have hne : (b.absorbRow r).pending ≠ [] := by
    rw [hpend]
    split
    · exact List.ne_nil_of_mem ‹_›
    · simp
  refine ⟨⟨h.toNamed.absorbRow, ?_, fun d => ?_, fun d => ?_, by simpa using h.delivered⟩, fun he => absurd he hne⟩
  · rw [absorbRow_certifiedOrder, hpend]
    split
    · exact h.days
    · rename_i hd
      rw [← List.append_assoc]
      refine List.pairwise_append.2 ⟨h.days, List.pairwise_singleton _ _, fun x hx y hy => ?_⟩
      rw [List.mem_singleton.1 hy]
      refine lt_of_le_of_ne (h.le hr hx) fun he => ?_
      exact (List.mem_append.1 (he ▸ hx)).elim hfresh hd
  · rw [absorbRow_buffers, hpend, onDay, block_append, block_singleton]
    by_cases hd : d = Row.ymd r
    · subst hd
      by_cases hm : Row.ymd r ∈ b.pending
      · simp [h.buffers, hm]
      · simp [h.buffers, hm, hnone hm]
    · have : d ∈ (if Row.ymd r ∈ b.pending then b.pending else b.pending ++ [Row.ymd r]) ↔ d ∈ b.pending := by
        split <;> simp [hd]
      simp [hd, Ne.symm hd, this, h.buffers]
  · rw [absorbRow_received, onDay, block_append, block_singleton]
    by_cases hd : d = Row.ymd r
    · subst hd
      by_cases hm : Row.ymd r ∈ b.pending
      · simp [hbuf, hm, h.received]
      · simp [hbuf, hm, hnone hm]
    · simp [hd, Ne.symm hd, h.received]

theorem Open.absorb : ∀ {rows read : List Row} {b : Books}, Open tape read b → NewestFirst Row.ymd (read ++ rows) →
    Open tape (read ++ rows) (b.absorb rows)
  | [], _, _, h, _ => by simpa [Books.absorb] using h
  | r :: rows, read, b, h, hnew => by
    rw [List.append_cons] at hnew ⊢
    have hr : ∀ row ∈ read, Row.ymd r ≤ Row.ymd row := fun row hrow => hnew.left.le_of_append hrow List.mem_cons_self
    exact (h.absorbRow hr).absorb hnew

/-- A date is certified with its rows counted and, when it is complete, delivered whole. -/
theorem Consistent.certify {rest : List String} (cfg : WalkConfig) (h : Consistent tape read b) (hp : b.pending = d :: rest)
    (hwhole : onDay tape d = onDay read d) (olderSeen : Bool) :
    Consistent tape read (b.certify cfg d olderSeen).1 ∧ (b.certify cfg d olderSeen).1.pending = rest := by
  obtain ⟨cert, delivered, hday, hreceived, hb, hdel⟩ := certify_cases cfg b d olderSeen
  have hpend : (b.record d cert).pending = rest := h.record_pending hp
  rw [hb]
  refine ⟨⟨(h.record hp hday).deliver, ?_, fun x => ?_, h.received, ?_⟩, hpend⟩
  · change (b.certifiedOrder ++ [d] ++ (b.record d cert).pending).Pairwise (· > ·)
    have hdays := h.days
    rw [hp] at hdays
    rw [hpend, List.append_assoc]
    exact hdays
  · change Function.update b.buffers d none x = if x ∈ (b.record d cert).pending then _ else _
    by_cases hx : x = d
    · simp [Books.record_pending, hx]
    · simp [Books.record_pending, hx, h.buffers]
  · obtain ⟨days, hsub, hdays⟩ := h.delivered
    rcases hdel with rfl | ⟨rfl, hcomplete⟩
    · exact ⟨days, hsub.trans (List.sublist_append_left _ _), by simpa using hdays⟩
    · refine ⟨days ++ [d], hsub.append (List.Sublist.refl _), List.rel_append hdays (.cons ?_ .nil)⟩
      have hbuf : b.buffers d = some (onDay tape d) := by rw [h.buffers, if_pos (by simp [hp]), hwhole]
      exact ⟨rfl, by simp [hbuf], hday, by rw [hreceived, h.received, hwhole], hcomplete⟩

theorem Consistent.certifyEach (rest : List String) : ∀ {dates : List (String × Bool)} {b : Books}, Consistent tape read b →
    b.pending = dates.map Prod.fst ++ rest → (∀ d ∈ dates.map Prod.fst, onDay tape d = onDay read d) →
    Consistent tape read (b.certifyEach cfg dates).1 ∧
      ((b.certifyEach cfg dates).2 = none → (b.certifyEach cfg dates).1.pending = rest)
  | [], _, h, hp, _ => ⟨h, fun _ => hp⟩
  | (d, olderSeen) :: dates, b, h, hp, hwhole => by
    obtain ⟨hcert, hpend⟩ := h.certify cfg hp (hwhole d (by simp)) olderSeen
    unfold Books.certifyEach
    rcases hc : b.certify cfg d olderSeen with ⟨b', exc⟩
    rw [hc] at hcert hpend
    cases exc with
    | some exc => exact ⟨hcert, fun he => (by cases he)⟩
    | none => exact hcert.certifyEach rest hpend fun x hx => hwhole x (List.mem_cons_of_mem _ hx)

theorem certifyEach_counts (cfg : WalkConfig) : ∀ (dates : List (String × Bool)) (b : Books), (b.certifyEach cfg dates).1.received = b.received ∧
    (b.certifyEach cfg dates).1.vendorTotals = b.vendorTotals
  | [], _ => ⟨rfl, rfl⟩
  | (d, olderSeen) :: dates, b => by
    obtain ⟨cert, delivered, -, -, hb, -⟩ := certify_cases cfg b d olderSeen
    unfold certifyEach
    rcases hc : b.certify cfg d olderSeen with ⟨b', exc⟩
    rw [hc] at hb
    have hcounts : b'.received = b.received ∧ b'.vendorTotals = b.vendorTotals := by
      rw [show b' = _ from hb]
      exact ⟨rfl, rfl⟩
    cases exc with
    | some exc => exact hcounts
    | none =>
      obtain ⟨hreceived, htotals⟩ := certifyEach_counts cfg dates b'
      exact ⟨hreceived.trans hcounts.1, htotals.trans hcounts.2⟩

@[simp] theorem unsettled_dates : b.unsettled.map Prod.fst = b.pending := by
  simp [unsettled, Function.comp_def]

@[simp] theorem settled_dates : b.settled.map Prod.fst = b.pending.dropLast := by
  simp [settled, Function.comp_def]

theorem pending_split : b.pending = b.settled.map Prod.fst ++ b.pending.getLast?.toList := by
  rw [settled_dates]
  rcases List.eq_nil_or_concat b.pending with he | ⟨init, last, he⟩ <;> simp [he]

theorem Named.unsettled (h : Named read b) : Named read (b.certifyEach cfg b.unsettled).1 :=
  h.certifyEach [] (by simp)

theorem Named.settled (h : Named read b) : Named read (b.certifyEach cfg b.settled).1 :=
  h.certifyEach _ pending_split

theorem Consistent.vendorTotals {vendorTotals : String → Option Nat} (h : Consistent tape read b) :
    Consistent tape read { b with vendorTotals } :=
  ⟨h.toNamed.vendorTotals, h.days, h.buffers, h.received, h.delivered⟩

/-- At the end of the tape every date is whole. -/
theorem Consistent.unsettled (h : Consistent tape tape b) : Consistent tape tape (b.certifyEach cfg b.unsettled).1 :=
  (h.certifyEach [] (by simp) fun _ _ => rfl).1

/-- Behind an older date every date is whole. -/
theorem Consistent.settled {later : List Row} (cfg : WalkConfig) (h : Consistent (read ++ later) read b)
    (hnew : NewestFirst Row.ymd (read ++ later)) :
    Consistent (read ++ later) read (b.certifyEach cfg b.settled).1 ∧
      ((b.certifyEach cfg b.settled).2 = none → (b.certifyEach cfg b.settled).1.pending = b.pending.getLast?.toList) := by
  refine h.certifyEach _ pending_split fun d hd => ?_
  have hp : b.pending ≠ [] := fun he => by simp [he] at hd
  have hsplit : b.pending = b.pending.dropLast ++ [b.pending.getLast hp] := (List.dropLast_append_getLast hp).symm
  have hlast : b.pending.getLast hp ∈ b.certifiedOrder ++ b.pending := List.mem_append_right _ (List.getLast_mem hp)
  obtain ⟨row, hrow, hymd⟩ := List.mem_map.1 ((h.seen _).1 hlast)
  have hpair := (List.pairwise_append.1 h.days).2.1
  rw [hsplit] at hpair
  rw [settled_dates] at hd
  have hlt : b.pending.getLast hp < d := (List.pairwise_append.1 hpair).2.2 d hd _ (List.mem_singleton_self _)
  exact block_append_of_older hnew hrow (hymd ▸ hlt)

end Books

end Kiwoom
