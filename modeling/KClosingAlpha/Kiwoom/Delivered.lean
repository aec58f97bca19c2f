import KClosingAlpha.Kiwoom.TapeWalk
/-!
# Delivered — the days a walk hands over (`walk_tick_tape`)

Whatever a walk is served, it hands over different days, each under its complete certificate, and each with rows the walk
read, all of that day.
-/
namespace Kiwoom

namespace Books

variable {cfg : WalkConfig} {u : UnicodeDigits} {p : Page} {read read' : List Row} {b b' : Books} {r : Row} {d : String}

/-- `x` hands over the date `d`, under the certificate of the date. -/
structure Delivers (read : List Row) (b : Books) (d : String) (x : Delivery) : Prop where
  day : x.day = dashDay d
  cert : b.certs d = some x.cert
  complete : x.cert.complete = true
  rows : ∀ r ∈ x.rows, r ∈ read ∧ Row.ymd r = d

/-- A buffer holds rows of its date, and what was delivered are certified dates, in their order. -/
structure Sourced (read : List Row) (b : Books) : Prop extends Named read b where
  buffers : ∀ d, ∀ rows ∈ b.buffers d, ∀ r ∈ rows, r ∈ read ∧ Row.ymd r = d
  days : ∃ days : List String, days.Sublist b.certifiedOrder ∧ b.delivered.map (·.day) = days.map dashDay
  delivered : ∀ x ∈ b.delivered, ∃ d ∈ b.certifiedOrder, Delivers read b d x

theorem sourced_empty : Sourced [] empty :=
  { named_empty with
    buffers := fun _ _ h => (by cases h)
    days := ⟨[], .refl _, rfl⟩
    delivered := fun _ h => (by cases h) }

theorem Delivers.mono {x : Delivery} (h : Delivers read b d x) (hr : read ⊆ read') (hc : b'.certs d = b.certs d) :
    Delivers read' b' d x :=
  ⟨h.day, hc.trans h.cert, h.complete, fun r hx => ⟨hr (h.rows r hx).1, (h.rows r hx).2⟩⟩

theorem Sourced.absorbRow (h : Sourced read b) : Sourced (read ++ [r]) (b.absorbRow r) := by
  have hsub : read ⊆ read ++ [r] := List.subset_append_left ..
  refine { h.toNamed.absorbRow with buffers := ?_, days := ?_, delivered := ?_ }
  · intro d rows hrows x hx
    rw [absorbRow_buffers] at hrows
    split_ifs at hrows with hd
    · rw [Option.mem_some_iff] at hrows
      subst hrows
      rcases List.mem_append.1 hx with hx | hx
      · cases hb : b.buffers d with
        | none => rw [hb] at hx; cases hx
        | some old =>
          rw [hb] at hx
          exact ⟨hsub (h.buffers d old hb x hx).1, (h.buffers d old hb x hx).2⟩
      · rw [List.mem_singleton.1 hx]
        exact ⟨List.mem_append_right _ List.mem_cons_self, hd.symm⟩
    · exact ⟨hsub (h.buffers d rows hrows x hx).1, (h.buffers d rows hrows x hx).2⟩
  · rw [absorbRow_certifiedOrder, absorbRow_delivered]
    exact h.days
  · intro x hx
    rw [absorbRow_delivered] at hx
    obtain ⟨d, hd, hx⟩ := h.delivered x hx
    exact ⟨d, by rwa [absorbRow_certifiedOrder], hx.mono hsub (by rw [absorbRow_certs])⟩

theorem Sourced.absorb : ∀ {rows read : List Row} {b : Books}, Sourced read b → Sourced (read ++ rows) (b.absorb rows)
  | [], read, _, h => by rwa [List.append_nil]
  | r :: rows, read, b, h => by
    have hone : Sourced (read ++ [r]) (b.absorbRow r) := h.absorbRow
    have hrest : Sourced (read ++ [r] ++ rows) (b.absorb (r :: rows)) := hone.absorb
    rwa [List.append_assoc] at hrest

theorem Sourced.vendorTotals {vendorTotals : String → Option Nat} (h : Sourced read b) :
    Sourced read { b with vendorTotals } :=
  { h.toNamed.vendorTotals with
    buffers := h.buffers
    days := h.days
    delivered := fun x hx => by
      obtain ⟨d, hd, hx⟩ := h.delivered x hx
      exact ⟨d, hd, hx.mono (List.Subset.refl _) rfl⟩ }

/-- A pending date gets its certificate, and is delivered or not. -/
theorem Sourced.certify {rest : List String} (cfg : WalkConfig) (olderSeen : Bool) (h : Sourced read b)
    (hp : b.pending = d :: rest) : Sourced read (b.certify cfg d olderSeen).1 := by
  obtain ⟨cert, delivered, hday, -, hb, hdelivered⟩ := certify_cases cfg b d olderSeen
  have hnew : d ∉ b.certifiedOrder := by
    have hdisjoint := (List.nodup_append.1 h.nodup).2.2
    intro hmem
    exact hdisjoint d hmem d (hp ▸ List.mem_cons_self) rfl
  rw [hb]
  have hrows : ∀ r ∈ (b.buffers d).getD [], r ∈ read ∧ Row.ymd r = d := by
    intro r hr
    cases hbuf : b.buffers d with
    | none => rw [hbuf] at hr; cases hr
    | some rows =>
      rw [hbuf] at hr
      exact h.buffers d rows hbuf r hr
  refine { (h.toNamed.record hp hday).deliver with buffers := ?_, days := ?_, delivered := ?_ }
  · intro x rows hx
    by_cases hxd : x = d
    · simp [record, hxd] at hx
    · exact h.buffers x rows (by simpa [record, hxd] using hx)
  · obtain ⟨days, hdays, hmap⟩ := h.days
    change ∃ days : List String, days.Sublist (b.certifiedOrder ++ [d]) ∧ (b.delivered ++ delivered).map (·.day) = days.map dashDay
    rw [List.map_append, hmap]
    rcases hdelivered with rfl | ⟨rfl, -⟩
    · exact ⟨days, hdays.trans (List.sublist_append_left ..), by simp⟩
    · exact ⟨days ++ [d], hdays.append (.refl [d]), by simp⟩
  · intro x hx
    rcases List.mem_append.1 hx with hx | hx
    · -- an earlier delivery is of another date
      obtain ⟨d', hd', hx⟩ := h.delivered x hx
      refine ⟨d', List.mem_append_left _ hd', hx.mono (List.Subset.refl _) (Function.update_of_ne (fun heq => ?_) ..)⟩
      exact hnew (heq ▸ hd')
    · rcases hdelivered with rfl | ⟨rfl, hcomplete⟩
      · cases hx
      · rw [List.mem_singleton.1 hx]
        exact ⟨d, List.mem_append_right _ List.mem_cons_self, rfl, Function.update_self .., hcomplete, hrows⟩

theorem Sourced.certifyEach (rest : List String) : ∀ {dates : List (String × Bool)} {b : Books}, Sourced read b →
    b.pending = dates.map Prod.fst ++ rest → Sourced read (b.certifyEach cfg dates).1
  | [], _, h, _ => h
  | (d, olderSeen) :: dates, b, h, hp => by
    have hone := h.certify cfg olderSeen hp
    obtain ⟨cert, delivered, -, -, hb, -⟩ := certify_cases cfg b d olderSeen
    unfold Books.certifyEach
    rcases hc : b.certify cfg d olderSeen with ⟨b', exc⟩
    rw [hc] at hone hb
    cases exc with
    | some exc => exact hone
    | none =>
      refine hone.certifyEach rest ?_
      rw [hb]
      exact h.record_pending hp

/-- **Whatever page comes, what was delivered are days of their own.** -/
theorem sourced_kept (u : UnicodeDigits) (cfg : WalkConfig) : Kept u cfg Sourced where
  page p vendorTotals h := h.absorb.vendorTotals
  settles h hs := by
    cases hs with
    | checked => exact h
    | unsettled _ => exact h.certifyEach [] (by simp)
    | settled _ => exact h.certifyEach _ pending_split

end Books

/-! ## The deliveries of a walk -/

/-- A delivery of a walk: a day under its certificate, with rows of the pages read. -/
structure Handed (read : List Row) (certificates : List TapeDayCertificate) (x : Delivery) : Prop where
  cert : x.cert ∈ certificates
  day : x.cert.day = x.day
  complete : x.cert.complete = true
  rows : ∀ r ∈ x.rows, r ∈ read ∧ dashDay (Row.ymd r) = x.day
  seen : ∃ r ∈ read, dashDay (Row.ymd r) = x.day

/-- **A walk hands over different days, each certified, whatever it is served.** -/
theorem Walk.deliveries (u : UnicodeDigits) (cfg : WalkConfig) (events : List Event) {payload : Payload} {w : Walk} {s : Stop}
    (hrun : Walk.start.run u cfg events = .stop w s) (h : w.payload s = some payload) :
    (w.books.delivered.map (·.day)).Nodup ∧
      ∀ x ∈ w.books.delivered, Handed (rowsFetched u events payload.pagesFetched) payload.certificates x := by
  obtain ⟨n, hn, hsourced⟩ := Walk.run_kept (Books.sourced_kept u cfg) events (w := .start) Books.sourced_empty
  rw [hrun, Turn.walk_stop] at hn hsourced
  rw [List.nil_append] at hsourced
  obtain ⟨hcerts, hfetched⟩ := Walk.certificates_of_payload h
  rw [hcerts, hfetched, show w.pagesFetched = n by simpa [Walk.start] using hn]
  have hread : ∀ d ∈ w.books.certifiedOrder, ∃ r ∈ rowsFetched u events n, Row.ymd r = d := fun d hd =>
    List.mem_map.1 ((hsourced.seen d).1 (List.mem_append_left _ hd))
  have hlength : ∀ d ∈ w.books.certifiedOrder, d.toList.length = 8 := by
    intro d hd
    obtain ⟨row, hrow, rfl⟩ := hread d hd
    obtain ⟨p, -, hp⟩ := List.mem_flatMap.1 hrow
    exact Page.length_ymd hp
  constructor
  · obtain ⟨days, hdays, hmap⟩ := hsourced.days
    rw [hmap]
    have hnodup : days.Nodup := hdays.nodup (List.nodup_append.1 hsourced.nodup).1
    exact hnodup.map_on fun a ha b hb => dashDay_injective (hlength a (hdays.subset ha)) (hlength b (hdays.subset hb))
  · intro x hx
    obtain ⟨d, hd, hx⟩ := hsourced.delivered x hx
    obtain ⟨r, hr, hymd⟩ := hread d hd
    exact {
      cert := List.mem_append_left _ (List.mem_filterMap.2 ⟨d, hd, hx.cert⟩)
      day := (hsourced.day d x.cert hx.cert).trans hx.day.symm
      complete := hx.complete
      rows := fun r hr => ⟨(hx.rows r hr).1, by rw [(hx.rows r hr).2, hx.day]⟩
      seen := ⟨r, hr, by rw [hymd, hx.day]⟩ }

end Kiwoom
