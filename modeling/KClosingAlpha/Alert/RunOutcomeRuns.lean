import KClosingAlpha.Alert.RunOutcome
import Mathlib
/-!
# RunOutcomeRuns — a critical outcome stays paged

The kinds of run outcomes last a day: what the ledger holds of them is of its own day (`Daily`).  So a critical outcome is always
met by a page of that day (`File.Pinned`), and until the job's next `OK` or the end of the day nothing that any other path asks of
the pager takes the page back (`critical_stays_paged`).
-/
namespace Alert

open Regex (Text)

/-! ## What the ledger holds of a day -/

/-- What lasts a day is of the ledger's day. -/
structure Daily (l : Ledger) (today : Int) : Prop where
  inScope : ∀ p ∈ l.sources, p.2.scope = incidentScope p.2.kind
  dated : ∀ p ∈ l.sources, p.2.scope = .day → p.2.day ≤ today
  paged : ∀ (k : IncidentKind) r, incidentScope k = .day → l.pages.lookup k.value = some r → r.day = today

/-- A source of a kind is live, and its kind is paged, on a day. -/
structure Pinned (l : Ledger) (source : String) (k : IncidentKind) (today : Int) : Prop where
  live : ∃ src, l.sources.lookup source = some src ∧ src.kind = k ∧ src.day = today
  paged : ∃ r, l.pages.lookup k.value = some r ∧ r.day = today

section ledger

variable {l : Ledger} {today today' now : Int} {cfg : AlertPolicyConfig} {k kind : IncidentKind} {source src' : String}
  {scope : SourceScope}

theorem Daily.rollover (h : Daily l today) (hle : today ≤ today') : Daily (l.rollover today') today' := by
  have hsub : ∀ p ∈ (l.rollover today').sources, p ∈ l.sources := fun p hp => (List.mem_filter.1 hp).1
  have hday : ∀ p ∈ (l.rollover today').sources, p.2.scope = .day → today' ≤ p.2.day := by
    intro p hp hs
    have hkept := (List.mem_filter.1 hp).2
    simpa [hs] using hkept
  refine ⟨fun p hp => h.inScope p (hsub p hp), fun p hp hs => (h.dated p (hsub p hp) hs).trans hle, fun k r hk hr => ?_⟩
  rw [pages_rollover] at hr
  split_ifs at hr with hlive
  obtain ⟨p, hp, hpk⟩ := List.mem_map.1 hlive
  have hscope : p.2.scope = .day := by rw [h.inScope p (hsub p hp), IncidentKind.value_inj.1 hpk, hk]
  have hsame : today' = today := le_antisymm ((hday p hp hscope).trans (h.dated p (hsub p hp) hscope)) hle
  rw [hsame]
  exact h.paged k r hk hr

theorem Daily.attach (h : Daily l today) (hscope : scope = incidentScope kind) (now : Int) :
    Daily (l.attach kind source scope now today).1 today := by
  have hentry : (l.attach kind source scope now today).2.scope = incidentScope (l.attach kind source scope now today).2.kind := by
    unfold Ledger.attach
    cases hl : l.sources.lookup source with
    | none => exact hscope
    | some entry => exact h.inScope _ (Py.Dict.mem_of_lookup hl)
  refine ⟨fun p hp => ?_, fun p hp hs => ?_, h.paged⟩
  · rcases Py.Dict.mem_set hp with rfl | hp
    · exact hentry
    · exact h.inScope p hp
  · rcases Py.Dict.mem_set hp with rfl | hp
    · exact le_refl today
    · exact h.dated p hp hs

theorem Daily.page (h : Daily l today) (hscope : scope = incidentScope kind) (now : Int) :
    Daily (l.page cfg kind source scope now today).1 today := by
  have hattach : Daily (l.attach kind source scope now today).1 today := h.attach hscope now
  rcases page_cases cfg kind source scope now l today with ⟨r, -, -, hfst, -⟩ | ⟨-, heq⟩
  · rw [hfst]
    exact hattach
  · rw [heq]
    refine ⟨hattach.inScope, hattach.dated, fun k r hk hr => ?_⟩
    dsimp only at hr
    rw [Py.Dict.lookup_set] at hr
    split_ifs at hr with hkind
    · rw [← Option.some.inj hr]
    · exact h.paged k r hk hr

theorem Daily.resolve (h : Daily l today) (wanted : List String) : Daily (l.resolve wanted).1 today := by
  have hsub : ∀ p ∈ (l.resolve wanted).1.sources, p ∈ l.sources := fun p hp => (List.mem_filter.1 hp).1
  refine ⟨fun p hp => h.inScope p (hsub p hp), fun p hp => h.dated p (hsub p hp), fun k r hk hr => ?_⟩
  rw [pages_resolve] at hr
  split_ifs at hr
  exact h.paged k r hk hr

/-! ### What is pinned -/

theorem Pinned.rollover (h : Pinned l source k today) : Pinned (l.rollover today) source k today := by
  obtain ⟨src, hsrc, hkind, hday⟩ := h.live
  have hkeep : (l.rollover today).sources.lookup source = some src :=
    Py.Dict.lookup_filter_of_pos _ hsrc (by simp [hday])
  refine ⟨⟨src, hkeep, hkind, hday⟩, ?_⟩
  rw [pages_rollover, if_pos]
  · exact h.paged
  · exact List.mem_map.2 ⟨_, Py.Dict.mem_of_lookup hkeep, by rw [hkind]⟩

theorem Pinned.attach (h : Pinned l source k today) (kind : IncidentKind) (src' : String) (scope : SourceScope) (now : Int) :
    Pinned (l.attach kind src' scope now today).1 source k today := by
  obtain ⟨src, hsrc, hkind, hday⟩ := h.live
  refine ⟨?_, h.paged⟩
  unfold Ledger.attach
  dsimp only
  rw [Py.Dict.lookup_set]
  by_cases hs : source = src'
  · subst hs
    rw [if_pos rfl, hsrc]
    exact ⟨_, rfl, hkind, rfl⟩
  · rw [if_neg hs]
    exact ⟨src, hsrc, hkind, hday⟩

/-- Its page is of the day, so that it is not sent again. -/
theorem Pinned.page (h : Pinned l source k today) (kind : IncidentKind) (src' : String) (scope : SourceScope) (now : Int) :
    Pinned (l.page cfg kind src' scope now today).1 source k today := by
  have hattach := h.attach kind src' scope now
  rcases page_cases cfg kind src' scope now l today with ⟨-, -, -, hfst, -⟩ | ⟨hnone, heq⟩
  · rw [hfst]
    exact hattach
  · rw [heq]
    obtain ⟨r, hr, hday⟩ := h.paged
    refine ⟨hattach.live, r, ?_, hday⟩
    have hne : k.value ≠ kind.value := by
      intro heq'
      rw [IncidentKind.value_inj] at heq'
      subst heq'
      exact (hnone r hr).1 hday
    exact (Py.Dict.lookup_set_of_ne hne _).trans hr

theorem Pinned.resolve (h : Pinned l source k today) {wanted : List String} (hnot : source ∉ wanted) :
    Pinned (l.resolve wanted).1 source k today := by
  obtain ⟨src, hsrc, hkind, hday⟩ := h.live
  have hlive : k ∉ (l.resolve wanted).2 := by
    intro hmem
    exact (mem_resolve.1 hmem).2.1 (source, src) (Py.Dict.mem_of_lookup hsrc) hnot hkind
  refine ⟨⟨src, Py.Dict.lookup_filter_of_pos _ hsrc (by simpa using hnot), hkind, hday⟩, ?_⟩
  rw [pages_resolve, if_neg hlive]
  exact h.paged

/-- **A page call leaves its source pinned**, where the kind lasts a day. -/
theorem Daily.pins (h : Daily l today) (hscope : incidentScope kind = .day)
    (hsrc : ∀ src, l.sources.lookup source = some src → src.kind = kind) (now : Int) :
    Pinned (l.page cfg kind source scope now today).1 source kind today := by
  have hlive : ∃ src, (l.attach kind source scope now today).1.sources.lookup source = some src ∧ src.kind = kind ∧
      src.day = today := by
    refine ⟨(l.attach kind source scope now today).2, Py.Dict.lookup_set_self _, ?_, rfl⟩
    unfold Ledger.attach
    cases hl : l.sources.lookup source with
    | none => rfl
    | some src => exact hsrc src hl
  rcases page_cases cfg kind source scope now l today with ⟨r, hr, -, hfst, -⟩ | ⟨-, heq⟩
  · rw [hfst]
    exact ⟨hlive, r, hr, h.paged kind r hscope hr⟩
  · rw [heq]
    exact ⟨hlive, ⟨today, now⟩, Py.Dict.lookup_set_self _, rfl⟩

end ledger

/-! ## Calls -/

def File.Daily (file : File) (bound : Int) : Prop := ∃ l today, file.load = .ok l ∧ today ≤ bound ∧ Alert.Daily l today

def File.Pinned (file : File) (source : String) (k : IncidentKind) (today : Int) : Prop :=
  ∃ l, file.load = .ok l ∧ Alert.Pinned l source k today

/-- A call that pages at the scope of its kind. -/
def Call.Scoped (c : Call) : Prop :=
  match c.op with
  | .observe kind _ scope => scope = incidentScope kind
  | .page kind _ scope _ => scope = incidentScope kind
  | _ => True

/-- A call that does not resolve a source. -/
def Call.Spares (source : String) (c : Call) : Prop :=
  match c.op with
  | .resolve sources => source ∉ sources
  | .resolveAbsent _ _ leads => ∀ lead ∈ leads, hasPrefix lead source = false
  | _ => True

section calls

variable {kindOf : String → IncidentKind} {file : File} {held : IncidentKind → Option Int} {bound today : Int}
  {cfg : AlertPolicyConfig} {c : Call} {cs : List Call} {k : IncidentKind} {source : String}

theorem resolve_daily (h : file.Daily bound) (sources : List String) (now : Int) (hle : bound ≤ kstDay now) :
    (resolve .fine file sources now).1.Daily (kstDay now) := by
  obtain ⟨l, today, hload, htoday, hl⟩ := h
  rcases resolve_fine hload sources now with heq | heq
  · rw [heq]
    exact ⟨l, today, hload, htoday.trans hle, hl⟩
  · rw [heq]
    exact ⟨_, kstDay now, rfl, le_rfl, (hl.rollover (htoday.trans hle)).resolve sources⟩

theorem step_daily (h : file.Daily bound) (hio : c.io = .fine) (hscoped : c.Scoped) (hle : bound ≤ kstDay c.now) :
    (step cfg file c).1.Daily (kstDay c.now) := by
  obtain ⟨op, now, io⟩ := c
  obtain rfl : io = .fine := hio
  cases op with
  | observe kind source scope =>
    obtain ⟨l, today, hload, htoday, hl⟩ := h
    exact ⟨_, kstDay now, congrArg File.load (observe_fine hload kind source scope now), le_rfl,
      (hl.rollover (htoday.trans hle)).attach hscoped now⟩
  | page kind source scope x =>
    obtain ⟨l, today, hload, htoday, hl⟩ := h
    exact ⟨_, kstDay now, congrArg (fun q => File.load q.1) (page_fine hload kind source scope now x), le_rfl,
      (hl.rollover (htoday.trans hle)).page hscoped now⟩
  | resolve sources => exact resolve_daily h sources now hle
  | resolveAbsent seen openKeys leads =>
    unfold step
    dsimp only
    unfold resolveAbsent
    cases seen.load with
    | ok read => exact resolve_daily h _ now hle
    | error e =>
      obtain ⟨l, today, hload, htoday, hl⟩ := h
      exact ⟨l, today, hload, htoday.trans hle, hl⟩

theorem resolve_pinned {now : Int} (h : file.Pinned source k (kstDay now)) {sources : List String} (hnot : source ∉ sources) :
    (resolve .fine file sources now).1.Pinned source k (kstDay now) := by
  obtain ⟨l, hload, hl⟩ := h
  rcases resolve_fine hload sources now with heq | heq
  · rw [heq]
    exact ⟨l, hload, hl⟩
  · rw [heq]
    exact ⟨_, rfl, hl.rollover.resolve hnot⟩

/-- What is resolved by absence stands under one of the prefixes. -/
theorem not_mem_gone {l : Ledger} {openKeys leads : List String} (h : ∀ lead ∈ leads, hasPrefix lead source = false) :
    source ∉ l.gone openKeys leads := by
  intro hmem
  obtain ⟨p, hp, rfl⟩ := List.mem_map.1 hmem
  have hcond := (List.mem_filter.1 hp).2
  rw [Bool.and_eq_true, Bool.and_eq_true, List.any_eq_true] at hcond
  obtain ⟨⟨-, lead, hlead, hpre⟩, -⟩ := hcond
  have hfalse := h lead hlead
  unfold hasPrefix at hfalse
  rw [hpre] at hfalse
  cases hfalse

/-- **On its day, only a resolution takes a pinned source away.** -/
theorem step_pinned (h : file.Pinned source k today) (hio : c.io = .fine) (hspares : c.Spares source)
    (hday : kstDay c.now = today) : (step cfg file c).1.Pinned source k today := by
  obtain ⟨op, now, io⟩ := c
  obtain rfl : io = .fine := hio
  obtain rfl : kstDay now = today := hday
  cases op with
  | observe kind source' scope =>
    obtain ⟨l, hload, hl⟩ := h
    exact ⟨_, congrArg File.load (observe_fine hload kind source' scope now), hl.rollover.attach kind source' scope now⟩
  | page kind source' scope x =>
    obtain ⟨l, hload, hl⟩ := h
    exact ⟨_, congrArg (fun q => File.load q.1) (page_fine hload kind source' scope now x),
      hl.rollover.page kind source' scope now⟩
  | resolve sources => exact resolve_pinned h hspares
  | resolveAbsent seen openKeys leads =>
    unfold step
    dsimp only
    unfold resolveAbsent
    cases seen.load with
    | ok read => exact resolve_pinned h (not_mem_gone hspares)
    | error e => exact h

theorem run_pinned : ∀ {cs : List Call} {file : File}, file.Pinned source k today →
    (∀ c ∈ cs, c.io = .fine ∧ c.Spares source ∧ kstDay c.now = today) → (run cfg file cs).1.Pinned source k today
  | [], _, h, _ => h
  | c :: cs, file, h, hcs => by
    obtain ⟨hio, hspares, hday⟩ := hcs c List.mem_cons_self
    have hstep : (step cfg file c).1.Pinned source k today := step_pinned h hio hspares hday
    have hrest := run_pinned hstep (fun d hd => hcs d (List.mem_cons_of_mem _ hd))
    exact hrest

/-- What a file keeps from day to day. -/
def File.UpToDate (kindOf : String → IncidentKind) (file : File) (held : IncidentKind → Option Int) (bound : Int) : Prop :=
  file.Holds kindOf held bound ∧ file.Daily bound

theorem File.UpToDate.mono (h : file.UpToDate kindOf held bound) {later : Int} (hle : bound ≤ later) :
    file.UpToDate kindOf held later := by
  obtain ⟨⟨l, d, hload, hd, hl⟩, l', d', hload', hd', hl'⟩ := h
  exact ⟨⟨l, d, hload, hd.trans hle, hl⟩, l', d', hload', hd'.trans hle, hl'⟩

/-- **What a run keeps**, up to any day that is not before its calls. -/
theorem run_upToDate : ∀ {cs : List Call} {file : File} {held : IncidentKind → Option Int} {bound last : Int},
    file.UpToDate kindOf held bound → (∀ c ∈ cs, c.io = .fine ∧ c.Names kindOf ∧ c.Scoped) →
    (cs.map Call.now).Pairwise (· ≤ ·) → (∀ c ∈ cs, bound ≤ kstDay c.now) → (∀ c ∈ cs, kstDay c.now ≤ last) → bound ≤ last →
    (run cfg file cs).1.UpToDate kindOf (fun k => openPage k (held k) (run cfg file cs).2) last
  | [], _, _, _, _, h, _, _, _, _, hlast => h.mono hlast
  | c :: cs, file, held, bound, last, h, hcs, hclock, hle, hub, _ => by
    rw [List.map_cons, List.pairwise_cons] at hclock
    obtain ⟨hio, hn, hscoped⟩ := hcs c List.mem_cons_self
    have hcle := hle c List.mem_cons_self
    have hstep : (step cfg file c).1.UpToDate kindOf (fun k => openPage k (held k) (step cfg file c).2) (kstDay c.now) :=
      ⟨(step_holds cfg h.1 hio hn hcle).2, step_daily h.2 hio hscoped hcle⟩
    have hrest := run_upToDate hstep (fun d hd => hcs d (List.mem_cons_of_mem _ hd)) hclock.2
      (fun d hd => kstDay_mono (hclock.1 d.now (List.mem_map_of_mem hd))) (fun d hd => hub d (List.mem_cons_of_mem _ hd))
      (hub c List.mem_cons_self)
    have hfun : (fun k => openPage k (openPage k (held k) (step cfg file c).2) (run cfg (step cfg file c).1 cs).2) =
        fun k => openPage k (held k) (run cfg file (c :: cs)).2 :=
      funext fun k => (openPage_append k (held k) _ _).symm
    rw [hfun] at hrest
    exact hrest

theorem absent_upToDate (kindOf : String → IncidentKind) (bound : Int) :
    File.absent.UpToDate kindOf (fun _ => none) bound :=
  ⟨⟨_, bound, rfl, le_rfl, holds_empty bound⟩, ⟨⟨[], []⟩, bound, rfl, le_rfl,
    ⟨fun p hp => (by cases hp), fun p hp => (by cases hp), fun k r _ hr => (by cases hr)⟩⟩⟩

theorem exists_bound (last : Int) : ∀ cs : List Call, ∃ b ≤ last, ∀ c ∈ cs, b ≤ kstDay c.now
  | [] => ⟨last, le_rfl, fun c hc => (by cases hc)⟩
  | c :: cs => by
    obtain ⟨b, hlast, hb⟩ := exists_bound last cs
    refine ⟨min b (kstDay c.now), (min_le_left _ _).trans hlast, fun d hd => ?_⟩
    rcases List.mem_cons.1 hd with rfl | hd
    · exact min_le_right _ _
    · exact (min_le_left _ _).trans (hb d hd)

/-- What a run from no file has at its end. -/
theorem run_absent_upToDate (cfg : AlertPolicyConfig) {cs : List Call} {last : Int}
    (hgood : ∀ c ∈ cs, c.io = .fine ∧ c.Names kindOf ∧ c.Scoped) (hclock : (cs.map Call.now).Pairwise (· ≤ ·))
    (hlast : ∀ c ∈ cs, kstDay c.now ≤ last) :
    (run cfg .absent cs).1.UpToDate kindOf (fun k => openPage k none (run cfg .absent cs).2) last := by
  obtain ⟨b, hb, hbound⟩ := exists_bound last cs
  exact run_upToDate (absent_upToDate kindOf b) hgood hclock hbound hlast hb

/-- A page call of a kind that lasts a day pins its source. -/
theorem step_pins {now : Int} {x : Option String} (h : file.UpToDate kindOf held bound) (hle : bound ≤ kstDay now)
    (hname : k = kindOf source) (hscope : incidentScope k = .day) :
    (step cfg file ⟨.page k source .day x, now, .fine⟩).1.Pinned source k (kstDay now) := by
  obtain ⟨⟨l, _, hload, -, hl⟩, l', today, hload', htoday, hl'⟩ := h
  obtain rfl : l = l' := Except.ok.inj (hload.symm.trans hload')
  refine ⟨_, congrArg (fun q => File.load q.1) (page_fine hload k source .day now x), ?_⟩
  refine (hl'.rollover (htoday.trans hle)).pins hscope (fun src hsrc => ?_) now
  rw [hl.named _ (List.mem_filter.1 (Py.Dict.mem_of_lookup hsrc)).1, ← hname]

/-- **A page call of a kind that lasts a day is met by a page of that day, which stays open as long as its source is spared.** -/
theorem paged_until_resolved {as bs : List Call} {now : Int} {x : Option String} (hscope : incidentScope k = .day)
    (hgood : ∀ c ∈ as ++ ⟨.page k source .day x, now, .fine⟩ :: bs, c.io = .fine ∧ c.Names kindOf ∧ c.Scoped)
    (hclock : ((as ++ ⟨.page k source .day x, now, .fine⟩ :: bs).map Call.now).Pairwise (· ≤ ·))
    (hspares : ∀ c ∈ bs, c.Spares source) (hday : ∀ c ∈ bs, kstDay c.now = kstDay now) :
    ∃ ms y t ns, (run cfg .absent (as ++ ⟨.page k source .day x, now, .fine⟩ :: bs)).2 = ms ++ .page k y t :: ns ∧
      (∀ u, Mail.resolved k u ∉ ns) ∧ kstDay t = kstDay now := by
  have hname : k = kindOf source := (hgood ⟨.page k source .day x, now, .fine⟩ (by simp)).2.1
  have hpairs := List.pairwise_append.1 (List.map_append ▸ hclock)
  have has : ∀ c ∈ as, kstDay c.now ≤ kstDay now := fun c hc =>
    kstDay_mono (hpairs.2.2 c.now (List.mem_map_of_mem hc) now (by simp))
  have hlast : ∀ c ∈ as ++ ⟨.page k source .day x, now, .fine⟩ :: bs, kstDay c.now ≤ kstDay now := by
    intro c hc
    rcases List.mem_append.1 hc with hc | hc
    · exact has c hc
    · rcases List.mem_cons.1 hc with rfl | hc
      · exact le_rfl
      · exact (hday c hc).le
  -- the ledger before the call, and what the call and those after it keep of it
  have hbefore := run_absent_upToDate cfg (fun c hc => hgood c (List.mem_append_left _ hc)) hpairs.1 has
  have hcall : (step cfg (run cfg .absent as).1 ⟨.page k source .day x, now, .fine⟩).1.Pinned source k (kstDay now) :=
    step_pins hbefore le_rfl hname hscope
  have hbs : (run cfg (step cfg (run cfg .absent as).1 ⟨.page k source .day x, now, .fine⟩).1 bs).1.Pinned source k
      (kstDay now) := run_pinned hcall (fun c hc => ⟨(hgood c (by simp [hc])).1, hspares c hc, hday c hc⟩)
  have hpin : (run cfg .absent (as ++ ⟨.page k source .day x, now, .fine⟩ :: bs)).1.Pinned source k (kstDay now) := by
    rw [run_append]
    exact hbs
  obtain ⟨⟨l, _, hload, -, hl⟩, -⟩ := run_absent_upToDate cfg hgood hclock hlast
  obtain ⟨l', hload', -, rec, hrec, hrecday⟩ := hpin
  obtain rfl : l = l' := Except.ok.inj (hload.symm.trans hload')
  obtain ⟨t, ht, htday⟩ := hl.opened k rec hrec
  rcases exists_page_of_openPage k ht with ⟨hnone, -⟩ | ⟨ms, y, ns, heq, hns⟩
  · cases hnone
  · exact ⟨ms, y, t, ns, heq, hns, by rw [← htday, hrecday]⟩

end calls

/-! ## Events -/

/-- What is asked of the pager: by a job's record, or by another path. -/
inductive Event where
  | record (c : Recording) (secrets : List Text)
  | other (c : Call)

/-- What a record asks of the pager; one that raises asks nothing. -/
def Recording.call? (isalnum : Char → Bool) (secrets : List Text) (c : Recording) : Option Call :=
  match recordRunOutcome isalnum secrets c with
  | .error _ => none
  | .ok r => r.op.map (fun op => ⟨op, c.now, .fine⟩)

namespace Event

variable (isalnum : Char → Bool)

def now : Event → Int
  | record c _ => c.now
  | other c => c.now

def call? : Event → Option Call
  | record c secrets => c.call? isalnum secrets
  | other c => some c

/-- Another path names each source with its kind, pages at the scope of its kind and leaves the sources of runs alone. -/
def Fits (kindOf : String → IncidentKind) : Event → Prop
  | record _ _ => True
  | other c => c.io = .fine ∧ c.Names kindOf ∧ c.Scoped ∧ ∀ job, c.Spares (runSource job)

/-- An `OK` of a job. -/
def IsOk (job : String) : Event → Prop
  | record c _ => c.job = job ∧ c.outcome = "OK"
  | other _ => False

end Event

/-- The file and the mails after some events. -/
def runEvents (cfg : AlertPolicyConfig) (isalnum : Char → Bool) (es : List Event) : File × List Mail :=
  run cfg .absent (es.filterMap (Event.call? isalnum))

section events

variable {kindOf : String → IncidentKind} {cfg : AlertPolicyConfig} {isalnum : Char → Bool} {e : Event} {c : Call}

/-- A record's call, and what it was recorded as. -/
theorem call_record {r : Recording} {secrets : List Text} (h : r.call? isalnum secrets = some c) :
    (r.outcome = "OK" ∧ c = ⟨.resolve [runSource r.job], r.now, .fine⟩) ∨
      ∃ rec kind, recordRunOutcome isalnum secrets r = .ok rec ∧ classifyRunOutcome rec.job rec.outcome rec.reason = some kind ∧
        c = ⟨.page kind (runSource r.job) .day none, r.now, .fine⟩ := by
  unfold Recording.call? at h
  split at h
  · cases h
  · rename_i rec hrec
    obtain ⟨op, hop, rfl⟩ := Option.map_eq_some_iff.1 h
    obtain ⟨hjob, hout⟩ := recordRunOutcome_job hrec
    rcases op_cases hop with ⟨hok, rfl⟩ | ⟨kind, hkind, rfl⟩
    · exact .inl ⟨hout ▸ hok, by rw [hjob]⟩
    · exact .inr ⟨rec, kind, hrec, hkind, by rw [hjob]⟩

theorem call_now (h : e.call? isalnum = some c) : c.now = e.now := by
  cases e with
  | other c' =>
    cases h
    rfl
  | record r secrets =>
    rcases call_record h with ⟨-, rfl⟩ | ⟨rec, kind, -, -, rfl⟩ <;> rfl

theorem runSource_inj {job job' : String} (h : runSource job = runSource job') : job = job' := by
  have hl : "run:".toList ++ job.toList = "run:".toList ++ job'.toList := by
    rw [← String.toList_append, ← String.toList_append]
    exact congrArg String.toList h
  exact String.toList_injective (List.append_cancel_left hl)

theorem call_fits (hkinds : ∀ job outcome reason k, classifyRunOutcome job outcome reason = some k → kindOf (runSource job) = k)
    (he : e.Fits kindOf) (h : e.call? isalnum = some c) : c.io = .fine ∧ c.Names kindOf ∧ c.Scoped := by
  cases e with
  | other c' =>
    cases h
    exact ⟨he.1, he.2.1, he.2.2.1⟩
  | record r secrets =>
    rcases call_record h with ⟨-, rfl⟩ | ⟨rec, kind, hrec, hkind, rfl⟩
    · exact ⟨rfl, trivial, trivial⟩
    · obtain ⟨hjob, -⟩ := recordRunOutcome_job hrec
      refine ⟨rfl, ?_, (classifyRunOutcome_some hkind).2.symm⟩
      exact (hkinds r.job rec.outcome rec.reason kind (hjob ▸ hkind)).symm

theorem call_spares {job : String} (he : e.Fits kindOf) (hok : ¬ e.IsOk job) (h : e.call? isalnum = some c) :
    c.Spares (runSource job) := by
  cases e with
  | other c' =>
    cases h
    exact he.2.2.2 job
  | record r secrets =>
    rcases call_record h with ⟨hout, rfl⟩ | ⟨rec, kind, -, -, rfl⟩
    · intro hmem
      exact hok ⟨(runSource_inj (List.mem_singleton.1 hmem)).symm, hout⟩
    · trivial

/-- **From a critical outcome to the job's next `OK` or the end of the day, a page of its kind that was mailed on that day is
open**: no resolution of the kind was mailed after it, whatever else was recorded or asked of the pager. -/
theorem critical_stays_paged (cfg : AlertPolicyConfig) (isalnum : Char → Bool) (kindOf : String → IncidentKind)
    (hkinds : ∀ job outcome reason k, classifyRunOutcome job outcome reason = some k → kindOf (runSource job) = k)
    {as bs : List Event} {r : Recording} {secrets : List Text} {rec : RunRecord} {k : IncidentKind}
    (hfits : ∀ e ∈ as ++ .record r secrets :: bs, e.Fits kindOf)
    (hclock : ((as ++ .record r secrets :: bs).map Event.now).Pairwise (· ≤ ·))
    (hrec : recordRunOutcome isalnum secrets r = .ok rec)
    (hk : classifyRunOutcome rec.job rec.outcome rec.reason = some k)
    (hday : ∀ e ∈ bs, kstDay e.now = kstDay r.now) (hok : ∀ e ∈ bs, ¬ e.IsOk r.job) :
    ∃ ms x t ns, (runEvents cfg isalnum (as ++ .record r secrets :: bs)).2 = ms ++ .page k x t :: ns ∧
      (∀ u, Mail.resolved k u ∉ ns) ∧ kstDay t = kstDay r.now := by
  obtain ⟨hjob, -⟩ := recordRunOutcome_job hrec
  have hcall : (Event.record r secrets).call? isalnum = some ⟨.page k (runSource r.job) .day none, r.now, .fine⟩ := by
    change r.call? isalnum secrets = _
    unfold Recording.call?
    rw [hrec]
    dsimp only
    rw [op_of_critical hk, hjob]
    rfl
  have hsplit : (as ++ .record r secrets :: bs).filterMap (Event.call? isalnum) = as.filterMap (Event.call? isalnum) ++
      ⟨.page k (runSource r.job) .day none, r.now, .fine⟩ :: bs.filterMap (Event.call? isalnum) := by
    rw [List.filterMap_append, List.filterMap_cons_some hcall]
  have hgood : ∀ c ∈ (as ++ .record r secrets :: bs).filterMap (Event.call? isalnum),
      c.io = .fine ∧ c.Names kindOf ∧ c.Scoped := by
    intro c hc
    obtain ⟨e, he, hec⟩ := List.mem_filterMap.1 hc
    exact call_fits hkinds (hfits e he) hec
  have hpair : (((as ++ .record r secrets :: bs).filterMap (Event.call? isalnum)).map Call.now).Pairwise (· ≤ ·) := by
    rw [List.pairwise_map] at hclock ⊢
    refine List.Pairwise.filterMap _ (fun e e' hee c hc c' hc' => ?_) hclock
    rw [call_now hc, call_now hc']
    exact hee
  unfold runEvents
  rw [hsplit] at hgood hpair ⊢
  refine paged_until_resolved (classifyRunOutcome_some hk).2 hgood hpair (fun c hc => ?_) (fun c hc => ?_)
  · obtain ⟨e, he, hec⟩ := List.mem_filterMap.1 hc
    exact call_spares (hfits e (by simp [he])) (hok e he) hec
  · obtain ⟨e, he, hec⟩ := List.mem_filterMap.1 hc
    rw [call_now hec]
    exact hday e he

end events

/-! Nothing is decided today; the reconciler looks at what it measures, and the job is recorded again. -/

def runKind (source : String) : IncidentKind :=
  let job := String.ofList (source.toList.drop 4)
  if job = "price_ingest" then .pricePanelStale else ((criticalRunOutcomes.lookup job).map OutcomeRule.kind).getD .collect

theorem runKind_runSource (job outcome : String) (reason : Text) (k : IncidentKind)
    (h : classifyRunOutcome job outcome reason = some k) : runKind (runSource job) = k := by
  have hjob : String.ofList ((runSource job).toList.drop 4) = job := by
    have hlen : "run:".toList.length = 4 := by decide
    unfold runSource
    rw [String.toList_append, ← hlen, List.drop_left, String.ofList_toList]
  unfold runKind
  dsimp only
  rw [hjob]
  unfold classifyRunOutcome at h
  by_cases hprice : job = "price_ingest"
  · rw [if_pos hprice] at h ⊢
    split_ifs at h
    exact Option.some.inj h
  · rw [if_neg hprice] at h ⊢
    cases hrule : criticalRunOutcomes.lookup job with
    | none =>
      rw [hrule] at h
      cases h
    | some rule =>
      rw [hrule] at h
      dsimp only at h
      split_ifs at h
      exact Option.some.inj h

def predictRun (now : Int) : Recording := ⟨"predict", "NO_DECISION", "2026-01-15", [], now⟩

def reconcileCall : Call := ⟨.resolveAbsent .absent [] reconcileMeasuredPrefixes, 1, .fine⟩

theorem reconcileCall_spares (job : String) : reconcileCall.Spares (runSource job) := by
  have hall : ∀ lead ∈ reconcileMeasuredPrefixes, ∃ c cs, lead.toList = c :: cs ∧ c ≠ 'r' := by
    simp [reconcileMeasuredPrefixes]
  intro lead hlead
  obtain ⟨c, cs, hc, hne⟩ := hall lead hlead
  unfold hasPrefix runSource
  rw [hc, String.toList_append]
  simp [List.isPrefixOf, hne]

theorem critical_stays_paged_predict :
    ∃ ms x t ns, (runEvents defaultAlertPolicy Char.isAlphanum
        ([] ++ .record (predictRun 0) [] :: [.other reconcileCall, .record (predictRun 2) []])).2 =
          ms ++ .page .predict x t :: ns ∧ (∀ u, Mail.resolved .predict u ∉ ns) ∧ kstDay t = kstDay 0 := by
  have hrec : recordRunOutcome Char.isAlphanum [] (predictRun 0) = .ok ⟨"predict", "2026-01-15", "NO_DECISION", []⟩ := rfl
  refine critical_stays_paged defaultAlertPolicy Char.isAlphanum runKind runKind_runSource ?_ ?_ hrec (by decide) ?_ ?_
  · intro e he
    simp only [List.nil_append, List.mem_cons, List.not_mem_nil, or_false] at he
    rcases he with rfl | rfl | rfl
    · trivial
    · exact ⟨rfl, trivial, trivial, reconcileCall_spares⟩
    · trivial
  · simp [Event.now, predictRun, reconcileCall]
  · intro e he
    simp only [List.mem_cons, List.not_mem_nil, or_false] at he
    rcases he with rfl | rfl <;> decide
  · intro e he
    simp only [List.mem_cons, List.not_mem_nil, or_false] at he
    rcases he with rfl | rfl
    · exact fun h => h
    · exact fun h => absurd h.2 (by decide)

end Alert
