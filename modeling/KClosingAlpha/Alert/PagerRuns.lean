import KClosingAlpha.Alert.Pager
import KClosingAlpha.Py.Lookup
import Mathlib.Data.List.Dedup
/-!
# PagerRuns — what is mailed over a run of calls

The page that is open is the last mail of its kind that no resolution follows (`openPage`).  The ledger knows the page
that is open today, and only pages that are open (`Holds`); so no kind is paged twice on a day without a resolution
between, and no resolution is mailed without an open page (`mails_sound`).
-/
namespace Alert

/-! ## Runs -/

inductive Op where
  | observe (kind : IncidentKind) (source : String) (scope : SourceScope)
  | page (kind : IncidentKind) (source : String) (scope : SourceScope) (autoAction : Option String)
  | resolve (sources : List String)
  /-- `seen` is what was read before the lock. -/
  | resolveAbsent (seen : File) (openKeys measuredPrefixes : List String)

structure Call where
  op : Op
  now : Int
  io : Access

/-- A call, and what it mails. -/
def step (cfg : AlertPolicyConfig) (file : File) (c : Call) : File × List Mail :=
  match c.op with
  | .observe kind source scope => ((observe c.io file kind source scope c.now).1, [])
  | .page kind source scope autoAction =>
    ((page cfg c.io file kind source scope c.now autoAction).1, (page cfg c.io file kind source scope c.now autoAction).2.2)
  | .resolve sources => ((resolve c.io file sources c.now).1, (resolve c.io file sources c.now).2.2)
  | .resolveAbsent seen openKeys leads =>
    ((resolveAbsent c.io seen file openKeys leads c.now).1, (resolveAbsent c.io seen file openKeys leads c.now).2.2)

def run (cfg : AlertPolicyConfig) : File → List Call → File × List Mail
  | file, [] => (file, [])
  | file, c :: cs => ((run cfg (step cfg file c).1 cs).1, (step cfg file c).2 ++ (run cfg (step cfg file c).1 cs).2)

def Mail.at : Mail → Int
  | .page _ _ t => t
  | .resolved _ t => t

/-- Each source is used with one kind. -/
def Call.Names (kindOf : String → IncidentKind) (c : Call) : Prop :=
  match c.op with
  | .observe kind source _ => kind = kindOf source
  | .page kind source _ _ => kind = kindOf source
  | _ => True

/-- The page of a kind that is open after some mails, if one was open before. -/
def openPage (k : IncidentKind) : Option Int → List Mail → Option Int
  | held, [] => held
  | held, .page k' _ t :: ms => openPage k (if k' = k then some t else held) ms
  | held, .resolved k' _ :: ms => openPage k (if k' = k then none else held) ms

/-- A kind has a source that the day does not end. -/
def File.IsOpen (k : IncidentKind) (today : Int) (file : File) : Prop :=
  ∃ l, file.load = .ok l ∧ k.value ∈ (l.rollover today).liveKinds

/-- A kind is open at every call. -/
def StaysOpen (cfg : AlertPolicyConfig) (k : IncidentKind) : File → List Call → Prop
  | _, [] => True
  | file, c :: cs => file.IsOpen k (kstDay c.now) ∧ StaysOpen cfg k (step cfg file c).1 cs

/-! ## What mails leave open -/

section mails

variable {k : IncidentKind} {held : Option Int} {as bs ms : List Mail} {m : Mail} {t : Int}

theorem openPage_append (k : IncidentKind) : ∀ (held : Option Int) (as bs : List Mail),
    openPage k held (as ++ bs) = openPage k (openPage k held as) bs
  | _, [], _ => rfl
  | _, .page _ _ _ :: as, bs => openPage_append k _ as bs
  | _, .resolved _ _ :: as, bs => openPage_append k _ as bs

/-- Without a resolution, a page stays open until the next one. -/
theorem openPage_of_no_resolution (k : IncidentKind) : ∀ (s : Int) (ms : List Mail), (∀ t, Mail.resolved k t ∉ ms) →
    ∃ t, openPage k (some s) ms = some t ∧ (t = s ∨ ∃ x, Mail.page k x t ∈ ms)
  | s, [], _ => ⟨s, rfl, .inl rfl⟩
  | s, .page k' x t :: ms, h => by
    have hms : ∀ u, Mail.resolved k u ∉ ms := fun u hu => h u (List.mem_cons_of_mem _ hu)
    by_cases hk : k' = k
    · subst hk
      obtain ⟨u, hu, hor⟩ := openPage_of_no_resolution k' t ms hms
      refine ⟨u, by rw [openPage, if_pos rfl]; exact hu, .inr ?_⟩
      rcases hor with rfl | ⟨y, hy⟩
      · exact ⟨x, List.mem_cons_self⟩
      · exact ⟨y, List.mem_cons_of_mem _ hy⟩
    · obtain ⟨u, hu, hor⟩ := openPage_of_no_resolution k s ms hms
      refine ⟨u, by rw [openPage, if_neg hk]; exact hu, ?_⟩
      exact hor.imp_right (fun ⟨y, hy⟩ => ⟨y, List.mem_cons_of_mem _ hy⟩)
  | s, .resolved k' t :: ms, h => by
    have hk : k' ≠ k := fun heq => h t (heq ▸ List.mem_cons_self)
    obtain ⟨u, hu, hor⟩ := openPage_of_no_resolution k s ms (fun v hv => h v (List.mem_cons_of_mem _ hv))
    refine ⟨u, by rw [openPage, if_neg hk]; exact hu, ?_⟩
    exact hor.imp_right (fun ⟨y, hy⟩ => ⟨y, List.mem_cons_of_mem _ hy⟩)

/-- A page that is open was mailed, and no resolution after it. -/
theorem exists_page_of_openPage (k : IncidentKind) : ∀ {ms : List Mail} {held : Option Int} {t : Int},
    openPage k held ms = some t → held = some t ∧ (∀ u, Mail.resolved k u ∉ ms) ∨
      ∃ as x bs, ms = as ++ .page k x t :: bs ∧ ∀ u, Mail.resolved k u ∉ bs
  | [], held, t, h => .inl ⟨h, fun u hu => (by cases hu)⟩
  | .page k' x s :: ms, held, t, h => by
    rw [openPage] at h
    rcases exists_page_of_openPage k h with ⟨hheld, hnone⟩ | ⟨as, y, bs, rfl, hnone⟩
    · by_cases hk : k' = k
      · rw [if_pos hk, Option.some.injEq] at hheld
        subst hk hheld
        exact .inr ⟨[], x, ms, rfl, hnone⟩
      · rw [if_neg hk] at hheld
        refine .inl ⟨hheld, fun u hu => ?_⟩
        rcases List.mem_cons.1 hu with heq | hu
        · cases heq
        · exact hnone u hu
    · exact .inr ⟨_ :: as, y, bs, rfl, hnone⟩
  | .resolved k' s :: ms, held, t, h => by
    rw [openPage] at h
    rcases exists_page_of_openPage k h with ⟨hheld, hnone⟩ | ⟨as, y, bs, rfl, hnone⟩
    · by_cases hk : k' = k
      · rw [if_pos hk] at hheld
        cases hheld
      · rw [if_neg hk] at hheld
        refine .inl ⟨hheld, fun u hu => ?_⟩
        rcases List.mem_cons.1 hu with heq | hu
        · exact hk (Mail.resolved.inj heq).1.symm
        · exact hnone u hu
    · exact .inr ⟨_ :: as, y, bs, rfl, hnone⟩

/-- Resolutions of other kinds leave a page open. -/
theorem openPage_resolved_of_not_mem {now : Int} : ∀ {ks : List IncidentKind} {held : Option Int}, k ∉ ks →
    openPage k held (ks.map (fun kind => Mail.resolved kind now)) = held
  | [], _, _ => rfl
  | k' :: ks, held, h => by
    rw [List.mem_cons, not_or] at h
    rw [List.map_cons, openPage, if_neg (Ne.symm h.1)]
    exact openPage_resolved_of_not_mem h.2

theorem openPage_resolved_of_mem {now : Int} : ∀ {ks : List IncidentKind} {held : Option Int}, k ∈ ks →
    openPage k held (ks.map (fun kind => Mail.resolved kind now)) = none
  | k' :: ks, held, h => by
    rw [List.map_cons, openPage]
    by_cases hks : k ∈ ks
    · exact openPage_resolved_of_mem hks
    · have hk : k' = k := by
        rcases List.mem_cons.1 h with h | h
        · exact h.symm
        · exact absurd h hks
      rw [if_pos hk]
      exact openPage_resolved_of_not_mem hks

/-- What a mail may follow: a page no open page of its day, a resolution an open page. -/
def Mail.Follows (held : IncidentKind → Option Int) : Mail → Prop
  | .page k _ t => ∀ s, held k = some s → kstDay s ≠ kstDay t
  | .resolved k _ => ∃ s, held k = some s

/-- Every mail follows what it may. -/
def Sound : (IncidentKind → Option Int) → List Mail → Prop
  | _, [] => True
  | held, m :: ms => m.Follows held ∧ Sound (fun k => openPage k (held k) [m]) ms

theorem sound_append : ∀ {held : IncidentKind → Option Int} {as bs : List Mail},
    Sound held (as ++ bs) ↔ Sound held as ∧ Sound (fun k => openPage k (held k) as) bs
  | held, [], bs => by simp [Sound, openPage]
  | held, m :: as, bs => by
    have hcons : (fun k => openPage k (held k) (m :: as)) = fun k => openPage k (openPage k (held k) [m]) as := by
      funext k
      rw [← openPage_append, List.singleton_append]
    rw [List.cons_append, Sound, Sound, sound_append, hcons, and_assoc]

/-- Different kinds with open pages are resolved. -/
theorem sound_resolved {now : Int} : ∀ {ks : List IncidentKind} {held : IncidentKind → Option Int}, ks.Nodup →
    (∀ k ∈ ks, ∃ s, held k = some s) → Sound held (ks.map (fun kind => Mail.resolved kind now))
  | [], _, _, _ => trivial
  | k' :: ks, held, hn, h => by
    rw [List.nodup_cons] at hn
    refine ⟨h k' List.mem_cons_self, sound_resolved hn.2 (fun k hk => ?_)⟩
    obtain ⟨s, hs⟩ := h k (List.mem_cons_of_mem _ hk)
    have hne : k' ≠ k := fun heq => hn.1 (heq.symm ▸ hk)
    refine ⟨s, ?_⟩
    rw [← hs]
    exact if_neg hne

end mails

/-! ## The ledger -/

/-- The ledger knows the page that is open today, and only pages that are open. -/
structure Holds (kindOf : String → IncidentKind) (l : Ledger) (held : IncidentKind → Option Int) (today : Int) : Prop where
  named : ∀ p ∈ l.sources, p.2.kind = kindOf p.1
  fresh : ∀ p ∈ l.sources, p.2.scope = .day → today ≤ p.2.day
  live : ∀ (k : IncidentKind) r, l.pages.lookup k.value = some r → k.value ∈ l.liveKinds
  known : ∀ k t, held k = some t → kstDay t ≤ today ∧
    (kstDay t = today → ∃ r, l.pages.lookup k.value = some r ∧ r.day = today)
  opened : ∀ (k : IncidentKind) r, l.pages.lookup k.value = some r → ∃ t, held k = some t ∧ r.day = kstDay t

section ledger

variable {kindOf : String → IncidentKind} {l : Ledger} {held : IncidentKind → Option Int} {today today' now : Int}
  {cfg : AlertPolicyConfig} {k kind : IncidentKind} {source : String} {scope : SourceScope}

theorem holds_empty (today : Int) : Holds kindOf ⟨[], []⟩ (fun _ => none) today :=
  ⟨fun p hp => (by cases hp), fun p hp => (by cases hp), fun k r h => (by cases h), fun k t h => (by cases h),
    fun k r h => (by cases h)⟩

theorem pages_rollover (today : Int) (k : IncidentKind) : (l.rollover today).pages.lookup k.value =
    if k.value ∈ (l.rollover today).liveKinds then l.pages.lookup k.value else none := by
  have h := @Py.Dict.lookup_filter_key _ k.value (fun name => decide (name ∈ (l.rollover today).liveKinds)) l.pages
  exact h.trans (if_congr decide_eq_true_iff rfl rfl)

/-- **The day rolls over**: the pages it drops are of days past. -/
theorem Holds.rollover (h : Holds kindOf l held today) (hle : today ≤ today') :
    Holds kindOf (l.rollover today') held today' := by
  have hsub : ∀ p ∈ (l.rollover today').sources, p ∈ l.sources := fun p hp => (List.mem_filter.1 hp).1
  refine ⟨fun p hp => h.named p (hsub p hp), fun p hp hs => ?_, fun k r hr => ?_, fun k t ht => ?_, fun k r hr => ?_⟩
  · have := (List.mem_filter.1 hp).2
    simpa [hs] using this
  · rw [pages_rollover] at hr
    by_contra hk
    rw [if_neg hk] at hr
    cases hr
  · obtain ⟨hday, hpage⟩ := h.known k t ht
    refine ⟨hday.trans hle, fun heq => ?_⟩
    have hsame : today' = today := by omega
    subst hsame
    obtain ⟨r, hr, hrd⟩ := hpage heq
    have hall : (l.rollover today').sources = l.sources := by
      refine List.filter_eq_self.2 (fun p hp => ?_)
      by_cases hs : p.2.scope = .day
      · simpa [hs] using h.fresh p hp hs
      · simp [hs]
    refine ⟨r, ?_, hrd⟩
    rw [pages_rollover, if_pos, hr]
    unfold Ledger.liveKinds
    rw [hall]
    exact h.live k r hr
  · rw [pages_rollover] at hr
    split_ifs at hr with hk
    exact h.opened k r hr

/-! ### Attaching -/

theorem pages_attach : (l.attach kind source scope now today).1.pages = l.pages := rfl

/-- The source's entry is of its kind. -/
theorem kind_attach (h : Holds kindOf l held today) (hk : kind = kindOf source) :
    (l.attach kind source scope now today).2.kind = kindOf source := by
  unfold Ledger.attach
  cases hl : l.sources.lookup source with
  | none => exact hk
  | some entry => exact h.named _ (Py.Dict.mem_of_lookup hl)

theorem liveKinds_attach (h : Holds kindOf l held today) (hk : kind = kindOf source) {name : String}
    (hname : name ∈ l.liveKinds ∨ name = kind.value) : name ∈ (l.attach kind source scope now today).1.liveKinds := by
  have hself : (source, (l.attach kind source scope now today).2) ∈ (l.attach kind source scope now today).1.sources :=
    Py.Dict.mem_set_self _
  have hkind : (l.attach kind source scope now today).2.kind = kindOf source := kind_attach h hk
  rcases hname with hname | rfl
  · obtain ⟨p, hp, rfl⟩ := List.mem_map.1 hname
    by_cases hs : p.1 = source
    · refine List.mem_map.2 ⟨_, hself, ?_⟩
      rw [hkind, h.named p hp, hs]
    · exact List.mem_map.2 ⟨p, Py.Dict.mem_set_of_ne hs hp, rfl⟩
  · exact List.mem_map.2 ⟨_, hself, by rw [hkind, hk]⟩

theorem Holds.attach (h : Holds kindOf l held today) (hk : kind = kindOf source) (scope : SourceScope) (now : Int) :
    Holds kindOf (l.attach kind source scope now today).1 held today := by
  refine ⟨fun p hp => ?_, fun p hp hs => ?_, fun k r hr => liveKinds_attach h hk (.inl (h.live k r hr)), h.known, h.opened⟩
  · rcases Py.Dict.mem_set hp with rfl | hp
    · exact kind_attach h hk
    · exact h.named p hp
  · rcases Py.Dict.mem_set hp with rfl | hp
    · exact le_refl today
    · exact h.fresh p hp hs

/-! ### Paging -/

/-- A kind is paged where no page of the day is open. -/
theorem Holds.paged (h : Holds kindOf l held today) (hlive : kind.value ∈ l.liveKinds) (hnow : kstDay now = today)
    (x : Option String) :
    Holds kindOf { l with pages := l.pages.set kind.value ⟨today, now⟩ }
      (fun k => openPage k (held k) [.page kind x now]) today := by
  have hheld : ∀ k, openPage k (held k) [.page kind x now] = if kind = k then some now else held k := fun k => rfl
  have hne : ∀ {k : IncidentKind}, kind ≠ k → k.value ≠ kind.value := fun hk heq =>
    hk (IncidentKind.value_inj.1 heq).symm
  refine ⟨h.named, h.fresh, fun k r hr => ?_, fun k t ht => ?_, fun k r hr => ?_⟩
  · by_cases hk : kind = k
    · exact hk ▸ hlive
    · exact h.live k r (by rwa [Py.Dict.lookup_set, if_neg (hne hk)] at hr)
  · rw [hheld] at ht
    by_cases hk : kind = k
    · subst hk
      rw [if_pos rfl, Option.some.injEq] at ht
      exact ⟨le_of_eq (ht ▸ hnow), fun _ => ⟨_, Py.Dict.lookup_set_self _, rfl⟩⟩
    · rw [if_neg hk] at ht
      rw [Py.Dict.lookup_set, if_neg (hne hk)]
      exact h.known k t ht
  · rw [hheld]
    by_cases hk : kind = k
    · subst hk
      rw [Py.Dict.lookup_set_self, Option.some.injEq] at hr
      exact ⟨now, if_pos rfl, by rw [← hr, hnow]⟩
    · rw [Py.Dict.lookup_set, if_neg (hne hk)] at hr
      rw [if_neg hk]
      exact h.opened k r hr

/-- What a page call mails. -/
def pageMails (kind : IncidentKind) (autoAction : Option String) (now : Int) (decision : PageDecision) : List Mail :=
  if decision = .sent then [.page kind autoAction now] else []

/-- The cases of a page call. -/
theorem page_cases (cfg : AlertPolicyConfig) (kind : IncidentKind) (source : String) (scope : SourceScope) (now : Int)
    (l : Ledger) (today : Int) :
    (∃ r, l.pages.lookup kind.value = some r ∧ (r.day = today ∨ kstTime now < cfg.reminderEarliest) ∧
      (l.page cfg kind source scope now today).1 = (l.attach kind source scope now today).1 ∧
      (l.page cfg kind source scope now today).2 ≠ .sent) ∨
    (∀ r, l.pages.lookup kind.value = some r → r.day ≠ today ∧ ¬ kstTime now < cfg.reminderEarliest) ∧
      l.page cfg kind source scope now today =
        ({ (l.attach kind source scope now today).1 with pages := l.pages.set kind.value ⟨today, now⟩ }, .sent) := by
  unfold Ledger.page
  dsimp only
  rw [pages_attach]
  cases hl : l.pages.lookup kind.value with
  | none => exact .inr ⟨fun r hr => (by cases hr), rfl⟩
  | some r =>
    dsimp only
    split_ifs with hday htime
    · exact .inl ⟨r, rfl, .inl hday, rfl, by simp⟩
    · exact .inl ⟨r, rfl, .inr htime, rfl, by simp⟩
    · refine .inr ⟨fun r' hr' => ?_, rfl⟩
      rw [← Option.some.inj hr']
      exact ⟨hday, htime⟩

/-- **A page is mailed where none of the day is open.** -/
theorem Holds.page (h : Holds kindOf l held today) (cfg : AlertPolicyConfig) (hk : kind = kindOf source)
    (scope : SourceScope) (hnow : kstDay now = today) (x : Option String) :
    Sound held (pageMails kind x now (l.page cfg kind source scope now today).2) ∧
      Holds kindOf (l.page cfg kind source scope now today).1
        (fun k => openPage k (held k) (pageMails kind x now (l.page cfg kind source scope now today).2)) today := by
  unfold pageMails
  rcases page_cases cfg kind source scope now l today with ⟨r, hr, -, hfst, hsnd⟩ | ⟨hnone, heq⟩
  · rw [if_neg hsnd, hfst]
    exact ⟨trivial, h.attach hk scope now⟩
  · rw [heq, if_pos rfl]
    refine ⟨⟨fun s hs hday => ?_, trivial⟩, ?_⟩
    · obtain ⟨r, hr, hrd⟩ := (h.known kind s hs).2 (hday.trans hnow)
      exact (hnone r hr).1 hrd
    · exact (h.attach hk scope now).paged (liveKinds_attach h hk (.inr rfl)) hnow x

/-! ### Resolving -/

theorem mem_resolve {wanted : List String} {k : IncidentKind} : k ∈ (l.resolve wanted).2 ↔
    (∃ p ∈ l.sources, p.1 ∈ wanted ∧ p.2.kind = k) ∧ (∀ p ∈ l.sources, p.1 ∉ wanted → p.2.kind ≠ k) ∧
      ∃ r, l.pages.lookup k.value = some r := by
  unfold Ledger.resolve
  dsimp only
  rw [List.mem_insertionSort, List.mem_filter, List.mem_dedup, List.mem_map, Bool.and_eq_true, Py.Dict.has_iff]
  refine and_congr ?_ (and_congr ?_ Iff.rfl)
  · simp only [List.mem_filter, decide_eq_true_eq, and_assoc]
  · rw [Bool.not_eq_true', decide_eq_false_iff_not, List.mem_map, not_exists]
    refine forall_congr' (fun p => ?_)
    rw [List.mem_filter, Bool.not_eq_true', decide_eq_false_iff_not, IncidentKind.value_inj]
    tauto

theorem nodup_resolve {wanted : List String} : (l.resolve wanted).2.Nodup :=
  (List.perm_insertionSort _ _).nodup_iff.2 ((List.nodup_dedup _).filter _)

theorem pages_resolve {wanted : List String} (k : IncidentKind) : (l.resolve wanted).1.pages.lookup k.value =
    if k ∈ (l.resolve wanted).2 then none else l.pages.lookup k.value := by
  have hmem : k.value ∈ (l.resolve wanted).2.map IncidentKind.value ↔ k ∈ (l.resolve wanted).2 :=
    List.mem_map_of_injective (fun a b => IncidentKind.value_inj.1)
  have h := @Py.Dict.lookup_filter_key _ k.value
    (fun name => !decide (name ∈ (l.resolve wanted).2.map IncidentKind.value)) l.pages
  refine h.trans ?_
  by_cases hk : k ∈ (l.resolve wanted).2
  · rw [if_pos hk, if_neg (by simpa using hmem.2 hk)]
  · rw [if_neg hk, if_pos (by simpa using fun h => hk (hmem.1 h))]

/-- **A kind is resolved where its page is open.** -/
theorem Holds.resolve (h : Holds kindOf l held today) (wanted : List String) (now : Int) :
    Sound held ((l.resolve wanted).2.map (fun kind => Mail.resolved kind now)) ∧
      Holds kindOf (l.resolve wanted).1
        (fun k => openPage k (held k) ((l.resolve wanted).2.map (fun kind => Mail.resolved kind now))) today := by
  have hsub : ∀ p ∈ (l.resolve wanted).1.sources, p ∈ l.sources := fun p hp => (List.mem_filter.1 hp).1
  constructor
  · refine sound_resolved nodup_resolve (fun k hk => ?_)
    obtain ⟨r, hr⟩ := (mem_resolve.1 hk).2.2
    obtain ⟨t, ht, -⟩ := h.opened k r hr
    exact ⟨t, ht⟩
  · refine ⟨fun p hp => h.named p (hsub p hp), fun p hp => h.fresh p (hsub p hp), fun k r hr => ?_, fun k t ht => ?_,
      fun k r hr => ?_⟩
    · rw [pages_resolve] at hr
      split_ifs at hr with hk
      obtain ⟨p, hp, hpk⟩ := List.mem_map.1 (h.live k r hr)
      rw [IncidentKind.value_inj] at hpk
      by_contra hlive
      refine hk (mem_resolve.2 ⟨⟨p, hp, ?_, hpk⟩, fun q hq hqw hqk => ?_, r, hr⟩)
      · by_contra hpw
        exact hlive (List.mem_map.2 ⟨p, List.mem_filter.2 ⟨hp, by simpa using hpw⟩, by rw [hpk]⟩)
      · exact hlive (List.mem_map.2 ⟨q, List.mem_filter.2 ⟨hq, by simpa using hqw⟩, by rw [hqk]⟩)
    · by_cases hk : k ∈ (l.resolve wanted).2
      · rw [openPage_resolved_of_mem hk] at ht
        cases ht
      · rw [openPage_resolved_of_not_mem hk] at ht
        rw [pages_resolve, if_neg hk]
        exact h.known k t ht
    · rw [pages_resolve] at hr
      split_ifs at hr with hk
      rw [openPage_resolved_of_not_mem hk]
      exact h.opened k r hr

end ledger

/-! ## The calls -/

/-- A readable ledger that holds on some day up to `bound`. -/
def File.Holds (kindOf : String → IncidentKind) (file : File) (held : IncidentKind → Option Int) (bound : Int) : Prop :=
  ∃ l today, file.load = .ok l ∧ today ≤ bound ∧ Alert.Holds kindOf l held today

section calls

variable {kindOf : String → IncidentKind} {l : Ledger} {file : File} {held : IncidentKind → Option Int} {bound : Int}
  {cfg : AlertPolicyConfig} {c : Call} {cs : List Call} {k kind : IncidentKind}

theorem mutate_fine {α : Type} (h : file.load = .ok l) (now : Int) (change : Ledger → Int → Ledger × α) :
    mutate .fine file now change =
      .ok (.ledger (change (l.rollover (kstDay now)) (kstDay now)).1, (change (l.rollover (kstDay now)) (kstDay now)).2) := by
  unfold mutate
  rw [h]
  rfl

theorem page_fine (h : file.load = .ok l) (kind : IncidentKind) (source : String) (scope : SourceScope) (now : Int)
    (x : Option String) : page cfg .fine file kind source scope now x =
      (.ledger ((l.rollover (kstDay now)).page cfg kind source scope now (kstDay now)).1,
        ((l.rollover (kstDay now)).page cfg kind source scope now (kstDay now)).2,
        pageMails kind x now ((l.rollover (kstDay now)).page cfg kind source scope now (kstDay now)).2) := by
  unfold page
  rw [mutate_fine h]
  rfl

theorem observe_fine (h : file.load = .ok l) (kind : IncidentKind) (source : String) (scope : SourceScope) (now : Int) :
    (observe .fine file kind source scope now).1 =
      .ledger ((l.rollover (kstDay now)).attach kind source scope now (kstDay now)).1 := by
  unfold observe
  rw [mutate_fine h]

/-- A resolution changes the ledger, or there is nothing to resolve. -/
theorem resolve_fine (h : file.load = .ok l) (sources : List String) (now : Int) :
    resolve .fine file sources now = (file, [], []) ∨
      resolve .fine file sources now = (.ledger ((l.rollover (kstDay now)).resolve sources).1,
        ((l.rollover (kstDay now)).resolve sources).2,
        ((l.rollover (kstDay now)).resolve sources).2.map (fun kind => .resolved kind now)) := by
  unfold resolve
  split_ifs with hempty habsent
  · exact .inl rfl
  · exact .inl rfl
  · rw [mutate_fine h]
    exact .inr rfl

theorem resolve_holds (h : file.Holds kindOf held bound) (sources : List String) (now : Int) (hle : bound ≤ kstDay now) :
    Sound held (resolve .fine file sources now).2.2 ∧ (resolve .fine file sources now).1.Holds kindOf
      (fun k => openPage k (held k) (resolve .fine file sources now).2.2) (kstDay now) := by
  obtain ⟨l, today, hload, htoday, hl⟩ := h
  rcases resolve_fine hload sources now with heq | heq
  · rw [heq]
    exact ⟨trivial, l, today, hload, htoday.trans hle, hl⟩
  · rw [heq]
    have hres := (hl.rollover (htoday.trans hle)).resolve sources now
    exact ⟨hres.1, _, kstDay now, rfl, le_refl _, hres.2⟩

/-- **What one call keeps.** -/
theorem step_holds (cfg : AlertPolicyConfig) (h : file.Holds kindOf held bound) (hio : c.io = .fine) (hn : c.Names kindOf)
    (hle : bound ≤ kstDay c.now) : Sound held (step cfg file c).2 ∧
      (step cfg file c).1.Holds kindOf (fun k => openPage k (held k) (step cfg file c).2) (kstDay c.now) := by
  obtain ⟨op, now, io⟩ := c
  obtain rfl : io = .fine := hio
  cases op with
  | observe kind source scope =>
    obtain ⟨l, today, hload, htoday, hl⟩ := h
    refine ⟨trivial, _, kstDay now, ?_, le_refl _, (hl.rollover (htoday.trans hle)).attach hn scope now⟩
    exact congrArg File.load (observe_fine hload kind source scope now)
  | page kind source scope x =>
    obtain ⟨l, today, hload, htoday, hl⟩ := h
    have hpage := (hl.rollover (htoday.trans hle)).page cfg hn scope rfl x
    unfold step
    dsimp only
    rw [page_fine hload]
    exact ⟨hpage.1, _, kstDay now, rfl, le_refl _, hpage.2⟩
  | resolve sources => exact resolve_holds h sources now hle
  | resolveAbsent seen openKeys leads =>
    unfold step
    dsimp only
    unfold resolveAbsent
    cases seen.load with
    | ok read => exact resolve_holds h _ now hle
    | error e =>
      obtain ⟨l, today, hload, htoday, hl⟩ := h
      exact ⟨trivial, l, today, hload, htoday.trans hle, hl⟩

/-- What a run of calls mails. -/
theorem run_mails_sound : ∀ {cs : List Call} {file : File} {held : IncidentKind → Option Int} {bound : Int},
    file.Holds kindOf held bound → (∀ c ∈ cs, c.io = .fine) → (∀ c ∈ cs, c.Names kindOf) →
    (cs.map Call.now).Pairwise (· ≤ ·) → (∀ c ∈ cs, bound ≤ kstDay c.now) → Sound held (run cfg file cs).2
  | [], _, _, _, _, _, _, _, _ => trivial
  | c :: cs, file, held, bound, h, hio, hn, hclock, hle => by
    rw [List.map_cons, List.pairwise_cons] at hclock
    obtain ⟨hsound, hnext⟩ := step_holds cfg h (hio c List.mem_cons_self) (hn c List.mem_cons_self)
      (hle c List.mem_cons_self)
    refine sound_append.2 ⟨hsound, run_mails_sound hnext (fun d hd => hio d (List.mem_cons_of_mem _ hd))
      (fun d hd => hn d (List.mem_cons_of_mem _ hd)) hclock.2 (fun d hd => ?_)⟩
    exact kstDay_mono (hclock.1 d.now (List.mem_map_of_mem hd))

theorem run_sound_absent (hio : ∀ c ∈ cs, c.io = .fine) (hn : ∀ c ∈ cs, c.Names kindOf)
    (hclock : (cs.map Call.now).Pairwise (· ≤ ·)) : Sound (fun _ => none) (run cfg .absent cs).2 := by
  cases cs with
  | nil => trivial
  | cons c cs =>
    have hempty : File.absent.Holds kindOf (fun _ => none) (kstDay c.now) :=
      ⟨_, kstDay c.now, rfl, le_refl _, holds_empty _⟩
    refine run_mails_sound hempty hio hn hclock (fun d hd => ?_)
    rcases List.mem_cons.1 hd with rfl | hd
    · exact le_refl _
    · exact kstDay_mono ((List.pairwise_cons.1 hclock).1 _ (List.mem_map_of_mem hd))

/-! ### When it is mailed -/

theorem at_of_mem_resolve {io : Access} {sources : List String} {now : Int} {m : Mail}
    (h : m ∈ (resolve io file sources now).2.2) : m.at = now := by
  unfold resolve at h
  split_ifs at h with hempty habsent
  · cases h
  · cases h
  · split at h
    · obtain ⟨kind, -, rfl⟩ := List.mem_map.1 h
      rfl
    · cases h

theorem at_of_mem_step {m : Mail} (h : m ∈ (step cfg file c).2) : m.at = c.now := by
  obtain ⟨op, now, io⟩ := c
  cases op with
  | observe kind source scope => cases h
  | page kind source scope x =>
    change m ∈ pageMails kind x now _ at h
    unfold pageMails at h
    split_ifs at h
    · rw [List.mem_singleton.1 h]
      rfl
    · cases h
  | resolve sources => exact at_of_mem_resolve h
  | resolveAbsent seen openKeys leads =>
    unfold step at h
    dsimp only at h
    unfold resolveAbsent at h
    split at h
    · exact at_of_mem_resolve h
    · cases h

theorem at_of_mem_run : ∀ {cs : List Call} {file : File} {m : Mail}, m ∈ (run cfg file cs).2 → m.at ∈ cs.map Call.now
  | [], _, _, h => (by cases h)
  | c :: cs, file, m, h => by
    rcases List.mem_append.1 h with h | h
    · exact List.mem_cons.2 (.inl (at_of_mem_step h))
    · exact List.mem_cons_of_mem _ (at_of_mem_run h)

theorem run_mails_pairwise : ∀ {cs : List Call} {file : File}, (cs.map Call.now).Pairwise (· ≤ ·) →
    (run cfg file cs).2.Pairwise (fun a b => a.at ≤ b.at)
  | [], _, _ => List.Pairwise.nil
  | c :: cs, file, h => by
    rw [List.map_cons, List.pairwise_cons] at h
    refine List.pairwise_append.2 ⟨?_, run_mails_pairwise h.2, fun a ha b hb => ?_⟩
    · refine List.pairwise_iff_forall_sublist.2 (fun {a b} hab => ?_)
      rw [at_of_mem_step (hab.subset (by simp)), at_of_mem_step (m := b) (hab.subset (by simp))]
    · rw [at_of_mem_step ha]
      exact h.1 _ (at_of_mem_run hb)

/-! ### Staying open -/

/-- A kind that is open was paged. -/
def File.Keeps (k : IncidentKind) (file : File) : Prop :=
  ∃ l, file.load = .ok l ∧ (k.value ∈ l.liveKinds → ∃ r, l.pages.lookup k.value = some r)

theorem keeps_rollover {today : Int} (hk : file.Keeps k) (ho : file.IsOpen k today) :
    ∃ l r, file.load = .ok l ∧ (l.rollover today).pages.lookup k.value = some r := by
  obtain ⟨l, hload, hpaged⟩ := hk
  obtain ⟨l', hload', hlive⟩ := ho
  obtain rfl := Except.ok.inj (hload.symm.trans hload')
  have hsub : ((l.rollover today).sources.map (fun p => p.2.kind.value)) ⊆ l.sources.map (fun p => p.2.kind.value) :=
    List.map_subset _ (List.filter_subset_self _)
  obtain ⟨r, hr⟩ := hpaged (hsub hlive)
  exact ⟨l, r, hload, by rw [pages_rollover, if_pos hlive, hr]⟩

theorem lookup_page {r : PageRecord} (hr : l.pages.lookup k.value = some r) (source : String) (scope : SourceScope)
    (now today : Int) : ∃ r', (l.page cfg kind source scope now today).1.pages.lookup k.value = some r' := by
  rcases page_cases cfg kind source scope now l today with ⟨-, -, -, hfst, -⟩ | ⟨-, heq⟩
  · rw [hfst]
    exact ⟨r, hr⟩
  · rw [heq, Py.Dict.lookup_set]
    split_ifs
    · exact ⟨_, rfl⟩
    · exact ⟨r, hr⟩

theorem resolve_keeps (hk : file.Keeps k) {now : Int} (ho : file.IsOpen k (kstDay now)) (sources : List String) :
    (resolve .fine file sources now).1.Keeps k := by
  obtain ⟨l, r, hload, hr⟩ := keeps_rollover hk ho
  rcases resolve_fine hload sources now with heq | heq
  · rw [heq]
    exact hk
  · rw [heq]
    refine ⟨_, rfl, fun hlive => ⟨r, ?_⟩⟩
    rw [pages_resolve, if_neg, hr]
    intro hmem
    obtain ⟨p, hp, hpk⟩ := List.mem_map.1 hlive
    obtain ⟨hps, hpw⟩ := List.mem_filter.1 hp
    exact (mem_resolve.1 hmem).2.1 p hps (by simpa using hpw) (IncidentKind.value_inj.1 hpk)

theorem step_keeps (hk : file.Keeps k) (ho : file.IsOpen k (kstDay c.now)) (hio : c.io = .fine) :
    (step cfg file c).1.Keeps k := by
  obtain ⟨op, now, io⟩ := c
  obtain rfl : io = .fine := hio
  obtain ⟨l, r, hload, hr⟩ := keeps_rollover hk ho
  cases op with
  | observe kind source scope => exact ⟨_, congrArg File.load (observe_fine hload kind source scope now), fun _ => ⟨r, hr⟩⟩
  | page kind source scope x =>
    exact ⟨_, congrArg (fun q => File.load q.1) (page_fine hload kind source scope now x),
      fun _ => lookup_page hr source scope now _⟩
  | resolve sources => exact resolve_keeps hk ho sources
  | resolveAbsent seen openKeys leads =>
    unfold step
    dsimp only
    unfold resolveAbsent
    cases seen.load with
    | ok read => exact resolve_keeps hk ho _
    | error e => exact hk

theorem run_keeps : ∀ {cs : List Call} {file : File} {d : Call}, file.Keeps k → StaysOpen cfg k file (cs ++ [d]) →
    (∀ c ∈ cs, c.io = .fine) → (run cfg file cs).1.Keeps k ∧ (run cfg file cs).1.IsOpen k (kstDay d.now)
  | [], _, _, hk, ho, _ => ⟨hk, ho.1⟩
  | c :: cs, _, _, hk, ho, hio => by
    have hrest : ∀ d ∈ cs, d.io = .fine := fun d hd => hio d (List.mem_cons_of_mem _ hd)
    have hkeeps := run_keeps (step_keeps hk ho.1 (hio c List.mem_cons_self)) ho.2 hrest
    exact hkeeps

/-- A page is mailed by a page call that decides so. -/
theorem exists_of_page_mail (hload : file.load = .ok l) (hio : c.io = .fine) {x : Option String} {t : Int}
    (hm : Mail.page k x t ∈ (step cfg file c).2) : ∃ source scope,
      (step cfg file c).1 = .ledger ((l.rollover (kstDay c.now)).page cfg k source scope c.now (kstDay c.now)).1 ∧
      ((l.rollover (kstDay c.now)).page cfg k source scope c.now (kstDay c.now)).2 = .sent := by
  obtain ⟨op, now, io⟩ := c
  obtain rfl : io = .fine := hio
  have hres : ∀ {sources : List String}, Mail.page k x t ∉ (resolve .fine file sources now).2.2 := by
    intro sources hm
    rcases resolve_fine hload sources now with heq | heq
    · rw [heq] at hm
      cases hm
    · rw [heq] at hm
      obtain ⟨kind, -, hkind⟩ := List.mem_map.1 hm
      cases hkind
  cases op with
  | observe kind source scope => cases hm
  | page kind source scope y =>
    change Mail.page k x t ∈ (page cfg .fine file kind source scope now y).2.2 at hm
    rw [page_fine hload] at hm
    unfold pageMails at hm
    split_ifs at hm with hsent
    · obtain ⟨rfl, -, -⟩ := Mail.page.inj (List.mem_singleton.1 hm)
      exact ⟨source, scope, congrArg Prod.fst (page_fine hload k source scope now y), hsent⟩
    · cases hm
  | resolve sources => exact absurd hm hres
  | resolveAbsent seen openKeys leads =>
    change Mail.page k x t ∈ (resolveAbsent .fine seen file openKeys leads now).2.2 at hm
    unfold resolveAbsent at hm
    split at hm
    · exact absurd hm hres
    · cases hm

/-- A call that mails a page leaves it in the ledger. -/
theorem keeps_of_paged (hload : file.load = .ok l) (hio : c.io = .fine) {x : Option String} {t : Int}
    (hm : Mail.page k x t ∈ (step cfg file c).2) : (step cfg file c).1.Keeps k := by
  obtain ⟨source, scope, hfile, hsent⟩ := exists_of_page_mail hload hio hm
  rw [hfile]
  refine ⟨_, rfl, fun _ => ?_⟩
  rcases page_cases cfg k source scope c.now (l.rollover (kstDay c.now)) (kstDay c.now) with
    ⟨-, -, -, -, hsnd⟩ | ⟨-, heq⟩
  · exact absurd hsent hsnd
  · rw [heq]
    exact ⟨_, Py.Dict.lookup_set_self _⟩

/-- **Before the reminder time a kind that was paged and is open is not paged.** -/
theorem not_paged_of_keeps (hk : file.Keeps k) (ho : file.IsOpen k (kstDay c.now)) (hio : c.io = .fine)
    (htime : kstTime c.now < cfg.reminderEarliest) (x : Option String) (t : Int) :
    Mail.page k x t ∉ (step cfg file c).2 := by
  intro hm
  obtain ⟨l, r, hload, hr⟩ := keeps_rollover hk ho
  obtain ⟨source, scope, -, hsent⟩ := exists_of_page_mail hload hio hm
  rcases page_cases cfg k source scope c.now (l.rollover (kstDay c.now)) (kstDay c.now) with
    ⟨-, -, -, -, hsnd⟩ | ⟨hnone, -⟩
  · exact hsnd hsent
  · exact (hnone r hr).2 htime

theorem run_append : ∀ {as : List Call} {file : File} {bs : List Call},
    run cfg file (as ++ bs) =
      ((run cfg (run cfg file as).1 bs).1, (run cfg file as).2 ++ (run cfg (run cfg file as).1 bs).2)
  | [], _, _ => rfl
  | c :: as, file, bs => by
    rw [List.cons_append, run, run_append]
    exact congrArg (Prod.mk _) (List.append_assoc _ _ _).symm

/-- A readable ledger stays readable. -/
theorem step_readable (h : ∃ l, file.load = .ok l) (hio : c.io = .fine) : ∃ l, (step cfg file c).1.load = .ok l := by
  obtain ⟨op, now, io⟩ := c
  obtain rfl : io = .fine := hio
  obtain ⟨l, hload⟩ := h
  have hres : ∀ sources, ∃ l, (resolve .fine file sources now).1.load = .ok l := by
    intro sources
    rcases resolve_fine hload sources now with heq | heq
    · exact ⟨l, heq ▸ hload⟩
    · exact ⟨_, by rw [heq]; rfl⟩
  cases op with
  | observe kind source scope => exact ⟨_, congrArg File.load (observe_fine hload kind source scope now)⟩
  | page kind source scope x => exact ⟨_, congrArg (fun q => File.load q.1) (page_fine hload kind source scope now x)⟩
  | resolve sources => exact hres sources
  | resolveAbsent seen openKeys leads =>
    unfold step
    dsimp only
    unfold resolveAbsent
    cases seen.load with
    | ok read => exact hres _
    | error e => exact ⟨l, hload⟩

theorem run_readable : ∀ {cs : List Call} {file : File}, (∃ l, file.load = .ok l) → (∀ c ∈ cs, c.io = .fine) →
    ∃ l, (run cfg file cs).1.load = .ok l
  | [], _, h, _ => h
  | c :: cs, _, h, hio => by
    have hrest : ∀ d ∈ cs, d.io = .fine := fun d hd => hio d (List.mem_cons_of_mem _ hd)
    have hstep : ∃ l, (step cfg _ c).1.load = .ok l := step_readable h (hio c List.mem_cons_self)
    have hread := run_readable hstep hrest
    exact hread

/-- **What a run mails.**  Between two pages of a kind on one KST day there is a resolution of the kind; a resolution is
mailed after a page of its kind, with none between; and a kind that was paged and stayed open since is not paged on a
later day before the reminder time. -/
theorem mails_sound (cfg : AlertPolicyConfig) (kindOf : String → IncidentKind) (calls : List Call)
    (hio : ∀ c ∈ calls, c.io = .fine) (hn : ∀ c ∈ calls, c.Names kindOf) (hclock : (calls.map Call.now).Pairwise (· ≤ ·)) :
    (∀ as bs cs k x y s t, (run cfg .absent calls).2 = as ++ .page k x s :: (bs ++ .page k y t :: cs) →
      kstDay s = kstDay t → ∃ u, Mail.resolved k u ∈ bs) ∧
    (∀ as cs k t, (run cfg .absent calls).2 = as ++ .resolved k t :: cs →
      ∃ bs x s ds, as = bs ++ .page k x s :: ds ∧ ∀ u, Mail.resolved k u ∉ ds) ∧
    ∀ as c bs d cs k x y s t, calls = as ++ c :: (bs ++ d :: cs) →
      Mail.page k x s ∈ (step cfg (run cfg .absent as).1 c).2 →
      StaysOpen cfg k (step cfg (run cfg .absent as).1 c).1 (bs ++ [d]) →
      kstDay c.now < kstDay d.now → kstTime d.now < cfg.reminderEarliest →
      Mail.page k y t ∉ (step cfg (run cfg (step cfg (run cfg .absent as).1 c).1 bs).1 d).2 := by
  have hsound : Sound (fun _ => none) (run cfg .absent calls).2 := run_sound_absent hio hn hclock
  refine ⟨fun as bs cs k x y s t heq hday => ?_, fun as cs k t heq => ?_, ?_⟩
  · by_contra hnone
    rw [not_exists] at hnone
    have htimes : (run cfg .absent calls).2.Pairwise (fun a b => a.at ≤ b.at) := run_mails_pairwise hclock
    rw [heq] at hsound htimes
    -- the page that is open before the second one lies between the two
    obtain ⟨u, hu, hor⟩ := openPage_of_no_resolution k s bs hnone
    have hopen : openPage k none (as ++ .page k x s :: bs) = some u := by
      rw [openPage_append, openPage, if_pos rfl]
      exact hu
    have hbetween : s ≤ u ∧ u ≤ t := by
      have hpage := (List.pairwise_append.1 htimes).2.1
      rw [List.pairwise_cons] at hpage
      rcases hor with rfl | ⟨z, hz⟩
      · exact ⟨le_refl u, hpage.1 (.page k y t) (by simp)⟩
      · refine ⟨hpage.1 (.page k z u) (by simp [hz]), ?_⟩
        exact (List.pairwise_append.1 hpage.2).2.2 _ hz (.page k y t) (by simp)
    have hsplit : as ++ .page k x s :: (bs ++ .page k y t :: cs) = (as ++ .page k x s :: bs) ++ .page k y t :: cs := by
      simp
    rw [hsplit, sound_append] at hsound
    refine hsound.2.1 u hopen (le_antisymm (kstDay_mono hbetween.2) ?_)
    exact hday ▸ kstDay_mono hbetween.1
  · rw [heq, sound_append] at hsound
    obtain ⟨u, hu⟩ := hsound.2.1
    rcases exists_page_of_openPage k hu with ⟨hheld, -⟩ | ⟨bs, x, ds, rfl, hnone⟩
    · cases hheld
    · exact ⟨bs, x, u, ds, rfl, hnone⟩
  · rintro as c bs d cs k x y s t rfl hm ho - htime
    obtain ⟨l, hload⟩ : ∃ l, (run cfg .absent as).1.load = .ok l :=
      run_readable ⟨_, rfl⟩ (fun e he => hio e (List.mem_append_left _ he))
    have hkeeps := keeps_of_paged hload (hio c (by simp)) hm
    obtain ⟨hk, hopen⟩ := run_keeps hkeeps ho (fun e he => hio e (by simp [he]))
    exact not_paged_of_keeps hk hopen (hio d (by simp)) htime y t

end calls

/-! A backup fails, is paged, found well, and fails again. -/

private def backupOp : Op := .page .backupFailing "offsite_backup:failed" .opened none

private def threeCalls : List Call :=
  [⟨backupOp, 0, .fine⟩, ⟨.resolve ["offsite_backup:failed"], 1, .fine⟩, ⟨backupOp, 2, .fine⟩]

theorem mails_sound_three_calls : ∃ u, Mail.resolved .backupFailing u ∈ [Mail.resolved .backupFailing 1] :=
  (mails_sound defaultAlertPolicy (fun _ => .backupFailing) threeCalls (by simp [threeCalls])
    (by simp [threeCalls, backupOp, Call.Names]) (by simp [threeCalls])).1 [] [Mail.resolved .backupFailing 1] []
    .backupFailing none none 0 2 (by decide +kernel) rfl

end Alert
