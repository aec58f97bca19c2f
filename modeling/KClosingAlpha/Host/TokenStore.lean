import KClosingAlpha.Lib.System
import Mathlib.Algebra.Order.Field.Basic
import Mathlib.Tactic.Linarith
/-!
# TokenStore — one issuer for a broker token (`TokenStore`, `AsyncTokenStore`)

Processes share a token record, an issuance guard and a lock.  A call reads the record under the lock, returns it when
it may, and otherwise waits out the guard, stamps it, calls `issue` and publishes what came back with the next
generation.  The lock's holder and how far it is are one field of the state, since the kernel lets one descriptor hold
it; every other process can only wait, take the fast path, or let time pass.  The log is the history the properties are
about.
-/
namespace TokenStore

inductive Vendor where
  | ls
  | toss
  | dbsec
  | kiwoom
  deriving DecidableEq

inductive IssueThrottlePolicy where
  | wait
  | raise
  deriving DecidableEq

variable {Token T : Type*}

/-- `MIN_ISSUE_INTERVAL_S.get(vendor, 0.0)`. -/
def minIssueInterval [Field T] : Vendor → T
  | .dbsec => 61
  | _ => 0

structure IssuedToken (Token T : Type*) where
  accessToken : Token
  expiresIn : Option T

structure TokenRecord (Token T : Type*) where
  accessToken : Token
  issuedAt : T
  expiresAt : Option T
  generation : Nat
  deriving DecidableEq

/-- The settings of one process's store, as `_validate_store_args` leaves them. -/
structure Store (T : Type*) [Field T] [LinearOrder T] where
  lockTimeout : T
  expiryMargin : T
  unknownExpiryMaxAge : T
  policy : IssueThrottlePolicy
  timeout_pos : 0 < lockTimeout
  margin_nonneg : 0 ≤ expiryMargin
  age_nonneg : 0 ≤ unknownExpiryMaxAge

section store

variable [Field T] [LinearOrder T]

/-- `_is_usable`. -/
def Store.usable (st : Store T) (r : TokenRecord Token T) (now : T) : Bool :=
  match r.expiresAt with
  | none => decide (now - r.issuedAt < st.unknownExpiryMaxAge)
  | some e => decide (now < e - st.expiryMargin)

/-- `_build_record`. -/
def buildRecord (issued : IssuedToken Token T) (previous : Option (TokenRecord Token T)) (now : T) :
    TokenRecord Token T :=
  { accessToken := issued.accessToken
    issuedAt := now
    expiresAt := issued.expiresIn.map (now + ·)
    generation := match previous with
      | some r => r.generation + 1
      | none => 1 }

/-- `_throttle_delay_seconds`. -/
def throttleDelay (v : Vendor) (guard : Option T) (now : T) : T :=
  if minIssueInterval v ≤ (0 : T) then 0
  else match guard with
    | none => 0
    | some last => if 0 < last + minIssueInterval v - now then last + minIssueInterval v - now else 0

end store

/-- The two entry points. -/
inductive Call (Token : Type*) where
  | getOrIssue
  | replaceRejected (rejected : Token)
  deriving DecidableEq

/-- The call reports this token. -/
def Call.rejects [DecidableEq Token] (t : Token) : Call Token → Bool
  | .getOrIssue => false
  | .replaceRejected u => decide (u = t)

/-- The record a call may return under the lock. -/
def Call.accepts [Field T] [LinearOrder T] [DecidableEq Token] (call : Call Token) (st : Store T) (r : TokenRecord Token T) (now : T) : Bool :=
  match call with
  | .getOrIssue => st.usable r now
  | .replaceRejected t => decide (r.accessToken ≠ t) && st.usable r now

/-! ## Processes -/

/-- A process that does not hold the lock. -/
inductive Outside (Token T : Type*) where
  | idle
  | waiting (call : Call Token)
  | holding
  | returned (r : TokenRecord Token T)
  | failed

/-- How far the lock's holder is, with the record it read. -/
inductive Stage (Token T : Type*) where
  | locked
  /-- The record was not accepted. -/
  | guarding (cached : Option (TokenRecord Token T))
  /-- `sleep` returns when the clock is at `wakes` or later. -/
  | sleeping (cached : Option (TokenRecord Token T)) (wakes : T)
  /-- The guard allows an issue. -/
  | stamping (cached : Option (TokenRecord Token T))
  /-- About to call `issue`, with the stamp just written when the lane is guarded. -/
  | issuing (cached : Option (TokenRecord Token T)) (stamp : Option T)
  | publishing (cached : Option (TokenRecord Token T)) (issued : IssuedToken Token T)

/-- The record a stage remembers. -/
def Stage.cached : Stage Token T → Option (Option (TokenRecord Token T))
  | .locked => none
  | .guarding r | .sleeping r _ | .stamping r | .issuing r _ | .publishing r _ => some r

/-- A token was issued and is not published yet. -/
def Stage.publishes : Stage Token T → Bool
  | .publishing _ _ => true
  | _ => false

structure Holder (Caller Token T : Type*) where
  caller : Caller
  call : Call Token
  stage : Stage Token T

inductive Event (Caller Token T : Type*) where
  /-- The record was read under the lock; `usable` is what `_usable` said of it. -/
  | decided (c : Caller) (call : Call Token) (cached : Option (TokenRecord Token T)) (usable : Bool)
  /-- `issue` was called, at an instant, and returned a token. -/
  | issued (c : Caller) (call : Call Token) (token : Token) (stamp : Option T) (calledAt : T)
  | stored (c : Caller) (call : Call Token) (r : TokenRecord Token T)
  | returned (c : Caller) (call : Call Token) (r : TokenRecord Token T)
  deriving DecidableEq

structure State (Caller Token T : Type*) where
  clock : T
  record : Option (TokenRecord Token T)
  guard : Option T
  lock : Option (Holder Caller Token T)
  outside : Caller → Outside Token T
  /-- Every token handed out so far, the first record's included. -/
  tokens : List Token
  log : List (Event Caller Token T)

section operations

variable {Caller : Type*} [DecidableEq Caller]

def State.to (s : State Caller Token T) (c : Caller) (p : Outside Token T) : State Caller Token T :=
  { s with outside := fun d => if d = c then p else s.outside d }

/-- The holder's `finally`: the lock is released. -/
def State.release (s : State Caller Token T) (h : Holder Caller Token T) (p : Outside Token T) : State Caller Token T :=
  { s with lock := none }.to h.caller p

omit [DecidableEq Caller]

/-- The holder goes on to another stage. -/
def State.at (s : State Caller Token T) (h : Holder Caller Token T) (g : Stage Token T) : State Caller Token T :=
  { s with lock := some { h with stage := g } }

/-- Events join the history. -/
def State.logged (s : State Caller Token T) (es : List (Event Caller Token T)) : State Caller Token T :=
  { s with log := s.log ++ es }

end operations

section system

variable {Caller : Type*} [Field T] [LinearOrder T] [DecidableEq Caller] [DecidableEq Token]

/-- One step of one process, or of time. -/
inductive Step (v : Vendor) (stores : Caller → Store T) : State Caller Token T → State Caller Token T → Prop where
  | tick (s : State Caller Token T) (t : T) (ht : s.clock ≤ t) : Step v stores s { s with clock := t }
  /-- `get_or_issue` finds a usable record without the lock, at a clock reading made before the read. -/
  | fastHit (s : State Caller Token T) (c : Caller) (now : T) (r : TokenRecord Token T) (hc : s.outside c = .idle)
      (hnow : now ≤ s.clock) (hr : s.record = some r) (hu : (stores c).usable r now = true) :
      Step v stores s ((s.logged [.returned c .getOrIssue r]).to c (.returned r))
  | fastMiss (s : State Caller Token T) (c : Caller) (now : T) (hc : s.outside c = .idle) (hnow : now ≤ s.clock)
      (hu : ∀ r, s.record = some r → (stores c).usable r now = false) : Step v stores s (s.to c (.waiting .getOrIssue))
  /-- A process reports a token it was handed. -/
  | reject (s : State Caller Token T) (c : Caller) (t : Token) (hc : s.outside c = .idle) (ht : t ∈ s.tokens) :
      Step v stores s (s.to c (.waiting (.replaceRejected t)))
  | lockTimeout (s : State Caller Token T) (c : Caller) (call : Call Token) (hc : s.outside c = .waiting call) :
      Step v stores s (s.to c .failed)
  | lock (s : State Caller Token T) (c : Caller) (call : Call Token) (hc : s.outside c = .waiting call)
      (hl : s.lock = none) : Step v stores s ({ s with lock := some ⟨c, call, .locked⟩ }.to c .holding)
  /-- The record is read under the lock and returned. -/
  | hit (s : State Caller Token T) (h : Holder Caller Token T) (now : T) (r : TokenRecord Token T)
      (hl : s.lock = some h) (hg : h.stage = .locked) (hnow : now ≤ s.clock) (hr : s.record = some r)
      (ha : h.call.accepts (stores h.caller) r now = true) :
      Step v stores s ((s.logged [.decided h.caller h.call (some r) ((stores h.caller).usable r now),
        .returned h.caller h.call r]).release h (.returned r))
  /-- The record is read under the lock and may not be returned. -/
  | miss (s : State Caller Token T) (h : Holder Caller Token T) (now : T) (hl : s.lock = some h)
      (hg : h.stage = .locked) (hnow : now ≤ s.clock)
      (ha : ∀ r, s.record = some r → h.call.accepts (stores h.caller) r now = false) :
      Step v stores s ((s.logged [.decided h.caller h.call s.record
        (s.record.any (fun r => (stores h.caller).usable r now))]).at h (.guarding s.record))
  /-- A lane without a minimum interval has no guard. -/
  | unguarded (s : State Caller Token T) (h : Holder Caller Token T) (cached : Option (TokenRecord Token T))
      (hl : s.lock = some h) (hg : h.stage = .guarding cached) (hv : minIssueInterval v ≤ (0 : T)) :
      Step v stores s (s.at h (.issuing cached none))
  | clear (s : State Caller Token T) (h : Holder Caller Token T) (cached : Option (TokenRecord Token T))
      (hl : s.lock = some h) (hg : h.stage = .guarding cached) (hv : 0 < (minIssueInterval v : T))
      (hw : throttleDelay v s.guard s.clock ≤ 0) : Step v stores s (s.at h (.stamping cached))
  /-- `TokenIssueThrottled`. -/
  | throttled (s : State Caller Token T) (h : Holder Caller Token T) (cached : Option (TokenRecord Token T))
      (hl : s.lock = some h) (hg : h.stage = .guarding cached) (hv : 0 < (minIssueInterval v : T))
      (hw : 0 < throttleDelay v s.guard s.clock)
      (hp : (stores h.caller).policy = .raise ∨ (stores h.caller).lockTimeout < throttleDelay v s.guard s.clock) :
      Step v stores s (s.release h .failed)
  | sleep (s : State Caller Token T) (h : Holder Caller Token T) (cached : Option (TokenRecord Token T))
      (hl : s.lock = some h) (hg : h.stage = .guarding cached) (hv : 0 < (minIssueInterval v : T))
      (hw : 0 < throttleDelay v s.guard s.clock) (hp : (stores h.caller).policy = .wait)
      (ht : throttleDelay v s.guard s.clock ≤ (stores h.caller).lockTimeout) :
      Step v stores s (s.at h (.sleeping cached (s.clock + throttleDelay v s.guard s.clock)))
  | wake (s : State Caller Token T) (h : Holder Caller Token T) (cached : Option (TokenRecord Token T)) (t : T)
      (hl : s.lock = some h) (hg : h.stage = .sleeping cached t) (ht : t ≤ s.clock) :
      Step v stores s (s.at h (.stamping cached))
  /-- `_write_guard_value`. -/
  | stamp (s : State Caller Token T) (h : Holder Caller Token T) (cached : Option (TokenRecord Token T))
      (hl : s.lock = some h) (hg : h.stage = .stamping cached) :
      Step v stores s ({ s with guard := some s.clock }.at h (.issuing cached (some s.clock)))
  | issueFailed (s : State Caller Token T) (h : Holder Caller Token T) (cached : Option (TokenRecord Token T))
      (stamp : Option T) (hl : s.lock = some h) (hg : h.stage = .issuing cached stamp) :
      Step v stores s (s.release h .failed)
  /-- `issue` returns a token it never returned before. -/
  | issue (s : State Caller Token T) (h : Holder Caller Token T) (cached : Option (TokenRecord Token T))
      (stamp : Option T) (i : IssuedToken Token T) (hl : s.lock = some h) (hg : h.stage = .issuing cached stamp)
      (hi : i.accessToken ∉ s.tokens) :
      Step v stores s (({ s with tokens := i.accessToken :: s.tokens }.logged
        [.issued h.caller h.call i.accessToken stamp s.clock]).at h (.publishing cached i))
  | publish (s : State Caller Token T) (h : Holder Caller Token T) (cached : Option (TokenRecord Token T))
      (i : IssuedToken Token T) (hl : s.lock = some h) (hg : h.stage = .publishing cached i) :
      Step v stores s (({ s with record := some (buildRecord i cached s.clock) }.logged
        [.stored h.caller h.call (buildRecord i cached s.clock),
          .returned h.caller h.call (buildRecord i cached s.clock)]).release h (.returned (buildRecord i cached s.clock)))
  /-- The call's answer or error was taken. -/
  | next (s : State Caller Token T) (c : Caller)
      (hc : (∃ r, s.outside c = .returned r) ∨ s.outside c = .failed) : Step v stores s (s.to c .idle)

/-- Any processes over one token store, from the record and any guard they find there. -/
def system (v : Vendor) (stores : Caller → Store T) (record : Option (TokenRecord Token T)) :
    System (State Caller Token T) where
  start s := s.record = record ∧ s.lock = none ∧ (∀ c, s.outside c = .idle) ∧
    (∀ r, record = some r → r.accessToken ∈ s.tokens) ∧ s.log = []
  step := Step v stores

end system

/-! ## What the processes know of tokens -/

section known

variable {Caller : Type*} {s s' : State Caller Token T} {h : Holder Caller Token T}

/-- A process waits only with a token that was handed out; the lock's holder remembers the record as it is. -/
structure Known (s : State Caller Token T) : Prop where
  record : ∀ r, s.record = some r → r.accessToken ∈ s.tokens
  waiting : ∀ c t, s.outside c = .waiting (.replaceRejected t) → t ∈ s.tokens
  holder : ∀ h t, s.lock = some h → h.call = .replaceRejected t → t ∈ s.tokens
  cached : ∀ h cached, s.lock = some h → h.stage.cached = some cached → cached = s.record
  publishing : ∀ h cached i, s.lock = some h → h.stage = .publishing cached i → i.accessToken ∈ s.tokens
  stored : ∀ c t r, .stored c (.replaceRejected t) r ∈ s.log → t ∈ s.tokens

theorem Known.logged (hk : Known s) {es : List (Event Caller Token T)}
    (hes : ∀ c t r, .stored c (.replaceRejected t) r ∈ es → t ∈ s.tokens) : Known (s.logged es) := by
  refine ⟨hk.record, hk.waiting, hk.holder, hk.cached, hk.publishing, fun c t r hm => ?_⟩
  rcases List.mem_append.1 hm with hm | hm
  · exact hk.stored c t r hm
  · exact hes c t r hm

/-- A token is handed out. -/
theorem Known.token (hk : Known s) (t : Token) : Known { s with tokens := t :: s.tokens } :=
  ⟨fun r hr => List.mem_cons_of_mem _ (hk.record r hr), fun c u hc => List.mem_cons_of_mem _ (hk.waiting c u hc),
    fun h u hl hc => List.mem_cons_of_mem _ (hk.holder h u hl hc), hk.cached,
    fun h cached i hl hg => List.mem_cons_of_mem _ (hk.publishing h cached i hl hg),
    fun c u r hm => List.mem_cons_of_mem _ (hk.stored c u r hm)⟩

theorem Known.at (hk : Known s) (hl : s.lock = some h) {g : Stage Token T}
    (hc : ∀ cached, g.cached = some cached → cached = s.record)
    (hi : ∀ cached i, g = .publishing cached i → i.accessToken ∈ s.tokens) : Known (s.at h g) := by
  refine ⟨hk.record, hk.waiting, ?_, ?_, ?_, hk.stored⟩
  · intro h' t hl' hcall
    cases hl'
    exact hk.holder h t hl hcall
  · intro h' cached hl' hst
    cases hl'
    exact hc cached hst
  · intro h' cached i hl' hst
    cases hl'
    exact hi cached i hst

/-- The holder goes on without publishing, with what it remembers. -/
theorem Known.go (hk : Known s) (hl : s.lock = some h) {g : Stage Token T} (hc : g.cached = h.stage.cached)
    (hi : ∀ cached i, g ≠ .publishing cached i) : Known (s.at h g) :=
  hk.at hl (fun cached hg => hk.cached h cached hl (hc ▸ hg)) (fun cached i hg => absurd hg (hi cached i))

/-- The lock is free again, over the same record or another one. -/
theorem Known.unlocked (hk : Known s) {record : Option (TokenRecord Token T)}
    (hr : ∀ r, record = some r → r.accessToken ∈ s.tokens) : Known { s with record, lock := none } := by
  refine ⟨hr, hk.waiting, ?_, ?_, ?_, hk.stored⟩
  · intro h t hl
    cases hl
  · intro h cached hl
    cases hl
  · intro h cached i hl
    cases hl

variable [DecidableEq Caller]

theorem Known.to (hk : Known s) (c : Caller) {p : Outside Token T}
    (hp : ∀ t, p = .waiting (.replaceRejected t) → t ∈ s.tokens) : Known (s.to c p) := by
  refine ⟨hk.record, fun d t hd => ?_, hk.holder, hk.cached, hk.publishing, hk.stored⟩
  change (if d = c then p else s.outside d) = _ at hd
  split_ifs at hd
  · exact hp t hd
  · exact hk.waiting d t hd

theorem Known.release (hk : Known s) {p : Outside Token T} (hp : ∀ t, p ≠ .waiting (.replaceRejected t)) :
    Known (s.release h p) := by
  exact (hk.unlocked hk.record).to h.caller (fun t ht => absurd ht (hp t))

end known

section steps

variable {Caller : Type*} {s s' : State Caller Token T} {h : Holder Caller Token T}

/-! ## What a step does to the record and the history -/

/-- An event that only reads the record. -/
inductive Event.Reads (record : Option (TokenRecord Token T)) : Event Caller Token T → Prop where
  | decided (c : Caller) (call : Call Token) (cached : Option (TokenRecord Token T)) (u : Bool) :
      Reads record (.decided c call cached u)
  | returned (c : Caller) (call : Call Token) (r : TokenRecord Token T) (hr : record = some r)
      (ht : ∀ t, call = .replaceRejected t → r.accessToken ≠ t) : Reads record (.returned c call r)

/-- A step that neither issues nor publishes: the holder that does is the same, and no call gets past its first look. -/
structure Quiet (s s' : State Caller Token T) : Prop where
  record : s'.record = s.record
  tokens : s'.tokens = s.tokens
  log : ∃ es, s'.log = s.log ++ es ∧ ∀ e ∈ es, Event.Reads s.record e
  publishing : ∀ h, h.stage.publishes = true → (s'.lock = some h ↔ s.lock = some h)
  past : ∀ h', s'.lock = some h' → h'.stage ≠ .locked → ∃ h, s.lock = some h ∧ h.call = h'.call ∧ h.stage ≠ .locked

/-- A process outside the lock goes on. -/
theorem Quiet.outside (hrec : s'.record = s.record) (htok : s'.tokens = s.tokens) (hlock : s'.lock = s.lock)
    (hlog : ∃ es, s'.log = s.log ++ es ∧ ∀ e ∈ es, Event.Reads s.record e) : Quiet s s' :=
  ⟨hrec, htok, hlog, fun h _ => by rw [hlock], fun h' hl hst => ⟨h', hlock ▸ hl, rfl, hst⟩⟩

/-- The holder lets the lock go, without having anything to publish. -/
theorem Quiet.released (hl : s.lock = some h) (hg : h.stage.publishes = false) (hrec : s'.record = s.record)
    (htok : s'.tokens = s.tokens) (hlock : s'.lock = none)
    (hlog : ∃ es, s'.log = s.log ++ es ∧ ∀ e ∈ es, Event.Reads s.record e) : Quiet s s' := by
  refine ⟨hrec, htok, hlog, fun h' hst => ?_, fun h' hl' => ?_⟩
  · rw [hlock, hl]
    refine ⟨fun hn => (by cases hn), fun he => ?_⟩
    cases he
    rw [hg] at hst
    cases hst
  · rw [hlock] at hl'
    cases hl'

/-- The holder goes from one stage to the next. -/
theorem Quiet.moved {g : Stage Token T} (hl : s.lock = some h) (hg : h.stage.publishes = false)
    (hp : h.stage ≠ .locked) (hg' : g.publishes = false) (hrec : s'.record = s.record)
    (htok : s'.tokens = s.tokens) (hlock : s'.lock = some { h with stage := g }) (hlog : s'.log = s.log) :
    Quiet s s' := by
  refine ⟨hrec, htok, ⟨[], by rw [hlog, List.append_nil], fun e he => by cases he⟩, ?_, ?_⟩
  · intro h' hst
    rw [hlock, hl]
    refine ⟨fun he => ?_, fun he => ?_⟩
    · cases he
      rw [hg'] at hst
      cases hst
    · cases he
      rw [hg] at hst
      cases hst
  · intro h' hl' _
    rw [hlock] at hl'
    cases hl'
    exact ⟨h, hl, rfl, hp⟩

variable [DecidableEq Caller] [DecidableEq Token] [Field T] [LinearOrder T] {v : Vendor} {stores : Caller → Store T}

theorem known_step (hk : Known s) (hs : Step v stores s s') : Known s' := by
  cases hs with
  | tick t _ => exact ⟨hk.record, hk.waiting, hk.holder, hk.cached, hk.publishing, hk.stored⟩
  | fastHit c now r _ _ _ _ => exact (hk.logged (by simp)).to c (by simp)
  | fastMiss c now _ _ _ => exact hk.to c (by simp)
  | reject c t _ ht =>
    refine hk.to c (fun u hu => ?_)
    cases hu
    exact ht
  | lockTimeout c call _ => exact hk.to c (by simp)
  | lock c call hc _ =>
    have hlocked : Known { s with lock := some ⟨c, call, .locked⟩ } := by
      refine ⟨hk.record, hk.waiting, ?_, ?_, ?_, hk.stored⟩
      · intro h t hl hcall
        cases hl
        exact hk.waiting c t (by rw [hc]; exact congrArg _ hcall)
      · intro h cached hl hst
        cases hl
        cases hst
      · intro h cached i hl hst
        cases hl
        cases hst
    exact hlocked.to c (fun t ht => by cases ht)
  | hit h now r _ _ _ _ _ => exact (hk.logged (by simp)).release (by simp)
  | miss h now hl _ _ _ =>
    refine (hk.logged (by simp)).at hl (fun cached hc => ?_) (by simp)
    cases hc
    rfl
  | unguarded h cached hl hg _ => exact hk.go hl (by rw [hg]; rfl) (by simp)
  | clear h cached hl hg _ _ => exact hk.go hl (by rw [hg]; rfl) (by simp)
  | throttled h cached _ _ _ _ _ => exact hk.release (by simp)
  | sleep h cached hl hg _ _ _ _ => exact hk.go hl (by rw [hg]; rfl) (by simp)
  | wake h cached t hl hg _ => exact hk.go hl (by rw [hg]; rfl) (by simp)
  | stamp h cached hl hg =>
    have hguard : Known { s with guard := some s.clock } :=
      ⟨hk.record, hk.waiting, hk.holder, hk.cached, hk.publishing, hk.stored⟩
    exact hguard.go hl (by rw [hg]; rfl) (by simp)
  | issueFailed h cached st _ _ => exact hk.release (by simp)
  | issue h cached st i hl hg _ =>
    refine ((hk.token i.accessToken).logged (by simp)).at hl (fun c hc => ?_) (fun c j hj => ?_)
    · cases hc
      exact hk.cached h _ hl (by rw [hg]; rfl)
    · cases hj
      exact List.mem_cons_self
  | publish h cached i hl hg =>
    have hstored : Known { s with record := some (buildRecord i cached s.clock), lock := none } := by
      refine hk.unlocked (fun r hr => ?_)
      cases hr
      exact hk.publishing h cached i hl hg
    refine (hstored.logged (fun c t r hm => ?_)).to h.caller (fun t ht => by cases ht)
    simp only [List.mem_cons, Event.stored.injEq, reduceCtorEq, List.not_mem_nil, or_false] at hm
    exact hk.holder h t hl hm.2.1.symm
  | next c _ => exact hk.to c (by simp)

/-- **What a step does**: it is quiet, or a look at the record that does not end the call, or an issue, or the
publication of what was issued. -/
theorem step_cases (hs : Step v stores s s') :
    Quiet s s' ∨
    (∃ h now, s.lock = some h ∧ (∀ r, s.record = some r → h.call.accepts (stores h.caller) r now = false) ∧
      s' = (s.logged [.decided h.caller h.call s.record (s.record.any (fun r => (stores h.caller).usable r now))]).at h
        (.guarding s.record) ∧ h.stage = .locked) ∨
    (∃ h cached stamp, ∃ i : IssuedToken Token T, s.lock = some h ∧ h.stage = .issuing cached stamp ∧ i.accessToken ∉ s.tokens ∧
      s' = ({ s with tokens := i.accessToken :: s.tokens }.logged
        [.issued h.caller h.call i.accessToken stamp s.clock]).at h (.publishing cached i)) ∨
    ∃ h cached i, s.lock = some h ∧ h.stage = .publishing cached i ∧
      s' = ({ s with record := some (buildRecord i cached s.clock) }.logged
        [.stored h.caller h.call (buildRecord i cached s.clock),
          .returned h.caller h.call (buildRecord i cached s.clock)]).release h (.returned (buildRecord i cached s.clock)) := by
  have hsame : ∃ es, s.log = s.log ++ es ∧ ∀ e ∈ es, Event.Reads s.record e :=
    ⟨[], (List.append_nil _).symm, fun e he => by cases he⟩
  cases hs with
  | tick t _ => exact .inl (.outside rfl rfl rfl hsame)
  | fastHit c now r _ _ hr _ =>
    refine .inl (.outside rfl rfl rfl ⟨_, rfl, fun e he => ?_⟩)
    cases List.mem_singleton.1 he
    exact .returned c _ r hr (fun t ht => by cases ht)
  | fastMiss c now _ _ _ => exact .inl (.outside rfl rfl rfl hsame)
  | reject c t _ _ => exact .inl (.outside rfl rfl rfl hsame)
  | lockTimeout c call _ => exact .inl (.outside rfl rfl rfl hsame)
  | lock c call _ hl =>
    refine .inl ⟨rfl, rfl, hsame, fun h hst => ?_, fun h' hl' hst => ?_⟩
    · rw [hl]
      refine ⟨fun he => ?_, fun hn => by cases hn⟩
      cases he
      cases hst
    · cases hl'
      exact absurd rfl hst
  | hit h now r hl hg _ hr ha =>
    refine .inl (.released hl (by rw [hg]; rfl) rfl rfl rfl ⟨_, rfl, fun e he => ?_⟩)
    rcases List.mem_cons.1 he with rfl | he
    · exact .decided ..
    · cases List.mem_singleton.1 he
      refine .returned _ _ r hr (fun t ht => ?_)
      rw [ht] at ha
      simp only [Call.accepts, Bool.and_eq_true, decide_eq_true_eq] at ha
      exact ha.1
  | miss h now hl hg _ ha => exact .inr (.inl ⟨h, now, hl, ha, rfl, hg⟩)
  | unguarded h cached hl hg _ =>
    exact .inl (.moved hl (by rw [hg]; rfl) (by rw [hg]; simp) rfl rfl rfl rfl rfl)
  | clear h cached hl hg _ _ =>
    exact .inl (.moved hl (by rw [hg]; rfl) (by rw [hg]; simp) rfl rfl rfl rfl rfl)
  | throttled h cached hl hg _ _ _ => exact .inl (.released hl (by rw [hg]; rfl) rfl rfl rfl hsame)
  | sleep h cached hl hg _ _ _ _ =>
    exact .inl (.moved hl (by rw [hg]; rfl) (by rw [hg]; simp) rfl rfl rfl rfl rfl)
  | wake h cached t hl hg _ =>
    exact .inl (.moved hl (by rw [hg]; rfl) (by rw [hg]; simp) rfl rfl rfl rfl rfl)
  | stamp h cached hl hg =>
    exact .inl (.moved hl (by rw [hg]; rfl) (by rw [hg]; simp) rfl rfl rfl rfl rfl)
  | issueFailed h cached st hl hg => exact .inl (.released hl (by rw [hg]; rfl) rfl rfl rfl hsame)
  | issue h cached st i hl hg hi => exact .inr (.inr (.inl ⟨h, cached, st, i, hl, hg, hi, rfl⟩))
  | publish h cached i hl hg => exact .inr (.inr (.inr ⟨h, cached, i, hl, hg, rfl⟩))
  | next c _ => exact .inl (.outside rfl rfl rfl hsame)

end steps

/-! ## A rejected token is replaced once -/

section replacing

variable {Caller : Type*} [DecidableEq Token] {s s' : State Caller Token T} {t : Token}

/-- A `replace_rejected(t)` call issued. -/
def Event.issuedFor (t : Token) : Event Caller Token T → Bool
  | .issued _ call _ _ _ => call.rejects t
  | _ => false

/-- A `replace_rejected(t)` call stored a record. -/
def Event.storedFor (t : Token) : Event Caller Token T → Bool
  | .stored _ call _ => call.rejects t
  | _ => false

/-- A `replace_rejected(t)` call found no usable record. -/
def Event.unusableFor (t : Token) : Event Caller Token T → Bool
  | .decided _ call _ usable => call.rejects t && !usable
  | _ => false

def issues (t : Token) (log : List (Event Caller Token T)) : Nat := log.countP (Event.issuedFor t)

def storings (t : Token) (log : List (Event Caller Token T)) : Nat := log.countP (Event.storedFor t)

/-- Once a `replace_rejected(t)` call stored a record, every later one finds the stored record usable. -/
def KeptUsable (t : Token) (log : List (Event Caller Token T)) : Prop :=
  log.Pairwise (fun e d => e.storedFor t = true → d.unusableFor t = false)

theorem Call.rejects_iff {call : Call Token} : call.rejects t = true ↔ call = .replaceRejected t := by
  cases call <;> simp [Call.rejects]

theorem Event.Reads.quiet {record : Option (TokenRecord Token T)} :
    ∀ {e : Event Caller Token T}, Event.Reads record e → e.issuedFor t = false ∧ e.storedFor t = false
  | _, .decided .. => ⟨rfl, rfl⟩
  | _, .returned .. => ⟨rfl, rfl⟩

theorem issues_append (log es : List (Event Caller Token T)) : issues t (log ++ es) = issues t log + issues t es :=
  List.countP_append

theorem storings_append (log es : List (Event Caller Token T)) :
    storings t (log ++ es) = storings t log + storings t es := List.countP_append

theorem storings_pos {log : List (Event Caller Token T)} : 0 < storings t log ↔ ∃ e ∈ log, e.storedFor t = true :=
  List.countP_pos_iff

theorem Quiet.issues (hq : Quiet s s') : issues t s'.log = issues t s.log := by
  obtain ⟨es, hes, hr⟩ := hq.log
  have hnone : TokenStore.issues t es = 0 :=
    List.countP_eq_zero.2 (fun e he => by rw [(hr e he).quiet.1]; exact Bool.false_ne_true)
  rw [hes, issues_append, hnone, Nat.add_zero]

theorem Quiet.storings (hq : Quiet s s') : storings t s'.log = storings t s.log := by
  obtain ⟨es, hes, hr⟩ := hq.log
  have hnone : TokenStore.storings t es = 0 :=
    List.countP_eq_zero.2 (fun e he => by rw [(hr e he).quiet.2]; exact Bool.false_ne_true)
  rw [hes, storings_append, hnone, Nat.add_zero]

/-- The rejected token is not the stored one any more, and will not be. -/
structure Fresh (t : Token) (s : State Caller Token T) : Prop where
  record : 0 < storings t s.log → ∃ r, s.record = some r ∧ r.accessToken ≠ t
  publishing : ∀ h cached i, s.lock = some h → h.stage = .publishing cached i →
    h.call = .replaceRejected t ∨ 0 < storings t s.log → i.accessToken ≠ t

theorem Known.rejected (hk : Known s) (ht : 0 < storings t s.log) : t ∈ s.tokens := by
  obtain ⟨e, he, hst⟩ := storings_pos.1 ht
  cases e with
  | stored c call r => exact hk.stored c t r (by rw [← Call.rejects_iff.1 hst]; exact he)
  | decided | issued | returned => cases hst

def Holder.owes (t : Token) (h : Holder Caller Token T) : Bool := h.call.rejects t && h.stage.publishes

/-- What the store still owes for a rejected token: the publication of what was issued for it. -/
def owed (t : Token) (s : State Caller Token T) : Nat := if s.lock.any (Holder.owes t) = true then 1 else 0

theorem Quiet.owed (hq : Quiet s s') : owed t s' = owed t s := by
  have hiff : s'.lock.any (Holder.owes t) = true ↔ s.lock.any (Holder.owes t) = true := by
    simp only [Option.any_eq_true]
    refine ⟨?_, ?_⟩
    · rintro ⟨h, hl, ho⟩
      exact ⟨h, (hq.publishing h (Bool.and_eq_true_iff.1 ho).2).1 hl, ho⟩
    · rintro ⟨h, hl, ho⟩
      exact ⟨h, (hq.publishing h (Bool.and_eq_true_iff.1 ho).2).2 hl, ho⟩
  unfold TokenStore.owed
  simp only [hiff]

/-- What `publish` adds to the history, seen by a rejected token. -/
theorem storings_publish (c : Caller) (call : Call Token) (r r' : TokenRecord Token T) :
    storings t [Event.stored c call r, .returned c call r'] = if call.rejects t = true then 1 else 0 := by
  by_cases hr : call.rejects t = true
  · simp [storings, Event.storedFor, hr]
  · simp [storings, Event.storedFor, hr]

theorem owed_held {h : Holder Caller Token T} (hl : s.lock = some h) :
    owed t s = if (h.call.rejects t && h.stage.publishes) = true then 1 else 0 := by
  unfold owed
  rw [hl]
  rfl

theorem owed_idle {h : Holder Caller Token T} (hl : s.lock = some h) (hg : h.stage.publishes = false) : owed t s = 0 := by
  rw [owed_held hl, hg, Bool.and_false, if_neg Bool.false_ne_true]

theorem KeptUsable.of_append {log es : List (Event Caller Token T)} (h : KeptUsable t (log ++ es)) : KeptUsable t log :=
  (List.pairwise_append.1 h).1

variable [DecidableEq Caller] [Field T] [LinearOrder T] {v : Vendor} {stores : Caller → Store T}

theorem fresh_step (hk : Known s) (hf : Fresh t s) (hs : Step v stores s s') : Fresh t s' := by
  rcases step_cases hs with hq | ⟨h, now, hl, ha, rfl, hg⟩ | ⟨h, cached, stamp, i, hl, hg, hi, rfl⟩ |
    ⟨h, cached, i, hl, hg, rfl⟩
  · refine ⟨?_, ?_⟩
    · rw [hq.record, hq.storings]
      exact hf.record
    · intro h cached i hl hg hor
      rw [hq.storings] at hor
      exact hf.publishing h cached i ((hq.publishing h (by rw [hg]; rfl)).1 hl) hg hor
  · refine ⟨fun hp => hf.record ?_, ?_⟩
    · simpa [State.at, State.logged, storings_append, storings, Event.storedFor] using hp
    · intro h' cached i hl' hg'
      cases hl'
      cases hg'
  · -- the new token was never handed out before; a rejected one was
    have hst : storings t (s.log ++ [.issued h.caller h.call i.accessToken stamp s.clock]) = storings t s.log := by
      rw [storings_append]
      rfl
    refine ⟨fun hp => hf.record (hst ▸ hp), ?_⟩
    intro h' cached' i' hl' hg' hor
    cases hl'
    cases hg'
    have ht : t ∈ s.tokens := by
      rcases hor with hcall | hp
      · exact hk.holder h t hl hcall
      · exact hk.rejected (hst ▸ hp)
    exact fun he => hi (he ▸ ht)
  · refine ⟨fun hp => ⟨_, rfl, ?_⟩, fun h' cached' i' hl' => ?_⟩
    · refine hf.publishing h cached i hl hg ?_
      rcases Classical.em (h.call = .replaceRejected t) with hcall | hcall
      · exact .inl hcall
      · right
        have hnew : storings t [Event.stored h.caller h.call (buildRecord i cached s.clock),
            .returned h.caller h.call (buildRecord i cached s.clock)] = 0 := by
          have hno : h.call.rejects t = false := Bool.eq_false_iff.2 (fun hr => hcall (Call.rejects_iff.1 hr))
          simp [storings, Event.storedFor, hno]
        change 0 < storings t (s.log ++ _) at hp
        rwa [storings_append, hnew, Nat.add_zero] at hp
    · cases hl'

/-- **Every issue is published by its own holder**, so issues and publications differ by what is owed. -/
theorem issues_step (hb : issues t s.log = storings t s.log + owed t s) (hs : Step v stores s s') :
    issues t s'.log = storings t s'.log + owed t s' := by
  rcases step_cases hs with hq | ⟨h, now, hl, ha, rfl, hg⟩ | ⟨h, cached, stamp, i, hl, hg, hi, rfl⟩ |
    ⟨h, cached, i, hl, hg, rfl⟩
  · rw [hq.issues, hq.storings, hq.owed, hb]
  · rw [owed_idle rfl rfl]
    change issues t (s.log ++ _) = storings t (s.log ++ _) + 0
    rw [issues_append, storings_append, hb, owed_idle hl (by rw [hg]; rfl)]
    rfl
  · rw [owed_held rfl]
    change issues t (s.log ++ _) = storings t (s.log ++ _) + (if (h.call.rejects t && true) = true then 1 else 0)
    rw [issues_append, storings_append, hb, owed_idle hl (by rw [hg]; rfl)]
    by_cases hr : h.call.rejects t = true
    · simp [issues, storings, Event.issuedFor, Event.storedFor, hr]
    · simp [issues, storings, Event.issuedFor, Event.storedFor, hr]
  · have howed : owed t s = if h.call.rejects t = true then 1 else 0 := by
      rw [owed_held hl, hg]
      simp only [Stage.publishes, Bool.and_true]
    change issues t (s.log ++ _) = storings t (s.log ++ _) + 0
    rw [issues_append, storings_append, storings_publish, hb, howed, Nat.add_zero]
    rfl

/-- While the record stays usable, one call replaces a rejected token, and the others go no further than their first
look at the record. -/
def Once (t : Token) (s : State Caller Token T) : Prop :=
  KeptUsable t s.log → storings t s.log ≤ 1 ∧
    (0 < storings t s.log → ∀ h, s.lock = some h → h.call = .replaceRejected t → h.stage = .locked)

theorem once_step (hf : Fresh t s) (ho : Once t s) (hs : Step v stores s s') : Once t s' := by
  intro hkept
  rcases step_cases hs with hq | ⟨h, now, hl, ha, rfl, hg⟩ | ⟨h, cached, stamp, i, hl, hg, hi, rfl⟩ |
    ⟨h, cached, i, hl, hg, rfl⟩
  · obtain ⟨es, hes, -⟩ := hq.log
    rw [hes] at hkept
    obtain ⟨hle, hlocked⟩ := ho hkept.of_append
    rw [hq.storings]
    refine ⟨hle, fun hpos h' hl' hcall => ?_⟩
    by_contra hst
    obtain ⟨h, hl, hsame, hpast⟩ := hq.past h' hl' hst
    exact hpast (hlocked hpos h hl (hsame.trans hcall))
  · obtain ⟨hle, hlocked⟩ := ho hkept.of_append
    have hsame : storings t (s.log ++ [.decided h.caller h.call s.record
        (s.record.any (fun r => (stores h.caller).usable r now))]) = storings t s.log := by
      rw [storings_append]
      rfl
    refine ⟨hsame.trans_le hle, fun hpos h' hl' hcall => ?_⟩
    cases hl'
    -- the look found the record usable, and not the rejected token: it would have been returned
    obtain ⟨e, he, hst⟩ := storings_pos.1 (hsame ▸ hpos)
    obtain ⟨r, hr, hne⟩ := hf.record (storings_pos.2 ⟨e, he, hst⟩)
    have husable := (List.pairwise_append.1 hkept).2.2 e he _ List.mem_cons_self hst
    have hcall' : h.call = .replaceRejected t := hcall
    have hno := ha r hr
    simp only [Event.unusableFor, hcall', Call.rejects, hr, Option.any_some, decide_true, Bool.true_and,
      Bool.not_eq_false'] at husable
    simp [hcall', Call.accepts, hne, husable] at hno
  · obtain ⟨hle, hlocked⟩ := ho hkept.of_append
    have hsame : storings t (s.log ++ [.issued h.caller h.call i.accessToken stamp s.clock]) = storings t s.log := by
      rw [storings_append]
      rfl
    refine ⟨hsame.trans_le hle, fun hpos h' hl' hcall => ?_⟩
    cases hl'
    have hlock := hlocked (hsame ▸ hpos) h hl hcall
    rw [hg] at hlock
    cases hlock
  · obtain ⟨hle, hlocked⟩ := ho hkept.of_append
    refine ⟨?_, fun _ h' hl' => by cases hl'⟩
    change storings t (s.log ++ _) ≤ 1
    rw [storings_append, storings_publish]
    by_cases hr : h.call.rejects t = true
    · have hzero : storings t s.log = 0 := by
        refine Nat.eq_zero_of_not_pos (fun hpos => ?_)
        have hlock := hlocked hpos h hl (Call.rejects_iff.1 hr)
        rw [hg] at hlock
        cases hlock
      rw [if_pos hr, hzero]
    · rw [if_neg hr]
      exact hle

end replacing

/-! ## The record and what is returned -/

section returning

variable {Caller : Type*} {s s' : State Caller Token T}

def Event.sets : Event Caller Token T → Option (TokenRecord Token T)
  | .stored _ _ r => some r
  | _ => none

def Event.generation : Event Caller Token T → Option Nat
  | .stored _ _ r => some r.generation
  | _ => none

/-- A returned record is the one the past leaves, and never the token its call reported. -/
def Event.Truthful (record : Option (TokenRecord Token T)) (past : List (Event Caller Token T)) :
    Event Caller Token T → Prop
  | .returned _ call r =>
    History.replay Event.sets record past = some r ∧ ∀ t, call = .replaceRejected t → r.accessToken ≠ t
  | _ => True

/-- The history of a store that began with a record tells what the record is now, and each generation is above all the
ones before it. -/
structure Told (record : Option (TokenRecord Token T)) (s : State Caller Token T) : Prop where
  now : s.record = History.replay Event.sets record s.log
  returned : History.Along (Event.Truthful record) s.log
  rising : (record.toList.map TokenRecord.generation ++ s.log.filterMap Event.generation).Pairwise (· < ·)
  below : ∀ g ∈ record.toList.map TokenRecord.generation ++ s.log.filterMap Event.generation,
    ∃ r, s.record = some r ∧ g ≤ r.generation

theorem Event.Reads.sets_none {record : Option (TokenRecord Token T)} :
    ∀ {e : Event Caller Token T}, Event.Reads record e → e.sets = none ∧ e.generation = none
  | _, .decided .. => ⟨rfl, rfl⟩
  | _, .returned .. => ⟨rfl, rfl⟩

theorem along_reads {record : Option (TokenRecord Token T)} {past : List (Event Caller Token T)}
    (hp : History.Along (Event.Truthful record) past) :
    ∀ {es : List (Event Caller Token T)}, (∀ e ∈ es, Event.Reads (History.replay Event.sets record past) e) →
      History.Along (Event.Truthful record) (past ++ es)
  | [], _ => by rwa [List.append_nil]
  | e :: es, h => by
    have he := h e List.mem_cons_self
    have hsnoc : History.Along (Event.Truthful record) (past ++ [e]) := by
      refine hp.snoc ?_
      cases he with
      | decided => trivial
      | returned c call r hr ht => exact ⟨hr, ht⟩
    have hsame : History.replay Event.sets record (past ++ [e]) = History.replay Event.sets record past := by
      rw [History.replay_snoc, he.sets_none.1]
      rfl
    have hrest : History.Along (Event.Truthful record) ((past ++ [e]) ++ es) :=
      along_reads hsnoc (fun d hd => by rw [hsame]; exact h d (List.mem_cons_of_mem _ hd))
    rwa [List.append_assoc] at hrest

variable [DecidableEq Caller] [DecidableEq Token] [Field T] [LinearOrder T] {v : Vendor} {stores : Caller → Store T}
  {record : Option (TokenRecord Token T)}

theorem told_step (hk : Known s) (hf : ∀ t, Fresh t s) (ht : Told record s) (hs : Step v stores s s') :
    Told record s' := by
  have hquiet : ∀ es, (∀ e ∈ es, Event.Reads s.record e) → s'.log = s.log ++ es → s'.record = s.record →
      Told record s' := by
    intro es hr hlog hrec
    have hnone : es.filterMap Event.generation = [] :=
      List.filterMap_eq_nil_iff.2 (fun e he => (hr e he).sets_none.2)
    refine ⟨?_, ?_, ?_, ?_⟩
    · rw [hrec, hlog, History.replay_append, History.replay_keeps (fun e he => (hr e he).sets_none.1)]
      exact ht.now
    · rw [hlog]
      exact along_reads ht.returned (fun e he => ht.now ▸ hr e he)
    · rw [hlog, List.filterMap_append, hnone, List.append_nil]
      exact ht.rising
    · rw [hlog, hrec, List.filterMap_append, hnone, List.append_nil]
      exact ht.below
  rcases step_cases hs with hq | ⟨h, now, hl, ha, rfl, hg⟩ | ⟨h, cached, stamp, i, hl, hg, hi, rfl⟩ |
    ⟨h, cached, i, hl, hg, rfl⟩
  · obtain ⟨es, hlog, hr⟩ := hq.log
    exact hquiet es hr hlog hq.record
  · refine hquiet _ (fun e he => ?_) rfl rfl
    cases List.mem_singleton.1 he
    exact .decided ..
  · refine ⟨?_, ?_, ?_, ?_⟩
    · change s.record = History.replay Event.sets record (s.log ++ [_])
      rw [History.replay_snoc]
      exact ht.now
    · exact ht.returned.snoc trivial
    · change (_ ++ List.filterMap Event.generation (s.log ++ [_])).Pairwise _
      rw [List.filterMap_append]
      exact (List.append_nil _).symm ▸ ht.rising
    · change ∀ g ∈ _ ++ List.filterMap Event.generation (s.log ++ [_]), _
      rw [List.filterMap_append]
      exact (List.append_nil _).symm ▸ ht.below
  · have hcached : cached = s.record := hk.cached h cached hl (by rw [hg]; rfl)
    have hlog : ∀ a b : Event Caller Token T, s.log ++ [a, b] = (s.log ++ [a]) ++ [b] := by simp
    have hpast : History.replay Event.sets record (s.log ++ [.stored h.caller h.call (buildRecord i cached s.clock)]) =
        some (buildRecord i cached s.clock) := by
      rw [History.replay_snoc]
      rfl
    -- the new generation is one above the record it replaces
    have habove : ∀ g ∈ record.toList.map TokenRecord.generation ++ s.log.filterMap Event.generation,
        g < (buildRecord i cached s.clock).generation := by
      intro g hg'
      obtain ⟨r, hr, hle⟩ := ht.below g hg'
      rw [hcached, hr]
      exact Nat.lt_succ_of_le hle
    refine ⟨?_, ?_, ?_, ?_⟩
    · change some _ = History.replay Event.sets record (s.log ++ [_, _])
      rw [hlog, History.replay_snoc, hpast]
      rfl
    · change History.Along _ (s.log ++ [_, _])
      rw [hlog]
      have hstored : History.Along (Event.Truthful record)
          (s.log ++ [.stored h.caller h.call (buildRecord i cached s.clock)]) := ht.returned.snoc trivial
      refine hstored.snoc ⟨hpast, fun t hcall => ?_⟩
      exact (hf t).publishing h cached i hl hg (.inl hcall)
    · change (_ ++ List.filterMap Event.generation (s.log ++ [_, _])).Pairwise _
      rw [List.filterMap_append, ← List.append_assoc]
      refine List.pairwise_append.2 ⟨ht.rising, List.pairwise_singleton .., fun g hg' g' hg'' => ?_⟩
      rw [List.mem_singleton.1 hg'']
      exact habove g hg'
    · change ∀ g ∈ _ ++ List.filterMap Event.generation (s.log ++ [_, _]), _
      rw [List.filterMap_append, ← List.append_assoc]
      intro g hg'
      refine ⟨_, rfl, ?_⟩
      rcases List.mem_append.1 hg' with hg' | hg'
      · exact (habove g hg').le
      · rw [List.mem_singleton.1 hg']

end returning

/-! ## The spacing of attempts -/

section spacing

variable {Caller : Type*} {s s' : State Caller Token T}

/-- When `issue` was called, with the guard's stamp of the attempt. -/
def Event.attempt : Event Caller Token T → Option (Option T × T)
  | .issued _ _ _ stamp calledAt => some (stamp, calledAt)
  | _ => none

def attempts (log : List (Event Caller Token T)) : List (Option T × T) := log.filterMap Event.attempt

theorem attempts_append (log es : List (Event Caller Token T)) : attempts (log ++ es) = attempts log ++ attempts es :=
  List.filterMap_append ..

variable [Field T] [LinearOrder T] {v : Vendor}

/-- The later attempt was stamped the minimum interval after the stamp of the earlier one, and called after that. -/
def Apart (v : Vendor) (a b : Option T × T) : Prop :=
  ∃ g g', a.1 = some g ∧ b.1 = some g' ∧ g + minIssueInterval v ≤ g' ∧ g' ≤ b.2

/-- Every attempt so far was stamped this long before an instant. -/
def StampedBefore (d t : T) (log : List (Event Caller Token T)) : Prop :=
  ∀ a ∈ attempts log, ∃ g, a.1 = some g ∧ g + d ≤ t

theorem StampedBefore.mono [IsStrictOrderedRing T] {d d' t t' : T} {log : List (Event Caller Token T)}
    (h : StampedBefore d t log) (hd : d' ≤ d) (ht : t ≤ t') : StampedBefore d' t' log := by
  intro a ha
  obtain ⟨g, hg, hle⟩ := h a ha
  exact ⟨g, hg, by linarith⟩

/-- What the guard promises the lock's holder at its stage. -/
def Stage.Allowed (v : Vendor) (guard : Option T) (clock : T) (log : List (Event Caller Token T)) : Stage Token T → Prop
  | .sleeping _ wakes => ∃ g, guard = some g ∧ g + minIssueInterval v ≤ wakes
  | .stamping _ => ∀ g, guard = some g → g + minIssueInterval v ≤ clock
  | .issuing _ stamp => ∃ g, stamp = some g ∧ guard = some g ∧ g ≤ clock ∧ StampedBefore (minIssueInterval v) g log
  | .locked | .guarding _ | .publishing _ _ => True

/-- On a guarded lane the guard is the last stamp, and every two attempts are apart. -/
structure Spaced (v : Vendor) (s : State Caller Token T) : Prop where
  stage : ∀ h, s.lock = some h → h.stage.Allowed v s.guard s.clock s.log
  guard : ∀ a ∈ attempts s.log, ∃ g g', a.1 = some g ∧ s.guard = some g' ∧ g ≤ g'
  pairs : (attempts s.log).Pairwise (Apart v)

/-- Time passes, or a process outside the lock goes on, or the holder goes to a stage the guard allows. -/
theorem Spaced.of_same (hsp : Spaced v s) (hguard : s'.guard = s.guard) (hlog : attempts s'.log = attempts s.log)
    (hst : ∀ h, s'.lock = some h → h.stage.Allowed v s'.guard s'.clock s'.log) : Spaced v s' :=
  ⟨hst, by rw [hlog, hguard]; exact hsp.guard, by rw [hlog]; exact hsp.pairs⟩

theorem Stage.Allowed.congr {g : Stage Token T} {guard : Option T} {clock clock' : T}
    {log log' : List (Event Caller Token T)} (h : g.Allowed v guard clock log) (hc : clock ≤ clock')
    (hl : attempts log' = attempts log) : g.Allowed v guard clock' log' := by
  cases g with
  | locked | guarding | publishing | sleeping => exact h
  | stamping cached => exact fun g hg => (h g hg).trans hc
  | issuing cached stamp =>
    obtain ⟨g, hs, hg, hle, hb⟩ := h
    refine ⟨g, hs, hg, hle.trans hc, ?_⟩
    unfold StampedBefore
    rw [hl]
    exact hb

theorem throttleDelay_le [IsStrictOrderedRing T] {guard : Option T} {now g : T} (hv : 0 < (minIssueInterval v : T))
    (hw : throttleDelay v guard now ≤ 0) (hg : guard = some g) : g + minIssueInterval v ≤ now := by
  unfold throttleDelay at hw
  rw [if_neg (not_le.2 hv), hg] at hw
  by_contra hlt
  have hpos : 0 < g + minIssueInterval v - now := by linarith
  simp only [if_pos hpos] at hw
  linarith

theorem throttleDelay_pos [IsStrictOrderedRing T] {guard : Option T} {now : T}
    (hw : 0 < throttleDelay v guard now) : ∃ g, guard = some g ∧ g + minIssueInterval v = now + throttleDelay v guard now := by
  unfold throttleDelay at hw ⊢
  split_ifs at hw ⊢ with hv
  · exact absurd hw (lt_irrefl 0)
  · cases guard with
    | none => exact absurd hw (lt_irrefl 0)
    | some g =>
      refine ⟨g, rfl, ?_⟩
      simp only at hw ⊢
      split_ifs at hw ⊢
      · exact (add_sub_cancel now _).symm
      · exact absurd hw (lt_irrefl 0)

variable [IsStrictOrderedRing T] [DecidableEq Caller] [DecidableEq Token] {stores : Caller → Store T}

theorem spaced_step (hv : 0 < (minIssueInterval v : T)) (hsp : Spaced v s) (hs : Step v stores s s') : Spaced v s' := by
  cases hs with
  | tick t ht => exact hsp.of_same rfl rfl (fun h hl => (hsp.stage h hl).congr ht rfl)
  | fastHit c now r _ _ _ _ =>
    have hlog : attempts (s.log ++ [.returned c .getOrIssue r]) = attempts s.log := by simp [attempts, Event.attempt]
    exact hsp.of_same rfl hlog (fun h hl => (hsp.stage h hl).congr le_rfl hlog)
  | fastMiss c now _ _ _ => exact hsp.of_same rfl rfl hsp.stage
  | reject c t _ _ => exact hsp.of_same rfl rfl hsp.stage
  | lockTimeout c call _ => exact hsp.of_same rfl rfl hsp.stage
  | next c _ => exact hsp.of_same rfl rfl hsp.stage
  | lock c call _ _ =>
    refine hsp.of_same rfl rfl (fun h hl => ?_)
    cases hl
    trivial
  | hit h now r _ _ _ _ _ =>
    refine hsp.of_same rfl ?_ (fun h' hl' => by cases hl')
    simp [State.release, State.to, State.logged, attempts, Event.attempt]
  | miss h now hl _ _ _ =>
    refine hsp.of_same rfl ?_ (fun h' hl' => ?_)
    · simp [State.at, State.logged, attempts, Event.attempt]
    · cases hl'
      trivial
  | unguarded h cached _ _ hno => exact absurd hno (not_le.2 hv)
  | clear h cached hl _ _ hw =>
    refine hsp.of_same rfl rfl (fun h' hl' => ?_)
    cases hl'
    exact fun g hg => throttleDelay_le hv hw hg
  | throttled h cached _ _ _ _ _ => exact hsp.of_same rfl rfl (fun h' hl' => by cases hl')
  | sleep h cached hl _ _ hw _ _ =>
    refine hsp.of_same rfl rfl (fun h' hl' => ?_)
    cases hl'
    obtain ⟨g, hg, heq⟩ := throttleDelay_pos hw
    exact ⟨g, hg, heq.le⟩
  | wake h cached t hl hg ht =>
    have hst := hsp.stage h hl
    rw [hg] at hst
    obtain ⟨g, hguard, hle⟩ := hst
    refine hsp.of_same rfl rfl (fun h' hl' => ?_)
    cases hl'
    intro g' hg'
    cases hguard.symm.trans hg'
    exact hle.trans ht
  | stamp h cached hl hg =>
    have hst := hsp.stage h hl
    rw [hg] at hst
    have hbefore : StampedBefore (minIssueInterval v) s.clock s.log := by
      intro a ha
      obtain ⟨g, g', hag, hguard, hle⟩ := hsp.guard a ha
      exact ⟨g, hag, by linarith [hst g' hguard]⟩
    refine ⟨fun h' hl' => ?_, fun a ha => ?_, hsp.pairs⟩
    · cases hl'
      exact ⟨s.clock, rfl, rfl, le_rfl, hbefore⟩
    · obtain ⟨g, hag, hle⟩ := hbefore a ha
      exact ⟨g, s.clock, hag, rfl, by linarith⟩
  | issueFailed h cached st _ _ => exact hsp.of_same rfl rfl (fun h' hl' => by cases hl')
  | issue h cached st i hl hg _ =>
    have hst := hsp.stage h hl
    rw [hg] at hst
    obtain ⟨g, hstamp, hguard, hclock, hbefore⟩ := hst
    have hlog : attempts (s.log ++ [.issued h.caller h.call i.accessToken st s.clock]) =
        attempts s.log ++ [(st, s.clock)] := attempts_append ..
    refine ⟨fun h' hl' => ?_, ?_, ?_⟩
    · cases hl'
      trivial
    · change ∀ a ∈ attempts (s.log ++ _), _
      rw [hlog]
      intro a ha
      rcases List.mem_append.1 ha with ha | ha
      · exact hsp.guard a ha
      · rw [List.mem_singleton.1 ha]
        exact ⟨g, g, hstamp, hguard, le_rfl⟩
    · change (attempts (s.log ++ _)).Pairwise _
      rw [hlog]
      refine List.pairwise_append.2 ⟨hsp.pairs, List.pairwise_singleton .., fun a ha b hb => ?_⟩
      rw [List.mem_singleton.1 hb]
      obtain ⟨g', hag, hle⟩ := hbefore a ha
      exact ⟨g', g, hag, hstamp, hle, hclock⟩
  | publish h cached i hl hg =>
    refine hsp.of_same rfl ?_ (fun h' hl' => by cases hl')
    simp [State.release, State.to, State.logged, attempts, Event.attempt]

end spacing

/-! ## Whole runs -/

section runs

variable {Caller : Type*} [DecidableEq Caller] [DecidableEq Token] [Field T] [LinearOrder T] {v : Vendor}
  {stores : Caller → Store T} {record : Option (TokenRecord Token T)} {s : State Caller Token T}

theorem always_known : (system v stores record).Always Known := by
  refine System.Inductive.always ⟨?_, fun _ _ => known_step⟩
  rintro s ⟨hrec, hlock, hout, htok, hlog⟩
  refine ⟨fun r hr => htok r (hrec ▸ hr), fun c t hc => ?_, fun h t hl => ?_, fun h cached hl => ?_,
    fun h cached i hl => ?_, fun c t r hm => ?_⟩
  · rw [hout c] at hc
    cases hc
  · rw [hlock] at hl
    cases hl
  · rw [hlock] at hl
    cases hl
  · rw [hlock] at hl
    cases hl
  · rw [hlog] at hm
    cases hm

theorem always_fresh (t : Token) : (system v stores record).Always (Fresh t) := by
  refine System.Always.strengthen always_known ?_ (fun _ _ hk hf => fresh_step hk hf)
  rintro s ⟨-, hlock, -, -, hlog⟩
  refine ⟨fun hpos => ?_, fun h cached i hl => ?_⟩
  · rw [hlog] at hpos
    exact absurd hpos (lt_irrefl 0)
  · rw [hlock] at hl
    cases hl

theorem always_issues (t : Token) :
    (system v stores record).Always (fun s => issues t s.log = storings t s.log + owed t s) := by
  refine System.Inductive.always ⟨?_, fun _ _ => issues_step⟩
  rintro s ⟨-, hlock, -, -, hlog⟩
  unfold owed
  rw [hlog, hlock]
  rfl

theorem always_once (t : Token) : (system v stores record).Always (Once t) := by
  refine System.Always.strengthen (always_fresh t) ?_ (fun _ _ hf ho => once_step hf ho)
  rintro s ⟨-, -, -, -, hlog⟩ -
  rw [hlog]
  exact ⟨Nat.zero_le _, fun hpos => absurd hpos (lt_irrefl 0)⟩

theorem always_told : (system v stores record).Always (Told record) := by
  refine System.Always.strengthen (I := fun s => Known s ∧ ∀ t, Fresh t s)
    (fun s hs => ⟨always_known s hs, fun t => always_fresh t s hs⟩) ?_ (fun _ _ h ht => told_step h.1 h.2 ht)
  rintro s ⟨hrec, -, -, -, hlog⟩
  refine ⟨by rw [hrec, hlog]; rfl, by rw [hlog]; exact History.along_nil _, ?_, ?_⟩
  · rw [hlog]
    cases record <;> simp
  · rw [hlog, hrec]
    intro g hg
    cases hr : record with
    | none => simp [hr] at hg
    | some r =>
      refine ⟨r, rfl, ?_⟩
      simp only [hr, Option.toList_some, List.map_cons, List.map_nil, List.filterMap_nil, List.append_nil,
        List.mem_singleton] at hg
      exact hg.le

theorem always_spaced [IsStrictOrderedRing T] (hv : 0 < (minIssueInterval v : T)) :
    (system v stores record).Always (Spaced v) := by
  refine System.Inductive.always ⟨?_, fun _ _ => spaced_step hv⟩
  rintro s ⟨-, hlock, -, -, hlog⟩
  refine ⟨fun h hl => ?_, ?_, ?_⟩
  · rw [hlock] at hl
    cases hl
  · rw [hlog]
    intro a ha
    cases ha
  · rw [hlog]
    exact .nil

end runs

namespace Sample

/-- A process that waits out the guard. -/
def patient : Store ℚ :=
  { lockTimeout := 90, expiryMargin := 60, unknownExpiryMaxAge := 3600, policy := .wait
    timeout_pos := by decide +kernel, margin_nonneg := by decide +kernel, age_nonneg := by decide +kernel }

/-- Nothing stored, nothing handed out. -/
def empty : State (Fin 2) Nat ℚ :=
  { clock := 100, record := none, guard := none, lock := none, outside := fun _ => .idle, tokens := [], log := [] }

/-- The record the first process publishes. -/
def first : TokenRecord Nat ℚ := { accessToken := 1, issuedAt := 101, expiresAt := none, generation := 1 }

/-- The record the second process publishes for the rejected token. -/
def second : TokenRecord Nat ℚ := { accessToken := 2, issuedAt := 161, expiresAt := none, generation := 2 }

/-- Two processes: the first issues, stamped at 100 and called at 101; the token is rejected, and the second process
waits for the guard and issues at 161, while the first waits for the lock to report the same token. -/
def log : List (Event (Fin 2) Nat ℚ) :=
  [.decided 0 .getOrIssue none false, .issued 0 .getOrIssue 1 (some 100) 101, .stored 0 .getOrIssue first,
    .returned 0 .getOrIssue first, .decided 1 (.replaceRejected 1) (some first) true,
    .issued 1 (.replaceRejected 1) 2 (some 161) 161, .stored 1 (.replaceRejected 1) second,
    .returned 1 (.replaceRejected 1) second, .decided 0 (.replaceRejected 1) (some second) true,
    .returned 0 (.replaceRejected 1) second]

theorem reachable_log : ∃ s, (system .dbsec (fun _ => patient) none).Reachable s ∧ s.log = log := by
  have h₀ : (system .dbsec (fun _ => patient) none).Reachable empty :=
    .start ⟨rfl, rfl, fun _ => rfl, fun r hr => (by cases hr), rfl⟩
  have h₁ := h₀.step (.fastMiss _ 0 100 rfl le_rfl (fun r hr => by cases hr))
  have h₂ := h₁.step (.lock _ 0 .getOrIssue rfl rfl)
  have h₃ := h₂.step (.miss _ ⟨0, .getOrIssue, .locked⟩ 100 rfl rfl le_rfl (fun r hr => by cases hr))
  have h₄ := h₃.step (.clear _ ⟨0, .getOrIssue, .guarding none⟩ none rfl rfl (by decide +kernel) (by decide +kernel))
  have h₅ := h₄.step (.stamp _ ⟨0, .getOrIssue, .stamping none⟩ none rfl rfl)
  have h₆ := h₅.step (.tick _ 101 (by decide +kernel))
  have h₇ := h₆.step (.issue _ ⟨0, .getOrIssue, .issuing none (some 100)⟩ none (some 100) ⟨1, none⟩ rfl rfl (by decide))
  have h₈ := h₇.step (.publish _ ⟨0, .getOrIssue, .publishing none ⟨1, none⟩⟩ none ⟨1, none⟩ rfl rfl)
  have h₉ := h₈.step (.next _ 0 (.inl ⟨first, rfl⟩))
  -- both processes report the token
  have h₁₀ := h₉.step (.reject _ 1 1 rfl (by decide))
  have h₁₁ := h₁₀.step (.reject _ 0 1 rfl (by decide))
  have h₁₂ := h₁₁.step (.lock _ 1 (.replaceRejected 1) rfl rfl)
  have h₁₃ := h₁₂.step (.miss _ ⟨1, .replaceRejected 1, .locked⟩ 101 rfl rfl le_rfl (fun r hr => by cases hr; rfl))
  have h₁₄ := h₁₃.step (.sleep _ ⟨1, .replaceRejected 1, .guarding (some first)⟩ (some first) rfl rfl
    (by decide +kernel) (by decide +kernel) rfl (by decide +kernel))
  have h₁₅ := h₁₄.step (.tick _ 161 (by decide +kernel))
  have h₁₆ := h₁₅.step (.wake _ _ (some first) _ rfl rfl (by decide +kernel))
  have h₁₇ := h₁₆.step (.stamp _ _ (some first) rfl rfl)
  have h₁₈ := h₁₇.step (.issue _ _ (some first) (some 161) ⟨2, none⟩ rfl rfl (by decide))
  have h₁₉ := h₁₈.step (.publish _ _ (some first) ⟨2, none⟩ rfl rfl)
  -- the first process finds the record replaced
  have h₂₀ := h₁₉.step (.lock _ 0 (.replaceRejected 1) rfl rfl)
  have h₂₁ := h₂₀.step (.hit _ ⟨0, .replaceRejected 1, .locked⟩ 161 second rfl rfl le_rfl rfl (by decide +kernel))
  exact ⟨_, h₂₁, by decide +kernel⟩

theorem keptUsable_log : KeptUsable 1 log := by
  unfold KeptUsable
  decide +kernel

end Sample

end TokenStore
