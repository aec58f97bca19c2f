import KClosingAlpha.Lib.Prog
import KClosingAlpha.Lib.System
import Mathlib.Data.List.Count
/-!
# Transport — the request loop the vendors' clients share (`send_with_auth_retry`)

One logical request: admission before every send, one refresh of a rejected token, and waits while the vendor
throttles.  The vendor's classifiers are parameters that may raise, and so are the answers of the host.  A call keeps
its history, with the token each refresh left behind; while it waits for anything, peers may rotate the client's token.
-/
namespace Transport

variable {ε Token Body Wait : Type}

/-- The response's `headers` attribute: a `dict`, something with `items` that `dict` converts or not, or neither. -/
inductive RawHeaders where
  | mapping (l : List (String × String))
  | items (converted : Option (List (String × String)))
  | other

/-- What a decoded exchange leaves of the vendor's response object. -/
structure BrokerResponse (Body : Type) where
  body : Body
  status : Option Int
  headers : RawHeaders

structure TransportResponse (Body : Type) where
  body : Body
  headers : List (String × String)
  status : Int

/-- The end of `read_response`, once the body is decoded. -/
def readResponse (resp : BrokerResponse Body) : TransportResponse Body where
  body := resp.body
  headers := match resp.headers with
    | .mapping l => l
    | .items converted => converted.getD []
    | .other => []
  status := match resp.status with
    | none => 200
    | some status => if status = 0 then 200 else status

/-- `RetryPolicy`, as its constructor leaves it. -/
structure RetryPolicy (ε Body Wait : Type) where
  maxAttempts : Nat
  rateLimitWait : Nat → TransportResponse Body → Except ε (Option Wait)
  positive : 1 ≤ maxAttempts

/-- `__post_init__`. -/
def RetryPolicy.make (maxAttempts : Int) (rateLimitWait : Nat → TransportResponse Body → Except ε (Option Wait)) :
    Except String (RetryPolicy ε Body Wait) :=
  if h : maxAttempts < 1 then .error s!"max_attempts must be >= 1: {maxAttempts}"
  else .ok ⟨maxAttempts.toNat, rateLimitWait, by omega⟩

/-- What a call raises: what one of its callbacks raised, or the assertion behind the loop. -/
inductive Raised (ε : Type) where
  | callback (e : ε)
  | unreachable

inductive Op (Token Wait : Type) where
  | acquire
  | currentToken
  /-- `read_response(open_request(token))`. -/
  | send (token : Token)
  | refresh (token : Token)
  | sleep (wait : Wait)

def Ret (ε Token Body Wait : Type) : Op Token Wait → Type
  | .acquire => Except ε Unit
  | .currentToken => Token
  | .send _ => Except ε (BrokerResponse Body)
  | .refresh _ => Except ε Unit
  | .sleep _ => Except ε Unit

abbrev Action (ε Token Body Wait α : Type) := Prog (Op Token Wait) (Ret ε Token Body Wait) (Raised ε) α

/-- An answer that may be an exception of the callback. -/
def orRaise {α : Type} : Except ε α → Action ε Token Body Wait α
  | .ok a => .ret a
  | .error e => .raise (.callback e)

def acquire : Action ε Token Body Wait Unit := .call .acquire orRaise

def currentToken : Action ε Token Body Wait Token := .call .currentToken .ret

def refresh (token : Token) : Action ε Token Body Wait Unit := .call (.refresh token) orRaise

def sleep (wait : Wait) : Action ε Token Body Wait Unit := .call (.sleep wait) orRaise

def send (token : Token) : Action ε Token Body Wait (TransportResponse Body) :=
  .call (.send token) (fun answer => (orRaise answer).bind (fun resp => .ret (readResponse resp)))

section program

variable (policy : RetryPolicy ε Body Wait) (isAuthRejected : TransportResponse Body → Except ε Bool)

/-- The end of a turn: the response, or after a wait what `next` does. -/
def settle (attempt : Nat) (response : TransportResponse Body)
    (next : Action ε Token Body Wait (TransportResponse Body)) : Action ε Token Body Wait (TransportResponse Body) := do
  match ← orRaise (policy.rateLimitWait attempt response) with
  | none => return response
  | some wait =>
    if attempt < policy.maxAttempts - 1 then
      sleep wait
      next
    else return response

/-- The loop, with `left` of its attempts to go. -/
def loop : Nat → Nat → Bool → Action ε Token Body Wait (TransportResponse Body)
  | 0, _, _ => .raise .unreachable
  | left + 1, attempt, refreshed => do
    acquire
    let sentToken ← currentToken
    let response ← send sentToken
    let rejected ← orRaise (isAuthRejected response)
    if rejected && !refreshed then
      refresh sentToken
      acquire
      let token ← currentToken
      let response ← send token
      let rejected ← orRaise (isAuthRejected response)
      if rejected then return response
      settle policy attempt response (loop left (attempt + 1) true)
    else settle policy attempt response (loop left (attempt + 1) refreshed)

/-- `send_with_auth_retry`. -/
def sendWithAuthRetry : Action ε Token Body Wait (TransportResponse Body) :=
  loop policy isAuthRejected policy.maxAttempts 0 false

end program

/-! ## One call and its history -/

/-- One callback of a call and its answer; a refresh with the token it left the client. -/
inductive Event (ε Token Body Wait : Type) where
  | acquired (answer : Except ε Unit)
  | read (token : Token)
  | sent (token : Token) (answer : Except ε (BrokerResponse Body))
  | refreshed (token : Token) (answer : Except ε Unit) (left : Token)
  | slept (wait : Wait) (answer : Except ε Unit)

def Event.isSend : Event ε Token Body Wait → Bool
  | .sent _ _ => true
  | _ => false

def Event.isRefresh : Event ε Token Body Wait → Bool
  | .refreshed _ _ _ => true
  | _ => false

/-- The client's token, and what the call has done. -/
structure World (ε Token Body Wait : Type) where
  token : Token
  log : List (Event ε Token Body Wait)

/-- An answer may be anything, but `current_token`'s is the client's token.  While a call waits, `peers` may change
that token any number of times; a refresh leaves it any. -/
def Does (peers : Token → Token → Prop) : Prog.Exec (Op Token Wait) (Ret ε Token Body Wait) (World ε Token Body Wait)
  | .acquire, w, answer, w' => Relation.ReflTransGen peers w.token w'.token ∧ w'.log = w.log ++ [.acquired answer]
  | .currentToken, w, token, w' => token = w.token ∧ w'.token = w.token ∧ w'.log = w.log ++ [.read token]
  | .send token, w, answer, w' => Relation.ReflTransGen peers w.token w'.token ∧ w'.log = w.log ++ [.sent token answer]
  | .refresh token, w, answer, w' => w'.log = w.log ++ [.refreshed token answer w'.token]
  | .sleep wait, w, answer, w' => Relation.ReflTransGen peers w.token w'.token ∧ w'.log = w.log ++ [.slept wait answer]

/-- The token the last refresh left the client. -/
def leftBy (log : List (Event ε Token Body Wait)) : Option Token :=
  History.replay (fun | .refreshed _ _ left => some left | _ => none) none log

/-- What its past allows an event to be.  A send follows directly on an admission of its own and carries the token read
then, which is the one a refresh left unless peers have rotated it since; a refresh is the only one, follows directly on
a rejected send and carries its token. -/
def Allowed (peers : Token → Token → Prop) (maxAttempts : Nat) (isAuthRejected : TransportResponse Body → Except ε Bool)
    (past : List (Event ε Token Body Wait)) : Event ε Token Body Wait → Prop
  | .sent token _ => (∃ before, past = before ++ [.acquired (.ok ()), .read token]) ∧
      past.countP Event.isSend ≤ maxAttempts ∧ ∀ left, leftBy past = some left → Relation.ReflTransGen peers left token
  | .refreshed token _ _ => past.countP Event.isRefresh = 0 ∧
      ∃ before resp, past = before ++ [.sent token (.ok resp)] ∧ isAuthRejected (readResponse resp) = .ok true
  | _ => True

/-- A log whose last event is an answered send, and the response that gave. -/
def Answered (log : List (Event ε Token Body Wait)) (token : Token) (response : TransportResponse Body) : Prop :=
  ∃ before resp, log = before ++ [.sent token (.ok resp)] ∧ response = readResponse resp

/-- How a call ends: with the answer of its last send, or with what a callback raised. -/
def Outcome (log : List (Event ε Token Body Wait)) : Except (Raised ε) (TransportResponse Body) → Prop
  | .ok response => ∃ token, Answered log token response
  | .error raised => raised ≠ .unreachable

section keeps

variable {peers : Token → Token → Prop} {policy : RetryPolicy ε Body Wait}
variable {isAuthRejected : TransportResponse Body → Except ε Bool} {α β : Type} {w w' : World ε Token Body Wait}

/-- Every event stands where its past allows it, and the client's token is the one the last refresh left or newer. -/
structure Sound (peers : Token → Token → Prop) (maxAttempts : Nat)
    (isAuthRejected : TransportResponse Body → Except ε Bool) (w : World ε Token Body Wait) : Prop where
  along : History.Along (Allowed peers maxAttempts isAuthRejected) w.log
  fresh : ∀ left, leftBy w.log = some left → Relation.ReflTransGen peers left w.token

/-- From `w` a program stays sound; what it returns satisfies `φ`, and it raises only what a callback raised. -/
def Spec (peers : Token → Token → Prop) (maxAttempts : Nat) (isAuthRejected : TransportResponse Body → Except ε Bool)
    (p : Action ε Token Body Wait α) (φ : α → World ε Token Body Wait → Prop) (w : World ε Token Body Wait) : Prop :=
  Prog.wpx (Does peers) (fun _ w' => Sound peers maxAttempts isAuthRejected w') p
    (fun o w' => (∀ a, o = .ok a → φ a w') ∧ ∀ e, o = .error e → e ≠ .unreachable) w

theorem spec_ret {n : Nat} {a : α} {φ : α → World ε Token Body Wait → Prop} (h : φ a w) :
    Spec peers n isAuthRejected (.ret a) φ w := by
  refine ⟨fun b hb => ?_, fun e he => by cases he⟩
  cases hb
  exact h

theorem spec_orRaise {n : Nat} {x : Except ε α} {φ : α → World ε Token Body Wait → Prop} (h : ∀ a, x = .ok a → φ a w) :
    Spec peers n isAuthRejected (orRaise x) φ w := by
  cases x with
  | ok a => exact spec_ret (h a rfl)
  | error e => exact ⟨fun a ha => (by cases ha), fun e' he => (by cases he; simp)⟩

theorem spec_bind_orRaise {n : Nat} {x : Except ε α} {f : α → Action ε Token Body Wait β}
    {ψ : β → World ε Token Body Wait → Prop} (hf : ∀ a, x = .ok a → Spec peers n isAuthRejected (f a) ψ w) :
    Spec peers n isAuthRejected ((orRaise x).bind f) ψ w := by
  cases x with
  | ok a => exact hf a rfl
  | error e => exact ⟨fun a ha => (by cases ha), fun e' he => (by cases he; simp)⟩

theorem spec_bind {n : Nat} {p : Action ε Token Body Wait α} {f : α → Action ε Token Body Wait β}
    {φ : α → World ε Token Body Wait → Prop} {ψ : β → World ε Token Body Wait → Prop}
    (h : Spec peers n isAuthRejected p φ w) (hf : ∀ a w', φ a w' → Spec peers n isAuthRejected (f a) ψ w') :
    Spec peers n isAuthRejected (p.bind f) ψ w := by
  apply Prog.wpx_bind _ h
  · exact fun a w' h' => hf a w' (h'.1 a rfl)
  · exact fun e w' h' => ⟨fun a ha => (by cases ha), fun e' he => h'.2 e' (by cases he; rfl)⟩

/-- One more event, allowed, where the token moved only as peers move it. -/
theorem Sound.snoc {n : Nat} (h : Sound peers n isAuthRejected w) {e : Event ε Token Body Wait}
    (hlog : w'.log = w.log ++ [e]) (he : Allowed peers n isAuthRejected w.log e) (hrefresh : e.isRefresh = false)
    (htoken : Relation.ReflTransGen peers w.token w'.token) : Sound peers n isAuthRejected w' := by
  refine ⟨hlog ▸ h.along.snoc he, fun left hleft => ?_⟩
  have hsame : leftBy w'.log = leftBy w.log := by
    rw [hlog, leftBy, History.replay_snoc]
    cases e <;> first | rfl | cases hrefresh
  exact (h.fresh left (hsame ▸ hleft)).trans htoken

theorem spec_acquire {n : Nat} (h : Sound peers n isAuthRejected w) :
    Spec peers n isAuthRejected acquire
      (fun _ w' => Sound peers n isAuthRejected w' ∧ w'.log = w.log ++ [.acquired (.ok ())]) w := by
  intro answer w' hdoes
  have hs : Sound peers n isAuthRejected w' := h.snoc hdoes.2 trivial rfl hdoes.1
  refine ⟨hs, spec_orRaise (fun u hu => ⟨hs, ?_⟩)⟩
  rw [hdoes.2, hu]

theorem spec_currentToken {n : Nat} (h : Sound peers n isAuthRejected w) :
    Spec peers n isAuthRejected currentToken
      (fun token w' => Sound peers n isAuthRejected w' ∧ token = w'.token ∧ w'.log = w.log ++ [.read token]) w := by
  intro token w' hdoes
  have hs : Sound peers n isAuthRejected w' := h.snoc hdoes.2.2 trivial rfl (hdoes.2.1 ▸ .refl)
  exact ⟨hs, spec_ret ⟨hs, hdoes.1.trans hdoes.2.1.symm, hdoes.2.2⟩⟩

theorem spec_sleep {n : Nat} (h : Sound peers n isAuthRejected w) (wait : Wait) :
    Spec peers n isAuthRejected (sleep wait)
      (fun _ w' => Sound peers n isAuthRejected w' ∧ w'.log = w.log ++ [.slept wait (.ok ())]) w := by
  intro answer w' hdoes
  have hs : Sound peers n isAuthRejected w' := h.snoc hdoes.2 trivial rfl hdoes.1
  refine ⟨hs, spec_orRaise (fun u hu => ⟨hs, ?_⟩)⟩
  rw [hdoes.2, hu]

/-- **An admitted send**: admission, the token, and the send that carries it. -/
theorem spec_admitted {n : Nat} (h : Sound peers n isAuthRejected w) (hsends : w.log.countP Event.isSend ≤ n)
    {f : Token → TransportResponse Body → Action ε Token Body Wait α} {ψ : α → World ε Token Body Wait → Prop}
    (hf : ∀ token response w', Sound peers n isAuthRejected w' → Answered w'.log token response →
      w'.log.countP Event.isSend = w.log.countP Event.isSend + 1 →
      w'.log.countP Event.isRefresh = w.log.countP Event.isRefresh →
      Spec peers n isAuthRejected (f token response) ψ w') :
    Spec peers n isAuthRejected
      (acquire.bind (fun _ => currentToken.bind (fun token => (send token).bind (fun response => f token response)))) ψ
      w := by
  refine spec_bind (spec_acquire h) (fun _ w₁ h₁ => ?_)
  refine spec_bind (spec_currentToken h₁.1) (fun token w₂ h₂ => ?_)
  have hpast : w₂.log = w.log ++ [.acquired (.ok ()), .read token] := by rw [h₂.2.2, h₁.2]; simp
  intro answer w₃ hdoes
  have hs : Sound peers n isAuthRejected w₃ := by
    refine h₂.1.snoc hdoes.2 ⟨⟨w.log, hpast⟩, ?_, ?_⟩ rfl hdoes.1
    · simpa [hpast, Event.isSend] using hsends
    · exact fun left hleft => h₂.2.1 ▸ h₂.1.fresh left hleft
  refine ⟨hs, ?_⟩
  cases answer with
  | error e => exact ⟨fun a ha => (by cases ha), fun e' he => (by cases he; simp)⟩
  | ok resp =>
    refine hf token (readResponse resp) w₃ hs ⟨w₂.log, resp, hdoes.2, rfl⟩ ?_ ?_
    · simp [hdoes.2, hpast, Event.isSend]
    · simp [hdoes.2, hpast, Event.isRefresh]

theorem spec_refresh {n : Nat} (h : Sound peers n isAuthRejected w) (hnone : w.log.countP Event.isRefresh = 0)
    {token : Token} {response : TransportResponse Body} (hlast : Answered w.log token response)
    (hrejected : isAuthRejected response = .ok true) :
    Spec peers n isAuthRejected (refresh token) (fun _ w' => Sound peers n isAuthRejected w' ∧
      w'.log.countP Event.isSend = w.log.countP Event.isSend) w := by
  intro answer w' hdoes
  obtain ⟨before, resp, hlog, rfl⟩ := hlast
  change w'.log = w.log ++ [.refreshed token answer w'.token] at hdoes
  have hs : Sound peers n isAuthRejected w' := by
    refine ⟨?_, fun left hleft => ?_⟩
    · rw [hdoes]
      exact h.along.snoc ⟨hnone, before, resp, hlog, hrejected⟩
    · rw [hdoes, leftBy, History.replay_snoc] at hleft
      cases hleft
      exact .refl
  exact ⟨hs, spec_orRaise (fun u _ => ⟨hs, by simp [hdoes, Event.isSend]⟩)⟩

def Returns (response : TransportResponse Body) (w : World ε Token Body Wait) : Prop :=
  ∃ token, Answered w.log token response

theorem spec_settle {n attempt : Nat} {token : Token} {response : TransportResponse Body}
    {next : Action ε Token Body Wait (TransportResponse Body)} (h : Sound peers n isAuthRejected w)
    (hlast : Answered w.log token response)
    (hnext : attempt < policy.maxAttempts - 1 → ∀ w' wait, Sound peers n isAuthRejected w' →
      w'.log = w.log ++ [.slept wait (.ok ())] → Spec peers n isAuthRejected next Returns w') :
    Spec peers n isAuthRejected (settle policy attempt response next) Returns w := by
  refine spec_bind_orRaise (fun wait _ => ?_)
  cases wait with
  | none => exact spec_ret ⟨token, hlast⟩
  | some wait =>
    dsimp only
    split_ifs with hleft
    · exact spec_bind (spec_sleep h wait) (fun _ w₁ h₁ => hnext hleft w₁ wait h₁.1 h₁.2)
    · exact spec_ret ⟨token, hlast⟩

/-- **The loop keeps the call sound**, by induction on the attempts that are left: every attempt so far has sent once,
the refresh once more. -/
theorem spec_loop : ∀ (left attempt : Nat) (refreshed : Bool) (w : World ε Token Body Wait),
    Sound peers policy.maxAttempts isAuthRejected w → 0 < left → attempt + left = policy.maxAttempts →
    w.log.countP Event.isSend ≤ attempt + refreshed.toNat →
    (refreshed = false → w.log.countP Event.isRefresh = 0) →
    Spec peers policy.maxAttempts isAuthRejected (loop policy isAuthRejected left attempt refreshed) Returns w
  | 0, _, _, _, _, hpos, _, _, _ => absurd hpos (Nat.lt_irrefl 0)
  | left + 1, attempt, refreshed, w, h, _, hleft, hsends, hnone => by
    have hbool : refreshed.toNat ≤ 1 := Bool.toNat_le refreshed
    refine spec_admitted h (by omega) (fun token response w₁ h₁ hlast₁ hsends₁ hrefresh₁ => ?_)
    refine spec_bind_orRaise (fun rejected hrejected => ?_)
    by_cases hauth : (rejected && !refreshed) = true
    · -- the one refresh: its replay is a second send of the same attempt
      obtain ⟨rfl, rfl⟩ : rejected = true ∧ refreshed = false := by simpa using hauth
      refine spec_bind (spec_refresh h₁ (hrefresh₁.trans (hnone rfl)) hlast₁ hrejected) (fun _ w₂ h₂ => ?_)
      simp only [Bool.toNat_false] at hsends
      refine spec_admitted h₂.1 (by omega) (fun token' response' w₃ h₃ hlast₃ hsends₃ _ => ?_)
      refine spec_bind_orRaise (fun again _ => ?_)
      cases again with
      | true => exact spec_ret ⟨token', hlast₃⟩
      | false =>
        refine spec_settle h₃ hlast₃ (fun hmore w₄ wait h₄ hlog₄ => ?_)
        refine spec_loop left (attempt + 1) true w₄ h₄ (by omega) (by omega) ?_ (fun hfalse => by cases hfalse)
        simp only [hlog₄, List.countP_append, Bool.toNat_true]
        simp [Event.isSend]
        omega
    · simp only [Bool.not_eq_true] at hauth
      simp only [hauth, Bool.false_eq_true, if_false]
      refine spec_settle h₁ hlast₁ (fun hmore w₂ wait h₂ hlog₂ => ?_)
      refine spec_loop left (attempt + 1) refreshed w₂ h₂ (by omega) (by omega) ?_ (fun hfalse => ?_)
      · simp only [hlog₂, List.countP_append]
        simp [Event.isSend]
        omega
      · simp [hlog₂, Event.isRefresh, hrefresh₁, hnone hfalse]

/-- A call starts with a history of its own. -/
def World.start (token : Token) : World ε Token Body Wait := ⟨token, []⟩

theorem sound_start {n : Nat} (token : Token) :
    Sound peers n isAuthRejected (.start token : World ε Token Body Wait) :=
  ⟨History.along_nil _, fun left hleft => by cases hleft⟩

theorem spec_sendWithAuthRetry (token : Token) :
    Spec peers policy.maxAttempts isAuthRejected (sendWithAuthRetry policy isAuthRejected) Returns (.start token) := by
  refine spec_loop _ 0 false _ (sound_start token) policy.positive (by omega) ?_ ?_
  · simp [World.start]
  · exact fun _ => rfl

theorem sound_of_reach {token : Token}
    (h : Prog.Reach (Does peers) (sendWithAuthRetry policy isAuthRejected) (.start token) w) :
    Sound peers policy.maxAttempts isAuthRejected w := by
  cases Prog.wpx_reach (spec_sendWithAuthRetry token) h with
  | refl => exact sound_start token
  | tail _ hlast => exact hlast

/-- Sends that each come after at most `n` others are at most one more. -/
theorem countP_of_along {q : Event ε Token Body Wait → Bool} {P : List (Event ε Token Body Wait) → _ → Prop} {n : Nat}
    (hq : ∀ past e, P past e → q e = true → past.countP q ≤ n) {log : List (Event ε Token Body Wait)}
    (h : History.Along P log) : log.countP q ≤ n + 1 := by
  induction log using List.reverseRecOn with
  | nil => simp
  | append_singleton log e ih =>
    by_cases he : q e = true
    · have := hq log e h.last he
      simp [he]
      omega
    · simpa [he] using ih h.init

theorem sends_le (h : Sound peers policy.maxAttempts isAuthRejected w) :
    w.log.countP Event.isSend ≤ policy.maxAttempts + 1 := by
  refine countP_of_along (fun past e he hsend => ?_) h.along
  cases e with
  | sent token answer => exact he.2.1
  | _ => cases hsend

theorem refreshes_le (h : Sound peers policy.maxAttempts isAuthRejected w) : w.log.countP Event.isRefresh ≤ 1 := by
  refine countP_of_along (fun past e he hrefresh => ?_) h.along
  cases e with
  | refreshed token answer left => exact he.1.le
  | _ => cases hrefresh

/-- **One logical request is bounded and refreshes the token it was rejected with.**  Wherever a call stands it has sent
at most once more than its attempts and refreshed at most once, every send and refresh where its past allows it; where
nobody else rotates the token, each send after a refresh carries what the refresh left; and a call that ends gives the
answer of its last send, or what a callback raised. -/
theorem sendWithAuthRetry_bounded (peers : Token → Token → Prop) (policy : RetryPolicy ε Body Wait)
    (isAuthRejected : TransportResponse Body → Except ε Bool) (token : Token) :
    (∀ w, Prog.Reach (Does peers) (sendWithAuthRetry policy isAuthRejected) (.start token) w →
      w.log.countP Event.isSend ≤ policy.maxAttempts + 1 ∧ w.log.countP Event.isRefresh ≤ 1 ∧
      History.Along (Allowed peers policy.maxAttempts isAuthRejected) w.log) ∧
    (∀ w, Prog.Reach (Does fun _ _ => False) (sendWithAuthRetry policy isAuthRejected) (.start token) w →
      ∀ past later sent answer left, w.log = past ++ .sent sent answer :: later → leftBy past = some left → sent = left) ∧
    (∀ o w, Prog.Ends (Does peers) (sendWithAuthRetry policy isAuthRejected) (.start token) o w → Outcome w.log o) := by
  refine ⟨fun w hw => ?_, fun w hw past later sent answer left hlog hleft => ?_, fun o w hw => ?_⟩
  · have hs := sound_of_reach hw
    exact ⟨sends_le hs, refreshes_le hs, hs.along⟩
  · have hsent := (sound_of_reach hw).along past _ later hlog
    cases hsent.2.2 left hleft with
    | refl => rfl
    | tail _ hpeer => exact hpeer.elim
  · have hpost := Prog.wpx_ends (spec_sendWithAuthRetry token) hw
    cases o with
    | ok response => exact hpost.1 response rfl
    | error raised => exact hpost.2 raised rfl

end keeps

/-! ## A call that is throttled, rejected and answered -/

/-- Two attempts, one second apart while the status is 429. -/
def twice : RetryPolicy Unit Unit Nat := ⟨2, fun _ response => .ok (if response.status = 429 then some 1 else none), by decide⟩

/-- The first send is throttled, the second rejected, the third answered; a refresh leaves the next number. -/
def answers : (op : Op Nat Nat) → World Unit Nat Unit Nat → Ret Unit Nat Unit Nat op × World Unit Nat Unit Nat
  | .acquire, w => (.ok (), { w with log := w.log ++ [.acquired (.ok ())] })
  | .currentToken, w => (w.token, { w with log := w.log ++ [.read w.token] })
  | .send token, w =>
    let status : Int := match w.log.countP Event.isSend with
      | 0 => 429
      | 1 => 401
      | _ => 200
    let resp : BrokerResponse Unit := ⟨(), some status, .other⟩
    (.ok resp, { w with log := w.log ++ [.sent token (.ok resp)] })
  | .refresh token, w => (.ok (), { token := w.token + 1, log := w.log ++ [.refreshed token (.ok ()) (w.token + 1)] })
  | .sleep wait, w => (.ok (), { w with log := w.log ++ [.slept wait (.ok ())] })

theorem answers_does (op : Op Nat Nat) (w : World Unit Nat Unit Nat) :
    Does (fun _ _ => False) op w (answers op w).1 (answers op w).2 := by
  cases op with
  | acquire => exact ⟨.refl, rfl⟩
  | currentToken => exact ⟨rfl, rfl, rfl⟩
  | send token => exact ⟨.refl, rfl⟩
  | refresh token => rfl
  | sleep wait => exact ⟨.refl, rfl⟩

def unauthorized (response : TransportResponse Unit) : Except Unit Bool := .ok (response.status = 401)

def thrice : Except (Raised Unit) (TransportResponse Unit) × World Unit Nat Unit Nat :=
  Prog.run answers (sendWithAuthRetry twice unauthorized) (.start 7)

theorem thrice_ends :
    Prog.Ends (Does fun _ _ => False) (sendWithAuthRetry twice unauthorized) (.start 7) thrice.1 thrice.2 :=
  Prog.run_ends answers_does _ _

theorem sendWithAuthRetry_thrice :
    thrice.2.log.countP Event.isSend = 3 ∧ thrice.2.log.countP Event.isSend ≤ 3 ∧
      thrice.2.log.countP Event.isRefresh ≤ 1 ∧ Outcome thrice.2.log thrice.1 := by
  have h := sendWithAuthRetry_bounded (fun _ _ => False) twice unauthorized 7
  have hreach := h.1 _ thrice_ends.reach
  exact ⟨by decide, hreach.1, hreach.2.1, h.2.2 _ _ thrice_ends⟩

end Transport
