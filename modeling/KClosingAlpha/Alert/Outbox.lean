import KClosingAlpha.Alert.Redaction
import KClosingAlpha.Lib.Threads
import KClosingAlpha.Py.Json
import Mathlib
/-!
# Outbox — pages, and the directory of those no channel took (`tools/alerts.py`)

`dispatchPage` masks a page and sends it through both channels; what neither takes is written as one file of the
outbox, which `drainAlertOutbox` sends again, the oldest first, and deletes once a channel took it.  Dispatchers and
drainers share the directory without a lock.

A file is what `json.loads` gives of it.  The name of a file carries a new uuid: no file ever had it.  Of the log lines
the two verdicts on a page that no channel took are kept.
-/
namespace Outbox

open Py (Json)
open Redaction (Solid secretMinMaskChars redactSecrets maskValues)
open Regex (Text)

structure Settings where
  webhookUrl : Text
  gmailUser : Text
  gmailAppPassword : Text
  gmailTo : Text
  retryAttempts : Int

inductive Exn where
  | request
  | smtp
  | os
  | other
  deriving DecidableEq

/-- `except (requests.RequestException, smtplib.SMTPException, OSError)`. -/
def Exn.transport : Exn → Bool
  | .other => false
  | _ => true

/-- What a channel takes. -/
inductive Message where
  | webhook (text : Text)
  | email (subject body : Text)
  deriving DecidableEq

/-- The two log lines on a page that no channel took. -/
inductive Status where
  | outboxFailed
  | undelivered
  deriving DecidableEq

inductive Op where
  | alertSecretValues
  | post (m : Message)
  | sleep (factor : Nat)
  | isDir
  | mkdir
  | stamp
  | write (name : String) (payload : Json)
  | glob
  | read (name : String)
  | unlink (name : String)
  | log (status : Status) (subject : Text)

/-- The stamp of a file is its name and its time. -/
abbrev Ret : Op → Type
  | .alertSecretValues => List Text
  | .post _ | .mkdir | .write _ _ | .unlink _ => Except Exn Unit
  | .sleep _ | .log _ _ => Unit
  | .isDir => Bool
  | .stamp => String × Text
  | .glob => List String
  | .read _ => Option Json

abbrev Program := Prog Op Ret Exn

/-! ## Delivery -/

inductive ChannelOutcome where
  | notConfigured
  | delivered
  | failed
  deriving DecidableEq

/-- The tries that are left of `deliver_with_retry`, `k` of them made. -/
def tries (send : Program Bool) (k : Nat) : Nat → Program ChannelOutcome
  | 0 => pure .failed
  | n + 1 => send.attempt.bind fun
    | .ok true => pure .delivered
    | .ok false => pure .notConfigured
    | .error e =>
      if e.transport then
        if n = 0 then pure .failed else .call (.sleep (2 ^ k)) (fun _ => tries send (k + 1) n)
      else .raise e

/-- `deliver_with_retry`; the waits are multiples of its backoff. -/
def deliverWithRetry (send : Program Bool) (attempts : Int) : Program ChannelOutcome := tries send 0 attempts.toNat

/-- `_deliver_channel`. -/
def deliverChannel (cfg : Settings) (send : Program Bool) : Program Bool := do
  let outcome ← deliverWithRetry send cfg.retryAttempts
  pure (decide (outcome = .delivered))

/-- `post_webhook_text`. -/
def postWebhookText (cfg : Settings) (text : Text) : Program Bool :=
  if cfg.webhookUrl = [] then pure false
  else .call (.post (.webhook text)) (fun r => do
    .ofExcept r
    pure true)

/-- `send_email`. -/
def sendEmail (cfg : Settings) (subject body : Text) : Program Bool :=
  if cfg.gmailUser = [] ∨ cfg.gmailAppPassword = [] ∨ cfg.gmailTo = [] then pure false
  else .call (.post (.email subject body)) (fun r => do
    .ofExcept r
    pure true)

structure Results where
  webhook : Bool
  email : Bool
  deriving DecidableEq

/-- `any(results.values())`. -/
def Results.any (r : Results) : Bool := r.webhook || r.email

/-- `_deliver_now`. -/
def deliverNow (cfg : Settings) (subject body : Text) : Program Results := do
  let webhook ← deliverChannel cfg (postWebhookText cfg (subject ++ '\n' :: body))
  let email ← deliverChannel cfg (sendEmail cfg subject body)
  pure ⟨webhook, email⟩

/-! ## Pages -/

/-- `redact_secrets`, with as much fuel as the text needs. -/
def redact (isalnum : Char → Bool) (text : Text) (secrets : List Text) : Text :=
  (redactSecrets isalnum ((maskValues secrets text).length + 1) text secrets).getD []

def payloadOf (subject body : Text) (kind : String) (enqueuedAt : Text) : Json :=
  .obj [("subject", .str (String.ofList subject)), ("body", .str (String.ofList body)), ("kind", .str kind),
    ("enqueued_at", .str (String.ofList enqueuedAt))]

/-- `enqueue_undelivered`. -/
def enqueueUndelivered (subject body : Text) (kind : String) : Program String :=
  .call .mkdir fun made => do
    .ofExcept made
    .call .stamp fun stamp =>
      .call (.write stamp.1 (payloadOf subject body kind stamp.2)) fun written => do
        .ofExcept written
        pure stamp.1

/-- `_persist_undelivered`. -/
def persistUndelivered (subject body : Text) (kind : String) : Program Unit := do
  match ← (enqueueUndelivered subject body kind).attempt with
  | .ok _ => .call (.log .undelivered subject) pure
  | .error .os => .call (.log .outboxFailed subject) (fun _ => .call (.log .undelivered subject) pure)
  | .error e => .raise e

/-- `dispatch_page`. -/
def dispatchPage (isalnum : Char → Bool) (cfg : Settings) (subject body : Text) : Program Results :=
  .call .alertSecretValues fun secrets => do
    let results ← deliverNow cfg (redact isalnum subject secrets) (redact isalnum body secrets)
    if results.any then pure results
    else do
      persistUndelivered (redact isalnum subject secrets) (redact isalnum body secrets) "page"
      pure results

/-! ## Redelivery -/

/-- `_REDELIVERY_SUBJECT_PREFIX`. -/
def redeliverySubjectPrefix : Text := "[지연전송] ".toList

/-- `str(value)` of what stands under a key, whose default is the empty string. -/
def textOf (str : Json → Text) : Option Json → Text
  | none => []
  | some (.str s) => s.toList
  | some v => str v

/-- The subject and the body of a file that is an alert. -/
def alertOf : Json → Option (Text × Text)
  | .obj kvs =>
    match (Json.obj kvs).get? "subject", (Json.obj kvs).get? "body" with
    | some (.str subject), some (.str body) => some (subject.toList, body.toList)
    | _, _ => none
  | _ => none

def redeliveredSubject (isalnum : Char → Bool) (secrets : List Text) (subject : Text) : Text :=
  redeliverySubjectPrefix ++ redact isalnum subject secrets

def redeliveredBody (isalnum : Char → Bool) (str : Json → Text) (secrets : List Text) (body : Text) (payload : Json) :
    Text :=
  redact isalnum body secrets ++ "\noriginal_enqueued_at=".toList ++ textOf str (payload.get? "enqueued_at")

section drain

variable (isalnum : Char → Bool) (str : Json → Text) (cfg : Settings)

/-- The loop over the files; the number of those delivered. -/
def drainFiles (secrets : List Text) : Nat → List String → Program Nat
  | delivered, [] => pure delivered
  | delivered, path :: paths => .call (.read path) fun text =>
    match text.bind (fun payload => (alertOf payload).map (fun a => (a, payload))) with
    | none => pure delivered
    | some ((subject, body), payload) => do
      let results ← deliverNow cfg (redeliveredSubject isalnum secrets subject)
        (redeliveredBody isalnum str secrets body payload)
      if results.any then .call (.unlink path) fun gone => do
        .ofExcept gone
        drainFiles secrets (delivered + 1) paths
      else pure delivered

/-- `files[:max_items]`. -/
def firstItems (maxItems : Option Int) (files : List String) : List String :=
  match maxItems with
  | none => files
  | some (.ofNat n) => files.take n
  | some (.negSucc n) => files.take (files.length - (n + 1))

/-- `drain_alert_outbox`: how many were delivered, and how many remain. -/
def drainAlertOutbox (maxItems : Option Int) : Program (Nat × Nat) :=
  .call .isDir fun there =>
    if there then .call .alertSecretValues fun secrets => .call .glob fun files => do
      let delivered ← drainFiles isalnum str cfg secrets 0 (firstItems maxItems (files.mergeSort (fun a b => decide (a ≤ b))))
      .call .glob fun rest => pure (delivered, rest.length)
    else pure (0, 0)

end drain

/-! ## The world -/

/-- `used` is every name a file ever had, `kept` every file that was written, `sent` every message a channel took. -/
structure World where
  dir : Bool
  files : String → Option (Option Json)
  used : Set String
  kept : List (String × Json)
  sent : List Message
  logs : List (Status × Text)

def World.keep (w : World) (name : String) (payload : Json) : World :=
  { w with
    files := Function.update w.files name (some (some payload))
    used := insert name w.used
    kept := w.kept ++ [(name, payload)] }

def World.send (w : World) (m : Message) : World := { w with sent := w.sent ++ [m] }

def World.remove (w : World) (name : String) : World := { w with files := Function.update w.files name none }

/-- What the channels and the disk do with a call.  A send that fails may have gone out, a write that fails may be there,
and a file whose removal fails may be gone. -/
inductive Does : Prog.Exec Op Ret World
  | alertSecretValues (values : List Text) (w : World) : Does .alertSecretValues w values w
  | posted (m : Message) (w : World) : Does (.post m) w (.ok ()) (w.send m)
  | lost (m : Message) (e : Exn) (w : World) : Does (.post m) w (.error e) w
  | unsure (m : Message) (e : Exn) (w : World) : Does (.post m) w (.error e) (w.send m)
  | sleep (k : Nat) (w : World) : Does (.sleep k) w () w
  | isDir (w : World) : Does .isDir w w.dir w
  | mkdir (w : World) : Does .mkdir w (.ok ()) { w with dir := true }
  | noDir (e : Exn) (w : World) : Does .mkdir w (.error e) w
  | stamp (name : String) (at' : Text) (w : World) : Does .stamp w (name, at') w
  | written (name : String) (payload : Json) (w : World) (new : name ∉ w.used) :
      Does (.write name payload) w (.ok ()) (w.keep name payload)
  | unwritten (name : String) (payload : Json) (e : Exn) (w : World) : Does (.write name payload) w (.error e) w
  | unsynced (name : String) (payload : Json) (e : Exn) (w : World) (new : name ∉ w.used) :
      Does (.write name payload) w (.error e) (w.keep name payload)
  | glob (names : List String) (w : World) (all : ∀ n, n ∈ names ↔ w.files n ≠ none) (once : names.Nodup) :
      Does .glob w names w
  | read (name : String) (payload : Json) (w : World) (there : w.files name = some (some payload)) :
      Does (.read name) w (some payload) w
  | unreadable (name : String) (w : World) : Does (.read name) w none w
  | unlinked (name : String) (w : World) : Does (.unlink name) w (.ok ()) (w.remove name)
  | linked (name : String) (e : Exn) (w : World) : Does (.unlink name) w (.error e) w
  | unsureLink (name : String) (e : Exn) (w : World) : Does (.unlink name) w (.error e) (w.remove name)
  | log (status : Status) (subject : Text) (w : World) :
      Does (.log status subject) w () { w with logs := w.logs ++ [(status, subject)] }

end Outbox
