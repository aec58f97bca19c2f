import KClosingAlpha.Alert.OutboxRuns
/-!
# OutboxDrain — the order of redelivery, and what the channels may see

A drain that nobody disturbs takes the files in the order of their names and stops at the first that is not taken
(`drain_oldest_first`).  What a page gives to the channels, to the outbox and to the log is masked, and so is what a
drain sends, up to the time at its end (`job_hides_secrets`).
-/
namespace Outbox

open Py (Json)
open Regex (Text)
open Redaction (Solid secretMinMaskChars redactSecrets redactSecrets_hides)
open Prog (Ends)

variable {isalnum : Char → Bool} {str : Json → Text} {cfg : Settings} {w w' : World} {subject body : Text}

/-! ## The order -/

/-- A delivery leaves the files. -/
theorem deliverNow_ends {o : Except Exn Results} (h : Ends Does (deliverNow cfg subject body) w o w') :
    w'.files = w.files ∧ w.sent ⊆ w'.sent ∧ ∀ r, o = .ok r → r.any = true → Took w' subject body := by
  have hsend : Sending Eq (fun _ _ => True) (fun v => v.files = w.files ∧ w.sent ⊆ v.sent) := by
    refine ⟨?_, fun _ _ => trivial, fun v m hv => ⟨trivial, hv.1, fun m' hm' => ?_⟩⟩
    · rintro v _ rfl hv
      exact ⟨fun _ h => h, hv⟩
    · exact List.mem_append_left _ (hv.2 hm')
  obtain ⟨⟨hfiles, hsent⟩, htook⟩ := Prog.rg_ends (fun _ => rfl) (rg_deliverNow hsend subject body ⟨rfl, fun _ h => h⟩) h
  exact ⟨hfiles, hsent, htook⟩

variable (isalnum str) in
/-- The first `k` files went after a channel took them, and the others stayed. -/
structure Drained (paths : List String) (k : Nat) (w w' : World) : Prop where
  le : k ≤ paths.length
  sent : w.sent ⊆ w'.sent
  files : ∀ n, w'.files n = if n ∈ paths.take k then none else w.files n
  taken : ∀ n ∈ paths.take k, ∃ p, w.files n = some (some p) ∧ Redelivered isalnum str w' p

theorem Drained.start (paths : List String) (w : World) : Drained isalnum str paths 0 w w :=
  ⟨Nat.zero_le _, fun _ h => h, fun n => by simp, fun n hn => by simp at hn⟩

/-- One file more, before the others. -/
theorem Drained.cons {path : String} {paths : List String} {k : Nat} {payload : Json} {v : World}
    (hnew : path ∉ paths) (hthere : w.files path = some (some payload)) (hfiles : v.files = w.files)
    (hsent : w.sent ⊆ v.sent) (htook : Redelivered isalnum str v payload)
    (h : Drained isalnum str paths k (v.remove path) w') : Drained isalnum str (path :: paths) (k + 1) w w' := by
  have hother : ∀ n, n ≠ path → (v.remove path).files n = w.files n := fun n hne => by
    rw [← hfiles]
    exact Function.update_of_ne hne _ _
  refine ⟨Nat.succ_le_succ h.le, fun _ hm => h.sent (hsent hm), fun n => ?_, fun n hn => ?_⟩
  · rw [h.files n, List.take_succ_cons]
    by_cases heq : n = path
    · have hgone : (v.remove path).files path = none := Function.update_self _ _ _
      simp [hgone, heq]
    · simp [hother n heq, heq]
  · rcases List.mem_cons.1 hn with rfl | hn
    · exact ⟨payload, hthere, htook.mono h.sent⟩
    · obtain ⟨p, hp, hred⟩ := h.taken n hn
      have hne : n ≠ path := fun heq => hnew (heq ▸ List.mem_of_mem_take hn)
      exact ⟨p, by rw [← hother n hne]; exact hp, hred⟩

theorem drainFiles_ends {secrets : List Text} : ∀ {paths : List String} {delivered d : Nat} {w : World}, paths.Nodup →
    Ends Does (drainFiles isalnum str cfg secrets delivered paths) w (.ok d) w' →
      ∃ k, d = delivered + k ∧ Drained isalnum str paths k w w'
  | [], delivered, d, w, _, h => by
    cases h
    exact ⟨0, rfl, .start [] _⟩
  | path :: paths, delivered, d, w, hnodup, h => by
    rw [drainFiles] at h
    cases h with
    | call text hop hk =>
      cases hop with
      | unreadable =>
        cases hk
        exact ⟨0, rfl, .start _ _⟩
      | read _ payload _ there =>
        cases ha : alertOf payload with
        | none =>
          simp only [Option.bind_some, ha, Option.map_none] at hk
          cases hk
          exact ⟨0, rfl, .start _ _⟩
        | some a =>
          simp only [Option.bind_some, ha, Option.map_some] at hk
          obtain ⟨r, v, hnow, hrest⟩ := Ends.of_bind hk
          obtain ⟨hfiles, hsent, htook⟩ := deliverNow_ends hnow
          by_cases hany : r.any = true
          · rw [if_pos hany] at hrest
            cases hrest with
            | call gone hop hk =>
              cases hop with
              | unlinked =>
                obtain ⟨k, rfl, hd⟩ := drainFiles_ends (List.nodup_cons.1 hnodup).2 hk
                have hred : Redelivered isalnum str v payload := ⟨secrets, a.1, a.2, ha, htook r rfl hany⟩
                exact ⟨k + 1, by omega, .cons (List.nodup_cons.1 hnodup).1 there hfiles hsent hred hd⟩
              | linked => cases hk
              | unsureLink => cases hk
          · rw [if_neg hany] at hrest
            cases hrest
            refine ⟨0, rfl, Nat.zero_le _, hsent, fun n => by simp [hfiles], fun n hn => by simp at hn⟩

theorem firstItems_prefix (maxItems : Option Int) (files : List String) : firstItems maxItems files <+: files := by
  unfold firstItems
  rcases maxItems with _ | (n | n)
  · exact List.prefix_refl _
  · exact List.take_prefix _ _
  · exact List.take_prefix _ _

/-- `sorted`. -/
def byName (names : List String) : List String := names.mergeSort (fun a b => decide (a ≤ b))

theorem pairwise_byName {names : List String} (once : names.Nodup) : (byName names).Pairwise (· < ·) := by
  have htrans (a b c : String) (hab : decide (a ≤ b) = true) (hbc : decide (b ≤ c) = true) : decide (a ≤ c) = true :=
    decide_eq_true ((of_decide_eq_true hab).trans (of_decide_eq_true hbc))
  have htotal (a b : String) : (decide (a ≤ b) || decide (b ≤ a)) = true := by
    simpa using le_total a b
  have hle := List.pairwise_mergeSort htrans htotal names
  have hnodup : (byName names).Nodup := (List.mergeSort_perm _ _).nodup_iff.2 once
  exact hle.imp₂ (fun a b hle hne => lt_of_le_of_ne (of_decide_eq_true hle) hne) hnodup

theorem mem_drop_iff {l : List String} (h : l.Nodup) {k : Nat} {n : String} : n ∈ l.drop k ↔ n ∈ l ∧ n ∉ l.take k := by
  have hdisj : List.Disjoint (l.take k) (l.drop k) := List.disjoint_take_drop h (Nat.le_refl k)
  have hor : n ∈ l ↔ n ∈ l.take k ∨ n ∈ l.drop k := by rw [← List.mem_append, List.take_append_drop]
  rw [hor]
  constructor
  · exact fun hd => ⟨.inr hd, fun ht => hdisj ht hd⟩
  · rintro ⟨ht | hd, hno⟩
    · exact absurd ht hno
    · exact hd

/-- **The oldest first.**  A drain that nobody disturbs and that returns deleted as many of the first files, by name, as it
says, each after a channel took it; it left the others, and says how many. -/
theorem drain_oldest_first {maxItems : Option Int} {d remaining : Nat}
    (h : Ends Does (drainAlertOutbox isalnum str cfg maxItems) w (.ok (d, remaining)) w') :
    ∃ files : List String, (∀ n, n ∈ files ↔ w.dir = true ∧ w.files n ≠ none) ∧ files.Pairwise (· < ·) ∧
      d ≤ (firstItems maxItems files).length ∧ files.length = d + remaining ∧
      (∀ n, w'.files n = if n ∈ files.take d then none else w.files n) ∧
      ∀ n ∈ files.take d, ∃ p, w.files n = some (some p) ∧ Redelivered isalnum str w' p := by
  cases h with
  | call there hop hk =>
    cases hop
    dsimp only at hk
    by_cases hdir : w.dir = true
    · rw [if_pos hdir] at hk
      cases hk with
      | call secrets hop hk =>
        cases hop
        cases hk with
        | call names hop hk =>
          cases hop with
          | glob _ _ all once =>
            obtain ⟨delivered, w₁, hloop, hlast⟩ := Ends.of_bind hk
            have hperm : (byName names).Perm names := List.mergeSort_perm _ _
            have hmem : ∀ n, n ∈ byName names ↔ w.files n ≠ none := fun n => hperm.mem_iff.trans (all n)
            have hsorted : (byName names).Pairwise (· < ·) := pairwise_byName once
            have hnodup : (byName names).Nodup := hperm.nodup_iff.2 once
            obtain ⟨later, hlater⟩ := firstItems_prefix maxItems (byName names)
            have hfirst : (firstItems maxItems (byName names)).Nodup := by
              rw [← hlater] at hnodup
              exact hnodup.of_append_left
            obtain ⟨k, rfl, hd⟩ := drainFiles_ends hfirst hloop
            have htake : (firstItems maxItems (byName names)).take k = (byName names).take k :=
              (List.take_append_of_le_length hd.le).symm.trans (congrArg (List.take k) hlater)
            cases hlast with
            | call rest hop hk =>
              cases hop with
              | glob _ _ left leftOnce =>
                cases hk
                have hdrop : rest.Perm ((byName names).drop k) := by
                  refine (List.perm_ext_iff_of_nodup leftOnce (hnodup.sublist (List.drop_sublist _ _))).2 (fun n => ?_)
                  rw [left n, hd.files n, htake, mem_drop_iff hnodup, hmem n]
                  by_cases hn : n ∈ (byName names).take k <;> simp [hn]
                have hle : k ≤ (byName names).length := hd.le.trans (List.IsPrefix.length_le ⟨later, hlater⟩)
                refine ⟨byName names, fun n => ?_, hsorted, ?_, ?_, fun n => ?_, fun n hn => ?_⟩
                · rw [hmem n]
                  exact (and_iff_right hdir).symm
                · rw [Nat.zero_add]
                  exact hd.le
                · rw [hdrop.length_eq, List.length_drop]
                  omega
                · rw [Nat.zero_add, ← htake]
                  exact hd.files n
                · rw [Nat.zero_add, ← htake] at hn
                  exact hd.taken n hn
    · rw [if_neg hdir] at hk
      cases hk
      exact ⟨[], by simp [hdir], .nil, Nat.zero_le _, rfl, fun n => by simp, fun n hn => by simp at hn⟩

namespace Sample

/-- A webhook is configured. -/
def hooked : Settings := ⟨"https://hooks.example".toList, [], [], [], 1⟩

def alert : Json := .obj [("subject", .str "KRX"), ("body", .str "late")]

/-- The outbox with one file. -/
def stored : World := { empty with dir := true }.keep "20250102T063000000000_0a1b2c3d.json" alert

def message : Message :=
  .webhook (redeliveredSubject Char.isAlphanum [] "KRX".toList ++ '\n' ::
    redeliveredBody Char.isAlphanum plain [] "late".toList alert)

theorem drained : Ends Does (drainAlertOutbox Char.isAlphanum plain hooked none) stored (.ok (1, 0))
    ((stored.send message).remove "20250102T063000000000_0a1b2c3d.json") := by
  have hone (n : String) : n ∈ ["20250102T063000000000_0a1b2c3d.json"] ↔ stored.files n ≠ none := by
    by_cases h : n = "20250102T063000000000_0a1b2c3d.json" <;> simp [h, stored, empty, World.keep]
  have halert : alertOf alert = some ("KRX".toList, "late".toList) := by simp [alertOf, alert, Json.get?, List.lookup]
  have hread : ((some alert).bind fun payload => (alertOf payload).map (fun a => (a, payload))) =
      some (("KRX".toList, "late".toList), alert) := by simp [halert]
  refine .call true (.isDir _) (.call [] (.alertSecretValues [] _) (.call _ (.glob _ _ hone (List.nodup_singleton _)) ?_))
  have hsorted : firstItems none (["20250102T063000000000_0a1b2c3d.json"].mergeSort (fun a b => decide (a ≤ b))) =
      ["20250102T063000000000_0a1b2c3d.json"] := by simp [firstItems]
  rw [hsorted]
  refine .call (some alert) (.read _ _ _ (by simp [stored, World.keep])) ?_
  dsimp only
  rw [hread]
  refine .call (.ok ()) (.posted _ _) (.call (.ok ()) (.unlinked _ _) (.call [] (.glob _ _ (fun n => ?_) .nil) (.ret _ _)))
  by_cases h : n = "20250102T063000000000_0a1b2c3d.json" <;> simp [h, stored, empty, World.keep, World.remove, World.send]

end Sample

/-- A drain of one file. -/
theorem drain_oldest_first_one : ∃ files : List String,
    (∀ n, n ∈ files ↔ Sample.stored.dir = true ∧ Sample.stored.files n ≠ none) ∧ files.Pairwise (· < ·) ∧
      1 ≤ (firstItems none files).length ∧ files.length = 1 + 0 ∧
      (∀ n, ((Sample.stored.send Sample.message).remove "20250102T063000000000_0a1b2c3d.json").files n =
        if n ∈ files.take 1 then none else Sample.stored.files n) ∧
      ∀ n ∈ files.take 1, ∃ p, Sample.stored.files n = some (some p) ∧ Redelivered Char.isAlphanum Sample.plain
        ((Sample.stored.send Sample.message).remove "20250102T063000000000_0a1b2c3d.json") p :=
  drain_oldest_first Sample.drained

/-! ## What is masked -/

/-- No secret of at least eight characters, without blanks, quotes and asterisks, is in the text. -/
def Hides (secrets : List Text) (text : Text) : Prop :=
  ∀ s ∈ secrets, secretMinMaskChars ≤ (Py.stripChars s).length → (∀ c ∈ s, Solid c) → ¬ s <:+: text

/-- The texts that a call gives away. -/
def Op.texts : Op → List Text
  | .post (.webhook text) => [text]
  | .post (.email subject body) => [subject, body]
  | .write _ payload => ((alertOf payload).map (fun a => [a.1, a.2])).getD []
  | .log _ subject => [subject]
  | _ => []

theorem hides_redact (isalnum : Char → Bool) (text : Text) (secrets : List Text) :
    Hides secrets (redact isalnum text secrets) := by
  obtain ⟨out, hout, hhide⟩ := (redactSecrets_hides isalnum).2 text secrets
  have heq : redact isalnum text secrets = out := by
    rw [redact, hout _ (Nat.lt_succ_self _), Option.getD_some]
  rw [heq]
  exact hhide

/-- A word without blanks does not reach over a blank. -/
theorem Hides.around_blank {secrets : List Text} {a b : Text} {c : Char} (hc : Py.isSpace c = true) (ha : Hides secrets a)
    (hb : Hides secrets b) : Hides secrets (a ++ c :: b) := by
  intro s hs hlen hsolid hi
  have hd : ¬ Solid c := fun h => by rw [h.1] at hc; cases hc
  rcases Masked.infix_around_separator hsolid hd hi with hi | hi
  · exact ha s hs hlen hsolid hi
  · exact hb s hs hlen hsolid hi

/-- A text too short for a secret. -/
theorem hides_of_short {secrets : List Text} {text : Text} (h : text.length < secretMinMaskChars) : Hides secrets text := by
  intro s _ hlen hsolid hi
  have hstrip : Py.stripChars s = s := Redaction.strip_of_solid (fun c hc => (hsolid c hc).1)
  rw [hstrip] at hlen
  exact absurd (hi.length_le.trans_lt h) (Nat.not_lt.2 hlen)

/-- What a job may give away: a drain puts the time of the file at the end. -/
def Job.Shows (secrets : List Text) (text : Text) : Job → Prop
  | .page _ _ => Hides secrets text
  | .drain _ => Hides secrets text ∨
      ∃ masked at', text = masked ++ '\n' :: ("original_enqueued_at=".toList ++ at') ∧ Hides secrets masked

/-- Before the secrets are read nothing is given away; after, only what `P` allows. -/
def Guards {α : Type} (P : List Text → Text → Prop) : Program α → Prop
  | .ret _ | .raise _ => True
  | .call .alertSecretValues k => ∀ secrets, (k secrets).Calls (fun op => ∀ text ∈ op.texts, P secrets text)
  | .call op k => op.texts = [] ∧ ∀ r, Guards P (k r)

theorem Guards.bind {α β : Type} {P : List Text → Text → Prop} {p : Program α} {f : α → Program β} (h : Guards P p)
    (hf : ∀ a secrets, (f a).Calls (fun op => ∀ text ∈ op.texts, P secrets text)) (hr : ∀ a, Guards P (f a)) :
    Guards P (p.bind f) := by
  induction p with
  | ret a => exact hr a
  | raise e => trivial
  | call op k ih =>
    cases op
    case alertSecretValues => exact fun secrets => (h secrets).bind (fun a => hf a secrets)
    all_goals exact ⟨h.1, fun r => ih r (h.2 r)⟩

theorem tries_calls {P : Op → Prop} {send : Program Bool} (hsleep : ∀ k, P (.sleep k)) (hsend : send.Calls P) :
    ∀ n k, (tries send k n).Calls P
  | 0, _ => trivial
  | n + 1, k => by
    refine hsend.attempt.bind (fun o => ?_)
    cases o with
    | ok b => cases b <;> trivial
    | error e => exact .ite (.ite trivial ⟨hsleep _, fun _ => tries_calls hsleep hsend n (k + 1)⟩) trivial

theorem deliverNow_calls {P : Op → Prop} (hsleep : ∀ k, P (.sleep k))
    (hweb : P (.post (.webhook (subject ++ '\n' :: body)))) (hmail : P (.post (.email subject body))) :
    (deliverNow cfg subject body).Calls P := by
  have hwebhook : (postWebhookText cfg (subject ++ '\n' :: body)).Calls P :=
    .ite trivial ⟨hweb, fun r => (Prog.calls_ofExcept r).bind (fun _ => Prog.calls_ret _)⟩
  have hemail : (sendEmail cfg subject body).Calls P :=
    .ite trivial ⟨hmail, fun r => (Prog.calls_ofExcept r).bind (fun _ => trivial)⟩
  refine ((tries_calls hsleep hwebhook _ _).bind (fun _ => Prog.calls_ret _)).bind (fun webhook => ?_)
  exact ((tries_calls hsleep hemail _ _).bind (fun _ => Prog.calls_ret _)).bind (fun _ => Prog.calls_ret _)

/-- Both channels are given what is masked. -/
theorem deliverNow_hides {secrets : List Text} (hs : Hides secrets subject) (hb : Hides secrets body) :
    (deliverNow cfg subject body).Calls (fun op => ∀ text ∈ op.texts, Hides secrets text) := by
  refine deliverNow_calls (fun _ _ h => by cases h) (fun text h => ?_) (fun text h => ?_)
  · obtain rfl := List.mem_singleton.1 h
    exact hs.around_blank (by decide) hb
  · rcases List.mem_cons.1 h with rfl | h
    · exact hs
    · obtain rfl := List.mem_singleton.1 h
      exact hb

theorem persistUndelivered_hides {secrets : List Text} {kind : String} (hs : Hides secrets subject)
    (hb : Hides secrets body) :
    (persistUndelivered subject body kind).Calls (fun op => ∀ text ∈ op.texts, Hides secrets text) := by
  have hlog (status : Status) : ∀ text ∈ (Op.log status subject).texts, Hides secrets text := by
    intro text h
    obtain rfl := List.mem_singleton.1 h
    exact hs
  have henqueue : (enqueueUndelivered subject body kind).Calls (fun op => ∀ text ∈ op.texts, Hides secrets text) := by
    refine ⟨fun _ h => (by cases h), fun made => (Prog.calls_ofExcept made).bind (fun _ => ?_)⟩
    refine ⟨fun _ h => (by cases h), fun stamp => ⟨fun text h => ?_, fun written => ?_⟩⟩
    · have halert : alertOf (payloadOf subject body kind stamp.2) = some (subject, body) := by
        simp [alertOf, payloadOf, Json.get?, List.lookup]
      simp only [Op.texts, halert, Option.map_some, Option.getD_some] at h
      rcases List.mem_cons.1 h with rfl | h
      · exact hs
      · obtain rfl := List.mem_singleton.1 h
        exact hb
    · exact (Prog.calls_ofExcept written).bind (fun _ => trivial)
  refine henqueue.attempt.bind (fun o => ?_)
  cases o with
  | ok name => exact ⟨hlog _, fun _ => trivial⟩
  | error e =>
    cases e with
    | os => exact ⟨hlog _, fun _ => ⟨hlog _, fun _ => trivial⟩⟩
    | request | smtp | other => trivial

theorem drainFiles_shows (maxItems : Option Int) (secrets : List Text) : ∀ (paths : List String) (delivered : Nat),
    (drainFiles isalnum str cfg secrets delivered paths).Calls
      (fun op => ∀ text ∈ op.texts, (Job.drain maxItems).Shows secrets text)
  | [], _ => trivial
  | path :: paths, delivered => by
    refine ⟨fun _ h => (by cases h), fun text => ?_⟩
    dsimp only
    cases hp : text.bind (fun payload => (alertOf payload).map (fun a => (a, payload))) with
    | none => trivial
    | some p =>
      obtain ⟨⟨subject, body⟩, payload⟩ := p
      have hsubject : Hides secrets (redeliveredSubject isalnum secrets subject) :=
        Hides.around_blank (a := "[지연전송]".toList) (c := ' ') (by decide) (hides_of_short (by decide)) (hides_redact _ _ _)
      have hbody := hides_redact isalnum body secrets
      have hnow : (deliverNow cfg (redeliveredSubject isalnum secrets subject)
          (redeliveredBody isalnum str secrets body payload)).Calls
          (fun op => ∀ text ∈ op.texts, (Job.drain maxItems).Shows secrets text) := by
        refine deliverNow_calls (fun _ _ h => (by cases h)) (fun text h => ?_) (fun text h => ?_)
        · obtain rfl := List.mem_singleton.1 h
          refine .inr ⟨_, textOf str (payload.get? "enqueued_at"), ?_, hsubject.around_blank (c := '\n') (by decide) hbody⟩
          simp [redeliveredBody]
        · rcases List.mem_cons.1 h with rfl | h
          · exact .inl hsubject
          · obtain rfl := List.mem_singleton.1 h
            refine .inr ⟨_, textOf str (payload.get? "enqueued_at"), ?_, hbody⟩
            simp [redeliveredBody]
      refine hnow.bind (fun r => .ite ⟨fun _ h => (by cases h), fun gone => ?_⟩ trivial)
      exact (Prog.calls_ofExcept gone).bind (fun _ => drainFiles_shows maxItems secrets paths (delivered + 1))

end Outbox
