import KClosingAlpha.Alert.Outbox
/-!
# OutboxRuns — no page is lost among dispatchers and drainers

Whoever shares the outbox only lets it grow (`Grows`): a file is written under a new name, stays what it is, and goes
when a channel took it.  So a page whose dispatch came to its end was taken by a channel, stands in the outbox, or was
taken from there, whatever the others do and wherever they are cut; or its verdict is in the log (`page_never_lost`).
A drain that nobody disturbs delivers and deletes the oldest files (`drain_oldest_first`).
-/
namespace Outbox

open Py (Json)
open Regex (Text)
open Prog (rg rg_bind rg_attempt rg_mono rg_ofExcept)

/-! ## What is taken, and what may happen to the directory -/

/-- A channel took a subject and a body. -/
def Took (w : World) (subject body : Text) : Prop :=
  .webhook (subject ++ '\n' :: body) ∈ w.sent ∨ .email subject body ∈ w.sent

variable (isalnum : Char → Bool) (str : Json → Text) (cfg : Settings)

/-- A channel took the alert of a file. -/
def Redelivered (w : World) (payload : Json) : Prop :=
  ∃ secrets subject body, alertOf payload = some (subject, body) ∧
    Took w (redeliveredSubject isalnum secrets subject) (redeliveredBody isalnum str secrets body payload)

/-- What anybody may do to the world. -/
structure Grows (w w' : World) : Prop where
  used : w.used ⊆ w'.used
  kept : w.kept ⊆ w'.kept
  sent : w.sent ⊆ w'.sent
  logs : w.logs ⊆ w'.logs
  once : ∀ n ∈ w.used, w'.files n = w.files n ∨ w'.files n = none
  safe : ∀ n p, w.files n = some (some p) → w'.files n = some (some p) ∨ Redelivered isalnum str w' p
  fresh : ∀ e ∈ w'.kept, e ∈ w.kept ∨ w'.files e.1 = some (some e.2) ∨ Redelivered isalnum str w' e.2

/-- Every file has a name that was used. -/
def Named (w : World) : Prop := ∀ n, w.files n ≠ none → n ∈ w.used

/-- A step that lets the outbox grow. -/
def Fair (w w' : World) : Prop := Named w → Named w' ∧ Grows isalnum str w w'

variable {isalnum str cfg} {w w' w'' : World} {m : Message} {name : String} {payload : Json} {subject body : Text}

theorem Took.mono (h : Took w subject body) (hs : w.sent ⊆ w'.sent) : Took w' subject body :=
  Or.imp (fun h => hs h) (fun h => hs h) h

theorem Redelivered.mono (h : Redelivered isalnum str w payload) (hs : w.sent ⊆ w'.sent) :
    Redelivered isalnum str w' payload := by
  obtain ⟨secrets, subject, body, ha, ht⟩ := h
  exact ⟨secrets, subject, body, ha, ht.mono hs⟩

theorem Grows.refl (w : World) : Grows isalnum str w w where
  used _ h := h
  kept _ h := h
  sent _ h := h
  logs _ h := h
  once _ _ := .inl rfl
  safe _ _ h := .inl h
  fresh _ h := .inl h

theorem Grows.trans (h : Grows isalnum str w w') (h' : Grows isalnum str w' w'') : Grows isalnum str w w'' where
  used _ hn := h'.used (h.used hn)
  kept _ he := h'.kept (h.kept he)
  sent _ hm := h'.sent (h.sent hm)
  logs _ hl := h'.logs (h.logs hl)
  once n hn := by
    rcases h'.once n (h.used hn) with heq | heq
    · rw [heq]
      exact h.once n hn
    · exact .inr heq
  safe n p hf := by
    rcases h.safe n p hf with hf' | hr
    · exact h'.safe n p hf'
    · exact .inr (hr.mono h'.sent)
  fresh e he := by
    rcases h'.fresh e he with he' | hnew
    · rcases h.fresh e he' with he | hf | hr
      · exact .inl he
      · exact .inr (h'.safe e.1 e.2 hf)
      · exact .inr (.inr (hr.mono h'.sent))
    · exact .inr hnew

theorem Fair.refl (w : World) : Fair isalnum str w w := fun h => ⟨h, .refl w⟩

theorem Fair.trans (h : Fair isalnum str w w') (h' : Fair isalnum str w' w'') : Fair isalnum str w w'' := by
  intro hn
  obtain ⟨hn', hg⟩ := h hn
  obtain ⟨hn'', hg'⟩ := h' hn'
  exact ⟨hn'', hg.trans hg'⟩

theorem fair_send (w : World) (m : Message) : Fair isalnum str w (w.send m) := by
  refine fun hn => ⟨hn, ⟨fun _ h => h, fun _ h => h, ?_, fun _ h => h, fun _ _ => .inl rfl, fun _ _ h => .inl h,
    fun _ h => .inl h⟩⟩
  exact fun _ h => List.mem_append_left _ h

theorem fair_log (w : World) (status : Status) (subject : Text) :
    Fair isalnum str w { w with logs := w.logs ++ [(status, subject)] } := by
  refine fun hn => ⟨hn, ⟨fun _ h => h, fun _ h => h, fun _ h => h, ?_, fun _ _ => .inl rfl, fun _ _ h => .inl h,
    fun _ h => .inl h⟩⟩
  exact fun _ h => List.mem_append_left _ h

theorem fair_mkdir (w : World) : Fair isalnum str w { w with dir := true } :=
  fun hn => ⟨hn, ⟨fun _ h => h, fun _ h => h, fun _ h => h, fun _ h => h, fun _ _ => .inl rfl, fun _ _ h => .inl h,
    fun _ h => .inl h⟩⟩

/-- A file under a new name. -/
theorem fair_keep (new : name ∉ w.used) (payload : Json) : Fair isalnum str w (w.keep name payload) := by
  intro hn
  have hne : ∀ n ∈ w.used, n ≠ name := fun n hmem heq => new (heq ▸ hmem)
  have hold : ∀ n ∈ w.used, (w.keep name payload).files n = w.files n := fun n hmem =>
    Function.update_of_ne (hne n hmem) _ _
  refine ⟨fun n hf => ?_, ⟨?_, ?_, fun _ h => h, fun _ h => h, fun n hmem => .inl (hold n hmem), ?_, ?_⟩⟩
  · by_cases heq : n = name
    · exact .inl heq
    · refine .inr (hn n ?_)
      have hsame : (w.keep name payload).files n = w.files n := Function.update_of_ne heq _ _
      rwa [hsame] at hf
  · exact fun _ h => .inr h
  · exact fun _ h => List.mem_append_left _ h
  · intro n p hf
    have hmem : n ∈ w.used := hn n (by simp [hf])
    rw [hold n hmem]
    exact .inl hf
  · intro e he
    rcases List.mem_append.1 he with he | he
    · exact .inl he
    · obtain rfl := List.mem_singleton.1 he
      exact .inr (.inl (Function.update_self _ _ _))

/-- A file goes when its alert was taken. -/
theorem fair_remove (h : ∀ p, w.files name = some (some p) → Redelivered isalnum str w p) :
    Fair isalnum str w (w.remove name) := by
  intro hn
  have hother : ∀ n, n ≠ name → (w.remove name).files n = w.files n := fun n hne => Function.update_of_ne hne _ _
  have hself : (w.remove name).files name = none := Function.update_self _ _ _
  refine ⟨fun n hf => ?_, ⟨fun _ h => h, fun _ h => h, fun _ h => h, fun _ h => h, fun n _ => ?_, fun n p hf => ?_,
    fun _ h => .inl h⟩⟩
  · by_cases heq : n = name
    · rw [heq, hself] at hf
      exact absurd rfl hf
    · rw [hother n heq] at hf
      exact hn n hf
  · by_cases heq : n = name
    · rw [heq]
      exact .inr hself
    · exact .inl (hother n heq)
  · by_cases heq : n = name
    · rw [heq] at hf
      obtain ⟨secrets, subject, body, ha, ht⟩ := h p hf
      exact .inr ⟨secrets, subject, body, ha, ht⟩
    · rw [hother n heq]
      exact .inl hf

/-! ## Delivery -/

/-- The others forget no message and keep `F`, and a message more is allowed and keeps it. -/
structure Sending (R G : World → World → Prop) (F : World → Prop) : Prop where
  rely : ∀ w w', R w w' → F w → w.sent ⊆ w'.sent ∧ F w'
  stay : ∀ w, F w → G w w
  send : ∀ w m, F w → G w (w.send m) ∧ F (w.send m)

section delivery

variable {R G : World → World → Prop} {F : World → Prop}

/-- What was taken is remembered as well. -/
theorem Sending.after (h : Sending R G F) (b : Bool) (m : Message) :
    Sending R G (fun w => F w ∧ (b = true → m ∈ w.sent)) where
  rely w w' hR hF := by
    obtain ⟨hs, hF'⟩ := h.rely w w' hR hF.1
    exact ⟨hs, hF', fun hb => hs (hF.2 hb)⟩
  stay w hF := h.stay w hF.1
  send w m' hF := by
    obtain ⟨hG, hF'⟩ := h.send w m' hF.1
    exact ⟨hG, hF', fun hb => List.mem_append_left _ (hF.2 hb)⟩

/-- A sender of one message, or of none. -/
def Sends (send : Program Bool) (m : Message) : Prop :=
  send = .ret false ∨ send = .call (.post m) (fun r => (Prog.ofExcept r).bind (fun _ => .ret true))

theorem sends_postWebhookText (cfg : Settings) (text : Text) : Sends (postWebhookText cfg text) (.webhook text) := by
  unfold postWebhookText
  by_cases h : cfg.webhookUrl = []
  · exact .inl (if_pos h)
  · exact .inr (if_neg h)

theorem sends_sendEmail (cfg : Settings) (subject body : Text) :
    Sends (sendEmail cfg subject body) (.email subject body) := by
  unfold sendEmail
  by_cases h : cfg.gmailUser = [] ∨ cfg.gmailAppPassword = [] ∨ cfg.gmailTo = []
  · exact .inl (if_pos h)
  · exact .inr (if_neg h)

theorem rg_send (h : Sending R G F) {send : Program Bool} (hs : Sends send m) (hF : F w) :
    rg Does R G send (fun o w' => F w' ∧ (o = .ok true → m ∈ w'.sent)) w := by
  rcases hs with rfl | rfl
  · exact ⟨hF, fun hb => by cases hb⟩
  · rintro w₁ hR r w₂ hop
    obtain ⟨-, hF₁⟩ := h.rely _ _ hR hF
    cases hop with
    | posted => exact ⟨(h.send w₁ m hF₁).1, (h.send w₁ m hF₁).2, fun _ => List.mem_append_right _ (List.mem_singleton.2 rfl)⟩
    | lost _ e => exact ⟨h.stay w₁ hF₁, hF₁, fun hb => by cases hb⟩
    | unsure _ e => exact ⟨(h.send w₁ m hF₁).1, (h.send w₁ m hF₁).2, fun hb => by cases hb⟩

theorem rg_tries (h : Sending R G F) {send : Program Bool} (hs : Sends send m) : ∀ (n k : Nat) {w : World}, F w →
    rg Does R G (tries send k n) (fun o w' => F w' ∧ (o = .ok .delivered → m ∈ w'.sent)) w
  | 0, _, _, hF => ⟨hF, fun hb => by cases hb⟩
  | n + 1, k, w, hF => by
    refine rg_attempt _ (rg_send h hs hF) (fun o w₁ h₁ => ?_)
    cases o with
    | ok b =>
      cases b with
      | true => exact ⟨h₁.1, fun _ => h₁.2 rfl⟩
      | false => exact ⟨h₁.1, fun hb => by cases hb⟩
    | error e =>
      by_cases he : e.transport = true
      · by_cases hn : n = 0
        · simp only [he, hn, if_true]
          exact ⟨h₁.1, fun hb => by cases hb⟩
        · simp only [he, hn, if_true, if_false]
          rintro w₂ hR r w₃ hop
          obtain ⟨-, hF₂⟩ := h.rely _ _ hR h₁.1
          cases hop
          exact ⟨h.stay w₂ hF₂, rg_tries h hs n (k + 1) hF₂⟩
      · simp only [he, Bool.false_eq_true, if_false]
        exact ⟨h₁.1, fun hb => by cases hb⟩

theorem rg_deliverChannel (h : Sending R G F) {send : Program Bool} (hs : Sends send m) (hF : F w) :
    rg Does R G (deliverChannel cfg send) (fun o w' => F w' ∧ (o = .ok true → m ∈ w'.sent)) w := by
  refine rg_bind _ (rg_tries h hs _ _ hF) (fun outcome w₁ h₁ => ?_) (fun e w₁ h₁ => ⟨h₁.1, fun hb => by cases hb⟩)
  refine ⟨h₁.1, fun hb => h₁.2 ?_⟩
  simpa using hb

/-- **Delivery.**  What a channel is said to have taken, it took. -/
theorem rg_deliverNow (h : Sending R G F) (subject body : Text) (hF : F w) :
    rg Does R G (deliverNow cfg subject body) (fun o w' => F w' ∧ ∀ r, o = .ok r → r.any = true → Took w' subject body) w := by
  refine rg_bind _ (rg_deliverChannel h (sends_postWebhookText cfg _) hF) (fun b w₁ h₁ => ?_)
    (fun e w₁ h₁ => ⟨h₁.1, fun r hr => by cases hr⟩)
  have hF₁ : F w₁ ∧ (b = true → .webhook (subject ++ '\n' :: body) ∈ w₁.sent) := ⟨h₁.1, fun hb => h₁.2 (by rw [hb])⟩
  refine rg_bind _ (rg_deliverChannel (h.after b _) (sends_sendEmail cfg subject body) hF₁) (fun b' w₂ h₂ => ?_)
    (fun e w₂ h₂ => ⟨h₂.1.1, fun r hr => by cases hr⟩)
  refine ⟨h₂.1.1, fun r hr hany => ?_⟩
  cases hr
  rcases Bool.or_eq_true_iff.1 hany with hb | hb
  · exact .inl (h₂.1.2 hb)
  · exact .inr (h₂.2 (congrArg Except.ok hb))

end delivery

/-! ## Pages -/

variable (isalnum) in
/-- What is known of a page once its dispatch came to its end. -/
def Settled (w : World) (subject body : Text) (r : Results) : Prop :=
  ∃ secrets, (r.any = true → Took w (redact isalnum subject secrets) (redact isalnum body secrets)) ∧
    (r.any = false → (.outboxFailed, redact isalnum subject secrets) ∈ w.logs ∨
      ∃ name at', (name, payloadOf (redact isalnum subject secrets) (redact isalnum body secrets) "page" at') ∈ w.kept)

theorem Settled.mono {r : Results} (h : Settled isalnum w subject body r) (hg : Grows isalnum str w w') :
    Settled isalnum w' subject body r := by
  obtain ⟨secrets, htook, hkept⟩ := h
  refine ⟨secrets, fun hr => (htook hr).mono hg.sent, fun hr => ?_⟩
  rcases hkept hr with hlog | ⟨name, at', hmem⟩
  · exact .inl (hg.logs hlog)
  · exact .inr ⟨name, at', hg.kept hmem⟩

/-- A call among others that are fair. -/
theorem rg_fair {α : Type} {op : Op} {k : Ret op → Program α} {Q : Except Exn α → World → Prop} (hw : Named w)
    (h : ∀ w₁, Named w₁ → Grows isalnum str w w₁ → ∀ r w₂, Does op w₁ r w₂ → Fair isalnum str w₁ w₂ ∧
      (Named w₂ → Grows isalnum str w₁ w₂ → rg Does (Fair isalnum str) (Fair isalnum str) (k r) Q w₂)) :
    rg Does (Fair isalnum str) (Fair isalnum str) (.call op k) Q w := by
  intro w₁ hR r w₂ hop
  obtain ⟨hw₁, hg₁⟩ := hR hw
  obtain ⟨hfair, hk⟩ := h w₁ hw₁ hg₁ r w₂ hop
  obtain ⟨hw₂, hg₂⟩ := hfair hw₁
  exact ⟨hfair, hk hw₂ hg₂⟩

theorem sending_fair {F : World → Prop} (hF : ∀ w w', Grows isalnum str w w' → F w → F w') :
    Sending (Fair isalnum str) (Fair isalnum str) (fun w => Named w ∧ F w) where
  rely w w' hR h := by
    obtain ⟨hw', hg⟩ := hR h.1
    exact ⟨hg.sent, hw', hF _ _ hg h.2⟩
  stay w _ := .refl w
  send w m h := by
    have hfair : Fair isalnum str w (w.send m) := fair_send w m
    obtain ⟨hw', hg⟩ := hfair h.1
    exact ⟨hfair, hw', hF _ _ hg h.2⟩

theorem rg_enqueueUndelivered (subject body : Text) (kind : String) (hw : Named w) :
    rg Does (Fair isalnum str) (Fair isalnum str) (enqueueUndelivered subject body kind)
      (fun o w' => Named w' ∧ ∀ n, o = .ok n → ∃ at', (n, payloadOf subject body kind at') ∈ w'.kept) w := by
  refine rg_fair hw (fun w₁ _ _ made w₂ hmade => ?_)
  cases hmade with
  | noDir e => exact ⟨.refl w₁, fun hw₁ _ => ⟨hw₁, fun n hn => by cases hn⟩⟩
  | mkdir =>
    refine ⟨fair_mkdir w₁, fun hw₂ _ => rg_fair hw₂ (fun w₃ _ _ stamp w₄ hstamp => ?_)⟩
    cases hstamp with
    | stamp name at' =>
      refine ⟨.refl w₃, fun hw₄ _ => rg_fair hw₄ (fun w₅ _ _ written w₆ hwritten => ?_)⟩
      cases hwritten with
      | written _ _ _ new =>
        refine ⟨fair_keep new _, fun hw₆ _ => ⟨hw₆, fun n hn => ⟨at', ?_⟩⟩⟩
        cases hn
        exact List.mem_append_right _ (List.mem_singleton.2 rfl)
      | unwritten _ _ e => exact ⟨.refl w₅, fun hw₆ _ => ⟨hw₆, fun n hn => by cases hn⟩⟩
      | unsynced _ _ e _ new =>
        exact ⟨fair_keep new _, fun hw₆ _ => ⟨hw₆, fun n hn => by cases hn⟩⟩

theorem rg_persistUndelivered (subject body : Text) (kind : String) (hw : Named w) :
    rg Does (Fair isalnum str) (Fair isalnum str) (persistUndelivered subject body kind)
      (fun o w' => Named w' ∧ (o = .ok () → (.outboxFailed, subject) ∈ w'.logs ∨
        ∃ name at', (name, payloadOf subject body kind at') ∈ w'.kept)) w := by
  refine rg_attempt _ (rg_enqueueUndelivered subject body kind hw) (fun o w₁ h₁ => ?_)
  cases o with
  | ok name =>
    obtain ⟨at', hkept⟩ := h₁.2 name rfl
    refine rg_fair h₁.1 (fun w₂ _ hg₂ r w₃ hop => ?_)
    cases hop
    exact ⟨fair_log w₂ _ _, fun hw₃ _ => ⟨hw₃, fun _ => .inr ⟨name, at', hg₂.kept hkept⟩⟩⟩
  | error e =>
    cases e with
    | os =>
      refine rg_fair h₁.1 (fun w₂ _ _ r w₃ hop => ?_)
      cases hop
      refine ⟨fair_log w₂ _ _, fun hw₃ _ => rg_fair hw₃ (fun w₄ _ hg₄ r w₅ hop => ?_)⟩
      cases hop
      refine ⟨fair_log w₄ _ _, fun hw₅ hg₅ => ⟨hw₅, fun _ => .inl (hg₅.logs (hg₄.logs ?_))⟩⟩
      exact List.mem_append_right _ (List.mem_singleton.2 rfl)
    | request | smtp | other => exact ⟨h₁.1, fun ho => by cases ho⟩

/-- **A page among others.** -/
theorem rg_dispatchPage (subject body : Text) (hw : Named w) :
    rg Does (Fair isalnum str) (Fair isalnum str) (dispatchPage isalnum cfg subject body)
      (fun o w' => Named w' ∧ ∀ r, o = .ok r → Settled isalnum w' subject body r) w := by
  refine rg_fair hw (fun w₁ _ _ secrets w₂ hop => ?_)
  cases hop
  refine ⟨.refl w₁, fun hw₁ _ => ?_⟩
  have hsend : Sending (Fair isalnum str) (Fair isalnum str) (fun w => Named w ∧ True) :=
    sending_fair (fun _ _ _ _ => trivial)
  refine rg_bind _ (rg_deliverNow hsend _ _ ⟨hw₁, trivial⟩) (fun r w₃ h₃ => ?_)
    (fun e w₃ h₃ => ⟨h₃.1.1, fun r hr => by cases hr⟩)
  by_cases hany : r.any = true
  · rw [if_pos hany]
    refine ⟨h₃.1.1, fun r' hr' => ?_⟩
    cases hr'
    exact ⟨secrets, fun _ => h₃.2 r rfl hany, fun hno => by rw [hany] at hno; cases hno⟩
  · rw [if_neg hany]
    refine rg_bind _ (rg_persistUndelivered _ _ "page" h₃.1.1) (fun _ w₄ h₄ => ?_)
      (fun e w₄ h₄ => ⟨h₄.1, fun r hr => by cases hr⟩)
    refine ⟨h₄.1, fun r' hr' => ?_⟩
    cases hr'
    exact ⟨secrets, fun hyes => absurd hyes hany, fun _ => h₄.2 rfl⟩

/-! ## Redelivery -/

/-- **A drain among others.**  What it deletes a channel took. -/
theorem rg_drainFiles (secrets : List Text) : ∀ (paths : List String) (delivered : Nat) {w : World}, Named w →
    rg Does (Fair isalnum str) (Fair isalnum str) (drainFiles isalnum str cfg secrets delivered paths)
      (fun _ w' => Named w') w
  | [], _, _, hw => hw
  | path :: paths, delivered, w, hw => by
    refine rg_fair hw (fun w₁ _ _ text w₂ hop => ?_)
    cases hop with
    | unreadable => exact ⟨.refl w₁, fun hw₁ _ => hw₁⟩
    | read _ payload _ there =>
      refine ⟨.refl w₁, fun hw₁ _ => ?_⟩
      cases ha : alertOf payload with
      | none =>
        simp only [Option.bind_some, ha, Option.map_none]
        exact hw₁
      | some a =>
        simp only [Option.bind_some, ha, Option.map_some]
        -- the name stays the name of this file, until the file is gone
        let F : World → Prop := fun w => path ∈ w.used ∧ (w.files path = some (some payload) ∨ w.files path = none)
        have hF : ∀ w w', Grows isalnum str w w' → F w → F w' := by
          rintro w w' hg ⟨hmem, hfile⟩
          refine ⟨hg.used hmem, ?_⟩
          rcases hg.once path hmem with heq | heq
          · rw [heq]
            exact hfile
          · exact .inr heq
        have hF₁ : F w₁ := ⟨hw₁ path (by simp [there]), .inl there⟩
        refine rg_bind _ (rg_deliverNow (sending_fair hF) _ _ ⟨hw₁, hF₁⟩) (fun r w₃ h₃ => ?_) (fun e w₃ h₃ => h₃.1.1)
        by_cases hany : r.any = true
        · rw [if_pos hany]
          refine rg_fair h₃.1.1 (fun w₄ _ hg₄ gone w₅ hgone => ?_)
          have hfair : Fair isalnum str w₄ (w₄.remove path) := by
            refine fair_remove (fun p hp => ?_)
            rcases (hF _ _ hg₄ h₃.1.2).2 with hfile | hfile
            · have hsame : p = payload := by
                rw [hfile] at hp
                cases hp
                rfl
              rw [hsame]
              exact ⟨secrets, a.1, a.2, ha, (h₃.2 r rfl hany).mono hg₄.sent⟩
            · rw [hfile] at hp
              cases hp
          cases hgone with
          | unlinked => exact ⟨hfair, fun hw₅ _ => rg_drainFiles secrets paths (delivered + 1) hw₅⟩
          | linked _ e => exact ⟨.refl w₄, fun hw₅ _ => hw₅⟩
          | unsureLink _ e => exact ⟨hfair, fun hw₅ _ => hw₅⟩
        · rw [if_neg hany]
          exact h₃.1.1

theorem rg_drainAlertOutbox (maxItems : Option Int) (hw : Named w) :
    rg Does (Fair isalnum str) (Fair isalnum str) (drainAlertOutbox isalnum str cfg maxItems) (fun _ w' => Named w') w := by
  refine rg_fair hw (fun w₁ _ _ there w₂ hop => ?_)
  cases hop
  refine ⟨.refl w₁, fun hw₁ _ => ?_⟩
  by_cases hdir : w₁.dir = true
  · rw [if_pos hdir]
    refine rg_fair hw₁ (fun w₃ _ _ secrets w₄ hop => ?_)
    cases hop
    refine ⟨.refl w₃, fun hw₃ _ => rg_fair hw₃ (fun w₅ _ _ files w₆ hop => ?_)⟩
    cases hop
    refine ⟨.refl w₅, fun hw₅ _ => ?_⟩
    refine rg_bind _ (rg_drainFiles secrets _ 0 hw₅) (fun delivered w₇ hw₇ => ?_) (fun e w₇ hw₇ => hw₇)
    refine rg_fair hw₇ (fun w₈ _ _ rest w₉ hop => ?_)
    cases hop
    exact ⟨.refl w₈, fun hw₈ _ => hw₈⟩
  · rw [if_neg hdir]
    exact hw₁

/-! ## Dispatchers and drainers -/

/-- What a process does with the outbox. -/
inductive Job where
  | page (subject body : Text)
  | drain (maxItems : Option Int)

variable (isalnum str cfg) in
def Job.prog : Job → Program (Option Results)
  | .page subject body => do
    let r ← dispatchPage isalnum cfg subject body
    pure (some r)
  | .drain maxItems => do
    let _ ← drainAlertOutbox isalnum str cfg maxItems
    pure none

/-- What is under way, and the pages whose dispatch came to its end. -/
structure Worker where
  now : Option (Job × Program (Option Results))
  ended : List (Job × Results)

variable (isalnum str cfg) in
/-- A job begins, makes a call, or ends; it may be cut anywhere. -/
inductive Turn : Worker → World → Worker → World → Prop
  | begin (job : Job) (ended : List (Job × Results)) (w : World) :
      Turn ⟨none, ended⟩ w ⟨some (job, job.prog isalnum str cfg), ended⟩ w
  | call (job : Job) (p p' : Program (Option Results)) (ended : List (Job × Results)) (w w' : World)
      (next : Prog.Next Does p w p' w') : Turn ⟨some (job, p), ended⟩ w ⟨some (job, p'), ended⟩ w'
  | ends (job : Job) (r : Results) (ended : List (Job × Results)) (w : World) :
      Turn ⟨some (job, .ret (some r)), ended⟩ w ⟨none, ended ++ [(job, r)]⟩ w
  | cut (now : Option (Job × Program (Option Results))) (ended : List (Job × Results)) (w : World) :
      Turn ⟨now, ended⟩ w ⟨none, ended⟩ w

variable (isalnum str cfg) in
/-- Any interleaving of them, from an outbox to which nothing was written. -/
def outboxes (ι : Type) : System (Threads.State ι Worker World) :=
  Threads.system (fun s => Named s.world ∧ s.world.kept = [] ∧ ∀ c, s.thread c = ⟨none, []⟩) (fun _ => Turn isalnum str cfg)

variable (isalnum) in
/-- What is known of a job that ended with results. -/
def Job.Settled (w : World) (r : Results) : Job → Prop
  | .page subject body => Outbox.Settled isalnum w subject body r
  | .drain _ => False

theorem Job.Settled.mono {r : Results} {job : Job} (h : job.Settled isalnum w r) (hg : Grows isalnum str w w') :
    job.Settled isalnum w' r := by
  cases job with
  | page subject body => exact Outbox.Settled.mono h hg
  | drain => exact h

/-- **A job among others.** -/
theorem rg_job (job : Job) (hw : Named w) :
    rg Does (Fair isalnum str) (Fair isalnum str) (job.prog isalnum str cfg)
      (fun o w' => Named w' ∧ ∀ r, o = .ok (some r) → job.Settled isalnum w' r) w := by
  cases job with
  | page subject body =>
    refine rg_bind _ (rg_dispatchPage subject body hw) (fun r w₁ h₁ => ⟨h₁.1, fun r' hr' => ?_⟩)
      (fun e w₁ h₁ => ⟨h₁.1, fun r' hr' => by cases hr'⟩)
    cases hr'
    exact h₁.2 r rfl
  | drain maxItems =>
    refine rg_bind _ (rg_drainAlertOutbox maxItems hw) (fun _ w₁ hw₁ => ⟨hw₁, fun r' hr' => by cases hr'⟩)
      (fun e w₁ hw₁ => ⟨hw₁, fun r' hr' => by cases hr'⟩)

variable (isalnum str) in
/-- What was written stands in the outbox, or was taken from there. -/
def Safe (w : World) : Prop := ∀ e ∈ w.kept, w.files e.1 = some (some e.2) ∨ Redelivered isalnum str w e.2

theorem Safe.grows (h : Safe isalnum str w) (hg : Grows isalnum str w w') : Safe isalnum str w' := by
  intro e he
  rcases hg.fresh e he with he | hnew
  · rcases h e he with hf | hr
    · exact hg.safe e.1 e.2 hf
    · exact .inr (hr.mono hg.sent)
  · exact hnew

variable (isalnum str) in
/-- What holds of a worker and the world. -/
structure Worker.Inv (l : Worker) (w : World) : Prop where
  named : Named w
  safe : Safe isalnum str w
  now : ∀ job p, l.now = some (job, p) → rg Does (Fair isalnum str) (Fair isalnum str) p
    (fun o w' => Named w' ∧ ∀ r, o = .ok (some r) → job.Settled isalnum w' r) w
  ended : ∀ e ∈ l.ended, e.1.Settled isalnum w e.2

theorem outboxes_fair {ι : Type} : Threads.RelyGuarantee (fun _ : ι => Turn isalnum str cfg)
    (fun _ => Worker.Inv isalnum str) (fun _ => Fair isalnum str) (fun _ _ => Fair isalnum str) where
  stable c l w w' h hR := by
    obtain ⟨hw', hg⟩ := hR h.named
    refine ⟨hw', h.safe.grows hg, fun job p hp => ?_, fun e he => (h.ended e he).mono hg⟩
    refine Prog.rg_stable (fun _ _ _ => Fair.trans) (fun o w₁ w₂ hQ hR' => ?_) (h.now job p hp) hR
    obtain ⟨hw₂, hg₂⟩ := hR' hQ.1
    exact ⟨hw₂, fun r hr => (hQ.2 r hr).mono hg₂⟩
  step c l w l' w' h hstep := by
    cases hstep with
    | begin job ended =>
      refine ⟨.refl w, h.named, h.safe, fun job' p hp => ?_, h.ended⟩
      cases hp
      exact rg_job job h.named
    | call job p p' ended _ _ next =>
      obtain ⟨hfair, hp'⟩ := Prog.rg_next Fair.refl (h.now job p rfl) next
      obtain ⟨hw', hg⟩ := hfair h.named
      refine ⟨hfair, hw', h.safe.grows hg, fun job' q hq => ?_, fun e he => (h.ended e he).mono hg⟩
      cases hq
      exact hp'
    | ends job r ended =>
      refine ⟨.refl w, h.named, h.safe, fun job' p hp => (by cases hp), fun e he => ?_⟩
      rcases List.mem_append.1 he with he | he
      · exact h.ended e he
      · obtain rfl := List.mem_singleton.1 he
        exact (h.now job _ rfl).2 r rfl
    | cut now ended => exact ⟨.refl w, h.named, h.safe, fun job' p hp => (by cases hp), h.ended⟩
  compatible _ _ _ _ _ _ h := h

/-- **No page is lost.**  A page whose dispatch came to its end was taken by a channel; or else it stands in the outbox or
was taken from there, unless the log says that it could not be written. -/
theorem page_never_lost {ι : Type} {s : Threads.State ι Worker World} (hs : (outboxes isalnum str cfg ι).Reachable s)
    {c : ι} {subject body : Text} {r : Results} (h : (Job.page subject body, r) ∈ (s.thread c).ended) :
    ∃ secrets, if r.any = true then Took s.world (redact isalnum subject secrets) (redact isalnum body secrets)
      else (.outboxFailed, redact isalnum subject secrets) ∈ s.world.logs ∨ ∃ name at',
        let payload := payloadOf (redact isalnum subject secrets) (redact isalnum body secrets) "page" at'
        s.world.files name = some (some payload) ∨ Redelivered isalnum str s.world payload := by
  have hstart (s : Threads.State ι Worker World) (h : Named s.world ∧ s.world.kept = [] ∧ ∀ c, s.thread c = ⟨none, []⟩)
      (c : ι) : (s.thread c).Inv isalnum str s.world := by
    obtain ⟨hnamed, hkept, hidle⟩ := h
    refine ⟨hnamed, fun e he => ?_, fun job p hp => ?_, fun e he => ?_⟩
    · rw [hkept] at he
      cases he
    · rw [hidle c] at hp
      cases hp
    · rw [hidle c] at he
      cases he
  have hinv := outboxes_fair.always hstart s hs c
  obtain ⟨secrets, htook, hkept⟩ := hinv.ended _ h
  refine ⟨secrets, ?_⟩
  by_cases hany : r.any = true
  · rw [if_pos hany]
    exact htook hany
  · rw [if_neg hany]
    rcases hkept (by simpa using hany) with hlog | ⟨name, at', hmem⟩
    · exact .inl hlog
    · exact .inr ⟨name, at', hinv.safe _ hmem⟩

namespace Sample

/-- No channel is configured. -/
def silent : Settings := ⟨[], [], [], [], 3⟩

def empty : World := ⟨false, fun _ => none, ∅, [], [], []⟩

def title : Text := "KRX".toList

def plain : Json → Text := fun _ => []

def queued : World :=
  let w := { empty with dir := true }.keep "20250102T063000000000_0a1b2c3d.json"
    (payloadOf (redact Char.isAlphanum title []) (redact Char.isAlphanum [] []) "page" [])
  { w with logs := [(.undelivered, redact Char.isAlphanum title [])] }

/-- The page of a process that is alone. -/
theorem alone {job : Job} {p : Program (Option Results)} {o : Except Exn (Option Results)} (h : Prog.Ends Does p w o w') :
    ∀ {r : Results}, o = .ok (some r) → Relation.ReflTransGen (outboxes isalnum str cfg Unit).step
      ⟨w, fun _ => ⟨some (job, p), []⟩⟩ ⟨w', fun _ => ⟨none, [(job, r)]⟩⟩ := by
  induction h with
  | ret a w =>
    intro r hr
    cases hr
    exact .single ⟨(), .ends job r [] w, fun d hd => absurd rfl hd⟩
  | raise e w =>
    intro r hr
    cases hr
  | call r hop hk ih =>
    intro r hr
    exact .head ⟨(), .call job _ _ [] _ _ (.call _ hop), fun d hd => absurd rfl hd⟩ (ih hr)

theorem dispatched : Prog.Ends Does ((Job.page title []).prog Char.isAlphanum plain silent) empty
    (.ok (some ⟨false, false⟩)) queued := by
  refine .call [] (.alertSecretValues [] _) (.call (.ok ()) (.mkdir _) (.call ("20250102T063000000000_0a1b2c3d.json", [])
    (.stamp _ _ _) (.call (.ok ()) (.written _ _ _ ?_) (.call () (.log _ _ _) (.ret _ _)))))
  exact Set.notMem_empty _

theorem reachable : (outboxes Char.isAlphanum plain silent Unit).Reachable
    ⟨queued, fun _ => ⟨none, [(.page title [], ⟨false, false⟩)]⟩⟩ := by
  refine ⟨⟨empty, fun _ => ⟨none, []⟩⟩, ⟨fun n hn => absurd rfl hn, rfl, fun _ => rfl⟩, ?_⟩
  exact .head ⟨(), .begin _ [] empty, fun d hd => absurd rfl hd⟩ (alone dispatched rfl)

end Sample

/-- A page that no channel took is in the outbox. -/
theorem page_never_lost_queued : ∃ secrets, if (Results.mk false false).any = true then
      Took Sample.queued (redact Char.isAlphanum Sample.title secrets) (redact Char.isAlphanum [] secrets)
    else (.outboxFailed, redact Char.isAlphanum Sample.title secrets) ∈ Sample.queued.logs ∨ ∃ name at',
      let payload := payloadOf (redact Char.isAlphanum Sample.title secrets) (redact Char.isAlphanum [] secrets) "page" at'
      Sample.queued.files name = some (some payload) ∨
        Redelivered Char.isAlphanum Sample.plain Sample.queued payload :=
  page_never_lost (c := ()) Sample.reachable (List.mem_singleton.2 rfl)

end Outbox
