import KClosingAlpha.Lib.Masked
import KClosingAlpha.Lib.Regex
import KClosingAlpha.Py.Value
import Mathlib.Data.List.DropRight
/-!
# Redaction — credentials masked in texts that leave the process (`utils/redaction.py`)

A text is masked in three passes: the configured values, the values of credential pairs, the tokens after `Bearer`.
Each pass only replaces pieces of the text by blanks, quotes and asterisks, so that none of them can bring back a value
the first one removed.  Whether a character is alphanumeric is a parameter.
-/
namespace Redaction

open Regex (Text Place Pat)
open Regex.Pat (chr word either star one plus boundary)
open Masked (Masks replace)

/-- `REDACTION_MASK`. -/
def redactionMask : Text := ['*', '*', '*']

/-- `SECRET_MIN_MASK_CHARS`. -/
def secretMinMaskChars : Nat := 8

/-- `CREDENTIAL_KEY_SUFFIXES`. -/
def credentialKeySuffixes : List Text :=
  ["appkey", "appsecret", "secretkey", "authkey", "apikey", "accesstoken", "approvalkey", "crtfckey", "clientsecret",
    "apppassword"].map String.toList

/-- `CREDENTIAL_EXACT_KEYS`. -/
def credentialExactKeys : List Text := ["token", "authorization"].map String.toList

/-! ## Key-value pairs -/

/-- The quotes a value stands in: those of the groups `val_de`, `val_dq` and `val_sq`. -/
inductive Quote where
  | de | dq | sq
  deriving DecidableEq

def Quote.text : Quote → Text
  | de => ['\\', '"']
  | dq => ['"']
  | sq => ['\'']

inductive KvValue where
  | quoted (q : Quote) (v : Text)
  | bare (v : Text)
  deriving DecidableEq

def KvValue.text : KvValue → Text
  | quoted q v => q.text ++ v ++ q.text
  | bare v => v

/-- The groups of a match of `_KV_RE`. -/
structure KvMatch where
  keyTok : Text
  key : Text
  pre : Text
  sep : Char
  post : Text
  value : KvValue
  deriving DecidableEq

def KvMatch.head (m : KvMatch) : Text := m.keyTok ++ m.pre ++ [m.sep] ++ m.post

def KvMatch.text (m : KvMatch) : Text := m.head ++ m.value.text

def isKeyChar (c : Char) : Bool := c.isAlphanum || c == '_' || c == '.' || c == '-'

def isPadding (c : Char) : Bool := c == ' ' || c == '\t'

/-- `[^\s,;&)}\]'"]`. -/
def isBareChar (c : Char) : Bool := !Py.isSpace c && !([',', ';', '&', ')', '\x7d', ']', '\'', '"'].contains c)

def inQuotes (q : Quote) (body : Pat Text) : Pat Text := do
  let _ ← word q.text
  let v ← body
  let _ ← word q.text
  pure v

/-- A backslash and a character of a class. -/
def escape (c : Char → Bool) : Pat Text := do
  let b ← chr (· == '\\')
  let d ← chr c
  pure [b, d]

def keyRe : Pat (Text × Text) :=
  let inside (q : Quote) : Pat (Text × Text) := do
    let k ← inQuotes q (plus isKeyChar)
    pure (q.text ++ k ++ q.text, k)
  either (inside .de) (either (inside .dq) (either (inside .sq) (do
    let k ← plus isKeyChar
    pure (k, k))))

def valueRe : Pat KvValue :=
  let inside (q : Quote) (body : Pat Text) : Pat KvValue := do
    let v ← inQuotes q body
    pure (.quoted q v)
  either (inside .de (star (either (one (fun c => c != '"' && c != '\\' && c != '\n')) (escape (fun c => c != '"' && c != '\n')))))
    (either (inside .dq (star (either (one (fun c => c != '"' && c != '\\' && c != '\n')) (escape (· != '\n')))))
      (either (inside .sq (star (either (one (fun c => c != '\'' && c != '\\' && c != '\n')) (escape (· != '\n')))))
        (do
          let v ← plus isBareChar
          pure (.bare v))))

/-- `_KV_RE`. -/
def kvRe : Pat KvMatch := do
  let (keyTok, key) ← keyRe
  let pre ← star (one isPadding)
  let sep ← chr (fun c => c == ':' || c == '=')
  let post ← star (one isPadding)
  let value ← valueRe
  pure { keyTok, key, pre, sep, post, value }

/-- `text.lower()`, as far as a comparison with ASCII letters sees it. -/
def lower (t : Text) : Text := t.map Char.toLower

def normalizeKey (key : Text) : Text := (lower key).filter (fun c => c != '_' && c != '-')

def isCredentialKey (normalized : Text) : Bool :=
  let stripped := normalized.rdropWhile Char.isDigit
  credentialExactKeys.contains normalized || credentialKeySuffixes.any (·.isSuffixOf normalized) ||
    (stripped != normalized && credentialKeySuffixes.any (·.isSuffixOf stripped))

/-- `_mask_kv_match`. -/
def maskKvMatch (m : KvMatch) : Text :=
  let isAuthorization := normalizeKey m.key == "authorization".toList
  match m.value with
  | .quoted q v =>
    if isAuthorization && "bearer ".toList.isPrefixOf (lower (Py.stripChars v)) then
      m.head ++ q.text ++ (Py.stripChars v).takeWhile (fun c => !Py.isSpace c) ++ ' ' :: redactionMask ++ q.text
    else m.head ++ q.text ++ redactionMask ++ q.text
  | .bare v =>
    -- `authorization: Bearer <token>`: the token is left to the last pass
    if isAuthorization && lower (Py.stripChars v) == "bearer".toList then m.head ++ Py.stripChars v
    else m.head ++ redactionMask

/-- The loop of `_mask_credential_pairs` from a place, in at most `fuel` rounds. -/
def maskPairsFrom : Nat → Place → Option Text
  | 0, _ => none
  | fuel + 1, q => match kvRe.search q with
    | none => some q.after
    | some (skipped, m, q') =>
      if isCredentialKey (normalizeKey m.key) then
        (maskPairsFrom fuel q').map (fun rest => skipped ++ maskKvMatch m ++ rest)
      else
        let resume := skipped.length + m.keyTok.length + m.pre.length + 1
        (maskPairsFrom fuel (q.advance resume)).map (fun rest => q.after.take resume ++ rest)

def maskCredentialPairs (fuel : Nat) (text : Text) : Option Text := maskPairsFrom fuel (.start text)

/-! ## Bearer tokens -/

structure BearerMatch where
  scheme : Text
  pad : Text
  tok : Text

def anyCase : Text → Pat Text
  | [] => pure []
  | c :: w => do
    let d ← chr (fun d => d.toLower == c)
    let w ← anyCase w
    pure (d :: w)

/-- `_BEARER_RE`. -/
def bearerRe (isalnum : Char → Bool) : Pat BearerMatch := do
  boundary (fun c => isalnum c || c == '_')
  let scheme ← anyCase "bearer".toList
  let pad ← plus isPadding
  let tok ← plus isBareChar
  pure { scheme, pad, tok }

def maskBearerMatch (m : BearerMatch) : Text :=
  if m.tok = redactionMask then m.scheme ++ m.pad ++ m.tok else m.scheme ++ ' ' :: redactionMask

/-! ## The passes -/

/-- The values that are looked for, the longest first. -/
def candidates (secretValues : List Text) : List Text :=
  ((secretValues.map Py.stripChars).foldl
    (fun seen v => if v.length < secretMinMaskChars ∨ v ∈ seen then seen else seen ++ [v]) []).mergeSort
    (fun a b => decide (b.length ≤ a.length))

def maskValues (secretValues : List Text) (text : Text) : Text :=
  (candidates secretValues).foldl (fun t v => if v <:+: t then replace v redactionMask t else t) text

/-- `redact_secrets`; none when the loop over the pairs has not come to its end within `fuel` rounds. -/
def redactSecrets (isalnum : Char → Bool) (fuel : Nat) (text : Text) (secretValues : List Text) : Option Text :=
  if text = [] then some text
  else (maskCredentialPairs fuel (maskValues secretValues text)).map ((bearerRe isalnum).sub maskBearerMatch)

example : redactSecrets Char.isAlphanum 9 "Authorization: Bearer tok".toList [] = some "Authorization: Bearer ***".toList := by
  decide +kernel

/-! ## What each pass changes -/

/-- A character of a value that is sure to be removed: no blank, no quote, no asterisk. -/
def Solid (c : Char) : Prop := Py.isSpace c = false ∧ c ≠ '\'' ∧ c ≠ '"' ∧ c ≠ '*'

theorem not_solid_mask : ∀ c ∈ redactionMask, ¬ Solid c := by
  simp [redactionMask, Solid]

theorem not_solid_blank_mask : ∀ c ∈ ' ' :: redactionMask, ¬ Solid c := by
  rintro c hc ⟨hs, -, -, ha⟩
  rcases List.mem_cons.1 hc with rfl | hc
  · cases hs
  · exact not_solid_mask c hc ⟨hs, by simp_all [redactionMask]⟩

theorem Quote.exists_last (q : Quote) : ∃ e c, q.text = e ++ [c] ∧ ¬ Solid c := by
  cases q with
  | de => exact ⟨['\\'], '"', rfl, by simp [Solid]⟩
  | dq => exact ⟨[], '"', rfl, by simp [Solid]⟩
  | sq => exact ⟨[], '\'', rfl, by simp [Solid]⟩

theorem strip_of_solid {t : Text} (h : ∀ c ∈ t, Py.isSpace c = false) : Py.stripChars t = t := by
  have hdrop : ∀ {l : Text}, (∀ c ∈ l, Py.isSpace c = false) → l.dropWhile Py.isSpace = l := by
    intro l hl
    cases l with
    | nil => rfl
    | cons c l => rw [List.dropWhile_cons_of_neg (by simp [hl c])]
  rw [Py.stripChars, hdrop h, hdrop (by simpa using h), List.reverse_reverse]

/-- A value: the blanks in front, its first word and the rest. -/
theorem exists_firstWord (v : Text) : ∃ blanks rest, (∀ c ∈ blanks, Py.isSpace c = true) ∧
    v = blanks ++ (Py.stripChars v).takeWhile (fun c => !Py.isSpace c) ++ rest := by
  generalize htail : ((v.dropWhile Py.isSpace).reverse.takeWhile Py.isSpace).reverse = tail
  have hcore : v.dropWhile Py.isSpace = Py.stripChars v ++ tail := by
    have h := List.takeWhile_append_dropWhile (p := Py.isSpace) (l := (v.dropWhile Py.isSpace).reverse)
    rw [← htail, Py.stripChars, ← List.reverse_append, h, List.reverse_reverse]
  have hword := List.takeWhile_append_dropWhile (p := fun c => !Py.isSpace c) (l := Py.stripChars v)
  refine ⟨v.takeWhile Py.isSpace, (Py.stripChars v).dropWhile (fun c => !Py.isSpace c) ++ tail,
    fun c hc => List.mem_takeWhile_imp hc, ?_⟩
  calc v = v.takeWhile Py.isSpace ++ v.dropWhile Py.isSpace := (List.takeWhile_append_dropWhile).symm
    _ = v.takeWhile Py.isSpace ++ (Py.stripChars v ++ tail) := by rw [hcore]
    _ = v.takeWhile Py.isSpace ++ ((Py.stripChars v).takeWhile (fun c => !Py.isSpace c) ++
        (Py.stripChars v).dropWhile (fun c => !Py.isSpace c) ++ tail) := by rw [hword]
    _ = _ := by simp only [List.append_assoc]

/-! ### What the patterns read -/

theorem reads_inQuotes {q : Quote} {body : Pat Text} {Q : Text → Text → Prop} (h : body.Reads Q) :
    (inQuotes q body).Reads (fun v w => ∃ u, w = q.text ++ u ++ q.text ∧ Q v u) := by
  refine Pat.reads_bind ((Pat.reads_word _).imp fun _ u hu => Pat.reads_bind (h.imp fun v w hv =>
    Pat.reads_bind ((Pat.reads_word _).imp fun _ u' hu' => Pat.reads_pure ⟨w, ?_, hv⟩)))
  simp [hu.2, hu'.2]

theorem reads_escape (c : Char → Bool) : (escape c).Reads (fun a w => w = a) := by
  refine Pat.reads_bind ((Pat.reads_chr _).imp fun b u hu => Pat.reads_bind ((Pat.reads_chr _).imp fun d v hv =>
    Pat.reads_pure ?_))
  simp [hu.1, hv.1]

theorem reads_keyRe : keyRe.Reads (fun k w => w = k.1) := by
  have hinside (q : Quote) : (do
      let k ← inQuotes q (plus isKeyChar)
      pure (q.text ++ k ++ q.text, k) : Pat (Text × Text)).Reads (fun k w => w = k.1) := by
    refine Pat.reads_bind ((reads_inQuotes (Pat.reads_plus _)).imp fun k u hu => Pat.reads_pure ?_)
    obtain ⟨w, rfl, rfl, -⟩ := hu
    simp
  refine Pat.reads_either (hinside .de) (Pat.reads_either (hinside .dq) (Pat.reads_either (hinside .sq)
    (Pat.reads_bind ((Pat.reads_plus _).imp fun k u hu => Pat.reads_pure ?_))))
  simp [hu.1]

theorem reads_body (q : Quote) (c d : Char → Bool) :
    (inQuotes q (star (either (one c) (escape d)))).Reads (fun v w => w = q.text ++ v ++ q.text) := by
  refine (reads_inQuotes (Q := fun v w => w = v) (Pat.reads_star rfl ?_)).imp fun v w hw => ?_
  · exact (Pat.reads_either ((Pat.reads_one _).imp fun a w h => h.1) (reads_escape _)).imp
      fun a u hu b v hv => by rw [hu, hv]
  · obtain ⟨u, rfl, rfl⟩ := hw
    rfl

theorem isSpace_of_isBareChar {c : Char} (h : isBareChar c = true) : Py.isSpace c = false := by
  simp only [isBareChar, Bool.and_eq_true, Bool.not_eq_true'] at h
  exact h.1

/-- What is read of a value is its text, and a bare one has no blanks. -/
def KvValue.IsRead (v : KvValue) (w : Text) : Prop := w = v.text ∧ ∀ t, v = .bare t → ∀ c ∈ t, Py.isSpace c = false

theorem reads_valueRe : valueRe.Reads KvValue.IsRead := by
  have hinside (q : Quote) (c d : Char → Bool) : (do
      let v ← inQuotes q (star (either (one c) (escape d)))
      pure (.quoted q v) : Pat KvValue).Reads KvValue.IsRead := by
    refine Pat.reads_bind ((reads_body q c d).imp fun v u hu => Pat.reads_pure ⟨?_, by simp⟩)
    simp [KvValue.text, hu]
  refine Pat.reads_either (hinside .de _ _) (Pat.reads_either (hinside .dq _ _) (Pat.reads_either (hinside .sq _ _)
    (Pat.reads_bind ((Pat.reads_plus _).imp fun v u hu => Pat.reads_pure ⟨?_, ?_⟩))))
  · simp [KvValue.text, hu.1]
  · rintro t ⟨⟩ c hc
    exact isSpace_of_isBareChar (hu.2.2 c hc)

theorem reads_kvRe : kvRe.Reads (fun m w => w = m.text ∧ m.value.IsRead m.value.text) := by
  have hpad : (star (one isPadding)).Reads (fun a w => w = a) :=
    Pat.reads_star rfl ((Pat.reads_one _).imp fun a u hu b v hv => by rw [hu.1, hv])
  refine Pat.reads_bind (reads_keyRe.imp fun k u hu => Pat.reads_bind (hpad.imp fun pre w hpre =>
    Pat.reads_bind ((Pat.reads_chr _).imp fun sep w' hsep => Pat.reads_bind (hpad.imp fun post w'' hpost =>
      Pat.reads_bind (reads_valueRe.imp fun v x hv => Pat.reads_pure ?_)))))
  obtain ⟨rfl, hbare⟩ := hv
  refine ⟨?_, rfl, hbare⟩
  simp [KvMatch.text, KvMatch.head, hu, hpre, hsep.1, hpost]

/-! ### The passes -/

theorem masks_maskKvMatch {m : KvMatch} (h : m.value.IsRead m.value.text) : Masks Solid m.text (maskKvMatch m) := by
  have hmask (w : Text) : Masks Solid w redactionMask := .all w (by simp [redactionMask]) not_solid_mask
  have hhead : Masks Solid m.head m.head := .refl _
  rw [KvMatch.text, maskKvMatch]
  cases hv : m.value with
  | bare v =>
    dsimp only
    split_ifs
    · rw [strip_of_solid (h.2 v hv)]
      exact hhead.append (.refl _)
    · exact hhead.append (hmask v)
  | quoted q v =>
    dsimp only [KvValue.text]
    split_ifs
    · obtain ⟨blanks, rest, hblanks, hsplit⟩ := exists_firstWord v
      generalize (Py.stripChars v).takeWhile (fun c => !Py.isSpace c) = first at hsplit ⊢
      -- the blanks go with the quote in front of them, which stays
      have hquote : Masks Solid (q.text ++ blanks) q.text := by
        obtain ⟨e, c, he, hc⟩ := q.exists_last
        rw [he, List.append_assoc]
        exact (Masks.refl e).append (.all _ (by simp) (by simpa using hc))
      have hrest : Masks Solid rest (' ' :: redactionMask) := .all rest (by simp) not_solid_blank_mask
      have := hhead.append (((hquote.append (.refl first)).append hrest).append (.refl q.text))
      rw [hsplit]
      simpa using this
    · have := hhead.append (((Masks.refl q.text).append (hmask v)).append (.refl q.text))
      simpa using this

theorem length_resume_le {s w : Text} {m : KvMatch} {q q' : Place} (h : q.Moves (s ++ w) q') (hw : w = m.text) :
    s.length + m.keyTok.length + m.pre.length + 1 ≤ q.after.length := by
  rw [h.length, hw]
  simp [KvMatch.text, KvMatch.head]
  omega

/-- **A scan that ends has only masked the text.** -/
theorem masks_maskPairsFrom : ∀ {fuel : Nat} {q : Place} {out : Text}, maskPairsFrom fuel q = some out → Masks Solid q.after out
  | fuel + 1, q, out, h => by
    rw [maskPairsFrom] at h
    cases hs : kvRe.search q with
    | none =>
      rw [hs] at h
      obtain rfl := Option.some.inj h
      exact .refl _
    | some r =>
      obtain ⟨s, m, q'⟩ := r
      obtain ⟨w, hw, rfl, hread⟩ := Pat.search_spec reads_kvRe hs
      rw [hs] at h
      dsimp only at h
      split_ifs at h
      · obtain ⟨rest, hrest, rfl⟩ := Option.map_eq_some_iff.1 h
        rw [hw.after]
        exact ((Masks.refl s).append (masks_maskKvMatch hread)).append (masks_maskPairsFrom hrest)
      · obtain ⟨rest, hrest, rfl⟩ := Option.map_eq_some_iff.1 h
        have := (Masks.refl (q.after.take (s.length + m.keyTok.length + m.pre.length + 1))).append (masks_maskPairsFrom hrest)
        simpa [Place.advance] using this

/-- **The scan ends**: each round goes past a separator. -/
theorem maskPairsFrom_ends : ∀ {n : Nat} {q : Place}, q.after.length < n → ∃ out, ∀ fuel, q.after.length < fuel →
    maskPairsFrom fuel q = some out
  | n + 1, q, hn => by
    cases hs : kvRe.search q with
    | none =>
      refine ⟨q.after, fun fuel hfuel => ?_⟩
      obtain ⟨fuel, rfl⟩ := Nat.exists_eq_succ_of_ne_zero (by omega : fuel ≠ 0)
      rw [maskPairsFrom, hs]
    | some r =>
      obtain ⟨s, m, q'⟩ := r
      obtain ⟨w, hw, hread⟩ := Pat.search_spec reads_kvRe hs
      have hle := length_resume_le hw hread.1
      by_cases hkey : isCredentialKey (normalizeKey m.key) = true
      · have hlt : q'.after.length < q.after.length := by
          rw [hw.length, hread.1]
          simp only [KvMatch.text, KvMatch.head, List.length_append, List.length_cons]
          omega
        obtain ⟨out, hout⟩ := maskPairsFrom_ends (n := n) (q := q') (by omega)
        refine ⟨s ++ maskKvMatch m ++ out, fun fuel hfuel => ?_⟩
        obtain ⟨fuel, rfl⟩ := Nat.exists_eq_succ_of_ne_zero (by omega : fuel ≠ 0)
        rw [maskPairsFrom, hs]
        simp [hkey, hout fuel (by omega)]
      · have hlt : (q.advance (s.length + m.keyTok.length + m.pre.length + 1)).after.length < q.after.length := by
          simp [Place.advance]
          omega
        obtain ⟨out, hout⟩ := maskPairsFrom_ends (n := n) (Nat.lt_of_lt_of_le hlt (Nat.le_of_lt_succ hn))
        refine ⟨q.after.take (s.length + m.keyTok.length + m.pre.length + 1) ++ out, fun fuel hfuel => ?_⟩
        obtain ⟨fuel, rfl⟩ := Nat.exists_eq_succ_of_ne_zero (by omega : fuel ≠ 0)
        rw [maskPairsFrom, hs]
        simp [hkey, hout fuel (by omega)]

theorem reads_anyCase : ∀ w : Text, (anyCase w).Reads (fun a u => u = a)
  | [] => Pat.reads_pure rfl
  | _ :: w => Pat.reads_bind ((Pat.reads_chr _).imp fun d u hd => Pat.reads_bind ((reads_anyCase w).imp fun v u' hv =>
      Pat.reads_pure (by simp [hd.1, hv])))

theorem masks_bearer (isalnum : Char → Bool) (t : Text) : Masks Solid t ((bearerRe isalnum).sub maskBearerMatch t) := by
  refine Pat.sub_spec Masks.refl (fun h h' => h.append h') ?_ t
  refine Pat.reads_bind ((Pat.reads_boundary _).imp fun _ u hu => Pat.reads_bind ((reads_anyCase _).imp fun scheme w hw =>
    Pat.reads_bind ((Pat.reads_plus _).imp fun pad w' hpad => Pat.reads_bind ((Pat.reads_plus _).imp fun tok w'' htok =>
      Pat.reads_pure ?_))))
  rw [hu, hw, hpad.1, htok.1, maskBearerMatch]
  dsimp only
  split_ifs
  · simp
  · have := (Masks.refl scheme).append (Masks.all (pad ++ tok) (by simp) not_solid_blank_mask)
    simpa using this

/-! ### The values that are looked for -/

theorem mem_foldl_seen {v : Text} (hv : secretMinMaskChars ≤ v.length) : ∀ (values seen : List Text), v ∈ seen ∨ v ∈ values →
    v ∈ values.foldl (fun seen v => if v.length < secretMinMaskChars ∨ v ∈ seen then seen else seen ++ [v]) seen
  | [], seen, h => by simpa using h
  | u :: values, seen, h => by
    rw [List.foldl_cons]
    refine mem_foldl_seen hv values _ ?_
    by_cases hu : v = u
    · subst hu
      left
      split_ifs with hc
      · rcases hc with hc | hc
        · omega
        · exact hc
      · simp
    · rcases h with h | h
      · left
        split_ifs
        · exact h
        · simp [h]
      · exact .inr ((List.mem_cons.1 h).resolve_left hu)

theorem mem_candidates {s : Text} {secretValues : List Text} (hs : s ∈ secretValues)
    (hlen : secretMinMaskChars ≤ (Py.stripChars s).length) : Py.stripChars s ∈ candidates secretValues :=
  (List.mergeSort_perm _ _).mem_iff.2 (mem_foldl_seen hlen _ _ (.inr (List.mem_map_of_mem hs)))

theorem ne_nil_of_mem_candidates {v : Text} {secretValues : List Text} (hv : v ∈ candidates secretValues) : v ≠ [] := by
  have hgo : ∀ (values seen : List Text), (∀ u ∈ seen, u ≠ []) →
      ∀ u ∈ values.foldl (fun seen v => if v.length < secretMinMaskChars ∨ v ∈ seen then seen else seen ++ [v]) seen, u ≠ [] := by
    intro values
    induction values with
    | nil => exact fun seen h => h
    | cons w values ih =>
      intro seen h
      rw [List.foldl_cons]
      refine ih _ ?_
      split_ifs with hc
      · exact h
      · rw [not_or] at hc
        intro u hu
        rcases List.mem_append.1 hu with hu | hu
        · exact h u hu
        · rintro rfl
          obtain rfl := List.mem_singleton.1 hu
          simp [secretMinMaskChars] at hc
  exact hgo _ [] (by simp) v ((List.mergeSort_perm _ _).mem_iff.1 hv)

/-- **A value that is looked for is gone after the first pass.** -/
theorem not_infix_maskValues {s : Text} {secretValues : List Text} (hs : s ∈ candidates secretValues)
    (hsolid : ∀ c ∈ s, Solid c) (text : Text) : ¬ s <:+: maskValues secretValues text := by
  have hstep : ∀ (v t : Text), v ≠ [] → Masks Solid t (if v <:+: t then replace v redactionMask t else t) := by
    intro v t hv
    split_ifs
    · exact Masked.masks_replace hv (by simp [redactionMask]) not_solid_mask t
    · exact .refl t
  have hkeep : ∀ (values : List Text) (t : Text), (∀ v ∈ values, v ≠ []) → ¬ s <:+: t →
      ¬ s <:+: values.foldl (fun t v => if v <:+: t then replace v redactionMask t else t) t := by
    intro values
    induction values with
    | nil => exact fun t _ h => h
    | cons v values ih =>
      intro t hne h
      exact ih _ (fun u hu => hne u (by simp [hu])) fun hi => h ((hstep v t (hne v (by simp))).infix_of_word hsolid hi)
  obtain ⟨l, r, hlr⟩ := List.append_of_mem hs
  have hne : ∀ v ∈ r, v ≠ [] := by
    intro v hv
    have hmem : v ∈ candidates secretValues := by simp [hlr, hv]
    exact ne_nil_of_mem_candidates hmem
  rw [maskValues, hlr, List.foldl_append, List.foldl_cons]
  refine hkeep r _ hne ?_
  split_ifs with hi
  · exact Masked.not_infix_replace (ne_nil_of_mem_candidates hs) hsolid (by simp [redactionMask]) not_solid_mask _
  · exact hi

/-- **No configured secret leaves.**  The scan over the pairs ends on every text; and of every collection of values, none
with at least eight characters and without blanks, quotes and asterisks is in the redacted text. -/
theorem redactSecrets_hides (isalnum : Char → Bool) :
    (∀ text, ∃ out, ∀ fuel, text.length < fuel → maskCredentialPairs fuel text = some out) ∧
    ∀ text secretValues, ∃ out,
      (∀ fuel, (maskValues secretValues text).length < fuel → redactSecrets isalnum fuel text secretValues = some out) ∧
      ∀ s ∈ secretValues, secretMinMaskChars ≤ (Py.stripChars s).length → (∀ c ∈ s, Solid c) → ¬ s <:+: out := by
  have hends (text : Text) : ∃ out, ∀ fuel, text.length < fuel → maskCredentialPairs fuel text = some out :=
    maskPairsFrom_ends (n := text.length + 1) (q := .start text) (by simp [Place.start])
  refine ⟨hends, fun text secretValues => ?_⟩
  by_cases ht : text = []
  · refine ⟨[], fun fuel _ => by simp [redactSecrets, ht], fun s _ hlen hsolid hi => ?_⟩
    simp [List.infix_nil.1 hi, Py.stripChars, secretMinMaskChars] at hlen
  obtain ⟨mid, hmid⟩ := hends (maskValues secretValues text)
  refine ⟨_, fun fuel hfuel => by rw [redactSecrets, if_neg ht, hmid fuel hfuel, Option.map_some],
    fun s hs hlen hsolid hi => ?_⟩
  have hstrip : Py.stripChars s = s := strip_of_solid fun c hc => (hsolid c hc).1
  have hgone : s ∈ candidates secretValues := hstrip ▸ mem_candidates hs hlen
  have hpairs : Masks Solid (maskValues secretValues text) mid := masks_maskPairsFrom (hmid _ (Nat.lt_succ_self _))
  exact not_infix_maskValues hgone hsolid text
    (hpairs.infix_of_word hsolid ((masks_bearer isalnum mid).infix_of_word hsolid hi))

end Redaction
