import KClosingAlpha.Offsite.CoreRemote
import KClosingAlpha.Offsite.CoreRules
/-!
# CoreReads — what a run knows when it has read

Before the upload a run only reads, but for the base files it uploads; meanwhile the core files and the form change.  Each
lemma says what an answer was true of: the stats of the files that were there, the dated directories, the manifest of one of
them, and the base files on the remote.
-/
set_option linter.unusedSectionVars false

namespace CoreSnapshot

open PriceForm (Frame Kind RelPath OffsiteFile OffsiteManifest)
open Prog (Exec among among_bind among_ret among_raise among_mono)

variable {Cell Payload Digest : Type}

/-- The dated directories and what happened to them are the same. -/
structure Stays (P : PriceForm.World Cell Payload Digest → Prop) (w₀ w : World Cell Payload Digest) : Prop where
  days : w.days = w₀.days
  dir : w.dir = w₀.dir
  log : w.log = w₀.log
  form : P w.form

section

variable {P : PriceForm.World Cell Payload Digest → Prop} {w₀ w w' : World Cell Payload Digest}

theorem Stays.changes (h : Stays P w₀ w) (hc : Changes P w w') : Stays P w₀ w' :=
  ⟨hc.days.trans h.days, hc.dir.trans h.dir, hc.log.trans h.log, hc.form h.form⟩

theorem Stays.dirAt (h : Stays P w₀ w) (d : Day) : w.dirAt d = w₀.dirAt d := by
  unfold World.dirAt
  rw [h.days, h.dir]

end

variable {pd : PriceForm.Pandas Cell Payload Digest} {reader : Reader Payload}
  {P : PriceForm.World Cell Payload Digest → Prop}
  {C : (op : Op Cell Payload Digest) → World Cell Payload Digest → Ret op → Prop}
  {G : World Cell Payload Digest → World Cell Payload Digest → Prop} {I : World Cell Payload Digest → Prop}
  {w₀ w : World Cell Payload Digest} {α β : Type}

/-! ## Calls -/

theorem bind_among {E : Exec (Op Cell Payload Digest) Ret (World Cell Payload Digest)}
    {R : World Cell Payload Digest → World Cell Payload Digest → Prop} {p : Program Cell Payload Digest α}
    {f : α → Program Cell Payload Digest β} {φ : α → World Cell Payload Digest → Prop}
    {ψ : β → World Cell Payload Digest → Prop} (h : among E R G I p φ w)
    (hf : ∀ a w', I w' → φ a w' → among E R G I (f a) ψ w') : among E R G I (p >>= f) ψ w := among_bind h hf

theorem perform_among {E : Exec (Op Cell Payload Digest) Ret (World Cell Payload Digest)}
    {R : World Cell Payload Digest → World Cell Payload Digest → Prop} {op : Op Cell Payload Digest}
    {φ : Ret op → World Cell Payload Digest → Prop}
    (h : ∀ w₁, R w w₁ → ∀ r w', E op w₁ r w' → G w₁ w' ∧ I w' ∧ φ r w') :
    among E R G I (.perform op : Program Cell Payload Digest (Ret op)) φ w := by
  intro w₁ hw₁ r w' hop
  obtain ⟨hg, hi, hr⟩ := h w₁ hw₁ r w' hop
  exact ⟨hg, hi, fun a ha => by cases ha; exact hr⟩

/-- A call that answered, or raised. -/
theorem orRaise_among {E : Exec (Op Cell Payload Digest) Ret (World Cell Payload Digest)}
    {R : World Cell Payload Digest → World Cell Payload Digest → Prop} {e : Exn}
    {call : Program Cell Payload Digest (Option α)} {φ : α → World Cell Payload Digest → Prop}
    (h : among E R G I call (fun r w' => ∀ a, r = some a → φ a w') w) : among E R G I (orRaise e call) φ w := by
  refine bind_among h (fun r w' hw' hr => ?_)
  cases r with
  | none => exact among_raise hw'
  | some a => exact among_ret hw' (hr a rfl)

section reads

variable (hG : ∀ w, G w w)
include hG

/-- A call that only reads answers of a world of the moment. -/
theorem read_among {op : Op Cell Payload Digest} (hop : op.isRead = true) (hw : Stays P w₀ w) :
    among (Meets C (Does pd reader)) (Changes P) G (Stays P w₀) (.perform op : Program Cell Payload Digest (Ret op))
      (fun r w' => w'.blobs = w.blobs ∧ Does pd reader op w' r w' ∧ C op w' r) w := by
  refine perform_among fun w₁ hw₁ r w' hdoes => ?_
  obtain rfl := hdoes.1.of_isRead hop
  exact ⟨hG _, hw.changes hw₁, hw₁.blobs, hdoes⟩

/-! ## The core files -/

/-- What is known of the stat of a file that could be read. -/
structure Formed (B : Nat → Prop) (entry : CorePanelStat) : Prop where
  rows : entry.sha256 ≠ "" → isParquet entry.relpath = true → ∃ n : Nat, entry.rows = some (n : Int) ∧ B n
  noRows : isParquet entry.relpath = false → entry.rows = none

omit hG in
theorem nodup_addPaths (found : List String) : ∀ paths : List String, paths.Nodup → (addPaths paths found).Nodup := by
  induction found with
  | nil => exact fun _ h => h
  | cons child found ih =>
    intro paths h
    change (addPaths (if child ∈ paths then paths else paths ++ [child]) found).Nodup
    split_ifs with hc
    · exact ih paths h
    · exact ih _ (List.nodup_append.2 ⟨h, List.nodup_singleton _, fun a ha b hb => by
        rw [List.mem_singleton.1 hb]
        exact fun heq => hc (heq ▸ ha)⟩)

theorem corePanelPaths_among (hw : Stays P w₀ w) :
    among (Meets C (Does pd reader)) (Changes P) G (Stays P w₀) corePanelPaths (fun paths _ => paths.Nodup) w := by
  refine bind_among (read_among hG rfl hw) (fun paper w₁ hw₁ _ => ?_)
  refine bind_among (read_among hG rfl hw₁) (fun bundle w₂ hw₂ _ => among_ret hw₂ ?_)
  exact nodup_addPaths _ _ (nodup_addPaths _ _ (by decide +kernel))

theorem maxDateOf_among (relpath : String) : ∀ {columns : List String} {w : World Cell Payload Digest}, Stays P w₀ w →
    among (Meets C (Does pd reader)) (Changes P) G (Stays P w₀) (maxDateOf relpath columns) (fun _ _ => True) w
  | [], w, hw => among_ret hw trivial
  | column :: columns, w, hw => by
    refine bind_among (read_among hG rfl hw) (fun r w₁ hw₁ _ => ?_)
    rcases r with _ | _ | peak
    · exact maxDateOf_among relpath hw₁
    · exact among_ret hw₁ trivial
    · exact among_ret hw₁ trivial

variable {B : Nat → Prop}
  (hB : ∀ p (w : World Cell Payload Digest) (n : Nat), C (.numRows p) w (some n : Option Nat) → B n)
include hB

theorem statOne_among (relpath : String) (hw : Stays P w₀ w) :
    among (Meets C (Does pd reader)) (Changes P) G (Stays P w₀) (statOne relpath)
      (fun o _ => ∀ entry, o = some entry → entry.relpath = relpath ∧ Formed B entry) w := by
  refine bind_among (read_among hG rfl hw) (fun there w₁ hw₁ _ => ?_)
  cases there with
  | false => exact among_ret hw₁ fun entry h => by cases h
  | true =>
    refine bind_among (read_among hG rfl hw₁) (fun d w₂ hw₂ _ => ?_)
    rcases d with _ | ⟨size, sha256⟩
    · refine among_ret hw₂ fun entry h => ?_
      obtain rfl := Option.some.inj h
      exact ⟨rfl, fun h => absurd rfl h, fun _ => rfl⟩
    · dsimp only
      by_cases hp : isParquet relpath = true
      · rw [if_pos hp]
        refine bind_among (read_among hG rfl hw₂) (fun n w₃ hw₃ hn => ?_)
        cases n with
        | none =>
          refine among_ret hw₃ fun entry h => ?_
          obtain rfl := Option.some.inj h
          exact ⟨rfl, fun h => absurd rfl h, fun _ => rfl⟩
        | some n =>
          refine bind_among (maxDateOf_among hG relpath hw₃) (fun peak w₄ hw₄ _ => among_ret hw₄ fun entry h => ?_)
          obtain rfl := Option.some.inj h
          exact ⟨rfl, fun _ _ => ⟨n, rfl, hB _ _ _ hn.2.2⟩, fun h => absurd (hp.symm.trans h) (by decide)⟩
      · rw [if_neg hp]
        refine among_ret hw₂ fun entry h => ?_
        obtain rfl := Option.some.inj h
        exact ⟨rfl, fun _ h => absurd h hp, fun _ => rfl⟩

theorem statAll_among : ∀ {relpaths : List String} {w : World Cell Payload Digest}, Stays P w₀ w →
    among (Meets C (Does pd reader)) (Changes P) G (Stays P w₀) (statAll relpaths)
      (fun stats _ => (stats.map (·.relpath)).Sublist relpaths ∧ ∀ entry ∈ stats, Formed B entry) w
  | [], w, hw => among_ret hw ⟨.slnil, fun entry h => by cases h⟩
  | relpath :: relpaths, w, hw => by
    refine bind_among (statOne_among hG hB relpath hw) (fun o w₁ hw₁ ho => ?_)
    refine bind_among (statAll_among hw₁) (fun stats w₂ hw₂ hs => among_ret hw₂ ?_)
    cases o with
    | none => exact ⟨hs.1.cons _, hs.2⟩
    | some entry =>
      obtain ⟨hrel, hformed⟩ := ho entry rfl
      refine ⟨?_, fun e he => ?_⟩
      · rw [List.map_cons, hrel]
        exact hs.1.cons_cons _
      · rcases List.mem_cons.1 he with rfl | he
        · exact hformed
        · exact hs.2 e he

/-- **The stats are of different files, and well formed.** -/
theorem collectCoreStats_among (hw : Stays P w₀ w) :
    among (Meets C (Does pd reader)) (Changes P) G (Stays P w₀) collectCoreStats
      (fun stats _ => (stats.map (·.relpath)).Nodup ∧ ∀ entry ∈ stats, Formed B entry) w := by
  refine bind_among (corePanelPaths_among hG hw) (fun paths w₁ hw₁ hn => ?_)
  exact among_mono (statAll_among hG hB hw₁) fun stats _ hs => ⟨hs.1.nodup hn, hs.2⟩

omit hB

/-! ## The remote -/

/-- **The dated directories that are listed are those that are there**, in order. -/
theorem listRemoteSnapshotDirs_among (hw : Stays P w₀ w) :
    among (Meets C (Does pd reader)) (Changes P) G (Stays P w₀) listRemoteSnapshotDirs
      (fun names _ => names.Pairwise (· ≤ ·) ∧ ∀ d, d ∈ names ↔ d ∈ w₀.days) w := by
  refine bind_among (orRaise_among (among_mono (read_among hG rfl hw) ?_)) (fun c w₁ hw₁ hc => ?_)
    (φ := fun c w' => Does pd reader .lsfDirs w' (some c : Option (Completed (List String))) w')
  · rintro r w' ⟨-, hdoes, -⟩ c rfl
    exact hdoes
  obtain ⟨hzero, hmissing⟩ := hc.2 c rfl
  split_ifs with hrc hnot
  · refine among_ret hw₁ ⟨List.Pairwise.nil, fun d => ?_⟩
    rw [← hw₁.days, hmissing hrc hnot]
  · exact among_raise hw₁
  · refine among_ret hw₁ ⟨List.pairwise_insertionSort _ _, fun d => ?_⟩
    rw [(List.perm_insertionSort _ _).mem_iff, mem_days_of_lines (hzero (not_not.1 hrc)).1 (hzero (not_not.1 hrc)).2, hw₁.days]

/-- **What is read of the manifest of a dated directory**: its entries, or nothing when the call failed. -/
theorem readRemoteManifest_among (repr : Py.Json → String) (d : Day) (hw : Stays P w₀ w) :
    among (Meets C (Does pd reader)) (Changes P) G (Stays P w₀) (readRemoteManifest repr d)
      (fun previous _ => (∃ text, (w₀.dirAt d).manifest = some text ∧ previous = entriesOf repr text) ∨
        previous = [] ∧ ∃ (w' : World Cell Payload Digest) (c : Completed (List Char)), Stays P w₀ w' ∧ c.returncode ≠ 0 ∧
          C (.cat d) w' (some c : Option (Completed (List Char)))) w := by
  refine bind_among (orRaise_among (among_mono (read_among hG rfl hw) ?_)) (fun c w₁ hw₁ hc => among_ret hw₁ ?_)
    (φ := fun c w' => Does pd reader (.cat d) w' (some c : Option (Completed (List Char))) w' ∧
      C (.cat d) w' (some c : Option (Completed (List Char))))
  · rintro r w' ⟨-, hdoes⟩ c rfl
    exact hdoes
  split_ifs with hrc
  · exact .inr ⟨rfl, w₁, c, hw₁, hrc, hc.2⟩
  · refine .inl ⟨c.stdout, ?_, rfl⟩
    rw [← hw₁.dirAt]
    exact hc.1.2 c rfl (not_not.1 hrc)

/-! ## The form -/

theorem formIsThere_among : ∀ {entries : List (OffsiteFile Digest)} {w : World Cell Payload Digest}, Stays P w₀ w →
    among (Meets C (Does pd reader)) (Changes P) G (Stays P w₀) (formIsThere entries) (fun _ w' => w'.blobs = w.blobs) w
  | [], w, hw => among_ret hw rfl
  | entry :: entries, w, hw => by
    refine bind_among (read_among hG rfl hw) (fun size w₁ hw₁ h₁ => ?_)
    split_ifs
    · exact among_mono (formIsThere_among hw₁) fun _ _ h => h.trans h₁.1
    · exact among_ret hw₁ h₁.1

/-- A form that is taken was made from a monolith with the checksum of the stat. -/
theorem usablePriceHistoryForm_among (stat : CorePanelStat) (hw : Stays P w₀ w) :
    among (Meets C (Does pd reader)) (Changes P) G (Stays P w₀)
      (usablePriceHistoryForm stat : Program Cell Payload Digest _)
      (fun o _ => ∀ m, o = some m → m.sourceSha256 = stat.sha256) w := by
  refine bind_among (read_among hG rfl hw) (fun text w₁ hw₁ _ => ?_)
  cases text with
  | none => exact among_ret hw₁ fun m h => by cases h
  | some text =>
    dsimp only
    cases PriceForm.parseManifest text with
    | error e => exact among_ret hw₁ fun m h => by cases h
    | ok m =>
      dsimp only
      split_ifs with hsha
      · exact among_ret hw₁ fun m h => by cases h
      · refine bind_among (formIsThere_among hG hw₁) (fun ok w₂ hw₂ _ => ?_)
        split_ifs
        · refine among_ret hw₂ fun m' h => ?_
          obtain rfl := Option.some.inj h
          exact not_not.1 hsha
        · exact among_ret hw₂ fun m h => by cases h

/-- **A form that is taken is that of the monolith**, and the base files that are listed are on the remote. -/
theorem chooseForm_among (stats : List CorePanelStat) (hw : Stays P w₀ w) :
    among (Meets C (Does pd reader)) (Changes P) G (Stays P w₀) (chooseForm stats : Program Cell Payload Digest _)
      (fun o w' => ∀ m blobs, o = some (m, blobs) → (∃ stat ∈ stats, stat.relpath = priceHistoryRelpath ∧
        m.sourceSha256 = stat.sha256) ∧ ∀ p ∈ blobs, w'.blobs p ≠ none) w := by
  unfold chooseForm
  cases hfind : stats.find? (fun entry => decide (entry.relpath = priceHistoryRelpath)) with
  | none => exact among_ret hw fun m blobs h => by cases h
  | some stat =>
    refine bind_among (usablePriceHistoryForm_among hG stat hw) (fun o w₁ hw₁ ho => ?_)
    cases o with
    | none => exact among_ret hw₁ fun m blobs h => by cases h
    | some m =>
      refine bind_among (orRaise_among (among_mono (read_among hG rfl hw₁) ?_)) (fun c w₂ hw₂ hc => ?_)
        (φ := fun c w' => Does pd reader .lsfBlobs w' (some c : Option (Completed (List (RelPath Digest)))) w')
      · rintro r w' ⟨-, hdoes, -⟩ c rfl
        exact hdoes
      obtain ⟨hzero, -⟩ := hc.2 c rfl
      have hstat : stat.relpath = priceHistoryRelpath := by simpa using List.find?_some hfind
      unfold listed
      split_ifs with h3 h0
      · refine among_ret hw₂ fun m' blobs h => ?_
        cases h
        exact ⟨⟨stat, List.mem_of_find?_eq_some hfind, hstat, ho m rfl⟩, fun p hp => by cases hp⟩
      · exact among_raise hw₂
      · refine among_ret hw₂ fun m' blobs h => ?_
        cases h
        exact ⟨⟨stat, List.mem_of_find?_eq_some hfind, hstat, ho m rfl⟩, fun p hp => (hzero (not_not.1 h0) p).1 hp⟩

end reads

end CoreSnapshot
