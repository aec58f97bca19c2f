import KClosingAlpha.Lib.Exc
import KClosingAlpha.Lib.System
import KClosingAlpha.Py.Json
/-!
# Ledger — the seal ledger, one line an entry

Each committed segment is appended as a line of JSON; the reader wants every line of the file readable.  An append that is
cut leaves the beginning of a line behind: nothing, the whole line, or a piece that the reader stops at from then on.
-/
namespace Offsite

open Py

structure SegmentMember where
  path : String
  size : Int
  sha256 : String
  deriving DecidableEq

structure LedgerEntry where
  tier : String
  tradingDate : String
  segmentName : String
  remotePath : String
  members : List SegmentMember
  archiveBytes : Int
  archiveMd5 : String
  committedAt : String
  deriving DecidableEq

namespace SegmentMember

/-- With its keys sorted. -/
def toJson (m : SegmentMember) : Json :=
  .obj [("path", .str m.path), ("sha256", .str m.sha256), ("size", .int m.size)]

end SegmentMember

namespace LedgerEntry

/-- `_entry_to_dict`, with its keys sorted. -/
def toJson (e : LedgerEntry) : Json :=
  .obj [("archive_bytes", .int e.archiveBytes), ("archive_md5", .str e.archiveMd5), ("committed_at", .str e.committedAt),
    ("members", .arr (e.members.map SegmentMember.toJson)), ("remote_path", .str e.remotePath),
    ("segment_name", .str e.segmentName), ("tier", .str e.tier), ("trading_date", .str e.tradingDate)]

def paths (e : LedgerEntry) : List String := e.members.map SegmentMember.path

/-- What `_append_ledger_entry` writes.  The characters are ASCII, so each is one byte. -/
def line (e : LedgerEntry) : List Char := e.toJson.print ++ ['\n']

end LedgerEntry

/-! ## Reading -/

inductive LedgerError where
  | undecodable
  | missing (key : String)
  | malformed
  | malformedMember
  | malformedPath (path : String)
  | mismatch
  | duplicate (path : String)
  deriving DecidableEq

/-- The text of the `ValueError`; that of the decoder follows the first. -/
def LedgerError.message : LedgerError → String
  | undecodable => "malformed ledger line: "
  | missing key => "malformed ledger line: missing '" ++ key ++ "'"
  | malformed => "malformed ledger line"
  | malformedMember => "malformed ledger member"
  | malformedPath path => "malformed ledger member path: '" ++ path ++ "'"
  | mismatch => "ledger entry tier/date mismatch"
  | duplicate path => "duplicate member path across entries: '" ++ path ++ "'"

/-- `isinstance(value, str)`. -/
def asStr : Json → Option String
  | .str s => some s
  | _ => none

/-- `isinstance(value, int)`: a bool is one. -/
def asInt : Json → Option Int
  | .int i => some i
  | .bool b => some b.toNat
  | _ => none

/-- A path that a member may have: not empty, relative, with no parent component. -/
def safePath (path : String) : Bool :=
  !path.toList.isEmpty && !(path.toList.splitOn '/').contains ['.', '.'] && path.toList.head? != some '/'

def memberFrom : Json → Except LedgerError SegmentMember
  | .obj kvs =>
    match (Json.obj kvs).get? "path" >>= asStr, (Json.obj kvs).get? "size" >>= asInt, (Json.obj kvs).get? "sha256" >>= asStr with
    | some path, some size, some sha256 =>
      if safePath path then .ok ⟨path, size, sha256⟩ else .error (.malformedPath path)
    | _, _, _ => .error .malformedMember
  | _ => .error .malformedMember

/-- `raw[key]`. -/
def item (raw : Json) (key : String) : Except LedgerError Json := (raw.get? key).elim (.error (.missing key)) .ok

/-- `_entry_from_dict`. -/
def entryFrom (raw : Json) : Except LedgerError LedgerEntry :=
  match raw with
  | .obj _ => do
    let tier ← item raw "tier"
    let tradingDate ← item raw "trading_date"
    let segmentName ← item raw "segment_name"
    let remotePath ← item raw "remote_path"
    let members ← item raw "members"
    let archiveBytes ← item raw "archive_bytes"
    let archiveMd5 ← item raw "archive_md5"
    let committedAt ← item raw "committed_at"
    match asStr tier, asStr tradingDate, asStr segmentName, asStr remotePath, members, asInt archiveBytes, asStr archiveMd5,
        asStr committedAt with
    | some tier, some tradingDate, some segmentName, some remotePath, .arr (m :: ms), some archiveBytes, some archiveMd5,
        some committedAt => do
      let members ← (m :: ms).mapM memberFrom
      pure { tier, tradingDate, segmentName, remotePath, members, archiveBytes, archiveMd5, committedAt }
    | _, _, _, _, _, _, _, _ => .error .malformed
  | _ => .error .malformed

/-- The characters `str.splitlines` ends a line at. -/
def isLineBreak (c : Char) : Bool := [10, 11, 12, 13, 28, 29, 30, 0x85, 0x2028, 0x2029].contains c.toNat

/-- The rest of the current line, then the lines after it. -/
def linesFrom (current : List Char) : List Char → List (List Char)
  | [] => if current = [] then [] else [current.reverse]
  | '\r' :: '\n' :: rest => current.reverse :: linesFrom [] rest
  | c :: rest => if isLineBreak c then current.reverse :: linesFrom [] rest else linesFrom (c :: current) rest

/-- `text.splitlines()`. -/
def splitLines (text : List Char) : List (List Char) := linesFrom [] text

/-- The paths of one entry, after those seen before. -/
def addSeen (seen : List String) : List SegmentMember → Except LedgerError (List String)
  | [] => .ok seen
  | m :: ms => if m.path ∈ seen then .error (.duplicate m.path) else addSeen (m.path :: seen) ms

/-- The lines of the file from one on, with the paths seen before it. -/
def readLines (tier tradingDate : String) : List String → List (List Char) → Except LedgerError (List LedgerEntry)
  | _, [] => .ok []
  | seen, text :: rest =>
    if text.all isSpace then readLines tier tradingDate seen rest
    else do
      let raw ← (Json.loads text).elim (.error .undecodable) .ok
      let entry ← entryFrom raw
      Exc.raiseIf (entry.tier ≠ tier ∨ entry.tradingDate ≠ tradingDate) LedgerError.mismatch
      let seen ← addSeen seen entry.members
      let entries ← readLines tier tradingDate seen rest
      pure (entry :: entries)

/-- `read_ledger` on the text of the file; a missing file reads as an empty one. -/
def readLedger (tier tradingDate : String) (text : List Char) : Except LedgerError (List LedgerEntry) :=
  readLines tier tradingDate [] (splitLines text)

/-! ## What was appended is read -/

/-- An entry the reader takes in a file of the date. -/
structure LedgerEntry.WellFormed (tier tradingDate : String) (e : LedgerEntry) : Prop where
  ofTier : e.tier = tier
  ofDate : e.tradingDate = tradingDate
  members : e.members ≠ []
  safe : ∀ m ∈ e.members, safePath m.path = true
  nodup : e.paths.Nodup

/-- The entries of a file, no path in two of them. -/
structure Committed (tier tradingDate : String) (entries : List LedgerEntry) : Prop where
  wellFormed : ∀ e ∈ entries, e.WellFormed tier tradingDate
  disjoint : entries.Pairwise (fun a b => a.paths.Disjoint b.paths)

/-- The file that holds the entries. -/
def render (entries : List LedgerEntry) : List Char := entries.flatMap LedgerEntry.line

theorem memberFrom_toJson {m : SegmentMember} (h : safePath m.path = true) : memberFrom m.toJson = .ok m := by
  simp [memberFrom, SegmentMember.toJson, Json.get?, List.lookup, asStr, asInt, h]

theorem mapM_memberFrom : ∀ {ms : List SegmentMember}, (∀ m ∈ ms, safePath m.path = true) →
    (ms.map SegmentMember.toJson).mapM memberFrom = .ok ms
  | [], _ => rfl
  | m :: ms, h => by
    obtain ⟨hm, hms⟩ := List.forall_mem_cons.1 h
    rw [List.map_cons, List.mapM_cons, memberFrom_toJson hm, Exc.ok_bind, mapM_memberFrom hms]
    rfl

theorem entryFrom_toJson {tier tradingDate : String} {e : LedgerEntry} (h : e.WellFormed tier tradingDate) :
    entryFrom e.toJson = .ok e := by
  obtain ⟨tier', tradingDate', segmentName, remotePath, members, archiveBytes, archiveMd5, committedAt⟩ := e
  have hms := mapM_memberFrom h.safe
  cases members with
  | nil => exact absurd rfl h.members
  | cons m ms =>
    simp only [entryFrom, LedgerEntry.toJson, item, Json.get?, List.reverse_cons, List.reverse_nil, List.nil_append,
      List.cons_append, List.lookup, String.reduceBEq, Option.elim_some, Exc.ok_bind, asStr, asInt, List.map_cons]
    rw [← List.map_cons, hms]
    rfl

theorem isLineBreak_of_printable {c : Char} (h : Json.Printable c) : isLineBreak c = false := by
  have hlow : 32 ≤ c.toNat := h.1
  have hhigh : c.toNat ≤ 126 := h.2
  simp only [isLineBreak, List.contains_eq_mem, List.mem_cons, List.not_mem_nil, or_false, decide_eq_false_iff_not]
  omega

theorem linesFrom_append {cs : List Char} (h : ∀ c ∈ cs, isLineBreak c = false) (current rest : List Char) :
    linesFrom current (cs ++ '\n' :: rest) = (current.reverse ++ cs) :: linesFrom [] rest := by
  induction cs generalizing current with
  | nil => simp [linesFrom, isLineBreak]
  | cons c cs ih =>
    obtain ⟨hc, hcs⟩ := List.forall_mem_cons.1 h
    have hcr : c ≠ '\r' := by
      rintro rfl
      cases hc
    rw [List.cons_append, linesFrom, if_neg (by simp [hc]), ih hcs]
    · simp
    · exact fun _ heq => absurd heq hcr

theorem splitLines_line (e : LedgerEntry) (rest : List Char) :
    splitLines (e.line ++ rest) = e.toJson.print :: splitLines rest := by
  unfold splitLines LedgerEntry.line
  rw [List.append_assoc, List.singleton_append,
    linesFrom_append (fun c hc => isLineBreak_of_printable (Json.printable_print _ c hc))]
  rfl

theorem addSeen_eq_ok : ∀ {ms : List SegmentMember} {seen : List String}, (ms.map SegmentMember.path).Nodup →
    (∀ m ∈ ms, m.path ∉ seen) → addSeen seen ms = .ok ((ms.map SegmentMember.path).reverse ++ seen)
  | [], _, _, _ => rfl
  | m :: ms, seen, hnodup, hseen => by
    obtain ⟨hm, hms⟩ := List.forall_mem_cons.1 hseen
    obtain ⟨hnot, hnodup⟩ := List.nodup_cons.1 hnodup
    rw [addSeen, if_neg hm, addSeen_eq_ok hnodup]
    · simp
    · intro m' hm' hmem
      rcases List.mem_cons.1 hmem with heq | hmem
      · exact hnot (heq ▸ List.mem_map_of_mem hm')
      · exact hms m' hm' hmem

section

variable {tier tradingDate : String} {e : LedgerEntry} {entries : List LedgerEntry}

theorem readLines_line (h : e.WellFormed tier tradingDate) {seen : List String} (hseen : ∀ m ∈ e.members, m.path ∉ seen)
    (rest : List Char) : readLines tier tradingDate seen (splitLines (e.line ++ rest)) =
      (e :: ·) <$> readLines tier tradingDate (e.paths.reverse ++ seen) (splitLines rest) := by
  have hblank : ¬ e.toJson.print.all isSpace = true := by simp [LedgerEntry.toJson, Json.print, isSpace]
  rw [splitLines_line, readLines, if_neg hblank, Json.loads_print, Option.elim_some, Exc.ok_bind, entryFrom_toJson h,
    Exc.ok_bind, Exc.raiseIf, if_neg (by simp [h.ofTier, h.ofDate]), Exc.ok_bind, addSeen_eq_ok h.nodup hseen, Exc.ok_bind]
  rfl

theorem readLines_render : ∀ {entries : List LedgerEntry} {seen : List String}, Committed tier tradingDate entries →
    (∀ e ∈ entries, ∀ m ∈ e.members, m.path ∉ seen) →
    readLines tier tradingDate seen (splitLines (render entries)) = .ok entries
  | [], _, _, _ => rfl
  | e :: entries, seen, h, hseen => by
    obtain ⟨he, hentries⟩ := List.forall_mem_cons.1 hseen
    obtain ⟨hdisj, hpair⟩ := List.pairwise_cons.1 h.disjoint
    obtain ⟨hwf, hwfs⟩ := List.forall_mem_cons.1 h.wellFormed
    change readLines tier tradingDate seen (splitLines (e.line ++ render entries)) = _
    rw [readLines_line hwf he, readLines_render ⟨hwfs, hpair⟩]
    · rfl
    · intro e' he' m hm hmem
      rcases List.mem_append.1 hmem with hmem | hmem
      · exact hdisj e' he' (List.mem_reverse.1 hmem) (List.mem_map_of_mem hm)
      · exact hentries e' he' m hm hmem

/-- **The file of committed entries is read back.** -/
theorem readLedger_render (h : Committed tier tradingDate entries) :
    readLedger tier tradingDate (render entries) = .ok entries :=
  readLines_render h (fun _ _ _ _ hmem => by cases hmem)

theorem render_snoc (entries : List LedgerEntry) (e : LedgerEntry) : render (entries ++ [e]) = render entries ++ e.line := by
  rw [render, List.flatMap_append, List.flatMap_singleton, ← render]

theorem Committed.snoc (h : Committed tier tradingDate entries) (he : e.WellFormed tier tradingDate)
    (hfresh : ∀ other ∈ entries, e.paths.Disjoint other.paths) : Committed tier tradingDate (entries ++ [e]) := by
  refine ⟨List.forall_mem_append.2 ⟨h.wellFormed, List.forall_mem_singleton.2 he⟩, ?_⟩
  refine List.pairwise_append.2 ⟨h.disjoint, List.pairwise_singleton _ _, fun other hother e' he' => ?_⟩
  rw [List.mem_singleton.1 he']
  exact fun path hpath hpath' => hfresh other hother hpath' hpath

/-! ## Appends that may be cut -/

/-- No member is recorded in what the reader makes of the file. -/
def Fresh (tier tradingDate : String) (text : List Char) (e : LedgerEntry) : Prop :=
  ∀ entries, readLedger tier tradingDate text = .ok entries → ∀ other ∈ entries, e.paths.Disjoint other.paths

/-- What a pass appends. -/
structure Sealable (tier tradingDate : String) (text : List Char) (e : LedgerEntry) : Prop extends
    e.WellFormed tier tradingDate where
  fresh : Fresh tier tradingDate text e

/-- The file, and the entries whose append returned. -/
structure LedgerFile where
  text : List Char
  completed : List LedgerEntry

/-- A call of `_append_ledger_entry`: it returns, or a crash or a full disk leaves the first bytes of its line. -/
inductive AppendStep (tier tradingDate : String) (mayCut : LedgerEntry → Nat → Prop) (f : LedgerFile) : LedgerFile → Prop
  | completes (e : LedgerEntry) (h : Sealable tier tradingDate f.text e) :
      AppendStep tier tradingDate mayCut f ⟨f.text ++ e.line, f.completed ++ [e]⟩
  | cut (e : LedgerEntry) (h : Sealable tier tradingDate f.text e) (n : Nat) (hn : n ≤ e.line.length) (hcut : mayCut e n) :
      AppendStep tier tradingDate mayCut f ⟨f.text ++ e.line.take n, f.completed⟩

/-- The appends to one file, from no file on. -/
def appends (tier tradingDate : String) (mayCut : LedgerEntry → Nat → Prop) : System LedgerFile where
  start f := f = ⟨[], []⟩
  step := AppendStep tier tradingDate mayCut

/-- The file is read, what was completed is there in order, and one more entry is read after it. -/
def Survives (tier tradingDate : String) (f : LedgerFile) : Prop :=
  ∃ entries, readLedger tier tradingDate f.text = .ok entries ∧ f.completed.Sublist entries ∧
    ∀ e, Sealable tier tradingDate f.text e → readLedger tier tradingDate (f.text ++ e.line) = .ok (entries ++ [e])

/-- A cut that leaves nothing or the whole line. -/
def LineOrNothing (e : LedgerEntry) (n : Nat) : Prop := n = 0 ∨ n = e.line.length

/-- The file is that of committed entries, the completed ones among them. -/
def Intact (tier tradingDate : String) (f : LedgerFile) : Prop :=
  ∃ entries, f.text = render entries ∧ Committed tier tradingDate entries ∧ f.completed.Sublist entries

theorem Sealable.committed (h : Committed tier tradingDate entries) (he : Sealable tier tradingDate (render entries) e) :
    Committed tier tradingDate (entries ++ [e]) :=
  h.snoc he.toWellFormed (he.fresh _ (readLedger_render h))

theorem Intact.survives {f : LedgerFile} (h : Intact tier tradingDate f) : Survives tier tradingDate f := by
  obtain ⟨entries, htext, hcommitted, hsub⟩ := h
  refine ⟨entries, ?_, hsub, fun e he => ?_⟩
  · rw [htext]
    exact readLedger_render hcommitted
  · rw [htext] at he ⊢
    rw [← render_snoc]
    exact readLedger_render (he.committed hcommitted)

theorem intact_inductive : (appends tier tradingDate LineOrNothing).Inductive (Intact tier tradingDate) where
  start := by
    rintro f rfl
    exact ⟨[], rfl, ⟨fun _ h => (by cases h), List.Pairwise.nil⟩, List.Sublist.refl _⟩
  step := by
    rintro f f' ⟨entries, htext, hcommitted, hsub⟩ hstep
    cases hstep with
    | completes e he =>
      rw [htext] at he
      refine ⟨entries ++ [e], ?_, he.committed hcommitted, hsub.append (List.Sublist.refl _)⟩
      rw [htext, render_snoc]
    | cut e he n hn hcut =>
      rcases hcut with rfl | rfl
      · refine ⟨entries, ?_, hcommitted, hsub⟩
        rw [List.take_zero, List.append_nil, htext]
      · rw [htext] at he
        refine ⟨entries ++ [e], ?_, he.committed hcommitted, hsub.trans (List.sublist_append_left _ _)⟩
        rw [List.take_length, htext, render_snoc]

/-- **As long as every append that was cut had written nothing or its whole line, the ledger survives.** -/
theorem ledger_survives (tier tradingDate : String) :
    (appends tier tradingDate LineOrNothing).Always (Survives tier tradingDate) :=
  fun _ hreach => (intact_inductive.always _ hreach).survives

end

section

private def oneEntry : LedgerEntry where
  tier := "raw"
  tradingDate := "2026-01-05"
  segmentName := "seg-0"
  remotePath := "r/raw/2026-01/2026-01-05/seg-0.tar.zst"
  members := [⟨"raw/2026-01-05/a", 3, "ab"⟩]
  archiveBytes := 40
  archiveMd5 := "cd"
  committedAt := "2026-01-05T08:00:00+00:00"

private theorem sealable_oneEntry : Sealable "raw" "2026-01-05" [] oneEntry where
  ofTier := rfl
  ofDate := rfl
  members := by decide
  safe := by decide +kernel
  nodup := by decide
  fresh := by
    rintro entries hentries other hother
    cases hentries
    cases hother

theorem ledger_survives_run : Survives "raw" "2026-01-05" ⟨oneEntry.line, [oneEntry]⟩ := by
  refine ledger_survives _ _ _ (.step (.step (.start rfl) (.cut oneEntry sealable_oneEntry 0 (Nat.zero_le _) (.inl rfl))) ?_)
  exact .completes oneEntry sealable_oneEntry

/-- An append that is cut inside its line leaves a file that is not read any more. -/
theorem torn_append_unread : ¬ ∀ tier tradingDate, (appends tier tradingDate (fun _ _ => True)).Always (Survives tier tradingDate) := by
  intro h
  obtain ⟨entries, hread, -⟩ := h "raw" "2026-01-05" ⟨oneEntry.line.take 20, []⟩
    (.step (.start rfl) (.cut oneEntry sealable_oneEntry 20 (by decide +kernel) trivial))
  have htorn : readLedger "raw" "2026-01-05" (oneEntry.line.take 20) = .error .undecodable := by decide +kernel
  rw [htorn] at hread
  cases hread

end

end Offsite
