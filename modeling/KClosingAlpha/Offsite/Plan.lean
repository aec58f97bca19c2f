import KClosingAlpha.Offsite.Ledger
import Mathlib
/-!
# Plan — the files of a date, and the segments they are packed into

The capture tree maps relative paths to files and links.  A plan takes the files of one date that are neither in flight nor
recorded, in the order of their paths, and packs them greedily: each is in exactly one segment, and a segment above the
limit holds one file.
-/
namespace Offsite

open Py

/-! ## The tree -/

inductive Node (Bytes : Type) where
  | file (b : Bytes)
  | link
  deriving DecidableEq

/-- The names a relative path is made of. -/
def components (path : String) : List (List Char) := path.toList.splitOn '/'

/-- A path made of names of files and directories. -/
def cleanPath (path : String) : Bool := (components path).all (fun c => c ≠ [] && c ≠ ['.'] && c ≠ ['.', '.'])

/-- The path is in the directory. -/
def inside (dir path : String) : Bool := (dir ++ "/").toList.isPrefixOf path.toList

/-- Two paths, neither of which is the other or a directory of it. -/
def apart (p q : String) : Bool := p ≠ q && !inside p q && !inside q p

/-- Below the capture root: files and links at clean paths, none of which is a directory of another. -/
structure Tree (Bytes : Type) where
  nodes : List (String × Node Bytes)
  clean : ∀ n ∈ nodes, cleanPath n.1 = true
  apart : nodes.Pairwise (fun n n' => apart n.1 n'.1 = true)

/-- What the runtime and the tools outside compute. -/
structure Tools (Bytes Archive : Type) where
  size : Bytes → Nat
  sha256 : Bytes → String
  /-- Of a text in UTF-8. -/
  sha256Text : List Char → String
  /-- The compressed archive of files under their names. -/
  tar : List (String × Bytes) → Archive
  /-- The members of an archive; `none` is one that is no regular file. -/
  untar : Archive → List (String × Option Bytes)
  archiveSize : Archive → Nat
  md5 : Archive → String

/-- The tiers that are packed: `RUN_DIR_DEPTH` names no others. -/
inductive Tier where
  | raw
  | normalized
  | manifests
  deriving DecidableEq

def Tier.name : Tier → String
  | raw => "raw"
  | normalized => "normalized"
  | manifests => "manifests"

/-- The days of a month. -/
def monthDays (year month : Nat) : Nat :=
  if month = 2 then (if year % 4 = 0 ∧ (year % 100 ≠ 0 ∨ year % 400 = 0) then 29 else 28)
  else if month ∈ [4, 6, 9, 11] then 30 else 31

/-- `_is_valid_date`: the name of a directory is a date in ISO format. -/
def isDateName (name : String) : Bool :=
  match name.toList with
  | [y₁, y₂, y₃, y₄, '-', m₁, m₂, '-', d₁, d₂] =>
    let year := Nat.ofDigitChars 10 [y₁, y₂, y₃, y₄] 0
    let month := Nat.ofDigitChars 10 [m₁, m₂] 0
    let day := Nat.ofDigitChars 10 [d₁, d₂] 0
    [y₁, y₂, y₃, y₄, m₁, m₂, d₁, d₂].all Char.isDigit && decide (1 ≤ year) && decide (1 ≤ month) && decide (month ≤ 12) &&
      decide (1 ≤ day) && decide (day ≤ monthDays year month)
  | _ => false

inductive SealError where
  | emptyMemberSet
  | sealedSizeChanged (path : String)
  | missing (path : String)
  | sizeChanged (path : String)
  | hashChanged (path : String)
  | roundTrip
  | remoteMismatch (remote : String)
  | transfer
  | ledger (e : LedgerError)
  deriving DecidableEq

/-- The directory of a date. -/
def dateDir (tier : Tier) (tradingDate : String) : String := tier.name ++ "/" ++ tradingDate

/-- The name of a file in flight: a lock or a stage. -/
def isInflight (path : String) : Bool :=
  let name := (components path).getLastD []
  ".lock".toList.isSuffixOf name || ("stage-".toList.isPrefixOf name && ".tmp".toList.isSuffixOf name)

section

variable {Bytes Archive : Type}

namespace Tree

def lookup (t : Tree Bytes) (path : String) : Option (Node Bytes) := t.nodes.lookup path

def empty : Tree Bytes := ⟨[], fun _ h => (by cases h), .nil⟩

/-- A file or a link is created. -/
def add (t : Tree Bytes) (path : String) (node : Node Bytes) (hclean : cleanPath path = true)
    (hapart : ∀ n ∈ t.nodes, Offsite.apart n.1 path = true) : Tree Bytes where
  nodes := t.nodes ++ [(path, node)]
  clean := List.forall_mem_append.2 ⟨t.clean, List.forall_mem_singleton.2 hclean⟩
  apart := List.pairwise_append.2 ⟨t.apart, List.pairwise_singleton _ _, fun n hn n' hn' => by
    rw [List.mem_singleton.1 hn']
    exact hapart n hn⟩

/-- What is left when the others are gone. -/
def filter (t : Tree Bytes) (keep : String × Node Bytes → Bool) : Tree Bytes where
  nodes := t.nodes.filter keep
  clean n hn := t.clean n (List.mem_of_mem_filter hn)
  apart := t.apart.sublist List.filter_sublist

/-- A path is gone. -/
def remove (t : Tree Bytes) (path : String) : Tree Bytes := t.filter (fun n => n.1 ≠ path)

/-- `os.walk` of a date's directory. -/
def walk (t : Tree Bytes) (tier : Tier) (tradingDate : String) : List (String × Node Bytes) :=
  t.nodes.filter (fun n => inside (dateDir tier tradingDate) n.1)

end Tree

/-! ## The plan -/

/-- A file of the tree, as the plan describes it. -/
def Tools.member (tools : Tools Bytes Archive) (path : String) (b : Bytes) : SegmentMember :=
  ⟨path, tools.size b, tools.sha256 b⟩

/-- `sealed`: the recorded paths with their sizes; the last record of a path counts. -/
def sealedSizes (entries : List LedgerEntry) : List (String × Int) :=
  (entries.flatMap (fun e => e.members.map (fun m => (m.path, m.size)))).reverse

/-- The members of `pending`, in the order of the walk. -/
def pendingOf (tools : Tools Bytes Archive) (recorded : List (String × Int)) :
    List (String × Node Bytes) → Except SealError (List SegmentMember)
  | [] => .ok []
  | (_, .link) :: rest => pendingOf tools recorded rest
  | (path, .file b) :: rest =>
    if isInflight path then pendingOf tools recorded rest
    else match recorded.lookup path with
      | some size => if (tools.size b : Int) ≠ size then .error (.sealedSizeChanged path) else pendingOf tools recorded rest
      | none => (tools.member path b :: ·) <$> pendingOf tools recorded rest

mutual

/-- The rest of the plan when the next member starts a segment. -/
def packNext (limit : Int) : List SegmentMember → List (List SegmentMember)
  | [] => []
  | m :: rest => if m.size ≥ limit then [m] :: packNext limit rest else packFrom limit [m] m.size rest

/-- The rest of the plan after a current segment. -/
def packFrom (limit : Int) (current : List SegmentMember) (bytes : Int) : List SegmentMember → List (List SegmentMember)
  | [] => [current]
  | m :: rest =>
    if bytes + m.size > limit then
      current :: (if m.size ≥ limit then [m] :: packNext limit rest else packFrom limit [m] m.size rest)
    else packFrom limit (current ++ [m]) (bytes + m.size) rest

end

/-- `plan_segments`. -/
def planSegments (tools : Tools Bytes Archive) (limit : Int) (t : Tree Bytes) (tier : Tier) (tradingDate : String)
    (recorded : List (String × Int)) : Except SealError (List (List SegmentMember)) := do
  let pending ← pendingOf tools recorded (t.walk tier tradingDate)
  pure (packNext limit (pending.mergeSort (fun a b => a.path ≤ b.path)))

/-- `segment_name`. -/
def segmentName (tools : Tools Bytes Archive) (members : List SegmentMember) : Except SealError String :=
  if members = [] then .error .emptyMemberSet
  else
    let items := members.mergeSort (fun a b => a.path ≤ b.path)
    let text := items.flatMap (fun m => m.path.toList ++ '\x00' :: (Json.printInt m.size ++ ['\n']))
    .ok ("seg-" ++ String.ofList ((tools.sha256Text text).toList.take 16))

/-! ## Each file once, and no more than the limit -/

/-- Within the limit, or one file. -/
def Fits (limit : Int) (segment : List SegmentMember) : Prop :=
  (segment.map SegmentMember.size).sum ≤ limit ∨ segment.length = 1

mutual

theorem packNext_flatten (limit : Int) : ∀ members, (packNext limit members).flatten = members
  | [] => rfl
  | m :: rest => by
    rw [packNext]
    split_ifs with h
    · rw [List.flatten_cons, packNext_flatten limit rest]
      rfl
    · exact packFrom_flatten limit [m] m.size rest

theorem packFrom_flatten (limit : Int) (current : List SegmentMember) (bytes : Int) :
    ∀ members, (packFrom limit current bytes members).flatten = current ++ members
  | [] => by simp [packFrom]
  | m :: rest => by
    rw [packFrom]
    split_ifs with hfull hbig
    · rw [List.flatten_cons, List.flatten_cons, packNext_flatten limit rest]
      rfl
    · rw [List.flatten_cons, packFrom_flatten limit [m] m.size rest]
      rfl
    · rw [packFrom_flatten limit (current ++ [m]) _ rest, List.append_assoc]
      rfl

end

mutual

/-- What holds of every file alone and of what is filled up within the limit holds of every segment. -/
theorem packNext_forall (limit : Int) {P : List SegmentMember → Prop} (hone : ∀ m, P [m])
    (hmore : ∀ current m, P current → ((current ++ [m]).map SegmentMember.size).sum ≤ limit → P (current ++ [m])) :
    ∀ members, ∀ segment ∈ packNext limit members, P segment
  | [], _, h => by cases h
  | m :: rest, segment, h => by
    rw [packNext] at h
    split_ifs at h with hbig
    · rcases List.mem_cons.1 h with rfl | h
      · exact hone m
      · exact packNext_forall limit hone hmore rest segment h
    · exact packFrom_forall limit hone hmore (by simp) (hone m) rest segment h

theorem packFrom_forall (limit : Int) {P : List SegmentMember → Prop} (hone : ∀ m, P [m])
    (hmore : ∀ current m, P current → ((current ++ [m]).map SegmentMember.size).sum ≤ limit → P (current ++ [m]))
    {current : List SegmentMember} {bytes : Int} (hbytes : (current.map SegmentMember.size).sum = bytes) (hcurrent : P current) :
    ∀ members, ∀ segment ∈ packFrom limit current bytes members, P segment
  | [], segment, h => by
    rw [List.mem_singleton.1 h]
    exact hcurrent
  | m :: rest, segment, h => by
    have hsum : ((current ++ [m]).map SegmentMember.size).sum = bytes + m.size := by simp [hbytes]
    rw [packFrom] at h
    split_ifs at h with hfull hbig
    · rcases List.mem_cons.1 h with rfl | h
      · exact hcurrent
      · rcases List.mem_cons.1 h with rfl | h
        · exact hone m
        · exact packNext_forall limit hone hmore rest segment h
    · rcases List.mem_cons.1 h with rfl | h
      · exact hcurrent
      · exact packFrom_forall limit hone hmore (by simp) (hone m) rest segment h
    · exact packFrom_forall limit hone hmore hsum (hmore current m hcurrent (by omega)) rest segment h

end

/-! ## What a plan is made of -/

variable {tools : Tools Bytes Archive} {limit : Int} {t : Tree Bytes} {tier : Tier} {tradingDate : String}
  {recorded : List (String × Int)} {segments : List (List SegmentMember)}

theorem apart_ne {p q : String} (h : apart p q = true) : p ≠ q := by
  unfold apart at h
  simp only [Bool.and_eq_true, decide_eq_true_eq] at h
  exact h.1.1

theorem lookup_eq_some_iff_mem {α : Type} : ∀ {l : List (String × α)}, l.Pairwise (fun a b => a.1 ≠ b.1) →
    ∀ {p : String} {a : α}, l.lookup p = some a ↔ (p, a) ∈ l
  | [], _, p, a => by simp
  | (q, b) :: l, h, p, a => by
    obtain ⟨hq, hl⟩ := List.pairwise_cons.1 h
    rw [List.lookup_cons, List.mem_cons]
    by_cases hpq : p = q
    · subst hpq
      rw [beq_self_eq_true]
      refine ⟨fun heq => .inl (by rw [Option.some.inj heq]), fun hmem => ?_⟩
      rcases hmem with heq | hmem
      · rw [(Prod.mk.inj heq).2]
      · exact absurd rfl (hq (p, a) hmem)
    · rw [beq_eq_false_iff_ne.2 hpq]
      refine (lookup_eq_some_iff_mem hl).trans ⟨.inr, fun hmem => ?_⟩
      rcases hmem with heq | hmem
      · exact absurd (Prod.mk.inj heq).1 hpq
      · exact hmem

theorem Tree.lookup_iff {path : String} {node : Node Bytes} : t.lookup path = some node ↔ (path, node) ∈ t.nodes :=
  lookup_eq_some_iff_mem (t.apart.imp apart_ne)

theorem Tree.mem_walk {n : String × Node Bytes} :
    n ∈ t.walk tier tradingDate ↔ t.lookup n.1 = some n.2 ∧ inside (dateDir tier tradingDate) n.1 = true := by
  rw [Tree.walk, List.mem_filter, Tree.lookup_iff]

/-- A file of the date that is neither in flight nor recorded. -/
structure Pending (tools : Tools Bytes Archive) (t : Tree Bytes) (tier : Tier) (tradingDate : String)
    (recorded : List (String × Int)) (m : SegmentMember) : Prop where
  file : ∃ b, t.lookup m.path = some (.file b) ∧ m = tools.member m.path b
  ofDate : inside (dateDir tier tradingDate) m.path = true
  settled : isInflight m.path = false
  unrecorded : recorded.lookup m.path = none

/-- Each pending file is in exactly one segment, no segment is empty, and one above the limit holds one file. -/
structure Partitions (tools : Tools Bytes Archive) (limit : Int) (t : Tree Bytes) (tier : Tier) (tradingDate : String)
    (recorded : List (String × Int)) (segments : List (List SegmentMember)) : Prop where
  nodup : (segments.flatten.map SegmentMember.path).Nodup
  mem : ∀ m, m ∈ segments.flatten ↔ Pending tools t tier tradingDate recorded m
  nonempty : ∀ segment ∈ segments, segment ≠ []
  fits : ∀ segment ∈ segments, Fits limit segment

/-- What is first in the walk is a new member, or is passed over. -/
theorem pendingOf_cons {path : String} {node : Node Bytes} {rest : List (String × Node Bytes)} {pending : List SegmentMember}
    (h : pendingOf tools recorded ((path, node) :: rest) = .ok pending) :
    (∃ b pending', node = .file b ∧ isInflight path = false ∧ recorded.lookup path = none ∧
      pendingOf tools recorded rest = .ok pending' ∧ pending = tools.member path b :: pending') ∨
    ((∀ b, node = .file b → ¬ (isInflight path = false ∧ recorded.lookup path = none)) ∧
      pendingOf tools recorded rest = .ok pending) := by
  cases node with
  | link => exact .inr ⟨fun b hb => (by cases hb), h⟩
  | file b =>
    rw [pendingOf] at h
    by_cases hflight : isInflight path = true
    · rw [if_pos hflight] at h
      exact .inr ⟨fun _ _ hsettled => by simp [hflight] at hsettled, h⟩
    · rw [if_neg hflight] at h
      cases hrec : recorded.lookup path with
      | some size =>
        rw [hrec] at h
        dsimp only at h
        by_cases hsize : (tools.size b : Int) ≠ size
        · rw [if_pos hsize] at h
          cases h
        · rw [if_neg hsize] at h
          exact .inr ⟨fun _ _ hnone => (by simp at hnone), h⟩
      | none =>
        rw [hrec] at h
        obtain ⟨pending', hpending', rfl⟩ := (Exc.map_eq_ok _ _ _).1 h
        exact .inl ⟨b, pending', rfl, Bool.eq_false_iff.2 hflight, rfl, hpending', rfl⟩

theorem mem_pendingOf : ∀ {nodes : List (String × Node Bytes)} {pending : List SegmentMember},
    pendingOf tools recorded nodes = .ok pending → ∀ m, m ∈ pending ↔
      (∃ b, (m.path, .file b) ∈ nodes ∧ m = tools.member m.path b) ∧ isInflight m.path = false ∧ recorded.lookup m.path = none
  | [], pending, h, m => by
    cases h
    simp
  | (path, node) :: rest, pending, h, m => by
    rcases pendingOf_cons h with ⟨b, pending', rfl, hflight, hrec, hpending', rfl⟩ | ⟨hnot, hpending⟩
    · rw [List.mem_cons, mem_pendingOf hpending']
      constructor
      · rintro (rfl | ⟨⟨b', hb', hm⟩, hrest⟩)
        · exact ⟨⟨b, List.mem_cons_self, rfl⟩, hflight, hrec⟩
        · exact ⟨⟨b', List.mem_cons_of_mem _ hb', hm⟩, hrest⟩
      · rintro ⟨⟨b', hb', hm⟩, hrest⟩
        rcases List.mem_cons.1 hb' with heq | hb'
        · obtain ⟨hpath, hnode⟩ := Prod.mk.inj heq
          cases hnode
          rw [hpath] at hm
          exact .inl hm
        · exact .inr ⟨⟨b', hb', hm⟩, hrest⟩
    · rw [mem_pendingOf hpending]
      constructor
      · exact fun ⟨⟨b, hb, hm⟩, hrest⟩ => ⟨⟨b, List.mem_cons_of_mem _ hb, hm⟩, hrest⟩
      · rintro ⟨⟨b, hb, hm⟩, hrest⟩
        rcases List.mem_cons.1 hb with heq | hb
        · obtain ⟨hpath, hnode⟩ := Prod.mk.inj heq
          rw [hpath] at hrest
          exact absurd hrest (hnot b hnode.symm)
        · exact ⟨⟨b, hb, hm⟩, hrest⟩

theorem pendingOf_sublist : ∀ {nodes : List (String × Node Bytes)} {pending : List SegmentMember},
    pendingOf tools recorded nodes = .ok pending → (pending.map SegmentMember.path).Sublist (nodes.map Prod.fst)
  | [], pending, h => by
    cases h
    exact .refl _
  | (path, node) :: rest, pending, h => by
    rcases pendingOf_cons h with ⟨b, pending', -, -, -, hpending', rfl⟩ | ⟨-, hpending⟩
    · exact (pendingOf_sublist hpending').cons_cons _
    · exact (pendingOf_sublist hpending).cons _

/-- A plan is made when no recorded file has another size. -/
theorem exists_planSegments (h : ∀ path b size, t.lookup path = some (.file b) → recorded.lookup path = some size →
    (tools.size b : Int) = size) : ∃ segments, planSegments tools limit t tier tradingDate recorded = .ok segments := by
  have hpending : ∀ nodes : List (String × Node Bytes), (∀ n ∈ nodes, t.lookup n.1 = some n.2) →
      ∃ pending, pendingOf tools recorded nodes = .ok pending := by
    intro nodes
    induction nodes with
    | nil => exact fun _ => ⟨[], rfl⟩
    | cons n rest ih =>
      intro hnodes
      obtain ⟨hn, hrest⟩ := List.forall_mem_cons.1 hnodes
      obtain ⟨pending, hpending⟩ := ih hrest
      obtain ⟨path, _ | b⟩ := n
      · rw [pendingOf]
        by_cases hflight : isInflight path = true
        · exact ⟨pending, by rw [if_pos hflight, hpending]⟩
        · rw [if_neg hflight]
          cases hrec : recorded.lookup path with
          | some size =>
            have hsize := h path _ size hn hrec
            exact ⟨pending, by simp [hsize, hpending]⟩
          | none => exact ⟨_ :: pending, by rw [hpending]; rfl⟩
      · exact ⟨pending, by rw [pendingOf, hpending]⟩
  obtain ⟨pending, hp⟩ := hpending (t.walk tier tradingDate) (fun n hn => (Tree.mem_walk.1 hn).1)
  exact ⟨packNext limit (pending.mergeSort (fun a b => a.path ≤ b.path)), by rw [planSegments, hp]; rfl⟩

/-- **The planned segments partition what is pending.** -/
theorem planSegments_partitions (h : planSegments tools limit t tier tradingDate recorded = .ok segments) :
    Partitions tools limit t tier tradingDate recorded segments := by
  obtain ⟨pending, hpending, hsegments⟩ := (Exc.bind_eq_ok _ _ _).1 h
  rw [Exc.pure_eq_ok] at hsegments
  rw [← hsegments]
  have hperm := List.mergeSort_perm pending (fun a b => a.path ≤ b.path)
  constructor
  · rw [packNext_flatten, (hperm.map _).nodup_iff]
    refine (pendingOf_sublist hpending).nodup ?_
    rw [List.nodup_iff_pairwise_ne, List.pairwise_map]
    exact (t.apart.imp apart_ne).sublist List.filter_sublist
  · intro m
    rw [packNext_flatten, hperm.mem_iff, mem_pendingOf hpending]
    constructor
    · rintro ⟨⟨b, hb, hm⟩, hsettled, hnone⟩
      obtain ⟨hlookup, hinside⟩ := Tree.mem_walk.1 hb
      exact ⟨⟨b, hlookup, hm⟩, hinside, hsettled, hnone⟩
    · rintro ⟨⟨b, hb, hm⟩, hinside, hsettled, hnone⟩
      exact ⟨⟨b, Tree.mem_walk.2 ⟨hb, hinside⟩, hm⟩, hsettled, hnone⟩
  · exact packNext_forall limit (fun m => List.cons_ne_nil _ _) (fun current m _ _ => by simp) _
  · exact packNext_forall limit (fun m => .inr rfl) (fun current m _ hsum => .inl hsum) _

/-! ## What is recorded -/

theorem sealedSizes_lookup_eq_none {entries : List LedgerEntry} {path : String} :
    (sealedSizes entries).lookup path = none ↔ ∀ e ∈ entries, path ∉ e.paths := by
  rw [List.lookup_eq_none_iff]
  constructor
  · rintro h e he hmem
    obtain ⟨m, hm, rfl⟩ := List.mem_map.1 hmem
    have hpair : (m.path, m.size) ∈ sealedSizes entries :=
      List.mem_reverse.2 (List.mem_flatMap.2 ⟨e, he, List.mem_map.2 ⟨m, hm, rfl⟩⟩)
    simpa using h _ hpair
  · rintro h ⟨path', size⟩ hpair
    obtain ⟨e, he, hmem⟩ := List.mem_flatMap.1 (List.mem_reverse.1 hpair)
    obtain ⟨m, hm, heq⟩ := List.mem_map.1 hmem
    cases heq
    have hne : path ≠ m.path := by
      rintro rfl
      exact h e he (List.mem_map.2 ⟨m, hm, rfl⟩)
    simpa using hne

/-- A recorded size is that of a member. -/
theorem exists_member_of_lookup {entries : List LedgerEntry} {path : String} {size : Int}
    (h : (sealedSizes entries).lookup path = some size) : ∃ e ∈ entries, ∃ m ∈ e.members, m.path = path ∧ m.size = size := by
  obtain ⟨before, after, heq, -⟩ := List.lookup_eq_some_iff.1 h
  have hmem : (path, size) ∈ sealedSizes entries := by
    rw [heq]
    exact List.mem_append_right _ List.mem_cons_self
  obtain ⟨e, he, hmem⟩ := List.mem_flatMap.1 (List.mem_reverse.1 hmem)
  obtain ⟨m, hm, hpair⟩ := List.mem_map.1 hmem
  exact ⟨e, he, m, hm, (Prod.mk.inj hpair).1, (Prod.mk.inj hpair).2⟩

/-! ## Where a path belongs -/

theorem safePath_of_clean {path : String} (h : cleanPath path = true) : safePath path = true := by
  unfold cleanPath components at h
  rw [List.all_eq_true] at h
  have hparent : ['.', '.'] ∉ path.toList.splitOn '/' := fun hmem => by simpa using h _ hmem
  have hempty : [] ∉ path.toList.splitOn '/' := fun hmem => by simpa using h _ hmem
  unfold safePath
  cases hpath : path.toList with
  | nil =>
    rw [hpath] at hempty
    simp at hempty
  | cons c cs =>
    rw [hpath] at hparent hempty
    have hslash : c ≠ '/' := by
      rintro rfl
      apply hempty
      rw [List.splitOn_cons_eq_if_modifyHead, if_pos (by decide)]
      exact List.mem_cons_self
    simp [hparent, hslash]

theorem slash_not_mem_name (tier : Tier) : '/' ∉ tier.name.toList := by cases tier <;> decide

theorem slash_not_mem_date {name : String} (h : isDateName name = true) : '/' ∉ name.toList := by
  unfold isDateName at h
  split at h
  next y₁ y₂ y₃ y₄ m₁ m₂ d₁ d₂ heq =>
    simp only [Bool.and_eq_true, List.all_cons, List.all_nil, and_true] at h
    have hdigit (c : Char) (hc : c.isDigit = true) : '/' ≠ c := by
      rintro rfl
      cases hc
    obtain ⟨⟨⟨⟨⟨⟨hy₁, hy₂, hy₃, hy₄, hm₁, hm₂, hd₁, hd₂⟩, -⟩, -⟩, -⟩, -⟩, -⟩ := h
    rw [heq]
    simp [hdigit _ hy₁, hdigit _ hy₂, hdigit _ hy₃, hdigit _ hy₄, hdigit _ hm₁, hdigit _ hm₂, hdigit _ hd₁, hdigit _ hd₂]
  next => cases h

theorem append_slash_inj : ∀ {a b r r' : List Char}, '/' ∉ a → '/' ∉ b → a ++ '/' :: r = b ++ '/' :: r' → a = b ∧ r = r'
  | [], [], _, _, _, _, h => ⟨rfl, (List.cons.inj h).2⟩
  | [], c :: b, _, _, _, hb, h => absurd ((List.cons.inj h).1 ▸ List.mem_cons_self) hb
  | c :: a, [], _, _, ha, _, h => absurd ((List.cons.inj h).1 ▸ List.mem_cons_self) ha
  | c :: a, c' :: b, _, _, ha, hb, h => by
    obtain ⟨rfl, htail⟩ := List.cons.inj h
    obtain ⟨rfl, rfl⟩ :=
      append_slash_inj (fun hm => ha (List.mem_cons_of_mem _ hm)) (fun hm => hb (List.mem_cons_of_mem _ hm)) htail
    exact ⟨rfl, rfl⟩

/-- A path is below one date of one tier. -/
theorem dateDir_unique {tier tier' : Tier} {date date' path : String} (hdate : isDateName date = true)
    (hdate' : isDateName date' = true) (h : inside (dateDir tier date) path = true)
    (h' : inside (dateDir tier' date') path = true) : tier = tier' ∧ date = date' := by
  obtain ⟨rest, hrest⟩ := List.isPrefixOf_iff_prefix.1 h
  obtain ⟨rest', hrest'⟩ := List.isPrefixOf_iff_prefix.1 h'
  have heq := hrest.trans hrest'.symm
  simp only [dateDir, String.toList_append, List.append_assoc] at heq
  change tier.name.toList ++ '/' :: (date.toList ++ '/' :: rest) = tier'.name.toList ++ '/' :: (date'.toList ++ '/' :: rest') at heq
  obtain ⟨hname, htail⟩ := append_slash_inj (slash_not_mem_name tier) (slash_not_mem_name tier') heq
  obtain ⟨hdates, -⟩ := append_slash_inj (slash_not_mem_date hdate) (slash_not_mem_date hdate') htail
  refine ⟨?_, String.toList_inj.1 hdates⟩
  have hnames : tier.name = tier'.name := String.toList_inj.1 hname
  revert hnames
  cases tier <;> cases tier' <;> decide

end

end Offsite
