import KClosingAlpha.Lib.System
import Mathlib.Logic.Function.Basic
/-!
# FileLock — the crash-safe exclusive lock of `exclusive_file_lock`

A caller opens the lock file, creating it when the path names none, takes the kernel's `flock` on the inode it opened,
and enters its block only if the path still names that inode; on the way out it unlinks the path and then closes its
descriptor, which drops the `flock`.  Every system call is one step, a crash may come between any two, and a file left
over from a crashed holder may lie there at the start.  That the path names the holder's inode for as long as the
holder is inside is the invariant (`Held`) everything else follows from.
-/
namespace FileLock

variable {Caller Inode : Type*}

/-- Where a caller stands in `exclusive_file_lock`, with the inode of its open descriptor. -/
inductive Phase (Inode : Type*) where
  /-- No descriptor: before `open`, between two attempts, or after a timeout. -/
  | away
  /-- The descriptor is open. -/
  | opened (ino : Inode)
  /-- `flock` succeeded; the identity is not checked yet. -/
  | locked (ino : Inode)
  /-- Inside the block. -/
  | body (ino : Inode)
  /-- The block is left, by a return or an exception; the path is not unlinked yet. -/
  | leaving (ino : Inode)
  /-- `unlink` returned or failed; the descriptor is still open. -/
  | unlinked (ino : Inode)
  /-- The identity check raised something else than `FileNotFoundError`: nobody closes the descriptor. -/
  | leaked (ino : Inode)
  /-- The process died. -/
  | dead

/-- The inode of an open descriptor. -/
def Phase.fd : Phase Inode → Option Inode
  | .opened i | .locked i | .body i | .leaving i | .unlinked i | .leaked i => some i
  | .away | .dead => none

/-- The inode a caller in this phase holds the `flock` of. -/
def Phase.held : Phase Inode → Option Inode
  | .locked i | .body i | .leaving i | .unlinked i | .leaked i => some i
  | .away | .opened _ | .dead => none

/-- The inode a caller that passed the identity check and did not unlink yet was shown the path to name. -/
def Phase.checked : Phase Inode → Option Inode
  | .body i | .leaving i => some i
  | _ => none

/-- The file system under the lock's path, and the callers. -/
structure State (Caller Inode : Type*) where
  /-- The inode the path names. -/
  path : Option Inode
  /-- The open file description that holds an inode's `flock`. -/
  flock : Inode → Option Caller
  phase : Caller → Phase Inode

/-- Some caller is inside its block. -/
def State.inBody (s : State Caller Inode) (c : Caller) : Prop := ∃ i, s.phase c = .body i

/-- **What holds between any two system calls**: an inode's `flock` is held by exactly the caller whose phase says so,
and the path names the inode of every caller from its identity check to its unlink. -/
structure Held (s : State Caller Inode) : Prop where
  flock : ∀ c i, (s.phase c).held = some i ↔ s.flock i = some c
  path : ∀ c i, (s.phase c).checked = some i → s.path = some i

theorem Phase.held_of_checked {p : Phase Inode} {i : Inode} (h : p.checked = some i) : p.held = some i := by
  cases p with
  | body j | leaving j => exact h
  | _ => cases h

theorem Phase.fd_of_held {p : Phase Inode} {i : Inode} (h : p.held = some i) : p.fd = some i := by
  cases p with
  | away | opened j | dead => cases h
  | _ => exact h

/-- **Two callers past their identity check are one.** -/
theorem Held.unique {s : State Caller Inode} (h : Held s) {c d : Caller} {i j : Inode}
    (hc : (s.phase c).checked = some i) (hd : (s.phase d).checked = some j) : c = d := by
  have hij : i = j := Option.some.inj ((h.path c i hc).symm.trans (h.path d j hd))
  have hfc := (h.flock c i).1 (Phase.held_of_checked hc)
  have hfd := (h.flock d j).1 (Phase.held_of_checked hd)
  rw [← hij, hfc] at hfd
  exact Option.some.inj hfd

/-- The path may come to name anything while nobody is between its identity check and its unlink. -/
theorem Held.rename {s : State Caller Inode} (h : Held s) (hn : ∀ d, (s.phase d).checked = none) (q : Option Inode) :
    Held { s with path := q } :=
  ⟨h.flock, fun d j hd => by rw [hn d] at hd; cases hd⟩

section steps

variable [DecidableEq Caller]

/-- The caller goes on to another phase. -/
def State.to (s : State Caller Inode) (c : Caller) (p : Phase Inode) : State Caller Inode :=
  { s with phase := Function.update s.phase c p }

@[simp] theorem State.to_path (s : State Caller Inode) (c : Caller) (p : Phase Inode) : (s.to c p).path = s.path := rfl

@[simp] theorem State.to_flock (s : State Caller Inode) (c : Caller) (p : Phase Inode) : (s.to c p).flock = s.flock := rfl

@[simp] theorem State.to_phase_self (s : State Caller Inode) (c : Caller) (p : Phase Inode) : (s.to c p).phase c = p :=
  Function.update_self ..

theorem State.to_phase_of_ne {s : State Caller Inode} {c d : Caller} {p : Phase Inode} (h : d ≠ c) :
    (s.to c p).phase d = s.phase d := Function.update_of_ne h ..

variable [DecidableEq Inode]

/-- The caller's descriptor of the inode is closed, by itself or by its death. -/
def State.close (s : State Caller Inode) (c : Caller) (i : Inode) : State Caller Inode :=
  { s with flock := fun j => if j = i ∧ s.flock j = some c then none else s.flock j }

theorem State.close_flock (s : State Caller Inode) (c : Caller) (i j : Inode) :
    (s.close c i).flock j = if j = i ∧ s.flock j = some c then none else s.flock j := rfl

@[simp] theorem State.close_phase (s : State Caller Inode) (c : Caller) (i : Inode) : (s.close c i).phase = s.phase := rfl

@[simp] theorem State.close_path (s : State Caller Inode) (c : Caller) (i : Inode) : (s.close c i).path = s.path := rfl

/-- The caller is granted the inode's `flock`. -/
def State.grant (s : State Caller Inode) (c : Caller) (i : Inode) : State Caller Inode :=
  { s with flock := fun j => if j = i then some c else s.flock j }

omit [DecidableEq Caller] in
theorem State.grant_flock (s : State Caller Inode) (c : Caller) (i j : Inode) :
    (s.grant c i).flock j = if j = i then some c else s.flock j := rfl

omit [DecidableEq Caller] in
@[simp] theorem State.grant_phase (s : State Caller Inode) (c : Caller) (i : Inode) : (s.grant c i).phase = s.phase := rfl

omit [DecidableEq Caller] in
@[simp] theorem State.grant_path (s : State Caller Inode) (c : Caller) (i : Inode) : (s.grant c i).path = s.path := rfl

/-- One system call of one caller. -/
inductive Step : State Caller Inode → State Caller Inode → Prop where
  /-- `open_lock_descriptor` on a file that is there, read-write or read-only. -/
  | openExisting (s : State Caller Inode) (c : Caller) (i : Inode) (hc : s.phase c = .away) (hp : s.path = some i) :
      Step s (s.to c (.opened i))
  /-- `O_CREAT`: a fresh inode, one no descriptor refers to. -/
  | openCreate (s : State Caller Inode) (c : Caller) (i : Inode) (hc : s.phase c = .away) (hp : s.path = none)
      (hi : ∀ d, (s.phase d).fd ≠ some i) : Step s ({ s with path := some i }.to c (.opened i))
  /-- `LOCK_EX | LOCK_NB` on an inode nobody holds. -/
  | flock (s : State Caller Inode) (c : Caller) (i : Inode) (hc : s.phase c = .opened i) (hf : s.flock i = none) :
      Step s ((s.grant c i).to c (.locked i))
  /-- `flock` failed, by contention or otherwise: close, then sleep and retry or raise. -/
  | flockFailed (s : State Caller Inode) (c : Caller) (i : Inode) (hc : s.phase c = .opened i) :
      Step s ((s.close c i).to c .away)
  /-- `fstat(fd)` and `stat(path)` agree. -/
  | same (s : State Caller Inode) (c : Caller) (i : Inode) (hc : s.phase c = .locked i) (hp : s.path = some i) :
      Step s (s.to c (.body i))
  /-- They differ, or the path names nothing: close, then sleep and retry or raise. -/
  | other (s : State Caller Inode) (c : Caller) (i : Inode) (hc : s.phase c = .locked i) (hp : s.path ≠ some i) :
      Step s ((s.close c i).to c .away)
  /-- `stat` raised another `OSError`. -/
  | statFailed (s : State Caller Inode) (c : Caller) (i : Inode) (hc : s.phase c = .locked i) :
      Step s (s.to c (.leaked i))
  /-- The block ends. -/
  | leave (s : State Caller Inode) (c : Caller) (i : Inode) (hc : s.phase c = .body i) : Step s (s.to c (.leaving i))
  /-- `path.unlink(missing_ok=True)`, whatever the path names by now. -/
  | unlink (s : State Caller Inode) (c : Caller) (i : Inode) (hc : s.phase c = .leaving i) :
      Step s ({ s with path := none }.to c (.unlinked i))
  /-- `unlink` raised, suppressed or not: the descriptor is closed all the same. -/
  | unlinkFailed (s : State Caller Inode) (c : Caller) (i : Inode) (hc : s.phase c = .leaving i) :
      Step s (s.to c (.unlinked i))
  /-- `os.close(fd)` on the way out. -/
  | close (s : State Caller Inode) (c : Caller) (i : Inode) (hc : s.phase c = .unlinked i) :
      Step s ((s.close c i).to c .away)
  /-- The process dies; the kernel closes its descriptor. -/
  | crash (s : State Caller Inode) (c : Caller) (i : Inode) (hc : (s.phase c).fd = some i) :
      Step s ((s.close c i).to c .dead)

/-- Any callers over one path, at which a stale lock file may lie. -/
def system (Caller Inode : Type*) [DecidableEq Caller] [DecidableEq Inode] : System (State Caller Inode) where
  start s := (∀ i, s.flock i = none) ∧ ∀ c, s.phase c = .away
  step := Step

/-! ## One step -/

section held

variable {s : State Caller Inode} {c : Caller} {i : Inode} {p : Phase Inode}

omit [DecidableEq Inode] in
/-- A step that leaves the caller with the inode it held, and with no more checks than the path bears out. -/
theorem Held.to_same (h : Held s) (hh : p.held = (s.phase c).held) (hp : ∀ j, p.checked = some j → s.path = some j) :
    Held (s.to c p) := by
  refine ⟨fun d j => ?_, fun d j hd => ?_⟩
  · by_cases hdc : d = c
    · rw [hdc, State.to_phase_self, hh]
      exact h.flock c j
    · rw [State.to_phase_of_ne hdc]
      exact h.flock d j
  · by_cases hdc : d = c
    · rw [hdc, State.to_phase_self] at hd
      exact hp j hd
    · rw [State.to_phase_of_ne hdc] at hd
      exact h.path d j hd

/-- Closing the descriptor gives up exactly what the caller held. -/
theorem Held.close (h : Held s) (hc : (s.phase c).fd = some i) (hp : p.held = none) (hk : p.checked = none) :
    Held ((s.close c i).to c p) := by
  refine ⟨fun d j => ?_, fun d j hd => ?_⟩
  · rw [State.to_flock, State.close_flock]
    by_cases hdc : d = c
    · rw [hdc, State.to_phase_self, hp]
      refine ⟨fun hn => (by cases hn), fun hf => ?_⟩
      split_ifs at hf with hji
      -- what the caller still held would be the inode of its one descriptor
      have hfd := Phase.fd_of_held ((h.flock c j).2 hf)
      rw [hc] at hfd
      exact absurd ⟨(Option.some.inj hfd).symm, hf⟩ hji
    · rw [State.to_phase_of_ne hdc, State.close_phase, h.flock d j]
      split_ifs with hji
      · rw [hji.2]
        simp [Ne.symm hdc]
      · exact Iff.rfl
  · by_cases hdc : d = c
    · rw [hdc, State.to_phase_self, hk] at hd
      cases hd
    · rw [State.to_phase_of_ne hdc] at hd
      exact h.path d j hd

/-- A caller takes the `flock` of an inode nobody holds. -/
theorem Held.grant (h : Held s) (hc : s.phase c = .opened i) (hf : s.flock i = none) :
    Held ((s.grant c i).to c (.locked i)) := by
  refine ⟨fun d j => ?_, fun d j hd => ?_⟩
  · rw [State.to_flock, State.grant_flock]
    by_cases hji : j = i
    · rw [if_pos hji, hji]
      by_cases hdc : d = c
      · rw [hdc, State.to_phase_self]
        exact ⟨fun _ => rfl, fun _ => rfl⟩
      · rw [State.to_phase_of_ne hdc]
        refine ⟨fun hd => ?_, fun hd => absurd (Option.some.inj hd).symm hdc⟩
        rw [(h.flock d i).1 hd] at hf
        cases hf
    · rw [if_neg hji, ← h.flock d j]
      by_cases hdc : d = c
      · rw [hdc, State.to_phase_self, hc]
        exact ⟨fun hd => absurd (Option.some.inj hd).symm hji, fun hd => by cases hd⟩
      · rw [State.to_phase_of_ne hdc, State.grant_phase]
  · by_cases hdc : d = c
    · rw [hdc, State.to_phase_self] at hd
      cases hd
    · rw [State.to_phase_of_ne hdc] at hd
      exact h.path d j hd

end held

/-- **Every system call keeps the invariant.** -/
theorem held_step {s s' : State Caller Inode} (h : Held s) (hs : Step s s') : Held s' := by
  cases hs with
  | openExisting c i hc hp => exact h.to_same (by rw [hc]; rfl) (fun j hj => by cases hj)
  | openCreate c i hc hp hi =>
    have hn : ∀ d, (s.phase d).checked = none := by
      intro d
      cases hd : (s.phase d).checked with
      | none => rfl
      | some j =>
        have hpath := h.path d j hd
        rw [hp] at hpath
        cases hpath
    refine (h.rename hn (some i)).to_same ?_ (fun j hj => by cases hj)
    change (Phase.opened i).held = (s.phase c).held
    rw [hc]
    rfl
  | flock c i hc hf => exact h.grant hc hf
  | flockFailed c i hc => exact h.close (by rw [hc]; rfl) rfl rfl
  | same c i hc hp =>
    refine h.to_same (by rw [hc]; rfl) (fun j hj => ?_)
    cases hj
    exact hp
  | other c i hc hp => exact h.close (by rw [hc]; rfl) rfl rfl
  | statFailed c i hc => exact h.to_same (by rw [hc]; rfl) (fun j hj => by cases hj)
  | leave c i hc =>
    refine h.to_same (by rw [hc]; rfl) (fun j hj => h.path c j ?_)
    rw [hc]
    exact hj
  | unlink c i hc =>
    have hchk : (s.phase c).checked = some i := by rw [hc]; rfl
    -- whoever else were past its check would be this caller
    have hmove : Held (s.to c (.unlinked i)) := h.to_same (by rw [hc]; rfl) (fun j hj => by cases hj)
    refine hmove.rename (fun d => ?_) none
    by_cases hdc : d = c
    · rw [hdc, State.to_phase_self]
      rfl
    · rw [State.to_phase_of_ne hdc]
      cases hd : (s.phase d).checked with
      | none => rfl
      | some j => exact absurd (h.unique hd hchk) hdc
  | unlinkFailed c i hc => exact h.to_same (by rw [hc]; rfl) (fun j hj => by cases hj)
  | close c i hc => exact h.close (by rw [hc]; rfl) rfl rfl
  | crash c i hc => exact h.close hc rfl rfl

/-! ## Whole runs -/

theorem always_held : (system Caller Inode).Always Held := by
  refine System.Inductive.always ⟨?_, fun _ _ => held_step⟩
  rintro s ⟨hf, hc⟩
  refine ⟨fun c i => ?_, fun c i hi => ?_⟩
  · rw [hc c, hf i]
    exact ⟨fun hn => (by cases hn), fun hn => (by cases hn)⟩
  · rw [hc c] at hi
    cases hi

/-- The callers inside their block. -/
def inside (s : State Caller Inode) : Set Caller := {c | s.inBody c}

omit [DecidableEq Inode] in
theorem inBody_to {s : State Caller Inode} {c d : Caller} {p : Phase Inode} :
    (s.to c p).inBody d ↔ if d = c then ∃ i, p = .body i else s.inBody d := by
  unfold State.inBody State.to
  by_cases hdc : d = c
  · simp [hdc]
  · simp [hdc]

omit [DecidableEq Inode] in
theorem inside_to_leave {s : State Caller Inode} {c : Caller} {p : Phase Inode} (hp : ∀ i, p ≠ .body i) :
    inside (s.to c p) = inside s \ {c} := by
  ext d
  change (s.to c p).inBody d ↔ s.inBody d ∧ d ≠ c
  rw [inBody_to]
  by_cases hdc : d = c
  · simp [hdc, hp]
  · simp [hdc]

/-- **The lock refines the mutex**: entering the block is entering an empty mutex, leaving it or dying in it is
leaving the mutex, and no other system call is visible. -/
theorem refines_mutex : (system Caller Inode).Refines (Mutex.system Caller) inside := by
  refine ⟨?_, ?_⟩
  · rintro s ⟨-, hc⟩
    change inside s = ∅
    ext c
    simp [inside, State.inBody, hc]
  · intro s s' hr hs
    have h := always_held s hr
    have hleave : ∀ (t : State Caller Inode) (c : Caller) (p : Phase Inode), t.phase = s.phase → (∀ i, p ≠ .body i) →
        inside (t.to c p) = inside s ∨ Mutex.Step (inside s) (inside (t.to c p)) := by
      intro t c p ht hp
      have hin : inside t = inside s := by
        unfold inside State.inBody
        rw [ht]
      rw [inside_to_leave hp, hin]
      exact .inr (.leave _ c)
    cases hs with
    | same c i hc hp =>
      refine .inr ?_
      have hempty : inside s = ∅ := by
        ext d
        simp only [inside, Set.mem_ofPred_eq, Set.mem_empty_iff_false, iff_false]
        rintro ⟨j, hd⟩
        -- a caller inside would hold the inode this one holds
        have hpath := h.path d j (by rw [hd]; rfl)
        have hj : j = i := Option.some.inj (hpath.symm.trans hp)
        have hfd := (h.flock d j).1 (by rw [hd]; rfl)
        have hfc := (h.flock c i).1 (by rw [hc]; rfl)
        rw [hj, hfc] at hfd
        rw [← Option.some.inj hfd, hc] at hd
        cases hd
      have hone : inside (s.to c (.body i)) = {c} := by
        ext d
        change (s.to c (.body i)).inBody d ↔ d = c
        rw [inBody_to]
        by_cases hdc : d = c
        · simp [hdc]
        · have hnot : ¬ s.inBody d := fun hd => by
            have hmem : d ∈ inside s := hd
            rw [hempty] at hmem
            exact hmem
          simp [hdc, hnot]
      rw [hempty, hone]
      exact .enter c
    | openExisting c i _ _ => exact hleave s c _ rfl (fun j hj => by cases hj)
    | openCreate c i _ _ _ => exact hleave _ c _ rfl (fun j hj => by cases hj)
    | flock c i _ _ => exact hleave _ c _ rfl (fun j hj => by cases hj)
    | flockFailed c i _ => exact hleave _ c _ rfl (fun j hj => by cases hj)
    | other c i _ _ => exact hleave _ c _ rfl (fun j hj => by cases hj)
    | statFailed c i _ => exact hleave s c _ rfl (fun j hj => by cases hj)
    | leave c i _ => exact hleave s c _ rfl (fun j hj => by cases hj)
    | unlink c i _ => exact hleave _ c _ rfl (fun j hj => by cases hj)
    | unlinkFailed c i _ => exact hleave s c _ rfl (fun j hj => by cases hj)
    | close c i _ => exact hleave _ c _ rfl (fun j hj => by cases hj)
    | crash c i _ => exact hleave _ c _ rfl (fun j hj => by cases hj)

/-- **Mutual exclusion**: in every reachable state at most one caller is inside the block, and a caller inside holds
the `flock` on the inode the path names then. -/
theorem mutual_exclusion {s : State Caller Inode} (hs : (system Caller Inode).Reachable s) :
    (∀ c d, s.inBody c → s.inBody d → c = d) ∧
      ∀ c i, s.phase c = .body i → s.flock i = some c ∧ s.path = some i := by
  refine ⟨fun c d hc hd => refines_mutex.always Mutex.always_subsingleton s hs hc hd, fun c i hc => ?_⟩
  have h := always_held s hs
  exact ⟨(h.flock c i).1 (by rw [hc]; rfl), h.path c i (by rw [hc]; rfl)⟩

end steps

/-! ## The race the identity check closes -/

namespace Sample

/-- No lock file, three callers. -/
def clean : State (Fin 3) Nat := { path := none, flock := fun _ => none, phase := fun _ => .away }

/-- Caller 0 holds inode 7 and caller 1 has opened it. -/
def waiting : State (Fin 3) Nat :=
  (((({ clean with path := some 7 }.to 0 (.opened 7)).grant 0 7).to 0 (.locked 7)).to 0 (.body 7)).to 1 (.opened 7)

/-- Caller 0 has unlinked and closed; caller 1 holds the inode that lost its name. -/
def nameless : State (Fin 3) Nat :=
  ((({ (waiting.to 0 (.leaving 7)) with path := none }.to 0 (.unlinked 7)).close 0 7).to 0 .away |>.grant 1 7).to 1
    (.locked 7)

/-- Caller 2 has created a fresh lock file and is inside. -/
def entered : State (Fin 3) Nat :=
  ((({ nameless with path := some 8 }.to 2 (.opened 8)).grant 2 8).to 2 (.locked 8)).to 2 (.body 8)

theorem reachable_waiting : (system (Fin 3) Nat).Reachable waiting := by
  have h₀ : (system (Fin 3) Nat).Reachable clean := .start ⟨fun _ => rfl, fun _ => rfl⟩
  have h₁ := h₀.step (Step.openCreate _ 0 7 rfl rfl (by decide))
  have h₂ := h₁.step (Step.flock _ 0 7 rfl rfl)
  have h₃ := h₂.step (Step.same _ 0 7 rfl rfl)
  exact h₃.step (Step.openExisting _ 1 7 rfl rfl)

theorem reachable_entered : (system (Fin 3) Nat).Reachable entered := by
  have h₁ := reachable_waiting.step (Step.leave _ 0 7 rfl)
  have h₂ := h₁.step (Step.unlink _ 0 7 rfl)
  have h₃ := h₂.step (Step.close _ 0 7 rfl)
  have h₄ := h₃.step (Step.flock _ 1 7 rfl rfl)
  have h₅ := h₄.step (Step.openCreate _ 2 8 rfl rfl (by decide))
  have h₆ := h₅.step (Step.flock _ 2 8 rfl rfl)
  exact h₆.step (Step.same _ 2 8 rfl rfl)

end Sample

/-- A waiter may hold the `flock` of an unlinked inode while a newcomer is inside: it is the newcomer alone who is. -/
theorem mutual_exclusion_newcomer :
    Sample.entered.flock 7 = some 1 ∧ Sample.entered.inBody 2 ∧ (∀ c, Sample.entered.inBody c → c = 2) ∧
      Sample.entered.path = some 8 := by
  have h := mutual_exclusion Sample.reachable_entered
  exact ⟨rfl, ⟨8, rfl⟩, fun c hc => h.1 c 2 hc ⟨8, rfl⟩, (h.2 2 8 rfl).2⟩

end FileLock
