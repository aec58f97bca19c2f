import KClosingAlpha.Order.Calls
import KClosingAlpha.Order.Oracle
/-!
# Halt — the kill switch at every send

A submit looks at HALT before its first attempt, after the baseline read and before an exit resend, but not between the
attempts of its loop, nor after the resend's position read.  What every attempt does check is the clock, so HALT holds
exactly where it also stops the clock check.
-/
namespace Order

/-- While HALT exists, no reading of the clock lets an attempt start. -/
def haltRules (c : Call) : Rules
  | .now, w, t => w.halted = true → ∀ id deadline, c = .submit id deadline → deadline ≤ t
  | _, _, _ => True

/-- From `w` to `w'` no SEND was written and no POST made while HALT existed. -/
def HaltKept (w w' : World) : Prop :=
  w'.haltedSends = w.haltedSends ∧ ∃ more, w'.posts = w.posts ++ more ∧ ∀ p ∈ more, p.halted = false

theorem HaltKept.refl (w : World) : HaltKept w w := ⟨rfl, [], by simp, by simp⟩

/-- An attempt in time starts without HALT. -/
theorem not_halted_of_inTime {c : Call} {w : World} {id : String} {deadline : Int} (hc : c = .submit id deadline)
    (h : InTime (haltRules c) w deadline) : w.halted = false := by
  obtain ⟨w', t, hw', hR, ht⟩ := h
  by_contra hh
  rw [Bool.not_eq_false, ← hw'] at hh
  exact Int.not_le.2 ht (hR hh id deadline hc)

/-- The kill switch at one record. -/
theorem wrote_haltedSends {g : OrderGateway} {c : Call} {start : Journal} {w : World} {e : JournalEvent}
    (h : Writes (haltRules c) g c start w e) : (w.wrote e).haltedSends = w.haltedSends := by
  unfold World.wrote
  by_cases hk : e.kind = .send
  · have hnot : w.halted = false := by
      cases h with
      | send i b hk' hp hi hst hrisk hcall =>
        obtain ⟨deadline, hc, ht⟩ := hcall
        exact not_halted_of_inTime hc ht
      | resend i hk' hp hi hexit hflag hst hnf hop hlast hstart hcall =>
        obtain ⟨deadline, hc, ht⟩ := hcall
        exact not_halted_of_inTime hc ht
      | cancel hk' => rcases hk' with hk' | hk' <;> simp [hk'] at hk
      | _ => simp_all
    simp [hnot]
  · simp [hk]

theorem haltKept_step {g : OrderGateway} {c : Call} {start : Journal} {w w' w'' : World} (h : HaltKept w w')
    (hs : Step (haltRules c) g c start w' w'') : HaltKept w w'' := by
  obtain ⟨hsends, more, hposts, hmore⟩ := h
  cases hs with
  | quiet y hj hp hh => exact ⟨hh.trans hsends, more, hp.trans hposts, hmore⟩
  | wrote e happ hsound hw => exact ⟨(wrote_haltedSends hw).trans hsends, more, hposts, hmore⟩
  | posted i hd s hlast hk hid hi hst hnew hcall =>
    obtain ⟨deadline, hc, ht⟩ := hcall
    refine ⟨hsends, more ++ [⟨i, w'.journal.length, w'.halted⟩], ?_, fun p hp => ?_⟩
    · simp only [World.posted, hposts, List.append_assoc]
    · rcases List.mem_append.1 hp with hp | hp
      · exact hmore p hp
      · rw [List.mem_singleton.1 hp]
        exact not_halted_of_inTime hc ht

namespace Sample

/-- HALT appears during the first POST, which the broker throttles; `late` is the clock from then on. -/
def haltedAtPost (late : Int) : Oracle :=
  { broker (fun n => if n = 0 then verdict .throttled none else verdict .accepted (some "1"))
      (fun w => decide (2 ≤ w.journal.length)) with
    clock := fun w => if w.halted then late else 0 }

def haltedRun (late : Int) : World := ordered (haltedAtPost late) samsung

end Sample

end Order
