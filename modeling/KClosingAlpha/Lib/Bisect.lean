import Mathlib
/-!
# Bisect — the greatest integer of an interval that passes a test

The test is antitone: below what passes it, everything does.  The search keeps an integer that passes below and one
past the last that may on top, and never tests the lower end.
-/

/-- The search over `lo … hi`, for at most so many turns. -/
def bisect (ok : Int → Bool) : Nat → Int → Int → Int
  | 0, lo, _ => lo
  | n + 1, lo, hi =>
    if lo < hi then
      let mid := (lo + hi + 1) / 2
      if ok mid then bisect ok n mid hi else bisect ok n lo (mid - 1)
    else lo

/-- **As many turns as the interval is long find the greatest integer that passes.** -/
theorem bisect_isGreatest {ok : Int → Bool} (hok : Antitone ok) : ∀ {n : Nat} {lo hi : Int}, hi - lo ≤ n → lo ≤ hi →
    ok lo = true → IsGreatest {q | q ≤ hi ∧ ok q = true} (bisect ok n lo hi)
  | 0, lo, hi, hn, hle, hlo => by
    rw [bisect]
    refine ⟨⟨hle, hlo⟩, fun q hq => ?_⟩
    have := hq.1
    omega
  | n + 1, lo, hi, hn, hle, hlo => by
    rw [bisect]
    by_cases hlt : lo < hi
    · rw [if_pos hlt]
      dsimp only
      by_cases hmid : ok ((lo + hi + 1) / 2) = true
      · rw [if_pos hmid]
        exact bisect_isGreatest hok (by omega) (by omega) hmid
      · rw [if_neg hmid]
        have hleft := @bisect_isGreatest ok hok n lo ((lo + hi + 1) / 2 - 1) (by omega) (by omega) hlo
        refine ⟨⟨by have := hleft.1.1; omega, hleft.1.2⟩, fun q hq => hleft.2 ⟨?_, hq.2⟩⟩
        -- What passes lies below the middle, which does not.
        by_contra hbig
        exact hmid (Bool.le_iff_imp.1 (hok (by omega)) hq.2)
    · rw [if_neg hlt]
      refine ⟨⟨hle, hlo⟩, fun q hq => ?_⟩
      have := hq.1
      omega
