import Mathlib
/-!
# ZeroFill — numerals filled with zeros to a width

`zfill` puts zeros before a text, after its sign if it has one.  Digits of one length are told apart by their number
(`ofDigitChars_inj`), so a number printed and filled is the numeral it was read from, filled (`zfill_toDigits`).
-/
namespace ZeroFill

/-- Zeros before a text up to a width; a sign stays in front. -/
def zfill (width : Nat) (cs : List Char) : List Char :=
  if width ≤ cs.length then cs
  else match cs with
    | '+' :: rest => '+' :: (List.replicate (width - cs.length) '0' ++ rest)
    | '-' :: rest => '-' :: (List.replicate (width - cs.length) '0' ++ rest)
    | _ => List.replicate (width - cs.length) '0' ++ cs

/-- Digits, at least one. -/
def isNumeral (cs : List Char) : Bool := !cs.isEmpty && cs.all Char.isDigit

variable {width : Nat} {cs ds : List Char}

theorem zfill_of_le (h : width ≤ cs.length) : zfill width cs = cs := if_pos h

theorem le_length_zfill : width ≤ (zfill width cs).length := by
  unfold zfill
  split_ifs with hw
  · exact hw
  · split
    · simp only [List.length_cons, List.length_append, List.length_replicate] at *
      omega
    · simp only [List.length_cons, List.length_append, List.length_replicate] at *
      omega
    · simp only [List.length_append, List.length_replicate]
      omega

theorem zfill_zfill : zfill width (zfill width cs) = zfill width cs := zfill_of_le le_length_zfill

/-- Without a sign the zeros come first. -/
theorem zfill_of_all {p : Char → Bool} (hplus : p '+' = false) (hminus : p '-' = false) (h : cs.all p = true) :
    zfill width cs = List.replicate (width - cs.length) '0' ++ cs := by
  unfold zfill
  split_ifs with hw
  · rw [Nat.sub_eq_zero_of_le hw]
    rfl
  · split
    · rw [List.all_cons, hplus] at h
      cases h
    · rw [List.all_cons, hminus] at h
      cases h
    · rfl

theorem zfill_digits (h : cs.all Char.isDigit = true) : zfill width cs = List.replicate (width - cs.length) '0' ++ cs :=
  zfill_of_all (by decide) (by decide) h

theorem length_zfill_digits (h : cs.all Char.isDigit = true) (hw : cs.length ≤ width) :
    (zfill width cs).length = width := by
  rw [zfill_digits h, List.length_append, List.length_replicate]
  omega

theorem digit_toNat {c : Char} (h : c.isDigit = true) : c.toNat - '0'.toNat < 10 ∧ '0'.toNat ≤ c.toNat := by
  simp only [Char.isDigit, Bool.and_eq_true, decide_eq_true_eq, ge_iff_le] at h
  have h1 : 48 ≤ c.toNat := h.1
  have h2 : c.toNat ≤ 57 := h.2
  have h0 : '0'.toNat = 48 := rfl
  omega

theorem ofDigitChars_lt : ∀ {cs : List Char}, cs.all Char.isDigit = true → Nat.ofDigitChars 10 cs 0 < 10 ^ cs.length
  | [], _ => by simp
  | c :: cs, h => by
    rw [List.all_cons, Bool.and_eq_true] at h
    have hc := (digit_toNat h.1).1
    have hcs := ofDigitChars_lt h.2
    rw [Nat.ofDigitChars_cons, Nat.ofDigitChars_eq_ofDigitChars_zero, List.length_cons, Nat.pow_succ]
    calc 10 ^ cs.length * (10 * 0 + (c.toNat - '0'.toNat)) + Nat.ofDigitChars 10 cs 0
        < 10 ^ cs.length * (c.toNat - '0'.toNat) + 10 ^ cs.length := by rw [Nat.mul_zero, Nat.zero_add]; omega
      _ = 10 ^ cs.length * (c.toNat - '0'.toNat + 1) := by rw [Nat.mul_add, Nat.mul_one]
      _ ≤ 10 ^ cs.length * 10 := Nat.mul_le_mul_left _ hc

/-- **Digits of one length are told apart by their number.** -/
theorem ofDigitChars_inj : ∀ {cs ds : List Char}, cs.all Char.isDigit = true → ds.all Char.isDigit = true →
    cs.length = ds.length → Nat.ofDigitChars 10 cs 0 = Nat.ofDigitChars 10 ds 0 → cs = ds
  | [], [], _, _, _, _ => rfl
  | c :: cs, d :: ds, hc, hd, hlen, heq => by
    rw [List.all_cons, Bool.and_eq_true] at hc hd
    rw [List.length_cons, List.length_cons, Nat.succ.injEq] at hlen
    have hcs := ofDigitChars_lt hc.2
    have hds := ofDigitChars_lt hd.2
    obtain ⟨-, hc0⟩ := digit_toNat hc.1
    obtain ⟨-, hd0⟩ := digit_toNat hd.1
    rw [Nat.ofDigitChars_cons, Nat.ofDigitChars_cons, Nat.ofDigitChars_eq_ofDigitChars_zero,
      Nat.ofDigitChars_eq_ofDigitChars_zero (l := ds), hlen, Nat.mul_zero, Nat.zero_add, Nat.zero_add] at heq
    rw [hlen] at hcs
    -- the leading digit is the quotient, the rest the remainder
    have hdiv := congrArg (· / 10 ^ ds.length) heq
    have hmod := congrArg (· % 10 ^ ds.length) heq
    simp only [Nat.mul_add_div (Nat.pow_pos (by decide : 0 < 10)), Nat.div_eq_of_lt hcs, Nat.div_eq_of_lt hds, Nat.add_zero,
      Nat.mul_add_mod, Nat.mod_eq_of_lt hcs, Nat.mod_eq_of_lt hds] at hdiv hmod
    have hchar : c = d := Char.toNat_inj.1 (by omega)
    rw [hchar, ofDigitChars_inj hc.2 hd.2 hlen hmod]

theorem ofDigitChars_zfill (h : cs.all Char.isDigit = true) :
    Nat.ofDigitChars 10 (zfill width cs) 0 = Nat.ofDigitChars 10 cs 0 := by
  rw [zfill_digits h, Nat.ofDigitChars_append, Nat.ofDigitChars_replicate_zero, Nat.mul_zero]

theorem all_zfill (h : cs.all Char.isDigit = true) : (zfill width cs).all Char.isDigit = true := by
  rw [zfill_digits h, List.all_append, h, Bool.and_true, List.all_eq_true]
  intro c hc
  rw [(List.mem_replicate.1 hc).2]
  decide

theorem all_toDigits (n : Nat) : (Nat.toDigits 10 n).all Char.isDigit = true :=
  List.all_eq_true.2 fun _ hc => Nat.isDigit_of_mem_toDigits (by decide) (by decide) hc

/-- **A numeral that is read, printed and filled is the numeral filled.** -/
theorem zfill_toDigits (hwidth : 0 < width) (h : cs.all Char.isDigit = true) (hw : cs.length ≤ width) :
    zfill width (Nat.toDigits 10 (Nat.ofDigitChars 10 cs 0)) = zfill width cs := by
  have hlt : Nat.ofDigitChars 10 cs 0 < 10 ^ width :=
    Nat.lt_of_lt_of_le (ofDigitChars_lt h) (Nat.pow_le_pow_right (by decide) hw)
  have hle := (Nat.length_toDigits_le_iff (by decide : 1 < 10) hwidth).2 hlt
  refine ofDigitChars_inj (all_zfill (all_toDigits _)) (all_zfill h) ?_ ?_
  · rw [length_zfill_digits (all_toDigits _) hle, length_zfill_digits h hw]
  · rw [ofDigitChars_zfill (all_toDigits _), Nat.ofDigitChars_ten_toDigits, ofDigitChars_zfill h]

end ZeroFill
