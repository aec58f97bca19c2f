import KClosingAlpha.Py.Value
/-!
# Json — what `json.dumps` writes and `json.loads` reads

Values whose numbers are integers, and the text of `dumps` with its default separators, ASCII only.  The loader takes any
white space and any escape, and refuses control characters in a string, lone surrogates and numbers that are no integers.
What is written is one line of printable characters and is read back.
-/
namespace Py

inductive Json where
  | null
  | bool (b : Bool)
  | int (i : Int)
  | str (s : String)
  | arr (xs : List Json)
  | obj (kvs : List (String × Json))

namespace Json

/-- `raw[key]`: of equal keys the last counts. -/
def get? : Json → String → Option Json
  | obj kvs, key => kvs.reverse.lookup key
  | _, _ => none

/-! ## Writing -/

def hexDigit (n : Nat) : Char := if n < 10 then Char.ofNat (48 + n) else Char.ofNat (87 + n)

/-- `\uXXXX`. -/
def unicodeEscape (n : Nat) : List Char :=
  ['\\', 'u', hexDigit (n / 4096 % 16), hexDigit (n / 256 % 16), hexDigit (n / 16 % 16), hexDigit (n % 16)]

/-- The escapes of one letter. -/
def shortEscapes : List (Char × Char) :=
  [('"', '"'), ('\\', '\\'), ('\n', 'n'), ('\r', 'r'), ('\t', 't'), ('\x08', 'b'), ('\x0c', 'f')]

def escapeChar (c : Char) : List Char :=
  match shortEscapes.lookup c with
  | some e => ['\\', e]
  | none =>
    if 32 ≤ c.toNat ∧ c.toNat ≤ 126 then [c]
    else if c.toNat < 0x10000 then unicodeEscape c.toNat
    else unicodeEscape (0xd800 + (c.toNat - 0x10000) / 1024) ++ unicodeEscape (0xdc00 + (c.toNat - 0x10000) % 1024)

/-- A string and its closing quote. -/
def printStr (cs : List Char) : List Char := cs.flatMap escapeChar ++ ['"']

def printInt : Int → List Char
  | .ofNat n => Nat.toDigits 10 n
  | .negSucc n => '-' :: Nat.toDigits 10 (n + 1)

mutual

def print : Json → List Char
  | null => ['n', 'u', 'l', 'l']
  | bool true => ['t', 'r', 'u', 'e']
  | bool false => ['f', 'a', 'l', 's', 'e']
  | int i => printInt i
  | str s => '"' :: printStr s.toList
  | arr [] => ['[', ']']
  | arr (x :: xs) => '[' :: (print x ++ printElems xs)
  | obj [] => ['{', '}']
  | obj ((key, value) :: kvs) => '{' :: '"' :: (printStr key.toList ++ ':' :: ' ' :: (print value ++ printMembers kvs))

/-- The elements after the first, and the bracket. -/
def printElems : List Json → List Char
  | [] => [']']
  | x :: xs => ',' :: ' ' :: (print x ++ printElems xs)

/-- The members after the first, and the brace. -/
def printMembers : List (String × Json) → List Char
  | [] => ['}']
  | (key, value) :: kvs => ',' :: ' ' :: '"' :: (printStr key.toList ++ ':' :: ' ' :: (print value ++ printMembers kvs))

end

/-! ## Reading -/

def hexVal (c : Char) : Option Nat :=
  if 48 ≤ c.toNat ∧ c.toNat ≤ 57 then some (c.toNat - 48)
  else if 97 ≤ c.toNat ∧ c.toNat ≤ 102 then some (c.toNat - 87)
  else if 65 ≤ c.toNat ∧ c.toNat ≤ 70 then some (c.toNat - 55)
  else none

def hex4 (a b c d : Char) : Option Nat :=
  match hexVal a, hexVal b, hexVal c, hexVal d with
  | some a, some b, some c, some d => some (4096 * a + 256 * b + 16 * c + d)
  | _, _, _, _ => none

/-- The character of an escape of one letter. -/
def unescape (e : Char) : Option Char := (('/', '/') :: shortEscapes.map Prod.swap).lookup e

/-- A string up to its closing quote. -/
def parseStr : List Char → Option (List Char × List Char)
  | [] => none
  | '"' :: rest => some ([], rest)
  | '\\' :: 'u' :: a :: b :: c :: d :: rest =>
    match hex4 a b c d with
    | none => none
    | some n =>
      if 0xd800 ≤ n ∧ n < 0xdc00 then
        match rest with
        | '\\' :: 'u' :: e :: f :: g :: h :: rest =>
          match hex4 e f g h with
          | none => none
          | some m =>
            if 0xdc00 ≤ m ∧ m < 0xe000 then
              (parseStr rest).map (fun p => (Char.ofNat (0x10000 + 1024 * (n - 0xd800) + (m - 0xdc00)) :: p.1, p.2))
            else none
        | _ => none
      else if 0xdc00 ≤ n ∧ n < 0xe000 then none
      else (parseStr rest).map (fun p => (Char.ofNat n :: p.1, p.2))
  | '\\' :: e :: rest =>
    match unescape e with
    | none => none
    | some c => (parseStr rest).map (fun p => (c :: p.1, p.2))
  | c :: rest => if c.toNat < 32 ∨ c = '\\' then none else (parseStr rest).map (fun p => (c :: p.1, p.2))

def isJsonSpace (c : Char) : Bool := c = ' ' || c = '\n' || c = '\r' || c = '\t'

def skip (cs : List Char) : List Char := cs.dropWhile isJsonSpace

/-- Digits without a leading zero that are not followed by a fraction or an exponent. -/
def parseNat (cs : List Char) : Option (Nat × List Char) :=
  let digits := cs.takeWhile Char.isDigit
  let rest := cs.dropWhile Char.isDigit
  let n := Nat.ofDigitChars 10 digits 0
  if Nat.toDigits 10 n = digits ∧ rest.head?.all (fun c => !(c = '.' || c = 'e' || c = 'E')) = true then some (n, rest)
  else none

mutual

def parseValue : Nat → List Char → Option (Json × List Char)
  | 0, _ => none
  | fuel + 1, cs =>
    match cs with
    | 'n' :: 'u' :: 'l' :: 'l' :: rest => some (null, rest)
    | 't' :: 'r' :: 'u' :: 'e' :: rest => some (bool true, rest)
    | 'f' :: 'a' :: 'l' :: 's' :: 'e' :: rest => some (bool false, rest)
    | '"' :: rest => (parseStr rest).map (fun p => (str (String.ofList p.1), p.2))
    | '-' :: rest => (parseNat rest).map (fun p => (int (-(p.1 : Int)), p.2))
    | '[' :: rest =>
      match skip rest with
      | ']' :: rest => some (arr [], rest)
      | cs => (parseElems fuel cs).map (fun p => (arr p.1, p.2))
    | '{' :: rest =>
      match skip rest with
      | '}' :: rest => some (obj [], rest)
      | cs => (parseMembers fuel cs).map (fun p => (obj p.1, p.2))
    | cs => (parseNat cs).map (fun p => (int p.1, p.2))

/-- Elements up to the bracket. -/
def parseElems : Nat → List Char → Option (List Json × List Char)
  | 0, _ => none
  | fuel + 1, cs =>
    match parseValue fuel cs with
    | none => none
    | some (x, rest) =>
      match skip rest with
      | ']' :: rest => some ([x], rest)
      | ',' :: rest => (parseElems fuel (skip rest)).map (fun p => (x :: p.1, p.2))
      | _ => none

/-- Members up to the brace. -/
def parseMembers : Nat → List Char → Option (List (String × Json) × List Char)
  | 0, _ => none
  | fuel + 1, cs =>
    match cs with
    | '"' :: rest =>
      match parseStr rest with
      | none => none
      | some (key, rest) =>
        match skip rest with
        | ':' :: rest =>
          match parseValue fuel (skip rest) with
          | none => none
          | some (value, rest) =>
            match skip rest with
            | '}' :: rest => some ([(String.ofList key, value)], rest)
            | ',' :: rest => (parseMembers fuel (skip rest)).map (fun p => ((String.ofList key, value) :: p.1, p.2))
            | _ => none
        | _ => none
    | _ => none

end

/-- `json.loads`. -/
def loads (text : List Char) : Option Json :=
  match parseValue (text.length + 1) (skip text) with
  | some (v, rest) => if skip rest = [] then some v else none
  | none => none

/-! ## What was written is read -/

theorem hexVal_hexDigit : ∀ n < 16, hexVal (hexDigit n) = some n := by decide

theorem hex4_hexDigit {n : Nat} (h : n < 0x10000) :
    hex4 (hexDigit (n / 4096 % 16)) (hexDigit (n / 256 % 16)) (hexDigit (n / 16 % 16)) (hexDigit (n % 16)) = some n := by
  have hlt (m : Nat) : m % 16 < 16 := Nat.mod_lt _ (by decide)
  unfold hex4
  rw [hexVal_hexDigit _ (hlt _), hexVal_hexDigit _ (hlt _), hexVal_hexDigit _ (hlt _), hexVal_hexDigit _ (hlt _)]
  simp only [Option.some.injEq]
  omega

/-- No character is a surrogate. -/
theorem not_surrogate (c : Char) : ¬ (0xd800 ≤ c.toNat ∧ c.toNat < 0xe000) := by
  have hv := c.valid
  have hn : c.toNat = c.val.toNat := rfl
  rcases hv with hv | hv
  · rw [hn]
    omega
  · rw [hn]
    omega

theorem toNat_lt (c : Char) : c.toNat < 0x110000 := by
  have hv := c.valid
  have hn : c.toNat = c.val.toNat := rfl
  rcases hv with hv | hv
  · rw [hn]
    omega
  · rw [hn]
    omega

theorem parseStr_unicodeEscape {n : Nat} (h : n < 0x10000) (hs : ¬ (0xd800 ≤ n ∧ n < 0xe000)) (rest : List Char) :
    parseStr (unicodeEscape n ++ rest) = (parseStr rest).map (fun p => (Char.ofNat n :: p.1, p.2)) := by
  unfold unicodeEscape
  simp only [List.cons_append, List.nil_append]
  rw [parseStr, hex4_hexDigit h]
  simp only
  rw [if_neg (by omega), if_neg (by omega)]

theorem parseStr_surrogates {n m : Nat} (hn : 0xd800 ≤ n ∧ n < 0xdc00) (hm : 0xdc00 ≤ m ∧ m < 0xe000) (rest : List Char) :
    parseStr (unicodeEscape n ++ (unicodeEscape m ++ rest)) =
      (parseStr rest).map (fun p => (Char.ofNat (0x10000 + 1024 * (n - 0xd800) + (m - 0xdc00)) :: p.1, p.2)) := by
  unfold unicodeEscape
  simp only [List.cons_append, List.nil_append]
  rw [parseStr, hex4_hexDigit (by omega)]
  simp only
  rw [if_pos hn, hex4_hexDigit (by omega)]
  simp only
  rw [if_pos hm]

theorem parseStr_escapeChar (c : Char) (rest : List Char) :
    parseStr (escapeChar c ++ rest) = (parseStr rest).map (fun p => (c :: p.1, p.2)) := by
  unfold escapeChar
  cases hshort : shortEscapes.lookup c with
  | some e =>
    obtain ⟨before, after, heq, -⟩ := List.lookup_eq_some_iff.1 hshort
    have hmem : (c, e) ∈ shortEscapes := by
      rw [heq]
      exact List.mem_append_right _ List.mem_cons_self
    simp only [shortEscapes, List.mem_cons, List.not_mem_nil, or_false, Prod.mk.injEq] at hmem
    rcases hmem with ⟨rfl, rfl⟩ | ⟨rfl, rfl⟩ | ⟨rfl, rfl⟩ | ⟨rfl, rfl⟩ | ⟨rfl, rfl⟩ | ⟨rfl, rfl⟩ | ⟨rfl, rfl⟩ <;>
      simp [parseStr, unescape, shortEscapes, List.lookup]
  | none =>
    have hplain : c ≠ '"' ∧ c ≠ '\\' := by
      constructor
      · rintro rfl
        simp [shortEscapes] at hshort
      · rintro rfl
        simp [shortEscapes, List.lookup] at hshort
    dsimp only
    split_ifs with hprint hbmp
    · rw [List.cons_append, List.nil_append, parseStr.eq_def]
      split
      · simp_all
      · simp_all
      · simp_all
      · simp_all
      next c' rest' heq =>
        obtain ⟨rfl, rfl⟩ := List.cons.inj heq
        rw [if_neg]
        simp only [not_or, Nat.not_lt]
        exact ⟨hprint.1, hplain.2⟩
    · rw [parseStr_unicodeEscape hbmp (not_surrogate c), Char.ofNat_toNat]
    · have hlt := toNat_lt c
      rw [List.append_assoc, parseStr_surrogates (by omega) (by omega)]
      have hc : 0x10000 + 1024 * (0xd800 + (c.toNat - 0x10000) / 1024 - 0xd800) +
          (0xdc00 + (c.toNat - 0x10000) % 1024 - 0xdc00) = c.toNat := by omega
      rw [hc, Char.ofNat_toNat]

theorem parseStr_printStr (cs rest : List Char) : parseStr (printStr cs ++ rest) = some (cs, rest) := by
  unfold printStr
  induction cs with
  | nil => rfl
  | cons c cs ih =>
    rw [List.flatMap_cons, List.append_assoc, List.append_assoc, parseStr_escapeChar, ← List.append_assoc, ih]
    rfl

/-- What may follow a number. -/
def Stops (rest : List Char) : Prop := ∀ c ∈ rest.head?, c.isDigit = false ∧ c ≠ '.' ∧ c ≠ 'e' ∧ c ≠ 'E'

theorem parseNat_toDigits {rest : List Char} (h : Stops rest) (n : Nat) :
    parseNat (Nat.toDigits 10 n ++ rest) = some (n, rest) := by
  have hdigits : ∀ c ∈ Nat.toDigits 10 n, c.isDigit = true := fun c hc =>
    Nat.isDigit_of_mem_toDigits (by decide) (by decide) hc
  have hnot : ∀ c ∈ rest.head?, ¬ c.isDigit = true := fun c hc => by simp [(h c hc).1]
  have htake : (Nat.toDigits 10 n ++ rest).takeWhile Char.isDigit = Nat.toDigits 10 n := by
    rw [List.takeWhile_append_of_pos hdigits]
    cases rest with
    | nil => simp
    | cons c rest => rw [List.takeWhile_cons_of_neg (hnot c rfl), List.append_nil]
  have hdrop : (Nat.toDigits 10 n ++ rest).dropWhile Char.isDigit = rest := by
    rw [List.dropWhile_append_of_pos hdigits]
    cases rest with
    | nil => rfl
    | cons c rest => rw [List.dropWhile_cons_of_neg (hnot c rfl)]
  unfold parseNat
  rw [htake, hdrop]
  dsimp only
  rw [Nat.ofDigitChars_ten_toDigits, if_pos]
  refine ⟨rfl, ?_⟩
  cases rest with
  | nil => rfl
  | cons c rest => simpa [and_assoc] using (h c rfl).2

/-- A value that starts with a digit is a number. -/
theorem parseValue_digit {c : Char} (hc : c.isDigit = true) (fuel : Nat) (cs : List Char) :
    parseValue (fuel + 1) (c :: cs) = (parseNat (c :: cs)).map (fun p => (int p.1, p.2)) := by
  unfold parseValue
  split
  all_goals first | rfl | (rename_i heq; obtain ⟨rfl, -⟩ := List.cons.inj heq; exact absurd hc (by decide))

theorem print_head (v : Json) : ∃ c cs, print v = c :: cs ∧ isJsonSpace c = false ∧ c ≠ ']' := by
  have hdigit (n : Nat) : ∃ c cs, Nat.toDigits 10 n = c :: cs ∧ isJsonSpace c = false ∧ c ≠ ']' := by
    obtain ⟨c, cs, hcs⟩ := List.exists_cons_of_ne_nil (Nat.toDigits_ne_nil (n := n) (b := 10))
    have hc : c.isDigit = true := Nat.isDigit_of_mem_toDigits (b := 10) (by decide) (by decide) (by rw [hcs]; exact List.mem_cons_self)
    refine ⟨c, cs, hcs, ?_, ?_⟩
    · unfold isJsonSpace
      simp only [Bool.or_eq_false_iff, decide_eq_false_iff_not]
      refine ⟨⟨⟨?_, ?_⟩, ?_⟩, ?_⟩ <;> rintro rfl <;> revert hc <;> decide
    · rintro rfl
      revert hc
      decide
  match v with
  | null | bool true | bool false | str _ | arr [] | arr (_ :: _) | obj [] | obj (_ :: _) =>
    simp [print, isJsonSpace]
  | int (.ofNat n) => exact hdigit n
  | int (.negSucc n) => exact ⟨'-', _, rfl, rfl, by decide⟩

theorem skip_blank (cs : List Char) : skip (' ' :: cs) = skip cs := rfl

theorem skip_cons {c : Char} (h : isJsonSpace c = false) (cs : List Char) : skip (c :: cs) = c :: cs :=
  List.dropWhile_cons_of_neg (by simp [h])

theorem skip_print (v : Json) (rest : List Char) : skip (print v ++ rest) = print v ++ rest := by
  obtain ⟨c, cs, hprint, hc, -⟩ := print_head v
  rw [hprint, List.cons_append, skip_cons hc]

theorem stops_of_head {c : Char} {rest : List Char} (h : c.isDigit = false ∧ c ≠ '.' ∧ c ≠ 'e' ∧ c ≠ 'E') :
    Stops (c :: rest) := by
  intro c' hc'
  cases hc'
  exact h

theorem stops_printElems (xs : List Json) (rest : List Char) : Stops (printElems xs ++ rest) := by
  cases xs with
  | nil => exact stops_of_head (by decide)
  | cons x xs => exact stops_of_head (by decide)

theorem stops_printMembers (kvs : List (String × Json)) (rest : List Char) : Stops (printMembers kvs ++ rest) := by
  cases kvs with
  | nil => exact stops_of_head (by decide)
  | cons kv kvs => exact stops_of_head (by decide)

theorem parseValue_printInt {rest : List Char} (h : Stops rest) (fuel : Nat) : ∀ i : Int,
    parseValue (fuel + 1) (printInt i ++ rest) = some (int i, rest)
  | .ofNat n => by
    change parseValue (fuel + 1) (Nat.toDigits 10 n ++ rest) = some (int n, rest)
    obtain ⟨c, cs, hcs⟩ := List.exists_cons_of_ne_nil (Nat.toDigits_ne_nil (n := n) (b := 10))
    have hc : c.isDigit = true :=
      Nat.isDigit_of_mem_toDigits (b := 10) (by decide) (by decide) (by rw [hcs]; exact List.mem_cons_self)
    have hparse := parseNat_toDigits h n
    rw [hcs, List.cons_append] at hparse ⊢
    rw [parseValue_digit hc, hparse]
    rfl
  | .negSucc n => by
    change parseValue (fuel + 1) ('-' :: Nat.toDigits 10 (n + 1) ++ rest) = some (int (.negSucc n), rest)
    rw [List.cons_append, parseValue, parseNat_toDigits h]
    rfl

theorem exists_succ_of_cons_le {α : Type} {a : α} {l : List α} {fuel : Nat} (h : (a :: l).length ≤ fuel) :
    ∃ n, fuel = n + 1 ∧ l.length ≤ n := by
  cases fuel with
  | zero => cases h
  | succ n => exact ⟨n, rfl, Nat.le_of_succ_le_succ h⟩

mutual

/-- **What was printed is parsed**, and the text after it is left. -/
theorem parseValue_print : ∀ (v : Json) (fuel : Nat) (rest : List Char), (print v).length ≤ fuel → Stops rest →
    parseValue fuel (print v ++ rest) = some (v, rest)
  | null, fuel, rest, hfuel, _ | bool true, fuel, rest, hfuel, _ | bool false, fuel, rest, hfuel, _
  | arr [], fuel, rest, hfuel, _ | obj [], fuel, rest, hfuel, _ => by
    obtain ⟨n, rfl, -⟩ := exists_succ_of_cons_le hfuel
    rfl
  | int i, fuel, rest, hfuel, h => by
    obtain ⟨c, cs, hprint, -, -⟩ := print_head (int i)
    rw [hprint] at hfuel
    obtain ⟨n, rfl, -⟩ := exists_succ_of_cons_le hfuel
    exact parseValue_printInt h n i
  | str s, fuel, rest, hfuel, _ => by
    obtain ⟨n, rfl, -⟩ := exists_succ_of_cons_le hfuel
    rw [print, List.cons_append, parseValue, parseStr_printStr]
    simp
  | arr (x :: xs), fuel, rest, hfuel, _ => by
    obtain ⟨n, rfl, hn⟩ := exists_succ_of_cons_le hfuel
    rw [print, List.cons_append, parseValue, List.append_assoc, skip_print]
    obtain ⟨c, cs, hx, -, hc⟩ := print_head x
    have helems := parseElems_print x xs n rest hn
    rw [hx, List.cons_append] at helems ⊢
    split
    next heq =>
      obtain ⟨rfl, -⟩ := List.cons.inj heq
      exact absurd rfl hc
    next heq =>
      rw [helems]
      rfl
  | obj ((key, value) :: kvs), fuel, rest, hfuel, _ => by
    obtain ⟨n, rfl, hn⟩ := exists_succ_of_cons_le hfuel
    have hmembers := parseMembers_print key value kvs n rest hn
    rw [print, List.cons_append, parseValue, List.cons_append]
    rw [List.cons_append] at hmembers
    rw [skip_cons rfl]
    change (parseMembers n _).map _ = _
    rw [hmembers]
    rfl
termination_by _ fuel => fuel

theorem parseElems_print : ∀ (x : Json) (xs : List Json) (fuel : Nat) (rest : List Char),
    (print x ++ printElems xs).length ≤ fuel → parseElems fuel (print x ++ (printElems xs ++ rest)) = some (x :: xs, rest)
  | x, [], fuel, rest, hfuel => by
    rw [printElems, List.length_append, List.length_singleton] at hfuel
    obtain ⟨n, rfl⟩ : ∃ n, fuel = n + 1 := ⟨fuel - 1, by omega⟩
    rw [parseElems, parseValue_print x n _ (by omega) (stops_printElems [] rest)]
    rfl
  | x, y :: ys, fuel, rest, hfuel => by
    rw [printElems, List.length_append, List.length_cons, List.length_cons] at hfuel
    obtain ⟨n, rfl⟩ : ∃ n, fuel = n + 1 := ⟨fuel - 1, by omega⟩
    rw [parseElems, parseValue_print x n _ (by omega) (stops_printElems (y :: ys) rest), printElems]
    simp only [List.cons_append, List.append_assoc, skip_cons (show isJsonSpace ',' = false from rfl), skip_blank, skip_print]
    rw [parseElems_print y ys n rest (by rw [List.length_append] at hfuel ⊢; omega)]
    rfl
termination_by _ _ fuel => fuel

theorem parseMembers_print : ∀ (key : String) (value : Json) (kvs : List (String × Json)) (fuel : Nat) (rest : List Char),
    ('"' :: (printStr key.toList ++ ':' :: ' ' :: (print value ++ printMembers kvs))).length ≤ fuel →
    parseMembers fuel ('"' :: (printStr key.toList ++ ':' :: ' ' :: (print value ++ printMembers kvs)) ++ rest) =
      some ((key, value) :: kvs, rest)
  | key, value, [], fuel, rest, hfuel => by
    obtain ⟨n, rfl, hn⟩ := exists_succ_of_cons_le hfuel
    simp only [List.length_cons, List.length_append] at hn
    simp only [List.cons_append, List.append_assoc]
    rw [parseMembers, parseStr_printStr]
    simp only [skip_cons (show isJsonSpace ':' = false from rfl), skip_blank, skip_print]
    rw [parseValue_print value n _ (by omega) (stops_printMembers [] rest), printMembers]
    simp [skip, isJsonSpace]
  | key, value, (key', value') :: kvs, fuel, rest, hfuel => by
    obtain ⟨n, rfl, hn⟩ := exists_succ_of_cons_le hfuel
    rw [printMembers] at hn
    simp only [List.length_cons, List.length_append] at hn
    have hmembers := parseMembers_print key' value' kvs n rest (by simp only [List.length_cons, List.length_append]; omega)
    simp only [List.cons_append, List.append_assoc] at hmembers ⊢
    rw [parseMembers, parseStr_printStr]
    simp only [skip_cons (show isJsonSpace ':' = false from rfl), skip_blank, skip_print]
    rw [parseValue_print value n _ (by omega) (stops_printMembers ((key', value') :: kvs) rest), printMembers]
    simp only [List.cons_append, List.append_assoc, skip_cons (show isJsonSpace ',' = false from rfl), skip_blank,
      skip_cons (show isJsonSpace '"' = false from rfl), hmembers]
    simp
termination_by _ _ _ fuel => fuel

end

/-- `json.loads (json.dumps v)` is `v`. -/
theorem loads_print (v : Json) : loads (print v) = some v := by
  have hskip := skip_print v []
  have hparse := parseValue_print v ((print v).length + 1) [] (Nat.le_succ _) (fun c hc => by cases hc)
  rw [List.append_nil] at hskip hparse
  rw [loads, hskip, hparse]
  rfl

/-! ## What was written is one line -/

def Printable (c : Char) : Prop := 32 ≤ c.toNat ∧ c.toNat ≤ 126

instance (c : Char) : Decidable (Printable c) := inferInstanceAs (Decidable (_ ∧ _))

theorem printable_of_all {cs : List Char} (h : cs.all (fun c => decide (Printable c)) = true) : ∀ c ∈ cs, Printable c :=
  fun c hc => of_decide_eq_true (List.all_eq_true.1 h c hc)

theorem printable_hexDigit (n : Nat) : Printable (hexDigit (n % 16)) := by
  have hall : ∀ m < 16, Printable (hexDigit m) := by decide
  exact hall _ (Nat.mod_lt _ (by decide))

theorem printable_unicodeEscape (n : Nat) : ∀ c ∈ unicodeEscape n, Printable c := by
  unfold unicodeEscape
  simp only [List.forall_mem_cons]
  exact ⟨by decide, by decide, printable_hexDigit _, printable_hexDigit _, printable_hexDigit _, printable_hexDigit _,
    fun c hc => by cases hc⟩

theorem printable_escapeChar (c : Char) : ∀ c' ∈ escapeChar c, Printable c' := by
  unfold escapeChar
  cases hshort : shortEscapes.lookup c with
  | some e =>
    obtain ⟨before, after, heq, -⟩ := List.lookup_eq_some_iff.1 hshort
    have hmem : (c, e) ∈ shortEscapes := by
      rw [heq]
      exact List.mem_append_right _ List.mem_cons_self
    have hall : ∀ p ∈ shortEscapes, Printable p.2 := by decide
    exact List.forall_mem_cons.2 ⟨by decide, List.forall_mem_singleton.2 (hall _ hmem)⟩
  | none =>
    dsimp only
    split_ifs with hprint hbmp
    · exact List.forall_mem_singleton.2 hprint
    · exact printable_unicodeEscape _
    · exact List.forall_mem_append.2 ⟨printable_unicodeEscape _, printable_unicodeEscape _⟩

theorem printable_printStr (cs : List Char) : ∀ c ∈ printStr cs, Printable c := by
  refine List.forall_mem_append.2 ⟨fun c hc => ?_, printable_of_all (by decide)⟩
  obtain ⟨c', -, hc'⟩ := List.mem_flatMap.1 hc
  exact printable_escapeChar c' c hc'

theorem printable_toDigits (n : Nat) : ∀ c ∈ Nat.toDigits 10 n, Printable c := by
  intro c hc
  have hdigit := Nat.isDigit_of_mem_toDigits (b := 10) (by decide) (by decide) hc
  simp only [Char.isDigit, Bool.and_eq_true, decide_eq_true_eq, UInt32.le_iff_toNat_le] at hdigit
  change 32 ≤ c.val.toNat ∧ c.val.toNat ≤ 126
  obtain ⟨hlow, hhigh⟩ := hdigit
  change 48 ≤ c.val.toNat at hlow
  change c.val.toNat ≤ 57 at hhigh
  omega

mutual

theorem printable_print : ∀ (v : Json), ∀ c ∈ print v, Printable c
  | null | bool true | bool false | arr [] | obj [] => printable_of_all (by decide)
  | int (.ofNat n) => printable_toDigits n
  | int (.negSucc n) => List.forall_mem_cons.2 ⟨by decide, printable_toDigits _⟩
  | str s => List.forall_mem_cons.2 ⟨by decide, printable_printStr _⟩
  | arr (x :: xs) =>
    List.forall_mem_cons.2 ⟨by decide, List.forall_mem_append.2 ⟨printable_print x, printable_printElems xs⟩⟩
  | obj ((key, value) :: kvs) => by
    rw [print]
    simp only [List.forall_mem_cons, List.forall_mem_append]
    exact ⟨by decide, by decide, printable_printStr _, by decide, by decide, printable_print value, printable_printMembers kvs⟩

theorem printable_printElems : ∀ (xs : List Json), ∀ c ∈ printElems xs, Printable c
  | [] => printable_of_all (by decide)
  | x :: xs => by
    rw [printElems]
    simp only [List.forall_mem_cons, List.forall_mem_append]
    exact ⟨by decide, by decide, printable_print x, printable_printElems xs⟩

theorem printable_printMembers : ∀ (kvs : List (String × Json)), ∀ c ∈ printMembers kvs, Printable c
  | [] => printable_of_all (by decide)
  | (key, value) :: kvs => by
    rw [printMembers]
    simp only [List.forall_mem_cons, List.forall_mem_append]
    exact ⟨by decide, by decide, by decide, printable_printStr _, by decide, by decide, printable_print value,
      printable_printMembers kvs⟩

end

end Json

end Py
