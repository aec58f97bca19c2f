import KClosingAlpha.Py.Float
import Mathlib.Data.List.TakeWhile
/-!
# Value — the objects a journal payload holds, and the string operations read off them

A payload is a dictionary from keys to scalars, one key apart that holds a list of strings.  Dictionaries keep their
insertion order, as the runtime's do.
-/
namespace Py

/-- A payload value: the JSON scalars, a list of strings, or any other object. -/
inductive Value where
  | none
  | bool (b : Bool)
  | int (i : Int)
  | float (f : PyFloat)
  | str (s : String)
  | strs (xs : List String)
  | other
  deriving DecidableEq

/-- A dictionary, as its items in insertion order. -/
abbrev Dict (α : Type) := List (String × α)

namespace Dict

variable {α : Type}

/-- `d.get(key, default)`. -/
def getD (d : Dict α) (key : String) (default : α) : α := (d.lookup key).getD default

/-- `key in d`. -/
def has (d : Dict α) (key : String) : Bool := (d.lookup key).isSome

/-- `d[key] = value`: in place when the key is there, at the end otherwise. -/
def set : Dict α → String → α → Dict α
  | [], key, value => [(key, value)]
  | (k, v) :: d, key, value => if k = key then (k, value) :: d else (k, v) :: set d key value

section set

variable {key name : String} {value : α}

theorem lookup_set_of_ne (h : name ≠ key) : ∀ d : Dict α, (set d key value).lookup name = d.lookup name
  | [] => by
    have hn : (name == key) = false := by simpa using h
    rw [set, List.lookup_cons, hn]
  | (k, v) :: d => by
    rw [set]
    split_ifs with hk
    · have hn : (name == k) = false := by simpa [hk] using h
      rw [List.lookup_cons, List.lookup_cons, hn]
    · rw [List.lookup_cons, List.lookup_cons, lookup_set_of_ne h d]

theorem lookup_set_self : ∀ d : Dict α, (set d key value).lookup key = some value
  | [] => by rw [set, List.lookup_cons, beq_self_eq_true]
  | (k, v) :: d => by
    rw [set]
    split_ifs with hk
    · rw [List.lookup_cons, hk, beq_self_eq_true]
    · have hn : (key == k) = false := by simpa using Ne.symm hk
      rw [List.lookup_cons, hn, lookup_set_self d]

theorem set_of_not_mem : ∀ {d : Dict α}, key ∉ d.map Prod.fst → set d key value = d ++ [(key, value)]
  | [], _ => rfl
  | (k, v) :: d, h => by
    rw [List.map_cons, List.mem_cons, not_or] at h
    rw [set, if_neg (fun heq => h.1 heq.symm), set_of_not_mem h.2, List.cons_append]

end set

end Dict

/-! ## Strings -/

/-- `c.isspace()`. -/
def isSpace (c : Char) : Bool :=
  let n := c.toNat
  (decide (9 ≤ n) && decide (n ≤ 13)) || (decide (28 ≤ n) && decide (n ≤ 32)) || n == 0x85 || n == 0xA0 || n == 0x1680 ||
    (decide (0x2000 ≤ n) && decide (n ≤ 0x200A)) || n == 0x2028 || n == 0x2029 || n == 0x202F || n == 0x205F || n == 0x3000

/-- `text.strip()` on characters. -/
def stripChars (cs : List Char) : List Char := ((cs.dropWhile isSpace).reverse.dropWhile isSpace).reverse

/-- `text.strip()`. -/
def strip (s : String) : String := String.ofList (stripChars s.toList)

/-- `not text.strip()`. -/
def isBlank (s : String) : Bool := s.toList.all isSpace

theorem mem_dropWhile {p : Char → Bool} {c : Char} (hc : p c = false) : ∀ {cs : List Char}, c ∈ cs → c ∈ cs.dropWhile p
  | a :: cs, h => by
    rw [List.dropWhile_cons]
    by_cases ha : p a = true
    · rw [if_pos ha]
      refine mem_dropWhile hc ((List.mem_cons.1 h).resolve_left fun he => ?_)
      rw [he, ha] at hc
      cases hc
    · rw [if_neg ha]
      exact h

theorem mem_stripChars {c : Char} (hc : isSpace c = false) {cs : List Char} (h : c ∈ cs) : c ∈ stripChars cs := by
  unfold stripChars
  rw [List.mem_reverse]
  exact mem_dropWhile hc (List.mem_reverse.2 (mem_dropWhile hc h))

/-- Stripping a text that is not blank leaves one that is not. -/
theorem isBlank_strip {s : String} (h : isBlank s = false) : isBlank (strip s) = false := by
  unfold isBlank strip at *
  rw [List.all_eq_false] at h ⊢
  obtain ⟨c, hc, hs⟩ := h
  exact ⟨c, by rw [String.toList_ofList]; exact mem_stripChars (by simpa using hs) hc, hs⟩

theorem stripChars_of_all : ∀ {cs : List Char}, cs.all isSpace = true → stripChars cs = [] := by
  intro cs h
  have hd : cs.dropWhile isSpace = [] := List.dropWhile_eq_nil_iff.2 (List.all_eq_true.1 h)
  unfold stripChars
  rw [hd]
  rfl

/-- Decimal digits with single underscores between them; `afterDigit` says whether the last character was a digit. -/
def digitsValue : Bool → Nat → List Char → Option Nat
  | afterDigit, n, [] => if afterDigit then some n else none
  | afterDigit, n, c :: cs =>
    if c.isDigit then digitsValue true (10 * n + (c.toNat - 48)) cs
    else if c = '_' ∧ afterDigit = true ∧ cs.head?.any Char.isDigit = true then digitsValue false n cs
    else none

/-- `int(text)` on stripped characters: an optional sign and digits. -/
def intOfChars : List Char → Option Int
  | '-' :: ds => (digitsValue false 0 ds).map (fun n => -(n : Int))
  | '+' :: ds => (digitsValue false 0 ds).map (fun n => (n : Int))
  | ds => (digitsValue false 0 ds).map (fun n => (n : Int))

namespace Value

/-- The scalar test of the journal's reader and writer. -/
def isScalar : Value → Bool
  | none | bool _ | int _ | str _ => true
  | float f => f.isFinite
  | strs _ | other => false

/-- `bool(value)`. -/
def truthy : Value → Bool
  | none => false
  | bool b => b
  | int i => decide (i ≠ 0)
  | float (.finite _ m _ _) => decide (m ≠ 0)
  | float _ => true
  | str s => decide (s ≠ "")
  | strs xs => !xs.isEmpty
  | other => true

/-- `str(value)`; a list is never passed to it, since every key it is read under holds a scalar. -/
def toStr : Value → String
  | none => "None"
  | bool true => "True"
  | bool false => "False"
  | int i => toString i
  | float f => String.ofList f.repr
  | str s => s
  | strs _ | other => ""

/-- `int(value)`, when it does not raise. -/
def toInt : Value → Option Int
  | bool b => some (if b then 1 else 0)
  | int i => some i
  | float (.finite neg m e _) =>
    let n : Int := ((PyFloat.toRatio m e).1 / (PyFloat.toRatio m e).2 : Nat)
    some (if neg then -n else n)
  | str s => intOfChars (stripChars s.toList)
  | _ => Option.none

/-- A number as a fraction, so that `1`, `True` and `1.0` compare equal. -/
def fraction : Value → Option (Int × Nat)
  | bool b => some (if b then 1 else 0, 1)
  | int i => some (i, 1)
  | float (.finite neg m e _) =>
    some (if neg then -((PyFloat.toRatio m e).1 : Int) else (PyFloat.toRatio m e).1, (PyFloat.toRatio m e).2)
  | _ => Option.none

/-- `a == b`. -/
def eq (a b : Value) : Bool :=
  match a.fraction, b.fraction with
  | some p, some q => decide (p.1 * q.2 = q.1 * p.2)
  | some _, Option.none | Option.none, some _ => false
  | Option.none, Option.none => decide (a = b) && decide (a ≠ float .nan)

theorem eq_self_int (i : Int) : eq (int i) (int i) = true := by simp [eq, fraction]

theorem eq_self_bool (b : Bool) : eq (bool b) (bool b) = true := by simp [eq, fraction]

end Value

/-- `a == b` on dictionaries: the same keys with equal values, whatever the order. -/
def Dict.eq (a b : Dict Value) : Bool :=
  decide (a.length = b.length) && a.all (fun p => (b.lookup p.1).any (Value.eq p.2))

end Py
