import KClosingAlpha.Py.Value
/-!
# Object — the objects of the runtime, and the conversions that may raise

Every object a program meets in metadata it did not write: the JSON values, tuples, and instances with attributes.  A
mapping of any class is the `dict` of its items.  Two objects are equal by value; a NaN equals nothing.
-/
namespace Py

inductive Object where
  | none
  | bool (b : Bool)
  | int (i : Int)
  | float (f : PyFloat)
  | str (s : String)
  | list (xs : List Object)
  | tuple (xs : List Object)
  | dict (items : List (Object × Object))
  | inst (cls : String) (attrs : List (String × Object))

/-- The exceptions, with the message of a `ValueError`, which callers quote. -/
inductive Error where
  | value (msg : String)
  | type
  | attribute (name : String)
  | key (name : String)
  | overflow
  | other
  deriving DecidableEq

namespace Object

/-- `value is None`. -/
def isNone : Object → Bool
  | none => true
  | _ => false

/-- A number as a fraction, so that `1`, `True` and `1.0` compare equal. -/
def fraction : Object → Option (Int × Nat)
  | bool b => some (if b then 1 else 0, 1)
  | int i => some (i, 1)
  | float (.finite neg m e _) => some (PyFloat.signedRatio neg m e)
  | _ => Option.none

/-- `a == b` on numbers. -/
def eqNumber (a b : Object) : Bool :=
  match a, b with
  | float (.inf s), float (.inf t) => decide (s = t)
  | _, _ =>
    match a.fraction, b.fraction with
    | some p, some q => decide (p.1 * q.2 = q.1 * p.2)
    | _, _ => false

mutual

/-- `a == b`. -/
def eq : Object → Object → Bool
  | none, none => true
  | str s, str t => decide (s = t)
  | list xs, list ys => eqList xs ys
  | tuple xs, tuple ys => eqList xs ys
  | dict items, dict others => decide (items.length = others.length) && eqItems items others
  | inst cls attrs, inst cls' attrs' => decide (cls = cls') && eqAttrs attrs attrs'
  | a, b => eqNumber a b

def eqList : List Object → List Object → Bool
  | [], [] => true
  | x :: xs, y :: ys => eq x y && eqList xs ys
  | _, _ => false

/-- Every item is among the others, in any order. -/
def eqItems : List (Object × Object) → List (Object × Object) → Bool
  | [], _ => true
  | (k, v) :: items, others => others.any (fun p => eq k p.1 && eq v p.2) && eqItems items others

def eqAttrs : List (String × Object) → List (String × Object) → Bool
  | [], [] => true
  | (n, v) :: attrs, (n', v') :: attrs' => decide (n = n') && eq v v' && eqAttrs attrs attrs'
  | _, _ => false

end

/-- `getattr(value, name)`. -/
def attr (value : Object) (name : String) : Except Error Object :=
  match value with
  | inst _ attrs => (attrs.lookup name).elim (.error (.attribute name)) .ok
  | _ => .error (.attribute name)

/-! ## Hashing and lookup -/

mutual

/-- `hash(value)` does not raise. -/
def hashable : Object → Bool
  | list _ | dict _ => false
  | tuple xs => hashableAll xs
  | _ => true

def hashableAll : List Object → Bool
  | [] => true
  | x :: xs => hashable x && hashableAll xs

end

/-- `items[key]`, the first whose key is equal. -/
def lookup (items : List (Object × Object)) (key : Object) : Option Object := (items.find? (fun p => p.1.eq key)).map Prod.snd

/-- `items[key] = value`: in place when the key is there, at the end otherwise. -/
def setItem : List (Object × Object) → Object → Object → List (Object × Object)
  | [], key, value => [(key, value)]
  | (k, v) :: items, key, value => if k.eq key then (k, value) :: items else (k, v) :: setItem items key value

/-- `key in labels`, which hashes the key first. -/
def isIn (labels : List Object) (key : Object) : Except Error Bool :=
  if key.hashable then .ok (labels.any (fun x => x.eq key)) else .error .type

/-! ## Conversions -/

/-- The objects an iteration yields. -/
def iter : Object → Except Error (List Object)
  | list xs | tuple xs => .ok xs
  | str s => .ok (s.toList.map (fun c => str c.toString))
  | dict items => .ok (items.map Prod.fst)
  | _ => .error .type

/-- An element of the sequence `dict` updates from. -/
def pair (i : Nat) (value : Object) : Except Error (Object × Object) :=
  match value.iter with
  | .ok [k, v] => if k.hashable then .ok (k, v) else .error .type
  | .ok xs =>
    .error (.value s!"dictionary update sequence element #{i} has length {xs.length}; 2 is required")
  | .error e => .error e

/-- `dict(value)`. -/
def toDict : Object → Except Error (List (Object × Object))
  | dict items => .ok items
  | value => do
    let xs ← value.iter
    xs.zipIdx.foldlM (fun items p => (fun kv => setItem items kv.1 kv.2) <$> pair p.2 p.1) []

/-- `list(value)` of what is a list or a tuple, `None` of anything else. -/
def asSequence : Object → Option (List Object)
  | list xs | tuple xs => some xs
  | _ => Option.none

/-- `float(value)`, given what it makes of a text. -/
def toFloat (ofStr : String → Except Error PyFloat) : Object → Except Error PyFloat
  | bool b => .ok (PyFloat.ofInt (if b then 1 else 0))
  | int i => if (PyFloat.ofInt i).isFinite then .ok (PyFloat.ofInt i) else .error .overflow
  | float f => .ok f
  | str s => ofStr s
  | _ => .error .type

end Object
end Py
