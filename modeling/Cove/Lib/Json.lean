import Mathlib.Data.Char
import Mathlib.Data.List.Lex
import Cove.Lib.AssocMap
import Cove.Lib.Ieee754

/-!
# JSON values

A JSON document as its reader keeps it: numbers in one of three forms, object members
in key order.

- `Text`: a string, by its characters.
- `Json`, `Json.get`: values and the member of an object.
- `Json.beq`: equality of values; floating-point numbers compare by value.
- `ofMembers`, `insertMember`: an object from its members, and setting one.
- `getStr`: a member that is a string.
-/

open Ieee754 (F64)

/-- A string, by its characters. -/
abbrev Text := List Char

/-- A number: unsigned when it is not negative, signed when it is, or a float. -/
inductive JsonNumber where
  | posInt (v : UInt64)
  | negInt (v : Int64)
  | float (v : F64)
  deriving DecidableEq, Repr

/-- Numbers of one form are compared within it; others differ. -/
def JsonNumber.beq : JsonNumber → JsonNumber → Bool
  | posInt a, posInt b => a == b
  | negInt a, negInt b => a == b
  | float a, float b => a.partialCmp b == some .eq
  | _, _ => false

inductive Json where
  | null
  | bool (b : Bool)
  | number (n : JsonNumber)
  | string (s : Text)
  | array (items : List Json)
  | object (members : List (Text × Json))
  deriving Repr, Inhabited

namespace Json

def isNull : Json → Bool
  | null => true
  | _ => false

/-- The member of an object under a key. -/
def get (v : Json) (key : Text) : Option Json :=
  match v with
  | object members => (members.find? fun m => m.1 == key).map Prod.snd
  | _ => none

mutual

/-- `==` on values. -/
def beq : Json → Json → Bool
  | null, null => true
  | bool a, bool b => a == b
  | number a, number b => a.beq b
  | string a, string b => a == b
  | array as, array bs => beqItems as bs
  | object as, object bs => beqMembers as bs
  | _, _ => false

def beqItems : List Json → List Json → Bool
  | [], [] => true
  | a :: as, b :: bs => beq a b && beqItems as bs
  | _, _ => false

def beqMembers : List (Text × Json) → List (Text × Json) → Bool
  | [], [] => true
  | (k, a) :: as, (l, b) :: bs => k == l && beq a b && beqMembers as bs
  | _, _ => false

end

/-! ## Objects -/

/-- `json!` of an object: a later member of a key replaces the earlier one. -/
def ofMembers (members : List (Text × Json)) : Json := .object (AssocMap.collect members)

/-- `insert` on an object. -/
def insertMember (v : Json) (key : Text) (value : Json) : Json :=
  match v with
  | object members => .object (AssocMap.insert key value members)
  | v => v

/-- A member that is a string. -/
def getStr (v : Json) (key : Text) : Option Text :=
  match v.get key with
  | some (string t) => some t
  | _ => none

/-- The keys of an object. -/
def keys : Json → List Text
  | object members => members.map Prod.fst
  | _ => []

def isObject : Json → Bool
  | object _ => true
  | _ => false

/-- A non-negative number. -/
def ofNat (n : Nat) : Json := number (.posInt (UInt64.ofNat n))

/-- A signed number. -/
def ofInt (z : Int) : Json :=
  number (if z < 0 then .negInt (Int64.ofInt z) else .posInt (UInt64.ofNat z.toNat))

/-- An optional value, `null` when it is missing. -/
def ofOption (f : α → Json) : Option α → Json
  | some a => f a
  | none => null

@[simp] theorem isObject_ofMembers (members : List (Text × Json)) :
    (ofMembers members).isObject = true := rfl

end Json
