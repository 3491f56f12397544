/-! # JSON values

A JSON value keeps the order of the members of its objects. Numbers written
without fraction and exponent are whole numbers of any size; any other number
is kept as text. A record is read from an object by the names of its members,
or from an array by their order.
-/

namespace Monkey

/-- A JSON value. -/
inductive Json
  | null
  | bool (b : Bool)
  | int (n : Int)
  /-- A number with a fraction or an exponent, as it is written. -/
  | real (text : String)
  | str (s : String)
  | arr (items : List Json)
  | obj (members : List (String × Json))
  deriving Repr

namespace Json

/-- The value of a named member of an object. -/
def member? : Json → String → Option Json
  | obj members, name => members.lookup name
  | _, _ => none

/-- The values of a record's members: by name from an object, by order from an array. -/
def record? (names : List String) : Json → Option (List Json)
  | obj members => names.mapM fun name => members.lookup name
  | arr items => if items.length = names.length then some items else none
  | _ => none

def bool? : Json → Option Bool
  | bool b => some b
  | _ => none

def int? : Json → Option Int
  | int n => some n
  | _ => none

def str? : Json → Option String
  | str s => some s
  | _ => none

def arr? : Json → Option (List Json)
  | arr items => some items
  | _ => none

/-- A whole number from 0 to 2⁶⁴ - 1. -/
def count? : Json → Option Nat
  | int (.ofNat n) => if n < UInt64.size then some n else none
  | _ => none

/-- The name of a constant: a string, or an object with this one name whose value is null. -/
def constant? : Json → Option String
  | str s => some s
  | obj [(s, null)] => some s
  | _ => none

/-- The name and the content of a variant: an object with one member. -/
def variant? : Json → Option (String × Json)
  | obj [(tag, content)] => some (tag, content)
  | _ => none

theorem sizeOf_lookup {members : List (String × Json)} {name : String} {v : Json}
    (h : members.lookup name = some v) : sizeOf v < sizeOf members := by
  induction members with
  | nil => simp at h
  | cons m ms ih =>
    obtain ⟨k, w⟩ := m
    rw [List.lookup_cons] at h
    split at h
    · cases h
      simp
      omega
    · have := ih h
      simp
      omega

theorem sizeOf_member? {j v : Json} {name : String} (h : j.member? name = some v) :
    sizeOf v < sizeOf j := by
  cases j with
  | obj members =>
    have := sizeOf_lookup h
    simp
    omega
  | _ => simp [member?] at h

theorem sizeOf_arr? {j : Json} {items : List Json} (h : j.arr? = some items) :
    sizeOf items < sizeOf j := by
  cases j with
  | arr vs =>
    cases h
    simp
  | _ => simp [arr?] at h

theorem sizeOf_variant? {j v : Json} {tag : String} (h : j.variant? = some (tag, v)) :
    sizeOf v < sizeOf j := by
  unfold variant? at h
  split at h
  · cases h
    simp
    omega
  · simp at h

end Json

end Monkey
