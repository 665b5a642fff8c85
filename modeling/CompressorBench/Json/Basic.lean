/-!
# JSON values

A value of a JSON document. Whole numbers and floating point numbers are kept apart, and the members
of an object keep their order.
-/

namespace CompressorBench

/-- A JSON value. -/
inductive Json where
  | null
  | bool (value : Bool)
  | int (value : Int)
  | float (value : Float)
  | str (value : String)
  | arr (items : List Json)
  | obj (members : List (String × Json))
deriving Inhabited

namespace Json

/-- The member of an object with a name. -/
def get? (value : Json) (name : String) : Option Json :=
  match value with
  | .obj members => members.lookup name
  | _ => none

/-- The text of a string value. -/
def asString? : Json → Option String
  | .str text => some text
  | _ => none

/-- The items of an array. -/
def asArray? : Json → Option (List Json)
  | .arr items => some items
  | _ => none

/-- The value of a whole number. -/
def asInt? : Json → Option Int
  | .int n => some n
  | _ => none

/-- The value of a whole number that is not negative. -/
def asNat? : Json → Option Nat
  | .int (.ofNat n) => some n
  | _ => none

/-- The truth value. -/
def asBool? : Json → Option Bool
  | .bool b => some b
  | _ => none

/-- An optional value, absent as `null`. -/
def ofOption {α : Type} (toJson : α → Json) : Option α → Json
  | none => .null
  | some x => toJson x

/-- A natural number. -/
def ofNat (n : Nat) : Json := .int n

/-! ## Objects in the order of their names -/

/-- Puts a member into an object whose names ascend; a member of the same name is replaced. -/
def insertMember (name : String) (value : Json) : List (String × Json) → List (String × Json)
  | [] => [(name, value)]
  | (other, old) :: rest =>
    if name < other then (name, value) :: (other, old) :: rest
    else if name = other then (name, value) :: rest
    else (other, old) :: insertMember name value rest

mutual

/-- The value with the members of every object in the order of their names, each name once with its
last value. -/
def sorted : Json → Json
  | .arr items => .arr (sortedItems items)
  | .obj members => .obj (sortedMembers members [])
  | .null => .null
  | .bool b => .bool b
  | .int n => .int n
  | .float x => .float x
  | .str text => .str text

/-- Sorts each item of an array in itself. -/
def sortedItems : List Json → List Json
  | [] => []
  | item :: rest => sorted item :: sortedItems rest

/-- Puts members into an object one after the other. -/
def sortedMembers : List (String × Json) → List (String × Json) → List (String × Json)
  | [], done => done
  | (name, value) :: rest, done => sortedMembers rest (insertMember name (sorted value) done)

end

/-! ## What cannot be written -/

/-- Why a value has no JSON text. -/
inductive Unserializable where
  /-- The name of a member is no string. -/
  | keyNotString
deriving DecidableEq, Repr

/-- The text of the reason. -/
def Unserializable.message : Unserializable → String
  | .keyNotString => "key must be a string"

/-- An object from a list of entries; every key has to be a string. -/
def ofEntries : List (Json × Json) → Except Unserializable Json
  | [] => .ok (.obj [])
  | (.str name, value) :: rest => do
    match ← ofEntries rest with
    | .obj members => .ok (.obj ((name, value) :: members))
    | _ => .ok (.obj [(name, value)])
  | _ :: _ => .error .keyNotString

end Json

end CompressorBench
