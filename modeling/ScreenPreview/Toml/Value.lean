import ScreenPreview.Decimal.Binary64

/-! TOML values. What may be added to a table depends on how it came into being. -/
namespace ScreenPreview.Toml

inductive Made where
  | header
  | implied
  | dotted
  | closed
  deriving DecidableEq, Repr

inductive Value where
  | text (s : String)
  | int (n : Int)
  | real (x : Float)
  | bool (b : Bool)
  /-- A date, a time of day or both. No setting takes one, so which it is was not kept. -/
  | moment
  | list (items : List Value)
  | table (made : Made) (members : List (String × Value))
  | rows (rows : List (List (String × Value)))
  deriving Inhabited

abbrev Members := List (String × Value)

namespace Members

def put (key : String) (value : Value) : Members → Members
  | [] => [(key, value)]
  | m :: rest => if m.1 = key then (key, value) :: rest else m :: put key value rest

/-- Change the table at the end of a path, making the tables on the way that are missing. A path
leads through the last of several rows, but not through other values. A dotted path does not lead
through a table that has its own header. -/
def change (asDotted : Bool) (f : Made → Members → Option Members) :
    List String → Made → Members → Option Members
  | [], made, members => f made members
  | key :: path, _, members =>
    match members.lookup key with
    | none =>
      let made := if asDotted then .dotted else .implied
      (change asDotted f path made []).map fun sub => put key (.table made sub) members
    | some (.table made sub) =>
      if made = .closed ∨ (asDotted ∧ made = .header) then none
      else (change asDotted f path made sub).map fun sub => put key (.table made sub) members
    | some (.rows rows) =>
      match rows.reverse with
      | [] => none
      | last :: before =>
        (change asDotted f path .header last).map fun sub =>
          put key (.rows (sub :: before).reverse) members
    | some _ => none

/-- Add the pair of a dotted key and a value. The last table on the way must be one that dotted
keys made, and the last key must be new. -/
def addPair (path : List String) (key : String) (value : Value) (made : Made)
    (members : Members) : Option Members :=
  let add (made : Made) (members : Members) : Option Members :=
    if !path.isEmpty ∧ made ≠ .dotted then none
    else
      match members.lookup key with
      | some _ => none
      | none => some (put key value members)
  change true add path made members

def openTable (path : List String) (key : String) (members : Members) : Option Members :=
  let add (_ : Made) (members : Members) : Option Members :=
    match members.lookup key with
    | none => some (put key (.table .header []) members)
    | some (.table .implied sub) => some (put key (.table .header sub) members)
    | some _ => none
  change false add path .header members

def openRow (path : List String) (key : String) (members : Members) : Option Members :=
  let add (_ : Made) (members : Members) : Option Members :=
    match members.lookup key with
    | none => some (put key (.rows [[]]) members)
    | some (.rows rows) => some (put key (.rows (rows ++ [[]])) members)
    | some _ => none
  change false add path .header members

end Members

end ScreenPreview.Toml
