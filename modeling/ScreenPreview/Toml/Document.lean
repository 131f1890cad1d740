import ScreenPreview.Toml.Number
import ScreenPreview.Toml.Token

/-! TOML documents. The statements are read first and then carried out on an empty table. -/
namespace ScreenPreview.Toml

/-! ### Values -/

def items (item : List Char → Option (Value × List Char)) :
    Nat → List Value → List Char → Option (List Value × List Char)
  | 0, _, _ => none
  | bound + 1, read, cs =>
    match skipLines false cs with
    | ']' :: rest => some (read.reverse, rest)
    | cs =>
      match item cs with
      | none => none
      | some (value, rest) =>
        match skipLines false rest with
        | ',' :: rest => items item bound (value :: read) rest
        | ']' :: rest => some ((value :: read).reverse, rest)
        | _ => none

def pair (item : List Char → Option (Value × List Char)) (cs : List Char) :
    Option ((List String × String × Value) × List Char) :=
  match keyPath cs with
  | some ((path, key), '=' :: rest) =>
    (item (skip rest)).map fun (v, rest) => ((path, key, v), rest)
  | _ => none

/-- Read the pairs between braces after the opening one or a comma, adding them to those read so
far. A comma must be followed by one more pair. -/
def pairs (item : List Char → Option (Value × List Char)) :
    Nat → Members → List Char → Option (Members × List Char)
  | 0, _, _ => none
  | bound + 1, members, cs =>
    match pair item cs with
    | none => none
    | some ((path, key, value), rest) =>
      match Members.addPair path key value .closed members with
      | none => none
      | some members =>
        match skip rest with
        | ',' :: rest => pairs item bound members rest
        | '\x7d' :: rest => some (members, rest)
        | _ => none

def scalar (cs : List Char) : Option (Value × List Char) :=
  match cs with
  | 't' :: 'r' :: 'u' :: 'e' :: rest => some (.bool true, rest)
  | 'f' :: 'a' :: 'l' :: 's' :: 'e' :: rest => some (.bool false, rest)
  | _ =>
    match string cs with
    | some (s, rest) => some (.text s, rest)
    | none =>
      match moment cs with
      | some found => some found
      | none => number cs

def value : Nat → List Char → Option (Value × List Char)
  | 0, cs => scalar cs
  | depth + 1, cs =>
    match cs with
    | '[' :: rest =>
      (items (value depth) (rest.length + 1) [] rest).map fun (xs, rest) => (.list xs, rest)
    | '\x7b' :: rest =>
      match skip rest with
      | '\x7d' :: rest => some (.table .closed [], rest)
      | rest =>
        (pairs (value depth) (rest.length + 1) [] rest).map fun (ms, rest) =>
          (.table .closed ms, rest)
    | cs => scalar cs

def depthLimit : Nat := 79

/-! ### Statements -/

inductive Statement where
  | pair (path : List String) (key : String) (value : Value)
  | header (path : List String) (key : String)
  | repeated (path : List String) (key : String)

def headerRest (closing : List Char) (make : List String → String → Statement) (cs : List Char) :
    Option (Statement × List Char) :=
  match keyPath cs with
  | some ((path, key), rest) =>
    if rest.take closing.length = closing then
      (trailing (rest.drop closing.length)).map (make path key, ·)
    else none
  | none => none

def statement (cs : List Char) : Option (Statement × List Char) :=
  match cs with
  | '[' :: '[' :: rest => headerRest [']', ']'] .repeated rest
  | '[' :: rest => headerRest [']'] .header rest
  | cs =>
    match pair (value depthLimit) cs with
    | some ((path, key, v), rest) => (trailing rest).map (.pair path key v, ·)
    | none => none

def statementsRest : Nat → List Statement → List Char → Option (List Statement)
  | 0, _, _ => none
  | bound + 1, read, cs =>
    match skipLines false cs with
    | [] => some read.reverse
    | cs =>
      match statement cs with
      | some (s, rest) => statementsRest bound (s :: read) rest
      | none => none

def statements (cs : List Char) : Option (List Statement) :=
  let cs := match cs with
    | '\ufeff' :: rest => rest
    | cs => cs
  statementsRest (cs.length + 1) [] cs

/-! ### Carrying statements out -/

structure Building where
  root : Members
  place : List String

def Building.add (b : Building) : Statement → Option Building
  | .pair path key value =>
    let add := Members.addPair path key value
    (Members.change false add b.place .header b.root).map fun root => { b with root }
  | .header path key => (Members.openTable path key b.root).map fun root => ⟨root, path ++ [key]⟩
  | .repeated path key => (Members.openRow path key b.root).map fun root => ⟨root, path ++ [key]⟩

def read (text : String) : Option Members := do
  let statements ← statements text.toList
  let built ← statements.foldlM Building.add ⟨[], []⟩
  pure built.root

end ScreenPreview.Toml
