import ScreenPreview.Json.Number

/-! Reading JSON text, by the grammar of RFC 8259 and nothing beside it. -/
namespace ScreenPreview.Json

def isSpace (c : Char) : Bool := c == ' ' || c == '\t' || c == '\n' || c == '\r'

def skip (cs : List Char) : List Char := cs.dropWhile isSpace

def literal (word : List Char) (value : Json) (cs : List Char) : Option (Json × List Char) :=
  if cs.take word.length = word then some (value, cs.drop word.length) else none

def hexDigit? (c : Char) : Option Nat :=
  if c.isDigit then some (c.toNat - 48)
  else if 'a' ≤ c ∧ c ≤ 'f' then some (c.toNat - 87)
  else if 'A' ≤ c ∧ c ≤ 'F' then some (c.toNat - 55)
  else none

def hex4? (a b c d : Char) : Option Nat := do
  let a ← hexDigit? a
  let b ← hexDigit? b
  let c ← hexDigit? c
  let d ← hexDigit? d
  pure (((a * 16 + b) * 16 + c) * 16 + d)

def unescape? : Char → Option Char
  | '\x22' => some '\x22'
  | '\x5c' => some '\x5c'
  | '/' => some '/'
  | 'b' => some '\x08'
  | 'f' => some '\x0c'
  | 'n' => some '\n'
  | 'r' => some '\r'
  | 't' => some '\t'
  | _ => none

inductive Unit16 where
  | char (c : Char)
  | highSurrogate (n : Nat)
  | lowSurrogate (n : Nat)

def unit16? (a b c d : Char) : Option Unit16 :=
  (hex4? a b c d).map fun n =>
    if 0xD800 ≤ n ∧ n ≤ 0xDBFF then .highSurrogate n
    else if 0xDC00 ≤ n ∧ n ≤ 0xDFFF then .lowSurrogate n
    else .char (Char.ofNat n)

def pairOf (high low : Nat) : Char := Char.ofNat (0x10000 + (high - 0xD800) * 1024 + (low - 0xDC00))

def stringRest (read : List Char) : List Char → Option (String × List Char)
  | [] => none
  | '\x22' :: rest => some (String.ofList read.reverse, rest)
  | '\x5c' :: 'u' :: a :: b :: c :: d :: rest =>
    match unit16? a b c d with
    | some (.char x) => stringRest (x :: read) rest
    | some (.highSurrogate high) =>
      match rest with
      | '\x5c' :: 'u' :: a :: b :: c :: d :: rest =>
        match unit16? a b c d with
        | some (.lowSurrogate low) => stringRest (pairOf high low :: read) rest
        | _ => none
      | _ => none
    | _ => none
  | '\x5c' :: c :: rest =>
    match unescape? c with
    | some x => stringRest (x :: read) rest
    | none => none
  | c :: rest => if c < ' ' then none else stringRest (c :: read) rest

/-- The items of a list after its opening bracket or a comma, behind those read so far in reverse.
The bound is on the number of items still to come. -/
def items (item : List Char → Option (Json × List Char)) :
    Nat → List Json → List Char → Option (List Json × List Char)
  | 0, _, _ => none
  | bound + 1, read, cs =>
    match item cs with
    | none => none
    | some (x, rest) =>
      match skip rest with
      | ',' :: rest => items item bound (x :: read) rest
      | ']' :: rest => some ((x :: read).reverse, rest)
      | _ => none

def members (item : List Char → Option (Json × List Char)) :
    Nat → List (String × Json) → List Char → Option (List (String × Json) × List Char)
  | 0, _, _ => none
  | bound + 1, read, cs =>
    match skip cs with
    | '\x22' :: rest =>
      match stringRest [] rest with
      | none => none
      | some (key, rest) =>
        match skip rest with
        | ':' :: rest =>
          match item rest with
          | none => none
          | some (x, rest) =>
            match skip rest with
            | ',' :: rest => members item bound ((key, x) :: read) rest
            | '\x7d' :: rest => some (((key, x) :: read).reverse, rest)
            | _ => none
        | _ => none
    | _ => none

def scalar (cs : List Char) : Option (Json × List Char) :=
  match cs with
  | 'n' :: _ => literal ['n', 'u', 'l', 'l'] .null cs
  | 't' :: _ => literal ['t', 'r', 'u', 'e'] (.bool true) cs
  | 'f' :: _ => literal ['f', 'a', 'l', 's', 'e'] (.bool false) cs
  | '\x22' :: rest => (stringRest [] rest).map fun (s, rest) => (.text s, rest)
  | _ => number cs

def value : Nat → List Char → Option (Json × List Char)
  | 0, cs => scalar (skip cs)
  | depth + 1, cs =>
    match skip cs with
    | '[' :: rest =>
      match skip rest with
      | ']' :: rest => some (.list [], rest)
      | _ => (items (value depth) rest.length [] rest).map fun (xs, rest) => (.list xs, rest)
    | '\x7b' :: rest =>
      match skip rest with
      | '\x7d' :: rest => some (.object [], rest)
      | _ => (members (value depth) rest.length [] rest).map fun (ms, rest) => (.record ms, rest)
    | rest => scalar rest

def depthLimit : Nat := 127

def readWithin (depth : Nat) (s : String) : Option Json :=
  match value depth s.toList with
  | some (j, rest) => if (skip rest).isEmpty then some j else none
  | none => none

def read (s : String) : Option Json := readWithin depthLimit s

end ScreenPreview.Json
