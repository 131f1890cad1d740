import ScreenPreview.Toml.Value

/-!
Numbers, dates and times of day of TOML text. A fraction too large for a double is refused, unless
it is negative.
-/
namespace ScreenPreview.Toml

def digitsRest (isDigit : Char → Bool) (read : List Char) :
    List Char → Option (List Char × List Char)
  | '_' :: c :: rest => if isDigit c then digitsRest isDigit (c :: read) rest else none
  | c :: rest =>
    if isDigit c then digitsRest isDigit (c :: read) rest
    else if c = '_' then none
    else some (read.reverse, c :: rest)
  | [] => some (read.reverse, [])

def digits (isDigit : Char → Bool) : List Char → Option (List Char × List Char)
  | c :: rest => if isDigit c then digitsRest isDigit [c] rest else none
  | [] => none

def digitValue (c : Char) : Nat :=
  if c.isDigit then c.toNat - 48
  else if 'a' ≤ c then c.toNat - 87
  else c.toNat - 55

def valueIn (base : Nat) (cs : List Char) : Nat :=
  cs.foldl (fun n c => base * n + digitValue c) 0

def isHex (c : Char) : Bool := c.isDigit || ('a' ≤ c && c ≤ 'f') || ('A' ≤ c && c ≤ 'F')

def isOctal (c : Char) : Bool := '0' ≤ c && c ≤ '7'

def isBinary (c : Char) : Bool := c == '0' || c == '1'

def int64? (n : Int) : Option Value :=
  if -0x8000000000000000 ≤ n ∧ n < 0x8000000000000000 then some (.int n) else none

def based (base : Nat) (isDigit : Char → Bool) (cs : List Char) : Option (Value × List Char) := do
  let (ds, rest) ← digits isDigit cs
  let value ← int64? (valueIn base ds)
  pure (value, rest)

def wholeDigits : List Char → Option (List Char × List Char)
  | '0' :: rest => some (['0'], rest)
  | cs => digits Char.isDigit cs

def exponent : List Char → Option (Int × List Char)
  | c :: rest =>
    if c = 'e' ∨ c = 'E' then
      let (sign, rest) : Int × List Char := match rest with
        | '+' :: rest => (1, rest)
        | '-' :: rest => (-1, rest)
        | rest => (1, rest)
      (digits Char.isDigit rest).map fun (ds, rest) => (sign * valueIn 10 ds, rest)
    else some (0, c :: rest)
  | [] => some (0, [])

def real? (negative : Bool) (ds : List Char) (power : Int) : Option Value :=
  let size := Decimal.ofScaled (valueIn 10 ds) power
  if negative then some (.real (-size)) else if size.isInf then none else some (.real size)

def afterSign (negative : Bool) (cs : List Char) : Option (Value × List Char) :=
  match cs with
  | 'i' :: 'n' :: 'f' :: rest => some (.real (if negative then -1 / 0 else 1 / 0), rest)
  | 'n' :: 'a' :: 'n' :: rest => some (.real (0 / 0), rest)
  | _ => do
    let (whole, rest) ← wholeDigits cs
    match rest with
    | '.' :: rest =>
      let (places, rest) ← digits Char.isDigit rest
      let (power, rest) ← exponent rest
      let value ← real? negative (whole ++ places) (power - places.length)
      pure (value, rest)
    | rest =>
      if rest.head? = some 'e' ∨ rest.head? = some 'E' then
        let (power, rest) ← exponent rest
        let value ← real? negative whole power
        pure (value, rest)
      else
        let n : Int := valueIn 10 whole
        let value ← int64? (if negative then -n else n)
        pure (value, rest)

def number : List Char → Option (Value × List Char)
  | '0' :: 'x' :: rest => based 16 isHex rest
  | '0' :: 'o' :: rest => based 8 isOctal rest
  | '0' :: 'b' :: rest => based 2 isBinary rest
  | '+' :: rest => afterSign false rest
  | '-' :: rest => afterSign true rest
  | cs => afterSign false cs

/-! ### Dates and times -/

def twoDigits (bound : Nat) : List Char → Option (Nat × List Char)
  | a :: b :: rest =>
    if a.isDigit ∧ b.isDigit ∧ valueIn 10 [a, b] ≤ bound then some (valueIn 10 [a, b], rest)
    else none
  | _ => none

def isLeap (year : Nat) : Bool := year % 4 == 0 && (year % 100 != 0 || year % 400 == 0)

def daysIn (year month : Nat) : Nat :=
  if month = 2 then if isLeap year then 29 else 28
  else if month ∈ [4, 6, 9, 11] then 30
  else 31

def date : List Char → Option (List Char)
  | a :: b :: c :: d :: '-' :: rest =>
    if [a, b, c, d].all Char.isDigit then
      match twoDigits 12 rest with
      | some (month, '-' :: rest) =>
        match twoDigits 31 rest with
        | some (day, rest) =>
          if 1 ≤ month ∧ 1 ≤ day ∧ day ≤ daysIn (valueIn 10 [a, b, c, d]) month then some rest
          else none
        | none => none
      | _ => none
    else none
  | _ => none

def timeOfDay (cs : List Char) : Option (List Char) :=
  match twoDigits 23 cs with
  | some (_, ':' :: rest) =>
    match twoDigits 59 rest with
    | some (_, ':' :: rest) =>
      match twoDigits 60 rest with
      | some (_, '.' :: c :: rest) =>
        if c.isDigit then some (rest.dropWhile Char.isDigit) else some ('.' :: c :: rest)
      | some (_, rest) => some rest
      | none => none
    | _ => none
  | _ => none

def offset (cs : List Char) : List Char :=
  match cs with
  | 'Z' :: rest => rest
  | 'z' :: rest => rest
  | c :: rest =>
    if c = '+' ∨ c = '-' then
      match twoDigits 23 rest with
      | some (_, ':' :: rest) =>
        match twoDigits 59 rest with
        | some (_, rest) => rest
        | none => cs
      | _ => cs
    else cs
  | [] => []

def moment (cs : List Char) : Option (Value × List Char) :=
  match date cs with
  | some rest =>
    match rest with
    | c :: time =>
      if c = 'T' ∨ c = 't' ∨ c = ' ' then
        match timeOfDay time with
        | some rest => some (.moment, offset rest)
        | none => some (.moment, rest)
      else some (.moment, rest)
    | [] => some (.moment, [])
  | none => (timeOfDay cs).map (.moment, ·)

end ScreenPreview.Toml
