import ScreenPreview.Decimal.Shortest
import ScreenPreview.Json.Basic

/-! JSON text, written without blanks. -/
namespace ScreenPreview.Json

def escapeControl (n : Nat) : List Char :=
  ['\x5c', 'u', '0', '0', Nat.digitChar (n / 16), Nat.digitChar (n % 16)]

def escape (c : Char) : List Char :=
  if c = '\x22' then ['\x5c', '\x22']
  else if c = '\x5c' then ['\x5c', '\x5c']
  else if ' ' ≤ c then [c]
  else
    match c.toNat with
    | 8 => ['\x5c', 'b']
    | 9 => ['\x5c', 't']
    | 10 => ['\x5c', 'n']
    | 12 => ['\x5c', 'f']
    | 13 => ['\x5c', 'r']
    | n => escapeControl n

def quoted (s : String) : List Char := '\x22' :: s.toList.flatMap escape ++ ['\x22']

/-- A positive decimal: with a point and at least one decimal place if it lies between `10 ^ -5`
and `10 ^ 16`, else one digit before the point and a signed exponent. -/
def decimalChars (s : Decimal.Scaled) : List Char :=
  let digits := Nat.toDigits 10 s.digits
  let power := s.exponent + digits.length - 1
  if power < -5 ∨ 16 ≤ power then
    let lead := digits.take 1
    let rest := digits.drop 1
    let places := if rest.isEmpty then [] else '.' :: rest
    let sign := if power < 0 then '-' else '+'
    lead ++ places ++ 'e' :: sign :: Nat.toDigits 10 power.natAbs
  else if power < 0 then
    '0' :: '.' :: List.replicate (-power - 1).toNat '0' ++ digits
  else if 0 ≤ s.exponent then
    digits ++ List.replicate s.exponent.toNat '0' ++ ['.', '0']
  else
    digits.take (power.toNat + 1) ++ '.' :: digits.drop (power.toNat + 1)

def realChars (x : Float) : List Char :=
  let size := Decimal.Dyadic.ofBits x.toBits
  let digits := if size.mantissa = 0 then ['0', '.', '0'] else decimalChars (Decimal.shortest size)
  if Decimal.isNegative x then '-' :: digits else digits

def intChars (n : Int) : List Char :=
  if n < 0 then '-' :: Nat.toDigits 10 n.natAbs else Nat.toDigits 10 n.natAbs

mutual

def chars : Json → List Char
  | null => ['n', 'u', 'l', 'l']
  | bool true => ['t', 'r', 'u', 'e']
  | bool false => ['f', 'a', 'l', 's', 'e']
  | int n => intChars n
  | real x => realChars x
  | text s => quoted s
  | list items => '[' :: itemChars items ++ [']']
  | object members => '\x7b' :: memberChars members ++ ['\x7d']

def itemChars : List Json → List Char
  | [] => []
  | [item] => item.chars
  | item :: rest => item.chars ++ ',' :: itemChars rest

def memberChars : List (String × Json) → List Char
  | [] => []
  | [m] => pairChars m
  | m :: rest => pairChars m ++ ',' :: memberChars rest

def pairChars : String × Json → List Char
  | (key, value) => quoted key ++ ':' :: value.chars

end

def render (j : Json) : String := String.ofList j.chars

end ScreenPreview.Json
