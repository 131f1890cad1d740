import ScreenPreview.Decimal.Binary64
import ScreenPreview.Json.Basic

/-!
Reading the numbers of JSON text. Digits that no longer fit a word of 64 bits are left out, and each
of them before the point raises the power of ten. A number beyond the range of doubles is none.
-/
namespace ScreenPreview.Json

structure Gathered where
  value : Nat
  taken : Nat

def gather (g : Gathered) : List Char → Gathered × List Char
  | [] => (g, [])
  | c :: rest =>
    let next := 10 * g.value + (c.toNat - 48)
    if c.isDigit && next < 0x10000000000000000 then gather ⟨next, g.taken + 1⟩ rest
    else (g, c :: rest)

def raise (digits power : Nat) : Option Float :=
  if power ≤ 308 then
    let product := Decimal.ofNat digits * Decimal.ofNat (Decimal.tenTo power)
    if product.isInf then none else some product
  else if digits = 0 then some (Decimal.ofNat 0)
  else none

/-- Divide by a power of ten, by `10 ^ 308` at a time as long as there is more than that, and
something left to divide. -/
def lower (x : Float) (power : Nat) : Float :=
  if power ≤ 308 then x / Decimal.ofNat (Decimal.tenTo power)
  else if x == 0 then x
  else lower (x / Decimal.ofNat (Decimal.tenTo 308)) (power - 308)
termination_by power

def realOf (negative : Bool) (digits : Nat) (power : Int) : Option Json :=
  let value := if power < 0 then some (lower (Decimal.ofNat digits) power.natAbs)
    else raise digits power.natAbs
  value.map fun x => real (if negative then -x else x)

def exponentDigits (cs : List Char) : Option (Nat × List Char) :=
  match cs with
  | c :: _ =>
    if c.isDigit then
      let digits := cs.takeWhile Char.isDigit
      some (digits.foldl (fun n d => 10 * n + (d.toNat - 48)) 0, cs.dropWhile Char.isDigit)
    else none
  | [] => none

def exponentPart (negative : Bool) (digits : Nat) (power : Int) (cs : List Char) :
    Option (Json × List Char) :=
  let signed (sign : Int) (rest : List Char) :=
    (exponentDigits rest).bind fun (n, rest) =>
      (realOf negative digits (power + sign * n)).map (·, rest)
  let after (rest : List Char) :=
    match rest with
    | '+' :: rest => signed 1 rest
    | '-' :: rest => signed (-1) rest
    | rest => signed 1 rest
  match cs with
  | 'e' :: rest => after rest
  | 'E' :: rest => after rest
  | rest => (realOf negative digits power).map (·, rest)

def fractionPart (negative : Bool) (digits : Nat) (power : Int) (cs : List Char) :
    Option (Json × List Char) :=
  let (g, rest) := gather ⟨digits, 0⟩ cs
  match cs with
  | c :: _ =>
    if c.isDigit then
      exponentPart negative g.value (power - g.taken) (rest.dropWhile Char.isDigit)
    else none
  | [] => none

def wholeOf (negative : Bool) (n : Nat) : Json :=
  if !negative then int n
  else if n = 0 ∨ 0x8000000000000000 < n then real (-Decimal.ofNat n)
  else int (-n)

def unsigned (negative : Bool) (cs : List Char) : Option (Json × List Char) :=
  match cs with
  | [] => none
  | c :: rest =>
    if !c.isDigit then none
    else if c = '0' && (rest.head?.any Char.isDigit) then none
    else
      let (g, rest) := gather ⟨0, 0⟩ cs
      let beyond := rest.takeWhile Char.isDigit
      match rest.dropWhile Char.isDigit with
      | '.' :: rest => fractionPart negative g.value beyond.length rest
      | rest =>
        if beyond.isEmpty && !(rest.head? == some 'e' || rest.head? == some 'E') then
          some (wholeOf negative g.value, rest)
        else exponentPart negative g.value beyond.length rest

def number : List Char → Option (Json × List Char)
  | '-' :: rest => unsigned true rest
  | cs => unsigned false cs

end ScreenPreview.Json
