import Mathlib.Data.Nat.Find
import Mathlib.Logic.Function.Iterate
import ScreenPreview.Decimal.Binary64
import ScreenPreview.Json.Basic

/-!
The grammar of JSON text.

It is stated by itself here, as the texts that spell a tree, with the blanks, escapes and digits of
RFC 8259. Escaped surrogates stand in pairs; a single one is in no text. A tree need not have a
value: it may nest deeper than a bound, or hold a number for which there is no double. The double of
a number comes from a significand of 64 bits and a power of ten, in the arithmetic of doubles, so
not all that doubles could hold has a value: `17976931348623157000e289` has none, although
`1.7976931348623157e308` is a double.
-/
namespace ScreenPreview.Json

/-! ### Numbers -/

def Digits (ds : List Char) : Prop := ds ≠ [] ∧ ∀ c ∈ ds, c.isDigit = true

structure Exponent where
  letter : Char
  sign : Option Char
  digits : List Char

namespace Exponent

structure WellFormed (e : Exponent) : Prop where
  letter : e.letter = 'e' ∨ e.letter = 'E'
  sign : ∀ c ∈ e.sign, c = '+' ∨ c = '-'
  digits : Digits e.digits

def chars (e : Exponent) : List Char := e.letter :: (e.sign.toList ++ e.digits)

def power (e : Exponent) : Int :=
  (if e.sign = some '-' then -1 else 1) * Nat.ofDigitChars 10 e.digits 0

end Exponent

structure Numeral where
  negative : Bool
  whole : List Char
  fraction : Option (List Char)
  exponent : Option Exponent

namespace Numeral

structure WellFormed (n : Numeral) : Prop where
  whole : Digits n.whole
  leading : n.whole.head? = some '0' → n.whole = ['0']
  fraction : ∀ ds ∈ n.fraction, Digits ds
  exponent : ∀ e ∈ n.exponent, e.WellFormed

def fractionChars (fraction : Option (List Char)) : List Char := fraction.elim [] ('.' :: ·)

def exponentChars (exponent : Option Exponent) : List Char := exponent.elim [] Exponent.chars

def chars (n : Numeral) : List Char :=
  (if n.negative then ['-'] else []) ++
    (n.whole ++ (fractionChars n.fraction ++ exponentChars n.exponent))

/-- How many digits of a run fit behind a number: so many that all together spell one below
`2 ^ 64`. -/
def fitting (front : Nat) (ds : List Char) : Nat :=
  Nat.findGreatest (fun k => Nat.ofDigitChars 10 (ds.take k) front < 0x10000000000000000) ds.length

def wholeFitting (n : Numeral) : Nat := fitting 0 n.whole

def front (n : Numeral) : Nat := Nat.ofDigitChars 10 (n.whole.take n.wholeFitting) 0

def fractionDigits (n : Numeral) : List Char := n.fraction.getD []

def fractionFitting (n : Numeral) : Nat := fitting n.front n.fractionDigits

/-- The number that the digits spell, as far as they fit. A digit behind the point can fit where one
before it did not. -/
def significand (n : Numeral) : Nat :=
  Nat.ofDigitChars 10 (n.fractionDigits.take n.fractionFitting) n.front

def power (n : Numeral) : Int :=
  (n.whole.length - n.wholeFitting : Nat) - (n.fractionFitting : Int) +
    n.exponent.elim 0 Exponent.power

def IsWord (n : Numeral) : Prop :=
  n.fraction = none ∧ n.exponent = none ∧ Nat.ofDigitChars 10 n.whole 0 < 0x10000000000000000

instance (n : Numeral) : Decidable n.IsWord := inferInstanceAs (Decidable (_ ∧ _))

/-- A whole number is an integer if it is one of 64 bits. Minus zero is none. -/
def word (negative : Bool) (n : Nat) : Json :=
  match negative with
  | false => .int n
  | true => if 0 < n ∧ n ≤ 0x8000000000000000 then .int (-n) else .real (-Decimal.ofNat n)

def tenthPower (power : Nat) : Float := Decimal.ofNat (Decimal.tenTo power)

/-- A double divided by a power of ten: by `10 ^ 308` as often as more is left, and by what is left
then. -/
def quotient (x : Float) (power : Nat) : Float :=
  let often := (power - 1) / 308
  (· / tenthPower 308)^[often] x / tenthPower (power - 308 * often)

/-- The double for a significand and a power of ten. There is none if the product of the two doubles
is infinite, and none for a power beyond the greatest unless the significand is zero. -/
def double? (significand : Nat) (power : Int) : Option Float :=
  let x := Decimal.ofNat significand
  if power < 0 then some (quotient x power.natAbs)
  else if 308 < power then if significand = 0 then some x else none
  else
    let product := x * tenthPower power.natAbs
    if product.isInf then none else some product

def value? (n : Numeral) : Option Json :=
  if n.IsWord then some (word n.negative (Nat.ofDigitChars 10 n.whole 0))
  else (double? n.significand n.power).map fun x => .real (if n.negative then -x else x)

end Numeral

/-! ### Strings -/

def letterEscapes : List (Char × Char) :=
  [('\x22', '\x22'), ('\x5c', '\x5c'), ('/', '/'), ('b', '\x08'), ('f', '\x0c'), ('n', '\x0a'),
    ('r', '\x0d'), ('t', '\x09')]

/-- A hexadecimal digit in either case, by its place among them. -/
def HexDigit (c : Char) (k : Nat) : Prop :=
  "0123456789abcdef".toList[k]? = some c ∨ "0123456789ABCDEF".toList[k]? = some c

inductive Hex : List Char → Nat → Prop
  | four {a b c d : Char} {i j k l : Nat} (first : HexDigit a i) (second : HexDigit b j)
    (third : HexDigit c k) (fourth : HexDigit d l) :
    Hex [a, b, c, d] (0x1000 * i + 0x100 * j + 0x10 * k + l)

/-- The characters that stand between quotes, and those they stand for. A character is escaped by
the number it has, and one of more than 16 bits by the two surrogates of its UTF-16 form. -/
inductive Quotes : List Char → List Char → Prop
  | nil : Quotes [] []
  | plain {c : Char} {body cs : List Char} (no_quote : c ≠ '\x22') (no_backslash : c ≠ '\x5c')
    (printed : ' ' ≤ c) (quotes : Quotes body cs) : Quotes (c :: body) (c :: cs)
  | escape {letter c : Char} {body cs : List Char} (stands : (letter, c) ∈ letterEscapes)
    (quotes : Quotes body cs) : Quotes ('\x5c' :: letter :: body) (c :: cs)
  | unit {digits : List Char} {x : Char} {body cs : List Char} (stands : Hex digits x.toNat)
    (quotes : Quotes body cs) : Quotes ('\x5c' :: 'u' :: (digits ++ body)) (x :: cs)
  | pair {high low : List Char} {x : Char} {body cs : List Char} (beyond : 0x10000 ≤ x.toNat)
    (first : Hex high (0xD800 + (x.toNat - 0x10000) / 0x400))
    (second : Hex low (0xDC00 + (x.toNat - 0x10000) % 0x400)) (quotes : Quotes body cs) :
    Quotes ('\x5c' :: 'u' :: (high ++ '\x5c' :: 'u' :: (low ++ body))) (x :: cs)

/-! ### Values -/

inductive Tree where
  | null
  | bool (b : Bool)
  | number (n : Numeral)
  | text (s : String)
  | list (items : List Tree)
  | object (members : List (String × Tree))

def Tree.value? : Nat → Tree → Option Json
  | _, .null => some .null
  | _, .bool b => some (.bool b)
  | _, .number n => n.value?
  | _, .text s => some (.text s)
  | 0, .list _ => none
  | 0, .object _ => none
  | depth + 1, .list items => (items.mapM (value? depth)).map .list
  | depth + 1, .object members =>
    (members.mapM fun m => (value? depth m.2).map (m.1, ·)).map .record

def Blank (cs : List Char) : Prop := ∀ c ∈ cs, c = ' ' ∨ c = '\t' ∨ c = '\n' ∨ c = '\r'

structure Member where
  front : List Char
  body : List Char
  gap : List Char
  spelled : List Char
  key : List Char
  value : Tree

namespace Member

structure WellFormed (m : Member) : Prop where
  front : Blank m.front
  gap : Blank m.gap
  key : Quotes m.body m.key

def chars (m : Member) : List Char :=
  m.front ++ '\x22' :: (m.body ++ '\x22' :: (m.gap ++ ':' :: m.spelled))

def entry (m : Member) : String × Tree := (String.ofList m.key, m.value)

end Member

def joined : List (List Char) → List Char
  | [] => []
  | [part] => part
  | part :: parts => part ++ ',' :: joined parts

inductive Spells : List Char → Tree → Prop
  | null : Spells ['n', 'u', 'l', 'l'] .null
  | true : Spells ['t', 'r', 'u', 'e'] (.bool true)
  | false : Spells ['f', 'a', 'l', 's', 'e'] (.bool false)
  | number {n : Numeral} (wellFormed : n.WellFormed) : Spells n.chars (.number n)
  | text {body cs : List Char} (quotes : Quotes body cs) :
    Spells ('\x22' :: (body ++ ['\x22'])) (.text (String.ofList cs))
  | emptyList {blank : List Char} (blanks : Blank blank) :
    Spells ('[' :: (blank ++ [']'])) (.list [])
  | list {parts : List (List Char × Tree)} (some_part : parts ≠ [])
    (each : ∀ p ∈ parts, Spells p.1 p.2) :
    Spells ('[' :: (joined (parts.map Prod.fst) ++ [']'])) (.list (parts.map Prod.snd))
  | emptyObject {blank : List Char} (blanks : Blank blank) :
    Spells ('\x7b' :: (blank ++ ['\x7d'])) (.object [])
  | object {parts : List Member} (some_part : parts ≠ []) (wellFormed : ∀ m ∈ parts, m.WellFormed)
    (each : ∀ m ∈ parts, Spells m.spelled m.value) :
    Spells ('\x7b' :: (joined (parts.map Member.chars) ++ ['\x7d']))
      (.object (parts.map Member.entry))
  | padded {front cs back : List Char} {t : Tree} (before : Blank front) (behind : Blank back)
    (spells : Spells cs t) : Spells (front ++ (cs ++ back)) t

end ScreenPreview.Json
