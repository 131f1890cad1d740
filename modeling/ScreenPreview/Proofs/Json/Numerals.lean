import Mathlib.Data.List.TakeWhile
import ScreenPreview.Proofs.Decimal.Zeros
import ScreenPreview.Proofs.Json.Grammar
import ScreenPreview.Proofs.Json.Scalars
import ScreenPreview.Proofs.Json.Sizes

/-!
The numbers of JSON text are read.

The reader takes a numeral off the start of a text exactly where one is spelled there and nothing
behind goes on with it, with the value of the numeral (`number_sound`, `number_eq`). Each part of
the reader takes a run of digits and leaves what stops it. What the reader has gathered of a run are
the digits that fit, and its double is that of the significand (`value?_eq`).
-/
namespace ScreenPreview.Json

/-! ### The value of a numeral -/

section Fitting

variable {front : Nat} {ds : List Char}

theorem fitting_le (front : Nat) (ds : List Char) : Numeral.fitting front ds ≤ ds.length :=
  Nat.findGreatest_le _

theorem fitting_cons (front : Nat) (c : Char) (ds : List Char) :
    Numeral.fitting front (c :: ds) =
      if 10 * front + (c.toNat - 48) < 0x10000000000000000 then
        Numeral.fitting (10 * front + (c.toNat - 48)) ds + 1
      else 0 := by
  have next (k : Nat) : Nat.ofDigitChars 10 ((c :: ds).take (k + 1)) front =
      Nat.ofDigitChars 10 (ds.take k) (10 * front + (c.toNat - 48)) := Nat.ofDigitChars_cons ..
  let Fit (k : Nat) : Prop :=
    Nat.ofDigitChars 10 (ds.take k) (10 * front + (c.toNat - 48)) < 0x10000000000000000
  split
  · next fits =>
    refine Nat.findGreatest_eq_iff.mpr ⟨Nat.succ_le_succ (fitting_le _ ds), fun _ => ?_, ?_⟩
    · rw [next]
      exact Nat.findGreatest_spec (P := Fit) (Nat.zero_le _) fits
    · intro k more within
      obtain ⟨k, rfl⟩ := Nat.exists_eq_add_one.mpr (Nat.zero_lt_of_lt more)
      rw [next]
      exact Nat.findGreatest_is_greatest (P := Fit) (Nat.lt_of_succ_lt_succ more)
        (Nat.le_of_succ_le_succ within)
  · next large =>
    refine Nat.findGreatest_eq_zero_iff.mpr fun k some_digit _ => ?_
    obtain ⟨k, rfl⟩ := Nat.exists_eq_add_one.mpr some_digit
    rw [next]
    have grown := le_ofDigitChars (ds.take k) (10 * front + (c.toNat - 48))
    omega

theorem gather_eq (all : ∀ c ∈ ds, c.isDigit = true) (front taken : Nat) :
    gather ⟨front, taken⟩ ds =
      (⟨Nat.ofDigitChars 10 (ds.take (Numeral.fitting front ds)) front,
        taken + Numeral.fitting front ds⟩, ds.drop (Numeral.fitting front ds)) := by
  induction ds generalizing front taken with
  | nil => rfl
  | cons c ds ih =>
    obtain ⟨digit, others⟩ := List.forall_mem_cons.mp all
    rw [gather, fitting_cons]
    by_cases fits : 10 * front + (c.toNat - 48) < 0x10000000000000000
    · have number : Nat.ofDigitChars 10
          ((c :: ds).take (Numeral.fitting (10 * front + (c.toNat - 48)) ds + 1)) front =
          Nat.ofDigitChars 10 (ds.take (Numeral.fitting (10 * front + (c.toNat - 48)) ds))
            (10 * front + (c.toNat - 48)) := Nat.ofDigitChars_cons ..
      simp only [digit, fits, decide_true, Bool.and_self, if_true, number, List.drop_succ_cons]
      rw [ih others, Nat.add_assoc, Nat.add_comm 1]
    · simp [digit, fits]

theorem fitting_eq_length_iff :
    Numeral.fitting front ds = ds.length ↔
      ds = [] ∨ Nat.ofDigitChars 10 ds front < 0x10000000000000000 := by
  rw [Numeral.fitting, Nat.findGreatest_eq_iff]
  simp only [List.take_length, List.length_eq_zero_iff, ne_eq]
  constructor
  · rintro ⟨-, fits, -⟩
    exact or_iff_not_imp_left.mpr fits
  · intro fits
    exact ⟨Nat.le_refl _, or_iff_not_imp_left.mp fits, fun n more within => by omega⟩

end Fitting

theorem quotient_of_zero {x : Float} (zero : (x == 0) = true) {power : Nat} :
    Numeral.quotient x power = x := by
  have divided {n : Nat} (small : n < 309) : x / Numeral.tenthPower n = x :=
    Decimal.zero_div zero (Decimal.isAbove_tenTo ⟨n, small⟩)
  have often (k : Nat) : (· / Numeral.tenthPower 308)^[k] x = x :=
    Function.iterate_fixed (divided (by decide)) k
  rw [Numeral.quotient, often]
  exact divided (by omega)

theorem lower_eq (x : Float) (power : Nat) : lower x power = Numeral.quotient x power := by
  fun_induction lower x power with
  | case1 x power small =>
    have none_more : (power - 1) / 308 = 0 := by omega
    simp [Numeral.quotient, none_more, Numeral.tenthPower]
  | case2 x power large zero => exact (quotient_of_zero zero).symm
  | case3 x power large some_left ih =>
    have more : (power - 1) / 308 = (power - 308 - 1) / 308 + 1 := by omega
    have rest : power - 308 - 308 * ((power - 308 - 1) / 308) =
        power - 308 * ((power - 308 - 1) / 308 + 1) := by omega
    rw [ih, Numeral.quotient, Numeral.quotient, more, rest]
    rfl

theorem realOf_eq (negative : Bool) (digits : Nat) (power : Int) :
    realOf negative digits power =
      (Numeral.double? digits power).map fun x => .real (if negative then -x else x) := by
  refine congrArg (Option.map _) ?_
  rw [Numeral.double?, lower_eq]
  by_cases below : power < 0
  · rw [if_pos below, if_pos below]
  · rw [if_neg below, if_neg below, raise]
    by_cases small : power.natAbs ≤ 308
    · have within : ¬ 308 < power := by omega
      rw [if_pos small, if_neg within]
      rfl
    · have beyond : 308 < power := by omega
      rw [if_neg small, if_pos beyond]
      by_cases zero : digits = 0
      · rw [if_pos zero, if_pos zero, zero]
      · rw [if_neg zero, if_neg zero]

theorem wholeOf_eq (negative : Bool) (n : Nat) : wholeOf negative n = Numeral.word negative n := by
  cases negative with
  | false => rfl
  | true =>
    by_cases within : 0 < n ∧ n ≤ 0x8000000000000000
    · have inside : ¬ (n = 0 ∨ 0x8000000000000000 < n) := by omega
      simp [wholeOf, Numeral.word, within, inside]
    · have outside : n = 0 ∨ 0x8000000000000000 < n := by omega
      simp [wholeOf, Numeral.word, within, outside]

namespace Numeral

def gathered? (n : Numeral) : Option Json :=
  let (g, beyond) := gather ⟨0, 0⟩ n.whole
  if n.fraction = none ∧ n.exponent = none ∧ beyond = [] then some (wholeOf n.negative g.value)
  else
    let f := (gather ⟨g.value, 0⟩ n.fractionDigits).1
    realOf n.negative f.value
      (beyond.length - f.taken + (n.exponent.elim 0 Exponent.power))

theorem value?_eq {n : Numeral} (wellFormed : n.WellFormed) : n.value? = n.gathered? := by
  have behind : ∀ c ∈ n.fractionDigits, c.isDigit = true := by
    rw [fractionDigits]
    cases same : n.fraction with
    | none => simp
    | some ds => exact (wellFormed.fraction ds same).2
  have all : n.whole.drop n.wholeFitting = [] ↔
      Nat.ofDigitChars 10 n.whole 0 < 0x10000000000000000 := by
    have within := fitting_le 0 n.whole
    have counted := @fitting_eq_length_iff 0 n.whole
    rw [or_iff_right wellFormed.whole.1] at counted
    rw [List.drop_eq_nil_iff, ← counted, wholeFitting]
    exact ⟨Nat.le_antisymm within, Eq.ge⟩
  rw [value?, gathered?, gather_eq wellFormed.whole.2]
  dsimp only
  have isWord : n.IsWord ↔ n.fraction = none ∧ n.exponent = none ∧
      n.whole.drop (fitting 0 n.whole) = [] := by
    rw [IsWord, ← all]
    rfl
  by_cases word : n.IsWord
  · have taken : n.whole.take (fitting 0 n.whole) = n.whole := by
      rw [List.take_eq_self_iff, ← List.drop_eq_nil_iff]
      exact (isWord.mp word).2.2
    rw [if_pos word, if_pos (isWord.mp word), wholeOf_eq, taken]
  · rw [if_neg word, if_neg (mt isWord.mpr word), realOf_eq]
    have gathered : gather ⟨Nat.ofDigitChars 10 (n.whole.take (fitting 0 n.whole)) 0, 0⟩
        n.fractionDigits = _ := gather_eq behind n.front 0
    rw [gathered, List.length_drop, Nat.zero_add]
    rfl

end Numeral

/-! ### Runs of digits -/

def Ends (rest : List Char) : Prop :=
  ∀ c ∈ rest.head?, c.isDigit = false ∧ c ≠ '.' ∧ c ≠ 'e' ∧ c ≠ 'E'

def Stops (rest : List Char) : Prop := ∀ c ∈ rest.head?, c.isDigit = false

theorem Ends.stops {rest : List Char} (ends : Ends rest) : Stops rest :=
  fun c first => (ends c first).1

theorem stops_cons {c : Char} (no_digit : c.isDigit = false) (rest : List Char) :
    Stops (c :: rest) := by
  rintro d ⟨⟩
  exact no_digit

theorem stops_dropWhile (cs : List Char) : Stops (cs.dropWhile Char.isDigit) := by
  intro c first
  have kept := List.head?_dropWhile_not Char.isDigit cs
  rw [first] at kept
  simpa using kept

theorem takeWhile_digits {ds rest : List Char} (all : ∀ c ∈ ds, c.isDigit = true)
    (stops : Stops rest) :
    (ds ++ rest).takeWhile Char.isDigit = ds ∧ (ds ++ rest).dropWhile Char.isDigit = rest := by
  rw [List.takeWhile_append_of_pos all, List.dropWhile_append_of_pos all]
  cases rest with
  | nil => simp
  | cons c rest => simp [stops c rfl]

theorem gather_append {ds rest : List Char} (stops : Stops rest) (g : Gathered) :
    gather g (ds ++ rest) = ((gather g ds).1, (gather g ds).2 ++ rest) := by
  induction ds generalizing g with
  | nil =>
    cases rest with
    | nil => rfl
    | cons c rest => simp [gather, stops c rfl]
  | cons c ds ih =>
    rw [List.cons_append, gather, gather]
    split
    · exact ih _
    · rfl

theorem digits_of_gather {ds : List Char} (all : ∀ c ∈ ds, c.isDigit = true) (g : Gathered) :
    ∀ c ∈ (gather g ds).2, c.isDigit = true :=
  fun c left => all c ((gather_suffix g ds).subset left)

theorem exponentDigits_eq {ds rest : List Char} (digits : Digits ds) (stops : Stops rest) :
    exponentDigits (ds ++ rest) = some (Nat.ofDigitChars 10 ds 0, rest) := by
  obtain ⟨some_digit, all⟩ := digits
  obtain ⟨taken, left⟩ := takeWhile_digits all stops
  cases ds with
  | nil => exact absurd rfl some_digit
  | cons c ds =>
    rw [List.cons_append] at taken left ⊢
    rw [exponentDigits]
    simp only [all c List.mem_cons_self, if_true, taken, left]
    rfl

theorem digits_takeWhile {c : Char} {cs : List Char} (first : c.isDigit = true) :
    Digits ((c :: cs).takeWhile Char.isDigit) := by
  refine ⟨?_, fun d inside => List.mem_takeWhile_imp inside⟩
  rw [List.takeWhile_cons_of_pos first]
  exact List.cons_ne_nil _ _

theorem digits_of_exponentDigits {cs rest : List Char} {n : Nat}
    (taken : exponentDigits cs = some (n, rest)) :
    ∃ ds, Digits ds ∧ cs = ds ++ rest ∧ n = Nat.ofDigitChars 10 ds 0 := by
  unfold exponentDigits at taken
  split at taken
  · next c cs =>
    split at taken
    · next first =>
      cases taken
      exact ⟨_, digits_takeWhile first, List.takeWhile_append_dropWhile.symm, rfl⟩
    · cases taken
  · cases taken

theorem not_sign {ds : List Char} (digits : Digits ds) :
    ds.head? ≠ some '+' ∧ ds.head? ≠ some '-' := by
  constructor
  · intro first
    exact absurd (digits.2 _ (List.mem_of_head? first)) (by decide)
  · intro first
    exact absurd (digits.2 _ (List.mem_of_head? first)) (by decide)

def signed (negative : Bool) (digits : Nat) (power sign : Int) (cs : List Char) :
    Option (Json × List Char) :=
  (exponentDigits cs).bind fun (n, rest) =>
    (realOf negative digits (power + sign * n)).map (·, rest)

def behindLetter (negative : Bool) (digits : Nat) (power : Int) (cs : List Char) :
    Option (Json × List Char) :=
  match cs with
  | '+' :: rest => signed negative digits power 1 rest
  | '-' :: rest => signed negative digits power (-1) rest
  | rest => signed negative digits power 1 rest

variable {negative : Bool} {digits : Nat} {power : Int} {cs rest : List Char} {j : Json}

theorem exponentPart_letter {c : Char} (letter : c = 'e' ∨ c = 'E') :
    exponentPart negative digits power (c :: cs) = behindLetter negative digits power cs := by
  rcases letter with rfl | rfl
  · rfl
  · rfl

theorem exponentPart_plain (no_letter : ∀ c ∈ cs.head?, c ≠ 'e' ∧ c ≠ 'E') :
    exponentPart negative digits power cs = (realOf negative digits power).map (·, cs) := by
  unfold exponentPart
  dsimp only
  split
  · exact absurd rfl (no_letter 'e' rfl).1
  · exact absurd rfl (no_letter 'E' rfl).2
  · rfl

theorem signed_eq {sign : Int} {ds : List Char} (isDigits : Digits ds) (stops : Stops rest) :
    signed negative digits power sign (ds ++ rest) =
      (realOf negative digits (power + sign * Nat.ofDigitChars 10 ds 0)).map (·, rest) := by
  rw [signed, exponentDigits_eq isDigits stops]
  rfl

theorem signed_sound {sign : Int} (taken : signed negative digits power sign cs = some (j, rest)) :
    ∃ ds, Digits ds ∧ cs = ds ++ rest ∧
      realOf negative digits (power + sign * Nat.ofDigitChars 10 ds 0) = some j := by
  obtain ⟨⟨n, left⟩, read, made⟩ := Option.bind_eq_some_iff.mp taken
  obtain ⟨k, real, same⟩ := Option.map_eq_some_iff.mp made
  obtain ⟨ds, isDigits, rfl, rfl⟩ := digits_of_exponentDigits read
  cases same
  exact ⟨ds, isDigits, rfl, real⟩

theorem exponentPart_eq {exponent : Option Exponent} (wellFormed : ∀ e ∈ exponent, e.WellFormed)
    (ends : Ends rest) :
    exponentPart negative digits power (Numeral.exponentChars exponent ++ rest) =
      (realOf negative digits (power + exponent.elim 0 Exponent.power)).map (·, rest) := by
  cases exponent with
  | none =>
    rw [Option.elim_none, Int.add_zero]
    exact exponentPart_plain fun c first => (ends c first).2.2
  | some e =>
    obtain ⟨letter, sign, ds⟩ := e
    obtain ⟨isLetter, isSign, isDigits⟩ := wellFormed _ rfl
    have whole : Numeral.exponentChars (some ⟨letter, sign, ds⟩) ++ rest =
        letter :: (sign.toList ++ (ds ++ rest)) := by
      simp [Numeral.exponentChars, Exponent.chars]
    rw [whole, exponentPart_letter isLetter, Option.elim_some, Exponent.power]
    cases sign with
    | none =>
      have head : (ds ++ rest).head? = ds.head? := List.head?_append_of_ne_nil ds isDigits.1
      have first := not_sign isDigits
      rw [← head] at first
      rw [Option.toList_none, List.nil_append, behindLetter.eq_def]
      split
      · next same => exact absurd (by rw [same]; rfl) first.1
      · next same => exact absurd (by rw [same]; rfl) first.2
      · exact signed_eq isDigits ends.stops
    | some c =>
      rcases isSign c rfl with rfl | rfl
      · exact signed_eq isDigits ends.stops
      · exact signed_eq isDigits ends.stops

theorem behindLetter_sound {c : Char} (letter : c = 'e' ∨ c = 'E')
    (taken : behindLetter negative digits power cs = some (j, rest)) :
    ∃ e : Exponent, e.WellFormed ∧ c :: cs = e.chars ++ rest ∧
      realOf negative digits (power + e.power) = some j := by
  unfold behindLetter at taken
  split at taken
  · obtain ⟨ds, isDigits, rfl, real⟩ := signed_sound taken
    exact ⟨⟨c, some '+', ds⟩, ⟨letter, by simp, isDigits⟩, rfl, real⟩
  · obtain ⟨ds, isDigits, rfl, real⟩ := signed_sound taken
    exact ⟨⟨c, some '-', ds⟩, ⟨letter, by simp, isDigits⟩, rfl, real⟩
  · obtain ⟨ds, isDigits, rfl, real⟩ := signed_sound taken
    exact ⟨⟨c, none, ds⟩, ⟨letter, by simp, isDigits⟩, rfl, real⟩

theorem exponentPart_sound (taken : exponentPart negative digits power cs = some (j, rest)) :
    ∃ exponent : Option Exponent, (∀ e ∈ exponent, e.WellFormed) ∧
      (exponent = none → ∀ c ∈ cs.head?, c ≠ 'e' ∧ c ≠ 'E') ∧
      cs = Numeral.exponentChars exponent ++ rest ∧
      realOf negative digits (power + exponent.elim 0 Exponent.power) = some j := by
  by_cases letter : ∃ c ds, cs = c :: ds ∧ (c = 'e' ∨ c = 'E')
  · obtain ⟨c, ds, rfl, isLetter⟩ := letter
    rw [exponentPart_letter isLetter] at taken
    obtain ⟨e, wellFormed, whole, real⟩ := behindLetter_sound isLetter taken
    exact ⟨some e, by simpa using wellFormed, by rintro ⟨⟩, whole, real⟩
  · have no_letter : ∀ c ∈ cs.head?, c ≠ 'e' ∧ c ≠ 'E' := by
      intro c first
      obtain ⟨ds, same⟩ := List.head?_eq_some_iff.mp first
      exact not_or.mp fun isLetter => letter ⟨c, ds, same, isLetter⟩
    rw [exponentPart_plain no_letter] at taken
    obtain ⟨k, real, same⟩ := Option.map_eq_some_iff.mp taken
    cases same
    refine ⟨none, by simp, fun _ => no_letter, rfl, ?_⟩
    rw [Option.elim_none, Int.add_zero]
    exact real

theorem fractionPart_eq {ds : List Char} (isDigits : Digits ds) (stops : Stops rest) :
    fractionPart negative digits power (ds ++ rest) =
      exponentPart negative (gather ⟨digits, 0⟩ ds).1.value
        (power - (gather ⟨digits, 0⟩ ds).1.taken) rest := by
  have left := (takeWhile_digits (digits_of_gather isDigits.2 ⟨digits, 0⟩) stops).2
  rw [fractionPart, gather_append stops]
  simp only [left]
  obtain ⟨c, ds, rfl⟩ := List.exists_cons_of_ne_nil isDigits.1
  simp [isDigits.2 c List.mem_cons_self]

theorem exists_digits {c : Char} (first : c.isDigit = true) (cs : List Char) :
    ∃ ds rest, c :: cs = ds ++ rest ∧ Digits ds ∧ Stops rest ∧ ds.head? = some c := by
  refine ⟨_, _, List.takeWhile_append_dropWhile.symm, digits_takeWhile first,
    stops_dropWhile (c :: cs), ?_⟩
  rw [List.takeWhile_cons_of_pos first]
  rfl

theorem fractionPart_sound (taken : fractionPart negative digits power cs = some (j, rest)) :
    ∃ ds left, Digits ds ∧ Stops left ∧ cs = ds ++ left ∧
      exponentPart negative (gather ⟨digits, 0⟩ ds).1.value
        (power - (gather ⟨digits, 0⟩ ds).1.taken) left = some (j, rest) := by
  cases cs with
  | nil => cases taken
  | cons c cs =>
    by_cases first : c.isDigit = true
    · obtain ⟨ds, left, same, isDigits, stops, -⟩ := exists_digits first cs
      rw [same, fractionPart_eq isDigits stops] at taken
      exact ⟨ds, left, isDigits, stops, same, taken⟩
    · simp [fractionPart, first] at taken

def tail (negative : Bool) (g : Gathered) (beyond : List Char) (cs : List Char) :
    Option (Json × List Char) :=
  match cs with
  | '.' :: rest => fractionPart negative g.value beyond.length rest
  | rest =>
    if beyond.isEmpty && !(rest.head? == some 'e' || rest.head? == some 'E') then
      some (wholeOf negative g.value, rest)
    else exponentPart negative g.value beyond.length rest

theorem unsigned_eq {ds : List Char} (isDigits : Digits ds)
    (leading : ds.head? = some '0' → ds = ['0']) (stops : Stops rest) :
    unsigned negative (ds ++ rest) =
      tail negative (gather ⟨0, 0⟩ ds).1 (gather ⟨0, 0⟩ ds).2 rest := by
  obtain ⟨beyond, left⟩ := takeWhile_digits (digits_of_gather isDigits.2 ⟨0, 0⟩) stops
  have gathered : gather ⟨0, 0⟩ (ds ++ rest) =
      ((gather ⟨0, 0⟩ ds).1, (gather ⟨0, 0⟩ ds).2 ++ rest) := gather_append stops _
  obtain ⟨c, ds, rfl⟩ := List.exists_cons_of_ne_nil isDigits.1
  have first := isDigits.2 c List.mem_cons_self
  have no_leading : (c = '0' && (ds ++ rest).head?.any Char.isDigit) = false := by
    by_cases zero : c = '0'
    · subst zero
      cases leading rfl
      cases rest with
      | nil => rfl
      | cons d rest => simp [stops d rfl]
    · simp [zero]
  rw [List.cons_append] at gathered ⊢
  rw [unsigned]
  simp only [first, no_leading, gathered, beyond, left, Bool.not_true, Bool.false_eq_true, if_false]
  rfl

theorem unsigned_sound (taken : unsigned negative cs = some (j, rest)) :
    ∃ ds left, Digits ds ∧ (ds.head? = some '0' → ds = ['0']) ∧ Stops left ∧ cs = ds ++ left ∧
      tail negative (gather ⟨0, 0⟩ ds).1 (gather ⟨0, 0⟩ ds).2 left = some (j, rest) := by
  cases cs with
  | nil => cases taken
  | cons c cs =>
    by_cases first : c.isDigit = true
    · by_cases zeros : (c = '0' && cs.head?.any Char.isDigit) = true
      · simp [unsigned, first, zeros] at taken
      · obtain ⟨ds, left, same, isDigits, stops, head⟩ := exists_digits first cs
        have leading : ds.head? = some '0' → ds = ['0'] := by
          intro zero
          obtain rfl : c = '0' := Option.some.inj (head.symm.trans zero)
          obtain ⟨es, rfl⟩ := List.head?_eq_some_iff.mp head
          cases es with
          | nil => rfl
          | cons d es =>
            have next := isDigits.2 d (by simp)
            cases same
            simp [next] at zeros
        rw [same, unsigned_eq isDigits leading stops] at taken
        exact ⟨ds, left, isDigits, leading, stops, same, taken⟩
    · simp [unsigned, first] at taken

def Numeral.tailChars (n : Numeral) : List Char :=
  fractionChars n.fraction ++ exponentChars n.exponent

theorem tail_sound {ds : List Char} (isDigits : Digits ds)
    (leading : ds.head? = some '0' → ds = ['0'])
    (taken : tail negative (gather ⟨0, 0⟩ ds).1 (gather ⟨0, 0⟩ ds).2 cs = some (j, rest)) :
    ∃ n : Numeral, n.WellFormed ∧ n.negative = negative ∧ n.whole = ds ∧
      cs = n.tailChars ++ rest ∧ n.gathered? = some j := by
  unfold tail at taken
  split at taken
  · next cs =>
    obtain ⟨es, left, more, -, rfl, made⟩ := fractionPart_sound taken
    obtain ⟨exponent, wellFormed, -, rfl, real⟩ := exponentPart_sound made
    refine ⟨⟨negative, ds, some es, exponent⟩, ⟨isDigits, leading, by simpa using more, wellFormed⟩,
      rfl, rfl, ?_, ?_⟩
    · simp [Numeral.tailChars, Numeral.fractionChars]
    · simpa [Numeral.gathered?, Numeral.fractionDigits] using real
  · split at taken
    · next alone =>
      cases taken
      have all : (gather ⟨0, 0⟩ ds).2 = [] := by
        rw [Bool.and_eq_true] at alone
        exact List.isEmpty_iff.mp alone.1
      refine ⟨⟨negative, ds, none, none⟩, ⟨isDigits, leading, by simp, by simp⟩, rfl, rfl, rfl, ?_⟩
      simp [Numeral.gathered?, all]
    · next more =>
      obtain ⟨exponent, wellFormed, no_letter, rfl, real⟩ := exponentPart_sound taken
      have counts : ¬ (exponent = none ∧ (gather ⟨0, 0⟩ ds).2 = []) := by
        rintro ⟨rfl, all⟩
        have plain := no_letter rfl
        refine more ?_
        rw [all]
        cases first : rest.head? with
        | none => simp [Numeral.exponentChars, first]
        | some c =>
          have different := plain c first
          simp [Numeral.exponentChars, first, different]
      refine ⟨⟨negative, ds, none, exponent⟩, ⟨isDigits, leading, by simp, wellFormed⟩, rfl, rfl,
        rfl, ?_⟩
      simpa [Numeral.gathered?, Numeral.fractionDigits, counts, gather] using real

theorem head?_exponentChars {exponent : Option Exponent}
    (wellFormed : ∀ e ∈ exponent, e.WellFormed) {c : Char}
    (first : c ∈ (Numeral.exponentChars exponent ++ rest).head?) :
    (∃ e, exponent = some e) ∧ (c = 'e' ∨ c = 'E') ∨ exponent = none ∧ c ∈ rest.head? := by
  cases exponent with
  | none => exact Or.inr ⟨rfl, first⟩
  | some e =>
    cases first
    exact Or.inl ⟨⟨e, rfl⟩, (wellFormed e rfl).letter⟩

theorem stops_exponentChars {exponent : Option Exponent}
    (wellFormed : ∀ e ∈ exponent, e.WellFormed) (ends : Ends rest) :
    Stops (Numeral.exponentChars exponent ++ rest) := by
  intro c first
  rcases head?_exponentChars wellFormed first with ⟨-, rfl | rfl⟩ | ⟨-, behind⟩
  · rfl
  · rfl
  · exact (ends c behind).1

theorem stops_tailChars {n : Numeral} (wellFormed : n.WellFormed) (ends : Ends rest) :
    Stops (n.tailChars ++ rest) := by
  rw [Numeral.tailChars, List.append_assoc]
  cases n.fraction with
  | none => exact stops_exponentChars wellFormed.exponent ends
  | some es => exact stops_cons rfl _

theorem letter_exponentChars {exponent : Option Exponent}
    (wellFormed : ∀ e ∈ exponent, e.WellFormed) (ends : Ends rest) :
    ((Numeral.exponentChars exponent ++ rest).head? == some 'e' ||
      (Numeral.exponentChars exponent ++ rest).head? == some 'E') = exponent.isSome := by
  cases exponent with
  | none =>
    rw [Numeral.exponentChars, Option.elim_none, List.nil_append]
    cases first : rest.head? with
    | none => rfl
    | some c => simp [(ends c first).2.2]
  | some e => simpa [Numeral.exponentChars, Exponent.chars] using (wellFormed e rfl).letter

theorem tail_eq {n : Numeral} (wellFormed : n.WellFormed) (ends : Ends rest) :
    tail n.negative (gather ⟨0, 0⟩ n.whole).1 (gather ⟨0, 0⟩ n.whole).2 (n.tailChars ++ rest) =
      n.gathered?.map (·, rest) := by
  obtain ⟨negative, ds, fraction, exponent⟩ := n
  obtain ⟨-, -, more, isExponent⟩ := wellFormed
  rw [Numeral.tailChars, List.append_assoc]
  simp only at more isExponent ⊢
  cases fraction with
  | some es =>
    have real : Numeral.gathered? ⟨negative, ds, some es, exponent⟩ =
        realOf negative (gather ⟨(gather ⟨0, 0⟩ ds).1.value, 0⟩ es).1.value
          ((gather ⟨0, 0⟩ ds).2.length - (gather ⟨(gather ⟨0, 0⟩ ds).1.value, 0⟩ es).1.taken +
            exponent.elim 0 Exponent.power) := by
      simp [Numeral.gathered?, Numeral.fractionDigits]
    have point : Numeral.fractionChars (some es) ++ (Numeral.exponentChars exponent ++ rest) =
        '.' :: (es ++ (Numeral.exponentChars exponent ++ rest)) := rfl
    rw [point, tail, fractionPart_eq (more es rfl) (stops_exponentChars isExponent ends),
      exponentPart_eq isExponent ends, real]
  | none =>
    have no_point : ∀ c ∈ (Numeral.exponentChars exponent ++ rest).head?, c ≠ '.' := by
      rintro c first rfl
      rcases head?_exponentChars isExponent first with ⟨-, letter⟩ | ⟨-, behind⟩
      · exact absurd letter (by decide)
      · exact (ends '.' behind).2.1 rfl
    rw [Numeral.fractionChars, Option.elim_none, List.nil_append]
    unfold tail
    split
    · next same => exact absurd rfl (no_point '.' (by rw [same]; rfl))
    · rw [letter_exponentChars isExponent ends]
      by_cases alone : exponent = none ∧ (gather ⟨0, 0⟩ ds).2 = []
      · obtain ⟨rfl, all⟩ := alone
        have whole : Numeral.gathered? ⟨negative, ds, none, none⟩ =
            some (wholeOf negative (gather ⟨0, 0⟩ ds).1.value) := by
          simp [Numeral.gathered?, all]
        rw [if_pos (by simp [all]), whole]
        rfl
      · have real : Numeral.gathered? ⟨negative, ds, none, exponent⟩ =
            realOf negative (gather ⟨0, 0⟩ ds).1.value
              ((gather ⟨0, 0⟩ ds).2.length + exponent.elim 0 Exponent.power) := by
          simp [Numeral.gathered?, Numeral.fractionDigits, alone, gather]
        have goes_on : ¬ ((gather ⟨0, 0⟩ ds).2.isEmpty && !exponent.isSome) = true := by
          simpa [and_comm] using alone
        rw [if_neg goes_on, exponentPart_eq isExponent ends, real]

theorem number_sound (taken : number cs = some (j, rest)) :
    ∃ n : Numeral, n.WellFormed ∧ cs = n.chars ++ rest ∧ n.value? = some j := by
  have unsigned_case {negative : Bool} {cs : List Char}
      (taken : unsigned negative cs = some (j, rest)) :
      ∃ n : Numeral, n.WellFormed ∧ n.negative = negative ∧ cs = n.whole ++ n.tailChars ++ rest ∧
        n.value? = some j := by
    obtain ⟨ds, left, isDigits, leading, -, rfl, made⟩ := unsigned_sound taken
    obtain ⟨n, wellFormed, sign, rfl, rfl, gathered⟩ := tail_sound isDigits leading made
    rw [← Numeral.value?_eq wellFormed] at gathered
    exact ⟨n, wellFormed, sign, by rw [List.append_assoc], gathered⟩
  unfold number at taken
  split at taken
  · obtain ⟨n, wellFormed, sign, rfl, value⟩ := unsigned_case taken
    exact ⟨n, wellFormed, by simp [Numeral.chars, Numeral.tailChars, sign], value⟩
  · obtain ⟨n, wellFormed, sign, rfl, value⟩ := unsigned_case taken
    exact ⟨n, wellFormed, by simp [Numeral.chars, Numeral.tailChars, sign], value⟩

theorem number_eq {n : Numeral} (wellFormed : n.WellFormed) (ends : Ends rest) :
    number (n.chars ++ rest) = n.value?.map (·, rest) := by
  have read : unsigned n.negative (n.whole ++ (n.tailChars ++ rest)) = n.value?.map (·, rest) := by
    rw [unsigned_eq wellFormed.whole wellFormed.leading (stops_tailChars wellFormed ends),
      tail_eq wellFormed ends, Numeral.value?_eq wellFormed]
  cases sign : n.negative with
  | true =>
    have whole : n.chars ++ rest = '-' :: (n.whole ++ (n.tailChars ++ rest)) := by
      simp [Numeral.chars, Numeral.tailChars, sign]
    rw [whole, number, ← read, sign]
  | false =>
    have whole : n.chars ++ rest = n.whole ++ (n.tailChars ++ rest) := by
      simp [Numeral.chars, Numeral.tailChars, sign]
    have no_sign : (n.chars ++ rest).head? ≠ some '-' := by
      rw [whole, List.head?_append_of_ne_nil _ wellFormed.whole.1]
      exact (not_sign wellFormed.whole).2
    rw [← read, sign, ← whole]
    unfold number
    split
    · next same => exact absurd (by rw [same]; rfl) no_sign
    · rfl

end ScreenPreview.Json
