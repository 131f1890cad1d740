import ScreenPreview.Json.Printer
import ScreenPreview.Json.Reader

/-!
Strings and whole numbers of JSON text are read back.

A string is read character by character: the reader takes off what the printer wrote for one
character and goes on with the next (`stringRest_escape`). A number ends where no digit, point or
exponent follows (`number_intChars`).
-/
namespace ScreenPreview.Json

variable {rest : List Char}

/-! ### Strings -/

theorem hex4?_escapeControl {n : Nat} (control : n < 32) :
    hex4? '0' '0' (Nat.digitChar (n / 16)) (Nat.digitChar (n % 16)) = some n := by
  revert n
  decide

theorem unit16?_escapeControl {c : Char} (control : c.toNat < 32) :
    unit16? '0' '0' (Nat.digitChar (c.toNat / 16)) (Nat.digitChar (c.toNat % 16)) =
      some (.char c) := by
  have no_high : ¬ (0xD800 ≤ c.toNat ∧ c.toNat ≤ 0xDBFF) := by omega
  have no_low : ¬ (0xDC00 ≤ c.toNat ∧ c.toNat ≤ 0xDFFF) := by omega
  rw [unit16?, hex4?_escapeControl control, Option.map_some, if_neg no_high, if_neg no_low,
    Char.ofNat_toNat]

theorem stringRest_plain {c : Char} (read : List Char) (no_quote : c ≠ '\x22')
    (no_backslash : c ≠ '\x5c') (printed : ' ' ≤ c) :
    stringRest read (c :: rest) = stringRest (c :: read) rest := by
  have no_control : ¬ c < ' ' := Char.not_lt.mpr printed
  rw [stringRest, if_neg no_control]
  · exact no_quote
  · exact fun _ _ _ _ _ same _ => no_backslash same
  · exact fun _ _ same _ => no_backslash same

theorem stringRest_control {c : Char} (read : List Char) (control : c.toNat < 32) :
    stringRest read (escapeControl c.toNat ++ rest) = stringRest (c :: read) rest := by
  simp only [escapeControl, List.cons_append, List.nil_append]
  rw [stringRest, unit16?_escapeControl control]

theorem stringRest_escape (read : List Char) (c : Char) :
    stringRest read (escape c ++ rest) = stringRest (c :: read) rest := by
  by_cases quote : c = '\x22'
  · subst quote
    simp [escape, stringRest, unescape?]
  by_cases backslash : c = '\x5c'
  · subst backslash
    simp [escape, stringRest, unescape?]
  by_cases printed : ' ' ≤ c
  · rw [escape, if_neg quote, if_neg backslash, if_pos printed]
    exact stringRest_plain read quote backslash printed
  · have control : c.toNat < 32 := Nat.lt_of_not_le printed
    have same (n : Nat) (number : c.toNat = n) : c = Char.ofNat n := by
      rw [← number, Char.ofNat_toNat]
    rw [escape, if_neg quote, if_neg backslash, if_neg printed]
    -- Five control characters have a letter, the others are written by their number.
    split
    · next number => simp [same _ number, stringRest, unescape?]
    · next number => simp [same _ number, stringRest, unescape?]
    · next number => simp [same _ number, stringRest, unescape?]
    · next number => simp [same _ number, stringRest, unescape?]
    · next number => simp [same _ number, stringRest, unescape?]
    · exact stringRest_control read control

theorem stringRest_quoted (s : String) :
    stringRest [] (s.toList.flatMap escape ++ '\x22' :: rest) = some (s, rest) := by
  have run (read cs : List Char) :
      stringRest read (cs.flatMap escape ++ '\x22' :: rest) =
        some (String.ofList (read.reverse ++ cs), rest) := by
    induction cs generalizing read with
    | nil => simp [stringRest]
    | cons c cs ih =>
      rw [List.flatMap_cons, List.append_assoc, stringRest_escape, ih, List.reverse_cons,
        List.append_assoc]
      rfl
  rw [run, List.reverse_nil, List.nil_append, String.ofList_toList]

/-! ### Whole numbers -/

def Closed (rest : List Char) : Prop := ∀ c ∈ rest.head?, c = ',' ∨ c = ']' ∨ c = '\x7d'

theorem closed_nil : Closed [] := by
  intro c member
  cases member

theorem closed_cons {c : Char} (closes : c = ',' ∨ c = ']' ∨ c = '\x7d') (rest : List Char) :
    Closed (c :: rest) := by
  intro d member
  cases member
  exact closes

theorem le_ofDigitChars (digits : List Char) (n : Nat) : n ≤ Nat.ofDigitChars 10 digits n := by
  induction digits generalizing n with
  | nil => exact Nat.le_refl n
  | cons c digits ih =>
    rw [Nat.ofDigitChars_cons]
    have := ih (10 * n + (c.toNat - '0'.toNat))
    omega

theorem gather_digits {digits : List Char} (all : ∀ c ∈ digits, c.isDigit = true)
    (closed : ∀ c ∈ rest.head?, c.isDigit = false) (n taken : Nat)
    (fits : Nat.ofDigitChars 10 digits n < 0x10000000000000000) :
    gather ⟨n, taken⟩ (digits ++ rest) =
      (⟨Nat.ofDigitChars 10 digits n, taken + digits.length⟩, rest) := by
  induction digits generalizing n taken with
  | nil =>
    cases rest with
    | nil => rfl
    | cons c rest => simp [gather, closed c rfl]
  | cons c digits ih =>
    rw [List.forall_mem_cons] at all
    rw [Nat.ofDigitChars_cons] at fits ⊢
    have next := le_ofDigitChars digits (10 * n + (c.toNat - '0'.toNat))
    have small : 10 * n + (c.toNat - 48) < 0x10000000000000000 := Nat.lt_of_le_of_lt next fits
    rw [List.cons_append, gather]
    simp only [all.1, small, decide_true, Bool.and_self, if_true]
    rw [show c.toNat - 48 = c.toNat - '0'.toNat from rfl, ih all.2 _ _ fits, List.length_cons]
    congr 2
    omega

theorem isDigit_of_toDigits {n : Nat} {c : Char} (member : c ∈ Nat.toDigits 10 n) :
    c.isDigit = true := Nat.isDigit_of_mem_toDigits (by decide) (by decide) member

theorem exists_toDigits (n : Nat) :
    ∃ c digits, Nat.toDigits 10 n = c :: digits ∧ c.isDigit = true := by
  obtain ⟨c, digits, written⟩ := List.exists_cons_of_ne_nil (Nat.toDigits_ne_nil (n := n) (b := 10))
  refine ⟨c, digits, written, isDigit_of_toDigits (n := n) ?_⟩
  rw [written]
  exact List.mem_cons_self

theorem eq_zero_of_toDigits {n : Nat} {digits : List Char}
    (leading : Nat.toDigits 10 n = '0' :: digits) : n = 0 := by
  induction n using Nat.strongRecOn generalizing digits with
  | ind n ih =>
    by_cases small : n < 10
    · have zero_only : ∀ n < 10, n.digitChar = '0' → n = 0 := by decide
      rw [Nat.toDigits_of_lt_base small] at leading
      exact zero_only n small (List.cons.inj leading).1
    · rw [Nat.toDigits_of_base_le (by decide) (by omega)] at leading
      obtain ⟨c, front, more⟩ := List.exists_cons_of_ne_nil (Nat.toDigits_ne_nil (n := n / 10))
      rw [more, List.cons_append] at leading
      cases leading
      have := ih (n / 10) (by omega) more
      omega

theorem Closed.no_number (closed : Closed rest) :
    (∀ c ∈ rest.head?, c.isDigit = false) ∧ rest.head? ≠ some '.' ∧ rest.head? ≠ some 'e' ∧
      rest.head? ≠ some 'E' := by
  cases rest with
  | nil => simp
  | cons c rest => rcases closed c rfl with rfl | rfl | rfl <;> simp

theorem unsigned_toDigits (closed : Closed rest) (negative : Bool) {n : Nat}
    (fits : n < 0x10000000000000000) :
    unsigned negative (Nat.toDigits 10 n ++ rest) = some (wholeOf negative n, rest) := by
  obtain ⟨no_digit, no_point, no_small, no_large⟩ := closed.no_number
  have gathered := gather_digits (fun c => isDigit_of_toDigits) no_digit 0 0
    (by rwa [Nat.ofDigitChars_ten_toDigits])
  rw [Nat.ofDigitChars_ten_toDigits] at gathered
  have none_beyond : rest.takeWhile Char.isDigit = [] ∧ rest.dropWhile Char.isDigit = rest := by
    cases rest with
    | nil => exact ⟨rfl, rfl⟩
    | cons c rest => simp [no_digit c rfl]
  obtain ⟨c, digits, whole, first⟩ := exists_toDigits n
  rw [whole] at gathered ⊢
  have no_leading : (c = '0' && ((digits ++ rest).head?.any Char.isDigit)) = false := by
    by_cases zero : c = '0'
    · subst zero
      obtain rfl := eq_zero_of_toDigits whole
      rw [Nat.toDigits_zero] at whole
      cases whole
      cases rest with
      | nil => rfl
      | cons d rest => simp [no_digit d rfl]
    · simp [zero]
  rw [List.cons_append] at gathered ⊢
  rw [unsigned]
  simp only [first, no_leading, gathered, none_beyond, Bool.not_true, Bool.false_eq_true, if_false]
  split
  · exact absurd rfl no_point
  · simp [no_small, no_large]

def Word (n : Int) : Prop := -0x8000000000000000 ≤ n ∧ n < 0x10000000000000000

theorem number_intChars {n : Int} (word : Word n) (closed : Closed rest) :
    number (intChars n ++ rest) = some (.int n, rest) := by
  obtain ⟨least, most⟩ := word
  by_cases negative : n < 0
  · have size : n.natAbs < 0x10000000000000000 := by omega
    have whole : wholeOf true n.natAbs = .int n := by
      have fits : ¬ (n.natAbs = 0 ∨ 0x8000000000000000 < n.natAbs) := by omega
      rw [wholeOf, if_neg (by decide), if_neg fits]
      congr 1
      omega
    rw [intChars, if_pos negative, List.cons_append, number, unsigned_toDigits closed true size,
      whole]
  · have size : n.natAbs < 0x10000000000000000 := by omega
    have whole : wholeOf false n.natAbs = .int n := by
      rw [wholeOf, if_pos (by decide)]
      congr 1
      omega
    rw [intChars, if_neg negative, number, unsigned_toDigits closed false size, whole]
    intro behind sign
    obtain ⟨c, digits, written, first⟩ := exists_toDigits n.natAbs
    rw [written, List.cons_append] at sign
    cases sign
    cases first

end ScreenPreview.Json
