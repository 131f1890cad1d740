import ScreenPreview.Proofs.Json.Grammar
import ScreenPreview.Proofs.Json.Scalars
import ScreenPreview.Proofs.Json.Sizes

/-!
The strings of JSON text are read.

What stands between quotes is read as the characters for which it stands, and nothing else is read
(`quotes_of_stringRest`, `Quotes.stringRest_eq`). The reader computes with the numbers of digits and
of surrogates where the grammar names them.
-/
namespace ScreenPreview.Json

/-! ### Escapes -/

theorem unescape?_iff {letter c : Char} :
    unescape? letter = some c ↔ (letter, c) ∈ letterEscapes := by
  constructor
  · intro stands
    unfold unescape? at stands
    split at stands <;> cases stands <;> decide
  · intro member
    simp only [letterEscapes, List.mem_cons, Prod.mk.injEq, List.not_mem_nil, or_false] at member
    rcases member with ⟨rfl, rfl⟩ | ⟨rfl, rfl⟩ | ⟨rfl, rfl⟩ | ⟨rfl, rfl⟩ | ⟨rfl, rfl⟩ | ⟨rfl, rfl⟩ |
      ⟨rfl, rfl⟩ | ⟨rfl, rfl⟩ <;> rfl

theorem hexDigit_of_decimal : ∀ n < 10, HexDigit (Char.ofNat (48 + n)) n := by
  unfold HexDigit
  decide

theorem hexDigit_of_lower : ∀ n < 16, 10 ≤ n → HexDigit (Char.ofNat (87 + n)) n := by
  unfold HexDigit
  decide

theorem hexDigit_of_upper : ∀ n < 16, 10 ≤ n → HexDigit (Char.ofNat (55 + n)) n := by
  unfold HexDigit
  decide

theorem hexDigit_of_value {c : Char} {k : Nat} (value : hexDigit? c = some k) : HexDigit c k := by
  have named {base : Nat} (above : base ≤ c.toNat) (number : c.toNat - base = k) :
      c = Char.ofNat (base + k) := by
    rw [show base + k = c.toNat by omega, Char.ofNat_toNat]
  unfold hexDigit? at value
  split at value
  · next digit =>
    obtain ⟨above, below⟩ : 48 ≤ c.toNat ∧ c.toNat ≤ 57 := Char.isDigit_iff_toNat.mp digit
    have number := Option.some.inj value
    rw [named above number]
    exact hexDigit_of_decimal k (by omega)
  split at value
  · next letter =>
    obtain ⟨above, below⟩ : 97 ≤ c.toNat ∧ c.toNat ≤ 102 := letter
    have number := Option.some.inj value
    rw [named (by omega) number]
    exact hexDigit_of_lower k (by omega) (by omega)
  split at value
  · next letter =>
    obtain ⟨above, below⟩ : 65 ≤ c.toNat ∧ c.toNat ≤ 70 := letter
    have number := Option.some.inj value
    rw [named (by omega) number]
    exact hexDigit_of_upper k (by omega) (by omega)
  · cases value

theorem HexDigit.value {c : Char} {k : Nat} (digit : HexDigit c k) :
    hexDigit? c = some k ∧ k < 16 := by
  rcases digit with lower | upper
  · obtain ⟨small, rfl⟩ := List.getElem?_eq_some_iff.mp lower
    exact ⟨(by decide : ∀ n : Fin 16, hexDigit? "0123456789abcdef".toList[n] = some n.val)
      ⟨k, small⟩, small⟩
  · obtain ⟨small, rfl⟩ := List.getElem?_eq_some_iff.mp upper
    exact ⟨(by decide : ∀ n : Fin 16, hexDigit? "0123456789ABCDEF".toList[n] = some n.val)
      ⟨k, small⟩, small⟩

theorem hex_of_value {a b c d : Char} {n : Nat} (value : hex4? a b c d = some n) :
    Hex [a, b, c, d] n := by
  unfold hex4? at value
  obtain ⟨i, first, value⟩ := Option.bind_eq_some_iff.mp value
  obtain ⟨j, second, value⟩ := Option.bind_eq_some_iff.mp value
  obtain ⟨k, third, value⟩ := Option.bind_eq_some_iff.mp value
  obtain ⟨l, fourth, value⟩ := Option.bind_eq_some_iff.mp value
  have number : n = 0x1000 * i + 0x100 * j + 0x10 * k + l := by
    cases value
    omega
  rw [number]
  exact .four (hexDigit_of_value first) (hexDigit_of_value second) (hexDigit_of_value third)
    (hexDigit_of_value fourth)

theorem Hex.value {digits : List Char} {n : Nat} (hex : Hex digits n) :
    n < 0x10000 ∧ ∃ a b c d, digits = [a, b, c, d] ∧ hex4? a b c d = some n := by
  obtain ⟨first, second, third, fourth⟩ := hex
  obtain ⟨a, i_lt⟩ := first.value
  obtain ⟨b, j_lt⟩ := second.value
  obtain ⟨c, k_lt⟩ := third.value
  obtain ⟨d, l_lt⟩ := fourth.value
  refine ⟨by omega, _, _, _, _, rfl, ?_⟩
  rw [hex4?, a, b, c, d]
  refine congrArg some ?_
  omega

/-! ### Units of 16 bits -/

theorem toNat_ofNat {n : Nat} (valid : n.isValidChar) : (Char.ofNat n).toNat = n := by
  rw [Char.ofNat, dif_pos valid]
  rfl

theorem unit16?_cases {a b c d : Char} {unit : Unit16} (stands : unit16? a b c d = some unit) :
    match unit with
    | .char x => Hex [a, b, c, d] x.toNat
    | .highSurrogate n => Hex [a, b, c, d] n ∧ 0xD800 ≤ n ∧ n ≤ 0xDBFF
    | .lowSurrogate n => Hex [a, b, c, d] n ∧ 0xDC00 ≤ n ∧ n ≤ 0xDFFF := by
  obtain ⟨n, value, same⟩ := Option.map_eq_some_iff.mp stands
  have hex := hex_of_value value
  split at same
  · next high =>
    subst same
    exact ⟨hex, high⟩
  split at same
  · next low =>
    subst same
    exact ⟨hex, low⟩
  · subst same
    have small := hex.value.1
    have valid : n.isValidChar := by
      unfold Nat.isValidChar
      omega
    simpa only [toNat_ofNat valid] using hex

theorem toNat_pairOf {high low : Nat} (isHigh : 0xD800 ≤ high ∧ high ≤ 0xDBFF)
    (isLow : 0xDC00 ≤ low ∧ low ≤ 0xDFFF) :
    (pairOf high low).toNat = 0x10000 + (high - 0xD800) * 1024 + (low - 0xDC00) := by
  refine toNat_ofNat ?_
  unfold Nat.isValidChar
  omega

theorem toNat_cases (x : Char) : x.toNat < 0xD800 ∨ 0xDFFF < x.toNat ∧ x.toNat < 0x110000 := x.valid

theorem unit16?_of_hex {digits : List Char} {n : Nat} (hex : Hex digits n) :
    ∃ a b c d, digits = [a, b, c, d] ∧ unit16? a b c d = some
      (if 0xD800 ≤ n ∧ n ≤ 0xDBFF then .highSurrogate n
        else if 0xDC00 ≤ n ∧ n ≤ 0xDFFF then .lowSurrogate n
        else .char (Char.ofNat n)) := by
  obtain ⟨-, a, b, c, d, rfl, value⟩ := hex.value
  exact ⟨a, b, c, d, rfl, by rw [unit16?, value]; rfl⟩

theorem unit16?_of_char {digits : List Char} {x : Char} (hex : Hex digits x.toNat) :
    ∃ a b c d, digits = [a, b, c, d] ∧ unit16? a b c d = some (.char x) := by
  obtain ⟨a, b, c, d, same, stands⟩ := unit16?_of_hex hex
  have valid := toNat_cases x
  rw [if_neg (by omega), if_neg (by omega), Char.ofNat_toNat] at stands
  exact ⟨a, b, c, d, same, stands⟩

theorem unit16?_of_high {digits : List Char} {n : Nat} (hex : Hex digits (0xD800 + n))
    (small : n < 0x400) :
    ∃ a b c d, digits = [a, b, c, d] ∧ unit16? a b c d = some (.highSurrogate (0xD800 + n)) := by
  obtain ⟨a, b, c, d, same, stands⟩ := unit16?_of_hex hex
  rw [if_pos (by omega)] at stands
  exact ⟨a, b, c, d, same, stands⟩

theorem unit16?_of_low {digits : List Char} {n : Nat} (hex : Hex digits (0xDC00 + n))
    (small : n < 0x400) :
    ∃ a b c d, digits = [a, b, c, d] ∧ unit16? a b c d = some (.lowSurrogate (0xDC00 + n)) := by
  obtain ⟨a, b, c, d, same, stands⟩ := unit16?_of_hex hex
  rw [if_neg (by omega), if_pos (by omega)] at stands
  exact ⟨a, b, c, d, same, stands⟩

theorem pairOf_split {x : Char} (beyond : 0x10000 ≤ x.toNat) :
    pairOf (0xD800 + (x.toNat - 0x10000) / 0x400) (0xDC00 + (x.toNat - 0x10000) % 0x400) = x := by
  have number : 0x10000 + (0xD800 + (x.toNat - 0x10000) / 0x400 - 0xD800) * 1024 +
      (0xDC00 + (x.toNat - 0x10000) % 0x400 - 0xDC00) = x.toNat := by omega
  rw [pairOf, number, Char.ofNat_toNat]

/-! ### Strings -/

theorem quotes_of_stringRest {read cs rest : List Char} {s : String}
    (taken : stringRest read cs = some (s, rest)) :
    ∃ body ds, cs = body ++ '\x22' :: rest ∧ Quotes body ds ∧
      s = String.ofList (read.reverse ++ ds) := by
  fun_induction stringRest read cs with
  | case1 => cases taken
  | case2 read left =>
    cases taken
    exact ⟨[], [], rfl, .nil, by rw [List.append_nil]⟩
  | case3 read a b c d left x stands ih =>
    obtain ⟨body, ds, rfl, quotes, same⟩ := ih taken
    have hex : Hex [a, b, c, d] x.toNat := unit16?_cases stands
    exact ⟨_, x :: ds, rfl, .unit hex quotes, by simpa using same⟩
  | case4 read a b c d high first e f g h left low second ih =>
    obtain ⟨body, ds, rfl, quotes, same⟩ := ih taken
    obtain ⟨highHex, isHigh⟩ := unit16?_cases first
    obtain ⟨lowHex, isLow⟩ := unit16?_cases second
    have number := toNat_pairOf isHigh isLow
    have upper : high = 0xD800 + ((pairOf high low).toNat - 0x10000) / 0x400 := by omega
    have lower : low = 0xDC00 + ((pairOf high low).toNat - 0x10000) % 0x400 := by omega
    rw [upper] at highHex
    rw [lower] at lowHex
    exact ⟨_, pairOf high low :: ds, rfl, .pair (by omega) highHex lowHex quotes,
      by simpa using same⟩
  | case5 => cases taken
  | case6 => cases taken
  | case7 => cases taken
  | case8 read c left no_unit x stands ih =>
    obtain ⟨body, ds, rfl, quotes, same⟩ := ih taken
    exact ⟨_, x :: ds, rfl, .escape (unescape?_iff.mp stands) quotes, by simpa using same⟩
  | case9 => cases taken
  | case10 => cases taken
  | case11 read c left no_quote no_unit no_escape printed ih =>
    have no_backslash : c ≠ '\x5c' := by
      rintro rfl
      cases left with
      | nil => cases taken
      | cons d left => exact no_escape d left rfl rfl
    obtain ⟨body, ds, rfl, quotes, same⟩ := ih taken
    refine ⟨c :: body, c :: ds, rfl, ?_, by simpa using same⟩
    exact .plain no_quote no_backslash (Char.not_lt.mp printed) quotes

theorem Quotes.stringRest_eq {body cs : List Char} (quotes : Quotes body cs)
    (read rest : List Char) : stringRest read (body ++ '\x22' :: rest) =
      some (String.ofList (read.reverse ++ cs), rest) := by
  induction quotes generalizing read with
  | nil => simp [stringRest]
  | plain no_quote no_backslash printed _ ih =>
    rw [List.cons_append, stringRest_plain read no_quote no_backslash printed, ih]
    simp
  | @escape letter c body cs stands _ ih =>
    have read_letter := unescape?_iff.mpr stands
    have no_unit : letter ≠ 'u' := by
      rintro rfl
      cases read_letter
    rw [List.cons_append, List.cons_append, stringRest, read_letter]
    · dsimp only
      rw [ih]
      simp
    · rintro a b c d rest rfl -
      exact no_unit rfl
  | unit hex _ ih =>
    obtain ⟨a, b, c, d, rfl, stands⟩ := unit16?_of_char hex
    simp only [List.cons_append, List.nil_append]
    rw [stringRest, stands]
    simp only [ih]
    simp
  | @pair high low x body cs beyond highHex lowHex _ ih =>
    have valid := toNat_cases x
    obtain ⟨a, b, c, d, rfl, first⟩ := unit16?_of_high highHex (by omega)
    obtain ⟨e, f, g, h, rfl, second⟩ := unit16?_of_low lowHex (Nat.mod_lt _ (by decide))
    simp only [List.cons_append, List.nil_append]
    rw [stringRest, first]
    simp only [second, ih, pairOf_split beyond]
    simp

end ScreenPreview.Json
