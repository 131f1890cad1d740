import ScreenPreview.Bytes
import ScreenPreview.Proofs.Json.Scalars

/-!
Written JSON holds no control character.

The control characters of a string are escaped, and all else that a value is written with is printed
(`printed_chars`). So a written value can stand in a line, whatever strings it is made of.
-/
namespace ScreenPreview.Json

def Printed (cs : List Char) : Prop := ∀ c ∈ cs, 32 ≤ c.toNat

instance : DecidablePred Printed := fun cs => List.decidableBAll (32 ≤ Char.toNat ·) cs

variable {cs ds : List Char}

theorem printed_append : Printed (cs ++ ds) ↔ Printed cs ∧ Printed ds := List.forall_mem_append

theorem printed_cons {c : Char} : Printed (c :: cs) ↔ 32 ≤ c.toNat ∧ Printed cs :=
  List.forall_mem_cons

theorem printed_nil : Printed [] := by
  intro c member
  cases member

theorem Printed.sublist (printed : Printed ds) (inside : cs.Sublist ds) : Printed cs :=
  fun c member => printed c (inside.subset member)

/-! ### Strings and numbers -/

theorem printed_escapeControl {n : Nat} (control : n < 32) : Printed (escapeControl n) := by
  revert n
  decide

theorem printed_escape (c : Char) : Printed (escape c) := by
  unfold escape
  split
  · decide
  · split
    · decide
    · split
      · next printed => exact printed_cons.mpr ⟨printed, printed_nil⟩
      · next control =>
        have small : c.toNat < 32 := Nat.lt_of_not_le control
        split
        any_goals decide
        exact printed_escapeControl small

theorem printed_quoted (s : String) : Printed (quoted s) := by
  refine printed_append.mpr ⟨printed_cons.mpr ⟨by decide, ?_⟩, printed_cons.mpr ⟨by decide,
    printed_nil⟩⟩
  intro c member
  obtain ⟨d, -, within⟩ := List.mem_flatMap.mp member
  exact printed_escape d c within

theorem printed_toDigits (n : Nat) : Printed (Nat.toDigits 10 n) := by
  intro c member
  have digit := isDigit_of_toDigits member
  simp only [Char.isDigit, Bool.and_eq_true, decide_eq_true_eq] at digit
  have least : 48 ≤ c.toNat := digit.1
  omega

theorem printed_replicate_zero (n : Nat) : Printed (List.replicate n '0') := by
  intro c member
  rw [(List.mem_replicate.mp member).2]
  decide

theorem printed_decimalChars (s : Decimal.Scaled) : Printed (decimalChars s) := by
  have digits := printed_toDigits s.digits
  have front (n : Nat) : Printed ((Nat.toDigits 10 s.digits).take n) :=
    digits.sublist (List.take_sublist n _)
  have back (n : Nat) : Printed ((Nat.toDigits 10 s.digits).drop n) :=
    digits.sublist (List.drop_sublist n _)
  simp only [decimalChars]
  split
  · refine printed_append.mpr ⟨printed_append.mpr ⟨front 1, ?_⟩, printed_cons.mpr ⟨by decide,
      printed_cons.mpr ⟨?_, printed_toDigits _⟩⟩⟩
    · split
      · exact printed_nil
      · exact printed_cons.mpr ⟨by decide, back 1⟩
    · split <;> decide
  · split
    · exact printed_append.mpr ⟨printed_cons.mpr ⟨by decide, printed_cons.mpr ⟨by decide,
        printed_replicate_zero _⟩⟩, digits⟩
    · split
      · refine printed_append.mpr ⟨printed_append.mpr ⟨digits, printed_replicate_zero _⟩, ?_⟩
        exact printed_cons.mpr ⟨by decide, printed_cons.mpr ⟨by decide, printed_nil⟩⟩
      · exact printed_append.mpr ⟨front _, printed_cons.mpr ⟨by decide, back _⟩⟩

theorem printed_realChars (x : Float) : Printed (realChars x) := by
  have size : Printed (if (Decimal.Dyadic.ofBits x.toBits).mantissa = 0 then ['0', '.', '0']
      else decimalChars (Decimal.shortest (Decimal.Dyadic.ofBits x.toBits))) := by
    split
    · decide
    · exact printed_decimalChars _
  simp only [realChars]
  split
  · exact printed_cons.mpr ⟨by decide, size⟩
  · exact size

theorem printed_intChars (n : Int) : Printed (intChars n) := by
  unfold intChars
  split
  · exact printed_cons.mpr ⟨by decide, printed_toDigits _⟩
  · exact printed_toDigits _

/-! ### Values -/

mutual

theorem printed_chars : (j : Json) → Printed j.chars
  | .null => by decide
  | .bool b => by cases b <;> decide
  | .int n => printed_intChars n
  | .real x => printed_realChars x
  | .text s => printed_quoted s
  | .list items => by
    rw [chars]
    exact printed_append.mpr ⟨printed_cons.mpr ⟨by decide, printed_itemChars items⟩,
      printed_cons.mpr ⟨by decide, printed_nil⟩⟩
  | .object members => by
    rw [chars]
    exact printed_append.mpr ⟨printed_cons.mpr ⟨by decide, printed_memberChars members⟩,
      printed_cons.mpr ⟨by decide, printed_nil⟩⟩

theorem printed_itemChars : (items : List Json) → Printed (itemChars items)
  | [] => printed_nil
  | [item] => printed_chars item
  | item :: other :: rest => by
    rw [itemChars]
    · exact printed_append.mpr ⟨printed_chars item, printed_cons.mpr ⟨by decide,
        printed_itemChars (other :: rest)⟩⟩
    · exact List.cons_ne_nil other rest

theorem printed_memberChars : (members : List (String × Json)) → Printed (memberChars members)
  | [] => printed_nil
  | [member] => printed_pairChars member
  | member :: other :: rest => by
    rw [memberChars]
    · exact printed_append.mpr ⟨printed_pairChars member, printed_cons.mpr ⟨by decide,
        printed_memberChars (other :: rest)⟩⟩
    · exact List.cons_ne_nil other rest

theorem printed_pairChars : (member : String × Json) → Printed (pairChars member)
  | (key, value) => by
    rw [pairChars]
    exact printed_append.mpr ⟨printed_quoted key, printed_cons.mpr ⟨by decide,
      printed_chars value⟩⟩

end

/-! ### The bytes of a printed text -/

theorem ofText_ofList (cs : List Char) :
    Bytes.ofText (String.ofList cs) = cs.flatMap String.utf8EncodeChar := by
  rw [Bytes.ofText, String.toByteArray_ofList, List.utf8Encode]
  simp

/-- The bytes of a character from the space on are no control characters either: below 128 there is
one byte, the character, and all others are 128 or more. -/
theorem le_of_mem_utf8EncodeChar {c : Char} (printed : 32 ≤ c.toNat) {b : UInt8}
    (member : b ∈ String.utf8EncodeChar c) : 32 ≤ b := by
  rw [UInt8.le_iff_toNat_le]
  rw [String.utf8EncodeChar, show c.val.toNat = c.toNat from rfl] at member
  split at member
  · simp only [List.mem_singleton] at member
    subst member
    simp
    omega
  · split at member
    · simp only [List.mem_cons, List.not_mem_nil, or_false] at member
      rcases member with rfl | rfl <;> simp <;> omega
    · split at member
      · simp only [List.mem_cons, List.not_mem_nil, or_false] at member
        rcases member with rfl | rfl | rfl <;> simp <;> omega
      · simp only [List.mem_cons, List.not_mem_nil, or_false] at member
        rcases member with rfl | rfl | rfl | rfl <;> simp <;> omega

theorem Printed.bytes (printed : Printed cs) : ∀ b ∈ Bytes.ofText (String.ofList cs), 32 ≤ b := by
  rw [ofText_ofList]
  intro b member
  obtain ⟨c, inside, encodes⟩ := List.mem_flatMap.mp member
  exact le_of_mem_utf8EncodeChar (printed c inside) encodes

end ScreenPreview.Json
