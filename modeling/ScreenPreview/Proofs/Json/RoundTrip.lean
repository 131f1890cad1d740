import ScreenPreview.Proofs.Json.Records
import ScreenPreview.Proofs.Json.Scalars

/-!
JSON values are read back from their text.

The reader takes off just what the printer wrote of a value, whatever closes it behind
(`value_chars`). The members of an object come back in the order of their keys
(`readWithin_object`).
-/
namespace ScreenPreview.Json

/-- The values that a text says exactly, nested at most `depth` deep: numbers are whole and fit a
word, and the members of an object stand in the order of their keys. -/
inductive Exact : Nat → Json → Prop where
  | null {depth : Nat} : Exact depth .null
  | bool {depth : Nat} (b : Bool) : Exact depth (.bool b)
  | int {depth : Nat} {n : Int} (word : Word n) : Exact depth (.int n)
  | text {depth : Nat} (s : String) : Exact depth (.text s)
  | list {depth : Nat} {items : List Json} (inside : ∀ item ∈ items, Exact depth item) :
    Exact (depth + 1) (.list items)
  | object {depth : Nat} {members : List (String × Json)}
    (sorted : Sorted members) (inside : ∀ m ∈ members, Exact depth m.2) :
    Exact (depth + 1) (.object members)

def ReadBy (item : List Char → Option (Json × List Char)) (j : Json) : Prop :=
  ∀ rest, Closed rest → item (j.chars ++ rest) = some (j, rest)

variable {depth : Nat} {j : Json} {rest : List Char} {item : List Char → Option (Json × List Char)}

theorem skip_cons {c : Char} (no_space : isSpace c = false) (rest : List Char) :
    skip (c :: rest) = c :: rest := by
  rw [skip, List.dropWhile_cons, no_space]
  rfl

/-! ### Lists -/

theorem length_itemChars (x : Json) (xs : List Json) :
    xs.length ≤ (itemChars (x :: xs)).length := by
  induction xs generalizing x with
  | nil => exact Nat.zero_le _
  | cons y xs ih =>
    have := ih y
    simp only [itemChars, List.length_append, List.length_cons]
    omega

theorem items_itemChars {x : Json} {xs : List Json} (reads : ∀ y ∈ x :: xs, ReadBy item y)
    {bound : Nat} (room : xs.length < bound) (read : List Json) (rest : List Char) :
    items item bound read (itemChars (x :: xs) ++ ']' :: rest) =
      some (read.reverse ++ x :: xs, rest) := by
  induction xs generalizing x bound read with
  | nil =>
    obtain ⟨bound, rfl⟩ := Nat.exists_eq_succ_of_ne_zero (Nat.ne_of_gt room)
    have first := reads x List.mem_cons_self (']' :: rest) (closed_cons (by simp) rest)
    rw [itemChars, items, first]
    simp [skip_cons, isSpace]
  | cons y xs ih =>
    obtain ⟨bound, rfl⟩ := Nat.exists_eq_succ_of_ne_zero (Nat.ne_of_gt (Nat.zero_lt_of_lt room))
    rw [List.forall_mem_cons] at reads
    have first := reads.1 (',' :: (itemChars (y :: xs) ++ ']' :: rest)) (closed_cons (by simp) _)
    have later := ih reads.2 (Nat.lt_of_succ_lt_succ room) (x :: read)
    rw [itemChars, List.append_assoc, List.cons_append, items, first]
    · simp [skip_cons, isSpace, later]
    · exact List.cons_ne_nil y xs

/-! ### Objects -/

theorem length_memberChars (m : String × Json) (ms : List (String × Json)) :
    ms.length ≤ (memberChars (m :: ms)).length := by
  induction ms generalizing m with
  | nil => exact Nat.zero_le _
  | cons n ms ih =>
    have := ih n
    simp only [memberChars, List.length_append, List.length_cons]
    omega

theorem members_memberChars {m : String × Json} {ms : List (String × Json)}
    (reads : ∀ n ∈ m :: ms, ReadBy item n.2) {bound : Nat} (room : ms.length < bound)
    (read : List (String × Json)) (rest : List Char) :
    members item bound read (memberChars (m :: ms) ++ '\x7d' :: rest) =
      some (read.reverse ++ m :: ms, rest) := by
  induction ms generalizing m bound read with
  | nil =>
    obtain ⟨bound, rfl⟩ := Nat.exists_eq_succ_of_ne_zero (Nat.ne_of_gt room)
    have first := reads m List.mem_cons_self ('\x7d' :: rest) (closed_cons (by simp) rest)
    rw [memberChars, pairChars, quoted]
    simp [members, skip_cons, isSpace, stringRest_quoted, first]
  | cons n ms ih =>
    obtain ⟨bound, rfl⟩ := Nat.exists_eq_succ_of_ne_zero (Nat.ne_of_gt (Nat.zero_lt_of_lt room))
    rw [List.forall_mem_cons] at reads
    have first := reads.1 (',' :: (memberChars (n :: ms) ++ '\x7d' :: rest))
      (closed_cons (by simp) _)
    have later := ih reads.2 (Nat.lt_of_succ_lt_succ room) (m :: read)
    rw [memberChars, pairChars, quoted]
    · simp [members, skip_cons, isSpace, stringRest_quoted, first, later]
    · exact List.cons_ne_nil n ms

/-! ### Values -/

theorem value_of_scalar {c : Char} (no_space : isSpace c = false) (no_list : c ≠ '[')
    (no_object : c ≠ '\x7b') (rest : List Char) :
    value depth (c :: rest) = scalar (c :: rest) := by
  cases depth with
  | zero => rw [value, skip_cons no_space]
  | succ depth =>
    rw [value, skip_cons no_space]
    split <;> simp_all

theorem exists_intChars (n : Int) :
    ∃ c tail, intChars n = c :: tail ∧ isSpace c = false ∧
      c ∉ ['[', ']', '\x7b', 'n', 't', 'f', '\x22'] := by
  by_cases negative : n < 0
  · exact ⟨'-', _, if_pos negative, by decide, by decide⟩
  · obtain ⟨c, digits, written, digit⟩ := exists_toDigits n.natAbs
    refine ⟨c, digits, ?_, ?_, ?_⟩
    · rw [intChars, if_neg negative, written]
    · rw [isSpace, ← Bool.not_eq_true]
      intro space
      simp only [Bool.or_eq_true, beq_iff_eq] at space
      rcases space with ((rfl | rfl) | rfl) | rfl <;> cases digit
    · intro member
      simp only [List.mem_cons, List.not_mem_nil, or_false] at member
      rcases member with rfl | rfl | rfl | rfl | rfl | rfl | rfl <;> cases digit

theorem readBy_int {n : Int} (word : Word n) : ReadBy (value depth) (.int n) := by
  intro rest closed
  have read := number_intChars word closed
  obtain ⟨c, tail, written, no_space, other⟩ := exists_intChars n
  rw [written, List.cons_append] at read
  rw [chars, written, List.cons_append]
  simp only [List.mem_cons, List.not_mem_nil, or_false, not_or] at other
  rw [value_of_scalar no_space other.1 other.2.2.1, scalar, read] <;> simp_all

theorem readBy_text (s : String) : ReadBy (value depth) (.text s) := by
  intro rest closed
  rw [chars, quoted, List.cons_append, List.cons_append, List.append_assoc, List.singleton_append,
    value_of_scalar (by decide) (by decide) (by decide), scalar, stringRest_quoted, Option.map_some]

theorem readBy_list {x : Json} {xs : List Json} (reads : ∀ y ∈ x :: xs, ReadBy (value depth) y)
    {c : Char} {tail : List Char} (written : x.chars = c :: tail) (no_space : isSpace c = false)
    (no_end : c ≠ ']') : ReadBy (value (depth + 1)) (.list (x :: xs)) := by
  intro rest closed
  obtain ⟨more, opens⟩ : ∃ more, itemChars (x :: xs) = c :: more := by
    cases xs <;> simp [itemChars, written]
  have room : xs.length < (itemChars (x :: xs) ++ ']' :: rest).length := by
    have := length_itemChars x xs
    simp only [List.length_append, List.length_cons]
    omega
  have read := items_itemChars reads room [] rest
  rw [chars, List.cons_append, List.cons_append, List.append_assoc, List.singleton_append, value,
    skip_cons (by decide)]
  rw [opens, List.cons_append] at read ⊢
  simp only [skip_cons no_space]
  split
  · next same => cases same; exact absurd rfl no_end
  · rw [read]
    rfl

theorem value_object {ms : List (String × Json)} (reads : ∀ m ∈ ms, ReadBy (value depth) m.2)
    (rest : List Char) :
    value (depth + 1) ((object ms).chars ++ rest) = some (record ms, rest) := by
  cases ms with
  | nil => simp [chars, memberChars, value, skip_cons, isSpace, record]
  | cons m ms =>
    obtain ⟨more, opens⟩ : ∃ more, memberChars (m :: ms) = '\x22' :: more := by
      obtain ⟨key, first⟩ := m
      cases ms <;> simp [memberChars, pairChars, quoted]
    have room : ms.length < (memberChars (m :: ms) ++ '\x7d' :: rest).length := by
      have := length_memberChars m ms
      simp only [List.length_append, List.length_cons]
      omega
    have read := members_memberChars reads room [] rest
    rw [chars, List.cons_append, List.cons_append, List.append_assoc, List.singleton_append, value,
      skip_cons (by decide)]
    rw [opens, List.cons_append] at read ⊢
    simp only [skip_cons (show isSpace '\x22' = false by decide)]
    rw [read]
    rfl

theorem Exact.exists_chars (exact : Exact depth j) :
    ∃ c tail, j.chars = c :: tail ∧ isSpace c = false ∧ c ≠ ']' := by
  cases exact with
  | null => exact ⟨_, _, rfl, by decide, by decide⟩
  | bool b => cases b <;> exact ⟨_, _, rfl, by decide, by decide⟩
  | int word =>
    obtain ⟨c, tail, written, no_space, other⟩ := exists_intChars _
    refine ⟨c, tail, written, no_space, ?_⟩
    rintro rfl
    simp at other
  | text s => exact ⟨_, _, rfl, by decide, by decide⟩
  | list inside => exact ⟨_, _, rfl, by decide, by decide⟩
  | object sorted inside => exact ⟨_, _, rfl, by decide, by decide⟩

theorem Exact.readBy (exact : Exact depth j) : ReadBy (value depth) j := by
  induction exact with
  | null =>
    intro rest closed
    rw [chars, List.cons_append, value_of_scalar (by decide) (by decide) (by decide)]
    rfl
  | bool b =>
    intro rest closed
    cases b <;>
      rw [chars, List.cons_append, value_of_scalar (by decide) (by decide) (by decide)] <;> rfl
  | int word => exact readBy_int word
  | text s => exact readBy_text s
  | @list depth items inside ih =>
    cases items with
    | nil =>
      intro rest closed
      simp [chars, itemChars, value, skip_cons, isSpace]
    | cons x xs =>
      obtain ⟨c, tail, written, no_space, no_end⟩ := (inside x List.mem_cons_self).exists_chars
      exact readBy_list ih written no_space no_end
  | object sorted inside ih =>
    intro rest closed
    rw [value_object ih, record_of_sorted sorted]

theorem Exact.record {ms : List (String × Json)} (exact : ∀ m ∈ ms, Exact depth m.2) :
    Exact (depth + 1) (record ms) :=
  .object (sorted_inOrder ms) fun m member => exact m (mem_of_inOrder member)

theorem readWithin_of_value {k : Json} (taken : value depth k.chars = some (j, [])) :
    readWithin depth k.render = some j := by
  rw [readWithin, render, String.toList_ofList, taken]
  rfl

theorem readWithin_render (exact : Exact depth j) : readWithin depth j.render = some j := by
  apply readWithin_of_value
  simpa using exact.readBy [] closed_nil

/-- The members of an object come back in the order of their keys, the last one of a key
counting. -/
theorem readWithin_object {ms : List (String × Json)} (exact : ∀ m ∈ ms, Exact depth m.2) :
    readWithin (depth + 1) (object ms).render = some (Json.record ms) := by
  apply readWithin_of_value
  simpa using value_object (fun m member => (exact m member).readBy) []

end ScreenPreview.Json
