import Mathlib.Data.List.Infix
import Mathlib.Data.List.TakeWhile
import ScreenPreview.Control.Line

/-!
Where the lines of a control stream come from.

Every line that is taken off a buffer is spelled by bytes that stand there one behind the other, and
what is left over is the end of the buffer (`takeAll_spelled`).
-/
namespace ScreenPreview.Control.Line

/-- Somewhere in the stream, one behind the other, stand the bytes of the line and a terminator. -/
def SpelledIn (line : String) (stream : Bytes) : Prop :=
  ∃ before body after terminator text,
    stream = before ++ (body ++ terminator :: after) ∧ isTerminator terminator = true ∧
      (∀ b ∈ body, isTerminator b = false) ∧ Text.Utf8.read body = .ok text ∧
      line = Text.trimmed text

theorem SpelledIn.mono {line : String} {stream whole : Bytes} (spelled : SpelledIn line stream)
    (inside : stream <:+ whole) : SpelledIn line whole := by
  obtain ⟨before, body, after, terminator, text, rfl, rest⟩ := spelled
  obtain ⟨front, rfl⟩ := inside
  exact ⟨front ++ before, body, after, terminator, text, by simp, rest⟩

theorem SpelledIn.exists_mem_tails {line : String} {stream : Bytes}
    (spelled : SpelledIn line stream) :
    ∃ rest ∈ stream.tails, (Text.Utf8.read (head rest)).toOption.map Text.trimmed = some line := by
  obtain ⟨before, body, after, terminator, text, rfl, ends, inside, read, rfl⟩ := spelled
  refine ⟨body ++ terminator :: after, (List.mem_tails _ _).mpr (List.suffix_append _ _), ?_⟩
  have first : head (body ++ terminator :: after) = body := by
    rw [head, List.takeWhile_append_of_pos (by simpa using inside)]
    simp [ends]
  rw [first, read]
  rfl

theorem tail_eq_cons {buffer rest : Bytes} {b : UInt8} (found : tail buffer = b :: rest) :
    buffer = head buffer ++ b :: rest ∧ isTerminator b = true ∧
      ∀ a ∈ head buffer, isTerminator a = false := by
  refine ⟨?_, ?_, ?_⟩
  · rw [← found, head_append_tail]
  · have some_left : tail buffer ≠ [] := by simp [found]
    have first := List.head_dropWhile_not (!isTerminator ·) some_left
    have same : (tail buffer).head some_left = b := by simp [found]
    rw [show (buffer.dropWhile _).head some_left = b from same] at first
    simpa using first
  · intro a member
    simpa using List.mem_takeWhile_imp member

theorem suffix_of_tail {buffer rest : Bytes} {b : UInt8} (found : tail buffer = b :: rest) :
    rest <:+ buffer := by
  refine ⟨head buffer ++ [b], ?_⟩
  rw [List.append_assoc]
  exact (tail_eq_cons found).1.symm

theorem take_suffix (limit : Nat) (buffer : Bytes) : (take limit buffer).2 <:+ buffer := by
  fun_induction take limit buffer with
  | case1 => exact List.suffix_rfl
  | case2 => exact List.suffix_rfl
  | case3 buffer b rest found => exact suffix_of_tail found
  | case4 buffer b rest found text read blank shorter ih => exact ih.trans (suffix_of_tail found)
  | case5 buffer b rest found => exact suffix_of_tail found

theorem take_spelled {limit : Nat} {buffer rest : Bytes} {line : String}
    (taken : take limit buffer = (.ok (some line), rest)) : SpelledIn line buffer := by
  fun_induction take limit buffer with
  | case1 => simp at taken
  | case2 => simp at taken
  | case3 => simp at taken
  | case4 buffer b behind found text read blank shorter ih =>
    exact (ih taken).mono (suffix_of_tail found)
  | case5 buffer b behind found text read =>
    obtain ⟨whole, ends, inside⟩ := tail_eq_cons found
    obtain ⟨same, -⟩ := Prod.mk.inj taken
    have line_eq : Text.trimmed text = line := Option.some.inj (Except.ok.inj same)
    exact ⟨[], head buffer, behind, b, text, whole, ends, inside, read, line_eq.symm⟩

theorem takeAll_spelled (limit : Nat) (buffer : Bytes) :
    (takeAll limit buffer).2 <:+ buffer ∧
      ∀ line ∈ (takeAll limit buffer).1, SpelledIn line buffer := by
  fun_induction takeAll limit buffer with
  | case1 buffer failure rest taken => exact ⟨List.nil_suffix, by simp⟩
  | case2 buffer rest taken =>
    have suffix := take_suffix limit buffer
    rw [taken] at suffix
    exact ⟨suffix, by simp⟩
  | case3 buffer line rest taken shorter lines left later ih =>
    have spelled := take_spelled taken
    have inside : rest <:+ buffer := by
      have suffix := take_suffix limit buffer
      rw [taken] at suffix
      exact suffix
    rw [later] at ih
    refine ⟨ih.1.trans inside, ?_⟩
    intro other member
    rcases List.mem_cons.mp member with rfl | behind
    · exact spelled
    · exact (ih.2 other behind).mono inside

end ScreenPreview.Control.Line
