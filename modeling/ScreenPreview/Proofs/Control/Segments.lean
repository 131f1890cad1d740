import ScreenPreview.Proofs.Control.Spelling

/-!
The lines of a whole control stream.

A stream falls apart at its terminators, and each line that has one is read on its own. Taking all
lines off a buffer gives just these texts, but only as far as the end of the first line that is no
text: what stands behind it is thrown away (`takeAll_eq`).
-/
namespace ScreenPreview.Control.Line

def ended (stream : Bytes) : List Bytes := (stream.splitOnP isTerminator).dropLast

def unended (stream : Bytes) : Bytes := (stream.splitOnP isTerminator).getLastD []

def reading? (line : Bytes) : Option String :=
  match Text.Utf8.read line with
  | .error _ => none
  | .ok text => if (Text.trimmed text).isEmpty then none else some (Text.trimmed text)

def texts (stream : Bytes) : List String := (ended stream).filterMap reading?

def Open (line : Bytes) : Prop := ∀ b ∈ line, isTerminator b = false

def Faulty (line : Bytes) : Prop := ∃ fault, Text.Utf8.read line = .error fault

variable {line rest stream : Bytes} {t : UInt8}

theorem open_nil : Open [] := by
  intro b member
  cases member

/-! ### Streams line by line -/

theorem ended_of_open (inside : Open line) : ended line = [] := by
  rw [ended, List.splitOnP_eq_singleton inside]
  rfl

theorem unended_of_open (inside : Open line) : unended line = line := by
  rw [unended, List.splitOnP_eq_singleton inside]
  rfl

theorem ended_append_cons (front rest : Bytes) (ends : isTerminator t = true) :
    ended (front ++ t :: rest) = ended front ++ unended front :: ended rest := by
  have some_front := List.splitOnP_ne_nil isTerminator front
  have some_rest := List.splitOnP_ne_nil isTerminator rest
  have whole := List.dropLast_append_getLast some_front
  rw [ended, List.splitOnP_append_cons front rest ends, List.dropLast_append_of_ne_nil some_rest,
    unended, List.getLastD_eq_getLast?, List.getLast?_eq_some_getLast some_front]
  conv => lhs; rw [← whole]
  simp [ended]

theorem unended_append_cons (front rest : Bytes) (ends : isTerminator t = true) :
    unended (front ++ t :: rest) = unended rest := by
  have some_rest := List.splitOnP_ne_nil isTerminator rest
  rw [unended, unended, List.splitOnP_append_cons front rest ends, List.getLastD_eq_getLast?,
    List.getLast?_append_of_ne_nil _ some_rest, ← List.getLastD_eq_getLast?]

theorem ended_cons (inside : Open line) (ends : isTerminator t = true) :
    ended (line ++ t :: rest) = line :: ended rest := by
  rw [ended_append_cons line rest ends, ended_of_open inside, unended_of_open inside]
  rfl

theorem texts_of_open (inside : Open line) : texts line = [] := by
  rw [texts, ended_of_open inside]
  rfl

theorem texts_cons (inside : Open line) (ends : isTerminator t = true) :
    texts (line ++ t :: rest) = (reading? line).toList ++ texts rest := by
  rw [texts, ended_cons inside ends, List.filterMap_cons]
  cases reading? line <;> rfl

theorem open_iff_tail : Open stream ↔ tail stream = [] := by
  simp [Open, tail]

theorem open_or_line (stream : Bytes) :
    Open stream ∨
      ∃ line t rest, stream = line ++ t :: rest ∧ Open line ∧ isTerminator t = true := by
  cases found : tail stream with
  | nil => exact Or.inl (open_iff_tail.mpr found)
  | cons t rest =>
    obtain ⟨whole, ends, inside⟩ := tail_eq_cons found
    exact Or.inr ⟨head stream, t, rest, whole, inside, ends⟩

theorem head_of_line (rest : Bytes) (inside : Open line) (ends : isTerminator t = true) :
    head (line ++ t :: rest) = line ∧ tail (line ++ t :: rest) = t :: rest := by
  have passes : ∀ b ∈ line, (!isTerminator b) = true := by
    intro b member
    rw [inside b member]
    rfl
  constructor
  · rw [head, List.takeWhile_append_of_pos passes]
    simp [ends]
  · rw [tail, List.dropWhile_append_of_pos passes]
    simp [ends]

theorem by_lines {motive : Bytes → Prop} (opened : ∀ line, Open line → motive line)
    (ended : ∀ line t rest, Open line → isTerminator t = true → motive rest →
      motive (line ++ t :: rest))
    (stream : Bytes) : motive stream := by
  induction length : stream.length using Nat.strongRecOn generalizing stream with
  | ind n ih =>
    rcases open_or_line stream with inside | ⟨line, t, rest, rfl, inside, ends⟩
    · exact opened stream inside
    · have shorter : rest.length < n := by
        simp only [List.length_append, List.length_cons] at length
        omega
      exact ended line t rest inside ends (ih rest.length shorter rest rfl)

theorem unended_open (stream : Bytes) : Open (unended stream) := by
  induction stream using by_lines with
  | opened line inside => rwa [unended_of_open inside]
  | ended line t rest inside ends ih => rwa [unended_append_cons line rest ends]

theorem ended_append (front rest : Bytes) :
    ended (front ++ rest) = ended front ++ ended (unended front ++ rest) := by
  induction front using by_lines with
  | opened line inside =>
    rw [ended_of_open inside, unended_of_open inside]
    rfl
  | ended line t behind inside ends ih =>
    rw [List.append_assoc, List.cons_append, ended_cons inside ends, ih, ended_cons inside ends,
      unended_append_cons line behind ends]
    rfl

/-! ### Taking lines -/

theorem take_of_open (limit : Nat) (inside : Open line) :
    take limit line =
      if limit < line.length then (.error (.tooLarge line.length limit), line)
      else (.ok none, line) := by
  rw [take]
  split
  · rfl
  · simp_all [open_iff_tail]

theorem take_of_line (limit : Nat) (rest : Bytes) (inside : Open line)
    (ends : isTerminator t = true) :
    take limit (line ++ t :: rest) =
      match Text.Utf8.read line with
      | .error fault => (.error (.notText fault), rest)
      | .ok text =>
        if (Text.trimmed text).isEmpty then take limit rest
        else (.ok (some (Text.trimmed text)), rest) := by
  obtain ⟨first, behind⟩ := head_of_line rest inside ends
  rw [take, first]
  split
  · simp_all
  · rename_i b left found
    rw [behind] at found
    cases found
    split <;> simp_all

theorem takeAll_of_error {limit : Nat} {buffer left : Bytes} {failure : Failure}
    (taken : take limit buffer = (.error failure, left)) : takeAll limit buffer = ([], []) := by
  rw [takeAll]
  split <;> simp_all

theorem takeAll_of_none {limit : Nat} {buffer left : Bytes}
    (taken : take limit buffer = (.ok none, left)) : takeAll limit buffer = ([], left) := by
  rw [takeAll]
  split <;> simp_all

theorem takeAll_of_some {limit : Nat} {buffer left : Bytes} {text : String}
    (taken : take limit buffer = (.ok (some text), left)) :
    takeAll limit buffer = (text :: (takeAll limit left).1, (takeAll limit left).2) := by
  rw [takeAll]
  split
  · simp_all
  · simp_all
  · rename_i first others same
    rw [taken] at same
    cases same
    rfl

theorem takeAll_congr {limit : Nat} {a b : Bytes} (same : take limit a = take limit b) :
    takeAll limit a = takeAll limit b := by
  rcases taken : take limit b with ⟨_ | _ | text, left⟩
  · rw [takeAll_of_error taken, takeAll_of_error (same.trans taken)]
  · rw [takeAll_of_none taken, takeAll_of_none (same.trans taken)]
  · rw [takeAll_of_some taken, takeAll_of_some (same.trans taken)]

theorem takeAll_of_line (limit : Nat) (inside : Open line) (ends : isTerminator t = true)
    {text : String} (read : Text.Utf8.read line = .ok text) :
    takeAll limit (line ++ t :: rest) =
      ((reading? line).toList ++ (takeAll limit rest).1, (takeAll limit rest).2) := by
  have taken := take_of_line limit rest inside ends
  rw [read] at taken
  by_cases blank : (Text.trimmed text).isEmpty
  · simp only [blank, if_true] at taken
    rw [takeAll_congr taken]
    simp [reading?, read, blank]
  · simp only [blank] at taken
    rw [takeAll_of_some taken]
    simp [reading?, read, blank]

/-- A buffer as far as the end of its first line that is no text. -/
def untilFault (buffer : Bytes) : Bytes :=
  match found : tail buffer with
  | [] => buffer
  | t :: rest =>
    match Text.Utf8.read (head buffer) with
    | .error _ => head buffer ++ [t]
    | .ok _ =>
      have := length_of_tail found
      head buffer ++ t :: untilFault rest
termination_by buffer.length

theorem untilFault_of_open (inside : Open line) : untilFault line = line := by
  rw [untilFault]
  split
  · rfl
  · simp_all [open_iff_tail]

theorem untilFault_of_fault (inside : Open line) (ends : isTerminator t = true)
    (faulty : Faulty line) : untilFault (line ++ t :: rest) = line ++ [t] := by
  obtain ⟨first, behind⟩ := head_of_line rest inside ends
  obtain ⟨fault, read⟩ := faulty
  rw [untilFault, first]
  split <;> simp_all

theorem untilFault_of_line (inside : Open line) (ends : isTerminator t = true) {text : String}
    (read : Text.Utf8.read line = .ok text) :
    untilFault (line ++ t :: rest) = line ++ t :: untilFault rest := by
  obtain ⟨first, behind⟩ := head_of_line rest inside ends
  rw [untilFault, first]
  split
  · simp_all
  · rename_i b left found
    rw [behind] at found
    cases found
    simp [read]

theorem reading?_of_fault (faulty : Faulty line) : reading? line = none := by
  obtain ⟨fault, read⟩ := faulty
  rw [reading?, read]

theorem takeAll_of_fault (limit : Nat) (inside : Open line) (ends : isTerminator t = true)
    (faulty : Faulty line) : takeAll limit (line ++ t :: rest) = ([], []) := by
  have taken := take_of_line limit rest inside ends
  obtain ⟨fault, read⟩ := faulty
  rw [read] at taken
  exact takeAll_of_error taken

/-- All lines that are taken off a buffer are the texts of the buffer as far as the end of its first
line that is no text. What is left is what stands behind the last terminator there, unless it is
too long. -/
theorem takeAll_eq (limit : Nat) (buffer : Bytes) :
    takeAll limit buffer =
      (texts (untilFault buffer),
        if limit < (unended (untilFault buffer)).length then []
        else unended (untilFault buffer)) := by
  induction buffer using by_lines with
  | opened line inside =>
    rw [untilFault_of_open inside, texts_of_open inside, unended_of_open inside]
    have taken := take_of_open limit inside
    by_cases long : limit < line.length
    · rw [if_pos long] at taken ⊢
      exact takeAll_of_error taken
    · rw [if_neg long] at taken ⊢
      exact takeAll_of_none taken
  | ended line t rest inside ends ih =>
    cases read : Text.Utf8.read line with
    | error fault =>
      have faulty : Faulty line := ⟨fault, read⟩
      rw [takeAll_of_fault limit inside ends faulty, untilFault_of_fault inside ends faulty,
        texts_cons inside ends, reading?_of_fault faulty, texts_of_open open_nil,
        unended_append_cons line [] ends, unended_of_open open_nil, List.length_nil,
        if_neg (Nat.not_lt_zero limit)]
      rfl
    | ok text =>
      rw [takeAll_of_line limit inside ends read, ih, untilFault_of_line inside ends read,
        texts_cons inside ends, unended_append_cons line _ ends]

end ScreenPreview.Control.Line
