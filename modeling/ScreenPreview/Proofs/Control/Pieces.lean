import ScreenPreview.Proofs.Control.Cuttings

/-!
A control stream that comes in pieces, read on behind the lines that are no text.

A reader that goes on behind such a line loses nothing. However the stream is cut, each line that
has its terminator is read once and on its own, in the order of the stream, and what stands behind
the last terminator waits in the buffer (`takePieces_eq`).
-/
namespace ScreenPreview.Control.Line

theorem length_of_take_notText {limit : Nat} {buffer rest : Bytes} {fault : Text.Utf8.Fault}
    (taken : take limit buffer = (.error (.notText fault), rest)) :
    rest.length < buffer.length := by
  fun_induction take limit buffer with
  | case1 => simp at taken
  | case2 => simp at taken
  | case3 _ _ _ found =>
    have := length_of_tail found
    simp_all
  | case4 _ _ _ found _ _ _ shorter ih =>
    have := ih taken
    omega
  | case5 => simp at taken

/-- Take lines off a buffer until none is complete, going on behind a line that is no text. Gives
what came of each line and what is left. -/
def takeOn (limit : Nat) (buffer : Bytes) : List (Except Failure String) × Bytes :=
  match taken : take limit buffer with
  | (.ok none, rest) => ([], rest)
  | (.ok (some line), rest) =>
    have := length_of_take taken
    let (answers, rest) := takeOn limit rest
    (.ok line :: answers, rest)
  | (.error (.notText fault), rest) =>
    have := length_of_take_notText taken
    let (answers, rest) := takeOn limit rest
    (.error (.notText fault) :: answers, rest)
  | (.error failure, rest) => ([.error failure], rest)
termination_by buffer.length

def takePieces (limit : Nat) (buffer : Bytes) : List Bytes → List (Except Failure String) × Bytes
  | [] => ([], buffer)
  | piece :: pieces =>
    let (answers, rest) := takeOn limit (buffer ++ piece)
    let (more, rest) := takePieces limit rest pieces
    (answers ++ more, rest)

def answers (line : Bytes) : List (Except Failure String) :=
  match Text.Utf8.read line with
  | .error fault => [.error (.notText fault)]
  | .ok text => if (Text.trimmed text).isEmpty then [] else [.ok (Text.trimmed text)]

variable {limit : Nat} {line buffer rest : Bytes} {t : UInt8}

theorem takeOn_of_none (taken : take limit buffer = (.ok none, rest)) :
    takeOn limit buffer = ([], rest) := by
  rw [takeOn]
  split <;> simp_all

theorem takeOn_of_some {text : String} (taken : take limit buffer = (.ok (some text), rest)) :
    takeOn limit buffer = (.ok text :: (takeOn limit rest).1, (takeOn limit rest).2) := by
  rw [takeOn]
  split <;> simp_all

theorem takeOn_of_notText {fault : Text.Utf8.Fault}
    (taken : take limit buffer = (.error (.notText fault), rest)) :
    takeOn limit buffer =
      (.error (.notText fault) :: (takeOn limit rest).1, (takeOn limit rest).2) := by
  rw [takeOn]
  split <;> simp_all

theorem takeOn_of_failure {failure : Failure} (taken : take limit buffer = (.error failure, rest))
    (other : ∀ fault, failure ≠ .notText fault) :
    takeOn limit buffer = ([.error failure], rest) := by
  rw [takeOn]
  split
  · simp_all
  · simp_all
  · rename_i fault left same
    rw [taken] at same
    cases same
    exact absurd rfl (other fault)
  · simp_all

theorem takeOn_congr {a b : Bytes} (same : take limit a = take limit b) :
    takeOn limit a = takeOn limit b := by
  rcases taken : take limit b with ⟨failure | _ | text, left⟩
  · by_cases no_text : ∃ fault, failure = .notText fault
    · obtain ⟨fault, rfl⟩ := no_text
      rw [takeOn_of_notText taken, takeOn_of_notText (same.trans taken)]
    · rw [not_exists] at no_text
      rw [takeOn_of_failure taken no_text, takeOn_of_failure (same.trans taken) no_text]
  · rw [takeOn_of_none taken, takeOn_of_none (same.trans taken)]
  · rw [takeOn_of_some taken, takeOn_of_some (same.trans taken)]

theorem takeOn_of_open (inside : Open line) (fits : line.length ≤ limit) :
    takeOn limit line = ([], line) := by
  have taken := take_of_open limit inside
  rw [if_neg (Nat.not_lt.mpr fits)] at taken
  exact takeOn_of_none taken

theorem takeOn_of_line (limit : Nat) (rest : Bytes) (inside : Open line)
    (ends : isTerminator t = true) :
    takeOn limit (line ++ t :: rest) =
      (answers line ++ (takeOn limit rest).1, (takeOn limit rest).2) := by
  have taken := take_of_line limit rest inside ends
  cases read : Text.Utf8.read line with
  | error fault =>
    rw [read] at taken
    rw [takeOn_of_notText taken, answers, read]
    rfl
  | ok text =>
    rw [read] at taken
    by_cases blank : (Text.trimmed text).isEmpty
    · simp only [blank, if_true] at taken
      rw [takeOn_congr taken]
      simp [answers, read, blank]
    · simp only [blank] at taken
      rw [takeOn_of_some taken]
      simp [answers, read, blank]

theorem takeOn_eq (fits : (unended buffer).length ≤ limit) :
    takeOn limit buffer = ((ended buffer).flatMap answers, unended buffer) := by
  induction buffer using by_lines with
  | opened line inside =>
    rw [unended_of_open inside] at fits ⊢
    rw [ended_of_open inside]
    exact takeOn_of_open inside fits
  | ended line t rest inside ends ih =>
    rw [unended_append_cons line rest ends] at fits ⊢
    rw [takeOn_of_line limit rest inside ends, ih fits, ended_cons inside ends, List.flatMap_cons]

/-! ### From piece to piece -/

theorem unended_append (front rest : Bytes) :
    unended (front ++ rest) = unended (unended front ++ rest) := by
  induction front using by_lines with
  | opened line inside => rw [unended_of_open inside]
  | ended line t behind inside ends ih =>
    rw [List.append_assoc, List.cons_append, unended_append_cons line _ ends, ih,
      unended_append_cons line _ ends]

theorem Short.length_unended (short : Short limit (buffer ++ rest))
    (fits : (unended (buffer ++ rest)).length ≤ limit) : (unended buffer).length ≤ limit := by
  have inside := unended_open buffer
  rw [unended_append] at fits
  rcases open_or_line rest with none_ends | ⟨line, t, behind, rfl, line_inside, ends⟩
  · rw [unended_of_open (inside.append none_ends), List.length_append] at fits
    omega
  · have bound : (unended buffer ++ line).length ≤ limit := by
      apply short.left
      rw [← List.append_assoc, ended_cons (inside.append line_inside) ends]
      exact List.mem_cons_self
    rw [List.length_append] at bound
    omega

theorem takePieces_of_open {pieces : List Bytes} (inside : Open buffer)
    (short : Short limit (buffer ++ pieces.flatten))
    (fits : (unended (buffer ++ pieces.flatten)).length ≤ limit) :
    takePieces limit buffer pieces =
      ((ended (buffer ++ pieces.flatten)).flatMap answers, unended (buffer ++ pieces.flatten)) := by
  induction pieces generalizing buffer with
  | nil =>
    rw [List.flatten_nil, List.append_nil, ended_of_open inside, unended_of_open inside]
    rfl
  | cons piece pieces ih =>
    rw [List.flatten_cons, ← List.append_assoc] at short fits ⊢
    have left := unended_open (buffer ++ piece)
    have waiting := short.length_unended fits
    rw [unended_append] at fits
    simp only [takePieces, takeOn_eq waiting, ih left short.left fits]
    rw [ended_append (buffer ++ piece), unended_append (buffer ++ piece), List.flatMap_append]

/-! ### What a line says -/

/-- What may come of a line: of one that is no UTF-8 its fault, of blanks nothing, and of any other
text what stands between the blanks at its ends. -/
inductive ReadAs (line : Bytes) : List (Except Failure String) → Prop where
  | fault {fault : Text.Utf8.Fault} (no_text : ∀ text, Bytes.ofText text ≠ line)
    (first : Text.Utf8.read line = .error fault) : ReadAs line [.error (.notText fault)]
  | blank {text : String} (spells : Bytes.ofText text = line)
    (blank : ∀ c ∈ text.toList, Text.isBlank c = true) : ReadAs line []
  | text {before inner after : List Char}
    (spells : Bytes.ofText (String.ofList (before ++ inner ++ after)) = line)
    (blank_before : ∀ c ∈ before, Text.isBlank c = true)
    (blank_after : ∀ c ∈ after, Text.isBlank c = true) (some_text : inner ≠ [])
    (first : Text.isBlank (inner.head some_text) = false)
    (last : Text.isBlank (inner.getLast some_text) = false) :
    ReadAs line [.ok (String.ofList inner)]

theorem ofText_of_read {text : String} (read : Text.Utf8.read line = .ok text) :
    Bytes.ofText text = line := by
  rw [Text.Utf8.read] at read
  split at read
  · rename_i same spelled
    cases read
    rw [Bytes.text?, String.fromUTF8?] at spelled
    split at spelled
    · cases spelled
      rfl
    · cases spelled
  · cases read

theorem exists_eq_append_trim (cs : List Char) :
    ∃ before after, cs = before ++ Text.trim cs ++ after ∧
      (∀ c ∈ before, Text.isBlank c = true) ∧ (∀ c ∈ after, Text.isBlank c = true) := by
  have front := (List.takeWhile_append_dropWhile (p := Text.isBlank) (l := cs)).symm
  have back := (List.takeWhile_append_dropWhile (p := Text.isBlank)
    (l := (cs.dropWhile Text.isBlank).reverse)).symm
  refine ⟨cs.takeWhile Text.isBlank,
    ((cs.dropWhile Text.isBlank).reverse.takeWhile Text.isBlank).reverse, ?_, ?_, ?_⟩
  · rw [List.append_assoc, Text.trim, ← List.reverse_append, ← back, List.reverse_reverse]
    exact front
  · intro c member
    exact List.mem_takeWhile_imp member
  · intro c member
    exact List.mem_takeWhile_imp (List.mem_reverse.mp member)

theorem head_trim {cs : List Char} (some_text : Text.trim cs ≠ []) :
    Text.isBlank ((Text.trim cs).head some_text) = false := by
  have front : Text.trim cs <+: cs.dropWhile Text.isBlank := by
    rw [Text.trim, ← List.reverse_suffix, List.reverse_reverse]
    exact List.dropWhile_suffix Text.isBlank
  rw [front.head some_text]
  exact List.head_dropWhile_not Text.isBlank _

theorem getLast_trim {cs : List Char} (some_text : Text.trim cs ≠ []) :
    Text.isBlank ((Text.trim cs).getLast some_text) = false := by
  simp only [Text.trim, List.getLast_reverse]
  exact List.head_dropWhile_not Text.isBlank _

theorem readAs_answers (line : Bytes) : ReadAs line (answers line) := by
  cases read : Text.Utf8.read line with
  | error fault =>
    rw [answers, read]
    refine .fault ?_ read
    rintro text rfl
    rw [Text.Utf8.read_ofText] at read
    cases read
  | ok text =>
    have spells := ofText_of_read read
    obtain ⟨before, after, whole, blank_before, blank_after⟩ := exists_eq_append_trim text.toList
    rw [answers, read]
    by_cases empty : Text.trim text.toList = []
    · have blank : (Text.trimmed text).isEmpty = true := by simp [Text.trimmed, empty]
      simp only [blank, if_true]
      refine .blank spells ?_
      rw [whole, empty, List.append_nil]
      exact List.forall_mem_append.mpr ⟨blank_before, blank_after⟩
    · have some_left : (Text.trimmed text).isEmpty = false := by simp [Text.trimmed, empty]
      simp only [some_left]
      refine .text ?_ blank_before blank_after empty (head_trim empty) (getLast_trim empty)
      rw [← whole, String.ofList_toList]
      exact spells

theorem ReadAs.no_tooLarge {parts : List (Except Failure String)} (reads : ReadAs line parts)
    (length most : Nat) : .error (.tooLarge length most) ∉ parts := by
  cases reads <;> simp

/-- However a stream without too long lines is cut, each of its lines is read once and on its own,
and what stands behind the last terminator is left. -/
theorem takePieces_eq (pieces : List Bytes) (short : Short limit pieces.flatten)
    (fits : (unended pieces.flatten).length ≤ limit) :
    takePieces limit [] pieces =
        ((ended pieces.flatten).flatMap answers, unended pieces.flatten) ∧
      (∀ line ∈ ended pieces.flatten, ReadAs line (answers line)) ∧
      ∀ length most, .error (.tooLarge length most) ∉ (takePieces limit [] pieces).1 := by
  have taken : takePieces limit [] pieces = _ := takePieces_of_open open_nil short fits
  refine ⟨taken, fun line _ => readAs_answers line, ?_⟩
  intro length most member
  rw [taken] at member
  obtain ⟨line, -, among⟩ := List.mem_flatMap.mp member
  exact (readAs_answers line).no_tooLarge length most among

theorem takePieces_through_character :
    let pieces : List Bytes := [[0xC3], [0xA9, 10, 0xFF], [0, 32, 10, 0x61]]
    Short 3 pieces.flatten ∧ (unended pieces.flatten).length ≤ 3 ∧
      takePieces 3 [] pieces = ([.ok "é", .error (.notText (.malformed 0 1))], [0x61]) := by
  intro pieces
  have short : Short 3 pieces.flatten := by
    unfold Short
    decide +kernel
  have fits : (unended pieces.flatten).length ≤ 3 := by decide +kernel
  obtain ⟨taken, -, -⟩ := takePieces_eq pieces short fits
  refine ⟨short, fits, ?_⟩
  rw [taken]
  decide +kernel

end ScreenPreview.Control.Line
