import ScreenPreview.Proofs.Control.Pieces

/-!
Lines that are longer than the limit.

The limit is looked at only while a terminator is missing, and bytes that were refused stay in the
buffer. So a line that is too long may be refused while it comes, but once its terminator is there
it is taken like any other. However a stream is cut, all its lines are read; the limit and the
cutting make no difference just where nothing is too long (`takePieces_within_limit_iff`).
-/
namespace ScreenPreview.Control.Line

def refusal (limit : Nat) (waiting : Bytes) : List (Except Failure String) :=
  if limit < waiting.length then [.error (.tooLarge waiting.length limit)] else []

/-- What is said of the pieces of a stream, each behind the bytes that wait when it comes. -/
def told (limit : Nat) (waiting : Bytes) : List Bytes → List (Except Failure String)
  | [] => []
  | piece :: pieces =>
    (ended (waiting ++ piece)).flatMap answers ++
      (refusal limit (unended (waiting ++ piece)) ++ told limit (unended (waiting ++ piece)) pieces)

def accepted (said : List (Except Failure String)) : List String :=
  said.filterMap Except.toOption

def textsWithin (limit : Nat) (stream : Bytes) : List String :=
  ((ended stream).filter (·.length ≤ limit)).filterMap reading?

variable {limit : Nat} {line waiting stream : Bytes} {pieces : List Bytes}

/-! ### Reading on behind what is too long -/

theorem refusal_eq_nil_iff : refusal limit waiting = [] ↔ waiting.length ≤ limit := by
  rw [refusal]
  split
  · next long =>
    constructor
    · intro nothing
      cases nothing
    · intro fits
      omega
  · next fits => exact iff_of_true rfl (Nat.not_lt.mp fits)

theorem takeOn_open (limit : Nat) (inside : Open line) :
    takeOn limit line = (refusal limit line, line) := by
  have taken := take_of_open limit inside
  rw [refusal]
  by_cases long : limit < line.length
  · rw [if_pos long] at taken ⊢
    exact takeOn_of_failure taken fun fault same => by cases same
  · rw [if_neg long] at taken ⊢
    exact takeOn_of_none taken

theorem takeOn_eq_answers (limit : Nat) (buffer : Bytes) :
    takeOn limit buffer =
      ((ended buffer).flatMap answers ++ refusal limit (unended buffer), unended buffer) := by
  induction buffer using by_lines with
  | opened line inside =>
    rw [takeOn_open limit inside, ended_of_open inside, unended_of_open inside]
    rfl
  | ended line t rest inside ends ih =>
    rw [takeOn_of_line limit rest inside ends, ih, ended_cons inside ends,
      unended_append_cons line rest ends, List.flatMap_cons, List.append_assoc]

theorem takePieces_eq_told (limit : Nat) (inside : Open waiting) (pieces : List Bytes) :
    takePieces limit waiting pieces =
      (told limit waiting pieces, unended (waiting ++ pieces.flatten)) := by
  induction pieces generalizing waiting with
  | nil =>
    rw [List.flatten_nil, List.append_nil, unended_of_open inside]
    rfl
  | cons piece pieces ih =>
    have left := unended_open (waiting ++ piece)
    rw [List.flatten_cons, ← List.append_assoc, unended_append (waiting ++ piece)]
    simp only [takePieces, takeOn_eq_answers, ih left, told, List.append_assoc]

/-! ### What is accepted -/

theorem accepted_append (early late : List (Except Failure String)) :
    accepted (early ++ late) = accepted early ++ accepted late := List.filterMap_append

theorem accepted_refusal (limit : Nat) (waiting : Bytes) :
    accepted (refusal limit waiting) = [] := by
  rw [refusal]
  split <;> rfl

theorem accepted_answers (line : Bytes) : accepted (answers line) = (reading? line).toList := by
  cases read : Text.Utf8.read line with
  | error fault =>
    rw [answers, reading?, read]
    rfl
  | ok text =>
    by_cases blank : (Text.trimmed text).isEmpty
    · simp [answers, reading?, read, blank, accepted]
    · simp [answers, reading?, read, blank, accepted, Except.toOption]

theorem accepted_flatMap_answers (lines : List Bytes) :
    accepted (lines.flatMap answers) = lines.filterMap reading? := by
  induction lines with
  | nil => rfl
  | cons line lines ih =>
    rw [List.flatMap_cons, accepted_append, accepted_answers, ih, List.filterMap_cons]
    cases reading? line <;> rfl

theorem texts_append (front rest : Bytes) :
    texts (front ++ rest) = texts front ++ texts (unended front ++ rest) := by
  rw [texts, ended_append, List.filterMap_append]
  rfl

theorem accepted_told (limit : Nat) (inside : Open waiting) (pieces : List Bytes) :
    accepted (told limit waiting pieces) = texts (waiting ++ pieces.flatten) := by
  induction pieces generalizing waiting with
  | nil =>
    rw [List.flatten_nil, List.append_nil, texts_of_open inside]
    rfl
  | cons piece pieces ih =>
    have left := unended_open (waiting ++ piece)
    rw [List.flatten_cons, ← List.append_assoc, texts_append (waiting ++ piece), told,
      accepted_append, accepted_append, accepted_refusal, ih left, accepted_flatMap_answers]
    rfl

theorem filterMap_filter_eq_iff {α β : Type} (p : α → Bool) (f : α → Option β) (xs : List α) :
    xs.filterMap f = (xs.filter p).filterMap f ↔ ∀ x ∈ xs, p x = false → f x = none := by
  induction xs with
  | nil => simp
  | cons x xs ih =>
    rw [List.forall_mem_cons, ← ih]
    cases kept : p x with
    | true =>
      rw [List.filter_cons_of_pos kept, List.filterMap_cons, List.filterMap_cons]
      cases f x <;> simp
    | false =>
      rw [List.filter_cons_of_neg (by simp [kept]), List.filterMap_cons]
      cases some_value : f x with
      | none => simp
      | some y =>
        -- One value more on the left cannot be made up for on the right.
        have fewer := (List.filter_sublist (l := xs) (p := p)).filterMap f |>.length_le
        refine iff_of_false ?_ (by simp)
        intro same
        have lengths := congrArg List.length same
        rw [List.length_cons] at lengths
        omega

theorem texts_eq_textsWithin_iff :
    texts stream = textsWithin limit stream ↔
      ∀ line ∈ ended stream, limit < line.length → reading? line = none := by
  rw [texts, textsWithin, filterMap_filter_eq_iff]
  simp

/-! ### What the cutting changes -/

theorem exists_of_mem_ended (member : line ∈ ended stream) :
    ∃ before t after, stream = before ++ (line ++ t :: after) ∧ unended before = [] ∧ Open line ∧
      isTerminator t = true := by
  induction stream using by_lines with
  | opened whole inside =>
    rw [ended_of_open inside] at member
    cases member
  | ended first t rest inside ends ih =>
    rw [ended_cons inside ends] at member
    rcases List.mem_cons.mp member with rfl | later
    · exact ⟨[], t, rest, rfl, unended_of_open open_nil, inside, ends⟩
    · obtain ⟨before, u, after, rfl, cut, line_inside, line_ends⟩ := ih later
      refine ⟨first ++ t :: before, u, after, by simp, ?_, line_inside, line_ends⟩
      rw [unended_append_cons first before ends, cut]

theorem no_refusal_of_fits (fits : (unended stream).length ≤ limit) (length : Nat) :
    .error (.tooLarge length limit) ∉ told limit [] [stream] := by
  simp only [told, List.nil_append, refusal_eq_nil_iff.mpr fits, List.append_nil]
  intro member
  obtain ⟨line, -, among⟩ := List.mem_flatMap.mp member
  exact (readAs_answers line).no_tooLarge length limit among

theorem refused_of_cut {before : Bytes} (cut : unended before = []) (inside : Open line)
    (long : limit < line.length) (t : UInt8) (after : Bytes) :
    .error (.tooLarge line.length limit) ∈ told limit [] [before ++ line, t :: after] := by
  have waits : unended ([] ++ (before ++ line)) = line := by
    rw [List.nil_append, unended_append, cut, List.nil_append, unended_of_open inside]
  simp only [told, waits, refusal, if_pos long]
  apply List.mem_append_right
  exact List.mem_append_left _ List.mem_cons_self

theorem told_of_fits (short : Short limit pieces.flatten)
    (fits : (unended pieces.flatten).length ≤ limit) :
    told limit [] pieces = (ended pieces.flatten).flatMap answers := by
  have whole : takePieces limit [] pieces = _ := takePieces_of_open open_nil short fits
  rw [takePieces_eq_told limit open_nil] at whole
  exact (Prod.mk.inj whole).1

theorem told_same_iff :
    (∀ pieces others, pieces.flatten = stream → others.flatten = stream →
      told limit [] pieces = told limit [] others) ↔
      Short limit stream ∧ (unended stream).length ≤ limit := by
  constructor
  · intro same
    have fits : (unended stream).length ≤ limit := by
      -- Asking once more without a new byte repeats a refusal.
      have again := same [stream] [stream, []] (by simp) (by simp)
      have waits := unended_of_open (unended_open stream)
      simp only [told, List.nil_append, List.append_nil, waits,
        ended_of_open (unended_open stream), List.flatMap_nil, List.append_cancel_left_eq,
        List.self_eq_append_right] at again
      exact refusal_eq_nil_iff.mp again
    refine ⟨?_, fits⟩
    intro line member
    by_contra long
    obtain ⟨before, t, after, rfl, cut, inside, -⟩ := exists_of_mem_ended member
    have refused := refused_of_cut cut inside (Nat.not_le.mp long) t after
    rw [same _ [before ++ (line ++ t :: after)] (by simp) (by simp)] at refused
    exact no_refusal_of_fits fits line.length refused
  · rintro ⟨short, fits⟩ pieces others rfl same
    rw [told_of_fits short fits, ← same]
    rw [← same] at short fits
    rw [told_of_fits short fits]

theorem toBytes_isOk_iff {text : String} :
    (∃ bytes, toBytes limit text = .ok bytes) ↔ (Bytes.ofText text).length ≤ limit := by
  simp only [toBytes]
  split
  · next long =>
    constructor
    · rintro ⟨bytes, written⟩
      cases written
    · intro fits
      omega
  · next fits => exact iff_of_true ⟨_, rfl⟩ (Nat.not_lt.mp fits)

/-- A stream is read line by line, and what waits is refused as often as it is found too long. All
lines are accepted: none of them is too long just if every line that is too long is blank or no
text, and all can be written just if their texts keep the limit. What is said does not depend on the
cutting just if neither a line nor what stands behind the last one is too long. -/
theorem takePieces_within_limit_iff (limit : Nat) (stream : Bytes) :
    (∀ pieces, pieces.flatten = stream →
      takePieces limit [] pieces = (told limit [] pieces, unended stream) ∧
        accepted (takePieces limit [] pieces).1 = texts stream) ∧
    ((∀ pieces, pieces.flatten = stream →
        accepted (takePieces limit [] pieces).1 = textsWithin limit stream) ↔
      ∀ line ∈ ended stream, limit < line.length → reading? line = none) ∧
    ((∀ pieces, pieces.flatten = stream → ∀ text ∈ accepted (takePieces limit [] pieces).1,
        ∃ bytes, toBytes limit text = .ok bytes) ↔
      ∀ line ∈ ended stream, ∀ text, reading? line = some text →
        (Bytes.ofText text).length ≤ limit) ∧
    ((∀ pieces others, pieces.flatten = stream → others.flatten = stream →
        (takePieces limit [] pieces).1 = (takePieces limit [] others).1) ↔
      Short limit stream ∧ (unended stream).length ≤ limit) := by
  have run : ∀ pieces, pieces.flatten = stream →
      takePieces limit [] pieces = (told limit [] pieces, unended stream) ∧
        accepted (takePieces limit [] pieces).1 = texts stream := by
    rintro pieces rfl
    rw [takePieces_eq_told limit open_nil, accepted_told limit open_nil]
    exact ⟨rfl, rfl⟩
  have some_cutting : [stream].flatten = stream := by simp
  refine ⟨run, ?_, ?_, ?_⟩
  · rw [← texts_eq_textsWithin_iff]
    constructor
    · intro within
      rw [← (run [stream] some_cutting).2]
      exact within [stream] some_cutting
    · intro same pieces whole
      rw [(run pieces whole).2]
      exact same
  · simp only [toBytes_isOk_iff]
    constructor
    · intro fits line member text read
      apply fits [stream] some_cutting text
      rw [(run [stream] some_cutting).2]
      exact List.mem_filterMap.mpr ⟨line, member, read⟩
    · intro fits pieces whole text member
      rw [(run pieces whole).2] at member
      obtain ⟨line, among, read⟩ := List.mem_filterMap.mp member
      exact fits line among text read
  · rw [← told_same_iff]
    constructor
    · intro same pieces others whole also_whole
      have equal := same pieces others whole also_whole
      rwa [(run pieces whole).1, (run others also_whole).1] at equal
    · intro same pieces others whole also_whole
      rw [(run pieces whole).1, (run others also_whole).1]
      exact same pieces others whole also_whole

/-- With its terminator a line of six bytes passes a limit of four, which writing keeps; cut before
the terminator it is refused first. -/
theorem overlong_line_accepted :
    let line : Bytes := Bytes.ofText "123456"
    takePieces 4 [] [line ++ [10]] = ([.ok "123456"], []) ∧
      takePieces 4 [] [line, [10]] = ([.error (.tooLarge 6 4), .ok "123456"], []) ∧
      toBytes 4 "123456" = .error (.tooLarge 6 4) := by
  decide +kernel

end ScreenPreview.Control.Line
