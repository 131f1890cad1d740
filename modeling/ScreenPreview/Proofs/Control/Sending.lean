import ScreenPreview.Control.Registry
import ScreenPreview.Proofs.Control.Segments
import ScreenPreview.Proofs.Json.Printed

/-!
Texts that are sent as lines.

A line is written as it is given, whatever stands in it, and only its length is looked at. Replies
and commands come back as the lines they are because each of them is a written JSON object: it holds
no control character, hence no terminator, and braces at both ends leave nothing to trim
(`process_and_render_oneLine`).
-/
namespace ScreenPreview.Control

/-- The text holds no terminator, is neither blank nor changed by trimming, and is read back as one
line, with nothing left, wherever it is not too long. -/
structure OneLine (text : String) : Prop where
  inside : Line.Open (Bytes.ofText text)
  some_text : ∃ c ∈ text.toList, Text.isBlank c = false
  trimmed : Text.trimmed text = text
  comes_back : ∀ limit, (Bytes.ofText text).length ≤ limit →
    ∃ sent, Line.toBytes limit text = .ok sent ∧ sent = Bytes.ofText text ++ [0] ∧
      Line.take limit sent = (.ok (some text), []) ∧ Line.takeAll limit sent = ([text], [])

theorem toBytes_of_fits {limit : Nat} {text : String} (fits : (Bytes.ofText text).length ≤ limit) :
    Line.toBytes limit text = .ok (Bytes.ofText text ++ [0]) := by
  simp only [Line.toBytes]
  rw [if_neg (Nat.not_lt.mpr fits)]

theorem takeAll_nil (limit : Nat) : Line.takeAll limit [] = ([], []) := by
  have taken := Line.take_of_open limit Line.open_nil
  rw [List.length_nil, if_neg (Nat.not_lt_zero limit)] at taken
  exact Line.takeAll_of_none taken

theorem oneLine_of_trimmed {text : String} (inside : Line.Open (Bytes.ofText text))
    (some_text : ∃ c ∈ text.toList, Text.isBlank c = false) (trimmed : Text.trimmed text = text) :
    OneLine text := by
  refine ⟨inside, some_text, trimmed, ?_⟩
  intro limit fits
  have not_empty : text.isEmpty = false := by
    obtain ⟨c, member, -⟩ := some_text
    rw [Bool.eq_false_iff]
    intro empty
    rw [String.isEmpty_iff.mp empty] at member
    cases member
  have taken : Line.take limit (Bytes.ofText text ++ [0]) = (.ok (some text), []) := by
    have read := Line.take_of_line limit [] inside (t := 0) rfl
    rw [Text.Utf8.read_ofText] at read
    simp only [trimmed, not_empty] at read
    exact read
  refine ⟨_, toBytes_of_fits fits, rfl, taken, ?_⟩
  rw [Line.takeAll_of_some taken, takeAll_nil]

theorem open_of_printed {cs : List Char} (printed : Json.Printed cs) :
    Line.Open (Bytes.ofText (String.ofList cs)) := by
  intro b member
  have least := printed.bytes b member
  rw [UInt8.le_iff_toNat_le] at least
  simp only [Line.isTerminator, Bool.or_eq_false_iff, beq_eq_false_iff_ne]
  constructor
  · rintro rfl
    revert least
    decide
  · rintro rfl
    revert least
    decide

theorem trim_braces (cs : List Char) :
    Text.trim ('\x7b' :: cs ++ ['\x7d']) = '\x7b' :: cs ++ ['\x7d'] := by
  have opens : Text.isBlank '\x7b' = false := by decide
  have closes : Text.isBlank '\x7d' = false := by decide
  simp [Text.trim, opens, closes]

theorem oneLine_object (members : List (String × Json)) : OneLine (Json.object members).render := by
  have chars : (Json.object members).chars = '\x7b' :: Json.memberChars members ++ ['\x7d'] := rfl
  refine oneLine_of_trimmed (open_of_printed (Json.printed_chars _)) ?_ ?_
  · rw [Json.render, String.toList_ofList, chars]
    exact ⟨'\x7b', List.mem_cons_self, by decide⟩
  · rw [Text.trimmed, Json.render, String.toList_ofList, chars, trim_braces]

def payload : Except Refusal Json → Json
  | .ok result => result
  | .error refusal => refused refusal

variable {σ : Type} {r : Registry σ} {mode : Screen.Mode} {s : σ}

theorem dispatch_cases (r : Registry σ) (c : Command) (mode : Screen.Mode) (s : σ) :
    (r.dispatch c mode s).1 = .ok none ∨
      (r.handler? c.kind c.name = none ∧
        (r.dispatch c mode s).1 = .error (.noHandler c.kind c.name)) ∨
      ∃ h, r.handler? c.kind c.name = some h ∧ (r.dispatch c mode s).1 = (h c s).1.map some := by
  rw [Registry.dispatch]
  split
  · exact Or.inl rfl
  · cases r.handler? c.kind c.name with
    | none => exact Or.inr (Or.inl ⟨rfl, rfl⟩)
    | some h => exact Or.inr (Or.inr ⟨h, rfl, rfl⟩)

theorem process_cases {line text : String} (answered : (r.process line mode s).1 = some text) :
    (∃ refusal, Command.read line = .error refusal ∧
      text = (reply "" (refused refusal)).render) ∨
    ∃ c, Command.read line = .ok c ∧
      ((r.handler? c.kind c.name = none ∧
        text = (reply c.name (refused (.noHandler c.kind c.name))).render) ∨
      ∃ h, r.handler? c.kind c.name = some h ∧
        text = (reply c.name (payload (h c s).1)).render) := by
  rw [Registry.process] at answered
  cases read : Command.read line with
  | error refusal =>
    rw [read] at answered
    exact Or.inl ⟨refusal, rfl, (Option.some.inj answered).symm⟩
  | ok c =>
    rw [read] at answered
    dsimp only at answered
    refine Or.inr ⟨c, rfl, ?_⟩
    have told := dispatch_cases r c mode s
    rcases dispatched : r.dispatch c mode s with ⟨outcome, left⟩
    rw [dispatched] at answered told
    rcases told with dropped | ⟨unknown, refused⟩ | ⟨h, found, handled⟩
    · cases dropped
      cases answered
    · cases refused
      exact Or.inl ⟨unknown, (Option.some.inj answered).symm⟩
    · refine Or.inr ⟨h, found, ?_⟩
      cases result : (h c s).1 with
      | error refusal =>
        rw [result] at handled
        cases handled
        exact (Option.some.inj answered).symm
      | ok value =>
        rw [result] at handled
        cases handled
        exact (Option.some.inj answered).symm

theorem exists_reply_of_process {line text : String}
    (answered : (r.process line mode s).1 = some text) :
    ∃ name result, text = (reply name result).render := by
  rcases process_cases answered with ⟨refusal, -, same⟩ | ⟨c, -, ⟨-, same⟩ | ⟨h, -, same⟩⟩
  · exact ⟨_, _, same⟩
  · exact ⟨_, _, same⟩
  · exact ⟨_, _, same⟩

/-- Whatever the handlers answer, and whatever stands in a command, what is sent is one line. -/
theorem process_and_render_oneLine (r : Registry σ) (line : String) (mode : Screen.Mode) (s : σ) :
    (∀ text, (r.process line mode s).1 = some text → OneLine text) ∧
      ∀ c : Command, OneLine c.render := by
  constructor
  · intro text answered
    obtain ⟨name, result, rfl⟩ := exists_reply_of_process answered
    exact oneLine_object _
  · intro c
    exact oneLine_object _

end ScreenPreview.Control
