import ScreenPreview.Proofs.Control.Sending
import ScreenPreview.Proofs.Json.Sizes

/-!
How long requests and replies are.

A reply has an envelope of a fixed length around the name of the command and the result, and a
refusal repeats texts of the request (`utf8Len_reply`, `utf8Len_refused`). A request is at least as
long as its own envelope and the texts it holds (`le_of_read`), but it holds each of them only once.
-/
namespace ScreenPreview

open Json (escaped weight pairWeight memberWeight)
open String (utf8Len)

theorem Bytes.length_ofText (text : String) : (Bytes.ofText text).length = text.utf8ByteSize := by
  rw [Bytes.ofText, Array.length_toList]
  rfl

namespace Control

/-! ### Replies -/

theorem utf8Len_refused (r : Refusal) : utf8Len (refused r).chars = 12 + escaped r.message := by
  have members : refused r = .object [("error", .text r.message)] := rfl
  have key : escaped "error" = 5 := rfl
  rw [members, Json.chars, Json.memberChars, String.utf8Len_append, String.utf8Len_cons,
    Json.utf8Len_pairChars, Json.chars, Json.utf8Len_quoted, key]
  have braces : Char.utf8Size '\x7b' = 1 ∧ utf8Len ['\x7d'] = 1 := ⟨rfl, rfl⟩
  omega

theorem reply_eq (name : String) (result : Json) : reply name result =
    .object [("command", .text name), ("result", result), ("version", .text currentVersion)] := by
  have first : "command" < "version" := by decide
  have after : ¬ "result" < "command" := by decide
  have other : "result" ≠ "command" := by decide
  have before : "result" < "version" := by decide
  simp only [reply, Json.record, List.foldl, Json.insertMember, if_pos first, if_neg after,
    if_neg other, if_pos before]

theorem utf8Len_reply (name : String) (result : Json) :
    utf8Len (reply name result).chars = 42 + escaped name + utf8Len result.chars := by
  have keys : escaped "command" = 7 ∧ escaped "result" = 6 := ⟨rfl, rfl⟩
  have version : utf8Len (Json.pairChars ("version", .text currentVersion)) = 17 := rfl
  rw [reply_eq, Json.chars]
  simp only [Json.memberChars, String.utf8Len_append, String.utf8Len_cons, String.utf8Len_nil,
    version]
  simp only [Json.utf8Len_pairChars, Json.chars, Json.utf8Len_quoted, keys]
  have signs : Char.utf8Size '\x7b' = 1 ∧ Char.utf8Size ',' = 1 ∧ Char.utf8Size '\x7d' = 1 :=
    ⟨rfl, rfl, rfl⟩
  omega

theorem escaped_badVersion (version : String) :
    escaped (Refusal.badVersion version).message = 25 + escaped version := by
  have text : (Refusal.badVersion version).message = "invalid command version: " ++ version := rfl
  have fixed : escaped "invalid command version: " = 25 := rfl
  rw [text, Json.escaped_append, fixed]

theorem escaped_unknownKind (word : String) :
    escaped (Refusal.unknownKind word).message = 22 + escaped word := by
  have text : (Refusal.unknownKind word).message = "unknown command type: " ++ word := rfl
  have fixed : escaped "unknown command type: " = 22 := rfl
  rw [text, Json.escaped_append, fixed]

theorem escaped_noHandler (kind : Kind) (name : String) :
    escaped (Refusal.noHandler kind name).message = 16 + escaped kind.name + escaped name := by
  have text : (Refusal.noHandler kind name).message =
      "no handler for " ++ kind.name ++ " " ++ name := rfl
  have fixed : escaped "no handler for " = 15 ∧ escaped " " = 1 := ⟨rfl, rfl⟩
  rw [text, Json.escaped_append, Json.escaped_append, Json.escaped_append, fixed.1, fixed.2]
  omega

theorem escaped_failed (reason : String) :
    escaped (Refusal.failed reason).message = 16 + escaped reason := by
  have text : (Refusal.failed reason).message = "handler failed: " ++ reason := rfl
  have fixed : escaped "handler failed: " = 16 := rfl
  rw [text, Json.escaped_append, fixed]

theorem escaped_badArguments (fault : ArgumentFault) :
    escaped (Refusal.badArguments fault).message = 19 + escaped fault.message := by
  have text : (Refusal.badArguments fault).message = "invalid arguments: " ++ fault.message := rfl
  have fixed : escaped "invalid arguments: " = 19 := rfl
  rw [text, Json.escaped_append, fixed]

/-! ### Requests -/

theorem length_versionParts (cs : List Char) :
    ((versionParts cs).map List.length).sum + (versionParts cs).length = cs.length + 1 := by
  induction cs with
  | nil => rfl
  | cons c cs ih =>
    rw [versionParts]
    split
    · simp only [List.map_cons, List.length_nil, List.sum_cons, List.length_cons]
      omega
    · split
      · next none_left =>
        rw [none_left] at ih
        cases ih
      · next part parts found =>
        rw [found] at ih
        simp only [List.map_cons, List.sum_cons, List.length_cons] at ih ⊢
        omega

theorem five_le_of_isVersion {version : String} (valid : isVersion version = true) :
    5 ≤ escaped version := by
  have all := length_versionParts version.toList
  have least := Json.length_le_escaped version
  simp only [isVersion, Bool.and_eq_true, beq_iff_eq, List.all_eq_true] at valid
  obtain ⟨three, digits⟩ := valid
  obtain ⟨major, minor, patch, parts⟩ := List.length_eq_three.mp three
  have one : ∀ part ∈ [major, minor, patch], 1 ≤ part.length := by
    intro part member
    rw [← parts] at member
    have some_digit := (digits part member).1
    cases part with
    | nil => cases some_digit
    | cons c cs => exact Nat.succ_le_succ (Nat.zero_le _)
  have first := one major (by simp)
  have second := one minor (by simp)
  have third := one patch (by simp)
  rw [parts] at all
  simp only [List.map_cons, List.map_nil, List.sum_cons, List.sum_nil, List.length_cons,
    List.length_nil] at all
  omega

theorem Kind.name_of_ofName {word : String} {kind : Kind} (named : Kind.ofName word = .ok kind) :
    kind.name = word := by
  unfold Kind.ofName at named
  split at named
  · next same =>
    cases named
    exact same.symm
  · split at named
    · next same =>
      cases named
      exact same.symm
    · split at named
      · next same =>
        cases named
        exact same.symm
      · cases named

theorem Kind.ofName_error {word : String} {refusal : Refusal}
    (unknown : Kind.ofName word = .error refusal) : refusal = .unknownKind word := by
  unfold Kind.ofName at unknown
  repeat' split at unknown
  any_goals cases unknown
  rfl

namespace Command

theorem textMember_cases (name : String) (ms : List (String × Json)) :
    textMember name (.object ms) = .error (.missingMember name) ∨
      ∃ word, textMember name (.object ms) = .ok word ∧ ms.lookup name = some (.text word) := by
  rw [textMember, Json.member?]
  rcases ms.lookup name with _ | j
  · exact Or.inl rfl
  · cases j with
    | text word => exact Or.inr ⟨word, rfl, rfl⟩
    | _ => exact Or.inl rfl

def fixedRefusals : List Refusal :=
  [.malformed, .notObject, .missingMember "type", .missingMember "command",
    .missingMember "version"]

theorem read_cases (line : String) :
    (∃ refusal ∈ fixedRefusals, Command.read line = .error refusal) ∨
      ∃ ms kind name version, memberWeight ms + 1 ≤ line.utf8ByteSize ∧
        ms.lookup "type" = some (.text kind) ∧ ms.lookup "command" = some (.text name) ∧
        ms.lookup "version" = some (.text version) ∧
        Command.read line =
          if isVersion version then
            (Kind.ofName kind).map (⟨·, name, version, (ms.lookup "args").getD .null⟩)
          else .error (.badVersion version) := by
  rw [Command.read]
  rcases read : Json.read line with _ | j
  · exact Or.inl ⟨.malformed, by simp [fixedRefusals], rfl⟩
  · have paid := Json.weight_le_of_readWithin read
    cases j with
    | object ms =>
      dsimp only
      rcases textMember_cases "type" ms with missing | ⟨kind, kind_there, kind_found⟩
      · refine Or.inl ⟨.missingMember "type", by simp [fixedRefusals], ?_⟩
        simp only [ofJson, missing, bind, Except.bind]
      · rcases textMember_cases "command" ms with missing | ⟨name, name_there, name_found⟩
        · refine Or.inl ⟨.missingMember "command", by simp [fixedRefusals], ?_⟩
          simp only [ofJson, kind_there, missing, bind, Except.bind]
        · rcases textMember_cases "version" ms with missing | ⟨version, there, found⟩
          · refine Or.inl ⟨.missingMember "version", by simp [fixedRefusals], ?_⟩
            simp only [ofJson, kind_there, name_there, missing, bind, Except.bind]
          · refine Or.inr ⟨ms, kind, name, version, paid, kind_found, name_found, found, ?_⟩
            simp only [ofJson, kind_there, name_there, there, bind, Except.bind]
            cases Kind.ofName kind <;> rfl
    | _ => exact Or.inl ⟨.notObject, by simp [fixedRefusals], rfl⟩

theorem escaped_fixedRefusals {refusal : Refusal} (fixed : refusal ∈ fixedRefusals) :
    escaped refusal.message ≤ 43 := by
  revert refusal
  decide

theorem le_of_read {line : String} {c : Command} (read : Command.read line = .ok c) :
    42 + escaped c.kind.name + escaped c.name ≤ line.utf8ByteSize ∧
      (c.args ≠ .null →
        50 + escaped c.kind.name + escaped c.name + weight c.args ≤ line.utf8ByteSize) := by
  rcases read_cases line with ⟨refusal, -, refused⟩ |
    ⟨ms, word, name, version, paid, kind_found, name_found, found, decided⟩
  · rw [read] at refused
    cases refused
  · rw [read] at decided
    split at decided
    · next valid =>
      rcases named : Kind.ofName word with refusal | kind
      · rw [named] at decided
        cases decided
      · rw [named] at decided
        cases decided
        have same := Kind.name_of_ofName named
        have five := five_le_of_isVersion valid
        have keys : escaped "type" = 4 ∧ escaped "command" = 7 ∧ escaped "version" = 7 ∧
            escaped "args" = 4 := ⟨rfl, rfl, rfl, rfl⟩
        constructor
        · have counted := Json.sum_pairWeight_le
            [("type", .text word), ("command", .text name), ("version", .text version)] ms
            (by simp) (by simp [kind_found, name_found, found])
          simp only [List.map_cons, List.map_nil, List.sum_cons, List.sum_nil, pairWeight, weight,
            keys] at counted
          rw [same]
          dsimp only
          omega
        · intro some_given
          obtain ⟨args, args_found⟩ : ∃ args, ms.lookup "args" = some args := by
            cases looked : ms.lookup "args" with
            | some args => exact ⟨args, rfl⟩
            | none =>
              rw [looked] at some_given
              exact absurd rfl some_given
          have counted := Json.sum_pairWeight_le
            [("type", .text word), ("command", .text name), ("version", .text version),
              ("args", args)] ms
            (by simp) (by simp [kind_found, name_found, found, args_found])
          simp only [List.map_cons, List.map_nil, List.sum_cons, List.sum_nil, pairWeight, weight,
            keys] at counted
          rw [same, args_found]
          dsimp only [Option.getD_some]
          omega
    · cases decided

theorem refusal_of_read {line : String} {refusal : Refusal}
    (read : Command.read line = .error refusal) :
    refusal ∈ fixedRefusals ∨
      (∃ version, refusal = .badVersion version ∧ escaped version ≤ line.utf8ByteSize) ∨
      ∃ word, refusal = .unknownKind word ∧ escaped word ≤ line.utf8ByteSize := by
  rcases read_cases line with ⟨other, fixed, refused⟩ |
    ⟨ms, word, name, version, paid, kind_found, -, found, decided⟩
  · rw [read] at refused
    cases refused
    exact Or.inl fixed
  · rw [read] at decided
    split at decided
    · rcases named : Kind.ofName word with unknown | kind
      · rw [named] at decided
        cases decided
        have counted := Json.pairWeight_le_of_lookup kind_found
        rw [pairWeight, weight] at counted
        exact Or.inr (Or.inr ⟨word, Kind.ofName_error named, by omega⟩)
      · rw [named] at decided
        cases decided
    · cases decided
      have counted := Json.pairWeight_le_of_lookup found
      rw [pairWeight, weight] at counted
      exact Or.inr (Or.inl ⟨version, rfl, by omega⟩)

end Command

end Control

end ScreenPreview
