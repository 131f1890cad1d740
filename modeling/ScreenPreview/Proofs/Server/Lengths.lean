import ScreenPreview.Proofs.Control.Lengths
import ScreenPreview.Server.Preview

/-!
How long the answers of the commands are.

Most answers are brief, for they are made of fixed texts and of numbers. A word that names no state
of the screen is told back, and so is the page that the preview holds; these answers are longer than
the text by a fixed number of bytes (`Repeats`, `utf8Len_tellRouter`).
-/
namespace ScreenPreview

open Json (escaped)
open String (utf8Len)

namespace Server.Preview

open Control

/-! ### Answers that repeat nothing -/

def Brief (result : Except Refusal Json) : Prop := utf8Len (payload result).chars ≤ 1000

theorem Brief.fits {result : Except Refusal Json} {front : Nat} (brief : Brief result)
    (short : front ≤ 1000) :
    front + utf8Len (payload result).chars ≤ Control.Line.defaultLimit := by
  have limit : Control.Line.defaultLimit = 65536 := rfl
  rw [Brief] at brief
  omega

theorem brief_done : Brief (.ok done) := by
  unfold Brief
  decide

theorem brief_refusal {refusal : Refusal} (short : escaped refusal.message ≤ 900) :
    Brief (.error refusal) := by
  rw [Brief, payload, utf8Len_refused]
  omega

def Concerns (name : String) (fault : ArgumentFault) : Prop :=
  fault = .missing name ∨ fault = .notInt32 name ∨ fault = .notText name ∨ fault = .negative name

theorem Concerns.brief {name : String} {fault : ArgumentFault} (concerns : Concerns name fault)
    (short : escaped name ≤ 100) : Brief (.error (.badArguments fault)) := by
  have quotes : escaped "missing `" = 9 ∧ escaped "`" = 1 ∧ escaped "` is not an i32" = 15 ∧
      escaped "` is not a string" = 17 ∧ escaped "` must be >= 0" = 14 := ⟨rfl, rfl, rfl, rfl, rfl⟩
  have told : escaped fault.message ≤ 20 + escaped name := by
    rcases concerns with rfl | rfl | rfl | rfl
    · have length : escaped (ArgumentFault.missing name).message = _ :=
        Json.escaped_around "missing `" name "`"
      omega
    · have length : escaped (ArgumentFault.notInt32 name).message = _ :=
        Json.escaped_around "`" name "` is not an i32"
      omega
    · have length : escaped (ArgumentFault.notText name).message = _ :=
        Json.escaped_around "`" name "` is not a string"
      omega
    · have length : escaped (ArgumentFault.negative name).message = _ :=
        Json.escaped_around "`" name "` must be >= 0"
      omega
  refine brief_refusal ?_
  rw [escaped_badArguments]
  omega

theorem int32Arg_error {c : Command} {name : String} {refusal : Refusal}
    (failed : c.int32Arg name = .error refusal) :
    ∃ fault, Concerns name fault ∧ refusal = .badArguments fault := by
  rw [Command.int32Arg, Command.arg] at failed
  rcases found : c.args.member? name with _ | j
  · rw [found] at failed
    cases failed
    exact ⟨.missing name, Or.inl rfl, rfl⟩
  · rw [found] at failed
    dsimp only [bind, Except.bind] at failed
    split at failed
    · cases failed
    · cases failed
      exact ⟨.notInt32 name, Or.inr (Or.inl rfl), rfl⟩

theorem textArg_error {c : Command} {name : String} {refusal : Refusal}
    (failed : c.textArg name = .error refusal) :
    ∃ fault, Concerns name fault ∧ refusal = .badArguments fault := by
  rw [Command.textArg, Command.arg] at failed
  rcases found : c.args.member? name with _ | j
  · rw [found] at failed
    cases failed
    exact ⟨.missing name, Or.inl rfl, rfl⟩
  · rw [found] at failed
    dsimp only [bind, Except.bind] at failed
    split at failed
    · cases failed
    · cases failed
      exact ⟨.notText name, Or.inr (Or.inr (Or.inl rfl)), rfl⟩

theorem textArg_ok {c : Command} {name word : String} (given : c.textArg name = .ok word) :
    c.args.member? name = some (.text word) := by
  rw [Command.textArg, Command.arg] at given
  rcases found : c.args.member? name with _ | j
  · rw [found] at given
    cases given
  · rw [found] at given
    cases j with
    | text s =>
      cases given
      rfl
    | _ => cases given

theorem brief_argument {c : Command} {name : String} {refusal : Refusal}
    (short : escaped name ≤ 100)
    (failed : c.int32Arg name = .error refusal ∨ c.textArg name = .error refusal) :
    Brief (.error refusal) := by
  rcases failed with failed | failed
  · obtain ⟨fault, concerns, rfl⟩ := int32Arg_error failed
    exact concerns.brief short
  · obtain ⟨fault, concerns, rfl⟩ := textArg_error failed
    exact concerns.brief short

/-! ### Sizes -/

theorem length_intChars (n : Int32) : (Json.intChars n.toInt).length ≤ 11 := by
  have least := n.le_toInt
  have most := n.toInt_lt
  have digits : (Nat.toDigits 10 n.toInt.natAbs).length ≤ 10 :=
    (Nat.length_toDigits_le_iff (by decide) (by decide)).mpr (by omega)
  unfold Json.intChars
  split
  · rw [List.length_cons]
    omega
  · omega

theorem escaped_toString (n : Int32) : escaped (toString n.toInt) ≤ 66 := by
  have most := Json.utf8Len_flatMap_le (Json.intChars n.toInt)
  have length := length_intChars n
  rw [escaped, Json.toList_toString]
  omega

theorem escaped_resolution (width height : Int32) :
    escaped (Failure.resolution width height).message ≤ 152 := by
  have text : (Failure.resolution width height).message =
      "invalid resolution " ++ toString width.toInt ++ "x" ++ toString height.toInt := rfl
  have fixed : escaped "invalid resolution " = 19 ∧ escaped "x" = 1 := ⟨rfl, rfl⟩
  have first := escaped_toString width
  have second := escaped_toString height
  rw [text, Json.escaped_append, Json.escaped_append, Json.escaped_append]
  omega

theorem brief_changeSizes (m : Moment) (c : Command) (s : Preview) :
    Brief (changeSizes m c s).1 := by
  rw [changeSizes]
  split
  · next refusal failed =>
    rw [sizes] at failed
    dsimp only [bind, Except.bind] at failed
    rcases width : c.int32Arg "originalWidth" with other | v
    · rw [width] at failed
      cases failed
      exact brief_argument (by decide) (Or.inl width)
    · rcases height : c.int32Arg "originalHeight" with other | u
      · rw [width, height] at failed
        cases failed
        exact brief_argument (by decide) (Or.inl height)
      · rw [width, height] at failed
        cases failed
  · next display compression read =>
    by_cases positive : display.isPositive = true ∧ compression.isPositive = true
    · rw [Screen.Geometry.setSizes_of_positive positive]
      exact brief_done
    · obtain ⟨size, refused⟩ := Screen.Geometry.setSizes_of_short (g := s.feed.geometry) positive
      have short := escaped_resolution size.width size.height
      rw [refused]
      refine brief_refusal ?_
      rw [escaped_failed]
      omega

theorem brief_limitRate (c : Command) (s : Preview) : Brief (limitRate c s).1 := by
  rw [limitRate]
  split
  · next refusal failed =>
    rw [millisecondsArg] at failed
    dsimp only [bind, Except.bind] at failed
    rcases given : c.int32Arg "frequency" with other | n
    · rw [given] at failed
      cases failed
      exact brief_argument (by decide) (Or.inl given)
    · rw [given] at failed
      dsimp only at failed
      split at failed
      · cases failed
        exact Concerns.brief (Or.inr (Or.inr (Or.inr rfl))) (by decide)
      · cases failed
  · exact brief_done

theorem brief_putRouter (c : Command) (s : Preview) : Brief (putRouter c s).1 := by
  rw [putRouter]
  split
  · next refusal failed => exact brief_argument (by decide) (Or.inr failed)
  · exact brief_done

theorem brief_record {ms : List (String × Json)} (few : ms.length ≤ 10)
    (short : ∀ m ∈ ms, escaped m.1 ≤ 20 ∧ utf8Len m.2.chars ≤ 50) : Brief (.ok (.record ms)) := by
  have most : (ms.map fun m => utf8Len (Json.pairChars m) + 1).sum ≤ 74 * ms.length := by
    clear few
    induction ms with
    | nil => exact Nat.le_refl 0
    | cons m ms ih =>
      obtain ⟨first, rest⟩ := List.forall_mem_cons.mp short
      obtain ⟨key, x⟩ := m
      have later := ih rest
      rw [List.map_cons, List.sum_cons, List.length_cons, Json.utf8Len_pairChars]
      dsimp only at first
      omega
  have size := Json.utf8Len_record_le ms
  rw [Brief, payload]
  omega

theorem utf8Len_int_le (n : Int32) : utf8Len (Json.chars (.int n.toInt)) ≤ 50 := by
  have length := length_intChars n
  have most := Json.utf8Len_le (Json.intChars n.toInt)
  rw [Json.chars]
  omega

theorem brief_rotate (m : Moment) (c : Command) (s : Preview) : Brief (rotate m c s).1 := by
  refine brief_record (Nat.le_of_ble_eq_true rfl) ?_
  simp only [List.forall_mem_cons, List.not_mem_nil, false_implies, implies_true, and_true]
  exact ⟨⟨by decide, utf8Len_int_le _⟩, by decide, utf8Len_int_le _⟩

theorem brief_tellScreen (c : Command) (s : Preview) : Brief (tellScreen c s).1 := by
  have flag (b : Bool) : utf8Len (Json.chars (.bool b)) ≤ 50 := by cases b <;> decide
  have word (status : Screen.FoldStatus) : utf8Len (Json.chars (.text status.name)) ≤ 50 := by
    cases status <;> decide
  refine brief_record (Nat.le_refl 10) ?_
  simp only [Screen.Resolution.members, List.forall_mem_cons, List.not_mem_nil, false_implies,
    implies_true, and_true, utf8Len_int_le, flag, word]
  decide

/-! ### Answers that repeat a text -/

/-- The answer is short, or it repeats the text argument of this name and is longer by a fixed
number of bytes. -/
def Repeats (c : Command) (name : String) (more : Nat) (result : Except Refusal Json) : Prop :=
  (Brief result ∧ ∀ word, c.textArg name = .ok word → escaped word ≤ 9) ∨
    ∃ word, c.textArg name = .ok word ∧ utf8Len (payload result).chars = more + escaped word

theorem Repeats.fits {c : Command} {name : String} {more : Nat} {result : Except Refusal Json}
    (repeats : Repeats c name more result) (front : Nat) (all : front + more = 102) :
    front + utf8Len (payload result).chars ≤ Control.Line.defaultLimit ↔
      ∀ word, c.textArg name = .ok word → escaped word ≤ 65434 := by
  have limit : Control.Line.defaultLimit = 65536 := rfl
  rcases repeats with ⟨brief, known⟩ | ⟨word, given, length⟩
  · rw [Brief] at brief
    refine iff_of_true (by omega) ?_
    intro word given
    exact Nat.le_trans (known word given) (by decide)
  · rw [length]
    constructor
    · intro short other same
      rw [given] at same
      cases same
      omega
    · intro short
      have most := short word given
      omega

def TellsBack {α : Type} (more : Nat) (read : String → Except Failure α) : Prop :=
  ∀ word, (escaped word ≤ 9 ∧ ∃ v, read word = .ok v) ∨
    ∃ failure, read word = .error failure ∧ 28 + escaped failure.message = more + escaped word

theorem tellsBack_foldStatus : TellsBack 50 Screen.FoldStatus.ofName := by
  intro word
  have length : escaped (Failure.unknownFoldStatus word).message = _ :=
    Json.escaped_around "unknown fold status `" word "`"
  have quotes : escaped "unknown fold status `" = 21 ∧ escaped "`" = 1 := ⟨rfl, rfl⟩
  unfold Screen.FoldStatus.ofName
  repeat' split
  · next same => exact Or.inl ⟨same ▸ by decide, _, rfl⟩
  · next same => exact Or.inl ⟨same ▸ by decide, _, rfl⟩
  · next same => exact Or.inl ⟨same ▸ by decide, _, rfl⟩
  · exact Or.inr ⟨_, rfl, by omega⟩

theorem tellsBack_loadState : TellsBack 49 Screen.LoadState.ofName := by
  intro word
  have length : escaped (Failure.unknownLoadState word).message = _ :=
    Json.escaped_around "unknown load state `" word "`"
  have quotes : escaped "unknown load state `" = 20 ∧ escaped "`" = 1 := ⟨rfl, rfl⟩
  unfold Screen.LoadState.ofName
  repeat' split
  · next same => exact Or.inl ⟨same ▸ by decide, _, rfl⟩
  · next same => exact Or.inl ⟨same ▸ by decide, _, rfl⟩
  · next same => exact Or.inl ⟨same ▸ by decide, _, rfl⟩
  · exact Or.inr ⟨_, rfl, by omega⟩

variable {α : Type} {c : Command} {name : String} {more : Nat} {read : String → Except Failure α}

theorem wordArg_error {refusal : Refusal} (failed : wordArg c name read = .error refusal) :
    c.textArg name = .error refusal ∨
      ∃ word failure, c.textArg name = .ok word ∧ read word = .error failure ∧
        refusal = .failed failure.message := by
  rw [wordArg] at failed
  rcases given : c.textArg name with other | word
  · rw [given] at failed
    cases failed
    exact Or.inl rfl
  · rw [given] at failed
    dsimp only [bind, Except.bind] at failed
    rcases unknown : read word with failure | v
    · rw [unknown] at failed
      cases failed
      exact Or.inr ⟨word, failure, rfl, unknown, rfl⟩
    · rw [unknown] at failed
      cases failed

theorem wordArg_ok {v : α} (taken : wordArg c name read = .ok v) :
    ∃ word, c.textArg name = .ok word ∧ read word = .ok v := by
  rw [wordArg] at taken
  rcases given : c.textArg name with refusal | word
  · rw [given] at taken
    cases taken
  · rw [given] at taken
    dsimp only [bind, Except.bind] at taken
    rcases known : read word with failure | u
    · rw [known] at taken
      cases taken
    · rw [known] at taken
      cases taken
      exact ⟨word, rfl, known⟩

theorem TellsBack.refused (tells : TellsBack more read) (short : escaped name ≤ 100)
    {refusal : Refusal} (failed : wordArg c name read = .error refusal) :
    Repeats c name more (.error refusal) := by
  rcases wordArg_error failed with missing | ⟨word, failure, given, unknown, rfl⟩
  · refine Or.inl ⟨brief_argument short (Or.inr missing), ?_⟩
    intro word given
    rw [missing] at given
    cases given
  · refine Or.inr ⟨word, given, ?_⟩
    rcases tells word with ⟨-, v, known⟩ | ⟨other, same, length⟩
    · rw [unknown] at known
      cases known
    · rw [unknown] at same
      cases same
      rw [payload, utf8Len_refused, escaped_failed]
      omega

theorem TellsBack.taken (tells : TellsBack more read) {v : α}
    (taken : wordArg c name read = .ok v) {result : Except Refusal Json} (brief : Brief result) :
    Repeats c name more result := by
  obtain ⟨word, given, known⟩ := wordArg_ok taken
  refine Or.inl ⟨brief, ?_⟩
  intro other same
  rw [given] at same
  cases same
  rcases tells word with ⟨few, -⟩ | ⟨failure, unknown, -⟩
  · exact few
  · rw [known] at unknown
    cases unknown

theorem repeats_setFoldStatus (m : Moment) (c : Command) (s : Preview) :
    Repeats c "foldStatus" 50 (setFoldStatus m c s).1 := by
  rw [setFoldStatus]
  split
  · next refusal failed => exact tellsBack_foldStatus.refused (by decide) failed
  · next status taken =>
    split
    · exact tellsBack_foldStatus.taken taken brief_done
    · exact tellsBack_foldStatus.taken taken (brief_refusal (by decide))

theorem repeats_setLoadState (m : Moment) (c : Command) (s : Preview) :
    Repeats c "flag" 49 (setLoadState m c s).1 := by
  rw [setLoadState]
  split
  · next refusal failed => exact tellsBack_loadState.refused (by decide) failed
  · next taken => exact tellsBack_loadState.taken taken brief_done
  · next state taken => exact tellsBack_loadState.taken taken brief_done

theorem utf8Len_tellRouter (c : Command) (s : Preview) :
    utf8Len (payload (tellRouter c s).1).chars = 20 + escaped s.router := by
  have members : payload (tellRouter c s).1 = .object [("CurrentRouter", .text s.router)] := rfl
  have key : escaped "CurrentRouter" = 13 := rfl
  have braces : Char.utf8Size '\x7b' = 1 ∧ utf8Len ['\x7d'] = 1 := ⟨rfl, rfl⟩
  rw [members, Json.chars, Json.memberChars, String.utf8Len_append, String.utf8Len_cons,
    Json.utf8Len_pairChars, Json.chars, Json.utf8Len_quoted, key]
  omega

end Server.Preview

end ScreenPreview
