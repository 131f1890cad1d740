import ScreenPreview.Proofs.Control.Lengths
import ScreenPreview.Proofs.Json.Reading

/-!
Which lines are commands.

A line is a command exactly if it spells an object with three texts and a version of three runs of
digits, whose type is one of three words. A line that is none is refused for the first of seven
causes, and each cause has words of its own (`read_iff`). The text must have a value: it nests at
most 127 deep, and the reader has a double for each of its numbers, which is not so for all numbers
in the range of doubles (`grammatical_lines_refused`).
-/
namespace ScreenPreview.Control

open Json (Tree Spells Digits last textOf?)

/-! ### Versions -/

def IsVersion (version : String) : Prop :=
  ∃ major minor patch, Digits major ∧ Digits minor ∧ Digits patch ∧
    version.toList = major ++ '.' :: (minor ++ '.' :: patch)

theorem versionParts_of_no_point {part : List Char} (no_point : '.' ∉ part) :
    versionParts part = [part] := by
  induction part with
  | nil => rfl
  | cons c part ih =>
    obtain ⟨other, rest⟩ := not_or.mp (mt List.mem_cons.mpr no_point)
    rw [versionParts, if_neg (Ne.symm other), ih rest]

theorem versionParts_append {part : List Char} (no_point : '.' ∉ part) (rest : List Char) :
    versionParts (part ++ '.' :: rest) = part :: versionParts rest := by
  induction part with
  | nil => rw [List.nil_append, versionParts, if_pos rfl]
  | cons c part ih =>
    obtain ⟨other, inside⟩ := not_or.mp (mt List.mem_cons.mpr no_point)
    rw [List.cons_append, versionParts, if_neg (Ne.symm other), ih inside]

theorem versionParts_ne_nil (cs : List Char) : versionParts cs ≠ [] := by
  intro none_left
  have counted := length_versionParts cs
  rw [none_left] at counted
  cases counted

theorem eq_of_versionParts {cs part : List Char} {parts : List (List Char)}
    (split : versionParts cs = part :: parts) :
    (parts = [] ∧ cs = part) ∨ ∃ rest, cs = part ++ '.' :: rest ∧ versionParts rest = parts := by
  induction cs generalizing part with
  | nil =>
    cases split
    exact Or.inl ⟨rfl, rfl⟩
  | cons c cs ih =>
    rw [versionParts] at split
    split at split
    · next point =>
      cases split
      exact Or.inr ⟨cs, by rw [point, List.nil_append], rfl⟩
    · split at split
      · next none_left => exact absurd none_left (versionParts_ne_nil cs)
      · next first others found =>
        cases split
        rcases ih found with ⟨rfl, rfl⟩ | ⟨rest, rfl, same⟩
        · exact Or.inl ⟨rfl, rfl⟩
        · exact Or.inr ⟨rest, rfl, same⟩

theorem digits_iff {part : List Char} :
    (!part.isEmpty && part.all Char.isDigit) = true ↔ Digits part := by
  simp [Digits]

theorem no_point_of_digits {part : List Char} (digits : Digits part) : '.' ∉ part := by
  intro point
  cases digits.2 '.' point

theorem isVersion_iff {version : String} : isVersion version = true ↔ IsVersion version := by
  rw [isVersion, Bool.and_eq_true, beq_iff_eq, List.all_eq_true]
  constructor
  · rintro ⟨three, valid⟩
    obtain ⟨major, minor, patch, parts⟩ := List.length_eq_three.mp three
    rw [parts] at valid
    simp only [digits_iff, List.forall_mem_cons] at valid
    obtain ⟨first, second, third, -⟩ := valid
    rcases eq_of_versionParts parts with ⟨⟨⟩, -⟩ | ⟨behind, whole, parts_behind⟩
    rcases eq_of_versionParts parts_behind with ⟨⟨⟩, -⟩ | ⟨last, rfl, parts_last⟩
    rcases eq_of_versionParts parts_last with ⟨-, rfl⟩ | ⟨more, -, no_parts⟩
    · exact ⟨major, minor, last, first, second, third, whole⟩
    · exact absurd no_parts (versionParts_ne_nil more)
  · rintro ⟨major, minor, patch, first, second, third, whole⟩
    rw [whole, versionParts_append (no_point_of_digits first),
      versionParts_append (no_point_of_digits second),
      versionParts_of_no_point (no_point_of_digits third)]
    simp only [digits_iff, List.forall_mem_cons]
    exact ⟨rfl, first, second, third, by simp⟩

/-! ### Causes -/

inductive Cause where
  | json
  | object
  | type
  | command
  | version
  | grammar
  | kind
  deriving DecidableEq

namespace Cause

def refusal (word : String) : Cause → Refusal
  | json => .malformed
  | object => .notObject
  | type => .missingMember "type"
  | command => .missingMember "command"
  | version => .missingMember "version"
  | grammar => .badVersion word
  | kind => .unknownKind word

def ofMessage (message : String) : Option Cause :=
  match message.toList.head? with
  | some 'f' => some json
  | some 'i' => some grammar
  | some 'u' => some kind
  | _ => [object, type, command, version].find? fun cause => (cause.refusal "").message == message

theorem ofMessage_refusal (cause : Cause) (word : String) :
    ofMessage (cause.refusal word).message = some cause := by
  cases cause with
  | grammar =>
    have text : (grammar.refusal word).message = "invalid command version: " ++ word := rfl
    rw [text, ofMessage, String.toList_append]
    rfl
  | kind =>
    have text : (kind.refusal word).message = "unknown command type: " ++ word := rfl
    rw [text, ofMessage, String.toList_append]
    rfl
  | _ =>
    rw [refusal]
    decide

end Cause

/-! ### Lines -/

def Spelled (line : String) (t : Tree) (j : Json) : Prop :=
  Spells line.toList t ∧ t.value? Json.depthLimit = some j

def Lists (line : String) (ms : List (String × Tree)) : Prop := ∃ j, Spelled line (.object ms) j

/-- The line is this command. -/
structure Holds (line : String) (c : Command) (ms : List (String × Tree)) : Prop where
  lists : Lists line ms
  typed : textOf? "type" ms = some c.kind.name
  named : textOf? "command" ms = some c.name
  versioned : textOf? "version" ms = some c.version
  grammar : IsVersion c.version
  args : (last "args" ms = none ∧ c.args = .null) ∨
    ∃ t, last "args" ms = some t ∧ t.value? (Json.depthLimit - 1) = some c.args

/-- The line is no command, and this is the first cause, with the word that is at fault. -/
inductive Fails (line : String) : Cause → String → Prop
  | json (no_value : ∀ t j, ¬ Spelled line t j) : Fails line .json ""
  | object {t : Tree} {j : Json} (spelled : Spelled line t j) (no_object : ∀ ms, t ≠ .object ms) :
    Fails line .object ""
  | type {ms : List (String × Tree)} (lists : Lists line ms)
    (absent : textOf? "type" ms = none) : Fails line .type ""
  | command {ms : List (String × Tree)} {kind : String} (lists : Lists line ms)
    (typed : textOf? "type" ms = some kind) (absent : textOf? "command" ms = none) :
    Fails line .command ""
  | version {ms : List (String × Tree)} {kind name : String} (lists : Lists line ms)
    (typed : textOf? "type" ms = some kind) (named : textOf? "command" ms = some name)
    (absent : textOf? "version" ms = none) : Fails line .version ""
  | grammar {ms : List (String × Tree)} {kind name version : String} (lists : Lists line ms)
    (typed : textOf? "type" ms = some kind) (named : textOf? "command" ms = some name)
    (versioned : textOf? "version" ms = some version) (bad : ¬ IsVersion version) :
    Fails line .grammar version
  | kind {ms : List (String × Tree)} {kind name version : String} (lists : Lists line ms)
    (typed : textOf? "type" ms = some kind) (named : textOf? "command" ms = some name)
    (versioned : textOf? "version" ms = some version) (good : IsVersion version)
    (unknown : ∀ k : Kind, k.name ≠ kind) : Fails line .kind kind

variable {line : String} {c : Command} {t : Tree} {j : Json} {ms : List (String × Tree)}

theorem read_of_spelled (spelled : Spelled line t j) : Command.read line = Command.ofJson j := by
  rw [Command.read, Json.read, Json.readWithin_eq_some_iff.mpr ⟨t, spelled⟩]

theorem read_of_no_object (spelled : Spelled line t j) (no_object : ∀ ms, t ≠ .object ms) :
    Command.read line = .error .notObject := by
  rw [read_of_spelled spelled]
  cases j with
  | object js =>
    obtain ⟨ms, same⟩ := (Json.kind_of_value spelled.2).2 ⟨js, rfl⟩
    exact absurd same (no_object ms)
  | _ => rfl

theorem textMember_eq (spelled : Spelled line (.object ms) j) (key : String) :
    Command.textMember key j =
      match textOf? key ms with
      | some s => .ok s
      | none => .error (.missingMember key) := by
  have member : (j.member? key).bind Json.text? = textOf? key ms := by
    rcases Json.member?_of_value spelled.2 key with ⟨absent, left⟩ | ⟨t, x, there, value, left⟩
    · rw [textOf?, absent, left]
      rfl
    · rw [textOf?, there, left]
      exact (Json.kind_of_value value).1
  change (match (j.member? key).bind Json.text? with
    | some s => Except.ok s
    | none => .error (Refusal.missingMember key)) = _
  rw [member]

theorem read_of_object (spelled : Spelled line (.object ms) j) : Command.read line =
    match textOf? "type" ms, textOf? "command" ms, textOf? "version" ms with
    | none, _, _ => .error (.missingMember "type")
    | some _, none, _ => .error (.missingMember "command")
    | some _, some _, none => .error (.missingMember "version")
    | some kind, some name, some version =>
      if isVersion version then
        (Kind.ofName kind).map (⟨·, name, version, (j.member? "args").getD .null⟩)
      else .error (.badVersion version) := by
  rw [read_of_spelled spelled]
  have kind := textMember_eq spelled "type"
  have name := textMember_eq spelled "command"
  have version := textMember_eq spelled "version"
  obtain ⟨js, -, rfl⟩ := Option.map_eq_some_iff.mp spelled.2
  rw [Json.record_eq] at kind name version ⊢
  rw [Command.ofJson, kind, name, version]
  cases textOf? "type" ms with
  | none => rfl
  | some kind =>
    cases textOf? "command" ms with
    | none => rfl
    | some name =>
      cases textOf? "version" ms with
      | none => rfl
      | some version =>
        dsimp only [bind, Except.bind]
        cases isVersion version with
        | false => rfl
        | true => cases Kind.ofName kind <;> rfl

theorem args_eq (spelled : Spelled line (.object ms) j) {args : Json} :
    (j.member? "args").getD .null = args ↔ (last "args" ms = none ∧ args = .null) ∨
      ∃ t, last "args" ms = some t ∧ t.value? (Json.depthLimit - 1) = some args := by
  rcases Json.member?_of_value spelled.2 "args" with ⟨absent, left⟩ | ⟨t, x, there, value, left⟩
  · simp [absent, left, eq_comm]
  · have behind : t.value? (Json.depthLimit - 1) = some x := value
    simp [there, left, behind]

theorem Holds.read (holds : Holds line c ms) : Command.read line = .ok c := by
  obtain ⟨j, spelled⟩ := holds.lists
  rw [read_of_object spelled, holds.typed, holds.named, holds.versioned]
  dsimp only
  rw [if_pos (isVersion_iff.mpr holds.grammar), Kind.ofName_name,
    (args_eq spelled).mpr holds.args]
  rfl

theorem ofName_of_unknown {word : String} (unknown : ∀ k : Kind, k.name ≠ word) :
    Kind.ofName word = .error (.unknownKind word) := by
  cases named : Kind.ofName word with
  | ok kind => exact absurd (Kind.name_of_ofName named) (unknown kind)
  | error refusal => rw [Kind.ofName_error named]

theorem Fails.read {cause : Cause} {word : String} (fails : Fails line cause word) :
    Command.read line = .error (cause.refusal word) := by
  cases fails with
  | json no_value =>
    rw [Command.read]
    cases taken : Json.read line with
    | none => rfl
    | some j =>
      obtain ⟨t, spelled⟩ := Json.readWithin_eq_some_iff.mp taken
      exact absurd spelled (no_value t j)
  | object spelled no_object => exact read_of_no_object spelled no_object
  | type lists absent =>
    obtain ⟨j, spelled⟩ := lists
    rw [read_of_object spelled, absent]
    rfl
  | command lists typed absent =>
    obtain ⟨j, spelled⟩ := lists
    rw [read_of_object spelled, typed, absent]
    rfl
  | version lists typed named absent =>
    obtain ⟨j, spelled⟩ := lists
    rw [read_of_object spelled, typed, named, absent]
    rfl
  | grammar lists typed named versioned bad =>
    obtain ⟨j, spelled⟩ := lists
    rw [read_of_object spelled, typed, named, versioned]
    exact if_neg (mt isVersion_iff.mp bad)
  | kind lists typed named versioned good unknown =>
    obtain ⟨j, spelled⟩ := lists
    rw [read_of_object spelled, typed, named, versioned]
    dsimp only
    rw [if_pos (isVersion_iff.mpr good), ofName_of_unknown unknown]
    rfl

/-- The checks one after the other: the first that fails is the cause. -/
theorem holds_or_fails (line : String) :
    (∃ c ms, Holds line c ms) ∨ ∃ cause word, Fails line cause word := by
  by_cases valued : ∃ t j, Spelled line t j
  case neg => exact Or.inr ⟨_, _, .json fun t j spelled => valued ⟨t, j, spelled⟩⟩
  obtain ⟨t, j, spelled⟩ := valued
  by_cases opened : ∃ ms, t = .object ms
  case neg => exact Or.inr ⟨_, _, .object spelled fun ms same => opened ⟨ms, same⟩⟩
  obtain ⟨ms, rfl⟩ := opened
  have lists : Lists line ms := ⟨j, spelled⟩
  cases typed : textOf? "type" ms with
  | none => exact Or.inr ⟨_, _, .type lists typed⟩
  | some kind =>
    cases named : textOf? "command" ms with
    | none => exact Or.inr ⟨_, _, .command lists typed named⟩
    | some name =>
      cases versioned : textOf? "version" ms with
      | none => exact Or.inr ⟨_, _, .version lists typed named versioned⟩
      | some version =>
        by_cases good : IsVersion version
        case neg => exact Or.inr ⟨_, _, .grammar lists typed named versioned good⟩
        by_cases known : ∃ k : Kind, k.name = kind
        case neg =>
          exact Or.inr ⟨_, _, .kind lists typed named versioned good (not_exists.mp known)⟩
        obtain ⟨k, rfl⟩ := known
        exact Or.inl ⟨⟨k, name, version, (j.member? "args").getD .null⟩, ms,
          lists, typed, named, versioned, good, (args_eq spelled).mp rfl⟩

/-- For every line: it is read as a command exactly if it is that command, and refused exactly for
the first cause that it is none. Two causes never have a message in common. -/
theorem read_iff (line : String) :
    (∀ c, Command.read line = .ok c ↔ ∃ ms, Holds line c ms) ∧
    (∀ refusal, Command.read line = .error refusal ↔
      ∃ cause word, Fails line cause word ∧ refusal = cause.refusal word) ∧
    ∀ a b : Cause, ∀ v w, (a.refusal v).message = (b.refusal w).message → a = b := by
  refine ⟨fun c => ⟨?_, ?_⟩, fun refusal => ⟨?_, ?_⟩, ?_⟩
  · intro read
    rcases holds_or_fails line with ⟨d, ms, holds⟩ | ⟨cause, word, fails⟩
    · cases read.symm.trans holds.read
      exact ⟨ms, holds⟩
    · cases read.symm.trans fails.read
  · rintro ⟨ms, holds⟩
    exact holds.read
  · intro read
    rcases holds_or_fails line with ⟨d, ms, holds⟩ | ⟨cause, word, fails⟩
    · cases read.symm.trans holds.read
    · exact ⟨cause, word, fails, Except.error.inj (read.symm.trans fails.read)⟩
  · rintro ⟨cause, word, fails, rfl⟩
    exact fails.read
  · intro a b v w same
    have told := Cause.ofMessage_refusal a v
    rw [same, Cause.ofMessage_refusal] at told
    exact (Option.some.inj told).symm

/-! ### Lines without a value -/

/-- What the grammar asks of a command. Whether its tree has a value is left open. -/
structure Grammatical (line : String) (ms : List (String × Tree)) : Prop where
  spells : Spells line.toList (.object ms)
  typed : ∃ kind : Kind, textOf? "type" ms = some kind.name
  named : ∃ name, textOf? "command" ms = some name
  versioned : ∃ version, textOf? "version" ms = some version ∧ IsVersion version

def nestedLists : Nat → List Char × Tree
  | 0 => (['[', ']'], .list [])
  | n + 1 => ('[' :: ((nestedLists n).1 ++ [']']), .list [(nestedLists n).2])

theorem spells_nested (n : Nat) : Spells (nestedLists n).1 (nestedLists n).2 := by
  induction n with
  | zero => exact .emptyList Json.blank_nil
  | succ n ih =>
    have each : ∀ p ∈ [nestedLists n], Spells p.1 p.2 := List.forall_mem_singleton.mpr ih
    exact .list (List.cons_ne_nil _ _) each

def isPlain (s : String) : Bool :=
  s.toList.all fun c => c != '\x22' && c != '\x5c' && decide (' ' ≤ c)

theorem quotes_of_isPlain {s : String} (plain : isPlain s = true) :
    Json.Quotes s.toList s.toList := by
  rw [isPlain] at plain
  generalize s.toList = cs at plain ⊢
  induction cs with
  | nil => exact .nil
  | cons c cs ih =>
    simp only [List.all_cons, Bool.and_eq_true, bne_iff_ne, decide_eq_true_eq] at plain
    obtain ⟨⟨⟨no_quote, no_backslash⟩, printed⟩, others⟩ := plain
    exact .plain no_quote no_backslash printed (ih others)

def writtenText (s : String) : List Char × Tree := ('\x22' :: (s.toList ++ ['\x22']), .text s)

theorem spells_writtenText {s : String} (plain : isPlain s = true) :
    Spells (writtenText s).1 (writtenText s).2 := by
  have spells := Spells.text (quotes_of_isPlain plain)
  rwa [String.ofList_toList] at spells

def writtenMember (key : String) (value : List Char × Tree) : Json.Member :=
  ⟨[], key.toList, [], value.1, key.toList, value.2⟩

theorem wellFormed_writtenMember {key : String} (plain : isPlain key = true)
    (value : List Char × Tree) : (writtenMember key value).WellFormed :=
  ⟨Json.blank_nil, Json.blank_nil, quotes_of_isPlain plain⟩

def writtenCommand (args : List Char × Tree) : List Json.Member :=
  [writtenMember "args" args, writtenMember "type" (writtenText "get"),
    writtenMember "command" (writtenText "A"), writtenMember "version" (writtenText "1.0.0")]

def writtenLine (args : List Char × Tree) : String :=
  String.ofList ('\x7b' :: (Json.joined ((writtenCommand args).map Json.Member.chars) ++ ['\x7d']))

theorem grammatical_written {args : List Char × Tree} (spells : Spells args.1 args.2) :
    Grammatical (writtenLine args) ((writtenCommand args).map Json.Member.entry) := by
  have keys : ∀ m ∈ writtenCommand args, m.WellFormed := by
    simp only [writtenCommand, List.forall_mem_cons]
    exact ⟨wellFormed_writtenMember rfl _, wellFormed_writtenMember rfl _,
      wellFormed_writtenMember rfl _, wellFormed_writtenMember rfl _, by simp⟩
  have values : ∀ m ∈ writtenCommand args, Spells m.spelled m.value := by
    simp only [writtenCommand, List.forall_mem_cons]
    exact ⟨spells, spells_writtenText rfl, spells_writtenText rfl,
      spells_writtenText rfl, by simp⟩
  refine ⟨?_, ⟨.get, rfl⟩, ⟨"A", rfl⟩, ⟨"1.0.0", rfl, isVersion_iff.mp (by decide)⟩⟩
  rw [writtenLine, String.toList_ofList]
  exact .object (List.cons_ne_nil _ _) keys values

theorem read_writtenLine {args : List Char × Tree}
    (refused : ∀ tail, Json.value 126 (args.1 ++ ',' :: tail) = none) :
    Command.read (writtenLine args) = .error .malformed := by
  let first := writtenMember "args" args
  obtain ⟨tail, whole⟩ : ∃ tail,
      (writtenLine args).toList = '\x7b' :: (first.chars ++ ',' :: tail) := by
    rw [writtenLine, String.toList_ofList, writtenCommand, List.map_cons,
      Json.joined_cons (by simp), List.append_assoc]
    exact ⟨_, rfl⟩
  have wellFormed : first.WellFormed := wellFormed_writtenMember rfl _
  have none_left : Json.value 126 (first.spelled ++ ',' :: tail) = none := refused tail
  have none_taken : Json.members (Json.value 126) (first.chars ++ ',' :: tail).length []
      (first.chars ++ ',' :: tail) = none := Json.members_refused wellFormed none_left
  obtain ⟨cs, opens⟩ : ∃ cs, first.chars ++ ',' :: tail = '\x22' :: cs := ⟨_, rfl⟩
  rw [Command.read, Json.read, Json.readWithin, whole, Json.depthLimit, Json.value,
    Json.skip_cons (by decide)]
  rw [opens] at none_taken ⊢
  simp only [Json.skip_cons (show Json.isSpace '\x22' = false by decide)]
  rw [none_taken]
  rfl

theorem value_nested {depth n : Nat} (deep : depth ≤ n) (rest : List Char) :
    Json.value depth ((nestedLists n).1 ++ rest) = none := by
  induction n generalizing depth rest with
  | zero =>
    obtain rfl := Nat.le_zero.mp deep
    rfl
  | succ n ih =>
    cases depth with
    | zero => rfl
    | succ depth =>
      have inside := ih (Nat.le_of_succ_le_succ deep) (']' :: rest)
      obtain ⟨cs, opens⟩ : ∃ cs, (nestedLists n).1 = '[' :: cs := by cases n <;> exact ⟨_, rfl⟩
      have whole : (nestedLists (n + 1)).1 ++ rest = '[' :: ((nestedLists n).1 ++ ']' :: rest) := by
        simp [nestedLists]
      have skipped : Json.skip ((nestedLists n).1 ++ ']' :: rest) = '[' :: (cs ++ ']' :: rest) := by
        rw [opens, List.cons_append, Json.skip_cons (by decide)]
      rw [whole, Json.value, Json.skip_cons (by decide)]
      simp only [skipped]
      rw [Json.items_none inside]
      rfl

def scaledNumeral (whole exponent : List Char) : Json.Numeral :=
  ⟨false, whole, none, some ⟨'e', none, exponent⟩⟩

theorem scaledNumeral_wellFormed {whole exponent : List Char} (digits : Digits whole)
    (leading : whole.head? = some '0' → whole = ['0']) (power : Digits exponent) :
    (scaledNumeral whole exponent).WellFormed where
  whole := digits
  leading := leading
  fraction := by simp [scaledNumeral]
  exponent := by
    rintro e ⟨⟩
    exact ⟨Or.inl rfl, by simp, power⟩

def hugeNumeral : Json.Numeral := scaledNumeral ['1'] ['9', '9', '9']

/-- It is below the greatest double, but the product in doubles is infinite. -/
def closeNumeral : Json.Numeral := scaledNumeral "17976931348623157000".toList ['2', '8', '9']

theorem hugeNumeral_wellFormed : hugeNumeral.WellFormed :=
  scaledNumeral_wellFormed (by simp [Digits]) (by decide) (by simp [Digits])

theorem closeNumeral_wellFormed : closeNumeral.WellFormed :=
  scaledNumeral_wellFormed ⟨by decide, List.all_eq_true.mp (by decide)⟩ (by decide)
    (by simp [Digits])

theorem value_of_no_double {n : Json.Numeral} (wellFormed : n.WellFormed)
    (no_double : n.value?.isNone = true) (rest : List Char) :
    Json.value 126 (n.chars ++ ',' :: rest) = none := by
  obtain ⟨c, cs, whole, opens⟩ := Json.exists_numeral wellFormed
  have read := Json.number_eq wellFormed (Json.ends_cons (by decide) rest : Json.Ends (',' :: rest))
  rw [Option.isNone_iff_eq_none.mp no_double, Option.map_none, whole, List.cons_append] at read
  rw [whole, List.cons_append]
  exact (Json.value_number opens _).trans read

def numeralArgs (n : Json.Numeral) : List Char × Tree := (n.chars, .number n)

theorem numeral_refused {n : Json.Numeral} (wellFormed : n.WellFormed)
    (no_double : n.value?.isNone = true) :
    Grammatical (writtenLine (numeralArgs n)) ((writtenCommand (numeralArgs n)).map
        Json.Member.entry) ∧
      Command.read (writtenLine (numeralArgs n)) = .error .malformed :=
  ⟨grammatical_written (.number wellFormed),
    read_writtenLine fun _ => value_of_no_double wellFormed no_double _⟩

/-- The grammar alone does not make a line readable: its lists may be one too many in one another,
or there is no double for a number, be it beyond the doubles or not. -/
theorem grammatical_lines_refused :
    (Grammatical (writtenLine (nestedLists 126))
        ((writtenCommand (nestedLists 126)).map Json.Member.entry) ∧
      Command.read (writtenLine (nestedLists 126)) = .error .malformed) ∧
    (Grammatical (writtenLine (numeralArgs hugeNumeral))
        ((writtenCommand (numeralArgs hugeNumeral)).map Json.Member.entry) ∧
      Command.read (writtenLine (numeralArgs hugeNumeral)) = .error .malformed) ∧
    Grammatical (writtenLine (numeralArgs closeNumeral))
        ((writtenCommand (numeralArgs closeNumeral)).map Json.Member.entry) ∧
      Command.read (writtenLine (numeralArgs closeNumeral)) = .error .malformed := by
  refine ⟨⟨grammatical_written (spells_nested 126), read_writtenLine fun tail => ?_⟩, ?_, ?_⟩
  · exact value_nested (Nat.le_refl 126) _
  · exact numeral_refused hugeNumeral_wellFormed (by decide +kernel)
  · exact numeral_refused closeNumeral_wellFormed (by decide +kernel)

end ScreenPreview.Control
