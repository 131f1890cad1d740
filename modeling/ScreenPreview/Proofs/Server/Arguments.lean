import ScreenPreview.Proofs.Server.Orders

/-!
The sizes that a command names.

A command that sets the sizes names the display size, and perhaps the compression size. It is taken
exactly if the display sides are there as whole numbers of 32 bits and no side that counts is below
one pixel; else it is refused, and nothing changes. A compression side that is there but is no such
number counts as missing, so a command can be taken although it names one that cannot be read; apart
from these, exactly the sizes that are named are taken (`obeys_missing_iff`).
-/
namespace ScreenPreview

theorem Json.int32?_eq_some_iff {j : Json} {n : Int32} : j.int32? = some n ↔ j = .int n.toInt := by
  have low := n.le_toInt
  have high := n.toInt_lt
  constructor
  · intro read
    cases j with
    | int i =>
      simp only [int32?, int64?] at read
      split at read
      · next word whole =>
        split at whole
        · cases whole
          split at read
          · next fits =>
            rw [← Option.some.inj read, Int32.toInt_ofInt_of_le fits.1 fits.2]
          · cases read
        · cases whole
      · cases read
    | _ => cases read
  · rintro rfl
    have whole : (Json.int n.toInt).int64? = some n.toInt := if_pos (by omega)
    simp only [int32?, whole]
    rw [if_pos (by omega), Int32.ofInt_toInt]

namespace Server.Preview

open Control Screen

/-! ### Arguments -/

def Whole (c : Command) (name : String) (n : Int32) : Prop :=
  c.args.member? name = some (.int n.toInt)

def Missing (c : Command) (name : String) : Prop := c.args.member? name = none

def Unread (c : Command) (name : String) : Prop := ∀ n, ¬ Whole c name n

/-- A compression side is the one that is given, or that of the display where it may stand in. -/
def Side (c : Command) (standsIn : String → Prop) (name : String) (display n : Int32) : Prop :=
  Whole c name n ∨ standsIn name ∧ n = display

def drawn : List String := ["compressionWidth", "compressionHeight"]

structure Gives (c : Command) (standsIn : String → Prop) (display compression : Size) : Prop where
  width : Whole c "originalWidth" display.width
  height : Whole c "originalHeight" display.height
  drawnWidth : Side c standsIn "compressionWidth" display.width compression.width
  drawnHeight : Side c standsIn "compressionHeight" display.height compression.height
  positive : display.isPositive = true ∧ compression.isPositive = true

variable {c : Command} {name : String} {display compression : Size}

theorem Missing.unread (missing : Missing c name) : Unread c name := by
  intro n whole
  cases missing.symm.trans whole

theorem Gives.weaken {standsIn other : String → Prop} (gives : Gives c standsIn display compression)
    (weaker : ∀ name ∈ drawn, standsIn name → other name) :
    Gives c other display compression where
  width := gives.width
  height := gives.height
  drawnWidth := gives.drawnWidth.imp_right (And.imp_left (weaker _ (by simp [drawn])))
  drawnHeight := gives.drawnHeight.imp_right (And.imp_left (weaker _ (by simp [drawn])))
  positive := gives.positive

theorem int32Arg_eq_ok_iff {n : Int32} : c.int32Arg name = .ok n ↔ Whole c name n := by
  rw [Command.int32Arg, Command.arg, Whole]
  rcases c.args.member? name with _ | j
  · simp [bind, Except.bind]
  · rw [Option.some.injEq, ← Json.int32?_eq_some_iff]
    dsimp only [bind, Except.bind]
    rcases j.int32? with _ | k
    · simp
    · simp

theorem unread_iff : Unread c name ↔ ∀ n, c.int32Arg name ≠ .ok n :=
  forall_congr' fun _ => not_congr int32Arg_eq_ok_iff.symm

theorem getD_int32Arg {side n : Int32} :
    (c.int32Arg name).toOption.getD side = n ↔ Side c (Unread c) name side n := by
  rw [Side, unread_iff, ← int32Arg_eq_ok_iff]
  cases c.int32Arg name with
  | error refusal => simp [Except.toOption, eq_comm]
  | ok k => simp [Except.toOption]

theorem sizes_eq_ok_iff : sizes c = .ok (display, compression) ∧
    display.isPositive = true ∧ compression.isPositive = true ↔
      Gives c (Unread c) display compression := by
  obtain ⟨width, height⟩ := display
  obtain ⟨drawnWidth, drawnHeight⟩ := compression
  constructor
  · rintro ⟨read, positive⟩
    rw [sizes] at read
    rcases wide : c.int32Arg "originalWidth" with refusal | w
    · rw [wide] at read
      cases read
    · rcases high : c.int32Arg "originalHeight" with refusal | h
      · rw [wide, high] at read
        cases read
      · rw [wide, high] at read
        cases read
        exact ⟨int32Arg_eq_ok_iff.mp wide, int32Arg_eq_ok_iff.mp high, getD_int32Arg.mp rfl,
          getD_int32Arg.mp rfl, positive⟩
  · intro gives
    have wide := int32Arg_eq_ok_iff.mpr gives.width
    have high := int32Arg_eq_ok_iff.mpr gives.height
    refine ⟨?_, gives.positive⟩
    rw [sizes, wide, high]
    dsimp only [bind, Except.bind]
    rw [getD_int32Arg.mpr gives.drawnWidth, getD_int32Arg.mpr gives.drawnHeight]
    rfl

/-! ### The command -/

def setSizes (version : String) (args : Json) : Command := ⟨.set, "Resolution", version, args⟩

def resized (s : Preview) (display compression : Size) : Geometry :=
  { s.feed.geometry with resolution := { s.feed.geometry.resolution with display, compression } }

/-- Sizes that a command gives are taken, and the display side stands in for a compression side only
where `standsIn` says so. All else is refused and changes nothing. -/
structure Obeys (standsIn : String → Prop) (m : Moment) (c : Command) (mode : Mode) (s : Preview) :
    Prop where
  taken : ∀ display compression, Gives c standsIn display compression →
    (commands m).dispatch c mode s =
        (.ok (some done), s.changeGeometry m.now (resized s display compression)) ∧
      ((commands m).dispatch c mode s).2.feed.geometry = resized s display compression
  refused : (∀ display compression, ¬ Gives c standsIn display compression) →
    ∃ refusal, (commands m).dispatch c mode s = (.error refusal, s)

variable {m : Moment} {version : String} {args : Json} {mode : Mode} {s : Preview}

theorem dispatch_setSizes : (commands m).dispatch (setSizes version args) mode s =
    ((changeSizes m (setSizes version args) s).1.map some,
      (changeSizes m (setSizes version args) s).2) := by
  have passes : (commands m).isDropped "Resolution" = false := rfl
  have known : (commands m).handler? .set "Resolution" = some (changeSizes m) := rfl
  simp only [Registry.dispatch, setSizes, passes, known, Bool.and_false, Bool.false_eq_true,
    if_false]

theorem changeSizes_of_gives (gives : Gives c (Unread c) display compression) :
    changeSizes m c s =
      (.ok done, s.changeGeometry m.now (resized s display compression)) := by
  obtain ⟨read, positive⟩ := sizes_eq_ok_iff.mpr gives
  rw [changeSizes, read]
  dsimp only
  rw [Geometry.setSizes_of_positive positive]
  rfl

theorem changeSizes_of_nothing
    (nothing : ∀ display compression, ¬ Gives c (Unread c) display compression) :
    ∃ refusal, changeSizes m c s = (.error refusal, s) := by
  rw [changeSizes]
  split
  · next refusal _ => exact ⟨refusal, rfl⟩
  · next display compression read =>
    obtain ⟨size, refused⟩ := Geometry.setSizes_of_short (g := s.feed.geometry)
      fun positive => nothing display compression (sizes_eq_ok_iff.mp ⟨read, positive⟩)
    rw [refused]
    exact ⟨.failed (Failure.resolution size.width size.height).message, rfl⟩

theorem obeys_unread : Obeys (Unread (setSizes version args)) m (setSizes version args) mode s where
  taken := by
    intro display compression gives
    rw [dispatch_setSizes, changeSizes_of_gives gives]
    exact ⟨rfl, rfl⟩
  refused := by
    intro nothing
    obtain ⟨refusal, refused⟩ := changeSizes_of_nothing (m := m) (s := s) nothing
    rw [dispatch_setSizes, refused]
    exact ⟨refusal, rfl⟩

def Malformed (c : Command) : Prop :=
  ∃ name ∈ drawn, ¬ Missing c name ∧ Unread c name

theorem gives_missing_iff : Gives c (Missing c) display compression ↔
    Gives c (Unread c) display compression ∧ ¬ Malformed c := by
  constructor
  · intro gives
    refine ⟨gives.weaken fun _ _ => Missing.unread, ?_⟩
    rintro ⟨name, isDrawn, present, unread⟩
    simp only [drawn, List.mem_cons, List.not_mem_nil, or_false] at isDrawn
    rcases isDrawn with rfl | rfl
    · rcases gives.drawnWidth with whole | ⟨missing, -⟩
      · exact unread _ whole
      · exact present missing
    · rcases gives.drawnHeight with whole | ⟨missing, -⟩
      · exact unread _ whole
      · exact present missing
  · rintro ⟨gives, wellFormed⟩
    refine gives.weaken fun name isDrawn unread => ?_
    by_contra present
    exact wellFormed ⟨name, isDrawn, present, unread⟩

/-- For all arguments, in every mode and state: the command takes exactly the sizes that are given,
where a side of the display stands in for a compression side that cannot be read. It lets the side
stand in for a missing one only, exactly if it is not given sizes beside a malformed one. -/
theorem obeys_missing_iff (m : Moment) (version : String) (args : Json) (mode : Mode)
    (s : Preview) :
    let c := setSizes version args
    Obeys (Unread c) m c mode s ∧
      (Obeys (Missing c) m c mode s ↔
        ¬ (Malformed c ∧ ∃ display compression, Gives c (Unread c) display compression)) := by
  intro c
  have does : Obeys (Unread c) m c mode s := obeys_unread
  refine ⟨does, ?_, ?_⟩
  · rintro obeys ⟨malformed, display, compression, gives⟩
    obtain ⟨refusal, refused⟩ := obeys.refused fun _ _ asked =>
      (gives_missing_iff.mp asked).2 malformed
    cases (does.taken display compression gives).1.symm.trans refused
  · intro none_malformed
    refine ⟨?_, ?_⟩
    · intro display compression asked
      exact does.taken display compression (gives_missing_iff.mp asked).1
    · intro nothing
      refine does.refused fun display compression gives => ?_
      by_cases malformed : Malformed c
      · exact none_malformed ⟨malformed, display, compression, gives⟩
      · exact nothing display compression (gives_missing_iff.mpr ⟨gives, malformed⟩)

/-- A compression width that is a word is passed over. -/
theorem wide_compression_taken :
    ¬ ∀ (m : Moment) (version : String) (args : Json) (mode : Mode) (s : Preview),
      Obeys (Missing (setSizes version args)) m (setSizes version args) mode s := by
  intro obeys
  let args := Json.object [("compressionWidth", .text "wide"), ("originalHeight", .int 10),
    ("originalWidth", .int 20)]
  let c := setSizes "1.0.0" args
  have unread : Unread c "compressionWidth" := by
    intro n whole
    cases whole
  have malformed : Malformed c :=
    ⟨"compressionWidth", List.mem_cons_self, by rintro ⟨⟩, unread⟩
  have gives : Gives c (Unread c) ⟨20, 10⟩ ⟨20, 10⟩ := {
    width := rfl
    height := rfl
    drawnWidth := Or.inr ⟨unread, rfl⟩
    drawnHeight := Or.inr ⟨Missing.unread rfl, rfl⟩
    positive := ⟨rfl, rfl⟩ }
  have does : Obeys (Unread c) ⟨0, 0⟩ c .dynamic (ofConfig {} 0) := obeys_unread
  have answer := does.taken _ _ gives
  obtain ⟨refusal, refused⟩ := (obeys ⟨0, 0⟩ "1.0.0" args .dynamic (ofConfig {} 0)).refused
    fun _ _ asked => (gives_missing_iff.mp asked).2 malformed
  cases answer.1.symm.trans refused

end Server.Preview

end ScreenPreview
