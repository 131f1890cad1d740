import ScreenPreview.Server.Config

/-!
The sizes of a screen under every change.

The sizes that are drawn and shown keep at least one pixel on either side, whatever fold parameters
were given: these are not checked when they come, only when the device is folded. A change is
refused for a side that is too short or for fold parameters that come a second time, and then
nothing has changed (`run_sizes`).
-/
namespace ScreenPreview.Screen

theorem Size.isPositive_iff {s : Size} : s.isPositive = true ↔ 1 ≤ s.width ∧ 1 ≤ s.height := by
  simp [isPositive]

theorem Size.isPositive_of_width {width : Int32} {s : Size}
    (long : (mk width 1).isPositive = true) (positive : s.isPositive = true) :
    ({ s with width } : Size).isPositive = true :=
  isPositive_iff.mpr ⟨(isPositive_iff.mp long).1, (isPositive_iff.mp positive).2⟩

theorem Size.isPositive_of_height {height : Int32} {s : Size}
    (long : (mk 1 height).isPositive = true) (positive : s.isPositive = true) :
    ({ s with height } : Size).isPositive = true :=
  isPositive_iff.mpr ⟨(isPositive_iff.mp positive).1, (isPositive_iff.mp long).2⟩

theorem Resolution.toInt_max (a b : Int32) : (max a b).toInt = max a.toInt b.toInt := by
  simp only [max, Int32.le_iff_toInt_le]
  split <;> omega

structure Resolution.Positive (r : Resolution) : Prop where
  display : r.display.isPositive = true
  compression : r.compression.isPositive = true
  current : r.current.isPositive = true

namespace Resolution.Positive

variable {r : Resolution}

theorem reverse (positive : r.Positive) : r.reverse.Positive := by
  have swap {s : Size} (positive : s.isPositive = true) : s.swap.isPositive = true :=
    Size.isPositive_iff.mpr (Size.isPositive_iff.mp positive).symm
  exact ⟨swap positive.display, swap positive.compression, swap positive.current⟩

theorem applyFold (positive : r.Positive) (status : FoldStatus) :
    (r.applyFold status).Positive := by
  unfold Resolution.applyFold
  simp only
  split
  · exact ⟨positive.display, positive.compression, positive.current⟩
  · split
    · exact ⟨positive.display, positive.compression, (‹_ ∧ _› : _ ∧ _).2⟩
    · exact ⟨positive.display, positive.compression, positive.display⟩

end Resolution.Positive

namespace Geometry

inductive Change where
  | displayWidth (width : Int32)
  | displayHeight (height : Int32)
  | compressionWidth (width : Int32)
  | compressionHeight (height : Int32)
  | sizes (display compression : Size)
  | foldSize (size : Size)
  | currentSize (size : Size)
  | reverse
  | takeFold (info : FoldParameters)
  | foldable (on : Bool)
  | foldStatus (status : FoldStatus)
  | applyFold (status : FoldStatus)
  deriving DecidableEq

def Change.sides : Change → List Int32
  | displayWidth width => [width]
  | displayHeight height => [height]
  | compressionWidth width => [width]
  | compressionHeight height => [height]
  | sizes display compression =>
    [display.width, display.height, compression.width, compression.height]
  | foldSize size => [size.width, size.height]
  | currentSize size => [size.width, size.height]
  | _ => []

def Change.isTakeFold : Change → Bool
  | takeFold _ => true
  | _ => false

def attempt (g : Geometry) : Change → Except Failure Unit × Geometry
  | .displayWidth width => g.setDisplayWidth width
  | .displayHeight height => g.setDisplayHeight height
  | .compressionWidth width => g.setCompressionWidth width
  | .compressionHeight height => g.setCompressionHeight height
  | .sizes display compression => g.setSizes display compression
  | .foldSize size => g.setFoldSize size
  | .currentSize size => g.setCurrentSize size
  | .reverse => (.ok (), g.reverse)
  | .takeFold info => g.takeFold info
  | .foldable on => (.ok (), g.setFoldable on)
  | .foldStatus status => (.ok (), g.setFoldStatus status)
  | .applyFold status => (.ok (), g.applyFold status)

def perform (g : Geometry) (change : Change) : Geometry := (g.attempt change).2

def run (g : Geometry) (changes : List Change) : Geometry := changes.foldl perform g

def Refuses (g : Geometry) (change : Change) : Prop :=
  (∃ side ∈ change.sides, side < 1) ∨ change.isTakeFold = true ∧ g.foldGiven = true

inductive Outcome (g : Geometry) (change : Change) : Prop
  | refused (failure : Failure) (answer : g.attempt change = (.error failure, g))
    (reason : g.Refuses change)
  | done (h : Geometry) (answer : g.attempt change = (.ok (), h)) (accepted : ¬ g.Refuses change)
    (given : h.foldGiven = (g.foldGiven || change.isTakeFold))
    (positive : g.resolution.Positive → h.resolution.Positive)

variable {g h : Geometry} {size : Size} {alter : Resolution → Resolution} {change : Change}

theorem outcome_of_setChecked (attempts : g.attempt change = g.setChecked size alter)
    (plain : change.isTakeFold = false)
    (sides : size.isPositive = true ↔ ∀ side ∈ change.sides, 1 ≤ side)
    (keeps : size.isPositive = true → g.resolution.Positive → (alter g.resolution).Positive) :
    g.Outcome change := by
  have refuses : g.Refuses change ↔ ¬ size.isPositive = true := by simp [Refuses, plain, sides]
  by_cases positive : size.isPositive = true
  · have answer : g.attempt change = (.ok (), { g with resolution := alter g.resolution }) := by
      rw [attempts]
      simp only [setChecked, Size.check, positive, if_true]
    have accepted : ¬ g.Refuses change := fun refused => refuses.mp refused positive
    exact .done _ answer accepted (by simp [plain]) (keeps positive)
  · have answer : g.attempt change = (.error (.resolution size.width size.height), g) := by
      rw [attempts]
      simp only [setChecked, Size.check, positive]
      rfl
    exact .refused _ answer (refuses.mpr positive)

theorem outcome_of_ok (answer : g.attempt change = (.ok (), h)) (plain : change.isTakeFold = false)
    (free : change.sides = []) (same : h.foldGiven = g.foldGiven)
    (positive : g.resolution.Positive → h.resolution.Positive) : g.Outcome change :=
  .done h answer (by simp [Refuses, plain, free]) (by simp [same, plain]) positive

theorem outcome (g : Geometry) (change : Change) : g.Outcome change := by
  cases change with
  | displayWidth width =>
    have attempts : g.attempt (.displayWidth width) = g.setChecked ⟨width, 1⟩
        fun r => { r with display := { r.display with width } } := rfl
    refine outcome_of_setChecked attempts rfl (by simp [Size.isPositive, Change.sides]) ?_
    exact fun long ⟨display, compression, current⟩ =>
      ⟨Size.isPositive_of_width long display, compression, current⟩
  | displayHeight height =>
    have attempts : g.attempt (.displayHeight height) = g.setChecked ⟨1, height⟩
        fun r => { r with display := { r.display with height } } := rfl
    refine outcome_of_setChecked attempts rfl (by simp [Size.isPositive, Change.sides]) ?_
    exact fun long ⟨display, compression, current⟩ =>
      ⟨Size.isPositive_of_height long display, compression, current⟩
  | compressionWidth width =>
    have attempts : g.attempt (.compressionWidth width) = g.setChecked ⟨width, 1⟩
        fun r => { r with compression := { r.compression with width } } := rfl
    refine outcome_of_setChecked attempts rfl (by simp [Size.isPositive, Change.sides]) ?_
    exact fun long ⟨display, compression, current⟩ =>
      ⟨display, Size.isPositive_of_width long compression, current⟩
  | compressionHeight height =>
    have attempts : g.attempt (.compressionHeight height) = g.setChecked ⟨1, height⟩
        fun r => { r with compression := { r.compression with height } } := rfl
    refine outcome_of_setChecked attempts rfl (by simp [Size.isPositive, Change.sides]) ?_
    exact fun long ⟨display, compression, current⟩ =>
      ⟨display, Size.isPositive_of_height long compression, current⟩
  | sizes display compression =>
    by_cases long : display.isPositive = true
    · have attempts : g.attempt (.sizes display compression) = g.setChecked compression
          fun r => { r with display, compression } := by
        simp only [attempt, setSizes, Size.check, long, if_true]
      obtain ⟨width, height⟩ := Size.isPositive_iff.mp long
      refine outcome_of_setChecked attempts rfl ?_ ?_
      · simp [Size.isPositive, Change.sides, width, height]
      · exact fun positive before => ⟨long, positive, before.current⟩
    · refine .refused (.resolution display.width display.height) ?_ (Or.inl ?_)
      · simp only [attempt, setSizes, Size.check, long]
        rfl
      · rw [Size.isPositive_iff, Classical.not_and_iff_not_or_not, Int32.not_le,
          Int32.not_le] at long
        exact long.elim (fun short => ⟨_, by simp [Change.sides], short⟩)
          fun short => ⟨display.height, by simp [Change.sides], short⟩
  | foldSize size =>
    have attempts : g.attempt (.foldSize size) = g.setChecked size
        fun r => { r with fold := size } := rfl
    refine outcome_of_setChecked attempts rfl (by simp [Size.isPositive, Change.sides]) ?_
    exact fun _ ⟨display, compression, current⟩ => ⟨display, compression, current⟩
  | currentSize size =>
    have attempts : g.attempt (.currentSize size) = g.setChecked size
        fun r => { r with current := size } := rfl
    refine outcome_of_setChecked attempts rfl (by simp [Size.isPositive, Change.sides]) ?_
    exact fun positive ⟨display, compression, _⟩ => ⟨display, compression, positive⟩
  | takeFold info =>
    cases given : g.foldGiven with
    | true =>
      -- The mark that they were given is set once more.
      have again : { g with foldGiven := true } = g := by rw [← given]
      refine .refused (.alreadyDone "fold parameters") ?_ (Or.inr ⟨rfl, given⟩)
      simp only [attempt, takeFold, given, again, if_true]
    | false =>
      have answer : g.attempt (.takeFold info) = (.ok (),
          { resolution := { g.resolution with
              foldable := info.foldable, foldStatus := info.status, fold := info.size }
            foldGiven := true }) := by
        simp [attempt, takeFold, given]
      refine .done _ answer ?_ ?_ ?_
      · simp [Refuses, Change.sides, given]
      · simp [Change.isTakeFold]
      · exact fun ⟨display, compression, current⟩ => ⟨display, compression, current⟩
  | reverse => exact outcome_of_ok rfl rfl rfl rfl Resolution.Positive.reverse
  | foldable on =>
    exact outcome_of_ok rfl rfl rfl rfl fun ⟨display, compression, current⟩ =>
      ⟨display, compression, current⟩
  | foldStatus status =>
    exact outcome_of_ok rfl rfl rfl rfl fun ⟨display, compression, current⟩ =>
      ⟨display, compression, current⟩
  | applyFold status =>
    exact outcome_of_ok rfl rfl rfl rfl fun positive => positive.applyFold status

theorem attempt_error_iff :
    (∃ failure, (g.attempt change).1 = .error failure) ↔ g.Refuses change := by
  cases g.outcome change with
  | refused failure answer reason => exact iff_of_true ⟨failure, by rw [answer]⟩ reason
  | done h answer accepted => exact iff_of_false (by simp [answer]) accepted

/-- Every check is made before the first field is written. -/
theorem perform_of_error {failure : Failure} (refused : (g.attempt change).1 = .error failure) :
    g.perform change = g := by
  cases g.outcome change with
  | refused _ answer => rw [perform, answer]
  | done h answer =>
    rw [answer] at refused
    cases refused

/-! ### Runs -/

theorem perform_positive (positive : g.resolution.Positive) (change : Change) :
    (g.perform change).resolution.Positive := by
  cases g.outcome change with
  | refused _ answer =>
    rw [perform, answer]
    exact positive
  | done h answer _ _ keeps =>
    rw [perform, answer]
    exact keeps positive

theorem foldGiven_perform (g : Geometry) (change : Change) :
    (g.perform change).foldGiven = (g.foldGiven || change.isTakeFold) := by
  cases g.outcome change with
  | refused _ answer reason =>
    rw [perform, answer]
    rcases reason with ⟨side, member, -⟩ | ⟨-, given⟩
    · -- Fold parameters are given without a check, so a change with sides gives none.
      have plain : change.isTakeFold = false := by
        cases change <;> first | rfl | cases member
      simp [plain]
    · simp [given]
  | done h answer _ given =>
    rw [perform, answer]
    exact given

theorem run_positive (positive : g.resolution.Positive) (changes : List Change) :
    (g.run changes).resolution.Positive := by
  induction changes generalizing g with
  | nil => exact positive
  | cons change rest ih => exact ih (perform_positive positive change)

theorem foldGiven_run (g : Geometry) (changes : List Change) :
    (g.run changes).foldGiven = (g.foldGiven || changes.any (·.isTakeFold)) := by
  induction changes generalizing g with
  | nil => simp [run]
  | cons change rest ih =>
    have later := ih (g.perform change)
    rw [foldGiven_perform, Bool.or_assoc] at later
    exact later

theorem resolution_positive (c : Server.Config) : c.resolution.Positive := by
  have long (side : Int32) : 1 ≤ max side 1 := by
    simp only [max]
    split
    · exact Int32.le_refl 1
    · exact Int32.le_of_lt (Int32.not_le.mp ‹_›)
  have clamped (s : Size) : (Size.mk (max s.width 1) (max s.height 1)).isPositive = true :=
    Size.isPositive_iff.mpr ⟨long s.width, long s.height⟩
  exact ⟨clamped _, clamped _, clamped _⟩

/-- From the sizes of any settings, after any changes: the sizes that are drawn and shown have at
least one pixel on either side. The next change is refused exactly if it gives a side below one
pixel, or fold parameters when some were given before, and then it changes nothing. -/
theorem run_sizes (c : Server.Config) (changes : List Change) :
    let g := run { resolution := c.resolution } changes
    (∀ size ∈ [g.resolution.display, g.resolution.compression, g.resolution.current],
      1 ≤ size.width ∧ 1 ≤ size.height) ∧
    (∀ change, (∃ failure, (g.attempt change).1 = .error failure) ↔
      (∃ side ∈ change.sides, side < 1) ∨
        change.isTakeFold = true ∧ ∃ earlier ∈ changes, earlier.isTakeFold = true) ∧
    ∀ change failure, (g.attempt change).1 = .error failure → g.perform change = g := by
  intro g
  have positive : g.resolution.Positive := run_positive (resolution_positive c) changes
  have given : g.foldGiven = true ↔ ∃ earlier ∈ changes, earlier.isTakeFold = true := by
    rw [foldGiven_run]
    simp
  refine ⟨?_, ?_, ?_⟩
  · simp only [List.forall_mem_cons, ← Size.isPositive_iff]
    exact ⟨positive.display, positive.compression, positive.current, by simp⟩
  · intro change
    rw [attempt_error_iff, Refuses, given]
  · exact fun change failure => perform_of_error

theorem run_sizes_of_bad_fold :
    let g := run { resolution := ({} : Server.Config).resolution }
      [.takeFold ⟨true, .unfold, ⟨0, -5⟩⟩, .applyFold .fold, .reverse]
    g.resolution.fold = ⟨0, -5⟩ ∧
      (1 ≤ g.resolution.current.width ∧ 1 ≤ g.resolution.current.height) ∧
      ∃ failure, (g.attempt (.takeFold ⟨true, .fold, ⟨1, 1⟩⟩)).1 = .error failure := by
  intro g
  obtain ⟨sizes, refused, -⟩ := run_sizes {}
    [.takeFold ⟨true, .unfold, ⟨0, -5⟩⟩, .applyFold .fold, .reverse]
  refine ⟨rfl, sizes g.resolution.current (by simp [g]), (refused _).mpr (Or.inr ⟨rfl, ?_⟩)⟩
  exact ⟨_, List.mem_cons_self, rfl⟩

end Geometry

end ScreenPreview.Screen
