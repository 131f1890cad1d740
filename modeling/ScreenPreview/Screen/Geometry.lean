import ScreenPreview.Json.Basic
import ScreenPreview.Screen.Mode

/-!
The sizes of a virtual screen: the display size, which the viewer sees, the compression size, at
which pictures are drawn, and the current size, which follows the display or the fold size.
-/
namespace ScreenPreview.Screen

structure Size where
  width : Int32
  height : Int32
  deriving DecidableEq, Repr

namespace Size

def isPositive (s : Size) : Bool := 1 ≤ s.width && 1 ≤ s.height

def swap (s : Size) : Size := ⟨s.height, s.width⟩

def check (s : Size) : Except Failure Unit :=
  if s.isPositive then .ok () else .error (.resolution s.width s.height)

end Size

structure Resolution where
  display : Size
  compression : Size
  current : Size
  fold : Size := ⟨0, 0⟩
  foldable : Bool := false
  foldStatus : FoldStatus := .unfold
  deriving DecidableEq, Repr

structure FoldParameters where
  foldable : Bool
  status : FoldStatus
  size : Size
  deriving DecidableEq, Repr

namespace Resolution

def uniform (size : Size) : Resolution :=
  { display := size, compression := size, current := size }

def longerSide (a b : Int32) : Nat := (max (max a b) 1).toNatClampNeg

def maxFrameBytes (r : Resolution) : Nat :=
  longerSide r.compression.width r.display.width *
    longerSide r.compression.height r.display.height * 4

def isFolded (r : Resolution) : Bool := r.foldable && r.foldStatus == .fold

def reverse (r : Resolution) : Resolution :=
  { r with
    display := r.display.swap
    compression := r.compression.swap
    current := r.current.swap }

/-- Record a fold status. On a foldable device the current size becomes the fold size if the
device is folded and has one, else the display size. -/
def applyFold (r : Resolution) (status : FoldStatus) : Resolution :=
  let r := { r with foldStatus := status }
  if !r.foldable then r
  else if status = .fold ∧ r.fold.isPositive then { r with current := r.fold }
  else { r with current := r.display }

theorem reverse_reverse (r : Resolution) : r.reverse.reverse = r := rfl

def members (r : Resolution) : List (String × Json) :=
  [("originalWidth", .int r.display.width.toInt),
    ("originalHeight", .int r.display.height.toInt),
    ("compressionWidth", .int r.compression.width.toInt),
    ("compressionHeight", .int r.compression.height.toInt),
    ("foldable", .bool r.foldable),
    ("foldStatus", .text r.foldStatus.name),
    ("foldWidth", .int r.fold.width.toInt),
    ("foldHeight", .int r.fold.height.toInt),
    ("currentWidth", .int r.current.width.toInt),
    ("currentHeight", .int r.current.height.toInt)]

end Resolution

structure Geometry where
  resolution : Resolution
  foldGiven : Bool := false
  deriving DecidableEq, Repr

namespace Geometry

def setChecked (g : Geometry) (size : Size) (change : Resolution → Resolution) :
    Except Failure Unit × Geometry :=
  match size.check with
  | .error failure => (.error failure, g)
  | .ok () => (.ok (), { g with resolution := change g.resolution })

def setDisplayWidth (g : Geometry) (width : Int32) : Except Failure Unit × Geometry :=
  g.setChecked ⟨width, 1⟩ fun r => { r with display := { r.display with width } }

def setDisplayHeight (g : Geometry) (height : Int32) : Except Failure Unit × Geometry :=
  g.setChecked ⟨1, height⟩ fun r => { r with display := { r.display with height } }

def setCompressionWidth (g : Geometry) (width : Int32) : Except Failure Unit × Geometry :=
  g.setChecked ⟨width, 1⟩ fun r => { r with compression := { r.compression with width } }

def setCompressionHeight (g : Geometry) (height : Int32) : Except Failure Unit × Geometry :=
  g.setChecked ⟨1, height⟩ fun r => { r with compression := { r.compression with height } }

def setSizes (g : Geometry) (display compression : Size) : Except Failure Unit × Geometry :=
  match display.check with
  | .error failure => (.error failure, g)
  | .ok () => g.setChecked compression fun r => { r with display, compression }

def setFoldSize (g : Geometry) (size : Size) : Except Failure Unit × Geometry :=
  g.setChecked size fun r => { r with fold := size }

def setCurrentSize (g : Geometry) (size : Size) : Except Failure Unit × Geometry :=
  g.setChecked size fun r => { r with current := size }

def reverse (g : Geometry) : Geometry := { g with resolution := g.resolution.reverse }

def takeFold (g : Geometry) (info : FoldParameters) : Except Failure Unit × Geometry :=
  let taken := { g with foldGiven := true }
  if g.foldGiven then (.error (.alreadyDone "fold parameters"), taken)
  else
    let resolution := { g.resolution with
      foldable := info.foldable
      foldStatus := info.status
      fold := info.size }
    (.ok (), { taken with resolution })

def setFoldable (g : Geometry) (foldable : Bool) : Geometry :=
  { g with resolution := { g.resolution with foldable } }

def setFoldStatus (g : Geometry) (status : FoldStatus) : Geometry :=
  { g with resolution := { g.resolution with foldStatus := status } }

def applyFold (g : Geometry) (status : FoldStatus) : Geometry :=
  { g with resolution := g.resolution.applyFold status }

section Sizes

variable {g : Geometry} {display compression : Size}

theorem setSizes_of_positive
    (positive : display.isPositive = true ∧ compression.isPositive = true) :
    g.setSizes display compression =
      (.ok (), { g with resolution := { g.resolution with display, compression } }) := by
  simp only [setSizes, setChecked, Size.check, positive, if_true]

theorem setSizes_of_short
    (short : ¬ (display.isPositive = true ∧ compression.isPositive = true)) :
    ∃ size : Size, g.setSizes display compression =
      (.error (.resolution size.width size.height), g) := by
  by_cases positive : display.isPositive = true
  · have other : ¬ compression.isPositive = true := fun drawn => short ⟨positive, drawn⟩
    exact ⟨compression, by simp [setSizes, setChecked, Size.check, positive, other]⟩
  · exact ⟨display, by simp [setSizes, Size.check, positive]⟩

end Sizes

end Geometry

end ScreenPreview.Screen
