import ScreenPreview.Failure

/-! The state words of a screen. Each has one name, by which it is read and printed. -/
namespace ScreenPreview.Screen

inductive Mode where
  | dynamic
  | static
  deriving DecidableEq, Repr

def Mode.name : Mode → String
  | dynamic => "dynamic"
  | static => "static"

def Mode.ofName? (word : String) : Option Mode :=
  if word = "dynamic" then some dynamic
  else if word = "static" then some static
  else none

theorem Mode.ofName?_name (m : Mode) : Mode.ofName? m.name = some m := by cases m <;> rfl

inductive LoadState where
  | init
  | loading
  | finished
  deriving DecidableEq, Repr

namespace LoadState

def name : LoadState → String
  | init => "init"
  | loading => "loading"
  | finished => "finished"

def ofName (word : String) : Except Failure LoadState :=
  if word = "init" then .ok init
  else if word = "loading" then .ok loading
  else if word = "finished" then .ok finished
  else .error (.unknownLoadState word)

theorem ofName_name (s : LoadState) : ofName s.name = .ok s := by cases s <;> rfl

end LoadState

inductive FoldStatus where
  | fold
  | unfold
  | halfFold
  deriving DecidableEq, Repr

namespace FoldStatus

def name : FoldStatus → String
  | fold => "fold"
  | unfold => "unfold"
  | halfFold => "half_fold"

def ofName (word : String) : Except Failure FoldStatus :=
  if word = "fold" then .ok fold
  else if word = "unfold" then .ok unfold
  else if word = "half_fold" then .ok halfFold
  else .error (.unknownFoldStatus word)

theorem ofName_name (s : FoldStatus) : ofName s.name = .ok s := by cases s <;> rfl

end FoldStatus

end ScreenPreview.Screen
