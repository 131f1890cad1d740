import ScreenPreview.Control.Command
import ScreenPreview.Screen.Mode

/-! Command handlers by kind and name, and the processing of a command line. -/
namespace ScreenPreview.Control

abbrev Handler (σ : Type) := Command → σ → Except Refusal Json × σ

/-- The handlers by kind and name, each pair once, and the names that static mode lets pass. -/
structure Registry (σ : Type) where
  handlers : List ((Kind × String) × Handler σ)
  passing : List String

namespace Registry

variable {σ : Type}

def empty : Registry σ := ⟨[], []⟩

def register (r : Registry σ) (kind : Kind) (name : String) (handler : Handler σ) : Registry σ :=
  { r with
    handlers := ((kind, name), handler) :: r.handlers.filter fun entry => entry.1 != (kind, name) }

def letPass (r : Registry σ) (name : String) : Registry σ :=
  { r with passing := name :: r.passing }

def isDropped (r : Registry σ) (name : String) : Bool := !r.passing.contains name

def size (r : Registry σ) : Nat := r.handlers.length

def handler? (r : Registry σ) (kind : Kind) (name : String) : Option (Handler σ) :=
  r.handlers.lookup (kind, name)

def dispatch (r : Registry σ) (c : Command) (mode : Screen.Mode) (s : σ) :
    Except Refusal (Option Json) × σ :=
  if mode = .static && r.isDropped c.name then (.ok none, s)
  else
    match r.handler? c.kind c.name with
    | none => (.error (.noHandler c.kind c.name), s)
    | some handler =>
      let (result, s) := handler c s
      (result.map some, s)

def process (r : Registry σ) (line : String) (mode : Screen.Mode) (s : σ) : Option String × σ :=
  match Command.read line with
  | .error refusal => (some (reply "" (refused refusal)).render, s)
  | .ok c =>
    match r.dispatch c mode s with
    | (.ok (some result), s) => (some (reply c.name result).render, s)
    | (.ok none, s) => (none, s)
    | (.error refusal, s) => (some (reply c.name (refused refusal)).render, s)

end Registry

end ScreenPreview.Control
