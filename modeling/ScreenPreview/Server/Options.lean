import ScreenPreview.Server.Config

/-! The command line of the program. The first word that is no option refuses the whole line. -/
namespace ScreenPreview.Server

structure Options where
  settings : String := "vscreen-server.toml"
  name : Option String := none
  printDefaults : Bool := false
  writeDefaults : Option String := none
  deriving DecidableEq, Repr

inductive Misuse where
  | unknownWord (word : String)
  | valueMissing (option : String)
  | valueGiven (option : String)
  deriving DecidableEq, Repr

def Misuse.message : Misuse → String
  | unknownWord word => s!"unexpected argument {word}"
  | valueMissing option => s!"no value for {option}"
  | valueGiven option => s!"{option} takes no value"

namespace Options

def split (word : String) : String × Option String :=
  let cs := word.toList
  let head := String.ofList (cs.takeWhile (· != '='))
  match cs.dropWhile (· != '=') with
  | [] => (head, none)
  | _ :: value => (head, some (String.ofList value))

def valued? (word : String) : Option (String → Options → Options) :=
  if word = "--config" ∨ word = "-c" then some fun value o => { o with settings := value }
  else if word = "--name" ∨ word = "-n" then some fun value o => { o with name := some value }
  else if word = "--write-config" then some fun value o => { o with writeDefaults := some value }
  else none

def read : List String → Options → Except Misuse Options
  | [], o => .ok o
  | word :: rest, o =>
    let (option, value) := split word
    match valued? option, value, rest with
    | some set, some value, rest => read rest (set value o)
    | some set, none, value :: rest => read rest (set value o)
    | some _, none, [] => .error (.valueMissing option)
    | none, value, rest =>
      if option ≠ "--gen-config" then .error (.unknownWord word)
      else if value.isSome then .error (.valueGiven option)
      else read rest { o with printDefaults := true }

def rename (o : Options) (c : Config) : Config :=
  match o.name with
  | some baseName => { c with sockets := { c.sockets with baseName } }
  | none => c

end Options

end ScreenPreview.Server
