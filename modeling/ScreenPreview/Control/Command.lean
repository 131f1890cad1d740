import ScreenPreview.Json.Printer
import ScreenPreview.Json.Reader

/-!
Control commands and replies. Reading checks, in this order: that the line is JSON, that it is an
object, that its three members are there, that the version is three runs of digits, and that the
type is known.
-/
namespace ScreenPreview.Control

inductive Kind where
  | action
  | set
  | get
  deriving DecidableEq, Repr

inductive ArgumentFault where
  | missing (name : String)
  | notInt32 (name : String)
  | notText (name : String)
  | negative (name : String)
  deriving DecidableEq, Repr

def ArgumentFault.message : ArgumentFault → String
  | missing name => s!"missing `{name}`"
  | notInt32 name => s!"`{name}` is not an i32"
  | notText name => s!"`{name}` is not a string"
  | negative name => s!"`{name}` must be >= 0"

def Kind.name : Kind → String
  | action => "action"
  | set => "set"
  | get => "get"

inductive Refusal where
  | malformed
  | notObject
  | missingMember (name : String)
  | badVersion (version : String)
  | unknownKind (word : String)
  | noHandler (kind : Kind) (command : String)
  | badArguments (fault : ArgumentFault)
  | failed (reason : String)
  deriving DecidableEq, Repr

def Refusal.message : Refusal → String
  | malformed => "failed to parse the JSON: not a JSON text"
  | notObject => "command is not an object"
  | missingMember name => s!"command error: missing `{name}`"
  | badVersion version => s!"invalid command version: {version}"
  | unknownKind word => s!"unknown command type: {word}"
  | noHandler kind command => s!"no handler for {kind.name} {command}"
  | badArguments fault => s!"invalid arguments: {fault.message}"
  | failed reason => s!"handler failed: {reason}"

def Kind.ofName (word : String) : Except Refusal Kind :=
  if word = "action" then .ok action
  else if word = "set" then .ok set
  else if word = "get" then .ok get
  else .error (.unknownKind word)

theorem Kind.ofName_name (k : Kind) : Kind.ofName k.name = .ok k := by cases k <;> rfl

def currentVersion : String := "1.0.0"

def versionParts : List Char → List (List Char)
  | [] => [[]]
  | c :: rest =>
    if c = '.' then [] :: versionParts rest
    else
      match versionParts rest with
      | [] => [[c]]
      | part :: parts => (c :: part) :: parts

def isVersion (s : String) : Bool :=
  let parts := versionParts s.toList
  parts.length == 3 && parts.all fun part => !part.isEmpty && part.all Char.isDigit

structure Command where
  kind : Kind
  name : String
  version : String
  args : Json
  deriving BEq

namespace Command

def new (kind : Kind) (name : String) (args : Json) : Command :=
  ⟨kind, name, currentVersion, args⟩

def toJson (c : Command) : Json :=
  let envelope := [("type", .text c.kind.name), ("command", .text c.name),
    ("version", .text c.version)]
  .object (match c.args with
    | .null => envelope
    | args => envelope ++ [("args", args)])

def render (c : Command) : String := c.toJson.render

def textMember (name : String) (j : Json) : Except Refusal String :=
  match (j.member? name).bind Json.text? with
  | some s => .ok s
  | none => .error (.missingMember name)

def ofJson (j : Json) : Except Refusal Command :=
  match j with
  | .object _ => do
    let kind ← textMember "type" j
    let name ← textMember "command" j
    let version ← textMember "version" j
    if isVersion version then
      let kind ← Kind.ofName kind
      pure ⟨kind, name, version, (j.member? "args").getD .null⟩
    else .error (.badVersion version)
  | _ => .error .notObject

def read (line : String) : Except Refusal Command :=
  match Json.read line with
  | some j => ofJson j
  | none => .error .malformed

def arg (c : Command) (name : String) : Except Refusal Json :=
  match c.args.member? name with
  | some j => .ok j
  | none => .error (.badArguments (.missing name))

def int32Arg (c : Command) (name : String) : Except Refusal Int32 := do
  match (← c.arg name).int32? with
  | some n => .ok n
  | none => .error (.badArguments (.notInt32 name))

def textArg (c : Command) (name : String) : Except Refusal String := do
  match (← c.arg name).text? with
  | some s => .ok s
  | none => .error (.badArguments (.notText name))

end Command

def reply (name : String) (result : Json) : Json :=
  .record [("version", .text currentVersion), ("command", .text name), ("result", result)]

def refused (r : Refusal) : Json := .record [("error", .text r.message)]

end ScreenPreview.Control
