import ScreenPreview.Bytes
import ScreenPreview.Failure
import ScreenPreview.Text.Blank
import ScreenPreview.Text.Utf8

/-!
The control stream: lines of UTF-8 text, each ended by a NUL or a line feed. A line that was taken
off the buffer stays taken, also where it turns out not to be text.
-/
namespace ScreenPreview.Control.Line

def defaultLimit : Nat := 64 * 1024

def isTerminator (b : UInt8) : Bool := b == 0 || b == 10

def head (buffer : Bytes) : Bytes := buffer.takeWhile (!isTerminator ·)

def tail (buffer : Bytes) : Bytes := buffer.dropWhile (!isTerminator ·)

theorem head_append_tail (buffer : Bytes) : head buffer ++ tail buffer = buffer :=
  List.takeWhile_append_dropWhile

theorem length_of_tail {buffer rest : Bytes} {b : UInt8} (h : tail buffer = b :: rest) :
    rest.length < buffer.length := by
  have whole := congrArg List.length (head_append_tail buffer)
  rw [h] at whole
  simp only [List.length_append, List.length_cons] at whole
  omega

/-- Take the first line that is not blank off a buffer. Gives the line, or `none` if no line is
complete, and what is left of the buffer. -/
def take (limit : Nat) (buffer : Bytes) : Except Failure (Option String) × Bytes :=
  match found : tail buffer with
  | [] =>
    if limit < buffer.length then (.error (.tooLarge buffer.length limit), buffer)
    else (.ok none, buffer)
  | _ :: rest =>
    match Text.Utf8.read (head buffer) with
    | .error fault => (.error (.notText fault), rest)
    | .ok text =>
      if (Text.trimmed text).isEmpty then
        have := length_of_tail found
        take limit rest
      else (.ok (some (Text.trimmed text)), rest)
termination_by buffer.length

theorem length_of_take {limit : Nat} {buffer rest : Bytes} {line : String}
    (taken : take limit buffer = (.ok (some line), rest)) : rest.length < buffer.length := by
  fun_induction take limit buffer with
  | case1 => simp at taken
  | case2 => simp at taken
  | case3 => simp at taken
  | case4 _ _ _ found _ _ _ shorter ih =>
    have := ih taken
    omega
  | case5 _ _ _ found =>
    have := length_of_tail found
    simp_all

/-- Take all complete lines off a buffer. Gives the lines and what is left; a failure ends the
lines and leaves nothing. -/
def takeAll (limit : Nat) (buffer : Bytes) : List String × Bytes :=
  match taken : take limit buffer with
  | (.error _, _) => ([], [])
  | (.ok none, rest) => ([], rest)
  | (.ok (some line), rest) =>
    have := length_of_take taken
    let (lines, rest) := takeAll limit rest
    (line :: lines, rest)
termination_by buffer.length

def takeLast (limit : Nat) (buffer : Bytes) : Except Failure (Option String) × Bytes :=
  match take limit buffer with
  | (.ok none, rest) =>
    if rest.isEmpty then (.ok none, rest)
    else (.error (.transport "bytes remaining on stream"), rest)
  | other => other

def toBytes (limit : Nat) (text : String) : Except Failure Bytes :=
  let bytes := Bytes.ofText text
  if limit < bytes.length then .error (.tooLarge bytes.length limit) else .ok (bytes ++ [0])

end ScreenPreview.Control.Line
