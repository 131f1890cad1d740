/-! Paths: those of sockets, derived from a directory and one base name, and their parts. -/
namespace ScreenPreview.Local

/-- A name inside a directory. An absolute name stands for itself; a slash comes between unless
the directory ends in one or is empty. -/
def join (dir name : String) : String :=
  if name.toList.head? = some '/' then name
  else if dir.toList.getLast?.all (· == '/') then dir ++ name
  else dir ++ "/" ++ name

structure SocketNames where
  dir : String
  base : String
  deriving DecidableEq, Repr

namespace SocketNames

def trace (n : SocketNames) : String := join n.dir n.base

def command (n : SocketNames) : String := join n.dir (n.base ++ "_commandPipe")

def image (n : SocketNames) : String := join n.dir (n.base ++ "_imagePipe")

end SocketNames

def slashParts : List Char → List (List Char)
  | [] => [[]]
  | c :: rest =>
    if c = '/' then [] :: slashParts rest
    else
      match slashParts rest with
      | [] => [[c]]
      | part :: others => (c :: part) :: others

def pathParts (path : String) : List String := (slashParts path.toList).map String.ofList

def withoutEndSlashes (path : String) : String :=
  String.ofList (path.toList.reverse.dropWhile (· == '/')).reverse

def withoutIdleStart (path : String) : String :=
  "/".intercalate ((pathParts path).dropWhile fun part => part == "" || part == ".")

def isName (part : String) : Bool :=
  decide (part.utf8ByteSize ≤ 255) && !part.toList.contains '\x00'

def longestSocketPath : Nat := 91

end ScreenPreview.Local
