/-! Blanks, comments, line ends, strings and keys of TOML text. -/
namespace ScreenPreview.Toml

def isBlank (c : Char) : Bool := c == ' ' || c == '\t'

def isPlain (c : Char) : Bool := c == '\t' || (' ' ≤ c && c != '\x7f')

def skip (cs : List Char) : List Char := cs.dropWhile isBlank

def lineEnd : List Char → Option (List Char)
  | [] => some []
  | '\n' :: rest => some rest
  | '\r' :: '\n' :: rest => some rest
  | _ => none

def trailing (cs : List Char) : Option (List Char) :=
  match skip cs with
  | '#' :: rest => lineEnd (rest.dropWhile isPlain)
  | rest => lineEnd rest

def skipLines (inComment : Bool) : List Char → List Char
  | [] => []
  | '\r' :: '\n' :: rest => skipLines false rest
  | '\n' :: rest => skipLines false rest
  | c :: rest =>
    if inComment then if isPlain c then skipLines true rest else c :: rest
    else if c = '#' then skipLines true rest
    else if isBlank c then skipLines false rest
    else c :: rest

def hexDigit? (c : Char) : Option Nat :=
  if c.isDigit then some (c.toNat - 48)
  else if 'a' ≤ c ∧ c ≤ 'f' then some (c.toNat - 87)
  else if 'A' ≤ c ∧ c ≤ 'F' then some (c.toNat - 55)
  else none

def charOfHex? (digits : List Char) : Option Char := do
  let values ← digits.mapM hexDigit?
  let n := values.foldl (fun n d => 16 * n + d) 0
  if n < 0xD800 ∨ (0xE000 ≤ n ∧ n < 0x110000) then some (Char.ofNat n) else none

def unescape? : Char → Option Char
  | 'b' => some '\x08'
  | 't' => some '\t'
  | 'n' => some '\n'
  | 'f' => some '\x0c'
  | 'r' => some '\r'
  | '\x22' => some '\x22'
  | '\x5c' => some '\x5c'
  | _ => none

def escape : List Char → Option (Char × List Char)
  | 'u' :: rest =>
    if rest.length < 4 then none else (charOfHex? (rest.take 4)).map (·, rest.drop 4)
  | 'U' :: rest =>
    if rest.length < 8 then none else (charOfHex? (rest.take 8)).map (·, rest.drop 8)
  | c :: rest => (unescape? c).map (·, rest)
  | [] => none

def basicRest : Nat → List Char → List Char → Option (String × List Char)
  | 0, _, _ => none
  | bound + 1, read, cs =>
    match cs with
    | '\x22' :: rest => some (String.ofList read.reverse, rest)
    | '\x5c' :: rest =>
      match escape rest with
      | some (c, rest) => basicRest bound (c :: read) rest
      | none => none
    | c :: rest => if isPlain c then basicRest bound (c :: read) rest else none
    | [] => none

def literalRest (cs : List Char) : Option (String × List Char) :=
  let inside (c : Char) : Bool := isPlain c && c != '\x27'
  match cs.dropWhile inside with
  | '\x27' :: rest => some (String.ofList (cs.takeWhile inside), rest)
  | _ => none

def skipBreaks : List Char → List Char
  | '\r' :: '\n' :: rest => skipBreaks rest
  | c :: rest => if c = '\n' ∨ isBlank c then skipBreaks rest else c :: rest
  | [] => []

def continued? (cs : List Char) : Option (List Char) :=
  match skip cs with
  | '\n' :: rest => some (skipBreaks rest)
  | '\r' :: '\n' :: rest => some (skipBreaks rest)
  | _ => none

/-- Read the rest of a string over several lines between three marks each. Up to two more marks may
stand before the closing ones. A backslash is plain in a literal string. -/
def multilineRest (mark : Char) (isLiteral : Bool) :
    Nat → List Char → List Char → Option (String × List Char)
  | 0, _, _ => none
  | bound + 1, read, cs =>
    if cs.take 5 = List.replicate 5 mark then
      some (String.ofList (mark :: mark :: read).reverse, cs.drop 5)
    else if cs.take 4 = List.replicate 4 mark then
      some (String.ofList (mark :: read).reverse, cs.drop 4)
    else if cs.take 3 = List.replicate 3 mark then
      some (String.ofList read.reverse, cs.drop 3)
    else
      match cs with
      | '\r' :: '\n' :: rest => multilineRest mark isLiteral bound ('\n' :: read) rest
      | '\n' :: rest => multilineRest mark isLiteral bound ('\n' :: read) rest
      | c :: rest =>
        if c = '\x5c' ∧ !isLiteral then
          match continued? rest with
          | some rest => multilineRest mark isLiteral bound read rest
          | none =>
            match escape rest with
            | some (c, rest) => multilineRest mark isLiteral bound (c :: read) rest
            | none => none
        else if isPlain c then multilineRest mark isLiteral bound (c :: read) rest
        else none
      | [] => none

def multiline (mark : Char) (isLiteral : Bool) (cs : List Char) : Option (String × List Char) :=
  let cs := match cs with
    | '\n' :: rest => rest
    | '\r' :: '\n' :: rest => rest
    | cs => cs
  multilineRest mark isLiteral (cs.length + 1) [] cs

def string : List Char → Option (String × List Char)
  | '\x22' :: '\x22' :: '\x22' :: rest => multiline '\x22' false rest
  | '\x22' :: rest => basicRest (rest.length + 1) [] rest
  | '\x27' :: '\x27' :: '\x27' :: rest => multiline '\x27' true rest
  | '\x27' :: rest => literalRest rest
  | _ => none

def isBare (c : Char) : Bool := c.isAlphanum || c == '-' || c == '_'

def simpleKey : List Char → Option (String × List Char)
  | '\x22' :: rest => basicRest (rest.length + 1) [] rest
  | '\x27' :: rest => literalRest rest
  | cs =>
    match cs.takeWhile isBare with
    | [] => none
    | word => some (String.ofList word, cs.dropWhile isBare)

def longestPath : Nat := 79

def pathRest : Nat → List String → List Char → Option (List String × List Char)
  | 0, _, _ => none
  | bound + 1, read, cs =>
    match simpleKey (skip cs) with
    | none => none
    | some (key, rest) =>
      match skip rest with
      | '.' :: rest => pathRest bound (key :: read) rest
      | rest => some ((key :: read).reverse, rest)

def keyPath (cs : List Char) : Option ((List String × String) × List Char) :=
  match pathRest longestPath [] cs with
  | some (keys, rest) =>
    match keys.getLast? with
    | some key => some ((keys.dropLast, key), rest)
    | none => none
  | none => none

end ScreenPreview.Toml
