/-! TOML text of settings: sections of single values. -/
namespace ScreenPreview.Toml

def escapeNumber (n : Nat) : List Char :=
  ['\x5c', 'u', '0', '0', Nat.digitChar (n / 16), Nat.digitChar (n % 16)]

def escapeChars (c : Char) : List Char :=
  if c = '\x22' then ['\x5c', '\x22']
  else if c = '\x5c' then ['\x5c', '\x5c']
  else if c = '\t' ∨ (' ' ≤ c ∧ c ≠ '\x7f') then [c]
  else if c = '\n' then ['\x5c', 'n']
  else escapeNumber c.toNat

def quoted (s : String) : String :=
  String.ofList ('\x22' :: s.toList.flatMap escapeChars ++ ['\x22'])

inductive Setting where
  | text (s : String)
  | int (n : Int)
  | bool (b : Bool)
  deriving DecidableEq, Repr

def Setting.render : Setting → String
  | text s => quoted s
  | int n => toString n
  | bool b => if b then "true" else "false"

def renderPair (pair : String × Setting) : String := pair.1 ++ " = " ++ pair.2.render ++ "\n"

def renderSection (s : String × List (String × Setting)) : String :=
  "[" ++ s.1 ++ "]\n" ++ String.join (s.2.map renderPair)

def render (sections : List (String × List (String × Setting))) : String :=
  "\n".intercalate (sections.map renderSection)

end ScreenPreview.Toml
