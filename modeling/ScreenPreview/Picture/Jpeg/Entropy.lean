import ScreenPreview.Bytes

/-!
Coding the frequencies of a block as bits. No marker can appear in the byte string: a zero follows
every byte of ones.
-/
namespace ScreenPreview.Picture.Jpeg

structure Word where
  length : Nat
  bits : Nat
  deriving DecidableEq, Repr, Inhabited

abbrev Codebook := Array Word

def assignLength (length : Nat) : Nat → Nat → List Nat → Codebook → Nat × List Nat × Codebook
  | 0, next, symbols, book => (next, symbols, book)
  | _, next, [], book => (next, [], book)
  | count + 1, next, s :: symbols, book =>
    assignLength length count (next + 1) symbols (book.setIfInBounds s ⟨length, next⟩)

/-- Hand out code words length by length; a longer word starts where the shorter ones ended. -/
def assign : Nat → Nat → List Nat → List Nat → Codebook → Codebook
  | _, _, [], _, book => book
  | length, next, count :: counts, symbols, book =>
    let (next, symbols, book) := assignLength length count next symbols book
    assign (length + 1) (2 * next) counts symbols book

def Codebook.ofCounts (counts symbols : List Nat) : Codebook :=
  assign 1 0 counts symbols (Array.replicate 256 ⟨0, 0⟩)

def Codebook.word (book : Codebook) (symbol : Nat) : Word := book.getD symbol ⟨0, 0⟩

def bitCount (n : Nat) : Nat := if n = 0 then 0 else n.log2 + 1

/-- The bits of a magnitude: those of the number itself, or of one less than it where it is
negative, as many as the magnitude has digits. -/
def magnitude (x : Int) : Word :=
  let length := bitCount x.natAbs
  ⟨length, if x < 0 then (1 <<< length) - 1 - x.natAbs else x.natAbs⟩

/-- The words of the frequencies behind the first one, of which `run` zeros have passed. Sixteen
zeros in a row have a symbol, and so has the rest of a block without any more frequencies. -/
def runWords (book : Codebook) (run : Nat) : List Int → List Word
  | [] => if run = 0 then [] else [book.word 0x00]
  | x :: rest =>
    if x = 0 then runWords book (run + 1) rest
    else
      let value := magnitude x
      List.replicate (run / 16) (book.word 0xF0) ++
        book.word (run % 16 * 16 + value.length) :: value :: runWords book 0 rest

def blockWords (first rest : Codebook) (before : Int) : List Int → List Word
  | [] => []
  | x :: others =>
    let value := magnitude (x - before)
    first.word value.length :: value :: runWords rest 0 others

structure BitString where
  bytes : Array UInt8
  length : Nat
  pending : Nat

namespace BitString

def empty : BitString := ⟨#[], 0, 0⟩

def drain (s : BitString) : BitString :=
  if s.length < 8 then s
  else
    let rest := s.length - 8
    let byte := (s.pending >>> rest).toUInt8
    let bytes := s.bytes.push byte
    ⟨if byte = 0xFF then bytes.push 0 else bytes, rest, s.pending % (1 <<< rest)⟩

def put (s : BitString) (w : Word) : BitString :=
  drain (drain ⟨s.bytes, s.length + w.length, (s.pending <<< w.length) + w.bits⟩)

def putAll (s : BitString) (ws : List Word) : BitString := ws.foldl put s

def close (s : BitString) : Bytes := (s.put ⟨7, 0x7F⟩).bytes.toList

end BitString

end ScreenPreview.Picture.Jpeg
