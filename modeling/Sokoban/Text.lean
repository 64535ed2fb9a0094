/-! # Texts

How a text is taken apart into lines, how blank characters are trimmed, and how bytes are read as
text without refusing any.
-/

namespace Sokoban.Text

/-! ## Lines

A line ends at a line feed, or at the end of the text if something stands there. A carriage return
right before the line feed belongs to the line's end; other carriage returns are ordinary.
-/

def lines : List Char → List (List Char)
  | [] => []
  | '\r' :: '\n' :: rest => [] :: lines rest
  | '\n' :: rest => [] :: lines rest
  | c :: rest =>
    match lines rest with
    | [] => [[c]]
    | line :: more => (c :: line) :: more

def contains (part : List Char) : List Char → Bool
  | [] => part.isEmpty
  | c :: rest => part.isPrefixOf (c :: rest) || contains part rest

/-! ## Blank characters

The blank characters are those with the property `White_Space` of the Unicode standard. Trimming
takes them off both ends of a text and leaves those inside.
-/

def blankRanges : List (Nat × Nat) :=
  [(0x09, 0x0D), (0x20, 0x20), (0x85, 0x85), (0xA0, 0xA0), (0x1680, 0x1680), (0x2000, 0x200A),
   (0x2028, 0x2029), (0x202F, 0x202F), (0x205F, 0x205F), (0x3000, 0x3000)]

def isBlank (c : Char) : Bool :=
  blankRanges.any fun (first, last) => decide (first ≤ c.toNat) && decide (c.toNat ≤ last)

def trimEnd (l : List Char) : List Char := (l.reverse.dropWhile isBlank).reverse

def trim (l : List Char) : List Char := trimEnd (l.dropWhile isBlank)

/-! ## Bytes

Bytes that are well-formed UTF-8 are read as their characters. Of ill-formed bytes, each longest
start of a well-formed sequence, or else the single byte, is read as U+FFFD.
-/

/-- A multi-byte sequence that has begun: its value so far, the number of bytes still expected, and
the range of the next one. -/
structure Partial where
  value : Nat
  missing : Nat
  low : UInt8
  high : UInt8

/-- The character that stands for ill-formed bytes. -/
def replacement : Char := Char.ofNat 0xFFFD

/-- What a byte gives when no sequence has begun: characters read, and a sequence that it begins. -/
def startByte (b : UInt8) : List Char × Option Partial :=
  let value := b.toNat
  if value < 0x80 then ([Char.ofNat value], none)
  else if value < 0xC2 then ([replacement], none)
  else if value < 0xE0 then ([], some ⟨value - 0xC0, 1, 0x80, 0xBF⟩)
  else if value = 0xE0 then ([], some ⟨0, 2, 0xA0, 0xBF⟩)
  else if value = 0xED then ([], some ⟨0xD, 2, 0x80, 0x9F⟩)
  else if value < 0xF0 then ([], some ⟨value - 0xE0, 2, 0x80, 0xBF⟩)
  else if value = 0xF0 then ([], some ⟨0, 3, 0x90, 0xBF⟩)
  else if value < 0xF4 then ([], some ⟨value - 0xF0, 3, 0x80, 0xBF⟩)
  else if value = 0xF4 then ([], some ⟨4, 3, 0x80, 0x8F⟩)
  else ([replacement], none)

def nextByte (begun : Option Partial) (b : UInt8) : List Char × Option Partial :=
  match begun with
  | none => startByte b
  | some p =>
    if p.low ≤ b ∧ b ≤ p.high then
      let value := p.value * 64 + (b.toNat - 0x80)
      if p.missing ≤ 1 then ([Char.ofNat value], none)
      else ([], some ⟨value, p.missing - 1, 0x80, 0xBF⟩)
    else
      let (read, begun) := startByte b
      (replacement :: read, begun)

def decodeFrom (begun : Option Partial) : List UInt8 → List Char
  | [] => if begun.isSome then [replacement] else []
  | b :: rest =>
    let (read, begun) := nextByte begun b
    read ++ decodeFrom begun rest

def decodeLossy (bytes : ByteArray) : String :=
  match String.fromUTF8? bytes with
  | some text => text
  | none => String.ofList (decodeFrom none bytes.toList)

end Sokoban.Text
