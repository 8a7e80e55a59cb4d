/-!
White space in the sense of the Unicode property `White_Space`, 25 characters, and the trimming
that goes with it.
-/

namespace TopicHub.Text

def blankRanges : List (Nat × Nat) :=
  [(0x09, 0x0D), (0x20, 0x20), (0x85, 0x85), (0xA0, 0xA0), (0x1680, 0x1680), (0x2000, 0x200A),
  (0x2028, 0x2029), (0x202F, 0x202F), (0x205F, 0x205F), (0x3000, 0x3000)]

def inRanges (ranges : List (Nat × Nat)) (n : Nat) : Bool :=
  ranges.any fun r => r.1 ≤ n && n ≤ r.2

def isBlank (c : Char) : Bool := inRanges blankRanges c.toNat

/-- The blanks that separate the tokens of a marker: ASCII only, without the vertical tab. -/
def isAsciiBlank (c : Char) : Bool :=
  c = ' ' || c = '\t' || c = '\n' || c = '\x0c' || c = '\r'

def trimStart (s : List Char) : List Char := s.dropWhile isBlank

def trimEndWhile (p : Char → Bool) (s : List Char) : List Char :=
  (s.reverse.dropWhile p).reverse

def trimEnd (s : List Char) : List Char := trimEndWhile isBlank s

def trim (s : List Char) : List Char := trimEnd (trimStart s)

def unquote (s : List Char) : List Char :=
  let isQuote c := c = '\'' || c = '"'
  trim (trimEndWhile isQuote ((trim s).dropWhile isQuote))

end TopicHub.Text

namespace String

def trimBlank (s : String) : String := ofList (TopicHub.Text.trim s.toList)

end String
