import TopicHub.Number.Reading

/-!
Backslash escapes in published texts. An escape that names no character keeps the character behind
the backslash, so that no text is refused.
-/

namespace TopicHub.Text

open TopicHub.Number

def hexFrom? (n : Nat) : List Char → Option Nat
  | [] => some n
  | c :: s => (hexDigit? c).bind fun d => hexFrom? (16 * n + d) s

/-- Four characters that spell a number: hexadecimal digits, the first of which may be a plus sign
instead. -/
def codePoint? (a b c d : Char) : Option Nat :=
  if a = '+' then hexFrom? 0 [b, c, d] else hexFrom? 0 [a, b, c, d]

def codeChar? (a b c d : Char) : Option Char :=
  (codePoint? a b c d).bind fun n => if h : n.isValidChar then some (Char.ofNatAux n h) else none

def escapedChar : Char → Char
  | 'n' => '\n'
  | 'r' => '\r'
  | 't' => '\t'
  | '0' => '\x00'
  | c => c

def unescape : List Char → List Char
  | [] => []
  | '\\' :: 'u' :: a :: b :: c :: d :: s =>
    match codeChar? a b c d with
    | some ch => ch :: unescape s
    | none => 'u' :: unescape (a :: b :: c :: d :: s)
  | '\\' :: e :: s => escapedChar e :: unescape s
  | c :: s => c :: unescape s

end TopicHub.Text

namespace String

def unescaped (s : String) : String := ofList (TopicHub.Text.unescape s.toList)

end String
