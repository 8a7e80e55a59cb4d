import TopicHub.Yaml.Style

/-!
Values as YAML text, a line for each entry. A collection within a sequence starts on the line of its
dash, and a sequence below a key is not indented further than the key.
-/

namespace TopicHub.Yaml

open Text

def isTagTextChar (c : Char) : Bool :=
  isNameChar c || ";/?:@&=+$,.!~*'()[]".toList.contains c

def percentOctet (n : UInt8) : List Char := '%' :: hexDigits 2 n.toNat

def tagText (name : String) : List Char :=
  '!' :: name.toList.flatMap fun c =>
    if isTagTextChar c then [c] else (String.singleton c).toUTF8.toList.flatMap percentOctet

def inlineText? (indent : Nat) : Value → Option (List Char)
  | .null => some "null".toList
  | .bool b => some (if b then "true" else "false").toList
  | .number n => some n.text.toList
  | .string s => some (stringText indent s.toList)
  | .sequence [] => some ['[', ']']
  | .mapping [] => some ['{', '}']
  | _ => none

def keyLimit : Nat := 128

/-- Whether a key stands in front of its colon, without a question mark; `before` counts the octets of
its tag. -/
def isSimpleKey (before : Nat) : Value → Bool
  | .tagged name v => isSimpleKey (before + 1 + name.utf8ByteSize) v
  | .string s => !(s.toList.any isBreak) && before + s.utf8ByteSize ≤ keyLimit
  | v => (inlineText? 0 v).isSome && before ≤ keyLimit

def keyChars : Value → List Char
  | .tagged name v => tagText name ++ ' ' :: keyChars v
  | v => (inlineText? 0 v).getD []

def startLine (column : Nat) (out : List Char) : List Char :=
  out ++ (if out.getLast? = some '\n' then [] else ['\n']) ++ List.replicate column ' '

def beforeEntry (onLine : Bool) (column : Nat) (out : List Char) : List Char :=
  if onLine then out else startLine column out

mutual
/-- Writes a value behind a mark. Its entries go to the column `inner`, those of a sequence that does
not start on the line of the mark to the column `items`. -/
def writeValue (out : List Char) (inner items : Nat) (sameLine : Bool) : Value → List Char
  | .tagged name v => writeValue (out ++ ' ' :: tagText name) inner items false v
  | .sequence (v :: rest) =>
    writeItems (if sameLine then out ++ [' '] else out) (if sameLine then inner else items) sameLine
      (v :: rest)
  | .mapping (e :: rest) =>
    writeEntries (if sameLine then out ++ [' '] else out) inner sameLine (e :: rest)
  | v => out ++ ' ' :: (inlineText? (max inner 2) v).getD []

def writeItems (out : List Char) (column : Nat) (onLine : Bool) : List Value → List Char
  | [] => out
  | v :: rest =>
    let out := beforeEntry onLine column out ++ ['-']
    writeItems (writeValue out (column + 2) (column + 2) true v) column false rest

def writeEntries (out : List Char) (column : Nat) (onLine : Bool) :
    List (Value × Value) → List Char
  | [] => out
  | (k, v) :: rest =>
    let out := beforeEntry onLine column out
    if isSimpleKey 0 k then
      let out := writeValue (out ++ keyChars k ++ [':']) (column + 2) column false v
      writeEntries out column false rest
    else
      let out := startLine column (writeValue (out ++ ['?']) (column + 2) (column + 2) true k)
      let out := writeValue (out ++ [':']) (column + 2) (column + 2) true v
      writeEntries out column false rest
end

def Value.text (v : Value) : String := String.ofList (trim (writeValue [] 0 0 true v))

end TopicHub.Yaml
