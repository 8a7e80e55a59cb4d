import TopicHub.Expression.Run
import TopicHub.Json.Inline
import TopicHub.Marker
import TopicHub.Text.Alphabetic

/-!
Names in place of values. A text without markers is taken as arithmetic over the names of topics; in any
other text the read markers are replaced. A name without a value leaves the text as it is.
-/

namespace TopicHub.Variables

open Text Marker

/-- Whether the words of a text may be names of topics: it is no object and has no marker of any kind
in it, not even one in another letter case. -/
def usesBareNames (text : List Char) : Bool :=
  (trimStart text).head? ≠ some '{' && !readKeywords.any (containsIgnoreCase text) &&
    !containsIgnoreCase text "Calc".toList && !contains text [':', ':']

def resolveWord (lookup : String → Option String) (word : List Char) : Option (List Char) :=
  if word.head?.any isAlphabetic then (lookup (String.ofList word)).map String.toList
  else some word

def words (text : List Char) : List (List Char) := (splitOn ' ' text).filter fun w => !w.isEmpty

/-- If one name has no value, all stays as it was. -/
def resolveBareNames (lookup : String → Option String) (text : List Char) : List Char :=
  match (words text).mapM (resolveWord lookup) with
  | some resolved => List.intercalate [' '] resolved
  | none => text

/-- The value of a marker, given the payload of its topic: that payload, or the field of it that the
key of the marker names. -/
def valueOf : (payload key : Option String) → Option (List Char)
  | none, _ => none
  | some payload, none => some payload.toList
  | some payload, some key => (Json.memberOf payload key).map fun v => v.plainText.toList

section

variable {m : Type → Type} [Monad m] (lookup : String → m (Option String))

/-- The values of at most `n` markers are looked up, from left to right, and each is put in place of its
marker. The search starts at a byte offset. It goes on behind a value, and behind the first letter of a
marker without one. -/
def replaceFrom : Nat → (text : List Char) → (offset : Nat) → m (List Char)
  | 0, text, _ => pure text
  | n + 1, text, offset =>
    match findReadFrom text offset with
    | none => pure text
    | some p => do
      match valueOf (← lookup p.marker.topic) p.marker.key with
      | some value => replaceFrom n (p.before ++ value ++ p.after) (p.start + utf8Size value)
      | none => replaceFrom n text (p.start + 1)

/-- The number of markers is limited by what the text holds before the first of them is replaced. -/
def resolveReadMarkers (text : List Char) : m (List Char) :=
  replaceFrom lookup (readMarkers text).length text 0

end

def resolve (lookup : String → Option String) (text : List Char) : List Char :=
  if usesBareNames text then resolveBareNames lookup text
  else Id.run (resolveReadMarkers (fun topic => pure (lookup topic)) text)

end TopicHub.Variables
