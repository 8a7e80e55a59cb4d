import TopicHub.Text.CaseTable

/-!
Lower-casing of whole texts. Two characters do not map to one fixed character: a capital I with a
dot becomes two characters, and a capital sigma becomes a final sigma at the end of a word.
-/

namespace TopicHub.Text

def isCased (c : Char) : Bool := inRanges casedRanges c.toNat

def isCaseIgnorable (c : Char) : Bool := inRanges caseIgnorableRanges c.toNat

def lowerChar (c : Char) : List Char :=
  if c.toNat < 0x80 then [c.toLower]
  else if c = '\u0130' then ['i', '\u0307']
  else match lowerRuns.find? fun r =>
      r.1 ≤ c.toNat && c.toNat ≤ r.2.1 && (c.toNat - r.1) % r.2.2.1 = 0 with
    | some r => [Char.ofNat (c.toNat + r.2.2.2).toNat]
    | none => [c]

def meetsCased (s : List Char) : Bool :=
  match s.dropWhile isCaseIgnorable with
  | [] => false
  | c :: _ => isCased c

/-- `before` holds the characters already passed, the nearest first. -/
def lowerAfter (before : List Char) : List Char → List Char
  | [] => []
  | c :: s =>
    let low :=
      if c = '\u03A3' then
        if meetsCased before && !meetsCased s then ['\u03C2'] else ['\u03C3']
      else lowerChar c
    low ++ lowerAfter (c :: before) s

def lower (s : List Char) : List Char := lowerAfter [] s

end TopicHub.Text

namespace String

def lowercase (s : String) : String := ofList (TopicHub.Text.lower s.toList)

end String
