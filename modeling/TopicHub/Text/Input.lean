import TopicHub.Text.Cut

/-!
The payload in place of the word `input`, and the tests that tell a calculation from other text.
-/

namespace TopicHub.Text

def inputWord : List Char := "input".toList

def replaceInput (text payload : List Char) : List Char := replace inputWord payload text

def startsAnyCase : (word text : List Char) → Bool
  | [], _ => true
  | _ :: _, [] => false
  | a :: w, c :: s => c.toLower = a && startsAnyCase w s

/-- Each occurrence of `word` in any ASCII case becomes `new`, from left to right and without overlap.
The first `skip` characters belong to an occurrence that has been replaced. -/
def replaceAnyCaseFrom (word new : List Char) : (skip : Nat) → List Char → List Char
  | _, [] => []
  | skip + 1, _ :: s => replaceAnyCaseFrom word new skip s
  | 0, c :: s =>
    if startsAnyCase word (c :: s) then new ++ replaceAnyCaseFrom word new (word.length - 1) s
    else c :: replaceAnyCaseFrom word new 0 s

def replaceAnyCase (word new text : List Char) : List Char := replaceAnyCaseFrom word new 0 text

def replaceInputAnyCase (text payload : List Char) : List Char :=
  replaceAnyCase inputWord payload text

def isMathOperator (c : Char) : Bool :=
  c = '+' || c = '-' || c = '*' || c = '/' || c = '^' || c = '=' || c = '%'

def hasMathOperators (text : List Char) : Bool := text.any isMathOperator

def looksLikeCalculation (text : List Char) : Bool :=
  hasMathOperators text || containsIgnoreCase text "NOT".toList

end TopicHub.Text
