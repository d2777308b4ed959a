import GraphQuery.Text.CaseTable

/-! Lower-casing of text, the same in every language: each character by the character database,
a capital dotted `i` as `i` with a dot above, and a capital sigma by its place in the word. -/
namespace GraphQuery.Text

def inRanges (ranges : List (Nat × Nat)) (c : Char) : Bool :=
  ranges.any fun (first, last) => first ≤ c.toNat && c.toNat ≤ last

def isCased (c : Char) : Bool := inRanges casedRanges c

def isCaseIgnorable (c : Char) : Bool := inRanges caseIgnorableRanges c

def CaseRange.contains (r : CaseRange) (n : Nat) : Bool :=
  r.first ≤ n && n ≤ r.last && (n - r.first) % r.step == 0

/-- The lower-case form of a character that has one of one character, else the character. -/
def lowerChar (c : Char) : Char :=
  match lowercaseRanges.find? fun r => r.contains c.toNat with
  | some r => Char.ofNat (r.image + (c.toNat - r.first))
  | none => c

/-- Whether a letter stands next, looking past what does not separate letters. -/
def letterNext (cs : List Char) : Bool :=
  match cs.dropWhile isCaseIgnorable with
  | [] => false
  | c :: _ => isCased c

/-- Capital sigma becomes final sigma after a letter and not before one. -/
def lowerSigma (before after : List Char) : Char :=
  if letterNext before && !letterNext after then 'ς' else 'σ'

/-- The lower-case form of a character between what precedes it, nearest first, and what
follows. -/
def lowerBetween (before : List Char) (c : Char) (after : List Char) : List Char :=
  if c = 'Σ' then [lowerSigma before after]
  else if c = 'İ' then ['i', '\u0307']
  else [lowerChar c]

def lowerFrom (before : List Char) : List Char → List Char
  | [] => []
  | c :: cs => lowerBetween before c cs ++ lowerFrom (c :: before) cs

def lowercase (text : String) : String := String.ofList (lowerFrom [] text.toList)

end GraphQuery.Text
