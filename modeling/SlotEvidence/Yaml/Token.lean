/-
Module: SlotEvidence.Yaml.Token
Purpose: The tokens of a YAML document and the classes of characters that tell them apart.
Trusted boundary: the YAML library's classes of characters
Main exports: Yaml.Token, Yaml.isBlank, Yaml.isBreak, Yaml.endsWord, Yaml.endsPlain
-/

namespace SlotEvidence

namespace Yaml

inductive Token where
  /-- A scalar without quotes. -/
  | plain (text : String)
  /-- A scalar between quotes, or one that is set off as a block of lines. -/
  | quoted (text : String)
  /-- Before the key of an entry. -/
  | key
  /-- Before the value of an entry. -/
  | colon
  /-- Before an item of a list in block form. -/
  | dash
  | comma
  | leftBracket
  | rightBracket
  | leftBrace
  | rightBrace
  /-- Before the first item of a list in block form. -/
  | listStart
  /-- Before the first entry of a mapping in block form. -/
  | mappingStart
  /-- After the last item or entry in block form. -/
  | blockEnd
deriving DecidableEq

def isBlank (c : Char) : Bool := c = ' ' || c = '\t'

def isBreak (c : Char) : Bool := c = '\n' || c = '\u2028' || c = '\u2029'

def endsWord : Option Char → Bool
  | none => true
  | some c => isBlank c || isBreak c

/-- Whether a character has a meaning of its own between brackets. -/
def isFlowIndicator (c : Char) : Bool := c ∈ [',', '[', ']', '\x7b', '\x7d']

/-- Whether a character ends a row of characters without quotes, given the next character.  Between
brackets more characters do. -/
def endsPlain (inBrackets : Bool) (c : Char) (next : Option Char) : Bool :=
  isBlank c || isBreak c
    || (c = ':' && (endsWord next || (inBrackets && (next.map isFlowIndicator).getD false)))
    || (inBrackets && (c = '?' || isFlowIndicator c))

end Yaml

end SlotEvidence
