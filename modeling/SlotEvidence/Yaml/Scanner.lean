/-
Module: SlotEvidence.Yaml.Scanner
Purpose: From the characters of a YAML document to its tokens.  Columns decide where lists and
  mappings in block form begin and end.
Trusted boundary: the YAML library's rules for columns and simple keys
Main exports: Yaml.Scanner, Yaml.scan?
-/
import SlotEvidence.Yaml.Content

namespace SlotEvidence

namespace Yaml

structure Scanner where
  /-- The tokens before, the latest first. -/
  tokens : List Token
  /-- The columns of the lists and mappings in block form that are open, the innermost first. -/
  blocks : List Nat
  /-- The number of open brackets. -/
  depth : Nat
  /-- Whether a scalar that begins here may be a key. -/
  keyAllowed : Bool
  /-- The column of the latest token, if it is a scalar in this line that may be a key. -/
  key? : Option Nat

namespace Scanner

/-- The scanner before the first token. -/
def start (keyAllowed : Bool) : Scanner := ⟨[], [], 0, keyAllowed, none⟩

/-- The least column of what is inside the innermost block. -/
def least (s : Scanner) : Nat :=
  match s.blocks with
  | [] => 0
  | column :: _ => column + 1

def inBrackets (s : Scanner) : Bool := s.depth ≠ 0

/-- Adds a token that is no scalar.  A key may follow it or not. -/
def push (s : Scanner) (token : Token) (keyAllowed : Bool) : Scanner :=
  { s with tokens := token :: s.tokens, keyAllowed, key? := none }

/-- Whether what begins in a column, the first thing in its line, must be a key: the entries of the
innermost block begin there. -/
def mustBeKey (s : Scanner) (column : Nat) : Bool :=
  s.keyAllowed && !s.inBrackets && s.blocks.head? = some column

/-- Closes the blocks that begin to the right of a column. -/
def closeTo (s : Scanner) (column : Nat) : Scanner :=
  let closed := s.blocks.takeWhile (column < ·)
  { s with
    tokens := List.replicate closed.length .blockEnd ++ s.tokens
    blocks := s.blocks.drop closed.length }

/-- Adds a scalar that begins in a column.  It can be a key only in the line where it begins. -/
def pushScalar (s : Scanner) (token : Token) (column : Nat) (crossed : Bool) : Scanner :=
  { s with
    tokens := token :: s.tokens
    keyAllowed := crossed
    key? := if s.keyAllowed && !crossed then some column else none }

/-- Adds the dash of an item.  The first item of a list opens a block. -/
def pushDash? (s : Scanner) (column : Nat) : Option Scanner :=
  if s.inBrackets || !s.keyAllowed then none
  else if s.least ≤ column then
    some ({ s with tokens := .listStart :: s.tokens, blocks := column :: s.blocks }.push .dash true)
  else some (s.push .dash true)

/-- Adds a colon.  The scalar before it is a key, and the first key of a mapping opens a block. -/
def pushColon? (s : Scanner) : Option Scanner :=
  match s.key?, s.tokens with
  | some column, scalar :: before =>
      if !s.inBrackets && s.least ≤ column then
        let opened := { s with blocks := column :: s.blocks }
        some ({ opened with tokens := scalar :: .key :: .mappingStart :: before }.push .colon false)
      else some ({ s with tokens := scalar :: .key :: before }.push .colon false)
  | _, _ => none

/-- Goes on in the next line. -/
def endLine (s : Scanner) : Scanner :=
  { s with keyAllowed := s.keyAllowed || !s.inBrackets, key? := none }

/-- The tokens at the end of the document, where no bracket may be open. -/
def finish? (s : Scanner) : Option (List Token) :=
  if s.inBrackets then none
  else some (List.replicate s.blocks.length Token.blockEnd ++ s.tokens).reverse

end Scanner

/-- The scanner between two tokens, and what it has not seen yet. -/
structure Position where
  scanner : Scanner
  column : Nat
  rest : List Char

namespace Position

/-- The position after one character. -/
def step (column : Nat) (rest : List Char) (s : Scanner) : Position := ⟨s, column + 1, rest⟩

/-- Whether a colon follows in the same line. -/
def isKey (t : Taken) : Bool :=
  match t.rest.dropWhile (· = ' ') with
  | c :: rest => !t.crossed && c = ':' && endsWord rest.head?
  | [] => false

def takePlain (s : Scanner) (column : Nat) (chars : List Char) : Option Position :=
  let t := Yaml.takePlain s.inBrackets s.least (chars.length + 1) column chars
  if t.content = [] ∨ (s.mustBeKey column ∧ !isKey t) then none
  else
    some ⟨s.pushScalar (.plain (String.ofList t.content)) column t.crossed, t.column, t.rest⟩

/-- Takes a scalar from after its first quotation mark on. -/
def takeQuoted (s : Scanner) (mark : Char) (column : Nat) (rest : List Char) : Option Position :=
  (takeQuoted? mark (rest.length + 1) (column + 1) rest).bind fun t =>
    let pushed := s.pushScalar (.quoted (String.ofList t.content)) column t.crossed
    if s.mustBeKey column ∧ !isKey t then none
    else some ⟨{ pushed with keyAllowed := false }, t.column, t.rest⟩

/-- Takes a block of lines, from after its mark on. -/
def takeBlock (s : Scanner) (folded : Bool) (rest : List Char) : Option Position :=
  (takeBlock? folded s.least rest).map fun t =>
    ⟨s.push (.quoted (String.ofList t.content)) true, t.column, t.rest⟩

/-- Takes an opening bracket.  Only scalars are keys. -/
def openBracket (s : Scanner) (token : Token) (column : Nat) (rest : List Char) : Option Position :=
  if s.mustBeKey column then none
  else some (step column rest ({ s with depth := s.depth + 1 }.push token true))

def closeBracket (s : Scanner) (token : Token) (column : Nat) (rest : List Char) :
    Option Position :=
  if s.inBrackets then some (step column rest ({ s with depth := s.depth - 1 }.push token false))
  else none

/-- Takes the token that begins with a character. -/
def takeToken (s : Scanner) (column : Nat) (c : Char) (rest : List Char) : Option Position :=
  let s := if s.inBrackets then s else s.closeTo column
  let plain := takePlain s column (c :: rest)
  match c with
  | '[' => openBracket s .leftBracket column rest
  | '\x7b' => openBracket s .leftBrace column rest
  | ']' => closeBracket s .rightBracket column rest
  | '\x7d' => closeBracket s .rightBrace column rest
  | ',' => if s.inBrackets then some (step column rest (s.push .comma true)) else none
  | '\'' | '"' => takeQuoted s c column rest
  | '|' | '>' => if s.inBrackets then none else takeBlock s (c = '>') rest
  | ':' =>
      if s.inBrackets || endsWord rest.head? then s.pushColon?.map (step column rest) else plain
  | '-' =>
      if endsWord rest.head? then (s.pushDash? column).map (step column rest) else plain
  | '?' => if s.inBrackets || endsWord rest.head? then none else plain
  | '\t' | '&' | '*' | '!' | '%' | '@' => none
  | c => if c.toNat = 0x60 then none else plain

end Position

/-- The tokens from a position on.  Each step takes one from the fuel. -/
def scanFrom? : (fuel : Nat) → Scanner → (column : Nat) → List Char → Option (List Token)
  | 0, _, _, _ => none
  | _ + 1, s, _, [] => s.finish?
  | fuel + 1, s, column, c :: rest =>
      if c = ' ' then scanFrom? fuel s (column + 1) rest
      else if c = '#' then scanFrom? fuel s column (rest.dropWhile (!isBreak ·))
      else if isBreak c then scanFrom? fuel s.endLine 0 rest
      else
        (Position.takeToken s column c rest).bind fun p =>
          scanFrom? fuel p.scanner p.column p.rest

/-- The tokens of a document.  After a marker in the same line there can be no key. -/
def scan? (marked : Bool) (chars : List Char) : Option (List Token) :=
  scanFrom? (chars.length + 1) (.start !marked) (if marked then 3 else 0) chars

end Yaml

end SlotEvidence
