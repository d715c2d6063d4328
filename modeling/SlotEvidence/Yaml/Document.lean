/-
Module: SlotEvidence.Yaml.Document
Purpose: Finding the document of a YAML text: what is before it and after it, and its lines.
Trusted boundary: the YAML library's marks of documents
Main exports: Yaml.Document, Yaml.document?
-/
import SlotEvidence.Yaml.Token

namespace SlotEvidence

namespace Yaml

structure Document where
  /-- Whether a marker stands before the content in its first line. -/
  marked : Bool
  content : List Char
deriving DecidableEq

/-- A character that a text may hold. -/
def isAllowed (c : Char) : Bool :=
  let n := c.toNat
  c = '\t' || c = '\n' || c = '\r' || (0x20 ≤ n && n < 0x7f) || n = 0x85 || (0xa0 ≤ n && n < 0xfffe)
    || 0x10000 ≤ n

/-- The text with line feeds for carriage returns, for both together and for the next-line
character. -/
def unifyBreaks : List Char → List Char
  | [] => []
  | '\r' :: '\n' :: rest => '\n' :: unifyBreaks rest
  | '\r' :: rest => '\n' :: unifyBreaks rest
  | c :: rest => (if c.toNat = 0x85 then '\n' else c) :: unifyBreaks rest

/-- The text in lines, each with its end. -/
def splitLines : List Char → List (List Char)
  | [] => []
  | c :: rest =>
      if isBreak c then [c] :: splitLines rest
      else
        match splitLines rest with
        | line :: lines => (c :: line) :: lines
        | [] => [[c]]

/-- What follows a marker of three characters at the start of a line. -/
def afterMarker? (marker : Char) : List Char → Option (List Char)
  | a :: b :: c :: rest =>
      if a = marker ∧ b = marker ∧ c = marker ∧ endsWord rest.head? then some rest else none
  | _ => none

/-- Whether a line holds nothing, or a comment only. -/
def isEmptyLine (line : List Char) : Bool :=
  match line.dropWhile fun c => c = ' ' || isBreak c with
  | [] => true
  | c :: _ => c = '#'

/-- Whether a line holds nothing, or only a comment or the marker of a document's end. -/
def isEndLine (line : List Char) : Bool :=
  match afterMarker? '.' line with
  | some rest => isEmptyLine rest
  | none => isEmptyLine line

/-- The lines up to the marker of the document's end.  No other document may follow. -/
def body? : List (List Char) → Option (List (List Char))
  | [] => some []
  | line :: rest =>
      if (afterMarker? '.' line).isSome then
        if (line :: rest).all isEndLine then some [] else none
      else if (afterMarker? '-' line).isSome then none
      else (body? rest).map (line :: ·)

/-- The only document in lines.  A marker may come before it; after directives it must. -/
def documentOf? (directed : Bool) : List (List Char) → Option Document
  | [] => if directed then none else some ⟨false, []⟩
  | line :: rest =>
      match afterMarker? '-' line with
      | some content => (body? rest).map fun lines => ⟨true, content ++ lines.flatten⟩
      | none =>
          if isEmptyLine line then documentOf? directed rest
          else if line.head? = some '%' then documentOf? true rest
          else if directed ∨ (afterMarker? '.' line).isSome then none
          else (body? (line :: rest)).map fun lines => ⟨false, lines.flatten⟩

/-- The only document of a text.  A byte order mark may come before everything. -/
def document? (text : String) : Option Document :=
  let chars := text.toList
  if chars.all isAllowed then
    let chars := if chars.head? = some '\ufeff' then chars.drop 1 else chars
    documentOf? false (splitLines (unifyBreaks chars))
  else none

end Yaml

end SlotEvidence
