/-
Module: SlotEvidence.Yaml.Content
Purpose: The contents of scalars.  A scalar may go over several lines; the ends of lines in it are
  folded, unless it keeps its lines as they are.
Trusted boundary: the YAML library's folding of lines
Main exports: Yaml.Taken, Yaml.fold, Yaml.takePlain, Yaml.takeQuoted?, Yaml.takeBlock?
-/
import SlotEvidence.Hex
import SlotEvidence.Yaml.Token

namespace SlotEvidence

namespace Yaml

/-- What has been taken from the front of a text. -/
structure Taken where
  content : List Char
  rest : List Char
  /-- The column where the rest begins. -/
  column : Nat
  /-- Whether a line has ended on the way. -/
  crossed : Bool

namespace Taken

/-- Nothing has been taken yet. -/
def nothing (column : Nat) (chars : List Char) : Taken := ⟨[], chars, column, false⟩

/-- Puts content that has been taken before in front. -/
def after (t : Taken) (content : List Char) : Taken := { t with content := content ++ t.content }

/-- Tells that a line has ended before. -/
def afterLine (t : Taken) : Taken := { t with crossed := true }

end Taken

/-- Takes blanks and ends of lines; the latter are the content. -/
def takeBreaks (blank : Char → Bool) (column : Nat) : List Char → Taken
  | [] => .nothing column []
  | c :: rest =>
      if isBreak c then ((takeBreaks blank 0 rest).after [c]).afterLine
      else if blank c then takeBreaks blank (column + 1) rest
      else .nothing column (c :: rest)

/-- Ends of lines, folded: a single line feed becomes a blank, and the first of several is left
out. -/
def fold : List Char → List Char
  | ['\n'] => [' ']
  | '\n' :: more => more
  | breaks => breaks

/-- Takes the gap between two words.  Blanks inside a line stay, those around its end go. -/
def takeGap (blank : Char → Bool) (column : Nat) (chars : List Char) : Taken :=
  let gap := takeBreaks blank column chars
  { gap with content := if gap.crossed then fold gap.content else chars.takeWhile blank }

/-- Takes a word of a scalar without quotes. -/
def takeWord (inBrackets : Bool) (column : Nat) : List Char → Taken
  | [] => .nothing column []
  | c :: rest =>
      if endsPlain inBrackets c rest.head? then .nothing column (c :: rest)
      else (takeWord inBrackets (column + 1) rest).after [c]

/-- Takes the words of a scalar without quotes.  A word at the start of a line belongs to it only
from the column `least` on; between brackets every column will do.  Each word takes one from the
fuel. -/
def takePlain (inBrackets : Bool) (least : Nat) : (fuel : Nat) → (column : Nat) → List Char → Taken
  | 0, column, chars => .nothing column chars
  | fuel + 1, column, chars =>
      let word := takeWord inBrackets column chars
      if word.content = [] ∨ chars.head? = some '#' then .nothing column chars
      else
        let gap := takeGap (· = ' ') word.column word.rest
        if gap.content = [] ∨ (!inBrackets ∧ gap.column < least) then
          { gap with content := word.content }
        else
          let more := takePlain inBrackets least fuel gap.column gap.rest
          let content :=
            if more.content = [] then word.content
            else word.content ++ gap.content ++ more.content
          { more with content, crossed := gap.crossed || more.crossed }

/-- The characters for which one letter stands after a backslash. -/
def escapes : List (Char × Nat) :=
  [('0', 0), ('a', 7), ('b', 8), ('t', 9), ('\t', 9), ('n', 10), ('v', 11), ('f', 12), ('r', 13),
   ('e', 27), (' ', 32), ('"', 34), ('/', 47), ('\\', 92), ('N', 0x85), ('_', 0xa0), ('L', 0x2028),
   ('P', 0x2029)]

/-- The numbers of digits that letters after a backslash call for. -/
def escapeWidths : List (Char × Nat) := [('x', 2), ('u', 4), ('U', 8)]

/-- The character that hexadecimal digits number. -/
def numbered? (width : Nat) (digits : List Char) : Option Char := do
  let values ← (digits.take width).mapM Hex.digitValue?
  if values.length = width then
    some (Char.ofNat (values.foldl (fun n digit => 16 * n + digit) 0))
  else none

/-- Takes what a backslash stands for together with the characters after it.  At the end of a line
both vanish. -/
def takeEscape? (column : Nat) : List Char → Option Taken
  | [] => none
  | c :: rest =>
      if isBreak c then some (takeBreaks isBlank 0 rest).afterLine
      else
        match escapes.lookup c, escapeWidths.lookup c with
        | some n, _ => some ⟨[Char.ofNat n], rest, column + 1, false⟩
        | none, some width =>
            (numbered? width rest).map fun digit =>
              ⟨[digit], rest.drop width, column + 1 + width, false⟩
        | none, none => none

/-- Takes the content of a scalar up to the quotation mark that ends it.  Two apostrophes stand for
one; a backslash counts only between double quotes.  Each step takes one from the fuel. -/
def takeQuoted? (mark : Char) : (fuel : Nat) → (column : Nat) → List Char → Option Taken
  | 0, _, _ => none
  | _ + 1, _, [] => none
  | fuel + 1, column, c :: rest =>
      let go (t : Taken) : Option Taken :=
        (takeQuoted? mark fuel t.column t.rest).map fun more =>
          { more.after t.content with crossed := t.crossed || more.crossed }
      if c = mark then
        if mark = '\'' ∧ rest.head? = some mark then go ⟨[mark], rest.drop 1, column + 2, false⟩
        else some (.nothing (column + 1) rest)
      else if c = '\\' ∧ mark = '"' then (takeEscape? (column + 1) rest).bind go
      else if isBlank c || isBreak c then go (takeGap isBlank column (c :: rest))
      else go ⟨[c], rest, column + 1, false⟩

/-- What becomes of the ends of lines at the end of a block of lines. -/
inductive Tail where
  | strip
  | clip
  | keep
deriving DecidableEq

/-- Takes the marks after the one that begins a block of lines: a sign tells the tail, a digit by
how much the lines are indented.  They may come in either order, each once. -/
def takeMarks (tail : Option Tail) (indent : Option Nat) :
    List Char → Option Tail × Option Nat × List Char
  | [] => (tail, indent, [])
  | c :: rest =>
      if tail = none ∧ c = '+' then takeMarks (some .keep) indent rest
      else if tail = none ∧ c = '-' then takeMarks (some .strip) indent rest
      else if indent = none ∧ c.isDigit ∧ c ≠ '0' then
        takeMarks tail (some (c.toNat - '0'.toNat)) rest
      else (tail, indent, c :: rest)

/-- Goes to the next line.  There may be blanks before it, and after them a comment. -/
def nextLine? (chars : List Char) : Option (List Char) :=
  let rest := chars.dropWhile (· = ' ')
  let comment := rest.head? = some '#' ∧ chars.head? = some ' '
  let rest := if comment then rest.dropWhile (!isBreak ·) else rest
  match rest with
  | [] => some []
  | c :: rest => if isBreak c then some rest else none

/-- The greatest number of blanks at the start of lines up to the first character that is neither
a blank nor the end of a line. -/
def widestIndent (column widest : Nat) : List Char → Nat
  | [] => widest
  | c :: rest =>
      if isBreak c then widestIndent 0 widest rest
      else if c = ' ' then widestIndent (column + 1) (max widest (column + 1)) rest
      else widest

/-- Takes the ends of lines that hold at most `indent` blanks and nothing else, and the blanks in
front of the next line up to the column `indent`. -/
def takeEmptyLines (indent column : Nat) : List Char → Taken
  | [] => .nothing column []
  | c :: rest =>
      if isBreak c then ((takeEmptyLines indent 0 rest).after [c]).afterLine
      else if c = ' ' ∧ column < indent then takeEmptyLines indent (column + 1) rest
      else .nothing column (c :: rest)

/-- The lines of a block. -/
structure BlockLines where
  content : List Char
  /-- The end of the last line that holds something. -/
  last : List Char
  /-- The empty lines after it, and what comes then. -/
  empty : Taken

/-- What stands for the end of a line between two lines of a block that have `empty` lines between
them.  Where lines are folded it is as inside other scalars, but not at lines that begin with a
blank. -/
def joint (folded : Bool) (line last : List Char) (empty : Taken) : List Char :=
  let startsBlank (chars : List Char) : Bool := (chars.head?.map isBlank).getD false
  if folded ∧ last = ['\n'] ∧ !startsBlank line ∧ !startsBlank empty.rest then
    if empty.content = [] then [' '] else []
  else last

/-- Takes lines that are indented to a column, after empty ones.  Each line takes one from the
fuel. -/
def takeLines (folded : Bool) (indent : Nat) : (fuel : Nat) → (empty : Taken) → BlockLines
  | 0, empty => ⟨[], [], empty⟩
  | fuel + 1, empty =>
      if empty.column ≠ indent ∨ empty.rest = [] then ⟨[], [], empty⟩
      else
        let line := empty.rest.takeWhile (!isBreak ·)
        let rest := empty.rest.dropWhile (!isBreak ·)
        let last := rest.take 1
        let following := takeEmptyLines indent 0 (rest.drop 1)
        if following.column ≠ indent ∨ following.rest = [] then
          ⟨empty.content ++ line, last, following⟩
        else
          let more := takeLines folded indent fuel following
          { more with
            content := empty.content ++ line ++ joint folded line last following ++ more.content }

/-- Takes a block of lines, from after its mark on.  The lines are indented at least to the column
`least`. -/
def takeBlock? (folded : Bool) (least : Nat) (chars : List Char) : Option Taken := do
  let (tail, indent?, rest) := takeMarks none none chars
  let rest ← nextLine? rest
  let least := max 1 least
  let indent :=
    match indent? with
    | some n => least + n - 1
    | none => max least (widestIndent 0 0 rest)
  let lines := takeLines folded indent (rest.length + 1) (takeEmptyLines indent 0 rest)
  let ending :=
    match tail with
    | some .strip => []
    | some .keep => lines.last ++ lines.empty.content
    | _ => lines.last
  some ⟨lines.content ++ ending, lines.empty.rest, lines.empty.column, true⟩

end Yaml

end SlotEvidence
