/-
Module: SlotEvidence.Json.Reader
Purpose: Reading JSON: a machine with a stack of open arrays and objects takes the tokens one by
  one.
Trusted boundary: the grammar of the interpreter's own reader, nesting without a bound
Main exports: Json.parse, Json.parseBytes, Json.Error, Json.ReadError
-/
import SlotEvidence.Json.Token

namespace SlotEvidence

namespace Json

/-- An open array or object with what has been read of it, the latest first. -/
inductive Frame where
  | items (done : List Json)
  /-- An object whose next member has this name. -/
  | members (done : List (String × Json)) (name : String)

/-- What the machine waits for. -/
inductive Reader where
  | beforeValue (stack : List Frame)
  | beforeItem (stack : List Frame)
  | beforeMember (stack : List Frame)
  | beforeName (done : List (String × Json)) (stack : List Frame)
  | beforeColon (done : List (String × Json)) (name : String) (stack : List Frame)
  /-- A value is complete, and its container must go on or end. -/
  | afterValue (value : Json) (stack : List Frame)

namespace Reader

/-- Takes the first token of a value. -/
def takeValue (stack : List Frame) (t : Located) : Except Misplaced Reader :=
  match t.token with
  | .scalar value => .ok (.afterValue value stack)
  | .text s => .ok (.afterValue (.text s) stack)
  | .leftBracket => .ok (.beforeItem stack)
  | .leftBrace => .ok (.beforeMember stack)
  | .badText fault => .error fault
  | .longNumber digits => .error ⟨.longNumber digits, t.position⟩
  | _ => .error ⟨.expectingValue, t.position⟩

/-- Takes the name of a member. -/
def takeName (done : List (String × Json)) (stack : List Frame) (t : Located) :
    Except Misplaced Reader :=
  match t.token with
  | .text s => .ok (.beforeColon done s stack)
  | .badText fault => .error fault
  | _ => .error ⟨.expectingName, t.position⟩

/-- Takes what follows a value. -/
def takeAfter (value : Json) (stack : List Frame) (t : Located) : Except Misplaced Reader :=
  match stack, t.token with
  | [], _ => .error ⟨.extraData, t.position⟩
  | .items done :: stack, .comma => .ok (.beforeValue (.items (value :: done) :: stack))
  | .items done :: stack, .rightBracket => .ok (.afterValue (.array (value :: done).reverse) stack)
  | .members done name :: stack, .comma => .ok (.beforeName ((name, value) :: done) stack)
  | .members done name :: stack, .rightBrace =>
      .ok (.afterValue (.object (Members.ofList ((name, value) :: done).reverse)) stack)
  | _, _ => .error ⟨.expectingComma, t.position⟩

/-- Takes one token. -/
def next (r : Reader) (t : Located) : Except Misplaced Reader :=
  match r with
  | .beforeValue stack => takeValue stack t
  | .beforeItem stack =>
      match t.token with
      | .rightBracket => .ok (.afterValue (.array []) stack)
      | _ => takeValue (.items [] :: stack) t
  | .beforeMember stack =>
      match t.token with
      | .rightBrace => .ok (.afterValue (.object []) stack)
      | _ => takeName [] stack t
  | .beforeName done stack => takeName done stack t
  | .beforeColon done name stack =>
      match t.token with
      | .colon => .ok (.beforeValue (.members done name :: stack))
      | _ => .error ⟨.expectingColon, t.position⟩
  | .afterValue value stack => takeAfter value stack t

/-- The value read when the tokens have run out at the place `position`. -/
def finish (position : Nat) : Reader → Except Misplaced Json
  | .afterValue value [] => .ok value
  | .afterValue _ _ => .error ⟨.expectingComma, position⟩
  | .beforeValue _ | .beforeItem _ => .error ⟨.expectingValue, position⟩
  | .beforeMember _ | .beforeName _ _ => .error ⟨.expectingName, position⟩
  | .beforeColon _ _ _ => .error ⟨.expectingColon, position⟩

end Reader

/-- Trouble with a text: its place, and the line and the column of the place, counted from one. -/
structure Error where
  trouble : Trouble
  position : Nat
  line : Nat
  column : Nat
deriving DecidableEq

def Trouble.message : Trouble → String
  | .expectingValue => "Expecting value"
  | .expectingName => "Expecting property name enclosed in double quotes"
  | .expectingColon => "Expecting ':' delimiter"
  | .expectingComma => "Expecting ',' delimiter"
  | .extraData => "Extra data"
  | .unterminatedText => "Unterminated string starting at"
  | .controlCharacter => "Invalid control character at"
  | .badEscape => "Invalid \\escape"
  | .badUnicodeEscape => "Invalid \\uXXXX escape"
  | .byteOrderMark => "Unexpected UTF-8 BOM (decode using utf-8-sig)"
  | .longNumber digits => Text.overlongDigits digits

/-- What is said of trouble: what it is and where.  A number that is too long is refused without its
place. -/
def Error.message (e : Error) : String :=
  match e.trouble with
  | .longNumber _ => e.trouble.message
  | _ =>
      e.trouble.message ++ ": line " ++ toString e.line ++ " column " ++ toString e.column
        ++ " (char " ++ toString e.position ++ ")"

/-- Tells line and column of misplaced trouble. -/
def Misplaced.locate (text : List Char) (fault : Misplaced) : Error :=
  let before := text.take fault.position
  { trouble := fault.trouble
    position := fault.position
    line := before.count '\n' + 1
    column := (before.reverse.takeWhile (· ≠ '\n')).length + 1 }

/-- Reads the characters of a JSON text. -/
def read (text : List Char) : Except Misplaced Json := do
  let reader ← (tokens 0 text).foldlM Reader.next (.beforeValue [])
  reader.finish text.length

def parse (text : String) : Except Error Json :=
  let chars := text.toList
  if chars.head? = some '\ufeff' then .error ⟨.byteOrderMark, 0, 1, 1⟩
  else (read chars).mapError (·.locate chars)

/-- Why input is not JSON: its bytes are no text, or the text is no JSON. -/
inductive ReadError where
  | encoding (fault : Text.Undecodable)
  | grammar (fault : Error)
deriving DecidableEq

def ReadError.message : ReadError → String
  | .encoding fault => fault.message
  | .grammar fault => fault.message

/-- Reads a JSON text from bytes, in whatever encoding they are. -/
def parseBytes (bytes : Bytes) : Except ReadError Json :=
  match Text.decode bytes with
  | .error fault => .error (.encoding fault)
  | .ok chars => (read chars).mapError fun fault => .grammar (fault.locate chars)

end Json

end SlotEvidence
