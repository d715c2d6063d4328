/-
Module: SlotEvidence.Yaml
Purpose: Reading small YAML texts: one document of mappings and lists in block or flow form, with
  scalars in them.
Trusted boundary: the part of YAML 1.1 that the YAML library reads without tags of its own
Main exports: Yaml.Node, Yaml.read
-/
import SlotEvidence.Value.Key
import SlotEvidence.Yaml.Document
import SlotEvidence.Yaml.Scalar
import SlotEvidence.Yaml.Scanner

namespace SlotEvidence

namespace Yaml

/-- A scalar, a list or a mapping as it is written. -/
inductive Node where
  /-- A scalar without quotes. -/
  | plain (text : String)
  | quoted (text : String)
  | list (items : List Node)
  | mapping (entries : List (Node × Node))

namespace Node

/-- A node without content. -/
def empty : Node := .plain ""

def keyValue (text : String) : Except Fault Value :=
  if text = valueMark then .ok (.text text) else resolve text

/-- The entries that a value merges into a mapping: its own, or those of all its items, the last one
first. -/
def mergedEntries? : Value → Option (List (Value × Value))
  | .mapping entries => some entries
  | .list items =>
      let entries? := items.mapM fun
        | .mapping entries => some entries
        | _ => none
      entries?.map fun entries => entries.reverse.flatten
  | _ => none

/-- The entries that mappings merge into another one go before its own. -/
structure Entries where
  merged : List (Value × Value) := []
  own : List (Value × Value) := []

mutual

def value : Node → Except Fault Value
  | .plain s => resolve s
  | .quoted s => .ok (.text s)
  | .list items => (values items).map .list
  | .mapping entries => (entryValues entries).map fun e => .mappingOf (e.merged ++ e.own)

def values : List Node → Except Fault (List Value)
  | [] => .ok []
  | item :: rest => do
      let item ← item.value
      let rest ← values rest
      pure (item :: rest)

/-- What entries stand for.  Only scalars are keys. -/
def entryValues : List (Node × Node) → Except Fault Entries
  | [] => .ok {}
  | (.plain s, node) :: rest => do
      if s = mergeMark then
        let value ← node.value
        let e ← entryValues rest
        match mergedEntries? value with
        | some entries => pure { e with merged := entries ++ e.merged }
        | none => .error .unreadable
      else
        let key ← keyValue s
        let value ← node.value
        let e ← entryValues rest
        pure { e with own := (key, value) :: e.own }
  | (.quoted s, node) :: rest => do
      let value ← node.value
      let e ← entryValues rest
      pure { e with own := (.text s, value) :: e.own }
  | _ => .error .unreadable

end

end Node

def scalar? : Token → Option Node
  | .plain s => some (.plain s)
  | .quoted s => some (.quoted s)
  | _ => none

/-- Whether an item or an entry without a value ends before a token. -/
def endsEmpty : Option Token → Bool
  | none => true
  | some token => token ∈ [.key, .dash, .blockEnd, .comma, .rightBracket, .rightBrace]

mutual

/-- Reads a scalar, a list or a mapping.  Every call takes one from the fuel. -/
def node? : (fuel : Nat) → List Token → Option (Node × List Token)
  | 0, _ => none
  | _ + 1, [] => none
  | fuel + 1, .listStart :: rest => do
      let (items, rest) ← items? fuel rest
      match rest with
      | .blockEnd :: rest => some (.list items, rest)
      | _ => none
  | fuel + 1, .mappingStart :: rest => do
      let (entries, rest) ← entries? fuel rest
      some (.mapping entries, rest)
  | fuel + 1, .leftBracket :: rest => do
      let (items, rest) ← flowItems? fuel rest
      some (.list items, rest)
  | fuel + 1, .leftBrace :: rest => do
      let (entries, rest) ← flowEntries? fuel rest
      some (.mapping entries, rest)
  | _ + 1, token :: rest => (scalar? token).map (·, rest)

/-- Reads a node that may be missing; then it is null. -/
def optionalNode? : (fuel : Nat) → List Token → Option (Node × List Token)
  | 0, _ => none
  | fuel + 1, tokens =>
      if endsEmpty tokens.head? then some (.empty, tokens) else node? fuel tokens

/-- Reads the items of a list in block form. -/
def items? : (fuel : Nat) → List Token → Option (List Node × List Token)
  | 0, _ => none
  | fuel + 1, .dash :: rest => do
      let (item, rest) ← optionalNode? fuel rest
      let (items, rest) ← items? fuel rest
      some (item :: items, rest)
  | _ + 1, rest => some ([], rest)

/-- Reads a key with its value.  The items of a list may follow a key without a block of their
own. -/
def entry : (fuel : Nat) → List Token → Option ((Node × Node) × List Token)
  | fuel + 1, token :: .colon :: .dash :: rest => do
      let key ← scalar? token
      let (items, rest) ← items? fuel (.dash :: rest)
      some ((key, .list items), rest)
  | fuel + 1, token :: .colon :: rest => do
      let key ← scalar? token
      let (value, rest) ← optionalNode? fuel rest
      some ((key, value), rest)
  | _, _ => none

/-- Reads the entries of a mapping in block form, to its end. -/
def entries? : (fuel : Nat) → List Token → Option (List (Node × Node) × List Token)
  | fuel + 1, .key :: rest => do
      let (first, rest) ← entry fuel rest
      let (entries, rest) ← entries? fuel rest
      some (first :: entries, rest)
  | _ + 1, .blockEnd :: rest => some ([], rest)
  | _, _ => none

/-- Reads items up to the closing bracket.  An entry among them is a mapping of its own. -/
def flowItems? : (fuel : Nat) → List Token → Option (List Node × List Token)
  | 0, _ => none
  | _ + 1, .rightBracket :: rest => some ([], rest)
  | fuel + 1, tokens => do
      let (item, rest) ←
        match tokens with
        | .key :: rest => (entry fuel rest).map fun (only, rest) => (.mapping [only], rest)
        | tokens => node? fuel tokens
      match rest with
      | .comma :: rest =>
          let (items, rest) ← flowItems? fuel rest
          some (item :: items, rest)
      | .rightBracket :: rest => some ([item], rest)
      | _ => none

/-- Reads entries up to the closing brace.  A key without a colon has null for a value. -/
def flowEntries? : (fuel : Nat) → List Token → Option (List (Node × Node) × List Token)
  | 0, _ => none
  | _ + 1, .rightBrace :: rest => some ([], rest)
  | fuel + 1, tokens => do
      let (first, rest) ←
        match tokens with
        | .key :: rest => entry fuel rest
        | token :: rest => (scalar? token).map fun key => ((key, .empty), rest)
        | [] => none
      match rest with
      | .comma :: rest =>
          let (entries, rest) ← flowEntries? fuel rest
          some (first :: entries, rest)
      | .rightBrace :: rest => some ([first], rest)
      | _ => none

end

/-- The node that the one document of a text is. -/
def root? (text : String) : Option Node := do
  let document ← document? text
  let tokens ← scan? document.marked document.content
  match ← optionalNode? (3 * tokens.length + 3) tokens with
  | (node, []) => some node
  | _ => none

/-- Reads the one document of a text; without content it is null. -/
def read (text : String) : Except Fault Value :=
  match root? text with
  | some node => node.value
  | none => .error .unreadable

end Yaml

end SlotEvidence
