/-
Module: SlotEvidence.Tree.Absence
Purpose: Evidence that a hash is no leaf of a sorted tree, and its verification.  A tree without
  leaves has none; else the hash lies before the first leaf, after the last one, or between two
  neighbours.
Specification: SPEC_FULL 7.2, `verify_exclusion`
Trusted boundary: none
Main exports: Absence, Absence.verify, Exhibit, Exhibit.verify
-/
import SlotEvidence.Tree.Path

namespace SlotEvidence

inductive Absence where
  /-- The tree has no leaves. -/
  | empty
  /-- The path of the first leaf, which comes after the candidate. -/
  | left (path : Path)
  /-- The path of the last leaf, which comes before the candidate. -/
  | right (path : Path)
  /-- The paths of two neighbours with the candidate between them. -/
  | inner (lower upper : Path)
deriving DecidableEq

namespace Absence

def kind : Absence → String
  | .empty => "empty"
  | .left _ => "left"
  | .right _ => "right"
  | .inner _ _ => "inner"

/-- The side of a path in the evidence. -/
inductive Side where
  | left
  | right
deriving DecidableEq

def Side.name : Side → String
  | .left => "Left"
  | .right => "Right"

/-- Why evidence of absence is rejected. -/
inductive Objection where
  | candidateLength
  | rootNotEmpty (expected emptyRoot : Bytes)
  | malformed (side : Side) (defect : Path.Defect)
  | notLeftmost (height index : Nat)
  | notRightmost (height : Nat)
  | leftmostNotAfter (leaf candidate : Bytes)
  | rightmostNotBefore (leaf candidate : Bytes)
  | depthsDiffer (lower upper : Nat)
  | notBetween (lower candidate upper : Bytes)
  | notAdjacent (height lower upper : Nat)
  | diverging (height : Nat)
  | neverMeeting
  | rootMismatch (expected actual leaf : Bytes)
  /-- The path of a leaf was submitted as evidence of absence. -/
  | wrongForm
deriving DecidableEq

namespace Objection

def code : Objection → String
  | .rootNotEmpty _ _ | .rootMismatch _ _ _ => Code.hashMismatch
  | .notAdjacent _ _ _ | .diverging _ | .neverMeeting => Code.adjacencyViolation
  | _ => Code.invalidProofShape

/-- What is said of evidence that is rejected.  Where a path has the right form its places are no
larger than the numbers of its siblings. -/
def message : Objection → Except Text.Overlong String
  | .candidateLength => return "Candidate must be a 32-byte hash"
  | .rootNotEmpty _ _ => return "Expected root is not the empty-tree root"
  | .malformed side defect => return side.name ++ " path: " ++ (← defect.message)
  | .notLeftmost height index =>
      return s!"Left path is not leftmost: level {height} has index {index}"
  | .notRightmost height =>
      return s!"Right path is not rightmost: level {height} has a node after it"
  | .leftmostNotAfter _ _ => return "Leftmost leaf does not sort after the candidate"
  | .rightmostNotBefore _ _ => return "Rightmost leaf does not sort before the candidate"
  | .depthsDiffer lower upper => return s!"Inner paths differ in length: {lower} vs {upper}"
  | .notBetween _ _ _ => return "Inner leaves do not bracket the candidate"
  | .notAdjacent height lower upper =>
      return s!"Inner leaves are not adjacent: level {height} has indices {lower} and {upper}"
  | .diverging height => return s!"Inner paths diverge above their merge point at level {height}"
  | .neverMeeting => return "Inner paths never meet in a common group"
  | .rootMismatch _ _ _ => return "Recomputed account root does not match the expected root"
  | .wrongForm => return "Unknown exclusion proof type InclusionProof"

def details : Objection → Members Value
  | .rootNotEmpty expected emptyRoot =>
      [("expected", .text (Hex.encode expected)), ("empty_root", .text (Hex.encode emptyRoot))]
  | .notLeftmost height _ => [("height", .int height)]
  | .notRightmost height => [("height", .int height)]
  | .leftmostNotAfter leaf candidate | .rightmostNotBefore leaf candidate =>
      [("leaf", .text (Hex.encode leaf)), ("candidate", .text (Hex.encode candidate))]
  | .notBetween lower candidate upper =>
      [("left", .text (Hex.encode lower)), ("candidate", .text (Hex.encode candidate)),
       ("right", .text (Hex.encode upper))]
  | .notAdjacent height lower upper =>
      [("height", .int height), ("left_index", .int lower), ("right_index", .int upper)]
  | .diverging height => [("height", .int height)]
  | .rootMismatch expected actual leaf =>
      [("expected", .text (Hex.encode expected)), ("actual", .text (Hex.encode actual)),
       ("leaf", .text (Hex.encode leaf))]
  | .candidateLength | .malformed _ _ | .depthsDiffer _ _ | .neverMeeting | .wrongForm => []

end Objection

def checkName : String := "account_exclusion"

def Objection.ruling (o : Objection) : Ruling :=
  .rejected .accountMembership o.code o.message o.details checkName

/-- The objection to the form of a path. -/
def shapeObjection? (s : Settings) (side : Side) (path : Path) : Option Objection :=
  (path.defect? s).map (.malformed side)

/-- The objection to the root of a path. -/
def rootObjection? (s : Settings) (path : Path) (expectedRoot : Bytes) : Option Objection :=
  if path.root s = expectedRoot then none
  else some (.rootMismatch expectedRoot (path.root s) path.leaf)

/-- The objection to the first of the levels, from the given height on, whose node is not the first
of its group. -/
def leftmostObjection? (height : Nat) : List Level → Option Objection
  | [] => none
  | level :: rest =>
      if level.index ≠ 0 then some (.notLeftmost height level.index)
      else leftmostObjection? (height + 1) rest

/-- Whether the node of a level is the last one of its group.  Fillers may come after it. -/
def isLast (s : Settings) (level : Level) : Bool :=
  let trailing := level.siblings.drop level.index
  if s.padPartialGroups then trailing.all (· = s.emptyChild.bytes) else trailing.isEmpty

/-- The objection to the first of the levels, from the given height on, whose node is not the last
of its group. -/
def rightmostObjection? (s : Settings) (height : Nat) : List Level → Option Objection
  | [] => none
  | level :: rest =>
      if isLast s level then rightmostObjection? s (height + 1) rest
      else some (.notRightmost height)

/-- The objection to levels above the group in which two paths meet: they must be the same. -/
def sharedObjection? (height : Nat) : List (Level × Level) → Option Objection
  | [] => none
  | (lower, upper) :: rest =>
      if lower = upper then sharedObjection? (height + 1) rest else some (.diverging height)

/-- The objection to the levels of two paths, taken in pairs from the given height on.  Up to the
group in which the paths meet, the left one runs along the end of its groups and the right one along
the start; there they have consecutive places, and above they are the same. -/
def adjacencyObjection? (s : Settings) (height : Nat) : List (Level × Level) → Option Objection
  | [] => some .neverMeeting
  | (lower, upper) :: rest =>
      if upper.index = lower.index + 1 then sharedObjection? (height + 1) rest
      else if lower.index = s.fanout - 1 ∧ upper.index = 0 then
        adjacencyObjection? s (height + 1) rest
      else some (.notAdjacent height lower.index upper.index)

/-- The objection to evidence of absence, which is the first one in a fixed order. -/
def objection? (s : Settings) (a : Absence) (candidate expectedRoot : Bytes) : Option Objection :=
  if candidate.length ≠ hashLength then some .candidateLength
  else
    match a with
    | .empty =>
        if expectedRoot = s.emptyRoot.bytes then none
        else some (.rootNotEmpty expectedRoot s.emptyRoot.bytes)
    | .left path =>
        (shapeObjection? s .left path).or <|
          (leftmostObjection? 0 path.levels).or <|
            if candidate.before path.leaf then rootObjection? s path expectedRoot
            else some (.leftmostNotAfter path.leaf candidate)
    | .right path =>
        (shapeObjection? s .right path).or <|
          (rightmostObjection? s 0 path.levels).or <|
            if path.leaf.before candidate then rootObjection? s path expectedRoot
            else some (.rightmostNotBefore path.leaf candidate)
    | .inner lower upper =>
        (shapeObjection? s .left lower).or <|
          (shapeObjection? s .right upper).or <|
            if lower.depth ≠ upper.depth then some (.depthsDiffer lower.depth upper.depth)
            else if ¬ (lower.leaf.before candidate && candidate.before upper.leaf) then
              some (.notBetween lower.leaf candidate upper.leaf)
            else
              (adjacencyObjection? s 0 (lower.levels.zip upper.levels)).or <|
                (rootObjection? s lower expectedRoot).or (rootObjection? s upper expectedRoot)

/-- Checks that a candidate is no leaf of the tree with the given root, `verify_exclusion`
[SPEC_FULL 7.2]. -/
def verify (s : Settings) (a : Absence) (candidate expectedRoot : Bytes) : Ruling :=
  match a.objection? s candidate expectedRoot with
  | some o => o.ruling
  | none =>
      return .accepted [.passed checkName (some .accountMembership)
        ("Candidate is absent from the tree (" ++ a.kind ++ " proof)")
        [("candidate", .text (Hex.encode candidate)), ("kind", .text a.kind)]]

end Absence

/-- What is submitted where evidence of absence is expected: such evidence, or the path of a leaf,
which never is. -/
inductive Exhibit where
  | absence (a : Absence)
  | path (p : Path)
deriving DecidableEq

/-- Checks what is submitted as evidence of absence. -/
def Exhibit.verify (s : Settings) (e : Exhibit) (candidate expectedRoot : Bytes) : Ruling :=
  match e with
  | .absence a => a.verify s candidate expectedRoot
  | .path _ =>
      if candidate.length ≠ hashLength then Absence.Objection.candidateLength.ruling
      else Absence.Objection.wrongForm.ruling

end SlotEvidence
