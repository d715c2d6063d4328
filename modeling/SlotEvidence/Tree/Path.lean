/-
Module: SlotEvidence.Tree.Path
Purpose: Paths from a leaf to the root of a tree, and their verification.
Specification: SPEC_FULL 7.2, InclusionProofLevel and `verify_inclusion`
Trusted boundary: none
Main exports: Level, Path, Path.defect?, Path.root, Path.verify, pathLevels,
  pathLevelsAt
-/
import SlotEvidence.Tree.Group

namespace SlotEvidence

/-- One group on a path: the other members of the group in order, and the place of the node among
them. -/
structure Level where
  siblings : List Bytes
  index : Nat
deriving DecidableEq

namespace Level

/-- A place before the first one. -/
structure NegativeIndex where
  index : Int
deriving DecidableEq

def NegativeIndex.message (n : NegativeIndex) : String :=
  Text.told (return "Level index must be non-negative, got " ++ (← Text.decimal n.index))

/-- The level with these siblings and this place. -/
def ofParts (siblings : List Bytes) (index : Int) : Except NegativeIndex Level :=
  if index < 0 then .error ⟨index⟩ else .ok ⟨siblings, index.toNat⟩

/-- The whole group with a node put in at its place, or at the end if there are too few siblings. -/
def children (level : Level) (node : Bytes) : List Bytes :=
  level.siblings.take level.index ++ node :: level.siblings.drop level.index

/-- The parent of a node that has the given height. -/
def parent (s : Settings) (level : Level) (height : Nat) (node : Bytes) : Bytes32 :=
  Tree.hashGroup s height (level.children node)

end Level

/-- A leaf and the groups on its way to the root. -/
structure Path where
  leaf : Bytes
  levels : List Level
deriving DecidableEq

namespace Path

/-- The number of groups on the way. -/
def depth (p : Path) : Nat := p.levels.length

/-- What is wrong with the form of a path. -/
inductive Defect where
  | leafLength
  /-- The leaf is the filler of incomplete groups. -/
  | leafIsFiller
  | noLevels
  | tooManySiblings (height count most : Nat)
  | indexTooLarge (height index count : Nat)
  | siblingLength (height : Nat)
deriving DecidableEq

/-- What is said of a defect.  The place in a level is an integer of the evidence and may have no
text; the other numbers count what the path is made of. -/
def Defect.message : Defect → Except Text.Overlong String
  | .leafLength => return "Leaf must be a 32-byte hash"
  | .leafIsFiller => return "Leaf is the padding sentinel, not an account"
  | .noLevels => return "Inclusion path has no levels"
  | .tooManySiblings height count most =>
      return s!"Level {height} has {count} siblings, at most {most} allowed"
  | .indexTooLarge height index count =>
      return s!"Level {height} index " ++ (← Text.decimal index)
        ++ s!" exceeds its {count} siblings"
  | .siblingLength height => return s!"Level {height} has a sibling that is not 32 bytes"

def levelDefect? (s : Settings) (height : Nat) (level : Level) : Option Defect :=
  if s.fanout - 1 < level.siblings.length then
    some (.tooManySiblings height level.siblings.length (s.fanout - 1))
  else if level.siblings.length < level.index then
    some (.indexTooLarge height level.index level.siblings.length)
  else if level.siblings.any (·.length ≠ hashLength) then some (.siblingLength height)
  else none

/-- The first defect of levels, the first of which has the given height. -/
def levelsDefect? (s : Settings) (height : Nat) : List Level → Option Defect
  | [] => none
  | level :: rest => (levelDefect? s height level).or (levelsDefect? s (height + 1) rest)

def defect? (s : Settings) (p : Path) : Option Defect :=
  if p.leaf.length ≠ hashLength then some .leafLength
  else if s.padPartialGroups ∧ p.leaf = s.emptyChild.bytes then some .leafIsFiller
  else if p.levels = [] then some .noLevels
  else levelsDefect? s 0 p.levels

/-- The node at the end of levels that begin at a node of the given height. -/
def climb (s : Settings) (height : Nat) (node : Bytes) : List Level → Bytes
  | [] => node
  | level :: rest => climb s (height + 1) (level.parent s height node).bytes rest

/-- The root that the path leads to. -/
def root (s : Settings) (p : Path) : Bytes := climb s 0 p.leaf p.levels

def checkName : String := "account_inclusion"

/-- Checks that the leaf of a path is a leaf of the tree with the given root, `verify_inclusion`
[SPEC_FULL 7.2]. -/
def verify (s : Settings) (p : Path) (expectedRoot : Bytes) : Ruling :=
  match p.defect? s with
  | some defect =>
      .rejected .accountMembership Code.invalidProofShape defect.message [] checkName
  | none =>
      if p.root s ≠ expectedRoot then
        return .rejected .accountMembership Code.hashMismatch
          "Recomputed account root does not match the expected root"
          [("expected", .text (Hex.encode expectedRoot)), ("actual", .text (Hex.encode (p.root s)))]
          checkName
      else
        return .accepted [.passed checkName (some .accountMembership)
          "Leaf is included under the expected root"
          [("leaf", .text (Hex.encode p.leaf)), ("depth", .int p.depth)]]

end Path

/-- The levels of the path from node `index` of the first of the given rows, each row being the
parents of the one before.  The last row gives no level. -/
def pathLevels (fanout : Nat) : (rows : List (List Bytes)) → (index : Nat) → List Level
  | [], _ => []
  | [_], _ => []
  | row :: rows, index =>
      let start := index / fanout * fanout
      let group := (row.drop start).take fanout
      ⟨group.eraseIdx (index - start), index - start⟩ :: pathLevels fanout rows (index / fanout)

/-- The levels for a place before the first node, `back` places further back than one.  The groups
of a row are counted back from its end; the first of them lies past the end and is empty. -/
def pathLevelsBack (fanout : Nat) : (rows : List (List Bytes)) → (back : Nat) → List Level
  | [], _ => []
  | [_], _ => []
  | row :: rows, back =>
      let stop := row.length - back / fanout * fanout
      let group := if back / fanout = 0 then [] else (row.take stop).drop (stop - fanout)
      let index := fanout - 1 - back % fanout
      ⟨group.eraseIdx index, index⟩ :: pathLevelsBack fanout rows (back / fanout)

/-- The levels of the path from a place, which may lie before the first node. -/
def pathLevelsAt (fanout : Nat) (rows : List (List Bytes)) : (index : Int) → List Level
  | .ofNat index => pathLevels fanout rows index
  | .negSucc back => pathLevelsBack fanout rows back

end SlotEvidence
