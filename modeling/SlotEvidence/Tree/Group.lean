/-
Module: SlotEvidence.Tree.Group
Purpose: The hash of a group of sibling nodes: a tag for the height, then the children in order.
Specification: SPEC_FULL 7.2, padding and domain separation
Trusted boundary: none
Main exports: Tree.padGroup, Tree.groupTag, Tree.groupPreimage, Tree.hashGroup
-/
import SlotEvidence.Settings

namespace SlotEvidence

namespace Tree

/-- The children filled up to a full group, if the settings say so. -/
def padGroup (s : Settings) (children : List Bytes) : List Bytes :=
  if s.padPartialGroups then
    children ++ List.replicate (s.fanout - children.length) s.emptyChild.bytes
  else children

/-- The tag in front of a group whose children have the given height: groups of leaves, at height
zero, and groups of inner nodes are never confused. -/
def groupTag (height : Nat) : UInt8 := if height = 0 then 0 else 1

/-- The byte string that is hashed for a group: a tag that keeps groups of leaves apart from groups
of nodes, then the children [SPEC_FULL 7.2]. -/
def groupPreimage (s : Settings) (height : Nat) (children : List Bytes) : Bytes :=
  groupTag height :: (padGroup s children).flatten

/-- The parent of a group of nodes of the given height. -/
def hashGroup (s : Settings) (height : Nat) (children : List Bytes) : Bytes32 :=
  s.digest (groupPreimage s height children)

end Tree

end SlotEvidence
