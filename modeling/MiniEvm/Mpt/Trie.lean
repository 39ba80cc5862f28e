import MiniEvm.Mpt.Node

/-! The trie as a map: insertion, lookup, and the hash of its root. -/

namespace MiniEvm

/-- A branch that leads nowhere yet. -/
def emptyChildren : Nibble → Node := fun _ => .null

/-- How far two paths agree. -/
def commonPrefix (left right : Nibbles) : Nat :=
  ((left.zip right).takeWhile fun pair => pair.1 == pair.2).length

def childFor (path : Nibbles) (value : Bytes) : Node := .leaf path value

/-- Puts a branch behind the nibbles that both paths share, if there are any. -/
def behindCommon (path : Nibbles) (common : Nat) (branch : Node) : Node :=
  if common = 0 then branch else .extension (path.take common) branch

/-- Completes a branch with what is new: a value of its own or one more child. -/
def splitBranch (children : Nibble → Node) (newRemaining : Nibbles) (value : Bytes) : Node :=
  match newRemaining with
  | [] => .branch children (some value)
  | nibble :: rest => .branch (Function.update children nibble (childFor rest value)) none

/-- Puts a value under a path, splitting whatever stands in its way. -/
def insertNode (node : Node) (path : Nibbles) (value : Bytes) : Node :=
  match node with
  | .null => childFor path value
  | .leaf keyPath oldValue =>
    let common := commonPrefix keyPath path
    if common = keyPath.length ∧ common = path.length then childFor path value
    else match keyPath.drop common with
      | [] => match path.drop common with
        -- Both paths would be used up, which the test above has excluded.
        | [] => .branch emptyChildren (some value)
        | nibble :: rest =>
          behindCommon path common
            (.branch (Function.update emptyChildren nibble (childFor rest value)) (some oldValue))
      | old :: oldRest =>
        behindCommon path common
          (splitBranch (Function.update emptyChildren old (childFor oldRest oldValue))
            (path.drop common) value)
  | .extension keyPath child =>
    let common := commonPrefix keyPath path
    if common = keyPath.length then
      -- The path runs through the extension, and may end behind it.
      if common = path.length then .extension keyPath (insertNode child [] value)
      else .extension keyPath (insertNode child (path.drop common) value)
    else match keyPath.drop common with
      -- The paths part before the run of nibbles ends, so something of it is left.
      | [] => .extension keyPath child
      | old :: oldRest =>
        -- What is left of the run stays in front of the child.
        let oldChild := if oldRest.isEmpty then child else .extension oldRest child
        behindCommon path common
          (splitBranch (Function.update emptyChildren old oldChild) (path.drop common) value)
  | .branch children branchValue =>
    match path with
    | [] => .branch children (some value)
    | nibble :: rest =>
      .branch (Function.update children nibble (insertNode (children nibble) rest value))
        branchValue

/-- The value under a path. -/
def getNode (node : Node) (path : Nibbles) : Option Bytes :=
  match node with
  | .null => none
  | .leaf keyPath value => if keyPath = path then some value else none
  | .extension keyPath child =>
    if keyPath.isPrefixOf path then getNode child (path.drop keyPath.length) else none
  | .branch children value =>
    match path with
    | [] => value
    | nibble :: rest => getNode (children nibble) rest

structure MerklePatriciaTrie where
  root : Node

namespace MerklePatriciaTrie

def new : MerklePatriciaTrie := ⟨.null⟩

def insert (trie : MerklePatriciaTrie) (key value : Bytes) : MerklePatriciaTrie :=
  ⟨insertNode trie.root (bytesToNibbles key) value⟩

def get (trie : MerklePatriciaTrie) (key : Bytes) : Option Bytes :=
  getNode trie.root (bytesToNibbles key)

/-- The trie after a sequence of insertions, the first of them first. -/
def insertAll (trie : MerklePatriciaTrie) (inserts : List (Bytes × Bytes)) : MerklePatriciaTrie :=
  inserts.foldl (fun trie entry => trie.insert entry.1 entry.2) trie

/-- The hash of the root, with one of its own for the empty trie. -/
def rootHash (host : Host) (trie : MerklePatriciaTrie) : Word :=
  -- The empty trie has the hash of an empty string.
  match trie.root with
  | .null => host.keccak256 [0x80]
  | root => host.keccak256 (rlpEncode host root)

end MerklePatriciaTrie

end MiniEvm
