import Mathlib.Algebra.BigOperators.Fin
import Mathlib.Algebra.Order.BigOperators.Group.Finset
import MiniEvm.Proofs.Data.Word
import MiniEvm.Proofs.Mpt.Canonical
import MiniEvm.Proofs.Mpt.HexPrefix
import MiniEvm.Proofs.Vm.Runs
import MiniEvm.Rlp.Format

/-! When the encoding of a node is the standard one: as long as no child is named by its hash. -/

namespace MiniEvm

open BigEndian

section Items

variable {host : Host}

/-- A number that fits its width is written in its digits once the zeros are gone. -/
theorem dropWhile_beBytes {width number : Nat} (small : number < 256 ^ width) :
    (beBytes width number).dropWhile (· = 0) = RlpFormat.digits number := by
  apply (shortest_dropWhile _).eq_of_value_eq (RlpFormat.shortest_digits number)
  rw [value_dropWhile, value_beBytes, RlpFormat.value_digits]
  exact Nat.mod_eq_of_lt small

/-- So is a length that fits into a machine word. -/
theorem lengthBytes_eq {length : Nat} (small : length < 2 ^ 64) :
    lengthBytes length = RlpFormat.digits length := dropWhile_beBytes small

/-- Strings are encoded as the standard asks for, if their length has 64 bits. -/
theorem rlpBytes_eq {bytes : Bytes} (small : bytes.length < 2 ^ 64) :
    rlpBytes bytes = RlpFormat.encodeString bytes := by
  simp only [rlpBytes, RlpFormat.encodeString, lengthBytes_eq small]

/-- Lists are encoded as the standard asks for, if their length has 64 bits. -/
theorem rlpList_eq {items : List Bytes} (small : items.flatten.length < 2 ^ 64) :
    rlpList items = RlpFormat.encodeList items := by
  simp only [rlpList, RlpFormat.encodeList, lengthBytes_eq small]

/-- An encoding is no shorter than what it encodes. -/
theorem length_le_rlpBytes (bytes : Bytes) : bytes.length ≤ (rlpBytes bytes).length := by
  unfold rlpBytes
  split
  · exact Nat.le_refl _
  · split
    · simp
    · simp only [List.length_cons, List.length_append]
      omega

/-- A list is no shorter than its items. -/
theorem length_le_rlpList (items : List Bytes) : items.flatten.length ≤ (rlpList items).length := by
  unfold rlpList
  simp only
  split
  · simp
  · simp only [List.length_cons, List.length_append]
    omega

/-- The items that a node hands to the list encoder. -/
def nodeItems (host : Host) : Node → List Bytes
  | .null => []
  | .leaf keyPath value => [rlpBytes (compactEncode keyPath true), rlpBytes value]
  | .extension keyPath child =>
    [rlpBytes (compactEncode keyPath false), nodeReference host child]
  | .branch children own =>
    (List.ofFn fun nibble => nodeReference host (children nibble)) ++ [rlpBytes (own.getD [])]

/-- A node that is there is encoded as the list of its items. -/
theorem rlpEncode_eq {node : Node} (filled : node.isNull = false) :
    rlpEncode host node = rlpList (nodeItems host node) := by
  cases node with
  | null => cases filled
  | leaf keyPath value => rfl
  | extension keyPath child => rfl
  | branch children own => rfl

/-- A child's item as the standard has it: itself when short, else its hash as a string. -/
def standardReference (host : Host) (node : Node) : Bytes :=
  if (rlpEncode host node).length < 32 then rlpEncode host node
  else RlpFormat.encodeString (toBeBytes (host.keccak256 (rlpEncode host node)))

/-- The two or seventeen items into which the encoding of a node should split. -/
def standardItems (host : Host) : Node → List Bytes
  | .null => []
  | .leaf keyPath value =>
    [RlpFormat.encodeString (compactEncode keyPath true), RlpFormat.encodeString value]
  | .extension keyPath child =>
    [RlpFormat.encodeString (compactEncode keyPath false), standardReference host child]
  | .branch children own =>
    (List.ofFn fun nibble => standardReference host (children nibble)) ++
      [RlpFormat.encodeString (own.getD [])]

/-- A decoder splits the encoding of a node into exactly those items. -/
def Splits (host : Host) (node : Node) : Prop :=
  RlpFormat.splitList (rlpEncode host node) = some (standardItems host node)

/-- No child of a node is named by its hash. -/
def ShortChildren (host : Host) : Node → Prop
  | .null => True
  | .leaf _ _ => True
  | .extension _ child => (rlpEncode host child).length < 32
  | .branch children _ => ∀ nibble, (rlpEncode host (children nibble)).length < 32

/-- A short node is put in place in full. -/
theorem nodeReference_of_short {node : Node} (short : (rlpEncode host node).length < 32) :
    nodeReference host node = standardReference host node := by
  rw [nodeReference, reference, if_neg (by omega), standardReference, if_pos short]

/-- A hash is one byte shorter than the string that it should be. -/
theorem length_reference_lt {node : Node} (long : ¬ (rlpEncode host node).length < 32) :
    (nodeReference host node).length < (standardReference host node).length := by
  rw [nodeReference, reference, if_pos (by omega), standardReference, if_neg long]
  have size : (toBeBytes (host.keccak256 (rlpEncode host node))).length = 32 := length_beBytes _ _
  simp only [RlpFormat.encodeString, size]
  -- The hash has thirty-two bytes, and the string that the standard asks for one more.
  rw [if_neg (by simp), if_pos (by decide), List.length_cons]
  omega

/-- The reference is no longer than the standard one. -/
theorem length_reference_le (node : Node) :
    (nodeReference host node).length ≤ (standardReference host node).length := by
  by_cases short : (rlpEncode host node).length < 32
  · rw [nodeReference_of_short short]
  · exact Nat.le_of_lt (length_reference_lt short)

/-- A short encoding is an item of its own, whatever node it is of. -/
theorem isItem_of_short {node : Node} (short : (rlpEncode host node).length < 32) :
    RlpFormat.IsItem (standardReference host node) := by
  rw [standardReference, if_pos short]
  -- An absent child is the empty string, any other one is a list.
  cases filled : node.isNull with
  | true =>
    have null : node = .null := by cases node <;> first | rfl | cases filled
    subst null
    exact RlpFormat.isItem_encodeString (Nat.two_pow_pos 64)
  | false =>
    rw [rlpEncode_eq filled] at short ⊢
    have payload := length_le_rlpList (nodeItems host node)
    rw [rlpList_eq (by omega)]
    exact RlpFormat.isItem_encodeList (by omega)

/-- What goes into an encoding that fits into memory fits as well. -/
theorem length_lt_of_mem {node : Node} (filled : node.isNull = false)
    (fits : (rlpEncode host node).length < 2 ^ 64) {item : Bytes}
    (member : item ∈ nodeItems host node) : item.length < 2 ^ 64 := by
  rw [rlpEncode_eq filled] at fits
  have payload := length_le_rlpList (nodeItems host node)
  -- An item is part of the payload, which is part of the encoding.
  have part : item.length ≤ (nodeItems host node).flatten.length :=
    (List.sublist_flatten_of_mem member).length_le
  omega

/-- The strings in a node are no longer than it. -/
theorem string_lt_of_mem {node : Node} (filled : node.isNull = false)
    (fits : (rlpEncode host node).length < 2 ^ 64) {bytes : Bytes}
    (member : rlpBytes bytes ∈ nodeItems host node) : bytes.length < 2 ^ 64 :=
  Nat.lt_of_le_of_lt (length_le_rlpBytes bytes) (length_lt_of_mem filled fits member)

/-- Without hashed children the items are the standard ones. -/
theorem nodeItems_eq {node : Node} (filled : node.isNull = false)
    (fits : (rlpEncode host node).length < 2 ^ 64) (short : ShortChildren host node) :
    nodeItems host node = standardItems host node := by
  have string := @string_lt_of_mem host node filled fits
  -- Every string and every reference of the node is the standard one.
  cases node with
  | null => cases filled
  | leaf keyPath value =>
    simp only [nodeItems] at string
    simp only [nodeItems, standardItems]
    rw [rlpBytes_eq (string (by simp)), rlpBytes_eq (string (by simp))]
  | extension keyPath child =>
    simp only [nodeItems] at string
    simp only [nodeItems, standardItems]
    rw [rlpBytes_eq (string (by simp)), nodeReference_of_short short]
  | branch children own =>
    simp only [nodeItems] at string
    simp only [nodeItems, standardItems]
    rw [rlpBytes_eq (string (by simp))]
    simp only [nodeReference_of_short (short _)]

/-- Every standard item is one, as long as children are short. -/
theorem isItem_of_mem {node : Node} (filled : node.isNull = false)
    (fits : (rlpEncode host node).length < 2 ^ 64) (short : ShortChildren host node) {item : Bytes}
    (member : item ∈ standardItems host node) : RlpFormat.IsItem item := by
  have string := @string_lt_of_mem host node filled fits
  -- An item is a string or a child, and a short child stands for itself.
  cases node with
  | null => cases member
  | leaf keyPath value =>
    simp only [nodeItems] at string
    rcases List.mem_pair.mp member with rfl | rfl
    · exact RlpFormat.isItem_encodeString (string (by simp))
    · exact RlpFormat.isItem_encodeString (string (by simp))
  | extension keyPath child =>
    simp only [nodeItems] at string
    rcases List.mem_pair.mp member with rfl | rfl
    · exact RlpFormat.isItem_encodeString (string (by simp))
    · exact isItem_of_short short
  | branch children own =>
    simp only [nodeItems] at string
    rcases List.mem_append.mp member with child | value
    · obtain ⟨nibble, rfl⟩ := (List.mem_ofFn' _ _).mp child
      exact isItem_of_short (short nibble)
    · rw [List.mem_singleton.mp value]
      exact RlpFormat.isItem_encodeString (string (by simp))

/-- If the items are as long as the standard ones, no child was hashed. -/
theorem shortChildren_of_flatten {node : Node} (filled : node.isNull = false)
    (fits : (rlpEncode host node).length < 2 ^ 64)
    (same : (standardItems host node).flatten = (nodeItems host node).flatten) :
    ShortChildren host node := by
  have string := @string_lt_of_mem host node filled fits
  have lengths := congrArg List.length same
  cases node with
  | null => trivial
  | leaf keyPath value => trivial
  | extension keyPath child =>
    -- The one child is too short in the payload, and nothing makes up for it.
    by_contra long
    have less := length_reference_lt long
    simp only [nodeItems] at string
    simp only [standardItems, nodeItems, List.flatten_cons, List.flatten_nil, List.append_nil,
      List.length_append, rlpBytes_eq (string (List.mem_cons_self ..))] at lengths
    omega
  | branch children own =>
    intro nibble
    by_contra long
    simp only [nodeItems] at string
    have value : rlpBytes (own.getD []) = RlpFormat.encodeString (own.getD []) :=
      rlpBytes_eq (string (by simp))
    -- One hash that is too short makes the whole payload too short.
    have less : ∑ nibble, (nodeReference host (children nibble)).length <
        ∑ nibble, (standardReference host (children nibble)).length :=
      Finset.sum_lt_sum (fun other _ => length_reference_le (children other))
        ⟨nibble, Finset.mem_univ _, length_reference_lt long⟩
    simp only [standardItems, nodeItems, List.flatten_append, List.flatten_cons, List.flatten_nil,
      List.append_nil, List.length_append, List.length_flatten, List.map_ofFn, List.sum_ofFn,
      Function.comp_apply, value] at lengths
    exact Nat.ne_of_gt less (Nat.add_right_cancel lengths)

/-- The encoding of a node is the standard one exactly when its children are short. -/
theorem splits_iff {node : Node} (filled : node.isNull = false)
    (fits : (rlpEncode host node).length < 2 ^ 64) :
    Splits host node ↔ ShortChildren host node := by
  have payload : (nodeItems host node).flatten.length < 2 ^ 64 := by
    rw [rlpEncode_eq filled] at fits
    exact Nat.lt_of_le_of_lt (length_le_rlpList _) fits
  -- The lengths in the headers are standard, so only the items are left to compare.
  unfold Splits
  rw [rlpEncode_eq filled, rlpList_eq payload]
  constructor
  · -- A list that splits into the standard items has their payload.
    intro split
    exact shortChildren_of_flatten filled fits (RlpFormat.flatten_of_splitList payload split)
  · intro short
    rw [nodeItems_eq filled fits short] at payload ⊢
    exact RlpFormat.splitList_encodeList payload fun item => isItem_of_mem filled fits short

end Items

/-- The nodes of a trie, below one of them. -/
inductive Node.Within : Node → Node → Prop
  | here {node} : Node.Within node node
  | extension {node keyPath child} : Node.Within node child →
      Node.Within node (.extension keyPath child)
  | branch {node children own} (nibble : Nibble) : Node.Within node (children nibble) →
      Node.Within node (.branch children own)

/-- What a node of a trie holds is found in the trie. -/
theorem found_of_within {node root : Node} (within : node.Within root) {path : Nibbles}
    {value : Bytes} (found : getNode node path = some value) :
    ∃ whole, getNode root whole = some value := by
  -- The way down to the node is put in front of the path that leads on from it.
  induction within with
  | here => exact ⟨path, found⟩
  | @extension keyPath child _ ih =>
    obtain ⟨below, found⟩ := ih
    exact ⟨keyPath ++ below, by rwa [getNode_extension, Paths.below_append]⟩
  | branch nibble _ ih =>
    obtain ⟨below, found⟩ := ih
    exact ⟨nibble :: below, found⟩

/-- What is found in a trie was inserted. -/
theorem inserted_of_getNode {inserts : List (Bytes × Bytes)} {path : Nibbles} {value : Bytes}
    (found : getNode (MerklePatriciaTrie.new.insertAll inserts).root path = some value) :
    ∃ entry ∈ inserts, entry.2 = value := by
  induction inserts using List.reverseRecOn with
  | nil => cases found
  | append_singleton earlier entry ih =>
    rw [MerklePatriciaTrie.insertAll_concat, MerklePatriciaTrie.insert, getNode_insertNode,
      Function.update_apply] at found
    -- The last insertion decides, or the value was there before it.
    split at found
    · exact ⟨entry, by simp, Option.some.inj found⟩
    · obtain ⟨before, member, same⟩ := ih found
      exact ⟨before, List.mem_append_left _ member, same⟩

section Ambiguity

variable {host : Host}

/-- Two nodes that differ at most in what their children's items stand for. -/
def SameUpToReferences (host : Host) : Node → Node → Prop
  | .leaf keyPath value, .leaf keyPath' value' => keyPath = keyPath' ∧ value = value'
  | .extension keyPath child, .extension keyPath' child' =>
    keyPath = keyPath' ∧ standardReference host child = standardReference host child'
  | .branch children own, .branch children' own' =>
    own = own' ∧ ∀ nibble,
      standardReference host (children nibble) = standardReference host (children' nibble)
  | _, _ => False

/-- The own value of a branch reads back, as long as it is not an empty one. -/
theorem eq_of_getD {own own' : Option Bytes} (filled : own ≠ some []) (filled' : own' ≠ some [])
    (same : own.getD [] = own'.getD []) : own = own' := by
  -- An absent value is written as an empty one, which no branch has.
  cases own with
  | none =>
    cases own' with
    | none => rfl
    | some value => exact absurd (congrArg some same.symm) filled'
  | some value =>
    cases own' with
    | none => exact absurd (congrArg some same) filled
    | some value' => exact congrArg some same

/-- The branch value of a node, if it is a branch. -/
def Node.own : Node → Option Bytes
  | .branch _ own => own
  | _ => none

/-- The two items of a leaf or an extension tell which of both it is, its path and the rest. -/
theorem path_of_items {path path' : Nibbles} {leaf leaf' : Bool} {item item' : Bytes}
    (small : (compactEncode path leaf).length < 2 ^ 64)
    (small' : (compactEncode path' leaf').length < 2 ^ 64)
    (same : [RlpFormat.encodeString (compactEncode path leaf), item] =
      [RlpFormat.encodeString (compactEncode path' leaf'), item']) :
    path = path' ∧ leaf = leaf' ∧ item = item' := by
  -- The first item tells the path with its flag, and the second one is compared as it is.
  simp only [List.cons.injEq, and_true] at same
  obtain ⟨paths, leaves⟩ := compactEncode_inj (RlpFormat.encodeString_inj small small' same.1)
  exact ⟨paths, leaves, same.2⟩

/-- Nodes with the same standard items are the same up to references. -/
theorem sameUpToReferences_of_items {node node' : Node} (filled : node.isNull = false)
    (filled' : node'.isNull = false) (fits : (rlpEncode host node).length < 2 ^ 64)
    (fits' : (rlpEncode host node').length < 2 ^ 64) (valued : node.own ≠ some [])
    (valued' : node'.own ≠ some []) (same : standardItems host node = standardItems host node') :
    SameUpToReferences host node node' := by
  have string := @string_lt_of_mem host node filled fits
  have string' := @string_lt_of_mem host node' filled' fits'
  -- A branch has seventeen items, the others have two.
  have lengths := congrArg List.length same
  cases node with
  | null => cases filled
  | leaf keyPath value =>
    simp only [nodeItems] at string
    cases node' with
    | null => cases filled'
    | leaf keyPath' value' =>
      simp only [nodeItems] at string'
      obtain ⟨paths, _, values⟩ := path_of_items (string (by simp)) (string' (by simp)) same
      exact ⟨paths, RlpFormat.encodeString_inj (string (by simp)) (string' (by simp)) values⟩
    | extension keyPath' child' =>
      -- The flag in the first item differs.
      simp only [nodeItems] at string'
      obtain ⟨_, leaves, _⟩ := path_of_items (string (by simp)) (string' (by simp)) same
      cases leaves
    | branch children' own' => simp [standardItems] at lengths
  | extension keyPath child =>
    simp only [nodeItems] at string
    cases node' with
    | null => cases filled'
    | leaf keyPath' value' =>
      simp only [nodeItems] at string'
      obtain ⟨_, leaves, _⟩ := path_of_items (string (by simp)) (string' (by simp)) same
      cases leaves
    | extension keyPath' child' =>
      simp only [nodeItems] at string'
      obtain ⟨paths, _, references⟩ := path_of_items (string (by simp)) (string' (by simp)) same
      exact ⟨paths, references⟩
    | branch children' own' => simp [standardItems] at lengths
  | branch children own =>
    simp only [nodeItems] at string
    cases node' with
    | null => cases filled'
    | leaf keyPath' value' => simp [standardItems] at lengths
    | extension keyPath' child' => simp [standardItems] at lengths
    | branch children' own' =>
      simp only [nodeItems] at string'
      obtain ⟨references, values⟩ := List.append_inj same (by simp)
      have value := RlpFormat.encodeString_inj (string (by simp)) (string' (by simp))
        (List.cons.inj values).1
      exact ⟨eq_of_getD valued valued' value,
        fun nibble => congrFun (List.ofFn_injective references) nibble⟩

/-- Nodes of tries have no empty branch value, if no empty value was inserted. -/
theorem own_ne_empty {inserts : List (Bytes × Bytes)} (valued : ∀ entry ∈ inserts, entry.2 ≠ [])
    {node : Node} (within : node.Within (MerklePatriciaTrie.new.insertAll inserts).root) :
    node.own ≠ some [] := by
  intro empty
  cases node with
  | null => cases empty
  | leaf keyPath value => cases empty
  | extension keyPath child => cases empty
  | branch children own =>
    -- The own value of a branch is what the empty path leads to.
    have found : getNode (.branch children own) [] = some [] := empty
    obtain ⟨path, found⟩ := found_of_within within found
    obtain ⟨entry, member, same⟩ := inserted_of_getNode found
    exact valued entry member same

/-- A node encodes as the standard has it exactly when no child is named by its hash, and such
encodings differ for nodes that differ in more than the references to their children. -/
theorem node_encoding_standard_iff (host : Host) {inserts : List (Bytes × Bytes)}
    (valued : ∀ entry ∈ inserts, entry.2 ≠ []) {node : Node}
    (within : node.Within (MerklePatriciaTrie.new.insertAll inserts).root)
    (filled : node.isNull = false) (fits : (rlpEncode host node).length < 2 ^ 64) :
    (Splits host node ↔ ShortChildren host node) ∧
    (ShortChildren host node → ∀ {inserts' : List (Bytes × Bytes)} {node' : Node},
      (∀ entry ∈ inserts', entry.2 ≠ []) →
      node'.Within (MerklePatriciaTrie.new.insertAll inserts').root → node'.isNull = false →
      ShortChildren host node' → rlpEncode host node = rlpEncode host node' →
      SameUpToReferences host node node') := by
  refine ⟨splits_iff filled fits, ?_⟩
  intro short inserts' node' valued' within' filled' short' same
  have fits' : (rlpEncode host node').length < 2 ^ 64 := by rwa [← same]
  -- One encoding splits in one way only.
  have split : RlpFormat.splitList (rlpEncode host node) = some (standardItems host node) :=
    (splits_iff filled fits).mpr short
  have split' : RlpFormat.splitList (rlpEncode host node') = some (standardItems host node') :=
    (splits_iff filled' fits').mpr short'
  apply sameUpToReferences_of_items filled filled' fits fits' (own_ne_empty valued within)
    (own_ne_empty valued' within')
  rw [same] at split
  exact Option.some.inj (split.symm.trans split')

/-- Two entries whose leaves are short enough to be named by themselves. -/
def shortEntries : List (Bytes × Bytes) := [([0x10], [1]), ([0x20], [2])]

theorem node_encoding_standard_of_short_leaves :
    Splits (tableHost []) (MerklePatriciaTrie.new.insertAll shortEntries).root := by
  apply (node_encoding_standard_iff (tableHost []) (by decide) Node.Within.here (by decide)
    (by decide +kernel)).1.mpr
  show ∀ nibble : Nibble, _
  decide +kernel

/-- Two entries of thirty-two bytes each, whose leaves are the same. -/
def longEntries : List (Bytes × Bytes) :=
  [([0x10], List.replicate 32 0xaa), ([0x20], List.replicate 32 0xaa)]

/-- A hash function that is right about those leaves. -/
def longHost : Host :=
  tableHost [([0xe2, 0x30, 0xa0] ++ List.replicate 32 0xaa,
    0x6690e88a7ab08206d681a52be369bf20e0aad1a16be669d4d8b8b197c9dec2a8)]

/-- The root over two hashed leaves does not split, into whatever items. -/
theorem root_over_hashes_does_not_split :
    RlpFormat.splitList (rlpEncode longHost (MerklePatriciaTrie.new.insertAll longEntries).root) = none ∧
    ¬ Splits longHost (MerklePatriciaTrie.new.insertAll longEntries).root := by
  have refused : RlpFormat.splitList
      (rlpEncode longHost (MerklePatriciaTrie.new.insertAll longEntries).root) = none := by
    decide +kernel
  refine ⟨refused, ?_⟩
  unfold Splits
  rw [refused]
  exact Option.some_ne_none _ |>.symm

end Ambiguity

end MiniEvm
