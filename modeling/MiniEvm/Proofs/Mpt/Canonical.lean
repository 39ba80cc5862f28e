import Mathlib.Data.Finset.Card
import Mathlib.Data.Fintype.Option
import MiniEvm.Proofs.Mpt.Trie

/-! The trie has one shape for each map: what is inserted decides, not how it was inserted. -/

namespace MiniEvm

open Paths

def Node.isNull : Node → Bool
  | .null => true
  | _ => false

def Node.isBranch : Node → Bool
  | .branch _ _ => true
  | _ => false

section Branches

variable {children : Nibble → Node} {own : Option Bytes}

/-- Whether a branch holds something at a place: its own value, or a child behind a nibble. -/
def holds (children : Nibble → Node) (own : Option Bytes) : Option Nibble → Bool
  | none => own.isSome
  | some nibble => !(children nibble).isNull

/-- How many entries a branch has, its own value included. -/
def branchEntries (children : Nibble → Node) (own : Option Bytes) : Nat :=
  (Finset.univ.filter fun place => holds children own place = true).card

/-- A branch with two entries has them at different places. -/
theorem two_le_branchEntries : 2 ≤ branchEntries children own ↔
    ∃ first second, first ≠ second ∧ holds children own first ∧ holds children own second := by
  -- Two places are counted just where two different ones are there.
  have counted : 2 ≤ branchEntries children own ↔ ∃ first second,
      first ∈ (Finset.univ.filter fun place => holds children own place = true) ∧
      second ∈ (Finset.univ.filter fun place => holds children own place = true) ∧
      first ≠ second := Finset.one_lt_card_iff
  simp only [counted, Finset.mem_filter, Finset.mem_univ, true_and]
  constructor
  · rintro ⟨first, second, one, two, different⟩
    exact ⟨first, second, different, one, two⟩
  · rintro ⟨first, second, different, one, two⟩
    exact ⟨first, second, one, two, different⟩

/-- Entries stay when a child is put in place, unless it is empty. -/
theorem holds_update {nibble : Nibble} {child : Node} (filled : child.isNull = false)
    {place : Option Nibble} (held : holds children own place) :
    holds (Function.update children nibble child) own place := by
  cases place with
  | none => exact held
  | some other =>
    simp only [holds, Function.update_apply] at held ⊢
    split
    · rw [filled]
      rfl
    · exact held

/-- A branch holds the child that was put there. -/
theorem holds_update_self (nibble : Nibble) {child : Node} (filled : child.isNull = false) :
    holds (Function.update children nibble child) own (some nibble) := by
  simp [holds, filled]

/-- A value of its own only adds to the entries of a branch. -/
theorem holds_some {value : Bytes} {place : Option Nibble} (held : holds children own place) :
    holds children (some value) place := by
  cases place with
  | none => rfl
  | some nibble => exact held

end Branches

/--
The one shape that a trie has.

An extension has a run of nibbles and leads to a branch, a branch holds at least two entries, and
so it goes all the way down.
-/
def Canonical : Node → Prop
  | .null => True
  | .leaf _ _ => True
  | .extension keyPath child => keyPath ≠ [] ∧ child.isBranch ∧ Canonical child
  | .branch children own => 2 ≤ branchEntries children own ∧ ∀ nibble, Canonical (children nibble)

section Insertion

variable {children : Nibble → Node}

/-- What stands behind a common path is there if the branch is. -/
theorem behindCommon_isNull {path : Nibbles} {common : Nat} {branch : Node}
    (filled : branch.isNull = false) : (behindCommon path common branch).isNull = false := by
  unfold behindCommon
  split
  · exact filled
  · rfl

/-- A split makes a branch. -/
theorem splitBranch_isBranch (newRemaining : Nibbles) (value : Bytes) :
    (splitBranch children newRemaining value).isBranch := by
  cases newRemaining <;> rfl

/-- A branch is not empty. -/
theorem isNull_of_isBranch {node : Node} (branch : node.isBranch) : node.isNull = false := by
  cases node <;> first | rfl | cases branch

/-- After an insertion there is something. -/
theorem insertNode_isNull (node : Node) (path : Nibbles) (value : Bytes) :
    (insertNode node path value).isNull = false := by
  have split : ∀ children remaining, (splitBranch children remaining value).isNull = false :=
    fun children remaining => isNull_of_isBranch (splitBranch_isBranch remaining value)
  -- The cases of the insertion: it ends in a leaf, a branch, or an extension that leads to one.
  cases node with
  | null => rfl
  | leaf keyPath oldValue =>
    simp only [insertNode]
    split
    · rfl
    · split
      · split
        · rfl
        · exact behindCommon_isNull rfl
      · exact behindCommon_isNull (split _ _)
  | extension keyPath child =>
    simp only [insertNode]
    split
    · split <;> rfl
    · split
      · rfl
      · exact behindCommon_isNull (split _ _)
  | branch children own =>
    cases path <;> rfl

/-- A branch is still a branch after an insertion. -/
theorem insertNode_isBranch {node : Node} (branch : node.isBranch) (path : Nibbles)
    (value : Bytes) : (insertNode node path value).isBranch := by
  cases node with
  | branch children own => cases path <;> rfl
  | null => cases branch
  | leaf keyPath oldValue => cases branch
  | extension keyPath child => cases branch

/-- A branch behind the shared nibbles has the right shape. -/
theorem Canonical.behindCommon {shared rest : Nibbles} {branch : Node} (isBranch : branch.isBranch)
    (canonical : Canonical branch) :
    Canonical (behindCommon (shared ++ rest) shared.length branch) := by
  unfold MiniEvm.behindCommon
  split
  · exact canonical
  · rename_i some_
    rw [List.take_left]
    refine ⟨?_, isBranch, canonical⟩
    -- Without shared nibbles no extension would have been put there.
    rintro rfl
    exact some_ rfl

/-- With one child in place, all children of a branch have the right shape. -/
theorem Canonical.single {nibble : Nibble} {child : Node} (canonical : Canonical child)
    (place : Nibble) : Canonical (Function.update emptyChildren nibble child place) := by
  rw [Function.update_apply]
  split
  · exact canonical
  · trivial

/-- Completing a branch that has one child gives it a second entry. -/
theorem Canonical.splitBranch {old : Nibble} {child : Node} (filled : child.isNull = false)
    (canonical : Canonical child) {newRemaining : Nibbles} (value : Bytes)
    (apart : ∀ nibble rest, newRemaining = nibble :: rest → old ≠ nibble) :
    Canonical (splitBranch (Function.update emptyChildren old child) newRemaining value) := by
  have held : ∀ own, holds (Function.update emptyChildren old child) own (some old) :=
    fun own => holds_update_self old filled
  cases newRemaining with
  | nil =>
    -- The second entry is the branch's own value.
    exact ⟨two_le_branchEntries.mpr ⟨some old, none, by simp, held _, rfl⟩, canonical.single⟩
  -- The second entry is a new leaf, under a nibble other than the old one.
  | cons nibble rest =>
    refine ⟨two_le_branchEntries.mpr ⟨some old, some nibble, ?_, ?_, ?_⟩, fun place => ?_⟩
    · simpa using apart nibble rest rfl
    · exact holds_update rfl (held _)
    · exact holds_update_self nibble rfl
    · rw [Function.update_apply]
      split
      · trivial
      · exact canonical.single place

/-- Inserting at a leaf keeps the shape. -/
theorem Canonical.insert_leaf (keyPath path : Nibbles) (oldValue value : Bytes) :
    Canonical (insertNode (.leaf keyPath oldValue) path value) := by
  obtain ⟨shared, oldRemaining, newRemaining, rfl, rfl, common, apart⟩ :=
    commonPrefix_split keyPath path
  simp only [insertNode, common, List.drop_left, List.length_append]
  split
  · trivial
  · rename_i open_
    cases oldRemaining with
    | nil =>
      cases newRemaining with
      | nil => simp at open_
      | cons nibble rest =>
        -- The old value stays at the branch and the new one goes below it.
        refine Canonical.behindCommon rfl ⟨two_le_branchEntries.mpr ?_, ?_⟩
        · exact ⟨none, some nibble, by simp, rfl, holds_update_self nibble rfl⟩
        · exact Canonical.single trivial
    | cons old oldRest =>
      -- The old value goes below the branch, and the new one beside it or at it.
      apply Canonical.behindCommon (splitBranch_isBranch _ _)
      apply Canonical.splitBranch rfl
      · trivial
      · exact fun nibble rest starts => apart _ _ _ _ rfl starts

/-- Inserting at an extension keeps the shape, if it does in its child. -/
theorem Canonical.insert_extension {keyPath : Nibbles} {child : Node}
    (canonical : Canonical (.extension keyPath child)) (path : Nibbles) (value : Bytes)
    (inChild : ∀ path, Canonical (insertNode child path value)) :
    Canonical (insertNode (.extension keyPath child) path value) := by
  obtain ⟨shared, oldRemaining, newRemaining, rfl, rfl, common, apart⟩ :=
    commonPrefix_split keyPath path
  obtain ⟨run, isBranch, below⟩ := canonical
  simp only [insertNode, common, List.drop_left, List.length_append]
  cases oldRemaining with
  | nil =>
    -- The whole run is shared, so the insertion goes on below it.
    simp only [List.length_nil, Nat.add_zero, if_true]
    split
    · exact ⟨run, insertNode_isBranch isBranch _ _, inChild _⟩
    · exact ⟨run, insertNode_isBranch isBranch _ _, inChild _⟩
  | cons old oldRest =>
    rw [if_neg (by simp)]
    simp only
    apply Canonical.behindCommon (splitBranch_isBranch _ _)
    -- What is left of the run is an extension again, or nothing but the branch.
    apply Canonical.splitBranch
    · split
      · exact isNull_of_isBranch isBranch
      · rfl
    · split
      · exact below
      · rename_i more
        exact ⟨by simpa using more, isBranch, below⟩
    · exact fun nibble rest starts => apart _ _ _ _ rfl starts

/-- An insertion keeps the shape. -/
theorem Canonical.insertNode {node : Node} (canonical : Canonical node) (path : Nibbles)
    (value : Bytes) : Canonical (insertNode node path value) := by
  -- Along the insertion's own descent: each node on the way is rebuilt in the right shape.
  induction node generalizing path with
  | null => trivial
  | leaf keyPath oldValue => exact Canonical.insert_leaf keyPath path oldValue value
  | extension keyPath child ih =>
    exact canonical.insert_extension path value fun path => ih canonical.2.2 path
  | branch children own ih =>
    obtain ⟨entries, below⟩ := canonical
    obtain ⟨first, second, different, one, two⟩ := two_le_branchEntries.mp entries
    cases path with
    | nil =>
      exact ⟨two_le_branchEntries.mpr ⟨first, second, different, holds_some one, holds_some two⟩,
        below⟩
    | cons nibble rest =>
      have filled := insertNode_isNull (children nibble) rest value
      refine ⟨two_le_branchEntries.mpr ⟨first, second, different, holds_update filled one,
        holds_update filled two⟩, fun place => ?_⟩
      rw [Function.update_apply]
      split
      · exact ih nibble (below nibble) rest
      · exact below place

end Insertion

section Uniqueness

variable {children : Nibble → Node} {own : Option Bytes}

/-- What a branch holds at a place is found on a path that starts there. -/
theorem found_of_holds {place : Option Nibble} (held : holds children own place)
    (below : ∀ nibble, (children nibble).isNull = false →
      ∃ path, getNode (children nibble) path ≠ none) :
    ∃ path, getNode (.branch children own) path ≠ none ∧ path.head? = place := by
  cases place with
  -- The value of the branch itself is at the end of the empty path.
  | none => exact ⟨[], Option.isSome_iff_ne_none.mp held, rfl⟩
  | some nibble =>
    obtain ⟨path, found⟩ := below nibble (by simpa [holds] using held)
    exact ⟨nibble :: path, found, rfl⟩

/-- Where there is a node, there is an entry. -/
theorem Canonical.found {node : Node} (canonical : Canonical node) (filled : node.isNull = false) :
    ∃ path, getNode node path ≠ none := by
  -- An extension hands on what its child has, and a branch has two places, one of which will do.
  induction node with
  | null => cases filled
  | leaf keyPath value => exact ⟨keyPath, by simp [getNode]⟩
  | extension keyPath child ih =>
    obtain ⟨_, isBranch, below⟩ := canonical
    obtain ⟨path, found⟩ := ih below (isNull_of_isBranch isBranch)
    exact ⟨keyPath ++ path, by rwa [getNode_extension, below_append]⟩
  | branch children own ih =>
    obtain ⟨entries, below⟩ := canonical
    obtain ⟨first, _, _, held, _⟩ := two_le_branchEntries.mp entries
    obtain ⟨path, found, _⟩ := found_of_holds held fun nibble => ih nibble (below nibble)
    exact ⟨path, found⟩

/-- The entries of a branch part at once. -/
theorem Canonical.diverges (canonical : Canonical (.branch children own)) :
    Diverges (getNode (.branch children own)) := by
  obtain ⟨entries, below⟩ := canonical
  obtain ⟨first, second, different, one, two⟩ := two_le_branchEntries.mp entries
  have found := fun nibble => (below nibble).found
  obtain ⟨left, foundLeft, startsLeft⟩ := found_of_holds one found
  obtain ⟨right, foundRight, startsRight⟩ := found_of_holds two found
  -- Two paths that start with different nibbles, or of which one is empty.
  refine ⟨left, right, foundLeft, foundRight, ?_, ?_⟩
  · rintro rfl
    exact different (startsLeft.symm.trans startsRight)
  · rintro step leftRest rightRest rfl rfl
    exact different (startsLeft.symm.trans startsRight)

/-- So do those of any node that is a branch. -/
theorem Canonical.diverges_of_isBranch {node : Node} (canonical : Canonical node)
    (isBranch : node.isBranch) : Diverges (getNode node) := by
  cases node with
  | branch children own => exact canonical.diverges
  | null => cases isBranch
  | leaf keyPath value => cases isBranch
  | extension keyPath child => cases isBranch

/-- A run of nibbles before a branch is not a branch. -/
theorem extension_ne_branch {keyPath : Nibbles} {child : Node}
    (canonical : Canonical (.extension keyPath child))
    (canonical' : Canonical (.branch children own)) :
    getNode (.extension keyPath child) ≠ getNode (.branch children own) := by
  obtain ⟨run, isBranch, below⟩ := canonical
  -- All entries below the extension share its run, and those of the branch share nothing.
  intro same
  rw [getNode_extension, ← below_nil (getNode (.branch children own))] at same
  exact run (below_inj (below.diverges_of_isBranch isBranch) canonical'.diverges same).1

/-- A leaf holds one entry, and no other node holds exactly that one. -/
theorem eq_leaf_of_getNode {keyPath : Nibbles} {value : Bytes} {node : Node}
    (canonical : Canonical node) (same : getNode node = getNode (.leaf keyPath value)) :
    node = .leaf keyPath value := by
  rw [getNode_leaf] at same
  cases node with
  | null =>
    have entry := congrFun same keyPath
    simp [getNode] at entry
  | leaf otherPath otherValue =>
    have entry := congrFun same otherPath
    rw [getNode, if_pos rfl, Function.update_apply] at entry
    split at entry
    · rename_i path
      rw [path, Option.some.inj entry]
    · cases entry
  | extension otherPath child =>
    -- Below an extension there are two entries at least.
    exact absurd same (below_ne_update (canonical.2.2.diverges_of_isBranch canonical.2.1))
  | branch children own =>
    rw [← below_nil (getNode (.branch children own))] at same
    exact absurd same (below_ne_update canonical.diverges)

/-- The shape of a trie is decided by what it holds. -/
theorem Canonical.eq_of_getNode {left right : Node} (canonical : Canonical left)
    (canonical' : Canonical right) (same : getNode left = getNode right) : left = right := by
  -- By induction on one of them; the other can only be the same kind of node.
  induction left generalizing right with
  | null =>
    cases filled : right.isNull with
    | false =>
      obtain ⟨path, found⟩ := canonical'.found filled
      exact absurd (congrFun same path).symm found
    | true =>
      cases right with
      | null => rfl
      | leaf _ _ => cases filled
      | extension _ _ => cases filled
      | branch _ _ => cases filled
  | leaf keyPath value => exact (eq_leaf_of_getNode canonical' same.symm).symm
  | extension keyPath child ih =>
    cases right with
    | null =>
      obtain ⟨path, found⟩ := canonical.found rfl
      exact absurd (congrFun same path) found
    | leaf otherPath value => exact eq_leaf_of_getNode canonical same
    | extension otherPath otherChild =>
      -- The run is as much as all the entries share, so both have the same one.
      obtain ⟨rfl, below⟩ := below_inj (canonical.2.2.diverges_of_isBranch canonical.2.1)
        (canonical'.2.2.diverges_of_isBranch canonical'.2.1) same
      rw [ih canonical.2.2 canonical'.2.2 below]
    | branch children own => exact absurd same (extension_ne_branch canonical canonical')
  | branch children own ih =>
    cases right with
    | null =>
      obtain ⟨path, found⟩ := canonical.found rfl
      exact absurd (congrFun same path) found
    | leaf otherPath value => exact eq_leaf_of_getNode canonical same
    | extension otherPath otherChild =>
      exact absurd same.symm (extension_ne_branch canonical' canonical)
    | branch otherChildren otherOwn =>
      -- The own values are found at the branch, everything else behind the nibbles.
      obtain rfl : own = otherOwn := congrFun same []
      congr 1
      funext nibble
      apply ih nibble (canonical.2 nibble) (canonical'.2 nibble)
      funext path
      exact congrFun same (nibble :: path)

end Uniqueness

/-- What a sequence of insertions leaves under a key: the value that came last. -/
def finalMap (inserts : List (Bytes × Bytes)) (key : Bytes) : Option Bytes :=
  (inserts.reverse.find? fun entry => entry.1 = key).map Prod.snd

/-- One more insertion decides about its own key only. -/
theorem finalMap_concat (inserts : List (Bytes × Bytes)) (entry : Bytes × Bytes) :
    finalMap (inserts ++ [entry]) = Function.update (finalMap inserts) entry.1 (some entry.2) := by
  funext key
  simp only [finalMap, List.reverse_append, List.reverse_singleton, List.singleton_append,
    List.find?_cons, Function.update_apply]
  -- The last insertion is looked at first.
  by_cases here : key = entry.1
  · simp [here]
  · simp [here, Ne.symm here]

/-- When every key comes once, the insertions are the entries. -/
theorem finalMap_eq_some_iff {inserts : List (Bytes × Bytes)}
    (separate : (inserts.map Prod.fst).Nodup) {key value : Bytes} :
    finalMap inserts key = some value ↔ (key, value) ∈ inserts := by
  induction inserts using List.reverseRecOn with
  | nil => simp [finalMap]
  | append_singleton earlier entry ih =>
    obtain ⟨before, fresh⟩ : (earlier.map Prod.fst).Nodup ∧ entry.1 ∉ earlier.map Prod.fst := by
      rw [List.map_append, List.map_singleton] at separate
      exact ⟨(List.nodup_append.mp separate).1, fun member =>
        (List.nodup_append.mp separate).2.2 _ member _ (List.mem_singleton_self _) rfl⟩
    rw [finalMap_concat, Function.update_apply, List.mem_append, List.mem_singleton]
    split
    · rename_i here
      subst here
      -- An earlier entry under this key is ruled out.
      have unlisted : (entry.1, value) ∉ earlier := fun member =>
        fresh (List.mem_map.mpr ⟨_, member, rfl⟩)
      simp only [unlisted, false_or, Option.some.injEq]
      constructor
      · rintro rfl
        rfl
      · rintro same
        rw [← same]
    · rename_i other
      rw [ih before]
      constructor
      · exact Or.inl
      · rintro (member | rfl)
        · exact member
        · exact absurd rfl other

namespace MerklePatriciaTrie

/-- The last entry is inserted last. -/
theorem insertAll_concat (trie : MerklePatriciaTrie) (inserts : List (Bytes × Bytes))
    (entry : Bytes × Bytes) :
    trie.insertAll (inserts ++ [entry]) = (trie.insertAll inserts).insert entry.1 entry.2 := by
  simp [insertAll]

/-- Every trie that insertions lead to has the right shape. -/
theorem canonical_insertAll (inserts : List (Bytes × Bytes)) :
    Canonical (new.insertAll inserts).root := by
  induction inserts using List.reverseRecOn with
  | nil => trivial
  | append_singleton earlier entry ih =>
    rw [insertAll_concat]
    exact ih.insertNode _ _

/-- A path of the trie is the path of a key, or nothing is found there. -/
theorem getNode_insertAll (inserts : List (Bytes × Bytes)) (path : Nibbles) :
    getNode (new.insertAll inserts).root path = none ∨ ∃ key, path = bytesToNibbles key := by
  -- The last insert counts, so that the induction takes inserts off the end.
  induction inserts using List.reverseRecOn with
  | nil => exact .inl rfl
  | append_singleton earlier entry ih =>
    rw [insertAll_concat, insert, getNode_insertNode, Function.update_apply]
    split
    · rename_i here
      exact .inr ⟨entry.1, here⟩
    · exact ih

/-- Insertions that come to the same map lead to the same trie. -/
theorem insertAll_eq_of_finalMap {inserts inserts' : List (Bytes × Bytes)}
    (same : ∀ key, finalMap inserts key = finalMap inserts' key) :
    new.insertAll inserts = new.insertAll inserts' := by
  have roots : (new.insertAll inserts).root = (new.insertAll inserts').root := by
    apply (canonical_insertAll inserts).eq_of_getNode (canonical_insertAll inserts')
    funext path
    -- On the path of a key the maps decide, and elsewhere there is nothing in either.
    by_cases keyed : ∃ key, path = bytesToNibbles key
    · obtain ⟨key, rfl⟩ := keyed
      have left := get_insertAll inserts key
      have right := get_insertAll inserts' key
      exact left.trans ((same key).trans right.symm)
    · rw [(getNode_insertAll inserts path).resolve_right keyed,
        (getNode_insertAll inserts' path).resolve_right keyed]
  cases left : new.insertAll inserts
  cases right : new.insertAll inserts'
  simp only [left, right] at roots
  rw [roots]

/-- The order of insertions under different keys does not matter. -/
theorem insertAll_perm {inserts inserts' : List (Bytes × Bytes)}
    (separate : (inserts.map Prod.fst).Nodup) (perm : inserts.Perm inserts') :
    new.insertAll inserts = new.insertAll inserts' := by
  have separate' : (inserts'.map Prod.fst).Nodup := (perm.map Prod.fst).nodup_iff.mp separate
  -- The tries are the same as soon as the maps are.
  apply insertAll_eq_of_finalMap
  intro key
  ext value
  rw [finalMap_eq_some_iff separate, finalMap_eq_some_iff separate', perm.mem_iff]

end MerklePatriciaTrie

end MiniEvm
