import MiniEvm.Mpt.Trie
import MiniEvm.Paths.Lookup

/-! The trie is a finite map: every insertion updates one key and no other. -/

namespace MiniEvm

open Paths

/-- Two paths part where their common prefix ends. -/
theorem commonPrefix_split (left right : Nibbles) :
    ∃ shared leftRest rightRest, left = shared ++ leftRest ∧ right = shared ++ rightRest ∧
      commonPrefix left right = shared.length ∧
      ∀ a as b bs, leftRest = a :: as → rightRest = b :: bs → a ≠ b := by
  -- Both paths are walked together, and the first difference ends the walk.
  induction left generalizing right with
  | nil => exact ⟨[], [], right, rfl, rfl, rfl, by simp⟩
  | cons x left ih =>
    cases right with
    | nil => exact ⟨[], x :: left, [], rfl, rfl, rfl, by simp⟩
    | cons y right =>
      by_cases same : x = y
      · subst same
        obtain ⟨shared, leftRest, rightRest, rfl, rfl, length, apart⟩ := ih right
        refine ⟨x :: shared, leftRest, rightRest, rfl, rfl, ?_, apart⟩
        simp only [commonPrefix, List.zip_cons_cons, List.takeWhile_cons, beq_self_eq_true,
          if_true, List.length_cons] at length ⊢
        rw [length]
      · refine ⟨[], x :: left, y :: right, rfl, rfl, ?_, ?_⟩
        · simp [commonPrefix, same]
        · intro a as b bs leftHead rightHead
          cases leftHead
          cases rightHead
          exact same

section Shapes

variable {children : Nibble → Node} {own : Option Bytes}

theorem getNode_leaf (keyPath : Nibbles) (value : Bytes) :
    getNode (.leaf keyPath value) = Function.update (fun _ => none) keyPath (some value) := by
  funext path
  simp only [getNode, Function.update_apply, eq_comm]

theorem getNode_extension (keyPath : Nibbles) (child : Node) :
    getNode (.extension keyPath child) = below keyPath (getNode child) := rfl

/-- A branch that leads nowhere holds its own value only. -/
theorem getNode_emptyChildren :
    getNode (.branch emptyChildren own) = Function.update (fun _ => none) [] own := by
  funext path
  cases path with
  | nil => simp [getNode]
  | cons nibble rest => simp [getNode, emptyChildren]

/-- Replacing a child by one that differs in a single path updates that path of the branch. -/
theorem getNode_update_child {nibble : Nibble} {child : Node} {rest : Nibbles} {value : Bytes}
    (changed : getNode child = Function.update (getNode (children nibble)) rest (some value)) :
    getNode (.branch (Function.update children nibble child) own) =
      Function.update (getNode (.branch children own)) (nibble :: rest) (some value) := by
  funext path
  -- Only paths that begin with the nibble see the child.
  cases path with
  | nil => simp [getNode]
  | cons first tail =>
    by_cases here : first = nibble
    · subst here
      simp [getNode, changed, Function.update_apply]
    · simp [getNode, here]

/-- A fresh child of a branch adds one path. -/
theorem getNode_fresh_child {nibble : Nibble} {rest : Nibbles} {value : Bytes}
    (free : children nibble = .null) :
    getNode (.branch (Function.update children nibble (childFor rest value)) own) =
      Function.update (getNode (.branch children own)) (nibble :: rest) (some value) := by
  apply getNode_update_child
  rw [free, childFor, getNode_leaf]
  rfl

/-- Completing a branch adds the new path to what the branch led to before. -/
theorem getNode_splitBranch {newRemaining : Nibbles} {value : Bytes}
    (free : ∀ nibble rest, newRemaining = nibble :: rest → children nibble = .null) :
    getNode (splitBranch children newRemaining value) =
      Function.update (getNode (.branch children none)) newRemaining (some value) := by
  cases newRemaining with
  | nil =>
    funext path
    cases path <;> simp [splitBranch, getNode]
  | cons nibble rest => exact getNode_fresh_child (free nibble rest rfl)

/-- A branch behind the shared nibbles reads behind them. -/
theorem getNode_behindCommon (shared rest : Nibbles) (branch : Node) :
    getNode (behindCommon (shared ++ rest) shared.length branch) =
      below shared (getNode branch) := by
  unfold behindCommon
  split
  · -- Without shared nibbles there is nothing to be behind of.
    rename_i empty
    obtain rfl := List.eq_nil_of_length_eq_zero empty
    rw [below_nil]
  · rw [List.take_left, getNode_extension]

/-- What is left of an extension below its first nibble leads where the extension led. -/
theorem getNode_shortened (old : Nibble) (oldRest : Nibbles) (child : Node) :
    getNode (.branch (Function.update emptyChildren old
        (if oldRest.isEmpty then child else .extension oldRest child)) none) =
      below (old :: oldRest) (getNode child) := by
  -- An extension of no nibbles is left out, and leads to its child anyway.
  have shorter : getNode (if oldRest.isEmpty then child else .extension oldRest child) =
      below oldRest (getNode child) := by
    cases oldRest with
    | nil => exact (below_nil _).symm
    | cons nibble rest => rfl
  funext path
  cases path with
  | nil => simp [getNode, below]
  | cons first tail =>
    by_cases here : first = old
    · subst here
      simp only [getNode, Function.update_self, shorter]
      simp [below]
    · simp only [getNode, Function.update_of_ne here, emptyChildren]
      simp [below, Ne.symm here]

end Shapes

section Insertion

/-- Splitting a leaf keeps the old entry and adds the new one. -/
theorem getNode_insert_leaf (keyPath path : Nibbles) (oldValue value : Bytes) :
    getNode (insertNode (.leaf keyPath oldValue) path value) =
      Function.update (getNode (.leaf keyPath oldValue)) path (some value) := by
  obtain ⟨shared, oldRemaining, newRemaining, rfl, rfl, common, apart⟩ :=
    commonPrefix_split keyPath path
  rw [getNode_leaf]
  simp only [insertNode, common, List.drop_left, List.length_append]
  split
  · -- Both paths end here, so they are the same path.
    rename_i ended
    obtain rfl : oldRemaining = [] := List.eq_nil_of_length_eq_zero (by omega)
    obtain rfl : newRemaining = [] := List.eq_nil_of_length_eq_zero (by omega)
    rw [childFor, getNode_leaf, Function.update_idem]
  · rename_i open_
    -- What follows happens below the shared nibbles, for the entries and for the branch alike.
    have entries : Function.update (Function.update (fun _ => none) (shared ++ oldRemaining)
          (some oldValue)) (shared ++ newRemaining) (some value) =
        below shared (Function.update (Function.update (fun _ => none) oldRemaining
          (some oldValue)) newRemaining (some value)) := by
      rw [below_update, below_update, below_empty]
    rw [entries]
    have free : ∀ nibble, emptyChildren nibble = .null := fun _ => rfl
    cases oldRemaining with
    | nil =>
      cases newRemaining with
      | nil => simp at open_
      | cons nibble rest =>
        simp only
        rw [getNode_behindCommon, getNode_fresh_child (free nibble), getNode_emptyChildren]
    | cons old oldRest =>
      simp only
      rw [getNode_behindCommon, getNode_splitBranch, getNode_fresh_child (free old),
        getNode_emptyChildren, Function.update_eq_self]
      -- The paths part at this nibble, so the new child has a place of its own.
      intro nibble rest starts
      exact Function.update_of_ne (Ne.symm (apart _ _ _ _ rfl starts)) _ _

/-- Splitting an extension keeps what lies below it and adds the new entry. -/
theorem getNode_insert_extension (keyPath path : Nibbles) (child : Node) (value : Bytes)
    (inChild : ∀ path, getNode (insertNode child path value) =
      Function.update (getNode child) path (some value)) :
    getNode (insertNode (.extension keyPath child) path value) =
      Function.update (getNode (.extension keyPath child)) path (some value) := by
  obtain ⟨shared, oldRemaining, newRemaining, rfl, rfl, common, apart⟩ :=
    commonPrefix_split keyPath path
  rw [getNode_extension]
  simp only [insertNode, common, List.drop_left, List.length_append]
  cases oldRemaining with
  | nil =>
    -- The whole run is shared, and the entry goes below it.
    have inside : Function.update (below (shared ++ []) (getNode child))
          (shared ++ newRemaining) (some value) =
        below (shared ++ []) (Function.update (getNode child) newRemaining (some value)) := by
      rw [below_update, List.append_nil]
    rw [inside]
    simp only [List.length_nil, Nat.add_zero, if_true]
    split
    · rename_i ended
      obtain rfl : newRemaining = [] := List.eq_nil_of_length_eq_zero (by omega)
      rw [getNode_extension, inChild]
    · rw [getNode_extension, inChild]
  | cons old oldRest =>
    -- The run is cut at the first nibble that the new path does not share.
    rw [if_neg (by simp), ← below_below, ← below_update]
    simp only
    rw [getNode_behindCommon, getNode_splitBranch, getNode_shortened]
    intro nibble rest starts
    exact Function.update_of_ne (Ne.symm (apart _ _ _ _ rfl starts)) _ _

/-- An insertion updates the lookup at its path and nowhere else. -/
theorem getNode_insertNode (node : Node) (path : Nibbles) (value : Bytes) :
    getNode (insertNode node path value) = Function.update (getNode node) path (some value) := by
  -- The insertion descends into one child of each node on its way.
  induction node generalizing path with
  | null =>
    rw [insertNode, childFor, getNode_leaf]
    rfl
  | leaf keyPath oldValue => exact getNode_insert_leaf keyPath path oldValue value
  | extension keyPath child ih => exact getNode_insert_extension keyPath path child value ih
  | branch children own ih =>
    cases path with
    | nil =>
      funext query
      cases query <;> simp [insertNode, getNode]
    | cons nibble rest => exact getNode_update_child (ih nibble rest)

end Insertion

section Keys

/-- A byte is made of its two halves. -/
theorem byteNibbles_value (byte : UInt8) : ∃ high low, byteNibbles byte = [high, low] ∧
    byte.toNat = high.val * 16 + low.val := by
  refine ⟨_, _, rfl, ?_⟩
  have small := byte.toNat_lt
  simp only [Fin.val_ofNat, UInt8.toNat_shiftRight, UInt8.toNat_and, UInt8.reduceToNat,
    Nat.shiftRight_eq_div_pow]
  -- The mask keeps the remainder by sixteen.
  rw [show (15 : Nat) = 2 ^ 4 - 1 from rfl, Nat.and_two_pow_sub_one_eq_mod]
  simp only [Nat.reduceMod, Nat.reducePow] at small ⊢
  omega

/-- Different keys have different paths. -/
theorem bytesToNibbles_injective : Function.Injective bytesToNibbles := by
  intro left
  -- Each byte of a key takes two nibbles of its path.
  induction left with
  | nil =>
    intro right same
    cases right with
    | nil => rfl
    | cons byte rest => simp [bytesToNibbles, byteNibbles] at same
  | cons byte rest ih =>
    intro right same
    cases right with
    | nil => simp [bytesToNibbles, byteNibbles] at same
    | cons other tail =>
      obtain ⟨high, low, halves, value⟩ := byteNibbles_value byte
      obtain ⟨high', low', halves', value'⟩ := byteNibbles_value other
      simp only [bytesToNibbles, List.flatMap_cons, halves, halves', List.cons_append,
        List.nil_append, List.cons.injEq] at same
      obtain ⟨rfl, rfl, tails⟩ := same
      rw [UInt8.toNat_inj.mp (value.trans value'.symm), ih tails]

end Keys

namespace MerklePatriciaTrie

@[simp] theorem get_new (key : Bytes) : new.get key = none := rfl

/-- An insertion is seen under its own key only. -/
theorem get_insert (trie : MerklePatriciaTrie) (key value query : Bytes) :
    (trie.insert key value).get query = if query = key then some value else trie.get query := by
  simp only [get, insert, getNode_insertNode, Function.update_apply,
    bytesToNibbles_injective.eq_iff]

/--
The trie is a finite map.

After any sequence of insertions into the empty trie, a lookup finds the value of the last
insertion under its key, and nothing under a key that was never inserted.
-/
theorem get_insertAll (inserts : List (Bytes × Bytes)) (key : Bytes) :
    (new.insertAll inserts).get key =
      (inserts.reverse.find? fun entry => entry.1 = key).map Prod.snd := by
  -- The last insertion decides, so the sequence is taken apart from its end.
  induction inserts using List.reverseRecOn with
  | nil => rfl
  | append_singleton earlier entry ih =>
    simp only [insertAll, List.foldl_append, List.foldl_cons, List.foldl_nil, get_insert] at ih ⊢
    rw [ih, List.reverse_append, List.reverse_singleton, List.singleton_append, List.find?_cons]
    by_cases here : key = entry.1
    · simp [here]
    · simp [here, Ne.symm here]

end MerklePatriciaTrie

end MiniEvm
