import Mathlib.Data.List.Basic

/-! Lists cut into chunks whose first elements say how many others belong to them. -/

namespace Collections

variable {α : Type} {size : α → Nat}

/-- Takes off one head after the other, each with the elements it asks for, or those there are. -/
def chunks (size : α → Nat) : List α → List (List α)
  | [] => []
  | head :: rest => (head :: rest.take (size head)) :: chunks size (rest.drop (size head))
termination_by list => list.length
decreasing_by
  simp only [List.length_drop, List.length_cons]
  omega

@[simp] theorem chunks_nil : chunks size [] = [] := by
  rw [chunks]

theorem chunks_cons (head : α) (rest : List α) :
    chunks size (head :: rest) =
      (head :: rest.take (size head)) :: chunks size (rest.drop (size head)) := by
  rw [chunks]

/-- Chunks that are as long as their heads ask for, up to the last one, which may be shorter. -/
inductive Cut (size : α → Nat) : List (List α) → Prop
  | nil : Cut size []
  | last {head : α} {tail : List α} (short : tail.length ≤ size head) : Cut size [head :: tail]
  | cons {head : α} {tail : List α} {parts : List (List α)} (whole : tail.length = size head)
      (rest : Cut size parts) : Cut size ((head :: tail) :: parts)

/-- Nothing is lost, and nothing is taken twice. -/
@[simp] theorem flatten_chunks (list : List α) : (chunks size list).flatten = list := by
  -- The induction takes off whole chunks, as the definition does.
  induction list using chunks.induct size with
  | case1 => simp
  | case2 head rest ih =>
    rw [chunks_cons, List.flatten_cons, ih, List.cons_append, List.take_append_drop]

theorem cut_chunks (list : List α) : Cut size (chunks size list) := by
  induction list using chunks.induct size with
  | case1 =>
    rw [chunks_nil]
    exact .nil
  | case2 head rest ih =>
    rw [chunks_cons]
    by_cases enough : size head ≤ rest.length
    · exact .cons (List.length_take_of_le enough) ih
    · -- A chunk that gets too little has used up the list.
      rw [List.drop_eq_nil_of_le (by omega), chunks_nil]
      exact .last (List.length_take_le _ _)

/-- There is only one way to cut a list. -/
theorem chunks_flatten {parts : List (List α)} (cut : Cut size parts) :
    chunks size parts.flatten = parts := by
  -- A whole chunk is taken off as it stands, and a short one has nothing behind it.
  induction cut with
  | nil => simp
  | last short =>
    rw [List.flatten_cons, List.flatten_nil, List.append_nil, chunks_cons,
      List.take_of_length_le short, List.drop_eq_nil_of_le short, chunks_nil]
  | @cons head tail parts whole rest ih =>
    rw [List.flatten_cons, List.cons_append, chunks_cons, ← whole, List.take_left, List.drop_left,
      ih]

/-- Every chunk but the last one has as many elements behind its head as that asks for. -/
theorem Cut.whole_of_mem_dropLast {parts : List (List α)} (cut : Cut size parts) :
    ∀ part ∈ parts.dropLast, ∃ head tail, part = head :: tail ∧ tail.length = size head := by
  induction cut with
  | nil => simp
  | last short => simp
  | @cons head tail parts whole rest ih =>
    intro part member
    -- Only a chunk that another one follows is asked about.
    cases parts with
    | nil => simp at member
    | cons next later =>
      rw [List.dropLast_cons_cons, List.mem_cons] at member
      rcases member with rfl | member
      · exact ⟨head, tail, rfl, whole⟩
      · exact ih part member

end Collections
