import Mathlib.Data.List.Basic

/-! Endless tapes of cells, what can be done to them, and the finite lists that show them. -/

namespace Collections

variable {α : Type}

/-- An endless tape of cells, and how far it has been touched. -/
structure Tape (α : Type) where
  cells : Nat → α
  stop : Nat

/-- What can be done to a tape. -/
inductive Access (α : Type) where
  -- Only how far the tape has been touched is looked at.
  | measure
  | load (start size : Nat)
  | store (start : Nat) (values : List α)
  -- All cells of the source are read before any cell is replaced.
  | move (dest source size : Nat)

/-- The ranges that are touched, each with its start and its size. -/
def Access.ranges : Access α → List (Nat × Nat)
  | measure => []
  | load start size => [(start, size)]
  | store start values => [(start, values.length)]
  | move dest source size => [(dest, size), (source, size)]

namespace Tape

/-- A tape that nobody has touched. -/
def blank (fill : α) : Tape α := ⟨fun _ => fill, 0⟩

/-- The cells of a range, in order. -/
def window (tape : Tape α) (start size : Nat) : List α :=
  (List.range size).map fun i => tape.cells (start + i)

/-- The tape, touched up to the end of every range. -/
def touch (tape : Tape α) (ranges : List (Nat × Nat)) : Tape α :=
  { tape with stop := ranges.foldl (fun stop range => max stop (range.1 + range.2)) tape.stop }

/-- The tape with the cells of one range replaced, and no others. -/
def write (tape : Tape α) (start : Nat) (values : List α) : Tape α :=
  { tape with cells := fun i =>
      if i < start then tape.cells i else (values[i - start]?).getD (tape.cells i) }

/-- The tape after an access. -/
def perform (tape : Tape α) (access : Access α) : Tape α :=
  match access with
  | .measure => tape
  | .load _ _ => tape.touch access.ranges
  | .store start values => (tape.touch access.ranges).write start values
  | .move dest source size => (tape.touch access.ranges).write dest (tape.window source size)

@[simp] theorem length_window (tape : Tape α) (start size : Nat) :
    (tape.window start size).length = size := by
  simp [window]

/-- A longer run of values hides a shorter one that was written to the same place before. -/
theorem write_write (tape : Tape α) (start : Nat) {short long : List α}
    (le : short.length ≤ long.length) :
    (tape.write start short).write start long = tape.write start long := by
  unfold write
  congr 1
  funext i
  by_cases before : i < start
  · simp only [if_pos before]
  · simp only [if_neg before]
    -- Either the longer run has a value here, or neither has.
    by_cases inside : i - start < long.length
    · simp [List.getElem?_eq_getElem inside]
    · rw [List.getElem?_eq_none (Nat.le_of_not_lt inside), Option.getD_none, Option.getD_none,
        List.getElem?_eq_none (by omega), Option.getD_none]

end Tape

/-- A list shows a tape: they agree inside the list, and behind it the tape is blank. -/
def Shows (fill : α) (list : List α) (tape : Tape α) : Prop :=
  ∀ i, (list[i]?).getD fill = tape.cells i

namespace Shows

variable {fill : α} {list : List α} {tape : Tape α}

theorem blank (fill : α) : Shows fill [] (.blank fill) := fun _ => rfl

/-- How far a tape has been touched cannot be seen in its cells. -/
theorem touch (shows_ : Shows fill list tape) (ranges : List (Nat × Nat)) :
    Shows fill list (tape.touch ranges) := shows_

/-- Blank cells may be added at the end. -/
theorem grow (shows_ : Shows fill list tape) (more : Nat) :
    Shows fill (list ++ List.replicate more fill) tape := by
  intro i
  rw [← shows_ i]
  by_cases inside : i < list.length
  · rw [List.getElem?_append_left inside]
  · rw [List.getElem?_append_right (Nat.le_of_not_lt inside),
      List.getElem?_eq_none (Nat.le_of_not_lt inside), Option.getD_none, List.getElem?_replicate]
    -- Behind the list everything reads as blank, added or not.
    split <;> rfl

/-- Replacing a run inside the list writes it to the tape. -/
theorem write (shows_ : Shows fill list tape) {start : Nat} {values : List α}
    (inside : start + values.length ≤ list.length) :
    Shows fill (list.take start ++ values ++ list.drop (start + values.length))
      (tape.write start values) := by
  intro i
  have front : (list.take start).length = start := by
    rw [List.length_take]
    omega
  simp only [Tape.write]
  rw [← shows_ i, List.append_assoc]
  by_cases before : i < start
  · rw [if_pos before, List.getElem?_append_left (by omega), List.getElem?_take_of_lt before]
  · rw [if_neg before, List.getElem?_append_right (by omega), front]
    by_cases middle : i - start < values.length
    · simp [List.getElem?_append_left middle, List.getElem?_eq_getElem middle]
    · rw [List.getElem?_append_right (Nat.le_of_not_lt middle), List.getElem?_drop,
        List.getElem?_eq_none (Nat.le_of_not_lt middle), Option.getD_none]
      -- Behind the run the positions count on as before.
      congr 2
      omega

/-- A run inside the list is a window of the tape. -/
theorem window (shows_ : Shows fill list tape) {start size : Nat}
    (inside : start + size ≤ list.length) :
    (list.take (start + size)).drop start = tape.window start size := by
  apply List.ext_getElem
  · simp only [List.length_drop, List.length_take, Tape.length_window]
    omega
  · intro i below _
    simp only [List.length_drop, List.length_take] at below
    have here : start + i < list.length := by omega
    have cell := shows_ (start + i)
    rw [List.getElem?_eq_getElem here, Option.getD_some] at cell
    simp [Tape.window, cell]

end Shows

end Collections
