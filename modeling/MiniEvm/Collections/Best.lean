import Mathlib.Data.List.Basic
import Mathlib.Order.Lattice

/-! The best of some candidates, the first one found among equals. -/

namespace Collections

variable {α : Type} (rank : α → Nat)

/-- Holds on to the best candidate so far unless a better one is found. -/
def keepBest (best found : Option α) : Option α :=
  match found with
  | none => best
  | some candidate =>
    match best with
    | none => some candidate
    | some held => if rank held < rank candidate then some candidate else best

variable {rank}

/-- A candidate is at most as good as what is held after it was looked at. -/
theorem keepBest_of_candidate (best : Option α) (candidate : α) :
    ∃ held, keepBest rank best (some candidate) = some held ∧ rank candidate ≤ rank held := by
  cases best with
  | none => exact ⟨candidate, rfl, Nat.le_refl _⟩
  | some held =>
    by_cases better : rank held < rank candidate
    · exact ⟨candidate, by simp [keepBest, better], Nat.le_refl _⟩
    · exact ⟨held, by simp [keepBest, better], Nat.le_of_not_lt better⟩

/-- What is held only gets better. -/
theorem keepBest_of_held (held : α) (found : Option α) :
    ∃ kept, keepBest rank (some held) found = some kept ∧ rank held ≤ rank kept := by
  cases found with
  | none => exact ⟨held, rfl, Nat.le_refl _⟩
  | some candidate =>
    by_cases better : rank held < rank candidate
    · exact ⟨candidate, by simp [keepBest, better], Nat.le_of_lt better⟩
    · exact ⟨held, by simp [keepBest, better], Nat.le_refl _⟩

/-- What is held comes from the two options. -/
theorem keepBest_mem {best found : Option α} {kept : α} (held : keepBest rank best found = some kept) :
    best = some kept ∨ found = some kept := by
  cases found with
  | none => exact .inl held
  | some candidate =>
    cases best with
    | none => exact .inr held
    | some other =>
      simp only [keepBest] at held
      split at held
      · exact .inr held
      · exact .inl held

/-- Holding on through a list never ends with something worse. -/
theorem foldl_keepBest_of_held (candidates : List (Option α)) (held : α) :
    ∃ kept, candidates.foldl (keepBest rank) (some held) = some kept ∧ rank held ≤ rank kept := by
  induction candidates generalizing held with
  | nil => exact ⟨held, rfl, Nat.le_refl _⟩
  | cons found rest ih =>
    -- The next candidate is looked at, and the rest goes on from what is held then.
    obtain ⟨middle, first, le⟩ := keepBest_of_held held found
    obtain ⟨kept, later, le'⟩ := ih middle
    refine ⟨kept, ?_, Nat.le_trans le le'⟩
    rw [List.foldl_cons, first, later]

/-- The best of a list is at least as good as each of its candidates. -/
theorem foldl_keepBest_of_mem {candidates : List (Option α)} {candidate : α}
    (member : some candidate ∈ candidates) (best : Option α) :
    ∃ kept, candidates.foldl (keepBest rank) best = some kept ∧ rank candidate ≤ rank kept := by
  induction candidates generalizing best with
  | nil => cases member
  | cons found rest ih =>
    rw [List.foldl_cons]
    rcases List.mem_cons.mp member with rfl | later
    · -- From its own turn on, something at least as good is held.
      obtain ⟨held, first, le⟩ := keepBest_of_candidate best candidate
      obtain ⟨kept, rest, le'⟩ := foldl_keepBest_of_held rest held
      exact ⟨kept, by rw [first, rest], Nat.le_trans le le'⟩
    · exact ih later _

/-- The best of a list is one of its candidates. -/
theorem mem_of_foldl_keepBest {candidates : List (Option α)} {kept : α} {best : Option α}
    (held : candidates.foldl (keepBest rank) best = some kept) :
    best = some kept ∨ some kept ∈ candidates := by
  induction candidates generalizing best with
  | nil => exact .inl held
  | cons found rest ih =>
    rw [List.foldl_cons] at held
    -- What the rest started from was held before, or is the first of the list.
    rcases ih held with first | later
    · rcases keepBest_mem first with before | here
      · exact .inl before
      · exact .inr (here ▸ List.mem_cons_self)
    · exact .inr (List.mem_cons_of_mem _ later)

/-- Among candidates of different ranks the best one is the same in every order. -/
theorem foldl_keepBest_perm {candidates candidates' : List (Option α)}
    (same : candidates.Perm candidates')
    (distinct : ∀ first second, some first ∈ candidates → some second ∈ candidates →
      rank first = rank second → first = second) :
    candidates.foldl (keepBest rank) none = candidates'.foldl (keepBest rank) none := by
  have held : ∀ {candidates : List (Option α)} {kept : α},
      candidates.foldl (keepBest rank) none = some kept → some kept ∈ candidates :=
    fun kept => (mem_of_foldl_keepBest kept).resolve_left nofun
  cases best : candidates.foldl (keepBest rank) none with
  | none =>
    cases best' : candidates'.foldl (keepBest rank) none with
    | none => rfl
    | some kept =>
      -- There would be a candidate in the other order too.
      obtain ⟨other, found, _⟩ := @foldl_keepBest_of_mem _ rank _ _
        (same.mem_iff.mpr (held best')) none
      rw [best] at found
      cases found
  | some kept =>
    have member := held best
    obtain ⟨other, found, le⟩ := @foldl_keepBest_of_mem _ rank _ _
      (same.mem_iff.mp member) none
    have member' := same.mem_iff.mpr (held found)
    obtain ⟨again, found', le'⟩ := @foldl_keepBest_of_mem _ rank _ _ member' none
    obtain rfl := Option.some.inj (best.symm.trans found')
    rw [found, distinct kept other member member' (Nat.le_antisymm le le')]

section Scanning

variable {α β : Type} [LinearOrder β] {worth : α → Option β} {scanned : List α} {next winner : α}
  {best : β}

/-- The first candidate in a list that nothing in it is worth more than. -/
def FirstMaximum (worth : α → Option β) (scanned : List α) (winner : α) (best : β) : Prop :=
  ∃ before after, scanned = before ++ winner :: after ∧ worth winner = some best ∧
    (∀ other ∈ before, ∀ value, worth other = some value → value < best) ∧
    ∀ other ∈ after, ∀ value, worth other = some value → value ≤ best

/-- What a scan from the front holds: the first maximum, or what it started with. -/
def Scanned (worth : α → Option β) (start : α × β) (scanned : List α) (held : α × β) : Prop :=
  FirstMaximum worth scanned held.1 held.2 ∨ (∀ other ∈ scanned, worth other = none) ∧ held = start

theorem FirstMaximum.le (holds : FirstMaximum worth scanned winner best) {other : α}
    (member : other ∈ scanned) {value : β} (worthy : worth other = some value) : value ≤ best := by
  obtain ⟨before, after, rfl, same, earlier, later⟩ := holds
  rcases List.mem_append.mp member with first | second
  · exact le_of_lt (earlier other first value worthy)
  · rcases List.mem_cons.mp second with rfl | second
    · exact le_of_eq (Option.some.inj (worthy.symm.trans same))
    · exact later other second value worthy

variable {start held : α × β}

/-- The scan passes over what is worth no more than what is held. -/
theorem Scanned.pass (holds : Scanned worth start scanned held)
    (no_more : ∀ value, worth next = some value → value ≤ held.2)
    (above : ∀ value, worth next = some value → start.2 < value) :
    Scanned worth start (scanned ++ [next]) held := by
  rcases holds with ⟨before, after, rfl, same, earlier, later⟩ | ⟨none_of, rfl⟩
  · refine .inl ⟨before, after ++ [next], by simp, same, earlier, ?_⟩
    intro other member value worthy
    rcases List.mem_append.mp member with inside | last
    · exact later other inside value worthy
    · exact no_more value (List.mem_singleton.mp last ▸ worthy)
  · refine .inr ⟨?_, rfl⟩
    intro other member
    rcases List.mem_append.mp member with inside | last
    · exact none_of other inside
    · -- Whatever is worth anything is worth more than the scan started with.
      rw [List.mem_singleton.mp last]
      cases worthy : worth next with
      | none => rfl
      | some value =>
        exact absurd (lt_of_lt_of_le (above value worthy) (no_more value worthy)) (lt_irrefl _)

/-- And it takes what is worth more. -/
theorem Scanned.take (holds : Scanned worth start scanned held) {value : β}
    (worthy : worth next = some value) (more : held.2 < value) :
    Scanned worth start (scanned ++ [next]) (next, value) := by
  refine .inl ⟨scanned, [], rfl, worthy, ?_, by simp⟩
  intro other member less worth_less
  rcases holds with maximum | ⟨none_of, _⟩
  · exact lt_of_le_of_lt (maximum.le member worth_less) more
  · rw [none_of other member] at worth_less
    cases worth_less

end Scanning

end Collections
