import MiniEvm.Frames.Machine

/-! A search for any match among jobs that run in parallel. -/

namespace Frames

variable {α β ε : Type}

/-- The result of a computation that finished. -/
def Outcome.result? : Outcome ε α → Option α
  | value result => some result
  | _ => none

/--
What the search may come to, whatever order the jobs are examined in.

Once a job matches, the others may be left out, so any match may be the one that is found; a job that
aborts takes the search with it, if it is examined at all.
-/
inductive FindsAny (examine : α → Outcome ε (Option β)) (jobs : List α) :
    Outcome ε (Option β) → Prop
  | found {job : α} {result : β} (member : job ∈ jobs)
    (matched : examine job = .value (some result)) : FindsAny examine jobs (.value (some result))
  | nothing (all : ∀ job ∈ jobs, examine job = .value none) : FindsAny examine jobs (.value none)
  | aborted {job : α} {cause : ε} (member : job ∈ jobs) (abort : examine job = .fault cause) :
    FindsAny examine jobs (.fault cause)
  | unfinished {job : α} (member : job ∈ jobs) (endless : examine job = .outOfFuel) :
    FindsAny examine jobs .outOfFuel

/-- No job matches, or one does and all others come to nothing. -/
def SoleMatch (examine : α → Outcome ε (Option β)) (jobs : List α) : Prop :=
  (∀ job ∈ jobs, ∀ result, examine job ≠ .value (some result)) ∨
    ∃ job ∈ jobs, (∃ result, examine job = .value (some result)) ∧
      ∀ other ∈ jobs, other ≠ job → examine other = .value none

variable {examine : α → Outcome ε (Option β)} {jobs : List α}

/-- Among jobs of which none matches, nothing is found. -/
theorem FindsAny.result?_of_no_match
    (none_of : ∀ job ∈ jobs, ∀ result, examine job ≠ .value (some result))
    {outcome : Outcome ε (Option β)} (finds : FindsAny examine jobs outcome) :
    outcome = .value none ∧ (∀ job ∈ jobs, examine job = .value none) ∨
      outcome.result? = none ∧ ∃ job ∈ jobs, examine job ≠ .value none := by
  cases finds with
  | found member matched => exact absurd matched (none_of _ member _)
  | nothing all => exact .inl ⟨rfl, all⟩
  | aborted member abort => exact .inr ⟨rfl, _, member, by simp [abort]⟩
  | unfinished member endless => exact .inr ⟨rfl, _, member, by simp [endless]⟩

/-- A sole match is found. -/
theorem FindsAny.eq_of_sole {job : α} {result : β} (member : job ∈ jobs)
    (matched : examine job = .value (some result))
    (others : ∀ other ∈ jobs, other ≠ job → examine other = .value none)
    {outcome : Outcome ε (Option β)} (finds : FindsAny examine jobs outcome) :
    outcome = .value (some result) := by
  -- Whatever another job comes to is not what the search came to.
  have only : ∀ other ∈ jobs, examine other ≠ .value none → other = job :=
    fun other inside differs => by_contra fun apart => differs (others other inside apart)
  cases finds with
  | found inside found =>
    rw [only _ inside (by simp [found]), matched] at found
    exact found.symm
  | nothing all =>
    rw [all job member] at matched
    cases matched
  | aborted inside abort =>
    rw [only _ inside (by simp [abort]), matched] at abort
    cases abort
  | unfinished inside endless =>
    rw [only _ inside (by simp [endless]), matched] at endless
    cases endless

/--
All orders come to the same exactly if there is at most one match, and nothing beside it goes wrong.

Results name the jobs they are from.
-/
theorem findsAny_agree_iff
    (named : ∀ {job other result}, examine job = .value (some result) →
      examine other = .value (some result) → job = other) :
    (∀ left right, FindsAny examine jobs left → FindsAny examine jobs right →
      left.result? = right.result?) ↔ SoleMatch examine jobs := by
  constructor
  · intro agree
    by_cases some_match : ∃ job ∈ jobs, ∃ result, examine job = .value (some result)
    · obtain ⟨job, member, result, matched⟩ := some_match
      refine .inr ⟨job, member, ⟨result, matched⟩, fun other inside apart => ?_⟩
      -- Any other way for a job to end is one for the search to end.
      cases ended : examine other with
      | outOfFuel => exact nomatch agree _ _ (.found member matched) (.unfinished inside ended)
      | fault cause => exact nomatch agree _ _ (.found member matched) (.aborted inside ended)
      | value answer =>
        cases answer with
        | none => rfl
        | some found =>
          have same := agree _ _ (.found member matched) (.found inside ended)
          simp only [Outcome.result?, Option.some.injEq] at same
          exact absurd (named ended (same ▸ matched)) apart
    · exact .inl fun job member result matched => some_match ⟨job, member, result, matched⟩
  · rintro (none_of | ⟨job, member, ⟨result, matched⟩, others⟩) left right first second
    · rcases FindsAny.result?_of_no_match none_of first with ⟨rfl, clean⟩ | ⟨one, job, inside, bad⟩ <;>
        rcases FindsAny.result?_of_no_match none_of second with ⟨rfl, clean'⟩ | ⟨two, other, inside', bad'⟩
      · rfl
      · exact absurd (clean other inside') bad'
      · exact absurd (clean' job inside) bad
      · rw [one, two]
    · rw [first.eq_of_sole member matched others, second.eq_of_sole member matched others]

end Frames
