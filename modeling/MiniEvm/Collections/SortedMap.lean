import Mathlib.Data.List.Nodup
import Mathlib.Data.List.Perm.Basic
import Mathlib.Order.Lattice

/-! Maps kept in the order of their keys. -/

namespace Collections

/-- A map whose entries are listed with strictly increasing keys. -/
structure SortedMap (κ ν : Type) [LinearOrder κ] where
  entries : List (κ × ν)
  sorted : entries.Pairwise fun first second => first.1 < second.1

namespace SortedMap

variable {κ ν : Type} [LinearOrder κ]

/-- Puts an entry in its place, or in the place of the one with the same key. -/
def insertEntry (key : κ) (value : ν) : List (κ × ν) → List (κ × ν)
  | [] => [(key, value)]
  | entry :: rest =>
    if key < entry.1 then (key, value) :: entry :: rest
    else if entry.1 < key then entry :: insertEntry key value rest
    else (key, value) :: rest

/-- Every entry of the result is the new one or an old one. -/
theorem mem_insertEntry {key : κ} {value : ν} {entries : List (κ × ν)} {entry : κ × ν}
    (member : entry ∈ insertEntry key value entries) : entry = (key, value) ∨ entry ∈ entries := by
  induction entries with
  | nil => exact .inl (List.mem_singleton.mp member)
  | cons first rest ih =>
    simp only [insertEntry] at member
    split at member
    · exact List.mem_cons.mp member
    · split at member
      · -- The new entry belongs further down.
        rcases List.mem_cons.mp member with rfl | later
        · exact .inr List.mem_cons_self
        · exact (ih later).imp_right (List.mem_cons_of_mem _)
      · exact (List.mem_cons.mp member).imp_right (List.mem_cons_of_mem _)

/-- Inserting keeps the keys increasing. -/
theorem sorted_insertEntry (key : κ) (value : ν) {entries : List (κ × ν)}
    (sorted : entries.Pairwise fun first second => first.1 < second.1) :
    (insertEntry key value entries).Pairwise fun first second => first.1 < second.1 := by
  induction entries with
  | nil => exact List.pairwise_singleton _ _
  | cons first rest ih =>
    obtain ⟨below, tail⟩ := List.pairwise_cons.mp sorted
    simp only [insertEntry]
    split
    · rename_i before
      refine List.pairwise_cons.mpr ⟨?_, sorted⟩
      intro entry member
      rcases List.mem_cons.mp member with rfl | later
      · exact before
      · exact lt_trans before (below entry later)
    · split
      · rename_i after
        refine List.pairwise_cons.mpr ⟨?_, ih tail⟩
        intro entry member
        rcases mem_insertEntry member with rfl | later
        · exact after
        · exact below entry later
      · -- The key is already there, and its entry is replaced.
        rename_i notBefore notAfter
        have same : key = first.1 := le_antisymm (not_lt.mp notAfter) (not_lt.mp notBefore)
        refine List.pairwise_cons.mpr ⟨?_, tail⟩
        intro entry later
        rw [same]
        exact below entry later

def empty : SortedMap κ ν := ⟨[], List.Pairwise.nil⟩

def insert (map : SortedMap κ ν) (key : κ) (value : ν) : SortedMap κ ν :=
  ⟨insertEntry key value map.entries, sorted_insertEntry key value map.sorted⟩

/-- The entry with the smallest key. -/
def first (map : SortedMap κ ν) : Option (κ × ν) := map.entries.head?

def lookup (map : SortedMap κ ν) (key : κ) : Option ν :=
  (map.entries.find? fun entry => entry.1 = key).map Prod.snd

def contains (map : SortedMap κ ν) (key : κ) : Bool := map.entries.any fun entry => entry.1 = key

def remove (map : SortedMap κ ν) (key : κ) : SortedMap κ ν :=
  ⟨map.entries.filter fun entry => entry.1 ≠ key, map.sorted.filter _⟩

def values (map : SortedMap κ ν) : List ν := map.entries.map Prod.snd

section Laws

variable {map : SortedMap κ ν} {key : κ} {value : ν}

/-- Keys are listed once. -/
theorem nodup_keys (map : SortedMap κ ν) : (map.entries.map Prod.fst).Nodup :=
  List.pairwise_map.mpr (map.sorted.imp fun below => ne_of_lt below)

/-- A key leads to the value it is listed with. -/
theorem lookup_eq_some_iff : map.lookup key = some value ↔ (key, value) ∈ map.entries := by
  unfold lookup
  constructor
  · intro found
    obtain ⟨entry, located, rfl⟩ := Option.map_eq_some_iff.mp found
    obtain rfl : entry.1 = key := by simpa using List.find?_some located
    exact List.mem_of_find?_eq_some located
  · intro member
    -- Some entry has this key, and there is no second one.
    cases located : map.entries.find? (fun entry => entry.1 = key) with
    | none => simpa using List.find?_eq_none.mp located _ member
    | some entry =>
      have named : entry.1 = key := by simpa using List.find?_some located
      have here := List.mem_of_find?_eq_some located
      have same := List.inj_on_of_nodup_map map.nodup_keys here member named
      rw [same]
      rfl

/-- The first entry has the smallest key. -/
theorem first_le {entry other : κ × ν} (smallest : map.first = some entry)
    (member : other ∈ map.entries) : entry.1 ≤ other.1 := by
  have sorted := map.sorted
  unfold first at smallest
  cases listed : map.entries with
  | nil =>
    rw [listed] at member
    cases member
  | cons front rest =>
    rw [listed] at smallest member sorted
    obtain rfl := Option.some.inj smallest
    rcases List.mem_cons.mp member with rfl | later
    · exact le_refl _
    · exact le_of_lt ((List.pairwise_cons.mp sorted).1 other later)

theorem first_mem {entry : κ × ν} (smallest : map.first = some entry) : entry ∈ map.entries :=
  List.mem_of_head? smallest

theorem mem_remove {entry : κ × ν} :
    entry ∈ (map.remove key).entries ↔ entry ∈ map.entries ∧ entry.1 ≠ key := by
  simp [remove]

/-- Removing a listed key takes out its entry and no other. -/
theorem perm_remove (member : (key, value) ∈ map.entries) :
    map.entries.Perm ((key, value) :: (map.remove key).entries) := by
  have nodup := map.nodup_keys
  simp only [remove]
  generalize map.entries = entries at member nodup
  induction entries with
  | nil => cases member
  | cons front rest ih =>
    obtain ⟨fresh, nodup⟩ := List.nodup_cons.mp nodup
    rcases List.mem_cons.mp member with rfl | later
    · -- No later entry has the key, so the filter keeps them all.
      have kept : rest.filter (fun entry => entry.1 ≠ key) = rest := by
        refine List.filter_eq_self.mpr fun entry listed => ?_
        refine decide_eq_true fun same => fresh ?_
        exact List.mem_map.mpr ⟨entry, listed, same⟩
      rw [List.filter_cons_of_neg (by simp), kept]
    · have other : front.1 ≠ key := by
        rintro rfl
        exact fresh (List.mem_map.mpr ⟨_, later, rfl⟩)
      simp only [List.filter_cons, decide_eq_true other, if_true]
      exact ((ih later nodup).cons front).trans (List.Perm.swap _ _ _)

/-- Inserting under a new key adds one entry and keeps all others. -/
theorem perm_insertEntry {entries : List (κ × ν)} (fresh : ∀ entry ∈ entries, entry.1 ≠ key) :
    (insertEntry key value entries).Perm ((key, value) :: entries) := by
  induction entries with
  | nil => exact List.Perm.refl _
  | cons first rest ih =>
    simp only [insertEntry]
    split
    · exact List.Perm.refl _
    · rename_i notBefore
      -- The key is not that of the entry here, so it comes after it.
      have after : first.1 < key :=
        lt_of_le_of_ne (not_lt.mp notBefore) (fresh first List.mem_cons_self)
      rw [if_pos after]
      have later := ih fun entry member => fresh entry (List.mem_cons_of_mem _ member)
      exact (later.cons first).trans (List.Perm.swap _ _ _)

theorem perm_insert (fresh : map.contains key = false) :
    (map.insert key value).entries.Perm ((key, value) :: map.entries) := by
  refine perm_insertEntry fun entry member same => ?_
  have found : map.contains key = true :=
    List.any_eq_true.mpr ⟨entry, member, decide_eq_true same⟩
  rw [fresh] at found
  cases found

theorem mem_insert {entry : κ × ν} (member : entry ∈ (map.insert key value).entries) :
    entry = (key, value) ∨ entry ∈ map.entries := mem_insertEntry member

end Laws

end SortedMap

end Collections
