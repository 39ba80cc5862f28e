import Mathlib.Algebra.Order.Ring.Nat
import Mathlib.Data.List.Basic

/-! A channel that keeps the last messages for every receiver, however slow. -/

namespace Broadcast

variable {α : Type}

/-- What a receiver is handed. -/
inductive Received (α : Type) where
  | value (message : α)
  -- So many messages are gone, and the oldest one that is left comes next.
  | lagged (skipped : Nat)

/-- The next thing for a receiver at some position, and the position after it; nothing if it
waits. -/
def recv (capacity : Nat) (sent : List α) (next : Nat) : Option (Received α × Nat) :=
  match sent[next]? with
  | none => none
  | some message =>
    if next + capacity < sent.length then
      some (.lagged (sent.length - capacity - next), sent.length - capacity)
    else some (.value message, next + 1)

/-- The messages among what was handed out. -/
def Received.message : Received α → Option α
  | value message => some message
  | lagged _ => none

def Received.skips : Received α → Nat
  | value _ => 0
  | lagged skipped => skipped

/-- How many messages a receiver has missed. -/
def missed (heard : List (Received α)) : Nat := (heard.map Received.skips).sum

/-- A receiver that joined at some position, with all it has been handed since. -/
structure Reading (start : Nat) (sent : List α) (next : Nat) (heard : List (Received α)) :
    Prop where
  within : next ≤ sent.length
  position : start + (heard.filterMap Received.message).length + missed heard = next
  sublist : (heard.filterMap Received.message).Sublist ((sent.take next).drop start)

section Laws

variable {start next next' capacity : Nat} {sent : List α} {heard : List (Received α)}
  {received : Received α}

/-- A message that the channel still keeps is handed out. -/
theorem recv_eq_value {message : α} (found : sent[next]? = some message)
    (kept : sent.length ≤ next + capacity) :
    recv capacity sent next = some (.value message, next + 1) := by
  rw [recv, found]
  exact if_neg (Nat.not_lt.mpr kept)

/-- Whoever joins has heard nothing, and misses nothing of what comes. -/
theorem Reading.join (sent : List α) : Reading sent.length sent sent.length [] where
  within := Nat.le_refl _
  position := rfl
  sublist := List.nil_sublist _

/-- What is sent changes nothing for a receiver until it asks. -/
theorem Reading.send (reading : Reading start sent next heard) (more : List α) :
    Reading start (sent ++ more) next heard where
  within := by
    have within := reading.within
    rw [List.length_append]
    omega
  position := reading.position
  sublist := by
    rw [List.take_append_of_le_length reading.within]
    exact reading.sublist

/-- A position that is moved on leaves behind a longer part of what was sent. -/
theorem drop_take_sublist (sent : List α) (start : Nat) (le : next ≤ next') :
    ((sent.take next).drop start).Sublist ((sent.take next').drop start) :=
  (List.take_sublist_take_left le).drop start

/-- What a receiver is handed comes right after what it has had, or after a gap that it is
told of. -/
theorem Reading.recv (reading : Reading start sent next heard)
    (handed : Broadcast.recv capacity sent next = some (received, next')) :
    Reading start sent next' (heard ++ [received]) := by
  unfold Broadcast.recv at handed
  split at handed
  · cases handed
  · rename_i message found
    obtain ⟨within, here⟩ := List.getElem?_eq_some_iff.mp found
    have position := reading.position
    split at handed
    · cases handed
      refine ⟨Nat.sub_le _ _, ?_, ?_⟩
      · simp only [missed, List.filterMap_append, List.map_append, List.sum_append,
          List.filterMap_cons, Received.message, List.filterMap_nil, List.append_nil,
          List.map_cons, List.map_nil, Received.skips, List.sum_cons, List.sum_nil] at position ⊢
        omega
      · simp only [List.filterMap_append, List.filterMap_cons, Received.message,
          List.filterMap_nil, List.append_nil]
        exact reading.sublist.trans (drop_take_sublist sent start (by omega))
    · cases handed
      refine ⟨within, ?_, ?_⟩
      · simp only [missed, List.filterMap_append, List.map_append, List.sum_append,
          List.filterMap_cons, Received.message, List.filterMap_nil, List.length_append,
          List.length_singleton, List.map_cons, List.map_nil, Received.skips, List.sum_cons,
          List.sum_nil] at position ⊢
        omega
      · -- The message stands right behind all that came before.
        have longer : (sent.take (next + 1)).drop start = (sent.take next).drop start ++ [message] := by
          rw [List.take_add_one, found, Option.toList_some, List.drop_append_of_le_length]
          rw [List.length_take]
          omega
        rw [longer]
        simp only [List.filterMap_append, List.filterMap_cons, Received.message,
          List.filterMap_nil]
        exact reading.sublist.append (List.Sublist.refl _)

/-- A receiver that has missed nothing has had everything since it joined, once and in order. -/
theorem Reading.complete (reading : Reading start sent next heard) (gapless : missed heard = 0) :
    heard.filterMap Received.message = (sent.take next).drop start := by
  have position := reading.position
  have within := reading.within
  refine reading.sublist.eq_of_length ?_
  rw [List.length_drop, List.length_take]
  omega

end Laws

end Broadcast
