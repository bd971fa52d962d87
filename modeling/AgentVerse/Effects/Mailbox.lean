import Mathlib.Data.List.Basic

/-!
# Bounded channels

A mailbox holds at most `n` items, and its senders wait in line while it is full. A sender that waits may leave. What
comes out, with what is in the mailbox and in the line, is what went in, in the same order, less the items of those who
left (`Mailbox.inbox_send`, `Mailbox.inbox_recv`, `Mailbox.inbox_leave`).
-/

namespace Effects

structure Mailbox (α : Type) (n : Nat) where
  queue : List α
  waiting : List α
  bounded : queue.length ≤ n
  full : waiting ≠ [] → queue.length = n

namespace Mailbox

variable {α : Type} {n : Nat} (m : Mailbox α n)

def empty : Mailbox α n := ⟨[], [], Nat.zero_le n, fun h => absurd rfl h⟩

/-- What is in the mailbox and in the line. -/
def inbox : List α := m.queue ++ m.waiting

/-- Nobody waits, and there is room. -/
def Open : Prop := m.queue.length < n

instance : Decidable m.Open := inferInstanceAs (Decidable (_ < _))

/-- An item is put in if there is room, else its sender waits. -/
def send (a : α) : Mailbox α n :=
  if h : m.Open then
    ⟨m.queue ++ [a], m.waiting, by rw [List.length_append]; exact h,
      fun hw => absurd (m.full hw) (Nat.ne_of_lt h)⟩
  else ⟨m.queue, m.waiting ++ [a], m.bounded, fun _ => Nat.le_antisymm m.bounded (Nat.not_lt.mp h)⟩

/-- The first item, and the mailbox without it. Who waits longest gets the room. -/
def recv : Option (α × Mailbox α n) :=
  match hq : m.queue, hw : m.waiting with
  | [], _ => none
  | a :: queue, [] => some (a, ⟨queue, [], by
      have := m.bounded
      rw [hq, List.length_cons] at this
      omega, fun h => absurd rfl h⟩)
  | a :: queue, b :: waiting => some (a, ⟨queue ++ [b], waiting, by
      have := m.bounded
      rw [hq, List.length_cons] at this
      rwa [List.length_append], fun _ => by
      have := m.full (by simp [hw])
      rw [hq, List.length_cons] at this
      rwa [List.length_append]⟩)

/-- The sender at a place in the line leaves. -/
def leave (k : Nat) : Mailbox α n :=
  ⟨m.queue, m.waiting.eraseIdx k, m.bounded, fun h => m.full fun hw => h (by rw [hw, List.eraseIdx_nil])⟩

variable {m} {a : α} {m' : Mailbox α n}

@[simp] theorem inbox_empty : (empty : Mailbox α n).inbox = [] := rfl

theorem inbox_send (m : Mailbox α n) (a : α) : (m.send a).inbox = m.inbox ++ [a] := by
  unfold send inbox
  split
  · rename_i h
    have hnone : m.waiting = [] := by
      by_contra hw
      exact absurd (m.full hw) (Nat.ne_of_lt h)
    simp [hnone]
  · simp

/-- What comes out was first. -/
theorem inbox_recv (h : m.recv = some (a, m')) : m.inbox = a :: m'.inbox := by
  unfold recv at h
  unfold inbox
  split at h
  · cases h
  · rename_i hq hw
    cases h
    simp [hq, hw]
  · rename_i hq hw
    cases h
    simp [hq, hw]

theorem recv_isSome : m.recv.isSome = true ↔ m.queue ≠ [] := by
  unfold recv
  split
  · rename_i hq
    simp [hq]
  · rename_i hq _
    simp [hq]
  · rename_i hq _
    simp [hq]

/-- There is something to take whenever anybody waits. -/
theorem recv_of_inbox (hn : 0 < n) (h : m.inbox ≠ []) : ∃ a m', m.recv = some (a, m') := by
  have hq : m.queue ≠ [] := by
    intro hq
    have hw : m.waiting ≠ [] := by simpa [inbox, hq] using h
    have := m.full hw
    rw [hq, List.length_nil] at this
    omega
  obtain ⟨⟨a, m'⟩, hr⟩ := Option.isSome_iff_exists.mp (recv_isSome.mpr hq)
  exact ⟨a, m', hr⟩

/-- An item that comes alone is taken next. -/
theorem recv_send_empty (hn : 0 < n) (a : α) : ((empty : Mailbox α n).send a).recv = some (a, empty) := by
  rw [send, dif_pos (show (empty : Mailbox α n).Open from hn)]
  rfl

theorem inbox_leave (m : Mailbox α n) (k : Nat) : (m.leave k).inbox.Sublist m.inbox :=
  List.Sublist.append_left (List.eraseIdx_sublist ..) _

theorem length_leave {k : Nat} (hk : k < m.waiting.length) : (m.leave k).inbox.length + 1 = m.inbox.length := by
  have hrest : (m.waiting.eraseIdx k).length = m.waiting.length - 1 := List.length_eraseIdx_of_lt hk
  simp only [leave, inbox, List.length_append, hrest]
  omega

end Mailbox

end Effects
