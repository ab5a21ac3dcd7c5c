import Mathlib.Data.List.Basic

/-!
# A bounded broadcast channel with one sender

Every receiver sees every value sent after it subscribed, as long as it does not fall more than
`capacity` values behind. The channel keeps the whole history `sent`; only its last `capacity`
values are still held, which is what `recv` checks. Dropping the sender closes the channel, and a
receiver is told so only after it has drained the values still held for it.

A value sent while nobody is subscribed is lost: a later subscriber starts at the end of the
history, so it does not matter whether the history records that value or not.
-/

namespace Broadcast

variable {α : Type*}

structure Channel (α : Type*) where
  capacity : Nat
  sent     : List α := []
  /-- The sender has been dropped. -/
  closed   : Bool := false
  deriving DecidableEq

/-- A subscription: the position in the history of the next value to receive. -/
structure Receiver where
  next : Nat
  deriving DecidableEq, Repr

/-- What one attempt to receive gives. -/
inductive Recv (α : Type*) where
  | ok (value : α)
  | lagged (missed : Nat)
  | closed
  | pending
  deriving DecidableEq

namespace Channel

/-- A new channel, with the sender alive and nothing sent. -/
def new (capacity : Nat) : Channel α := { capacity }

def subscribe (ch : Channel α) : Receiver := ⟨ch.sent.length⟩

def send (ch : Channel α) (value : α) : Channel α := { ch with sent := ch.sent ++ [value] }

def close (ch : Channel α) : Channel α := { ch with closed := true }

def recv (ch : Channel α) (rx : Receiver) : Recv α :=
  match ch.sent[rx.next]? with
  | some value =>
      if ch.sent.length - rx.next ≤ ch.capacity then .ok value
      else .lagged (ch.sent.length - rx.next - ch.capacity)
  | none => if ch.closed then .closed else .pending

@[simp] theorem capacity_new (n : Nat) : (new n : Channel α).capacity = n := rfl
@[simp] theorem sent_new (n : Nat) : (new n : Channel α).sent = [] := rfl
@[simp] theorem closed_new (n : Nat) : (new n : Channel α).closed = false := rfl
@[simp] theorem capacity_send (ch : Channel α) (v : α) : (ch.send v).capacity = ch.capacity := rfl
@[simp] theorem sent_send (ch : Channel α) (v : α) : (ch.send v).sent = ch.sent ++ [v] := rfl
@[simp] theorem closed_send (ch : Channel α) (v : α) : (ch.send v).closed = ch.closed := rfl
@[simp] theorem capacity_close (ch : Channel α) : ch.close.capacity = ch.capacity := rfl
@[simp] theorem sent_close (ch : Channel α) : ch.close.sent = ch.sent := rfl
@[simp] theorem closed_close (ch : Channel α) : ch.close.closed = true := rfl
@[simp] theorem next_subscribe (ch : Channel α) : ch.subscribe.next = ch.sent.length := rfl

/-! ## What a receiver can be told

A value, that some were missed, that there is none yet, or that there will be none any more. -/

/-- A received value was sent at or after the position of the subscription. -/
theorem getElem?_of_recv_ok {ch : Channel α} {rx : Receiver} {v : α} (h : ch.recv rx = .ok v) :
    ch.sent[rx.next]? = some v := by
  unfold recv at h
  split at h
  · next value hget =>
      split at h
      · cases h; exact hget
      · cases h
  · split at h <;> cases h

/-- Only a receiver that missed more than `capacity` values lags. -/
theorem recv_ne_lagged {ch : Channel α} {rx : Receiver} {n : Nat}
    (h : ch.sent.length ≤ rx.next + ch.capacity) : ch.recv rx ≠ .lagged n := by
  unfold recv
  split
  · rw [if_pos (by omega)]; simp
  · split <;> simp

theorem recv_eq_ok {ch : Channel α} {rx : Receiver} {v : α} (hget : ch.sent[rx.next]? = some v)
    (h : ch.sent.length ≤ rx.next + ch.capacity) : ch.recv rx = .ok v := by
  unfold recv
  rw [hget]
  exact if_pos (by omega)

/-- `closed` is reported only once the sender is gone and nothing is left to drain. -/
theorem recv_eq_closed_iff {ch : Channel α} {rx : Receiver} :
    ch.recv rx = .closed ↔ ch.sent.length ≤ rx.next ∧ ch.closed = true := by
  unfold recv
  split
  · next v hget =>
      have hlt := (List.getElem?_eq_some_iff.mp hget).1
      constructor
      · intro h; split at h <;> cases h
      · rintro ⟨hle, -⟩; omega
  · next hget =>
      have hle := List.getElem?_eq_none_iff.mp hget
      cases ch.closed <;> simp [hle]

end Channel
end Broadcast
