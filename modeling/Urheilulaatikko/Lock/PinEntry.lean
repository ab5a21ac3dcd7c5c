import Mathlib.Data.List.GetD
import Urheilulaatikko.Lib.Machine

/-!
# The PIN buffer

`pin_entry.rs` of the lock, and the history it stands for. The buffer holds six digits; a seventh
starts over at its front, and `Enter` and `Cancel` clear it. `Holds entry ds` says that `entry` is
what is left of the digits `ds` typed since the last reset: how many are in the buffer, and that
they are the latest ones. One lemma per key shows how `push` moves it along, and that no index is
ever out of range.
-/

namespace Urheilulaatikko.Lock

open Machine

/-- `PIN_LEN`. -/
abbrev pinLen : Nat := 6

inductive Key where
  | digit (d : UInt8)
  | cancel
  | enter
  deriving DecidableEq, Repr

inductive Submission where
  | pending
  | ready (code : Vector UInt8 pinLen)
  deriving DecidableEq, Repr

structure PinEntry where
  buffer : Vector UInt8 pinLen
  len    : Nat
  deriving DecidableEq, Repr

namespace PinEntry

def new : PinEntry where
  buffer := Vector.replicate pinLen 0
  len    := 0

def reset (_ : PinEntry) : PinEntry where
  buffer := Vector.replicate pinLen 0
  len    := 0

/-- `none`: an index out of range. -/
def push (entry : PinEntry) : Key → Option (PinEntry × Submission)
  | .cancel => some (entry.reset, .pending)
  | .digit d =>
      if entry.len < pinLen then do
        let buffer ← setIndex entry.buffer entry.len d
        some ({ buffer, len := entry.len + 1 }, .pending)
      else do
        let buffer ← setIndex entry.buffer 0 d
        some ({ buffer, len := 1 }, .pending)
  | .enter =>
      let result := if entry.len = pinLen then .ready entry.buffer else .pending
      some (entry.reset, result)

/-! ## The history behind the buffer

The buffer forgets: a seventh digit starts it over. What it holds after any number of digits depends
on their number and on the latest ones only (`Holds`). -/

/-- How many of `k` digits typed in a row are in the buffer: it fills up to six, and the next digit
leaves one. -/
def fill (k : Nat) : Nat := if k = 0 then 0 else (k - 1) % pinLen + 1

/-- The latest `n` digits. -/
def latest (n : Nat) (ds : List UInt8) : List UInt8 := ds.drop (ds.length - n)

structure Holds (entry : PinEntry) (ds : List UInt8) : Prop where
  len  : entry.len = fill ds.length
  kept : entry.buffer.toList.take entry.len = latest entry.len ds

theorem fill_le_self (k : Nat) : fill k ≤ k := by
  simp only [fill, pinLen]
  split <;> omega

theorem fill_eq_zero_iff (k : Nat) : fill k = 0 ↔ k = 0 := by
  unfold fill
  split <;> omega

theorem fill_eq_pinLen_iff (k : Nat) : fill k = pinLen ↔ 0 < k ∧ pinLen ∣ k := by
  simp only [fill, pinLen]
  constructor
  · intro h
    split at h <;> omega
  · intro h
    rw [if_neg (by omega)]
    omega

/-- One more digit: the buffer grows by it, or starts over with it. -/
theorem fill_succ (k : Nat) : fill (k + 1) = if fill k < pinLen then fill k + 1 else 1 := by
  simp only [fill, pinLen]
  rw [if_neg (by omega)]
  split <;> split <;> omega

theorem Holds.new : Holds PinEntry.new [] where
  len  := rfl
  kept := rfl

theorem latest_snoc {n : Nat} {ds : List UInt8} (hn : n ≤ ds.length) (d : UInt8) :
    latest (n + 1) (ds ++ [d]) = latest n ds ++ [d] := by
  unfold latest
  rw [List.length_append, List.length_singleton, Nat.add_sub_add_right,
    List.drop_append_of_le_length (by omega)]

/-- Writing at position `n` puts `a` right behind the first `n` elements. -/
theorem take_set {n m : Nat} (v : Vector UInt8 m) (a : UInt8) (h : n < m) :
    (v.set n a h).toList.take (n + 1) = v.toList.take n ++ [a] := by
  have hlen : n < v.toList.length := by simpa using h
  rw [Vector.toList_set, List.take_set, List.take_succ_eq_append_getElem hlen]
  simp [Nat.min_eq_left h.le]

theorem push_digit {entry : PinEntry} {ds : List UInt8} (h : Holds entry ds) (d : UInt8) :
    ∃ entry', entry.push (.digit d) = some (entry', .pending) ∧ Holds entry' (ds ++ [d]) := by
  have hlen : fill (ds ++ [d]).length = if entry.len < pinLen then entry.len + 1 else 1 := by
    rw [List.length_append, List.length_singleton, fill_succ, h.len]
  simp only [push]
  by_cases hroom : entry.len < pinLen
  · rw [if_pos hroom, setIndex_eq _ _ hroom]
    rw [if_pos hroom] at hlen
    refine ⟨_, rfl, hlen.symm, ?_⟩
    have hle : entry.len ≤ ds.length := h.len ▸ fill_le_self _
    show (entry.buffer.set entry.len d hroom).toList.take (entry.len + 1) = _
    rw [take_set, h.kept, latest_snoc hle]
  · -- a seventh digit starts over at the front
    rw [if_neg hroom, setIndex_eq _ _ (by decide)]
    rw [if_neg hroom] at hlen
    refine ⟨_, rfl, hlen.symm, ?_⟩
    show (entry.buffer.set 0 d (by decide)).toList.take (0 + 1) = latest (0 + 1) (ds ++ [d])
    rw [take_set, latest_snoc (Nat.zero_le _)]
    simp [latest]

theorem push_cancel (entry : PinEntry) : entry.push .cancel = some (PinEntry.new, .pending) := rfl

/-- The latest six digits as a code (zeros where fewer were typed). -/
def lastSix (ds : List UInt8) : Vector UInt8 pinLen :=
  Vector.ofFn fun i => ds.getD (ds.length - pinLen + i) 0

theorem toList_lastSix_append (earlier : List UInt8) {ds : List UInt8} (h : ds.length = pinLen) :
    (lastSix (earlier ++ ds)).toList = ds := by
  apply List.ext_getElem
  · simp [lastSix, h]
  · intro i h₁ h₂
    simp only [lastSix, Vector.toList_ofFn, List.getElem_ofFn, List.length_append, h,
      Nat.add_sub_cancel]
    rw [List.getD_append_right _ _ _ _ (by omega), Nat.add_sub_cancel_left,
      List.getD_eq_getElem _ _ h₂]

theorem Holds.buffer_eq {entry : PinEntry} {ds : List UInt8} (h : Holds entry ds)
    (hfull : entry.len = pinLen) : entry.buffer = lastSix ds := by
  have hle : pinLen ≤ ds.length := by
    have := fill_le_self ds.length
    rw [← h.len, hfull] at this
    exact this
  have hkept := h.kept
  rw [hfull, List.take_of_length_le (by simp)] at hkept
  apply Vector.toList_inj.mp
  rw [hkept]
  apply List.ext_getElem
  · simp [latest, lastSix]
    omega
  · intro i h₁ h₂
    simp only [latest, lastSix, List.getElem_drop, Vector.toList_ofFn, List.getElem_ofFn]
    rw [List.getD_eq_getElem]

/-- `Enter` submits exactly when the digits typed since the last reset come in sixes, and submits
the latest six. -/
theorem push_enter {entry : PinEntry} {ds : List UInt8} (h : Holds entry ds) :
    entry.push .enter = some (PinEntry.new,
      if 0 < ds.length ∧ pinLen ∣ ds.length then .ready (lastSix ds) else .pending) := by
  have hiff := fill_eq_pinLen_iff ds.length
  rw [← h.len] at hiff
  show some (entry.reset,
    if entry.len = pinLen then Submission.ready entry.buffer else Submission.pending) = _
  by_cases hfull : entry.len = pinLen
  · rw [if_pos hfull, if_pos (hiff.mp hfull), h.buffer_eq hfull]
    rfl
  · rw [if_neg hfull, if_neg (fun hk => hfull (hiff.mpr hk))]
    rfl

end PinEntry

end Urheilulaatikko.Lock
