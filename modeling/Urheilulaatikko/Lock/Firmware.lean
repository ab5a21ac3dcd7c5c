import Urheilulaatikko.Lock.Controller

/-!
# The firmware's main loop

`main.rs` and `actuator.rs` of the firmware. The relay is driven in two places: `on_frame` releases
the bolt, the loop's own timeout locks it again; the deadline is a variable of the loop. A run is a
list of iterations, each with the frame it finds (if any) and what the clocks read.

`Grounded` ties relay, deadline and past grants together and survives every iteration;
`bolt_follows_grants` is what it says about every run. An `Instant` is the number of microseconds
since boot; the counter has 64 bits and is not going to wrap.
-/

namespace Urheilulaatikko.Lock

open Trace

/-- `esp_hal::gpio::Level`. -/
inductive Level where
  | low
  | high
  deriving DecidableEq, Repr

structure BoltActuator where
  relay : Level
  deriving DecidableEq, Repr

instance : Actuator BoltActuator where
  unlock actuator := { actuator with relay := .high }
  lock actuator   := { actuator with relay := .low }

/-- `UNLOCK_DURATION`, in microseconds. -/
def unlockDuration : Nat := 5 * 1000 * 1000

/-- The variables of `main`. -/
structure Firmware where
  controller : LockController
  actuator   : BoltActuator
  relockAt   : Option Nat

/-- What one pass through the loop meets: the frame that `take_completed_frame` returns, the clock
reading of `on_frame`, the `Instant` read after a grant and the one read by the relock check. -/
structure Iteration where
  bits        : Option (List Bool)
  unixSeconds : UInt64
  grantedAt   : Nat
  checkedAt   : Nat

namespace Firmware

/-- The state in which the loop starts. -/
def start (secret : List UInt8) (skewSteps : UInt8) : Firmware where
  controller := LockController.new secret skewSteps
  actuator   := { relay := .low }
  relockAt   := none

variable (totpCustom : TotpCustom)

/-- The first half of the loop's body, with the outcome it meets. `none`: `decode_frame` or
`on_frame` fails. -/
def handleFrame (f : Firmware) (it : Iteration) : Option (Firmware × Option Outcome) :=
  match it.bits with
  | none => some (f, none)
  | some bits => do
      let frame ← decodeFrame bits
      let (controller, actuator, outcome) ←
        f.controller.onFrame totpCustom frame it.unixSeconds f.actuator
      let f := { f with controller, actuator }
      match outcome with
      | .unlocked => some ({ f with relockAt := some (it.grantedAt + unlockDuration) }, outcome)
      | .rejected => some (f, outcome)
      | .waiting  => some (f, outcome)

/-- The second half. -/
def checkRelock (f : Firmware) (now : Nat) : Firmware :=
  match f.relockAt with
  | some deadline =>
      if deadline ≤ now then { f with actuator := Actuator.lock f.actuator, relockAt := none }
      else f
  | none => f

def step (f : Firmware) (it : Iteration) : Option Firmware := do
  let (f, _) ← f.handleFrame totpCustom it
  some (f.checkRelock it.checkedAt)

/-- The grant of an iteration, if there is one: the `Instant` read right after `Unlocked`. -/
def grant? (f : Firmware) (it : Iteration) : Option Nat :=
  match f.handleFrame totpCustom it with
  | some (_, some .unlocked) => some it.grantedAt
  | _ => none

/-- The grants of a whole run, in order. -/
def grants (f : Firmware) (its : List Iteration) : List Nat :=
  observe (step totpCustom) (grant? totpCustom) f its

theorem grants_snoc {f₀ f : Firmware} {its : List Iteration} (it : Iteration)
    (hrun : run (step totpCustom) f₀ its = some f) :
    f₀.grants totpCustom (its ++ [it]) =
      f₀.grants totpCustom its ++ (f.grant? totpCustom it).toList :=
  observe_snoc it hrun

theorem grant?_eq {f mid : Firmware} {it : Iteration} {outcome : Option Outcome}
    (h : f.handleFrame totpCustom it = some (mid, outcome)) :
    f.grant? totpCustom it = if outcome = some .unlocked then some it.grantedAt else none := by
  unfold grant?
  rw [h]
  rcases outcome with _ | (_ | _ | _) <;> rfl

/-! ## One iteration

What a pass of the loop does to the bolt, from what it met: a grant raises it, and a check past the
deadline lowers it. -/

/-- The keypad buffer is one that some history of frames leads to. -/
def Typing (f : Firmware) : Prop := ∃ frames, f.controller.entry.Holds (typedDigits frames)

/-- The first half never fails; it moves relay and deadline together, on a grant, or neither. -/
theorem handleFrame_spec {f : Firmware} (h : f.Typing) (it : Iteration) :
    ∃ mid outcome, f.handleFrame totpCustom it = some (mid, outcome) ∧ mid.Typing ∧
      (outcome = some .unlocked →
        mid.actuator.relay = .high ∧ mid.relockAt = some (it.grantedAt + unlockDuration)) ∧
      (outcome ≠ some .unlocked → mid.actuator = f.actuator ∧ mid.relockAt = f.relockAt) := by
  unfold handleFrame
  cases it.bits with
  | none => exact ⟨f, none, rfl, h, nofun, fun _ => ⟨rfl, rfl⟩⟩
  | some bits =>
      obtain ⟨frames, hholds⟩ := h
      obtain ⟨frame, hframe⟩ := decodeFrame_eq_some bits
      obtain ⟨entry, hholds', hon⟩ :=
        LockController.onFrame_eq totpCustom hholds frame it.unixSeconds f.actuator
      have htyping : ∃ frames, entry.Holds (typedDigits frames) := ⟨frames ++ [frame], hholds'⟩
      simp only [hframe, hon, Option.bind_eq_bind, Option.bind_some]
      -- `on_frame` has released the bolt iff its outcome says so
      cases frameOutcome totpCustom f.controller.secret f.controller.skewSteps (typedDigits frames)
        it.unixSeconds frame with
      | unlocked => exact ⟨_, _, rfl, htyping, fun _ => ⟨rfl, rfl⟩, fun hne => absurd rfl hne⟩
      | rejected => exact ⟨_, _, rfl, htyping, nofun, fun _ => ⟨rfl, rfl⟩⟩
      | waiting  => exact ⟨_, _, rfl, htyping, nofun, fun _ => ⟨rfl, rfl⟩⟩

/-- The bolt is released exactly while a deadline is pending, and the deadline is that of the last
grant. -/
structure Grounded (f : Firmware) (granted : List Nat) : Prop where
  relay    : f.actuator.relay = .high ↔ f.relockAt.isSome
  deadline : ∀ deadline, f.relockAt = some deadline →
    ∃ g, granted.getLast? = some g ∧ deadline = g + unlockDuration

theorem Grounded.handleFrame {f mid : Firmware} {it : Iteration} {granted : List Nat}
    {outcome : Option Outcome} (h : f.Grounded granted)
    (hgrant : outcome = some .unlocked →
      mid.actuator.relay = .high ∧ mid.relockAt = some (it.grantedAt + unlockDuration))
    (hsame : outcome ≠ some .unlocked → mid.actuator = f.actuator ∧ mid.relockAt = f.relockAt)
    (hframe : f.handleFrame totpCustom it = some (mid, outcome)) :
    mid.Grounded (granted ++ (f.grant? totpCustom it).toList) := by
  by_cases hu : outcome = some .unlocked
  · obtain ⟨hhigh, hat⟩ := hgrant hu
    have hg : f.grant? totpCustom it = some it.grantedAt := by
      rw [grant?_eq totpCustom hframe, if_pos hu]
    constructor
    · simp [hhigh, hat]
    · intro deadline hdl
      rw [hat] at hdl
      cases hdl
      exact ⟨it.grantedAt, by simp [hg], rfl⟩
  · obtain ⟨hact, hat⟩ := hsame hu
    have hg : f.grant? totpCustom it = none := by
      rw [grant?_eq totpCustom hframe, if_neg hu]
    constructor
    · rw [hact, hat]
      exact h.relay
    · rw [hat, hg, Option.toList_none, List.append_nil]
      exact h.deadline

theorem Grounded.checkRelock {f : Firmware} {granted : List Nat} (h : f.Grounded granted)
    (now : Nat) : (f.checkRelock now).Grounded granted ∧
      ∀ deadline, (f.checkRelock now).relockAt = some deadline → now < deadline := by
  unfold Firmware.checkRelock
  split
  · next deadline hdl =>
      split
      · next hdue => exact ⟨⟨by simp [Actuator.lock], nofun⟩, nofun⟩
      · next hnot =>
          refine ⟨h, ?_⟩
          intro deadline' hdl'
          rw [hdl] at hdl'
          cases hdl'
          omega
  · next hnone =>
      refine ⟨h, ?_⟩
      intro deadline hdl
      rw [hnone] at hdl
      cases hdl

/-- The check lowers the relay only if the deadline of the last grant has come … -/
theorem Grounded.due_of_low {f : Firmware} {granted : List Nat} {now : Nat}
    (h : f.Grounded granted) (hhigh : f.actuator.relay = .high)
    (hlow : (f.checkRelock now).actuator.relay = .low) :
    ∃ g, granted.getLast? = some g ∧ g + unlockDuration ≤ now := by
  obtain ⟨deadline, hdl⟩ := Option.isSome_iff_exists.mp (h.relay.mp hhigh)
  obtain ⟨g, hg, rfl⟩ := h.deadline deadline hdl
  refine ⟨g, hg, ?_⟩
  -- were the deadline still ahead, the check would have left the relay high
  by_contra hahead
  rw [Firmware.checkRelock, hdl] at hlow
  simp only [if_neg hahead] at hlow
  rw [hhigh] at hlow
  cases hlow

/-- … and then it does. -/
theorem Grounded.low_of_due {f : Firmware} {granted : List Nat} {g now : Nat}
    (h : f.Grounded granted) (hg : granted.getLast? = some g) (hdue : g + unlockDuration ≤ now) :
    (f.checkRelock now).actuator.relay = .low := by
  obtain ⟨hend, hahead⟩ := h.checkRelock now
  cases hrelay : (f.checkRelock now).actuator.relay with
  | low => rfl
  | high =>
      obtain ⟨deadline, hdl⟩ := Option.isSome_iff_exists.mp (hend.relay.mp hrelay)
      obtain ⟨g', hg', rfl⟩ := hend.deadline deadline hdl
      have hlt := hahead _ hdl
      rw [hg] at hg'
      cases hg'
      omega

/-! ## Every run

The bolt and the deadline go back to the last grant. Every pass keeps that, whatever it meets. -/

theorem step_eq {f mid : Firmware} {it : Iteration} {outcome : Option Outcome}
    (h : f.handleFrame totpCustom it = some (mid, outcome)) :
    f.step totpCustom it = some (mid.checkRelock it.checkedAt) := by
  simp only [step, h, Option.bind_eq_bind, Option.bind_some]

/-- **The loop never fails and never loses track of the bolt.** -/
theorem run_grounded (secret : List UInt8) (skewSteps : UInt8) (its : List Iteration) :
    ∃ f, run (step totpCustom) (start secret skewSteps) its = some f ∧ f.Typing ∧
      f.Grounded ((start secret skewSteps).grants totpCustom its) := by
  induction its using List.reverseRecOn with
  | nil =>
      refine ⟨start secret skewSteps, rfl, ⟨[], PinEntry.Holds.new⟩, ?_, ?_⟩
      · simp [start]
      · simp [start]
  | append_singleton its it ih =>
      obtain ⟨f, hrun, htyping, hgrounded⟩ := ih
      obtain ⟨mid, outcome, hframe, htyping', hgrant, hsame⟩ :=
        handleFrame_spec totpCustom htyping it
      -- a grant in the very iteration in which the old deadline expires has moved it by now
      have hmid := hgrounded.handleFrame totpCustom hgrant hsame hframe
      refine ⟨mid.checkRelock it.checkedAt,
        run_snoc_eq_some.mpr ⟨f, hrun, step_eq totpCustom hframe⟩, ?_, ?_⟩
      · unfold Firmware.checkRelock
        split
        · split <;> exact htyping'
        · exact htyping'
      · rw [grants_snoc totpCustom it hrun]
        exact (hmid.checkRelock it.checkedAt).1

/-- **The bolt is released only while an unexpired grant exists.** At the end of every iteration
`it` of every run: the relay is high iff a deadline is pending, and the deadline is
`UNLOCK_DURATION` after the last grant and still ahead of this iteration's check. So the relay goes
low no earlier than that, and in the first iteration that finds it due; a new grant moves the
deadline, and any other outcome leaves relay and deadline alone. -/
theorem bolt_follows_grants (secret : List UInt8) (skewSteps : UInt8) (its : List Iteration)
    (it : Iteration) :
    ∃ f mid outcome f',
      run (step totpCustom) (start secret skewSteps) its = some f ∧
      f.handleFrame totpCustom it = some (mid, outcome) ∧
      f' = mid.checkRelock it.checkedAt ∧
      run (step totpCustom) (start secret skewSteps) (its ++ [it]) = some f' ∧
      let lastGrant := ((start secret skewSteps).grants totpCustom (its ++ [it])).getLast?
      (f'.actuator.relay = .high ↔ f'.relockAt.isSome) ∧
      (∀ deadline, f'.relockAt = some deadline →
        (∃ g, lastGrant = some g ∧ deadline = g + unlockDuration) ∧ it.checkedAt < deadline) ∧
      (f.actuator.relay = .high → mid.actuator.relay = .high) ∧
      (mid.actuator.relay = .high → f'.actuator.relay = .low →
        ∃ g, lastGrant = some g ∧ g + unlockDuration ≤ it.checkedAt) ∧
      (∀ g, lastGrant = some g → g + unlockDuration ≤ it.checkedAt → f'.actuator.relay = .low) ∧
      (outcome = some .unlocked → lastGrant = some it.grantedAt ∧ mid.actuator.relay = .high ∧
        mid.relockAt = some (it.grantedAt + unlockDuration)) ∧
      (outcome ≠ some .unlocked → mid.actuator = f.actuator ∧ mid.relockAt = f.relockAt) := by
  obtain ⟨f, hrun, htyping, hgrounded⟩ := run_grounded totpCustom secret skewSteps its
  obtain ⟨mid, outcome, hframe, -, hgrant, hsame⟩ := handleFrame_spec totpCustom htyping it
  have hmid := hgrounded.handleFrame totpCustom hgrant hsame hframe
  rw [← grants_snoc totpCustom it hrun] at hmid
  obtain ⟨hend, hahead⟩ := hmid.checkRelock it.checkedAt
  refine ⟨f, mid, outcome, mid.checkRelock it.checkedAt, hrun, hframe, rfl,
    run_snoc_eq_some.mpr ⟨f, hrun, step_eq totpCustom hframe⟩, hend.relay, ?_, ?_, ?_, ?_, ?_,
    hsame⟩
  · intro deadline hdl
    exact ⟨hend.deadline deadline hdl, hahead deadline hdl⟩
  · intro hhigh
    by_cases hu : outcome = some .unlocked
    · exact (hgrant hu).1
    · rw [(hsame hu).1, hhigh]
  · exact hmid.due_of_low
  · intro g hg hdue
    exact hmid.low_of_due hg hdue
  · intro hu
    refine ⟨?_, hgrant hu⟩
    rw [grants_snoc totpCustom it hrun, grant?_eq totpCustom hframe, if_pos hu]
    simp

end Firmware

end Urheilulaatikko.Lock
