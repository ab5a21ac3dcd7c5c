import Urheilulaatikko.Lib.Simulation
import Urheilulaatikko.Lock.Clock
import Urheilulaatikko.Lock.Firmware
import Urheilulaatikko.Lock.SkewWindow
import Urheilulaatikko.Lock.WiegandCapture

/-!
# The whole device

The main loop of the firmware with the interrupt handler underneath it. An edge on a data line is
latched by the hardware; the handler runs some time later, between any two steps of the loop. Two
edges on one line that the handler has not seen yet are one to it, so nothing is assumed here about
how soon it runs.

The loop shares `CAPTURE` with the handler and nothing else. A run of the device is therefore a run
of the capture (`captureEvents`) and a run of the controller (`bursts`), and `pipeline` says how the
two are connected: the controller is handed the frames the capture completes, one by one. What the
loop has done with each of them is an entry of its own (`Handled`), and `released_by_pulses` follows
the bolt back to such an entry and to the wires.
-/

namespace Urheilulaatikko.Lock

open Trace WiegandCapture

/-- Where the main loop stands. -/
inductive Phase where
  /-- Before `take_completed_frame`. -/
  | polling
  /-- With a frame in hand. -/
  | taken (bits : List Bool)
  /-- Before the relock check. -/
  | checking
  deriving DecidableEq, Repr

def Phase.inHand : Phase → List (List Bool)
  | .taken bits => [bits]
  | _           => []

structure Device where
  capture  : Capture
  clock    : SystemClock
  firmware : Firmware
  phase    : Phase

namespace Device

inductive Event where
  /-- A falling edge on D1 if `line`, else on D0. -/
  | edge (line : Bool) (time : Nat)
  /-- The handler runs; `now₀` and `now₁` are the `Instant`s of its calls of `push_bit`. -/
  | interrupt (now₀ now₁ : Nat)
  /-- `take_completed_frame`. -/
  | poll (now : Nat)
  /-- `decode_frame` and `on_frame`, whose clock reads `now`; `grantedAt` is read after a grant. -/
  | handle (now grantedAt : Nat)
  /-- The relock check; the loop then waits and starts again. -/
  | check (now : Nat)
  deriving DecidableEq, Repr

/-- The device when the loop begins. -/
def start (clock : SystemClock) (secret : List UInt8) (skewSteps : UInt8) : Device where
  capture  := WiegandCapture.start
  clock    := clock
  firmware := Firmware.start secret skewSteps
  phase    := .polling

/-- `main` up to its loop. `none`: the clock cannot be started. -/
def boot (lockClientBuildEpoch : String) (secret : List UInt8) (skewSteps : UInt8) :
    Option Device := do
  let clock ← SystemClock.start lockClientBuildEpoch
  some (start clock secret skewSteps)

/-- Every image that the build makes comes to its loop, with the clock at the time of the build. -/
theorem boot_buildEpoch (unixSeconds : UInt64) (secret : List UInt8) (skewSteps : UInt8) :
    boot (buildEpoch unixSeconds) secret skewSteps =
      some (start ⟨unixSeconds⟩ secret skewSteps) := by
  rw [boot, SystemClock.start_buildEpoch]
  rfl

/-- What `handle` meets, as far as `handleFrame` looks at it. -/
def iteration (d : Device) (bits : List Bool) (now grantedAt : Nat) : Iteration where
  bits        := some bits
  unixSeconds := d.clock.unixSeconds now
  grantedAt   := grantedAt
  checkedAt   := grantedAt

variable (totpCustom : TotpCustom)

/-- `none`: it is not this step's turn, or the firmware panics. -/
def step (d : Device) : Event → Option Device
  | .edge line _ => some { d with capture := d.capture.latch (!line) line }
  | .interrupt now₀ now₁ => do
      let capture ← onGpioInterrupt now₀ now₁ d.capture
      some { d with capture }
  | .poll now =>
      match d.phase with
      | .polling => do
          let (capture, frame) ← takeCompletedFrame now d.capture
          let phase := match frame with
            | some bits => .taken bits.toList
            | none      => .checking
          some { d with capture, phase }
      | _ => none
  | .handle now grantedAt =>
      match d.phase with
      | .taken bits => do
          let (firmware, _) ← d.firmware.handleFrame totpCustom (d.iteration bits now grantedAt)
          some { d with firmware, phase := .checking }
      | _ => none
  | .check now =>
      match d.phase with
      | .checking => some { d with firmware := d.firmware.checkRelock now, phase := .polling }
      | _ => none

/-! ## What a run looks like from below and from above

Below is the capture, above the controller and the bolt. Each of them sees some of the steps of a
run, and what it sees of them is an observation of the run. -/

/-- What a step is to the capture: the handler finds the edges latched since its last run. -/
def captureEvent (d : Device) : Event → Option WiegandCapture.Event
  | .interrupt now₀ now₁ => d.capture.map fun state =>
      .interrupt state.d0.interruptSet state.d1.interruptSet now₀ now₁
  | .poll now => some (.poll now)
  | _ => none

def captureEvents (d : Device) (es : List Event) : List WiegandCapture.Event :=
  observe (step totpCustom) captureEvent d es

/-- What a step is to the controller. -/
def burst? (d : Device) : Event → Option Burst
  | .handle now _ =>
      match d.phase with
      | .taken bits => some ⟨bits, d.clock.unixSeconds now⟩
      | _ => none
  | _ => none

def bursts (d : Device) (es : List Event) : List Burst := observe (step totpCustom) burst? d es

/-- What `on_frame` answers. -/
def outcome? (d : Device) : Event → Option Outcome
  | .handle now grantedAt =>
      match d.phase with
      | .taken bits =>
          (d.firmware.handleFrame totpCustom (d.iteration bits now grantedAt)).bind Prod.snd
      | _ => none
  | _ => none

def outcomes (d : Device) (es : List Event) : List Outcome :=
  observe (step totpCustom) (outcome? totpCustom) d es

/-- The `Instant` read after a grant. -/
def grant? (d : Device) : Event → Option Nat
  | .handle now grantedAt =>
      match d.phase with
      | .taken bits => d.firmware.grant? totpCustom (d.iteration bits now grantedAt)
      | _ => none
  | _ => none

def grants (d : Device) (es : List Event) : List Nat :=
  observe (step totpCustom) (grant? totpCustom) d es

/-- A frame that the loop has handled, with the two `Instant`s of its step and the answer. -/
structure Handled where
  bits      : List Bool
  handledAt : Nat
  grantedAt : Nat
  outcome   : Outcome
  deriving DecidableEq, Repr

/-- The entry of a step. -/
def handled? (d : Device) : Event → Option Handled
  | .handle now grantedAt =>
      match d.phase with
      | .taken bits =>
          (d.outcome? totpCustom (.handle now grantedAt)).map fun outcome =>
            { bits, handledAt := now, grantedAt, outcome }
      | _ => none
  | _ => none

def handled (d : Device) (es : List Event) : List Handled :=
  observe (step totpCustom) (handled? totpCustom) d es

/-- The entry, as the controller sees it. -/
def Handled.burst (clock : SystemClock) (x : Handled) : Burst :=
  ⟨x.bits, clock.unixSeconds x.handledAt⟩

/-- The entry, as the bolt sees it. -/
def Handled.grant? (x : Handled) : Option Nat :=
  if x.outcome = .unlocked then some x.grantedAt else none

/-! ## One step

Everything below goes by these five cases. -/

/-- All that a step can be. -/
theorem step_cases {d d' : Device} {e : Event} (h : d.step totpCustom e = some d') :
    (∃ line time, e = .edge line time ∧
      d' = { d with capture := d.capture.latch (!line) line }) ∨
    (∃ now₀ now₁ capture, e = .interrupt now₀ now₁ ∧
      onGpioInterrupt now₀ now₁ d.capture = some capture ∧ d' = { d with capture }) ∨
    (∃ now capture frame, e = .poll now ∧ d.phase = .polling ∧
      takeCompletedFrame now d.capture = some (capture, frame) ∧
      d' = { d with capture, phase := frame.elim .checking fun bits => .taken bits.toList }) ∨
    (∃ now grantedAt bits firmware outcome, e = .handle now grantedAt ∧ d.phase = .taken bits ∧
      d.firmware.handleFrame totpCustom (d.iteration bits now grantedAt) =
        some (firmware, outcome) ∧
      d' = { d with firmware, phase := .checking }) ∨
    ∃ now, e = .check now ∧ d.phase = .checking ∧
      d' = { d with firmware := d.firmware.checkRelock now, phase := .polling } := by
  cases e with
  | edge line time =>
      cases h
      exact .inl ⟨line, time, rfl, rfl⟩
  | interrupt now₀ now₁ =>
      obtain ⟨capture, hcapture, heq⟩ := Option.bind_eq_some_iff.mp h
      cases heq
      exact .inr (.inl ⟨now₀, now₁, capture, rfl, hcapture, rfl⟩)
  | poll now =>
      simp only [step] at h
      split at h
      · next hphase =>
          obtain ⟨⟨capture, frame⟩, htake, heq⟩ := Option.bind_eq_some_iff.mp h
          refine .inr (.inr (.inl ⟨now, capture, frame, rfl, hphase, htake, ?_⟩))
          cases frame <;> exact (Option.some.inj heq).symm
      · cases h
  | handle now grantedAt =>
      simp only [step] at h
      split at h
      · next bits hphase =>
          obtain ⟨⟨firmware, outcome⟩, hframe, heq⟩ := Option.bind_eq_some_iff.mp h
          cases heq
          exact .inr (.inr (.inr (.inl ⟨now, grantedAt, bits, firmware, outcome, rfl, hphase,
            hframe, rfl⟩)))
      · cases h
  | check now =>
      simp only [step] at h
      split at h
      · next hphase =>
          cases h
          exact .inr (.inr (.inr (.inr ⟨now, rfl, hphase, rfl⟩)))
      · cases h

/-! ## The capture

Edges that the handler has not seen yet are pending in the pins. Apart from them the capture inside
the device is that of `WiegandCapture`, whose handler finds its edges at once. -/

/-- `capture` is `state` with edges pending on D0 and D1. -/
structure Pending (capture : Capture) (d0 d1 : Bool) (state : CaptureState) : Prop where
  quiet    : Quiet state
  latch_eq : capture = Capture.latch (some state) d0 d1

theorem latch_latch (capture : Capture) (a₀ a₁ b₀ b₁ : Bool) :
    (capture.latch a₀ a₁).latch b₀ b₁ = capture.latch (a₀ || b₀) (a₁ || b₁) := by
  cases capture <;> simp [Capture.latch, Input.latch, Bool.or_assoc]

/-- The pins are of no interest to a poll. -/
theorem takeCompletedFrame_latch (now : Nat) (capture : Capture) (d0 d1 : Bool) :
    takeCompletedFrame now (capture.latch d0 d1) =
      (takeCompletedFrame now capture).map fun result => (result.1.latch d0 d1, result.2) := by
  cases capture with
  | none => rfl
  | some state =>
      obtain ⟨pin₀, pin₁, bits, lastEdge⟩ := state
      simp only [Capture.latch, Option.map_some, takeCompletedFrame]
      cases lastEdge with
      | none => rfl
      | some lastEdge =>
          dsimp only
          split
          · rfl
          · cases durationSince now lastEdge with
            | none => rfl
            | some silence =>
                simp only [Option.bind_eq_bind, Option.bind_some]
                split <;> rfl

theorem takeCompletedFrame_pins {now : Nat} {state : CaptureState} {capture : Capture}
    {frame : Option (Buffer.Vec Bool maxBits)}
    (h : takeCompletedFrame now (some state) = some (capture, frame)) :
    ∃ state', capture = some state' ∧ state'.d0 = state.d0 ∧ state'.d1 = state.d1 := by
  unfold takeCompletedFrame at h
  dsimp only at h
  split at h
  · cases h
    exact ⟨state, rfl, rfl, rfl⟩
  · split at h
    · cases h
      exact ⟨state, rfl, rfl, rfl⟩
    · obtain ⟨silence, -, heq⟩ := Option.bind_eq_some_iff.mp h
      split at heq
      · cases heq
        exact ⟨state, rfl, rfl, rfl⟩
      · cases heq
        exact ⟨_, rfl, rfl, rfl⟩

theorem pushBit_pins {state state' : CaptureState} {bit : Bool} {now : Nat}
    (h : pushBit state bit now = some state') : state'.d0 = state.d0 ∧ state'.d1 = state.d1 := by
  obtain ⟨bits, hpush, -⟩ := pushBit_eq_some state bit now
  rw [hpush] at h
  cases h
  exact ⟨rfl, rfl⟩

/-- The handler clears what it finds. -/
theorem quiet_of_onGpioInterrupt {now₀ now₁ : Nat} {state : CaptureState} {capture : Capture}
    (h : onGpioInterrupt now₀ now₁ (some state) = some capture) :
    ∃ state', capture = some state' ∧ Quiet state' := by
  obtain ⟨⟨d0⟩, ⟨d1⟩, bits, lastEdge⟩ := state
  simp only [onGpioInterrupt, Input.clearInterrupt] at h
  cases d0 with
  | false =>
      cases d1 with
      | false =>
          cases h
          exact ⟨_, rfl, rfl, rfl⟩
      | true =>
          obtain ⟨last, hlast, heq⟩ := Option.bind_eq_some_iff.mp h
          cases heq
          obtain ⟨hd0, hd1⟩ := pushBit_pins hlast
          exact ⟨last, rfl, hd0, hd1⟩
  | true =>
      obtain ⟨mid, hmid, h⟩ := Option.bind_eq_some_iff.mp h
      obtain ⟨hd0, hd1⟩ := pushBit_pins hmid
      simp only [hd1] at h
      cases d1 with
      | false =>
          cases h
          exact ⟨_, rfl, hd0, hd1⟩
      | true =>
          obtain ⟨last, hlast, heq⟩ := Option.bind_eq_some_iff.mp h
          cases heq
          obtain ⟨hd0', hd1'⟩ := pushBit_pins hlast
          exact ⟨last, rfl, hd0'.trans hd0, hd1'⟩

section Pending

variable {capture capture' : Capture} {d0 d1 : Bool} {state : CaptureState}

theorem Pending.eq_some (h : Pending capture d0 d1 state) :
    capture = some { state with d0 := ⟨d0⟩, d1 := ⟨d1⟩ } := by
  rw [h.latch_eq, Capture.latch, Option.map_some, h.quiet.1, h.quiet.2]
  rfl

theorem Pending.latch (h : Pending capture d0 d1 state) (line : Bool) :
    Pending (capture.latch (!line) line) (d0 || !line) (d1 || line) state :=
  ⟨h.quiet, by rw [h.latch_eq, latch_latch]⟩

/-- The handler finds the pending edges and leaves none. -/
theorem Pending.interrupt (h : Pending capture d0 d1 state) {now₀ now₁ : Nat}
    (hhandler : onGpioInterrupt now₀ now₁ capture = some capture') :
    ∃ state', WiegandCapture.step (some state) (.interrupt d0 d1 now₀ now₁) = some (some state') ∧
      Pending capture' false false state' := by
  have hclear : ∃ state', capture' = some state' ∧ Quiet state' := by
    rw [h.eq_some] at hhandler
    exact quiet_of_onGpioInterrupt hhandler
  obtain ⟨state', rfl, hquiet⟩ := hclear
  refine ⟨state', ?_, hquiet, by simp [Capture.latch, Input.latch]⟩
  rw [h.latch_eq] at hhandler
  exact hhandler

theorem Pending.poll (h : Pending capture d0 d1 state) {now : Nat}
    {frame : Option (Buffer.Vec Bool maxBits)}
    (htake : takeCompletedFrame now capture = some (capture', frame)) :
    ∃ state', takeCompletedFrame now (some state) = some (some state', frame) ∧
      Pending capture' d0 d1 state' := by
  rw [h.latch_eq, takeCompletedFrame_latch, Option.map_eq_some_iff] at htake
  obtain ⟨⟨rest, frame'⟩, htake, heq⟩ := htake
  cases heq
  obtain ⟨state', rfl, hd0, hd1⟩ := takeCompletedFrame_pins htake
  exact ⟨state', htake, ⟨hd0.trans h.quiet.1, hd1.trans h.quiet.2⟩, rfl⟩

theorem captureEvent_interrupt {d : Device} (h : Pending d.capture d0 d1 state) (now₀ now₁ : Nat) :
    d.captureEvent (.interrupt now₀ now₁) = some (.interrupt d0 d1 now₀ now₁) := by
  rw [captureEvent, h.eq_some]
  rfl

end Pending

/-- The device as a capture. -/
def captureSimulation : Simulation (step totpCustom) WiegandCapture.step where
  rel d cleared := ∃ d0 d1 state, cleared = some state ∧ Pending d.capture d0 d1 state
  event := captureEvent
  next := by
    rintro d cleared e d' ⟨d0, d1, state, rfl, hpending⟩ hstep
    obtain ⟨line, time, rfl, rfl⟩ | ⟨now₀, now₁, capture', rfl, hhandler, rfl⟩ |
      ⟨now, capture', frame, rfl, -, htake, rfl⟩ | ⟨now, grantedAt, bits, firmware, outcome, rfl, -,
      -, rfl⟩ | ⟨now, rfl, -, rfl⟩ := step_cases totpCustom hstep
    · exact ⟨some state, rfl, _, _, state, rfl, hpending.latch line⟩
    · obtain ⟨state', hrun, hpending'⟩ := hpending.interrupt hhandler
      rw [captureEvent_interrupt hpending, Option.toList_some, run_singleton]
      exact ⟨some state', hrun, false, false, state', rfl, hpending'⟩
    · obtain ⟨state', htake', hpending'⟩ := hpending.poll htake
      refine ⟨some state', ?_, d0, d1, state', rfl, hpending'⟩
      rw [captureEvent, Option.toList_some, run_singleton, WiegandCapture.step, htake']
      rfl
    · exact ⟨some state, rfl, d0, d1, state, rfl, hpending⟩
    · exact ⟨some state, rfl, d0, d1, state, rfl, hpending⟩

/-! ## Whole runs

The capture and the frames it hands on, over a whole run of the device. One more step adds at most
one more observation to what each of the observers has seen. -/

section Runs

variable {clock : SystemClock} {secret : List UInt8} {skewSteps : UInt8} {es : List Event}
  {d : Device}

omit totpCustom in
theorem pending_start : ∃ state, WiegandCapture.start = some state ∧
    Pending (start clock secret skewSteps).capture false false state :=
  ⟨_, rfl, ⟨rfl, rfl⟩, rfl⟩

/-- The run of the capture inside a run of the device. -/
theorem capture_of_run
    (hrun : run (step totpCustom) (start clock secret skewSteps) es = some d) :
    ∃ d0 d1 state, Pending d.capture d0 d1 state ∧
      run WiegandCapture.step WiegandCapture.start
        ((start clock secret skewSteps).captureEvents totpCustom es) = some (some state) := by
  have hstart : (captureSimulation totpCustom).rel (start clock secret skewSteps)
      WiegandCapture.start :=
    ⟨false, false, pending_start⟩
  obtain ⟨cleared, hcapture, d0, d1, state, rfl, hpending⟩ :=
    (captureSimulation totpCustom).run_eq_some hstart hrun
  exact ⟨d0, d1, state, hpending, hcapture⟩

section Snoc

variable {d₀ d' : Device} (e : Event)

theorem captureEvents_snoc (hrun : run (step totpCustom) d₀ es = some d) :
    d₀.captureEvents totpCustom (es ++ [e]) =
      d₀.captureEvents totpCustom es ++ (d.captureEvent e).toList :=
  observe_snoc e hrun

theorem bursts_snoc (hrun : run (step totpCustom) d₀ es = some d) :
    d₀.bursts totpCustom (es ++ [e]) = d₀.bursts totpCustom es ++ (d.burst? e).toList :=
  observe_snoc e hrun

theorem outcomes_snoc (hrun : run (step totpCustom) d₀ es = some d) :
    d₀.outcomes totpCustom (es ++ [e]) =
      d₀.outcomes totpCustom es ++ (d.outcome? totpCustom e).toList :=
  observe_snoc e hrun

theorem grants_snoc (hrun : run (step totpCustom) d₀ es = some d) :
    d₀.grants totpCustom (es ++ [e]) =
      d₀.grants totpCustom es ++ (d.grant? totpCustom e).toList :=
  observe_snoc e hrun

theorem handled_snoc (hrun : run (step totpCustom) d₀ es = some d) :
    d₀.handled totpCustom (es ++ [e]) =
      d₀.handled totpCustom es ++ (d.handled? totpCustom e).toList :=
  observe_snoc e hrun

end Snoc

/-- Every frame that the capture has completed is handed on, once and in order; the last one may
still be in hand. -/
theorem handed_of_run
    (hrun : run (step totpCustom) (start clock secret skewSteps) es = some d) :
    ((start clock secret skewSteps).bursts totpCustom es).map Burst.bits ++ d.phase.inHand =
      frames ((start clock secret skewSteps).captureEvents totpCustom es) := by
  refine run_induction (P := fun es d =>
    ((start clock secret skewSteps).bursts totpCustom es).map Burst.bits ++ d.phase.inHand =
      frames ((start clock secret skewSteps).captureEvents totpCustom es)) rfl ?_ hrun
  intro es d e d' hrun ih hstep
  obtain ⟨d0, d1, state, hpending, hcapture⟩ := capture_of_run totpCustom hrun
  have hframes (e : WiegandCapture.Event) :
      frames ((start clock secret skewSteps).captureEvents totpCustom es ++ [e]) =
        frames ((start clock secret skewSteps).captureEvents totpCustom es) ++
          (taken? (some state) e).toList :=
    observe_snoc e hcapture
  rw [bursts_snoc totpCustom e hrun, captureEvents_snoc totpCustom e hrun]
  obtain ⟨line, time, rfl, rfl⟩ | ⟨now₀, now₁, capture', rfl, hhandler, rfl⟩ |
    ⟨now, capture', frame, rfl, hphase, htake, rfl⟩ | ⟨now, grantedAt, bits, firmware, outcome, rfl,
    hphase, -, rfl⟩ | ⟨now, rfl, hphase, rfl⟩ := step_cases totpCustom hstep
  · simpa [captureEvent, burst?] using ih
  · rw [captureEvent_interrupt hpending, Option.toList_some, hframes]
    simpa [burst?, taken?] using ih
  · -- the poll takes what the capture completes
    obtain ⟨state', htake', -⟩ := hpending.poll htake
    rw [hphase] at ih
    rw [captureEvent, Option.toList_some, hframes, ← ih, taken?, htake']
    cases frame <;> simp [burst?, Phase.inHand]
  · simpa [captureEvent, burst?, hphase, Phase.inHand] using ih
  · simpa [captureEvent, burst?, hphase, Phase.inHand] using ih

/-! ## The controller

The controller inside the device goes through a session of its own, with the frames that are handled
and the clock readings of their steps. -/

omit totpCustom in
theorem onFrame_actuator {totpCustom : TotpCustom} {α β : Type} [Actuator α] [Actuator β]
    {controller controller' : LockController} {frame : Frame} {now : UInt64} {a a' : α}
    {outcome : Outcome} (h : controller.onFrame totpCustom frame now a =
      some (controller', a', outcome)) (b : β) :
    ∃ b', controller.onFrame totpCustom frame now b = some (controller', b', outcome) := by
  unfold LockController.onFrame at h ⊢
  split at h
  · cases h
    exact ⟨b, rfl⟩
  · obtain ⟨⟨entry, submission⟩, hpush, h⟩ := Option.bind_eq_some_iff.mp h
    simp only [hpush, Option.bind_eq_bind, Option.bind_some] at h ⊢
    cases submission with
    | pending =>
        cases h
        exact ⟨b, rfl⟩
    | ready code =>
        obtain ⟨accepted, haccepted, h⟩ := Option.bind_eq_some_iff.mp h
        simp only [haccepted, Option.bind_some]
        cases accepted <;> cases h <;> exact ⟨_, rfl⟩

theorem controller_checkRelock (f : Firmware) (now : Nat) :
    (f.checkRelock now).controller = f.controller := by
  unfold Firmware.checkRelock
  split
  · split <;> rfl
  · rfl

/-- What `handleFrame` does to the controller is what a session does. -/
theorem session_of_handleFrame {f f' : Firmware} {it : Iteration} {bits : List Bool}
    {outcome : Option Outcome} (hbits : it.bits = some bits)
    (h : f.handleFrame totpCustom it = some (f', outcome))
    {s : Session (List ActuatorCall)} (hs : s.controller = f.controller) :
    ∃ s' answer, outcome = some answer ∧ s.step totpCustom ⟨bits, it.unixSeconds⟩ = some s' ∧
      s'.controller = f'.controller ∧ s'.outcomes = s.outcomes ++ [answer] := by
  unfold Firmware.handleFrame at h
  rw [hbits] at h
  obtain ⟨frame, hframe, h⟩ := Option.bind_eq_some_iff.mp h
  obtain ⟨⟨controller, actuator, answer⟩, hon, h⟩ := Option.bind_eq_some_iff.mp h
  obtain ⟨calls, hcalls⟩ := onFrame_actuator hon s.actuator
  refine ⟨⟨controller, calls, s.outcomes ++ [answer]⟩, answer, ?_, ?_, ?_, rfl⟩
  · cases answer <;> cases h <;> rfl
  · simp only [Session.step, hframe, hs, hcalls, Option.bind_eq_bind, Option.bind_some]
  · cases answer <;> cases h <;> rfl

/-- The session inside a run of the device, with the outcomes it met. -/
theorem session_of_run
    (hrun : run (step totpCustom) (start clock secret skewSteps) es = some d) :
    ∃ s : Session (List ActuatorCall),
      run (Session.step totpCustom) (Session.start secret skewSteps [])
        ((start clock secret skewSteps).bursts totpCustom es) = some s ∧
      s.controller = d.firmware.controller ∧
      s.outcomes = (start clock secret skewSteps).outcomes totpCustom es := by
  refine run_induction (P := fun es d => ∃ s : Session (List ActuatorCall),
      run (Session.step totpCustom) (Session.start secret skewSteps [])
        ((start clock secret skewSteps).bursts totpCustom es) = some s ∧
      s.controller = d.firmware.controller ∧
      s.outcomes = (start clock secret skewSteps).outcomes totpCustom es)
    ⟨_, rfl, rfl, rfl⟩ ?_ hrun
  intro es d e d' hrun ih hstep
  obtain ⟨s, hs, hcontroller, houtcomes⟩ := ih
  rw [bursts_snoc totpCustom e hrun, outcomes_snoc totpCustom e hrun]
  obtain ⟨line, time, rfl, rfl⟩ | ⟨now₀, now₁, capture', rfl, -, rfl⟩ |
    ⟨now, capture', frame, rfl, -, -, rfl⟩ | ⟨now, grantedAt, bits, firmware, outcome, rfl, hphase,
    hframe, rfl⟩ | ⟨now, rfl, -, rfl⟩ := step_cases totpCustom hstep
  · exact ⟨s, by simpa [burst?] using hs, hcontroller, by simpa [outcome?] using houtcomes⟩
  · exact ⟨s, by simpa [burst?] using hs, hcontroller, by simpa [outcome?] using houtcomes⟩
  · exact ⟨s, by simpa [burst?] using hs, hcontroller, by simpa [outcome?] using houtcomes⟩
  · obtain ⟨s', answer, rfl, hs', hcontroller', houtcomes'⟩ :=
      session_of_handleFrame totpCustom rfl hframe hcontroller
    refine ⟨s', ?_, hcontroller', ?_⟩
    · have hburst : d.burst? (.handle now grantedAt) = some ⟨bits, d.clock.unixSeconds now⟩ := by
        rw [burst?, hphase]
      rw [hburst, Option.toList_some, run_snoc_eq_some]
      exact ⟨s, hs, hs'⟩
    · have houtcome : d.outcome? totpCustom (.handle now grantedAt) = some answer := by
        simp only [outcome?, hphase, hframe, Option.bind_some]
      rw [houtcome, houtcomes', houtcomes]
      rfl
  · refine ⟨s, by simpa [burst?] using hs, ?_, by simpa [outcome?] using houtcomes⟩
    rw [hcontroller]
    exact (controller_checkRelock d.firmware now).symm

theorem clock_of_run (hrun : run (step totpCustom) (start clock secret skewSteps) es = some d) :
    d.clock = clock := by
  refine run_invariant (I := fun d : Device => d.clock = clock) ?_ rfl hrun
  intro d e d' hclock hstep
  obtain ⟨line, time, rfl, rfl⟩ | ⟨now₀, now₁, capture', rfl, -, rfl⟩ |
    ⟨now, capture', frame, rfl, -, -, rfl⟩ | ⟨now, grantedAt, bits, firmware, outcome, rfl, -, -,
    rfl⟩ | ⟨now, rfl, -, rfl⟩ := step_cases totpCustom hstep <;> exact hclock

/-! ## The entries of a run

What the controller, the console and the bolt see of a run is in its entries, in the same order. -/

theorem answer_of_handleFrame {f f' : Firmware} {it : Iteration} {bits : List Bool}
    {outcome : Option Outcome} (hbits : it.bits = some bits)
    (h : f.handleFrame totpCustom it = some (f', outcome)) : ∃ answer, outcome = some answer := by
  unfold Firmware.handleFrame at h
  rw [hbits] at h
  obtain ⟨frame, -, h⟩ := Option.bind_eq_some_iff.mp h
  obtain ⟨⟨controller, actuator, answer⟩, -, h⟩ := Option.bind_eq_some_iff.mp h
  refine ⟨answer, ?_⟩
  cases answer <;> cases h <;> rfl

/-- The views of one step. -/
theorem views_of_step (hclock : d.clock = clock) {e : Event} {d' : Device}
    (hstep : d.step totpCustom e = some d') :
    d.burst? e = (d.handled? totpCustom e).map (Handled.burst clock) ∧
      d.outcome? totpCustom e = (d.handled? totpCustom e).map Handled.outcome ∧
      d.grant? totpCustom e = (d.handled? totpCustom e).bind Handled.grant? := by
  obtain ⟨line, time, rfl, rfl⟩ | ⟨now₀, now₁, capture', rfl, -, rfl⟩ |
    ⟨now, capture', frame, rfl, -, -, rfl⟩ | ⟨now, grantedAt, bits, firmware, outcome, rfl, hphase,
    hframe, rfl⟩ | ⟨now, rfl, -, rfl⟩ := step_cases totpCustom hstep
  · exact ⟨rfl, rfl, rfl⟩
  · exact ⟨rfl, rfl, rfl⟩
  · exact ⟨rfl, rfl, rfl⟩
  · obtain ⟨answer, rfl⟩ := answer_of_handleFrame totpCustom rfl hframe
    have houtcome : d.outcome? totpCustom (.handle now grantedAt) = some answer := by
      simp only [outcome?, hphase, hframe, Option.bind_some]
    have hhandled : d.handled? totpCustom (.handle now grantedAt) =
        some ⟨bits, now, grantedAt, answer⟩ := by
      simp only [handled?, hphase, houtcome, Option.map_some]
    have hgrant : d.grant? totpCustom (.handle now grantedAt) =
        if some answer = some .unlocked then some grantedAt else none := by
      simp only [grant?, hphase]
      exact Firmware.grant?_eq totpCustom hframe
    rw [hhandled, houtcome, hgrant, burst?, hphase, hclock]
    refine ⟨rfl, rfl, ?_⟩
    simp [Handled.grant?]
  · exact ⟨rfl, rfl, rfl⟩

/-- The views of a whole run. -/
theorem views_of_run (hrun : run (step totpCustom) (start clock secret skewSteps) es = some d) :
    let entries := (start clock secret skewSteps).handled totpCustom es
    (start clock secret skewSteps).bursts totpCustom es = entries.map (Handled.burst clock) ∧
      (start clock secret skewSteps).outcomes totpCustom es = entries.map Handled.outcome ∧
      (start clock secret skewSteps).grants totpCustom es = entries.filterMap Handled.grant? := by
  refine run_induction (P := fun es _ =>
    (start clock secret skewSteps).bursts totpCustom es =
        ((start clock secret skewSteps).handled totpCustom es).map (Handled.burst clock) ∧
      (start clock secret skewSteps).outcomes totpCustom es =
        ((start clock secret skewSteps).handled totpCustom es).map Handled.outcome ∧
      (start clock secret skewSteps).grants totpCustom es =
        ((start clock secret skewSteps).handled totpCustom es).filterMap Handled.grant?)
    ⟨rfl, rfl, rfl⟩ ?_ hrun
  intro es d e d' hrun ih hstep
  obtain ⟨hbursts, houtcomes, hgrants⟩ := ih
  obtain ⟨hburst, houtcome, hgrant⟩ := views_of_step totpCustom (clock_of_run totpCustom hrun) hstep
  rw [bursts_snoc totpCustom e hrun, outcomes_snoc totpCustom e hrun, grants_snoc totpCustom e hrun,
    handled_snoc totpCustom e hrun, hbursts, houtcomes, hgrants, hburst, houtcome, hgrant,
    List.map_append, List.map_append, List.filterMap_append]
  cases d.handled? totpCustom e with
  | none => exact ⟨rfl, rfl, rfl⟩
  | some x =>
      refine ⟨rfl, rfl, ?_⟩
      cases hx : x.grant? <;> simp [hx]

/-- Where in the run an entry was made. -/
theorem split_of_handled
    (hrun : run (step totpCustom) (start clock secret skewSteps) es = some d)
    {earlier later : List Handled} {x : Handled}
    (h : (start clock secret skewSteps).handled totpCustom es = earlier ++ x :: later) :
    ∃ before after t, es = before ++ .handle x.handledAt x.grantedAt :: after ∧
      run (step totpCustom) (start clock secret skewSteps) before = some t ∧
      (start clock secret skewSteps).handled totpCustom before = earlier ∧
      t.handled? totpCustom (.handle x.handledAt x.grantedAt) = some x := by
  obtain ⟨before, e, after, t, hes, ht, hx, hearlier⟩ := observe_eq_append_cons hrun h
  cases e with
  | edge _ _ | interrupt _ _ | poll _ | check _ => cases hx
  | handle now grantedAt =>
      have hsame : x.handledAt = now ∧ x.grantedAt = grantedAt := by
        simp only [handled?] at hx
        split at hx
        · obtain ⟨outcome, -, rfl⟩ := Option.map_eq_some_iff.mp hx
          exact ⟨rfl, rfl⟩
        · cases hx
      rw [hsame.1, hsame.2]
      exact ⟨before, after, t, hes, ht, hearlier, hx⟩

/-! ## The bolt

The firmware inside the device keeps track of the bolt as in `Firmware`; a run of the loop is now
taken apart into its steps. -/

/-- `Grounded`, in every run of the device. -/
theorem grounded_of_run
    (hrun : run (step totpCustom) (start clock secret skewSteps) es = some d) :
    d.firmware.Typing ∧
      d.firmware.Grounded ((start clock secret skewSteps).grants totpCustom es) := by
  refine run_induction (P := fun es d => d.firmware.Typing ∧
    d.firmware.Grounded ((start clock secret skewSteps).grants totpCustom es)) ?_ ?_ hrun
  · exact ⟨⟨[], PinEntry.Holds.new⟩, ⟨by simp [start, Firmware.start],
      by simp [start, Firmware.start]⟩⟩
  · intro es d e d' hrun ih hstep
    obtain ⟨htyping, hgrounded⟩ := ih
    rw [grants_snoc totpCustom e hrun]
    obtain ⟨line, time, rfl, rfl⟩ | ⟨now₀, now₁, capture', rfl, -, rfl⟩ |
      ⟨now, capture', frame, rfl, -, -, rfl⟩ | ⟨now, grantedAt, bits, firmware, outcome, rfl,
      hphase, hframe, rfl⟩ | ⟨now, rfl, -, rfl⟩ := step_cases totpCustom hstep
    · simpa [grant?] using And.intro htyping hgrounded
    · simpa [grant?] using And.intro htyping hgrounded
    · simpa [grant?] using And.intro htyping hgrounded
    · obtain ⟨mid, answer, hframe', htyping', hgrant, hsame⟩ :=
        Firmware.handleFrame_spec totpCustom htyping (d.iteration bits now grantedAt)
      rw [hframe] at hframe'
      cases hframe'
      refine ⟨htyping', ?_⟩
      have hgrant? : d.grant? totpCustom (.handle now grantedAt) =
          d.firmware.grant? totpCustom (d.iteration bits now grantedAt) := by
        rw [grant?, hphase]
      rw [hgrant?]
      exact hgrounded.handleFrame totpCustom hgrant hsame hframe
    · have hnone : d.grant? totpCustom (.check now) = none := rfl
      rw [hnone, Option.toList_none, List.append_nil]
      refine ⟨?_, (hgrounded.checkRelock now).1⟩
      rw [Firmware.Typing, controller_checkRelock]
      exact htyping

/-! ## From the wires to the bolt

The capture and the controller put together. A frame in hand comes from a group of pulses, and an
entry of the loop from a frame in hand. -/

/-- Whose turn it is; edges and interrupts come at any time. -/
def Phase.Awaits : Phase → Event → Prop
  | .polling, .poll _     => True
  | .taken _, .handle _ _ => True
  | .checking, .check _   => True
  | _, .edge _ _          => True
  | _, .interrupt _ _     => True
  | _, _                  => False

/-- A step in its turn is never stuck. -/
theorem step_of_awaits (hrun : run (step totpCustom) (start clock secret skewSteps) es = some d)
    (hsorted : (readings ((start clock secret skewSteps).captureEvents totpCustom es)).Pairwise
      (· ≤ ·)) {e : Event} (hturn : Phase.Awaits d.phase e)
    (hlater : ∀ now, e = .poll now → ∀ t ∈ readings
      ((start clock secret skewSteps).captureEvents totpCustom es), t ≤ now) :
    ∃ d', d.step totpCustom e = some d' := by
  obtain ⟨d0, d1, state, hpending, hcapture⟩ := capture_of_run totpCustom hrun
  obtain ⟨state', hcapture', hholds, -⟩ := run_holds hsorted
  rw [hcapture] at hcapture'
  cases hcapture'
  cases e with
  | edge line time => exact ⟨_, rfl⟩
  | interrupt now₀ now₁ =>
      obtain ⟨after, hafter, -⟩ := hholds.interrupt hpending.quiet d0 d1 now₀ now₁
      have hhandler : onGpioInterrupt now₀ now₁ d.capture = some (some after) := by
        rw [hpending.latch_eq]
        exact hafter
      exact ⟨{ d with capture := some after }, by rw [step, hhandler]; rfl⟩
  | poll now =>
      have hphase : d.phase = .polling := by
        cases hp : d.phase <;> rw [hp] at hturn <;> first | rfl | exact hturn.elim
      have horder : ∀ p ∈ pulses ((start clock secret skewSteps).captureEvents totpCustom es),
          p.time ≤ now := by
        intro p hp
        exact hlater now rfl _ (mem_readings_of_pulse _ p hp).1
      obtain ⟨after, hafter, -⟩ := hholds.poll hpending.quiet horder
      obtain ⟨⟨rest, frame⟩, htake, -⟩ := Option.map_eq_some_iff.mp hafter
      have hpoll : takeCompletedFrame now d.capture = some (rest.latch d0 d1, frame) := by
        rw [hpending.latch_eq, takeCompletedFrame_latch, htake]
        rfl
      simp only [step, hphase, hpoll, Option.bind_eq_bind, Option.bind_some]
      exact ⟨_, rfl⟩
  | handle now grantedAt =>
      obtain ⟨bits, hphase⟩ : ∃ bits, d.phase = .taken bits := by
        cases hp : d.phase with
        | taken bits => exact ⟨bits, rfl⟩
        | polling | checking =>
            rw [hp] at hturn
            exact hturn.elim
      obtain ⟨mid, outcome, hframe, -⟩ := Firmware.handleFrame_spec totpCustom
        (grounded_of_run totpCustom hrun).1 (d.iteration bits now grantedAt)
      simp only [step, hphase, hframe, Option.bind_eq_bind, Option.bind_some]
      exact ⟨_, rfl⟩
  | check now =>
      have hphase : d.phase = .checking := by
        cases hp : d.phase <;> rw [hp] at hturn <;> first | rfl | exact hturn.elim
      simp only [step, hphase]
      exact ⟨_, rfl⟩

/-- Frames handled, in hand and in the buffer are the groups of pulses. -/
theorem handed_groups (hrun : run (step totpCustom) (start clock secret skewSteps) es = some d)
    (hsorted : (readings ((start clock secret skewSteps).captureEvents totpCustom es)).Pairwise
      (· ≤ ·)) :
    ∃ state, d.capture = some state ∧
      ((start clock secret skewSteps).bursts totpCustom es).map Burst.bits ++ d.phase.inHand ++
          buffered state =
        (groups ((start clock secret skewSteps).captureEvents totpCustom es)).map frameOf := by
  obtain ⟨d0, d1, state, hpending, hcapture⟩ := capture_of_run totpCustom hrun
  obtain ⟨state', hcapture', hholds, -⟩ := run_holds hsorted
  rw [hcapture] at hcapture'
  cases hcapture'
  refine ⟨_, hpending.eq_some, ?_⟩
  rw [handed_of_run totpCustom hrun]
  exact hholds.groups_eq

/-- Each frame is answered as its predecessors decide. -/
theorem outcomes_of_run
    (hrun : run (step totpCustom) (start clock secret skewSteps) es = some d) :
    ((start clock secret skewSteps).outcomes totpCustom es).length =
      ((start clock secret skewSteps).bursts totpCustom es).length ∧
    ∀ pre b post, (start clock secret skewSteps).bursts totpCustom es = pre ++ b :: post →
      ((start clock secret skewSteps).outcomes totpCustom es)[pre.length]? =
        some (burstOutcome totpCustom secret skewSteps pre b) := by
  obtain ⟨s, hs, -, houtcomes⟩ := session_of_run totpCustom hrun
  obtain ⟨s', hs', -, hlen, hout⟩ := Session.run_sound totpCustom secret skewSteps
    ([] : List ActuatorCall) ((start clock secret skewSteps).bursts totpCustom es)
  rw [hs] at hs'
  cases hs'
  rw [houtcomes] at hlen hout
  exact ⟨hlen, hout⟩

/-- The answer in an entry, from the entries before it. -/
theorem outcome_of_handled
    (hrun : run (step totpCustom) (start clock secret skewSteps) es = some d)
    {earlier later : List Handled} {x : Handled}
    (h : (start clock secret skewSteps).handled totpCustom es = earlier ++ x :: later) :
    x.outcome = burstOutcome totpCustom secret skewSteps (earlier.map (Handled.burst clock))
      (x.burst clock) := by
  obtain ⟨hbursts, houtcomes, -⟩ := views_of_run totpCustom hrun
  obtain ⟨-, hanswers⟩ := outcomes_of_run totpCustom hrun
  rw [h, List.map_append, List.map_cons] at hbursts houtcomes
  have hanswer := hanswers _ _ _ hbursts
  rw [houtcomes, List.length_map, List.getElem?_append_right (by rw [List.length_map]),
    List.length_map, Nat.sub_self, List.getElem?_cons_zero, Option.some.injEq] at hanswer
  exact hanswer

/-- **From the wires to the controller.** In every run of the device, however handler and loop are
interleaved: no step in its turn is ever stuck (no buffer overflows, no index is out of range); the
frames handed to the controller, the one in hand and the bits in the buffer are the groups of
pulses on the wires, in order, none lost and none twice; and each is answered as its predecessors
decide. The clock is the exception: the sum in `SystemClock.unixSeconds` wraps, as in the release
image, where a build with overflow checks panics. -/
theorem pipeline (hrun : run (step totpCustom) (start clock secret skewSteps) es = some d)
    (hsorted : (readings ((start clock secret skewSteps).captureEvents totpCustom es)).Pairwise
      (· ≤ ·)) :
    (∀ e, Phase.Awaits d.phase e →
      (∀ now, e = .poll now → ∀ t ∈ readings
        ((start clock secret skewSteps).captureEvents totpCustom es), t ≤ now) →
      ∃ d', d.step totpCustom e = some d') ∧
    (∃ state, d.capture = some state ∧
      ((start clock secret skewSteps).bursts totpCustom es).map Burst.bits ++ d.phase.inHand ++
          buffered state =
        (groups ((start clock secret skewSteps).captureEvents totpCustom es)).map frameOf) ∧
    ((start clock secret skewSteps).outcomes totpCustom es).length =
      ((start clock secret skewSteps).bursts totpCustom es).length ∧
    ∀ pre b post, (start clock secret skewSteps).bursts totpCustom es = pre ++ b :: post →
      ((start clock secret skewSteps).outcomes totpCustom es)[pre.length]? =
        some (burstOutcome totpCustom secret skewSteps pre b) := by
  exact ⟨fun e => step_of_awaits totpCustom hrun hsorted, handed_groups totpCustom hrun hsorted,
    outcomes_of_run totpCustom hrun⟩

omit totpCustom in
/-- What unlocks is an `Enter` after a matching code. -/
theorem eq_enter_of_unlocked {totpCustom : TotpCustom} {secret : List UInt8} {skewSteps : UInt8}
    {pre : List Burst} {b : Burst}
    (h : burstOutcome totpCustom secret skewSteps pre b = .unlocked) :
    decodeFrame b.bits = some .enter ∧ 0 < (typedDigits (framesOf pre)).length ∧
      pinLen ∣ (typedDigits (framesOf pre)).length ∧
      totpMatches totpCustom secret (PinEntry.lastSix (typedDigits (framesOf pre))) b.now
        skewSteps = some true := by
  unfold burstOutcome at h
  split at h
  · next frame hframe =>
      cases frame with
      | enter =>
          simp only [frameOutcome, enterOutcome] at h
          split at h
          · next hfull =>
              split at h
              · next haccepts => exact ⟨hframe, hfull.1, hfull.2, haccepts⟩
              · cases h
          · cases h
      | digit _ | cancel | card _ _ | unrecognized _ => cases h
  · cases h

/-- A grant is in the entry of a frame that was answered with `Unlocked`. -/
theorem source_of_grant (hrun : run (step totpCustom) (start clock secret skewSteps) es = some d)
    {g : Nat} (hg : g ∈ (start clock secret skewSteps).grants totpCustom es) :
    ∃ earlier x later,
      (start clock secret skewSteps).handled totpCustom es = earlier ++ x :: later ∧
      x.outcome = .unlocked ∧ x.grantedAt = g := by
  obtain ⟨-, -, hgrants⟩ := views_of_run totpCustom hrun
  rw [hgrants] at hg
  obtain ⟨x, hx, hgrant⟩ := List.mem_filterMap.mp hg
  obtain ⟨earlier, later, hsplit⟩ := List.append_of_mem hx
  unfold Handled.grant? at hgrant
  split at hgrant
  · next hunlocked =>
      cases hgrant
      exact ⟨earlier, x, later, hsplit, hunlocked, rfl⟩
  · cases hgrant

omit totpCustom in
theorem framesOf_map_burst (clock : SystemClock) (entries : List Handled) :
    framesOf (entries.map (Handled.burst clock)) =
      (entries.map Handled.bits).filterMap decodeFrame := by
  rw [framesOf, List.filterMap_map, List.filterMap_map]
  rfl

/-- **Only a code on the wires releases the bolt.** If, at the end of a pass of the loop, the relay
is high, then among the frames that were handled there is an `Enter` that was answered with
`Unlocked`, less than `UNLOCK_DURATION` before this pass looked at the time. It and the frames
handled before it are, in this order, the first groups of pulses on the wires; the digits among
them, back to the last `Enter` or `Cancel`, come in sixes and end in a code that matched at the
clock reading at which this very `Enter` was handled. -/
theorem released_by_pulses {now : Nat}
    (hrun : run (step totpCustom) (start clock secret skewSteps) (es ++ [.check now]) = some d)
    (hsorted : (readings ((start clock secret skewSteps).captureEvents totpCustom es)).Pairwise
      (· ≤ ·)) (hhigh : d.firmware.actuator.relay = .high) :
    ∃ earlier enter later,
      (start clock secret skewSteps).handled totpCustom es = earlier ++ enter :: later ∧
      decodeFrame enter.bits = some .enter ∧ enter.outcome = .unlocked ∧
      now < enter.grantedAt + unlockDuration ∧
      (∃ rest, (groups ((start clock secret skewSteps).captureEvents totpCustom es)).map frameOf =
        earlier.map Handled.bits ++ enter.bits :: rest) ∧
      let ds := typedDigits ((earlier.map Handled.bits).filterMap decodeFrame)
      0 < ds.length ∧ pinLen ∣ ds.length ∧
        totpMatches totpCustom secret (PinEntry.lastSix ds) (clock.unixSeconds enter.handledAt)
          skewSteps = some true := by
  obtain ⟨mid, hmid, hcheck⟩ := run_snoc_eq_some.mp hrun
  obtain ⟨-, hgrounded⟩ := grounded_of_run totpCustom hmid
  obtain ⟨hend, hahead⟩ := hgrounded.checkRelock now
  have hfirmware : d.firmware = mid.firmware.checkRelock now := by
    simp only [step] at hcheck
    split at hcheck
    · cases hcheck
      rfl
    · cases hcheck
  rw [hfirmware] at hhigh
  obtain ⟨deadline, hdeadline⟩ := Option.isSome_iff_exists.mp (hend.relay.mp hhigh)
  obtain ⟨g, hg, rfl⟩ := hend.deadline deadline hdeadline
  obtain ⟨earlier, enter, later, hentries, hunlocked, rfl⟩ :=
    source_of_grant totpCustom hmid (List.mem_of_getLast? hg)
  have hanswer := outcome_of_handled totpCustom hmid hentries
  obtain ⟨henter, hpos, hsix, haccepts⟩ := eq_enter_of_unlocked (hanswer.symm.trans hunlocked)
  rw [framesOf_map_burst] at hpos hsix haccepts
  obtain ⟨state, -, hgroups⟩ := handed_groups totpCustom hmid hsorted
  obtain ⟨hbursts, -, -⟩ := views_of_run totpCustom hmid
  refine ⟨earlier, enter, later, hentries, henter, hunlocked, hahead _ hdeadline, ?_, hpos, hsix,
    haccepts⟩
  refine ⟨later.map Handled.bits ++ mid.phase.inHand ++ buffered state, ?_⟩
  have hbits : ((start clock secret skewSteps).bursts totpCustom es).map Burst.bits =
      (earlier ++ enter :: later).map Handled.bits := by
    rw [hbursts, hentries, List.map_map]
    rfl
  rw [← hgroups, hbits]
  simp

end Runs

/-! ### The code of the RFC 6238 vector, typed 30 s too early -/

/-- A pass of the loop every 4 ms, from `t` on, `n` times; the frame is in hand in pass `taking`. -/
def passes (t n taking : Nat) : List Event :=
  (List.range n).flatMap fun i =>
    if i = taking then [.poll (t + 4000 * i), .handle (t + 4000 * i + 100) (t + 4000 * i + 900),
      .check (t + 4000 * i + 1000)]
    else [.poll (t + 4000 * i), .check (t + 4000 * i + 10)]

/-- A keypress that begins at `t`, and the passes until the next one. The loop polls twice while the
key is still being sent, and too early six more times. -/
def keypress (code t : Nat) : List Event :=
  ((nibbleBits code).zipIdx.flatMap fun (bit, i) =>
    [Event.edge bit (t + 2000 * i), .interrupt (t + 2000 * i + 3) (t + 2000 * i + 4)] ++
      if i % 2 = 0 then passes (t + 2000 * i + 1000) 1 1 else []) ++
  passes (t + 9000) 10 6

def earlyCode : List Event :=
  [2, 8, 7, 0, 8, 2, 11].zipIdx.flatMap fun (code, i) => keypress code (500000 + 48000 * i)

theorem pipeline_earlyCode :
    ∃ d, run (step vectorTotpCustom) (start ⟨0⟩ vectorSecret 1) earlyCode = some d ∧
      ∃ state, d.capture = some state ∧
        ((start ⟨0⟩ vectorSecret 1).bursts vectorTotpCustom earlyCode).map Burst.bits ++
            d.phase.inHand ++ buffered state =
          (groups ((start ⟨0⟩ vectorSecret 1).captureEvents vectorTotpCustom earlyCode)).map
            frameOf := by
  have hsome : (run (step vectorTotpCustom) (start ⟨0⟩ vectorSecret 1) earlyCode).isSome := by
    decide +kernel
  obtain ⟨d, hrun⟩ := Option.isSome_iff_exists.mp hsome
  exact ⟨d, hrun, (pipeline vectorTotpCustom hrun (by decide +kernel)).2.1⟩

theorem released_by_pulses_earlyCode :
    ∃ earlier enter later, (start ⟨0⟩ vectorSecret 1).handled vectorTotpCustom
        (earlyCode ++ [.poll 837000]) = earlier ++ enter :: later ∧
      decodeFrame enter.bits = some .enter ∧ 837010 < enter.grantedAt + unlockDuration := by
  have hsome : (run (step vectorTotpCustom) (start ⟨0⟩ vectorSecret 1)
      ((earlyCode ++ [.poll 837000]) ++ [.check 837010])).map (·.firmware.actuator.relay) =
        some .high := by
    decide +kernel
  obtain ⟨d, hrun, hhigh⟩ := Option.map_eq_some_iff.mp hsome
  obtain ⟨earlier, enter, later, hentries, henter, -, hahead, -⟩ :=
    released_by_pulses vectorTotpCustom hrun (by decide +kernel) hhigh
  exact ⟨earlier, enter, later, hentries, henter, hahead⟩

end Device

end Urheilulaatikko.Lock
