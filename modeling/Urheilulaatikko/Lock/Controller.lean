import Urheilulaatikko.Lib.Trace
import Urheilulaatikko.Lock.Wiegand
import Urheilulaatikko.Lock.Totp

/-!
# The lock controller, over whole runs

`lock.rs` of the lock: the only place that decides what a correct code is. A run feeds the
controller any number of bursts, each with its own clock reading.

The controller keeps six bytes and a length; what it decides, though, is best said in terms of the
whole history of frames. `typedDigits` is that history's digits since the last `Enter` or `Cancel`,
`Session.Sound` says that the buffer stands for them, and `unlock_exact` reads off the outcome of
every burst of every run.
-/

namespace Urheilulaatikko.Lock

open Machine Trace

/-- `trait Actuator`. -/
class Actuator (α : Type) where
  unlock : α → α
  lock   : α → α

inductive Outcome where
  | waiting
  | unlocked
  | rejected
  deriving DecidableEq, Repr

structure LockController where
  secret    : List UInt8
  skewSteps : UInt8
  entry     : PinEntry

/-- The key a frame stands for; card reads and noise stand for none. -/
def Frame.key? : Frame → Option Key
  | .digit d => some (.digit d)
  | .cancel  => some .cancel
  | .enter   => some .enter
  | .card _ _ | .unrecognized _ => none

namespace LockController

def new (secret : List UInt8) (skewSteps : UInt8) : LockController where
  secret    := secret
  skewSteps := skewSteps
  entry     := PinEntry.new

variable (totpCustom : TotpCustom) {α : Type} [Actuator α]

/-- `on_frame`, with `now` what the clock reads if it is read at all. `none`: an index out of range
or an arithmetic overflow. -/
def onFrame (controller : LockController) (frame : Frame) (now : UInt64) (actuator : α) :
    Option (LockController × α × Outcome) :=
  match frame.key? with
  | none => some (controller, actuator, .waiting)
  | some key => do
      let (entry, submission) ← controller.entry.push key
      let controller := { controller with entry }
      match submission with
      | .pending => some (controller, actuator, .waiting)
      | .ready code =>
          let accepted ← totpMatches totpCustom controller.secret code now controller.skewSteps
          if accepted then some (controller, Actuator.unlock actuator, .unlocked)
          else some (controller, actuator, .rejected)

end LockController

/-! ## Runs

A session records the outcomes, and the calls that the actuator receives if it is one that keeps
record. -/

/-- A completed burst of bits, and what the clock reads when it is handled. -/
structure Burst where
  bits : List Bool
  now  : UInt64

/-- A controller at work on an actuator, with the outcomes so far. -/
structure Session (α : Type) where
  controller : LockController
  actuator   : α
  outcomes   : List Outcome

/-- One burst through `decode_frame` and `on_frame`. -/
def Session.step (totpCustom : TotpCustom) {α : Type} [Actuator α] (s : Session α) (b : Burst) :
    Option (Session α) := do
  let frame ← decodeFrame b.bits
  let (controller, actuator, outcome) ← s.controller.onFrame totpCustom frame b.now s.actuator
  some { controller, actuator, outcomes := s.outcomes ++ [outcome] }

def Session.start {α : Type} (secret : List UInt8) (skewSteps : UInt8) (actuator : α) :
    Session α where
  controller := LockController.new secret skewSteps
  actuator   := actuator
  outcomes   := []

/-- The calls an actuator receives. -/
inductive ActuatorCall where
  | unlock
  | lock
  deriving DecidableEq, Repr

/-- The actuator that only keeps record. -/
instance : Actuator (List ActuatorCall) where
  unlock calls := calls ++ [.unlock]
  lock calls   := calls ++ [.lock]

/-! ## The history of frames

The specification: what the buffer should hold after a list of frames, without looking at the
buffer. -/

def framesOf (bursts : List Burst) : List Frame := bursts.filterMap fun b => decodeFrame b.bits

/-- `Enter` and `Cancel` end an entry. -/
def Frame.isReset : Frame → Bool
  | .enter | .cancel => true
  | _ => false

def Frame.digit? : Frame → Option UInt8
  | .digit d => some d
  | _ => none

/-- The digits since the most recent `Enter` or `Cancel`, in the order they were typed. -/
def typedDigits (frames : List Frame) : List UInt8 :=
  (frames.reverse.takeWhile (!·.isReset)).reverse.filterMap Frame.digit?

theorem typedDigits_snoc (frames : List Frame) (frame : Frame) :
    typedDigits (frames ++ [frame]) =
      if frame.isReset then [] else typedDigits frames ++ frame.digit?.toList := by
  unfold typedDigits
  rw [List.reverse_append, List.reverse_singleton, List.singleton_append, List.takeWhile_cons]
  cases frame <;> simp [Frame.isReset, Frame.digit?]

theorem typedDigits_append_digits (frames : List Frame) (ds : List UInt8) :
    typedDigits (frames ++ ds.map .digit) = typedDigits frames ++ ds := by
  induction ds using List.reverseRecOn with
  | nil => simp
  | append_singleton ds d ih =>
      rw [List.map_append, List.map_singleton, ← List.append_assoc, typedDigits_snoc, ih]
      simp [Frame.isReset, Frame.digit?]

/-- What the code at the end of the digits `ds` is worth at time `now`: the outcome of an `Enter`
there. -/
def enterOutcome (totpCustom : TotpCustom) (secret : List UInt8) (skewSteps : UInt8)
    (ds : List UInt8) (now : UInt64) : Outcome :=
  if 0 < ds.length ∧ pinLen ∣ ds.length then
    if totpMatches totpCustom secret (PinEntry.lastSix ds) now skewSteps = some true then .unlocked
    else .rejected
  else .waiting

/-- The outcome of a frame after the digits `ds`. -/
def frameOutcome (totpCustom : TotpCustom) (secret : List UInt8) (skewSteps : UInt8)
    (ds : List UInt8) (now : UInt64) : Frame → Outcome
  | .enter => enterOutcome totpCustom secret skewSteps ds now
  | _ => .waiting

/-! ## One frame

What `on_frame` does with a frame is what the history says. -/

section OnFrame

variable (totpCustom : TotpCustom) {α : Type} [Actuator α]

/-- **One frame.** A controller whose buffer stands for `ds` handles any frame without failing, with
the outcome the history decides; it touches the actuator only to unlock it, and its buffer then
stands for the longer history. -/
theorem LockController.onFrame_eq {controller : LockController} {frames : List Frame}
    (h : controller.entry.Holds (typedDigits frames)) (frame : Frame) (now : UInt64)
    (actuator : α) :
    ∃ entry, entry.Holds (typedDigits (frames ++ [frame])) ∧
      controller.onFrame totpCustom frame now actuator =
        some ({ controller with entry },
          if frameOutcome totpCustom controller.secret controller.skewSteps (typedDigits frames)
            now frame = .unlocked then Actuator.unlock actuator else actuator,
          frameOutcome totpCustom controller.secret controller.skewSteps (typedDigits frames)
            now frame) := by
  rw [typedDigits_snoc]
  cases frame with
  | digit d =>
      obtain ⟨entry, hpush, hholds⟩ := PinEntry.push_digit h d
      refine ⟨entry, hholds, ?_⟩
      simp [LockController.onFrame, Frame.key?, hpush, frameOutcome]
  | cancel =>
      refine ⟨PinEntry.new, PinEntry.Holds.new, ?_⟩
      simp [LockController.onFrame, Frame.key?, PinEntry.push_cancel, frameOutcome]
  | enter =>
      -- the buffer is cleared whether it submits or not
      refine ⟨PinEntry.new, PinEntry.Holds.new, ?_⟩
      simp only [LockController.onFrame, Frame.key?, PinEntry.push_enter h, frameOutcome,
        enterOutcome, Option.bind_eq_bind, Option.bind_some]
      by_cases hfull : 0 < (typedDigits frames).length ∧ pinLen ∣ (typedDigits frames).length
      · simp only [if_pos hfull]
        obtain ⟨b, hb, -⟩ := totpMatches_spec totpCustom controller.secret
          (PinEntry.lastSix (typedDigits frames)) now controller.skewSteps
        cases b <;> simp [hb]
      · simp [if_neg hfull]
  | card facilityCode cardNumber =>
      exact ⟨controller.entry, by simpa [Frame.isReset, Frame.digit?] using h, rfl⟩
  | unrecognized bitCount =>
      exact ⟨controller.entry, by simpa [Frame.isReset, Frame.digit?] using h, rfl⟩

/-! ## Every run

The buffer stands for the history after every burst, so the outcome of a burst is decided by the
ones before it. -/

/-- The outcome of a burst after the bursts `earlier`. -/
def burstOutcome (secret : List UInt8) (skewSteps : UInt8) (earlier : List Burst) (b : Burst) :
    Outcome :=
  match decodeFrame b.bits with
  | some frame =>
      frameOutcome totpCustom secret skewSteps (typedDigits (framesOf earlier)) b.now frame
  | none => .waiting

/-- The controller is the one the session started with, and its buffer stands for the history. -/
structure Session.Sound (secret : List UInt8) (skewSteps : UInt8) (bursts : List Burst)
    (s : Session α) : Prop where
  secret    : s.controller.secret = secret
  skewSteps : s.controller.skewSteps = skewSteps
  holds     : s.controller.entry.Holds (typedDigits (framesOf bursts))

/-- **One burst**: it is handled without failing, with the outcome the history decides. -/
theorem Session.Sound.step {secret : List UInt8} {skewSteps : UInt8} {bursts : List Burst}
    {s : Session α} (h : s.Sound secret skewSteps bursts) (b : Burst) :
    ∃ s', s.step totpCustom b = some s' ∧ s'.Sound secret skewSteps (bursts ++ [b]) ∧
      s'.outcomes = s.outcomes ++ [burstOutcome totpCustom secret skewSteps bursts b] ∧
      s'.actuator = if burstOutcome totpCustom secret skewSteps bursts b = .unlocked
        then Actuator.unlock s.actuator else s.actuator := by
  obtain ⟨frame, hframe⟩ := decodeFrame_eq_some b.bits
  have hframes : framesOf (bursts ++ [b]) = framesOf bursts ++ [frame] := by
    simp [framesOf, hframe]
  obtain ⟨entry, hholds, hon⟩ :=
    LockController.onFrame_eq totpCustom h.holds frame b.now s.actuator
  rw [h.secret, h.skewSteps] at hon
  have hout : burstOutcome totpCustom secret skewSteps bursts b =
      frameOutcome totpCustom secret skewSteps (typedDigits (framesOf bursts)) b.now frame := by
    simp only [burstOutcome, hframe]
  rw [← hout] at hon
  refine ⟨{ controller := { secret, skewSteps, entry }
            actuator := if burstOutcome totpCustom secret skewSteps bursts b = .unlocked
              then Actuator.unlock s.actuator else s.actuator
            outcomes := s.outcomes ++ [burstOutcome totpCustom secret skewSteps bursts b] },
    ?_, ⟨rfl, rfl, by rw [hframes]; exact hholds⟩, rfl, rfl⟩
  simp only [Session.step, hframe, hon, Option.bind_eq_bind, Option.bind_some]

omit [Actuator α] in
theorem Session.Sound.start (secret : List UInt8) (skewSteps : UInt8) (actuator : α) :
    (Session.start secret skewSteps actuator).Sound secret skewSteps [] :=
  ⟨rfl, rfl, PinEntry.Holds.new⟩

/-- **Every run goes through**, and keeps the controller in step with its history. -/
theorem Session.run_sound (secret : List UInt8) (skewSteps : UInt8) (actuator : α)
    (bursts : List Burst) :
    ∃ s, run (Session.step totpCustom) (Session.start secret skewSteps actuator) bursts = some s ∧
      s.Sound secret skewSteps bursts ∧ s.outcomes.length = bursts.length ∧
      ∀ pre b post, bursts = pre ++ b :: post →
        s.outcomes[pre.length]? = some (burstOutcome totpCustom secret skewSteps pre b) := by
  induction bursts using List.reverseRecOn with
  | nil =>
      refine ⟨_, rfl, Session.Sound.start secret skewSteps actuator, rfl, ?_⟩
      intro pre b post h
      simp at h
  | append_singleton bursts b ih =>
      obtain ⟨s, hrun, hsound, hlen, hout⟩ := ih
      obtain ⟨s', hstep, hsound', hout', -⟩ := hsound.step totpCustom b
      refine ⟨s', run_snoc_eq_some.mpr ⟨s, hrun, hstep⟩, hsound', ?_, ?_⟩
      · rw [hout', List.length_append, List.length_append, hlen]
        rfl
      · intro pre c post hsplit
        rw [hout']
        obtain ⟨rfl, rfl, rfl⟩ | ⟨post, rfl, rfl⟩ := snoc_eq_append_cons hsplit
        · rw [← hlen]
          simp
        · have hlt : pre.length < s.outcomes.length := by
            rw [hlen]
            simp
          rw [List.getElem?_append_left hlt]
          exact hout pre c post rfl

/-- Some digits and then `Enter`, from any state a run reaches: the outcome is decided by these
digits and those already typed. -/
theorem Session.run_digits_enter {secret : List UInt8} {skewSteps : UInt8} {actuator : α}
    {bursts typed : List Burst} {enter : Burst} {ds : List UInt8} {s : Session α}
    (hrun : run (Session.step totpCustom) (Session.start secret skewSteps actuator) bursts = some s)
    (htyped : typed.map (fun b => decodeFrame b.bits) = ds.map fun d => some (.digit d))
    (henter : decodeFrame enter.bits = some .enter) :
    ∃ s', run (Session.step totpCustom) s (typed ++ [enter]) = some s' ∧
      s'.outcomes.getLast? = some (enterOutcome totpCustom secret skewSteps
        (typedDigits (framesOf bursts) ++ ds) enter.now) := by
  obtain ⟨s', hrun', -, hlen, hout⟩ := Session.run_sound totpCustom secret skewSteps actuator
    (bursts ++ (typed ++ [enter]))
  obtain ⟨t, ht, hs'⟩ := run_append_eq_some.mp hrun'
  rw [hrun] at ht
  cases ht
  refine ⟨s', hs', ?_⟩
  have hframes : framesOf typed = ds.map .digit := by
    have hmap : framesOf typed = (typed.map fun b => decodeFrame b.bits).filterMap id := by
      simp [framesOf, List.filterMap_map]
    rw [hmap, htyped]
    simp [List.filterMap_map]
  have hdigits : typedDigits (framesOf (bursts ++ typed)) =
      typedDigits (framesOf bursts) ++ ds := by
    rw [← typedDigits_append_digits, ← hframes]
    simp [framesOf]
  have hlast := hout (bursts ++ typed) enter [] (by simp)
  simp only [burstOutcome, henter, frameOutcome, hdigits] at hlast
  rw [List.getLast?_eq_getElem?, hlen, ← hlast]
  congr 1
  simp

end OnFrame

/-- The unlock calls of a run are its `Unlocked` outcomes. -/
theorem Session.run_calls {totpCustom : TotpCustom} {secret : List UInt8} {skewSteps : UInt8}
    {bursts : List Burst} {s : Session (List ActuatorCall)}
    (hrun : run (Session.step totpCustom) (Session.start secret skewSteps []) bursts = some s) :
    s.actuator = (s.outcomes.filter (· = .unlocked)).map fun _ => .unlock := by
  have h := run_induction (P := fun es s => s.Sound secret skewSteps es ∧
    s.actuator = (s.outcomes.filter (· = .unlocked)).map fun _ => ActuatorCall.unlock)
    ⟨Session.Sound.start secret skewSteps [], rfl⟩ ?_ hrun
  · exact h.2
  · rintro es s b s' - ⟨hsound, hcalls⟩ hstep
    obtain ⟨s'', hstep', hsound', hout, hact⟩ := hsound.step totpCustom b
    rw [hstep] at hstep'
    cases hstep'
    refine ⟨hsound', ?_⟩
    rw [hact, hout, List.filter_append, List.map_append, ← hcalls]
    by_cases hu : burstOutcome totpCustom secret skewSteps es b = .unlocked
    · rw [if_pos hu, hu]
      rfl
    · rw [if_neg hu]
      simp [hu]

/-- **The exact unlock condition.** In every run from a fresh controller, at every burst, with `ds`
the digits typed since the last `Enter` or `Cancel`: the burst unlocks iff it is an `Enter`, `ds`
comes in sixes and is not empty, and the latest six digits match at the clock reading of this
burst; it is rejected iff they do not match; in every other case the lock waits. The actuator is
told to unlock once per unlocking burst and is never told to lock, and nothing is ever out of
range. -/
theorem unlock_exact (totpCustom : TotpCustom) (secret : List UInt8) (skewSteps : UInt8)
    (bursts : List Burst) :
    ∃ s, run (Session.step totpCustom) (Session.start secret skewSteps []) bursts = some s ∧
      s.outcomes.length = bursts.length ∧
      (∀ pre b post, bursts = pre ++ b :: post →
        let ds := typedDigits (framesOf pre)
        let submits := decodeFrame b.bits = some .enter ∧ 0 < ds.length ∧ 6 ∣ ds.length
        let accepts := totpMatches totpCustom secret (PinEntry.lastSix ds) b.now skewSteps
        ∃ outcome, s.outcomes[pre.length]? = some outcome ∧
          (outcome = .unlocked ↔ submits ∧ accepts = some true) ∧
          (outcome = .rejected ↔ submits ∧ accepts = some false) ∧
          (outcome = .waiting ↔ ¬ submits)) ∧
      s.actuator = (s.outcomes.filter (· = .unlocked)).map fun _ => ActuatorCall.unlock := by
  obtain ⟨s, hrun, -, hlen, hout⟩ := Session.run_sound totpCustom secret skewSteps
    ([] : List ActuatorCall) bursts
  refine ⟨s, hrun, hlen, ?_, Session.run_calls hrun⟩
  intro pre b post hsplit ds submits accepts
  refine ⟨_, hout pre b post hsplit, ?_⟩
  obtain ⟨answer, hanswer, -⟩ :=
    totpMatches_spec totpCustom secret (PinEntry.lastSix ds) b.now skewSteps
  obtain ⟨frame, hframe⟩ := decodeFrame_eq_some b.bits
  simp only [burstOutcome, hframe, submits, accepts, hanswer, Option.some.injEq]
  -- only an `Enter` can submit
  cases frame with
  | enter =>
      show (enterOutcome totpCustom secret skewSteps ds b.now = .unlocked ↔ _) ∧ _
      by_cases hfull : 0 < ds.length ∧ 6 ∣ ds.length
      · cases answer <;> simp [enterOutcome, hfull, hanswer, frameOutcome, ds]
      · simp [enterOutcome, hfull, frameOutcome, ds]
  | digit _ | cancel | card _ _ | unrecognized _ => simp [frameOutcome]

end Urheilulaatikko.Lock
