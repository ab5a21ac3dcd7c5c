import Urheilulaatikko.Lock.Keypad

/-!
# The scripted keypad

`sim/wiegand_script.py` of the firmware: a keypad entry as the actions that an emulator plays on the
pins of the two data lines. The script prints its times with six decimals; here they are whole
microseconds.

What the script's docstring asks of its constants, that they stay "comfortably inside" and "outside"
those of the firmware, is `spaced_presses`: there are 17 ms to share between the interrupt handler
and the polling loop. `Plays.entry` is what the firmware then makes of the script.
-/

namespace Urheilulaatikko.Lock

open Trace

namespace WiegandScript

/-- `D0_PIN`. -/
def d0Pin : Nat := 2

/-- `D1_PIN`. -/
def d1Pin : Nat := 3

/-- `PULSE_WIDTH`. -/
def pulseWidth : Nat := 50

/-- `BIT_INTERVAL`. -/
def bitInterval : Nat := 2000

/-- `INTER_NIBBLE_GAP`. -/
def interNibbleGap : Nat := 40000

/-- `ENTER`. -/
def enter : Nat := 11

/-- A line of the script: at `time`, drive `pin` to `level`. -/
structure Action where
  time  : Nat
  pin   : Nat
  level : Nat
  deriving DecidableEq, Repr

/-- `_nibble_bits`. -/
def nibbleBits (value : Nat) : List Nat :=
  [(value >>> 3) &&& 1, (value >>> 2) &&& 1, (value >>> 1) &&& 1, value &&& 1]

/-- `_keys_for_code`. `none`: the assertion fails. Codes are ASCII here; `isdigit` and `int` of
Python know other decimal digits, too. -/
def keysForCode (code : String) : Option (List Nat) :=
  if code.toList.length = 6 ∧ code.toList.all Char.isDigit then
    some (code.toList.map (fun d => d.toNat - '0'.toNat) ++ [enter])
  else none

/-- The line that a bit is sent on. -/
def linePin (bit : Nat) : Nat := if bit ≠ 0 then d1Pin else d0Pin

/-- The body of the inner loop of `generate`. -/
def playBit (script : List Action × Nat) (bit : Nat) : List Action × Nat :=
  let (lines, t) := script
  let pin := linePin bit
  (lines ++ [⟨t, pin, 0⟩, ⟨t + pulseWidth, pin, 1⟩], t + bitInterval)

/-- The body of the outer loop. -/
def playKey (script : List Action × Nat) (value : Nat) : List Action × Nat :=
  let (lines, t) := (nibbleBits value).foldl playBit script
  (lines, t + interNibbleGap)

def generate (code : String) (startAt : Nat) : Option (List Action × Nat) := do
  let keys ← keysForCode code
  some (keys.foldl playKey ([], startAt))

/-! ## What the lines see

The script drives pins to levels; a falling edge is where a level goes from 1 to 0. The two loops of
`generate` come to four edges for each key, and the keys one behind the other. -/

open Device (Edge Spaced)

/-- The falling edges on the two lines, which are at the given levels before. -/
def fallingEdges : Nat → Nat → List Action → List Edge
  | _, _, [] => []
  | d0, d1, action :: actions =>
      if action.pin = d0Pin then
        (if d0 = 1 ∧ action.level = 0 then [⟨false, action.time⟩] else []) ++
          fallingEdges action.level d1 actions
      else if action.pin = d1Pin then
        (if d1 = 1 ∧ action.level = 0 then [⟨true, action.time⟩] else []) ++
          fallingEdges d0 action.level actions
      else fallingEdges d0 d1 actions

/-- The bits of a key, sent from `t` on. -/
def press : List Nat → Nat → List Edge
  | [],          _ => []
  | bit :: bits, t => ⟨bit != 0, t⟩ :: press bits (t + bitInterval)

/-- From the beginning of a key to the beginning of the next one. -/
def keyInterval : Nat := 4 * bitInterval + interNibbleGap

/-- The keys, pressed from `t` on. -/
def presses : List Nat → Nat → List (List Edge)
  | [],            _ => []
  | value :: keys, t => press (nibbleBits value) t :: presses keys (t + keyInterval)

/-- Each bit is one falling edge, and both lines are idle again when the next one begins. -/
theorem foldl_playBit (bits : List Nat) (lines : List Action) (t : Nat) :
    ∃ more, bits.foldl playBit (lines, t) = (lines ++ more, t + bitInterval * bits.length) ∧
      ∀ rest, fallingEdges 1 1 (more ++ rest) = press bits t ++ fallingEdges 1 1 rest := by
  induction bits generalizing lines t with
  | nil => exact ⟨[], by simp, fun rest => rfl⟩
  | cons bit bits ih =>
      obtain ⟨more, hfold, hedges⟩ :=
        ih (lines ++ [⟨t, linePin bit, 0⟩, ⟨t + pulseWidth, linePin bit, 1⟩]) (t + bitInterval)
      refine ⟨⟨t, linePin bit, 0⟩ :: ⟨t + pulseWidth, linePin bit, 1⟩ :: more, ?_, ?_⟩
      · rw [List.foldl_cons, playBit, hfold, List.length_cons, Nat.mul_succ]
        simp [Nat.add_assoc, Nat.add_comm]
      · intro rest
        have hedges := hedges rest
        by_cases hbit : bit = 0
        · simp [fallingEdges, linePin, hbit, press, hedges]
        · simp [fallingEdges, linePin, hbit, press, hedges, d0Pin, d1Pin]

theorem foldl_playKey (keys : List Nat) (lines : List Action) (t : Nat) :
    ∃ more, keys.foldl playKey (lines, t) = (lines ++ more, t + keyInterval * keys.length) ∧
      fallingEdges 1 1 more = (presses keys t).flatten := by
  induction keys generalizing lines t with
  | nil => exact ⟨[], by simp, rfl⟩
  | cons value keys ih =>
      obtain ⟨first, hfirst, hpress⟩ := foldl_playBit (nibbleBits value) lines t
      obtain ⟨more, hmore, hpresses⟩ := ih (lines ++ first) (t + keyInterval)
      refine ⟨first ++ more, ?_, ?_⟩
      · have hkey : playKey (lines, t) value = (lines ++ first, t + keyInterval) := by
          have hfour : (nibbleBits value).length = 4 := rfl
          simp only [playKey, hfirst, hfour, keyInterval, Nat.add_assoc, Nat.mul_comm]
        rw [List.foldl_cons, hkey, hmore, List.length_cons, Nat.mul_succ]
        simp [Nat.add_assoc, Nat.add_comm]
      · rw [hpress, hpresses, presses, List.flatten_cons]

/-! ## Telling the keys apart

The intervals of the script against `MESSAGE_GAP`: the bits of a key are close enough together, and
the keys far enough apart. -/

theorem mem_press {bits : List Nat} {t : Nat} {edge : Edge} (h : edge ∈ press bits t) :
    t ≤ edge.time ∧ edge.time + bitInterval ≤ t + bitInterval * bits.length := by
  induction bits generalizing t with
  | nil => cases h
  | cons bit bits ih =>
      rw [List.length_cons, Nat.mul_succ]
      rcases List.mem_cons.mp h with rfl | h
      · refine ⟨Nat.le_refl t, ?_⟩
        dsimp only
        omega
      · obtain ⟨hlo, hhi⟩ := ih h
        omega

theorem isChain_press (bits : List Nat) (t : Nat) :
    (press bits t).IsChain fun a b => b.time = a.time + bitInterval := by
  induction bits generalizing t with
  | nil => exact List.isChain_nil
  | cons bit bits ih =>
      cases bits with
      | nil => exact List.isChain_singleton _
      | cons next bits => exact List.isChain_cons_cons.mpr ⟨rfl, ih (t + bitInterval)⟩

/-- Every edge of the keys comes at least a gap and a bit before the end. -/
theorem mem_presses {keys : List Nat} {t : Nat} {p : List Edge} (h : p ∈ presses keys t) :
    ∃ value t', p = press (nibbleBits value) t' ∧ t ≤ t' ∧
      t' + keyInterval ≤ t + keyInterval * keys.length := by
  induction keys generalizing t with
  | nil => cases h
  | cons value keys ih =>
      rw [List.length_cons, Nat.mul_succ]
      rcases List.mem_cons.mp h with rfl | h
      · exact ⟨value, t, rfl, Nat.le_refl t, by omega⟩
      · obtain ⟨value', t', rfl, hlo, hhi⟩ := ih h
        exact ⟨value', t', rfl, by omega, by omega⟩

/-- **The script's margins.** Whatever keys it plays, they are spaced for a handler and a loop that
together take at most 17 ms. -/
theorem spaced_presses {latency cadence : Nat} (hmargin : latency + cadence ≤ 17000)
    (keys : List Nat) (t : Nat) :
    Spaced latency cadence t (t + keyInterval * keys.length) (presses keys t) where
  ne_nil := by
    intro hnil
    obtain ⟨value, t', hpress, -⟩ := mem_presses hnil
    cases hpress
  inside := by
    intro p hp
    obtain ⟨value, t', rfl, -⟩ := mem_presses hp
    apply (isChain_press (nibbleBits value) t').imp
    intro a b hab
    simp only [bitInterval] at hab
    simp only [WiegandCapture.messageGap]
    omega
  apart := by
    induction keys generalizing t with
    | nil => exact List.isChain_nil
    | cons value keys ih =>
        cases keys with
        | nil => exact List.isChain_singleton _
        | cons value' keys =>
            refine List.isChain_cons_cons.mpr ⟨?_, ih (t + keyInterval)⟩
            intro a ha b hb
            obtain ⟨-, hlast⟩ := mem_press (List.mem_of_getLast? ha)
            obtain ⟨hfirst, -⟩ := mem_press (List.mem_of_head? hb)
            simp only [bitInterval, nibbleBits, keyInterval, interNibbleGap, List.length_cons,
              List.length_nil] at hlast hfirst
            simp only [WiegandCapture.messageGap]
            omega
  within := by
    intro p hp a ha
    obtain ⟨value, t', rfl, hlo, hhi⟩ := mem_presses hp
    obtain ⟨hge, hle⟩ := mem_press ha
    simp only [bitInterval, nibbleBits, List.length_cons, List.length_nil] at hle
    simp only [keyInterval, bitInterval, interNibbleGap] at hhi
    simp only [WiegandCapture.messageGap, keyInterval, bitInterval, interNibbleGap]
    omega

end WiegandScript

/-! ## The relay pin

The emulator sees of the bolt what changes on the relay pin. Without a grant that is nothing; with a
single one the pin goes high in the step of its frame, and low in the first check that finds the
deadline due. -/

namespace Device

variable (totpCustom : TotpCustom)

/-- What the emulator records of the relay pin: a change of its level. -/
def relayMove? (d : Device) (e : Event) : Option Level :=
  (d.step totpCustom e).bind fun d' =>
    if d'.firmware.actuator.relay = d.firmware.actuator.relay then none
    else some d'.firmware.actuator.relay

def relayMoves (d : Device) (es : List Event) : List Level :=
  observe (step totpCustom) (relayMove? totpCustom) d es

/-- A check that finds the deadline of a grant at `g` due. -/
def Event.due (g : Nat) : Event → Bool
  | .check now => g + unlockDuration ≤ now
  | _ => false

/-- The relay pin around the frame of entry `x`: it does not move before, goes high with the frame,
and low with the first check that finds the deadline due; not before, and not again. -/
def PulsesOnce (d : Device) (before : List Event) (x : Handled) (after : List Event) : Prop :=
  d.relayMoves totpCustom before = [] ∧
    ∀ part, part <+: after →
      d.relayMoves totpCustom (before ++ .handle x.handledAt x.grantedAt :: part) =
        .high :: if part.any (Event.due x.grantedAt) then [.low] else []

variable {totpCustom}

/-- All the moves there are. -/
theorem PulsesOnce.relayMoves_eq {d : Device} {before after : List Event} {x : Handled}
    (h : d.PulsesOnce totpCustom before x after) :
    d.relayMoves totpCustom (before ++ .handle x.handledAt x.grantedAt :: after) =
      .high :: if after.any (Event.due x.grantedAt) then [.low] else [] :=
  h.2 after List.prefix_rfl

theorem relayMove?_eq {d d' : Device} {e : Event} (hstep : d.step totpCustom e = some d') :
    d.relayMove? totpCustom e =
      if d'.firmware.actuator.relay = d.firmware.actuator.relay then none
      else some d'.firmware.actuator.relay := by
  rw [relayMove?, hstep, Option.bind_some]

theorem relay_checkRelock (f : Firmware) (now : Nat) :
    (f.checkRelock now).actuator.relay = f.actuator.relay ∨
      (f.checkRelock now).actuator.relay = .low := by
  unfold Firmware.checkRelock
  split
  · split
    · exact .inr rfl
    · exact .inl rfl
  · exact .inl rfl

/-- A step without a grant leaves the relay alone, or is a check. -/
theorem relay_of_step {d d' : Device} {e : Event} (htyping : d.firmware.Typing)
    (hstep : d.step totpCustom e = some d') (hnone : d.grant? totpCustom e = none) :
    d'.firmware.actuator.relay = d.firmware.actuator.relay ∧ (∀ now, e ≠ .check now) ∨
      ∃ now, e = .check now ∧ d'.firmware = d.firmware.checkRelock now := by
  obtain ⟨line, time, rfl, rfl⟩ | ⟨now₀, now₁, capture', rfl, -, rfl⟩ |
    ⟨now, capture', frame, rfl, -, -, rfl⟩ | ⟨now, grantedAt, bits, firmware, outcome, rfl, hphase,
    hframe, rfl⟩ | ⟨now, rfl, -, rfl⟩ := step_cases totpCustom hstep
  · exact .inl ⟨rfl, by simp⟩
  · exact .inl ⟨rfl, by simp⟩
  · exact .inl ⟨rfl, by simp⟩
  · obtain ⟨mid, answer, hframe', -, -, hsame⟩ :=
      Firmware.handleFrame_spec totpCustom htyping (d.iteration bits now grantedAt)
    rw [hframe] at hframe'
    cases hframe'
    have hanswer : outcome ≠ some .unlocked := by
      intro hunlocked
      simp only [grant?, hphase, Firmware.grant?_eq totpCustom hframe, if_pos hunlocked] at hnone
      cases hnone
    refine .inl ⟨?_, by simp⟩
    show firmware.actuator.relay = d.firmware.actuator.relay
    rw [(hsame hanswer).1]
  · exact .inr ⟨now, rfl, rfl⟩

/-- A step without a grant, after a last one at `g`: it lowers the relay if it is a check that finds
the deadline due, and leaves it alone otherwise. -/
theorem relay_of_due {d d' : Device} {e : Event} {granted : List Nat} {g : Nat}
    (htyping : d.firmware.Typing) (hgrounded : d.firmware.Grounded granted)
    (hlast : granted.getLast? = some g) (hstep : d.step totpCustom e = some d')
    (hnone : d.grant? totpCustom e = none) :
    d'.firmware.actuator.relay =
      if Event.due g e then .low else d.firmware.actuator.relay := by
  obtain ⟨hsame, hno⟩ | ⟨now, rfl, hfirmware⟩ := relay_of_step htyping hstep hnone
  · have hdue : Event.due g e = false := by
      cases e with
      | check now => exact absurd rfl (hno now)
      | edge _ _ | interrupt _ _ | poll _ | handle _ _ => rfl
    rw [hdue, hsame]
    rfl
  · rw [hfirmware]
    by_cases hdue : g + unlockDuration ≤ now
    · rw [hgrounded.low_of_due hlast hdue]
      simp [Event.due, hdue]
    · have hsame : (d.firmware.checkRelock now).actuator.relay = d.firmware.actuator.relay := by
        obtain hsame | hlow := relay_checkRelock d.firmware now
        · exact hsame
        · -- a relay that is low already is not lowered, and a high one not before the deadline
          cases hrelay : d.firmware.actuator.relay with
          | low => exact hlow
          | high =>
              obtain ⟨g', hg', hle⟩ := hgrounded.due_of_low hrelay hlow
              rw [hlast, Option.some.injEq] at hg'
              exact absurd (hg' ▸ hle) hdue
      rw [hsame]
      simp [Event.due, hdue]

/-- A grant raises it. -/
theorem high_of_grant {d d' : Device} {e : Event} {g : Nat} (htyping : d.firmware.Typing)
    (hstep : d.step totpCustom e = some d') (hgrant : d.grant? totpCustom e = some g) :
    d'.firmware.actuator.relay = .high := by
  obtain ⟨line, time, rfl, rfl⟩ | ⟨now₀, now₁, capture', rfl, -, rfl⟩ |
    ⟨now, capture', frame, rfl, -, -, rfl⟩ | ⟨now, grantedAt, bits, firmware, outcome, rfl, hphase,
    hframe, rfl⟩ | ⟨now, rfl, -, rfl⟩ := step_cases totpCustom hstep
  · cases hgrant
  · cases hgrant
  · cases hgrant
  · obtain ⟨mid, answer, hframe', -, hraised, -⟩ :=
      Firmware.handleFrame_spec totpCustom htyping (d.iteration bits now grantedAt)
    rw [hframe] at hframe'
    cases hframe'
    simp only [grant?, hphase, Firmware.grant?_eq totpCustom hframe] at hgrant
    split at hgrant
    · next hunlocked => exact (hraised hunlocked).1
    · cases hgrant
  · cases hgrant

section Relay

variable {clock : SystemClock} {secret : List UInt8} {skewSteps : UInt8} {es : List Event}
  {d t : Device}

theorem relayMoves_snoc {d₀ : Device} (e : Event) (hrun : run (step totpCustom) d₀ es = some d) :
    d₀.relayMoves totpCustom (es ++ [e]) =
      d₀.relayMoves totpCustom es ++ (d.relayMove? totpCustom e).toList :=
  observe_snoc e hrun

/-- Without a grant the relay is low. -/
theorem low_of_run (hrun : run (step totpCustom) (start clock secret skewSteps) es = some d)
    (hnone : (start clock secret skewSteps).grants totpCustom es = []) :
    d.firmware.actuator.relay = .low := by
  obtain ⟨-, hgrounded⟩ := grounded_of_run totpCustom hrun
  cases hrelay : d.firmware.actuator.relay with
  | low => rfl
  | high =>
      obtain ⟨deadline, hdeadline⟩ := Option.isSome_iff_exists.mp (hgrounded.relay.mp hrelay)
      obtain ⟨g, hg, -⟩ := hgrounded.deadline deadline hdeadline
      rw [hnone] at hg
      cases hg

/-- … and has never moved. -/
theorem still_of_run (hrun : run (step totpCustom) (start clock secret skewSteps) es = some d)
    (hnone : (start clock secret skewSteps).grants totpCustom es = []) :
    (start clock secret skewSteps).relayMoves totpCustom es = [] := by
  revert hnone
  refine run_induction (P := fun es _ => (start clock secret skewSteps).grants totpCustom es = [] →
    (start clock secret skewSteps).relayMoves totpCustom es = []) (fun _ => rfl) ?_ hrun
  intro es d e d' hrun ih hstep hnone
  have hlow' := low_of_run (run_snoc_eq_some.mpr ⟨d, hrun, hstep⟩) hnone
  rw [grants_snoc totpCustom e hrun, List.append_eq_nil_iff] at hnone
  have hlow := low_of_run hrun hnone.1
  rw [relayMoves_snoc e hrun, ih hnone.1, relayMove?_eq hstep, if_pos (hlow'.trans hlow.symm)]
  rfl

/-- From a grant on, as long as there is no other one: the relay stays high until a check finds the
deadline due, and low from then on. -/
theorem relay_after_grant {es' : List Event} {g : Nat}
    (ht : run (step totpCustom) (start clock secret skewSteps) es = some t)
    (hlast : ((start clock secret skewSteps).grants totpCustom es).getLast? = some g)
    (hhigh : t.firmware.actuator.relay = .high)
    (hrun : run (step totpCustom) t es' = some d) (hnone : t.grants totpCustom es' = []) :
    (d.firmware.actuator.relay = if es'.any (Event.due g) then .low else .high) ∧
      t.relayMoves totpCustom es' = if es'.any (Event.due g) then [.low] else [] := by
  revert hnone
  refine run_induction (P := fun es' d => t.grants totpCustom es' = [] →
    (d.firmware.actuator.relay = if es'.any (Event.due g) then .low else .high) ∧
      t.relayMoves totpCustom es' = if es'.any (Event.due g) then [.low] else [])
    (fun _ => ⟨hhigh, rfl⟩) ?_ hrun
  intro es' d e d' hrun ih hstep hnone
  rw [grants_snoc totpCustom e hrun, List.append_eq_nil_iff] at hnone
  obtain ⟨hrelay, hmoves⟩ := ih hnone.1
  have hgrant : d.grant? totpCustom e = none := by
    cases he : d.grant? totpCustom e with
    | none => rfl
    | some g' =>
        rw [he] at hnone
        cases hnone.2
  have hgrants : ((start clock secret skewSteps).grants totpCustom (es ++ es')).getLast? =
      some g := by
    have hsplit : (start clock secret skewSteps).grants totpCustom (es ++ es') =
        (start clock secret skewSteps).grants totpCustom es ++ t.grants totpCustom es' :=
      observe_append ht
    rw [hsplit, hnone.1, List.append_nil, hlast]
  obtain ⟨htyping, hgrounded⟩ :=
    grounded_of_run totpCustom (run_append_eq_some.mpr ⟨t, ht, hrun⟩)
  have hrelay' := relay_of_due htyping hgrounded hgrants hstep hgrant
  rw [relayMoves_snoc e hrun, relayMove?_eq hstep, hmoves, hrelay', hrelay, List.any_append,
    List.any_cons, List.any_nil, Bool.or_false]
  -- low stays low; high goes low with a check that is due
  cases es'.any (Event.due g) <;> cases Event.due g e <;> exact ⟨rfl, rfl⟩

/-- Where a run with a single grant makes it, there is none before and none after. -/
theorem only_grant {d₀ t' : Device} {before after : List Event} {e : Event} {g : Nat}
    (ht : run (step totpCustom) d₀ before = some t) (hstep : t.step totpCustom e = some t')
    (hgrant : t.grant? totpCustom e = some g)
    (hgrants : d₀.grants totpCustom (before ++ e :: after) = [g]) :
    d₀.grants totpCustom before = [] ∧ t'.grants totpCustom after = [] := by
  have hsplit : d₀.grants totpCustom (before ++ e :: after) =
      d₀.grants totpCustom before ++ g :: t'.grants totpCustom after := by
    rw [grants, observe_append_cons ht hstep, hgrant]
    rfl
  rw [hgrants] at hsplit
  have hlen := congrArg List.length hsplit
  simp only [List.length_append, List.length_cons, List.length_nil] at hlen
  constructor
  · exact List.length_eq_zero_iff.mp (by omega)
  · exact List.length_eq_zero_iff.mp (by omega)

/-- **The relay pin in a run with a single grant**, that of entry `x`. -/
theorem pulsesOnce_of_run {before after : List Event} {x : Handled}
    (hrun : run (step totpCustom) (start clock secret skewSteps)
      (before ++ .handle x.handledAt x.grantedAt :: after) = some d)
    (ht : run (step totpCustom) (start clock secret skewSteps) before = some t)
    (hx : t.handled? totpCustom (.handle x.handledAt x.grantedAt) = some x)
    (hunlocked : x.outcome = .unlocked)
    (hgrants : (start clock secret skewSteps).grants totpCustom
      (before ++ .handle x.handledAt x.grantedAt :: after) = [x.grantedAt]) :
    (start clock secret skewSteps).PulsesOnce totpCustom before x after := by
  obtain ⟨_, ht', hrest⟩ := run_append_eq_some.mp hrun
  rw [ht] at ht'
  cases ht'
  obtain ⟨t', hstep, hafter⟩ := run_cons_eq_some.mp hrest
  obtain ⟨-, -, hgrant⟩ := views_of_step totpCustom (clock_of_run totpCustom ht) hstep
  have hone : t.grant? totpCustom (.handle x.handledAt x.grantedAt) = some x.grantedAt := by
    rw [hgrant, hx, Option.bind_some, Handled.grant?, if_pos hunlocked]
  obtain ⟨hbefore, hnone⟩ := only_grant ht hstep hone hgrants
  refine ⟨still_of_run ht hbefore, ?_⟩
  rintro part ⟨rest, rfl⟩
  obtain ⟨u, hpart, -⟩ := run_append_eq_some.mp hafter
  have hquiet : t'.grants totpCustom part = [] := by
    rw [grants, observe_append hpart] at hnone
    exact (List.append_eq_nil_iff.mp hnone).1
  have hgiven := run_snoc_eq_some.mpr ⟨t, ht, hstep⟩
  have hlast : (start clock secret skewSteps).grants totpCustom
      (before ++ [.handle x.handledAt x.grantedAt]) = [x.grantedAt] := by
    rw [grants_snoc totpCustom _ ht, hbefore, hone]
    rfl
  have hhigh := high_of_grant (grounded_of_run totpCustom ht).1 hstep hone
  obtain ⟨-, hmoves⟩ :=
    relay_after_grant (g := x.grantedAt) hgiven (by rw [hlast]; rfl) hhigh hpart hquiet
  have hlow := low_of_run ht hbefore
  have hne : t'.firmware.actuator.relay ≠ t.firmware.actuator.relay := by
    rw [hhigh, hlow]
    decide
  rw [relayMoves, observe_append_cons ht hstep, relayMove?_eq hstep, if_neg hne, hhigh]
  show (start clock secret skewSteps).relayMoves totpCustom before ++
    (.high :: t'.relayMoves totpCustom part) = _
  rw [still_of_run ht hbefore, hmoves, List.nil_append]

end Relay

end Device

/-! ## What the firmware makes of the script

Six keypresses and an `Enter` arrive (`Plays.handled_eq`), the digits are waited for, and the entry
of the `Enter` decides about the relay. -/

namespace WiegandScript

open Device (Event)

section Keys

theorem keysForCode_eq_some {code : String} {keys : List Nat} (h : keysForCode code = some keys) :
    ∃ ds : List Nat, ds = code.toList.map (fun d => d.toNat - '0'.toNat) ∧ ds.length = 6 ∧
      (∀ d ∈ ds, d < 10) ∧ keys = ds ++ [enter] := by
  unfold keysForCode at h
  split at h
  · next hcode =>
      cases h
      refine ⟨_, rfl, by rw [List.length_map, hcode.1], ?_, rfl⟩
      intro d hd
      obtain ⟨c, hc, rfl⟩ := List.mem_map.mp hd
      have hdigit := List.all_eq_true.mp hcode.2 c hc
      rw [Text.isDigit_iff] at hdigit
      have hle : c.toNat ≤ '9'.toNat := hdigit.2
      have hnine : '9'.toNat = 57 := rfl
      have hzero : '0'.toNat = 48 := rfl
      omega
  · cases h

/-- The script sends a key as the keypad does. -/
theorem map_nibbleBits {value : Nat} (h : value < 16) :
    (nibbleBits value).map (· != 0) = Lock.nibbleBits value := by
  revert value
  decide

theorem map_line_press (bits : List Nat) (t : Nat) :
    (press bits t).map Device.Edge.line = bits.map (· != 0) := by
  induction bits generalizing t with
  | nil => rfl
  | cons bit bits ih => rw [press, List.map_cons, List.map_cons, ih]

theorem map_presses {keys : List Nat} (hkeys : ∀ value ∈ keys, value < 16) (t : Nat) :
    ((presses keys t).map fun press => (press.map Device.Edge.line).rtake WiegandCapture.maxBits) =
      keys.map Lock.nibbleBits := by
  induction keys generalizing t with
  | nil => rfl
  | cons value keys ih =>
      rw [List.forall_mem_cons] at hkeys
      rw [presses, List.map_cons, List.map_cons, ih hkeys.2, map_line_press,
        map_nibbleBits hkeys.1, Buffer.rtake_of_length_le]
      rw [Lock.nibbleBits, List.length_map, Positional.length_digits]
      decide

end Keys

section Entry

variable (totpCustom : TotpCustom)

theorem framesOf_typed {typed : List Burst} {ds : List UInt8}
    (htyped : typed.map (fun b => decodeFrame b.bits) = ds.map fun d => some (.digit d)) :
    typedDigits (framesOf typed) = ds := by
  have hframes : framesOf typed = ds.map .digit := by
    apply Device.framesOf_eq
    rw [htyped, List.map_map]
    rfl
  rw [hframes]
  exact typedDigits_append_digits [] ds

/-- A run of the device in which an emulator plays the script on its pins: every edge is seen within
`latency` and the loop polls once in every `cadence` until the script ends. -/
structure Plays (clock : SystemClock) (secret : List UInt8) (skewSteps : UInt8) (code : String)
    (startAt latency cadence : Nat) (es : List Event) (d : Device) : Prop where
  run_eq    : run (Device.step totpCustom) (Device.start clock secret skewSteps) es = some d
  sorted    : (WiegandCapture.readings
    ((Device.start clock secret skewSteps).captureEvents totpCustom es)).Pairwise (· ≤ ·)
  script_eq : ∃ lines endAt, generate code startAt = some (lines, endAt) ∧
    Device.edges es = fallingEdges 1 1 lines ∧ Device.Steady cadence startAt endAt es
  prompt_eq : Device.prompt latency none es = true
  margin    : latency + cadence ≤ 17000
  phase_eq  : d.phase = .polling

variable {totpCustom} {clock : SystemClock} {secret : List UInt8} {skewSteps : UInt8}
  {code : String} {startAt latency cadence : Nat} {es : List Event} {d : Device}

/-- The controller is handed the keys of the code. -/
theorem Plays.bits_eq
    (h : Plays totpCustom clock secret skewSteps code startAt latency cadence es d) :
    ∃ ds : List Nat, ds = code.toList.map (fun d => d.toNat - '0'.toNat) ∧ ds.length = 6 ∧
      (∀ d ∈ ds, d < 10) ∧
      ((Device.start clock secret skewSteps).bursts totpCustom es).map Burst.bits =
        ds.map Lock.nibbleBits ++ [Lock.nibbleBits enter] := by
  obtain ⟨lines, endAt, hgenerate, hedges, hsteady⟩ := h.script_eq
  obtain ⟨keys, hkeys, heq⟩ := Option.bind_eq_some_iff.mp hgenerate
  obtain ⟨ds, hds, hlen, hlt, rfl⟩ := keysForCode_eq_some hkeys
  obtain ⟨more, hfold, hpresses⟩ := foldl_playKey (ds ++ [enter]) [] startAt
  rw [hfold, Option.some.injEq, Prod.mk.injEq, List.nil_append] at heq
  obtain ⟨rfl, rfl⟩ := heq
  have hsmall : ∀ value ∈ ds ++ [enter], value < 16 := by
    intro value hvalue
    rcases List.mem_append.mp hvalue with hmem | hmem
    · exact Nat.lt_trans (hlt value hmem) (by decide)
    · cases List.mem_singleton.mp hmem
      decide
  refine ⟨ds, hds, hlen, hlt, ?_⟩
  rw [Device.bits_of_spaced totpCustom h.run_eq h.sorted h.prompt_eq hsteady
    (hpresses.symm.trans hedges.symm) (spaced_presses h.margin _ startAt) (by rw [h.phase_eq]; rfl),
    map_presses hsmall, List.map_append, List.map_singleton]

/-- The entries of the digits, and that of the `Enter`. -/
theorem Plays.handled_eq
    (h : Plays totpCustom clock secret skewSteps code startAt latency cadence es d) :
    ∃ (ds : List UInt8) (typed : List Device.Handled) (enter : Device.Handled),
      ds = code.toList.map (fun c => UInt8.ofNat (c.toNat - '0'.toNat)) ∧ ds.length = 6 ∧
      (Device.start clock secret skewSteps).handled totpCustom es = typed ++ [enter] ∧
      typed.map (fun x => decodeFrame x.bits) = ds.map (fun d => some (.digit d)) ∧
      decodeFrame enter.bits = some .enter := by
  obtain ⟨ds, hds, hlen, hlt, hbits⟩ := h.bits_eq
  obtain ⟨hbursts, -, -⟩ := Device.views_of_run totpCustom h.run_eq
  rw [hbursts, List.map_map] at hbits
  obtain ⟨typed, rest, hentries, htyped, hrest⟩ := List.map_eq_append_iff.mp hbits
  obtain ⟨enter, after, rfl, henter, hafter⟩ := List.map_eq_cons_iff.mp hrest
  rw [List.map_eq_nil_iff] at hafter
  subst hafter
  refine ⟨ds.map UInt8.ofNat, typed, enter, ?_, by rw [List.length_map, hlen], hentries, ?_, ?_⟩
  · rw [hds, List.map_map]
    rfl
  · have hsplit : typed.map (fun x => decodeFrame x.bits) =
        (typed.map (Burst.bits ∘ Device.Handled.burst clock)).map decodeFrame := by
      rw [List.map_map]
      rfl
    rw [hsplit, htyped, List.map_map, List.map_map]
    apply List.map_congr_left
    intro d hd
    exact decodeFrame_nibbleBits_digit (hlt d hd)
  · have hsame : enter.bits = Lock.nibbleBits WiegandScript.enter := henter
    rw [hsame]
    exact decodeFrame_nibbleBits_enter

variable (totpCustom clock secret skewSteps es) in
/-- The frames that are handled in a run are six digits, which are waited for, and an `Enter`, whose
entry is `enter`; its step stands between `before` and `after`. -/
structure Entered (before : List Event) (enter : Device.Handled) (after : List Event) : Prop where
  es_eq      : es = before ++ .handle enter.handledAt enter.grantedAt :: after
  handled_eq : (Device.start clock secret skewSteps).handled totpCustom es =
    (Device.start clock secret skewSteps).handled totpCustom before ++ [enter]
  waits      : ((Device.start clock secret skewSteps).handled totpCustom before).map
    Device.Handled.outcome = List.replicate 6 .waiting
  enter_eq   : decodeFrame enter.bits = some .enter

/-- A digit is waited for. -/
theorem waiting_of_typed
    (hrun : run (Device.step totpCustom) (Device.start clock secret skewSteps) es = some d)
    {typed later : List Device.Handled}
    (h : (Device.start clock secret skewSteps).handled totpCustom es = typed ++ later)
    {ds : List UInt8} (htyped : typed.map (fun x => decodeFrame x.bits) =
      ds.map fun d => some (.digit d)) :
    typed.map Device.Handled.outcome = List.replicate ds.length .waiting := by
  have hlen := congrArg List.length htyped
  rw [List.length_map, List.length_map] at hlen
  rw [List.eq_replicate_iff, List.length_map]
  refine ⟨hlen, ?_⟩
  intro outcome houtcome
  obtain ⟨x, hx, rfl⟩ := List.mem_map.mp houtcome
  have hdigit : decodeFrame x.bits ∈ ds.map fun d => some (Frame.digit d) := by
    rw [← htyped]
    exact List.mem_map_of_mem (f := fun x : Device.Handled => decodeFrame x.bits) hx
  obtain ⟨digit, -, hframe⟩ := List.mem_map.mp hdigit
  have hframe' : decodeFrame (x.burst clock).bits = some (.digit digit) := hframe.symm
  obtain ⟨earlier, rest, rfl⟩ := List.append_of_mem hx
  rw [List.append_assoc, List.cons_append] at h
  rw [Device.outcome_of_handled totpCustom hrun h]
  simp only [burstOutcome, hframe', frameOutcome]

/-- **A scripted entry.** The firmware waits for six digits and then decides, by the clock at which
it handles the `Enter`, whether the code matches. If it does, the relay goes high with that `Enter`,
and low with the first check that comes `UNLOCK_DURATION` later; if it does not, the relay never
moves. -/
theorem Plays.entry
    (h : Plays totpCustom clock secret skewSteps code startAt latency cadence es d) :
    ∃ (entered : Vector UInt8 pinLen) (before : List Event) (enter : Device.Handled)
      (after : List Event),
      entered.toList = code.toList.map (fun c => UInt8.ofNat (c.toNat - '0'.toNat)) ∧
      Entered totpCustom clock secret skewSteps es before enter after ∧
      let accepted :=
        totpMatches totpCustom secret entered (clock.unixSeconds enter.handledAt) skewSteps
      (accepted = some true → enter.outcome = .unlocked ∧
        (Device.start clock secret skewSteps).PulsesOnce totpCustom before enter after) ∧
      (accepted ≠ some true → enter.outcome = .rejected ∧
        (Device.start clock secret skewSteps).relayMoves totpCustom es = []) := by
  obtain ⟨ds, typed, enter, hds, hlen, hentries, htyped, henter⟩ := h.handled_eq
  obtain ⟨before, after, t, hes, ht, hbefore, hx⟩ :=
    Device.split_of_handled totpCustom h.run_eq hentries
  have hwaits := waiting_of_typed h.run_eq hentries htyped
  have hentered : (PinEntry.lastSix ds).toList = ds := PinEntry.toList_lastSix_append [] hlen
  -- the answer to the `Enter`
  have hanswer : enter.outcome =
      enterOutcome totpCustom secret skewSteps ds (clock.unixSeconds enter.handledAt) := by
    have henter' : decodeFrame (enter.burst clock).bits = some .enter := henter
    have htyped' : (typed.map (Device.Handled.burst clock)).map (fun b => decodeFrame b.bits) =
        ds.map fun d => some (.digit d) := by
      rw [← htyped, List.map_map]
      rfl
    rw [Device.outcome_of_handled totpCustom h.run_eq hentries]
    simp only [burstOutcome, henter', frameOutcome, framesOf_typed htyped']
    rfl
  -- the digits grant nothing
  obtain ⟨-, -, hgrants⟩ := Device.views_of_run totpCustom h.run_eq
  have hquiet : typed.filterMap Device.Handled.grant? = [] := by
    rw [List.filterMap_eq_nil_iff]
    intro x hx
    have hmem := List.mem_map_of_mem (f := Device.Handled.outcome) hx
    rw [hwaits] at hmem
    rw [Device.Handled.grant?, List.eq_of_mem_replicate hmem]
    rfl
  rw [hentries, List.filterMap_append, hquiet, List.nil_append] at hgrants
  refine ⟨PinEntry.lastSix ds, before, enter, after, by rw [hentered, hds],
    ⟨hes, by rw [hentries, hbefore], by rw [hbefore, hwaits, hlen], henter⟩, ?_, ?_⟩
  · intro haccepted
    have hunlocked : enter.outcome = .unlocked := by
      rw [hanswer]
      simp [enterOutcome, hlen, haccepted]
    refine ⟨hunlocked, ?_⟩
    have hrun := h.run_eq
    rw [hes] at hrun hgrants
    apply Device.pulsesOnce_of_run hrun ht hx hunlocked
    rw [hgrants]
    simp [Device.Handled.grant?, hunlocked]
  · intro hrejected
    have hdenied : enter.outcome = .rejected := by
      rw [hanswer]
      simp [enterOutcome, hlen, hrejected]
    refine ⟨hdenied, Device.still_of_run h.run_eq ?_⟩
    rw [hgrants]
    simp [Device.Handled.grant?, hdenied]

/-- `earlyCode` plays the script, whatever the lock makes of it. -/
theorem plays_earlyCode
    (hrun : run (Device.step totpCustom) (Device.start clock secret skewSteps) Device.earlyCode =
      some d)
    (hsorted : (WiegandCapture.readings ((Device.start clock secret skewSteps).captureEvents
      totpCustom Device.earlyCode)).Pairwise (· ≤ ·)) (hphase : d.phase = .polling) :
    Plays totpCustom clock secret skewSteps "287082" 500000 5 4000 Device.earlyCode d where
  run_eq    := hrun
  sorted    := hsorted
  script_eq := by
    have hsome : (generate "287082" 500000).map (fun script =>
        (fallingEdges 1 1 script.1, script.2)) = some (Device.edges Device.earlyCode, 836000) := by
      decide +kernel
    obtain ⟨⟨lines, endAt⟩, hgenerate, heq⟩ := Option.map_eq_some_iff.mp hsome
    rw [Prod.mk.injEq] at heq
    obtain ⟨hedges, rfl⟩ := heq
    exact ⟨lines, _, hgenerate, hedges.symm, Device.steady_earlyCode⟩
  prompt_eq := by decide +kernel
  margin    := by decide
  phase_eq  := hphase

end Entry

end WiegandScript

end Urheilulaatikko.Lock
