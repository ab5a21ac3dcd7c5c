import Urheilulaatikko.Agreement
import Urheilulaatikko.Lock.WiegandScript

/-!
# From the PIN to the bolt

`server_lock_agree` ends at the controller. Here the PIN goes all the way: its characters are played
on the data lines as the scripted keypad plays them, the interrupt handler and the polling loop make
frames of the edges, and what comes out is the level of the relay pin.
-/

namespace Urheilulaatikko

open Lock Lock.WiegandScript Server.Totp

variable {totpRs : TotpRs} {totpCustom : TotpCustom} {hotp : List UInt8 → Nat → Nat}
  {clock : SystemClock} {secret : List UInt8} {skewSteps : UInt8} {code : String}
  {startAt latency cadence : Nat} {es : List Device.Event} {d : Device}

/-- Digits that are typed are digits that are read. -/
theorem spelled_of_entered {entered : Vector UInt8 pinLen} (hcode : code.toList.all Char.isDigit)
    (hentered : entered.toList = code.toList.map fun c => UInt8.ofNat (c.toNat - '0'.toNat)) :
    (∀ d ∈ entered.toList, d.toNat < 10) ∧
      entered.toList.map (fun d => Nat.digitChar d.toNat) = code.toList := by
  have hdigit : ∀ c ∈ code.toList, (UInt8.ofNat (c.toNat - '0'.toNat)).toNat < 10 ∧
      Nat.digitChar (UInt8.ofNat (c.toNat - '0'.toNat)).toNat = c := by
    intro c hc
    have hc' := Text.isDigit_iff.mp (List.all_eq_true.mp hcode c hc)
    have hlo : 48 ≤ c.toNat := hc'.1
    have hhi : c.toNat ≤ 57 := hc'.2
    have hzero : '0'.toNat = 48 := rfl
    have hsize : UInt8.size = 256 := rfl
    rw [UInt8.toNat_ofNat_of_lt' (by omega)]
    refine ⟨by omega, ?_⟩
    apply Char.toNat_inj.mp
    rw [Nat.toNat_digitChar_of_lt_ten (by omega)]
    omega
  rw [hentered]
  constructor
  · intro d hd
    obtain ⟨c, hc, rfl⟩ := List.mem_map.mp hd
    exact (hdigit c hc).1
  · rw [List.map_map]
    apply (List.map_congr_left ?_).trans (List.map_id _)
    intro c hc
    exact (hdigit c hc).2

theorem Lock.WiegandScript.Plays.isDigit
    (h : Plays totpCustom clock secret skewSteps code startAt latency cadence es d) :
    code.toList.all Char.isDigit := by
  obtain ⟨lines, endAt, hgenerate, -⟩ := h.script_eq
  obtain ⟨keys, hkeys, -⟩ := Option.bind_eq_some_iff.mp hgenerate
  unfold keysForCode at hkeys
  split at hkeys
  · next hcode => exact hcode.2
  · cases hkeys

/-- What a typed code does to the relay is decided by `totp::matches` at the `Enter`. -/
theorem Lock.WiegandScript.Plays.moves_iff
    (h : Plays totpCustom clock secret skewSteps code startAt latency cadence es d) :
    let moves := (Device.start clock secret skewSteps).relayMoves totpCustom es
    ∃ (entered : Vector UInt8 pinLen) (before : List Device.Event) (enter : Device.Handled)
      (after : List Device.Event),
      (∀ d ∈ entered.toList, d.toNat < 10) ∧
      entered.toList.map (fun d => Nat.digitChar d.toNat) = code.toList ∧
      Entered totpCustom clock secret skewSteps es before enter after ∧
      (moves ≠ [] ↔
        totpMatches totpCustom secret entered (clock.unixSeconds enter.handledAt) skewSteps =
          some true) ∧
      (moves ≠ [] →
        (Device.start clock secret skewSteps).PulsesOnce totpCustom before enter after) := by
  obtain ⟨entered, before, enter, after, hentered, hentry, haccepted, hrejected⟩ := h.entry
  obtain ⟨hdigits, hspelled⟩ := spelled_of_entered h.isDigit hentered
  have hmoves : (Device.start clock secret skewSteps).relayMoves totpCustom es ≠ [] ↔
      totpMatches totpCustom secret entered (clock.unixSeconds enter.handledAt) skewSteps =
        some true := by
    constructor
    · intro hne
      by_contra hnot
      exact hne (hrejected hnot).2
    · intro hyes hnil
      rw [hentry.es_eq, (haccepted hyes).2.relayMoves_eq] at hnil
      cases hnil
  exact ⟨entered, before, enter, after, hdigits, hspelled, hentry, hmoves,
    fun hne => (haccepted (hmoves.mp hne)).2⟩

/-- **From the PIN to the bolt.** Whenever a code of six digits is typed into the device, with the
handler and the loop in time: the frames handled are the digits and an `Enter`, and the relay pin
moves if and only if the code is a PIN that the server shows for the same secret at a time whose
step is at most the skew away from the lock's clock, as it was read for this `Enter`. The pin then
goes high in the step of the `Enter`, and low in the first check `UNLOCK_DURATION` after the
grant. -/
theorem pin_opens_bolt (h : SameHotp totpRs totpCustom hotp) {T : UInt64}
    {generated : GeneratedPin} (hgen : generateAt totpRs secret T = .ok generated)
    (hplays : Plays totpCustom clock secret skewSteps code startAt latency cadence es d) :
    let moves := (Device.start clock secret skewSteps).relayMoves totpCustom es
    ∃ before enter after, Entered totpCustom clock secret skewSteps es before enter after ∧
      (moves ≠ [] ↔ ∃ T' generated', generateAt totpRs secret T' = .ok generated' ∧
        |(T'.toNat / 30 : Int) - ((clock.unixSeconds enter.handledAt).toNat / 30 : Int)| ≤
          skewSteps.toNat ∧ generated'.pin = code) ∧
      (moves ≠ [] →
        (Device.start clock secret skewSteps).PulsesOnce totpCustom before enter after) := by
  obtain ⟨entered, before, enter, after, hdigits, hspelled, hentry, hmoves, hrelay⟩ :=
    hplays.moves_iff
  refine ⟨before, enter, after, hentry, ?_, hrelay⟩
  rw [hmoves, h.accepts_iff hgen hdigits (clock.unixSeconds enter.handledAt) skewSteps, hspelled]
  simp only [String.toList_inj]

/-- The PIN of the RFC 6238 vector at 59 s, typed into a lock whose clock reads 29 s. -/
theorem pin_opens_bolt_rfc :
    generateAt rfcTotpRs rfcSecret 59 = .ok ⟨"287082", 1⟩ ∧
      (Device.start ⟨29⟩ rfcSecret 1).relayMoves rfcTotpCustom Device.earlyCode ≠ [] ∧
      ∃ before enter after,
        Entered rfcTotpCustom ⟨29⟩ rfcSecret 1 Device.earlyCode before enter after ∧
          (Device.start ⟨29⟩ rfcSecret 1).PulsesOnce rfcTotpCustom before enter after := by
  have hgen : generateAt rfcTotpRs rfcSecret 59 = .ok ⟨"287082", 1⟩ := by decide +kernel
  have hsome : (Trace.run (Device.step rfcTotpCustom) (Device.start ⟨29⟩ rfcSecret 1)
      Device.earlyCode).map (·.phase) = some .polling := by
    decide +kernel
  have hmoves : (Device.start ⟨29⟩ rfcSecret 1).relayMoves rfcTotpCustom Device.earlyCode ≠ [] := by
    decide +kernel
  obtain ⟨d, hrun, hphase⟩ := Option.map_eq_some_iff.mp hsome
  obtain ⟨before, enter, after, hentry, -, hpulse⟩ :=
    pin_opens_bolt sameHotp_rfc hgen (plays_earlyCode hrun (by decide +kernel) hphase)
  exact ⟨hgen, hmoves, before, enter, after, hentry, hpulse hmoves⟩

end Urheilulaatikko
