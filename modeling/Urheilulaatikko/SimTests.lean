import Urheilulaatikko.PinToBolt

/-!
# The simulated integration tests

`sim/run_sim_tests.py` of the firmware boots the real image on an emulator, types the code that its
own `totp` computes for the second after the build, and a code one larger, and looks at the console
and at the relay pin. Here the emulator's part is any run that plays the script (`Plays`); HMAC-SHA1
is a parameter.

`sim_tests` says what the two tests can rely on. The first one is sound: the code is accepted
whenever `Enter` is handled in the first half minute. The second one is not quite: the next larger
code is refused unless it happens to be the code of a neighbouring time step.
-/

namespace Urheilulaatikko.SimTests

open Lock Lock.WiegandScript Server.Totp

/-- `hmac.new(key, message, hashlib.sha1).digest()`. -/
abbrev HmacSha1 := List UInt8 → List UInt8 → Vector UInt8 20

variable (hmacSha1 : HmacSha1)

/-- `struct.pack(">Q", step)`. -/
def packBigEndian (step : Nat) : List UInt8 := (Positional.digits 256 8 step).map UInt8.ofNat

/-- The number that `totp` computes. -/
def hotp (secret : List UInt8) (step : Nat) : Nat :=
  let mac := hmacSha1 secret (packBigEndian step)
  let offset := mac[19].toNat &&& 0x0F
  let word := Positional.value 256 (((mac.toList.drop offset).take 4).map UInt8.toNat)
  (word &&& 0x7FFFFFFF) % 10 ^ 6

/-- The code of a time step. -/
def codeOf (secret : List UInt8) (step : Nat) : String :=
  String.ofList (sixDigits (hotp hmacSha1 secret step))

def totp (secret : List UInt8) (unixTime : Nat) : String := codeOf hmacSha1 secret (unixTime / 30)

/-- `wrong_code` of `main`. -/
def wrongCode (correctCode : String) : String :=
  String.ofList (sixDigits ((Nat.ofDigitChars 10 correctCode.toList 0 + 1) % 10 ^ 6))

theorem hotp_lt (secret : List UInt8) (step : Nat) : hotp hmacSha1 secret step < 10 ^ 6 :=
  Nat.mod_lt _ (by decide)

/-- `int` reads back what was printed. -/
theorem ofDigitChars_sixDigits {x : Nat} (hx : x < 10 ^ 6) :
    Nat.ofDigitChars 10 (sixDigits x) 0 = x := by
  have hread : ∀ (ds : List Nat), (∀ d ∈ ds, d < 10) → ∀ acc,
      Nat.ofDigitChars 10 (ds.map Nat.digitChar) acc = ds.foldl (fun acc d => acc * 10 + d) acc := by
    intro ds hds
    induction ds with
    | nil => exact fun acc => Nat.ofDigitChars_nil
    | cons d ds ih =>
        rw [List.forall_mem_cons] at hds
        intro acc
        rw [List.map_cons, Nat.ofDigitChars_cons_digitChar_of_lt_ten hds.1, ih hds.2,
          List.foldl_cons, Nat.mul_comm]
  rw [sixDigits, hread _ (Positional.digits_lt (by decide) 6 x)]
  exact Positional.value_digits hx

theorem sixDigits_inj {x y : Nat} (hx : x < 10 ^ 6) (hy : y < 10 ^ 6)
    (h : sixDigits x = sixDigits y) : x = y := by
  rw [← ofDigitChars_sixDigits hx, ← ofDigitChars_sixDigits hy, h]

/-- "Guaranteed different from correct_code". -/
theorem wrongCode_ne (secret : List UInt8) (step : Nat) :
    wrongCode (codeOf hmacSha1 secret step) ≠ codeOf hmacSha1 secret step := by
  intro h
  have hlt := hotp_lt hmacSha1 secret step
  rw [wrongCode, codeOf, String.toList_ofList, ofDigitChars_sixDigits hlt, ← String.toList_inj,
    String.toList_ofList, String.toList_ofList] at h
  have hsame := sixDigits_inj (Nat.mod_lt _ (by decide)) hlt h
  omega

section Tests

variable {hmacSha1} {totpCustom : TotpCustom} {buildEpoch : UInt64} {secret : List UInt8}
  {skewSteps : UInt8} {code : String} {startAt latency cadence : Nat} {es : List Device.Event}
  {d : Device}

variable (secret skewSteps) in
/-- `Enter` is answered by the codes of the time steps around the clock's. -/
theorem accepted_iff (hgen : GeneratesHotp totpCustom (hotp hmacSha1))
    {entered : Vector UInt8 pinLen} (hcode : code.toList.all Char.isDigit)
    (hentered : entered.toList = code.toList.map fun c => UInt8.ofNat (c.toNat - '0'.toNat))
    (now : UInt64) :
    totpMatches totpCustom secret entered now skewSteps = some true ↔
      ∃ c : Nat, c ≤ (2 ^ 64 - 1) / 30 ∧ |(c : Int) - (now.toNat / 30 : Int)| ≤ skewSteps.toNat ∧
        codeOf hmacSha1 secret c = code := by
  obtain ⟨hdigits, hspelled⟩ := spelled_of_entered hcode hentered
  obtain ⟨accepted, hmatches, hiff⟩ := hgen.totpMatches_iff secret entered now skewSteps
  rw [hmatches, Option.some.injEq, hiff]
  have hvalue (c : Nat) : hotp hmacSha1 secret c = enteredValue entered ↔
      codeOf hmacSha1 secret c = code := by
    rw [enteredValue_eq_iff hdigits (hotp_lt hmacSha1 secret c), hspelled, codeOf,
      ← String.toList_inj, String.toList_ofList]
  constructor
  · rintro ⟨c, hc, hnear, heq⟩
    exact ⟨c, hc, hnear, (hvalue c).mp heq⟩
  · rintro ⟨c, hc, hnear, heq⟩
    exact ⟨c, hc, hnear, (hvalue c).mpr heq⟩

/-- What the test of a correct code looks for: `access granted`, and a relay that goes high and
then, once a check comes `UNLOCK_DURATION` after the grant, low. -/
def Granted (totpCustom : TotpCustom) (device : Device) (before : List Device.Event)
    (enter : Device.Handled) (after : List Device.Event) : Prop :=
  enter.outcome = .unlocked ∧ device.PulsesOnce totpCustom before enter after

/-- What the test of a wrong code looks for: `access denied`, and a relay that never moves. -/
def Denied (enter : Device.Handled) (moves : List Level) : Prop :=
  enter.outcome = .rejected ∧ moves = []

/-- **What the simulated tests can rely on.** The image comes to its loop with the clock at the
second of the build. Let the script be played, and let the `Enter` be handled while the clock is at
most half a minute past the second the code is for. The code of that second is granted. The code
that is one larger is denied if and only if it is not by chance the code of another time step in the
window around the clock reading of this `Enter`. -/
theorem sim_tests (hgen : GeneratesHotp totpCustom (hotp hmacSha1))
    (hepoch : buildEpoch.toNat + 31 < 2 ^ 64)
    (h : Plays totpCustom ⟨buildEpoch⟩ secret 1 code startAt latency cadence es d) :
    let device := Device.start ⟨buildEpoch⟩ secret 1
    let targetTime := buildEpoch.toNat + 1
    Device.boot (Lock.buildEpoch buildEpoch) secret 1 = some device ∧
    ∃ before enter after, Entered totpCustom ⟨buildEpoch⟩ secret 1 es before enter after ∧
      (SystemClock.asSecs enter.handledAt ≤ 31 →
        (code = totp hmacSha1 secret targetTime →
          Granted totpCustom device before enter after) ∧
        (code = wrongCode (totp hmacSha1 secret targetTime) →
          (Denied enter (device.relayMoves totpCustom es) ↔
            ∀ c : Nat, c ≤ (2 ^ 64 - 1) / 30 → c ≠ targetTime / 30 →
              |(c : Int) - ((buildEpoch.toNat + SystemClock.asSecs enter.handledAt : Nat) / 30 :
                Int)| ≤ 1 → codeOf hmacSha1 secret c ≠ code))) := by
  obtain ⟨entered, before, enter, after, hentered, hentry, haccepted, hrejected⟩ := h.entry
  refine ⟨Device.boot_buildEpoch buildEpoch secret 1, before, enter, after, hentry, ?_⟩
  intro hsecs
  have hnow : (SystemClock.unixSeconds ⟨buildEpoch⟩ enter.handledAt).toNat =
      buildEpoch.toNat + SystemClock.asSecs enter.handledAt :=
    SystemClock.toNat_unixSeconds (by dsimp only; omega)
  have hiff := accepted_iff secret 1 hgen (h.isDigit) hentered
    (SystemClock.unixSeconds ⟨buildEpoch⟩ enter.handledAt)
  rw [hnow] at hiff
  constructor
  · intro hcode
    have hc : (buildEpoch.toNat + 1) / 30 ≤ (2 ^ 64 - 1) / 30 :=
      Nat.div_le_div_right (by omega)
    have hnear : |(((buildEpoch.toNat + 1) / 30 : Nat) : Int) -
        ((buildEpoch.toNat + SystemClock.asSecs enter.handledAt : Nat) / 30 : Int)| ≤
          (1 : UInt8).toNat := by
      have hone : (1 : UInt8).toNat = 1 := rfl
      rw [hone, abs_le]
      omega
    exact haccepted (hiff.mpr ⟨_, hc, hnear, hcode.symm⟩)
  · intro hcode
    have hother (c : Nat) (h : codeOf hmacSha1 secret c = code) :
        c ≠ (buildEpoch.toNat + 1) / 30 := by
      rintro rfl
      rw [hcode] at h
      exact wrongCode_ne hmacSha1 secret _ h.symm
    constructor
    · rintro ⟨hdenied, -⟩ c hc - hnear heq
      obtain ⟨hunlocked, -⟩ := haccepted (hiff.mpr ⟨c, hc, hnear, heq⟩)
      rw [hdenied] at hunlocked
      cases hunlocked
    · intro hnone
      apply hrejected
      intro hyes
      obtain ⟨c, hc, hnear, heq⟩ := hiff.mp hyes
      exact hnone c hc (hother c heq) hnear heq

end Tests

/-! ### The first counters of RFC 4226 -/

/-- HMAC-SHA1 as far as the first test values of the RFC tell it. -/
def rfcHmacSha1 : HmacSha1 := fun key message =>
  if key = rfcSecret ∧ message = packBigEndian 0 then
    #v[204, 147, 207, 24, 80, 141, 148, 147, 76, 100, 182, 93, 139, 167, 102, 127, 183, 205, 228, 176]
  else if key = rfcSecret ∧ message = packBigEndian 1 then
    #v[117, 164, 138, 25, 212, 203, 225, 0, 100, 78, 138, 193, 57, 126, 234, 116, 122, 45, 51, 171]
  else Vector.replicate 20 0

def firstTotpCustom : TotpCustom := fun _ _ secret t =>
  UInt64.ofNat (hotp rfcHmacSha1 secret (t.toNat / 30))

theorem generatesHotp_first : GeneratesHotp firstTotpCustom (hotp rfcHmacSha1) where
  eq secret t :=
    UInt64.toNat_ofNat_of_lt' (Nat.lt_trans (hotp_lt rfcHmacSha1 secret _) (by decide))
  lt secret t := hotp_lt rfcHmacSha1 secret (t.toNat / 30)

/-- The code of the first half minute, typed into an image that was built in its last second. -/
theorem sim_tests_first :
    ∃ before enter after,
      Entered firstTotpCustom ⟨29⟩ rfcSecret 1 Device.earlyCode before enter after ∧
      Granted firstTotpCustom (Device.start ⟨29⟩ rfcSecret 1) before enter after := by
  have hsome : (Trace.run (Device.step firstTotpCustom) (Device.start ⟨29⟩ rfcSecret 1)
      Device.earlyCode).map (·.phase) = some .polling := by
    decide +kernel
  obtain ⟨d, hrun, hphase⟩ := Option.map_eq_some_iff.mp hsome
  obtain ⟨-, before, enter, after, hentry, htests⟩ := sim_tests generatesHotp_first (by decide)
    (plays_earlyCode hrun (by decide +kernel) hphase)
  have hsoon : SystemClock.asSecs enter.handledAt ≤ 31 := by
    have hall : ∀ x ∈ (Device.start ⟨29⟩ rfcSecret 1).handled firstTotpCustom Device.earlyCode,
        SystemClock.asSecs x.handledAt ≤ 31 := by
      decide +kernel
    apply hall
    rw [hentry.handled_eq]
    exact List.mem_concat_self
  exact ⟨before, enter, after, hentry, (htests hsoon).1 (by decide +kernel)⟩

end Urheilulaatikko.SimTests
