import Urheilulaatikko.Lib.Positional
import Urheilulaatikko.Lock.PinEntry

/-!
# Checking an entered code

`totp.rs` of the lock. The code generator itself, `totp_custom::<Sha1>` of the `totp_embed` crate,
is a parameter. All arithmetic is checked; `totpMatches_spec` shows that no check ever fails, and
what the loop over the skew window decides.
-/

namespace Urheilulaatikko.Lock

open Machine

/-- `totp_custom::<Sha1>(step, digits, secret, time)`. -/
abbrev TotpCustom := UInt64 → UInt32 → List UInt8 → UInt64 → UInt64

/-- `DIGITS`. -/
def digits : UInt32 := 6

/-- `STEP_SECONDS`. -/
def stepSeconds : UInt64 := 30

/-- `acc * 10 + d as u32`; `none`: a `u32` overflow. -/
def appendDigit (acc : UInt32) (d : UInt8) : Option UInt32 := do
  let tens ← mulU32 acc 10
  addU32 tens d.toUInt32

def digitsToValue (entered : Vector UInt8 pinLen) : Option UInt32 :=
  entered.toList.foldlM appendDigit 0

section Matches

variable (totpCustom : TotpCustom)

/-- The `for` loop of `matches` over the steps that are left; `none`: an `i64` overflow. -/
def matchesLoop (secret : List UInt8) (enteredValue : UInt32) (now : UInt64) :
    List Int → Option Bool
  | [] => some false
  | step :: rest => do
      let offset ← mulI64 step stepSeconds.toNat
      let candidateTime := saturatingAddSigned now offset
      if (totpCustom stepSeconds digits secret candidateTime).toUInt32 = enteredValue then
        some true
      else
        matchesLoop secret enteredValue now rest

/-- `totp::matches`. -/
def totpMatches (secret : List UInt8) (entered : Vector UInt8 pinLen) (now : UInt64)
    (skewSteps : UInt8) : Option Bool := do
  let enteredValue ← digitsToValue entered
  let first ← negI64 skewSteps.toNat
  matchesLoop totpCustom secret enteredValue now (inclusiveRange first skewSteps.toNat)

end Matches

/-! ## What the check decides

The loop returns at the first time step that matches. What it decides is therefore whether there is
one, and the arithmetic on the way fits for every input. -/

/-- The value of an entered code: base ten, most significant digit first. -/
def enteredValue (entered : Vector UInt8 pinLen) : Nat :=
  Positional.value 10 (entered.toList.map UInt8.toNat)

/-- The fold never overflows on numbers that fit, and computes the positional value. -/
theorem foldlM_appendDigit {ds : List UInt8}
    (h : Positional.value 10 (ds.map UInt8.toNat) < 2 ^ 32) :
    ∃ v, ds.foldlM appendDigit 0 = some v ∧
      v.toNat = Positional.value 10 (ds.map UInt8.toNat) := by
  induction ds using List.reverseRecOn with
  | nil => exact ⟨0, rfl, rfl⟩
  | append_singleton ds d ih =>
      rw [List.map_append, List.map_singleton, Positional.value_snoc] at h ⊢
      obtain ⟨v, hv, hval⟩ := ih (by omega)
      have hten : (10 : UInt32).toNat = 10 := rfl
      obtain ⟨tens, htens, htensval⟩ := mulU32_eq (a := v) (b := 10) (by rw [hten]; omega)
      have hd : d.toUInt32.toNat = d.toNat := UInt8.toNat_toUInt32 d
      obtain ⟨sum, hsum, hsumval⟩ := addU32_eq (a := tens) (b := d.toUInt32)
        (by rw [htensval, hten, hd]; omega)
      refine ⟨sum, ?_, ?_⟩
      · rw [List.foldlM_append, hv]
        simp [appendDigit, htens, hsum]
      · rw [hsumval, htensval, hten, hd, hval]

/-- Six bytes, even if they are no digits, denote a number far below `2 ^ 32`. -/
theorem enteredValue_lt (entered : Vector UInt8 pinLen) : enteredValue entered < 2 ^ 32 := by
  have hbytes : ∀ d ∈ entered.toList.map UInt8.toNat, d ≤ 255 := by
    intro d hd
    obtain ⟨byte, -, rfl⟩ := List.mem_map.mp hd
    have := byte.toNat_lt
    omega
  have hle : 9 * enteredValue entered + 255 ≤ 255 * 10 ^ (entered.toList.map UInt8.toNat).length :=
    Positional.value_le hbytes
  have hlen : (entered.toList.map UInt8.toNat).length = 6 := by simp
  rw [hlen] at hle
  omega

theorem digitsToValue_eq (entered : Vector UInt8 pinLen) :
    ∃ v, digitsToValue entered = some v ∧ v.toNat = enteredValue entered :=
  foldlM_appendDigit (enteredValue_lt entered)

/-- The code that the generator gives for the time step `step` steps away from `now`. -/
def candidate (totpCustom : TotpCustom) (secret : List UInt8) (now : UInt64) (step : Int) :
    UInt32 :=
  (totpCustom stepSeconds digits secret (saturatingAddSigned now (step * 30))).toUInt32

theorem matchesLoop_eq (totpCustom : TotpCustom) (secret : List UInt8) (v : UInt32) (now : UInt64)
    {steps : List Int} (hsteps : ∀ step ∈ steps, -255 ≤ step ∧ step ≤ 255) :
    ∃ b, matchesLoop totpCustom secret v now steps = some b ∧
      (b = true ↔ ∃ step ∈ steps, candidate totpCustom secret now step = v) := by
  induction steps with
  | nil => exact ⟨false, rfl, by simp⟩
  | cons step rest ih =>
      obtain ⟨b, hb, hiff⟩ := ih fun s hs => hsteps s (by simp [hs])
      have hstep := hsteps step (by simp)
      have hmul : mulI64 step stepSeconds.toNat = some (step * 30) := by
        apply mulI64_eq
        show -2 ^ 63 ≤ step * 30 ∧ step * 30 < 2 ^ 63
        omega
      simp only [matchesLoop, hmul, Option.bind_eq_bind, Option.bind_some]
      -- a hit ends the loop; otherwise the rest decides
      by_cases hc : candidate totpCustom secret now step = v
      · refine ⟨true, if_pos hc, ?_⟩
        simp [hc]
      · refine ⟨b, ?_, ?_⟩
        · rw [← hb]
          exact if_neg hc
        · rw [hiff]
          simp [hc]

/-- **`matches` in one sentence**: it always returns, and accepts iff some step of the skew window
has the entered value as its code. -/
theorem totpMatches_spec (totpCustom : TotpCustom) (secret : List UInt8)
    (entered : Vector UInt8 pinLen) (now : UInt64) (skewSteps : UInt8) :
    ∃ b, totpMatches totpCustom secret entered now skewSteps = some b ∧
      (b = true ↔ ∃ step : Int, -(skewSteps.toNat : Int) ≤ step ∧ step ≤ skewSteps.toNat ∧
        (candidate totpCustom secret now step).toNat = enteredValue entered) := by
  obtain ⟨v, hv, hval⟩ := digitsToValue_eq entered
  have hskew := skewSteps.toNat_lt
  have hneg : negI64 skewSteps.toNat = some (-(skewSteps.toNat : Int)) := by
    apply negI64_eq
    show -2 ^ 63 ≤ -(skewSteps.toNat : Int) ∧ -(skewSteps.toNat : Int) < 2 ^ 63
    omega
  -- the skew is a `u8`, so no product comes near the range of an `i64`
  have hsteps : ∀ step ∈ inclusiveRange (-(skewSteps.toNat : Int)) skewSteps.toNat,
      -255 ≤ step ∧ step ≤ 255 := by
    intro step hstep
    rw [mem_inclusiveRange] at hstep
    omega
  obtain ⟨b, hb, hiff⟩ := matchesLoop_eq totpCustom secret v now hsteps
  refine ⟨b, ?_, ?_⟩
  · simp only [totpMatches, hv, hneg, Option.bind_eq_bind, Option.bind_some]
    exact hb
  · rw [hiff]
    constructor
    · rintro ⟨step, hmem, hc⟩
      rw [mem_inclusiveRange] at hmem
      exact ⟨step, hmem.1, hmem.2, by rw [hc, hval]⟩
    · rintro ⟨step, hfirst, hlast, hc⟩
      refine ⟨step, mem_inclusiveRange.mpr ⟨hfirst, hlast⟩, ?_⟩
      apply UInt32.toNat_inj.mp
      rw [hc, hval]

end Urheilulaatikko.Lock
