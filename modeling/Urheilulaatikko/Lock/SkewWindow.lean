import Mathlib.Algebra.Order.Group.Abs
import Urheilulaatikko.Lock.Totp

/-!
# The skew window

`matches` goes through times, in seconds and with saturating additions; what the generator makes of
a time is its step of 30 s. Here the times are counted in steps: the candidates of a clock reading
are the steps at most `skew_steps` away from its own (`counter_candidate`, `candidate_of_counter`),
less those that no clock can show. `skew_window_exact` is `matches` in these terms.
-/

namespace Urheilulaatikko.Lock

open Machine

/-- `totp_custom` computes `hotp secret ⌊t / 30⌋` for the profile in use (steps of 30 s, six
digits). -/
structure GeneratesHotp (totpCustom : TotpCustom) (hotp : List UInt8 → Nat → Nat) : Prop where
  eq : ∀ secret t, (totpCustom 30 6 secret t).toNat = hotp secret (t.toNat / 30)
  lt : ∀ secret (t : UInt64), hotp secret (t.toNat / 30) < 10 ^ 6

/-! ## Time steps

The clock is moved by whole steps and saturates at both ends of 64 bits. Which time steps are
reached that way is a matter of the counters alone. -/

/-- The time step of a candidate is at most as far from the clock's as it was asked to be, also
where the clock saturates. -/
theorem counter_candidate (now : UInt64) {k : Int} {s : Nat} (hlo : -(s : Int) ≤ k) (hhi : k ≤ s) :
    |((saturatingAddSigned now (k * 30)).toNat / 30 : Int) - (now.toNat / 30 : Int)| ≤ s := by
  -- saturation only moves the candidate towards the clock
  have ht := toNat_saturatingAddSigned now (k * 30)
  have hnow := now.toNat_lt
  rw [abs_le]
  omega

/-- Every time step that a clock can show is reached from every other. -/
theorem candidate_of_counter (now t : UInt64) :
    (saturatingAddSigned now (((t.toNat / 30 : Int) - (now.toNat / 30 : Int)) * 30)).toNat / 30 =
      t.toNat / 30 := by
  have hsat := toNat_saturatingAddSigned now (((t.toNat / 30 : Int) - (now.toNat / 30 : Int)) * 30)
  have hnow := now.toNat_lt
  have ht := t.toNat_lt
  -- at the top the candidate saturates at `2 ^ 64 - 1`, still inside the step of `t`
  omega

/-- A time step that a clock can show begins at a time it can show. -/
theorem toNat_start_of_step {c : Nat} (hc : c ≤ (2 ^ 64 - 1) / 30) :
    (UInt64.ofNat (30 * c)).toNat = 30 * c := by
  apply UInt64.toNat_ofNat_of_lt'
  show 30 * c < 2 ^ 64
  omega

/-- The time steps that `matches` tries are those of the window, up to both ends of the clock. -/
theorem exists_candidate_iff (now : UInt64) (s c : Nat) :
    (∃ k : Int, -(s : Int) ≤ k ∧ k ≤ s ∧ (saturatingAddSigned now (k * 30)).toNat / 30 = c) ↔
      c ≤ (2 ^ 64 - 1) / 30 ∧ |(c : Int) - (now.toNat / 30 : Int)| ≤ s := by
  constructor
  · rintro ⟨k, hlo, hhi, rfl⟩
    refine ⟨?_, by simpa using counter_candidate now hlo hhi⟩
    have hlt := (saturatingAddSigned now (k * 30)).toNat_lt
    omega
  · rintro ⟨hc, hnear⟩
    have hcounter := candidate_of_counter now (UInt64.ofNat (30 * c))
    rw [toNat_start_of_step hc, Nat.mul_div_cancel_left c (by decide)] at hcounter
    rw [abs_le] at hnear
    refine ⟨(c : Int) - (now.toNat / 30 : Int), hnear.1, hnear.2, ?_⟩
    rw [← hcounter]
    congr 4
    omega

/-! ## `matches`

A code is accepted iff it is that of a time step in the window, and a larger skew accepts no
less. -/

section Matches

variable {totpCustom : TotpCustom} {hotp : List UInt8 → Nat → Nat}

theorem GeneratesHotp.toNat_candidate (h : GeneratesHotp totpCustom hotp) (secret : List UInt8)
    (now : UInt64) (k : Int) :
    (candidate totpCustom secret now k).toNat =
      hotp secret ((saturatingAddSigned now (k * 30)).toNat / 30) := by
  have hlt := h.lt secret (saturatingAddSigned now (k * 30))
  have heq := h.eq secret (saturatingAddSigned now (k * 30))
  show ((totpCustom 30 6 secret (saturatingAddSigned now (k * 30))).toUInt32).toNat = _
  rw [UInt64.toNat_toUInt32, heq]
  omega

theorem GeneratesHotp.totpMatches_iff (h : GeneratesHotp totpCustom hotp) (secret : List UInt8)
    (entered : Vector UInt8 pinLen) (now : UInt64) (skewSteps : UInt8) :
    ∃ accepted, totpMatches totpCustom secret entered now skewSteps = some accepted ∧
      (accepted = true ↔ ∃ c : Nat, c ≤ (2 ^ 64 - 1) / 30 ∧
        |(c : Int) - (now.toNat / 30 : Int)| ≤ skewSteps.toNat ∧
        hotp secret c = enteredValue entered) := by
  obtain ⟨accepted, hrun, hiff⟩ := totpMatches_spec totpCustom secret entered now skewSteps
  refine ⟨accepted, hrun, hiff.trans ?_⟩
  constructor
  · rintro ⟨k, hlo, hhi, hvalue⟩
    rw [h.toNat_candidate] at hvalue
    obtain ⟨hc, hnear⟩ := (exists_candidate_iff now skewSteps.toNat _).mp ⟨k, hlo, hhi, rfl⟩
    exact ⟨_, hc, hnear, hvalue⟩
  · rintro ⟨c, hc, hnear, hvalue⟩
    obtain ⟨k, hlo, hhi, hcounter⟩ := (exists_candidate_iff now _ c).mpr ⟨hc, hnear⟩
    refine ⟨k, hlo, hhi, ?_⟩
    rw [h.toNat_candidate, hcounter, hvalue]

/-- **The skew window is exact.** `matches` returns on all inputs, also on bytes that are no digits
and at both ends of the clock, and accepts iff the entered value is the code of a time step at most
`skewSteps` away from the clock's. Those are exactly the steps it tries, so a larger skew accepts
whatever a smaller one does. -/
theorem skew_window_exact (h : GeneratesHotp totpCustom hotp) (secret : List UInt8)
    (entered : Vector UInt8 pinLen) (now : UInt64) (skewSteps : UInt8) :
    ∃ accepted, totpMatches totpCustom secret entered now skewSteps = some accepted ∧
      (accepted = true ↔ ∃ c : Nat, c ≤ (2 ^ 64 - 1) / 30 ∧
        |(c : Int) - (now.toNat / 30 : Int)| ≤ skewSteps.toNat ∧
        hotp secret c = enteredValue entered) ∧
      (∀ c : Nat,
        (∃ k : Int, -(skewSteps.toNat : Int) ≤ k ∧ k ≤ skewSteps.toNat ∧
          (saturatingAddSigned now (k * 30)).toNat / 30 = c) ↔
        c ≤ (2 ^ 64 - 1) / 30 ∧ |(c : Int) - (now.toNat / 30 : Int)| ≤ skewSteps.toNat) ∧
      ∀ larger, skewSteps ≤ larger → accepted = true →
        totpMatches totpCustom secret entered now larger = some true := by
  obtain ⟨accepted, hrun, hiff⟩ := h.totpMatches_iff secret entered now skewSteps
  refine ⟨accepted, hrun, hiff, exists_candidate_iff now skewSteps.toNat, ?_⟩
  intro larger hle haccepted
  obtain ⟨c, hc, hnear, hvalue⟩ := hiff.mp haccepted
  obtain ⟨accepted', hrun', hiff'⟩ := h.totpMatches_iff secret entered now larger
  have hskew : (skewSteps.toNat : Int) ≤ larger.toNat := by
    exact_mod_cast UInt8.le_iff_toNat_le.mp hle
  rw [hrun', hiff'.mpr ⟨c, hc, hnear.trans hskew, hvalue⟩]

end Matches

/-! ### The RFC 6238 vector at 59 s -/

/-- The ASCII secret `12345678901234567890`. -/
def vectorSecret : List UInt8 := "12345678901234567890".toUTF8.toList

/-- Its codes in the first steps, cut to six digits. -/
def vectorHotp (secret : List UInt8) (counter : Nat) : Nat :=
  if secret = vectorSecret then
    match counter with
    | 0 => 755224
    | 1 => 287082
    | 2 => 359152
    | 3 => 969429
    | _ => 0
  else 0

def vectorTotpCustom : TotpCustom := fun _ _ secret t =>
  UInt64.ofNat (vectorHotp secret (t.toNat / 30))

theorem vectorHotp_lt (secret : List UInt8) (counter : Nat) :
    vectorHotp secret counter < 10 ^ 6 := by
  unfold vectorHotp
  split
  · split <;> decide
  · decide

theorem generatesHotp_vector : GeneratesHotp vectorTotpCustom vectorHotp where
  eq secret t :=
    UInt64.toNat_ofNat_of_lt' (Nat.lt_trans (vectorHotp_lt secret (t.toNat / 30)) (by decide))
  lt secret t := vectorHotp_lt secret (t.toNat / 30)

theorem skew_window_exact_vector :
    totpMatches vectorTotpCustom vectorSecret #v[2, 8, 7, 0, 8, 2] 59 0 = some true ∧
      totpMatches vectorTotpCustom vectorSecret #v[2, 8, 7, 0, 8, 2] 59 1 = some true := by
  have hzero : totpMatches vectorTotpCustom vectorSecret #v[2, 8, 7, 0, 8, 2] 59 0 = some true := by
    decide +kernel
  obtain ⟨accepted, hrun, -, -, hmono⟩ :=
    skew_window_exact generatesHotp_vector vectorSecret #v[2, 8, 7, 0, 8, 2] 59 0
  rw [hzero, Option.some.injEq] at hrun
  exact ⟨hzero, hmono 1 (by decide) hrun.symm⟩

end Urheilulaatikko.Lock
