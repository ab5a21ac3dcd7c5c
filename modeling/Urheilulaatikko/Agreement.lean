import Mathlib.Algebra.Order.Group.Abs
import Urheilulaatikko.Lock.Controller
import Urheilulaatikko.Lock.SkewWindow
import Urheilulaatikko.Server.Totp

/-!
# Server and lock agree on the PIN

The server writes the PIN of a time step as a string of six characters; the lock compares the value
of six buffered nibbles with the codes of the steps around its own clock. The two share the secret
and nothing else. Both generators come from libraries; `SameHotp` is all that is assumed of them.

* `counter_near_of_window`, `window_of_clocks_near` — how long a PIN is good for, in time steps.
* `accepts_iff` — a submitted code is accepted iff it is what the server shows at a time at most the
  skew away.
* `server_lock_agree` — the same through both programs, from string to bolt.
-/

namespace Urheilulaatikko

open Machine Trace Lock Server.Totp

/-- Both libraries compute `hotp secret ⌊t / 30⌋` for the profile in use (SHA-1, six digits, steps
of 30 s), and `totp_rs` renders it as six zero-padded decimal digits. -/
structure SameHotp (totpRs : TotpRs) (totpCustom : TotpCustom) (hotp : List UInt8 → Nat → Nat) :
    Prop where
  lt     : ∀ secret counter, hotp secret counter < 10 ^ 6
  server : ∀ builder totp t, builder.algorithm = .sha1 → builder.digits = 6 →
    builder.stepDuration = 30 → totpRs.build builder = .ok totp →
    (totpRs.generate totp t).toList = sixDigits (hotp builder.secret (t.toNat / 30))
  lock   : ∀ secret t, (totpCustom 30 6 secret t).toNat = hotp secret (t.toNat / 30)

/-! ## Time steps

The window in which a PIN is good, in seconds and in steps of 30 s. -/

/-- How long a PIN shown at `T` is good for: `validForSeconds` completes the step of `T`, and the
skew adds whole steps on both sides. -/
theorem counter_near_of_window {T L s : Nat}
    (hlo : (T : Int) + (30 - T % 30 : Nat) - 30 * (s + 1) ≤ L)
    (hhi : (L : Int) < T + (30 - T % 30 : Nat) + 30 * s) :
    |(T / 30 : Int) - (L / 30 : Int)| ≤ s := by
  rw [abs_le]
  omega

/-- Clocks at most `s` steps of 30 s apart are inside that window. -/
theorem window_of_clocks_near {T L s : Nat} (h : |(T : Int) - L| ≤ 30 * s) :
    (T : Int) + (30 - T % 30 : Nat) - 30 * (s + 1) ≤ L ∧
      (L : Int) < T + (30 - T % 30 : Nat) + 30 * s := by
  rw [abs_le] at h
  omega

/-! ## From characters to values and back

The server prints six characters, the lock compares numbers. Nothing is lost on the way, leading
zeros included. -/

/-- The keypad code of a character: `0` to `9` for the ten digits. -/
def keypadCode (c : Char) : Nat := c.toNat - 48

theorem keypadCode_digitChar {d : Nat} (hd : d < 10) : keypadCode (Nat.digitChar d) = d := by
  rw [keypadCode, Nat.toNat_digitChar_of_lt_ten hd, Nat.add_sub_cancel_left]

theorem map_keypadCode {ds : List Nat} (hds : ∀ d ∈ ds, d < 10) :
    (ds.map Nat.digitChar).map keypadCode = ds := by
  rw [List.map_map]
  conv_rhs => rw [← List.map_id ds]
  apply List.map_congr_left
  intro d hd
  exact keypadCode_digitChar (hds d hd)

/-- A code of six digits has the value of a PIN iff it spells the PIN, leading zeros included. -/
theorem enteredValue_eq_iff {code : Vector UInt8 pinLen} (hcode : ∀ d ∈ code.toList, d.toNat < 10)
    {x : Nat} (hx : x < 10 ^ 6) :
    x = enteredValue code ↔ sixDigits x = code.toList.map fun d => Nat.digitChar d.toNat := by
  have hdigits : ∀ d ∈ code.toList.map UInt8.toNat, d < 10 := by
    intro d hd
    obtain ⟨byte, hmem, rfl⟩ := List.mem_map.mp hd
    exact hcode byte hmem
  have hspell : code.toList.map (fun d => Nat.digitChar d.toNat) =
      (code.toList.map UInt8.toNat).map Nat.digitChar := by
    rw [List.map_map]
    rfl
  rw [hspell]
  constructor
  · intro h
    have hback := Positional.digits_value (by omega) hdigits
    simp only [List.length_map, Vector.length_toList] at hback
    rw [h, sixDigits, enteredValue, hback]
  · intro h
    have hx' : Positional.digits 10 6 x = code.toList.map UInt8.toNat := by
      rw [← map_keypadCode (Positional.digits_lt (by omega) 6 x), ← map_keypadCode hdigits, ← h]
      rfl
    rw [enteredValue, ← hx', Positional.value_digits hx]

/-! ## The two generators

Both libraries compute the same function, so accepting a code is a matter of the time steps only. -/

namespace SameHotp

variable {totpRs : TotpRs} {totpCustom : TotpCustom} {hotp : List UInt8 → Nat → Nat}
  {secret : List UInt8}

theorem generatesHotp (h : SameHotp totpRs totpCustom hotp) : GeneratesHotp totpCustom hotp where
  eq := h.lock
  lt secret t := h.lt secret (t.toNat / 30)

theorem toList_pin (h : SameHotp totpRs totpCustom hotp) {T : UInt64} {generated : GeneratedPin}
    (hgen : generateAt totpRs secret T = .ok generated) :
    generated.pin.toList = sixDigits (hotp secret (T.toNat / 30)) := by
  obtain ⟨totp, hbuild, rfl⟩ := generateAt_eq_ok_iff.mp hgen
  rw [generator_eq_ok_iff] at hbuild
  apply h.server _ totp T _ _ _ hbuild <;> rfl

/-- **What the lock accepts is what the server shows**, at a time at most the skew away. -/
theorem accepts_iff (h : SameHotp totpRs totpCustom hotp) {T : UInt64} {generated : GeneratedPin}
    (hgen : generateAt totpRs secret T = .ok generated) {code : Vector UInt8 pinLen}
    (hcode : ∀ d ∈ code.toList, d.toNat < 10) (now : UInt64) (skewSteps : UInt8) :
    totpMatches totpCustom secret code now skewSteps = some true ↔
      ∃ T' generated', generateAt totpRs secret T' = .ok generated' ∧
        |(T'.toNat / 30 : Int) - (now.toNat / 30 : Int)| ≤ skewSteps.toNat ∧
        generated'.pin.toList = code.toList.map fun d => Nat.digitChar d.toNat := by
  obtain ⟨accepted, hrun, hiff⟩ := h.generatesHotp.totpMatches_iff secret code now skewSteps
  rw [hrun, Option.some.injEq, hiff]
  constructor
  · -- the server shows the code when the time step begins
    rintro ⟨c, hc, hnear, hvalue⟩
    have hT := toNat_start_of_step hc
    obtain ⟨totp, hbuild, -⟩ := generateAt_eq_ok_iff.mp hgen
    have hgen' : generateAt totpRs secret (UInt64.ofNat (30 * c)) = .ok _ :=
      generateAt_eq_ok_iff.mpr ⟨totp, hbuild, rfl⟩
    refine ⟨_, _, hgen', ?_, ?_⟩
    · have hstep : ((30 * c : Nat) : Int) / 30 = c := by omega
      rw [hT, hstep]
      exact hnear
    · rw [h.toList_pin hgen', hT, Nat.mul_div_cancel_left c (by decide)]
      exact (enteredValue_eq_iff hcode (h.lt _ _)).mp hvalue
  · rintro ⟨T', generated', hgen', hnear, hpin⟩
    rw [h.toList_pin hgen', ← enteredValue_eq_iff hcode (h.lt _ _)] at hpin
    have hT := T'.toNat_lt
    exact ⟨T'.toNat / 30, by omega, by exact_mod_cast hnear, hpin⟩

end SameHotp

/-! ## From the server's string to the bolt

The characters become keypresses, the keypresses frames, and `Enter` finds the digits in the
buffer. -/

section Bolt

variable {totpRs : TotpRs} {totpCustom : TotpCustom} {hotp : List UInt8 → Nat → Nat}
  {α : Type} [Actuator α] {secret : List UInt8} {skewSteps : UInt8} {actuator : α}
  {bursts typed : List Burst} {s : Session α}

/-- Typing the characters of `pin` and then `#` unlocks, with the clock at `L` for the `#` and
anywhere for the digits. -/
def TypingUnlocks (totpCustom : TotpCustom) (s : Session α) (pin : String) (L : UInt64) : Prop :=
  ∀ typed : List Burst,
    typed.map (·.bits) = pin.toList.map (fun c => nibbleBits (keypadCode c)) →
    ∃ s', run (Session.step totpCustom) s (typed ++ [⟨nibbleBits 11, L⟩]) = some s' ∧
      s'.outcomes.getLast? = some .unlocked

/-- The keypad sends the digits it is given. -/
theorem map_decodeFrame_typed {ds : List Nat} (hds : ∀ d ∈ ds, d < 10)
    (htyped : typed.map (·.bits) = (ds.map Nat.digitChar).map fun c => nibbleBits (keypadCode c)) :
    typed.map (fun b => decodeFrame b.bits) =
      (ds.map UInt8.ofNat).map fun d => some (.digit d) := by
  have hsplit : typed.map (fun b => decodeFrame b.bits) =
      (typed.map (·.bits)).map decodeFrame := by
    rw [List.map_map]
    rfl
  rw [hsplit, htyped, List.map_map, List.map_map, List.map_map]
  apply List.map_congr_left
  intro d hd
  show decodeFrame (nibbleBits (keypadCode (Nat.digitChar d))) = _
  rw [keypadCode_digitChar (hds d hd), decodeFrame_nibbleBits_digit (hds d hd)]
  rfl

/-- A controller with an empty buffer has seen no digit since the last reset. -/
theorem typedDigits_of_empty
    (hrun : run (Session.step totpCustom) (Session.start secret skewSteps actuator) bursts = some s)
    (hempty : s.controller.entry.len = 0) : typedDigits (framesOf bursts) = [] := by
  obtain ⟨s', hrun', hsound, -⟩ := Session.run_sound totpCustom secret skewSteps actuator bursts
  rw [hrun] at hrun'
  cases hrun'
  have hfill := hsound.holds.len
  rw [hempty] at hfill
  exact List.length_eq_zero_iff.mp ((PinEntry.fill_eq_zero_iff _).mp hfill.symm)

theorem typingUnlocks_of_counter_near (h : SameHotp totpRs totpCustom hotp) {T L : UInt64}
    {generated : GeneratedPin} (hgen : generateAt totpRs secret T = .ok generated)
    (hrun : run (Session.step totpCustom) (Session.start secret skewSteps actuator) bursts = some s)
    (hempty : s.controller.entry.len = 0)
    (hnear : |(T.toNat / 30 : Int) - (L.toNat / 30 : Int)| ≤ skewSteps.toNat) :
    TypingUnlocks totpCustom s generated.pin L := by
  intro typed htyped
  let ds := Positional.digits 10 6 (hotp secret (T.toNat / 30))
  have hds : ∀ d ∈ ds, d < 10 := Positional.digits_lt (by omega) 6 _
  rw [h.toList_pin hgen] at htyped
  have henter : decodeFrame (Burst.mk (nibbleBits 11) L).bits = some .enter :=
    decodeFrame_nibbleBits_enter
  obtain ⟨s', hrun', hlast⟩ := Session.run_digits_enter totpCustom hrun
    (map_decodeFrame_typed hds htyped) henter
  refine ⟨s', hrun', ?_⟩
  rw [hlast, typedDigits_of_empty hrun hempty, List.nil_append]
  have hlen : (ds.map UInt8.ofNat).length = pinLen := by simp [ds]
  have hcode : (PinEntry.lastSix (ds.map UInt8.ofNat)).toList = ds.map UInt8.ofNat :=
    PinEntry.toList_lastSix_append [] hlen
  have hback : ∀ d ∈ ds, (UInt8.ofNat d).toNat = d := by
    intro d hd
    exact UInt8.toNat_ofNat_of_lt' (Nat.lt_trans (hds d hd) (by decide))
  have haccepts : totpMatches totpCustom secret (PinEntry.lastSix (ds.map UInt8.ofNat)) L
      skewSteps = some true := by
    rw [h.accepts_iff hgen]
    · refine ⟨T, generated, hgen, hnear, ?_⟩
      rw [h.toList_pin hgen, hcode, List.map_map]
      apply List.map_congr_left
      intro d hd
      show Nat.digitChar d = Nat.digitChar (UInt8.ofNat d).toNat
      rw [hback d hd]
    · rw [hcode]
      intro d hd
      obtain ⟨n, hn, rfl⟩ := List.mem_map.mp hd
      rw [hback n hn]
      exact hds n hn
  simp [enterOutcome, hlen, haccepts]

/-- Six digits and `Enter` that unlock spell a PIN of the server. -/
theorem pin_of_unlocked (h : SameHotp totpRs totpCustom hotp) {T : UInt64}
    {generated : GeneratedPin} (hgen : generateAt totpRs secret T = .ok generated)
    (hrun : run (Session.step totpCustom) (Session.start secret skewSteps actuator) bursts = some s)
    {enter : Burst} {ds : List UInt8} {s' : Session α} (hlen : ds.length = 6)
    (htyped : typed.map (fun b => decodeFrame b.bits) = ds.map fun d => some (.digit d))
    (henter : decodeFrame enter.bits = some .enter)
    (hrun' : run (Session.step totpCustom) s (typed ++ [enter]) = some s')
    (hlast : s'.outcomes.getLast? = some .unlocked) :
    ∃ T' generated', generateAt totpRs secret T' = .ok generated' ∧
      |(T'.toNat / 30 : Int) - (enter.now.toNat / 30 : Int)| ≤ skewSteps.toNat ∧
      generated'.pin.toList = ds.map fun d => Nat.digitChar d.toNat := by
  obtain ⟨s'', hrun'', hlast'⟩ := Session.run_digits_enter totpCustom hrun htyped henter
  rw [hrun'] at hrun''
  cases hrun''
  rw [hlast, Option.some.injEq, enterOutcome] at hlast'
  have hcode := PinEntry.toList_lastSix_append (typedDigits (framesOf bursts)) hlen
  split at hlast'
  · split at hlast'
    · next haccepts =>
        rw [h.accepts_iff hgen] at haccepts
        · rwa [hcode] at haccepts
        · rw [hcode]
          intro d hd
          -- every typed digit came out of `decode_frame`
          have hmem : some (Frame.digit d) ∈ typed.map (fun b => decodeFrame b.bits) := by
            rw [htyped]
            exact List.mem_map.mpr ⟨d, hd, rfl⟩
          obtain ⟨b, -, hb⟩ := List.mem_map.mp hmem
          exact toNat_lt_of_decodeFrame hb
    · cases hlast'
  · cases hlast'

/-- **Server and lock agree.** From any state of the lock with an empty buffer, the PIN the server
shows at `T` unlocks while the lock's clock is within the window that `validForSeconds` and the skew
span, in particular while the clocks are at most `30 · skew` seconds apart. Conversely six digits
that unlock at `enter.now` are, character for character, a PIN the server shows at a time whose
step is at most the skew away. -/
theorem server_lock_agree (h : SameHotp totpRs totpCustom hotp) {T : UInt64}
    {generated : GeneratedPin} (hgen : generateAt totpRs secret T = .ok generated)
    (hrun : run (Session.step totpCustom) (Session.start secret skewSteps actuator) bursts =
      some s) :
    (s.controller.entry.len = 0 → ∀ L : UInt64,
      ((T.toNat : Int) + generated.validForSeconds.toNat - 30 * (skewSteps.toNat + 1) ≤ L.toNat →
        (L.toNat : Int) < T.toNat + generated.validForSeconds.toNat + 30 * skewSteps.toNat →
        TypingUnlocks totpCustom s generated.pin L) ∧
      (|(T.toNat : Int) - L.toNat| ≤ 30 * skewSteps.toNat →
        TypingUnlocks totpCustom s generated.pin L)) ∧
    (∀ (typed : List Burst) (enter : Burst) (ds : List UInt8) (s' : Session α),
      ds.length = 6 →
      typed.map (fun b => decodeFrame b.bits) = ds.map (fun d => some (.digit d)) →
      decodeFrame enter.bits = some .enter →
      run (Session.step totpCustom) s (typed ++ [enter]) = some s' →
      s'.outcomes.getLast? = some .unlocked →
      ∃ T' generated', generateAt totpRs secret T' = .ok generated' ∧
        |(T'.toNat / 30 : Int) - (enter.now.toNat / 30 : Int)| ≤ skewSteps.toNat ∧
        generated'.pin.toList = ds.map fun d => Nat.digitChar d.toNat) := by
  have hvalid : generated.validForSeconds.toNat = 30 - T.toNat % 30 := by
    obtain ⟨totp, -, rfl⟩ := generateAt_eq_ok_iff.mp hgen
    exact toNat_validForSeconds T
  refine ⟨?_, ?_⟩
  · intro hempty L
    rw [hvalid]
    have hwindow := fun hlo hhi => typingUnlocks_of_counter_near h hgen hrun hempty
      (counter_near_of_window (T := T.toNat) (L := L.toNat) (s := skewSteps.toNat) hlo hhi)
    refine ⟨hwindow, ?_⟩
    intro hclocks
    obtain ⟨hlo, hhi⟩ := window_of_clocks_near hclocks
    exact hwindow hlo hhi
  · intro typed enter ds s' hlen htyped henter hrun' hlast
    exact pin_of_unlocked h hgen hrun hlen htyped henter hrun' hlast

end Bolt

/-! ### The RFC 6238 secret, at a PIN with a leading zero -/

def rfcTotpCustom : TotpCustom := fun _ _ secret t => UInt64.ofNat (rfcHotp secret (t.toNat / 30))

theorem sameHotp_rfc : SameHotp rfcTotpRs rfcTotpCustom rfcHotp where
  lt := rfcHotp_lt
  server builder totp t _ _ _ hbuild := by
    have htotp : builder = totp := by
      simp only [rfcTotpRs] at hbuild
      split at hbuild
      · cases hbuild
      · exact Except.ok.inj hbuild
    rw [htotp]
    exact String.toList_ofList
  lock secret t :=
    UInt64.toNat_ofNat_of_lt' (Nat.lt_trans (rfcHotp_lt secret (t.toNat / 30)) (by decide))

/-- The PIN `081804`, shown one second before its step ends, still opens the lock six seconds later;
before, somebody has typed a digit and pressed Cancel. -/
theorem server_lock_agree_leading_zero :
    ∃ s, run (Session.step rfcTotpCustom) (Session.start rfcSecret 1 ([] : List ActuatorCall))
        [⟨nibbleBits 5, 0⟩, ⟨nibbleBits 10, 0⟩] = some s ∧
      generateAt rfcTotpRs rfcSecret 1111111109 = .ok ⟨"081804", 1⟩ ∧
      TypingUnlocks rfcTotpCustom s "081804" 1111111115 := by
  have hrun : run (Session.step rfcTotpCustom)
      (Session.start rfcSecret 1 ([] : List ActuatorCall))
      [⟨nibbleBits 5, 0⟩, ⟨nibbleBits 10, 0⟩] =
        some ⟨LockController.new rfcSecret 1, [], [.waiting, .waiting]⟩ := rfl
  have hgen : generateAt rfcTotpRs rfcSecret 1111111109 = .ok ⟨"081804", 1⟩ := by
    decide +kernel
  refine ⟨_, hrun, hgen, ?_⟩
  apply ((server_lock_agree sameHotp_rfc hgen hrun).1 rfl 1111111115).2
  decide

end Urheilulaatikko
