import Urheilulaatikko.Server.Startup
import Urheilulaatikko.SimTests

/-!
# From the request to the bolt

The whole system: a server that was started from its environment answers `POST /v1/totp/request`
with a PIN, and somebody types that PIN into a lock that was flashed with the user's secret and with
the skew that `GET /healthz` advertises. Between the two there is nothing but the PIN.
-/

namespace Urheilulaatikko

open Trace Machine Lock Lock.WiegandScript Server Server.Totp Server.Routes Server.Startup
  Server.System

variable {totpCustom : TotpCustom} {hotp : List UInt8 → Nat → Nat} {mode : Overflow}
  {lib : Libraries} {outside : Outside} {env : Config.Env} {address : String} {d : Deployment}
  {sha256 : String → Auth.SingleFlight.Key} {es : List System.Event} {s : System.State}

/-- A PIN of the server can be typed on the keypad. -/
theorem SameHotp.isSome_generate {totpRs : TotpRs} (h : SameHotp totpRs totpCustom hotp)
    {secret : List UInt8} {T : UInt64} {generated : GeneratedPin}
    (hgen : generateAt totpRs secret T = .ok generated) (startAt : Nat) :
    (WiegandScript.generate generated.pin startAt).isSome := by
  have hdigits : ∀ c ∈ sixDigits (hotp secret (T.toNat / 30)), c.isDigit := by
    intro c hc
    obtain ⟨n, hn, rfl⟩ := List.mem_map.mp hc
    rw [Nat.isDigit_digitChar]
    exact decide_eq_true (Positional.digits_lt (by decide) 6 _ n hn)
  have hkeys : (keysForCode generated.pin).isSome := by
    rw [keysForCode, if_pos]
    · rfl
    · rw [h.toList_pin hgen]
      refine ⟨?_, List.all_eq_true.mpr hdigits⟩
      rw [sixDigits, List.length_map, Positional.length_digits]
  obtain ⟨keys, hkeys⟩ := Option.isSome_iff_exists.mp hkeys
  rw [WiegandScript.generate, hkeys]
  rfl

/-- **From the request to the bolt.** Let a server that was started from its environment answer a
request with a PIN, in any run, and let `c` be the secret that was committed last for the user when
the server looked it up. The PIN can be typed; and if it is typed, with the handler and the loop in
time, into a lock that holds the secret of `c` and the skew that `healthz` reports, then the relay
goes high with the `Enter`, provided that the lock's clock, as it was read for that `Enter`, is in
the window that `validForSeconds` and the skew leave around the time at which the server looked. It
goes low with the first check `UNLOCK_DURATION` after the grant. -/
theorem request_opens_bolt (hhotp : SameHotp lib.totpRs totpCustom hotp)
    (haes : ∀ key, (lib.aes key).Inverts)
    (hmain : Startup.main mode lib outside env = some (.ok (address, d)))
    (hrun : run (System.step sha256 d) d.init es = some s) {id : Nat} {r : Router.Request}
    {body : PinResponse} (hold : s.router.requests id = some r)
    (hstage : r.stage = .answered (.pin body)) :
    ∃ cfg user pre t input c, Config.fromEnv lib.base64Decode env = .ok cfg ∧
      r.user = some user ∧
      GetAt d.app (System.handlerEvents sha256 d es) id user pre t input ∧
      latest (commits d.app pre) user.subject = some c ∧
      (∀ startAt, (WiegandScript.generate body.pin startAt).isSome) ∧
      ∀ clock startAt latency cadence played device,
        Plays totpCustom clock c.raw (healthz cfg).skewSteps body.pin startAt latency cadence
          played device →
        ∃ before enter after,
          Entered totpCustom clock c.raw (healthz cfg).skewSteps played before enter after ∧
          ((input.unixNow.toNat : Int) + body.validForSeconds.toNat -
              30 * ((healthz cfg).skewSteps.toNat + 1) ≤
                (clock.unixSeconds enter.handledAt).toNat →
            ((clock.unixSeconds enter.handledAt).toNat : Int) <
              input.unixNow.toNat + body.validForSeconds.toNat +
                30 * (healthz cfg).skewSteps.toNat →
            (Device.start clock c.raw (healthz cfg).skewSteps).PulsesOnce totpCustom before enter
              after) := by
  obtain ⟨cfg, limiter, hcfg, -, -, -, rfl⟩ := main_eq_ok_iff.mp hmain
  obtain ⟨user, -, huser, pre, t, input, c, generated, hget, hc, hgen, rfl⟩ :=
    origin_of_pin (haes cfg.encryptionKey) hrun hold hstage
  refine ⟨cfg, user, pre, t, input, c, hcfg, huser, hget, hc, hhotp.isSome_generate hgen, ?_⟩
  intro clock startAt latency cadence played device hplays
  obtain ⟨entered, before, enter, after, hdigits, hspelled, hentry, hmoves, hrelay⟩ :=
    hplays.moves_iff
  refine ⟨before, enter, after, hentry, ?_⟩
  intro hlo hhi
  apply hrelay
  rw [hmoves, hhotp.accepts_iff hgen hdigits, hspelled]
  -- the server shows the very PIN, at a step that the skew reaches
  have hvalid : generated.validForSeconds.toNat = 30 - input.unixNow.toNat % 30 := by
    obtain ⟨totp, -, rfl⟩ := generateAt_eq_ok_iff.mp hgen
    exact toNat_validForSeconds input.unixNow
  rw [hvalid] at hlo hhi
  exact ⟨input.unixNow, generated, hgen, counter_near_of_window hlo hhi, rfl⟩

/-! ### Alice's PIN, typed into a lock whose clock is half a minute behind -/

/-- What the server's clock reads in a step of a handler. -/
def unixNow? : Routes.Event → Option UInt64
  | .advance _ input => some input.unixNow
  | _ => none

theorem request_opens_bolt_morning :
    ∃ s, run (System.step Auth.SingleFlight.testSha256 demo) demo.init morning = some s ∧
      answerTo 1 s = some (.request, some alice, .pin ⟨"287082", 1⟩) ∧
      ∃ before enter after,
        Entered rfcTotpCustom ⟨29⟩ rfcSecret 1 Device.earlyCode before enter after ∧
        (Device.start ⟨29⟩ rfcSecret 1).PulsesOnce rfcTotpCustom before enter after := by
  obtain ⟨s, hrun, hanswer⟩ := answerTo_morning
  obtain ⟨r, hold, -, -, hstage⟩ := request_of_answerTo hanswer
  have hsome : (run (Device.step rfcTotpCustom) (Device.start ⟨29⟩ rfcSecret 1)
      Device.earlyCode).map (·.phase) = some .polling := by
    decide +kernel
  obtain ⟨device, hdevice, hphase⟩ := Option.map_eq_some_iff.mp hsome
  refine ⟨s, hrun, hanswer, ?_⟩
  have hhotp : SameHotp demoLibraries.totpRs rfcTotpCustom rfcHotp := sameHotp_rfc
  obtain ⟨cfg, user, pre, t, input, c, hcfg, -, hget, hc, -, hopens⟩ :=
    request_opens_bolt hhotp (fun _ => demoCipher_inverts) main_demo hrun hold hstage
  have hskew : (healthz cfg).skewSteps = 1 := by
    rw [← Except.ok.inj (RateLimit.fromEnv_minimalEnv_none.symm.trans hcfg)]
    rfl
  have hraw : c.raw = rfcSecret := by
    have hall : ∀ c ∈ commits demo.app
        (System.handlerEvents Auth.SingleFlight.testSha256 demo morning), c.raw = rfcSecret := by
      decide +kernel
    exact hall c (mem_commits_of_getAt hget (subject_of_latest hc).1)
  have hnow : input.unixNow = 59 := by
    have hall : (System.handlerEvents Auth.SingleFlight.testSha256 demo morning).filterMap
        unixNow? = List.replicate 6 59 := by
      decide +kernel
    obtain ⟨⟨post, hsplit⟩, -⟩ := hget
    apply List.eq_of_mem_replicate (n := 6)
    rw [← hall]
    refine List.mem_filterMap.mpr ⟨.advance 1 input, ?_, rfl⟩
    rw [hsplit]
    exact List.mem_append_right _ List.mem_cons_self
  rw [hraw, hnow, hskew] at hopens
  have hplays := plays_earlyCode hdevice (by decide +kernel) hphase
  obtain ⟨before, enter, after, hentry, hrelay⟩ :=
    hopens ⟨29⟩ 500000 5 4000 Device.earlyCode device hplays
  refine ⟨before, enter, after, hentry, ?_⟩
  have hsoon : (SystemClock.unixSeconds ⟨29⟩ enter.handledAt).toNat < 90 := by
    have hall : ∀ x ∈ (Device.start ⟨29⟩ rfcSecret 1).handled rfcTotpCustom Device.earlyCode,
        (SystemClock.unixSeconds ⟨29⟩ x.handledAt).toNat < 90 := by
      decide +kernel
    apply hall
    rw [hentry.handled_eq]
    exact List.mem_concat_self
  -- the PIN was shown at 59 s with one second to go
  have hlo :
      ((59 : UInt64).toNat : Int) + (1 : UInt64).toNat - 30 * ((1 : UInt8).toNat + 1) = 0 := by
    decide
  have hhi : ((59 : UInt64).toNat : Int) + (1 : UInt64).toNat + 30 * (1 : UInt8).toNat = 90 := by
    decide
  apply hrelay
  · rw [hlo]
    omega
  · rw [hhi]
    omega

end Urheilulaatikko
