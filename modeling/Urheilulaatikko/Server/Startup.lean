import Urheilulaatikko.Server.Settings
import Urheilulaatikko.Server.Statuses

/-!
# From the environment to the running server

`main.rs`, `state.rs` and what `create_router` builds from a configuration. The database, the HTTP
client and the listener are outside; what they answer is an argument of `main`.

* `Startup.serves_iff` — when the server comes to `axum::serve`.
* `System.environment_governs` — what the variables of the environment then mean in every run.
-/

namespace Urheilulaatikko.Server

open Auth RateLimit TokenBucket Machine

/-! ## What is built from a configuration

Every setting goes into one part of the server. What comes from other libraries is a field of
`Libraries`, and what answers from outside a field of `Outside`. -/

/-- `Config::server_address`. -/
def Config.serverAddress (config : Config) : String :=
  let host := config.host
  let port := config.port.toNat
  s!"{host}:{port}"

/-- What `healthz` reports. -/
structure HealthResponse where
  status      : String
  algorithm   : String
  digits      : UInt8
  stepSeconds : UInt64
  skewSteps   : UInt8
  deriving DecidableEq, Repr

def healthz (config : Config) : HealthResponse where
  status      := "ok"
  algorithm   := "SHA1"
  digits      := Totp.digits
  stepSeconds := Totp.stepSeconds
  skewSteps   := config.totpSkewSteps

namespace Startup

/-- `Aes256Gcm::new`, `totp_rs`, the decoder of `base64` and the builder of `tower_governor`. -/
structure Libraries where
  aes          : Vector UInt8 encryptionKeyLen → Cipher
  totpRs       : Totp.TotpRs
  base64Decode : String → Option (List UInt8)
  finish       : Finish

/-- How the things outside answer while the server starts. -/
structure Outside where
  connect : Except String Unit
  migrate : Except String Unit
  http    : Except String Unit
  bind    : String → Except String Unit

/-- `AppState::new` and the limiter of `create_router`. -/
def deployment (lib : Libraries) (config : Config) (limiter : Limiter String) :
    System.Deployment where
  app           := { adminRole := config.adminRole, cipher := lib.aes config.encryptionKey,
                     totpRs := lib.totpRs }
  introspection := { expectedAudience := config.expectedAudience }
  limiter       := limiter

/-- `main`, up to `axum::serve`: the address it listens on and the server behind it. The outer
`none` is a panic, as in `RateLimit.config`. -/
def main (mode : Overflow) (lib : Libraries) (outside : Outside) (env : Config.Env) :
    Option (Except String (String × System.Deployment)) :=
  match Config.fromEnv lib.base64Decode env with
  | .error e => some (.error e)
  | .ok config =>
      match outside.connect, outside.migrate, outside.http with
      | .error _, _, _        => some (.error "could not connect to the database")
      | _, .error _, _        => some (.error "database migrations failed")
      | _, _, .error e        => some (.error e)
      | .ok (), .ok (), .ok () =>
          -- only now is the limiter built: a budget that `from_env` lets pass can still fail
          match RateLimit.config lib.finish mode config with
          | none               => none
          | some (.error e)    => some (.error e)
          | some (.ok limiter) =>
              match outside.bind config.serverAddress with
              | .error e => some (.error e)
              | .ok ()   => some (.ok (config.serverAddress, deployment lib config limiter))

/-! ## When the server starts

The variables decide most of it (`Config.Reads`). What is left is the limiter, which is built after
the database has been reached, and what is outside. -/

/-- The limiter can be built: the product in `rate_limit::config` does not panic, and the builder
takes the period and the burst that come of it. -/
def Limits (finish : Finish) (mode : Overflow) (cfg : Config) : Prop :=
  (mode = .panics → cfg.rateLimitWindowSeconds.toNat * 1000 < 2 ^ 64) ∧
    ∃ limiter, finish (refillNanos cfg) cfg.rateLimitMaxRequests = some (some limiter)

theorem limits_iff {finish : Finish} {mode : Overflow} {cfg : Config}
    (hmax : cfg.rateLimitMaxRequests ≠ 0) :
    Limits finish mode cfg ↔ ∃ limiter, RateLimit.config finish mode cfg = some (.ok limiter) := by
  constructor
  · rintro ⟨hpanics, limiter, hbuilt⟩
    refine ⟨limiter, config_eq_ok_iff.mpr ⟨?_, hbuilt⟩⟩
    cases mode with
    | panics => exact refill_of_fits .panics hmax (hpanics rfl)
    | wraps => exact ⟨_, divU64_eq (toUInt64_ne_zero hmax)⟩
  · rintro ⟨limiter, hlimiter⟩
    obtain ⟨⟨p, hp⟩, hbuilt⟩ := config_eq_ok_iff.mp hlimiter
    refine ⟨?_, limiter, hbuilt⟩
    rintro rfl
    exact fits_of_refill hp

/-- For windows of less than 584 years: a token must come back at least once a millisecond. -/
theorem limits_iff_of_short {finish : Finish} (hfinish : finish.Documented) (mode : Overflow)
    {cfg : Config} (hmax : cfg.rateLimitMaxRequests ≠ 0)
    (hshort : cfg.rateLimitWindowSeconds.toNat * 1000000000 < 2 ^ 64) :
    Limits finish mode cfg ↔
      cfg.rateLimitMaxRequests.toNat ≤ cfg.rateLimitWindowSeconds.toNat * 1000 := by
  have hfits : cfg.rateLimitWindowSeconds.toNat * 1000 < 2 ^ 64 :=
    Nat.lt_of_le_of_lt (Nat.mul_le_mul_left _ (by decide)) hshort
  have hnone := finish_ne_iff hfinish hmax hshort
  rw [← refillNanos_of_fits hfits] at hnone
  rw [← Nat.not_lt, ← hnone]
  constructor
  · rintro ⟨-, limiter, hbuilt⟩ hall
    exact hall limiter hbuilt
  · intro hbuilt
    push Not at hbuilt
    exact ⟨fun _ => hfits, hbuilt⟩

/-- Nothing outside fails. -/
structure Outside.Ready (outside : Outside) (address : String) : Prop where
  connect : outside.connect = .ok ()
  migrate : outside.migrate = .ok ()
  http    : outside.http = .ok ()
  bind    : outside.bind address = .ok ()

/-- Every step of `main` that succeeds on the way to `axum::serve`. -/
theorem main_eq_ok_iff {mode : Overflow} {lib : Libraries} {outside : Outside} {env : Config.Env}
    {address : String} {d : System.Deployment} :
    main mode lib outside env = some (.ok (address, d)) ↔
      ∃ cfg limiter, Config.fromEnv lib.base64Decode env = .ok cfg ∧
        RateLimit.config lib.finish mode cfg = some (.ok limiter) ∧ outside.Ready address ∧
        address = cfg.serverAddress ∧ d = deployment lib cfg limiter := by
  constructor
  · intro h
    unfold main at h
    split at h
    · cases h
    · next cfg hcfg =>
        split at h
        · cases h
        · cases h
        · cases h
        · next hconnect hmigrate hhttp =>
            split at h
            · cases h
            · cases h
            · next limiter hlimiter =>
                split at h
                · cases h
                · next hbind =>
                    cases h
                    exact ⟨cfg, limiter, hcfg, hlimiter, ⟨hconnect, hmigrate, hhttp, hbind⟩, rfl,
                      rfl⟩
  · rintro ⟨cfg, limiter, hcfg, hlimiter, hready, rfl, rfl⟩
    simp only [main, hcfg, hready.connect, hready.migrate, hready.http, hlimiter, hready.bind]

/-- `main` in terms of the variables. -/
theorem main_ok_iff_reads {mode : Overflow} {lib : Libraries} {outside : Outside}
    {env : Config.Env} {address : String} :
    (∃ d, main mode lib outside env = some (.ok (address, d))) ↔
      ∃ cfg, Config.Reads lib.base64Decode env cfg ∧ Limits lib.finish mode cfg ∧
        outside.Ready address ∧ address = cfg.serverAddress := by
  constructor
  · rintro ⟨d, h⟩
    obtain ⟨cfg, limiter, hcfg, hlimiter, hready, haddress, -⟩ := main_eq_ok_iff.mp h
    have hreads := Config.reads_of_fromEnv hcfg
    exact ⟨cfg, hreads, (limits_iff hreads.maxRequests_ne_zero).mpr ⟨limiter, hlimiter⟩, hready,
      haddress⟩
  · rintro ⟨cfg, hreads, hlimits, hready, haddress⟩
    obtain ⟨limiter, hlimiter⟩ := (limits_iff hreads.maxRequests_ne_zero).mp hlimits
    exact ⟨_, main_eq_ok_iff.mpr ⟨cfg, limiter, Config.fromEnv_of_reads hreads, hlimiter, hready,
      haddress, rfl⟩⟩

/-- **When the server starts.** `main` comes to `axum::serve` iff every variable of the environment
can be read, nothing outside fails, and the limiter can be built: where overflow is checked the
product must fit, and the builder must take the two numbers. If it takes what it is documented to
take, that is, for windows of less than 584 years, a budget that does not exceed the window in
milliseconds. -/
theorem serves_iff (mode : Overflow) (lib : Libraries) (outside : Outside) (env : Config.Env)
    (address : String) :
    ((∃ d, main mode lib outside env = some (.ok (address, d))) ↔
      ∃ cfg, Config.Reads lib.base64Decode env cfg ∧ Limits lib.finish mode cfg ∧
        outside.Ready address ∧ address = cfg.serverAddress) ∧
    (lib.finish.Documented → ∀ cfg, Config.Reads lib.base64Decode env cfg →
      cfg.rateLimitWindowSeconds.toNat * 1000000000 < 2 ^ 64 →
      ((∃ d, main mode lib outside env = some (.ok (address, d))) ↔
        cfg.rateLimitMaxRequests.toNat ≤ cfg.rateLimitWindowSeconds.toNat * 1000 ∧
          outside.Ready address ∧ address = cfg.serverAddress)) := by
  refine ⟨main_ok_iff_reads, ?_⟩
  intro hfinish cfg hreads hshort
  rw [main_ok_iff_reads, ← limits_iff_of_short hfinish mode hreads.maxRequests_ne_zero
    hshort]
  constructor
  · rintro ⟨cfg', hreads', hrest⟩
    -- an environment reads as one configuration
    have hsame : cfg' = cfg := Except.ok.inj
      ((Config.fromEnv_of_reads hreads').symm.trans (Config.fromEnv_of_reads hreads))
    rw [hsame] at hrest
    exact hrest
  · intro hrest
    exact ⟨cfg, hreads, hrest⟩

end Startup

/-! ## What the environment means to the running server

Each variable ends up in one part of the server, and what is known of that part in every run is then
known of the variable. -/

namespace System

open Startup Trace Routes

variable {mode : Overflow} {lib : Libraries} {outside : Outside} {env : Config.Env}
  {address : String} {d : Deployment} {sha256 : String → SingleFlight.Key} {es : List Event}
  {s : State}

/-- A row decrypts to the secret that was committed last. -/
theorem commit_of_row (hcipher : d.app.cipher.Inverts)
    (hrun : run (step sha256 d) d.init es = some s) {subject : String} {row : SecretRow}
    (hrow : s.router.db.totpSecrets subject = some row) :
    ∃ c, latest (commits d.app (handlerEvents sha256 d es)) subject = some c ∧
      Crypto.decrypt d.app.cipher row.encryptedSecret row.nonce = .ok c.raw := by
  obtain ⟨t, ht, hrefines⟩ := Router.refines_of_run (router_run hrun)
  have hsecret := (stored_of_run hcipher ht).secrets subject
  rw [SecretStore.secretOf, ← hrefines.secrets, hrow, Option.map_some] at hsecret
  obtain ⟨c, hc, hraw⟩ := Option.map_eq_some_iff.mp hsecret.symm
  exact ⟨c, hc, hraw.symm⟩

/-- **The environment governs the server.** In every run of a server that was started from an
environment:

* whoever is let in has presented a token of which Keycloak has said that it is meant for
  `TOTP_EXPECTED_AUDIENCE`;
* every secret was stored for somebody with the role `TOTP_ADMIN_ROLE`;
* every row of `totp_secrets` decrypts, under the key that `TOTP_ENCRYPTION_KEY` spells, to the
  secret that was last committed for its subject;
* if the limiter is a bucket per key, with the budget and the period that `RATE_LIMIT_MAX_REQUESTS`
  and `RATE_LIMIT_WINDOW_SECONDS` come to, then in no window are more requests of a subject let
  through than a full bucket and what flows back meanwhile. -/
theorem environment_governs (haes : ∀ key, (lib.aes key).Inverts)
    (hmain : main mode lib outside env = some (.ok (address, d)))
    (hrun : run (step sha256 d) d.init es = some s)
    (hsha : SingleFlight.CollisionFree sha256 (flightEvents sha256 d es)) :
    (∀ id r user, s.router.requests id = some r → r.user = some user →
      ∃ token j now body aud, bearerToken r.authorization = some token ∧
        .lock j token ∈ flightEvents sha256 d es ∧
        SingleFlight.Answered (flightEvents sha256 d es) j now body ∧ body.aud = some aud ∧
        aud.Names ((env "TOTP_EXPECTED_AUDIENCE").getD "totp-server")) ∧
    (∀ c ∈ commits d.app (handlerEvents sha256 d es),
      c.admin.hasRole ((env "TOTP_ADMIN_ROLE").getD "totp-admin") = true) ∧
    (∃ raw key, env "TOTP_ENCRYPTION_KEY" = some raw ∧
      Config.SpellsKey lib.base64Decode raw key ∧
      ∀ subject row, s.router.db.totpSecrets subject = some row →
        ∃ c, latest (commits d.app (handlerEvents sha256 d es)) subject = some c ∧
          Crypto.decrypt (lib.aes key) row.encryptedSecret row.nonce = .ok c.raw) ∧
    (∃ max window, Config.Setting env "RATE_LIMIT_MAX_REQUESTS" 6 max ∧
      Config.Setting env "RATE_LIMIT_WINDOW_SECONDS" 300 window ∧
      (lib.finish.Documented →
        d.limiter.Implements ⟨window * 1000 % 2 ^ 64 / max * 1000000, max⟩ →
        ∀ subject t, (decisions sha256 d es).countP
          (Decision.letIn subject t (t + window * 1000000000)) ≤
            max + (window * 1000000000 - 1) / (window * 1000 % 2 ^ 64 / max * 1000000))) := by
  obtain ⟨cfg, limiter, hcfg, hlimiter, -, -, rfl⟩ := main_eq_ok_iff.mp hmain
  have hreads := Config.reads_of_fromEnv hcfg
  have hcipher := haes cfg.encryptionKey
  refine ⟨?_, ?_, ?_, ?_⟩
  · intro id r user hold huser
    obtain ⟨token, j, now, body, htoken, hlock, hanswered, hgrants⟩ :=
      vouchedFor_of_user hrun hsha hold huser
    obtain ⟨aud, haud, hnames⟩ := hgrants.audience
    rw [← hreads.expectedAudience]
    exact ⟨token, j, now, body, aud, htoken, hlock, hanswered, haud, hnames⟩
  · intro c hc
    obtain ⟨t, ht, -⟩ := Router.refines_of_run (router_run hrun)
    rw [← hreads.adminRole]
    exact ((stored_of_run hcipher ht).authorised c hc).1
  · obtain ⟨raw, hraw, hkey⟩ := hreads.encryptionKey
    exact ⟨raw, cfg.encryptionKey, hraw, hkey, fun subject row => commit_of_row hcipher hrun⟩
  · refine ⟨_, _, hreads.maxRequests, hreads.windowSeconds, ?_⟩
    intro hfinish himpl subject t
    exact countP_letIn_le himpl (pos_of_config hfinish hlimiter).1 hrun subject t

/-! ### The server of `morning`, started from an environment -/

def demoLibraries : Libraries where
  aes _        := demoCipher
  totpRs       := Totp.rfcTotpRs
  base64Decode := zeroKeyDecode
  finish       := bucketFinish

def allReady : Outside where
  connect := .ok ()
  migrate := .ok ()
  http    := .ok ()
  bind _  := .ok ()

theorem main_demo :
    main .panics demoLibraries allReady (minimalEnv none) = some (.ok ("0.0.0.0:3000", demo)) :=
  main_eq_ok_iff.mpr ⟨minimalConfig 6, minimalLimiter 6, fromEnv_minimalEnv_none,
    config_minimal _ (by decide) (by decide), ⟨rfl, rfl, rfl, rfl⟩, by decide +kernel, rfl⟩

/-- Alice's row can be opened with the key of the environment. -/
theorem environment_governs_morning :
    ∃ s, run (step SingleFlight.testSha256 demo) demo.init morning = some s ∧
      ∃ raw key, minimalEnv none "TOTP_ENCRYPTION_KEY" = some raw ∧
        Config.SpellsKey zeroKeyDecode raw key ∧
        ∀ subject row, s.router.db.totpSecrets subject = some row →
          ∃ c, latest (commits demo.app (handlerEvents SingleFlight.testSha256 demo morning))
              subject = some c ∧
            Crypto.decrypt demoCipher row.encryptedSecret row.nonce = .ok c.raw := by
  obtain ⟨s, hrun, -⟩ := answerTo_morning
  obtain ⟨-, -, hkey, -⟩ :=
    environment_governs (fun _ => demoCipher_inverts) main_demo hrun collisionFree_morning
  exact ⟨s, hrun, hkey⟩

end System

end Urheilulaatikko.Server
