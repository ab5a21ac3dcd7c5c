import Urheilulaatikko.Lib.Machine
import Urheilulaatikko.Lib.TokenBucket
import Urheilulaatikko.Server.Auth.Introspection
import Urheilulaatikko.Server.Config

/-!
# The rate limit

`rate_limit.rs` of the server, and the layer of `routes/mod.rs` that puts it in front of the two
protected routes. What the server decides is the key and the two numbers; the limiter itself comes
from `tower_governor`, which is not part of this repository. `finish` is its builder, a parameter
(`Finish`), and what is assumed of it is said where it is needed: what its documentation says about
the numbers it builds from (`Finish.Documented`), and that what it has built is a token bucket per
key (`Finish.Gcra`).

The comment on `config` says that over any window the limit is the configured budget. A full bucket
plus what flows back during the window is more than that: `budget_holds_iff` says when it is not.
What flows back is itself meant to be the budget; `refill_safe_iff` says when it is no more.
-/

namespace Urheilulaatikko.Server.RateLimit

open Machine TokenBucket Auth

/-- The routes behind the limiter; they share it. -/
inductive ProtectedRoute where
  | request
  | provision
  deriving DecidableEq, Repr

/-- A request as the limiter sees it: what the authentication layer has put into its extensions, and
the nanosecond of its arrival. -/
structure Request where
  route : ProtectedRoute
  user  : Option AuthenticatedUser
  time  : Nat
  deriving DecidableEq, Repr

/-- `tower_governor::GovernorError`, as far as a key extractor raises it. -/
inductive GovernorError where
  | unableToExtractKey
  deriving DecidableEq, Repr

/-- `SubjectKeyExtractor::extract`. -/
def extract (req : Request) : Except GovernorError String :=
  match req.user with
  | some user => .ok user.subject
  | none      => .error .unableToExtractKey

/-- `GovernorConfigBuilder::finish`, given a period in nanoseconds and a burst size. `none` is a
panic, `some none` its `None`. -/
abbrev Finish := Nat → UInt32 → Option (Option (Limiter String))

/-- What is documented of `finish`: it returns `None` for a zero period and for a zero burst size,
and otherwise a limiter, unless there are more nanoseconds than 64 bits hold (584 years), where it
may panic. -/
structure Finish.Documented (finish : Finish) : Prop where
  zero  : ∀ period burstSize, period = 0 ∨ burstSize = 0 → finish period burstSize = some none
  built : ∀ period burstSize, period ≠ 0 → burstSize ≠ 0 → period * burstSize.toNat < 2 ^ 64 →
    ∃ limiter, finish period burstSize = some (some limiter)

/-- The generic cell rate algorithm: what `finish` builds from these numbers is, for every key, a
bucket of `burstSize` tokens that starts full and regains one in a period. -/
def Finish.Gcra (finish : Finish) (period : Nat) (burstSize : UInt32) : Prop :=
  ∀ limiter, finish period burstSize = some (some limiter) →
    limiter.Implements ⟨period, burstSize.toNat⟩

/-- Unsigned division; `none`: by zero. -/
def divU64 (a b : UInt64) : Option UInt64 := if b = 0 then none else some (a / b)

/-- The refill period of `config`, in milliseconds. `none` is a panic: an overflow that is checked,
or a division by zero. -/
def refill (mode : Overflow) (config : Config) : Option UInt64 := do
  let millis ← mulU64 mode config.rateLimitWindowSeconds 1000
  divU64 millis config.rateLimitMaxRequests.toUInt64

/-- `rate_limit::config`. The outer `none` is a panic, here or in `finish`. -/
def config (finish : Finish) (mode : Overflow) (config : Config) :
    Option (Except String (Limiter String)) := do
  let refill ← refill mode config
  let built ← finish (refill.toNat * 1000000) config.rateLimitMaxRequests
  match built with
  | some limiter => some (.ok limiter)
  | none         => some (.error "invalid rate limit configuration")

/-- The requests for which there is a key, with it; the others are answered with an error. -/
def keyed (reqs : List Request) : List (String × Request) :=
  reqs.filterMap fun req => (extract req).toOption.map (·, req)

/-- When a keyed request arrived. -/
def arrival (keyedReq : String × Request) : Nat := keyedReq.2.time

/-- The requests that reach a handler. -/
def admitted (limiter : Limiter String) (reqs : List Request) : List (String × Request) :=
  limiter.serve Prod.fst arrival [] (keyed reqs)

/-! ## The two numbers

`config` multiplies before it divides, in 64 bits: where the product does not fit, a build that
checks for overflow panics, and one that does not goes on with the product modulo `2 ^ 64`. -/

/-- The window in nanoseconds. -/
def windowNanos (config : Config) : Nat := config.rateLimitWindowSeconds.toNat * 1000000000

/-- The refill period in nanoseconds. -/
def refillNanos (config : Config) : Nat :=
  config.rateLimitWindowSeconds.toNat * 1000 % 2 ^ 64 / config.rateLimitMaxRequests.toNat * 1000000

/-- The bucket that the limiter is meant to be. -/
def quota (config : Config) : Quota where
  period := refillNanos config
  burst  := config.rateLimitMaxRequests.toNat

theorem toNat_of_divU64 {a b c : UInt64} (h : divU64 a b = some c) :
    c.toNat = a.toNat / b.toNat := by
  unfold divU64 at h
  split at h
  · cases h
  · cases h
    exact UInt64.toNat_div a b

theorem toNat_of_refill {mode : Overflow} {cfg : Config} {p : UInt64}
    (h : refill mode cfg = some p) : p.toNat =
      cfg.rateLimitWindowSeconds.toNat * 1000 % 2 ^ 64 / cfg.rateLimitMaxRequests.toNat := by
  obtain ⟨millis, hmillis, hdiv⟩ := Option.bind_eq_some_iff.mp h
  have hmul := toNat_of_mulU64 hmillis
  have hvalue := toNat_of_divU64 hdiv
  rw [UInt64.toNat_ofNat] at hmul
  rw [hvalue, UInt32.toNat_toUInt64, hmul]

theorem divU64_eq {a b : UInt64} (h : b ≠ 0) : divU64 a b = some (a / b) := if_neg h

theorem toUInt64_ne_zero {max : UInt32} (h : max ≠ 0) : max.toUInt64 ≠ 0 := by
  intro hzero
  apply h
  rw [← UInt32.toNat_inj, ← UInt32.toNat_toUInt64, hzero]
  rfl

/-- The arithmetic goes through if the product fits. -/
theorem refill_of_fits (mode : Overflow) {cfg : Config} (hmax : cfg.rateLimitMaxRequests ≠ 0)
    (hfits : cfg.rateLimitWindowSeconds.toNat * 1000 < 2 ^ 64) : ∃ p, refill mode cfg = some p := by
  have hthousand : (1000 : UInt64).toNat = 1000 := rfl
  rw [← hthousand] at hfits
  obtain ⟨millis, hmillis, -⟩ := mulU64_eq mode hfits
  refine ⟨millis / cfg.rateLimitMaxRequests.toUInt64, ?_⟩
  exact Option.bind_eq_some_iff.mpr ⟨millis, hmillis, divU64_eq (toUInt64_ne_zero hmax)⟩

/-- With overflow checks, only then. -/
theorem fits_of_refill {cfg : Config} {p : UInt64} (h : refill .panics cfg = some p) :
    cfg.rateLimitWindowSeconds.toNat * 1000 < 2 ^ 64 := by
  obtain ⟨millis, hmillis, -⟩ := Option.bind_eq_some_iff.mp h
  have hfits := lt_of_mulU64_panics hmillis
  rwa [UInt64.toNat_ofNat] at hfits

theorem refillNanos_of_fits {cfg : Config}
    (hfits : cfg.rateLimitWindowSeconds.toNat * 1000 < 2 ^ 64) : refillNanos cfg =
      cfg.rateLimitWindowSeconds.toNat * 1000 / cfg.rateLimitMaxRequests.toNat * 1000000 := by
  rw [refillNanos, Nat.mod_eq_of_lt hfits]

/-- What the limiter is built with: a burst of the whole budget, and the refill period. -/
theorem config_eq_ok_iff {finish : Finish} {mode : Overflow} {cfg : Config}
    {limiter : Limiter String} :
    config finish mode cfg = some (.ok limiter) ↔
      (∃ p, refill mode cfg = some p) ∧
        finish (refillNanos cfg) cfg.rateLimitMaxRequests = some (some limiter) := by
  constructor
  · intro h
    obtain ⟨p, hp, h⟩ := Option.bind_eq_some_iff.mp h
    obtain ⟨built, hbuilt, h⟩ := Option.bind_eq_some_iff.mp h
    refine ⟨⟨p, hp⟩, ?_⟩
    rw [toNat_of_refill hp] at hbuilt
    split at h
    · cases h
      exact hbuilt
    · cases h
  · rintro ⟨⟨p, hp⟩, hbuilt⟩
    refine Option.bind_eq_some_iff.mpr ⟨p, hp, Option.bind_eq_some_iff.mpr ⟨some limiter, ?_, rfl⟩⟩
    rw [toNat_of_refill hp]
    exact hbuilt

/-- The limiter that `config` returns is the bucket it is meant to be. -/
theorem implements_of_config {finish : Finish} {mode : Overflow} {cfg : Config}
    {limiter : Limiter String} (hgcra : finish.Gcra (refillNanos cfg) cfg.rateLimitMaxRequests)
    (h : config finish mode cfg = some (.ok limiter)) : limiter.Implements (quota cfg) :=
  hgcra limiter (config_eq_ok_iff.mp h).2

/-- A limiter of zero numbers is never built. -/
theorem pos_of_config {finish : Finish} {mode : Overflow} {cfg : Config}
    {limiter : Limiter String} (hfinish : finish.Documented)
    (h : config finish mode cfg = some (.ok limiter)) :
    0 < (quota cfg).period ∧ 0 < (quota cfg).burst := by
  have hbuilt := (config_eq_ok_iff.mp h).2
  constructor
  · apply Nat.pos_of_ne_zero
    intro hzero
    have hperiod : refillNanos cfg = 0 := hzero
    rw [hfinish.zero _ _ (.inl hperiod)] at hbuilt
    cases hbuilt
  · apply Nat.pos_of_ne_zero
    intro hzero
    have hburst : cfg.rateLimitMaxRequests = 0 := UInt32.toNat_inj.mp hzero
    rw [hfinish.zero _ _ (.inr hburst)] at hbuilt
    cases hbuilt

/-! ## The budget

A bucket that starts full and regains the whole budget in a window admits more than the budget in
some window, unless a single request is all there is to admit. -/

/-- The budget: in every window of the configured length, of every sequence of requests in the order
of their arrival, at most the configured number of requests of a subject reaches a handler. -/
def BudgetHolds (cfg : Config) (limiter : Limiter String) : Prop :=
  ∀ reqs : List Request, reqs.Pairwise (fun a b => a.time ≤ b.time) →
    ∀ (subject : String) (t : Nat), (admitted limiter reqs).countP
      (inWindow Prod.fst arrival subject t (t + windowNanos cfg)) ≤ cfg.rateLimitMaxRequests.toNat

theorem pairwise_keyed {reqs : List Request} (h : reqs.Pairwise fun a b => a.time ≤ b.time) :
    (keyed reqs).Pairwise fun a b => arrival a ≤ arrival b := by
  apply List.Pairwise.filterMap _ _ h
  intro a b hab x hx y hy
  simp only [Option.map_eq_some_iff] at hx hy
  obtain ⟨_, -, rfl⟩ := hx
  obtain ⟨_, -, rfl⟩ := hy
  exact hab

/-- What a limiter lets through that is a bucket. -/
theorem admitted_eq {limiter : Limiter String} {q : Quota} (h : limiter.Implements q)
    {reqs : List Request} (hsorted : reqs.Pairwise fun a b => a.time ≤ b.time) :
    admitted limiter reqs = serve q Prod.fst arrival (fun _ => q.full) (keyed reqs) :=
  h.serve_eq Prod.fst arrival (pairwise_keyed hsorted)

/-- A period of a whole window lets no more than a burst through. -/
theorem budgetHolds_of_period {cfg : Config} {limiter : Limiter String}
    (himpl : limiter.Implements (quota cfg)) (hwindow : 0 < windowNanos cfg)
    (hperiod : refillNanos cfg = windowNanos cfg) : BudgetHolds cfg limiter := by
  intro reqs hsorted subject t
  rw [admitted_eq himpl hsorted]
  have hpos : 0 < (quota cfg).period := by
    show 0 < refillNanos cfg
    omega
  have h := admitted_le Prod.fst arrival hpos (pairwise_keyed hsorted) subject t hwindow
  have hquot : (windowNanos cfg - 1) / (quota cfg).period = 0 := by
    apply Nat.div_eq_of_lt
    show windowNanos cfg - 1 < refillNanos cfg
    omega
  rw [hquot, Nat.add_zero] at h
  exact h

/-- A request of one and the same subject. -/
def requestAt (time : Nat) : Request := ⟨.request, some ⟨"subject-1", []⟩, time⟩

/-- A shorter one does: the whole budget at once, and one more request after a period. -/
theorem not_budgetHolds_of_period {cfg : Config} {limiter : Limiter String}
    (himpl : limiter.Implements (quota cfg)) (hmax : 0 < cfg.rateLimitMaxRequests.toNat)
    (hperiod : refillNanos cfg < windowNanos cfg) : ¬ BudgetHolds cfg limiter := by
  intro hbudget
  let n := (quota cfg).burst
  let p := (quota cfg).period
  have hn : 0 < n := hmax
  have hsorted : (List.replicate n (requestAt 0) ++ [requestAt p]).Pairwise
      fun a b => a.time ≤ b.time := by
    rw [List.pairwise_append]
    refine ⟨List.pairwise_replicate.mpr (.inr (Nat.le_refl _)), List.pairwise_singleton .., ?_⟩
    intro a ha b _
    rw [List.eq_of_mem_replicate ha]
    exact Nat.zero_le _
  have hkeyed : keyed (List.replicate n (requestAt 0) ++ [requestAt p]) =
      List.replicate n ("subject-1", requestAt 0) ++ [("subject-1", requestAt p)] := by
    simp [keyed, extract, requestAt, Except.toOption]
  have hle := hbudget _ hsorted "subject-1" 0
  have hall : serve (quota cfg) Prod.fst arrival (fun _ => (quota cfg).full)
      (List.replicate n ("subject-1", requestAt 0) ++ [("subject-1", requestAt p)]) =
      List.replicate n ("subject-1", requestAt 0) ++ [("subject-1", requestAt p)] :=
    serve_burst_then_one Prod.fst arrival hn rfl rfl rfl
  rw [admitted_eq himpl hsorted, hkeyed, hall] at hle
  have hcount : (List.replicate n ("subject-1", requestAt 0) ++
      [("subject-1", requestAt p)]).countP
        (inWindow Prod.fst arrival "subject-1" 0 (0 + windowNanos cfg)) = n + 1 := by
    have hwindow : 0 < windowNanos cfg := by omega
    have hp : p < windowNanos cfg := hperiod
    simp [List.countP_append, List.countP_replicate, inWindow, arrival, requestAt, hp, hwindow]
  have hcount' := hcount.symm.trans_le hle
  exact absurd hcount' (by show ¬ n + 1 ≤ n; omega)

/-- The period is shorter than the window unless the budget is a single request and the product
`window * 1000` fits. -/
theorem period_lt_window_iff {window max : Nat} (hwindow : 0 < window) (hmax : 0 < max) :
    window * 1000 % 2 ^ 64 / max * 1000000 < window * 1000000000 ↔
      ¬ (max = 1 ∧ window * 1000 < 2 ^ 64) := by
  have hscale : window * 1000 % 2 ^ 64 / max * 1000000 < window * 1000000000 ↔
      window * 1000 % 2 ^ 64 / max < window * 1000 := by omega
  rw [hscale]
  by_cases hfits : window * 1000 < 2 ^ 64
  · rw [Nat.mod_eq_of_lt hfits]
    by_cases hone : max = 1
    · rw [hone, Nat.div_one]
      constructor
      · intro h
        omega
      · intro h
        exact absurd ⟨rfl, hfits⟩ h
    · have hlt : window * 1000 / max < window * 1000 := Nat.div_lt_self (by omega) (by omega)
      simp [hone, hlt]
  · -- the product wraps, and whatever is left of it is less than the window
    have hle : window * 1000 % 2 ^ 64 / max ≤ window * 1000 % 2 ^ 64 := Nat.div_le_self ..
    have hmod : window * 1000 % 2 ^ 64 < 2 ^ 64 := Nat.mod_lt _ (by decide)
    constructor
    · rintro - ⟨-, h⟩
      exact hfits h
    · intro _
      omega

/-- **When the budget holds.** For every configuration that is accepted and every limiter built from
it: every window stays within the budget iff the budget is one request and the window in
milliseconds fits in 64 bits. -/
theorem budget_holds_iff {base64Decode : String → Option (List UInt8)} {env : Config.Env}
    {finish : Finish} {mode : Overflow} {cfg : Config} {limiter : Limiter String}
    (hgcra : finish.Gcra (refillNanos cfg) cfg.rateLimitMaxRequests)
    (hcfg : Config.fromEnv base64Decode env = .ok cfg)
    (hlimiter : config finish mode cfg = some (.ok limiter)) :
    BudgetHolds cfg limiter ↔
      cfg.rateLimitMaxRequests = 1 ∧ cfg.rateLimitWindowSeconds.toNat * 1000 < 2 ^ 64 := by
  have himpl := implements_of_config hgcra hlimiter
  obtain ⟨hmax, hwindow⟩ := Config.rateLimit_ne_zero_of_fromEnv hcfg
  have hmax' : 0 < cfg.rateLimitMaxRequests.toNat := by
    apply Nat.pos_of_ne_zero
    intro h
    exact hmax (UInt32.toNat_inj.mp h)
  have hwindow' : 0 < cfg.rateLimitWindowSeconds.toNat := by
    apply Nat.pos_of_ne_zero
    intro h
    exact hwindow (UInt64.toNat_inj.mp h)
  have hone : cfg.rateLimitMaxRequests = 1 ↔ cfg.rateLimitMaxRequests.toNat = 1 :=
    UInt32.toNat_inj.symm
  have hlt : refillNanos cfg < windowNanos cfg ↔ _ := period_lt_window_iff hwindow' hmax'
  rw [← hone] at hlt
  constructor
  · intro hbudget
    by_contra hnot
    exact not_budgetHolds_of_period himpl hmax' (hlt.mpr hnot) hbudget
  · intro h
    have hnanos : 0 < windowNanos cfg := by
      unfold windowNanos
      omega
    apply budgetHolds_of_period himpl hnanos
    have hfits := h.2
    rw [refillNanos, hone.mp h.1, Nat.mod_eq_of_lt hfits, Nat.div_one, windowNanos]
    omega

/-! ### Two configurations -/

/-- The key of 32 zero bytes. -/
def zeroKey : String := "AAAAAAAAAAAAAAAAAAAAAAAAAAAAAAAAAAAAAAAAAAA="

def zeroKeyDecode (encoded : String) : Option (List UInt8) :=
  if encoded = zeroKey then some (List.replicate 32 0) else none

/-- Only what is required is set, and perhaps the budget. -/
def minimalEnv (maxRequests : Option String) : Config.Env := fun key =>
  if key = "TOTP_ENCRYPTION_KEY" then some ("base64:" ++ zeroKey)
  else if key = "DATABASE_URL" then some "postgres://localhost/totp"
  else if key = "KEYCLOAK_ISSUER" then some "http://keycloak:8080/realms/lock-demo/"
  else if key = "TOTP_SERVER_KEYCLOAK_CLIENT_ID" then some "totp-server"
  else if key = "TOTP_SERVER_KEYCLOAK_CLIENT_SECRET" then some "secret"
  else if key = "RATE_LIMIT_MAX_REQUESTS" then maxRequests
  else none

def minimalConfig (maxRequests : UInt32) : Config where
  databaseUrl            := "postgres://localhost/totp"
  host                   := "0.0.0.0"
  port                   := 3000
  keycloakIssuer         := "http://keycloak:8080/realms/lock-demo"
  keycloakClientId       := "totp-server"
  keycloakClientSecret   := "secret"
  expectedAudience       := "totp-server"
  adminRole              := "totp-admin"
  encryptionKey          := Vector.replicate 32 0
  totpSkewSteps          := 1
  rateLimitMaxRequests   := maxRequests
  rateLimitWindowSeconds := 300

theorem fromEnv_minimalEnv_none :
    Config.fromEnv zeroKeyDecode (minimalEnv none) = .ok (minimalConfig 6) := by
  decide +kernel

/-- A builder that keeps the buckets themselves, and panics when the nanoseconds do not fit. -/
def bucketFinish : Finish := fun period burstSize =>
  if period = 0 ∨ burstSize = 0 then some none
  else if period * burstSize.toNat < 2 ^ 64 then
    some (some (Quota.limiter ⟨period, burstSize.toNat⟩))
  else none

theorem bucketFinish_eq {period : Nat} {burstSize : UInt32} (hperiod : period ≠ 0)
    (hburst : burstSize ≠ 0) (hfits : period * burstSize.toNat < 2 ^ 64) :
    bucketFinish period burstSize = some (some (Quota.limiter ⟨period, burstSize.toNat⟩)) := by
  rw [bucketFinish, if_neg (not_or.mpr ⟨hperiod, hburst⟩), if_pos hfits]

theorem bucketFinish_documented : bucketFinish.Documented where
  zero := by
    intro period burstSize hzero
    exact if_pos hzero
  built := by
    intro period burstSize hperiod hburst hfits
    exact ⟨_, bucketFinish_eq hperiod hburst hfits⟩

theorem bucketFinish_gcra (period : Nat) (burstSize : UInt32) :
    bucketFinish.Gcra period burstSize := by
  intro limiter hlimiter
  unfold bucketFinish at hlimiter
  split at hlimiter
  · cases hlimiter
  · split at hlimiter
    · cases hlimiter
      exact Quota.limiter_implements _
    · cases hlimiter

/-- The bucket of a minimal configuration. -/
def minimalLimiter (maxRequests : UInt32) : Limiter String :=
  (quota (minimalConfig maxRequests)).limiter

theorem config_minimal (maxRequests : UInt32) (hmax : maxRequests ≠ 0)
    (hle : maxRequests.toNat ≤ 300000) :
    config bucketFinish .panics (minimalConfig maxRequests) =
      some (.ok (minimalLimiter maxRequests)) := by
  have hpos : 0 < maxRequests.toNat := by
    apply Nat.pos_of_ne_zero
    intro h
    exact hmax (UInt32.toNat_inj.mp h)
  have hfits : (minimalConfig maxRequests).rateLimitWindowSeconds.toNat * 1000 < 2 ^ 64 := by
    show 300 * 1000 < 2 ^ 64
    decide
  have hnanos := refillNanos_of_fits hfits
  have hmillis : (minimalConfig maxRequests).rateLimitWindowSeconds.toNat * 1000 = 300000 := by
    show (300 : UInt64).toNat * 1000 = 300000
    decide
  rw [hmillis] at hnanos
  have hperiod : 0 < 300000 / maxRequests.toNat := Nat.div_pos hle hpos
  have hround := Nat.div_mul_le_self 300000 maxRequests.toNat
  refine config_eq_ok_iff.mpr ⟨refill_of_fits .panics hmax hfits, ?_⟩
  apply bucketFinish_eq _ hmax
  · rw [hnanos, Nat.mul_right_comm]
    exact Nat.lt_of_le_of_lt (Nat.mul_le_mul_right _ hround) (by decide)
  · rw [hnanos]
    exact Nat.mul_ne_zero (Nat.pos_iff_ne_zero.mp hperiod) (by decide)

/-- A budget of one request in five minutes is kept. -/
theorem budget_holds_single_request :
    Config.fromEnv zeroKeyDecode (minimalEnv (some " 1 ")) = .ok (minimalConfig 1) ∧
      config bucketFinish .panics (minimalConfig 1) = some (.ok (minimalLimiter 1)) ∧
      BudgetHolds (minimalConfig 1) (minimalLimiter 1) := by
  have hcfg : Config.fromEnv zeroKeyDecode (minimalEnv (some " 1 ")) = .ok (minimalConfig 1) := by
    decide +kernel
  have hlimiter := config_minimal 1 (by decide) (by decide)
  refine ⟨hcfg, hlimiter, ?_⟩
  exact (budget_holds_iff (bucketFinish_gcra _ _) hcfg hlimiter).mpr ⟨rfl, by decide⟩

/-- The default budget of six requests in five minutes is not: six requests at once and one fifty
seconds later are all admitted. -/
theorem default_budget_exceeded :
    Config.fromEnv zeroKeyDecode (minimalEnv none) = .ok (minimalConfig 6) ∧
      bucketFinish.Gcra (refillNanos (minimalConfig 6)) 6 ∧
      config bucketFinish .panics (minimalConfig 6) = some (.ok (minimalLimiter 6)) ∧
      (admitted (minimalLimiter 6)
        (List.replicate 6 (requestAt 0) ++ [requestAt 50000000000])).countP
        (inWindow Prod.fst arrival "subject-1" 0 (0 + windowNanos (minimalConfig 6))) = 7 ∧
      ¬ BudgetHolds (minimalConfig 6) (minimalLimiter 6) := by
  have hseven : (admitted (minimalLimiter 6)
      (List.replicate 6 (requestAt 0) ++ [requestAt 50000000000])).countP
      (inWindow Prod.fst arrival "subject-1" 0 (0 + windowNanos (minimalConfig 6))) = 7 := by
    decide +kernel
  refine ⟨fromEnv_minimalEnv_none, bucketFinish_gcra _ _, ?_, hseven, ?_⟩
  · exact config_minimal _ (by decide) (by decide)
  intro hbudget
  have hle := hbudget (List.replicate 6 (requestAt 0) ++ [requestAt 50000000000])
    (by decide +kernel) "subject-1" 0
  rw [hseven] at hle
  exact absurd hle (by decide)

/-! ## The refill period

`config` rounds the period down, so that a window may regain more than the budget. Whether a limiter
comes of it is for `finish` to say; for windows of less than 584 years its documentation does. -/

/-- The arithmetic of `config` goes through (no division by zero, no overflow), and whenever it
returns a limiter, the refill period of `p` milliseconds gives back no more than the budget in a
window. -/
def RefillSafe (finish : Finish) (mode : Overflow) (cfg : Config) : Prop :=
  (∃ p, refill .panics cfg = some p) ∧
  ∀ limiter p, config finish mode cfg = some (.ok limiter) → refill mode cfg = some p →
    1000 * cfg.rateLimitWindowSeconds.toNat ≤ p.toNat * cfg.rateLimitMaxRequests.toNat

/-- Rounding down loses nothing iff there is nothing to round. -/
theorem le_div_mul_iff {window max : Nat} : window ≤ window / max * max ↔ max ∣ window := by
  constructor
  · intro hle
    exact Dvd.intro_left _ (Nat.le_antisymm (Nat.div_mul_le_self ..) hle)
  · intro hdvd
    rw [Nat.div_mul_cancel hdvd]

/-- The period is safe iff it is exact, or no limiter is built with it. -/
theorem refillSafe_iff_of_builder (finish : Finish) (mode : Overflow) {cfg : Config}
    (hmax : cfg.rateLimitMaxRequests ≠ 0) :
    RefillSafe finish mode cfg ↔
      cfg.rateLimitWindowSeconds.toNat * 1000 < 2 ^ 64 ∧
        (cfg.rateLimitMaxRequests.toNat ∣ cfg.rateLimitWindowSeconds.toNat * 1000 ∨
          ∀ limiter, finish (cfg.rateLimitWindowSeconds.toNat * 1000 /
              cfg.rateLimitMaxRequests.toNat * 1000000) cfg.rateLimitMaxRequests ≠
            some (some limiter)) := by
  constructor
  · rintro ⟨⟨p, hp⟩, hsafe⟩
    have hfits := fits_of_refill hp
    refine ⟨hfits, ?_⟩
    by_contra hnot
    obtain ⟨hinexact, hbuilt⟩ := not_or.mp hnot
    push Not at hbuilt
    obtain ⟨limiter, hlimiter⟩ := hbuilt
    rw [← refillNanos_of_fits hfits] at hlimiter
    -- a limiter is returned with a period that is shorter than the exact one
    obtain ⟨q, hq⟩ := refill_of_fits mode hmax hfits
    have hle := hsafe limiter q (config_eq_ok_iff.mpr ⟨⟨q, hq⟩, hlimiter⟩) hq
    rw [toNat_of_refill hq, Nat.mod_eq_of_lt hfits, Nat.mul_comm 1000] at hle
    exact hinexact (le_div_mul_iff.mp hle)
  · rintro ⟨hfits, hexact⟩
    refine ⟨refill_of_fits .panics hmax hfits, ?_⟩
    intro limiter p hlimiter hp
    have hbuilt := (config_eq_ok_iff.mp hlimiter).2
    rw [refillNanos_of_fits hfits] at hbuilt
    rcases hexact with hdvd | hnone
    · rw [toNat_of_refill hp, Nat.mod_eq_of_lt hfits, Nat.mul_comm 1000]
      exact le_div_mul_iff.mpr hdvd
    · exact absurd hbuilt (hnone limiter)

/-- For windows of less than 584 years no limiter is built iff the period is rounded down to
nothing. -/
theorem finish_ne_iff {finish : Finish} (hfinish : finish.Documented) {window : Nat} {max : UInt32}
    (hmax : max ≠ 0) (hshort : window * 1000000000 < 2 ^ 64) :
    (∀ limiter, finish (window * 1000 / max.toNat * 1000000) max ≠ some (some limiter)) ↔
      window * 1000 < max.toNat := by
  have hpos : 0 < max.toNat := by
    apply Nat.pos_of_ne_zero
    intro h
    exact hmax (UInt32.toNat_inj.mp h)
  constructor
  · intro hnone
    by_contra hle
    have hperiod : window * 1000 / max.toNat * 1000000 ≠ 0 := by
      have := Nat.div_pos (Nat.le_of_not_lt hle) hpos
      omega
    have hfits : window * 1000 / max.toNat * 1000000 * max.toNat < 2 ^ 64 := by
      calc window * 1000 / max.toNat * 1000000 * max.toNat
          = window * 1000 / max.toNat * max.toNat * 1000000 := Nat.mul_right_comm ..
        _ ≤ window * 1000 * 1000000 := Nat.mul_le_mul_right _ (Nat.div_mul_le_self ..)
        _ = window * 1000000000 := Nat.mul_assoc ..
        _ < 2 ^ 64 := hshort
    obtain ⟨limiter, hlimiter⟩ := hfinish.built _ max hperiod hmax hfits
    exact hnone limiter hlimiter
  · intro hlt limiter hlimiter
    rw [Nat.div_eq_of_lt hlt, Nat.zero_mul, hfinish.zero _ _ (.inl rfl)] at hlimiter
    cases hlimiter

/-- **When the refill period is safe.** No accepted configuration makes `config` divide by zero. Its
product fits, and its refill period gives back no more than the budget in a window, iff the window
in milliseconds fits in 64 bits and is a multiple of the budget, or no limiter is built from the
period that was rounded down. For a window of less than 584 years that last case is a period rounded
down to nothing. -/
theorem refill_safe_iff {base64Decode : String → Option (List UInt8)} {env : Config.Env}
    {cfg : Config} (finish : Finish) (mode : Overflow)
    (hcfg : Config.fromEnv base64Decode env = .ok cfg) :
    cfg.rateLimitMaxRequests.toUInt64 ≠ 0 ∧
      (RefillSafe finish mode cfg ↔
        cfg.rateLimitWindowSeconds.toNat * 1000 < 2 ^ 64 ∧
          (cfg.rateLimitMaxRequests.toNat ∣ cfg.rateLimitWindowSeconds.toNat * 1000 ∨
            ∀ limiter, finish (cfg.rateLimitWindowSeconds.toNat * 1000 /
                cfg.rateLimitMaxRequests.toNat * 1000000) cfg.rateLimitMaxRequests ≠
              some (some limiter))) ∧
      (finish.Documented → cfg.rateLimitWindowSeconds.toNat * 1000000000 < 2 ^ 64 →
        (RefillSafe finish mode cfg ↔
          cfg.rateLimitMaxRequests.toNat ∣ cfg.rateLimitWindowSeconds.toNat * 1000 ∨
            cfg.rateLimitWindowSeconds.toNat * 1000 < cfg.rateLimitMaxRequests.toNat)) := by
  obtain ⟨hmax, -⟩ := Config.rateLimit_ne_zero_of_fromEnv hcfg
  have hsafe := refillSafe_iff_of_builder finish mode hmax
  refine ⟨toUInt64_ne_zero hmax, hsafe, ?_⟩
  intro hfinish hshort
  have hfits : cfg.rateLimitWindowSeconds.toNat * 1000 < 2 ^ 64 :=
    Nat.lt_of_le_of_lt (Nat.mul_le_mul_left _ (by decide)) hshort
  rw [hsafe, finish_ne_iff hfinish hmax hshort]
  exact and_iff_right hfits

/-- The default configuration is safe: 300 s are 6 times 50 s. -/
theorem refill_safe_default :
    Config.fromEnv zeroKeyDecode (minimalEnv none) = .ok (minimalConfig 6) ∧
      config bucketFinish .panics (minimalConfig 6) = some (.ok (minimalLimiter 6)) ∧
      RefillSafe bucketFinish .panics (minimalConfig 6) := by
  refine ⟨fromEnv_minimalEnv_none, config_minimal _ (by decide) (by decide), ?_⟩
  apply (refill_safe_iff bucketFinish .panics fromEnv_minimalEnv_none).2.1.mpr
  exact ⟨by decide, .inl (by decide)⟩

/-- A budget of seven requests is not, whichever builder it is: a token comes back every 42857 ms,
and seven of them take one millisecond less than the window. -/
theorem refill_period_too_short :
    Config.fromEnv zeroKeyDecode (minimalEnv (some "7")) = .ok (minimalConfig 7) ∧
      refill .panics (minimalConfig 7) = some 42857 ∧
      42857 * 7 < 1000 * (minimalConfig 7).rateLimitWindowSeconds.toNat ∧
      config bucketFinish .panics (minimalConfig 7) = some (.ok (minimalLimiter 7)) ∧
      ¬ RefillSafe bucketFinish .panics (minimalConfig 7) ∧
      ∀ finish : Finish, finish.Documented → ¬ RefillSafe finish .panics (minimalConfig 7) := by
  have hperiod : refill .panics (minimalConfig 7) = some 42857 := by decide +kernel
  have hshort : 42857 * 7 < 1000 * (minimalConfig 7).rateLimitWindowSeconds.toNat := by decide
  have hunsafe : ∀ finish : Finish, finish.Documented →
      ¬ RefillSafe finish .panics (minimalConfig 7) := by
    intro finish hfinish hsafe
    obtain ⟨limiter, hlimiter⟩ := hfinish.built (refillNanos (minimalConfig 7)) 7
      (by decide) (by decide) (by decide)
    have hle := hsafe.2 limiter 42857 (config_eq_ok_iff.mpr ⟨⟨42857, hperiod⟩, hlimiter⟩) hperiod
    exact absurd hle (Nat.not_le_of_lt hshort)
  refine ⟨by decide +kernel, hperiod, hshort, ?_, ?_, hunsafe⟩
  · exact config_minimal _ (by decide) (by decide)
  · exact hunsafe bucketFinish bucketFinish_documented

end Urheilulaatikko.Server.RateLimit
