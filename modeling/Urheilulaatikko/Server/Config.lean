import Urheilulaatikko.Lib.Text
import Urheilulaatikko.Server.Error

/-!
# The configuration, read from the environment

`config.rs` of the server. The environment is a function (after `.env` has been merged into it),
and an `anyhow` error is the text it displays. Base64 decoding is a parameter.
-/

namespace Urheilulaatikko.Server

open Text

/-- `ENCRYPTION_KEY_LEN`. -/
abbrev encryptionKeyLen : Nat := 32

structure Config where
  databaseUrl            : String
  host                   : String
  port                   : UInt16
  keycloakIssuer         : String
  keycloakClientId       : String
  keycloakClientSecret   : String
  expectedAudience       : String
  adminRole              : String
  encryptionKey          : Vector UInt8 encryptionKeyLen
  totpSkewSteps          : UInt8
  rateLimitMaxRequests   : UInt32
  rateLimitWindowSeconds : UInt64
  deriving DecidableEq, Repr

/-- `std::str::FromStr`, for the types the configuration holds. -/
class FromStr (α : Type) where
  fromStr : String → Except ParseIntError α

instance : FromStr UInt8 where
  fromStr s := (parseUnsigned (UInt8.size - 1) s).map fun n => .ofNatLT n.1 (Nat.lt_succ_of_le n.2)

instance : FromStr UInt16 where
  fromStr s := (parseUnsigned (UInt16.size - 1) s).map fun n => .ofNatLT n.1 (Nat.lt_succ_of_le n.2)

instance : FromStr UInt32 where
  fromStr s := (parseUnsigned (UInt32.size - 1) s).map fun n => .ofNatLT n.1 (Nat.lt_succ_of_le n.2)

instance : FromStr UInt64 where
  fromStr s := (parseUnsigned (UInt64.size - 1) s).map fun n => .ofNatLT n.1 (Nat.lt_succ_of_le n.2)

namespace Config

/-- `env::var`; a variable that is not Unicode counts as unset. -/
abbrev Env := String → Option String

def required (env : Env) (key : String) : Except String String :=
  match env key with
  | some value => .ok value
  | none       => .error s!"{key} must be set"

def optionalParse {α : Type} [FromStr α] (env : Env) (key : String) (default : α) :
    Except String α :=
  match env key with
  | none     => .ok default
  | some raw => (FromStr.fromStr (trim raw)).mapError fun (e : ParseIntError) =>
      let e := e.display
      s!"{key} is not a valid value: {e}"

def parseEncryptionKey (base64Decode : String → Option (List UInt8)) (raw : String) :
    Except String (Vector UInt8 encryptionKeyLen) :=
  let raw := trim raw
  let encoded := (stripPrefix raw "base64:").getD raw
  match base64Decode encoded with
  | none => .error "TOTP_ENCRYPTION_KEY must be valid base64 (optionally `base64:`-prefixed)"
  | some bytes =>
      let len := bytes.length
      if h : bytes.toArray.size = encryptionKeyLen then .ok ⟨bytes.toArray, h⟩
      else .error s!"TOTP_ENCRYPTION_KEY must decode to exactly 32 bytes, got {len}"

/-- The two settings of the rate limit, each checked to be at least 1. -/
def atLeastOne {α : Type} [DecidableEq α] [OfNat α 0] (key : String) (value : α) :
    Except String α :=
  if value = 0 then .error s!"{key} must be at least 1" else .ok value

def fromEnv (base64Decode : String → Option (List UInt8)) (env : Env) : Except String Config := do
  -- key and rate limit are checked before anything else is read
  let encryptionKey ← parseEncryptionKey base64Decode (← required env "TOTP_ENCRYPTION_KEY")
  let rateLimitMaxRequests ← atLeastOne "RATE_LIMIT_MAX_REQUESTS"
    (← optionalParse env "RATE_LIMIT_MAX_REQUESTS" (6 : UInt32))
  let rateLimitWindowSeconds ← atLeastOne "RATE_LIMIT_WINDOW_SECONDS"
    (← optionalParse env "RATE_LIMIT_WINDOW_SECONDS" (300 : UInt64))
  let databaseUrl ← required env "DATABASE_URL"
  let host := (env "HOST").getD "0.0.0.0"
  let port ← optionalParse env "PORT" 3000
  let keycloakIssuer ← required env "KEYCLOAK_ISSUER"
  let keycloakClientId ← required env "TOTP_SERVER_KEYCLOAK_CLIENT_ID"
  let keycloakClientSecret ← required env "TOTP_SERVER_KEYCLOAK_CLIENT_SECRET"
  let expectedAudience := (env "TOTP_EXPECTED_AUDIENCE").getD "totp-server"
  let adminRole := (env "TOTP_ADMIN_ROLE").getD "totp-admin"
  let totpSkewSteps ← optionalParse env "TOTP_SKEW_STEPS" 1
  return {
    databaseUrl, host, port, keycloakClientId, keycloakClientSecret, expectedAudience, adminRole
    encryptionKey, totpSkewSteps, rateLimitMaxRequests, rateLimitWindowSeconds
    keycloakIssuer := trimEndMatches (· == '/') keycloakIssuer }

theorem ne_zero_of_atLeastOne {α : Type} [DecidableEq α] [OfNat α 0] {key : String} {value v : α}
    (h : atLeastOne key value = .ok v) : v ≠ 0 := by
  unfold atLeastOne at h
  split at h
  · cases h
  · next hne =>
      cases h
      exact hne

/-- The rate limit of a configuration that is accepted is positive in both settings. -/
theorem rateLimit_ne_zero_of_fromEnv {base64Decode : String → Option (List UInt8)} {env : Env}
    {config : Config} (h : fromEnv base64Decode env = .ok config) :
    config.rateLimitMaxRequests ≠ 0 ∧ config.rateLimitWindowSeconds ≠ 0 := by
  simp only [fromEnv, bind_eq_ok_iff] at h
  obtain ⟨_, -, _, -, _, -, _, hmax, _, -, _, hwindow, _, -, _, -, _, -, _, -, _, -, _, -, h⟩ := h
  cases h
  exact ⟨ne_zero_of_atLeastOne hmax, ne_zero_of_atLeastOne hwindow⟩

end Config

end Urheilulaatikko.Server
