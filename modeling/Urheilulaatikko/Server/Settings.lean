import Urheilulaatikko.Server.Config

/-!
# What the environment may say

`Config::from_env` reads twelve variables, nine of which can be wrong. `Reads` says what every one
of them has to look like; `fromEnv_exact` says that exactly these environments are accepted, that
otherwise the first variable that is wrong is named, and that every configuration whose settings are
possible at all can be written down.
-/

namespace Urheilulaatikko.Server.Config

open Text

/-! ## Numbers

What the unsigned types of the configuration accept, said once for all of them. -/

/-- Decimal digits, with an optional plus sign in front. -/
def Spells (s : String) (n : Nat) : Prop :=
  ∃ digits, (s.toList = digits ∨ s.toList = '+' :: digits) ∧ digits ≠ [] ∧
    (∀ c ∈ digits, c.isDigit = true) ∧ n = Nat.ofDigitChars 10 digits 0

/-- A type of numbers, read in decimal. -/
class ReadsNumber (α : Type) [FromStr α] where
  toNat : α → Nat
  toNat_inj : ∀ {v w : α}, toNat v = toNat w → v = w
  fromStr_eq_ok_iff : ∀ {s : String} {v : α},
    FromStr.fromStr s = .ok v ↔ Spells s (toNat v)

theorem map_parseUnsigned_eq_ok_iff {α : Type} {max : Nat} {make : { n : Nat // n ≤ max } → α}
    {toNat : α → Nat} (hmake : ∀ n, toNat (make n) = n.1) (hle : ∀ v, toNat v ≤ max)
    (hinj : ∀ {v w}, toNat v = toNat w → v = w) {s : String} {v : α} :
    (parseUnsigned max s).map make = .ok v ↔ Spells s (toNat v) := by
  have hread : (parseUnsigned max s).map make = .ok v ↔
      parseUnsigned max s = .ok ⟨toNat v, hle v⟩ := by
    constructor
    · intro h
      cases hparse : parseUnsigned max s with
      | error e =>
          rw [hparse] at h
          cases h
      | ok n =>
          rw [hparse] at h
          obtain rfl : make n = v := Except.ok.inj h
          exact congrArg Except.ok (Subtype.ext (hmake n).symm)
    · intro h
      rw [h]
      exact congrArg Except.ok (hinj (hmake _))
  rw [hread, parseUnsigned_eq_ok_iff]
  rfl

instance : ReadsNumber UInt8 where
  toNat := UInt8.toNat
  toNat_inj := UInt8.toNat_inj.mp
  fromStr_eq_ok_iff := map_parseUnsigned_eq_ok_iff (fun _ => UInt8.toNat_ofNatLT)
    (fun v => Nat.le_of_lt_succ v.toNat_lt) UInt8.toNat_inj.mp

instance : ReadsNumber UInt16 where
  toNat := UInt16.toNat
  toNat_inj := UInt16.toNat_inj.mp
  fromStr_eq_ok_iff := map_parseUnsigned_eq_ok_iff (fun _ => UInt16.toNat_ofNatLT)
    (fun v => Nat.le_of_lt_succ v.toNat_lt) UInt16.toNat_inj.mp

instance : ReadsNumber UInt32 where
  toNat := UInt32.toNat
  toNat_inj := UInt32.toNat_inj.mp
  fromStr_eq_ok_iff := map_parseUnsigned_eq_ok_iff (fun _ => UInt32.toNat_ofNatLT)
    (fun v => Nat.le_of_lt_succ v.toNat_lt) UInt32.toNat_inj.mp

instance : ReadsNumber UInt64 where
  toNat := UInt64.toNat
  toNat_inj := UInt64.toNat_inj.mp
  fromStr_eq_ok_iff := map_parseUnsigned_eq_ok_iff (fun _ => UInt64.toNat_ofNatLT)
    (fun v => Nat.le_of_lt_succ v.toNat_lt) UInt64.toNat_inj.mp

/-! ## One variable at a time

When a check passes, and with which value. -/

/-- A number that may be left out. -/
def Setting (env : Env) (key : String) (default n : Nat) : Prop :=
  match env key with
  | none     => n = default
  | some raw => Spells (trim raw) n

theorem optionalParse_eq_ok_iff {α : Type} [FromStr α] [ReadsNumber α] {env : Env} {key : String}
    {default v : α} :
    optionalParse env key default = .ok v ↔
      Setting env key (ReadsNumber.toNat default) (ReadsNumber.toNat v) := by
  unfold optionalParse Setting
  cases env key with
  | none =>
      constructor
      · intro h
        cases h
        rfl
      · intro h
        rw [ReadsNumber.toNat_inj h]
  | some raw => rw [mapError_eq_ok_iff, ReadsNumber.fromStr_eq_ok_iff]

theorem required_eq_ok_iff {env : Env} {key value : String} :
    required env key = .ok value ↔ env key = some value := by
  unfold required
  cases env key <;> simp

theorem atLeastOne_eq_ok_iff {α : Type} [DecidableEq α] [OfNat α 0] {key : String} {value v : α} :
    atLeastOne key value = .ok v ↔ v = value ∧ v ≠ 0 := by
  unfold atLeastOne
  split
  · next hzero => simp [hzero]
  · next hne =>
      simp only [Except.ok.injEq]
      constructor
      · rintro rfl
        exact ⟨rfl, hne⟩
      · exact fun h => h.1.symm

/-- A key of 32 bytes: the base64 text of it, with white space around it and an optional `base64:`
in front. -/
def SpellsKey (base64Decode : String → Option (List UInt8)) (raw : String)
    (key : Vector UInt8 encryptionKeyLen) : Prop :=
  base64Decode ((stripPrefix (trim raw) "base64:").getD (trim raw)) = some key.toList

theorem parseEncryptionKey_eq_ok_iff {base64Decode : String → Option (List UInt8)} {raw : String}
    {key : Vector UInt8 encryptionKeyLen} :
    parseEncryptionKey base64Decode raw = .ok key ↔ SpellsKey base64Decode raw key := by
  simp only [parseEncryptionKey, SpellsKey]
  generalize base64Decode ((stripPrefix (trim raw) "base64:").getD (trim raw)) = decoded
  cases decoded with
  | none => simp
  | some bytes =>
      simp only [Option.some.injEq]
      constructor
      · intro h
        split at h
        · cases h
          rfl
        · cases h
      · rintro rfl
        have hsize : key.toList.toArray.size = encryptionKeyLen := by simp
        rw [dif_pos hsize]
        refine congrArg Except.ok (Vector.toArray_inj.mp ?_)
        exact Array.toArray_toList

/-! ## All of them

`Reads` is the grammar of an environment, and `from_env` accepts exactly what it describes. -/

/-- What the environment has to say for a configuration. -/
structure Reads (base64Decode : String → Option (List UInt8)) (env : Env) (cfg : Config) :
    Prop where
  encryptionKey : ∃ raw, env "TOTP_ENCRYPTION_KEY" = some raw ∧
    SpellsKey base64Decode raw cfg.encryptionKey
  maxRequests : Setting env "RATE_LIMIT_MAX_REQUESTS" 6 cfg.rateLimitMaxRequests.toNat
  maxRequests_ne_zero : cfg.rateLimitMaxRequests ≠ 0
  windowSeconds : Setting env "RATE_LIMIT_WINDOW_SECONDS" 300 cfg.rateLimitWindowSeconds.toNat
  windowSeconds_ne_zero : cfg.rateLimitWindowSeconds ≠ 0
  databaseUrl : env "DATABASE_URL" = some cfg.databaseUrl
  host : cfg.host = (env "HOST").getD "0.0.0.0"
  port : Setting env "PORT" 3000 cfg.port.toNat
  keycloakIssuer : ∃ raw, env "KEYCLOAK_ISSUER" = some raw ∧
    cfg.keycloakIssuer = trimEndMatches (· == '/') raw
  keycloakClientId : env "TOTP_SERVER_KEYCLOAK_CLIENT_ID" = some cfg.keycloakClientId
  keycloakClientSecret : env "TOTP_SERVER_KEYCLOAK_CLIENT_SECRET" = some cfg.keycloakClientSecret
  expectedAudience : cfg.expectedAudience = (env "TOTP_EXPECTED_AUDIENCE").getD "totp-server"
  adminRole : cfg.adminRole = (env "TOTP_ADMIN_ROLE").getD "totp-admin"
  totpSkewSteps : Setting env "TOTP_SKEW_STEPS" 1 cfg.totpSkewSteps.toNat

theorem reads_of_fromEnv {base64Decode : String → Option (List UInt8)} {env : Env} {cfg : Config}
    (h : fromEnv base64Decode env = .ok cfg) : Reads base64Decode env cfg := by
  simp only [fromEnv, bind_eq_ok_iff, required_eq_ok_iff, atLeastOne_eq_ok_iff,
    optionalParse_eq_ok_iff, parseEncryptionKey_eq_ok_iff] at h
  obtain ⟨rawKey, hrawKey, key, hkey, max, hmax, _, ⟨rfl, hmaxpos⟩, window, hwindow, _,
    ⟨rfl, hwindowpos⟩, url, hurl, port, hport, issuer, hissuer, clientId, hclientId, secret,
    hsecret, skew, hskew, h⟩ := h
  cases h
  exact ⟨⟨rawKey, hrawKey, hkey⟩, hmax, hmaxpos, hwindow, hwindowpos, hurl, rfl, hport,
    ⟨issuer, hissuer, rfl⟩, hclientId, hsecret, rfl, rfl, hskew⟩

theorem fromEnv_of_reads {base64Decode : String → Option (List UInt8)} {env : Env} {cfg : Config}
    (h : Reads base64Decode env cfg) : fromEnv base64Decode env = .ok cfg := by
  obtain ⟨rawKey, hrawKey, hkey⟩ := h.encryptionKey
  obtain ⟨issuer, hissuer, hcut⟩ := h.keycloakIssuer
  simp only [fromEnv, bind_eq_ok_iff, required_eq_ok_iff, atLeastOne_eq_ok_iff,
    optionalParse_eq_ok_iff, parseEncryptionKey_eq_ok_iff]
  refine ⟨rawKey, hrawKey, cfg.encryptionKey, hkey, cfg.rateLimitMaxRequests, h.maxRequests, _,
    ⟨rfl, h.maxRequests_ne_zero⟩, cfg.rateLimitWindowSeconds, h.windowSeconds, _,
    ⟨rfl, h.windowSeconds_ne_zero⟩, _, h.databaseUrl, cfg.port, h.port, issuer, hissuer, _,
    h.keycloakClientId, _, h.keycloakClientSecret, cfg.totpSkewSteps, h.totpSkewSteps, ?_⟩
  rw [← h.host, ← hcut, ← h.expectedAudience, ← h.adminRole]
  rfl

/-! ## The first thing that is wrong

The checks run in a fixed order and the first failure ends them. So the error is that of the first
variable in this order whose own check fails. -/

/-- The variables that can be wrong. -/
inductive Variable where
  | encryptionKey
  | maxRequests
  | windowSeconds
  | databaseUrl
  | port
  | keycloakIssuer
  | keycloakClientId
  | keycloakClientSecret
  | totpSkewSteps
  deriving DecidableEq, Repr

def Variable.name : Variable → String
  | .encryptionKey        => "TOTP_ENCRYPTION_KEY"
  | .maxRequests          => "RATE_LIMIT_MAX_REQUESTS"
  | .windowSeconds        => "RATE_LIMIT_WINDOW_SECONDS"
  | .databaseUrl          => "DATABASE_URL"
  | .port                 => "PORT"
  | .keycloakIssuer       => "KEYCLOAK_ISSUER"
  | .keycloakClientId     => "TOTP_SERVER_KEYCLOAK_CLIENT_ID"
  | .keycloakClientSecret => "TOTP_SERVER_KEYCLOAK_CLIENT_SECRET"
  | .totpSkewSteps        => "TOTP_SKEW_STEPS"

/-- In the order in which they are looked at. -/
def Variable.order : List Variable :=
  [.encryptionKey, .maxRequests, .windowSeconds, .databaseUrl, .port, .keycloakIssuer,
    .keycloakClientId, .keycloakClientSecret, .totpSkewSteps]

/-- The error of a check, if it fails. -/
def errorOf {α : Type} : Except String α → Option String
  | .ok _    => none
  | .error e => some e

/-- What is wrong with a variable, whatever the others are. -/
def Variable.problem (base64Decode : String → Option (List UInt8)) (env : Env) (v : Variable) :
    Option String :=
  match v with
  | .encryptionKey =>
      errorOf (required env v.name >>= parseEncryptionKey base64Decode)
  | .maxRequests =>
      errorOf (optionalParse env v.name (6 : UInt32) >>= atLeastOne v.name)
  | .windowSeconds =>
      errorOf (optionalParse env v.name (300 : UInt64) >>= atLeastOne v.name)
  | .port => errorOf (optionalParse env v.name (3000 : UInt16))
  | .totpSkewSteps => errorOf (optionalParse env v.name (1 : UInt8))
  | .databaseUrl | .keycloakIssuer | .keycloakClientId | .keycloakClientSecret =>
      errorOf (required env v.name)

/-- A check, and then the others: the first one that fails decides. -/
theorem errorOf_bind {α β : Type} {x : Except String α} {f : α → Except String β}
    {p : Variable → Option String} {v : Variable} {vs : List Variable} (hx : p v = errorOf x)
    (hf : ∀ a, errorOf (f a) = vs.findSome? p) : errorOf (x >>= f) = (v :: vs).findSome? p := by
  rw [List.findSome?_cons, hx]
  cases x with
  | error e => rfl
  | ok a => exact hf a

theorem errorOf_fromEnv (base64Decode : String → Option (List UInt8)) (env : Env) :
    errorOf (fromEnv base64Decode env) =
      Variable.order.findSome? (Variable.problem base64Decode env) := by
  unfold fromEnv
  rw [← bind_assoc]
  refine errorOf_bind rfl fun encryptionKey => ?_
  rw [← bind_assoc]
  refine errorOf_bind rfl fun maxRequests => ?_
  rw [← bind_assoc]
  refine errorOf_bind rfl fun windowSeconds => ?_
  refine errorOf_bind rfl fun databaseUrl => ?_
  refine errorOf_bind rfl fun port => ?_
  refine errorOf_bind rfl fun keycloakIssuer => ?_
  refine errorOf_bind rfl fun keycloakClientId => ?_
  refine errorOf_bind rfl fun keycloakClientSecret => ?_
  exact errorOf_bind rfl fun totpSkewSteps => rfl

/-- A computation whose every error starts with the name of the variable. -/
def Blames {α : Type} (x : Except String α) (key : String) : Prop :=
  ∀ e, errorOf x = some e → key.toList <+: e.toList

section Blames

variable {α β : Type} {key : String}

theorem Blames.bind {x : Except String α} {f : α → Except String β} (hx : Blames x key)
    (hf : ∀ a, Blames (f a) key) : Blames (x >>= f) key := by
  cases x with
  | error e => exact hx
  | ok a => exact hf a

theorem blames_error {e : String} (h : key.toList <+: e.toList) :
    Blames (.error e : Except String α) key := by
  intro e' he
  cases he
  exact h

theorem toList_prefix_append (s t : String) : s.toList <+: (s ++ t).toList := by
  rw [String.toList_append]
  exact List.prefix_append _ _

theorem blames_ok (a : α) : Blames (.ok a) key := by
  intro e h
  cases h

theorem blames_required (env : Env) (key : String) : Blames (required env key) key := by
  unfold required
  split
  · exact blames_ok _
  · exact blames_error (toList_prefix_append _ _)

theorem blames_optionalParse [FromStr α] (env : Env) (key : String) (default : α) :
    Blames (optionalParse env key default) key := by
  unfold optionalParse
  split
  · exact blames_ok _
  · next raw _ =>
      cases (FromStr.fromStr (trim raw) : Except ParseIntError α) with
      | ok a => exact blames_ok _
      | error e =>
          apply blames_error
          show key.toList <+: (key ++ " is not a valid value: " ++ e.display).toList
          rw [String.append_assoc]
          exact toList_prefix_append _ _

theorem blames_atLeastOne [DecidableEq α] [OfNat α 0] (key : String) (value : α) :
    Blames (atLeastOne key value) key := by
  unfold atLeastOne
  split
  · exact blames_error (toList_prefix_append _ _)
  · exact blames_ok _

theorem blames_parseEncryptionKey (base64Decode : String → Option (List UInt8)) (raw : String) :
    Blames (parseEncryptionKey base64Decode raw) "TOTP_ENCRYPTION_KEY" := by
  simp only [parseEncryptionKey]
  split
  · exact blames_error (by decide)
  · split
    · exact blames_ok _
    · apply blames_error
      have hlead : "TOTP_ENCRYPTION_KEY".toList <+:
          "TOTP_ENCRYPTION_KEY must decode to exactly 32 bytes, got ".toList := by
        decide
      exact hlead.trans (toList_prefix_append _ _)

end Blames

/-- Every error names the variable it is about. -/
theorem Variable.name_of_problem {base64Decode : String → Option (List UInt8)} {env : Env}
    {v : Variable} {e : String} (h : v.problem base64Decode env = some e) :
    v.name.toList <+: e.toList := by
  cases v with
  | encryptionKey =>
      exact (blames_required env _).bind (blames_parseEncryptionKey base64Decode) e h
  | maxRequests => exact (blames_optionalParse env _ _).bind (blames_atLeastOne _) e h
  | windowSeconds => exact (blames_optionalParse env _ _).bind (blames_atLeastOne _) e h
  | port => exact blames_optionalParse env _ _ e h
  | totpSkewSteps => exact blames_optionalParse env _ _ e h
  | databaseUrl | keycloakIssuer | keycloakClientId | keycloakClientSecret =>
      exact blames_required env _ e h

/-! ## Writing a configuration down

Every configuration that can be read at all can be written down, so that it is read back. -/

/-- The environment that says what a configuration is. -/
def toEnv (base64Encode : List UInt8 → String) (cfg : Config) : Env
  | "TOTP_ENCRYPTION_KEY"                => some ("base64:" ++ base64Encode cfg.encryptionKey.toList)
  | "RATE_LIMIT_MAX_REQUESTS"            => some (toString cfg.rateLimitMaxRequests.toNat)
  | "RATE_LIMIT_WINDOW_SECONDS"          => some (toString cfg.rateLimitWindowSeconds.toNat)
  | "DATABASE_URL"                       => some cfg.databaseUrl
  | "HOST"                               => some cfg.host
  | "PORT"                               => some (toString cfg.port.toNat)
  | "KEYCLOAK_ISSUER"                    => some cfg.keycloakIssuer
  | "TOTP_SERVER_KEYCLOAK_CLIENT_ID"     => some cfg.keycloakClientId
  | "TOTP_SERVER_KEYCLOAK_CLIENT_SECRET" => some cfg.keycloakClientSecret
  | "TOTP_EXPECTED_AUDIENCE"             => some cfg.expectedAudience
  | "TOTP_ADMIN_ROLE"                    => some cfg.adminRole
  | "TOTP_SKEW_STEPS"                    => some (toString cfg.totpSkewSteps.toNat)
  | _                                    => none

/-- What no environment can get around: a rate limit that is not zero, and an issuer without a slash
at its end. -/
structure Possible (cfg : Config) : Prop where
  maxRequests   : cfg.rateLimitMaxRequests ≠ 0
  windowSeconds : cfg.rateLimitWindowSeconds ≠ 0
  issuer        : cfg.keycloakIssuer.toList.getLast? ≠ some '/'

theorem Reads.possible {base64Decode : String → Option (List UInt8)} {env : Env} {cfg : Config}
    (h : Reads base64Decode env cfg) : cfg.Possible := by
  refine ⟨h.maxRequests_ne_zero, h.windowSeconds_ne_zero, ?_⟩
  obtain ⟨raw, -, hcut⟩ := h.keycloakIssuer
  intro hlast
  rw [hcut] at hlast
  exact absurd (eq_false_of_getLast?_trimEndMatches hlast) (by decide)

/-- A number that is printed is read back. -/
theorem setting_toString {env : Env} {key : String} {default n : Nat}
    (h : env key = some (toString n)) : Setting env key default n := by
  have hspells : Spells (toString n) n :=
    parseUnsigned_eq_ok_iff.mp (parseUnsigned_toString (Nat.le_refl n))
  have htrim : trim (toString n) = toString n :=
    trim_eq_self fun c hc => isWhiteSpace_of_isDigit (isDigit_of_mem_toString hc)
  simp only [Setting, h, htrim]
  exact hspells

section ToEnv

variable {base64Decode : String → Option (List UInt8)} {base64Encode : List UInt8 → String}

/-- So is a key. -/
theorem spellsKey_encode (hinverts : ∀ bytes, base64Decode (base64Encode bytes) = some bytes)
    (hblank : ∀ bytes, ∀ c ∈ (base64Encode bytes).toList, isWhiteSpace c = false)
    (key : Vector UInt8 encryptionKeyLen) :
    SpellsKey base64Decode ("base64:" ++ base64Encode key.toList) key := by
  have htrim : trim ("base64:" ++ base64Encode key.toList) =
      "base64:" ++ base64Encode key.toList := by
    apply trim_eq_self
    intro c hc
    rw [String.toList_append, List.mem_append] at hc
    rcases hc with hc | hc
    · have hlead : "base64:".toList.all (fun c => !isWhiteSpace c) = true := by decide
      simpa using List.all_eq_true.mp hlead c hc
    · exact hblank _ c hc
  have hstrip : stripPrefix ("base64:" ++ base64Encode key.toList) "base64:" =
      some (base64Encode key.toList) := by
    simp [stripPrefix]
  rw [SpellsKey, htrim, hstrip]
  exact hinverts key.toList

theorem reads_toEnv (hinverts : ∀ bytes, base64Decode (base64Encode bytes) = some bytes)
    (hblank : ∀ bytes, ∀ c ∈ (base64Encode bytes).toList, isWhiteSpace c = false) {cfg : Config}
    (h : cfg.Possible) : Reads base64Decode (toEnv base64Encode cfg) cfg where
  encryptionKey := ⟨_, rfl, spellsKey_encode hinverts hblank _⟩
  maxRequests := setting_toString rfl
  maxRequests_ne_zero := h.maxRequests
  windowSeconds := setting_toString rfl
  windowSeconds_ne_zero := h.windowSeconds
  databaseUrl := rfl
  host := rfl
  port := setting_toString rfl
  keycloakIssuer := by
    refine ⟨_, rfl, (trimEndMatches_eq_self ?_).symm⟩
    intro c hc
    have hne : c ≠ '/' := by
      rintro rfl
      exact h.issuer hc
    simpa using hne
  keycloakClientId := rfl
  keycloakClientSecret := rfl
  expectedAudience := rfl
  adminRole := rfl
  totpSkewSteps := setting_toString rfl

end ToEnv

/-- **Exactly what `from_env` accepts.** For every environment:

* a configuration is what is read iff every variable says so, in its own way of writing;
* if something is wrong, the error is the one of the first variable that is wrong, in the order in
  which they are looked at, and begins with its name;
* given an encoder of base64 that the decoder inverts and that writes no white space, a
  configuration is read back from the environment that says it iff its rate limit is positive and
  its issuer does not end with a slash. -/
theorem fromEnv_exact (base64Decode : String → Option (List UInt8)) (env : Env) :
    (∀ cfg, fromEnv base64Decode env = .ok cfg ↔ Reads base64Decode env cfg) ∧
    (∀ e, fromEnv base64Decode env = .error e ↔
      Variable.order.findSome? (Variable.problem base64Decode env) = some e) ∧
    (∀ v e, Variable.problem base64Decode env v = some e → v.name.toList <+: e.toList) ∧
    (∀ base64Encode : List UInt8 → String,
      (∀ bytes, base64Decode (base64Encode bytes) = some bytes) →
      (∀ bytes, ∀ c ∈ (base64Encode bytes).toList, isWhiteSpace c = false) →
      ∀ cfg, fromEnv base64Decode (toEnv base64Encode cfg) = .ok cfg ↔ cfg.Possible) := by
  refine ⟨fun cfg => ⟨reads_of_fromEnv, fromEnv_of_reads⟩, ?_, fun v e => Variable.name_of_problem,
    ?_⟩
  · intro e
    rw [← errorOf_fromEnv]
    cases fromEnv base64Decode env <;> simp [errorOf]
  · intro base64Encode hinverts hblank cfg
    constructor
    · intro h
      exact (reads_of_fromEnv h).possible
    · intro h
      exact fromEnv_of_reads (reads_toEnv hinverts hblank h)

end Urheilulaatikko.Server.Config
