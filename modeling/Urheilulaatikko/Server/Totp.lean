import Urheilulaatikko.Lib.Positional
import Urheilulaatikko.Server.Error

/-!
# The server's PIN generator

`totp/mod.rs` of the server. The RFC 6238 generator is `totp_rs`, which is a parameter: `TotpRs`
lists the operations of it that the server uses. Clock and randomness are arguments.
-/

namespace Urheilulaatikko.Server.Totp

/-- `totp_rs::Algorithm`. -/
inductive Algorithm where
  | sha1
  | sha256
  | sha512
  deriving DecidableEq, Repr

/-- What `totp_rs::Builder` is given. -/
structure Builder where
  algorithm    : Algorithm
  digits       : UInt8
  stepDuration : UInt64
  secret       : List UInt8
  issuer       : Option String
  accountName  : String
  deriving DecidableEq, Repr

/-- `totp_rs`. Its errors are only ever displayed, so an error is its text. -/
structure TotpRs where
  /-- `totp_rs::Totp`. -/
  Generator : Type
  build     : Builder → Except String Generator
  generate  : Generator → UInt64 → String
  toUrl     : Generator → Except String String
  toBase32  : List UInt8 → String

/-- `ALGORITHM`. -/
def algorithm : Algorithm := .sha1

/-- `DIGITS`. -/
def digits : UInt8 := 6

/-- `STEP_SECONDS`. -/
def stepSeconds : UInt64 := 30

/-- `ISSUER`. -/
def issuer : String := "urheilulaatikko"

structure GeneratedPin where
  pin             : String
  validForSeconds : UInt64
  deriving DecidableEq, Repr

/-- A freshly minted secret. -/
structure ProvisionedSecret where
  raw          : List UInt8
  secretBase32 : String
  otpauthUrl   : String
  deriving DecidableEq, Repr

variable (totpRs : TotpRs)

def generator (secret : List UInt8) (accountName : String) : Except AppError totpRs.Generator :=
  let builder : Builder :=
    { algorithm, digits, stepDuration := stepSeconds, secret, issuer := some issuer, accountName }
  (totpRs.build builder).mapError fun e => .internal s!"invalid TOTP parameters: {e}"

def generateAt (secret : List UInt8) (now : UInt64) : Except AppError GeneratedPin := do
  let totp ← generator totpRs secret "user"
  return { pin := totpRs.generate totp now, validForSeconds := stepSeconds - now % stepSeconds }

/-- `provision`, with `raw` the bytes that `Secret::generate` draws. -/
def provision (accountName : String) (raw : List UInt8) : Except AppError ProvisionedSecret := do
  let totp ← generator totpRs raw accountName
  let otpauthUrl ← (totpRs.toUrl totp).mapError fun e =>
    AppError.internal s!"could not build the otpauth URL: {e}"
  return { secretBase32 := totpRs.toBase32 raw, otpauthUrl, raw }

variable {totpRs}

/-! ## What the generator gives

The builder decides whether there is a PIN and the clock decides which; every error comes from the
library and is an internal one. -/

theorem generator_eq_ok_iff {secret : List UInt8} {accountName : String}
    {totp : totpRs.Generator} :
    generator totpRs secret accountName = .ok totp ↔
      totpRs.build ⟨.sha1, 6, 30, secret, some issuer, accountName⟩ = .ok totp :=
  mapError_eq_ok_iff

/-- Whether there is a PIN does not depend on the time. -/
theorem generateAt_eq_ok_iff {secret : List UInt8} {now : UInt64} {generated : GeneratedPin} :
    generateAt totpRs secret now = .ok generated ↔
      ∃ totp, generator totpRs secret "user" = .ok totp ∧
        generated = ⟨totpRs.generate totp now, stepSeconds - now % stepSeconds⟩ := by
  unfold generateAt
  rw [bind_eq_ok_iff]
  constructor
  · rintro ⟨totp, hgen, hok⟩
    cases hok
    exact ⟨totp, hgen, rfl⟩
  · rintro ⟨totp, hgen, rfl⟩
    exact ⟨totp, hgen, rfl⟩

/-- Parameters that do not make a generator are an internal error. -/
theorem error_of_generateAt {secret : List UInt8} {now : UInt64} {e : AppError}
    (h : generateAt totpRs secret now = .error e) : ∃ source, e = .internal source := by
  unfold generateAt at h
  cases hgen : generator totpRs secret "user" with
  | ok totp =>
      rw [hgen] at h
      cases h
  | error e' =>
      rw [hgen] at h
      cases h
      unfold generator at hgen
      cases hbuild : totpRs.build ⟨algorithm, digits, stepSeconds, secret, some issuer, "user"⟩ with
      | ok totp =>
          simp only [hbuild] at hgen
          cases hgen
      | error text =>
          simp only [hbuild] at hgen
          cases hgen
          exact ⟨_, rfl⟩

theorem error_of_generator {secret : List UInt8} {accountName : String} {e : AppError}
    (h : generator totpRs secret accountName = .error e) : ∃ source, e = .internal source := by
  obtain ⟨text, -, rfl⟩ := mapError_eq_error_iff.mp h
  exact ⟨_, rfl⟩

/-- A fresh secret is handed out as it was drawn. -/
theorem raw_of_provision {accountName : String} {raw : List UInt8}
    {provisioned : ProvisionedSecret} (h : provision totpRs accountName raw = .ok provisioned) :
    provisioned.raw = raw := by
  unfold provision at h
  obtain ⟨totp, -, h⟩ := bind_eq_ok_iff.mp h
  obtain ⟨otpauthUrl, -, h⟩ := bind_eq_ok_iff.mp h
  cases h
  rfl

/-- Nothing but an internal error can keep a secret from being minted. -/
theorem error_of_provision {accountName : String} {raw : List UInt8} {e : AppError}
    (h : provision totpRs accountName raw = .error e) : ∃ source, e = .internal source := by
  unfold provision at h
  obtain hgen | ⟨totp, -, h⟩ := bind_eq_error_iff.mp h
  · exact error_of_generator hgen
  · obtain hurl | ⟨otpauthUrl, -, h⟩ := bind_eq_error_iff.mp h
    · obtain ⟨text, -, rfl⟩ := mapError_eq_error_iff.mp hurl
      exact ⟨_, rfl⟩
    · cases h

/-- What is left of the current step: at least one second, at most a whole step. -/
theorem toNat_validForSeconds (now : UInt64) :
    (stepSeconds - now % stepSeconds).toNat = 30 - now.toNat % 30 := by
  have hmod : (now % stepSeconds).toNat = now.toNat % 30 := UInt64.toNat_mod now stepSeconds
  have hlt : now.toNat % 30 < 30 := Nat.mod_lt _ (by omega)
  have hle : now % stepSeconds ≤ stepSeconds := by
    rw [UInt64.le_iff_toNat_le, hmod]
    exact Nat.le_of_lt hlt
  rw [UInt64.toNat_sub_of_le _ _ hle, hmod]
  rfl

/-- The characters of a number below `10 ^ 6`, zero-padded to six. -/
def sixDigits (x : Nat) : List Char := (Positional.digits 10 6 x).map Nat.digitChar

/-! ## The RFC 6238 test vectors -/

/-- `b"12345678901234567890"`. -/
def rfcSecret : List UInt8 :=
  [49, 50, 51, 52, 53, 54, 55, 56, 57, 48, 49, 50, 51, 52, 53, 54, 55, 56, 57, 48]

/-- The codes of the first test vectors and of the steps around them, cut to six digits. -/
def rfcCodes : List (Nat × Nat) :=
  [(0, 755224), (1, 287082), (2, 359152),
   (37037035, 731029), (37037036, 81804), (37037037, 50471), (37037038, 266759)]

def rfcHotp (secret : List UInt8) (counter : Nat) : Nat :=
  if secret = rfcSecret then (rfcCodes.lookup counter).getD 0 else 0

/-- `totp_rs` as far as these vectors tell it. It wants a secret of at least 128 bits. -/
def rfcTotpRs : TotpRs where
  Generator := Builder
  build builder := if builder.secret.length < 16 then .error "secret is too small" else .ok builder
  generate builder t := String.ofList (sixDigits (rfcHotp builder.secret (t.toNat / 30)))
  toUrl builder := .ok ("otpauth://totp/urheilulaatikko:" ++ builder.accountName ++
    "?secret=GEZDGNBVGY3TQOJQGEZDGNBVGY3TQOJQ&issuer=urheilulaatikko")
  toBase32 _ := "GEZDGNBVGY3TQOJQGEZDGNBVGY3TQOJQ"

theorem rfcHotp_lt (secret : List UInt8) (counter : Nat) : rfcHotp secret counter < 10 ^ 6 := by
  unfold rfcHotp
  split
  · cases hcode : rfcCodes.lookup counter with
    | none => decide
    | some code =>
        obtain ⟨before, after, hcodes, -⟩ := List.lookup_eq_some_iff.mp hcode
        have hall : ∀ entry ∈ rfcCodes, entry.2 < 10 ^ 6 := by decide
        exact hall (counter, code) (by simp [hcodes])
  · decide

end Urheilulaatikko.Server.Totp
