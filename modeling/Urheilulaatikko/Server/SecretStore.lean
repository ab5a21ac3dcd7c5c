import Mathlib.Logic.Function.Basic
import Urheilulaatikko.Server.Crypto

/-!
# The secret store

`totp/secret_store.rs` of the server over the tables of `migrations/0001_init.sql`. Every function
here is one SQL statement: it applies as a whole, or it fails and changes nothing. Whether it fails
is not for the store to decide, so the result of the statement is an argument.
-/

namespace Urheilulaatikko.Server

/-! ## The tables

A row of `totp_secrets` is found by its subject, and `request_log` is the list of its rows in the
order of the inserts. -/

inductive RequestResult where
  | issued
  | deniedInactiveToken
  | deniedNoSecret
  | rateLimited
  | provisioned
  deriving DecidableEq, Repr

def RequestResult.asStr : RequestResult → String
  | .issued              => "issued"
  | .deniedInactiveToken => "denied_inactive_token"
  | .deniedNoSecret      => "denied_no_secret"
  | .rateLimited         => "rate_limited"
  | .provisioned         => "provisioned"

/-- Every result has its own text. -/
theorem RequestResult.asStr_inj {result result' : RequestResult} :
    result.asStr = result'.asStr ↔ result = result' := by
  constructor
  · cases result <;> cases result' <;> simp [RequestResult.asStr]
  · intro h
    rw [h]

/-- A row of `totp_secrets`, without its primary key. Times are what `now()` says. -/
structure SecretRow where
  encryptedSecret : List UInt8
  nonce           : List UInt8
  createdAt       : Nat
  lastUsedAt      : Option Nat
  deriving DecidableEq, Repr

/-- A row of `request_log`. -/
structure LogRow where
  id          : Nat
  subject     : Option String
  requestedAt : Nat
  result      : String
  deriving DecidableEq, Repr

structure Database where
  totpSecrets : String → Option SecretRow
  requestLog  : List LogRow

/-- The tables as the migration leaves them. -/
def Database.empty : Database := ⟨fun _ => none, []⟩

/-- How a statement ends, with the text of the `sqlx` error if it fails. -/
abbrev StatementResult := Except String Unit

namespace SecretStore

/-! ## The statements

First what a statement does when it applies, then the functions of the store around it. -/

/-- `insert … on conflict (subject) do update`. -/
def upsertRow (db : Database) (subject : String) (encryptedSecret nonce : List UInt8) (now : Nat) :
    Database :=
  { db with
    totpSecrets := Function.update db.totpSecrets subject
      (some { encryptedSecret, nonce, createdAt := now, lastUsedAt := none }) }

/-- `update totp_secrets set last_used_at = now() where subject = $1`. -/
def touchRow (db : Database) (subject : String) (now : Nat) : Database :=
  { db with
    totpSecrets := Function.update db.totpSecrets subject
      ((db.totpSecrets subject).map fun row => { row with lastUsedAt := some now }) }

def get (cipher : Cipher) (db : Database) (statement : StatementResult) (subject : String) :
    Except AppError (Option (List UInt8)) :=
  match statement with
  | .error e => .error (.internal e)
  | .ok ()   =>
      match db.totpSecrets subject with
      | none     => .ok none
      | some row => (Crypto.decrypt cipher row.encryptedSecret row.nonce).map some

/-- `upsert` after the encryption. -/
def upsert (db : Database) (statement : StatementResult) (subject : String)
    (encryptedSecret nonce : List UInt8) (now : Nat) : Except AppError Database :=
  match statement with
  | .error e => .error (.internal e)
  | .ok ()   => .ok (upsertRow db subject encryptedSecret nonce now)

def touchLastUsed (db : Database) (statement : StatementResult) (subject : String) (now : Nat) :
    Except AppError Database :=
  match statement with
  | .error e => .error (.internal e)
  | .ok ()   => .ok (touchRow db subject now)

/-- An insert that fails is logged and otherwise ignored. -/
def logRequest (db : Database) (statement : StatementResult) (subject : Option String)
    (result : RequestResult) (id now : Nat) : Database :=
  match statement with
  | .error _ => db
  | .ok ()   =>
      { db with requestLog := db.requestLog ++ [⟨id, subject, now, result.asStr⟩] }

/-! ## What each statement does to the secrets

`secretOf` is what a `get` would find. An upsert replaces it for its subject, and the other
statements leave it alone. -/

/-- What the subject's row decrypts to, if there is a row. -/
def secretOf (cipher : Cipher) (db : Database) (subject : String) :
    Option (Except AppError (List UInt8)) :=
  (db.totpSecrets subject).map fun row => Crypto.decrypt cipher row.encryptedSecret row.nonce

theorem secretOf_upsertRow (cipher : Cipher) (db : Database) (subject : String)
    (ct nonce : List UInt8) (now : Nat) :
    secretOf cipher (upsertRow db subject ct nonce now) =
      Function.update (secretOf cipher db) subject (some (Crypto.decrypt cipher ct nonce)) := by
  funext other
  by_cases h : other = subject
  · subst h
    simp [secretOf, upsertRow]
  · simp [secretOf, upsertRow, h]

/-- Marking a secret as used does not change it. -/
@[simp] theorem secretOf_touchRow (cipher : Cipher) (db : Database) (subject : String) (now : Nat) :
    secretOf cipher (touchRow db subject now) = secretOf cipher db := by
  funext other
  by_cases h : other = subject
  · subst h
    simp [secretOf, touchRow, Function.comp_def]
  · simp [secretOf, touchRow, h]

@[simp] theorem totpSecrets_logRequest (db : Database) (statement : StatementResult)
    (subject : Option String) (result : RequestResult) (id now : Nat) :
    (logRequest db statement subject result id now).totpSecrets = db.totpSecrets := by
  cases statement <;> rfl

@[simp] theorem secretOf_logRequest (cipher : Cipher) (db : Database) (statement : StatementResult)
    (subject : Option String) (result : RequestResult) (id now : Nat) :
    secretOf cipher (logRequest db statement subject result id now) = secretOf cipher db := by
  cases statement <;> rfl

/-- `get` finds nothing exactly when its statement succeeds on a table without such a row. -/
theorem get_eq_ok_none_iff {cipher : Cipher} {db : Database} {statement : StatementResult}
    {subject : String} : get cipher db statement subject = .ok none ↔
      statement = .ok () ∧ secretOf cipher db subject = none := by
  unfold get secretOf
  cases statement with
  | error e => simp
  | ok _ =>
      cases db.totpSecrets subject with
      | none => simp
      | some row =>
          cases hdec : Crypto.decrypt cipher row.encryptedSecret row.nonce <;>
            simp [hdec, Except.map]

/-- A secret that `get` returns is what the subject's own row decrypts to. -/
theorem get_eq_ok_some_iff {cipher : Cipher} {db : Database} {statement : StatementResult}
    {subject : String} {secret : List UInt8} :
    get cipher db statement subject = .ok (some secret) ↔
      statement = .ok () ∧ secretOf cipher db subject = some (.ok secret) := by
  unfold get secretOf
  cases statement with
  | error e => simp
  | ok _ =>
      cases db.totpSecrets subject with
      | none => simp
      | some row =>
          cases hdec : Crypto.decrypt cipher row.encryptedSecret row.nonce <;>
            simp [hdec, Except.map]

/-- `get` fails with an internal error only. -/
theorem error_of_get {cipher : Cipher} {db : Database} {statement : StatementResult}
    {subject : String} {e : AppError} (h : get cipher db statement subject = .error e) :
    ∃ source, e = .internal source := by
  unfold get at h
  split at h
  · cases h
    exact ⟨_, rfl⟩
  · split at h
    · cases h
    · next row _ =>
        cases hdec : Crypto.decrypt cipher row.encryptedSecret row.nonce with
        | error e' =>
            rw [hdec] at h
            cases h
            exact Crypto.error_of_decrypt hdec
        | ok secret =>
            rw [hdec] at h
            cases h

end SecretStore

end Urheilulaatikko.Server
