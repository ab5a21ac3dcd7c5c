import Urheilulaatikko.Lib.Text
import Urheilulaatikko.Lib.Trace
import Urheilulaatikko.Server.Auth.Introspection
import Urheilulaatikko.Server.SecretStore
import Urheilulaatikko.Server.Totp

/-!
# The two protected routes

`routes/totp.rs` and `routes/provision.rs` of the server, for any number of requests at a time. A
handler is cut at its await points, so that one step of it contains at most one SQL statement, and
handlers take turns in any order. The database's answer, the clocks and everything drawn at random
come with the event; a client that goes away takes its handler with it (`cancel`).

`Moves` spells out every step there is; whatever is proved about runs is proved by cases on it.
-/

namespace Urheilulaatikko.Server.Routes

open Auth Text Totp

/-- What the handlers use of `AppState`. -/
structure AppState where
  /-- `config.admin_role`. -/
  adminRole : String
  cipher    : Cipher
  totpRs    : TotpRs

structure PinResponse where
  pin             : String
  validForSeconds : UInt64
  deriving DecidableEq, Repr

structure ProvisionRequest where
  subject : String
  deriving DecidableEq, Repr

structure ProvisionResponse where
  secretBase32 : String
  otpauthUrl   : String
  deriving DecidableEq, Repr

/-- What a handler meets on its way to its next await: how its statement ends, what `now()` and
`unix_now()` say, and the bytes that `Secret::generate`, the nonce and the UUID would draw. -/
structure Input where
  statement : StatementResult
  dbNow     : Nat
  unixNow   : UInt64
  raw       : List UInt8
  nonce     : Nonce
  logId     : Nat

/-! ## `request_pin`

The `get` comes first, and what it finds, with the time that the clock says there, decides which PIN
is answered. What follows puts it on record; of that only the touch can still turn it into an
error. -/

/-- Where a `request_pin` handler stands. -/
inductive RequestPin where
  /-- Before `get`. -/
  | called
  /-- Before the `denied_no_secret` row. -/
  | denying
  /-- Before `touch_last_used`. -/
  | touching (secret : List UInt8) (generated : GeneratedPin)
  /-- Before the `issued` row. -/
  | issuing (generated : GeneratedPin)
  | answered (answer : Except AppError PinResponse)

def requestPin (app : AppState) (user : AuthenticatedUser) (db : Database) (input : Input) :
    RequestPin → Option (Database × RequestPin)
  | .called =>
      match SecretStore.get app.cipher db input.statement user.subject with
      | .error e   => some (db, .answered (.error e))
      | .ok none   => some (db, .denying)
      | .ok (some secret) =>
          match generateAt app.totpRs secret input.unixNow with
          | .error e      => some (db, .answered (.error e))
          | .ok generated => some (db, .touching secret generated)
  | .denying =>
      let db := SecretStore.logRequest db input.statement (some user.subject) .deniedNoSecret
        input.logId input.dbNow
      some (db, .answered (.error .notFound))
  | .touching _ generated =>
      -- by subject, whatever secret the row holds by now
      match SecretStore.touchLastUsed db input.statement user.subject input.dbNow with
      | .error e => some (db, .answered (.error e))
      | .ok db   => some (db, .issuing generated)
  | .issuing generated =>
      let db := SecretStore.logRequest db input.statement (some user.subject) .issued
        input.logId input.dbNow
      some (db, .answered (.ok ⟨generated.pin, generated.validForSeconds⟩))
  | .answered _ => none

/-! ## `provision`

The secret is drawn and encrypted before the first statement. After the commit only the record of it
is left to do, and a failure of that is ignored. -/

/-- Where a `provision` handler stands. -/
inductive Provision where
  | called
  /-- Before the `upsert` statement. -/
  | upserting (subject : String) (provisioned : ProvisionedSecret)
      (encryptedSecret nonce : List UInt8)
  /-- Before the `provisioned` row. -/
  | recording (subject : String) (provisioned : ProvisionedSecret)
  | answered (answer : Except AppError ProvisionResponse)

def provision (app : AppState) (admin : AuthenticatedUser) (payload : ProvisionRequest)
    (db : Database) (input : Input) : Provision → Option (Database × Provision)
  | .called =>
      if !admin.hasRole app.adminRole then some (db, .answered (.error .forbidden))
      else
        -- trimmed here only: `request_pin` uses the token's subject as it is
        let subject := trim payload.subject
        if subject = "" then some (db, .answered (.error .forbidden))
        else
          match Totp.provision app.totpRs subject input.raw with
          | .error e => some (db, .answered (.error e))
          | .ok provisioned =>
              match Crypto.encrypt app.cipher input.nonce provisioned.raw with
              | .error e => some (db, .answered (.error e))
              | .ok (encryptedSecret, nonce) =>
                  some (db, .upserting subject provisioned encryptedSecret nonce)
  | .upserting subject provisioned encryptedSecret nonce =>
      match SecretStore.upsert db input.statement subject encryptedSecret nonce input.dbNow with
      | .error e => some (db, .answered (.error e))
      | .ok db   => some (db, .recording subject provisioned)
  | .recording subject provisioned =>
      let db := SecretStore.logRequest db input.statement (some subject) .provisioned
        input.logId input.dbNow
      some (db, .answered (.ok ⟨provisioned.secretBase32, provisioned.otpauthUrl⟩))
  | .answered _ => none

/-! ## Any number of handlers

Handlers share the database and nothing else. Each event moves one of them to its next await. -/

inductive Handler where
  | requestPin (user : AuthenticatedUser) (stage : RequestPin)
  | provision (admin : AuthenticatedUser) (payload : ProvisionRequest) (stage : Provision)
  /-- Cancelled at one of its awaits. -/
  | dropped

/-- A handler that is still at work. -/
def Handler.running : Handler → Bool
  | .requestPin _ (.answered _) | .provision _ _ (.answered _) | .dropped => false
  | _ => true

/-- The tables, and the handlers by the number of their request. -/
structure State where
  db       : Database
  handlers : Nat → Option Handler

def State.init : State := ⟨Database.empty, fun _ => none⟩

inductive Event where
  | requestPin (id : Nat) (user : AuthenticatedUser)
  | provision (id : Nat) (admin : AuthenticatedUser) (payload : ProvisionRequest)
  /-- Handler `id` runs to its next await. -/
  | advance (id : Nat) (input : Input)
  | cancel (id : Nat)

def State.setHandler (s : State) (id : Nat) (h : Handler) : State :=
  { s with handlers := Function.update s.handlers id (some h) }

/-- A new handler; the numbers of requests are not used again. -/
def State.spawn (s : State) (id : Nat) (h : Handler) : Option State :=
  match s.handlers id with
  | none   => some (s.setHandler id h)
  | some _ => none

def step (app : AppState) (s : State) : Event → Option State
  | .requestPin id user        => s.spawn id (.requestPin user .called)
  | .provision id admin payload => s.spawn id (.provision admin payload .called)
  | .advance id input =>
      match s.handlers id with
      | some (.requestPin user stage) => do
          let (db, stage) ← requestPin app user s.db input stage
          some ({ s with db }.setHandler id (.requestPin user stage))
      | some (.provision admin payload stage) => do
          let (db, stage) ← provision app admin payload s.db input stage
          some ({ s with db }.setHandler id (.provision admin payload stage))
      | _ => none
  | .cancel id =>
      match s.handlers id with
      | some h => if h.running then some (s.setHandler id .dropped) else none
      | none   => none

@[simp] theorem State.db_setHandler (s : State) (id : Nat) (h : Handler) :
    (s.setHandler id h).db = s.db := rfl

@[simp] theorem State.handlers_setHandler (s : State) (id : Nat) (h : Handler) :
    (s.setHandler id h).handlers = Function.update s.handlers id (some h) := rfl

/-- A handler is the new one or was there before. -/
theorem State.cases_setHandler {s : State} {id other : Nat} {handler h : Handler}
    (hother : (s.setHandler id handler).handlers other = some h) :
    (other ≠ id ∧ s.handlers other = some h) ∨ (other = id ∧ handler = h) := by
  rw [State.handlers_setHandler] at hother
  by_cases heq : other = id
  · subst heq
    rw [Function.update_self, Option.some.injEq] at hother
    exact .inr ⟨rfl, hother⟩
  · rw [Function.update_of_ne heq] at hother
    exact .inl ⟨heq, hother⟩

/-- What holds of every handler and of a new one holds of every handler afterwards. -/
theorem State.forall_setHandler {s : State} {P : Nat → Handler → Prop}
    (hall : ∀ id h, s.handlers id = some h → P id h) {id : Nat} {handler : Handler}
    (hnew : P id handler) :
    ∀ other h, (s.setHandler id handler).handlers other = some h → P other h := by
  intro other h hother
  obtain ⟨-, hold⟩ | ⟨rfl, rfl⟩ := State.cases_setHandler hother
  · exact hall other h hold
  · exact hnew

/-! ## What `provision` asks for

`provision` has two questions, and both come before anything is drawn. Whom they turn away is told
so; from then on a `provision` fails only from within. -/

section Provision

variable (app : AppState) (admin : AuthenticatedUser) (payload : ProvisionRequest)

/-- Who may provision, and for whom: an admin, for a subject that is not blank. -/
def Permitted : Prop := admin.hasRole app.adminRole = true ∧ trim payload.subject ≠ ""

instance : Decidable (Permitted app admin payload) := inferInstanceAs (Decidable (_ ∧ _))

/-- The errors of `provision`: "forbidden" to whom it is not permitted, and an internal one to the
others. -/
def Fails (e : AppError) : Prop :=
  if Permitted app admin payload then ∃ source, e = .internal source else e = .forbidden

/-- A secret that has been minted for the subject of the payload, who may have one. -/
structure Mints (subject : String) (provisioned : ProvisionedSecret) : Prop where
  permitted : Permitted app admin payload
  named     : subject = trim payload.subject
  minted    : Totp.provision app.totpRs subject provisioned.raw = .ok provisioned

variable {app admin payload}

/-- 403 to whom it is not permitted, 500 to the others. -/
theorem Fails.status {e : AppError} (h : Fails app admin payload e) :
    (e.status = 403 ∧ ¬ Permitted app admin payload) ∨
      (e.status = 500 ∧ Permitted app admin payload) := by
  simp only [Fails] at h
  split at h
  · next hpermitted =>
      obtain ⟨source, rfl⟩ := h
      exact .inr ⟨rfl, hpermitted⟩
  · next hpermitted =>
      subst h
      exact .inl ⟨rfl, hpermitted⟩

theorem Fails.forbidden (h : ¬ Permitted app admin payload) : Fails app admin payload .forbidden :=
  (if_neg h).mpr rfl

theorem Fails.internal (h : Permitted app admin payload) (source : String) :
    Fails app admin payload (.internal source) :=
  (if_pos h).mpr ⟨source, rfl⟩

theorem mints_of_provision (hpermitted : Permitted app admin payload) {raw : List UInt8}
    {provisioned : ProvisionedSecret}
    (hprovision : Totp.provision app.totpRs (trim payload.subject) raw = .ok provisioned) :
    Mints app admin payload (trim payload.subject) provisioned := by
  refine ⟨hpermitted, rfl, ?_⟩
  rw [raw_of_provision hprovision]
  exact hprovision

end Provision

/-! ## Every step there is

The inversion of `step`. A constructor carries the guards of its branch, so that no proof about runs
has to open `request_pin` or `provision` again. -/

section Moves

variable (app : AppState)

/-- The steps of a `request_pin` handler. -/
inductive RequestPin.Move (user : AuthenticatedUser) (db : Database) (input : Input) :
    RequestPin → Database → RequestPin → Prop
  | unread {e : AppError}
      (hget : SecretStore.get app.cipher db input.statement user.subject = .error e) :
      Move user db input .called db (.answered (.error e))
  | missing (hget : SecretStore.get app.cipher db input.statement user.subject = .ok none) :
      Move user db input .called db .denying
  | unusable {secret : List UInt8} {e : AppError}
      (hget : SecretStore.get app.cipher db input.statement user.subject = .ok (some secret))
      (hgen : generateAt app.totpRs secret input.unixNow = .error e) :
      Move user db input .called db (.answered (.error e))
  | generated {secret : List UInt8} {generated : GeneratedPin}
      (hget : SecretStore.get app.cipher db input.statement user.subject = .ok (some secret))
      (hgen : generateAt app.totpRs secret input.unixNow = .ok generated) :
      Move user db input .called db (.touching secret generated)
  | denied :
      Move user db input .denying (SecretStore.logRequest db input.statement (some user.subject)
        .deniedNoSecret input.logId input.dbNow) (.answered (.error .notFound))
  | untouched {secret : List UInt8} {generated : GeneratedPin} {e : String}
      (hstatement : input.statement = .error e) :
      Move user db input (.touching secret generated) db (.answered (.error (.internal e)))
  | touched {secret : List UInt8} {generated : GeneratedPin}
      (hstatement : input.statement = .ok ()) :
      Move user db input (.touching secret generated)
        (SecretStore.touchRow db user.subject input.dbNow) (.issuing generated)
  | issued {generated : GeneratedPin} :
      Move user db input (.issuing generated) (SecretStore.logRequest db input.statement
        (some user.subject) .issued input.logId input.dbNow)
        (.answered (.ok ⟨generated.pin, generated.validForSeconds⟩))

/-- The steps of a `provision` handler. -/
inductive Provision.Move (admin : AuthenticatedUser) (payload : ProvisionRequest) (db : Database)
    (input : Input) : Provision → Database → Provision → Prop
  | refused {e : AppError} (hfails : Fails app admin payload e) :
      Move admin payload db input .called db (.answered (.error e))
  | prepared {provisioned : ProvisionedSecret} {encryptedSecret nonce : List UInt8}
      (hmints : Mints app admin payload (trim payload.subject) provisioned)
      (hencrypt :
        Crypto.encrypt app.cipher input.nonce provisioned.raw = .ok (encryptedSecret, nonce)) :
      Move admin payload db input .called db
        (.upserting (trim payload.subject) provisioned encryptedSecret nonce)
  | rejected {subject : String} {provisioned : ProvisionedSecret}
      {encryptedSecret nonce : List UInt8} {e : String} (hstatement : input.statement = .error e) :
      Move admin payload db input (.upserting subject provisioned encryptedSecret nonce) db
        (.answered (.error (.internal e)))
  | committed {subject : String} {provisioned : ProvisionedSecret}
      {encryptedSecret nonce : List UInt8} (hstatement : input.statement = .ok ()) :
      Move admin payload db input (.upserting subject provisioned encryptedSecret nonce)
        (SecretStore.upsertRow db subject encryptedSecret nonce input.dbNow)
        (.recording subject provisioned)
  | recorded {subject : String} {provisioned : ProvisionedSecret} :
      Move admin payload db input (.recording subject provisioned)
        (SecretStore.logRequest db input.statement (some subject) .provisioned input.logId
          input.dbNow)
        (.answered (.ok ⟨provisioned.secretBase32, provisioned.otpauthUrl⟩))

/-- The steps of the server. -/
inductive Moves (s : State) : Event → State → Prop
  | requestPin {id : Nat} {user : AuthenticatedUser} (hnew : s.handlers id = none) :
      Moves s (.requestPin id user) (s.setHandler id (.requestPin user .called))
  | provision {id : Nat} {admin : AuthenticatedUser} {payload : ProvisionRequest}
      (hnew : s.handlers id = none) :
      Moves s (.provision id admin payload) (s.setHandler id (.provision admin payload .called))
  | cancel {id : Nat} {h : Handler} (hold : s.handlers id = some h) (hrunning : h.running = true) :
      Moves s (.cancel id) (s.setHandler id .dropped)
  | advanceRequest {id : Nat} {input : Input} {user : AuthenticatedUser} {stage stage' : RequestPin}
      {db : Database} (hold : s.handlers id = some (.requestPin user stage))
      (hmove : RequestPin.Move app user s.db input stage db stage') :
      Moves s (.advance id input) ({ s with db }.setHandler id (.requestPin user stage'))
  | advanceProvision {id : Nat} {input : Input} {admin : AuthenticatedUser}
      {payload : ProvisionRequest} {stage stage' : Provision} {db : Database}
      (hold : s.handlers id = some (.provision admin payload stage))
      (hmove : Provision.Move app admin payload s.db input stage db stage') :
      Moves s (.advance id input) ({ s with db }.setHandler id (.provision admin payload stage'))

variable {app}

theorem move_of_requestPin {user : AuthenticatedUser} {db db' : Database} {input : Input}
    {stage stage' : RequestPin} (h : requestPin app user db input stage = some (db', stage')) :
    RequestPin.Move app user db input stage db' stage' := by
  cases stage with
  | called =>
      simp only [requestPin] at h
      split at h
      · next hget =>
          cases h
          exact .unread hget
      · next hget =>
          cases h
          exact .missing hget
      · next secret hget =>
          split at h
          · next hgen =>
              cases h
              exact .unusable hget hgen
          · next hgen =>
              cases h
              exact .generated hget hgen
  | denying =>
      cases h
      exact .denied
  | touching secret generated =>
      simp only [requestPin, SecretStore.touchLastUsed] at h
      cases hstatement : input.statement with
      | error e =>
          rw [hstatement] at h
          cases h
          exact .untouched hstatement
      | ok _ =>
          rw [hstatement] at h
          cases h
          exact .touched hstatement
  | issuing generated =>
      cases h
      exact .issued
  | answered answer => cases h

theorem move_of_provision {admin : AuthenticatedUser} {payload : ProvisionRequest}
    {db db' : Database} {input : Input} {stage stage' : Provision}
    (h : provision app admin payload db input stage = some (db', stage')) :
    Provision.Move app admin payload db input stage db' stage' := by
  cases stage with
  | called =>
      simp only [provision] at h
      split at h
      · next hrole =>
          cases h
          apply Provision.Move.refused (Fails.forbidden _)
          rintro ⟨hadmin, -⟩
          simp [hadmin] at hrole
      · next hrole =>
          split at h
          · next hblank =>
              cases h
              exact .refused (Fails.forbidden fun hpermitted => hpermitted.2 hblank)
          · next hblank =>
              have hpermitted : Permitted app admin payload := ⟨by simpa using hrole, hblank⟩
              split at h
              · next herror =>
                  cases h
                  obtain ⟨source, rfl⟩ := error_of_provision herror
                  exact .refused (Fails.internal hpermitted source)
              · next hprovision =>
                  split at h
                  · next herror =>
                      cases h
                      obtain ⟨source, rfl⟩ := Crypto.error_of_encrypt herror
                      exact .refused (Fails.internal hpermitted source)
                  · next hencrypt =>
                      cases h
                      exact .prepared (mints_of_provision hpermitted hprovision) hencrypt
  | upserting subject provisioned encryptedSecret nonce =>
      simp only [provision, SecretStore.upsert] at h
      cases hstatement : input.statement with
      | error e =>
          rw [hstatement] at h
          cases h
          exact .rejected hstatement
      | ok _ =>
          rw [hstatement] at h
          cases h
          exact .committed hstatement
  | recording subject provisioned =>
      cases h
      exact .recorded
  | answered answer => cases h

theorem moves_of_step {s s' : State} {e : Event} (h : step app s e = some s') :
    Moves app s e s' := by
  cases e with
  | requestPin id user =>
      simp only [step, State.spawn] at h
      split at h
      · next hnew =>
          cases h
          exact .requestPin hnew
      · cases h
  | provision id admin payload =>
      simp only [step, State.spawn] at h
      split at h
      · next hnew =>
          cases h
          exact .provision hnew
      · cases h
  | advance id input =>
      simp only [step] at h
      split at h
      · next user stage hold =>
          obtain ⟨⟨db, stage'⟩, hmove, h⟩ := Option.bind_eq_some_iff.mp h
          cases h
          exact .advanceRequest hold (move_of_requestPin hmove)
      · next admin payload stage hold =>
          obtain ⟨⟨db, stage'⟩, hmove, h⟩ := Option.bind_eq_some_iff.mp h
          cases h
          exact .advanceProvision hold (move_of_provision hmove)
      · cases h
  | cancel id =>
      simp only [step] at h
      split at h
      · next h' hold =>
          split at h
          · next hrunning =>
              cases h
              exact .cancel hold hrunning
          · cases h
      · cases h

/-- Where a `request_pin` handler has come from: it was there, it has just been called, or it has
moved itself. -/
theorem requestPin_of_moves {s s' : State} {e : Event} (hmoves : Moves app s e s') {id : Nat}
    {user : AuthenticatedUser} {stage' : RequestPin}
    (hold : s'.handlers id = some (.requestPin user stage')) :
    s.handlers id = some (.requestPin user stage') ∨ stage' = .called ∨
      ∃ input stage db, e = .advance id input ∧ s.handlers id = some (.requestPin user stage) ∧
        RequestPin.Move app user s.db input stage db stage' := by
  cases hmoves with
  | requestPin hnew =>
      obtain ⟨-, hold⟩ | ⟨-, hsame⟩ := State.cases_setHandler hold
      · exact .inl hold
      · cases hsame
        exact .inr (.inl rfl)
  | advanceRequest hold' hmove =>
      obtain ⟨-, hold⟩ | ⟨rfl, hsame⟩ := State.cases_setHandler hold
      · exact .inl hold
      · cases hsame
        exact .inr (.inr ⟨_, _, _, rfl, hold', hmove⟩)
  | provision hnew | cancel hold' hrunning | advanceProvision hold' hmove =>
      obtain ⟨-, hold⟩ | ⟨-, hsame⟩ := State.cases_setHandler hold
      · exact .inl hold
      · cases hsame

end Moves

/-! ## A small server

A cipher with a 16-byte tag, the generator of the RFC vectors, one admin and one user. -/

def demoCipher : Cipher where
  encrypt _ plaintext := some (plaintext.map (· ^^^ 42) ++ List.replicate 16 0)
  decrypt _ ciphertext :=
    if ciphertext.drop (ciphertext.length - 16) = List.replicate 16 0 then
      some ((ciphertext.take (ciphertext.length - 16)).map (· ^^^ 42))
    else none

theorem demoCipher_inverts : demoCipher.Inverts := by
  intro nonce plaintext ciphertext h
  cases h
  have htwice : ∀ b : UInt8, b ^^^ 42 ^^^ 42 = b := by
    intro b
    rw [UInt8.xor_assoc, UInt8.xor_self, UInt8.xor_zero]
  simp [demoCipher, Function.comp_def, htwice]

def demoApp : AppState where
  adminRole := "totp-admin"
  cipher    := demoCipher
  totpRs    := rfcTotpRs

def demoAdmin : AuthenticatedUser := ⟨"admin-1", ["totp-admin"]⟩

def alice : AuthenticatedUser := ⟨"alice", []⟩

/-- An uneventful step at `unixNow`, where `raw` is what a new secret would be. -/
def smooth (unixNow : UInt64) (raw : List UInt8) : Input where
  statement := .ok ()
  dbNow     := unixNow.toNat
  unixNow   := unixNow
  raw       := raw
  nonce     := Vector.replicate 12 7
  logId     := 0

/-- The database does not answer. -/
def failing : Input := { smooth 59 rfcSecret with statement := .error "pool timed out" }

end Urheilulaatikko.Server.Routes
