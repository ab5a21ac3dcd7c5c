import Urheilulaatikko.Server.Auth.Middleware
import Urheilulaatikko.Server.RateLimit
import Urheilulaatikko.Server.Routes

/-!
# The layers around the handlers

`create_router` of `routes/mod.rs` with the middlewares of `auth/middleware.rs`, for any number of
requests at a time. A request goes through authentication, the audit layer and the rate limit to its
handler, and the answer comes back through the audit layer:

    arrived ──▶ authenticating ──▶ limiting ──▶ handling ──▶ answered
       │              │                │            │
       └───▶ denying ◀┘                └▶ auditing ◀┘

As in `Routes`, one step contains at most one SQL statement. What the outside decides comes with the
event: the outcome of the introspection (`SingleFlight` tells which ones there are), whether the
limiter lets the request through (`RateLimit`), and how each statement ends.

A client may go away at any await. Where the await is that of a statement, the statement may have
its effect all the same: after all but the last one of a request there is a step left in which the
client goes away; the last one is an insert into `request_log`, and `Event.abandon` is for it.
-/

namespace Urheilulaatikko.Server.Router

open Auth RateLimit

/-! ## Requests and answers

What a request carries through the layers, and where it can stand between two awaits. -/

/-- What can be wrong with a body that should be JSON. -/
inductive JsonRejection where
  | unknownBody
  | syntaxError
  | lengthLimit
  | missingContentType
  | dataError
  deriving DecidableEq, Repr

def JsonRejection.status : JsonRejection → Nat
  | .unknownBody        => 400
  | .syntaxError        => 400
  | .lengthLimit        => 413
  | .missingContentType => 415
  | .dataError          => 422

inductive Response where
  | pin (body : Routes.PinResponse)
  | provisioned (body : Routes.ProvisionResponse)
  | error (e : AppError)
  /-- The limiter's own answer to a request it refuses. -/
  | tooManyRequests
  /-- The limiter's answer to a request without a key. -/
  | unableToExtractKey
  | jsonRejection (rejection : JsonRejection)
  deriving DecidableEq, Repr

def Response.status : Response → Nat
  | .pin _ | .provisioned _   => 200
  | .error e                  => e.status
  | .tooManyRequests          => 429
  | .unableToExtractKey       => 500
  | .jsonRejection rejection  => rejection.status

/-- Where a request stands. -/
inductive Stage where
  | arrived
  /-- In `authenticate`. -/
  | authenticating (token : String)
  /-- Before the `denied_inactive_token` row. -/
  | denying (e : AppError)
  /-- In front of the limiter. -/
  | limiting
  | handling (handler : Routes.Handler)
  /-- Before the `rate_limited` row. -/
  | auditing (response : Response)
  | answered (response : Response)
  /-- The client has gone away. -/
  | dropped

/-- The request is over. -/
def Stage.over : Stage → Bool
  | .answered _ | .dropped => true
  | _ => false

/-- A `POST` to one of the protected routes. `user` is the extension that the authentication layer
sets, `body` what the `Json` extractor makes of the body if it is asked. -/
structure Request extends RateLimit.Request where
  authorization : Option HeaderValue
  body          : Except JsonRejection Routes.ProvisionRequest
  stage         : Stage

/-- What a request meets on its way to its next await. -/
structure Input extends Routes.Input where
  outcome : IntrospectionOutcome
  allowed : Bool

namespace Request

/-- What `audit_rate_limited` does with the answer from inside. -/
def respond (r : Request) (response : Response) : Request :=
  if response.status = 429 then { r with stage := .auditing response }
  else { r with stage := .answered response }

/-- The extractors of the handler. -/
def call (r : Request) (user : AuthenticatedUser) : Request :=
  match r.route with
  | .request => { r with stage := .handling (.requestPin user .called) }
  | .provision =>
      match r.body with
      | .error rejection => r.respond (.jsonRejection rejection)
      | .ok payload      => { r with stage := .handling (.provision user payload .called) }

/-- The handler of `/v1/totp/request` at `stage`. -/
def requestPin (r : Request) (user : AuthenticatedUser) : Routes.RequestPin → Request
  | .answered (.ok body)   => r.respond (.pin body)
  | .answered (.error e)   => r.respond (.error e)
  | stage                  => { r with stage := .handling (.requestPin user stage) }

/-- The handler of `/v1/totp/provision` at `stage`. -/
def provision (r : Request) (admin : AuthenticatedUser) (payload : Routes.ProvisionRequest) :
    Routes.Provision → Request
  | .answered (.ok body)   => r.respond (.provisioned body)
  | .answered (.error e)   => r.respond (.error e)
  | stage                  => { r with stage := .handling (.provision admin payload stage) }

/-- `require_authentication`, `audit_rate_limited`, the limiter and the handlers, up to the next
await. -/
def advance (app : Routes.AppState) (db : Database) (input : Input) (r : Request) :
    Option (Database × Request) :=
  match r.stage with
  | .arrived =>
      match bearerToken r.authorization with
      | none       => some (db, { r with stage := .denying .unauthorized })
      | some token => some (db, { r with stage := .authenticating token })
  | .authenticating _ =>
      match input.outcome.into with
      | .ok user => some (db, { r with user := some user, stage := .limiting })
      | .error e =>
          if isRejection e then some (db, { r with stage := .denying e })
          else some (db, { r with stage := .answered (.error e) })
  | .denying e =>
      let db := SecretStore.logRequest db input.statement none .deniedInactiveToken input.logId
        input.dbNow
      some (db, { r with stage := .answered (.error e) })
  | .limiting =>
      -- the key is the subject of the extension that the handler extracts, too
      match extract r.toRequest, r.user with
      | .ok _, some user =>
          if input.allowed then some (db, r.call user) else some (db, r.respond .tooManyRequests)
      | _, _ => some (db, r.respond .unableToExtractKey)
  | .handling (.requestPin user stage) => do
      let (db, stage) ← Routes.requestPin app user db input.toInput stage
      some (db, r.requestPin user stage)
  | .handling (.provision admin payload stage) => do
      let (db, stage) ← Routes.provision app admin payload db input.toInput stage
      some (db, r.provision admin payload stage)
  | .auditing response =>
      let db := SecretStore.logRequest db input.statement (r.user.map (·.subject)) .rateLimited
        input.logId input.dbNow
      some (db, { r with stage := .answered response })
  | .handling .dropped | .answered _ | .dropped => none

/-- The row that a request is about to insert into `request_log`. -/
def row? (r : Request) : Option (Option String × RequestResult) :=
  match r.stage with
  | .denying _ => some (none, .deniedInactiveToken)
  | .auditing _ => some (r.user.map (·.subject), .rateLimited)
  | .handling (.requestPin user .denying) => some (some user.subject, .deniedNoSecret)
  | .handling (.requestPin user (.issuing _)) => some (some user.subject, .issued)
  | .handling (.provision _ _ (.recording subject _)) => some (some subject, .provisioned)
  | _ => none

end Request

/-! ## The server

Any number of requests, each somewhere on its way. A step is a step of one of them; what they share
is the database. -/

/-- The tables, and the requests by their numbers. -/
structure State where
  db       : Database
  requests : Nat → Option Request

def State.init : State := ⟨Database.empty, fun _ => none⟩

inductive Event where
  | arrive (id : Nat) (route : ProtectedRoute) (time : Nat) (authorization : Option HeaderValue)
      (body : Except JsonRejection Routes.ProvisionRequest)
  /-- Request `id` runs to its next await. -/
  | advance (id : Nat) (input : Input)
  /-- The client goes away. -/
  | cancel (id : Nat)
  /-- The client goes away while an insert into `request_log` is under way, and the database carries
  it out all the same. -/
  | abandon (id : Nat) (input : Input)

def State.setRequest (s : State) (id : Nat) (r : Request) : State :=
  { s with requests := Function.update s.requests id (some r) }

def step (app : Routes.AppState) (s : State) : Event → Option State
  | .arrive id route time authorization body =>
      match s.requests id with
      | none   =>
          some (s.setRequest id
            { route, user := none, time, authorization, body, stage := .arrived })
      | some _ => none
  | .advance id input => do
      let r ← s.requests id
      let (db, r) ← r.advance app s.db input
      some ({ s with db }.setRequest id r)
  | .cancel id =>
      match s.requests id with
      | none   => none
      | some r =>
          match r.stage with
          | .answered _ | .dropped => none
          | _ => some (s.setRequest id { r with stage := .dropped })
  | .abandon id input => do
      let r ← s.requests id
      let (subject, result) ← r.row?
      let db := SecretStore.logRequest s.db input.statement subject result input.logId input.dbNow
      some ({ s with db }.setRequest id { r with stage := .dropped })

@[simp] theorem State.db_setRequest (s : State) (id : Nat) (r : Request) :
    (s.setRequest id r).db = s.db := rfl

@[simp] theorem State.requests_setRequest (s : State) (id : Nat) (r : Request) :
    (s.setRequest id r).requests = Function.update s.requests id (some r) := rfl

/-- What holds of every request and of a new one holds of every request afterwards. -/
theorem State.forall_setRequest {s : State} {P : Nat → Request → Prop}
    (hall : ∀ id r, s.requests id = some r → P id r) {id : Nat} {r : Request} (hnew : P id r) :
    ∀ other r', (s.setRequest id r).requests other = some r' → P other r' := by
  intro other r' hother
  rw [State.requests_setRequest] at hother
  by_cases heq : other = id
  · subst heq
    rw [Function.update_self, Option.some.injEq] at hother
    rwa [← hother]
  · rw [Function.update_of_ne heq] at hother
    exact hall other r' hother

/-! ## Every step there is

`move_of_advance` and `moves_of_step` take the definitions apart once; what follows about the server
goes by the cases of `Request.Move` and `Moves`. -/

section Moves

variable (app : Routes.AppState)

/-- The steps of a request. -/
inductive Request.Move (db : Database) (input : Input) (r : Request) :
    Database → Request → Prop
  | unreadable (hstage : r.stage = .arrived) :
      Move db input r db { r with stage := .denying .unauthorized }
  | readable {token : String} (hstage : r.stage = .arrived) :
      Move db input r db { r with stage := .authenticating token }
  | accepted {token : String} {user : AuthenticatedUser}
      (hstage : r.stage = .authenticating token) :
      Move db input r db { r with user := some user, stage := .limiting }
  | rejected {token : String} {e : AppError} (hstage : r.stage = .authenticating token)
      (he : isRejection e = true) :
      Move db input r db { r with stage := .denying e }
  | unavailable {token reason : String} (hstage : r.stage = .authenticating token) :
      Move db input r db { r with stage := .answered (.error (.introspectionUnavailable reason)) }
  | denied {e : AppError} (hstage : r.stage = .denying e) :
      Move db input r (SecretStore.logRequest db input.statement none .deniedInactiveToken
        input.logId input.dbNow) { r with stage := .answered (.error e) }
  | unkeyed (hstage : r.stage = .limiting) (huser : r.user = none) :
      Move db input r db { r with stage := .answered .unableToExtractKey }
  | refused {user : AuthenticatedUser} (hstage : r.stage = .limiting) (huser : r.user = some user) :
      Move db input r db { r with stage := .auditing .tooManyRequests }
  | called {user : AuthenticatedUser} (hstage : r.stage = .limiting) (huser : r.user = some user)
      (hroute : r.route = .request) :
      Move db input r db { r with stage := .handling (.requestPin user .called) }
  | calledProvision {user : AuthenticatedUser} {payload : Routes.ProvisionRequest}
      (hstage : r.stage = .limiting) (hroute : r.route = .provision) :
      Move db input r db { r with stage := .handling (.provision user payload .called) }
  | unreadableBody {rejection : JsonRejection} (hstage : r.stage = .limiting)
      (hroute : r.route = .provision) :
      Move db input r db { r with stage := .answered (.jsonRejection rejection) }
  | requestPin {user : AuthenticatedUser} {stage stage' : Routes.RequestPin} {db' : Database}
      (hstage : r.stage = .handling (.requestPin user stage))
      (hmove : Routes.RequestPin.Move app user db input.toInput stage db' stage') :
      Move db input r db' (r.requestPin user stage')
  | provision {admin : AuthenticatedUser} {payload : Routes.ProvisionRequest}
      {stage stage' : Routes.Provision} {db' : Database}
      (hstage : r.stage = .handling (.provision admin payload stage))
      (hmove : Routes.Provision.Move app admin payload db input.toInput stage db' stage') :
      Move db input r db' (r.provision admin payload stage')
  | audited {response : Response} (hstage : r.stage = .auditing response) :
      Move db input r (SecretStore.logRequest db input.statement (r.user.map (·.subject))
        .rateLimited input.logId input.dbNow) { r with stage := .answered response }

/-- The steps of the server. -/
inductive Moves (s : State) : Event → State → Prop
  | arrive {id : Nat} {route : ProtectedRoute} {time : Nat} {authorization : Option HeaderValue}
      {body : Except JsonRejection Routes.ProvisionRequest} (hnew : s.requests id = none) :
      Moves s (.arrive id route time authorization body)
        (s.setRequest id { route, user := none, time, authorization, body, stage := .arrived })
  | advance {id : Nat} {input : Input} {r r' : Request} {db : Database}
      (hold : s.requests id = some r) (hadvance : r.advance app s.db input = some (db, r')) :
      Moves s (.advance id input) ({ s with db }.setRequest id r')
  | cancel {id : Nat} {r : Request} (hold : s.requests id = some r)
      (hopen : r.stage.over = false) :
      Moves s (.cancel id) (s.setRequest id { r with stage := .dropped })
  | abandon {id : Nat} {input : Input} {r : Request} {subject : Option String}
      {result : RequestResult} {db : Database} (hold : s.requests id = some r)
      (hrow : r.row? = some (subject, result))
      (hdb : db = SecretStore.logRequest s.db input.statement subject result input.logId
        input.dbNow) :
      Moves s (.abandon id input) ({ s with db }.setRequest id { r with stage := .dropped })

variable {app}

theorem moves_of_step {s s' : State} {e : Event} (h : step app s e = some s') :
    Moves app s e s' := by
  cases e with
  | arrive id route time authorization body =>
      simp only [step] at h
      split at h
      · next hnew =>
          cases h
          exact .arrive hnew
      · cases h
  | advance id input =>
      obtain ⟨r, hold, h⟩ := Option.bind_eq_some_iff.mp h
      obtain ⟨⟨db, r'⟩, hadvance, h⟩ := Option.bind_eq_some_iff.mp h
      cases h
      exact .advance hold hadvance
  | cancel id =>
      simp only [step] at h
      split at h
      · cases h
      · next r hold =>
          split at h
          · cases h
          · cases h
          · next hanswered hdropped =>
              cases h
              refine .cancel hold ?_
              unfold Stage.over
              split
              · next response hstage => exact absurd hstage (hanswered response)
              · next hstage => exact absurd hstage hdropped
              · rfl
  | abandon id input =>
      obtain ⟨r, hold, h⟩ := Option.bind_eq_some_iff.mp h
      obtain ⟨⟨subject, result⟩, hrow, h⟩ := Option.bind_eq_some_iff.mp h
      cases h
      exact .abandon hold hrow rfl

/-- Nothing is inserted once a request is over. -/
theorem Request.over_of_row? {r : Request} {row : Option String × RequestResult}
    (h : r.row? = some row) : r.stage.over = false := by
  unfold Stage.over
  split
  · next hstage =>
      rw [Request.row?, hstage] at h
      cases h
  · next hstage =>
      rw [Request.row?, hstage] at h
      cases h
  · rfl

theorem Request.move_of_call {db : Database} {input : Input} {r : Request}
    {user : AuthenticatedUser} (hstage : r.stage = .limiting) (huser : r.user = some user) :
    Request.Move app db input r db (r.call user) := by
  unfold Request.call
  split
  · next hroute => exact .called hstage huser hroute
  · next hroute =>
      split
      · next rejection _ =>
          have hrespond : r.respond (.jsonRejection rejection) =
              { r with stage := .answered (.jsonRejection rejection) } := by
            cases rejection <;> rfl
          rw [hrespond]
          exact .unreadableBody hstage hroute
      · exact .calledProvision hstage hroute

theorem Request.move_of_advance {db db' : Database} {input : Input} {r r' : Request}
    (h : r.advance app db input = some (db', r')) : Request.Move app db input r db' r' := by
  unfold Request.advance at h
  split at h
  · next hstage =>
      split at h
      · cases h
        exact .unreadable hstage
      · cases h
        exact .readable hstage
  · next token hstage =>
      cases houtcome : input.outcome with
      | active user =>
          rw [houtcome] at h
          cases h
          exact .accepted hstage
      | inactive =>
          rw [houtcome] at h
          cases h
          exact .rejected hstage rfl
      | wrongAudience =>
          rw [houtcome] at h
          cases h
          exact .rejected hstage rfl
      | unavailable reason =>
          rw [houtcome] at h
          cases h
          exact .unavailable hstage
  · next e hstage =>
      cases h
      exact .denied hstage
  · next hstage =>
      cases huser : r.user with
      | none =>
          have hkey : extract r.toRequest = .error .unableToExtractKey := by simp [extract, huser]
          simp only [huser, hkey] at h
          cases h
          exact .unkeyed hstage huser
      | some user =>
          have hkey : extract r.toRequest = .ok user.subject := by simp [extract, huser]
          simp only [huser, hkey] at h
          split at h
          · cases h
            exact Request.move_of_call hstage huser
          · cases h
            exact .refused hstage huser
  · next user stage hstage =>
      obtain ⟨⟨db'', stage'⟩, hmove, h⟩ := Option.bind_eq_some_iff.mp h
      cases h
      exact .requestPin hstage (Routes.move_of_requestPin hmove)
  · next admin payload stage hstage =>
      obtain ⟨⟨db'', stage'⟩, hmove, h⟩ := Option.bind_eq_some_iff.mp h
      cases h
      exact .provision hstage (Routes.move_of_provision hmove)
  · next response hstage =>
      cases h
      exact .audited hstage
  all_goals cases h

end Moves

end Urheilulaatikko.Server.Router
