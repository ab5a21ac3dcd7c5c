import Urheilulaatikko.Server.Error

/-!
# Token introspection: what one answer of Keycloak means

The sequential half of `auth/introspection.rs`: the response body, `evaluate`, and `call` cut at
its two await points. How many requests share one `call` is the business of `SingleFlight`.

The main result is `evaluate_eq_active_iff`: exactly which bodies let a token through. Everything
else `call` can meet (no connection, a status outside 2xx, a body that does not parse) ends in
`unavailable`, so `call` never fails open (`callAfterJson_eq_active`).
-/

namespace Urheilulaatikko.Server.Auth

/-- A subject whose bearer token has been verified by Keycloak introspection. -/
structure AuthenticatedUser where
  subject    : String
  realmRoles : List String
  deriving DecidableEq, Repr

def AuthenticatedUser.hasRole (user : AuthenticatedUser) (role : String) : Bool :=
  user.realmRoles.any (· == role)

inductive IntrospectionOutcome where
  | active (user : AuthenticatedUser)
  | inactive
  | wrongAudience
  | unavailable (reason : String)
  deriving DecidableEq, Repr

/-- `impl From<IntrospectionOutcome> for Result<AuthenticatedUser, AppError>`. -/
def IntrospectionOutcome.into : IntrospectionOutcome → Except AppError AuthenticatedUser
  | .active user        => .ok user
  | .inactive           => .error .unauthorized
  | .wrongAudience      => .error .forbidden
  | .unavailable reason => .error (.introspectionUnavailable reason)

theorem IntrospectionOutcome.into_eq_ok_iff {o : IntrospectionOutcome} {user : AuthenticatedUser} :
    o.into = .ok user ↔ o = .active user := by
  cases o <;> simp [IntrospectionOutcome.into]

/-! ## The response body

`evaluate` asks four questions in turn: active, not expired, our audience, a subject. Only a body
that passes all of them vouches for somebody. -/

/-- The `aud` claim: a bare string for one audience, an array for several. -/
inductive Audience where
  | one (value : String)
  | many (values : List String)
  deriving DecidableEq, Repr

def Audience.contains : Audience → String → Bool
  | .one value,   expected => value == expected
  | .many values, expected => values.any (· == expected)

/-- What `contains` decides: the audience is the expected string or lists it. -/
def Audience.Names : Audience → String → Prop
  | .one value,   expected => value = expected
  | .many values, expected => expected ∈ values

theorem Audience.contains_iff {aud : Audience} {expected : String} :
    aud.contains expected = true ↔ aud.Names expected := by
  cases aud <;> simp [Audience.contains, Audience.Names]

/-- `roles` is empty when the claim omits it (`#[serde(default)]`). -/
structure RealmAccess where
  roles : List String := []
  deriving DecidableEq, Repr

structure IntrospectionResponse where
  active      : Bool
  sub         : Option String
  aud         : Option Audience
  exp         : Option Int
  realmAccess : Option RealmAccess
  deriving DecidableEq, Repr

/-- The part of `IntrospectionClient` that decides an outcome. The URL and the client's own
credentials only address the call. -/
structure IntrospectionClient where
  expectedAudience : String

/-- `evaluate`, with `now` the clock read inside it. -/
def IntrospectionClient.evaluate (client : IntrospectionClient) (now : Int)
    (body : IntrospectionResponse) : IntrospectionOutcome :=
  if !body.active then .inactive
  else if body.exp.any (· ≤ now) then .inactive
  else if !body.aud.any (·.contains client.expectedAudience) then .wrongAudience
  else match body.sub with
    | none => .unavailable "introspection response omitted the `sub` claim"
    | some subject =>
        .active { subject, realmRoles := (body.realmAccess.map (·.roles)).getD [] }

/-- A body that vouches for `user` at time `now`, clause by clause. -/
structure Grants (client : IntrospectionClient) (now : Int) (body : IntrospectionResponse)
    (user : AuthenticatedUser) : Prop where
  active   : body.active = true
  unexpired : ∀ exp, body.exp = some exp → now < exp
  audience : ∃ aud, body.aud = some aud ∧ aud.Names client.expectedAudience
  subject  : body.sub = some user.subject
  roles    : user.realmRoles = (body.realmAccess.map (·.roles)).getD []

/-- **`evaluate` accepts exactly the bodies that vouch for the user.** -/
theorem IntrospectionClient.evaluate_eq_active_iff {client : IntrospectionClient} {now : Int}
    {body : IntrospectionResponse} {user : AuthenticatedUser} :
    client.evaluate now body = .active user ↔ Grants client now body user := by
  unfold IntrospectionClient.evaluate
  constructor
  · intro h
    split at h
    · cases h
    next hactive =>
    split at h
    · cases h
    next hexp =>
    split at h
    · cases h
    next haud =>
    split at h
    · cases h
    · next subject hsub =>
        cases h
        refine ⟨by simpa using hactive, ?_, ?_, hsub, rfl⟩
        · intro exp he
          simpa [he] using hexp
        · cases ha : body.aud with
          | none => simp [ha] at haud
          | some aud => exact ⟨aud, rfl, Audience.contains_iff.mp (by simpa [ha] using haud)⟩
  · rintro ⟨hactive, hexp, ⟨aud, haud, hnames⟩, hsub, hroles⟩
    have hnotExpired : body.exp.any (· ≤ now) = false := by
      cases he : body.exp with
      | none => rfl
      | some exp => simpa [he] using hexp exp he
    have hcontains : body.aud.any (·.contains client.expectedAudience) = true := by
      simpa [haud] using Audience.contains_iff.mpr hnames
    simp [hactive, hnotExpired, hcontains, hsub, ← hroles]

/-! ## `call`, resumed after each await

`call` awaits the status and then the body. Each of the two functions says what it makes of what it
finds there. -/

/-- `reqwest::StatusCode`, with the reason phrase its `Display` prints after the number. -/
structure StatusCode where
  code   : Nat
  reason : String
  deriving DecidableEq, Repr

def StatusCode.isSuccess (status : StatusCode) : Bool := 200 ≤ status.code && status.code < 300

/-- `call` after `.send().await`: `none` means that it goes on to await the body. -/
def callAfterSend : Except String StatusCode → Option IntrospectionOutcome
  | .error err => some (.unavailable s!"could not reach the introspection endpoint: {err}")
  | .ok status =>
      if !status.isSuccess then
        some (.unavailable
          s!"introspection endpoint returned HTTP {status.code} {status.reason}")
      else none

/-- `call` after `response.json().await`. -/
def IntrospectionClient.callAfterJson (client : IntrospectionClient) (now : Int) :
    Except String IntrospectionResponse → IntrospectionOutcome
  | .error err => .unavailable s!"could not parse the introspection response: {err}"
  | .ok body   => client.evaluate now body

theorem callAfterSend_ne_active {r : Except String StatusCode} {user : AuthenticatedUser} :
    callAfterSend r ≠ some (.active user) := by
  cases r with
  | error err => simp [callAfterSend]
  | ok status => unfold callAfterSend; dsimp only; split <;> simp

/-- `call` goes on to the body only behind a 2xx status. -/
theorem callAfterSend_eq_none {r : Except String StatusCode} (h : callAfterSend r = none) :
    ∃ status, r = .ok status ∧ status.isSuccess = true := by
  cases r with
  | error err => simp [callAfterSend] at h
  | ok status =>
      refine ⟨status, rfl, ?_⟩
      cases hs : status.isSuccess with
      | true => rfl
      | false => simp [callAfterSend, hs] at h

theorem callAfterJson_eq_active {client : IntrospectionClient} {now : Int}
    {r : Except String IntrospectionResponse} {user : AuthenticatedUser}
    (h : client.callAfterJson now r = .active user) :
    ∃ body, r = .ok body ∧ Grants client now body user := by
  cases r with
  | error err => simp [IntrospectionClient.callAfterJson] at h
  | ok body => exact ⟨body, rfl, IntrospectionClient.evaluate_eq_active_iff.mp h⟩

end Urheilulaatikko.Server.Auth
