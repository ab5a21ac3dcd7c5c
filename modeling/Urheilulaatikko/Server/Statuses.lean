import Mathlib.Data.List.Nodup
import Urheilulaatikko.Server.Admission

/-!
# What a status means

The README of the server has a table for `POST /v1/totp/request`. `request_status` says that the
table is right in every run of the server, in both directions: a status is answered iff what the
table says has happened to this very request.
-/

namespace Urheilulaatikko.Server.Routes

open Auth Trace

variable {app : AppState}

/-! ## The errors of `request_pin`

A handler fails with one of two kinds of errors, and the status tells which. -/

/-- `request_pin` fails with "not found" or an internal error. -/
def PinError (e : AppError) : Prop := e = .notFound ∨ ∃ source, e = .internal source

theorem RequestPin.Move.pinError {user : AuthenticatedUser} {db db' : Database} {input : Input}
    {stage : RequestPin} {e : AppError}
    (hmove : RequestPin.Move app user db input stage db' (.answered (.error e))) : PinError e := by
  cases hmove with
  | unread hget => exact .inr (SecretStore.error_of_get hget)
  | unusable hget hgen => exact .inr (Totp.error_of_generateAt hgen)
  | denied => exact .inl rfl
  | untouched hstatement => exact .inr ⟨_, rfl⟩

theorem pinError_of_run {es : List Event} {s : State}
    (hrun : run (step app) State.init es = some s) {id : Nat} {user : AuthenticatedUser}
    {e : AppError} (hold : s.handlers id = some (.requestPin user (.answered (.error e)))) :
    PinError e := by
  refine run_invariant (I := fun s => ∀ id user e,
    s.handlers id = some (.requestPin user (.answered (.error e))) → PinError e) ?_ ?_ hrun
    id user e hold
  · intro s ev s' h hstep id user e hold
    obtain hold | hcalled | ⟨input, stage, db, -, -, hmove⟩ :=
      requestPin_of_moves (moves_of_step hstep) hold
    · exact h id user e hold
    · cases hcalled
    · exact hmove.pinError
  · intro id user e hold
    cases hold

end Urheilulaatikko.Server.Routes

namespace Urheilulaatikko.Server.System

open Auth RateLimit Trace Routes

variable {sha256 : String → SingleFlight.Key} {d : Deployment} {es : List Event} {s : State}

/-! ## Turned away

The authentication layer answers by itself with three statuses. Each has one reason, and the reason
is in the state: the header of this request, or what its own `introspect` has returned. -/

/-- The `introspect` of request `id`, for the token of its header, has returned `outcome`. -/
def Introspected (s : State) (id : Nat) (r : Router.Request) (outcome : IntrospectionOutcome) :
    Prop :=
  ∃ token, bearerToken r.authorization = some token ∧
    s.flight.requests id = ⟨token, .returned outcome⟩

theorem Introspected.unique {id : Nat} {r : Router.Request} {o o' : IntrospectionOutcome}
    (h : Introspected s id r o) (h' : Introspected s id r o') : o = o' := by
  obtain ⟨token, -, hf⟩ := h
  obtain ⟨token', -, hf'⟩ := h'
  rw [hf] at hf'
  cases hf'
  rfl

/-- The three answers of the authentication layer, each for its reason. -/
theorem turnedAway_iff {id : Nat} {r : Router.Request} {e : AppError}
    (h : Authentication r (s.flight.requests id) (.error e)) :
    (e.status = 401 ↔ bearerToken r.authorization = none ∨ Introspected s id r .inactive) ∧
    (e.status = 403 ↔ Introspected s id r .wrongAudience) ∧
    (e.status = 503 ↔ ∃ reason, Introspected s id r (.unavailable reason)) ∧
    (e.status = 401 ∨ e.status = 403 ∨ e.status = 503) := by
  unfold Authentication at h
  split at h
  · next hnone =>
      cases h
      have hnot : ∀ o, ¬ Introspected s id r o := by
        rintro o ⟨token, htoken, -⟩
        rw [hnone] at htoken
        cases htoken
      simp [AppError.status, hnone, hnot]
  · next token htoken =>
      obtain ⟨outcome, hf, hinto⟩ := h
      have hown : Introspected s id r outcome := ⟨token, htoken, hf⟩
      have honly : ∀ o, Introspected s id r o ↔ o = outcome := by
        intro o
        constructor
        · exact fun ho => ho.unique hown
        · rintro rfl
          exact hown
      cases outcome with
      | active user => cases hinto
      | inactive | wrongAudience | unavailable =>
          cases hinto
          simp [AppError.status, htoken, honly]

/-- None of these reasons applies to a request that the layer has let in. -/
theorem not_turnedAway {id : Nat} {r : Router.Request} {user : AuthenticatedUser}
    (h : Authentication r (s.flight.requests id) (.ok user)) :
    ¬ (bearerToken r.authorization = none ∨ Introspected s id r .inactive) ∧
    ¬ Introspected s id r .wrongAudience ∧ ¬ ∃ reason, Introspected s id r (.unavailable reason) := by
  unfold Authentication at h
  split at h
  · cases h
  · next token htoken =>
      obtain ⟨outcome, hf, hinto⟩ := h
      rw [IntrospectionOutcome.into_eq_ok_iff] at hinto
      subst hinto
      have hactive : ∀ o, Introspected s id r o → o = .active user :=
        fun o ho => ho.unique ⟨token, htoken, hf⟩
      refine ⟨?_, ?_, ?_⟩
      · rintro (hnone | ho)
        · rw [htoken] at hnone
          cases hnone
        · cases hactive _ ho
      · intro ho
        cases hactive _ ho
      · rintro ⟨reason, ho⟩
        cases hactive _ ho

/-! ## Decided upon

Behind authentication comes the limiter, which decides upon a request once. Of an answered request
with a user it is known how. -/

variable (sha256 d) in
/-- The limiter has decided upon request `id`. -/
def Limited (es : List Event) (id : Nat) (allowed : Bool) : Prop :=
  ∃ x ∈ decisions sha256 d es, x.id = id ∧ x.allowed = allowed

/-- There is one decision at most. -/
theorem Decided.unique {ds : List Decision} {router : Router.State} (h : Decided ds router)
    {x y : Decision} (hx : x ∈ ds) (hy : y ∈ ds) (hid : x.id = y.id) : x = y :=
  List.inj_on_of_nodup_map h.nodup hx hy hid

/-- Whoever is turned away by the authentication layer never comes to the limiter. -/
theorem not_limited_of_user (hrun : run (step sha256 d) d.init es = some s) {id : Nat}
    {r : Router.Request} (hold : s.router.requests id = some r) (huser : r.user = none)
    (allowed : Bool) : ¬ Limited sha256 d es id allowed := by
  rintro ⟨x, hx, hid, -⟩
  obtain ⟨r', hold', -, hsubject⟩ := (decided_of_run hrun).handed x hx
  rw [hid, hold, Option.some.injEq] at hold'
  rw [← hold', huser] at hsubject
  cases hsubject

/-- What the limiter answers by itself, it answers to those it refuses. -/
theorem limited_iff (hrun : run (step sha256 d) d.init es = some s) {id : Nat}
    {r : Router.Request} {response : Router.Response} (hold : s.router.requests id = some r)
    (hstage : r.stage = .answered response) {user : AuthenticatedUser} (huser : r.user = some user)
    (allowed : Bool) :
    Limited sha256 d es id allowed ↔ allowed = decide (response ≠ .tooManyRequests) := by
  have hdecided := decided_of_run hrun
  have hsettled := hdecided.settled id r hold
  simp only [Settled, hstage] at hsettled
  obtain ⟨x, hx, hid, hallowed, -⟩ := hsettled (by simp [huser])
  constructor
  · rintro ⟨y, hy, hid', rfl⟩
    rw [hdecided.unique hy hx (hid'.trans hid.symm), hallowed]
  · rintro rfl
    exact ⟨x, hx, hid, hallowed⟩

/-! ## Answered by the handler

What is left is the answer of the handler, which goes back to its `get`. The rows of the table then
exclude each other, so that each of them is an equivalence. -/

/-- The answer of `request_pin`, as a response. -/
def pinAnswer : Except AppError PinResponse → Router.Response
  | .ok body => .pin body
  | .error e => .error e

/-- A request of a known user that is answered: by the limiter, or by its handler. -/
theorem answered_cases {r : Router.Request} {response : Router.Response}
    {handler : Option Handler} (hanswered : r.AnsweredBy response handler)
    (hroute : r.route = .request) {user : AuthenticatedUser} (huser : r.user = some user) :
    response = .tooManyRequests ∨ ∃ answer,
      handler = some (.requestPin user (.answered answer)) ∧
      response = pinAnswer answer := by
  cases handler with
  | none =>
      cases response with
      | tooManyRequests => exact .inl rfl
      | error e =>
          rw [Router.Request.AnsweredBy, Router.Request.AnsweredByLayer, huser] at hanswered
          cases hanswered
      | jsonRejection rejection =>
          have := hanswered.2
          rw [hroute] at this
          cases this
      | pin | provisioned | unableToExtractKey => exact hanswered.elim
  | some h =>
      obtain ⟨hresponse, hcalled⟩ := hanswered
      cases h with
      | requestPin user' stage =>
          obtain ⟨-, huser'⟩ := hcalled
          rw [huser, Option.some.injEq] at huser'
          subst huser'
          cases stage with
          | answered answer =>
              refine .inr ⟨answer, rfl, ?_⟩
              cases answer <;> cases hresponse <;> rfl
          | _ => cases hresponse
      | provision admin payload stage =>
          have := hcalled.1
          rw [hroute] at this
          cases this
      | dropped => exact hcalled.elim

/-- An answer of the handler goes back to its `get`. -/
theorem handler_status {hs : List Routes.Event} {t : Routes.State}
    (hcipher : d.app.cipher.Inverts) (hrun : run (Routes.step d.app) Routes.State.init hs = some t)
    {id : Nat} {user : AuthenticatedUser} {answer : Except AppError PinResponse}
    (hold : t.handlers id = some (.requestPin user (.answered answer))) {response : Router.Response}
    (hresponse : response = pinAnswer answer) :
    (response.status = 200 ∨ response.status = 404 ∨ response.status = 500) ∧
    ∃ pre t₀ input, GetAt d.app hs id user pre t₀ input ∧
      (response.status = 404 ↔
        input.statement = .ok () ∧ ∀ c ∈ commits d.app pre, c.subject ≠ user.subject) := by
  obtain hcalled | ⟨pre, t₀, input, hget, hfollows⟩ := traced_of_run hrun id user _ hold
  · cases hcalled
  have hstored := (stored_of_run hcipher hget.2.1).secrets user.subject
  have hnone : SecretStore.get d.app.cipher t₀.db input.statement user.subject = .ok none ↔
      input.statement = .ok () ∧ ∀ c ∈ commits d.app pre, c.subject ≠ user.subject := by
    rw [SecretStore.get_eq_ok_none_iff, hstored, Option.map_eq_none_iff, latest_eq_none_iff]
  subst hresponse
  cases answer with
  | ok body =>
      refine ⟨.inl rfl, pre, t₀, input, hget, ?_⟩
      rw [← hnone]
      obtain ⟨secret, generated, hok, -⟩ := hfollows
      simp [pinAnswer, Router.Response.status, hok]
  | error e =>
      have hiff : e.status = 404 ↔ e = .notFound := by
        cases e <;> simp [AppError.status]
      refine ⟨?_, pre, t₀, input, hget, ?_⟩
      · obtain rfl | ⟨source, rfl⟩ := pinError_of_run hrun hold
        · exact .inr (.inl rfl)
        · exact .inr (.inr rfl)
      · rw [← hnone]
        exact hiff.trans hfollows

/-- **The table of the README.** In every run of the server, for every answered request to
`/v1/totp/request`:

* 401 iff there is no readable bearer token, or introspection found the token inactive or expired;
* 403 iff introspection found that the token is not meant for this server;
* 503 iff introspection was not available;
* 429 iff the limiter has refused it;
* 200, 404 or 500 iff the limiter has let it through, and then 404 iff its `get` succeeded and no
  secret had been committed for its user by then.

There is no other status. -/
theorem request_status (hcipher : d.app.cipher.Inverts)
    (hrun : run (step sha256 d) d.init es = some s) {id : Nat} {r : Router.Request}
    {response : Router.Response} (hold : s.router.requests id = some r)
    (hroute : r.route = .request) (hstage : r.stage = .answered response) :
    (response.status = 401 ↔ bearerToken r.authorization = none ∨ Introspected s id r .inactive) ∧
    (response.status = 403 ↔ Introspected s id r .wrongAudience) ∧
    (response.status = 503 ↔ ∃ reason, Introspected s id r (.unavailable reason)) ∧
    (response.status = 429 ↔ Limited sha256 d es id false) ∧
    (response.status = 200 ∨ response.status = 404 ∨ response.status = 500 ↔
      Limited sha256 d es id true) ∧
    (Limited sha256 d es id true → ∃ user pre t input, r.user = some user ∧
      GetAt d.app (handlerEvents sha256 d es) id user pre t input ∧
      (response.status = 404 ↔
        input.statement = .ok () ∧ ∀ c ∈ commits d.app pre, c.subject ≠ user.subject)) ∧
    response.status ∈ [200, 401, 403, 404, 429, 500, 503] := by
  have hlink := links_of_run hrun id
  simp only [hold, Link, Linked, hstage] at hlink
  obtain ⟨e, rfl, huser, hauth⟩ | ⟨user, huser, hauth⟩ := hlink
  · -- turned away
    obtain ⟨h401, h403, h503, hstatus⟩ := turnedAway_iff hauth
    have hlimited := not_limited_of_user hrun hold huser
    have hsame : (Router.Response.error e).status = e.status := rfl
    rw [hsame]
    refine ⟨h401, h403, h503, ?_, ?_, fun h => absurd h (hlimited true), ?_⟩
    · exact iff_of_false (by omega) (hlimited false)
    · exact iff_of_false (by omega) (hlimited true)
    · simp only [List.mem_cons]
      omega
  · -- let in
    have hlimited := limited_iff hrun hold hstage huser
    obtain ⟨t, ht, hrefines⟩ := Router.refines_of_run (router_run hrun)
    have hbehind := hrefines.behind id
    rw [hold] at hbehind
    have hanswered := Router.Request.Behind.of_answered hbehind hstage
    obtain ⟨hno401, hno403, hno503⟩ := not_turnedAway hauth
    obtain rfl | ⟨answer, hhandler, hresponse⟩ := answered_cases hanswered hroute huser
    · have htrue : ¬ Limited sha256 d es id true := by simp [hlimited]
      have h429 : Router.Response.tooManyRequests.status = 429 := rfl
      rw [h429]
      refine ⟨iff_of_false (by omega) hno401, iff_of_false (by omega) hno403,
        iff_of_false (by omega) hno503, iff_of_true rfl (by simp [hlimited]),
        iff_of_false (by omega) htrue, fun h => absurd h htrue, by simp⟩
    · have hne : response ≠ .tooManyRequests := by
        rintro rfl
        cases answer <;> cases hresponse
      obtain ⟨hstatus, pre, t₀, input, hget, h404⟩ :=
        handler_status hcipher ht hhandler hresponse
      refine ⟨iff_of_false (by omega) hno401, iff_of_false (by omega) hno403,
        iff_of_false (by omega) hno503, iff_of_false (by omega) (by simp [hlimited, hne]),
        iff_of_true hstatus (by simp [hlimited, hne]), ?_, ?_⟩
      · intro _
        exact ⟨user, pre, t₀, input, huser, hget, h404⟩
      · simp only [List.mem_cons]
        omega

/-- Alice was answered with 200, so the limiter has let her through. -/
theorem request_status_morning :
    ∃ s r, run (step SingleFlight.testSha256 demo) demo.init morning = some s ∧
      s.router.requests 1 = some r ∧ r.stage = .answered (.pin ⟨"287082", 1⟩) ∧
      Limited SingleFlight.testSha256 demo morning 1 true := by
  obtain ⟨s, hrun, hanswer⟩ := answerTo_morning
  obtain ⟨r, hold, hroute, -, hstage⟩ := request_of_answerTo hanswer
  obtain ⟨-, -, -, -, hhandled, -⟩ := request_status demoCipher_inverts hrun hold hroute hstage
  exact ⟨s, r, hrun, hold, hstage, hhandled.mp (.inl rfl)⟩

end Urheilulaatikko.Server.System
