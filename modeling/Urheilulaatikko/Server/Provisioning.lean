import Urheilulaatikko.Server.Statuses

/-!
# What `/v1/totp/provision` answers

`provision` checks two things before it draws a secret, and from then on only an internal error can
stop it. `Ending` lists how a request to it can end, with what its handler has been accounted for;
`provision_status` is the table of all statuses of the endpoint, with what each of them means for
`totp_secrets`.
-/

namespace Urheilulaatikko.Server.Router

open Auth Trace Routes

variable {app : Routes.AppState} {es : List Event} {s s' : State} {id : Nat} {r r' : Request}

/-! ## The layers

What the layers add to the handler: a body is rejected for what is wrong with it and for nothing
else, and no layer touches `totp_secrets` on the way. -/

/-- A rejected body on its way to the client. -/
def Stage.rejection? : Stage → Option JsonRejection
  | .auditing (.jsonRejection rejection) | .answered (.jsonRejection rejection) => some rejection
  | _ => none

theorem Request.rejection?_respond (r : Request) (response : Response)
    (h : ∀ rejection, response ≠ .jsonRejection rejection) :
    (r.respond response).stage.rejection? = none := by
  unfold Request.respond
  split <;> cases response <;> first | rfl | exact absurd rfl (h _)

theorem JsonRejection.status_cases (rejection : JsonRejection) :
    rejection.status = 400 ∨ rejection.status = 413 ∨ rejection.status = 415 ∨
      rejection.status = 422 := by
  cases rejection <;> simp [JsonRejection.status]

theorem Request.respond_jsonRejection (r : Request) (rejection : JsonRejection) :
    r.respond (.jsonRejection rejection) =
      { r with stage := .answered (.jsonRejection rejection) } := by
  cases rejection <;> rfl

theorem Request.body_respond (r : Request) (response : Response) :
    (r.respond response).body = r.body := by
  unfold Request.respond
  split <;> rfl

/-- The body of a request stays what it is. -/
theorem Request.body_advance {db db' : Database} {input : Input}
    (hadvance : r.advance app db input = some (db', r')) : r'.body = r.body := by
  cases Request.move_of_advance hadvance with
  | requestPin hstage hmove =>
      unfold Request.requestPin
      split
      · exact r.body_respond _
      · exact r.body_respond _
      · rfl
  | provision hstage hmove =>
      unfold Request.provision
      split
      · exact r.body_respond _
      · exact r.body_respond _
      · rfl
  | _ => rfl

/-- A body is rejected for what is wrong with it. -/
theorem Request.body_of_advance {db db' : Database} {input : Input} {rejection : JsonRejection}
    (hadvance : r.advance app db input = some (db', r'))
    (h : r'.stage.rejection? = some rejection) :
    r.stage.rejection? = some rejection ∨ r.body = .error rejection := by
  cases Request.move_of_advance hadvance with
  | unreadable | readable | accepted | rejected | unavailable | denied | unkeyed | refused | called
  | calledProvision => cases h
  | requestPin hstage hmove =>
      unfold Request.requestPin at h
      split at h
      · rw [Request.rejection?_respond _ _ (by simp)] at h
        cases h
      · rw [Request.rejection?_respond _ _ (by simp)] at h
        cases h
      · cases h
  | provision hstage hmove =>
      unfold Request.provision at h
      split at h
      · rw [Request.rejection?_respond _ _ (by simp)] at h
        cases h
      · rw [Request.rejection?_respond _ _ (by simp)] at h
        cases h
      · cases h
  | @audited response hstage =>
      left
      rw [hstage]
      cases response with
      | jsonRejection rejection' => exact h
      | _ => cases h
  | unreadableBody hstage hroute =>
      right
      cases h
      simp only [Request.advance, hstage, RateLimit.extract] at hadvance
      cases huser : r.user with
      | none =>
          simp only [huser] at hadvance
          cases hadvance
      | some user =>
          simp only [huser] at hadvance
          split at hadvance
          · simp only [Request.call, hroute] at hadvance
            cases hbody : r.body with
            | error rejection' =>
                simp only [hbody, Request.respond_jsonRejection, Option.some.injEq, Prod.mk.injEq,
                  true_and] at hadvance
                have hanswer : Stage.answered (.jsonRejection rejection') =
                    .answered (.jsonRejection rejection) := congrArg Request.stage hadvance
                cases hanswer
                rfl
            | ok payload =>
                simp only [hbody] at hadvance
                cases hadvance
          · cases hadvance

theorem body_of_rejection (hrun : run (step app) State.init es = some s)
    (hold : s.requests id = some r) {rejection : JsonRejection}
    (hstage : r.stage.rejection? = some rejection) : r.body = .error rejection := by
  have hall : ∀ id r, s.requests id = some r → ∀ rejection, r.stage.rejection? = some rejection →
      r.body = .error rejection := by
    refine run_invariant (I := fun s => ∀ id r, s.requests id = some r → ∀ rejection,
      r.stage.rejection? = some rejection → r.body = .error rejection) ?_ ?_ hrun
    · intro s e s' ih hstep
      cases moves_of_step hstep with
      | arrive hnew =>
          apply State.forall_setRequest ih
          intro rejection h
          cases h
      | cancel hold | abandon hold =>
          apply State.forall_setRequest ih
          intro rejection h
          cases h
      | @advance id input r r' db hold hadvance =>
          apply State.forall_setRequest ih
          intro rejection h
          rw [Request.body_advance hadvance]
          obtain hbefore | hbody := Request.body_of_advance hadvance h
          · exact ih id r hold rejection hbefore
          · exact hbody
    · intro id r hold
      cases hold
  exact hall id r hold rejection hstage

theorem id_of_handlerEvent {input : Input} {e' : Routes.Event}
    (h : handlerEvent s (.advance id input) = some e') : e'.id = id := by
  simp only [handlerEvent] at h
  split at h
  · cases h
  · split at h
    · split at h
      · unfold Request.callEvent at h
        split at h <;> cases h <;> rfl
      · cases h
    · cases h
      rfl
    · cases h

theorem Request.Called.user_ne_none {handler : Routes.Handler} (h : r.Called handler) :
    r.user ≠ none := by
  cases handler with
  | requestPin user stage => simp [h.2]
  | provision admin payload stage => simp [h.2.1]
  | dropped => exact h.elim

/-- What handler `id` leaves alone, request `id` leaves alone: no layer touches the secrets. -/
theorem totpSecrets_of_untouched {pre post : List Event} {t t' : State} {input : Input}
    (h : Untouched app (handlerEvents app (pre ++ .advance id input :: post)) id)
    (hpre : run (step app) State.init pre = some t)
    (hstep : step app t (.advance id input) = some t') :
    t'.db.totpSecrets = t.db.totpSecrets := by
  obtain ⟨u, hu, hrefines⟩ := refines_of_run hpre
  obtain ⟨u', hu', hrefines'⟩ := (refinement app).next hrefines hstep
  rw [hrefines.secrets, hrefines'.secrets]
  rw [handlerEvents, observe_append_cons hpre hstep] at h
  change run (Routes.step app) u (handlerEvent t (.advance id input)).toList = some u' at hu'
  cases he : handlerEvent t (.advance id input) with
  | none =>
      rw [he] at hu'
      cases hu'
      rfl
  | some e' =>
      rw [he, Option.toList_some] at h hu'
      rw [run_singleton] at hu'
      cases e' with
      | advance id' input' =>
          obtain rfl : id' = id := id_of_handlerEvent he
          exact h _ _ _ u u' rfl hu hu'
      | requestPin | provision | cancel =>
          cases Routes.moves_of_step hu'
          rfl

end Urheilulaatikko.Server.Router

namespace Urheilulaatikko.Server.System

open Auth RateLimit Trace Routes Text

variable {sha256 : String → SingleFlight.Key} {d : Deployment} {es : List Event} {s : State}

/-! ## The statuses of the endpoint

A request of a known user ends in front of the handler or with the handler's answer. In the first
case, and if the handler fails, its `upsert` has not committed and the table is left alone. -/

/-- The answer of `provision`, as a response. -/
def provisionAnswer : Except AppError ProvisionResponse → Router.Response
  | .ok body => .provisioned body
  | .error e => .error e

/-- A request of a known user to `/v1/totp/provision` that is answered: by the limiter, by the
`Json` extractor, or by its handler. -/
theorem provision_answered_cases {r : Router.Request} {response : Router.Response}
    {handler : Option Handler} (hanswered : r.AnsweredBy response handler)
    (hroute : r.route = .provision) {user : AuthenticatedUser} (huser : r.user = some user) :
    (handler = none ∧ response = .tooManyRequests) ∨
    (handler = none ∧ ∃ rejection, response = .jsonRejection rejection) ∨
    ∃ payload answer, handler = some (.provision user payload (.answered answer)) ∧
      r.body = .ok payload ∧ response = provisionAnswer answer := by
  cases handler with
  | none =>
      cases response with
      | tooManyRequests => exact .inl ⟨rfl, rfl⟩
      | jsonRejection rejection => exact .inr (.inl ⟨rfl, rejection, rfl⟩)
      | error e =>
          rw [Router.Request.AnsweredBy, Router.Request.AnsweredByLayer, huser] at hanswered
          cases hanswered
      | pin | provisioned | unableToExtractKey => exact hanswered.elim
  | some h =>
      obtain ⟨hresponse, hcalled⟩ := hanswered
      cases h with
      | requestPin user' stage =>
          have := hcalled.1
          rw [hroute] at this
          cases this
      | provision admin payload stage =>
          obtain ⟨-, huser', hbody⟩ := hcalled
          rw [huser, Option.some.injEq] at huser'
          subst huser'
          cases stage with
          | answered answer =>
              refine .inr (.inr ⟨payload, answer, rfl, hbody, ?_⟩)
              cases answer <;> cases hresponse <;> rfl
          | _ => cases hresponse
      | dropped => exact hcalled.elim

variable (sha256 d) in
/-- No step of request `id` in the run `es` changed `totp_secrets`. -/
def LeftAlone (es : List Event) (id : Nat) : Prop :=
  ∀ pre input clock post t t', es = pre ++ .advance id input clock :: post →
    run (step sha256 d) d.init pre = some t → step sha256 d t (.advance id input clock) = some t' →
    t'.router.db.totpSecrets = t.router.db.totpSecrets

theorem leftAlone_of_untouched {id : Nat}
    (h : Untouched d.app (handlerEvents sha256 d es) id) : LeftAlone sha256 d es id := by
  rintro pre input clock post t t' rfl hpre hstep
  rw [handlerEvents, routerEvents, observe_append_cons hpre hstep] at h
  obtain ⟨-, router, flight, hrouter, -, rfl⟩ := step_eq_some_iff.mp hstep
  rw [routerEvent, Option.toList_some, run_singleton] at hrouter
  exact Router.totpSecrets_of_untouched h (router_run hpre) hrouter

variable (sha256 d) in
/-- The `upsert` of request `id` has committed. -/
def Committed (es : List Event) (id : Nat) : Prop :=
  ∃ c ∈ commits d.app (handlerEvents sha256 d es), c.handler = id

/-- A handler that has committed nothing: none at all, or one that has failed. -/
theorem not_committed_of_idle {id : Nat} (h : Idle d.app (handlerEvents sha256 d es) id) :
    ¬ Committed sha256 d es id ∧ LeftAlone sha256 d es id := by
  refine ⟨?_, leftAlone_of_untouched h.2⟩
  rintro ⟨c, hc, hid⟩
  have hmem : c ∈ commitsBy (commits d.app (handlerEvents sha256 d es)) id :=
    List.mem_filter.mpr ⟨hc, by simpa using hid⟩
  rw [h.1] at hmem
  cases hmem

theorem committed_of_commitsBy {id : Nat} {c : Commit}
    (h : commitsBy (commits d.app (handlerEvents sha256 d es)) id = [c]) :
    Committed sha256 d es id := by
  have hmem : c ∈ commitsBy (commits d.app (handlerEvents sha256 d es)) id := by
    rw [h]
    exact List.mem_singleton_self c
  obtain ⟨hc, hid⟩ := List.mem_filter.mp hmem
  exact ⟨c, hc, by simpa using hid⟩

variable (d) in
/-- The body of the request could be read, and its user may (or may not) do what it asks for. -/
def Asks (r : Router.Request) (permitted : Bool) : Prop :=
  ∃ user payload, r.user = some user ∧ r.body = .ok payload ∧
    decide (Permitted d.app user payload) = permitted

theorem asks_iff {r : Router.Request} {user : AuthenticatedUser} (huser : r.user = some user)
    {payload : ProvisionRequest} (hbody : r.body = .ok payload) (permitted : Bool) :
    Asks d r permitted ↔ decide (Permitted d.app user payload) = permitted := by
  constructor
  · rintro ⟨user', payload', huser', hbody', h⟩
    rw [huser] at huser'
    rw [hbody] at hbody'
    cases huser'
    cases hbody'
    exact h
  · intro h
    exact ⟨user, payload, huser, hbody, h⟩

/-! ### How a request ends -/

variable (sha256 d) in
/-- How a request to `/v1/totp/provision` can end, with what is then known of it. -/
inductive Ending (es : List Event) (s : State) (id : Nat) (r : Router.Request) :
    Router.Response → Prop
  /-- By the authentication layer. -/
  | turnedAway {e : AppError} (hauth : Authentication r (s.flight.requests id) (.error e))
      (hlimited : ∀ allowed, ¬ Limited sha256 d es id allowed)
      (hnot : ¬ Committed sha256 d es id) (halone : LeftAlone sha256 d es id) :
      Ending es s id r (.error e)
  /-- By the limiter. -/
  | refused {user : AuthenticatedUser} (hauth : Authentication r (s.flight.requests id) (.ok user))
      (hlimited : ∀ allowed, Limited sha256 d es id allowed ↔ allowed = false)
      (hnot : ¬ Committed sha256 d es id) (halone : LeftAlone sha256 d es id) :
      Ending es s id r .tooManyRequests
  /-- By the `Json` extractor. -/
  | unreadable {user : AuthenticatedUser} {rejection : Router.JsonRejection}
      (hauth : Authentication r (s.flight.requests id) (.ok user))
      (hlimited : ∀ allowed, Limited sha256 d es id allowed ↔ allowed = true)
      (hbody : r.body = .error rejection)
      (hnot : ¬ Committed sha256 d es id) (halone : LeftAlone sha256 d es id) :
      Ending es s id r (.jsonRejection rejection)
  /-- By the handler, before its `upsert` has committed. -/
  | failed {user : AuthenticatedUser} {payload : ProvisionRequest} {e : AppError}
      (hauth : Authentication r (s.flight.requests id) (.ok user))
      (hlimited : ∀ allowed, Limited sha256 d es id allowed ↔ allowed = true)
      (huser : r.user = some user) (hbody : r.body = .ok payload)
      (hreason : e.status = 403 ∧ ¬ Permitted d.app user payload ∨
        e.status = 500 ∧ Permitted d.app user payload)
      (hnot : ¬ Committed sha256 d es id) (halone : LeftAlone sha256 d es id) :
      Ending es s id r (.error e)
  /-- By the handler, after it. -/
  | provisioned {user : AuthenticatedUser} {payload : ProvisionRequest} {subject : String}
      {provisioned : Totp.ProvisionedSecret}
      (hauth : Authentication r (s.flight.requests id) (.ok user))
      (hlimited : ∀ allowed, Limited sha256 d es id allowed ↔ allowed = true)
      (huser : r.user = some user) (hbody : r.body = .ok payload)
      (hmints : Mints d.app user payload subject provisioned)
      (hcommits : commitsBy (commits d.app (handlerEvents sha256 d es)) id =
        [⟨id, user, payload, subject, provisioned.raw⟩]) :
      Ending es s id r (.provisioned ⟨provisioned.secretBase32, provisioned.otpauthUrl⟩)

theorem ending_of_answered (hrun : run (step sha256 d) d.init es = some s) {id : Nat}
    {r : Router.Request} {response : Router.Response} (hold : s.router.requests id = some r)
    (hroute : r.route = .provision) (hstage : r.stage = .answered response) :
    Ending sha256 d es s id r response := by
  have hlink := links_of_run hrun id
  simp only [hold, Link, Linked, hstage] at hlink
  obtain ⟨t, ht, hrefines⟩ := Router.refines_of_run (router_run hrun)
  have hbehind := hrefines.behind id
  rw [hold] at hbehind
  have hanswered := Router.Request.Behind.of_answered hbehind hstage
  have haccounted := accounted_of_run ht id
  obtain ⟨e, rfl, huser, hauth⟩ | ⟨user, huser, hauth⟩ := hlink
  · have hnone : t.handlers id = none := by
      cases hhandler : t.handlers id with
      | none => rfl
      | some handler =>
          rw [hhandler] at hanswered
          exact absurd huser hanswered.2.user_ne_none
    rw [hnone] at haccounted
    obtain ⟨hnot, halone⟩ := not_committed_of_idle haccounted
    exact .turnedAway hauth (not_limited_of_user hrun hold huser) hnot halone
  · have hlimited := limited_iff hrun hold hstage huser
    obtain ⟨hnone, rfl⟩ | ⟨hnone, rejection, rfl⟩ | ⟨payload, answer, hhandler, hbody, rfl⟩ :=
      provision_answered_cases hanswered hroute huser
    · rw [hnone] at haccounted
      obtain ⟨hnot, halone⟩ := not_committed_of_idle haccounted
      exact .refused hauth (by simpa using hlimited) hnot halone
    · rw [hnone] at haccounted
      obtain ⟨hnot, halone⟩ := not_committed_of_idle haccounted
      have hbody := Router.body_of_rejection (router_run hrun) hold (by rw [hstage]; rfl)
      exact .unreadable hauth (by simpa using hlimited) hbody hnot halone
    · rw [hhandler] at haccounted
      cases answer with
      | error e =>
          obtain ⟨hidle, hfails⟩ := haccounted
          obtain ⟨hnot, halone⟩ := not_committed_of_idle hidle
          exact .failed hauth (by simpa [provisionAnswer] using hlimited) huser hbody
            hfails.status hnot halone
      | ok body =>
          obtain ⟨subject, provisioned, hcommits, hmints, rfl⟩ := haccounted
          exact .provisioned hauth (by simpa [provisionAnswer] using hlimited) huser hbody hmints
            hcommits

/-- **The table of `/v1/totp/provision`.** In every run of the server, for every answered request to
it:

* 401, 503 and 429 are answered for the same reasons as by `/v1/totp/request`;
* a body that cannot be read is answered with what is wrong with it, iff the limiter has let the
  request through: also to somebody who may not provision;
* 403 iff the token is not meant for this server, or the limiter has let through a user without the
  admin role or a blank subject;
* 200 iff the `upsert` of the request has committed. It has then committed once, a secret minted for
  the trimmed subject, and the answer is this secret;
* 500 iff it has not although it might have.

Whatever else is answered, no step of the request has changed `totp_secrets`. -/
theorem provision_status (hrun : run (step sha256 d) d.init es = some s) {id : Nat}
    {r : Router.Request} {response : Router.Response} (hold : s.router.requests id = some r)
    (hroute : r.route = .provision) (hstage : r.stage = .answered response) :
    (response.status = 401 ↔ bearerToken r.authorization = none ∨ Introspected s id r .inactive) ∧
    (response.status = 503 ↔ ∃ reason, Introspected s id r (.unavailable reason)) ∧
    (response.status = 429 ↔ Limited sha256 d es id false) ∧
    (∀ rejection, response = .jsonRejection rejection ↔
      Limited sha256 d es id true ∧ r.body = .error rejection) ∧
    (response.status = 403 ↔ Introspected s id r .wrongAudience ∨
      Limited sha256 d es id true ∧ Asks d r false) ∧
    (response.status = 200 ↔ Committed sha256 d es id) ∧
    (response.status = 500 ↔ Limited sha256 d es id true ∧ Asks d r true ∧
      ¬ Committed sha256 d es id) ∧
    (response.status = 200 → ∃ user payload subject provisioned, r.user = some user ∧
      r.body = .ok payload ∧ Mints d.app user payload subject provisioned ∧
      commitsBy (commits d.app (handlerEvents sha256 d es)) id =
        [⟨id, user, payload, subject, provisioned.raw⟩] ∧
      response = .provisioned ⟨provisioned.secretBase32, provisioned.otpauthUrl⟩) ∧
    (response.status ≠ 200 → LeftAlone sha256 d es id) ∧
    response.status ∈ [200, 400, 401, 403, 413, 415, 422, 429, 500, 503] := by
  cases ending_of_answered hrun hold hroute hstage with
  | @turnedAway e hauth hlimited hnot halone =>
      obtain ⟨h401, h403, h503, hstatus⟩ := turnedAway_iff hauth
      have hsame : (Router.Response.error e).status = e.status := rfl
      rw [hsame]
      refine ⟨h401, h503, iff_of_false (by omega) (hlimited false), ?_, ?_,
        iff_of_false (by omega) hnot, ?_, fun h => absurd h (by omega), fun _ => halone, ?_⟩
      · intro rejection
        exact iff_of_false (by simp) fun h => hlimited true h.1
      · simp [h403, hlimited]
      · exact iff_of_false (by omega) fun h => hlimited true h.1
      · simp only [List.mem_cons]
        omega
  | refused hauth hlimited hnot halone =>
      obtain ⟨hno401, hno403, hno503⟩ := not_turnedAway hauth
      have h429 : Router.Response.tooManyRequests.status = 429 := rfl
      rw [h429]
      simp [hlimited, hno401, hno403, hno503, hnot, halone]
  | @unreadable user rejection hauth hlimited hbody hnot halone =>
      obtain ⟨hno401, hno403, hno503⟩ := not_turnedAway hauth
      have hasks : ∀ permitted, ¬ Asks d r permitted := by
        rintro permitted ⟨-, payload, -, hok, -⟩
        rw [hbody] at hok
        cases hok
      have hstatus := rejection.status_cases
      have hsame : (Router.Response.jsonRejection rejection).status = rejection.status := rfl
      rw [hsame]
      refine ⟨iff_of_false (by omega) hno401, iff_of_false (by omega) hno503,
        iff_of_false (by omega) (by simp [hlimited]), ?_, ?_, iff_of_false (by omega) hnot, ?_,
        fun h => absurd h (by omega), fun _ => halone, ?_⟩
      · intro rejection'
        simp [hlimited, hbody]
      · exact iff_of_false (by omega) (by simp [hno403, hasks])
      · exact iff_of_false (by omega) (by simp [hasks])
      · simp only [List.mem_cons]
        omega
  | @failed user payload e hauth hlimited huser hbody hreason hnot halone =>
      obtain ⟨hno401, hno403, hno503⟩ := not_turnedAway hauth
      have hasks := asks_iff (d := d) huser hbody
      have hsame : (Router.Response.error e).status = e.status := rfl
      rw [hsame]
      obtain ⟨hstatus, hpermitted⟩ | ⟨hstatus, hpermitted⟩ := hreason <;>
        simp [hstatus, hno401, hno403, hno503, hlimited, hbody, hasks, hpermitted, hnot, halone]
  | @provisioned user payload subject provisioned hauth hlimited huser hbody hmints hcommits =>
      obtain ⟨hno401, hno403, hno503⟩ := not_turnedAway hauth
      have hasks := asks_iff (d := d) huser hbody
      have hcommitted := committed_of_commitsBy hcommits
      have h200 : (Router.Response.provisioned ⟨provisioned.secretBase32,
          provisioned.otpauthUrl⟩).status = 200 := rfl
      rw [h200]
      refine ⟨iff_of_false (by omega) hno401, iff_of_false (by omega) hno503,
        iff_of_false (by omega) (by simp [hlimited]), ?_, ?_, iff_of_true rfl hcommitted, ?_, ?_,
        fun h => absurd rfl h, by simp⟩
      · intro rejection
        exact iff_of_false (by simp) (by simp [hbody])
      · exact iff_of_false (by omega) (by simp [hno403, hasks, hmints.permitted])
      · exact iff_of_false (by omega) (by simp [hcommitted])
      · intro _
        exact ⟨user, payload, subject, provisioned, huser, hbody, hmints, hcommits, rfl⟩

/-- The admin was answered with 200, so the secret for Alice is there. -/
theorem provision_status_morning :
    ∃ s r, run (step SingleFlight.testSha256 demo) demo.init morning = some s ∧
      s.router.requests 0 = some r ∧ r.stage = .answered (.provisioned
        ⟨"GEZDGNBVGY3TQOJQGEZDGNBVGY3TQOJQ", "otpauth://totp/urheilulaatikko:alice" ++
          "?secret=GEZDGNBVGY3TQOJQGEZDGNBVGY3TQOJQ&issuer=urheilulaatikko"⟩) ∧
      Committed SingleFlight.testSha256 demo morning 0 := by
  have hanswer : (run (step SingleFlight.testSha256 demo) demo.init morning).bind (answerTo 0) =
      some (.provision, some demoAdmin, .provisioned ⟨"GEZDGNBVGY3TQOJQGEZDGNBVGY3TQOJQ",
        "otpauth://totp/urheilulaatikko:alice" ++
          "?secret=GEZDGNBVGY3TQOJQGEZDGNBVGY3TQOJQ&issuer=urheilulaatikko"⟩) := by
    decide +kernel
  obtain ⟨s, hrun, hanswer⟩ := Option.bind_eq_some_iff.mp hanswer
  obtain ⟨r, hold, hroute, -, hstage⟩ := request_of_answerTo hanswer
  obtain ⟨-, -, -, -, -, h200, -⟩ := provision_status hrun hold hroute hstage
  exact ⟨s, r, hrun, hold, hstage, h200.mp rfl⟩

end Urheilulaatikko.Server.System
