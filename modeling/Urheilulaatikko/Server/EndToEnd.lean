import Urheilulaatikko.Server.SecretHistory
import Urheilulaatikko.Server.System

/-!
# From Keycloak to the PIN

A PIN has a long way behind it: Keycloak's answer about a token goes to the `introspect` that asked
and to all that waited for it, from there to the authentication layer, through the limiter to a
handler, and to the row that a `provision` of an admin has left, who came the same way.
`pin_provenance` follows it back through all the parts of the server.
-/

namespace Urheilulaatikko.Server.Router

open Auth RateLimit Trace Routes

variable {app : Routes.AppState}

/-! ## The request behind a commit

A commit goes back to the request whose handler made it, with its user and its body. -/

/-- The request that a commit was made for. -/
structure Request.Commits (r : Request) (c : Commit) : Prop where
  route : r.route = .provision
  user  : r.user = some c.admin
  body  : r.body = .ok c.payload

/-- Every commit goes back to a request that has come to its handler. -/
def Owned (cs : List Commit) (s : State) : Prop :=
  ∀ c ∈ cs, ∃ r, s.requests c.handler = some r ∧ r.Commits c ∧ r.stage.handed = true

theorem Owned.step {cs : List Commit} {s s' : State} {e : Event} (h : Owned cs s)
    (hstep : step app s e = some s') : Owned cs s' := by
  intro c hc
  obtain ⟨r, hold, hcommits, hhanded⟩ := h c hc
  -- another request moves, or this one changes its stage
  have hset : ∀ {id : Nat} {r' : Request} {db : Database},
      (id = c.handler → ∃ stage, stage.handed = true ∧ r' = { r with stage }) →
      ∃ r'', ({ s with db }.setRequest id r').requests c.handler = some r'' ∧ r''.Commits c ∧
        r''.stage.handed = true := by
    intro id r' db hsame
    rw [State.requests_setRequest]
    by_cases heq : c.handler = id
    · obtain ⟨stage, hstage, rfl⟩ := hsame heq.symm
      rw [heq, Function.update_self]
      exact ⟨_, rfl, ⟨hcommits.route, hcommits.user, hcommits.body⟩, hstage⟩
    · rw [Function.update_of_ne heq]
      exact ⟨r, hold, hcommits, hhanded⟩
  cases moves_of_step hstep with
  | arrive hnew =>
      apply hset
      rintro rfl
      rw [hnew] at hold
      cases hold
  | advance hold' hadvance =>
      apply hset
      rintro rfl
      rw [hold] at hold'
      cases hold'
      exact Request.eq_of_handed hhanded hadvance
  | cancel hold' | abandon hold' =>
      apply hset
      rintro rfl
      rw [hold] at hold'
      cases hold'
      exact ⟨.dropped, rfl, rfl⟩

/-- The new commit of a step is made by the handler of the request that moves. -/
theorem Refines.commits {s : State} {t : Routes.State} (h : Refines s t) {e : Event}
    {e' : Routes.Event} (he : handlerEvent s e = some e') {c : Commit}
    (hcommit : commit? t e' = some c) :
    ∃ r, s.requests c.handler = some r ∧ r.Commits c ∧ r.stage.handed = true := by
  cases e' with
  | requestPin | provision | cancel => cases hcommit
  | advance id input =>
      simp only [commit?] at hcommit
      split at hcommit
      · next admin payload subject provisioned _ _ hhandler _ =>
          cases hcommit
          have hid := h.behind id
          rw [hhandler] at hid
          cases hold : s.requests id with
          | none =>
              rw [hold] at hid
              cases hid
          | some r =>
              rw [hold] at hid
              refine ⟨r, rfl, ?_⟩
              simp only [Behind, Request.Behind] at hid
              cases hstage : r.stage with
              | arrived | authenticating | denying | limiting =>
                  simp only [hstage] at hid
                  cases hid.1
              | auditing | answered =>
                  simp only [hstage] at hid
                  cases hid.1
              | dropped =>
                  simp only [hstage] at hid
                  cases hid _ rfl
              | handling handler =>
                  simp only [hstage] at hid
                  obtain ⟨heq, -, hcalled⟩ := hid
                  cases heq
                  exact ⟨⟨hcalled.1, hcalled.2.1, hcalled.2.2⟩, rfl⟩
      · cases hcommit

theorem owned_of_run {es : List Event} {s : State}
    (hrun : run (step app) State.init es = some s) :
    Owned (commits app (handlerEvents app es)) s := by
  apply run_induction (P := fun es s => Owned (commits app (handlerEvents app es)) s) _ _ hrun
  · intro c hc
    cases hc
  · intro es s e s' hrun ih hstep
    obtain ⟨t, ht, hrefines⟩ := refines_of_run hrun
    have hevents : handlerEvents app (es ++ [e]) =
        handlerEvents app es ++ (handlerEvent s e).toList := observe_snoc e hrun
    rw [hevents]
    cases he : handlerEvent s e with
    | none =>
        rw [Option.toList_none, List.append_nil]
        exact ih.step hstep
    | some e' =>
        rw [Option.toList_some, commits_snoc e' ht]
        apply Owned.step _ hstep
        intro c hc
        rcases List.mem_append.mp hc with hc | hc
        · exact ih c hc
        · rw [Option.mem_toList] at hc
          exact hrefines.commits he hc

end Urheilulaatikko.Server.Router

namespace Urheilulaatikko.Server.System

open Auth RateLimit TokenBucket Trace Routes Text

variable {sha256 : String → SingleFlight.Key} {d : Deployment} {es : List Event} {s : State}

/-! ## Whom Keycloak has vouched for

A request has a user only if its introspection came out active, and that goes back to an answer of
Keycloak about the token of this very request. -/

variable (sha256 d) in
/-- Keycloak has vouched for `user` when it was asked about the token of this request: some
`introspect` for the same token was answered with 2xx and a body that lets `user` in. -/
def VouchedFor (es : List Event) (r : Router.Request) (user : AuthenticatedUser) : Prop :=
  ∃ token j now body, bearerToken r.authorization = some token ∧
    .lock j token ∈ flightEvents sha256 d es ∧
    SingleFlight.Answered (flightEvents sha256 d es) j now body ∧
    Grants d.introspection now body user

/-- The authentication layer lets nobody in by itself. -/
theorem vouchedFor_of_user (hrun : run (step sha256 d) d.init es = some s)
    (hsha : SingleFlight.CollisionFree sha256 (flightEvents sha256 d es)) {id : Nat}
    {r : Router.Request} (hold : s.router.requests id = some r) {user : AuthenticatedUser}
    (huser : r.user = some user) : VouchedFor sha256 d es r user := by
  have hlink := links_of_run hrun id
  rw [hold] at hlink
  have hauth := hlink.cancel user huser
  unfold Authentication at hauth
  split at hauth
  · cases hauth
  · next token htoken =>
      obtain ⟨outcome, hf, hinto⟩ := hauth
      rw [IntrospectionOutcome.into_eq_ok_iff] at hinto
      subst hinto
      -- the outcome came from Keycloak, to this request or to its leader
      have hjustified := SingleFlight.Justified.of_run (flight_run hrun)
      have hpc := hjustified.pc id
      rw [hf] at hpc
      obtain ⟨j, token₁, token₂, ⟨now, body, hanswer, hgrants⟩, hi, hj, hkey, -⟩ := hpc
      have hsame : token₂ = token₁ := hsha j token₂ id token₁ hj hi hkey
      have hown : token = token₁ := by
        have := ((hjustified.token id token₁).mp hi).2
        rwa [hf] at this
      rw [hsame, ← hown] at hj
      exact ⟨token, j, now, body, htoken, hj, hanswer, hgrants⟩

/-! ## Where a PIN comes from

The provenance of users and the history of secrets, put together for one answer. -/

variable (sha256 d) in
/-- What the handlers do in a run of the server. -/
def handlerEvents (es : List Event) : List Routes.Event :=
  Router.handlerEvents d.app (routerEvents sha256 d es)

/-- What was committed by the time of a `get` stays committed. -/
theorem mem_commits_of_getAt {id : Nat} {user : AuthenticatedUser} {pre : List Routes.Event}
    {t : Routes.State} {input : Input}
    (hget : GetAt d.app (handlerEvents sha256 d es) id user pre t input) {c : Commit}
    (hc : c ∈ commits d.app pre) : c ∈ commits d.app (handlerEvents sha256 d es) := by
  obtain ⟨⟨post, hsplit⟩, hpre, -⟩ := hget
  rw [hsplit, commits, observe_append hpre]
  exact List.mem_append_left _ hc

/-- The PIN of an answer is that of the secret that was committed last by the time of its `get`. -/
theorem origin_of_pin (hcipher : d.app.cipher.Inverts)
    (hrun : run (step sha256 d) d.init es = some s) {id : Nat} {r : Router.Request}
    {body : PinResponse} (hold : s.router.requests id = some r)
    (hstage : r.stage = .answered (.pin body)) :
    ∃ user, r.route = .request ∧ r.user = some user ∧
      ∃ pre t input c generated, GetAt d.app (handlerEvents sha256 d es) id user pre t input ∧
        latest (commits d.app pre) user.subject = some c ∧
        Totp.generateAt d.app.totpRs c.raw input.unixNow = .ok generated ∧
        body = ⟨generated.pin, generated.validForSeconds⟩ := by
  obtain ⟨t, ht, hrefines⟩ := Router.refines_of_run (router_run hrun)
  have hbehind := hrefines.behind id
  rw [hold] at hbehind
  obtain ⟨user, hroute, huser, hhandler⟩ :=
    (Router.Request.Behind.of_answered hbehind hstage).of_pin
  refine ⟨user, hroute, huser, ?_⟩
  obtain hcalled | ⟨pre, t₀, input, hget, secret, generated, hsecret, hgen, hbody⟩ :=
    traced_of_run ht id user _ hhandler
  · cases hcalled
  -- the table at the `get` holds the last commit
  have hrow := (stored_of_run hcipher hget.2.1).secrets user.subject
  rw [(SecretStore.get_eq_ok_some_iff.mp hsecret).2] at hrow
  obtain ⟨c, hc, hraw⟩ := Option.map_eq_some_iff.mp hrow.symm
  rw [Except.ok.injEq] at hraw
  exact ⟨pre, t₀, input, c, generated, hget, hc, by rwa [hraw], hbody⟩

/-- **Where a PIN comes from.** In every run of the server, with any interleaving, any failure and
any cancellation, if no two presented tokens collide: a request that is answered with a PIN was made
with a token for which Keycloak has vouched for its user, and the PIN is the one, at the time of its
`get`, of the secret that was committed last for this user by then. That secret was committed for a
request to `/v1/totp/provision` that names the user, made with a token for which Keycloak has
vouched for somebody with the admin role. -/
theorem pin_provenance (hcipher : d.app.cipher.Inverts)
    (hrun : run (step sha256 d) d.init es = some s)
    (hsha : SingleFlight.CollisionFree sha256 (flightEvents sha256 d es)) {id : Nat}
    {r : Router.Request} {body : PinResponse} (hold : s.router.requests id = some r)
    (hstage : r.stage = .answered (.pin body)) :
    ∃ user, r.route = .request ∧ r.user = some user ∧ VouchedFor sha256 d es r user ∧
      ∃ pre t input c generated, GetAt d.app (handlerEvents sha256 d es) id user pre t input ∧
        latest (commits d.app pre) user.subject = some c ∧
        Totp.generateAt d.app.totpRs c.raw input.unixNow = .ok generated ∧
        body = ⟨generated.pin, generated.validForSeconds⟩ ∧
        ∃ r', s.router.requests c.handler = some r' ∧ r'.route = .provision ∧
          r'.body = .ok c.payload ∧ trim c.payload.subject = user.subject ∧
          r'.user = some c.admin ∧ c.admin.hasRole d.app.adminRole = true ∧
          VouchedFor sha256 d es r' c.admin := by
  obtain ⟨user, hroute, huser, pre, t, input, c, generated, hget, hc, hgen, hbody⟩ :=
    origin_of_pin hcipher hrun hold hstage
  refine ⟨user, hroute, huser, vouchedFor_of_user hrun hsha hold huser, pre, t, input, c, generated,
    hget, hc, hgen, hbody, ?_⟩
  obtain ⟨hmem, hsubject⟩ := subject_of_latest hc
  obtain ⟨hrole, htrim, -⟩ := (stored_of_run hcipher hget.2.1).authorised c hmem
  -- the request behind the commit is still there
  obtain ⟨r', hold', ⟨hroute', huser', hbody'⟩, -⟩ :=
    Router.owned_of_run (router_run hrun) c (mem_commits_of_getAt hget hmem)
  exact ⟨r', hold', hroute', hbody', by rw [htrim, hsubject], huser', hrole,
    vouchedFor_of_user hrun hsha hold' huser'⟩

/-! ### A secret for Alice, and her PIN -/

def demo : Deployment where
  app           := demoApp
  introspection := SingleFlight.testClient
  limiter       := RateLimit.minimalLimiter 6

/-- `Authorization: Bearer` with a token. -/
def bearer (token : String) : Option HeaderValue := some ("Bearer " ++ token).toUTF8.toList

/-- What Keycloak says about a user of the realm. -/
def keycloakBody (user : AuthenticatedUser) : IntrospectionResponse :=
  { SingleFlight.testBody with
    sub := some user.subject, realmAccess := some { roles := user.realmRoles } }

/-- Request `id` is authenticated by a call of its own. -/
def authenticated (id : Nat) (token : String) (user : AuthenticatedUser) : List Event :=
  [Event.advance id (smooth 59 Totp.rfcSecret) 0,
   Event.introspect (.lock id token),
   Event.introspect (.sendResult id (.ok ⟨200, "OK"⟩)),
   Event.introspect (.jsonResult id (.ok (keycloakBody user)) 299),
   Event.introspect (.publish id),
   Event.introspect (.dropGuard id),
   Event.advance id (smooth 59 Totp.rfcSecret) 0]

/-- An admin provisions a secret for Alice, who then asks for a PIN. -/
def morning : List Event :=
  Event.arrive 0 .provision 0 (bearer "same.token") (.ok ⟨" alice "⟩) ::
    authenticated 0 "same.token" demoAdmin ++
  List.replicate 4 (Event.advance 0 (smooth 59 Totp.rfcSecret) 0) ++
  Event.arrive 1 .request 0 (bearer "a.valid.token") (.error .unknownBody) ::
    authenticated 1 "a.valid.token" alice ++
  List.replicate 4 (Event.advance 1 (smooth 59 Totp.rfcSecret) 0)

/-- The tokens that were presented. -/
def presented (events : List SingleFlight.Event) : List String :=
  events.filterMap fun
    | .lock _ token => some token
    | _             => none

theorem collisionFree_of_presented {events : List SingleFlight.Event}
    (h : ∀ token ∈ presented events, ∀ token' ∈ presented events,
      sha256 token = sha256 token' → token = token') :
    SingleFlight.CollisionFree sha256 events := by
  intro i token j token' hi hj
  exact h token (List.mem_filterMap.mpr ⟨_, hi, rfl⟩) token' (List.mem_filterMap.mpr ⟨_, hj, rfl⟩)

theorem collisionFree_morning : SingleFlight.CollisionFree SingleFlight.testSha256
    (flightEvents SingleFlight.testSha256 demo morning) := by
  apply collisionFree_of_presented
  have htokens : presented (flightEvents SingleFlight.testSha256 demo morning) =
      ["same.token", "a.valid.token"] := by
    decide +kernel
  rw [htokens]
  decide

/-- What request `id` of a run has been answered with, on which route and for whom. -/
def answerTo (id : Nat) (s : State) :
    Option (ProtectedRoute × Option AuthenticatedUser × Router.Response) :=
  (s.router.requests id).bind fun r => (r.answer? id).map fun a => (a.route, a.user, a.response)

theorem request_of_answerTo {id : Nat} {route : ProtectedRoute} {user : Option AuthenticatedUser}
    {response : Router.Response} (h : answerTo id s = some (route, user, response)) :
    ∃ r, s.router.requests id = some r ∧ r.route = route ∧ r.user = user ∧
      r.stage = .answered response := by
  obtain ⟨r, hold, hanswer⟩ := Option.bind_eq_some_iff.mp h
  obtain ⟨a, ha, hpair⟩ := Option.map_eq_some_iff.mp hanswer
  obtain ⟨-, hroute, huser, hstage⟩ := Router.Request.answer?_eq_some ha
  rw [Prod.mk.injEq, Prod.mk.injEq] at hpair
  exact ⟨r, hold, by rw [← hroute, hpair.1], by rw [← huser, hpair.2.1], by rw [hstage, hpair.2.2]⟩

/-- Alice has been answered with her PIN. -/
theorem answerTo_morning :
    ∃ s, run (step SingleFlight.testSha256 demo) demo.init morning = some s ∧
      answerTo 1 s = some (.request, some alice, .pin ⟨"287082", 1⟩) := by
  have hanswer : (run (step SingleFlight.testSha256 demo) demo.init morning).bind (answerTo 1) =
      some (.request, some alice, .pin ⟨"287082", 1⟩) := by
    decide +kernel
  exact Option.bind_eq_some_iff.mp hanswer

theorem pin_provenance_morning :
    ∃ s r, run (step SingleFlight.testSha256 demo) demo.init morning = some s ∧
      s.router.requests 1 = some r ∧ r.stage = .answered (.pin ⟨"287082", 1⟩) ∧
      ∃ user, r.user = some user ∧ VouchedFor SingleFlight.testSha256 demo morning r user := by
  obtain ⟨s, hrun, hanswer⟩ := answerTo_morning
  obtain ⟨r, hold, -, -, hstage⟩ := request_of_answerTo hanswer
  obtain ⟨user, -, huser, hvouched, -⟩ :=
    pin_provenance demoCipher_inverts hrun collisionFree_morning hold hstage
  exact ⟨s, r, hrun, hold, hstage, user, huser, hvouched⟩

end Urheilulaatikko.Server.System
