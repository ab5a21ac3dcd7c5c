import Urheilulaatikko.Server.Auth.Provenance
import Urheilulaatikko.Server.Auth.Progress
import Urheilulaatikko.Server.Budget
import Urheilulaatikko.Server.Refinement

/-!
# The server as a whole

`Router` is told how each introspection ends and what the limiter decides. Here it is put together
with the machines that know: the in-flight map of `SingleFlight` and the limiter of `RateLimit`. The
three move together in one step:

* a request in `authenticate` is a request of `SingleFlight`, with the token of its own header; it
  leaves `authenticate` with the outcome that its `introspect` has returned, and a client that goes
  away during `introspect` cancels both;
* about a request in front of it the limiter is asked, with its subject and what the limiter's clock
  says. The clock never goes back, and what was asked before is all that the answer depends on.

A run of the server is a run of each of its parts (`stack`, `introspections`), so what is known of
the parts is known of the whole. What holds them together is `Linked`: how far a request has come
tells how its introspection has ended.
-/

namespace Urheilulaatikko.Server.System

open Auth RateLimit TokenBucket Trace

/-- What the server is built from at its start. -/
structure Deployment where
  app           : Routes.AppState
  introspection : IntrospectionClient
  limiter       : Limiter String

structure State where
  router : Router.State
  flight : SingleFlight.State
  /-- The subjects and times that the limiter was asked about. -/
  asked  : List (String × Nat)
  /-- What the limiter's clock has last said. -/
  clock  : Nat

def Deployment.init (_ : Deployment) : State where
  router := Router.State.init
  flight := SingleFlight.init
  asked  := []
  clock  := 0

inductive Event where
  | arrive (id : Nat) (route : ProtectedRoute) (time : Nat) (authorization : Option HeaderValue)
      (body : Except Router.JsonRejection Routes.ProvisionRequest)
  /-- A step inside `introspect`. -/
  | introspect (e : SingleFlight.Event)
  /-- Request `id` runs to its next await outside `introspect`. -/
  | advance (id : Nat) (input : Routes.Input) (clock : Nat)
  | cancel (id : Nat)
  /-- The client goes away while its request is put on record. -/
  | abandon (id : Nat) (input : Routes.Input)

namespace State

/-- The stage of request `id`, if there is such a request. -/
def stage? (s : State) (id : Nat) : Option Router.Stage := (s.router.requests id).map (·.stage)

/-- What `introspect` has returned to request `id`, if it has. -/
def outcome? (s : State) (id : Nat) : Option IntrospectionOutcome :=
  match (s.flight.requests id).pc with
  | .returned outcome => some outcome
  | _ => none

/-- A request in front of the limiter: it has a key, and its time is what the clock says now. -/
def limited? (s : State) (id clock : Nat) : Option (String × RateLimit.Request) :=
  match s.router.requests id with
  | some r =>
      match r.stage with
      | .limiting => (extract r.toRequest).toOption.map (·, { r.toRequest with time := clock })
      | _         => none
  | none => none

/-- The limiter's decision on a request in front of it. -/
def decide (s : State) (d : Deployment) (limited : String × RateLimit.Request) : Bool :=
  d.limiter s.asked (limited.1, arrival limited)

/-- The limiter lets request `id` through. -/
def allows (s : State) (d : Deployment) (id clock : Nat) : Bool :=
  (s.limited? id clock).any fun limited => s.decide d limited

/-- What the limiter has been asked after a step of request `id`. -/
def askedAfter (s : State) (id clock : Nat) : List (String × Nat) :=
  match s.limited? id clock with
  | some limited => s.asked ++ [(limited.1, arrival limited)]
  | none         => s.asked

end State

/-! ## The parts of an event

A step of the server is a step of the router, of the in-flight map, or of both at once. The two
functions below say what an event is to each of them, and `agree` when they can take it together:
what one part needs from the other is in the state, and no event brings it along. -/

/-- What the router makes of an event. It asks for an outcome in `authenticate` only, and for a
decision in front of the limiter only. -/
def routerEvent (d : Deployment) (s : State) : Event → Option Router.Event
  | .arrive id route time authorization body => some (.arrive id route time authorization body)
  | .introspect _ => none
  | .advance id input clock =>
      some (.advance id
        { toInput := input
          outcome := (s.outcome? id).getD .inactive
          allowed := s.allows d id clock })
  | .cancel id => some (.cancel id)
  | .abandon id input =>
      some (.abandon id { toInput := input, outcome := .inactive, allowed := false })

/-- What the in-flight map makes of it. -/
def flightEvent (s : State) : Event → Option SingleFlight.Event
  | .introspect e => some e
  | .cancel id =>
      match s.stage? id with
      | some (.authenticating _) => some (.cancel id)
      | _                        => none
  | _ => none

/-- When the parts agree to an event: `introspect` is called from `authenticate` only and with the
token found there, nobody leaves `authenticate` before it has returned, a cancellation goes through
the router, and the clock of the limiter does not go back. -/
def agree (s : State) : Event → Bool
  | .introspect (.lock i token) =>
      match s.stage? i with
      | some (.authenticating token') => token = token'
      | _                             => false
  | .introspect (.cancel _) => false
  | .advance id _ clock =>
      match s.stage? id with
      | some (.authenticating _) => (s.outcome? id).isSome
      | some .limiting           => s.clock ≤ clock
      | _                        => true
  | _ => true

section Step

variable (sha256 : String → SingleFlight.Key) (d : Deployment)

def step (s : State) (e : Event) : Option State :=
  if agree s e then do
    let router ← run (Router.step d.app) s.router (routerEvent d s e).toList
    let flight ← run (SingleFlight.step d.introspection sha256) s.flight (flightEvent s e).toList
    some {
      router, flight
      asked := match e with
        | .advance id _ clock => s.askedAfter id clock
        | _                   => s.asked
      clock := match e with
        | .advance id _ clock => if (s.limited? id clock).isSome then clock else s.clock
        | _                   => s.clock }
  else none

variable {sha256 d}

theorem step_eq_some_iff {s s' : State} {e : Event} :
    step sha256 d s e = some s' ↔ agree s e = true ∧ ∃ router flight,
      run (Router.step d.app) s.router (routerEvent d s e).toList = some router ∧
      run (SingleFlight.step d.introspection sha256) s.flight (flightEvent s e).toList =
        some flight ∧
      s' = {
        router, flight
        asked := match e with
          | .advance id _ clock => s.askedAfter id clock
          | _                   => s.asked
        clock := match e with
          | .advance id _ clock => if (s.limited? id clock).isSome then clock else s.clock
          | _                   => s.clock } := by
  unfold step
  split
  · next hagree =>
      simp only [hagree, true_and, bind, Option.bind_eq_some_iff, Option.some.injEq]
      constructor
      · rintro ⟨router, hrouter, flight, hflight, rfl⟩
        exact ⟨router, flight, hrouter, hflight, rfl⟩
      · rintro ⟨router, flight, hrouter, hflight, rfl⟩
        exact ⟨router, hrouter, flight, hflight, rfl⟩
  · next hagree => simp [hagree]

variable (sha256 d)

/-! ## A run of the server is a run of its parts

Seen from the router, a run of the server is a run of the router, and the same for the in-flight
map. So whatever was proved about each of them alone holds inside the server. -/

def stack : Simulation (step sha256 d) (Router.step d.app) where
  rel s t := s.router = t
  event   := routerEvent d
  next    := by
    rintro s t e s' rfl hstep
    obtain ⟨-, router, flight, hrouter, -, rfl⟩ := step_eq_some_iff.mp hstep
    exact ⟨router, hrouter, rfl⟩

def introspections : Simulation (step sha256 d) (SingleFlight.step d.introspection sha256) where
  rel s t := s.flight = t
  event   := flightEvent
  next    := by
    rintro s t e s' rfl hstep
    obtain ⟨-, router, flight, -, hflight, rfl⟩ := step_eq_some_iff.mp hstep
    exact ⟨flight, hflight, rfl⟩

/-- What happens in `introspect` in a run of the server. -/
def flightEvents (es : List Event) : List SingleFlight.Event :=
  observe (step sha256 d) flightEvent d.init es

def routerEvents (es : List Event) : List Router.Event :=
  observe (step sha256 d) (routerEvent d) d.init es

variable {sha256 d}

theorem flight_run {es : List Event} {s : State} (hrun : run (step sha256 d) d.init es = some s) :
    run (SingleFlight.step d.introspection sha256) SingleFlight.init (flightEvents sha256 d es) =
      some s.flight := by
  obtain ⟨t, ht, rfl⟩ := (introspections sha256 d).run_eq_some rfl hrun
  exact ht

theorem router_run {es : List Event} {s : State} (hrun : run (step sha256 d) d.init es = some s) :
    run (Router.step d.app) Router.State.init (routerEvents sha256 d es) = some s.router := by
  obtain ⟨t, ht, rfl⟩ := (stack sha256 d).run_eq_some rfl hrun
  exact ht

end Step

/-! ## A request and its introspection

What the two parts know about a request has to fit together: nobody is past `authenticate` unless
its own `introspect` has returned, and what it returned is what the layer went on with. `Linked`
says so stage by stage, and every step keeps it. -/

/-- What the authentication layer has found out about a request: nothing but its header and the
outcome of its own `introspect` counts. -/
def Authentication (r : Router.Request) (f : SingleFlight.Request)
    (result : Except AppError AuthenticatedUser) : Prop :=
  match bearerToken r.authorization with
  | none       => result = .error .unauthorized
  | some token => ∃ outcome, f = ⟨token, .returned outcome⟩ ∧ outcome.into = result

/-- How far a request has come tells how its introspection has ended. -/
def Linked (r : Router.Request) (f : SingleFlight.Request) : Prop :=
  match r.stage with
  | .arrived => r.user = none ∧ f.pc = .notStarted
  | .authenticating token => r.user = none ∧ bearerToken r.authorization = some token ∧
      (f.pc = .notStarted ∨ f.token = token)
  | .denying e => r.user = none ∧ Authentication r f (.error e)
  | .limiting | .handling _ | .auditing _ =>
      ∃ user, r.user = some user ∧ Authentication r f (.ok user)
  | .answered response =>
      (∃ e, response = .error e ∧ r.user = none ∧ Authentication r f (.error e)) ∨
        ∃ user, r.user = some user ∧ Authentication r f (.ok user)
  | .dropped => ∀ user, r.user = some user → Authentication r f (.ok user)

/-- A number that no request has, no introspection has either. -/
def Link : Option Router.Request → SingleFlight.Request → Prop
  | none,   f => f.pc = .notStarted
  | some r, f => Linked r f

section Linked

variable {sha256 : String → SingleFlight.Key} {d : Deployment} {s s' : State}
  {r r' : Router.Request} {f : SingleFlight.Request}

theorem Linked.respond (h : ∃ user, r.user = some user ∧ Authentication r f (.ok user))
    (response : Router.Response) : Linked (r.respond response) f := by
  unfold Router.Request.respond
  split
  · exact h
  · exact .inr h

/-- The steps of a request outside `introspect`. -/
theorem Linked.advance {db db' : Database} {input : Router.Input} (h : Linked r f)
    (hreturned : ∀ token, r.stage = .authenticating token → f.pc = .returned input.outcome)
    (hadvance : r.advance d.app db input = some (db', r')) : Linked r' f := by
  unfold Router.Request.advance at hadvance
  unfold Linked at h
  cases hstage : r.stage with
  | arrived =>
      simp only [hstage] at h hadvance
      split at hadvance
      · next htoken =>
          cases hadvance
          exact ⟨h.1, by simp only [Authentication, htoken]⟩
      · next token htoken =>
          cases hadvance
          exact ⟨h.1, htoken, .inl h.2⟩
  | authenticating token =>
      simp only [hstage] at h hadvance
      obtain ⟨huser, htoken, hf⟩ := h
      have hpc := hreturned token hstage
      have hauth : Authentication r f input.outcome.into := by
        simp only [Authentication, htoken]
        refine ⟨input.outcome, ?_, rfl⟩
        rw [← hpc, ← hf.resolve_left (by simp [hpc])]
      split at hadvance
      · next user hok =>
          cases hadvance
          rw [hok] at hauth
          exact ⟨user, rfl, hauth⟩
      · next e herror =>
          rw [herror] at hauth
          split at hadvance
          · cases hadvance
            exact ⟨huser, hauth⟩
          · cases hadvance
            exact .inl ⟨e, rfl, huser, hauth⟩
  | denying e =>
      simp only [hstage] at h hadvance
      cases hadvance
      exact .inl ⟨e, rfl, h⟩
  | limiting =>
      simp only [hstage] at h hadvance
      obtain ⟨user, huser, hauth⟩ := h
      simp only [extract, huser] at hadvance
      split at hadvance
      · cases hadvance
        unfold Router.Request.call
        split
        · exact ⟨user, huser, hauth⟩
        · split
          · exact Linked.respond ⟨user, huser, hauth⟩ _
          · exact ⟨user, huser, hauth⟩
      · cases hadvance
        exact Linked.respond ⟨user, huser, hauth⟩ _
  | handling handler =>
      simp only [hstage] at h hadvance
      cases handler with
      | requestPin user stage =>
          obtain ⟨⟨db', stage'⟩, -, hadvance⟩ := Option.bind_eq_some_iff.mp hadvance
          cases hadvance
          unfold Router.Request.requestPin
          split
          · exact Linked.respond h _
          · exact Linked.respond h _
          · exact h
      | provision admin payload stage =>
          obtain ⟨⟨db', stage'⟩, -, hadvance⟩ := Option.bind_eq_some_iff.mp hadvance
          cases hadvance
          unfold Router.Request.provision
          split
          · exact Linked.respond h _
          · exact Linked.respond h _
          · exact h
      | dropped => cases hadvance
  | auditing response =>
      simp only [hstage] at h hadvance
      cases hadvance
      exact .inr h
  | answered response =>
      simp only [hstage] at hadvance
      cases hadvance
  | dropped =>
      simp only [hstage] at hadvance
      cases hadvance

/-- Whoever has been found out about has returned from `introspect`, or never been there. -/
theorem Authentication.of_move {fs fs' : SingleFlight.State} {e : SingleFlight.Event}
    (hmove : SingleFlight.Move d.introspection sha256 fs e fs')
    {result : Except AppError AuthenticatedUser}
    (h : Authentication r (fs.requests e.request) result) :
    Authentication r (fs'.requests e.request) result := by
  unfold Authentication at h ⊢
  split at h
  · exact h
  · next token htoken =>
      obtain ⟨outcome, hf, -⟩ := h
      have hlt := hmove.rank_lt
      rw [hf] at hlt
      exact absurd hlt (Nat.not_lt_zero _)

/-- The steps inside `introspect`. -/
theorem Link.introspect {router : Option Router.Request} {fs fs' : SingleFlight.State}
    {e : SingleFlight.Event} (h : Link router (fs.requests e.request))
    (hmove : SingleFlight.Move d.introspection sha256 fs e fs')
    (hlock : ∀ i token, e = .lock i token →
      ∃ r, router = some r ∧ r.stage = .authenticating token) :
    Link router (fs'.requests e.request) := by
  -- whoever has not begun can only begin
  have hbegin : (fs.requests e.request).pc = .notStarted → ∃ token r, e = .lock e.request token ∧
      router = some r ∧ r.stage = .authenticating token := by
    intro hpc
    obtain ⟨i, token, rfl, -, -⟩ | ⟨-, hstarted, -⟩ := hmove.token
    · obtain ⟨r, hr, hstage⟩ := hlock i token rfl
      exact ⟨token, r, rfl, hr, hstage⟩
    · exact absurd hpc hstarted
  cases router with
  | none =>
      obtain ⟨token, r, -, hr, -⟩ := hbegin h
      cases hr
  | some r =>
      simp only [Link, Linked] at h ⊢
      cases hstage : r.stage with
      | arrived =>
          simp only [hstage] at h
          obtain ⟨token, r', -, hr, hstage'⟩ := hbegin h.2
          cases hr
          rw [hstage] at hstage'
          cases hstage'
      | authenticating token =>
          simp only [hstage] at h ⊢
          refine ⟨h.1, h.2.1, .inr ?_⟩
          obtain ⟨i, token', rfl, -, htoken⟩ | ⟨-, hstarted, htoken⟩ := hmove.token
          · obtain ⟨r', hr, hstage'⟩ := hlock i token' rfl
            cases hr
            rw [hstage] at hstage'
            cases hstage'
            exact htoken
          · rw [htoken]
            exact h.2.2.resolve_left hstarted
      | denying e' =>
          simp only [hstage] at h ⊢
          exact ⟨h.1, h.2.of_move hmove⟩
      | limiting | handling _ | auditing _ =>
          simp only [hstage] at h ⊢
          obtain ⟨user, huser, hauth⟩ := h
          exact ⟨user, huser, hauth.of_move hmove⟩
      | answered response =>
          simp only [hstage] at h ⊢
          obtain ⟨e', he, huser, hauth⟩ | ⟨user, huser, hauth⟩ := h
          · exact .inl ⟨e', he, huser, hauth.of_move hmove⟩
          · exact .inr ⟨user, huser, hauth.of_move hmove⟩
      | dropped =>
          simp only [hstage] at h ⊢
          intro user huser
          exact (h user huser).of_move hmove

/-- A client that goes away. -/
theorem Linked.cancel (h : Linked r f) :
    Linked { r with stage := .dropped } f := by
  intro user huser
  unfold Linked at h
  cases hstage : r.stage with
  | arrived | authenticating _ | denying _ =>
      simp only [hstage] at h
      have huser' : r.user = some user := huser
      rw [h.1] at huser'
      cases huser'
  | limiting | handling _ | auditing _ =>
      simp only [hstage] at h
      obtain ⟨user', huser', hauth⟩ := h
      have heq : some user' = some user := huser'.symm.trans huser
      cases heq
      exact hauth
  | answered response =>
      simp only [hstage] at h
      obtain ⟨e', -, huser', -⟩ | ⟨user', huser', hauth⟩ := h
      · have heq : none = some user := huser'.symm.trans huser
        cases heq
      · have heq : some user' = some user := huser'.symm.trans huser
        cases heq
        exact hauth
  | dropped =>
      simp only [hstage] at h
      exact h user huser

/-- Every request is linked to its introspection. -/
def Links (s : State) : Prop := ∀ id, Link (s.router.requests id) (s.flight.requests id)

theorem Links.init (d : Deployment) : Links d.init := fun _ => rfl

theorem outcome?_eq_some_iff {id : Nat} {outcome : IntrospectionOutcome} :
    s.outcome? id = some outcome ↔ (s.flight.requests id).pc = .returned outcome := by
  unfold State.outcome?
  cases (s.flight.requests id).pc <;> simp

/-- One request has moved outside `introspect`, no introspection has. -/
theorem Links.setRequest (h : Links s) {db : Database} {id : Nat}
    (hr : Linked r (s.flight.requests id)) (other : Nat) :
    Link (({ s.router with db }.setRequest id r).requests other) (s.flight.requests other) := by
  have hlink := rel_update (R := fun _ => Link) h (i := id) (x := some r) hr other
  rwa [Function.update_eq_self] at hlink

theorem Links.step (h : Links s) {e : Event} (hstep : step sha256 d s e = some s') : Links s' := by
  obtain ⟨hagree, router, flight, hrouter, hflight, rfl⟩ := step_eq_some_iff.mp hstep
  show ∀ id, Link (router.requests id) (flight.requests id)
  cases e with
  | arrive id route time authorization body =>
      cases hflight
      simp only [routerEvent, Option.toList_some, run_singleton] at hrouter
      cases Router.moves_of_step hrouter with
      | arrive hnew =>
          have hid := h id
          rw [hnew] at hid
          exact h.setRequest ⟨rfl, hid⟩
  | introspect e =>
      cases hrouter
      simp only [flightEvent, Option.toList_some, run_singleton] at hflight
      have hmove := SingleFlight.move_of_step hflight
      intro id
      by_cases hid : id = e.request
      · subst hid
        apply (h _).introspect hmove
        rintro i token rfl
        simp only [agree, State.stage?] at hagree
        cases hold : s.router.requests i with
        | none => simp [hold] at hagree
        | some r =>
            refine ⟨r, hold, ?_⟩
            simp only [hold, Option.map_some] at hagree
            split at hagree
            · next token' hstage =>
                rw [decide_eq_true_eq] at hagree
                rw [hagree, Option.some.inj hstage]
            · cases hagree
      · rw [hmove.requests_ne hid]
        exact h id
  | advance id input clock =>
      cases hflight
      simp only [routerEvent, Option.toList_some, run_singleton] at hrouter
      cases Router.moves_of_step hrouter with
      | advance hold hadvance =>
          have hid := h id
          rw [hold] at hid
          refine h.setRequest (Linked.advance hid ?_ hadvance)
          intro token hstage
          simp only [agree, State.stage?, hold, Option.map_some, hstage] at hagree
          obtain ⟨outcome, houtcome⟩ := Option.isSome_iff_exists.mp hagree
          rw [houtcome]
          exact outcome?_eq_some_iff.mp houtcome
  | cancel id =>
      simp only [routerEvent, Option.toList_some, run_singleton] at hrouter
      cases Router.moves_of_step hrouter with
      | @cancel id r hold =>
          have hid := h id
          rw [hold] at hid
          simp only [flightEvent, State.stage?, hold, Option.map_some] at hflight
          split at hflight
          · next token hstage =>
              -- in `authenticate`: nobody has been let in yet
              simp only [Option.toList_some, run_singleton] at hflight
              have hmove := SingleFlight.move_of_step hflight
              intro other
              by_cases heq : other = id
              · subst heq
                simp only [Router.State.requests_setRequest, Function.update_self, Link]
                intro user huser
                simp only [Link, Linked, Option.some.inj hstage] at hid
                have huser' : r.user = some user := huser
                rw [hid.1] at huser'
                cases huser'
              · rw [hmove.requests_ne heq, Router.State.requests_setRequest,
                  Function.update_of_ne heq]
                exact h other
          · cases hflight
            exact h.setRequest hid.cancel
  | abandon id input =>
      cases hflight
      simp only [routerEvent, Option.toList_some, run_singleton] at hrouter
      cases Router.moves_of_step hrouter with
      | abandon hold =>
          have hid := h id
          rw [hold] at hid
          exact h.setRequest hid.cancel

theorem links_of_run {es : List Event} (hrun : run (System.step sha256 d) d.init es = some s) :
    Links s :=
  run_invariant (fun _ _ _ h hstep => h.step hstep) (Links.init d) hrun

end Linked

end Urheilulaatikko.Server.System
