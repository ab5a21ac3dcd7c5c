import Urheilulaatikko.Server.EndToEnd

/-!
# Every request is answered

A request takes at most thirteen steps in the whole server (`ranked`), and as long as one is on its
way somebody can move by itself (`exists_step`): a request waits for nobody but for the leader of
its `introspect`, and that one is never stuck. So every request that its client does not give up can
be brought to an answer, and a server in which nothing more happens by itself has answered
everybody.
-/

namespace Urheilulaatikko.Server.Routes

open Auth

/-! ## Handlers

A handler waits for nothing but its statement, and goes on whether that fails or not. -/

/-- A handler that is at work has a next step, whatever it meets there. -/
theorem exists_requestPin (app : AppState) (user : AuthenticatedUser) (db : Database)
    (input : Input) {stage : RequestPin} (h : (Handler.requestPin user stage).running = true) :
    ∃ db' stage', requestPin app user db input stage = some (db', stage') := by
  cases stage with
  | called =>
      simp only [requestPin]
      split
      · exact ⟨_, _, rfl⟩
      · exact ⟨_, _, rfl⟩
      · split <;> exact ⟨_, _, rfl⟩
  | denying => exact ⟨_, _, rfl⟩
  | touching secret generated =>
      simp only [requestPin]
      split <;> exact ⟨_, _, rfl⟩
  | issuing generated => exact ⟨_, _, rfl⟩
  | answered answer => cases h

theorem exists_provision (app : AppState) (admin : AuthenticatedUser) (payload : ProvisionRequest)
    (db : Database) (input : Input) {stage : Provision}
    (h : (Handler.provision admin payload stage).running = true) :
    ∃ db' stage', provision app admin payload db input stage = some (db', stage') := by
  cases stage with
  | called =>
      simp only [provision]
      split
      · exact ⟨_, _, rfl⟩
      · split
        · exact ⟨_, _, rfl⟩
        · split
          · exact ⟨_, _, rfl⟩
          · split <;> exact ⟨_, _, rfl⟩
  | upserting subject provisioned encryptedSecret nonce =>
      simp only [provision]
      split <;> exact ⟨_, _, rfl⟩
  | recording subject provisioned => exact ⟨_, _, rfl⟩
  | answered answer => cases h

end Urheilulaatikko.Server.Routes

namespace Urheilulaatikko.Server.Router

open Auth RateLimit

variable {app : Routes.AppState}

/-! ## Requests

The same for a request in the layers, with the number of steps that are left to it at most. -/

/-- How many steps a request can still take outside `introspect`. -/
def Stage.rank : Stage → Nat
  | .arrived                                        => 7
  | .authenticating _                               => 6
  | .limiting                                       => 5
  | .handling (.requestPin _ .called)               => 4
  | .handling (.requestPin _ (.touching _ _))       => 3
  | .handling (.provision _ _ .called)              => 4
  | .handling (.provision _ _ (.upserting _ _ _ _)) => 3
  | .handling _                                     => 2
  | .denying _                                      => 1
  | .auditing _                                     => 1
  | .answered _                                     => 0
  | .dropped                                        => 0

/-- A number that no request has is good for one more. -/
def rank : Option Request → Nat
  | none   => 8
  | some r => r.stage.rank

theorem Request.rank_respond (r : Request) (response : Response) :
    (r.respond response).stage.rank ≤ 1 := by
  unfold Request.respond
  split <;> simp [Stage.rank]

theorem Request.rank_requestPin {r : Request} {user : AuthenticatedUser} {db db' : Database}
    {input : Routes.Input} {stage stage' : Routes.RequestPin}
    (hmove : Routes.RequestPin.Move app user db input stage db' stage') :
    (r.requestPin user stage').stage.rank < (Stage.handling (.requestPin user stage)).rank := by
  cases hmove with
  | missing | generated | touched => simp [Request.requestPin, Stage.rank]
  | unread | unusable | denied | untouched | issued =>
      refine Nat.lt_of_le_of_lt (r.rank_respond _) ?_
      simp [Stage.rank]

theorem Request.rank_provision {r : Request} {admin : AuthenticatedUser}
    {payload : Routes.ProvisionRequest} {db db' : Database} {input : Routes.Input}
    {stage stage' : Routes.Provision}
    (hmove : Routes.Provision.Move app admin payload db input stage db' stage') :
    (r.provision admin payload stage').stage.rank <
      (Stage.handling (.provision admin payload stage)).rank := by
  cases hmove with
  | prepared | committed => simp [Request.provision, Stage.rank]
  | refused | rejected | recorded =>
      refine Nat.lt_of_le_of_lt (r.rank_respond _) ?_
      simp [Stage.rank]

theorem Request.rank_advance {db db' : Database} {input : Input} {r r' : Request}
    (hadvance : r.advance app db input = some (db', r')) : r'.stage.rank < r.stage.rank := by
  cases Request.move_of_advance hadvance with
  | requestPin hstage hmove =>
      rw [hstage]
      exact Request.rank_requestPin hmove
  | provision hstage hmove =>
      rw [hstage]
      exact Request.rank_provision hmove
  | unreadable hstage | readable hstage | accepted hstage | rejected hstage | unavailable hstage
  | denied hstage | unkeyed hstage | refused hstage | called hstage | calledProvision hstage
  | unreadableBody hstage | audited hstage =>
      rw [hstage]
      simp [Stage.rank]

/-- A request that is not over has a next step, whatever it meets there. -/
theorem Request.exists_advance (app : Routes.AppState) {r : Request}
    (hopen : r.stage.over = false)
    (hrunning : ∀ h, r.stage = .handling h → h.running = true) (db : Database) (input : Input) :
    ∃ db' r', r.advance app db input = some (db', r') := by
  unfold Request.advance
  cases hstage : r.stage with
  | arrived =>
      dsimp only
      split <;> exact ⟨_, _, rfl⟩
  | authenticating token =>
      dsimp only
      split
      · exact ⟨_, _, rfl⟩
      · split <;> exact ⟨_, _, rfl⟩
  | denying e => exact ⟨_, _, rfl⟩
  | auditing response => exact ⟨_, _, rfl⟩
  | limiting =>
      dsimp only
      split
      · split <;> exact ⟨_, _, rfl⟩
      · exact ⟨_, _, rfl⟩
  | handling handler =>
      have hrun := hrunning handler hstage
      cases handler with
      | requestPin user stage =>
          obtain ⟨db', stage', hmove⟩ := Routes.exists_requestPin app user db input.toInput hrun
          exact ⟨db', r.requestPin user stage', by simp [hmove]⟩
      | provision admin payload stage =>
          obtain ⟨db', stage', hmove⟩ :=
            Routes.exists_provision app admin payload db input.toInput hrun
          exact ⟨db', r.provision admin payload stage', by simp [hmove]⟩
      | dropped => cases hrun
  | answered _ | dropped =>
      rw [hstage] at hopen
      cases hopen

end Urheilulaatikko.Server.Router

namespace Urheilulaatikko.Server.System

open Auth RateLimit Trace

variable {sha256 : String → SingleFlight.Key} {d : Deployment} {s s' : State} {es : List Event}

/-- The request that moves. -/
def Event.request : Event → Nat
  | .arrive id .. | .advance id .. | .cancel id | .abandon id _ => id
  | .introspect e => e.request

/-- What happens by itself: no new request, and no client that goes away. -/
def Event.internal : Event → Bool
  | .introspect _ | .advance ..           => true
  | .arrive .. | .cancel _ | .abandon _ _ => false

/-! ## Every step brings its request closer to the end

A request has a rank, the sum of what is left to do in the router and in `introspect`. Its own steps
lower it, also a cancellation, and the steps of the others leave it alone. -/

/-- How many steps a request can still take. -/
def rank (id : Nat) (s : State) : Nat :=
  Router.rank (s.router.requests id) + (s.flight.requests id).pc.rank

theorem rank_pos_of_open {r : Router.Request} (h : r.stage.over = false) : 0 < r.stage.rank := by
  cases hstage : r.stage with
  | handling handler =>
      cases handler with
      | requestPin user stage => cases stage <;> simp [Router.Stage.rank]
      | provision admin payload stage => cases stage <;> simp [Router.Stage.rank]
      | dropped => simp [Router.Stage.rank]
  | answered _ | dropped =>
      rw [hstage] at h
      cases h
  | _ => simp [Router.Stage.rank]

/-- What a cancellation does to the two halves of a request. -/
theorem cancel_cases {id : Nat} (hstep : step sha256 d s (.cancel id) = some s') :
    ∃ r, s.router.requests id = some r ∧ r.stage.over = false ∧
      s'.router = s.router.setRequest id { r with stage := .dropped } ∧
      (s'.flight = s.flight ∨
        ∃ e, e.request = id ∧ SingleFlight.Move d.introspection sha256 s.flight e s'.flight) := by
  obtain ⟨-, router, flight, hrouter, hflight, rfl⟩ := step_eq_some_iff.mp hstep
  simp only [routerEvent, Option.toList_some, run_singleton] at hrouter
  cases Router.moves_of_step hrouter with
  | @cancel _ r hold hopen =>
      refine ⟨r, hold, hopen, rfl, ?_⟩
      simp only [flightEvent, State.stage?, hold, Option.map_some] at hflight
      split at hflight
      · simp only [Option.toList_some, run_singleton] at hflight
        exact .inr ⟨.cancel id, rfl, SingleFlight.move_of_step hflight⟩
      · cases hflight
        exact .inl rfl

/-- A client that goes away while its request is put on record is not in `introspect`. -/
theorem abandon_cases {id : Nat} {input : Routes.Input}
    (hstep : step sha256 d s (.abandon id input) = some s') :
    ∃ r db, s.router.requests id = some r ∧ r.stage.over = false ∧
      s'.router = { s.router with db }.setRequest id { r with stage := .dropped } ∧
      s'.flight = s.flight := by
  obtain ⟨-, router, flight, hrouter, hflight, rfl⟩ := step_eq_some_iff.mp hstep
  cases hflight
  simp only [routerEvent, Option.toList_some, run_singleton] at hrouter
  cases Router.moves_of_step hrouter with
  | @abandon _ _ r subject result db hold hrow =>
      exact ⟨r, db, hold, Router.Request.over_of_row? hrow, rfl, rfl⟩

theorem rank_lower {e : Event} (hstep : step sha256 d s e = some s') :
    rank e.request s' < rank e.request s := by
  cases e with
  | arrive id route time authorization body =>
      obtain ⟨-, router, flight, hrouter, hflight, rfl⟩ := step_eq_some_iff.mp hstep
      cases hflight
      simp only [routerEvent, Option.toList_some, run_singleton] at hrouter
      cases Router.moves_of_step hrouter with
      | arrive hnew => simp [rank, Event.request, hnew, Router.rank, Router.Stage.rank]
  | introspect e =>
      obtain ⟨-, router, flight, hrouter, hflight, rfl⟩ := step_eq_some_iff.mp hstep
      cases hrouter
      simp only [flightEvent, Option.toList_some, run_singleton] at hflight
      have hlt := (SingleFlight.move_of_step hflight).rank_lt
      exact Nat.add_lt_add_left hlt _
  | advance id input clock =>
      obtain ⟨-, router, flight, hrouter, hflight, rfl⟩ := step_eq_some_iff.mp hstep
      cases hflight
      simp only [routerEvent, Option.toList_some, run_singleton] at hrouter
      cases Router.moves_of_step hrouter with
      | advance hold hadvance =>
          have hlt := Router.Request.rank_advance hadvance
          simpa [rank, Event.request, hold, Router.rank] using hlt
  | cancel id =>
      obtain ⟨r, hold, hopen, hrouter, hflight⟩ := cancel_cases hstep
      have hpos := rank_pos_of_open hopen
      have hle : (s'.flight.requests id).pc.rank ≤ (s.flight.requests id).pc.rank := by
        obtain hsame | ⟨e, rfl, hmove⟩ := hflight
        · rw [hsame]
        · exact Nat.le_of_lt hmove.rank_lt
      have hdropped : Router.Stage.rank .dropped = 0 := rfl
      simp only [rank, Event.request, hrouter, hold, Router.State.requests_setRequest,
        Function.update_self, Router.rank, hdropped]
      omega
  | abandon id input =>
      obtain ⟨r, db, hold, hopen, hrouter, hflight⟩ := abandon_cases hstep
      have hpos := rank_pos_of_open hopen
      have hdropped : Router.Stage.rank .dropped = 0 := rfl
      simp only [rank, Event.request, hrouter, hflight, hold, Router.State.requests_setRequest,
        Function.update_self, Router.rank, hdropped]
      omega

/-- The other requests are left alone, in the router and in the in-flight map. -/
theorem requests_other {e : Event} (hstep : step sha256 d s e = some s') {id : Nat}
    (hid : id ≠ e.request) :
    s'.router.requests id = s.router.requests id ∧
      s'.flight.requests id = s.flight.requests id := by
  cases e with
  | arrive other route time authorization body =>
      obtain ⟨-, router, flight, hrouter, hflight, rfl⟩ := step_eq_some_iff.mp hstep
      cases hflight
      simp only [routerEvent, Option.toList_some, run_singleton] at hrouter
      cases Router.moves_of_step hrouter with
      | arrive hnew => exact ⟨Function.update_of_ne hid .., rfl⟩
  | introspect e =>
      obtain ⟨-, router, flight, hrouter, hflight, rfl⟩ := step_eq_some_iff.mp hstep
      cases hrouter
      simp only [flightEvent, Option.toList_some, run_singleton] at hflight
      exact ⟨rfl, (SingleFlight.move_of_step hflight).requests_ne hid⟩
  | advance other input clock =>
      obtain ⟨-, router, flight, hrouter, hflight, rfl⟩ := step_eq_some_iff.mp hstep
      cases hflight
      simp only [routerEvent, Option.toList_some, run_singleton] at hrouter
      cases Router.moves_of_step hrouter with
      | advance hold hadvance => exact ⟨Function.update_of_ne hid .., rfl⟩
  | cancel other =>
      obtain ⟨r, -, -, hrouter, hflight⟩ := cancel_cases hstep
      constructor
      · rw [hrouter]
        exact Function.update_of_ne hid ..
      · obtain hsame | ⟨e, rfl, hmove⟩ := hflight
        · rw [hsame]
        · exact hmove.requests_ne hid
  | abandon other input =>
      obtain ⟨r, db, -, -, hrouter, hflight⟩ := abandon_cases hstep
      rw [hrouter, hflight]
      exact ⟨Function.update_of_ne hid .., rfl⟩

variable (sha256 d) in
theorem ranked : Ranked (step sha256 d) Event.request rank where
  lower hstep := rank_lower hstep
  other hstep hne := by
    obtain ⟨hrouter, hflight⟩ := requests_other hstep hne
    rw [rank, rank, hrouter, hflight]

/-! ## Somebody can always move

A request that is not done can take a step, or waits in `introspect` for one that can. This needs
the links between the parts: a request in `authenticating` whose introspection was given up would be
stuck, and there is none. -/

variable (sha256) in
/-- What keeps a server going: its introspections are in order, none of them is given up while its
request goes on, and every handler in front of which a request stands is at work. -/
structure Alive (s : State) : Prop where
  links    : Links s
  inflight : SingleFlight.Inv sha256 s.flight
  kept     : ∀ id r, s.router.requests id = some r → r.stage ≠ .dropped →
    (s.flight.requests id).pc.abandoned = false
  running  : ∃ t, Router.Refines s.router t

theorem Alive.init (d : Deployment) : Alive sha256 d.init := by
  refine ⟨Links.init d, SingleFlight.Inv.init, ?_, Routes.State.init, Router.Refines.init⟩
  intro id r hold
  cases hold

/-- Only a cancellation gives an introspection up. -/
theorem abandoned_of_move {fs fs' : SingleFlight.State} {e : SingleFlight.Event}
    (hmove : SingleFlight.Move d.introspection sha256 fs e fs') (he : ∀ i, e ≠ .cancel i) {id : Nat}
    (hid : (fs.requests id).pc.abandoned = false) : (fs'.requests id).pc.abandoned = false := by
  by_cases hinternal : e.internal = true
  · exact hmove.abandoned hinternal hid
  · cases hmove with
    | @lead i token hpc hentry =>
        by_cases heq : id = i
        · rw [heq, SingleFlight.State.requests_lead_self]
          rfl
        · rwa [SingleFlight.State.requests_lead_ne _ _ _ heq]
    | @follow i token tx hpc hentry =>
        by_cases heq : id = i
        · rw [heq, SingleFlight.State.requests_follow_self]
          rfl
        · rwa [SingleFlight.State.requests_follow_ne _ _ _ heq]
    | cancelLeader | cancelOther => exact absurd rfl (he _)
    | _ => exact absurd rfl hinternal

theorem Alive.kept_step (h : Alive sha256 s) {e : Event} (hstep : step sha256 d s e = some s')
    {id : Nat} {r : Router.Request} (hold : s'.router.requests id = some r)
    (hdropped : r.stage ≠ .dropped) : (s'.flight.requests id).pc.abandoned = false := by
  by_cases hid : id = e.request
  · subst hid
    cases e with
    | arrive id route time authorization body =>
        obtain ⟨-, router, flight, hrouter, hflight, rfl⟩ := step_eq_some_iff.mp hstep
        cases hflight
        simp only [routerEvent, Option.toList_some, run_singleton] at hrouter
        cases Router.moves_of_step hrouter with
        | arrive hnew =>
            have hlink := h.links id
            rw [hnew] at hlink
            have hpc : (s.flight.requests id).pc = .notStarted := hlink
            simp only [Event.request, hpc]
            rfl
    | introspect e =>
        obtain ⟨hagree, router, flight, hrouter, hflight, rfl⟩ := step_eq_some_iff.mp hstep
        cases hrouter
        simp only [flightEvent, Option.toList_some, run_singleton] at hflight
        apply abandoned_of_move (SingleFlight.move_of_step hflight) _ (h.kept _ r hold hdropped)
        rintro i rfl
        cases hagree
    | advance id input clock =>
        obtain ⟨-, router, flight, hrouter, hflight, rfl⟩ := step_eq_some_iff.mp hstep
        cases hflight
        simp only [routerEvent, Option.toList_some, run_singleton] at hrouter
        cases Router.moves_of_step hrouter with
        | advance hold' hadvance =>
            refine h.kept id _ hold' ?_
            intro hstage
            simp [Router.Request.advance, hstage] at hadvance
    | cancel id =>
        obtain ⟨r', -, -, hrouter, -⟩ := cancel_cases hstep
        rw [hrouter, Event.request, Router.State.requests_setRequest, Function.update_self,
          Option.some.injEq] at hold
        rw [← hold] at hdropped
        exact absurd rfl hdropped
    | abandon id input =>
        obtain ⟨r', db, -, -, hrouter, -⟩ := abandon_cases hstep
        rw [hrouter, Event.request, Router.State.requests_setRequest, Function.update_self,
          Option.some.injEq] at hold
        rw [← hold] at hdropped
        exact absurd rfl hdropped
  · obtain ⟨hrouter, hflight⟩ := requests_other hstep hid
    rw [hrouter] at hold
    rw [hflight]
    exact h.kept id r hold hdropped

theorem Alive.step (h : Alive sha256 s) {e : Event} (hstep : step sha256 d s e = some s') :
    Alive sha256 s' := by
  obtain ⟨flight, hflight, hsame⟩ := (introspections sha256 d).next (t := s.flight) rfl hstep
  obtain ⟨router, hrouter, hsame'⟩ := (stack sha256 d).next (t := s.router) rfl hstep
  refine ⟨h.links.step hstep, ?_, fun id r hold hdropped => h.kept_step hstep hold hdropped, ?_⟩
  · have hsame : s'.flight = flight := hsame
    rw [hsame]
    exact run_invariant (fun _ _ _ hinv hmove => hinv.move (SingleFlight.move_of_step hmove))
      h.inflight hflight
  · obtain ⟨t, ht⟩ := h.running
    have hsame' : s'.router = router := hsame'
    rw [hsame']
    obtain ⟨t', -, ht'⟩ := (Router.refinement d.app).run_eq_some ht hrouter
    exact ⟨t', ht'⟩

/-- There is nothing left to do for request `id`. -/
def Done (id : Nat) (s : State) : Prop :=
  (∀ r, s.router.requests id = some r → r.stage.over = true) ∧
    (s.flight.requests id).pc.idle = true

/-- A request outside `introspect` can move if the parts agree. -/
theorem Alive.exists_advance (h : Alive sha256 s) (d : Deployment) {id : Nat} {r : Router.Request}
    (hold : s.router.requests id = some r) (hopen : r.stage.over = false) {input : Routes.Input}
    {clock : Nat} (hagree : agree s (.advance id input clock) = true) :
    ∃ s', System.step sha256 d s (.advance id input clock) = some s' := by
  have hrunning : ∀ handler, r.stage = .handling handler → handler.running = true := by
    intro handler hstage
    obtain ⟨t, ht⟩ := h.running
    have hbehind := ht.behind id
    simp only [hold, Router.Behind, Router.Request.Behind, hstage] at hbehind
    exact hbehind.2.1
  obtain ⟨db', r', hadvance⟩ := Router.Request.exists_advance d.app hopen hrunning
    s.router.db { toInput := input
                  outcome := (s.outcome? id).getD .inactive
                  allowed := s.allows d id clock }
  refine ⟨_, step_eq_some_iff.mpr ⟨hagree, { s.router with db := db' }.setRequest id r', s.flight,
    ?_, rfl, rfl⟩⟩
  simp [routerEvent, run_singleton, Router.step, hold, hadvance]

/-- A step inside `introspect`, if the parts agree. -/
theorem exists_introspect (d : Deployment) {e : SingleFlight.Event} {fs : SingleFlight.State}
    (hagree : agree s (.introspect e) = true)
    (hflight : SingleFlight.step d.introspection sha256 s.flight e = some fs) :
    ∃ s', step sha256 d s (.introspect e) = some s' :=
  ⟨_, step_eq_some_iff.mpr ⟨hagree, s.router, fs, rfl, by
    simpa [flightEvent, run_singleton] using hflight, rfl⟩⟩

theorem Alive.exists_step (h : Alive sha256 s) (d : Deployment) {id : Nat} (hopen : ¬ Done id s) :
    ∃ e s', e.internal = true ∧ ¬ Done e.request s ∧ System.step sha256 d s e = some s' := by
  cases hidle : (s.flight.requests id).pc.idle with
  | false =>
      -- in `introspect`: it can move, or its leader can
      obtain ⟨e, fs, he, hbusy, hflight⟩ := h.inflight.exists_step d.introspection hidle
      have hagree : agree s (.introspect e) = true := by
        cases e with
        | lock | cancel => cases he
        | _ => rfl
      obtain ⟨s', hstep⟩ := exists_introspect d hagree hflight
      refine ⟨.introspect e, s', rfl, ?_, hstep⟩
      rintro ⟨-, hdone⟩
      rw [Event.request, hbusy] at hdone
      cases hdone
  | true =>
      have hrequest : ∃ r, s.router.requests id = some r ∧ r.stage.over = false := by
        by_contra hnone
        apply hopen
        refine ⟨?_, hidle⟩
        intro r hold
        by_contra hover
        exact hnone ⟨r, hold, by simpa using hover⟩
      obtain ⟨r, hold, hover⟩ := hrequest
      by_cases hlock : ∃ token, r.stage = .authenticating token ∧
          (s.flight.requests id).pc = .notStarted
      · -- about to call `introspect`
        obtain ⟨token, hstage, hpc⟩ := hlock
        have hagree : agree s (.introspect (.lock id token)) = true := by
          simp [agree, State.stage?, hold, hstage]
        have hflight : ∃ fs, SingleFlight.step d.introspection sha256 s.flight (.lock id token) =
            some fs := by
          simp only [SingleFlight.step, hpc]
          split <;> exact ⟨_, rfl⟩
        obtain ⟨fs, hflight⟩ := hflight
        obtain ⟨s', hstep⟩ := exists_introspect d hagree hflight
        exact ⟨.introspect (.lock id token), s', rfl, hopen, hstep⟩
      · have hagree : agree s (.advance id (Routes.smooth 0 []) s.clock) = true := by
          simp only [agree, State.stage?, hold, Option.map_some]
          split
          · next token hstage =>
              have hstage := Option.some.inj hstage
              -- not about to begin and not given up: `introspect` has returned
              have hkept := h.kept id r hold (by simp [hstage])
              cases hpc : (s.flight.requests id).pc with
              | returned outcome => simp [State.outcome?, hpc]
              | notStarted => exact absurd ⟨token, hstage, hpc⟩ hlock
              | cancelled =>
                  rw [hpc] at hkept
                  cases hkept
              | _ =>
                  rw [hpc] at hidle
                  cases hidle
          · simp
          · rfl
        obtain ⟨s', hstep⟩ := h.exists_advance d hold hover hagree
        exact ⟨.advance id (Routes.smooth 0 []) s.clock, s', rfl, hopen, hstep⟩

/-! ## Together

Rank and progress give the end of every request, and the steps that lead there cancel nobody, so the
end is an answer. -/

/-- What goes on by itself drops no request. -/
theorem kept_of_internal {e : Event} (he : e.internal = true)
    (hstep : step sha256 d s e = some s') {id : Nat} {r : Router.Request}
    (hold : s.router.requests id = some r) (hkept : r.stage ≠ .dropped) :
    ∃ r', s'.router.requests id = some r' ∧ r'.stage ≠ .dropped := by
  by_cases hid : id = e.request
  · subst hid
    cases e with
    | arrive | cancel | abandon => cases he
    | introspect e =>
        obtain ⟨-, router, flight, hrouter, -, rfl⟩ := step_eq_some_iff.mp hstep
        cases hrouter
        exact ⟨r, hold, hkept⟩
    | advance id input clock =>
        obtain ⟨-, router, flight, hrouter, -, rfl⟩ := step_eq_some_iff.mp hstep
        simp only [routerEvent, Option.toList_some, run_singleton] at hrouter
        cases Router.moves_of_step hrouter with
        | @advance _ _ _ r' db hold' hadvance =>
            refine ⟨r', Function.update_self .., ?_⟩
            -- `advance` leads to every stage but this one
            have hstage : ∀ (r : Router.Request) response, (r.respond response).stage ≠ .dropped := by
              intro r response
              unfold Router.Request.respond
              split <;> simp
            cases Router.Request.move_of_advance hadvance with
            | @requestPin user stage stage' =>
                unfold Router.Request.requestPin
                split
                · exact hstage _ _
                · exact hstage _ _
                · simp
            | @provision admin payload stage stage' =>
                unfold Router.Request.provision
                split
                · exact hstage _ _
                · exact hstage _ _
                · simp
            | _ => simp
  · rw [(requests_other hstep hid).1]
    exact ⟨r, hold, hkept⟩

theorem kept_of_run (hes : ∀ e ∈ es, e.internal = true) (hrun : run (step sha256 d) s es = some s')
    {id : Nat} {r : Router.Request} (hold : s.router.requests id = some r)
    (hkept : r.stage ≠ .dropped) :
    ∃ r', s'.router.requests id = some r' ∧ r'.stage ≠ .dropped := by
  induction es generalizing s r with
  | nil =>
      cases hrun
      exact ⟨r, hold, hkept⟩
  | cons e es ih =>
      obtain ⟨t, hstep, hrest⟩ := run_cons_eq_some.mp hrun
      obtain ⟨r', hold', hkept'⟩ := kept_of_internal (hes e List.mem_cons_self) hstep hold hkept
      exact ih (fun e' he' => hes e' (List.mem_cons_of_mem e he')) hrest hold' hkept'

theorem mem_of_open (hrun : run (step sha256 d) d.init es = some s) {id : Nat}
    (hid : ¬ Done id s) : id ∈ es.map Event.request := by
  refine run_induction (P := fun es s => ∀ id, ¬ Done id s → id ∈ es.map Event.request) ?_ ?_
    hrun id hid
  · intro id hopen
    have hdone : Done id d.init := by
      refine ⟨?_, rfl⟩
      intro r hold
      cases hold
    exact absurd hdone hopen
  · intro es s e s' _ ih hstep id hopen
    rw [List.map_append, List.mem_append]
    by_cases heq : id = e.request
    · exact .inr (by simp [heq])
    · obtain ⟨hrouter, hflight⟩ := requests_other hstep heq
      refine .inl (ih id ?_)
      rwa [Done, hrouter, hflight] at hopen

/-- **Every request is answered.** In every run of the server: a request takes at most thirteen
steps; if nothing happens by itself any more, every request has been answered or given up by its
client; and from every state reached, steps that happen by themselves lead to a state in which every
request that has not been given up is answered. -/
theorem server_answers (hrun : run (step sha256 d) d.init es = some s) :
    (∀ id, es.countP (·.request = id) ≤ 13) ∧
    ((∀ e, e.internal = true → step sha256 d s e = none) →
      ∀ id r, s.router.requests id = some r → r.stage.over = true) ∧
    ∃ es' s', (∀ e ∈ es', e.internal = true) ∧ run (step sha256 d) s es' = some s' ∧
      ∀ id r, s.router.requests id = some r → r.stage ≠ .dropped →
        ∃ r' response, s'.router.requests id = some r' ∧ r'.stage = .answered response := by
  have halive : Alive sha256 s :=
    run_invariant (fun _ _ _ h hstep => h.step hstep) (Alive.init d) hrun
  refine ⟨?_, ?_, ?_⟩
  · intro id
    have hle := (ranked sha256 d).count_add_rank_le hrun id
    have hthirteen : rank id d.init = 13 := rfl
    omega
  · intro hstuck id r hold
    by_contra hover
    have hopen : ¬ Done id s := fun hdone => hover (hdone.1 r hold)
    obtain ⟨e, s', he, -, hstep⟩ := halive.exists_step d hopen
    rw [hstuck e he] at hstep
    cases hstep
  · obtain ⟨es', s', hes, hrun', -, hdone⟩ := (ranked sha256 d).exists_completion
      (Alive sha256) Done (fun e => e.internal = true)
      (fun h hstep => h.step hstep)
      (fun hstep hne => by
        obtain ⟨hrouter, hflight⟩ := requests_other hstep hne
        rw [Done, Done, hrouter, hflight])
      (fun h hopen => by
        obtain ⟨id, hid⟩ := hopen
        exact h.exists_step d hid)
      halive (es.map Event.request) (fun id hid => mem_of_open hrun hid)
    refine ⟨es', s', hes, hrun', ?_⟩
    intro id r hold hkept
    obtain ⟨r', hold', hkept'⟩ := kept_of_run hes hrun' hold hkept
    have hover := (hdone id).1 r' hold'
    cases hstage : r'.stage with
    | answered response => exact ⟨r', response, hold', hstage⟩
    | dropped => exact absurd hstage hkept'
    | _ =>
        rw [hstage] at hover
        cases hover

/-- Two requests with the same token; the client of the one that asks Keycloak goes away. -/
def leaderGone : List Event :=
  [Event.arrive 0 .request 0 (bearer "same.token") (.error .unknownBody),
   Event.advance 0 (Routes.smooth 59 []) 0,
   Event.introspect (.lock 0 "same.token"),
   Event.arrive 1 .request 0 (bearer "same.token") (.error .unknownBody),
   Event.advance 1 (Routes.smooth 59 []) 0,
   Event.introspect (.lock 1 "same.token"),
   Event.cancel 0]

/-- The other one can still be answered. -/
theorem server_answers_leaderGone :
    ∃ s, run (step SingleFlight.testSha256 demo) demo.init leaderGone = some s ∧
      ∃ es s', (∀ e ∈ es, e.internal = true) ∧
        run (step SingleFlight.testSha256 demo) s es = some s' ∧
        ∃ r response, s'.router.requests 1 = some r ∧ r.stage = .answered response := by
  have hopen : (run (step SingleFlight.testSha256 demo) demo.init leaderGone).bind
      (fun s => (s.router.requests 1).map (·.stage.over)) = some false := by
    decide +kernel
  obtain ⟨s, hrun, hopen⟩ := Option.bind_eq_some_iff.mp hopen
  obtain ⟨r, hold, hopen⟩ := Option.map_eq_some_iff.mp hopen
  obtain ⟨-, -, es, s', hes, hrun', hanswered⟩ := server_answers hrun
  refine ⟨s, hrun, es, s', hes, hrun', hanswered 1 r hold ?_⟩
  intro hstage
  rw [hstage] at hopen
  cases hopen

end Urheilulaatikko.Server.System
