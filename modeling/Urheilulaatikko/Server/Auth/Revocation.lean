import Urheilulaatikko.Server.Auth.Provenance

/-!
# Revocation and the requests that share a call

Introspection is used "so that a token revoked in Keycloak stops working immediately", and the map
is meant to keep it that way: "nothing outlives the request it piggybacks on, so revocation still
takes effect on the very next request". Here Keycloak joins the model. It evaluates a call at some
instant between the call's start and its answer, and answers `active: true` only if the token was
not revoked at that instant; a revocation may fall between any two steps.

A request that starts after the revocation and makes its own call is always refused, and so is one
that follows a leader whose call Keycloak has yet to evaluate. But a leader may be carrying an
evaluation from before the revocation, and whoever joins it then is let through
(`revoked_token_accepted`). `revoked_never_ok_iff` shows that this is exactly the failing case.
-/

namespace Urheilulaatikko.Server.Auth.SingleFlight

open Broadcast Trace

/-! ## Keycloak

Keycloak evaluates a call at one instant, when it looks whether the token is revoked. A body with
`active: true` can only be the answer to a call that was evaluated in time; errors and refusals may
come at any time. The server takes its steps as before. -/

structure Keycloak where
  revoked   : String → Bool
  /-- For a call that Keycloak has evaluated: was its token unrevoked at that instant? -/
  evaluated : RequestId → Option Bool

structure World where
  server   : State
  keycloak : Keycloak

namespace World

inductive Event where
  | server (e : SingleFlight.Event)
  /-- Keycloak evaluates the call that request `i` has in flight. -/
  | evaluate (i : RequestId)
  | revoke (token : String)

/-- The server's own events, in order. -/
def serverEvents (events : List Event) : List SingleFlight.Event :=
  events.filterMap fun
    | .server e => some e
    | _ => none

def init : World where
  server   := SingleFlight.init
  keycloak := { revoked := fun _ => false, evaluated := fun _ => none }

/-- Keycloak answers `active: true` only to a call it evaluated while the token was unrevoked.
Errors and refusals it may send at any time. -/
def Keycloak.permits (kc : Keycloak) : SingleFlight.Event → Bool
  | .jsonResult i (.ok body) _ => !body.active || kc.evaluated i == some true
  | _ => true

variable (client : IntrospectionClient) (sha256 : String → Key)

def step (w : World) : Event → Option World
  | .server e =>
      if Keycloak.permits w.keycloak e then
        (SingleFlight.step client sha256 w.server e).map fun server => { w with server }
      else none
  | .evaluate i =>
      match (w.server.requests i).pc, w.keycloak.evaluated i with
      | .calling _ _, none =>
          let unrevoked := !w.keycloak.revoked (w.server.requests i).token
          some { w with keycloak :=
            { w.keycloak with
              evaluated := Function.update w.keycloak.evaluated i (some unrevoked) } }
      | _, _ => none
  | .revoke token =>
      some { w with keycloak :=
        { w.keycloak with revoked := Function.update w.keycloak.revoked token true } }

/-- The three ways the world moves. -/
inductive Move (w : World) : Event → World → Prop
  | server {e server} (hpermits : Keycloak.permits w.keycloak e = true)
      (hmove : SingleFlight.Move client sha256 w.server e server) :
      Move w (.server e) { w with server }
  | evaluate {i role pc} (hpc : (w.server.requests i).pc = .calling role pc)
      (hnew : w.keycloak.evaluated i = none) :
      Move w (.evaluate i) { w with keycloak := { w.keycloak with
        evaluated := Function.update w.keycloak.evaluated i
          (some !w.keycloak.revoked (w.server.requests i).token) } }
  | revoke {token} :
      Move w (.revoke token) { w with keycloak := { w.keycloak with
        revoked := Function.update w.keycloak.revoked token true } }

variable {client sha256}

theorem move_of_step {w w' : World} {e : Event} (h : step client sha256 w e = some w') :
    Move client sha256 w e w' := by
  cases e with
  | server e =>
      simp only [step] at h
      split at h
      · next hpermits =>
          obtain ⟨server, hstep, rfl⟩ := Option.map_eq_some_iff.mp h
          exact .server hpermits (SingleFlight.move_of_step hstep)
      · cases h
  | evaluate i =>
      simp only [step] at h
      split at h
      · next role pc hpc hnew => cases h; exact .evaluate hpc hnew
      · cases h
  | revoke token =>
      cases h
      exact .revoke

/-- With Keycloak forgotten, a run of the world is a run of the server. -/
theorem run_server {events : List Event} {w : World}
    (h : run (step client sha256) init events = some w) :
    run (SingleFlight.step client sha256) SingleFlight.init (serverEvents events) =
      some w.server := by
  refine run_induction (P := fun es w =>
    run (SingleFlight.step client sha256) SingleFlight.init (serverEvents es) = some w.server)
    rfl ?_ h
  intro es w e w' _ ih hstep
  cases e with
  | server e =>
      have hsnoc : serverEvents (es ++ [.server e]) = serverEvents es ++ [e] := by
        simp [serverEvents]
      simp only [step] at hstep
      split at hstep
      · obtain ⟨server, hserver, rfl⟩ := Option.map_eq_some_iff.mp hstep
        rw [hsnoc]
        exact run_snoc_eq_some.mpr ⟨w.server, ih, hserver⟩
      · cases hstep
  | evaluate i =>
      have hsnoc : serverEvents (es ++ [.evaluate i]) = serverEvents es := by simp [serverEvents]
      rw [hsnoc]
      cases move_of_step hstep with
      | evaluate => exact ih
  | revoke token =>
      have hsnoc : serverEvents (es ++ [.revoke token]) = serverEvents es := by
        simp [serverEvents]
      rw [hsnoc]
      cases move_of_step hstep with
      | revoke => exact ih

/-! ## Every acceptance was evaluated

An active outcome is on its way in two forms, with a leader and on a channel. Both go back to an
evaluation. -/

/-- An acceptance on its way to the followers was evaluated by Keycloak for the leader that carries
it; a request that has made no call has no evaluation. -/
structure Evaluated (w : World) : Prop where
  fresh : ∀ i, ((w.server.requests i).pc = .notStarted ∨
    ∃ tx rx, (w.server.requests i).pc = .waiting tx rx) → w.keycloak.evaluated i = none
  own   : ∀ i user, ((w.server.requests i).pc = .publishing (.active user) ∨
    (w.server.requests i).pc = .droppingGuard (.active user)) →
    w.keycloak.evaluated i = some true
  sent  : ∀ tx user, .active user ∈ (w.server.channels tx).sent →
    w.keycloak.evaluated tx = some true

theorem Evaluated.init : Evaluated init where
  fresh _ _ := rfl
  own i user h := by rcases h with h | h <;> cases h
  sent tx user h := by cases h

/-- A body that Keycloak is permitted to send makes `call` accept only an evaluated call. -/
theorem evaluated_of_body {w : World} {i : RequestId} {r : Except String IntrospectionResponse}
    {now : Int} {user : AuthenticatedUser}
    (hpermits : Keycloak.permits w.keycloak (.jsonResult i r now) = true)
    (h : client.callAfterJson now r = .active user) : w.keycloak.evaluated i = some true := by
  obtain ⟨body, rfl, hgrants⟩ := callAfterJson_eq_active h
  simpa [Keycloak.permits, hgrants.active] using hpermits

/-- A leader arrives at `publishing` or `droppingGuard` with an acceptance only if its call was
evaluated. -/
theorem Evaluated.own_server {w : World} {e : SingleFlight.Event} {server : State}
    (h : Evaluated w) (hpermits : Keycloak.permits w.keycloak e = true)
    (hmove : SingleFlight.Move client sha256 w.server e server) {user : AuthenticatedUser}
    (hpc : (server.requests e.request).pc = .publishing (.active user) ∨
      (server.requests e.request).pc = .droppingGuard (.active user)) :
    w.keycloak.evaluated e.request = some true := by
  cases hmove with
  | lead => simp [Event.request] at hpc
  | follow => simp [Event.request] at hpc
  | @sendFailed i role r outcome _ hr =>
      cases role with
      | leader =>
          simp only [Event.request, State.pc_setPc_self, Role.finish, Pc.publishing.injEq,
            reduceCtorEq, or_false] at hpc
          rw [hpc] at hr
          exact absurd hr callAfterSend_ne_active
      | fallback => simp [Event.request, Role.finish] at hpc
  | @body i role r now _ =>
      cases role with
      | leader =>
          simp only [Event.request, State.pc_setPc_self, Role.finish, Pc.publishing.injEq,
            reduceCtorEq, or_false] at hpc
          exact evaluated_of_body hpermits hpc
      | fallback => simp [Event.request, Role.finish] at hpc
  | @publish i outcome hold =>
      simp only [Event.request, State.pc_setPc_self, Pc.droppingGuard.injEq, reduceCtorEq,
        false_or] at hpc
      rw [hpc] at hold
      exact h.own i user (.inl hold)
  | _ => simp [Event.request] at hpc

theorem Evaluated.server {w : World} {e : SingleFlight.Event} {server : State}
    (hinv : Inv sha256 w.server) (h : Evaluated w)
    (hpermits : Keycloak.permits w.keycloak e = true)
    (hmove : SingleFlight.Move client sha256 w.server e server) :
    Evaluated { w with server } := by
  refine ⟨?_, ?_, ?_⟩
  · rintro i (hpc | ⟨tx, rx, hpc⟩)
    · have hi : i ≠ e.request := by
        rintro rfl
        exact hmove.started hpc
      rw [hmove.requests_ne hi] at hpc
      exact h.fresh i (.inl hpc)
    · rcases hmove.waiting hpc with hold | ⟨token, rfl, -⟩
      · exact h.fresh i (.inr ⟨tx, rx, hold⟩)
      · refine h.fresh i (.inl ?_)
        cases hmove with
        | lead hns | follow hns => exact hns
  · intro i user hpc
    by_cases hi : i = e.request
    · subst hi
      exact h.own_server hpermits hmove hpc
    · rw [hmove.requests_ne hi] at hpc
      exact h.own i user hpc
  · intro tx user huser
    rcases hinv.mem_sent hmove huser with hold | ⟨-, hpc⟩
    · exact h.sent tx user hold
    · exact h.own tx user (.inl hpc)

theorem Evaluated.step {w w' : World} {e : Event} (hinv : Inv sha256 w.server) (h : Evaluated w)
    (hmove : Move client sha256 w e w') : Evaluated w' := by
  cases hmove with
  | server hpermits hmove => exact h.server hinv hpermits hmove
  | revoke => exact ⟨h.fresh, h.own, h.sent⟩
  | @evaluate i role pc hpc hnew =>
      -- the evaluated request is inside `call`, so none of the three clauses speaks about it
      have hne : ∀ {j b}, w.keycloak.evaluated j = some b → j ≠ i := by
        rintro j b hj rfl
        rw [hnew] at hj
        cases hj
      refine ⟨?_, ?_, ?_⟩
      · intro j hj
        have hij : j ≠ i := by
          rintro rfl
          rcases hj with hj | ⟨tx, rx, hj⟩ <;> rw [hpc] at hj <;> cases hj
        simpa only [Function.update_of_ne hij] using h.fresh j hj
      · intro j user hj
        have hold := h.own j user hj
        simpa only [Function.update_of_ne (hne hold)] using hold
      · intro tx user huser
        have hold := h.sent tx user huser
        simpa only [Function.update_of_ne (hne hold)] using hold

theorem Evaluated.of_run {events : List Event} {w : World}
    (hrun : run (World.step client sha256) World.init events = some w) : Evaluated w :=
  run_induction (P := fun _ w => Evaluated w) Evaluated.init
    (fun _ _ _ _ hrun h hstep => h.step (Inv.of_run (run_server hrun)) (move_of_step hstep)) hrun

/-! ## A leader that will refuse goes on refusing

Once the token is revoked and its leader may not accept any more, the channel of the leader carries
no acceptance and never will. -/

/-- The call of the leader `tx` was evaluated before the revocation, and its acceptance may still be
published. -/
def MayAccept (w : World) (tx : RequestId) : Prop :=
  w.keycloak.evaluated tx = some true ∧ (w.server.requests tx).pc.Accepting

/-- The channel of `tx` carries no acceptance, and never will. -/
structure Refusing (w : World) (tx : RequestId) : Prop where
  started : (w.server.requests tx).pc ≠ .notStarted
  revoked : w.keycloak.revoked (w.server.requests tx).token = true
  cannot  : ¬ w.MayAccept tx
  sent    : ∀ user, .active user ∉ (w.server.channels tx).sent

/-- A revoked token stays revoked. -/
theorem Move.revoked {w w' : World} {e : Event} (hmove : Move client sha256 w e w')
    {token : String} (h : w.keycloak.revoked token = true) : w'.keycloak.revoked token = true := by
  cases hmove with
  | server | evaluate => exact h
  | @revoke tok =>
      by_cases htok : token = tok
      · subst htok; simp
      · simpa only [Function.update_of_ne htok] using h

/-- Once started, a request keeps its token. -/
theorem Move.token {w w' : World} {e : Event} (hmove : Move client sha256 w e w') {i : RequestId}
    (hi : (w.server.requests i).pc ≠ .notStarted) :
    (w'.server.requests i).token = (w.server.requests i).token ∧
      (w'.server.requests i).pc ≠ .notStarted := by
  cases hmove with
  | @server e server hpermits hmove =>
      by_cases hie : i = e.request
      · subst hie
        refine ⟨?_, hmove.started⟩
        rcases hmove.token with ⟨j, token, rfl, hns, -⟩ | ⟨-, -, htoken⟩
        · exact absurd hns hi
        · exact htoken
      · rw [hmove.requests_ne hie]
        exact ⟨rfl, hi⟩
  | evaluate | revoke => exact ⟨rfl, hi⟩

theorem Move.inv {w w' : World} {e : Event} (hmove : Move client sha256 w e w')
    (h : Inv sha256 w.server) : Inv sha256 w'.server := by
  cases hmove with
  | server hpermits hmove => exact h.move hmove
  | evaluate | revoke => exact h

theorem Refusing.step {w w' : World} {e : Event} (hinv : Inv sha256 w.server) (hev : Evaluated w)
    (hmove : Move client sha256 w e w') {tx : RequestId} (h : Refusing w tx) :
    Refusing w' tx := by
  obtain ⟨htoken, hstarted⟩ := hmove.token h.started
  refine ⟨hstarted, by rw [htoken]; exact hmove.revoked h.revoked, ?_, ?_⟩
  · rintro ⟨hev', hacc⟩
    cases hmove with
    | server hpermits hmove => exact h.cannot ⟨hev', hmove.accepting h.started hacc⟩
    | revoke => exact h.cannot ⟨hev', hacc⟩
    | @evaluate i role pc hpc hnew =>
        by_cases hi : tx = i
        · -- evaluated just now, after the revocation
          subst hi
          simp [h.revoked] at hev'
        · simp only [Function.update_of_ne hi] at hev'
          exact h.cannot ⟨hev', hacc⟩
  · intro user huser
    cases hmove with
    | server hpermits hmove =>
        rcases hinv.mem_sent hmove huser with hold | ⟨-, hpc⟩
        · exact h.sent user hold
        · exact h.cannot ⟨hev.own tx user (.inl hpc), .inr ⟨user, hpc⟩⟩
    | evaluate | revoke => exact h.sent user huser

/-! ## A request that starts after the revocation

It makes a call of its own, which is evaluated after the revocation, or it waits for a leader. Only
a leader that may still accept can let it through. -/

/-- What keeps a request for a revoked token from being let through, wherever it is. -/
def LatePc (w : World) (i : RequestId) : Pc → Prop
  | .notStarted => False
  | .calling _ _ => w.keycloak.evaluated i ≠ some true
  | .publishing outcome | .droppingGuard outcome | .returned outcome =>
      ∀ user, outcome ≠ .active user
  | .waiting tx rx => rx.next = 0 → Refusing w tx
  | .unwinding | .cancelled => True

structure Late (w : World) (i : RequestId) : Prop where
  revoked : w.keycloak.revoked (w.server.requests i).token = true
  pc      : LatePc w i (w.server.requests i).pc

theorem Late.started {w : World} {i : RequestId} (h : Late w i) :
    (w.server.requests i).pc ≠ .notStarted := by
  intro hns
  have := h.pc
  rw [hns] at this
  exact this

/-- A step that leaves request `i` where it is, and does not evaluate its call. -/
theorem LatePc.of_move {w w' : World} {e : Event} (hinv : Inv sha256 w.server)
    (hev : Evaluated w) (hmove : Move client sha256 w e w') {i : RequestId} {pc : Pc}
    (heval : w'.keycloak.evaluated i = w.keycloak.evaluated i) (h : LatePc w i pc) :
    LatePc w' i pc := by
  cases pc with
  | calling role cpc => exact fun h' => h (heval ▸ h')
  | waiting tx rx => exact fun hnext => (h hnext).step hinv hev hmove
  | _ => exact h

theorem latePc_finish {w : World} {i : RequestId} {role : Role} {outcome : IntrospectionOutcome}
    (h : ∀ user, outcome ≠ .active user) : LatePc w i (role.finish outcome) := by
  cases role <;> exact h

/-- A late request that moves is still late where it arrives. -/
theorem Late.mover {w : World} {e : SingleFlight.Event} {server : State}
    (hinv : Inv sha256 w.server) (hev : Evaluated w)
    (hpermits : Keycloak.permits w.keycloak e = true)
    (hmove : SingleFlight.Move client sha256 w.server e server) (h : Late w e.request) :
    LatePc { w with server } e.request (server.requests e.request).pc := by
  have hstarted := h.started
  have hpc := h.pc
  cases hmove with
  | lead hns | follow hns => exact absurd hns hstarted
  | awaitBody hold =>
      simp only [Event.request, hold, State.pc_setPc_self] at hpc ⊢
      exact hpc
  | sendFailed hold hr =>
      simp only [Event.request, State.pc_setPc_self]
      refine latePc_finish ?_
      rintro user rfl
      exact callAfterSend_ne_active hr
  | body hold =>
      simp only [Event.request, hold, State.pc_setPc_self] at hpc ⊢
      exact latePc_finish fun user huser => hpc (evaluated_of_body hpermits huser)
  | publish hold | dropGuard hold =>
      simp only [Event.request, hold, State.pc_setPc_self] at hpc ⊢
      exact hpc
  | @recvOk i tx rx outcome hold hrecv =>
      simp only [Event.request, hold, State.pc_setPc_self] at hpc ⊢
      rintro user rfl
      have hget := Channel.getElem?_of_recv_ok hrecv
      have hnext := (hinv.waiting i tx rx hold).next_eq_zero hget
      exact (hpc hnext).sent user (List.mem_of_getElem? hget)
  | @recvErr i tx rx hold hrecv =>
      simp only [Event.request, State.pc_setPc_self]
      intro heval
      have hnone := hev.fresh i (.inr ⟨tx, rx, hold⟩)
      exact absurd (hnone.symm.trans heval) (by simp)
  | unwind | cancelLeader | cancelOther =>
      simp only [Event.request, State.pc_setPc_self]
      trivial

theorem Late.step {w w' : World} {e : Event} (hinv : Inv sha256 w.server) (hev : Evaluated w)
    (hmove : Move client sha256 w e w') {i : RequestId} (h : Late w i) : Late w' i := by
  have htoken := (hmove.token h.started).1
  refine ⟨by rw [htoken]; exact hmove.revoked h.revoked, ?_⟩
  have hmove' := hmove
  cases hmove with
  | @server e server hpermits hserver =>
      by_cases hi : i = e.request
      · subst hi
        exact h.mover hinv hev hpermits hserver
      · simp only [hserver.requests_ne hi]
        exact h.pc.of_move hinv hev hmove' rfl
  | revoke => exact h.pc.of_move hinv hev hmove' rfl
  | @evaluate j role pc hpc hnew =>
      by_cases hi : i = j
      · -- its own call is evaluated, after the revocation
        subst hi
        have hrev := h.revoked
        simp only [hpc]
        simp [LatePc, hrev]
      · exact h.pc.of_move hinv hev hmove' (Function.update_of_ne hi _ _)

/-- A request for a revoked token that takes the lock is late from then on, unless it follows a
leader that may still accept. -/
theorem late_of_lock {events : List Event} {w w' : World} {i : RequestId} {token : String}
    (hrun : run (step client sha256) init events = some w)
    (hsha : CollisionFree sha256 (serverEvents events ++ [.lock i token]))
    (hrev : w.keycloak.revoked token = true)
    (hcannot : ∀ tx, w.server.inflight (sha256 token) = some tx → ¬ w.MayAccept tx)
    (hstep : step client sha256 w (.server (.lock i token)) = some w') : Late w' i := by
  have hserver := run_server hrun
  have hinv := Inv.of_run hserver
  have hev := Evaluated.of_run hrun
  have hmove := move_of_step hstep
  cases hmove with
  | @server e server hpermits hlock =>
      cases hlock with
      | lead hns =>
          refine ⟨by simpa using hrev, ?_⟩
          simp only [State.requests_lead_self]
          intro heval
          exact absurd ((hev.fresh i (.inl hns)).symm.trans heval) (by simp)
      | @follow i token tx hns hentry =>
          refine ⟨by simpa using hrev, ?_⟩
          simp only [State.requests_follow_self]
          intro hnext
          -- the leader carries the same token, and had sent nothing yet
          obtain ⟨htx, hkey⟩ := hinv.entry _ _ hentry
          have hstarted : (w.server.requests tx).pc ≠ .notStarted := by
            intro h
            rw [h] at htx
            cases htx
          have htoken : (w.server.requests tx).token = token := by
            refine hsha tx _ i token ?_ (by simp) hkey
            exact List.mem_append_left _
              (((Justified.of_run hserver).token tx _).mpr ⟨hstarted, rfl⟩)
          have hnil : (w.server.channels tx).sent = [] := List.length_eq_zero_iff.mp hnext
          have hrefusing : Refusing w tx :=
            ⟨hstarted, by rw [htoken]; exact hrev, hcannot tx hentry, by simp [hnil]⟩
          exact hrefusing.step hinv hev (move_of_step hstep)

/-- **After the revocation.** A request that takes the lock for a revoked token is never let
through, unless the leader it finds carries an evaluation from before the revocation that it may
still publish. -/
theorem revoked_never_ok {events post : List Event} {w w' : World} {i : RequestId}
    {token : String} {user : AuthenticatedUser}
    (hrun : run (step client sha256) init events = some w)
    (hsha : CollisionFree sha256 (serverEvents events ++ [.lock i token]))
    (hrev : w.keycloak.revoked token = true)
    (hcannot : ∀ tx, w.server.inflight (sha256 token) = some tx → ¬ w.MayAccept tx)
    (hpost : run (step client sha256) w (.server (.lock i token) :: post) = some w') :
    w'.server.result i ≠ some (.ok user) := by
  obtain ⟨w₁, hlock, hrest⟩ := run_cons_eq_some.mp hpost
  have hlate := late_of_lock hrun hsha hrev hcannot hlock
  have hrun₁ := run_snoc_eq_some.mpr ⟨w, hrun, hlock⟩
  have hend := run_invariant
    (I := fun w => Inv sha256 w.server ∧ Evaluated w ∧ Late w i) ?_
    ⟨Inv.of_run (run_server hrun₁), Evaluated.of_run hrun₁, hlate⟩ hrest
  · intro hok
    have hpc := hend.2.2.pc
    rw [State.result_eq_ok_iff.mp hok] at hpc
    exact hpc user rfl
  · rintro w e w' ⟨hinv, hev, hlate⟩ hstep
    have hmove := move_of_step hstep
    exact ⟨hmove.inv hinv, hev.step hinv hmove, hlate.step hinv hev hmove⟩

/-! ## A leader that may accept lets its followers through

The other direction: from such a state there is a way on that ends with the acceptance of the
request. So nothing weaker than the condition would do. -/

/-- An answer that vouches for a user at any time. -/
def acceptingBody (client : IntrospectionClient) : IntrospectionResponse where
  active      := true
  sub         := some "user-1"
  aud         := some (.one client.expectedAudience)
  exp         := none
  realmAccess := none

theorem callAfterJson_acceptingBody (client : IntrospectionClient) (now : Int) :
    client.callAfterJson now (.ok (acceptingBody client)) =
      .active { subject := "user-1", realmRoles := [] } :=
  IntrospectionClient.evaluate_eq_active_iff.mpr
    ⟨rfl, by simp [acceptingBody], ⟨_, rfl, rfl⟩, rfl, rfl⟩

theorem run_server_cons {w : World} {e : SingleFlight.Event} {server : State} {es : List Event}
    (hpermits : Keycloak.permits w.keycloak e = true)
    (hstep : SingleFlight.step client sha256 w.server e = some server) :
    run (step client sha256) w (.server e :: es) =
      run (step client sha256) { w with server } es := by
  rw [run_cons]
  simp only [step, hpermits, hstep]
  rfl

/-- The leader publishes what it has, and the follower returns it. -/
theorem follower_ok_of_publishing (client : IntrospectionClient) {w : World}
    {i tx : RequestId} {rx : Receiver} {user : AuthenticatedUser} (hinv : Inv sha256 w.server)
    (hi : (w.server.requests i).pc = .waiting tx rx)
    (htx : (w.server.requests tx).pc = .publishing (.active user)) :
    ∃ post w', run (step client sha256) w post = some w' ∧
      w'.server.result i = some (.ok user) := by
  have hlead : (w.server.requests tx).pc.isLeader = true := by rw [htx]; rfl
  have hne : i ≠ tx := by
    rintro rfl
    rw [hi] at htx
    cases htx
  have hch := hinv.channel tx hlead
  have hnext : rx.next = 0 := by
    have := (hinv.waiting i tx rx hi).next_le
    rw [hch, htx] at this
    simpa [Pc.published] using this
  -- after the send the follower's value is there
  set s₁ := (w.server.send (sha256 (w.server.requests tx).token) (.active user)).setPc tx
    (.droppingGuard (.active user)) with hs₁
  have hpublish : SingleFlight.step client sha256 w.server (.publish tx) = some s₁ := by
    simp only [SingleFlight.step, htx, hs₁]
  have hi₁ : (s₁.requests i).pc = .waiting tx rx := by
    rw [hs₁, State.requests_setPc_ne _ _ hne, State.requests_send]
    exact hi
  have hrecv : (s₁.channels tx).recv rx = .ok (.active user) := by
    have hsent : s₁.channels tx = { capacity := 1, sent := [.active user], closed := false } := by
      rw [hs₁, hinv.send_eq _ hlead, State.channels_setPc]
      simp only [Function.update_self, hch, htx]
      rfl
    rw [hsent]
    exact Channel.recv_eq_ok (by rw [hnext]; rfl) (by rw [hnext]; exact Nat.le_refl _)
  have hreturn : SingleFlight.step client sha256 s₁ (.recv i) =
      some (s₁.setPc i (.returned (.active user))) := by
    simp only [SingleFlight.step, hi₁, hrecv]
  refine ⟨[.server (.publish tx), .server (.recv i)],
    { w with server := s₁.setPc i (.returned (.active user)) }, ?_, ?_⟩
  · rw [run_server_cons rfl hpublish, run_server_cons rfl hreturn, run_nil]
  · exact State.result_eq_ok_iff.mpr (State.pc_setPc_self _ _ _)

/-- The leader's call is answered with an acceptance, which Keycloak is permitted to send. -/
theorem follower_ok_of_json (client : IntrospectionClient) {w : World} {i tx : RequestId}
    {rx : Receiver} (hinv : Inv sha256 w.server) (hi : (w.server.requests i).pc = .waiting tx rx)
    (htx : (w.server.requests tx).pc = .calling .leader .json)
    (heval : w.keycloak.evaluated tx = some true) :
    ∃ post w' user, run (step client sha256) w post = some w' ∧
      w'.server.result i = some (.ok user) := by
  have hne : i ≠ tx := by
    rintro rfl
    rw [hi] at htx
    cases htx
  have hjson : SingleFlight.step client sha256 w.server
      (.jsonResult tx (.ok (acceptingBody client)) 0) =
      some (w.server.setPc tx
        (.publishing (.active { subject := "user-1", realmRoles := [] }))) := by
    simp only [SingleFlight.step, htx, callAfterJson_acceptingBody, Role.finish]
  have hpermits : Keycloak.permits w.keycloak (.jsonResult tx (.ok (acceptingBody client)) 0) =
      true := by
    simp [Keycloak.permits, heval]
  obtain ⟨post, w', hrun, hok⟩ := follower_ok_of_publishing client
    (w := { w with server := w.server.setPc tx _ })
    (hinv.move (SingleFlight.move_of_step hjson))
    (by rw [State.requests_setPc_ne _ _ hne]; exact hi) (State.pc_setPc_self _ _ _)
  exact ⟨_, w', _, by rw [run_server_cons hpermits hjson]; exact hrun, hok⟩

theorem follower_ok_of_mayAccept (client : IntrospectionClient) {w : World} {i tx : RequestId}
    {rx : Receiver} (hinv : Inv sha256 w.server) (hi : (w.server.requests i).pc = .waiting tx rx)
    (h : w.MayAccept tx) :
    ∃ post w' user, run (step client sha256) w post = some w' ∧
      w'.server.result i = some (.ok user) := by
  obtain ⟨heval, ⟨pc, hpc⟩ | ⟨user, hpc⟩⟩ := h
  · cases pc with
    | json => exact follower_ok_of_json client hinv hi hpc heval
    | send =>
        have hne : i ≠ tx := by
          rintro rfl
          rw [hi] at hpc
          cases hpc
        have hsend : SingleFlight.step client sha256 w.server
            (.sendResult tx (.ok ⟨200, "OK"⟩)) =
            some (w.server.setPc tx (.calling .leader .json)) := by
          simp only [SingleFlight.step, hpc]
          rfl
        obtain ⟨post, w', user, hrun, hok⟩ := follower_ok_of_json client
          (w := { w with server := w.server.setPc tx (.calling .leader .json) })
          (hinv.move (SingleFlight.move_of_step hsend))
          (by rw [State.requests_setPc_ne _ _ hne]; exact hi) (State.pc_setPc_self _ _ _) heval
        exact ⟨_, w', user, by rw [run_server_cons rfl hsend]; exact hrun, hok⟩
  · obtain ⟨post, w', hrun, hok⟩ := follower_ok_of_publishing client hinv hi hpc
    exact ⟨post, w', user, hrun, hok⟩

/-! ## Exactly when

Both directions for the state in which the request takes the lock, and a run for each side of the
condition. -/

/-- **Exactly when revocation takes effect on the next request.** A request `i` that takes the lock
for a revoked token never gets `Ok`, whatever happens afterwards, if and only if the map does not
hold, at that moment, the entry of a leader whose call Keycloak evaluated before the revocation and
whose acceptance may still be published. -/
theorem revoked_never_ok_iff {events : List Event} {w : World} {i : RequestId} {token : String}
    (hrun : run (step client sha256) init events = some w)
    (hsha : CollisionFree sha256 (serverEvents events ++ [.lock i token]))
    (hrev : w.keycloak.revoked token = true)
    (hi : (w.server.requests i).pc = .notStarted) :
    (∀ post w' user, run (step client sha256) w (.server (.lock i token) :: post) = some w' →
      w'.server.result i ≠ some (.ok user)) ↔
    ¬ ∃ tx, w.server.inflight (sha256 token) = some tx ∧ w.MayAccept tx := by
  constructor
  · rintro hnever ⟨tx, hentry, hmay⟩
    have hinv := Inv.of_run (run_server hrun)
    have hne : tx ≠ i := by
      rintro rfl
      have := (hinv.entry _ _ hentry).1
      rw [hi] at this
      cases this
    have hlock : SingleFlight.step client sha256 w.server (.lock i token) =
        some (w.server.follow i token tx) := by
      simp only [SingleFlight.step, hi, hentry]
    obtain ⟨post, w', user, hpost, hok⟩ := follower_ok_of_mayAccept client
      (w := { w with server := w.server.follow i token tx })
      (hinv.move (SingleFlight.move_of_step hlock))
      (by rw [State.requests_follow_self])
      ⟨hmay.1, by rw [State.requests_follow_ne _ _ _ hne]; exact hmay.2⟩
    exact hnever post w' user (by rw [run_server_cons rfl hlock]; exact hpost) hok
  · intro hcannot post w' user hpost
    exact revoked_never_ok hrun hsha hrev (fun tx hentry hmay => hcannot ⟨tx, hentry, hmay⟩) hpost

/-- A leader whose call Keycloak has not evaluated yet when the token is revoked: whoever joins it
is refused. -/
theorem revoked_never_ok_iff_unevaluated :
    ∃ w, run (step testClient testSha256) init
        [.server (.lock 0 "same.token"), .revoke "same.token"] = some w ∧
      ∀ post w' user, run (step testClient testSha256) w
        (.server (.lock 1 "same.token") :: post) = some w' →
        w'.server.result 1 ≠ some (.ok user) := by
  have hrun : run (step testClient testSha256) init
      [.server (.lock 0 "same.token"), .revoke "same.token"] = some _ := rfl
  refine ⟨_, hrun, (revoked_never_ok_iff hrun ?_ (by decide) rfl).mpr ?_⟩
  · intro i token j token' hi hj _
    simp only [serverEvents, List.filterMap_cons, List.filterMap_nil, List.cons_append,
      List.nil_append, List.mem_cons, Event.lock.injEq, List.not_mem_nil, or_false] at hi hj
    rcases hi with ⟨-, rfl⟩ | ⟨-, rfl⟩ <;> rcases hj with ⟨-, rfl⟩ | ⟨-, rfl⟩ <;> rfl
  · rintro ⟨tx, -, heval, -⟩
    cases heval

/-- **A revoked token that still works.** Keycloak evaluates the call of request 0, then the token
is revoked, then request 1 starts. It joins the call of request 0, whose answer is still on its way,
and is let through by it. -/
theorem revoked_token_accepted :
    ¬ ∀ (events post : List Event) (w w' : World) (i : RequestId) (token : String)
        (user : AuthenticatedUser),
      run (step testClient testSha256) init events = some w →
      w.keycloak.revoked token = true →
      run (step testClient testSha256) w (.server (.lock i token) :: post) = some w' →
      w'.server.result i ≠ some (.ok user) := by
  intro h
  have hrun : run (step testClient testSha256) init
      [.server (.lock 0 "same.token"), .evaluate 0, .revoke "same.token"] = some _ := rfl
  exact h _ [.server (.sendResult 0 (.ok ⟨200, "OK"⟩)),
    .server (.jsonResult 0 (.ok testBody) 0), .server (.publish 0), .server (.recv 1)] _ _ 1
    "same.token" testUser hrun (by decide) rfl rfl

end World

end Urheilulaatikko.Server.Auth.SingleFlight
