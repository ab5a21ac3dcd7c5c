import Urheilulaatikko.Server.Auth.Inflight

/-!
# Never fail open: where an accepted token comes from

An `Ok` of `authenticate` may have travelled: from Keycloak to a leader, through the leader's
channel to any number of followers. This module traces it back. `PcJustified` says what the events
so far must contain for a request to be where it is; it is kept by every step (`Justified.step`),
and at a request that has returned `Ok` it names the answer of Keycloak behind it.

Requests meet in the map under the digest of their tokens, so the result needs that no two of the
tokens presented in the run collide under SHA-256 (`CollisionFree`).
-/

namespace Urheilulaatikko.Server.Auth.SingleFlight

open Broadcast Trace

/-- SHA-256 keeps apart the tokens that were presented in the run. -/
def CollisionFree (sha256 : String → Key) (events : List Event) : Prop :=
  ∀ i token j token', .lock i token ∈ events → .lock j token' ∈ events →
    sha256 token = sha256 token' → token = token'

/-- The `call` of `j` was answered with a 2xx status and this body, evaluated at `now`. -/
structure Answered (events : List Event) (j : RequestId) (now : Int)
    (body : IntrospectionResponse) : Prop where
  status : ∃ status : StatusCode, status.isSuccess = true ∧ .sendResult j (.ok status) ∈ events
  body   : .jsonResult j (.ok body) now ∈ events

variable (client : IntrospectionClient) (sha256 : String → Key)

/-- When `i` took the in-flight lock, `j` was a live leader that had not yet published. -/
def FoundUnpublished (events : List Event) (i j : RequestId) : Prop :=
  ∃ pre token post s, events = pre ++ .lock i token :: post ∧
    run (step client sha256) init pre = some s ∧
    (s.requests j).pc.isLeader = true ∧ (s.requests j).pc.published = []

/-- The `call` of `j` itself was answered with a body that vouches for `user`. -/
def Vouched (events : List Event) (j : RequestId) (user : AuthenticatedUser) : Prop :=
  ∃ now body, Answered events j now body ∧ Grants client now body user

/-- The accepted outcome of `i` goes back to the call of some `j` under the same key: `i` itself, or
a leader that `i` found before it had published. -/
def Provenance (events : List Event) (i : RequestId) (user : AuthenticatedUser) : Prop :=
  ∃ j token token', Vouched client events j user ∧
    .lock i token ∈ events ∧ .lock j token' ∈ events ∧ sha256 token' = sha256 token ∧
    (j = i ∨ FoundUnpublished client sha256 events i j)

/-- What must have happened for request `i` to be at `pc`. -/
def PcJustified (events : List Event) (i : RequestId) : Pc → Prop
  | .calling _ .json =>
      ∃ status : StatusCode, status.isSuccess = true ∧ .sendResult i (.ok status) ∈ events
  | .publishing (.active user) | .droppingGuard (.active user) => Vouched client events i user
  | .waiting tx rx => rx.next = 0 → FoundUnpublished client sha256 events i tx
  | .returned (.active user) => Provenance client sha256 events i user
  | _ => True

structure Justified (events : List Event) (s : State) : Prop where
  pc    : ∀ i, PcJustified client sha256 events i (s.requests i).pc
  sent  : ∀ tx user, .active user ∈ (s.channels tx).sent → Vouched client events tx user
  token : ∀ i token, .lock i token ∈ events ↔
    (s.requests i).pc ≠ .notStarted ∧ (s.requests i).token = token

variable {client sha256}

/-! ## More events justify no less

What justifies a request is in the events so far, so it stays there. -/

theorem Answered.mono {events : List Event} {j : RequestId} {now : Int}
    {body : IntrospectionResponse} (h : Answered events j now body) (e : Event) :
    Answered (events ++ [e]) j now body := by
  obtain ⟨⟨status, hok, hmem⟩, hbody⟩ := h
  exact ⟨⟨status, hok, List.mem_append_left _ hmem⟩, List.mem_append_left _ hbody⟩

theorem Vouched.mono {events : List Event} {j : RequestId} {user : AuthenticatedUser}
    (h : Vouched client events j user) (e : Event) : Vouched client (events ++ [e]) j user := by
  obtain ⟨now, body, hanswer, hgrants⟩ := h
  exact ⟨now, body, hanswer.mono e, hgrants⟩

theorem FoundUnpublished.mono {events : List Event} {i j : RequestId}
    (h : FoundUnpublished client sha256 events i j) (e : Event) :
    FoundUnpublished client sha256 (events ++ [e]) i j := by
  obtain ⟨pre, token, post, s, rfl, hrun, hlead⟩ := h
  exact ⟨pre, token, post ++ [e], s, by simp, hrun, hlead⟩

theorem Provenance.mono {events : List Event} {i : RequestId} {user : AuthenticatedUser}
    (h : Provenance client sha256 events i user) (e : Event) :
    Provenance client sha256 (events ++ [e]) i user := by
  obtain ⟨j, token, token', hvouched, hi, hj, hkey, hfound⟩ := h
  exact ⟨j, token, token', hvouched.mono e, List.mem_append_left _ hi, List.mem_append_left _ hj,
    hkey, hfound.imp_right (·.mono e)⟩

theorem PcJustified.mono {events : List Event} {i : RequestId} {pc : Pc}
    (h : PcJustified client sha256 events i pc) (e : Event) :
    PcJustified client sha256 (events ++ [e]) i pc := by
  cases pc with
  | notStarted | unwinding | cancelled => trivial
  | calling role cpc =>
      cases cpc with
      | send => trivial
      | json =>
          obtain ⟨status, hok, hmem⟩ := h
          exact ⟨status, hok, List.mem_append_left _ hmem⟩
  | publishing outcome | droppingGuard outcome =>
      cases outcome with
      | active user => exact Vouched.mono h e
      | _ => trivial
  | waiting tx rx => exact fun hnext => (h hnext).mono e
  | returned outcome =>
      cases outcome with
      | active user => exact Provenance.mono h e
      | _ => trivial

/-! ## One step

Only the request that moves needs a new justification. The one of a follower is its leader's. -/

/-- A `call` that returns to a request justifies where the request goes next. -/
theorem pcJustified_finish {events : List Event} {i : RequestId} {role : Role}
    {outcome : IntrospectionOutcome} {token : String} (hlock : .lock i token ∈ events)
    (h : ∀ user, outcome = .active user → Vouched client events i user) :
    PcJustified client sha256 events i (role.finish outcome) := by
  cases outcome with
  | active user =>
      have hv := h user rfl
      cases role with
      | leader => exact hv
      | fallback => exact ⟨i, token, token, hv, hlock, hlock, rfl, .inl rfl⟩
  | _ => cases role <;> trivial

/-- The moving request is justified where it arrives. -/
theorem Justified.mover {events : List Event} {s s' : State} {e : Event}
    (hinv : Inv sha256 s)
    (hrun : run (SingleFlight.step client sha256) SingleFlight.init events = some s)
    (h : Justified client sha256 events s) (hmove : Move client sha256 s e s') :
    PcJustified client sha256 (events ++ [e]) e.request (s'.requests e.request).pc := by
  cases hmove with
  | @lead i token hpc hentry =>
      simp only [Event.request, State.requests_lead_self]
      trivial
  | @follow i token tx hpc hentry =>
      simp only [Event.request, State.requests_follow_self]
      intro hnext
      -- nothing had been sent on the channel, so its leader had not published
      have htx := (hinv.entry _ _ hentry).1
      have hsent := hinv.channel tx htx
      refine ⟨events, token, [], s, rfl, hrun, htx, ?_⟩
      rw [Channel.next_subscribe, hsent] at hnext
      exact List.length_eq_zero_iff.mp hnext
  | @awaitBody i role status hpc hok =>
      simp only [Event.request, State.pc_setPc_self]
      exact ⟨status, hok, by simp⟩
  | @sendFailed i role r outcome hpc hr =>
      simp only [Event.request, State.pc_setPc_self]
      have hlock := (h.token i _).mpr ⟨by rw [hpc]; simp, rfl⟩
      refine pcJustified_finish (List.mem_append_left _ hlock) ?_
      rintro user rfl
      exact absurd hr callAfterSend_ne_active
  | @body i role r now hpc =>
      simp only [Event.request, State.pc_setPc_self]
      have hlock := (h.token i _).mpr ⟨by rw [hpc]; simp, rfl⟩
      refine pcJustified_finish (List.mem_append_left _ hlock) ?_
      intro user huser
      obtain ⟨body, rfl, hgrants⟩ := callAfterJson_eq_active huser
      have hstatus := h.pc i
      rw [hpc] at hstatus
      obtain ⟨status, hok, hmem⟩ := hstatus
      exact ⟨now, body, ⟨⟨status, hok, List.mem_append_left _ hmem⟩, by simp⟩, hgrants⟩
  | @publish i outcome hpc =>
      simp only [Event.request, State.pc_setPc_self]
      have hold := h.pc i
      rw [hpc] at hold
      cases outcome with
      | active user => exact Vouched.mono hold _
      | _ => trivial
  | @dropGuard i outcome hpc =>
      simp only [Event.request, State.pc_setPc_self]
      have hold := h.pc i
      rw [hpc] at hold
      have hlock := (h.token i _).mpr ⟨by rw [hpc]; simp, rfl⟩
      cases outcome with
      | active user =>
          exact Provenance.mono ⟨i, _, _, hold, hlock, hlock, rfl, .inl rfl⟩ _
      | _ => trivial
  | @recvOk i tx rx outcome hpc hrecv =>
      simp only [Event.request, State.pc_setPc_self]
      cases outcome with
      | active user =>
          have hget := Channel.getElem?_of_recv_ok hrecv
          have hsub := hinv.waiting i tx rx hpc
          have hnext := hsub.next_eq_zero hget
          have hold := h.pc i
          rw [hpc] at hold
          have hvouched := h.sent tx user (List.mem_of_getElem? hget)
          have hi := (h.token i _).mpr ⟨by rw [hpc]; simp, rfl⟩
          have htx := (h.token tx _).mpr ⟨hsub.started, rfl⟩
          exact Provenance.mono ⟨tx, _, _, hvouched, hi, htx, hsub.sameKey, .inr (hold hnext)⟩ _
      | _ => trivial
  | @recvErr i tx rx hpc hrecv =>
      simp only [Event.request, State.pc_setPc_self]
      trivial
  | @unwind i hpc | @cancelLeader i pc hpc | @cancelOther i hpc =>
      simp only [Event.request, State.pc_setPc_self]
      trivial

/-- The events keep record of who started with which token. -/
theorem Justified.lock_mem_iff {events : List Event} {s s' : State} {e : Event}
    (h : Justified client sha256 events s) (hmove : Move client sha256 s e s') (j : RequestId)
    (token : String) : .lock j token ∈ events ++ [e] ↔
      (s'.requests j).pc ≠ .notStarted ∧ (s'.requests j).token = token := by
  rw [List.mem_append, List.mem_singleton, h.token]
  by_cases hj : j = e.request
  · have hstarted := hmove.started
    rw [← hj] at hstarted
    rcases hmove.token with ⟨i, tok, rfl, hpc, htok⟩ | ⟨hnot, hpc, htok⟩
    · have hji : j = i := hj
      subst hji
      simp [hpc, htok, hstarted, eq_comm]
    · rw [← hj] at hpc htok
      simp [hpc, htok, hstarted, (hnot j token).symm]
  · have hne : .lock j token ≠ e := by
      rintro rfl
      exact hj rfl
    rw [hmove.requests_ne hj]
    simp [hne]

/-- **Every step keeps every request justified.** -/
theorem Justified.step {events : List Event} {s s' : State} {e : Event}
    (hrun : run (SingleFlight.step client sha256) SingleFlight.init events = some s)
    (h : Justified client sha256 events s)
    (hstep : SingleFlight.step client sha256 s e = some s') :
    Justified client sha256 (events ++ [e]) s' := by
  have hinv := Inv.of_run hrun
  have hmove := move_of_step hstep
  refine ⟨?_, ?_, fun j token => h.lock_mem_iff hmove j token⟩
  · intro j
    by_cases hj : j = e.request
    · subst hj
      exact h.mover hinv hrun hmove
    · rw [hmove.requests_ne hj]
      exact (h.pc j).mono e
  · intro tx user huser
    rcases hinv.mem_sent hmove huser with hold | ⟨rfl, hpc⟩
    · exact (h.sent tx user hold).mono e
    · have hvouched := h.pc tx
      rw [hpc] at hvouched
      exact Vouched.mono hvouched _

theorem Justified.of_run {events : List Event} {s : State}
    (hrun : run (SingleFlight.step client sha256) SingleFlight.init events = some s) :
    Justified client sha256 events s := by
  refine run_induction ?_ (fun es s e s' hrun h hstep => Justified.step hrun h hstep) hrun
  refine ⟨fun i => trivial, ?_, ?_⟩
  · intro tx user h
    cases h
  · intro i token
    simp [SingleFlight.init]

/-! ## The result

At a request that has returned `Ok`, the justification is the answer of Keycloak; the digests only
have to be read as tokens again. -/

theorem State.result_eq_ok_iff {s : State} {i : RequestId} {user : AuthenticatedUser} :
    s.result i = some (.ok user) ↔ (s.requests i).pc = .returned (.active user) := by
  unfold State.result
  split
  · next outcome hpc =>
      rw [hpc, Option.some.injEq, IntrospectionOutcome.into_eq_ok_iff, Pc.returned.injEq]
  · next hpc =>
      constructor
      · intro h; cases h
      · intro h; exact absurd h (hpc _)

/-- **Never fail open.** If `authenticate` returns `Ok(user)` to `i`, some `call` that carried the
same token was answered with a 2xx status and a body that is active, unexpired at the clock read in
`evaluate`, names the expected audience, and carries exactly this subject and these roles. The call
was made by `i` itself, or by a leader that was live and had not yet published when `i` took the
in-flight lock. -/
theorem authenticate_ok_provenance {events : List Event} {s : State} {i : RequestId}
    {user : AuthenticatedUser}
    (hrun : run (SingleFlight.step client sha256) SingleFlight.init events = some s)
    (hsha : CollisionFree sha256 events) (hok : s.result i = some (.ok user)) :
    ∃ j now body, (s.requests j).token = (s.requests i).token ∧
      Answered events j now body ∧ Grants client now body user ∧
      (j = i ∨ FoundUnpublished client sha256 events i j) := by
  have h := Justified.of_run hrun
  have hpc := h.pc i
  rw [State.result_eq_ok_iff.mp hok] at hpc
  obtain ⟨j, token, token', ⟨now, body, hanswer, hgrants⟩, hi, hj, hkey, hfound⟩ := hpc
  have htoken : token' = token := hsha j token' i token hj hi hkey
  refine ⟨j, now, body, ?_, hanswer, hgrants, hfound⟩
  rw [((h.token j token').mp hj).2, ((h.token i token).mp hi).2, htoken]

/-- A follower that joins while its leader's call is still being answered. -/
def joinedInTime : List Event :=
  [.lock 0 "same.token", .sendResult 0 (.ok ⟨200, "OK"⟩), .lock 1 "same.token",
   .jsonResult 0 (.ok testBody) 299, .publish 0, .dropGuard 0, .recv 1]

/-- The follower is let through, by an answer that vouches for it. -/
theorem authenticate_ok_provenance_follower :
    ∃ s, run (SingleFlight.step testClient testSha256) SingleFlight.init joinedInTime = some s ∧
      s.result 1 = some (.ok testUser) ∧
      ∃ j now body, (s.requests j).token = (s.requests 1).token ∧
        Answered joinedInTime j now body ∧ Grants testClient now body testUser ∧
        (j = 1 ∨ FoundUnpublished testClient testSha256 joinedInTime 1 j) := by
  have hres : (run (SingleFlight.step testClient testSha256) SingleFlight.init joinedInTime).map
      (·.result 1) = some (some (.ok testUser)) := rfl
  obtain ⟨s, hrun, hok⟩ := Option.map_eq_some_iff.mp hres
  refine ⟨s, hrun, hok, authenticate_ok_provenance hrun ?_ hok⟩
  intro i token j token' hi hj _
  simp only [joinedInTime, List.mem_cons, Event.lock.injEq, List.not_mem_nil, reduceCtorEq,
    or_false, false_or] at hi hj
  rcases hi with ⟨-, rfl⟩ | ⟨-, rfl⟩ <;> rcases hj with ⟨-, rfl⟩ | ⟨-, rfl⟩ <;> rfl

end Urheilulaatikko.Server.Auth.SingleFlight
