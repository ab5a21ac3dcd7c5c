import Urheilulaatikko.Server.Auth.Inflight

/-!
# When is there one call per token?

The map exists so that "N concurrent requests bearing the same token cost Keycloak one
introspection instead of N". It does that for every request that finds the entry before the leader
has sent. The entry stays visible between the leader's `tx.send` and its `drop(guard)`, though, and
a request that subscribes in that window has missed the outcome: its `recv` fails as soon as the
guard is gone, and it makes a `call` of its own, next to the one of whoever inserted a new entry
meanwhile (`two_calls_in_flight`).

`single_flight` shows that this window is the only leak: if no request takes the lock inside it and
none is cancelled, at most one call per token is in flight in every state of the run.
-/

namespace Urheilulaatikko.Server.Auth.SingleFlight

open Broadcast Trace

variable {client : IntrospectionClient} {sha256 : String → Key}

/-- A `call` for `token`, made by `i`, is in flight. -/
def InFlight (s : State) (token : String) (i : RequestId) : Prop :=
  (∃ role pc, (s.requests i).pc = .calling role pc) ∧ (s.requests i).token = token

/-- A request that takes the lock does not find an entry whose leader has already sent. -/
def LocksInTime (sha256 : String → Key) (s : State) (e : Event) : Prop :=
  ∀ i token tx, e = .lock i token → s.inflight (sha256 token) = some tx →
    (s.requests tx).pc.published = []

/-- What holds as long as every request locks in time: no `recv` has failed and none will. -/
structure NoFallback (s : State) : Prop where
  calling : ∀ i role pc, (s.requests i).pc = .calling role pc → role = .leader
  running : ∀ i, (s.requests i).pc ≠ .unwinding
  waiting : ∀ i tx rx, (s.requests i).pc = .waiting tx rx →
    rx.next = 0 ∧ ((s.channels tx).sent = [] → (s.requests tx).pc.isLeader = true)

theorem NoFallback.init : NoFallback init where
  calling i role pc h := by cases h
  running i h := by cases h
  waiting i tx rx h := by cases h

/-- A follower of a leader that published, or still will, is never told that the channel closed. -/
theorem NoFallback.recv_ne_closed {s : State} (hinv : Inv sha256 s) (h : NoFallback s)
    {i tx : RequestId} {rx : Receiver} (hpc : (s.requests i).pc = .waiting tx rx) :
    (s.channels tx).recv rx ≠ .closed := by
  intro hrecv
  obtain ⟨hnext, hlive⟩ := h.waiting i tx rx hpc
  obtain ⟨hlen, hclosed⟩ := Channel.recv_eq_closed_iff.mp hrecv
  rw [hnext] at hlen
  have hch := hinv.channel tx (hlive (List.length_eq_zero_iff.mp (Nat.le_zero.mp hlen)))
  rw [hch] at hclosed
  cases hclosed

/-- Where the moving request arrives, it has not fallen back. -/
theorem NoFallback.mover {s s' : State} {e : Event} (hinv : Inv sha256 s) (h : NoFallback s)
    (hcancel : ∀ i, e ≠ .cancel i) (hmove : Move client sha256 s e s') :
    (∀ role pc, (s'.requests e.request).pc = .calling role pc → role = .leader) ∧
    (s'.requests e.request).pc ≠ .unwinding := by
  cases hmove with
  | lead => simp [Event.request]
  | follow => simp [Event.request]
  | awaitBody hpc =>
      have hrole := h.calling _ _ _ hpc
      simp [Event.request, hrole]
  | sendFailed hpc | body hpc =>
      have hrole := h.calling _ _ _ hpc
      simp [Event.request, hrole, Role.finish]
  | publish => simp [Event.request]
  | dropGuard => simp [Event.request]
  | unwind hpc => exact absurd hpc (h.running _)
  | recvOk => simp [Event.request]
  | recvErr hpc hrecv =>
      rcases hrecv with hclosed | ⟨n, hlagged⟩
      · exact absurd hclosed (h.recv_ne_closed hinv hpc)
      · exact absurd hlagged (hinv.recv_ne_lagged hpc n)
  | cancelLeader => exact absurd rfl (hcancel _)
  | cancelOther => exact absurd rfl (hcancel _)

/-- A leader that has sent nothing is still a leader after any step but a cancellation's: it drops
its guard only after it has sent. -/
theorem NoFallback.isLeader {s s' : State} {e : Event} (hinv : Inv sha256 s) (h : NoFallback s)
    (hmove : Move client sha256 s e s') {tx : RequestId} (hsent : (s.channels tx).sent = [])
    (htx : (s.requests tx).pc.isLeader = true) : (s'.requests tx).pc.isLeader = true := by
  by_cases he : tx = e.request
  · refine hmove.isLeader ?_ htx
    rintro j rfl
    have hj : tx = j := he
    subst hj
    rw [hinv.channel tx htx] at hsent
    cases hmove with
    | dropGuard hpc =>
        rw [hpc] at hsent
        cases hsent
    | unwind hpc => exact h.running tx hpc
  · rw [hmove.requests_ne he]
    exact htx

theorem NoFallback.step {s s' : State} {e : Event} (hinv : Inv sha256 s) (h : NoFallback s)
    (hcancel : ∀ i, e ≠ .cancel i) (htime : LocksInTime sha256 s e)
    (hstep : SingleFlight.step client sha256 s e = some s') : NoFallback s' := by
  have hmove := move_of_step hstep
  obtain ⟨hcalling, hrunning⟩ := h.mover hinv hcancel hmove
  refine ⟨?_, ?_, ?_⟩
  · intro i role pc hpc
    by_cases hi : i = e.request
    · subst hi
      exact hcalling role pc hpc
    · rw [hmove.requests_ne hi] at hpc
      exact h.calling i role pc hpc
  · intro i
    by_cases hi : i = e.request
    · subst hi
      exact hrunning
    · rw [hmove.requests_ne hi]
      exact h.running i
  · intro i tx rx hpc
    rcases hmove.waiting hpc with hold | ⟨token, rfl, hentry, rfl, rfl⟩
    · obtain ⟨hnext, hlive⟩ := h.waiting i tx rx hold
      refine ⟨hnext, fun hnil => ?_⟩
      have hstarted := (hinv.waiting i tx rx hold).started
      have hsent := hinv.sent_eq_nil hmove hstarted hnil
      exact h.isLeader hinv hmove hsent (hlive hsent)
    · -- a fresh subscription, to a leader that has not sent
      have htx := (hinv.entry _ _ hentry).1
      have hsent : (s.channels tx).sent = [] := by
        rw [hinv.channel tx htx]
        exact htime i token tx rfl hentry
      refine ⟨?_, fun _ => hmove.isLeader (by simp) htx⟩
      rw [Channel.next_subscribe, hsent]
      rfl

theorem NoFallback.of_run {events : List Event} {s : State}
    (hcancel : ∀ i, .cancel i ∉ events)
    (htime : AllSteps (SingleFlight.step client sha256) (LocksInTime sha256) SingleFlight.init
      events)
    (hrun : run (SingleFlight.step client sha256) SingleFlight.init events = some s) :
    NoFallback s := by
  refine run_induction_of (C := fun s e => LocksInTime sha256 s e ∧ ∀ i, e ≠ .cancel i)
    (P := fun _ s => NoFallback s) NoFallback.init ?_ ?_ hrun
  · intro es s e s' hrun h hC hstep
    exact h.step (Inv.of_run hrun) hC.2 hC.1 hstep
  · intro pre e post t hes ht
    refine ⟨htime pre e post t hes ht, ?_⟩
    rintro i rfl
    exact hcancel i (by rw [hes]; simp)

/-- **Single flight, outside the window.** In a run without cancellation in which no request takes
the lock between a leader's `tx.send` and its `drop(guard)`, every state has at most one call in
flight per token. -/
theorem single_flight {events : List Event} {s : State}
    (hrun : run (SingleFlight.step client sha256) SingleFlight.init events = some s)
    (hcancel : ∀ i, .cancel i ∉ events)
    (htime : AllSteps (SingleFlight.step client sha256) (LocksInTime sha256) SingleFlight.init
      events) :
    ∀ token i j, InFlight s token i → InFlight s token j → i = j := by
  have hinv := Inv.of_run hrun
  have h := NoFallback.of_run hcancel htime hrun
  have hleader : ∀ {token i}, InFlight s token i → LiveLeader sha256 s (sha256 token) i := by
    rintro token i ⟨⟨role, pc, hpc⟩, rfl⟩
    have hrole := h.calling i role pc hpc
    exact ⟨by rw [hpc, hrole]; rfl, rfl⟩
  intro token i j hi hj
  exact hinv.leader_unique (hleader hi) (hleader hj)

/-- Two requests that overlap, the second one locking in time: one call. -/
theorem single_flight_overlapping :
    ∃ s, run (SingleFlight.step testClient testSha256) SingleFlight.init
        [.lock 0 "same.token", .lock 1 "same.token"] = some s ∧
      InFlight s "same.token" 0 ∧ ∀ j, InFlight s "same.token" j → j = 0 := by
  have hrun : run (SingleFlight.step testClient testSha256) SingleFlight.init
      [.lock 0 "same.token", .lock 1 "same.token"] = some _ := rfl
  refine ⟨_, hrun, ⟨⟨.leader, .send, rfl⟩, rfl⟩, fun j hj =>
    single_flight hrun (by simp) ?_ _ _ _ hj ⟨⟨.leader, .send, rfl⟩, rfl⟩⟩
  refine allSteps_cons.mpr ⟨?_, fun t ht => allSteps_cons.mpr ⟨?_, fun t _ => allSteps_nil t⟩⟩
  · intro i token tx he hentry
    cases hentry
  · cases ht
    intro i token tx he hentry
    cases he
    cases hentry
    rfl

/-- **The window.** Nobody is cancelled. Request 0 leads and sends; request 1 takes the lock between
that `tx.send` and the `drop(guard)`, has missed the outcome and calls Keycloak itself; request 2
finds the map empty and calls Keycloak as well. Two calls for one token are in flight. -/
theorem two_calls_in_flight :
    ¬ ∀ (events : List Event) (s : State),
      run (SingleFlight.step testClient testSha256) SingleFlight.init events = some s →
      (∀ i, .cancel i ∉ events) →
      ∀ token i j, InFlight s token i → InFlight s token j → i = j := by
  intro h
  have hrun : run (SingleFlight.step testClient testSha256) SingleFlight.init
      [.lock 0 "same.token", .sendResult 0 (.ok ⟨200, "OK"⟩), .jsonResult 0 (.ok testBody) 0,
       .publish 0, .lock 1 "same.token", .dropGuard 0, .recv 1, .lock 2 "same.token"]
      = some _ := rfl
  have h12 := h _ _ hrun (by simp) "same.token" 1 2 ⟨⟨.fallback, .send, rfl⟩, rfl⟩
    ⟨⟨.leader, .send, rfl⟩, rfl⟩
  cases h12

end Urheilulaatikko.Server.Auth.SingleFlight
