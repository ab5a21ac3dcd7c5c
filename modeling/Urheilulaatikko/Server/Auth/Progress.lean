import Urheilulaatikko.Lib.Progress
import Urheilulaatikko.Server.Auth.Inflight

/-!
# Every `introspect` comes to an end

`Inflight` says that no follower is wedged. Here is what follows for whole runs: a request takes at
most five steps (`ranked`), and as long as one is on its way, one of those on their way can take a
step of its own, because a follower that has to wait waits for a live leader (`exists_step`). So
requests can always be brought to an end, whatever has been cancelled before, and a state in which
nothing more can happen is one in which nothing is left to do.
-/

namespace Urheilulaatikko.Server.Auth.SingleFlight

open Broadcast Trace

variable {client : IntrospectionClient} {sha256 : String → Key}

/-- How many steps a request can still take. -/
def Pc.rank : Pc → Nat
  | .notStarted              => 5
  | .calling .leader .send   => 4
  | .calling .leader .json   => 3
  | .publishing _            => 2
  | .droppingGuard _         => 1
  | .unwinding               => 1
  | .waiting _ _             => 3
  | .calling .fallback .send => 2
  | .calling .fallback .json => 1
  | .returned _              => 0
  | .cancelled               => 0

/-- The request has not begun, or it is over. -/
def Pc.idle : Pc → Bool
  | .notStarted | .returned _ | .cancelled => true
  | _ => false

/-- The client has gone away. -/
def Pc.abandoned : Pc → Bool
  | .unwinding | .cancelled => true
  | _ => false

/-- What happens by itself: no new request, and no cancellation. -/
def Event.internal : Event → Bool
  | .lock _ _ | .cancel _ => false
  | _ => true

/-! ## Every step brings its request closer to the end

Five steps are the most that a request can take, however the others move in between. -/

theorem Role.rank_finish_lt (role : Role) (outcome : IntrospectionOutcome) (pc : CallPc) :
    (role.finish outcome).rank < (Pc.calling role pc).rank := by
  cases role <;> cases pc <;> simp [Role.finish, Pc.rank]

theorem Move.rank_lt {s s' : State} {e : Event} (h : Move client sha256 s e s') :
    (s'.requests e.request).pc.rank < (s.requests e.request).pc.rank := by
  cases h with
  | lead hpc =>
      rw [Event.request, State.requests_lead_self, hpc]
      simp [Pc.rank]
  | follow hpc =>
      rw [Event.request, State.requests_follow_self, hpc]
      simp [Pc.rank]
  | @awaitBody i role status hpc hok =>
      rw [Event.request, State.pc_setPc_self, hpc]
      cases role <;> simp [Pc.rank]
  | sendFailed hpc hr =>
      rw [Event.request, State.pc_setPc_self, hpc]
      exact Role.rank_finish_lt ..
  | body hpc =>
      rw [Event.request, State.pc_setPc_self, hpc]
      exact Role.rank_finish_lt ..
  | @cancelLeader i pc hpc =>
      rw [Event.request, State.pc_setPc_self, hpc]
      cases pc <;> simp [Pc.rank]
  | cancelOther hpc =>
      rw [Event.request, State.pc_setPc_self]
      rcases hpc with ⟨pc, hpc⟩ | ⟨tx, rx, hpc⟩
      · rw [hpc]
        cases pc <;> simp [Pc.rank]
      · rw [hpc]
        simp [Pc.rank]
  | publish hpc | dropGuard hpc | unwind hpc | recvOk hpc hrecv | recvErr hpc hrecv =>
      rw [Event.request, State.pc_setPc_self, hpc]
      simp [Pc.rank]

variable (client sha256) in
theorem ranked : Ranked (step client sha256) Event.request fun i s => (s.requests i).pc.rank where
  lower hstep     := (move_of_step hstep).rank_lt
  other hstep hne := by rw [(move_of_step hstep).requests_ne hne]

/-! ## Somebody can always move

Only a follower waits for another request, and its leader never waits for anybody. -/

/-- A request that is not waiting for another one can take its next step. -/
theorem exists_own_step (client : IntrospectionClient) (sha256 : String → Key) {s : State}
    {i : RequestId} (hidle : (s.requests i).pc.idle = false)
    (hwait : ∀ tx rx, (s.requests i).pc ≠ .waiting tx rx) :
    ∃ e s', e.internal = true ∧ e.request = i ∧ step client sha256 s e = some s' := by
  cases hpc : (s.requests i).pc with
  | notStarted | returned _ | cancelled =>
      rw [hpc] at hidle
      cases hidle
  | waiting tx rx => exact absurd hpc (hwait tx rx)
  | calling role pc =>
      cases pc with
      | send =>
          exact ⟨.sendResult i (.error "connection refused"), _, rfl, rfl, by rw [step, hpc]; rfl⟩
      | json => exact ⟨.jsonResult i (.error "end of file") 0, _, rfl, rfl, by rw [step, hpc]⟩
  | publishing outcome => exact ⟨.publish i, _, rfl, rfl, by rw [step, hpc]⟩
  | droppingGuard outcome => exact ⟨.dropGuard i, _, rfl, rfl, by rw [step, hpc]⟩
  | unwinding => exact ⟨.dropGuard i, _, rfl, rfl, by rw [step, hpc]⟩

theorem Pc.not_waiting_of_isLeader {pc : Pc} (h : pc.isLeader = true) :
    pc.idle = false ∧ ∀ tx rx, pc ≠ .waiting tx rx := by
  cases pc with
  | calling role cpc =>
      cases role with
      | leader => exact ⟨rfl, nofun⟩
      | fallback => cases h
  | publishing | droppingGuard | unwinding => exact ⟨rfl, nofun⟩
  | notStarted | waiting | returned | cancelled => cases h

/-- A follower has something to receive, or else its leader can move. -/
theorem Inv.exists_step {s : State} (h : Inv sha256 s) (client : IntrospectionClient)
    {i : RequestId} (hidle : (s.requests i).pc.idle = false) :
    ∃ e s', e.internal = true ∧ (s.requests e.request).pc.idle = false ∧
      step client sha256 s e = some s' := by
  by_cases hwait : ∀ tx rx, (s.requests i).pc ≠ .waiting tx rx
  · obtain ⟨e, s', he, rfl, hstep⟩ := exists_own_step client sha256 hidle hwait
    exact ⟨e, s', he, hidle, hstep⟩
  · simp only [not_forall, not_not] at hwait
    obtain ⟨tx, rx, hpc⟩ := hwait
    cases hrecv : (s.channels tx).recv rx with
    | ok outcome =>
        exact ⟨.recv i, s.setPc i (.returned outcome), rfl, hidle, by simp [step, hpc, hrecv]⟩
    | lagged _ | closed =>
        exact ⟨.recv i, s.setPc i (.calling .fallback .send), rfl, hidle,
          by simp [step, hpc, hrecv]⟩
    | pending =>
        -- nothing sent and not closed: the leader is live
        have hopen : (s.channels tx).closed ≠ true := by
          intro hclosed
          have hlen : (s.channels tx).sent.length ≤ rx.next := by
            by_contra hlt
            rw [Nat.not_le] at hlt
            unfold Channel.recv at hrecv
            rw [List.getElem?_eq_getElem hlt] at hrecv
            dsimp only at hrecv
            split at hrecv <;> cases hrecv
          rw [Channel.recv_eq_closed_iff.mpr ⟨hlen, hclosed⟩] at hrecv
          cases hrecv
        have hlive := (h.waiting i tx rx hpc).live.resolve_right hopen
        obtain ⟨hbusy, hnot⟩ := Pc.not_waiting_of_isLeader hlive
        obtain ⟨e, s', he, rfl, hstep⟩ := exists_own_step client sha256 hbusy hnot
        exact ⟨e, s', he, hbusy, hstep⟩

/-! ## Nobody is given up unless the client goes away

Steps that happen by themselves neither start a request nor cancel one, so whoever is on the way
stays on the way or returns. -/

theorem Move.abandoned {s s' : State} {e : Event} (h : Move client sha256 s e s')
    (he : e.internal = true) {i : RequestId}
    (hi : (s.requests i).pc.abandoned = false) : (s'.requests i).pc.abandoned = false := by
  by_cases hie : i = e.request
  · subst hie
    cases h with
    | lead | follow | cancelLeader | cancelOther => cases he
    | @sendFailed i role r outcome hpc hr | @body i role r now hpc =>
        rw [Event.request, State.pc_setPc_self]
        cases role <;> rfl
    | unwind hpc =>
        rw [Event.request, hpc] at hi
        cases hi
    | awaitBody | publish | dropGuard | recvOk | recvErr =>
        rw [Event.request, State.pc_setPc_self]
        rfl
  · rwa [h.requests_ne hie]

theorem Move.notStarted {s s' : State} {e : Event} (h : Move client sha256 s e s') {i : RequestId}
    (hi : (s.requests i).pc ≠ .notStarted) : (s'.requests i).pc ≠ .notStarted := by
  by_cases hie : i = e.request
  · rw [hie]
    exact h.started
  · rwa [h.requests_ne hie]

/-- What a request has become after steps that happen by themselves. -/
theorem run_internal {s s' : State} {es : List Event} (hes : ∀ e ∈ es, e.internal = true)
    (hrun : run (step client sha256) s es = some s') {i : RequestId}
    (hstarted : (s.requests i).pc ≠ .notStarted) :
    (s'.requests i).pc ≠ .notStarted ∧
      ((s.requests i).pc.abandoned = false → (s'.requests i).pc.abandoned = false) := by
  induction es generalizing s with
  | nil =>
      cases hrun
      exact ⟨hstarted, id⟩
  | cons e es ih =>
      obtain ⟨t, hstep, hrest⟩ := run_cons_eq_some.mp hrun
      have hmove := move_of_step hstep
      obtain ⟨hstarted', hkeep⟩ :=
        ih (fun e' he' => hes e' (List.mem_cons_of_mem e he')) hrest (hmove.notStarted hstarted)
      refine ⟨hstarted', ?_⟩
      intro hi
      exact hkeep (hmove.abandoned (hes e List.mem_cons_self) hi)

/-! ## Together

The rank bounds every run, the progress lemma continues every run that is not at its end, and what
is left at the end is an empty map. -/

theorem Inv.inflight_eq_none {s : State} (h : Inv sha256 s)
    (hidle : ∀ i, (s.requests i).pc.idle = true) (k : Key) : s.inflight k = none := by
  cases hk : s.inflight k with
  | none => rfl
  | some tx =>
      have hbusy := (Pc.not_waiting_of_isLeader (h.entry k tx hk).1).1
      rw [hidle tx] at hbusy
      cases hbusy

/-- A request of a run has begun with a `lock`, so the requests on their way are finitely many. -/
theorem mem_of_busy {events : List Event} {s : State}
    (hrun : run (step client sha256) init events = some s) {i : RequestId}
    (hi : (s.requests i).pc ≠ .notStarted) : i ∈ events.map Event.request := by
  refine run_induction (P := fun es s => ∀ i, (s.requests i).pc ≠ .notStarted →
    i ∈ es.map Event.request) ?_ ?_ hrun i hi
  · intro i hi
    exact absurd rfl hi
  · intro es s e s' _ ih hstep i hi
    rw [List.map_append, List.mem_append]
    by_cases hie : i = e.request
    · exact .inr (by simp [hie])
    · rw [(move_of_step hstep).requests_ne hie] at hi
      exact .inl (ih i hi)

/-- **Every `introspect` comes to an end.** In every run, with any cancellations: no request takes
more than five steps; a state in which nothing happens by itself any more has no request on its way
and an empty map; and from every state reached steps that happen by themselves lead to such a state,
in which every request that had begun and was not cancelled has an outcome. -/
theorem introspect_completes {events : List Event} {s : State}
    (hrun : run (step client sha256) init events = some s) :
    (∀ i, events.countP (·.request = i) ≤ 5) ∧
    ((∀ e, e.internal = true → step client sha256 s e = none) →
      (∀ i, (s.requests i).pc.idle = true) ∧ ∀ k, s.inflight k = none) ∧
    ∃ es s', (∀ e ∈ es, e.internal = true) ∧ run (step client sha256) s es = some s' ∧
      (∀ k, s'.inflight k = none) ∧
      ∀ i, (s.requests i).pc ≠ .notStarted → (s.requests i).pc.abandoned = false →
        ∃ outcome, (s'.requests i).pc = .returned outcome := by
  have hinv := Inv.of_run hrun
  refine ⟨?_, ?_, ?_⟩
  · intro i
    have hle := (ranked client sha256).count_add_rank_le hrun i
    have hfive : (init.requests i).pc.rank = 5 := rfl
    omega
  · intro hstuck
    have hidle : ∀ i, (s.requests i).pc.idle = true := by
      intro i
      by_contra hbusy
      obtain ⟨e, s', he, -, hstep⟩ := hinv.exists_step client (Bool.not_eq_true _ ▸ hbusy)
      rw [hstuck e he] at hstep
      cases hstep
    exact ⟨hidle, hinv.inflight_eq_none hidle⟩
  · have hparties : ∀ i, ¬ (s.requests i).pc.idle = true → i ∈ events.map Event.request := by
      intro i hi
      apply mem_of_busy hrun
      intro hpc
      rw [hpc] at hi
      exact hi rfl
    obtain ⟨es, s', hes, hrun', hinv', hdone⟩ := (ranked client sha256).exists_completion
      (Inv sha256) (fun i s => (s.requests i).pc.idle = true) (fun e => e.internal = true)
      (fun hs hstep => hs.move (move_of_step hstep))
      (fun hstep hne => by rw [(move_of_step hstep).requests_ne hne])
      (fun hs hbusy => by
        obtain ⟨i, hi⟩ := hbusy
        obtain ⟨e, s', he, hbusy', hstep⟩ := hs.exists_step client (Bool.not_eq_true _ ▸ hi)
        exact ⟨e, s', he, by simp [hbusy'], hstep⟩)
      hinv (events.map Event.request) hparties
    refine ⟨es, s', hes, hrun', hinv'.inflight_eq_none hdone, ?_⟩
    intro i hstarted hkept
    obtain ⟨hstarted', hkept'⟩ := run_internal hes hrun' hstarted
    have hidle := hdone i
    have hnot := hkept' hkept
    cases hpc : (s'.requests i).pc with
    | returned outcome => exact ⟨outcome, rfl⟩
    | notStarted => exact absurd hpc hstarted'
    | cancelled =>
        rw [hpc] at hnot
        cases hnot
    | calling | publishing | droppingGuard | waiting | unwinding =>
        rw [hpc] at hidle
        cases hidle

/-- A follower whose leader is cancelled before Keycloak has answered still gets an outcome. -/
theorem introspect_completes_cancelled :
    ∃ s, run (step testClient testSha256) init
        [.lock 0 "same.token", .lock 1 "same.token", .cancel 0] = some s ∧
      (s.requests 1).pc = .waiting 0 ⟨0⟩ ∧
      ∃ es s', (∀ e ∈ es, e.internal = true) ∧ run (step testClient testSha256) s es = some s' ∧
        ∃ outcome, (s'.requests 1).pc = .returned outcome := by
  have hrun : run (step testClient testSha256) init
      [.lock 0 "same.token", .lock 1 "same.token", .cancel 0] = some _ := rfl
  obtain ⟨-, -, es, s', hes, hrun', -, hreturned⟩ := introspect_completes hrun
  exact ⟨_, hrun, rfl, es, s', hes, hrun', hreturned 1 (by decide) rfl⟩

end Urheilulaatikko.Server.Auth.SingleFlight
