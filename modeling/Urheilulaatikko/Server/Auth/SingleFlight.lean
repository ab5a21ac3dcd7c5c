import Mathlib.Logic.Function.Basic
import Urheilulaatikko.Lib.Trace
import Urheilulaatikko.Lib.Broadcast
import Urheilulaatikko.Server.Auth.Introspection

/-!
# The in-flight map: `introspect` as a state machine

Any number of `introspect` calls on one `IntrospectionClient`, each cut into its atomic steps: a
critical section on the `inflight` mutex, or the stretch of code between two awaits. An event names
the request that moves and whatever the outside contributes to the step (an HTTP result, a clock
reading), so that a list of events is one interleaving with one behaviour of Keycloak.

    lock ──▶ calling leader ──▶ publishing ──▶ droppingGuard ──▶ returned
      │            └── cancel ──▶ unwinding ──▶ cancelled
      └────▶ waiting ──▶ returned
                └─────▶ calling fallback ──▶ returned

* A request creates at most one broadcast channel, so the channel (and its sender in the map) is
  named by the request that created it: `inflight k = some tx` says that the sender stored under
  `k` is the one request `tx` inserted.
* A cancelled leader runs `InflightGuard::drop`, which takes the mutex once more. Other requests
  may get in between: `unwinding` is the state of a leader that is already being dropped while its
  entry is still in the map.
* No code panics while holding the mutex, so it is never poisoned and `lock()` always succeeds.
-/

namespace Urheilulaatikko.Server.Auth.SingleFlight

open Broadcast Trace

/-- `[u8; 32]`, the SHA-256 digest of a token. -/
abbrev Key := Vector UInt8 32

abbrev RequestId := Nat

/-- Why a request makes a `call` of its own: it is the leader for its token and holds the guard, or
its `recv` failed. -/
inductive Role where
  | leader
  | fallback
  deriving DecidableEq, Repr

/-- The await inside `call` that a request is suspended at. -/
inductive CallPc where
  | send
  | json
  deriving DecidableEq, Repr

inductive Pc where
  | notStarted
  /-- Inside `call`. -/
  | calling (role : Role) (pc : CallPc)
  /-- The leader's `call` has returned; it is about to lock the map and send. -/
  | publishing (outcome : IntrospectionOutcome)
  /-- The leader has sent; it is about to lock the map again in `drop(guard)`. -/
  | droppingGuard (outcome : IntrospectionOutcome)
  /-- A follower in `rx.recv().await`, subscribed to the channel of `tx`. -/
  | waiting (tx : RequestId) (rx : Receiver)
  | returned (outcome : IntrospectionOutcome)
  /-- A leader cancelled inside `call`; its guard is being dropped. -/
  | unwinding
  | cancelled
  deriving DecidableEq, Repr

/-- Where a request goes when its `call` returns. -/
def Role.finish : Role → IntrospectionOutcome → Pc
  | .leader,   outcome => .publishing outcome
  | .fallback, outcome => .returned outcome

/-- A live leader: it has inserted its entry and has not yet dropped its `InflightGuard`. -/
def Pc.isLeader : Pc → Bool
  | .calling .leader _ | .publishing _ | .droppingGuard _ | .unwinding => true
  | _ => false

/-- What a leader has sent on its channel so far. -/
def Pc.published : Pc → List IntrospectionOutcome
  | .droppingGuard outcome => [outcome]
  | _ => []

structure Request where
  token : String := ""
  pc    : Pc := .notStarted

structure State where
  requests : RequestId → Request
  inflight : Key → Option RequestId
  channels : RequestId → Channel IntrospectionOutcome

/-- A fresh `IntrospectionClient`: no request yet, an empty map. -/
def init : State where
  requests _ := {}
  inflight _ := none
  channels _ := Channel.new 1

namespace State

def setPc (s : State) (i : RequestId) (pc : Pc) : State :=
  { s with requests := Function.update s.requests i { s.requests i with pc } }

/-- `None => { let (tx, _rx) = broadcast::channel(1); inflight.insert(key, tx); None }`. -/
def lead (s : State) (i : RequestId) (token : String) (key : Key) : State where
  requests := Function.update s.requests i { token, pc := .calling .leader .send }
  inflight := Function.update s.inflight key (some i)
  channels := Function.update s.channels i (Channel.new 1)

/-- `Some(tx) => Some(tx.subscribe())`. -/
def follow (s : State) (i : RequestId) (token : String) (tx : RequestId) : State :=
  { s with requests :=
      Function.update s.requests i { token, pc := .waiting tx (s.channels tx).subscribe } }

/-- `if let Some(tx) = inflight.get(&key) { let _ = tx.send(outcome.clone()); }`. -/
def send (s : State) (key : Key) (outcome : IntrospectionOutcome) : State :=
  match s.inflight key with
  | some tx => { s with channels := Function.update s.channels tx ((s.channels tx).send outcome) }
  | none => s

/-- `map.remove(&self.key)`. The removed sender is dropped on the spot, which closes its channel. -/
def remove (s : State) (key : Key) : State :=
  match s.inflight key with
  | some tx =>
      { s with inflight := Function.update s.inflight key none
               channels := Function.update s.channels tx (s.channels tx).close }
  | none => s

/-- What `authenticate` has returned to request `i`, once it has. -/
def result (s : State) (i : RequestId) : Option (Except AppError AuthenticatedUser) :=
  match (s.requests i).pc with
  | .returned outcome => some outcome.into
  | _ => none

end State

inductive Event where
  /-- Request `i` starts with `token` and runs to its first await: the critical section that either
  inserts or subscribes. -/
  | lock (i : RequestId) (token : String)
  /-- The `.send().await` of `i` completes: a connection error, or a response with this status. -/
  | sendResult (i : RequestId) (r : Except String StatusCode)
  /-- The `.json().await` of `i` completes, and `evaluate` reads the clock. -/
  | jsonResult (i : RequestId) (r : Except String IntrospectionResponse) (now : Int)
  /-- The leader's critical section around `tx.send`. -/
  | publish (i : RequestId)
  /-- The critical section of `InflightGuard::drop`. -/
  | dropGuard (i : RequestId)
  /-- The `rx.recv().await` of `i` completes. -/
  | recv (i : RequestId)
  /-- The future of `i` is dropped at the await it is suspended at. -/
  | cancel (i : RequestId)

/-- The request that moves. -/
def Event.request : Event → RequestId
  | .lock i _ | .sendResult i _ | .jsonResult i _ _ | .publish i | .dropGuard i | .recv i
  | .cancel i => i

section Step

variable (client : IntrospectionClient) (sha256 : String → Key)

/-- One atomic step. `none`: the request is not at a point where this event can happen. -/
def step (s : State) : Event → Option State
  | .lock i token =>
      match (s.requests i).pc with
      | .notStarted =>
          match s.inflight (sha256 token) with
          | some tx => some (s.follow i token tx)
          | none    => some (s.lead i token (sha256 token))
      | _ => none
  | .sendResult i r =>
      match (s.requests i).pc with
      | .calling role .send =>
          match callAfterSend r with
          | none         => some (s.setPc i (.calling role .json))
          | some outcome => some (s.setPc i (role.finish outcome))
      | _ => none
  | .jsonResult i r now =>
      match (s.requests i).pc with
      | .calling role .json => some (s.setPc i (role.finish (client.callAfterJson now r)))
      | _ => none
  | .publish i =>
      match (s.requests i).pc with
      | .publishing outcome =>
          some ((s.send (sha256 (s.requests i).token) outcome).setPc i (.droppingGuard outcome))
      | _ => none
  | .dropGuard i =>
      match (s.requests i).pc with
      | .droppingGuard outcome =>
          some ((s.remove (sha256 (s.requests i).token)).setPc i (.returned outcome))
      | .unwinding => some ((s.remove (sha256 (s.requests i).token)).setPc i .cancelled)
      | _ => none
  | .recv i =>
      match (s.requests i).pc with
      | .waiting tx rx =>
          match (s.channels tx).recv rx with
          | .ok outcome => some (s.setPc i (.returned outcome))
          | .lagged _   => some (s.setPc i (.calling .fallback .send))
          | .closed     => some (s.setPc i (.calling .fallback .send))
          | .pending    => none
      | _ => none
  | .cancel i =>
      match (s.requests i).pc with
      | .calling .leader _   => some (s.setPc i .unwinding)
      | .calling .fallback _ => some (s.setPc i .cancelled)
      | .waiting _ _         => some (s.setPc i .cancelled)
      | _ => none

/-! ## What a step can do

`Move` lists the steps with the facts under which each is taken. Every invariant is proved by cases
on it, so that `step` is unfolded once, in `move_of_step`. -/

inductive Move (s : State) : Event → State → Prop
  | lead {i token} (hpc : (s.requests i).pc = .notStarted)
      (hentry : s.inflight (sha256 token) = none) :
      Move s (.lock i token) (s.lead i token (sha256 token))
  | follow {i token tx} (hpc : (s.requests i).pc = .notStarted)
      (hentry : s.inflight (sha256 token) = some tx) :
      Move s (.lock i token) (s.follow i token tx)
  | awaitBody {i role status} (hpc : (s.requests i).pc = .calling role .send)
      (hok : status.isSuccess = true) :
      Move s (.sendResult i (.ok status)) (s.setPc i (.calling role .json))
  | sendFailed {i role r outcome} (hpc : (s.requests i).pc = .calling role .send)
      (hr : callAfterSend r = some outcome) :
      Move s (.sendResult i r) (s.setPc i (role.finish outcome))
  | body {i role r now} (hpc : (s.requests i).pc = .calling role .json) :
      Move s (.jsonResult i r now) (s.setPc i (role.finish (client.callAfterJson now r)))
  | publish {i outcome} (hpc : (s.requests i).pc = .publishing outcome) :
      Move s (.publish i)
        ((s.send (sha256 (s.requests i).token) outcome).setPc i (.droppingGuard outcome))
  | dropGuard {i outcome} (hpc : (s.requests i).pc = .droppingGuard outcome) :
      Move s (.dropGuard i)
        ((s.remove (sha256 (s.requests i).token)).setPc i (.returned outcome))
  | unwind {i} (hpc : (s.requests i).pc = .unwinding) :
      Move s (.dropGuard i) ((s.remove (sha256 (s.requests i).token)).setPc i .cancelled)
  | recvOk {i tx rx outcome} (hpc : (s.requests i).pc = .waiting tx rx)
      (hrecv : (s.channels tx).recv rx = .ok outcome) :
      Move s (.recv i) (s.setPc i (.returned outcome))
  | recvErr {i tx rx} (hpc : (s.requests i).pc = .waiting tx rx)
      (hrecv : (s.channels tx).recv rx = .closed ∨ ∃ n, (s.channels tx).recv rx = .lagged n) :
      Move s (.recv i) (s.setPc i (.calling .fallback .send))
  | cancelLeader {i pc} (hpc : (s.requests i).pc = .calling .leader pc) :
      Move s (.cancel i) (s.setPc i .unwinding)
  | cancelOther {i} (hpc : (∃ pc, (s.requests i).pc = .calling .fallback pc) ∨
      ∃ tx rx, (s.requests i).pc = .waiting tx rx) :
      Move s (.cancel i) (s.setPc i .cancelled)

variable {client sha256}

theorem move_of_step {s s' : State} {e : Event} (h : step client sha256 s e = some s') :
    Move client sha256 s e s' := by
  cases e with
  | lock i token =>
      simp only [step] at h
      split at h
      · next hpc =>
          split at h
          · next tx hentry => cases h; exact .follow hpc hentry
          · next hentry => cases h; exact .lead hpc hentry
      · cases h
  | sendResult i r =>
      simp only [step] at h
      split at h
      · next role hpc =>
          split at h
          · next hr =>
              cases h
              obtain ⟨status, rfl, hok⟩ := callAfterSend_eq_none hr
              exact .awaitBody hpc hok
          · next outcome hr => cases h; exact .sendFailed hpc hr
      · cases h
  | jsonResult i r now =>
      simp only [step] at h
      split at h
      · next role hpc => cases h; exact .body hpc
      · cases h
  | publish i =>
      simp only [step] at h
      split at h
      · next outcome hpc => cases h; exact .publish hpc
      · cases h
  | dropGuard i =>
      simp only [step] at h
      split at h
      · next outcome hpc => cases h; exact .dropGuard hpc
      · next hpc => cases h; exact .unwind hpc
      · cases h
  | recv i =>
      simp only [step] at h
      split at h
      · next tx rx hpc =>
          split at h
          · next outcome hrecv => cases h; exact .recvOk hpc hrecv
          · next n hrecv => cases h; exact .recvErr hpc (.inr ⟨n, hrecv⟩)
          · next hrecv => cases h; exact .recvErr hpc (.inl hrecv)
          · cases h
      · cases h
  | cancel i =>
      simp only [step] at h
      split at h
      · next pc hpc => cases h; exact .cancelLeader hpc
      · next pc hpc => cases h; exact .cancelOther (.inl ⟨pc, hpc⟩)
      · next tx rx hpc => cases h; exact .cancelOther (.inr ⟨tx, rx, hpc⟩)
      · cases h

end Step

/-! ## Reading an updated state

One lemma for each part of the state and each update, for `simp`. After them come the facts about a
single step that every invariant needs. -/

namespace State

variable (s : State) (i j : RequestId) (token : String) (tx : RequestId) (key k : Key)
  (pc : Pc) (outcome : IntrospectionOutcome)

@[simp] theorem inflight_setPc : (s.setPc i pc).inflight = s.inflight := rfl
@[simp] theorem channels_setPc : (s.setPc i pc).channels = s.channels := rfl
@[simp] theorem inflight_follow : (s.follow i token tx).inflight = s.inflight := rfl
@[simp] theorem channels_follow : (s.follow i token tx).channels = s.channels := rfl

@[simp] theorem requests_send : (s.send key outcome).requests = s.requests := by
  unfold send; split <;> rfl

@[simp] theorem inflight_send : (s.send key outcome).inflight = s.inflight := by
  unfold send; split <;> rfl

@[simp] theorem requests_remove : (s.remove key).requests = s.requests := by
  unfold remove; split <;> rfl

@[simp] theorem token_setPc : ((s.setPc i pc).requests j).token = (s.requests j).token := by
  by_cases hij : j = i
  · subst hij; simp [setPc]
  · simp [setPc, hij]

@[simp] theorem pc_setPc_self : ((s.setPc i pc).requests i).pc = pc := by simp [setPc]

variable {i j} in
theorem requests_setPc_ne (h : j ≠ i) : (s.setPc i pc).requests j = s.requests j := by
  simp [setPc, h]

@[simp] theorem requests_lead_self :
    (s.lead i token key).requests i = { token, pc := .calling .leader .send } := by simp [lead]

variable {i j} in
theorem requests_lead_ne (h : j ≠ i) : (s.lead i token key).requests j = s.requests j := by
  simp [lead, h]

@[simp] theorem requests_follow_self : (s.follow i token tx).requests i =
    { token, pc := .waiting tx (s.channels tx).subscribe } := by simp [follow]

variable {i j} in
theorem requests_follow_ne (h : j ≠ i) : (s.follow i token tx).requests j = s.requests j := by
  simp [follow, h]

end State

/-- A step moves no request but its own. -/
theorem Move.requests_ne {client : IntrospectionClient} {sha256 : String → Key} {s s' : State}
    {e : Event} (h : Move client sha256 s e s') {j : RequestId} (hj : j ≠ e.request) :
    s'.requests j = s.requests j := by
  cases h with
  | lead => exact State.requests_lead_ne _ _ _ hj
  | follow => exact State.requests_follow_ne _ _ _ hj
  | publish =>
      exact (State.requests_setPc_ne _ _ hj).trans (by rw [State.requests_send])
  | dropGuard | unwind =>
      exact (State.requests_setPc_ne _ _ hj).trans (by rw [State.requests_remove])
  | _ => exact State.requests_setPc_ne _ _ hj

theorem Role.finish_ne_notStarted (role : Role) (outcome : IntrospectionOutcome) :
    role.finish outcome ≠ .notStarted := by
  cases role <;> simp [Role.finish]

/-- A request that has moved has started. -/
theorem Move.started {client : IntrospectionClient} {sha256 : String → Key} {s s' : State}
    {e : Event} (h : Move client sha256 s e s') : (s'.requests e.request).pc ≠ .notStarted := by
  cases h with
  | lead => simp only [Event.request, State.requests_lead_self]; simp
  | follow => simp only [Event.request, State.requests_follow_self]; simp
  | sendFailed | body =>
      simp only [Event.request, State.pc_setPc_self]
      exact Role.finish_ne_notStarted _ _
  | _ => simp only [Event.request, State.pc_setPc_self]; simp

/-- Only `dropGuard` ends a leader. -/
theorem Move.isLeader {client : IntrospectionClient} {sha256 : String → Key} {s s' : State}
    {e : Event} (h : Move client sha256 s e s') (he : ∀ i, e ≠ .dropGuard i) {j : RequestId}
    (hj : (s.requests j).pc.isLeader = true) : (s'.requests j).pc.isLeader = true := by
  by_cases hje : j = e.request
  · subst hje
    cases h with
    | lead hpc | follow hpc | recvOk hpc | recvErr hpc =>
        simp [Event.request, hpc, Pc.isLeader] at hj
    | cancelOther hpc =>
        rcases hpc with ⟨pc, hpc⟩ | ⟨tx, rx, hpc⟩ <;> simp [Event.request, hpc, Pc.isLeader] at hj
    | dropGuard | unwind => exact absurd rfl (he _)
    | @awaitBody i role status hpc | @sendFailed i role r outcome hpc | @body i role r now hpc =>
        simp only [Event.request, hpc] at hj
        simp only [Event.request, State.pc_setPc_self]
        cases role with
        | leader => rfl
        | fallback => cases hj
    | publish | cancelLeader => simp only [Event.request, State.pc_setPc_self]; rfl
  · rw [h.requests_ne hje]
    exact hj

/-- A request gets its token when it starts, and keeps it. -/
theorem Move.token {client : IntrospectionClient} {sha256 : String → Key} {s s' : State}
    {e : Event} (h : Move client sha256 s e s') :
    (∃ i token, e = .lock i token ∧ (s.requests i).pc = .notStarted ∧
      (s'.requests i).token = token) ∨
    ((∀ i token, e ≠ .lock i token) ∧ (s.requests e.request).pc ≠ .notStarted ∧
      (s'.requests e.request).token = (s.requests e.request).token) := by
  cases h with
  | lead hpc => exact .inl ⟨_, _, rfl, hpc, by rw [State.requests_lead_self]⟩
  | follow hpc => exact .inl ⟨_, _, rfl, hpc, by rw [State.requests_follow_self]⟩
  | cancelOther hpc =>
      refine .inr ⟨by simp, ?_, by simp⟩
      rcases hpc with ⟨pc, hpc⟩ | ⟨tx, rx, hpc⟩ <;> simp [Event.request, hpc]
  | _ => exact .inr ⟨by simp, by simp [Event.request, *], by simp⟩

/-- A request that is waiting after a step was waiting before, or has just subscribed. -/
theorem Move.waiting {client : IntrospectionClient} {sha256 : String → Key} {s s' : State}
    {e : Event} (hmove : Move client sha256 s e s') {i tx : RequestId} {rx : Receiver}
    (hpc : (s'.requests i).pc = .waiting tx rx) :
    (s.requests i).pc = .waiting tx rx ∨
      ∃ token, e = .lock i token ∧ s.inflight (sha256 token) = some tx ∧
        rx = (s.channels tx).subscribe ∧ s' = s.follow i token tx := by
  by_cases hi : i = e.request
  · subst hi
    cases hmove with
    | lead => simp [Event.request] at hpc
    | @follow i token c hns hentry =>
        simp only [Event.request, State.requests_follow_self, Pc.waiting.injEq] at hpc
        obtain ⟨rfl, rfl⟩ := hpc
        exact .inr ⟨token, rfl, hentry, rfl, rfl⟩
    | @sendFailed i role r outcome _ _ | @body i role r now _ =>
        cases role <;> simp [Event.request, Role.finish] at hpc
    | _ => simp [Event.request] at hpc
  · rw [hmove.requests_ne hi] at hpc
    exact .inl hpc

/-- The leader may still publish an acceptance: it is waiting for Keycloak's answer, or has it. -/
def Pc.Accepting (pc : Pc) : Prop :=
  (∃ cpc, pc = .calling .leader cpc) ∨ ∃ user, pc = .publishing (.active user)

/-- A leader that may publish an acceptance after a step could do so before. -/
theorem Move.accepting {client : IntrospectionClient} {sha256 : String → Key} {s s' : State}
    {e : Event} (hmove : Move client sha256 s e s') {j : RequestId}
    (hstarted : (s.requests j).pc ≠ .notStarted) (h : (s'.requests j).pc.Accepting) :
    (s.requests j).pc.Accepting := by
  by_cases hj : j = e.request
  · subst hj
    cases hmove with
    | lead hpc | follow hpc => exact absurd hpc hstarted
    | @awaitBody i role status hpc =>
        cases role with
        | leader => exact .inl ⟨_, hpc⟩
        | fallback => simp [Event.request, Pc.Accepting] at h
    | @sendFailed i role r outcome hpc | @body i role r now hpc =>
        cases role with
        | leader => exact .inl ⟨_, hpc⟩
        | fallback => simp [Event.request, Pc.Accepting, Role.finish] at h
    | _ => simp [Event.request, Pc.Accepting] at h
  · rw [hmove.requests_ne hj] at h
    exact h

/-! ## A concrete client, to replay runs on

The audience and the tokens of `tests/introspection.rs`, with the digests SHA-256 gives them. -/

def testClient : IntrospectionClient := { expectedAudience := "totp-server" }

def testSha256 (token : String) : Key :=
  if token = "same.token" then
    #v[0xed, 0x6e, 0xb1, 0xf8, 0x5f, 0x52, 0x56, 0x0b, 0xfe, 0xea, 0xee, 0x62, 0x5a, 0x04, 0x4f, 0x0f,
       0x7c, 0x60, 0x76, 0x72, 0x9d, 0x67, 0x07, 0xee, 0x3b, 0x83, 0x85, 0xad, 0xc5, 0xb5, 0x89, 0xc7]
  else -- "a.valid.token"
    #v[0x98, 0x0a, 0x21, 0x3d, 0x7e, 0xef, 0x20, 0x5e, 0xaa, 0xb2, 0x76, 0x50, 0xb8, 0xe6, 0xc8, 0x2d,
       0x71, 0x7b, 0x0f, 0xc1, 0xe3, 0x50, 0x89, 0xa8, 0x80, 0xa4, 0xd6, 0x12, 0x65, 0x0a, 0x43, 0xf7]

def testBody : IntrospectionResponse where
  active      := true
  sub         := some "user-1"
  aud         := some (.many ["account", "totp-server"])
  exp         := some 300
  realmAccess := some { roles := ["default-roles-lock-demo"] }

def testUser : AuthenticatedUser :=
  { subject := "user-1", realmRoles := ["default-roles-lock-demo"] }

end Urheilulaatikko.Server.Auth.SingleFlight
