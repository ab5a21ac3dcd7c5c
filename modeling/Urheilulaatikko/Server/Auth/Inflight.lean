import Urheilulaatikko.Server.Auth.SingleFlight

/-!
# The in-flight map never leaks an entry and never wedges a follower

`Inv` ties the four parts of the state together: the map, the channel of each entry, the program
counter of each leader and the subscription of each follower. `Inv.move` proves that every step
keeps it, cancellation included. Everything the other modules need to know about the map is read
off from it.
-/

namespace Urheilulaatikko.Server.Auth.SingleFlight

open Broadcast Trace

variable {client : IntrospectionClient} {sha256 : String → Key}

/-- `i` is a live leader for the key `k`. -/
def LiveLeader (sha256 : String → Key) (s : State) (k : Key) (i : RequestId) : Prop :=
  (s.requests i).pc.isLeader = true ∧ sha256 (s.requests i).token = k

/-- What a follower `i` waiting on the channel of `tx` can rely on. -/
structure Subscribed (sha256 : String → Key) (s : State) (i tx : RequestId) (rx : Receiver) :
    Prop where
  started  : (s.requests tx).pc ≠ .notStarted
  sameKey  : sha256 (s.requests tx).token = sha256 (s.requests i).token
  capacity : (s.channels tx).capacity = 1
  sent_le  : (s.channels tx).sent.length ≤ 1
  next_le  : rx.next ≤ (s.channels tx).sent.length
  live     : (s.requests tx).pc.isLeader = true ∨ (s.channels tx).closed = true

structure Inv (sha256 : String → Key) (s : State) : Prop where
  /-- An entry belongs to a live leader for its key … -/
  entry   : ∀ k tx, s.inflight k = some tx → LiveLeader sha256 s k tx
  /-- … and every live leader has its own entry. -/
  leader  : ∀ i, (s.requests i).pc.isLeader = true →
    s.inflight (sha256 (s.requests i).token) = some i
  channel : ∀ i, (s.requests i).pc.isLeader = true →
    s.channels i = { capacity := 1, sent := (s.requests i).pc.published, closed := false }
  waiting : ∀ i tx rx, (s.requests i).pc = .waiting tx rx → Subscribed sha256 s i tx rx

theorem Pc.published_length_le (pc : Pc) : pc.published.length ≤ 1 := by
  cases pc <;> simp [Pc.published]

/-- A step that leaves the two requests and their channel alone leaves the subscription alone. -/
theorem Subscribed.of_eq {s s' : State} {i tx : RequestId} {rx : Receiver}
    (h : Subscribed sha256 s i tx rx) (hi : s'.requests i = s.requests i)
    (htx : s'.requests tx = s.requests tx) (hch : s'.channels tx = s.channels tx) :
    Subscribed sha256 s' i tx rx where
  started  := by rw [htx]; exact h.started
  sameKey  := by rw [htx, hi]; exact h.sameKey
  capacity := by rw [hch]; exact h.capacity
  sent_le  := by rw [hch]; exact h.sent_le
  next_le  := by rw [hch]; exact h.next_le
  live     := by rw [htx, hch]; exact h.live

/-- A channel carries one value, so a value a follower receives was sent after it subscribed to an
empty channel. -/
theorem Subscribed.next_eq_zero {s : State} {i tx : RequestId} {rx : Receiver}
    {v : IntrospectionOutcome} (h : Subscribed sha256 s i tx rx)
    (hget : (s.channels tx).sent[rx.next]? = some v) : rx.next = 0 := by
  have hlt := (List.getElem?_eq_some_iff.mp hget).1
  have hle := h.sent_le
  omega

/-! ## One step

Each kind of step keeps the invariant. A step that only moves its own request is the common case
(`Inv.setPc`); inserting, subscribing, sending and dropping the guard each have a lemma of their
own. -/

theorem Inv.init : Inv sha256 init where
  entry k tx h := by cases h
  leader i h := by cases h
  channel i h := by cases h
  waiting i tx rx h := by cases h

/-- Two live leaders for one key are the same request. -/
theorem Inv.leader_unique {s : State} (h : Inv sha256 s) {k : Key} {i j : RequestId}
    (hi : LiveLeader sha256 s k i) (hj : LiveLeader sha256 s k j) : i = j := by
  have hi' := h.leader i hi.1
  have hj' := h.leader j hj.1
  rw [hi.2] at hi'
  rw [hj.2, hi'] at hj'
  exact Option.some.inj hj'

theorem Inv.send_eq {s : State} (h : Inv sha256 s) {i : RequestId} (outcome : IntrospectionOutcome)
    (hi : (s.requests i).pc.isLeader = true) :
    s.send (sha256 (s.requests i).token) outcome =
      { s with channels := Function.update s.channels i ((s.channels i).send outcome) } := by
  unfold State.send
  rw [h.leader i hi]

theorem Inv.remove_eq {s : State} (h : Inv sha256 s) {i : RequestId}
    (hi : (s.requests i).pc.isLeader = true) :
    s.remove (sha256 (s.requests i).token) =
      { s with inflight := Function.update s.inflight (sha256 (s.requests i).token) none
               channels := Function.update s.channels i (s.channels i).close } := by
  unfold State.remove
  rw [h.leader i hi]

/-- From `s` to `s'` only request `i` moves, and no channel but its own changes. -/
structure MovesOnly (i : RequestId) (s s' : State) : Prop where
  requests : ∀ {j}, j ≠ i → s'.requests j = s.requests j
  token    : ∀ j, (s'.requests j).token = (s.requests j).token
  channels : ∀ {j}, j ≠ i → s'.channels j = s.channels j

theorem MovesOnly.setPc (s : State) (i : RequestId) (pc : Pc) (inflight : Key → Option RequestId)
    (ch : Channel IntrospectionOutcome) :
    MovesOnly i s
      ({ s with inflight, channels := Function.update s.channels i ch }.setPc i pc) where
  requests hij := State.requests_setPc_ne _ _ hij
  token _      := State.token_setPc ..
  channels hij := Function.update_of_ne hij ..

/-- The subscriptions to the others stay as they are; those to `i` are left to show. -/
theorem Inv.waiting_of_movesOnly {s s' : State} (h : Inv sha256 s) {i : RequestId}
    (honly : MovesOnly i s s') (hwait : ∀ tx rx, (s'.requests i).pc ≠ .waiting tx rx)
    (hown : ∀ {j rx}, Subscribed sha256 s j i rx → Subscribed sha256 s' j i rx) :
    ∀ j tx rx, (s'.requests j).pc = .waiting tx rx → Subscribed sha256 s' j tx rx := by
  intro j tx rx hj
  have hij : j ≠ i := by
    rintro rfl
    exact hwait tx rx hj
  rw [honly.requests hij] at hj
  have hsub := h.waiting j tx rx hj
  by_cases htx : tx = i
  · subst htx
    exact hown hsub
  · exact hsub.of_eq (honly.requests hij) (honly.requests htx) (honly.channels htx)

/-- A step that moves one request and touches neither the map nor a channel keeps the invariant, as
long as the request neither gains nor loses the guard and sends nothing. -/
theorem Inv.setPc {s : State} (h : Inv sha256 s) {i : RequestId} {pc : Pc}
    (hguard : pc.isLeader = (s.requests i).pc.isLeader)
    (hsent : pc.published = (s.requests i).pc.published)
    (hwait : ∀ tx rx, pc ≠ .waiting tx rx) (hstart : pc ≠ .notStarted) :
    Inv sha256 (s.setPc i pc) := by
  have honly : MovesOnly i s (s.setPc i pc) := by
    have := MovesOnly.setPc s i pc s.inflight (s.channels i)
    rwa [Function.update_eq_self] at this
  have hlead : ∀ j, ((s.setPc i pc).requests j).pc.isLeader = (s.requests j).pc.isLeader := by
    intro j
    by_cases hij : j = i
    · subst hij; rw [State.pc_setPc_self, hguard]
    · rw [honly.requests hij]
  refine ⟨?_, ?_, ?_, h.waiting_of_movesOnly honly (by simpa using hwait) ?_⟩
  · intro k tx hk
    obtain ⟨h1, h2⟩ := h.entry k tx hk
    exact ⟨by rw [hlead]; exact h1, by rw [State.token_setPc]; exact h2⟩
  · intro j hj
    rw [hlead] at hj
    rw [State.token_setPc]
    exact h.leader j hj
  · intro j hj
    rw [hlead] at hj
    rw [State.channels_setPc, h.channel j hj]
    by_cases hij : j = i
    · subst hij; rw [State.pc_setPc_self, hsent]
    · rw [honly.requests hij]
  · intro j rx hsub
    refine ⟨?_, by simpa using hsub.sameKey, hsub.capacity, hsub.sent_le, hsub.next_le,
      by rw [hlead]; exact hsub.live⟩
    rw [State.pc_setPc_self]
    exact hstart

/-- A request that inserts: it becomes the only leader for its key, on a channel nobody has
subscribed to. -/
theorem Inv.lead {s : State} (h : Inv sha256 s) {i : RequestId} {token : String}
    (hpc : (s.requests i).pc = .notStarted) (hentry : s.inflight (sha256 token) = none) :
    Inv sha256 (s.lead i token (sha256 token)) := by
  have hnew : ∀ {k tx}, s.inflight k = some tx → tx ≠ i := by
    rintro k tx hk rfl
    have := (h.entry k tx hk).1
    rw [hpc] at this
    cases this
  refine ⟨?_, ?_, ?_, ?_⟩
  · intro k tx hk
    simp only [State.lead] at hk
    by_cases hkey : k = sha256 token
    · subst hkey
      rw [Function.update_self] at hk
      cases hk
      exact ⟨by rw [State.requests_lead_self]; rfl, by rw [State.requests_lead_self]⟩
    · rw [Function.update_of_ne hkey] at hk
      unfold LiveLeader
      rw [State.requests_lead_ne _ _ _ (hnew hk)]
      exact h.entry k tx hk
  · intro j hj
    by_cases hij : j = i
    · subst hij; simp [State.lead]
    · rw [State.requests_lead_ne _ _ _ hij] at hj ⊢
      have hold := h.leader j hj
      have hkey : sha256 (s.requests j).token ≠ sha256 token := by
        intro heq
        rw [heq, hentry] at hold
        cases hold
      simp only [State.lead]
      rw [Function.update_of_ne hkey]
      exact hold
  · intro j hj
    by_cases hij : j = i
    · subst hij
      rw [State.requests_lead_self]
      simp only [State.lead, Function.update_self]
      rfl
    · rw [State.requests_lead_ne _ _ _ hij] at hj ⊢
      simp only [State.lead]
      rw [Function.update_of_ne hij]
      exact h.channel j hj
  · intro j tx rx hj
    have hij : j ≠ i := by
      rintro rfl
      rw [State.requests_lead_self] at hj
      cases hj
    rw [State.requests_lead_ne _ _ _ hij] at hj
    have hsub := h.waiting j tx rx hj
    have htx : tx ≠ i := by
      rintro rfl
      exact hsub.started hpc
    have hch : (s.lead i token (sha256 token)).channels tx = s.channels tx := by
      simp only [State.lead]
      rw [Function.update_of_ne htx]
    exact hsub.of_eq (State.requests_lead_ne _ _ _ hij) (State.requests_lead_ne _ _ _ htx) hch

/-- A request that subscribes to the entry it found: the channel is open, and the subscription
starts after whatever has been sent on it. -/
theorem Inv.follow {s : State} (h : Inv sha256 s) {i tx : RequestId} {token : String}
    (hpc : (s.requests i).pc = .notStarted) (hentry : s.inflight (sha256 token) = some tx) :
    Inv sha256 (s.follow i token tx) := by
  obtain ⟨htx, hkey⟩ := h.entry _ _ hentry
  have hlead : ∀ {j}, (s.requests j).pc.isLeader = true → j ≠ i := by
    rintro j hj rfl
    rw [hpc] at hj
    cases hj
  have hlead' : ∀ {j}, ((s.follow i token tx).requests j).pc.isLeader = true → j ≠ i := by
    rintro j hj rfl
    rw [State.requests_follow_self] at hj
    cases hj
  refine ⟨?_, ?_, ?_, ?_⟩
  · intro k c hk
    have hc := h.entry k c hk
    unfold LiveLeader
    rw [State.requests_follow_ne _ _ _ (hlead hc.1)]
    exact hc
  · intro j hj
    have hij := hlead' hj
    rw [State.requests_follow_ne _ _ _ hij] at hj ⊢
    exact h.leader j hj
  · intro j hj
    have hij := hlead' hj
    rw [State.requests_follow_ne _ _ _ hij] at hj ⊢
    exact h.channel j hj
  · intro j c rx hj
    by_cases hij : j = i
    · subst hij
      rw [State.requests_follow_self] at hj
      cases hj
      have hne := hlead htx
      have hch := h.channel tx htx
      refine ⟨?_, ?_, ?_, ?_, ?_, .inl ?_⟩
      · rw [State.requests_follow_ne _ _ _ hne]
        intro hns
        rw [hns] at htx
        cases htx
      · rw [State.requests_follow_ne _ _ _ hne, State.requests_follow_self]
        exact hkey
      · rw [State.channels_follow, hch]
      · rw [State.channels_follow, hch]
        exact Pc.published_length_le _
      · exact Nat.le_refl _
      · rw [State.requests_follow_ne _ _ _ hne]
        exact htx
    · rw [State.requests_follow_ne _ _ _ hij] at hj
      have hsub := h.waiting j c rx hj
      have hc : c ≠ i := by
        rintro rfl
        exact hsub.started hpc
      exact hsub.of_eq (State.requests_follow_ne _ _ _ hij) (State.requests_follow_ne _ _ _ hc) rfl

/-- A leader that sends: its channel, still empty, now holds the outcome for all its followers. -/
theorem Inv.publish {s : State} (h : Inv sha256 s) {i : RequestId}
    {outcome : IntrospectionOutcome} (hpc : (s.requests i).pc = .publishing outcome) :
    Inv sha256
      ((s.send (sha256 (s.requests i).token) outcome).setPc i (.droppingGuard outcome)) := by
  have hi : (s.requests i).pc.isLeader = true := by rw [hpc]; rfl
  have hchi := h.channel i hi
  rw [h.send_eq outcome hi]
  have honly := MovesOnly.setPc s i (.droppingGuard outcome) s.inflight
    ((s.channels i).send outcome)
  generalize hs' : State.setPc _ i (.droppingGuard outcome) = s' at honly ⊢
  have hlead : ∀ j, (s'.requests j).pc.isLeader = (s.requests j).pc.isLeader := by
    intro j
    by_cases hij : j = i
    · subst hij; rw [← hs', State.pc_setPc_self, hi]; rfl
    · rw [honly.requests hij]
  have hself : s'.channels i = { capacity := 1, sent := [outcome], closed := false } := by
    rw [← hs', State.channels_setPc]
    simp only [Function.update_self, hchi, hpc]
    rfl
  refine ⟨?_, ?_, ?_, h.waiting_of_movesOnly honly (by simp [← hs']) ?_⟩
  · intro k tx hk
    rw [← hs'] at hk
    obtain ⟨h1, h2⟩ := h.entry k tx hk
    exact ⟨by rw [hlead]; exact h1, by rw [honly.token]; exact h2⟩
  · intro j hj
    rw [hlead] at hj
    rw [honly.token, ← hs']
    exact h.leader j hj
  · intro j hj
    rw [hlead] at hj
    by_cases hij : j = i
    · subst hij
      rw [hself, ← hs', State.pc_setPc_self]
      rfl
    · rw [honly.channels hij, honly.requests hij]
      exact h.channel j hj
  · intro j rx hsub
    -- nothing had been sent when the follower subscribed
    have hnext : rx.next = 0 := by
      have := hsub.next_le
      rw [hchi, hpc] at this
      simpa [Pc.published] using this
    refine ⟨by simp [← hs'], by rw [honly.token, honly.token]; exact hsub.sameKey, by rw [hself],
      by rw [hself]; exact Nat.le_refl _, by rw [hnext]; exact Nat.zero_le _,
      .inl (by rw [hlead]; exact hi)⟩

/-- A guard that is dropped takes its own entry out of the map and closes its own channel. -/
theorem Inv.drop {s : State} (h : Inv sha256 s) {i : RequestId} {pc : Pc}
    (hi : (s.requests i).pc.isLeader = true) (hpc : pc.isLeader = false)
    (hwait : ∀ tx rx, pc ≠ .waiting tx rx) (hstart : pc ≠ .notStarted) :
    Inv sha256 ((s.remove (sha256 (s.requests i).token)).setPc i pc) := by
  rw [h.remove_eq hi]
  have honly := MovesOnly.setPc s i pc
    (Function.update s.inflight (sha256 (s.requests i).token) none) (s.channels i).close
  generalize hs' : State.setPc _ i pc = s' at honly ⊢
  have hself : (s'.requests i).pc = pc := by rw [← hs', State.pc_setPc_self]
  have hne : ∀ {j}, (s'.requests j).pc.isLeader = true → j ≠ i := by
    rintro j hj rfl
    rw [hself, hpc] at hj
    cases hj
  have hchi : s'.channels i = (s.channels i).close := by
    rw [← hs', State.channels_setPc]
    exact Function.update_self _ _ _
  have hmap : s'.inflight = Function.update s.inflight (sha256 (s.requests i).token) none := by
    rw [← hs']
    rfl
  refine ⟨?_, ?_, ?_, h.waiting_of_movesOnly honly (by rw [hself]; exact hwait) ?_⟩
  · intro k tx hk
    have hkey : k ≠ sha256 (s.requests i).token := by
      rintro rfl
      rw [hmap, Function.update_self] at hk
      cases hk
    rw [hmap, Function.update_of_ne hkey] at hk
    have hold := h.entry k tx hk
    have htx : tx ≠ i := by
      rintro rfl
      exact hkey hold.2.symm
    unfold LiveLeader
    rw [honly.requests htx]
    exact hold
  · intro j hj
    have hij := hne hj
    rw [honly.requests hij] at hj ⊢
    -- another leader for the same key would be `i` itself
    have hkey : sha256 (s.requests j).token ≠ sha256 (s.requests i).token := fun heq =>
      hij (h.leader_unique ⟨hj, heq⟩ ⟨hi, rfl⟩)
    rw [hmap, Function.update_of_ne hkey]
    exact h.leader j hj
  · intro j hj
    have hij := hne hj
    rw [honly.requests hij] at hj ⊢
    rw [honly.channels hij]
    exact h.channel j hj
  · intro j rx hsub
    refine ⟨by rw [hself]; exact hstart, by rw [honly.token, honly.token]; exact hsub.sameKey,
      ?_, ?_, ?_, .inr (by rw [hchi]; rfl)⟩ <;> rw [hchi]
    · exact hsub.capacity
    · exact hsub.sent_le
    · exact hsub.next_le

/-- **Every step keeps the invariant**, cancellation at any await included. -/
theorem Inv.move {s s' : State} {e : Event} (h : Inv sha256 s)
    (hmove : Move client sha256 s e s') : Inv sha256 s' := by
  cases hmove with
  | lead hpc hentry => exact h.lead hpc hentry
  | follow hpc hentry => exact h.follow hpc hentry
  | @awaitBody i role status hpc hok =>
      exact h.setPc (by rw [hpc]; cases role <;> rfl) (by rw [hpc]; rfl) (by simp) (by simp)
  | @sendFailed i role r outcome hpc hr =>
      exact h.setPc (by rw [hpc]; cases role <;> rfl) (by rw [hpc]; cases role <;> rfl)
        (by cases role <;> simp [Role.finish]) (by cases role <;> simp [Role.finish])
  | @body i role r now hpc =>
      exact h.setPc (by rw [hpc]; cases role <;> rfl) (by rw [hpc]; cases role <;> rfl)
        (by cases role <;> simp [Role.finish]) (by cases role <;> simp [Role.finish])
  | publish hpc => exact h.publish hpc
  | dropGuard hpc => exact h.drop (by rw [hpc]; rfl) rfl (by simp) (by simp)
  | unwind hpc => exact h.drop (by rw [hpc]; rfl) rfl (by simp) (by simp)
  | recvOk hpc hrecv => exact h.setPc (by rw [hpc]; rfl) (by rw [hpc]; rfl) (by simp) (by simp)
  | recvErr hpc hrecv => exact h.setPc (by rw [hpc]; rfl) (by rw [hpc]; rfl) (by simp) (by simp)
  | cancelLeader hpc => exact h.setPc (by rw [hpc]; rfl) (by rw [hpc]; rfl) (by simp) (by simp)
  | cancelOther hpc =>
      obtain ⟨pc, hpc⟩ | ⟨tx, rx, hpc⟩ := hpc <;>
        exact h.setPc (by rw [hpc]; rfl) (by rw [hpc]; rfl) (by simp) (by simp)

/-- **The invariant holds in every reachable state.** -/
theorem Inv.of_run {events : List Event} {s : State}
    (hrun : run (SingleFlight.step client sha256) SingleFlight.init events = some s) :
    Inv sha256 s :=
  run_invariant (fun _ _ _ h hstep => Inv.move h (move_of_step hstep)) Inv.init hrun

/-- Dropping a guard closes a channel but changes no history. -/
theorem Inv.sent_remove {s : State} (h : Inv sha256 s) {i : RequestId} (tx : RequestId) (pc : Pc)
    (hi : (s.requests i).pc.isLeader = true) :
    (((s.remove (sha256 (s.requests i).token)).setPc i pc).channels tx).sent =
      (s.channels tx).sent := by
  rw [h.remove_eq hi]
  by_cases htx : tx = i
  · subst htx
    simp
  · simp only [State.channels_setPc, Function.update_of_ne htx]

/-- Whatever a step adds to a channel, the leader that created the channel has published. -/
theorem Inv.mem_sent {s s' : State} {e : Event} (h : Inv sha256 s)
    (hmove : Move client sha256 s e s') {tx : RequestId} {v : IntrospectionOutcome}
    (hv : v ∈ (s'.channels tx).sent) :
    v ∈ (s.channels tx).sent ∨ (e = .publish tx ∧ (s.requests tx).pc = .publishing v) := by
  cases hmove with
  | @lead i token hpc hentry =>
      by_cases htx : tx = i
      · subst htx; simp [State.lead] at hv
      · simp only [State.lead, Function.update_of_ne htx] at hv
        exact .inl hv
  | @publish i outcome hpc =>
      rw [h.send_eq outcome (by rw [hpc]; rfl)] at hv
      by_cases htx : tx = i
      · subst htx
        simp only [State.channels_setPc, Function.update_self, Channel.sent_send,
          List.mem_append, List.mem_singleton] at hv
        rcases hv with hv | rfl
        · exact .inl hv
        · exact .inr ⟨rfl, hpc⟩
      · simp only [State.channels_setPc, Function.update_of_ne htx] at hv
        exact .inl hv
  | dropGuard hpc | unwind hpc =>
      rw [h.sent_remove tx _ (by rw [hpc]; rfl)] at hv
      exact .inl hv
  | _ => exact .inl hv

/-- Nothing that has been sent is ever taken back. -/
theorem Inv.sent_eq_nil {s s' : State} {e : Event} (h : Inv sha256 s)
    (hmove : Move client sha256 s e s') {tx : RequestId}
    (htx : (s.requests tx).pc ≠ .notStarted) (hnil : (s'.channels tx).sent = []) :
    (s.channels tx).sent = [] := by
  cases hmove with
  | @lead i token hpc hentry =>
      have hne : tx ≠ i := by
        rintro rfl
        exact htx hpc
      simpa only [State.lead, Function.update_of_ne hne] using hnil
  | @publish i outcome hpc =>
      rw [h.send_eq outcome (by rw [hpc]; rfl)] at hnil
      by_cases hne : tx = i
      · subst hne
        simp at hnil
      · simpa only [State.channels_setPc, Function.update_of_ne hne] using hnil
  | dropGuard hpc | unwind hpc =>
      rw [h.sent_remove tx _ (by rw [hpc]; rfl)] at hnil
      exact hnil
  | _ => exact hnil

/-! ## What the invariant says about the map and the followers

The entries of the map are the live leaders, and a follower whose leader is gone has an outcome or
the news that there will be none. -/

theorem Inv.entry_iff {s : State} (h : Inv sha256 s) (k : Key) :
    s.inflight k ≠ none ↔ ∃! i, LiveLeader sha256 s k i := by
  constructor
  · intro hk
    obtain ⟨tx, htx⟩ := Option.ne_none_iff_exists'.mp hk
    have hlive := h.entry k tx htx
    exact ⟨tx, hlive, fun j hj => h.leader_unique hj hlive⟩
  · rintro ⟨i, ⟨hi, rfl⟩, -⟩
    rw [h.leader i hi]
    simp

/-- The guard of `i` finds its own entry, and takes nothing else out of the map. -/
theorem Inv.dropGuard_inflight {s s' : State} (h : Inv sha256 s) {i : RequestId}
    (hstep : SingleFlight.step client sha256 s (.dropGuard i) = some s') :
    s.inflight (sha256 (s.requests i).token) = some i ∧
      s'.inflight = Function.update s.inflight (sha256 (s.requests i).token) none := by
  have hi : (s.requests i).pc.isLeader = true := by
    cases move_of_step hstep with
    | dropGuard hpc => rw [hpc]; rfl
    | unwind hpc => rw [hpc]; rfl
  refine ⟨h.leader i hi, ?_⟩
  have hmap : (s.remove (sha256 (s.requests i).token)).inflight =
      Function.update s.inflight (sha256 (s.requests i).token) none := by
    rw [h.remove_eq hi]
  cases move_of_step hstep with
  | dropGuard hpc => rw [State.inflight_setPc, hmap]
  | unwind hpc => rw [State.inflight_setPc, hmap]

/-- A follower whose leader is live waits on the entry that is in the map. -/
theorem Inv.waiting_entry {s : State} (h : Inv sha256 s) {i tx : RequestId} {rx : Receiver}
    (hpc : (s.requests i).pc = .waiting tx rx) (hlive : (s.requests tx).pc.isLeader = true) :
    s.inflight (sha256 (s.requests i).token) = some tx := by
  rw [← (h.waiting i tx rx hpc).sameKey]
  exact h.leader tx hlive

theorem Inv.recv_ne_lagged {s : State} (h : Inv sha256 s) {i tx : RequestId} {rx : Receiver}
    (hpc : (s.requests i).pc = .waiting tx rx) (n : Nat) : (s.channels tx).recv rx ≠ .lagged n := by
  have hsub := h.waiting i tx rx hpc
  have hlen := hsub.sent_le
  have hcap := hsub.capacity
  exact Channel.recv_ne_lagged (by omega)

/-- **No wedged follower, no leaked entry.** In every reachable state: an entry under `k` exactly
when one leader for `k` is live; a guard drop takes out the entry of its own leader and no other; a
waiting follower hangs on the current entry of a live leader for its key, or already has its
outcome, or its channel is closed; no `recv` lags; no live leader, no entry. -/
theorem inflight_wellFormed {events : List Event} {s : State}
    (hrun : run (SingleFlight.step client sha256) SingleFlight.init events = some s) :
    (∀ k, s.inflight k ≠ none ↔ ∃! i, LiveLeader sha256 s k i) ∧
    (∀ i s', SingleFlight.step client sha256 s (.dropGuard i) = some s' →
      s.inflight (sha256 (s.requests i).token) = some i ∧
      s'.inflight = Function.update s.inflight (sha256 (s.requests i).token) none) ∧
    (∀ i tx rx, (s.requests i).pc = .waiting tx rx →
      (s.inflight (sha256 (s.requests i).token) = some tx ∧
        LiveLeader sha256 s (sha256 (s.requests i).token) tx) ∨
      (∃ outcome, (s.channels tx).recv rx = .ok outcome) ∨
      (s.channels tx).closed = true) ∧
    (∀ i tx rx n, (s.requests i).pc = .waiting tx rx → (s.channels tx).recv rx ≠ .lagged n) ∧
    ((∀ i, (s.requests i).pc.isLeader = false) → ∀ k, s.inflight k = none) := by
  have h := Inv.of_run hrun
  refine ⟨h.entry_iff, fun i s' hstep => h.dropGuard_inflight hstep, ?_, ?_, ?_⟩
  · intro i tx rx hpc
    have hsub := h.waiting i tx rx hpc
    rcases hsub.live with hlive | hclosed
    · exact .inl ⟨h.waiting_entry hpc hlive, hlive, hsub.sameKey⟩
    · exact .inr (.inr hclosed)
  · intro i tx rx n hpc
    exact h.recv_ne_lagged hpc n
  · intro hnone k
    cases hk : s.inflight k with
    | none => rfl
    | some tx =>
        have := (h.entry k tx hk).1
        rw [hnone tx] at this
        cases this

/-- One leader, one follower of it, and a leader for another token that is cancelled: the map then
holds the entry of the first leader, of whom there is exactly one, and no other. -/
theorem inflight_wellFormed_two_tokens :
    ∃ s, run (SingleFlight.step testClient testSha256) SingleFlight.init
        [.lock 0 "same.token", .lock 1 "same.token", .lock 2 "a.valid.token", .cancel 2,
         .dropGuard 2] = some s ∧
      (∃! i, LiveLeader testSha256 s (testSha256 "same.token") i) ∧
      ¬ ∃! i, LiveLeader testSha256 s (testSha256 "a.valid.token") i := by
  have hrun : run (SingleFlight.step testClient testSha256) SingleFlight.init
      [.lock 0 "same.token", .lock 1 "same.token", .lock 2 "a.valid.token", .cancel 2,
       .dropGuard 2] = some _ := rfl
  have hentry := (inflight_wellFormed hrun).1
  exact ⟨_, hrun, (hentry _).mp (by decide), fun h => absurd ((hentry _).mpr h) (by decide)⟩

end Urheilulaatikko.Server.Auth.SingleFlight
