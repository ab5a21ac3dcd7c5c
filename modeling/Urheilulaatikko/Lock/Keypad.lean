import Urheilulaatikko.Lock.Device

/-!
# Keypresses in time

What the comments of `wiegand_capture.rs` and `main.rs` say about `MESSAGE_GAP` and the polling
interval, made exact. The bits of a keypress come close together and keypresses are further apart;
the handler sees an edge some `latency` after it, and the loop polls at least once in every
`cadence`. How far apart is far enough then depends on both.

* `mem_polls_of_between` — a poll between two pulses is one of those that follow the first.
* `prompt` — the handler runs in time after every edge; then the pulses are the edges.
* `keypresses_arrive` — under these conditions the controller is handed the keypresses.
-/

namespace Urheilulaatikko.Lock

open Trace

/-! ## Polls and pulses

What the capture makes of the pulses, `WiegandCapture` says in terms of the polls that follow each
of them. Here the polls are where the clock puts them. -/

namespace WiegandCapture

/-- In a run whose clock does not go back, a poll between two pulses follows the first. -/
theorem mem_polls_of_between {es : List Event} (hsorted : (readings es).Pairwise (· ≤ ·))
    {now : Nat} (hpoll : .poll now ∈ es) {before after : List Pulse} {p : Pulse}
    (hsplit : pulses es = before ++ p :: after) (hold : p.time < now)
    (hnext : ∀ q ∈ after.head?, now < q.time) : now ∈ p.polls := by
  induction es using List.reverseRecOn generalizing before p after with
  | nil => cases hpoll
  | append_singleton es e ih =>
      rw [readings_snoc, List.pairwise_append] at hsorted
      obtain ⟨hbefore, -, hafter⟩ := hsorted
      rw [pulses_snoc] at hsplit
      cases e with
      | interrupt d0 d1 now₀ now₁ =>
          have hmem : .poll now ∈ es := by simpa using hpoll
          have hread : now ∈ readings es := List.mem_flatMap.mpr ⟨_, hmem, List.mem_singleton_self _⟩
          -- the handler's own pulses come after the poll
          have hnew : p ∉ (Event.interrupt d0 d1 now₀ now₁).pulses := by
            intro hp
            have hle := hafter now hread p.time (List.mem_map_of_mem hp)
            omega
          obtain ⟨pre, -, hpulses⟩ | ⟨rest, hpulses, hrest⟩ := List.append_eq_append_iff.mp hsplit
          · exact absurd (hpulses ▸ List.mem_append_right pre List.mem_cons_self) hnew
          · cases rest with
            | nil =>
                rw [List.nil_append] at hrest
                exact absurd (hrest ▸ List.mem_cons_self) hnew
            | cons q rest =>
                rw [List.cons_append, List.cons.injEq] at hrest
                obtain ⟨rfl, rfl⟩ := hrest
                refine ih hbefore hmem hpulses hold ?_
                intro q hq
                cases rest with
                | nil => cases hq
                | cons r rest => exact hnext q hq
      | poll last =>
          rcases List.eq_nil_or_concat (pulses es) with hnil | ⟨qs, q, hqs⟩
          · rw [hnil] at hsplit
            simp [record] at hsplit
          · rw [List.concat_eq_append] at hqs
            rw [hqs, record_poll_concat] at hsplit
            have hcases : .poll now ∈ es ∨ now = last := by simpa using hpoll
            obtain ⟨rfl, rfl, rfl⟩ | ⟨rest, rfl, rfl⟩ := snoc_eq_append_cons hsplit
            · refine List.mem_append.mpr (hcases.imp ?_ (by rintro rfl; simp))
              intro hmem
              exact ih hbefore hmem hqs hold (by simp)
            · have hpulses : pulses es = before ++ p :: (rest ++ [q]) := by
                rw [hqs]
                simp
              rcases hcases with hmem | rfl
              · refine ih hbefore hmem hpulses hold ?_
                intro r hr
                cases rest with
                | nil =>
                    cases hr
                    exact hnext (q.addPoll last) rfl
                | cons r' rest => exact hnext r hr
              · -- no pulse of the past is later than this poll
                have hle : ∀ r ∈ rest ++ [q], r.time ≤ now := by
                  intro r hr
                  have hr' : r ∈ pulses es := by
                    rw [hpulses]
                    exact List.mem_append_right _ (List.mem_cons_of_mem _ hr)
                  exact hafter _ (mem_readings_of_pulse es r hr').1 now (List.mem_singleton_self now)
                cases rest with
                | nil =>
                    have hlt := hnext (q.addPoll now) rfl
                    have hge := hle q (List.mem_singleton_self q)
                    exact absurd hlt (Nat.not_lt.mpr hge)
                | cons r rest =>
                    have hlt := hnext r rfl
                    have hge := hle r List.mem_cons_self
                    omega

/-- Between `since` and `till` there is a poll in every stretch of length `cadence`. -/
def Polled (cadence since till : Nat) (es : List Event) : Prop :=
  ∀ t, since ≤ t → t + cadence ≤ till → ∃ now, .poll now ∈ es ∧ t ≤ now ∧ now < t + cadence

/-- A pulse that nothing follows for long enough is polled in time. -/
theorem Polled.closed {es : List Event} {cadence since till : Nat}
    (h : Polled cadence since till es) (hsorted : (readings es).Pairwise (· ≤ ·))
    {before after : List Pulse} {p : Pulse}
    (hsplit : pulses es = before ++ p :: after) (hsince : since ≤ p.time)
    (htill : p.time + messageGap + cadence ≤ till)
    (hnext : ∀ q ∈ after.head?, p.time + messageGap + cadence ≤ q.time) : p.closed = true := by
  have hpos : 0 < messageGap := by decide
  obtain ⟨now, hpoll, hge, hlt⟩ := h (p.time + messageGap) (by omega) htill
  have hmem : now ∈ p.polls := by
    refine mem_polls_of_between hsorted hpoll hsplit (by omega) ?_
    intro q hq
    have := hnext q hq
    omega
  rw [Pulse.closed, List.any_eq_true]
  exact ⟨now, hmem, decide_eq_true hge⟩

/-- Pulses that come in bursts, seen by the clock, are `Bursts` to the loop. -/
theorem Polled.bursts {es : List Event} {cadence since till : Nat}
    (h : Polled cadence since till es) (hsorted : (readings es).Pairwise (· ≤ ·))
    {bursts : List (List Pulse)} (hflatten : bursts.flatten = pulses es) (hne : [] ∉ bursts)
    (hinside : ∀ burst ∈ bursts, burst.IsChain fun p q => q.time < p.time + messageGap)
    (hspaced : bursts.IsChain fun burst next => ∀ p ∈ burst.getLast?, ∀ q ∈ next.head?,
      p.time + messageGap + cadence ≤ q.time)
    (hwithin : ∀ p ∈ pulses es, since ≤ p.time ∧ p.time + messageGap + cadence ≤ till) :
    Bursts es bursts where
  flatten_eq := hflatten
  ne_nil     := hne
  inside     := hinside
  apart      := by
    intro burst hburst p hp
    obtain ⟨before, after, rfl⟩ := List.append_of_mem hburst
    obtain ⟨init, rfl⟩ := List.getLast?_eq_some_iff.mp hp
    have hsplit : pulses es = (before.flatten ++ init) ++ p :: after.flatten := by
      rw [← hflatten]
      simp
    have hp' : p ∈ pulses es := by
      rw [hsplit]
      exact List.mem_append_right _ List.mem_cons_self
    obtain ⟨hsince, htill⟩ := hwithin p hp'
    refine h.closed hsorted hsplit hsince htill ?_
    intro q hq
    cases after with
    | nil => cases hq
    | cons next after =>
        have hnext : next ≠ [] := by
          rintro rfl
          simp at hne
        have hhead : (List.flatten (next :: after)).head? = next.head? := by
          rw [List.flatten_cons, List.head?_append_of_ne_nil _ hnext]
        rw [hhead] at hq
        exact List.isChain_iff_forall_rel_of_append_cons_cons.mp hspaced rfl p hp q hq

/-- Bursts come back one by one. -/
theorem Bursts.frames_eq {es : List Event} {bursts : List (List Pulse)} (h : Bursts es bursts)
    (hsorted : (readings es).Pairwise (· ≤ ·)) : frames es = bursts.map frameOf := by
  obtain ⟨state, -, hholds, -⟩ := run_holds hsorted
  have hclosed : state.lastEdge = none := by
    rw [hholds.lastEdge_eq, h.openSince_eq]
  have hnil : state.bits.toList = [] := by
    by_contra hne
    have hopen := hholds.lastEdge_iff.mpr hne
    rw [hclosed] at hopen
    cases hopen
  have hgroups := hholds.groups_eq
  rw [buffered, if_pos hnil, List.append_nil] at hgroups
  rw [hgroups, ← h.groups_eq hsorted]
  rfl

/-- What a pulse says without its polls. -/
def Pulse.stamp (p : Pulse) : Bool × Nat := (p.bit, p.time)

/-- Polls change no pulse. -/
theorem stamps_eq (es : List Event) :
    (pulses es).map Pulse.stamp = (es.flatMap Event.pulses).map Pulse.stamp := by
  induction es using List.reverseRecOn with
  | nil => rfl
  | append_singleton es e ih =>
      rw [pulses_snoc, List.flatMap_append, List.map_append, ← ih]
      cases e with
      | interrupt d0 d1 now₀ now₁ => simp [record]
      | poll now =>
          rcases List.eq_nil_or_concat (pulses es) with hnil | ⟨qs, q, hqs⟩
          · simp [hnil, record, Event.pulses]
          · rw [hqs, List.concat_eq_append, record_poll_concat]
            simp [Event.pulses, Pulse.addPoll, Pulse.stamp]

end WiegandCapture

/-! ## The handler in time

As long as the handler runs before the next edge comes, no two edges are one to it, and what it
notes down are the edges themselves, at most `latency` late. -/

namespace Device

open WiegandCapture (messageGap maxBits readings pulses Pulse Polled)

/-- A falling edge on D1 if `line`, else on D0. -/
structure Edge where
  line : Bool
  time : Nat
  deriving DecidableEq, Repr

def Event.edge? : Event → Option Edge
  | .edge line time => some ⟨line, time⟩
  | _ => none

/-- The edges of a run, in order. -/
def edges (es : List Event) : List Edge := es.filterMap Event.edge?

/-- When the handler takes note of an edge. -/
def Edge.seenAt (edge : Edge) (now₀ now₁ : Nat) : Nat := if edge.line then now₁ else now₀

/-- The handler runs after every edge, within `latency` and before the next one. -/
def prompt (latency : Nat) : Option Edge → List Event → Bool
  | pending, [] => pending.isNone
  | pending, .edge line time :: es => pending.isNone && prompt latency (some ⟨line, time⟩) es
  | pending, .interrupt now₀ now₁ :: es =>
      pending.all (fun edge => edge.time ≤ edge.seenAt now₀ now₁ &&
        edge.seenAt now₀ now₁ ≤ edge.time + latency) && prompt latency none es
  | pending, .poll _ :: es | pending, .handle _ _ :: es | pending, .check _ :: es =>
      prompt latency pending es

/-- A pulse as the handler stamps the edge. -/
def Seen (latency : Nat) (edge : Edge) (stamp : Bool × Nat) : Prop :=
  stamp.1 = edge.line ∧ edge.time ≤ stamp.2 ∧ stamp.2 ≤ edge.time + latency

variable (totpCustom : TotpCustom)

/-- The pins while `pending` is the only edge the handler has not seen. -/
def Unseen (d : Device) (pending : Option Edge) : Prop :=
  ∃ state, Pending d.capture (pending.any (!·.line)) (pending.any (·.line)) state

theorem captureEvents_cons {d t : Device} {e : Event} (hstep : d.step totpCustom e = some t)
    (es : List Event) :
    d.captureEvents totpCustom (e :: es) =
      (d.captureEvent e).toList ++ t.captureEvents totpCustom es := by
  rw [captureEvents, observe, hstep]
  rfl

/-- If the handler is in time, its pulses are the edges. -/
theorem seen_of_prompt {latency : Nat} {es : List Event} {d d' : Device} {pending : Option Edge}
    (hrun : run (step totpCustom) d es = some d') (hunseen : d.Unseen pending)
    (hprompt : prompt latency pending es = true) :
    List.Forall₂ (Seen latency) (pending.toList ++ edges es)
      (((d.captureEvents totpCustom es).flatMap WiegandCapture.Event.pulses).map Pulse.stamp) := by
  induction es generalizing d pending with
  | nil =>
      have hnone : pending = none := by simpa [prompt] using hprompt
      rw [hnone]
      exact .nil
  | cons e es ih =>
      obtain ⟨t, hstep, hrest⟩ := run_cons_eq_some.mp hrun
      obtain ⟨state, hstate⟩ := hunseen
      rw [captureEvents_cons totpCustom hstep]
      obtain ⟨line, time, rfl, rfl⟩ | ⟨now₀, now₁, capture', rfl, hhandler, rfl⟩ |
        ⟨now, capture', frame, rfl, -, htake, rfl⟩ | ⟨now, grantedAt, bits, firmware, outcome, rfl,
        -, -, rfl⟩ | ⟨now, rfl, -, rfl⟩ := step_cases totpCustom hstep
      · rw [prompt, Bool.and_eq_true, Option.isNone_iff_eq_none] at hprompt
        obtain ⟨rfl, hprompt⟩ := hprompt
        have hlatched := hstate.latch line
        exact ih hrest ⟨state, by simpa using hlatched⟩ hprompt
      · rw [prompt, Bool.and_eq_true] at hprompt
        obtain ⟨hseen, hprompt⟩ := hprompt
        obtain ⟨state', -, hclear⟩ := hstate.interrupt hhandler
        have hnone : Unseen { d with capture := capture' } none := ⟨state', hclear⟩
        have hafter := ih hrest hnone hprompt
        rw [captureEvent_interrupt hstate]
        cases pending with
        | none => exact hafter
        | some edge =>
            obtain ⟨line, time⟩ := edge
            simp only [Option.all_some, Bool.and_eq_true, decide_eq_true_eq] at hseen
            cases line with
            | false => exact .cons ⟨rfl, hseen⟩ hafter
            | true => exact .cons ⟨rfl, hseen⟩ hafter
      · obtain ⟨state', -, hstill⟩ := hstate.poll htake
        exact ih hrest ⟨state', hstill⟩ hprompt
      · exact ih hrest ⟨state, hstate⟩ hprompt
      · exact ih hrest ⟨state, hstate⟩ hprompt

/-! ## The loop in time

Polls in short steps: between two keypresses there is one that comes late enough. -/

def Event.poll? : Event → Option Nat
  | .poll now => some now
  | _ => none

/-- The loop polls at least once in every `cadence`, from `since` to `till`. -/
structure Steady (cadence since till : Nat) (es : List Event) : Prop where
  first : ∃ now ∈ (es.filterMap Event.poll?).head?, now < since + cadence
  next  : (es.filterMap Event.poll?).IsChain fun now now' => now' ≤ now + cadence
  last  : ∃ now ∈ (es.filterMap Event.poll?).getLast?, till ≤ now + cadence

/-- Numbers that come in short steps hit every stretch as long as a step. -/
theorem exists_mem_stretch {ns : List Nat} {cadence t : Nat}
    (hfirst : ∃ n ∈ ns.head?, n < t + cadence) (hnext : ns.IsChain fun n m => m ≤ n + cadence)
    (hlast : ∃ n ∈ ns.getLast?, t ≤ n) : ∃ n ∈ ns, t ≤ n ∧ n < t + cadence := by
  induction ns with
  | nil =>
      obtain ⟨n, hn, -⟩ := hfirst
      cases hn
  | cons n ns ih =>
      obtain ⟨_, hn, hlt⟩ := hfirst
      cases hn
      by_cases hge : t ≤ n
      · exact ⟨n, List.mem_cons_self, hge, hlt⟩
      · cases ns with
        | nil =>
            obtain ⟨_, hn, hle⟩ := hlast
            cases hn
            exact absurd hle hge
        | cons m ns =>
            rw [List.isChain_cons_cons] at hnext
            obtain ⟨k, hk, hstretch⟩ := ih ⟨m, rfl, by omega⟩ hnext.2 hlast
            exact ⟨k, List.mem_cons_of_mem n hk, hstretch⟩

theorem Steady.exists_poll {cadence since till : Nat} {es : List Event}
    (h : Steady cadence since till es) {t : Nat} (hsince : since ≤ t) (htill : t + cadence ≤ till) :
    ∃ now, .poll now ∈ es ∧ t ≤ now ∧ now < t + cadence := by
  obtain ⟨first, hfirst, hlt⟩ := h.first
  obtain ⟨last, hlast, hle⟩ := h.last
  obtain ⟨now, hmem, hnow⟩ := exists_mem_stretch (t := t) ⟨first, hfirst, by omega⟩ h.next
    ⟨last, hlast, by omega⟩
  obtain ⟨e, he, hpoll⟩ := List.mem_filterMap.mp hmem
  cases e <;> cases hpoll
  exact ⟨now, he, hnow⟩

/-! ## Keypresses

Edges that come in keypresses reach the controller in keypresses, and what was sent over the wires
is what is decoded. -/

theorem mem_captureEvents_of_poll {es : List Event} {d d' : Device} {now : Nat}
    (hrun : run (step totpCustom) d es = some d') (h : .poll now ∈ es) :
    WiegandCapture.Event.poll now ∈ d.captureEvents totpCustom es := by
  obtain ⟨pre, post, rfl⟩ := List.append_of_mem h
  obtain ⟨t, ht, -⟩ := run_append_eq_some.mp hrun
  rw [captureEvents, observe_append ht, observe]
  exact List.mem_append_right _ List.mem_cons_self

/-- Keypresses that the device can tell apart: their edges, all between `since` and `till`, come
less than `MESSAGE_GAP` apart and the next keypress more, by what the handler takes to see an edge
and the loop to poll. -/
structure Spaced (latency cadence since till : Nat) (presses : List (List Edge)) : Prop where
  ne_nil : [] ∉ presses
  inside : ∀ press ∈ presses, press.IsChain fun a b => b.time + latency < a.time + messageGap
  apart  : presses.IsChain fun press next => ∀ a ∈ press.getLast?, ∀ b ∈ next.head?,
    a.time + latency + messageGap + cadence ≤ b.time
  within : ∀ press ∈ presses, ∀ a ∈ press,
    since ≤ a.time ∧ a.time + latency + messageGap + cadence ≤ till

section Arrive

variable {clock : SystemClock} {secret : List UInt8} {skewSteps : UInt8} {es : List Event}
  {d : Device} {latency cadence since till : Nat} {presses : List (List Edge)}

/-- The pulses of a run, keypress by keypress. -/
theorem bursts_of_spaced
    (hrun : run (step totpCustom) (start clock secret skewSteps) es = some d)
    (hsorted : (readings ((start clock secret skewSteps).captureEvents totpCustom es)).Pairwise
      (· ≤ ·)) (hprompt : prompt latency none es = true)
    (hsteady : Steady cadence since till es)
    (hedges : presses.flatten = edges es) (hspaced : Spaced latency cadence since till presses) :
    ∃ bursts, WiegandCapture.Bursts ((start clock secret skewSteps).captureEvents totpCustom es)
        bursts ∧
      List.Forall₂ (List.Forall₂ fun edge (p : Pulse) => Seen latency edge p.stamp) presses
        bursts := by
  have hunseen : Unseen (start clock secret skewSteps) none := by
    obtain ⟨state, -, hpending⟩ := pending_start
    exact ⟨state, hpending⟩
  have hseen := seen_of_prompt totpCustom hrun hunseen hprompt
  rw [← WiegandCapture.stamps_eq, List.forall₂_map_right_iff, Option.toList_none, List.nil_append,
    ← hedges] at hseen
  obtain ⟨bursts, hflatten, hbursts⟩ := Buffer.exists_segments hseen
  refine ⟨bursts, ?_, hbursts⟩
  have hpolled' : Polled cadence since till
      ((start clock secret skewSteps).captureEvents totpCustom es) := by
    intro t hsince htill
    obtain ⟨now, hpoll, hnow⟩ := hsteady.exists_poll hsince htill
    exact ⟨now, mem_captureEvents_of_poll totpCustom hrun hpoll, hnow⟩
  refine hpolled'.bursts hsorted hflatten ?_ ?_ ?_ ?_
  · intro hnil
    obtain ⟨press, hpress, hempty⟩ := Buffer.exists_mem_of_forall₂ hbursts hnil
    rw [List.forall₂_nil_right_iff] at hempty
    exact hspaced.ne_nil (hempty ▸ hpress)
  · intro burst hburst
    obtain ⟨press, hpress, hmatch⟩ := Buffer.exists_mem_of_forall₂ hbursts hburst
    refine Buffer.isChain_of_forall₂ hmatch (hspaced.inside press hpress) ?_
    intro a b p q hp hq hgap
    obtain ⟨-, hp, -⟩ := hp
    obtain ⟨-, -, hq⟩ := hq
    exact Nat.lt_of_le_of_lt hq (Nat.lt_of_lt_of_le hgap (Nat.add_le_add_right hp messageGap))
  · refine Buffer.isChain_of_segments hbursts hspaced.apart ?_
    intro a b p q hp hq hgap
    obtain ⟨-, -, hp⟩ := hp
    obtain ⟨-, hq, -⟩ := hq
    dsimp only [Pulse.stamp] at hp hq
    omega
  · intro p hp
    rw [← hflatten] at hp
    obtain ⟨burst, hburst, hp⟩ := List.mem_flatten.mp hp
    obtain ⟨press, hpress, hmatch⟩ := Buffer.exists_mem_of_forall₂ hbursts hburst
    obtain ⟨a, ha, -, hge, hle⟩ := Buffer.exists_mem_of_forall₂ hmatch hp
    obtain ⟨hsince, htill⟩ := hspaced.within press hpress a ha
    dsimp only [Pulse.stamp] at hge hle
    omega

/-- At the end of a pass the controller has been handed exactly the keypresses, bit by bit. -/
theorem bits_of_spaced
    (hrun : run (step totpCustom) (start clock secret skewSteps) es = some d)
    (hsorted : (readings ((start clock secret skewSteps).captureEvents totpCustom es)).Pairwise
      (· ≤ ·)) (hprompt : prompt latency none es = true)
    (hsteady : Steady cadence since till es)
    (hedges : presses.flatten = edges es) (hspaced : Spaced latency cadence since till presses)
    (hphase : d.phase.inHand = []) :
    ((start clock secret skewSteps).bursts totpCustom es).map Burst.bits =
      presses.map fun press => (press.map Edge.line).rtake maxBits := by
  obtain ⟨bursts, hbursts, hmatch⟩ :=
    bursts_of_spaced totpCustom hrun hsorted hprompt hsteady hedges hspaced
  have hhanded := handed_of_run totpCustom hrun
  rw [hphase, List.append_nil, hbursts.frames_eq hsorted] at hhanded
  rw [hhanded, eq_comm]
  refine Buffer.map_eq_of_forall₂ hmatch ?_
  intro press burst hpress
  have hbits : press.map Edge.line = burst.map Pulse.bit :=
    Buffer.map_eq_of_forall₂ hpress fun edge p hp => hp.1.symm
  rw [hbits]
  rfl

/-- The keys sent over the wires, in order. -/
def Sent (frames : List Frame) (presses : List (List Edge)) : Prop :=
  List.Forall₂ (fun frame press => Wire frame (press.map Edge.line)) frames presses

omit totpCustom in
theorem length_le_of_wire {frame : Frame} {bits : List Bool} (h : Wire frame bits) :
    bits.length ≤ maxBits := by
  cases h with
  | digit _ | cancel | enter => simp [nibbleBits, maxBits]
  | card first last => simp [cardBits, length_wireBits, maxBits]

omit totpCustom in
theorem framesOf_eq {bursts : List Burst} {frames : List Frame}
    (h : bursts.map (fun b => decodeFrame b.bits) = frames.map some) :
    framesOf bursts = frames := by
  have hframes : framesOf bursts = (bursts.map fun b => decodeFrame b.bits).filterMap id := by
    rw [List.filterMap_map]
    rfl
  rw [hframes, h, List.filterMap_map]
  exact List.filterMap_some

omit totpCustom in
/-- What is sent is what is decoded. -/
theorem decoded_of_sent {frames : List Frame} (hsent : Sent frames presses) {bursts : List Burst}
    (hbits : bursts.map Burst.bits = presses.map fun press => (press.map Edge.line).rtake maxBits) :
    bursts.map (fun b => decodeFrame b.bits) = frames.map some := by
  have hsplit : bursts.map (fun b => decodeFrame b.bits) =
      (bursts.map Burst.bits).map decodeFrame := by
    rw [List.map_map]
    rfl
  rw [hsplit, hbits, List.map_map, eq_comm]
  refine Buffer.map_eq_of_forall₂ hsent ?_
  intro frame press hwire
  show some frame = decodeFrame ((press.map Edge.line).rtake maxBits)
  rw [Buffer.rtake_of_length_le (length_le_of_wire hwire), decodeFrame_of_wire hwire]

/-- **Keypresses arrive.** However the handler and the loop are interleaved: if the handler sees
every edge within `latency` and before the next one, the loop polls once in every `cadence`, and the
keys and cards are spaced accordingly, then at the end of a pass the frames handled are exactly what
was sent, and each entry holds the answer that what was sent before decides, at the clock reading of
that entry. -/
theorem keypresses_arrive
    (hrun : run (step totpCustom) (start clock secret skewSteps) es = some d)
    (hsorted : (readings ((start clock secret skewSteps).captureEvents totpCustom es)).Pairwise
      (· ≤ ·)) (hprompt : prompt latency none es = true)
    (hsteady : Steady cadence since till es)
    (hedges : presses.flatten = edges es) (hspaced : Spaced latency cadence since till presses)
    {frames : List Frame} (hsent : Sent frames presses) (hphase : d.phase.inHand = []) :
    let entries := (start clock secret skewSteps).handled totpCustom es
    entries.map (fun x => decodeFrame x.bits) = frames.map some ∧
    ∀ pre frame post, frames = pre ++ frame :: post →
      ∃ earlier x later, entries = earlier ++ x :: later ∧ earlier.length = pre.length ∧
        decodeFrame x.bits = some frame ∧
        x.outcome = frameOutcome totpCustom secret skewSteps (typedDigits pre)
          (clock.unixSeconds x.handledAt) frame := by
  have hbits := bits_of_spaced totpCustom hrun hsorted hprompt hsteady hedges hspaced hphase
  have hdecoded := decoded_of_sent hsent hbits
  obtain ⟨hbursts, -, -⟩ := views_of_run totpCustom hrun
  rw [hbursts, List.map_map] at hdecoded
  refine ⟨hdecoded, ?_⟩
  intro pre frame post hframes
  rw [hframes, List.map_append, List.map_cons] at hdecoded
  obtain ⟨earlier, rest, hentries, hearlier, hrest⟩ := List.map_eq_append_iff.mp hdecoded
  obtain ⟨x, later, rfl, hx, -⟩ := List.map_eq_cons_iff.mp hrest
  have hx' : decodeFrame (x.burst clock).bits = some frame := hx
  have hsame := congrArg List.length hearlier
  rw [List.length_map, List.length_map] at hsame
  refine ⟨earlier, x, later, hentries, hsame, hx, ?_⟩
  rw [← List.map_map] at hearlier
  rw [outcome_of_handled totpCustom hrun hentries]
  simp only [burstOutcome, hx', framesOf_eq hearlier]
  rfl

end Arrive

/-- The edges of `earlyCode`, key by key. -/
def earlyPresses : List (List Edge) :=
  [2, 8, 7, 0, 8, 2, 11].zipIdx.map fun (code, i) => (nibbleBits code).zipIdx.map fun (bit, j) =>
    ⟨bit, 500000 + 48000 * i + 2000 * j⟩

theorem spaced_earlyPresses : Spaced 5 4000 500000 836000 earlyPresses :=
  ⟨by decide +kernel, by decide +kernel, by decide +kernel, by decide +kernel⟩

theorem steady_earlyCode : Steady 4000 500000 836000 earlyCode :=
  ⟨by decide +kernel, by decide +kernel, by decide +kernel⟩

theorem sent_earlyPresses :
    Sent [.digit 2, .digit 8, .digit 7, .digit 0, .digit 8, .digit 2, .enter] earlyPresses :=
  .cons (.digit (by decide)) (.cons (.digit (by decide)) (.cons (.digit (by decide))
    (.cons (.digit (by decide)) (.cons (.digit (by decide)) (.cons (.digit (by decide))
      (.cons .enter .nil))))))

/-- The `Enter` arrives behind the six digits, and they and its own clock reading decide it. -/
theorem keypresses_arrive_earlyCode :
    ∃ earlier enter later, (start ⟨0⟩ vectorSecret 1).handled vectorTotpCustom earlyCode =
        earlier ++ enter :: later ∧ earlier.length = 6 ∧ decodeFrame enter.bits = some .enter ∧
      enter.outcome = frameOutcome vectorTotpCustom vectorSecret 1
        (typedDigits [.digit 2, .digit 8, .digit 7, .digit 0, .digit 8, .digit 2])
        (SystemClock.unixSeconds ⟨0⟩ enter.handledAt) .enter := by
  have hsome : (run (step vectorTotpCustom) (start ⟨0⟩ vectorSecret 1) earlyCode).map (·.phase) =
      some .polling := by
    decide +kernel
  obtain ⟨d, hrun, hphase⟩ := Option.map_eq_some_iff.mp hsome
  exact (keypresses_arrive vectorTotpCustom hrun (by decide +kernel) (by decide +kernel)
    steady_earlyCode (by decide +kernel) spaced_earlyPresses sent_earlyPresses
    (by rw [hphase]; rfl)).2 [.digit 2, .digit 8, .digit 7, .digit 0, .digit 8, .digit 2] .enter []
    rfl

end Device

end Urheilulaatikko.Lock
