import Urheilulaatikko.Lib.Buffer
import Urheilulaatikko.Lock.Controller

/-!
# Capturing the pulses

`wiegand_capture.rs` of the firmware: an interrupt handler that turns edges on two lines into bits,
and a poll from the main loop that takes a frame once the lines have been silent. Both run in a
critical section, so a run is any interleaving of whole handler runs and whole polls, each with the
`Instant`s it reads.

What a frame is depends on when the polls happen to come. `pulses` is the history the lines have
really seen, each pulse with the polls that followed it; cutting it after every pulse that some poll
found old enough gives `groups`. `Holds` says that the buffer stands for the last of these groups as
long as it is open, and `capture_segments` reads off every run: the frames are the groups.
-/

namespace Urheilulaatikko.Lock.WiegandCapture

open Buffer Trace

/-! ## The handler and the poll

`wiegand_capture.rs`, function by function. An edge is latched by the pin until the handler clears
it, and both functions run inside a critical section, so neither interrupts the other. -/

/-- `MAX_BITS`. -/
def maxBits : Nat := 34

/-- `MESSAGE_GAP`, in microseconds. -/
def messageGap : Nat := 25 * 1000

/-- What the handler uses of `esp_hal::gpio::Input`. -/
structure Input where
  interruptSet : Bool
  deriving DecidableEq, Repr

def Input.clearInterrupt (_ : Input) : Input := ⟨false⟩

structure CaptureState where
  d0       : Input
  d1       : Input
  bits     : Vec Bool maxBits
  lastEdge : Option Nat
  deriving DecidableEq, Repr

/-- What `CAPTURE` holds; nothing before `install`. -/
abbrev Capture := Option CaptureState

def install (d0 d1 : Input) : Capture :=
  some { d0, d1, bits := Vec.empty, lastEdge := none }

/-- The first half of `push_bit`. -/
def makeRoom (bits : Vec Bool maxBits) : Option (Vec Bool maxBits) :=
  if bits.isFull then (bits.remove 0).map Prod.snd else some bits

/-- `push_bit`. `none`: an index out of range. -/
def pushBit (state : CaptureState) (bit : Bool) (now : Nat) : Option CaptureState := do
  let bits ← makeRoom state.bits
  -- whether the push succeeds is ignored
  let bits := match bits.push bit with
    | .ok pushed => pushed
    | .error _   => bits
  some { state with bits, lastEdge := some now }

/-- `on_gpio_interrupt`, with the `Instant`s of its two calls of `push_bit`. -/
def onGpioInterrupt (now₀ now₁ : Nat) : Capture → Option Capture
  | none => some none
  | some state => do
      let state ←
        if state.d0.interruptSet then
          pushBit { state with d0 := state.d0.clearInterrupt } false now₀
        else some state
      let state ←
        if state.d1.interruptSet then
          pushBit { state with d1 := state.d1.clearInterrupt } true now₁
        else some state
      some (some state)

/-- The time between two `Instant`s. `none`: they are in the wrong order. -/
def durationSince (now earlier : Nat) : Option Nat :=
  if earlier ≤ now then some (now - earlier) else none

/-- `take_completed_frame`. -/
def takeCompletedFrame (now : Nat) : Capture → Option (Capture × Option (Vec Bool maxBits))
  | none => some (none, none)
  | some state =>
      match state.lastEdge with
      | none => some (some state, none)
      | some lastEdge =>
          if state.bits.isEmpty then some (some state, none)
          else do
            let silence ← durationSince now lastEdge
            if silence < messageGap then some (some state, none)
            else some (some { state with bits := Vec.empty, lastEdge := none }, some state.bits)

/-! ## Runs

Handler and poll in any order, as the interrupts and the main loop bring it about. A handler comes
with the edges it finds, and each call with the `Instant`s it reads. -/

inductive Event where
  /-- The handler runs after an edge on D0, on D1 or on both. -/
  | interrupt (d0 d1 : Bool) (now₀ now₁ : Nat)
  /-- The main loop asks for a frame. -/
  | poll (now : Nat)
  deriving DecidableEq, Repr

/-- An edge stays pending until it is cleared. -/
def Input.latch (input : Input) (edge : Bool) : Input := ⟨input.interruptSet || edge⟩

def Capture.latch (capture : Capture) (d0 d1 : Bool) : Capture :=
  capture.map fun state => { state with d0 := state.d0.latch d0, d1 := state.d1.latch d1 }

def step (capture : Capture) : Event → Option Capture
  | .interrupt d0 d1 now₀ now₁ => onGpioInterrupt now₀ now₁ (capture.latch d0 d1)
  | .poll now => (takeCompletedFrame now capture).map Prod.fst

/-- The frame that an event returns, if it does. -/
def taken? (capture : Capture) : Event → Option (List Bool)
  | .interrupt _ _ _ _ => none
  | .poll now => (takeCompletedFrame now capture).bind fun result => result.2.map Vec.toList

/-- After `install`, before any edge. -/
def start : Capture := install ⟨false⟩ ⟨false⟩

/-- The frames returned over a run, in order. -/
def frames (es : List Event) : List (List Bool) := observe step taken? start es

/-! ## The pulses and their groups

What the frames are compared with: the pulses of a run, each with the polls that came after it, cut
wherever one of these polls came late enough. Nothing of the buffer is left in this. -/

/-- A pulse, with the polls between it and the next one. -/
structure Pulse where
  bit   : Bool
  time  : Nat
  polls : List Nat
  deriving DecidableEq, Repr

/-- Some poll found the pulse at least `MESSAGE_GAP` old. -/
def Pulse.closed (p : Pulse) : Bool := p.polls.any fun now => p.time + messageGap ≤ now

def Pulse.addPoll (p : Pulse) (now : Nat) : Pulse := { p with polls := p.polls ++ [now] }

/-- The pulses that an event handles. -/
def Event.pulses : Event → List Pulse
  | .interrupt d0 d1 now₀ now₁ =>
      (if d0 then [⟨false, now₀, []⟩] else []) ++ (if d1 then [⟨true, now₁, []⟩] else [])
  | .poll _ => []

/-- The `Instant`s an event reads, in order. -/
def Event.readings : Event → List Nat
  | .poll now => [now]
  | e         => e.pulses.map Pulse.time

/-- All the `Instant`s of a run, in order. -/
def readings (es : List Event) : List Nat := es.flatMap Event.readings

def record (ps : List Pulse) : Event → List Pulse
  | .poll now =>
      match ps.getLast? with
      | none   => ps
      | some p => ps.dropLast ++ [p.addPoll now]
  | e => ps ++ e.pulses

/-- The pulses of a run, in the order in which they are handled. -/
def pulses (es : List Event) : List Pulse := es.foldl record []

/-- The pulses, cut wherever a poll in between found the earlier one old enough. -/
def groupsOf (ps : List Pulse) : List (List Pulse) := ps.splitBy fun p _ => !p.closed

def groups (es : List Event) : List (List Pulse) := groupsOf (pulses es)

/-- What the buffer keeps of a group. -/
def frameOf (group : List Pulse) : List Bool := (group.map Pulse.bit).rtake maxBits

theorem pulses_snoc (es : List Event) (e : Event) : pulses (es ++ [e]) = record (pulses es) e := by
  rw [pulses, List.foldl_append]
  rfl

/-! ## What the handler and the poll do

`Holds` ties the state to the pulses so far: frames returned and bits in the buffer are the groups,
and a group is open exactly as long as there is a `last_edge`. A bit opens a group or joins the open
one, and a poll closes it or leaves it. -/

/-- A buffer that has made room has room. -/
theorem makeRoom_eq_some (bits : Vec Bool maxBits) :
    ∃ room, makeRoom bits = some room ∧ room.toList.length < maxBits ∧
      ∀ bit, room.toList ++ [bit] = (bits.toList ++ [bit]).rtake maxBits := by
  unfold makeRoom
  split
  · next hfull =>
      have hlen : bits.toList.length = maxBits := by simpa [Vec.isFull] using hfull
      have hne : bits.toList ≠ [] := by
        intro hnil
        rw [hnil] at hlen
        exact absurd hlen (by decide)
      obtain ⟨oldest, room, hremove, hbits⟩ := Vec.remove_zero_eq_some hne
      rw [hbits] at hlen
      refine ⟨room, by rw [hremove]; rfl, ?_, ?_⟩
      · rw [List.length_cons] at hlen
        omega
      · intro bit
        rw [hbits, rtake_cons_concat oldest bit hlen]
  · next hfull =>
      have hlt : bits.toList.length < maxBits := by
        apply Nat.lt_of_le_of_ne bits.length_le
        simpa [Vec.isFull] using hfull
      refine ⟨bits, rfl, hlt, ?_⟩
      intro bit
      rw [rtake_of_length_le]
      rw [List.length_append]
      exact hlt

theorem pushBit_eq_some (state : CaptureState) (bit : Bool) (now : Nat) :
    ∃ bits : Vec Bool maxBits,
      pushBit state bit now = some { state with bits, lastEdge := some now } ∧
        bits.toList = (state.bits.toList ++ [bit]).rtake maxBits := by
  obtain ⟨room, hroom, hlt, hlast⟩ := makeRoom_eq_some state.bits
  obtain ⟨bits, hpush, hbits⟩ := Vec.push_eq_ok hlt bit
  refine ⟨bits, ?_, by rw [hbits, hlast]⟩
  unfold pushBit
  rw [hroom, Option.bind_eq_bind, Option.bind_some, hpush]

/-- The bits of the frame that is not complete yet. -/
def buffered (state : CaptureState) : List (List Bool) :=
  if state.bits.toList = [] then [] else [state.bits.toList]

/-- When the last group began to be silent, unless it is closed. -/
def openSince (ps : List Pulse) : Option Nat :=
  ps.getLast?.bind fun p => if p.closed then none else some p.time

/-- The state after the pulses `ps`, of which the frames `returned` have been taken. -/
structure Holds (ps : List Pulse) (returned : List (List Bool)) (state : CaptureState) : Prop where
  lastEdge_eq  : state.lastEdge = openSince ps
  lastEdge_iff : state.lastEdge.isSome ↔ state.bits.toList ≠ []
  groups_eq    : returned ++ buffered state = (groupsOf ps).map frameOf

theorem frameOf_concat (group : List Pulse) (p : Pulse) :
    frameOf (group ++ [p]) = (frameOf group ++ [p.bit]).rtake maxBits := by
  rw [frameOf, frameOf, rtake_rtake_concat, List.map_append, List.map_singleton]

theorem openSince_concat (ps : List Pulse) (p : Pulse) :
    openSince (ps ++ [p]) = if p.closed then none else some p.time := by
  rw [openSince, List.getLast?_concat]
  rfl

section Push

variable {ps : List Pulse} {returned : List (List Bool)} {state : CaptureState}

theorem buffered_of_ne_nil (h : state.bits.toList ≠ []) : buffered state = [state.bits.toList] :=
  if_neg h

/-- A bit after a closed group begins a new one. -/
theorem Holds.groups_of_closed (h : Holds ps returned state) (hclosed : state.lastEdge = none)
    (p : Pulse) : state.bits.toList = [] ∧
      (groupsOf (ps ++ [p])).map frameOf = returned ++ [frameOf [p]] := by
  have hnil : state.bits.toList = [] := by
    by_contra hne
    have hsome := h.lastEdge_iff.mpr hne
    rw [hclosed] at hsome
    exact absurd hsome (by decide)
  have hcut : ∀ q ∈ ps.getLast?, (!q.closed) = false := by
    intro q hq
    have hopen := h.lastEdge_eq
    rw [hclosed, openSince, hq, Option.bind_some] at hopen
    split at hopen
    · next hq' => simp [hq']
    · cases hopen
  have hgroups := h.groups_eq
  rw [buffered, if_pos hnil, List.append_nil] at hgroups
  refine ⟨hnil, ?_⟩
  rw [groupsOf, List.splitBy_append_cons [] hcut, List.map_append, hgroups]
  rfl

/-- A bit after an open group belongs to it. -/
theorem Holds.groups_of_open (h : Holds ps returned state) {since : Nat}
    (hopen : state.lastEdge = some since) (p : Pulse) :
    (groupsOf (ps ++ [p])).map frameOf =
      returned ++ [(state.bits.toList ++ [p.bit]).rtake maxBits] := by
  have hne : state.bits.toList ≠ [] := h.lastEdge_iff.mp (by rw [hopen]; rfl)
  have hgroups := h.groups_eq
  rw [buffered_of_ne_nil hne] at hgroups
  obtain ⟨before, last, hsplit, hbefore, hlast⟩ := List.map_eq_append_iff.mp hgroups.symm
  obtain ⟨group, rest, rfl, hgroup, hrest⟩ := List.map_eq_cons_iff.mp hlast
  rw [List.map_eq_nil_iff] at hrest
  subst hrest
  have hjoin : ∀ q ∈ ps.getLast?, (!q.closed) = true := by
    intro q hq
    have hopen' := h.lastEdge_eq
    rw [hopen, openSince, hq, Option.bind_some] at hopen'
    split at hopen'
    · cases hopen'
    · next hq' => simpa using hq'
  rw [groupsOf, splitBy_concat hsplit hjoin, List.map_append, hbefore, List.map_singleton,
    frameOf_concat, hgroup]

theorem Holds.pushBit (h : Holds ps returned state) (bit : Bool) (now : Nat) :
    ∃ bits : Vec Bool maxBits,
      WiegandCapture.pushBit state bit now = some { state with bits, lastEdge := some now } ∧
        Holds (ps ++ [⟨bit, now, []⟩]) returned { state with bits, lastEdge := some now } := by
  obtain ⟨bits, hpush, hbits⟩ := pushBit_eq_some state bit now
  have hne : bits.toList ≠ [] := by
    intro hnil
    have hlen := length_rtake (state.bits.toList ++ [bit]) maxBits
    rw [← hbits, hnil, List.length_append, List.length_nil, List.length_singleton] at hlen
    have hpos : 0 < maxBits := by decide
    omega
  refine ⟨bits, hpush, ?_, ?_, ?_⟩
  · rw [openSince_concat]
    rfl
  · simp [hne]
  · rw [buffered_of_ne_nil hne]
    cases hedge : state.lastEdge with
    | none =>
        obtain ⟨hnil, hgroups⟩ := h.groups_of_closed hedge ⟨bit, now, []⟩
        rw [hgroups, hbits, hnil]
        rfl
    | some since =>
        rw [h.groups_of_open hedge ⟨bit, now, []⟩, hbits]

end Push

section Poll

theorem closed_addPoll (p : Pulse) (now : Nat) :
    (p.addPoll now).closed = (p.closed || decide (p.time + messageGap ≤ now)) := by
  rw [Pulse.closed, Pulse.addPoll, List.any_append, List.any_cons, List.any_nil, Bool.or_false]
  rfl

theorem record_poll_concat (ps : List Pulse) (p : Pulse) (now : Nat) :
    record (ps ++ [p]) (.poll now) = ps ++ [p.addPoll now] := by
  simp [record]

/-- A poll leaves the bits of every group as they are. -/
theorem groupsOf_addPoll (ps : List Pulse) (p : Pulse) (now : Nat) :
    (groupsOf (ps ++ [p.addPoll now])).map frameOf = (groupsOf (ps ++ [p])).map frameOf := by
  obtain ⟨before, group, hsplit⟩ := exists_splitBy_concat (fun p => !p.closed) ps
  rw [groupsOf, groupsOf, hsplit, hsplit]
  simp [frameOf, Pulse.addPoll]

variable {ps : List Pulse} {returned : List (List Bool)} {state : CaptureState}

/-- A poll without an open group finds nothing to take. -/
theorem Holds.poll_of_closed (h : Holds ps returned state) (hclosed : state.lastEdge = none)
    (now : Nat) : takeCompletedFrame now (some state) = some (some state, none) ∧
      Holds (record ps (.poll now)) returned state := by
  refine ⟨by simp [takeCompletedFrame, hclosed], ?_⟩
  rcases List.eq_nil_or_concat ps with rfl | ⟨qs, p, rfl⟩
  · exact h
  · have hopen := h.lastEdge_eq
    rw [hclosed, List.concat_eq_append, openSince_concat] at hopen
    rw [List.concat_eq_append, record_poll_concat]
    refine ⟨?_, h.lastEdge_iff, ?_⟩
    · rw [hclosed, openSince_concat, closed_addPoll]
      split at hopen
      · next hp => simp [hp]
      · cases hopen
    · rw [groupsOf_addPoll, h.groups_eq, List.concat_eq_append]

/-- A poll takes an open group if it has been silent for long enough. -/
theorem Holds.poll_of_open {p : Pulse} (h : Holds (ps ++ [p]) returned state)
    (hopen : p.closed = false) {now : Nat} (horder : p.time ≤ now) :
    ∃ state' taken, takeCompletedFrame now (some state) = some (some state', taken) ∧
      Holds (ps ++ [p.addPoll now]) (returned ++ (taken.map Vec.toList).toList) state' ∧
      state'.d0 = state.d0 ∧ state'.d1 = state.d1 := by
  have hedge : state.lastEdge = some p.time := by
    rw [h.lastEdge_eq, openSince_concat, hopen]
    rfl
  have hne : state.bits.toList ≠ [] := h.lastEdge_iff.mp (by rw [hedge]; rfl)
  have hsilence : durationSince now p.time = some (now - p.time) := if_pos horder
  have hgroups := h.groups_eq
  rw [buffered_of_ne_nil hne, ← groupsOf_addPoll ps p now] at hgroups
  by_cases hgap : now - p.time < messageGap
  · have hstill : (p.addPoll now).closed = false := by
      rw [closed_addPoll, hopen, Bool.false_or, decide_eq_false_iff_not]
      omega
    refine ⟨state, none, by simp [takeCompletedFrame, hedge, hne, Vec.isEmpty, hsilence, hgap],
      ⟨?_, h.lastEdge_iff, ?_⟩, rfl, rfl⟩
    · rw [hedge, openSince_concat, hstill]
      rfl
    · rw [buffered_of_ne_nil hne, ← hgroups]
      simp
  · have hclosed : (p.addPoll now).closed = true := by
      rw [closed_addPoll, hopen, Bool.false_or, decide_eq_true_iff]
      omega
    refine ⟨{ state with bits := Vec.empty, lastEdge := none }, some state.bits,
      by simp [takeCompletedFrame, hedge, hne, Vec.isEmpty, hsilence, hgap], ⟨?_, ?_, ?_⟩, rfl, rfl⟩
    · rw [openSince_concat, hclosed]
      rfl
    · simp [Vec.empty]
    · rw [← hgroups]
      simp [buffered, Vec.empty]

end Poll

/-! ## Whole runs

In a run whose clock does not go back no subtraction of two `Instant`s fails, so every run goes
through, and by induction it ends in a state that holds its pulses. -/

theorem readings_snoc (es : List Event) (e : Event) :
    readings (es ++ [e]) = readings es ++ e.readings := by
  simp [readings]

/-- No poll has come yet. -/
theorem polls_of_mem_pulses {e : Event} {p : Pulse} (h : p ∈ e.pulses) : p.polls = [] := by
  cases e with
  | interrupt d0 d1 now₀ now₁ =>
      rcases List.mem_append.mp h with h | h <;> split at h <;> simp at h <;> rw [h]
  | poll now => simp [Event.pulses] at h

/-- The times of a pulse are among the `Instant`s read. -/
theorem mem_readings_of_pulse (es : List Event) :
    ∀ p ∈ pulses es, p.time ∈ readings es ∧ ∀ now ∈ p.polls, now ∈ readings es := by
  induction es using List.reverseRecOn with
  | nil => simp [pulses]
  | append_singleton es e ih =>
      intro p hp
      rw [pulses_snoc] at hp
      simp only [readings_snoc, List.mem_append]
      have hold : ∀ q ∈ pulses es, q.time ∈ readings es ∨ q.time ∈ e.readings :=
        fun q hq => .inl (ih q hq).1
      cases e with
      | interrupt d0 d1 now₀ now₁ =>
          rcases List.mem_append.mp hp with hp | hp
          · exact ⟨hold p hp, fun now hnow => .inl ((ih p hp).2 now hnow)⟩
          · refine ⟨.inr (List.mem_map_of_mem hp), ?_⟩
            rw [polls_of_mem_pulses hp]
            simp
      | poll now =>
          rcases List.eq_nil_or_concat (pulses es) with hnil | ⟨qs, q, hqs⟩
          · simp [hnil, record] at hp
          · rw [List.concat_eq_append] at hqs
            rw [hqs, record_poll_concat, List.mem_append, List.mem_singleton] at hp
            rcases hp with hp | rfl
            · have hmem : p ∈ pulses es := by
                rw [hqs]
                exact List.mem_append_left _ hp
              exact ⟨hold p hmem, fun now hnow => .inl ((ih p hmem).2 now hnow)⟩
            · have hmem : q ∈ pulses es := by
                rw [hqs]
                exact List.mem_concat_self
              refine ⟨hold q hmem, ?_⟩
              intro t ht
              rcases List.mem_append.mp ht with ht | ht
              · exact .inl ((ih q hmem).2 t ht)
              · exact .inr ht

/-- In a run whose clock does not go back, the polls between two pulses come before the second. -/
theorem isChain_pulses {es : List Event} (hsorted : (readings es).Pairwise (· ≤ ·)) :
    (pulses es).IsChain fun p q => ∀ now ∈ p.polls, now ≤ q.time := by
  induction es using List.reverseRecOn with
  | nil => exact List.isChain_nil
  | append_singleton es e ih =>
      rw [readings_snoc, List.pairwise_append] at hsorted
      obtain ⟨hbefore, -, hafter⟩ := hsorted
      rw [pulses_snoc]
      cases e with
      | interrupt d0 d1 now₀ now₁ =>
          refine List.IsChain.append (ih hbefore) ?_ ?_
          · refine (List.pairwise_of_forall_mem_list ?_).isChain
            intro p hp q _
            rw [polls_of_mem_pulses hp]
            simp
          · intro p hp q hq now hnow
            have hp' := (mem_readings_of_pulse es p (List.mem_of_getLast? hp)).2 now hnow
            exact hafter now hp' q.time (List.mem_map_of_mem (List.mem_of_head? hq))
      | poll now =>
          rcases List.eq_nil_or_concat (pulses es) with hnil | ⟨qs, p, hqs⟩
          · rw [hnil]
            exact List.isChain_nil
          · have hchain := ih hbefore
            rw [hqs, List.concat_eq_append, List.isChain_append] at hchain
            rw [hqs, List.concat_eq_append, record_poll_concat, List.isChain_append]
            refine ⟨hchain.1, List.isChain_singleton _, ?_⟩
            intro q hq r hr
            cases hr
            exact hchain.2.2 q hq p rfl

/-- Between two events no edge is pending. -/
def Quiet (state : CaptureState) : Prop := state.d0 = ⟨false⟩ ∧ state.d1 = ⟨false⟩

theorem Holds.with_pins {ps : List Pulse} {returned : List (List Bool)} {state : CaptureState}
    (h : Holds ps returned state) (d0 d1 : Input) :
    Holds ps returned { state with d0, d1 } :=
  ⟨h.lastEdge_eq, h.lastEdge_iff, h.groups_eq⟩

/-- One run of the handler. -/
theorem Holds.interrupt {ps : List Pulse} {returned : List (List Bool)} {state : CaptureState}
    (h : Holds ps returned state) (hquiet : Quiet state) (d0 d1 : Bool) (now₀ now₁ : Nat) :
    ∃ state', step (some state) (.interrupt d0 d1 now₀ now₁) = some (some state') ∧
      Holds (record ps (.interrupt d0 d1 now₀ now₁)) returned state' ∧ Quiet state' := by
  obtain ⟨hd0, hd1⟩ := hquiet
  simp only [step, Capture.latch, Option.map_some, hd0, hd1, Input.latch, Bool.false_or,
    onGpioInterrupt, record, Event.pulses]
  cases d0 with
  | false =>
      cases d1 with
      | false => exact ⟨_, rfl, by simpa using h.with_pins ⟨false⟩ ⟨false⟩, rfl, rfl⟩
      | true =>
          obtain ⟨bits, hpush, hbits⟩ := (h.with_pins ⟨false⟩ ⟨false⟩).pushBit true now₁
          simp only [Input.clearInterrupt, Bool.false_eq_true, if_false, if_true,
            Option.bind_eq_bind, Option.bind_some, hpush]
          exact ⟨_, rfl, by simpa using hbits, rfl, rfl⟩
  | true =>
      cases d1 with
      | false =>
          obtain ⟨bits, hpush, hbits⟩ := (h.with_pins ⟨false⟩ ⟨false⟩).pushBit false now₀
          simp only [Input.clearInterrupt, Bool.false_eq_true, if_false, if_true,
            Option.bind_eq_bind, Option.bind_some, hpush]
          exact ⟨_, rfl, by simpa using hbits, rfl, rfl⟩
      | true =>
          obtain ⟨bits₀, hpush₀, hbits₀⟩ := (h.with_pins ⟨false⟩ ⟨true⟩).pushBit false now₀
          obtain ⟨bits, hpush, hbits⟩ := (hbits₀.with_pins ⟨false⟩ ⟨false⟩).pushBit true now₁
          simp only [Input.clearInterrupt, if_true, Option.bind_eq_bind, Option.bind_some, hpush₀,
            hpush]
          exact ⟨_, rfl, by simpa using hbits, rfl, rfl⟩

/-- One poll, at a time when no pulse is yet to come. -/
theorem Holds.poll {ps : List Pulse} {returned : List (List Bool)} {state : CaptureState}
    (h : Holds ps returned state) (hquiet : Quiet state) {now : Nat}
    (horder : ∀ p ∈ ps, p.time ≤ now) :
    ∃ state', step (some state) (.poll now) = some (some state') ∧
      Holds (record ps (.poll now)) (returned ++ (taken? (some state) (.poll now)).toList) state' ∧
      Quiet state' := by
  cases hedge : state.lastEdge with
  | none =>
      obtain ⟨htake, hholds⟩ := h.poll_of_closed hedge now
      refine ⟨state, ?_, ?_, hquiet⟩
      · simp [step, htake]
      · simpa [taken?, htake] using hholds
  | some since =>
      have hopen := h.lastEdge_eq
      rcases List.eq_nil_or_concat ps with rfl | ⟨qs, p, rfl⟩
      · rw [hedge] at hopen
        cases hopen
      · rw [List.concat_eq_append] at h hopen horder ⊢
        have hp : p.closed = false := by
          rw [hedge, openSince_concat] at hopen
          split at hopen
          · cases hopen
          · next hp => simpa using hp
        obtain ⟨state', taken, htake, hholds, hd0, hd1⟩ :=
          h.poll_of_open hp (horder p List.mem_concat_self)
        refine ⟨state', ?_, ?_, hd0.trans hquiet.1, hd1.trans hquiet.2⟩
        · simp [step, htake]
        · rw [record_poll_concat]
          simpa [taken?, htake] using hholds

/-- Every run goes through, and ends in a state that stands for its pulses. -/
theorem run_holds {es : List Event} (hsorted : (readings es).Pairwise (· ≤ ·)) :
    ∃ state, run step start es = some (some state) ∧ Holds (pulses es) (frames es) state ∧
      Quiet state := by
  induction es using List.reverseRecOn with
  | nil => exact ⟨_, rfl, ⟨rfl, by simp [Vec.empty], rfl⟩, rfl, rfl⟩
  | append_singleton es e ih =>
      rw [readings_snoc, List.pairwise_append] at hsorted
      obtain ⟨hbefore, -, hafter⟩ := hsorted
      obtain ⟨state, hrun, hholds, hquiet⟩ := ih hbefore
      have hframes : frames (es ++ [e]) = frames es ++ (taken? (some state) e).toList :=
        observe_snoc e hrun
      rw [pulses_snoc, hframes]
      cases e with
      | interrupt d0 d1 now₀ now₁ =>
          obtain ⟨state', hstep, hholds', hquiet'⟩ := hholds.interrupt hquiet d0 d1 now₀ now₁
          refine ⟨state', run_snoc_eq_some.mpr ⟨_, hrun, hstep⟩, ?_, hquiet'⟩
          rwa [taken?, Option.toList_none, List.append_nil]
      | poll now =>
          have horder : ∀ p ∈ pulses es, p.time ≤ now := by
            intro p hp
            exact hafter _ (mem_readings_of_pulse es p hp).1 now (List.mem_singleton_self now)
          obtain ⟨state', hstep, hholds', hquiet'⟩ := hholds.poll hquiet horder
          exact ⟨state', run_snoc_eq_some.mpr ⟨_, hrun, hstep⟩, hholds', hquiet'⟩

/-! ## Bursts

The groups are what the keypad sent if its bursts are far enough apart and the polls come often
enough: then each burst is a group of its own. -/

/-- The pulses come in bursts: in each of them every pulse follows the one before it within less
than `MESSAGE_GAP`, and after each of them the main loop asks for a frame late enough. -/
structure Bursts (es : List Event) (bursts : List (List Pulse)) : Prop where
  flatten_eq : bursts.flatten = pulses es
  ne_nil     : [] ∉ bursts
  inside     : ∀ burst ∈ bursts, burst.IsChain fun p q => q.time < p.time + messageGap
  apart      : ∀ burst ∈ bursts, ∀ p ∈ burst.getLast?, p.closed = true

/-- Bursts are the groups. -/
theorem Bursts.groups_eq {es : List Event} {bursts : List (List Pulse)} (h : Bursts es bursts)
    (hsorted : (readings es).Pairwise (· ≤ ·)) : groups es = bursts := by
  rw [groups, groupsOf, List.splitBy_eq_iff]
  have hpolls := isChain_pulses hsorted
  rw [← h.flatten_eq, List.isChain_flatten h.ne_nil] at hpolls
  refine ⟨h.flatten_eq.symm, h.ne_nil, ?_, ?_⟩
  · intro burst hburst
    rw [List.isChain_iff_forall_rel_of_append_cons_cons]
    intro p q before after hpq
    have hgap := List.isChain_iff_forall_rel_of_append_cons_cons.mp (h.inside burst hburst) hpq
    have horder := List.isChain_iff_forall_rel_of_append_cons_cons.mp (hpolls.1 burst hburst) hpq
    -- every poll before `q` comes too early to close `p`
    simp only [Pulse.closed, Bool.not_eq_true', List.any_eq_false, decide_eq_true_eq]
    intro now hnow
    have := horder now hnow
    omega
  · refine (List.pairwise_of_forall_mem_list ?_).isChain
    intro burst hburst next hnext
    have hne : burst ≠ [] := fun hnil => h.ne_nil (hnil ▸ hburst)
    have hne' : next ≠ [] := fun hnil => h.ne_nil (hnil ▸ hnext)
    refine ⟨hne, hne', ?_⟩
    rw [h.apart burst hburst _ (List.getLast?_eq_some_getLast hne)]
    rfl

/-- After bursts nothing is left in the buffer. -/
theorem Bursts.openSince_eq {es : List Event} {bursts : List (List Pulse)} (h : Bursts es bursts) :
    openSince (pulses es) = none := by
  rw [← h.flatten_eq]
  rcases List.eq_nil_or_concat bursts with rfl | ⟨before, burst, rfl⟩
  · rfl
  · rw [List.concat_eq_append] at h ⊢
    have hmem : burst ∈ before ++ [burst] := List.mem_concat_self
    have hne : burst ≠ [] := fun hnil => h.ne_nil (hnil ▸ hmem)
    rw [List.flatten_append, List.flatten_singleton, openSince,
      List.getLast?_append_of_ne_nil _ hne, List.getLast?_eq_some_getLast hne, Option.bind_some,
      h.apart burst hmem _ (List.getLast?_eq_some_getLast hne)]
    rfl

/-- What is left of an overlong burst is neither a key nor a card. -/
theorem decodeFrame_of_overrun {group : List Pulse} (h : maxBits < group.length) :
    decodeFrame (frameOf group) = some (.unrecognized maxBits) := by
  have hlen : (frameOf group).length = 34 := by
    rw [frameOf, length_rtake, List.length_map]
    exact Nat.min_eq_right (Nat.le_of_lt h)
  unfold decodeFrame
  rw [hlen]
  rfl

/-- **The frames are the groups.** In every run whose clock does not go back, at every point: an
edge is remembered iff there are bits, there are never too many of them and there is always room for
one more; the pulses are cut exactly where a poll found one old enough, and the frames returned,
followed by what is in the buffer, are the last bits of each group in order. So bursts come back one
by one, and an overlong one is nothing to the controller. -/
theorem capture_segments (es : List Event) (hsorted : (readings es).Pairwise (· ≤ ·)) :
    ∃ state, run step start es = some (some state) ∧
      (state.lastEdge.isSome ↔ state.bits.toList ≠ []) ∧
      state.bits.toList.length ≤ maxBits ∧
      (∀ bit, ∃ room pushed, makeRoom state.bits = some room ∧ room.push bit = .ok pushed) ∧
      ((groups es).flatten = pulses es ∧
        (∀ group ∈ groups es, group ≠ [] ∧ group.IsChain fun p _ => p.closed = false) ∧
        (groups es).IsChain fun group _ => ∀ p ∈ group.getLast?, p.closed = true) ∧
      frames es ++ buffered state = (groups es).map frameOf ∧
      (∀ bursts, Bursts es bursts → groups es = bursts ∧ frames es = bursts.map frameOf) ∧
      ∀ group ∈ groups es, maxBits < group.length →
        decodeFrame (frameOf group) = some (.unrecognized maxBits) ∧
          ∀ (totpCustom : TotpCustom) (α : Type) [Actuator α] (controller : LockController)
            (now : UInt64) (actuator : α),
            controller.onFrame totpCustom (.unrecognized maxBits) now actuator =
              some (controller, actuator, .waiting) := by
  obtain ⟨state, hrun, hholds, -⟩ := run_holds hsorted
  refine ⟨state, hrun, hholds.lastEdge_iff, state.bits.length_le, ?_, ⟨?_, ?_, ?_⟩,
    hholds.groups_eq, ?_, ?_⟩
  · intro bit
    obtain ⟨room, hroom, hlt, -⟩ := makeRoom_eq_some state.bits
    obtain ⟨pushed, hpush, -⟩ := Vec.push_eq_ok hlt bit
    exact ⟨room, pushed, hroom, hpush⟩
  · exact List.flatten_splitBy ..
  · intro group hgroup
    refine ⟨List.ne_nil_of_mem_splitBy hgroup, ?_⟩
    apply (List.isChain_of_mem_splitBy hgroup).imp
    intro p _ hp
    simpa using hp
  · apply (List.isChain_getLast_head_splitBy (fun p _ => !p.closed) (pulses es)).imp
    intro group _ hcut p hp
    obtain ⟨hne, -, hclosed⟩ := hcut
    rw [List.getLast?_eq_some_getLast hne] at hp
    cases hp
    simpa using hclosed
  · intro bursts hbursts
    have hgroups := hbursts.groups_eq hsorted
    refine ⟨hgroups, ?_⟩
    have hnil : state.bits.toList = [] := by
      by_contra hne
      have hedge := hholds.lastEdge_iff.mpr hne
      rw [hholds.lastEdge_eq, hbursts.openSince_eq] at hedge
      exact absurd hedge (by decide)
    have hframes := hholds.groups_eq
    rw [buffered, if_pos hnil, List.append_nil] at hframes
    rw [hframes, ← hgroups]
    rfl
  · intro group _ hlong
    exact ⟨decodeFrame_of_overrun hlong, fun _ _ _ _ _ _ => rfl⟩

/-- A key, and a burst of 35 bits that two polls come too early for. -/
def keyThenOverrun : List Event :=
  [Event.interrupt true false 0 0, .interrupt false true 0 2000, .poll 3000,
    .interrupt true false 4000 0, .interrupt false true 0 6000, .poll 30999, .poll 31000] ++
  (List.range 35).map (fun i => Event.interrupt true false (40000 + 2000 * i) 0) ++
  [Event.poll 110000, .poll 120000, .poll 140000]

theorem capture_segments_keyThenOverrun :
    frames keyThenOverrun = [[false, true, false, true], List.replicate 34 false] ∧
      ∃ state, run step start keyThenOverrun = some (some state) ∧
        frames keyThenOverrun ++ buffered state = (groups keyThenOverrun).map frameOf := by
  obtain ⟨state, hrun, -, -, -, -, hframes, -⟩ :=
    capture_segments keyThenOverrun (by decide +kernel)
  exact ⟨by decide +kernel, state, hrun, hframes⟩

end Urheilulaatikko.Lock.WiegandCapture
