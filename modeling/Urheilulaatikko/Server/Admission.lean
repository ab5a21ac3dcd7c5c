import Urheilulaatikko.Server.EndToEnd

/-!
# What the limiter decides in a run of the server

Every request that comes to the limiter is decided upon once (`Decided`), and the decisions of a
run, in their order, are what the limiter says about the requests in this order (`letThrough_eq`).
So the bounds on the limiter are bounds on the server.
-/

namespace Urheilulaatikko.Server.System

open Auth RateLimit TokenBucket Trace Machine

/-- A decision of the limiter: on which request, as the limiter sees it, and its result. -/
structure Decision where
  id      : Nat
  limited : String × RateLimit.Request
  allowed : Bool
  deriving DecidableEq, Repr

variable (sha256 : String → SingleFlight.Key) (d : Deployment)

/-- The decision that an event brings about. -/
def decision? (s : State) : Event → Option Decision
  | .advance id _ clock =>
      (s.limited? id clock).map fun limited => ⟨id, limited, s.decide d limited⟩
  | _ => none

/-- The decisions of a run from `s`. -/
def decisionsFrom (s : State) (es : List Event) : List Decision :=
  observe (step sha256 d) (decision? d) s es

def decisions (es : List Event) : List Decision := decisionsFrom sha256 d d.init es

/-- The requests that come to the limiter. -/
def arrivals (ds : List Decision) : List RateLimit.Request := ds.map (·.limited.2)

/-- The ones it lets through. -/
def letThrough (ds : List Decision) : List (String × RateLimit.Request) :=
  (ds.filter (·.allowed)).map (·.limited)

variable {sha256 d} {s s' : State} {es : List Event}

/-! ## The decisions are the limiter's

The limiter is asked in the order of the decisions and at the times of its own clock. What comes out
is what it would let through if it were given all these requests in a row. -/

theorem limited?_eq_some {id clock : Nat} {limited : String × RateLimit.Request}
    (h : s.limited? id clock = some limited) :
    ∃ r user, s.router.requests id = some r ∧ r.stage = .limiting ∧ r.user = some user ∧
      limited = (user.subject, ⟨r.route, some user, clock⟩) := by
  unfold State.limited? at h
  split at h
  · next r hold =>
      split at h
      · next hstage =>
          cases huser : r.user with
          | none => simp [extract, huser, Except.toOption] at h
          | some user =>
              simp only [extract, huser, Except.toOption, Option.map_some, Option.some.injEq] at h
              exact ⟨r, user, hold, hstage, huser, h.symm⟩
      · cases h
  · cases h

/-- One step: no decision, and nothing was asked and the clock is as before; or a decision on one
more question, later than all before. -/
theorem decision?_cases {e : Event} (hstep : step sha256 d s e = some s') :
    (decision? d s e = none ∧ s'.asked = s.asked ∧ s'.clock = s.clock) ∨
    ∃ id limited, decision? d s e = some ⟨id, limited, s.decide d limited⟩ ∧
      extract limited.2 = .ok limited.1 ∧ s.clock ≤ limited.2.time ∧
      s'.asked = s.asked ++ [(limited.1, arrival limited)] ∧ s'.clock = limited.2.time := by
  obtain ⟨hagree, router, flight, -, -, rfl⟩ := step_eq_some_iff.mp hstep
  cases e with
  | arrive | introspect | cancel | abandon => exact .inl ⟨rfl, rfl, rfl⟩
  | advance id input clock =>
      cases hlimited : s.limited? id clock with
      | none =>
          refine .inl ⟨?_, ?_, ?_⟩
          · simp only [decision?, hlimited, Option.map_none]
          · simp only [State.askedAfter, hlimited]
          · simp only [hlimited, Option.isSome_none, Bool.false_eq_true, if_false]
      | some limited =>
          obtain ⟨r, user, hold, hstage, huser, hvalue⟩ := limited?_eq_some hlimited
          have htime : limited.2.time = clock := by rw [hvalue]
          refine .inr ⟨id, limited, ?_, ?_, ?_, ?_, ?_⟩
          · simp only [decision?, hlimited, Option.map_some]
          · rw [hvalue]
            rfl
          · rw [htime]
            simpa [agree, State.stage?, hold, hstage] using hagree
          · simp only [State.askedAfter, hlimited]
          · simp only [hlimited, Option.isSome_some, if_true, htime]

theorem decisionsFrom_cons {e : Event} (hstep : step sha256 d s e = some s') (es : List Event) :
    decisionsFrom sha256 d s (e :: es) =
      (decision? d s e).toList ++ decisionsFrom sha256 d s' es := by
  rw [decisionsFrom, observe, hstep]
  rfl

/-- **The limiter of a run is the limiter**: given the requests in the order of the decisions, it
lets through the ones that were let through. -/
theorem letThrough_eq {t : State} (hrun : run (step sha256 d) s es = some t) :
    letThrough (decisionsFrom sha256 d s es) =
      d.limiter.serve Prod.fst arrival s.asked
        (keyed (arrivals (decisionsFrom sha256 d s es))) := by
  induction es generalizing s with
  | nil => rfl
  | cons e es ih =>
      obtain ⟨s', hstep, hrest⟩ := run_cons_eq_some.mp hrun
      rw [decisionsFrom_cons hstep]
      obtain ⟨hnone, hasked, -⟩ | ⟨id, limited, hsome, hkey, -, hasked, -⟩ :=
        decision?_cases hstep
      · rw [hnone, Option.toList_none, List.nil_append, ← hasked]
        exact ih hrest
      · have htail := ih hrest
        rw [hasked] at htail
        have hkeyed : keyed (arrivals (⟨id, limited, s.decide d limited⟩ ::
            decisionsFrom sha256 d s' es)) =
            limited :: keyed (arrivals (decisionsFrom sha256 d s' es)) := by
          simp [keyed, arrivals, hkey, Except.toOption]
        rw [hsome, Option.toList_some, List.singleton_append, hkeyed]
        show letThrough _ = if s.decide d limited then
            limited :: d.limiter.serve Prod.fst arrival
              (s.asked ++ [(limited.1, arrival limited)]) _
          else d.limiter.serve Prod.fst arrival (s.asked ++ [(limited.1, arrival limited)]) _
        rw [← htail]
        cases hallowed : s.decide d limited with
        | true => simp [letThrough]
        | false => simp [letThrough]

/-- The requests come to the limiter in the order of its clock. -/
theorem arrivals_sorted {t : State} (hrun : run (step sha256 d) s es = some t) :
    (∀ req ∈ arrivals (decisionsFrom sha256 d s es), s.clock ≤ req.time) ∧
      (arrivals (decisionsFrom sha256 d s es)).Pairwise fun a b => a.time ≤ b.time := by
  induction es generalizing s with
  | nil => exact ⟨nofun, .nil⟩
  | cons e es ih =>
      obtain ⟨s', hstep, hrest⟩ := run_cons_eq_some.mp hrun
      obtain ⟨hfrom, hsorted⟩ := ih hrest
      rw [decisionsFrom_cons hstep]
      obtain ⟨hnone, -, hclock⟩ | ⟨id, limited, hsome, -, hle, -, hclock⟩ := decision?_cases hstep
      · rw [hnone, Option.toList_none, List.nil_append, ← hclock]
        exact ⟨hfrom, hsorted⟩
      · rw [hsome, Option.toList_some, List.singleton_append]
        rw [hclock] at hfrom
        refine ⟨?_, List.pairwise_cons.mpr ⟨hfrom, hsorted⟩⟩
        intro req hreq
        rcases List.mem_cons.mp hreq with rfl | hreq
        · exact hle
        · exact Nat.le_trans hle (hfrom req hreq)

/-! ## Every request is decided upon once

Nobody comes to a handler past the limiter, and nobody comes to the limiter twice: the decisions of
a run are about different requests, and the stage of a request tells what was decided about it. -/

/-- Request `id` was decided upon, and how. -/
def DecidedAs (ds : List Decision) (id : Nat) (r : Router.Request) (allowed : Bool) : Prop :=
  ∃ x ∈ ds, x.id = id ∧ x.allowed = allowed ∧ r.user.map (·.subject) = some x.limited.1

/-- A request at its handler has been let through. One that is answered behind authentication has
been let through unless it is answered with the limiter's 429. -/
def Settled (ds : List Decision) (id : Nat) (r : Router.Request) : Prop :=
  match r.stage with
  | .handling _ => DecidedAs ds id r true
  | .auditing response | .answered response =>
      r.user ≠ none → DecidedAs ds id r (response ≠ .tooManyRequests)
  | _ => True

structure Decided (ds : List Decision) (router : Router.State) : Prop where
  nodup   : (ds.map (·.id)).Nodup
  handed  : ∀ x ∈ ds, ∃ r, router.requests x.id = some r ∧ r.stage.handed = true ∧
    r.user.map (·.subject) = some x.limited.1
  settled : ∀ id r, router.requests id = some r → Settled ds id r

section Settled

variable {ds ds' : List Decision} {id : Nat} {r r' : Router.Request} {f : SingleFlight.Request}

theorem DecidedAs.mono {allowed : Bool} (h : DecidedAs ds id r allowed) (hsub : ds ⊆ ds') :
    DecidedAs ds' id r allowed := by
  obtain ⟨x, hx, hid, hrest⟩ := h
  exact ⟨x, hsub hx, hid, hrest⟩

theorem Settled.mono (h : Settled ds id r) (hsub : ds ⊆ ds') : Settled ds' id r := by
  unfold Settled at h ⊢
  split at h
  · exact h.mono hsub
  · exact fun huser => (h huser).mono hsub
  · exact fun huser => (h huser).mono hsub
  · trivial

theorem Settled.respond {response : Router.Response}
    (h : DecidedAs ds id r (response ≠ .tooManyRequests)) : Settled ds id (r.respond response) := by
  unfold Router.Request.respond
  split
  · exact fun _ => h
  · exact fun _ => h

/-- A request that leaves the limiter. -/
theorem Settled.call (h : DecidedAs ds id r true) (user : AuthenticatedUser) :
    Settled ds id (r.call user) ∧ ∃ stage, stage.handed = true ∧ r.call user = { r with stage } := by
  unfold Router.Request.call
  split
  · exact ⟨h, _, rfl, rfl⟩
  · split
    · exact ⟨Settled.respond h, r.respond_eq _⟩
    · exact ⟨h, _, rfl, rfl⟩

/-- A request behind the limiter. -/
theorem Settled.advance {db db' : Database} {input : Router.Input} (h : Settled ds id r)
    (hhanded : r.stage.handed = true) (hadvance : r.advance d.app db input = some (db', r')) :
    Settled ds id r' := by
  unfold Settled at h
  unfold Router.Request.advance at hadvance
  cases hstage : r.stage with
  | arrived | authenticating _ | denying _ | limiting =>
      rw [hstage] at hhanded
      cases hhanded
  | handling handler =>
      simp only [hstage] at h hadvance
      cases handler with
      | requestPin user stage =>
          obtain ⟨⟨db', stage'⟩, -, hadvance⟩ := Option.bind_eq_some_iff.mp hadvance
          cases hadvance
          unfold Router.Request.requestPin
          split
          · exact Settled.respond h
          · exact Settled.respond h
          · exact h
      | provision admin payload stage =>
          obtain ⟨⟨db', stage'⟩, -, hadvance⟩ := Option.bind_eq_some_iff.mp hadvance
          cases hadvance
          unfold Router.Request.provision
          split
          · exact Settled.respond h
          · exact Settled.respond h
          · exact h
      | dropped => cases hadvance
  | auditing response =>
      simp only [hstage] at h hadvance
      cases hadvance
      exact h
  | answered _ | dropped =>
      simp only [hstage] at hadvance
      cases hadvance

/-- A request before the limiter. -/
theorem Settled.of_early {db db' : Database} {input : Router.Input} (hlinked : Linked r f)
    (hearly : r.stage.handed = false) (hlimiting : r.stage ≠ .limiting)
    (hadvance : r.advance d.app db input = some (db', r')) : Settled ds id r' := by
  unfold Linked at hlinked
  unfold Router.Request.advance at hadvance
  cases hstage : r.stage with
  | arrived =>
      simp only [hstage] at hadvance
      split at hadvance <;> cases hadvance <;> trivial
  | authenticating token =>
      simp only [hstage] at hlinked hadvance
      split at hadvance
      · cases hadvance
        trivial
      · split at hadvance
        · cases hadvance
          trivial
        · cases hadvance
          exact fun huser => absurd hlinked.1 huser
  | denying e =>
      simp only [hstage] at hlinked hadvance
      cases hadvance
      exact fun huser => absurd hlinked.1 huser
  | limiting => exact absurd hstage hlimiting
  | handling _ | auditing _ | answered _ | dropped =>
      rw [hstage] at hearly
      cases hearly

/-- The others stay as they are when request `id` moves. -/
theorem Decided.setRequest {router : Router.State} (h : Decided ds router) (db : Database)
    (hsub : ds ⊆ ds') (hsettled : Settled ds' id r')
    (hkeep : ∀ r, router.requests id = some r → r.stage.handed = true →
      r'.stage.handed = true ∧ r'.user = r.user) :
    (∀ x ∈ ds, ∃ r, ({ router with db }.setRequest id r').requests x.id = some r ∧
      r.stage.handed = true ∧ r.user.map (·.subject) = some x.limited.1) ∧
    ∀ other r, ({ router with db }.setRequest id r').requests other = some r →
      Settled ds' other r := by
  rw [Router.State.requests_setRequest]
  constructor
  · intro x hx
    obtain ⟨r, hold, hr, hsubject⟩ := h.handed x hx
    by_cases heq : x.id = id
    · rw [heq, Function.update_self]
      obtain ⟨hr', huser⟩ := hkeep r (by rw [← heq, hold]) hr
      exact ⟨r', rfl, hr', by rw [huser, hsubject]⟩
    · rw [Function.update_of_ne heq]
      exact ⟨r, hold, hr, hsubject⟩
  · intro other r hother
    by_cases heq : other = id
    · subst heq
      rw [Function.update_self, Option.some.injEq] at hother
      rwa [← hother]
    · rw [Function.update_of_ne heq] at hother
      exact (h.settled other r hother).mono hsub

/-- A step without a decision. -/
theorem Decided.keep {router : Router.State} {db : Database} (h : Decided ds router)
    (hsettled : Settled ds id r')
    (hkeep : ∀ r, router.requests id = some r → r.stage.handed = true →
      r'.stage.handed = true ∧ r'.user = r.user) :
    Decided ds ({ router with db }.setRequest id r') := by
  obtain ⟨hhanded, hsettled'⟩ := h.setRequest db (fun _ hx => hx) hsettled hkeep
  exact ⟨h.nodup, hhanded, hsettled'⟩

/-- A step with one: the request was in front of the limiter, so nothing was decided before. -/
theorem Decided.decide {router : Router.State} {db : Database} (h : Decided ds router)
    (hold : router.requests id = some r) (hstage : r.stage = .limiting) {x : Decision}
    (hx : x.id = id) (hsettled : Settled (ds ++ [x]) id r') (hhanded : r'.stage.handed = true)
    (hsubject : r'.user.map (·.subject) = some x.limited.1) :
    Decided (ds ++ [x]) ({ router with db }.setRequest id r') := by
  have hearly : ∀ r₀, router.requests id = some r₀ → r₀.stage.handed ≠ true := by
    intro r₀ hr₀ hpast
    rw [hold, Option.some.injEq] at hr₀
    rw [← hr₀, hstage] at hpast
    cases hpast
  obtain ⟨hothers, hsettled'⟩ := h.setRequest db (List.subset_append_left ds [x]) hsettled
    fun r₀ hr₀ hpast => absurd hpast (hearly r₀ hr₀)
  refine ⟨?_, ?_, hsettled'⟩
  · rw [List.map_append, List.nodup_append]
    refine ⟨h.nodup, by simp, ?_⟩
    intro a ha b hb
    obtain ⟨y, hy, rfl⟩ := List.mem_map.mp ha
    rw [List.map_singleton, List.mem_singleton, hx] at hb
    rw [hb]
    intro heq
    obtain ⟨r₀, hr₀, hpast, -⟩ := h.handed y hy
    exact hearly r₀ (by rw [← heq, hr₀]) hpast
  · intro y hy
    rcases List.mem_append.mp hy with hy | hy
    · exact hothers y hy
    · rw [List.mem_singleton.mp hy, hx, Router.State.requests_setRequest, Function.update_self]
      exact ⟨r', rfl, hhanded, hsubject⟩

/-- The step of a request in front of the limiter. -/
theorem Decided.limit {router : Router.State} {db : Database} (h : Decided ds router)
    (hold : router.requests id = some r) (hstage : r.stage = .limiting) {x : Decision}
    (hx : x.id = id) {user : AuthenticatedUser} (huser : r.user = some user)
    (hsubject : x.limited.1 = user.subject) {input : Router.Input}
    (hallowed : x.allowed = input.allowed) {db₀ : Database}
    (hadvance : r.advance d.app db₀ input = some (db, r')) :
    Decided (ds ++ [x]) ({ router with db }.setRequest id r') := by
  have hkey : r.user.map (·.subject) = some x.limited.1 := by
    rw [huser, hsubject]
    rfl
  have hdecided : DecidedAs (ds ++ [x]) id r input.allowed := ⟨x, by simp, hx, hallowed, hkey⟩
  simp only [Router.Request.advance, hstage, extract, huser] at hadvance
  split at hadvance
  · next hyes =>
      cases hadvance
      rw [hyes] at hdecided
      obtain ⟨hsettled, stage, hhanded, heq⟩ := Settled.call hdecided user
      exact h.decide hold hstage hx hsettled (by rw [heq]; exact hhanded) (by rw [heq]; exact hkey)
  · next hno =>
      cases hadvance
      rw [Bool.not_eq_true] at hno
      rw [hno] at hdecided
      obtain ⟨stage, hhanded, heq⟩ := r.respond_eq .tooManyRequests
      exact h.decide hold hstage hx (Settled.respond hdecided) (by rw [heq]; exact hhanded)
        (by rw [heq]; exact hkey)

end Settled

theorem Decided.step {ds : List Decision} (h : Decided ds s.router) (hlinks : Links s) {e : Event}
    (hstep : step sha256 d s e = some s') :
    Decided (ds ++ (decision? d s e).toList) s'.router := by
  obtain ⟨hagree, router, flight, hrouter, hflight, rfl⟩ := step_eq_some_iff.mp hstep
  show Decided _ router
  cases e with
  | arrive id route time authorization body =>
      simp only [routerEvent, Option.toList_some, run_singleton] at hrouter
      simp only [decision?, Option.toList_none, List.append_nil]
      cases Router.moves_of_step hrouter with
      | arrive hnew =>
          refine h.keep trivial ?_
          intro r hold
          rw [hnew] at hold
          cases hold
  | introspect e =>
      cases hrouter
      simpa only [decision?, Option.toList_none, List.append_nil] using h
  | cancel id =>
      simp only [routerEvent, Option.toList_some, run_singleton] at hrouter
      simp only [decision?, Option.toList_none, List.append_nil]
      cases Router.moves_of_step hrouter with
      | cancel hold =>
          refine h.keep trivial ?_
          intro r₀ hr₀ _
          rw [hold, Option.some.injEq] at hr₀
          exact ⟨rfl, by rw [hr₀]⟩
  | abandon id input =>
      simp only [routerEvent, Option.toList_some, run_singleton] at hrouter
      simp only [decision?, Option.toList_none, List.append_nil]
      cases Router.moves_of_step hrouter with
      | abandon hold =>
          refine h.keep trivial ?_
          intro r₀ hr₀ _
          rw [hold, Option.some.injEq] at hr₀
          exact ⟨rfl, by rw [hr₀]⟩
  | advance id input clock =>
      simp only [routerEvent, Option.toList_some, run_singleton] at hrouter
      cases Router.moves_of_step hrouter with
      | @advance _ _ r r' db hold hadvance =>
          have hlink := hlinks id
          rw [hold] at hlink
          by_cases hlimiting : r.stage = .limiting
          · simp only [Link, Linked, hlimiting] at hlink
            obtain ⟨user, huser, -⟩ := hlink
            have hlimited : s.limited? id clock =
                some (user.subject, ⟨r.route, some user, clock⟩) := by
              simp [State.limited?, hold, hlimiting, extract, huser, Except.toOption]
            simp only [decision?, hlimited, Option.map_some, Option.toList_some]
            refine h.limit hold hlimiting rfl huser rfl ?_ hadvance
            simp [State.allows, hlimited]
          · have hlimited : s.limited? id clock = none := by
              simp only [State.limited?, hold]
            simp only [decision?, hlimited, Option.map_none, Option.toList_none, List.append_nil]
            cases hhanded : r.stage.handed with
            | false =>
                refine h.keep (Settled.of_early hlink hhanded hlimiting hadvance) ?_
                intro r₀ hr₀ hpast
                rw [hold, Option.some.injEq] at hr₀
                rw [← hr₀, hhanded] at hpast
                cases hpast
            | true =>
                refine h.keep (Settled.advance (h.settled id r hold) hhanded hadvance) ?_
                intro r₀ hr₀ _
                rw [hold, Option.some.injEq] at hr₀
                obtain ⟨stage, hstage, rfl⟩ := Router.Request.eq_of_handed hhanded hadvance
                exact ⟨hstage, by rw [hr₀]⟩

theorem decided_of_run (hrun : run (System.step sha256 d) d.init es = some s) :
    Decided (decisions sha256 d es) s.router := by
  apply run_induction (P := fun es s => Decided (decisions sha256 d es) s.router) _ _ hrun
  · refine ⟨List.nodup_nil, nofun, ?_⟩
    intro id r hold
    cases hold
  · intro es s e s' hrun ih hstep
    have hsnoc : decisions sha256 d (es ++ [e]) =
        decisions sha256 d es ++ (decision? d s e).toList := observe_snoc e hrun
    rw [hsnoc]
    exact ih.step (links_of_run hrun) hstep

/-! ## Windows

The bound of the bucket, for the requests that the server lets through. -/

/-- A request of `subject` was let through, at a time from `t` on and before `stop`. -/
def Decision.letIn (subject : String) (t stop : Nat) (x : Decision) : Bool :=
  x.allowed ∧ x.limited.1 = subject ∧ t ≤ x.limited.2.time ∧ x.limited.2.time < stop

theorem countP_letIn (ds : List Decision) (subject : String) (t stop : Nat) :
    ds.countP (Decision.letIn subject t stop) =
      (letThrough ds).countP (inWindow Prod.fst arrival subject t stop) := by
  rw [letThrough, List.countP_map, List.countP_filter]
  apply List.countP_congr
  intro x _
  simp only [Decision.letIn, inWindow, Function.comp_apply, Bool.and_eq_true, decide_eq_true_eq]
  exact and_comm

theorem countP_letIn_le {cfg : Config} (himpl : d.limiter.Implements (quota cfg))
    (hperiod : 0 < refillNanos cfg) (hrun : run (System.step sha256 d) d.init es = some s)
    (subject : String) (t : Nat) :
    (decisions sha256 d es).countP (Decision.letIn subject t (t + windowNanos cfg)) ≤
      busiest cfg := by
  rw [countP_letIn, decisions, letThrough_eq hrun]
  exact countP_admitted_le himpl hperiod (arrivals_sorted hrun).2 subject t

/-- **No window is busier than the busiest one.** In every run of a server whose limiter `config`
has returned: if what its builder builds is a bucket per key, then in any window of the configured
length no more requests of a subject are let through than `busiest` says. Whatever the limiter does,
every request is decided upon at most once, and a request that is at its handler or answered with
200 is one of those that were let through for its subject. -/
theorem handled_in_window {finish : Finish} {mode : Overflow} {cfg : Config}
    (hlimiter : config finish mode cfg = some (.ok d.limiter))
    (hrun : run (System.step sha256 d) d.init es = some s) :
    (finish.Documented → finish.Gcra (refillNanos cfg) cfg.rateLimitMaxRequests →
      ∀ subject t, (decisions sha256 d es).countP
        (Decision.letIn subject t (t + windowNanos cfg)) ≤ busiest cfg) ∧
    letThrough (decisions sha256 d es) = admitted d.limiter (arrivals (decisions sha256 d es)) ∧
    ((decisions sha256 d es).map (·.id)).Nodup ∧
    ∀ id r, s.router.requests id = some r →
      ((∃ h, r.stage = .handling h) ∨ ∃ response, r.stage = .answered response ∧
        response.status = 200) →
      ∃ user, r.user = some user ∧ ∃ x ∈ decisions sha256 d es, x.id = id ∧ x.allowed = true ∧
        x.limited.1 = user.subject := by
  have hdecided := decided_of_run hrun
  refine ⟨?_, letThrough_eq hrun, hdecided.nodup, ?_⟩
  · intro hfinish hgcra
    exact countP_letIn_le (implements_of_config hgcra hlimiter) (pos_of_config hfinish hlimiter).1
      hrun
  intro id r hold hstage
  have hsettled := hdecided.settled id r hold
  have hlink := links_of_run hrun id
  rw [hold] at hlink
  -- 200 is not what the limiter or the authentication layer answer
  have hdec : DecidedAs (decisions sha256 d es) id r true := by
    rcases hstage with ⟨h, hstage⟩ | ⟨response, hstage, hstatus⟩
    · simpa only [Settled, hstage] using hsettled
    · simp only [Settled, hstage] at hsettled
      simp only [Link, Linked, hstage] at hlink
      obtain ⟨e, rfl, -, -⟩ | ⟨user, huser, -⟩ := hlink
      · cases e <;> cases hstatus
      · have hne : response ≠ .tooManyRequests := by
          rintro rfl
          cases hstatus
        simpa [huser, hne] using hsettled
  obtain ⟨x, hx, hid, hallowed, hsubject⟩ := hdec
  obtain ⟨user, huser, heq⟩ := Option.map_eq_some_iff.mp hsubject
  exact ⟨user, huser, x, hx, hid, hallowed, heq.symm⟩

/-- In the run of `morning` the limiter has let both requests through. -/
theorem handled_in_window_morning :
    (decisions SingleFlight.testSha256 demo morning).countP
        (Decision.letIn "alice" 0 (0 + windowNanos (minimalConfig 6))) = 1 ∧
      (decisions SingleFlight.testSha256 demo morning).countP
        (Decision.letIn "alice" 0 (0 + windowNanos (minimalConfig 6))) ≤
          busiest (minimalConfig 6) := by
  obtain ⟨s, hrun, -⟩ := answerTo_morning
  have hlimiter : config bucketFinish .panics (minimalConfig 6) = some (.ok demo.limiter) :=
    config_minimal _ (by decide) (by decide)
  have hbusiest := (handled_in_window hlimiter hrun).1 bucketFinish_documented
    (bucketFinish_gcra _ _)
  exact ⟨by decide +kernel, hbusiest "alice" 0⟩

end Urheilulaatikko.Server.System
