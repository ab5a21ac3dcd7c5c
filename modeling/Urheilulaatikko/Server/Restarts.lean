import Urheilulaatikko.Server.Audit
import Urheilulaatikko.Server.EndToEnd

/-!
# Restarts

The database outlives the process. Here a run may be cut off at any moment: the server dies with all
its requests, the calls in flight and what the limiter keeps, and `main` starts it again on the
tables that it has left.

* `survives_restarts` — what the tables hold and what the PINs are, over all the lives of a server.
-/

namespace Urheilulaatikko.Server.Router

open Trace Routes

/-! ## Commits, as the stack sees them

After a restart the handlers of the earlier lives are gone, so a commit is read off the step of the
stack that makes it. It is the commit of the handler behind it. -/

/-- The commit that a step of request `id` makes, if it makes one. -/
def Request.committed? (r : Request) (id : Nat) (input : Input) : Option Commit :=
  match r.stage, input.statement with
  | .handling (.provision admin payload (.upserting subject provisioned _ _)), .ok () =>
      some { handler := id, admin, payload, subject, raw := provisioned.raw }
  | _, _ => none

def committed? (s : State) : Event → Option Commit
  | .advance id input => (s.requests id).bind fun r => r.committed? id input
  | _ => none

theorem Request.bind_callEvent {r : Request} {id : Nat} {t : Routes.State} :
    (r.callEvent id).bind (commit? t) = none := by
  unfold Request.callEvent
  split <;> rfl

/-- A step of a request commits what its handler commits. -/
theorem Refines.committed?_eq {s : State} {t : Routes.State} (h : Refines s t) (e : Event) :
    committed? s e = (handlerEvent s e).bind (commit? t) := by
  cases e with
  | arrive => rfl
  | cancel id | abandon id input =>
      simp only [committed?, handlerEvent]
      split
      · rfl
      · split <;> rfl
  | advance id input =>
      have hid := h.behind id
      cases hold : s.requests id with
      | none => simp [committed?, handlerEvent, hold]
      | some r =>
          rw [hold] at hid
          simp only [Behind, Request.Behind] at hid
          simp only [committed?, handlerEvent, hold, Option.bind_some, Request.committed?]
          cases hstage : r.stage with
          | handling handler =>
              simp only [hstage] at hid
              simp only [Option.bind_some, commit?, hid.1]
              cases handler with
              | requestPin | dropped => rfl
              | provision admin payload stage => cases stage <;> cases input.statement <;> rfl
          | limiting =>
              -- a handler that is only just called commits nothing
              show none = Option.bind (if input.allowed then r.callEvent id else none) (commit? t)
              split
              · exact Request.bind_callEvent.symm
              · rfl
          | _ => rfl

end Urheilulaatikko.Server.Router

namespace Urheilulaatikko.Server.Restarts

open Auth Trace Routes

/-! ## A server that is started again

A restart forgets everything but the database. What is remembered over all the lives are the
commits, and for a handler past its `get` the moment of the `get`, in the present life. -/

/-- The server as it starts on a database. -/
def resume (d : System.Deployment) (db : Database) : System.State :=
  { d.init with router := { Router.State.init with db } }

inductive Event where
  | serve (e : System.Event)
  /-- The process dies, wherever it is, and is started again. -/
  | restart

section Step

variable (sha256 : String → SingleFlight.Key) (d : System.Deployment)

def step (s : System.State) : Event → Option System.State
  | .serve e => System.step sha256 d s e
  | .restart => some (resume d s.router.db)

/-- The commit that an event makes in a state, if it makes one. -/
def commit? (s : System.State) : Event → Option Commit
  | .serve e => (System.routerEvent d s e).bind (Router.committed? s.router)
  | .restart => none

/-- All that was committed, in any life of the server. -/
def commits (es : List Event) : List Commit := observe (step sha256 d) (commit? d) d.init es

/-- A database in which every subject has the secret that was committed last. -/
def Holds (db : Database) (cs : List Commit) : Prop :=
  ∀ subject, SecretStore.secretOf d.app.cipher db subject =
    (latest cs subject).map fun c => .ok c.raw

/-- In the run `es`, after `pre`, request `id` of `user` took the first step of its handler, the
`get`, and the server has not been started again since. -/
def ReadAt (es : List Event) (id : Nat) (user : AuthenticatedUser) (pre : List Event)
    (input : Input) : Prop :=
  (∃ clock post, es = pre ++ .serve (.advance id input clock) :: post ∧ .restart ∉ post) ∧
    ∃ s, run (step sha256 d) d.init pre = some s ∧
      s.stage? id = some (.handling (.requestPin user .called))

/-- A `request_pin` handler past its `get` goes back to it. -/
def Looked (es : List Event) (id : Nat) (user : AuthenticatedUser) (stage : RequestPin) : Prop :=
  stage = .called ∨ ∃ pre db input, ReadAt sha256 d es id user pre input ∧
    Holds d db (commits sha256 d pre) ∧ stage.Follows d.app user db input

def Traced (es : List Event) (t : Routes.State) : Prop :=
  ∀ id user stage, t.handlers id = some (.requestPin user stage) → Looked sha256 d es id user stage

/-- The handlers of the present life, beside the stack. -/
structure Shadow (es : List Event) (s : System.State) (t : Routes.State) : Prop where
  refines : Router.Refines s.router t
  stored  : Stored d.app (commits sha256 d es) t
  traced  : Traced sha256 d es t

end Step

variable {sha256 : String → SingleFlight.Key} {d : System.Deployment} {es : List Event}
  {s s' : System.State} {t t' : Routes.State}

theorem commits_snoc (e : Event) (hrun : run (step sha256 d) d.init es = some s) :
    commits sha256 d (es ++ [e]) = commits sha256 d es ++ (commit? d s e).toList :=
  observe_snoc e hrun

/-! ## A step of a life

Beside the stack run the handlers of the present life (`Shadow`), which start on the tables that the
life before has left. A step of the server is a step of theirs, and a restart replaces them all. -/

/-- What an event of the server means to the handlers. -/
def handlerEvent (d : System.Deployment) (s : System.State) (e : System.Event) :
    Option Routes.Event :=
  (System.routerEvent d s e).bind (Router.handlerEvent s.router)

theorem handlers_of_step (h : Router.Refines s.router t) {e : System.Event}
    (hstep : System.step sha256 d s e = some s') :
    ∃ t', run (Routes.step d.app) t (handlerEvent d s e).toList = some t' ∧
      Router.Refines s'.router t' := by
  obtain ⟨-, router, flight, hrouter, -, rfl⟩ := System.step_eq_some_iff.mp hstep
  unfold handlerEvent
  cases he : System.routerEvent d s e with
  | none =>
      rw [he] at hrouter
      cases hrouter
      exact ⟨t, rfl, h⟩
  | some e' =>
      rw [he, Option.toList_some, run_singleton] at hrouter
      exact (Router.refinement d.app).next h hrouter

theorem commit?_serve (h : Router.Refines s.router t) (e : System.Event) :
    commit? d s (.serve e) = (handlerEvent d s e).bind (Routes.commit? t) := by
  rw [handlerEvent, Option.bind_assoc, commit?]
  exact congrArg _ (funext h.committed?_eq)

/-- A handler moves when its request is asked to. -/
theorem advance_of_handlerEvent {e : System.Event} {id : Nat} {input : Input}
    (h : handlerEvent d s e = some (.advance id input)) :
    ∃ clock handler, e = .advance id input clock ∧ s.stage? id = some (.handling handler) := by
  obtain ⟨e', he', h⟩ := Option.bind_eq_some_iff.mp h
  cases e with
  | introspect => cases he'
  | arrive =>
      cases he'
      cases h
  | cancel other | abandon other other' =>
      cases he'
      simp only [Router.handlerEvent] at h
      split at h
      · cases h
      · split at h <;> cases h
  | advance other other' clock =>
      cases he'
      simp only [Router.handlerEvent] at h
      split at h
      · cases h
      · next r hold =>
          split at h
          · split at h
            · unfold Router.Request.callEvent at h
              split at h <;> cases h
            · cases h
          · next handler hstage =>
              cases h
              refine ⟨clock, handler, rfl, ?_⟩
              rw [System.State.stage?, hold, Option.map_some, hstage]
          · cases h

theorem ReadAt.snoc {id : Nat} {user : AuthenticatedUser} {pre : List Event} {input : Input}
    (h : ReadAt sha256 d es id user pre input) (e : System.Event) :
    ReadAt sha256 d (es ++ [.serve e]) id user pre input := by
  obtain ⟨⟨clock, post, rfl, hpost⟩, hcalled⟩ := h
  exact ⟨⟨clock, post ++ [.serve e], by simp, by simp [hpost]⟩, hcalled⟩

theorem Looked.snoc {id : Nat} {user : AuthenticatedUser} {stage : RequestPin}
    (h : Looked sha256 d es id user stage) (e : System.Event) :
    Looked sha256 d (es ++ [.serve e]) id user stage := by
  obtain hcalled | ⟨pre, db, input, hread, hholds, hfollows⟩ := h
  · exact .inl hcalled
  · exact .inr ⟨pre, db, input, hread.snoc e, hholds, hfollows⟩

/-- A handler that is called and moves reads the table of now. -/
theorem Shadow.readAt (h : Shadow sha256 d es s t)
    (hrun : run (step sha256 d) d.init es = some s) {e : System.Event} {id : Nat} {input : Input}
    (he : handlerEvent d s e = some (.advance id input)) {user : AuthenticatedUser}
    (hcalled : t.handlers id = some (.requestPin user .called)) :
    ReadAt sha256 d (es ++ [.serve e]) id user es input := by
  obtain ⟨clock, handler, rfl, hstage⟩ := advance_of_handlerEvent he
  refine ⟨⟨clock, [], rfl, by simp⟩, s, hrun, ?_⟩
  obtain ⟨r, hold, hr⟩ := Option.map_eq_some_iff.mp hstage
  have hbehind := h.refines.behind id
  simp only [hold, Router.Behind, Router.Request.Behind, hr] at hbehind
  rw [hcalled, Option.some.injEq] at hbehind
  rw [hstage, hbehind.1]

/-- A handler that moves looks into the table of now, or has looked before. -/
theorem Shadow.traced_step (h : Shadow sha256 d es s t)
    (hrun : run (step sha256 d) d.init es = some s) {e : System.Event} {e' : Routes.Event}
    (he : handlerEvent d s e = some e') (hmoves : Moves d.app t e' t') :
    Traced sha256 d (es ++ [.serve e]) t' := by
  intro id user stage hold
  obtain hold | rfl | ⟨input, stage₀, db, rfl, hold, hmove⟩ := requestPin_of_moves hmoves hold
  · exact (h.traced id user stage hold).snoc e
  · exact .inl rfl
  · right
    obtain rfl | ⟨pre, db₀, input₀, hread, hholds, hfollows⟩ := h.traced id user stage₀ hold
    · exact ⟨es, t.db, input, h.readAt hrun he hold, h.stored.secrets, .of_called hmove⟩
    · exact ⟨pre, db₀, input₀, hread.snoc e, hholds, hfollows.step hmove⟩

theorem Shadow.serve (hcipher : d.app.cipher.Inverts) (h : Shadow sha256 d es s t)
    (hrun : run (step sha256 d) d.init es = some s) {e : System.Event}
    (hstep : System.step sha256 d s e = some s') :
    ∃ t', Shadow sha256 d (es ++ [.serve e]) s' t' := by
  obtain ⟨t', ht', hrefines⟩ := handlers_of_step h.refines hstep
  have hcommits := commits_snoc (.serve e) hrun
  rw [commit?_serve h.refines] at hcommits
  refine ⟨t', ?_⟩
  cases he : handlerEvent d s e with
  | none =>
      -- the handlers notice nothing
      rw [he] at ht' hcommits
      cases ht'
      refine ⟨hrefines, ?_, ?_⟩
      · rw [hcommits, Option.bind_none, Option.toList_none, List.append_nil]
        exact h.stored
      · intro id user stage hold
        exact (h.traced id user stage hold).snoc e
  | some e' =>
      rw [he, Option.toList_some, run_singleton] at ht'
      rw [he, Option.bind_some] at hcommits
      have hmoves := moves_of_step ht'
      refine ⟨hrefines, ?_, h.traced_step hrun he hmoves⟩
      rw [hcommits]
      exact h.stored.step hcipher hmoves

/-- Nothing but the tables is left, and they are as they were. -/
theorem Shadow.restart (h : Shadow sha256 d es s t)
    (hrun : run (step sha256 d) d.init es = some s) :
    Shadow sha256 d (es ++ [.restart]) (resume d s.router.db) { Routes.State.init with
      db := s.router.db } := by
  have hcommits : commits sha256 d (es ++ [.restart]) = commits sha256 d es := by
    rw [commits_snoc .restart hrun]
    exact List.append_nil _
  refine ⟨⟨rfl, fun _ => rfl⟩, ?_, ?_⟩
  · rw [hcommits]
    refine ⟨?_, h.stored.authorised, ?_⟩
    · intro subject
      have hsecret := h.stored.secrets subject
      rw [SecretStore.secretOf, ← h.refines.secrets] at hsecret
      exact hsecret
    · intro id handler hold
      cases hold
  · intro id user stage hold
    cases hold

theorem shadow_of_run (hcipher : d.app.cipher.Inverts)
    (hrun : run (step sha256 d) d.init es = some s) : ∃ t, Shadow sha256 d es s t := by
  refine run_induction (P := fun es s => ∃ t, Shadow sha256 d es s t) ?_ ?_ hrun
  · refine ⟨Routes.State.init, Router.Refines.init, Stored.init, ?_⟩
    intro id user stage hold
    cases hold
  · rintro es s e s' hrun ⟨t, h⟩ hstep
    cases e with
    | serve e => exact h.serve hcipher hrun hstep
    | restart =>
        cases hstep
        exact ⟨_, h.restart hrun⟩

/-! ## The log

Rows are only ever added, by the steps of a life and by a restart. -/

/-- No step takes a row out of `request_log`. -/
theorem requestLog_of_step {e : Event} (hstep : step sha256 d s e = some s') :
    s.router.db.requestLog <+: s'.router.db.requestLog := by
  cases e with
  | restart =>
      cases hstep
      exact List.prefix_rfl
  | serve e =>
      obtain ⟨-, router, flight, hrouter, -, rfl⟩ := System.step_eq_some_iff.mp hstep
      cases he : System.routerEvent d s e with
      | none =>
          rw [he] at hrouter
          cases hrouter
          exact List.prefix_rfl
      | some e' =>
          rw [he, Option.toList_some, run_singleton] at hrouter
          cases Router.moves_of_step hrouter with
          | arrive hnew => exact List.prefix_rfl
          | cancel hold => exact List.prefix_rfl
          | abandon hold hrow hdb =>
              show _ <+: Database.requestLog _
              rw [Router.State.db_setRequest, hdb, Router.requestLog_logRequest]
              exact List.prefix_append _ _
          | advance hold hadvance =>
              show _ <+: Database.requestLog _
              rw [Router.State.db_setRequest, Router.Request.requestLog_advance hadvance]
              exact List.prefix_append _ _

/-! ## All the lives of a server -/

/-- **The tables survive.** However often and wherever the server dies, if it is always started
again with the same configuration:

* every row of `totp_secrets` decrypts to the secret that was committed last for its subject, in
  whichever life, and a subject without a commit has no row;
* every commit was made for an admin;
* a PIN that the server answers with is that of the secret which was the last one committed for the
  user at the request's own `get`, at the time that the clock said there, and the server has not
  been started again since;
* no row of `request_log` is ever lost. -/
theorem survives_restarts (hcipher : d.app.cipher.Inverts)
    (hrun : run (step sha256 d) d.init es = some s) :
    (∀ subject, (s.router.db.totpSecrets subject = none ↔
        latest (commits sha256 d es) subject = none) ∧
      ∀ row, s.router.db.totpSecrets subject = some row →
        ∃ c, latest (commits sha256 d es) subject = some c ∧
          Crypto.decrypt d.app.cipher row.encryptedSecret row.nonce = .ok c.raw) ∧
    (∀ c ∈ commits sha256 d es, Authorised d.app c) ∧
    (∀ id r body, s.router.requests id = some r → r.stage = .answered (.pin body) →
      ∃ user pre input c generated, r.user = some user ∧ ReadAt sha256 d es id user pre input ∧
        latest (commits sha256 d pre) user.subject = some c ∧
        Totp.generateAt d.app.totpRs c.raw input.unixNow = .ok generated ∧
        body = ⟨generated.pin, generated.validForSeconds⟩) ∧
    (∀ pre post t, es = pre ++ post → run (step sha256 d) d.init pre = some t →
      t.router.db.requestLog <+: s.router.db.requestLog) := by
  obtain ⟨t, h⟩ := shadow_of_run hcipher hrun
  refine ⟨?_, h.stored.authorised, ?_, ?_⟩
  · intro subject
    have hsecret := h.stored.secrets subject
    rw [SecretStore.secretOf, ← h.refines.secrets] at hsecret
    constructor
    · rw [← Option.map_eq_none_iff, hsecret, Option.map_eq_none_iff]
    · intro row hrow
      rw [hrow, Option.map_some] at hsecret
      obtain ⟨c, hc, hraw⟩ := Option.map_eq_some_iff.mp hsecret.symm
      exact ⟨c, hc, hraw.symm⟩
  · intro id r body hold hstage
    have hbehind := h.refines.behind id
    rw [hold] at hbehind
    obtain ⟨user, -, huser, hhandler⟩ :=
      (Router.Request.Behind.of_answered hbehind hstage).of_pin
    obtain hcalled | ⟨pre, db, input, hread, hholds, secret, generated, hsecret, hgen, hbody⟩ :=
      h.traced id user _ hhandler
    · cases hcalled
    have hlatest := hholds user.subject
    rw [(SecretStore.get_eq_ok_some_iff.mp hsecret).2] at hlatest
    obtain ⟨c, hc, hraw⟩ := Option.map_eq_some_iff.mp hlatest.symm
    rw [Except.ok.injEq] at hraw
    exact ⟨user, pre, input, c, generated, huser, hread, hc, by rwa [hraw], hbody⟩
  · rintro pre post u rfl hpre
    obtain ⟨u', hu', hpost⟩ := run_append_eq_some.mp hrun
    rw [hpre] at hu'
    cases hu'
    refine run_invariant (I := fun v => u.router.db.requestLog <+: v.router.db.requestLog) ?_
      List.prefix_rfl hpost
    intro v e v' hv hstep
    exact hv.trans (requestLog_of_step hstep)

/-! ### Alice asks after a restart -/

/-- `morning`, with a restart between the admin's request and Alice's. -/
def interrupted : List Event :=
  (System.morning.take 12).map .serve ++ .restart :: (System.morning.drop 12).map .serve

/-- The request of the admin is gone, but not what it has committed. -/
theorem survives_restarts_interrupted :
    ∃ s r, run (step SingleFlight.testSha256 System.demo) System.demo.init interrupted = some s ∧
      (s.router.requests 0).isNone ∧ s.router.requests 1 = some r ∧
      r.stage = .answered (.pin ⟨"287082", 1⟩) ∧
      ∃ user pre input c, r.user = some user ∧
        ReadAt SingleFlight.testSha256 System.demo interrupted 1 user pre input ∧
        latest (commits SingleFlight.testSha256 System.demo pre) user.subject = some c := by
  have hanswer : (run (step SingleFlight.testSha256 System.demo) System.demo.init
      interrupted).bind (System.answerTo 1) =
        some (.request, some alice, .pin ⟨"287082", 1⟩) := by
    decide +kernel
  have hgone : (run (step SingleFlight.testSha256 System.demo) System.demo.init
      interrupted).map (fun s => (s.router.requests 0).isNone) = some true := by
    decide +kernel
  obtain ⟨s, hrun, hanswer⟩ := Option.bind_eq_some_iff.mp hanswer
  rw [hrun, Option.map_some, Option.some.injEq] at hgone
  obtain ⟨r, hold, -, -, hstage⟩ := System.request_of_answerTo hanswer
  obtain ⟨-, -, hpins, -⟩ := survives_restarts demoCipher_inverts hrun
  obtain ⟨user, pre, input, c, -, huser, hread, hc, -⟩ := hpins 1 r _ hold hstage
  exact ⟨s, r, hrun, hgone, hold, hstage, user, pre, input, c, huser, hread, hc⟩

end Urheilulaatikko.Server.Restarts
