import Urheilulaatikko.Lib.Simulation
import Urheilulaatikko.Server.Audit

/-!
# The layers refine the handlers

`Routes` lets any handler of any user start at any time; `Router` lets one start only behind
authentication and the limiter. What is proved about the runs of the handlers is true of the runs of
the whole stack, because every one of the latter is one of the former: the layers only decide which
handlers are called (`handlerEvent`), and the rows that they insert themselves go to a table that no
handler reads (`requestPin_congr`, `provision_congr`).

`layers_refine_handlers` is the theorem; `Behind` says what a request is to its handler.
-/

namespace Urheilulaatikko.Server

namespace Routes

open Auth SecretStore

variable {app : AppState}

theorem get_congr {db db' : Database} (hdb : db.totpSecrets = db'.totpSecrets) (cipher : Cipher)
    (statement : StatementResult) (subject : String) :
    get cipher db statement subject = get cipher db' statement subject := by
  unfold SecretStore.get
  rw [hdb]

/-- A `request_pin` handler reads and writes the secrets only. -/
theorem requestPin_congr {user : AuthenticatedUser} {db db' other : Database} {input : Input}
    {stage stage' : RequestPin} (hdb : db.totpSecrets = other.totpSecrets)
    (h : requestPin app user db input stage = some (db', stage')) :
    ∃ other', requestPin app user other input stage = some (other', stage') ∧
      db'.totpSecrets = other'.totpSecrets := by
  cases stage with
  | called =>
      simp only [requestPin, get_congr hdb] at h ⊢
      split at h
      · cases h
        exact ⟨other, rfl, hdb⟩
      · cases h
        exact ⟨other, rfl, hdb⟩
      · split at h
        · cases h
          exact ⟨other, rfl, hdb⟩
        · cases h
          exact ⟨other, rfl, hdb⟩
  | denying =>
      cases h
      exact ⟨_, rfl, by simpa using hdb⟩
  | touching secret generated =>
      simp only [requestPin, touchLastUsed] at h ⊢
      cases hstatement : input.statement with
      | error e =>
          rw [hstatement] at h
          cases h
          exact ⟨other, rfl, hdb⟩
      | ok _ =>
          rw [hstatement] at h
          cases h
          exact ⟨_, rfl, by simp only [touchRow, hdb]⟩
  | issuing generated =>
      cases h
      exact ⟨_, rfl, by simpa using hdb⟩
  | answered answer => cases h

/-- So does a `provision` handler. -/
theorem provision_congr {admin : AuthenticatedUser} {payload : ProvisionRequest}
    {db db' other : Database} {input : Input} {stage stage' : Provision}
    (hdb : db.totpSecrets = other.totpSecrets)
    (h : provision app admin payload db input stage = some (db', stage')) :
    ∃ other', provision app admin payload other input stage = some (other', stage') ∧
      db'.totpSecrets = other'.totpSecrets := by
  cases stage with
  | called =>
      -- nothing is written before the `upsert`
      have hmove : db' = db ∧ provision app admin payload other input .called =
          some (other, stage') := by
        simp only [provision] at h ⊢
        split at h
        · next hrole =>
            cases h
            exact ⟨rfl, if_pos hrole⟩
        · next hrole =>
            rw [if_neg hrole]
            split at h
            · next hsubject =>
                cases h
                exact ⟨rfl, if_pos hsubject⟩
            · next hsubject =>
                rw [if_neg hsubject]
                split at h
                · cases h
                  exact ⟨rfl, rfl⟩
                · split at h
                  · cases h
                    exact ⟨rfl, rfl⟩
                  · cases h
                    exact ⟨rfl, rfl⟩
      exact ⟨other, hmove.2, by rw [hmove.1, hdb]⟩
  | upserting subject provisioned encryptedSecret nonce =>
      simp only [provision, upsert] at h ⊢
      cases hstatement : input.statement with
      | error e =>
          rw [hstatement] at h
          cases h
          exact ⟨other, rfl, hdb⟩
      | ok _ =>
          rw [hstatement] at h
          cases h
          exact ⟨_, rfl, by simp only [upsertRow, hdb]⟩
  | recording subject provisioned =>
      cases h
      exact ⟨_, rfl, by simpa using hdb⟩
  | answered answer => cases h

end Routes

namespace Router

open Auth RateLimit Trace

variable {app : Routes.AppState}

/-! ## Past the limiter

From the handler on, a request is its stage: user, body and route do not change any more. -/

/-- The request has come past the limiter, or it is over. -/
def Stage.handed : Stage → Bool
  | .handling _ | .auditing _ | .answered _ | .dropped => true
  | _ => false

theorem Request.respond_eq (r : Request) (response : Response) :
    ∃ stage, stage.handed = true ∧ r.respond response = { r with stage } := by
  unfold Request.respond
  split
  · exact ⟨_, rfl, rfl⟩
  · exact ⟨_, rfl, rfl⟩

/-- From there on, only the stage of a request changes. -/
theorem Request.eq_of_handed {db db' : Database} {input : Input} {r r' : Request}
    (hhanded : r.stage.handed = true) (hadvance : r.advance app db input = some (db', r')) :
    ∃ stage, stage.handed = true ∧ r' = { r with stage } := by
  cases Request.move_of_advance hadvance with
  | unreadable hstage | readable hstage | accepted hstage | rejected hstage | unavailable hstage
  | denied hstage | unkeyed hstage | refused hstage | called hstage | calledProvision hstage
  | unreadableBody hstage =>
      rw [hstage] at hhanded
      cases hhanded
  | @requestPin user stage stage' _ hstage hmove =>
      unfold Request.requestPin
      split
      · exact r.respond_eq _
      · exact r.respond_eq _
      · exact ⟨_, rfl, rfl⟩
  | @provision admin payload stage stage' _ hstage hmove =>
      unfold Request.provision
      split
      · exact r.respond_eq _
      · exact r.respond_eq _
      · exact ⟨_, rfl, rfl⟩
  | audited hstage => exact ⟨_, rfl, rfl⟩

/-! ## What a step of the stack means to the handlers

Most steps of a request are nothing to the handlers. The limiter's consent is a call, a step of a
handler is the same step there, and a client that goes away takes its handler along. -/

/-- The handler that a request is handed to once the limiter lets it through. -/
def Request.callEvent (r : Request) (id : Nat) : Option Routes.Event :=
  match r.user, r.route, r.body with
  | some user, .request, _               => some (.requestPin id user)
  | some user, .provision, .ok payload   => some (.provision id user payload)
  | some _, .provision, .error _ | none, _, _ => none

def handlerEvent (s : State) : Event → Option Routes.Event
  | .arrive .. => none
  | .advance id input =>
      match s.requests id with
      | none   => none
      | some r =>
          match r.stage with
          | .limiting   => if input.allowed then r.callEvent id else none
          | .handling _ => some (.advance id input.toInput)
          | _           => none
  | .cancel id | .abandon id _ =>
      match s.requests id with
      | none   => none
      | some r =>
          match r.stage with
          | .handling _ => some (.cancel id)
          | _           => none

/-- What the handlers do in a run of the stack. -/
def handlerEvents (app : Routes.AppState) (es : List Event) : List Routes.Event :=
  observe (step app) handlerEvent State.init es

/-! ## A request and its handler

The relation of the simulation. Before the limiter there is no handler, then there is the one that
the request was handed to, and the answer of a request is that of its handler unless a layer has
answered by itself. -/

/-- The answer of a handler, as the audit layer sees it. -/
def handlerResponse : Routes.Handler → Option Response
  | .requestPin _ (.answered (.ok body))    => some (.pin body)
  | .requestPin _ (.answered (.error e))    => some (.error e)
  | .provision _ _ (.answered (.ok body))   => some (.provisioned body)
  | .provision _ _ (.answered (.error e))   => some (.error e)
  | _                                       => none

/-- The handler has been called with what the layers have made of the request. -/
def Request.Called (r : Request) : Routes.Handler → Prop
  | .requestPin user _         => r.route = .request ∧ r.user = some user
  | .provision admin payload _ =>
      r.route = .provision ∧ r.user = some admin ∧ r.body = .ok payload
  | .dropped                   => False

/-- What a layer answers by itself: authentication with an error, to nobody; the limiter with 429,
to somebody; the extractors of the handler of `/v1/totp/provision`. -/
def Request.AnsweredByLayer (r : Request) : Response → Prop
  | .error _                         => r.user = none
  | .tooManyRequests                 => r.user ≠ none
  | .jsonRejection _                 => r.user ≠ none ∧ r.route = .provision
  | .pin _ | .provisioned _ | .unableToExtractKey => False

/-- What a request is answered with is the answer of its handler, if it has come to one. -/
def Request.AnsweredBy (r : Request) (response : Response) : Option Routes.Handler → Prop
  | some h => handlerResponse h = some response ∧ r.Called h
  | none   => r.AnsweredByLayer response

/-- The handler behind a request: none before the limiter, then the one it has been handed to. -/
def Request.Behind (r : Request) (handler : Option Routes.Handler) : Prop :=
  match r.stage with
  | .arrived | .authenticating _ | .denying _ => handler = none ∧ r.user = none
  | .limiting => handler = none ∧ r.user ≠ none
  | .handling h => handler = some h ∧ h.running = true ∧ r.Called h
  | .auditing response | .answered response => r.AnsweredBy response handler
  | .dropped => ∀ h, handler = some h → h.running = false

theorem Request.Behind.of_answered {r : Request} {handler : Option Routes.Handler}
    {response : Response} (h : r.Behind handler) (hstage : r.stage = .answered response) :
    r.AnsweredBy response handler := by
  unfold Request.Behind at h
  rwa [hstage] at h

/-- A PIN comes from a `request_pin` handler. -/
theorem Request.AnsweredBy.of_pin {r : Request} {handler : Option Routes.Handler}
    {body : Routes.PinResponse} (h : r.AnsweredBy (.pin body) handler) :
    ∃ user, r.route = .request ∧ r.user = some user ∧
      handler = some (.requestPin user (.answered (.ok body))) := by
  cases handler with
  | none => exact h.elim
  | some handler =>
      obtain ⟨hresponse, hcalled⟩ := h
      unfold handlerResponse at hresponse
      split at hresponse <;> cases hresponse
      exact ⟨_, hcalled.1, hcalled.2, rfl⟩

/-- There is no handler for a number that no request has. -/
def Behind : Option Request → Option Routes.Handler → Prop
  | none,   handler => handler = none
  | some r, handler => r.Behind handler

/-- Behind every request is its handler, and the tables of secrets are the same. -/
structure Refines (s : State) (t : Routes.State) : Prop where
  secrets : s.db.totpSecrets = t.db.totpSecrets
  behind  : ∀ id, Behind (s.requests id) (t.handlers id)

theorem Refines.init : Refines State.init Routes.State.init := ⟨rfl, fun _ => rfl⟩

/-- A step of one request and of its handler. -/
theorem Refines.move {s : State} {t : Routes.State} (h : Refines s t) {id : Nat} {r : Request}
    {handler : Routes.Handler} {db db' : Database} (hdb : db.totpSecrets = db'.totpSecrets)
    (hr : r.Behind (some handler)) :
    Refines ({ s with db }.setRequest id r) ({ t with db := db' }.setHandler id handler) :=
  ⟨hdb, rel_update (R := fun _ => Behind) h.behind hr⟩

/-- A step of one request that leaves the handlers alone. -/
theorem Refines.keep {s : State} {t : Routes.State} (h : Refines s t) {id : Nat} {r : Request}
    {db : Database} (hdb : db.totpSecrets = s.db.totpSecrets) (hr : r.Behind (t.handlers id)) :
    Refines ({ s with db }.setRequest id r) t := by
  refine ⟨hdb.trans h.secrets, ?_⟩
  have hbehind := rel_update (R := fun _ => Behind) h.behind (i := id) (x := some r) hr
  rwa [Function.update_eq_self] at hbehind

/-! ## Every step is matched

One lemma for each kind of step; together they are the simulation. -/

section Step

variable {s : State} {t : Routes.State} {id : Nat} {r : Request}

/-- An answer is passed on as it is, through the audit layer or past it. -/
theorem Request.behind_respond {response : Response} {handler : Option Routes.Handler}
    (h : r.AnsweredBy response handler) : (r.respond response).Behind handler := by
  unfold Request.respond
  split <;> exact h

theorem Request.behind_requestPin {user : AuthenticatedUser} {stage : Routes.RequestPin}
    (hcalled : r.Called (.requestPin user stage)) :
    (r.requestPin user stage).Behind (some (.requestPin user stage)) := by
  cases stage with
  | answered answer =>
      cases answer with
      | ok body => exact Request.behind_respond ⟨rfl, hcalled⟩
      | error e => exact Request.behind_respond ⟨rfl, hcalled⟩
  | called | denying | touching | issuing => exact ⟨rfl, rfl, hcalled⟩

theorem Request.behind_provision {admin : AuthenticatedUser} {payload : Routes.ProvisionRequest}
    {stage : Routes.Provision} (hcalled : r.Called (.provision admin payload stage)) :
    (r.provision admin payload stage).Behind (some (.provision admin payload stage)) := by
  cases stage with
  | answered answer =>
      cases answer with
      | ok body => exact Request.behind_respond ⟨rfl, hcalled⟩
      | error e => exact Request.behind_respond ⟨rfl, hcalled⟩
  | called | upserting | recording => exact ⟨rfl, rfl, hcalled⟩

/-- Behind the limiter a handler is spawned, unless the body cannot be read. -/
theorem Refines.call (h : Refines s t) (hold : s.requests id = some r)
    (hstage : r.stage = .limiting) {user : AuthenticatedUser} (huser : r.user = some user) :
    ∃ t', run (Routes.step app) t (r.callEvent id).toList = some t' ∧
      Refines (s.setRequest id (r.call user)) t' := by
  have hnone : t.handlers id = none := by
    have hid := h.behind id
    rw [hold] at hid
    simp only [Behind, Request.Behind, hstage] at hid
    exact hid.1
  unfold Request.callEvent Request.call
  cases hroute : r.route with
  | request =>
      rw [huser]
      refine ⟨t.setHandler id (.requestPin user .called), ?_, ?_⟩
      · simp [run, Routes.step, Routes.State.spawn, hnone]
      · exact h.move h.secrets ⟨rfl, rfl, hroute, huser⟩
  | provision =>
      rw [huser]
      cases hbody : r.body with
      | ok payload =>
          refine ⟨t.setHandler id (.provision user payload .called), ?_, ?_⟩
          · simp [run, Routes.step, Routes.State.spawn, hnone]
          · exact h.move h.secrets ⟨rfl, rfl, hroute, huser, rfl⟩
      | error rejection =>
          refine ⟨t, rfl, h.keep rfl ?_⟩
          rw [hnone]
          exact Request.behind_respond ⟨by simp [huser], hroute⟩

/-- A request on its way to its next await, and its handler if it has come to one. -/
theorem Refines.advance (h : Refines s t) (hold : s.requests id = some r) {input : Input}
    {db : Database} {r' : Request} (hadvance : r.advance app s.db input = some (db, r')) :
    ∃ t', run (Routes.step app) t (handlerEvent s (.advance id input)).toList = some t' ∧
      Refines ({ s with db }.setRequest id r') t' := by
  have hid := h.behind id
  simp only [hold, Behind, Request.Behind] at hid
  simp only [handlerEvent, hold]
  unfold Request.advance at hadvance
  cases hstage : r.stage with
  | arrived =>
      simp only [hstage] at hadvance hid
      split at hadvance <;> cases hadvance <;> exact ⟨t, rfl, h.keep rfl hid⟩
  | authenticating token =>
      simp only [hstage] at hadvance hid
      split at hadvance
      · cases hadvance
        exact ⟨t, rfl, h.keep rfl ⟨hid.1, nofun⟩⟩
      · split at hadvance
        · cases hadvance
          exact ⟨t, rfl, h.keep rfl hid⟩
        · cases hadvance
          refine ⟨t, rfl, h.keep rfl ?_⟩
          rw [hid.1]
          exact hid.2
  | denying e =>
      simp only [hstage] at hadvance hid
      cases hadvance
      refine ⟨t, rfl, h.keep (SecretStore.totpSecrets_logRequest ..) ?_⟩
      rw [hid.1]
      exact hid.2
  | limiting =>
      simp only [hstage] at hadvance hid
      cases huser : r.user with
      | none => exact absurd huser hid.2
      | some user =>
          simp only [extract, huser] at hadvance
          by_cases hallowed : input.allowed = true
          · rw [if_pos hallowed] at hadvance
            cases hadvance
            simp only [if_pos hallowed]
            exact h.call hold hstage huser
          · rw [if_neg hallowed] at hadvance
            cases hadvance
            simp only [if_neg hallowed]
            refine ⟨t, rfl, h.keep rfl ?_⟩
            rw [hid.1]
            exact Request.behind_respond hid.2
  | handling handler =>
      simp only [hstage] at hadvance hid
      obtain ⟨hhandler, -, hcalled⟩ := hid
      cases handler with
      | requestPin user stage =>
          obtain ⟨⟨db', stage'⟩, hmove, hadvance⟩ := Option.bind_eq_some_iff.mp hadvance
          cases hadvance
          obtain ⟨other, hother, hdb⟩ := Routes.requestPin_congr h.secrets hmove
          refine ⟨{ t with db := other }.setHandler id (.requestPin user stage'), ?_, ?_⟩
          · simp [run, Routes.step, hhandler, hother]
          · exact h.move hdb (Request.behind_requestPin hcalled)
      | provision admin payload stage =>
          obtain ⟨⟨db', stage'⟩, hmove, hadvance⟩ := Option.bind_eq_some_iff.mp hadvance
          cases hadvance
          obtain ⟨other, hother, hdb⟩ := Routes.provision_congr h.secrets hmove
          refine ⟨{ t with db := other }.setHandler id (.provision admin payload stage'), ?_, ?_⟩
          · simp [run, Routes.step, hhandler, hother]
          · exact h.move hdb (Request.behind_provision hcalled)
      | dropped => cases hadvance
  | auditing response =>
      simp only [hstage] at hadvance hid
      cases hadvance
      refine ⟨t, rfl, h.keep (SecretStore.totpSecrets_logRequest ..) ?_⟩
      exact hid
  | answered response =>
      simp only [hstage] at hadvance
      cases hadvance
  | dropped =>
      simp only [hstage] at hadvance
      cases hadvance

/-- A client that goes away, whatever becomes of an insert of its request. -/
theorem Refines.drop (h : Refines s t) (hold : s.requests id = some r)
    (hopen : r.stage.over = false) {db : Database}
    (hdb : db.totpSecrets = s.db.totpSecrets) :
    ∃ t', run (Routes.step app) t (handlerEvent s (.cancel id)).toList = some t' ∧
      Refines ({ s with db }.setRequest id { r with stage := .dropped }) t' := by
  have hid := h.behind id
  simp only [hold, Behind, Request.Behind] at hid
  simp only [handlerEvent, hold]
  cases hstage : r.stage with
  | handling handler =>
      simp only [hstage] at hid
      refine ⟨t.setHandler id .dropped, ?_, ?_⟩
      · simp [run, Routes.step, hid.1, hid.2.1]
      · refine h.move (hdb.trans h.secrets) ?_
        intro handler' heq
        cases heq
        rfl
  | answered response =>
      rw [hstage] at hopen
      cases hopen
  | auditing response =>
      simp only [hstage] at hid
      refine ⟨t, rfl, h.keep hdb ?_⟩
      intro handler hhandler
      -- a handler that has answered is not running
      rw [hhandler] at hid
      have hanswered := hid.1
      unfold handlerResponse at hanswered
      split at hanswered <;> first | rfl | cases hanswered
  | arrived | authenticating _ | denying _ | limiting =>
      simp only [hstage] at hid
      refine ⟨t, rfl, h.keep hdb ?_⟩
      rw [hid.1]
      intro handler hhandler
      cases hhandler
  | dropped =>
      simp only [hstage] at hid
      exact ⟨t, rfl, h.keep hdb hid⟩

end Step

/-- The forward simulation of the stack by the handlers. -/
def refinement (app : Routes.AppState) : Simulation (step app) (Routes.step app) where
  rel   := Refines
  event := handlerEvent
  next  := by
    intro s t e s' h hstep
    cases e with
    | arrive id route time authorization body =>
        cases moves_of_step hstep with
        | arrive hnew =>
            have hid := h.behind id
            rw [hnew] at hid
            exact ⟨t, rfl, h.keep rfl ⟨hid, rfl⟩⟩
    | advance id input =>
        cases moves_of_step hstep with
        | advance hold hadvance => exact h.advance hold hadvance
    | cancel id =>
        cases moves_of_step hstep with
        | cancel hold hopen => exact h.drop hold hopen rfl
    | abandon id input =>
        cases moves_of_step hstep with
        | abandon hold hrow hdb =>
            refine h.drop hold (Request.over_of_row? hrow) ?_
            rw [hdb]
            exact SecretStore.totpSecrets_logRequest ..

theorem refines_of_run {es : List Event} {s : State}
    (hrun : run (step app) State.init es = some s) :
    ∃ t, run (Routes.step app) Routes.State.init (handlerEvents app es) = some t ∧ Refines s t :=
  (refinement app).run_eq_some Refines.init hrun

/-- **The layers refine the handlers.** Every run of the stack is, for the handlers, a run of their
own: in the state it leads to the table of secrets is the same, and behind every request is its own
handler, if it has come to one, which was called for the user that authentication has found. What is
answered with 200 is what this handler has returned. -/
theorem layers_refine_handlers {es : List Event} {s : State}
    (hrun : run (step app) State.init es = some s) :
    ∃ t, run (Routes.step app) Routes.State.init (handlerEvents app es) = some t ∧
      s.db.totpSecrets = t.db.totpSecrets ∧
      ∀ id r, s.requests id = some r → r.Behind (t.handlers id) := by
  obtain ⟨t, ht, hrefines⟩ := refines_of_run hrun
  refine ⟨t, ht, hrefines.secrets, ?_⟩
  intro id r hold
  have hid := hrefines.behind id
  rwa [hold] at hid

/-- Alice's PIN is the answer of her own handler. -/
theorem layers_refine_handlers_anHour :
    ∃ s t r, run (step Routes.demoApp) State.init anHour = some s ∧ s.requests 1 = some r ∧
      r.stage = .answered (.pin ⟨"287082", 1⟩) ∧
      run (Routes.step Routes.demoApp) Routes.State.init (handlerEvents Routes.demoApp anHour) =
        some t ∧
      t.handlers 1 = some (.requestPin Routes.alice (.answered (.ok ⟨"287082", 1⟩))) := by
  have hanswer : (run (step Routes.demoApp) State.init anHour).bind
      (fun s => (s.requests 1).bind fun r => (r.answer? 1).map fun a => (a.user, a.response)) =
        some (some Routes.alice, .pin ⟨"287082", 1⟩) := by
    decide +kernel
  obtain ⟨s, hrun, hanswer⟩ := Option.bind_eq_some_iff.mp hanswer
  obtain ⟨r, hold, hanswer⟩ := Option.bind_eq_some_iff.mp hanswer
  obtain ⟨a, ha, hpair⟩ := Option.map_eq_some_iff.mp hanswer
  obtain ⟨-, -, huser, hstage⟩ := Request.answer?_eq_some ha
  obtain ⟨t, ht, -, hbehind⟩ := layers_refine_handlers hrun
  rw [Prod.mk.injEq] at hpair
  rw [hpair.2] at hstage
  obtain ⟨user, -, hr, hhandler⟩ := ((hbehind 1 r hold).of_answered hstage).of_pin
  rw [← huser, hpair.1, Option.some.injEq] at hr
  rw [← hr] at hhandler
  exact ⟨s, t, r, hrun, hold, hstage, ht, hhandler⟩

end Router

end Urheilulaatikko.Server
