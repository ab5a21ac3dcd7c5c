import Urheilulaatikko.Server.Provisioning

/-!
# What `request_log` can be trusted for

`Audit` is about runs in which every insert succeeds and nobody goes away. Here anything may fail:
an insert into `request_log` that does is only logged, and the client is answered all the same. And
a client may go away while its request is put on record, so that there is a row for an answer that
was never received.

Rows may then be missing or be more than the answers, but none of them lies: every request tries one
insert at most, on the way to its answer, and the answer tells which one (`Request.due`), also if
there is nobody left to receive it (`Undelivered`).
-/

namespace Urheilulaatikko.Server.Router

open Auth RateLimit Trace Text

/-! ## Inserts and answers

What was tried is what an observer of the steps sees; what is due can be read off a request and its
answer. -/

/-- An insert that a request has tried. -/
structure Insert where
  id        : Nat
  subject   : Option String
  result    : RequestResult
  succeeded : Bool

/-- What the row would say. -/
def Insert.entry (x : Insert) : Option String × String := (x.subject, x.result.asStr)

/-- The insert that an event tries. -/
def insert? (s : State) : Event → Option Insert
  | .advance id input | .abandon id input =>
      (s.requests id).bind fun r =>
        r.row?.map fun row => ⟨id, row.1, row.2, input.statement.isOk⟩
  | _ => none

def inserts (app : Routes.AppState) (es : List Event) : List Insert :=
  observe (step app) insert? State.init es

/-- The inserts of one request. -/
def insertsBy (app : Routes.AppState) (es : List Event) (id : Nat) : List Insert :=
  (inserts app es).filter (·.id = id)

/-- The row that is due for an answer. Who has not been let in has no subject; from `provision` only
success is put on record, and of the errors of `request_pin` only that there is no secret. -/
def Request.due (r : Request) : Response → Option (Option String × RequestResult)
  | .pin _           => some (r.user.map (·.subject), .issued)
  | .provisioned _   => some (r.body.toOption.map (trim ·.subject), .provisioned)
  | .tooManyRequests => some (r.user.map (·.subject), .rateLimited)
  | .error e =>
      match r.user with
      | none      => if isRejection e then some (none, .deniedInactiveToken) else none
      | some user => if e = .notFound then some (some user.subject, .deniedNoSecret) else none
  | .unableToExtractKey | .jsonRejection _ => none

/-- The same for a request wherever it stands: nothing is due before the answer. -/
def Request.due? (r : Request) : Option (Option String × RequestResult) :=
  match r.stage with
  | .answered response => r.due response
  | _                  => none

/-- The answer that request `id` would have been given, had its client not gone away while it was
put on record: the step that it did not live to see leads there. -/
def Undelivered (app : Routes.AppState) (es : List Event) (id : Nat) (response : Response) : Prop :=
  ∃ before input after t r db r', es = before ++ .abandon id input :: after ∧
    run (step app) State.init before = some t ∧ t.requests id = some r ∧
    r.advance app t.db input = some (db, r') ∧ r'.stage = .answered response

/-- What a request has tried to insert, wherever it stands: with its answer what is due for it, and
nothing before. If its client has gone away, nothing, or what is due for the answer that was on its
way. -/
def Request.Logged (r : Request) (app : Routes.AppState) (es : List Event) (id : Nat)
    (tried : List (Option String × RequestResult)) : Prop :=
  match r.stage with
  | .answered response => tried = (r.due response).toList
  | .dropped           => tried = [] ∨
      ∃ response, Undelivered app es id response ∧ tried = (r.due response).toList
  | _                  => tried = []

/-! ## One request

A step that comes to an answer inserts what is due for it, and no other step inserts anything. The
handlers first, then the layers. -/

/-- Nobody is denied for an error that is no rejection, and nothing but the limiter's own answer is
audited. -/
def Request.Justified (r : Request) : Prop :=
  match r.stage with
  | .denying e         => isRejection e = true
  | .auditing response => response = .tooManyRequests
  | _                  => True

section Request

variable {app : Routes.AppState} {db db' : Database} {input : Input} {r r' : Request}

theorem Request.respond_of_ne {response : Response} (h : response.status ≠ 429) :
    r.respond response = { r with stage := .answered response } := if_neg h

/-- The errors of the handlers: the status tells what is due for them. -/
theorem Request.due_error {user : AuthenticatedUser} (huser : r.user = some user) {e : AppError}
    (he : e.status = 403 ∨ e.status = 500) :
    (r.respond (.error e)).Justified ∧ (r.respond (.error e)).due? = none := by
  have hne : (Response.error e).status ≠ 429 := by
    show e.status ≠ 429
    omega
  rw [Request.respond_of_ne hne]
  refine ⟨trivial, ?_⟩
  have hfound : e ≠ .notFound := by
    rintro rfl
    revert he
    decide
  simp [Request.due?, Request.due, huser, hfound]

/-- The handler of `/v1/totp/request`. -/
theorem Request.due_requestPin {user : AuthenticatedUser} {stage stage' : Routes.RequestPin}
    (hstage : r.stage = .handling (.requestPin user stage)) (huser : r.user = some user)
    (hmove : Routes.RequestPin.Move app user db input.toInput stage db' stage') :
    (r.requestPin user stage').Justified ∧ (r.requestPin user stage').due? = r.row? := by
  cases hmove with
  | unread hget =>
      obtain ⟨source, rfl⟩ := SecretStore.error_of_get hget
      simp only [Request.row?, hstage]
      exact Request.due_error huser (.inr rfl)
  | unusable hget hgen =>
      obtain ⟨source, rfl⟩ := Totp.error_of_generateAt hgen
      simp only [Request.row?, hstage]
      exact Request.due_error huser (.inr rfl)
  | untouched hstatement =>
      simp only [Request.row?, hstage]
      exact Request.due_error huser (.inr rfl)
  | missing | generated | touched =>
      simp only [Request.row?, hstage]
      exact ⟨trivial, rfl⟩
  | denied =>
      simp only [Request.row?, hstage]
      refine ⟨trivial, ?_⟩
      show r.due (.error .notFound) = _
      simp [Request.due, huser]
  | @issued generated =>
      simp only [Request.row?, hstage]
      refine ⟨trivial, ?_⟩
      show r.due (.pin ⟨generated.pin, generated.validForSeconds⟩) = _
      simp [Request.due, huser]

/-- The handler of `/v1/totp/provision`. -/
theorem Request.due_provision {admin : AuthenticatedUser} {payload : Routes.ProvisionRequest}
    {stage stage' : Routes.Provision} {hs : List Routes.Event} {id : Nat}
    (hstage : r.stage = .handling (.provision admin payload stage)) (huser : r.user = some admin)
    (hbody : r.body = .ok payload)
    (haccounted : Routes.Accounted app hs id (some (.provision admin payload stage)))
    (hmove : Routes.Provision.Move app admin payload db input.toInput stage db' stage') :
    (r.provision admin payload stage').Justified ∧
      (r.provision admin payload stage').due? = r.row? := by
  simp only [Request.row?, hstage]
  cases hmove with
  | refused hfails =>
      apply Request.due_error huser
      obtain ⟨hstatus, -⟩ | ⟨hstatus, -⟩ := hfails.status
      · exact .inl hstatus
      · exact .inr hstatus
  | prepared | committed => exact ⟨trivial, rfl⟩
  | rejected => exact Request.due_error huser (.inr rfl)
  | @recorded subject provisioned =>
      obtain ⟨-, hmints⟩ := haccounted
      refine ⟨trivial, ?_⟩
      show r.due (.provisioned ⟨provisioned.secretBase32, provisioned.otpauthUrl⟩) = _
      rw [Request.due, hbody, hmints.named]
      rfl

/-- **What a request inserts is what its answer asks for.** One step: it tries the insert that is
due for the answer it comes to, and none if it comes to no answer. -/
theorem Request.due_of_advance {handler : Option Routes.Handler} {hs : List Routes.Event} {id : Nat}
    (hbehind : r.Behind handler) (h : r.Justified)
    (haccounted : Routes.Accounted app hs id handler)
    (hadvance : r.advance app db input = some (db', r')) :
    r'.Justified ∧ r'.due? = r.row? := by
  unfold Request.Behind at hbehind
  unfold Request.Justified at h
  cases Request.move_of_advance hadvance with
  | readable hstage | accepted hstage | called hstage | calledProvision hstage
  | unreadableBody hstage =>
      simp only [Request.row?, hstage]
      exact ⟨trivial, rfl⟩
  | unreadable hstage | refused hstage =>
      simp only [Request.row?, hstage]
      exact ⟨rfl, rfl⟩
  | rejected hstage he =>
      simp only [Request.row?, hstage]
      exact ⟨he, rfl⟩
  | unavailable hstage =>
      simp only [hstage] at hbehind
      refine ⟨trivial, ?_⟩
      simp [Request.row?, hstage, Request.due?, Request.due, hbehind.2, isRejection]
  | denied hstage =>
      simp only [hstage] at hbehind h
      refine ⟨trivial, ?_⟩
      simp [Request.row?, hstage, Request.due?, Request.due, hbehind.2, h]
  | unkeyed hstage huser =>
      simp only [hstage] at hbehind
      exact absurd huser hbehind.2
  | requestPin hstage hmove =>
      simp only [hstage] at hbehind
      exact Request.due_requestPin hstage hbehind.2.2.2 hmove
  | provision hstage hmove =>
      simp only [hstage] at hbehind
      obtain ⟨rfl, -, hroute, huser, hbody⟩ := hbehind
      exact Request.due_provision hstage huser hbody haccounted hmove
  | audited hstage =>
      simp only [hstage] at h
      subst h
      refine ⟨trivial, ?_⟩
      simp [Request.row?, hstage, Request.due?, Request.due]

/-- An insert is the last thing that a request does. -/
theorem Request.advance_of_row? {row : Option String × RequestResult} (h : r.row? = some row)
    (app : Routes.AppState) (db : Database) (input : Input) :
    ∃ db' response, r.advance app db input =
      some (db', { r with stage := .answered response }) := by
  unfold Request.row? at h
  unfold Request.advance
  split at h
  · next hstage =>
      rw [hstage]
      exact ⟨_, _, rfl⟩
  · next hstage =>
      rw [hstage]
      exact ⟨_, _, rfl⟩
  · next hstage =>
      rw [hstage]
      exact ⟨_, .error .notFound, rfl⟩
  · next generated hstage =>
      rw [hstage]
      exact ⟨_, .pin ⟨generated.pin, generated.validForSeconds⟩, rfl⟩
  · next provisioned hstage =>
      rw [hstage]
      exact ⟨_, .provisioned ⟨provisioned.secretBase32, provisioned.otpauthUrl⟩, rfl⟩
  · cases h

/-- As long as its client is there, a request has tried what is due. -/
theorem Request.logged_of_due? {es : List Event} {id : Nat}
    {tried : List (Option String × RequestResult)} (h : tried = r.due?.toList) :
    r.Logged app es id tried := by
  unfold Request.due? at h
  unfold Request.Logged
  split at h
  · next hstage =>
      rw [hstage]
      exact h
  · next hopen =>
      split
      · next response hstage => exact absurd hstage (hopen response)
      · exact .inl h
      · exact h

end Request

/-! ## All requests

One request moves at a time. The others have tried what they had, and an answer that was not
delivered stays so. -/

section Run

variable {app : Routes.AppState} {es : List Event} {s : State}

theorem inserts_snoc (e : Event) (hrun : run (step app) State.init es = some s) :
    inserts app (es ++ [e]) = inserts app es ++ (insert? s e).toList :=
  observe_snoc e hrun

theorem insertsBy_snoc (e : Event) (hrun : run (step app) State.init es = some s) (id : Nat) :
    insertsBy app (es ++ [e]) id =
      insertsBy app es id ++ (insert? s e).toList.filter (·.id = id) := by
  rw [insertsBy, inserts_snoc e hrun, List.filter_append]
  rfl

theorem insert?_advance {id : Nat} {r : Request} (hold : s.requests id = some r) (input : Input) :
    insert? s (.advance id input) =
      r.row?.map fun row => ⟨id, row.1, row.2, input.statement.isOk⟩ := by
  rw [insert?, hold, Option.bind_some]

theorem insert?_abandon {id : Nat} {r : Request} (hold : s.requests id = some r) (input : Input) :
    insert? s (.abandon id input) =
      r.row?.map fun row => ⟨id, row.1, row.2, input.statement.isOk⟩ := by
  rw [insert?, hold, Option.bind_some]

/-- The rows are the inserts that succeeded. -/
theorem entries_of_row? (e : Event) :
    (row? s e).toList.map (entry ∘ Prod.snd) =
      ((insert? s e).toList.filter (·.succeeded)).map Insert.entry := by
  have hinput : ∀ (id : Nat) (input : Input),
      ((s.requests id).bind fun r => (r.written input).map (id, ·)).toList.map
        (entry ∘ Prod.snd) =
      (((s.requests id).bind fun r => r.row?.map fun row =>
        (⟨id, row.1, row.2, input.statement.isOk⟩ : Insert)).toList.filter (·.succeeded)).map
          Insert.entry := by
    intro id input
    cases s.requests id with
    | none => rfl
    | some r =>
        rw [Option.bind_some, Option.bind_some, Request.written]
        cases r.row? with
        | none => rfl
        | some row => cases input.statement <;> rfl
  cases e with
  | arrive | cancel => rfl
  | advance id input | abandon id input => exact hinput id input

theorem entries_of_rows (hrun : run (step app) State.init es = some s) :
    (rows app es).map (entry ∘ Prod.snd) =
      ((inserts app es).filter (·.succeeded)).map Insert.entry := by
  refine run_induction (P := fun es _ => (rows app es).map (entry ∘ Prod.snd) =
    ((inserts app es).filter (·.succeeded)).map Insert.entry) rfl ?_ hrun
  intro es s e s' hrun ih hstep
  rw [rows_snoc e hrun, inserts_snoc e hrun, List.map_append, ih, List.filter_append,
    List.map_append, entries_of_row?]

theorem Undelivered.append {id : Nat} {response : Response} (h : Undelivered app es id response)
    (e : Event) : Undelivered app (es ++ [e]) id response := by
  obtain ⟨before, input, after, t, r, db, r', rfl, hrest⟩ := h
  exact ⟨before, input, after ++ [e], t, r, db, r', by simp, hrest⟩

theorem Request.Logged.append {r : Request} {id : Nat}
    {tried : List (Option String × RequestResult)} (h : r.Logged app es id tried) (e : Event) :
    r.Logged app (es ++ [e]) id tried := by
  unfold Request.Logged at h ⊢
  split at h
  · exact h
  · obtain hnil | ⟨response, hlost, htried⟩ := h
    · exact .inl hnil
    · exact .inr ⟨response, hlost.append e, htried⟩
  · exact h

/-- What request `id` has tried to insert. -/
def triedBy (app : Routes.AppState) (es : List Event) (id : Nat) :
    List (Option String × RequestResult) :=
  (insertsBy app es id).map fun x => (x.subject, x.result)

/-- Every request has tried what its answer asks for, and stands where it may. -/
structure Tried (app : Routes.AppState) (es : List Event) (s : State) : Prop where
  justified : ∀ id r, s.requests id = some r → r.Justified
  nobody    : ∀ id, s.requests id = none → triedBy app es id = []
  logged    : ∀ id r, s.requests id = some r → r.Logged app es id (triedBy app es id)

theorem triedBy_snoc (e : Event) (hrun : run (step app) State.init es = some s) (id : Nat) :
    triedBy app (es ++ [e]) id = triedBy app es id ++
      ((insert? s e).toList.filter (·.id = id)).map fun x => (x.subject, x.result) := by
  rw [triedBy, insertsBy_snoc e hrun, List.map_append]
  rfl

/-- One request moves, and what it tries is its own. -/
theorem Tried.step (h : Tried app es s) (hrun : run (step app) State.init es = some s) {e : Event}
    {db : Database} {id : Nat} {r : Request} (hjustified : r.Justified)
    (hid : ∀ x, insert? s e = some x → x.id = id)
    (hlogged : r.Logged app (es ++ [e]) id
      (triedBy app es id ++ ((insert? s e).map fun x => (x.subject, x.result)).toList)) :
    Tried app (es ++ [e]) ({ s with db }.setRequest id r) := by
  have hmine : triedBy app (es ++ [e]) id =
      triedBy app es id ++ ((insert? s e).map fun x => (x.subject, x.result)).toList := by
    rw [triedBy_snoc e hrun]
    cases hinsert : insert? s e with
    | none => rfl
    | some x => simp [hid x hinsert]
  have hother : ∀ other, other ≠ id → triedBy app (es ++ [e]) other = triedBy app es other := by
    intro other hne
    rw [triedBy_snoc e hrun]
    cases hinsert : insert? s e with
    | none => simp
    | some x =>
        have hx : x.id ≠ other := fun heq => hne (heq.symm.trans (hid x hinsert))
        simp [hx]
  refine ⟨State.forall_setRequest h.justified hjustified, ?_, ?_⟩
  · intro other hnone
    rw [State.requests_setRequest] at hnone
    by_cases heq : other = id
    · rw [heq, Function.update_self] at hnone
      cases hnone
    · rw [Function.update_of_ne heq] at hnone
      rw [hother other heq]
      exact h.nobody other hnone
  · intro other r' hr'
    rw [State.requests_setRequest] at hr'
    by_cases heq : other = id
    · subst heq
      rw [Function.update_self, Option.some.injEq] at hr'
      rw [← hr', hmine]
      exact hlogged
    · rw [Function.update_of_ne heq] at hr'
      rw [hother other heq]
      exact (h.logged other r' hr').append e

/-- A request that is not over has tried nothing. -/
theorem Request.Logged.eq_nil {r : Request} {id : Nat}
    {tried : List (Option String × RequestResult)} (h : r.Logged app es id tried)
    (hopen : r.stage.over = false) : tried = [] := by
  unfold Request.Logged at h
  split at h
  · next hstage =>
      rw [hstage] at hopen
      cases hopen
  · next hstage =>
      rw [hstage] at hopen
      cases hopen
  · exact h

theorem Request.over_of_advance {r r' : Request} {db db' : Database} {input : Input}
    (hadvance : r.advance app db input = some (db', r')) : r.stage.over = false := by
  unfold Stage.over
  split
  · next hstage =>
      rw [advance_of_answered hstage] at hadvance
      cases hadvance
  · next hstage => simp [Request.advance, hstage] at hadvance
  · rfl

/-- A request that moves inserts what is due for the answer it comes to. -/
theorem Tried.due (h : Tried app es s) (hrun : run (Router.step app) State.init es = some s)
    {id : Nat} {r r' : Request} {db db' : Database} {input : Input} (hold : s.requests id = some r)
    (hadvance : r.advance app db input = some (db', r')) : r'.Justified ∧ r'.due? = r.row? := by
  -- the handler behind the request knows what `provision` has checked
  obtain ⟨t, ht, hrefines⟩ := refines_of_run hrun
  have hbehind := hrefines.behind id
  rw [hold] at hbehind
  have haccounted := Routes.accounted_of_run ht id
  exact Request.due_of_advance hbehind (h.justified id r hold) haccounted hadvance

theorem id_of_row {id : Nat} {r : Request} {succeeded : Bool} {x : Insert}
    (h : r.row?.map (fun row => (⟨id, row.1, row.2, succeeded⟩ : Insert)) = some x) :
    x.id = id := by
  obtain ⟨row, -, rfl⟩ := Option.map_eq_some_iff.mp h
  rfl

theorem tried_of_run (hrun : run (step app) State.init es = some s) : Tried app es s := by
  refine run_induction (P := fun es s => Tried app es s) ?_ ?_ hrun
  · refine ⟨?_, fun _ _ => rfl, ?_⟩ <;>
      intro id r hold <;> cases hold
  · intro es s e s' hrun ih hstep
    cases e with
    | arrive new route time authorization body =>
        cases moves_of_step hstep with
        | arrive hnew =>
            refine ih.step hrun trivial (by simp [insert?]) ?_
            rw [ih.nobody new hnew]
            rfl
    | cancel gone =>
        cases moves_of_step hstep with
        | cancel hold hopen =>
            refine ih.step hrun trivial (by simp [insert?]) ?_
            rw [(ih.logged gone _ hold).eq_nil hopen]
            exact .inl rfl
    | advance mover input =>
        cases moves_of_step hstep with
        | advance hold hadvance =>
            obtain ⟨hjustified, hdue⟩ := ih.due hrun hold hadvance
            refine ih.step hrun hjustified ?_ ?_
            · rw [insert?_advance hold]
              exact fun _ => id_of_row
            · rw [(ih.logged mover _ hold).eq_nil (Request.over_of_advance hadvance),
                insert?_advance hold, Option.map_map]
              apply Request.logged_of_due?
              rw [hdue]
              exact congrArg Option.toList Option.map_id'
    | abandon gone input =>
        cases moves_of_step hstep with
        | @abandon _ _ r subject result db hold hrow =>
            obtain ⟨db', response, hadvance⟩ := Request.advance_of_row? hrow app s.db input
            obtain ⟨-, hdue⟩ := ih.due hrun hold hadvance
            have hdue' : r.due response = r.row? := hdue
            refine ih.step hrun trivial ?_ ?_
            · rw [insert?_abandon hold]
              exact fun _ => id_of_row
            · rw [(ih.logged gone r hold).eq_nil (Request.over_of_advance hadvance),
                insert?_abandon hold, Option.map_map]
              have hlost : Undelivered app (es ++ [.abandon gone input]) gone response :=
                ⟨es, input, [], s, r, db', _, rfl, hrun, hold, hadvance, rfl⟩
              refine .inr ⟨response, hlost, ?_⟩
              show _ = (r.due response).toList
              rw [hdue']
              exact congrArg Option.toList Option.map_id'

/-! ## Upserts

The row `provisioned` is inserted by a request at `recording`, and its handler has been accounted
for by then. -/

theorem Request.recording_of_row? {r : Request} {subject : Option String}
    (h : r.row? = some (subject, .provisioned)) :
    ∃ admin payload name provisioned, subject = some name ∧
      r.stage = .handling (.provision admin payload (.recording name provisioned)) := by
  unfold Request.row? at h
  split at h <;> cases h
  next hstage => exact ⟨_, _, _, _, rfl, hstage⟩

/-- An upsert that is put on record has committed. -/
theorem commit_of_insert (hrun : run (step app) State.init es = some s) {x : Insert}
    (hx : x ∈ inserts app es) (hresult : x.result = .provisioned) :
    ∃ c ∈ Routes.commits app (handlerEvents app es), c.handler = x.id ∧
      x.subject = some c.subject := by
  obtain ⟨before, e, after, t, rfl, ht, hinsert⟩ := mem_observe hrun hx
  have hpending : ∃ id r succeeded, t.requests id = some r ∧
      r.row?.map (fun row => (⟨id, row.1, row.2, succeeded⟩ : Insert)) = some x := by
    cases e with
    | arrive | cancel => cases hinsert
    | advance id input | abandon id input =>
        obtain ⟨r, hold, hmap⟩ := Option.bind_eq_some_iff.mp hinsert
        exact ⟨id, r, _, hold, hmap⟩
  obtain ⟨id, r, succeeded, hold, hmap⟩ := hpending
  obtain ⟨⟨subject, result⟩, hrow, rfl⟩ := Option.map_eq_some_iff.mp hmap
  cases hresult
  obtain ⟨admin, payload, name, provisioned, rfl, hstage⟩ := Request.recording_of_row? hrow
  -- its handler has been accounted for
  obtain ⟨u, hu, hrefines⟩ := refines_of_run ht
  have hbehind := hrefines.behind id
  simp only [hold, Behind, Request.Behind, hstage] at hbehind
  have haccounted := Routes.accounted_of_run hu id
  rw [hbehind.1] at haccounted
  have hmem : (⟨id, admin, payload, name, provisioned.raw⟩ : Routes.Commit) ∈
      Routes.commitsBy (Routes.commits app (handlerEvents app before)) id := by
    rw [haccounted.1]
    exact List.mem_singleton_self _
  refine ⟨⟨id, admin, payload, name, provisioned.raw⟩, ?_, rfl, rfl⟩
  have hevents : handlerEvents app (before ++ e :: after) =
      handlerEvents app before ++ observe (step app) handlerEvent t (e :: after) :=
    observe_append ht
  rw [hevents, Routes.commits, observe_append hu]
  exact List.mem_append_left _ (List.mem_filter.mp hmem).1

/-- **The log never lies.** In every run, with any failing insert and any client that goes away at
any await, also while its request is put on record:

* the rows of `request_log` are, in this order, the inserts that were tried and did not fail;
* a request tries one insert at most, the one that is due for its answer. A PIN is on record for its
  own user, a refusal of the limiter as well, a rejected token for nobody. A request that is
  cancelled is not on record, unless its answer was on the way: then what is due for that answer is;
* an upsert is put on record only if it has committed, for the same subject. -/
theorem log_never_lies (hrun : run (step app) State.init es = some s) :
    s.db.requestLog.map entry = ((inserts app es).filter (·.succeeded)).map Insert.entry ∧
    (∀ id, s.requests id = none → triedBy app es id = []) ∧
    (∀ id r, s.requests id = some r → r.Logged app es id (triedBy app es id)) ∧
    (∀ x ∈ inserts app es, x.result = .provisioned →
      ∃ c ∈ Routes.commits app (handlerEvents app es), c.handler = x.id ∧
        x.subject = some c.subject) := by
  have htried := tried_of_run hrun
  refine ⟨?_, htried.nobody, htried.logged, fun x => commit_of_insert hrun⟩
  rw [requestLog_eq hrun, List.map_map]
  exact entries_of_rows hrun

end Run

/-- A secret is provisioned for Alice, who gets a PIN although it cannot be put on record, and goes
away while another one is; somebody comes without a token. -/
def aBadHour : List Event :=
  [Event.arrive 0 .provision 0 bearerAbc (.ok ⟨" alice "⟩)] ++
  List.replicate 6 (Event.advance 0 (uneventful Routes.demoAdmin true)) ++
  [Event.arrive 1 .request 0 bearerAbc (.error .unknownBody)] ++
  List.replicate 5 (Event.advance 1 (uneventful Routes.alice true)) ++
  [Event.advance 1 { uneventful Routes.alice true with statement := .error "pool timed out" },
    .arrive 2 .request 0 bearerAbc (.error .unknownBody)] ++
  List.replicate 5 (Event.advance 2 (uneventful Routes.alice true)) ++
  [Event.abandon 2 (uneventful Routes.alice true),
    .arrive 3 .request 0 none (.error .unknownBody)] ++
  List.replicate 2 (Event.advance 3 (uneventful Routes.alice true))

/-- The PIN that Alice has received is not in the log, but its insert was tried; the one that she
has not received is. -/
theorem log_never_lies_aBadHour :
    ∃ s, run (step Routes.demoApp) State.init aBadHour = some s ∧
      s.db.requestLog.map entry = [(some "alice", "provisioned"), (some "alice", "issued"),
        (none, "denied_inactive_token")] ∧
      triedBy Routes.demoApp aBadHour 1 = [(some "alice", .issued)] ∧
      ∃ r response, s.requests 2 = some r ∧ Undelivered Routes.demoApp aBadHour 2 response ∧
        (r.due response).toList = [(some "alice", .issued)] := by
  have hlog : (run (step Routes.demoApp) State.init aBadHour).map
      (fun s => (s.db.requestLog.map entry, (s.requests 2).map fun r =>
        (r.stage.over, r.due?.isNone))) =
        some ([(some "alice", "provisioned"), (some "alice", "issued"),
          (none, "denied_inactive_token")], some (true, true)) := by
    decide +kernel
  have htried : triedBy Routes.demoApp aBadHour 1 = [(some "alice", .issued)] ∧
      triedBy Routes.demoApp aBadHour 2 = [(some "alice", .issued)] := by
    decide +kernel
  obtain ⟨s, hrun, hentries⟩ := Option.map_eq_some_iff.mp hlog
  obtain ⟨hrows, htwo⟩ := Prod.mk.inj hentries
  obtain ⟨r, hold, hends⟩ := Option.map_eq_some_iff.mp htwo
  obtain ⟨hover, hdue⟩ := Prod.mk.inj hends
  obtain ⟨-, -, hlogged, -⟩ := log_never_lies hrun
  have hr := hlogged 2 r hold
  rw [htried.2] at hr
  refine ⟨s, hrun, hrows, htried.1, r, ?_⟩
  unfold Request.Logged at hr
  rw [Option.isNone_iff_eq_none, Request.due?] at hdue
  cases hstage : r.stage with
  | dropped =>
      rw [hstage] at hr
      obtain hnil | ⟨response, hlost, hsame⟩ := hr
      · cases hnil
      · exact ⟨response, hold, hlost, hsame.symm⟩
  | answered response =>
      rw [hstage] at hr hdue
      simp only at hr hdue
      rw [hdue] at hr
      cases hr
  | _ =>
      rw [hstage] at hover
      cases hover

end Urheilulaatikko.Server.Router
