import Urheilulaatikko.Server.Router

/-!
# The audit trail

Rows of `request_log` come from four places: the two middlewares and the two handlers.
`Request.row?` says which row a request is about to insert, wherever it stands; the rows, the
answers and the committed upserts of a run are then what an observer of its steps sees.

Everything is for runs in which no request is cancelled and no insert into `request_log` fails
(`Clean`): an insert that fails is only logged.

* `Request.Accounted` — what a request has written so far; kept by every step of every request.
* `Outstanding` — the upserts that have committed but are not on record yet.
* `audit_trail_matches` — the trail of every such run.
-/

namespace Urheilulaatikko.Server.Router

open Auth RateLimit Trace

/-! ## What a run shows

Three observers look at the same run: at the rows that are inserted, at the answers that are given
and at the upserts that commit. The trail is about what they see. -/

/-- The row that a step of a request appends. -/
def Request.written (r : Request) (input : Input) : Option LogRow :=
  match r.row?, input.statement with
  | some (subject, result), .ok () => some ⟨input.logId, subject, input.dbNow, result.asStr⟩
  | _, _ => none

/-- No cancellation, and no insert into `request_log` that fails. -/
def Clean (s : State) : Event → Prop
  | .arrive _ _ _ _ _ => True
  | .advance id input =>
      ∀ r, s.requests id = some r → r.row? ≠ none → input.statement = .ok ()
  | .cancel _ | .abandon _ _ => False

/-- The row that an event appends, with the request that inserts it. -/
def row? (s : State) : Event → Option (Nat × LogRow)
  | .advance id input | .abandon id input =>
      (s.requests id).bind fun r => (r.written input).map (id, ·)
  | _ => none

structure Answer where
  id       : Nat
  route    : ProtectedRoute
  user     : Option AuthenticatedUser
  response : Response

def Request.answer? (r : Request) (id : Nat) : Option Answer :=
  match r.stage with
  | .answered response => some ⟨id, r.route, r.user, response⟩
  | _ => none

/-- The answer that an event gives. -/
def answer? (app : Routes.AppState) (s : State) : Event → Option Answer
  | .advance id input =>
      (s.requests id).bind fun r =>
        (r.advance app s.db input).bind fun result => result.2.answer? id
  | _ => none

/-- The upsert that a step of a request commits, by its subject. -/
def Request.upserted (r : Request) (input : Input) : Option String :=
  match r.stage, input.statement with
  | .handling (.provision _ _ (.upserting subject _ _ _)), .ok () => some subject
  | _, _ => none

/-- The upsert that an event commits, with the request that makes it. -/
def upsert? (s : State) : Event → Option (Nat × String)
  | .advance id input => (s.requests id).bind fun r => (r.upserted input).map (id, ·)
  | _ => none

section Runs

variable (app : Routes.AppState)

def rows (es : List Event) : List (Nat × LogRow) := observe (step app) row? State.init es

def answers (es : List Event) : List Answer := observe (step app) (answer? app) State.init es

def upserts (es : List Event) : List (Nat × String) := observe (step app) upsert? State.init es

/-- The rows of one request. -/
def rowsBy (es : List Event) (id : Nat) : List LogRow :=
  ((rows app es).filter (·.1 = id)).map Prod.snd

end Runs

variable {app : Routes.AppState}

/-! ## What a step writes

`request_log` grows by one row or by none, and by the one that `Request.row?` names. -/

theorem requestLog_logRequest (db : Database) (statement : StatementResult)
    (subject : Option String) (result : RequestResult) (id now : Nat) :
    (SecretStore.logRequest db statement subject result id now).requestLog =
      db.requestLog ++ match statement with
        | .ok ()   => [⟨id, subject, now, result.asStr⟩]
        | .error _ => [] := by
  cases statement <;> simp [SecretStore.logRequest]

/-- The table grows by the row that the request is about to insert, and by nothing else. -/
theorem Request.requestLog_advance {db db' : Database} {input : Input} {r r' : Request}
    (h : r.advance app db input = some (db', r')) :
    db'.requestLog = db.requestLog ++ (r.written input).toList := by
  cases Request.move_of_advance h with
  | requestPin hstage hmove =>
      cases hmove <;>
        simp [Request.written, Request.row?, hstage, requestLog_logRequest, SecretStore.touchRow]
      all_goals cases input.statement <;> rfl
  | provision hstage hmove =>
      cases hmove <;>
        simp [Request.written, Request.row?, hstage, requestLog_logRequest, SecretStore.upsertRow]
      all_goals cases input.statement <;> rfl
  | denied hstage =>
      simp only [Request.written, Request.row?, hstage, requestLog_logRequest]
      cases input.statement <;> rfl
  | audited hstage =>
      simp only [Request.written, Request.row?, hstage, requestLog_logRequest]
      cases input.statement <;> rfl
  | _ => simp [Request.written, Request.row?, *]

theorem row?_advance {s : State} {id : Nat} {r : Request} (hold : s.requests id = some r)
    (input : Input) : row? s (.advance id input) = (r.written input).map (id, ·) := by
  rw [row?, hold, Option.bind_some]

theorem row?_abandon {s : State} {id : Nat} {r : Request} (hold : s.requests id = some r)
    (input : Input) : row? s (.abandon id input) = (r.written input).map (id, ·) := by
  rw [row?, hold, Option.bind_some]

theorem map_snd_row?_advance {s : State} {id : Nat} {r : Request}
    (hold : s.requests id = some r) (input : Input) :
    (row? s (.advance id input)).toList.map Prod.snd = (r.written input).toList := by
  rw [row?_advance hold]
  cases r.written input <;> rfl

theorem Request.written_of_none {r : Request} (h : r.row? = none) (input : Input) :
    r.written input = none := by
  simp [Request.written, h]

theorem Request.written_of_clean {r : Request} {input : Input} {subject : Option String}
    {result : RequestResult} (h : r.row? = some (subject, result))
    (hclean : r.row? ≠ none → input.statement = .ok ()) :
    r.written input = some ⟨input.logId, subject, input.dbNow, result.asStr⟩ := by
  have hstatement := hclean (by simp [h])
  simp [Request.written, h, hstatement]

/-! ## One request

The account of a single request: nothing is written before its answer is known, and then what
belongs on record about that answer. There is one lemma for each handler, and one for the layers
around them. -/

/-- What a row says, without its number and its time. -/
def entry (row : LogRow) : Option String × String := (row.subject, row.result)

/-- What belongs on record about an answer of `/v1/totp/request` with a status. -/
inductive OnRecord (user : Option AuthenticatedUser) : Nat → List (Option String × String) → Prop
  | issued {u : AuthenticatedUser} (huser : user = some u) :
      OnRecord user 200 [(some u.subject, "issued")]
  | deniedNoSecret {u : AuthenticatedUser} (huser : user = some u) :
      OnRecord user 404 [(some u.subject, "denied_no_secret")]
  | rateLimited {u : AuthenticatedUser} (huser : user = some u) :
      OnRecord user 429 [(some u.subject, "rate_limited")]
  | unauthorized : OnRecord user 401 [(none, "denied_inactive_token")]
  | forbidden : OnRecord user 403 [(none, "denied_inactive_token")]
  | internal : OnRecord user 500 []
  | unavailable : OnRecord user 503 []

/-- A request that has written `written` so far: nothing until it is answered, and then what belongs
on record; no PIN is on record because of `/v1/totp/provision`. -/
def Request.Accounted (r : Request) (written : List LogRow) : Prop :=
  match r.stage with
  | .denying e => written = [] ∧ isRejection e = true
  | .limiting => written = [] ∧ r.user ≠ none
  | .handling (.requestPin user _) => written = [] ∧ r.route = .request ∧ r.user = some user
  | .handling (.provision _ _ _) => written = [] ∧ r.route = .provision
  | .auditing response =>
      written = [] ∧ (r.route = .request → response = .tooManyRequests ∧ r.user ≠ none)
  | .answered response =>
      (r.route = .request → OnRecord r.user response.status (written.map entry)) ∧
        (r.route = .provision → ∀ row ∈ written, row.result ≠ "issued")
  | _ => written = []

section Request

variable {db db' : Database} {input : Input} {r r' : Request} {written : List LogRow}

/-- A step that inserts nothing. -/
theorem Request.Accounted.of_row?_eq_none (hrow : r.row? = none) (h : r'.Accounted written) :
    r'.Accounted (written ++ (r.written input).toList) := by
  rw [Request.written_of_none hrow, Option.toList_none, List.append_nil]
  exact h

theorem ne_issued_of_written {result : RequestResult} (h : result ≠ .issued) {id now : Nat}
    {subject : Option String} :
    ∀ row ∈ [] ++ (some (LogRow.mk id subject now result.asStr)).toList, row.result ≠ "issued" := by
  intro row hmem
  rw [List.nil_append, Option.toList_some, List.mem_singleton] at hmem
  rw [hmem]
  intro heq
  exact h (RequestResult.asStr_inj.mp heq)

theorem Request.accounted_respond_internal (r : Request) (source : String) :
    (r.respond (.error (.internal source))).Accounted [] :=
  ⟨fun _ => .internal, fun _ => by simp⟩

/-- The handler of `/v1/totp/request`. -/
theorem Request.Accounted.requestPin {user : AuthenticatedUser} {stage stage' : Routes.RequestPin}
    (h : r.Accounted written) (hstage : r.stage = .handling (.requestPin user stage))
    (hclean : r.row? ≠ none → input.statement = .ok ())
    (hmove : Routes.RequestPin.Move app user db input.toInput stage db' stage') :
    (r.requestPin user stage').Accounted (written ++ (r.written input).toList) := by
  simp only [Request.Accounted, hstage] at h
  obtain ⟨rfl, hroute, huser⟩ := h
  have hother : r.route ≠ .provision := by simp [hroute]
  cases hmove with
  | unread hget =>
      obtain ⟨source, rfl⟩ := SecretStore.error_of_get hget
      apply Request.Accounted.of_row?_eq_none (by simp [Request.row?, hstage])
      exact r.accounted_respond_internal source
  | missing hget =>
      apply Request.Accounted.of_row?_eq_none (by simp [Request.row?, hstage])
      exact ⟨rfl, hroute, huser⟩
  | unusable hget hgen =>
      obtain ⟨source, rfl⟩ := Totp.error_of_generateAt hgen
      apply Request.Accounted.of_row?_eq_none (by simp [Request.row?, hstage])
      exact r.accounted_respond_internal source
  | generated hget hgen =>
      apply Request.Accounted.of_row?_eq_none (by simp [Request.row?, hstage])
      exact ⟨rfl, hroute, huser⟩
  | denied =>
      have hrow : r.row? = some (some user.subject, .deniedNoSecret) := by
        simp [Request.row?, hstage]
      rw [Request.written_of_clean hrow hclean]
      exact ⟨fun _ => .deniedNoSecret huser, fun hprovision => absurd hprovision hother⟩
  | untouched hstatement =>
      apply Request.Accounted.of_row?_eq_none (by simp [Request.row?, hstage])
      exact r.accounted_respond_internal _
  | touched hstatement =>
      apply Request.Accounted.of_row?_eq_none (by simp [Request.row?, hstage])
      exact ⟨rfl, hroute, huser⟩
  | issued =>
      have hrow : r.row? = some (some user.subject, .issued) := by
        simp [Request.row?, hstage]
      rw [Request.written_of_clean hrow hclean]
      exact ⟨fun _ => .issued huser, fun hprovision => absurd hprovision hother⟩

theorem Request.accounted_respond (hother : r.route ≠ .request) (response : Response) :
    (r.respond response).Accounted [] := by
  unfold Request.respond
  split
  · exact ⟨rfl, fun hrequest => absurd hrequest hother⟩
  · exact ⟨fun hrequest => absurd hrequest hother, fun _ => by simp⟩

/-- The handler of `/v1/totp/provision`. -/
theorem Request.Accounted.provision {admin : AuthenticatedUser} {payload : Routes.ProvisionRequest}
    {stage stage' : Routes.Provision} (h : r.Accounted written)
    (hstage : r.stage = .handling (.provision admin payload stage))
    (hclean : r.row? ≠ none → input.statement = .ok ())
    (hmove : Routes.Provision.Move app admin payload db input.toInput stage db' stage') :
    (r.provision admin payload stage').Accounted (written ++ (r.written input).toList) := by
  simp only [Request.Accounted, hstage] at h
  obtain ⟨rfl, hroute⟩ := h
  have hother : r.route ≠ .request := by simp [hroute]
  cases hmove with
  | refused =>
      apply Request.Accounted.of_row?_eq_none (by simp [Request.row?, hstage])
      exact Request.accounted_respond hother _
  | prepared hmints hencrypt =>
      apply Request.Accounted.of_row?_eq_none (by simp [Request.row?, hstage])
      exact ⟨rfl, hroute⟩
  | rejected hstatement =>
      apply Request.Accounted.of_row?_eq_none (by simp [Request.row?, hstage])
      exact Request.accounted_respond hother _
  | committed hstatement =>
      apply Request.Accounted.of_row?_eq_none (by simp [Request.row?, hstage])
      exact ⟨rfl, hroute⟩
  | @recorded subject provisioned =>
      have hrow : r.row? = some (some subject, .provisioned) := by simp [Request.row?, hstage]
      rw [Request.written_of_clean hrow hclean]
      exact ⟨fun hrequest => absurd hrequest hother, fun _ => ne_issued_of_written (by decide)⟩

/-- Every step of a request keeps its account. -/
theorem Request.Accounted.advance (h : r.Accounted written)
    (hclean : r.row? ≠ none → input.statement = .ok ())
    (hadvance : r.advance app db input = some (db', r')) :
    r'.Accounted (written ++ (r.written input).toList) := by
  cases Request.move_of_advance hadvance with
  | unreadable hstage =>
      simp only [Request.Accounted, hstage] at h
      apply Request.Accounted.of_row?_eq_none (by simp [Request.row?, hstage])
      exact ⟨h, rfl⟩
  | readable hstage =>
      simp only [Request.Accounted, hstage] at h
      apply Request.Accounted.of_row?_eq_none (by simp [Request.row?, hstage])
      exact h
  | accepted hstage =>
      simp only [Request.Accounted, hstage] at h
      apply Request.Accounted.of_row?_eq_none (by simp [Request.row?, hstage])
      exact ⟨h, by simp⟩
  | rejected hstage he =>
      simp only [Request.Accounted, hstage] at h
      apply Request.Accounted.of_row?_eq_none (by simp [Request.row?, hstage])
      exact ⟨h, he⟩
  | unavailable hstage =>
      simp only [Request.Accounted, hstage] at h
      apply Request.Accounted.of_row?_eq_none (by simp [Request.row?, hstage])
      rw [h]
      exact ⟨fun _ => .unavailable, fun _ => by simp⟩
  | @denied e hstage =>
      simp only [Request.Accounted, hstage] at h
      have hrow : r.row? = some (none, .deniedInactiveToken) := by simp [Request.row?, hstage]
      rw [Request.written_of_clean hrow hclean, h.1]
      refine ⟨fun _ => ?_, fun _ => ne_issued_of_written (by decide)⟩
      cases e with
      | unauthorized => exact .unauthorized
      | forbidden => exact .forbidden
      | _ => exact absurd h.2 (by simp [isRejection])
  | unkeyed hstage huser =>
      simp only [Request.Accounted, hstage] at h
      exact absurd huser h.2
  | refused hstage huser =>
      simp only [Request.Accounted, hstage] at h
      apply Request.Accounted.of_row?_eq_none (by simp [Request.row?, hstage])
      exact ⟨h.1, fun _ => ⟨rfl, h.2⟩⟩
  | called hstage huser hroute =>
      simp only [Request.Accounted, hstage] at h
      apply Request.Accounted.of_row?_eq_none (by simp [Request.row?, hstage])
      exact ⟨h.1, hroute, huser⟩
  | calledProvision hstage hroute =>
      simp only [Request.Accounted, hstage] at h
      apply Request.Accounted.of_row?_eq_none (by simp [Request.row?, hstage])
      exact ⟨h.1, hroute⟩
  | unreadableBody hstage hroute =>
      simp only [Request.Accounted, hstage] at h
      apply Request.Accounted.of_row?_eq_none (by simp [Request.row?, hstage])
      rw [h.1]
      refine ⟨fun hrequest => ?_, fun _ => by simp⟩
      exact absurd (hrequest.symm.trans hroute) (by decide)
  | requestPin hstage hmove => exact h.requestPin hstage hclean hmove
  | provision hstage hmove => exact h.provision hstage hclean hmove
  | audited hstage =>
      simp only [Request.Accounted, hstage] at h
      have hrow : r.row? = some (r.user.map (·.subject), .rateLimited) := by
        simp [Request.row?, hstage]
      rw [Request.written_of_clean hrow hclean, h.1]
      refine ⟨fun hroute => ?_, fun _ => ne_issued_of_written (by decide)⟩
      obtain ⟨rfl, huser⟩ := h.2 hroute
      obtain ⟨user, huser⟩ := Option.ne_none_iff_exists'.mp huser
      show OnRecord r.user 429 [(r.user.map (·.subject), "rate_limited")]
      rw [huser]
      exact .rateLimited rfl

end Request

/-! ## All requests

The accounts of all requests side by side, over a whole clean run. A request that is answered stays
as it is, so what is on record about it stays true, and the PINs on record are counted request by
request. -/

/-- The rows of a kind about a subject. -/
def ofKind (result : RequestResult) (subject : String) (row : LogRow) : Bool :=
  entry row == (some subject, result.asStr)

/-- The answers that give a PIN to a subject. -/
def grants (subject : String) (a : Answer) : Bool :=
  a.route = .request ∧ a.response.status = 200 ∧ a.user.map (·.subject) = some subject

theorem countP_ofKind (result : RequestResult) (subject : String) (written : List LogRow) :
    written.countP (ofKind result subject) =
      (written.map entry).count (some subject, result.asStr) := by
  rw [List.count, List.countP_map]
  rfl

theorem OnRecord.count_issued {user : Option AuthenticatedUser} {status : Nat}
    {entries : List (Option String × String)} (h : OnRecord user status entries)
    (subject : String) :
    entries.count (some subject, "issued") =
      if status = 200 ∧ user.map (·.subject) = some subject then 1 else 0 := by
  cases h with
  | issued huser => simp [huser, List.count_singleton]
  | _ => simp

/-- Nothing has been written before the answer. -/
theorem Request.Accounted.eq_nil {r : Request} {written : List LogRow} (h : r.Accounted written)
    (hstage : ∀ response, r.stage ≠ .answered response) : written = [] := by
  unfold Request.Accounted at h
  split at h
  case h_6 response hanswered => exact absurd hanswered (hstage response)
  all_goals first | exact h | exact h.1

/-- A request has put a PIN on record iff it has been answered with one. -/
theorem Request.Accounted.count_issued {r : Request} {written : List LogRow}
    (h : r.Accounted written) (id : Nat) (subject : String) :
    written.countP (ofKind .issued subject) = (r.answer? id).toList.countP (grants subject) := by
  cases hstage : r.stage with
  | answered response =>
      simp only [Request.Accounted, hstage] at h
      cases hroute : r.route with
      | request =>
          rw [countP_ofKind]
          simp only [RequestResult.asStr, (h.1 hroute).count_issued subject]
          simp [Request.answer?, hstage, grants, hroute, List.countP_singleton]
      | provision =>
          have hnone : written.countP (ofKind .issued subject) = 0 := by
            rw [List.countP_eq_zero]
            intro row hrow
            have hresult := h.2 hroute row hrow
            simp [ofKind, entry, RequestResult.asStr, hresult]
          rw [hnone]
          simp [Request.answer?, hstage, grants, hroute]
  | _ =>
      have hnil := h.eq_nil (by simp [hstage])
      simp [hnil, Request.answer?, hstage]

section Observe

variable {es : List Event} {s : State}

theorem rows_snoc (e : Event) (hrun : run (step app) State.init es = some s) :
    rows app (es ++ [e]) = rows app es ++ (row? s e).toList :=
  observe_snoc e hrun

theorem answers_snoc (e : Event) (hrun : run (step app) State.init es = some s) :
    answers app (es ++ [e]) = answers app es ++ (answer? app s e).toList :=
  observe_snoc e hrun

theorem upserts_snoc (e : Event) (hrun : run (step app) State.init es = some s) :
    upserts app (es ++ [e]) = upserts app es ++ (upsert? s e).toList :=
  observe_snoc e hrun

theorem rowsBy_snoc (e : Event) (hrun : run (step app) State.init es = some s) (id : Nat) :
    rowsBy app (es ++ [e]) id =
      rowsBy app es id ++ (((row? s e).toList.filter (·.1 = id)).map Prod.snd) := by
  rw [rowsBy, rows_snoc e hrun, List.filter_append, List.map_append]
  rfl

/-- Every row in the table was written by some request. -/
theorem requestLog_eq (hrun : run (step app) State.init es = some s) :
    s.db.requestLog = (rows app es).map Prod.snd := by
  refine run_induction (P := fun es s => s.db.requestLog = (rows app es).map Prod.snd) rfl ?_ hrun
  intro es s e s' hrun ih hstep
  rw [rows_snoc e hrun, List.map_append, ← ih]
  cases moves_of_step hstep with
  | arrive hnew => simp [row?]
  | @advance id input r r' db hold hadvance =>
      show db.requestLog = _
      rw [Request.requestLog_advance hadvance, map_snd_row?_advance hold]
  | cancel hold => simp [row?]
  | @abandon id input r subject result db hold hrow hdb =>
      show db.requestLog = _
      rw [hdb, requestLog_logRequest, row?_abandon hold, Request.written, hrow]
      cases input.statement <;> rfl

/-- What every request has written so far. -/
def Accounted (written : Nat → List LogRow) (s : State) : Prop :=
  ∀ id, match s.requests id with
    | none   => written id = []
    | some r => r.Accounted (written id)

theorem accounted_of_run (hclean : AllSteps (step app) Clean State.init es)
    (hrun : run (step app) State.init es = some s) : Accounted (rowsBy app es) s := by
  refine run_induction_of (P := fun es s => Accounted (rowsBy app es) s) ?_ ?_ hclean hrun
  · intro id
    rfl
  · intro es s e s' hrun ih hclean hstep id
    have hid := ih id
    rw [rowsBy_snoc e hrun]
    cases moves_of_step hstep with
    | @arrive new route time authorization body hnew =>
        have hnone : row? s (.arrive new route time authorization body) = none := rfl
        rw [hnone, Option.toList_none, List.filter_nil, List.map_nil, List.append_nil,
          State.requests_setRequest]
        by_cases heq : id = new
        · subst heq
          rw [hnew] at hid
          rw [Function.update_self]
          exact hid
        · rwa [Function.update_of_ne heq]
    | @advance mover input r r' db hold hadvance =>
        rw [State.requests_setRequest]
        by_cases heq : id = mover
        · subst heq
          rw [hold] at hid
          rw [Function.update_self]
          have hrows : ((row? s (.advance id input)).toList.filter (·.1 = id)).map Prod.snd =
              (r.written input).toList := by
            rw [row?_advance hold]
            cases r.written input <;> simp
          rw [hrows]
          exact hid.advance (hclean r hold) hadvance
        · have hrows : ((row? s (.advance mover input)).toList.filter (·.1 = id)).map Prod.snd =
              [] := by
            rw [row?_advance hold]
            cases r.written input <;> simp [Ne.symm heq]
          rw [Function.update_of_ne heq, hrows, List.append_nil]
          exact hid
    | cancel hold => exact absurd hclean (by simp [Clean])
    | abandon hold => exact absurd hclean (by simp [Clean])

/-- An answer is the last thing that happens to a request. -/
theorem advance_of_answered {db : Database} {input : Input} {r : Request} {response : Response}
    (h : r.stage = .answered response) : r.advance app db input = none := by
  simp [Request.advance, h]

theorem Request.answer?_eq_some {r : Request} {id : Nat} {a : Answer} (h : r.answer? id = some a) :
    a.id = id ∧ a.route = r.route ∧ a.user = r.user ∧ r.stage = .answered a.response := by
  unfold Request.answer? at h
  split at h
  · next hstage =>
      cases h
      exact ⟨rfl, rfl, rfl, hstage⟩
  · cases h

/-- A request stays as it was answered. -/
theorem request_of_answer (hclean : AllSteps (step app) Clean State.init es)
    (hrun : run (step app) State.init es = some s) :
    ∀ a ∈ answers app es, ∃ r, s.requests a.id = some r ∧ r.route = a.route ∧ r.user = a.user ∧
      r.stage = .answered a.response := by
  refine run_induction_of (P := fun es s => ∀ a ∈ answers app es, ∃ r, s.requests a.id = some r ∧
    r.route = a.route ∧ r.user = a.user ∧ r.stage = .answered a.response) ?_ ?_ hclean hrun
  · intro a ha
    cases ha
  · intro es s e s' hrun ih hclean hstep a ha
    rw [answers_snoc e hrun, List.mem_append] at ha
    cases moves_of_step hstep with
    | @arrive new route time authorization body hnew =>
        rcases ha with ha | ha
        · obtain ⟨r, hold, hr⟩ := ih a ha
          have hne : a.id ≠ new := by
            intro heq
            rw [heq, hnew] at hold
            cases hold
          exact ⟨r, by rwa [State.requests_setRequest, Function.update_of_ne hne], hr⟩
        · simp [answer?] at ha
    | @advance mover input r r' db hold hadvance =>
        rcases ha with ha | ha
        · obtain ⟨r₀, hold₀, hr⟩ := ih a ha
          have hne : a.id ≠ mover := by
            intro heq
            rw [heq, hold, Option.some.injEq] at hold₀
            rw [hold₀, advance_of_answered hr.2.2] at hadvance
            cases hadvance
          exact ⟨r₀, by rwa [State.requests_setRequest, Function.update_of_ne hne], hr⟩
        · have hanswer : r'.answer? mover = some a := by
            simpa [answer?, hold, hadvance] using ha
          obtain ⟨hid, hroute, huser, hstage⟩ := Request.answer?_eq_some hanswer
          refine ⟨r', ?_, hroute.symm, huser.symm, hstage⟩
          rw [hid, State.requests_setRequest, Function.update_self]
    | cancel hold => exact absurd hclean (by simp [Clean])
    | abandon hold => exact absurd hclean (by simp [Clean])

/-- What is on record about every answer of `/v1/totp/request`. -/
theorem onRecord_of_answer (hclean : AllSteps (step app) Clean State.init es)
    (hrun : run (step app) State.init es = some s) {a : Answer} (ha : a ∈ answers app es)
    (hroute : a.route = .request) :
    OnRecord a.user a.response.status ((rowsBy app es a.id).map entry) := by
  obtain ⟨r, hold, hr, huser, hstage⟩ := request_of_answer hclean hrun a ha
  have haccounted := accounted_of_run hclean hrun a.id
  rw [hold] at haccounted
  simp only [Request.Accounted, hstage] at haccounted
  rw [← huser]
  exact haccounted.1 (hr.trans hroute)

/-- As many PINs are on record as have been answered. -/
theorem count_issued_of_run (hclean : AllSteps (step app) Clean State.init es)
    (hrun : run (step app) State.init es = some s) (subject : String) :
    ((rows app es).map Prod.snd).countP (ofKind .issued subject) =
      (answers app es).countP (grants subject) := by
  induction es using List.reverseRecOn generalizing s with
  | nil => rfl
  | append_singleton es e ih =>
      obtain ⟨t, ht, hstep⟩ := run_snoc_eq_some.mp hrun
      have haccounted := accounted_of_run hclean.of_append ht
      have hlast := hclean es e [] t rfl ht
      rw [rows_snoc e ht, answers_snoc e ht, List.map_append, List.countP_append,
        List.countP_append, ih hclean.of_append ht, Nat.add_left_cancel_iff]
      cases moves_of_step hstep with
      | arrive hnew => rfl
      | @advance id input r r' db hold hadvance =>
          have hr := haccounted id
          rw [hold] at hr
          have hnil := hr.eq_nil fun response hstage => by
            rw [advance_of_answered hstage] at hadvance
            cases hadvance
          rw [hnil] at hr
          have hcount := (hr.advance (hlast r hold) hadvance).count_issued id subject
          rw [List.nil_append] at hcount
          have hanswer : answer? app t (.advance id input) = r'.answer? id := by
            simp [answer?, hold, hadvance]
          rw [map_snd_row?_advance hold, hanswer, hcount]
      | cancel hold => exact absurd hlast (by simp [Clean])
      | abandon hold => exact absurd hlast (by simp [Clean])

end Observe

/-! ## Upserts

Between the commit of an upsert and its row in `request_log` the request is `recording`. The two
sides therefore differ by the requests that are recording, and by nothing else: `Outstanding` names
them in every state. -/

/-- The subject whose upsert has committed but is not on record yet. -/
def Request.recording? (r : Request) : Option String :=
  match r.stage with
  | .handling (.provision _ _ (.recording subject _)) => some subject
  | _ => none

def State.recording? (s : State) (id : Nat) : Option String :=
  (s.requests id).bind Request.recording?

section Upserts

variable {db db' : Database} {input : Input} {r r' : Request}

theorem Request.recording?_respond (r : Request) (response : Response) :
    (r.respond response).recording? = none := by
  unfold Request.respond
  split <;> rfl

theorem Request.recording?_requestPin (r : Request) (user : AuthenticatedUser)
    (stage : Routes.RequestPin) : (r.requestPin user stage).recording? = none := by
  unfold Request.requestPin
  split
  · exact r.recording?_respond _
  · exact r.recording?_respond _
  · rfl

/-- Only the handler of `/v1/totp/provision` records an upsert. -/
theorem Request.count_provisioned_of_none (h : r.recording? = none) (input : Input)
    (subject : String) :
    (r.written input).toList.countP (ofKind .provisioned subject) = 0 := by
  have hrow : ∀ subject result, r.row? = some (subject, result) → result ≠ .provisioned := by
    intro subject result hrow heq
    unfold Request.row? at hrow
    unfold Request.recording? at h
    split at hrow <;> simp_all
  unfold Request.written
  split
  · next _ _ subject' result hsome _ =>
      have hresult : result.asStr ≠ RequestResult.provisioned.asStr := by
        intro heq
        exact hrow subject' result hsome (RequestResult.asStr_inj.mp heq)
      simp [ofKind, entry, hresult]
  · rfl

/-- An upsert commits, is put on record in the next step of its request, or the step has nothing to
do with upserts. -/
theorem Request.upsert_cases (hclean : r.row? ≠ none → input.statement = .ok ())
    (hadvance : r.advance app db input = some (db', r')) :
    (∃ subject, r.upserted input = some subject ∧ r.recording? = none ∧
      r'.recording? = some subject) ∨
    (∃ subject row, r.upserted input = none ∧ r.recording? = some subject ∧
      r'.recording? = none ∧ r.written input = some row ∧
      entry row = (some subject, "provisioned")) ∨
    (r.upserted input = none ∧ r.recording? = none ∧ r'.recording? = none) := by
  cases Request.move_of_advance hadvance with
  | requestPin hstage hmove =>
      refine .inr (.inr ⟨by simp [Request.upserted, hstage],
        by simp [Request.recording?, hstage], ?_⟩)
      exact r.recording?_requestPin _ _
  | provision hstage hmove =>
      cases hmove with
      | refused =>
          refine .inr (.inr ⟨by simp [Request.upserted, hstage],
            by simp [Request.recording?, hstage], ?_⟩)
          exact r.recording?_respond _
      | prepared hmints hencrypt =>
          exact .inr (.inr ⟨by simp [Request.upserted, hstage],
            by simp [Request.recording?, hstage], rfl⟩)
      | rejected hstatement =>
          refine .inr (.inr ⟨by simp [Request.upserted, hstage, hstatement],
            by simp [Request.recording?, hstage], ?_⟩)
          exact r.recording?_respond _
      | committed hstatement =>
          exact .inl ⟨_, by simp [Request.upserted, hstage, hstatement],
            by simp [Request.recording?, hstage], rfl⟩
      | @recorded subject provisioned =>
          have hrow : r.row? = some (some subject, .provisioned) := by simp [Request.row?, hstage]
          exact .inr (.inl ⟨subject, _, by simp [Request.upserted, hstage],
            by simp [Request.recording?, hstage], r.recording?_respond _,
            Request.written_of_clean hrow hclean, rfl⟩)
  | _ =>
      exact .inr (.inr ⟨by simp [Request.upserted, *], by simp [Request.recording?, *], rfl⟩)

/-- The upserts that have committed but are not on record yet, of all requests. -/
structure Outstanding (app : Routes.AppState) (es : List Event) (s : State)
    (pending : List (Nat × String)) : Prop where
  nodup  : pending.Nodup
  mem_iff : ∀ id subject, (id, subject) ∈ pending ↔ s.recording? id = some subject
  count  : ∀ subject, (upserts app es).countP (·.2 = subject) =
    ((rows app es).map Prod.snd).countP (ofKind .provisioned subject) +
      pending.countP (·.2 = subject)

theorem recording?_setRequest (s : State) (id other : Nat) :
    (s.setRequest id r).recording? other =
      if other = id then r.recording? else s.recording? other := by
  by_cases h : other = id
  · subst h
    simp [State.recording?]
  · simp [State.recording?, h]

section Outstanding

variable {es : List Event} {s s' : State} {pending : List (Nat × String)} {e : Event} {id : Nat}
  {subject : String}

/-- A step that has nothing to do with upserts. -/
theorem Outstanding.keep (h : Outstanding app es s pending)
    (hrun : run (step app) State.init es = some s) (hrecording : s'.recording? = s.recording?)
    (hupsert : upsert? s e = none)
    (hrow : ∀ subject, ((row? s e).toList.map Prod.snd).countP (ofKind .provisioned subject) = 0) :
    Outstanding app (es ++ [e]) s' pending := by
  refine ⟨h.nodup, ?_, ?_⟩
  · intro id subject
    rw [hrecording]
    exact h.mem_iff id subject
  · intro subject
    rw [upserts_snoc e hrun, rows_snoc e hrun, hupsert, List.map_append, List.countP_append,
      List.countP_append, hrow subject, h.count subject]
    rfl

/-- A step that commits an upsert. -/
theorem Outstanding.commit (h : Outstanding app es s pending)
    (hrun : run (step app) State.init es = some s) (hbefore : s.recording? id = none)
    (hafter : ∀ other, s'.recording? other =
      if other = id then some subject else s.recording? other)
    (hupsert : upsert? s e = some (id, subject))
    (hrow : ∀ subject, ((row? s e).toList.map Prod.snd).countP (ofKind .provisioned subject) = 0) :
    Outstanding app (es ++ [e]) s' ((id, subject) :: pending) := by
  have hnew : ∀ subject', (id, subject') ∉ pending := by
    intro subject' hmem
    rw [h.mem_iff, hbefore] at hmem
    cases hmem
  refine ⟨List.nodup_cons.mpr ⟨hnew subject, h.nodup⟩, ?_, ?_⟩
  · intro other subject'
    rw [hafter, List.mem_cons]
    by_cases heq : other = id
    · subst heq
      simp [hnew, eq_comm]
    · simp [heq, h.mem_iff]
  · intro subject'
    rw [upserts_snoc e hrun, rows_snoc e hrun, hupsert, List.map_append, List.countP_append,
      List.countP_append, hrow subject', h.count subject', List.countP_cons, Option.toList_some,
      List.countP_singleton]
    omega

/-- A step that puts an upsert on record. -/
theorem Outstanding.settle (h : Outstanding app es s pending)
    (hrun : run (step app) State.init es = some s) (hbefore : s.recording? id = some subject)
    (hafter : ∀ other, s'.recording? other = if other = id then none else s.recording? other)
    (hupsert : upsert? s e = none) {row : LogRow} (hrow : (row? s e).toList.map Prod.snd = [row])
    (hentry : entry row = (some subject, "provisioned")) :
    Outstanding app (es ++ [e]) s' (pending.erase (id, subject)) := by
  have hmem : (id, subject) ∈ pending := (h.mem_iff id subject).mpr hbefore
  refine ⟨h.nodup.erase _, ?_, ?_⟩
  · intro other subject'
    rw [hafter, h.nodup.mem_erase_iff, h.mem_iff]
    by_cases heq : other = id
    · subst heq
      simp [hbefore, eq_comm]
    · simp [heq]
  · intro subject'
    have hperm := (List.perm_cons_erase hmem).countP_eq (·.2 = subject')
    have hkind : ofKind .provisioned subject' row = decide ((id, subject).2 = subject') := by
      rw [Bool.eq_iff_iff]
      simp [ofKind, hentry, RequestResult.asStr]
    rw [upserts_snoc e hrun, rows_snoc e hrun, hupsert, List.map_append, hrow, List.countP_append,
      List.countP_append, h.count subject', hperm, List.countP_cons, List.countP_singleton, hkind,
      Option.toList_none, List.countP_nil]
    omega

end Outstanding

theorem outstanding_of_run {es : List Event} {s : State}
    (hclean : AllSteps (step app) Clean State.init es)
    (hrun : run (step app) State.init es = some s) : ∃ pending, Outstanding app es s pending := by
  refine run_induction_of (P := fun es s => ∃ pending, Outstanding app es s pending) ?_ ?_
    hclean hrun
  · exact ⟨[], List.nodup_nil, fun id subject => by simp [State.recording?, State.init],
      fun subject => rfl⟩
  · intro es s e s' hrun ih hclean hstep
    obtain ⟨pending, hpending⟩ := ih
    cases moves_of_step hstep with
    | @arrive new route time authorization body hnew =>
        refine ⟨pending, hpending.keep hrun ?_ rfl fun subject => rfl⟩
        funext other
        rw [recording?_setRequest]
        split
        · next heq => simp [heq, State.recording?, hnew, Request.recording?]
        · rfl
    | @advance id input r r' db hold hadvance =>
        have hupsert : upsert? s (.advance id input) = (r.upserted input).map (id, ·) := by
          rw [upsert?, hold, Option.bind_some]
        have hbefore : s.recording? id = r.recording? := by
          rw [State.recording?, hold, Option.bind_some]
        have hafter := recording?_setRequest (r := r') { s with db } id
        rcases Request.upsert_cases (hclean r hold) hadvance with
          ⟨subject, hcommit, hnone, hsome⟩ | ⟨subject, row, hcommit, hsome, hnone, hrow, hentry⟩ |
          ⟨hcommit, hnone, hnone'⟩
        · rw [hsome] at hafter
          refine ⟨_, hpending.commit hrun (hbefore.trans hnone) hafter
            (by rw [hupsert, hcommit]; rfl) ?_⟩
          intro subject'
          rw [map_snd_row?_advance hold]
          exact Request.count_provisioned_of_none hnone input subject'
        · rw [hnone] at hafter
          refine ⟨_, hpending.settle hrun (hbefore.trans hsome) hafter
            (by rw [hupsert, hcommit]; rfl) ?_ hentry⟩
          rw [map_snd_row?_advance hold, hrow]
          rfl
        · refine ⟨pending, hpending.keep hrun ?_ (by rw [hupsert, hcommit]; rfl) ?_⟩
          · funext other
            rw [hafter]
            split
            · next heq => rw [heq, hbefore, hnone, hnone']
            · rfl
          · intro subject
            rw [map_snd_row?_advance hold]
            exact Request.count_provisioned_of_none hnone input subject
    | cancel hold => exact absurd hclean (by simp [Clean])
    | abandon hold => exact absurd hclean (by simp [Clean])

end Upserts

/-! ## The trail -/

/-- **The audit trail matches the answers.** In every run in which no request is cancelled and no
insert into `request_log` fails, at every point: the table consists of the rows that requests have
written; about every answer of `/v1/totp/request` there is on record what belongs there; as many
PINs are on record for a subject as it has been answered; and the upserts on record for a subject
are those that have committed, less the ones whose handlers are about to put them on record. -/
theorem audit_trail_matches {es : List Event} {s : State}
    (hrun : run (step app) State.init es = some s)
    (hclean : AllSteps (step app) Clean State.init es) :
    s.db.requestLog = (rows app es).map Prod.snd ∧
      (∀ a ∈ answers app es, a.route = .request →
        OnRecord a.user a.response.status ((rowsBy app es a.id).map entry)) ∧
      (∀ subject, s.db.requestLog.countP (ofKind .issued subject) =
        (answers app es).countP (grants subject)) ∧
      (∃ pending : List (Nat × String), pending.Nodup ∧
        (∀ id subject, (id, subject) ∈ pending ↔ s.recording? id = some subject) ∧
        ∀ subject, (upserts app es).countP (·.2 = subject) =
          s.db.requestLog.countP (ofKind .provisioned subject) +
            pending.countP (·.2 = subject)) ∧
      ((∀ id, s.recording? id = none) → ∀ subject,
        s.db.requestLog.countP (ofKind .provisioned subject) =
          (upserts app es).countP (·.2 = subject)) := by
  have hlog := requestLog_eq hrun
  obtain ⟨pending, hpending⟩ := outstanding_of_run hclean hrun
  rw [hlog]
  refine ⟨rfl, ?_, ?_, ?_, ?_⟩
  · intro a ha hroute
    exact onRecord_of_answer hclean hrun ha hroute
  · exact count_issued_of_run hclean hrun
  · exact ⟨pending, hpending.nodup, hpending.mem_iff, hpending.count⟩
  · intro hsettled subject
    have hnil : pending = [] := by
      rw [List.eq_nil_iff_forall_not_mem]
      rintro ⟨id, subject'⟩ hmem
      rw [hpending.mem_iff, hsettled] at hmem
      cases hmem
    rw [hpending.count subject, hnil, List.countP_nil, Nat.add_zero]

/-! ### An hour at the server -/

/-- An uneventful step of a request whose token belongs to `user`. -/
def uneventful (user : AuthenticatedUser) (allowed : Bool) : Input where
  toInput := Routes.smooth 59 Totp.rfcSecret
  outcome := .active user
  allowed := allowed

/-- `Authorization: Bearer abc`. -/
def bearerAbc : Option HeaderValue := some "Bearer abc".toUTF8.toList

/-- A secret is provisioned for Alice, who gets a PIN while that is put on record and is refused
another one; somebody comes without a token. -/
def anHour : List Event :=
  [Event.arrive 0 .provision 0 bearerAbc (.ok ⟨" alice "⟩)] ++
  List.replicate 5 (Event.advance 0 (uneventful Routes.demoAdmin true)) ++
  [Event.arrive 1 .request 0 bearerAbc (.error .unknownBody)] ++
  List.replicate 5 (Event.advance 1 (uneventful Routes.alice true)) ++
  [Event.advance 0 (uneventful Routes.demoAdmin true), .advance 1 (uneventful Routes.alice true),
    .arrive 2 .request 0 bearerAbc (.error .unknownBody)] ++
  List.replicate 4 (Event.advance 2 (uneventful Routes.alice false)) ++
  [Event.arrive 3 .request 0 none (.error .unknownBody)] ++
  List.replicate 2 (Event.advance 3 (uneventful Routes.alice true))

/-- The event cancels nothing, and its statement does not fail. -/
def Event.succeeds : Event → Bool
  | .arrive _ _ _ _ _ => true
  | .advance _ input  => input.statement.isOk
  | .cancel _ | .abandon _ _ => false

theorem clean_of_succeeds {es : List Event} (h : es.all Event.succeeds = true) (s : State) :
    AllSteps (step app) Clean s es := by
  intro pre e post t hes ht
  rw [List.all_eq_true] at h
  have he := h e (by rw [hes]; simp)
  cases e with
  | arrive id route time authorization body => trivial
  | advance id input =>
      intro r hold hrow
      rw [Event.succeeds] at he
      cases hstatement : input.statement with
      | ok _ => rfl
      | error text =>
          rw [hstatement] at he
          cases he
  | cancel id => cases he
  | abandon id input => cases he

theorem audit_trail_matches_anHour :
    ∃ s, run (step Routes.demoApp) State.init anHour = some s ∧
      s.db.requestLog.map entry = [(some "alice", "provisioned"), (some "alice", "issued"),
        (some "alice", "rate_limited"), (none, "denied_inactive_token")] ∧
      s.db.requestLog.countP (ofKind .issued "alice") =
        (answers Routes.demoApp anHour).countP (grants "alice") := by
  have hlog : (run (step Routes.demoApp) State.init anHour).map (·.db.requestLog.map entry) =
      some [(some "alice", "provisioned"), (some "alice", "issued"),
        (some "alice", "rate_limited"), (none, "denied_inactive_token")] := by
    decide +kernel
  obtain ⟨s, hrun, hentries⟩ := Option.map_eq_some_iff.mp hlog
  have hclean : AllSteps (step Routes.demoApp) Clean State.init anHour :=
    clean_of_succeeds (by decide +kernel) State.init
  exact ⟨s, hrun, hentries, (audit_trail_matches hrun hclean).2.2.1 "alice"⟩

end Urheilulaatikko.Server.Router
