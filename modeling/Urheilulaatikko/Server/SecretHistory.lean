import Urheilulaatikko.Server.Routes

/-!
# Whose secret is in a row, and whose PIN is in an answer

The `upsert`s that committed, in their order, explain everything: the table holds the secret of the
last one for each subject (`Stored`), an answered `request_pin` goes back to what the row held at
its own `get` (`Traced`), and a `provision` answers with an error only if it is not among them
(`Accounted`). Each of the three is kept by every step, and `secret_store_correct` puts them
together.
-/

namespace Urheilulaatikko.Server.Routes

open Auth Text Totp Trace SecretStore

/-! ## Commits

The history that everything below is about: which `upsert`s have committed, in their order. -/

/-- An `upsert` that committed: by which handler, for whom, and of which secret. -/
structure Commit where
  handler : Nat
  admin   : AuthenticatedUser
  payload : ProvisionRequest
  subject : String
  raw     : List UInt8
  deriving DecidableEq, Repr

/-- The commit that an event makes in a state, if it makes one. -/
def commit? (s : State) : Event → Option Commit
  | .advance id input =>
      match s.handlers id, input.statement with
      | some (.provision admin payload (.upserting subject provisioned _ _)), .ok () =>
          some { handler := id, admin, payload, subject, raw := provisioned.raw }
      | _, _ => none
  | _ => none

def commits (app : AppState) (es : List Event) : List Commit :=
  observe (step app) commit? State.init es

/-- The last commit for a subject. -/
def latest (cs : List Commit) (subject : String) : Option Commit :=
  (cs.filter (·.subject = subject)).getLast?

def commitsBy (cs : List Commit) (id : Nat) : List Commit := cs.filter (·.handler = id)

theorem latest_eq_none_iff {cs : List Commit} {subject : String} :
    latest cs subject = none ↔ ∀ c ∈ cs, c.subject ≠ subject := by
  simp [latest]

theorem latest_snoc (cs : List Commit) (c : Commit) :
    latest (cs ++ [c]) = Function.update (latest cs) c.subject (some c) := by
  funext subject
  by_cases h : c.subject = subject
  · subst h
    simp [latest]
  · simp [latest, h, Function.update_of_ne (Ne.symm h)]

theorem subject_of_latest {cs : List Commit} {subject : String} {c : Commit}
    (h : latest cs subject = some c) : c ∈ cs ∧ c.subject = subject := by
  have hmem := List.mem_of_getLast? h
  simpa using hmem

variable {app : AppState}

theorem commits_snoc {es : List Event} {s : State} (e : Event)
    (hrun : run (step app) State.init es = some s) :
    commits app (es ++ [e]) = commits app es ++ (commit? s e).toList :=
  observe_snoc e hrun

section Commit?

variable {s : State} {id : Nat} {input : Input}

theorem commit?_request {user : AuthenticatedUser} {stage : RequestPin}
    (hold : s.handlers id = some (.requestPin user stage)) :
    commit? s (.advance id input) = none := by
  simp [commit?, hold]

theorem commit?_committed {admin : AuthenticatedUser} {payload : ProvisionRequest}
    {subject : String} {provisioned : ProvisionedSecret} {ct nonce : List UInt8}
    (hold : s.handlers id =
      some (.provision admin payload (.upserting subject provisioned ct nonce)))
    (hstatement : input.statement = .ok ()) :
    commit? s (.advance id input) = some ⟨id, admin, payload, subject, provisioned.raw⟩ := by
  simp [commit?, hold, hstatement]

end Commit?

/-! ## The table

The row of a subject decrypts to the secret of its last commit. Ciphertext and nonce of a commit go
in together, and no other statement touches them. -/

/-- Who may store what: an admin, for the trimmed and non-empty subject of the payload. -/
def Authorised (app : AppState) (c : Commit) : Prop :=
  c.admin.hasRole app.adminRole = true ∧ trim c.payload.subject = c.subject ∧ c.subject ≠ ""

/-- What a handler before its `upsert` is about to commit is authorised, and encrypted so that it
can be read back. -/
def Handler.Prepared (app : AppState) (id : Nat) : Handler → Prop
  | .provision admin payload (.upserting subject provisioned ct nonce) =>
      Authorised app ⟨id, admin, payload, subject, provisioned.raw⟩ ∧
        Crypto.decrypt app.cipher ct nonce = .ok provisioned.raw
  | _ => True

/-- The table holds the secret of the last commit for each subject, and every handler is
prepared. -/
structure Stored (app : AppState) (cs : List Commit) (s : State) : Prop where
  secrets    : ∀ subject, secretOf app.cipher s.db subject =
    (latest cs subject).map fun c => .ok c.raw
  authorised : ∀ c ∈ cs, Authorised app c
  prepared   : ∀ id h, s.handlers id = some h → h.Prepared app id

theorem Stored.init : Stored app [] State.init where
  secrets _    := rfl
  authorised c := by simp
  prepared id h hold := by cases hold

/-- A step that commits nothing and keeps the secrets. -/
theorem Stored.keep {cs : List Commit} {s : State} {e : Event} (h : Stored app cs s)
    (hcommit : commit? s e = none) {db : Database} {id : Nat} {handler : Handler}
    (hdb : secretOf app.cipher db = secretOf app.cipher s.db)
    (hhandler : handler.Prepared app id) :
    Stored app (cs ++ (commit? s e).toList) ({ s with db }.setHandler id handler) := by
  rw [hcommit, Option.toList_none, List.append_nil]
  refine ⟨?_, h.authorised, State.forall_setHandler h.prepared hhandler⟩
  intro subject
  show secretOf app.cipher db subject = _
  rw [hdb]
  exact h.secrets subject

theorem Stored.step (hcipher : app.cipher.Inverts) {cs : List Commit} {s s' : State} {e : Event}
    (h : Stored app cs s) (hmoves : Moves app s e s') :
    Stored app (cs ++ (commit? s e).toList) s' := by
  cases hmoves with
  | requestPin hnew => exact h.keep rfl rfl trivial
  | provision hnew => exact h.keep rfl rfl trivial
  | cancel hold hrunning => exact h.keep rfl rfl trivial
  | advanceRequest hold hmove =>
      refine h.keep (commit?_request hold) ?_ trivial
      cases hmove <;> simp
  | @advanceProvision id input admin payload stage stage' db hold hmove =>
      cases hmove with
      | refused => exact h.keep (by simp [commit?, hold]) rfl trivial
      | prepared hmints hencrypt =>
          apply h.keep (by simp [commit?, hold]) rfl
          obtain ⟨hrole, hsubject⟩ := hmints.permitted
          exact ⟨⟨hrole, rfl, hsubject⟩, Crypto.decrypt_of_encrypt hcipher hencrypt⟩
      | rejected hstatement => exact h.keep (by simp [commit?, hold, hstatement]) rfl trivial
      | recorded => exact h.keep (by simp [commit?, hold]) (by simp) trivial
      | @committed subject provisioned ct nonce hstatement =>
          -- ciphertext and nonce are replaced together, so the new row decrypts
          obtain ⟨hauthorised, hdecrypt⟩ := h.prepared _ _ hold
          rw [commit?_committed hold hstatement, Option.toList_some]
          refine ⟨?_, ?_, State.forall_setHandler h.prepared trivial⟩
          · intro other
            rw [State.db_setHandler, secretOf_upsertRow, latest_snoc, hdecrypt]
            by_cases heq : other = subject
            · subst heq
              simp
            · simp [heq, h.secrets other]
          · intro c hc
            rcases List.mem_append.mp hc with hc | hc
            · exact h.authorised c hc
            · rw [List.mem_singleton.mp hc]
              exact hauthorised

theorem stored_of_run (hcipher : app.cipher.Inverts) {es : List Event} {s : State}
    (hrun : run (step app) State.init es = some s) : Stored app (commits app es) s := by
  apply run_induction (P := fun es s => Stored app (commits app es) s) Stored.init _ hrun
  intro es s e s' hrun ih hstep
  rw [commits_snoc e hrun]
  exact ih.step hcipher (moves_of_step hstep)

/-! ## The answers of `request_pin`

A handler goes on with what its `get` has found, whatever happens to the table in the meantime. So
an answer is traced back to the state at the `get`, and the commits so far say what was in the row
there. -/

/-- In the run `es`, handler `id` of `user` took its first step, the `get`, in state `t`. -/
def GetAt (app : AppState) (es : List Event) (id : Nat) (user : AuthenticatedUser)
    (pre : List Event) (t : State) (input : Input) : Prop :=
  (∃ post, es = pre ++ .advance id input :: post) ∧ run (step app) State.init pre = some t ∧
    t.handlers id = some (.requestPin user .called)

theorem GetAt.snoc {es : List Event} {id : Nat} {user : AuthenticatedUser} {pre : List Event}
    {t : State} {input : Input} (h : GetAt app es id user pre t input) (e : Event) :
    GetAt app (es ++ [e]) id user pre t input := by
  obtain ⟨⟨post, hes⟩, hrun, hcalled⟩ := h
  exact ⟨⟨post ++ [e], by rw [hes]; simp⟩, hrun, hcalled⟩

/-- How a stage follows from what `get` met. -/
def RequestPin.Follows (app : AppState) (user : AuthenticatedUser) (db : Database) (input : Input) :
    RequestPin → Prop
  | .called  => False
  | .denying => get app.cipher db input.statement user.subject = .ok none
  | .touching secret generated =>
      get app.cipher db input.statement user.subject = .ok (some secret) ∧
        generateAt app.totpRs secret input.unixNow = .ok generated
  | .issuing generated => ∃ secret,
      get app.cipher db input.statement user.subject = .ok (some secret) ∧
        generateAt app.totpRs secret input.unixNow = .ok generated
  | .answered (.ok response) => ∃ secret generated,
      get app.cipher db input.statement user.subject = .ok (some secret) ∧
        generateAt app.totpRs secret input.unixNow = .ok generated ∧
        response = ⟨generated.pin, generated.validForSeconds⟩
  | .answered (.error e) =>
      e = .notFound ↔ get app.cipher db input.statement user.subject = .ok none

/-- The first step establishes it. -/
theorem RequestPin.Follows.of_called {user : AuthenticatedUser} {db db' : Database} {input : Input}
    {stage : RequestPin} (hmove : RequestPin.Move app user db input .called db' stage) :
    stage.Follows app user db input := by
  cases hmove with
  | unread hget =>
      obtain ⟨source, rfl⟩ := error_of_get hget
      simp [RequestPin.Follows, hget]
  | missing hget => exact hget
  | unusable hget hgen =>
      obtain ⟨source, rfl⟩ := error_of_generateAt hgen
      simp [RequestPin.Follows, hget]
  | generated hget hgen => exact ⟨hget, hgen⟩

/-- The later steps keep it, whatever they meet themselves. -/
theorem RequestPin.Follows.step {user : AuthenticatedUser} {db₀ db db' : Database}
    {input₀ input : Input} {stage stage' : RequestPin} (h : stage.Follows app user db₀ input₀)
    (hmove : RequestPin.Move app user db input stage db' stage') :
    stage'.Follows app user db₀ input₀ := by
  cases hmove with
  | unread | missing | unusable | generated => exact h.elim
  | denied => exact iff_of_true rfl h
  | untouched hstatement => simp [RequestPin.Follows, h.1]
  | touched hstatement => exact ⟨_, h⟩
  | issued =>
      obtain ⟨secret, hget, hgen⟩ := h
      exact ⟨secret, _, hget, hgen, rfl⟩

/-- Every `request_pin` handler past its `get` goes back to it. -/
def Traced (app : AppState) (es : List Event) (s : State) : Prop :=
  ∀ id user stage, s.handlers id = some (.requestPin user stage) →
    stage = .called ∨
      ∃ pre t input, GetAt app es id user pre t input ∧ stage.Follows app user t.db input

theorem Traced.step {es : List Event} {s s' : State} {e : Event} (h : Traced app es s)
    (hrun : run (step app) State.init es = some s) (hmoves : Moves app s e s') :
    Traced app (es ++ [e]) s' := by
  intro id user stage hold
  obtain hold | rfl | ⟨input, stage₀, db, rfl, hold, hmove⟩ := requestPin_of_moves hmoves hold
  · obtain hcalled | ⟨pre, t, input, hget, hfollows⟩ := h id user stage hold
    · exact .inl hcalled
    · exact .inr ⟨pre, t, input, hget.snoc e, hfollows⟩
  · exact .inl rfl
  · -- the first step is the `get` itself, every later one goes back to it
    right
    obtain rfl | ⟨pre, t, input₀, hget, hfollows⟩ := h id user stage₀ hold
    · exact ⟨es, s, input, ⟨⟨[], rfl⟩, hrun, hold⟩, .of_called hmove⟩
    · exact ⟨pre, t, input₀, hget.snoc _, hfollows.step hmove⟩

theorem traced_of_run {es : List Event} {s : State}
    (hrun : run (step app) State.init es = some s) : Traced app es s := by
  apply run_induction (P := fun es s => Traced app es s) _ _ hrun
  · intro id user stage hold
    cases hold
  · intro es s e s' hrun ih hstep
    exact ih.step hrun (moves_of_step hstep)

/-! ## The answers of `provision`

A handler commits at most once, and from then on it is dropped or succeeds: an error is the answer
of a handler that has changed nothing. -/

/-- No step of handler `id` in the run `es` changed `totp_secrets`. -/
def Untouched (app : AppState) (es : List Event) (id : Nat) : Prop :=
  ∀ pre input post t t', es = pre ++ .advance id input :: post →
    run (step app) State.init pre = some t → step app t (.advance id input) = some t' →
    t'.db.totpSecrets = t.db.totpSecrets

/-- Handler `id` has committed nothing and changed nothing. -/
def Idle (app : AppState) (es : List Event) (id : Nat) : Prop :=
  commitsBy (commits app es) id = [] ∧ Untouched app es id

/-- What a `provision` handler has committed at each stage: nothing, until its `upsert` has
succeeded, and then exactly the secret it has minted. -/
def Accounted (app : AppState) (es : List Event) (id : Nat) : Option Handler → Prop
  | some (.provision admin payload (.upserting subject provisioned _ _)) =>
      Idle app es id ∧ Mints app admin payload subject provisioned
  | some (.provision admin payload (.recording subject provisioned)) =>
      commitsBy (commits app es) id = [⟨id, admin, payload, subject, provisioned.raw⟩] ∧
        Mints app admin payload subject provisioned
  | some (.provision admin payload (.answered (.ok response))) => ∃ subject provisioned,
      commitsBy (commits app es) id = [⟨id, admin, payload, subject, provisioned.raw⟩] ∧
        Mints app admin payload subject provisioned ∧
        response = ⟨provisioned.secretBase32, provisioned.otpauthUrl⟩
  | some (.provision admin payload (.answered (.error e))) =>
      Idle app es id ∧ Fails app admin payload e
  | some (.requestPin _ _) | some .dropped => True
  | _ => Idle app es id

/-- The handler an event belongs to. -/
def Event.id : Event → Nat
  | .requestPin id _ | .provision id _ _ | .advance id _ | .cancel id => id

theorem handler_of_commit? {s : State} {e : Event} {c : Commit} (h : commit? s e = some c) :
    c.handler = e.id := by
  cases e with
  | advance id input =>
      simp only [commit?] at h
      split at h
      · cases h
        rfl
      · cases h
  | requestPin | provision | cancel => cases h

theorem commitsBy_snoc {es : List Event} {s : State} {e : Event} {id : Nat}
    (hrun : run (step app) State.init es = some s) :
    commitsBy (commits app (es ++ [e])) id =
      commitsBy (commits app es) id ++ commitsBy (commit? s e).toList id := by
  rw [commits_snoc e hrun, commitsBy, List.filter_append]
  rfl

theorem commitsBy_snoc_none {es : List Event} {s : State} {e : Event} {id : Nat}
    (hrun : run (step app) State.init es = some s) (hcommit : commit? s e = none) :
    commitsBy (commits app (es ++ [e])) id = commitsBy (commits app es) id := by
  rw [commitsBy_snoc hrun, hcommit]
  exact List.append_nil _

theorem commitsBy_snoc_other {es : List Event} {s : State} {e : Event} {id : Nat}
    (hrun : run (step app) State.init es = some s) (hid : e.id ≠ id) :
    commitsBy (commits app (es ++ [e])) id = commitsBy (commits app es) id := by
  rw [commitsBy_snoc hrun]
  cases hcommit : commit? s e with
  | none => exact List.append_nil _
  | some c => simp [commitsBy, handler_of_commit? hcommit, hid]

theorem Untouched.snoc {es : List Event} {s s' : State} {e : Event} {id : Nat}
    (h : Untouched app es id) (hrun : run (step app) State.init es = some s)
    (hstep : step app s e = some s')
    (hsame : e.id = id → s'.db.totpSecrets = s.db.totpSecrets) :
    Untouched app (es ++ [e]) id := by
  intro pre input post t t' hsplit hpre hstep'
  obtain ⟨rfl, rfl, rfl⟩ | ⟨post, rfl, rfl⟩ := snoc_eq_append_cons hsplit
  · rw [hrun] at hpre
    cases hpre
    rw [hstep] at hstep'
    cases hstep'
    exact hsame rfl
  · exact h pre input post t t' rfl hpre hstep'

theorem Idle.snoc {es : List Event} {s s' : State} {e : Event} {id : Nat} (h : Idle app es id)
    (hrun : run (step app) State.init es = some s) (hstep : step app s e = some s')
    (hcommit : commit? s e = none) (hsame : s'.db.totpSecrets = s.db.totpSecrets) :
    Idle app (es ++ [e]) id :=
  ⟨by rw [commitsBy_snoc_none hrun hcommit, h.1], h.2.snoc hrun hstep fun _ => hsame⟩

/-- The steps of the others do not matter. -/
theorem Accounted.other {es : List Event} {s s' : State} {e : Event} {id : Nat}
    {handler : Option Handler} (h : Accounted app es id handler)
    (hrun : run (step app) State.init es = some s) (hstep : step app s e = some s')
    (hid : e.id ≠ id) : Accounted app (es ++ [e]) id handler := by
  have hcommits := commitsBy_snoc_other hrun hid
  have hidle : Idle app es id → Idle app (es ++ [e]) id := fun hidle =>
    ⟨by rw [hcommits, hidle.1], hidle.2.snoc hrun hstep fun heq => absurd heq hid⟩
  unfold Accounted at h ⊢
  split at h
  · exact ⟨hidle h.1, h.2⟩
  · rwa [hcommits]
  · rwa [hcommits]
  · exact ⟨hidle h.1, h.2⟩
  · trivial
  · trivial
  · exact hidle h

theorem Accounted.step {es : List Event} {s s' : State} {e : Event}
    (h : ∀ id, Accounted app es id (s.handlers id))
    (hrun : run (step app) State.init es = some s) (hstep : step app s e = some s') :
    ∀ id, Accounted app (es ++ [e]) id (s'.handlers id) := by
  -- a handler that is not concerned, and the new stage of the one that is
  have hset : ∀ {id : Nat} {handler : Handler} {db : Database}, e.id = id →
      s' = { s with db }.setHandler id handler → Accounted app (es ++ [e]) id (some handler) →
      ∀ other, Accounted app (es ++ [e]) other (s'.handlers other) := by
    rintro id handler db hid rfl hnew other
    rw [State.handlers_setHandler]
    by_cases heq : other = id
    · subst heq
      rwa [Function.update_self]
    · rw [Function.update_of_ne heq]
      exact (h other).other hrun hstep fun hother => heq (hother.symm.trans hid)
  cases moves_of_step hstep with
  | requestPin hnew => exact hset rfl rfl trivial
  | cancel hold hrunning => exact hset rfl rfl trivial
  | advanceRequest hold hmove => exact hset rfl rfl trivial
  | @provision id admin payload hnew =>
      have hidle : Idle app es id := by
        have := h id
        rwa [hnew] at this
      exact hset rfl rfl (hidle.snoc hrun hstep rfl rfl)
  | @advanceProvision id input admin payload stage stage' db hold hmove =>
      have hid := h id
      rw [hold] at hid
      cases hmove with
      | refused hfails =>
          have hidle := Idle.snoc hid hrun hstep (by simp [commit?, hold]) rfl
          exact hset rfl rfl ⟨hidle, hfails⟩
      | prepared hmints hencrypt =>
          have hidle := Idle.snoc hid hrun hstep (by simp [commit?, hold]) rfl
          exact hset rfl rfl ⟨hidle, hmints⟩
      | rejected hstatement =>
          have hidle := hid.1.snoc hrun hstep (by simp [commit?, hold, hstatement]) rfl
          exact hset rfl rfl ⟨hidle, Fails.internal hid.2.permitted _⟩
      | committed hstatement =>
          obtain ⟨hidle, hmints⟩ := hid
          refine hset rfl rfl ⟨?_, hmints⟩
          show commitsBy (commits app (es ++ [Event.advance id input])) id = _
          rw [commitsBy_snoc hrun, commit?_committed hold hstatement, hidle.1]
          simp [commitsBy, Event.id]
      | @recorded subject provisioned =>
          obtain ⟨hcommits, hmints⟩ := hid
          refine hset rfl rfl ⟨subject, provisioned, ?_, hmints, rfl⟩
          rw [commitsBy_snoc_none hrun (by simp [commit?, hold])]
          exact hcommits

theorem accounted_of_run {es : List Event} {s : State}
    (hrun : run (step app) State.init es = some s) :
    ∀ id, Accounted app es id (s.handlers id) := by
  apply run_induction (P := fun es s => ∀ id, Accounted app es id (s.handlers id)) _ _ hrun
  · intro id
    refine ⟨rfl, ?_⟩
    intro pre input post t t' hsplit
    simp at hsplit
  · intro es s e s' hrun ih hstep
    exact Accounted.step ih hrun hstep

/-! ## Together -/

theorem row_iff_commit (hcipher : app.cipher.Inverts) {es : List Event} {s : State}
    (hrun : run (step app) State.init es = some s) (subject : String) :
    (∃ row, s.db.totpSecrets subject = some row) ↔ ∃ c ∈ commits app es, c.subject = subject := by
  have hsecret := (stored_of_run hcipher hrun).secrets subject
  have hrow : (∃ row, s.db.totpSecrets subject = some row) ↔
      secretOf app.cipher s.db subject ≠ none := by
    cases hrow : s.db.totpSecrets subject <;> simp [secretOf, hrow]
  rw [hrow, hsecret, Ne, Option.map_eq_none_iff, latest_eq_none_iff]
  simp

theorem row_of_latest (hcipher : app.cipher.Inverts) {es : List Event} {s : State}
    (hrun : run (step app) State.init es = some s) {subject : String} {c : Commit}
    (hc : latest (commits app es) subject = some c) :
    ∃ row, s.db.totpSecrets subject = some row ∧
      Crypto.decrypt app.cipher row.encryptedSecret row.nonce = .ok c.raw ∧
      c.admin.hasRole app.adminRole = true ∧ trim c.payload.subject = subject ∧ subject ≠ "" := by
  have hstored := stored_of_run hcipher hrun
  have hsecret := hstored.secrets subject
  rw [hc] at hsecret
  obtain ⟨row, hrow, hdecrypt⟩ := Option.map_eq_some_iff.mp hsecret
  obtain ⟨hmem, rfl⟩ := subject_of_latest hc
  obtain ⟨hrole, htrim, hne⟩ := hstored.authorised c hmem
  exact ⟨row, hrow, hdecrypt, hrole, htrim, hne⟩

/-- **Each user gets the PIN of their own latest secret, and failed provisioning changes nothing.**
In every run, with any statement failing and any handler cancelled:

* a subject has a row iff some `upsert` for it has committed, and the row decrypts to the secret of
  the last one, which an admin asked for with a payload that trims to this subject;
* an answered `request_pin` goes back to its own `get`: a PIN is the one of the secret that the
  user's row held there, and the answer is "not found" iff the `get` succeeded and no `upsert` for
  the user had committed by then;
* a `provision` that is answered with an error has committed nothing and no step of it changed the
  table, and one that is answered with a secret has committed exactly once, the secret that it
  answers with, minted for the subject of its payload. -/
theorem secret_store_correct (hcipher : app.cipher.Inverts) {es : List Event} {s : State}
    (hrun : run (step app) State.init es = some s) :
    (∀ subject,
      ((∃ row, s.db.totpSecrets subject = some row) ↔
        ∃ c ∈ commits app es, c.subject = subject) ∧
      ∀ c, latest (commits app es) subject = some c → ∃ row,
        s.db.totpSecrets subject = some row ∧
        Crypto.decrypt app.cipher row.encryptedSecret row.nonce = .ok c.raw ∧
        c.admin.hasRole app.adminRole = true ∧ trim c.payload.subject = subject ∧ subject ≠ "") ∧
    (∀ id user answer, s.handlers id = some (.requestPin user (.answered answer)) →
      ∃ pre t input, GetAt app es id user pre t input ∧
        (∀ response, answer = .ok response → ∃ row secret generated,
          t.db.totpSecrets user.subject = some row ∧
          Crypto.decrypt app.cipher row.encryptedSecret row.nonce = .ok secret ∧
          (latest (commits app pre) user.subject).map Commit.raw = some secret ∧
          generateAt app.totpRs secret input.unixNow = .ok generated ∧
          response = ⟨generated.pin, generated.validForSeconds⟩) ∧
        (answer = .error .notFound ↔
          input.statement = .ok () ∧ ∀ c ∈ commits app pre, c.subject ≠ user.subject)) ∧
    (∀ id admin payload answer,
      s.handlers id = some (.provision admin payload (.answered answer)) →
      (∀ e, answer = .error e → commitsBy (commits app es) id = [] ∧ Untouched app es id) ∧
      (∀ response, answer = .ok response →
        ∃ (subject : String) (provisioned : ProvisionedSecret),
        commitsBy (commits app es) id = [⟨id, admin, payload, subject, provisioned.raw⟩] ∧
        Mints app admin payload subject provisioned ∧
        response = ⟨provisioned.secretBase32, provisioned.otpauthUrl⟩)) := by
  refine ⟨?_, ?_, ?_⟩
  · intro subject
    exact ⟨row_iff_commit hcipher hrun subject, fun c hc => row_of_latest hcipher hrun hc⟩
  · intro id user answer hold
    obtain hcalled | ⟨pre, t, input, hget, hfollows⟩ := traced_of_run hrun id user _ hold
    · cases hcalled
    · have hstored := (stored_of_run hcipher hget.2.1).secrets user.subject
      refine ⟨pre, t, input, hget, ?_, ?_⟩
      · rintro response rfl
        obtain ⟨secret, generated, hok, hgen, hresponse⟩ := hfollows
        obtain ⟨-, hsecret⟩ := get_eq_ok_some_iff.mp hok
        obtain ⟨row, hrow, hdecrypt⟩ := Option.map_eq_some_iff.mp hsecret
        refine ⟨row, secret, generated, hrow, hdecrypt, ?_, hgen, hresponse⟩
        rw [hsecret] at hstored
        obtain ⟨c, hc, hraw⟩ := Option.map_eq_some_iff.mp hstored.symm
        rw [hc]
        exact congrArg some (Except.ok.inj hraw)
      · have hnone : get app.cipher t.db input.statement user.subject = .ok none ↔
            input.statement = .ok () ∧ ∀ c ∈ commits app pre, c.subject ≠ user.subject := by
          rw [get_eq_ok_none_iff, hstored, Option.map_eq_none_iff, latest_eq_none_iff]
        rw [← hnone]
        cases answer with
        | error e =>
            rw [Except.error.injEq]
            exact hfollows
        | ok response =>
            obtain ⟨secret, generated, hok, -⟩ := hfollows
            simp [hok]
  · intro id admin payload answer hold
    have h := accounted_of_run hrun id
    rw [hold] at h
    refine ⟨?_, ?_⟩
    · rintro e rfl
      exact h.1
    · rintro response rfl
      exact h

/-- An admin provisions `" alice "`, and then alice asks for a PIN. -/
def provisionThenRequest : List Event :=
  [.provision 0 demoAdmin ⟨" alice "⟩, .advance 0 (smooth 50 rfcSecret),
   .advance 0 (smooth 50 []), .advance 0 (smooth 50 []),
   .requestPin 1 alice, .advance 1 (smooth 59 []), .advance 1 (smooth 59 []),
   .advance 1 (smooth 59 [])]

theorem secret_store_correct_alice :
    ∃ s, run (step demoApp) State.init provisionThenRequest = some s ∧
      s.handlers 1 = some (.requestPin alice (.answered (.ok ⟨"287082", 1⟩))) ∧
      ∃ row, s.db.totpSecrets "alice" = some row ∧
        Crypto.decrypt demoCipher row.encryptedSecret row.nonce = .ok rfcSecret := by
  obtain ⟨s, hrun, hanswer⟩ : ∃ s, run (step demoApp) State.init provisionThenRequest = some s ∧
      s.handlers 1 = some (.requestPin alice (.answered (.ok ⟨"287082", 1⟩))) := ⟨_, rfl, rfl⟩
  have h := ((secret_store_correct demoCipher_inverts hrun).1 "alice").2
    ⟨0, demoAdmin, ⟨" alice "⟩, "alice", rfcSecret⟩ (by decide +kernel)
  obtain ⟨row, hrow, hdecrypt, -⟩ := h
  exact ⟨s, hrun, hanswer, row, hrow, hdecrypt⟩

/-- A `get` that fails is answered with 500 although nothing was ever provisioned: "not found" is
not the answer to every request without a committed `upsert`. -/
theorem not_found_only_after_get :
    ¬ ∀ (es : List Event) (s : State) (id : Nat) (user : AuthenticatedUser)
      (answer : Except AppError PinResponse),
      run (step demoApp) State.init es = some s →
      s.handlers id = some (.requestPin user (.answered answer)) →
      ∀ pre t input, GetAt demoApp es id user pre t input →
        (answer = .error .notFound ↔ ∀ c ∈ commits demoApp pre, c.subject ≠ user.subject) := by
  intro h
  have hiff := h [.requestPin 0 alice, .advance 0 failing] _ 0 alice
    (.error (.internal "pool timed out")) rfl rfl [.requestPin 0 alice] _ failing
    ⟨⟨[], rfl⟩, rfl, rfl⟩
  have hempty : commits demoApp [.requestPin 0 alice] = [] := rfl
  rw [hempty] at hiff
  have hnotFound := hiff.mpr (by simp)
  cases hnotFound

end Urheilulaatikko.Server.Routes
