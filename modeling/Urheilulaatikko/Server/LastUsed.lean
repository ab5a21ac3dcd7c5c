import Urheilulaatikko.Server.SecretHistory

/-!
# `last_used_at` and the secret it is about

`upsert` resets `last_used_at`, so that it should speak about the secret now in the row.
`request_pin`, however, reads the secret in one statement and marks the row as used in another, and
the row may have been replaced in between.

* `last_used_current` — if no touch comes too late in this sense, the mark is always right.
* `last_used_replaced` — a run in which one does.
-/

namespace Urheilulaatikko.Server.Routes

open Auth Text Totp Trace SecretStore

/-- A PIN was generated, by which handler, for whom, from which secret. -/
structure Generation where
  handler : Nat
  subject : String
  secret  : List UInt8
  deriving DecidableEq, Repr

/-- The generation that an event brings about in a state, if it does. -/
def generation? (app : AppState) (s : State) : Event → Option Generation
  | .advance id input =>
      match s.handlers id with
      | some (.requestPin user .called) =>
          match get app.cipher s.db input.statement user.subject with
          | .ok (some secret) =>
              match generateAt app.totpRs secret input.unixNow with
              | .ok _    => some { handler := id, subject := user.subject, secret }
              | .error _ => none
          | _ => none
      | _ => none
  | _ => none

def generations (app : AppState) (es : List Event) : List Generation :=
  observe (step app) (generation? app) State.init es

/-- A row that is marked as used holds a secret from which a PIN has been generated. -/
def LastUsedCurrent (cipher : Cipher) (gs : List Generation) (db : Database) : Prop :=
  ∀ subject row used, db.totpSecrets subject = some row → row.lastUsedAt = some used →
    ∃ g ∈ gs, g.subject = subject ∧
      Crypto.decrypt cipher row.encryptedSecret row.nonce = .ok g.secret

/-- A touch that is applied finds the secret that its handler has read. -/
def TouchesCurrent (app : AppState) (s : State) : Event → Prop
  | .advance id input =>
      match s.handlers id, input.statement with
      | some (.requestPin user (.touching secret _)), .ok () =>
          secretOf app.cipher s.db user.subject = some (.ok secret)
      | _, _ => True
  | _ => True

variable {app : AppState}

/-! ## What the statements do to the mark

An `upsert` clears it, a touch sets it, and a row of the log leaves it alone. -/

theorem LastUsedCurrent.mono {cipher : Cipher} {gs : List Generation} {db : Database}
    (h : LastUsedCurrent cipher gs db) (new : List Generation) :
    LastUsedCurrent cipher (gs ++ new) db := by
  intro subject row used hrow hused
  obtain ⟨g, hg, hsubject, hsecret⟩ := h subject row used hrow hused
  exact ⟨g, List.mem_append_left new hg, hsubject, hsecret⟩

/-- A replaced row starts unused. -/
theorem LastUsedCurrent.upsertRow {cipher : Cipher} {gs : List Generation} {db : Database}
    (h : LastUsedCurrent cipher gs db) (subject : String) (ct nonce : List UInt8) (now : Nat) :
    LastUsedCurrent cipher gs (upsertRow db subject ct nonce now) := by
  intro other row used hrow hused
  simp only [SecretStore.upsertRow] at hrow
  by_cases heq : other = subject
  · rw [heq, Function.update_self] at hrow
    cases hrow
    cases hused
  · rw [Function.update_of_ne heq] at hrow
    exact h other row used hrow hused

/-- A touch is right if the secret in the row has been used. -/
theorem LastUsedCurrent.touchRow {cipher : Cipher} {gs : List Generation} {db : Database}
    (h : LastUsedCurrent cipher gs db) {g : Generation} (hg : g ∈ gs)
    (hsecret : secretOf cipher db g.subject = some (.ok g.secret)) (now : Nat) :
    LastUsedCurrent cipher gs (touchRow db g.subject now) := by
  intro other row used hrow hused
  simp only [SecretStore.touchRow] at hrow
  by_cases heq : other = g.subject
  · rw [heq, Function.update_self] at hrow
    obtain ⟨row₀, hrow₀, rfl⟩ := Option.map_eq_some_iff.mp hrow
    refine ⟨g, hg, heq.symm, ?_⟩
    rw [secretOf, hrow₀] at hsecret
    exact Option.some.inj hsecret
  · rw [Function.update_of_ne heq] at hrow
    exact h other row used hrow hused

/-! ## Every run

A handler about to touch carries the secret that it has generated a PIN from. What is missing is
that the row still holds this secret; where it does, the mark is right. -/

/-- A handler about to touch has generated a PIN from the secret it carries. -/
def Handler.Generated (gs : List Generation) : Handler → Prop
  | .requestPin user (.touching secret _) => ∃ g ∈ gs, g.subject = user.subject ∧ g.secret = secret
  | _ => True

structure Used (app : AppState) (gs : List Generation) (s : State) : Prop where
  current   : LastUsedCurrent app.cipher gs s.db
  generated : ∀ id h, s.handlers id = some h → h.Generated gs

theorem Used.setHandler {gs : List Generation} {s : State} (h : Used app gs s)
    (new : List Generation) {db : Database} {id : Nat} {handler : Handler}
    (hdb : LastUsedCurrent app.cipher (gs ++ new) db)
    (hhandler : handler.Generated (gs ++ new)) :
    Used app (gs ++ new) ({ s with db }.setHandler id handler) := by
  refine ⟨hdb, State.forall_setHandler (P := fun _ h => h.Generated (gs ++ new)) ?_ hhandler⟩
  intro other h' hother
  have hold := h.generated other h' hother
  unfold Handler.Generated at hold ⊢
  split at hold
  · obtain ⟨g, hg, hrest⟩ := hold
    exact ⟨g, List.mem_append_left new hg, hrest⟩
  · trivial

theorem Used.step {gs : List Generation} {s s' : State} {e : Event} (h : Used app gs s)
    (htouch : TouchesCurrent app s e) (hmoves : Moves app s e s') :
    Used app (gs ++ (generation? app s e).toList) s' := by
  have hcurrent := h.current.mono (generation? app s e).toList
  cases hmoves with
  | requestPin hnew | provision hnew | cancel hold hrunning =>
      exact h.setHandler _ hcurrent trivial
  | @advanceRequest id input user stage stage' db hold hmove =>
      cases hmove with
      | unread | missing | unusable | untouched => exact h.setHandler _ hcurrent trivial
      | @generated secret generated hget hgen =>
          refine h.setHandler _ hcurrent ⟨⟨id, user.subject, secret⟩, ?_, rfl, rfl⟩
          simp [generation?, hold, hget, hgen]
      | denied | issued =>
          refine h.setHandler _ ?_ trivial
          unfold LastUsedCurrent
          rw [totpSecrets_logRequest]
          exact hcurrent
      | @touched secret generated hstatement =>
          refine h.setHandler _ ?_ trivial
          -- the handler's own generation is the one the mark is about
          obtain ⟨g, hg, hsubject, rfl⟩ := h.generated id _ hold
          rw [← hsubject]
          apply hcurrent.touchRow (List.mem_append_left _ hg)
          simpa [TouchesCurrent, hold, hstatement, hsubject] using htouch
  | advanceProvision hold hmove =>
      cases hmove with
      | refused | prepared | rejected => exact h.setHandler _ hcurrent trivial
      | committed hstatement => exact h.setHandler _ (hcurrent.upsertRow _ _ _ _) trivial
      | recorded =>
          refine h.setHandler _ ?_ trivial
          unfold LastUsedCurrent
          rw [totpSecrets_logRequest]
          exact hcurrent

/-- **`last_used_at` describes the current secret**, in every state of every run in which each
applied touch finds the secret that its handler has read. -/
theorem last_used_current {es : List Event} {s : State}
    (htouch : AllSteps (step app) (TouchesCurrent app) State.init es)
    (hrun : run (step app) State.init es = some s) :
    LastUsedCurrent app.cipher (generations app es) s.db := by
  have h : Used app (generations app es) s := by
    apply run_induction_of (P := fun es s => Used app (generations app es) s) _ _ htouch hrun
    · refine ⟨?_, ?_⟩
      · intro subject row used hrow
        cases hrow
      · intro id h hold
        cases hold
    · intro es s e s' hrun ih htouch hstep
      rw [generations, observe_snoc e hrun]
      exact ih.step htouch (moves_of_step hstep)
  exact h.current

/-- A touch with nothing in between. -/
theorem last_used_current_alice :
    ∃ s, run (step demoApp) State.init
        [.provision 0 demoAdmin ⟨"alice"⟩, .advance 0 (smooth 50 rfcSecret),
         .advance 0 (smooth 50 []), .requestPin 1 alice, .advance 1 (smooth 59 []),
         .advance 1 (smooth 59 [])] = some s ∧
      (s.db.totpSecrets "alice").bind SecretRow.lastUsedAt = some 59 ∧
      LastUsedCurrent demoCipher [⟨1, "alice", rfcSecret⟩] s.db := by
  obtain ⟨s, hrun, hused⟩ : ∃ s, run (step demoApp) State.init
      [.provision 0 demoAdmin ⟨"alice"⟩, .advance 0 (smooth 50 rfcSecret),
       .advance 0 (smooth 50 []), .requestPin 1 alice, .advance 1 (smooth 59 []),
       .advance 1 (smooth 59 [])] = some s ∧
      (s.db.totpSecrets "alice").bind SecretRow.lastUsedAt = some 59 := ⟨_, rfl, rfl⟩
  refine ⟨s, hrun, hused, last_used_current ?_ hrun⟩
  -- only the last step is a touch
  refine AllSteps.cons trivial rfl ?_
  refine AllSteps.cons trivial rfl ?_
  refine AllSteps.cons trivial rfl ?_
  refine AllSteps.cons trivial rfl ?_
  refine AllSteps.cons trivial rfl ?_
  exact AllSteps.cons rfl rfl (allSteps_nil _)

/-- Alice's handler reads her secret, an admin replaces it, and then the handler touches the row. -/
def replacedBeforeTouch : List Event :=
  [.provision 0 demoAdmin ⟨"alice"⟩, .advance 0 (smooth 50 rfcSecret), .advance 0 (smooth 50 []),
   .requestPin 1 alice, .advance 1 (smooth 59 []),
   .provision 2 demoAdmin ⟨"alice"⟩, .advance 2 (smooth 59 (List.replicate 20 1)),
   .advance 2 (smooth 59 []), .advance 1 (smooth 59 [])]

/-- **The race.** The new secret is marked as used, and nobody has generated a PIN from it. -/
theorem last_used_replaced :
    ¬ ∀ (es : List Event) (s : State), run (step demoApp) State.init es = some s →
      LastUsedCurrent demoCipher (generations demoApp es) s.db := by
  intro h
  have hgenerations : generations demoApp replacedBeforeTouch = [⟨1, "alice", rfcSecret⟩] := by
    decide +kernel
  obtain ⟨s, row, hrun, hrow, hused, hsecret⟩ : ∃ s row,
      run (step demoApp) State.init replacedBeforeTouch = some s ∧
      s.db.totpSecrets "alice" = some row ∧ row.lastUsedAt = some 59 ∧
      Crypto.decrypt demoCipher row.encryptedSecret row.nonce = .ok (List.replicate 20 1) :=
    ⟨_, _, rfl, rfl, rfl, rfl⟩
  obtain ⟨g, hg, -, hdecrypt⟩ := h replacedBeforeTouch s hrun "alice" row 59 hrow hused
  rw [hgenerations, List.mem_singleton] at hg
  rw [hsecret, hg, Except.ok.injEq] at hdecrypt
  exact absurd hdecrypt (by decide)

end Urheilulaatikko.Server.Routes
