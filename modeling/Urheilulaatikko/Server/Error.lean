import Mathlib.Data.List.Basic

/-!
# `AppError`: what can go wrong with a request

`error.rs` of the server. The `source` of the two variants that carry one is only ever logged; the
client sees the status and a fixed text for it.
-/

namespace Urheilulaatikko.Server

inductive AppError where
  | unauthorized
  | forbidden
  | notFound
  | rateLimited
  | introspectionUnavailable (source : String)
  | internal (source : String)
  deriving DecidableEq, Repr

namespace AppError

/-- The HTTP status `into_response` answers with. -/
def status : AppError → Nat
  | .unauthorized               => 401
  | .forbidden                  => 403
  | .notFound                   => 404
  | .rateLimited                => 429
  | .introspectionUnavailable _ => 503
  | .internal _                 => 500

end AppError

/-! ## Computations that may fail

Peeling an `Except` computation whose end is known, one `←` at a time. -/

theorem bind_eq_ok_iff {ε α β : Type} {x : Except ε α} {f : α → Except ε β} {b : β} :
    x >>= f = .ok b ↔ ∃ a, x = .ok a ∧ f a = .ok b := by
  cases x <;> simp [bind, Except.bind]

theorem bind_eq_error_iff {ε α β : Type} {x : Except ε α} {f : α → Except ε β} {e : ε} :
    x >>= f = .error e ↔ x = .error e ∨ ∃ a, x = .ok a ∧ f a = .error e := by
  cases x <;> simp [bind, Except.bind]

theorem mapError_eq_ok_iff {ε ε' α : Type} {x : Except ε α} {f : ε → ε'} {a : α} :
    x.mapError f = .ok a ↔ x = .ok a := by
  cases x <;> simp [Except.mapError]

theorem mapError_eq_error_iff {ε ε' α : Type} {x : Except ε α} {f : ε → ε'} {e : ε'} :
    x.mapError f = .error e ↔ ∃ e', x = .error e' ∧ f e' = e := by
  cases x <;> simp [Except.mapError]

end Urheilulaatikko.Server
