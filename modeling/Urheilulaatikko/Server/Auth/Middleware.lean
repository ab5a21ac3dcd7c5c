import Urheilulaatikko.Lib.Text
import Urheilulaatikko.Server.Auth.Introspection

/-!
# The bearer token of a request

The part of `auth/middleware.rs` that does not wait for anything: reading the `Authorization`
header, and which of the errors of `authenticate` are put on record. The two middlewares themselves
are in `Router`.
-/

namespace Urheilulaatikko.Server.Auth

open Text

/-- The bytes of a header. -/
abbrev HeaderValue := List UInt8

/-- `HeaderValue::to_str`: visible ASCII only. -/
def HeaderValue.toStr (value : HeaderValue) : Option String :=
  if value.all fun b => (32 ≤ b && b < 127) || b == 9 then
    some (String.ofList (value.map fun b => Char.ofNat b.toNat))
  else none

/-- `bearer_token`, on the request's `Authorization` header. -/
def bearerToken (authorization : Option HeaderValue) : Option String := do
  let value ← (← authorization).toStr
  let (scheme, token) ← splitOnce value ' '
  if !eqIgnoreAsciiCase scheme "bearer" then none
  else
    let token := trim token
    if token = "" then none else some token

example : bearerToken (some "bEaReR abc".toUTF8.toList) = some "abc" := by decide +kernel

example : bearerToken (some "Bearer   ".toUTF8.toList) = none := by decide +kernel

example : bearerToken (some "abc".toUTF8.toList) = none := by decide +kernel

/-- The errors that say something about the caller: `require_authentication` records these. -/
def isRejection : AppError → Bool
  | .unauthorized | .forbidden => true
  | _ => false

end Urheilulaatikko.Server.Auth
