import Mathlib.Data.List.AList

/-!
# The error catalog

Every failure an adapter or the host reports is an `ErrorEnvelope` carrying one code of a closed
catalog. Routing reacts to the code (`isRetriableElsewhere`) and to private markers in the
extension map, which is why the map is part of the model.
-/

namespace TokenStation

/-- A JSON document. A number is kept as its literal. -/
inductive JsonValue where
  | null
  | bool (value : Bool)
  | number (literal : String)
  | string (text : String)
  | array (items : List JsonValue)
  | object (members : List (String × JsonValue))
  deriving Repr, Inhabited

namespace JsonValue

/-- Whether the value is the literal `true`. -/
def isTrue : JsonValue → Bool
  | bool value => value
  | _ => false

end JsonValue

/-- Unknown or host-private members of a protocol object, keyed by name. -/
abbrev Extensions := AList fun _ : String ↦ JsonValue

/-- The stable error catalog. -/
inductive ErrorCode where
  | invalidRequest
  | auth
  | paymentRequired
  | rateLimit
  | capacity
  | capability
  | contentPolicy
  | upstreamUnavailable
  | transportTruncated
  | contextLength
  | providerProtocolError
  | timeout
  | internal
  deriving DecidableEq, Repr

namespace ErrorCode

/-- Whether the host may retry this failure on a different upstream. -/
def isRetriableElsewhere : ErrorCode → Bool
  | rateLimit | capacity | upstreamUnavailable | transportTruncated | providerProtocolError
  | timeout => true
  | _ => false

end ErrorCode

/-- A failure, normalized. -/
structure ErrorEnvelope where
  code : ErrorCode
  /-- The status the host presents to the caller. -/
  httpStatus : ℕ
  message : String
  providerMessage : Option String := none
  retryAfterMs : Option ℕ := none
  extensions : Extensions := ∅

namespace ErrorEnvelope

/-- `ErrorEnvelope::new`. -/
def new (code : ErrorCode) (httpStatus : ℕ) (message : String) : ErrorEnvelope :=
  { code, httpStatus, message }

end ErrorEnvelope

end TokenStation
