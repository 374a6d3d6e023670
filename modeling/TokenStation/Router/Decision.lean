import TokenStation.Router.Features

/-!
# Where a request goes, and why

A decision carries the target that was chosen, the ones to try after it, and the layer of the
router that decided. It holds no text of the request: the strings in it come from the
configuration.
-/

namespace TokenStation

/-- The accepted shape of an upstream's name, `[a-z][a-z0-9_]*`. -/
def isReferenceName (name : String) : Bool :=
  match name.toList with
  | [] => false
  | first :: rest => first.isLower && rest.all fun c ↦ c.isLower || c.isDigit || c == '_'

/-- The name of an upstream the operator configured, too narrow to be mistaken for a credential. -/
structure UpstreamRef where
  name : String
  shaped : isReferenceName name = true
  deriving DecidableEq

namespace UpstreamRef

/-- `UpstreamRef::new`; the error is the refused name. -/
def new (name : String) : Except String UpstreamRef :=
  if h : isReferenceName name = true then .ok ⟨name, h⟩ else .error name

end UpstreamRef

/-- One place a request can be sent: an upstream, and a model on it. -/
structure UpstreamModel where
  upstream : UpstreamRef
  model : String
  deriving DecidableEq

/-- Which layer of the router decided, and on what. -/
inductive DecidedBy where
  | rule (rule : String)
  | hint (kind : HintKind) (value : String)
  | heuristic (score threshold : ℕ)
  | default
  | exactModel (model : String)
  | quota
  deriving DecidableEq

/-- Where a request is going, why, and what to try if it fails. -/
structure Decision where
  chosen : UpstreamModel
  decidedBy : DecidedBy
  fallbacks : List UpstreamModel
  features : RequestFeatures
  pool : String
  deriving DecidableEq

/-- The targets of a decision, in the order they are tried. -/
def Decision.targets (decision : Decision) : List UpstreamModel :=
  decision.chosen :: decision.fallbacks

/-- The first thing about a request that no candidate could satisfy. -/
inductive UnmetRequirement where
  | unknown
  | tools
  | vision
  | jsonSchema
  | contextWindow (needed : ℕ)
  | exactModelUnavailable
  | localOnly
  deriving DecidableEq, Repr

/-- Why nothing could be routed to. -/
inductive NoRoute where
  /-- No candidate in the pool can do what the request needs. -/
  | unsatisfiable (pool : String) (reason : UnmetRequirement)
  /-- Capable candidates exist, and every one of them is out of rotation. -/
  | unavailable (pool : String)
  deriving DecidableEq, Repr

/-- What the host answers the caller with. -/
def NoRoute.errorCode : NoRoute → ErrorCode
  | unsatisfiable _ _ => .capability
  | unavailable _ => .capacity

end TokenStation
