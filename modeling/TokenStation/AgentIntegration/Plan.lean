import TokenStation.AgentIntegration.OwnedValues

/-!
# Prepared plans

A change is shown before it is made. The plan that is held meanwhile says what the files were, what
they are to be, and, unless it is a new connection, which record of ownership it was made from.
-/

namespace TokenStation

inductive PlanIntent where
  | connect
  | disconnect
  | restore
  deriving DecidableEq

inductive CompatibilityStatus where
  | notDetected
  | detectedVerified
  | detectedUnknown
  | detectedBlocked
  | installedBroken
  | multipleInstallations
  | connected
  deriving DecidableEq

inductive ConfirmationKind where
  | installation
  | targetConfig
  | configurationDiff
  deriving DecidableEq

/-- The part of a plan that is shown. -/
structure ConfigChangePlan where
  operationId : String
  intent : PlanIntent
  agentId : String
  installationPath : String
  targetConfigPath : String
  targetExisted : Bool
  beforeHash : String
  expectedAfterHash : String
  ownedPaths : List ConfigPath
  connectorId : String
  compatibilityStatus : CompatibilityStatus
  compatibilitySequence : ℕ
  compatibilityExpiresAtMs : Option ℕ
  createdAtMs : ℕ
  expiresAtMs : ℕ
  requiredConfirmations : List ConfirmationKind

/-- What a plan does to a companion file. -/
structure PreparedFileProjection where
  targetPath : String
  targetExisted : Bool
  beforeHash : String
  expectedAfterHash : String
  projectedBytes : Bytes
  format : DocumentFormat
  label : String
  ownedPaths : List ConfigPath
  sensitivePaths : List ConfigPath

inductive OwnershipDisposition where
  | remove
  | update
  deriving DecidableEq

/-- The record that a plan was made from, and what is to become of it. -/
structure PlanOwnershipBinding where
  record : OwnershipRecord
  disposition : OwnershipDisposition

structure PreparedChangePlan where
  view : ConfigChangePlan
  projectedBytes : Bytes
  format : DocumentFormat
  label : String
  ownership : Option PlanOwnershipBinding
  companions : List PreparedFileProjection

namespace PreparedChangePlan

/-- The key of the record that a plan is about. -/
def ownershipKey (plan : PreparedChangePlan) : OwnershipKey :=
  ⟨plan.view.agentId, plan.view.installationPath, plan.view.targetConfigPath⟩

end PreparedChangePlan

end TokenStation
