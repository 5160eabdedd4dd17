import FeatureFlags.Go.Basic

/-!
# Limits

The bounds of `definition.go`.  They are Go `int`s and the constructors do not validate them, so a
limit may be negative.
-/

namespace FeatureFlags

/-- Explicit count, byte and depth bounds. -/
structure Limits where
  maxFeatures : Int
  maxVariants : Int
  maxDependencies : Int
  maxGroups : Int
  maxTags : Int
  maxMetadata : Int
  maxAuditEntries : Int
  maxAttributes : Int
  maxFacts : Int
  maxStrategies : Int
  maxTargetValues : Int
  maxScheduleWindows : Int
  maxEvaluationDepth : Int
  maxBatchSize : Int
  maxGroupDepth : Int
  maxStringBytes : Int
  maxStructuredBytes : Int
  maxContextKeyBytes : Int
  maxContextValueBytes : Int
  maxKeyBytes : Int
  maxDiagnostics : Int
  maxDiagnosticBytes : Int
  maxImportBytes : Int
  maxStateBytes : Int
  maxStorageRetries : Int
  maxStagedChanges : Int
deriving DecidableEq

def defaultLimits : Limits where
  maxFeatures := 10000
  maxVariants := 100
  maxDependencies := 32
  maxGroups := 32
  maxTags := 64
  maxMetadata := 64
  maxAuditEntries := 10000
  maxAttributes := 128
  maxFacts := 128
  maxStrategies := 128
  maxTargetValues := 10000
  maxScheduleWindows := 128
  maxEvaluationDepth := 64
  maxBatchSize := 256
  maxGroupDepth := 32
  maxStringBytes := 8 * 1024
  maxStructuredBytes := 1024 * 1024
  maxContextKeyBytes := 256
  maxContextValueBytes := 8 * 1024
  maxKeyBytes := 256
  maxDiagnostics := 16
  maxDiagnosticBytes := 256
  maxImportBytes := 16 * 1024 * 1024
  maxStateBytes := 32 * 1024 * 1024
  maxStorageRetries := 8
  maxStagedChanges := 1000

end FeatureFlags
