import FeatureFlags.Backends
import FeatureFlags.Fleet

/-!
# Loading snapshots from a provider

`fleet.go`: `ProviderSnapshotLoader`, which makes candidates for a fleet of the snapshots of a
provider.  The revision of a candidate is the digest of the exported snapshot.  What the provider
returns and what the clock shows is told to each call.
-/

namespace FeatureFlags

open Go

structure ProviderSnapshotLoader where
  provenance : Bytes
deriving DecidableEq

/-- `NewProviderSnapshotLoader`; the provider and the clock are there or nil. -/
def newProviderSnapshotLoader (provider clock : Bool) (provenance : Bytes) :
    Except GoError ProviderSnapshotLoader := do
  rejectIf
    (provider = false ∨ clock = false ∨ provenance = [] ∨ len provenance > maxFleetIdentityLength)
    (.errorf "provider loader dependencies and provenance are invalid" [])
  return ⟨provenance⟩

variable {κ : Type} [CustomStrategy κ] [Runtime]

/-- `Load`; `provided` is what `provider.Snapshot` returns. -/
def ProviderSnapshotLoader.load (loader : ProviderSnapshotLoader) (ord : MapOrder)
    (provided : Except GoError (Snapshot κ)) (now : Time) :
    Except GoError (SnapshotCandidate κ) := do
  let snapshot ← provided
  let definitions := (snapshot.definitions.range ord).map Prod.snd
  let groups := (snapshot.groups.range ord).map Prod.snd
  let document ← Export ord definitions groups snapshot.limits
  return {
    snapshot := some snapshot
    -- `%x` prints the digits that `hex.EncodeToString` does
    revision := Valkey.hexEncode (Runtime.sha256 document)
    provenance := loader.provenance
    sourceTime := now }

end FeatureFlags
