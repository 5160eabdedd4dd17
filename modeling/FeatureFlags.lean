import FeatureFlags.Equiv.Degraded
import FeatureFlags.Equiv.Shutdown
import FeatureFlags.Equiv.RefreshRate
import FeatureFlags.Equiv.Isolation
import FeatureFlags.Equiv.LoadBudget
import FeatureFlags.Equiv.Convergence
import FeatureFlags.Equiv.Eviction
import FeatureFlags.Equiv.Adapter
import FeatureFlags.Equiv.Strategy
import FeatureFlags.Equiv.Diagnostics
import FeatureFlags.Equiv.Graphs
import FeatureFlags.Equiv.Revision
import FeatureFlags.Equiv.DurableImport
