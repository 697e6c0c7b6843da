import Perigee.AccessControl.Lockdown
import Perigee.AccessControl.Origin
import Perigee.AccessControl.Replay
import Perigee.BasketVault.Deadband
import Perigee.BatchTransfer.Chunks
import Perigee.Cdp.Seizure
import Perigee.ConcentratedAmm.FeeGrowth
import Perigee.ConcentratedAmm.RoundTrip
import Perigee.ConcentratedAmm.SwapStep
import Perigee.CrossChainGovernance.Authenticity
import Perigee.CrossChainGovernance.Lifecycle
import Perigee.CrossChainGovernance.Provenance
import Perigee.CrossChainVerifier.Binding
import Perigee.CrossChainVerifier.Inclusion
import Perigee.DynamicFees.Quote
import Perigee.EnglishAuction.Settlement
import Perigee.Erc4626Vault.SharePrice
import Perigee.Failover.Gate
import Perigee.Parser.Canonical
import Perigee.FeeEngine.Accrual
import Perigee.FeeEngine.History
import Perigee.FeeEngine.Performance
import Perigee.FixedMath.Fixed
import Perigee.FlashLoanVault.Safety
import Perigee.Governance.Lifecycle
import Perigee.Governance.Tally
import Perigee.Guards.Liveness
import Perigee.HybridAmmLob.LimitPrices
import Perigee.HybridAmmLob.Solvency
import Perigee.Idempotency.Claims
import Perigee.Merkle.Binding
import Perigee.Merkle.Completeness
import Perigee.NoncePartition.HighWater
import Perigee.OptionsStrategy.Coverage
import Perigee.OracleAggregator.Liveness
import Perigee.Outbox.Consumer
import Perigee.PolicyVault.RateLimit
import Perigee.PrivateTransfers.Roots
import Perigee.Session.Base32
import Perigee.SignedReceipt.Authentic
import Perigee.StrategyAnalytics.RiskGate
import Perigee.StrategyAnalytics.Series
import Perigee.StrategyComposability.Expansion
import Perigee.TimelockController.Safety
import Perigee.TimelockedEscrow.Safety
import Perigee.Token.Authorization
import Perigee.TwoPhaseCommit.Finality
import Perigee.VaultGuard.Timelock
import Perigee.VaultInsurance.Claims
import Perigee.VaultInsurance.Premiums
import Perigee.VaultMigration.Positions
import Perigee.VaultStrategy.Fees
