import GhostAmm.Lib.Table
import GhostAmm.Lib.Machine
import GhostAmm.Lib.Python
import GhostAmm.Lib.Waterfall
import GhostAmm.Lib.Life
import GhostAmm.Model.Events
import GhostAmm.Model.Config
import GhostAmm.Model.OrderBook
import GhostAmm.Model.FairPrice
import GhostAmm.Model.Shock
import GhostAmm.Model.Rules
import GhostAmm.Model.Inventory
import GhostAmm.Model.QuoteSurface
import GhostAmm.Model.Risk
import GhostAmm.Model.Projector
import GhostAmm.Model.FillModel
import GhostAmm.Model.LiveGates
import GhostAmm.Model.Pipeline
import GhostAmm.Model.Metrics
import GhostAmm.Model.Replay
import GhostAmm.Proofs.Fills
import GhostAmm.Proofs.Orders
import GhostAmm.Proofs.Step
import GhostAmm.Proofs.Lifecycle
import GhostAmm.Proofs.OrderLog
import GhostAmm.Proofs.Orphans
import GhostAmm.Proofs.Balances
import GhostAmm.Proofs.Gates
import GhostAmm.Proofs.Book
import GhostAmm.Proofs.Reports
import GhostAmm.Proofs.LiveOrders
import GhostAmm.Lib.Segments
import GhostAmm.Model.Writer
import GhostAmm.Lib.Cells
import GhostAmm.Model.Split
import GhostAmm.Proofs.Writer
import GhostAmm.Proofs.Splits
import GhostAmm.Proofs.Queue
import GhostAmm.Proofs.Shocks
import GhostAmm.Lib.Window
import GhostAmm.Proofs.Drift
import GhostAmm.Lib.Streams
import GhostAmm.Model.Inspection
import GhostAmm.Proofs.Sequences
import GhostAmm.Lib.Json
import GhostAmm.Model.DryRun
import GhostAmm.Proofs.DryRun
import GhostAmm.Proofs.Ladder
import GhostAmm.Proofs.Crossing
import GhostAmm.Proofs.Priority
import GhostAmm.Proofs.Stores
import GhostAmm.Proofs.Pessimism
import GhostAmm.Proofs.Cooldown
import GhostAmm.Model.PrivateClient
import GhostAmm.Proofs.Observed
import GhostAmm.Proofs.ForcedFlow
import GhostAmm.Proofs.Activation
import GhostAmm.Lib.Median
import GhostAmm.Proofs.FairPrice
import GhostAmm.Model.CcxtGateway
import GhostAmm.Proofs.Sources
import GhostAmm.Proofs.Health
import GhostAmm.Lib.Stable
import GhostAmm.Proofs.Ordering
import GhostAmm.Lib.Text
import GhostAmm.Proofs.Rotation
import GhostAmm.Proofs.Malformed
import GhostAmm.Proofs.Rejections
import GhostAmm.Lib.Grid
import GhostAmm.Proofs.Surface
import GhostAmm.Proofs.Feedback
import GhostAmm.Proofs.Refusals
import GhostAmm.Lib.Peak
import GhostAmm.Proofs.Pnl
import GhostAmm.Proofs.Horizons
import GhostAmm.Proofs.FillRate
import GhostAmm.Proofs.Leftovers
import GhostAmm.Proofs.Steps
import GhostAmm.Model.Status
import GhostAmm.Proofs.Status
import GhostAmm.Lib.Tree
import GhostAmm.Model.ConfigData
import GhostAmm.Proofs.Defaults
import GhostAmm.Lib.Lines
import GhostAmm.Model.SimpleYaml
import GhostAmm.Proofs.RoundTrip
import GhostAmm.Lib.Division
import GhostAmm.Model.Checked
import GhostAmm.Proofs.Checked
import GhostAmm.Proofs.Priced
import GhostAmm.Model.Recorder
import GhostAmm.Proofs.Recording
import GhostAmm.Proofs.Jsonl
import GhostAmm.Proofs.Desk
import GhostAmm.Proofs.ShockTables
import GhostAmm.Proofs.RiskDiagnostics
import GhostAmm.Proofs.PublicDataGate
