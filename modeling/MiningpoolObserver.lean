import MiningpoolObserver.Library.Tasks
import MiningpoolObserver.Bitcoin
import MiningpoolObserver.Library.HashCollections
import MiningpoolObserver.Library.KeyedTable
import MiningpoolObserver.Processing.Sanctions
import MiningpoolObserver.Tags
import MiningpoolObserver.DaemonModel
import MiningpoolObserver.Processing.Comparison
import MiningpoolObserver.Processing.Builders
import MiningpoolObserver.Daemon
import MiningpoolObserver.Process
import MiningpoolObserver.MainLoop
import MiningpoolObserver.ProcessSpec
import MiningpoolObserver.TemplateBuffer
import MiningpoolObserver.ChainView
import MiningpoolObserver.ParentMatch
import MiningpoolObserver.BlockProgress
import MiningpoolObserver.NoLostTemplate
import MiningpoolObserver.Simulation
import MiningpoolObserver.Retry
import MiningpoolObserver.SanctionedOutputs
import MiningpoolObserver.SanctionMatch
import MiningpoolObserver.SanctionedSpends
import MiningpoolObserver.Threads
import MiningpoolObserver.TagWrites
import MiningpoolObserver.TagRaces
import MiningpoolObserver.Processing.Flags
import MiningpoolObserver.SanctionFlag
import MiningpoolObserver.AddressList
import MiningpoolObserver.UtxoScan
import MiningpoolObserver.Processing.Rounds
import MiningpoolObserver.Processing.ConflictSets
import MiningpoolObserver.BuiltRecords
import MiningpoolObserver.DetailRows
import MiningpoolObserver.Processing.Listing
import MiningpoolObserver.Overlap
import MiningpoolObserver.NoPanic
import MiningpoolObserver.SanctionCounts
import MiningpoolObserver.Processing.Packages
import MiningpoolObserver.BlockCounts
import MiningpoolObserver.TemplateChoice
import MiningpoolObserver.ConflictTags
import MiningpoolObserver.TagUnion
import MiningpoolObserver.Footprint
import MiningpoolObserver.ProcessRecords
import MiningpoolObserver.PoolNames
import MiningpoolObserver.Library.Queries
import MiningpoolObserver.Web
import MiningpoolObserver.MissingSanctioned
import MiningpoolObserver.PageSafety
import MiningpoolObserver.BlockPages
import MiningpoolObserver.TableGaps
import MiningpoolObserver.Library.RefCells
import MiningpoolObserver.Processing.Cells
import MiningpoolObserver.Library.Components
import MiningpoolObserver.Processing.ConflictGroups
import MiningpoolObserver.ConflictComponents
import MiningpoolObserver.Listings
import MiningpoolObserver.Library.Pages
import MiningpoolObserver.Pagination
import MiningpoolObserver.Library.Inversions
import MiningpoolObserver.TagOrder
import MiningpoolObserver.Archive
import MiningpoolObserver.PoolRenames
import MiningpoolObserver.Library.GrowingPages
import MiningpoolObserver.Library.PageWalks
import MiningpoolObserver.ListingWalks
import MiningpoolObserver.ReportWalks
import MiningpoolObserver.CommitMarker
import MiningpoolObserver.WholePages
import MiningpoolObserver.LoopSafety
import MiningpoolObserver.StoredRows
import MiningpoolObserver.Handlers
import MiningpoolObserver.RecordPrefixes
import MiningpoolObserver.SanctionPages
import MiningpoolObserver.SanctionTotals
import MiningpoolObserver.Provenance
import MiningpoolObserver.RetagPasses
import MiningpoolObserver.Library.Interfaces
import MiningpoolObserver.ListingHandlers
