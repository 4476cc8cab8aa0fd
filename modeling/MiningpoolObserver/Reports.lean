import MiningpoolObserver.Web

namespace MiningpoolObserver.Reports

open MiningpoolObserver.Library.CallTree MiningpoolObserver.Library.HashCollections
open MiningpoolObserver.Library.KeyedTable MiningpoolObserver.Library.Queries
open MiningpoolObserver.Library.Fallible
open MiningpoolObserver.Bitcoin MiningpoolObserver.SharedModel MiningpoolObserver.Db
open MiningpoolObserver.Web

def MAX_UTXOSET_SCANS_PER_PAGE : Nat := 100

structure PoolSanctionedTableEntry where
  poolName : String
  inBoth : Int64
  onlyInBlock : Int64
  onlyInTemplate : Int64
deriving DecidableEq

/-- The SELECTs behind the debug pages, the overviews and the FAQ. -/
inductive Report where
  | pools
  | unknownPoolBlocks
  | debugSanctionedTable
  | blocksWithMissingSanctioned
  | blocksWithSanctionedTx
  | sanctionedAddresses
  | recentScanInfo
  | scanInfoPage (page : UInt32)
  | scanCount
  /-- The ids of the blocks of one page that have debug records, the largest first. -/
  | debugBlockIds (page : UInt32)
  | debugInfos (blockIds : List Int64)
  | debugBlocks (blockIds : List Int64)
  | debugBlockCount

abbrev Report.Result : Report → Type
  | .pools | .sanctionedAddresses => List String
  | .debugSanctionedTable => List PoolSanctionedTableEntry
  | .unknownPoolBlocks | .blocksWithMissingSanctioned | .blocksWithSanctionedTx =>
    List SharedModel.Block
  | .recentScanInfo => SanctionedUtxoScanInfo
  | .scanInfoPage _ => List SanctionedUtxoScanInfo
  | .scanCount => List Int64
  | .debugBlockIds _ => List Int64
  | .debugInfos _ => List DebugTemplateSelectionInfo
  | .debugBlocks _ => List SharedModel.Block
  | .debugBlockCount => List Int64

variable (db : Database)

/-- The rows that QUERY_DEBUG_SANCTIONED_TABLE_TOTAL groups, with the names of their pools. -/
def pooledInfos : List (SanctionedTransactionInfo × String) :=
  (innerJoin (fun info block => block.id = info.blockId) db.sanctionedTransactionInfo.rows
    db.block.rows).map (fun (info, block) => (info, block.poolName))

/-- `COUNT(CASE WHEN .. THEN 1 END)` over the rows of a pool. -/
def countPooled (poolName : String) (inBlock inTemplate : Bool) : Int64 :=
  Int64.ofNat ((pooledInfos db).countP (fun (info, name) => name = poolName &&
    (info.inBlock == inBlock && info.inTemplate == inTemplate)))

def tableEntry (poolName : String) : PoolSanctionedTableEntry where
  poolName := poolName
  inBoth := countPooled db poolName true true
  onlyInBlock := countPooled db poolName true false
  onlyInTemplate := countPooled db poolName false true

/-- The blocks with debug records. -/
def debuggedIds : List Int64 := (db.debugTemplateSelection.rows.map (fun r => r.blockId)).dedup

/-- Run one SELECT. The random state orders what `ORDER BY` leaves open, and names, which the
collation of the database orders. -/
def Report.exec (rs : RandomState) : (s : Report) → Except DbError s.Result
  | .pools => .ok (rs.order (db.block.rows.map (fun block => block.poolName)).dedup)
  | .unknownPoolBlocks =>
    .ok (orderDesc (fun block => block.blockTime)
      (rs.order (db.block.rows.filter (fun block => block.poolName = "Unknown"))))
  | .debugSanctionedTable =>
    .ok (rs.order (((pooledInfos db).map Prod.snd).dedup.map (tableEntry db)))
  | .blocksWithMissingSanctioned =>
    .ok (orderDesc (fun block => block.blockTime)
      (rs.order (db.block.rows.filter (fun block => 0 < block.sanctionedMissingTx))))
  | .blocksWithSanctionedTx =>
    .ok (orderDesc (fun block => block.blockTime) (rs.order (db.block.rows.filter
      (fun block => 0 < block.templateSanctioned || 0 < block.blockSanctioned))))
  | .sanctionedAddresses => .ok ((rs.order db.sanctionedAddresses.rows).map (fun a => a.address))
  | .recentScanInfo => firstOf (orderDesc (fun info => info.endTime)
      (rs.order db.sanctionedUtxoScanInfo.rows)).head?
  | .scanInfoPage n =>
    .ok (page MAX_UTXOSET_SCANS_PER_PAGE n.toNat
      (orderDesc (fun info => info.endTime) (rs.order db.sanctionedUtxoScanInfo.rows)))
  | .scanCount => .ok [Int64.ofNat db.sanctionedUtxoScanInfo.rows.length]
  | .debugBlockIds n =>
    .ok (page MAX_BLOCKS_PER_PAGE n.toNat (orderDesc id (rs.order (debuggedIds db))))
  | .debugInfos blockIds =>
    .ok (orderDesc (fun info => info.templateTime) (rs.order
      (db.debugTemplateSelection.rows.filter (fun info => info.blockId ∈ blockIds))))
  | .debugBlocks blockIds =>
    .ok (orderDesc (fun block => block.blockTime)
      (rs.order (db.block.rows.filter (fun block => block.id ∈ blockIds))))
  | .debugBlockCount => .ok [Int64.ofNat (debuggedIds db).length]

abbrev reportSignature : Signature := ⟨Report, fun s => Except DbError s.Result⟩

abbrev ReportQuery (α : Type) := Prog reportSignature (Except Failure α)

def loadReport (s : Report) : ReportQuery s.Result := .call s (fun r =>
  .done (r.mapError .database))

def pools : ReportQuery (List String) := loadReport .pools

def unknownPoolBlocks : ReportQuery (List SharedModel.Block) := loadReport .unknownPoolBlocks

def debugSanctionedTable : ReportQuery (List PoolSanctionedTableEntry) :=
  loadReport .debugSanctionedTable

def blocksWithMissingSanctioned : ReportQuery (List SharedModel.Block) :=
  loadReport .blocksWithMissingSanctioned

def debugTemplatesAndBlocksWithSanctionedTx : ReportQuery (List SharedModel.Block) :=
  loadReport .blocksWithSanctionedTx

def sanctionedAddresses : ReportQuery (List String) := loadReport .sanctionedAddresses

def maxScanPages (count : Int64) : UInt32 :=
  (Library.Binary32.ceil (Library.Binary32.ofInt64 count /
    Library.Binary32.ofInt64 (Int64.ofNat MAX_UTXOSET_SCANS_PER_PAGE))).toUInt32

def sanctionedUtxoScanInfos (n : UInt32) : ReportQuery (List SanctionedUtxoScanInfo × UInt32) :=
  (loadReport (.scanInfoPage n)).andThen (fun infos =>
    (loadReport .scanCount).andThen (fun (counts : List Int64) =>
      .done (do
        let scanCount ← unwrap counts.head?
        pure (infos, maxScanPages scanCount))))

structure DebugTemplateSelectionInfosAndBlock where
  block : SharedModel.Block
  infos : List DebugTemplateSelectionInfo

def debugTemplateSelectionInfos (n : UInt32) :
    ReportQuery (List DebugTemplateSelectionInfosAndBlock × UInt32) :=
  (loadReport (.debugBlockIds n)).andThen (fun (blockIds : List Int64) =>
    (loadReport (.debugInfos blockIds)).andThen (fun (infos : List DebugTemplateSelectionInfo) =>
      (loadReport (.debugBlocks blockIds)).andThen (fun (blocks : List SharedModel.Block) =>
        let infosAndBlocks := blocks.map (fun b =>
          { block := b
            infos := infos.filter (fun info => info.blockId = b.id) :
              DebugTemplateSelectionInfosAndBlock })
        (loadReport .debugBlockCount).andThen (fun (counts : List Int64) =>
          .done (do
            let infosCount ← unwrap counts.head?
            pure (infosAndBlocks, maxPages infosCount))))))

/-- The reports are read while the daemon writes, as the other pages are. -/
def reporting {σ : Type} [Preorder σ] (dbs : σ → Database) : Environment reportSignature σ where
  drift i j := i ≤ j
  answer i s r j := j = i ∧ ((∃ e, r = .error e) ∨ ∃ rs, r = s.exec (dbs i) rs)
  drift_refl := le_refl
  drift_trans _ _ _ := le_trans

end MiningpoolObserver.Reports
