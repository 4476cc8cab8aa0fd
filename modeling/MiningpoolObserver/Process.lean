import MiningpoolObserver.Daemon
import MiningpoolObserver.Processing.Comparison
import MiningpoolObserver.Processing.Builders

namespace MiningpoolObserver.Process

open MiningpoolObserver.Library.CallTree MiningpoolObserver.Library.HashCollections
open MiningpoolObserver.Bitcoin MiningpoolObserver.DaemonModel MiningpoolObserver.Db
open MiningpoolObserver.Daemon MiningpoolObserver.Processing.Comparison
open MiningpoolObserver.Processing.Sanctions MiningpoolObserver.Processing.Transactions
open MiningpoolObserver.Processing.Conflicts MiningpoolObserver.Processing.Builders

/-- How a call of process ends without clearing the templates. -/
inductive Abort where
  | returned
  | panicked (p : Panic)
deriving DecidableEq

/-- A part of process: it goes on with a value, or ends the call. -/
abbrev Routine (α : Type) := Prog signature (Except Abort α)

def orPanic {α : Type} : Except Panic α → Routine α
  | .ok a => .done (.ok a)
  | .error p => .done (.error (.panicked p))

def returnOnError {α : Type} : Except DbError α → Except Abort α
  | .ok a => .ok a
  | .error _ => .error .returned

/-- A statement whose failure is logged and ends the call. -/
def orReturn (s : Statement) : Routine s.Result :=
  (execute s).bind (fun r => .done (returnOnError r))

/-- `db_pool.get()`, tried twice. -/
def getConnection : Routine Unit :=
  .call .poolGet (fun r => match (r : Except String Unit) with
    | .ok () => .done (.ok ())
    | .error _ => .call .poolGet (fun r => match (r : Except String Unit) with
      | .ok () => .done (.ok ())
      | .error _ => .done (.error .returned)))

/-- The address list and the UTXO map that a call works with. -/
structure Sanctions where
  addresses : HashSet String
  utxoMap : UtxoMap

def addressesOfReply : Reply (.sql .sanctionedAddresses) → HashSet String
  | .ok t => HashSet.collect (t.rows.map (fun a => a.address))
  | .error _ => HashSet.empty

def utxoMapOfReply : Reply (.sql .getSanctionedUtxos) → UtxoMap
  | .ok t => buildOutpointToSanctionedUtxoMap t.rows
  | .error _ => buildOutpointToSanctionedUtxoMap []

/-- A list that cannot be loaded counts as empty. -/
def loadSanctions : Routine Sanctions :=
  .call (.sql .sanctionedAddresses) (fun addresses =>
    .call (.sql .getSanctionedUtxos) (fun utxos =>
      .done (.ok ⟨addressesOfReply addresses, utxoMapOfReply utxos⟩)))

variable (lib : Crates) (rs : RandomState) (network : Network)

/-- What process computes from its arguments before it asks for a connection. -/
structure Comparison where
  blockTxData : BlockTxData
  template : GetBlockTemplateResult
  templateTxData : TemplateTxData
  templateTxPackages : List TxPackage
  blockTxPackages : List TxPackage
  txidsOnlyInBlock : HashSet Txid
  txidsOnlyInTemplate : HashSet Txid
  sharedTx : Nat

def compareBlock (block : Bitcoin.Block) (blockTxFees : GetBlockTxFeesResult)
    (lastTemplates : List GetBlockTemplateResult) : Except Panic Comparison := do
  let blockTxData ← buildBlockTxData lib block blockTxFees
  let template ← selectBestTemplateForBlock lastTemplates blockTxData.txids
  let templateTxData := buildTemplateTxData lib template
  let templateTxPackages ← buildPackages lib templateTxData.txinfos
  let blockTxPackages ← buildPackages lib blockTxData.txinfos
  pure
    { blockTxData := blockTxData
      template := template
      templateTxData := templateTxData
      templateTxPackages := templateTxPackages
      blockTxPackages := blockTxPackages
      txidsOnlyInBlock := blockTxData.txids.difference templateTxData.txids
      txidsOnlyInTemplate := templateTxData.txids.difference blockTxData.txids
      sharedTx := (blockTxData.txids.intersection templateTxData.txids).len }

def blockNumbers (blockTxFees : GetBlockTxFeesResult) (c : Comparison)
    (sanctionedMissingTx : Nat) : BlockNumbers where
  templatePkgWeights := c.templateTxPackages.map (fun p => Int64.ofNat (p.weight lib))
  templatePkgFeerates := c.templateTxPackages.map (fun p => p.feerate lib)
  blockPkgWeights := c.blockTxPackages.map (fun p => Int64.ofNat (p.weight lib))
  blockPkgFeerates := c.blockTxPackages.map (fun p => p.feerate lib)
  missingTx := Int32.ofNat c.txidsOnlyInTemplate.len
  sanctionedMissingTx := Int32.ofNat sanctionedMissingTx
  extraTx := Int32.ofNat c.txidsOnlyInBlock.len
  sharedTx := Int32.ofNat c.sharedTx
  blockFees := (blockTxFees.tx.map (fun (tx : GetBlockTxFee) => tx.fee)).sum
  templateFees :=
    (c.template.transactions.map (fun (tx : GetBlockTemplateResultTransaction) => tx.fee)).sum

/-- Build the block row and insert it. -/
def recordBlock (block : Bitcoin.Block) (blockTxFees : GetBlockTxFeesResult) (c : Comparison)
    (s : Sanctions) : Routine Int64 :=
  (orPanic (getSanctionedMissingTxCount lib c.txidsOnlyInTemplate c.templateTxData s.utxoMap
    s.addresses)).andThen (fun sanctionedMissingTx =>
      .call .lockPools (fun pools => .call .utcNow (fun now =>
        (orPanic (buildBlock lib block c.template c.templateTxData.txidToTxinfoMap
          (blockNumbers lib blockTxFees c sanctionedMissingTx) s.utxoMap s.addresses pools network
          now)).andThen (fun b => orReturn (.insertBlock b)))))

/-- Seconds in the mempool, or -1 where the node does not know the transaction. -/
def mempoolAges (now : Int64) :
    List Txid → HashMap Txid Int32 → Prog signature (HashMap Txid Int32)
  | [], ages => .done ages
  | txid :: txids, ages =>
    .call (.getMempoolEntry txid) (fun r => match (r : Except String UInt64) with
      | .ok time => mempoolAges now txids (ages.insert txid (now - time.toInt64).toInt32)
      | .error _ => mempoolAges now txids (ages.insert txid (-1)))

def mempoolAgeSeconds (txidsOnlyInTemplate : HashSet Txid) :
    Prog signature (HashMap Txid Int32) :=
  .call .localNow (fun now => mempoolAges now (txidsOnlyInTemplate.iter rs) HashMap.empty)

/-- The detail rows of a block. -/
structure Records where
  transactions : TransactionMap
  onlyInBlock : List SharedModel.TransactionOnlyInBlock
  onlyInTemplate : List SharedModel.TransactionOnlyInTemplate
  sanctionedInfos : List SharedModel.SanctionedTransactionInfo
  conflicting : List SharedModel.ConflictingTransaction
  debugInfos : List SharedModel.DebugTemplateSelectionInfo

/-- The builders that run once the mempool ages are known. -/
def buildRows (blockId : Int64) (c : Comparison) (s : Sanctions)
    (lastTemplates : List GetBlockTemplateResult)
    (conflicting : List SharedModel.ConflictingTransaction × TransactionMap)
    (ages : HashMap Txid Int32) : Except Panic Records := do
  let onlyInTemplate ← buildTransactionsOnlyInTemplate lib rs blockId c.txidsOnlyInTemplate
    c.templateTxData.txidToTxinfoMap ages conflicting.2 s.utxoMap s.addresses
  let onlyInBlock ← buildTransactionsOnlyInBlock lib rs blockId c.txidsOnlyInBlock
    c.blockTxData.txidToTxinfoMap onlyInTemplate.2 s.utxoMap s.addresses
  let sanctionedInfos ← buildSanctionedTransactionInfos lib rs blockId c.blockTxData
    c.templateTxData.txids c.templateTxData.txidToTxinfoMap c.txidsOnlyInBlock s.utxoMap
    s.addresses onlyInBlock.2
  let debugInfos ← buildDebugTemplateSelectionInfos lib blockId lastTemplates
    c.blockTxData.txids c.template.currentTime
  pure
    { transactions := sanctionedInfos.2
      onlyInBlock := onlyInBlock.1
      onlyInTemplate := onlyInTemplate.1
      sanctionedInfos := sanctionedInfos.1
      conflicting := conflicting.1
      debugInfos := debugInfos }

def buildRecords (blockId : Int64) (c : Comparison) (s : Sanctions)
    (lastTemplates : List GetBlockTemplateResult) : Routine Records :=
  (orPanic (buildConflictingTransactions lib rs blockId c.txidsOnlyInTemplate
    c.templateTxData.txidToTxinfoMap c.txidsOnlyInBlock c.blockTxData.txidToTxinfoMap
    HashMap.empty s.utxoMap s.addresses)).andThen (fun conflicting =>
      (mempoolAgeSeconds rs c.txidsOnlyInTemplate).bind (fun ages =>
        orPanic (buildRows lib rs blockId c s lastTemplates conflicting ages)))

/-- The union of the stored tags and the new ones, through a hash set. -/
def unionTags (dbTxTags newTags : List Int) : List Int :=
  (HashSet.collect (dbTxTags ++ newTags)).elems.insertionSort (· ≤ ·)

/-- Give a transaction that was in the database the new tags as well. -/
def mergeInto (tx : SharedModel.Transaction) (dbTxTags : List Int) :
    Prog signature (Except DbError Unit) :=
  if dbTxTags ≠ tx.tags then
    execute (.updateTransactionTags (unionTags dbTxTags tx.tags) tx.txid)
  else .done (.ok ())

/-- Merge the tags of the transactions that were in the database already. -/
def mergeTags (inserted : HashSet (List UInt8)) :
    List SharedModel.Transaction → Prog signature (Except DbError Unit)
  | [] => .done (.ok ())
  | tx :: txns =>
    if tx.txid ∈ inserted then mergeTags inserted txns
    else (execute (.selectTransactionTags tx.txid)).andThen (fun dbTxTags =>
      (mergeInto tx dbTxTags).andThen (fun _ => mergeTags inserted txns))

def insertTransactions (txns : List SharedModel.Transaction) :
    Prog signature (Except DbError Unit) :=
  (execute (.insertTransactions txns)).andThen (fun (insertedTxids : List (List UInt8)) =>
    let inserted := HashSet.collect insertedTxids
    let txids := HashSet.collect (txns.map (fun tx => tx.txid))
    if inserted.len ≠ txids.len then mergeTags inserted txns else .done (.ok ()))

/-- Nothing is inserted when the block creates no sanctioned output. -/
def recordNewUtxos (utxos : List SharedModel.SanctionedUtxo) : Routine Unit :=
  if utxos.isEmpty then .done (.ok ()) else orReturn (.insertSanctionedUtxos utxos)

def storeRecords (r : Records) (newlySanctionedUtxos : List SharedModel.SanctionedUtxo) :
    Routine Unit :=
  ((insertTransactions (r.transactions.values rs)).bind
    (fun x => .done (returnOnError x))).andThen (fun _ =>
  (orReturn (.insertTransactionsOnlyInBlock r.onlyInBlock)).andThen (fun _ =>
  (orReturn (.insertTransactionsOnlyInTemplate r.onlyInTemplate)).andThen (fun _ =>
  (orReturn (.insertSanctionedTransactionInfos r.sanctionedInfos)).andThen (fun _ =>
  (orReturn (.insertConflictingTransactions r.conflicting)).andThen (fun _ =>
  (recordNewUtxos newlySanctionedUtxos).andThen (fun _ =>
  orReturn (.insertDebugTemplateSelectionInfos r.debugInfos)))))))

/-- A call that ends well has cleared the templates; any other leaves them as they were. -/
def process (block : Bitcoin.Block) (blockTxFees : GetBlockTxFeesResult)
    (lastTemplates : List GetBlockTemplateResult) : Routine Unit :=
  (orPanic (compareBlock lib block blockTxFees lastTemplates)).andThen (fun c =>
  getConnection.andThen (fun _ =>
  loadSanctions.andThen (fun s =>
  (recordBlock lib network block blockTxFees c s).andThen (fun blockId =>
  (buildRecords lib rs blockId c s lastTemplates).andThen (fun r =>
  storeRecords rs r (buildNewlyCreatedSanctionedUtxos lib block s.addresses))))))

end MiningpoolObserver.Process
