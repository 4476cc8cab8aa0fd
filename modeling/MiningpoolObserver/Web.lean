import Mathlib.Data.List.Dedup
import MiningpoolObserver.Library.Binary32
import MiningpoolObserver.Library.CallTree
import MiningpoolObserver.Library.Fallible
import MiningpoolObserver.Library.HashCollections
import MiningpoolObserver.Library.Queries
import MiningpoolObserver.Db

namespace MiningpoolObserver.Web

open MiningpoolObserver.Library MiningpoolObserver.Library.CallTree
open MiningpoolObserver.Library.Fallible
open MiningpoolObserver.Library.HashCollections
open MiningpoolObserver.Library.KeyedTable MiningpoolObserver.Library.Queries
open MiningpoolObserver.Bitcoin MiningpoolObserver.SharedModel MiningpoolObserver.Db

def MAX_BLOCKS_PER_PAGE : Nat := 25

/-- The SELECTs of the web process. -/
inductive Select where
  /-- The blocks of one page, the latest first. -/
  | blockPage (page : UInt32)
  | blockCount
  | blockPageByPool (pool : String) (page : UInt32)
  | blockCountByPool (pool : String)
  | block (blockHash : List UInt8)
  | thisBlockId (blockHash : List UInt8)
  | transactionOnlyInTemplateByBlockId (blockId : Int64)
  | transactionOnlyInBlockByBlockId (blockId : Int64)
  /-- The blocks with conflicts of one page, with their heights. -/
  | conflictingBlocks (page : UInt32)
  | conflictingBlockCount
  | conflictingTransactions (blockIds : List Int64)
  | transactions (txids : List (List UInt8))
  | transaction (txid : List UInt8)
  | blocks (ids : List Int64)
  | blocksByIdDesc (ids : List Int64)
  | sanctionedMissing (blockId : Int64)
  | countMissingTransactions
  | missingTransactions (page : UInt32)
  | onlyInTemplate (txids : List (List UInt8))

abbrev Select.Result : Select → Type
  | .blockPage _ | .blockPageByPool _ _ => List SharedModel.Block
  | .blockCount | .blockCountByPool _ => List Int64
  | .block _ => SharedModel.Block
  | .thisBlockId _ => Int64
  | .transactionOnlyInTemplateByBlockId _ =>
    List (TransactionOnlyInTemplate × SharedModel.Transaction)
  | .transactionOnlyInBlockByBlockId _ => List (TransactionOnlyInBlock × SharedModel.Transaction)
  | .conflictingBlocks _ => List (Int64 × Int32)
  | .conflictingBlockCount => List Int64
  | .conflictingTransactions _ => List ConflictingTransaction
  | .transactions _ => List SharedModel.Transaction
  | .transaction _ => SharedModel.Transaction
  | .blocks _ | .blocksByIdDesc _ => List SharedModel.Block
  | .sanctionedMissing _ =>
    List (SharedModel.Transaction × SanctionedTransactionInfo × TransactionOnlyInTemplate)
  | .countMissingTransactions => List Int64
  | .missingTransactions _ => List (List UInt8)
  | .onlyInTemplate _ => List TransactionOnlyInTemplate

variable (db : Database)

/-- The rows that QUERY_MISSING_TRANSACTIONS counts: not at the end of the template, of a block that
is not empty, and of the last 20000 ids. -/
def missingRows : List TransactionOnlyInTemplate :=
  ((innerJoin (fun row block => block.id = row.blockId) db.transactionOnlyInTemplate.rows
    db.block.rows).filter (fun (row, block) =>
      -- position < template_tx - template_tx * 0.02
      decide (row.position.toInt * 100 < block.templateTx.toInt * 98) &&
      decide (1 < block.blockTx) &&
      (db.transactionOnlyInTemplate.rows.map (fun r => r.blockId.toInt)).max?.any
        (fun maxId => decide (maxId - 20000 < row.blockId.toInt)))).map Prod.fst

def rowsOf (txid : List UInt8) : List TransactionOnlyInTemplate :=
  (missingRows db).filter (fun row => row.transactionTxid = txid)

def maxBlockId (txid : List UInt8) : Option Int :=
  ((rowsOf db txid).map (fun row => row.blockId.toInt)).max?

/-- `GROUP BY transaction_txid HAVING COUNT(*) > 2`. -/
def oftenMissing : List (List UInt8) :=
  ((missingRows db).map (fun row => row.transactionTxid)).dedup.filter
    (fun txid => 2 < (rowsOf db txid).length)

def firstOf {α : Type} : Option α → Except DbError α
  | some a => .ok a
  | none => .error .notFound

theorem firstOf_eq_ok {α : Type} {o : Option α} {a : α} : firstOf o = .ok a ↔ o = some a := by
  cases o <;> simp [firstOf]

/-- Run one SELECT. The random state says in which order the rows come that `ORDER BY` leaves
open. -/
def Select.exec (rs : RandomState) : (s : Select) → Except DbError s.Result
  | .blockPage n =>
    .ok (page MAX_BLOCKS_PER_PAGE n.toNat (orderDesc (fun block => block.blockTime)
      (rs.order db.block.rows)))
  | .blockCount => .ok [Int64.ofNat db.block.rows.length]
  | .blockPageByPool pool n =>
    .ok (page MAX_BLOCKS_PER_PAGE n.toNat (orderDesc (fun block => block.blockTime)
      (rs.order (db.block.rows.filter (fun block => block.poolName = pool)))))
  | .blockCountByPool pool =>
    .ok [Int64.ofNat (db.block.rows.filter (fun block => block.poolName = pool)).length]
  | .block blockHash => firstOf (db.block.find? blockHash)
  | .thisBlockId blockHash => firstOf ((db.block.find? blockHash).map (fun b => b.id))
  | .transactionOnlyInTemplateByBlockId blockId =>
    .ok (orderAsc (fun row => row.1.position) (rs.order
      (innerJoin (fun row tx => tx.txid = row.transactionTxid)
        (db.transactionOnlyInTemplate.rows.filter (fun row => row.blockId = blockId))
        db.transaction.rows)))
  | .transactionOnlyInBlockByBlockId blockId =>
    .ok (orderAsc (fun row => row.1.position) (rs.order
      (innerJoin (fun row tx => tx.txid = row.transactionTxid)
        (db.transactionOnlyInBlock.rows.filter (fun row => row.blockId = blockId))
        db.transaction.rows)))
  | .conflictingBlocks n =>
    .ok (page MAX_BLOCKS_PER_PAGE n.toNat (orderDesc (fun row => row.2) (rs.order
      ((innerJoin (fun row block => block.id = row.blockId) db.conflictingTransactions.rows
        db.block.rows).map (fun (row, b) => (row.blockId, b.height))).dedup)))
  | .conflictingBlockCount =>
    .ok [Int64.ofNat (db.conflictingTransactions.rows.map (fun row => row.blockId)).dedup.length]
  | .conflictingTransactions blockIds =>
    .ok (rs.order (db.conflictingTransactions.rows.filter (fun row => row.blockId ∈ blockIds)))
  | .transactions txids => .ok (rs.order (db.transaction.rows.filter (fun tx => tx.txid ∈ txids)))
  | .transaction txid => firstOf (db.transaction.find? txid)
  | .blocks ids => .ok (rs.order (db.block.rows.filter (fun block => block.id ∈ ids)))
  | .blocksByIdDesc ids =>
    .ok (orderDesc (fun block => block.id)
      (rs.order (db.block.rows.filter (fun block => block.id ∈ ids))))
  | .sanctionedMissing blockId =>
    .ok (rs.order (((innerJoin (fun p row => row.transactionTxid = p.1.txid)
      (innerJoin (fun tx info => info.transactionTxid = tx.txid) db.transaction.rows
        db.sanctionedTransactionInfo.rows) db.transactionOnlyInTemplate.rows).filter
      (fun (p, _) => p.2.blockId = blockId && !p.2.inBlock && p.2.inTemplate)).map
      (fun (p, row) => (p.1, p.2, row))))
  | .countMissingTransactions => .ok [Int64.ofNat (oftenMissing db).length]
  | .missingTransactions n =>
    .ok (page MAX_BLOCKS_PER_PAGE n.toNat (orderDesc (fun txid => (maxBlockId db txid).getD 0)
      (rs.order (oftenMissing db))))
  | .onlyInTemplate txids =>
    .ok (orderDesc (fun row => row.blockId) (rs.order (db.transactionOnlyInTemplate.rows.filter
      (fun row => row.transactionTxid ∈ txids))))

abbrev signature : Signature := ⟨Select, fun s => Except DbError s.Result⟩

/-- A query ends with an error of the database, or panics at an `unwrap`. -/
inductive Failure where
  | database (e : DbError)
  | unwrappedNone
deriving DecidableEq

abbrev Query (α : Type) := Prog signature (Except Failure α)

def load (s : Select) : Query s.Result := .call s (fun r => .done (r.mapError .database))

def unwrap {α : Type} : Option α → Except Failure α
  | some a => .ok a
  | none => .error .unwrappedNone

def maxPages (count : Int64) : UInt32 :=
  (Binary32.ceil (Binary32.ofInt64 count /
    Binary32.ofInt64 (Int64.ofNat MAX_BLOCKS_PER_PAGE))).toUInt32

def blocks (n : UInt32) : Query (List SharedModel.Block × UInt32) :=
  (load (.blockPage n)).andThen (fun blocks =>
    (load .blockCount).andThen (fun (counts : List Int64) =>
      .done (do
        let blocksCount ← unwrap counts.head?
        pure (blocks, maxPages blocksCount))))

def blocksByPool (n : UInt32) (pool : String) : Query (List SharedModel.Block × UInt32) :=
  (load (.blockPageByPool pool n)).andThen (fun blocks =>
    (load (.blockCountByPool pool)).andThen (fun (counts : List Int64) =>
      .done (do
        let blocksCount ← unwrap counts.head?
        pure (blocks, maxPages blocksCount))))

structure BlockWithTx where
  block : SharedModel.Block
  txnsOnlyInTemplate : List (TransactionOnlyInTemplate × SharedModel.Transaction)
  txnsOnlyInBlock : List (TransactionOnlyInBlock × SharedModel.Transaction)

def blockWithTx (blockHash : List UInt8) : Query BlockWithTx :=
  (load (.block blockHash)).andThen (fun (block : SharedModel.Block) =>
    (load (.transactionOnlyInTemplateByBlockId block.id)).andThen (fun txnsOnlyInTemplate =>
      (load (.transactionOnlyInBlockByBlockId block.id)).andThen (fun txnsOnlyInBlock =>
        .done (.ok ⟨block, txnsOnlyInTemplate, txnsOnlyInBlock⟩))))

structure ConflictingOutpoint where
  txid : List UInt8
  vout : Int32

structure ConflictingTransactionSet where
  templateTransactions : List SharedModel.Transaction
  blockTransactions : List SharedModel.Transaction
  conflictingOutpoints : List ConflictingOutpoint

structure ConflictingTranscationInfo where
  block : SharedModel.Block
  conflictingTransactionSets : List ConflictingTransactionSet

structure ConflictingTransactionsData where
  blocks : List SharedModel.Block
  transactions : List SharedModel.Transaction
  conflictingTransactionsInfo : List ConflictingTransaction
  totalBlockCount : Int64

def conflictingTxids (infos : List ConflictingTransaction) : List (List UInt8) :=
  infos.flatMap (fun cti => cti.templateTxids ++ cti.blockTxids)

def conflictingTransactionsData (n : UInt32) : Query ConflictingTransactionsData :=
  (load (.conflictingBlocks n)).andThen (fun (rows : List (Int64 × Int32)) =>
    let blockIds := rows.map Prod.fst
    (load .conflictingBlockCount).andThen (fun (counts : List Int64) =>
      match unwrap counts.head? with
      | .error e => .done (.error e)
      | .ok totalBlockCount =>
        (load (.conflictingTransactions blockIds)).andThen
          (fun (infos : List ConflictingTransaction) =>
            (load (.transactions (conflictingTxids infos))).andThen (fun transactions =>
              (load (.blocksByIdDesc blockIds)).andThen (fun blocks =>
                .done (.ok ⟨blocks, transactions, infos, totalBlockCount⟩))))))

def conflictingTransactionSet (txidToTxMap : HashMap (List UInt8) SharedModel.Transaction)
    (ct : ConflictingTransaction) : Except Failure ConflictingTransactionSet := do
  let templateTransactions ← ct.templateTxids.mapM (fun txid => unwrap (txidToTxMap.get? txid))
  let blockTransactions ← ct.blockTxids.mapM (fun txid => unwrap (txidToTxMap.get? txid))
  pure
    { templateTransactions := templateTransactions
      blockTransactions := blockTransactions
      conflictingOutpoints := (ct.conflictingOutpointsTxids.zip ct.conflictingOutpointsVouts).map
        (fun (txid, vout) => ⟨txid, vout⟩) }

def txidToTx (transactions : List SharedModel.Transaction) :
    HashMap (List UInt8) SharedModel.Transaction :=
  HashMap.collect (transactions.map (fun tx => (tx.txid, tx)))

def conflictingTransactionInfo (txidToTxMap : HashMap (List UInt8) SharedModel.Transaction)
    (infos : List ConflictingTransaction) (block : SharedModel.Block) :
    Except Failure ConflictingTranscationInfo := do
  let sets ← infos.mapM (conflictingTransactionSet txidToTxMap)
  pure ⟨block, sets⟩

def blocksWithConflictingTransactions (n : UInt32) :
    Query (List ConflictingTranscationInfo × UInt32) :=
  (conflictingTransactionsData n).andThen (fun data => .done (do
    let txidToTxMap := txidToTx data.transactions
    let blocks ← data.blocks.mapM (fun block => conflictingTransactionInfo txidToTxMap
      (data.conflictingTransactionsInfo.filter (fun ct => ct.blockId = block.id)) block)
    pure (blocks, maxPages data.totalBlockCount)))

def singleBlockWithConflictingTransactionsData (blockHash : List UInt8) :
    Query (SharedModel.Block × List SharedModel.Transaction × List ConflictingTransaction) :=
  (load (.block blockHash)).andThen (fun (block : SharedModel.Block) =>
    (load (.conflictingTransactions [block.id])).andThen
      (fun (infos : List ConflictingTransaction) =>
      (load (.transactions (conflictingTxids infos))).andThen (fun transactions =>
        .done (.ok (block, transactions, infos)))))

def singleBlockWithConflictingTransactions (blockHash : List UInt8) :
    Query ConflictingTranscationInfo :=
  (singleBlockWithConflictingTransactionsData blockHash).andThen
    (fun (block, transactions, infos) =>
    .done (conflictingTransactionInfo (txidToTx transactions) infos block))

structure MissingSanctionedTransaction where
  transaction : SharedModel.Transaction
  missingInfo : TransactionOnlyInTemplate
  addresses : List String

def missingSanctionedTxnsForBlock (reqHash : List UInt8) :
    Query (List MissingSanctionedTransaction) :=
  (load (.thisBlockId reqHash)).andThen (fun (thisBlockId : Int64) =>
    (load (.sanctionedMissing thisBlockId)).andThen (fun (rows : List (SharedModel.Transaction ×
        SanctionedTransactionInfo × TransactionOnlyInTemplate)) =>
      .done (.ok (rows.map (fun (tx, info, row) => ⟨tx, row, info.addresses⟩)))))

structure MissingTransactionBlockInfo where
  hash : List UInt8
  time : NaiveDateTime
  height : Int32
  pool : String
  templatePosition : Int32
  mempoolAge : Int32
  templateTxCount : Int32
  lastBlockPkgFeerate : Float32

structure MissingTransaction where
  transaction : SharedModel.Transaction
  blocks : List MissingTransactionBlockInfo

def MissingTransaction.maxHeight (tx : MissingTransaction) : Except Failure Int32 :=
  unwrap (tx.blocks.map (fun b => b.height)).max?

structure MissingTransactionsData where
  transactions : List SharedModel.Transaction
  txnsOnlyInTemplate : List TransactionOnlyInTemplate
  blocks : List SharedModel.Block
  totalMissingCount : Int64

def missingTransactionsData (n : UInt32) : Query MissingTransactionsData :=
  (load .countMissingTransactions).andThen (fun (counts : List Int64) =>
    match unwrap counts.head? with
    | .error e => .done (.error e)
    | .ok totalMissingCount =>
      (load (.missingTransactions n)).andThen (fun (txids : List (List UInt8)) =>
        (load (.transactions txids)).andThen (fun transactions =>
          (load (.onlyInTemplate txids)).andThen (fun (rows : List TransactionOnlyInTemplate) =>
            (load (.blocks (rows.map (fun row => row.blockId)))).andThen (fun blocks =>
              .done (.ok ⟨transactions, rows, blocks, totalMissingCount⟩))))))

def blockIdToBlock (blocks : List SharedModel.Block) : HashMap Int64 SharedModel.Block :=
  HashMap.collect (blocks.map (fun b => (b.id, b)))

def missingBlockInfo (blockIdToBlockMap : HashMap Int64 SharedModel.Block)
    (oitt : TransactionOnlyInTemplate) : Except Failure MissingTransactionBlockInfo := do
  let block ← unwrap (blockIdToBlockMap.get? oitt.blockId)
  pure
    { hash := block.hash
      time := block.blockTime
      height := block.height
      pool := block.poolName
      templatePosition := oitt.position
      mempoolAge := oitt.mempoolAgeSeconds
      templateTxCount := block.templateTx
      lastBlockPkgFeerate := block.blockPkgFeerates.getLast?.getD 0 }

/-- The blocks that a transaction is missing from, the highest one first. -/
def missingTransaction (blockIdToBlockMap : HashMap Int64 SharedModel.Block)
    (rows : List TransactionOnlyInTemplate) (tx : SharedModel.Transaction) :
    Except Failure MissingTransaction := do
  let blocks ← rows.mapM (missingBlockInfo blockIdToBlockMap)
  pure ⟨tx, (orderAsc (fun b => b.height) blocks).reverse⟩

/-- A slice of fewer than two elements is sorted without asking for a key. -/
def sortByMaxHeight (txns : List MissingTransaction) : Except Failure (List MissingTransaction) :=
  if txns.length < 2 then pure txns
  else do
    let keyed ← txns.mapM (fun tx => do pure (← tx.maxHeight, tx))
    pure ((orderDesc Prod.fst keyed).map Prod.snd)

def missingTransactions (n : UInt32) : Query (List MissingTransaction × UInt32) :=
  (missingTransactionsData n).andThen (fun data => .done (do
    let blockIdToBlockMap := blockIdToBlock data.blocks
    let missingTxns ← data.transactions.mapM (fun tx => missingTransaction blockIdToBlockMap
      (data.txnsOnlyInTemplate.filter (fun row => row.transactionTxid = tx.txid)) tx)
    let missingTxns ← sortByMaxHeight missingTxns
    pure (missingTxns, maxPages data.totalMissingCount)))

def singleMissingTransactionData (reqTxid : List UInt8) :
    Query (SharedModel.Transaction × List TransactionOnlyInTemplate × List SharedModel.Block) :=
  (load (.transaction reqTxid)).andThen (fun tx =>
    (load (.onlyInTemplate [reqTxid])).andThen (fun (rows : List TransactionOnlyInTemplate) =>
      (load (.blocks (rows.map (fun row => row.blockId)))).andThen (fun blocks =>
        .done (.ok (tx, rows, blocks)))))

def singleMissingTransaction (reqTxid : List UInt8) : Query MissingTransaction :=
  (singleMissingTransactionData reqTxid).andThen (fun (tx, rows, blockInfos) =>
    .done (missingTransaction (blockIdToBlock blockInfos) rows tx))

section Lookups

theorem unwrap_get? {κ ν : Type} [DecidableEq κ] {m : HashMap κ ν} {key : κ}
    (h : m.containsKey key = true) : ∃ v, unwrap (m.get? key) = .ok v := by
  cases hv : m.get? key with
  | none => simp [HashMap.containsKey, hv] at h
  | some v => exact ⟨v, rfl⟩

theorem containsKey_txidToTx {txns : List SharedModel.Transaction} {tx : SharedModel.Transaction}
    (h : tx ∈ txns) : (txidToTx txns).containsKey tx.txid = true :=
  HashMap.containsKey_collect.mpr ⟨(tx.txid, tx), List.mem_map_of_mem h, rfl⟩

theorem containsKey_blockIdToBlock {blocks : List SharedModel.Block} {b : SharedModel.Block}
    (h : b ∈ blocks) : (blockIdToBlock blocks).containsKey b.id = true :=
  HashMap.containsKey_collect.mpr ⟨(b.id, b), List.mem_map_of_mem h, rfl⟩

theorem conflictingTransactionSet_ok {m : HashMap (List UInt8) SharedModel.Transaction}
    {ct : ConflictingTransaction}
    (h : ∀ txid ∈ ct.templateTxids ++ ct.blockTxids, m.containsKey txid = true) :
    ∃ set, conflictingTransactionSet m ct = .ok set := by
  obtain ⟨ts, hts⟩ := exists_mapM_eq_ok (f := fun txid => unwrap (m.get? txid))
    (fun txid ht => unwrap_get? (h txid (List.mem_append_left _ ht)))
  obtain ⟨bs, hbs⟩ := exists_mapM_eq_ok (f := fun txid => unwrap (m.get? txid))
    (fun txid ht => unwrap_get? (h txid (List.mem_append_right _ ht)))
  rw [conflictingTransactionSet, hts, hbs]
  exact ⟨_, rfl⟩

theorem conflictingTransactionInfo_ok {m : HashMap (List UInt8) SharedModel.Transaction}
    {infos : List ConflictingTransaction} (block : SharedModel.Block)
    (h : ∀ txid ∈ conflictingTxids infos, m.containsKey txid = true) :
    ∃ info, conflictingTransactionInfo m infos block = .ok info := by
  have hset : ∀ ct ∈ infos, ∃ set, conflictingTransactionSet m ct = .ok set := fun ct hct =>
    conflictingTransactionSet_ok (fun txid ht => h txid (List.mem_flatMap.mpr ⟨ct, hct, ht⟩))
  obtain ⟨sets, hsets⟩ := exists_mapM_eq_ok hset
  refine ⟨⟨block, sets⟩, ?_⟩
  rw [conflictingTransactionInfo, hsets]
  rfl

theorem missingTransaction_ok {m : HashMap Int64 SharedModel.Block}
    {rows : List TransactionOnlyInTemplate} (tx : SharedModel.Transaction)
    (h : ∀ row ∈ rows, m.containsKey row.blockId = true) :
    ∃ missing, missingTransaction m rows tx = .ok missing ∧
      missing.blocks.length = rows.length := by
  have hinfo : ∀ row ∈ rows, ∃ info, missingBlockInfo m row = .ok info := by
    intro row hrow
    obtain ⟨b, hb⟩ := unwrap_get? (h row hrow)
    rw [missingBlockInfo, hb]
    exact ⟨_, rfl⟩
  obtain ⟨infos, hinfos⟩ := exists_mapM_eq_ok hinfo
  refine ⟨⟨tx, (orderAsc (fun b => b.height) infos).reverse⟩, ?_, ?_⟩
  · rw [missingTransaction, hinfos]
    rfl
  · dsimp only
    rw [List.length_reverse, perm_orderAsc.length_eq, (mapM_eq_ok hinfos).length_eq]

theorem maxHeight_ok {tx : MissingTransaction} (h : tx.blocks ≠ []) :
    ∃ height, tx.maxHeight = .ok height := by
  unfold MissingTransaction.maxHeight
  cases hm : (tx.blocks.map (fun b => b.height)).max? with
  | none =>
    rw [List.max?_eq_none_iff, List.map_eq_nil_iff] at hm
    exact absurd hm h
  | some height => exact ⟨height, rfl⟩

theorem sortByMaxHeight_ok {txns : List MissingTransaction} (h : ∀ tx ∈ txns, tx.blocks ≠ []) :
    ∃ sorted, sortByMaxHeight txns = .ok sorted := by
  unfold sortByMaxHeight
  by_cases hlen : txns.length < 2
  · rw [if_pos hlen]
    exact ⟨txns, rfl⟩
  · rw [if_neg hlen]
    have hkey : ∀ tx ∈ txns, ∃ p, (do pure (← tx.maxHeight, tx) : Except Failure _) = .ok p := by
      intro tx htx
      obtain ⟨height, hh⟩ := maxHeight_ok (h tx htx)
      exact ⟨(height, tx), by rw [hh]; rfl⟩
    obtain ⟨keyed, hkeyed⟩ := exists_mapM_eq_ok hkey
    exact ⟨(orderDesc Prod.fst keyed).map Prod.snd, by rw [hkeyed]; rfl⟩

/-- The sort of the page changes no entry. -/
theorem perm_of_sortByMaxHeight {txns sorted : List MissingTransaction}
    (h : sortByMaxHeight txns = .ok sorted) : sorted.Perm txns := by
  unfold sortByMaxHeight at h
  split at h
  · cases h
    exact .refl _
  · obtain ⟨keyed, hkeyed, h⟩ := bind_eq_ok.mp h
    cases h
    have hsnd : keyed.map Prod.snd = txns := by
      refine map_eq_of_mapM hkeyed (fun tx p hp => ?_)
      obtain ⟨height, -, hp⟩ := bind_eq_ok.mp hp
      cases hp
      rfl
    rw [← hsnd]
    exact perm_orderDesc.map _

theorem transaction_of_missingTransaction {m : HashMap Int64 SharedModel.Block}
    {rows : List TransactionOnlyInTemplate} {tx : SharedModel.Transaction}
    {missing : MissingTransaction} (h : missingTransaction m rows tx = .ok missing) :
    missing.transaction = tx := by
  obtain ⟨infos, -, h⟩ := bind_eq_ok.mp h
  cases h
  rfl

end Lookups

variable {db} in
theorem mem_oftenMissing {txid : List UInt8} (h : txid ∈ oftenMissing db) :
    ∃ row ∈ db.transactionOnlyInTemplate.rows, row.transactionTxid = txid := by
  obtain ⟨row, hrow, rfl⟩ := List.mem_map.mp (List.mem_dedup.mp (List.mem_of_mem_filter h))
  obtain ⟨⟨row, b⟩, hp, rfl⟩ := List.mem_map.mp hrow
  exact ⟨row, (mem_innerJoin.mp (List.mem_of_mem_filter hp)).1, rfl⟩

/-- The web process reads the databases that follow one another: each SELECT sees no older one than
the SELECT before, and may fail. -/
def reading {σ : Type} [Preorder σ] (dbs : σ → Database) : Environment signature σ where
  drift i j := i ≤ j
  answer i s r j := j = i ∧ ((∃ e, r = .error e) ∨ ∃ rs, r = s.exec (dbs i) rs)
  drift_refl := le_refl
  drift_trans _ _ _ := le_trans

/-- Every SELECT reads the same database and succeeds; each brings the rows that its `ORDER BY`
leaves open in an order of its own. -/
def selecting (db : Database) : Environment signature Unit where
  drift _ _ := True
  answer _ s r _ := ∃ rs, r = s.exec db rs
  drift_refl _ := trivial
  drift_trans _ _ _ _ _ := trivial

/-- A query on a database that nobody else writes to. -/
def evaluate {α : Type} (rs : RandomState) (p : Prog signature α) : α :=
  (p.runWith (fun (u : Unit) (s : Select) => (s.exec db rs, u)) ()).2.1

theorem exec_evaluate {σ α : Type} [Preorder σ] (dbs : σ → Database) (i : σ) (rs : RandomState)
    (p : Prog signature α) : ∃ tr, Exec (reading dbs) p i tr (evaluate (dbs i) rs p) i := by
  induction p with
  | done a => exact ⟨[], Exec.done_iff.mpr ⟨rfl, rfl, le_refl i⟩⟩
  | call s k ih =>
    obtain ⟨tr, h⟩ := ih (s.exec (dbs i) rs)
    exact ⟨_, Exec.call_iff.mpr ⟨i, _, i, tr, rfl, le_refl i, ⟨rfl, .inr ⟨rs, rfl⟩⟩, h⟩⟩

theorem selecting_evaluate {α : Type} (rs : RandomState) (p : Prog signature α) :
    ∃ tr, Exec (selecting db) p () tr (evaluate db rs p) () := by
  induction p with
  | done a => exact ⟨[], Exec.done_iff.mpr ⟨rfl, rfl, trivial⟩⟩
  | call s k ih =>
    obtain ⟨tr, h⟩ := ih (s.exec db rs)
    exact ⟨_, Exec.call_iff.mpr ⟨(), _, (), tr, rfl, trivial, ⟨rs, rfl⟩, h⟩⟩

end MiningpoolObserver.Web
