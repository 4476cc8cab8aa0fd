import MiningpoolObserver.Library.Fallible
import MiningpoolObserver.Processing.Conflicts

namespace MiningpoolObserver.Processing.Builders

open MiningpoolObserver.Library.HashCollections MiningpoolObserver.Library.Fallible
open MiningpoolObserver.Bitcoin MiningpoolObserver.DaemonModel MiningpoolObserver.Tags
open MiningpoolObserver.Processing.Sanctions MiningpoolObserver.Processing.Transactions
open MiningpoolObserver.Processing.Conflicts

variable (lib : Crates)

def getPoolInfoOrDefault : Option IdentificationResult → String × String × String
  | some result =>
    (result.pool.name, result.pool.link,
      if result.identificationMethod = .tag then "coinbase tag" else "coinbase output address")
  | none => ("Unknown", "", "")

def getSanctionedMissingTxCount (txidsOnlyInTemplate : HashSet Txid) (data : TemplateTxData)
    (utxoMap : UtxoMap) (sanctionedAddresses : HashSet String) : Except Panic Nat := do
  let txns ← txidsOnlyInTemplate.elems.mapM (lookup data.txidToTxinfoMap)
  pure (txns.countP (fun tx => isTxSanctioned lib tx.tx utxoMap sanctionedAddresses))

def blockSigops (block : Bitcoin.Block) : Int64 :=
  (block.txdata.map (fun tx => ((lib.sigops tx).getD 0).toInt64)).sum

def VERSION_BIT_TAPROOT : UInt8 := 2

def blockTags (block : Bitcoin.Block) : List Int :=
  (if (blockSigops lib block).toUInt64 > THRESHOLD_SIGOP_LIMIT_CLOSE then
    [BlockTag.sigopsLimitClose.code] else []) ++
  (if lib.isSignallingSoftFork block.header.version VERSION_BIT_TAPROOT then
    [BlockTag.taprootSignaling.code] else [])

/-- The counts and package lists of the comparison that go into the block row. -/
structure BlockNumbers where
  templatePkgWeights : List Int64
  templatePkgFeerates : List Float32
  blockPkgWeights : List Int64
  blockPkgFeerates : List Float32
  missingTx : Int32
  sanctionedMissingTx : Int32
  extraTx : Int32
  sharedTx : Int32
  blockFees : Amount
  templateFees : Amount

def buildBlock (block : Bitcoin.Block) (template : GetBlockTemplateResult)
    (templateTxidToTxinfoMap : HashMap Txid TxInfo) (n : BlockNumbers) (utxoMap : UtxoMap)
    (sanctionedAddresses : HashSet String) (pools : List Pool) (network : Network)
    (now : NaiveDateTime) : Except Panic SharedModel.NewBlock := do
  let poolInfo := getPoolInfoOrDefault (lib.identifyPool block network pools)
  let blockTime ← match lib.timestamp block.header.time.toUInt64.toInt64 with
    | some t => pure t
    | none => .error .blockTimestamp
  let coinbase ← match block.txdata with
    | tx :: _ => pure tx
    | [] => .error .noTransactions
  let templateTime ← match lib.timestamp template.currentTime.toInt64 with
    | some t => pure t
    | none => .error .templateTimestamp
  pure
    { hash := (lib.blockHash block.header).reversed
      prevHash := block.header.prevBlockhash.reversed
      height := Int32.ofNat template.height
      tags := blockTags lib block
      extraTx := n.extraTx
      missingTx := n.missingTx
      sharedTx := n.sharedTx
      sanctionedMissingTx := n.sanctionedMissingTx
      equality := 0.0
      blockSeenTime := now
      blockTime := blockTime
      blockTx := Int32.ofNat block.txdata.length
      blockWeight := Int32.ofNat (lib.blockWeight block)
      blockSanctioned := Int32.ofNat
        (block.txdata.countP (fun tx => isTxSanctioned lib tx utxoMap sanctionedAddresses))
      blockCbValue := (coinbase.output.map (fun (o : TxOut) => o.value)).sum.toInt64
      blockCbFees := n.blockFees.toInt64
      blockPkgWeights := n.blockPkgWeights
      blockPkgFeerates := n.blockPkgFeerates
      poolName := poolInfo.1
      poolLink := poolInfo.2.1
      poolIdMethod := poolInfo.2.2
      templateCbValue := template.coinbaseValue.toInt64
      templateTime := templateTime
      templateTx := Int32.ofNat template.transactions.length
      templateSanctioned := Int32.ofNat (templateTxidToTxinfoMap.entries.countP
        (fun e => isTxSanctioned lib e.2.tx utxoMap sanctionedAddresses))
      templateWeight := Int32.ofNat (template.transactions.map
        (fun (tx : GetBlockTemplateResultTransaction) => tx.weight)).sum
      templateCbFees := n.templateFees.toInt64
      templatePkgWeights := n.templatePkgWeights
      templatePkgFeerates := n.templatePkgFeerates
      templateSigops := (template.transactions.map
        (fun (tx : GetBlockTemplateResultTransaction) => tx.sigops)).sum.toInt64
      blockSigops := blockSigops lib block }

/-- What a block row holds of the block, the template and the numbers it was built from. -/
structure RowOf (block : Bitcoin.Block) (template : GetBlockTemplateResult)
    (templateTxidToTxinfoMap : HashMap Txid TxInfo) (n : BlockNumbers) (utxoMap : UtxoMap)
    (sanctionedAddresses : HashSet String) (pools : List Pool) (network : Network)
    (b : SharedModel.NewBlock) : Prop where
  hash : b.hash = (lib.blockHash block.header).reversed
  missingTx : b.missingTx = n.missingTx
  extraTx : b.extraTx = n.extraTx
  sharedTx : b.sharedTx = n.sharedTx
  sanctionedMissingTx : b.sanctionedMissingTx = n.sanctionedMissingTx
  blockTx : b.blockTx = Int32.ofNat block.txdata.length
  templateTx : b.templateTx = Int32.ofNat template.transactions.length
  blockSanctioned : b.blockSanctioned = Int32.ofNat
    (block.txdata.countP (fun tx => isTxSanctioned lib tx utxoMap sanctionedAddresses))
  templateSanctioned : b.templateSanctioned = Int32.ofNat (templateTxidToTxinfoMap.entries.countP
    (fun e => isTxSanctioned lib e.2.tx utxoMap sanctionedAddresses))
  blockPkgWeights : b.blockPkgWeights = n.blockPkgWeights
  templatePkgWeights : b.templatePkgWeights = n.templatePkgWeights
  pool : (b.poolName, b.poolLink, b.poolIdMethod) =
    getPoolInfoOrDefault (lib.identifyPool block network pools)

variable {lib} in
theorem rowOf_buildBlock {block : Bitcoin.Block} {template : GetBlockTemplateResult}
    {templateTxidToTxinfoMap : HashMap Txid TxInfo} {n : BlockNumbers} {utxoMap : UtxoMap}
    {sanctionedAddresses : HashSet String} {pools : List Pool} {network : Network}
    {now : NaiveDateTime} {b : SharedModel.NewBlock}
    (h : buildBlock lib block template templateTxidToTxinfoMap n utxoMap sanctionedAddresses pools
      network now = .ok b) :
    RowOf lib block template templateTxidToTxinfoMap n utxoMap sanctionedAddresses pools network
      b := by
  unfold buildBlock at h
  simp only [bind, Except.bind, pure, Except.pure] at h
  cases hb : lib.timestamp block.header.time.toUInt64.toInt64 with
  | none => rw [hb] at h; cases h
  | some blockTime =>
    cases hc : block.txdata with
    | nil => rw [hb, hc] at h; cases h
    | cons coinbase rest =>
      cases ht : lib.timestamp template.currentTime.toInt64 with
      | none => rw [hb, hc, ht] at h; cases h
      | some templateTime =>
        rw [hb, hc, ht] at h
        cases h
        exact ⟨rfl, rfl, rfl, rfl, rfl, by rw [hc], rfl, by rw [hc], rfl, rfl, rfl, rfl⟩

/-- The loop of the two `only in` builders: a row for every id, and the transaction when it
can be built. -/
def onlyInRows {ρ : Type} (rs : RandomState) (row : TxInfo → Txid → ρ) (txids : List Txid)
    (txidToTxinfoMap : HashMap Txid TxInfo) (utxoMap : UtxoMap)
    (sanctionedAddresses : HashSet String) (transactions : TransactionMap) :
    Except Panic (List ρ × TransactionMap) :=
  txids.foldlM (fun acc txid => do
    let txInfo ← lookup txidToTxinfoMap txid
    pure (acc.1 ++ [row txInfo txid],
      buildAndAdd lib rs txInfo false utxoMap sanctionedAddresses acc.2)) ([], transactions)

def buildTransactionsOnlyInBlock (rs : RandomState) (blockId : Int64)
    (txidsOnlyInBlock : HashSet Txid) (blockTxidToTxinfoMap : HashMap Txid TxInfo)
    (transactions : TransactionMap) (utxoMap : UtxoMap) (sanctionedAddresses : HashSet String) :
    Except Panic (List SharedModel.TransactionOnlyInBlock × TransactionMap) :=
  onlyInRows lib rs (fun txInfo _ => ⟨blockId, txInfo.pos, txInfo.txid.reversed⟩)
    (txidsOnlyInBlock.iter rs) blockTxidToTxinfoMap utxoMap sanctionedAddresses transactions

def buildTransactionsOnlyInTemplate (rs : RandomState) (blockId : Int64)
    (txidsOnlyInTemplate : HashSet Txid) (templateTxidToTxinfoMap : HashMap Txid TxInfo)
    (templateTxidToMempoolAge : HashMap Txid Int32) (transactions : TransactionMap)
    (utxoMap : UtxoMap) (sanctionedAddresses : HashSet String) :
    Except Panic (List SharedModel.TransactionOnlyInTemplate × TransactionMap) :=
  onlyInRows lib rs (fun txInfo txid =>
      ⟨blockId, txInfo.pos, (templateTxidToMempoolAge.get? txid).getD (-1), txInfo.txid.reversed⟩)
    (txidsOnlyInTemplate.iter rs) templateTxidToTxinfoMap utxoMap sanctionedAddresses transactions

/-- One round of the two loops over sanctioned transactions. The row is pushed only when the
transaction can be built. -/
def sanctionedStep (rs : RandomState) (blockId : Int64) (inBlock : TxInfo → Bool)
    (inTemplate : Bool) (txidToTxinfoMap : HashMap Txid TxInfo) (utxoMap : UtxoMap)
    (sanctionedAddresses : HashSet String)
    (acc : List SharedModel.SanctionedTransactionInfo × TransactionMap) (txid : Txid) :
    Except Panic (List SharedModel.SanctionedTransactionInfo × TransactionMap) := do
  let txInfo ← lookup txidToTxinfoMap txid
  if isTxSanctioned lib txInfo.tx utxoMap sanctionedAddresses then
    match buildTransaction lib rs txInfo.txid.reversed txInfo false utxoMap sanctionedAddresses with
    | some t =>
      pure (acc.1 ++ [{
          blockId := blockId
          transactionTxid := txInfo.txid.reversed
          inBlock := inBlock txInfo
          inTemplate := inTemplate
          addresses := txSanctionedAddresses lib rs txInfo.tx utxoMap sanctionedAddresses }],
        addToTransactions t acc.2)
    | none => pure acc
  else pure acc

def buildSanctionedTransactionInfos (rs : RandomState) (blockId : Int64)
    (blockTxData : BlockTxData) (templateTxids : HashSet Txid)
    (templateTxidToTxinfoMap : HashMap Txid TxInfo) (txidsOnlyInBlock : HashSet Txid)
    (utxoMap : UtxoMap) (sanctionedAddresses : HashSet String) (transactions : TransactionMap) :
    Except Panic (List SharedModel.SanctionedTransactionInfo × TransactionMap) := do
  -- in the template and maybe in the block
  let acc ← (templateTxids.iter rs).foldlM (sanctionedStep lib rs blockId
    (fun txInfo => txInfo.txid ∈ blockTxData.txids) true templateTxidToTxinfoMap utxoMap
    sanctionedAddresses) ([], transactions)
  -- only in the block
  (txidsOnlyInBlock.iter rs).foldlM (sanctionedStep lib rs blockId (fun _ => true) false
    blockTxData.txidToTxinfoMap utxoMap sanctionedAddresses) acc

def buildDebugTemplateSelectionInfos (blockId : Int64) (templates : List GetBlockTemplateResult)
    (blockTxids : HashSet Txid) (selectedTemplateTime : UInt64) :
    Except Panic (List SharedModel.DebugTemplateSelectionInfo) :=
  templates.mapM (fun t => do
    let templateTxids := HashSet.collect (t.transactions.map (fun t => t.txid))
    let templateTime ← match lib.timestamp t.currentTime.toInt64 with
      | some time => pure time
      | none => .error .templateTimestamp
    pure
      { blockId := blockId
        templateTime := templateTime
        countMissing := Int32.ofNat (templateTxids.difference blockTxids).len
        countShared := Int32.ofNat (blockTxids.intersection templateTxids).len
        countExtra := Int32.ofNat (blockTxids.difference templateTxids).len
        selected := t.currentTime = selectedTemplateTime })

end MiningpoolObserver.Processing.Builders
