import MiningpoolObserver.DaemonModel

namespace MiningpoolObserver.Processing.Comparison

open MiningpoolObserver.Library.HashCollections
open MiningpoolObserver.Bitcoin MiningpoolObserver.DaemonModel

variable (lib : Crates)

def buildBlockTxData (block : Block) (blockTxFees : GetBlockTxFeesResult) :
    Except Panic BlockTxData :=
  let txidToFeeMap := HashMap.collect (blockTxFees.tx.map (fun tx => (tx.txid, tx.fee)))
  block.txdata.zipIdx.foldlM (fun data (tx, i) =>
    let txid := lib.computeTxid tx
    match txidToFeeMap.get? txid with
    | some fee => .ok (data.push txid ⟨txid, tx, Int32.ofNat i, fee⟩)
    | none => .error (.feeNotFound txid)) TxData.empty

/-- Template transactions that do not decode are skipped. The map is keyed by the declared id,
the set holds the computed one. -/
def buildTemplateTxData (template : GetBlockTemplateResult) : TemplateTxData :=
  template.transactions.zipIdx.foldl (fun data (tx, i) =>
    match lib.deserialize tx.rawTx with
    | some deserTx => data.push tx.txid ⟨lib.computeTxid deserTx, deserTx, Int32.ofNat i, tx.fee⟩
    | none => data) TxData.empty

def parentTxids (packageTxns : List TxInfo) : HashSet Txid :=
  packageTxns.foldl (fun txids tx => txids.extend tx.prevOutputTxids) HashSet.empty

/-- Whether a transaction goes into the open package: it is a parent of one of its
transactions, or shares with one a parent that is in the list. -/
def belongsToPackage (txidsInTxns : HashSet Txid) (packageTxns : List TxInfo) (txInfo : TxInfo) :
    Bool :=
  lib.computeTxid txInfo.tx ∈ parentTxids packageTxns ||
    (txInfo.prevOutputTxids.elems.filter (· ∈ txidsInTxns)).any (· ∈ parentTxids packageTxns)

/-- One round of the loop, over the closed packages and the open one. -/
def packageStep (txidsInTxns : HashSet Txid) (state : List TxPackage × List TxInfo)
    (txInfo : TxInfo) : List TxPackage × List TxInfo :=
  if state.2.isEmpty then (state.1, state.2 ++ [txInfo])
  else if belongsToPackage lib txidsInTxns state.2 txInfo then (state.1, state.2 ++ [txInfo])
  else (state.1 ++ [⟨state.2⟩], [txInfo])

def buildPackages (txns : List TxInfo) : Except Panic (List TxPackage) :=
  let txidsInTxns := HashSet.collect (txns.map (fun ti => lib.computeTxid ti.tx))
  let state := txns.reverse.foldl (packageStep lib txidsInTxns) ([], [])
  let packages := (if state.2.isEmpty then state.1 else state.1 ++ [⟨state.2⟩]).reverse
  if txns.length = (packages.map (fun p => p.txns.length)).sum then .ok packages
  else .error .packageLengths

/-- The template with the smallest set difference to the block, the first one on a tie. -/
def selectBestTemplateForBlock (lastTemplates : List GetBlockTemplateResult)
    (blockTxids : HashSet Txid) : Except Panic GetBlockTemplateResult :=
  match lastTemplates.minOn? (fun t =>
    let templateTxids := HashSet.collect (t.transactions.map (fun t => t.txid))
    let extra := (blockTxids.difference templateTxids).len
    let missing := (templateTxids.difference blockTxids).len
    missing + extra) with
  | some t => .ok t
  | none => .error .noTemplates

theorem mem_of_selectBestTemplateForBlock {lastTemplates : List GetBlockTemplateResult}
    {blockTxids : HashSet Txid}
    {template : GetBlockTemplateResult}
    (h : selectBestTemplateForBlock lastTemplates blockTxids = .ok template) :
    template ∈ lastTemplates := by
  unfold selectBestTemplateForBlock at h
  split at h
  · rename_i t ht
    cases h
    exact List.minOn?_mem ht
  · cases h

end MiningpoolObserver.Processing.Comparison
