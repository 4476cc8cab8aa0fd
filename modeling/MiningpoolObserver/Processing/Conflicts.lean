import MiningpoolObserver.Processing.Transactions

namespace MiningpoolObserver.Processing.Conflicts

open MiningpoolObserver.Library.HashCollections
open MiningpoolObserver.Bitcoin MiningpoolObserver.DaemonModel
open MiningpoolObserver.Processing.Sanctions MiningpoolObserver.Processing.Transactions

/-- The transaction that an id taken from a set stands for; the daemon panics without it. -/
def lookup (txidToTxinfoMap : HashMap Txid TxInfo) (txid : Txid) : Except Panic TxInfo :=
  match txidToTxinfoMap.get? txid with
  | some txInfo => .ok txInfo
  | none => .error (.txidNotFound txid)

/-- The outpoints that one side spends, and the transaction that spends each. -/
structure Outpoints where
  outpoints : HashSet OutPoint
  toTxinfo : HashMap OutPoint TxInfo

def Outpoints.add (txInfo : TxInfo) (self : Outpoints) (input : TxIn) : Outpoints where
  outpoints := self.outpoints.insert input.previousOutput
  toTxinfo := self.toTxinfo.insert input.previousOutput txInfo

def spentOutpoints (txids : List Txid) (txidToTxinfoMap : HashMap Txid TxInfo) :
    Except Panic Outpoints :=
  txids.foldlM (fun acc txid => do
    let txInfo ← lookup txidToTxinfoMap txid
    pure (txInfo.tx.input.foldl (Outpoints.add txInfo) acc)) ⟨HashSet.empty, HashMap.empty⟩

structure Conflict where
  templateTransactions : List TxInfo
  blockTransactions : List TxInfo
  conflictingOutpoints : List OutPoint
deriving DecidableEq

/-- The conflicts that already hold one of the two transactions, with their positions. -/
def existingConflicts (conflicts : List Conflict) (templateTransaction blockTransaction : TxInfo) :
    List (Nat × Conflict) :=
  conflicts.zipIdx.foldl (fun existing (c, i) =>
    let existing :=
      if templateTransaction ∈ c.templateTransactions && c ∉ existing.map Prod.snd then
        existing ++ [(i, c)] else existing
    if blockTransaction ∈ c.blockTransactions && c ∉ existing.map Prod.snd then
      existing ++ [(i, c)] else existing) []

def pushNew {α : Type} [DecidableEq α] (l : List α) (a : α) : List α :=
  if a ∈ l then l else l ++ [a]

def sortDedupTransactions (txns : List TxInfo) : List TxInfo :=
  (txns.insertionSort (fun a b => a.txid.bytes ≤ b.txid.bytes)).destutter
    (fun a b => a.txid ≠ b.txid)

def OutPoint.le (a b : OutPoint) : Bool :=
  decide (a.txid.bytes < b.txid.bytes) || (a.txid = b.txid && decide (a.vout ≤ b.vout))

def sortDedupOutpoints (outpoints : List OutPoint) : List OutPoint :=
  (outpoints.insertionSort (fun a b => OutPoint.le a b)).destutter (· ≠ ·)

/-- The conflict in which the given ones are merged. -/
def mergeConflicts (existing : List Conflict) (templateTransaction blockTransaction : TxInfo)
    (co : OutPoint) : Conflict where
  templateTransactions := sortDedupTransactions
    (templateTransaction :: existing.flatMap (fun c => c.templateTransactions))
  blockTransactions := sortDedupTransactions
    (blockTransaction :: existing.flatMap (fun c => c.blockTransactions))
  conflictingOutpoints := sortDedupOutpoints
    (co :: existing.flatMap (fun c => c.conflictingOutpoints))

/-- Add one conflicting outpoint: open a new conflict, extend the one that holds either
transaction, or merge those that do into the first of them and empty the others. -/
def addConflict (conflicts : List Conflict) (templateTransaction blockTransaction : TxInfo)
    (co : OutPoint) : List Conflict :=
  let existing := existingConflicts conflicts templateTransaction blockTransaction
  let updated : List Conflict := match existing with
    | [] => conflicts ++ [⟨[templateTransaction], [blockTransaction], [co]⟩]
    | [(i, _)] => conflicts.modify i (fun c =>
        ⟨pushNew c.templateTransactions templateTransaction,
          pushNew c.blockTransactions blockTransaction, pushNew c.conflictingOutpoints co⟩)
    | (i, c) :: rest =>
      let emptied := rest.foldl (fun cs e => cs.set e.1 ⟨[], [], []⟩) conflicts
      emptied.set i
        (mergeConflicts (c :: rest.map Prod.snd) templateTransaction blockTransaction co)
  updated.filter (fun c => !c.templateTransactions.isEmpty)

def findOutpoint (toTxinfo : HashMap OutPoint TxInfo) (co : OutPoint) : Except Panic TxInfo :=
  match toTxinfo.get? co with
  | some txInfo => .ok txInfo
  | none => .error (.outpointNotFound co)

def conflictRow (blockId : Int64) (conflict : Conflict) : SharedModel.ConflictingTransaction where
  blockId := blockId
  templateTxids := conflict.templateTransactions.map (fun tx => tx.txid.reversed)
  blockTxids := conflict.blockTransactions.map (fun tx => tx.txid.reversed)
  conflictingOutpointsTxids := conflict.conflictingOutpoints.map (fun o => o.txid.reversed)
  conflictingOutpointsVouts := conflict.conflictingOutpoints.map (fun o => o.vout.toInt32)

def buildConflictingTransactions (lib : Crates) (rs : RandomState) (blockId : Int64)
    (txidsOnlyInTemplate : HashSet Txid) (templateTxidToTxinfoMap : HashMap Txid TxInfo)
    (txidsOnlyInBlock : HashSet Txid) (blockTxidToTxinfoMap : HashMap Txid TxInfo)
    (transactions : TransactionMap) (utxoMap : UtxoMap) (sanctionedAddresses : HashSet String) :
    Except Panic (List SharedModel.ConflictingTransaction × TransactionMap) := do
  let template ← spentOutpoints (txidsOnlyInTemplate.iter rs) templateTxidToTxinfoMap
  let block ← spentOutpoints (txidsOnlyInBlock.iter rs) blockTxidToTxinfoMap
  let conflictingOutpoints := (template.outpoints.intersection block.outpoints).iter rs
  let conflicts ← conflictingOutpoints.foldlM (fun conflicts co => do
    let templateTransaction ← findOutpoint template.toTxinfo co
    let blockTransaction ← findOutpoint block.toTxinfo co
    pure (addConflict conflicts templateTransaction blockTransaction co)) []
  let add := fun transactions txInfo =>
    buildAndAdd lib rs txInfo true utxoMap sanctionedAddresses transactions
  pure (conflicts.map (conflictRow blockId), conflicts.foldl (fun transactions conflict =>
    conflict.blockTransactions.foldl add (conflict.templateTransactions.foldl add transactions))
      transactions)

end MiningpoolObserver.Processing.Conflicts
