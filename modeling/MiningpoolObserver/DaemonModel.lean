import MiningpoolObserver.Library.HashCollections
import MiningpoolObserver.Bitcoin

namespace MiningpoolObserver.DaemonModel

open MiningpoolObserver.Library.HashCollections MiningpoolObserver.Bitcoin

/-- Where the daemon panics. -/
inductive Panic where
  | feeNotFound (txid : Txid)
  | noTemplates
  | packageLengths
  | txidNotFound (txid : Txid)
  | outpointNotFound (outpoint : OutPoint)
  | noTransactions
  | blockTimestamp
  | templateTimestamp
  | txidLength
deriving DecidableEq

structure TxInfo where
  txid : Txid
  tx : Transaction
  /-- Position of the transaction in the block or the template. -/
  pos : Int32
  fee : Amount
deriving DecidableEq

variable (lib : Crates)

def TxInfo.feerate (self : TxInfo) : Float32 :=
  self.fee.toFloat32 / (lib.vsize self.tx).toFloat32

def TxInfo.prevOutputTxids (self : TxInfo) : HashSet Txid :=
  HashSet.collect (self.tx.input.map (fun input => input.previousOutput.txid))

structure TxPackage where
  txns : List TxInfo

def TxPackage.feerate (self : TxPackage) : Float32 :=
  let vsizeSum := (self.txns.map (fun i => (lib.vsize i.tx).toFloat)).foldl (· + ·) 0
  let feeSum := (self.txns.map (fun i => i.fee.toFloat)).foldl (· + ·) 0
  (feeSum / vsizeSum).toFloat32

def TxPackage.weight (self : TxPackage) : Nat := (self.txns.map (fun i => lib.weight i.tx)).sum

structure TxData where
  txids : HashSet Txid
  txidToTxinfoMap : HashMap Txid TxInfo
  txinfos : List TxInfo

abbrev BlockTxData := TxData
abbrev TemplateTxData := TxData

def TxData.empty : TxData := ⟨HashSet.empty, HashMap.empty, []⟩

def TxData.push (data : TxData) (key : Txid) (txInfo : TxInfo) : TxData where
  txids := data.txids.insert txInfo.txid
  txidToTxinfoMap := data.txidToTxinfoMap.insert key txInfo
  txinfos := data.txinfos ++ [txInfo]

end MiningpoolObserver.DaemonModel
