import MiningpoolObserver.Bitcoin

namespace MiningpoolObserver.SharedModel

open MiningpoolObserver.Bitcoin

/-- A block without its database id, as it is inserted. -/
structure NewBlock where
  hash : List UInt8
  prevHash : List UInt8
  height : Int32
  tags : List Int
  missingTx : Int32
  extraTx : Int32
  sharedTx : Int32
  /-- Sanctioned transactions of the template that are not in the block. -/
  sanctionedMissingTx : Int32
  equality : Float32
  blockTime : NaiveDateTime
  blockSeenTime : NaiveDateTime
  blockTx : Int32
  blockSanctioned : Int32
  blockCbValue : Int64
  blockCbFees : Int64
  blockWeight : Int32
  blockPkgWeights : List Int64
  blockPkgFeerates : List Float32
  poolName : String
  poolLink : String
  poolIdMethod : String
  templateTx : Int32
  templateTime : NaiveDateTime
  templateSanctioned : Int32
  templateCbValue : Int64
  templateCbFees : Int64
  templateWeight : Int32
  templatePkgWeights : List Int64
  templatePkgFeerates : List Float32
  templateSigops : Int64
  blockSigops : Int64

structure Block extends NewBlock where
  id : Int64

structure Transaction where
  txid : List UInt8
  sanctioned : Bool
  vsize : Int32
  fee : Int64
  outputSum : Int64
  tags : List Int
  inputCount : Int32
  inputs : List String
  outputCount : Int32
  outputs : List String
  sigops : Int64

structure TransactionOnlyInBlock where
  blockId : Int64
  position : Int32
  transactionTxid : List UInt8

structure TransactionOnlyInTemplate where
  blockId : Int64
  position : Int32
  mempoolAgeSeconds : Int32
  transactionTxid : List UInt8

structure SanctionedTransactionInfo where
  blockId : Int64
  transactionTxid : List UInt8
  inBlock : Bool
  inTemplate : Bool
  addresses : List String

structure ConflictingTransaction where
  blockId : Int64
  templateTxids : List (List UInt8)
  blockTxids : List (List UInt8)
  conflictingOutpointsTxids : List (List UInt8)
  conflictingOutpointsVouts : List Int32

structure SanctionedUtxo where
  txid : List UInt8
  vout : Int32
  scriptPubkey : ScriptBuf
  amount : Int64
  height : Int32
deriving DecidableEq

structure SanctionedUtxoScanInfo where
  endTime : NaiveDateTime
  endHeight : Int32
  durationSeconds : Int32
  utxoAmount : Int64
  utxoCount : Int32

structure DebugTemplateSelectionInfo where
  blockId : Int64
  templateTime : NaiveDateTime
  countMissing : Int32
  countShared : Int32
  countExtra : Int32
  selected : Bool

structure SanctionedAddress where
  address : String
deriving DecidableEq

end MiningpoolObserver.SharedModel
