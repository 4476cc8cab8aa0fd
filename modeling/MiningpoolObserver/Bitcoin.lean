import Mathlib.Algebra.GroupWithZero.Nat
import Mathlib.Data.UInt

namespace MiningpoolObserver.Bitcoin

/-- A double-SHA256 value, in internal byte order. -/
structure Hash256 where
  bytes : List UInt8
  size : bytes.length = 32
deriving DecidableEq

abbrev Txid := Hash256
abbrev BlockHash := Hash256

/-- The bytes as the database and the website show them. -/
def Hash256.reversed (h : Hash256) : List UInt8 := h.bytes.reverse

def Hash256.fromSlice (bs : List UInt8) : Option Hash256 :=
  if h : bs.length = 32 then some ⟨bs, h⟩ else none

theorem Hash256.reversed_injective : Function.Injective Hash256.reversed := by
  intro a b h
  cases a
  cases b
  simpa [Hash256.reversed] using h

@[simp] theorem Hash256.fromSlice_reversed (h : Hash256) :
    Hash256.fromSlice h.reversed.reverse = some h := by
  simp [Hash256.fromSlice, Hash256.reversed, h.size]

theorem Hash256.reversed_of_fromSlice {bs : List UInt8} {h : Hash256}
    (hs : Hash256.fromSlice bs.reverse = some h) : h.reversed = bs := by
  unfold Hash256.fromSlice at hs
  split at hs
  · cases hs
    simp [Hash256.reversed]
  · cases hs

/-- Satoshi. -/
abbrev Amount := UInt64
abbrev ScriptBuf := List UInt8

structure OutPoint where
  txid : Txid
  vout : UInt32
deriving DecidableEq

structure TxIn where
  previousOutput : OutPoint
  scriptSig : ScriptBuf
  sequence : UInt32
  witness : List (List UInt8)
deriving DecidableEq

structure TxOut where
  value : Amount
  scriptPubkey : ScriptBuf
deriving DecidableEq

structure Transaction where
  version : Int32
  lockTime : UInt32
  input : List TxIn
  output : List TxOut
deriving DecidableEq

structure Header where
  version : Int32
  prevBlockhash : BlockHash
  merkleRoot : Hash256
  time : UInt32
  bits : UInt32
  nonce : UInt32
deriving DecidableEq

structure Block where
  header : Header
  txdata : List Transaction
deriving DecidableEq

inductive Network where
  | bitcoin
  | testnet
  | signet
  | regtest
deriving DecidableEq

/-- A lock time counts blocks or seconds; the two are not comparable. -/
inductive LockTime where
  | blocks (height : UInt32)
  | seconds (time : UInt32)

def LockTime.isBlockHeight : LockTime → Bool
  | .blocks _ => true
  | .seconds _ => false

def LockTime.isBlockTime : LockTime → Bool
  | .blocks _ => false
  | .seconds _ => true

/-- Consensus lock times from 500000000 on are UNIX times. -/
def LockTime.fromConsensus (n : UInt32) : LockTime :=
  if n < 500000000 then .blocks n else .seconds n

def LockTime.gt : LockTime → LockTime → Bool
  | .blocks a, .blocks b => decide (b < a)
  | .seconds a, .seconds b => decide (b < a)
  | _, _ => false

/-- Input and output script types. Only the two below are told apart by name. -/
inductive ScriptType where
  | p2pk
  | p2ms
  | other (n : Nat)
deriving DecidableEq

abbrev InputType := ScriptType
abbrev OutputType := ScriptType

/-- What `RawTxInfo::new` finds out about a transaction. -/
structure RawTxInfo where
  vsize : UInt64
  locktime : LockTime
  inputTypes : List InputType
  outputTypes : List OutputType
  outputValueSum : Amount
  hasNonOpreturnOutputSmallerThan : Amount → Bool
  isSpendingSegwit : Bool
  isSpendingTaproot : Bool
  isSpendingMultisig : Bool
  isSignalingExplicitRbfReplicability : Bool
  potentiallyCoinjoin : Bool
  potentiallyConsolidation : Bool

structure GetBlockTemplateResultTransaction where
  txid : Txid
  rawTx : List UInt8
  fee : Amount
  sigops : UInt64
  weight : Nat
deriving DecidableEq

structure GetBlockTemplateResult where
  previousBlockHash : BlockHash
  height : Nat
  currentTime : UInt64
  coinbaseValue : Amount
  transactions : List GetBlockTemplateResultTransaction
deriving DecidableEq

structure GetBlockTxFee where
  txid : Txid
  fee : Amount

structure GetBlockTxFeesResult where
  tx : List GetBlockTxFee

/-- The descriptor `addr(..)`. -/
structure ScanTxOutRequest where
  addr : String
deriving DecidableEq

structure ScanTxOutUtxo where
  txid : Txid
  vout : UInt32
  scriptPubKey : ScriptBuf
  amount : Amount
  height : UInt64

structure ScanTxOutResult where
  height : Option UInt64
  unspents : List ScanTxOutUtxo
  totalAmount : Amount

structure Pool where
  name : String
  link : String
  addresses : List String
  tags : List String

inductive IdentificationMethod where
  | tag
  | address
deriving DecidableEq

structure IdentificationResult where
  pool : Pool
  identificationMethod : IdentificationMethod

/-- The body is missing when it is not valid UTF-8. -/
structure HttpResponse where
  statusCode : Int32
  reasonPhrase : String
  lines : Option (List String)

/-- Seconds since the UNIX epoch. -/
abbrev NaiveDateTime := Int

/-- The functions of other crates that the daemon calls. -/
structure Crates where
  computeTxid : Transaction → Txid
  isCoinbase : Transaction → Bool
  isLockTimeEnabled : Transaction → Bool
  vsize : Transaction → UInt64
  weight : Transaction → Nat
  sigops : Transaction → Option UInt64
  isOpReturn : ScriptBuf → Bool
  /-- The address of a script on mainnet, printed. -/
  addressFromScript : ScriptBuf → Option String
  /-- The script of an address in any spelling, of any network. -/
  parseAddress : String → Option ScriptBuf
  /-- Consensus decoding of a raw transaction. -/
  deserialize : List UInt8 → Option Transaction
  blockHash : Header → BlockHash
  blockWeight : Block → Nat
  bip34BlockHeight : Block → Option UInt64
  isSignallingSoftFork : Int32 → UInt8 → Bool
  rawTxInfo : Transaction → Option RawTxInfo
  isP2msCounterparty : Transaction → Bool
  isOpreturnCounterparty : Transaction → Bool
  isP2shCounterparty : Transaction → Bool
  revealsInscription : TxIn → Option Bool
  displayScriptType : ScriptType → String
  identifyPool : Block → Network → List Pool → Option IdentificationResult
  timestamp : Int64 → Option NaiveDateTime

end MiningpoolObserver.Bitcoin
