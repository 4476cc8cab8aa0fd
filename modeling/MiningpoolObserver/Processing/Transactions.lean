import MiningpoolObserver.DaemonModel
import MiningpoolObserver.Tags
import MiningpoolObserver.Processing.Sanctions

namespace MiningpoolObserver.Processing.Transactions

open MiningpoolObserver.Library.HashCollections
open MiningpoolObserver.Bitcoin MiningpoolObserver.DaemonModel MiningpoolObserver.Tags
open MiningpoolObserver.Processing.Sanctions

variable (lib : Crates)

/-- Each kind of script with how often it occurs. -/
def countTypes (types : List ScriptType) : HashMap ScriptType UInt32 :=
  types.foldl (fun counts t =>
    match counts.get? t with
    | some count => counts.insert t (count + 1)
    | none => counts.insert t 1) HashMap.empty

def typeStrings (rs : RandomState) (types : List ScriptType) : List String :=
  ((countTypes types).iter rs).map
    (fun e => toString e.2.toNat ++ "x " ++ lib.displayScriptType e.1)

def inAndOutputsToStrings (rs : RandomState) (rawTxInfo : RawTxInfo) : List String × List String :=
  (typeStrings lib rs rawTxInfo.inputTypes, typeStrings lib rs rawTxInfo.outputTypes)

def isTxOpreturn (tx : Bitcoin.Transaction) : Bool :=
  tx.output.any (fun out => lib.isOpReturn out.scriptPubkey)

def isRare (t : ScriptType) : Bool := t = .p2pk || t = .p2ms

/-- Every condition with the tag it sets, in the order in which the tags are pushed. -/
def tagConditions (txInfo : TxInfo) (rawTxInfo : RawTxInfo) (isConflictingTx : Bool)
    (utxoMap : UtxoMap) (sanctionedAddresses : HashSet String) : List (Bool × TxTag) :=
  [ (isConflictingTx, .conflicting),
    (isTxToSanctioned lib txInfo.tx sanctionedAddresses, .toSanctioned),
    (isTxFromSanctioned txInfo.tx utxoMap, .fromSanctioned),
    (lib.isCoinbase txInfo.tx, .coinbase),
    -- warnings
    (txInfo.fee = 0 && !lib.isCoinbase txInfo.tx, .zeroFee),
    (txInfo.feerate lib ≥ THRESHOLD_FEERATE_CONSIDERED_HIGH, .highFeerate),
    (rawTxInfo.vsize ≥ THRESHOLD_TRANSACTION_CONSIDERED_LARGE, .large),
    (rawTxInfo.hasNonOpreturnOutputSmallerThan THRESHOLD_OUTPUT_CONSIDERED_DUST, .dustOutput),
    (rawTxInfo.outputValueSum > THRESHOLD_VALUE_CONSIDERED_HIGH, .highValue),
    ((lib.sigops txInfo.tx).getD 0 > THRESHOLD_SIGOPS_CONSIDERED_MANY, .manySigops),
    -- normal
    (rawTxInfo.isSpendingSegwit, .segWit),
    (rawTxInfo.isSpendingTaproot, .taproot),
    (rawTxInfo.isSpendingMultisig, .multisig),
    (isTxOpreturn lib txInfo.tx, .opReturn),
    (lib.isP2msCounterparty txInfo.tx || lib.isOpreturnCounterparty txInfo.tx ||
      lib.isP2shCounterparty txInfo.tx, .counterParty),
    (txInfo.tx.input.any (fun input => (lib.revealsInscription input).getD false), .inscription),
    (rawTxInfo.inputTypes.any isRare || rawTxInfo.outputTypes.any isRare, .rareScriptType),
    (rawTxInfo.isSignalingExplicitRbfReplicability, .rbfSignaling),
    (rawTxInfo.potentiallyCoinjoin, .coinjoin),
    (rawTxInfo.potentiallyConsolidation, .consolidation),
    (rawTxInfo.locktime.isBlockHeight && lib.isLockTimeEnabled txInfo.tx &&
      rawTxInfo.locktime.gt (LockTime.fromConsensus 0), .lockByHeight),
    (rawTxInfo.locktime.isBlockTime && lib.isLockTimeEnabled txInfo.tx &&
      rawTxInfo.locktime.gt (LockTime.fromConsensus 0), .lockByTimestamp) ]

def getTransactionTags (txInfo : TxInfo) (rawTxInfo : RawTxInfo) (isConflictingTx : Bool)
    (utxoMap : UtxoMap) (sanctionedAddresses : HashSet String) : List Int :=
  ((tagConditions lib txInfo rawTxInfo isConflictingTx utxoMap sanctionedAddresses).filter
    (fun c => c.1)).map (fun c => c.2.code)

theorem code_mem_getTransactionTags {lib : Crates} {txInfo : TxInfo} {rawTxInfo : RawTxInfo}
    {isConflictingTx : Bool} {utxoMap : UtxoMap} {sanctionedAddresses : HashSet String}
    {tag : TxTag} :
    tag.code ∈ getTransactionTags lib txInfo rawTxInfo isConflictingTx utxoMap sanctionedAddresses ↔
      (true, tag) ∈
        tagConditions lib txInfo rawTxInfo isConflictingTx utxoMap sanctionedAddresses := by
  simp only [getTransactionTags, List.mem_map, List.mem_filter, Prod.exists]
  constructor
  · rintro ⟨b, t, ⟨hm, rfl⟩, hc⟩
    rwa [← TxTag.code_injective hc]
  · exact fun hm => ⟨true, tag, ⟨hm, rfl⟩, rfl⟩

def retagTransaction (tx : Bitcoin.Transaction) (txInfo : TxInfo)
    (sanctionedAddresses : HashSet String) : List Int :=
  match lib.rawTxInfo tx with
  | some rawTxInfo =>
    getTransactionTags lib txInfo rawTxInfo false HashMap.empty sanctionedAddresses
  | none => []

/-- Fails when `RawTxInfo::new` does. -/
def buildTransaction (rs : RandomState) (reversedTxid : List UInt8) (txInfo : TxInfo)
    (isConflictingTx : Bool) (utxoMap : UtxoMap) (sanctionedAddresses : HashSet String) :
    Option SharedModel.Transaction :=
  (lib.rawTxInfo txInfo.tx).map (fun rawTxInfo =>
    let strs := inAndOutputsToStrings lib rs rawTxInfo
    { txid := reversedTxid
      sanctioned := isTxSanctioned lib txInfo.tx utxoMap sanctionedAddresses
      fee := txInfo.fee.toInt64
      vsize := (lib.vsize txInfo.tx).toUInt32.toInt32
      outputSum := (txInfo.tx.output.map (fun (o : TxOut) => o.value)).sum.toInt64
      tags := getTransactionTags lib txInfo rawTxInfo isConflictingTx utxoMap sanctionedAddresses
      inputCount := Int32.ofNat txInfo.tx.input.length
      inputs := strs.1
      outputCount := Int32.ofNat txInfo.tx.output.length
      outputs := strs.2
      sigops := ((lib.sigops txInfo.tx).getD 0).toInt64 })

/-- The transactions of one call of process, by their reversed ids. -/
abbrev TransactionMap := HashMap (List UInt8) SharedModel.Transaction

def bothTags (existingTags newTags : List Int) : List Int :=
  ((existingTags ++ newTags).insertionSort (· ≤ ·)).destutter (· ≠ ·)

def addToTransactions (newTx : SharedModel.Transaction) (transactions : TransactionMap) :
    TransactionMap :=
  match transactions.get? newTx.txid with
  | some existingTx =>
    if existingTx.tags ≠ newTx.tags then
      transactions.update (fun tx => { tx with tags := bothTags tx.tags newTx.tags }) newTx.txid
    else transactions
  | none => transactions.insert newTx.txid newTx

/-- Build a transaction and add it; one that cannot be built is logged and left out. -/
def buildAndAdd (rs : RandomState) (txInfo : TxInfo) (isConflictingTx : Bool) (utxoMap : UtxoMap)
    (sanctionedAddresses : HashSet String) (transactions : TransactionMap) : TransactionMap :=
  match buildTransaction lib rs txInfo.txid.reversed txInfo isConflictingTx utxoMap
      sanctionedAddresses with
  | some t => addToTransactions t transactions
  | none => transactions

end MiningpoolObserver.Processing.Transactions
