import Mathlib.Data.List.Sort
import Mathlib.Data.List.Destutter
import MiningpoolObserver.Library.HashCollections
import MiningpoolObserver.SharedModel

namespace MiningpoolObserver.Processing.Sanctions

open MiningpoolObserver.Library.HashCollections
open MiningpoolObserver.Bitcoin MiningpoolObserver.SharedModel

/-- A transaction id in internal byte order with an output index. -/
abbrev OutpointKey := List UInt8 × UInt32

abbrev UtxoMap := HashMap OutpointKey SanctionedUtxo

def keyOfUtxo (utxo : SanctionedUtxo) : OutpointKey := (utxo.txid.reverse, utxo.vout.toUInt32)

def keyOfOutpoint (outpoint : OutPoint) : OutpointKey := (outpoint.txid.bytes, outpoint.vout)

def buildOutpointToSanctionedUtxoMap (sanctionedUtxos : List SanctionedUtxo) : UtxoMap :=
  HashMap.collect (sanctionedUtxos.map (fun utxo => (keyOfUtxo utxo, utxo)))

variable (lib : Crates)

/-- Whether the printed address of the script is listed. -/
def paysTo (sanctionedAddresses : HashSet String) (scriptPubkey : ScriptBuf) : Bool :=
  match lib.addressFromScript scriptPubkey with
  | some address => decide (address ∈ sanctionedAddresses)
  | none => false

def isTxToSanctioned (tx : Bitcoin.Transaction) (sanctionedAddresses : HashSet String) : Bool :=
  tx.output.any (fun output => paysTo lib sanctionedAddresses output.scriptPubkey)

def isTxFromSanctioned (tx : Bitcoin.Transaction) (utxoMap : UtxoMap) : Bool :=
  (tx.input.map (fun input => input.previousOutput)).any
    (fun outpoint => utxoMap.containsKey (keyOfOutpoint outpoint))

def isTxSanctioned (tx : Bitcoin.Transaction) (utxoMap : UtxoMap)
    (sanctionedAddresses : HashSet String) : Bool :=
  isTxToSanctioned lib tx sanctionedAddresses || isTxFromSanctioned tx utxoMap

def txSanctionedAddressesTo (rs : RandomState) (tx : Bitcoin.Transaction)
    (sanctionedAddresses : HashSet String) : List String :=
  let addresses := tx.output.foldl (fun addresses out =>
    match lib.addressFromScript out.scriptPubkey with
    | some address =>
      if address ∈ sanctionedAddresses then addresses.insert address else addresses
    | none => addresses) HashSet.empty
  addresses.iter rs

def txSanctionedAddressesFrom (rs : RandomState) (tx : Bitcoin.Transaction) (utxoMap : UtxoMap) :
    List String :=
  let addresses := tx.input.foldl (fun addresses input =>
    match utxoMap.get? (keyOfOutpoint input.previousOutput) with
    | some utxo =>
      match lib.addressFromScript utxo.scriptPubkey with
      | some address => addresses.insert address
      | none => addresses
    | none => addresses) HashSet.empty
  addresses.iter rs

def txSanctionedAddresses (rs : RandomState) (tx : Bitcoin.Transaction) (utxoMap : UtxoMap)
    (sanctionedAddresses : HashSet String) : List String :=
  let addresses := txSanctionedAddressesTo lib rs tx sanctionedAddresses ++
    txSanctionedAddressesFrom lib rs tx utxoMap
  (addresses.insertionSort (· ≤ ·)).destutter (· ≠ ·)

/-- The row of one output of a transaction in a block. -/
def newSanctionedUtxo (block : Bitcoin.Block) (tx : Bitcoin.Transaction) (vout : Nat)
    (output : TxOut) : SanctionedUtxo where
  amount := output.value.toInt64
  scriptPubkey := output.scriptPubkey
  height := ((lib.bip34BlockHeight block).getD 0).toUInt32.toInt32
  txid := (lib.computeTxid tx).reversed
  vout := Int32.ofNat vout

def buildNewlyCreatedSanctionedUtxos (block : Bitcoin.Block)
    (sanctionedAddresses : HashSet String) : List SanctionedUtxo :=
  (block.txdata.filter (fun tx => isTxToSanctioned lib tx sanctionedAddresses)).flatMap
    (fun tx => tx.output.zipIdx.filterMap (fun (output, vout) =>
      if paysTo lib sanctionedAddresses output.scriptPubkey then
        some (newSanctionedUtxo lib block tx vout output)
      else none))

end MiningpoolObserver.Processing.Sanctions
