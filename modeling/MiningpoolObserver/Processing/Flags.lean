import MiningpoolObserver.Library.Fallible
import MiningpoolObserver.Processing.Builders
import MiningpoolObserver.Processing.Rounds
import MiningpoolObserver.Processing.Comparison

namespace MiningpoolObserver.Processing.Flags

open MiningpoolObserver.Library.HashCollections MiningpoolObserver.Library.Fallible
open MiningpoolObserver.Bitcoin MiningpoolObserver.DaemonModel MiningpoolObserver.Tags
open MiningpoolObserver.Processing.Sanctions MiningpoolObserver.Processing.Transactions
open MiningpoolObserver.Processing.Conflicts MiningpoolObserver.Processing.Builders
open MiningpoolObserver.Processing.Comparison MiningpoolObserver.Processing.Merging
open MiningpoolObserver.Processing.Rounds

variable {lib : Crates} {rs : RandomState} {txns : Set Bitcoin.Transaction}
variable {utxoMap : UtxoMap} {addresses : HashSet String}

def HasSanctionTag (tags : List Int) : Prop :=
  TxTag.toSanctioned.code ∈ tags ∨ TxTag.fromSanctioned.code ∈ tags

/-- The flag says what the tags say. -/
def FlagMatches (tx : SharedModel.Transaction) : Prop :=
  tx.sanctioned = true ↔ HasSanctionTag tx.tags

theorem hasSanctionTag_union {tags old new : List Int}
    (h : ∀ tag, tag ∈ tags ↔ tag ∈ old ∨ tag ∈ new) :
    HasSanctionTag tags ↔ HasSanctionTag old ∨ HasSanctionTag new := by
  unfold HasSanctionTag
  rw [h, h]
  tauto

theorem hasSanctionTag_getTransactionTags {txInfo : TxInfo} {rawTxInfo : RawTxInfo}
    {isConflictingTx : Bool} :
    HasSanctionTag
        (getTransactionTags lib txInfo rawTxInfo isConflictingTx utxoMap addresses) ↔
      isTxSanctioned lib txInfo.tx utxoMap addresses = true := by
  unfold HasSanctionTag isTxSanctioned
  rw [code_mem_getTransactionTags, code_mem_getTransactionTags, Bool.or_eq_true]
  simp [tagConditions]

theorem hasSanctionTag_retagTransaction {tx : Bitcoin.Transaction} {txInfo : TxInfo}
    {rawTxInfo : RawTxInfo} (h : lib.rawTxInfo tx = some rawTxInfo) :
    HasSanctionTag (retagTransaction lib tx txInfo addresses) ↔
      isTxSanctioned lib txInfo.tx HashMap.empty addresses = true := by
  rw [retagTransaction, h]
  exact hasSanctionTag_getTransactionTags

/-- What an id commits to: the outputs, and the outpoints that are spent. -/
def CollisionFree (lib : Crates) (txns : Set Bitcoin.Transaction) : Prop :=
  ∀ tx ∈ txns, ∀ tx' ∈ txns, lib.computeTxid tx = lib.computeTxid tx' →
    tx.output = tx'.output ∧
      tx.input.map (fun i => i.previousOutput) = tx'.input.map (fun i => i.previousOutput)

theorem CollisionFree.isTxSanctioned_eq (h : CollisionFree lib txns) {tx tx' : Bitcoin.Transaction}
    (ht : tx ∈ txns) (ht' : tx' ∈ txns) (hid : lib.computeTxid tx = lib.computeTxid tx') :
    isTxSanctioned lib tx utxoMap addresses = isTxSanctioned lib tx' utxoMap addresses := by
  obtain ⟨hout, hin⟩ := h tx ht tx' ht' hid
  simp only [isTxSanctioned, isTxToSanctioned, isTxFromSanctioned, hout, hin]

/-- The id is that of the transaction, which is one of those at hand. -/
def InfoOf (lib : Crates) (txns : Set Bitcoin.Transaction) (txInfo : TxInfo) : Prop :=
  txInfo.txid = lib.computeTxid txInfo.tx ∧ txInfo.tx ∈ txns

/-- What the transaction map holds under a key. -/
structure Built (lib : Crates) (txns : Set Bitcoin.Transaction) (utxoMap : UtxoMap)
    (addresses : HashSet String) (key : List UInt8) (t : SharedModel.Transaction) : Prop where
  txid : t.txid = key
  flag : FlagMatches t
  source : ∃ tx ∈ txns, (lib.computeTxid tx).reversed = key ∧
    t.sanctioned = isTxSanctioned lib tx utxoMap addresses

abbrev AllBuilt (lib : Crates) (txns : Set Bitcoin.Transaction) (utxoMap : UtxoMap)
    (addresses : HashSet String) (m : TransactionMap) : Prop :=
  m.All (Built lib txns utxoMap addresses)

theorem built_of_buildTransaction {txInfo : TxInfo} (hi : InfoOf lib txns txInfo)
    {isConflictingTx : Bool} {t : SharedModel.Transaction}
    (h : buildTransaction lib rs txInfo.txid.reversed txInfo isConflictingTx utxoMap addresses =
      some t) : Built lib txns utxoMap addresses t.txid t := by
  obtain ⟨rawTxInfo, -, rfl⟩ := Option.map_eq_some_iff.mp h
  refine ⟨rfl, ?_, txInfo.tx, hi.2, ?_, rfl⟩
  · exact hasSanctionTag_getTransactionTags.symm
  · rw [← hi.1]

/-- A transaction met again has the flag it had, so its union of tags still agrees with it. -/
theorem allBuilt_addToTransactions (hc : CollisionFree lib txns) {m : TransactionMap}
    (hm : AllBuilt lib txns utxoMap addresses m) {t : SharedModel.Transaction}
    (ht : Built lib txns utxoMap addresses t.txid t) :
    AllBuilt lib txns utxoMap addresses (addToTransactions t m) := by
  unfold addToTransactions
  cases m.get? t.txid with
  | none => exact hm.insert ht
  | some existingTx =>
    dsimp only
    split_ifs
    · refine hm.update (fun old ho => ⟨ho.txid, ?_, ho.source⟩)
      obtain ⟨tx, htx, hid, hs⟩ := ho.source
      obtain ⟨tx', htx', hid', hs'⟩ := ht.source
      have heq : old.sanctioned = t.sanctioned := by
        rw [hs, hs']
        exact hc.isTxSanctioned_eq htx htx' (Hash256.reversed_injective (hid.trans hid'.symm))
      have hold : old.sanctioned = true ↔ HasSanctionTag old.tags := ho.flag
      have hnew : t.sanctioned = true ↔ HasSanctionTag t.tags := ht.flag
      rw [FlagMatches, hasSanctionTag_union (fun _ => mem_bothTags), ← hold, ← hnew, heq, or_self]
    · exact hm

theorem allBuilt_addEach (hc : CollisionFree lib txns) {ts : List SharedModel.Transaction}
    (ht : ∀ t ∈ ts, Built lib txns utxoMap addresses t.txid t) :
    AllBuilt lib txns utxoMap addresses (addEach ts HashMap.empty) :=
  List.foldlRecOn (motive := AllBuilt lib txns utxoMap addresses) ts _ HashMap.all_empty
    (fun _ hm t hmem => allBuilt_addToTransactions hc hm (ht t hmem))

theorem built_of_mem_built {tries : Tries} (hi : ∀ t ∈ tries, InfoOf lib txns t.1)
    {t : SharedModel.Transaction} (ht : t ∈ built lib rs utxoMap addresses tries) :
    Built lib txns utxoMap addresses t.txid t := by
  obtain ⟨p, hmem, hb⟩ := List.mem_filterMap.mp ht
  exact built_of_buildTransaction (hi p hmem) hb

section Builders

abbrev InfosOf (lib : Crates) (txns : Set Bitcoin.Transaction) (m : HashMap Txid TxInfo) : Prop :=
  m.All (fun _ => InfoOf lib txns)

theorem infoOf_of_looked {txidToTxinfoMap : HashMap Txid TxInfo} {txids : List Txid}
    {infos : List TxInfo} (hm : InfosOf lib txns txidToTxinfoMap)
    (h : Looked txidToTxinfoMap txids infos) {txInfo : TxInfo} (hi : txInfo ∈ infos) :
    InfoOf lib txns txInfo := by
  obtain ⟨txid, -, hg⟩ := h.exists_of_mem hi
  exact hm.get? hg

/-- The transactions that a call of process looks at. -/
def transactionsAtHand (lib : Crates) (block : Bitcoin.Block)
    (lastTemplates : List GetBlockTemplateResult) : Set Bitcoin.Transaction :=
  {tx | tx ∈ block.txdata ∨
    ∃ t ∈ lastTemplates, ∃ templateTx ∈ t.transactions, lib.deserialize templateTx.rawTx = some tx}

variable {block : Bitcoin.Block} {lastTemplates : List GetBlockTemplateResult}

theorem infosOf_buildBlockTxData {fees : GetBlockTxFeesResult} {data : BlockTxData}
    (h : buildBlockTxData lib block fees = .ok data) :
    InfosOf lib (transactionsAtHand lib block lastTemplates) data.txidToTxinfoMap := by
  refine foldlM_invariant (P := fun (data : TxData) => InfosOf lib
    (transactionsAtHand lib block lastTemplates) data.txidToTxinfoMap) ?_ HashMap.all_empty h
  rintro ⟨tx, i⟩ htx data data' hdata hf
  dsimp only at hf
  split at hf
  · cases hf
    exact HashMap.All.insert hdata ⟨rfl, .inl (List.fst_mem_of_mem_zipIdx htx)⟩
  · cases hf

theorem infosOf_buildTemplateTxData {template : GetBlockTemplateResult}
    (ht : template ∈ lastTemplates) :
    InfosOf lib (transactionsAtHand lib block lastTemplates)
      (buildTemplateTxData lib template).txidToTxinfoMap := by
  refine List.foldlRecOn (motive := fun (data : TxData) => InfosOf lib
    (transactionsAtHand lib block lastTemplates) data.txidToTxinfoMap) template.transactions.zipIdx
    _ HashMap.all_empty ?_
  rintro data hdata ⟨tx, i⟩ htx
  dsimp only
  cases hd : lib.deserialize tx.rawTx with
  | none => exact hdata
  | some deserTx =>
    have hmem : deserTx ∈ transactionsAtHand lib block lastTemplates :=
      .inr ⟨template, ht, tx, List.fst_mem_of_mem_zipIdx htx, hd⟩
    exact HashMap.All.insert hdata ⟨rfl, hmem⟩

theorem nodup_values {m : TransactionMap} (hm : AllBuilt lib txns utxoMap addresses m) :
    ((m.values rs).map (fun tx => tx.txid)).Nodup :=
  nodup_txids_values (fun e he => (hm e he).txid)

theorem flagMatches_of_mem_values {m : TransactionMap}
    (hm : AllBuilt lib txns utxoMap addresses m) {tx : SharedModel.Transaction}
    (h : tx ∈ m.values rs) : FlagMatches tx := by
  obtain ⟨key, he⟩ := HashMap.mem_values.mp h
  exact (hm _ he).flag

end Builders

end MiningpoolObserver.Processing.Flags
