import MiningpoolObserver.BuiltRecords
import MiningpoolObserver.Simulation

namespace MiningpoolObserver.DetailRows

open MiningpoolObserver.Library.HashCollections
open MiningpoolObserver.Bitcoin MiningpoolObserver.DaemonModel MiningpoolObserver.Process
open MiningpoolObserver.Processing.Sanctions MiningpoolObserver.Processing.Transactions
open MiningpoolObserver.Processing.Rounds MiningpoolObserver.BuiltRecords
open MiningpoolObserver.Simulation

variable {lib : Crates} {rs : RandomState} {network : Network} {block : Bitcoin.Block}
variable {fees : GetBlockTxFeesResult} {lt : List GetBlockTemplateResult} {c : Comparison}
variable {s : Sanctions} {b : SharedModel.NewBlock} {blockId : Int64} {r : Records}

/-- Every id that a detail row refers to is a key of the transactions. -/
structure Keyed (r : Records) : Prop where
  onlyInBlock : ∀ row ∈ r.onlyInBlock, r.transactions.containsKey row.transactionTxid = true
  onlyInTemplate : ∀ row ∈ r.onlyInTemplate, r.transactions.containsKey row.transactionTxid = true
  sanctioned : ∀ row ∈ r.sanctionedInfos, r.transactions.containsKey row.transactionTxid = true
  conflicting : ∀ row ∈ r.conflicting, ∀ txid ∈ row.templateTxids ++ row.blockTxids,
    r.transactions.containsKey txid = true

/-- A transaction of the template with an id that no transaction of the block has. -/
def OnlyInTemplate (c : Comparison) (txInfo : TxInfo) : Prop :=
  ∃ txid, txid ∈ c.templateTxData.txids ∧ txid ∉ c.blockTxData.txids ∧
    c.templateTxData.txidToTxinfoMap.get? txid = some txInfo

def OnlyInBlock (c : Comparison) (txInfo : TxInfo) : Prop :=
  ∃ txid, txid ∈ c.blockTxData.txids ∧ txid ∉ c.templateTxData.txids ∧
    c.blockTxData.txidToTxinfoMap.get? txid = some txInfo

def OnlyInOne (c : Comparison) (txInfo : TxInfo) : Prop :=
  OnlyInTemplate c txInfo ∨ OnlyInBlock c txInfo

/-- A transaction that is added to the map if it can be built. -/
def Added (lib : Crates) (c : Comparison) (s : Sanctions) (txInfo : TxInfo) : Prop :=
  OnlyInOne c txInfo ∨ isTxSanctioned lib txInfo.tx s.utxoMap s.addresses = true ∧
    ∃ txid ∈ c.templateTxData.txids, c.templateTxData.txidToTxinfoMap.get? txid = some txInfo

section Passes

variable (hc : Compared lib block fees lt c) {k : Passes} (hk : Made lib rs blockId c s k r)
variable {txInfo : TxInfo}
include hc hk

theorem onlyInTemplate_iff : OnlyInTemplate c txInfo ↔ txInfo ∈ k.onlyInTemplate := by
  rw [hk.template.mem_iff, hc.onlyInTemplate]
  simp only [HashSet.mem_iter, HashSet.mem_difference, OnlyInTemplate, and_assoc]

theorem onlyInBlock_iff : OnlyInBlock c txInfo ↔ txInfo ∈ k.onlyInBlock := by
  rw [hk.block.mem_iff, hc.onlyInBlock]
  simp only [HashSet.mem_iter, HashSet.mem_difference, OnlyInBlock, and_assoc]

theorem onlyInOne_iff :
    OnlyInOne c txInfo ↔ txInfo ∈ k.onlyInTemplate ∨ txInfo ∈ k.onlyInBlock := by
  rw [OnlyInOne, onlyInTemplate_iff hc hk, onlyInBlock_iff hc hk]

theorem added_iff :
    Added lib c s txInfo ↔ txInfo ∈ k.onlyInTemplate ∨ txInfo ∈ k.onlyInBlock ∨
      txInfo ∈ k.inTemplate ∧ isTxSanctioned lib txInfo.tx s.utxoMap s.addresses = true := by
  rw [Added, onlyInOne_iff hc hk, hk.inTemplate.mem_iff]
  simp only [HashSet.mem_iter, or_assoc, and_comm]

/-- A key of the map is the id of a transaction that was added. -/
theorem containsKey_iff {txid : Txid} :
    r.transactions.containsKey txid.reversed = true ↔ ∃ txInfo, Added lib c s txInfo ∧
      (lib.rawTxInfo txInfo.tx).isSome ∧ txInfo.txid = txid := by
  rw [hk.containsKey_iff]
  simp only [added_iff hc hk, Hash256.reversed_injective.eq_iff]

end Passes

/-- The map has every key that the rows need exactly when each transaction that is only in one of
the two can be built, or another one with its id can. -/
theorem keyed_iff (h : Computes lib rs network block fees lt c s b blockId r) :
    Keyed r ↔ ∀ txInfo, OnlyInOne c txInfo → ∃ txInfo', Added lib c s txInfo' ∧
      (lib.rawTxInfo txInfo'.tx).isSome ∧ txInfo'.txid = txInfo.txid := by
  obtain ⟨k, hk⟩ := h.made
  have hc := compared_of_compareBlock h.compared
  constructor
  · intro hr txInfo hi
    rw [← containsKey_iff hc hk]
    obtain hi | hi := (onlyInOne_iff hc hk).mp hi
    · obtain ⟨row, hrow, he⟩ := hk.mem_onlyInTemplate.mpr ⟨txInfo, hi, rfl⟩
      exact he ▸ hr.onlyInTemplate row hrow
    · obtain ⟨row, hrow, he⟩ := hk.mem_onlyInBlock.mpr ⟨txInfo, hi, rfl⟩
      exact he ▸ hr.onlyInBlock row hrow
  · intro hall
    have hkey : ∀ txInfo, txInfo ∈ k.onlyInTemplate ∨ txInfo ∈ k.onlyInBlock →
        r.transactions.containsKey txInfo.txid.reversed = true :=
      fun txInfo hi => (containsKey_iff hc hk).mpr (hall txInfo ((onlyInOne_iff hc hk).mpr hi))
    refine ⟨fun row hrow => ?_, fun row hrow => ?_, fun row hrow => ?_, fun row hrow txid ht => ?_⟩
    · obtain ⟨txInfo, hi, he⟩ := hk.mem_onlyInBlock.mp ⟨row, hrow, rfl⟩
      exact he ▸ hkey txInfo (.inr hi)
    · obtain ⟨txInfo, hi, he⟩ := hk.mem_onlyInTemplate.mp ⟨row, hrow, rfl⟩
      exact he ▸ hkey txInfo (.inl hi)
    · obtain ⟨txInfo, hi, hs, hraw, he⟩ := hk.mem_sanctionedInfos hrow
      rw [← he, containsKey_iff hc hk]
      exact ⟨txInfo, (added_iff hc hk).mpr (by tauto), hraw, rfl⟩
    · obtain ⟨txInfo, hi, he⟩ := hk.mem_conflicting hrow ht
      exact he ▸ hkey txInfo hi

def noSanctions : Sanctions := ⟨HashSet.empty, HashMap.empty⟩

theorem computes_sample : ∃ c b r, Computes sample .inserted .bitcoin block₁ (feesOf sample block₁)
    [templateOf chain₀] c noSanctions b 7 r ∧ r.onlyInBlock.length = 1 :=
  ⟨_, _, _, ⟨rfl, ⟨_, [], 0, rfl, rfl⟩, _, HashMap.empty, rfl, rfl⟩, rfl⟩

/-- Everything can be built. -/
theorem keyed_sample : ∃ c b r, Computes sample .inserted .bitcoin block₁ (feesOf sample block₁)
    [templateOf chain₀] c noSanctions b 7 r ∧ r.onlyInBlock.length = 1 ∧ Keyed r := by
  obtain ⟨c, b, r, h, hlen⟩ := computes_sample
  exact ⟨c, b, r, h, hlen, (keyed_iff h).mpr (fun txInfo hi => ⟨txInfo, .inl hi, rfl, rfl⟩)⟩

/-- One transaction cannot be parsed. -/
def unparsable : Crates :=
  { sample with rawTxInfo := fun tx => if tx.lockTime = 103 then none else sample.rawTxInfo tx }

def unparsableBlock : Bitcoin.Block :=
  sampleBlock 1 2 [coinbaseTx 102 otherScript, sampleTx 103 ⟨hashOfByte 50, 0⟩ otherScript]

theorem computes_unparsable : ∃ c b r, Computes unparsable .inserted .bitcoin unparsableBlock
    (feesOf unparsable unparsableBlock) [templateOf chain₀] c noSanctions b 7 r ∧
      (∃ row ∈ r.onlyInBlock, row.transactionTxid = (hashOfByte 103).reversed) ∧
      r.transactions.containsKey (hashOfByte 103).reversed = false := by
  refine ⟨_, _, _, ⟨rfl, ⟨_, [], 0, rfl, rfl⟩, _, HashMap.empty, rfl, rfl⟩, ?_, rfl⟩
  exact ⟨_, List.mem_of_getElem? (i := 1) rfl, rfl⟩

/-- The row of the transaction that cannot be parsed is there, but not the transaction. -/
theorem keyed_fails : ¬ ∀ c b r, Computes unparsable .inserted .bitcoin unparsableBlock
    (feesOf unparsable unparsableBlock) [templateOf chain₀] c noSanctions b 7 r → Keyed r := by
  intro hall
  obtain ⟨c, b, r, h, ⟨row, hrow, hid⟩, hkey⟩ := computes_unparsable
  have hk := (hall c b r h).onlyInBlock row hrow
  rw [hid, hkey] at hk
  cases hk

end MiningpoolObserver.DetailRows
