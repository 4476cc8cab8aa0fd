import MiningpoolObserver.DetailRows
import MiningpoolObserver.Overlap
import MiningpoolObserver.Processing.Flags

namespace MiningpoolObserver.SanctionCounts

open MiningpoolObserver.Library.HashCollections MiningpoolObserver.Library.Fallible
open MiningpoolObserver.Bitcoin MiningpoolObserver.DaemonModel MiningpoolObserver.Process
open MiningpoolObserver.Processing.Sanctions MiningpoolObserver.Processing.Transactions
open MiningpoolObserver.Processing.Conflicts MiningpoolObserver.Processing.Builders
open MiningpoolObserver.Processing.Rounds MiningpoolObserver.Processing.Listing
open MiningpoolObserver.Processing.Flags MiningpoolObserver.BuiltRecords MiningpoolObserver.Overlap
open MiningpoolObserver.Simulation MiningpoolObserver.DetailRows

variable {lib : Crates} {rs : RandomState} {network : Network} {block : Bitcoin.Block}
variable {fees : GetBlockTxFeesResult} {lt : List GetBlockTemplateResult} {c : Comparison}
variable {s : Sanctions} {b : SharedModel.NewBlock} {blockId : Int64} {r : Records}

/-- The transactions that a call compares: those of the block and of the selected template. -/
def compared (lib : Crates) (block : Bitcoin.Block) (c : Comparison) : Set Bitcoin.Transaction :=
  {tx | tx ∈ block.txdata ∨ ∃ p ∈ decoded lib c.template, p.1 = tx}

/-- The numbers in the block row are those of the rows, and each sanctioned transaction has one. -/
structure Counted (lib : Crates) (block : Bitcoin.Block) (c : Comparison) (s : Sanctions)
    (b : SharedModel.NewBlock) (r : Records) : Prop where
  blockSanctioned : b.blockSanctioned =
    Int32.ofNat (r.sanctionedInfos.countP (fun row => row.inBlock))
  templateSanctioned : b.templateSanctioned =
    Int32.ofNat (r.sanctionedInfos.countP (fun row => row.inTemplate))
  sanctionedMissingTx : b.sanctionedMissingTx =
    Int32.ofNat (r.sanctionedInfos.countP (fun row => row.inTemplate && !row.inBlock))
  oneRow : ∀ tx ∈ compared lib block c, isTxSanctioned lib tx s.utxoMap s.addresses = true →
    r.sanctionedInfos.countP (fun row => row.transactionTxid = (lib.computeTxid tx).reversed) = 1
  noOther : ∀ row ∈ r.sanctionedInfos, ∃ tx ∈ compared lib block c,
    isTxSanctioned lib tx s.utxoMap s.addresses = true ∧
      (lib.computeTxid tx).reversed = row.transactionTxid

variable (lib s) in
def sanctioned (txInfo : TxInfo) : Bool := isTxSanctioned lib txInfo.tx s.utxoMap s.addresses

theorem chosen_eq {infos : List TxInfo} (h : ∀ i ∈ infos, (lib.rawTxInfo i.tx).isSome) :
    chosen lib s.utxoMap s.addresses infos = infos.filter (sanctioned lib s) := by
  apply List.filter_congr
  intro i hi
  rw [h i hi, Bool.and_true, sanctioned]

/-- The numbers of the block row, as it is computed. -/
theorem row_counts (h : Computes lib rs network block fees lt c s b blockId r) :
    ∃ missing, c.txidsOnlyInTemplate.elems.mapM (lookup c.templateTxData.txidToTxinfoMap) =
        .ok missing ∧
      b.sanctionedMissingTx = Int32.ofNat (missing.countP (sanctioned lib s)) ∧
      b.blockSanctioned = Int32.ofNat
        (block.txdata.countP (fun tx => isTxSanctioned lib tx s.utxoMap s.addresses)) ∧
      b.templateSanctioned =
        Int32.ofNat ((infosIn c.templateTxData).countP (sanctioned lib s)) := by
  obtain ⟨n, pools, now, hn, hb⟩ := h.row
  obtain ⟨missing, hm, hn⟩ := bind_eq_ok.mp hn
  cases hn
  have hrow := rowOf_buildBlock hb
  refine ⟨missing, hm, hrow.sanctionedMissingTx, hrow.blockSanctioned, ?_⟩
  rw [hrow.templateSanctioned, infosIn, List.countP_map]
  rfl

theorem isTxSanctioned_eq_of_txid (hc : CollisionFree lib (compared lib block c))
    {i i' : TxInfo} (hi : InfoOf lib (compared lib block c) i)
    (hi' : InfoOf lib (compared lib block c) i') (hid : i.txid = i'.txid) :
    sanctioned lib s i = sanctioned lib s i' :=
  hc.isTxSanctioned_eq hi.2 hi'.2 (hi.1.symm.trans (hid.trans hi'.1))

section Sides

variable {bs ts : List TxInfo} (hs : Sides lib block c bs ts)

include hs in
theorem infoOf_block {i : TxInfo} (hi : i ∈ infosIn c.blockTxData) :
    InfoOf lib (compared lib block c) i := by
  have hm : i ∈ bs := mem_of_mem_infosIn_dataOf (hs.blockData ▸ hi)
  have htx : i.tx ∈ block.txdata := by
    rw [← List.zipIdx_map_fst 0 block.txdata, ← hs.blockPlaces.map_tx]
    exact List.mem_map_of_mem hm
  exact ⟨hs.blockPlaces.txid_eq hm, .inl htx⟩

include hs in
theorem infoOf_template {i : TxInfo} (hi : i ∈ infosIn c.templateTxData) :
    InfoOf lib (compared lib block c) i := by
  have hm : i ∈ ts := mem_of_mem_infosIn_dataOf (hs.templateData ▸ hi)
  have htx : i.tx ∈ (decoded lib c.template).map Prod.fst := by
    rw [← hs.templatePlaces.map_tx]
    exact List.mem_map_of_mem hm
  obtain ⟨p, hp, he⟩ := List.mem_map.mp htx
  exact ⟨hs.templatePlaces.txid_eq hm, .inr ⟨p, hp, he⟩⟩

include hs in
/-- Each transaction of the two sides is in the data under its id. -/
theorem exists_infoOf {tx : Bitcoin.Transaction} (htx : tx ∈ compared lib block c) :
    ∃ i, i.txid = lib.computeTxid tx ∧
      (i ∈ infosIn c.blockTxData ∨ i ∈ infosIn c.templateTxData) := by
  have hdata : ∀ {l : List (Bitcoin.Transaction × Nat)} {infos : List TxInfo} {p},
      Places lib l infos → p ∈ l → ∃ i ∈ infosIn (dataOf infos), i.txid = lib.computeTxid p.1 := by
    intro l infos p hp hm
    have htx : p.1 ∈ infos.map (fun i => i.tx) := hp.map_tx ▸ List.mem_map_of_mem hm
    obtain ⟨i, hi, he⟩ := List.mem_map.mp htx
    have hid : i.txid ∈ txidsOf infos := List.mem_map_of_mem hi
    obtain ⟨i', hi', he'⟩ := List.mem_map.mp ((mem_txidsOf_infosIn_dataOf infos).mpr hid)
    exact ⟨i', hi', by rw [he', hp.txid_eq hi, he]⟩
  obtain hb | ⟨p, hp, rfl⟩ := htx
  · obtain ⟨p, hp, rfl⟩ := List.mem_map.mp ((List.zipIdx_map_fst 0 block.txdata).symm ▸ hb)
    obtain ⟨i, hi, hid⟩ := hdata hs.blockPlaces hp
    exact ⟨i, hid, .inl (hs.blockData ▸ hi)⟩
  · obtain ⟨i, hi, hid⟩ := hdata hs.templatePlaces hp
    exact ⟨i, hid, .inr (hs.templateData ▸ hi)⟩

end Sides

/-- The transactions with a row, in the order of the rows. -/
def listed (lib : Crates) (s : Sanctions) (k : Passes) : List TxInfo :=
  (k.inTemplate ++ k.onlyInBlock).filter (sanctioned lib s)

section Rows

variable {k : Passes} (hc : Compared lib block fees lt c) (hk : Made lib rs blockId c s k r)
variable (hb : Aligned c.blockTxData) (ht : Aligned c.templateTxData)
variable (hraw : ∀ tx ∈ compared lib block c, (lib.rawTxInfo tx).isSome)

include hk in
theorem countP_rows (hi : ∀ i ∈ k.inTemplate ++ k.onlyInBlock, (lib.rawTxInfo i.tx).isSome)
    (p : Bool → Bool → Bool) :
    r.sanctionedInfos.countP (fun row => p row.inBlock row.inTemplate) =
      k.inTemplate.countP
        (fun i => p (i.txid ∈ c.blockTxData.txids) true && sanctioned lib s i) +
      k.onlyInBlock.countP (fun i => p true false && sanctioned lib s i) := by
  rw [hk.sanctionedRows, List.countP_append, List.countP_map, List.countP_map,
    chosen_eq (fun i h => hi i (List.mem_append_left _ h)),
    chosen_eq (fun i h => hi i (List.mem_append_right _ h)), List.countP_filter, List.countP_filter]
  rfl

include hk in
theorem map_transactionTxid
    (hi : ∀ i ∈ k.inTemplate ++ k.onlyInBlock, (lib.rawTxInfo i.tx).isSome) :
    r.sanctionedInfos.map (fun row => row.transactionTxid) =
      (listed lib s k).map (fun i => i.txid.reversed) := by
  rw [hk.sanctionedRows, chosen_eq (fun i h => hi i (List.mem_append_left _ h)),
    chosen_eq (fun i h => hi i (List.mem_append_right _ h)), listed, List.filter_append,
    List.map_append, List.map_append, List.map_map, List.map_map]
  rfl

include hk hc hb ht in
theorem perm_listed : (listed lib s k).Perm
    ((infosIn c.templateTxData ++ without (infosIn c.blockTxData) c.templateTxData.txids).filter
      (sanctioned lib s)) :=
  ((perm_inTemplate ht hk).append (perm_onlyInBlock hb hc hk)).filter _

include hk hc hb ht in
/-- The template and what only the block has share no id. -/
theorem nodup_listed : ((listed lib s k).map (fun i => i.txid.reversed)).Nodup := by
  rw [((perm_listed hc hk hb ht).map _).nodup_iff, List.filter_append, List.map_append,
    List.nodup_append]
  refine ⟨ht.nodup_reversed List.filter_sublist,
    hb.nodup_reversed (List.filter_sublist.trans List.filter_sublist), ?_⟩
  intro key hk key' hk' he
  obtain ⟨i, hi, rfl⟩ := List.mem_map.mp hk
  obtain ⟨i', hi', rfl⟩ := List.mem_map.mp hk'
  have hid : i.txid = i'.txid := Hash256.reversed_injective he
  refine (mem_without.mp (List.mem_of_mem_filter hi')).2 (ht.mem_txids.mpr ?_)
  exact hid ▸ List.mem_map_of_mem (List.mem_of_mem_filter hi)

include hk hc hb ht in
theorem mem_listed {i : TxInfo} : i ∈ listed lib s k ↔ sanctioned lib s i = true ∧
    (i ∈ infosIn c.templateTxData ∨
      i ∈ infosIn c.blockTxData ∧ i.txid ∉ c.templateTxData.txids) := by
  rw [(perm_listed hc hk hb ht).mem_iff, List.mem_filter, List.mem_append, mem_without, and_comm]

include hk hc hb ht in
theorem exists_listed {bs ts : List TxInfo} (hs : Sides lib block c bs ts)
    (hcf : CollisionFree lib (compared lib block c)) {tx : Bitcoin.Transaction}
    (hm : tx ∈ compared lib block c)
    (hstx : isTxSanctioned lib tx s.utxoMap s.addresses = true) :
    ∃ i ∈ listed lib s k, i.txid = lib.computeTxid tx := by
  have hown : ∀ {i : TxInfo}, InfoOf lib (compared lib block c) i →
      i.txid = lib.computeTxid tx → sanctioned lib s i = true :=
    fun hi hid => (hcf.isTxSanctioned_eq hi.2 hm (hi.1.symm.trans hid)).trans hstx
  have htemplate : ∀ {i : TxInfo}, i ∈ infosIn c.templateTxData → i.txid = lib.computeTxid tx →
      i ∈ listed lib s k :=
    fun hi hid => (mem_listed hc hk hb ht).mpr ⟨hown (infoOf_template hs hi) hid, .inl hi⟩
  obtain ⟨i, hid, hi | hi⟩ := exists_infoOf hs hm
  · by_cases hshared : i.txid ∈ c.templateTxData.txids
    · obtain ⟨i', hi', hid'⟩ := List.mem_map.mp (ht.mem_txids.mp hshared)
      exact ⟨i', htemplate hi' (hid'.trans hid), hid'.trans hid⟩
    · have hl : i ∈ listed lib s k :=
        (mem_listed hc hk hb ht).mpr ⟨hown (infoOf_block hs hi) hid, .inr ⟨hi, hshared⟩⟩
      exact ⟨i, hl, hid⟩
  · exact ⟨i, htemplate hi hid, hid⟩

include hk hc hb ht in
theorem infoOf_made {bs ts : List TxInfo} (hs : Sides lib block c bs ts) :
    ∀ i ∈ k.inTemplate ++ k.onlyInBlock, InfoOf lib (compared lib block c) i := by
  intro i hi
  obtain hi | hi := List.mem_append.mp hi
  · exact infoOf_template hs ((perm_inTemplate ht hk).mem_iff.mp hi)
  · exact infoOf_block hs (mem_without.mp ((perm_onlyInBlock hb hc hk).mem_iff.mp hi)).1

include hk hc hb ht in
/-- The rows of sanctioned transactions in the block are as many as its sanctioned transactions. -/
theorem countP_inBlock {bs ts : List TxInfo} (hs : Sides lib block c bs ts)
    (hn : (block.txdata.map lib.computeTxid).Nodup)
    (hcf : CollisionFree lib (compared lib block c))
    (hi : ∀ i ∈ k.inTemplate ++ k.onlyInBlock, (lib.rawTxInfo i.tx).isSome) :
    r.sanctionedInfos.countP (fun row => row.inBlock) =
      block.txdata.countP (fun tx => isTxSanctioned lib tx s.utxoMap s.addresses) := by
  have hsame : ∀ i ∈ infosIn c.blockTxData, ∀ i' ∈ infosIn c.templateTxData,
      i.txid = i'.txid → sanctioned lib s i = sanctioned lib s i' :=
    fun i hi i' hi' he => isTxSanctioned_eq_of_txid hcf (infoOf_block hs hi)
      (infoOf_template hs hi') he
  have htx : block.txdata = (infosIn c.blockTxData).map (fun i => i.tx) := by
    rw [hs.infosIn_block hn, hs.blockPlaces.map_tx, List.zipIdx_map_fst]
  have hrows : r.sanctionedInfos.countP (fun row => row.inBlock) =
      (infosIn c.blockTxData).countP (sanctioned lib s) := by
    rw [countP_rows hk hi (fun inBlock _ => inBlock), (perm_inTemplate ht hk).countP_eq,
      (perm_onlyInBlock hb hc hk).countP_eq,
      countP_within_add_without (infosIn c.blockTxData) c.templateTxData.txids,
      countP_within_comm hb ht hsame, within, List.countP_filter]
    simp only [Bool.true_and, Bool.and_comm]
  rw [hrows, htx, List.countP_map]
  rfl

include hk hc hb ht in
theorem countP_row {bs ts : List TxInfo} (hs : Sides lib block c bs ts)
    (hcf : CollisionFree lib (compared lib block c))
    (hi : ∀ i ∈ k.inTemplate ++ k.onlyInBlock, (lib.rawTxInfo i.tx).isSome)
    {tx : Bitcoin.Transaction} (hm : tx ∈ compared lib block c)
    (hstx : isTxSanctioned lib tx s.utxoMap s.addresses = true) :
    r.sanctionedInfos.countP
      (fun row => row.transactionTxid = (lib.computeTxid tx).reversed) = 1 := by
  obtain ⟨i, hl, hid⟩ := exists_listed hc hk hb ht hs hcf hm hstx
  have hmem : (lib.computeTxid tx).reversed ∈ (listed lib s k).map (fun i => i.txid.reversed) :=
    hid ▸ List.mem_map_of_mem hl
  have hone := List.count_eq_one_of_mem (nodup_listed hc hk hb ht) hmem
  rw [← map_transactionTxid hk hi, List.count, List.countP_map] at hone
  exact hone ▸ List.countP_congr (fun row _ => by simp)

include hk hc hb ht in
theorem exists_of_row {bs ts : List TxInfo} (hs : Sides lib block c bs ts)
    (hi : ∀ i ∈ k.inTemplate ++ k.onlyInBlock, (lib.rawTxInfo i.tx).isSome)
    {row : SharedModel.SanctionedTransactionInfo} (hrow : row ∈ r.sanctionedInfos) :
    ∃ tx ∈ compared lib block c, isTxSanctioned lib tx s.utxoMap s.addresses = true ∧
      (lib.computeTxid tx).reversed = row.transactionTxid := by
  have hm : row.transactionTxid ∈ (listed lib s k).map (fun i => i.txid.reversed) := by
    rw [← map_transactionTxid hk hi]
    exact List.mem_map_of_mem hrow
  obtain ⟨i, hl, hid⟩ := List.mem_map.mp hm
  obtain ⟨hin, hsi⟩ := List.mem_filter.mp hl
  have hinfo := infoOf_made hc hk hb ht hs i hin
  exact ⟨i.tx, hinfo.2, hsi, hinfo.1 ▸ hid⟩

end Rows

/-- The counts in the block row and the rows of the sanctioned transactions agree. -/
theorem counted_of_computes (h : Computes lib rs network block fees lt c s b blockId r)
    (hd : Declared lib c.template) (hn : (block.txdata.map lib.computeTxid).Nodup)
    (hcf : CollisionFree lib (compared lib block c))
    (hraw : ∀ tx ∈ compared lib block c, (lib.rawTxInfo tx).isSome) :
    Counted lib block c s b r := by
  have hc := compared_of_compareBlock h.compared
  obtain ⟨bs, ts, hs⟩ := exists_sides hc hd
  obtain ⟨k, hk⟩ := h.made
  obtain ⟨missing, hmiss, hbm, hbb, hbt⟩ := row_counts h
  have hb := hs.alignedBlock
  have ht := hs.alignedTemplate
  have hkt := perm_inTemplate ht hk
  have hmt : missing.Perm (without (infosIn c.templateTxData) c.blockTxData.txids) := by
    refine perm_of_looked ht (mapM_eq_ok hmiss) (List.filter_subset_self _) ?_
    rw [← elems_difference ht, hc.onlyInTemplate]
  have hi : ∀ i ∈ k.inTemplate ++ k.onlyInBlock, (lib.rawTxInfo i.tx).isSome :=
    fun i hi => hraw i.tx (infoOf_made hc hk hb ht hs i hi).2
  refine ⟨?_, ?_, ?_, ?_, ?_⟩
  · rw [hbb, countP_inBlock hc hk hb ht hs hn hcf hi]
  · rw [hbt, countP_rows hk hi (fun _ inTemplate => inTemplate), hkt.countP_eq]
    simp
  · rw [hbm, countP_rows hk hi (fun inBlock inTemplate => inTemplate && !inBlock), hkt.countP_eq,
      hmt.countP_eq, without, List.countP_filter]
    simp [Bool.and_comm]
  · exact fun tx hm hstx => countP_row hc hk hb ht hs hcf hi hm hstx
  · exact fun row hrow => exists_of_row hc hk hb ht hs hi hrow

/-! A block with one transaction of the template, and one in conflict with the other. -/

def decoding : Crates :=
  { sample with deserialize := fun rawTx =>
      if rawTx = [103] then some (sampleTx 103 ⟨hashOfByte 50, 0⟩ otherScript)
      else if rawTx = [104] then some (sampleTx 104 ⟨hashOfByte 51, 0⟩ listedScript) else none }

def templateEntry (id : UInt8) : GetBlockTemplateResultTransaction where
  rawTx := [id]
  txid := hashOfByte id
  fee := 10
  weight := 400
  sigops := 0

def overlapTemplate : GetBlockTemplateResult :=
  { templateOf chain₀ with transactions := [templateEntry 103, templateEntry 104] }

def overlapBlock : Bitcoin.Block :=
  sampleBlock 1 2 [coinbaseTx 102 otherScript, sampleTx 103 ⟨hashOfByte 50, 0⟩ otherScript,
    sampleTx 105 ⟨hashOfByte 51, 0⟩ otherScript]

def listedOnly : Sanctions := ⟨HashSet.collect ["listed"], HashMap.empty⟩

theorem computes_overlap : ∃ c b r, Computes decoding .inserted .bitcoin overlapBlock
    (feesOf decoding overlapBlock) [overlapTemplate] c listedOnly b 7 r ∧
      c.template = overlapTemplate ∧ b.sanctionedMissingTx = 1 ∧
      (b.sharedTx, b.missingTx, b.extraTx) = (1, 1, 2) :=
  ⟨_, _, _, ⟨rfl, ⟨_, [], 0, rfl, rfl⟩, _, HashMap.empty, rfl, rfl⟩, rfl, rfl, rfl⟩

theorem declared_overlap : Declared decoding overlapTemplate := by
  have hall : ∀ e ∈ overlapTemplate.transactions,
      (decoding.deserialize e.rawTx).all (fun tx => decoding.computeTxid tx = e.txid) := by decide
  intro e he tx htx
  have h := hall e he
  rw [htx] at h
  exact of_decide_eq_true h

theorem mem_compared {tx : Bitcoin.Transaction} : tx ∈ compared lib block c ↔
    tx ∈ block.txdata ++ (decoded lib c.template).map Prod.fst := by
  rw [List.mem_append, List.mem_map]
  rfl

theorem collisionFree_overlap : ∀ tx ∈ overlapBlock.txdata ++
      (decoded decoding overlapTemplate).map Prod.fst,
    ∀ tx' ∈ overlapBlock.txdata ++ (decoded decoding overlapTemplate).map Prod.fst,
      decoding.computeTxid tx = decoding.computeTxid tx' → tx.output = tx'.output ∧
        tx.input.map (fun i => i.previousOutput) = tx'.input.map (fun i => i.previousOutput) := by
  decide

/-- A sanctioned transaction of the template is not in the block. -/
theorem counted_overlap : ∃ c b r, Computes decoding .inserted .bitcoin overlapBlock
    (feesOf decoding overlapBlock) [overlapTemplate] c listedOnly b 7 r ∧
      b.sanctionedMissingTx = 1 ∧ Counted decoding overlapBlock c listedOnly b r := by
  obtain ⟨c, b, r, h, ht, hb, -⟩ := computes_overlap
  refine ⟨c, b, r, h, hb, counted_of_computes h (ht ▸ declared_overlap) (by decide) ?_
    (fun _ _ => rfl)⟩
  intro tx htx tx' htx'
  rw [mem_compared, ht] at htx htx'
  exact collisionFree_overlap tx htx tx' htx'

end MiningpoolObserver.SanctionCounts
