import MiningpoolObserver.Processing.Packages
import MiningpoolObserver.SanctionCounts

namespace MiningpoolObserver.BlockCounts

open MiningpoolObserver.Library.HashCollections
open MiningpoolObserver.Bitcoin MiningpoolObserver.DaemonModel MiningpoolObserver.Process
open MiningpoolObserver.Processing.Comparison MiningpoolObserver.Processing.Builders
open MiningpoolObserver.Processing.Packages
open MiningpoolObserver.Processing.Listing MiningpoolObserver.BuiltRecords
open MiningpoolObserver.Overlap MiningpoolObserver.SanctionCounts MiningpoolObserver.Simulation

variable {lib : Crates} {rs : RandomState} {network : Network} {block : Bitcoin.Block}
variable {fees : GetBlockTxFeesResult} {lt : List GetBlockTemplateResult} {c : Comparison}
variable {s : Sanctions} {b : SharedModel.NewBlock} {blockId : Int64} {r : Records}
variable {data data' : TxData} {infos : List TxInfo}

/-- The numbers and package weights of the block row add up. -/
structure Tallied (lib : Crates) (block : Bitcoin.Block) (c : Comparison)
    (b : SharedModel.NewBlock) : Prop where
  blockTx : b.blockTx = b.sharedTx + b.extraTx
  templateTx : b.templateTx = b.sharedTx + b.missingTx
  blockPkgWeights : b.blockPkgWeights.sum = Int64.ofNat (block.txdata.map lib.weight).sum
  templatePkgWeights : b.templatePkgWeights.sum =
    Int64.ofNat ((decoded lib c.template).map (fun p => lib.weight p.1)).sum

/-- The rows are as many as the block row says, and each is at the place of its transaction. -/
structure Placed (lib : Crates) (block : Bitcoin.Block) (c : Comparison)
    (b : SharedModel.NewBlock) (r : Records) : Prop where
  extraTx : b.extraTx = Int32.ofNat r.onlyInBlock.length
  missingTx : b.missingTx = Int32.ofNat r.onlyInTemplate.length
  blockTxids : (r.onlyInBlock.map (fun row => row.transactionTxid)).Nodup
  templateTxids : (r.onlyInTemplate.map (fun row => row.transactionTxid)).Nodup
  blockPlaces : ∀ row ∈ r.onlyInBlock, ∃ (i : ℕ) (tx : Bitcoin.Transaction),
    block.txdata[i]? = some tx ∧ row.position = Int32.ofNat i ∧
      row.transactionTxid = (lib.computeTxid tx).reversed
  templatePlaces : ∀ row ∈ r.onlyInTemplate, ∃ (i : ℕ) (e : GetBlockTemplateResultTransaction),
    c.template.transactions[i]? = some e ∧ row.position = Int32.ofNat i ∧
      row.transactionTxid = e.txid.reversed

/-- What is asked of a template: all decodes, under different ids, which are the declared ones. -/
structure Sound (lib : Crates) (template : GetBlockTemplateResult) : Prop where
  decodes : ∀ e ∈ template.transactions, (lib.deserialize e.rawTx).isSome
  declared : Declared lib template
  nodup : (template.transactions.map (fun e => e.txid)).Nodup

theorem len_intersection_add_difference (h : Aligned data) (txids : HashSet Txid) :
    (infosIn data).length =
      (data.txids.intersection txids).len + (data.txids.difference txids).len := by
  have hsplit := countP_within_add_without (infosIn data) txids (fun _ => true)
  simp only [List.countP_true] at hsplit
  rw [HashSet.len, HashSet.len, elems_intersection h, elems_difference h, txidsOf, txidsOf,
    List.length_map, List.length_map, hsplit]

theorem len_intersection_comm (h : Aligned data) (h' : Aligned data') :
    (data.txids.intersection data'.txids).len = (data'.txids.intersection data.txids).len := by
  have hcomm := countP_within_comm h h' (p := fun _ => true) (fun _ _ _ _ _ => rfl)
  simp only [List.countP_true] at hcomm
  rw [HashSet.len, HashSet.len, elems_intersection h, elems_intersection h', txidsOf, txidsOf,
    List.length_map, List.length_map, hcomm]

theorem mem_decoded {template : GetBlockTemplateResult} {p : Bitcoin.Transaction × ℕ}
    (h : p ∈ decoded lib template) : ∃ e, template.transactions[p.2]? = some e ∧
      lib.deserialize e.rawTx = some p.1 := by
  obtain ⟨⟨e, i⟩, hm, hp⟩ := List.mem_filterMap.mp h
  obtain ⟨tx, htx, rfl⟩ := Option.map_eq_some_iff.mp hp
  exact ⟨e, List.mem_zipIdx_iff_getElem?.mp hm, htx⟩

theorem Sound.map_decoded {template : GetBlockTemplateResult} (h : Sound lib template) :
    (decoded lib template).map (fun p => lib.computeTxid p.1) =
      template.transactions.map (fun e => e.txid) := by
  let txidOf := fun (p : GetBlockTemplateResultTransaction × ℕ) => some p.1.txid
  have hall : ∀ p ∈ template.transactions.zipIdx,
      ((lib.deserialize p.1.rawTx).map (fun tx => (tx, p.2))).map (fun p => lib.computeTxid p.1) =
        txidOf p := by
    intro p hp
    have he : p.1 ∈ template.transactions := List.fst_mem_of_mem_zipIdx hp
    obtain ⟨tx, htx⟩ := Option.isSome_iff_exists.mp (h.decodes p.1 he)
    rw [htx, Option.map_some, Option.map_some, h.declared p.1 he tx htx]
  rw [decoded, List.map_filterMap, List.filterMap_congr hall, List.filterMap_eq_map']
  conv_rhs => rw [← List.zipIdx_map_fst 0 template.transactions, List.map_map]
  rfl

section Sides

variable {bs ts : List TxInfo} (hs : Sides lib block c bs ts)

include hs in
theorem infosIn_template (h : Sound lib c.template) : infosIn c.templateTxData = ts := by
  rw [hs.templateData]
  apply infosIn_dataOf
  rw [hs.templatePlaces.txidsOf_eq, h.map_decoded]
  exact h.nodup

include hs in
theorem length_block (hn : (block.txdata.map lib.computeTxid).Nodup) :
    (infosIn c.blockTxData).length = block.txdata.length := by
  rw [hs.infosIn_block hn, ← List.length_map (fun txInfo => txInfo.tx), hs.blockPlaces.map_tx,
    List.length_map, List.length_zipIdx]

include hs in
theorem length_template (h : Sound lib c.template) :
    (infosIn c.templateTxData).length = c.template.transactions.length := by
  rw [infosIn_template hs h, ← List.length_map (fun txInfo => txInfo.txid)]
  change (txidsOf ts).length = _
  rw [hs.templatePlaces.txidsOf_eq, h.map_decoded, List.length_map]

include hs in
theorem place_of_block {i : TxInfo} (hi : i ∈ bs) : ∃ (n : ℕ) (tx : Bitcoin.Transaction),
    block.txdata[n]? = some tx ∧ i.pos = Int32.ofNat n ∧ i.txid = lib.computeTxid tx := by
  obtain ⟨p, hp, he⟩ := hs.blockPlaces.exists_place hi
  exact ⟨p.2, p.1, List.mem_zipIdx_iff_getElem?.mp hp, he.2.2, he.1⟩

include hs in
theorem place_of_template (hd : Declared lib c.template) {i : TxInfo} (hi : i ∈ ts) :
    ∃ (n : ℕ) (e : GetBlockTemplateResultTransaction), c.template.transactions[n]? = some e ∧
      i.pos = Int32.ofNat n ∧ i.txid = e.txid := by
  obtain ⟨p, hp, he⟩ := hs.templatePlaces.exists_place hi
  obtain ⟨e, hget, htx⟩ := mem_decoded hp
  exact ⟨p.2, e, hget, he.2.2, he.1.trans (hd e (List.mem_of_getElem? hget) p.1 htx)⟩

/-- The weights of the packages, as they are stored, for transactions at their places. -/
theorem sum_pkgWeights {l : List (Bitcoin.Transaction × ℕ)} {packages : List TxPackage}
    (hp : Places lib l infos) (h : buildPackages lib infos = .ok packages) :
    (packages.map (fun p => Int64.ofNat (p.weight lib))).sum =
      Int64.ofNat (l.map (fun p => lib.weight p.1)).sum := by
  have hweights : infos.map (fun i => lib.weight i.tx) = l.map (fun p => lib.weight p.1) := by
    simpa only [List.map_map, Function.comp_def] using congrArg (List.map lib.weight) hp.map_tx
  rw [← hweights, ← sum_weights h, ← sum_ofNat, List.map_map]
  rfl

end Sides

theorem tallied (hc : Compared lib block fees lt c) (hrow : BuildsRow lib network block fees c s b)
    (hn : (block.txdata.map lib.computeTxid).Nodup) (ht : Sound lib c.template) :
    Tallied lib block c b := by
  obtain ⟨bs, ts, hs⟩ := exists_sides hc ht.declared
  obtain ⟨n, pools, now, -, hb⟩ := hrow
  have h := rowOf_buildBlock hb
  have hblock := len_intersection_add_difference hs.alignedBlock c.templateTxData.txids
  have htemplate := len_intersection_add_difference hs.alignedTemplate c.blockTxData.txids
  rw [length_block hs hn, ← hc.sharedTx, ← hc.onlyInBlock] at hblock
  rw [length_template hs ht, len_intersection_comm hs.alignedTemplate hs.alignedBlock,
    ← hc.sharedTx, ← hc.onlyInTemplate] at htemplate
  refine ⟨?_, ?_, ?_, ?_⟩
  · rw [h.blockTx, h.sharedTx, h.extraTx, hblock, Int32.ofNat_add]
    rfl
  · rw [h.templateTx, h.sharedTx, h.missingTx, htemplate, Int32.ofNat_add]
    rfl
  · have hp := hc.blockTxPackages
    rw [hs.blockData, txinfos_dataOf] at hp
    have hplain : block.txdata.zipIdx.map (fun p => lib.weight p.1) =
        block.txdata.map lib.weight := by
      conv_rhs => rw [← List.zipIdx_map_fst 0 block.txdata, List.map_map]
      rfl
    rw [h.blockPkgWeights, ← hplain]
    exact sum_pkgWeights hs.blockPlaces hp
  · have hp := hc.templateTxPackages
    rw [hs.templateData, txinfos_dataOf] at hp
    rw [h.templatePkgWeights]
    exact sum_pkgWeights hs.templatePlaces hp

theorem placed (hc : Compared lib block fees lt c) (hrow : BuildsRow lib network block fees c s b)
    (hrec : BuildsRecords lib rs lt c s blockId r)
    (hn : (block.txdata.map lib.computeTxid).Nodup) (ht : Sound lib c.template) :
    Placed lib block c b r := by
  obtain ⟨bs, ts, hs⟩ := exists_sides hc ht.declared
  obtain ⟨k, hk⟩ := made_of_buildsRecords hrec
  have hkb := perm_onlyInBlock hs.alignedBlock hc hk
  have hkt := perm_onlyInTemplate hs.alignedTemplate hc hk
  have hnb := (hkb.map (fun i => i.txid.reversed)).nodup_iff.mpr
    (hs.alignedBlock.nodup_reversed List.filter_sublist)
  have hnt := (hkt.map (fun i => i.txid.reversed)).nodup_iff.mpr
    (hs.alignedTemplate.nodup_reversed List.filter_sublist)
  refine ⟨extraTx_eq hrow hrec, missingTx_eq hrow hrec, ?_, ?_, ?_, ?_⟩
  · rw [hk.blockRows, List.map_map]
    exact hnb
  · have hids := congrArg (List.map (fun p => p.2.2)) hk.templateRows
    rw [List.map_map, List.map_map] at hids
    exact hids ▸ hnt
  · intro row hrow
    rw [hk.blockRows] at hrow
    obtain ⟨i, hi, rfl⟩ := List.mem_map.mp hrow
    have hbs : i ∈ bs := hs.infosIn_block hn ▸ (mem_without.mp (hkb.mem_iff.mp hi)).1
    obtain ⟨n, tx, hget, hpos, hid⟩ := place_of_block hs hbs
    exact ⟨n, tx, hget, hpos, congrArg Hash256.reversed hid⟩
  · intro row hrow
    have hm : (row.blockId, row.position, row.transactionTxid) ∈
        k.onlyInTemplate.map (fun i => (blockId, i.pos, i.txid.reversed)) :=
      hk.templateRows ▸ List.mem_map_of_mem hrow
    obtain ⟨i, hi, he⟩ := List.mem_map.mp hm
    simp only [Prod.mk.injEq] at he
    have hts : i ∈ ts := infosIn_template hs ht ▸ (mem_without.mp (hkt.mem_iff.mp hi)).1
    obtain ⟨n, e, hget, hpos, hid⟩ := place_of_template hs ht.declared hts
    exact ⟨n, e, hget, he.2.1 ▸ hpos, he.2.2 ▸ congrArg Hash256.reversed hid⟩

/-- The counts and the rows fit together, in every call that compares such a block and template. -/
theorem counts_agree (h : compareBlock lib block fees lt = .ok c)
    (hrow : BuildsRow lib network block fees c s b)
    (hn : (block.txdata.map lib.computeTxid).Nodup) (ht : Sound lib c.template) :
    Tallied lib block c b ∧
      ∀ rs blockId r, BuildsRecords lib rs lt c s blockId r → Placed lib block c b r :=
  ⟨tallied (compared_of_compareBlock h) hrow hn ht,
    fun _ _ _ hrec => placed (compared_of_compareBlock h) hrow hrec hn ht⟩

theorem sound_overlap : Sound decoding overlapTemplate where
  decodes := by decide
  declared := declared_overlap
  nodup := by decide

/-- One transaction is shared, one missing and two are extra. -/
theorem counts_agree_overlap : ∃ c b r, Computes decoding .inserted .bitcoin overlapBlock
    (feesOf decoding overlapBlock) [overlapTemplate] c listedOnly b 7 r ∧
      (b.sharedTx, b.missingTx, b.extraTx) = (1, 1, 2) ∧ Tallied decoding overlapBlock c b ∧
      Placed decoding overlapBlock c b r := by
  obtain ⟨c, b, r, h, ht, -, hb⟩ := computes_overlap
  have hall := counts_agree h.compared h.row (by decide) (ht ▸ sound_overlap)
  exact ⟨c, b, r, h, hb, hall.1, hall.2 _ _ _ h.records⟩

end MiningpoolObserver.BlockCounts
