import MiningpoolObserver.BuiltRecords
import MiningpoolObserver.Processing.Listing

namespace MiningpoolObserver.Overlap

open MiningpoolObserver.Library.HashCollections
open MiningpoolObserver.Bitcoin MiningpoolObserver.DaemonModel MiningpoolObserver.Process
open MiningpoolObserver.Processing.Comparison MiningpoolObserver.Processing.Rounds
open MiningpoolObserver.Processing.Listing MiningpoolObserver.BuiltRecords

variable {lib : Crates} {rs : RandomState} {block : Bitcoin.Block} {fees : GetBlockTxFeesResult}
variable {lt : List GetBlockTemplateResult} {c : Comparison} {s : Sanctions} {blockId : Int64}
variable {r : Records} {k : Passes} {data data' : TxData}

/-- The transactions with an id in the set, and those without. -/
def within (infos : List TxInfo) (txids : HashSet Txid) : List TxInfo :=
  infos.filter (fun txInfo => txInfo.txid ∈ txids)

def without (infos : List TxInfo) (txids : HashSet Txid) : List TxInfo :=
  infos.filter (fun txInfo => txInfo.txid ∉ txids)

theorem elems_difference (h : Aligned data) (txids : HashSet Txid) :
    (data.txids.difference txids).elems = txidsOf (without (infosIn data) txids) := by
  change data.txids.elems.filter (fun txid => txid ∉ txids) = _
  rw [h.txids_eq, txidsOf, txidsOf, without, List.filter_map]
  rfl

theorem elems_intersection (h : Aligned data) (txids : HashSet Txid) :
    (data.txids.intersection txids).elems = txidsOf (within (infosIn data) txids) := by
  change data.txids.elems.filter (fun txid => txid ∈ txids) = _
  rw [h.txids_eq, txidsOf, txidsOf, within, List.filter_map]
  rfl

theorem mem_within {infos : List TxInfo} {txids : HashSet Txid} {txInfo : TxInfo} :
    txInfo ∈ within infos txids ↔ txInfo ∈ infos ∧ txInfo.txid ∈ txids := by
  rw [within, List.mem_filter, decide_eq_true_iff]

theorem mem_without {infos : List TxInfo} {txids : HashSet Txid} {txInfo : TxInfo} :
    txInfo ∈ without infos txids ↔ txInfo ∈ infos ∧ txInfo.txid ∉ txids := by
  rw [without, List.mem_filter, decide_eq_true_iff]

theorem countP_within_add_without (infos : List TxInfo) (txids : HashSet Txid) (p : TxInfo → Bool) :
    infos.countP p = (within infos txids).countP p + (without infos txids).countP p := by
  rw [within, without, List.countP_filter, List.countP_filter]
  induction infos with
  | nil => rfl
  | cons txInfo infos ih =>
    simp only [List.countP_cons, ih]
    by_cases hm : txInfo.txid ∈ txids <;> simp [hm] <;> omega

theorem txidsOf_shared_subset (h : Aligned data) (h' : Aligned data') {p : TxInfo → Bool}
    (hp : ∀ i ∈ infosIn data, ∀ i' ∈ infosIn data', i.txid = i'.txid → p i = p i') :
    txidsOf ((within (infosIn data) data'.txids).filter p) ⊆
      txidsOf ((within (infosIn data') data.txids).filter p) := by
  intro txid hm
  obtain ⟨i, hi, rfl⟩ := List.mem_map.mp hm
  obtain ⟨hw, hpi⟩ := List.mem_filter.mp hi
  obtain ⟨hi, hshared⟩ := mem_within.mp hw
  obtain ⟨i', hi', hid⟩ := List.mem_map.mp (h'.mem_txids.mp hshared)
  refine List.mem_map.mpr ⟨i', List.mem_filter.mpr ⟨mem_within.mpr ⟨hi', ?_⟩, ?_⟩, hid⟩
  · exact h.mem_txids.mpr (hid ▸ List.mem_map_of_mem hi)
  · rw [← hp i hi i' hi' hid.symm, hpi]

/-- A property that goes by the id is as frequent among the shared transactions of either side. -/
theorem countP_within_comm (h : Aligned data) (h' : Aligned data') {p : TxInfo → Bool}
    (hp : ∀ i ∈ infosIn data, ∀ i' ∈ infosIn data', i.txid = i'.txid → p i = p i') :
    (within (infosIn data) data'.txids).countP p =
      (within (infosIn data') data.txids).countP p := by
  let l := (within (infosIn data) data'.txids).filter p
  let l' := (within (infosIn data') data.txids).filter p
  have hnd : (txidsOf l).Nodup :=
    h.nodup.sublist ((List.filter_sublist.trans List.filter_sublist).map _)
  have hnd' : (txidsOf l').Nodup :=
    h'.nodup.sublist ((List.filter_sublist.trans List.filter_sublist).map _)
  have hsub : txidsOf l ⊆ txidsOf l' := txidsOf_shared_subset h h' hp
  have hsub' : txidsOf l' ⊆ txidsOf l :=
    txidsOf_shared_subset h' h (fun i' hi' i hi he => (hp i hi i' hi' he.symm).symm)
  have hperm : (txidsOf l).Perm (txidsOf l') :=
    (List.perm_ext_iff_of_nodup hnd hnd').mpr (fun _ => ⟨fun hm => hsub hm, fun hm => hsub' hm⟩)
  have hlen := hperm.length_eq
  rw [txidsOf, txidsOf, List.length_map, List.length_map] at hlen
  rw [List.countP_eq_length_filter, List.countP_eq_length_filter]
  exact hlen

/-- The block and the template that a comparison is about, as lists of transactions. -/
structure Sides (lib : Crates) (block : Bitcoin.Block) (c : Comparison) (bs ts : List TxInfo) :
    Prop where
  blockData : c.blockTxData = dataOf bs
  templateData : c.templateTxData = dataOf ts
  blockPlaces : Places lib block.txdata.zipIdx bs
  templatePlaces : Places lib (decoded lib c.template) ts

theorem exists_sides (h : Compared lib block fees lt c) (hd : Declared lib c.template) :
    ∃ bs ts, Sides lib block c bs ts := by
  obtain ⟨bs, hb, hbp⟩ := exists_dataOf_of_buildBlockTxData h.block
  obtain ⟨ts, ht, htp⟩ := exists_dataOf_buildTemplateTxData hd
  exact ⟨bs, ts, hb, h.templateTxData.trans ht, hbp, htp⟩

theorem Sides.alignedBlock {bs ts : List TxInfo} (h : Sides lib block c bs ts) :
    Aligned c.blockTxData := h.blockData ▸ aligned_dataOf bs

theorem Sides.alignedTemplate {bs ts : List TxInfo} (h : Sides lib block c bs ts) :
    Aligned c.templateTxData := h.templateData ▸ aligned_dataOf ts

/-- A block without duplicate ids has all its transactions in the map. -/
theorem Sides.infosIn_block {bs ts : List TxInfo} (h : Sides lib block c bs ts)
    (hn : (block.txdata.map lib.computeTxid).Nodup) : infosIn c.blockTxData = bs := by
  rw [h.blockData]
  apply infosIn_dataOf
  rw [h.blockPlaces.txidsOf_eq]
  rw [← List.zipIdx_map_fst 0 block.txdata, List.map_map] at hn
  exact hn

section Passes

variable (hb : Aligned c.blockTxData) (ht : Aligned c.templateTxData)
variable (hc : Compared lib block fees lt c) (hk : Made lib rs blockId c s k r)

include ht hk in
theorem perm_inTemplate : k.inTemplate.Perm (infosIn c.templateTxData) := by
  apply perm_of_looked ht hk.inTemplate (List.Subset.refl _)
  rw [← ht.txids_eq]
  exact rs.perm _

include ht hc hk in
theorem perm_onlyInTemplate :
    k.onlyInTemplate.Perm (without (infosIn c.templateTxData) c.blockTxData.txids) := by
  refine perm_of_looked ht hk.template (List.filter_subset_self _) ?_
  rw [← elems_difference ht, hc.onlyInTemplate]
  exact rs.perm _

include hb hc hk in
theorem perm_onlyInBlock :
    k.onlyInBlock.Perm (without (infosIn c.blockTxData) c.templateTxData.txids) := by
  refine perm_of_looked hb hk.block (List.filter_subset_self _) ?_
  rw [← elems_difference hb, hc.onlyInBlock]
  exact rs.perm _

end Passes

end MiningpoolObserver.Overlap
