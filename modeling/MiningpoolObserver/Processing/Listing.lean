import MiningpoolObserver.Processing.Comparison
import MiningpoolObserver.Processing.Rounds

namespace MiningpoolObserver.Processing.Listing

open MiningpoolObserver.Library.HashCollections MiningpoolObserver.Library.Fallible
open MiningpoolObserver.Bitcoin MiningpoolObserver.DaemonModel
open MiningpoolObserver.Processing.Comparison MiningpoolObserver.Processing.Rounds

variable {lib : Crates} {data : TxData} {infos : List TxInfo} {txid : Txid} {txInfo : TxInfo}

def txidsOf (infos : List TxInfo) : List Txid := infos.map (fun txInfo => txInfo.txid)

/-- The transactions of the map, in the order in which their ids came in. -/
def infosIn (data : TxData) : List TxInfo := data.txidToTxinfoMap.entries.map Prod.snd

/-- The set holds the keys of the map, and each key is the id of its transaction. -/
structure Aligned (data : TxData) : Prop where
  keys : data.txidToTxinfoMap.All (fun txid txInfo => txInfo.txid = txid)
  txids : data.txids.elems = data.txidToTxinfoMap.entries.map Prod.fst

namespace Aligned

theorem txids_eq (h : Aligned data) : data.txids.elems = txidsOf (infosIn data) := by
  rw [h.txids, txidsOf, infosIn, List.map_map]
  exact List.map_congr_left (fun e he => (h.keys e he).symm)

theorem nodup (h : Aligned data) : (txidsOf (infosIn data)).Nodup := h.txids_eq ▸ data.txids.nodup

theorem mem_txids (h : Aligned data) : txid ∈ data.txids ↔ txid ∈ txidsOf (infosIn data) := by
  rw [HashSet.mem_def, h.txids_eq]

theorem get?_eq_some_iff (h : Aligned data) : data.txidToTxinfoMap.get? txid = some txInfo ↔
    txInfo ∈ infosIn data ∧ txInfo.txid = txid := by
  rw [HashMap.get?_eq_some_iff]
  constructor
  · exact fun he => ⟨List.mem_map_of_mem he, h.keys _ he⟩
  · rintro ⟨hi, rfl⟩
    obtain ⟨⟨key, i⟩, he, rfl⟩ := List.mem_map.mp hi
    have hk : i.txid = key := h.keys _ he
    exact hk ▸ he

theorem nodup_reversed (h : Aligned data) {infos : List TxInfo}
    (hs : infos.Sublist (infosIn data)) : (infos.map (fun i => i.txid.reversed)).Nodup := by
  have hnd : ((txidsOf (infosIn data)).map Hash256.reversed).Nodup :=
    h.nodup.map Hash256.reversed_injective
  rw [txidsOf, List.map_map] at hnd
  exact hnd.sublist (hs.map _)

theorem empty : Aligned TxData.empty := ⟨HashMap.all_empty, rfl⟩

/-- A new id comes last, in the set and in the map. -/
theorem push (h : Aligned data) (txInfo : TxInfo) : Aligned (data.push txInfo.txid txInfo) where
  keys := h.keys.insert rfl
  txids := by rw [TxData.push, HashSet.elems_insert, HashMap.map_fst_insert, h.txids]

end Aligned

/-- The data of a list of transactions, each under its id. -/
def dataOf (infos : List TxInfo) : TxData :=
  infos.foldl (fun data txInfo => data.push txInfo.txid txInfo) TxData.empty

theorem dataOf_append_singleton (infos : List TxInfo) (txInfo : TxInfo) :
    dataOf (infos ++ [txInfo]) = (dataOf infos).push txInfo.txid txInfo := by
  rw [dataOf, List.foldl_append]
  rfl

theorem aligned_dataOf (infos : List TxInfo) : Aligned (dataOf infos) := by
  induction infos using List.reverseRecOn with
  | nil => exact .empty
  | append_singleton infos txInfo ih =>
    rw [dataOf_append_singleton]
    exact ih.push txInfo

theorem txinfos_dataOf (infos : List TxInfo) : (dataOf infos).txinfos = infos := by
  induction infos using List.reverseRecOn with
  | nil => rfl
  | append_singleton infos txInfo ih => rw [dataOf_append_singleton, TxData.push, ih]

theorem txids_dataOf (infos : List TxInfo) :
    (dataOf infos).txids = HashSet.collect (txidsOf infos) := by
  induction infos using List.reverseRecOn with
  | nil => rfl
  | append_singleton infos txInfo ih =>
    rw [dataOf_append_singleton, TxData.push, ih, txidsOf, txidsOf, List.map_append,
      List.map_singleton, HashSet.collect_append_singleton]

/-- Transactions with different ids are all in the map. -/
theorem infosIn_dataOf (h : (txidsOf infos).Nodup) : infosIn (dataOf infos) = infos := by
  induction infos using List.reverseRecOn with
  | nil => rfl
  | append_singleton infos txInfo ih =>
    rw [txidsOf, List.map_append, List.nodup_append] at h
    have hd := ih h.1
    have hn : txInfo.txid ∉ (dataOf infos).txidToTxinfoMap.entries.map Prod.fst := by
      rw [← (aligned_dataOf infos).txids, (aligned_dataOf infos).txids_eq, hd]
      exact fun hm => h.2.2 _ hm _ (List.mem_singleton_self _) rfl
    rw [dataOf_append_singleton]
    conv_rhs => rw [← hd]
    rw [infosIn, TxData.push, HashMap.insert, dif_neg hn, List.map_append]
    rfl

/-- Every transaction of the list has one with its id in the map, and no other one is there. -/
theorem mem_txidsOf_infosIn_dataOf (infos : List TxInfo) :
    txid ∈ txidsOf (infosIn (dataOf infos)) ↔ txid ∈ txidsOf infos := by
  rw [← (aligned_dataOf infos).mem_txids]
  induction infos using List.reverseRecOn with
  | nil => exact Iff.rfl
  | append_singleton infos txInfo ih =>
    rw [dataOf_append_singleton, TxData.push, HashSet.mem_insert, ih, txidsOf, txidsOf,
      List.map_append, List.mem_append, List.map_singleton, List.mem_singleton]

theorem mem_of_mem_infosIn_dataOf (h : txInfo ∈ infosIn (dataOf infos)) : txInfo ∈ infos := by
  have hall : (dataOf infos).txidToTxinfoMap.All (fun _ txInfo => txInfo ∈ infos) :=
    List.foldlRecOn (motive := fun (data : TxData) =>
      data.txidToTxinfoMap.All (fun _ txInfo => txInfo ∈ infos)) infos _ HashMap.all_empty
      (fun _ hd _ hi => hd.insert hi)
  obtain ⟨e, he, rfl⟩ := List.mem_map.mp h
  exact hall e he

/-- What the ids of some of the transactions stand for are those transactions. -/
theorem perm_of_looked (ha : Aligned data) {txids : List Txid} {looked : List TxInfo}
    (hl : Looked data.txidToTxinfoMap txids looked) (hinfos : infos ⊆ infosIn data)
    (hp : txids.Perm (txidsOf infos)) : looked.Perm infos := by
  have hown : Looked data.txidToTxinfoMap (txidsOf infos) infos := by
    rw [Looked, txidsOf, List.forall₂_map_left_iff, List.forall₂_same]
    exact fun i hi => lookup_eq_ok.mpr (ha.get?_eq_some_iff.mpr ⟨hinfos hi, rfl⟩)
  obtain ⟨w, hw, hperm⟩ := List.perm_comp_forall₂ hp hown
  exact hl.unique hw ▸ hperm

/-- The transactions at their places in a list. -/
def Places (lib : Crates) (l : List (Bitcoin.Transaction × Nat)) (infos : List TxInfo) : Prop :=
  infos.map (fun i => (i.txid, i.tx, i.pos)) =
    l.map (fun p => (lib.computeTxid p.1, p.1, Int32.ofNat p.2))

theorem Places.exists_place {l : List (Bitcoin.Transaction × Nat)} (h : Places lib l infos)
    (hi : txInfo ∈ infos) : ∃ p ∈ l, txInfo.txid = lib.computeTxid p.1 ∧ txInfo.tx = p.1 ∧
      txInfo.pos = Int32.ofNat p.2 := by
  have hm : (txInfo.txid, txInfo.tx, txInfo.pos) ∈
      l.map (fun p => (lib.computeTxid p.1, p.1, Int32.ofNat p.2)) :=
    h ▸ List.mem_map_of_mem hi
  obtain ⟨p, hp, he⟩ := List.mem_map.mp hm
  simp only [Prod.mk.injEq] at he
  exact ⟨p, hp, he.1.symm, he.2.1.symm, he.2.2.symm⟩

theorem Places.txid_eq {l : List (Bitcoin.Transaction × Nat)} (h : Places lib l infos)
    (hi : txInfo ∈ infos) : txInfo.txid = lib.computeTxid txInfo.tx := by
  obtain ⟨p, -, hid, htx, -⟩ := h.exists_place hi
  rw [hid, htx]

theorem Places.map_tx {l : List (Bitcoin.Transaction × Nat)} (h : Places lib l infos) :
    infos.map (fun txInfo => txInfo.tx) = l.map Prod.fst := by
  have hm := congrArg (List.map (fun p => p.2.1)) h
  rwa [List.map_map, List.map_map] at hm

theorem Places.txidsOf_eq {l : List (Bitcoin.Transaction × Nat)} (h : Places lib l infos) :
    txidsOf infos = l.map (fun p => lib.computeTxid p.1) := by
  have hm := congrArg (List.map (fun p => p.1)) h
  rwa [List.map_map, List.map_map] at hm

/-- A transaction of a block with the fee that was found for it. -/
def withFee (lib : Crates) (txidToFeeMap : HashMap Txid UInt64) (p : Bitcoin.Transaction × Nat) :
    Except Panic TxInfo :=
  (txidToFeeMap.get? (lib.computeTxid p.1)).elim (.error (.feeNotFound (lib.computeTxid p.1)))
    (fun fee => .ok ⟨lib.computeTxid p.1, p.1, Int32.ofNat p.2, fee⟩)

theorem exists_of_withFee {fees : HashMap Txid UInt64} {p : Bitcoin.Transaction × Nat}
    (h : withFee lib fees p = .ok txInfo) :
    ∃ fee, txInfo = ⟨lib.computeTxid p.1, p.1, Int32.ofNat p.2, fee⟩ := by
  rw [withFee] at h
  cases hfee : fees.get? (lib.computeTxid p.1) with
  | none =>
    rw [hfee] at h
    cases h
  | some fee =>
    rw [hfee] at h
    cases h
    exact ⟨fee, rfl⟩

theorem exists_dataOf_of_buildBlockTxData {block : Bitcoin.Block} {fees : GetBlockTxFeesResult}
    (h : buildBlockTxData lib block fees = .ok data) :
    ∃ infos, data = dataOf infos ∧ Places lib block.txdata.zipIdx infos := by
  obtain ⟨infos, hfind, rfl⟩ := foldlM_eq_ok
    (g := withFee lib (HashMap.collect (fees.tx.map (fun tx => (tx.txid, tx.fee)))))
    (s := fun data _ txInfo => data.push txInfo.txid txInfo) (fun data p => by
      obtain ⟨tx, i⟩ := p
      rw [withFee]
      dsimp only
      cases HashMap.get? _ (lib.computeTxid tx) <;> rfl) h
  refine ⟨infos, ?_, ?_⟩
  · conv_rhs => rw [dataOf, ← List.map_snd_zip hfind.length_eq.ge, List.foldl_map]
  · rw [Places, ← List.forall₂_eq_eq_eq, List.forall₂_map_left_iff, List.forall₂_map_right_iff]
    refine hfind.flip.imp (fun txInfo p hp => ?_)
    obtain ⟨fee, rfl⟩ := exists_of_withFee hp
    rfl

/-- The transactions of a template that decode. -/
def decoded (lib : Crates) (template : GetBlockTemplateResult) : List (Bitcoin.Transaction × Nat) :=
  template.transactions.zipIdx.filterMap
    (fun p => (lib.deserialize p.1.rawTx).map (fun tx => (tx, p.2)))

/-- The declared ids are those of the transactions. -/
def Declared (lib : Crates) (template : GetBlockTemplateResult) : Prop :=
  ∀ e ∈ template.transactions, ∀ tx, lib.deserialize e.rawTx = some tx → lib.computeTxid tx = e.txid

/-- An entry of a template as it is added, when its transaction decodes. -/
def decodedEntry (lib : Crates) (p : GetBlockTemplateResultTransaction × Nat) : Option TxInfo :=
  (lib.deserialize p.1.rawTx).map (fun tx => ⟨lib.computeTxid tx, tx, Int32.ofNat p.2, p.1.fee⟩)

theorem exists_dataOf_buildTemplateTxData {template : GetBlockTemplateResult}
    (h : Declared lib template) : ∃ infos, buildTemplateTxData lib template = dataOf infos ∧
      Places lib (decoded lib template) infos := by
  refine ⟨template.transactions.zipIdx.filterMap (decodedEntry lib), ?_, ?_⟩
  · rw [dataOf, List.foldl_filterMap]
    refine List.foldl_ext _ _ _ (fun data p hp => ?_)
    obtain ⟨entry, i⟩ := p
    rw [decodedEntry]
    dsimp only
    cases hd : lib.deserialize entry.rawTx with
    | none => rfl
    | some tx =>
      have hid := h entry (List.fst_mem_of_mem_zipIdx hp) tx hd
      rw [Option.map_some, ← hid]
  · rw [Places, decoded, List.map_filterMap, List.map_filterMap]
    simp only [decodedEntry, Option.map_map]
    rfl

end MiningpoolObserver.Processing.Listing
