import MiningpoolObserver.BlockCounts

namespace MiningpoolObserver.ConflictTags

open MiningpoolObserver.Library.HashCollections MiningpoolObserver.Bitcoin
open MiningpoolObserver.DaemonModel MiningpoolObserver.Tags MiningpoolObserver.Process
open MiningpoolObserver.Processing.Sanctions MiningpoolObserver.Processing.Transactions
open MiningpoolObserver.Processing.Merging MiningpoolObserver.Processing.Rounds
open MiningpoolObserver.Processing.ConflictSets MiningpoolObserver.Processing.Listing
open MiningpoolObserver.BuiltRecords
open MiningpoolObserver.DetailRows MiningpoolObserver.SanctionCounts MiningpoolObserver.Simulation

variable {lib : Crates} {rs : RandomState} {network : Network} {block : Bitcoin.Block}
variable {fees : GetBlockTxFeesResult} {lt : List GetBlockTemplateResult} {c : Comparison}
variable {s : Sanctions} {b : SharedModel.NewBlock} {blockId : Int64} {r : Records}
variable {utxoMap : UtxoMap} {addresses : HashSet String} {key : List UInt8}

/-- A transaction of either side spends an outpoint that one of the other side spends too. -/
structure Conflicting (c : Comparison) (t b : TxInfo) : Prop where
  template : OnlyInTemplate c t
  block : OnlyInBlock c b
  common : ∃ o ∈ spends t, o ∈ spends b

/-- The map has the right keys, and exactly the conflicting transactions are tagged so. -/
structure Tagged (lib : Crates) (c : Comparison) (s : Sanctions) (r : Records) : Prop where
  keys : ∀ key, r.transactions.containsKey key = true ↔
    ∃ txInfo, Added lib c s txInfo ∧ txInfo.txid.reversed = key
  conflicting : ∀ key t, r.transactions.get? key = some t →
    (TxTag.conflicting.code ∈ t.tags ↔ ∃ ti bi, Conflicting c ti bi ∧
      (ti.txid.reversed = key ∨ bi.txid.reversed = key))

/-- No two of these transactions spend the same outpoint. -/
def SpendApart (infos : Set TxInfo) : Prop :=
  ∀ i ∈ infos, ∀ i' ∈ infos, ∀ o ∈ spends i, o ∈ spends i' → i.txid = i'.txid

theorem conflicting_mem_getTransactionTags {txInfo : TxInfo} {rawTxInfo : RawTxInfo}
    {isConflictingTx : Bool} :
    TxTag.conflicting.code ∈
        getTransactionTags lib txInfo rawTxInfo isConflictingTx utxoMap addresses ↔
      isConflictingTx = true := by
  rw [code_mem_getTransactionTags]
  simp [tagConditions]

/-- The conflict tag of what was built comes from the flag that was passed. -/
theorem conflicting_built {tries : Tries} :
    (∃ t ∈ built lib rs utxoMap addresses tries, t.txid = key ∧ TxTag.conflicting.code ∈ t.tags) ↔
      ∃ p ∈ tries, p.2 = true ∧ (lib.rawTxInfo p.1.tx).isSome ∧ p.1.txid.reversed = key := by
  constructor
  · rintro ⟨t, ht, rfl, htag⟩
    obtain ⟨p, hp, hb⟩ := List.mem_filterMap.mp ht
    obtain ⟨rawTxInfo, hraw, rfl⟩ := Option.map_eq_some_iff.mp hb
    exact ⟨p, hp, conflicting_mem_getTransactionTags.mp htag, by rw [hraw]; rfl, rfl⟩
  · rintro ⟨p, hp, hflag, hraw, rfl⟩
    obtain ⟨t, hb⟩ := Option.isSome_iff_exists.mp (isSome_buildTransaction.trans hraw)
    refine ⟨t, List.mem_filterMap.mpr ⟨p, hp, hb⟩, txid_of_buildTransaction hb, ?_⟩
    obtain ⟨rawTxInfo, -, rfl⟩ := Option.map_eq_some_iff.mp hb
    exact conflicting_mem_getTransactionTags.mpr hflag

/-- Only the builder of the conflicts passes the flag. -/
theorem flagged_tries {k : Passes} {txInfo : TxInfo} :
    (txInfo, true) ∈ k.tries lib s ↔ txInfo ∈ k.conflicts.flatMap members := by
  simp [Passes.tries, flagged]

section Passes

variable (hcomp : Compared lib block fees lt c) {k : Passes} (h : Made lib rs blockId c s k r)
include hcomp h

theorem mem_members_grouped {txInfo : TxInfo} (hi : txInfo ∈ k.conflicts.flatMap members) :
    ∃ ti bi, Conflicting c ti bi ∧ (ti = txInfo ∨ bi = txInfo) := by
  let P := fun txInfo => ∃ ti bi, Conflicting c ti bi ∧ (ti = txInfo ∨ bi = txInfo)
  have hfound : ∀ p ∈ k.found, Conflicting c p.2.1 p.2.2 := by
    intro p hp
    obtain ⟨ht, hot⟩ := h.meets.template p hp
    obtain ⟨hb, hob⟩ := h.meets.block p hp
    exact ⟨(onlyInTemplate_iff hcomp h).mpr ht, (onlyInBlock_iff hcomp h).mpr hb, p.1, hot, hob⟩
  have hall : AllIn P k.conflicts := allIn_grouped (fun p hp =>
    ⟨⟨_, _, hfound p hp, .inl rfl⟩, ⟨_, _, hfound p hp, .inr rfl⟩⟩)
  obtain ⟨conflict, hc, hm⟩ := List.mem_flatMap.mp hi
  exact (List.mem_append.mp hm).elim ((hall conflict hc).1 txInfo) ((hall conflict hc).2 txInfo)

/-- Where each side spends an outpoint once, the builder finds both transactions. -/
theorem exists_members_grouped (ht : SpendApart {i | OnlyInTemplate c i})
    (hb : SpendApart {i | OnlyInBlock c i}) {ti bi : TxInfo} (hc : Conflicting c ti bi)
    {txid : Txid} (hid : ti.txid = txid ∨ bi.txid = txid) :
    ∃ txInfo ∈ k.conflicts.flatMap members, txInfo.txid = txid := by
  obtain ⟨o, hot, hob⟩ := hc.common
  have hti := (onlyInTemplate_iff hcomp h).mp hc.template
  have hbi := (onlyInBlock_iff hcomp h).mp hc.block
  obtain ⟨p, hp, rfl⟩ := h.meets.complete o ⟨ti, hti, hot⟩ ⟨bi, hbi, hob⟩
  obtain ⟨hpt, hpot⟩ := h.meets.template p hp
  obtain ⟨hpb, hpob⟩ := h.meets.block p hp
  have het : p.2.1.txid = ti.txid :=
    ht p.2.1 ((onlyInTemplate_iff hcomp h).mpr hpt) ti hc.template p.1 hpot hot
  have heb : p.2.2.txid = bi.txid :=
    hb p.2.2 ((onlyInBlock_iff hcomp h).mpr hpb) bi hc.block p.1 hpob hob
  have hm : Mentions k.conflicts txid := by
    obtain hid | hid := hid
    · exact hid ▸ het ▸ (mentions_grouped hp).1
    · exact hid ▸ heb ▸ (mentions_grouped hp).2
  obtain ⟨conflict, hconf, txInfo, htx, hid⟩ := hm
  exact ⟨txInfo, List.mem_flatMap.mpr ⟨conflict, hconf, htx⟩, hid⟩

end Passes

/-- The keys of the map and the conflict tags in it, after all builders have run. -/
theorem tagged_of_computes (h : Computes lib rs network block fees lt c s b blockId r)
    (hraw : ∀ txInfo, Added lib c s txInfo → (lib.rawTxInfo txInfo.tx).isSome)
    (ht : SpendApart {i | OnlyInTemplate c i}) (hb : SpendApart {i | OnlyInBlock c i}) :
    Tagged lib c s r := by
  obtain ⟨k, hk⟩ := h.made
  have hcomp := compared_of_compareBlock h.compared
  refine ⟨fun key => ?_, fun key t hget => ?_⟩
  · rw [hk.containsKey_iff]
    simp only [← added_iff hcomp hk]
    constructor
    · rintro ⟨i, hi, -, hkey⟩
      exact ⟨i, hi, hkey⟩
    · rintro ⟨i, hi, hkey⟩
      exact ⟨i, hi, hraw i hi, hkey⟩
  · rw [hk.transactions] at hget
    rw [mem_tags_addEach hget, conflicting_built]
    constructor
    · rintro ⟨⟨i, flag⟩, hp, rfl, -, rfl⟩
      obtain ⟨ti, bi, hc, hi⟩ := mem_members_grouped hcomp hk (flagged_tries.mp hp)
      exact ⟨ti, bi, hc, hi.imp (fun he => by rw [he]) (fun he => by rw [he])⟩
    · rintro ⟨ti, bi, hc, hkey⟩
      obtain ⟨txid, rfl, hid⟩ : ∃ txid : Txid, txid.reversed = key ∧
          (ti.txid = txid ∨ bi.txid = txid) := by
        obtain rfl | rfl := hkey
        · exact ⟨ti.txid, rfl, .inl rfl⟩
        · exact ⟨bi.txid, rfl, .inr rfl⟩
      obtain ⟨i, hi, rfl⟩ := exists_members_grouped hcomp hk ht hb hc hid
      refine ⟨(i, true), flagged_tries.mpr hi, rfl, hraw i (.inl ?_), rfl⟩
      obtain ⟨ti', bi', hc', hi'⟩ := mem_members_grouped hcomp hk hi
      obtain rfl | rfl := hi'
      · exact .inl hc'.template
      · exact .inr hc'.block

def templateInfos : List TxInfo :=
  [⟨hashOfByte 103, sampleTx 103 ⟨hashOfByte 50, 0⟩ otherScript, 0, 10⟩,
    ⟨hashOfByte 104, sampleTx 104 ⟨hashOfByte 51, 0⟩ listedScript, 1, 10⟩]

def blockInfos : List TxInfo :=
  [⟨hashOfByte 102, coinbaseTx 102 otherScript, 0, 0⟩,
    ⟨hashOfByte 103, sampleTx 103 ⟨hashOfByte 50, 0⟩ otherScript, 1, 0⟩,
    ⟨hashOfByte 105, sampleTx 105 ⟨hashOfByte 51, 0⟩ otherScript, 2, 0⟩]

theorem computes_conflict : ∃ c b r, Computes decoding .inserted .bitcoin overlapBlock
    (feesOf decoding overlapBlock) [overlapTemplate] c listedOnly b 7 r ∧
      infosIn c.templateTxData = templateInfos ∧ infosIn c.blockTxData = blockInfos ∧
      ∃ ti bi, Conflicting c ti bi := by
  refine ⟨_, _, _, ⟨rfl, ⟨_, [], 0, rfl, rfl⟩, _, HashMap.empty, rfl, rfl⟩, rfl, rfl, _, _,
    ⟨hashOfByte 104, ?_, ?_, rfl⟩, ⟨hashOfByte 105, ?_, ?_, rfl⟩, ⟨hashOfByte 51, 0⟩, ?_, ?_⟩
  · exact List.mem_of_getElem? (i := 1) rfl
  · decide +kernel
  · exact List.mem_of_getElem? (i := 2) rfl
  · decide +kernel
  · exact List.mem_singleton_self _
  · exact List.mem_singleton_self _

theorem mem_infosIn {data : TxData} {txid : Txid} {txInfo : TxInfo}
    (h : data.txidToTxinfoMap.get? txid = some txInfo) : txInfo ∈ infosIn data :=
  List.mem_map_of_mem (HashMap.get?_eq_some_iff.mp h)

/-- The two transactions that spend one outpoint are tagged, and no other one. -/
theorem tagged_overlap : ∃ c b r, Computes decoding .inserted .bitcoin overlapBlock
    (feesOf decoding overlapBlock) [overlapTemplate] c listedOnly b 7 r ∧
      (∃ ti bi, Conflicting c ti bi) ∧ Tagged decoding c listedOnly r := by
  obtain ⟨c, b, r, h, ht, hb, hc⟩ := computes_conflict
  have hapart : ∀ i ∈ templateInfos, ∀ i' ∈ templateInfos, ∀ o ∈ spends i, o ∈ spends i' →
      i.txid = i'.txid := by decide
  have hapart' : ∀ i ∈ blockInfos, ∀ i' ∈ blockInfos, ∀ o ∈ spends i, o ∈ spends i' →
      i.txid = i'.txid := by decide
  refine ⟨c, b, r, h, hc, tagged_of_computes h (fun _ _ => rfl) ?_ ?_⟩
  · rintro i ⟨_, -, -, hi⟩ i' ⟨_, -, -, hi'⟩
    exact hapart i (ht ▸ mem_infosIn hi) i' (ht ▸ mem_infosIn hi')
  · rintro i ⟨_, -, -, hi⟩ i' ⟨_, -, -, hi'⟩
    exact hapart' i (hb ▸ mem_infosIn hi) i' (hb ▸ mem_infosIn hi')

end MiningpoolObserver.ConflictTags
