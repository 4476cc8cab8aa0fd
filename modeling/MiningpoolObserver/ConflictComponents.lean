import MiningpoolObserver.Overlap
import MiningpoolObserver.Processing.ConflictGroups
import MiningpoolObserver.Simulation

namespace MiningpoolObserver.ConflictComponents

open MiningpoolObserver.Library.Components MiningpoolObserver.Library.HashCollections
open MiningpoolObserver.Process
open MiningpoolObserver.Bitcoin MiningpoolObserver.DaemonModel MiningpoolObserver.BuiltRecords
open MiningpoolObserver.Processing.Transactions MiningpoolObserver.Processing.Sanctions
open MiningpoolObserver.Processing.Conflicts MiningpoolObserver.Processing.ConflictSets
open MiningpoolObserver.Processing.ConflictGroups MiningpoolObserver.Processing.Rounds
open MiningpoolObserver.Processing.Comparison MiningpoolObserver.Processing.Listing
open MiningpoolObserver.Overlap MiningpoolObserver.Simulation

variable {lib : Crates} {rs : RandomState} {blockId : Int64} {utxoMap : UtxoMap}
variable {addresses : HashSet String} {m : TransactionMap} {T B : Set TxInfo}
variable {txidsOnlyInTemplate txidsOnlyInBlock : HashSet Txid}
variable {templateTxidToTxinfoMap blockTxidToTxinfoMap : HashMap Txid TxInfo}

/-- The transactions that a set of ids stands for. -/
def infosOf (txids : HashSet Txid) (txidToTxinfoMap : HashMap Txid TxInfo) : Set TxInfo :=
  {txInfo | ∃ txid ∈ txids, txidToTxinfoMap.get? txid = some txInfo}

/-- One side of the comparison: each id of the set has its transaction in the map, and no two
transactions spend the same outpoint. -/
structure Side (txids : HashSet Txid) (txidToTxinfoMap : HashMap Txid TxInfo) : Prop where
  known : ∀ txid ∈ txids, ∃ txInfo, txidToTxinfoMap.get? txid = some txInfo ∧ txInfo.txid = txid
  apart : ∀ i ∈ infosOf txids txidToTxinfoMap, ∀ i' ∈ infosOf txids txidToTxinfoMap,
    ∀ o ∈ spends i, o ∈ spends i' → i = i'

/-- The outpoints that a transaction of either side spends, with the two transactions. -/
def edges (T B : Set TxInfo) : Set (OutPoint × TxInfo × TxInfo) :=
  {e | e.2.1 ∈ T ∧ e.2.2 ∈ B ∧ e.1 ∈ spends e.2.1 ∧ e.1 ∈ spends e.2.2}

def outpointKey (o : OutPoint) : List UInt8 × Int32 := (o.txid.reversed, o.vout.toInt32)

/-- The outpoints of a row, whose two lists go together. -/
def outpointKeys (row : SharedModel.ConflictingTransaction) : List (List UInt8 × Int32) :=
  row.conflictingOutpointsTxids.zip row.conflictingOutpointsVouts

/-- The list has one entry for each member of the set, and no others. -/
def Listed {α κ : Type} (key : α → κ) (l : List κ) (s : Set α) : Prop :=
  l.Nodup ∧ ∀ k, k ∈ l ↔ ∃ a ∈ s, key a = k

/-- The row lists the transactions of the component, on their sides, and its outpoints. -/
structure Shows (blockId : Int64) (row : SharedModel.ConflictingTransaction)
    (C : (graph (edges T B)).ConnectedComponent) : Prop where
  block : row.blockId = blockId
  templateTxids : Listed (fun i : TxInfo => i.txid.reversed) row.templateTxids {i | .inl i ∈ C.supp}
  blockTxids : Listed (fun i : TxInfo => i.txid.reversed) row.blockTxids {i | .inr i ∈ C.supp}
  lengths : row.conflictingOutpointsTxids.length = row.conflictingOutpointsVouts.length
  outpoints : Listed outpointKey (outpointKeys row) (labelsIn C)

/-- In the rows together, each conflicting outpoint is listed once, and so is each transaction that
spends one, on its side; nothing else is. -/
structure OnceInAll (T B : Set TxInfo) (rows : List SharedModel.ConflictingTransaction) :
    Prop where
  outpoints : Listed outpointKey (rows.flatMap outpointKeys) {o | ∃ e ∈ edges T B, e.1 = o}
  template : Listed (fun i : TxInfo => i.txid.reversed)
    (rows.flatMap (fun row => row.templateTxids)) {i | ∃ e ∈ edges T B, e.2.1 = i}
  blocks : Listed (fun i : TxInfo => i.txid.reversed)
    (rows.flatMap (fun row => row.blockTxids)) {i | ∃ e ∈ edges T B, e.2.2 = i}

/-- The rows are the components with an edge, each once. -/
def AreComponents (T B : Set TxInfo) (blockId : Int64)
    (rows : List SharedModel.ConflictingTransaction) : Prop :=
  ∃ Cs : List (graph (edges T B)).ConnectedComponent,
    Cs.Nodup ∧ (∀ C, C ∈ Cs ↔ HasEdge C) ∧ List.Forall₂ (Shows blockId) rows Cs

section Listed

theorem outpointKey_injective : Function.Injective outpointKey := by
  rintro ⟨txid, vout⟩ ⟨txid', vout'⟩ h
  obtain ⟨htxid, hvout⟩ := Prod.mk.inj h
  obtain rfl : txid = txid' := Hash256.reversed_injective htxid
  obtain rfl : vout = vout' := congrArg Int32.toUInt32 hvout
  rfl

variable {α κ : Type} {key : α → κ}

theorem listed_map {l : List α} {s : Set α} (hkey : ∀ a ∈ l, ∀ a' ∈ l, key a = key a' → a = a')
    (hnd : l.Nodup) (hs : ∀ a, a ∈ l ↔ a ∈ s) : Listed key (l.map key) s := by
  refine ⟨hnd.map_on (fun a ha a' ha' => hkey a ha a' ha'), fun k => ?_⟩
  simp only [List.mem_map, hs]

/-- What groups of a grouping list is listed once in all, when two that list the same thing have a
vertex in common. -/
theorem nodup_flatMap {E : Set (OutPoint × TxInfo × TxInfo)} {conflicts : List Conflict}
    (h : Grouping E (conflicts.map groupOf)) {f : Conflict → List κ}
    (hnd : ∀ c ∈ conflicts, (f c).Nodup)
    (hshare : ∀ c ∈ conflicts, ∀ c' ∈ conflicts, ∀ k ∈ f c, k ∈ f c' →
      ∃ v ∈ (groupOf c).vertices, v ∈ (groupOf c').vertices) :
    (conflicts.flatMap f).Nodup := by
  refine List.nodup_flatMap.mpr ⟨hnd, ?_⟩
  refine (List.pairwise_map.mp h.apart).imp_of_mem (fun {c c'} hc hc' hd k hk hk' => ?_)
  obtain ⟨v, hv, hv'⟩ := hshare c hc c' hc' k hk hk'
  exact hd.ne_of_mem hv hv' rfl

end Listed

section Sides

theorem byTxid_infosOf {txids : HashSet Txid} {txidToTxinfoMap : HashMap Txid TxInfo}
    (h : Side txids txidToTxinfoMap) : ByTxid (· ∈ infosOf txids txidToTxinfoMap) := by
  have hid : ∀ {txid txInfo}, txid ∈ txids → txidToTxinfoMap.get? txid = some txInfo →
      txInfo.txid = txid := by
    intro txid txInfo ht hg
    obtain ⟨i, hi, hid⟩ := h.known txid ht
    rwa [Option.some.inj (hg.symm.trans hi)]
  rintro i i' ⟨txid, ht, hg⟩ ⟨txid', ht', hg'⟩ he
  rw [hid ht hg, hid ht' hg'] at he
  rw [he] at hg
  exact Option.some.inj (hg.symm.trans hg')

/-- The ids of a side of the comparison have their transactions in its map. -/
theorem side_of_aligned {data : TxData} (h : Aligned data) {txids : HashSet Txid}
    (hsub : ∀ txid ∈ txids, txid ∈ data.txids)
    (hapart : ∀ i ∈ infosIn data, i.txid ∈ txids → ∀ i' ∈ infosIn data, i'.txid ∈ txids →
      ∀ o ∈ spends i, o ∈ spends i' → i = i') : Side txids data.txidToTxinfoMap where
  known txid ht := by
    obtain ⟨i, hi, hid⟩ := List.mem_map.mp (h.mem_txids.mp (hsub txid ht))
    exact ⟨i, h.get?_eq_some_iff.mpr ⟨hi, hid⟩, hid⟩
  apart := by
    rintro i ⟨txid, ht, hg⟩ i' ⟨txid', ht', hg'⟩
    obtain ⟨hi, rfl⟩ := h.get?_eq_some_iff.mp hg
    obtain ⟨hi', rfl⟩ := h.get?_eq_some_iff.mp hg'
    exact hapart i hi ht i' hi' ht'

/-- The outpoints found in the two maps are the edges. -/
theorem mem_found_iff (hT : Side txidsOnlyInTemplate templateTxidToTxinfoMap)
    (hB : Side txidsOnlyInBlock blockTxidToTxinfoMap) {ts bs : List TxInfo}
    {found : List (OutPoint × TxInfo × TxInfo)}
    (ht : ∀ i, i ∈ ts ↔ i ∈ infosOf txidsOnlyInTemplate templateTxidToTxinfoMap)
    (hb : ∀ i, i ∈ bs ↔ i ∈ infosOf txidsOnlyInBlock blockTxidToTxinfoMap)
    (h : Meets ts bs found) : {e | e ∈ found} =
      edges (infosOf txidsOnlyInTemplate templateTxidToTxinfoMap)
        (infosOf txidsOnlyInBlock blockTxidToTxinfoMap) := by
  ext ⟨o, t, b⟩
  constructor
  · intro he
    obtain ⟨htm, hot⟩ := h.template _ he
    obtain ⟨hbm, hob⟩ := h.block _ he
    exact ⟨(ht t).mp htm, (hb b).mp hbm, hot, hob⟩
  · rintro ⟨htm, hbm, hot, hob⟩
    obtain ⟨⟨o', t', b'⟩, he, rfl⟩ := h.complete o ⟨t, (ht t).mpr htm, hot⟩ ⟨b, (hb b).mpr hbm, hob⟩
    obtain ⟨htm', hot'⟩ := h.template _ he
    obtain ⟨hbm', hob'⟩ := h.block _ he
    obtain rfl := hT.apart t htm t' ((ht t').mp htm') _ hot hot'
    obtain rfl := hB.apart b hbm b' ((hb b').mp hbm') _ hob hob'
    exact he

theorem mem_infosOf_iff {txids : HashSet Txid} {txidToTxinfoMap : HashMap Txid TxInfo}
    {infos : List TxInfo} (h : Looked txidToTxinfoMap (txids.iter rs) infos) (i : TxInfo) :
    i ∈ infos ↔ i ∈ infosOf txids txidToTxinfoMap := by
  rw [h.mem_iff]
  simp only [HashSet.mem_iter, infosOf, Set.mem_ofPred_eq]

end Sides

section Rows

variable {conflicts : List Conflict} {P Q : TxInfo → Prop}

theorem txidKey_injective (hP : ByTxid P) {i i' : TxInfo} (hi : P i) (hi' : P i')
    (h : i.txid.reversed = i'.txid.reversed) : i = i' :=
  hP i i' hi hi' (Hash256.reversed_injective h)

/-- The transactions of one side, listed by their ids. -/
theorem listed_side {E : Set (OutPoint × TxInfo × TxInfo)} {f : Conflict → List TxInfo}
    {σ : TxInfo → TxInfo ⊕ TxInfo} {s : Set TxInfo} (h : Grouping E (conflicts.map groupOf))
    (hP : ByTxid P) (hf : ∀ c ∈ conflicts, (f c).Nodup ∧ ∀ i ∈ f c, P i)
    (hσ : ∀ c i, i ∈ f c ↔ σ i ∈ (groupOf c).vertices)
    (hs : ∀ i, i ∈ s ↔ ∃ c ∈ conflicts, i ∈ f c) :
    Listed (fun i : TxInfo => i.txid.reversed)
      (conflicts.flatMap (fun c => (f c).map (fun i => i.txid.reversed))) s := by
  refine ⟨nodup_flatMap h (fun c hc => ?_) ?_, fun k => ?_⟩
  · exact (hf c hc).1.map_on (fun i hi i' hi' => txidKey_injective hP ((hf c hc).2 i hi)
      ((hf c hc).2 i' hi'))
  · intro c hc c' hc' k hk hk'
    obtain ⟨i, hi, rfl⟩ := List.mem_map.mp hk
    obtain ⟨i', hi', heq⟩ := List.mem_map.mp hk'
    obtain rfl := txidKey_injective hP ((hf c' hc').2 i' hi') ((hf c hc).2 i hi) heq
    exact ⟨σ i', (hσ c i').mp hi, (hσ c' i').mp hi'⟩
  · simp only [List.mem_flatMap, List.mem_map, hs]
    constructor
    · rintro ⟨c, hc, i, hi, rfl⟩
      exact ⟨i, ⟨c, hc, hi⟩, rfl⟩
    · rintro ⟨i, ⟨c, hc, hi⟩, rfl⟩
      exact ⟨c, hc, i, hi, rfl⟩

/-- The outpoints of all conflicts, listed by their keys. -/
theorem listed_outpoints {E : Set (OutPoint × TxInfo × TxInfo)}
    (h : Grouping E (conflicts.map groupOf)) (hn : ∀ c ∈ conflicts, c.conflictingOutpoints.Nodup)
    (hlabels : ∀ e ∈ E, ∀ e' ∈ E, e.1 = e'.1 → e = e') :
    Listed outpointKey (conflicts.flatMap (fun c => c.conflictingOutpoints.map outpointKey))
      {o | ∃ e ∈ E, e.1 = o} := by
  refine ⟨nodup_flatMap h (fun c hc => (hn c hc).map outpointKey_injective) ?_, fun k => ?_⟩
  · intro c hc c' hc' k hk hk'
    obtain ⟨o, ho, rfl⟩ := List.mem_map.mp hk
    obtain ⟨o', ho', heq⟩ := List.mem_map.mp hk'
    obtain rfl := outpointKey_injective heq
    obtain ⟨e, he, hlabel, ha⟩ := h.labelled _ (List.mem_map_of_mem hc) o' ho
    obtain ⟨e', he', hlabel', ha'⟩ := h.labelled _ (List.mem_map_of_mem hc') o' ho'
    obtain rfl := hlabels e he e' he' (hlabel.trans hlabel'.symm)
    exact ⟨.inl e.2.1, ha, ha'⟩
  · simp only [List.mem_flatMap, List.mem_map]
    constructor
    · rintro ⟨c, hc, o, ho, rfl⟩
      obtain ⟨e, he, hlabel, -⟩ := h.labelled _ (List.mem_map_of_mem hc) o ho
      exact ⟨o, ⟨e, he, hlabel⟩, rfl⟩
    · rintro ⟨_, ⟨e, he, rfl⟩, rfl⟩
      obtain ⟨g, hg, ho, -⟩ := h.covers e he
      obtain ⟨c, hc, rfl⟩ := List.mem_map.mp hg
      exact ⟨c, hc, e.1, ho, rfl⟩

theorem outpointKeys_conflictRow (c : Conflict) :
    outpointKeys (conflictRow blockId c) = c.conflictingOutpoints.map outpointKey :=
  List.zip_map'

theorem shows_conflictRow (hP : ByTxid P) (hQ : ByTxid Q) {c : Conflict} (hc : Sound P Q c)
    {C : (graph (edges T B)).ConnectedComponent} (h : Grouping.Is (groupOf c) C) :
    Shows blockId (conflictRow blockId c) C where
  block := rfl
  templateTxids := listed_map (fun i hi i' hi' => txidKey_injective hP (hc.template i hi)
    (hc.template i' hi')) hc.nodupTemplate (fun i => Set.ext_iff.mp h.vertices (.inl i))
  blockTxids := listed_map (fun i hi i' hi' => txidKey_injective hQ (hc.block i hi)
    (hc.block i' hi')) hc.nodupBlock (fun i => Set.ext_iff.mp h.vertices (.inr i))
  lengths := (List.length_map _).trans (List.length_map _).symm
  outpoints := by
    rw [outpointKeys_conflictRow]
    exact listed_map (fun _ _ _ _ he => outpointKey_injective he) hc.nodupOutpoints
      (fun o => Set.ext_iff.mp h.labels o)

theorem onceInAll_conflictRows (hP : ByTxid P) (hQ : ByTxid Q)
    (hs : ∀ c ∈ conflicts, Sound P Q c) (h : Grouping (edges T B) (conflicts.map groupOf))
    (hlabels : ∀ e ∈ edges T B, ∀ e' ∈ edges T B, e.1 = e'.1 → e = e') :
    OnceInAll T B (conflicts.map (conflictRow blockId)) where
  outpoints := by
    rw [List.flatMap_map]
    simp only [outpointKeys_conflictRow]
    exact listed_outpoints h (fun c hc => (hs c hc).nodupOutpoints) hlabels
  template := by
    rw [List.flatMap_map]
    refine listed_side (f := Conflict.templateTransactions) (σ := Sum.inl) h hP
      (fun c hc => ⟨(hs c hc).nodupTemplate, (hs c hc).template⟩) (fun _ _ => Iff.rfl) (fun i => ?_)
    constructor
    · rintro ⟨e, he, rfl⟩
      obtain ⟨g, hg, -, hl, -⟩ := h.covers e he
      obtain ⟨c, hc, rfl⟩ := List.mem_map.mp hg
      exact ⟨c, hc, hl⟩
    · rintro ⟨c, hc, hi⟩
      obtain ⟨e, he, hv | hv⟩ := h.exists_edge_of_mem (List.mem_map_of_mem hc) (v := .inl i) hi
      · exact ⟨e, he, (Sum.inl.inj hv).symm⟩
      · cases hv
  blocks := by
    rw [List.flatMap_map]
    refine listed_side (f := Conflict.blockTransactions) (σ := Sum.inr) h hQ
      (fun c hc => ⟨(hs c hc).nodupBlock, (hs c hc).block⟩) (fun _ _ => Iff.rfl) (fun i => ?_)
    constructor
    · rintro ⟨e, he, rfl⟩
      obtain ⟨g, hg, -, -, hr⟩ := h.covers e he
      obtain ⟨c, hc, rfl⟩ := List.mem_map.mp hg
      exact ⟨c, hc, hr⟩
    · rintro ⟨c, hc, hi⟩
      obtain ⟨e, he, hv | hv⟩ := h.exists_edge_of_mem (List.mem_map_of_mem hc) (v := .inr i) hi
      · cases hv
      · exact ⟨e, he, (Sum.inr.inj hv).symm⟩

end Rows

/-- In every order of iteration, build_conflicting_transactions returns the components with an
edge, each once. -/
theorem components_built (hT : Side txidsOnlyInTemplate templateTxidToTxinfoMap)
    (hB : Side txidsOnlyInBlock blockTxidToTxinfoMap) : ∃ rows m',
      buildConflictingTransactions lib rs blockId txidsOnlyInTemplate templateTxidToTxinfoMap
        txidsOnlyInBlock blockTxidToTxinfoMap m utxoMap addresses = .ok (rows, m') ∧
      AreComponents (infosOf txidsOnlyInTemplate templateTxidToTxinfoMap)
        (infosOf txidsOnlyInBlock blockTxidToTxinfoMap) blockId rows ∧
      OnceInAll (infosOf txidsOnlyInTemplate templateTxidToTxinfoMap)
        (infosOf txidsOnlyInBlock blockTxidToTxinfoMap) rows := by
  have hlookup : ∀ {txids : HashSet Txid} {txidToTxinfoMap : HashMap Txid TxInfo},
      Side txids txidToTxinfoMap → ∀ txid ∈ txids,
        ∃ txInfo, lookup txidToTxinfoMap txid = .ok txInfo := by
    intro txids txidToTxinfoMap h txid ht
    obtain ⟨txInfo, hg, -⟩ := h.known txid ht
    exact ⟨txInfo, lookup_eq_ok.mpr hg⟩
  obtain ⟨⟨rows, m'⟩, hr⟩ := exists_buildConflictingTransactions (hlookup hT) (hlookup hB)
  refine ⟨rows, m', hr, ?_⟩
  obtain ⟨ts, bs, found, hts, hbs, hmeets, rfl, -⟩ := buildConflictingTransactions_eq_ok hr
  have hfound := mem_found_iff hT hB (mem_infosOf_iff hts) (mem_infosOf_iff hbs) hmeets
  have hP := byTxid_infosOf hT
  have hQ := byTxid_infosOf hB
  obtain ⟨hg, hs⟩ : Grouping {e | e ∈ found} _ ∧ ∀ c ∈ grouped found, _ :=
    grouping_grouped hP hQ (fun p hp => ⟨(mem_infosOf_iff hts _).mp (hmeets.template p hp).1,
      (mem_infosOf_iff hbs _).mp (hmeets.block p hp).1⟩)
  rw [hfound] at hg
  refine ⟨?_, onceInAll_conflictRows hP hQ hs hg ?_⟩
  · obtain ⟨Cs, hnd, hCs, his⟩ := hg.exists_components
    refine ⟨Cs, hnd, hCs, ?_⟩
    rw [List.forall₂_map_left_iff] at his ⊢
    exact ((List.forall₂_and_left _ _).mpr ⟨hs, his⟩).imp
      (fun _ _ hc => shows_conflictRow hP hQ hc.1 hc.2)
  · rintro ⟨o, t, b⟩ ⟨ht, hb, hot, hob⟩ ⟨o', t', b'⟩ ⟨ht', hb', hot', hob'⟩ rfl
    obtain rfl := hT.apart t ht t' ht' _ hot hot'
    obtain rfl := hB.apart b hb b' hb' _ hob hob'
    rfl

/-- For process: its sides are such, when no two transactions of a side spend one outpoint. -/
theorem sides_of_compared {block : Bitcoin.Block} {fees : GetBlockTxFeesResult}
    {lt : List GetBlockTemplateResult} {c : Comparison} (h : Compared lib block fees lt c)
    (hd : Declared lib c.template)
    (ht : ∀ i ∈ infosIn c.templateTxData, i.txid ∈ c.txidsOnlyInTemplate →
      ∀ i' ∈ infosIn c.templateTxData, i'.txid ∈ c.txidsOnlyInTemplate →
        ∀ o ∈ spends i, o ∈ spends i' → i = i')
    (hb : ∀ i ∈ infosIn c.blockTxData, i.txid ∈ c.txidsOnlyInBlock →
      ∀ i' ∈ infosIn c.blockTxData, i'.txid ∈ c.txidsOnlyInBlock →
        ∀ o ∈ spends i, o ∈ spends i' → i = i') :
    Side c.txidsOnlyInTemplate c.templateTxData.txidToTxinfoMap ∧
      Side c.txidsOnlyInBlock c.blockTxData.txidToTxinfoMap := by
  obtain ⟨bs, ts, hs⟩ := exists_sides h hd
  refine ⟨side_of_aligned hs.alignedTemplate (fun txid hm => ?_) ht,
    side_of_aligned hs.alignedBlock (fun txid hm => ?_) hb⟩
  · rw [h.onlyInTemplate, HashSet.mem_difference] at hm
    exact hm.1
  · rw [h.onlyInBlock, HashSet.mem_difference] at hm
    exact hm.1

/-! Two conflicts that the last outpoint merges. -/

def spending (id : UInt8) (spent : List OutPoint) : TxInfo :=
  ⟨hashOfByte id, { sampleTx id.toUInt32 ⟨hashOfByte id, 0⟩ otherScript with
    input := spent.map (fun o => ⟨o, [], 0xffffffff, []⟩) }, 0, 10⟩

def chainOutpoint (i : UInt8) : OutPoint := ⟨hashOfByte i, 0⟩

def chainTemplate : TxData :=
  dataOf [spending 1 [chainOutpoint 50], spending 2 [chainOutpoint 51, chainOutpoint 52],
    spending 3 [chainOutpoint 60]]

def chainBlock : TxData :=
  dataOf [spending 4 [chainOutpoint 50, chainOutpoint 52], spending 5 [chainOutpoint 51]]

theorem components_built_chain : ∃ rows m',
    buildConflictingTransactions sample .inserted 7 chainTemplate.txids
      chainTemplate.txidToTxinfoMap chainBlock.txids chainBlock.txidToTxinfoMap HashMap.empty
      HashMap.empty HashSet.empty = .ok (rows, m') ∧
    rows.map (fun row => (row.templateTxids.length, row.blockTxids.length)) = [(2, 2)] ∧
    AreComponents (infosOf chainTemplate.txids chainTemplate.txidToTxinfoMap)
      (infosOf chainBlock.txids chainBlock.txidToTxinfoMap) 7 rows := by
  have hT : Side chainTemplate.txids chainTemplate.txidToTxinfoMap :=
    side_of_aligned (aligned_dataOf _) (fun _ h => h) (by decide)
  have hB : Side chainBlock.txids chainBlock.txidToTxinfoMap :=
    side_of_aligned (aligned_dataOf _) (fun _ h => h) (by decide)
  obtain ⟨rows, m', hr, hrows, -⟩ : ∃ rows m', buildConflictingTransactions sample .inserted 7 _ _
    _ _ HashMap.empty HashMap.empty HashSet.empty = .ok (rows, m') ∧ _ := components_built hT hB
  refine ⟨rows, m', hr, ?_, hrows⟩
  have heval : (buildConflictingTransactions sample .inserted 7 chainTemplate.txids
      chainTemplate.txidToTxinfoMap chainBlock.txids chainBlock.txidToTxinfoMap HashMap.empty
      HashMap.empty HashSet.empty).toOption.map (fun r => r.1.map (fun row =>
        (row.templateTxids.length, row.blockTxids.length))) = some [(2, 2)] := by decide +kernel
  rw [hr] at heval
  exact Option.some.inj heval

end MiningpoolObserver.ConflictComponents
