import MiningpoolObserver.Process
import MiningpoolObserver.Processing.ConflictSets

namespace MiningpoolObserver.BuiltRecords

open MiningpoolObserver.Library.HashCollections MiningpoolObserver.Library.Fallible
open MiningpoolObserver.Bitcoin MiningpoolObserver.DaemonModel MiningpoolObserver.Process
open MiningpoolObserver.Processing.Sanctions MiningpoolObserver.Processing.Transactions
open MiningpoolObserver.Processing.Conflicts MiningpoolObserver.Processing.Builders
open MiningpoolObserver.Processing.Merging MiningpoolObserver.Processing.Rounds
open MiningpoolObserver.Processing.ConflictSets MiningpoolObserver.Processing.Comparison

variable {lib : Crates} {rs : RandomState} {network : Network} {block : Bitcoin.Block}
variable {fees : GetBlockTxFeesResult} {lt : List GetBlockTemplateResult} {c : Comparison}
variable {s : Sanctions} {b : SharedModel.NewBlock} {blockId : Int64} {r : Records}

variable (lib network block fees c s b) in
/-- The block row is one that process builds from a comparison. -/
abbrev BuildsRow : Prop :=
  ∃ n pools now, getSanctionedMissingTxCount lib c.txidsOnlyInTemplate c.templateTxData s.utxoMap
      s.addresses = .ok n ∧
    buildBlock lib block c.template c.templateTxData.txidToTxinfoMap (blockNumbers lib fees c n)
      s.utxoMap s.addresses pools network now = .ok b

variable (lib rs blockId c s lt r) in
/-- The records are those that process builds for a block id. -/
abbrev BuildsRecords : Prop :=
  ∃ conflicting ages, buildConflictingTransactions lib rs blockId c.txidsOnlyInTemplate
      c.templateTxData.txidToTxinfoMap c.txidsOnlyInBlock c.blockTxData.txidToTxinfoMap
      HashMap.empty s.utxoMap s.addresses = .ok conflicting ∧
    buildRows lib rs blockId c s lt conflicting ages = .ok r

variable (lib rs network block fees lt c s b blockId r) in
/-- The block row and the records that one call of process computes, from one comparison and one
load of the lists. -/
structure Computes : Prop where
  compared : compareBlock lib block fees lt = .ok c
  row : BuildsRow lib network block fees c s b
  records : BuildsRecords lib rs lt c s blockId r

/-- The transactions that the builders of one call go through. -/
structure Passes where
  onlyInTemplate : List TxInfo
  onlyInBlock : List TxInfo
  inTemplate : List TxInfo
  /-- The conflicting outpoints, each with the transaction of either side. -/
  found : List (OutPoint × TxInfo × TxInfo)

namespace Passes

def conflicts (k : Passes) : List Conflict := grouped k.found

/-- Everything that is tried, in the order of the builders. -/
def tries (k : Passes) (lib : Crates) (s : Sanctions) : Tries :=
  flagged true (k.conflicts.flatMap members) ++ flagged false k.onlyInTemplate ++
    flagged false k.onlyInBlock ++ flagged false (chosen lib s.utxoMap s.addresses k.inTemplate) ++
    flagged false (chosen lib s.utxoMap s.addresses k.onlyInBlock)

end Passes

/-- The records are those of the passes over what one comparison has found. -/
structure Made (lib : Crates) (rs : RandomState) (blockId : Int64) (c : Comparison) (s : Sanctions)
    (k : Passes) (r : Records) : Prop where
  template : Looked c.templateTxData.txidToTxinfoMap (c.txidsOnlyInTemplate.iter rs)
    k.onlyInTemplate
  block : Looked c.blockTxData.txidToTxinfoMap (c.txidsOnlyInBlock.iter rs) k.onlyInBlock
  inTemplate : Looked c.templateTxData.txidToTxinfoMap (c.templateTxData.txids.iter rs) k.inTemplate
  meets : Meets k.onlyInTemplate k.onlyInBlock k.found
  transactions : r.transactions =
    addEach (built lib rs s.utxoMap s.addresses (k.tries lib s)) HashMap.empty
  conflicting : r.conflicting = k.conflicts.map (conflictRow blockId)
  templateRows : r.onlyInTemplate.map
    (fun row => (row.blockId, row.position, row.transactionTxid)) =
    k.onlyInTemplate.map (fun txInfo => (blockId, txInfo.pos, txInfo.txid.reversed))
  blockRows : r.onlyInBlock =
    k.onlyInBlock.map (fun txInfo => ⟨blockId, txInfo.pos, txInfo.txid.reversed⟩)
  sanctionedRows : r.sanctionedInfos =
    (chosen lib s.utxoMap s.addresses k.inTemplate).map (sanctionedRow lib rs s.utxoMap s.addresses
        blockId (fun txInfo => txInfo.txid ∈ c.blockTxData.txids) true) ++
      (chosen lib s.utxoMap s.addresses k.onlyInBlock).map (sanctionedRow lib rs s.utxoMap
        s.addresses blockId (fun _ => true) false)

theorem made_of_buildRows
    {conflicting : List SharedModel.ConflictingTransaction × TransactionMap}
    {ages : HashMap Txid Int32}
    (hconf : buildConflictingTransactions lib rs blockId c.txidsOnlyInTemplate
      c.templateTxData.txidToTxinfoMap c.txidsOnlyInBlock c.blockTxData.txidToTxinfoMap
      HashMap.empty s.utxoMap s.addresses = .ok conflicting)
    (hrows : buildRows lib rs blockId c s lt conflicting ages = .ok r) :
    ∃ k : Passes, Made lib rs blockId c s k r := by
  obtain ⟨ts, bs, found, hts, hbs, hmeets, hc₁, hc₂⟩ := buildConflictingTransactions_eq_ok hconf
  obtain ⟨onlyInTemplate, h₁, hrows⟩ := bind_eq_ok.mp hrows
  obtain ⟨onlyInBlock, h₂, hrows⟩ := bind_eq_ok.mp hrows
  obtain ⟨infos, h₃, hrows⟩ := bind_eq_ok.mp hrows
  obtain ⟨_, -, hrows⟩ := bind_eq_ok.mp hrows
  cases hrows
  obtain ⟨ts', hts', htrows, htmap⟩ := onlyInRows_eq_ok h₁
  obtain ⟨bs', hbs', hbrows, hbmap⟩ := onlyInRows_eq_ok h₂
  obtain ⟨all, bs'', hall, hbs'', hsrows, hsmap⟩ := buildSanctionedTransactionInfos_eq_ok h₃
  obtain rfl := Looked.unique hts hts'
  obtain rfl := Looked.unique hbs hbs'
  obtain rfl := Looked.unique hbs hbs''
  refine ⟨⟨ts, bs, all, found⟩, hts, hbs, hall, hmeets, ?_, hc₁, ?_, ?_, hsrows⟩
  · dsimp only
    rw [hsmap, hbmap, htmap, hc₂]
    simp only [← addEach_append, ← built_append, Passes.tries, Passes.conflicts, List.append_assoc]
  · dsimp only
    rw [htrows, List.map_map]
    conv_rhs => rw [← List.map_snd_zip hts.length_eq.ge, List.map_map]
    rfl
  · dsimp only
    rw [hbrows]
    conv_rhs => rw [← List.map_snd_zip hbs.length_eq.ge, List.map_map]
    rfl

/-- What holds of all transactions that were looked up holds of all that are tried. -/
theorem Made.forall_tries {k : Passes} (h : Made lib rs blockId c s k r) {P : TxInfo → Prop}
    (ht : ∀ txInfo ∈ k.onlyInTemplate, P txInfo) (hb : ∀ txInfo ∈ k.onlyInBlock, P txInfo)
    (hi : ∀ txInfo ∈ chosen lib s.utxoMap s.addresses k.inTemplate, P txInfo) :
    ∀ t ∈ k.tries lib s, P t.1 := by
  have hc : AllIn P k.conflicts := allIn_grouped (fun p hp =>
    ⟨ht _ (h.meets.template p hp).1, hb _ (h.meets.block p hp).1⟩)
  have hflagged : ∀ {flag : Bool} {infos : List TxInfo}, (∀ txInfo ∈ infos, P txInfo) →
      ∀ t ∈ flagged flag infos, P t.1 := by
    intro flag infos hall t ht
    obtain ⟨txInfo, hmem, rfl⟩ := List.mem_map.mp ht
    exact hall txInfo hmem
  have hmembers : ∀ txInfo ∈ k.conflicts.flatMap members, P txInfo := by
    intro txInfo hmem
    obtain ⟨conflict, hcm, hmem⟩ := List.mem_flatMap.mp hmem
    exact (List.mem_append.mp hmem).elim ((hc conflict hcm).1 txInfo) ((hc conflict hcm).2 txInfo)
  intro t hmem
  simp only [Passes.tries, List.mem_append] at hmem
  obtain (((hmem | hmem) | hmem) | hmem) | hmem := hmem
  · exact hflagged hmembers t hmem
  · exact hflagged ht t hmem
  · exact hflagged hb t hmem
  · exact hflagged hi t hmem
  · exact hflagged (fun txInfo hm => hb txInfo (List.mem_of_mem_filter hm)) t hmem

/-- The transactions with a key in the map: those that were looked up and could be built. -/
theorem Made.containsKey_iff {k : Passes} (h : Made lib rs blockId c s k r) {key : List UInt8} :
    r.transactions.containsKey key = true ↔ ∃ txInfo,
      (txInfo ∈ k.onlyInTemplate ∨ txInfo ∈ k.onlyInBlock ∨
        txInfo ∈ k.inTemplate ∧ isTxSanctioned lib txInfo.tx s.utxoMap s.addresses = true) ∧
      (lib.rawTxInfo txInfo.tx).isSome ∧ txInfo.txid.reversed = key := by
  rw [h.transactions, containsKey_addEach, exists_txid_mem_built]
  constructor
  · rintro ⟨p, hp, hraw, hkey⟩
    let P := fun txInfo => txInfo ∈ k.onlyInTemplate ∨ txInfo ∈ k.onlyInBlock ∨
      txInfo ∈ k.inTemplate ∧ isTxSanctioned lib txInfo.tx s.utxoMap s.addresses = true
    refine ⟨p.1, h.forall_tries (P := P) ?_ ?_ ?_ p hp, hraw, hkey⟩
    · exact fun _ hi => .inl hi
    · exact fun _ hi => .inr (.inl hi)
    · intro txInfo hi
      obtain ⟨hm, hs⟩ := List.mem_filter.mp hi
      exact .inr (.inr ⟨hm, (Bool.and_eq_true_iff.mp hs).1⟩)
  · rintro ⟨txInfo, hi, hraw, hkey⟩
    refine ⟨(txInfo, false), ?_, hraw, hkey⟩
    simp only [Passes.tries, flagged, List.mem_append, List.mem_map]
    obtain hi | hi | ⟨hi, hs⟩ := hi
    · exact .inl (.inl (.inl (.inr ⟨txInfo, hi, rfl⟩)))
    · exact .inl (.inl (.inr ⟨txInfo, hi, rfl⟩))
    · have hc : txInfo ∈ chosen lib s.utxoMap s.addresses k.inTemplate :=
        List.mem_filter.mpr ⟨hi, Bool.and_eq_true_iff.mpr ⟨hs, hraw⟩⟩
      exact .inl (.inr ⟨txInfo, hc, rfl⟩)

theorem Made.mem_onlyInTemplate {k : Passes} (h : Made lib rs blockId c s k r) {key : List UInt8} :
    (∃ row ∈ r.onlyInTemplate, row.transactionTxid = key) ↔
      ∃ txInfo ∈ k.onlyInTemplate, txInfo.txid.reversed = key := by
  have hids : r.onlyInTemplate.map (fun row => row.transactionTxid) =
      k.onlyInTemplate.map (fun txInfo => txInfo.txid.reversed) := by
    simpa only [List.map_map, Function.comp_def] using
      congrArg (List.map (fun p => p.2.2)) h.templateRows
  rw [← List.mem_map, hids, List.mem_map]

theorem Made.mem_onlyInBlock {k : Passes} (h : Made lib rs blockId c s k r) {key : List UInt8} :
    (∃ row ∈ r.onlyInBlock, row.transactionTxid = key) ↔
      ∃ txInfo ∈ k.onlyInBlock, txInfo.txid.reversed = key := by
  simp [h.blockRows]

/-- The ids in the rows of the conflicts are those of looked-up transactions. -/
theorem Made.mem_conflicting {k : Passes} (h : Made lib rs blockId c s k r)
    {row : SharedModel.ConflictingTransaction} (hrow : row ∈ r.conflicting) {key : List UInt8}
    (hkey : key ∈ row.templateTxids ++ row.blockTxids) : ∃ txInfo,
      (txInfo ∈ k.onlyInTemplate ∨ txInfo ∈ k.onlyInBlock) ∧ txInfo.txid.reversed = key := by
  have hall : AllIn (fun txInfo => txInfo ∈ k.onlyInTemplate ∨ txInfo ∈ k.onlyInBlock)
      k.conflicts := allIn_grouped (fun p hp =>
    ⟨.inl (h.meets.template p hp).1, .inr (h.meets.block p hp).1⟩)
  rw [h.conflicting] at hrow
  obtain ⟨conflict, hc, rfl⟩ := List.mem_map.mp hrow
  obtain hkey | hkey := List.mem_append.mp hkey
  · obtain ⟨txInfo, hi, rfl⟩ := List.mem_map.mp hkey
    exact ⟨txInfo, (hall conflict hc).1 txInfo hi, rfl⟩
  · obtain ⟨txInfo, hi, rfl⟩ := List.mem_map.mp hkey
    exact ⟨txInfo, (hall conflict hc).2 txInfo hi, rfl⟩

/-- A row of a sanctioned transaction is pushed together with the transaction. -/
theorem Made.mem_sanctionedInfos {k : Passes} (h : Made lib rs blockId c s k r)
    {row : SharedModel.SanctionedTransactionInfo} (hrow : row ∈ r.sanctionedInfos) : ∃ txInfo,
      (txInfo ∈ k.onlyInBlock ∨ txInfo ∈ k.inTemplate) ∧
      isTxSanctioned lib txInfo.tx s.utxoMap s.addresses = true ∧
      (lib.rawTxInfo txInfo.tx).isSome ∧ txInfo.txid.reversed = row.transactionTxid := by
  have hchosen : ∀ {infos : List TxInfo} {txInfo : TxInfo},
      txInfo ∈ chosen lib s.utxoMap s.addresses infos → txInfo ∈ infos ∧
        isTxSanctioned lib txInfo.tx s.utxoMap s.addresses = true ∧
        (lib.rawTxInfo txInfo.tx).isSome := by
    intro infos txInfo hm
    obtain ⟨hi, hb⟩ := List.mem_filter.mp hm
    exact ⟨hi, Bool.and_eq_true_iff.mp hb⟩
  rw [h.sanctionedRows] at hrow
  obtain hrow | hrow := List.mem_append.mp hrow
  · obtain ⟨txInfo, hm, rfl⟩ := List.mem_map.mp hrow
    exact ⟨txInfo, .inr (hchosen hm).1, (hchosen hm).2.1, (hchosen hm).2.2, rfl⟩
  · obtain ⟨txInfo, hm, rfl⟩ := List.mem_map.mp hrow
    exact ⟨txInfo, .inl (hchosen hm).1, (hchosen hm).2.1, (hchosen hm).2.2, rfl⟩

theorem made_of_buildsRecords (h : BuildsRecords lib rs lt c s blockId r) :
    ∃ k : Passes, Made lib rs blockId c s k r := by
  obtain ⟨conflicting, ages, hconf, hrows⟩ := h
  exact made_of_buildRows hconf hrows

theorem Computes.made (h : Computes lib rs network block fees lt c s b blockId r) :
    ∃ k : Passes, Made lib rs blockId c s k r := made_of_buildsRecords h.records

/-- The block row counts the rows of the transactions that the block does not have. -/
theorem missingTx_eq (hrow : BuildsRow lib network block fees c s b)
    (hrec : BuildsRecords lib rs lt c s blockId r) :
    b.missingTx = Int32.ofNat r.onlyInTemplate.length := by
  obtain ⟨n, pools, now, -, hb⟩ := hrow
  obtain ⟨k, hk⟩ := made_of_buildsRecords hrec
  have hlen := congrArg List.length hk.templateRows
  rw [List.length_map, List.length_map, ← hk.template.length_eq, HashSet.length_iter] at hlen
  rw [(rowOf_buildBlock hb).missingTx, hlen]
  rfl

theorem extraTx_eq (hrow : BuildsRow lib network block fees c s b)
    (hrec : BuildsRecords lib rs lt c s blockId r) :
    b.extraTx = Int32.ofNat r.onlyInBlock.length := by
  obtain ⟨n, pools, now, -, hb⟩ := hrow
  obtain ⟨k, hk⟩ := made_of_buildsRecords hrec
  rw [(rowOf_buildBlock hb).extraTx, hk.blockRows, List.length_map, ← hk.block.length_eq,
    HashSet.length_iter]
  rfl

/-- What a comparison is made of. -/
structure Compared (lib : Crates) (block : Bitcoin.Block) (fees : GetBlockTxFeesResult)
    (lt : List GetBlockTemplateResult) (c : Comparison) : Prop where
  block : buildBlockTxData lib block fees = .ok c.blockTxData
  template : c.template ∈ lt
  templateTxData : c.templateTxData = buildTemplateTxData lib c.template
  templateTxPackages : buildPackages lib c.templateTxData.txinfos = .ok c.templateTxPackages
  blockTxPackages : buildPackages lib c.blockTxData.txinfos = .ok c.blockTxPackages
  onlyInBlock : c.txidsOnlyInBlock = c.blockTxData.txids.difference c.templateTxData.txids
  onlyInTemplate : c.txidsOnlyInTemplate = c.templateTxData.txids.difference c.blockTxData.txids
  sharedTx : c.sharedTx = (c.blockTxData.txids.intersection c.templateTxData.txids).len

theorem compared_of_compareBlock (h : compareBlock lib block fees lt = .ok c) :
    Compared lib block fees lt c := by
  obtain ⟨blockTxData, hb, h⟩ := bind_eq_ok.mp h
  obtain ⟨template, ht, h⟩ := bind_eq_ok.mp h
  obtain ⟨templateTxPackages, htp, h⟩ := bind_eq_ok.mp h
  obtain ⟨blockTxPackages, hbp, h⟩ := bind_eq_ok.mp h
  cases h
  exact ⟨hb, mem_of_selectBestTemplateForBlock ht, rfl, htp, hbp, rfl, rfl, rfl⟩

end MiningpoolObserver.BuiltRecords
