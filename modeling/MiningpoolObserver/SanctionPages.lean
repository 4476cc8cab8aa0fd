import MiningpoolObserver.Handlers
import MiningpoolObserver.MissingSanctioned
import MiningpoolObserver.RecordPrefixes
import MiningpoolObserver.ReportWalks

namespace MiningpoolObserver.SanctionPages

open MiningpoolObserver.Library MiningpoolObserver.Library.CallTree
open MiningpoolObserver.Library.HashCollections MiningpoolObserver.Library.KeyedTable
open MiningpoolObserver.Library.Queries MiningpoolObserver.Library.Fallible
open MiningpoolObserver.Bitcoin MiningpoolObserver.DaemonModel MiningpoolObserver.SharedModel
open MiningpoolObserver.Db MiningpoolObserver.Daemon MiningpoolObserver.Process
open MiningpoolObserver.Processing.Sanctions MiningpoolObserver.Processing.Comparison
open MiningpoolObserver.Processing.Rounds MiningpoolObserver.Processing.Listing
open MiningpoolObserver.Processing.Flags MiningpoolObserver.BuiltRecords
open MiningpoolObserver.Overlap MiningpoolObserver.SanctionCounts MiningpoolObserver.Threads
open MiningpoolObserver.Web MiningpoolObserver.Reports MiningpoolObserver.PageSafety
open MiningpoolObserver.Listings MiningpoolObserver.Archive MiningpoolObserver.BlockPages
open MiningpoolObserver.MissingSanctioned MiningpoolObserver.CommitMarker
open MiningpoolObserver.RecordPrefixes MiningpoolObserver.Handlers
open MiningpoolObserver.ReportWalks

variable {lib : Crates} {rs : RandomState} {network : Network} {block : Bitcoin.Block}
variable {fees : GetBlockTxFeesResult} {lt : List GetBlockTemplateResult} {c : Comparison}
variable {s : Sanctions} {b : NewBlock} {blockId : Int64} {r : Records}

/-- Templates declare the ids of their transactions, and numbers of transactions fit their
columns. -/
structure Tidy (lib : Crates) (block : Bitcoin.Block) (lt : List GetBlockTemplateResult) :
    Prop where
  declared : ∀ t ∈ lt, Declared lib t
  few : ∀ t ∈ lt, t.transactions.length < 2 ^ 31
  fewInBlock : block.txdata.length < 2 ^ 31

section Counters

theorem pos_ofNat {n : ℕ} (h : 0 < n) (hn : n < 2 ^ 31) : 0 < Int32.ofNat n := by
  have h' : (0 : Int) < n := Int.natCast_pos.mpr h
  rw [Int32.lt_iff_toInt_lt, Int32.toInt_ofNat_of_lt hn]
  exact h'

theorem length_infosIn_le (infos : List TxInfo) :
    (infosIn (dataOf infos)).length ≤ infos.length := by
  have hn : (infosIn (dataOf infos)).Nodup := List.Nodup.of_map _ (aligned_dataOf infos).nodup
  exact (List.subperm_of_subset hn fun i hi => mem_of_mem_infosIn_dataOf hi).length_le

theorem length_infosIn_template (h : Compared lib block fees lt c) (ht : Tidy lib block lt) :
    (infosIn c.templateTxData).length < 2 ^ 31 := by
  obtain ⟨bs, ts, hs⟩ := exists_sides h (ht.declared _ h.template)
  have hlen : ts.length = (decoded lib c.template).length := by
    rw [← List.length_map (fun i => i.tx), hs.templatePlaces.map_tx, List.length_map]
  have hdecoded : (decoded lib c.template).length ≤ c.template.transactions.length :=
    (List.length_filterMap_le _ _).trans_eq List.length_zipIdx
  have hinfos := length_infosIn_le ts
  rw [← hs.templateData, hlen] at hinfos
  exact (hinfos.trans hdecoded).trans_lt (ht.few _ h.template)

/-- A sanctioned transaction has a row because the template has it, or because only the block has
it. -/
inductive Source (lib : Crates) (c : Comparison) (s : Sanctions)
    (info : SanctionedTransactionInfo) : Prop
  | template (i : TxInfo) : i ∈ infosIn c.templateTxData → sanctioned lib s i = true →
      info.transactionTxid = i.txid.reversed → info.inTemplate = true →
      (info.inBlock = true ↔ i.txid ∈ c.blockTxData.txids) → Source lib c s info
  | block (i : TxInfo) : i ∈ infosIn c.blockTxData → sanctioned lib s i = true →
      info.inTemplate = false → Source lib c s info

variable {k : Passes} {bs ts : List TxInfo} {info : SanctionedTransactionInfo}

theorem source_of_mem (hs : Sides lib block c bs ts) (hc : Compared lib block fees lt c)
    (hk : Made lib rs blockId c s k r) (hi : info ∈ r.sanctionedInfos) : Source lib c s info := by
  have hchosen : ∀ {infos : List TxInfo} {i : TxInfo},
      i ∈ chosen lib s.utxoMap s.addresses infos → i ∈ infos ∧ sanctioned lib s i = true := by
    intro infos i hi
    obtain ⟨hi, hb⟩ := List.mem_filter.mp hi
    exact ⟨hi, (Bool.and_eq_true_iff.mp hb).1⟩
  rw [hk.sanctionedRows] at hi
  obtain hi | hi := List.mem_append.mp hi
  · obtain ⟨i, hm, rfl⟩ := List.mem_map.mp hi
    obtain ⟨hm, hsi⟩ := hchosen hm
    exact .template i ((perm_inTemplate hs.alignedTemplate hk).mem_iff.mp hm) hsi rfl rfl
      decide_eq_true_iff
  · obtain ⟨i, hm, rfl⟩ := List.mem_map.mp hi
    obtain ⟨hm, hsi⟩ := hchosen hm
    exact .block i (mem_without.mp
      ((perm_onlyInBlock hs.alignedBlock hc hk).mem_iff.mp hm)).1 hsi rfl

/-- A transaction that was left out of the block is counted, and has a detail row. -/
theorem counted_of_leftOut (h : Computes lib rs network block fees lt c s b blockId r)
    (ht : Tidy lib block lt) (hi : info ∈ r.sanctionedInfos) (hleft : LeftOut blockId info) :
    0 < b.sanctionedMissingTx ∧
      ∃ row ∈ r.onlyInTemplate, row.transactionTxid = info.transactionTxid := by
  have hc := compared_of_compareBlock h.compared
  obtain ⟨bs, ts, hs⟩ := exists_sides hc (ht.declared _ hc.template)
  obtain ⟨k, hk⟩ := h.made
  obtain ⟨missing, hmiss, hbm, -, -⟩ := row_counts h
  have hta := hs.alignedTemplate
  have hperm : missing.Perm (without (infosIn c.templateTxData) c.blockTxData.txids) := by
    refine perm_of_looked hta (mapM_eq_ok hmiss) (List.filter_subset_self _) ?_
    rw [← elems_difference hta, hc.onlyInTemplate]
  cases source_of_mem hs hc hk hi with
  | template i hm hsi hid _ hin =>
    have hout : i.txid ∉ c.blockTxData.txids :=
      fun hm => absurd (hin.mpr hm) (by rw [hleft.2.1]; exact Bool.false_ne_true)
    have hw := mem_without.mpr ⟨hm, hout⟩
    refine ⟨?_, ?_⟩
    · rw [hbm]
      apply pos_ofNat
      · exact List.countP_pos_iff.mpr ⟨i, hperm.mem_iff.mpr hw, hsi⟩
      · refine (List.countP_le_length.trans ?_).trans_lt (length_infosIn_template hc ht)
        exact hperm.length_eq.trans_le (List.length_filter_le _ _)
    · rw [hid]
      exact hk.mem_onlyInTemplate.mpr ⟨i, (perm_onlyInTemplate hta hc hk).mem_iff.mpr hw, rfl⟩
  | block i _ _ hn =>
    rw [hleft.2.2] at hn
    cases hn

/-- A block whose rows tell of a sanctioned transaction counts one, on the side of the template or
on its own. -/
theorem counted_of_info (h : Computes lib rs network block fees lt c s b blockId r)
    (ht : Tidy lib block lt) (hi : info ∈ r.sanctionedInfos) :
    0 < b.templateSanctioned ∨ 0 < b.blockSanctioned := by
  have hc := compared_of_compareBlock h.compared
  obtain ⟨bs, ts, hs⟩ := exists_sides hc (ht.declared _ hc.template)
  obtain ⟨k, hk⟩ := h.made
  obtain ⟨missing, -, -, hbb, hbt⟩ := row_counts h
  cases source_of_mem hs hc hk hi with
  | template i hm hsi _ _ _ =>
    left
    rw [hbt]
    exact pos_ofNat (List.countP_pos_iff.mpr ⟨i, hm, hsi⟩)
      (List.countP_le_length.trans_lt (length_infosIn_template hc ht))
  | block i hm hsi _ =>
    right
    have htx : i.tx ∈ block.txdata := by
      rw [← List.zipIdx_map_fst 0 block.txdata, ← hs.blockPlaces.map_tx]
      exact List.mem_map_of_mem (mem_of_mem_infosIn_dataOf (hs.blockData ▸ hm))
    rw [hbb]
    exact pos_ofNat (List.countP_pos_iff.mpr ⟨i.tx, htx, hsi⟩)
      (List.countP_le_length.trans_lt ht.fewInBlock)

end Counters

section Databases

variable {db db' : Database} {row : SharedModel.Block} {info : SanctionedTransactionInfo}

/-- The row of a block heeds the rows of its sanctioned transactions: a transaction that was left
out is counted and has a detail row, and no sanctioned transaction goes without a count. -/
structure Heeded (db : Database) (row : SharedModel.Block) (info : SanctionedTransactionInfo) :
    Prop where
  leftOut : LeftOut row.id info → 0 < row.sanctionedMissingTx ∧
    ∃ d ∈ db.transactionOnlyInTemplate.rows, d.blockId = row.id ∧
      d.transactionTxid = info.transactionTxid
  any : 0 < row.templateSanctioned ∨ 0 < row.blockSanctioned

/-- Work for process whose templates are tidy. -/
def TidyJobs (lib : Crates) (i : Thread) (j : Job) (_ : World lib) : Prop :=
  Duty i j ∧ match j with
    | .process _ _ block _ lt => Tidy lib block lt
    | _ => True

theorem heeded_of_prefixed (h : Prefixed lib (TidyJobs lib) db row)
    (hi : info ∈ db.sanctionedTransactionInfo.rows) (hid : info.blockId = row.id) :
    Heeded db row info := by
  have hinfo : info ∈ Part.sanctionedInfos.rowsOf db row.id :=
    List.mem_filter.mpr ⟨hi, decide_eq_true hid⟩
  obtain h | ⟨i, w, rs, network, block, fees, lt, c, s, b, r, n, hj, hr, hf⟩ := h
  · rw [h] at hinfo
    cases hinfo
  · have hn : 2 < n := by
      by_contra hn
      rw [hf.empty .sanctionedInfos (Nat.not_lt.mp hn)] at hinfo
      cases hinfo
    have hbuilt : info ∈ r.sanctionedInfos := by
      rw [hf.filled .sanctionedInfos hn] at hinfo
      exact hinfo
    have hrow : b = { row.toNewBlock with poolName := b.poolName } := hf.block.symm
    refine ⟨fun hleft => ?_, ?_⟩
    · obtain ⟨hpos, d, hd, htxid⟩ := counted_of_leftOut hr hj.2 hbuilt hleft
      have hd : d ∈ Part.onlyInTemplate.rowsOf db row.id := by
        rw [hf.filled .onlyInTemplate (Nat.lt_of_succ_lt hn)]
        exact hd
      obtain ⟨hd, hblock⟩ := List.mem_filter.mp hd
      rw [hrow] at hpos
      exact ⟨hpos, d, hd, of_decide_eq_true hblock, htxid⟩
    · have hpos := counted_of_info hr hj.2 hbuilt
      rw [hrow] at hpos
      exact hpos

end Databases

section Pages

variable {σ α : Type} [Preorder σ] {dbs : σ → Database} {i j k : σ} {hex : Hex}

/-- Databases that follow one another, the block rows of which heed their sanctioned
transactions. -/
structure Heeding (dbs : σ → Database) : Prop where
  archived : ∀ i j, i ≤ j → Archived (dbs i) (dbs j)
  keys : ∀ i, Keys (dbs i)
  heeded : ∀ i, ∀ row ∈ (dbs i).block.rows, ∀ info ∈ (dbs i).sanctionedTransactionInfo.rows,
    info.blockId = row.id → Heeded (dbs i) row info

/-- The entry tells of the transaction, for the block. -/
structure Tells (m : MissingSanctionedTransaction) (blockId : Int64)
    (info : SanctionedTransactionInfo) : Prop where
  transaction : m.transaction.txid = info.transactionTxid
  addresses : m.addresses = info.addresses
  block : m.missingInfo.blockId = blockId
  row : m.missingInfo.transactionTxid = info.transactionTxid

theorem Heeding.exec_missing (h : Heeding dbs) {row : SharedModel.Block}
    (hrow : row ∈ (dbs i).block.rows) {tr : List (Event Web.signature σ)}
    {txns : List MissingSanctionedTransaction}
    (hx : Exec (reading dbs) (missingSanctionedTxnsForBlock row.hash) i tr (.ok txns) j) :
    ∃ k rs, i ≤ k ∧ k ≤ j ∧ txns = (RandomState.order rs (joined (dbs k) row.id)).map entry := by
  obtain ⟨tr₁, rest₁, id, u, -, hload, h₁⟩ := Exec.andThen_ok_iff.mp hx
  obtain ⟨tr₂, rest₂, rows, v, -, hrows, h₂⟩ := Exec.andThen_ok_iff.mp h₁
  obtain ⟨-, ht, hv⟩ := Exec.done_iff.mp h₂
  cases ht
  obtain ⟨k₁, r₁, rs₁, hk₁, hu, -, hid⟩ := loaded_of_exec hload
  obtain ⟨k₂, r₂, rs₂, hk₂, hv', -, hrows⟩ := loaded_of_exec hrows
  obtain ⟨poolName, hrow₁⟩ := (h.archived i k₁ hk₁).blocks row hrow
  have hfind : (dbs k₁).block.find? row.hash = some { row with poolName := poolName } :=
    (dbs k₁).block.find?_eq_some_iff.mpr ⟨hrow₁, rfl⟩
  rw [Select.exec, hfind] at hid
  cases hid
  cases hrows
  exact ⟨k₂, rs₂, hk₁.trans (hu.trans hk₂), hv'.trans hv, rfl⟩

/-- A transaction that was left out of the block before the page was opened has an entry. -/
theorem Heeding.page_tells (h : Heeding dbs) {hashStr : String}
    {tr : List (Event Web.signature σ)} {page : TemplateAndBlockPage}
    (hx : Exec (reading dbs) (singleTemplateAndBlock hex hashStr) i tr (.ok page) j)
    {info : SanctionedTransactionInfo} (hi : info ∈ (dbs i).sanctionedTransactionInfo.rows)
    (hleft : LeftOut page.blockWithTx.block.id info) :
    ∃ m ∈ page.sanctionedMissingTx, Tells m page.blockWithTx.block.id info := by
  obtain ⟨tr₁, rest₁, hash, i₁, -, hparse, h₁⟩ := Exec.andThen_ok_iff.mp hx
  obtain ⟨-, -, hi₁⟩ := Exec.done_iff.mp hparse
  obtain ⟨tr₂, rest₂, p, i₂, -, hserve, h₂⟩ := Exec.andThen_ok_iff.mp h₁
  obtain ⟨tr₃, u, hblock, hu⟩ := exec_serve hserve
  obtain ⟨k₁, _, _, hk₁, h₁₂, h₂₃, h₃u, hread⟩ := exec_blockWithTx hblock
  have hik : i ≤ k₁ := hi₁.trans hk₁
  have hku : k₁ ≤ u := h₁₂.trans (h₂₃.trans h₃u)
  have hpage : page.blockWithTx = p := by
    split_ifs at h₂
    · obtain ⟨tr₄, rest₄, txns, i₃, -, -, h₃⟩ := Exec.andThen_ok_iff.mp h₂
      obtain ⟨-, hp, -⟩ := Exec.done_iff.mp h₃
      cases hp
      rfl
    · obtain ⟨-, hp, -⟩ := Exec.done_iff.mp h₂
      cases hp
      rfl
  rw [hpage] at hleft ⊢
  have hi' := (h.archived i k₁ hik).sanctionedInfos.subset hi
  obtain ⟨hpos, d, hd, hdblock, hdtx⟩ :=
    (h.heeded k₁ p.block hread.mem info hi' hleft.1).leftOut hleft
  rw [if_pos hpos] at h₂
  obtain ⟨tr₄, rest₄, txns, i₃, -, hmissing, h₃⟩ := Exec.andThen_ok_iff.mp h₂
  obtain ⟨-, hp, -⟩ := Exec.done_iff.mp h₃
  cases hp
  obtain ⟨tr₅, v, hmissing, -⟩ := exec_serve hmissing
  -- the block row is still there when the entries are read
  obtain ⟨poolName, hrow₂⟩ := (h.archived k₁ i₂ (hku.trans hu)).blocks p.block hread.mem
  rw [← hread.hash] at hmissing
  obtain ⟨k₂, rs, hk₂, -, rfl⟩ := h.exec_missing hrow₂ hmissing
  have harch := h.archived k₁ k₂ (hku.trans (hu.trans hk₂))
  have hinfo := harch.sanctionedInfos.subset hi'
  obtain ⟨-, htx⟩ := Database.references_iff.mp ((h.keys k₂).foreignKeys.sanctionedInfos info hinfo)
  obtain ⟨tx, htx, htxid⟩ := List.mem_map.mp htx
  refine ⟨entry (tx, info, d), List.mem_map_of_mem (rs.mem_order.mpr (mem_joined.mpr ?_)),
    htxid, rfl, hdblock, hdtx⟩
  exact ⟨htx, hinfo, harch.onlyInTemplate.subset hd, hleft, htxid.symm, hdtx.trans htxid.symm⟩

/-- A block that had a row of a sanctioned transaction before a feed was read is heeded by the
database that the feed is of. -/
theorem Heeding.later (h : Heeding dbs) (hij : i ≤ j) {row : SharedModel.Block}
    (hrow : row ∈ (dbs i).block.rows) {info : SanctionedTransactionInfo}
    (hi : info ∈ (dbs i).sanctionedTransactionInfo.rows) (hid : info.blockId = row.id) :
    ∃ poolName : String, { row with poolName := poolName } ∈ (dbs j).block.rows ∧
      Heeded (dbs j) { row with poolName := poolName } info := by
  obtain ⟨poolName, hrow'⟩ := (h.archived i j hij).blocks row hrow
  exact ⟨poolName, hrow',
    h.heeded j _ hrow' info ((h.archived i j hij).sanctionedInfos.subset hi) hid⟩

abbrev ReportHandler (α : Type) := Prog reportSignature (Except Refusal α)

def missingSanctionedTransactionsRss : ReportHandler (List SharedModel.Block) :=
  serve blocksWithMissingSanctioned

structure MissingSanctionedPage where
  blocks : List SharedModel.Block
  entryCount : Nat

def missingSanctioned : ReportHandler MissingSanctionedPage :=
  (serve blocksWithMissingSanctioned).andThen (fun blocks =>
    .done (.ok ⟨blocks, blocks.length⟩))

def debugSanctionedTransactionsRss : ReportHandler (List SharedModel.Block) :=
  serve debugTemplatesAndBlocksWithSanctionedTx

theorem exec_report {s : Report} {f : Database → RandomState → s.Result}
    (h : ∀ db rs, s.exec db rs = .ok (f db rs)) {tr : List (Event reportSignature σ)}
    {a : s.Result} (hx : Exec (reporting dbs) (serve (loadReport s)) i tr (.ok a) j) :
    ∃ k rs, i ≤ k ∧ k ≤ j ∧ a = f (dbs k) rs := by
  obtain ⟨tr', u, hx, hu⟩ := exec_serve hx
  obtain ⟨k, rs, hik, hku, ha⟩ := ensures_reported h i tr' _ u hx
  exact ⟨k, rs, hik, hku.trans hu, ha⟩

/-- The page has the blocks of the feed, and counts them. -/
theorem exec_missingSanctioned {tr : List (Event reportSignature σ)} {page : MissingSanctionedPage}
    (h : Exec (reporting dbs) missingSanctioned i tr (.ok page) j) :
    ∃ tr' u, Exec (reporting dbs) missingSanctionedTransactionsRss i tr' (.ok page.blocks) u ∧
      u ≤ j ∧ page.entryCount = page.blocks.length := by
  obtain ⟨tr', rest, blocks, u, -, hserve, h⟩ := Exec.andThen_ok_iff.mp h
  obtain ⟨-, hpage, hu⟩ := Exec.done_iff.mp h
  cases hpage
  exact ⟨tr', u, hserve, hu, rfl⟩

/-- A handler lists every block that had a row of the kind when the request began. -/
def Warns (dbs : σ → Database) (p : ReportHandler α) (listed : α → List SharedModel.Block)
    (kind : Int64 → SanctionedTransactionInfo → Prop) : Prop :=
  ∀ i tr a j, Exec (reporting dbs) p i tr (.ok a) j →
    ∀ row ∈ (dbs i).block.rows, ∀ info ∈ (dbs i).sanctionedTransactionInfo.rows,
      kind row.id info → ∃ b ∈ listed a, b.id = row.id

variable (hex) in
/-- Visitors are told of every sanctioned transaction that a block has left out, and of every block
with sanctioned transactions. -/
structure Warnings (dbs : σ → Database) : Prop where
  block : ∀ hashStr i tr page j,
    Exec (reading dbs) (singleTemplateAndBlock hex hashStr) i tr (.ok page) j →
    ∀ info ∈ (dbs i).sanctionedTransactionInfo.rows, LeftOut page.blockWithTx.block.id info →
      ∃ m ∈ page.sanctionedMissingTx, Tells m page.blockWithTx.block.id info
  page : Warns dbs missingSanctioned MissingSanctionedPage.blocks LeftOut
  feed : Warns dbs missingSanctionedTransactionsRss id LeftOut
  debugFeed : Warns dbs debugSanctionedTransactionsRss id (fun blockId info =>
    info.blockId = blockId)

theorem Heeding.warns_feed (h : Heeding dbs) :
    Warns dbs missingSanctionedTransactionsRss id LeftOut := by
  intro i tr blocks j hx row hrow info hi hleft
  obtain ⟨k, rs, hik, -, rfl⟩ :=
    exec_report (s := .blocksWithMissingSanctioned) (fun _ _ => rfl) hx
  obtain ⟨poolName, hrow', hheed⟩ := h.later hik hrow hi hleft.1
  have hpos := (hheed.leftOut hleft).1
  exact ⟨_, mem_orderDesc.mpr (rs.mem_order.mpr
    (List.mem_filter.mpr ⟨hrow', decide_eq_true hpos⟩)), rfl⟩

theorem Heeding.warnings (h : Heeding dbs) : Warnings hex dbs where
  block _ _ _ _ _ hx _ hi hleft := h.page_tells hx hi hleft
  page i tr page j hx := by
    obtain ⟨tr', u, hfeed, -⟩ := exec_missingSanctioned hx
    exact h.warns_feed i tr' page.blocks u hfeed
  feed := h.warns_feed
  debugFeed i tr blocks j hx row hrow info hi hid := by
    obtain ⟨k, rs, hik, -, rfl⟩ := exec_report (s := .blocksWithSanctionedTx) (fun _ _ => rfl) hx
    obtain ⟨poolName, hrow', hheed⟩ := h.later hik hrow hi hid
    refine ⟨_, mem_orderDesc.mpr (rs.mem_order.mpr (List.mem_filter.mpr ⟨hrow', ?_⟩)), rfl⟩
    rw [Bool.or_eq_true, decide_eq_true_iff, decide_eq_true_iff]
    exact hheed.any

end Pages

section Runs

/-- A run in which each call of process gets tidy templates. -/
abbrev TidyRun (lib : Crates) :=
  ThreadRun lib .reorganises (TidyJobs lib) (Resumed lib (TidyJobs lib))

theorem heeding_of_run (ρ : TidyRun lib) : Heeding (databases ρ) := by
  have hall := resumed_of_run Drift.keepsDb_reorganises ρ
  have hle : ∀ i : Fin (ρ.length + 1), i.1 ≤ ρ.length := fun i => Nat.le_of_lt_succ i.2
  refine ⟨fun i j hij => archived_of_run Drift.keepsDb_reorganises ρ hij (hle j),
    fun i => ⟨(hall i (hle i)).1.owned.nodup, (hall i (hle i)).1.owned.foreignKeys⟩,
    fun i row hrow info hi hid => heeded_of_prefixed ((hall i (hle i)).2 row hrow) hi hid⟩

/-- While the daemon writes, and from blocks that it did not get to finish. -/
theorem warnings_complete {hex : Hex} (ρ : TidyRun lib) : Warnings hex (databases ρ) :=
  (heeding_of_run ρ).warnings

theorem tidy_overlap : Tidy decoding overlapBlock [overlapTemplate] where
  declared t ht := List.mem_singleton.mp ht ▸ declared_overlap
  few := by decide
  fewInBlock := by decide

/-- One address is listed. -/
def listedWorld : World decoding :=
  { overlapWorld with
    db := { Database.empty with sanctionedAddresses := (Table.empty.insertNew [⟨"listed"⟩]).1 } }

theorem foreignKeys_listedWorld : listedWorld.db.ForeignKeys :=
  ⟨by decide, by decide, by decide, by decide, by decide⟩

/-- The block leaves out a transaction that pays to the listed address. -/
theorem warnings_complete_listed : ∃ ρ : TidyRun decoding,
    (∃ info ∈ ρ.last.world.db.sanctionedTransactionInfo.rows, LeftOut 7 info) ∧
      Warnings lowercase (databases ρ) := by
  obtain ⟨ρ, hρ⟩ : ∃ ρ : TidyRun decoding, ρ.last.world = _ :=
    exists_jobRun (j := overlapJob) (resumed_of_noBlocks foreignKeys_listedWorld rfl)
      ⟨trivial, tidy_overlap⟩ .healthy
  refine ⟨ρ, ?_, warnings_complete ρ⟩
  rw [hρ]
  decide +kernel

end Runs

end MiningpoolObserver.SanctionPages
