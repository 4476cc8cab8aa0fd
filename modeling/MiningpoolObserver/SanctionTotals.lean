import MiningpoolObserver.SanctionPages

namespace MiningpoolObserver.SanctionTotals

open MiningpoolObserver.Library MiningpoolObserver.Library.CallTree
open MiningpoolObserver.Library.HashCollections MiningpoolObserver.Library.KeyedTable
open MiningpoolObserver.Library.Queries MiningpoolObserver.Library.Fallible
open MiningpoolObserver.Bitcoin MiningpoolObserver.DaemonModel MiningpoolObserver.SharedModel
open MiningpoolObserver.Db MiningpoolObserver.Daemon MiningpoolObserver.Process
open MiningpoolObserver.Processing.Sanctions MiningpoolObserver.Processing.Comparison
open MiningpoolObserver.Processing.Rounds MiningpoolObserver.Processing.Listing
open MiningpoolObserver.Processing.Flags MiningpoolObserver.BuiltRecords
open MiningpoolObserver.Overlap MiningpoolObserver.SanctionCounts MiningpoolObserver.Threads
open MiningpoolObserver.Web MiningpoolObserver.Reports MiningpoolObserver.PageSafety
open MiningpoolObserver.Listings MiningpoolObserver.Pagination MiningpoolObserver.ReportWalks
open MiningpoolObserver.MissingSanctioned MiningpoolObserver.CommitMarker
open MiningpoolObserver.SanctionPages MiningpoolObserver.Handlers

variable {lib : Crates} {rs : RandomState} {network : Network} {block : Bitcoin.Block}
variable {fees : GetBlockTxFeesResult} {lt : List GetBlockTemplateResult} {c : Comparison}
variable {s : Sanctions} {b : NewBlock} {blockId : Int64} {r : Records}

/-- Besides, the block has no transaction twice, transactions with one id are the same to the list
of addresses, and all of them can be built. -/
structure Clean (lib : Crates) (block : Bitcoin.Block) (lt : List GetBlockTemplateResult) : Prop
    extends Tidy lib block lt where
  nodup : (block.txdata.map lib.computeTxid).Nodup
  collisionFree : CollisionFree lib (transactionsAtHand lib block lt)
  parsed : ∀ tx ∈ transactionsAtHand lib block lt, (lib.rawTxInfo tx).isSome

section Counters

theorem atHand_of_compared (hc : Compared lib block fees lt c) {tx : Bitcoin.Transaction}
    (h : tx ∈ compared lib block c) : tx ∈ transactionsAtHand lib block lt := by
  obtain h | ⟨p, hp, rfl⟩ := h
  · exact .inl h
  · obtain ⟨⟨e, i⟩, he, hd⟩ := List.mem_filterMap.mp hp
    obtain ⟨tx, htx, rfl⟩ := Option.map_eq_some_iff.mp hd
    exact .inr ⟨c.template, hc.template, e, List.fst_mem_of_mem_zipIdx he, htx⟩

/-- The counters of a block row are the numbers of its rows of sanctioned transactions. -/
structure Accounted (b : NewBlock) (infos : List SanctionedTransactionInfo) : Prop where
  inBlock : b.blockSanctioned.toInt = infos.countP (fun info => info.inBlock)
  inTemplate : b.templateSanctioned.toInt = infos.countP (fun info => info.inTemplate)
  leftOut : b.sanctionedMissingTx.toInt =
    infos.countP (fun info => info.inTemplate && !info.inBlock)
  somewhere : ∀ info ∈ infos, info.inBlock = true ∨ info.inTemplate = true

theorem toInt_of_eq {x : Int32} {n : ℕ} (h : x = Int32.ofNat n) (hn : n < 2 ^ 31) :
    x.toInt = n := by
  rw [h, Int32.toInt_ofNat_of_lt hn]

theorem accounted_of_computes (h : Computes lib rs network block fees lt c s b blockId r)
    (hcl : Clean lib block lt) : Accounted b r.sanctionedInfos := by
  have hc := compared_of_compareBlock h.compared
  obtain ⟨bs, ts, hs⟩ := exists_sides hc (hcl.declared _ hc.template)
  obtain ⟨k, hk⟩ := h.made
  obtain ⟨missing, hmiss, hbm, hbb, hbt⟩ := row_counts h
  have hb := hs.alignedBlock
  have ht := hs.alignedTemplate
  have hkt := perm_inTemplate ht hk
  have hfew := length_infosIn_template hc hcl.toTidy
  have hcf : CollisionFree lib (compared lib block c) := fun tx htx tx' htx' =>
    hcl.collisionFree tx (atHand_of_compared hc htx) tx' (atHand_of_compared hc htx')
  have hi : ∀ i ∈ k.inTemplate ++ k.onlyInBlock, (lib.rawTxInfo i.tx).isSome := fun i hi =>
    hcl.parsed i.tx (atHand_of_compared hc (infoOf_made hc hk hb ht hs i hi).2)
  have hmt : missing.Perm (without (infosIn c.templateTxData) c.blockTxData.txids) := by
    refine perm_of_looked ht (mapM_eq_ok hmiss) (List.filter_subset_self _) ?_
    rw [← elems_difference ht, hc.onlyInTemplate]
  refine ⟨?_, ?_, ?_, fun info hinfo => ?_⟩
  · rw [countP_inBlock hc hk hb ht hs hcl.nodup hcf hi]
    exact toInt_of_eq hbb (List.countP_le_length.trans_lt hcl.fewInBlock)
  · have hcount : r.sanctionedInfos.countP (fun info => info.inTemplate) =
        (infosIn c.templateTxData).countP (sanctioned lib s) := by
      rw [countP_rows hk hi (fun _ inTemplate => inTemplate), hkt.countP_eq]
      simp
    rw [hcount]
    exact toInt_of_eq hbt (List.countP_le_length.trans_lt hfew)
  · have hcount : r.sanctionedInfos.countP (fun info => info.inTemplate && !info.inBlock) =
        missing.countP (sanctioned lib s) := by
      rw [countP_rows hk hi (fun inBlock inTemplate => inTemplate && !inBlock), hkt.countP_eq,
        hmt.countP_eq, without, List.countP_filter]
      simp [Bool.and_comm]
    have hlen : missing.countP (sanctioned lib s) ≤ (infosIn c.templateTxData).length :=
      List.countP_le_length.trans (hmt.length_eq.trans_le (List.length_filter_le _ _))
    rw [hcount]
    exact toInt_of_eq hbm (hlen.trans_lt hfew)
  · rw [hk.sanctionedRows] at hinfo
    obtain hinfo | hinfo := List.mem_append.mp hinfo
    · obtain ⟨i, -, rfl⟩ := List.mem_map.mp hinfo
      exact .inr rfl
    · obtain ⟨i, -, rfl⟩ := List.mem_map.mp hinfo
      exact .inl rfl

end Counters

section Databases

variable {db : Database} {row : SharedModel.Block}

abbrev infosOf (db : Database) (blockId : Int64) : List SanctionedTransactionInfo :=
  Part.sanctionedInfos.rowsOf db blockId

/-- Work for process on clean blocks. -/
def CleanJobs (lib : Crates) (i : Thread) (j : Job) (_ : World lib) : Prop :=
  Duty i j ∧ match j with
    | .process _ _ block _ lt => Clean lib block lt
    | _ => True

theorem accounted_of_committed (h : Committed lib (CleanJobs lib) db row) :
    Accounted row.toNewBlock (infosOf db row.id) := by
  obtain ⟨i, w, rs, network, block, fees, lt, c, s, b, r, hj, hr, hcomplete⟩ := h
  have ha := accounted_of_computes hr hj.2
  have hrow : b = { row.toNewBlock with poolName := b.poolName } := hcomplete.block.symm
  rw [hrow] at ha
  rw [infosOf, hcomplete.parts .sanctionedInfos]
  exact ⟨ha.inBlock, ha.inTemplate, ha.leftOut, ha.somewhere⟩

variable {x : Int32} {infos : List SanctionedTransactionInfo}

theorem pos_iff_of_count {p : SanctionedTransactionInfo → Bool} (h : x.toInt = infos.countP p) :
    0 < x ↔ ∃ info ∈ infos, p info = true := by
  rw [← List.countP_pos_iff, Int32.lt_iff_toInt_lt, h]
  exact Int.natCast_pos

theorem mem_infosOf {info : SanctionedTransactionInfo} {id : Int64} :
    info ∈ infosOf db id ↔ info ∈ db.sanctionedTransactionInfo.rows ∧ info.blockId = id := by
  rw [infosOf, Part.rowsOf, List.mem_filter, decide_eq_true_iff]
  rfl

theorem Accounted.leftOut_iff (h : Accounted row.toNewBlock (infosOf db row.id)) :
    0 < row.sanctionedMissingTx ↔
      ∃ info ∈ db.sanctionedTransactionInfo.rows, LeftOut row.id info := by
  rw [pos_iff_of_count h.leftOut]
  constructor
  · rintro ⟨info, hi, hflags⟩
    obtain ⟨hi, hid⟩ := mem_infosOf.mp hi
    simp only [Bool.and_eq_true, Bool.not_eq_true'] at hflags
    exact ⟨info, hi, hid, hflags.2, hflags.1⟩
  · rintro ⟨info, hi, hid, hout, hin⟩
    exact ⟨info, mem_infosOf.mpr ⟨hi, hid⟩, by rw [hin, hout]; rfl⟩

theorem Accounted.any_iff (h : Accounted row.toNewBlock (infosOf db row.id)) :
    (0 < row.templateSanctioned ∨ 0 < row.blockSanctioned) ↔
      ∃ info ∈ db.sanctionedTransactionInfo.rows, info.blockId = row.id := by
  rw [pos_iff_of_count h.inTemplate, pos_iff_of_count h.inBlock]
  constructor
  · rintro (⟨info, hi, -⟩ | ⟨info, hi, -⟩)
    · exact ⟨info, mem_infosOf.mp hi⟩
    · exact ⟨info, mem_infosOf.mp hi⟩
  · rintro ⟨info, hi, hid⟩
    have hmem := mem_infosOf.mpr ⟨hi, hid⟩
    exact (h.somewhere info hmem).symm.imp (fun hf => ⟨info, hmem, hf⟩) (fun hf => ⟨info, hmem, hf⟩)

end Databases

section Table

variable {db : Database}

/-- The rows of a pool, counted block by block. -/
theorem countP_pooledInfos (pool : String) (q : SanctionedTransactionInfo → Bool) :
    (pooledInfos db).countP (fun (info, name) => name = pool && q info) =
      ((poolRows db pool).map (fun b => (infosOf db b.id).countP q)).sum := by
  have hrow : ∀ b : SharedModel.Block, db.sanctionedTransactionInfo.rows.countP
      (fun info => (decide (b.poolName = pool) && q info) && decide (b.id = info.blockId)) =
        if b.poolName = pool then (infosOf db b.id).countP q else 0 := by
    intro b
    split_ifs with hb
    · rw [infosOf, Part.rowsOf, List.countP_filter]
      refine List.countP_congr (fun info _ => ?_)
      simp only [hb, decide_true, Bool.true_and, Bool.and_eq_true, decide_eq_true_eq, Part.blockId]
      exact and_congr_right fun _ => ⟨fun h => decide_eq_true h.symm,
        fun h => (of_decide_eq_true h).symm⟩
    · rw [List.countP_eq_zero]
      simp [hb]
  rw [pooledInfos, List.countP_map]
  refine (countP_innerJoin _ _ (fun info (b : SharedModel.Block) =>
    decide (b.poolName = pool) && q info)).trans ?_
  rw [List.map_congr_left fun b _ => hrow b, sum_map_ite_filter]
  rfl

/-- The entry of a pool adds up to the counters of the blocks of the pool. -/
structure Adds (db : Database) (e : PoolSanctionedTableEntry) : Prop where
  inBlock : e.inBoth + e.onlyInBlock =
    Int64.ofInt ((poolRows db e.poolName).map (fun b => b.blockSanctioned.toInt)).sum
  inTemplate : e.inBoth + e.onlyInTemplate =
    Int64.ofInt ((poolRows db e.poolName).map (fun b => b.templateSanctioned.toInt)).sum
  leftOut : e.onlyInTemplate =
    Int64.ofInt ((poolRows db e.poolName).map (fun b => b.sanctionedMissingTx.toInt)).sum

variable {pool : String}

/-- The rows of a pool with some flags. -/
def pooled (db : Database) (pool : String) (q : Bool → Bool → Bool) : ℕ :=
  (pooledInfos db).countP (fun (info, name) => name = pool && q info.inBlock info.inTemplate)

theorem pooled_congr {q q' : Bool → Bool → Bool} (h : ∀ x y, q x y = q' x y) :
    pooled db pool q = pooled db pool q' :=
  congrArg (pooled db pool) (funext fun x => funext (h x))

/-- A second flag splits the rows. -/
theorem pooled_split (q q' : Bool → Bool → Bool) : pooled db pool q =
    pooled db pool (fun x y => q x y && q' x y) + pooled db pool (fun x y => q x y && !q' x y) := by
  have hsplit := List.countP_eq_countP_filter_add (pooledInfos db)
    (fun (info, name) => name = pool && q info.inBlock info.inTemplate)
    (fun (info, _) => q' info.inBlock info.inTemplate)
  rw [List.countP_filter, List.countP_filter] at hsplit
  rw [pooled, hsplit, pooled, pooled]
  congr 1 <;> exact List.countP_congr (fun p _ => by simp [Bool.and_assoc])

theorem ofInt_sum {α : Type} {l : List α} {f : α → Int} {g : α → ℕ} (h : ∀ a ∈ l, f a = g a) :
    Int64.ofInt (l.map f).sum = Int64.ofNat (l.map g).sum := by
  induction l with
  | nil => rfl
  | cons a l ih =>
    have hl := ih (fun a' ha' => h a' (List.mem_cons_of_mem a ha'))
    rw [List.map_cons, List.map_cons, List.sum_cons, List.sum_cons, Int64.ofInt_add,
      Int64.ofNat_add, hl, h a List.mem_cons_self, Int64.ofInt_eq_ofNat]

theorem sum_of_counts {counter : SharedModel.Block → Int32} {q : Bool → Bool → Bool}
    (h : ∀ b ∈ poolRows db pool, (counter b).toInt =
      (infosOf db b.id).countP (fun info => q info.inBlock info.inTemplate)) :
    Int64.ofInt ((poolRows db pool).map (fun b => (counter b).toInt)).sum =
      Int64.ofNat (pooled db pool q) := by
  rw [ofInt_sum h, pooled, countP_pooledInfos pool (fun info => q info.inBlock info.inTemplate)]

theorem adds_of_accounted
    (h : ∀ b ∈ poolRows db pool, Accounted b.toNewBlock (infosOf db b.id)) :
    Adds db (tableEntry db pool) := by
  have hcount : ∀ x y, countPooled db pool x y =
      Int64.ofNat (pooled db pool (fun inBlock inTemplate => inBlock == x && inTemplate == y)) :=
    fun _ _ => rfl
  refine ⟨?_, ?_, ?_⟩
  · have hsum := sum_of_counts (q := fun x _ => x) (fun b hb => (h b hb).inBlock)
    refine Eq.trans ?_ hsum.symm
    rw [pooled_split (fun x _ => x) (fun _ y => y), Int64.ofNat_add]
    exact congrArg₂ (· + ·) ((hcount true true).trans (congrArg _ (pooled_congr (by decide))))
      ((hcount true false).trans (congrArg _ (pooled_congr (by decide))))
  · have hsum := sum_of_counts (q := fun _ y => y) (fun b hb => (h b hb).inTemplate)
    refine Eq.trans ?_ hsum.symm
    rw [pooled_split (fun _ y => y) (fun x _ => x), Int64.ofNat_add]
    exact congrArg₂ (· + ·) ((hcount true true).trans (congrArg _ (pooled_congr (by decide))))
      ((hcount false true).trans (congrArg _ (pooled_congr (by decide))))
  · have hsum := sum_of_counts (q := fun x y => y && !x) (fun b hb => (h b hb).leftOut)
    refine Eq.trans ?_ hsum.symm
    exact (hcount false true).trans (congrArg _ (pooled_congr (by decide)))

/-- A table with one entry for each pool with sanctioned transactions. The entry of a pool adds up,
once the records of all blocks of the pool are complete. -/
structure Totals (db : Database) (table : List PoolSanctionedTableEntry) : Prop where
  names : (table.map (fun e => e.poolName)).Nodup
  pools : ∀ pool, pool ∈ table.map (fun e => e.poolName) ↔
    ∃ b ∈ poolRows db pool, infosOf db b.id ≠ []
  adds : ∀ e ∈ table, (∀ b ∈ poolRows db e.poolName, Marked db b.id) → Adds db e

theorem totals_of_accounted {rs : RandomState} {table : List PoolSanctionedTableEntry}
    (h : ∀ b ∈ db.block.rows, Marked db b.id → Accounted b.toNewBlock (infosOf db b.id))
    (ht : Report.debugSanctionedTable.exec db rs = .ok table) : Totals db table := by
  cases ht
  have hnames : ((rs.order (((pooledInfos db).map Prod.snd).dedup.map (tableEntry db))).map
      (fun e => e.poolName)).Perm ((pooledInfos db).map Prod.snd).dedup := by
    refine ((rs.perm _).map _).trans (List.Perm.of_eq ?_)
    rw [List.map_map]
    exact List.map_id _
  refine ⟨hnames.nodup_iff.mpr (List.nodup_dedup _), fun pool => ?_, fun e he hall => ?_⟩
  · rw [hnames.mem_iff, List.mem_dedup, pooledInfos, List.map_map, List.mem_map]
    constructor
    · rintro ⟨⟨info, b⟩, hp, rfl⟩
      obtain ⟨hi, hb, hid⟩ := mem_innerJoin.mp hp
      exact ⟨b, List.mem_filter.mpr ⟨hb, decide_eq_true rfl⟩,
        List.ne_nil_of_mem (mem_infosOf.mpr ⟨hi, hid.symm⟩)⟩
    · rintro ⟨b, hb, hne⟩
      obtain ⟨hb, hpool⟩ := List.mem_filter.mp hb
      obtain ⟨info, hi⟩ := List.exists_mem_of_ne_nil _ hne
      obtain ⟨hi, hid⟩ := mem_infosOf.mp hi
      exact ⟨(info, b), mem_innerJoin.mpr ⟨hi, hb, hid.symm⟩, of_decide_eq_true hpool⟩
  · obtain ⟨pool, -, rfl⟩ := List.mem_map.mp (rs.mem_order.mp he)
    exact adds_of_accounted (fun b hb => h b (List.mem_of_mem_filter hb) (hall b hb))

end Table

section Runs

/-- A run in which each call of process gets a clean block. -/
abbrev CleanRun (lib : Crates) :=
  ThreadRun lib .reorganises (CleanJobs lib) (Restarted lib (CleanJobs lib))

theorem accounted_of_run (ρ : CleanRun lib) (i : Fin (ρ.length + 1)) :
    ∀ b ∈ (databases ρ i).block.rows, Marked (databases ρ i) b.id →
      Accounted b.toNewBlock (infosOf (databases ρ i) b.id) :=
  fun b hb hm => accounted_of_committed ((marking_of_run ρ).upheld i b hb hm)

variable {σ α : Type} [Preorder σ] {dbs : σ → Database}

/-- Of the blocks with complete records, a handler lists those with a row of the kind. -/
def ListsExactly (dbs : σ → Database) (p : ReportHandler α) (listed : α → List SharedModel.Block)
    (kind : Int64 → SanctionedTransactionInfo → Prop) : Prop :=
  ∀ i tr a j, Exec (reporting dbs) p i tr (.ok a) j →
    ∃ k, i ≤ k ∧ k ≤ j ∧ ∀ b ∈ (dbs k).block.rows, Marked (dbs k) b.id →
      (b ∈ listed a ↔ ∃ info ∈ (dbs k).sanctionedTransactionInfo.rows, kind b.id info)

/-- The page, which also counts its entries, and the feeds. -/
structure FeedsExact (dbs : σ → Database) : Prop where
  page : ListsExactly dbs missingSanctioned MissingSanctionedPage.blocks LeftOut
  entryCount : ∀ i tr page j, Exec (reporting dbs) missingSanctioned i tr (.ok page) j →
    page.entryCount = page.blocks.length
  feed : ListsExactly dbs missingSanctionedTransactionsRss id LeftOut
  debugFeed : ListsExactly dbs debugSanctionedTransactionsRss id (fun blockId info =>
    info.blockId = blockId)

section Accounts

variable (h : ∀ k, ∀ b ∈ (dbs k).block.rows, Marked (dbs k) b.id →
  Accounted b.toNewBlock (infosOf (dbs k) b.id))
include h

theorem listsExactly_feed : ListsExactly dbs missingSanctionedTransactionsRss id LeftOut := by
  intro i tr blocks j hx
  obtain ⟨k, rs, hik, hkj, rfl⟩ :=
    exec_report (s := .blocksWithMissingSanctioned) (fun _ _ => rfl) hx
  refine ⟨k, hik, hkj, fun b hb hm => ?_⟩
  rw [id, ← (h k b hb hm).leftOut_iff, mem_orderDesc, rs.mem_order, List.mem_filter]
  exact ⟨fun hf => of_decide_eq_true hf.2, fun hf => ⟨hb, decide_eq_true hf⟩⟩

theorem listsExactly_debugFeed : ListsExactly dbs debugSanctionedTransactionsRss id
    (fun blockId info => info.blockId = blockId) := by
  intro i tr blocks j hx
  obtain ⟨k, rs, hik, hkj, rfl⟩ :=
    exec_report (s := .blocksWithSanctionedTx) (fun _ _ => rfl) hx
  refine ⟨k, hik, hkj, fun b hb hm => ?_⟩
  rw [id, ← (h k b hb hm).any_iff, mem_orderDesc, rs.mem_order, List.mem_filter, Bool.or_eq_true,
    decide_eq_true_iff, decide_eq_true_iff]
  exact and_iff_right hb

theorem feedsExact_of_accounted : FeedsExact dbs where
  page i tr page j hx := by
    obtain ⟨tr', u, hfeed, hu, -⟩ := exec_missingSanctioned hx
    obtain ⟨k, hik, hku, hlists⟩ := listsExactly_feed h i tr' page.blocks u hfeed
    exact ⟨k, hik, hku.trans hu, hlists⟩
  entryCount i tr page j hx := by
    obtain ⟨-, -, -, -, hcount⟩ := exec_missingSanctioned hx
    exact hcount
  feed := listsExactly_feed h
  debugFeed := listsExactly_debugFeed h

end Accounts

/-- Also while the daemon writes. -/
theorem feeds_exact (ρ : CleanRun lib) : FeedsExact (databases ρ) :=
  feedsExact_of_accounted (accounted_of_run ρ)

def debugSanctionedByPool (debugPagesEnabled : Bool) :
    ReportHandler (Option (List PoolSanctionedTableEntry)) :=
  debugPage debugPagesEnabled (serve debugSanctionedTable)

/-- The table of the debug page is that of one database of the run, and adds up. Without debug pages
there is none. -/
structure TableAdds (dbs : σ → Database) : Prop where
  totals : ∀ enabled i tr table j,
    Exec (reporting dbs) (debugSanctionedByPool enabled) i tr (.ok (some table)) j →
      ∃ k, i ≤ k ∧ k ≤ j ∧ Totals (dbs k) table
  hidden : ∀ i tr r j, Exec (reporting dbs) (debugSanctionedByPool false) i tr r j → r = .ok none

theorem table_adds (ρ : CleanRun lib) : TableAdds (databases ρ) where
  totals enabled i tr table j hx := by
    cases enabled with
    | false => cases (Exec.done_iff.mp hx).2.1
    | true =>
      obtain ⟨tr', rest, table', u, -, hserve, hx⟩ := Exec.andThen_ok_iff.mp hx
      obtain ⟨-, htable, hu⟩ := Exec.done_iff.mp hx
      cases htable
      obtain ⟨k, rs, hik, hku, rfl⟩ :=
        exec_report (s := .debugSanctionedTable) (fun _ _ => rfl) hserve
      exact ⟨k, hik, hku.trans hu, totals_of_accounted (accounted_of_run ρ k) rfl⟩
  hidden _ _ _ _ hx := (Exec.done_iff.mp hx).2.1

theorem mem_atHand_overlap {tx : Bitcoin.Transaction}
    (h : tx ∈ transactionsAtHand decoding overlapBlock [overlapTemplate]) :
    tx ∈ overlapBlock.txdata ++ (decoded decoding overlapTemplate).map Prod.fst := by
  obtain h | ⟨t, ht, e, he, hd⟩ := h
  · exact List.mem_append_left _ h
  · cases List.mem_singleton.mp ht
    rw [← List.zipIdx_map_fst 0 overlapTemplate.transactions] at he
    obtain ⟨⟨e, i⟩, hi, rfl⟩ := List.mem_map.mp he
    exact List.mem_append_right _ (List.mem_map.mpr ⟨(tx, i),
      List.mem_filterMap.mpr ⟨(e, i), hi, by rw [hd]; rfl⟩, rfl⟩)

theorem clean_overlap : Clean decoding overlapBlock [overlapTemplate] where
  toTidy := tidy_overlap
  nodup := by decide
  collisionFree tx htx tx' htx' :=
    collisionFree_overlap tx (mem_atHand_overlap htx) tx' (mem_atHand_overlap htx')
  parsed _ _ := rfl

/-- A block with complete records leaves out a transaction that pays to the listed address. -/
theorem exists_cleanRun : ∃ ρ : CleanRun decoding,
    ∃ b ∈ ρ.last.world.db.block.rows, Marked ρ.last.world.db b.id ∧ 0 < b.sanctionedMissingTx := by
  obtain ⟨ρ, hρ⟩ : ∃ ρ : CleanRun decoding, ρ.last.world = _ :=
    exists_jobRun (j := overlapJob) (restarted_of_noBlocks foreignKeys_listedWorld rfl)
      ⟨trivial, clean_overlap⟩ .healthy
  refine ⟨ρ, ?_⟩
  rw [hρ]
  unfold Marked
  decide +kernel

theorem feeds_exact_listed : ∃ ρ : CleanRun decoding,
    (∃ b ∈ ρ.last.world.db.block.rows, Marked ρ.last.world.db b.id ∧ 0 < b.sanctionedMissingTx) ∧
      FeedsExact (databases ρ) := by
  obtain ⟨ρ, hm⟩ := exists_cleanRun
  exact ⟨ρ, hm, feeds_exact ρ⟩

theorem table_adds_listed : ∃ ρ : CleanRun decoding,
    (∃ b ∈ ρ.last.world.db.block.rows, Marked ρ.last.world.db b.id ∧ 0 < b.sanctionedMissingTx) ∧
      TableAdds (databases ρ) := by
  obtain ⟨ρ, hm⟩ := exists_cleanRun
  exact ⟨ρ, hm, table_adds ρ⟩

end Runs

end MiningpoolObserver.SanctionTotals
