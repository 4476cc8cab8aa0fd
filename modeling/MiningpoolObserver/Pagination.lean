import MiningpoolObserver.Library.Pages
import MiningpoolObserver.Listings

namespace MiningpoolObserver.Pagination

open MiningpoolObserver.Library MiningpoolObserver.Library.CallTree
open MiningpoolObserver.Library.HashCollections MiningpoolObserver.Library.KeyedTable
open MiningpoolObserver.Library.Queries MiningpoolObserver.Library.Pages
open MiningpoolObserver.Bitcoin MiningpoolObserver.SharedModel MiningpoolObserver.Db
open MiningpoolObserver.Web MiningpoolObserver.MissingSanctioned MiningpoolObserver.Listings

variable {db : Database} {α β κ : Type}

/-- The number of pages holds every entry, and no page more. -/
theorem maxPages_le_iff {n : ℕ} (hn : n < 2 ^ 24) (p : ℕ) :
    (maxPages (Int64.ofNat n)).toNat ≤ p ↔ n ≤ MAX_BLOCKS_PER_PAGE * p := by
  have hceil : ((maxPages (Int64.ofNat n)).toNat : ℤ) = ⌈(n / (25 : ℕ) : ℚ)⌉ :=
    Binary32.toNat_ceil_div hn (by decide) (by decide)
  have hle : (n / (25 : ℕ) : ℚ) ≤ ((p : ℤ) : ℚ) ↔ n ≤ 25 * p := by
    rw [div_le_iff₀ (by norm_num), mul_comm]
    exact_mod_cast Iff.rfl
  rw [← Int.ofNat_le, hceil, Int.ceil_le]
  exact hle

/-- Answers to requests for every page of a listing, each request with queries of its own. -/
def Answers (db : Database) (q : UInt32 → Query (List α × UInt32))
    (res : UInt32 → List α × UInt32) : Prop :=
  ∀ n, ∃ tr, Exec (selecting db) (q n) () tr (.ok (res n)) ()

/-- Every request is answered, and however each query orders ties, the pages up to the number of
pages that is shown have each item once, and the later ones have no entry. -/
structure Partitioned (db : Database) (q : UInt32 → Query (List α × UInt32)) (item : α → β)
    (items : List β) : Prop where
  answered : ∀ n, Ensures (selecting db) (q n) () (fun r _ => ∃ a, r = .ok a)
  exact : ∀ res, Answers db q res → ∃ pages : UInt32, (∀ n, (res n).2 = pages) ∧
    ((List.range pages.toNat).flatMap (fun n => (res (UInt32.ofNat n)).1.map item)).Perm items ∧
    ∀ n, pages ≤ n → (res n).1 = []

section Cuts

variable [LinearOrder κ] {q : UInt32 → Query (List α × UInt32)} {item : α → β} {key : β → κ}
variable {items : List β}

/-- A page with the number of pages of all items. -/
def ShowsPage (item : α → β) (key : β → κ) (items : List β) (n : UInt32) (rs : RandomState)
    (r : Except Failure (List α × UInt32)) : Prop :=
  ∃ entries, r = .ok (entries, maxPages (Int64.ofNat items.length)) ∧
    (entries.map item).Perm (page MAX_BLOCKS_PER_PAGE n.toNat (orderDesc key (rs.order items)))

/-- The pages of a listing are cut from its items in the order of a key, by some order of the ties
and by every one. -/
structure Cuts (db : Database) (q : UInt32 → Query (List α × UInt32)) (item : α → β) (key : β → κ)
    (items : List β) : Prop where
  shows : ∀ n, Ensures (selecting db) (q n) () (fun r _ => ∃ rs, ShowsPage item key items n rs r)
  reaches : ∀ n rs, ShowsPage item key items n rs (evaluate db rs (q n))

theorem ordered_orderDesc (rs : RandomState) : Ordered key items (orderDesc key (rs.order items)) :=
  ⟨perm_orderDesc.trans (rs.perm items), pairwise_orderDesc⟩

theorem exists_orderDesc {s : List β} (h : Ordered key items s) :
    ∃ rs : RandomState, orderDesc key (rs.order items) = s := by
  obtain ⟨rs, hrs⟩ := RandomState.exists_order h.perm
  exact ⟨rs, by rw [hrs, orderDesc, h.pairwise.insertionSort_eq]⟩

/-- Each answer is a page in some order of the ties. -/
theorem Cuts.exists_order (h : Cuts db q item key items) {res : UInt32 → List α × UInt32}
    (hres : Answers db q res) : ∃ rs : UInt32 → RandomState, ∀ n,
      (res n).2 = maxPages (Int64.ofNat items.length) ∧ ((res n).1.map item).Perm
        (page MAX_BLOCKS_PER_PAGE n.toNat (orderDesc key ((rs n).order items))) := by
  have hshow : ∀ n, ∃ rs, ShowsPage item key items n rs (.ok (res n)) := by
    intro n
    obtain ⟨tr, hexec⟩ := hres n
    exact h.shows n tr _ _ hexec
  choose rs hshow using hshow
  refine ⟨rs, fun n => ?_⟩
  obtain ⟨entries, hok, hperm⟩ := hshow n
  rw [Except.ok.inj hok]
  exact ⟨rfl, hperm⟩

theorem toNat_ofNat_of_mem_range {n : ℕ} {pages : UInt32} (hn : n ∈ List.range pages.toNat) :
    (UInt32.ofNat n).toNat = n :=
  UInt32.toNat_ofNat_of_lt' ((List.mem_range.mp hn).trans pages.toNat_lt)

theorem Cuts.partitioned (h : Cuts db q item key items) (hnd : items.Nodup)
    (hlt : items.length < 2 ^ 24) (ht : TiesTogether MAX_BLOCKS_PER_PAGE key items) :
    Partitioned db q item items where
  answered n := (h.shows n).mono (fun r _ hr => by
    obtain ⟨rs, entries, rfl, -⟩ := hr
    exact ⟨_, rfl⟩)
  exact := by
    intro res hres
    obtain ⟨rs, hpages⟩ := h.exists_order hres
    refine ⟨_, fun n => (hpages n).1, ?_, fun n hn => ?_⟩
    · refine List.Perm.trans (List.Perm.flatMap_left _ (fun n hn => (hpages _).2)) ?_
      have hperm := ht.pages_perm (by decide) hnd ((maxPages_le_iff hlt _).mp le_rfl)
        (fun n => ordered_orderDesc (rs (UInt32.ofNat n)))
      refine List.Perm.trans (List.Perm.flatMap_left _ (fun n hn => ?_)) hperm
      rw [toNat_ofNat_of_mem_range hn]
    · have hempty : page MAX_BLOCKS_PER_PAGE n.toNat (orderDesc key ((rs n).order items)) = [] := by
        apply page_eq_nil
        rw [(ordered_orderDesc (rs n)).perm.length_eq]
        exact (maxPages_le_iff hlt _).mp (UInt32.le_iff_toNat_le.mp hn)
      have hperm := (hpages n).2
      rw [hempty] at hperm
      exact List.map_eq_nil_iff.mp hperm.eq_nil

theorem Cuts.tiesTogether (h : Cuts db q item key items) (hnd : items.Nodup)
    (hlt : items.length < 2 ^ 24) (hp : Partitioned db q item items) :
    TiesTogether MAX_BLOCKS_PER_PAGE key items := by
  refine tiesTogether_of_perm (by decide) hnd ((maxPages_le_iff hlt _).mp le_rfl) (fun s hs => ?_)
  -- the request for a page meets the order that `s` has for it
  choose rs hrs using fun n => exists_orderDesc (hs n)
  have hshow : ∀ n : UInt32, ∃ entries, evaluate db (rs n.toNat) (q n) =
      .ok (entries, maxPages (Int64.ofNat items.length)) ∧
      (entries.map item).Perm (page MAX_BLOCKS_PER_PAGE n.toNat (s n.toNat)) := by
    intro n
    have hreach := h.reaches n (rs n.toNat)
    rwa [ShowsPage, hrs] at hreach
  choose entries hok hperm using hshow
  obtain ⟨pages, hpages, hitems, -⟩ := hp.exact
    (fun n => (entries n, maxPages (Int64.ofNat items.length))) (fun n => by
      obtain ⟨tr, hexec⟩ := selecting_evaluate db (rs n.toNat) (q n)
      rw [hok n] at hexec
      exact ⟨tr, hexec⟩)
  rw [← hpages 0] at hitems
  refine (List.Perm.flatMap_left _ (fun n hn => ?_)).trans hitems
  have h := hperm (UInt32.ofNat n)
  rw [toNat_ofNat_of_mem_range hn] at h
  exact h.symm

/-- The pages have each item once exactly when no tie is cut apart. -/
theorem Cuts.iff_tiesTogether (h : Cuts db q item key items) (hnd : items.Nodup)
    (hlt : items.length < 2 ^ 24) :
    Partitioned db q item items ↔ TiesTogether MAX_BLOCKS_PER_PAGE key items :=
  ⟨h.tiesTogether hnd hlt, h.partitioned hnd hlt⟩

end Cuts

section Listings

/-- The rows of a pool. -/
def poolRows (db : Database) (pool : String) : List SharedModel.Block :=
  db.block.rows.filter (fun block => block.poolName = pool)

theorem cuts_missingTransactions (hkeys : Keys db) :
    Cuts db missingTransactions (fun e => e.transaction.txid)
      (fun txid => (maxBlockId db txid).getD 0) (oftenMissing db) where
  shows n := (ensures_missingTransactions hkeys n).mono (fun r _ h => by
    obtain ⟨missing, rs, hr, hperm, -⟩ := h
    exact ⟨rs, missing, hr, hperm⟩)
  reaches n rs := evaluate_missingTransactions hkeys rs n

/-- The entries of a page of blocks, and then their number. -/
theorem shows_of_loads {rows : List SharedModel.Block} {n : UInt32}
    {loadBlocks : Query (List SharedModel.Block)} {loadCount : Query (List Int64)}
    (hblocks : Gives db loadBlocks (fun entries => ∃ rs : RandomState, entries =
      page MAX_BLOCKS_PER_PAGE n.toNat (orderDesc (fun block => block.blockTime) (rs.order rows))))
    (hcount : Gives db loadCount (fun counts => counts = [Int64.ofNat rows.length])) :
    Ensures (selecting db)
      (loadBlocks.andThen (fun blocks => loadCount.andThen (fun (counts : List Int64) => .done (do
        let blocksCount ← unwrap counts.head?
        pure (blocks, maxPages blocksCount))))) ()
      (fun r _ => ∃ rs, ShowsPage id (fun block => block.blockTime) rows n rs r) := by
  refine ensures_andThen hblocks (fun entries hentries => ?_)
  refine ensures_andThen hcount (fun counts hcounts => ?_)
  obtain ⟨rs, rfl⟩ := hentries
  subst hcounts
  exact ensures_done ⟨rs, _, rfl, List.Perm.of_eq (List.map_id _)⟩

theorem cuts_blocks (db : Database) :
    Cuts db blocks id (fun block => block.blockTime) db.block.rows where
  shows _ := shows_of_loads (gives_load (fun rs => ⟨_, rfl, rs, rfl⟩))
    (gives_load (fun _ => ⟨_, rfl, rfl⟩))
  reaches _ _ := ⟨_, rfl, List.Perm.of_eq (List.map_id _)⟩

theorem cuts_blocksByPool (db : Database) (pool : String) :
    Cuts db (fun n => blocksByPool n pool) id (fun block => block.blockTime)
      (poolRows db pool) where
  shows _ := shows_of_loads (gives_load (fun rs => ⟨_, rfl, rs, rfl⟩))
    (gives_load (fun _ => ⟨_, rfl, rfl⟩))
  reaches _ _ := ⟨_, rfl, List.Perm.of_eq (List.map_id _)⟩

theorem nodup_blocks : db.block.rows.Nodup := .of_map _ db.block.nodup

theorem missingTransactions_partitioned_iff (hkeys : Keys db)
    (hlt : (oftenMissing db).length < 2 ^ 24) :
    Partitioned db missingTransactions (fun e => e.transaction.txid) (oftenMissing db) ↔
      TiesTogether MAX_BLOCKS_PER_PAGE (fun txid => (maxBlockId db txid).getD 0)
        (oftenMissing db) :=
  (cuts_missingTransactions hkeys).iff_tiesTogether nodup_oftenMissing hlt

/-- The pages of a listing have each of its items once exactly when the rows that its order ties
are on one page. -/
theorem partitioned_iff (hkeys : Keys db) (hmissing : (oftenMissing db).length < 2 ^ 24)
    (hblocks : db.block.rows.length < 2 ^ 24) :
    (Partitioned db missingTransactions (fun e => e.transaction.txid) (oftenMissing db) ↔
      TiesTogether MAX_BLOCKS_PER_PAGE (fun txid => (maxBlockId db txid).getD 0)
        (oftenMissing db)) ∧
    (Partitioned db blocks id db.block.rows ↔
      TiesTogether MAX_BLOCKS_PER_PAGE (fun block => block.blockTime) db.block.rows) ∧
    ∀ pool, (Partitioned db (fun n => blocksByPool n pool) id (poolRows db pool) ↔
      TiesTogether MAX_BLOCKS_PER_PAGE (fun block => block.blockTime) (poolRows db pool)) := by
  refine ⟨missingTransactions_partitioned_iff hkeys hmissing,
    (cuts_blocks db).iff_tiesTogether nodup_blocks hblocks, fun pool => ?_⟩
  exact (cuts_blocksByPool db pool).iff_tiesTogether (nodup_blocks.filter _)
    ((List.length_filter_le _ _).trans_lt hblocks)

end Listings

section Samples

/-- 26 transactions, each missing from the first two blocks and from one more. -/
def missingFrom (last : ℕ → Int64) : List TransactionOnlyInTemplate :=
  (List.range 26).flatMap (fun i =>
    [1, 2, last i].map (fun b => ⟨b, Int32.ofNat i, 0, [UInt8.ofNat i]⟩))

def bigBlock (id : Int64) : SharedModel.Block :=
  { blockRow id with
    blockTx := 100
    templateTx := 100 }

def missingDb (rows : List TransactionOnlyInTemplate)
    (hrows : (rows.map (fun r => (r.blockId, r.transactionTxid))).Nodup) : Database :=
  { Database.empty with
    block := ⟨[bigBlock 1, bigBlock 2, bigBlock 3, bigBlock 4], by decide⟩
    transaction :=
      ⟨(List.range 26).map (fun i => transactionRow [UInt8.ofNat i]), by decide +kernel⟩
    transactionOnlyInTemplate := ⟨rows, hrows⟩ }

/-- All of them are missing from the same three blocks. -/
def together : Database := missingDb (missingFrom (fun _ => 3)) (by decide +kernel)

/-- One of them is missing from an older block than the others are. -/
def apart : Database :=
  missingDb (missingFrom (fun i => if i < 25 then 4 else 3)) (by decide +kernel)

theorem keys_together : Keys together :=
  ⟨by decide, by decide, by decide +kernel, by decide, by decide, by decide⟩

theorem keys_apart : Keys apart :=
  ⟨by decide, by decide, by decide +kernel, by decide, by decide, by decide⟩

theorem partitioned_iff_apart : (oftenMissing apart).length = 26 ∧
    Partitioned apart missingTransactions (fun e => e.transaction.txid) (oftenMissing apart) ∧
    Partitioned apart blocks id apart.block.rows := by
  obtain ⟨hmissing, hblocks, -⟩ :=
    partitioned_iff keys_apart (by decide +kernel) (by decide +kernel)
  exact ⟨by decide +kernel, hmissing.mpr (by decide +kernel), hblocks.mpr (by decide +kernel)⟩

/-- The last of the first page and the first of the second page may be one transaction. -/
theorem partitioned_fails : ¬ ∀ db : Database, Keys db → (oftenMissing db).length < 2 ^ 24 →
    db.block.rows.length < 2 ^ 24 →
    Partitioned db missingTransactions (fun e => e.transaction.txid) (oftenMissing db) ∧
    Partitioned db blocks id db.block.rows ∧
    ∀ pool, Partitioned db (fun n => blocksByPool n pool) id (poolRows db pool) := by
  intro h
  have hlt : (oftenMissing together).length < 2 ^ 24 := by decide +kernel
  obtain ⟨hp, -⟩ := h together keys_together hlt (by decide +kernel)
  exact absurd ((missingTransactions_partitioned_iff keys_together hlt).mp hp) (by decide +kernel)

end Samples

end MiningpoolObserver.Pagination
