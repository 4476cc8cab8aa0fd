import MiningpoolObserver.Library.PageWalks
import MiningpoolObserver.Pagination
import MiningpoolObserver.PoolRenames

namespace MiningpoolObserver.ListingWalks

open MiningpoolObserver.Library MiningpoolObserver.Library.CallTree
open MiningpoolObserver.Library.HashCollections MiningpoolObserver.Library.KeyedTable
open MiningpoolObserver.Library.Queries MiningpoolObserver.Library.Pages
open MiningpoolObserver.Library.PageWalks MiningpoolObserver.Library.Fallible
open MiningpoolObserver.Bitcoin MiningpoolObserver.SharedModel MiningpoolObserver.Db
open MiningpoolObserver.Daemon MiningpoolObserver.Threads MiningpoolObserver.Web
open MiningpoolObserver.PageSafety MiningpoolObserver.Listings MiningpoolObserver.Pagination
open MiningpoolObserver.Archive MiningpoolObserver.PoolRenames
open MiningpoolObserver.Simulation MiningpoolObserver.SanctionCounts

variable {σ : Type} [Preorder σ] {dbs : σ → Database} {k : σ}

/-- Databases that follow one another, each with all records of the one before. -/
structure Historic (dbs : σ → Database) : Prop where
  archived : ∀ i j, i ≤ j → Archived (dbs i) (dbs j)
  blockIds : ∀ i, (dbs i).blockIds.Nodup

/-- A SELECT that cannot fail of itself returns what it finds at one moment. -/
theorem ensures_found {s : Select} {f : Database → RandomState → s.Result}
    (h : ∀ db rs, s.exec db rs = .ok (f db rs)) (k : σ) :
    Ensures (reading dbs) (load s) k
      (Loads (fun a t => ∃ i rs, k ≤ i ∧ i ≤ t ∧ a = f (dbs i) rs)) := by
  refine (ensures_load s k).mono (fun r t hr => ?_)
  cases r with
  | error e => exact hr
  | ok a =>
    obtain ⟨i, rs, hki, hit, hx⟩ := hr
    rw [h] at hx
    exact ⟨i, rs, hki, hit, (Except.ok.inj hx).symm⟩

section Blocks

/-- What a listing of blocks shows of a block for good. -/
def stamp (block : SharedModel.Block) : List UInt8 × NaiveDateTime := (block.hash, block.blockTime)

def pagesFor (count : ℕ) : UInt32 := maxPages (Int64.ofNat count)

theorem ordered_map {α β κ : Type} [LinearOrder κ] {key : β → κ} {f : α → β} {rows s : List α}
    (h : Ordered (fun a => key (f a)) rows s) : Ordered key (rows.map f) (s.map f) :=
  ⟨h.perm.map f, List.pairwise_map.mpr h.pairwise⟩

theorem map_page {α β : Type} (f : α → β) (size n : ℕ) (l : List α) :
    (page size n l).map f = page size n (l.map f) := by
  rw [page, page, List.map_take, List.map_drop]

/-- A page of a listing of blocks, of which `rowsOf` selects the rows. -/
abbrev CutsBlocks (dbs : σ → Database) (rowsOf : Database → List SharedModel.Block) (n : UInt32)
    (k : σ) : List SharedModel.Block × UInt32 → σ → Prop :=
  CutsPage dbs MAX_BLOCKS_PER_PAGE pagesFor (fun db => (rowsOf db).map stamp) stamp Prod.snd n k

variable {rowsOf : Database → List SharedModel.Block} {n : UInt32}
variable {loadBlocks : Query (List SharedModel.Block)} {loadCount : Query (List Int64)}

/-- The entries of a page of blocks, and then their number, of a later moment. -/
theorem cutsPage_of_loads
    (hblocks : Ensures (reading dbs) loadBlocks k (Loads (fun entries t => ∃ i, ∃ rs : RandomState,
      k ≤ i ∧ i ≤ t ∧ entries = page MAX_BLOCKS_PER_PAGE n.toNat
        (orderDesc (fun block => block.blockTime) (rs.order (rowsOf (dbs i)))))))
    (hcount : ∀ k, Ensures (reading dbs) loadCount k (Loads (fun counts t => ∃ j, ∃ _ : RandomState,
      k ≤ j ∧ j ≤ t ∧ counts = [Int64.ofNat (rowsOf (dbs j)).length]))) :
    Ensures (reading dbs)
      (loadBlocks.andThen (fun blocks => loadCount.andThen (fun (counts : List Int64) => .done (do
        let blocksCount ← unwrap counts.head?
        pure (blocks, maxPages blocksCount))))) k (Loads (CutsBlocks dbs rowsOf n k)) := by
  refine ensures_andThen hblocks fun entries t hentries => ?_
  refine ensures_andThen (hcount t) fun counts u hcounts => ?_
  obtain ⟨i, rs, hki, hit, rfl⟩ := hentries
  obtain ⟨j, -, htj, hju, rfl⟩ := hcounts
  refine .done (fun v hv => ?_)
  refine ⟨i, j, _, hki, hit.trans htj, hju.trans hv, ordered_map (ordered_orderDesc rs), ?_, ?_⟩
  · exact List.Perm.of_eq (map_page _ _ _ _)
  · rw [pagesFor, List.length_map]

theorem cutsPage_blocks (dbs : σ → Database) (n : UInt32) (k : σ) :
    Ensures (reading dbs) (blocks n) k (Loads (CutsBlocks dbs (fun db => db.block.rows) n k)) :=
  cutsPage_of_loads (ensures_found (s := .blockPage n) (fun _ _ => rfl) k)
    (ensures_found (s := .blockCount) (fun _ _ => rfl))

theorem cutsPage_blocksByPool (dbs : σ → Database) (pool : String) (n : UInt32) (k : σ) :
    Ensures (reading dbs) (blocksByPool n pool) k
      (Loads (CutsBlocks dbs (fun db => poolRows db pool) n k)) :=
  cutsPage_of_loads (ensures_found (s := .blockPageByPool pool n) (fun _ _ => rfl) k)
    (ensures_found (s := .blockCountByPool pool) (fun _ _ => rfl))

variable {S : Signature} {ε : Type} {E : Environment S σ}

/-- While blocks are only added, nobody who goes through all pages misses a block that was there
from the start, unless another one has its time. -/
def MissesNone (E : Environment S σ) (dbs : σ → Database)
    (q : UInt32 → Prog S (Except ε (List SharedModel.Block × UInt32)))
    (rowsOf : Database → List SharedModel.Block) : Prop :=
  ∀ walk : Walk E q, ∀ block ∈ rowsOf (dbs (walk.begun 0)),
    (∀ other ∈ rowsOf (dbs (walk.ended walk.last)),
      other.blockTime = block.blockTime → other.hash = block.hash) →
    walk.Shows (fun b => b.hash) block.hash

theorem le_of_pagesFor {count p : ℕ} (hlt : count < 2 ^ 24) (h : (pagesFor count).toNat ≤ p) :
    count ≤ MAX_BLOCKS_PER_PAGE * p := (maxPages_le_iff hlt p).mp h

theorem missesNone_of_cutsPage {q : UInt32 → Prog S (Except ε (List SharedModel.Block × UInt32))}
    (hE : ∀ i j, E.drift i j → i ≤ j)
    (hq : ∀ n k, Ensures E (q n) k (OnOk (CutsBlocks dbs rowsOf n k)))
    (hgrow : ∀ i j, i ≤ j → (rowsOf (dbs i)).map stamp ⊆ (rowsOf (dbs j)).map stamp)
    (hsub : ∀ i, (rowsOf (dbs i)).Sublist (dbs i).block.rows)
    (hlt : ∀ i, (dbs i).block.rows.length < 2 ^ 24) : MissesNone E dbs q rowsOf := by
  intro walk block hblock hne
  have hnd : ∀ i, ((rowsOf (dbs i)).map stamp).Nodup := by
    intro i
    refine .of_map Prod.fst ?_
    rw [List.map_map]
    exact ((hsub i).map _).nodup (dbs i).block.nodup
  obtain ⟨n, hn, e, he, hstamp⟩ : Walk.Shows walk stamp (stamp block) := by
    refine walk.shows_of_mem hE (Nat.succ_pos 24) hq hgrow hnd (fun i p hp => ?_)
      (List.mem_map_of_mem hblock) ?_
    · rw [List.length_map] at hp ⊢
      exact le_of_pagesFor ((hsub i).length_le.trans_lt (hlt i)) hp
    · intro _ p hp htime
      obtain ⟨other, hother, rfl⟩ := List.mem_map.mp hp
      exact Prod.ext (hne other hother htime) htime
  exact ⟨n, hn, e, he, congrArg Prod.fst hstamp⟩

theorem Historic.stamps_blocks (h : Historic dbs) (i j : σ) (hij : i ≤ j) :
    (dbs i).block.rows.map stamp ⊆ (dbs j).block.rows.map stamp := by
  intro p hp
  obtain ⟨block, hblock, rfl⟩ := List.mem_map.mp hp
  obtain ⟨poolName, hblock'⟩ := (h.archived i j hij).blocks block hblock
  exact List.mem_map.mpr ⟨_, hblock', rfl⟩

end Blocks

/-- Blocks that are looked up by their ids at a later moment come back with what is fixed of
them. -/
theorem Historic.picked_perm (h : Historic dbs) {β : Type} (f : SharedModel.Block → β)
    (idOf : β → Int64) (hid : ∀ b, idOf (f b) = b.id) {m : σ} {l : List β} (hnd : l.Nodup)
    (hl : ∀ x ∈ l, ∃ b ∈ (dbs m).block.rows, f b = x) :
    (((dbs m).block.rows.filter (fun b => b.id ∈ l.map idOf)).map f).Perm l := by
  have hinj : ∀ b ∈ (dbs m).block.rows, ∀ b' ∈ (dbs m).block.rows, b.id = b'.id → b = b' :=
    fun b hb b' hb' he => List.inj_on_of_nodup_map (h.blockIds m) hb hb' he
  refine (List.perm_ext_iff_of_nodup ?_ hnd).mpr (fun x => ?_)
  · refine .of_map idOf ?_
    rw [List.map_map]
    have hcomp : idOf ∘ f = fun b => b.id := funext hid
    rw [hcomp]
    exact (List.filter_sublist.map _).nodup (h.blockIds m)
  · simp only [List.mem_map, List.mem_filter, decide_eq_true_eq]
    constructor
    · rintro ⟨b, ⟨hb, y, hy, he⟩, rfl⟩
      obtain ⟨b', hb', rfl⟩ := hl y hy
      rw [hid] at he
      rwa [hinj b hb b' hb' he.symm]
    · intro hx
      obtain ⟨b, hb, rfl⟩ := hl x hx
      exact ⟨b, ⟨hb, f b, hx, hid b⟩, rfl⟩

theorem Historic.picked_ids_perm (h : Historic dbs) {m : σ} {l : List Int64} (hnd : l.Nodup)
    (hl : ∀ id ∈ l, id ∈ (dbs m).blockIds) :
    (((dbs m).block.rows.filter (fun b => b.id ∈ l)).map (fun b => b.id)).Perm l := by
  have hperm := h.picked_perm (fun b => b.id) id (fun _ => rfl) hnd
    (fun id hid => List.mem_map.mp (hl id hid))
  rwa [List.map_id] at hperm

section Conflicts

/-- The blocks with conflicts, as the listing selects them. -/
def conflictBlocks (db : Database) : List (Int64 × Int32) :=
  ((innerJoin (fun row block => block.id = row.blockId) db.conflictingTransactions.rows
    db.block.rows).map (fun (row, b) => (row.blockId, b.height))).dedup

theorem mem_conflictBlocks {db : Database} {p : Int64 × Int32} : p ∈ conflictBlocks db ↔
    ∃ row ∈ db.conflictingTransactions.rows, ∃ b ∈ db.block.rows,
      b.id = row.blockId ∧ (row.blockId, b.height) = p := by
  rw [conflictBlocks, List.mem_dedup, List.mem_map]
  constructor
  · rintro ⟨⟨row, b⟩, hm, rfl⟩
    obtain ⟨hrow, hb, hid⟩ := mem_innerJoin.mp hm
    exact ⟨row, hrow, b, hb, hid, rfl⟩
  · rintro ⟨row, hrow, b, hb, hid, rfl⟩
    exact ⟨(row, b), mem_innerJoin.mpr ⟨hrow, hb, hid⟩, rfl⟩

/-- The listing counts them without their heights. -/
theorem length_conflictBlocks {db : Database} (hkeys : Keys db) : (conflictBlocks db).length =
    (db.conflictingTransactions.rows.map (fun row => row.blockId)).dedup.length := by
  have hnd : ((conflictBlocks db).map Prod.fst).Nodup := by
    refine List.Nodup.map_on ?_ (List.nodup_dedup _)
    intro p hp q hq he
    obtain ⟨row, -, b, hb, hid, rfl⟩ := mem_conflictBlocks.mp hp
    obtain ⟨row', -, b', hb', hid', rfl⟩ := mem_conflictBlocks.mp hq
    have he : row.blockId = row'.blockId := he
    rw [List.inj_on_of_nodup_map hkeys.blockIds hb hb' (hid.trans (he.trans hid'.symm)), he]
  have hlen : ((conflictBlocks db).map Prod.fst).length = (conflictBlocks db).length :=
    List.length_map _
  rw [← hlen]
  refine ((List.perm_ext_iff_of_nodup hnd (List.nodup_dedup _)).mpr (fun id => ?_)).length_eq
  rw [List.mem_dedup, List.mem_map, List.mem_map]
  constructor
  · rintro ⟨p, hp, rfl⟩
    obtain ⟨row, hrow, b, -, -, rfl⟩ := mem_conflictBlocks.mp hp
    exact ⟨row, hrow, rfl⟩
  · rintro ⟨row, hrow, rfl⟩
    obtain ⟨b, hb, hid⟩ := List.mem_map.mp (hkeys.foreignKeys.conflicting row hrow)
    exact ⟨_, mem_conflictBlocks.mpr ⟨row, hrow, b, hb, hid, rfl⟩, rfl⟩

theorem length_conflictBlocks_le {db : Database} (hkeys : Keys db) :
    (conflictBlocks db).length ≤ db.block.rows.length := by
  have hsub : (db.conflictingTransactions.rows.map (fun row => row.blockId)).dedup ⊆
      db.blockIds := by
    intro id hid
    obtain ⟨row, hrow, rfl⟩ := List.mem_map.mp (List.mem_dedup.mp hid)
    exact hkeys.foreignKeys.conflicting row hrow
  rw [length_conflictBlocks hkeys]
  have hle := (List.subperm_of_subset (List.nodup_dedup _) hsub).length_le
  rwa [Database.blockIds, List.length_map] at hle

def heightStamp (block : SharedModel.Block) : Int64 × Int32 := (block.id, block.height)

theorem Historic.exists_heightStamp (h : Historic dbs) {i j : σ} (hij : i ≤ j)
    {p : Int64 × Int32} (hp : p ∈ conflictBlocks (dbs i)) :
    ∃ b ∈ (dbs j).block.rows, heightStamp b = p := by
  obtain ⟨row, -, b, hb, hid, rfl⟩ := mem_conflictBlocks.mp hp
  obtain ⟨poolName, hb'⟩ := (h.archived i j hij).blocks b hb
  exact ⟨_, hb', by rw [heightStamp, ← hid]⟩

theorem Historic.conflictBlocks_subset (h : Historic dbs) (i j : σ) (hij : i ≤ j) :
    conflictBlocks (dbs i) ⊆ conflictBlocks (dbs j) := by
  intro p hp
  obtain ⟨row, hrow, b, hb, hid, rfl⟩ := mem_conflictBlocks.mp hp
  obtain ⟨poolName, hb'⟩ := (h.archived i j hij).blocks b hb
  exact mem_conflictBlocks.mpr
    ⟨row, (h.archived i j hij).conflicting.subset hrow, _, hb', hid, rfl⟩

theorem ordered_conflictBlocks (db : Database) (rs : RandomState) :
    Ordered (fun p => p.2.toInt) (conflictBlocks db)
      (orderDesc (fun p => p.2) (rs.order (conflictBlocks db))) where
  perm := perm_orderDesc.trans (rs.perm _)
  pairwise := by
    have h := pairwise_orderDesc (f := fun p => p.2) (l := rs.order (conflictBlocks db))
    exact h.imp (fun hle => Int32.le_iff_toInt_le.mp hle)

/-- What a page of the listing has been computed from. -/
theorem Historic.conflictingTransactionsData (h : Historic dbs) (n : UInt32) (k : σ) :
    Ensures (reading dbs) (conflictingTransactionsData n) k (Loads (fun data t => ∃ i j s,
      k ≤ i ∧ i ≤ j ∧ j ≤ t ∧ Ordered (fun p => p.2.toInt) (conflictBlocks (dbs i)) s ∧
        (data.blocks.map heightStamp).Perm (page MAX_BLOCKS_PER_PAGE n.toNat s) ∧
        data.totalBlockCount = Int64.ofNat ((dbs j).conflictingTransactions.rows.map
          (fun row => row.blockId)).dedup.length)) := by
  refine ensures_andThen (ensures_found (s := .conflictingBlocks n) (fun _ _ => rfl) k) ?_
  rintro rows t₁ ⟨i, rs, hki, hi, rfl⟩
  refine ensures_andThen (ensures_found (s := .conflictingBlockCount) (fun _ _ => rfl) t₁) ?_
  rintro counts t₂ ⟨j, -, hj, hjt, rfl⟩
  refine ensures_andThen (ensures_load _ _) fun infos t₃ hinfos => ?_
  refine ensures_andThen (ensures_load _ _) fun txns t₄ htxns => ?_
  obtain ⟨_, -, ha, ha', -⟩ := hinfos
  obtain ⟨_, -, hb, hb', -⟩ := htxns
  refine ensures_andThen (ensures_found (s := .blocksByIdDesc _) (fun _ _ => rfl) t₄) ?_
  rintro blocks t₅ ⟨m, rs', hm, hmt, rfl⟩
  have hlate : t₂ ≤ m := (ha.trans ha').trans ((hb.trans hb').trans hm)
  refine ensures_ok fun u hu => ⟨i, j, _, hki, hi.trans hj, ?_, ordered_conflictBlocks _ rs, ?_,
    rfl⟩
  · exact hjt.trans (hlate.trans (hmt.trans hu))
  · refine (perm_orderDesc.map heightStamp).trans (((rs'.perm _).map _).trans ?_)
    refine h.picked_perm heightStamp Prod.fst (fun _ => rfl) ?_ (fun p hp => ?_)
    · exact page_sublist.nodup ((ordered_conflictBlocks _ rs).perm.nodup_iff.mpr
        (List.nodup_dedup _))
    · exact h.exists_heightStamp (hi.trans (hj.trans (hjt.trans hlate)))
        ((ordered_conflictBlocks _ rs).perm.mem_iff.mp (page_subset hp))

abbrev CutsConflicts (dbs : σ → Database) (n : UInt32) (k : σ) :
    List ConflictingTranscationInfo × UInt32 → σ → Prop :=
  CutsPage dbs MAX_BLOCKS_PER_PAGE pagesFor conflictBlocks (fun e => heightStamp e.block)
    (fun p => p.2.toInt) n k

theorem Historic.cutsPage_conflicts (h : Historic dbs) (hkeys : ∀ i, Keys (dbs i)) (n : UInt32)
    (k : σ) : Ensures (reading dbs) (blocksWithConflictingTransactions n) k
      (OnOk (CutsConflicts dbs n k)) := by
  refine (h.conflictingTransactionsData n k).andThen (fun data t hdata => ?_)
    (fun _ _ _ _ _ => trivial)
  refine .done (fun u hu => ?_)
  obtain ⟨i, j, s, hki, hij, hjt, hs, hperm, htotal⟩ := hdata
  dsimp only
  cases hm : data.blocks.mapM (fun block => conflictingTransactionInfo (txidToTx data.transactions)
      (data.conflictingTransactionsInfo.filter (fun ct => ct.blockId = block.id)) block) with
  | error e => trivial
  | ok infos =>
    have hblocks : infos.map (fun e => e.block) = data.blocks := map_eq_of_mapM hm
      (fun block info hinfo => (conflictingTransactionInfo_eq_ok.mp hinfo).1)
    refine ⟨i, j, s, hki, hij, hjt.trans hu, hs, ?_, ?_⟩
    · rw [← hblocks, List.map_map] at hperm
      exact hperm
    · rw [htotal, ← length_conflictBlocks (hkeys j)]
      rfl

/-- A block with a row of conflicts. -/
def HasConflicts (db : Database) (block : SharedModel.Block) : Prop :=
  block ∈ db.block.rows ∧ ∃ row ∈ db.conflictingTransactions.rows, row.blockId = block.id

theorem HasConflicts.mem {db : Database} {block : SharedModel.Block} (h : HasConflicts db block) :
    heightStamp block ∈ conflictBlocks db := by
  obtain ⟨hb, row, hrow, hid⟩ := h
  exact mem_conflictBlocks.mpr ⟨row, hrow, block, hb, hid.symm, by rw [heightStamp, hid]⟩

variable {S : Signature} {ε : Type} {E : Environment S σ}
variable {q : UInt32 → Prog S (Except ε (List ConflictingTranscationInfo × UInt32))}

/-- Nobody who goes through all pages of the conflicts misses a block that had some from the start,
unless another one with conflicts has its height. -/
def MissesNoConflict (E : Environment S σ) (dbs : σ → Database)
    (q : UInt32 → Prog S (Except ε (List ConflictingTranscationInfo × UInt32))) : Prop :=
  ∀ walk : Walk E q, ∀ block, HasConflicts (dbs (walk.begun 0)) block →
    (∀ other, HasConflicts (dbs (walk.ended walk.last)) other →
      other.height = block.height → other.id = block.id) →
    walk.Shows (fun e => e.block.id) block.id

theorem Historic.missesNoConflict (h : Historic dbs) (hE : ∀ i j, E.drift i j → i ≤ j)
    (hq : ∀ n k, Ensures E (q n) k (OnOk (CutsConflicts dbs n k))) (hkeys : ∀ i, Keys (dbs i))
    (hlt : ∀ i, (dbs i).block.rows.length < 2 ^ 24) : MissesNoConflict E dbs q := by
  intro walk block hblock hne
  obtain ⟨n, hn, e, he, hstamp⟩ : walk.Shows (fun e => heightStamp e.block)
      (heightStamp block) := by
    refine walk.shows_of_mem hE (Nat.succ_pos 24) hq h.conflictBlocks_subset
      (fun _ => List.nodup_dedup _) (fun i p hp => ?_) hblock.mem ?_
    · exact le_of_pagesFor ((length_conflictBlocks_le (hkeys i)).trans_lt (hlt i)) hp
    · intro _ p hp hheight
      obtain ⟨row, hrow, b, hb, hid, rfl⟩ := mem_conflictBlocks.mp hp
      have hheight := Int32.toInt_inj.mp hheight
      exact Prod.ext (hid ▸ hne b ⟨hb, row, hrow, hid.symm⟩ hheight) hheight
  exact ⟨n, hn, e, he, congrArg Prod.fst hstamp⟩

end Conflicts

section Runs

variable {lib : Crates} {allowed : Thread → Job → World lib → Prop} {P : World lib → Prop}

theorem blockIds_of_run (ρ : ThreadRun lib .reorganises allowed P)
    (hP : ∀ w, P w → w.db.blockIds.Nodup) :
    ∀ i ≤ ρ.length, (ρ.state i).world.db.blockIds.Nodup := by
  refine ρ.invariant (I := fun C => C.world.db.blockIds.Nodup) (fun C hC => hP _ hC.1) ?_
  intro C l C' hnd hs
  exact relates_of_step (R := fun db db' => db.blockIds.Nodup → db'.blockIds.Nodup)
    Drift.keepsDb_reorganises (fun _ => id) nodup_blockIds_of_succeeds hs hnd

theorem historic_of_run (ρ : ThreadRun lib .reorganises allowed P)
    (hP : ∀ w, P w → w.db.blockIds.Nodup) : Historic (databases ρ) where
  archived _ j hij := archived_of_run Drift.keepsDb_reorganises ρ hij (Nat.le_of_lt_succ j.2)
  blockIds i := blockIds_of_run ρ hP i (Nat.le_of_lt_succ i.2)

/-- Rows are only added. -/
theorem length_blocks_le (ρ : ThreadRun lib .reorganises allowed P) (i : Fin (ρ.length + 1)) :
    (databases ρ i).block.rows.length ≤ ρ.last.world.db.block.rows.length := by
  have hnd : ((databases ρ i).block.keys).Nodup := (databases ρ i).block.nodup
  have hsub : (databases ρ i).block.keys ⊆ ρ.last.world.db.block.keys := by
    intro key hkey
    obtain ⟨block, hblock, rfl⟩ := List.mem_map.mp hkey
    obtain ⟨poolName, hblock'⟩ := (archived_of_run Drift.keepsDb_reorganises ρ
      (Nat.le_of_lt_succ i.2) le_rfl).blocks block hblock
    exact List.mem_map.mpr ⟨_, hblock', rfl⟩
  have hle := (List.subperm_of_subset hnd hsub).length_le
  rwa [Table.keys, Table.keys, List.length_map, List.length_map] at hle

/-- The blocks of a pool that has a name stay its blocks. -/
theorem stamps_poolRows (ρ : DutyRun lib) {pool : String} (hpool : pool ≠ "Unknown")
    (i j : Fin (ρ.length + 1)) (hij : i ≤ j) :
    (poolRows (databases ρ i) pool).map stamp ⊆ (poolRows (databases ρ j) pool).map stamp := by
  intro p hp
  obtain ⟨block, hblock, rfl⟩ := List.mem_map.mp hp
  obtain ⟨hmem, hname⟩ := List.mem_filter.mp hblock
  rw [decide_eq_true_eq] at hname
  obtain hmem' | ⟨hunknown, -⟩ := namedOnce_of_run ρ hij (Nat.le_of_lt_succ j.2) block hmem
  · exact List.mem_map_of_mem (List.mem_filter.mpr ⟨hmem', decide_eq_true hname⟩)
  · exact absurd (hname.symm.trans hunknown) hpool

theorem keys_of_run (ρ : ThreadRun lib .reorganises allowed P) (hP : ∀ w, P w → Keys w.db) :
    ∀ i ≤ ρ.length, Keys (ρ.state i).world.db := by
  refine ρ.invariant (I := fun C => Keys C.world.db) (fun C hC => hP _ hC.1) ?_
  intro C l C' hkeys hs
  have hstep := relates_of_step (R := fun db db' => db.blockIds.Nodup → db'.blockIds.Nodup)
    Drift.keepsDb_reorganises (fun _ => id) nodup_blockIds_of_succeeds hs
  exact ⟨hstep hkeys.blockIds, foreignKeys_of_step Drift.keepsDb_reorganises hs hkeys.foreignKeys⟩

end Runs

section Samples

/-- The database after the block of `overlapJob` has been processed. -/
def overlapDb (o : Outside) : Database :=
  ((overlapJob.prog decoding).runWith (respond o) overlapWorld).2.2.db

theorem exists_overlap {allowed : Thread → Job → World decoding → Prop}
    {P : World decoding → Prop} (hP : P overlapWorld)
    (hj : allowed .mainLoop overlapJob overlapWorld) (o : Outside) :
    ∃ ρ : ThreadRun decoding .reorganises allowed P, ρ.last.world.db = overlapDb o := by
  obtain ⟨ρ, hρ⟩ := exists_jobRun hP hj o
  exact ⟨ρ, congrArg World.db hρ⟩

theorem keys_overlapWorld : Keys overlapWorld.db := ⟨by decide, sound_overlapWorld.1⟩

end Samples

end MiningpoolObserver.ListingWalks
