import MiningpoolObserver.ListingWalks
import MiningpoolObserver.Reports

namespace MiningpoolObserver.ReportWalks

open MiningpoolObserver.Library MiningpoolObserver.Library.CallTree
open MiningpoolObserver.Library.HashCollections MiningpoolObserver.Library.KeyedTable
open MiningpoolObserver.Library.Queries MiningpoolObserver.Library.Pages
open MiningpoolObserver.Library.PageWalks
open MiningpoolObserver.Bitcoin MiningpoolObserver.SharedModel MiningpoolObserver.Db
open MiningpoolObserver.Daemon MiningpoolObserver.Threads MiningpoolObserver.Web
open MiningpoolObserver.PageSafety MiningpoolObserver.Listings MiningpoolObserver.Pagination
open MiningpoolObserver.Archive MiningpoolObserver.Reports MiningpoolObserver.ListingWalks
open MiningpoolObserver.SanctionCounts

variable {σ α β : Type} [Preorder σ] {dbs : σ → Database} {k : σ}

theorem ensures_loadReport (s : Report) (k : σ) :
    Ensures (reporting dbs) (loadReport s) k
      (Loads (fun a t => ∃ i rs, k ≤ i ∧ i ≤ t ∧ s.exec (dbs i) rs = .ok a)) := by
  apply Ensures.call
  intro w r u hd ha
  obtain ⟨rfl, ⟨e, rfl⟩ | ⟨rs, hr⟩⟩ := ha
  · exact .done (fun _ _ he => by cases he)
  · cases r with
    | error e => exact .done (fun _ _ he => by cases he)
    | ok a => exact .done (fun i hi => ⟨u, rs, hd, hi, hr.symm⟩)

theorem ensures_reported {s : Report} {f : Database → RandomState → s.Result}
    (h : ∀ db rs, s.exec db rs = .ok (f db rs)) (k : σ) :
    Ensures (reporting dbs) (loadReport s) k
      (Loads (fun a t => ∃ i rs, k ≤ i ∧ i ≤ t ∧ a = f (dbs i) rs)) := by
  refine (ensures_loadReport s k).mono (fun r t hr => ?_)
  cases r with
  | error e => exact hr
  | ok a =>
    obtain ⟨i, rs, hki, hit, hx⟩ := hr
    rw [h] at hx
    exact ⟨i, rs, hki, hit, (Except.ok.inj hx).symm⟩

section Scans

theorem maxScanPages_le_iff {n : ℕ} (hn : n < 2 ^ 24) (p : ℕ) :
    (maxScanPages (Int64.ofNat n)).toNat ≤ p ↔ n ≤ MAX_UTXOSET_SCANS_PER_PAGE * p := by
  have hceil : ((maxScanPages (Int64.ofNat n)).toNat : ℤ) = ⌈(n / (100 : ℕ) : ℚ)⌉ :=
    Binary32.toNat_ceil_div hn (by decide) (by decide)
  have hle : (n / (100 : ℕ) : ℚ) ≤ ((p : ℤ) : ℚ) ↔ n ≤ 100 * p := by
    rw [div_le_iff₀ (by norm_num), mul_comm]
    exact_mod_cast Iff.rfl
  rw [← Int.ofNat_le, hceil, Int.ceil_le]
  exact hle

def scanPagesFor (count : ℕ) : UInt32 := maxScanPages (Int64.ofNat count)

abbrev CutsScans (dbs : σ → Database) (n : UInt32) (k : σ) :
    List SanctionedUtxoScanInfo × UInt32 → σ → Prop :=
  CutsPage dbs MAX_UTXOSET_SCANS_PER_PAGE scanPagesFor (fun db => db.sanctionedUtxoScanInfo.rows) id
    (fun info => info.endTime) n k

theorem cutsPage_scans (dbs : σ → Database) (n : UInt32) (k : σ) :
    Ensures (reporting dbs) (sanctionedUtxoScanInfos n) k (Loads (CutsScans dbs n k)) := by
  refine (ensures_reported (s := .scanInfoPage n) (fun _ _ => rfl) k).andThen
    (fun infos t hinfos => ?_) (fun _ _ _ h _ => h)
  refine (ensures_reported (s := .scanCount) (fun _ _ => rfl) t).andThen
    (fun counts u hcounts => ?_) (fun _ _ _ h _ => h)
  obtain ⟨i, rs, hki, hit, rfl⟩ := hinfos
  obtain ⟨j, -, htj, hju, rfl⟩ := hcounts
  refine .done (fun v hv => ⟨i, j, _, hki, hit.trans htj, hju.trans hv, ordered_orderDesc rs, ?_,
    rfl⟩)
  exact List.Perm.of_eq (List.map_id _)

end Scans

section Debug

theorem ordered_debuggedIds (db : Database) (rs : RandomState) :
    Ordered Int64.toInt (debuggedIds db) (orderDesc id (rs.order (debuggedIds db))) where
  perm := perm_orderDesc.trans (rs.perm _)
  pairwise := by
    have h := pairwise_orderDesc (f := id) (l := rs.order (debuggedIds db))
    exact h.imp (fun hle => Int64.le_iff_toInt_le.mp hle)

theorem mem_debuggedIds {db : Database} {blockId : Int64} : blockId ∈ debuggedIds db ↔
    ∃ info ∈ db.debugTemplateSelection.rows, info.blockId = blockId := by
  rw [debuggedIds, List.mem_dedup, List.mem_map]

theorem debuggedIds_subset {db : Database} (hkeys : Keys db) : debuggedIds db ⊆ db.blockIds := by
  intro id hid
  obtain ⟨info, hinfo, rfl⟩ := mem_debuggedIds.mp hid
  exact hkeys.foreignKeys.debug info hinfo

/-- An entry has all debug records of its block that there were. -/
def HasInfos (db : Database) (e : DebugTemplateSelectionInfosAndBlock) : Prop :=
  ∀ info ∈ db.debugTemplateSelection.rows, info.blockId = e.block.id → info ∈ e.infos

/-- A page is cut from the blocks with debug records, and each of its entries has them all. -/
def CutsDebug (dbs : σ → Database) (n : UInt32) (k : σ)
    (answer : List DebugTemplateSelectionInfosAndBlock × UInt32) (t : σ) : Prop :=
  CutsPage dbs MAX_BLOCKS_PER_PAGE pagesFor debuggedIds (fun e => e.block.id) Int64.toInt n k
    answer t ∧ ∀ e ∈ answer.1, HasInfos (dbs k) e

theorem ensures_debugPage (h : Historic dbs) (hkeys : ∀ i, Keys (dbs i)) (n : UInt32) (k : σ) :
    Ensures (reporting dbs) (debugTemplateSelectionInfos n) k (Loads (CutsDebug dbs n k)) := by
  refine (ensures_reported (s := .debugBlockIds n) (fun _ _ => rfl) k).andThen
    (fun ids t₁ hids => ?_) (fun _ _ _ h _ => h)
  refine (ensures_reported (s := .debugInfos ids) (fun _ _ => rfl) t₁).andThen
    (fun infos t₂ hinfos => ?_) (fun _ _ _ h _ => h)
  refine (ensures_reported (s := .debugBlocks ids) (fun _ _ => rfl) t₂).andThen
    (fun blocks t₃ hblocks => ?_) (fun _ _ _ h _ => h)
  refine (ensures_reported (s := .debugBlockCount) (fun _ _ => rfl) t₃).andThen
    (fun counts t₄ hcounts => ?_) (fun _ _ _ h _ => h)
  obtain ⟨i, rs, hki, hi, rfl⟩ := hids
  obtain ⟨a, rsa, ha, ha', rfl⟩ := hinfos
  obtain ⟨m, rsm, hm, hm', rfl⟩ := hblocks
  obtain ⟨j, -, hj, hj', rfl⟩ := hcounts
  have hs := ordered_debuggedIds (dbs i) rs
  have him : i ≤ m := hi.trans ((ha.trans ha').trans hm)
  refine .done (fun u hu => ⟨⟨i, j, _, hki, him.trans (hm'.trans hj), hj'.trans hu, hs, ?_, rfl⟩,
    fun e hentry => ?_⟩)
  · rw [List.map_map]
    refine (perm_orderDesc.map _).trans (((rsm.perm _).map _).trans ?_)
    refine h.picked_ids_perm ?_ (fun id hid => ?_)
    · exact page_sublist.nodup (hs.perm.nodup_iff.mpr (List.nodup_dedup _))
    · exact (h.archived i m him).blockIds
        (debuggedIds_subset (hkeys i) (hs.perm.mem_iff.mp (page_subset hid)))
  · obtain ⟨b, hb, rfl⟩ := List.mem_map.mp hentry
    intro info hinfo hid
    have hlater := (h.archived k a (hki.trans (hi.trans ha))).debug.subset hinfo
    have hb := (List.mem_filter.mp (rsm.mem_order.mp (mem_orderDesc.mp hb))).2
    refine List.mem_filter.mpr ⟨mem_orderDesc.mpr (rsa.mem_order.mpr (List.mem_filter.mpr
      ⟨hlater, ?_⟩)), decide_eq_true hid⟩
    rw [hid]
    exact hb

end Debug

section Walks

variable {S : Signature} {ε : Type} {E : Environment S σ}

/-- Nobody who goes through all pages of the debug records misses one that was there from the
start. -/
def MissesNoDebug (E : Environment S σ) (dbs : σ → Database)
    (q : UInt32 → Prog S (Except ε (List DebugTemplateSelectionInfosAndBlock × UInt32))) : Prop :=
  ∀ walk : Walk E q, ∀ info ∈ (dbs (walk.begun 0)).debugTemplateSelection.rows,
    ∃ n ≤ walk.last, ∃ e ∈ walk.entries n, e.block.id = info.blockId ∧ info ∈ e.infos

def MissesNoScan (E : Environment S σ) (dbs : σ → Database)
    (q : UInt32 → Prog S (Except ε (List SanctionedUtxoScanInfo × UInt32))) : Prop :=
  ∀ walk : Walk E q, ∀ info ∈ (dbs (walk.begun 0)).sanctionedUtxoScanInfo.rows, walk.Shows id info

variable (h : Historic dbs) (hE : ∀ i j, E.drift i j → i ≤ j)
include h hE

theorem missesNoDebug_of_cutsDebug
    {q : UInt32 → Prog S (Except ε (List DebugTemplateSelectionInfosAndBlock × UInt32))}
    (hq : ∀ n k, Ensures E (q n) k (OnOk (CutsDebug dbs n k))) (hkeys : ∀ i, Keys (dbs i))
    (hlt : ∀ i, (dbs i).block.rows.length < 2 ^ 24) : MissesNoDebug E dbs q := by
  intro walk info hinfo
  have hcut : ∀ n k, Ensures E (q n) k (OnOk (CutsPage dbs MAX_BLOCKS_PER_PAGE pagesFor debuggedIds
      (fun e => e.block.id) Int64.toInt n k)) := by
    refine fun n k => (hq n k).mono (fun r t hr => ?_)
    cases r with
    | ok answer => exact hr.1
    | error e => trivial
  have hmem : info.blockId ∈ debuggedIds (dbs (walk.begun 0)) :=
    mem_debuggedIds.mpr ⟨info, hinfo, rfl⟩
  have hle : ∀ i, (debuggedIds (dbs i)).length < 2 ^ 24 := by
    intro i
    have hlen := (List.subperm_of_subset (List.nodup_dedup _)
      (debuggedIds_subset (hkeys i))).length_le
    rw [Database.blockIds, List.length_map] at hlen
    exact hlen.trans_lt (hlt i)
  obtain ⟨n, hn, e, he, hid⟩ : walk.Shows (fun e => e.block.id) info.blockId := by
    refine walk.shows_of_mem hE (Nat.succ_pos 24) hcut (fun i j hij => ?_)
      (fun _ => List.nodup_dedup _) (fun i p hp => le_of_pagesFor (hle i) hp) hmem
      (fun _ b _ he => Int64.toInt_inj.mp he)
    intro id hid
    obtain ⟨info, hinfo, rfl⟩ := mem_debuggedIds.mp hid
    exact mem_debuggedIds.mpr ⟨info, (h.archived i j hij).debug.subset hinfo, rfl⟩
  obtain ⟨tr, hx⟩ := walk.answered n hn
  have hinfos : HasInfos (dbs (walk.begun n)) e := (hq _ _ tr _ _ hx).2 e he
  have hlater := (h.archived _ _ (walk.begun_le hE hcut hn)).debug.subset hinfo
  exact ⟨n, hn, e, he, hid, hinfos info hlater hid.symm⟩

theorem missesNoScan_of_cutsScans
    {q : UInt32 → Prog S (Except ε (List SanctionedUtxoScanInfo × UInt32))}
    (hq : ∀ n k, Ensures E (q n) k (OnOk (CutsScans dbs n k)))
    (hscans : ∀ i, (dbs i).sanctionedUtxoScanInfo.rows.length < 2 ^ 24) :
    MissesNoScan E dbs q := by
  intro walk info hinfo
  refine walk.shows_of_mem hE (Nat.succ_pos 99) hq
    (fun i j hij => (h.archived i j hij).scanInfos.subset)
    (fun i => .of_map _ (dbs i).sanctionedUtxoScanInfo.nodup)
    (fun i p hp => (maxScanPages_le_iff (hscans i) p).mp hp) hinfo ?_
  exact fun ha b hb he => Table.row_unique _ hb ha he

end Walks

section Runs

variable {lib : Crates} {allowed : Thread → Job → World lib → Prop} {P : World lib → Prop}

theorem length_scanInfos_le (ρ : ThreadRun lib .reorganises allowed P) (i : Fin (ρ.length + 1)) :
    (databases ρ i).sanctionedUtxoScanInfo.rows.length ≤
      ρ.last.world.db.sanctionedUtxoScanInfo.rows.length :=
  (archived_of_run Drift.keepsDb_reorganises ρ (Nat.le_of_lt_succ i.2) le_rfl).scanInfos.length_le

end Runs

end MiningpoolObserver.ReportWalks
