import MiningpoolObserver.CommitMarker
import MiningpoolObserver.ReportWalks

namespace MiningpoolObserver.WholePages

open MiningpoolObserver.Library MiningpoolObserver.Library.CallTree
open MiningpoolObserver.Library.HashCollections MiningpoolObserver.Library.KeyedTable
open MiningpoolObserver.Library.Queries
open MiningpoolObserver.Bitcoin MiningpoolObserver.DaemonModel MiningpoolObserver.SharedModel
open MiningpoolObserver.Db MiningpoolObserver.Daemon MiningpoolObserver.Process
open MiningpoolObserver.ProcessSpec MiningpoolObserver.BuiltRecords MiningpoolObserver.Threads
open MiningpoolObserver.Web MiningpoolObserver.Reports MiningpoolObserver.PageSafety
open MiningpoolObserver.Listings MiningpoolObserver.Archive MiningpoolObserver.BlockPages
open MiningpoolObserver.ReportWalks MiningpoolObserver.CommitMarker
open MiningpoolObserver.SanctionCounts

variable {lib : Crates} {allowed : Thread → Job → World lib → Prop}
variable {σ : Type} [Preorder σ] {dbs : σ → Database} {i j k : σ}

/-- A block page and its entry among the debug records show what one call of process has built. -/
structure ShowsRecords (p : BlockWithTx) (infos : List DebugTemplateSelectionInfo) (b : NewBlock)
    (r : Records) : Prop where
  block : { p.block.toNewBlock with poolName := b.poolName } = b
  template : (p.txnsOnlyInTemplate.map Prod.fst).Perm r.onlyInTemplate
  onlyInBlock : (p.txnsOnlyInBlock.map Prod.fst).Perm r.onlyInBlock
  infos : infos ⊆ r.debugInfos

/-- The block of an entry had debug records when they were read, and the entry has some of them. -/
theorem ensures_entries (hd : ∀ i j, i ≤ j → Archived (dbs i) (dbs j)) (n : UInt32) (k : σ) :
    Ensures (reporting dbs) (debugTemplateSelectionInfos n) k (fun r t => ∀ entries pages,
      r = .ok (entries, pages) → ∀ e ∈ entries, Marked (dbs t) e.block.id ∧
        e.infos ⊆ debugRowsOf (dbs t) e.block.id) := by
  refine (ensures_reported (s := .debugBlockIds n) (fun _ _ => rfl) k).andThen
    (fun ids t₁ hids => ?_) (fun _ _ _ _ _ _ _ he => by cases he)
  refine (ensures_reported (s := .debugInfos ids) (fun _ _ => rfl) t₁).andThen
    (fun infos t₂ hinfos => ?_) (fun _ _ _ _ _ _ _ he => by cases he)
  refine (ensures_reported (s := .debugBlocks ids) (fun _ _ => rfl) t₂).andThen
    (fun blocks t₃ hblocks => ?_) (fun _ _ _ _ _ _ _ he => by cases he)
  refine (ensures_reported (s := .debugBlockCount) (fun _ _ => rfl) t₃).andThen
    (fun counts t₄ hcounts => ?_) (fun _ _ _ _ _ _ _ he => by cases he)
  refine .done (fun t ht entries pages he e hentry => ?_)
  obtain ⟨i, rs, -, hi, rfl⟩ := hids
  obtain ⟨a, rsa, ha, ha', rfl⟩ := hinfos
  obtain ⟨m, rsm, hm, hm', rfl⟩ := hblocks
  obtain ⟨j, -, hj, hj', rfl⟩ := hcounts
  have hat : a ≤ t := ha'.trans (hm.trans (hm'.trans (hj.trans (hj'.trans ht))))
  have hit : i ≤ t := hi.trans (ha.trans hat)
  obtain ⟨rfl, -⟩ := Prod.mk.inj (Except.ok.inj he)
  obtain ⟨b, hb, rfl⟩ := List.mem_map.mp hentry
  refine ⟨?_, fun info hinfo => ?_⟩
  · have hid := (List.mem_filter.mp (rsm.mem_order.mp (mem_orderDesc.mp hb))).2
    have hid := (ordered_debuggedIds (dbs i) rs).perm.mem_iff.mp
      (page_subset (of_decide_eq_true hid))
    obtain ⟨info, hinfo, hid⟩ := mem_debuggedIds.mp hid
    exact ⟨info, (hd i t hit).debug.subset hinfo, hid⟩
  · obtain ⟨hinfo, hid⟩ := List.mem_filter.mp hinfo
    have hinfo := (List.mem_filter.mp (rsa.mem_order.mp (mem_orderDesc.mp hinfo))).1
    exact List.mem_filter.mpr ⟨(hd a t hat).debug.subset hinfo, hid⟩

theorem rows_onlyInTemplate {db : Database} (hf : db.ForeignKeys) {rs : RandomState}
    {blockId : Int64} {rows : List (TransactionOnlyInTemplate × SharedModel.Transaction)}
    (h : (Select.transactionOnlyInTemplateByBlockId blockId).exec db rs = .ok rows) :
    (rows.map Prod.fst).Perm (Part.onlyInTemplate.rowsOf db blockId) := by
  cases h
  refine ((perm_orderAsc.trans (rs.perm _)).map Prod.fst).trans (List.Perm.of_eq ?_)
  exact map_fst_innerJoin_key (fun row hrow =>
    (Database.references_iff.mp (hf.onlyInTemplate row (List.mem_of_mem_filter hrow))).2)

theorem rows_onlyInBlock {db : Database} (hf : db.ForeignKeys) {rs : RandomState}
    {blockId : Int64} {rows : List (TransactionOnlyInBlock × SharedModel.Transaction)}
    (h : (Select.transactionOnlyInBlockByBlockId blockId).exec db rs = .ok rows) :
    (rows.map Prod.fst).Perm (Part.onlyInBlock.rowsOf db blockId) := by
  cases h
  refine ((perm_orderAsc.trans (rs.perm _)).map Prod.fst).trans (List.Perm.of_eq ?_)
  exact map_fst_innerJoin_key (fun row hrow =>
    (Database.references_iff.mp (hf.onlyInBlock row (List.mem_of_mem_filter hrow))).2)

variable (lib allowed) in
/-- Whoever opens the page of a block that the debug records have shown sees all that one call of
process has built for the block, and the debug records were of the same call. -/
def AgreesWithDebug (dbs : σ → Database) : Prop :=
  ∀ n i tr entries pages j,
    Exec (reporting dbs) (debugTemplateSelectionInfos n) i tr (.ok (entries, pages)) j →
    ∀ e ∈ entries, ∀ blockHash i' tr' p j', j ≤ i' →
      Exec (reading dbs) (blockWithTx blockHash) i' tr' (.ok p) j' → p.block.id = e.block.id →
      ∃ d w rs network block fees lt c s b r, allowed d (.process rs network block fees lt) w ∧
        Computes lib rs network block fees lt c s b p.block.id r ∧ ShowsRecords p e.infos b r

theorem agreesWithDebug_of_marking (h : Marking lib allowed dbs) :
    AgreesWithDebug lib allowed dbs := by
  intro n i tr entries pages j hdebug e he blockHash i' tr' p j' hj hx hid
  obtain ⟨hm, hinfos⟩ := ensures_entries h.archived n i tr _ j hdebug _ _ rfl e he
  obtain ⟨k₁, k₂, k₃, hk₁, h₂, h₂₃, -, hread⟩ := exec_blockWithTx hx
  obtain ⟨rs₂, hrows⟩ := hread.onlyInTemplate
  obtain ⟨rs₃, hrows'⟩ := hread.onlyInBlock
  have h₃ : k₁ ≤ k₃ := h₂.trans h₂₃
  rw [← hid] at hm hinfos
  obtain ⟨hsame, -⟩ := h.final j k₁ (hj.trans hk₁) p.block.id hm
  have hm₁ : Marked (dbs k₁) p.block.id := by rwa [marked_iff_ne_nil, hsame, ← marked_iff_ne_nil]
  obtain ⟨d, w', rs, network, block, fees, lt, c, s, b', r, hd, hr, hcomplete⟩ :=
    h.upheld k₁ p.block hread.mem hm₁
  refine ⟨d, w', rs, network, block, fees, lt, c, s, b', r, hd, hr, hcomplete.block, ?_, ?_, ?_⟩
  · refine (rows_onlyInTemplate (h.keys k₂).foreignKeys hrows).trans (List.Perm.of_eq ?_)
    rw [(h.final k₁ k₂ h₂ p.block.id hm₁).2]
    exact hcomplete.parts .onlyInTemplate
  · refine (rows_onlyInBlock (h.keys k₃).foreignKeys hrows').trans (List.Perm.of_eq ?_)
    rw [(h.final k₁ k₃ h₃ p.block.id hm₁).2]
    exact hcomplete.parts .onlyInBlock
  · rw [← hsame] at hinfos
    intro info hinfo
    obtain ⟨hinfo, hinfoId⟩ := List.mem_filter.mp (hinfos hinfo)
    exact hcomplete.debug info hinfo (of_decide_eq_true hinfoId)

/-- Also while the daemon writes. -/
theorem agrees_with_debug (ρ : ThreadRun lib .reorganises allowed (Restarted lib allowed)) :
    AgreesWithDebug lib allowed (databases ρ) :=
  agreesWithDebug_of_marking (marking_of_run ρ)

theorem agrees_with_debug_overlap : ∃ ρ : OverlapRun (Restarted decoding (fun _ _ _ => True)),
    (∃ b ∈ ρ.last.world.db.block.rows, Marked ρ.last.world.db b.id) ∧
      AgreesWithDebug decoding (fun _ _ _ => True) (databases ρ) := by
  obtain ⟨ρ, hm⟩ := exists_markedRun
  exact ⟨ρ, hm, agrees_with_debug ρ⟩

end MiningpoolObserver.WholePages
