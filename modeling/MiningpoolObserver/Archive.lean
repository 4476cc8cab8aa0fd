import MiningpoolObserver.PageSafety

namespace MiningpoolObserver.Archive

open MiningpoolObserver.Library MiningpoolObserver.Library.KeyedTable
open MiningpoolObserver.Library.KeyedTable.Table
open MiningpoolObserver.Bitcoin MiningpoolObserver.SharedModel MiningpoolObserver.Db
open MiningpoolObserver.Daemon MiningpoolObserver.Threads MiningpoolObserver.PageSafety

variable {db db' db'' : Database} {s : Statement}

/-- What was recorded stays as it was, but for the name of a pool and for tags. -/
structure Archived (db db' : Database) : Prop where
  blocks : ∀ row ∈ db.block.rows, ∃ poolName : String,
    { row with poolName := poolName } ∈ db'.block.rows
  transactions : ∀ row ∈ db.transaction.rows, ∃ tags : List Int,
    { row with tags := tags } ∈ db'.transaction.rows
  onlyInBlock : db.transactionOnlyInBlock.rows <+: db'.transactionOnlyInBlock.rows
  onlyInTemplate : db.transactionOnlyInTemplate.rows <+: db'.transactionOnlyInTemplate.rows
  sanctionedInfos : db.sanctionedTransactionInfo.rows <+: db'.sanctionedTransactionInfo.rows
  conflicting : db.conflictingTransactions.rows <+: db'.conflictingTransactions.rows
  debug : db.debugTemplateSelection.rows <+: db'.debugTemplateSelection.rows
  scanInfos : db.sanctionedUtxoScanInfo.rows <+: db'.sanctionedUtxoScanInfo.rows

theorem Archived.refl (db : Database) : Archived db db where
  blocks row hrow := ⟨row.poolName, hrow⟩
  transactions row hrow := ⟨row.tags, hrow⟩
  onlyInBlock := List.prefix_refl _
  onlyInTemplate := List.prefix_refl _
  sanctionedInfos := List.prefix_refl _
  conflicting := List.prefix_refl _
  debug := List.prefix_refl _
  scanInfos := List.prefix_refl _

theorem Archived.trans (h : Archived db db') (h' : Archived db' db'') : Archived db db'' where
  blocks row hrow := by
    obtain ⟨poolName, hrow'⟩ := h.blocks row hrow
    obtain ⟨poolName', hrow''⟩ := h'.blocks _ hrow'
    exact ⟨poolName', hrow''⟩
  transactions row hrow := by
    obtain ⟨tags, hrow'⟩ := h.transactions row hrow
    obtain ⟨tags', hrow''⟩ := h'.transactions _ hrow'
    exact ⟨tags', hrow''⟩
  onlyInBlock := h.onlyInBlock.trans h'.onlyInBlock
  onlyInTemplate := h.onlyInTemplate.trans h'.onlyInTemplate
  sanctionedInfos := h.sanctionedInfos.trans h'.sanctionedInfos
  conflicting := h.conflicting.trans h'.conflicting
  debug := h.debug.trans h'.debug
  scanInfos := h.scanInfos.trans h'.scanInfos

theorem Archived.blockIds (h : Archived db db') : db.blockIds ⊆ db'.blockIds := by
  intro id hid
  obtain ⟨row, hrow, rfl⟩ := List.mem_map.mp hid
  obtain ⟨poolName, hrow'⟩ := h.blocks row hrow
  exact List.mem_map.mpr ⟨_, hrow', rfl⟩

theorem kept_of_appended {α : Type} {insert : List α → Statement} {valid : α → Prop}
    {rows rows' : List α} (h : Appended insert valid s rows rows') : rows <+: rows' := by
  cases h with
  | same _ he => exact he ▸ List.prefix_refl _
  | added _ _ he => exact he ▸ List.prefix_append _ _

/-- A debug record is skipped when the table has one for its block and time. -/
theorem debug_of_succeeds {r : s.Result} (h : s.Succeeds db r db') :
    db.debugTemplateSelection.rows <+: db'.debugTemplateSelection.rows := by
  by_cases ht : s.target = some .debugTemplateSelection
  · obtain ⟨blockId, r₀, hx, -⟩ := h
    cases s with
    | insertDebugTemplateSelectionInfos infos =>
      simp only [Statement.exec] at hx
      split at hx
      · cases hx
        rw [rows_insertNew]
        exact List.prefix_append _ _
      · cases hx
    | _ => cases ht
  · rw [(kept_of_succeeds h).debug ht]

theorem scanInfos_of_succeeds {r : s.Result} (h : s.Succeeds db r db') :
    db.sanctionedUtxoScanInfo.rows <+: db'.sanctionedUtxoScanInfo.rows := by
  by_cases hr : s.Reads
  · rw [hr.succeeds h]
  obtain ⟨blockId, r₀, hx, -⟩ := h
  cases s with
  | insertSanctionedUtxoScanInfo info =>
    cases hx
    rw [rows_insertNew]
    exact List.prefix_append _ _
  | insertBlock b =>
    simp only [Statement.exec] at hx
    split at hx
    · cases hx
    · split at hx <;> cases hx
      exact List.prefix_refl _
  | insertDebugTemplateSelectionInfos infos =>
    simp only [Statement.exec] at hx
    split at hx <;> cases hx
    exact List.prefix_refl _
  | insertTransactions _ | updateTransactionTags _ _ | updatePoolNameWithBlockId _ _
  | insertSanctionedUtxos _ =>
    cases hx
    exact List.prefix_refl _
  | insertTransactionsOnlyInBlock _ | insertTransactionsOnlyInTemplate _
  | insertSanctionedTransactionInfos _ | insertConflictingTransactions _
  | cleanAndInsertSanctionedUtxos _ | replaceSanctionedAddresses _ =>
    obtain ⟨-, u, -, rfl⟩ := Database.insertRows_eq_ok_iff.mp hx
    exact List.prefix_refl _
  | selectTransactionTags _ | getSanctionedUtxos | allTransactions | sanctionedAddresses
  | unknownPoolBlocks => exact absurd trivial hr

theorem blocks_of_succeeds {r : s.Result} (h : s.Succeeds db r db') {row : SharedModel.Block}
    (hrow : row ∈ db.block.rows) :
    ∃ poolName : String, { row with poolName := poolName } ∈ db'.block.rows := by
  obtain ⟨row', hrow', rfl | ⟨blockId, newPoolName, rfl⟩⟩ := exists_row_of_succeeds h hrow
  · exact ⟨row'.poolName, hrow'⟩
  · by_cases hid : row.id = blockId
    · exact ⟨newPoolName, by simpa only [setPoolName, if_pos hid] using hrow'⟩
    · exact ⟨row.poolName, by simpa only [setPoolName, if_neg hid] using hrow'⟩

theorem transactions_of_succeeds {r : s.Result} (h : s.Succeeds db r db')
    {row : SharedModel.Transaction} (hrow : row ∈ db.transaction.rows) :
    ∃ tags : List Int, { row with tags := tags } ∈ db'.transaction.rows := by
  cases transactionChange_of_succeeds h with
  | none _ _ ht => exact ⟨row.tags, ht ▸ hrow⟩
  | insert ht =>
    refine ⟨row.tags, ?_⟩
    rw [ht, rows_insertNew]
    exact List.mem_append_left _ hrow
  | @update newTags txid _ hrows =>
    have hrow' : setTags newTags txid row ∈ db'.transaction.rows := hrows ▸ List.mem_map_of_mem hrow
    by_cases hid : row.txid = txid
    · exact ⟨newTags, by simpa only [setTags, if_pos hid] using hrow'⟩
    · exact ⟨row.tags, by simpa only [setTags, if_neg hid] using hrow'⟩

/-- No statement of the daemon removes or rewrites what was recorded. -/
theorem archived_of_succeeds {r : s.Result} (h : s.Succeeds db r db') : Archived db db' where
  blocks _ := blocks_of_succeeds h
  transactions _ := transactions_of_succeeds h
  onlyInBlock := kept_of_appended (onlyInBlock_appended h)
  onlyInTemplate := kept_of_appended (onlyInTemplate_appended h)
  sanctionedInfos := kept_of_appended (sanctionedInfos_appended h)
  conflicting := kept_of_appended (conflicting_appended h)
  debug := debug_of_succeeds h
  scanInfos := scanInfos_of_succeeds h

section Runs

variable {lib : Crates} {D : Drift lib} {allowed : Thread → Job → World lib → Prop}
variable {P : World lib → Prop}

theorem archived_of_step (hD : D.KeepsDb) {C C' : Config lib} {l : Label lib}
    (h : Tasks.Step (system lib D allowed) C l C') : Archived C.world.db C'.world.db :=
  relates_of_step hD Archived.refl archived_of_succeeds h

theorem archived_of_run (hD : D.KeepsDb) (ρ : ThreadRun lib D allowed P) {i j : ℕ} (hij : i ≤ j)
    (hj : j ≤ ρ.length) : Archived (ρ.state i).world.db (ρ.state j).world.db :=
  ρ.relation (R := fun C C' => Archived C.world.db C'.world.db) (fun _ => .refl _)
    (fun _ _ _ => .trans) (fun k hk => archived_of_step hD (ρ.steps k hk)) hij hj

/-- The later of two databases of a run has everything that the earlier one has. -/
def RecordsKept (ρ : ThreadRun lib D allowed P) : Prop :=
  ∀ i j, i ≤ j → j ≤ ρ.length → Archived (ρ.state i).world.db (ρ.state j).world.db

/-- Whatever work the threads begin, in whatever order their statements reach the database, no
record is lost. -/
theorem records_kept (ρ : ThreadRun lib .reorganises allowed P) : RecordsKept ρ :=
  fun _ _ hij hj => archived_of_run Drift.keepsDb_reorganises ρ hij hj

end Runs

end MiningpoolObserver.Archive
