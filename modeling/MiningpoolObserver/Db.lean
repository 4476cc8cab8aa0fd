import Mathlib.Data.List.Sort
import MiningpoolObserver.Library.KeyedTable
import MiningpoolObserver.SharedModel

namespace MiningpoolObserver.Db

open MiningpoolObserver.Library.KeyedTable MiningpoolObserver.Library.KeyedTable.Table
open MiningpoolObserver.Bitcoin MiningpoolObserver.SharedModel

/-- The tables of the migrations with their primary keys. -/
structure Database where
  block : Table SharedModel.Block (List UInt8) (fun b => b.hash)
  transaction : Table SharedModel.Transaction (List UInt8) (fun t => t.txid)
  transactionOnlyInBlock :
    Table TransactionOnlyInBlock (Int64 × List UInt8) (fun r => (r.blockId, r.transactionTxid))
  transactionOnlyInTemplate :
    Table TransactionOnlyInTemplate (Int64 × List UInt8) (fun r => (r.blockId, r.transactionTxid))
  sanctionedTransactionInfo :
    Table SanctionedTransactionInfo (Int64 × List UInt8) (fun r => (r.blockId, r.transactionTxid))
  conflictingTransactions :
    Table ConflictingTransaction (Int64 × List (List UInt8) × List (List UInt8))
      (fun r => (r.blockId, r.templateTxids, r.blockTxids))
  sanctionedUtxo : Table SanctionedUtxo (List UInt8 × Int32) (fun r => (r.txid, r.vout))
  sanctionedUtxoScanInfo : Table SanctionedUtxoScanInfo NaiveDateTime (fun r => r.endTime)
  debugTemplateSelection :
    Table DebugTemplateSelectionInfo (Int64 × NaiveDateTime) (fun r => (r.blockId, r.templateTime))
  sanctionedAddresses : Table SanctionedAddress String (fun r => r.address)

def Database.empty : Database :=
  ⟨.empty, .empty, .empty, .empty, .empty, .empty, .empty, .empty, .empty, .empty⟩

inductive DbError where
  | uniqueViolation
  | foreignKeyViolation
  | notFound
  | other
deriving DecidableEq

/-- The SQL statements of db.rs. The two that run in a transaction of their own count as one. -/
inductive Statement where
  | insertBlock (b : NewBlock)
  /-- `ON CONFLICT DO NOTHING RETURNING txid`. -/
  | insertTransactions (txns : List SharedModel.Transaction)
  | selectTransactionTags (txid : List UInt8)
  | updateTransactionTags (newTags : List Int) (txid : List UInt8)
  | insertTransactionsOnlyInBlock (txns : List TransactionOnlyInBlock)
  | insertTransactionsOnlyInTemplate (txns : List TransactionOnlyInTemplate)
  | insertSanctionedTransactionInfos (infos : List SanctionedTransactionInfo)
  | insertConflictingTransactions (ctxns : List ConflictingTransaction)
  | cleanAndInsertSanctionedUtxos (utxos : List SanctionedUtxo)
  | insertSanctionedUtxos (utxos : List SanctionedUtxo)
  | insertSanctionedUtxoScanInfo (info : SanctionedUtxoScanInfo)
  | getSanctionedUtxos
  | insertDebugTemplateSelectionInfos (infos : List DebugTemplateSelectionInfo)
  | replaceSanctionedAddresses (addr : List SanctionedAddress)
  | allTransactions
  | sanctionedAddresses
  | unknownPoolBlocks
  | updatePoolNameWithBlockId (blockId : Int64) (newPoolName : String)

/-- What a statement returns when it succeeds. -/
abbrev Statement.Result : Statement → Type
  | .insertBlock _ => Int64
  | .insertTransactions _ => List (List UInt8)
  | .selectTransactionTags _ => List Int
  | .getSanctionedUtxos => Table SanctionedUtxo (List UInt8 × Int32) (fun r => (r.txid, r.vout))
  | .allTransactions => Table SharedModel.Transaction (List UInt8) (fun t => t.txid)
  | .sanctionedAddresses => Table SanctionedAddress String (fun r => r.address)
  | .unknownPoolBlocks => List SharedModel.Block
  | _ => Unit

namespace Database

variable (db : Database)

def blockIds : List Int64 := db.block.rows.map (fun b => b.id)

/-- Both references of a detail row point to rows that exist. -/
def references (blockId : Int64) (transactionTxid : List UInt8) : Bool :=
  decide (blockId ∈ db.blockIds) && db.transaction.has transactionTxid

variable {α κ : Type} {key : α → κ} [DecidableEq κ]

/-- Insert rows whose references are valid, and put the table back. -/
def insertRows (t : Table α κ key) (valid : α → Bool) (rs : List α)
    (put : Table α κ key → Database) : Except DbError (Unit × Database) :=
  if rs.all valid then
    match t.insert rs with
    | some u => .ok ((), put u)
    | none => .error .uniqueViolation
  else .error .foreignKeyViolation

theorem insertRows_eq_ok_iff {t : Table α κ key} {valid : α → Bool} {rs : List α}
    {put : Table α κ key → Database} {db' : Database} :
    insertRows t valid rs put = .ok ((), db') ↔
      (∀ r ∈ rs, valid r) ∧ ∃ u, t.insert rs = some u ∧ db' = put u := by
  unfold insertRows
  by_cases hv : rs.all valid = true
  · rw [if_pos hv]
    have hv' := List.all_eq_true.mp hv
    cases h : t.insert rs with
    | none => simp
    | some u =>
      simp only [Except.ok.injEq, Prod.mk.injEq, true_and, Option.some.injEq, exists_eq_left']
      exact ⟨fun hu => ⟨hv', hu.symm⟩, fun hu => hu.2.symm⟩
  · rw [if_neg hv]
    have hv' : ¬ ∀ r ∈ rs, valid r = true := fun h => hv (List.all_eq_true.mpr h)
    simp [hv']

theorem rows_of_insertRows {t : Table α κ key} {valid : α → Bool} {rs : List α}
    {put : Table α κ key → Database} {u : Unit} {db' : Database}
    (h : insertRows t valid rs put = .ok (u, db')) :
    (∀ r ∈ rs, valid r) ∧ ∃ t', t'.rows = t.rows ++ rs ∧ db' = put t' := by
  obtain ⟨hv, t', ht, rfl⟩ := insertRows_eq_ok_iff.mp h
  exact ⟨hv, t', rows_of_insert ht, rfl⟩

/-- The references of the migrations. -/
structure ForeignKeys : Prop where
  onlyInBlock : ∀ row ∈ db.transactionOnlyInBlock.rows,
    db.references row.blockId row.transactionTxid
  onlyInTemplate : ∀ row ∈ db.transactionOnlyInTemplate.rows,
    db.references row.blockId row.transactionTxid
  sanctionedInfos : ∀ row ∈ db.sanctionedTransactionInfo.rows,
    db.references row.blockId row.transactionTxid
  conflicting : ∀ row ∈ db.conflictingTransactions.rows, row.blockId ∈ db.blockIds
  debug : ∀ row ∈ db.debugTemplateSelection.rows, row.blockId ∈ db.blockIds

variable {db} in
theorem references_iff {blockId : Int64} {txid : List UInt8} :
    db.references blockId txid = true ↔ blockId ∈ db.blockIds ∧ txid ∈ db.transaction.keys := by
  simp [references]

end Database

def setTags (newTags : List Int) (txid : List UInt8) (t : SharedModel.Transaction) :
    SharedModel.Transaction :=
  if t.txid = txid then { t with tags := newTags } else t

@[simp] theorem txid_setTags (newTags : List Int) (txid : List UInt8)
    (t : SharedModel.Transaction) : (setTags newTags txid t).txid = t.txid := by
  by_cases h : t.txid = txid <;> simp [setTags, h]

@[simp] theorem sanctioned_setTags (newTags : List Int) (txid : List UInt8)
    (t : SharedModel.Transaction) : (setTags newTags txid t).sanctioned = t.sanctioned := by
  by_cases h : t.txid = txid <;> simp [setTags, h]

def setPoolName (blockId : Int64) (newPoolName : String) (b : SharedModel.Block) :
    SharedModel.Block :=
  if b.id = blockId then { b with poolName := newPoolName } else b

@[simp] theorem hash_setPoolName (blockId : Int64) (newPoolName : String) (b : SharedModel.Block) :
    (setPoolName blockId newPoolName b).hash = b.hash := by
  by_cases h : b.id = blockId <;> simp [setPoolName, h]

@[simp] theorem id_setPoolName (blockId : Int64) (newPoolName : String) (b : SharedModel.Block) :
    (setPoolName blockId newPoolName b).id = b.id := by
  by_cases h : b.id = blockId <;> simp [setPoolName, h]

/-- Run one statement. `blockId` is the next value of the random id sequence. -/
def Statement.exec (blockId : Int64) (db : Database) :
    (s : Statement) → Except DbError (s.Result × Database)
  | .insertBlock b =>
    if blockId ∈ db.blockIds then .error .uniqueViolation
    else match db.block.insertRow { b with id := blockId } with
      | some t => .ok (blockId, { db with block := t })
      | none => .error .uniqueViolation
  | .insertTransactions txns =>
    .ok ((db.transaction.insertNew txns).2.map (fun t => t.txid),
      { db with transaction := (db.transaction.insertNew txns).1 })
  | .selectTransactionTags txid =>
    match db.transaction.find? txid with
    | some t => .ok (t.tags, db)
    | none => .error .notFound
  | .updateTransactionTags newTags txid =>
    .ok ((), { db with
      transaction := db.transaction.update (setTags newTags txid) (txid_setTags newTags txid) })
  | .insertTransactionsOnlyInBlock txns =>
    Database.insertRows db.transactionOnlyInBlock
      (fun r => db.references r.blockId r.transactionTxid) txns
      (fun t => { db with transactionOnlyInBlock := t })
  | .insertTransactionsOnlyInTemplate txns =>
    Database.insertRows db.transactionOnlyInTemplate
      (fun r => db.references r.blockId r.transactionTxid) txns
      (fun t => { db with transactionOnlyInTemplate := t })
  | .insertSanctionedTransactionInfos infos =>
    Database.insertRows db.sanctionedTransactionInfo
      (fun r => db.references r.blockId r.transactionTxid) infos
      (fun t => { db with sanctionedTransactionInfo := t })
  | .insertConflictingTransactions ctxns =>
    Database.insertRows db.conflictingTransactions (fun r => decide (r.blockId ∈ db.blockIds)) ctxns
      (fun t => { db with conflictingTransactions := t })
  | .cleanAndInsertSanctionedUtxos utxos =>
    Database.insertRows .empty (fun _ => true) utxos (fun t => { db with sanctionedUtxo := t })
  | .insertSanctionedUtxos utxos =>
    .ok ((), { db with sanctionedUtxo := (db.sanctionedUtxo.insertNew utxos).1 })
  | .insertSanctionedUtxoScanInfo info =>
    .ok ((), { db with sanctionedUtxoScanInfo := (db.sanctionedUtxoScanInfo.insertNew [info]).1 })
  | .getSanctionedUtxos => .ok (db.sanctionedUtxo, db)
  | .insertDebugTemplateSelectionInfos infos =>
    -- a conflict on the primary key is skipped, a missing block is not
    if infos.all (fun r => decide (r.blockId ∈ db.blockIds)) then
      .ok ((), { db with
        debugTemplateSelection := (db.debugTemplateSelection.insertNew infos).1 })
    else .error .foreignKeyViolation
  | .replaceSanctionedAddresses addr =>
    Database.insertRows .empty (fun _ => true) addr (fun t => { db with sanctionedAddresses := t })
  | .allTransactions => .ok (db.transaction, db)
  | .sanctionedAddresses => .ok (db.sanctionedAddresses, db)
  | .unknownPoolBlocks =>
    .ok ((db.block.rows.filter (fun b => b.poolName = "Unknown")).insertionSort
      (fun a b => b.blockTime ≤ a.blockTime), db)
  | .updatePoolNameWithBlockId id newPoolName =>
    .ok ((), { db with
      block := db.block.update (setPoolName id newPoolName) (hash_setPoolName id newPoolName) })

/-- A `SELECT` returns rows that its `ORDER BY` does not tell apart in any order. -/
def Statement.SameResult : (s : Statement) → s.Result → s.Result → Prop
  | .getSanctionedUtxos, r, r₀ => r.rows.Perm r₀.rows
  | .allTransactions, r, r₀ => r.rows.Perm r₀.rows
  | .sanctionedAddresses, r, r₀ => r.rows.Perm r₀.rows
  | .unknownPoolBlocks, r, r₀ =>
    List.Perm (α := SharedModel.Block) r r₀ ∧
      List.map (fun (b : SharedModel.Block) => b.blockTime) r = List.map (fun b => b.blockTime) r₀
  | _, r, r₀ => r = r₀

theorem Statement.SameResult.refl {s : Statement} {r : s.Result} : s.SameResult r r := by
  cases s <;> first | exact List.Perm.refl _ | exact Eq.refl r | exact ⟨List.Perm.refl _, rfl⟩

/-- The statement succeeds with this result and leaves this database. -/
def Statement.Succeeds (s : Statement) (db : Database) (r : s.Result) (db' : Database) : Prop :=
  ∃ blockId r₀, s.exec blockId db = .ok (r₀, db') ∧ s.SameResult r r₀

/-- The statements that only read. -/
def Statement.Reads : Statement → Prop
  | .selectTransactionTags _ | .getSanctionedUtxos | .allTransactions | .sanctionedAddresses
  | .unknownPoolBlocks => True
  | _ => False

theorem Statement.Reads.succeeds {s : Statement} (hs : s.Reads) {db db' : Database}
    {r : s.Result} (h : s.Succeeds db r db') : db' = db := by
  obtain ⟨blockId, r₀, h, -⟩ := h
  cases s with
  | selectTransactionTags txid =>
    simp only [Statement.exec] at h
    split at h
    · cases h
      rfl
    · cases h
  | getSanctionedUtxos | allTransactions | sanctionedAddresses | unknownPoolBlocks =>
    cases h
    rfl
  | _ => exact hs.elim

inductive TableName where
  | block
  | transaction
  | transactionOnlyInBlock
  | transactionOnlyInTemplate
  | sanctionedTransactionInfo
  | conflictingTransactions
  | sanctionedUtxo
  | sanctionedUtxoScanInfo
  | debugTemplateSelection
  | sanctionedAddresses
deriving DecidableEq

/-- The table that a statement writes to. -/
def Statement.target : Statement → Option TableName
  | .insertBlock _ | .updatePoolNameWithBlockId _ _ => some .block
  | .insertTransactions _ | .updateTransactionTags _ _ => some .transaction
  | .insertTransactionsOnlyInBlock _ => some .transactionOnlyInBlock
  | .insertTransactionsOnlyInTemplate _ => some .transactionOnlyInTemplate
  | .insertSanctionedTransactionInfos _ => some .sanctionedTransactionInfo
  | .insertConflictingTransactions _ => some .conflictingTransactions
  | .cleanAndInsertSanctionedUtxos _ | .insertSanctionedUtxos _ => some .sanctionedUtxo
  | .insertSanctionedUtxoScanInfo _ => some .sanctionedUtxoScanInfo
  | .insertDebugTemplateSelectionInfos _ => some .debugTemplateSelection
  | .replaceSanctionedAddresses _ => some .sanctionedAddresses
  | .selectTransactionTags _ | .getSanctionedUtxos | .allTransactions | .sanctionedAddresses
  | .unknownPoolBlocks => none

/-- Every other table is left alone. -/
structure Kept (db : Database) (target : Option TableName) (db' : Database) : Prop where
  block : target ≠ some .block → db'.block = db.block
  transaction : target ≠ some .transaction → db'.transaction = db.transaction
  onlyInBlock : target ≠ some .transactionOnlyInBlock →
    db'.transactionOnlyInBlock = db.transactionOnlyInBlock
  onlyInTemplate : target ≠ some .transactionOnlyInTemplate →
    db'.transactionOnlyInTemplate = db.transactionOnlyInTemplate
  sanctionedInfos : target ≠ some .sanctionedTransactionInfo →
    db'.sanctionedTransactionInfo = db.sanctionedTransactionInfo
  conflicting : target ≠ some .conflictingTransactions →
    db'.conflictingTransactions = db.conflictingTransactions
  debug : target ≠ some .debugTemplateSelection →
    db'.debugTemplateSelection = db.debugTemplateSelection
  utxos : target ≠ some .sanctionedUtxo → db'.sanctionedUtxo = db.sanctionedUtxo
  addresses : target ≠ some .sanctionedAddresses → db'.sanctionedAddresses = db.sanctionedAddresses

theorem Kept.refl {db : Database} {target : Option TableName} : Kept db target db :=
  ⟨fun _ => rfl, fun _ => rfl, fun _ => rfl, fun _ => rfl, fun _ => rfl, fun _ => rfl, fun _ => rfl,
    fun _ => rfl, fun _ => rfl⟩

theorem kept_of_succeeds {s : Statement} {r : s.Result} {db db' : Database}
    (h : s.Succeeds db r db') : Kept db s.target db' := by
  by_cases hr : s.Reads
  · rw [hr.succeeds h]
    exact .refl
  obtain ⟨blockId, r₀, hx, -⟩ := h
  cases s with
  | insertBlock b =>
    simp only [Statement.exec] at hx
    split at hx
    · cases hx
    · split at hx
      · cases hx
        exact { Kept.refl with block := fun hn => absurd rfl hn }
      · cases hx
  | updatePoolNameWithBlockId id newPoolName =>
    cases hx
    exact { Kept.refl with block := fun hn => absurd rfl hn }
  | insertTransactions _ | updateTransactionTags _ _ =>
    cases hx
    exact { Kept.refl with transaction := fun hn => absurd rfl hn }
  | insertTransactionsOnlyInBlock _ =>
    obtain ⟨-, u, -, rfl⟩ := Database.insertRows_eq_ok_iff.mp hx
    exact { Kept.refl with onlyInBlock := fun hn => absurd rfl hn }
  | insertTransactionsOnlyInTemplate _ =>
    obtain ⟨-, u, -, rfl⟩ := Database.insertRows_eq_ok_iff.mp hx
    exact { Kept.refl with onlyInTemplate := fun hn => absurd rfl hn }
  | insertConflictingTransactions _ =>
    obtain ⟨-, u, -, rfl⟩ := Database.insertRows_eq_ok_iff.mp hx
    exact { Kept.refl with conflicting := fun hn => absurd rfl hn }
  | cleanAndInsertSanctionedUtxos _ =>
    obtain ⟨-, u, -, rfl⟩ := Database.insertRows_eq_ok_iff.mp hx
    exact { Kept.refl with utxos := fun hn => absurd rfl hn }
  | insertSanctionedUtxos _ =>
    cases hx
    exact { Kept.refl with utxos := fun hn => absurd rfl hn }
  | replaceSanctionedAddresses _ =>
    obtain ⟨-, u, -, rfl⟩ := Database.insertRows_eq_ok_iff.mp hx
    exact { Kept.refl with addresses := fun hn => absurd rfl hn }
  | insertSanctionedTransactionInfos _ =>
    obtain ⟨-, u, -, rfl⟩ := Database.insertRows_eq_ok_iff.mp hx
    exact { Kept.refl with sanctionedInfos := fun hn => absurd rfl hn }
  | insertSanctionedUtxoScanInfo _ =>
    cases hx
    exact { Kept.refl with }
  | insertDebugTemplateSelectionInfos infos =>
    simp only [Statement.exec] at hx
    split at hx
    · cases hx
      exact { Kept.refl with debug := fun hn => absurd rfl hn }
    · cases hx
  | selectTransactionTags _ | getSanctionedUtxos | allTransactions | sanctionedAddresses
  | unknownPoolBlocks => exact absurd trivial hr

/-- What a statement can do to the transaction table. -/
inductive TransactionChange (db : Database) : Statement → Database → Prop
  | none {s : Statement} {db' : Database} : (∀ txns, s ≠ .insertTransactions txns) →
      (∀ newTags txid, s ≠ .updateTransactionTags newTags txid) →
      db'.transaction = db.transaction → TransactionChange db s db'
  | insert {txns : List SharedModel.Transaction} {db' : Database} :
      db'.transaction = (db.transaction.insertNew txns).1 →
      TransactionChange db (.insertTransactions txns) db'
  | update {newTags : List Int} {txid : List UInt8} {db' : Database} :
      db'.transaction.rows = db.transaction.rows.map (setTags newTags txid) →
      TransactionChange db (.updateTransactionTags newTags txid) db'

theorem transactionChange_of_succeeds {s : Statement} {r : s.Result} {db db' : Database}
    (h : s.Succeeds db r db') : TransactionChange db s db' := by
  by_cases ht : s.target = some .transaction
  · obtain ⟨blockId, r₀, hx, -⟩ := h
    cases s with
    | insertTransactions txns =>
      cases hx
      exact .insert rfl
    | updateTransactionTags newTags txid =>
      cases hx
      exact .update rfl
    | _ => cases ht
  · refine .none (fun txns hs => ?_) (fun newTags txid hs => ?_)
      ((kept_of_succeeds h).transaction ht)
    · exact ht (hs ▸ rfl)
    · exact ht (hs ▸ rfl)

/-- What a statement can do to the block table. -/
inductive BlockChange (db : Database) : (s : Statement) → s.Result → Database → Prop
  | none {s : Statement} {r : s.Result} {db' : Database} : s.target ≠ some .block →
      db'.block = db.block → BlockChange db s r db'
  | insert {b : NewBlock} {blockId : Int64} {db' : Database} : blockId ∉ db.blockIds →
      db'.block.rows = db.block.rows ++ [{ b with id := blockId }] →
      BlockChange db (.insertBlock b) blockId db'
  | rename {blockId : Int64} {newPoolName : String} {db' : Database} :
      db'.block.rows = db.block.rows.map (setPoolName blockId newPoolName) →
      BlockChange db (.updatePoolNameWithBlockId blockId newPoolName) () db'

theorem blockChange_of_succeeds {s : Statement} {r : s.Result} {db db' : Database}
    (h : s.Succeeds db r db') : BlockChange db s r db' := by
  by_cases ht : s.target = some .block
  · obtain ⟨blockId, r₀, hx, hr⟩ := h
    cases s with
    | insertBlock b =>
      simp only [Statement.exec] at hx
      split at hx
      · cases hx
      · rename_i hid
        split at hx
        · rename_i t ht
          cases hx
          obtain rfl : r = blockId := hr
          exact .insert hid ((insertRow_eq_some_iff _).mp ht).2
        · cases hx
    | updatePoolNameWithBlockId id newPoolName =>
      cases hx
      exact .rename rfl
    | _ => cases ht
  · exact .none ht ((kept_of_succeeds h).block ht)

/-- Block rows stay, some with another pool name. -/
theorem exists_row_of_succeeds {s : Statement} {r : s.Result} {db db' : Database}
    (h : s.Succeeds db r db') {row : SharedModel.Block} (hrow : row ∈ db.block.rows) :
    ∃ row' ∈ db'.block.rows,
      row' = row ∨ ∃ blockId newPoolName, row' = setPoolName blockId newPoolName row := by
  cases blockChange_of_succeeds h with
  | none _ hb => exact ⟨row, hb ▸ hrow, .inl rfl⟩
  | insert _ hrows => exact ⟨row, hrows ▸ List.mem_append_left _ hrow, .inl rfl⟩
  | rename hrows => exact ⟨_, hrows ▸ List.mem_map_of_mem hrow, .inr ⟨_, _, rfl⟩⟩

theorem nodup_blockIds_of_succeeds {s : Statement} {r : s.Result} {db db' : Database}
    (h : s.Succeeds db r db') (hnd : db.blockIds.Nodup) : db'.blockIds.Nodup := by
  unfold Database.blockIds at *
  cases blockChange_of_succeeds h with
  | none _ hb => rwa [hb]
  | insert hfresh hrows =>
    rw [hrows, List.map_append]
    exact hnd.append (List.nodup_singleton _) (by simpa [Database.blockIds] using hfresh)
  | rename hrows =>
    rw [hrows, List.map_map]
    simpa [Function.comp_def] using hnd

/-- Only one statement takes rows out of the table of sanctioned UTXOs, and only one touches the
address list. -/
structure UtxosKept (db : Database) (s : Statement) (db' : Database) : Prop where
  utxos : (∀ utxos, s ≠ .cleanAndInsertSanctionedUtxos utxos) →
    db.sanctionedUtxo.rows ⊆ db'.sanctionedUtxo.rows
  addresses : (∀ addr, s ≠ .replaceSanctionedAddresses addr) →
    db'.sanctionedAddresses = db.sanctionedAddresses

theorem utxosKept_of_succeeds {s : Statement} {r : s.Result} {db db' : Database}
    (h : s.Succeeds db r db') : UtxosKept db s db' := by
  have hk := kept_of_succeeds h
  refine ⟨fun hn => ?_, fun hn => hk.addresses (fun ht => ?_)⟩
  · by_cases ht : s.target = some .sanctionedUtxo
    · obtain ⟨blockId, r₀, hx, -⟩ := h
      cases s with
      | cleanAndInsertSanctionedUtxos utxos => exact absurd rfl (hn utxos)
      | insertSanctionedUtxos utxos =>
        cases hx
        rw [rows_insertNew]
        exact List.subset_append_left _ _
      | _ => cases ht
    · rw [hk.utxos ht]
      exact List.Subset.refl _
  · cases s with
    | replaceSanctionedAddresses addr => exact hn addr rfl
    | _ => cases ht

/-- No statement takes a block or a transaction away. -/
structure Grew (db db' : Database) : Prop where
  blockIds : db.blockIds ⊆ db'.blockIds
  transactions : db.transaction.keys ⊆ db'.transaction.keys

theorem Grew.refl (db : Database) : Grew db db := ⟨List.Subset.refl _, List.Subset.refl _⟩

theorem Grew.trans {db db' db'' : Database} (h : Grew db db') (h' : Grew db' db'') :
    Grew db db'' where
  blockIds := List.Subset.trans h.blockIds h'.blockIds
  transactions := List.Subset.trans h.transactions h'.transactions

theorem grew_of_succeeds {s : Statement} {r : s.Result} {db db' : Database}
    (h : s.Succeeds db r db') : Grew db db' where
  blockIds := by
    unfold Database.blockIds
    cases blockChange_of_succeeds h with
    | none _ hb =>
      rw [hb]
      exact List.Subset.refl _
    | insert _ hrows =>
      rw [hrows, List.map_append]
      exact List.subset_append_left _ _
    | rename hrows =>
      rw [hrows, List.map_map]
      simp [Function.comp_def]
  transactions := by
    unfold keys
    cases transactionChange_of_succeeds h with
    | none _ _ ht =>
      rw [ht]
      exact List.Subset.refl _
    | insert ht =>
      rw [ht, rows_insertNew, List.map_append]
      exact List.subset_append_left _ _
    | update hrows =>
      rw [hrows, List.map_map]
      simp [Function.comp_def]

theorem Grew.references {db db' : Database} (h : Grew db db') {blockId : Int64} {txid : List UInt8}
    (hr : db.references blockId txid) : db'.references blockId txid := by
  rw [Database.references_iff] at hr ⊢
  exact ⟨h.blockIds hr.1, h.transactions hr.2⟩

/-- What a statement can do to the rows of a table that only the statements `insert` write to. -/
inductive Appended {α : Type} (insert : List α → Statement) (valid : α → Prop) (s : Statement)
    (rows rows' : List α) : Prop
  | same : (∀ added, s ≠ insert added) → rows' = rows → Appended insert valid s rows rows'
  | added {added : List α} : s = insert added → (∀ row ∈ added, valid row) →
      rows' = rows ++ added → Appended insert valid s rows rows'

theorem Appended.forall_rows {α : Type} {insert : List α → Statement} {valid P : α → Prop}
    {s : Statement} {rows rows' : List α} (h : Appended insert valid s rows rows')
    (hold : ∀ row ∈ rows, P row) (hnew : ∀ row, valid row → P row) : ∀ row ∈ rows', P row := by
  intro row hrow
  cases h with
  | same _ he => exact hold row (he ▸ hrow)
  | added _ hv he =>
    rw [he] at hrow
    exact (List.mem_append.mp hrow).elim (hold row) (fun hm => hnew row (hv row hm))

/-- A table takes rows from the statements that name it as their target. -/
theorem Appended.of_target {α : Type} {insert : List α → Statement} {valid : α → Prop}
    {s : Statement} {rows rows' : List α} {target : TableName}
    (hinsert : ∀ added, (insert added).target = some target)
    (hkept : s.target ≠ some target → rows' = rows)
    (hadded : s.target = some target → Appended insert valid s rows rows') :
    Appended insert valid s rows rows' := by
  by_cases ht : s.target = some target
  · exact hadded ht
  · exact .same (fun added hs => ht (hs ▸ hinsert added)) (hkept ht)

theorem onlyInBlock_appended {s : Statement} {r : s.Result} {db db' : Database}
    (h : s.Succeeds db r db') : Appended .insertTransactionsOnlyInBlock
      (fun row => db.references row.blockId row.transactionTxid) s
      db.transactionOnlyInBlock.rows db'.transactionOnlyInBlock.rows := by
  refine .of_target (fun _ => rfl) (fun ht => ?_) (fun ht => ?_)
  · rw [(kept_of_succeeds h).onlyInBlock ht]
  · cases s with
    | insertTransactionsOnlyInBlock txns =>
      obtain ⟨blockId, r₀, hx, -⟩ := h
      obtain ⟨hv, t', ht', rfl⟩ := Database.rows_of_insertRows hx
      exact .added rfl hv ht'
    | _ => cases ht

theorem onlyInTemplate_appended {s : Statement} {r : s.Result} {db db' : Database}
    (h : s.Succeeds db r db') : Appended .insertTransactionsOnlyInTemplate
      (fun row => db.references row.blockId row.transactionTxid) s
      db.transactionOnlyInTemplate.rows db'.transactionOnlyInTemplate.rows := by
  refine .of_target (fun _ => rfl) (fun ht => ?_) (fun ht => ?_)
  · rw [(kept_of_succeeds h).onlyInTemplate ht]
  · cases s with
    | insertTransactionsOnlyInTemplate txns =>
      obtain ⟨blockId, r₀, hx, -⟩ := h
      obtain ⟨hv, t', ht', rfl⟩ := Database.rows_of_insertRows hx
      exact .added rfl hv ht'
    | _ => cases ht

theorem sanctionedInfos_appended {s : Statement} {r : s.Result} {db db' : Database}
    (h : s.Succeeds db r db') : Appended .insertSanctionedTransactionInfos
      (fun row => db.references row.blockId row.transactionTxid) s
      db.sanctionedTransactionInfo.rows db'.sanctionedTransactionInfo.rows := by
  refine .of_target (fun _ => rfl) (fun ht => ?_) (fun ht => ?_)
  · rw [(kept_of_succeeds h).sanctionedInfos ht]
  · cases s with
    | insertSanctionedTransactionInfos infos =>
      obtain ⟨blockId, r₀, hx, -⟩ := h
      obtain ⟨hv, t', ht', rfl⟩ := Database.rows_of_insertRows hx
      exact .added rfl hv ht'
    | _ => cases ht

theorem conflicting_appended {s : Statement} {r : s.Result} {db db' : Database}
    (h : s.Succeeds db r db') : Appended .insertConflictingTransactions
      (fun row => row.blockId ∈ db.blockIds) s
      db.conflictingTransactions.rows db'.conflictingTransactions.rows := by
  refine .of_target (fun _ => rfl) (fun ht => ?_) (fun ht => ?_)
  · rw [(kept_of_succeeds h).conflicting ht]
  · cases s with
    | insertConflictingTransactions ctxns =>
      obtain ⟨blockId, r₀, hx, -⟩ := h
      obtain ⟨hv, t', ht', rfl⟩ := Database.rows_of_insertRows hx
      exact .added rfl (fun row hrow => of_decide_eq_true (hv row hrow)) ht'
    | _ => cases ht

/-- No statement breaks a reference. -/
theorem foreignKeys_of_succeeds {s : Statement} {r : s.Result} {db db' : Database}
    (hf : db.ForeignKeys) (h : s.Succeeds db r db') : db'.ForeignKeys where
  onlyInBlock := (onlyInBlock_appended h).forall_rows
    (fun row hrow => (grew_of_succeeds h).references (hf.onlyInBlock row hrow))
    (fun _ => (grew_of_succeeds h).references)
  onlyInTemplate := (onlyInTemplate_appended h).forall_rows
    (fun row hrow => (grew_of_succeeds h).references (hf.onlyInTemplate row hrow))
    (fun _ => (grew_of_succeeds h).references)
  sanctionedInfos := (sanctionedInfos_appended h).forall_rows
    (fun row hrow => (grew_of_succeeds h).references (hf.sanctionedInfos row hrow))
    (fun _ => (grew_of_succeeds h).references)
  conflicting := (conflicting_appended h).forall_rows
    (fun row hrow => (grew_of_succeeds h).blockIds (hf.conflicting row hrow))
    (fun _ hv => (grew_of_succeeds h).blockIds hv)
  debug row hrow := by
    apply (grew_of_succeeds h).blockIds
    by_cases ht : s.target = some .debugTemplateSelection
    · cases s with
      | insertDebugTemplateSelectionInfos infos =>
        obtain ⟨blockId, r₀, hx, -⟩ := h
        simp only [Statement.exec] at hx
        split at hx
        · rename_i hv
          cases hx
          rw [rows_insertNew] at hrow
          obtain hrow | hrow := List.mem_append.mp hrow
          · exact hf.debug row hrow
          · exact of_decide_eq_true (List.all_eq_true.mp hv row (mem_of_mem_insertNew hrow))
        · cases hx
      | _ => cases ht
    · rw [(kept_of_succeeds h).debug ht] at hrow
      exact hf.debug row hrow

theorem rows_of_cleanAndInsert {utxos : List SanctionedUtxo} {r : Unit} {db db' : Database}
    (h : (Statement.cleanAndInsertSanctionedUtxos utxos).Succeeds db r db') :
    db'.sanctionedUtxo.rows = utxos := by
  obtain ⟨blockId, r₀, hx, -⟩ := h
  obtain ⟨-, u, hu, rfl⟩ := Database.insertRows_eq_ok_iff.mp hx
  exact rows_of_insert hu

theorem keys_of_insertSanctionedUtxos {utxos : List SanctionedUtxo} {r : Unit} {db db' : Database}
    (h : (Statement.insertSanctionedUtxos utxos).Succeeds db r db') {row : SanctionedUtxo}
    (hrow : row ∈ utxos) : (row.txid, row.vout) ∈ db'.sanctionedUtxo.keys := by
  obtain ⟨blockId, r₀, hx, -⟩ := h
  cases hx
  exact mem_keys_insertNew db.sanctionedUtxo hrow

theorem mem_rows_of_insertSanctionedUtxos {utxos : List SanctionedUtxo} {r : Unit}
    {db db' : Database} (h : (Statement.insertSanctionedUtxos utxos).Succeeds db r db')
    {row : SanctionedUtxo} (hrow : row ∈ db'.sanctionedUtxo.rows) :
    row ∈ db.sanctionedUtxo.rows ∨ row ∈ utxos := by
  obtain ⟨blockId, r₀, hx, -⟩ := h
  cases hx
  rw [rows_insertNew] at hrow
  exact (List.mem_append.mp hrow).imp id mem_of_mem_insertNew

theorem addresses_of_succeeds {db db' : Database} {r : Statement.sanctionedAddresses.Result}
    (h : Statement.sanctionedAddresses.Succeeds db r db') :
    r.rows.Perm db.sanctionedAddresses.rows := by
  obtain ⟨blockId, r₀, hx, hr⟩ := h
  obtain ⟨rfl, -⟩ := Prod.mk.inj (Except.ok.inj hx)
  exact hr

theorem utxos_of_succeeds {db db' : Database} {r : Statement.getSanctionedUtxos.Result}
    (h : Statement.getSanctionedUtxos.Succeeds db r db') : r.rows.Perm db.sanctionedUtxo.rows := by
  obtain ⟨blockId, r₀, hx, hr⟩ := h
  obtain ⟨rfl, -⟩ := Prod.mk.inj (Except.ok.inj hx)
  exact hr

theorem transactions_of_succeeds {db db' : Database} {r : Statement.allTransactions.Result}
    (h : Statement.allTransactions.Succeeds db r db') : r.rows.Perm db.transaction.rows := by
  obtain ⟨blockId, r₀, hx, hr⟩ := h
  obtain ⟨rfl, -⟩ := Prod.mk.inj (Except.ok.inj hx)
  exact hr

theorem unknownPoolBlocks_of_succeeds {db db' : Database} {rows : List SharedModel.Block}
    (h : Statement.unknownPoolBlocks.Succeeds db rows db') {row : SharedModel.Block} :
    row ∈ rows ↔ row ∈ db.block.rows ∧ row.poolName = "Unknown" := by
  obtain ⟨blockId, r₀, hx, hperm, -⟩ := h
  obtain ⟨rfl, -⟩ := Prod.mk.inj (Except.ok.inj hx)
  rw [hperm.mem_iff, List.mem_insertionSort, List.mem_filter, decide_eq_true_eq]

theorem tags_of_succeeds {txid : List UInt8} {db db' : Database} {tags : List Int}
    (h : (Statement.selectTransactionTags txid).Succeeds db tags db') :
    ∃ row ∈ db.transaction.rows, row.txid = txid ∧ row.tags = tags := by
  obtain ⟨blockId, r₀, hx, rfl⟩ := h
  simp only [Statement.exec] at hx
  cases hf : db.transaction.find? txid with
  | none =>
    rw [hf] at hx
    cases hx
  | some row =>
    rw [hf] at hx
    cases hx
    obtain ⟨hrow, hid⟩ := db.transaction.find?_eq_some_iff.mp hf
    exact ⟨row, hrow, hid, rfl⟩

end MiningpoolObserver.Db
