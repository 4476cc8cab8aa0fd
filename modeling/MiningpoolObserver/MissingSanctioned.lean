import MiningpoolObserver.Web

namespace MiningpoolObserver.MissingSanctioned

open MiningpoolObserver.Library.CallTree MiningpoolObserver.Library.HashCollections
open MiningpoolObserver.Library.KeyedTable MiningpoolObserver.Library.Queries
open MiningpoolObserver.SharedModel MiningpoolObserver.Db MiningpoolObserver.Web

variable {db : Database} {rs : RandomState} {blockHash : List UInt8} {b : SharedModel.Block}

/-- The transaction was sanctioned, in the template of this block, and left out of the block. -/
def LeftOut (blockId : Int64) (info : SanctionedTransactionInfo) : Prop :=
  info.blockId = blockId ∧ info.inBlock = false ∧ info.inTemplate = true

instance (blockId : Int64) (info : SanctionedTransactionInfo) : Decidable (LeftOut blockId info) :=
  inferInstanceAs (Decidable (_ ∧ _))

/-- The transaction of an information with its row of this block. -/
def ofBlock (db : Database) (blockId : Int64) (info : SanctionedTransactionInfo) :
    Option (SharedModel.Transaction × SanctionedTransactionInfo × TransactionOnlyInTemplate) := do
  let row ← db.transactionOnlyInTemplate.find? (blockId, info.transactionTxid)
  let tx ← db.transaction.find? info.transactionTxid
  pure (tx, info, row)

def entry (p : SharedModel.Transaction × SanctionedTransactionInfo × TransactionOnlyInTemplate) :
    MissingSanctionedTransaction := ⟨p.1, p.2.2, p.2.1.addresses⟩

/-- One entry for each sanctioned transaction that was left out of the block, with its row of this
block. -/
def leftOutEntries (db : Database) (blockId : Int64) : List MissingSanctionedTransaction :=
  ((db.sanctionedTransactionInfo.rows.filter (LeftOut blockId)).filterMap (ofBlock db blockId)).map
    entry

/-- What the page of a block is to show: exactly these entries, in any order. -/
def ShowsLeftOut (db : Database) (rs : RandomState) (blockHash : List UInt8) (blockId : Int64) :
    Prop :=
  ∃ entries, evaluate db rs (missingSanctionedTxnsForBlock blockHash) = .ok entries ∧
    entries.Perm (leftOutEntries db blockId)

/-- The rows of the join, as the web process loads them. -/
def joined (db : Database) (blockId : Int64) :
    List (SharedModel.Transaction × SanctionedTransactionInfo × TransactionOnlyInTemplate) :=
  ((innerJoin (fun p row => row.transactionTxid = p.1.txid)
      (innerJoin (fun tx info => info.transactionTxid = tx.txid) db.transaction.rows
        db.sanctionedTransactionInfo.rows) db.transactionOnlyInTemplate.rows).filter
      (fun (p, _) => p.2.blockId = blockId && !p.2.inBlock && p.2.inTemplate)).map
      (fun (p, row) => (p.1, p.2, row))

theorem evaluate_eq (hb : db.block.find? blockHash = some b) :
    evaluate db rs (missingSanctionedTxnsForBlock blockHash) =
      .ok ((rs.order (joined db b.id)).map entry) := by
  simp only [evaluate, missingSanctionedTxnsForBlock, load, Prog.andThen, Prog.bind_call,
    Prog.bind_done, Prog.runWith, Select.exec, hb, Option.map_some, firstOf, Except.mapError]
  rfl

theorem mem_joined {blockId : Int64} {tx : SharedModel.Transaction}
    {info : SanctionedTransactionInfo} {row : TransactionOnlyInTemplate} :
    (tx, info, row) ∈ joined db blockId ↔ tx ∈ db.transaction.rows ∧
      info ∈ db.sanctionedTransactionInfo.rows ∧ row ∈ db.transactionOnlyInTemplate.rows ∧
      LeftOut blockId info ∧ info.transactionTxid = tx.txid ∧
      row.transactionTxid = tx.txid := by
  simp only [joined, List.mem_map, List.mem_filter, Prod.exists, mem_innerJoin, Prod.mk.injEq,
    Bool.and_eq_true, decide_eq_true_eq, Bool.not_eq_true', LeftOut]
  constructor
  · rintro ⟨tx', info', row', ⟨⟨⟨htx, hinfo, hon⟩, hrow, hon'⟩,
      ⟨hid, hblock⟩, htemplate⟩, rfl, rfl, rfl⟩
    exact ⟨htx, hinfo, hrow, ⟨hid, hblock, htemplate⟩, hon, hon'⟩
  · rintro ⟨htx, hinfo, hrow, ⟨hid, hblock, htemplate⟩, hon, hon'⟩
    exact ⟨tx, info, row, ⟨⟨⟨htx, hinfo, hon⟩, hrow, hon'⟩, ⟨hid, hblock⟩, htemplate⟩,
      rfl, rfl, rfl⟩

theorem nodup_joined {blockId : Int64} : (joined db blockId).Nodup := by
  have hinner : (innerJoin (fun tx info => info.transactionTxid = tx.txid) db.transaction.rows
      db.sanctionedTransactionInfo.rows).Nodup :=
    nodup_innerJoin (List.Nodup.of_map _ db.transaction.nodup)
      (List.Nodup.of_map _ db.sanctionedTransactionInfo.nodup)
  have houter : (innerJoin (fun p row => row.transactionTxid = p.1.txid)
      (innerJoin (fun tx info => info.transactionTxid = tx.txid) db.transaction.rows
        db.sanctionedTransactionInfo.rows) db.transactionOnlyInTemplate.rows).Nodup :=
    nodup_innerJoin hinner (List.Nodup.of_map _ db.transactionOnlyInTemplate.nodup)
  apply (houter.filter _).map
  rintro ⟨⟨tx, info⟩, row⟩ ⟨⟨tx', info'⟩, row'⟩ h
  simp only [Prod.mk.injEq] at h ⊢
  exact ⟨⟨h.1, h.2.1⟩, h.2.2⟩

theorem mem_ofBlock {blockId : Int64} {tx : SharedModel.Transaction}
    {info info' : SanctionedTransactionInfo} {row : TransactionOnlyInTemplate} :
    ofBlock db blockId info' = some (tx, info, row) ↔ info' = info ∧ tx ∈ db.transaction.rows ∧
      row ∈ db.transactionOnlyInTemplate.rows ∧ info.transactionTxid = tx.txid ∧
      row.transactionTxid = tx.txid ∧ row.blockId = blockId := by
  simp only [ofBlock, Option.bind_eq_bind, Option.bind_eq_some_iff, Option.pure_def,
    Option.some.injEq, Prod.mk.injEq, Table.find?_eq_some_iff]
  constructor
  · rintro ⟨row', ⟨hrow, hid, hrowTx⟩, tx', ⟨htx, htxid⟩, rfl, rfl, rfl⟩
    exact ⟨rfl, htx, hrow, htxid.symm, hrowTx.trans htxid.symm, hid⟩
  · rintro ⟨rfl, htx, hrow, hinfo, hrowTx, hid⟩
    exact ⟨row, ⟨hrow, hid, hrowTx.trans hinfo.symm⟩, tx, ⟨htx, hinfo.symm⟩, rfl, rfl, rfl⟩

/-- The entries of this block are the joined rows of this block. -/
theorem leftOutEntries_perm {blockId : Int64} : (leftOutEntries db blockId).Perm
    (((joined db blockId).filter (fun p => p.2.2.blockId = blockId)).map entry) := by
  apply List.Perm.map
  rw [List.perm_ext_iff_of_nodup _ (nodup_joined.filter _)]
  · rintro ⟨tx, info, row⟩
    simp only [List.mem_filterMap, List.mem_filter, decide_eq_true_eq, mem_ofBlock, mem_joined]
    constructor
    · rintro ⟨_, ⟨hinfo, hleft⟩, rfl, htx, hrow, hinfoTx, hrowTx, hid⟩
      exact ⟨⟨htx, hinfo, hrow, hleft, hinfoTx, hrowTx⟩, hid⟩
    · rintro ⟨⟨htx, hinfo, hrow, hleft, hinfoTx, hrowTx⟩, hid⟩
      exact ⟨info, ⟨hinfo, hleft⟩, rfl, htx, hrow, hinfoTx, hrowTx, hid⟩
  · apply List.Nodup.filterMap _ ((List.Nodup.of_map _ db.sanctionedTransactionInfo.nodup).filter _)
    rintro info info' ⟨tx, info'', row⟩ h h'
    exact (mem_ofBlock.mp h).1.trans (mem_ofBlock.mp h').1.symm

/-- The page of a block shows what it is to show exactly when none of the transactions that were
left out of the block is missing from another block too. -/
theorem showsLeftOut_iff (hf : db.ForeignKeys) (hb : db.block.find? blockHash = some b) :
    ShowsLeftOut db rs blockHash b.id ↔
      ∀ info ∈ db.sanctionedTransactionInfo.rows, LeftOut b.id info →
        ∀ row ∈ db.transactionOnlyInTemplate.rows, row.transactionTxid = info.transactionTxid →
          row.blockId = b.id := by
  have hall : (∀ p ∈ joined db b.id, p.2.2.blockId = b.id) ↔
      ∀ info ∈ db.sanctionedTransactionInfo.rows, LeftOut b.id info →
        ∀ row ∈ db.transactionOnlyInTemplate.rows, row.transactionTxid = info.transactionTxid →
          row.blockId = b.id := by
    constructor
    · intro h info hinfo hleft row hrow he
      obtain ⟨-, htx⟩ := Database.references_iff.mp (hf.sanctionedInfos info hinfo)
      obtain ⟨tx, htx, hid⟩ := List.mem_map.mp htx
      exact h (tx, info, row)
        (mem_joined.mpr ⟨htx, hinfo, hrow, hleft, hid.symm, he.trans hid.symm⟩)
    · rintro h ⟨tx, info, row⟩ hp
      obtain ⟨-, hinfo, hrow, hleft, hinfoTx, hrowTx⟩ := mem_joined.mp hp
      exact h info hinfo hleft row hrow (hrowTx.trans hinfoTx.symm)
  rw [← hall]
  have hperm : ((rs.order (joined db b.id)).map entry).Perm ((joined db b.id).map entry) :=
    (rs.perm _).map entry
  constructor
  · rintro ⟨entries, he, hp⟩
    rw [evaluate_eq hb] at he
    cases he
    have hlen := ((hperm.symm.trans hp).trans leftOutEntries_perm).length_eq
    rw [List.length_map, List.length_map] at hlen
    intro p hmem
    simpa using List.length_filter_eq_length_iff.mp hlen.symm p hmem
  · intro h
    refine ⟨_, evaluate_eq hb, hperm.trans ?_⟩
    have hfilter : (joined db b.id).filter (fun p => p.2.2.blockId = b.id) = joined db b.id :=
      List.filter_eq_self.mpr (fun p hp => decide_eq_true (h p hp))
    have hp : (leftOutEntries db b.id).Perm _ := leftOutEntries_perm
    rw [hfilter] at hp
    exact hp.symm

section Samples

def blockRow (id : Int64) : SharedModel.Block where
  id := id
  hash := [id.toUInt64.toUInt8]
  prevHash := []
  height := id.toInt32
  tags := []
  missingTx := 1
  extraTx := 0
  sharedTx := 0
  sanctionedMissingTx := 1
  equality := 0
  blockTime := 0
  blockSeenTime := 0
  blockTx := 1
  blockSanctioned := 0
  blockCbValue := 0
  blockCbFees := 0
  blockWeight := 0
  blockPkgWeights := []
  blockPkgFeerates := []
  poolName := "Unknown"
  poolLink := ""
  poolIdMethod := ""
  templateTx := 1
  templateTime := 0
  templateSanctioned := 1
  templateCbValue := 0
  templateCbFees := 0
  templateWeight := 0
  templatePkgWeights := []
  templatePkgFeerates := []
  templateSigops := 0
  blockSigops := 0

def transactionRow (txid : List UInt8) : SharedModel.Transaction where
  txid := txid
  sanctioned := true
  vsize := 100
  fee := 0
  outputSum := 0
  tags := []
  inputCount := 0
  inputs := []
  outputCount := 0
  outputs := []
  sigops := 0

/-- A sanctioned transaction is missing from one block and in the next one, from which another
transaction is missing. -/
def missingOnce : Database :=
  { Database.empty with
    block := ⟨[blockRow 1, blockRow 2], by decide⟩
    transaction := ⟨[transactionRow [7], transactionRow [8]], by decide⟩
    transactionOnlyInTemplate := ⟨[⟨1, 0, 10, [7]⟩, ⟨2, 0, 20, [8]⟩], by decide⟩
    sanctionedTransactionInfo :=
      ⟨[⟨1, [7], false, true, ["listed"]⟩, ⟨2, [7], true, true, ["listed"]⟩], by decide⟩ }

/-- A sanctioned transaction is missing from both blocks. -/
def missingTwice : Database :=
  { Database.empty with
    block := ⟨[blockRow 1, blockRow 2], by decide⟩
    transaction := ⟨[transactionRow [7]], by decide⟩
    transactionOnlyInTemplate := ⟨[⟨1, 0, 10, [7]⟩, ⟨2, 0, 20, [7]⟩], by decide⟩
    sanctionedTransactionInfo :=
      ⟨[⟨1, [7], false, true, ["listed"]⟩, ⟨2, [7], false, true, ["listed"]⟩], by decide⟩ }

theorem foreignKeys_missingOnce : missingOnce.ForeignKeys :=
  ⟨by decide, by decide, by decide, by decide, by decide⟩

theorem foreignKeys_missingTwice : missingTwice.ForeignKeys :=
  ⟨by decide, by decide, by decide, by decide, by decide⟩

theorem showsLeftOut_missingOnce : missingOnce.ForeignKeys ∧
    missingOnce.block.find? [1] = some (blockRow 1) ∧ (leftOutEntries missingOnce 1).length = 1 ∧
    ShowsLeftOut missingOnce .inserted [1] 1 := by
  refine ⟨foreignKeys_missingOnce, rfl, by decide, ?_⟩
  exact (showsLeftOut_iff foreignKeys_missingOnce (b := blockRow 1) rfl).mpr (by decide)

/-- The page of a block shows the row of the other block as well. -/
theorem showsLeftOut_fails : ¬ ∀ (db : Database) (rs : RandomState) (blockHash : List UInt8)
    (b : SharedModel.Block), db.ForeignKeys → db.block.find? blockHash = some b →
      ShowsLeftOut db rs blockHash b.id := by
  intro h
  obtain ⟨entries, he, hp⟩ := h missingTwice .inserted [1] (blockRow 1) foreignKeys_missingTwice rfl
  rw [evaluate_eq (b := blockRow 1) rfl] at he
  cases he
  have hlen := hp.length_eq
  exact absurd hlen (by decide)

end Samples

end MiningpoolObserver.MissingSanctioned
