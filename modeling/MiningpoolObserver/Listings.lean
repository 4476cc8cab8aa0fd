import MiningpoolObserver.MissingSanctioned

namespace MiningpoolObserver.Listings

open MiningpoolObserver.Library.CallTree MiningpoolObserver.Library.HashCollections
open MiningpoolObserver.Library.KeyedTable MiningpoolObserver.Library.Queries
open MiningpoolObserver.Library.Fallible
open MiningpoolObserver.Bitcoin MiningpoolObserver.SharedModel MiningpoolObserver.Db
open MiningpoolObserver.Web MiningpoolObserver.MissingSanctioned

variable {db : Database} {α β : Type}

/-- The constraints of the schema that the tables do not have of themselves: ids of blocks are
unique, and references lead to rows. -/
structure Keys (db : Database) : Prop where
  blockIds : db.blockIds.Nodup
  foreignKeys : db.ForeignKeys

section Rules

/-- The query does not fail, and what it returns satisfies `P`. -/
def Gives (db : Database) (p : Query α) (P : α → Prop) : Prop :=
  Ensures (selecting db) p () (fun r _ => ∃ a, r = .ok a ∧ P a)

theorem gives_load {s : Select} {P : s.Result → Prop}
    (h : ∀ rs, ∃ a, s.exec db rs = .ok a ∧ P a) : Gives db (load s) P := by
  apply Ensures.call
  rintro - _ - - ⟨rs, rfl⟩
  obtain ⟨a, ha, hP⟩ := h rs
  rw [ha]
  exact .done (fun _ _ => ⟨a, rfl, hP⟩)

theorem gives_done {a : α} {P : α → Prop} (h : P a) : Gives db (.done (.ok a)) P :=
  .done (fun _ _ => ⟨a, rfl, h⟩)

theorem ensures_andThen {p : Query α} {f : α → Query β} {P : α → Prop}
    {Q : Except Failure β → Unit → Prop} (hp : Gives db p P)
    (hf : ∀ a, P a → Ensures (selecting db) (f a) () Q) :
    Ensures (selecting db) (p.andThen f) () Q := by
  refine hp.andThen (fun a _ h => ?_) (fun e _ _ h => ?_)
  · obtain ⟨a', ha, hP⟩ := h
    cases ha
    exact hf a hP
  · obtain ⟨a', ha, -⟩ := h
    cases ha

theorem ensures_done {r : α} {Q : α → Unit → Prop} (h : Q r ()) :
    Ensures (selecting db) (.done r) () Q := .done (fun _ _ => h)

end Rules

section Missing

/-- The rows of a transaction, those of later blocks first. -/
def rowsMissing (db : Database) (txid : List UInt8) : List TransactionOnlyInTemplate :=
  orderDesc (fun row => row.blockId)
    (db.transactionOnlyInTemplate.rows.filter (fun row => row.transactionTxid = txid))

/-- What the pages show for a transaction. -/
def missingEntry (db : Database) (tx : SharedModel.Transaction) :
    Except Failure MissingTransaction :=
  missingTransaction (blockIdToBlock db.block.rows) (rowsMissing db tx.txid) tx

/-- Among rows of several transactions, those of one come as they come alone. -/
theorem filter_onlyInTemplate (rs : RandomState) {txids : List (List UInt8)} {txid : List UInt8}
    (ht : txid ∈ txids) : (orderDesc (fun row => row.blockId) (rs.order
      (db.transactionOnlyInTemplate.rows.filter (fun row => row.transactionTxid ∈ txids)))).filter
        (fun row => row.transactionTxid = txid) = rowsMissing db txid := by
  refine filter_orderDesc ?_ (fun a ha b hb he => ?_)
  · refine (rs.filter_order_perm (fun row hrow => ?_)).symm
    rw [of_decide_eq_true hrow]
    exact decide_eq_true ht
  · -- the key of the table
    obtain ⟨ha, hta⟩ := List.mem_filter.mp ha
    obtain ⟨hb, htb⟩ := List.mem_filter.mp hb
    exact db.transactionOnlyInTemplate.row_unique ha hb
      (Prod.ext he ((of_decide_eq_true hta).trans (of_decide_eq_true htb).symm))

theorem missingTransaction_congr {m m' : HashMap Int64 SharedModel.Block}
    {rows : List TransactionOnlyInTemplate} (tx : SharedModel.Transaction)
    (h : ∀ row ∈ rows, m.get? row.blockId = m'.get? row.blockId) :
    missingTransaction m rows tx = missingTransaction m' rows tx := by
  have hinfos : rows.mapM (missingBlockInfo m) = rows.mapM (missingBlockInfo m') :=
    mapM_congr (fun row hrow => by rw [missingBlockInfo, h row hrow, missingBlockInfo])
  rw [missingTransaction, hinfos, missingTransaction]

/-- The blocks that were loaded for some rows are found as in the whole table. -/
theorem get?_blockIdToBlock (hnd : db.blockIds.Nodup) (rs : RandomState) {ids : List Int64}
    {id : Int64} (hid : id ∈ ids) :
    (blockIdToBlock (rs.order (db.block.rows.filter (fun block => block.id ∈ ids)))).get? id =
      (blockIdToBlock db.block.rows).get? id :=
  HashMap.get?_collect_of_mem_iff hnd (fun b => by simp) hid

theorem orderDesc_onlyInTemplate (rs : RandomState) (txid : List UInt8) :
    orderDesc (fun row => row.blockId) (rs.order (db.transactionOnlyInTemplate.rows.filter
      (fun row => row.transactionTxid ∈ [txid]))) = rowsMissing db txid := by
  rw [← filter_onlyInTemplate rs (List.mem_singleton_self _)]
  refine (List.filter_eq_self.mpr (fun row hrow => ?_)).symm
  simpa using (List.mem_filter.mp (rs.mem_order.mp (mem_orderDesc.mp hrow))).2

theorem exec_transaction {tx : SharedModel.Transaction} (htx : tx ∈ db.transaction.rows)
    (rs : RandomState) : (Select.transaction tx.txid).exec db rs = .ok tx := by
  rw [Select.exec, db.transaction.find?_eq_some_iff.mpr ⟨htx, rfl⟩]
  rfl

theorem ensures_singleMissingTransaction (hnd : db.blockIds.Nodup) {tx : SharedModel.Transaction}
    (htx : tx ∈ db.transaction.rows) : Ensures (selecting db) (singleMissingTransaction tx.txid) ()
      (fun r _ => r = missingEntry db tx) := by
  have hdata : Gives db (singleMissingTransactionData tx.txid) (fun data =>
      data.1 = tx ∧ data.2.1 = rowsMissing db tx.txid ∧ ∀ row ∈ data.2.1,
        (blockIdToBlock data.2.2).get? row.blockId =
          (blockIdToBlock db.block.rows).get? row.blockId) := by
    refine ensures_andThen (gives_load (P := fun tx' => tx' = tx)
      (fun rs => ⟨tx, exec_transaction htx rs, rfl⟩)) (fun _ htx' => ?_)
    rw [htx']
    refine ensures_andThen (gives_load (P := fun rows => rows = rowsMissing db tx.txid)
      (fun rs => ⟨_, rfl, orderDesc_onlyInTemplate rs _⟩)) (fun _ hrows => ?_)
    rw [hrows]
    refine ensures_andThen (gives_load (P := fun blocks => ∀ row ∈ rowsMissing db tx.txid,
      (blockIdToBlock blocks).get? row.blockId = (blockIdToBlock db.block.rows).get? row.blockId)
      (fun rs => ⟨_, rfl, fun row hrow =>
        get?_blockIdToBlock hnd rs (List.mem_map_of_mem hrow)⟩)) (fun blocks hblocks => ?_)
    exact gives_done ⟨rfl, rfl, hblocks⟩
  refine ensures_andThen hdata (fun data hdata => ?_)
  obtain ⟨tx', rows, blocks⟩ := data
  obtain ⟨htx', hrows, hblocks⟩ := hdata
  dsimp only at htx' hrows hblocks ⊢
  rw [htx', hrows] at *
  exact ensures_done (missingTransaction_congr tx hblocks)

theorem mem_rowsMissing {txid : List UInt8} {row : TransactionOnlyInTemplate} :
    row ∈ rowsMissing db txid ↔
      row ∈ db.transactionOnlyInTemplate.rows ∧ row.transactionTxid = txid := by
  rw [rowsMissing, mem_orderDesc, List.mem_filter, decide_eq_true_eq]

/-- What a page shows for a transaction of the table that some block missed. -/
theorem missingEntry_ok (hkeys : Keys db) {tx : SharedModel.Transaction}
    (hne : rowsMissing db tx.txid ≠ []) : ∃ missing, missingEntry db tx = .ok missing ∧
      missing.transaction = tx ∧ missing.blocks ≠ [] := by
  have hfound : ∀ row ∈ rowsMissing db tx.txid,
      (blockIdToBlock db.block.rows).containsKey row.blockId = true := by
    intro row hrow
    have href := hkeys.foreignKeys.onlyInTemplate row (mem_rowsMissing.mp hrow).1
    obtain ⟨b, hb, hid⟩ := List.mem_map.mp (Database.references_iff.mp href).1
    rw [← hid]
    exact containsKey_blockIdToBlock hb
  obtain ⟨missing, hm, hlen⟩ := missingTransaction_ok tx hfound
  refine ⟨missing, hm, transaction_of_missingTransaction hm, ?_⟩
  apply List.ne_nil_of_length_pos
  rw [hlen]
  exact List.length_pos_iff.mpr hne

/-- The ids of one page. -/
def missingPage (db : Database) (rs : RandomState) (n : UInt32) : List (List UInt8) :=
  page MAX_BLOCKS_PER_PAGE n.toNat (orderDesc (fun txid => (maxBlockId db txid).getD 0)
    (rs.order (oftenMissing db)))

theorem mem_oftenMissing_of_page {rs : RandomState} {n : UInt32} {txid : List UInt8}
    (h : txid ∈ missingPage db rs n) : txid ∈ oftenMissing db :=
  rs.mem_order.mp (mem_orderDesc.mp (page_subset h))

theorem nodup_oftenMissing : (oftenMissing db).Nodup := (List.nodup_dedup _).filter _

theorem nodup_missingPage (rs : RandomState) (n : UInt32) : (missingPage db rs n).Nodup := by
  have horder : (orderDesc (fun txid => (maxBlockId db txid).getD 0)
      (rs.order (oftenMissing db))).Nodup :=
    (perm_orderDesc.trans (rs.perm _)).nodup_iff.mpr nodup_oftenMissing
  exact horder.sublist ((List.take_sublist _ _).trans (List.drop_sublist _ _))

/-- Each id of a page has its transaction. -/
theorem perm_transactions (hkeys : Keys db) (rs rs' : RandomState) (n : UInt32) :
    ((rs'.order (db.transaction.rows.filter (fun tx => tx.txid ∈ missingPage db rs n))).map
      (fun tx => tx.txid)).Perm (missingPage db rs n) := by
  apply ((rs'.perm _).map _).trans
  have hnd : ((db.transaction.rows.filter (fun tx => tx.txid ∈ missingPage db rs n)).map
      (fun tx => tx.txid)).Nodup := db.transaction.nodup.sublist (List.filter_sublist.map _)
  apply (List.perm_ext_iff_of_nodup hnd (nodup_missingPage rs n)).mpr
  intro txid
  simp only [List.mem_map, List.mem_filter, decide_eq_true_eq]
  constructor
  · rintro ⟨tx, ⟨-, hmem⟩, rfl⟩
    exact hmem
  · intro hmem
    obtain ⟨row, hrow, rfl⟩ := mem_oftenMissing (mem_oftenMissing_of_page hmem)
    have href := hkeys.foreignKeys.onlyInTemplate row hrow
    obtain ⟨tx, htx, he⟩ := List.mem_map.mp (Database.references_iff.mp href).2
    exact ⟨tx, ⟨htx, he ▸ hmem⟩, he⟩

theorem gives_missingTransactionsData (hkeys : Keys db) (n : UInt32) :
    Gives db (missingTransactionsData n) (fun data =>
      data.totalMissingCount = Int64.ofNat (oftenMissing db).length ∧
      (∃ rs, (data.transactions.map (fun tx => tx.txid)).Perm (missingPage db rs n)) ∧
      ∀ tx ∈ data.transactions, tx ∈ db.transaction.rows ∧ rowsMissing db tx.txid ≠ [] ∧
        missingTransaction (blockIdToBlock data.blocks)
          (data.txnsOnlyInTemplate.filter (fun row => row.transactionTxid = tx.txid)) tx =
            missingEntry db tx) := by
  refine ensures_andThen (gives_load (P := fun counts => counts = [Int64.ofNat
    (oftenMissing db).length]) (fun rs => ⟨_, rfl, rfl⟩)) (fun counts hcounts => ?_)
  subst hcounts
  refine ensures_andThen (gives_load (P := fun txids => ∃ rs, txids = missingPage db rs n)
    (fun rs => ⟨_, rfl, rs, rfl⟩)) (fun txids htxids => ?_)
  obtain ⟨rs, rfl⟩ := htxids
  refine ensures_andThen (gives_load (P := fun txns => ∃ rs' : RandomState, txns =
    rs'.order (db.transaction.rows.filter (fun tx => tx.txid ∈ missingPage db rs n)))
    (fun rs' => ⟨_, rfl, rs', rfl⟩)) (fun txns htxns => ?_)
  obtain ⟨rs', rfl⟩ := htxns
  refine ensures_andThen (gives_load (P := fun (rows : List TransactionOnlyInTemplate) =>
    ∀ txid ∈ missingPage db rs n,
      rows.filter (fun row => row.transactionTxid = txid) = rowsMissing db txid)
    (fun rs => ⟨_, rfl, fun txid ht => filter_onlyInTemplate rs ht⟩)) (fun rows hrows => ?_)
  refine ensures_andThen (gives_load (P := fun blocks => ∀ row ∈ rows,
    (blockIdToBlock blocks).get? row.blockId = (blockIdToBlock db.block.rows).get? row.blockId)
    (fun rs => ⟨_, rfl, fun row hrow =>
      get?_blockIdToBlock hkeys.blockIds rs (List.mem_map_of_mem hrow)⟩)) (fun blocks hblocks => ?_)
  refine gives_done ⟨rfl, ⟨rs, perm_transactions hkeys rs rs' n⟩, fun tx htx => ?_⟩
  obtain ⟨htx, ht⟩ := List.mem_filter.mp (rs'.mem_order.mp htx)
  replace ht := of_decide_eq_true ht
  have hrow : ∀ row ∈ rowsMissing db tx.txid, row ∈ rows := fun row h =>
    List.mem_of_mem_filter (hrows tx.txid ht ▸ h)
  refine ⟨htx, ?_, ?_⟩
  · obtain ⟨row, hmem, he⟩ := mem_oftenMissing (mem_oftenMissing_of_page ht)
    exact List.ne_nil_of_mem (mem_rowsMissing.mpr ⟨hmem, he⟩)
  · rw [hrows tx.txid ht]
    exact missingTransaction_congr tx (fun row h => hblocks row (hrow row h))

/-- What the listing makes of its data. -/
def listed (data : MissingTransactionsData) :
    Except Failure (List MissingTransaction × UInt32) := do
  let missingTxns ← data.transactions.mapM (fun tx =>
    missingTransaction (blockIdToBlock data.blocks)
      (data.txnsOnlyInTemplate.filter (fun row => row.transactionTxid = tx.txid)) tx)
  let missingTxns ← sortByMaxHeight missingTxns
  pure (missingTxns, maxPages data.totalMissingCount)

/-- Its entries are the transactions of the data. -/
theorem listed_eq_ok {data : MissingTransactionsData} {missing : List MissingTransaction}
    {pages : UInt32} (h : listed data = .ok (missing, pages)) :
    pages = maxPages data.totalMissingCount ∧
      (missing.map (fun e => e.transaction)).Perm data.transactions := by
  obtain ⟨unsorted, hall, h⟩ := bind_eq_ok.mp h
  obtain ⟨sorted, hsorted, h⟩ := bind_eq_ok.mp h
  cases h
  refine ⟨rfl, ((perm_of_sortByMaxHeight hsorted).map _).trans (List.Perm.of_eq ?_)⟩
  exact map_eq_of_mapM hall (fun tx e he => transaction_of_missingTransaction he)

theorem exists_listed (hkeys : Keys db) {data : MissingTransactionsData}
    (hdata : ∀ tx ∈ data.transactions, tx ∈ db.transaction.rows ∧ rowsMissing db tx.txid ≠ [] ∧
      missingTransaction (blockIdToBlock data.blocks)
        (data.txnsOnlyInTemplate.filter (fun row => row.transactionTxid = tx.txid)) tx =
          missingEntry db tx) :
    ∃ missing pages, listed data = .ok (missing, pages) ∧ ∀ e ∈ missing,
      ∃ tx ∈ db.transaction.rows, missingEntry db tx = .ok e ∧ e.transaction = tx := by
  have hentry : ∀ tx ∈ data.transactions, ∃ e, missingTransaction (blockIdToBlock data.blocks)
      (data.txnsOnlyInTemplate.filter (fun row => row.transactionTxid = tx.txid)) tx = .ok e ∧
      missingEntry db tx = .ok e ∧ e.transaction = tx ∧ e.blocks ≠ [] := by
    intro tx htx
    obtain ⟨-, hne, he⟩ := hdata tx htx
    obtain ⟨e, hok, htx', hblocks⟩ := missingEntry_ok hkeys hne
    exact ⟨e, he.trans hok, hok, htx', hblocks⟩
  obtain ⟨unsorted, hall⟩ := exists_mapM_eq_ok (l := data.transactions)
    (fun tx htx => ⟨_, (hentry tx htx).choose_spec.1⟩)
  have hunsorted : ∀ e ∈ unsorted, ∃ tx ∈ db.transaction.rows,
      missingEntry db tx = .ok e ∧ e.transaction = tx ∧ e.blocks ≠ [] := by
    intro e he
    obtain ⟨tx, htx, hof⟩ := exists_of_mem_mapM hall he
    obtain ⟨e', he', h⟩ := hentry tx htx
    rw [he'] at hof
    cases hof
    exact ⟨tx, (hdata tx htx).1, h⟩
  obtain ⟨sorted, hsorted⟩ := sortByMaxHeight_ok (fun e he => by
    obtain ⟨tx, -, -, -, hne⟩ := hunsorted e he
    exact hne)
  refine ⟨sorted, _, bind_eq_ok.mpr ⟨_, hall, bind_eq_ok.mpr ⟨_, hsorted, rfl⟩⟩, fun e he => ?_⟩
  obtain ⟨tx, htx, hok, hetx, -⟩ := hunsorted e ((perm_of_sortByMaxHeight hsorted).mem_iff.mp he)
  exact ⟨tx, htx, hok, hetx⟩

/-- The listing shows the transactions of its page, each as the page of the transaction does. -/
theorem ensures_missingTransactions (hkeys : Keys db) (n : UInt32) :
    Ensures (selecting db) (missingTransactions n) () (fun r _ => ∃ missing rs,
      r = .ok (missing, maxPages (Int64.ofNat (oftenMissing db).length)) ∧
      (missing.map (fun e => e.transaction.txid)).Perm (missingPage db rs n) ∧
      ∀ e ∈ missing, ∃ tx ∈ db.transaction.rows,
        missingEntry db tx = .ok e ∧ e.transaction = tx) := by
  refine ensures_andThen (gives_missingTransactionsData hkeys n) (fun data hdata => ?_)
  obtain ⟨hcount, ⟨rs, hperm⟩, htxns⟩ := hdata
  obtain ⟨missing, pages, hok, hentries⟩ := exists_listed hkeys htxns
  obtain ⟨rfl, htransactions⟩ := listed_eq_ok hok
  rw [hcount] at hok
  refine ensures_done ⟨missing, rs, hok, ?_, hentries⟩
  have hmap := htransactions.map (fun tx => tx.txid)
  rw [List.map_map] at hmap
  exact hmap.trans hperm

/-- When all its queries take one order, the page is the one of that order. -/
theorem evaluate_missingTransactions (hkeys : Keys db) (rs : RandomState) (n : UInt32) :
    ∃ missing, evaluate db rs (missingTransactions n) =
        .ok (missing, maxPages (Int64.ofNat (oftenMissing db).length)) ∧
      (missing.map (fun e => e.transaction.txid)).Perm (missingPage db rs n) := by
  obtain ⟨tr, hexec⟩ := selecting_evaluate db rs (missingTransactions n)
  obtain ⟨missing, -, hok, -, -⟩ := ensures_missingTransactions hkeys n tr _ _ hexec
  refine ⟨missing, hok, ?_⟩
  obtain ⟨data, hdata, hlisted⟩ : ∃ data : MissingTransactionsData, data.transactions =
      rs.order (db.transaction.rows.filter (fun tx => tx.txid ∈ missingPage db rs n)) ∧
      evaluate db rs (missingTransactions n) = listed data := ⟨⟨_, _, _, _⟩, rfl, rfl⟩
  have hmap := (listed_eq_ok (hlisted.symm.trans hok)).2.map (fun tx => tx.txid)
  rw [List.map_map, hdata] at hmap
  exact hmap.trans (perm_transactions hkeys rs rs n)

end Missing

section Conflicts

/-- The rows of conflicts in a block. -/
def conflictsOf (db : Database) (blockId : Int64) : List ConflictingTransaction :=
  db.conflictingTransactions.rows.filter (fun ct => ct.blockId = blockId)

/-- The set of a row of conflicts, its transactions found in the whole table. -/
def conflictSet (db : Database) (ct : ConflictingTransaction) :
    Except Failure ConflictingTransactionSet :=
  conflictingTransactionSet (txidToTx db.transaction.rows) ct

/-- The block with a set for each of its rows of conflicts, in some order. -/
def Shows (db : Database) (block : SharedModel.Block) (info : ConflictingTranscationInfo) : Prop :=
  info.block = block ∧ ∃ rows : List ConflictingTransaction,
    rows.Perm (conflictsOf db block.id) ∧
      rows.mapM (conflictSet db) = .ok info.conflictingTransactionSets

theorem conflictingTransactionSet_congr {m m' : HashMap (List UInt8) SharedModel.Transaction}
    {ct : ConflictingTransaction}
    (h : ∀ txid ∈ ct.templateTxids ++ ct.blockTxids, m.get? txid = m'.get? txid) :
    conflictingTransactionSet m ct = conflictingTransactionSet m' ct := by
  have htemplate : ct.templateTxids.mapM (fun txid => unwrap (m.get? txid)) =
      ct.templateTxids.mapM (fun txid => unwrap (m'.get? txid)) :=
    mapM_congr (fun txid ht => by rw [h txid (List.mem_append_left _ ht)])
  have hblock : ct.blockTxids.mapM (fun txid => unwrap (m.get? txid)) =
      ct.blockTxids.mapM (fun txid => unwrap (m'.get? txid)) :=
    mapM_congr (fun txid ht => by rw [h txid (List.mem_append_right _ ht)])
  rw [conflictingTransactionSet, htemplate, hblock, conflictingTransactionSet]

/-- The transactions that were loaded for some rows of conflicts are found as in the whole
table. -/
theorem conflictSet_of_loaded (rs : RandomState) {infos : List ConflictingTransaction}
    {ct : ConflictingTransaction} (hct : ct ∈ infos) :
    conflictingTransactionSet (txidToTx (rs.order (db.transaction.rows.filter
      (fun tx => tx.txid ∈ conflictingTxids infos)))) ct = conflictSet db ct := by
  refine conflictingTransactionSet_congr (fun txid ht => ?_)
  have hmem : txid ∈ conflictingTxids infos := List.mem_flatMap.mpr ⟨ct, hct, ht⟩
  exact HashMap.get?_collect_of_mem_iff db.transaction.nodup (fun tx => by simp) hmem

theorem conflictingTransactionInfo_eq_ok {m : HashMap (List UInt8) SharedModel.Transaction}
    {rows : List ConflictingTransaction} {block : SharedModel.Block}
    {info : ConflictingTranscationInfo} :
    conflictingTransactionInfo m rows block = .ok info ↔
      info.block = block ∧
        rows.mapM (conflictingTransactionSet m) = .ok info.conflictingTransactionSets := by
  rw [conflictingTransactionInfo, bind_eq_ok]
  constructor
  · rintro ⟨sets, hsets, h⟩
    cases h
    exact ⟨rfl, hsets⟩
  · rintro ⟨rfl, hsets⟩
    exact ⟨_, hsets, rfl⟩

theorem shows_of_info {m : HashMap (List UInt8) SharedModel.Transaction}
    {rows : List ConflictingTransaction} {block : SharedModel.Block}
    {info : ConflictingTranscationInfo} (hrows : rows.Perm (conflictsOf db block.id))
    (hm : ∀ ct ∈ rows, conflictingTransactionSet m ct = conflictSet db ct)
    (h : conflictingTransactionInfo m rows block = .ok info) : Shows db block info := by
  obtain ⟨hblock, hsets⟩ := conflictingTransactionInfo_eq_ok.mp h
  exact ⟨hblock, rows, hrows, (mapM_congr hm).symm.trans hsets⟩

/-- A block that can be shown at all is shown with the same sets in every order of its rows. -/
theorem info_of_shows {m : HashMap (List UInt8) SharedModel.Transaction}
    {rows : List ConflictingTransaction} {block : SharedModel.Block}
    {info : ConflictingTranscationInfo} (hrows : rows.Perm (conflictsOf db block.id))
    (hm : ∀ ct ∈ rows, conflictingTransactionSet m ct = conflictSet db ct)
    (h : Shows db block info) : ∃ info', conflictingTransactionInfo m rows block = .ok info' ∧
      info'.block = info.block ∧
      info'.conflictingTransactionSets.Perm info.conflictingTransactionSets := by
  obtain ⟨hblock, rows', hrows', hsets⟩ := h
  obtain ⟨sets, hsets', hperm⟩ := mapM_perm (hrows.trans hrows'.symm) hsets
  refine ⟨⟨block, sets⟩, ?_, hblock.symm, hperm⟩
  exact conflictingTransactionInfo_eq_ok.mpr ⟨rfl, (mapM_congr hm).trans hsets'⟩

theorem gives_conflictingTransactionsData (n : UInt32) :
    Gives db (conflictingTransactionsData n) (fun data =>
      (∀ block ∈ data.blocks, block ∈ db.block.rows ∧
        (data.conflictingTransactionsInfo.filter (fun ct => ct.blockId = block.id)).Perm
          (conflictsOf db block.id)) ∧
      ∀ ct ∈ data.conflictingTransactionsInfo,
        conflictingTransactionSet (txidToTx data.transactions) ct = conflictSet db ct) := by
  refine ensures_andThen (gives_load (P := fun _ => True) (fun rs => ⟨_, rfl, trivial⟩))
    (fun page _ => ?_)
  refine ensures_andThen (gives_load (P := fun counts => counts = [Int64.ofNat
    (db.conflictingTransactions.rows.map (fun row => row.blockId)).dedup.length])
    (fun rs => ⟨_, rfl, rfl⟩)) (fun counts hcounts => ?_)
  subst hcounts
  refine ensures_andThen (gives_load (P := fun (infos : List ConflictingTransaction) =>
    ∀ id ∈ page.map Prod.fst, (infos.filter (fun ct => ct.blockId = id)).Perm (conflictsOf db id))
    (fun rs => ⟨_, rfl, fun id hid => rs.filter_order_perm (fun ct hct => by
      rw [of_decide_eq_true hct]
      exact decide_eq_true hid)⟩)) (fun infos hinfos => ?_)
  refine ensures_andThen (gives_load (P := fun txns => ∀ ct ∈ infos,
    conflictingTransactionSet (txidToTx txns) ct = conflictSet db ct)
    (fun rs => ⟨_, rfl, fun ct hct => conflictSet_of_loaded rs hct⟩)) (fun txns htxns => ?_)
  refine ensures_andThen (gives_load (P := fun blocks => ∀ block ∈ blocks,
    block ∈ db.block.rows ∧ block.id ∈ page.map Prod.fst) (fun rs => ⟨_, rfl, fun block hb => by
      simpa using rs.mem_order.mp (mem_orderDesc.mp hb)⟩)) (fun blocks hblocks => ?_)
  refine gives_done ⟨fun block hb => ?_, htxns⟩
  exact ⟨(hblocks block hb).1, hinfos block.id (hblocks block hb).2⟩

theorem ensures_blocksWithConflictingTransactions (n : UInt32) :
    Ensures (selecting db) (blocksWithConflictingTransactions n) () (fun r _ =>
      ∀ blocks pages, r = .ok (blocks, pages) →
        ∀ e ∈ blocks, ∃ block ∈ db.block.rows, Shows db block e) := by
  refine ensures_andThen (gives_conflictingTransactionsData n) (fun data hdata => ?_)
  refine ensures_done (fun blocks pages h e he => ?_)
  obtain ⟨blocks', hall, h⟩ := bind_eq_ok.mp h
  cases h
  obtain ⟨block, hb, hof⟩ := exists_of_mem_mapM hall he
  obtain ⟨hmem, hperm⟩ := hdata.1 block hb
  exact ⟨block, hmem, shows_of_info hperm
    (fun ct hct => hdata.2 ct (List.mem_of_mem_filter hct)) hof⟩

theorem exec_block {block : SharedModel.Block} (hb : block ∈ db.block.rows) (rs : RandomState) :
    (Select.block block.hash).exec db rs = .ok block := by
  rw [Select.exec, db.block.find?_eq_some_iff.mpr ⟨hb, rfl⟩]
  rfl

theorem ensures_singleBlockWithConflictingTransactions {block : SharedModel.Block}
    (hb : block ∈ db.block.rows) {info : ConflictingTranscationInfo} (h : Shows db block info) :
    Ensures (selecting db) (singleBlockWithConflictingTransactions block.hash) () (fun r _ =>
      ∃ info', r = .ok info' ∧ info'.block = info.block ∧
        info'.conflictingTransactionSets.Perm info.conflictingTransactionSets) := by
  have hdata : Gives db (singleBlockWithConflictingTransactionsData block.hash) (fun data =>
      data.1 = block ∧ data.2.2.Perm (conflictsOf db block.id) ∧ ∀ ct ∈ data.2.2,
        conflictingTransactionSet (txidToTx data.2.1) ct = conflictSet db ct) := by
    refine ensures_andThen (gives_load (P := fun b => b = block)
      (fun rs => ⟨block, exec_block hb rs, rfl⟩)) (fun b hblock => ?_)
    rw [hblock]
    refine ensures_andThen (gives_load (P := fun (infos : List ConflictingTransaction) =>
      infos.Perm (conflictsOf db block.id)) (fun rs => ⟨_, rfl, ?_⟩)) (fun infos hinfos => ?_)
    · simpa [conflictsOf] using rs.perm (conflictsOf db block.id)
    refine ensures_andThen (gives_load (P := fun txns => ∀ ct ∈ infos,
      conflictingTransactionSet (txidToTx txns) ct = conflictSet db ct)
      (fun rs => ⟨_, rfl, fun ct hct => conflictSet_of_loaded rs hct⟩)) (fun txns htxns => ?_)
    exact gives_done ⟨rfl, hinfos, htxns⟩
  refine ensures_andThen hdata (fun data hdata => ?_)
  obtain ⟨b, txns, infos⟩ := data
  obtain ⟨rfl, hinfos, htxns⟩ := hdata
  exact ensures_done (info_of_shows hinfos htxns h)

end Conflicts

/-- Each entry of the listings is the one that the page of its transaction, or of its block,
shows. -/
structure ListingsAgree (db : Database) : Prop where
  missing : ∀ n, Ensures (selecting db) (missingTransactions n) () (fun r _ =>
    ∃ missing pages, r = .ok (missing, pages) ∧ ∀ e ∈ missing,
      Ensures (selecting db) (singleMissingTransaction e.transaction.txid) ()
        (fun r' _ => r' = .ok e))
  conflicts : ∀ n, Ensures (selecting db) (blocksWithConflictingTransactions n) () (fun r _ =>
    ∀ blocks pages, r = .ok (blocks, pages) → ∀ e ∈ blocks,
      Ensures (selecting db) (singleBlockWithConflictingTransactions e.block.hash) ()
        (fun r' _ => ∃ e', r' = .ok e' ∧ e'.block = e.block ∧
          e'.conflictingTransactionSets.Perm e.conflictingTransactionSets))

theorem listings_agree (hkeys : Keys db) : ListingsAgree db where
  missing n := by
    refine (ensures_missingTransactions hkeys n).mono (fun r _ h => ?_)
    obtain ⟨missing, -, rfl, -, hentries⟩ := h
    refine ⟨missing, _, rfl, fun e he => ?_⟩
    obtain ⟨tx, htx, hok, hetx⟩ := hentries e he
    rw [hetx, ← hok]
    exact ensures_singleMissingTransaction hkeys.blockIds htx
  conflicts n := by
    refine (ensures_blocksWithConflictingTransactions n).mono (fun r _ h => ?_)
    intro blocks pages hr e he
    obtain ⟨block, hblock, hshows⟩ := h blocks pages hr e he
    obtain rfl := hshows.1
    exact ensures_singleBlockWithConflictingTransactions hblock hshows

section Samples

def fullBlock (id : Int64) : SharedModel.Block :=
  { blockRow id with
    blockTx := 10
    templateTx := 10 }

/-- Two transactions are missing from three blocks, and conflict with a third one in two of
them. -/
def missingThrice : Database :=
  { Database.empty with
    block := ⟨[fullBlock 1, fullBlock 2, fullBlock 3], by decide⟩
    transaction := ⟨[transactionRow [7], transactionRow [8], transactionRow [9]], by decide⟩
    transactionOnlyInTemplate :=
      ⟨[⟨1, 0, 10, [7]⟩, ⟨1, 1, 10, [8]⟩, ⟨2, 0, 20, [7]⟩, ⟨2, 1, 20, [8]⟩, ⟨3, 0, 30, [7]⟩,
        ⟨3, 1, 30, [8]⟩], by decide⟩
    conflictingTransactions :=
      ⟨[⟨1, [[7]], [[9]], [[4]], [0]⟩, ⟨1, [[8]], [[9]], [[5]], [1]⟩,
        ⟨2, [[7]], [[9]], [[4]], [0]⟩], by decide⟩ }

theorem keys_missingThrice : Keys missingThrice :=
  ⟨by decide, by decide, by decide, by decide, by decide, by decide⟩

/-- How many entries a page has. -/
def entries (r : Except Failure (List α × UInt32)) : Option Nat :=
  match r with
  | .ok (l, _) => some l.length
  | .error _ => none

theorem listings_agree_missingThrice :
    entries (evaluate missingThrice .inserted (missingTransactions 0)) = some 2 ∧
      entries (evaluate missingThrice .inserted (blocksWithConflictingTransactions 0)) = some 2 ∧
      ListingsAgree missingThrice :=
  ⟨by decide, by decide, listings_agree keys_missingThrice⟩

end Samples

end MiningpoolObserver.Listings
