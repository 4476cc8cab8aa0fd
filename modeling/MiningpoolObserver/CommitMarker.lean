import MiningpoolObserver.Archive
import MiningpoolObserver.BlockPages
import MiningpoolObserver.Listings

namespace MiningpoolObserver.CommitMarker

open MiningpoolObserver.Library MiningpoolObserver.Library.CallTree
open MiningpoolObserver.Library.HashCollections MiningpoolObserver.Library.KeyedTable
open MiningpoolObserver.Library.KeyedTable.Table MiningpoolObserver.Library.Fallible
open MiningpoolObserver.Bitcoin MiningpoolObserver.DaemonModel MiningpoolObserver.SharedModel
open MiningpoolObserver.Db MiningpoolObserver.Daemon MiningpoolObserver.Process
open MiningpoolObserver.ProcessSpec MiningpoolObserver.BuiltRecords MiningpoolObserver.Footprint
open MiningpoolObserver.ProcessRecords MiningpoolObserver.Threads MiningpoolObserver.PageSafety
open MiningpoolObserver.BlockPages MiningpoolObserver.Archive
open MiningpoolObserver.Listings MiningpoolObserver.Processing.Conflicts
open MiningpoolObserver.SanctionCounts

/-- The tables that get rows of a block before its debug records. -/
inductive Part where
  | onlyInBlock
  | onlyInTemplate
  | sanctionedInfos
  | conflicting
deriving DecidableEq

namespace Part

def table : Part → TableName
  | onlyInBlock => .transactionOnlyInBlock
  | onlyInTemplate => .transactionOnlyInTemplate
  | sanctionedInfos => .sanctionedTransactionInfo
  | conflicting => .conflictingTransactions

/-- The order in which the tables get their rows. -/
def index : Part → ℕ
  | onlyInBlock => 0
  | onlyInTemplate => 1
  | sanctionedInfos => 2
  | conflicting => 3

abbrev Row : Part → Type
  | onlyInBlock => TransactionOnlyInBlock
  | onlyInTemplate => TransactionOnlyInTemplate
  | sanctionedInfos => SanctionedTransactionInfo
  | conflicting => ConflictingTransaction

/-- The statement that inserts rows. -/
def insert : (p : Part) → List p.Row → Statement
  | onlyInBlock => .insertTransactionsOnlyInBlock
  | onlyInTemplate => .insertTransactionsOnlyInTemplate
  | sanctionedInfos => .insertSanctionedTransactionInfos
  | conflicting => .insertConflictingTransactions

def blockId : (p : Part) → p.Row → Int64
  | onlyInBlock, row => TransactionOnlyInBlock.blockId row
  | onlyInTemplate, row => TransactionOnlyInTemplate.blockId row
  | sanctionedInfos, row => SanctionedTransactionInfo.blockId row
  | conflicting, row => ConflictingTransaction.blockId row

/-- The rows that a call of process has built. -/
def built (r : Records) : (p : Part) → List p.Row
  | onlyInBlock => r.onlyInBlock
  | onlyInTemplate => r.onlyInTemplate
  | sanctionedInfos => r.sanctionedInfos
  | conflicting => r.conflicting

def rows (db : Database) : (p : Part) → List p.Row
  | onlyInBlock => db.transactionOnlyInBlock.rows
  | onlyInTemplate => db.transactionOnlyInTemplate.rows
  | sanctionedInfos => db.sanctionedTransactionInfo.rows
  | conflicting => db.conflictingTransactions.rows

/-- The rows of a block. -/
def rowsOf (p : Part) (db : Database) (id : Int64) : List p.Row :=
  (p.rows db).filter (fun row => p.blockId row = id)

variable {p q : Part} {db db' : Database} {st : Statement}

@[simp] theorem target_insert (rows : List p.Row) : (p.insert rows).target = some p.table := by
  cases p <;> rfl

theorem insert_injective {rows rows' : List p.Row} (h : p.insert rows = p.insert rows') :
    rows = rows' := by
  cases p <;> injection h

theorem table_injective (h : p.table = q.table) : p = q := by
  cases p <;> cases q <;> first | rfl | cases h

theorem index_injective {p q : Part} (h : p.index = q.index) : p = q := by
  cases p <;> cases q <;> first | rfl | cases h

theorem index_lt (p : Part) : p.index < 4 := by
  cases p <;> decide

theorem table_ne_transaction (p : Part) : p.table ∉ [TableName.transaction] := by
  cases p <;> simp [table]

theorem table_ne_debug : p.table ≠ .debugTemplateSelection := by
  cases p <;> simp [table]

theorem table_ne_block : p.table ≠ .block := by
  cases p <;> simp [table]

theorem rows_of_kept {target : Option TableName} (h : Kept db target db')
    (ht : target ≠ some p.table) : p.rows db' = p.rows db := by
  cases p with
  | onlyInBlock => exact congrArg Table.rows (h.onlyInBlock ht)
  | onlyInTemplate => exact congrArg Table.rows (h.onlyInTemplate ht)
  | sanctionedInfos => exact congrArg Table.rows (h.sanctionedInfos ht)
  | conflicting => exact congrArg Table.rows (h.conflicting ht)

/-- Rows are inserted after those that there are. -/
theorem rows_of_insert {added : List p.Row} {a : (p.insert added).Result}
    (h : (p.insert added).Succeeds db a db') : p.rows db' = p.rows db ++ added := by
  cases p with
  | onlyInBlock =>
    cases onlyInBlock_appended h with
    | same hn _ => exact absurd rfl (hn _)
    | added he _ hrows =>
      cases he
      exact hrows
  | onlyInTemplate =>
    cases onlyInTemplate_appended h with
    | same hn _ => exact absurd rfl (hn _)
    | added he _ hrows =>
      cases he
      exact hrows
  | sanctionedInfos =>
    cases sanctionedInfos_appended h with
    | same hn _ => exact absurd rfl (hn _)
    | added he _ hrows =>
      cases he
      exact hrows
  | conflicting =>
    cases conflicting_appended h with
    | same hn _ => exact absurd rfl (hn _)
    | added he _ hrows =>
      cases he
      exact hrows

theorem blockId_mem (hf : db.ForeignKeys) {row : p.Row} (h : row ∈ p.rows db) :
    p.blockId row ∈ db.blockIds := by
  cases p with
  | onlyInBlock => exact (Database.references_iff.mp (hf.onlyInBlock row h)).1
  | onlyInTemplate => exact (Database.references_iff.mp (hf.onlyInTemplate row h)).1
  | sanctionedInfos => exact (Database.references_iff.mp (hf.sanctionedInfos row h)).1
  | conflicting => exact hf.conflicting row h

theorem rowsOf_eq_nil (hf : db.ForeignKeys) {id : Int64} (h : id ∉ db.blockIds) :
    p.rowsOf db id = [] := by
  refine List.filter_eq_nil_iff.mpr (fun row hrow he => h ?_)
  rw [← of_decide_eq_true he]
  exact blockId_mem hf hrow

variable {lib : Crates} {rs : RandomState} {network : Network} {block : Bitcoin.Block}
variable {fees : GetBlockTxFeesResult} {lt : List GetBlockTemplateResult} {c : Comparison}
variable {s : Sanctions} {b : NewBlock} {id : Int64} {r : Records}

/-- A call of process builds rows of its own block. -/
theorem blockId_built (h : Computes lib rs network block fees lt c s b id r) :
    ∀ row ∈ p.built r, p.blockId row = id := by
  obtain ⟨k, hk⟩ := h.made
  intro row hrow
  cases p with
  | onlyInBlock =>
    have hm : row ∈ r.onlyInBlock := hrow
    rw [hk.blockRows] at hm
    obtain ⟨i, -, rfl⟩ := List.mem_map.mp hm
    rfl
  | onlyInTemplate =>
    have hm : (row.blockId, row.position, row.transactionTxid) ∈ r.onlyInTemplate.map
        (fun row => (row.blockId, row.position, row.transactionTxid)) := List.mem_map_of_mem hrow
    rw [hk.templateRows] at hm
    obtain ⟨i, -, he⟩ := List.mem_map.mp hm
    exact (Prod.mk.inj he).1.symm
  | sanctionedInfos =>
    have hm : row ∈ r.sanctionedInfos := hrow
    rw [hk.sanctionedRows] at hm
    obtain hm | hm := List.mem_append.mp hm <;>
    · obtain ⟨i, -, rfl⟩ := List.mem_map.mp hm
      rfl
  | conflicting =>
    have hm : row ∈ r.conflicting := hrow
    rw [hk.conflicting] at hm
    obtain ⟨i, -, rfl⟩ := List.mem_map.mp hm
    rfl

/-- Rows that a call adds to a part are added to its own block. -/
theorem rowsOf_of_added {p₀ : Part} (h : Computes lib rs network block fees lt c s b id r)
    (hrows : p₀.rows db' = p₀.rows db ++ p₀.built r)
    (hother : ∀ q : Part, q ≠ p₀ → q.rows db' = q.rows db) {id' : Int64} (hne : id' ≠ id) :
    p.rowsOf db' id' = p.rowsOf db id' := by
  by_cases hp : p = p₀
  · subst hp
    have hnone : (p.built r).filter (fun row => p.blockId row = id') = [] :=
      List.filter_eq_nil_iff.mpr (fun row hrow he =>
        hne ((of_decide_eq_true he).symm.trans (blockId_built h row hrow)))
    rw [rowsOf, hrows, List.filter_append, hnone, List.append_nil, rowsOf]
  · rw [rowsOf, hother p hp, rowsOf]

/-- Its block has them after those that it had. -/
theorem rowsOf_of_own (h : Computes lib rs network block fees lt c s b id r)
    (hrows : p.rows db' = p.rows db ++ p.built r) :
    p.rowsOf db' id = p.rowsOf db id ++ p.built r := by
  have hall : (p.built r).filter (fun row => p.blockId row = id) = p.built r :=
    List.filter_eq_self.mpr (fun row hrow => decide_eq_true (blockId_built h row hrow))
  rw [rowsOf, hrows, List.filter_append, hall, rowsOf]

end Part

variable {lib : Crates} {rs : RandomState} {network : Network} {block : Bitcoin.Block}
variable {fees : GetBlockTxFeesResult} {lt : List GetBlockTemplateResult} {c : Comparison}
variable {s : Sanctions} {b : NewBlock} {blockId : Int64} {r : Records} {tr tr' : Calls lib}

theorem debugInfos_of_computes (h : Computes lib rs network block fees lt c s b blockId r) :
    ∀ info ∈ r.debugInfos, info.blockId = blockId := by
  obtain ⟨conflicting, ages, -, hr⟩ := h.records
  obtain ⟨onlyInTemplate, -, hr⟩ := bind_eq_ok.mp hr
  obtain ⟨onlyInBlock, -, hr⟩ := bind_eq_ok.mp hr
  obtain ⟨sanctionedInfos, -, hr⟩ := bind_eq_ok.mp hr
  obtain ⟨debugInfos, hd, hr⟩ := bind_eq_ok.mp hr
  cases hr
  intro info hinfo
  obtain ⟨t, -, ht⟩ := exists_of_mem_mapM hd hinfo
  cases htime : lib.timestamp t.currentTime.toInt64 with
  | none =>
    simp only [htime] at ht
    cases ht
  | some time =>
    simp only [htime] at ht
    cases ht
    rfl

section Order

variable (lib rs network block fees lt) in
/-- The rows of a call are written once for each table, one table after the other, and the debug
records after all of them. -/
def Commits (tr : Calls lib) : Daemon.Call → Prop
  | .sql st => (∀ p : Part, st.target = some p.table →
        (∀ q : Part, p.index ≤ q.index → Untouched tr q.table) ∧
        Untouched tr .debugTemplateSelection ∧ ∃ blockId r,
          RecordsOf lib rs network block fees lt blockId r tr ∧ st = p.insert (p.built r) ∧
          ∀ q : Part, q.index < p.index → Stored tr (q.insert (q.built r))) ∧
      (st.target = some .debugTemplateSelection → Untouched tr .debugTemplateSelection ∧
        ∃ blockId r, RecordsOf lib rs network block fees lt blockId r tr ∧
          st = .insertDebugTemplateSelectionInfos r.debugInfos ∧
          ∀ p : Part, Stored tr (p.insert (p.built r)))
  | _ => True

/-- The tables that `Commits` is about. -/
def markedTables : List TableName :=
  [.transactionOnlyInBlock, .transactionOnlyInTemplate, .sanctionedTransactionInfo,
    .conflictingTransactions, .debugTemplateSelection]

theorem Part.mem_markedTables (p : Part) : p.table ∈ markedTables := by
  cases p <;> simp [Part.table, markedTables]

theorem commits_of_within {ts : List TableName} (hts : ∀ t ∈ ts, t ∉ markedTables)
    {c : Daemon.Call} (h : Within ts c) : Commits lib rs network block fees lt tr c := by
  cases c with
  | sql st =>
    refine ⟨fun p hp => absurd p.mem_markedTables (hts _ (h _ hp)), fun hd => ?_⟩
    exact absurd (by simp [markedTables]) (hts _ (h _ hd))
  | _ => trivial

/-- A part that writes to other tables only. -/
theorem commits_of_writes {α : Type} (ts : List TableName) {p : Prog Daemon.signature α}
    (hp : Footprint.Writes ts p) (hts : ∀ t ∈ ts, t ∉ markedTables) :
    Prog.Always (Commits lib rs network block fees lt)
      (fun tr' _ => Extends (Within ts) tr tr') tr p :=
  (hp.always (Extends.refl tr)).mono (fun _ _ h => commits_of_within hts h.2) (fun _ _ h => h)

/-- The records of a call are stored up to the table with the number, and not further. -/
structure Filling (lib : Crates) (rs : RandomState) (network : Network) (block : Bitcoin.Block)
    (fees : GetBlockTxFeesResult) (lt : List GetBlockTemplateResult) (blockId : Int64) (r : Records)
    (n : ℕ) (tr : Calls lib) : Prop where
  records : RecordsOf lib rs network block fees lt blockId r tr
  stored : ∀ p : Part, p.index < n → Stored tr (p.insert (p.built r))
  untouched : ∀ p : Part, n ≤ p.index → Untouched tr p.table
  unmarked : Untouched tr .debugTemplateSelection

variable {n : ℕ}

theorem Filling.extends {ts : List TableName}
    (h : Filling lib rs network block fees lt blockId r n tr)
    (hts : ∀ p : Part, n ≤ p.index → p.table ∉ ts) (hd : .debugTemplateSelection ∉ ts)
    (he : Extends (Within ts) tr tr') : Filling lib rs network block fees lt blockId r n tr' where
  records := h.records.extends he
  stored p hp := Stored.extends (h.stored p hp) he
  untouched p hp := (h.untouched p hp).extends (hts p hp) he
  unmarked := h.unmarked.extends hd he

theorem Filling.write {p : Part}
    (h : Filling lib rs network block fees lt blockId r p.index tr) (w : World lib)
    (a : (p.insert (p.built r)).Result) :
    Filling lib rs network block fees lt blockId r (p.index + 1)
      (tr ++ [succeeded w (p.insert (p.built r)) a]) := by
  have he : Extends (Within [p.table]) tr (tr ++ [succeeded w (p.insert (p.built r)) a]) :=
    (Extends.refl tr).snoc (within_of_target (Part.target_insert _))
  refine ⟨h.records.extends he, fun q hq => ?_, fun q hq => ?_, h.unmarked.extends ?_ he⟩
  · obtain hq | hq := Nat.lt_succ_iff_lt_or_eq.mp hq
    · exact Stored.extends (h.stored q hq) he
    · obtain rfl := Part.index_injective hq
      exact stored_snoc tr w _ a
  · refine (h.untouched q (Nat.le_of_succ_le hq)).extends (fun hm => ?_) he
    obtain rfl := Part.table_injective (List.mem_singleton.mp hm)
    exact absurd hq (Nat.not_succ_le_self _)
  · exact fun hm => Part.table_ne_debug (List.mem_singleton.mp hm).symm

/-- The next table gets its rows. -/
theorem insertPart_commits (p : Part)
    (h : Filling lib rs network block fees lt blockId r p.index tr) :
    Prog.Always (Commits lib rs network block fees lt) (fun tr' x => ∀ u, x = .ok u →
      Filling lib rs network block fees lt blockId r (p.index + 1) tr') tr
      (orReturn (p.insert (p.built r))) := by
  refine always_orReturn ⟨fun q hq => ?_, fun hq => ?_⟩ (fun w a u _ => h.write w a)
    (fun _ _ _ hu => by cases hu)
  · rw [Part.target_insert, Option.some_inj] at hq
    obtain rfl := Part.table_injective hq
    exact ⟨h.untouched, h.unmarked, blockId, r, h.records, rfl, h.stored⟩
  · rw [Part.target_insert, Option.some_inj] at hq
    exact absurd hq Part.table_ne_debug

theorem storeRecords_commits {utxos : List SanctionedUtxo}
    (h : Filling lib rs network block fees lt blockId r 0 tr) :
    Prog.Always (Commits lib rs network block fees lt) (fun _ _ => True) tr
      (storeRecords rs r utxos) := by
  have hi : Footprint.Writes [.transaction]
      ((Process.insertTransactions (r.transactions.values rs)).bind
        (fun x => .done (returnOnError x)) : Routine Unit) :=
    (insertTransactions_writes _).bind (fun _ => trivial)
  refine Prog.Always.andThen (commits_of_writes _ hi (by simp [markedTables])) ?_
    (fun _ _ _ => trivial)
  intro tr₁ _ he₁
  have h₁ := h.extends (fun p _ => Part.table_ne_transaction p) (by simp) he₁
  refine Prog.Always.andThen (insertPart_commits .onlyInBlock h₁) ?_ (fun _ _ _ => trivial)
  intro tr₂ u h₂
  refine Prog.Always.andThen (insertPart_commits .onlyInTemplate (h₂ u rfl)) ?_
    (fun _ _ _ => trivial)
  intro tr₃ u h₃
  refine Prog.Always.andThen (insertPart_commits .sanctionedInfos (h₃ u rfl)) ?_
    (fun _ _ _ => trivial)
  intro tr₄ u h₄
  refine Prog.Always.andThen (insertPart_commits .conflicting (h₄ u rfl)) ?_ (fun _ _ _ => trivial)
  intro tr₅ u h₅
  refine Prog.Always.andThen
    (commits_of_writes _ (recordNewUtxos_writes utxos) (by simp [markedTables])) ?_
    (fun _ _ _ => trivial)
  intro tr₆ _ he₆
  have h₆ := (h₅ u rfl).extends (fun p hp => absurd (Part.index_lt p) (Nat.not_lt.mpr hp))
    (by simp) he₆
  refine always_orReturn ⟨fun q hq => ?_, fun _ => ⟨h₆.unmarked, ?_⟩⟩
    (fun _ _ => trivial) (fun _ _ => trivial)
  · exact absurd (Option.some_inj.mp hq).symm Part.table_ne_debug
  · exact ⟨blockId, r, h₆.records, rfl, fun q => h₆.stored q (Part.index_lt q)⟩

/-- After the block row is in, records are built that belong to it. -/
theorem buildRecords_commits {w : World lib} (hc : compareBlock lib block fees lt = .ok c)
    (hrow : BuildsRow lib network block fees c s b) (h : Harmless tr) :
    Prog.Always (Commits lib rs network block fees lt) (fun tr' x => ∀ r, x = .ok r →
      Filling lib rs network block fees lt blockId r 0 tr')
      (tr ++ [succeeded w (.insertBlock b) blockId]) (buildRecords lib rs blockId c s lt) := by
  refine Prog.Always.andThen (D := fun tr' x =>
    tr' = tr ++ [succeeded w (.insertBlock b) blockId] ∧ ∀ conflicting, x = .ok conflicting →
      buildConflictingTransactions lib rs blockId c.txidsOnlyInTemplate
        c.templateTxData.txidToTxinfoMap c.txidsOnlyInBlock c.blockTxData.txidToTxinfoMap
        HashMap.empty s.utxoMap s.addresses = .ok conflicting)
    (always_orPanic (fun a ha => ⟨rfl, ?_⟩) (fun _ => ⟨rfl, fun _ h => by cases h⟩)) ?_
    (fun _ _ _ _ h => by cases h)
  · rintro _ ⟨⟩
    exact ha
  rintro _ conflicting ⟨rfl, hconf⟩
  refine Prog.Always.bind (commits_of_writes [] mempoolAgeSeconds_writes (by simp)) ?_
  intro tr' ages he
  refine always_orPanic (fun r hr => ?_) (fun _ _ h => by cases h)
  rintro _ ⟨⟩
  have hopen : ∀ t, t ≠ .block → Untouched tr' t := by
    intro t ht
    have hopen : Untouched (tr ++ [succeeded w (.insertBlock b) blockId]) t :=
      (Harmless.untouched h t).extends (fun hm => ht (List.mem_singleton.mp hm))
        ((Extends.refl tr).snoc (within_of_target rfl))
    exact hopen.extends List.not_mem_nil he
  refine ⟨⟨c, s, b, w, ⟨hc, hrow, conflicting, ages, hconf conflicting rfl, hr⟩, ?_⟩,
    fun p hp => absurd hp (Nat.not_lt_zero _), fun p _ => hopen _ Part.table_ne_block,
    hopen _ (by simp)⟩
  exact he.subset (by simp)

/-- Once the block row is in, the records of the call are built and stored. -/
theorem process_commits : Prog.Always (Commits lib rs network block fees lt) (fun _ _ => True)
    ([] : Calls lib) (Process.process lib rs network block fees lt) := by
  refine Prog.Always.andThen (D := fun tr x => tr = [] ∧ ∀ c, x = .ok c →
    compareBlock lib block fees lt = .ok c)
    (always_orPanic (fun c hc => ⟨rfl, ?_⟩) (fun _ => ⟨rfl, fun _ hc => by cases hc⟩)) ?_
    (fun _ _ _ => trivial)
  · rintro _ ⟨⟩
    exact hc
  rintro _ c ⟨rfl, hc⟩
  have hc := hc c rfl
  refine Prog.Always.andThen (commits_of_writes [] getConnection_writes (by simp)) ?_
    (fun _ _ _ => trivial)
  intro tr₁ _ he₁
  refine Prog.Always.andThen (commits_of_writes [] loadSanctions_writes (by simp)) ?_
    (fun _ _ _ => trivial)
  intro tr₂ s he₂
  have h₂ : Harmless tr₂ :=
    Harmless.extends (Harmless.extends (fun _ _ _ hs => by cases hs) he₁) he₂
  have hwrites : Prog.Always (Commits lib rs network block fees lt)
      (fun tr' _ => Extends (Within [.block]) tr₂ tr') tr₂
      (recordBlock lib network block fees c s) :=
    commits_of_writes [.block] recordBlock_writes (by simp [markedTables])
  have hopens : Prog.Always (ProcessRecords.Issues lib rs network block fees lt)
      (ProcessRecords.Opened lib network block fees c s) tr₂
      (recordBlock lib network block fees c s) := recordBlock_issues hc h₂
  refine Prog.Always.andThen ((hwrites.and hopens).mono (fun _ _ h => h.1) (fun _ _ h => h.2)) ?_
    (fun _ _ _ => trivial)
  rintro _ blockId ⟨b, w, tr₃, hrow, h₃, rfl⟩
  exact Prog.Always.andThen (buildRecords_commits hc hrow h₃)
    (fun tr₄ r hr => storeRecords_commits (hr r rfl)) (fun _ _ _ => trivial)

end Order

section Steps

variable {D : Drift lib} {allowed : Thread → Job → World lib → Prop} {C C' : Config lib}
variable {l : Label lib}

/-- What a step of the threads does to blocks, to their rows and to their debug records. -/
inductive Written (C : Config lib) : Label lib → Config lib → Prop
  | same {l : Label lib} {C' : Config lib} :
      (∀ i w b blockId, l ≠ .call i (succeeded w (.insertBlock b) blockId)) →
      (∀ i w st a (p : Part), st.target = some p.table → l ≠ .call i (succeeded w st a)) →
      (∀ p : Part, p.rows C'.world.db = p.rows C.world.db) →
      C'.world.db.debugTemplateSelection = C.world.db.debugTemplateSelection →
      (∀ row ∈ C'.world.db.block.rows, ∃ row₀ ∈ C.world.db.block.rows, ∃ poolName : String,
        row = { row₀ with poolName := poolName }) → Written C l C'
  | opened {i : Thread} {b : NewBlock} {blockId : Int64} {C' : Config lib} :
      blockId ∉ C.world.db.blockIds →
      C'.world.db.block.rows = C.world.db.block.rows ++ [{ b with id := blockId }] →
      (∀ p : Part, p.rows C'.world.db = p.rows C.world.db) →
      C'.world.db.debugTemplateSelection = C.world.db.debugTemplateSelection →
      Written C (.call i (succeeded C.world (.insertBlock b) blockId)) C'
  | inserted {i : Thread} {rs : RandomState} {network : Network} {block : Bitcoin.Block}
      {fees : GetBlockTxFeesResult} {lt : List GetBlockTemplateResult} {tr : Calls lib}
      {rest : Routine Unit} {p : Part} {blockId : Int64} {r : Records}
      {a : (p.insert (p.built r)).Result} {C' : Config lib} :
      C.running i = some ⟨.process rs network block fees lt, tr, rest⟩ →
      Filling lib rs network block fees lt blockId r p.index tr →
      C'.world.db.block = C.world.db.block →
      C'.world.db.debugTemplateSelection = C.world.db.debugTemplateSelection →
      (∀ q : Part, q ≠ p → q.rows C'.world.db = q.rows C.world.db) →
      p.rows C'.world.db = p.rows C.world.db ++ p.built r →
      Written C (.call i (succeeded C.world (p.insert (p.built r)) a)) C'
  | marked {i : Thread} {rs : RandomState} {network : Network} {block : Bitcoin.Block}
      {fees : GetBlockTxFeesResult} {lt : List GetBlockTemplateResult} {tr : Calls lib}
      {rest : Routine Unit} {blockId : Int64} {r : Records} {C' : Config lib} :
      C.running i = some ⟨.process rs network block fees lt, tr, rest⟩ →
      Untouched tr .debugTemplateSelection →
      RecordsOf lib rs network block fees lt blockId r tr →
      (∀ p : Part, Stored tr (p.insert (p.built r))) → C'.world.db.block = C.world.db.block →
      (∀ p : Part, p.rows C'.world.db = p.rows C.world.db) →
      (∃ added ⊆ r.debugInfos, C'.world.db.debugTemplateSelection.rows =
        C.world.db.debugTemplateSelection.rows ++ added) →
      Written C (.call i (succeeded C.world (.insertDebugTemplateSelectionInfos r.debugInfos) ()))
        C'

theorem debug_of_insert {db db' : Database} {infos : List DebugTemplateSelectionInfo}
    (h : (Statement.insertDebugTemplateSelectionInfos infos).Succeeds db () db') :
    ∃ added ⊆ infos,
      db'.debugTemplateSelection.rows = db.debugTemplateSelection.rows ++ added := by
  obtain ⟨blockId, r₀, hx, -⟩ := h
  simp only [Statement.exec] at hx
  split at hx
  · cases hx
    rw [rows_insertNew]
    exact ⟨_, fun info hinfo => mem_of_mem_insertNew hinfo, rfl⟩
  · cases hx

/-- A statement that neither inserts rows of a part nor debug records. -/
theorem written_of_block {i : Thread} {st : Statement} {x : st.Result}
    (h : st.Succeeds C.world.db x C'.world.db)
    (hparts : ∀ p : Part, st.target ≠ some p.table)
    (hdebug : st.target ≠ some .debugTemplateSelection) :
    Written C (.call i (succeeded C.world st x)) C' := by
  have hk := kept_of_succeeds h
  have hrows : ∀ p : Part, p.rows C'.world.db = p.rows C.world.db :=
    fun p => Part.rows_of_kept hk (hparts p)
  have hn : ∀ i' w st' x' (p : Part), st'.target = some p.table →
      (.call i (succeeded C.world st x) : Label lib) ≠ .call i' (succeeded w st' x') := by
    intro i' w st' x' p hp he
    cases he
    exact hparts p hp
  cases blockChange_of_succeeds h with
  | none hb hblock =>
    refine .same (fun i' w b blockId he => ?_) hn hrows (hk.debug hdebug) (fun row hrow => ?_)
    · cases he
      exact hb rfl
    · exact ⟨row, hblock ▸ hrow, row.poolName, rfl⟩
  | insert hfresh hblock => exact .opened hfresh hblock hrows (hk.debug hdebug)
  | @rename id newPoolName _ hblock =>
    refine .same (fun i' w b blockId he => by cases he) hn hrows (hk.debug hdebug)
      (fun row hrow => ?_)
    rw [hblock] at hrow
    obtain ⟨row₀, hrow₀, rfl⟩ := List.mem_map.mp hrow
    by_cases hid : row₀.id = id
    · exact ⟨row₀, hrow₀, newPoolName, by rw [setPoolName, if_pos hid]⟩
    · exact ⟨row₀, hrow₀, row₀.poolName, by rw [setPoolName, if_neg hid]⟩

theorem written_of_step (hD : D.KeepsDb) (hc : Tasks.Coherent (system lib D allowed) C)
    (h : Tasks.Step (system lib D allowed) C l C') : Written C l C' := by
  cases dbStep_of_step hD h with
  | same hl hdb =>
    refine .same (fun i w b blockId => hl i w _ _) (fun i w st a _ _ => hl i w st a)
      (fun p => by rw [hdb]) (by rw [hdb]) (fun row hrow => ⟨row, hdb ▸ hrow, row.poolName, rfl⟩)
  | @exec i j tr st k a _ hi hs =>
    have hk := kept_of_succeeds hs
    obtain ⟨rs, network, block, fees, lt, rfl, -⟩ | hw := issues_or_within hc hi
    · obtain ⟨hparts, hdebug⟩ : Commits lib rs network block fees lt tr (.sql st) :=
        hc.call_spec hi process_commits
      by_cases hp : ∃ p : Part, st.target = some p.table
      · obtain ⟨p, hp⟩ := hp
        obtain ⟨hu, hd, blockId, r, hr, rfl, hstored⟩ := hparts p hp
        refine .inserted hi ⟨hr, hstored, hu, hd⟩ (hk.block ?_) (hk.debug ?_) (fun q hq => ?_)
          (Part.rows_of_insert hs)
        · rw [Part.target_insert]
          exact fun he => Part.table_ne_block (Option.some_inj.mp he)
        · rw [Part.target_insert]
          exact fun he => Part.table_ne_debug (Option.some_inj.mp he)
        · refine Part.rows_of_kept hk ?_
          rw [Part.target_insert]
          exact fun he => hq (Part.table_injective (Option.some_inj.mp he)).symm
      · by_cases hd : st.target = some .debugTemplateSelection
        · obtain ⟨hu, blockId, r, hr, rfl, hall⟩ := hdebug hd
          refine .marked hi hu hr hall (hk.block (by simp [hd])) (fun p => ?_) (debug_of_insert hs)
          exact Part.rows_of_kept hk (fun he => hp ⟨p, he⟩)
        · exact written_of_block hs (fun p he => hp ⟨p, he⟩) hd
    · refine written_of_block hs (fun p he => ?_) (fun he => ?_)
      · have hm := hw _ he
        cases p <;> simp [Part.table, otherTables] at hm
      · have hm := hw _ he
        simp [otherTables] at hm

end Steps

section Marks

variable {D : Drift lib} {allowed : Thread → Job → World lib → Prop} {C C' : Config lib}
variable {l : Label lib} {db db' : Database}

/-- The block has a debug record. -/
def Marked (db : Database) (blockId : Int64) : Prop :=
  ∃ info ∈ db.debugTemplateSelection.rows, info.blockId = blockId

/-- The debug records of a block. -/
def debugRowsOf (db : Database) (blockId : Int64) : List DebugTemplateSelectionInfo :=
  db.debugTemplateSelection.rows.filter (fun info => info.blockId = blockId)

/-- What blocks with debug records have stays as it is: nothing goes, and nothing comes. -/
def Final (db db' : Database) : Prop :=
  ∀ blockId, Marked db blockId → debugRowsOf db' blockId = debugRowsOf db blockId ∧
    ∀ p : Part, p.rowsOf db' blockId = p.rowsOf db blockId

theorem marked_iff_ne_nil : Marked db blockId ↔ debugRowsOf db blockId ≠ [] := by
  rw [debugRowsOf, Ne, List.filter_eq_nil_iff]
  simp [Marked]

theorem Final.refl (db : Database) : Final db db := fun _ _ => ⟨rfl, fun _ => rfl⟩

theorem Final.trans {db'' : Database} (h : Final db db') (h' : Final db' db'') :
    Final db db'' := by
  intro blockId hm
  obtain ⟨hdebug, hparts⟩ := h blockId hm
  obtain ⟨hdebug', hparts'⟩ := h' blockId (by rwa [marked_iff_ne_nil, hdebug, ← marked_iff_ne_nil])
  exact ⟨hdebug'.trans hdebug, fun p => (hparts' p).trans (hparts p)⟩

/-- The database has what a call of process has built for a block, all of it and nothing else. The
name of the pool can be another one by now. -/
structure Complete (db : Database) (row : SharedModel.Block) (b : NewBlock) (r : Records) :
    Prop where
  block : { row.toNewBlock with poolName := b.poolName } = b
  parts : ∀ p : Part, p.rowsOf db row.id = p.built r
  debug : ∀ info ∈ db.debugTemplateSelection.rows, info.blockId = row.id → info ∈ r.debugInfos

variable (lib allowed) in
/-- One call of process has recorded the block. -/
def Committed (db : Database) (row : SharedModel.Block) : Prop :=
  ∃ i w rs network block fees lt c s b r, allowed i (.process rs network block fees lt) w ∧
    Computes lib rs network block fees lt c s b row.id r ∧ Complete db row b r

theorem Complete.kept {row row₀ : SharedModel.Block} (h : Complete db row₀ b r)
    (hrow : ∃ poolName : String, row = { row₀ with poolName := poolName })
    (hparts : ∀ p : Part, p.rowsOf db' row₀.id = p.rowsOf db row₀.id)
    (hdebug : ∀ info ∈ db'.debugTemplateSelection.rows, info.blockId = row₀.id →
      info ∈ db.debugTemplateSelection.rows) : Complete db' row b r := by
  obtain ⟨poolName, rfl⟩ := hrow
  exact ⟨h.block, fun p => (hparts p).trans (h.parts p),
    fun info hinfo hid => h.debug info (hdebug info hinfo hid) hid⟩

theorem Committed.kept {row row₀ : SharedModel.Block} (h : Committed lib allowed db row₀)
    (hrow : ∃ poolName : String, row = { row₀ with poolName := poolName })
    (hparts : ∀ p : Part, p.rowsOf db' row₀.id = p.rowsOf db row₀.id)
    (hdebug : ∀ info ∈ db'.debugTemplateSelection.rows, info.blockId = row₀.id →
      info ∈ db.debugTemplateSelection.rows) : Committed lib allowed db' row := by
  obtain ⟨i, w, rs, network, block, fees, lt, c, s, b, r, hj, hr, hcomplete⟩ := h
  refine ⟨i, w, rs, network, block, fees, lt, c, s, b, r, hj, ?_,
    hcomplete.kept hrow hparts hdebug⟩
  obtain ⟨poolName, rfl⟩ := hrow
  exact hr

theorem statement_eq {w w' : World lib} {st st' : Statement} {x : st.Result} {x' : st'.Result}
    (h : succeeded w st x = succeeded w' st' x') : st = st' := by
  cases h
  rfl

/-- How far a call of process has come with the block that it has opened. -/
structure Progress (db : Database) (tr : Calls lib) (b : NewBlock) (blockId : Int64) : Prop where
  block : ∀ row ∈ db.block.rows, row.id = blockId →
    { row.toNewBlock with poolName := b.poolName } = b
  unmarked : Untouched tr .debugTemplateSelection → ¬ Marked db blockId
  empty : ∀ p : Part, Untouched tr p.table → p.rowsOf db blockId = []
  stored : ∀ (p : Part) (rows : List p.Row), Stored tr (p.insert rows) →
    (∀ row ∈ rows, p.blockId row = blockId) → p.rowsOf db blockId = rows

theorem Progress.kept (h : Progress db tr b blockId) (hsub : tr ⊆ tr')
    (hblock : ∀ row ∈ db'.block.rows, row.id = blockId → ∃ row₀ ∈ db.block.rows,
      ∃ poolName : String, row = { row₀ with poolName := poolName })
    (hparts : ∀ p : Part, p.rowsOf db' blockId = p.rowsOf db blockId)
    (hdebug : Untouched tr' .debugTemplateSelection → Marked db' blockId → Marked db blockId)
    (hstored : ∀ (p : Part) (rows : List p.Row), Stored tr' (p.insert rows) →
      Stored tr (p.insert rows)) : Progress db' tr' b blockId where
  block row hrow hid := by
    obtain ⟨row₀, hrow₀, poolName, rfl⟩ := hblock row hrow hid
    exact h.block row₀ hrow₀ hid
  unmarked hu hm := h.unmarked (Untouched.of_subset hu hsub) (hdebug hu hm)
  empty p hu := (hparts p).trans (h.empty p (Untouched.of_subset hu hsub))
  stored p rows hs hids := (hparts p).trans (h.stored p rows (hstored p rows hs) hids)

/-- The call itself inserts the rows of a part. -/
theorem Progress.filled (h : Progress db tr b blockId) {p : Part} {rows : List p.Row}
    {w : World lib} {x : (p.insert rows).Result} (hu : Untouched tr p.table)
    (hblock : db'.block = db.block)
    (hdebug : db'.debugTemplateSelection = db.debugTemplateSelection)
    (hother : ∀ q : Part, q ≠ p → q.rows db' = q.rows db) (hp : p.rows db' = p.rows db ++ rows) :
    Progress db' (tr ++ [succeeded w (p.insert rows) x]) b blockId := by
  have hall : p.rowsOf db' blockId = rows.filter (fun row => p.blockId row = blockId) := by
    rw [Part.rowsOf, hp, List.filter_append]
    exact congrArg (· ++ _) (h.empty p hu)
  refine ⟨fun row hrow => h.block row (hblock ▸ hrow), fun hu' => ?_, fun q hu' => ?_,
    fun q rows' hs hids' => ?_⟩
  · rw [Marked, hdebug]
    exact h.unmarked (Untouched.of_subset hu' (List.subset_append_left _ _))
  · have hne : q ≠ p := by
      rintro rfl
      exact hu' w _ x (List.mem_append_right _ List.mem_cons_self) (Part.target_insert _)
    rw [Part.rowsOf, hother q hne]
    exact h.empty q (Untouched.of_subset hu' (List.subset_append_left _ _))
  · obtain ⟨v, y, hmem⟩ := hs
    by_cases hne : q = p
    · subst hne
      obtain hmem | hmem := List.mem_append.mp hmem
      · exact absurd (Part.target_insert _) (hu v _ y hmem)
      · obtain rfl := Part.insert_injective (statement_eq (List.mem_singleton.mp hmem))
        rw [hall]
        exact List.filter_eq_self.mpr (fun row hrow => decide_eq_true (hids' row hrow))
    · obtain hmem | hmem := List.mem_append.mp hmem
      · rw [Part.rowsOf, hother q hne]
        exact h.stored q rows' ⟨v, y, hmem⟩ hids'
      · have ht := congrArg Statement.target (statement_eq (List.mem_singleton.mp hmem))
        rw [Part.target_insert, Part.target_insert, Option.some_inj] at ht
        exact absurd (Part.table_injective ht) hne

/-- What a job has stored it had stored before, or stores in this step. -/
theorem stored_of_step (h : Tasks.Step (system lib D allowed) C l C') {i : Thread}
    {task' : Tasks.Task Daemon.signature (World lib) Job (Except Abort Unit)}
    (ht : C'.running i = some task') {st : Statement} (hs : Stored task'.trace st) :
    (∃ task, C.running i = some task ∧ Stored task.trace st) ∨
      ∃ w x, l = .call i (succeeded w st x) := by
  obtain ⟨w, x, hw⟩ := hs
  obtain hnil | ⟨hi, -⟩ | ⟨task, e, hi, rfl, htr⟩ := Tasks.trace_of_step h ht
  · rw [hnil] at hw
    cases hw
  · exact .inl ⟨task', hi, w, x, hw⟩
  · rw [htr] at hw
    obtain hw | hw := List.mem_append.mp hw
    · exact .inl ⟨task, hi, w, x, hw⟩
    · exact .inr ⟨w, x, by rw [List.mem_singleton.mp hw]⟩

/-- A database whose debug records belong to blocks that one call of process each has recorded. -/
def Upheld (lib : Crates) (allowed : Thread → Job → World lib → Prop) (db : Database) : Prop :=
  ∀ row ∈ db.block.rows, Marked db row.id → Committed lib allowed db row

/-- A debug record is the last that a call of process stores for its block. -/
structure Marks (D : Drift lib) (allowed : Thread → Job → World lib → Prop) (C : Config lib) :
    Prop where
  owned : Owned D allowed C
  upheld : Upheld lib allowed C.world.db
  known : ∀ i task, C.running i = some task → ∀ (p : Part) (rows : List p.Row),
    Stored task.trace (p.insert rows) → ∀ row ∈ rows, p.blockId row ∈ C.world.db.blockIds
  progress : ∀ i task, C.running i = some task → ∀ b blockId, Opened task.trace b blockId →
    Progress C.world.db task.trace b blockId

theorem Marks.known_step (h : Marks D allowed C) (hD : D.KeepsDb)
    (hs : Tasks.Step (system lib D allowed) C l C') {i : Thread}
    {task' : Tasks.Task Daemon.signature (World lib) Job (Except Abort Unit)}
    (hi : C'.running i = some task') {p : Part} {rows : List p.Row}
    (hst : Stored task'.trace (p.insert rows)) {row : p.Row} (hrow : row ∈ rows) :
    p.blockId row ∈ C'.world.db.blockIds := by
  obtain ⟨task, hi, hst⟩ | ⟨w, x, hl⟩ := stored_of_step hs hi hst
  · exact (grew_of_step hD hs).blockIds (h.known i task hi p rows hst row hrow)
  · refine Part.blockId_mem (foreignKeys_of_step hD hs h.owned.foreignKeys) ?_
    cases dbStep_of_step hD hs with
    | same hn _ => exact absurd hl (hn i w _ x)
    | exec _ hx =>
      cases hl
      rw [Part.rows_of_insert hx]
      exact List.mem_append_right _ hrow

theorem Marks.final (h : Marks D allowed C) (hD : D.KeepsDb)
    (hs : Tasks.Step (system lib D allowed) C l C') : Final C.world.db C'.world.db := by
  intro id hm
  cases written_of_step hD h.owned.coherent hs with
  | same _ _ hparts hdebug _ | opened _ _ hparts hdebug =>
    exact ⟨by rw [debugRowsOf, hdebug, debugRowsOf],
      fun p => by rw [Part.rowsOf, hparts, Part.rowsOf]⟩
  | @inserted i₀ _ _ _ _ _ _ _ p₀ blockId r _ _ hi hf _ hdebug hother hrows =>
    obtain ⟨c, s, b₀, v, hcomputes, hopen⟩ := hf.records
    have hne : id ≠ blockId := by
      rintro rfl
      exact (h.progress i₀ _ hi b₀ id ⟨v, hopen⟩).unmarked hf.unmarked hm
    exact ⟨by rw [debugRowsOf, hdebug, debugRowsOf],
      fun p => Part.rowsOf_of_added hcomputes hrows hother hne⟩
  | @marked i₀ _ _ _ _ _ _ _ blockId r _ hi hd hr _ _ hparts hdebug =>
    obtain ⟨c, s, b₀, v, hcomputes, hopen⟩ := hr
    obtain ⟨added, hadded, hdebug⟩ := hdebug
    refine ⟨?_, fun p => by rw [Part.rowsOf, hparts, Part.rowsOf]⟩
    have hnone : added.filter (fun info => info.blockId = id) = [] := by
      refine List.filter_eq_nil_iff.mpr (fun info hinfo he => ?_)
      have hid := debugInfos_of_computes hcomputes info (hadded hinfo)
      rw [of_decide_eq_true he] at hid
      exact (h.progress i₀ _ hi b₀ blockId ⟨v, hopen⟩).unmarked hd (hid ▸ hm)
    rw [debugRowsOf, hdebug, List.filter_append, hnone, List.append_nil, debugRowsOf]

/-- A block that had debug records before the step is still whole. -/
theorem Marks.committed_step (h : Marks D allowed C) (hD : D.KeepsDb)
    (hs : Tasks.Step (system lib D allowed) C l C') {row row₀ : SharedModel.Block}
    (hrow₀ : row₀ ∈ C.world.db.block.rows)
    (hrow : ∃ poolName : String, row = { row₀ with poolName := poolName })
    (hm : Marked C.world.db row₀.id) : Committed lib allowed C'.world.db row := by
  obtain ⟨hdebug, hparts⟩ := h.final hD hs row₀.id hm
  refine (h.upheld row₀ hrow₀ hm).kept hrow hparts (fun info hinfo hid => ?_)
  have hmem : info ∈ debugRowsOf C'.world.db row₀.id :=
    List.mem_filter.mpr ⟨hinfo, decide_eq_true hid⟩
  rw [hdebug] at hmem
  exact (List.mem_filter.mp hmem).1

theorem Marks.same (h : Marks D allowed C) (hD : D.KeepsDb)
    (hs : Tasks.Step (system lib D allowed) C l C')
    (hl : ∀ i w b blockId, l ≠ .call i (succeeded w (.insertBlock b) blockId))
    (hn : ∀ i w st a (p : Part), st.target = some p.table → l ≠ .call i (succeeded w st a))
    (hparts : ∀ p : Part, p.rows C'.world.db = p.rows C.world.db)
    (hdebug : C'.world.db.debugTemplateSelection = C.world.db.debugTemplateSelection)
    (hrows : ∀ row ∈ C'.world.db.block.rows, ∃ row₀ ∈ C.world.db.block.rows,
      ∃ poolName : String, row = { row₀ with poolName := poolName }) : Marks D allowed C' where
  owned := h.owned.step hD hs
  upheld row hrow hm := by
    obtain ⟨row₀, hrow₀, poolName, rfl⟩ := hrows row hrow
    rw [Marked, hdebug] at hm
    exact h.committed_step hD hs hrow₀ ⟨poolName, rfl⟩ hm
  known i task' hi p rows hst row hrow := h.known_step hD hs hi hst hrow
  progress i task' hi b blockId ho := by
    obtain ⟨task, hj, ho, hsub, -⟩ | ⟨w, he⟩ := opened_of_step hs hi ho
    · refine (h.progress i task hj b blockId ho).kept hsub (fun row hrow _ => hrows row hrow)
        (fun p => by rw [Part.rowsOf, hparts, Part.rowsOf]) (fun _ hm => ?_) (fun p rows hst => ?_)
      · rwa [Marked, hdebug] at hm
      · obtain ⟨other, hj', hst⟩ | ⟨w, x, he⟩ := stored_of_step hs hi hst
        · rw [hj] at hj'
          cases hj'
          exact hst
        · exact absurd he (hn i w _ x p (Part.target_insert _))
    · exact absurd he (hl i w b blockId)

theorem marked_mem (hf : db.ForeignKeys) (h : Marked db blockId) : blockId ∈ db.blockIds := by
  obtain ⟨info, hinfo, rfl⟩ := h
  exact hf.debug info hinfo

theorem Marks.opened (h : Marks D allowed C) (hD : D.KeepsDb)
    (hs : Tasks.Step (system lib D allowed) C l C') {i₀ : Thread} {b₀ : NewBlock} {id₀ : Int64}
    (hl : l = .call i₀ (succeeded C.world (.insertBlock b₀) id₀))
    (hfresh : id₀ ∉ C.world.db.blockIds)
    (hrows : C'.world.db.block.rows = C.world.db.block.rows ++ [{ b₀ with id := id₀ }])
    (hparts : ∀ p : Part, p.rows C'.world.db = p.rows C.world.db)
    (hdebug : C'.world.db.debugTemplateSelection = C.world.db.debugTemplateSelection) :
    Marks D allowed C' where
  owned := h.owned.step hD hs
  upheld row hrow hm := by
    rw [Marked, hdebug] at hm
    rw [hrows] at hrow
    obtain hrow | hrow := List.mem_append.mp hrow
    · exact h.committed_step hD hs hrow ⟨row.poolName, rfl⟩ hm
    · rw [List.mem_singleton.mp hrow] at hm
      exact absurd (marked_mem h.owned.foreignKeys hm) hfresh
  known i task' hi p rows hst row hrow := h.known_step hD hs hi hst hrow
  progress i task' hi b blockId ho := by
    -- the statement is not one that inserts rows of a part
    have hold : ∀ task, C.running i = some task → ∀ (p : Part) (rows : List p.Row),
        Stored task'.trace (p.insert rows) → Stored task.trace (p.insert rows) := by
      intro task hj p rows hst
      obtain ⟨other, hj', hst⟩ | ⟨w, x, he⟩ := stored_of_step hs hi hst
      · rw [hj] at hj'
        cases hj'
        exact hst
      · rw [hl] at he
        cases p <;> cases he
    obtain ⟨task, hj, ho, hsub, -⟩ | ⟨w, he⟩ := opened_of_step hs hi ho
    · have hne : id₀ ≠ blockId := by
        rintro rfl
        exact hfresh (h.owned.stored i task hj b id₀ ho)
      refine (h.progress i task hj b blockId ho).kept hsub (fun row hrow hid => ?_)
        (fun p => by rw [Part.rowsOf, hparts, Part.rowsOf]) (fun _ hm => ?_) (hold task hj)
      · rw [hrows] at hrow
        obtain hrow | hrow := List.mem_append.mp hrow
        · exact ⟨row, hrow, row.poolName, rfl⟩
        · rw [List.mem_singleton.mp hrow] at hid
          exact absurd hid hne
      · rwa [Marked, hdebug] at hm
    · rw [hl] at he
      cases he
      have hnone : ∀ p : Part, p.rowsOf C'.world.db id₀ = [] := by
        intro p
        rw [Part.rowsOf, hparts]
        exact Part.rowsOf_eq_nil h.owned.foreignKeys hfresh
      refine ⟨fun row hrow hid => ?_, fun _ hm => ?_, fun p _ => hnone p,
        fun p rows hst hids => ?_⟩
      · rw [hrows] at hrow
        obtain hrow | hrow := List.mem_append.mp hrow
        · exact absurd (hid ▸ List.mem_map_of_mem hrow) hfresh
        · rw [List.mem_singleton.mp hrow]
      · rw [Marked, hdebug] at hm
        exact hfresh (marked_mem h.owned.foreignKeys hm)
      · rw [hnone p]
        obtain ⟨other, hj, hst⟩ | ⟨w, x, he⟩ := stored_of_step hs hi hst
        · cases rows with
          | nil => rfl
          | cons row rows =>
            have hid := h.known _ other hj p _ hst row List.mem_cons_self
            rw [hids row List.mem_cons_self] at hid
            exact absurd hid hfresh
        · rw [hl] at he
          cases p <;> cases he

theorem Marks.inserted (h : Marks D allowed C) (hD : D.KeepsDb)
    (hs : Tasks.Step (system lib D allowed) C l C') {i₀ : Thread} {j₀ : Job} {p₀ : Part}
    {rest : Routine Unit} {x₀ : (p₀.insert (p₀.built r)).Result}
    (hl : l = .call i₀ (succeeded C.world (p₀.insert (p₀.built r)) x₀))
    (hi₀ : C.running i₀ = some ⟨j₀, tr, rest⟩) (hu : Untouched tr p₀.table)
    (hr : RecordsOf lib rs network block fees lt blockId r tr)
    (hblock : C'.world.db.block = C.world.db.block)
    (hdebug : C'.world.db.debugTemplateSelection = C.world.db.debugTemplateSelection)
    (hother : ∀ p : Part, p ≠ p₀ → p.rows C'.world.db = p.rows C.world.db)
    (hrows : p₀.rows C'.world.db = p₀.rows C.world.db ++ p₀.built r) : Marks D allowed C' := by
  obtain ⟨c, s, b₀, v, hcomputes, hopen⟩ := hr
  have hids : ∀ id, id ≠ blockId → ∀ p : Part,
      p.rowsOf C'.world.db id = p.rowsOf C.world.db id :=
    fun id hne p => Part.rowsOf_of_added hcomputes hrows hother hne
  refine ⟨h.owned.step hD hs, fun row hrow hm => ?_,
    fun i task' hi p rows hst row hrow => h.known_step hD hs hi hst hrow,
    fun i task' hi b id ho => ?_⟩
  · rw [Marked, hdebug] at hm
    exact h.committed_step hD hs (hblock ▸ hrow) ⟨row.poolName, rfl⟩ hm
  · obtain ⟨task, hj, ho, hsub, -⟩ | ⟨w, he⟩ := opened_of_step hs hi ho
    · have hp := h.progress i task hj b id ho
      by_cases hne : i = i₀
      · subst hne
        rw [hi₀] at hj
        cases hj
        obtain hnil | ⟨-, hn⟩ | ⟨other, e, hj, he, htr⟩ := Tasks.trace_of_step hs hi
        · rw [hnil] at hsub
          exact absurd (hsub hopen) List.not_mem_nil
        · exact absurd hl (hn _)
        · rw [hi₀] at hj
          cases hj
          rw [hl] at he
          cases he
          rw [htr]
          exact hp.filled hu hblock hdebug hother hrows
      · have hid : id ≠ blockId := by
          rintro rfl
          exact hne (h.owned.apart i i₀ task _ hj hi₀ b b₀ id ho ⟨v, hopen⟩)
        refine hp.kept hsub (fun row hrow _ => ⟨row, hblock ▸ hrow, row.poolName, rfl⟩)
          (hids id hid) (fun _ hm => ?_) (fun p rows hst => ?_)
        · rwa [Marked, hdebug] at hm
        · obtain ⟨other, hj', hst⟩ | ⟨w, x, he⟩ := stored_of_step hs hi hst
          · rw [hj] at hj'
            cases hj'
            exact hst
          · rw [hl] at he
            exact absurd (Tasks.Label.call.inj he).1.symm hne
    · rw [hl] at he
      cases p₀ <;> cases he

theorem Marks.marked (h : Marks D allowed C) (hD : D.KeepsDb)
    (hs : Tasks.Step (system lib D allowed) C l C') {i₀ : Thread} {rest : Routine Unit}
    (hl : l = .call i₀ (succeeded C.world (.insertDebugTemplateSelectionInfos r.debugInfos) ()))
    (hi₀ : C.running i₀ = some ⟨.process rs network block fees lt, tr, rest⟩)
    (hd : Untouched tr .debugTemplateSelection)
    (hr : RecordsOf lib rs network block fees lt blockId r tr)
    (hstored : ∀ p : Part, Stored tr (p.insert (p.built r)))
    (hblock : C'.world.db.block = C.world.db.block)
    (hparts : ∀ p : Part, p.rows C'.world.db = p.rows C.world.db)
    (hdebug : ∃ added ⊆ r.debugInfos, C'.world.db.debugTemplateSelection.rows =
      C.world.db.debugTemplateSelection.rows ++ added) : Marks D allowed C' := by
  obtain ⟨c, s, b₀, v, hcomputes, hopen⟩ := hr
  obtain ⟨added, hadded, hdebug⟩ := hdebug
  have hdebug : ∀ info ∈ C'.world.db.debugTemplateSelection.rows,
      info ∈ C.world.db.debugTemplateSelection.rows ∨ info ∈ r.debugInfos := by
    rw [hdebug]
    exact fun info hinfo => (List.mem_append.mp hinfo).imp_right (fun h => hadded h)
  have hids : ∀ id, ∀ p : Part, p.rowsOf C'.world.db id = p.rowsOf C.world.db id :=
    fun id p => by rw [Part.rowsOf, hparts, Part.rowsOf]
  have hother : ∀ id, id ≠ blockId → ∀ info ∈ C'.world.db.debugTemplateSelection.rows,
      info.blockId = id → info ∈ C.world.db.debugTemplateSelection.rows := by
    intro id hne info hinfo hid
    obtain hinfo | hinfo := hdebug info hinfo
    · exact hinfo
    · exact absurd (hid.symm.trans (debugInfos_of_computes hcomputes info hinfo)) hne
  refine ⟨h.owned.step hD hs, fun row hrow hm => ?_,
    fun i task' hi p rows hst row hrow => h.known_step hD hs hi hst hrow,
    fun i task' hi b id ho => ?_⟩
  · rw [hblock] at hrow
    by_cases hid : row.id = blockId
    · -- all that the call has built is stored by now
      have hp := h.progress i₀ _ hi₀ b₀ blockId ⟨v, hopen⟩
      obtain ⟨w, hw⟩ := h.owned.coherent.admitted i₀ _ hi₀
      refine ⟨i₀, w, rs, network, block, fees, lt, c, s, b₀, r, hw, hid ▸ hcomputes,
        hp.block row hrow hid, fun p => ?_, fun info hinfo hid' => ?_⟩
      · rw [hids, hid]
        exact hp.stored p _ (hstored p) (Part.blockId_built hcomputes)
      · obtain hinfo | hinfo := hdebug info hinfo
        · exact absurd ⟨info, hinfo, hid'.trans hid⟩ (hp.unmarked hd)
        · exact hinfo
    · obtain ⟨info, hinfo, hid'⟩ := hm
      exact h.committed_step hD hs hrow ⟨row.poolName, rfl⟩
        ⟨info, hother row.id hid info hinfo hid', hid'⟩
  · obtain ⟨task, hj, ho, hsub, hlast⟩ | ⟨w, he⟩ := opened_of_step hs hi ho
    · refine (h.progress i task hj b id ho).kept hsub
        (fun row hrow _ => ⟨row, hblock ▸ hrow, row.poolName, rfl⟩) (hids id)
        (fun hu hm => ?_) (fun p rows hst => ?_)
      · have hne : id ≠ blockId := by
          rintro rfl
          obtain rfl : i = i₀ := h.owned.apart i i₀ task _ hj hi₀ b b₀ id ho ⟨v, hopen⟩
          exact hu C.world (.insertDebugTemplateSelectionInfos r.debugInfos) () (hlast _ hl) rfl
        obtain ⟨info, hinfo, hid⟩ := hm
        exact ⟨info, hother id hne info hinfo hid, hid⟩
      · obtain ⟨other, hj', hst⟩ | ⟨w, x, he⟩ := stored_of_step hs hi hst
        · rw [hj] at hj'
          cases hj'
          exact hst
        · rw [hl] at he
          cases p <;> cases he
    · rw [hl] at he
      cases he

theorem Marks.step (h : Marks D allowed C) (hD : D.KeepsDb)
    (hs : Tasks.Step (system lib D allowed) C l C') : Marks D allowed C' := by
  have hw := written_of_step hD h.owned.coherent hs
  generalize hl : l = l' at hw
  cases hw with
  | same hn hpart hparts hdebug hrows =>
    exact h.same hD hs (hl ▸ hn) (hl ▸ hpart) hparts hdebug hrows
  | opened hfresh hrows hparts hdebug => exact h.opened hD hs hl hfresh hrows hparts hdebug
  | @inserted _ _ _ _ _ _ _ _ p _ _ _ _ hi hf hblock hdebug hother hrows =>
    exact h.inserted hD hs hl hi (hf.untouched p le_rfl) hf.records hblock hdebug hother hrows
  | marked hi hd hr hstored hblock hparts hdebug =>
    exact h.marked hD hs hl hi hd hr hstored hblock hparts hdebug

/-- A database that the threads may start from. -/
def Restarted (lib : Crates) (allowed : Thread → Job → World lib → Prop) (w : World lib) : Prop :=
  Keys w.db ∧ Upheld lib allowed w.db

/-- A database without blocks is one. -/
theorem restarted_of_noBlocks {w : World lib} (hf : w.db.ForeignKeys) (hb : w.db.block.rows = []) :
    Restarted lib allowed w := by
  refine ⟨⟨?_, hf⟩, fun row hrow => ?_⟩
  · rw [Database.blockIds, hb]
    exact List.nodup_nil
  · rw [hb] at hrow
    cases hrow

theorem marks_of_run (hD : D.KeepsDb) (ρ : ThreadRun lib D allowed (Restarted lib allowed)) :
    ∀ i ≤ ρ.length, Marks D allowed (ρ.state i) := by
  refine ρ.invariant (I := fun C => Marks D allowed C) (fun C hC => ?_)
    (fun C l C' hC hs => hC.step hD hs)
  have hidle : ∀ i task, C.running i ≠ some task := fun i task hi => by simp [hC.2.1 i] at hi
  refine ⟨⟨Tasks.coherent_of_idle hC, hC.1.1.foreignKeys, hC.1.1.blockIds, ?_, ?_⟩, hC.1.2, ?_, ?_⟩
  · exact fun i task hi => absurd hi (hidle i task)
  · exact fun i j task other hi => absurd hi (hidle i task)
  · exact fun i task hi => absurd hi (hidle i task)
  · exact fun i task hi => absurd hi (hidle i task)

/-- Databases of a run: the marked blocks of each are whole, and stay as they are. -/
structure Marking (lib : Crates) (allowed : Thread → Job → World lib → Prop) {σ : Type} [Preorder σ]
    (dbs : σ → Database) : Prop where
  archived : ∀ i j, i ≤ j → Archived (dbs i) (dbs j)
  keys : ∀ i, Keys (dbs i)
  upheld : ∀ i, Upheld lib allowed (dbs i)
  final : ∀ i j, i ≤ j → Final (dbs i) (dbs j)

theorem marking_of_run (ρ : ThreadRun lib .reorganises allowed (Restarted lib allowed)) :
    Marking lib allowed (databases ρ) := by
  have hall := marks_of_run Drift.keepsDb_reorganises ρ
  have hle : ∀ i : Fin (ρ.length + 1), i.1 ≤ ρ.length := fun i => Nat.le_of_lt_succ i.2
  refine ⟨fun i j hij => archived_of_run Drift.keepsDb_reorganises ρ hij (hle j),
    fun i => ⟨(hall i (hle i)).owned.nodup, (hall i (hle i)).owned.foreignKeys⟩,
    fun i => (hall i (hle i)).upheld, fun i j hij => ?_⟩
  exact ρ.relation (R := fun C C' => Final C.world.db C'.world.db) (fun _ => .refl _)
    (fun _ _ _ => Final.trans)
    (fun i hi => (hall i (Nat.le_of_lt hi)).final Drift.keepsDb_reorganises (ρ.steps i hi)) hij
    (hle j)

/-- A block with debug records has all of its rows, and keeps them as they are. -/
structure NeverPartly (ρ : ThreadRun lib D allowed (Restarted lib allowed)) : Prop where
  upheld : ∀ i ≤ ρ.length, Upheld lib allowed (ρ.state i).world.db
  final : ∀ i j, i ≤ j → j ≤ ρ.length → Final (ρ.state i).world.db (ρ.state j).world.db

/-- Whenever a block has a debug record, its row and its rows in four other tables are those that
one call of process has built, however the threads interleave and wherever calls fail. -/
theorem never_partly (ρ : ThreadRun lib .reorganises allowed (Restarted lib allowed)) :
    NeverPartly ρ where
  upheld i hi := (marking_of_run ρ).upheld ⟨i, Nat.lt_succ_of_le hi⟩
  final i j hij hj := (marking_of_run ρ).final ⟨i, Nat.lt_succ_of_le (hij.trans hj)⟩
    ⟨j, Nat.lt_succ_of_le hj⟩ hij

end Marks

section Samples

/-- The debug record of the block is stored last. -/
theorem exists_markedRun : ∃ ρ : OverlapRun (Restarted decoding (fun _ _ _ => True)),
    ∃ b ∈ ρ.last.world.db.block.rows, Marked ρ.last.world.db b.id := by
  obtain ⟨ρ, hρ⟩ := exists_overlapRun (restarted_of_noBlocks sound_overlapWorld.1 rfl) .healthy
  refine ⟨ρ, ?_⟩
  rw [hρ]
  unfold Marked
  decide +kernel

theorem never_partly_overlap : ∃ ρ : OverlapRun (Restarted decoding (fun _ _ _ => True)),
    (∃ b ∈ ρ.last.world.db.block.rows, Marked ρ.last.world.db b.id) ∧ NeverPartly ρ := by
  obtain ⟨ρ, hm⟩ := exists_markedRun
  exact ⟨ρ, hm, never_partly ρ⟩

end Samples

end MiningpoolObserver.CommitMarker
