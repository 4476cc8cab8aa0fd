import MiningpoolObserver.ProcessSpec
import MiningpoolObserver.Threads

namespace MiningpoolObserver.TagWrites

open MiningpoolObserver.Library MiningpoolObserver.Library.CallTree
open MiningpoolObserver.Library.HashCollections MiningpoolObserver.Library.KeyedTable
open MiningpoolObserver.Bitcoin MiningpoolObserver.DaemonModel MiningpoolObserver.SharedModel
open MiningpoolObserver.Db
open MiningpoolObserver.Daemon MiningpoolObserver.Process MiningpoolObserver.ProcessSpec
open MiningpoolObserver.Processing.Transactions MiningpoolObserver.Processing.Conflicts
open MiningpoolObserver.Threads

variable {lib : Crates}

/-- The tags of a transaction that a call has read. -/
def tagsRead (txid : List UInt8) : Event Daemon.signature (World lib) → Option (List Int)
  | ⟨_, .sql (.selectTransactionTags id), .ok tags⟩ => if id = txid then some tags else none
  | ⟨_, .sql .allTransactions, .ok t⟩ => (t.find? txid).map (fun row => row.tags)
  | _ => none

/-- The row of a transaction in the snapshot that the retag thread works through. -/
def rowRead (txid : List UInt8) :
    Event Daemon.signature (World lib) → Option SharedModel.Transaction
  | ⟨_, .sql .allTransactions, .ok t⟩ => t.find? txid
  | _ => none

def rawTransactionRead (txid : List UInt8) :
    Event Daemon.signature (World lib) → Option (Txid × Bitcoin.Transaction)
  | ⟨_, .getRawTransaction id, .ok tx⟩ => if id.reversed = txid then some (id, tx) else none
  | _ => none

/-- The transactions of a call of insert_transactions. -/
def batch : Event Daemon.signature (World lib) → Option (List SharedModel.Transaction)
  | ⟨_, .sql (.insertTransactions txns), _⟩ => some txns
  | _ => none

/-- The tags that a thread has of its own for a transaction: those it inserts it with, or those
it recomputes. -/
def ownTags (tr : Calls lib) (txid : List UInt8) : List Int :=
  match latest batch tr with
  | some txns => ((txns.find? (fun tx => tx.txid = txid)).map (fun tx => tx.tags)).getD []
  | none => match latest (rowRead txid) tr, latest (rawTransactionRead txid) tr with
    | some row, some (id, tx) =>
      retagTransaction lib tx ⟨id, tx, -1, row.fee.toUInt64⟩ (addressesOf tr)
    | _, _ => []

variable (lib) in
/-- How a thread writes to the transaction table: tags are replaced by those it has read and those
of its own, and what it inserts has `P`. -/
def Writes (P : List SharedModel.Transaction → Prop) (tr : Calls lib) : Daemon.Call → Prop
  | .sql (.updateTransactionTags newTags txid) => ∃ tags, latest (tagsRead txid) tr = some tags ∧
      ∀ tag, tag ∈ newTags ↔ tag ∈ tags ∨ tag ∈ ownTags tr txid
  | .sql (.insertTransactions txns) => P txns
  | _ => True

/-- A program of a thread that writes in this way, whatever it returns. -/
abbrev WritesTags (P : List SharedModel.Transaction → Prop) {α : Type} (tr : Calls lib)
    (p : Prog Daemon.signature α) : Prop := Prog.Always (Writes lib P) (fun _ _ => True) tr p

@[simp] theorem mem_unionTags {dbTxTags newTags : List Int} {tag : Int} :
    tag ∈ unionTags dbTxTags newTags ↔ tag ∈ dbTxTags ∨ tag ∈ newTags := by
  rw [unionTags, List.mem_insertionSort, ← List.mem_append]
  exact HashSet.mem_collect

@[simp] theorem mem_withOldTags {newTags oldTags : List Int} {tag : Int} :
    tag ∈ withOldTags newTags oldTags ↔ tag ∈ oldTags ∨ tag ∈ newTags := by
  have h : ∀ (old new : List Int),
      tag ∈ old.foldl (fun tags tag => if tag ∈ tags then tags else tags ++ [tag]) new ↔
        tag ∈ old ∨ tag ∈ new := by
    intro old
    induction old with
    | nil => simp
    | cons t old ih =>
      intro new
      rw [List.foldl_cons, ih]
      by_cases ht : t ∈ new
      · rw [if_pos ht, List.mem_cons]
        constructor
        · exact fun hm => hm.imp .inr id
        · rintro ((rfl | hm) | hm)
          · exact .inr ht
          · exact .inl hm
          · exact .inr hm
      · rw [if_neg ht]
        simp only [List.mem_append, List.mem_cons, List.not_mem_nil, or_false]
        tauto
  rw [withOldTags, List.mem_insertionSort, h]

variable {P : List SharedModel.Transaction → Prop} {tr : Calls lib} {α β : Type}

theorem WritesTags.bind {p : Prog Daemon.signature α} {f : α → Prog Daemon.signature β}
    (hp : WritesTags P tr p) (hf : ∀ (tr' : Calls lib) a, WritesTags P tr' (f a)) :
    WritesTags P tr (p.bind f) :=
  Prog.Always.bind hp (fun tr' a _ => hf tr' a)

theorem WritesTags.andThen {p : Routine α} {f : α → Routine β} (hp : WritesTags P tr p)
    (hf : ∀ (tr' : Calls lib) a, WritesTags P tr' (f a)) : WritesTags P tr (p.andThen f) :=
  Prog.Always.andThen hp (fun tr' a _ => hf tr' a) (fun _ _ _ => trivial)

theorem writes_orReturn (s : Statement) (hs : ∀ tr : Calls lib, Writes lib P tr (.sql s)) :
    WritesTags P tr (orReturn s) :=
  ⟨hs tr, fun _ _ => trivial⟩

theorem writes_orPanic {x : Except Panic α} : WritesTags P tr (orPanic x) :=
  always_orPanic (fun _ _ => trivial) (fun _ => trivial)

section Merging

variable {txns : List SharedModel.Transaction}

theorem ownTags_of_batch (hb : latest batch tr = some txns)
    (hnd : (txns.map (fun tx => tx.txid)).Nodup) {tx : SharedModel.Transaction} (htx : tx ∈ txns) :
    ownTags tr tx.txid = tx.tags := by
  let t : Table SharedModel.Transaction (List UInt8) (fun t => t.txid) := ⟨txns, hnd⟩
  have hf : txns.find? (fun t => t.txid = tx.txid) = some tx :=
    t.find?_eq_some_iff.mpr ⟨htx, rfl⟩
  simp [ownTags, hb, hf]

theorem mergeTags_writes (hnd : (txns.map (fun tx => tx.txid)).Nodup)
    (inserted : HashSet (List UInt8)) {rest : List SharedModel.Transaction} (hrest : rest ⊆ txns)
    (hb : latest batch tr = some txns) : WritesTags P tr (mergeTags inserted rest) := by
  induction rest generalizing tr with
  | nil => trivial
  | cons tx rest ih =>
    have htx : tx ∈ txns := hrest List.mem_cons_self
    have hrest' : rest ⊆ txns := fun t ht => hrest (List.mem_cons_of_mem _ ht)
    rw [mergeTags]
    by_cases hi : tx.txid ∈ inserted
    · rw [if_pos hi]
      exact ih hrest' hb
    · rw [if_neg hi]
      refine ⟨trivial, fun w r => ?_⟩
      have hb₁ : latest batch (tr ++ [⟨w, Call.sql (.selectTransactionTags tx.txid), r⟩]) =
          some txns := by
        rw [latest_snoc_of_none rfl, hb]
      cases r with
      | error e => trivial
      | ok dbTxTags =>
        change WritesTags P _ ((mergeInto tx dbTxTags).andThen (fun _ => mergeTags inserted rest))
        refine Prog.Always.andThen (D := fun tr _ => latest batch tr = some txns) ?_
          (fun tr' _ hb' => ih hrest' hb') (fun _ _ _ => trivial)
        unfold mergeInto
        by_cases hne : dbTxTags ≠ tx.tags
        · rw [if_pos hne]
          refine ⟨⟨dbTxTags, latest_snoc_of_some (by simp [tagsRead]) tr, fun tag => ?_⟩, ?_⟩
          · rw [mem_unionTags, ownTags_of_batch hb₁ hnd htx]
          · intro v r'
            exact (latest_snoc_of_none rfl _).trans hb₁
        · rw [if_neg hne]
          exact hb₁

theorem insertTransactions_writes (hnd : (txns.map (fun tx => tx.txid)).Nodup) (hP : P txns) :
    WritesTags P tr (Process.insertTransactions txns) := by
  refine Prog.Always.andThen (D := fun tr _ => latest batch tr = some txns)
    ⟨hP, fun w r => ?_⟩ ?_ (fun _ _ _ => trivial)
  · change latest batch _ = some txns
    rw [latest_snoc]
    rfl
  intro tr₁ insertedTxids hb
  dsimp only
  split_ifs
  · exact mergeTags_writes hnd _ (List.Subset.refl _) hb
  · trivial

end Merging

section Processing

variable {rs : RandomState} {network : Network} {block : Bitcoin.Block}
variable {fees : GetBlockTxFeesResult} {lt : List GetBlockTemplateResult}

theorem getConnection_writes : WritesTags P tr getConnection := by
  refine ⟨trivial, fun w r => ?_⟩
  cases r with
  | ok u => trivial
  | error e =>
    refine ⟨trivial, fun w r => ?_⟩
    cases r <;> trivial

theorem loadSanctions_writes : WritesTags P tr loadSanctions :=
  ⟨trivial, fun _ _ => ⟨trivial, fun _ _ => trivial⟩⟩

theorem recordBlock_writes {c : Comparison} {s : Sanctions} :
    WritesTags P tr (recordBlock lib network block fees c s) := by
  refine writes_orPanic.andThen (fun tr₁ missing => ?_)
  refine ⟨trivial, fun _ pools => ⟨trivial, fun _ now => ?_⟩⟩
  refine writes_orPanic.andThen (fun tr₂ b => ?_)
  exact writes_orReturn _ (fun _ => trivial)

theorem mempoolAges_writes {now : Int64} (txids : List Txid) (ages : HashMap Txid Int32) :
    WritesTags P tr (mempoolAges now txids ages) := by
  induction txids generalizing tr ages with
  | nil => trivial
  | cons txid txids ih =>
    refine ⟨trivial, fun w r => ?_⟩
    cases r <;> exact ih _

theorem recordNewUtxos_writes (utxos : List SanctionedUtxo) :
    WritesTags P tr (recordNewUtxos utxos) := by
  unfold recordNewUtxos
  split_ifs
  · trivial
  · exact writes_orReturn _ (fun _ => trivial)

theorem storeRecords_writes {r : Records} {utxos : List SanctionedUtxo}
    (hnd : ((r.transactions.values rs).map (fun tx => tx.txid)).Nodup)
    (hP : P (r.transactions.values rs)) : WritesTags P tr (storeRecords rs r utxos) := by
  have hi : WritesTags P tr ((Process.insertTransactions (r.transactions.values rs)).bind
      (fun x => .done (returnOnError x))) :=
    (insertTransactions_writes hnd hP).bind (fun _ _ => trivial)
  refine hi.andThen (fun tr₁ _ => ?_)
  refine (writes_orReturn (.insertTransactionsOnlyInBlock r.onlyInBlock)
    (fun _ => trivial)).andThen (fun tr₂ _ => ?_)
  refine (writes_orReturn (.insertTransactionsOnlyInTemplate r.onlyInTemplate)
    (fun _ => trivial)).andThen (fun tr₃ _ => ?_)
  refine (writes_orReturn (.insertSanctionedTransactionInfos r.sanctionedInfos)
    (fun _ => trivial)).andThen (fun tr₄ _ => ?_)
  refine (writes_orReturn (.insertConflictingTransactions r.conflicting)
    (fun _ => trivial)).andThen (fun tr₅ _ => ?_)
  refine (recordNewUtxos_writes utxos).andThen (fun tr₆ _ => ?_)
  exact writes_orReturn _ (fun _ => trivial)

/-- The records that a call of process builds before it stores them. -/
def Builds (lib : Crates) (rs : RandomState) (block : Bitcoin.Block) (fees : GetBlockTxFeesResult)
    (lt : List GetBlockTemplateResult) (r : Records) : Prop :=
  ∃ c s blockId conflicting ages, compareBlock lib block fees lt = .ok c ∧
    buildConflictingTransactions lib rs blockId c.txidsOnlyInTemplate
      c.templateTxData.txidToTxinfoMap c.txidsOnlyInBlock c.blockTxData.txidToTxinfoMap
      HashMap.empty s.utxoMap s.addresses = .ok conflicting ∧
    buildRows lib rs blockId c s lt conflicting ages = .ok r

theorem process_writes
    (hb : ∀ r, Builds lib rs block fees lt r →
      ((r.transactions.values rs).map (fun tx => tx.txid)).Nodup ∧ P (r.transactions.values rs)) :
    WritesTags P tr (Process.process lib rs network block fees lt) := by
  refine Prog.Always.andThen
    (D := fun _ r => ∀ c, r = .ok c → compareBlock lib block fees lt = .ok c)
    (always_orPanic (fun c hc c' he => ?_) (fun _ _ he => by cases he)) ?_ (fun _ _ _ => trivial)
  · cases he
    exact hc
  intro tr₁ c hc
  refine getConnection_writes.andThen (fun tr₂ _ => ?_)
  refine loadSanctions_writes.andThen (fun tr₃ s => ?_)
  refine recordBlock_writes.andThen (fun tr₄ blockId => ?_)
  refine Prog.Always.andThen (D := fun _ r => ∀ a, r = .ok a → Builds lib rs block fees lt a)
    ?_ (fun tr₅ r hr => ?_) (fun _ _ _ => trivial)
  · refine Prog.Always.andThen (D := fun _ r => ∀ conflicting, r = .ok conflicting →
        buildConflictingTransactions lib rs blockId c.txidsOnlyInTemplate
          c.templateTxData.txidToTxinfoMap c.txidsOnlyInBlock c.blockTxData.txidToTxinfoMap
          HashMap.empty s.utxoMap s.addresses = .ok conflicting)
      (always_orPanic (fun a ha a' he => ?_) (fun _ _ he => by cases he)) ?_
      (fun _ _ _ _ he => by cases he)
    · cases he
      exact ha
    · intro tr₆ conflicting hconf
      refine Prog.Always.bind (D := fun _ _ => True) ⟨trivial, fun _ _ => mempoolAges_writes _ _⟩ ?_
      intro tr₇ ages _
      refine always_orPanic (fun a ha a' he => ?_) (fun _ _ he => by cases he)
      cases he
      exact ⟨c, s, blockId, conflicting, ages, hc c rfl, hconf conflicting rfl, ha⟩
  · obtain ⟨hnd, hP⟩ := hb r (hr r rfl)
    exact storeRecords_writes hnd hP

end Processing

section Retagging

/-- The retag thread has read a table and a list, and no transactions of its own to insert. -/
structure Retagging (t : Statement.allTransactions.Result) (addresses : HashSet String)
    (tr : Calls lib) : Prop where
  tags : ∀ txid, latest (tagsRead txid) tr = (t.find? txid).map (fun row => row.tags)
  row : ∀ txid, latest (rowRead txid) tr = t.find? txid
  addresses : tr.findSome? readAddresses = some addresses
  batch : latest batch tr = none

variable {t : Statement.allTransactions.Result} {addresses : HashSet String}

theorem Retagging.snoc (h : Retagging t addresses tr) {e : Event Daemon.signature (World lib)}
    (ht : ∀ txid, tagsRead txid e = none) (hr : ∀ txid, rowRead txid e = none)
    (hb : TagWrites.batch e = none) : Retagging t addresses (tr ++ [e]) where
  tags txid := (latest_snoc_of_none (ht txid) tr).trans (h.tags txid)
  row txid := (latest_snoc_of_none (hr txid) tr).trans (h.row txid)
  addresses := by simp [List.findSome?_append, h.addresses]
  batch := (latest_snoc_of_none hb tr).trans h.batch

theorem retagRow_writes (h : Retagging t addresses tr) {row : SharedModel.Transaction}
    (hrow : row ∈ t.rows) : Prog.Always (Writes lib P) (fun tr _ => Retagging t addresses tr) tr
      (retagRow lib addresses row) := by
  unfold retagRow
  cases hid : Hash256.fromSlice row.txid.reverse with
  | none => exact h
  | some txid =>
    have hrev := Hash256.reversed_of_fromSlice hid
    have hfind : t.find? row.txid = some row := t.find?_eq_some_iff.mpr ⟨hrow, rfl⟩
    refine ⟨trivial, fun w r => ?_⟩
    have h₁ := h.snoc (e := ⟨w, Call.getRawTransaction txid, r⟩) (fun _ => rfl) (fun _ => rfl) rfl
    cases r with
    | error e => exact h₁
    | ok tx =>
      dsimp only
      split_ifs
      · refine ⟨⟨row.tags, ?_, fun tag => ?_⟩, fun v r => ?_⟩
        · rw [h₁.tags, hfind]
          rfl
        · have hraw : latest (rawTransactionRead row.txid)
              (tr ++ [⟨w, Call.getRawTransaction txid, .ok tx⟩]) = some (txid, tx) :=
            latest_snoc_of_some (by simp [rawTransactionRead, hrev]) tr
          rw [mem_withOldTags, List.mem_insertionSort]
          simp only [ownTags, h₁.batch, h₁.row, hfind, hraw, addressesOf, h₁.addresses,
            Option.getD_some]
        · exact h₁.snoc (fun _ => rfl) (fun _ => rfl) rfl
      · exact h₁

theorem retagRows_writes {rows : List SharedModel.Transaction} (hrows : rows ⊆ t.rows)
    (h : Retagging t addresses tr) : WritesTags P tr (retagRows lib addresses rows) := by
  induction rows generalizing tr with
  | nil => trivial
  | cons row rows ih =>
    refine Prog.Always.andThen (retagRow_writes h (hrows List.mem_cons_self))
      (fun tr' _ h' => ?_) (fun _ _ _ => trivial)
    exact ih (fun r hr => hrows (List.mem_cons_of_mem _ hr)) h'

theorem retagTransactions_writes : WritesTags P ([] : Calls lib) (retagTransactions lib) := by
  refine ⟨trivial, fun w r => ?_⟩
  cases r with
  | error e => trivial
  | ok u =>
    refine ⟨trivial, fun w₁ r => ?_⟩
    cases r with
    | error e => trivial
    | ok t =>
      refine ⟨trivial, fun w₂ r => ?_⟩
      cases r with
      | error e => trivial
      | ok a =>
        refine retagRows_writes (t := t) (List.Subset.refl _)
          ⟨fun txid => ?_, fun txid => ?_, rfl, rfl⟩
        · rw [latest_snoc_of_none rfl, latest_snoc, latest_snoc_of_none rfl]
          exact Option.or_none
        · rw [latest_snoc_of_none rfl, latest_snoc, latest_snoc_of_none rfl]
          exact Option.or_none

/-- A row whose recomputed tags differ is updated as soon as the node has returned the
transaction. -/
theorem retagRow_path {row : SharedModel.Transaction} {txid : Txid} {tx : Bitcoin.Transaction}
    {newTags : List Int} (hid : Hash256.fromSlice row.txid.reverse = some txid)
    (hnew : newTags = withOldTags (retagTransaction lib tx ⟨txid, tx, -1, row.fee.toUInt64⟩
        addresses) (row.tags.insertionSort (· ≤ ·)))
    (hne : newTags ≠ row.tags.insertionSort (· ≤ ·)) (w : World lib) :
    Path (retagRow lib addresses row) [⟨w, Call.getRawTransaction txid, Except.ok tx⟩]
      (.call (.sql (.updateTransactionTags newTags row.txid)) (fun _ => .done (.ok ()))) := by
  unfold retagRow
  rw [hid]
  refine .cons ?_
  dsimp only
  rw [← hnew, if_pos hne]
  exact .nil _

/-- Its reads up to the first row, when they succeed and no other thread moves. -/
theorem retagReads_answers (D : Drift lib) (w : World lib) (tx : Bitcoin.Transaction) :
    Answers (Daemon.environment D) w
      [⟨w, Call.poolGet, Except.ok ()⟩, succeeded w .allTransactions w.db.transaction,
        succeeded w .sanctionedAddresses w.db.sanctionedAddresses,
        ⟨w, Call.getRawTransaction (lib.computeTxid tx), Except.ok tx⟩] w := by
  have hd : (Daemon.environment D).drift w w := D.refl w
  refine .cons hd rfl (.cons hd ⟨⟨7, _, rfl, .refl⟩, rfl⟩ (.cons hd ⟨⟨7, _, rfl, .refl⟩, rfl⟩
    (.cons hd ⟨rfl, rfl⟩ (.nil hd))))

end Retagging

theorem scanSanctionedUtxos_writes : WritesTags P tr (scanSanctionedUtxos lib) := by
  refine ⟨trivial, fun w r => ?_⟩
  cases r with
  | error e => trivial
  | ok u =>
    refine ⟨trivial, fun w r => ?_⟩
    cases r with
    | error e => trivial
    | ok t =>
      refine ⟨trivial, fun w r => ?_⟩
      cases r with
      | error e => trivial
      | ok result =>
        refine ⟨trivial, fun w duration => ⟨trivial, fun w now => ⟨trivial, fun w r => ?_⟩⟩⟩
        cases r with
        | error e => trivial
        | ok u => exact ⟨trivial, fun _ _ => trivial⟩

theorem updateSanctionedAddresses_writes : WritesTags P tr (updateSanctionedAddresses lib) := by
  refine ⟨trivial, fun w r => ?_⟩
  cases r with
  | error e => trivial
  | ok response =>
    dsimp only
    split_ifs
    · trivial
    · cases response.lines with
      | none => trivial
      | some lines =>
        refine ⟨trivial, fun w r => ?_⟩
        cases r with
        | error e => trivial
        | ok u => exact ⟨trivial, fun _ _ => trivial⟩

/-- The thread and the transaction of an update that succeeds. -/
def updatedRow : Label lib → Option (Thread × List UInt8)
  | .call i ⟨_, .sql (.updateTransactionTags _ txid), .ok _⟩ => some (i, txid)
  | _ => none

/-- What a step of the threads can do to the transaction table. -/
inductive RowsStep (C : Config lib) (l : Label lib) (C' : Config lib) : Prop
  | same : updatedRow l = none → C'.world.db.transaction.rows = C.world.db.transaction.rows →
      RowsStep C l C'
  | insert {i : Thread} {j : Job} {tr : Calls lib} {txns : List SharedModel.Transaction}
      {k : Daemon.Reply (.sql (.insertTransactions txns)) → Routine Unit} : updatedRow l = none →
      C.running i = some ⟨j, tr, .call (.sql (.insertTransactions txns)) k⟩ →
      C'.world.db.transaction = (C.world.db.transaction.insertNew txns).1 → RowsStep C l C'
  | update {i : Thread} {j : Job} {tr : Calls lib} {newTags : List Int} {txid : List UInt8}
      {k : Daemon.Reply (.sql (.updateTransactionTags newTags txid)) → Routine Unit} :
      updatedRow l = some (i, txid) →
      C.running i = some ⟨j, tr, .call (.sql (.updateTransactionTags newTags txid)) k⟩ →
      C'.world.db.transaction.rows = C.world.db.transaction.rows.map (setTags newTags txid) →
      RowsStep C l C'

variable {D : Drift lib} {allowed : Thread → Job → World lib → Prop}

theorem rowsStep_of_step (hD : D.KeepsDb) {C C' : Config lib} {l : Label lib}
    (h : Tasks.Step (system lib D allowed) C l C') : RowsStep C l C' := by
  cases dbStep_of_step hD h with
  | same hne hdb =>
    refine .same ?_ (by rw [hdb])
    unfold updatedRow
    split
    · exact absurd rfl (hne _ _ _ _)
    · rfl
  | @exec i j tr s k a C' hi hs =>
    cases transactionChange_of_succeeds hs with
    | none h₁ h₂ ht =>
      refine .same ?_ (by rw [ht])
      cases s with
      | updateTransactionTags newTags txid => exact absurd rfl (h₂ newTags txid)
      | _ => rfl
    | insert ht => exact .insert rfl hi ht
    | update ht => exact .update rfl hi ht

/-- What a thread writes follows what it has read and what it has of its own. -/
theorem newTags_of_running
    (hw : ∀ i j w, allowed i j w → WritesTags P ([] : Calls lib) (j.prog lib)) {C : Config lib}
    (hc : Tasks.Coherent (system lib D allowed) C) {i : Thread} {j : Job}
    {newTags : List Int} {txid : List UInt8}
    {k : Daemon.Reply (.sql (.updateTransactionTags newTags txid)) → Routine Unit}
    (hi : C.running i = some ⟨j, tr, .call (.sql (.updateTransactionTags newTags txid)) k⟩) :
    ∃ tags, latest (tagsRead txid) tr = some tags ∧
      ∀ tag, tag ∈ newTags ↔ tag ∈ tags ∨ tag ∈ ownTags tr txid := by
  obtain ⟨w, hj⟩ := hc.admitted i _ hi
  exact hc.call_spec hi (hw i j w hj)

end MiningpoolObserver.TagWrites
