import MiningpoolObserver.Library.Fallible
import MiningpoolObserver.ProcessRecords
import MiningpoolObserver.SanctionCounts
import MiningpoolObserver.Web

namespace MiningpoolObserver.PageSafety

open MiningpoolObserver.Library MiningpoolObserver.Library.CallTree
open MiningpoolObserver.Library.HashCollections MiningpoolObserver.Library.KeyedTable
open MiningpoolObserver.Library.Fallible MiningpoolObserver.Library.Queries
open MiningpoolObserver.Bitcoin MiningpoolObserver.SharedModel MiningpoolObserver.Db
open MiningpoolObserver.Daemon MiningpoolObserver.Process MiningpoolObserver.ProcessSpec
open MiningpoolObserver.ProcessRecords MiningpoolObserver.Threads MiningpoolObserver.Web
open MiningpoolObserver.Simulation MiningpoolObserver.SanctionCounts

variable {σ α β : Type} [Preorder σ] {dbs : σ → Database} {k : σ}

/-- No `unwrap` has failed, and what was returned satisfies `Q`. -/
def Loads (Q : α → σ → Prop) : Except Failure α → σ → Prop
  | .ok a, i => Q a i
  | .error e, _ => e ≠ .unwrappedNone

/-- The result of a SELECT on a database between the two. -/
def Selected (dbs : σ → Database) (s : Select) (k : σ) (a : s.Result) (i : σ) : Prop :=
  ∃ j rs, k ≤ j ∧ j ≤ i ∧ s.exec (dbs j) rs = .ok a

section Rules

theorem ensures_load (s : Select) (k : σ) :
    Ensures (reading dbs) (load s) k (Loads (Selected dbs s k)) := by
  apply Ensures.call
  intro w r u hd ha
  obtain ⟨rfl, ⟨e, rfl⟩ | ⟨rs, hr⟩⟩ := ha
  · exact .done (fun _ _ h => by cases h)
  · cases r with
    | error e => exact .done (fun _ _ h => by cases h)
    | ok a => exact .done (fun i hi => ⟨u, rs, hd, hi, hr.symm⟩)

variable {Q : α → σ → Prop} {R : β → σ → Prop}

theorem ensures_andThen {p : Query α} {f : α → Query β}
    (hp : Ensures (reading dbs) p k (Loads Q))
    (hf : ∀ a i, Q a i → Ensures (reading dbs) (f a) i (Loads R)) :
    Ensures (reading dbs) (p.andThen f) k (Loads R) :=
  hp.andThen hf (fun _ _ _ h _ => h)

theorem ensures_ok {a : α} (h : ∀ i, k ≤ i → Q a i) :
    Ensures (reading dbs) (.done (.ok a)) k (Loads Q) := .done h

omit [Preorder σ] in
theorem ensures_onOk {S : Signature} {E : Environment S σ} {p : Prog S (Except Failure α)}
    (h : Ensures E p k (Loads Q)) : Ensures E p k (OnOk Q) := by
  refine h.mono (fun r t hr => ?_)
  cases r with
  | ok a => exact hr
  | error e => trivial

end Rules

/-- Every txid in a row of conflicts has a transaction row. -/
def ConflictsKnown (db : Database) : Prop :=
  ∀ row ∈ db.conflictingTransactions.rows, ∀ txid ∈ row.templateTxids ++ row.blockTxids,
    txid ∈ db.transaction.keys

/-- Databases that keep their references, and from which no row is taken that a page relies on. -/
structure Reliable (dbs : σ → Database) : Prop where
  foreignKeys : ∀ i, (dbs i).ForeignKeys
  conflicts : ∀ i, ConflictsKnown (dbs i)
  grew : ∀ i j, i ≤ j → Grew (dbs i) (dbs j)
  onlyInTemplate : ∀ i j, i ≤ j →
    (dbs i).transactionOnlyInTemplate.rows ⊆ (dbs j).transactionOnlyInTemplate.rows

section Pages

variable (hr : Reliable dbs)
include hr

/-- Ids that have a transaction when a query asks for them are found. -/
theorem Reliable.containsKey_txids {i j : σ} {txids : List (List UInt8)}
    {txns : List SharedModel.Transaction} (hload : Selected dbs (.transactions txids) i txns j)
    {txid : List UInt8} (ht : txid ∈ txids) (hk : txid ∈ (dbs i).transaction.keys) :
    (txidToTx txns).containsKey txid = true := by
  obtain ⟨l, rs, hil, -, hx⟩ := hload
  cases hx
  obtain ⟨tx, htx, rfl⟩ := List.mem_map.mp ((hr.grew i l hil).transactions hk)
  exact containsKey_txidToTx (rs.mem_order.mpr (List.mem_filter.mpr ⟨htx, by simpa using ht⟩))

theorem Reliable.conflictingTxids_known {i j : σ} {ids : List Int64}
    {infos : List ConflictingTransaction}
    (hload : Selected dbs (.conflictingTransactions ids) i infos j) :
    ∀ txid ∈ conflictingTxids infos, txid ∈ (dbs j).transaction.keys := by
  obtain ⟨l, rs, -, hlj, hx⟩ := hload
  cases hx
  intro txid ht
  obtain ⟨ct, hct, ht⟩ := List.mem_flatMap.mp ht
  have hct := List.mem_of_mem_filter (rs.mem_order.mp hct)
  exact (hr.grew l j hlj).transactions (hr.conflicts l ct hct txid ht)

/-- The blocks of rows that were read are found when a query asks for them. -/
theorem Reliable.containsKey_blockIds {i j l : σ} {txids : List (List UInt8)}
    {rows : List TransactionOnlyInTemplate} {blocks : List SharedModel.Block}
    (hrows : Selected dbs (.onlyInTemplate txids) i rows j)
    (hblocks : Selected dbs (.blocks (rows.map (fun row => row.blockId))) j blocks l) :
    ∀ row ∈ rows, (blockIdToBlock blocks).containsKey row.blockId = true := by
  obtain ⟨a, rs, -, haj, hx⟩ := hrows
  obtain ⟨b, rs', hjb, -, hx'⟩ := hblocks
  cases hx
  cases hx'
  intro row hrow
  have hmem := List.mem_of_mem_filter (rs.mem_order.mp (mem_orderDesc.mp hrow))
  obtain ⟨hid, -⟩ := Database.references_iff.mp ((hr.foreignKeys a).onlyInTemplate row hmem)
  obtain ⟨block, hblock, hid⟩ := List.mem_map.mp ((hr.grew a b (haj.trans hjb)).blockIds hid)
  rw [← hid]
  refine containsKey_blockIdToBlock (rs'.mem_order.mpr (List.mem_filter.mpr ⟨hblock, ?_⟩))
  rw [decide_eq_true_eq, hid]
  exact List.mem_map_of_mem hrow

theorem Reliable.conflictingTransactionsData (n : UInt32) :
    Ensures (reading dbs) (conflictingTransactionsData n) k (Loads (fun data _ =>
      ∀ txid ∈ conflictingTxids data.conflictingTransactionsInfo,
        (txidToTx data.transactions).containsKey txid = true)) := by
  refine ensures_andThen (ensures_load _ _) fun rows i₁ _ => ?_
  refine ensures_andThen (ensures_load _ _) fun counts i₂ hcounts => ?_
  obtain ⟨j, rs, -, -, hx⟩ := hcounts
  cases hx
  refine ensures_andThen (ensures_load _ _) fun infos i₃ hinfos => ?_
  have hknown := hr.conflictingTxids_known hinfos
  refine ensures_andThen (ensures_load _ _) fun txns i₄ htxns => ?_
  refine ensures_andThen (ensures_load _ _) fun blocks i₅ _ => ?_
  exact ensures_ok fun _ _ txid ht => hr.containsKey_txids htxns ht (hknown txid ht)

theorem Reliable.blocksWithConflictingTransactions (n : UInt32) :
    Ensures (reading dbs) (blocksWithConflictingTransactions n) k (Loads (fun _ _ => True)) := by
  refine ensures_andThen (hr.conflictingTransactionsData n) fun data i hdata => ?_
  have hinfo : ∀ block ∈ data.blocks,
      ∃ info, conflictingTransactionInfo (txidToTx data.transactions)
          (data.conflictingTransactionsInfo.filter (fun ct => ct.blockId = block.id)) block =
        .ok info := by
    intro block _
    refine conflictingTransactionInfo_ok block (fun txid ht => hdata txid ?_)
    obtain ⟨ct, hct, ht⟩ := List.mem_flatMap.mp ht
    exact List.mem_flatMap.mpr ⟨ct, List.mem_of_mem_filter hct, ht⟩
  obtain ⟨infos, hinfos⟩ := exists_mapM_eq_ok hinfo
  dsimp only
  rw [hinfos]
  exact ensures_ok fun _ _ => trivial

theorem Reliable.singleBlockWithConflictingTransactions (blockHash : List UInt8) :
    Ensures (reading dbs) (singleBlockWithConflictingTransactions blockHash) k
      (Loads (fun _ _ => True)) := by
  have hdata : Ensures (reading dbs) (singleBlockWithConflictingTransactionsData blockHash) k
      (Loads (fun data _ => ∀ txid ∈ conflictingTxids data.2.2,
        (txidToTx data.2.1).containsKey txid = true)) := by
    refine ensures_andThen (ensures_load _ _) fun block i₁ _ => ?_
    refine ensures_andThen (ensures_load _ _) fun infos i₂ hinfos => ?_
    have hknown := hr.conflictingTxids_known hinfos
    refine ensures_andThen (ensures_load _ _) fun txns i₃ htxns => ?_
    exact ensures_ok fun _ _ txid ht => hr.containsKey_txids htxns ht (hknown txid ht)
  refine ensures_andThen hdata fun data i h => ?_
  obtain ⟨info, hinfo⟩ := conflictingTransactionInfo_ok data.1 h
  dsimp only
  rw [hinfo]
  exact ensures_ok fun _ _ => trivial

theorem Reliable.missingTransactionsData (n : UInt32) :
    Ensures (reading dbs) (missingTransactionsData n) k (Loads (fun data _ =>
      (∀ row ∈ data.txnsOnlyInTemplate,
        (blockIdToBlock data.blocks).containsKey row.blockId = true) ∧
      ∀ tx ∈ data.transactions, ∃ row ∈ data.txnsOnlyInTemplate,
        row.transactionTxid = tx.txid)) := by
  refine ensures_andThen (ensures_load _ _) fun counts i₁ hcounts => ?_
  obtain ⟨j, rs, -, -, hx⟩ := hcounts
  cases hx
  refine ensures_andThen (ensures_load _ _) fun txids i₂ htxids => ?_
  refine ensures_andThen (ensures_load _ _) fun txns i₃ htxns => ?_
  refine ensures_andThen (ensures_load _ _) fun rows i₄ hrows => ?_
  refine ensures_andThen (ensures_load _ _) fun blocks i₅ hblocks => ?_
  refine ensures_ok fun _ _ => ⟨hr.containsKey_blockIds hrows hblocks, fun tx htx => ?_⟩
  obtain ⟨a, rs₁, -, ha, hx₁⟩ := htxids
  obtain ⟨b, rs₂, hb, hb', hx₂⟩ := htxns
  obtain ⟨c, rs₃, hc, -, hx₃⟩ := hrows
  cases hx₁
  cases hx₂
  cases hx₃
  have hid : tx.txid ∈ page MAX_BLOCKS_PER_PAGE n.toNat _ :=
    of_decide_eq_true (List.mem_filter.mp (rs₂.mem_order.mp htx)).2
  obtain ⟨row, hrow, he⟩ := mem_oftenMissing (rs₁.mem_order.mp (mem_orderDesc.mp (page_subset hid)))
  have hlater := hr.onlyInTemplate a c (((ha.trans hb).trans hb').trans hc) hrow
  refine ⟨row, mem_orderDesc.mpr (rs₃.mem_order.mpr (List.mem_filter.mpr ⟨hlater, ?_⟩)), he⟩
  rw [decide_eq_true_eq, he]
  exact hid

theorem Reliable.missingTransactions (n : UInt32) :
    Ensures (reading dbs) (missingTransactions n) k
      (Loads (fun data _ => ∀ m ∈ data.1, m.blocks ≠ [])) := by
  refine ensures_andThen (hr.missingTransactionsData n) fun data i hdata => ?_
  obtain ⟨hblocks, hrows⟩ := hdata
  have hmissing : ∀ tx : SharedModel.Transaction, ∃ missing,
      missingTransaction (blockIdToBlock data.blocks)
        (data.txnsOnlyInTemplate.filter (fun row => row.transactionTxid = tx.txid)) tx =
          .ok missing ∧ missing.blocks.length =
        (data.txnsOnlyInTemplate.filter (fun row => row.transactionTxid = tx.txid)).length :=
    fun tx => missingTransaction_ok tx (fun row hrow => hblocks row (List.mem_of_mem_filter hrow))
  obtain ⟨missing, hall⟩ := exists_mapM_eq_ok (l := data.transactions)
    (fun tx _ => ⟨_, (hmissing tx).choose_spec.1⟩)
  have hne : ∀ m ∈ missing, m.blocks ≠ [] := by
    intro m hm
    obtain ⟨tx, htx, hof⟩ := exists_of_mem_mapM hall hm
    obtain ⟨row, hrow, he⟩ := hrows tx htx
    obtain ⟨m', hm', hlen⟩ := hmissing tx
    rw [hm'] at hof
    cases hof
    apply List.ne_nil_of_length_pos
    rw [hlen]
    exact List.length_pos_of_mem (List.mem_filter.mpr ⟨hrow, by simpa using he⟩)
  obtain ⟨sorted, hsorted⟩ := sortByMaxHeight_ok hne
  dsimp only
  rw [hall]
  simp only [bind, Except.bind, hsorted]
  exact ensures_ok fun _ _ m hm => hne m ((perm_of_sortByMaxHeight hsorted).mem_iff.mp hm)

theorem Reliable.singleMissingTransaction (reqTxid : List UInt8) :
    Ensures (reading dbs) (singleMissingTransaction reqTxid) k (Loads (fun _ _ => True)) := by
  have hdata : Ensures (reading dbs) (singleMissingTransactionData reqTxid) k
      (Loads (fun data _ => ∀ row ∈ data.2.1,
        (blockIdToBlock data.2.2).containsKey row.blockId = true)) := by
    refine ensures_andThen (ensures_load _ _) fun tx i₁ _ => ?_
    refine ensures_andThen (ensures_load _ _) fun rows i₂ hrows => ?_
    refine ensures_andThen (ensures_load _ _) fun blocks i₃ hblocks => ?_
    exact ensures_ok fun _ _ => hr.containsKey_blockIds hrows hblocks
  refine ensures_andThen hdata fun data i h => ?_
  obtain ⟨missing, hm, -⟩ := missingTransaction_ok data.1 h
  dsimp only
  rw [hm]
  exact ensures_ok fun _ _ => trivial

end Pages

section Runs

variable {lib : Crates} {D : Drift lib} {allowed : Thread → Job → World lib → Prop}
variable {C C' : Config lib} {l : Label lib} {tr : Calls lib}

theorem grew_of_step (hD : D.KeepsDb) (h : Tasks.Step (system lib D allowed) C l C') :
    Grew C.world.db C'.world.db :=
  relates_of_step hD Grew.refl grew_of_succeeds h

theorem foreignKeys_of_step (hD : D.KeepsDb) (h : Tasks.Step (system lib D allowed) C l C') :
    C.world.db.ForeignKeys → C'.world.db.ForeignKeys :=
  relates_of_step (R := fun db db' => db.ForeignKeys → db'.ForeignKeys) hD (fun _ => id)
    (fun hs hf => foreignKeys_of_succeeds hf hs) h

theorem onlyInTemplate_of_step (hD : D.KeepsDb) (h : Tasks.Step (system lib D allowed) C l C') :
    C.world.db.transactionOnlyInTemplate.rows ⊆ C'.world.db.transactionOnlyInTemplate.rows := by
  refine relates_of_step (R := fun db db' => db.transactionOnlyInTemplate.rows ⊆
    db'.transactionOnlyInTemplate.rows) hD (fun _ => List.Subset.refl _) (fun hs => ?_) h
  cases onlyInTemplate_appended hs with
  | same _ hrows =>
    rw [hrows]
    exact List.Subset.refl _
  | added _ _ hrows =>
    rw [hrows]
    exact List.subset_append_left _ _

/-- References are kept, and what each thread has read still stands. -/
structure Intact (D : Drift lib) (allowed : Thread → Job → World lib → Prop) (C : Config lib) :
    Prop where
  coherent : Tasks.Coherent (system lib D allowed) C
  answered : Tasks.Answered (system lib D allowed) (fun w w' => Grew w.db w'.db) C
  foreignKeys : C.world.db.ForeignKeys
  conflicts : ConflictsKnown C.world.db

/-- The transactions of rows that a thread has stored are in the table. -/
theorem Intact.known_of_stored (h : Intact D allowed C) {i : Thread} {j : Job} {rest : Routine Unit}
    (hi : C.running i = some ⟨j, tr, rest⟩) {st : Statement} (hst : Stored tr st)
    {txid : List UInt8}
    (hrefs : ∀ db r db', st.Succeeds db r db' → txid ∈ db.transaction.keys) :
    txid ∈ C.world.db.transaction.keys := by
  obtain ⟨w, a, hmem⟩ := hst
  obtain ⟨hgrew, w', hanswer⟩ := h.answered i _ hi _ hmem
  have hanswer : Daemon.answer w (.sql st) (Except.ok a) w' := hanswer
  exact hgrew.transactions (hrefs _ _ _ hanswer.1)

theorem Intact.conflicts_issued (h : Intact D allowed C) {i : Thread} {j : Job}
    {rows : List ConflictingTransaction}
    {k : Daemon.Reply (.sql (.insertConflictingTransactions rows)) → Routine Unit}
    (hi : C.running i = some ⟨j, tr, .call (.sql (.insertConflictingTransactions rows)) k⟩) :
    ∀ row ∈ rows, ∀ txid ∈ row.templateTxids ++ row.blockTxids,
      txid ∈ C.world.db.transaction.keys := by
  obtain ⟨rs, network, block, fees, lt, -, hissue⟩ | hw := issues_or_within h.coherent hi
  · obtain ⟨blockId, r, ⟨c, s, b, w, hc, -⟩, rfl, hblock, htemplate⟩ := hissue
    obtain ⟨p, hp⟩ := hc.made
    intro row hrow txid ht
    obtain ⟨txInfo, ho | ho, rfl⟩ := hp.mem_conflicting hrow ht
    · obtain ⟨detail, hdetail, he⟩ := hp.mem_onlyInTemplate.mpr ⟨txInfo, ho, rfl⟩
      refine h.known_of_stored hi htemplate fun db a db' hs => ?_
      cases onlyInTemplate_appended hs with
      | same hn _ => exact absurd rfl (hn _)
      | added hs hv _ =>
        cases hs
        exact he ▸ (Database.references_iff.mp (hv detail hdetail)).2
    · obtain ⟨detail, hdetail, he⟩ := hp.mem_onlyInBlock.mpr ⟨txInfo, ho, rfl⟩
      refine h.known_of_stored hi hblock fun db a db' hs => ?_
      cases onlyInBlock_appended hs with
      | same hn _ => exact absurd rfl (hn _)
      | added hs hv _ =>
        cases hs
        exact he ▸ (Database.references_iff.mp (hv detail hdetail)).2
  · exact absurd (hw _ rfl) (by simp [otherTables])

theorem Intact.step (h : Intact D allowed C) (hD : D.KeepsDb)
    (hs : Tasks.Step (system lib D allowed) C l C') : Intact D allowed C' where
  coherent := h.coherent.step hs
  answered := h.answered.step (fun _ _ _ => Grew.trans) hs (grew_of_step hD hs)
  foreignKeys := foreignKeys_of_step hD hs h.foreignKeys
  conflicts := by
    have hgrew := (grew_of_step hD hs).transactions
    cases dbStep_of_step hD hs with
    | same _ hdb => exact hdb ▸ h.conflicts
    | exec hi hx =>
      intro row hrow txid ht
      apply hgrew
      cases conflicting_appended hx with
      | same _ hrows => exact h.conflicts row (hrows ▸ hrow) txid ht
      | added he _ hrows =>
        subst he
        rw [hrows] at hrow
        obtain hrow | hrow := List.mem_append.mp hrow
        · exact h.conflicts row hrow txid ht
        · exact h.conflicts_issued hi row hrow txid ht

/-- A database that the threads may start from. -/
def Sound (w : World lib) : Prop := w.db.ForeignKeys ∧ ConflictsKnown w.db

/-- The databases of a run, in order. -/
def databases {P : World lib → Prop} (ρ : ThreadRun lib D allowed P) (i : Fin (ρ.length + 1)) :
    Database := (ρ.state i).world.db

theorem reliable_of_run (hD : D.KeepsDb) (ρ : ThreadRun lib D allowed Sound) :
    Reliable (databases ρ) := by
  have hintact : ∀ i ≤ ρ.length, Intact D allowed (ρ.state i) := by
    refine ρ.invariant (I := Intact D allowed) (fun C hC => ?_) (fun C l C' hC hs => hC.step hD hs)
    refine ⟨Tasks.coherent_of_idle hC, fun i t ht => ?_, hC.1.1, hC.1.2⟩
    rw [hC.2.1 i] at ht
    cases ht
  refine ⟨fun i => (hintact i (Nat.le_of_lt_succ i.2)).foreignKeys,
    fun i => (hintact i (Nat.le_of_lt_succ i.2)).conflicts, fun i j hij => ?_, fun i j hij => ?_⟩
  · exact ρ.relation (R := fun C C' => Grew C.world.db C'.world.db) (fun _ => .refl _)
      (fun _ _ _ => Grew.trans) (fun i hi => grew_of_step hD (ρ.steps i hi)) hij
      (Nat.le_of_lt_succ j.2)
  · exact ρ.relation (R := fun C C' => C.world.db.transactionOnlyInTemplate.rows ⊆
        C'.world.db.transactionOnlyInTemplate.rows) (fun _ => List.Subset.refl _)
      (fun _ _ _ => List.Subset.trans) (fun i hi => onlyInTemplate_of_step hD (ρ.steps i hi)) hij
      (Nat.le_of_lt_succ j.2)

/-- Whatever the web process reads while the threads of the daemon write, none of its lookups
fails. -/
def NeverUnwraps (ρ : ThreadRun lib D allowed Sound) (q : Query α) : Prop :=
  ∀ i tr r j, Exec (reading (databases ρ)) q i tr r j → r ≠ .error .unwrappedNone

theorem neverUnwraps_of_ensures {ρ : ThreadRun lib D allowed Sound} {q : Query α}
    {Q : α → Fin (ρ.length + 1) → Prop}
    (h : ∀ i, Ensures (reading (databases ρ)) q i (Loads Q)) :
    NeverUnwraps ρ q := by
  rintro i tr r j hx rfl
  exact h i tr _ j hx rfl

theorem pages_never_unwrap (hD : D.KeepsDb) (ρ : ThreadRun lib D allowed Sound) :
    (∀ n, NeverUnwraps ρ (blocksWithConflictingTransactions n)) ∧
    (∀ blockHash, NeverUnwraps ρ (singleBlockWithConflictingTransactions blockHash)) ∧
    (∀ n, NeverUnwraps ρ (missingTransactions n)) ∧
    (∀ txid, NeverUnwraps ρ (singleMissingTransaction txid)) ∧
    ∀ i ≤ ρ.length, ConflictsKnown (ρ.state i).world.db := by
  have hr := reliable_of_run hD ρ
  refine ⟨fun n => ?_, fun blockHash => ?_, fun n => ?_, fun txid => ?_, fun i hi => ?_⟩
  · exact neverUnwraps_of_ensures (fun _ => hr.blocksWithConflictingTransactions n)
  · exact neverUnwraps_of_ensures (fun _ => hr.singleBlockWithConflictingTransactions blockHash)
  · exact neverUnwraps_of_ensures (fun _ => hr.missingTransactions n)
  · exact neverUnwraps_of_ensures (fun _ => hr.singleMissingTransaction txid)
  · exact hr.conflicts ⟨i, Nat.lt_succ_of_le hi⟩

end Runs

section Samples

def overlapJob : Job :=
  .process .inserted .bitcoin overlapBlock (feesOf decoding overlapBlock) [overlapTemplate]

def overlapWorld : World decoding :=
  ⟨.empty, nodeOf (by decide : IsActive decoding [block₀] [] block₀)⟩

theorem sound_overlapWorld : Sound overlapWorld :=
  ⟨⟨by decide, by decide, by decide, by decide, by decide⟩, fun _ hrow => by cases hrow⟩

/-- One job, against one outside. -/
theorem exists_jobRun {lib : Crates} {allowed : Thread → Job → World lib → Prop}
    {P : World lib → Prop} {w : World lib} {j : Job} (hP : P w) (hj : allowed .mainLoop j w)
    (o : Outside) : ∃ ρ : ThreadRun lib .reorganises allowed P,
      ρ.last.world = ((j.prog lib).runWith (respond o) w).2.2 := by
  let C : Config lib := ⟨w, fun _ => none, []⟩
  have h₀ : Tasks.Idle P C := ⟨hP, fun _ => rfl, rfl⟩
  obtain ⟨ended, h⟩ := Tasks.reaches_of_runWith C (i := .mainLoop) (j := j)
    (Y := system lib .reorganises allowed) (P := fun _ _ => True)
    (respond_answers o) (fun _ _ _ => trivial) (fun _ => trivial) (h₀.2.1 .mainLoop) hj
  obtain ⟨ρ, hρ, -⟩ := Runs.Run.exists_last .drift h₀ h
  exact ⟨ρ, congrArg Tasks.Config.world hρ⟩

/-- Threads that may do anything. -/
abbrev OverlapRun (P : World decoding → Prop) :=
  ThreadRun decoding .reorganises (fun _ _ _ => True) P

/-- The block is processed against one outside. -/
theorem exists_overlapRun {P : World decoding → Prop} (hP : P overlapWorld) (o : Outside) :
    ∃ ρ : OverlapRun P,
      ρ.last.world = ((overlapJob.prog decoding).runWith (respond o) overlapWorld).2.2 :=
  exists_jobRun hP trivial o

/-- The transaction of the template and that of the block spend one outpoint. -/
theorem pages_never_unwrap_overlap : ∃ ρ : OverlapRun Sound,
    ρ.last.world.db.conflictingTransactions.rows.length = 1 ∧
      ((∀ n, NeverUnwraps ρ (blocksWithConflictingTransactions n)) ∧
      (∀ blockHash, NeverUnwraps ρ (singleBlockWithConflictingTransactions blockHash)) ∧
      (∀ n, NeverUnwraps ρ (missingTransactions n)) ∧
      (∀ txid, NeverUnwraps ρ (singleMissingTransaction txid)) ∧
      ∀ i ≤ ρ.length, ConflictsKnown (ρ.state i).world.db) := by
  obtain ⟨ρ, hρ⟩ := exists_overlapRun sound_overlapWorld .healthy
  refine ⟨ρ, ?_, pages_never_unwrap Drift.keepsDb_reorganises ρ⟩
  rw [hρ]
  decide +kernel

end Samples

end MiningpoolObserver.PageSafety
