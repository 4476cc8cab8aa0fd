import MiningpoolObserver.PageSafety

namespace MiningpoolObserver.BlockPages

open MiningpoolObserver.Library MiningpoolObserver.Library.CallTree
open MiningpoolObserver.Library.HashCollections MiningpoolObserver.Library.KeyedTable
open MiningpoolObserver.Library.Queries
open MiningpoolObserver.Bitcoin MiningpoolObserver.DaemonModel MiningpoolObserver.SharedModel
open MiningpoolObserver.Db MiningpoolObserver.Daemon MiningpoolObserver.Process
open MiningpoolObserver.ProcessSpec MiningpoolObserver.BuiltRecords
open MiningpoolObserver.ProcessRecords MiningpoolObserver.Threads MiningpoolObserver.Web
open MiningpoolObserver.Simulation MiningpoolObserver.SanctionCounts
open MiningpoolObserver.PageSafety

/-- Transactions that only one of template and block has, with a table for either. -/
inductive Side where
  | template
  | block

namespace Side

variable (t : Side)

def table : TableName :=
  match t with
  | template => .transactionOnlyInTemplate
  | block => .transactionOnlyInBlock

/-- The column of the block row that counts the rows of the table. -/
def count (b : NewBlock) : Int32 :=
  match t with
  | template => b.missingTx
  | block => b.extraTx

def blockIds (db : Database) : List Int64 :=
  match t with
  | template => db.transactionOnlyInTemplate.rows.map (fun row => row.blockId)
  | block => db.transactionOnlyInBlock.rows.map (fun row => row.blockId)

/-- How many rows the table has for a block. -/
def number (db : Database) (blockId : Int64) : ℕ := (t.blockIds db).count blockId

variable {t} {db db' : Database}

theorem blockIds_of_kept {target : Option TableName} (h : Kept db target db')
    (ht : target ≠ some t.table) : t.blockIds db' = t.blockIds db := by
  cases t with
  | template =>
    unfold blockIds
    rw [h.onlyInTemplate ht]
  | block =>
    unfold blockIds
    rw [h.onlyInBlock ht]

theorem blockIds_subset (hf : db.ForeignKeys) : t.blockIds db ⊆ db.blockIds := by
  intro blockId h
  cases t with
  | template =>
    obtain ⟨row, hrow, rfl⟩ := List.mem_map.mp h
    exact (Database.references_iff.mp (hf.onlyInTemplate row hrow)).1
  | block =>
    obtain ⟨row, hrow, rfl⟩ := List.mem_map.mp h
    exact (Database.references_iff.mp (hf.onlyInBlock row hrow)).1

@[simp] theorem count_setPoolName (blockId : Int64) (newPoolName : String)
    (b : SharedModel.Block) :
    t.count (setPoolName blockId newPoolName b).toNewBlock = t.count b.toNewBlock := by
  cases t <;> by_cases h : b.id = blockId <;> simp [count, setPoolName, h]

theorem number_eq_zero (hf : db.ForeignKeys) {blockId : Int64} (h : blockId ∉ db.blockIds) :
    t.number db blockId = 0 :=
  List.count_eq_zero.mpr (fun hm => h (blockIds_subset hf hm))

end Side

variable {lib : Crates} {rs : RandomState} {network : Network} {block : Bitcoin.Block}
variable {fees : GetBlockTxFeesResult} {lt : List GetBlockTemplateResult} {tr tr' : Calls lib}
variable {D : Drift lib} {allowed : Thread → Job → World lib → Prop} {C C' : Config lib}
variable {l : Label lib} {t : Side} {b : NewBlock} {blockId : Int64}

/-- The block row has been inserted under the id. -/
def Opened (tr : Calls lib) (b : NewBlock) (blockId : Int64) : Prop :=
  ∃ w, succeeded w (.insertBlock b) blockId ∈ tr

theorem Untouched.of_subset {t : TableName} (h : Untouched tr' t) (hs : tr ⊆ tr') :
    Untouched tr t := fun w st a he => h w st a (hs he)

/-- A call of process that writes to one of the tables writes the rows of its own block, and for the
first time. -/
theorem filled_of_issues {st : Statement} {a : st.Result} {db db' : Database}
    (hi : ProcessRecords.Issues lib rs network block fees lt tr (.sql st))
    (ht : st.target = some t.table) (hs : st.Succeeds db a db') :
    Untouched tr t.table ∧ ∃ b blockId n, Opened tr b blockId ∧ t.count b = Int32.ofNat n ∧
      t.blockIds db' = t.blockIds db ++ List.replicate n blockId := by
  cases t with
  | template =>
    cases st with
    | insertTransactionsOnlyInTemplate rows =>
      obtain ⟨hu, blockId, r, ⟨c, s, b, w, hc, hb⟩, rfl⟩ := hi
      refine ⟨hu, b, blockId, _, ⟨w, hb⟩, missingTx_eq hc.row hc.records, ?_⟩
      obtain ⟨k, hk⟩ := hc.made
      have hids := congrArg (List.map Prod.fst) hk.templateRows
      have hlen := congrArg List.length hk.templateRows
      simp only [List.map_map, Function.comp_def, List.map_const', List.length_map] at hids hlen
      cases onlyInTemplate_appended hs with
      | same hn _ => exact absurd rfl (hn _)
      | added he _ hrows =>
        cases he
        simp only [Side.blockIds, hrows, List.map_append, hids, hlen]
    | _ => cases ht
  | block =>
    cases st with
    | insertTransactionsOnlyInBlock rows =>
      obtain ⟨hu, blockId, r, ⟨c, s, b, w, hc, hb⟩, rfl⟩ := hi
      refine ⟨hu, b, blockId, _, ⟨w, hb⟩, extraTx_eq hc.row hc.records, ?_⟩
      obtain ⟨k, hk⟩ := hc.made
      cases onlyInBlock_appended hs with
      | same hn _ => exact absurd rfl (hn _)
      | added he _ hrows =>
        cases he
        simp only [Side.blockIds, hrows, List.map_append, hk.blockRows, List.map_map,
          Function.comp_def, List.map_const', List.length_map]
    | _ => cases ht

/-- What a step of the threads does to the blocks and to the rows of one side. -/
inductive Recorded (t : Side) (C : Config lib) : Label lib → Config lib → Prop
  | same {l : Label lib} {C' : Config lib} :
      (∀ i w b blockId, l ≠ .call i (succeeded w (.insertBlock b) blockId)) →
      t.blockIds C'.world.db = t.blockIds C.world.db →
      (∀ row ∈ C'.world.db.block.rows, ∃ row₀ ∈ C.world.db.block.rows, row₀.id = row.id ∧
        t.count row₀.toNewBlock = t.count row.toNewBlock) → Recorded t C l C'
  | opened {i : Thread} {b : NewBlock} {blockId : Int64} {C' : Config lib} :
      blockId ∉ C.world.db.blockIds →
      C'.world.db.block.rows = C.world.db.block.rows ++ [{ b with id := blockId }] →
      t.blockIds C'.world.db = t.blockIds C.world.db →
      Recorded t C (.call i (succeeded C.world (.insertBlock b) blockId)) C'
  | filled {i : Thread} {j : Job} {tr : Calls lib} {rest : Routine Unit}
      {st : Statement} {a : st.Result} {b : NewBlock} {blockId : Int64} {n : ℕ} {C' : Config lib} :
      C.running i = some ⟨j, tr, rest⟩ → st.target = some t.table → Untouched tr t.table →
      Opened tr b blockId → t.count b = Int32.ofNat n → C'.world.db.block = C.world.db.block →
      t.blockIds C'.world.db = t.blockIds C.world.db ++ List.replicate n blockId →
      Recorded t C (.call i (succeeded C.world st a)) C'

theorem recorded_of_step (hD : D.KeepsDb) (hc : Tasks.Coherent (system lib D allowed) C)
    (h : Tasks.Step (system lib D allowed) C l C') : Recorded t C l C' := by
  cases dbStep_of_step hD h with
  | same hl hdb =>
    exact .same (fun i w b blockId => hl i w _ _) (by rw [hdb])
      (fun row hrow => ⟨row, hdb ▸ hrow, rfl, rfl⟩)
  | @exec i j tr st k a _ hi hs =>
    have hk := kept_of_succeeds hs
    by_cases ht : st.target = some t.table
    · obtain ⟨rs, network, block, fees, lt, -, hissue⟩ | hw := issues_or_within hc hi
      · obtain ⟨hu, b, blockId, n, hb, hn, hids⟩ := filled_of_issues hissue ht hs
        refine .filled hi ht hu hb hn (hk.block ?_) hids
        rw [ht]
        cases t <;> simp [Side.table]
      · have hm := hw _ ht
        cases t <;> simp [Side.table, otherTables] at hm
    · have hids := Side.blockIds_of_kept hk ht
      cases blockChange_of_succeeds hs with
      | none hn hblock =>
        refine .same (fun i' w b blockId he => ?_) hids
          (fun row hrow => ⟨row, hblock ▸ hrow, rfl, rfl⟩)
        cases he
        exact hn rfl
      | insert hfresh hrows => exact .opened hfresh hrows hids
      | rename hrows =>
        refine .same (fun i' w b blockId he => by cases he) hids (fun row hrow => ?_)
        rw [hrows] at hrow
        obtain ⟨row₀, hrow₀, rfl⟩ := List.mem_map.mp hrow
        exact ⟨row₀, hrow₀, by simp, by simp⟩

/-- What a job has opened after a step it had opened before, or opens in this step. -/
theorem opened_of_step (h : Tasks.Step (system lib D allowed) C l C') {i : Thread}
    {task' : Tasks.Task Daemon.signature (World lib) Job (Except Abort Unit)}
    (ht : C'.running i = some task') (ho : Opened task'.trace b blockId) :
    (∃ task, C.running i = some task ∧ Opened task.trace b blockId ∧ task.trace ⊆ task'.trace ∧
      ∀ e, l = .call i e → e ∈ task'.trace) ∨
    ∃ w, l = .call i (succeeded w (.insertBlock b) blockId) := by
  obtain ⟨w, hw⟩ := ho
  obtain hnil | ⟨hi, hl⟩ | ⟨task, e, hi, rfl, htr⟩ := Tasks.trace_of_step h ht
  · rw [hnil] at hw
    cases hw
  · exact .inl ⟨task', hi, ⟨w, hw⟩, List.Subset.refl _, fun e he => absurd he (hl e)⟩
  · rw [htr] at hw ⊢
    obtain hw | hw := List.mem_append.mp hw
    · refine .inl ⟨task, hi, ⟨w, hw⟩, List.subset_append_left _ _, fun e' he => ?_⟩
      cases he
      exact List.mem_append_right _ List.mem_cons_self
    · exact .inr ⟨w, by rw [List.mem_singleton.mp hw]⟩

/-- Ids belong to one block each, and to one thread at most. -/
structure Owned (D : Drift lib) (allowed : Thread → Job → World lib → Prop) (C : Config lib) :
    Prop where
  coherent : Tasks.Coherent (system lib D allowed) C
  foreignKeys : C.world.db.ForeignKeys
  nodup : C.world.db.blockIds.Nodup
  stored : ∀ i task, C.running i = some task → ∀ b blockId, Opened task.trace b blockId →
    blockId ∈ C.world.db.blockIds
  apart : ∀ i j task other, C.running i = some task → C.running j = some other →
    ∀ b b' blockId, Opened task.trace b blockId → Opened other.trace b' blockId → i = j

theorem fresh_of_step (hD : D.KeepsDb) (h : Tasks.Step (system lib D allowed) C l C') {i : Thread}
    {w : World lib} (hl : l = .call i (succeeded w (.insertBlock b) blockId)) :
    blockId ∉ C.world.db.blockIds ∧
      C'.world.db.block.rows = C.world.db.block.rows ++ [{ b with id := blockId }] := by
  cases dbStep_of_step hD h with
  | same hn _ => exact absurd hl (hn i w _ _)
  | exec _ hs =>
    cases hl
    cases blockChange_of_succeeds hs with
    | none hn _ => exact absurd rfl hn
    | insert hfresh hrows => exact ⟨hfresh, hrows⟩

theorem Owned.step (h : Owned D allowed C) (hD : D.KeepsDb)
    (hs : Tasks.Step (system lib D allowed) C l C') : Owned D allowed C' where
  coherent := h.coherent.step hs
  foreignKeys := foreignKeys_of_step hD hs h.foreignKeys
  nodup := relates_of_step (R := fun db db' => db.blockIds.Nodup → db'.blockIds.Nodup) hD
    (fun _ => id) nodup_blockIds_of_succeeds hs h.nodup
  stored i task' hi b blockId ho := by
    obtain ⟨task, hi, ho, -, -⟩ | ⟨w, hl⟩ := opened_of_step hs hi ho
    · exact (grew_of_step hD hs).blockIds (h.stored i task hi b blockId ho)
    · rw [Database.blockIds, (fresh_of_step hD hs hl).2]
      simp
  apart i j task' other' hi hj b b' blockId ho ho' := by
    obtain ⟨task, hi, ho, -, -⟩ | ⟨w, hl⟩ := opened_of_step hs hi ho
    · obtain ⟨other, hj, ho', -, -⟩ | ⟨w, hl⟩ := opened_of_step hs hj ho'
      · exact h.apart i j task other hi hj b b' blockId ho ho'
      · exact absurd (h.stored i task hi b blockId ho) (fresh_of_step hD hs hl).1
    · obtain ⟨other, hj, ho', -, -⟩ | ⟨w', hl'⟩ := opened_of_step hs hj ho'
      · exact absurd (h.stored j other hj b' blockId ho') (fresh_of_step hD hs hl).1
      · rw [hl] at hl'
        cases hl'
        rfl

/-- The rows of a block are stored, all of them, or there are none. -/
def Matches (t : Side) (db : Database) (b : NewBlock) (blockId : Int64) : Prop :=
  t.number db blockId = 0 ∨ t.count b = Int32.ofNat (t.number db blockId)

/-- Blocks have all of their rows or none, and none as long as the call that has inserted the block
has not come to the table. -/
structure Counted (t : Side) (C : Config lib) : Prop where
  rows : ∀ row ∈ C.world.db.block.rows, Matches t C.world.db row.toNewBlock row.id
  pending : ∀ i task, C.running i = some task → ∀ b blockId, Opened task.trace b blockId →
    Untouched task.trace t.table → t.number C.world.db blockId = 0 ∧
      ∀ row ∈ C.world.db.block.rows, row.id = blockId → t.count row.toNewBlock = t.count b

theorem Counted.same (hc : Counted t C) (hs : Tasks.Step (system lib D allowed) C l C')
    (hl : ∀ i w b blockId, l ≠ .call i (succeeded w (.insertBlock b) blockId))
    (hids : t.blockIds C'.world.db = t.blockIds C.world.db)
    (hrows : ∀ row ∈ C'.world.db.block.rows, ∃ row₀ ∈ C.world.db.block.rows, row₀.id = row.id ∧
      t.count row₀.toNewBlock = t.count row.toNewBlock) : Counted t C' where
  rows row hrow := by
    obtain ⟨row₀, hrow₀, hid, hcount⟩ := hrows row hrow
    have hm := hc.rows row₀ hrow₀
    rw [Matches, Side.number, hid, hcount] at hm
    rwa [Matches, Side.number, hids]
  pending i task' hi b blockId ho hu := by
    obtain ⟨task, hi, ho, hsub, -⟩ | ⟨w, hw⟩ := opened_of_step hs hi ho
    · obtain ⟨hzero, hall⟩ := hc.pending i task hi b blockId ho (Untouched.of_subset hu hsub)
      refine ⟨by rwa [Side.number, hids], fun row hrow hid => ?_⟩
      obtain ⟨row₀, hrow₀, hid₀, hcount⟩ := hrows row hrow
      exact hcount.symm.trans (hall row₀ hrow₀ (hid₀.trans hid))
    · exact absurd hw (hl i w b blockId)

theorem Counted.opened (ho : Owned D allowed C) (hc : Counted t C)
    (hs : Tasks.Step (system lib D allowed) C l C') {i : Thread} {w : World lib}
    (hl : l = .call i (succeeded w (.insertBlock b) blockId))
    (hfresh : blockId ∉ C.world.db.blockIds)
    (hrows : C'.world.db.block.rows = C.world.db.block.rows ++ [{ b with id := blockId }])
    (hids : t.blockIds C'.world.db = t.blockIds C.world.db) : Counted t C' where
  rows row hrow := by
    rw [hrows] at hrow
    rw [Matches, Side.number, hids]
    obtain hrow | hrow := List.mem_append.mp hrow
    · exact hc.rows row hrow
    · rw [List.mem_singleton.mp hrow]
      exact .inl (Side.number_eq_zero ho.foreignKeys hfresh)
  pending j task' hj b' blockId' hb' hu := by
    rw [Side.number, hids, hrows]
    obtain ⟨task, hj, hb', hsub, -⟩ | ⟨w', hl'⟩ := opened_of_step hs hj hb'
    · obtain ⟨hzero, hall⟩ := hc.pending j task hj b' blockId' hb' (Untouched.of_subset hu hsub)
      refine ⟨hzero, fun row hrow hid => ?_⟩
      obtain hrow | hrow := List.mem_append.mp hrow
      · exact hall row hrow hid
      · -- the new id is not one of those that are under way
        rw [List.mem_singleton.mp hrow] at hid
        obtain rfl : blockId = blockId' := hid
        exact absurd (ho.stored j task hj b' blockId hb') hfresh
    · rw [hl] at hl'
      cases hl'
      refine ⟨Side.number_eq_zero ho.foreignKeys hfresh, fun row hrow hid => ?_⟩
      obtain hrow | hrow := List.mem_append.mp hrow
      · exact absurd (hid ▸ List.mem_map_of_mem hrow) hfresh
      · rw [List.mem_singleton.mp hrow]

theorem Counted.filled (ho : Owned D allowed C) (hc : Counted t C)
    (hs : Tasks.Step (system lib D allowed) C l C') {i : Thread} {j : Job} {rest : Routine Unit}
    {w : World lib} {st : Statement} {a : st.Result} {n : ℕ} (hl : l = .call i (succeeded w st a))
    (hi : C.running i = some ⟨j, tr, rest⟩) (hst : st.target = some t.table)
    (hu : Untouched tr t.table) (hb : Opened tr b blockId) (hn : t.count b = Int32.ofNat n)
    (hblock : C'.world.db.block = C.world.db.block)
    (hids : t.blockIds C'.world.db = t.blockIds C.world.db ++ List.replicate n blockId) :
    Counted t C' := by
  obtain ⟨hzero, hall⟩ := hc.pending i _ hi b blockId hb hu
  have hnumber : ∀ id, t.number C'.world.db id =
      t.number C.world.db id + if blockId = id then n else 0 := by
    intro id
    rw [Side.number, hids, List.count_append, List.count_replicate]
    simp [Side.number]
  refine ⟨fun row hrow => ?_, fun i' task' hi' b' blockId' hb' hu' => ?_⟩
  · rw [hblock] at hrow
    rw [Matches, hnumber]
    by_cases hid : blockId = row.id
    · rw [if_pos hid, ← hid, hzero, Nat.zero_add, hall row hrow hid.symm]
      exact .inr hn
    · rw [if_neg hid]
      exact hc.rows row hrow
  · obtain ⟨task, hj, hb₀, hsub, hlast⟩ | ⟨w', hl'⟩ := opened_of_step hs hi' hb'
    · obtain ⟨hzero', hall'⟩ := hc.pending i' task hj b' blockId' hb₀ (Untouched.of_subset hu' hsub)
      have hne : blockId ≠ blockId' := by
        rintro rfl
        obtain rfl : i = i' := ho.apart i i' _ task hi hj b b' blockId hb hb₀
        exact hu' w st a (hlast _ hl) hst
      rw [hnumber, if_neg hne, hblock]
      exact ⟨hzero', hall'⟩
    · rw [hl] at hl'
      cases hl'
      cases t <;> cases hst

theorem Counted.step (ho : Owned D allowed C) (hc : Counted t C) (hD : D.KeepsDb)
    (hs : Tasks.Step (system lib D allowed) C l C') : Counted t C' := by
  have hr : Recorded t C l C' := recorded_of_step hD ho.coherent hs
  generalize hl : l = l' at hr
  cases hr with
  | same hn hids hrows => exact hc.same hs (hl ▸ hn) hids hrows
  | opened hfresh hrows hids => exact hc.opened ho hs hl hfresh hrows hids
  | filled hi hst hu hb hn hblock hids => exact hc.filled ho hs hl hi hst hu hb hn hblock hids

/-- Block rows keep their ids and counts. -/
def RowsKept (db db' : Database) : Prop :=
  ∀ row ∈ db.block.rows, ∃ row' ∈ db'.block.rows, row'.id = row.id ∧
    ∀ t : Side, t.count row'.toNewBlock = t.count row.toNewBlock

theorem RowsKept.refl (db : Database) : RowsKept db db := fun row hrow =>
  ⟨row, hrow, rfl, fun _ => rfl⟩

theorem RowsKept.trans {db db' db'' : Database} (h : RowsKept db db') (h' : RowsKept db' db'') :
    RowsKept db db'' := by
  intro row hrow
  obtain ⟨row', hrow', hid, hcount⟩ := h row hrow
  obtain ⟨row'', hrow'', hid', hcount'⟩ := h' row' hrow'
  exact ⟨row'', hrow'', hid'.trans hid, fun t => (hcount' t).trans (hcount t)⟩

theorem rowsKept_of_step (hD : D.KeepsDb) (h : Tasks.Step (system lib D allowed) C l C') :
    RowsKept C.world.db C'.world.db := by
  refine relates_of_step hD RowsKept.refl (fun hs row hrow => ?_) h
  obtain ⟨row', hrow', rfl | ⟨blockId, newPoolName, rfl⟩⟩ := exists_row_of_succeeds hs hrow
  · exact ⟨row', hrow', rfl, fun _ => rfl⟩
  · exact ⟨_, hrow', by simp, by simp⟩

/-- A database that the threads may start from: earlier calls have left all rows of a block, or
none. -/
structure Consistent (w : World lib) : Prop where
  foreignKeys : w.db.ForeignKeys
  nodup : w.db.blockIds.Nodup
  rows : ∀ t : Side, ∀ row ∈ w.db.block.rows, Matches t w.db row.toNewBlock row.id

/-- Databases that follow one another, each with all rows of a block or none. -/
structure Filling {σ : Type} [Preorder σ] (dbs : σ → Database) : Prop where
  foreignKeys : ∀ i, (dbs i).ForeignKeys
  nodup : ∀ i, (dbs i).blockIds.Nodup
  rows : ∀ i (t : Side), ∀ row ∈ (dbs i).block.rows, Matches t (dbs i) row.toNewBlock row.id
  kept : ∀ i j, i ≤ j → RowsKept (dbs i) (dbs j)

theorem filling_of_run (hD : D.KeepsDb) (ρ : ThreadRun lib D allowed Consistent) :
    Filling (databases ρ) := by
  have hall : ∀ i ≤ ρ.length, Owned D allowed (ρ.state i) ∧ ∀ t, Counted t (ρ.state i) := by
    refine ρ.invariant (I := fun C => Owned D allowed C ∧ ∀ t, Counted t C) (fun C hC => ?_)
      (fun C l C' hC hs => ⟨hC.1.step hD hs, fun t => (hC.2 t).step hC.1 hD hs⟩)
    have hidle : ∀ i task, C.running i ≠ some task := fun i task hi => by simp [hC.2.1 i] at hi
    refine ⟨⟨Tasks.coherent_of_idle hC, hC.1.foreignKeys, hC.1.nodup, ?_, ?_⟩, fun t => ?_⟩
    · exact fun i task hi => absurd hi (hidle i task)
    · exact fun i j task other hi => absurd hi (hidle i task)
    · exact ⟨hC.1.rows t, fun i task hi => absurd hi (hidle i task)⟩
  have hle : ∀ i : Fin (ρ.length + 1), i.1 ≤ ρ.length := fun i => Nat.le_of_lt_succ i.2
  refine ⟨fun i => (hall i (hle i)).1.foreignKeys, fun i => (hall i (hle i)).1.nodup,
    fun i t => ((hall i (hle i)).2 t).rows, fun i j hij => ?_⟩
  exact ρ.relation (R := fun C C' => RowsKept C.world.db C'.world.db) (fun _ => .refl _)
    (fun _ _ _ => RowsKept.trans) (fun i hi => rowsKept_of_step hD (ρ.steps i hi)) hij (hle j)

section Pages

variable {σ : Type} [Preorder σ] {dbs : σ → Database} {i j k : σ} {blockHash : List UInt8}
variable {p : BlockWithTx}

/-- The lists of a page are as long as its block row says. -/
structure CountsMatch (p : BlockWithTx) : Prop where
  template : (p.txnsOnlyInTemplate.length : Int) = p.block.missingTx.toInt
  block : (p.txnsOnlyInBlock.length : Int) = p.block.extraTx.toInt

/-- A block that counts rows has its rows, no more of them than the counter can hold. -/
def Ready (t : Side) (db : Database) (blockId : Int64) : Prop :=
  (∀ row ∈ db.block.rows, row.id = blockId → t.count row.toNewBlock ≠ 0 →
    0 < t.number db blockId) ∧ t.number db blockId < 2 ^ 31

/-- The block is ready when its detail rows are read. -/
def ReadWhole (dbs : σ → Database) : Event Web.signature σ → Prop
  | ⟨k, .transactionOnlyInTemplateByBlockId blockId, _⟩ => Ready .template (dbs k) blockId
  | ⟨k, .transactionOnlyInBlockByBlockId blockId, _⟩ => Ready .block (dbs k) blockId
  | _ => True

theorem loaded_of_exec {s : Select} {a : s.Result} {tr : List (Event Web.signature σ)}
    (h : Exec (reading dbs) (load s) i tr (.ok a) j) : ∃ k r rs, i ≤ k ∧ k ≤ j ∧
      tr = [⟨k, s, r⟩] ∧ s.exec (dbs k) rs = .ok a := by
  obtain ⟨k, r, u, tr', rfl, hd, ha, hk⟩ := Exec.call_iff.mp h
  obtain ⟨rfl, hr, hu⟩ := Exec.done_iff.mp hk
  obtain ⟨rfl, ⟨e, rfl⟩ | ⟨rs, rfl⟩⟩ := ha
  · cases hr
  · refine ⟨u, _, rs, hd, hu, rfl, ?_⟩
    cases hx : s.exec (dbs u) rs with
    | error e =>
      rw [hx] at hr
      cases hr
    | ok a' =>
      rw [hx] at hr
      cases hr
      rfl

theorem length_onlyInTemplate {db : Database} (hf : db.ForeignKeys) {rs : RandomState}
    {blockId : Int64} {rows : List (TransactionOnlyInTemplate × SharedModel.Transaction)}
    (h : (Select.transactionOnlyInTemplateByBlockId blockId).exec db rs = .ok rows) :
    rows.length = Side.template.number db blockId := by
  cases h
  rw [perm_orderAsc.length_eq, (rs.perm _).length_eq]
  exact length_innerJoin_filter
    (fun row hrow => (Database.references_iff.mp (hf.onlyInTemplate row hrow)).2) blockId

theorem length_onlyInBlock {db : Database} (hf : db.ForeignKeys) {rs : RandomState}
    {blockId : Int64} {rows : List (TransactionOnlyInBlock × SharedModel.Transaction)}
    (h : (Select.transactionOnlyInBlockByBlockId blockId).exec db rs = .ok rows) :
    rows.length = Side.block.number db blockId := by
  cases h
  rw [perm_orderAsc.length_eq, (rs.perm _).length_eq]
  exact length_innerJoin_filter
    (fun row hrow => (Database.references_iff.mp (hf.onlyInBlock row hrow)).2) blockId

/-- All of the rows or none are as many as the counter says exactly when the block is ready. -/
theorem Filling.number_eq_iff (hf : Filling dbs) (hij : i ≤ j) {row : SharedModel.Block}
    (hrow : row ∈ (dbs i).block.rows) :
    (t.number (dbs j) row.id : Int) = (t.count row.toNewBlock).toInt ↔
      Ready t (dbs j) row.id := by
  obtain ⟨row', hrow', hid, hcount⟩ := hf.kept i j hij row hrow
  have hready : Ready t (dbs j) row.id ↔
      (t.count row.toNewBlock ≠ 0 → 0 < t.number (dbs j) row.id) ∧
        t.number (dbs j) row.id < 2 ^ 31 := by
    refine and_congr_left (fun _ => ⟨fun h => ?_, fun h other hother hid' => ?_⟩)
    · rw [← hcount t]
      exact h row' hrow' hid
    · rw [List.inj_on_of_nodup_map (hf.nodup j) hother hrow' (hid'.trans hid.symm), hcount t]
      exact h
  rw [hready]
  have hm := hf.rows j t row' hrow'
  rw [Matches, hid, hcount t] at hm
  generalize t.number (dbs j) row.id = n at *
  constructor
  · intro he
    have hlt := (t.count row.toNewBlock).toInt_lt
    rw [← he] at hlt
    refine ⟨fun hne => Nat.pos_of_ne_zero ?_, by exact_mod_cast hlt⟩
    rintro rfl
    exact hne (Int32.toInt_inj.mp he.symm)
  · rintro ⟨hpos, hlt⟩
    obtain rfl | hn := hm
    · by_cases hz : t.count row.toNewBlock = 0
      · rw [hz]
        rfl
      · exact absurd (hpos hz) (lt_irrefl 0)
    · rw [hn, Int32.toInt_ofNat_of_lt hlt]

/-- A page comes from three databases, and its block row from the first. -/
structure PageReads (dbs : σ → Database) (blockHash : List UInt8)
    (tr : List (Event Web.signature σ)) (p : BlockWithTx) (k₁ k₂ k₃ : σ) : Prop where
  mem : p.block ∈ (dbs k₁).block.rows
  hash : p.block.hash = blockHash
  onlyInTemplate : ∃ rs, (Select.transactionOnlyInTemplateByBlockId p.block.id).exec (dbs k₂) rs =
    .ok p.txnsOnlyInTemplate
  onlyInBlock : ∃ rs, (Select.transactionOnlyInBlockByBlockId p.block.id).exec (dbs k₃) rs =
    .ok p.txnsOnlyInBlock
  readWhole_iff : (∀ e ∈ tr, ReadWhole dbs e) ↔
    Ready .template (dbs k₂) p.block.id ∧ Ready .block (dbs k₃) p.block.id

theorem exec_blockWithTx {tr : List (Event Web.signature σ)}
    (h : Exec (reading dbs) (blockWithTx blockHash) i tr (.ok p) j) :
    ∃ k₁ k₂ k₃, i ≤ k₁ ∧ k₁ ≤ k₂ ∧ k₂ ≤ k₃ ∧ k₃ ≤ j ∧
      PageReads dbs blockHash tr p k₁ k₂ k₃ := by
  obtain ⟨tr₁, rest₁, b, u, rfl, hload₁, h₁⟩ := Exec.andThen_ok_iff.mp h
  obtain ⟨tr₂, rest₂, rows, v, rfl, hload₂, h₂⟩ := Exec.andThen_ok_iff.mp h₁
  obtain ⟨tr₃, rest₃, rows', w, rfl, hload₃, h₃⟩ := Exec.andThen_ok_iff.mp h₂
  obtain ⟨rfl, hp, hw⟩ := Exec.done_iff.mp h₃
  cases hp
  obtain ⟨k₁, r₁, rs₁, hk₁, hu, rfl, hb⟩ := loaded_of_exec hload₁
  obtain ⟨k₂, r₂, rs₂, hk₂, hv, rfl, hrows⟩ := loaded_of_exec hload₂
  obtain ⟨k₃, r₃, rs₃, hk₃, hw', rfl, hrows'⟩ := loaded_of_exec hload₃
  obtain ⟨hmem, hhash⟩ := (dbs k₁).block.find?_eq_some_iff.mp (firstOf_eq_ok.mp hb)
  refine ⟨k₁, k₂, k₃, hk₁, hu.trans hk₂, hv.trans hk₃, hw'.trans hw, hmem, hhash,
    ⟨rs₂, hrows⟩, ⟨rs₃, hrows'⟩, ?_⟩
  simp [ReadWhole]

theorem Filling.ensures_countsMatch (hf : Filling dbs) {tr : List (Event Web.signature σ)}
    (h : Exec (reading dbs) (blockWithTx blockHash) i tr (.ok p) j) :
    CountsMatch p ↔ ∀ e ∈ tr, ReadWhole dbs e := by
  obtain ⟨k₁, k₂, k₃, -, h₁₂, h₂₃, -, hr⟩ := exec_blockWithTx h
  obtain ⟨rs, hrows⟩ := hr.onlyInTemplate
  obtain ⟨rs', hrows'⟩ := hr.onlyInBlock
  have htemplate := hf.number_eq_iff (t := .template) h₁₂ hr.mem
  have hblock := hf.number_eq_iff (t := .block) (h₁₂.trans h₂₃) hr.mem
  rw [← length_onlyInTemplate (hf.foreignKeys k₂) hrows] at htemplate
  rw [← length_onlyInBlock (hf.foreignKeys k₃) hrows'] at hblock
  rw [hr.readWhole_iff, ← htemplate, ← hblock]
  exact ⟨fun hm => ⟨hm.template, hm.block⟩, fun hm => ⟨hm.1, hm.2⟩⟩

end Pages

/-- Whatever the daemon writes meanwhile, the lists of a page are as long as its block row says
exactly when each of them is read after the rows of the block have been stored. -/
theorem countsMatch_iff (hD : D.KeepsDb) (ρ : ThreadRun lib D allowed Consistent)
    (blockHash : List UInt8) : ∀ i tr p j,
      Exec (reading (databases ρ)) (blockWithTx blockHash) i tr (.ok p) j →
        (CountsMatch p ↔ ∀ e ∈ tr, ReadWhole (databases ρ) e) :=
  fun _ _ _ _ h => (filling_of_run hD ρ).ensures_countsMatch h

section Samples

theorem consistent_overlapWorld : Consistent overlapWorld :=
  ⟨sound_overlapWorld.1, by decide, fun _ _ hrow => by cases hrow⟩

/-- What the page of the block shows to someone who comes after the call of process. -/
theorem exists_page (o : Outside) {db : Database}
    (hdb : ((overlapJob.prog decoding).runWith (respond o) overlapWorld).2.2.db = db)
    {β : Type} (shown : BlockWithTx → β) (x : β)
    (hx : (evaluate db .inserted (blockWithTx (hashOf decoding overlapBlock).reversed)).map shown =
      .ok x) :
    ∃ (ρ : OverlapRun Consistent) (i : Fin (ρ.length + 1)) (tr : List (Event Web.signature _))
      (p : BlockWithTx), shown p = x ∧ Exec (reading (databases ρ))
        (blockWithTx (hashOf decoding overlapBlock).reversed) i tr (.ok p) i := by
  obtain ⟨ρ, hρ⟩ := exists_overlapRun consistent_overlapWorld o
  obtain ⟨tr, h⟩ := exec_evaluate (databases ρ) ⟨ρ.length, Nat.lt_succ_self _⟩ .inserted
    (blockWithTx (hashOf decoding overlapBlock).reversed)
  have hlast : databases ρ ⟨ρ.length, Nat.lt_succ_self _⟩ = db := by
    rw [← hdb, ← hρ]
    rfl
  rw [hlast] at h
  cases he : evaluate db .inserted (blockWithTx (hashOf decoding overlapBlock).reversed) with
  | error e =>
    rw [he] at hx
    cases hx
  | ok p =>
    rw [he] at hx h
    cases hx
    exact ⟨ρ, _, tr, p, rfl, h⟩

def shownCounts (p : BlockWithTx) : ℕ × ℕ × Int32 × Int32 :=
  (p.txnsOnlyInTemplate.length, p.txnsOnlyInBlock.length, p.block.missingTx, p.block.extraTx)

/-- Nothing fails, and the page shows one missing transaction and two extra ones. -/
theorem countsMatch_overlap : ∃ (ρ : OverlapRun Consistent) (i : Fin (ρ.length + 1))
    (tr : List (Event Web.signature _)) (p : BlockWithTx), shownCounts p = (1, 2, 1, 2) ∧
      Exec (reading (databases ρ)) (blockWithTx (hashOf decoding overlapBlock).reversed) i tr
        (.ok p) i ∧
      (CountsMatch p ↔ ∀ e ∈ tr, ReadWhole (databases ρ) e) := by
  obtain ⟨ρ, i, tr, p, hp, h⟩ :=
    exists_page .healthy rfl shownCounts (1, 2, 1, 2) (by decide +kernel)
  exact ⟨ρ, i, tr, p, hp, h, countsMatch_iff Drift.keepsDb_reorganises ρ _ i tr p i h⟩

def brokenTransactions : Outside :=
  { Outside.healthy with
    sqlFails := fun s => match s with
      | .insertTransactions _ => true
      | _ => false }

/-- The call of process ends after it has inserted the block row. -/
theorem countsMatch_fails : ¬ ∀ (ρ : OverlapRun Consistent) (blockHash : List UInt8)
    (i : Fin (ρ.length + 1)) (tr : List (Event Web.signature _)) (p : BlockWithTx)
    (j : Fin (ρ.length + 1)), Exec (reading (databases ρ)) (blockWithTx blockHash) i tr (.ok p) j →
      CountsMatch p := by
  intro hall
  obtain ⟨ρ, i, tr, p, hp, h⟩ := exists_page brokenTransactions rfl shownCounts (0, 0, 1, 2)
    (by decide +kernel)
  have hm := (hall ρ _ i tr p i h).template
  simp only [shownCounts, Prod.mk.injEq] at hp
  rw [hp.1, hp.2.2.1] at hm
  exact absurd hm (by decide)

end Samples

end MiningpoolObserver.BlockPages
