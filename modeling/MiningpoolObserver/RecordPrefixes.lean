import MiningpoolObserver.CommitMarker

namespace MiningpoolObserver.RecordPrefixes

open MiningpoolObserver.Library MiningpoolObserver.Library.CallTree
open MiningpoolObserver.Bitcoin MiningpoolObserver.DaemonModel MiningpoolObserver.SharedModel
open MiningpoolObserver.Db MiningpoolObserver.Daemon MiningpoolObserver.Process
open MiningpoolObserver.BuiltRecords MiningpoolObserver.ProcessRecords MiningpoolObserver.Threads
open MiningpoolObserver.PageSafety MiningpoolObserver.BlockPages MiningpoolObserver.CommitMarker
open MiningpoolObserver.SanctionCounts MiningpoolObserver.Simulation

variable {lib : Crates} {D : Drift lib} {allowed : Thread → Job → World lib → Prop}
variable {C C' : Config lib} {l : Label lib} {db db' : Database} {row row₀ : SharedModel.Block}
variable {b : NewBlock} {r : Records} {n : ℕ}

/-- The tables have, in the order in which they are filled, all that one call of process has built
for the block, up to some table, and nothing in the tables after it. -/
structure FilledTo (db : Database) (row : SharedModel.Block) (b : NewBlock) (r : Records) (n : ℕ) :
    Prop where
  block : { row.toNewBlock with poolName := b.poolName } = b
  filled : ∀ p : Part, p.index < n → p.rowsOf db row.id = p.built r
  empty : ∀ p : Part, n ≤ p.index → p.rowsOf db row.id = []

variable (lib allowed) in
/-- The block has no rows in the tables yet, or a prefix of those that one call of process has
built together with the row of the block. -/
def Prefixed (db : Database) (row : SharedModel.Block) : Prop :=
  (∀ p : Part, p.rowsOf db row.id = []) ∨
    ∃ i w rs network block fees lt c s b r n, allowed i (.process rs network block fees lt) w ∧
      Computes lib rs network block fees lt c s b row.id r ∧ FilledTo db row b r n

theorem FilledTo.kept (h : FilledTo db row₀ b r n)
    (hrow : ∃ poolName : String, row = { row₀ with poolName := poolName })
    (hparts : ∀ p : Part, p.rowsOf db' row₀.id = p.rowsOf db row₀.id) : FilledTo db' row b r n := by
  obtain ⟨poolName, rfl⟩ := hrow
  exact ⟨h.block, fun p hp => (hparts p).trans (h.filled p hp),
    fun p hp => (hparts p).trans (h.empty p hp)⟩

theorem Prefixed.kept (h : Prefixed lib allowed db row₀)
    (hrow : ∃ poolName : String, row = { row₀ with poolName := poolName })
    (hparts : ∀ p : Part, p.rowsOf db' row₀.id = p.rowsOf db row₀.id) :
    Prefixed lib allowed db' row := by
  obtain h | ⟨i, w, rs, network, block, fees, lt, c, s, b, r, n, hj, hr, hf⟩ := h
  · obtain ⟨poolName, rfl⟩ := hrow
    exact .inl (fun p => (hparts p).trans (h p))
  · refine .inr ⟨i, w, rs, network, block, fees, lt, c, s, b, r, n, hj, ?_, hf.kept hrow hparts⟩
    obtain ⟨poolName, rfl⟩ := hrow
    exact hr

variable (lib allowed) in
def AllPrefixed (db : Database) : Prop := ∀ row ∈ db.block.rows, Prefixed lib allowed db row

theorem prefixed_step (h : Marks D allowed C) (hD : D.KeepsDb)
    (hp : AllPrefixed lib allowed C.world.db) (hs : Tasks.Step (system lib D allowed) C l C') :
    AllPrefixed lib allowed C'.world.db := by
  intro row hrow
  cases written_of_step hD h.owned.coherent hs with
  | same _ _ hparts _ hrows =>
    obtain ⟨row₀, hrow₀, hname⟩ := hrows row hrow
    exact (hp row₀ hrow₀).kept hname (fun p => by rw [Part.rowsOf, hparts, Part.rowsOf])
  | opened hfresh hrows hparts _ =>
    have hsame : ∀ (p : Part) id, p.rowsOf C'.world.db id = p.rowsOf C.world.db id :=
      fun p id => by rw [Part.rowsOf, hparts, Part.rowsOf]
    rw [hrows] at hrow
    obtain hrow | hrow := List.mem_append.mp hrow
    · exact (hp row hrow).kept ⟨row.poolName, rfl⟩ (fun p => hsame p row.id)
    · rw [List.mem_singleton.mp hrow]
      exact .inl (fun p => (hsame p _).trans (Part.rowsOf_eq_nil h.owned.foreignKeys hfresh))
  | @inserted i rs network block fees lt tr _ p blockId r _ _ hi hf hblock _ hother hrows =>
    obtain ⟨c, s, b, v, hr, hopen⟩ := hf.records
    rw [hblock] at hrow
    by_cases hid : row.id = blockId
    · -- the thread that fills the table has opened the block, and knows what the tables have
      subst hid
      obtain ⟨w, hw⟩ := h.owned.coherent.admitted i _ hi
      have hprogress := h.progress i _ hi b row.id ⟨v, hopen⟩
      refine .inr ⟨i, w, rs, network, block, fees, lt, c, s, b, r, p.index + 1, hw, hr,
        hprogress.block row hrow rfl, fun q hq => ?_, fun q hq => ?_⟩
      · obtain hq | hq := Nat.lt_succ_iff_lt_or_eq.mp hq
        · have hne : q ≠ p := by
            rintro rfl
            exact Nat.lt_irrefl _ hq
          rw [Part.rowsOf, hother q hne]
          exact hprogress.stored q _ (hf.stored q hq) (Part.blockId_built hr)
        · obtain rfl := Part.index_injective hq
          rw [Part.rowsOf_of_own hr hrows, hprogress.empty q (hf.untouched q le_rfl),
            List.nil_append]
      · have hne : q ≠ p := by
          rintro rfl
          exact Nat.not_succ_le_self _ hq
        rw [Part.rowsOf, hother q hne]
        exact hprogress.empty q (hf.untouched q (Nat.le_of_succ_le hq))
    · exact (hp row hrow).kept ⟨row.poolName, rfl⟩
        (fun q => Part.rowsOf_of_added hr hrows hother hid)
  | marked _ _ _ _ hblock hparts _ =>
    exact (hp row (hblock ▸ hrow)).kept ⟨row.poolName, rfl⟩
      (fun p => by rw [Part.rowsOf, hparts, Part.rowsOf])

/-- A database that the threads may start from. -/
def Resumed (lib : Crates) (allowed : Thread → Job → World lib → Prop) (w : World lib) : Prop :=
  Restarted lib allowed w ∧ AllPrefixed lib allowed w.db

/-- A database without blocks is one. -/
theorem resumed_of_noBlocks {w : World lib} (hf : w.db.ForeignKeys) (hb : w.db.block.rows = []) :
    Resumed lib allowed w := by
  refine ⟨restarted_of_noBlocks hf hb, fun row hrow => ?_⟩
  rw [hb] at hrow
  cases hrow

theorem resumed_of_run (hD : D.KeepsDb) (ρ : ThreadRun lib D allowed (Resumed lib allowed)) :
    ∀ i ≤ ρ.length, Marks D allowed (ρ.state i) ∧ AllPrefixed lib allowed (ρ.state i).world.db := by
  have hmarks := marks_of_run hD (ρ.ofInit fun _ h => ⟨h.1.1, h.2.1, h.2.2⟩)
  intro i
  induction i with
  | zero => exact fun hi => ⟨hmarks 0 hi, ρ.starts.1.2⟩
  | succ i ih =>
    intro hi
    obtain ⟨hm, hp⟩ := ih (Nat.le_of_succ_le hi)
    exact ⟨hmarks (i + 1) hi, prefixed_step hm hD hp (ρ.steps i hi)⟩

/-- The rows of each block are a prefix of what one call of process has built, in the databases of
a run. -/
def InOrder (ρ : ThreadRun lib D allowed (Resumed lib allowed)) : Prop :=
  ∀ i ≤ ρ.length, AllPrefixed lib allowed (ρ.state i).world.db

/-- However the threads interleave, and wherever calls fail. -/
theorem rows_in_order (ρ : ThreadRun lib .reorganises allowed (Resumed lib allowed)) :
    InOrder ρ :=
  fun i hi => (resumed_of_run Drift.keepsDb_reorganises ρ i hi).2

def brokenTemplate : Outside :=
  { Outside.healthy with
    sqlFails := fun s => match s with
      | .insertTransactionsOnlyInTemplate _ => true
      | _ => false }

/-- The call ends between two tables. -/
theorem rows_in_order_brokenTemplate :
    ∃ ρ : OverlapRun (Resumed decoding (fun _ _ _ => True)),
      (ρ.last.world.db.transactionOnlyInBlock.rows.length,
        ρ.last.world.db.transactionOnlyInTemplate.rows.length) = (2, 0) ∧ InOrder ρ := by
  obtain ⟨ρ, hρ⟩ := exists_overlapRun (resumed_of_noBlocks sound_overlapWorld.1 rfl) brokenTemplate
  refine ⟨ρ, ?_, rows_in_order ρ⟩
  rw [hρ]
  decide +kernel

end MiningpoolObserver.RecordPrefixes
