import MiningpoolObserver.Simulation
import MiningpoolObserver.TagWrites

namespace MiningpoolObserver.TagRaces

open MiningpoolObserver.Library MiningpoolObserver.Library.CallTree
open MiningpoolObserver.Library.HashCollections MiningpoolObserver.Library.Runs
open MiningpoolObserver.Bitcoin MiningpoolObserver.Tags MiningpoolObserver.SharedModel
open MiningpoolObserver.Db MiningpoolObserver.Daemon MiningpoolObserver.Process
open MiningpoolObserver.ProcessSpec MiningpoolObserver.Threads MiningpoolObserver.TagWrites
open MiningpoolObserver.Processing.Transactions MiningpoolObserver.Simulation

variable {lib : Crates} {C C' : Config lib} {l : Label lib}

/-- The main loop inserts transactions with distinct ids, next to the retag thread. -/
def Merging : Thread → Job → World lib → Prop
  | .mainLoop, .insertTransactions txns, _ => (txns.map (fun tx => tx.txid)).Nodup
  | .retag, .retagTransactions, _ => True
  | _, _, _ => False

/-- The two writers of tags, from any database. -/
abbrev MergingRun (lib : Crates) := ThreadRun lib .reorganises Merging (fun _ => True)

/-- Every tag in a row of the first state is in that row in the second. -/
def TagsKept (C C' : Config lib) : Prop :=
  ∀ row ∈ C.world.db.transaction.rows, ∃ row' ∈ C'.world.db.transaction.rows,
    row'.txid = row.txid ∧ row.tags ⊆ row'.tags

/-- When a thread updates a row, every tag that the row has gained since the thread read it is
one that the thread adds itself. -/
def GainsAreOwn (C : Config lib) (l : Label lib) : Prop :=
  ∀ i txid, updatedRow l = some (i, txid) → ∀ t, C.running i = some t →
    ∀ row ∈ C.world.db.transaction.rows, row.txid = txid → ∀ tag ∈ row.tags,
      tag ∉ (latest (tagsRead txid) t.trace).getD [] → tag ∈ ownTags t.trace txid

theorem writes_of_merging {i : Thread} {j : Job} {w : World lib} (h : Merging i j w) :
    WritesTags (fun _ => True) ([] : Calls lib) (j.prog lib) := by
  unfold Merging at h
  split at h
  · exact (insertTransactions_writes h trivial).bind (fun _ _ => trivial)
  · exact retagTransactions_writes
  · exact h.elim

theorem tagsKept_of_rows (h : C.world.db.transaction.rows ⊆ C'.world.db.transaction.rows) :
    TagsKept C C' :=
  fun row hrow => ⟨row, h hrow, rfl, List.Subset.refl _⟩

theorem tagsKept_iff_step (hc : Tasks.Coherent (system lib .reorganises Merging) C)
    (h : Tasks.Step (system lib .reorganises Merging) C l C') :
    TagsKept C C' ↔ GainsAreOwn C l := by
  cases rowsStep_of_step Drift.keepsDb_reorganises h with
  | same hl hrows =>
    apply iff_of_true (tagsKept_of_rows (by rw [hrows]; exact List.Subset.refl _))
    intro i txid hu
    rw [hl] at hu
    cases hu
  | insert hl _ ht =>
    refine iff_of_true (tagsKept_of_rows ?_) ?_
    · rw [ht, KeyedTable.Table.rows_insertNew]
      exact List.subset_append_left _ _
    · intro i txid hu
      rw [hl] at hu
      cases hu
  | @update i j tr newTags txid k hl hi hrows =>
    obtain ⟨tags, hread, hnew⟩ := newTags_of_running (fun _ _ _ => writes_of_merging) hc hi
    constructor
    · intro hk i' txid' hu t ht row hrow hid tag htag hn
      rw [hl] at hu
      cases hu
      rw [hi] at ht
      cases ht
      rw [hread, Option.getD_some] at hn
      obtain ⟨row', hrow', hid', hsub⟩ := hk row hrow
      rw [hrows] at hrow'
      obtain ⟨old, hold, rfl⟩ := List.mem_map.mp hrow'
      have heq : old.txid = txid := by
        rw [← hid, ← hid', txid_setTags]
      have htags : (setTags newTags txid old).tags = newTags := by simp [setTags, heq]
      have hm := hsub htag
      rw [htags] at hm
      exact ((hnew tag).mp hm).resolve_left hn
    · intro hg row hrow
      refine ⟨setTags newTags txid row, hrows ▸ List.mem_map_of_mem hrow, txid_setTags _ _ _, ?_⟩
      intro tag htag
      by_cases hid : row.txid = txid
      · have hg' := hg i txid hl _ hi row hrow hid tag htag
        rw [hread, Option.getD_some] at hg'
        simp only [setTags, if_pos hid]
        exact (hnew tag).mpr (or_iff_not_imp_left.mpr hg')
      · simpa only [setTags, if_neg hid] using htag

/-- A tag that has been committed is in its row in every later state. -/
def NoTagLost (ρ : MergingRun lib) : Prop :=
  ∀ i j, i ≤ j → j ≤ ρ.length → TagsKept (ρ.state i) (ρ.state j)

theorem coherent_run (ρ : MergingRun lib) :
    ∀ i ≤ ρ.length, Tasks.Coherent (system lib .reorganises Merging) (ρ.state i) :=
  ρ.invariant (fun _ => Tasks.coherent_of_idle) (fun _ _ _ hc h => hc.step h)

/-- No tag is ever lost exactly when no update overwrites a tag that the row has gained since the
updating thread read it, and that the thread does not add itself. -/
theorem noTagLost_iff (ρ : MergingRun lib) :
    NoTagLost ρ ↔ ∀ i < ρ.length, GainsAreOwn (ρ.state i) (ρ.label i) := by
  constructor
  · intro h i hi
    exact (tagsKept_iff_step (coherent_run ρ i hi.le) (ρ.steps i hi)).mp
      (h i (i + 1) (Nat.le_succ i) hi)
  · intro h i j hij hj
    refine ρ.relation (R := TagsKept) (fun C => tagsKept_of_rows (List.Subset.refl _)) ?_ ?_ hij hj
    · intro C₁ C₂ C₃ h₁ h₂ row hrow
      obtain ⟨row', hrow', hid', hsub'⟩ := h₁ row hrow
      obtain ⟨row'', hrow'', hid'', hsub''⟩ := h₂ row' hrow'
      exact ⟨row'', hrow'', hid''.trans hid', List.Subset.trans hsub' hsub''⟩
    · intro k hk
      exact (tagsKept_iff_step (coherent_run ρ k hk.le) (ρ.steps k hk)).mpr (h k hk)

def rawTx : Bitcoin.Transaction := coinbaseTx 102 otherScript

def row (tags : List Int) : SharedModel.Transaction where
  txid := (sample.computeTxid rawTx).reversed
  sanctioned := false
  fee := 0
  vsize := 100
  outputSum := 5000
  tags := tags
  inputCount := 1
  inputs := []
  outputCount := 1
  outputs := []
  sigops := 0

def rowWorld (tags : List Int) : World sample :=
  ⟨{ Database.empty with transaction := ⟨[row tags], List.nodup_singleton _⟩ }, chain₁⟩

def insertion (w : World sample) (tags : List Int) :
    List (Event Daemon.signature (World sample)) × Except Abort Unit × World sample :=
  ((Job.insertTransactions [row tags]).prog sample).runWith (respond .healthy) w

/-- The main loop runs one insertion while no other thread moves. -/
theorem reaches_insertion (tags : List Int) {C : Config sample} {w : World sample}
    (hi : C.running .mainLoop = none) (hw : (insertion C.world tags).2.2 = w) :
    ∃ ended, Tasks.Reaches (system sample .reorganises Merging) (fun _ _ => True) C
      { C with world := w, ended := ended } := by
  rw [insertion] at hw
  subst hw
  have hj : (system sample .reorganises Merging).allowed
      .mainLoop (.insertTransactions [row tags]) C.world := List.nodup_singleton _
  obtain ⟨ended, h⟩ := Tasks.reaches_of_runWith (Y := system sample .reorganises Merging)
    (P := fun _ _ => True) C (respond_answers .healthy) (fun _ _ _ => trivial) (fun _ => trivial)
    hi hj
  exact ⟨ended, h⟩

def recomputedTags : List Int :=
  withOldTags (retagTransaction sample rawTx ⟨sample.computeTxid rawTx, rawTx, -1, 0⟩
    (HashSet.collect [])) []

theorem coinbase_mem_recomputedTags : TxTag.coinbase.code ∈ recomputedTags := by
  rw [recomputedTags, mem_withOldTags]
  right
  apply code_mem_getTransactionTags.mpr
  simp only [tagConditions, List.mem_cons, Prod.mk.injEq]
  simp
  decide

theorem conflicting_notMem_recomputedTags : TxTag.conflicting.code ∉ recomputedTags := by
  rw [recomputedTags, mem_withOldTags]
  rintro (h | h)
  · cases h
  · have hm := code_mem_getTransactionTags.mp h
    simp [tagConditions] at hm

/-- The retag thread up to its first update. -/
def snapshot (w : World sample) : Calls sample :=
  [⟨w, Call.poolGet, Except.ok ()⟩, succeeded w .allTransactions w.db.transaction,
    succeeded w .sanctionedAddresses w.db.sanctionedAddresses,
    ⟨w, Call.getRawTransaction (sample.computeTxid rawTx), Except.ok rawTx⟩]

theorem retag_path : ∃ k, Path (retagTransactions sample) (snapshot (rowWorld []))
    (.call (.sql (.updateTransactionTags recomputedTags (row []).txid)) k) := by
  have hne : recomputedTags ≠ [] := by
    intro h
    have hm := coinbase_mem_recomputedTags
    rw [h] at hm
    cases hm
  have hrow : Path (retagRow sample (HashSet.collect []) (row []))
      [⟨rowWorld [], Call.getRawTransaction (sample.computeTxid rawTx), Except.ok rawTx⟩]
      (.call (.sql (.updateTransactionTags recomputedTags (row []).txid))
        (fun _ => .done (.ok ()))) :=
    @retagRow_path sample (HashSet.collect []) (row []) (sample.computeTxid rawTx) rawTx
      recomputedTags rfl rfl hne (rowWorld [])
  exact ⟨_, .cons (.cons (.cons (hrow.bind _)))⟩

theorem snapshot_answers (w : World sample) :
    Answers (Daemon.environment Drift.reorganises) w (snapshot w) w :=
  retagReads_answers Drift.reorganises w rawTx

/-- The retag thread reads the table and recomputes the tags, and has not updated the row yet. -/
theorem reaches_snapshot {C : Config sample} (hi : C.running .retag = none)
    (hw : C.world = rowWorld []) :
    ∃ k, Tasks.Reaches (system sample .reorganises Merging) (fun _ _ => True) C { C with
      running := Function.update C.running .retag (some ⟨.retagTransactions, snapshot (rowWorld []),
        .call (.sql (.updateTransactionTags recomputedTags (row []).txid)) k⟩) } := by
  obtain ⟨k, hpath⟩ := retag_path
  exact ⟨k, Tasks.reaches_of_start (fun _ _ _ => trivial) hi trivial hpath
    (hw ▸ snapshot_answers (rowWorld []))⟩

/-- The main loop inserts a transaction, the retag thread reads it, the main loop adds a tag to it,
and the retag thread overwrites that. -/
theorem noTagLost_fails : ¬ ∀ ρ : MergingRun sample, NoTagLost ρ := by
  intro h
  let C₀ : Config sample := ⟨⟨.empty, chain₁⟩, fun _ => none, []⟩
  have h0 : Tasks.Idle (fun _ => True) C₀ := ⟨trivial, fun _ => rfl, rfl⟩
  obtain ⟨ended₁, h₁⟩ := reaches_insertion [] (C := C₀) (w := rowWorld []) rfl rfl
  let C₁ : Config sample := { C₀ with world := rowWorld [], ended := ended₁ }
  obtain ⟨k, h₂⟩ := reaches_snapshot (C := C₁) rfl rfl
  let t : Tasks.Task Daemon.signature (World sample) Job (Except Abort Unit) :=
    ⟨.retagTransactions, snapshot (rowWorld []),
      .call (.sql (.updateTransactionTags recomputedTags (row []).txid)) k⟩
  let C₂ : Config sample := { C₁ with running := Function.update C₁.running .retag (some t) }
  obtain ⟨ended₂, h₃⟩ := reaches_insertion [TxTag.conflicting.code] (C := C₂)
    (w := rowWorld [TxTag.conflicting.code]) rfl rfl
  let C₃ : Config sample := { C₂ with world := rowWorld [TxTag.conflicting.code], ended := ended₂ }
  have hr : C₃.running .retag = some t := Function.update_self Thread.retag _ C₁.running
  have hanswer : (system sample .reorganises Merging).env.answer C₃.world
      (.sql (.updateTransactionTags recomputedTags (row []).txid))
      (Except.ok () : Except DbError Unit) (rowWorld recomputedTags) := ⟨⟨7, (), rfl, rfl⟩, rfl⟩
  obtain ⟨ρ, i, hi, hs, hs'⟩ := Run.exists_step h0 ((h₁.trans h₂).trans h₃)
    (Tasks.Step.call hr hanswer)
  obtain ⟨row', hrow', -, hsub⟩ := h ρ i (i + 1) (Nat.le_succ i) hi (row [TxTag.conflicting.code])
    (by rw [hs]; exact List.mem_singleton_self _)
  rw [hs'] at hrow'
  rw [List.mem_singleton.mp hrow'] at hsub
  exact conflicting_notMem_recomputedTags (hsub (List.mem_singleton_self _))

end MiningpoolObserver.TagRaces
