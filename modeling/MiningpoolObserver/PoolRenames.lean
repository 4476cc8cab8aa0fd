import MiningpoolObserver.Archive
import MiningpoolObserver.PoolNames

namespace MiningpoolObserver.PoolRenames

open MiningpoolObserver.Library MiningpoolObserver.Library.CallTree
open MiningpoolObserver.Library.HashCollections
open MiningpoolObserver.Bitcoin MiningpoolObserver.DaemonModel MiningpoolObserver.SharedModel
open MiningpoolObserver.Db MiningpoolObserver.Daemon MiningpoolObserver.Process
open MiningpoolObserver.ProcessSpec MiningpoolObserver.ProcessRecords MiningpoolObserver.Threads

variable {lib : Crates} {network : Network} {tr tr' : Calls lib}

/-- The name of the block's pool has been set, or that was tried. -/
def Renamed (tr : Calls lib) (blockId : Int64) : Prop :=
  ∃ w newPoolName r, ⟨w, Call.sql (.updatePoolNameWithBlockId blockId newPoolName), r⟩ ∈ tr

theorem renamed_snoc {e : Event Daemon.signature (World lib)} {blockId : Int64} :
    Renamed (tr ++ [e]) blockId ↔ Renamed tr blockId ∨
      ∃ w newPoolName r, e = ⟨w, Call.sql (.updatePoolNameWithBlockId blockId newPoolName), r⟩ := by
  constructor
  · rintro ⟨w, newPoolName, r, h⟩
    obtain h | h := List.mem_append.mp h
    · exact .inl ⟨w, newPoolName, r, h⟩
    · exact .inr ⟨w, newPoolName, r, (List.mem_singleton.mp h).symm⟩
  · rintro (⟨w, newPoolName, r, h⟩ | ⟨w, newPoolName, r, rfl⟩)
    · exact ⟨w, newPoolName, r, List.mem_append_left _ h⟩
    · exact ⟨w, newPoolName, r, List.mem_append_right _ List.mem_cons_self⟩

theorem renamed_snoc_of_ne {e : Event Daemon.signature (World lib)}
    (he : ∀ blockId newPoolName, e.call ≠ .sql (.updatePoolNameWithBlockId blockId newPoolName))
    (blockId : Int64) : Renamed (tr ++ [e]) blockId ↔ Renamed tr blockId := by
  rw [renamed_snoc, or_iff_left]
  rintro ⟨w, newPoolName, r, rfl⟩
  exact he blockId newPoolName rfl

/-- The re-identification thread sets the name of a block that it has read, once for each. -/
def RenamesOnce (tr : Calls lib) : Daemon.Call → Prop
  | .sql (.updatePoolNameWithBlockId blockId _) => ∃ w rows row,
      succeeded w .unknownPoolBlocks rows ∈ tr ∧ row ∈ rows ∧ row.id = blockId ∧
        ((rows.map (fun row => row.id)).Nodup → ¬ Renamed tr blockId)
  | _ => True

/-- The thread has come as far as the first of the blocks that are left. -/
structure Reidentifying (w : World lib) (rows past left : List SharedModel.Block)
    (tr : Calls lib) : Prop where
  read : succeeded w .unknownPoolBlocks rows ∈ tr
  split : rows = past ++ left
  renamed : ∀ blockId, Renamed tr blockId → blockId ∈ past.map (fun row => row.id)

variable {w : World lib} {rows past left : List SharedModel.Block} {row : SharedModel.Block}

theorem Reidentifying.snoc (h : Reidentifying w rows past left tr)
    {e : Event Daemon.signature (World lib)}
    (he : ∀ blockId newPoolName, e.call ≠ .sql (.updatePoolNameWithBlockId blockId newPoolName)) :
    Reidentifying w rows past left (tr ++ [e]) where
  read := List.mem_append_left _ h.read
  split := h.split
  renamed blockId hr := h.renamed blockId ((renamed_snoc_of_ne he blockId).mp hr)

/-- The next block joins those that are done with. -/
theorem Reidentifying.next (h : Reidentifying w rows past (row :: left) tr) :
    Reidentifying w rows (past ++ [row]) left tr where
  read := h.read
  split := by rw [h.split, List.append_assoc, List.singleton_append]
  renamed blockId hr := by
    rw [List.map_append]
    exact List.mem_append_left _ (h.renamed blockId hr)

theorem Reidentifying.rename (h : Reidentifying w rows past (row :: left) tr) {v : World lib}
    {newPoolName : String} {r : Daemon.Reply (.sql (.updatePoolNameWithBlockId row.id _))} :
    Reidentifying w rows (past ++ [row]) left
      (tr ++ [⟨v, Call.sql (.updatePoolNameWithBlockId row.id newPoolName), r⟩]) where
  read := List.mem_append_left _ h.read
  split := h.next.split
  renamed blockId hr := by
    obtain hr | ⟨v', name, r', he⟩ := renamed_snoc.mp hr
    · exact h.next.renamed blockId hr
    · cases he
      simp

theorem Reidentifying.notRenamed (h : Reidentifying w rows past (row :: left) tr)
    (hnd : (rows.map (fun row => row.id)).Nodup) : ¬ Renamed tr row.id := by
  intro hr
  rw [h.split, List.map_append, List.map_cons] at hnd
  exact (List.nodup_append.mp hnd).2.2 _ (h.renamed _ hr) _ List.mem_cons_self rfl

theorem reidentifyBlocks_renamesOnce (h : Reidentifying w rows past left tr) :
    Prog.Always RenamesOnce (fun _ _ => True) tr (reidentifyBlocks lib network left) := by
  induction left generalizing tr past with
  | nil => trivial
  | cons row left ih =>
    rw [reidentifyBlocks]
    cases Hash256.fromSlice row.hash.reverse with
    | none => exact ih h.next
    | some hash =>
      refine ⟨trivial, fun v r => ?_⟩
      have h₁ := h.snoc (e := ⟨v, Call.getBlock hash, r⟩) (fun _ _ hc => by cases hc)
      cases r with
      | error e => trivial
      | ok block =>
        refine Prog.Always.andThen (D := fun tr _ => Reidentifying w rows (past ++ [row]) left tr)
          ⟨trivial, fun u pools => ?_⟩ (fun tr' _ h' => ih h') (fun _ _ _ => trivial)
        have h₂ := h₁.snoc (e := ⟨u, Call.lockPools, pools⟩) (fun _ _ hc => by cases hc)
        dsimp only
        cases lib.identifyPool block network pools with
        | none => exact h₂.next
        | some result =>
          refine ⟨⟨w, rows, row, h₂.read, ?_, rfl, h₂.notRenamed⟩, fun _ _ => h₂.rename⟩
          rw [h₂.split]
          exact List.mem_append_right _ List.mem_cons_self

theorem retry_renamesOnce : Prog.Always RenamesOnce (fun _ _ => True) ([] : Calls lib)
    (retryUnknownPoolIdentification lib network) := by
  refine ⟨trivial, fun w r => ?_⟩
  cases r with
  | error e => trivial
  | ok u =>
    refine ⟨trivial, fun v r => ?_⟩
    cases r with
    | error e => trivial
    | ok rows =>
      have hstart : Reidentifying v rows [] rows ([] ++ [⟨w, Call.poolGet, Except.ok u⟩] ++
          [succeeded v .unknownPoolBlocks rows]) := by
        refine ⟨by simp, rfl, ?_⟩
        rintro blockId ⟨w', newPoolName, r, hm⟩
        simp [succeeded] at hm
      exact reidentifyBlocks_renamesOnce hstart

/-- Each thread does its own work. -/
abbrev OnDuty (lib : Crates) : Thread → Job → World lib → Prop := fun i j _ => Duty i j

/-- A run of the daemon from a database whose block ids are distinct. -/
abbrev DutyRun (lib : Crates) :=
  ThreadRun lib .reorganises (OnDuty lib) (fun w => w.db.blockIds.Nodup)

variable {C C' : Config lib} {l : Label lib}

/-- Only the re-identification thread sets names. -/
theorem renamesOnce_of_running (hc : Tasks.Coherent (system lib .reorganises (OnDuty lib)) C)
    {i : Thread} {j : Job} {blockId : Int64} {newPoolName : String}
    {k : Daemon.Reply (.sql (.updatePoolNameWithBlockId blockId newPoolName)) → Routine Unit}
    (hi : C.running i = some ⟨j, tr, .call (.sql (.updatePoolNameWithBlockId blockId _)) k⟩) :
    i = .reidentification ∧
      RenamesOnce tr (.sql (.updatePoolNameWithBlockId blockId newPoolName)) := by
  obtain ⟨w, hduty⟩ := hc.admitted i _ hi
  by_cases hr : ∃ network, j = .retryUnknownPoolIdentification network
  · obtain ⟨network, rfl⟩ := hr
    refine ⟨?_, hc.call_spec hi retry_renamesOnce⟩
    cases i <;> first | rfl | exact hduty.elim
  · exfalso
    by_cases hp : ∃ rs network block fees lt, j = .process rs network block fees lt
    · obtain ⟨rs, network, block, fees, lt, rfl⟩ := hp
      exact hc.call_spec hi process_issues
    · have hw : Footprint.Writes _ (j.prog lib) := Footprint.prog_writes
        (fun rs network block fees lt h => hp ⟨rs, network, block, fees, lt, h⟩)
        (fun network h => hr ⟨network, h⟩)
      have hm := (hc.call_spec hi (hw.always (.refl []))).2 _ rfl
      simp at hm

/-- The pool of the block is not known. -/
def UnknownIn (db : Database) (blockId : Int64) : Prop :=
  ∀ row ∈ db.block.rows, row.id = blockId → row.poolName = "Unknown"

/-- What the re-identification thread has read and not yet named is still unknown. -/
structure Pending (C : Config lib) : Prop where
  coherent : Tasks.Coherent (system lib .reorganises (OnDuty lib)) C
  distinct : C.world.db.blockIds.Nodup
  read : ∀ t, C.running .reidentification = some t → ∀ w rows,
    succeeded w .unknownPoolBlocks rows ∈ t.trace → (rows.map (fun row => row.id)).Nodup ∧
      ∀ row ∈ rows, row.id ∈ C.world.db.blockIds ∧
        (¬ Renamed t.trace row.id → UnknownIn C.world.db row.id)

/-- A name is set for a block that has none. -/
theorem Pending.unknown (h : Pending C) {i : Thread} {j : Job} {blockId : Int64}
    {newPoolName : String}
    {k : Daemon.Reply (.sql (.updatePoolNameWithBlockId blockId newPoolName)) → Routine Unit}
    (hi : C.running i = some ⟨j, tr, .call (.sql (.updatePoolNameWithBlockId blockId _)) k⟩) :
    UnknownIn C.world.db blockId := by
  obtain ⟨rfl, w, rows, row, hread, hrow, rfl, hn⟩ := renamesOnce_of_running h.coherent hi
  obtain ⟨hnd, hall⟩ := h.read _ hi w rows hread
  exact (hall row hrow).2 (hn hnd)

/-- A block without a name keeps it that way until the re-identification thread sets one. -/
theorem Pending.unknown_step (h : Pending C)
    (hs : Tasks.Step (system lib .reorganises (OnDuty lib)) C l C') {blockId : Int64}
    (hid : blockId ∈ C.world.db.blockIds) (hu : UnknownIn C.world.db blockId)
    (hl : ∀ w newPoolName r, l ≠ .call .reidentification
      ⟨w, .sql (.updatePoolNameWithBlockId blockId newPoolName), r⟩) :
    UnknownIn C'.world.db blockId := by
  intro row hrow hrid
  cases dbStep_of_step Drift.keepsDb_reorganises hs with
  | same _ hdb => exact hu row (hdb ▸ hrow) hrid
  | @exec i j tr st k a _ hi hx =>
    cases blockChange_of_succeeds hx with
    | none _ hb => exact hu row (hb ▸ hrow) hrid
    | @insert b newId _ hfresh hrows =>
      rw [hrows] at hrow
      obtain hrow | hrow := List.mem_append.mp hrow
      · exact hu row hrow hrid
      · rw [List.mem_singleton.mp hrow] at hrid
        obtain rfl : newId = blockId := hrid
        exact absurd hid hfresh
    | @rename id newPoolName _ hrows =>
      obtain ⟨rfl, -⟩ := renamesOnce_of_running h.coherent hi
      rw [hrows] at hrow
      obtain ⟨old, hold, rfl⟩ := List.mem_map.mp hrow
      rw [id_setPoolName] at hrid
      have hne : old.id ≠ id := fun he => hl _ _ _ (by rw [← hrid, he])
      rw [setPoolName, if_neg hne]
      exact hu old hold hrid

theorem nodup_unknownPoolBlocks {db db' : Database} {rows : List SharedModel.Block}
    (h : Statement.unknownPoolBlocks.Succeeds db rows db') (hnd : db.blockIds.Nodup) :
    (rows.map (fun row => row.id)).Nodup := by
  obtain ⟨blockId, r₀, hx, hperm, -⟩ := h
  obtain ⟨rfl, -⟩ := Prod.mk.inj (Except.ok.inj hx)
  have hsub : List.Sublist ((db.block.rows.filter (fun b => b.poolName = "Unknown")).map
      (fun row => row.id)) db.blockIds := List.filter_sublist.map _
  have hsorted := (hperm.trans (List.perm_insertionSort _ _)).map (fun row => row.id)
  exact hsorted.nodup_iff.mpr (hsub.nodup hnd)

theorem Pending.step (h : Pending C)
    (hs : Tasks.Step (system lib .reorganises (OnDuty lib)) C l C') : Pending C' where
  coherent := h.coherent.step hs
  distinct := relates_of_step (R := fun db db' => db.blockIds.Nodup → db'.blockIds.Nodup)
    Drift.keepsDb_reorganises (fun _ => id) nodup_blockIds_of_succeeds hs h.distinct
  read t ht w rows hread := by
    have hgrew := (PageSafety.grew_of_step Drift.keepsDb_reorganises hs).blockIds
    obtain hnil | ⟨hi, hl⟩ | ⟨t₀, e, hi, rfl, htr⟩ := Tasks.trace_of_step hs ht
    · rw [hnil] at hread
      cases hread
    · obtain ⟨hnd, hall⟩ := h.read t hi w rows hread
      refine ⟨hnd, fun row hrow => ⟨hgrew (hall row hrow).1, fun hn => ?_⟩⟩
      exact h.unknown_step hs (hall row hrow).1 ((hall row hrow).2 hn) (fun _ _ _ => hl _)
    · rw [htr] at hread ⊢
      obtain hread | hread := List.mem_append.mp hread
      · obtain ⟨hnd, hall⟩ := h.read t₀ hi w rows hread
        refine ⟨hnd, fun row hrow => ⟨hgrew (hall row hrow).1, fun hn => ?_⟩⟩
        have hn := mt renamed_snoc.mpr hn
        refine h.unknown_step hs (hall row hrow).1 ((hall row hrow).2 (fun hr => hn (.inl hr))) ?_
        intro v newPoolName r he
        cases he
        exact hn (.inr ⟨v, newPoolName, r, rfl⟩)
      · -- the blocks have just been read
        obtain rfl := List.mem_singleton.mp hread
        cases hs with
        | call _ ha =>
          have ha : Daemon.answer C.world (.sql .unknownPoolBlocks) (Except.ok rows) _ := ha
          have hdb : _ = C.world.db :=
            Statement.Reads.succeeds (s := .unknownPoolBlocks) trivial ha.1
          refine ⟨nodup_unknownPoolBlocks ha.1 h.distinct, fun row hrow => ?_⟩
          obtain ⟨hmem, hname⟩ := (unknownPoolBlocks_of_succeeds ha.1).mp hrow
          refine ⟨hgrew (List.mem_map_of_mem hmem), fun _ row' hrow' hid => ?_⟩
          rw [hdb] at hrow'
          rw [List.inj_on_of_nodup_map h.distinct hrow' hmem hid]
          exact hname

/-- A row stays as it is, or it had no name and was given one. -/
def NamedOnce (C C' : Config lib) : Prop :=
  ∀ row ∈ C.world.db.block.rows, row ∈ C'.world.db.block.rows ∨ row.poolName = "Unknown" ∧
    ∃ poolName : String, { row with poolName := poolName } ∈ C'.world.db.block.rows

theorem Pending.namedOnce (h : Pending C)
    (hs : Tasks.Step (system lib .reorganises (OnDuty lib)) C l C') : NamedOnce C C' := by
  intro row hrow
  cases dbStep_of_step Drift.keepsDb_reorganises hs with
  | same _ hdb => exact .inl (hdb ▸ hrow)
  | @exec i j tr st k a _ hi hx =>
    cases blockChange_of_succeeds hx with
    | none _ hb => exact .inl (hb ▸ hrow)
    | insert _ hrows => exact .inl (hrows ▸ List.mem_append_left _ hrow)
    | @rename blockId newPoolName _ hrows =>
      have hrow' := List.mem_map_of_mem (f := setPoolName blockId newPoolName) hrow
      rw [← hrows] at hrow'
      by_cases hid : row.id = blockId
      · rw [setPoolName, if_pos hid] at hrow'
        exact .inr ⟨h.unknown hi row hrow hid, newPoolName, hrow'⟩
      · rw [setPoolName, if_neg hid] at hrow'
        exact .inl hrow'

theorem NamedOnce.trans {C'' : Config lib} (h : NamedOnce C C') (h' : NamedOnce C' C'') :
    NamedOnce C C'' := by
  intro row hrow
  obtain hrow' | ⟨hu, poolName, hrow'⟩ := h row hrow
  · exact h' row hrow'
  · obtain hrow'' | ⟨-, poolName', hrow''⟩ := h' _ hrow'
    · exact .inr ⟨hu, poolName, hrow''⟩
    · exact .inr ⟨hu, poolName', hrow''⟩

theorem pending_of_run (ρ : DutyRun lib) : ∀ i ≤ ρ.length, Pending (ρ.state i) := by
  refine ρ.invariant (I := Pending) (fun C hC => ?_) (fun _ _ _ h hs => h.step hs)
  refine ⟨Tasks.coherent_of_idle hC, hC.1, fun t ht => ?_⟩
  rw [hC.2.1] at ht
  cases ht

theorem namedOnce_of_run (ρ : DutyRun lib) {i j : ℕ} (hij : i ≤ j) (hj : j ≤ ρ.length) :
    NamedOnce (ρ.state i) (ρ.state j) := by
  refine ρ.relation (R := NamedOnce) (fun _ _ hrow => .inl hrow) (fun _ _ _ => .trans) ?_ hij hj
  exact fun k hk => (pending_of_run ρ k hk.le).namedOnce (ρ.steps k hk)

/-- The only change that a block row ever undergoes is that a name replaces "Unknown". -/
def NamesFinal (ρ : DutyRun lib) : Prop :=
  ∀ i j, i ≤ j → j ≤ ρ.length → NamedOnce (ρ.state i) (ρ.state j)

/-- In every run of the daemon, a pool that was identified stays as it is. -/
theorem names_final (ρ : DutyRun lib) : NamesFinal ρ :=
  fun _ _ hij hj => namedOnce_of_run ρ hij hj

end MiningpoolObserver.PoolRenames
