import MiningpoolObserver.Processing.Cells
import MiningpoolObserver.Processing.Packages
import MiningpoolObserver.SanctionCounts

namespace MiningpoolObserver.NoPanic

open MiningpoolObserver.Library.CallTree MiningpoolObserver.Library.HashCollections
open MiningpoolObserver.Library.Fallible
open MiningpoolObserver.Bitcoin MiningpoolObserver.DaemonModel MiningpoolObserver.Db
open MiningpoolObserver.Daemon MiningpoolObserver.Process MiningpoolObserver.Processing.Sanctions
open MiningpoolObserver.Processing.Comparison MiningpoolObserver.Processing.Builders
open MiningpoolObserver.Processing.Conflicts MiningpoolObserver.Processing.ConflictSets
open MiningpoolObserver.Processing.Rounds MiningpoolObserver.Processing.Transactions
open MiningpoolObserver.Processing.Listing MiningpoolObserver.Processing.Packages
open MiningpoolObserver.Processing.Cells MiningpoolObserver.BuiltRecords
open MiningpoolObserver.Overlap MiningpoolObserver.SanctionCounts MiningpoolObserver.Simulation

variable {lib : Crates} {rs : RandomState} {network : Network} {block : Bitcoin.Block}
variable {fees : GetBlockTxFeesResult} {lt : List GetBlockTemplateResult} {c : Comparison}
variable {s : Sanctions} {blockId : Int64} {α β : Type}

/-- What a call of process is given: a template at least, a transaction in the block, a fee for each
one, declared ids that are those of the transactions, and times that chrono can take. -/
structure WellFormed (lib : Crates) (block : Bitcoin.Block) (fees : GetBlockTxFeesResult)
    (lt : List GetBlockTemplateResult) : Prop where
  templates : lt ≠ []
  transactions : block.txdata ≠ []
  fees : ∀ tx ∈ block.txdata, ∃ fee ∈ fees.tx, fee.txid = lib.computeTxid tx
  declared : ∀ t ∈ lt, Declared lib t
  blockTime : (lib.timestamp block.header.time.toUInt64.toInt64).isSome
  templateTimes : ∀ t ∈ lt, (lib.timestamp t.currentTime.toInt64).isSome

section Comparison

theorem exists_buildBlockTxData (h : WellFormed lib block fees lt) :
    ∃ data, buildBlockTxData lib block fees = .ok data := by
  refine exists_foldlM_eq_ok ?_ _
  rintro ⟨tx, i⟩ htx data
  obtain ⟨fee, hfee, hid⟩ := h.fees tx (List.fst_mem_of_mem_zipIdx htx)
  have hkey : (HashMap.collect (fees.tx.map (fun tx => (tx.txid, tx.fee)))).containsKey
      (lib.computeTxid tx) = true :=
    HashMap.containsKey_collect.mpr ⟨_, List.mem_map_of_mem hfee, hid⟩
  obtain ⟨fee', hget⟩ := Option.isSome_iff_exists.mp hkey
  dsimp only
  rw [hget]
  exact ⟨_, rfl⟩

theorem exists_selectBestTemplateForBlock (hlt : lt ≠ []) (txids : HashSet Txid) :
    ∃ t, selectBestTemplateForBlock lt txids = .ok t := by
  unfold selectBestTemplateForBlock
  split
  · exact ⟨_, rfl⟩
  · rename_i hnone
    have hsome := congrArg Option.isSome hnone
    rw [List.isSome_minOn?_iff.mpr hlt] at hsome
    cases hsome

theorem exists_compareBlock (h : WellFormed lib block fees lt) :
    ∃ c, compareBlock lib block fees lt = .ok c := by
  refine exists_bind_eq_ok (exists_buildBlockTxData h) (fun blockTxData _ => ?_)
  refine exists_bind_eq_ok (exists_selectBestTemplateForBlock h.templates _) (fun template _ => ?_)
  have hpackages : ∀ txns, ∃ packages, buildPackages lib txns = .ok packages := fun txns =>
    (buildPackages_perm lib txns).imp (fun _ hp => hp.1)
  refine exists_bind_eq_ok (hpackages _) (fun templateTxPackages _ => ?_)
  exact exists_bind_eq_ok (hpackages _) (fun blockTxPackages _ => ⟨_, rfl⟩)

end Comparison

section Lookups

/-- Every id in the set has an entry in the map. -/
theorem exists_lookup {data : TxData} (h : Aligned data) {txid : Txid} (ht : txid ∈ data.txids) :
    ∃ txInfo, lookup data.txidToTxinfoMap txid = .ok txInfo := by
  obtain ⟨txInfo, hi, hid⟩ := List.mem_map.mp (h.mem_txids.mp ht)
  exact ⟨txInfo, lookup_eq_ok.mpr (h.get?_eq_some_iff.mpr ⟨hi, hid⟩)⟩

/-- Every id of a comparison has an entry in the map of its side. -/
structure Covered (c : Comparison) : Prop where
  onlyInTemplate : ∀ txid ∈ c.txidsOnlyInTemplate,
    ∃ txInfo, lookup c.templateTxData.txidToTxinfoMap txid = .ok txInfo
  onlyInBlock : ∀ txid ∈ c.txidsOnlyInBlock,
    ∃ txInfo, lookup c.blockTxData.txidToTxinfoMap txid = .ok txInfo
  inTemplate : ∀ txid ∈ c.templateTxData.txids,
    ∃ txInfo, lookup c.templateTxData.txidToTxinfoMap txid = .ok txInfo

theorem covered_of_compared (h : Compared lib block fees lt c) (hd : Declared lib c.template) :
    Covered c := by
  obtain ⟨bs, ts, hs⟩ := exists_sides h hd
  refine ⟨fun txid ht => ?_, fun txid ht => ?_, fun txid ht => ?_⟩
  · rw [h.onlyInTemplate, HashSet.mem_difference] at ht
    exact exists_lookup hs.alignedTemplate ht.1
  · rw [h.onlyInBlock, HashSet.mem_difference] at ht
    exact exists_lookup hs.alignedBlock ht.1
  · exact exists_lookup hs.alignedTemplate ht

theorem exists_onlyInRows {ρ : Type} {row : TxInfo → Txid → ρ} {txids : List Txid}
    {m : HashMap Txid TxInfo} (h : ∀ txid ∈ txids, ∃ txInfo, lookup m txid = .ok txInfo)
    (utxoMap : UtxoMap) (addresses : HashSet String) (transactions : TransactionMap) :
    ∃ r, onlyInRows lib rs row txids m utxoMap addresses transactions = .ok r := by
  refine exists_foldlM_eq_ok (fun txid ht acc => ?_) _
  obtain ⟨txInfo, hi⟩ := h txid ht
  exact ⟨_, by rw [hi]; rfl⟩

theorem exists_sanctionedSteps {inBlock : TxInfo → Bool} {inTemplate : Bool} {txids : List Txid}
    {m : HashMap Txid TxInfo} (h : ∀ txid ∈ txids, ∃ txInfo, lookup m txid = .ok txInfo)
    (blockId : Int64) (utxoMap : UtxoMap) (addresses : HashSet String)
    (acc : List SharedModel.SanctionedTransactionInfo × TransactionMap) :
    ∃ r, txids.foldlM (sanctionedStep lib rs blockId inBlock inTemplate m utxoMap addresses) acc =
      .ok r := by
  refine exists_foldlM_eq_ok (fun txid ht acc => ?_) _
  obtain ⟨txInfo, hi⟩ := h txid ht
  unfold sanctionedStep
  rw [hi]
  simp only [bind, Except.bind]
  split_ifs
  · split <;> exact ⟨_, rfl⟩
  · exact ⟨_, rfl⟩

theorem exists_buildDebugTemplateSelectionInfos
    (h : ∀ t ∈ lt, (lib.timestamp t.currentTime.toInt64).isSome) (blockId : Int64)
    (blockTxids : HashSet Txid) (time : UInt64) :
    ∃ infos, buildDebugTemplateSelectionInfos lib blockId lt blockTxids time = .ok infos := by
  refine exists_mapM_eq_ok (fun t ht => ?_)
  obtain ⟨templateTime, htime⟩ := Option.isSome_iff_exists.mp (h t ht)
  exact ⟨_, by rw [htime]; rfl⟩

theorem exists_buildRows (h : WellFormed lib block fees lt) (hc : Covered c) (blockId : Int64)
    (s : Sanctions) (conflicting : List SharedModel.ConflictingTransaction × TransactionMap)
    (ages : HashMap Txid Int32) :
    ∃ r, buildRows lib rs blockId c s lt conflicting ages = .ok r := by
  have ht : ∀ txid ∈ c.txidsOnlyInTemplate.iter rs, _ := fun txid hm =>
    hc.onlyInTemplate txid (HashSet.mem_iter.mp hm)
  have hb : ∀ txid ∈ c.txidsOnlyInBlock.iter rs, _ := fun txid hm =>
    hc.onlyInBlock txid (HashSet.mem_iter.mp hm)
  have hi : ∀ txid ∈ c.templateTxData.txids.iter rs, _ := fun txid hm =>
    hc.inTemplate txid (HashSet.mem_iter.mp hm)
  refine exists_bind_eq_ok (exists_onlyInRows ht _ _ _) (fun onlyInTemplate _ => ?_)
  refine exists_bind_eq_ok (exists_onlyInRows hb _ _ _) (fun onlyInBlock _ => ?_)
  refine exists_bind_eq_ok ?_ (fun sanctionedInfos _ => ?_)
  · exact exists_bind_eq_ok (exists_sanctionedSteps hi _ _ _ _)
      (fun acc _ => exists_sanctionedSteps hb _ _ _ _)
  · exact exists_bind_eq_ok (exists_buildDebugTemplateSelectionInfos h.templateTimes _ _ _)
      (fun debugInfos _ => ⟨_, rfl⟩)

theorem exists_getSanctionedMissingTxCount (hc : Covered c) (utxoMap : UtxoMap)
    (addresses : HashSet String) :
    ∃ n, getSanctionedMissingTxCount lib c.txidsOnlyInTemplate c.templateTxData utxoMap addresses =
      .ok n :=
  exists_bind_eq_ok (exists_mapM_eq_ok (fun txid ht => hc.onlyInTemplate txid ht))
    (fun _ _ => ⟨_, rfl⟩)

theorem exists_buildBlock (h : WellFormed lib block fees lt) {template : GetBlockTemplateResult}
    (ht : template ∈ lt) (m : HashMap Txid TxInfo) (n : BlockNumbers) (utxoMap : UtxoMap)
    (addresses : HashSet String) (pools : List Pool) (now : NaiveDateTime) :
    ∃ b, buildBlock lib block template m n utxoMap addresses pools network now = .ok b := by
  obtain ⟨blockTime, hb⟩ := Option.isSome_iff_exists.mp h.blockTime
  obtain ⟨templateTime, htime⟩ := Option.isSome_iff_exists.mp (h.templateTimes template ht)
  obtain ⟨tx, rest, htx⟩ := List.exists_cons_of_ne_nil h.transactions
  unfold buildBlock
  rw [hb, htime, htx]
  exact ⟨_, rfl⟩

end Lookups

section Process

/-- A part has not ended at a panic. -/
def Sane (r : Except Abort α) : Prop := ∀ p, r ≠ .error (.panicked p)

theorem sane_ok (a : α) : Sane (.ok a : Except Abort α) := nofun

theorem returns_andThen {p : Routine α} {f : α → Routine β} (hp : Prog.Returns Sane p)
    (hf : ∀ a, Prog.Returns Sane (f a)) : Prog.Returns Sane (p.andThen f) := by
  refine Prog.Returns.bind hp (fun r hr => ?_)
  cases r with
  | ok a => exact hf a
  | error e => exact fun q hq => hr q (by rw [Except.error.inj hq])

theorem returns_orPanic {x : Except Panic α} (h : ∃ a, x = .ok a) :
    Prog.Returns Sane (orPanic x) := by
  obtain ⟨a, rfl⟩ := h
  exact sane_ok a

/-- A statement that fails ends a call without a panic. -/
theorem returns_returnOnError (p : Prog signature (Except DbError α)) :
    Prog.Returns Sane (p.bind (fun r => .done (returnOnError r))) := by
  refine Prog.Returns.bind (Prog.returns_of_forall (D := fun _ => True) (fun _ => trivial)) ?_
  intro r _
  cases r with
  | ok a => exact sane_ok a
  | error e => exact fun p hp => by cases hp

theorem returns_orReturn (st : Statement) : Prog.Returns Sane (orReturn st) :=
  returns_returnOnError (execute st)

theorem returns_getConnection : Prog.Returns Sane getConnection := by
  intro r
  cases r with
  | ok _ => exact sane_ok ()
  | error _ =>
    intro r
    cases r with
    | ok _ => exact sane_ok ()
    | error _ => exact fun p hp => by cases hp

theorem returns_recordBlock (h : WellFormed lib block fees lt) (hc : Covered c)
    (ht : c.template ∈ lt) (s : Sanctions) :
    Prog.Returns Sane (recordBlock lib network block fees c s) := by
  apply returns_andThen (returns_orPanic (exists_getSanctionedMissingTxCount hc _ _))
  intro n pools now
  exact returns_andThen (returns_orPanic (exists_buildBlock h ht _ _ _ _ _ _))
    (fun b => returns_orReturn (.insertBlock b))

theorem returns_buildRecords (h : WellFormed lib block fees lt) (hc : Covered c) (blockId : Int64)
    (s : Sanctions) : Prog.Returns Sane (buildRecords lib rs blockId c s lt) := by
  refine returns_andThen (returns_orPanic (exists_buildConflictingTransactions hc.onlyInTemplate
    hc.onlyInBlock)) ?_
  intro conflicting
  refine Prog.Returns.bind (Prog.returns_of_forall (D := fun _ => True) (fun _ => trivial)) ?_
  exact fun ages _ => returns_orPanic (exists_buildRows h hc _ _ _ _)

theorem returns_storeRecords (r : Records) (utxos : List SharedModel.SanctionedUtxo) :
    Prog.Returns Sane (storeRecords rs r utxos) := by
  refine returns_andThen (returns_returnOnError _) (fun _ => ?_)
  refine returns_andThen (returns_orReturn _) (fun _ => ?_)
  refine returns_andThen (returns_orReturn _) (fun _ => ?_)
  refine returns_andThen (returns_orReturn _) (fun _ => ?_)
  refine returns_andThen (returns_orReturn _) (fun _ => ?_)
  refine returns_andThen ?_ (fun _ => returns_orReturn _)
  unfold recordNewUtxos
  split_ifs
  · exact sane_ok ()
  · exact returns_orReturn _

/-- Whatever the replies are, no panic of process is reached. -/
theorem returns_process (h : WellFormed lib block fees lt) :
    Prog.Returns Sane (process lib rs network block fees lt) := by
  obtain ⟨c, hc⟩ := exists_compareBlock h
  have hcomp := compared_of_compareBlock hc
  have hcov := covered_of_compared hcomp (h.declared _ hcomp.template)
  unfold process
  rw [hc]
  change Prog.Returns Sane (getConnection.andThen _)
  refine returns_andThen returns_getConnection (fun _ => ?_)
  refine returns_andThen (fun _ _ => sane_ok _) (fun s => ?_)
  refine returns_andThen (returns_recordBlock h hcov hcomp.template s) (fun blockId => ?_)
  refine returns_andThen (returns_buildRecords h hcov blockId s) (fun r => ?_)
  exact returns_storeRecords r _

/-- No call of process reaches a panic, and none of the borrows in
build_conflicting_transactions fails: it returns what it would return without its cells. -/
theorem process_never_panics {σ : Type} (h : WellFormed lib block fees lt) :
    (∀ (tr : List (Event signature σ)) r,
      Path (process lib rs network block fees lt) tr (.done r) → Sane r) ∧
    ∀ c, compareBlock lib block fees lt = .ok c →
      ∀ (s : Sanctions) (blockId : Int64) (transactions : TransactionMap), ∃ r,
        buildConflictingTransactions lib rs blockId c.txidsOnlyInTemplate
          c.templateTxData.txidToTxinfoMap c.txidsOnlyInBlock c.blockTxData.txidToTxinfoMap
          transactions s.utxoMap s.addresses = .ok r ∧
        buildConflictingTransactionsCells lib rs blockId c.txidsOnlyInTemplate
          c.templateTxData.txidToTxinfoMap c.txidsOnlyInBlock c.blockTxData.txidToTxinfoMap
          transactions s.utxoMap s.addresses = .ok r := by
  refine ⟨fun tr r hp => (returns_process h).path hp, fun c hc s blockId transactions => ?_⟩
  have hcomp := compared_of_compareBlock hc
  have hcov := covered_of_compared hcomp (h.declared _ hcomp.template)
  obtain ⟨r, hr⟩ := exists_buildConflictingTransactions hcov.onlyInTemplate hcov.onlyInBlock
  exact ⟨r, hr, by rw [buildConflictingTransactionsCells_eq, hr]; rfl⟩

theorem wellFormed_overlap :
    WellFormed decoding overlapBlock (feesOf decoding overlapBlock) [overlapTemplate] where
  templates := List.cons_ne_nil _ _
  transactions := List.cons_ne_nil _ _
  fees := by decide
  declared := by
    rintro t ht
    rw [List.mem_singleton.mp ht]
    exact declared_overlap
  blockTime := rfl
  templateTimes := by
    rintro t ht
    rw [List.mem_singleton.mp ht]
    rfl

/-- The block leaves out a transaction of the template and spends one of its outpoints. -/
theorem process_never_panics_overlap :
    (∀ (tr : List (Event signature Unit)) r, Path (process decoding .inserted .bitcoin overlapBlock
      (feesOf decoding overlapBlock) [overlapTemplate]) tr (.done r) → Sane r) ∧
    ∃ c r, compareBlock decoding overlapBlock (feesOf decoding overlapBlock) [overlapTemplate] =
        .ok c ∧
      buildConflictingTransactionsCells decoding .inserted 7 c.txidsOnlyInTemplate
        c.templateTxData.txidToTxinfoMap c.txidsOnlyInBlock c.blockTxData.txidToTxinfoMap
        HashMap.empty listedOnly.utxoMap listedOnly.addresses = .ok r := by
  obtain ⟨hpaths, hcells⟩ : (∀ tr r, Path (process decoding .inserted .bitcoin overlapBlock _ _) tr
    (.done r) → Sane r) ∧ _ := process_never_panics wellFormed_overlap
  obtain ⟨c, hc⟩ := exists_compareBlock wellFormed_overlap
  obtain ⟨r, -, hr⟩ := hcells c hc listedOnly 7 HashMap.empty
  exact ⟨hpaths, c, r, hc, hr⟩

end Process

end MiningpoolObserver.NoPanic
