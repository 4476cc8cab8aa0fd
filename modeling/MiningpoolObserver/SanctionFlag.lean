import MiningpoolObserver.BuiltRecords
import MiningpoolObserver.Processing.Flags
import MiningpoolObserver.Simulation
import MiningpoolObserver.TagWrites

namespace MiningpoolObserver.SanctionFlag

open MiningpoolObserver.Library MiningpoolObserver.Library.CallTree
open MiningpoolObserver.Library.HashCollections MiningpoolObserver.Library.Runs
open MiningpoolObserver.BuiltRecords
open MiningpoolObserver.Bitcoin MiningpoolObserver.Tags MiningpoolObserver.SharedModel
open MiningpoolObserver.Db MiningpoolObserver.Daemon MiningpoolObserver.Process
open MiningpoolObserver.ProcessSpec MiningpoolObserver.Threads MiningpoolObserver.TagWrites
open MiningpoolObserver.Processing.Sanctions MiningpoolObserver.Processing.Transactions
open MiningpoolObserver.Processing.Flags MiningpoolObserver.Simulation

variable {lib : Crates} {C C' : Config lib} {l : Label lib}

theorem allBuilt_of_builds {rs : RandomState} {block : Bitcoin.Block}
    {fees : GetBlockTxFeesResult} {lt : List GetBlockTemplateResult} {r : Records}
    (hc : CollisionFree lib (transactionsAtHand lib block lt)) (h : Builds lib rs block fees lt r) :
    ∃ s : Sanctions, AllBuilt lib (transactionsAtHand lib block lt) s.utxoMap s.addresses
      r.transactions := by
  obtain ⟨c, s, blockId, conflicting, ages, hcomp, hconf, hrows⟩ := h
  refine ⟨s, ?_⟩
  have hcomp := compared_of_compareBlock hcomp
  obtain ⟨k, hk⟩ := made_of_buildRows hconf hrows
  have hblock : InfosOf lib (transactionsAtHand lib block lt) c.blockTxData.txidToTxinfoMap :=
    infosOf_buildBlockTxData hcomp.block
  have htemplate : InfosOf lib (transactionsAtHand lib block lt)
      c.templateTxData.txidToTxinfoMap := by
    rw [hcomp.templateTxData]
    exact infosOf_buildTemplateTxData hcomp.template
  rw [hk.transactions]
  refine allBuilt_addEach hc (fun t ht => built_of_mem_built (hk.forall_tries ?_ ?_ ?_) ht)
  · exact fun _ hi => infoOf_of_looked htemplate hk.template hi
  · exact fun _ hi => infoOf_of_looked hblock hk.block hi
  · exact fun _ hi => infoOf_of_looked htemplate hk.inTemplate (List.mem_of_mem_filter hi)

/-- Each thread does its own work, and no call of process meets two transactions with one id. -/
def Sharing : Thread → Job → World lib → Prop
  | .mainLoop, .process _ _ block _ lt, _ => CollisionFree lib (transactionsAtHand lib block lt)
  | .utxoScan, .scanSanctionedUtxos, _ => True
  | .retag, .retagTransactions, _ => True
  | .addressUpdater, .updateSanctionedAddresses, _ => True
  | _, _, _ => False

def FlagsMatch (w : World lib) : Prop := ∀ row ∈ w.db.transaction.rows, FlagMatches row

/-- The four threads, from a database in which every flag says what the tags say. -/
abbrev SharingRun (lib : Crates) := ThreadRun lib .reorganises Sharing FlagsMatch

/-- When a thread updates a row, it has sanction tags of its own for it only if the row is flagged
as sanctioned. -/
def OwnTagsFlagged (C : Config lib) (l : Label lib) : Prop :=
  ∀ i txid, updatedRow l = some (i, txid) → ∀ t, C.running i = some t →
    HasSanctionTag (ownTags t.trace txid) →
      ∀ row ∈ C.world.db.transaction.rows, row.txid = txid → row.sanctioned = true

abbrev AllFlagged (txns : List SharedModel.Transaction) : Prop := ∀ tx ∈ txns, FlagMatches tx

theorem writes_of_sharing {i : Thread} {j : Job} {w : World lib} (h : Sharing i j w) :
    WritesTags AllFlagged ([] : Calls lib) (j.prog lib) := by
  unfold Sharing at h
  split at h
  · refine process_writes (fun r hr => ?_)
    obtain ⟨s, hs⟩ := allBuilt_of_builds h hr
    exact ⟨nodup_values hs, fun tx htx => flagMatches_of_mem_values hs htx⟩
  · exact scanSanctionedUtxos_writes
  · exact retagTransactions_writes
  · exact updateSanctionedAddresses_writes
  · exact h.elim

/-- A row has this id, and the tags agree with its flag. -/
def Agrees (w : World lib) (txid : List UInt8) (tags : List Int) : Prop :=
  ∃ row ∈ w.db.transaction.rows, row.txid = txid ∧ (row.sanctioned = true ↔ HasSanctionTag tags)

/-- Every flag is right, and so are the tags that a thread under way has read. -/
structure Flagged (C : Config lib) : Prop where
  coherent : Tasks.Coherent (system lib .reorganises Sharing) C
  rows : FlagsMatch C.world
  read : ∀ i t, C.running i = some t → ∀ txid tags, latest (tagsRead txid) t.trace = some tags →
    Agrees C.world txid tags

theorem agrees_of_tagsRead {w w' : World lib} {c : Daemon.Call} {r : Daemon.Reply c}
    {txid : List UInt8} {tags : List Int} (hw : FlagsMatch w) (ha : Daemon.answer w c r w')
    (h : tagsRead txid ⟨w, c, r⟩ = some tags) : Agrees w txid tags := by
  unfold tagsRead at h
  split at h
  · rename_i id dbTags he
    cases he
    split_ifs at h with hid
    cases h
    obtain ⟨row, hrow, hrid, rfl⟩ := tags_of_succeeds ha.1
    exact ⟨row, hrow, hrid.trans hid, hw row hrow⟩
  · rename_i t he
    cases he
    obtain ⟨row, hf, rfl⟩ := Option.map_eq_some_iff.mp h
    obtain ⟨hrow, hid⟩ := t.find?_eq_some_iff.mp hf
    have hm : row ∈ w.db.transaction.rows := (transactions_of_succeeds ha.1).mem_iff.mp hrow
    exact ⟨row, hm, hid, hw row hm⟩
  · cases h

/-- No step takes a row away or changes its flag. -/
theorem row_kept (h : RowsStep C l C') {row : SharedModel.Transaction}
    (hrow : row ∈ C.world.db.transaction.rows) : ∃ row' ∈ C'.world.db.transaction.rows,
      row'.txid = row.txid ∧ row'.sanctioned = row.sanctioned := by
  cases h with
  | same _ hrows => exact ⟨row, hrows ▸ hrow, rfl, rfl⟩
  | insert _ _ ht =>
    refine ⟨row, ?_, rfl, rfl⟩
    rw [ht, KeyedTable.Table.rows_insertNew]
    exact List.mem_append_left _ hrow
  | @update i j tr newTags txid k _ _ hrows =>
    refine ⟨setTags newTags txid row, hrows ▸ List.mem_map_of_mem hrow, txid_setTags _ _ _, ?_⟩
    exact sanctioned_setTags _ _ _

theorem Agrees.step (h : RowsStep C l C') {txid : List UInt8} {tags : List Int}
    (ha : Agrees C.world txid tags) : Agrees C'.world txid tags := by
  obtain ⟨row, hrow, hid, hflag⟩ := ha
  obtain ⟨row', hrow', hid', hs⟩ := row_kept h hrow
  exact ⟨row', hrow', hid'.trans hid, hs ▸ hflag⟩

theorem flagged_of_idle (h : Tasks.Idle FlagsMatch C) : Flagged C where
  coherent := Tasks.coherent_of_idle h
  rows := h.1
  read i t ht := by simp [h.2.1 i] at ht

/-- The new rows of a step are built by a thread, or get the tags that it has read and its own. -/
theorem Flagged.rows_step (hf : Flagged C) (hr : RowsStep C l C') (hk : OwnTagsFlagged C l) :
    FlagsMatch C'.world := by
  cases hr with
  | same _ hrows =>
    rw [FlagsMatch, hrows]
    exact hf.rows
  | @insert i j tr txns k _ hi ht =>
    intro row hrow
    rw [ht, KeyedTable.Table.rows_insertNew] at hrow
    obtain hrow | hrow := List.mem_append.mp hrow
    · exact hf.rows row hrow
    · obtain ⟨w, hj⟩ := hf.coherent.admitted i _ hi
      have htxns : AllFlagged txns := hf.coherent.call_spec hi (writes_of_sharing hj)
      exact htxns row (KeyedTable.Table.mem_of_mem_insertNew hrow)
  | @update i j tr newTags txid k hl hi hrows =>
    obtain ⟨tags, hread, hnew⟩ := newTags_of_running (fun _ _ _ => writes_of_sharing) hf.coherent hi
    intro row hrow
    rw [hrows] at hrow
    obtain ⟨old, hold, rfl⟩ := List.mem_map.mp hrow
    by_cases hid : old.txid = txid
    · obtain ⟨row₀, hrow₀, hid₀, hflag⟩ := hf.read i _ hi txid tags hread
      obtain rfl : row₀ = old :=
        C.world.db.transaction.row_unique hrow₀ hold (hid₀.trans hid.symm)
      have hown : HasSanctionTag (ownTags tr txid) → row₀.sanctioned = true :=
        fun ho => hk i txid hl _ hi ho row₀ hold hid
      rw [FlagMatches, sanctioned_setTags, setTags, if_pos hid, hasSanctionTag_union hnew, hflag]
      exact ⟨.inl, fun h => h.elim id (fun ho => hflag.mp (hown ho))⟩
    · rw [setTags, if_neg hid]
      exact hf.rows old hold

theorem Flagged.step (hf : Flagged C) (hk : OwnTagsFlagged C l)
    (h : Tasks.Step (system lib .reorganises Sharing) C l C') : Flagged C' := by
  have hr := rowsStep_of_step Drift.keepsDb_reorganises h
  refine ⟨hf.coherent.step h, hf.rows_step hr hk, fun i t ht txid tags hread => ?_⟩
  obtain ⟨j, rfl, -⟩ | hi | ⟨j, tr, c, k, r, hi, rfl, ha⟩ := Tasks.running_of_step h ht
  · cases hread
  · exact (hf.read i t hi txid tags hread).step hr
  · have hread' : (tagsRead txid ⟨C.world, c, r⟩).or (latest (tagsRead txid) tr) = some tags := by
      rw [← latest_snoc]
      exact hread
    cases hx : tagsRead txid ⟨C.world, c, r⟩ with
    | some tags' =>
      rw [hx] at hread'
      cases hread'
      exact (agrees_of_tagsRead hf.rows ha hx).step hr
    | none =>
      rw [hx] at hread'
      exact (hf.read i _ hi txid tags hread').step hr

/-- A sanction tag of the thread's own that reaches a row without the flag breaks it. -/
theorem Flagged.not_flagsMatch (hf : Flagged C) (hk : ¬ OwnTagsFlagged C l)
    (h : Tasks.Step (system lib .reorganises Sharing) C l C') : ¬ FlagsMatch C'.world := by
  unfold OwnTagsFlagged at hk
  push Not at hk
  obtain ⟨i, txid, hu, t, ht, hown, row, hrow, hid, hflag⟩ := hk
  intro hm
  cases rowsStep_of_step Drift.keepsDb_reorganises h with
  | same hl _ =>
    rw [hl] at hu
    cases hu
  | insert hl _ _ =>
    rw [hl] at hu
    cases hu
  | @update i' j tr newTags txid' k hl hi hrows =>
    rw [hl] at hu
    cases hu
    rw [hi] at ht
    cases ht
    obtain ⟨tags, -, hnew⟩ := newTags_of_running (fun _ _ _ => writes_of_sharing) hf.coherent hi
    have hrow' := hm (setTags newTags txid row) (hrows ▸ List.mem_map_of_mem hrow)
    rw [FlagMatches, sanctioned_setTags, setTags, if_pos hid, hasSanctionTag_union hnew] at hrow'
    exact hflag (hrow'.mpr (.inr hown))

/-- Flags and tags agree in every state exactly when no thread puts a sanction tag of its own on a
row that is not flagged. -/
theorem flagsMatch_iff (ρ : SharingRun lib) :
    (∀ i ≤ ρ.length, FlagsMatch (ρ.state i).world) ↔
      ∀ i < ρ.length, OwnTagsFlagged (ρ.state i) (ρ.label i) :=
  ρ.forall_state_iff (I := Flagged) (P := fun C => FlagsMatch C.world) (C := OwnTagsFlagged)
    (fun _ => flagged_of_idle) (fun _ hf => hf.rows) (fun _ _ _ hf hk h => hf.step hk h)
    (fun _ _ _ hf hk h => hf.not_flagsMatch hk h)

def processing : List (Event Daemon.signature (World sample)) × Except Abort Unit × World sample :=
  ((Job.process .inserted .bitcoin block₁ (feesOf sample block₁) [templateOf chain₀]).prog
    sample).runWith (respond .healthy) ⟨.empty, chain₁⟩

def rawTx : Bitcoin.Transaction := coinbaseTx 102 otherScript

theorem rows_processing : ∃ row, processing.2.2.db.transaction.rows = [row] ∧
    row.txid = (sample.computeTxid rawTx).reversed ∧ row.sanctioned = false :=
  ⟨_, rfl, rfl, rfl⟩

theorem sharing_processing : Sharing .mainLoop
    (.process .inserted .bitcoin block₁ (feesOf sample block₁) [templateOf chain₀])
    (⟨.empty, chain₁⟩ : World sample) := by
  have hone : ∀ tx ∈ transactionsAtHand sample block₁ [templateOf chain₀], tx = rawTx := by
    rintro tx (htx | ⟨t, ht, templateTx, htx, -⟩)
    · exact List.mem_singleton.mp htx
    · obtain rfl := List.mem_singleton.mp ht
      cases htx
  intro tx htx tx' htx' _
  rw [hone tx htx, hone tx' htx']
  exact ⟨rfl, rfl⟩

def listOther (w : World sample) : World sample :=
  { w with db := { w.db with sanctionedAddresses := ⟨[⟨"other"⟩], List.nodup_singleton _⟩ } }

def updating (w : World sample) :
    List (Event Daemon.signature (World sample)) × Except Abort Unit × World sample :=
  (Job.updateSanctionedAddresses.prog sample).runWith
    (respond { Outside.healthy with addressList := ["other"] }) w

/-- What the retag thread makes of the row once the address is listed. -/
def retagged (row : SharedModel.Transaction) : List Int :=
  withOldTags (retagTransaction sample rawTx
    ⟨sample.computeTxid rawTx, rawTx, -1, row.fee.toUInt64⟩ (HashSet.collect ["other"]))
    (row.tags.insertionSort (· ≤ ·))

theorem hasSanctionTag_retagged (row : SharedModel.Transaction) :
    HasSanctionTag (retagged row) := by
  rw [retagged, hasSanctionTag_union (fun _ => mem_withOldTags)]
  have hto : isTxSanctioned sample rawTx HashMap.empty (HashSet.collect ["other"]) = true := by
    decide
  exact .inr ((hasSanctionTag_retagTransaction rfl).mpr hto)

variable {row : SharedModel.Transaction}

/-- The retag thread up to its first update, in a database with one transaction. -/
def readings (w : World sample) : Calls sample :=
  [⟨w, Call.poolGet, Except.ok ()⟩, succeeded w .allTransactions w.db.transaction,
    succeeded w .sanctionedAddresses w.db.sanctionedAddresses,
    ⟨w, Call.getRawTransaction (sample.computeTxid rawTx), Except.ok rawTx⟩]

theorem readings_path {w : World sample} (hw : w.db.transaction.rows = [row])
    (hid : row.txid = (sample.computeTxid rawTx).reversed) (hf : FlagMatches row)
    (hs : row.sanctioned = false) :
    ∃ k, Path (retagTransactions sample) (readings (listOther w))
      (.call (.sql (.updateTransactionTags (retagged row) row.txid)) k) := by
  have hne : retagged row ≠ row.tags.insertionSort (· ≤ ·) := by
    intro h
    have hm := hasSanctionTag_retagged row
    rw [h] at hm
    have ht := hf.mpr (by simpa only [HasSanctionTag, List.mem_insertionSort] using hm)
    rw [hs] at ht
    cases ht
  have hslice : Hash256.fromSlice row.txid.reverse = some (sample.computeTxid rawTx) := by
    rw [hid, Hash256.fromSlice_reversed]
  have hrow : Path (retagRow sample (HashSet.collect ["other"]) row)
      [⟨listOther w, Call.getRawTransaction (sample.computeTxid rawTx), Except.ok rawTx⟩]
      (.call (.sql (.updateTransactionTags (retagged row) row.txid)) (fun _ => .done (.ok ()))) :=
    retagRow_path hslice rfl hne (listOther w)
  have hrows : ∃ k, Path (retagRows sample (HashSet.collect ["other"]) w.db.transaction.rows)
      [⟨listOther w, Call.getRawTransaction (sample.computeTxid rawTx), Except.ok rawTx⟩]
      (.call (.sql (.updateTransactionTags (retagged row) row.txid)) k) := by
    rw [hw]
    exact ⟨_, hrow.bind _⟩
  obtain ⟨k, hk⟩ := hrows
  exact ⟨k, .cons (.cons (.cons hk))⟩

theorem readings_answers (w : World sample) :
    Answers (Daemon.environment Drift.reorganises) w (readings w) w :=
  retagReads_answers Drift.reorganises w rawTx

/-- A thread runs a job while no other one moves. -/
theorem reaches_respond (o : Outside) {i : Thread} {j : Job} {C : Config sample}
    {r : List (Event Daemon.signature (World sample)) × Except Abort Unit × World sample}
    (hi : C.running i = none) (hj : Sharing i j C.world)
    (hw : (j.prog sample).runWith (respond o) C.world = r) :
    ∃ ended, Tasks.Reaches (system sample .reorganises Sharing) (fun _ _ => True) C
      { C with world := r.2.2, ended := ended } := by
  subst hw
  exact Tasks.reaches_of_runWith C (respond_answers o) (fun _ _ _ => trivial) (fun _ => trivial)
    hi hj

/-- Once the address that the transaction pays is listed, the retag thread gives its row the tag
but not the flag. -/
theorem exists_not_flagsMatch {C₀ C : Config sample} (h0 : Tasks.Idle FlagsMatch C₀)
    (hC : Tasks.Reaches (system sample .reorganises Sharing) (fun _ _ => True) C₀ C)
    (hidle : ∀ i, C.running i = none) (hrows : C.world.db.transaction.rows = [row])
    (hid : row.txid = (sample.computeTxid rawTx).reversed) (hs : row.sanctioned = false) :
    ∃ ρ : SharingRun sample, ∃ i ≤ ρ.length, ¬ FlagsMatch (ρ.state i).world := by
  by_contra hall
  push Not at hall
  have hflag : FlagMatches row := by
    obtain ⟨ρ, hlast, -⟩ := Run.exists_last (.drift : Label sample) h0 hC
    have hm : FlagsMatch C.world := hlast ▸ hall ρ ρ.length le_rfl
    exact hm row (hrows ▸ List.mem_singleton_self row)
  obtain ⟨ended, h₁⟩ := reaches_respond { Outside.healthy with addressList := ["other"] }
    (hidle .addressUpdater) (j := .updateSanctionedAddresses) trivial (r := updating C.world) rfl
  let C₁ : Config sample := { C with world := listOther C.world, ended := ended }
  obtain ⟨k, hpath⟩ := readings_path hrows hid hflag hs
  have h₂ := Tasks.reaches_of_start (Y := system sample .reorganises Sharing) (C := C₁)
    (P := fun _ _ => True) (fun _ _ _ => trivial) (i := .retag) (j := .retagTransactions) (hidle _)
    trivial hpath (readings_answers (listOther C.world))
  let t : Tasks.Task Daemon.signature (World sample) Job (Except Abort Unit) :=
    ⟨.retagTransactions, readings (listOther C.world),
      .call (.sql (.updateTransactionTags (retagged row) row.txid)) k⟩
  let C₂ : Config sample := { C₁ with running := Function.update C₁.running .retag (some t) }
  have hr : C₂.running .retag = some t := Function.update_self Thread.retag _ C₁.running
  let w' : World sample := { listOther C.world with db := { (listOther C.world).db with
    transaction := C.world.db.transaction.update (setTags (retagged row) row.txid)
      (txid_setTags (retagged row) row.txid) } }
  have hanswer : (system sample .reorganises Sharing).env.answer C₂.world
      (.sql (.updateTransactionTags (retagged row) row.txid)) (Except.ok () : Except DbError Unit)
      w' := ⟨⟨7, (), rfl, rfl⟩, rfl⟩
  obtain ⟨ρ, i, hi, -, hs'⟩ :=
    Run.exists_step h0 ((hC.trans h₁).trans h₂) (Tasks.Step.call hr hanswer)
  have hm : FlagsMatch w' := by
    have hm' := hall ρ (i + 1) hi
    rwa [hs'] at hm'
  have hrow : setTags (retagged row) row.txid row ∈ w'.db.transaction.rows :=
    List.mem_map_of_mem (hrows ▸ List.mem_singleton_self row)
  have htags : (setTags (retagged row) row.txid row).tags = retagged row := by simp [setTags]
  have hflag' := hm _ hrow
  rw [FlagMatches, htags, sanctioned_setTags, hs] at hflag'
  exact Bool.false_ne_true (hflag'.mpr (hasSanctionTag_retagged row))

/-- A block is processed before the address that its coinbase pays is listed. -/
theorem flagsMatch_fails :
    ¬ ∀ ρ : SharingRun sample, ∀ i ≤ ρ.length, FlagsMatch (ρ.state i).world := by
  let C₀ : Config sample := ⟨⟨.empty, chain₁⟩, fun _ => none, []⟩
  have h0 : Tasks.Idle FlagsMatch C₀ := ⟨fun row hrow => (nomatch hrow), fun _ => rfl, rfl⟩
  obtain ⟨ended, h₁⟩ := reaches_respond .healthy (C := C₀) (r := processing) rfl
    sharing_processing rfl
  obtain ⟨row, hrows, hid, hs⟩ := rows_processing
  obtain ⟨ρ, i, hi, hn⟩ := exists_not_flagsMatch h0 h₁ (fun _ => rfl) hrows hid hs
  exact fun h => hn (h ρ i hi)

end MiningpoolObserver.SanctionFlag
