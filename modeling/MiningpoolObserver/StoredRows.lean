import MiningpoolObserver.NoPanic
import MiningpoolObserver.PageSafety
import MiningpoolObserver.ProcessRecords
import MiningpoolObserver.SanctionFlag

namespace MiningpoolObserver.StoredRows

open MiningpoolObserver.Library MiningpoolObserver.Library.CallTree
open MiningpoolObserver.Library.HashCollections MiningpoolObserver.Library.KeyedTable
open MiningpoolObserver.Library.KeyedTable.Table MiningpoolObserver.Library.Runs
open MiningpoolObserver.Bitcoin MiningpoolObserver.DaemonModel MiningpoolObserver.SharedModel
open MiningpoolObserver.Tags MiningpoolObserver.Db MiningpoolObserver.Daemon
open MiningpoolObserver.Process MiningpoolObserver.ProcessSpec MiningpoolObserver.BuiltRecords
open MiningpoolObserver.Threads MiningpoolObserver.TagWrites MiningpoolObserver.NoPanic
open MiningpoolObserver.Processing.Sanctions MiningpoolObserver.Processing.Transactions
open MiningpoolObserver.Processing.Merging MiningpoolObserver.Processing.Rounds
open MiningpoolObserver.PageSafety MiningpoolObserver.SanctionCounts

variable {lib : Crates} {tr : Calls lib}

abbrev TagsKnown (tags : List Int) : Prop := ∀ tag ∈ tags, (TxTag.tryFrom tag).isSome

/-- A transaction row that the retag thread and the pages can take. -/
structure Readable (tx : SharedModel.Transaction) : Prop where
  txid : tx.txid.length = 32
  tags : TagsKnown tx.tags

section Building

variable {rs : RandomState} {utxoMap : UtxoMap} {addresses : HashSet String}

theorem tagsKnown_getTransactionTags {txInfo : TxInfo} {rawTxInfo : RawTxInfo}
    {isConflictingTx : Bool} : TagsKnown
      (getTransactionTags lib txInfo rawTxInfo isConflictingTx utxoMap addresses) := by
  intro tag htag
  obtain ⟨c, -, rfl⟩ := List.mem_map.mp htag
  simp

theorem tagsKnown_retagTransaction {tx : Bitcoin.Transaction} {txInfo : TxInfo} :
    TagsKnown (retagTransaction lib tx txInfo addresses) := by
  unfold retagTransaction
  cases lib.rawTxInfo tx with
  | none => exact fun tag htag => absurd htag List.not_mem_nil
  | some rawTxInfo => exact tagsKnown_getTransactionTags

theorem length_reversed (h : Hash256) : h.reversed.length = 32 := by
  simp [Hash256.reversed, h.size]

theorem readable_of_mem_built {tries : Tries} {t : SharedModel.Transaction}
    (h : t ∈ built lib rs utxoMap addresses tries) : Readable t := by
  obtain ⟨p, -, hb⟩ := List.mem_filterMap.mp h
  obtain ⟨rawTxInfo, -, rfl⟩ := Option.map_eq_some_iff.mp hb
  exact ⟨length_reversed _, tagsKnown_getTransactionTags⟩

/-- Entries of the map have their ids as keys, and can be read. -/
abbrev AllReadable (m : TransactionMap) : Prop :=
  m.All (fun key t => t.txid = key ∧ Readable t)

theorem allReadable_addToTransactions {m : TransactionMap} (hm : AllReadable m)
    {t : SharedModel.Transaction} (ht : Readable t) : AllReadable (addToTransactions t m) := by
  unfold addToTransactions
  cases m.get? t.txid with
  | none => exact hm.insert ⟨rfl, ht⟩
  | some existingTx =>
    dsimp only
    split_ifs
    · refine hm.update (fun old ho => ⟨ho.1, ho.2.txid, fun tag htag => ?_⟩)
      obtain htag | htag := mem_bothTags.mp htag
      · exact ho.2.tags tag htag
      · exact ht.tags tag htag
    · exact hm

theorem allReadable_addEach {ts : List SharedModel.Transaction} (ht : ∀ t ∈ ts, Readable t) :
    AllReadable (addEach ts HashMap.empty) :=
  List.foldlRecOn (motive := AllReadable) ts _ HashMap.all_empty
    (fun _ hm t hmem => allReadable_addToTransactions hm (ht t hmem))

variable {block : Bitcoin.Block} {fees : GetBlockTxFeesResult} {lt : List GetBlockTemplateResult}
variable {r : Records}

abbrev EachReadable (txns : List SharedModel.Transaction) : Prop := ∀ tx ∈ txns, Readable tx

theorem readable_of_builds (h : Builds lib rs block fees lt r) :
    ((r.transactions.values rs).map (fun tx => tx.txid)).Nodup ∧
      EachReadable (r.transactions.values rs) := by
  obtain ⟨c, s, blockId, conflicting, ages, -, hconf, hrows⟩ := h
  obtain ⟨k, hk⟩ := made_of_buildRows hconf hrows
  have hall : AllReadable r.transactions := by
    rw [hk.transactions]
    exact allReadable_addEach (fun t ht => readable_of_mem_built ht)
  refine ⟨nodup_txids_values (fun e he => (hall e he).1), fun tx htx => ?_⟩
  obtain ⟨key, he⟩ := HashMap.mem_values.mp htx
  exact (hall _ he).2

end Building

section Threads

variable {txid : List UInt8} {tags : List Int}

/-- Every transaction in the table can be read. -/
def RowsReadable (w : World lib) : Prop := ∀ tx ∈ w.db.transaction.rows, Readable tx

theorem tagsKnown_of_tagsRead {w w' : World lib} {c : Daemon.Call} {r : Daemon.Reply c}
    (hw : RowsReadable w) (ha : Daemon.answer w c r w')
    (h : tagsRead txid ⟨w, c, r⟩ = some tags) : TagsKnown tags := by
  unfold tagsRead at h
  split at h
  · rename_i id dbTags he
    cases he
    split_ifs at h
    cases h
    obtain ⟨row, hrow, -, rfl⟩ := tags_of_succeeds ha.1
    exact (hw row hrow).tags
  · rename_i t he
    cases he
    obtain ⟨row, hf, rfl⟩ := Option.map_eq_some_iff.mp h
    obtain ⟨hrow, -⟩ := t.find?_eq_some_iff.mp hf
    exact (hw row ((transactions_of_succeeds ha.1).mem_iff.mp hrow)).tags
  · cases h

/-- The rows that the retag thread works through can be read. -/
def SnapshotReadable (tr : Calls lib) : Prop :=
  ∀ w t, succeeded w .allTransactions t ∈ tr → ∀ row ∈ t.rows, Readable row

theorem exists_of_latest {β : Type} {f : Event Daemon.signature (World lib) → Option β} {b : β}
    (h : latest f tr = some b) : ∃ e ∈ tr, f e = some b := by
  obtain ⟨e, he, hb⟩ := List.exists_of_findSome?_eq_some h
  exact ⟨e, List.mem_reverse.mp he, hb⟩

/-- The tags that a thread has of its own are known, when those that it inserts are. -/
theorem tagsKnown_ownTags
    (hbatch : ∀ txns, latest batch tr = some txns → EachReadable txns) :
    TagsKnown (ownTags tr txid) := by
  unfold ownTags
  cases hb : latest batch tr with
  | some txns =>
    cases hf : txns.find? (fun tx => tx.txid = txid) with
    | none =>
      dsimp only
      rw [hf, Option.map_none, Option.getD_none]
      exact fun tag htag => absurd htag List.not_mem_nil
    | some tx =>
      dsimp only
      rw [hf, Option.map_some, Option.getD_some]
      exact (hbatch txns hb tx (List.mem_of_find?_eq_some hf)).tags
  | none =>
    dsimp only
    split
    · exact tagsKnown_retagTransaction
    · exact fun tag htag => absurd htag List.not_mem_nil

/-- The work that main gives to each thread, with blocks and templates that process can take. -/
def Fit (lib : Crates) (i : Thread) (j : Job) (_ : World lib) : Prop :=
  Duty i j ∧ match j with
    | .process _ _ block fees lt => WellFormed lib block fees lt
    | _ => True

variable {i : Thread} {j : Job} {w : World lib}

theorem writesTags_of_writes {P : List SharedModel.Transaction → Prop} {α : Type}
    {ts : List TableName} {p : Prog Daemon.signature α} (hp : Footprint.Writes ts p)
    (hts : .transaction ∉ ts) : WritesTags P tr p := by
  refine (hp.always (Extends.refl tr)).mono (fun tr' c h => ?_) (fun _ _ _ => trivial)
  have hw : Footprint.Within ts c := h.2
  cases c with
  | sql st =>
    cases st with
    | updateTransactionTags _ _ | insertTransactions _ => exact absurd (hw _ rfl) hts
    | _ => trivial
  | _ => trivial

theorem writes_of_duty (h : Duty i j) : WritesTags EachReadable ([] : Calls lib) (j.prog lib) := by
  unfold Duty at h
  split at h
  · exact process_writes (fun r hr => readable_of_builds hr)
  · exact scanSanctionedUtxos_writes
  · exact retagTransactions_writes
  · exact updateSanctionedAddresses_writes
  · exact writesTags_of_writes Footprint.retryUnknownPoolIdentification_writes (by simp)
  · exact h.elim

/-- A batch that a job has tried to insert is one that it may insert. -/
theorem readable_of_batch {D : Drift lib} {allowed : Thread → Job → World lib → Prop}
    {C : Config lib} (hj : ∀ i j w, allowed i j w → Duty i j)
    (hc : Tasks.Coherent (system lib D allowed) C) {rest : Routine Unit}
    (hi : C.running i = some ⟨j, tr, rest⟩) {txns : List SharedModel.Transaction}
    (hb : latest batch tr = some txns) : EachReadable txns := by
  obtain ⟨e, he, hbatch⟩ := exists_of_latest hb
  obtain ⟨tr₁, tr₂, rfl⟩ := List.append_of_mem he
  obtain ⟨w, hw⟩ := hc.admitted i _ hi
  have hissued : Writes lib EachReadable ([] ++ tr₁) e.call :=
    Prog.Always.issued (writes_of_duty (hj i j w hw)) (hc.running i _ hi)
  unfold batch at hbatch
  split at hbatch
  · cases hbatch
    exact hissued
  · cases hbatch

/-- Stored transactions can be read, and so could those that the threads have read. -/
structure Kept (D : Drift lib) (allowed : Thread → Job → World lib → Prop) (C : Config lib) :
    Prop where
  coherent : Tasks.Coherent (system lib D allowed) C
  rows : RowsReadable C.world
  answered : Tasks.Answered (system lib D allowed) (fun v _ => RowsReadable v) C

variable {D : Drift lib} {allowed : Thread → Job → World lib → Prop} {C C' : Config lib}
variable {l : Label lib}

theorem Kept.tagsKnown_of_latest (h : Kept D allowed C) {rest : Routine Unit}
    (hi : C.running i = some ⟨j, tr, rest⟩) (hr : latest (tagsRead txid) tr = some tags) :
    TagsKnown tags := by
  obtain ⟨e, he, hread⟩ := exists_of_latest hr
  obtain ⟨hrows, w', ha⟩ := h.answered i _ hi e he
  exact tagsKnown_of_tagsRead hrows ha hread

/-- A new row is built by a thread, or has the tags that the thread has read and its own. -/
theorem Kept.rows_step (h : Kept D allowed C) (hj : ∀ i j w, allowed i j w → Duty i j)
    (hr : RowsStep C l C') : RowsReadable C'.world := by
  cases hr with
  | same _ hrows =>
    rw [RowsReadable, hrows]
    exact h.rows
  | @insert i j tr txns k _ hi ht =>
    intro row hrow
    rw [ht, rows_insertNew] at hrow
    obtain hrow | hrow := List.mem_append.mp hrow
    · exact h.rows row hrow
    · obtain ⟨w, hw⟩ := h.coherent.admitted i _ hi
      have htxns : EachReadable txns := h.coherent.call_spec hi (writes_of_duty (hj i j w hw))
      exact htxns row (mem_of_mem_insertNew hrow)
  | @update i j tr newTags txid k _ hi hrows =>
    obtain ⟨tags, hread, hnew⟩ := newTags_of_running
      (fun i j w hw => writes_of_duty (hj i j w hw)) h.coherent hi
    intro row hrow
    rw [hrows] at hrow
    obtain ⟨old, hold, rfl⟩ := List.mem_map.mp hrow
    refine ⟨(txid_setTags newTags txid old).symm ▸ (h.rows old hold).txid, ?_⟩
    by_cases hid : old.txid = txid
    · rw [setTags, if_pos hid]
      intro tag htag
      obtain htag | htag := (hnew tag).mp htag
      · exact h.tagsKnown_of_latest hi hread tag htag
      · exact tagsKnown_ownTags (fun _ => readable_of_batch hj h.coherent hi) tag htag
    · rw [setTags, if_neg hid]
      exact (h.rows old hold).tags

theorem Kept.step (h : Kept D allowed C) (hD : D.KeepsDb)
    (hj : ∀ i j w, allowed i j w → Duty i j) (hs : Tasks.Step (system lib D allowed) C l C') :
    Kept D allowed C' where
  coherent := h.coherent.step hs
  rows := h.rows_step hj (rowsStep_of_step hD hs)
  answered := h.answered.step (fun _ _ _ hv _ => hv) hs h.rows

theorem kept_of_run {P : World lib → Prop} (hD : D.KeepsDb)
    (hj : ∀ i j w, allowed i j w → Duty i j) (ρ : ThreadRun lib D allowed P)
    (hP : ∀ w, P w → RowsReadable w) : ∀ i ≤ ρ.length, Kept D allowed (ρ.state i) := by
  refine ρ.invariant (I := Kept D allowed) (fun C hC => ?_)
    (fun C l C' hC hs => hC.step hD hj hs)
  refine ⟨Tasks.coherent_of_idle hC, hP _ hC.1, fun i task hi => ?_⟩
  rw [hC.2.1 i] at hi
  cases hi

end Threads

section Blocks

/-- A block row that the pages can show. -/
structure BlockReadable (b : NewBlock) : Prop where
  hash : b.hash.length = 32
  prevHash : b.prevHash.length = 32
  tags : ∀ tag ∈ b.tags, (BlockTag.tryFrom tag).isSome

theorem blockTags_known (block : Bitcoin.Block) :
    ∀ tag ∈ Processing.Builders.blockTags lib block, (BlockTag.tryFrom tag).isSome := by
  intro tag htag
  obtain htag | htag := List.mem_append.mp htag <;> split_ifs at htag
  · rw [List.mem_singleton.mp htag, BlockTag.tryFrom_code]
    rfl
  · exact absurd htag List.not_mem_nil
  · rw [List.mem_singleton.mp htag, BlockTag.tryFrom_code]
    rfl
  · exact absurd htag List.not_mem_nil

theorem blockReadable_buildBlock {block : Bitcoin.Block} {template : GetBlockTemplateResult}
    {m : HashMap Txid TxInfo} {n : Processing.Builders.BlockNumbers} {utxoMap : UtxoMap}
    {addresses : HashSet String} {pools : List Pool} {network : Network} {now : NaiveDateTime}
    {b : NewBlock} (h : Processing.Builders.buildBlock lib block template m n utxoMap addresses
      pools network now = .ok b) : BlockReadable b := by
  unfold Processing.Builders.buildBlock at h
  simp only [bind, Except.bind, pure, Except.pure] at h
  cases hb : lib.timestamp block.header.time.toUInt64.toInt64 with
  | none => rw [hb] at h; cases h
  | some blockTime =>
    cases hc : block.txdata with
    | nil => rw [hb, hc] at h; cases h
    | cons coinbase rest =>
      cases ht : lib.timestamp template.currentTime.toInt64 with
      | none => rw [hb, hc, ht] at h; cases h
      | some templateTime =>
        rw [hb, hc, ht] at h
        cases h
        exact ⟨length_reversed _, length_reversed _, blockTags_known block⟩

/-- A block row that a job inserts can be shown. -/
def InsertsReadable : Daemon.Call → Prop
  | .sql (.insertBlock b) => BlockReadable b
  | _ => True

theorem insertsReadable_of_within {ts : List TableName} (hts : .block ∉ ts) {c : Daemon.Call}
    (h : Footprint.Within ts c) : InsertsReadable c := by
  cases c with
  | sql st =>
    cases st with
    | insertBlock b => exact absurd (h _ rfl) hts
    | _ => trivial
  | _ => trivial

theorem reidentifyBlocks_inserts {network : Network} {blocks : List SharedModel.Block} :
    Prog.Only InsertsReadable (reidentifyBlocks lib network blocks) := by
  induction blocks with
  | nil => trivial
  | cons block blocks ih =>
    rw [reidentifyBlocks]
    cases Hash256.fromSlice block.hash.reverse with
    | none => exact ih
    | some hash =>
      refine ⟨trivial, fun r => ?_⟩
      cases r with
      | error e => trivial
      | ok bitcoinBlock =>
        refine Prog.Only.andThen ⟨trivial, fun pools => ?_⟩ (fun _ => ih)
        dsimp only
        cases lib.identifyPool bitcoinBlock network pools with
        | none => trivial
        | some result => exact ⟨trivial, fun _ => trivial⟩

theorem retry_inserts {network : Network} :
    Prog.Only InsertsReadable (retryUnknownPoolIdentification lib network) := by
  refine ⟨trivial, fun r => ?_⟩
  cases r with
  | error e => trivial
  | ok u =>
    refine ⟨trivial, fun r => ?_⟩
    cases r with
    | error e => trivial
    | ok blocks => exact reidentifyBlocks_inserts

theorem job_inserts (j : Job) : Prog.Always (fun _ c => InsertsReadable c) (fun _ _ => True)
    ([] : Calls lib) (j.prog lib) := by
  by_cases hp : ∃ rs network block fees lt, j = .process rs network block fees lt
  · obtain ⟨rs, network, block, fees, lt, rfl⟩ := hp
    refine ProcessRecords.process_issues.mono (fun tr c hc => ?_) (fun _ _ h => h)
    cases c with
    | sql st =>
      cases st with
      | insertBlock b =>
        obtain ⟨-, c, s, -, n, w, pools, now, -, -, hb⟩ := hc
        exact blockReadable_buildBlock hb
      | _ => trivial
    | _ => trivial
  · have hw : Prog.Only InsertsReadable (j.prog lib) := by
      by_cases hr : ∃ network, j = .retryUnknownPoolIdentification network
      · obtain ⟨network, rfl⟩ := hr
        exact retry_inserts
      · have h : Footprint.Writes _ (j.prog lib) := Footprint.prog_writes
          (fun rs network block fees lt h => hp ⟨rs, network, block, fees, lt, h⟩)
          (fun network h => hr ⟨network, h⟩)
        exact h.mono (fun _ => insertsReadable_of_within (by simp))
    exact (hw.always (Extends.refl [])).mono (fun _ _ h => h.2) (fun _ _ _ => trivial)

def BlocksReadable (w : World lib) : Prop :=
  ∀ b ∈ w.db.block.rows, BlockReadable b.toNewBlock

variable {D : Drift lib} {allowed : Thread → Job → World lib → Prop} {C C' : Config lib}
variable {l : Label lib}

theorem blocksReadable_step (hD : D.KeepsDb) (hc : Tasks.Coherent (system lib D allowed) C)
    (h : BlocksReadable C.world) (hs : Tasks.Step (system lib D allowed) C l C') :
    BlocksReadable C'.world := by
  cases dbStep_of_step hD hs with
  | same _ hdb =>
    rw [BlocksReadable, hdb]
    exact h
  | exec hi hx =>
    intro b hb
    cases blockChange_of_succeeds hx with
    | none _ hblock => exact h b (hblock ▸ hb)
    | insert _ hrows =>
      rw [hrows] at hb
      obtain hb | hb := List.mem_append.mp hb
      · exact h b hb
      · have hins : InsertsReadable (.sql (.insertBlock _)) := hc.call_spec hi (job_inserts _)
        rw [List.mem_singleton.mp hb]
        exact hins
    | rename hrows =>
      rw [hrows] at hb
      obtain ⟨b₀, hb₀, rfl⟩ := List.mem_map.mp hb
      have hold := h b₀ hb₀
      unfold setPoolName
      split_ifs <;> exact ⟨hold.hash, hold.prevHash, hold.tags⟩

end Blocks

section Panics

variable {r : Except Abort Unit} {addresses : HashSet String} {network : Network}

theorem returns_retagRow {row : SharedModel.Transaction} (h : Readable row) :
    Prog.Returns Sane (retagRow lib addresses row) := by
  unfold retagRow
  have hid : Hash256.fromSlice row.txid.reverse =
      some ⟨row.txid.reverse, by rw [List.length_reverse, h.txid]⟩ := by
    rw [Hash256.fromSlice, dif_pos]
  rw [hid]
  intro r
  cases r with
  | error e => exact sane_ok ()
  | ok tx =>
    dsimp only
    split_ifs
    · exact fun _ => sane_ok ()
    · exact sane_ok ()

theorem returns_retagRows {rows : List SharedModel.Transaction} (h : EachReadable rows) :
    Prog.Returns Sane (retagRows lib addresses rows) := by
  induction rows with
  | nil => exact sane_ok ()
  | cons row rows ih =>
    exact returns_andThen (returns_retagRow (h row List.mem_cons_self))
      (fun _ => ih (fun row' hrow => h row' (List.mem_cons_of_mem row hrow)))

theorem sane_retagTransactions (hs : SnapshotReadable tr)
    (hp : Path (retagTransactions lib) tr (.done r)) : Sane r := by
  obtain ⟨w₁, r₁, tr₁, rfl, h₁⟩ := Path.call_done_iff.mp hp
  cases r₁ with
  | error e =>
    obtain ⟨-, hr⟩ := Path.done_iff.mp h₁
    cases hr
    exact sane_ok ()
  | ok u =>
    obtain ⟨w₂, r₂, tr₂, rfl, h₂⟩ := Path.call_done_iff.mp h₁
    cases r₂ with
    | error e =>
      obtain ⟨-, hr⟩ := Path.done_iff.mp h₂
      cases hr
      exact sane_ok ()
    | ok t =>
      have ht : EachReadable t.rows :=
        hs w₂ t (List.mem_cons_of_mem _ List.mem_cons_self)
      obtain ⟨w₃, r₃, tr₃, rfl, h₃⟩ := Path.call_done_iff.mp h₂
      cases r₃ with
      | error e =>
        obtain ⟨-, hr⟩ := Path.done_iff.mp h₃
        cases hr
        exact sane_ok ()
      | ok a => exact (returns_retagRows ht).path h₃

theorem returns_scanSanctionedUtxos : Prog.Returns Sane (scanSanctionedUtxos lib) := by
  intro r
  cases r with
  | error e => exact sane_ok ()
  | ok u =>
    intro r
    cases r with
    | error e => exact sane_ok ()
    | ok t =>
      intro r
      cases r with
      | error e => exact sane_ok ()
      | ok result =>
        intro duration now r
        cases r with
        | error e => exact sane_ok ()
        | ok u => exact fun _ => sane_ok ()

theorem returns_updateSanctionedAddresses :
    Prog.Returns Sane (updateSanctionedAddresses lib) := by
  intro r
  cases r with
  | error e => exact sane_ok ()
  | ok response =>
    dsimp only
    split_ifs
    · exact sane_ok ()
    · cases response.lines with
      | none => exact sane_ok ()
      | some lines =>
        intro r
        cases r with
        | error e => exact sane_ok ()
        | ok u => exact fun _ => sane_ok ()

theorem returns_reidentifyBlocks {blocks : List SharedModel.Block} :
    Prog.Returns Sane (reidentifyBlocks lib network blocks) := by
  induction blocks with
  | nil => exact sane_ok ()
  | cons block blocks ih =>
    rw [reidentifyBlocks]
    cases Hash256.fromSlice block.hash.reverse with
    | none => exact ih
    | some hash =>
      intro r
      cases r with
      | error e => exact sane_ok ()
      | ok bitcoinBlock =>
        refine returns_andThen (fun pools => ?_) (fun _ => ih)
        dsimp only
        cases lib.identifyPool bitcoinBlock network pools with
        | none => exact sane_ok ()
        | some result => exact fun _ => sane_ok ()

theorem returns_retryUnknownPoolIdentification :
    Prog.Returns Sane (retryUnknownPoolIdentification lib network) := by
  intro r
  cases r with
  | error e => exact sane_ok ()
  | ok u =>
    intro r
    cases r with
    | error e => exact sane_ok ()
    | ok blocks => exact returns_reidentifyBlocks

/-- A job that has come to its end has not panicked, when what it has read could be read. -/
theorem sane_of_path {i : Thread} {j : Job} {w : World lib} (h : Fit lib i j w)
    (hs : SnapshotReadable tr) (hp : Path (j.prog lib) tr (.done r)) : Sane r := by
  obtain ⟨hduty, hfit⟩ := h
  unfold Duty at hduty
  split at hduty
  · exact (returns_process hfit).path hp
  · exact returns_scanSanctionedUtxos.path hp
  · exact sane_retagTransactions hs hp
  · exact returns_updateSanctionedAddresses.path hp
  · exact returns_retryUnknownPoolIdentification.path hp
  · exact hduty.elim

variable {D : Drift lib} {allowed : Thread → Job → World lib → Prop} {C : Config lib}

theorem Kept.snapshotReadable (h : Kept D allowed C) {i : Thread} {j : Job} {rest : Routine Unit}
    (hi : C.running i = some ⟨j, tr, rest⟩) : SnapshotReadable tr := by
  intro w t ht row hrow
  obtain ⟨hrows, w', ha⟩ := h.answered i _ hi _ ht
  have hsucc : Statement.allTransactions.Succeeds w.db t w'.db := ha.1
  exact hrows row ((transactions_of_succeeds hsucc).mem_iff.mp hrow)

/-- A world whose transactions and blocks can be read. -/
structure Legible (w : World lib) : Prop where
  transactions : RowsReadable w
  blocks : BlocksReadable w

/-- Whatever calls fail, and however the five threads interleave, rows can be read. -/
theorem legible_of_run {P : World lib → Prop} (ρ : ThreadRun lib .reorganises (Fit lib) P)
    (hP : ∀ w, P w → Legible w) : ∀ i ≤ ρ.length, Legible (ρ.state i).world := by
  have hkept := kept_of_run Drift.keepsDb_reorganises (fun _ _ _ h => h.1) ρ
    (fun w hw => (hP w hw).transactions)
  have hblocks : ∀ i ≤ ρ.length, Tasks.Coherent (system lib .reorganises (Fit lib)) (ρ.state i) ∧
      BlocksReadable (ρ.state i).world := by
    refine ρ.invariant (I := fun C => Tasks.Coherent (system lib .reorganises (Fit lib)) C ∧
      BlocksReadable C.world) (fun C hC => ?_) (fun C l C' hC hs => ?_)
    · exact ⟨Tasks.coherent_of_idle hC, (hP _ hC.1).blocks⟩
    · exact ⟨hC.1.step hs, blocksReadable_step Drift.keepsDb_reorganises hC.1 hC.2 hs⟩
  exact fun i hi => ⟨(hkept i hi).rows, (hblocks i hi).2⟩

/-- No job of any thread ends in a panic, and all rows can be read. -/
structure Unharmed (ρ : ThreadRun lib D (Fit lib) Legible) : Prop where
  ended : ∀ i ≤ ρ.length, ∀ e ∈ (ρ.state i).ended, Sane e.result
  legible : ∀ i ≤ ρ.length, Legible (ρ.state i).world

theorem threads_unharmed (ρ : ThreadRun lib .reorganises (Fit lib) Legible) : Unharmed ρ := by
  have hkept := kept_of_run Drift.keepsDb_reorganises (fun _ _ _ h => h.1) ρ
    (fun w hw => hw.transactions)
  refine ⟨fun i => ?_, legible_of_run ρ (fun _ h => h)⟩
  induction i with
  | zero =>
    intro _ e he
    rw [ρ.starts.2.2] at he
    cases he
  | succ i ih =>
    intro hi e he
    have hi' : i < ρ.length := Nat.lt_of_succ_le hi
    obtain he | ⟨d, -, hd, -⟩ := Tasks.ended_of_step (ρ.steps i hi') he
    · exact ih hi'.le e he
    · have hk := hkept i hi'.le
      obtain ⟨w, hw⟩ := hk.coherent.admitted d _ hd
      exact sane_of_path (w := w) hw (hk.snapshotReadable hd) (hk.coherent.running d _ hd)

end Panics

section Samples

theorem legible_overlapWorld : Legible overlapWorld :=
  ⟨fun _ htx => absurd htx List.not_mem_nil, fun _ hb => absurd hb List.not_mem_nil⟩

theorem threads_unharmed_overlap : ∃ ρ : ThreadRun decoding .reorganises (Fit decoding) Legible,
    ρ.last.world.db.transaction.rows.length = 3 ∧ Unharmed ρ := by
  obtain ⟨ρ, hρ⟩ : ∃ ρ : ThreadRun decoding .reorganises (Fit decoding) Legible, ρ.last.world = _ :=
    exists_jobRun (j := overlapJob) legible_overlapWorld ⟨trivial, wellFormed_overlap⟩ .healthy
  refine ⟨ρ, ?_, threads_unharmed ρ⟩
  rw [hρ]
  decide +kernel

end Samples

end MiningpoolObserver.StoredRows
