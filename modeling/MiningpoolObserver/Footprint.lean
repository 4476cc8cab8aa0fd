import MiningpoolObserver.Threads

namespace MiningpoolObserver.Footprint

open MiningpoolObserver.Library.CallTree MiningpoolObserver.Library.HashCollections
open MiningpoolObserver.Bitcoin MiningpoolObserver.DaemonModel MiningpoolObserver.SharedModel
open MiningpoolObserver.Db MiningpoolObserver.Daemon MiningpoolObserver.Process
open MiningpoolObserver.Threads

variable {α β : Type} {ts : List TableName}

/-- The statement writes to none but these tables. -/
def Within (ts : List TableName) : Daemon.Call → Prop
  | .sql s => ∀ t, s.target = some t → t ∈ ts
  | _ => True

theorem Within.mono {ts' : List TableName} (h : ts ⊆ ts') {c : Daemon.Call} (hc : Within ts c) :
    Within ts' c := by
  cases c with
  | sql s => exact fun t ht => h (hc t ht)
  | _ => trivial

theorem within_of_reads {s : Statement} (h : s.target = none) : Within ts (.sql s) := by
  intro t ht
  rw [h] at ht
  cases ht

theorem within_of_target {s : Statement} {t : TableName} (h : s.target = some t) :
    Within [t] (.sql s) := by
  intro t' ht
  rw [h] at ht
  cases ht
  exact List.mem_singleton_self t

/-- Whatever the replies, the program writes to none but these tables. -/
abbrev Writes (ts : List TableName) (p : Prog Daemon.signature α) : Prop := Prog.Only (Within ts) p

theorem writes_orReturn {s : Statement} (h : Within ts (.sql s)) : Writes ts (orReturn s) := by
  refine ⟨h, fun r => ?_⟩
  cases r <;> trivial

theorem writes_orPanic {x : Except Panic α} : Writes ts (orPanic x) := by
  cases x <;> trivial

theorem getConnection_writes : Writes ts getConnection := by
  refine ⟨trivial, fun r => ?_⟩
  cases r with
  | ok u => trivial
  | error e =>
    refine ⟨trivial, fun r => ?_⟩
    cases r <;> trivial

theorem loadSanctions_writes : Writes ts loadSanctions :=
  ⟨within_of_reads rfl, fun _ => ⟨within_of_reads rfl, fun _ => trivial⟩⟩

theorem mempoolAges_writes {now : Int64} (txids : List Txid) (ages : HashMap Txid Int32) :
    Writes ts (mempoolAges now txids ages) := by
  induction txids generalizing ages with
  | nil => trivial
  | cons txid txids ih =>
    refine ⟨trivial, fun r => ?_⟩
    cases r <;> exact ih _

theorem mempoolAgeSeconds_writes {rs : RandomState} {txids : HashSet Txid} :
    Writes ts (mempoolAgeSeconds rs txids) :=
  ⟨trivial, fun _ => mempoolAges_writes _ _⟩

theorem mergeTags_writes (inserted : HashSet (List UInt8)) (txns : List SharedModel.Transaction) :
    Writes [.transaction] (mergeTags inserted txns) := by
  induction txns with
  | nil => trivial
  | cons tx txns ih =>
    rw [mergeTags]
    by_cases hi : tx.txid ∈ inserted
    · rw [if_pos hi]
      exact ih
    · rw [if_neg hi]
      refine ⟨within_of_reads rfl, fun r => ?_⟩
      cases r with
      | error e => trivial
      | ok dbTxTags =>
        change Writes _ ((mergeInto tx dbTxTags).andThen (fun _ => mergeTags inserted txns))
        refine Prog.Only.andThen ?_ (fun _ => ih)
        unfold mergeInto
        split_ifs
        · exact ⟨within_of_target rfl, fun _ => trivial⟩
        · trivial

theorem insertTransactions_writes (txns : List SharedModel.Transaction) :
    Writes [.transaction] (Process.insertTransactions txns) := by
  refine Prog.Only.andThen ⟨within_of_target rfl, fun _ => trivial⟩ (fun insertedTxids => ?_)
  dsimp only
  split_ifs
  · exact mergeTags_writes _ _
  · trivial

section Threads

variable {lib : Crates}

theorem recordBlock_writes {network : Network} {block : Bitcoin.Block}
    {fees : GetBlockTxFeesResult} {c : Comparison} {s : Sanctions} :
    Writes [.block] (recordBlock lib network block fees c s) := by
  refine Prog.Only.andThen writes_orPanic
    (fun n => ⟨trivial, fun pools => ⟨trivial, fun now => ?_⟩⟩)
  exact Prog.Only.andThen writes_orPanic (fun b => writes_orReturn (within_of_target rfl))

theorem recordNewUtxos_writes (utxos : List SanctionedUtxo) :
    Writes [.sanctionedUtxo] (recordNewUtxos utxos) := by
  unfold recordNewUtxos
  split_ifs
  · trivial
  · exact writes_orReturn (within_of_target rfl)

theorem scanSanctionedUtxos_writes :
    Writes [.sanctionedUtxoScanInfo, .sanctionedUtxo] (scanSanctionedUtxos lib) := by
  refine ⟨trivial, fun r => ?_⟩
  cases r with
  | error e => trivial
  | ok u =>
    refine ⟨within_of_reads rfl, fun r => ?_⟩
    cases r with
    | error e => trivial
    | ok t =>
      refine ⟨trivial, fun r => ?_⟩
      cases r with
      | error e => trivial
      | ok result =>
        refine ⟨trivial, fun duration => ⟨trivial, fun now => ?_⟩⟩
        refine ⟨(within_of_target rfl).mono (by simp), fun r => ?_⟩
        cases r with
        | error e => trivial
        | ok u => exact ⟨(within_of_target rfl).mono (by simp), fun _ => trivial⟩

theorem retagRow_writes {addresses : HashSet String} {row : SharedModel.Transaction} :
    Writes [.transaction] (retagRow lib addresses row) := by
  unfold retagRow
  cases Hash256.fromSlice row.txid.reverse with
  | none => trivial
  | some txid =>
    refine ⟨trivial, fun r => ?_⟩
    cases r with
    | error e => trivial
    | ok tx =>
      dsimp only
      split_ifs
      · exact ⟨within_of_target rfl, fun _ => trivial⟩
      · trivial

theorem retagRows_writes {addresses : HashSet String} (rows : List SharedModel.Transaction) :
    Writes [.transaction] (retagRows lib addresses rows) := by
  induction rows with
  | nil => trivial
  | cons row rows ih => exact retagRow_writes.andThen (fun _ => ih)

theorem retagTransactions_writes : Writes [.transaction] (retagTransactions lib) := by
  refine ⟨trivial, fun r => ?_⟩
  cases r with
  | error e => trivial
  | ok u =>
    refine ⟨within_of_reads rfl, fun r => ?_⟩
    cases r with
    | error e => trivial
    | ok t =>
      refine ⟨within_of_reads rfl, fun r => ?_⟩
      cases r with
      | error e => trivial
      | ok a => exact retagRows_writes _

theorem updateSanctionedAddresses_writes :
    Writes [.sanctionedAddresses] (updateSanctionedAddresses lib) := by
  refine ⟨trivial, fun r => ?_⟩
  cases r with
  | error e => trivial
  | ok response =>
    dsimp only
    split_ifs
    · trivial
    · cases response.lines with
      | none => trivial
      | some lines =>
        refine ⟨trivial, fun r => ?_⟩
        cases r with
        | error e => trivial
        | ok u => exact ⟨within_of_target rfl, fun _ => trivial⟩

theorem reidentifyBlocks_writes {network : Network} (blocks : List SharedModel.Block) :
    Writes [.block] (reidentifyBlocks lib network blocks) := by
  induction blocks with
  | nil => trivial
  | cons block blocks ih =>
    rw [reidentifyBlocks]
    cases Hash256.fromSlice block.hash.reverse with
    | none => exact ih
    | some hash =>
      refine ⟨trivial, fun r => ?_⟩
      cases r with
      | error e => trivial
      | ok bitcoinBlock =>
        refine Prog.Only.andThen ⟨trivial, fun pools => ?_⟩ (fun _ => ih)
        dsimp only
        cases lib.identifyPool bitcoinBlock network pools with
        | none => trivial
        | some result => exact ⟨within_of_target rfl, fun _ => trivial⟩

theorem retryUnknownPoolIdentification_writes {network : Network} :
    Writes [.block] (retryUnknownPoolIdentification lib network) := by
  refine ⟨trivial, fun r => ?_⟩
  cases r with
  | error e => trivial
  | ok u =>
    refine ⟨within_of_reads rfl, fun r => ?_⟩
    cases r with
    | error e => trivial
    | ok blocks => exact reidentifyBlocks_writes _

/-- Only a call of process writes detail rows, and next to it only the re-identification thread
touches the block table. -/
theorem prog_writes {j : Job}
    (hp : ∀ rs network block fees lt, j ≠ .process rs network block fees lt)
    (hr : ∀ network, j ≠ .retryUnknownPoolIdentification network) :
    Writes [.transaction, .sanctionedUtxoScanInfo, .sanctionedUtxo, .sanctionedAddresses]
      (j.prog lib) := by
  have hmono : ∀ (ts : List TableName) {p : Routine Unit}, Writes ts p →
      ts ⊆ [.transaction, .sanctionedUtxoScanInfo, .sanctionedUtxo, .sanctionedAddresses] →
      Writes [.transaction, .sanctionedUtxoScanInfo, .sanctionedUtxo, .sanctionedAddresses] p :=
    fun _ _ h hts => h.mono (fun _ => Within.mono hts)
  cases j with
  | process rs network block fees lt => exact absurd rfl (hp rs network block fees lt)
  | retryUnknownPoolIdentification network => exact absurd rfl (hr network)
  | insertTransactions txns =>
    refine hmono [.transaction] ?_ (by simp)
    exact (insertTransactions_writes txns).bind (fun _ => trivial)
  | scanSanctionedUtxos => exact hmono _ scanSanctionedUtxos_writes (by simp)
  | retagTransactions => exact hmono _ retagTransactions_writes (by simp)
  | updateSanctionedAddresses => exact hmono _ updateSanctionedAddresses_writes (by simp)

end Threads

end MiningpoolObserver.Footprint
