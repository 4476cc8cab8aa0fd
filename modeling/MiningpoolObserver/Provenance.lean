import MiningpoolObserver.AddressList
import MiningpoolObserver.BuiltRecords
import MiningpoolObserver.Footprint
import MiningpoolObserver.PageSafety
import MiningpoolObserver.SanctionMatch
import MiningpoolObserver.TableGaps
import MiningpoolObserver.UtxoScan

namespace MiningpoolObserver.Provenance

open MiningpoolObserver.Library MiningpoolObserver.Library.CallTree
open MiningpoolObserver.Library.HashCollections MiningpoolObserver.Library.KeyedTable
open MiningpoolObserver.Bitcoin MiningpoolObserver.DaemonModel MiningpoolObserver.SharedModel
open MiningpoolObserver.Db MiningpoolObserver.Daemon MiningpoolObserver.Process
open MiningpoolObserver.ProcessSpec MiningpoolObserver.BuiltRecords MiningpoolObserver.Footprint
open MiningpoolObserver.Threads MiningpoolObserver.Processing.Sanctions
open MiningpoolObserver.Processing.Rounds MiningpoolObserver.Processing.Conflicts
open MiningpoolObserver.SanctionedOutputs
open MiningpoolObserver.AddressList MiningpoolObserver.SanctionMatch MiningpoolObserver.UtxoScan
open MiningpoolObserver.PageSafety MiningpoolObserver.Simulation

section Jobs

variable {lib : Crates} {rs : RandomState} {network : Network} {block : Bitcoin.Block}
variable {fees : GetBlockTxFeesResult} {lt : List GetBlockTemplateResult} {c : Comparison}
variable {s : Sanctions} {blockId : Int64} {r : Records} {tr : Calls lib}

variable (lib) in
/-- The rows name listed addresses, and addresses of mapped UTXOs. -/
def NamesFrom (s : Sanctions) (rows : List SanctionedTransactionInfo) : Prop :=
  ∀ row ∈ rows, ∀ address ∈ row.addresses, address ∈ s.addresses ∨
    ∃ e ∈ s.utxoMap.entries, lib.addressFromScript e.2.scriptPubkey = some address

/-- The rows of sanctioned transactions name what the call has loaded. -/
def Names (tr : Calls lib) : Daemon.Call → Prop
  | .sql (.insertSanctionedTransactionInfos rows) => ∃ s, Loaded s tr ∧ NamesFrom lib s rows
  | _ => True

theorem namesFrom_of_builds (h : BuildsRecords lib rs lt c s blockId r) :
    NamesFrom lib s r.sanctionedInfos := by
  obtain ⟨k, hk⟩ := made_of_buildsRecords h
  intro row hrow address ha
  obtain ⟨txInfo, hx⟩ : ∃ txInfo : TxInfo, row.addresses =
      txSanctionedAddresses lib rs txInfo.tx s.utxoMap s.addresses := by
    rw [hk.sanctionedRows] at hrow
    obtain hrow | hrow := List.mem_append.mp hrow <;>
    · obtain ⟨txInfo, -, rfl⟩ := List.mem_map.mp hrow
      exact ⟨txInfo, rfl⟩
  rw [hx] at ha
  obtain ⟨ha, -⟩ | ⟨input, -, utxo, hutxo, hs⟩ := mem_txSanctionedAddresses.mp ha
  · exact .inl ha
  · exact .inr ⟨_, hutxo, hs⟩

theorem names_of_within {ts : List TableName} (hts : .sanctionedTransactionInfo ∉ ts)
    {c : Daemon.Call} (h : Within ts c) : Names tr c := by
  cases c with
  | sql st =>
    cases st with
    | insertSanctionedTransactionInfos rows => exact absurd (h _ rfl) hts
    | _ => trivial
  | _ => trivial

/-- A part that writes to other tables only. -/
theorem names_of_writes {α : Type} {ts : List TableName} {p : Prog Daemon.signature α}
    (hp : Footprint.Writes ts p) (hts : .sanctionedTransactionInfo ∉ ts) :
    Prog.Always Names (fun tr' _ => tr <+: tr') tr p :=
  (hp.always (Extends.refl tr)).mono (fun _ _ h => names_of_within hts h.2)
    (fun _ _ ⟨new, hnew, _⟩ => ⟨new, hnew.symm⟩)

theorem loaded_mono {tr' : Calls lib} (h : Loaded s tr) (hp : tr <+: tr') : Loaded s tr' := by
  obtain ⟨new, rfl⟩ := hp
  exact h.append new

theorem storeRecords_names {utxos : List SanctionedUtxo} (h : Loaded s tr)
    (hr : NamesFrom lib s r.sanctionedInfos) :
    Prog.Always Names (fun _ _ => True) tr (storeRecords rs r utxos) := by
  have hi : Footprint.Writes [.transaction]
      ((Process.insertTransactions (r.transactions.values rs)).bind
        (fun x => .done (returnOnError x)) : Routine Unit) :=
    (insertTransactions_writes _).bind (fun _ => trivial)
  refine Prog.Always.andThen (names_of_writes hi (by simp)) ?_ (fun _ _ _ => trivial)
  intro tr₁ _ h₁
  refine Prog.Always.andThen (names_of_writes (writes_orReturn (within_of_target rfl)) (by simp))
    ?_ (fun _ _ _ => trivial)
  intro tr₂ _ h₂
  refine Prog.Always.andThen (names_of_writes (writes_orReturn (within_of_target rfl)) (by simp))
    ?_ (fun _ _ _ => trivial)
  intro tr₃ _ h₃
  have hl : Loaded s tr₃ := loaded_mono h ((h₁.trans h₂).trans h₃)
  refine Prog.Always.andThen (D := fun _ _ => True)
    (always_orReturn ⟨s, hl, hr⟩ (fun _ _ => trivial) (fun _ _ => trivial)) ?_
    (fun _ _ _ => trivial)
  intro tr₄ _ _
  have hrest : Footprint.Writes [.conflictingTransactions, .sanctionedUtxo, .debugTemplateSelection]
      ((orReturn (.insertConflictingTransactions r.conflicting)).andThen (fun _ =>
        (recordNewUtxos utxos).andThen (fun _ =>
          orReturn (.insertDebugTemplateSelectionInfos r.debugInfos)))) := by
    refine Prog.Only.andThen (writes_orReturn ((within_of_target rfl).mono (by simp))) fun _ => ?_
    refine Prog.Only.andThen ((recordNewUtxos_writes utxos).mono fun _ => Within.mono (by simp))
      fun _ => writes_orReturn ((within_of_target rfl).mono (by simp))
  exact (names_of_writes hrest (by simp)).mono (fun _ _ h => h) (fun _ _ _ => trivial)

/-- The records of a call are built from what it has loaded. -/
theorem buildRecords_names (h : Loaded s tr) :
    Prog.Always Names (fun tr' x => Loaded s tr' ∧ ∀ r, x = .ok r →
      NamesFrom lib s r.sanctionedInfos) tr (buildRecords lib rs blockId c s lt) := by
  refine Prog.Always.andThen (D := fun tr' x => Loaded s tr' ∧ ∀ conflicting, x = .ok conflicting →
      buildConflictingTransactions lib rs blockId c.txidsOnlyInTemplate
        c.templateTxData.txidToTxinfoMap c.txidsOnlyInBlock c.blockTxData.txidToTxinfoMap
        HashMap.empty s.utxoMap s.addresses = .ok conflicting)
    (always_orPanic (fun a ha => ⟨h, ?_⟩) (fun _ => ⟨h, fun _ he => by cases he⟩)) ?_
    (fun _ _ h => ⟨h.1, fun _ he => by cases he⟩)
  · rintro _ ⟨⟩
    exact ha
  rintro tr₁ conflicting ⟨h₁, hconf⟩
  refine Prog.Always.bind (names_of_writes mempoolAgeSeconds_writes List.not_mem_nil) ?_
  intro tr₂ ages h₂
  have hl : Loaded s tr₂ := loaded_mono h₁ h₂
  refine always_orPanic (fun r hr => ⟨hl, ?_⟩) (fun _ => ⟨hl, fun _ he => by cases he⟩)
  rintro _ ⟨⟩
  exact namesFrom_of_builds ⟨conflicting, ages, hconf conflicting rfl, hr⟩

theorem process_names : Prog.Always Names (fun _ _ => True) ([] : Calls lib)
    (Process.process lib rs network block fees lt) := by
  refine Prog.Always.andThen (D := fun tr _ => tr = [])
    (always_orPanic (fun _ _ => rfl) (fun _ => rfl)) ?_ (fun _ _ _ => trivial)
  rintro _ c rfl
  have hconn : Prog.Always (Issues lib block) (Yields (fun tr (_ : Unit) =>
      Loading tr ∧ Fresh tr)) [] getConnection := getConnection_always
  refine Prog.Always.andThen (((names_of_writes getConnection_writes List.not_mem_nil).and
    hconn).mono (fun _ _ h => h.1) (fun _ _ h => h.2)) ?_ (fun _ _ _ => trivial)
  intro tr₁ _ h₁
  have hload : Prog.Always (Issues lib block) (Yields (fun tr s => Loading tr ∧ Loaded s tr)) tr₁
      loadSanctions := loadSanctions_always h₁.1 h₁.2
  refine Prog.Always.andThen (((names_of_writes loadSanctions_writes List.not_mem_nil).and
    hload).mono (fun _ _ h => h.1) (fun _ _ h => h.2)) ?_ (fun _ _ _ => trivial)
  intro tr₂ s h₂
  refine (names_of_writes recordBlock_writes (by simp)).andThen ?_ (fun _ _ _ => trivial)
  intro tr₃ blockId h₃
  refine (buildRecords_names (loaded_mono h₂.2 h₃)).andThen ?_ (fun _ _ _ => trivial)
  intro tr₄ r h₄
  exact storeRecords_names h₄.1 (h₄.2 r rfl)

/-- What is written to the three tables, by what the job has read before. -/
def Justified (lib : Crates) (j : Job) (tr : Calls lib) : Daemon.Call → Prop
  | .sql (.replaceSanctionedAddresses addr) =>
    ∃ lines, Downloads lines tr ∧ addr = accepted lib lines
  | .sql (.insertSanctionedUtxos utxos) => ∃ rs network block fees lt,
      j = .process rs network block fees lt ∧
        utxos = buildNewlyCreatedSanctionedUtxos lib block (addressesOf tr)
  | .sql (.cleanAndInsertSanctionedUtxos utxos) => ∃ v w,
      ∃ list : Statement.sanctionedAddresses.Result, ∃ result : ScanTxOutResult,
        succeeded v .sanctionedAddresses list ∈ tr ∧
        ⟨w, Call.scanTxOutSetBlocking (descriptorsOf lib (list.rows.map (fun a => a.address))),
          Except.ok result⟩ ∈ tr ∧ utxos = result.unspents.map scannedUtxo
  | .sql (.insertSanctionedTransactionInfos rows) => ∃ s, Loaded s tr ∧ NamesFrom lib s rows
  | _ => True

theorem justified_of_within {ts : List TableName} (ha : .sanctionedAddresses ∉ ts)
    (hu : .sanctionedUtxo ∉ ts) (hi : .sanctionedTransactionInfo ∉ ts) {j : Job}
    {c : Daemon.Call} (h : Within ts c) : Justified lib j tr c := by
  cases c with
  | sql st =>
    cases st with
    | replaceSanctionedAddresses addr => exact absurd (h _ rfl) ha
    | insertSanctionedUtxos utxos => exact absurd (h _ rfl) hu
    | cleanAndInsertSanctionedUtxos utxos => exact absurd (h _ rfl) hu
    | insertSanctionedTransactionInfos rows => exact absurd (h _ rfl) hi
    | _ => trivial
  | _ => trivial

theorem updateSanctionedAddresses_justified {j : Job} :
    Prog.Always (Justified lib j) (fun _ _ => True) [] (Threads.updateSanctionedAddresses lib) := by
  refine ⟨trivial, fun w r => ?_⟩
  cases r with
  | error e => trivial
  | ok response =>
    dsimp only
    split_ifs with hstatus
    · trivial
    · cases hlines : response.lines with
      | none => trivial
      | some lines =>
        refine ⟨trivial, fun v r => ?_⟩
        cases r with
        | error e => trivial
        | ok u =>
          refine ⟨⟨lines, ⟨w, response, ?_, Int32.not_le.mp hstatus, hlines⟩, rfl⟩,
            fun _ _ => trivial⟩
          simp

theorem process_justified : Prog.Always (Justified lib (.process rs network block fees lt))
    (fun _ _ => True) ([] : Calls lib) (Process.process lib rs network block fees lt) := by
  refine ((process_always block fees lt).and process_names).mono ?_ (fun _ _ _ => trivial)
  intro tr c ⟨hI, hN⟩
  cases c with
  | sql st =>
    cases st with
    | replaceSanctionedAddresses addr => exact hI.elim
    | cleanAndInsertSanctionedUtxos utxos => exact hI.elim
    | insertSanctionedUtxos utxos => exact ⟨rs, network, block, fees, lt, rfl, hI⟩
    | insertSanctionedTransactionInfos rows => exact hN
    | _ => trivial
  | _ => trivial

theorem scanSanctionedUtxos_justified : Prog.Always (Justified lib .scanSanctionedUtxos)
    (fun _ _ => True) ([] : Calls lib) (scanSanctionedUtxos lib) := by
  refine ⟨trivial, fun w r => ?_⟩
  cases r with
  | error e => trivial
  | ok u =>
    refine ⟨trivial, fun v r => ?_⟩
    cases r with
    | error e => trivial
    | ok list =>
      refine ⟨trivial, fun w r => ?_⟩
      cases r with
      | error e => trivial
      | ok result =>
        refine ⟨trivial, fun w₁ duration => ⟨trivial, fun w₂ now => ⟨trivial, fun w₃ r => ?_⟩⟩⟩
        cases r with
        | error e => trivial
        | ok u =>
          exact ⟨⟨v, w, list, result, by simp [succeeded], by simp, rfl⟩, fun _ _ => trivial⟩

theorem job_justified (j : Job) :
    Prog.Always (Justified lib j) (fun _ _ => True) ([] : Calls lib) (j.prog lib) := by
  have hwithin : ∀ {ts : List TableName} {p : Routine Unit}, Footprint.Writes ts p →
      .sanctionedAddresses ∉ ts → .sanctionedUtxo ∉ ts → .sanctionedTransactionInfo ∉ ts →
      Prog.Always (Justified lib j) (fun _ _ => True) ([] : Calls lib) p := fun hp ha hu hi =>
    (hp.always (Extends.refl [])).mono (fun _ _ h => justified_of_within ha hu hi h.2)
      (fun _ _ _ => trivial)
  cases j with
  | process rs network block fees lt => exact process_justified
  | insertTransactions txns =>
    exact hwithin ((insertTransactions_writes txns).bind (fun _ => trivial)) (by simp) (by simp)
      (by simp)
  | scanSanctionedUtxos => exact scanSanctionedUtxos_justified
  | retagTransactions => exact hwithin retagTransactions_writes (by simp) (by simp) (by simp)
  | updateSanctionedAddresses => exact updateSanctionedAddresses_justified
  | retryUnknownPoolIdentification network =>
    exact hwithin retryUnknownPoolIdentification_writes (by simp) (by simp) (by simp)

end Jobs

section Rows

variable {lib : Crates} {known known' : List Bitcoin.Block} {addresses addresses' : Set String}
variable {w w' : World lib} {j : Job} {tr : Calls lib}

/-- The script is that of one of the addresses, printed or parsed. -/
def PaysOneOf (lib : Crates) (addresses : Set String) (script : ScriptBuf) : Prop :=
  ∃ address ∈ addresses,
    lib.addressFromScript script = some address ∨ lib.parseAddress address = some script

/-- The row is that of an output of one of the blocks, which pays one of the addresses. -/
def Created (lib : Crates) (known : List Bitcoin.Block) (addresses : Set String)
    (row : SanctionedUtxo) : Prop :=
  ∃ block ∈ known, ∃ tx ∈ block.txdata, ∃ (vout : ℕ) (output : TxOut),
    tx.output[vout]? = some output ∧ row.txid = (lib.computeTxid tx).reversed ∧
      row.vout = Int32.ofNat vout ∧ row.scriptPubkey = output.scriptPubkey ∧
      row.amount = output.value.toInt64 ∧ PaysOneOf lib addresses output.scriptPubkey

/-- One of the addresses, or the printed address of a script that one of them has. -/
def Named (lib : Crates) (addresses : Set String) (address : String) : Prop :=
  address ∈ addresses ∨
    ∃ script, lib.addressFromScript script = some address ∧ PaysOneOf lib addresses script

theorem PaysOneOf.mono (h : addresses ⊆ addresses') {script : ScriptBuf}
    (hp : PaysOneOf lib addresses script) : PaysOneOf lib addresses' script := by
  obtain ⟨address, ha, hs⟩ := hp
  exact ⟨address, h ha, hs⟩

theorem Created.mono (hk : known ⊆ known') (h : addresses ⊆ addresses') {row : SanctionedUtxo}
    (hc : Created lib known addresses row) : Created lib known' addresses' row := by
  obtain ⟨block, hb, tx, htx, vout, output, hout, hid, hvout, hscript, hamount, hp⟩ := hc
  exact ⟨block, hk hb, tx, htx, vout, output, hout, hid, hvout, hscript, hamount, hp.mono h⟩

theorem Named.mono (h : addresses ⊆ addresses') {address : String}
    (hn : Named lib addresses address) : Named lib addresses' address := by
  obtain ha | ⟨script, hs, hp⟩ := hn
  · exact .inl (h ha)
  · exact .inr ⟨script, hs, hp.mono h⟩

/-- All that the database holds against anyone goes back to the addresses. -/
structure Traced (lib : Crates) (addresses : Set String) (w : World lib) : Prop where
  listed : ∀ row ∈ w.db.sanctionedAddresses.rows, row.address ∈ addresses
  utxos : ∀ row ∈ w.db.sanctionedUtxo.rows, Created lib w.node.known addresses row
  infos : ∀ row ∈ w.db.sanctionedTransactionInfo.rows, ∀ address ∈ row.addresses,
    Named lib addresses address

/-- What a job has read goes back to the addresses. -/
structure Backed (lib : Crates) (known : List Bitcoin.Block) (addresses : Set String)
    (tr : Calls lib) : Prop where
  lists : ∀ v list, succeeded v .sanctionedAddresses list ∈ tr →
    ∀ row ∈ list.rows, row.address ∈ addresses
  utxos : ∀ v table, succeeded v .getSanctionedUtxos table ∈ tr →
    ∀ row ∈ table.rows, Created lib known addresses row
  scans : ∀ v descriptors result,
    ⟨v, Call.scanTxOutSetBlocking descriptors, Except.ok result⟩ ∈ tr →
      ∃ blocks ⊆ known, result.unspents.Perm (scanTxOutSet lib blocks descriptors)
  downloads : ∀ lines, Downloads lines tr → ∀ a ∈ lines, (lib.parseAddress a).isSome → a ∈ addresses

theorem Backed.addressesOf (h : Backed lib known addresses tr) {a : String}
    (ha : a ∈ ProcessSpec.addressesOf tr) : a ∈ addresses := by
  obtain ⟨v, list, hm, ha⟩ := TableGaps.mem_addressesOf ha
  obtain ⟨row, hrow, rfl⟩ := List.mem_map.mp (HashSet.mem_collect.mp ha)
  exact h.lists v list hm row hrow

theorem Backed.utxoMapOf (h : Backed lib known addresses tr) {e : OutpointKey × SanctionedUtxo}
    (he : e ∈ (ProcessSpec.utxoMapOf tr).entries) : Created lib known addresses e.2 := by
  unfold ProcessSpec.utxoMapOf at he
  cases hread : tr.findSome? readUtxoMap with
  | none =>
    rw [hread] at he
    cases he
  | some utxoMap =>
    rw [hread, Option.getD_some] at he
    obtain ⟨event, hm, hread⟩ := List.exists_of_findSome?_eq_some hread
    unfold readUtxoMap at hread
    split at hread
    · rename_i v reply
      cases hread
      cases reply with
      | error err => cases he
      | ok table =>
        have hentry := HashMap.mem_of_get?_collect (HashMap.get?_eq_some_iff.mpr he)
        obtain ⟨row, hrow, hpair⟩ := List.mem_map.mp hentry
        rw [← (Prod.mk.inj hpair).2]
        exact h.utxos v table hm row hrow
    · cases hread

theorem Backed.newUtxos (h : Backed lib known addresses tr) {block : Bitcoin.Block}
    (hb : block ∈ known) {row : SanctionedUtxo}
    (hrow : row ∈ buildNewlyCreatedSanctionedUtxos lib block (ProcessSpec.addressesOf tr)) :
    Created lib known addresses row := by
  obtain ⟨tx, htx, hrow⟩ := List.mem_flatMap.mp hrow
  obtain ⟨⟨output, vout⟩, hout, hnew⟩ := List.mem_filterMap.mp hrow
  by_cases hp : paysTo lib (ProcessSpec.addressesOf tr) output.scriptPubkey = true
  · simp only [hp, if_true, Option.some.injEq] at hnew
    subst hnew
    obtain ⟨address, ha, hs⟩ := (paysTo_iff (fun _ => Iff.rfl)).mp hp
    exact ⟨block, hb, tx, List.mem_of_mem_filter htx, vout, output,
      List.mk_mem_zipIdx_iff_getElem?.mp hout, rfl, rfl, rfl, rfl, address, h.addressesOf ha,
      .inl hs⟩
  · simp [hp] at hnew

theorem exists_of_mem_outputsOf {blocks : List Bitcoin.Block} {u : ScanTxOutUtxo}
    (h : u ∈ outputsOf lib blocks) : ∃ block ∈ blocks, ∃ tx ∈ block.txdata,
      ∃ (vout : ℕ) (output : TxOut), tx.output[vout]? = some output ∧
        u.txid = lib.computeTxid tx ∧ u.vout = UInt32.ofNat vout ∧
        u.scriptPubKey = output.scriptPubkey ∧ u.amount = output.value := by
  obtain ⟨⟨block, height⟩, hb, hu⟩ := List.mem_flatMap.mp h
  obtain ⟨tx, htx, hu⟩ := List.mem_flatMap.mp hu
  obtain ⟨⟨output, vout⟩, hout, rfl⟩ := List.mem_map.mp hu
  exact ⟨block, List.mem_of_getElem? (List.mk_mem_zipIdx_iff_getElem?.mp hb), tx, htx, vout, output,
    List.mk_mem_zipIdx_iff_getElem?.mp hout, rfl, rfl, rfl, rfl⟩

/-- A scan for listed addresses finds outputs that pay them. -/
theorem Backed.scanned (h : Backed lib known addresses tr) {v v' : World lib}
    {list : Statement.sanctionedAddresses.Result} {result : ScanTxOutResult}
    (hlist : succeeded v .sanctionedAddresses list ∈ tr)
    (hscan : ⟨v', Call.scanTxOutSetBlocking
      (descriptorsOf lib (list.rows.map (fun a => a.address))), Except.ok result⟩ ∈ tr)
    {row : SanctionedUtxo}
    (hrow : row ∈ result.unspents.map scannedUtxo) : Created lib known addresses row := by
  obtain ⟨u, hu, rfl⟩ := List.mem_map.mp hrow
  obtain ⟨blocks, hblocks, hperm⟩ := h.scans v' _ result hscan
  obtain ⟨hu, hmatch⟩ := List.mem_filter.mp (hperm.mem_iff.mp hu)
  obtain ⟨block, hb, tx, htx, vout, output, hout, hid, hvout, hscript, hamount⟩ :=
    exists_of_mem_outputsOf hu
  obtain ⟨d, hd, hparse⟩ := List.any_eq_true.mp (Bool.and_eq_true_iff.mp hmatch).1
  obtain ⟨a, ha, rfl⟩ := List.mem_map.mp hd
  obtain ⟨listed, hlisted, rfl⟩ := List.mem_map.mp (List.mem_of_mem_filter ha)
  refine ⟨block, hblocks hb, tx, htx, vout, output, hout, ?_, ?_, hscript, ?_, listed.address,
    h.lists v list hlist listed hlisted, .inr (hscript ▸ of_decide_eq_true hparse)⟩
  · rw [scannedUtxo, hid]
  · rw [scannedUtxo, hvout]
    rfl
  · rw [scannedUtxo, hamount]

theorem Traced.later (h : Traced lib addresses w) (hdb : w'.db = w.db)
    (hk : w.node.known ⊆ w'.node.known) (ha : addresses ⊆ addresses') :
    Traced lib addresses' w' where
  listed row hrow := ha (h.listed row (hdb ▸ hrow))
  utxos row hrow := (h.utxos row (hdb ▸ hrow)).mono hk ha
  infos row hrow address hm := (h.infos row (hdb ▸ hrow) address hm).mono ha

/-- What a statement of a job writes goes back to the addresses as well. -/
theorem Traced.succeeds (h : Traced lib addresses w) (hb : Backed lib w.node.known addresses tr)
    (hnode : w'.node = w.node) {st : Statement} (hj : Justified lib j tr (.sql st))
    (hblock : ∀ rs network block fees lt, j = .process rs network block fees lt →
      block ∈ w.node.known) {a : st.Result} (hs : st.Succeeds w.db a w'.db) :
    Traced lib addresses w' where
  listed := by
    by_cases hr : ∃ addr, st = .replaceSanctionedAddresses addr
    · obtain ⟨addr, rfl⟩ := hr
      obtain ⟨lines, hl, rfl⟩ := hj
      intro row hrow
      obtain ⟨blockId, r₀, hx, -⟩ := hs
      obtain ⟨u, hu, hdb⟩ := replace_eq_ok_iff.mp hx
      rw [hdb, Table.rows_of_insert hu, Table.empty, List.nil_append] at hrow
      obtain ⟨hrow, hparse⟩ := List.mem_filter.mp hrow
      obtain ⟨line, hline, rfl⟩ := List.mem_map.mp hrow
      exact hb.downloads lines hl line hline hparse
    · rw [(utxosKept_of_succeeds hs).addresses fun addr he => hr ⟨addr, he⟩]
      exact h.listed
  utxos row hrow := by
    rw [hnode]
    by_cases hc : ∃ utxos, st = .cleanAndInsertSanctionedUtxos utxos
    · obtain ⟨utxos, rfl⟩ := hc
      obtain ⟨v, v', list, result, hlist, hscan, rfl⟩ := hj
      rw [rows_of_cleanAndInsert hs] at hrow
      exact hb.scanned hlist hscan hrow
    by_cases hi : ∃ utxos, st = .insertSanctionedUtxos utxos
    · obtain ⟨utxos, rfl⟩ := hi
      obtain ⟨rs, network, block, fees, lt, rfl, rfl⟩ := hj
      obtain hrow | hrow := mem_rows_of_insertSanctionedUtxos hs hrow
      · exact h.utxos row hrow
      · exact hb.newUtxos (hblock _ _ _ _ _ rfl) hrow
    · have ht : st.target ≠ some .sanctionedUtxo := by
        cases st with
        | cleanAndInsertSanctionedUtxos utxos => exact absurd ⟨utxos, rfl⟩ hc
        | insertSanctionedUtxos utxos => exact absurd ⟨utxos, rfl⟩ hi
        | _ => simp [Statement.target]
      rw [(kept_of_succeeds hs).utxos ht] at hrow
      exact h.utxos row hrow
  infos := by
    intro row hrow address ha
    cases sanctionedInfos_appended hs with
    | same _ hrows => exact h.infos row (hrows ▸ hrow) address ha
    | added he _ hrows =>
      subst he
      rw [hrows] at hrow
      obtain hrow | hrow := List.mem_append.mp hrow
      · exact h.infos row hrow address ha
      · obtain ⟨s, hl, hnames⟩ := hj
        obtain ha | ⟨e, he, hscript⟩ := hnames row hrow address ha
        · exact .inl (hb.addressesOf (hl.addressesOf_eq ▸ ha))
        · obtain ⟨_, _, _, _, _, _, _, _, _, hs, _, hp⟩ := hb.utxoMapOf (hl.utxoMapOf_eq ▸ he)
          exact .inr ⟨_, hscript, hs ▸ hp⟩

end Rows

section Runs

variable {lib : Crates} {past : Set String}

/-- A call of process is for a block that the node knows. -/
def Fetched (lib : Crates) (_ : Thread) (j : Job) (w : World lib) : Prop :=
  match j with
  | .process _ _ block _ _ => block ∈ w.node.known
  | _ => True

/-- A run of the threads from a database that goes back to the addresses of the past. -/
abbrev TracedRun (lib : Crates) (past : Set String) :=
  ThreadRun lib .reorganises (Fetched lib) (Traced lib past)

/-- The address was a line of a list that was downloaded in one of the steps, and parses. -/
def DownloadedBefore (ρ : TracedRun lib past) (i : ℕ) (address : String) : Prop :=
  ∃ k < i, ∃ thread response lines, ρ.label k = .call thread
      ⟨(ρ.state k).world, Call.httpGet, Except.ok response⟩ ∧ response.statusCode < 400 ∧
    response.lines = some lines ∧ address ∈ lines ∧ (lib.parseAddress address).isSome

/-- The addresses of the past with those downloaded so far. -/
def sources (ρ : TracedRun lib past) (i : ℕ) : Set String :=
  past ∪ {address | DownloadedBefore ρ i address}

theorem sources_mono (ρ : TracedRun lib past) {i k : ℕ} (h : i ≤ k) :
    sources ρ i ⊆ sources ρ k := by
  rintro address (ha | ⟨n, hn, hd⟩)
  · exact .inl ha
  · exact .inr ⟨n, hn.trans_le h, hd⟩

theorem known_of_step {allowed : Thread → Job → World lib → Prop} {C C' : Config lib}
    {l : Label lib} (h : Tasks.Step (system lib .reorganises allowed) C l C') :
    C.world.node.known ⊆ C'.world.node.known := by
  cases h with
  | start _ _ => exact List.Subset.refl _
  | finish _ => exact List.Subset.refl _
  | drift hd => exact hd.2.1
  | call _ ha => exact (node_of_answer ha) ▸ List.Subset.refl _

theorem known_mono (ρ : TracedRun lib past) {i k : ℕ} (h : i ≤ k) (hk : k ≤ ρ.length) :
    (ρ.state i).world.node.known ⊆ (ρ.state k).world.node.known :=
  ρ.relation (R := fun C C' => C.world.node.known ⊆ C'.world.node.known)
    (fun _ => List.Subset.refl _) (fun _ _ _ => List.Subset.trans)
    (fun n hn => known_of_step (ρ.steps n hn)) h hk

/-- What a job has read was true at an earlier moment of the run. -/
theorem backed_of_running (ρ : TracedRun lib past) {i : ℕ} (hi : i ≤ ρ.length)
    (hpast : ∀ k < i, Traced lib (sources ρ k) (ρ.state k).world) {n : Thread}
    {t : Tasks.Task Daemon.signature (World lib) Job (Except Abort Unit)}
    (ht : (ρ.state i).running n = some t) :
    Backed lib (ρ.state i).world.node.known (sources ρ i) t.trace := by
  have hread : ∀ e ∈ t.trace, ∃ k < i, ρ.label k = .call n e ∧ e.pre = (ρ.state k).world ∧
      Daemon.answer e.pre e.call e.reply (ρ.state (k + 1)).world := by
    intro e he
    obtain ⟨k, hk, hl⟩ := Tasks.called_of_mem_trace ρ hi ht he
    obtain ⟨hpre, ha⟩ := Tasks.answer_of_call (hl ▸ ρ.steps k (hk.trans_le hi))
    exact ⟨k, hk, hl, hpre, ha⟩
  refine ⟨fun v list hm row hrow => ?_, fun v table hm row hrow => ?_,
    fun v descriptors result hm => ?_, fun lines hd a ha hparse => ?_⟩
  · obtain ⟨k, hk, -, rfl, hs⟩ := hread _ hm
    exact sources_mono ρ hk.le
      ((hpast k hk).listed row ((addresses_of_succeeds hs.1).mem_iff.mp hrow))
  · obtain ⟨k, hk, -, rfl, hs⟩ := hread _ hm
    exact ((hpast k hk).utxos row ((utxos_of_succeeds hs.1).mem_iff.mp hrow)).mono
      (known_mono ρ hk.le hi) (sources_mono ρ hk.le)
  · obtain ⟨k, hk, -, rfl, hs⟩ := hread _ hm
    refine ⟨(ρ.state k).world.node.chain.blocks, fun block hb => ?_, hs.1⟩
    obtain ⟨height, hat⟩ := LinkedChain.Chain.exists_at_of_mem hb
    exact known_mono ρ hk.le hi (Node.known_of_at hat)
  · obtain ⟨v, response, hm, hstatus, hlines⟩ := hd
    obtain ⟨k, hk, hl, rfl, -⟩ := hread _ hm
    exact .inr ⟨k, hk, n, response, lines, hl, hstatus, hlines, ha, hparse⟩

/-- The blocks that are being processed are known to the node. -/
theorem known_of_processing (ρ : TracedRun lib past) : ∀ i ≤ ρ.length, ∀ n t,
    (ρ.state i).running n = some t → ∀ rs network block fees lt,
      t.job = .process rs network block fees lt → block ∈ (ρ.state i).world.node.known := by
  refine ρ.invariant (I := fun C => ∀ n t, C.running n = some t → ∀ rs network block fees lt,
    t.job = .process rs network block fees lt → block ∈ C.world.node.known) ?_ ?_
  · intro C hC n t ht
    rw [hC.2.1 n] at ht
    cases ht
  · intro C l C' hC hs n t ht rs network block fees lt hj
    apply known_of_step hs
    obtain ⟨j, rfl, hw⟩ | hi | ⟨j, tr, c, k, r, hi, rfl, -⟩ := Tasks.running_of_step hs ht
    · obtain rfl : j = .process rs network block fees lt := hj
      exact hw
    · exact hC n t hi rs network block fees lt hj
    · exact hC n _ hi rs network block fees lt hj

theorem traced_step {addresses : Set String} {C C' : Config lib} {l : Label lib}
    (hs : Tasks.Step (system lib .reorganises (Fetched lib)) C l C')
    (hc : Tasks.Coherent (system lib .reorganises (Fetched lib)) C)
    (h : Traced lib addresses C.world)
    (hb : ∀ n t, C.running n = some t → Backed lib C.world.node.known addresses t.trace)
    (hp : ∀ n t, C.running n = some t → ∀ rs network block fees lt,
      t.job = .process rs network block fees lt → block ∈ C.world.node.known) :
    Traced lib addresses C'.world := by
  cases dbStep_of_step Drift.keepsDb_reorganises hs with
  | same _ hdb => exact h.later hdb (known_of_step hs) (Set.Subset.refl _)
  | @exec n j tr st k a C' hi hst =>
    exact h.succeeds (hb n _ hi) (node_of_call hs) (hc.call_spec hi (job_justified j)) (hp n _ hi)
      hst

/-- In every database of the run, all that is held against anyone goes back to the addresses of
the past and to those downloaded since. -/
def AllTraced (ρ : TracedRun lib past) : Prop :=
  ∀ i ≤ ρ.length, Traced lib (sources ρ i) (ρ.state i).world

/-- However the threads interleave, and whatever calls fail. -/
theorem rows_traced (ρ : TracedRun lib past) : AllTraced ρ := by
  have hcoherent := ρ.invariant (I := Tasks.Coherent (system lib .reorganises (Fetched lib)))
    (fun _ => Tasks.coherent_of_idle) (fun _ _ _ => Tasks.Coherent.step)
  intro i
  induction i using Nat.strong_induction_on with
  | _ i ih =>
    intro hi
    cases i with
    | zero => exact ρ.starts.1.later rfl (List.Subset.refl _) Set.subset_union_left
    | succ i =>
      have hlt : i < ρ.length := Nat.lt_of_succ_le hi
      have hpast : ∀ k < i, Traced lib (sources ρ k) (ρ.state k).world :=
        fun k hk => ih k (Nat.lt_succ_of_lt hk) (hk.trans hlt).le
      have hnow := traced_step (ρ.steps i hlt) (hcoherent i hlt.le)
        (ih i (Nat.lt_succ_self i) hlt.le) (fun n t ht => backed_of_running ρ hlt.le hpast ht)
        (known_of_processing ρ i hlt.le)
      exact hnow.later rfl (List.Subset.refl _) (sources_mono ρ (Nat.le_succ i))

theorem traced_listedDb : Traced sample {"listed"} ⟨listedDb, payingNode⟩ where
  listed row hrow := by
    cases List.mem_singleton.mp hrow
    rfl
  utxos row hrow := absurd hrow List.not_mem_nil
  infos row hrow := absurd hrow List.not_mem_nil

/-- The block pays to the listed address. -/
theorem rows_traced_payingBlock : ∃ ρ : TracedRun sample {"listed"},
    (ρ.last.world.db.sanctionedUtxo.rows.length,
      ρ.last.world.db.sanctionedTransactionInfo.rows.length) = (1, 1) ∧ AllTraced ρ := by
  obtain ⟨ρ, hρ⟩ : ∃ ρ : TracedRun sample {"listed"}, ρ.last.world = _ :=
    exists_jobRun (j := .process .inserted .bitcoin payingBlock (feesOf sample payingBlock)
      [templateOf chain₀]) traced_listedDb (by decide : payingBlock ∈ payingNode.known) .healthy
  refine ⟨ρ, ?_, rows_traced ρ⟩
  rw [hρ]
  decide +kernel

end Runs

end MiningpoolObserver.Provenance
