import Mathlib.Data.String.Basic
import MiningpoolObserver.Library.MergedLists
import MiningpoolObserver.SanctionedOutputs
import MiningpoolObserver.Simulation
import MiningpoolObserver.Threads

namespace MiningpoolObserver.SanctionMatch

open MiningpoolObserver.Library MiningpoolObserver.Library.HashCollections
open MiningpoolObserver.Library.CallTree MiningpoolObserver.Library.KeyedTable
open MiningpoolObserver.Bitcoin MiningpoolObserver.SharedModel MiningpoolObserver.Daemon
open MiningpoolObserver.Simulation MiningpoolObserver.Threads
open MiningpoolObserver.Processing.Sanctions MiningpoolObserver.SanctionedOutputs

variable {lib : Crates} {rs : RandomState} {tx : Bitcoin.Transaction} {utxoMap : UtxoMap}
variable {addresses : HashSet String} {address : String}

/-- Some output pays the address, and the address is listed. -/
def PaidTo (lib : Crates) (tx : Bitcoin.Transaction) (addresses : HashSet String)
    (address : String) : Prop :=
  address ∈ addresses ∧
    ∃ output ∈ tx.output, lib.addressFromScript output.scriptPubkey = some address

/-- Some input spends a mapped UTXO of the address. -/
def SpentFrom (lib : Crates) (tx : Bitcoin.Transaction) (utxoMap : UtxoMap) (address : String) :
    Prop :=
  ∃ input ∈ tx.input, ∃ utxo, (keyOfOutpoint input.previousOutput, utxo) ∈ utxoMap.entries ∧
    lib.addressFromScript utxo.scriptPubkey = some address

/-- The script of every mapped UTXO has an address. -/
def AllConvert (lib : Crates) (utxoMap : UtxoMap) : Prop :=
  utxoMap.All (fun _ utxo => ∃ address, lib.addressFromScript utxo.scriptPubkey = some address)

theorem exists_paidTo_iff :
    (∃ address, PaidTo lib tx addresses address) ↔ isTxToSanctioned lib tx addresses = true := by
  have hto : isTxToSanctioned lib tx addresses = true ↔
      ∃ output ∈ tx.output, PaysListed lib {a | a ∈ addresses} output.scriptPubkey :=
    isTxToSanctioned_iff (fun _ => Iff.rfl)
  rw [hto]
  constructor
  · rintro ⟨address, ha, output, hout, hs⟩
    exact ⟨output, hout, address, ha, hs⟩
  · rintro ⟨output, hout, address, ha, hs⟩
    exact ⟨address, ha, output, hout, hs⟩

theorem exists_spentFrom_iff (hm : AllConvert lib utxoMap) :
    (∃ address, SpentFrom lib tx utxoMap address) ↔ isTxFromSanctioned tx utxoMap = true := by
  simp only [isTxFromSanctioned, List.any_eq_true, List.mem_map, exists_exists_and_eq_and,
    HashMap.containsKey_iff]
  constructor
  · rintro ⟨address, input, hin, utxo, hutxo, -⟩
    exact ⟨input, hin, utxo, hutxo⟩
  · rintro ⟨input, hin, utxo, hutxo⟩
    obtain ⟨address, ha⟩ := hm _ hutxo
    exact ⟨address, input, hin, utxo, hutxo, ha⟩

theorem mem_txSanctionedAddressesTo :
    address ∈ txSanctionedAddressesTo lib rs tx addresses ↔ PaidTo lib tx addresses address := by
  rw [txSanctionedAddressesTo, HashSet.mem_iter]
  refine (HashSet.mem_foldl (A := fun (out : TxOut) a =>
    a ∈ addresses ∧ lib.addressFromScript out.scriptPubkey = some a) ?_).trans ?_
  · intro found out a
    cases lib.addressFromScript out.scriptPubkey with
    | none => simp
    | some b =>
      by_cases hb : b ∈ addresses
      · simp only [hb, if_true, HashSet.mem_insert, Option.some.injEq]
        exact or_congr_right ⟨fun h => ⟨h ▸ hb, h.symm⟩, fun h => h.2.symm⟩
      · simp only [hb, if_false, Option.some.injEq]
        exact ⟨.inl, fun h => h.elim id (fun h => absurd (h.2 ▸ h.1) hb)⟩
  · simp only [HashSet.not_mem_empty, false_or]
    constructor
    · rintro ⟨out, hout, ha, hs⟩
      exact ⟨ha, out, hout, hs⟩
    · rintro ⟨ha, out, hout, hs⟩
      exact ⟨out, hout, ha, hs⟩

theorem mem_txSanctionedAddressesFrom :
    address ∈ txSanctionedAddressesFrom lib rs tx utxoMap ↔ SpentFrom lib tx utxoMap address := by
  rw [txSanctionedAddressesFrom, HashSet.mem_iter]
  refine (HashSet.mem_foldl (A := fun (input : TxIn) a =>
    ∃ utxo, (keyOfOutpoint input.previousOutput, utxo) ∈ utxoMap.entries ∧
      lib.addressFromScript utxo.scriptPubkey = some a) ?_).trans ?_
  · intro found input a
    simp only [← HashMap.get?_eq_some_iff]
    cases utxoMap.get? (keyOfOutpoint input.previousOutput) with
    | none => simp
    | some utxo => cases h : lib.addressFromScript utxo.scriptPubkey <;> simp [h, eq_comm]
  · simp only [HashSet.not_mem_empty, false_or, SpentFrom]

theorem mem_txSanctionedAddresses : address ∈ txSanctionedAddresses lib rs tx utxoMap addresses ↔
    PaidTo lib tx addresses address ∨ SpentFrom lib tx utxoMap address := by
  rw [txSanctionedAddresses, MergedLists.destutter_insertionSort, MergedLists.mem_ascending,
    List.mem_append, mem_txSanctionedAddressesTo, mem_txSanctionedAddressesFrom]

/-- A transaction is sanctioned exactly when it has an address to list, and the list holds, in
ascending order, the listed addresses that it pays and those of the mapped UTXOs that it spends. -/
theorem isTxSanctioned_iff_listed (hm : AllConvert lib utxoMap) :
    (isTxSanctioned lib tx utxoMap addresses = true ↔
      txSanctionedAddresses lib rs tx utxoMap addresses ≠ []) ∧
    (txSanctionedAddresses lib rs tx utxoMap addresses).SortedLT ∧
    ∀ address, address ∈ txSanctionedAddresses lib rs tx utxoMap addresses ↔
      PaidTo lib tx addresses address ∨ SpentFrom lib tx utxoMap address := by
  refine ⟨?_, ?_, fun _ => mem_txSanctionedAddresses⟩
  · have hlist : txSanctionedAddresses lib rs tx utxoMap addresses ≠ [] ↔
        ∃ address, address ∈ txSanctionedAddresses lib rs tx utxoMap addresses :=
      ⟨List.exists_mem_of_ne_nil _, fun ⟨_, ha⟩ => List.ne_nil_of_mem ha⟩
    rw [hlist, isTxSanctioned, Bool.or_eq_true, ← exists_paidTo_iff, ← exists_spentFrom_iff hm,
      ← exists_or]
    exact exists_congr (fun _ => mem_txSanctionedAddresses.symm)
  · rw [txSanctionedAddresses, MergedLists.destutter_insertionSort]
    exact Finset.sortedLT_sort _

/-- A transaction that pays a listed address and spends a UTXO of another one. -/
theorem isTxSanctioned_iff_listed_both :
    let tx := sampleTx 1 ⟨hashOfByte 7, 0⟩ listedScript
    let utxoMap := buildOutpointToSanctionedUtxoMap
      [⟨(hashOfByte 7).reversed, 0, otherScript, 5000, 1⟩]
    let addresses := HashSet.collect ["listed"]
    let found := txSanctionedAddresses sample .inserted tx utxoMap addresses
    (isTxSanctioned sample tx utxoMap addresses = true ↔ found ≠ []) ∧ found.SortedLT ∧
      ∀ address, address ∈ found ↔
        PaidTo sample tx addresses address ∨ SpentFrom sample tx utxoMap address := by
  refine isTxSanctioned_iff_listed (fun e he => ?_)
  obtain rfl := List.mem_singleton.mp he
  exact ⟨"other", rfl⟩

/-! The outpoints that the rows of the database stand for. -/

section Outpoints

variable {block : Bitcoin.Block} {o o' : OutPoint} {row : SanctionedUtxo}

/-- The outpoint of an output of the block that pays a listed address. -/
def PaysAt (lib : Crates) (addresses : HashSet String) (block : Bitcoin.Block) (o : OutPoint) :
    Prop :=
  ∃ tx ∈ block.txdata, ∃ (vout : ℕ) (output : TxOut), tx.output[vout]? = some output ∧
    o = ⟨lib.computeTxid tx, UInt32.ofNat vout⟩ ∧
      PaysListed lib {a | a ∈ addresses} output.scriptPubkey

def FoundAt (result : ScanTxOutResult) (o : OutPoint) : Prop :=
  ∃ utxo ∈ result.unspents, o = ⟨utxo.txid, utxo.vout⟩

theorem ofNat_eq_toInt32_iff {n : ℕ} {v : UInt32} :
    Int32.ofNat n = v.toInt32 ↔ UInt32.ofNat n = v := by
  have hn : Int32.ofNat n = (UInt32.ofNat n).toInt32 := rfl
  rw [hn]
  refine ⟨fun h => ?_, fun h => h ▸ rfl⟩
  rw [← UInt32.toUInt32_toInt32 (UInt32.ofNat n), h, UInt32.toUInt32_toInt32]

theorem storedAs_iff : StoredAs lib {a | a ∈ addresses} block o ↔ PaysAt lib addresses block o := by
  unfold StoredAs PaysAt
  refine exists_congr fun tx => and_congr_right fun _ => ⟨?_, ?_⟩
  · rintro ⟨hid, vout, output, hout, hv, hpays⟩
    exact ⟨vout, output, hout, by rw [hid, ofNat_eq_toInt32_iff.mp hv], hpays⟩
  · rintro ⟨vout, output, hout, rfl, hpays⟩
    exact ⟨rfl, vout, output, hout, ofNat_eq_toInt32_iff.mpr rfl, hpays⟩

theorem keyOfOutpoint_injective : Function.Injective keyOfOutpoint := by
  rintro ⟨⟨bytes, _⟩, vout⟩ ⟨⟨bytes', _⟩, vout'⟩ h
  cases h
  rfl

/-- A row stands for one outpoint. -/
theorem rowOf_unique (h : RowOf row o) (h' : RowOf row o') : o = o' :=
  keyOfOutpoint_injective ((keyOfUtxo_eq_iff.mpr h).symm.trans (keyOfUtxo_eq_iff.mpr h'))

theorem rowOf_iff : RowOf row o ↔ (row.txid, row.vout) = (o.txid.reversed, o.vout.toInt32) :=
  (Prod.mk.injEq ..).symm ▸ Iff.rfl

theorem exists_paysAt_row_iff :
    (∃ row ∈ buildNewlyCreatedSanctionedUtxos lib block addresses, RowOf row o) ↔
      PaysAt lib addresses block o :=
  (exists_new_row_iff (fun _ => Iff.rfl)).trans storedAs_iff

/-- Every row that the block gives stands for an outpoint. -/
theorem exists_rowOf_new (h : row ∈ buildNewlyCreatedSanctionedUtxos lib block addresses) :
    ∃ o, RowOf row o := by
  obtain ⟨tx, -, hrow⟩ := List.mem_flatMap.mp h
  obtain ⟨⟨output, vout⟩, -, hnew⟩ := List.mem_filterMap.mp hrow
  dsimp only at hnew
  split_ifs at hnew
  cases hnew
  exact ⟨⟨lib.computeTxid tx, UInt32.ofNat vout⟩, rfl, rfl⟩

theorem rowOf_scannedUtxo (utxo : ScanTxOutUtxo) :
    RowOf (scannedUtxo utxo) ⟨utxo.txid, utxo.vout⟩ := ⟨rfl, rfl⟩

theorem exists_scanned_row_iff {result : ScanTxOutResult} :
    (∃ row ∈ result.unspents.map scannedUtxo, RowOf row o) ↔ FoundAt result o := by
  simp only [List.mem_map, exists_exists_and_eq_and]
  refine exists_congr fun utxo => and_congr_right fun _ => ⟨fun h => ?_, fun h => ?_⟩
  · exact rowOf_unique h (rowOf_scannedUtxo utxo)
  · exact h ▸ rowOf_scannedUtxo utxo

/-- A scan gives a row for every output that it finds. -/
theorem utxos_of_scantxoutset {σ : Type} {addrs : List String} {tr : List (Event signature σ)}
    {utxos : List SanctionedUtxo} {info : SanctionedUtxoScanInfo} {w : σ}
    {descriptors : List ScanTxOutRequest} {result : ScanTxOutResult}
    (h : Path (scantxoutsetSanctionedTx lib addrs) tr (.done (.ok (utxos, info))))
    (hr : ⟨w, Call.scanTxOutSetBlocking descriptors, Except.ok result⟩ ∈ tr) :
    utxos = result.unspents.map scannedUtxo := by
  obtain ⟨w₁, r, tr₁, rfl, h₁⟩ := Path.call_done_iff.mp h
  cases r with
  | error e => cases (Path.done_iff.mp h₁).2
  | ok result' =>
    obtain ⟨w₂, duration, tr₂, rfl, h₂⟩ := Path.call_done_iff.mp h₁
    obtain ⟨w₃, now, tr₃, rfl, h₃⟩ := Path.call_done_iff.mp h₂
    obtain ⟨rfl, hd⟩ := Path.done_iff.mp h₃
    cases hd
    simp only [List.mem_cons, List.not_mem_nil, or_false] at hr
    obtain hr | hr | hr := hr
    · cases hr
      rfl
    · cases hr
    · cases hr

/-- The table of sanctioned UTXOs after rows are inserted, each unless its key is taken. -/
def tableOf (rows : List SanctionedUtxo) :
    Table SanctionedUtxo (List UInt8 × Int32) (fun r => (r.txid, r.vout)) :=
  (Table.empty.insertNew rows).1

/-- An outpoint has a row in the table exactly when it has one among those that were inserted. -/
theorem exists_row_tableOf_iff {rows : List SanctionedUtxo} :
    (∃ row ∈ (tableOf rows).rows, RowOf row o) ↔ ∃ row ∈ rows, RowOf row o := by
  have h : (o.txid.reversed, o.vout.toInt32) ∈ (tableOf rows).keys ↔
      (o.txid.reversed, o.vout.toInt32) ∈ rows.map (fun r => (r.txid, r.vout)) :=
    Table.mem_keys_insertNew_empty rows _
  simpa only [tableOf, Table.keys, List.mem_map, ← rowOf_iff] using h

variable {σ : Type} {addrs : List String} {tr : List (Event signature σ)}
variable {utxos inserted selected : List SanctionedUtxo} {info : SanctionedUtxoScanInfo} {w : σ}
variable {descriptors : List ScanTxOutRequest} {result : ScanTxOutResult}

/-- The map over the table holds the keys of the outpoints that the scan found and of the block's
outputs to listed addresses, rows and keys stand for one outpoint each, and a transaction is told by
the outpoints that it spends. -/
theorem outpoints_stored
    (hscan : Path (scantxoutsetSanctionedTx lib addrs) tr (.done (.ok (utxos, info))))
    (hresult : ⟨w, Call.scanTxOutSetBlocking descriptors, Except.ok result⟩ ∈ tr)
    (hinserted : inserted.Perm (utxos ++ buildNewlyCreatedSanctionedUtxos lib block addresses))
    (hselected : selected.Perm (tableOf inserted).rows) :
    (∀ key, (buildOutpointToSanctionedUtxoMap selected).containsKey key = true ↔
      ∃ o, key = keyOfOutpoint o ∧ (FoundAt result o ∨ PaysAt lib addresses block o)) ∧
    (∀ row ∈ selected, ∃! o, RowOf row o) ∧
    (∀ o, ∀ row ∈ selected, ∀ row' ∈ selected, RowOf row o → RowOf row' o → row = row') ∧
    (∀ o o', keyOfOutpoint o = keyOfOutpoint o' → o = o') ∧
    ∀ tx, isTxFromSanctioned tx (buildOutpointToSanctionedUtxoMap selected) = true ↔
      ∃ input ∈ tx.input, FoundAt result input.previousOutput ∨
        PaysAt lib addresses block input.previousOutput := by
  have hutxos := utxos_of_scantxoutset hscan hresult
  have hrow : ∀ o, (∃ row ∈ selected, RowOf row o) ↔
      FoundAt result o ∨ PaysAt lib addresses block o := by
    intro o
    have hexists : (∃ row ∈ selected, RowOf row o) ↔
        ∃ row ∈ utxos ++ buildNewlyCreatedSanctionedUtxos lib block addresses, RowOf row o := by
      simp only [hselected.mem_iff, exists_row_tableOf_iff, hinserted.mem_iff]
    rw [hexists]
    simp only [List.mem_append, or_and_right, exists_or]
    rw [hutxos, exists_scanned_row_iff, exists_paysAt_row_iff]
  have hstands : ∀ row ∈ selected, ∃ o, RowOf row o := by
    intro row h
    have hmem : row ∈ inserted := by
      rw [hselected.mem_iff, tableOf, Table.rows_insertNew] at h
      exact Table.mem_of_mem_insertNew h
    obtain h | h := List.mem_append.mp (hinserted.mem_iff.mp hmem)
    · obtain ⟨utxo, -, rfl⟩ := List.mem_map.mp (hutxos ▸ h)
      exact ⟨_, rowOf_scannedUtxo utxo⟩
    · exact exists_rowOf_new h
  refine ⟨fun key => ⟨fun h => ?_, ?_⟩, fun row h => ?_, fun o row h row' h' ho ho' => ?_,
    fun o o' h => keyOfOutpoint_injective h, fun tx => ?_⟩
  · obtain ⟨e, he, rfl⟩ := HashMap.containsKey_collect.mp h
    obtain ⟨row, hmem, rfl⟩ := List.mem_map.mp he
    obtain ⟨o, ho⟩ := hstands row hmem
    exact ⟨o, keyOfUtxo_eq_iff.mpr ho, (hrow o).mp ⟨row, hmem, ho⟩⟩
  · rintro ⟨o, rfl, ho⟩
    exact containsKey_utxoMap.mpr ((hrow o).mpr ho)
  · obtain ⟨o, ho⟩ := hstands row h
    exact ⟨o, ho, fun o' ho' => rowOf_unique ho' ho⟩
  · exact (tableOf inserted).row_unique (hselected.mem_iff.mp h) (hselected.mem_iff.mp h')
      ((rowOf_iff.mp ho).trans (rowOf_iff.mp ho').symm)
  · simp only [isTxFromSanctioned_iff, hrow]

/-- The block and the scan both give the first output of the coinbase; the block alone gives its
third one, and the scan alone that of an older transaction. -/
theorem outpoints_stored_twice :
    let block := sampleBlock 0 1 [{ coinbaseTx 7 listedScript with
      output := [⟨5000, listedScript⟩, ⟨300, otherScript⟩, ⟨200, listedScript⟩] }]
    let addresses := HashSet.collect ["listed"]
    let result : ScanTxOutResult := ⟨none, [⟨hashOfByte 7, 0, listedScript, 5000, 1⟩,
      ⟨hashOfByte 9, 4, listedScript, 80, 1⟩], 5080⟩
    let inserted := result.unspents.map scannedUtxo ++
      buildNewlyCreatedSanctionedUtxos sample block addresses
    let utxoMap := buildOutpointToSanctionedUtxoMap (tableOf inserted).rows
    (tableOf inserted).rows.map (fun row => row.vout) = [0, 4, 2] ∧
    (∀ key, utxoMap.containsKey key = true ↔
      ∃ o, key = keyOfOutpoint o ∧ (FoundAt result o ∨ PaysAt sample addresses block o)) ∧
    (∀ row ∈ (tableOf inserted).rows, ∃! o, RowOf row o) ∧
    (∀ o, ∀ row ∈ (tableOf inserted).rows, ∀ row' ∈ (tableOf inserted).rows,
      RowOf row o → RowOf row' o → row = row') ∧
    (∀ o o', keyOfOutpoint o = keyOfOutpoint o' → o = o') ∧
    ∀ tx, isTxFromSanctioned tx utxoMap = true ↔
      ∃ input ∈ tx.input, FoundAt result input.previousOutput ∨
        PaysAt sample addresses block input.previousOutput := by
  intro block addresses result inserted utxoMap
  have hscan : Path (scantxoutsetSanctionedTx sample ["listed"])
      [⟨(), Call.scanTxOutSetBlocking [⟨"listed"⟩], Except.ok result⟩,
        ⟨(), Call.elapsed, (0 : UInt64)⟩, ⟨(), Call.utcNow, (0 : NaiveDateTime)⟩]
      (.done (.ok (result.unspents.map scannedUtxo, scanInfo result 0 0))) :=
    .cons (.cons (.cons (.nil _)))
  have hrows : (tableOf inserted).rows.map (fun row => row.vout) = [0, 4, 2] := by decide +kernel
  exact ⟨hrows,
    outpoints_stored hscan List.mem_cons_self (List.Perm.refl _) (List.Perm.refl _)⟩

end Outpoints

end MiningpoolObserver.SanctionMatch
