import Mathlib.Data.Set.Basic
import MiningpoolObserver.Daemon
import MiningpoolObserver.Processing.Sanctions

namespace MiningpoolObserver.SanctionedOutputs

open MiningpoolObserver.Library.HashCollections MiningpoolObserver.Bitcoin
open MiningpoolObserver.SharedModel MiningpoolObserver.Db MiningpoolObserver.Daemon
open MiningpoolObserver.Processing.Sanctions

variable {lib : Crates}

/-- The addresses on the list. -/
def listed (db : Database) : Set String := {a | a ∈ db.sanctionedAddresses.keys}

def PaysListed (lib : Crates) (listed : Set String) (script : ScriptBuf) : Prop :=
  ∃ address ∈ listed, lib.addressFromScript script = some address

/-- The output of a transaction at an outpoint pays a listed address. -/
def Pays (lib : Crates) (listed : Set String) (tx : Bitcoin.Transaction) (o : OutPoint) : Prop :=
  lib.computeTxid tx = o.txid ∧
    ∃ output, tx.output[o.vout.toNat]? = some output ∧ PaysListed lib listed output.scriptPubkey

/-- A block holds an output at the outpoint, and it pays a listed address. -/
def PaidIn (lib : Crates) (listed : Set String) (b : Bitcoin.Block) (o : OutPoint) : Prop :=
  ∃ tx ∈ b.txdata, Pays lib listed tx o

/-- An output to a listed address that the blocks have created and not spent. -/
def Unspent (lib : Crates) (listed : Set String) (blocks : List Bitcoin.Block) (o : OutPoint) :
    Prop :=
  (∃ b ∈ blocks, PaidIn lib listed b o) ∧ ¬ Spent blocks o

/-- The row of an outpoint. -/
def RowOf (row : SanctionedUtxo) (o : OutPoint) : Prop :=
  row.txid = o.txid.reversed ∧ row.vout = o.vout.toInt32

instance (row : SanctionedUtxo) (o : OutPoint) : Decidable (RowOf row o) :=
  inferInstanceAs (Decidable (_ ∧ _))

theorem toInt32_ofNat (v : UInt32) : Int32.ofNat v.toNat = v.toInt32 := by
  have h : Int32.ofNat v.toNat = (UInt32.ofNat v.toNat).toInt32 := rfl
  rw [h, UInt32.ofNat_toNat]

variable {addresses : HashSet String} {listed : Set String}

theorem paysTo_iff (ha : ∀ a, a ∈ addresses ↔ a ∈ listed) {script : ScriptBuf} :
    paysTo lib addresses script = true ↔ PaysListed lib listed script := by
  unfold paysTo PaysListed
  cases lib.addressFromScript script with
  | none => simp
  | some address => simp [ha]

theorem isTxToSanctioned_iff (ha : ∀ a, a ∈ addresses ↔ a ∈ listed) {tx : Bitcoin.Transaction} :
    isTxToSanctioned lib tx addresses = true ↔
      ∃ output ∈ tx.output, PaysListed lib listed output.scriptPubkey := by
  simp [isTxToSanctioned, paysTo_iff ha]

/-- A block has an output to a listed address whose row is that of the outpoint: the column has no
more than 32 bits for the place of an output. -/
def StoredAs (lib : Crates) (listed : Set String) (b : Bitcoin.Block) (o : OutPoint) : Prop :=
  ∃ tx ∈ b.txdata, lib.computeTxid tx = o.txid ∧ ∃ (i : ℕ) (output : TxOut),
    tx.output[i]? = some output ∧ Int32.ofNat i = o.vout.toInt32 ∧
      PaysListed lib listed output.scriptPubkey

theorem PaidIn.storedAs {b : Bitcoin.Block} {o : OutPoint} (h : PaidIn lib listed b o) :
    StoredAs lib listed b o := by
  obtain ⟨tx, htx, hid, output, hout, hpays⟩ := h
  exact ⟨tx, htx, hid, o.vout.toNat, output, hout, toInt32_ofNat o.vout, hpays⟩

theorem StoredAs.mono {listed' : Set String} (hs : listed ⊆ listed') {b : Bitcoin.Block}
    {o : OutPoint} (h : StoredAs lib listed b o) : StoredAs lib listed' b o := by
  obtain ⟨tx, htx, hid, i, output, hout, hi, address, ha, hscript⟩ := h
  exact ⟨tx, htx, hid, i, output, hout, hi, address, hs ha, hscript⟩

/-- The new rows of a block are those of its outputs to listed addresses. -/
theorem exists_new_row_iff (ha : ∀ a, a ∈ addresses ↔ a ∈ listed) {b : Bitcoin.Block}
    {o : OutPoint} : (∃ row ∈ buildNewlyCreatedSanctionedUtxos lib b addresses, RowOf row o) ↔
      StoredAs lib listed b o := by
  constructor
  · rintro ⟨row, hrow, ho⟩
    obtain ⟨tx, htx, hrow⟩ := List.mem_flatMap.mp hrow
    obtain ⟨⟨output, i⟩, hout, hnew⟩ := List.mem_filterMap.mp hrow
    by_cases hp : paysTo lib addresses output.scriptPubkey = true
    · simp only [hp, if_true, Option.some.injEq] at hnew
      subst hnew
      exact ⟨tx, List.mem_of_mem_filter htx, Hash256.reversed_injective ho.1, i, output,
        List.mk_mem_zipIdx_iff_getElem?.mp hout, ho.2, (paysTo_iff ha).mp hp⟩
    · simp [hp] at hnew
  · rintro ⟨tx, htx, hid, i, output, hout, hi, hpays⟩
    have hto : isTxToSanctioned lib tx addresses = true :=
      (isTxToSanctioned_iff ha).mpr ⟨output, List.mem_of_getElem? hout, hpays⟩
    refine ⟨newSanctionedUtxo lib b tx i output, ?_, ?_, hi⟩
    · refine List.mem_flatMap.mpr ⟨tx, List.mem_filter.mpr ⟨htx, hto⟩, ?_⟩
      refine List.mem_filterMap.mpr ⟨(output, i), ?_, by simp [(paysTo_iff ha).mpr hpays]⟩
      exact List.mk_mem_zipIdx_iff_getElem?.mpr hout
    · simp [newSanctionedUtxo, hid]

/-- Each output of a block that pays a listed address is among its new rows. -/
theorem exists_new_row (ha : ∀ a, a ∈ addresses ↔ a ∈ listed) {b : Bitcoin.Block} {o : OutPoint}
    (h : PaidIn lib listed b o) :
    ∃ row ∈ buildNewlyCreatedSanctionedUtxos lib b addresses, RowOf row o :=
  (exists_new_row_iff ha).mpr h.storedAs

/-- A list read from the table, in whatever order, holds the listed addresses. -/
theorem mem_collect_addresses {db : Database} {rows : List SanctionedAddress}
    (h : rows.Perm db.sanctionedAddresses.rows) (a : String) :
    a ∈ HashSet.collect (rows.map (fun r => r.address)) ↔ a ∈ SanctionedOutputs.listed db := by
  rw [HashSet.mem_collect, (h.map _).mem_iff]
  rfl

theorem keyOfUtxo_eq_iff {row : SanctionedUtxo} {o : OutPoint} :
    keyOfUtxo row = keyOfOutpoint o ↔ RowOf row o := by
  unfold keyOfUtxo keyOfOutpoint RowOf
  rw [Prod.mk.injEq]
  refine and_congr ⟨fun h => ?_, fun h => ?_⟩ ⟨fun h => ?_, fun h => ?_⟩
  · rw [Hash256.reversed, ← h, List.reverse_reverse]
  · rw [h, Hash256.reversed, List.reverse_reverse]
  · simp [← h]
  · simp [h]

/-- The map that process builds holds the outpoints that have a row. -/
theorem containsKey_utxoMap {rows : List SanctionedUtxo} {o : OutPoint} :
    (buildOutpointToSanctionedUtxoMap rows).containsKey (keyOfOutpoint o) = true ↔
      ∃ row ∈ rows, RowOf row o := by
  unfold buildOutpointToSanctionedUtxoMap
  rw [HashMap.containsKey_collect]
  simp [keyOfUtxo_eq_iff]

theorem isTxFromSanctioned_iff {rows : List SanctionedUtxo} {tx : Bitcoin.Transaction} :
    isTxFromSanctioned tx (buildOutpointToSanctionedUtxoMap rows) = true ↔
      ∃ input ∈ tx.input, ∃ row ∈ rows, RowOf row input.previousOutput := by
  simp [isTxFromSanctioned, containsKey_utxoMap]

end MiningpoolObserver.SanctionedOutputs
