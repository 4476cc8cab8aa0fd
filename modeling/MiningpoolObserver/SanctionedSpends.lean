import MiningpoolObserver.SanctionedOutputs
import MiningpoolObserver.Simulation

namespace MiningpoolObserver.SanctionedSpends

open MiningpoolObserver.Library MiningpoolObserver.Library.CallTree
open MiningpoolObserver.Library.HashCollections
open MiningpoolObserver.Bitcoin MiningpoolObserver.SharedModel MiningpoolObserver.Db
open MiningpoolObserver.Daemon MiningpoolObserver.Process MiningpoolObserver.ProcessSpec
open MiningpoolObserver.Processing.Sanctions MiningpoolObserver.SanctionedOutputs
open MiningpoolObserver.Simulation

variable {lib : Crates} {D : Drift lib} {rs : RandomState} {network : Network}
variable {b : Bitcoin.Block} {fees : GetBlockTxFeesResult} {lt : List GetBlockTemplateResult}
variable {w w' : World lib} {calls : Calls lib} {r : Except Abort Unit}

/-- The table holds every unspent output to a listed address. -/
def TableHolds (lib : Crates) (listed : Set String) (earlier : List Bitcoin.Block)
    (rows : List SanctionedUtxo) : Prop :=
  ∀ o, Unspent lib listed earlier o → ∃ row ∈ rows, RowOf row o

def SpendsEarlierBlock (lib : Crates) (listed : Set String) (earlier : List Bitcoin.Block)
    (tx : Bitcoin.Transaction) : Prop :=
  ∃ input ∈ tx.input, Unspent lib listed earlier input.previousOutput

/-- The transaction at position `i` spends an output of an earlier one of its own block. -/
def SpendsSameBlock (lib : Crates) (listed : Set String) (b : Bitcoin.Block) (i : ℕ)
    (tx : Bitcoin.Transaction) : Prop :=
  ∃ input ∈ tx.input, ∃ j < i, ∃ parent, b.txdata[j]? = some parent ∧
    Pays lib listed parent input.previousOutput

/-- By what a call of process has read, every spender of an output to a listed address is
sanctioned. -/
def SpendsClassified (listed : Set String) (earlier : List Bitcoin.Block) (b : Bitcoin.Block)
    (calls : Calls lib) : Prop :=
  ∀ i tx, b.txdata[i]? = some tx →
    SpendsEarlierBlock lib listed earlier tx ∨ SpendsSameBlock lib listed b i tx →
      isTxSanctioned lib tx (utxoMapOf calls) (addressesOf calls) = true

/-- A transaction is sanctioned when it pays a listed address or spends an outpoint of the table,
both as they were when the call read them. -/
theorem isTxSanctioned_iff
    (h : Exec (Daemon.environment D) (process lib rs network b fees lt) w calls r w')
    {v u : World lib} {list : Statement.sanctionedAddresses.Result}
    {table : Statement.getSanctionedUtxos.Result}
    (hl : succeeded v .sanctionedAddresses list ∈ calls)
    (ht : succeeded u .getSanctionedUtxos table ∈ calls) (tx : Bitcoin.Transaction) :
    isTxSanctioned lib tx (utxoMapOf calls) (addressesOf calls) = true ↔
      (∃ output ∈ tx.output, PaysListed lib (listed v.db) output.scriptPubkey) ∨
        ∃ input ∈ tx.input, ∃ row ∈ u.db.sanctionedUtxo.rows, RowOf row input.previousOutput := by
  obtain ⟨v', hv, -⟩ := h.answers.answered hl
  obtain ⟨u', hu, -⟩ := h.answers.answered ht
  have ha : ∀ a, a ∈ addressesOf calls ↔ a ∈ listed v.db := by
    intro a
    rw [addressesOf_of_path h.path hl]
    exact mem_collect_addresses (addresses_of_succeeds hv) a
  have hrows : ∀ o, (∃ row ∈ table.rows, RowOf row o) ↔
      ∃ row ∈ u.db.sanctionedUtxo.rows, RowOf row o := by
    intro o
    simp only [(utxos_of_succeeds hu).mem_iff]
    rfl
  rw [isTxSanctioned, Bool.or_eq_true, isTxToSanctioned_iff ha, utxoMapOf_of_mem h ht,
    isTxFromSanctioned_iff]
  simp only [hrows]

/-- With a complete table, the spenders are all classified exactly when those that spend an output
of their own block also pay a listed address or spend an outpoint of the table. -/
theorem spendsClassified_iff
    (h : Exec (Daemon.environment D) (process lib rs network b fees lt) w calls r w')
    {v u : World lib} {list : Statement.sanctionedAddresses.Result}
    {table : Statement.getSanctionedUtxos.Result} {earlier : List Bitcoin.Block}
    (hl : succeeded v .sanctionedAddresses list ∈ calls)
    (ht : succeeded u .getSanctionedUtxos table ∈ calls)
    (hT : TableHolds lib (listed v.db) earlier u.db.sanctionedUtxo.rows) :
    SpendsClassified (listed v.db) earlier b calls ↔
      ∀ i tx, b.txdata[i]? = some tx → SpendsSameBlock lib (listed v.db) b i tx →
        (∃ output ∈ tx.output, PaysListed lib (listed v.db) output.scriptPubkey) ∨
          ∃ input ∈ tx.input, ∃ row ∈ u.db.sanctionedUtxo.rows,
            RowOf row input.previousOutput := by
  have hs := isTxSanctioned_iff h hl ht
  constructor
  · intro hc i tx htx hsame
    exact (hs tx).mp (hc i tx htx (.inr hsame))
  · rintro hc i tx htx (⟨input, hin, hb⟩ | hsame)
    · -- an output of an earlier block is in the table
      exact (hs tx).mpr (.inr ⟨input, hin, hT _ hb⟩)
    · exact (hs tx).mpr (hc i tx htx hsame)

def fundingTx : Bitcoin.Transaction := sampleTx 50 ⟨hashOfByte 200, 0⟩ listedScript
def fundingBlock : Bitcoin.Block := sampleBlock 0 21 [coinbaseTx 121 otherScript, fundingTx]

/-- A block that spends a listed output, pays a listed address again, and passes that output on. -/
def spendingBlock (script : ScriptBuf) : Bitcoin.Block :=
  sampleBlock 21 22 [coinbaseTx 122 listedScript, sampleTx 51 ⟨hashOfByte 50, 0⟩ listedScript,
    sampleTx 52 ⟨hashOfByte 51, 0⟩ script]

def fundingNode : Node sample := nodeOf (by decide : IsActive sample [fundingBlock] [] fundingBlock)

/-- One listed address, and the row of its one output. -/
def listedDb : Database :=
  { Database.empty with
    sanctionedAddresses := ⟨[⟨"listed"⟩], by decide⟩
    sanctionedUtxo := ⟨[⟨(hashOfByte 50).reversed, 0, listedScript, 5000, 0⟩], by decide⟩ }

def fundingWorld : World sample := ⟨listedDb, fundingNode⟩

def spendingCall (o : Outside) (script : ScriptBuf) :
    List (Event Daemon.signature (World sample)) × Except Abort Unit × World sample :=
  (process sample .inserted .bitcoin (spendingBlock script) (feesOf sample (spendingBlock script))
    [templateOf fundingNode]).runWith (respond o) fundingWorld

theorem exec_spendingCall (o : Outside) (script : ScriptBuf) :
    Exec (Daemon.environment Drift.none) (process sample .inserted .bitcoin (spendingBlock script)
      (feesOf sample (spendingBlock script)) [templateOf fundingNode]) fundingWorld
      (spendingCall o script).1 (spendingCall o script).2.1 (spendingCall o script).2.2 := by
  unfold spendingCall
  exact exec_respond Drift.none o _ fundingWorld

theorem tableHolds_listedDb :
    TableHolds sample (listed listedDb) [fundingBlock] listedDb.sanctionedUtxo.rows := by
  rintro o ⟨⟨e, he, tx, htx, hid, output, hout, address, haddr, hscript⟩, -⟩
  obtain rfl := List.mem_singleton.mp he
  refine ⟨_, List.mem_singleton_self _, ?_⟩
  simp only [fundingBlock, sampleBlock, List.mem_cons, List.not_mem_nil, or_false] at htx
  obtain rfl | rfl := htx
  · -- the coinbase output is not listed
    have ho : output.scriptPubkey = otherScript := by
      obtain ho := List.mem_of_getElem? hout
      simp only [coinbaseTx, sampleTx, List.mem_singleton] at ho
      rw [ho]
    rw [ho] at hscript
    have ha : address = "listed" := by simpa [listed, listedDb, KeyedTable.Table.keys] using haddr
    subst ha
    exact absurd hscript (by decide)
  · have hv : o.vout = 0 := by
      obtain ⟨hlt, -⟩ := List.getElem?_eq_some_iff.mp hout
      have hlen : fundingTx.output.length = 1 := rfl
      rw [hlen] at hlt
      exact UInt32.toNat_inj.mp (by simpa using hlt)
    refine ⟨?_, ?_⟩
    · rw [← hid]
      rfl
    · rw [hv]
      rfl

theorem reads_spendingCall :
    succeeded fundingWorld .sanctionedAddresses listedDb.sanctionedAddresses ∈
      (spendingCall .healthy listedScript).1 ∧
    succeeded fundingWorld .getSanctionedUtxos listedDb.sanctionedUtxo ∈
      (spendingCall .healthy listedScript).1 :=
  ⟨List.mem_of_getElem? (i := 1) (by rfl), List.mem_of_getElem? (i := 2) (by rfl)⟩

theorem spendsClassified_listed :
    SpendsClassified (listed listedDb) [fundingBlock] (spendingBlock listedScript)
      (spendingCall .healthy listedScript).1 :=
  (spendsClassified_iff (exec_spendingCall .healthy listedScript) reads_spendingCall.1
    reads_spendingCall.2 tableHolds_listedDb).mpr (fun i tx htx _ => .inl (by
      have hm := List.mem_of_getElem? htx
      simp only [spendingBlock, sampleBlock, List.mem_cons, List.not_mem_nil, or_false] at hm
      have hpays : PaysListed sample (listed listedDb) listedScript :=
        ⟨"listed", by simp [listed, listedDb, KeyedTable.Table.keys], rfl⟩
      obtain rfl | rfl | rfl := hm <;> exact ⟨_, List.mem_singleton_self _, hpays⟩))

/-- The last transaction of the block spends an output to a listed address, and is not taken to be
sanctioned. -/
theorem spendsClassified_fails :
    TableHolds sample (listed listedDb) [fundingBlock] listedDb.sanctionedUtxo.rows ∧
      ¬ SpendsClassified (listed listedDb) [fundingBlock] (spendingBlock otherScript)
        (spendingCall .healthy otherScript).1 := by
  refine ⟨tableHolds_listedDb, fun h => ?_⟩
  have hsame : SpendsSameBlock sample (listed listedDb) (spendingBlock otherScript) 2
      (sampleTx 52 ⟨hashOfByte 51, 0⟩ otherScript) := by
    refine ⟨_, List.mem_singleton_self _, 1, by omega, _, rfl, rfl, _, rfl, "listed", ?_, rfl⟩
    simp [listed, listedDb, KeyedTable.Table.keys]
  have hs := h 2 _ rfl (.inr hsame)
  have hn : isTxSanctioned sample (sampleTx 52 ⟨hashOfByte 51, 0⟩ otherScript)
      (utxoMapOf (spendingCall .healthy otherScript).1)
      (addressesOf (spendingCall .healthy otherScript).1) = false := by
    decide +kernel
  rw [hn] at hs
  cases hs

end MiningpoolObserver.SanctionedSpends
