import MiningpoolObserver.Footprint
import MiningpoolObserver.SanctionedOutputs
import MiningpoolObserver.TagOrder
import MiningpoolObserver.TagUnion
import MiningpoolObserver.TagWrites

namespace MiningpoolObserver.RetagPasses

open MiningpoolObserver.Library MiningpoolObserver.Library.CallTree
open MiningpoolObserver.Library.HashCollections MiningpoolObserver.Library.KeyedTable
open MiningpoolObserver.Library.MergedLists
open MiningpoolObserver.Bitcoin MiningpoolObserver.DaemonModel MiningpoolObserver.Db
open MiningpoolObserver.Daemon MiningpoolObserver.Process MiningpoolObserver.ProcessSpec
open MiningpoolObserver.Footprint
open MiningpoolObserver.Processing.Transactions MiningpoolObserver.Processing.Sanctions
open MiningpoolObserver.SanctionedOutputs MiningpoolObserver.Threads MiningpoolObserver.TagUnion
open MiningpoolObserver.TagOrder

variable {lib : Crates} {addresses addresses' : HashSet String} {txid : Txid}
variable {tx : Bitcoin.Transaction} {row : SharedModel.Transaction}

/-- The tags depend on which addresses are listed, not on their order. -/
theorem retagTransaction_congr (h : ∀ a, a ∈ addresses ↔ a ∈ addresses') {txInfo : TxInfo} :
    retagTransaction lib tx txInfo addresses = retagTransaction lib tx txInfo addresses' := by
  have hto : ∀ tx, isTxToSanctioned lib tx addresses = isTxToSanctioned lib tx addresses' := by
    intro tx
    have hset : ∀ a, a ∈ addresses ↔ a ∈ {a | a ∈ addresses'} := h
    have hset' : ∀ a, a ∈ addresses' ↔ a ∈ {a | a ∈ addresses'} := fun _ => Iff.rfl
    rw [Bool.eq_iff_iff, isTxToSanctioned_iff hset, isTxToSanctioned_iff hset']
  unfold retagTransaction
  cases lib.rawTxInfo tx with
  | none => rfl
  | some rawTxInfo =>
    unfold getTransactionTags tagConditions
    rw [hto]

variable (lib) in
/-- The tags that the thread computes for a row. -/
def recomputed (addresses : HashSet String) (txid : Txid) (tx : Bitcoin.Transaction)
    (row : SharedModel.Transaction) : List Int :=
  retagTransaction lib tx ⟨txid, tx, -1, row.fee.toUInt64⟩ addresses

variable (lib) in
/-- The row has all tags that the thread would give it. -/
def Settled (addresses : HashSet String) (txid : Txid) (tx : Bitcoin.Transaction)
    (row : SharedModel.Transaction) : Prop :=
  withOldTags (recomputed lib addresses txid tx row) (row.tags.insertionSort (· ≤ ·)) =
    row.tags.insertionSort (· ≤ ·)

theorem Settled.congr (ha : ∀ a, a ∈ addresses ↔ a ∈ addresses')
    (h : Settled lib addresses txid tx row) : Settled lib addresses' txid tx row := by
  unfold Settled recomputed at *
  rwa [← retagTransaction_congr ha]

section Passes

variable {D : Drift lib} {w w' u : World lib} {tr tr' : Calls lib} {r : Except Abort Unit}
variable {rows : List SharedModel.Transaction}

/-- The node has returned the transaction for its id. -/
def Got (tr : Calls lib) (txid : Txid) (tx : Bitcoin.Transaction) : Prop :=
  ∃ v, ⟨v, Call.getRawTransaction txid, Except.ok tx⟩ ∈ tr

/-- The tags of the row could not be updated. -/
def UpdateFailed (tr : Calls lib) (key : List UInt8) : Prop :=
  ∃ v tags e, failed v (.updateTransactionTags tags key) e ∈ tr

/-- What a thread that has gone through some rows has asked for and has left behind. -/
structure Worked (addresses : HashSet String) (rows : List SharedModel.Transaction) (w : World lib)
    (tr : Calls lib) (w' : World lib) : Prop where
  frame : ∀ key ∉ rows.map (fun row => row.txid), rowOf w' key = rowOf w key
  asked : ∀ txid tx, Got tr txid tx → txid.reversed ∈ rows.map (fun row => row.txid)
  settled : ∀ txid tx, Got tr txid tx → ¬ UpdateFailed tr txid.reversed →
    ∃ row, rowOf w' txid.reversed = some row ∧ Settled lib addresses txid tx row
  updated : ∀ v tags key reply, ⟨v, Call.sql (.updateTransactionTags tags key), reply⟩ ∈ tr →
    ∃ row txid tx, rowOf w key = some row ∧ txid.reversed = key ∧ Got tr txid tx ∧
      ¬ Settled lib addresses txid tx row

theorem Worked.append (h : Worked addresses [row] w tr u) (h' : Worked addresses rows u tr' w')
    (hn : row.txid ∉ rows.map (fun row => row.txid)) :
    Worked addresses (row :: rows) w (tr ++ tr') w' where
  frame key hk := by
    rw [h'.frame key (fun hm => hk (List.mem_cons_of_mem _ hm)),
      h.frame key (fun hm => hk (List.mem_cons.mpr (.inl (List.mem_singleton.mp hm))))]
  asked txid tx hg := by
    obtain ⟨v, hv⟩ := hg
    obtain hv | hv := List.mem_append.mp hv
    · exact List.mem_cons.mpr (.inl (List.mem_singleton.mp (h.asked txid tx ⟨v, hv⟩)))
    · exact List.mem_cons_of_mem _ (h'.asked txid tx ⟨v, hv⟩)
  settled txid tx hg hf := by
    obtain ⟨v, hv⟩ := hg
    obtain hv | hv := List.mem_append.mp hv
    · have hkey : txid.reversed = row.txid := List.mem_singleton.mp (h.asked txid tx ⟨v, hv⟩)
      obtain ⟨row', hrow', hs⟩ := h.settled txid tx ⟨v, hv⟩
        (fun ⟨v', tags, e, he⟩ => hf ⟨v', tags, e, List.mem_append_left _ he⟩)
      exact ⟨row', by rw [h'.frame _ (hkey ▸ hn), hrow'], hs⟩
    · exact h'.settled txid tx ⟨v, hv⟩
        (fun ⟨v', tags, e, he⟩ => hf ⟨v', tags, e, List.mem_append_right _ he⟩)
  updated v tags key reply hm := by
    obtain hm | hm := List.mem_append.mp hm
    · obtain ⟨row', txid, tx, hrow', hkey, ⟨v', hv'⟩, hs⟩ := h.updated v tags key reply hm
      exact ⟨row', txid, tx, hrow', hkey, ⟨v', List.mem_append_left _ hv'⟩, hs⟩
    · obtain ⟨row', txid, tx, hrow', hkey, ⟨v', hv'⟩, hs⟩ := h'.updated v tags key reply hm
      have hne : key ∉ [row].map (fun row => row.txid) := by
        intro he
        rw [List.map_singleton, List.mem_singleton] at he
        exact hn (he ▸ hkey ▸ h'.asked txid tx ⟨v', hv'⟩)
      exact ⟨row', txid, tx, by rw [← h.frame key hne, hrow'], hkey,
        ⟨v', List.mem_append_right _ hv'⟩, hs⟩

/-- A call that neither gets a transaction nor updates one comes first. -/
theorem Worked.call {e : Event Daemon.signature (World lib)}
    (h : Worked addresses rows u tr' w') (hall : rowOf u = rowOf w)
    (hget : ∀ txid, e.call ≠ .getRawTransaction txid)
    (hupdate : ∀ tags key, e.call ≠ .sql (.updateTransactionTags tags key)) :
    Worked addresses rows w (e :: tr') w' := by
  have hgot : ∀ {txid tx}, Got (e :: tr') txid tx → Got tr' txid tx := by
    rintro txid tx ⟨v, hv⟩
    obtain hv | hv := List.mem_cons.mp hv
    · exact absurd (congrArg (fun e => e.call) hv).symm (hget txid)
    · exact ⟨v, hv⟩
  refine ⟨fun key hk => by rw [h.frame key hk, hall], fun txid tx hg => h.asked txid tx (hgot hg),
    fun txid tx hg hf => h.settled txid tx (hgot hg) (fun ⟨v, tags, e, he⟩ => hf ⟨v, tags, e,
      List.mem_cons_of_mem _ he⟩), fun v tags key reply hm => ?_⟩
  obtain hm | hm := List.mem_cons.mp hm
  · exact absurd (congrArg (fun e => e.call) hm).symm (hupdate tags key)
  · obtain ⟨row, txid, tx, hrow, hkey, ⟨v', hv'⟩, hs⟩ := h.updated v tags key reply hm
    exact ⟨row, txid, tx, hall ▸ hrow, hkey, ⟨v', List.mem_cons_of_mem _ hv'⟩, hs⟩

/-- Nobody else writes to the transactions, or to the address list. -/
def others : Drift lib where
  rel w w' := w'.db.transaction = w.db.transaction ∧
    w'.db.sanctionedAddresses = w.db.sanctionedAddresses
  refl _ := ⟨rfl, rfl⟩
  trans _ _ _ h h' := ⟨h'.1.trans h.1, h'.2.trans h.2⟩

end Passes

end MiningpoolObserver.RetagPasses
