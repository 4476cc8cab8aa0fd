import MiningpoolObserver.Process
import MiningpoolObserver.Processing.Merging
import MiningpoolObserver.Simulation

namespace MiningpoolObserver.TagUnion

open MiningpoolObserver.Library.CallTree MiningpoolObserver.Library.HashCollections
open MiningpoolObserver.Library.KeyedTable MiningpoolObserver.Library.MergedLists
open MiningpoolObserver.Bitcoin MiningpoolObserver.DaemonModel MiningpoolObserver.Db
open MiningpoolObserver.Daemon MiningpoolObserver.Process
open MiningpoolObserver.Processing.Transactions MiningpoolObserver.Processing.Merging
open MiningpoolObserver.Simulation

variable {lib : Crates} {D : Drift lib} {w w' : World lib} {txid : List UInt8}

/-- Nobody else writes to the transaction table. -/
def NoOtherWriter (D : Drift lib) : Prop :=
  ∀ w w', D.rel w w' → w'.db.transaction = w.db.transaction

/-- A call of insert_transactions that succeeds. -/
def Inserted (D : Drift lib) (w : World lib) (txns : List SharedModel.Transaction)
    (w' : World lib) : Prop :=
  ∃ tr, Exec (environment D) (insertTransactions txns) w tr (.ok ()) w'

/-- A sequence of process results: each is collected in a map, whose values are inserted. -/
inductive Stores (D : Drift lib) :
    World lib → List (List SharedModel.Transaction) → World lib → Prop
  | nil {w w' : World lib} : D.rel w w' → Stores D w [] w'
  | cons {w w₁ w' : World lib} {txns : List SharedModel.Transaction}
      {results : List (List SharedModel.Transaction)} (rs : RandomState) :
      Inserted D w ((addEach txns HashMap.empty).values rs) w₁ → Stores D w₁ results w' →
      Stores D w (txns :: results) w'

/-- The row of a transaction, if there is one. -/
def rowOf (w : World lib) (txid : List UInt8) : Option SharedModel.Transaction :=
  w.db.transaction.find? txid

theorem unionTags_eq (dbTxTags newTags : List Int) :
    unionTags dbTxTags newTags = ascending (dbTxTags ++ newTags) := by
  have hnd : (unionTags dbTxTags newTags).Nodup :=
    (List.perm_insertionSort _ _).nodup_iff.mpr (HashSet.collect (dbTxTags ++ newTags)).nodup
  refine eq_ascending ?_ (fun tag => ?_)
  · exact List.sortedLT_iff_nodup_and_sortedLE.mpr ⟨hnd, List.sortedLE_insertionSort⟩
  · rw [unionTags, List.mem_insertionSort]
    exact HashSet.mem_collect

section Steps

variable (hD : NoOtherWriter D)

theorem exec_execute {s : Statement} {tr : List (Event Daemon.signature (World lib))}
    {r : s.Result} (h : Exec (environment D) (execute s) w tr (.ok r) w') :
    ∃ w₁ w₂, D.rel w w₁ ∧ s.Succeeds w₁.db r w₂.db ∧ D.rel w₂ w' := by
  obtain ⟨w₁, r', w₂, tr', -, hd, ha, h⟩ := Exec.call_iff.mp h
  obtain ⟨-, rfl, hd'⟩ := Exec.done_iff.mp h
  exact ⟨w₁, w₂, hd, ha.1, hd'⟩

include hD in
theorem rowOf_drift (hd : D.rel w w') : rowOf w' = rowOf w := by
  funext txid
  rw [rowOf, rowOf, hD w w' hd]

include hD in
theorem rowOf_insertTransactions {txns : List SharedModel.Transaction} {ids : List (List UInt8)}
    {tr : List (Event Daemon.signature (World lib))}
    (h : Exec (environment D) (execute (.insertTransactions txns)) w tr (.ok ids) w') :
    ids = (w.db.transaction.insertNew txns).2.map (fun t => t.txid) ∧
      ∀ txid, rowOf w' txid = (rowOf w txid).or (txns.find? (fun t => t.txid = txid)) := by
  obtain ⟨w₁, w₂, hd, ⟨blockId, r₀, hx, rfl⟩, hd'⟩ := exec_execute h
  obtain ⟨rfl, hdb⟩ := Prod.mk.inj (Except.ok.inj hx)
  rw [← hD w w₁ hd]
  refine ⟨rfl, fun txid => ?_⟩
  rw [rowOf, hD w₂ w' hd', ← hdb, rowOf, ← hD w w₁ hd]
  exact Table.find?_insertNew ..

include hD in
theorem rowOf_selectTransactionTags {tags : List Int}
    {tr : List (Event Daemon.signature (World lib))}
    (h : Exec (environment D) (execute (.selectTransactionTags txid)) w tr (.ok tags) w') :
    rowOf w' = rowOf w ∧ ∃ row, rowOf w txid = some row ∧ row.tags = tags := by
  obtain ⟨w₁, w₂, hd, ⟨blockId, r₀, hx, rfl⟩, hd'⟩ := exec_execute h
  simp only [Statement.exec] at hx
  cases hf : w₁.db.transaction.find? txid with
  | none =>
    rw [hf] at hx
    cases hx
  | some row =>
    rw [hf] at hx
    obtain ⟨rfl, hdb⟩ := Prod.mk.inj (Except.ok.inj hx)
    refine ⟨?_, row, ?_, rfl⟩
    · funext key
      rw [rowOf, rowOf, hD w₂ w' hd', ← hdb, hD w w₁ hd]
    · rw [rowOf, ← hD w w₁ hd, hf]

include hD in
theorem rowOf_updateTransactionTags {tags : List Int}
    {tr : List (Event Daemon.signature (World lib))}
    (h : Exec (environment D) (execute (.updateTransactionTags tags txid)) w tr (.ok ()) w')
    (key : List UInt8) : rowOf w' key = (rowOf w key).map (setTags tags txid) := by
  obtain ⟨w₁, w₂, hd, ⟨blockId, r₀, hx, -⟩, hd'⟩ := exec_execute h
  obtain ⟨-, hdb⟩ := Prod.mk.inj (Except.ok.inj hx)
  rw [rowOf, hD w₂ w' hd', ← hdb, rowOf, ← hD w w₁ hd]
  exact Table.find?_update _ _ (txid_setTags tags txid) key

theorem txid_of_rowOf {row : SharedModel.Transaction} (h : rowOf w txid = some row) :
    row.txid = txid := ((Table.find?_eq_some_iff _).mp h).2

include hD in
/-- A transaction that was in the table absorbs the tags, whether or not they differ. -/
theorem rowOf_mergeInto {tx row : SharedModel.Transaction} (hrow : rowOf w tx.txid = some row)
    {tr : List (Event Daemon.signature (World lib))}
    (h : Exec (environment D) (mergeInto tx row.tags) w tr (.ok ()) w') (key : List UInt8) :
    rowOf w' key = (rowOf w key).map (absorb (occurrences key [tx])) := by
  have hid := txid_of_rowOf hrow
  unfold mergeInto at h
  by_cases hne : row.tags ≠ tx.tags
  · rw [if_pos hne] at h
    rw [rowOf_updateTransactionTags hD h, occurrences_singleton]
    by_cases hk : key = tx.txid
    · have hset : setTags (unionTags row.tags tx.tags) tx.txid row =
          withTags row (merge row.tags tx.tags) := by
        rw [setTags, if_pos hid, merge, if_pos hne, unionTags_eq, withTags]
      rw [if_pos hk, hk, hrow, Option.map_some, hset]
      rfl
    · rw [if_neg hk]
      cases hr : rowOf w key with
      | none => rfl
      | some old =>
        have hn : ¬ old.txid = tx.txid := by rw [txid_of_rowOf hr]; exact hk
        rw [Option.map_some, Option.map_some, setTags, if_neg hn]
        rfl
  · rw [if_neg hne] at h
    obtain ⟨-, -, hd⟩ := Exec.done_iff.mp h
    rw [rowOf_drift hD hd, occurrences_singleton]
    by_cases hk : key = tx.txid
    · have hkeep : absorb [tx] row = row := by
        rw [absorb, List.foldl_cons, List.foldl_nil, merge, if_neg hne, withTags]
      rw [if_pos hk, hk, hrow, Option.map_some, hkeep]
    · rw [if_neg hk]
      exact Option.map_id'.symm

theorem absorb_append (txns txns' : List SharedModel.Transaction) (old : SharedModel.Transaction) :
    absorb (txns ++ txns') old = absorb txns' (absorb txns old) := List.foldl_append

include hD in
/-- The loop over the transactions that were in the table before. -/
theorem rowOf_mergeTags {inserted : HashSet (List UInt8)} {txns : List SharedModel.Transaction}
    {tr : List (Event Daemon.signature (World lib))}
    (h : Exec (environment D) (mergeTags inserted txns) w tr (.ok ()) w') (key : List UInt8) :
    rowOf w' key =
      (rowOf w key).map (absorb (if key ∈ inserted then [] else occurrences key txns)) := by
  induction txns generalizing w tr with
  | nil =>
    obtain ⟨-, -, hd⟩ := Exec.done_iff.mp h
    have hnone : (if key ∈ inserted then [] else occurrences key []) = [] := ite_self []
    rw [rowOf_drift hD hd, hnone]
    exact Option.map_id'.symm
  | cons tx txns ih =>
    have hcons : occurrences key (tx :: txns) = occurrences key [tx] ++ occurrences key txns :=
      occurrences_append key [tx] txns
    rw [mergeTags] at h
    by_cases hi : tx.txid ∈ inserted
    · rw [if_pos hi] at h
      rw [ih h, hcons, occurrences_singleton]
      by_cases hk : key ∈ inserted
      · rw [if_pos hk, if_pos hk]
      · have hne : ¬ key = tx.txid := fun he => hk (he ▸ hi)
        rw [if_neg hk, if_neg hk, if_neg hne, List.nil_append]
    · rw [if_neg hi] at h
      obtain ⟨_, _, dbTxTags, w₁, -, h₁, h⟩ := Exec.andThen_ok_iff.mp h
      obtain ⟨hsame, row, hrow, rfl⟩ := rowOf_selectTransactionTags hD h₁
      obtain ⟨_, _, _, w₂, -, h₂, h⟩ := Exec.andThen_ok_iff.mp h
      rw [ih h, rowOf_mergeInto hD (hsame ▸ hrow) h₂, hsame, Option.map_map, hcons]
      congr 1
      funext old
      rw [Function.comp_apply, ← absorb_append, occurrences_singleton]
      by_cases hk : key ∈ inserted
      · have hne : ¬ key = tx.txid := fun he => hi (he ▸ hk)
        rw [if_pos hk, if_pos hk, if_neg hne, List.append_nil]
      · rw [if_neg hk, if_neg hk]

include hD in
/-- When as many were inserted as there are ids, the loop would not have changed anything. -/
theorem rowOf_after_insert {txns : List SharedModel.Transaction} {ids : List (List UInt8)}
    (hids : ∀ key, key ∈ ids ↔ key ∈ txns.map (fun t => t.txid) ∧ rowOf w key = none)
    {tr : List (Event Daemon.signature (World lib))} {w₁ : World lib}
    (h : Exec (environment D) (if (HashSet.collect ids).len ≠
        (HashSet.collect (txns.map (fun t => t.txid))).len
      then mergeTags (HashSet.collect ids) txns else .done (.ok ())) w₁ tr (.ok ()) w')
    (key : List UInt8) :
    rowOf w' key = (rowOf w₁ key).map
      (absorb (if key ∈ ids then [] else occurrences key txns)) := by
  by_cases hlen : (HashSet.collect ids).len ≠ (HashSet.collect (txns.map (fun t => t.txid))).len
  · rw [if_pos hlen] at h
    rw [rowOf_mergeTags hD h]
    simp only [HashSet.mem_collect]
  · rw [if_neg hlen] at h
    obtain ⟨-, -, hd⟩ := Exec.done_iff.mp h
    have hall : ∀ t ∈ txns, t.txid ∈ ids := by
      intro t ht
      refine HashSet.mem_collect.mp (HashSet.mem_of_len_le (fun key hk => ?_)
        (not_not.mp hlen).ge (HashSet.mem_collect.mpr (List.mem_map_of_mem ht)))
      exact HashSet.mem_collect.mpr ((hids key).mp (HashSet.mem_collect.mp hk)).1
    have hnone : (if key ∈ ids then [] else occurrences key txns) = [] := by
      by_cases hk : key ∈ ids
      · exact if_pos hk
      · rw [if_neg hk, List.eq_nil_iff_forall_not_mem]
        intro t ht
        obtain ⟨hm, rfl⟩ := mem_occurrences.mp ht
        exact hk (hall t hm)
    rw [rowOf_drift hD hd, hnone]
    exact Option.map_id'.symm

include hD in
/-- The row of a transaction after a call, for transactions with different ids. -/
theorem rowOf_inserted {txns : List SharedModel.Transaction}
    (hn : (txns.map (fun t => t.txid)).Nodup) (h : Inserted D w txns w') (key : List UInt8) :
    rowOf w' key = collapse ((rowOf w key).toList ++ occurrences key txns) := by
  obtain ⟨tr, h⟩ := h
  obtain ⟨_, _, ids, w₁, -, h₁, h⟩ := Exec.andThen_ok_iff.mp h
  obtain ⟨rfl, hrow⟩ := rowOf_insertTransactions hD h₁
  have hids : ∀ key, key ∈ (w.db.transaction.insertNew txns).2.map (fun t => t.txid) ↔
      key ∈ txns.map (fun t => t.txid) ∧ rowOf w key = none := by
    intro key
    rw [Table.mem_keys_insertNew_iff, rowOf, Table.find?_eq_none_iff]
  rw [rowOf_after_insert hD hids h, hrow]
  cases hw : rowOf w key with
  | some old =>
    have hk : key ∉ (w.db.transaction.insertNew txns).2.map (fun t => t.txid) := by
      rw [hids, hw]
      simp
    rw [if_neg hk, Option.some_or, Option.map_some]
    exact (collapse_cons old _).symm
  | none =>
    rw [Option.none_or, Option.toList_none, List.nil_append, occurrences_of_nodup hn]
    cases hf : txns.find? (fun t => t.txid = key) with
    | none => rfl
    | some t =>
      have hid : t.txid = key := by simpa using List.find?_some hf
      have hk : key ∈ (w.db.transaction.insertNew txns).2.map (fun t => t.txid) :=
        (hids key).mpr ⟨hid ▸ List.mem_map_of_mem (List.mem_of_find?_eq_some hf), hw⟩
      rw [if_pos hk, Option.map_some, Option.toList_some, collapse_singleton]
      rfl

include hD in
/-- Of all results, the row of a transaction is what its occurrences are merged to. -/
theorem rowOf_stores {results : List (List SharedModel.Transaction)} (h : Stores D w results w')
    (key : List UInt8) :
    rowOf w' key = collapse ((rowOf w key).toList ++ occurrences key results.flatten) := by
  induction h with
  | @nil w w' hd =>
    rw [rowOf_drift hD hd, List.flatten_nil]
    cases rowOf w key with
    | none => rfl
    | some old => exact (collapse_singleton old).symm
  | @cons w w₁ w' txns results rs hi _ ih =>
    have hm := all_addEach txns
    rw [ih, rowOf_inserted hD (nodup_txids_values hm) hi, occurrences_values hm, get?_addEach,
      List.flatten_cons, occurrences_append, collapse_append_collapse, collapse_collapse_append,
      List.append_assoc]

end Steps

/-- The tags of every occurrence of a transaction: in the table before, and in the results. -/
def tagLists (w : World lib) (results : List (List SharedModel.Transaction)) (txid : List UInt8) :
    List (List Int) := tagsOf ((rowOf w txid).toList ++ occurrences txid results.flatten)

/-- What a sequence of results leaves in the table. -/
structure United (w : World lib) (results : List (List SharedModel.Transaction)) (w' : World lib) :
    Prop where
  stored : ∀ txid, (rowOf w' txid).isSome = true ↔ tagLists w results txid ≠ []
  union : ∀ txid row, rowOf w' txid = some row →
    ∀ tag, tag ∈ row.tags ↔ ∃ tags ∈ tagLists w results txid, tag ∈ tags
  common : ∀ txid row, rowOf w' txid = some row → Uniform (tagLists w results txid) →
    row.tags ∈ tagLists w results txid
  sorted : ∀ txid row, rowOf w' txid = some row → ¬ Uniform (tagLists w results txid) →
    row.tags = ascending (tagLists w results txid).flatten
  others : ∀ txid, occurrences txid results.flatten = [] → rowOf w' txid = rowOf w txid
  columns : ∀ txid old, rowOf w txid = some old → ∃ tags, rowOf w' txid = some (withTags old tags)

theorem tags_collapse (txns : List SharedModel.Transaction) :
    (collapse txns).map (fun t => t.tags) =
      if tagsOf txns = [] then none else some (merged (tagsOf txns)) := by
  cases txns <;> rfl

variable {results results' : List (List SharedModel.Transaction)}

theorem tags_of_stores (hD : NoOtherWriter D) (h : Stores D w results w') (txid : List UInt8) :
    (rowOf w' txid).map (fun t => t.tags) = if tagLists w results txid = [] then none
      else some (merged (tagLists w results txid)) := by
  rw [rowOf_stores hD h, tags_collapse]
  rfl

theorem united_of_stores (hD : NoOtherWriter D) (h : Stores D w results w') :
    United w results w' := by
  have htags : ∀ txid row, rowOf w' txid = some row →
      tagLists w results txid ≠ [] ∧ row.tags = merged (tagLists w results txid) := by
    intro txid row hrow
    have ht := tags_of_stores hD h txid
    rw [hrow] at ht
    by_cases hn : tagLists w results txid = []
    · rw [if_pos hn] at ht
      cases ht
    · rw [if_neg hn] at ht
      exact ⟨hn, Option.some.inj ht⟩
  refine ⟨fun txid => ?_, fun txid row hrow tag => ?_, fun txid row hrow hu => ?_,
    fun txid row hrow hu => ?_, fun txid ho => ?_, fun txid old hold => ?_⟩
  · have ht := congrArg Option.isSome (tags_of_stores hD h txid)
    rw [Option.isSome_map] at ht
    rw [ht]
    by_cases hn : tagLists w results txid = [] <;> simp [hn]
  · rw [(htags txid row hrow).2, mem_merged]
  · obtain ⟨hn, he⟩ := htags txid row hrow
    obtain ⟨tags, hm⟩ := List.exists_mem_of_ne_nil _ hn
    rw [he, merged_of_uniform hu hm]
    exact hm
  · rw [(htags txid row hrow).2, merged, if_neg hu]
  · rw [rowOf_stores hD h, ho, List.append_nil]
    cases rowOf w txid with
    | none => rfl
    | some old => exact collapse_singleton old
  · rw [rowOf_stores hD h, hold, Option.toList_some, List.singleton_append]
    exact ⟨_, rfl⟩

/-- Merging tags is a union, whatever the order of the occurrences and of the results. -/
theorem tags_united (hD : NoOtherWriter D) (h : Stores D w results w') :
    United w results w' ∧ ∀ results' w'', results'.flatten.Perm results.flatten →
      Stores D w results' w'' → ∀ txid,
        (rowOf w'' txid).map (fun t => t.tags) = (rowOf w' txid).map (fun t => t.tags) := by
  refine ⟨united_of_stores hD h, fun results' w'' hp h' txid => ?_⟩
  have hlists : (tagLists w results' txid).Perm (tagLists w results txid) :=
    ((hp.filter _).append_left _).map _
  rw [tags_of_stores hD h, tags_of_stores hD h', merged_perm hlists]
  by_cases hn : tagLists w results txid = []
  · rw [if_pos hn, if_pos (hn ▸ hlists).eq_nil]
  · have hn' : tagLists w results' txid ≠ [] := fun he => hn (he ▸ hlists).symm.eq_nil
    rw [if_neg hn, if_neg hn']

def sampleRow (tags : List Int) : SharedModel.Transaction where
  txid := [1]
  sanctioned := false
  fee := 0
  vsize := 100
  outputSum := 5000
  tags := tags
  inputCount := 1
  inputs := []
  outputCount := 1
  outputs := []
  sigops := 0

/-- One call of insert_transactions against a healthy database. -/
def inserting (w : World sample) (txns : List SharedModel.Transaction) : World sample :=
  ((insertTransactions ((addEach txns HashMap.empty).values .inserted)).runWith
    (respond Outside.healthy) w).2.2

def emptyTable : World sample := ⟨.empty, chain₀⟩

theorem inserted_inserting {w : World sample} {txns : List SharedModel.Transaction}
    (h : ((insertTransactions ((addEach txns HashMap.empty).values .inserted)).runWith
      (respond Outside.healthy) w).2.1 = .ok ()) :
    Inserted Drift.none w ((addEach txns HashMap.empty).values .inserted) (inserting w txns) :=
  ⟨_, h ▸ exec_respond Drift.none Outside.healthy _ w⟩

/-- A transaction is built twice in one result and once in the next. -/
theorem tags_united_sample : ∃ w' : World sample,
    (rowOf w' [1]).map (fun t => t.tags) = some [4110, 4130, 4140] ∧
    United emptyTable [[sampleRow [4130, 4110], sampleRow [4130]], [sampleRow [4140]]] w' := by
  let w₁ := inserting emptyTable [sampleRow [4130, 4110], sampleRow [4130]]
  have h₁ : Inserted Drift.none emptyTable _ w₁ := inserted_inserting rfl
  have h₂ : Inserted Drift.none w₁ _ (inserting w₁ [sampleRow [4140]]) :=
    inserted_inserting (by decide +kernel)
  refine ⟨inserting w₁ [sampleRow [4140]], by decide +kernel, ?_⟩
  exact (tags_united (fun _ _ h => by rw [h])
    (.cons .inserted h₁ (.cons .inserted h₂ (.nil rfl)))).1

end MiningpoolObserver.TagUnion
