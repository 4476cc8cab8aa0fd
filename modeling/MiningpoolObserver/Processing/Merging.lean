import MiningpoolObserver.Library.MergedLists
import MiningpoolObserver.Processing.Transactions

namespace MiningpoolObserver.Processing.Merging

open MiningpoolObserver.Library.HashCollections MiningpoolObserver.Library.MergedLists
open MiningpoolObserver.Processing.Transactions

variable {m : TransactionMap} {t : SharedModel.Transaction} {key : List UInt8}
variable {txns : List SharedModel.Transaction}

theorem bothTags_eq (existingTags newTags : List Int) :
    bothTags existingTags newTags = ascending (existingTags ++ newTags) :=
  destutter_insertionSort _

theorem mem_bothTags {existingTags newTags : List Int} {tag : Int} :
    tag ∈ bothTags existingTags newTags ↔ tag ∈ existingTags ∨ tag ∈ newTags := by
  rw [bothTags_eq, mem_ascending, List.mem_append]

/-- A transaction with other tags. -/
def withTags (t : SharedModel.Transaction) (tags : List Int) : SharedModel.Transaction :=
  { t with tags := tags }

/-- The map keeps the transaction it has, with the tags of both, or takes the new one. -/
theorem get?_addToTransactions : (addToTransactions t m).get? key =
    if key = t.txid then
      some ((m.get? key).elim t (fun old => withTags old (merge old.tags t.tags)))
    else m.get? key := by
  unfold addToTransactions
  cases hm : m.get? t.txid with
  | none =>
    rw [HashMap.get?_insert]
    by_cases hk : key = t.txid
    · rw [if_pos hk, if_pos hk, hk, hm, Option.elim_none]
    · rw [if_neg hk, if_neg hk]
  | some old =>
    dsimp only
    by_cases hne : old.tags ≠ t.tags
    · rw [if_pos hne, HashMap.get?_update]
      by_cases hk : key = t.txid
      · rw [if_pos hk, if_pos hk, hk, hm, Option.map_some, Option.elim_some, bothTags_eq, merge,
          if_pos hne, withTags]
      · rw [if_neg hk, if_neg hk]
    · rw [if_neg hne]
      by_cases hk : key = t.txid
      · rw [if_pos hk, hk, hm, Option.elim_some, merge, if_neg hne, withTags]
      · rw [if_neg hk]

/-- Any number of calls of add_to_transactions. -/
def addEach (txns : List SharedModel.Transaction) (m : TransactionMap) : TransactionMap :=
  txns.foldl (fun m t => addToTransactions t m) m

/-- The transactions of a list with one id. -/
def occurrences (txid : List UInt8) (txns : List SharedModel.Transaction) :
    List SharedModel.Transaction := txns.filter (fun t => t.txid = txid)

theorem occurrences_singleton (key : List UInt8) (t : SharedModel.Transaction) :
    occurrences key [t] = if key = t.txid then [t] else [] := by
  by_cases hk : key = t.txid
  · simp [occurrences, hk]
  · have hn : ¬ t.txid = key := fun h => hk h.symm
    simp [occurrences, hk, hn]

theorem occurrences_append (key : List UInt8) (txns txns' : List SharedModel.Transaction) :
    occurrences key (txns ++ txns') = occurrences key txns ++ occurrences key txns' :=
  List.filter_append ..

theorem occurrences_of_nodup (hn : (txns.map (fun t => t.txid)).Nodup) (key : List UInt8) :
    occurrences key txns = (txns.find? (fun t => t.txid = key)).toList := by
  induction txns with
  | nil => rfl
  | cons t txns ih =>
    rw [List.map_cons, List.nodup_cons] at hn
    rw [List.find?_cons, occurrences, List.filter_cons]
    by_cases hk : t.txid = key
    · have hrest : txns.filter (fun t => t.txid = key) = [] := by
        rw [List.filter_eq_nil_iff]
        intro t' ht' hid
        exact hn.1 (hk.trans (of_decide_eq_true hid).symm ▸ List.mem_map_of_mem ht')
      simp [hk, hrest]
    · simpa [hk, occurrences] using ih hn.2

def tagsOf (txns : List SharedModel.Transaction) : List (List Int) := txns.map (fun t => t.tags)

/-- The first occurrence stands for all of them, with their merged tags. -/
def collapse : List SharedModel.Transaction → Option SharedModel.Transaction
  | [] => none
  | t :: txns => some (withTags t (merged (tagsOf (t :: txns))))

theorem addEach_append (txns txns' : List SharedModel.Transaction) (m : TransactionMap) :
    addEach (txns ++ txns') m = addEach txns' (addEach txns m) := List.foldl_append

theorem collapse_snoc (txns : List SharedModel.Transaction) (t : SharedModel.Transaction) :
    collapse (txns ++ [t]) =
      some ((collapse txns).elim t (fun old => withTags old (merge old.tags t.tags))) := by
  cases txns with
  | nil => simp [collapse, tagsOf, merged_singleton, withTags]
  | cons first rest =>
    have ht : tagsOf (first :: (rest ++ [t])) = tagsOf (first :: rest) ++ [t.tags] := by
      simp [tagsOf]
    have hm : merged (tagsOf (first :: rest) ++ [t.tags]) =
        merge (merged (tagsOf (first :: rest))) (merged [t.tags]) :=
      merged_append (by simp [tagsOf]) (by simp)
    rw [List.cons_append, collapse, collapse, ht, hm, merged_singleton]
    rfl

theorem tagsOf_append (txns txns' : List SharedModel.Transaction) :
    tagsOf (txns ++ txns') = tagsOf txns ++ tagsOf txns' := List.map_append

theorem collapse_singleton (t : SharedModel.Transaction) : collapse [t] = some t := by
  simp [collapse, tagsOf, merged_singleton, withTags]

/-- One occurrence may stand for several at the end of a list. -/
theorem collapse_append_collapse (txns txns' : List SharedModel.Transaction) :
    collapse (txns ++ (collapse txns').toList) = collapse (txns ++ txns') := by
  cases txns' with
  | nil => rfl
  | cons t' rest' =>
    let one := withTags t' (merged (tagsOf (t' :: rest')))
    have hone : collapse (t' :: rest') = some one := rfl
    cases txns with
    | nil => rw [hone, Option.toList_some, List.nil_append,
      collapse_singleton, List.nil_append, hone]
    | cons t rest =>
      have hm : merged (tagsOf (t :: rest) ++ tagsOf [one]) =
          merged (tagsOf (t :: rest) ++ tagsOf (t' :: rest')) := by
        rw [merged_append (by simp [tagsOf]) (by simp [tagsOf]),
          merged_append (by simp [tagsOf]) (by simp [tagsOf])]
        congr 1
        exact merged_singleton _
      rw [hone, Option.toList_some, List.cons_append, List.cons_append, collapse, collapse,
        ← List.cons_append, ← List.cons_append, tagsOf_append, tagsOf_append, hm]

/-- One occurrence may stand for several at the beginning of a list. -/
theorem collapse_collapse_append (txns txns' : List SharedModel.Transaction) :
    collapse ((collapse txns).toList ++ txns') = collapse (txns ++ txns') := by
  induction txns' using List.reverseRecOn with
  | nil =>
    rw [List.append_nil, List.append_nil]
    exact collapse_append_collapse [] txns
  | append_singleton txns' t ih =>
    rw [← List.append_assoc, ← List.append_assoc, collapse_snoc, collapse_snoc, ih]

/-- A transaction that has been given the tags of others, one after another. -/
def absorb (txns : List SharedModel.Transaction) (old : SharedModel.Transaction) :
    SharedModel.Transaction := txns.foldl (fun old t => withTags old (merge old.tags t.tags)) old

theorem collapse_cons (old : SharedModel.Transaction) (txns : List SharedModel.Transaction) :
    collapse (old :: txns) = some (absorb txns old) := by
  induction txns using List.reverseRecOn with
  | nil => exact collapse_singleton old
  | append_singleton txns t ih =>
    rw [← List.cons_append, collapse_snoc, ih, absorb, absorb, List.foldl_append]
    rfl

/-- What any sequence of calls leaves under a key. -/
theorem get?_addEach (txns : List SharedModel.Transaction) (key : List UInt8) :
    (addEach txns HashMap.empty).get? key = collapse (occurrences key txns) := by
  induction txns using List.reverseRecOn with
  | nil => rfl
  | append_singleton txns t ih =>
    rw [addEach_append, addEach, List.foldl_cons, List.foldl_nil, get?_addToTransactions, ih]
    rw [occurrences_append, occurrences_singleton]
    by_cases hk : key = t.txid
    · rw [if_pos hk, if_pos hk, collapse_snoc]
    · rw [if_neg hk, if_neg hk, List.append_nil]

theorem txid_of_collapse {l : List SharedModel.Transaction} (hl : ∀ t ∈ l, t.txid = key)
    (h : collapse l = some t) : t.txid = key := by
  cases l with
  | nil => cases h
  | cons first rest =>
    cases h
    exact hl first List.mem_cons_self

theorem mem_occurrences : t ∈ occurrences key txns ↔ t ∈ txns ∧ t.txid = key := by
  rw [occurrences, List.mem_filter, decide_eq_true_iff]

theorem txid_of_get?_addEach (h : (addEach txns HashMap.empty).get? key = some t) :
    t.txid = key :=
  txid_of_collapse (fun _ ht => (mem_occurrences.mp ht).2) (get?_addEach txns key ▸ h)

theorem containsKey_addEach {txns : List SharedModel.Transaction} {key : List UInt8} :
    (addEach txns HashMap.empty).containsKey key = true ↔ ∃ t ∈ txns, t.txid = key := by
  rw [HashMap.containsKey, get?_addEach]
  cases h : occurrences key txns with
  | nil =>
    have hn : ∀ t ∈ txns, t.txid ≠ key := by simpa [occurrences] using h
    simpa [collapse] using hn
  | cons first rest =>
    have hf : first ∈ occurrences key txns := h ▸ List.mem_cons_self
    exact iff_of_true rfl ⟨first, mem_occurrences.mp hf⟩

/-- The tags under a key are those of all occurrences. -/
theorem mem_tags_addEach {txns : List SharedModel.Transaction} {key : List UInt8}
    {t : SharedModel.Transaction} (h : (addEach txns HashMap.empty).get? key = some t) {tag : Int} :
    tag ∈ t.tags ↔ ∃ t' ∈ txns, t'.txid = key ∧ tag ∈ t'.tags := by
  rw [get?_addEach] at h
  cases ho : occurrences key txns with
  | nil =>
    rw [ho] at h
    cases h
  | cons first rest =>
    rw [ho] at h
    cases h
    have hocc : ∀ t', t' ∈ first :: rest ↔ t' ∈ txns ∧ t'.txid = key := by
      intro t'
      rw [← ho, mem_occurrences]
    calc tag ∈ merged (tagsOf (first :: rest))
        ↔ ∃ t' ∈ first :: rest, tag ∈ t'.tags := by
          rw [mem_merged, tagsOf]
          simp only [List.mem_map, exists_exists_and_eq_and]
      _ ↔ ∃ t' ∈ txns, t'.txid = key ∧ tag ∈ t'.tags := by
          simp only [hocc, and_assoc]

section Values

variable {rs : RandomState}

theorem all_addEach (txns : List SharedModel.Transaction) :
    (addEach txns HashMap.empty).All (fun key t => t.txid = key) := by
  rintro ⟨key, t⟩ he
  exact txid_of_get?_addEach (HashMap.get?_eq_some_iff.mpr he)

theorem nodup_txids_values (hm : m.All (fun key t => t.txid = key)) :
    ((m.values rs).map (fun t => t.txid)).Nodup := by
  have hkeys : (m.values rs).map (fun t => t.txid) = (m.iter rs).map Prod.fst := by
    rw [HashMap.values, List.map_map]
    apply List.map_congr_left
    intro e he
    exact hm e (rs.mem_order.mp he)
  rw [hkeys]
  exact ((rs.perm m.entries).map Prod.fst).nodup_iff.mpr m.nodup

/-- In whatever order the values come, there is one under each key. -/
theorem occurrences_values (hm : m.All (fun key t => t.txid = key)) (key : List UInt8) :
    occurrences key (m.values rs) = (m.get? key).toList := by
  have hmem : ∀ t, t ∈ occurrences key (m.values rs) ↔ t ∈ (m.get? key).toList := by
    intro t
    rw [mem_occurrences, HashMap.mem_values, Option.mem_toList, HashMap.get?_eq_some_iff]
    constructor
    · rintro ⟨⟨key', he⟩, rfl⟩
      have hk : t.txid = key' := hm _ he
      exact hk ▸ he
    · exact fun he => ⟨⟨key, he⟩, hm _ he⟩
  have hnd : (occurrences key (m.values rs)).Nodup :=
    (List.Nodup.of_map _ (nodup_txids_values hm)).filter _
  have hperm := (List.perm_ext_iff_of_nodup hnd (Option.toList_nodup _)).mpr hmem
  cases hg : m.get? key with
  | none =>
    rw [hg] at hperm
    exact List.perm_nil.mp hperm
  | some t =>
    rw [hg] at hperm
    exact List.perm_singleton.mp hperm

end Values

end MiningpoolObserver.Processing.Merging
