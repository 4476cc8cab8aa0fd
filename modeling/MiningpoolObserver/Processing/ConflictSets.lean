import MiningpoolObserver.Library.Fallible
import MiningpoolObserver.Library.MergedLists
import MiningpoolObserver.Processing.Rounds

namespace MiningpoolObserver.Processing.ConflictSets

open MiningpoolObserver.Library.HashCollections MiningpoolObserver.Library.Fallible
open MiningpoolObserver.Library.MergedLists
open MiningpoolObserver.Bitcoin MiningpoolObserver.DaemonModel
open MiningpoolObserver.Processing.Sanctions MiningpoolObserver.Processing.Transactions
open MiningpoolObserver.Processing.Conflicts MiningpoolObserver.Processing.Merging
open MiningpoolObserver.Processing.Rounds

variable {P : TxInfo → Prop} {conflicts : List Conflict} {t b : TxInfo}

/-- Every transaction of every conflict has the property. -/
def AllIn (P : TxInfo → Prop) (conflicts : List Conflict) : Prop :=
  ∀ c ∈ conflicts, (∀ tx ∈ c.templateTransactions, P tx) ∧ ∀ tx ∈ c.blockTransactions, P tx

theorem mem_pushNew {α : Type} [DecidableEq α] {l : List α} {a b : α} :
    b ∈ pushNew l a ↔ b ∈ l ∨ b = a := by
  unfold pushNew
  by_cases ha : a ∈ l
  · rw [if_pos ha]
    exact ⟨.inl, fun h => h.elim id (fun he => he ▸ ha)⟩
  · rw [if_neg ha, List.mem_append, List.mem_singleton]

theorem mem_of_mem_sortDedupTransactions {l : List TxInfo} {tx : TxInfo}
    (h : tx ∈ sortDedupTransactions l) : tx ∈ l :=
  (List.mem_insertionSort _).mp ((List.destutter_sublist _ _).subset h)

/-- Of the transactions with one id, one is left. -/
theorem exists_mem_sortDedupTransactions {l : List TxInfo} {tx : TxInfo} (h : tx ∈ l) :
    ∃ tx' ∈ sortDedupTransactions l, tx'.txid = tx.txid :=
  exists_mem_destutter (f := TxInfo.txid) ((List.mem_insertionSort _).mpr h)

theorem getElem?_of_existingConflicts {e : Nat × Conflict}
    (h : e ∈ existingConflicts conflicts t b) : conflicts[e.1]? = some e.2 := by
  unfold existingConflicts at h
  refine List.foldlRecOn (motive := fun existing => ∀ e ∈ existing, conflicts[e.1]? = some e.2)
    conflicts.zipIdx _ (by simp) ?_ e h
  rintro existing hex ⟨c, i⟩ hci
  have hc : conflicts[i]? = some c := List.mk_mem_zipIdx_iff_getElem?.mp hci
  have hpush : ∀ (p : Bool) (l : List (Nat × Conflict)), (∀ e ∈ l, conflicts[e.1]? = some e.2) →
      ∀ e ∈ (if p then l ++ [(i, c)] else l), conflicts[e.1]? = some e.2 := by
    intro p l hl e he
    cases p with
    | false => exact hl e he
    | true =>
      obtain he | he := List.mem_append.mp he
      · exact hl e he
      · obtain rfl := List.mem_singleton.mp he
        exact hc
  exact hpush _ _ (hpush _ _ hex)

theorem mem_of_existingConflicts {e : Nat × Conflict}
    (h : e ∈ existingConflicts conflicts t b) : e.2 ∈ conflicts :=
  List.mem_of_getElem? (getElem?_of_existingConflicts h)

theorem allIn_mergeConflicts {existing : List Conflict} (h : AllIn P existing)
    (ht : P t) (hb : P b) (co : OutPoint) : AllIn P [mergeConflicts existing t b co] := by
  intro c hc
  obtain rfl := List.mem_singleton.mp hc
  constructor
  · intro tx htx
    obtain rfl | htx := List.mem_cons.mp (mem_of_mem_sortDedupTransactions htx)
    · exact ht
    · obtain ⟨c, hc, htx⟩ := List.mem_flatMap.mp htx
      exact (h c hc).1 tx htx
  · intro tx htx
    obtain rfl | htx := List.mem_cons.mp (mem_of_mem_sortDedupTransactions htx)
    · exact hb
    · obtain ⟨c, hc, htx⟩ := List.mem_flatMap.mp htx
      exact (h c hc).2 tx htx

theorem AllIn.set (h : AllIn P conflicts) {c : Conflict} (hc : AllIn P [c]) (i : Nat) :
    AllIn P (conflicts.set i c) := by
  intro c' hc'
  obtain hm | rfl := List.mem_or_eq_of_mem_set hc'
  · exact h c' hm
  · exact hc c' (List.mem_singleton_self c')

theorem AllIn.modify (h : AllIn P conflicts) {f : Conflict → Conflict}
    (hf : ∀ c ∈ conflicts, AllIn P [f c]) (i : Nat) : AllIn P (conflicts.modify i f) := by
  intro c hc
  obtain ⟨j, hj⟩ := List.mem_iff_getElem?.mp hc
  rw [List.getElem?_modify] at hj
  obtain ⟨old, hold, rfl⟩ := Option.map_eq_some_iff.mp hj
  have hm : old ∈ conflicts := List.mem_of_getElem? hold
  by_cases hij : i = j
  · rw [if_pos hij]
    exact hf old hm (f old) (List.mem_singleton_self _)
  · rw [if_neg hij]
    exact h old hm

theorem allIn_addConflict (h : AllIn P conflicts) (ht : P t) (hb : P b) (co : OutPoint) :
    AllIn P (addConflict conflicts t b co) := by
  unfold addConflict
  dsimp only
  intro c hc
  refine (?_ : AllIn P _) c (List.mem_of_mem_filter hc)
  have hmem : ∀ e ∈ existingConflicts conflicts t b, e.2 ∈ conflicts :=
    fun e he => mem_of_existingConflicts he
  cases hx : existingConflicts conflicts t b with
  | nil =>
    intro c' hc'
    obtain hc' | hc' := List.mem_append.mp hc'
    · exact h c' hc'
    · obtain rfl := List.mem_singleton.mp hc'
      simp [ht, hb]
  | cons e rest =>
    rw [hx] at hmem
    cases rest with
    | nil =>
      refine h.modify (fun old hold c' hc' => ?_) _
      obtain rfl := List.mem_singleton.mp hc'
      constructor
      · intro tx htx
        obtain htx | rfl := mem_pushNew.mp htx
        · exact (h old hold).1 tx htx
        · exact ht
      · intro tx htx
        obtain htx | rfl := mem_pushNew.mp htx
        · exact (h old hold).2 tx htx
        · exact hb
    | cons e' rest =>
      refine AllIn.set ?_ (allIn_mergeConflicts ?_ ht hb co) _
      · refine List.foldlRecOn (motive := AllIn P) (e' :: rest) _ h (fun cs hcs e _ => hcs.set ?_ _)
        simp [AllIn]
      · intro c' hc'
        obtain ⟨e₁, he₁, rfl⟩ : ∃ e₁ ∈ e :: e' :: rest, e₁.2 = c' := List.mem_map.mp hc'
        exact h _ (hmem e₁ he₁)

def members (c : Conflict) : List TxInfo := c.templateTransactions ++ c.blockTransactions

/-- A transaction with this id is in some conflict. -/
def Mentions (conflicts : List Conflict) (txid : Txid) : Prop :=
  ∃ c ∈ conflicts, ∃ tx ∈ members c, tx.txid = txid

/-- A conflict without template transactions is one that has been emptied. -/
def Tidy (conflicts : List Conflict) : Prop :=
  ∀ c ∈ conflicts, c.templateTransactions = [] → c.blockTransactions = []

theorem mentions_filter (ht : Tidy conflicts) {txid : Txid} (h : Mentions conflicts txid) :
    Mentions (conflicts.filter (fun c => !c.templateTransactions.isEmpty)) txid := by
  obtain ⟨c, hc, tx, htx, hid⟩ := h
  refine ⟨c, List.mem_filter.mpr ⟨hc, ?_⟩, tx, htx, hid⟩
  cases hl : c.templateTransactions with
  | nil => simp [members, hl, ht c hc hl] at htx
  | cons _ _ => rfl

theorem mentions_mergeConflicts {existing : List Conflict} {co : OutPoint} {txid : Txid}
    (h : Mentions existing txid ∨ txid = t.txid ∨ txid = b.txid) :
    ∃ tx ∈ members (mergeConflicts existing t b co), tx.txid = txid := by
  let ts := t :: existing.flatMap (fun c => c.templateTransactions)
  let bs := b :: existing.flatMap (fun c => c.blockTransactions)
  have hts : ∀ tx ∈ ts, ∃ tx' ∈ members (mergeConflicts existing t b co), tx'.txid = tx.txid := by
    intro tx htx
    obtain ⟨tx', htx', hid⟩ := exists_mem_sortDedupTransactions htx
    exact ⟨tx', List.mem_append_left _ htx', hid⟩
  have hbs : ∀ tx ∈ bs, ∃ tx' ∈ members (mergeConflicts existing t b co), tx'.txid = tx.txid := by
    intro tx htx
    obtain ⟨tx', htx', hid⟩ := exists_mem_sortDedupTransactions htx
    exact ⟨tx', List.mem_append_right _ htx', hid⟩
  obtain ⟨c, hc, tx, htx, rfl⟩ | rfl | rfl := h
  · obtain htx | htx := List.mem_append.mp htx
    · exact hts tx (List.mem_cons_of_mem _ (List.mem_flatMap.mpr ⟨c, hc, htx⟩))
    · exact hbs tx (List.mem_cons_of_mem _ (List.mem_flatMap.mpr ⟨c, hc, htx⟩))
  · exact hts t List.mem_cons_self
  · exact hbs b List.mem_cons_self

/-- Only the conflicts at the given positions are emptied. -/
theorem getElem?_emptied {rest : List (Nat × Conflict)} {j : Nat} (h : ∀ e ∈ rest, e.1 ≠ j) :
    (rest.foldl (fun cs e => cs.set e.1 ⟨[], [], []⟩) conflicts)[j]? = conflicts[j]? := by
  induction rest generalizing conflicts with
  | nil => rfl
  | cons e rest ih =>
    rw [List.foldl_cons, ih (fun e' he' => h e' (List.mem_cons_of_mem _ he')),
      List.getElem?_set_ne (h e List.mem_cons_self)]

theorem length_emptied (rest : List (Nat × Conflict)) :
    (rest.foldl (fun cs e => cs.set e.1 ⟨[], [], []⟩) conflicts).length = conflicts.length := by
  induction rest generalizing conflicts with
  | nil => rfl
  | cons e rest ih => rw [List.foldl_cons, ih, List.length_set]

theorem Tidy.set (h : Tidy conflicts) {c : Conflict}
    (hc : c.templateTransactions = [] → c.blockTransactions = []) (i : Nat) :
    Tidy (conflicts.set i c) := by
  intro c' hc'
  obtain hm | rfl := List.mem_or_eq_of_mem_set hc'
  · exact h c' hm
  · exact hc

/-- The updated conflicts have lost no transaction, and hold the two new ones. -/
structure Absorbs (conflicts : List Conflict) (t b : TxInfo) (updated : List Conflict) : Prop where
  tidy : Tidy updated
  mentions : ∀ txid, Mentions conflicts txid ∨ txid = t.txid ∨ txid = b.txid →
    Mentions updated txid

theorem absorbs_opened (hc : Tidy conflicts) (co : OutPoint) :
    Absorbs conflicts t b (conflicts ++ [⟨[t], [b], [co]⟩]) := by
  have hnew : (⟨[t], [b], [co]⟩ : Conflict) ∈ conflicts ++ [⟨[t], [b], [co]⟩] := by simp
  refine ⟨fun c hm => ?_, fun txid h => ?_⟩
  · obtain hm | hm := List.mem_append.mp hm
    · exact hc c hm
    · obtain rfl := List.mem_singleton.mp hm
      exact fun hn => by cases hn
  · obtain ⟨c, hm, tx, htx, hid⟩ | rfl | rfl := h
    · exact ⟨c, List.mem_append_left _ hm, tx, htx, hid⟩
    · exact ⟨_, hnew, t, by simp [members], rfl⟩
    · exact ⟨_, hnew, b, by simp [members], rfl⟩

def extended (t b : TxInfo) (co : OutPoint) (c : Conflict) : Conflict :=
  ⟨pushNew c.templateTransactions t, pushNew c.blockTransactions b,
    pushNew c.conflictingOutpoints co⟩

theorem mem_members_extended {c : Conflict} {co : OutPoint} {tx : TxInfo} :
    tx ∈ members (extended t b co c) ↔ tx ∈ members c ∨ tx = t ∨ tx = b := by
  simp only [members, extended, List.mem_append, mem_pushNew]
  tauto

theorem absorbs_extended (hc : Tidy conflicts) {i : Nat} {c : Conflict}
    (hi : conflicts[i]? = some c) (co : OutPoint) :
    Absorbs conflicts t b (conflicts.modify i (extended t b co)) := by
  have hget : ∀ j, (conflicts.modify i (extended t b co))[j]? =
      (fun a => if i = j then extended t b co a else a) <$> conflicts[j]? :=
    fun j => List.getElem?_modify ..
  have hnew : extended t b co c ∈ conflicts.modify i (extended t b co) :=
    List.mem_of_getElem? (i := i) (by rw [hget, hi]; simp)
  refine ⟨fun c' hm hn => ?_, fun txid h => ?_⟩
  · obtain ⟨j, hj⟩ := List.mem_iff_getElem?.mp hm
    rw [hget] at hj
    obtain ⟨old, hold, rfl⟩ := Option.map_eq_some_iff.mp hj
    by_cases hij : i = j
    · have ht : t ∈ pushNew old.templateTransactions t := mem_pushNew.mpr (.inr rfl)
      simp only [hij, if_true, extended] at hn
      rw [hn] at ht
      cases ht
    · simp only [hij, if_false] at hn ⊢
      exact hc old (List.mem_of_getElem? hold) hn
  · obtain ⟨c', hm, tx, htx, hid⟩ | rfl | rfl := h
    · obtain ⟨j, hj⟩ := List.mem_iff_getElem?.mp hm
      by_cases hij : i = j
      · subst hij
        obtain rfl := Option.some.inj (hi.symm.trans hj)
        exact ⟨_, hnew, tx, mem_members_extended.mpr (.inl htx), hid⟩
      · exact ⟨c', List.mem_of_getElem? (i := j) (by rw [hget, hj]; simp [hij]), tx, htx, hid⟩
    · exact ⟨_, hnew, t, mem_members_extended.mpr (.inr (.inl rfl)), rfl⟩
    · exact ⟨_, hnew, b, mem_members_extended.mpr (.inr (.inr rfl)), rfl⟩

theorem absorbs_merged (hc : Tidy conflicts) {e : Nat × Conflict} {rest : List (Nat × Conflict)}
    (hget : ∀ e' ∈ e :: rest, conflicts[e'.1]? = some e'.2) (co : OutPoint) :
    Absorbs conflicts t b
      ((rest.foldl (fun cs e => cs.set e.1 ⟨[], [], []⟩) conflicts).set e.1
        (mergeConflicts (e.2 :: rest.map Prod.snd) t b co)) := by
  let emptied := rest.foldl (fun cs e => cs.set e.1 ⟨[], [], []⟩) conflicts
  let new := mergeConflicts (e.2 :: rest.map Prod.snd) t b co
  have hlt : e.1 < emptied.length := by
    rw [length_emptied]
    exact (List.getElem?_eq_some_iff.mp (hget e List.mem_cons_self)).1
  have hnew : new ∈ emptied.set e.1 new := List.mem_set hlt new
  have hmentions : ∀ txid, Mentions ((e :: rest).map Prod.snd) txid ∨ txid = t.txid ∨
    txid = b.txid → Mentions (emptied.set e.1 new) txid :=
    fun txid h => ⟨new, hnew, mentions_mergeConflicts h⟩
  refine ⟨Tidy.set ?_ (fun hn => ?_) e.1, fun txid h => ?_⟩
  · refine List.foldlRecOn (motive := Tidy) rest _ hc (fun cs hcs e' _ => hcs.set ?_ _)
    exact fun _ => rfl
  · let ts := t :: (e.2 :: rest.map Prod.snd).flatMap (fun c => c.templateTransactions)
    obtain ⟨tx, htx, -⟩ : ∃ tx ∈ sortDedupTransactions ts, tx.txid = t.txid :=
      exists_mem_sortDedupTransactions List.mem_cons_self
    have hn' : sortDedupTransactions ts = [] := hn
    rw [hn'] at htx
    cases htx
  · obtain ⟨c, hm, tx, htx, hid⟩ | h := h
    · obtain ⟨j, hj⟩ := List.mem_iff_getElem?.mp hm
      by_cases hex : ∃ e' ∈ e :: rest, e'.1 = j
      · obtain ⟨e', he', rfl⟩ := hex
        obtain rfl := Option.some.inj (hj.symm.trans (hget e' he'))
        exact hmentions txid (.inl ⟨_, List.mem_map_of_mem he', tx, htx, hid⟩)
      · -- a conflict that is not merged stays where it was
        push Not at hex
        have hj' : (emptied.set e.1 new)[j]? = some c := by
          rw [List.getElem?_set_ne (hex e List.mem_cons_self),
            getElem?_emptied (fun e' he' => hex e' (List.mem_cons_of_mem _ he')), hj]
        exact ⟨c, List.mem_of_getElem? hj', tx, htx, hid⟩
    · exact hmentions txid (.inr h)

/-- No transaction is lost when conflicts are extended or merged. -/
theorem mentions_addConflict (hc : Tidy conflicts) {co : OutPoint} {txid : Txid}
    (h : Mentions conflicts txid ∨ txid = t.txid ∨ txid = b.txid) :
    Mentions (addConflict conflicts t b co) txid := by
  have hget : ∀ e ∈ existingConflicts conflicts t b, conflicts[e.1]? = some e.2 :=
    fun e he => getElem?_of_existingConflicts he
  have habsorbs : ∀ {updated : List Conflict}, Absorbs conflicts t b updated →
      Mentions (updated.filter (fun c => !c.templateTransactions.isEmpty)) txid :=
    fun ha => mentions_filter ha.tidy (ha.mentions txid h)
  unfold addConflict
  dsimp only
  cases hx : existingConflicts conflicts t b with
  | nil => exact habsorbs (absorbs_opened hc co)
  | cons e rest =>
    rw [hx] at hget
    cases rest with
    | nil => exact habsorbs (absorbs_extended hc (hget e List.mem_cons_self) co)
    | cons e' rest => exact habsorbs (absorbs_merged hc hget co)

theorem tidy_addConflict (conflicts : List Conflict) (t b : TxInfo) (co : OutPoint) :
    Tidy (addConflict conflicts t b co) := by
  intro c hc hn
  have hf := (List.mem_filter.mp hc).2
  simp [hn] at hf

def spends (txInfo : TxInfo) : List OutPoint := txInfo.tx.input.map (fun i => i.previousOutput)

/-- The outpoints that some transactions spend, each with one that spends it. -/
def outpointsOf (infos : List TxInfo) : Outpoints :=
  infos.foldl (fun acc txInfo => txInfo.tx.input.foldl (Outpoints.add txInfo) acc)
    ⟨HashSet.empty, HashMap.empty⟩

theorem spentOutpoints_eq_ok {txids : List Txid} {txidToTxinfoMap : HashMap Txid TxInfo}
    {o : Outpoints} (h : spentOutpoints txids txidToTxinfoMap = .ok o) :
    ∃ infos, Looked txidToTxinfoMap txids infos ∧ o = outpointsOf infos := by
  obtain ⟨infos, hl, rfl⟩ := foldlM_eq_ok (g := lookup txidToTxinfoMap)
    (s := fun acc _ txInfo => txInfo.tx.input.foldl (Outpoints.add txInfo) acc) (fun _ _ => rfl) h
  refine ⟨infos, hl, ?_⟩
  conv_rhs => rw [outpointsOf, ← List.map_snd_zip hl.length_eq.ge, List.foldl_map]

theorem mem_foldl_add {inputs : List TxIn} {o : Outpoints} {co : OutPoint} :
    co ∈ (inputs.foldl (Outpoints.add t) o).outpoints ↔
      co ∈ o.outpoints ∨ co ∈ inputs.map (fun i => i.previousOutput) := by
  induction inputs generalizing o with
  | nil => simp
  | cons input inputs ih =>
    rw [List.foldl_cons, ih, Outpoints.add, HashSet.mem_insert, List.map_cons, List.mem_cons,
      or_assoc]

theorem get?_foldl_add {inputs : List TxIn} {o : Outpoints} {co : OutPoint} {txInfo : TxInfo}
    (h : (inputs.foldl (Outpoints.add t) o).toTxinfo.get? co = some txInfo) :
    o.toTxinfo.get? co = some txInfo ∨
      txInfo = t ∧ co ∈ inputs.map (fun i => i.previousOutput) := by
  induction inputs generalizing o with
  | nil => exact .inl h
  | cons input inputs ih =>
    obtain h | ⟨rfl, hm⟩ := ih h
    · rw [Outpoints.add, HashMap.get?_insert] at h
      by_cases hco : co = input.previousOutput
      · rw [if_pos hco] at h
        cases h
        exact .inr ⟨rfl, by simp [hco]⟩
      · rw [if_neg hco] at h
        exact .inl h
    · exact .inr ⟨rfl, List.mem_cons_of_mem _ hm⟩

/-- Exactly these outpoints are spent, and a transaction found for one is among those. -/
structure SpentBy (infos : List TxInfo) (o : Outpoints) : Prop where
  mem : ∀ co, co ∈ o.outpoints ↔ ∃ txInfo ∈ infos, co ∈ spends txInfo
  found : ∀ co txInfo, o.toTxinfo.get? co = some txInfo → txInfo ∈ infos ∧ co ∈ spends txInfo

theorem spentBy_outpointsOf (infos : List TxInfo) : SpentBy infos (outpointsOf infos) := by
  induction infos using List.reverseRecOn with
  | nil => exact ⟨fun co => by simp [outpointsOf, HashSet.empty, HashSet.mem_def],
      fun co txInfo h => by cases h⟩
  | append_singleton infos t ih =>
    have hsnoc : outpointsOf (infos ++ [t]) =
        t.tx.input.foldl (Outpoints.add t) (outpointsOf infos) := by
      rw [outpointsOf, List.foldl_append]
      rfl
    rw [hsnoc]
    refine ⟨fun co => ?_, fun co txInfo h => ?_⟩
    · rw [mem_foldl_add, ih.mem]
      simp [or_and_right, exists_or, spends]
    · obtain h | ⟨rfl, hm⟩ := get?_foldl_add h
      · obtain ⟨hi, hs⟩ := ih.found co txInfo h
        exact ⟨List.mem_append_left _ hi, hs⟩
      · exact ⟨by simp, hm⟩

/-- The outpoints that both sides spend, with a transaction of either side that spends them. -/
structure Meets (ts bs : List TxInfo) (found : List (OutPoint × TxInfo × TxInfo)) : Prop where
  template : ∀ p ∈ found, p.2.1 ∈ ts ∧ p.1 ∈ spends p.2.1
  block : ∀ p ∈ found, p.2.2 ∈ bs ∧ p.1 ∈ spends p.2.2
  complete : ∀ co, (∃ t ∈ ts, co ∈ spends t) → (∃ b ∈ bs, co ∈ spends b) →
    ∃ p ∈ found, p.1 = co

def grouped (found : List (OutPoint × TxInfo × TxInfo)) : List Conflict :=
  found.foldl (fun conflicts p => addConflict conflicts p.2.1 p.2.2 p.1) []

theorem allIn_grouped {found : List (OutPoint × TxInfo × TxInfo)}
    (h : ∀ p ∈ found, P p.2.1 ∧ P p.2.2) : AllIn P (grouped found) :=
  List.foldlRecOn (motive := AllIn P) found _ (fun c hc => by cases hc)
    (fun _ hcs p hp => allIn_addConflict hcs (h p hp).1 (h p hp).2 p.1)

theorem tidy_grouped (found : List (OutPoint × TxInfo × TxInfo)) : Tidy (grouped found) :=
  List.foldlRecOn (motive := Tidy) found _ (fun c hc => by cases hc)
    (fun _ _ _ _ => tidy_addConflict _ _ _ _)

theorem mentions_grouped {found : List (OutPoint × TxInfo × TxInfo)}
    {p : OutPoint × TxInfo × TxInfo} (hp : p ∈ found) :
    Mentions (grouped found) p.2.1.txid ∧ Mentions (grouped found) p.2.2.txid := by
  induction found using List.reverseRecOn with
  | nil => cases hp
  | append_singleton found q ih =>
    have hsnoc : grouped (found ++ [q]) = addConflict (grouped found) q.2.1 q.2.2 q.1 := by
      rw [grouped, List.foldl_append]
      rfl
    have htidy : Tidy (grouped found) := tidy_grouped found
    rw [hsnoc]
    obtain hp | hp := List.mem_append.mp hp
    · obtain ⟨h₁, h₂⟩ := ih hp
      exact ⟨mentions_addConflict htidy (.inl h₁), mentions_addConflict htidy (.inl h₂)⟩
    · obtain rfl := List.mem_singleton.mp hp
      exact ⟨mentions_addConflict htidy (.inr (.inl rfl)),
        mentions_addConflict htidy (.inr (.inr rfl))⟩

theorem findOutpoint_eq_ok {toTxinfo : HashMap OutPoint TxInfo} {co : OutPoint}
    {txInfo : TxInfo} (h : findOutpoint toTxinfo co = .ok txInfo) :
    toTxinfo.get? co = some txInfo := by
  unfold findOutpoint at h
  cases hg : toTxinfo.get? co with
  | none =>
    rw [hg] at h
    cases h
  | some i =>
    rw [hg] at h
    cases h
    rfl

variable {lib : Crates} {rs : RandomState} {utxoMap : UtxoMap} {addresses : HashSet String}

theorem foldl_members (conflicts : List Conflict) (m : TransactionMap) :
    conflicts.foldl (fun transactions conflict =>
      conflict.blockTransactions.foldl
        (fun m txInfo => buildAndAdd lib rs txInfo true utxoMap addresses m)
        (conflict.templateTransactions.foldl
          (fun m txInfo => buildAndAdd lib rs txInfo true utxoMap addresses m) transactions)) m =
      addEach (built lib rs utxoMap addresses (flagged true (conflicts.flatMap members))) m := by
  rw [← foldl_flagged, List.foldl_flatMap]
  simp only [members, List.foldl_append]

/-- The conflicts of both sides, with their rows and the transactions that are added. -/
theorem buildConflictingTransactions_eq_ok {blockId : Int64}
    {txidsOnlyInTemplate txidsOnlyInBlock : HashSet Txid}
    {templateTxidToTxinfoMap blockTxidToTxinfoMap : HashMap Txid TxInfo} {m : TransactionMap}
    {r : List SharedModel.ConflictingTransaction × TransactionMap}
    (h : buildConflictingTransactions lib rs blockId txidsOnlyInTemplate templateTxidToTxinfoMap
      txidsOnlyInBlock blockTxidToTxinfoMap m utxoMap addresses = .ok r) :
    ∃ ts bs found, Looked templateTxidToTxinfoMap (txidsOnlyInTemplate.iter rs) ts ∧
      Looked blockTxidToTxinfoMap (txidsOnlyInBlock.iter rs) bs ∧ Meets ts bs found ∧
      r.1 = (grouped found).map (conflictRow blockId) ∧
      r.2 = addEach (built lib rs utxoMap addresses
        (flagged true ((grouped found).flatMap members))) m := by
  obtain ⟨template, htemplate, h⟩ := bind_eq_ok.mp h
  obtain ⟨block, hblock, h⟩ := bind_eq_ok.mp h
  obtain ⟨conflicts, hconflicts, h⟩ := bind_eq_ok.mp h
  cases h
  obtain ⟨ts, hts, rfl⟩ := spentOutpoints_eq_ok htemplate
  obtain ⟨bs, hbs, rfl⟩ := spentOutpoints_eq_ok hblock
  have ht := spentBy_outpointsOf ts
  have hb := spentBy_outpointsOf bs
  let find := fun co => do
    let templateTransaction ← findOutpoint (outpointsOf ts).toTxinfo co
    let blockTransaction ← findOutpoint (outpointsOf bs).toTxinfo co
    pure (templateTransaction, blockTransaction)
  obtain ⟨pairs, hpairs, rfl⟩ := foldlM_eq_ok (g := find)
    (s := fun conflicts co p => addConflict conflicts p.1 p.2 co) (fun conflicts co => by
      dsimp only [find]
      cases findOutpoint (outpointsOf ts).toTxinfo co with
      | error e => rfl
      | ok t => cases findOutpoint (outpointsOf bs).toTxinfo co <;> rfl) hconflicts
  obtain ⟨hlen, hzip⟩ := List.forall₂_iff_zip.mp hpairs
  let cos := ((outpointsOf ts).outpoints.intersection (outpointsOf bs).outpoints).iter rs
  have hfound : ∀ p ∈ cos.zip pairs, (outpointsOf ts).toTxinfo.get? p.1 = some p.2.1 ∧
      (outpointsOf bs).toTxinfo.get? p.1 = some p.2.2 := by
    intro p hp
    obtain ⟨t, h₁, hp'⟩ := bind_eq_ok.mp (hzip hp)
    obtain ⟨b, h₂, hp'⟩ := bind_eq_ok.mp hp'
    have hpair : p.2 = (t, b) := (Except.ok.inj hp').symm
    rw [hpair]
    exact ⟨findOutpoint_eq_ok h₁, findOutpoint_eq_ok h₂⟩
  refine ⟨ts, bs, cos.zip pairs, hts, hbs, ⟨fun p hp => ?_, fun p hp => ?_, fun co h₁ h₂ => ?_⟩,
    rfl, foldl_members _ _⟩
  · exact ht.found p.1 p.2.1 (hfound p hp).1
  · exact hb.found p.1 p.2.2 (hfound p hp).2
  · have hco : co ∈ cos := HashSet.mem_iter.mpr
      (HashSet.mem_intersection.mpr ⟨(ht.mem co).mpr h₁, (hb.mem co).mpr h₂⟩)
    have hmap : (cos.zip pairs).map Prod.fst = cos := List.map_fst_zip hlen.le
    have hm : co ∈ (cos.zip pairs).map Prod.fst := hmap.symm ▸ hco
    exact List.mem_map.mp hm

theorem exists_spentOutpoints {txids : List Txid} {m : HashMap Txid TxInfo}
    (h : ∀ txid ∈ txids, ∃ txInfo, lookup m txid = .ok txInfo) :
    ∃ o, spentOutpoints txids m = .ok o := by
  refine exists_foldlM_eq_ok (fun txid ht acc => ?_) _
  obtain ⟨txInfo, hi⟩ := h txid ht
  exact ⟨_, by rw [hi]; rfl⟩

/-- Each outpoint in the set has an entry in the map. -/
theorem containsKey_outpointsOf (infos : List TxInfo) : ∀ co ∈ (outpointsOf infos).outpoints,
    (outpointsOf infos).toTxinfo.containsKey co = true := by
  let Keyed := fun (o : Outpoints) => ∀ co ∈ o.outpoints, o.toTxinfo.containsKey co = true
  refine List.foldlRecOn (motive := Keyed) infos _ (fun co hco => ?_) (fun o ho txInfo _ => ?_)
  · exact absurd hco HashSet.not_mem_empty
  · refine List.foldlRecOn (motive := Keyed) txInfo.tx.input _ ho (fun o ho input _ co hco => ?_)
    obtain hco | rfl := HashSet.mem_insert.mp hco
    · exact HashMap.containsKey_insert.mpr (.inl (ho co hco))
    · exact HashMap.containsKey_insert.mpr (.inr rfl)

theorem exists_findOutpoint {o : Outpoints} {co : OutPoint}
    (h : o.toTxinfo.containsKey co = true) : ∃ txInfo, findOutpoint o.toTxinfo co = .ok txInfo := by
  obtain ⟨txInfo, hg⟩ := Option.isSome_iff_exists.mp h
  exact ⟨txInfo, by rw [findOutpoint, hg]⟩

/-- When each id of either side has an entry in its map, no lookup fails. -/
theorem exists_buildConflictingTransactions {blockId : Int64}
    {txidsOnlyInTemplate txidsOnlyInBlock : HashSet Txid}
    {templateTxidToTxinfoMap blockTxidToTxinfoMap : HashMap Txid TxInfo} {m : TransactionMap}
    (ht : ∀ txid ∈ txidsOnlyInTemplate, ∃ txInfo, lookup templateTxidToTxinfoMap txid = .ok txInfo)
    (hb : ∀ txid ∈ txidsOnlyInBlock, ∃ txInfo, lookup blockTxidToTxinfoMap txid = .ok txInfo) :
    ∃ r, buildConflictingTransactions lib rs blockId txidsOnlyInTemplate templateTxidToTxinfoMap
      txidsOnlyInBlock blockTxidToTxinfoMap m utxoMap addresses = .ok r := by
  refine exists_bind_eq_ok (exists_spentOutpoints (fun txid hm => ht txid
    (HashSet.mem_iter.mp hm))) (fun template ht => ?_)
  refine exists_bind_eq_ok (exists_spentOutpoints (fun txid hm => hb txid
    (HashSet.mem_iter.mp hm))) (fun block hb => ?_)
  obtain ⟨ts, -, rfl⟩ := spentOutpoints_eq_ok ht
  obtain ⟨bs, -, rfl⟩ := spentOutpoints_eq_ok hb
  refine exists_bind_eq_ok (exists_foldlM_eq_ok (fun co hco conflicts => ?_) _)
    (fun conflicts _ => ⟨_, rfl⟩)
  obtain ⟨hcot, hcob⟩ := HashSet.mem_intersection.mp (HashSet.mem_iter.mp hco)
  obtain ⟨t, hft⟩ := exists_findOutpoint (containsKey_outpointsOf ts co hcot)
  obtain ⟨b, hfb⟩ := exists_findOutpoint (containsKey_outpointsOf bs co hcob)
  exact ⟨_, by rw [hft, hfb]; rfl⟩

end MiningpoolObserver.Processing.ConflictSets
