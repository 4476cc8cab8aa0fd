import MiningpoolObserver.Library.Components
import MiningpoolObserver.Processing.ConflictSets

namespace MiningpoolObserver.Processing.ConflictGroups

open MiningpoolObserver.Library.Components MiningpoolObserver.Library.MergedLists
open MiningpoolObserver.Bitcoin MiningpoolObserver.DaemonModel
open MiningpoolObserver.Processing.Conflicts MiningpoolObserver.Processing.ConflictSets

variable {conflicts : List Conflict} {t b : TxInfo} {co : OutPoint} {P Q : TxInfo → Prop}

/-- The conflict holds one of the two transactions on its side. -/
def touches (t b : TxInfo) (c : Conflict) : Bool :=
  decide (t ∈ c.templateTransactions) || decide (b ∈ c.blockTransactions)

/-- The conflict that one round makes of those that hold one of its transactions. -/
def joined (t b : TxInfo) (co : OutPoint) : List Conflict → Conflict
  | [] => ⟨[t], [b], [co]⟩
  | [c] => extended t b co c
  | existing => mergeConflicts existing t b co

section Positions

variable {α : Type} {p : α → Bool}

theorem set_length_append (pre post : List α) (a x : α) :
    (pre ++ a :: post).set pre.length x = pre ++ x :: post := by
  rw [List.set_append_right _ _ le_rfl, Nat.sub_self, List.set_cons_zero]

theorem modify_length_append (pre post : List α) (a : α) (f : α → α) :
    (pre ++ a :: post).modify pre.length f = pre ++ f a :: post := by
  rw [List.modify_eq_set_getElem?, List.getElem?_append_right le_rfl, Nat.sub_self]
  exact set_length_append pre post a (f a)

/-- Overwriting the members with a property, which lie behind some others. -/
theorem foldl_set_filter (x : α) (pre post : List α) :
    ((post.zipIdx pre.length).filter (fun e => p e.1)).foldl (fun l e => l.set e.2 x)
        (pre ++ post) = pre ++ post.map (fun a => if p a then x else a) := by
  induction post generalizing pre with
  | nil => rfl
  | cons a post ih =>
    have happend : ∀ a : α, pre ++ a :: post = (pre ++ [a]) ++ post := fun a =>
      (List.append_assoc pre [a] post).symm
    have hlen : ∀ a : α, (pre ++ [a]).length = pre.length + 1 := fun a => List.length_append
    rw [List.zipIdx_cons, List.filter_cons, List.map_cons]
    by_cases ha : p a = true
    · have hset : (pre ++ a :: post).set pre.length x = (pre ++ [x]) ++ post := by
        rw [set_length_append, happend]
      rw [if_pos ha, if_pos ha, List.foldl_cons, hset, ← hlen x, ih, List.append_assoc]
      rfl
    · rw [if_neg ha, if_neg ha, happend, ← hlen a, ih, List.append_assoc]
      rfl

/-- The first member with a property, and what lies around it. -/
theorem exists_split {l : List α} {a : α} {i : Nat} {rest : List (α × Nat)}
    (h : l.zipIdx.filter (fun e => p e.1) = (a, i) :: rest) :
    ∃ pre post, l = pre ++ a :: post ∧ i = pre.length ∧ (∀ x ∈ pre, p x = false) ∧ p a = true ∧
      rest = (post.zipIdx (pre.length + 1)).filter (fun e => p e.1) := by
  obtain ⟨l₁, l₂, hl, hpre, ha, hrest⟩ := List.filter_eq_cons_iff.mp h
  obtain ⟨pre, l₂', rfl, rfl, hl₂⟩ := List.zipIdx_eq_append_iff.mp hl
  obtain ⟨a', post, rfl, hai, rfl⟩ := List.zipIdx_eq_cons_iff.mp hl₂.symm
  cases hai
  refine ⟨pre, post, rfl, Nat.zero_add _, fun x hx => ?_, ha, by rw [← hrest, Nat.zero_add]⟩
  obtain ⟨j, hj⟩ := List.mem_iff_getElem?.mp hx
  exact Bool.eq_false_iff.mpr (hpre (x, j) (List.mk_mem_zipIdx_iff_getElem?.mpr hj))

end Positions

/-- A conflict that has not been found yet is found when it holds one of the two transactions. -/
theorem scan_step {existing : List (Nat × Conflict)} {c : Conflict} (i : Nat)
    (hc : c ∉ existing.map Prod.snd) :
    (let existing :=
      if t ∈ c.templateTransactions && c ∉ existing.map Prod.snd then
        existing ++ [(i, c)] else existing
    if b ∈ c.blockTransactions && c ∉ existing.map Prod.snd then
      existing ++ [(i, c)] else existing) =
      if touches t b c then existing ++ [(i, c)] else existing := by
  by_cases ht : t ∈ c.templateTransactions
  · simp [touches, ht, hc]
  · simp [touches, ht, hc]

/-- Among conflicts none of which is another one, the scan finds those that hold one of the two
transactions. -/
theorem existingConflicts_eq_filter (hnd : conflicts.Nodup) : existingConflicts conflicts t b =
    (conflicts.zipIdx.filter (fun e => touches t b e.1)).map Prod.swap := by
  have hscan : ∀ (l : List (Conflict × Nat)) (existing : List (Nat × Conflict)),
      (l.map Prod.fst).Nodup → (∀ c ∈ l.map Prod.fst, c ∉ existing.map Prod.snd) →
      l.foldl (fun existing e =>
        let existing :=
          if t ∈ e.1.templateTransactions && e.1 ∉ existing.map Prod.snd then
            existing ++ [(e.2, e.1)] else existing
        if b ∈ e.1.blockTransactions && e.1 ∉ existing.map Prod.snd then
          existing ++ [(e.2, e.1)] else existing) existing =
        existing ++ (l.filter (fun e => touches t b e.1)).map Prod.swap := by
    intro l
    induction l with
    | nil => exact fun existing _ _ => (List.append_nil existing).symm
    | cons e l ih =>
      obtain ⟨c, i⟩ := e
      intro existing hnd hnew
      rw [List.map_cons, List.nodup_cons] at hnd
      have hnew' : ∀ c' ∈ l.map Prod.fst, c' ∉ existing.map Prod.snd :=
        fun c' hc' => hnew c' (List.mem_cons_of_mem _ hc')
      have hadded : ∀ c' ∈ l.map Prod.fst, c' ∉ (existing ++ [(i, c)]).map Prod.snd := by
        intro c' hc' hm
        rw [List.map_append, List.mem_append] at hm
        obtain hm | hm := hm
        · exact hnew' c' hc' hm
        · obtain rfl : c' = c := List.mem_singleton.mp hm
          exact hnd.1 hc'
      rw [List.foldl_cons, scan_step i (hnew c List.mem_cons_self), List.filter_cons]
      cases touches t b c with
      | true =>
        rw [if_pos rfl, if_pos rfl, ih _ hnd.2 hadded, List.map_cons, List.append_assoc]
        rfl
      | false => exact ih _ hnd.2 hnew'
  refine (hscan conflicts.zipIdx [] ?_ ?_).trans (List.nil_append _)
  · rwa [List.zipIdx_map_fst]
  · exact fun _ _ => List.not_mem_nil

theorem templateTransactions_joined_ne_nil (existing : List Conflict) :
    (joined t b co existing).templateTransactions ≠ [] := by
  match existing with
  | [] => exact List.cons_ne_nil _ _
  | [c] => exact List.ne_nil_of_mem (mem_pushNew.mpr (.inr (rfl : t = t)))
  | c :: d :: existing =>
    let ts := t :: (c :: d :: existing).flatMap (fun c => c.templateTransactions)
    obtain ⟨tx, htx, -⟩ : ∃ tx ∈ sortDedupTransactions ts, tx.txid = t.txid :=
      exists_mem_sortDedupTransactions List.mem_cons_self
    exact List.ne_nil_of_mem htx

theorem filter_emptied (hne : ∀ c ∈ conflicts, c.templateTransactions ≠ []) :
    (conflicts.map (fun c => if touches t b c then ⟨[], [], []⟩ else c)).filter
      (fun c => !c.templateTransactions.isEmpty) = conflicts.filter (fun c => !touches t b c) := by
  induction conflicts with
  | nil => rfl
  | cons c conflicts ih =>
    have hc : c.templateTransactions ≠ [] := hne c List.mem_cons_self
    rw [List.map_cons, List.filter_cons, List.filter_cons,
      ih (fun c' hc' => hne c' (List.mem_cons_of_mem c hc'))]
    cases touches t b c <;> simp [hc]

theorem filter_emptied_split {pre post : List Conflict} {j : Conflict}
    (hpre : ∀ d ∈ pre, d.templateTransactions ≠ [])
    (hpost : ∀ d ∈ post, d.templateTransactions ≠ []) (hj : j.templateTransactions ≠ []) :
    (pre ++ j :: post.map (fun c => if touches t b c then ⟨[], [], []⟩ else c)).filter
      (fun c => !c.templateTransactions.isEmpty) =
        pre ++ j :: post.filter (fun c => !touches t b c) := by
  rw [List.filter_append, List.filter_cons, filter_emptied hpost,
    List.filter_eq_self.mpr (fun d hd => by simp [hpre d hd]), if_pos (by simp [hj])]

/-- Emptying the later conflicts that are touched, by their places. -/
theorem foldl_set_emptied (pre post : List Conflict) (c : Conflict) :
    (((post.zipIdx (pre.length + 1)).filter (fun e => touches t b e.1)).map Prod.swap).foldl
      (fun cs e => cs.set e.1 ⟨[], [], []⟩) (pre ++ c :: post) =
        pre ++ c :: post.map (fun c => if touches t b c then ⟨[], [], []⟩ else c) := by
  have hset := foldl_set_filter (p := touches t b) ⟨[], [], []⟩ (pre ++ [c]) post
  rw [List.length_append, List.length_singleton, List.append_assoc, List.append_assoc] at hset
  rw [List.foldl_map]
  exact hset

theorem addConflict_of_none (hnd : conflicts.Nodup)
    (hne : ∀ c ∈ conflicts, c.templateTransactions ≠ []) (h : ∀ c ∈ conflicts, ¬ touches t b c) :
    addConflict conflicts t b co = conflicts ++ [joined t b co []] := by
  have hnone : conflicts.zipIdx.filter (fun e => touches t b e.1) = [] :=
    List.filter_eq_nil_iff.mpr (fun e he => h e.1 (List.fst_mem_of_mem_zipIdx he))
  have hexisting : existingConflicts conflicts t b = [] := by
    rw [existingConflicts_eq_filter hnd, hnone]
    rfl
  unfold addConflict
  dsimp only
  rw [hexisting]
  refine List.filter_eq_self.mpr (fun c hc => ?_)
  obtain hc | hc := List.mem_append.mp hc
  · simp [hne c hc]
  · simp [List.mem_singleton.mp hc]

/-- The first conflict that is touched becomes the joined one, the later ones go. -/
theorem addConflict_of_split {pre post : List Conflict} {c : Conflict}
    (hnd : (pre ++ c :: post).Nodup) (hne : ∀ d ∈ pre ++ c :: post, d.templateTransactions ≠ [])
    {rest : List (Conflict × Nat)}
    (hfilter : (pre ++ c :: post).zipIdx.filter (fun e => touches t b e.1) =
      (c, pre.length) :: rest)
    (hrest : rest = (post.zipIdx (pre.length + 1)).filter (fun e => touches t b e.1)) :
    addConflict (pre ++ c :: post) t b co =
      pre ++ joined t b co (c :: post.filter (touches t b)) ::
        post.filter (fun c => !touches t b c) := by
  have hvalues : rest.map Prod.fst = post.filter (touches t b) := by
    conv_rhs => rw [← List.zipIdx_map_fst (pre.length + 1) post, List.filter_map]
    rw [hrest]
    rfl
  have hpre : ∀ d ∈ pre, d.templateTransactions ≠ [] :=
    fun d hd => hne d (List.mem_append_left _ hd)
  have hpost : ∀ d ∈ post, d.templateTransactions ≠ [] :=
    fun d hd => hne d (List.mem_append_right _ (List.mem_cons_of_mem c hd))
  rw [← filter_emptied_split hpre hpost (templateTransactions_joined_ne_nil _)]
  unfold addConflict
  dsimp only
  rw [existingConflicts_eq_filter hnd, hfilter]
  congr 1
  rw [← hvalues]
  cases rest with
  | nil =>
    have hnone : ∀ d ∈ post, (if touches t b d then ⟨[], [], []⟩ else d) = d := by
      intro d hd
      have hno := List.filter_eq_nil_iff.mp (hvalues.symm : post.filter (touches t b) = []) d hd
      rw [if_neg hno]
    rw [List.map_congr_left hnone, List.map_id']
    exact modify_length_append pre post c (extended t b co)
  | cons e rest =>
    have hfold := foldl_set_emptied (t := t) (b := b) pre post c
    rw [← hrest] at hfold
    have hmerged : ((e :: rest).map Prod.swap).map Prod.snd = (e :: rest).map Prod.fst :=
      List.map_map
    change List.set (((e :: rest).map Prod.swap).foldl _ _) pre.length
      (mergeConflicts (c :: ((e :: rest).map Prod.swap).map Prod.snd) t b co) = _
    rw [hfold, hmerged, set_length_append]
    rfl

/-- One round joins the conflicts that hold one of its transactions and keeps the others. -/
theorem addConflict_perm (hnd : conflicts.Nodup)
    (hne : ∀ c ∈ conflicts, c.templateTransactions ≠ []) :
    (addConflict conflicts t b co).Perm (joined t b co (conflicts.filter (touches t b)) ::
      conflicts.filter (fun c => !touches t b c)) := by
  cases hfilter : conflicts.zipIdx.filter (fun e => touches t b e.1) with
  | nil =>
    have hnone : ∀ c ∈ conflicts, ¬ touches t b c = true := by
      intro c hc ht
      obtain ⟨i, hi⟩ := List.mem_iff_getElem?.mp hc
      exact List.filter_eq_nil_iff.mp hfilter (c, i) (List.mk_mem_zipIdx_iff_getElem?.mpr hi) ht
    rw [addConflict_of_none hnd hne hnone, List.filter_eq_nil_iff.mpr hnone,
      List.filter_eq_self.mpr (fun c hc => by simp [hnone c hc])]
    exact List.perm_append_singleton _ _
  | cons e rest =>
    obtain ⟨c, i⟩ := e
    obtain ⟨pre, post, rfl, rfl, hpre, hc, hrest⟩ := exists_split hfilter
    have hnone : pre.filter (touches t b) = [] :=
      List.filter_eq_nil_iff.mpr (fun d hd => by simp [hpre d hd])
    have hall : pre.filter (fun c => !touches t b c) = pre :=
      List.filter_eq_self.mpr (fun d hd => by simp [hpre d hd])
    rw [addConflict_of_split hnd hne hfilter hrest, List.filter_append, List.filter_append,
      List.filter_cons_of_pos hc, List.filter_cons_of_neg (by simp [hc]), hnone, hall,
      List.nil_append]
    exact List.perm_middle

section Joined

/-- Transactions with the property that have one id are one. -/
def ByTxid (P : TxInfo → Prop) : Prop := ∀ tx tx', P tx → P tx' → tx.txid = tx'.txid → tx = tx'

theorem mem_sortDedupTransactions (hP : ByTxid P) {l : List TxInfo} (hl : ∀ tx ∈ l, P tx)
    {tx : TxInfo} : tx ∈ sortDedupTransactions l ↔ tx ∈ l := by
  refine ⟨mem_of_mem_sortDedupTransactions, fun htx => ?_⟩
  obtain ⟨tx', htx', hid⟩ := exists_mem_sortDedupTransactions htx
  rwa [← hP tx' tx (hl tx' (mem_of_mem_sortDedupTransactions htx')) (hl tx htx) hid]

theorem bytes_injective : Function.Injective Hash256.bytes := by
  rintro ⟨_, _⟩ ⟨_, _⟩ rfl
  rfl

theorem nodup_sortDedupTransactions (l : List TxInfo) : (sortDedupTransactions l).Nodup := by
  have hR : ∀ a b : TxInfo, a.txid ≠ b.txid ↔ a.txid.bytes ≠ b.txid.bytes :=
    fun _ _ => bytes_injective.ne_iff.symm
  exact (nodup_map_destutter_insertionSort (q := fun bs bs' : List UInt8 => bs ≤ bs')
    (fun _ _ => Iff.rfl) hR l).of_map _

theorem outPoint_le_iff {a b : OutPoint} : OutPoint.le a b = true ↔
    a.txid.bytes < b.txid.bytes ∨ a.txid = b.txid ∧ a.vout ≤ b.vout := by
  simp [OutPoint.le]

instance : Std.Total (fun a b : OutPoint => OutPoint.le a b = true) where
  total a b := by
    rw [outPoint_le_iff, outPoint_le_iff]
    by_cases h : a.txid = b.txid
    · obtain hv | hv := Std.le_total (a := a.vout) (b := b.vout)
      · exact .inl (.inr ⟨h, hv⟩)
      · exact .inr (.inr ⟨h.symm, hv⟩)
    · have hne : a.txid.bytes ≠ b.txid.bytes := bytes_injective.ne h
      obtain hb | hb := Std.le_total (a := a.txid.bytes) (b := b.txid.bytes)
      · exact .inl (.inl (Std.lt_of_le_of_ne hb hne))
      · exact .inr (.inl (Std.lt_of_le_of_ne hb hne.symm))

instance : Std.Antisymm (fun a b : OutPoint => OutPoint.le a b = true) where
  antisymm a b hab hba := by
    rw [outPoint_le_iff] at hab hba
    obtain hab | ⟨htxid, hab⟩ := hab
    · obtain hba | ⟨htxid, -⟩ := hba
      · exact absurd hba (Std.not_gt_of_lt hab)
      · rw [htxid] at hab
        exact absurd hab Std.lt_irrefl
    · obtain hba | ⟨-, hba⟩ := hba
      · rw [htxid] at hba
        exact absurd hba Std.lt_irrefl
      · have hvout : a.vout = b.vout := Std.le_antisymm hab hba
        cases a
        cases b
        cases htxid
        cases hvout
        rfl

instance : IsTrans OutPoint (fun a b => OutPoint.le a b = true) where
  trans a b c hab hbc := by
    rw [outPoint_le_iff] at hab hbc ⊢
    obtain hab | ⟨htxid, hab⟩ := hab
    · obtain hbc | ⟨htxid, -⟩ := hbc
      · exact .inl (Std.lt_trans hab hbc)
      · exact .inl (htxid ▸ hab)
    · obtain hbc | ⟨htxid', hbc⟩ := hbc
      · exact .inl (htxid ▸ hbc)
      · exact .inr ⟨htxid.trans htxid', Std.le_trans hab hbc⟩

theorem mem_sortDedupOutpoints {l : List OutPoint} : co ∈ sortDedupOutpoints l ↔ co ∈ l :=
  mem_destutter_ne.trans (List.mem_insertionSort _)

theorem nodup_sortDedupOutpoints (l : List OutPoint) : (sortDedupOutpoints l).Nodup := by
  have h := nodup_map_destutter_insertionSort (g := fun co : OutPoint => co)
    (q := fun a b => OutPoint.le a b = true) (r := fun a b => OutPoint.le a b = true)
    (R := (· ≠ ·)) (fun _ _ => Iff.rfl) (fun _ _ => Iff.rfl) l
  rwa [List.map_id'] at h

/-- The conflict holds what the others hold, the two transactions and the outpoint. -/
structure Joins (t b : TxInfo) (co : OutPoint) (existing : List Conflict) (c : Conflict) :
    Prop where
  template : ∀ tx, tx ∈ c.templateTransactions ↔
    tx = t ∨ ∃ c' ∈ existing, tx ∈ c'.templateTransactions
  block : ∀ tx, tx ∈ c.blockTransactions ↔ tx = b ∨ ∃ c' ∈ existing, tx ∈ c'.blockTransactions
  outpoints : ∀ o, o ∈ c.conflictingOutpoints ↔
    o = co ∨ ∃ c' ∈ existing, o ∈ c'.conflictingOutpoints

/-- The transactions of a conflict have the property of their side, and nothing is there twice. -/
structure Sound (P Q : TxInfo → Prop) (c : Conflict) : Prop where
  template : ∀ tx ∈ c.templateTransactions, P tx
  block : ∀ tx ∈ c.blockTransactions, Q tx
  nodupTemplate : c.templateTransactions.Nodup
  nodupBlock : c.blockTransactions.Nodup
  nodupOutpoints : c.conflictingOutpoints.Nodup

variable {existing : List Conflict}

theorem mem_merged {α : Type} {f : Conflict → List α} {a a' : α} :
    a ∈ a' :: existing.flatMap f ↔ a = a' ∨ ∃ c ∈ existing, a ∈ f c := by
  rw [List.mem_cons, List.mem_flatMap]

theorem forall_merged {f : Conflict → List TxInfo} (ht : P t)
    (h : ∀ c ∈ existing, ∀ tx ∈ f c, P tx) : ∀ tx ∈ t :: existing.flatMap f, P tx := by
  intro tx htx
  obtain rfl | ⟨c, hc, htx⟩ := mem_merged.mp htx
  · exact ht
  · exact h c hc tx htx

theorem joins_mergeConflicts (hP : ByTxid P) (hQ : ByTxid Q) (ht : P t) (hb : Q b)
    (h : ∀ c ∈ existing, Sound P Q c) :
    Joins t b co existing (mergeConflicts existing t b co) where
  template _ := (mem_sortDedupTransactions hP
    (forall_merged ht (fun c hc => (h c hc).template))).trans mem_merged
  block _ := (mem_sortDedupTransactions hQ
    (forall_merged hb (fun c hc => (h c hc).block))).trans mem_merged
  outpoints _ := mem_sortDedupOutpoints.trans mem_merged

theorem joins_extended (c : Conflict) : Joins t b co [c] (extended t b co c) where
  template _ := mem_pushNew.trans (by simp [or_comm])
  block _ := mem_pushNew.trans (by simp [or_comm])
  outpoints _ := mem_pushNew.trans (by simp [or_comm])

theorem joins_joined (hP : ByTxid P) (hQ : ByTxid Q) (ht : P t) (hb : Q b)
    (h : ∀ c ∈ existing, Sound P Q c) : Joins t b co existing (joined t b co existing) := by
  match existing, h with
  | [], _ => exact ⟨by simp [joined], by simp [joined], by simp [joined]⟩
  | [c], _ => exact joins_extended c
  | _ :: _ :: _, h => exact joins_mergeConflicts hP hQ ht hb h

theorem nodup_pushNew {α : Type} [DecidableEq α] {l : List α} (h : l.Nodup) (a : α) :
    (pushNew l a).Nodup := by
  unfold pushNew
  split_ifs with ha
  · exact h
  · exact List.nodup_append.mpr ⟨h, List.nodup_singleton a, fun a' ha' b hb hab =>
      ha (List.mem_singleton.mp hb ▸ hab ▸ ha')⟩

theorem sound_joined (hP : ByTxid P) (hQ : ByTxid Q) (ht : P t) (hb : Q b)
    (h : ∀ c ∈ existing, Sound P Q c) : Sound P Q (joined t b co existing) := by
  have hjoins : Joins t b co existing _ := joins_joined hP hQ ht hb h
  have htemplate : ∀ tx ∈ (joined t b co existing).templateTransactions, P tx := by
    intro tx htx
    obtain rfl | ⟨c, hc, htx⟩ := (hjoins.template tx).mp htx
    · exact ht
    · exact (h c hc).template tx htx
  have hblock : ∀ tx ∈ (joined t b co existing).blockTransactions, Q tx := by
    intro tx htx
    obtain rfl | ⟨c, hc, htx⟩ := (hjoins.block tx).mp htx
    · exact hb
    · exact (h c hc).block tx htx
  match existing, h with
  | [], _ => exact ⟨htemplate, hblock, List.nodup_singleton t, List.nodup_singleton b,
      List.nodup_singleton co⟩
  | [c], h =>
    have hc := h c (List.mem_singleton_self c)
    exact ⟨htemplate, hblock, nodup_pushNew hc.nodupTemplate t, nodup_pushNew hc.nodupBlock b,
      nodup_pushNew hc.nodupOutpoints co⟩
  | _ :: _ :: _, _ => exact ⟨htemplate, hblock, nodup_sortDedupTransactions _,
      nodup_sortDedupTransactions _, nodup_sortDedupOutpoints _⟩

end Joined

section Groups

/-- What a conflict puts together. -/
def groupOf (c : Conflict) : Group TxInfo TxInfo OutPoint where
  left := {tx | tx ∈ c.templateTransactions}
  right := {tx | tx ∈ c.blockTransactions}
  labels := {o | o ∈ c.conflictingOutpoints}

theorem touches_iff {c : Conflict} (co : OutPoint) :
    touches t b c = true ↔ (groupOf c).Touches (co, t, b) := by
  simp [touches, Group.Touches, groupOf]

variable {E : Set (OutPoint × TxInfo × TxInfo)}

theorem templateTransactions_ne_nil (h : Grouping E (conflicts.map groupOf)) :
    ∀ c ∈ conflicts, c.templateTransactions ≠ [] := by
  intro c hc
  obtain ⟨e, -, he⟩ := h.inhabited _ (List.mem_map_of_mem hc)
  exact List.ne_nil_of_mem he

/-- One more conflicting outpoint is one more edge. -/
theorem grouping_addConflict (hP : ByTxid P) (hQ : ByTxid Q) (ht : P t) (hb : Q b)
    (h : Grouping E (conflicts.map groupOf)) (hs : ∀ c ∈ conflicts, Sound P Q c) :
    Grouping (insert (co, t, b) E) ((addConflict conflicts t b co).map groupOf) ∧
      ∀ c ∈ addConflict conflicts t b co, Sound P Q c := by
  have hperm : (addConflict conflicts t b co).Perm _ :=
    addConflict_perm (h.nodup.of_map groupOf) (templateTransactions_ne_nil h)
  have hs' : ∀ c ∈ conflicts.filter (touches t b), Sound P Q c :=
    fun c hc => hs c (List.mem_of_mem_filter hc)
  have hjoins : Joins t b co _ _ := joins_joined hP hQ ht hb hs'
  have hin : ∀ {p : Conflict → Prop}, (∃ c ∈ conflicts.filter (touches t b), p c) ↔
      ∃ c ∈ conflicts, (groupOf c).Touches (co, t, b) ∧ p c := by
    intro p
    simp only [List.mem_filter, touches_iff co, and_assoc]
  refine ⟨Grouping.perm ?_ (hperm.map groupOf), fun c hc => ?_⟩
  · rw [List.map_cons]
    refine h.join ⟨fun tx => ?_, fun tx => ?_, fun o => ?_⟩ (List.filter_sublist.map groupOf)
      (fun g hg => ?_)
    · exact (hjoins.template tx).trans (or_congr Iff.rfl (hin.trans (by simp [groupOf])))
    · exact (hjoins.block tx).trans (or_congr Iff.rfl (hin.trans (by simp [groupOf])))
    · exact (hjoins.outpoints o).trans (or_congr Iff.rfl (hin.trans (by simp [groupOf])))
    · simp only [List.mem_map, List.mem_filter, Bool.not_eq_true', Bool.eq_false_iff, ne_eq,
        touches_iff co]
      constructor
      · rintro ⟨c, ⟨-, hc⟩, rfl⟩
        exact hc
      · intro hg'
        obtain ⟨c, hc, rfl⟩ := List.mem_map.mp hg
        exact ⟨c, ⟨hc, hg'⟩, rfl⟩
  · obtain rfl | hc := List.mem_cons.mp (hperm.mem_iff.mp hc)
    · exact sound_joined hP hQ ht hb hs'
    · exact hs c (List.mem_of_mem_filter hc)

/-- After any number of outpoints the conflicts are the groups of what was seen. -/
theorem grouping_grouped (hP : ByTxid P) (hQ : ByTxid Q)
    {found : List (OutPoint × TxInfo × TxInfo)} (h : ∀ p ∈ found, P p.2.1 ∧ Q p.2.2) :
    Grouping {e | e ∈ found} ((grouped found).map groupOf) ∧
      ∀ c ∈ grouped found, Sound P Q c := by
  induction found using List.reverseRecOn with
  | nil =>
    have hempty : {e : OutPoint × TxInfo × TxInfo | e ∈ ([] : List _)} = ∅ := by simp
    exact ⟨hempty ▸ Grouping.nil, nofun⟩
  | append_singleton found e ih =>
    obtain ⟨hg, hs⟩ := ih (fun p hp => h p (List.mem_append_left _ hp))
    obtain ⟨ht, hb⟩ := h e (List.mem_append_right _ (List.mem_singleton_self e))
    have hsnoc : grouped (found ++ [e]) = addConflict (grouped found) e.2.1 e.2.2 e.1 := by
      rw [grouped, List.foldl_append]
      rfl
    have hset : {p | p ∈ found ++ [e]} = insert (e.1, e.2.1, e.2.2) {p | p ∈ found} := by
      ext p
      simp [or_comm]
    rw [hsnoc, hset]
    exact grouping_addConflict hP hQ ht hb hg hs

end Groups

end MiningpoolObserver.Processing.ConflictGroups
