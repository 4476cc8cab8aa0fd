import Mathlib.Data.List.Count
import Mathlib.Data.List.Pairwise
import Mathlib.Data.List.Perm.Basic
import MiningpoolObserver.Library.Queries

namespace MiningpoolObserver.Library.Pages

open MiningpoolObserver.Library.Queries

variable {α κ : Type} {size n : ℕ} {a : α} {rows s : List α}

section Cuts

/-- A row is on the page that its place falls on. -/
theorem mem_page_iff (hsize : 0 < size) :
    a ∈ page size n s ↔ ∃ l₁ l₂, s = l₁ ++ a :: l₂ ∧ l₁.length / size = n := by
  rw [page]
  constructor
  · intro h
    obtain ⟨i, hi, rfl⟩ := List.mem_take_iff_getElem.mp h
    rw [List.length_drop, Nat.lt_min] at hi
    rw [List.getElem_drop]
    refine ⟨s.take (size * n + i), s.drop (size * n + i + 1), ?_, ?_⟩
    · rw [List.getElem_cons_drop, List.take_append_drop]
    · rw [List.length_take_of_le (by omega), Nat.mul_add_div hsize, Nat.div_eq_of_lt hi.1,
        Nat.add_zero]
  · rintro ⟨l₁, l₂, rfl, rfl⟩
    have hmod : l₁.length % size < size := Nat.mod_lt _ hsize
    have hdiv : size * (l₁.length / size) + l₁.length % size = l₁.length := Nat.div_add_mod _ _
    apply List.mem_take_iff_getElem.mpr
    refine ⟨l₁.length % size, ?_, ?_⟩
    · rw [List.length_drop, List.length_append, List.length_cons, Nat.lt_min]
      omega
    · simp [List.getElem_drop, hdiv]

theorem page_eq_nil (h : s.length ≤ size * n) : page size n s = [] := by
  rw [page, List.drop_eq_nil_of_le h, List.take_nil]

theorem page_sublist : (page size n s).Sublist s :=
  (List.take_sublist _ _).trans (List.drop_sublist _ _)

/-- Sorted into boxes, nothing is lost. -/
theorem flatMap_filter_perm (f : α → ℕ) (n : ℕ) :
    ((List.range n).flatMap (fun i => rows.filter (fun a => f a = i))).Perm
      (rows.filter (fun a => f a < n)) := by
  induction n with
  | zero => simp
  | succ n ih =>
    rw [List.range_succ, List.flatMap_append, List.flatMap_singleton]
    apply (ih.append_right _).trans
    have hlow : (rows.filter (fun a => f a < n + 1)).filter (fun a => f a < n) =
        rows.filter (fun a => f a < n) := by
      rw [List.filter_filter]
      refine List.filter_congr (fun a _ => ?_)
      rw [← Bool.decide_and, decide_eq_decide]
      omega
    have hlast : (rows.filter (fun a => f a < n + 1)).filter (fun a => !decide (f a < n)) =
        rows.filter (fun a => f a = n) := by
      rw [List.filter_filter]
      refine List.filter_congr (fun a _ => ?_)
      rw [← decide_not, ← Bool.decide_and, decide_eq_decide]
      omega
    have h := List.filter_append_perm (fun a => decide (f a < n))
      (rows.filter (fun a => f a < n + 1))
    rwa [hlow, hlast] at h

end Cuts

section Ties

variable [LinearOrder κ] {key : α → κ}

/-- What a SELECT may return that orders the rows by a key, the largest first: rows with one key
come in any order. -/
structure Ordered (key : α → κ) (rows s : List α) : Prop where
  perm : s.Perm rows
  pairwise : s.Pairwise (fun a b => key b ≤ key a)

/-- Rows with one key do not come on both sides of the end of a page: as many pages are full before
the first of them as before the last. -/
def TiesTogether (size : ℕ) (key : α → κ) (rows : List α) : Prop :=
  ∀ a ∈ rows, rows.countP (fun b => key a < key b) / size =
    (rows.countP (fun b => key a ≤ key b) - 1) / size

instance : Decidable (TiesTogether size key rows) := inferInstanceAs (Decidable (∀ a ∈ rows, _))

/-- The place of a row is between those of the first and of the last row with its key. -/
theorem Ordered.length_bounds {l₁ l₂ : List α} (h : Ordered key rows (l₁ ++ a :: l₂)) :
    rows.countP (fun b => key a < key b) ≤ l₁.length ∧
      l₁.length < rows.countP (fun b => key a ≤ key b) := by
  rw [← h.perm.countP_eq, ← h.perm.countP_eq]
  have hpairwise := List.pairwise_append.mp h.pairwise
  have hbefore : ∀ b ∈ l₁, key a ≤ key b := fun b hb =>
    hpairwise.2.2 b hb a List.mem_cons_self
  have hafter : ∀ b ∈ l₂, key b ≤ key a := (List.pairwise_cons.mp hpairwise.2.1).1
  constructor
  · have hnone : (a :: l₂).countP (fun b => key a < key b) = 0 := by
      apply List.countP_eq_zero.mpr
      intro b hb
      rw [decide_eq_true_eq, not_lt]
      obtain rfl | hb := List.mem_cons.mp hb
      · exact le_rfl
      · exact hafter b hb
    rw [List.countP_append, hnone, Nat.add_zero]
    exact List.countP_le_length
  · have hall : l₁.countP (fun b => key a ≤ key b) = l₁.length :=
      List.countP_eq_length.mpr (fun b hb => decide_eq_true (hbefore b hb))
    rw [List.countP_append, hall, List.countP_cons_of_pos (by simp)]
    omega

/-- Then a page has the same rows however ties are ordered. -/
theorem TiesTogether.page_perm (h : TiesTogether size key rows) (hsize : 0 < size)
    (hnd : rows.Nodup) (hs : Ordered key rows s) :
    (page size n s).Perm
      (rows.filter (fun a => rows.countP (fun b => key a < key b) / size = n)) := by
  have hplace : ∀ a ∈ rows, ∀ l₁ l₂, s = l₁ ++ a :: l₂ →
      l₁.length / size = rows.countP (fun b => key a < key b) / size := by
    rintro a ha l₁ l₂ rfl
    obtain ⟨hlow, hhigh⟩ := hs.length_bounds
    refine Nat.le_antisymm ?_ (Nat.div_le_div_right hlow)
    rw [h a ha]
    exact Nat.div_le_div_right (by omega)
  apply (List.perm_ext_iff_of_nodup (page_sublist.nodup (hs.perm.nodup_iff.mpr hnd))
    (hnd.filter _)).mpr
  intro a
  rw [mem_page_iff hsize, List.mem_filter, decide_eq_true_eq]
  constructor
  · rintro ⟨l₁, l₂, he, hn⟩
    have ha : a ∈ rows := hs.perm.mem_iff.mp (he ▸ List.mem_append_right l₁ List.mem_cons_self)
    exact ⟨ha, (hplace a ha l₁ l₂ he).symm.trans hn⟩
  · rintro ⟨ha, hn⟩
    obtain ⟨l₁, l₂, he⟩ := List.append_of_mem (hs.perm.mem_iff.mpr ha)
    exact ⟨l₁, l₂, he, (hplace a ha l₁ l₂ he).trans hn⟩

theorem TiesTogether.pages_perm (h : TiesTogether size key rows) (hsize : 0 < size)
    (hnd : rows.Nodup) {pages : ℕ} (hpages : rows.length ≤ size * pages) {s : ℕ → List α}
    (hs : ∀ n, Ordered key rows (s n)) :
    ((List.range pages).flatMap (fun n => page size n (s n))).Perm rows := by
  refine (List.Perm.flatMap_left _ (fun n _ => h.page_perm hsize hnd (hs n))).trans ?_
  refine (flatMap_filter_perm _ pages).trans (List.Perm.of_eq ?_)
  refine List.filter_eq_self.mpr (fun a ha => decide_eq_true ?_)
  have hlt : rows.countP (fun b => key a < key b) < rows.length :=
    List.countP_lt_length_iff.mpr ⟨a, ha, by simp⟩
  rw [Nat.div_lt_iff_lt_mul hsize, Nat.mul_comm]
  omega

section Around

/-- The rows before and those after the ones with the key of a row, in some order. -/
def above (key : α → κ) (rows : List α) (a : α) : List α :=
  orderDesc key (rows.filter (fun b => key a < key b))

def below (key : α → κ) (rows : List α) (a : α) : List α :=
  orderDesc key (rows.filter (fun b => key b < key a))

theorem length_above : (above key rows a).length = rows.countP (fun b => key a < key b) := by
  rw [above, perm_orderDesc.length_eq, List.countP_eq_length_filter]

theorem lt_of_mem_above {b : α} (hb : b ∈ above key rows a) : key a < key b := by
  simpa using (List.mem_filter.mp (mem_orderDesc.mp hb)).2

theorem lt_of_mem_below {b : α} (hb : b ∈ below key rows a) : key b < key a := by
  simpa using (List.mem_filter.mp (mem_orderDesc.mp hb)).2

variable {t : List α} (ht : t.Perm (rows.filter (fun b => key b = key a)))
include ht

theorem eq_of_mem_ties {b : α} (hb : b ∈ t) : key b = key a := by
  simpa using (List.mem_filter.mp (ht.mem_iff.mp hb)).2

theorem ordered_around : Ordered key rows (above key rows a ++ t ++ below key rows a) where
  perm := by
    have hsplit : (rows.filter (fun b => key b ≤ key a)).Perm
        (rows.filter (fun b => key b = key a) ++ rows.filter (fun b => key b < key a)) := by
      have h := List.filter_append_perm (fun b => decide (key b = key a))
        (rows.filter (fun b => key b ≤ key a))
      rw [List.filter_filter, List.filter_filter] at h
      refine (h.symm).trans (List.Perm.of_eq ?_)
      congr 1 <;> refine List.filter_congr (fun b _ => ?_)
      · rw [← Bool.decide_and, decide_eq_decide]
        exact ⟨fun h => h.1, fun h => ⟨h, h.le⟩⟩
      · rw [← decide_not, ← Bool.decide_and, decide_eq_decide]
        exact ⟨fun h => lt_of_le_of_ne h.2 h.1, fun h => ⟨h.ne, h.le⟩⟩
    have hrows : (rows.filter (fun b => key a < key b) ++
        rows.filter (fun b => key b ≤ key a)).Perm rows := by
      have h := List.filter_append_perm (fun b => decide (key a < key b)) rows
      simpa only [← decide_not, not_lt] using h
    rw [List.append_assoc]
    refine List.Perm.trans (perm_orderDesc.append ?_) hrows
    exact (ht.append perm_orderDesc).trans hsplit.symm
  pairwise := by
    have heq : ∀ b ∈ t, key b = key a := fun b hb => eq_of_mem_ties ht hb
    refine List.pairwise_append.mpr ⟨List.pairwise_append.mpr ⟨pairwise_orderDesc, ?_, ?_⟩,
      pairwise_orderDesc, ?_⟩
    · exact List.pairwise_of_forall_mem_list (fun b hb c hc => (heq c hc).trans_le (heq b hb).ge)
    · exact fun b hb c hc => (heq c hc).trans_le (lt_of_mem_above hb).le
    · intro b hb c hc
      obtain hb | hb := List.mem_append.mp hb
      · exact (lt_of_mem_below hc).le.trans (lt_of_mem_above hb).le
      · exact (lt_of_mem_below hc).le.trans (heq b hb).ge

theorem countP_around : rows.countP (fun b => key a ≤ key b) =
    rows.countP (fun b => key a < key b) + t.length := by
  have habove : (above key rows a).countP (fun b => key a ≤ key b) = (above key rows a).length :=
    List.countP_eq_length.mpr (fun b hb => decide_eq_true (lt_of_mem_above hb).le)
  have hties : t.countP (fun b => key a ≤ key b) = t.length :=
    List.countP_eq_length.mpr (fun b hb => decide_eq_true (eq_of_mem_ties ht hb).ge)
  have hbelow : (below key rows a).countP (fun b => key a ≤ key b) = 0 := by
    apply List.countP_eq_zero.mpr
    intro b hb
    simpa using lt_of_mem_below hb
  rw [← (ordered_around ht).perm.countP_eq, List.countP_append, List.countP_append, habove, hties,
    hbelow, length_above, Nat.add_zero]

end Around

/-- A row can come first or last of those with its key. -/
theorem exists_ordered (key : α → κ) (ha : a ∈ rows) :
    (∃ l₁ l₂, Ordered key rows (l₁ ++ a :: l₂) ∧
      l₁.length = rows.countP (fun b => key a < key b)) ∧
    ∃ l₁ l₂, Ordered key rows (l₁ ++ a :: l₂) ∧
      l₁.length = rows.countP (fun b => key a ≤ key b) - 1 := by
  have hmem : a ∈ rows.filter (fun b => key b = key a) :=
    List.mem_filter.mpr ⟨ha, decide_eq_true rfl⟩
  obtain ⟨t₁, t₂, ht⟩ := List.append_of_mem hmem
  have hfirst : (a :: (t₁ ++ t₂)).Perm (rows.filter (fun b => key b = key a)) := by
    rw [ht]
    exact List.perm_middle.symm
  have hlast : (t₁ ++ t₂ ++ [a]).Perm (rows.filter (fun b => key b = key a)) :=
    (List.perm_append_singleton a _).trans hfirst
  constructor
  · refine ⟨above key rows a, t₁ ++ t₂ ++ below key rows a, ?_, length_above⟩
    simpa using ordered_around hfirst
  · refine ⟨above key rows a ++ (t₁ ++ t₂), below key rows a, ?_, ?_⟩
    · simpa using ordered_around hlast
    · simp only [countP_around hlast, List.length_append, length_above, List.length_singleton]
      omega

/-- When ties are cut apart, a row may be on two pages. -/
theorem tiesTogether_of_perm (hsize : 0 < size) (hnd : rows.Nodup) {pages : ℕ}
    (hpages : rows.length ≤ size * pages)
    (h : ∀ s : ℕ → List α, (∀ n, Ordered key rows (s n)) →
      ((List.range pages).flatMap (fun n => page size n (s n))).Perm rows) :
    TiesTogether size key rows := by
  intro a ha
  obtain ⟨⟨l₁, l₂, hfirst, hl⟩, r₁, r₂, hlast, hr⟩ := exists_ordered key ha
  rw [← hl, ← hr]
  by_contra hne
  -- the first of the two pages is cut from the one order, all others from the other
  let s : ℕ → List α := fun n =>
    if n = l₁.length / size then l₁ ++ a :: l₂ else r₁ ++ a :: r₂
  have hs : ∀ n, Ordered key rows (s n) := by
    intro n
    by_cases hn : n = l₁.length / size
    · simpa only [s, if_pos hn] using hfirst
    · simpa only [s, if_neg hn] using hlast
  have hlt : ∀ {k₁ k₂ : List α}, Ordered key rows (k₁ ++ a :: k₂) → k₁.length / size < pages := by
    intro k₁ k₂ hk
    have hlen := hk.perm.length_eq
    rw [List.length_append, List.length_cons] at hlen
    rw [Nat.div_lt_iff_lt_mul hsize, Nat.mul_comm]
    omega
  have hnodup := List.nodup_flatMap.mp ((h s hs).nodup_iff.mpr hnd)
  have : Std.Symm (Function.onFun List.Disjoint (fun n => page size n (s n))) :=
    ⟨fun _ _ hd _ h₁ h₂ => hd h₂ h₁⟩
  have hdisjoint : List.Disjoint _ _ := hnodup.2.forall (List.mem_range.mpr (hlt hfirst))
    (List.mem_range.mpr (hlt hlast)) hne
  refine @hdisjoint a ?_ ?_
  · rw [mem_page_iff hsize]
    exact ⟨l₁, l₂, if_pos rfl, rfl⟩
  · rw [mem_page_iff hsize]
    exact ⟨r₁, r₂, if_neg (Ne.symm hne), rfl⟩

end Ties

end MiningpoolObserver.Library.Pages
