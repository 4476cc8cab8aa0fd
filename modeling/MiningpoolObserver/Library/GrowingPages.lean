import Mathlib.Data.List.Count
import Mathlib.Data.List.Perm.Subperm
import MiningpoolObserver.Library.Pages

namespace MiningpoolObserver.Library.GrowingPages

open MiningpoolObserver.Library.Queries MiningpoolObserver.Library.Pages

variable {α κ : Type} {size n : ℕ} {a : α} {rows rows' s : List α}

/-- Something that only moves back is met by a reader who goes from page to page, if it is not
behind the last of them at the end. -/
theorem exists_page_of_moving_back {place : ℕ → ℕ} {last : ℕ}
    (hmove : ∀ n < last, place n ≤ place (n + 1)) (hlast : place last < size * (last + 1)) :
    ∃ n ≤ last, place n / size = n := by
  have hsize : 0 < size := Nat.pos_of_ne_zero (fun h => by simp [h] at hlast)
  induction last with
  | zero =>
    refine ⟨0, le_rfl, ?_⟩
    simpa using Nat.div_eq_of_lt (by simpa using hlast)
  | succ last ih =>
    by_cases hbefore : place last < size * (last + 1)
    · obtain ⟨n, hn, he⟩ := ih (fun n hn => hmove n (by omega)) hbefore
      exact ⟨n, by omega, he⟩
    · -- it was behind the page before, so it is not before this one
      refine ⟨last + 1, le_rfl, Nat.div_eq_of_lt_le ?_ ?_⟩
      · rw [Nat.mul_comm]
        exact (not_lt.mp hbefore).trans (hmove last (Nat.lt_succ_self last))
      · rw [Nat.mul_comm]
        exact hlast

variable [LinearOrder κ] {key : α → κ}

/-- How many rows come before those with a key. -/
def rank (key : α → κ) (rows : List α) (k : κ) : ℕ := rows.countP (fun b => k < key b)

/-- More rows, more of them before. -/
theorem rank_le_of_subperm (h : rows.Subperm rows') (k : κ) : rank key rows k ≤ rank key rows' k :=
  h.countP_le _

theorem rank_lt_length (ha : a ∈ rows) : rank key rows (key a) < rows.length :=
  List.countP_lt_length_iff.mpr ⟨a, ha, by simp⟩

/-- A row with a key of its own has one place, however the others are ordered. -/
theorem Ordered.length_eq_rank {l₁ l₂ : List α} (h : Ordered key rows (l₁ ++ a :: l₂))
    (hnd : rows.Nodup) (hne : ∀ b ∈ rows, key b = key a → b = a) :
    l₁.length = rank key rows (key a) := by
  have ha : a ∈ rows := h.perm.mem_iff.mp (List.mem_append_right l₁ List.mem_cons_self)
  have hties : [a].Perm (rows.filter (fun b => key b = key a)) := by
    refine (List.perm_ext_iff_of_nodup (List.nodup_singleton a) (hnd.filter _)).mpr (fun b => ?_)
    rw [List.mem_singleton, List.mem_filter, decide_eq_true_eq]
    refine ⟨?_, fun hb => hne b hb.1 hb.2⟩
    rintro rfl
    exact ⟨ha, rfl⟩
  obtain ⟨hlow, hhigh⟩ := h.length_bounds
  rw [countP_around hties, List.length_singleton] at hhigh
  rw [rank]
  omega

theorem mem_page_of_rank (h : Ordered key rows s) (hsize : 0 < size) (hnd : rows.Nodup)
    (ha : a ∈ rows) (hne : ∀ b ∈ rows, key b = key a → b = a)
    (hn : rank key rows (key a) / size = n) : a ∈ page size n s := by
  obtain ⟨l₁, l₂, rfl⟩ := List.append_of_mem (h.perm.mem_iff.mpr ha)
  exact (mem_page_iff hsize).mpr ⟨l₁, l₂, rfl, by rw [Ordered.length_eq_rank h hnd hne, hn]⟩

/-- While rows are added, a reader who goes from page to page meets every row that was there from
the start and whose key no other row has. -/
theorem exists_mem_page {last : ℕ} {rows s : ℕ → List α} (hsize : 0 < size)
    (hs : ∀ n ≤ last, Ordered key (rows n) (s n)) (hnd : ∀ n ≤ last, (rows n).Nodup)
    (hgrow : ∀ n < last, rows n ⊆ rows (n + 1)) (ha : a ∈ rows 0)
    (hne : ∀ b ∈ rows last, key b = key a → b = a)
    (hlast : (rows last).length ≤ size * (last + 1)) :
    ∃ n ≤ last, a ∈ page size n (s n) := by
  have hsub : ∀ i j, i ≤ j → j ≤ last → rows i ⊆ rows j := by
    intro i j hij
    induction j, hij using Nat.le_induction with
    | base => exact fun _ => List.Subset.refl _
    | succ j hij ih => exact fun hj => List.Subset.trans (ih (by omega)) (hgrow j hj)
  obtain ⟨n, hn, he⟩ : ∃ n ≤ last, rank key (rows n) (key a) / size = n :=
    exists_page_of_moving_back
      (fun n hn => rank_le_of_subperm (List.subperm_of_subset (hnd n hn.le) (hgrow n hn)) _)
      ((rank_lt_length (hsub 0 last (Nat.zero_le _) le_rfl ha)).trans_le hlast)
  exact ⟨n, hn, mem_page_of_rank (hs n hn) hsize (hnd n hn) (hsub 0 n (Nat.zero_le _) hn ha)
    (fun b hb => hne b (hsub n last hn le_rfl hb)) he⟩

end MiningpoolObserver.Library.GrowingPages
