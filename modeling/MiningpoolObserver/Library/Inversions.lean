import Mathlib.Data.List.Sort

namespace MiningpoolObserver.Library.Inversions

variable {α β : Type*} [LinearOrder β] {f : α → β} {l l' : List α} {a b : α}

/-- The pairs of members whose later one belongs before the earlier one. -/
def inversions (f : α → β) : List α → List (α × α)
  | [] => []
  | a :: l => (l.filter (fun b => f b < f a)).map (Prod.mk a) ++ inversions f l

theorem mem_inversions_cons {p : α × α} : p ∈ inversions f (a :: l) ↔
    (p.1 = a ∧ p.2 ∈ l ∧ f p.2 < f a) ∨ p ∈ inversions f l := by
  rw [inversions, List.mem_append, List.mem_map]
  refine or_congr_left ⟨?_, ?_⟩
  · rintro ⟨b, hb, rfl⟩
    obtain ⟨hm, hlt⟩ := List.mem_filter.mp hb
    exact ⟨rfl, hm, of_decide_eq_true hlt⟩
  · rintro ⟨rfl, hm, hlt⟩
    exact ⟨p.2, List.mem_filter.mpr ⟨hm, decide_eq_true hlt⟩, rfl⟩

theorem mem_of_mem_inversions {p : α × α} (h : p ∈ inversions f l) : p.1 ∈ l ∧ p.2 ∈ l := by
  induction l with
  | nil => cases h
  | cons a l ih =>
    obtain ⟨rfl, hm, -⟩ | h := mem_inversions_cons.mp h
    · exact ⟨List.mem_cons_self, List.mem_cons_of_mem _ hm⟩
    · exact ⟨List.mem_cons_of_mem a (ih h).1, List.mem_cons_of_mem a (ih h).2⟩

/-- Dropping members leaves a list in order exactly when it takes one of every inversion. -/
theorem pairwise_iff_of_sublist (hs : l'.Sublist l) (hn : l.Nodup) :
    l'.Pairwise (fun a b => f a ≤ f b) ↔ ∀ p ∈ inversions f l, p.1 ∈ l' → p.2 ∉ l' := by
  induction hs with
  | slnil => simp [inversions]
  | @cons l' l a hs ih =>
    obtain ⟨ha, hn⟩ := List.nodup_cons.mp hn
    rw [ih hn]
    refine ⟨fun h p hp h₁ => ?_, fun h p hp => h p (mem_inversions_cons.mpr (.inr hp))⟩
    obtain ⟨he, -⟩ | hp := mem_inversions_cons.mp hp
    · exact absurd (hs.subset (he ▸ h₁)) ha
    · exact h p hp h₁
  | @cons_cons l' l a hs ih =>
    obtain ⟨ha, hn⟩ := List.nodup_cons.mp hn
    rw [List.pairwise_cons, ih hn]
    constructor
    · rintro ⟨hle, h⟩ p hp h₁ h₂
      obtain ⟨-, -, hlt⟩ | hp := mem_inversions_cons.mp hp
      · obtain he | h₂ := List.mem_cons.mp h₂
        · exact lt_irrefl _ (he ▸ hlt)
        · exact (hle p.2 h₂).not_gt hlt
      · -- an inversion of the rest has nothing to do with the head
        obtain ⟨hm₁, hm₂⟩ := mem_of_mem_inversions hp
        have hne₁ : p.1 ≠ a := fun he => ha (he ▸ hm₁)
        have hne₂ : p.2 ≠ a := fun he => ha (he ▸ hm₂)
        exact h p hp (List.mem_of_ne_of_mem hne₁ h₁) (List.mem_of_ne_of_mem hne₂ h₂)
    · refine fun h => ⟨fun b hb => not_lt.mp (fun hlt => ?_), fun p hp h₁ h₂ => ?_⟩
      · exact h (a, b) (mem_inversions_cons.mpr (.inl ⟨rfl, hs.subset hb, hlt⟩))
          List.mem_cons_self (List.mem_cons_of_mem a hb)
      · exact h p (mem_inversions_cons.mpr (.inr hp)) (List.mem_cons_of_mem a h₁)
          (List.mem_cons_of_mem a h₂)

end MiningpoolObserver.Library.Inversions
