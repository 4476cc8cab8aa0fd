import Mathlib.Data.Finset.Sort
import Mathlib.Data.List.Destutter

namespace MiningpoolObserver.Library.MergedLists

section Destutter

variable {α β : Type*} [DecidableEq β] {f : α → β}

theorem exists_mem_destutter' (l : List α) (c a : α) (ha : a ∈ c :: l) :
    ∃ b ∈ l.destutter' (fun a b => f a ≠ f b) c, f b = f a := by
  induction l generalizing c a with
  | nil => exact ⟨c, by simp, by rw [List.mem_singleton.mp ha]⟩
  | cons d l ih =>
    by_cases hcd : f c ≠ f d
    · rw [List.destutter'_cons_pos l hcd]
      by_cases hac : a = c
      · exact ⟨c, List.mem_cons_self, by rw [hac]⟩
      · obtain ⟨b, hb, he⟩ := ih d a (List.mem_of_ne_of_mem hac ha)
        exact ⟨b, List.mem_cons_of_mem c hb, he⟩
    · rw [List.destutter'_cons_neg l hcd]
      -- the dropped member has the value of the one before it
      obtain ⟨a', ha', he'⟩ : ∃ a' ∈ c :: l, f a' = f a := by
        by_cases had : a = d
        · exact ⟨c, List.mem_cons_self, by rw [had, not_not.mp hcd]⟩
        · refine ⟨a, ?_, rfl⟩
          simpa [had] using ha
      obtain ⟨b, hb, he⟩ := ih c a' ha'
      exact ⟨b, hb, he.trans he'⟩

/-- Of the members with one value, dropping repeated values leaves one. -/
theorem exists_mem_destutter {l : List α} {a : α} (ha : a ∈ l) :
    ∃ b ∈ l.destutter (fun a b => f a ≠ f b), f b = f a := by
  cases l with
  | nil => cases ha
  | cons c l => exact exists_mem_destutter' l c a ha

theorem mem_destutter_ne {l : List β} {b : β} : b ∈ l.destutter (· ≠ ·) ↔ b ∈ l := by
  refine ⟨fun hb => (List.destutter_sublist _ l).subset hb, fun hb => ?_⟩
  obtain ⟨c, hc, rfl⟩ := exists_mem_destutter (f := fun b : β => b) hb
  exact hc

/-- After sorting by a value, members with one value are next to each other. -/
theorem nodup_map_destutter_insertionSort {γ : Type*} {g : α → γ} {q : γ → γ → Prop}
    [Std.Total q] [Std.Antisymm q] [IsTrans γ q] {r R : α → α → Prop} [DecidableRel r]
    [DecidableRel R] (hr : ∀ a b, r a b ↔ q (g a) (g b)) (hR : ∀ a b, R a b ↔ g a ≠ g b)
    (l : List α) : (((l.insertionSort r).destutter R).map g).Nodup := by
  have : Std.Total r := ⟨fun a b => by rw [hr, hr]; exact Std.Total.total _ _⟩
  have : IsTrans α r := ⟨fun a b c => by rw [hr, hr, hr]; exact IsTrans.trans _ _ _⟩
  have : IsTrans γ (fun x y => q x y ∧ x ≠ y) := ⟨fun x y z hxy hyz =>
    ⟨IsTrans.trans _ _ _ hxy.1 hyz.1, fun h => hxy.2 (antisymm hxy.1 (h ▸ hyz.1))⟩⟩
  let s := l.insertionSort r
  have hle : (s.destutter R).Pairwise r :=
    List.Pairwise.sublist (List.destutter_sublist _ s) (List.pairwise_insertionSort r l)
  have hne : (s.destutter R).IsChain R := List.isChain_destutter _ s
  have hlt : ((s.destutter R).map g).IsChain (fun x y => q x y ∧ x ≠ y) := by
    rw [List.isChain_map, List.isChain_iff_getElem]
    rw [List.isChain_iff_getElem] at hne
    exact fun i hi => ⟨(hr _ _).mp (List.pairwise_iff_getElem.mp hle i (i + 1) _ _ (by omega)),
      (hR _ _).mp (hne i hi)⟩
  exact hlt.pairwise.imp (fun h => h.2)

end Destutter

section Merged

variable {α : Type*} [LinearOrder α] {l l' : List α} {ls ls' : List (List α)} {a : α}

/-- The members of a list, ascending and each once. -/
def ascending (l : List α) : List α := l.toFinset.sort (· ≤ ·)

@[simp] theorem mem_ascending : a ∈ ascending l ↔ a ∈ l := by simp [ascending]

theorem sortedLT_ascending (l : List α) : (ascending l).SortedLT := l.toFinset.sortedLT_sort

theorem eq_ascending (hs : l'.SortedLT) (hm : ∀ a, a ∈ l' ↔ a ∈ l) : l' = ascending l :=
  hs.eq_of_mem_iff (sortedLT_ascending l) (fun a => (hm a).trans mem_ascending.symm)

theorem ascending_congr (h : ∀ a, a ∈ l ↔ a ∈ l') : ascending l = ascending l' :=
  eq_ascending (sortedLT_ascending l) (fun a => mem_ascending.trans (h a))

theorem ascending_perm (h : l.Nodup) : (ascending l).Perm l :=
  (List.perm_ext_iff_of_nodup (sortedLT_ascending l).nodup h).mpr (fun _ => mem_ascending)

/-- What is left of a united list when the members of one part are kept. -/
theorem filter_ascending (h : ∀ a ∈ l', a ∈ l) :
    (ascending l).filter (fun a => a ∈ l') = ascending l' := by
  refine eq_ascending ((sortedLT_ascending l).pairwise.filter _).sortedLT (fun a => ?_)
  rw [List.mem_filter, mem_ascending, decide_eq_true_iff]
  exact and_iff_right_of_imp (h a)

section Values

variable {β : Type*} [LinearOrder β] {f : α → β}

theorem pairwise_ascending (hf : Monotone f) (l : List α) :
    (ascending l).Pairwise (fun a b => f a ≤ f b) :=
  (sortedLT_ascending l).sortedLE.pairwise.imp (fun h => hf h)

/-- A list shows its values as the ascending list does when they are in order, and only then. -/
theorem map_ascending_eq_iff (hf : Monotone f) (h : l.Nodup) :
    (ascending l).map f = l.map f ↔ l.Pairwise (fun a b => f a ≤ f b) := by
  have hs : ((ascending l).map f).Pairwise (· ≤ ·) :=
    List.pairwise_map.mpr (pairwise_ascending hf l)
  constructor
  · exact fun he => List.pairwise_map.mp (he ▸ hs)
  · exact fun hl => ((ascending_perm h).map f).eq_of_pairwise' hs (List.pairwise_map.mpr hl)

end Values

/-- Sorting and dropping what is repeated. -/
theorem destutter_insertionSort (l : List α) :
    (l.insertionSort (· ≤ ·)).destutter (· ≠ ·) = ascending l := by
  let s := l.insertionSort (· ≤ ·)
  have hle : (s.destutter (· ≠ ·)).Pairwise (· ≤ ·) :=
    List.Pairwise.sublist (List.destutter_sublist _ s) List.sortedLE_insertionSort.pairwise
  have hne : (s.destutter (· ≠ ·)).IsChain (· ≠ ·) := List.isChain_destutter _ s
  have hlt : (s.destutter (· ≠ ·)).IsChain (· < ·) := by
    rw [List.isChain_iff_getElem] at hne ⊢
    exact fun i hi => lt_of_le_of_ne (List.pairwise_iff_getElem.mp hle i (i + 1) _ _ (by omega))
      (hne i hi)
  refine eq_ascending hlt.sortedLT (fun a => ?_)
  rw [mem_destutter_ne, List.mem_insertionSort]

/-- Two lists that are equal stay as they are, others are united. -/
def merge (l l' : List α) : List α := if l ≠ l' then ascending (l ++ l') else l

def Uniform (ls : List (List α)) : Prop := ∀ l ∈ ls, ∀ l' ∈ ls, l = l'

instance : Decidable (Uniform ls) := inferInstanceAs (Decidable (∀ l ∈ ls, ∀ l' ∈ ls, l = l'))

/-- What any number of lists are merged to: the common list, or the ascending union. -/
def merged (ls : List (List α)) : List α :=
  if Uniform ls then ls.headD [] else ascending ls.flatten

theorem merged_of_uniform (h : Uniform ls) (hl : l ∈ ls) : merged ls = l := by
  rw [merged, if_pos h]
  cases ls with
  | nil => cases hl
  | cons l₀ ls => exact h l₀ List.mem_cons_self l hl

theorem merged_singleton (l : List α) : merged [l] = l :=
  merged_of_uniform (by simp [Uniform]) (List.mem_singleton_self l)

theorem mem_merged : a ∈ merged ls ↔ ∃ l ∈ ls, a ∈ l := by
  by_cases h : Uniform ls
  · constructor
    · intro ha
      cases ls with
      | nil =>
        simp [merged, h] at ha
      | cons l ls =>
        rw [merged_of_uniform h List.mem_cons_self] at ha
        exact ⟨l, List.mem_cons_self, ha⟩
    · rintro ⟨l, hl, ha⟩
      rwa [merged_of_uniform h hl]
  · rw [merged, if_neg h, mem_ascending, List.mem_flatten]

/-- A list that was united holds nothing else than it holds. -/
theorem eq_ascending_of_not_uniform (h : ¬ Uniform ls)
    (hm : ∀ a, a ∈ merged ls ↔ a ∈ l) : merged ls = ascending l := by
  rw [merged, if_neg h] at hm ⊢
  exact ascending_congr (fun a => by rw [← hm, mem_ascending])

theorem merged_append (h : ls ≠ []) (h' : ls' ≠ []) :
    merged (ls ++ ls') = merge (merged ls) (merged ls') := by
  obtain ⟨l, hl⟩ := List.exists_mem_of_ne_nil ls h
  obtain ⟨l', hl'⟩ := List.exists_mem_of_ne_nil ls' h'
  by_cases hu : Uniform (ls ++ ls')
  · have hall : ∀ x ∈ ls ++ ls', x = l := fun x hx => hu x hx l (List.mem_append_left _ hl)
    have h₁ : merged ls = l := merged_of_uniform
      (fun x hx y hy => hu x (List.mem_append_left _ hx) y (List.mem_append_left _ hy)) hl
    have h₂ : merged ls' = l := (merged_of_uniform
      (fun x hx y hy => hu x (List.mem_append_right _ hx) y (List.mem_append_right _ hy)) hl').trans
        (hall l' (List.mem_append_right _ hl'))
    rw [merged_of_uniform hu (List.mem_append_left _ hl), h₁, h₂, merge, if_neg (not_not_intro rfl)]
  · have hmem : ∀ a, a ∈ (ls ++ ls').flatten ↔ a ∈ merged ls ++ merged ls' := by
      intro a
      simp only [List.mem_flatten, List.mem_append, mem_merged, or_and_right, exists_or]
    rw [merged, if_neg hu, ascending_congr hmem]
    by_cases he : merged ls = merged ls'
    · -- two uniform sides with one list would be uniform together
      rw [merge, if_neg (not_not_intro he)]
      by_cases h₁ : Uniform ls
      · have h₂ : ¬ Uniform ls' := by
          intro h₂
          have hall : ∀ x ∈ ls ++ ls', x = merged ls := by
            intro x hx
            obtain hx | hx := List.mem_append.mp hx
            · exact (merged_of_uniform h₁ hx).symm
            · exact (merged_of_uniform h₂ hx).symm.trans he.symm
          exact hu (fun x hx y hy => (hall x hx).trans (hall y hy).symm)
        rw [he]
        exact (eq_ascending_of_not_uniform h₂ (fun a => by simp)).symm
      · rw [← he]
        exact (eq_ascending_of_not_uniform h₁ (fun a => by simp)).symm
    · rw [merge, if_pos he]

omit [LinearOrder α] in
theorem Uniform.perm (h : ls.Perm ls') (hu : Uniform ls) : Uniform ls' :=
  fun l hl l' hl' => hu l (h.mem_iff.mpr hl) l' (h.mem_iff.mpr hl')

/-- The order of the lists does not matter. -/
theorem merged_perm (h : ls.Perm ls') : merged ls = merged ls' := by
  by_cases hu : Uniform ls
  · cases ls with
    | nil => rw [List.nil_perm.mp h]
    | cons l ls =>
      have hl : l ∈ l :: ls := List.mem_cons_self
      rw [merged_of_uniform hu hl, merged_of_uniform (hu.perm h) (h.mem_iff.mp hl)]
  · have hu' : ¬ Uniform ls' := fun hu' => hu (hu'.perm h.symm)
    rw [merged, if_neg hu, merged, if_neg hu']
    exact ascending_congr (fun a => h.flatten.mem_iff)

end Merged

end MiningpoolObserver.Library.MergedLists
