import Mathlib.Data.List.Perm.Basic

namespace MiningpoolObserver.Library.Fallible

variable {α β ε : Type}

theorem bind_eq_ok {x : Except ε α} {f : α → Except ε β} {b : β} :
    (x >>= f) = .ok b ↔ ∃ a, x = .ok a ∧ f a = .ok b := by
  cases x with
  | error e =>
    refine ⟨nofun, ?_⟩
    rintro ⟨a, h, -⟩
    cases h
  | ok a =>
    refine ⟨fun h => ⟨a, rfl, h⟩, ?_⟩
    rintro ⟨a', h, hf⟩
    cases h
    exact hf

theorem exists_bind_eq_ok {x : Except ε α} {f : α → Except ε β} (hx : ∃ a, x = .ok a)
    (hf : ∀ a, x = .ok a → ∃ b, f a = .ok b) : ∃ b, (x >>= f) = .ok b := by
  obtain ⟨a, ha⟩ := hx
  obtain ⟨b, hb⟩ := hf a ha
  exact ⟨b, bind_eq_ok.mpr ⟨a, ha, hb⟩⟩

/-- A property that every round of a loop keeps, when no round fails. -/
theorem foldlM_invariant {P : β → Prop} {f : β → α → Except ε β} {l : List α}
    (hf : ∀ a ∈ l, ∀ b b', P b → f b a = .ok b' → P b') {b b' : β} (hb : P b)
    (h : l.foldlM f b = .ok b') : P b' := by
  induction l generalizing b with
  | nil =>
    cases h
    exact hb
  | cons a l ih =>
    rw [List.foldlM_cons, bind_eq_ok] at h
    obtain ⟨c, hc, hl⟩ := h
    exact ih (fun a' ha' => hf a' (List.mem_cons_of_mem _ ha'))
      (hf a List.mem_cons_self b c hb hc) hl

/-- A loop none of whose rounds can fail does not fail. -/
theorem exists_foldlM_eq_ok {f : β → α → Except ε β} {l : List α}
    (h : ∀ a ∈ l, ∀ b, ∃ b', f b a = .ok b') (b : β) : ∃ b', l.foldlM f b = .ok b' := by
  induction l generalizing b with
  | nil => exact ⟨b, rfl⟩
  | cons a l ih =>
    obtain ⟨c, hc⟩ := h a List.mem_cons_self b
    obtain ⟨b', hb'⟩ := ih (fun a' ha' => h a' (List.mem_cons_of_mem a ha')) c
    exact ⟨b', by rw [List.foldlM_cons, hc]; exact hb'⟩

/-- Computations that succeed one by one succeed together. -/
theorem exists_mapM_eq_ok {f : α → Except ε β} {l : List α} (h : ∀ a ∈ l, ∃ b, f a = .ok b) :
    ∃ bs, l.mapM f = .ok bs := by
  induction l with
  | nil => exact ⟨[], rfl⟩
  | cons a l ih =>
    obtain ⟨b, hb⟩ := h a List.mem_cons_self
    obtain ⟨bs, hbs⟩ := ih (fun a' ha' => h a' (List.mem_cons_of_mem a ha'))
    refine ⟨b :: bs, ?_⟩
    rw [List.mapM_cons, hb, hbs]
    rfl

/-- A list of computations that all succeed, with their results. -/
theorem mapM_eq_ok {f : α → Except ε β} {l : List α} {bs : List β} (h : l.mapM f = .ok bs) :
    List.Forall₂ (fun a b => f a = .ok b) l bs := by
  induction l generalizing bs with
  | nil =>
    cases h
    exact .nil
  | cons a l ih =>
    rw [List.mapM_cons, bind_eq_ok] at h
    obtain ⟨b, hb, h⟩ := h
    obtain ⟨bs', hbs, h⟩ := bind_eq_ok.mp h
    cases h
    exact .cons hb (ih hbs)

/-- A member of one list is related to one of the other. -/
theorem exists_of_mem_forall₂ {R : α → β → Prop} {l : List α} {l' : List β}
    (h : List.Forall₂ R l l') {b : β} (hb : b ∈ l') : ∃ a ∈ l, R a b := by
  induction h with
  | nil => cases hb
  | cons hab _ ih =>
    obtain rfl | hb := List.mem_cons.mp hb
    · exact ⟨_, List.mem_cons_self, hab⟩
    · obtain ⟨a, ha, hr⟩ := ih hb
      exact ⟨a, List.mem_cons_of_mem _ ha, hr⟩

theorem exists_of_mem_mapM {f : α → Except ε β} {l : List α} {bs : List β}
    (h : l.mapM f = .ok bs) {b : β} (hb : b ∈ bs) : ∃ a ∈ l, f a = .ok b :=
  exists_of_mem_forall₂ (mapM_eq_ok h) hb

/-- Results that still tell what they were computed from. -/
theorem map_eq_of_mapM {f : α → Except ε β} {g : β → α} {l : List α} {bs : List β}
    (h : l.mapM f = .ok bs) (hg : ∀ a b, f a = .ok b → g b = a) : bs.map g = l := by
  have hall := mapM_eq_ok h
  clear h
  induction hall with
  | nil => rfl
  | cons hab _ ih => rw [List.map_cons, hg _ _ hab, ih]

theorem mapM_congr {f g : α → Except ε β} {l : List α} (h : ∀ a ∈ l, f a = g a) :
    l.mapM f = l.mapM g := by
  induction l with
  | nil => rfl
  | cons a l ih =>
    rw [List.mapM_cons, List.mapM_cons, h a List.mem_cons_self,
      ih (fun a' ha' => h a' (List.mem_cons_of_mem a ha'))]

theorem mapM_of_forall₂ {f : α → Except ε β} {l : List α} {bs : List β}
    (h : List.Forall₂ (fun a b => f a = .ok b) l bs) : l.mapM f = .ok bs := by
  induction h with
  | nil => rfl
  | cons hb _ ih =>
    rw [List.mapM_cons, hb, ih]
    rfl

/-- In another order the same results come out in that order. -/
theorem mapM_perm {f : α → Except ε β} {l l' : List α} (hp : l'.Perm l) {bs : List β}
    (h : l.mapM f = .ok bs) : ∃ bs', l'.mapM f = .ok bs' ∧ bs'.Perm bs := by
  obtain ⟨bs', hall, hperm⟩ := List.perm_comp_forall₂ hp (mapM_eq_ok h)
  exact ⟨bs', mapM_of_forall₂ hall, hperm⟩

/-- When only a lookup can fail, a loop without failure is a plain one over what was found. -/
theorem foldlM_eq_ok {γ : Type} {f : β → α → Except ε β} {g : α → Except ε γ}
    {s : β → α → γ → β} (hf : ∀ b a, f b a = g a >>= fun c => .ok (s b a c)) {l : List α}
    {b b' : β} (h : l.foldlM f b = .ok b') :
    ∃ cs, List.Forall₂ (fun a c => g a = .ok c) l cs ∧
      b' = (l.zip cs).foldl (fun b p => s b p.1 p.2) b := by
  induction l generalizing b with
  | nil =>
    cases h
    exact ⟨[], .nil, rfl⟩
  | cons a l ih =>
    rw [List.foldlM_cons, bind_eq_ok] at h
    obtain ⟨b₁, hb₁, h⟩ := h
    rw [hf, bind_eq_ok] at hb₁
    obtain ⟨c, hc, hb₁⟩ := hb₁
    cases hb₁
    obtain ⟨cs, hcs, rfl⟩ := ih h
    exact ⟨c :: cs, .cons hc hcs, rfl⟩

end MiningpoolObserver.Library.Fallible
