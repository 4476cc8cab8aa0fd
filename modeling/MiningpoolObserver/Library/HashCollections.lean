import Mathlib.Data.List.Induction
import Mathlib.Data.List.Nodup
import Mathlib.Data.List.Perm.Subperm

namespace MiningpoolObserver.Library.HashCollections

variable {α κ ν : Type}

/-- The order in which hash collections are iterated: some rearrangement of their contents. -/
structure RandomState where
  order : {α : Type} → List α → List α
  perm : ∀ {α : Type} (l : List α), (order l).Perm l

/-- Iteration in the order of insertion. -/
def RandomState.inserted : RandomState := ⟨fun l => l, fun l => List.Perm.refl l⟩

@[simp] theorem RandomState.mem_order (rs : RandomState) {l : List α} {a : α} :
    a ∈ rs.order l ↔ a ∈ l := (rs.perm l).mem_iff

/-- Every order of a list is the one of some random state. -/
theorem RandomState.exists_order {l l' : List α} (h : l'.Perm l) :
    ∃ rs : RandomState, rs.order l = l' := by
  classical
  let order (β : Type) (m : List β) : List β :=
    if he : (⟨α, l⟩ : Σ γ : Type, List γ) = ⟨β, m⟩ then
      cast (congrArg (fun p => List p.1) he) l' else m
  refine ⟨⟨fun {β} m => order β m, fun {β} m => ?_⟩, ?_⟩
  · by_cases he : (⟨α, l⟩ : Σ γ : Type, List γ) = ⟨β, m⟩
    · cases he
      simpa only [order, dif_pos, cast_eq] using h
    · simp only [order, dif_neg he, List.Perm.refl]
  · simp only [order, dif_pos, cast_eq]

/-- Picked once more, rows in any order are those that would have been picked at once. -/
theorem RandomState.filter_order_perm (rs : RandomState) {p q : α → Bool} {l : List α}
    (h : ∀ a, q a = true → p a = true) : ((rs.order (l.filter p)).filter q).Perm (l.filter q) := by
  refine ((rs.perm _).filter _).trans (List.Perm.of_eq ?_)
  rw [List.filter_filter]
  refine List.filter_congr (fun a _ => ?_)
  cases hq : q a with
  | false => simp
  | true => simp [h a hq]

structure HashSet (α : Type) where
  elems : List α
  nodup : elems.Nodup

namespace HashSet

def empty : HashSet α := ⟨[], by simp⟩

instance : Membership α (HashSet α) := ⟨fun s a => a ∈ s.elems⟩

theorem mem_def {s : HashSet α} {a : α} : a ∈ s ↔ a ∈ s.elems := Iff.rfl

@[simp] theorem not_mem_empty {a : α} : a ∉ (empty : HashSet α) := List.not_mem_nil

instance [DecidableEq α] (s : HashSet α) (a : α) : Decidable (a ∈ s) :=
  inferInstanceAs (Decidable (a ∈ s.elems))

def len (s : HashSet α) : Nat := s.elems.length

def iter (rs : RandomState) (s : HashSet α) : List α := rs.order s.elems

@[simp] theorem mem_iter {rs : RandomState} {s : HashSet α} {a : α} : a ∈ s.iter rs ↔ a ∈ s :=
  rs.mem_order

theorem length_iter {rs : RandomState} {s : HashSet α} : (s.iter rs).length = s.len :=
  (rs.perm _).length_eq

/-- A subset with as many members is the whole set. -/
theorem mem_of_len_le {s t : HashSet α} (hsub : ∀ a ∈ s, a ∈ t) (hlen : t.len ≤ s.len) {a : α}
    (ha : a ∈ t) : a ∈ s :=
  ((List.subperm_of_subset s.nodup hsub).perm_of_length_le hlen).mem_iff.mpr ha

/-- What a loop adds, item by item, to a set. -/
theorem mem_foldl {β : Type} {step : HashSet α → β → HashSet α} {A : β → α → Prop}
    (h : ∀ s b a, a ∈ step s b ↔ a ∈ s ∨ A b a) {l : List β} {s : HashSet α} {a : α} :
    a ∈ l.foldl step s ↔ a ∈ s ∨ ∃ b ∈ l, A b a := by
  induction l generalizing s with
  | nil => simp
  | cons b l ih =>
    rw [List.foldl_cons, ih, h, or_assoc]
    simp only [List.mem_cons, exists_eq_or_imp]

variable [DecidableEq α]

def insert (s : HashSet α) (a : α) : HashSet α :=
  if h : a ∈ s.elems then s
  else ⟨s.elems ++ [a], by
    have hn : ∀ b ∈ s.elems, b ≠ a := fun b hb he => h (he ▸ hb)
    simpa [List.nodup_append, s.nodup] using hn⟩

theorem elems_insert (s : HashSet α) (a : α) :
    (s.insert a).elems = if a ∈ s.elems then s.elems else s.elems ++ [a] := by
  unfold insert
  by_cases h : a ∈ s.elems
  · rw [dif_pos h, if_pos h]
  · rw [dif_neg h, if_neg h]

@[simp] theorem mem_insert {s : HashSet α} {a b : α} : b ∈ s.insert a ↔ b ∈ s ∨ b = a := by
  unfold insert
  by_cases h : a ∈ s.elems
  · simp only [h, dite_true, mem_def]
    exact ⟨.inl, fun hb => hb.elim id (fun he => he ▸ h)⟩
  · simp [h, mem_def]

/-- Gather the items of an iterator. -/
def collect (l : List α) : HashSet α := l.foldl insert empty

@[simp] theorem mem_collect {l : List α} {a : α} : a ∈ collect l ↔ a ∈ l := by
  rw [collect, mem_foldl (fun s b a => mem_insert (s := s) (a := b) (b := a))]
  simp

theorem collect_append_singleton (l : List α) (a : α) :
    collect (l ++ [a]) = (collect l).insert a := by
  rw [collect, List.foldl_append]
  rfl

theorem len_collect_le (l : List α) : (collect l).len ≤ l.length := by
  induction l using List.reverseRecOn with
  | nil => exact Nat.le_refl 0
  | append_singleton l a ih =>
    rw [collect_append_singleton, len, elems_insert, List.length_append, List.length_singleton]
    split_ifs
    · exact Nat.le_succ_of_le ih
    · rw [List.length_append, List.length_singleton]
      exact Nat.succ_le_succ ih

def extend (s t : HashSet α) : HashSet α := t.elems.foldl insert s

@[simp] theorem mem_extend {s t : HashSet α} {a : α} : a ∈ s.extend t ↔ a ∈ s ∨ a ∈ t := by
  rw [extend, mem_foldl (fun s b a => mem_insert (s := s) (a := b) (b := a))]
  simp [mem_def]

def difference (s t : HashSet α) : HashSet α :=
  ⟨s.elems.filter (fun a => a ∉ t), s.nodup.filter _⟩

@[simp] theorem mem_difference {s t : HashSet α} {a : α} : a ∈ s.difference t ↔ a ∈ s ∧ a ∉ t := by
  rw [mem_def, difference, List.mem_filter, decide_eq_true_iff]
  rfl

theorem len_difference_le (s t : HashSet α) : (s.difference t).len ≤ s.len :=
  List.length_filter_le _ _

def intersection (s t : HashSet α) : HashSet α :=
  ⟨s.elems.filter (fun a => a ∈ t), s.nodup.filter _⟩

@[simp] theorem mem_intersection {s t : HashSet α} {a : α} :
    a ∈ s.intersection t ↔ a ∈ s ∧ a ∈ t := by
  rw [mem_def, intersection, List.mem_filter, decide_eq_true_iff]
  rfl

end HashSet

structure HashMap (κ ν : Type) where
  entries : List (κ × ν)
  nodup : (entries.map Prod.fst).Nodup

namespace HashMap

def empty : HashMap κ ν := ⟨[], by simp⟩

def iter (rs : RandomState) (m : HashMap κ ν) : List (κ × ν) := rs.order m.entries

def values (rs : RandomState) (m : HashMap κ ν) : List ν := (m.iter rs).map Prod.snd

theorem mem_values {rs : RandomState} {m : HashMap κ ν} {v : ν} :
    v ∈ m.values rs ↔ ∃ k, (k, v) ∈ m.entries := by
  simp [values, iter]

variable [DecidableEq κ]

def get? (m : HashMap κ ν) (k : κ) : Option ν :=
  (m.entries.find? (fun e => e.1 = k)).map Prod.snd

def containsKey (m : HashMap κ ν) (k : κ) : Bool := (m.get? k).isSome

theorem map_fst_update (f : ν → ν) (l : List (κ × ν)) (k : κ) :
    (l.map (fun e => if e.1 = k then (e.1, f e.2) else e)).map Prod.fst = l.map Prod.fst := by
  rw [List.map_map]
  apply List.map_congr_left
  intro e _
  by_cases he : e.1 = k <;> simp [he]

def update (f : ν → ν) (m : HashMap κ ν) (k : κ) : HashMap κ ν where
  entries := m.entries.map (fun e => if e.1 = k then (e.1, f e.2) else e)
  nodup := (map_fst_update f m.entries k).symm ▸ m.nodup

def insert (m : HashMap κ ν) (k : κ) (v : ν) : HashMap κ ν :=
  if h : k ∈ m.entries.map Prod.fst then m.update (fun _ => v) k
  else ⟨m.entries ++ [(k, v)], by
    have hn : ∀ e ∈ m.entries, e.1 ≠ k := fun e he hk => h (hk ▸ List.mem_map_of_mem he)
    simpa [List.nodup_append, m.nodup] using hn⟩

theorem map_fst_insert (m : HashMap κ ν) (k : κ) (v : ν) :
    (m.insert k v).entries.map Prod.fst =
      if k ∈ m.entries.map Prod.fst then m.entries.map Prod.fst
      else m.entries.map Prod.fst ++ [k] := by
  unfold insert
  by_cases h : k ∈ m.entries.map Prod.fst
  · rw [dif_pos h, if_pos h]
    exact map_fst_update (fun _ => v) m.entries k
  · rw [dif_neg h, if_neg h, List.map_append, List.map_singleton]

/-- Every entry has the property. -/
def All (P : κ → ν → Prop) (m : HashMap κ ν) : Prop := ∀ e ∈ m.entries, P e.1 e.2

section All

variable {P : κ → ν → Prop} {m : HashMap κ ν} {k : κ} {v : ν}

omit [DecidableEq κ] in
theorem all_empty : All P (empty : HashMap κ ν) := by
  intro e he
  cases he

theorem All.get? (h : All P m) (hg : m.get? k = some v) : P k v := by
  obtain ⟨e, he, rfl⟩ := Option.map_eq_some_iff.mp hg
  obtain rfl : e.1 = k := by simpa using List.find?_some he
  exact h e (List.mem_of_find?_eq_some he)

theorem All.update {f : ν → ν} (h : All P m) (hf : ∀ v, P k v → P k (f v)) :
    All P (m.update f k) := by
  intro e he
  obtain ⟨e', he', rfl⟩ := List.mem_map.mp he
  by_cases hk : e'.1 = k
  · rw [if_pos hk]
    exact hk ▸ hf e'.2 (hk ▸ h e' he')
  · rw [if_neg hk]
    exact h e' he'

theorem All.insert (h : All P m) (hv : P k v) : All P (m.insert k v) := by
  unfold HashMap.insert
  by_cases hk : k ∈ m.entries.map Prod.fst
  · rw [dif_pos hk]
    exact h.update (fun _ _ => hv)
  · rw [dif_neg hk]
    intro e he
    obtain he | he := List.mem_append.mp he
    · exact h e he
    · obtain rfl := List.mem_singleton.mp he
      exact hv

end All

theorem containsKey_iff {m : HashMap κ ν} {k : κ} :
    m.containsKey k = true ↔ ∃ v, (k, v) ∈ m.entries := by
  simp [containsKey, get?]

omit [DecidableEq κ] in
/-- A key has one value. -/
theorem value_unique {m : HashMap κ ν} {k : κ} {v v' : ν} (h : (k, v) ∈ m.entries)
    (h' : (k, v') ∈ m.entries) : v = v' := by
  have he : (k, v) = (k, v') := List.inj_on_of_nodup_map m.nodup h h' rfl
  exact (Prod.mk.inj he).2

theorem get?_eq_some_iff {m : HashMap κ ν} {k : κ} {v : ν} :
    m.get? k = some v ↔ (k, v) ∈ m.entries := by
  constructor
  · intro h
    obtain ⟨e, he, rfl⟩ := Option.map_eq_some_iff.mp h
    obtain rfl : e.1 = k := by simpa using List.find?_some he
    exact List.mem_of_find?_eq_some he
  · intro h
    obtain ⟨v', hv'⟩ := Option.isSome_iff_exists.mp (containsKey_iff.mpr ⟨v, h⟩)
    obtain ⟨e, he, rfl⟩ := Option.map_eq_some_iff.mp hv'
    obtain rfl : e.1 = k := by simpa using List.find?_some he
    rw [hv', value_unique h (List.mem_of_find?_eq_some he)]

theorem mem_entries_update {m : HashMap κ ν} {f : ν → ν} {k k' : κ} {v : ν} :
    (k', v) ∈ (m.update f k).entries ↔
      ∃ v₀, (k', v₀) ∈ m.entries ∧ v = if k' = k then f v₀ else v₀ := by
  constructor
  · intro h
    obtain ⟨e, he, heq⟩ := List.mem_map.mp h
    by_cases hk : e.1 = k
    · rw [if_pos hk] at heq
      cases heq
      exact ⟨e.2, he, (if_pos hk).symm⟩
    · rw [if_neg hk] at heq
      subst heq
      exact ⟨v, he, (if_neg hk).symm⟩
  · rintro ⟨v₀, h, rfl⟩
    refine List.mem_map.mpr ⟨(k', v₀), h, ?_⟩
    by_cases hk : k' = k <;> simp [hk]

theorem get?_update {m : HashMap κ ν} {f : ν → ν} {k k' : κ} :
    (m.update f k).get? k' = if k' = k then (m.get? k').map f else m.get? k' := by
  apply Option.ext
  intro v
  rw [get?_eq_some_iff, mem_entries_update]
  by_cases hk : k' = k
  · simp only [hk, if_true, Option.map_eq_some_iff, get?_eq_some_iff, eq_comm (a := v)]
  · simp only [if_neg hk, get?_eq_some_iff, exists_eq_right']

theorem get?_insert {m : HashMap κ ν} {k k' : κ} {v : ν} :
    (m.insert k v).get? k' = if k' = k then some v else m.get? k' := by
  unfold insert
  by_cases h : k ∈ m.entries.map Prod.fst
  · rw [dif_pos h, get?_update]
    by_cases hk : k' = k
    · obtain ⟨e, he, rfl⟩ := List.mem_map.mp h
      have hg : m.get? k' = some e.2 := get?_eq_some_iff.mpr (hk ▸ he)
      rw [if_pos hk, if_pos hk, hg, Option.map_some]
    · rw [if_neg hk, if_neg hk]
  · rw [dif_neg h]
    apply Option.ext
    intro v'
    rw [get?_eq_some_iff, List.mem_append, List.mem_singleton, Prod.mk.injEq]
    by_cases hk : k' = k
    · have hn : (k', v') ∉ m.entries := fun hm => h (hk ▸ List.mem_map_of_mem hm)
      simp [hk, hk ▸ hn, eq_comm]
    · simp [hk, get?_eq_some_iff]

@[simp] theorem containsKey_insert {m : HashMap κ ν} {k k' : κ} {v : ν} :
    (m.insert k v).containsKey k' = true ↔ m.containsKey k' = true ∨ k' = k := by
  unfold containsKey
  rw [get?_insert]
  by_cases hk : k' = k <;> simp [hk]

/-- Gather the pairs of an iterator; a later pair replaces an earlier one with its key. -/
def collect (l : List (κ × ν)) : HashMap κ ν := l.foldl (fun m e => m.insert e.1 e.2) empty

/-- What a collected map finds is one of the entries. -/
theorem mem_of_get?_collect {l : List (κ × ν)} {k : κ} {v : ν} (h : (collect l).get? k = some v) :
    (k, v) ∈ l := by
  induction l using List.reverseRecOn with
  | nil => cases h
  | append_singleton l e ih =>
    rw [collect, List.foldl_append, List.foldl_cons, List.foldl_nil, get?_insert] at h
    by_cases hk : k = e.1
    · rw [if_pos hk] at h
      cases h
      exact List.mem_append_right _ (hk ▸ List.mem_singleton_self _)
    · rw [if_neg hk] at h
      exact List.mem_append_left _ (ih h)

theorem containsKey_collect {l : List (κ × ν)} {k : κ} :
    (collect l).containsKey k = true ↔ ∃ e ∈ l, e.1 = k := by
  have h : ∀ (l : List (κ × ν)) (m : HashMap κ ν),
      (l.foldl (fun m e => m.insert e.1 e.2) m).containsKey k = true ↔
        m.containsKey k = true ∨ ∃ e ∈ l, e.1 = k := by
    intro l
    induction l with
    | nil => simp
    | cons e l ih =>
      intro m
      rw [List.foldl_cons, ih, containsKey_insert, or_assoc, eq_comm (a := k)]
      simp only [List.mem_cons, exists_eq_or_imp]
  rw [collect, h]
  simp [containsKey_iff, empty]

/-- A map of some rows by their key finds what a map of all rows finds, if those with the key are
among them. -/
theorem get?_collect_of_mem_iff {key : ν → κ} {rows l : List ν} {ks : List κ}
    (hnd : (rows.map key).Nodup) (hl : ∀ v, v ∈ l ↔ v ∈ rows ∧ key v ∈ ks) {k : κ} (hk : k ∈ ks) :
    (collect (l.map (fun v => (key v, v)))).get? k =
      (collect (rows.map (fun v => (key v, v)))).get? k := by
  have hfound : ∀ {l' : List ν} {v : ν}, (collect (l'.map (fun v => (key v, v)))).get? k = some v →
      v ∈ l' ∧ key v = k := by
    intro l' v h
    obtain ⟨v', hv', he⟩ := List.mem_map.mp (mem_of_get?_collect h)
    cases he
    exact ⟨hv', rfl⟩
  have hexists : ∀ {l' : List ν} {v : ν}, v ∈ l' → key v = k →
      ((collect (l'.map (fun v => (key v, v)))).get? k).isSome := fun hv he =>
    containsKey_collect.mpr ⟨_, List.mem_map_of_mem hv, he⟩
  cases hrows : (collect (rows.map (fun v => (key v, v)))).get? k with
  | none =>
    cases hsome : (collect (l.map (fun v => (key v, v)))).get? k with
    | none => rfl
    | some v =>
      obtain ⟨hv, he⟩ := hfound hsome
      have h := hexists ((hl v).mp hv).1 he
      rw [hrows] at h
      cases h
  | some v =>
    obtain ⟨hv, he⟩ := hfound hrows
    obtain ⟨v', hsome⟩ := Option.isSome_iff_exists.mp (hexists ((hl v).mpr ⟨hv, he ▸ hk⟩) he)
    obtain ⟨hv', he'⟩ := hfound hsome
    rw [hsome, List.inj_on_of_nodup_map hnd ((hl v').mp hv').1 hv (he'.trans he.symm)]

end HashMap

end MiningpoolObserver.Library.HashCollections
