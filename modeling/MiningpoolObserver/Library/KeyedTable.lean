import Mathlib.Data.List.Nodup

namespace MiningpoolObserver.Library.KeyedTable

variable {α κ : Type} {key : α → κ}

/-- A table with a primary key: no two rows agree on it. -/
structure Table (α κ : Type) (key : α → κ) where
  rows : List α
  nodup : (rows.map key).Nodup

namespace Table

def empty : Table α κ key := ⟨[], by simp⟩

def keys (t : Table α κ key) : List κ := t.rows.map key

theorem ext_rows {t u : Table α κ key} (h : t.rows = u.rows) : t = u := by
  cases t
  cases u
  simp_all

/-- Two rows with one key are one row. -/
theorem row_unique (t : Table α κ key) {r s : α} (hr : r ∈ t.rows) (hs : s ∈ t.rows)
    (h : key r = key s) : r = s :=
  List.inj_on_of_nodup_map t.nodup hr hs h

/-- Rewrite every row, leaving the key as it is. -/
def update (t : Table α κ key) (f : α → α) (hf : ∀ r, key (f r) = key r) : Table α κ key where
  rows := t.rows.map f
  nodup := by simpa [Function.comp_def, hf] using t.nodup

@[simp] theorem rows_update (t : Table α κ key) (f : α → α) (hf : ∀ r, key (f r) = key r) :
    (t.update f hf).rows = t.rows.map f := rfl

variable [DecidableEq κ]

/-- Whether a row has the key. -/
def has (t : Table α κ key) (k : κ) : Bool := decide (k ∈ t.keys)

@[simp] theorem has_iff (t : Table α κ key) {k : κ} : t.has k = true ↔ k ∈ t.keys :=
  decide_eq_true_iff

def find? (t : Table α κ key) (k : κ) : Option α := t.rows.find? (fun r => key r = k)

theorem find?_eq_some_iff (t : Table α κ key) {k : κ} {r : α} :
    t.find? k = some r ↔ r ∈ t.rows ∧ key r = k := by
  constructor
  · intro h
    exact ⟨List.mem_of_find?_eq_some h, by simpa using List.find?_some h⟩
  · rintro ⟨hr, rfl⟩
    cases hf : t.find? (key r) with
    | none =>
      have hn := List.find?_eq_none.mp hf r hr
      simp at hn
    | some s =>
      have hs : key s = key r := by simpa using List.find?_some hf
      rw [t.row_unique (List.mem_of_find?_eq_some hf) hr hs]

theorem find?_eq_none_iff (t : Table α κ key) {k : κ} : t.find? k = none ↔ k ∉ t.keys := by
  simp [find?, keys]

/-- At most one row has the key. -/
theorem filter_key (t : Table α κ key) (k : κ) :
    t.rows.filter (fun r => key r = k) = (t.find? k).toList := by
  have hhead : (t.rows.filter (fun r => key r = k)).head? = t.find? k := List.head?_filter
  have hnd : (t.rows.filter (fun r => key r = k)).Nodup := (List.Nodup.of_map key t.nodup).filter _
  cases hf : t.rows.filter (fun r => key r = k) with
  | nil =>
    rw [hf] at hhead
    simp [← hhead]
  | cons r rs =>
    rw [hf] at hhead hnd
    have hmem : ∀ s ∈ r :: rs, s ∈ t.rows ∧ key s = k := fun s hs => by simpa [← hf] using hs
    have hrs : rs = [] := by
      apply List.eq_nil_iff_forall_not_mem.mpr
      intro s hs
      have hr := hmem r List.mem_cons_self
      have hs' := hmem s (List.mem_cons_of_mem r hs)
      have heq := t.row_unique hr.1 hs'.1 (hr.2.trans hs'.2.symm)
      exact (List.nodup_cons.mp hnd).1 (heq ▸ hs)
    simp [← hhead, hrs]

/-- Add one row, unless its key is taken. -/
def insertRow (t : Table α κ key) (r : α) : Option (Table α κ key) :=
  if h : key r ∈ t.keys then none
  else some ⟨t.rows ++ [r], by
    have hn : ∀ x ∈ t.rows, key x ≠ key r := fun x hx he => h (he ▸ List.mem_map_of_mem hx)
    simpa [List.nodup_append, t.nodup] using hn⟩

theorem insertRow_eq_some_iff (t : Table α κ key) {r : α} {u : Table α κ key} :
    t.insertRow r = some u ↔ key r ∉ t.keys ∧ u.rows = t.rows ++ [r] := by
  unfold insertRow
  by_cases h : key r ∈ t.keys
  · simp [h]
  · simp only [h, dite_false, Option.some.injEq, not_false_eq_true, true_and]
    exact ⟨fun hu => hu ▸ rfl, fun hu => ext_rows hu.symm⟩

theorem insertRow_eq_none_iff (t : Table α κ key) {r : α} :
    t.insertRow r = none ↔ key r ∈ t.keys := by
  by_cases h : key r ∈ t.keys <;> simp [insertRow, h]

/-- `INSERT`: all of the rows, or none when a key is taken twice. -/
def insert (t : Table α κ key) (rs : List α) : Option (Table α κ key) := rs.foldlM insertRow t

theorem insert_cons (t : Table α κ key) (r : α) (rs : List α) :
    t.insert (r :: rs) = (t.insertRow r).bind (fun u => u.insert rs) := rfl

theorem rows_of_insert {t u : Table α κ key} {rs : List α} (h : t.insert rs = some u) :
    u.rows = t.rows ++ rs := by
  induction rs generalizing t with
  | nil =>
    cases h
    simp
  | cons r rs ih =>
    rw [insert_cons, Option.bind_eq_some_iff] at h
    obtain ⟨v, hv, hu⟩ := h
    have hr := (insertRow_eq_some_iff t).mp hv
    rw [ih hu, hr.2, List.append_assoc, List.singleton_append]

/-- All of the rows can be inserted when no key is taken, in the table or among them. -/
theorem exists_insert_iff (t : Table α κ key) {rs : List α} :
    (∃ u, t.insert rs = some u) ↔ (t.keys ++ rs.map key).Nodup := by
  constructor
  · rintro ⟨u, hu⟩
    have hn := u.nodup
    rwa [rows_of_insert hu, List.map_append] at hn
  · intro hn
    induction rs generalizing t with
    | nil => exact ⟨t, rfl⟩
    | cons r rs ih =>
      have hr : key r ∉ t.keys := by
        rw [List.map_cons, List.nodup_middle, List.nodup_cons] at hn
        exact fun h => hn.1 (List.mem_append_left _ h)
      obtain ⟨u, hu⟩ : ∃ u, t.insertRow r = some u :=
        Option.ne_none_iff_exists'.mp (fun h => hr ((insertRow_eq_none_iff t).mp h))
      obtain ⟨v, hv⟩ := ih u (by
        rw [keys, ((insertRow_eq_some_iff t).mp hu).2, List.map_append, List.append_assoc]
        exact hn)
      exact ⟨v, by rw [insert_cons, hu, Option.bind_some, hv]⟩

/-- `INSERT .. ON CONFLICT DO NOTHING RETURNING`: the rows whose key was free, in order. -/
def insertNew (t : Table α κ key) : List α → Table α κ key × List α
  | [] => (t, [])
  | r :: rs =>
    match t.insertRow r with
    | some u => ((insertNew u rs).1, r :: (insertNew u rs).2)
    | none => insertNew t rs

theorem rows_insertNew (t : Table α κ key) (rs : List α) :
    (t.insertNew rs).1.rows = t.rows ++ (t.insertNew rs).2 := by
  induction rs generalizing t with
  | nil => simp [insertNew]
  | cons r rs ih =>
    cases h : t.insertRow r with
    | none => simpa [insertNew, h] using ih t
    | some u =>
      have hu := (insertRow_eq_some_iff t).mp h
      simp [insertNew, h, ih u, hu.2]

theorem mem_of_mem_insertNew {t : Table α κ key} {rs : List α} {r : α}
    (h : r ∈ (t.insertNew rs).2) : r ∈ rs := by
  induction rs generalizing t with
  | nil => simp [insertNew] at h
  | cons s rs ih =>
    cases hs : t.insertRow s with
    | none =>
      rw [insertNew, hs] at h
      exact List.mem_cons_of_mem _ (ih h)
    | some u =>
      rw [insertNew, hs] at h
      obtain rfl | h := List.mem_cons.mp h
      · exact List.mem_cons_self
      · exact List.mem_cons_of_mem _ (ih h)

/-- Every key of the batch is in the table afterwards. -/
theorem mem_keys_insertNew (t : Table α κ key) {rs : List α} {r : α} (hr : r ∈ rs) :
    key r ∈ (t.insertNew rs).1.keys := by
  induction rs generalizing t with
  | nil => simp at hr
  | cons s rs ih =>
    cases hs : t.insertRow s with
    | none =>
      rw [insertNew, hs]
      obtain rfl | hr := List.mem_cons.mp hr
      · have hst : key r ∈ t.keys := (insertRow_eq_none_iff t).mp hs
        rw [keys, rows_insertNew, List.map_append]
        exact List.mem_append_left _ hst
      · exact ih t hr
    | some u =>
      rw [insertNew, hs]
      obtain rfl | hr := List.mem_cons.mp hr
      · have hu := ((insertRow_eq_some_iff t).mp hs).2
        simp [keys, rows_insertNew, hu]
      · exact ih u hr

theorem find?_update (t : Table α κ key) (f : α → α) (hf : ∀ r, key (f r) = key r) (k : κ) :
    (t.update f hf).find? k = (t.find? k).map f := by
  rw [find?, rows_update, List.find?_map, find?]
  congr 2
  funext r
  rw [Function.comp_apply, hf]

theorem find?_of_insertRow {t u : Table α κ key} {r : α} (h : t.insertRow r = some u) (k : κ) :
    u.find? k = (t.find? k).or (if key r = k then some r else none) := by
  rw [find?, ((insertRow_eq_some_iff t).mp h).2, List.find?_append, find?]
  by_cases hk : key r = k <;> simp [hk]

/-- The row that was there stays; otherwise the first one of the batch is inserted. -/
theorem find?_insertNew (t : Table α κ key) (rs : List α) (k : κ) :
    (t.insertNew rs).1.find? k = (t.find? k).or (rs.find? (fun r => key r = k)) := by
  induction rs generalizing t with
  | nil => rw [insertNew, List.find?_nil, Option.or_none]
  | cons r rs ih =>
    rw [insertNew, List.find?_cons]
    cases h : t.insertRow r with
    | none =>
      rw [ih]
      by_cases hk : key r = k
      · have hm : k ∈ t.keys := hk ▸ (insertRow_eq_none_iff t).mp h
        cases hf : t.find? k with
        | none => exact absurd hm (t.find?_eq_none_iff.mp hf)
        | some r' => rw [Option.some_or, Option.some_or]
      · simp [hk]
    | some u =>
      rw [ih, find?_of_insertRow h, Option.or_assoc]
      by_cases hk : key r = k <;> simp [hk]

/-- The keys that were free are those that are inserted. -/
theorem mem_keys_insertNew_iff (t : Table α κ key) (rs : List α) (k : κ) :
    k ∈ (t.insertNew rs).2.map key ↔ k ∈ rs.map key ∧ k ∉ t.keys := by
  induction rs generalizing t with
  | nil => simp [insertNew]
  | cons r rs ih =>
    rw [insertNew]
    cases h : t.insertRow r with
    | none =>
      have hm := (insertRow_eq_none_iff t).mp h
      rw [ih, List.map_cons, List.mem_cons]
      refine and_congr_left (fun hk => ⟨.inr, fun hr => hr.resolve_left (fun he => hk (he ▸ hm))⟩)
    | some u =>
      obtain ⟨hr, hrows⟩ := (insertRow_eq_some_iff t).mp h
      have hu : k ∈ u.keys ↔ k ∈ t.keys ∨ k = key r := by
        rw [keys, hrows, List.map_append, List.mem_append, keys, List.map_singleton,
          List.mem_singleton]
      rw [List.map_cons, List.mem_cons, ih, hu, List.map_cons, List.mem_cons]
      by_cases hk : k = key r
      · simp [hk, hr]
      · simp [hk]

theorem mem_keys_insertNew_empty (rs : List α) (k : κ) :
    k ∈ ((empty : Table α κ key).insertNew rs).1.keys ↔ k ∈ rs.map key := by
  rw [keys, rows_insertNew, List.map_append, List.mem_append, mem_keys_insertNew_iff]
  simp [empty, keys]

end Table

end MiningpoolObserver.Library.KeyedTable
