import Mathlib.Algebra.BigOperators.Group.List.Basic
import Mathlib.Algebra.GroupWithZero.Nat
import Mathlib.Data.List.Sort
import MiningpoolObserver.Library.KeyedTable

namespace MiningpoolObserver.Library.Queries

open MiningpoolObserver.Library.KeyedTable

variable {α β κ : Type}

/-- `INNER JOIN .. ON`. -/
def innerJoin (on : α → β → Prop) [∀ a b, Decidable (on a b)] (l : List α) (r : List β) :
    List (α × β) :=
  l.flatMap (fun a => (r.filter (fun b => on a b)).map (fun b => (a, b)))

/-- `ORDER BY .. ASC`. -/
def orderAsc [LE κ] [DecidableLE κ] (f : α → κ) (l : List α) : List α :=
  l.insertionSort (fun a b => f a ≤ f b)

/-- `ORDER BY .. DESC`. -/
def orderDesc [LE κ] [DecidableLE κ] (f : α → κ) (l : List α) : List α :=
  l.insertionSort (fun a b => f b ≤ f a)

/-- `LIMIT .. OFFSET`, one page of the rows. -/
def page (size n : Nat) (l : List α) : List α := (l.drop (size * n)).take size

section Membership

variable {on : α → β → Prop} [∀ a b, Decidable (on a b)] {l : List α} {r : List β} {a : α} {b : β}

@[simp] theorem mem_innerJoin : (a, b) ∈ innerJoin on l r ↔ a ∈ l ∧ b ∈ r ∧ on a b := by
  simp only [innerJoin, List.mem_flatMap, List.mem_map, List.mem_filter, decide_eq_true_eq,
    Prod.mk.injEq]
  constructor
  · rintro ⟨a', ha, b', ⟨hb, hon⟩, rfl, rfl⟩
    exact ⟨ha, hb, hon⟩
  · rintro ⟨ha, hb, hon⟩
    exact ⟨a, ha, b, ⟨hb, hon⟩, rfl, rfl⟩

@[simp] theorem mem_orderDesc [LE κ] [DecidableLE κ] {f : α → κ} : a ∈ orderDesc f l ↔ a ∈ l :=
  List.mem_insertionSort _

theorem perm_orderAsc [LE κ] [DecidableLE κ] {f : α → κ} : (orderAsc f l).Perm l :=
  List.perm_insertionSort _ l

theorem perm_orderDesc [LE κ] [DecidableLE κ] {f : α → κ} : (orderDesc f l).Perm l :=
  List.perm_insertionSort _ l

theorem nodup_innerJoin (hl : l.Nodup) (hr : r.Nodup) : (innerJoin on l r).Nodup := by
  apply List.nodup_flatMap.mpr
  refine ⟨fun a _ => (hr.filter _).map (fun b b' h => (Prod.mk.inj h).2), ?_⟩
  apply hl.imp
  intro a a' hne p hp hp'
  obtain ⟨b, -, rfl⟩ := List.mem_map.mp hp
  obtain ⟨b', -, he⟩ := List.mem_map.mp hp'
  exact hne (Prod.mk.inj he).1.symm

theorem page_subset {size n : Nat} : page size n l ⊆ l :=
  fun _ h => List.mem_of_mem_drop (List.mem_of_mem_take h)

end Membership

section Order

variable [LE κ] [DecidableLE κ] [Std.IsLinearOrder κ] {f : α → κ} {l l' : List α}

theorem pairwise_orderDesc : (orderDesc f l).Pairwise (fun a b => f b ≤ f a) := by
  have : Std.Total (fun a b : α => f b ≤ f a) := ⟨fun _ _ => Std.le_total⟩
  have : IsTrans α (fun a b : α => f b ≤ f a) := ⟨fun _ _ _ hab hbc => Std.le_trans hbc hab⟩
  exact List.pairwise_insertionSort _ l

/-- Rows with different values come in one order only, also when they are picked from more rows. -/
theorem filter_orderDesc {p : α → Bool} (hp : l'.Perm (l.filter p))
    (hne : ∀ a ∈ l', ∀ b ∈ l', f a = f b → a = b) :
    (orderDesc f l).filter p = orderDesc f l' := by
  have hperm : ((orderDesc f l).filter p).Perm l' := (perm_orderDesc.filter p).trans hp.symm
  refine List.Perm.eq_of_pairwise (fun a b ha hb hab hba => ?_) (pairwise_orderDesc.filter p)
    pairwise_orderDesc (hperm.trans perm_orderDesc.symm)
  exact hne a (hperm.mem_iff.mp ha) b (perm_orderDesc.mem_iff.mp hb) (Std.le_antisymm hba hab)

end Order

variable {key : β → κ} [DecidableEq κ]

/-- A join on the primary key of a table looks each row up. -/
theorem innerJoin_key (t : Table β κ key) (f : α → κ) (l : List α) :
    innerJoin (fun a b => key b = f a) l t.rows =
      l.filterMap (fun a => (t.find? (f a)).map (fun b => (a, b))) := by
  have hrow : ∀ a, ((t.find? (f a)).toList).map (fun b => (a, b)) =
      ((t.find? (f a)).map (fun b => (a, b))).toList := by
    intro a
    cases t.find? (f a) <;> rfl
  induction l with
  | nil => rfl
  | cons a l ih =>
    have hcons : innerJoin (fun a b => key b = f a) (a :: l) t.rows =
        ((t.rows.filter (fun b => key b = f a)).map (fun b => (a, b))) ++
          innerJoin (fun a b => key b = f a) l t.rows := rfl
    rw [hcons, ih, t.filter_key, hrow]
    cases hf : t.find? (f a) with
    | none => simp [hf]
    | some b => simp [hf]

/-- A join on the primary key of a table, by references that are valid, keeps the number of rows. -/
theorem length_innerJoin_key {t : Table β κ key} {f : α → κ} {l : List α}
    (h : ∀ a ∈ l, f a ∈ t.keys) :
    (innerJoin (fun a b => key b = f a) l t.rows).length = l.length := by
  rw [innerJoin_key]
  induction l with
  | nil => rfl
  | cons a l ih =>
    cases hf : t.find? (f a) with
    | none => exact absurd (h a List.mem_cons_self) (t.find?_eq_none_iff.mp hf)
    | some b =>
      rw [List.filterMap_cons_some (by rw [hf, Option.map_some]), List.length_cons,
        List.length_cons, ih (fun a' ha' => h a' (List.mem_cons_of_mem a ha'))]

/-- Such a join gives each row of the left side once. -/
theorem map_fst_innerJoin_key {t : Table β κ key} {f : α → κ} {l : List α}
    (h : ∀ a ∈ l, f a ∈ t.keys) :
    (innerJoin (fun a b => key b = f a) l t.rows).map Prod.fst = l := by
  rw [innerJoin_key]
  induction l with
  | nil => rfl
  | cons a l ih =>
    cases hf : t.find? (f a) with
    | none => exact absurd (h a List.mem_cons_self) (t.find?_eq_none_iff.mp hf)
    | some b =>
      rw [List.filterMap_cons_some (by rw [hf, Option.map_some]), List.map_cons,
        ih (fun a' ha' => h a' (List.mem_cons_of_mem a ha'))]

/-- As many of its rows have a value in a column as there are references that have it. -/
theorem length_innerJoin_filter {γ : Type} [DecidableEq γ] {t : Table β κ key} {f : α → κ}
    {column : α → γ} {l : List α} (h : ∀ a ∈ l, f a ∈ t.keys) (c : γ) :
    (innerJoin (fun a b => key b = f a) (l.filter (fun a => column a = c)) t.rows).length =
      (l.map column).count c := by
  rw [length_innerJoin_key (fun a ha => h a (List.mem_of_mem_filter ha)), List.count_eq_countP,
    List.countP_map, List.countP_eq_length_filter]
  congr 2

theorem sum_map_ite (l : List α) (q : α → Bool) :
    (l.map (fun a => if q a = true then 1 else 0)).sum = l.countP q := by
  induction l with
  | nil => rfl
  | cons a l ih => rw [List.map_cons, List.sum_cons, ih, List.countP_cons, Nat.add_comm]

/-- A condition on what is summed picks the rows. -/
theorem sum_map_ite_filter (l : List α) (p : α → Prop) [DecidablePred p] (f : α → ℕ) :
    (l.map (fun a => if p a then f a else 0)).sum = ((l.filter p).map f).sum := by
  induction l with
  | nil => rfl
  | cons a l ih =>
    by_cases ha : p a <;> simp [ha, ih]

/-- Pairs are counted by either side. -/
theorem sum_countP_comm (l : List α) (r : List β) (q : α → β → Bool) :
    (l.map (fun a => r.countP (q a))).sum = (r.map (fun b => l.countP (fun a => q a b))).sum := by
  induction r with
  | nil => simp
  | cons b r ih =>
    simp only [List.countP_cons, List.sum_map_add, sum_map_ite, List.map_cons, List.sum_cons, ih]
    exact Nat.add_comm _ _

/-- The pairs of a join, counted by the rows of its right side. -/
theorem countP_innerJoin {on : α → β → Prop} [∀ a b, Decidable (on a b)] (l : List α) (r : List β)
    (p : α → β → Bool) : (innerJoin on l r).countP (fun ab => p ab.1 ab.2) =
      (r.map (fun b => l.countP (fun a => p a b && decide (on a b)))).sum := by
  have hrow : ∀ a, ((r.filter (fun b => on a b)).map (fun b => (a, b))).countP
      (fun ab => p ab.1 ab.2) = r.countP (fun b => p a b && decide (on a b)) := by
    intro a
    rw [List.countP_map, List.countP_filter]
    rfl
  rw [innerJoin, List.countP_flatMap, ← sum_countP_comm]
  exact congrArg List.sum (List.map_congr_left fun a _ => hrow a)

end MiningpoolObserver.Library.Queries
