import Mathlib.Data.List.Basic
import Mathlib.Logic.Function.Basic

namespace MiningpoolObserver.Library.RefCells

/-- How a cell is borrowed: by a number of readers, or by one writer. -/
inductive BorrowFlag where
  | reading (guards : Nat)
  | writing
deriving DecidableEq

inductive BorrowPanic where
  | alreadyMutablyBorrowed
  | alreadyBorrowed
deriving DecidableEq

structure RefCell (α : Type) where
  value : α
  flag : BorrowFlag

def RefCell.new {α : Type} (value : α) : RefCell α := ⟨value, .reading 0⟩

/-- Where a cell lies in a memory. -/
structure Place (σ α : Type) where
  get : σ → RefCell α
  set : RefCell α → σ → σ
  get_set : ∀ c s, get (set c s) = c
  set_get : ∀ s, set (get s) s = s
  set_set : ∀ c d s, set d (set c s) = set d s

/-- Code that works on cells. -/
abbrev Access (σ β : Type) := StateT σ (Except BorrowPanic) β

variable {σ α β γ ι : Type}

theorem Access.bind_eq {m : Access σ β} {s s' : σ} {b : β} (h : m s = .ok (b, s'))
    (k : β → Access σ γ) : (m >>= k) s = k b s' := by
  change (m s >>= fun r => k r.1 r.2) = _
  rw [h]
  rfl

/-- The same place in one of many memories. -/
def Place.at [DecidableEq ι] (p : Place σ α) (i : ι) : Place (ι → σ) α where
  get m := p.get (m i)
  set c m := Function.update m i (p.set c (m i))
  get_set c m := by rw [Function.update_self, p.get_set]
  set_get m := by rw [p.set_get, Function.update_eq_self]
  set_set c d m := by rw [Function.update_self, p.set_set, Function.update_idem]

@[simp] theorem Place.get_at [DecidableEq ι] (p : Place σ α) (i : ι) (m : ι → σ) :
    (p.at i).get m = p.get (m i) := rfl

@[simp] theorem Place.set_at [DecidableEq ι] (p : Place σ α) (i : ι) (c : RefCell α) (m : ι → σ) :
    (p.at i).set c m = Function.update m i (p.set c (m i)) := rfl

/-- Drop the guard of a reader. -/
def Place.release (p : Place σ α) (s : σ) : σ :=
  match p.get s with
  | ⟨a, .reading n⟩ => p.set ⟨a, .reading (n - 1)⟩ s
  | ⟨_, .writing⟩ => s

/-- Read a cell, with the guard alive as long as `k` runs. -/
def Place.borrow (p : Place σ α) (k : α → Access σ β) : Access σ β := fun s =>
  match p.get s with
  | ⟨a, .reading n⟩ => do
    let (b, s) ← k a (p.set ⟨a, .reading (n + 1)⟩ s)
    pure (b, p.release s)
  | ⟨_, .writing⟩ => .error .alreadyMutablyBorrowed

/-- Write to a cell, with the guard alive as long as `k` runs. -/
def Place.borrowMut (p : Place σ α) (k : α → Access σ (β × α)) : Access σ β := fun s =>
  match p.get s with
  | ⟨a, .reading 0⟩ => do
    let ((b, a), s) ← k a (p.set ⟨a, .writing⟩ s)
    pure (b, p.set ⟨a, .reading 0⟩ s)
  | _ => .error .alreadyBorrowed

def Place.replace (p : Place σ α) (a : α) : Access σ α := p.borrowMut (fun old => pure (old, a))

theorem Place.borrowMut_pure {p : Place σ α} {s : σ} {a : α} (h : p.get s = RefCell.new a)
    (f : α → β × α) :
    p.borrowMut (fun a => pure (f a)) s = .ok ((f a).1, p.set (RefCell.new (f a).2) s) := by
  unfold Place.borrowMut
  rw [h]
  change Except.ok ((f a).1, p.set ⟨(f a).2, .reading 0⟩ (p.set _ s)) = _
  rw [p.set_set]
  rfl

theorem Place.replace_eq {p : Place σ α} {s : σ} {a : α} (h : p.get s = RefCell.new a) (b : α) :
    p.replace b s = .ok (a, p.set (RefCell.new b) s) :=
  Place.borrowMut_pure h (fun old => (old, b))

/-- In every memory with `q` the code gives `b` and leaves the memory as it was. -/
def Reads (q : σ → Prop) (m : Access σ β) (b : β) : Prop := ∀ s, q s → m s = .ok (b, s)

/-- In every memory with `q` the cell holds `a` and one more reader may borrow it. -/
def Shows (q : σ → Prop) (p : Place σ α) (a : α) : Prop :=
  ∀ s, q s → ∃ n, p.get s = ⟨a, .reading n⟩ ∧ q (p.set ⟨a, .reading (n + 1)⟩ s)

/-- A cell of one memory among many, each of which has its own property. -/
theorem Shows.at [DecidableEq ι] {q : ι → σ → Prop} {p : Place σ α} {i : ι} {a : α}
    (h : Shows (q i) p a) : Shows (fun m => ∀ i, q i (m i)) (p.at i) a := by
  intro m hm
  obtain ⟨n, hg, hq⟩ := h (m i) (hm i)
  refine ⟨n, hg, fun j => ?_⟩
  rw [Place.set_at]
  obtain rfl | hne := eq_or_ne j i
  · rw [Function.update_self]
    exact hq
  · rw [Function.update_of_ne hne]
    exact hm j

section Reads

variable {q : σ → Prop}

theorem Reads.pure (b : β) : Reads q (Pure.pure b) b := fun _ _ => rfl

theorem Reads.bind {m : Access σ β} {b : β} {k : β → Access σ γ} {c : γ} (hm : Reads q m b)
    (hk : Reads q (k b) c) : Reads q (m >>= k) c := by
  intro s hs
  rw [Access.bind_eq (hm s hs)]
  exact hk s hs

theorem Reads.borrow {p : Place σ α} {a : α} {k : α → Access σ β} {b : β} (hp : Shows q p a)
    (hk : Reads q (k a) b) : Reads q (p.borrow k) b := by
  intro s hs
  obtain ⟨n, hg, hq⟩ := hp s hs
  have hrelease : p.release (p.set ⟨a, .reading (n + 1)⟩ s) = s := by
    rw [Place.release, p.get_set]
    change p.set ⟨a, .reading n⟩ _ = s
    rw [p.set_set, ← hg, p.set_get]
  unfold Place.borrow
  rw [hg]
  change (k a _ >>= fun r => Except.ok (r.1, p.release r.2)) = _
  rw [hk _ hq]
  change Except.ok (b, p.release _) = _
  rw [hrelease]

/-- A guard that is dropped at once. -/
theorem Place.borrow_pure {p : Place σ α} {s : σ} {a : α} {n : Nat}
    (h : p.get s = ⟨a, .reading n⟩) (f : α → β) :
    p.borrow (fun a => Pure.pure (f a)) s = .ok (f a, s) := by
  have hp : Shows (fun s => ∃ n, p.get s = ⟨a, .reading n⟩) p a := by
    rintro s ⟨n, hn⟩
    exact ⟨n, hn, n + 1, p.get_set _ s⟩
  exact Reads.borrow (k := fun a => Pure.pure (f a)) hp (Reads.pure (f a)) s ⟨n, h⟩

theorem Reads.ite {c : Prop} [Decidable c] {m m' : Access σ β} {b b' : β}
    (h : c → Reads q m b) (h' : ¬ c → Reads q m' b') :
    Reads q (if c then m else m') (if c then b else b') := by
  split_ifs with hc
  · exact h hc
  · exact h' hc

theorem Reads.anyM {f : α → Access σ Bool} {g : α → Bool} {l : List α}
    (h : ∀ a ∈ l, Reads q (f a) (g a)) : Reads q (l.anyM f) (l.any g) := by
  induction l with
  | nil => exact Reads.pure false
  | cons a l ih =>
    rw [List.anyM_cons, List.any_cons]
    apply Reads.bind (h a List.mem_cons_self)
    cases g a with
    | true => exact Reads.pure true
    | false => exact ih (fun a' ha' => h a' (List.mem_cons_of_mem a ha'))

theorem Reads.foldlM {f : β → α → Access σ β} {g : β → α → β} {l : List α}
    (h : ∀ a ∈ l, ∀ b, Reads q (f b a) (g b a)) (b : β) :
    Reads q (l.foldlM f b) (l.foldl g b) := by
  induction l generalizing b with
  | nil => exact Reads.pure b
  | cons a l ih =>
    rw [List.foldlM_cons, List.foldl_cons]
    apply Reads.bind (h a List.mem_cons_self b)
    exact ih (fun a' ha' => h a' (List.mem_cons_of_mem a ha')) _

end Reads

end MiningpoolObserver.Library.RefCells
