import Mathlib.Order.Basic
import Mathlib.Order.Lattice
import Mathlib.Logic.Relation

namespace MiningpoolObserver.Library.Runs

variable {σ ℓ : Type*} {init : σ → Prop} {step : σ → ℓ → σ → Prop}

/-- A finite run of a labelled step relation. Beyond `length` the two sequences mean nothing. -/
structure Run (init : σ → Prop) (step : σ → ℓ → σ → Prop) where
  length : ℕ
  state : ℕ → σ
  label : ℕ → ℓ
  starts : init (state 0)
  steps : ∀ i < length, step (state i) (label i) (state (i + 1))

namespace Run

variable {I P : σ → Prop} {C : σ → ℓ → Prop}

/-- An invariant that steps keep as long as they meet the condition `C`. -/
theorem invariant_of_condition (ρ : Run init step) (hinit : ∀ s, init s → I s)
    (hstep : ∀ s l t, I s → C s l → step s l t → I t)
    (hC : ∀ i < ρ.length, C (ρ.state i) (ρ.label i)) : ∀ i ≤ ρ.length, I (ρ.state i) := by
  intro i
  induction i with
  | zero => exact fun _ => hinit _ ρ.starts
  | succ i ih =>
    intro hi
    exact hstep _ _ _ (ih (by omega)) (hC i (by omega)) (ρ.steps i (by omega))

theorem invariant (ρ : Run init step) (hinit : ∀ s, init s → I s)
    (hstep : ∀ s l t, I s → step s l t → I t) : ∀ i ≤ ρ.length, I (ρ.state i) :=
  ρ.invariant_of_condition (C := fun _ _ => True) hinit (fun s l t hs _ h => hstep s l t hs h)
    (fun _ _ => trivial)

/-- When every step outside the condition breaks the property, and every step inside keeps an
invariant that implies it, the runs with the property are those inside the condition. -/
theorem forall_state_iff (ρ : Run init step) (hinit : ∀ s, init s → I s)
    (hP : ∀ s, I s → P s) (hkeep : ∀ s l t, I s → C s l → step s l t → I t)
    (hbreak : ∀ s l t, I s → ¬ C s l → step s l t → ¬ P t) :
    (∀ i ≤ ρ.length, P (ρ.state i)) ↔ ∀ i < ρ.length, C (ρ.state i) (ρ.label i) := by
  constructor
  · intro h
    have hall : ∀ i, i ≤ ρ.length → I (ρ.state i) ∧ ∀ j < i, C (ρ.state j) (ρ.label j) := by
      intro i
      induction i with
      | zero => exact fun _ => ⟨hinit _ ρ.starts, fun j hj => by omega⟩
      | succ i ih =>
        intro hi
        obtain ⟨hI, hC⟩ := ih (by omega)
        have hs := ρ.steps i (by omega)
        have hCi : C (ρ.state i) (ρ.label i) := by
          by_contra hn
          exact hbreak _ _ _ hI hn hs (h (i + 1) hi)
        refine ⟨hkeep _ _ _ hI hCi hs, fun j hj => ?_⟩
        obtain hj | rfl := Nat.lt_succ_iff_lt_or_eq.mp hj
        · exact hC j hj
        · exact hCi
    exact (hall ρ.length le_rfl).2
  · intro hC i hi
    exact hP _ (ρ.invariant_of_condition hinit hkeep hC i hi)

/-- A relation between states that steps keep holds between any two states of a run. -/
theorem relation {R : σ → σ → Prop} (ρ : Run init step) (hrefl : ∀ s, R s s)
    (htrans : ∀ s t u, R s t → R t u → R s u)
    (hstep : ∀ i < ρ.length, R (ρ.state i) (ρ.state (i + 1)))
    {i j : ℕ} (hij : i ≤ j) (hj : j ≤ ρ.length) : R (ρ.state i) (ρ.state j) := by
  induction j, hij using Nat.le_induction with
  | base => exact hrefl _
  | succ j hij ih => exact htrans _ _ _ (ih (by omega)) (hstep j (by omega))

/-- The same run, of which less is said about the start. -/
def ofInit (ρ : Run init step) {init' : σ → Prop} (h : ∀ s, init s → init' s) : Run init' step where
  length := ρ.length
  state := ρ.state
  label := ρ.label
  starts := h _ ρ.starts
  steps := ρ.steps

/-- The run that has not moved. -/
def nil {s : σ} (l : ℓ) (h : init s) : Run init step where
  length := 0
  state _ := s
  label _ := l
  starts := h
  steps i hi := absurd hi (Nat.not_lt_zero i)

def last (ρ : Run init step) : σ := ρ.state ρ.length

def snoc (ρ : Run init step) {l : ℓ} {t : σ} (h : step ρ.last l t) : Run init step where
  length := ρ.length + 1
  state i := if i ≤ ρ.length then ρ.state i else t
  label i := if i < ρ.length then ρ.label i else l
  starts := by simpa using ρ.starts
  steps i hi := by
    obtain hi | rfl := Nat.lt_succ_iff_lt_or_eq.mp hi
    · simpa [hi, hi.le, Nat.succ_le_of_lt hi] using ρ.steps i hi
    · rw [if_pos le_rfl, if_neg (lt_irrefl _), if_neg (by omega)]
      exact h

@[simp] theorem last_snoc (ρ : Run init step) {l : ℓ} {t : σ} (h : step ρ.last l t) :
    (ρ.snoc h).last = t := by
  simp [last, snoc]

theorem condition_snoc (ρ : Run init step)
    (hρ : ∀ i < ρ.length, C (ρ.state i) (ρ.label i)) {l : ℓ} {t : σ} (h : step ρ.last l t)
    (hC : C ρ.last l) : ∀ i < (ρ.snoc h).length, C ((ρ.snoc h).state i) ((ρ.snoc h).label i) := by
  intro i hi
  obtain hi | rfl := Nat.lt_succ_iff_lt_or_eq.mp hi
  · simpa [snoc, hi, hi.le] using hρ i hi
  · simpa [snoc, last] using hC

/-- What is reachable by steps under a condition is the end of a run of such steps. -/
theorem exists_last {s t : σ} (l : ℓ) (hs : init s)
    (h : Relation.ReflTransGen (fun s t => ∃ l, step s l t ∧ C s l) s t) :
    ∃ ρ : Run init step, ρ.last = t ∧ ∀ i < ρ.length, C (ρ.state i) (ρ.label i) := by
  induction h with
  | refl => exact ⟨nil l hs, rfl, fun i hi => absurd hi (Nat.not_lt_zero i)⟩
  | tail _ hl ih =>
    obtain ⟨ρ, rfl, hC⟩ := ih
    obtain ⟨l, hl, hCl⟩ := hl
    exact ⟨ρ.snoc hl, last_snoc ρ hl, ρ.condition_snoc hC hl hCl⟩

/-- A run to what is reachable under a condition, with one more such step. -/
theorem exists_last_step {s t u : σ} {l : ℓ} (hs : init s)
    (h : Relation.ReflTransGen (fun s t => ∃ l, step s l t ∧ C s l) s t) (hl : step t l u)
    (hCl : C t l) : ∃ ρ : Run init step, ρ.last = u ∧ (∃ i < ρ.length, ρ.label i = l) ∧
      ∀ i < ρ.length, C (ρ.state i) (ρ.label i) := by
  obtain ⟨ρ, rfl, hC⟩ := exists_last l hs h
  exact ⟨ρ.snoc hl, last_snoc ρ hl, ⟨ρ.length, Nat.lt_succ_self _, by simp [snoc]⟩,
    ρ.condition_snoc hC hl hCl⟩

/-- A step from what is reachable is the last step of a run. -/
theorem exists_step {s t u : σ} {l : ℓ} (hs : init s)
    (h : Relation.ReflTransGen (fun s t => ∃ l, step s l t ∧ C s l) s t) (hl : step t l u) :
    ∃ ρ : Run init step, ∃ i < ρ.length, ρ.state i = t ∧ ρ.state (i + 1) = u := by
  obtain ⟨ρ, rfl, -⟩ := exists_last l hs h
  exact ⟨ρ.snoc hl, ρ.length, Nat.lt_succ_self _, by simp [snoc, last], by simp [snoc]⟩

end Run

end MiningpoolObserver.Library.Runs
