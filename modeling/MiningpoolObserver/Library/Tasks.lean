import Mathlib.Logic.Function.Basic
import MiningpoolObserver.Library.CallTree
import MiningpoolObserver.Library.Runs

namespace MiningpoolObserver.Library.Tasks

open MiningpoolObserver.Library.CallTree MiningpoolObserver.Library.Runs

universe u

variable {S : Signature} {σ ι α : Type} {J : Type u}

/-- Threads that run jobs as programs over a shared state, one call at a time. -/
structure System (S : Signature) (σ ι : Type) (J : Type u) (α : Type) where
  env : Environment S σ
  prog : J → Prog S α
  allowed : ι → J → σ → Prop

/-- A job under way, with the calls it has made so far. -/
structure Task (S : Signature) (σ : Type) (J : Type u) (α : Type) where
  job : J
  trace : List (Event S σ)
  rest : Prog S α

/-- A job that has ended. -/
structure Ended (S : Signature) (σ : Type) (J : Type u) (α : Type) where
  job : J
  trace : List (Event S σ)
  result : α

structure Config (S : Signature) (σ ι : Type) (J : Type u) (α : Type) where
  world : σ
  running : ι → Option (Task S σ J α)
  ended : List (Ended S σ J α)

inductive Label (S : Signature) (σ ι : Type) (J : Type u) where
  | start (i : ι) (j : J)
  | call (i : ι) (e : Event S σ)
  | finish (i : ι)
  | drift

variable [DecidableEq ι]

/-- Any thread may move next: begin an allowed job when it has none, make the next call of its
job, or end it. Between these the environment may drift. -/
inductive Step (Y : System S σ ι J α) : Config S σ ι J α → Label S σ ι J → Config S σ ι J α → Prop
  | start {C : Config S σ ι J α} {i : ι} {j : J} :
      C.running i = none → Y.allowed i j C.world →
      Step Y C (.start i j)
        { C with running := Function.update C.running i (some ⟨j, [], Y.prog j⟩) }
  | call {C : Config S σ ι J α} {i : ι} {j : J} {tr : List (Event S σ)} {c : S.Call}
      {k : S.Reply c → Prog S α} {r : S.Reply c} {w : σ} :
      C.running i = some ⟨j, tr, .call c k⟩ → Y.env.answer C.world c r w →
      Step Y C (.call i ⟨C.world, c, r⟩)
        { C with
          world := w
          running := Function.update C.running i (some ⟨j, tr ++ [⟨C.world, c, r⟩], k r⟩) }
  | finish {C : Config S σ ι J α} {i : ι} {j : J} {tr : List (Event S σ)} {a : α} :
      C.running i = some ⟨j, tr, .done a⟩ →
      Step Y C (.finish i)
        { C with
          running := Function.update C.running i none
          ended := C.ended ++ [⟨j, tr, a⟩] }
  | drift {C : Config S σ ι J α} {w : σ} :
      Y.env.drift C.world w → Step Y C .drift { C with world := w }

/-- How a job under way came to be where it is. -/
theorem running_of_step {Y : System S σ ι J α} {C C' : Config S σ ι J α} {l : Label S σ ι J}
    (h : Step Y C l C') {i : ι} {t : Task S σ J α} (ht : C'.running i = some t) :
    (∃ j, t = ⟨j, [], Y.prog j⟩ ∧ Y.allowed i j C.world) ∨ C.running i = some t ∨
      ∃ j tr c k r, C.running i = some ⟨j, tr, .call c k⟩ ∧
        t = ⟨j, tr ++ [⟨C.world, c, r⟩], k r⟩ ∧ Y.env.answer C.world c r C'.world := by
  cases h with
  | @start i' j _ hj =>
    by_cases hi : i = i'
    · subst hi
      obtain rfl := Option.some.inj (ht.symm.trans (Function.update_self ..))
      exact .inl ⟨j, rfl, hj⟩
    · exact .inr (.inl (by simpa [hi] using ht))
  | @call i' j tr c k r w hi' ha =>
    by_cases hi : i = i'
    · subst hi
      obtain rfl := Option.some.inj (ht.symm.trans (Function.update_self ..))
      exact .inr (.inr ⟨j, tr, c, k, r, hi', rfl, ha⟩)
    · exact .inr (.inl (by simpa [hi] using ht))
  | @finish i' j tr a _ =>
    by_cases hi : i = i'
    · subst hi
      simp at ht
    · exact .inr (.inl (by simpa [hi] using ht))
  | drift _ => exact .inr (.inl ht)

/-- A step begins the trace of a job, leaves it as it is, or adds the call that it makes. -/
theorem trace_of_step {Y : System S σ ι J α} {C C' : Config S σ ι J α} {l : Label S σ ι J}
    (h : Step Y C l C') {i : ι} {t : Task S σ J α} (ht : C'.running i = some t) :
    t.trace = [] ∨ (C.running i = some t ∧ ∀ e, l ≠ .call i e) ∨
      ∃ t₀ e, C.running i = some t₀ ∧ l = .call i e ∧ t.trace = t₀.trace ++ [e] := by
  cases h with
  | @start i' j _ hj =>
    by_cases hi : i = i'
    · subst hi
      obtain rfl := Option.some.inj (ht.symm.trans (Function.update_self ..))
      exact .inl rfl
    · exact .inr (.inl ⟨by simpa [hi] using ht, fun e he => by cases he⟩)
  | @call i' j tr c k r w hi' ha =>
    by_cases hi : i = i'
    · subst hi
      obtain rfl := Option.some.inj (ht.symm.trans (Function.update_self ..))
      exact .inr (.inr ⟨_, _, hi', rfl, rfl⟩)
    · refine .inr (.inl ⟨by simpa [hi] using ht, fun e he => hi ?_⟩)
      cases he
      rfl
  | @finish i' j tr a _ =>
    by_cases hi : i = i'
    · subst hi
      simp at ht
    · exact .inr (.inl ⟨by simpa [hi] using ht, fun e he => by cases he⟩)
  | drift _ => exact .inr (.inl ⟨ht, fun e he => by cases he⟩)

theorem ended_of_step {Y : System S σ ι J α} {C C' : Config S σ ι J α} {l : Label S σ ι J}
    (h : Step Y C l C') {e : Ended S σ J α} (he : e ∈ C'.ended) :
    e ∈ C.ended ∨ ∃ i, l = .finish i ∧ C.running i = some ⟨e.job, e.trace, .done e.result⟩ ∧
      C'.world = C.world := by
  cases h with
  | start _ _ => exact .inl he
  | call _ _ => exact .inl he
  | @finish i j tr a hi =>
    obtain he | he := List.mem_append.mp he
    · exact .inl he
    · obtain rfl := List.mem_singleton.mp he
      exact .inr ⟨i, rfl, hi, rfl⟩
  | drift _ => exact .inl he

/-- A job has made these calls, whether it is under way or has ended. -/
def Under (C : Config S σ ι J α) (j : J) (tr : List (Event S σ)) : Prop :=
  (∃ i rest, C.running i = some ⟨j, tr, rest⟩) ∨ ∃ a, ⟨j, tr, a⟩ ∈ C.ended

/-- A step forgets no call. -/
theorem Under.step {Y : System S σ ι J α} {C C' : Config S σ ι J α} {l : Label S σ ι J} {j : J}
    {tr : List (Event S σ)} (h : Under C j tr) (hs : Step Y C l C') :
    ∃ tr', tr <+: tr' ∧ Under C' j tr' := by
  obtain ⟨i, rest, hi⟩ | ⟨a, ha⟩ := h
  · cases hs with
    | @start i' j' hn _ =>
      have hne : i ≠ i' := fun he => by simp [he, hn] at hi
      exact ⟨tr, List.prefix_refl tr, .inl ⟨i, rest, by simpa [hne] using hi⟩⟩
    | @call i' j' tr' c k r w hi' _ =>
      by_cases he : i = i'
      · subst he
        rw [hi] at hi'
        cases hi'
        exact ⟨tr ++ [⟨C.world, c, r⟩], List.prefix_append tr _, .inl ⟨i, k r, by simp⟩⟩
      · exact ⟨tr, List.prefix_refl tr, .inl ⟨i, rest, by simpa [he] using hi⟩⟩
    | @finish i' j' tr' a hi' =>
      by_cases he : i = i'
      · subst he
        rw [hi] at hi'
        cases hi'
        exact ⟨tr, List.prefix_refl tr, .inr ⟨a, by simp⟩⟩
      · exact ⟨tr, List.prefix_refl tr, .inl ⟨i, rest, by simpa [he] using hi⟩⟩
    | drift _ => exact ⟨tr, List.prefix_refl tr, .inl ⟨i, rest, hi⟩⟩
  · refine ⟨tr, List.prefix_refl tr, .inr ⟨a, ?_⟩⟩
    cases hs with
    | finish _ => exact List.mem_append_left _ ha
    | _ => exact ha

/-- Each call of a job under way was answered in its state, from which `R` leads to the present. -/
def Answered (Y : System S σ ι J α) (R : σ → σ → Prop) (C : Config S σ ι J α) : Prop :=
  ∀ i t, C.running i = some t → ∀ e ∈ t.trace,
    R e.pre C.world ∧ ∃ w, Y.env.answer e.pre e.call e.reply w

theorem Answered.step {Y : System S σ ι J α} {R : σ → σ → Prop} {C C' : Config S σ ι J α}
    {l : Label S σ ι J} (h : Answered Y R C) (htrans : ∀ s t u, R s t → R t u → R s u)
    (hs : Step Y C l C') (hR : R C.world C'.world) : Answered Y R C' := by
  intro i t ht e he
  obtain ⟨j, rfl, -⟩ | hi | ⟨j, tr, c, k, r, hi, rfl, ha⟩ := running_of_step hs ht
  · cases he
  · obtain ⟨hpre, hw⟩ := h i t hi e he
    exact ⟨htrans _ _ _ hpre hR, hw⟩
  · obtain he | he := List.mem_append.mp he
    · obtain ⟨hpre, hw⟩ := h i _ hi e he
      exact ⟨htrans _ _ _ hpre hR, hw⟩
    · obtain rfl := List.mem_singleton.mp he
      exact ⟨hR, _, ha⟩

/-- Nothing has been started. -/
def Idle (P : σ → Prop) (C : Config S σ ι J α) : Prop :=
  P C.world ∧ (∀ i, C.running i = none) ∧ C.ended = []

/-- Every job was allowed to start, and is somewhere along its own program or has followed it to
an end. -/
structure Coherent (Y : System S σ ι J α) (C : Config S σ ι J α) : Prop where
  admitted : ∀ i t, C.running i = some t → ∃ w, Y.allowed i t.job w
  running : ∀ i t, C.running i = some t → Path (Y.prog t.job) t.trace t.rest
  ended : ∀ e ∈ C.ended, Path (Y.prog e.job) e.trace (.done e.result)

omit [DecidableEq ι] in
theorem coherent_of_idle {Y : System S σ ι J α} {P : σ → Prop} {C : Config S σ ι J α}
    (h : Idle P C) : Coherent Y C where
  admitted i t ht := by simp [h.2.1 i] at ht
  running i t ht := by simp [h.2.1 i] at ht
  ended e he := by simp [h.2.2] at he

theorem Coherent.of_update {Y : System S σ ι J α} {C : Config S σ ι J α}
    {i : ι} {o : Option (Task S σ J α)} {w : σ} (h : Coherent Y C)
    (ha : ∀ t, o = some t → ∃ w, Y.allowed i t.job w)
    (ho : ∀ t, o = some t → Path (Y.prog t.job) t.trace t.rest) :
    Coherent Y { C with world := w, running := Function.update C.running i o } where
  admitted i' t ht := by
    by_cases hi : i' = i
    · subst hi
      exact ha t (by simpa using ht)
    · exact h.admitted i' t (by simpa [hi] using ht)
  running i' t ht := by
    by_cases hi : i' = i
    · subst hi
      exact ho t (by simpa using ht)
    · exact h.running i' t (by simpa [hi] using ht)
  ended := h.ended

theorem Coherent.step {Y : System S σ ι J α} {C C' : Config S σ ι J α} {l : Label S σ ι J}
    (h : Coherent Y C) (hs : Step Y C l C') : Coherent Y C' := by
  cases hs with
  | start _ hj =>
    refine h.of_update (fun t ht => ?_) (fun t ht => ?_)
    · cases ht
      exact ⟨_, hj⟩
    · cases ht
      exact .nil _
  | call hi _ =>
    refine h.of_update (fun t ht => ?_) (fun t ht => ?_)
    · cases ht
      obtain ⟨w, hw⟩ := h.admitted _ _ hi
      exact ⟨w, hw⟩
    · cases ht
      exact (h.running _ _ hi).snoc _ _
  | @finish i j tr a hi =>
    have hu := h.of_update (i := i) (o := none) (w := C.world) (fun t ht => by cases ht)
      (fun t ht => by cases ht)
    refine ⟨hu.admitted, hu.running, fun e he => ?_⟩
    obtain he | he := List.mem_append.mp he
    · exact h.ended e he
    · obtain rfl := List.mem_singleton.mp he
      exact h.running _ _ hi
  | drift _ => exact ⟨h.admitted, h.running, h.ended⟩

omit [DecidableEq ι] in
/-- What a job's program always keeps to holds at the call it makes next. -/
theorem Coherent.call_spec {Y : System S σ ι J α} {C : Config S σ ι J α} (h : Coherent Y C)
    {I : List (Event S σ) → S.Call → Prop} {D : List (Event S σ) → α → Prop} {i : ι} {j : J}
    {tr : List (Event S σ)} {c : S.Call} {k : S.Reply c → Prog S α}
    (hi : C.running i = some ⟨j, tr, .call c k⟩) (hI : Prog.Always I D [] (Y.prog j)) : I tr c := by
  have hp := hI.path (h.running _ _ hi)
  simpa using hp.1

theorem answer_of_call {Y : System S σ ι J α} {C C' : Config S σ ι J α} {i : ι} {e : Event S σ}
    (h : Step Y C (.call i e) C') :
    e.pre = C.world ∧ Y.env.answer e.pre e.call e.reply C'.world := by
  cases h with
  | call _ ha => exact ⟨rfl, ha⟩

/-- Each call of a job under way was a step of the run. -/
theorem called_of_mem_trace {Y : System S σ ι J α} {P : σ → Prop} (ρ : Run (Idle P) (Step Y))
    {k : ℕ} (hk : k ≤ ρ.length) {i : ι} {t : Task S σ J α} (ht : (ρ.state k).running i = some t)
    {e : Event S σ} (he : e ∈ t.trace) : ∃ n < k, ρ.label n = .call i e := by
  induction k generalizing t with
  | zero =>
    rw [ρ.starts.2.1 i] at ht
    cases ht
  | succ k ih =>
    have hs := ρ.steps k (Nat.lt_of_succ_le hk)
    have hle : k ≤ ρ.length := Nat.le_of_succ_le hk
    obtain hnil | ⟨ht', -⟩ | ⟨t₀, e', ht', hl, htr⟩ := trace_of_step hs ht
    · rw [hnil] at he
      cases he
    · obtain ⟨n, hn, hl⟩ := ih hle ht' he
      exact ⟨n, Nat.lt_succ_of_lt hn, hl⟩
    · rw [htr] at he
      obtain he | he := List.mem_append.mp he
      · obtain ⟨n, hn, hl⟩ := ih hle ht' he
        exact ⟨n, Nat.lt_succ_of_lt hn, hl⟩
      · rw [List.mem_singleton.mp he]
        exact ⟨k, Nat.lt_succ_self k, hl⟩

/-- Some steps, each under the condition `P`, lead from the first configuration to the second. -/
def Reaches (Y : System S σ ι J α) (P : Config S σ ι J α → Label S σ ι J → Prop) :
    Config S σ ι J α → Config S σ ι J α → Prop :=
  Relation.ReflTransGen (fun C C' => ∃ l, Step Y C l C' ∧ P C l)

/-- The labels that a thread leaves on a path of calls, up to its end, and where it leaves them. -/
inductive OnPath (i : ι) (j : J) (tr : List (Event S σ)) :
    Config S σ ι J α → Label S σ ι J → Prop
  | start {C : Config S σ ι J α} : OnPath i j tr C (.start i j)
  | call {C : Config S σ ι J α} {pre post : List (Event S σ)} {e : Event S σ} {rest : Prog S α} :
      tr = pre ++ e :: post → C.world = e.pre → C.running i = some ⟨j, pre, rest⟩ →
      OnPath i j tr C (.call i e)
  | drift {C : Config S σ ι J α} : OnPath i j tr C .drift

section Solo

variable {Y : System S σ ι J α} {P : Config S σ ι J α → Label S σ ι J → Prop}
variable {C : Config S σ ι J α} {i : ι} {j : J} {tr : List (Event S σ)} {w : σ}

/-- A thread that moves alone follows its program. -/
theorem reaches_of_path {tr₀ : List (Event S σ)} {p q : Prog S α}
    (hP : ∀ C l, OnPath i j (tr₀ ++ tr) C l → P C l) (hi : C.running i = some ⟨j, tr₀, p⟩)
    (hp : Path p tr q) (ha : Answers Y.env C.world tr w) :
    Reaches Y P C { C with
      world := w
      running := Function.update C.running i (some ⟨j, tr₀ ++ tr, q⟩) } := by
  induction hp generalizing C tr₀ with
  | nil p =>
    cases ha with
    | nil hd =>
      have hu : Function.update C.running i (some ⟨j, tr₀ ++ [], p⟩) = C.running := by
        rw [List.append_nil, ← hi]
        exact Function.update_eq_self i _
      rw [hu]
      exact .single ⟨_, .drift hd, hP C _ .drift⟩
  | @cons c k v r tr q hp ih =>
    cases ha with
    | @cons _ _ t _ _ _ _ hd ha ht =>
      have h₁ : Reaches Y P C { C with world := v } := .single ⟨_, .drift hd, hP C _ .drift⟩
      let C' : Config S σ ι J α := { C with
        world := t, running := Function.update C.running i (some ⟨j, tr₀ ++ [⟨v, c, r⟩], k r⟩) }
      have h₂ : Step Y { C with world := v } (.call i ⟨v, c, r⟩) C' :=
        .call (C := { C with world := v }) hi ha
      have hP₂ : P { C with world := v } (.call i ⟨v, c, r⟩) := hP _ _ (.call rfl rfl hi)
      have hC' : C'.running i = some ⟨j, tr₀ ++ [⟨v, c, r⟩], k r⟩ := Function.update_self ..
      have htr : tr₀ ++ ⟨v, c, r⟩ :: tr = (tr₀ ++ [⟨v, c, r⟩]) ++ tr := by simp
      rw [htr] at hP ⊢
      have h₃ := ih hP hC' ht
      simp only [C', Function.update_idem] at h₃
      exact (h₁.tail ⟨_, h₂, hP₂⟩).trans h₃

/-- An idle thread may begin a job and follow its program for a while. -/
theorem reaches_of_start {q : Prog S α} (hP : ∀ C l, OnPath i j tr C l → P C l)
    (hi : C.running i = none) (hj : Y.allowed i j C.world) (hp : Path (Y.prog j) tr q)
    (ha : Answers Y.env C.world tr w) :
    Reaches Y P C { C with
      world := w
      running := Function.update C.running i (some ⟨j, tr, q⟩) } := by
  let C' : Config S σ ι J α :=
    { C with running := Function.update C.running i (some ⟨j, [], Y.prog j⟩) }
  have h₁ : Step Y C (.start i j) C' := .start hi hj
  have hC' : C'.running i = some ⟨j, [], Y.prog j⟩ := Function.update_self ..
  have h₂ := reaches_of_path (P := P) hP hC' hp ha
  simp only [C', Function.update_idem, List.nil_append] at h₂
  exact (Relation.ReflTransGen.single ⟨_, h₁, hP C _ .start⟩).trans h₂

/-- An idle thread may run a job on its own from start to end. -/
theorem reaches_of_exec {a : α} (hP : ∀ C l, OnPath i j tr C l → P C l)
    (hend : ∀ C : Config S σ ι J α, C.running i = some ⟨j, tr, .done a⟩ → P C (.finish i))
    (hi : C.running i = none) (hj : Y.allowed i j C.world)
    (h : Exec Y.env (Y.prog j) C.world tr a w) :
    Reaches Y P C { C with world := w, ended := C.ended ++ [⟨j, tr, a⟩] } := by
  have h₁ := reaches_of_start hP hi hj h.path h.answers
  let C' : Config S σ ι J α := { C with
    world := w
    running := Function.update C.running i (some ⟨j, tr, .done a⟩) }
  have hC' : C'.running i = some ⟨j, tr, .done a⟩ := Function.update_self ..
  have h₂ : Step Y C' (.finish i) { C' with
      running := Function.update C'.running i none
      ended := C'.ended ++ [⟨j, tr, a⟩] } := .finish hC'
  have hu : Function.update C.running i none = C.running := by
    rw [← hi]
    exact Function.update_eq_self i _
  simp only [C', Function.update_idem, hu] at h₂
  exact h₁.tail ⟨_, h₂, hend C' hC'⟩

/-- An idle thread may run a job to its end against a handler whose answers are allowed. -/
theorem reaches_of_runWith (C₀ : Config S σ ι J α) {respond : σ → (c : S.Call) → S.Reply c × σ}
    (hr : ∀ s c, Y.env.answer s c (respond s c).1 (respond s c).2)
    (hP : ∀ C l, OnPath i j ((Y.prog j).runWith respond C₀.world).1 C l → P C l)
    (hend : ∀ C, P C (.finish i)) (hi : C₀.running i = none) (hj : Y.allowed i j C₀.world) :
    ∃ ended, Reaches Y P C₀ { C₀ with
      world := ((Y.prog j).runWith respond C₀.world).2.2, ended := ended } :=
  ⟨_, reaches_of_exec hP (fun C _ => hend C) hi hj (Prog.exec_runWith hr _ _)⟩

end Solo

end MiningpoolObserver.Library.Tasks
