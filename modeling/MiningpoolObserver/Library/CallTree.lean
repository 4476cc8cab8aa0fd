import Mathlib.Data.List.Basic

namespace MiningpoolObserver.Library.CallTree

/-- The calls a program can make, with the type of the reply to each. -/
structure Signature where
  Call : Type
  Reply : Call → Type

/-- A program is finished, or makes a call and goes on with the reply. -/
inductive Prog (S : Signature) (α : Type) : Type where
  | done (a : α) : Prog S α
  | call (c : S.Call) (k : S.Reply c → Prog S α) : Prog S α

variable {S : Signature} {σ α β γ : Type}

/-- A call as it happened: the state it was answered in, and the reply. -/
structure Event (S : Signature) (σ : Type) where
  pre : σ
  call : S.Call
  reply : S.Reply call

/-- What the latest event that tells it says. -/
def latest (f : Event S σ → Option β) (tr : List (Event S σ)) : Option β := tr.reverse.findSome? f

theorem latest_snoc (f : Event S σ → Option β) (tr : List (Event S σ)) (e : Event S σ) :
    latest f (tr ++ [e]) = (f e).or (latest f tr) := by
  rw [latest, List.reverse_append, List.reverse_singleton, List.singleton_append,
    List.findSome?_cons]
  cases f e <;> rfl

theorem latest_snoc_of_none {f : Event S σ → Option β} {e : Event S σ} (h : f e = none)
    (tr : List (Event S σ)) : latest f (tr ++ [e]) = latest f tr := by
  rw [latest_snoc, h, Option.none_or]

theorem latest_snoc_of_some {f : Event S σ → Option β} {e : Event S σ} {b : β} (h : f e = some b)
    (tr : List (Event S σ)) : latest f (tr ++ [e]) = some b := by
  rw [latest_snoc, h, Option.some_or]

namespace Prog

def bind : Prog S α → (α → Prog S β) → Prog S β
  | .done a, f => f a
  | .call c k, f => .call c (fun r => (k r).bind f)

@[simp] theorem bind_done (a : α) (f : α → Prog S β) : (Prog.done a).bind f = f a := rfl

@[simp] theorem bind_call (c : S.Call) (k : S.Reply c → Prog S α) (f : α → Prog S β) :
    (Prog.call c k).bind f = .call c (fun r => (k r).bind f) := rfl

/-- Whatever the replies, a call is made only with `I` of the events so far and of the call,
and the program ends only with `D` of the events and of the result. -/
def Always (I : List (Event S σ) → S.Call → Prop) (D : List (Event S σ) → α → Prop) :
    List (Event S σ) → Prog S α → Prop
  | tr, .done a => D tr a
  | tr, .call c k => I tr c ∧ ∀ w r, Always I D (tr ++ [⟨w, c, r⟩]) (k r)

variable {I J : List (Event S σ) → S.Call → Prop} {D : List (Event S σ) → α → Prop}

@[simp] theorem always_done (tr : List (Event S σ)) (a : α) :
    Always I D tr (.done a) ↔ D tr a := Iff.rfl

@[simp] theorem always_call (tr : List (Event S σ)) (c : S.Call) (k : S.Reply c → Prog S α) :
    Always I D tr (.call c k) ↔ I tr c ∧ ∀ w r, Always I D (tr ++ [⟨w, c, r⟩]) (k r) := Iff.rfl

theorem Always.mono {D' : List (Event S σ) → α → Prop} (hI : ∀ tr c, I tr c → J tr c)
    (hD : ∀ tr a, D tr a → D' tr a) {p : Prog S α} {tr : List (Event S σ)}
    (h : Always I D tr p) : Always J D' tr p := by
  induction p generalizing tr with
  | done a => exact hD tr a h
  | call c k ih => exact ⟨hI tr c h.1, fun w r => ih r (h.2 w r)⟩

theorem Always.bind {D' : List (Event S σ) → β → Prop} {p : Prog S α} {f : α → Prog S β}
    {tr : List (Event S σ)} (hp : Always I D tr p)
    (hf : ∀ tr' a, D tr' a → Always I D' tr' (f a)) : Always I D' tr (p.bind f) := by
  induction p generalizing tr with
  | done a => exact hf tr a hp
  | call c k ih => exact ⟨hp.1, fun w r => ih r (hp.2 w r)⟩

theorem Always.and {D' : List (Event S σ) → α → Prop} {p : Prog S α} {tr : List (Event S σ)}
    (h : Always I D tr p) (h' : Always J D' tr p) :
    Always (fun tr c => I tr c ∧ J tr c) (fun tr a => D tr a ∧ D' tr a) tr p := by
  induction p generalizing tr with
  | done a => exact ⟨h, h'⟩
  | call c k ih => exact ⟨⟨h.1, h'.1⟩, fun w r => ih r (h.2 w r) (h'.2 w r)⟩

/-- Go on with the result of a program that may fail, or fail as it did. -/
def andThen {ε : Type} (p : Prog S (Except ε α)) (f : α → Prog S (Except ε β)) :
    Prog S (Except ε β) :=
  p.bind (fun r => match r with
    | .ok a => f a
    | .error e => .done (.error e))

theorem Always.andThen {ε : Type} {D : List (Event S σ) → Except ε α → Prop}
    {D' : List (Event S σ) → Except ε β → Prop} {p : Prog S (Except ε α)}
    {f : α → Prog S (Except ε β)} {tr : List (Event S σ)} (hp : Always I D tr p)
    (hf : ∀ tr' a, D tr' (.ok a) → Always I D' tr' (f a))
    (he : ∀ tr' e, D tr' (.error e) → D' tr' (.error e)) : Always I D' tr (p.andThen f) := by
  refine hp.bind fun tr' r hr => ?_
  cases r with
  | ok a => exact hf tr' a hr
  | error e => exact he tr' e hr

/-- Every call that the program can make satisfies `Q`. -/
def Only (Q : S.Call → Prop) : Prog S α → Prop
  | .done _ => True
  | .call c k => Q c ∧ ∀ r, Only Q (k r)

section Only

variable {Q Q' : S.Call → Prop} {p : Prog S α}

theorem Only.mono (h : Only Q p) (hQ : ∀ c, Q c → Q' c) : Only Q' p := by
  induction p with
  | done a => trivial
  | call c k ih => exact ⟨hQ c h.1, fun r => ih r (h.2 r)⟩

theorem Only.bind {f : α → Prog S β} (h : Only Q p) (hf : ∀ a, Only Q (f a)) :
    Only Q (p.bind f) := by
  induction p with
  | done a => exact hf a
  | call c k ih => exact ⟨h.1, fun r => ih r (h.2 r)⟩

theorem Only.andThen {ε : Type} {p : Prog S (Except ε α)} {f : α → Prog S (Except ε β)}
    (h : Only Q p) (hf : ∀ a, Only Q (f a)) : Only Q (p.andThen f) := by
  refine h.bind fun r => ?_
  cases r with
  | ok a => exact hf a
  | error e => trivial

end Only

/-- Whatever the replies, the program ends with `D` of its result. -/
def Returns (D : α → Prop) : Prog S α → Prop
  | .done a => D a
  | .call _ k => ∀ r, Returns D (k r)

section Returns

variable {D : α → Prop} {p : Prog S α}

theorem returns_of_forall (h : ∀ a, D a) : Returns D p := by
  induction p with
  | done a => exact h a
  | call c k ih => exact ih

theorem Returns.bind {E : β → Prop} {f : α → Prog S β} (h : Returns D p)
    (hf : ∀ a, D a → Returns E (f a)) : Returns E (p.bind f) := by
  induction p with
  | done a => exact hf a h
  | call c k ih => exact fun r => ih r (h r)

end Returns

end Prog

/-- The second trace goes on from the first with calls that satisfy `Q`. -/
def Extends (Q : S.Call → Prop) (tr tr' : List (Event S σ)) : Prop :=
  ∃ new, tr' = tr ++ new ∧ ∀ e ∈ new, Q e.call

namespace Extends

variable {Q : S.Call → Prop} {tr tr' : List (Event S σ)}

theorem refl (tr : List (Event S σ)) : Extends Q tr tr :=
  ⟨[], (List.append_nil tr).symm, fun _ he => by cases he⟩

theorem snoc (h : Extends Q tr tr') {e : Event S σ} (he : Q e.call) :
    Extends Q tr (tr' ++ [e]) := by
  obtain ⟨new, rfl, hnew⟩ := h
  refine ⟨new ++ [e], List.append_assoc tr new [e], fun x hx => ?_⟩
  obtain hx | hx := List.mem_append.mp hx
  · exact hnew x hx
  · exact List.mem_singleton.mp hx ▸ he

theorem subset (h : Extends Q tr tr') : tr ⊆ tr' := by
  obtain ⟨new, rfl, -⟩ := h
  exact List.subset_append_left tr new

/-- What is new satisfies `Q`. -/
theorem mem_or (h : Extends Q tr tr') {e : Event S σ} (he : e ∈ tr') : e ∈ tr ∨ Q e.call := by
  obtain ⟨new, rfl, hnew⟩ := h
  exact (List.mem_append.mp he).imp_right (hnew e)

end Extends

/-- A program that makes only calls with `Q` extends the trace by such calls. -/
theorem Prog.Only.always {Q : S.Call → Prop} {p : Prog S α} (h : Prog.Only Q p)
    {tr tr' : List (Event S σ)} (htr : Extends Q tr tr') :
    Prog.Always (fun tr' c => Extends Q tr tr' ∧ Q c) (fun tr' _ => Extends Q tr tr') tr' p := by
  induction p generalizing tr' with
  | done a => exact htr
  | call c k ih => exact ⟨⟨htr, h.1⟩, fun w r => ih r (h.2 r) (htr.snoc h.1)⟩

/-- The program `p` has made the calls of `tr`, got their replies, and is now `q`. -/
inductive Path : Prog S α → List (Event S σ) → Prog S α → Prop
  | nil (p : Prog S α) : Path p [] p
  | cons {c : S.Call} {k : S.Reply c → Prog S α} {w : σ} {r : S.Reply c}
      {tr : List (Event S σ)} {q : Prog S α} :
      Path (k r) tr q → Path (.call c k) (⟨w, c, r⟩ :: tr) q

namespace Path

variable {p q t : Prog S α} {tr tr' : List (Event S σ)}

@[simp] theorem nil_iff : @Path S σ α p [] q ↔ p = q :=
  ⟨fun h => by cases h; rfl, fun h => h ▸ .nil p⟩

theorem done_iff {a : α} : Path (.done a) tr q ↔ tr = [] ∧ q = .done a := by
  constructor
  · intro h
    cases h
    exact ⟨rfl, rfl⟩
  · rintro ⟨rfl, rfl⟩
    exact .nil _

theorem call_iff {c : S.Call} {k : S.Reply c → Prog S α} :
    Path (.call c k) tr q ↔
      (tr = [] ∧ q = .call c k) ∨ ∃ w r tr', tr = ⟨w, c, r⟩ :: tr' ∧ Path (k r) tr' q := by
  constructor
  · intro h
    cases h with
    | nil => exact .inl ⟨rfl, rfl⟩
    | cons h => exact .inr ⟨_, _, _, rfl, h⟩
  · rintro (⟨rfl, rfl⟩ | ⟨w, r, tr', rfl, h⟩)
    · exact .nil _
    · exact .cons h

/-- To its end, a program that begins with a call has made that call. -/
theorem call_done_iff {c : S.Call} {k : S.Reply c → Prog S α} {a : α} :
    Path (.call c k) tr (.done a) ↔
      ∃ w r tr', tr = ⟨w, c, r⟩ :: tr' ∧ Path (k r) tr' (.done a) := by
  rw [call_iff]
  constructor
  · rintro (⟨_, h⟩ | h)
    · cases h
    · exact h
  · exact .inr

theorem append (h : Path p tr q) (h' : Path q tr' t) : Path p (tr ++ tr') t := by
  induction h with
  | nil => exact h'
  | cons _ ih => exact .cons (ih h')

theorem snoc {c : S.Call} {k : S.Reply c → Prog S α} (h : Path p tr (.call c k)) (w : σ)
    (r : S.Reply c) : Path p (tr ++ [⟨w, c, r⟩]) (k r) :=
  h.append (.cons (.nil _))

theorem bind (h : Path p tr q) (f : α → Prog S β) : Path (p.bind f) tr (q.bind f) := by
  induction h with
  | nil => exact .nil _
  | cons _ ih => exact .cons ih

/-- A finished composition splits into its two finished parts. -/
theorem bind_done_iff {f : α → Prog S β} {b : β} :
    Path (p.bind f) tr (.done b) ↔
      ∃ tr₁ tr₂ a, tr = tr₁ ++ tr₂ ∧ Path p tr₁ (.done a) ∧ Path (f a) tr₂ (.done b) := by
  constructor
  · induction p generalizing tr with
    | done a => exact fun h => ⟨[], tr, a, rfl, .nil _, h⟩
    | call c k ih =>
      intro h
      obtain ⟨w, r, tr', rfl, hk⟩ := call_done_iff.mp h
      obtain ⟨tr₁, tr₂, a, rfl, hp, hf⟩ := ih r hk
      exact ⟨⟨w, c, r⟩ :: tr₁, tr₂, a, rfl, .cons hp, hf⟩
  · rintro ⟨tr₁, tr₂, a, rfl, hp, hf⟩
    exact (hp.bind f).append hf

end Path

/-- What a program always does, it does along every path. -/
theorem Prog.Always.path {I : List (Event S σ) → S.Call → Prop}
    {D : List (Event S σ) → α → Prop} {p q : Prog S α} {tr₀ tr : List (Event S σ)}
    (h : Prog.Always I D tr₀ p) (hp : Path p tr q) : Prog.Always I D (tr₀ ++ tr) q := by
  induction hp generalizing tr₀ with
  | nil => simpa using h
  | cons _ ih => simpa using ih (h.2 _ _)

theorem Prog.Returns.path {D : α → Prop} {p : Prog S α} {tr : List (Event S σ)} {a : α}
    (h : Prog.Returns D p) (hp : Path p tr (.done a)) : D a := by
  induction p generalizing tr with
  | done b =>
    obtain ⟨-, hb⟩ := Path.done_iff.mp hp
    cases hb
    exact h
  | call c k ih =>
    obtain ⟨w, r, tr', -, hk⟩ := Path.call_done_iff.mp hp
    exact ih r (h r) hk

/-- At every call along a path, what the program keeps to held of the calls before it. -/
theorem Prog.Always.issued {I : List (Event S σ) → S.Call → Prop}
    {D : List (Event S σ) → α → Prop} {p q : Prog S α} {tr₀ tr₁ tr₂ : List (Event S σ)}
    {e : Event S σ} (h : Prog.Always I D tr₀ p) (hp : Path p (tr₁ ++ e :: tr₂) q) :
    I (tr₀ ++ tr₁) e.call := by
  induction tr₁ generalizing p tr₀ with
  | nil =>
    cases hp with
    | cons _ => simpa using h.1
  | cons f tr₁ ih =>
    cases hp with
    | cons hp => simpa using ih (h.2 _ _) hp

/-- How a shared state answers calls, and how it may change between two of them. -/
structure Environment (S : Signature) (σ : Type) where
  drift : σ → σ → Prop
  answer : σ → (c : S.Call) → S.Reply c → σ → Prop
  drift_refl : ∀ s, drift s s
  drift_trans : ∀ s t u, drift s t → drift t u → drift s u

/-- The calls of a trace are answered in order, starting and ending in the given states. -/
inductive Answers (E : Environment S σ) : σ → List (Event S σ) → σ → Prop
  | nil {s t : σ} : E.drift s t → Answers E s [] t
  | cons {s w t u : σ} {c : S.Call} {r : S.Reply c} {tr : List (Event S σ)} :
      E.drift s w → E.answer w c r t → Answers E t tr u → Answers E s (⟨w, c, r⟩ :: tr) u

namespace Answers

variable {E : Environment S σ} {s t u : σ} {tr tr' : List (Event S σ)}

theorem drift_left (hd : E.drift s t) (h : Answers E t tr u) : Answers E s tr u := by
  cases h with
  | nil h => exact .nil (E.drift_trans _ _ _ hd h)
  | cons h ha ht => exact .cons (E.drift_trans _ _ _ hd h) ha ht

theorem nil_iff : Answers E s [] t ↔ E.drift s t :=
  ⟨fun h => by cases h; assumption, .nil⟩

theorem cons_iff {e : Event S σ} :
    Answers E s (e :: tr) u ↔
      ∃ t, E.drift s e.pre ∧ E.answer e.pre e.call e.reply t ∧ Answers E t tr u := by
  constructor
  · intro h
    cases h with
    | cons hd ha ht => exact ⟨_, hd, ha, ht⟩
  · rintro ⟨t, hd, ha, ht⟩
    exact .cons hd ha ht

theorem append (h : Answers E s tr t) (h' : Answers E t tr' u) : Answers E s (tr ++ tr') u := by
  induction h with
  | nil hd => exact h'.drift_left hd
  | cons hd ha _ ih => exact .cons hd ha (ih h')

theorem append_iff : Answers E s (tr ++ tr') u ↔ ∃ t, Answers E s tr t ∧ Answers E t tr' u := by
  constructor
  · induction tr generalizing s with
    | nil => exact fun h => ⟨s, .nil (E.drift_refl s), h⟩
    | cons e tr ih =>
      intro h
      cases h with
      | cons hd ha h =>
        obtain ⟨t, ht, hu⟩ := ih h
        exact ⟨t, .cons hd ha ht, hu⟩
  · rintro ⟨t, h, h'⟩
    exact h.append h'

/-- Each call of an answered trace is answered. -/
theorem answered (h : Answers E s tr t) {e : Event S σ} (he : e ∈ tr) :
    ∃ u, E.answer e.pre e.call e.reply u := by
  induction h with
  | nil => cases he
  | cons _ ha _ ih =>
    obtain rfl | he := List.mem_cons.mp he
    · exact ⟨_, ha⟩
    · exact ih he

section Relations

variable {R : σ → σ → Prop} (htrans : ∀ s t u, R s t → R t u → R s u)
variable (hdrift : ∀ s t, E.drift s t → R s t)
include htrans hdrift

/-- A preorder that drift and the answers of a trace follow relates its two ends. -/
theorem relates_of_mem (hanswer : ∀ e ∈ tr, ∀ t, E.answer e.pre e.call e.reply t → R e.pre t)
    (h : Answers E s tr t) : R s t := by
  induction h with
  | nil hd => exact hdrift _ _ hd
  | cons hd ha _ ih =>
    refine htrans _ _ _ (hdrift _ _ hd) (htrans _ _ _ (hanswer _ List.mem_cons_self _ ha) ?_)
    exact ih (fun e he => hanswer e (List.mem_cons_of_mem _ he))

theorem relates (hanswer : ∀ s c r t, E.answer s c r t → R s t) (h : Answers E s tr t) : R s t :=
  h.relates_of_mem htrans hdrift (fun _ _ _ => hanswer _ _ _ _)

/-- It also relates the ends to the states around each call. -/
theorem around (hanswer : ∀ e ∈ tr, ∀ t, E.answer e.pre e.call e.reply t → R e.pre t)
    (h : Answers E s tr t) {e : Event S σ} (he : e ∈ tr) :
    ∃ u, R s e.pre ∧ E.answer e.pre e.call e.reply u ∧ R u t := by
  obtain ⟨tr₁, tr₂, rfl⟩ := List.append_of_mem he
  obtain ⟨v, h₁, h₂⟩ := append_iff.mp h
  obtain ⟨u, hd, ha, h₃⟩ := cons_iff.mp h₂
  refine ⟨u, htrans _ _ _ ?_ (hdrift _ _ hd), ha, ?_⟩
  · exact h₁.relates_of_mem htrans hdrift (fun e he => hanswer e (List.mem_append_left _ he))
  · exact h₃.relates_of_mem htrans hdrift
      (fun e he => hanswer e (List.mem_append_right _ (List.mem_cons_of_mem _ he)))

end Relations

/-- What one environment allows, any more permissive one allows too. -/
theorem mono {E' : Environment S σ} (hd : ∀ s t, E.drift s t → E'.drift s t)
    (ha : ∀ s c r t, E.answer s c r t → E'.answer s c r t) (h : Answers E s tr t) :
    Answers E' s tr t := by
  induction h with
  | nil h => exact .nil (hd _ _ h)
  | cons h hr _ ih => exact .cons (hd _ _ h) (ha _ _ _ _ hr) ih

/-- A property that drift and every answer keep is kept by a whole trace. -/
theorem keeps {P : σ → Prop} (hdrift : ∀ s t, P s → E.drift s t → P t)
    (hanswer : ∀ e ∈ tr, ∀ t, P e.pre → E.answer e.pre e.call e.reply t → P t)
    (h : Answers E s tr t) (hs : P s) : P t := by
  induction h with
  | nil hd => exact hdrift _ _ hs hd
  | cons hd ha _ ih =>
    refine ih (fun e he => hanswer e (List.mem_cons_of_mem _ he)) ?_
    exact hanswer _ List.mem_cons_self _ (hdrift _ _ hs hd) ha

end Answers

/-- A complete execution: the program's path and the answers to it. -/
structure Exec (E : Environment S σ) (p : Prog S α) (s : σ) (tr : List (Event S σ)) (a : α)
    (t : σ) : Prop where
  path : Path p tr (.done a)
  answers : Answers E s tr t

namespace Exec

variable {E : Environment S σ} {p : Prog S α} {s t : σ} {tr : List (Event S σ)} {a : α}

theorem done_iff {a' : α} :
    Exec E (.done a') s tr a t ↔ tr = [] ∧ a = a' ∧ E.drift s t := by
  constructor
  · rintro ⟨hp, ha⟩
    obtain ⟨rfl, h⟩ := Path.done_iff.mp hp
    cases h
    cases ha with
    | nil hd => exact ⟨rfl, rfl, hd⟩
  · rintro ⟨rfl, rfl, hd⟩
    exact ⟨.nil _, .nil hd⟩

theorem call_iff {c : S.Call} {k : S.Reply c → Prog S α} :
    Exec E (.call c k) s tr a t ↔
      ∃ w r u tr', tr = ⟨w, c, r⟩ :: tr' ∧ E.drift s w ∧ E.answer w c r u ∧
        Exec E (k r) u tr' a t := by
  constructor
  · rintro ⟨hp, ha⟩
    obtain ⟨w, r, tr', rfl, hk⟩ := Path.call_done_iff.mp hp
    cases ha with
    | cons hd ha ht => exact ⟨w, r, _, tr', rfl, hd, ha, hk, ht⟩
  · rintro ⟨w, r, u, tr', rfl, hd, ha, hp, ht⟩
    exact ⟨.cons hp, .cons hd ha ht⟩

theorem bind_iff {f : α → Prog S β} {b : β} :
    Exec E (p.bind f) s tr b t ↔
      ∃ tr₁ tr₂ a u, tr = tr₁ ++ tr₂ ∧ Exec E p s tr₁ a u ∧ Exec E (f a) u tr₂ b t := by
  constructor
  · rintro ⟨hp, ha⟩
    obtain ⟨tr₁, tr₂, a, rfl, hp, hf⟩ := Path.bind_done_iff.mp hp
    obtain ⟨u, h₁, h₂⟩ := Answers.append_iff.mp ha
    exact ⟨tr₁, tr₂, a, u, rfl, ⟨hp, h₁⟩, ⟨hf, h₂⟩⟩
  · rintro ⟨tr₁, tr₂, a, u, rfl, ⟨hp, h₁⟩, ⟨hf, h₂⟩⟩
    exact ⟨Path.bind_done_iff.mpr ⟨tr₁, tr₂, a, rfl, hp, hf⟩, h₁.append h₂⟩

/-- A program that ends well has gone on from a first part that ended well. -/
theorem andThen_ok_iff {ε : Type} {p : Prog S (Except ε α)} {f : α → Prog S (Except ε β)} {b : β} :
    Exec E (p.andThen f) s tr (.ok b) t ↔
      ∃ tr₁ tr₂ a u, tr = tr₁ ++ tr₂ ∧ Exec E p s tr₁ (.ok a) u ∧ Exec E (f a) u tr₂ (.ok b) t := by
  rw [Prog.andThen, bind_iff]
  constructor
  · rintro ⟨tr₁, tr₂, r, u, rfl, h₁, h₂⟩
    cases r with
    | ok a => exact ⟨tr₁, tr₂, a, u, rfl, h₁, h₂⟩
    | error e =>
      obtain ⟨-, he, -⟩ := done_iff.mp h₂
      cases he
  · rintro ⟨tr₁, tr₂, a, u, rfl, h₁, h₂⟩
    exact ⟨tr₁, tr₂, .ok a, u, rfl, h₁, h₂⟩

theorem mono {E' : Environment S σ} (hd : ∀ s t, E.drift s t → E'.drift s t)
    (ha : ∀ s c r t, E.answer s c r t → E'.answer s c r t) (h : Exec E p s tr a t) :
    Exec E' p s tr a t :=
  ⟨h.path, h.answers.mono hd ha⟩

theorem always {I : List (Event S σ) → S.Call → Prop} {D : List (Event S σ) → α → Prop}
    (hI : Prog.Always I D [] p) (h : Exec E p s tr a t) : D tr a := by
  simpa using hI.path h.path

end Exec

/-- A result satisfies `Q`, unless it is a failure. -/
def OnOk {ε : Type} (Q : α → σ → Prop) : Except ε α → σ → Prop
  | .ok a, t => Q a t
  | .error _, _ => True

/-- Every complete execution from the state ends with `Q`. -/
def Ensures (E : Environment S σ) (p : Prog S α) (s : σ) (Q : α → σ → Prop) : Prop :=
  ∀ tr a t, Exec E p s tr a t → Q a t

namespace Ensures

variable {E : Environment S σ} {s : σ} {Q : α → σ → Prop} {Q' : β → σ → Prop}

theorem mono {Q' : α → σ → Prop} {p : Prog S α} (hp : Ensures E p s Q)
    (h : ∀ a t, Q a t → Q' a t) : Ensures E p s Q' :=
  fun tr a t hx => h a t (hp tr a t hx)

theorem done {a : α} (h : ∀ t, E.drift s t → Q a t) : Ensures E (.done a) s Q := by
  intro tr a' t hx
  obtain ⟨-, rfl, hd⟩ := Exec.done_iff.mp hx
  exact h t hd

theorem call {c : S.Call} {k : S.Reply c → Prog S α}
    (h : ∀ w r u, E.drift s w → E.answer w c r u → Ensures E (k r) u Q) :
    Ensures E (.call c k) s Q := by
  intro tr a t hx
  obtain ⟨w, r, u, tr', -, hd, ha, hk⟩ := Exec.call_iff.mp hx
  exact h w r u hd ha tr' a t hk

theorem bind {p : Prog S α} {f : α → Prog S β} (hp : Ensures E p s Q)
    (hf : ∀ a t, Q a t → Ensures E (f a) t Q') : Ensures E (p.bind f) s Q' := by
  intro tr b t hx
  obtain ⟨tr₁, tr₂, a, u, -, h₁, h₂⟩ := Exec.bind_iff.mp hx
  exact hf a u (hp tr₁ a u h₁) tr₂ b t h₂

theorem andThen {ε : Type} {Q : Except ε α → σ → Prop} {Q' : Except ε β → σ → Prop}
    {p : Prog S (Except ε α)} {f : α → Prog S (Except ε β)} (hp : Ensures E p s Q)
    (hf : ∀ a t, Q (.ok a) t → Ensures E (f a) t Q')
    (he : ∀ e t u, Q (.error e) t → E.drift t u → Q' (.error e) u) :
    Ensures E (p.andThen f) s Q' := by
  refine hp.bind fun r t hr => ?_
  cases r with
  | ok a => exact hf a t hr
  | error e => exact .done (fun u hd => he e t u hr hd)

theorem andThen_onOk {ε : Type} {Q : α → σ → Prop} {Q' : β → σ → Prop}
    {p : Prog S (Except ε α)} {f : α → Prog S (Except ε β)} (hp : Ensures E p s (OnOk Q))
    (hf : ∀ a t, Q a t → Ensures E (f a) t (OnOk Q')) : Ensures E (p.andThen f) s (OnOk Q') :=
  hp.andThen hf (fun _ _ _ _ _ => trivial)

end Ensures

/-- Run a program against a handler that chooses one answer to each call. -/
def Prog.runWith (respond : σ → (c : S.Call) → S.Reply c × σ) :
    Prog S α → σ → List (Event S σ) × α × σ
  | .done a, s => ([], a, s)
  | .call c k, s =>
    let a := respond s c
    let rest := runWith respond (k a.1) a.2
    (⟨s, c, a.1⟩ :: rest.1, rest.2)

/-- A handler whose every answer the environment allows runs a program as an execution. -/
theorem Prog.exec_runWith {E : Environment S σ} {respond : σ → (c : S.Call) → S.Reply c × σ}
    (h : ∀ s c, E.answer s c (respond s c).1 (respond s c).2) (p : Prog S α) (s : σ) :
    Exec E p s (p.runWith respond s).1 (p.runWith respond s).2.1 (p.runWith respond s).2.2 := by
  induction p generalizing s with
  | done a => exact Exec.done_iff.mpr ⟨rfl, rfl, E.drift_refl s⟩
  | call c k ih =>
    exact Exec.call_iff.mpr ⟨s, _, _, _, rfl, E.drift_refl s, h s c, ih _ _⟩

/-- In such a run every reply is the handler's. -/
theorem Prog.reply_of_mem_runWith {respond : σ → (c : S.Call) → S.Reply c × σ} {p : Prog S α}
    {s : σ} {e : Event S σ} (he : e ∈ (p.runWith respond s).1) :
    e.reply = (respond e.pre e.call).1 := by
  induction p generalizing s with
  | done a => cases he
  | call c k ih =>
    obtain rfl | he := List.mem_cons.mp he
    · rfl
    · exact ih _ he

end MiningpoolObserver.Library.CallTree
