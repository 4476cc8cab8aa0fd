import Mathlib.Data.List.Forall2
import MiningpoolObserver.BlockProgress

namespace MiningpoolObserver.NoLostTemplate

open MiningpoolObserver.Library.CallTree MiningpoolObserver.Library.LinkedChain
open MiningpoolObserver.Library.Runs MiningpoolObserver.Bitcoin MiningpoolObserver.Daemon
open MiningpoolObserver.Process MiningpoolObserver.ProcessSpec MiningpoolObserver.MainLoop
open MiningpoolObserver.ChainView MiningpoolObserver.Simulation MiningpoolObserver.BlockProgress

variable {lib : Crates} {network : Network} {s s' : State lib} {tr : Trace lib}

/-- A call of process's that failed. -/
def CallFails : (c : Daemon.Call) → Daemon.Reply c → Prop
  | .poolGet, .error _ => True
  | .sql _, .error _ => True
  | .getMempoolEntry _, .error _ => True
  | .getRawTransaction _, .error _ => True
  | .getBlock _, .error _ => True
  | .scanTxOutSetBlocking _, .error _ => True
  | .httpGet, .error _ => True
  | _, _ => False

theorem callFails_of_stops {c : Daemon.Call} {r : Daemon.Reply c} (h : Stops c r) :
    CallFails c r := by
  cases c with
  | poolGet => cases r with
    | ok u => exact h
    | error e => exact h
  | sql s => cases r with
    | ok a => exact h
    | error e => trivial
  | _ => exact h.elim

/-- Every RPC call and every call made by process succeeds. -/
structure FaultFree (tr : Trace lib) : Prop where
  rpc : ∀ e ∈ tr, ¬ RpcFails e.call e.reply
  process : ∀ q ∈ processedIn tr, ∀ e ∈ q.run.calls, ¬ CallFails e.call e.reply

theorem FaultFree.not_lastStops (h : FaultFree tr) {q : Processed lib}
    (hq : q ∈ processedIn tr) : ¬ LastStops q.run.calls := by
  rintro ⟨e, he, hs⟩
  exact h.process q hq e (List.mem_of_getLast? he) (callFails_of_stops hs)

/-- A run over a chain that only grows in which every call succeeds. -/
abbrev FaultFreeRun (lib : Crates) (network : Network) :=
  Run (@Initial lib) (fun s tr s' => Step network Drift.sharedGrows s tr s' ∧ FaultFree tr)

def newest (s : State lib) : Option GetBlockTemplateResult := s.templates.bind List.getLast?

/-- The block of the iteration was processed in the branch that drops the current template. -/
def DropsCurrent (tr : Trace lib) : Prop := processedIn tr ≠ [] ∧ ¬ AsksByHeight tr

/-- A fault-free iteration polls a template and either keeps it, or processes the block at the
height of the newest one. -/
inductive Move (s : State lib) (tr : Trace lib) (s' : State lib) : Prop
  | quiet {t : GetBlockTemplateResult} : polled tr = some t → processedIn tr = [] →
      (s.templates = some [] ∨ ∃ p, newest s = some p ∧ p.height = t.height) →
      newest s' = some t → Move s tr s'
  | mined {t p : GetBlockTemplateResult} {q : Processed lib} : polled tr = some t →
      processedIn tr = [q] → newest s = some p → p.height < t.height →
      s'.world.node.chain.at? p.height = some q.block →
      (newest s' = some t ∧ AsksByHeight tr ∨ s'.templates = none ∨
        s'.templates = some [] ∧ DropsCurrent tr) →
      Move s tr s'

/-- A call of process without a failure ends well or panics. -/
theorem FaultFree.ends {D : Drift lib} (hf : FaultFree tr) (h : Step network D s tr s')
    {q : Processed lib} (hq : q ∈ processedIn tr) :
    q.run.result = .ok () ∨ ∃ p, q.run.result = .error (.panicked p) := by
  obtain ⟨lt, out, -, -, -, ha⟩ := h.cases
  have hret := (finishes_of_processed ha q hq).returned
  cases hr : q.run.result with
  | ok u => exact .inl rfl
  | error e =>
    cases e with
    | returned => exact absurd (hret.mp hr) (hf.not_lastStops hq)
    | panicked p => exact .inr ⟨p, rfl⟩

theorem move_of_processed (hs : Polled Node.Grows s) (h : Step network Drift.sharedGrows s tr s')
    (hf : FaultFree tr) {q : Processed lib} (hq : q ∈ processedIn tr) : Move s tr s' := by
  obtain ⟨p, t, hlt, hp, ht, hpt, hat⟩ := processed_at hs h hq
  obtain ⟨lt, out, -, hout, ho, -⟩ := h.cases
  obtain ⟨hone, -, t', -, ht', -, -, hcases⟩ := ho.cases_of_processed hq
  obtain rfl : t' = t := Option.some.inj (ht'.symm.trans ht)
  refine .mined ht hone (by rw [newest, hlt]; exact hp) hpt hat ?_
  obtain hr | ⟨e, hr⟩ := hf.ends h hq
  · obtain ⟨hk, he⟩ | ⟨hk, he⟩ := hcases
    · exact .inl ⟨by rw [newest, hout, he, hr]; rfl, hk⟩
    · exact .inr (.inr ⟨by rw [hout, he, hr]; rfl, hone ▸ List.cons_ne_nil _ _, hk⟩)
  · obtain ⟨-, he⟩ | ⟨-, he⟩ := hcases
    · exact .inr (.inl (by rw [hout, he, hr]; rfl))
    · exact .inr (.inl (by rw [hout, he, hr]; rfl))

theorem move_of_step (hs : Polled Node.Grows s) (h : Step network Drift.sharedGrows s tr s')
    (hf : FaultFree tr) : Move s tr s' := by
  obtain ⟨lt, out, hlt, hout, ho, ha⟩ := h.cases
  cases ho with
  | skipped _ he =>
    obtain ⟨e, he, hr⟩ := he
    exact absurd hr (hf.rpc e he)
  | @first w t hn =>
    exact .quiet rfl rfl (.inl (hn ▸ hlt)) (by rw [newest, hout]; rfl)
  | @same w t p hp heq =>
    obtain ⟨h₁, ht, -⟩ := poll_facts follows_grows ha
    obtain ⟨m, hm, hpt⟩ := hs lt hlt p (List.mem_of_getLast? hp)
    have hmn := (follows_grows.trans _ _ _ hm h₁).reorganises
    refine .quiet rfl rfl (.inr ⟨p, ?_, height_eq_of_parent_eq hmn hpt ht heq⟩) ?_
    · rw [newest, hlt]
      exact hp
    · rw [newest, hout]
      exact getLast_pushTemplate lt t
  | missed _ _ _ => exact move_of_processed hs h hf List.mem_cons_self
  | normal _ _ _ => exact move_of_processed hs h hf List.mem_cons_self

/-- The calls of process in the first iterations of a run. -/
def processedBefore (ρ : FaultFreeRun lib network) (n : ℕ) : List (Processed lib) :=
  (List.range n).flatMap (fun i => processedIn (ρ.label i))

/-- Once a higher template is polled, the block at the height of each earlier template has been
processed exactly once. -/
def NoTemplateLost (ρ : FaultFreeRun lib network) : Prop :=
  ∀ i j, i < j → j < ρ.length → ∀ t t', polled (ρ.label i) = some t →
    polled (ρ.label j) = some t' → t.height < t'.height →
      ∃ b, (ρ.state (j + 1)).world.node.chain.at? t.height = some b ∧
        (processedBefore ρ (j + 1)).countP (fun q => q.block = b) = 1

/-- After an iteration that dropped its template, the chain has not grown at the next poll. -/
def NextPollSameHeight (ρ : FaultFreeRun lib network) : Prop :=
  ∀ i, i + 1 < ρ.length → DropsCurrent (ρ.label i) → ∀ t t', polled (ρ.label i) = some t →
    polled (ρ.label (i + 1)) = some t' → t'.height = t.height

theorem processedBefore_succ (ρ : FaultFreeRun lib network) (n : ℕ) :
    processedBefore ρ (n + 1) = processedBefore ρ n ++ processedIn (ρ.label n) := by
  simp [processedBefore, List.range_succ]

theorem polled_at (ρ : FaultFreeRun lib network) :
    ∀ i ≤ ρ.length, Polled Node.Grows (ρ.state i) :=
  ρ.invariant polled_initial (fun _ _ _ hs h => polled_step follows_grows hs h.1)

theorem move_at (ρ : FaultFreeRun lib network) {i : ℕ} (hi : i < ρ.length) :
    Move (ρ.state i) (ρ.label i) (ρ.state (i + 1)) :=
  move_of_step (polled_at ρ i hi.le) (ρ.steps i hi).1 (ρ.steps i hi).2

/-- The heights polled in the first iterations. -/
def PolledHeight (ρ : FaultFreeRun lib network) (n height : ℕ) : Prop :=
  ∃ i < n, ∃ t, polled (ρ.label i) = some t ∧ t.height = height

/-- What is true between two iterations, with the last polled height `top`: all heights below it
that were polled, and no others, have had their block processed, once each. -/
structure Frontier (ρ : FaultFreeRun lib network) (n top : ℕ) : Prop where
  last : ∃ t, polled (ρ.label (n - 1)) = some t ∧ t.height = top
  le_top : ∀ height, PolledHeight ρ n height → height ≤ top
  heights : ∃ hs : List ℕ, hs.Nodup ∧ (∀ h, h ∈ hs ↔ PolledHeight ρ n h ∧ h < top) ∧
    List.Forall₂ (fun (q : Processed lib) h =>
      (ρ.state n).world.node.chain.at? h = some q.block) (processedBefore ρ n) hs
  buffer : (∃ p, newest (ρ.state n) = some p ∧ p.height = top) ∨ (ρ.state n).templates = none ∨
    (ρ.state n).templates = some [] ∧ DropsCurrent (ρ.label (n - 1))

variable {ρ : FaultFreeRun lib network} {n top : ℕ}

theorem node_grows (ρ : FaultFreeRun lib network) {i j : ℕ} (hij : i ≤ j) (hj : j ≤ ρ.length) :
    (ρ.state i).world.node.Grows (ρ.state j).world.node :=
  ρ.relation (R := fun s s' => s.world.node.Grows s'.world.node)
    (fun _ => follows_grows.refl _) (fun _ _ _ => follows_grows.trans _ _ _)
    (fun k hk => follows_grows.step (ρ.steps k hk).1) hij hj

theorem polledHeight_succ {t : GetBlockTemplateResult} (ht : polled (ρ.label n) = some t)
    (height : ℕ) : PolledHeight ρ (n + 1) height ↔ PolledHeight ρ n height ∨ height = t.height := by
  constructor
  · rintro ⟨i, hi, u, hu, rfl⟩
    by_cases hin : i = n
    · subst hin
      rw [ht] at hu
      cases hu
      exact .inr rfl
    · exact .inl ⟨i, by omega, u, hu, rfl⟩
  · rintro (⟨i, hi, u, hu, rfl⟩ | rfl)
    · exact ⟨i, by omega, u, hu, rfl⟩
    · exact ⟨n, by omega, t, ht, rfl⟩

theorem Frontier.polledHeight_top (h : Frontier ρ n top) (hn : 0 < n) : PolledHeight ρ n top := by
  obtain ⟨t, ht, hh⟩ := h.last
  exact ⟨n - 1, by omega, t, ht, hh⟩

theorem newest_of_empty {s : State lib} (h : s.templates = some []) : newest s = none := by
  rw [newest, h]
  rfl

theorem Frontier.newest_height (h : Frontier ρ n top) {p : GetBlockTemplateResult}
    (hp : newest (ρ.state n) = some p) : p.height = top := by
  obtain ⟨p', hp', hh⟩ | hn | ⟨hn, -⟩ := h.buffer
  · rw [hp] at hp'
    cases hp'
    exact hh
  · rw [newest, hn] at hp
    cases hp
  · rw [newest_of_empty hn] at hp
    cases hp

theorem frontier_first (h0 : 0 < ρ.length) : ∃ top, Frontier ρ 1 top := by
  have hs : (ρ.state 0).templates = some [] := ρ.starts
  cases move_at ρ h0 with
  | @quiet t ht hq _ hnew =>
    have hP : ∀ height, PolledHeight ρ 1 height → height = t.height := by
      rintro height ⟨i, hi, u, hu, rfl⟩
      obtain rfl : i = 0 := by omega
      rw [ht] at hu
      cases hu
      rfl
    refine ⟨t.height, ⟨t, ht, rfl⟩, fun height hh => (hP height hh).le,
      ⟨[], List.nodup_nil, ?_, ?_⟩, .inl ⟨t, hnew, rfl⟩⟩
    · intro height
      refine iff_of_false List.not_mem_nil (fun hh => ?_)
      exact absurd (hP height hh.1) hh.2.ne
    · rw [processedBefore_succ, hq]
      exact List.Forall₂.nil
  | mined _ _ hp _ _ _ =>
    rw [newest_of_empty hs] at hp
    cases hp

/-- An iteration that only polls stays at the height. -/
theorem Frontier.quiet (h : Frontier ρ n top) (hlen : n < ρ.length) {t : GetBlockTemplateResult}
    (ht : polled (ρ.label n) = some t) (hq : processedIn (ρ.label n) = [])
    (htop : t.height = top) (hnew : newest (ρ.state (n + 1)) = some t) :
    Frontier ρ (n + 1) top := by
  have hgrows := node_grows ρ (Nat.le_succ n) hlen
  obtain ⟨hs, hnd, hmem, hall⟩ := h.heights
  have hP := polledHeight_succ ht
  refine ⟨⟨t, ht, htop⟩, ?_, ⟨hs, hnd, ?_, ?_⟩, .inl ⟨t, hnew, htop⟩⟩
  · intro height hh
    obtain hh | rfl := (hP height).mp hh
    · exact h.le_top height hh
    · exact htop.le
  · intro height
    rw [hmem, hP, htop]
    constructor
    · exact fun hh => ⟨.inl hh.1, hh.2⟩
    · rintro ⟨hh | rfl, hlt⟩
      · exact ⟨hh, hlt⟩
      · exact absurd hlt (lt_irrefl _)
  · rw [processedBefore_succ, hq, List.append_nil]
    exact hall.imp (fun _ _ hat => Chain.at_of_grows hgrows.2 hat)

/-- An iteration that processes a block takes the one at the height, and goes on from the height
that it has polled. -/
theorem Frontier.mined (h : Frontier ρ n top) (hn : 0 < n) (hlen : n < ρ.length)
    {t : GetBlockTemplateResult} {q : Processed lib} (ht : polled (ρ.label n) = some t)
    (hq : processedIn (ρ.label n) = [q]) (hlt : top < t.height)
    (hat : (ρ.state (n + 1)).world.node.chain.at? top = some q.block)
    (hbuf : newest (ρ.state (n + 1)) = some t ∧ AsksByHeight (ρ.label n) ∨
      (ρ.state (n + 1)).templates = none ∨
      (ρ.state (n + 1)).templates = some [] ∧ DropsCurrent (ρ.label n)) :
    Frontier ρ (n + 1) t.height := by
  have hgrows := node_grows ρ (Nat.le_succ n) hlen
  obtain ⟨hs, hnd, hmem, hall⟩ := h.heights
  have hP := polledHeight_succ ht
  have hntop : top ∉ hs := fun hh => lt_irrefl _ ((hmem top).mp hh).2
  refine ⟨⟨t, ht, rfl⟩, ?_, ⟨hs ++ [top], ?_, ?_, ?_⟩, ?_⟩
  · intro height hh
    obtain hh | rfl := (hP height).mp hh
    · exact (h.le_top height hh).trans hlt.le
    · exact le_rfl
  · apply List.Nodup.append hnd (List.nodup_singleton top)
    intro x hx hx'
    rw [List.mem_singleton.mp hx'] at hx
    exact hntop hx
  · intro height
    rw [List.mem_append, List.mem_singleton, hmem, hP]
    constructor
    · rintro (⟨hh, hlt'⟩ | rfl)
      · exact ⟨.inl hh, hlt'.trans hlt⟩
      · exact ⟨.inl (h.polledHeight_top hn), hlt⟩
    · rintro ⟨hh | rfl, hlt'⟩
      · obtain hl | he := (h.le_top height hh).lt_or_eq
        · exact .inl ⟨hh, hl⟩
        · exact .inr he
      · exact absurd hlt' (lt_irrefl _)
  · rw [processedBefore_succ, hq]
    exact List.rel_append (hall.imp (fun _ _ hat => Chain.at_of_grows hgrows.2 hat))
      (.cons hat .nil)
  · obtain ⟨hnew, -⟩ | hnone | hdrop := hbuf
    · exact .inl ⟨t, hnew, rfl⟩
    · exact .inr (.inl hnone)
    · exact .inr (.inr hdrop)

theorem frontier_step (hn : 0 < n) (hlen : n < ρ.length) (h : Frontier ρ n top)
    (hC : (ρ.state n).templates = some [] → ∀ t, polled (ρ.label n) = some t → t.height = top) :
    ∃ top, Frontier ρ (n + 1) top := by
  cases move_at ρ hlen with
  | @quiet t ht hq hold hnew =>
    have htop : t.height = top := by
      obtain he | ⟨p, hp, hpt⟩ := hold
      · exact hC he t ht
      · rw [← hpt]
        exact h.newest_height hp
    exact ⟨top, h.quiet hlen ht hq htop hnew⟩
  | @mined t p q ht hq hp hpt hat hbuf =>
    rw [h.newest_height hp] at hpt hat
    exact ⟨t.height, h.mined hn hlen ht hq hpt hat hbuf⟩

/-- Counting blocks and counting their heights is the same. -/
theorem countP_eq_count {w : Node lib} {qs : List (Processed lib)} {hs : List ℕ} {height : ℕ}
    {b : Bitcoin.Block}
    (h : List.Forall₂ (fun (q : Processed lib) h => w.chain.at? h = some q.block) qs hs)
    (hb : w.chain.at? height = some b) :
    qs.countP (fun q => q.block = b) = hs.count height := by
  induction h with
  | nil => rfl
  | @cons q h' qs hs hat _ ih =>
    rw [List.countP_cons, List.count_cons, ih]
    by_cases he : h' = height
    · subst he
      have hqb : q.block = b := Option.some.inj (hat.symm.trans hb)
      simp [hqb]
    · have hqb : q.block ≠ b := by
        intro hqb
        rw [hqb] at hat
        exact he (Chain.height_unique (fun _ hk => hk) rfl hat hb)
      simp [hqb, he]

theorem exists_at_of_mem_heights {w : Node lib} {qs : List (Processed lib)} {hs : List ℕ}
    {height : ℕ}
    (h : List.Forall₂ (fun (q : Processed lib) h => w.chain.at? h = some q.block) qs hs)
    (hm : height ∈ hs) : ∃ b, w.chain.at? height = some b := by
  induction h with
  | nil => cases hm
  | @cons q h' qs hs hat _ ih =>
    obtain rfl | hm := List.mem_cons.mp hm
    · exact ⟨q.block, hat⟩
    · exact ih hm

theorem Frontier.processed_once (h : Frontier ρ n top) {height : ℕ}
    (hp : PolledHeight ρ n height) (hlt : height < top) :
    ∃ b, (ρ.state n).world.node.chain.at? height = some b ∧
      (processedBefore ρ n).countP (fun q => q.block = b) = 1 := by
  obtain ⟨hs, hnd, hmem, hall⟩ := h.heights
  have hin : height ∈ hs := (hmem height).mpr ⟨hp, hlt⟩
  obtain ⟨b, hat⟩ := exists_at_of_mem_heights hall hin
  exact ⟨b, hat, (countP_eq_count hall hat).trans (List.count_eq_one_of_mem hnd hin)⟩

/-- Polled heights never decrease. -/
theorem polled_mono {i j : ℕ} (hij : i < j) (hj : j < ρ.length) {t u : GetBlockTemplateResult}
    (ht : polled (ρ.label i) = some t) (hu : polled (ρ.label j) = some u) :
    t.height ≤ u.height := by
  obtain ⟨lt, -, hx⟩ := (ρ.steps i (by omega)).1
  obtain ⟨m, -, htm, hm⟩ := polled_facts follows_grows ht hx.answers
  obtain ⟨lt', -, hx'⟩ := (ρ.steps j hj).1
  obtain ⟨m', hm', hum, -⟩ := polled_facts follows_grows hu hx'.answers
  have hgrows := node_grows ρ (Nat.succ_le_of_lt hij) hj.le
  exact height_mono (follows_grows.trans _ _ _ hm (follows_grows.trans _ _ _ hgrows hm')) htm hum

/-- Were the chain to grow right after a template was dropped, that template would be lost. -/
theorem same_height_of_noTemplateLost (hP : NoTemplateLost ρ) (hn : 0 < n) (hlen : n < ρ.length)
    (h : Frontier ρ n top) (he : (ρ.state n).templates = some []) {t : GetBlockTemplateResult}
    (ht : polled (ρ.label n) = some t) : t.height = top := by
  obtain ⟨u, hu, hut⟩ := h.last
  have hle : u.height ≤ t.height := polled_mono (by omega) hlen hu ht
  by_contra hne
  have hlt : u.height < t.height := by omega
  obtain ⟨b, hb, hcount⟩ := hP (n - 1) n (by omega) hlen u t hu ht hlt
  obtain ⟨hs, hnd, hmem, hall⟩ := h.heights
  have hgrows := node_grows ρ (Nat.le_succ n) hlen
  have hall' : List.Forall₂ (fun (q : Processed lib) h =>
      (ρ.state (n + 1)).world.node.chain.at? h = some q.block) (processedBefore ρ n) hs :=
    hall.imp (fun _ _ hat => Chain.at_of_grows hgrows.2 hat)
  cases move_at ρ hlen with
  | quiet _ hq _ _ =>
    rw [processedBefore_succ, hq, List.append_nil, countP_eq_count hall' hb] at hcount
    have hin : u.height ∈ hs := List.count_pos_iff.mp (by omega)
    exact absurd ((hmem _).mp hin).2 (by omega)
  | mined _ _ hp _ _ _ =>
    rw [newest_of_empty he] at hp
    cases hp

theorem frontier_run (hC : ∀ n top, 0 < n → n < ρ.length → Frontier ρ n top →
      (ρ.state n).templates = some [] → ∀ t, polled (ρ.label n) = some t → t.height = top) :
    ∀ n, 0 < n → n ≤ ρ.length → ∃ top, Frontier ρ n top := by
  intro n hn
  induction n, hn using Nat.le_induction with
  | base => exact fun hlen => frontier_first (by omega)
  | succ n hn ih =>
    intro hlen
    obtain ⟨top, h⟩ := ih (by omega)
    exact frontier_step hn hlen h (hC n top hn hlen h)

/-- In a fault-free run over a growing chain no template is lost exactly when the chain never
grows between an iteration that drops its template and the next poll. -/
theorem noTemplateLost_iff (ρ : FaultFreeRun lib network) :
    NoTemplateLost ρ ↔ NextPollSameHeight ρ := by
  constructor
  · intro hP i hi hdrop t t' ht ht'
    have hrun := frontier_run (ρ := ρ) (fun n top hn hlen h he t ht =>
      same_height_of_noTemplateLost hP hn hlen h he ht)
    obtain ⟨top, h⟩ := hrun (i + 1) (by omega) hi.le
    obtain ⟨u, hu, hut⟩ := h.last
    rw [Nat.add_sub_cancel, ht] at hu
    cases hu
    rw [hut]
    refine same_height_of_noTemplateLost hP (Nat.succ_pos i) hi h ?_ ht'
    cases move_at ρ (by omega : i < ρ.length) with
    | quiet _ hq _ _ => exact absurd hq hdrop.1
    | mined _ _ _ _ _ hbuf =>
      obtain ⟨-, hk⟩ | hnone | ⟨he, -⟩ := hbuf
      · exact absurd hk hdrop.2
      · obtain ⟨lt, hlt, -⟩ := (ρ.steps (i + 1) hi).1
        rw [hnone] at hlt
        cases hlt
      · exact he
  · intro hC i j hij hj t t' ht ht' hlt
    have hrun := frontier_run (ρ := ρ) (fun n top hn hlen h he t ht => by
      obtain ⟨u, hu, hut⟩ := h.last
      obtain ⟨p, hp, -⟩ | hnone | ⟨-, hdrop⟩ := h.buffer
      · rw [newest_of_empty he] at hp
        cases hp
      · rw [he] at hnone
        cases hnone
      · have hs : n - 1 + 1 = n := by omega
        rw [← hut]
        exact hC (n - 1) (by omega) hdrop u t hu (hs ▸ ht))
    obtain ⟨top, h⟩ := hrun (j + 1) (by omega) hj
    obtain ⟨u, hu, hut⟩ := h.last
    rw [Nat.add_sub_cancel, ht'] at hu
    cases hu
    exact h.processed_once ⟨i, by omega, t, ht, rfl⟩ (hut ▸ hlt)

instance : (c : MainLoop.Call) → (r : MainLoop.Reply lib c) → Decidable (RpcFails c r)
  | .getBlockTemplate, .error _ => .isTrue trivial
  | .getBlockTemplate, .ok _ => .isFalse id
  | .getBlock _, .error _ => .isTrue trivial
  | .getBlock _, .ok _ => .isFalse id
  | .getBlockHash _, .error _ => .isTrue trivial
  | .getBlockHash _, .ok _ => .isFalse id
  | .getBlockTxidFee _, .error _ => .isTrue trivial
  | .getBlockTxidFee _, .ok _ => .isFalse id
  | .process _ _ _, _ => .isFalse id

instance : (c : Daemon.Call) → (r : Daemon.Reply c) → Decidable (CallFails c r)
  | .poolGet, .error _ => .isTrue trivial
  | .poolGet, .ok _ => .isFalse id
  | .sql _, .error _ => .isTrue trivial
  | .sql _, .ok _ => .isFalse id
  | .getMempoolEntry _, .error _ => .isTrue trivial
  | .getMempoolEntry _, .ok _ => .isFalse id
  | .getRawTransaction _, .error _ => .isTrue trivial
  | .getRawTransaction _, .ok _ => .isFalse id
  | .getBlock _, .error _ => .isTrue trivial
  | .getBlock _, .ok _ => .isFalse id
  | .scanTxOutSetBlocking _, .error _ => .isTrue trivial
  | .scanTxOutSetBlocking _, .ok _ => .isFalse id
  | .httpGet, .error _ => .isTrue trivial
  | .httpGet, .ok _ => .isFalse id
  | .utcNow, _ => .isFalse id
  | .localNow, _ => .isFalse id
  | .elapsed, _ => .isFalse id
  | .lockPools, _ => .isFalse id

/-- One block more at each of the first three polls. -/
def blockPerPoll : Schedule sample where
  node
    | 0 => chain₀
    | 1 => chain₁
    | _ => chain₂
  outside _ := .healthy
  db := .empty

theorem blockPerPoll_grows (i : ℕ) :
    (blockPerPoll.node i).Grows (blockPerPoll.node (i + 1)) := by
  cases i with
  | zero => exact chain₀_grows
  | succ i => cases i with
    | zero => exact chain₁_grows
    | succ i => exact follows_grows.refl _

def blockPerPollLoop : LoopRun sample .bitcoin Drift.sharedGrows :=
  blockPerPoll.run .bitcoin 3 follows_grows (fun _ _ h => h) blockPerPoll_grows (by decide +kernel)

theorem blockPerPoll_faultFree (i : ℕ) (hi : i < 3) :
    FaultFree (blockPerPoll.label .bitcoin i) where
  rpc := by
    have h : ∀ i < 3, ∀ e ∈ blockPerPoll.label .bitcoin i, ¬ RpcFails e.call e.reply := by
      decide +kernel
    exact h i hi
  process := by
    have h : ∀ i < 3, ∀ q ∈ processedIn (blockPerPoll.label .bitcoin i), ∀ e ∈ q.run.calls,
        ¬ CallFails e.call e.reply := by
      decide +kernel
    exact h i hi

def blockPerPollRun : FaultFreeRun sample .bitcoin where
  length := 3
  state := blockPerPollLoop.state
  label := blockPerPollLoop.label
  starts := blockPerPollLoop.starts
  steps i hi := ⟨blockPerPollLoop.steps i hi, blockPerPoll_faultFree i hi⟩

/-- The template polled in iteration 1 has height 2, and the block at that height is never
processed. -/
theorem noTemplateLost_fails : ¬ NoTemplateLost blockPerPollRun := by
  intro h
  have hpolled : ∀ i < 3, (polled (blockPerPoll.label .bitcoin i)).map (fun t => t.height) =
      some (i + 1) := by decide +kernel
  obtain ⟨t, ht, h₁⟩ := Option.map_eq_some_iff.mp (hpolled 1 (by decide))
  obtain ⟨u, hu, h₂⟩ := Option.map_eq_some_iff.mp (hpolled 2 (by decide))
  obtain ⟨b, hb, hcount⟩ := h 1 2 (by decide) (by decide) t u ht hu (by omega)
  have hat : (blockPerPoll.state .bitcoin 3).world.node.chain.at? 2 = some block₂ := by
    decide +kernel
  have hnone : (processedBefore blockPerPollRun 3).countP (fun q => q.block = block₂) = 0 := by
    decide +kernel
  rw [h₁] at hb
  cases hb.symm.trans hat
  rw [hnone] at hcount
  cases hcount

end MiningpoolObserver.NoLostTemplate
