import MiningpoolObserver.Simulation

namespace MiningpoolObserver.BlockProgress

open MiningpoolObserver.Library.CallTree MiningpoolObserver.Library.LinkedChain
open MiningpoolObserver.Library.Runs MiningpoolObserver.Bitcoin MiningpoolObserver.Daemon
open MiningpoolObserver.Process MiningpoolObserver.ProcessSpec MiningpoolObserver.MainLoop
open MiningpoolObserver.ChainView MiningpoolObserver.Simulation

variable {lib : Crates} {network : Network} {s s' : State lib} {tr : Trace lib}

theorem height_le {m n : Node lib} {t : GetBlockTemplateResult} (hmn : m.Grows n)
    (h : IsTemplate m t) : t.height ≤ n.chain.length := by
  rw [h.1]
  exact hmn.2.length_le

theorem height_mono {m n : Node lib} {t u : GetBlockTemplateResult} (hmn : m.Grows n)
    (ht : IsTemplate m t) (hu : IsTemplate n u) : t.height ≤ u.height := by
  rw [hu.1]
  exact height_le hmn ht

/-- Where both templates name different parents, the later one is higher. -/
theorem height_lt {m n : Node lib} {t u : GetBlockTemplateResult} (hmn : m.Grows n)
    (ht : IsTemplate m t) (hu : IsTemplate n u)
    (hp : t.previousBlockHash ≠ u.previousBlockHash) : t.height < u.height := by
  refine lt_of_le_of_ne (height_mono hmn ht hu) (fun he => hp ?_)
  obtain ⟨-, a, ha, hta⟩ := ht
  obtain ⟨-, b, hb, hub⟩ := hu
  have hab : n.chain.at? (u.height - 1) = some a := he ▸ Chain.at_of_grows hmn.2 ha
  rw [hb] at hab
  rw [hta, hub, Option.some.inj hab]

/-- On a chain that only grows, the block that is processed is the one at the height of the
newest template, and the template just polled is higher. -/
theorem processed_at (hs : Polled Node.Grows s) (h : Step network Drift.sharedGrows s tr s')
    {q : Processed lib} (hq : q ∈ processedIn tr) :
    ∃ p t, s.templates = some q.lastTemplates ∧ q.lastTemplates.getLast? = some p ∧
      polled tr = some t ∧ p.height < t.height ∧
      s'.world.node.chain.at? p.height = some q.block := by
  obtain ⟨lt, out, hlt, -, ho, ha⟩ := h.cases
  cases ho with
  | skipped hn _ =>
    rw [hn] at hq
    exact absurd hq List.not_mem_nil
  | first _ => exact absurd hq List.not_mem_nil
  | same _ _ => exact absurd hq List.not_mem_nil
  | @missed w₁ w₂ w₃ w₄ w₅ w₆ t p b b' hash fees r hp hne hb =>
    obtain rfl : q = ⟨b', lt, r⟩ := List.mem_singleton.mp hq
    obtain ⟨-, hat, hw⟩ := missed_facts follows_grows ha
    obtain ⟨h₁, ht, -⟩ := poll_facts follows_grows ha
    obtain ⟨m, hm, hpt⟩ := hs lt hlt p (List.mem_of_getLast? hp)
    exact ⟨p, t, hlt, hp, rfl, height_lt (follows_grows.trans _ _ _ hm h₁) hpt ht hne,
      Chain.at_of_grows hw.2 hat⟩
  | @normal w₁ w₂ w₃ w₄ t p b fees r hp hne hb =>
    obtain rfl : q = ⟨b, lt, r⟩ := List.mem_singleton.mp hq
    have hat := normal_facts follows_grows ha
    obtain ⟨h₁, ht, hw⟩ := poll_facts follows_grows ha
    obtain ⟨m, hm, hpt⟩ := hs lt hlt p (List.mem_of_getLast? hp)
    have hmn := follows_grows.trans _ _ _ hm h₁
    have hlt' := height_lt hmn hpt ht hne
    refine ⟨p, t, hlt, hp, rfl, hlt', Chain.at_of_grows hw.2 ?_⟩
    -- both the block's parent and the newest template's parent are the block below it
    have hp0 := height_pos hpt
    obtain ⟨-, a, ha', hpa⟩ := hpt
    have ha₁ := Chain.at_of_grows hmn.2 ha'
    obtain ⟨c, hc⟩ := Chain.exists_at (i := t.height - 2) (Nat.lt_of_le_of_lt (by omega)
      (Chain.lt_length_of_at hat))
    have hs : t.height - 2 + 1 = t.height - 1 := by omega
    have hbc := Node.prevBlockhash_eq hc (hs ▸ hat)
    have hca : c = a := Chain.eq_of_hash_eq (fun _ hk => hk) hc ha₁ (by rw [← hbc, hb, hpa])
    have hh := Chain.height_unique (fun _ hk => hk) rfl hc (hca ▸ ha₁)
    have he : t.height - 1 = p.height := by omega
    rw [← he]
    exact hat

/-- The newest template is beyond a height. -/
def Past (height : ℕ) (s : State lib) : Prop :=
  height < s.world.node.chain.length ∧
    ∀ lt, s.templates = some lt → ∀ p, lt.getLast? = some p → height < p.height

theorem past_step {height : ℕ} (hs : Past height s) (h : Step network Drift.sharedGrows s tr s') :
    Past height s' := by
  refine ⟨lt_of_lt_of_le hs.1 (follows_grows.step h).2.length_le, ?_⟩
  obtain ⟨lt, out, hlt, hout, ho, ha⟩ := h.cases
  intro lt' hlt' p hp
  rw [hout] at hlt'
  subst hlt'
  obtain hp | hp := ho.newest hp
  · exact hs.2 lt hlt p hp
  · obtain ⟨m, hm, ht, -⟩ := polled_facts follows_grows hp ha
    rw [ht.1]
    exact lt_of_lt_of_le hs.1 hm.2.length_le

/-- In the branch that drops the current template, no insertion of debug records fails. -/
def DebugStored (tr : Trace lib) : Prop :=
  ¬ AsksByHeight tr → ∀ q ∈ processedIn tr, ¬ DebugFailed q.run.calls

theorem past_of_stored (hs : Polled Node.Grows s) (hC : DebugStored tr)
    (h : Step network Drift.sharedGrows s tr s') {q : Processed lib} (hq : q ∈ processedIn tr)
    (hall : StoredAll lib q.block q.run.calls) {p : GetBlockTemplateResult}
    (hp : q.lastTemplates.getLast? = some p) : Past p.height s' := by
  obtain ⟨p', t, hlt, hp', ht, hpt, hat⟩ := processed_at hs h hq
  obtain rfl : p' = p := Option.some.inj (hp'.symm.trans hp)
  refine ⟨Chain.lt_length_of_at hat, ?_⟩
  obtain ⟨lt, out, hlt', hout, ho, ha⟩ := h.cases
  have hf := finishes_of_processed ha q hq
  obtain ⟨-, -, t', -, ht', -, -, hcases⟩ := ho.cases_of_processed hq
  obtain rfl : t' = t := Option.some.inj (ht'.symm.trans ht)
  intro l hl u hu
  rw [hout] at hl
  obtain ⟨-, he⟩ | ⟨hn, he⟩ := hcases
  · -- the current template is kept, and is the newest one
    obtain ⟨l', -, rfl⟩ := Option.map_eq_some_iff.mp (he.symm.trans hl)
    rw [List.getLast?_concat] at hu
    cases hu
    exact hpt
  · obtain ⟨-, rfl⟩ | ⟨hr, -⟩ := afterProcess_eq (he.symm.trans hl)
    · cases hu
    · -- the call stored everything, so it did not return early
      obtain hok | hd := hf.debugFailed hall
      · rw [hr] at hok
        cases hok
      · exact absurd hd (hC hn q hq)

/-- A block whose records were all stored by a call of process is not processed again. -/
def NoRepeat (ρ : LoopRun lib network Drift.sharedGrows) : Prop :=
  ∀ i j, i < j → j < ρ.length → ∀ q ∈ processedIn (ρ.label i), StoredAll lib q.block q.run.calls →
    ∀ q' ∈ processedIn (ρ.label j), q'.block ≠ q.block

theorem past_run (ρ : LoopRun lib network Drift.sharedGrows) {height i j : ℕ} (hij : i ≤ j)
    (hj : j ≤ ρ.length) (h : Past height (ρ.state i)) : Past height (ρ.state j) := by
  induction j, hij using Nat.le_induction with
  | base => exact h
  | succ j hij ih => exact past_step (ih (by omega)) (ρ.steps j (by omega))

/-- As long as the insertion of debug records does not fail where the current template is
dropped, no stored block is processed again. -/
theorem noRepeat_of_debugStored (ρ : LoopRun lib network Drift.sharedGrows)
    (hC : ∀ i < ρ.length, DebugStored (ρ.label i)) : NoRepeat ρ := by
  intro i j hij hj q hq hall q' hq' heq
  have hi : i < ρ.length := by omega
  obtain ⟨p, t, -, hp, -, -, hat⟩ :=
    processed_at (polled_run follows_grows ρ i hi.le) (ρ.steps i hi) hq
  obtain ⟨p', t', hlt', hp', -, -, hat'⟩ :=
    processed_at (polled_run follows_grows ρ j hj.le) (ρ.steps j hj) hq'
  have hpast := past_of_stored (polled_run follows_grows ρ i hi.le) (hC i hi) (ρ.steps i hi) hq
    hall hp
  have hlt : p.height < p'.height := (past_run ρ hij hj.le hpast).2 _ hlt' p' hp'
  have hgrows : (ρ.state (i + 1)).world.node.Grows (ρ.state (j + 1)).world.node :=
    ρ.relation (R := fun s s' => s.world.node.Grows s'.world.node)
      (fun _ => follows_grows.refl _) (fun _ _ _ => follows_grows.trans _ _ _)
      (fun k hk => follows_grows.step (ρ.steps k hk)) (by omega) (by omega)
  have hat₁ := Chain.at_of_grows hgrows.2 hat
  have hh : p.height = p'.height :=
    Chain.height_unique (fun _ hk => hk) rfl hat₁ (heq ▸ hat')
  omega

/-- The first block arrives after the first poll. -/
def firstBlock (o : Outside) : Schedule sample :=
  ⟨switch 1 chain₀ chain₁, fun _ => o, .empty⟩

def firstBlockRun (o : Outside) (n : ℕ) (h : (firstBlock o).Alive .bitcoin n) :
    LoopRun sample .bitcoin Drift.sharedGrows :=
  (firstBlock o).run .bitcoin n follows_grows (fun _ _ h => h)
    (switch_follows follows_grows chain₀_grows 1) h

theorem healthy_alive : (firstBlock .healthy).Alive .bitcoin 3 := by decide +kernel

theorem noRepeat_healthy : NoRepeat (firstBlockRun .healthy 3 healthy_alive) :=
  noRepeat_of_debugStored (firstBlockRun .healthy 3 healthy_alive) (fun i hi _ => by
    have hall : ∀ i < 3, ∀ q ∈ processedIn ((firstBlock .healthy).label .bitcoin i),
        ¬ DebugFailed q.run.calls := by decide +kernel
    exact hall i hi)

def brokenDebug : Outside :=
  { Outside.healthy with
    sqlFails := fun s => match s with
      | .insertDebugTemplateSelectionInfos _ => true
      | _ => false }

theorem brokenDebug_alive : (firstBlock brokenDebug).Alive .bitcoin 3 := by decide +kernel

theorem noRepeat_fails : ¬ NoRepeat (firstBlockRun brokenDebug 3 brokenDebug_alive) := by
  have hfirst : ∃ q ∈ processedIn ((firstBlock brokenDebug).label .bitcoin 1),
      q.block = block₁ ∧ DebugFailed q.run.calls := by decide +kernel
  have hsecond : ∃ q ∈ processedIn ((firstBlock brokenDebug).label .bitcoin 2),
      q.block = block₁ := by decide +kernel
  intro h
  obtain ⟨q, hq, hb, hd⟩ := hfirst
  obtain ⟨q', hq', hb'⟩ := hsecond
  obtain ⟨lt, -, hx⟩ := (firstBlockRun brokenDebug 3 brokenDebug_alive).steps 1 (by decide)
  obtain ⟨rs, fees, v, v', hp⟩ := exists_exec_of_processed hx.answers hq
  have hall := storedAll_of_debugFailed hp hd
  exact h 1 2 (by decide) (by decide) q hq hall q' hq' (hb'.trans hb.symm)

end MiningpoolObserver.BlockProgress
