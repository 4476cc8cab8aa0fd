import MiningpoolObserver.Simulation

namespace MiningpoolObserver.ParentMatch

open MiningpoolObserver.Library.CallTree MiningpoolObserver.Library.LinkedChain
open MiningpoolObserver.Library.Runs MiningpoolObserver.Bitcoin MiningpoolObserver.Daemon
open MiningpoolObserver.Process MiningpoolObserver.MainLoop MiningpoolObserver.ChainView
open MiningpoolObserver.Simulation

variable {lib : Crates} {network : Network}

/-- Every block that is processed is built on the parent of the newest template. -/
def ParentMatches (tr : Trace lib) : Prop :=
  ∀ q ∈ processedIn tr, ∃ newest, q.lastTemplates.getLast? = some newest ∧
    q.block.header.prevBlockhash = newest.previousBlockHash

/-- When the missed-block branch asks for a height and goes on to process a block, the parent of
the newest template is in the active chain. -/
def ParentActive (tr : Trace lib) : Prop :=
  ∀ q ∈ processedIn tr, ∀ e ∈ tr, ∀ height, e.call = Call.getBlockHash height →
    ∃ newest, q.lastTemplates.getLast? = some newest ∧
      ∃ c ∈ e.pre.node.chain.blocks, hashOf lib c = newest.previousBlockHash

theorem parentMatches_iff_step {s s' : State lib} {tr : Trace lib}
    (hs : Polled Node.Reorganises s) (h : Step network Drift.sharedReorganises s tr s') :
    ParentMatches tr ↔ ParentActive tr := by
  obtain ⟨lt, out, hlt, -, ho, ha⟩ := h.cases
  cases ho with
  | skipped hn _ => simp [ParentMatches, ParentActive, hn]
  | first _ => simp [ParentMatches, ParentActive, processedIn, processed]
  | same _ _ => simp [ParentMatches, ParentActive, processedIn, processed]
  | @missed w₁ w₂ w₃ w₄ w₅ w₆ t p b b' hash fees r hp hne hb =>
    obtain ⟨h₁, hb', -⟩ := missed_facts follows_reorganises ha
    obtain ⟨m, hm, hpt⟩ := hs lt hlt p (List.mem_of_getLast? hp)
    have hmn := follows_reorganises.trans _ _ _ hm h₁
    have hiff := parent_eq_iff hmn hpt hb'
    constructor
    · intro hP q hq e he height hc
      obtain rfl : q = ⟨b', lt, r⟩ := List.mem_singleton.mp hq
      obtain ⟨newest, hnew, heq⟩ := hP _ hq
      obtain rfl : newest = p := Option.some.inj (hnew.symm.trans hp)
      simp only [List.mem_cons, List.not_mem_nil, or_false] at he
      obtain rfl | rfl | rfl | rfl | rfl | rfl := he <;> cases hc
      exact ⟨newest, hp, hiff.mp heq⟩
    · intro hC q hq
      obtain rfl : q = ⟨b', lt, r⟩ := List.mem_singleton.mp hq
      obtain ⟨newest, hnew, hc⟩ := hC _ hq ⟨w₃, Call.getBlockHash p.height, Except.ok hash⟩
        (List.mem_cons_of_mem _ (List.mem_cons_of_mem _ List.mem_cons_self)) p.height rfl
      obtain rfl : newest = p := Option.some.inj (hnew.symm.trans hp)
      exact ⟨newest, hp, hiff.mpr hc⟩
  | @normal w₁ w₂ w₃ w₄ t p b fees r hp hne hb =>
    refine iff_of_true (fun q hq => ?_) (fun q _ e he height hc => ?_)
    · obtain rfl : q = ⟨b, lt, r⟩ := List.mem_singleton.mp hq
      exact ⟨p, hp, hb⟩
    · simp only [List.mem_cons, List.not_mem_nil, or_false] at he
      obtain rfl | rfl | rfl | rfl := he <;> cases hc

/-- A run compares templates only with blocks on the same parent exactly when no reorganisation
takes the parent of the newest template out of the active chain before the missed-block branch
asks for a block at that height. -/
theorem parentMatches_iff (ρ : LoopRun lib network Drift.sharedReorganises) :
    (∀ i < ρ.length, ParentMatches (ρ.label i)) ↔ ∀ i < ρ.length, ParentActive (ρ.label i) := by
  have hs := polled_run follows_reorganises ρ
  constructor
  · exact fun h i hi => (parentMatches_iff_step (hs i hi.le) (ρ.steps i hi)).mp (h i hi)
  · exact fun h i hi => (parentMatches_iff_step (hs i hi.le) (ρ.steps i hi)).mpr (h i hi)

def fork₁ : Bitcoin.Block := minedBlock 1 12
def fork₂ : Bitcoin.Block := minedBlock 12 13
def fork₃ : Bitcoin.Block := minedBlock 13 14

/-- The block of `chain₁` has been replaced by three others. -/
def forkedChain : Node sample :=
  nodeOf (by decide : IsActive sample [block₀, block₁, fork₁, fork₂, fork₃]
    [fork₁, fork₂, fork₃] block₀)

theorem chain₁_reorganises : chain₁.Reorganises forkedChain :=
  ⟨List.subset_append_left [block₀, block₁] [fork₁, fork₂, fork₃], rfl⟩

def reorganisation : Schedule sample :=
  ⟨switch 1 chain₁ forkedChain, fun _ => Outside.healthy, .empty⟩

def reorganisationRun : LoopRun sample .bitcoin Drift.sharedReorganises :=
  reorganisation.run .bitcoin 2 follows_reorganises (fun _ _ h => h)
    (switch_follows follows_reorganises chain₁_reorganises 1) (by decide +kernel)

theorem parentMatches_fails :
    ¬ ∀ i < reorganisationRun.length, ParentMatches (reorganisationRun.label i) := by
  intro h
  have hmap : (processedIn (reorganisation.label .bitcoin 1)).map (fun q =>
      (q.block.header.prevBlockhash, q.lastTemplates.getLast?.map (fun t => t.previousBlockHash))) =
        [(hashOf sample fork₁, some (hashOf sample block₁))] := by
    decide +kernel
  obtain ⟨q, qs, hqs, hq, -⟩ := List.map_eq_cons_iff.mp hmap
  have hmem : q ∈ processedIn (reorganisation.label .bitcoin 1) := hqs ▸ List.mem_cons_self
  obtain ⟨newest, hnew, heq⟩ := h 1 Nat.one_lt_two q hmem
  rw [hnew, heq] at hq
  have hne : hashOf sample fork₁ ≠ hashOf sample block₁ := by decide
  exact hne ((Prod.mk.inj hq).1.symm.trans (Option.some.inj (Prod.mk.inj hq).2))

end MiningpoolObserver.ParentMatch
