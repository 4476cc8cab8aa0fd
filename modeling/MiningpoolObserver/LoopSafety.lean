import MiningpoolObserver.NoPanic
import MiningpoolObserver.ParentMatch

namespace MiningpoolObserver.LoopSafety

open MiningpoolObserver.Library.CallTree MiningpoolObserver.Library.Runs
open MiningpoolObserver.Bitcoin MiningpoolObserver.Daemon MiningpoolObserver.Process
open MiningpoolObserver.Processing.Listing MiningpoolObserver.MainLoop MiningpoolObserver.ChainView
open MiningpoolObserver.NoPanic MiningpoolObserver.Simulation MiningpoolObserver.ParentMatch

variable {lib : Crates} {network : Network} {D : Drift lib} {lt : List GetBlockTemplateResult}

/-- A block has a transaction, and a time that chrono can take. -/
structure FitBlock (lib : Crates) (b : Bitcoin.Block) : Prop where
  transactions : b.txdata ≠ []
  time : (lib.timestamp b.header.time.toUInt64.toInt64).isSome

/-- The ids of a template are those of its transactions, and chrono can take its time. -/
structure FitTemplate (lib : Crates) (t : GetBlockTemplateResult) : Prop where
  declared : Declared lib t
  time : (lib.timestamp t.currentTime.toInt64).isSome

theorem wellFormed_of_fit {b : Bitcoin.Block} {fees : GetBlockTxFeesResult} (hlt : lt ≠ [])
    (ht : ∀ t ∈ lt, FitTemplate lib t) (hb : FitBlock lib b)
    (hfees : fees.tx.map (fun f => f.txid) = b.txdata.map lib.computeTxid) :
    WellFormed lib b fees lt where
  templates := hlt
  transactions := hb.transactions
  fees tx htx := by
    have hm : lib.computeTxid tx ∈ fees.tx.map (fun f => f.txid) :=
      hfees ▸ List.mem_map_of_mem htx
    obtain ⟨fee, hfee, hid⟩ := List.mem_map.mp hm
    exact ⟨fee, hfee, hid⟩
  declared t h := (ht t h).declared
  blockTime := hb.time
  templateTimes t h := (ht t h).time

section Steps

variable {s s' : State lib} {tr : Trace lib}

/-- A block that the node has returned is among those it knows later, and the fees that it returns
for its hash later are those of the block. -/
theorem fees_of_known (hR : Follows D (@Node.Reorganises lib)) {v w : World lib}
    {b : Bitcoin.Block} {hash : BlockHash} {fees : GetBlockTxFeesResult} (hd : D.rel v w)
    (hb : b ∈ v.node.known) (hh : hashOf lib b = hash)
    (hf : ∀ b ∈ w.node.known, hashOf lib b = hash →
      fees.tx.map (fun (f : GetBlockTxFee) => f.txid) = b.txdata.map lib.computeTxid) :
    fees.tx.map (fun (f : GetBlockTxFee) => f.txid) = b.txdata.map lib.computeTxid :=
  hf b ((hR.drift _ _ hd).1 hb) hh

/-- An iteration gives process a block that the node knows, and the fees of that block. -/
theorem processed_facts (hR : Follows D (@Node.Reorganises lib)) (h : Step network D s tr s')
    {q : Processed lib} (hq : q ∈ processedIn tr) :
    ∃ rs fees v v', q.block ∈ s'.world.node.known ∧ s.templates = some q.lastTemplates ∧
      q.lastTemplates ≠ [] ∧
      fees.tx.map (fun (f : GetBlockTxFee) => f.txid) = q.block.txdata.map lib.computeTxid ∧
      Exec (Daemon.environment D)
        (Process.process lib rs network q.block fees q.lastTemplates) v q.run.calls q.run.result
        v' := by
  obtain ⟨lt, out, hlt, -, ho, ha⟩ := h.cases
  cases ho with
  | skipped hn _ =>
    rw [hn] at hq
    exact absurd hq List.not_mem_nil
  | first _ => exact absurd hq List.not_mem_nil
  | same _ _ => exact absurd hq List.not_mem_nil
  | @missed w₁ w₂ w₃ w₄ w₅ w₆ t p b b' hash fees r hp hne hb =>
    obtain rfl := List.mem_singleton.mp hq
    obtain ⟨-, -, ht₁⟩ := rpc_answers (fun _ _ _ hc => by cases hc) ha
    obtain ⟨-, -, ht₂⟩ := rpc_answers (fun _ _ _ hc => by cases hc) ht₁
    obtain ⟨-, -, ht₃⟩ := rpc_answers (fun _ _ _ hc => by cases hc) ht₂
    obtain ⟨-, ⟨-, hb', hh⟩, ht₄⟩ := rpc_answers (fun _ _ _ hc => by cases hc) ht₃
    obtain ⟨hd, ⟨-, hf⟩, ht₅⟩ := rpc_answers (fun _ _ _ hc => by cases hc) ht₄
    obtain ⟨v, hd', ⟨rs, hx⟩, -⟩ := Answers.cons_iff.mp ht₅
    exact ⟨rs, fees, w₆, v, (hR.answers ht₄).1 hb', hlt, List.ne_nil_of_mem
      (List.mem_of_getLast? hp), fees_of_known hR hd hb' hh hf, hx⟩
  | @normal w₁ w₂ w₃ w₄ t p b fees r hp hne hb =>
    obtain rfl := List.mem_singleton.mp hq
    obtain ⟨-, -, ht₁⟩ := rpc_answers (fun _ _ _ hc => by cases hc) ha
    obtain ⟨-, ⟨-, hb', hh⟩, ht₂⟩ := rpc_answers (fun _ _ _ hc => by cases hc) ht₁
    obtain ⟨hd, ⟨-, hf⟩, ht₃⟩ := rpc_answers (fun _ _ _ hc => by cases hc) ht₂
    obtain ⟨v, hd', ⟨rs, hx⟩, -⟩ := Answers.cons_iff.mp ht₃
    exact ⟨rs, fees, w₄, v, (hR.answers ht₂).1 hb', hlt, List.ne_nil_of_mem
      (List.mem_of_getLast? hp), fees_of_known hR hd hb' hh hf, hx⟩

/-- The thread is alive, with templates that process can take. -/
def Alive (s : State lib) : Prop :=
  ∃ lt, s.templates = some lt ∧ ∀ t ∈ lt, FitTemplate lib t

theorem alive_initial (h : Initial s) : Alive s := ⟨[], h, fun _ ht => absurd ht List.not_mem_nil⟩

theorem sane_of_processed (hR : Follows D (@Node.Reorganises lib)) (hs : Alive s)
    (hblocks : ∀ b ∈ s'.world.node.known, FitBlock lib b) (h : Step network D s tr s')
    {q : Processed lib} (hq : q ∈ processedIn tr) : Sane q.run.result := by
  obtain ⟨rs, fees, v, v', hb, hlt, hne, hfees, hx⟩ := processed_facts hR h hq
  obtain ⟨lt, hlt', ht⟩ := hs
  rw [hlt] at hlt'
  cases hlt'
  exact (returns_process (wellFormed_of_fit hne ht (hblocks q.block hb) hfees)).path hx.path

/-- An iteration that polls a template that process can take leaves the thread alive. -/
theorem alive_step (hR : Follows D (@Node.Reorganises lib)) (hs : Alive s)
    (hblocks : ∀ b ∈ s'.world.node.known, FitBlock lib b)
    (htemplates : ∀ t, polled tr = some t → FitTemplate lib t) (h : Step network D s tr s') :
    Alive s' := by
  have hsane : ∀ q ∈ processedIn tr, Sane q.run.result :=
    fun q hq => sane_of_processed hR hs hblocks h hq
  obtain ⟨lt, out, hlt, hout, ho, -⟩ := h.cases
  have hsome : ∃ lt', out = some lt' := by
    have hafter : ∀ q ∈ processedIn tr, ∃ l, afterProcess lt q.run.result = some l := by
      intro q hq
      cases hr : q.run.result with
      | ok u => exact ⟨[], rfl⟩
      | error e =>
        cases e with
        | returned => exact ⟨lt, rfl⟩
        | panicked p => exact absurd hr (hsane q hq p)
    cases ho with
    | skipped _ _ | first _ | same _ _ => exact ⟨_, rfl⟩
    | missed _ _ _ =>
      obtain ⟨l, hl⟩ := hafter _ List.mem_cons_self
      exact ⟨_, by rw [hl, Option.map_some]⟩
    | normal _ _ _ =>
      obtain ⟨l, hl⟩ := hafter _ List.mem_cons_self
      exact ⟨l, hl⟩
  obtain ⟨lt', rfl⟩ := hsome
  refine ⟨lt', hout, fun t ht => ?_⟩
  obtain ht | ht := ho.mem ht
  · obtain ⟨lt₀, hlt₀, hall⟩ := hs
    rw [hlt] at hlt₀
    cases hlt₀
    exact hall t ht
  · exact htemplates t ht

end Steps

/-- The thread of main_loop never panics, whichever calls fail and however the chain moves. -/
theorem main_loop_never_panics (ρ : LoopRun lib network Drift.sharedReorganises)
    (hblocks : ∀ b ∈ ρ.last.world.node.known, FitBlock lib b)
    (htemplates : ∀ i < ρ.length, ∀ t, polled (ρ.label i) = some t → FitTemplate lib t) :
    ∀ i ≤ ρ.length, (ρ.state i).templates ≠ none := by
  have hknown : ∀ i ≤ ρ.length, ∀ b ∈ (ρ.state i).world.node.known, FitBlock lib b := by
    intro i hi b hb
    have hr : (ρ.state i).world.node.Reorganises ρ.last.world.node :=
      ρ.relation (R := fun s s' => s.world.node.Reorganises s'.world.node)
        (fun s => follows_reorganises.refl _) (fun _ _ _ => follows_reorganises.trans _ _ _)
        (fun i hi => follows_reorganises.step (ρ.steps i hi)) hi le_rfl
    exact hblocks b (hr.1 hb)
  have halive : ∀ i ≤ ρ.length, Alive (ρ.state i) := by
    intro i
    induction i with
    | zero => exact fun _ => alive_initial ρ.starts
    | succ i ih =>
      intro hi
      have hi' : i < ρ.length := Nat.lt_of_succ_le hi
      exact alive_step follows_reorganises (ih hi'.le) (hknown (i + 1) hi) (htemplates i hi')
        (ρ.steps i hi')
  intro i hi hnone
  obtain ⟨lt, hlt, -⟩ := halive i hi
  rw [hnone] at hlt
  cases hlt

/-- A reorganisation between two polls. -/
theorem main_loop_never_panics_reorganisation :
    (processedIn (reorganisationRun.label 1)).length = 1 ∧
      ∀ i ≤ reorganisationRun.length, (reorganisationRun.state i).templates ≠ none := by
  refine ⟨by decide +kernel, main_loop_never_panics reorganisationRun ?_ ?_⟩
  · have halive : reorganisation.Alive .bitcoin 2 := by decide +kernel
    have hnode : reorganisationRun.last.world.node = forkedChain :=
      Schedule.node_state (halive 1 (by decide))
    have hall : ∀ b ∈ forkedChain.known, b.txdata ≠ [] := by decide
    rw [hnode]
    exact fun b hb => ⟨hall b hb, rfl⟩
  · intro i _ t _
    refine ⟨fun tx _ id h => ?_, rfl⟩
    cases h

end MiningpoolObserver.LoopSafety
