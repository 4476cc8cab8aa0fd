import MiningpoolObserver.Simulation

namespace MiningpoolObserver.TemplateBuffer

open MiningpoolObserver.Library.CallTree MiningpoolObserver.Library.Runs
open MiningpoolObserver.Bitcoin MiningpoolObserver.Daemon MiningpoolObserver.Process
open MiningpoolObserver.ProcessSpec MiningpoolObserver.MainLoop
open MiningpoolObserver.Simulation

variable {lib : Crates} {network : Network} {D : Drift lib}
variable {lt : List GetBlockTemplateResult} {s s' : State lib} {tr : Trace lib}

/-- All templates in memory are built on one block. -/
def SameParent (s : State lib) : Prop :=
  ∀ lt, s.templates = some lt → ∀ t ∈ lt, ∀ u ∈ lt, t.previousBlockHash = u.previousBlockHash

/-- No call of process in the missed-block branch ends with a failed call. -/
def MissedSucceeds (tr : Trace lib) : Prop :=
  AsksByHeight tr → ∀ p ∈ processedIn tr, ¬ LastStops p.run.calls

theorem length_pushTemplate (t : GetBlockTemplateResult) (h : lt.length ≤ MAX_OLD_TEMPLATES) :
    (pushTemplate lt t).length ≤ MAX_OLD_TEMPLATES := by
  unfold pushTemplate
  dsimp only
  split_ifs with hl
  · rw [List.length_tail, List.length_append, List.length_singleton]
    omega
  · exact not_lt.mp hl

/-- The templates after a call of process, by how the call ended. -/
theorem afterProcess_cases (lt : List GetBlockTemplateResult) {block : Bitcoin.Block}
    {calls : Calls lib} {r : Except Abort Unit}
    (h : Finishes lib block calls r) :
    (LastStops calls ∧ afterProcess lt r = some lt) ∨
      (¬ LastStops calls ∧ (afterProcess lt r = some [] ∨ afterProcess lt r = none)) := by
  have hr := h.returned
  cases r with
  | ok u => exact .inr ⟨fun hs => (by cases hr.mpr hs), .inl rfl⟩
  | error e =>
    cases e with
    | returned => exact .inl ⟨hr.mp rfl, rfl⟩
    | panicked p => exact .inr ⟨fun hs => (by cases hr.mpr hs), .inr rfl⟩

/-- The templates keep a property that holds of none and of one, and when a template of the same
parent comes, if it also holds after a call in the missed-block branch that ends with a failed
call. -/
theorem templates_step {I : List GetBlockTemplateResult → Prop} (hnone : I []) (hone : ∀ t, I [t])
    (hpush : ∀ lt p t, I lt → lt.getLast? = some p → p.previousBlockHash = t.previousBlockHash →
      I (pushTemplate lt t))
    (hmissed : AsksByHeight tr → ∀ q ∈ processedIn tr, LastStops q.run.calls →
      ∀ t, I (q.lastTemplates ++ [t]))
    (hs : ∀ lt, s.templates = some lt → I lt) (h : Step network D s tr s') :
    ∀ lt, s'.templates = some lt → I lt := by
  obtain ⟨lt, out, hlt, hout, ho, ha⟩ := h.cases
  have hI := hs lt hlt
  have hf := finishes_of_processed ha
  intro lt' hlt'
  rw [hout] at hlt'
  cases ho with
  | skipped _ _ =>
    cases hlt'
    exact hI
  | @first _ t _ =>
    cases hlt'
    exact hone t
  | @same w t p hp heq =>
    cases hlt'
    exact hpush lt p t hI hp heq
  | @missed w₁ w₂ w₃ w₄ w₅ w₆ t p b b' hash fees r hp hne hb =>
    obtain ⟨hstop, hr⟩ | ⟨-, hr | hr⟩ :=
      afterProcess_cases lt (hf ⟨b', lt, r⟩ List.mem_cons_self)
    · rw [hr] at hlt'
      cases hlt'
      exact hmissed asksByHeight_missed ⟨b', lt, r⟩ List.mem_cons_self hstop t
    · rw [hr] at hlt'
      cases hlt'
      exact hone t
    · rw [hr] at hlt'
      cases hlt'
  | @normal w₁ w₂ w₃ w₄ t p b fees r hp hne hb =>
    obtain ⟨-, hr⟩ | ⟨-, hr | hr⟩ := afterProcess_cases lt (hf ⟨b, lt, r⟩ List.mem_cons_self)
    · rw [hr] at hlt'
      cases hlt'
      exact hI
    · rw [hr] at hlt'
      cases hlt'
      exact hnone
    · rw [hr] at hlt'
      cases hlt'

theorem sameParent_step (hs : SameParent s) (hC : MissedSucceeds tr)
    (h : Step network D s tr s') : SameParent s' := by
  refine templates_step
    (I := fun lt => ∀ t ∈ lt, ∀ u ∈ lt, t.previousBlockHash = u.previousBlockHash) ?_ ?_ ?_ ?_ hs h
  · exact fun t ht => absurd ht List.not_mem_nil
  · intro t a ha b hb
    rw [List.mem_singleton.mp ha, List.mem_singleton.mp hb]
  · intro lt p t hI hp heq
    have hpt : ∀ u ∈ pushTemplate lt t, u.previousBlockHash = p.previousBlockHash := by
      intro u hu
      obtain hu | rfl := mem_pushTemplate hu
      · exact hI u hu p (List.mem_of_getLast? hp)
      · exact heq.symm
    exact fun a ha b hb => (hpt a ha).trans (hpt b hb).symm
  · exact fun hk q hq hstop => absurd hstop (hC hk q hq)

/-- Where the condition fails, the missed-block branch has made a call of process that ended with
a failed call, and pushed the current template after the old ones. -/
theorem exists_missed_of_failed {lt : List GetBlockTemplateResult} {out : Templates}
    (ho : Outcome lt tr out) (hk : AsksByHeight tr) {q : Processed lib} (hq : q ∈ processedIn tr)
    (hf : Finishes lib q.block q.run.calls q.run.result) (hs : LastStops q.run.calls) :
    q.lastTemplates = lt ∧ ∃ p t, lt.getLast? = some p ∧
      p.previousBlockHash ≠ t.previousBlockHash ∧ out = some (lt ++ [t]) := by
  obtain ⟨-, hlt, t, p, -, hp, hne, ⟨-, hout⟩ | ⟨hn, -⟩⟩ := ho.cases_of_processed hq
  · have hr : q.run.result = .error .returned := hf.returned.mpr hs
    refine ⟨hlt, p, t, hp, hne, ?_⟩
    rw [hout, hr]
    rfl
  · exact absurd hk hn

theorem not_sameParent_step (hC : ¬ MissedSucceeds tr) (h : Step network D s tr s') :
    ¬ SameParent s' := by
  obtain ⟨lt, out, hlt, hout, ho, ha⟩ := h.cases
  simp only [MissedSucceeds, not_forall, not_not] at hC
  obtain ⟨hk, q, hq, hs⟩ := hC
  obtain ⟨-, p, t, hp, hne, rfl⟩ :=
    exists_missed_of_failed ho hk hq (finishes_of_processed ha q hq) hs
  intro hP
  have hmem : p ∈ lt ++ [t] := List.mem_append_left _ (List.mem_of_getLast? hp)
  exact hne (hP _ hout p hmem t (List.mem_append_right _ List.mem_cons_self))

/-- The templates in memory share their parent in every state of a run exactly when no call of
process in the missed-block branch ends with a failed call. -/
theorem sameParent_iff (ρ : LoopRun lib network D) :
    (∀ i ≤ ρ.length, SameParent (ρ.state i)) ↔ ∀ i < ρ.length, MissedSucceeds (ρ.label i) := by
  refine ρ.forall_state_iff (C := fun _ tr => MissedSucceeds tr) (I := SameParent) ?_
    (fun _ h => h) (fun s tr s' => sameParent_step) (fun s tr s' _ => not_sameParent_step)
  intro s hs lt hlt
  rw [hs] at hlt
  cases hlt
  exact fun t ht => absurd ht List.not_mem_nil

theorem not_sameParent_of_map {a b : BlockHash} (hab : a ≠ b)
    (h : s.templates.map (fun lt => lt.map (fun t => t.previousBlockHash)) = some [a, b]) :
    ¬ SameParent s := by
  obtain ⟨lt, hlt, hm⟩ := Option.map_eq_some_iff.mp h
  have ha : a ∈ lt.map (fun t => t.previousBlockHash) := hm ▸ List.mem_cons_self
  have hb : b ∈ lt.map (fun t => t.previousBlockHash) :=
    hm ▸ List.mem_cons_of_mem _ List.mem_cons_self
  obtain ⟨t, ht, rfl⟩ := List.mem_map.mp ha
  obtain ⟨u, hu, rfl⟩ := List.mem_map.mp hb
  exact fun hP => hab (hP lt hlt t ht u hu)

theorem sameParent_fails :
    ¬ ∀ i ≤ 2, SameParent ((skippedBlockRun 1 2 (by decide +kernel)).state i) := by
  intro h
  have hmap : ((skippedBlock 1).state .bitcoin 2).templates.map
      (fun lt => lt.map (fun t => t.previousBlockHash)) =
        some [hashOf sample block₀, hashOf sample block₂] := by
    decide +kernel
  exact not_sameParent_of_map (by decide) hmap (h 2 le_rfl)

/-- At most `MAX_OLD_TEMPLATES` templates are in memory. -/
def Bounded (s : State lib) : Prop :=
  ∀ lt, s.templates = some lt → lt.length ≤ MAX_OLD_TEMPLATES

/-- A call of process in the missed-block branch that ends with a failed call had room for one
more template. -/
def MissedHasRoom (tr : Trace lib) : Prop :=
  AsksByHeight tr → ∀ p ∈ processedIn tr, LastStops p.run.calls →
    p.lastTemplates.length < MAX_OLD_TEMPLATES

theorem one_le_maxOldTemplates : 1 ≤ MAX_OLD_TEMPLATES := by decide

theorem bounded_step (hs : Bounded s) (hC : MissedHasRoom tr) (h : Step network D s tr s') :
    Bounded s' := by
  refine templates_step (I := fun lt => lt.length ≤ MAX_OLD_TEMPLATES) (Nat.zero_le _) ?_ ?_ ?_ hs h
  · exact fun _ => one_le_maxOldTemplates
  · exact fun lt p t hI _ _ => length_pushTemplate t hI
  · intro hk q hq hstop t
    rw [List.length_append, List.length_singleton]
    exact hC hk q hq hstop

theorem not_bounded_step (hC : ¬ MissedHasRoom tr) (h : Step network D s tr s') : ¬ Bounded s' := by
  obtain ⟨lt, out, hlt, hout, ho, ha⟩ := h.cases
  simp only [MissedHasRoom, not_forall, not_lt] at hC
  obtain ⟨hk, q, hq, hs, hlen⟩ := hC
  obtain ⟨heq, p, t, hp, hne, rfl⟩ :=
    exists_missed_of_failed ho hk hq (finishes_of_processed ha q hq) hs
  intro hP
  have hle := hP _ hout
  rw [List.length_append, List.length_singleton] at hle
  rw [heq] at hlen
  omega

/-- The buffer keeps its bound in every state of a run exactly when no call of process in the
missed-block branch ends with a failed call while the buffer is full. -/
theorem bounded_iff (ρ : LoopRun lib network D) :
    (∀ i ≤ ρ.length, Bounded (ρ.state i)) ↔ ∀ i < ρ.length, MissedHasRoom (ρ.label i) := by
  refine ρ.forall_state_iff (C := fun _ tr => MissedHasRoom tr) (I := Bounded) ?_
    (fun _ h => h) (fun s tr s' => bounded_step) (fun s tr s' _ => not_bounded_step)
  intro s hs lt hlt
  rw [hs] at hlt
  cases hlt
  exact Nat.zero_le _

theorem bounded_fails :
    ¬ ∀ i ≤ 16, Bounded ((skippedBlockRun 15 16 (by decide +kernel)).state i) := by
  intro h
  have hmap : ((skippedBlock 15).state .bitcoin 16).templates.map List.length = some 16 := by
    decide +kernel
  obtain ⟨lt, hlt, hlen⟩ := Option.map_eq_some_iff.mp hmap
  have hle := h 16 le_rfl lt hlt
  rw [hlen] at hle
  exact absurd hle (by decide)

end MiningpoolObserver.TemplateBuffer
