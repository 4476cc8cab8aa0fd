import MiningpoolObserver.Library.Runs
import MiningpoolObserver.ProcessSpec

namespace MiningpoolObserver.MainLoop

open MiningpoolObserver.Library.CallTree MiningpoolObserver.Library.LinkedChain
open MiningpoolObserver.Library.HashCollections MiningpoolObserver.Library.Runs
open MiningpoolObserver.Bitcoin MiningpoolObserver.Daemon MiningpoolObserver.Process
open MiningpoolObserver.ProcessSpec

variable {lib : Crates}

inductive Call where
  | getBlockTemplate
  | getBlock (hash : BlockHash)
  | getBlockHash (height : Nat)
  | getBlockTxidFee (hash : BlockHash)
  | process (block : Bitcoin.Block) (blockTxFees : GetBlockTxFeesResult)
      (lastTemplates : List GetBlockTemplateResult)

/-- A call of process as it went: the calls it made, and how it ended. -/
structure ProcessRun (lib : Crates) where
  calls : List (Event Daemon.signature (World lib))
  result : Except Abort Unit

abbrev Reply (lib : Crates) : Call → Type
  | .getBlockTemplate => Except String GetBlockTemplateResult
  | .getBlock _ => Except String Bitcoin.Block
  | .getBlockHash _ => Except String BlockHash
  | .getBlockTxidFee _ => Except String GetBlockTxFeesResult
  | .process _ _ _ => ProcessRun lib

abbrev signature (lib : Crates) : Signature := ⟨Call, Reply lib⟩

abbrev Trace (lib : Crates) := List (Event (signature lib) (World lib))

/-- The templates after an iteration. There are none when the thread has panicked. -/
abbrev Templates := Option (List GetBlockTemplateResult)

def MAX_OLD_TEMPLATES : Nat := 15

/-- The push that is followed by the eviction check. -/
def pushTemplate (lastTemplates : List GetBlockTemplateResult) (t : GetBlockTemplateResult) :
    List GetBlockTemplateResult :=
  let pushed := lastTemplates ++ [t]
  if pushed.length > MAX_OLD_TEMPLATES then pushed.tail else pushed

def afterProcess (lastTemplates : List GetBlockTemplateResult) : Except Abort Unit → Templates
  | .ok () => some []
  | .error .returned => some lastTemplates
  | .error (.panicked _) => none

variable (lib) in
/-- The block that was mined on the newest template, as the active chain has it now. -/
def missedBranch (lastTemplates : List GetBlockTemplateResult)
    (previousTemplate currentTemplate : GetBlockTemplateResult) : Prog (signature lib) Templates :=
  .call (Call.getBlockHash previousTemplate.height)
    (fun r => match (r : Except String BlockHash) with
    | .error _ => .done (some lastTemplates)
    | .ok hashOfMissedBlock =>
      .call (Call.getBlock hashOfMissedBlock) (fun r => match (r : Except String Bitcoin.Block) with
        | .error _ => .done (some lastTemplates)
        | .ok bitcoinBlock =>
          .call (Call.getBlockTxidFee hashOfMissedBlock)
            (fun r => match (r : Except String GetBlockTxFeesResult) with
              | .error _ => .done (some lastTemplates)
              | .ok blockTxFees =>
                .call (Call.process bitcoinBlock blockTxFees lastTemplates)
                  (fun (r : ProcessRun lib) =>
                    .done ((afterProcess lastTemplates r.result).map (· ++ [currentTemplate]))))))

variable (lib) in
/-- The block is built on the newest template. The current template is dropped. -/
def normalBranch (lastTemplates : List GetBlockTemplateResult)
    (currentTemplate : GetBlockTemplateResult) (bitcoinBlock : Bitcoin.Block) :
    Prog (signature lib) Templates :=
  .call (Call.getBlockTxidFee currentTemplate.previousBlockHash)
    (fun r => match (r : Except String GetBlockTxFeesResult) with
      | .error _ => .done (some lastTemplates)
      | .ok blockTxFees =>
        .call (Call.process bitcoinBlock blockTxFees lastTemplates) (fun (r : ProcessRun lib) =>
          .done (afterProcess lastTemplates r.result)))

variable (lib) in
/-- One round of the loop in main_loop. -/
def iteration (lastTemplates : List GetBlockTemplateResult) : Prog (signature lib) Templates :=
  .call Call.getBlockTemplate (fun r => match (r : Except String GetBlockTemplateResult) with
    | .error _ => .done (some lastTemplates)
    | .ok currentTemplate => match lastTemplates.getLast? with
      | none => .done (some [currentTemplate])
      | some previousTemplate =>
        if previousTemplate.previousBlockHash = currentTemplate.previousBlockHash then
          .done (some (pushTemplate lastTemplates currentTemplate))
        else .call (Call.getBlock currentTemplate.previousBlockHash)
          (fun r => match (r : Except String Bitcoin.Block) with
            | .error _ => .done (some lastTemplates)
            | .ok bitcoinBlock =>
              if bitcoinBlock.header.prevBlockhash ≠ previousTemplate.previousBlockHash then
                missedBranch lib lastTemplates previousTemplate currentTemplate
              else normalBranch lib lastTemplates currentTemplate bitcoinBlock))

/-- A template for the next block on the active chain. -/
def IsTemplate (n : Node lib) (t : GetBlockTemplateResult) : Prop :=
  t.height = n.chain.length ∧
    ∃ tip, n.chain.at? (t.height - 1) = some tip ∧ t.previousBlockHash = hashOf lib tip

/-- The node answers from what it knows at that moment. A call of process runs among the
other threads. -/
def answer (network : Network) (D : Drift lib) (w : World lib) :
    (c : Call) → Reply lib c → World lib → Prop
  | .getBlockTemplate, .ok t, w' => w' = w ∧ IsTemplate w.node t
  | .getBlock hash, .ok b, w' => w' = w ∧ b ∈ w.node.known ∧ hashOf lib b = hash
  | .getBlockHash height, .ok hash, w' =>
    w' = w ∧ ∃ b, w.node.chain.at? height = some b ∧ hashOf lib b = hash
  | .getBlockTxidFee hash, .ok fees, w' =>
    w' = w ∧ ∀ b ∈ w.node.known, hashOf lib b = hash →
      fees.tx.map (fun (f : GetBlockTxFee) => f.txid) = b.txdata.map lib.computeTxid
  | .process block blockTxFees lastTemplates, r, w' =>
    ∃ rs : RandomState, Exec (Daemon.environment D)
      (Process.process lib rs network block blockTxFees lastTemplates) w r.calls r.result w'
  | _, _, w' => w' = w

def environment (network : Network) (D : Drift lib) :
    Environment (signature lib) (World lib) where
  drift := D.rel
  answer w c r w' := answer network D w c r w'
  drift_refl := D.refl
  drift_trans := D.trans

structure State (lib : Crates) where
  templates : Templates
  world : World lib

/-- Before the first iteration there are no templates. -/
def Initial (s : State lib) : Prop := s.templates = some []

/-- One iteration, labelled with the calls it makes. -/
def Step (network : Network) (D : Drift lib) (s : State lib) (tr : Trace lib) (s' : State lib) :
    Prop :=
  ∃ lastTemplates, s.templates = some lastTemplates ∧
    Exec (environment network D) (iteration lib lastTemplates) s.world tr s'.templates s'.world

/-- A step among other threads is one among threads that may do more. -/
theorem Step.mono {network : Network} {D D' : Drift lib} (hD : ∀ w w', D.rel w w' → D'.rel w w')
    {s s' : State lib} {tr : Trace lib} (h : Step network D s tr s') : Step network D' s tr s' := by
  obtain ⟨lt, hlt, hx⟩ := h
  refine ⟨lt, hlt, hx.mono hD (fun w c r w' ha => ?_)⟩
  by_cases hc : ∃ block fees lt, c = .process block fees lt
  · obtain ⟨block, fees, lt, rfl⟩ := hc
    obtain ⟨rs, hx⟩ := ha
    exact ⟨rs, Exec.mono (E := Daemon.environment D) hD (fun _ _ _ _ h => h) hx⟩
  · cases c with
    | process block fees lt => exact absurd ⟨block, fees, lt, rfl⟩ hc
    | getBlockTemplate | getBlock _ | getBlockHash _ | getBlockTxidFee _ => cases r <;> exact ha

abbrev LoopRun (lib : Crates) (network : Network) (D : Drift lib) :=
  Run (@Initial lib) (Step network D)

/-- An RPC call that failed. -/
def RpcFails : (c : Call) → Reply lib c → Prop
  | .getBlockTemplate, .error _ => True
  | .getBlock _, .error _ => True
  | .getBlockHash _, .error _ => True
  | .getBlockTxidFee _, .error _ => True
  | _, _ => False

/-- A call of process that an iteration made. -/
structure Processed (lib : Crates) where
  block : Bitcoin.Block
  lastTemplates : List GetBlockTemplateResult
  run : ProcessRun lib

def processed (e : Event (signature lib) (World lib)) : Option (Processed lib) :=
  match e with
  | ⟨_, .process block _ lastTemplates, r⟩ => some ⟨block, lastTemplates, r⟩
  | _ => none

/-- The calls of process in a trace. -/
def processedIn (tr : Trace lib) : List (Processed lib) := tr.filterMap processed

/-- All that an iteration can do. -/
inductive Outcome (lt : List GetBlockTemplateResult) : Trace lib → Templates → Prop
  | skipped {tr : Trace lib} : processedIn tr = [] → (∃ e ∈ tr, RpcFails e.call e.reply) →
      Outcome lt tr (some lt)
  | first {w : World lib} {t : GetBlockTemplateResult} : lt = [] →
      Outcome lt [⟨w, Call.getBlockTemplate, Except.ok t⟩] (some [t])
  | same {w : World lib} {t p : GetBlockTemplateResult} : lt.getLast? = some p →
      p.previousBlockHash = t.previousBlockHash →
      Outcome lt [⟨w, Call.getBlockTemplate, Except.ok t⟩] (some (pushTemplate lt t))
  | missed {w₁ w₂ w₃ w₄ w₅ w₆ : World lib} {t p : GetBlockTemplateResult} {b b' : Bitcoin.Block}
      {hash : BlockHash} {fees : GetBlockTxFeesResult} {r : ProcessRun lib} :
      lt.getLast? = some p → p.previousBlockHash ≠ t.previousBlockHash →
      b.header.prevBlockhash ≠ p.previousBlockHash →
      Outcome lt
        [⟨w₁, Call.getBlockTemplate, Except.ok t⟩,
          ⟨w₂, Call.getBlock t.previousBlockHash, Except.ok b⟩,
          ⟨w₃, Call.getBlockHash p.height, Except.ok hash⟩,
          ⟨w₄, Call.getBlock hash, Except.ok b'⟩,
          ⟨w₅, Call.getBlockTxidFee hash, Except.ok fees⟩,
          ⟨w₆, Call.process b' fees lt, r⟩]
        ((afterProcess lt r.result).map (· ++ [t]))
  | normal {w₁ w₂ w₃ w₄ : World lib} {t p : GetBlockTemplateResult} {b : Bitcoin.Block}
      {fees : GetBlockTxFeesResult} {r : ProcessRun lib} :
      lt.getLast? = some p → p.previousBlockHash ≠ t.previousBlockHash →
      b.header.prevBlockhash = p.previousBlockHash →
      Outcome lt
        [⟨w₁, Call.getBlockTemplate, Except.ok t⟩,
          ⟨w₂, Call.getBlock t.previousBlockHash, Except.ok b⟩,
          ⟨w₃, Call.getBlockTxidFee t.previousBlockHash, Except.ok fees⟩,
          ⟨w₄, Call.process b fees lt, r⟩]
        (afterProcess lt r.result)

theorem missedBranch_outcome {lt : List GetBlockTemplateResult} {t p : GetBlockTemplateResult}
    {b : Bitcoin.Block} {w₁ w₂ : World lib} {tr : Trace lib} {out : Templates}
    (hp : lt.getLast? = some p) (hne : p.previousBlockHash ≠ t.previousBlockHash)
    (hb : b.header.prevBlockhash ≠ p.previousBlockHash)
    (h : Path (missedBranch lib lt p t) tr (.done out)) :
    Outcome lt (⟨w₁, Call.getBlockTemplate, Except.ok t⟩ ::
      ⟨w₂, Call.getBlock t.previousBlockHash, Except.ok b⟩ :: tr) out := by
  obtain ⟨w₃, r₃, tr₃, rfl, h₃⟩ := Path.call_done_iff.mp h
  cases r₃ with
  | error e =>
    obtain ⟨rfl, ho⟩ := Path.done_iff.mp h₃
    cases ho
    exact .skipped rfl ⟨⟨w₃, Call.getBlockHash p.height, .error e⟩, by simp, trivial⟩
  | ok hash =>
    obtain ⟨w₄, r₄, tr₄, rfl, h₄⟩ := Path.call_done_iff.mp h₃
    cases r₄ with
    | error e =>
      obtain ⟨rfl, ho⟩ := Path.done_iff.mp h₄
      cases ho
      exact .skipped rfl ⟨⟨w₄, Call.getBlock hash, .error e⟩, by simp, trivial⟩
    | ok b' =>
      obtain ⟨w₅, r₅, tr₅, rfl, h₅⟩ := Path.call_done_iff.mp h₄
      cases r₅ with
      | error e =>
        obtain ⟨rfl, ho⟩ := Path.done_iff.mp h₅
        cases ho
        exact .skipped rfl ⟨⟨w₅, Call.getBlockTxidFee hash, .error e⟩, by simp, trivial⟩
      | ok fees =>
        obtain ⟨w₆, r₆, tr₆, rfl, h₆⟩ := Path.call_done_iff.mp h₅
        obtain ⟨rfl, ho⟩ := Path.done_iff.mp h₆
        cases ho
        exact .missed hp hne hb

theorem normalBranch_outcome {lt : List GetBlockTemplateResult} {t p : GetBlockTemplateResult}
    {b : Bitcoin.Block} {w₁ w₂ : World lib} {tr : Trace lib} {out : Templates}
    (hp : lt.getLast? = some p) (hne : p.previousBlockHash ≠ t.previousBlockHash)
    (hb : b.header.prevBlockhash = p.previousBlockHash)
    (h : Path (normalBranch lib lt t b) tr (.done out)) :
    Outcome lt (⟨w₁, Call.getBlockTemplate, Except.ok t⟩ ::
      ⟨w₂, Call.getBlock t.previousBlockHash, Except.ok b⟩ :: tr) out := by
  obtain ⟨w₃, r₃, tr₃, rfl, h₃⟩ := Path.call_done_iff.mp h
  cases r₃ with
  | error e =>
    obtain ⟨rfl, ho⟩ := Path.done_iff.mp h₃
    cases ho
    exact .skipped rfl
      ⟨⟨w₃, Call.getBlockTxidFee t.previousBlockHash, .error e⟩, by simp, trivial⟩
  | ok fees =>
    obtain ⟨w₄, r₄, tr₄, rfl, h₄⟩ := Path.call_done_iff.mp h₃
    obtain ⟨rfl, ho⟩ := Path.done_iff.mp h₄
    cases ho
    exact .normal hp hne hb

theorem iteration_outcome {lt : List GetBlockTemplateResult} {tr : Trace lib} {out : Templates}
    (h : Path (iteration lib lt) tr (.done out)) : Outcome lt tr out := by
  obtain ⟨w₁, r₁, tr₁, rfl, h₁⟩ := Path.call_done_iff.mp h
  cases r₁ with
  | error e =>
    obtain ⟨rfl, ho⟩ := Path.done_iff.mp h₁
    cases ho
    exact .skipped rfl ⟨⟨w₁, Call.getBlockTemplate, .error e⟩, by simp, trivial⟩
  | ok t =>
    cases hp : lt.getLast? with
    | none =>
      simp only [hp] at h₁
      obtain ⟨rfl, ho⟩ := Path.done_iff.mp h₁
      cases ho
      exact .first (List.getLast?_eq_none_iff.mp hp)
    | some p =>
      simp only [hp] at h₁
      by_cases hne : p.previousBlockHash = t.previousBlockHash
      · rw [if_pos hne] at h₁
        obtain ⟨rfl, ho⟩ := Path.done_iff.mp h₁
        cases ho
        exact .same hp hne
      · rw [if_neg hne] at h₁
        obtain ⟨w₂, r₂, tr₂, rfl, h₂⟩ := Path.call_done_iff.mp h₁
        cases r₂ with
        | error e =>
          obtain ⟨rfl, ho⟩ := Path.done_iff.mp h₂
          cases ho
          exact .skipped rfl
            ⟨⟨w₂, Call.getBlock t.previousBlockHash, .error e⟩, by simp, trivial⟩
        | ok b =>
          by_cases hb : b.header.prevBlockhash = p.previousBlockHash
          · simp only [hb, ne_eq, not_true_eq_false, if_false] at h₂
            exact normalBranch_outcome hp hne hb h₂
          · simp only [hb, ne_eq, not_false_eq_true, if_true] at h₂
            exact missedBranch_outcome hp hne hb h₂

/-- The spec of a step: the iteration has one of the outcomes, and its calls are answered. -/
theorem Step.cases {network : Network} {D : Drift lib} {s s' : State lib} {tr : Trace lib}
    (h : Step network D s tr s') :
    ∃ lt out, s.templates = some lt ∧ s'.templates = out ∧ Outcome lt tr out ∧
      Answers (environment network D) s.world tr s'.world := by
  obtain ⟨lt, hlt, hp, ha⟩ := h
  exact ⟨lt, _, hlt, rfl, iteration_outcome hp, ha⟩

theorem processed_eq_some_iff {e : Event (signature lib) (World lib)} {p : Processed lib} :
    processed e = some p ↔ ∃ w fees, e = ⟨w, Call.process p.block fees p.lastTemplates, p.run⟩ := by
  constructor
  · intro h
    obtain ⟨w, c, r⟩ := e
    cases c with
    | process block fees lt =>
      cases h
      exact ⟨w, fees, rfl⟩
    | _ => cases h
  · rintro ⟨w, fees, rfl⟩
    rfl

/-- Every call of process that a trace holds was a run of process. -/
theorem exists_exec_of_processed {network : Network} {D : Drift lib} {w w' : World lib}
    {tr : Trace lib} (h : Answers (environment network D) w tr w') {p : Processed lib}
    (hp : p ∈ processedIn tr) :
    ∃ rs fees v v', Exec (Daemon.environment D)
      (Process.process lib rs network p.block fees p.lastTemplates) v p.run.calls p.run.result
      v' := by
  obtain ⟨e, he, hpe⟩ := List.mem_filterMap.mp hp
  obtain ⟨v, fees, rfl⟩ := processed_eq_some_iff.mp hpe
  obtain ⟨v', rs, hx⟩ := h.answered he
  exact ⟨rs, fees, v, v', hx⟩

theorem finishes_of_processed {network : Network} {D : Drift lib} {w w' : World lib}
    {tr : Trace lib} (h : Answers (environment network D) w tr w') (p : Processed lib)
    (hp : p ∈ processedIn tr) : Finishes lib p.block p.run.calls p.run.result := by
  obtain ⟨rs, fees, v, v', hx⟩ := exists_exec_of_processed h hp
  exact process_finishes hx

theorem mem_pushTemplate {lt : List GetBlockTemplateResult} {t u : GetBlockTemplateResult}
    (h : u ∈ pushTemplate lt t) : u ∈ lt ∨ u = t := by
  unfold pushTemplate at h
  dsimp only at h
  have hu : u ∈ lt ++ [t] := by
    split_ifs at h
    · exact List.mem_of_mem_tail h
    · exact h
  simpa using hu

theorem getLast_pushTemplate (lt : List GetBlockTemplateResult) (t : GetBlockTemplateResult) :
    (pushTemplate lt t).getLast? = some t := by
  unfold pushTemplate
  dsimp only
  split_ifs with hl
  · cases lt with
    | nil => exact absurd hl (by simp [MAX_OLD_TEMPLATES])
    | cons u lt => exact List.getLast?_concat
  · exact List.getLast?_concat

theorem afterProcess_eq {lt l : List GetBlockTemplateResult} {r : Except Abort Unit}
    (h : afterProcess lt r = some l) :
    (r = .ok () ∧ l = []) ∨ (r = .error .returned ∧ l = lt) := by
  cases r with
  | ok u =>
    cases h
    exact .inl ⟨rfl, rfl⟩
  | error e =>
    cases e with
    | returned =>
      cases h
      exact .inr ⟨rfl, rfl⟩
    | panicked p => cases h

/-- The template that an iteration polled. -/
def polled (tr : Trace lib) : Option GetBlockTemplateResult :=
  match tr with
  | ⟨_, .getBlockTemplate, .ok t⟩ :: _ => some t
  | _ => none

/-- A template in memory was there before, or has just been polled. -/
theorem Outcome.mem {lt lt' : List GetBlockTemplateResult} {tr : Trace lib}
    (h : Outcome lt tr (some lt')) {u : GetBlockTemplateResult} (hu : u ∈ lt') :
    u ∈ lt ∨ polled tr = some u := by
  generalize hout : some lt' = out at h
  cases h with
  | skipped _ _ =>
    cases hout
    exact .inl hu
  | first _ =>
    cases hout
    exact .inr (by rw [List.mem_singleton.mp hu]; rfl)
  | same _ _ =>
    cases hout
    obtain hu | rfl := mem_pushTemplate hu
    · exact .inl hu
    · exact .inr rfl
  | missed _ _ _ =>
    obtain ⟨l, hl, hm⟩ := Option.map_eq_some_iff.mp hout.symm
    rw [← hm] at hu
    obtain hu | hu := List.mem_append.mp hu
    · obtain ⟨-, rfl⟩ | ⟨-, rfl⟩ := afterProcess_eq hl
      · exact absurd hu List.not_mem_nil
      · exact .inl hu
    · exact .inr (by rw [List.mem_singleton.mp hu]; rfl)
  | normal _ _ _ =>
    obtain ⟨-, rfl⟩ | ⟨-, rfl⟩ := afterProcess_eq hout.symm
    · exact absurd hu List.not_mem_nil
    · exact .inl hu

/-- The newest template was the newest one before, or has just been polled. -/
theorem Outcome.newest {lt lt' : List GetBlockTemplateResult} {tr : Trace lib}
    (h : Outcome lt tr (some lt')) {u : GetBlockTemplateResult} (hu : lt'.getLast? = some u) :
    lt.getLast? = some u ∨ polled tr = some u := by
  generalize hout : some lt' = out at h
  cases h with
  | skipped _ _ =>
    cases hout
    exact .inl hu
  | first _ =>
    cases hout
    cases hu
    exact .inr rfl
  | same _ _ =>
    cases hout
    rw [getLast_pushTemplate] at hu
    cases hu
    exact .inr rfl
  | missed _ _ _ =>
    obtain ⟨l, -, hm⟩ := Option.map_eq_some_iff.mp hout.symm
    rw [← hm, List.getLast?_concat] at hu
    cases hu
    exact .inr rfl
  | normal _ _ _ =>
    obtain ⟨-, rfl⟩ | ⟨-, rfl⟩ := afterProcess_eq hout.symm
    · cases hu
    · exact .inl hu

/-- The iteration asked for a block by its height, as only the missed-block branch does. -/
def AsksByHeight (tr : Trace lib) : Prop := ∃ e ∈ tr, ∃ height, e.call = Call.getBlockHash height

theorem asksByHeight_missed {w₁ w₂ w₃ : World lib} {t : GetBlockTemplateResult}
    {b : Bitcoin.Block} {height : Nat} {hash : BlockHash} {tr : Trace lib} :
    AsksByHeight (⟨w₁, Call.getBlockTemplate, Except.ok t⟩ ::
      ⟨w₂, Call.getBlock t.previousBlockHash, Except.ok b⟩ ::
        ⟨w₃, Call.getBlockHash height, Except.ok hash⟩ :: tr) :=
  ⟨_, List.mem_cons_of_mem _ (List.mem_cons_of_mem _ List.mem_cons_self), height, rfl⟩

theorem not_asksByHeight_normal {w₁ w₂ w₃ w₄ : World lib} {t : GetBlockTemplateResult}
    {b : Bitcoin.Block} {fees : GetBlockTxFeesResult} {lt : List GetBlockTemplateResult}
    {r : ProcessRun lib} :
    ¬ AsksByHeight [⟨w₁, Call.getBlockTemplate, Except.ok t⟩,
      ⟨w₂, Call.getBlock t.previousBlockHash, Except.ok b⟩,
      ⟨w₃, Call.getBlockTxidFee t.previousBlockHash, Except.ok fees⟩,
      ⟨w₄, Call.process b fees lt, r⟩] := by
  rintro ⟨e, he, height, hc⟩
  simp only [List.mem_cons, List.not_mem_nil, or_false] at he
  obtain rfl | rfl | rfl | rfl := he <;> cases hc

/-- An iteration processes one block at most. It keeps the current template when it asked for that
block by its height, and then only. -/
theorem Outcome.cases_of_processed {lt : List GetBlockTemplateResult} {tr : Trace lib}
    {out : Templates} (h : Outcome lt tr out) {q : Processed lib} (hq : q ∈ processedIn tr) :
    processedIn tr = [q] ∧ q.lastTemplates = lt ∧ ∃ t p, polled tr = some t ∧
      lt.getLast? = some p ∧ p.previousBlockHash ≠ t.previousBlockHash ∧
        ((AsksByHeight tr ∧ out = (afterProcess lt q.run.result).map (· ++ [t])) ∨
          (¬ AsksByHeight tr ∧ out = afterProcess lt q.run.result)) := by
  cases h with
  | skipped hn _ =>
    rw [hn] at hq
    exact absurd hq List.not_mem_nil
  | first _ => exact absurd hq List.not_mem_nil
  | same _ _ => exact absurd hq List.not_mem_nil
  | missed hp hne _ =>
    obtain rfl := List.mem_singleton.mp hq
    exact ⟨rfl, rfl, _, _, rfl, hp, hne, .inl ⟨asksByHeight_missed, rfl⟩⟩
  | normal hp hne _ =>
    obtain rfl := List.mem_singleton.mp hq
    exact ⟨rfl, rfl, _, _, rfl, hp, hne, .inr ⟨not_asksByHeight_normal, rfl⟩⟩

/-- Its templates are those that the call leaves, with or without the current one. -/
theorem Outcome.of_processed {lt : List GetBlockTemplateResult} {tr : Trace lib} {out : Templates}
    (h : Outcome lt tr out) {q : Processed lib} (hq : q ∈ processedIn tr) :
    processedIn tr = [q] ∧ ∃ f, out = (afterProcess lt q.run.result).map f := by
  obtain ⟨hone, -, t, p, -, -, -, ⟨-, hout⟩ | ⟨-, hout⟩⟩ := h.cases_of_processed hq
  · exact ⟨hone, _, hout⟩
  · exact ⟨hone, id, hout.trans Option.map_id_apply.symm⟩

end MiningpoolObserver.MainLoop
