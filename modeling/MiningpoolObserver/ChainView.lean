import MiningpoolObserver.MainLoop

namespace MiningpoolObserver.ChainView

open MiningpoolObserver.Library.CallTree MiningpoolObserver.Library.LinkedChain
open MiningpoolObserver.Library.HashCollections
open MiningpoolObserver.Library.Runs MiningpoolObserver.Bitcoin MiningpoolObserver.Daemon
open MiningpoolObserver.Process MiningpoolObserver.ProcessSpec MiningpoolObserver.MainLoop

variable {lib : Crates} {network : Network} {D : Drift lib} {R : Node lib → Node lib → Prop}

/-- A preorder that the node follows whenever the shared state drifts. -/
structure Follows (D : Drift lib) (R : Node lib → Node lib → Prop) : Prop where
  refl : ∀ n, R n n
  trans : ∀ l m n, R l m → R m n → R l n
  drift : ∀ w w', D.rel w w' → R w.node w'.node
  reorganises : ∀ m n, R m n → m.Reorganises n

theorem follows_reorganises : Follows Drift.sharedReorganises (@Node.Reorganises lib) where
  refl _ := ⟨fun _ h => h, rfl⟩
  trans _ _ _ h h' := ⟨fun _ hb => h'.1 (h.1 hb), h.2.trans h'.2⟩
  drift _ _ h := h
  reorganises _ _ h := h

theorem follows_grows : Follows Drift.sharedGrows (@Node.Grows lib) where
  refl _ := ⟨fun _ h => h, List.prefix_refl _⟩
  trans _ _ _ h h' := ⟨fun _ hb => h'.1 (h.1 hb), h.2.trans h'.2⟩
  drift _ _ h := h
  reorganises _ _ h := h.reorganises

theorem follows_noRescan : Follows Drift.noRescan (@Node.Grows lib) where
  refl := follows_grows.refl
  trans := follows_grows.trans
  drift _ _ h := h.1
  reorganises := follows_grows.reorganises

theorem follows_none : Follows Drift.none (fun m n : Node lib => m = n) where
  refl _ := rfl
  trans _ _ _ := Eq.trans
  drift _ _ h := congrArg World.node h
  reorganises _ _ h := h ▸ ⟨fun _ hb => hb, rfl⟩

theorem rpc_world_eq {w w' : World lib} {c : MainLoop.Call} {r : MainLoop.Reply lib c}
    (hc : ∀ block fees lt, c ≠ .process block fees lt) (h : MainLoop.answer network D w c r w') :
    w' = w := by
  cases c with
  | process block fees lt => exact absurd rfl (hc block fees lt)
  | getBlockTemplate => cases r with
    | ok t => exact h.1
    | error e => exact h
  | getBlock hash => cases r with
    | ok t => exact h.1
    | error e => exact h
  | getBlockHash height => cases r with
    | ok t => exact h.1
    | error e => exact h
  | getBlockTxidFee hash => cases r with
    | ok t => exact h.1
    | error e => exact h

/-- A call of process only lets the node drift. -/
theorem Follows.process (hR : Follows D R) {w w' : World lib} {rs : RandomState}
    {block : Bitcoin.Block} {fees : GetBlockTxFeesResult} {lt : List GetBlockTemplateResult}
    {calls : Calls lib} {r : Except Abort Unit}
    (h : Exec (Daemon.environment D) (process lib rs network block fees lt) w calls r w') :
    R w.node w'.node := by
  refine h.answers.relates (R := fun w w' => R w.node w'.node) (fun _ _ _ => hR.trans _ _ _)
    hR.drift (fun v c r v' hv => ?_)
  rw [node_of_answer hv]
  exact hR.refl _

theorem Follows.answer (hR : Follows D R) {w w' : World lib} {c : MainLoop.Call}
    {r : MainLoop.Reply lib c} (h : MainLoop.answer network D w c r w') : R w.node w'.node := by
  by_cases hc : ∀ block fees lt, c ≠ .process block fees lt
  · rw [rpc_world_eq hc h]
    exact hR.refl _
  · simp only [not_forall, not_not] at hc
    obtain ⟨block, fees, lt, rfl⟩ := hc
    obtain ⟨rs, hx⟩ := h
    exact hR.process hx

theorem Follows.answers (hR : Follows D R) {w w' : World lib} {tr : Trace lib}
    (h : Answers (MainLoop.environment network D) w tr w') : R w.node w'.node :=
  h.relates (R := fun w w' => R w.node w'.node) (fun _ _ _ => hR.trans _ _ _) hR.drift
    (fun _ _ _ _ => hR.answer)

theorem Follows.step (hR : Follows D R) {s s' : State lib} {tr : Trace lib}
    (h : Step network D s tr s') : R s.world.node s'.world.node := by
  obtain ⟨lt, -, hx⟩ := h
  exact hR.answers hx.answers

theorem rpc_answers {w w' : World lib} {e : Event (MainLoop.signature lib) (World lib)}
    {tr : Trace lib} (hc : ∀ block fees lt, e.call ≠ .process block fees lt)
    (h : Answers (MainLoop.environment network D) w (e :: tr) w') :
    D.rel w e.pre ∧ MainLoop.answer network D e.pre e.call e.reply e.pre ∧
      Answers (MainLoop.environment network D) e.pre tr w' := by
  obtain ⟨v, hd, ha, ht⟩ := Answers.cons_iff.mp h
  obtain rfl : v = e.pre := rpc_world_eq hc ha
  exact ⟨hd, ha, ht⟩

theorem height_pos {m : Node lib} {t : GetBlockTemplateResult} (h : IsTemplate m t) :
    0 < t.height := by
  rw [h.1]
  exact m.chain.length_pos

/-- Two templates on one block have one height, whatever the chain did in between. -/
theorem height_eq_of_parent_eq {m n : Node lib} {t u : GetBlockTemplateResult}
    (hmn : m.Reorganises n) (ht : IsTemplate m t) (hu : IsTemplate n u)
    (hp : t.previousBlockHash = u.previousBlockHash) : t.height = u.height := by
  have ht0 := height_pos ht
  have hu0 := height_pos hu
  obtain ⟨-, a, ha, hta⟩ := ht
  obtain ⟨-, b, hb, hub⟩ := hu
  have hab : a = b := Chain.eq_of_hash_eq hmn.1 ha hb (by rw [← hta, ← hub, hp])
  have hh := Chain.height_unique hmn.1 hmn.2 ha (hab ▸ hb)
  omega

/-- The block at a template's height is built on the template's parent exactly when that parent
is still in the active chain. -/
theorem parent_eq_iff {m n : Node lib} {p : GetBlockTemplateResult} {b : Bitcoin.Block}
    (hmn : m.Reorganises n) (hp : IsTemplate m p) (hb : n.chain.at? p.height = some b) :
    b.header.prevBlockhash = p.previousBlockHash ↔
      ∃ c ∈ n.chain.blocks, hashOf lib c = p.previousBlockHash := by
  have hp0 := height_pos hp
  have hs : p.height - 1 + 1 = p.height := by omega
  obtain ⟨-, a, ha, hpa⟩ := hp
  constructor
  · intro h
    obtain ⟨c, hc⟩ := Chain.exists_at (Nat.lt_of_le_of_lt (Nat.sub_le _ 1)
      (Chain.lt_length_of_at hb))
    exact ⟨c, List.mem_of_getElem? hc, (Node.prevBlockhash_eq hc (hs ▸ hb)).symm.trans h⟩
  · rintro ⟨c, hc, hcp⟩
    obtain ⟨i, hi⟩ := Chain.exists_at_of_mem hc
    have hac : a = c := Chain.eq_of_hash_eq hmn.1 ha hi (by rw [← hpa, hcp])
    have hh : p.height - 1 = i := Chain.height_unique hmn.1 hmn.2 ha (hac ▸ hi)
    rw [← hh] at hi
    rw [← hcp]
    exact Node.prevBlockhash_eq hi (hs ▸ hb)

section Iterations

variable {w w' w₁ w₂ w₃ w₄ w₅ w₆ : World lib} {t p : GetBlockTemplateResult}
variable {b b' : Bitcoin.Block} {hash : BlockHash} {fees : GetBlockTxFeesResult}
variable {r : ProcessRun lib} {lt : List GetBlockTemplateResult}

theorem poll_facts (hR : Follows D R) {tr : Trace lib}
    (h : Answers (MainLoop.environment network D) w
      (⟨w₁, Call.getBlockTemplate, Except.ok t⟩ :: tr) w') :
    R w.node w₁.node ∧ IsTemplate w₁.node t ∧ R w₁.node w'.node := by
  obtain ⟨hd, ha, ht⟩ := rpc_answers (fun _ _ _ hc => by cases hc) h
  exact ⟨hR.drift _ _ hd, ha.2, hR.answers ht⟩

/-- The missed-block branch processes the block that is at the height of the newest template
when it asks for that height. -/
theorem missed_facts (hR : Follows D R)
    (h : Answers (MainLoop.environment network D) w
      [⟨w₁, Call.getBlockTemplate, Except.ok t⟩,
        ⟨w₂, Call.getBlock t.previousBlockHash, Except.ok b⟩,
        ⟨w₃, Call.getBlockHash p.height, Except.ok hash⟩,
        ⟨w₄, Call.getBlock hash, Except.ok b'⟩,
        ⟨w₅, Call.getBlockTxidFee hash, Except.ok fees⟩,
        ⟨w₆, Call.process b' fees lt, r⟩] w') :
    R w.node w₃.node ∧ w₃.node.chain.at? p.height = some b' ∧ R w₃.node w'.node := by
  obtain ⟨h₁, -, ht₁⟩ := rpc_answers (fun _ _ _ hc => by cases hc) h
  obtain ⟨h₂, -, ht₂⟩ := rpc_answers (fun _ _ _ hc => by cases hc) ht₁
  obtain ⟨h₃, ha₃, ht₃⟩ := rpc_answers (fun _ _ _ hc => by cases hc) ht₂
  obtain ⟨h₄, ha₄, ht₄⟩ := rpc_answers (fun _ _ _ hc => by cases hc) ht₃
  obtain ⟨-, c, hc, hch⟩ := ha₃
  obtain ⟨-, hb, hbh⟩ := ha₄
  have hcb : c = b' := by
    have hck := Node.known_of_at hc
    have hk := (hR.reorganises _ _ (hR.drift _ _ h₄)).1 hck
    exact w₄.node.chain.hash_injOn hk hb (hch.trans hbh.symm)
  refine ⟨hR.drift _ _ (D.trans _ _ _ (D.trans _ _ _ h₁ h₂) h₃), hcb ▸ hc, ?_⟩
  exact hR.answers ht₃

/-- The block that the normal branch processes has the hash that the current template names. -/
theorem normal_facts (hR : Follows D R) {tr : Trace lib}
    (h : Answers (MainLoop.environment network D) w
      (⟨w₁, Call.getBlockTemplate, Except.ok t⟩ ::
        ⟨w₂, Call.getBlock t.previousBlockHash, Except.ok b⟩ :: tr) w') :
    w₁.node.chain.at? (t.height - 1) = some b := by
  obtain ⟨h₁, ha₁, ht₁⟩ := rpc_answers (fun _ _ _ hc => by cases hc) h
  obtain ⟨h₂, ha₂, ht₂⟩ := rpc_answers (fun _ _ _ hc => by cases hc) ht₁
  obtain ⟨-, -, a, ha, hta⟩ := ha₁
  obtain ⟨-, hb, hbh⟩ := ha₂
  have hak := Node.known_of_at ha
  have hk := (hR.reorganises _ _ (hR.drift _ _ h₂)).1 hak
  have hab : a = b := w₂.node.chain.hash_injOn hk hb (hta.symm.trans hbh.symm)
  exact hab ▸ ha

end Iterations

/-- Every template in memory was one for the chain at some earlier moment. -/
def Polled (R : Node lib → Node lib → Prop) (s : State lib) : Prop :=
  ∀ lt, s.templates = some lt → ∀ t ∈ lt, ∃ m, R m s.world.node ∧ IsTemplate m t

theorem polled_facts (hR : Follows D R) {w w' : World lib} {tr : Trace lib}
    {t : GetBlockTemplateResult} (ht : polled tr = some t)
    (h : Answers (MainLoop.environment network D) w tr w') :
    ∃ m, R w.node m ∧ IsTemplate m t ∧ R m w'.node := by
  unfold polled at ht
  split at ht
  · cases ht
    exact ⟨_, poll_facts hR h⟩
  · cases ht

theorem polled_initial (s : State lib) (h : Initial s) : Polled R s := by
  intro lt hlt t ht
  rw [h] at hlt
  cases hlt
  exact absurd ht List.not_mem_nil

theorem polled_step (hR : Follows D R) {s s' : State lib} {tr : Trace lib} (hs : Polled R s)
    (h : Step network D s tr s') : Polled R s' := by
  have hn := hR.step h
  obtain ⟨lt, out, hlt, hout, ho, ha⟩ := h.cases
  intro lt' hlt' u hu
  rw [hout] at hlt'
  subst hlt'
  obtain hu | hu := ho.mem hu
  · obtain ⟨m, hm, ht⟩ := hs lt hlt u hu
    exact ⟨m, hR.trans _ _ _ hm hn, ht⟩
  · obtain ⟨m, -, ht, hm⟩ := polled_facts hR hu ha
    exact ⟨m, hm, ht⟩

theorem polled_run (hR : Follows D R) (ρ : LoopRun lib network D) :
    ∀ i ≤ ρ.length, Polled R (ρ.state i) :=
  ρ.invariant polled_initial (fun _ _ _ => polled_step hR)

end MiningpoolObserver.ChainView
