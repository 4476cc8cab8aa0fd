import MiningpoolObserver.Simulation

namespace MiningpoolObserver.Retry

open MiningpoolObserver.Library.CallTree MiningpoolObserver.Library.HashCollections
open MiningpoolObserver.Library.KeyedTable MiningpoolObserver.Bitcoin MiningpoolObserver.Db
open MiningpoolObserver.Daemon MiningpoolObserver.Process MiningpoolObserver.ProcessSpec
open MiningpoolObserver.Simulation

variable {lib : Crates} {network : Network} {block : Bitcoin.Block}
variable {fees : GetBlockTxFeesResult} {lt : List GetBlockTemplateResult}
variable {w w₁ : World lib} {calls : Calls lib}

/-- A connection or a statement that failed. -/
def DatabaseFails : (c : Daemon.Call) → Daemon.Reply c → Prop
  | .poolGet, .error _ => True
  | .sql _, .error _ => True
  | _, _ => False

/-- A call of process while nothing else touches the database. -/
def Calling (network : Network) (block : Bitcoin.Block) (fees : GetBlockTxFeesResult)
    (lt : List GetBlockTemplateResult) (w : World lib) (calls : Calls lib)
    (r : Except Abort Unit) (w' : World lib) : Prop :=
  ∃ rs : RandomState,
    Exec (Daemon.environment Drift.none) (process lib rs network block fees lt) w calls r w'

/-- The databases that a call of process can leave when all database calls succeed. It can leave
several: the block id, the clock and the answers about the mempool are not its own. -/
def outcomes (network : Network) (block : Bitcoin.Block) (fees : GetBlockTxFeesResult)
    (lt : List GetBlockTemplateResult) (w : World lib) : Set Database :=
  {db | ∃ calls w', Calling network block fees lt w calls (.ok ()) w' ∧
    (∀ e ∈ calls, ¬ DatabaseFails e.call e.reply) ∧ w'.db = db}

theorem Calling.finishes {r : Except Abort Unit} (h : Calling network block fees lt w calls r w₁) :
    Finishes lib block calls r := by
  obtain ⟨rs, hx⟩ := h
  exact process_finishes hx

/-- An insertion needs a hash that is not in the table, and puts it there. -/
theorem keys_of_insertBlock {b : SharedModel.NewBlock} {a : Int64} {db db' : Database}
    (h : (Statement.insertBlock b).Succeeds db a db') :
    b.hash ∉ db.block.keys ∧ b.hash ∈ db'.block.keys := by
  obtain ⟨blockId, r₀, hx, -⟩ := h
  simp only [Statement.exec] at hx
  split at hx
  · cases hx
  · split at hx
    · rename_i t ht
      cases hx
      obtain ⟨hk, hrows⟩ := (Table.insertRow_eq_some_iff _).mp ht
      exact ⟨hk, by simp [Table.keys, hrows]⟩
    · cases hx

/-- No statement removes a block row. -/
theorem keys_subset_of_succeeds {s : Statement} {r : s.Result} {db db' : Database}
    (h : s.Succeeds db r db') : db.block.keys ⊆ db'.block.keys := by
  cases blockChange_of_succeeds h with
  | none _ hb =>
    rw [hb]
    exact List.Subset.refl _
  | insert _ hrows => simp [Table.keys, hrows]
  | rename hrows =>
    have hk : db'.block.keys = db.block.keys := by
      simp [Table.keys, hrows, Function.comp_def]
    rw [hk]
    exact List.Subset.refl _

theorem keys_subset_of_answer {w w' : World lib} {c : Daemon.Call} {r : Daemon.Reply c}
    (h : Daemon.answer w c r w') : w.db.block.keys ⊆ w'.db.block.keys := by
  cases dbAnswer_of_answer h with
  | exec hs => exact keys_subset_of_succeeds hs
  | same _ hdb =>
    rw [hdb]
    exact List.Subset.refl _

theorem keys_subset_of_answers {w w' : World lib}
    (h : Answers (Daemon.environment Drift.none) w calls w') :
    w.db.block.keys ⊆ w'.db.block.keys :=
  h.relates (R := fun w w' => w.db.block.keys ⊆ w'.db.block.keys)
    (fun _ _ _ => List.Subset.trans) (fun _ _ hd => hd ▸ List.Subset.refl _)
    (fun _ _ _ _ ha => keys_subset_of_answer ha)

/-- A call of process that stores the block row found none for its block, and left one. -/
theorem Calling.keys_of_blockStored {r : Except Abort Unit}
    (h : Calling network block fees lt w calls r w₁) (hb : BlockStored calls) :
    (hashOf lib block).reversed ∉ w.db.block.keys ∧
      (hashOf lib block).reversed ∈ w₁.db.block.keys := by
  obtain ⟨rs, hx⟩ := h
  obtain ⟨b, hb⟩ := hb
  rw [← (rowFor_of_stored hx hb).hash]
  obtain ⟨v, a, hmem⟩ := hb
  obtain ⟨tr₁, tr₂, rfl⟩ := List.append_of_mem hmem
  obtain ⟨u, h₁, h₂⟩ := Answers.append_iff.mp hx.answers
  obtain ⟨u', hd, ha, h₃⟩ := Answers.cons_iff.mp h₂
  obtain ⟨hn, hk⟩ := keys_of_insertBlock ha.1
  have hv : w.db.block.keys ⊆ v.db.block.keys := by
    have hw := keys_subset_of_answers h₁
    have huv : u = v := hd
    rwa [huv] at hw
  exact ⟨fun hw => hn (hv hw), keys_subset_of_answers h₃ hk⟩

/-- A call that wrote nothing leaves the state as it was. -/
theorem Calling.eq_of_harmless {r : Except Abort Unit}
    (h : Calling network block fees lt w calls r w₁) (hh : Harmless calls) : w₁ = w := by
  obtain ⟨rs, hx⟩ := h
  refine hx.answers.keeps (P := fun u => u = w) (fun s t hs (hd : s = t) => hd ▸ hs) ?_ rfl
  intro e he t hs ha
  rw [← hs]
  obtain ⟨v, c, r⟩ := e
  have hnode : t.node = v.node := node_of_answer ha
  have hdb : t.db = v.db := by
    cases dbAnswer_of_answer ha with
    | exec hs => exact (hh _ _ _ he).succeeds hs
    | same _ hdb => exact hdb
  cases t
  cases v
  simp_all

/-- Once the block row is stored, no later call for the block succeeds. -/
theorem outcomes_eq_empty {r : Except Abort Unit}
    (h : Calling network block fees lt w calls r w₁) (hb : BlockStored calls) :
    outcomes network block fees lt w₁ = ∅ := by
  ext db
  refine iff_of_false ?_ (Set.notMem_empty db)
  rintro ⟨calls', w', hx, -, -⟩
  have hn := (hx.keys_of_blockStored (hx.finishes.stored rfl)).1
  exact hn (h.keys_of_blockStored hb).2

/-- A second call after an aborted one does what the first could have done exactly when the
first was aborted before the block row was stored. -/
theorem outcomes_retry_iff (ha : Calling network block fees lt w calls (.error .returned) w₁)
    (hne : (outcomes network block fees lt w).Nonempty) :
    outcomes network block fees lt w₁ = outcomes network block fees lt w ↔ ¬ BlockStored calls := by
  constructor
  · intro heq hb
    rw [← heq, outcomes_eq_empty ha hb] at hne
    exact Set.not_nonempty_empty hne
  · intro hb
    have hh := ha.finishes.unwritten.resolve_left hb
    rw [ha.eq_of_harmless hh]

instance : (c : Daemon.Call) → (r : Daemon.Reply c) → Decidable (DatabaseFails c r)
  | .poolGet, .error _ => .isTrue trivial
  | .poolGet, .ok _ => .isFalse id
  | .sql _, .error _ => .isTrue trivial
  | .sql _, .ok _ => .isFalse id
  | .getMempoolEntry _, _ => .isFalse id
  | .getRawTransaction _, _ => .isFalse id
  | .getBlock _, _ => .isFalse id
  | .scanTxOutSetBlocking _, _ => .isFalse id
  | .httpGet, _ => .isFalse id
  | .utcNow, _ => .isFalse id
  | .localNow, _ => .isFalse id
  | .elapsed, _ => .isFalse id
  | .lockPools, _ => .isFalse id

def storesBlock : Event Daemon.signature (World lib) → Bool
  | ⟨_, .sql (.insertBlock _), .ok _⟩ => true
  | _ => false

theorem blockStored_iff : BlockStored calls ↔ ∃ e ∈ calls, storesBlock e = true := by
  constructor
  · rintro ⟨b, w, a, hb⟩
    exact ⟨_, hb, rfl⟩
  · rintro ⟨e, he, hs⟩
    unfold storesBlock at hs
    split at hs
    · exact ⟨_, _, _, he⟩
    · cases hs

instance : Decidable (BlockStored calls) := decidable_of_iff' _ blockStored_iff

/-- The first call for `block₁`, with one way for the outside to answer. -/
def firstCall (o : Outside) :
    List (Event Daemon.signature (World sample)) × Except Abort Unit × World sample :=
  (process sample .inserted .bitcoin block₁ (feesOf sample block₁) [templateOf chain₀]).runWith
    (respond o) ⟨.empty, chain₁⟩

/-- What can come of a call for `block₁`. -/
def outcomesOfBlock (w : World sample) : Set Database :=
  outcomes .bitcoin block₁ (feesOf sample block₁) [templateOf chain₀] w

theorem calling_firstCall (o : Outside) {r : Except Abort Unit} (hr : (firstCall o).2.1 = r) :
    Calling .bitcoin block₁ (feesOf sample block₁) [templateOf chain₀] ⟨.empty, chain₁⟩
      (firstCall o).1 r (firstCall o).2.2 := by
  rw [← hr]
  exact ⟨.inserted, exec_respond Drift.none o _ _⟩

theorem outcomesOfBlock_nonempty : (outcomesOfBlock ⟨.empty, chain₁⟩).Nonempty := by
  have hok : (firstCall .healthy).2.1 = .ok () := by decide +kernel
  have hs : ∀ e ∈ (firstCall .healthy).1, ¬ DatabaseFails e.call e.reply := by decide +kernel
  exact ⟨_, _, _, calling_firstCall .healthy hok, hs, rfl⟩

theorem retry_brokenPool : outcomesOfBlock (firstCall brokenPool).2.2 =
    outcomesOfBlock ⟨.empty, chain₁⟩ := by
  have hr : (firstCall brokenPool).2.1 = .error .returned := by decide +kernel
  have hb : ¬ BlockStored (firstCall brokenPool).1 := by decide +kernel
  exact (outcomes_retry_iff (calling_firstCall brokenPool hr) outcomesOfBlock_nonempty).mpr hb

def brokenTransactions : Outside :=
  { Outside.healthy with
    sqlFails := fun s => match s with
      | .insertTransactions _ => true
      | _ => false }

theorem retry_fails : ¬ ∀ calls w₁,
    Calling .bitcoin block₁ (feesOf sample block₁) [templateOf chain₀] ⟨.empty, chain₁⟩ calls
      (.error .returned) w₁ → outcomesOfBlock w₁ = outcomesOfBlock ⟨.empty, chain₁⟩ := by
  intro h
  have hr : (firstCall brokenTransactions).2.1 = .error .returned := by decide +kernel
  have hb : BlockStored (firstCall brokenTransactions).1 := by decide +kernel
  have hcall := calling_firstCall brokenTransactions hr
  have hempty : outcomesOfBlock (firstCall brokenTransactions).2.2 = ∅ :=
    outcomes_eq_empty hcall hb
  have hne := outcomesOfBlock_nonempty
  rw [← h _ _ hcall, hempty] at hne
  exact Set.not_nonempty_empty hne

end MiningpoolObserver.Retry
