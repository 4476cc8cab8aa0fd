import Mathlib.Data.Set.Function
import Mathlib.Data.List.Chain

namespace MiningpoolObserver.Library.LinkedChain

variable {β η : Type} {hash parent : β → η} {known known' : Set β}

/-- A chain of known items, each naming the hash of the one before it. The first item names
nothing that is known. -/
structure Chain (hash parent : β → η) (known : Set β) where
  genesis : β
  rest : List β
  mem_known : ∀ b ∈ genesis :: rest, b ∈ known
  linked : (genesis :: rest).IsChain (fun a b => parent b = hash a)
  hash_injOn : Set.InjOn hash known
  genesis_first : ∀ b ∈ known, hash b ≠ parent genesis

namespace Chain

def blocks (c : Chain hash parent known) : List β := c.genesis :: c.rest

def length (c : Chain hash parent known) : ℕ := c.blocks.length

/-- The item at a height. The first one has height zero. -/
def at? (c : Chain hash parent known) (height : ℕ) : Option β := c.blocks[height]?

theorem length_pos (c : Chain hash parent known) : 0 < c.length := Nat.succ_pos _

theorem known_of_at {c : Chain hash parent known} {i : ℕ} {b : β} (h : c.at? i = some b) :
    b ∈ known :=
  c.mem_known b (List.mem_of_getElem? h)

theorem lt_length_of_at {c : Chain hash parent known} {i : ℕ} {b : β} (h : c.at? i = some b) :
    i < c.length := (List.getElem?_eq_some_iff.mp h).1

theorem exists_at {c : Chain hash parent known} {i : ℕ} (h : i < c.length) :
    ∃ b, c.at? i = some b := ⟨_, List.getElem?_eq_getElem h⟩

theorem exists_at_of_mem {c : Chain hash parent known} {b : β} (h : b ∈ c.blocks) :
    ∃ i, c.at? i = some b := List.mem_iff_getElem?.mp h

/-- The last item. -/
def tip (c : Chain hash parent known) : β := c.rest.getLastD c.genesis

theorem at_tip (c : Chain hash parent known) : c.at? (c.length - 1) = some c.tip := by
  rw [at?, length, ← List.getLast?_eq_getElem?, blocks, List.getLast?_cons,
    tip, List.getLastD_eq_getLast?]

theorem at_zero {c : Chain hash parent known} {b : β} (h : c.at? 0 = some b) : b = c.genesis := by
  simpa [at?, blocks, eq_comm] using h

theorem parent_eq {c : Chain hash parent known} {i : ℕ} {a b : β} (ha : c.at? i = some a)
    (hb : c.at? (i + 1) = some b) : parent b = hash a := by
  obtain ⟨hi, rfl⟩ := List.getElem?_eq_some_iff.mp hb
  obtain ⟨_, rfl⟩ := List.getElem?_eq_some_iff.mp ha
  exact c.linked.getElem i hi

/-- Two chains from one first item hold an item at one height only. -/
theorem height_unique {c : Chain hash parent known} {c' : Chain hash parent known'}
    (hk : known ⊆ known') (hg : c.genesis = c'.genesis) {i j : ℕ} {b : β}
    (hi : c.at? i = some b) (hj : c'.at? j = some b) : i = j := by
  induction i generalizing j b with
  | zero =>
    cases j with
    | zero => rfl
    | succ j =>
      obtain ⟨a, ha⟩ := exists_at (Nat.lt_of_succ_lt (lt_length_of_at hj))
      have hb : b = c'.genesis := hg ▸ at_zero hi
      have hp := parent_eq ha hj
      rw [hb] at hp
      exact absurd hp.symm (c'.genesis_first a (known_of_at ha))
  | succ i ih =>
    obtain ⟨a, ha⟩ := exists_at (Nat.lt_of_succ_lt (lt_length_of_at hi))
    have hp := parent_eq ha hi
    cases j with
    | zero =>
      have hb : b = c.genesis := hg ▸ at_zero hj
      rw [hb] at hp
      exact absurd hp.symm (c.genesis_first a (known_of_at ha))
    | succ j =>
      obtain ⟨a', ha'⟩ := exists_at (Nat.lt_of_succ_lt (lt_length_of_at hj))
      have hp' := parent_eq ha' hj
      have haa : a = a' := c'.hash_injOn (hk (known_of_at ha)) (known_of_at ha') (hp ▸ hp')
      rw [ih ha (haa ▸ ha')]

theorem eq_of_hash_eq {c : Chain hash parent known} {c' : Chain hash parent known'}
    (hk : known ⊆ known') {i j : ℕ} {a b : β} (hi : c.at? i = some a) (hj : c'.at? j = some b)
    (h : hash a = hash b) : a = b :=
  c'.hash_injOn (hk (known_of_at hi)) (known_of_at hj) h

/-- What is at a height of a chain is at that height of every longer one. -/
theorem at_of_grows {c : Chain hash parent known} {c' : Chain hash parent known'}
    (h : c.blocks <+: c'.blocks) {i : ℕ} {b : β} (hi : c.at? i = some b) : c'.at? i = some b := by
  obtain ⟨s, hs⟩ := h
  have hlt := lt_length_of_at hi
  rw [at?, ← hs, List.getElem?_append_left hlt]
  exact hi

/-- The part of a chain below a height is that part of every longer one. -/
theorem take_of_grows {c : Chain hash parent known} {c' : Chain hash parent known'}
    (h : c.blocks <+: c'.blocks) {n : ℕ} (hn : n ≤ c.length) :
    c'.blocks.take n = c.blocks.take n := by
  obtain ⟨s, hs⟩ := h
  rw [← hs, List.take_append_of_le_length hn]

theorem genesis_of_grows {c : Chain hash parent known} {c' : Chain hash parent known'}
    (h : c.blocks <+: c'.blocks) : c.genesis = c'.genesis := by
  have h0 : c.at? 0 = some c.genesis := rfl
  exact at_zero (at_of_grows h h0)

end Chain

end MiningpoolObserver.Library.LinkedChain
