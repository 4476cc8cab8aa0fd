import Mathlib.Algebra.BigOperators.Group.List.Basic
import Mathlib.Data.List.Chain
import MiningpoolObserver.Processing.Comparison

namespace MiningpoolObserver.Processing.Packages

open MiningpoolObserver.Library.HashCollections
open MiningpoolObserver.Bitcoin MiningpoolObserver.DaemonModel
open MiningpoolObserver.Processing.Comparison

variable {lib : Crates} {txidsInTxns : HashSet Txid} {txns : List TxInfo}
variable {packages : List TxPackage}

/-- What is in the closed packages and in the open one, in the order in which it came in. -/
def packaged (state : List TxPackage × List TxInfo) : List TxInfo :=
  state.1.flatMap (fun p => p.txns) ++ state.2

/-- Whichever package a transaction goes into, it comes after all the others. -/
theorem packaged_packageStep (state : List TxPackage × List TxInfo) (txInfo : TxInfo) :
    packaged (packageStep lib txidsInTxns state txInfo) = packaged state ++ [txInfo] := by
  unfold packageStep packaged
  split_ifs with hempty hbelongs
  · exact (List.append_assoc ..).symm
  · exact (List.append_assoc ..).symm
  · simp

theorem packaged_foldl (l : List TxInfo) (state : List TxPackage × List TxInfo) :
    packaged (l.foldl (packageStep lib txidsInTxns) state) = packaged state ++ l := by
  induction l generalizing state with
  | nil => exact (List.append_nil _).symm
  | cons txInfo l ih =>
    rw [List.foldl_cons, ih, packaged_packageStep, List.append_assoc, List.singleton_append]

/-- The last package is closed when the loop is over. -/
def closed (state : List TxPackage × List TxInfo) : List TxPackage :=
  if state.2.isEmpty then state.1 else state.1 ++ [⟨state.2⟩]

theorem flatMap_closed (state : List TxPackage × List TxInfo) :
    (closed state).flatMap (fun p => p.txns) = packaged state := by
  unfold closed packaged
  split_ifs with h
  · rw [List.isEmpty_iff.mp h, List.append_nil]
  · rw [List.flatMap_append, List.flatMap_singleton]

theorem flatMap_reverse_perm (ps : List TxPackage) :
    (ps.reverse.flatMap (fun p => p.txns)).Perm (ps.flatMap (fun p => p.txns)) :=
  List.Perm.flatMap_right _ ps.reverse_perm

/-- Each transaction is in one package, and the assertion about their number holds. -/
theorem buildPackages_perm (lib : Crates) (txns : List TxInfo) :
    ∃ packages, buildPackages lib txns = .ok packages ∧
      (packages.flatMap (fun p => p.txns)).Perm txns := by
  let txidsInTxns := HashSet.collect (txns.map (fun ti => lib.computeTxid ti.tx))
  let packages := (closed (txns.reverse.foldl (packageStep lib txidsInTxns) ([], []))).reverse
  have hperm : (packages.flatMap (fun p => p.txns)).Perm txns := by
    apply (flatMap_reverse_perm _).trans
    rw [flatMap_closed, packaged_foldl]
    exact txns.reverse_perm
  have hlen : txns.length = (packages.map (fun p => p.txns.length)).sum := by
    rw [← hperm.length_eq, List.length_flatMap]
  exact ⟨packages, if_pos hlen, hperm⟩

theorem perm_of_buildPackages (h : buildPackages lib txns = .ok packages) :
    (packages.flatMap (fun p => p.txns)).Perm txns := by
  obtain ⟨packages', h', hperm⟩ := buildPackages_perm lib txns
  obtain rfl : packages' = packages := Except.ok.inj (h'.symm.trans h)
  exact hperm

/-- The weights of the packages add up to those of the transactions. -/
theorem sum_weights (h : buildPackages lib txns = .ok packages) :
    (packages.map (fun p => p.weight lib)).sum = (txns.map (fun i => lib.weight i.tx)).sum := by
  rw [← ((perm_of_buildPackages h).map _).sum_nat, List.map_flatMap, List.flatMap_def,
    List.sum_flatten, List.map_map]
  rfl

theorem sum_ofNat (l : List Nat) : (l.map Int64.ofNat).sum = Int64.ofNat l.sum := by
  induction l with
  | nil => rfl
  | cons n l ih => rw [List.map_cons, List.sum_cons, ih, List.sum_cons, Int64.ofNat_add]

/-! Packages are segments of the list, turned around. -/

/-- One transaction is a parent of another one, or both have a parent in the list. -/
def Linked (lib : Crates) (txns : List TxInfo) (a b : TxInfo) : Prop :=
  lib.computeTxid a.tx ∈ b.prevOutputTxids ∨
    ∃ t ∈ txns, lib.computeTxid t.tx ∈ a.prevOutputTxids ∧ lib.computeTxid t.tx ∈ b.prevOutputTxids

theorem mem_parentTxids {txid : Txid} :
    txid ∈ parentTxids txns ↔ ∃ b ∈ txns, txid ∈ b.prevOutputTxids := by
  refine (HashSet.mem_foldl (A := fun (b : TxInfo) a => a ∈ b.prevOutputTxids)
    (fun s b a => HashSet.mem_extend)).trans ?_
  simp only [HashSet.not_mem_empty, false_or]

theorem belongsToPackage_iff {packageTxns : List TxInfo} {txInfo : TxInfo} :
    belongsToPackage lib (HashSet.collect (txns.map (fun ti => lib.computeTxid ti.tx))) packageTxns
      txInfo = true ↔ ∃ b ∈ packageTxns, Linked lib txns txInfo b := by
  unfold belongsToPackage
  rw [Bool.or_eq_true, decide_eq_true_iff, mem_parentTxids]
  simp only [List.any_eq_true, List.mem_filter, decide_eq_true_iff, HashSet.mem_collect,
    List.mem_map, mem_parentTxids]
  constructor
  · rintro (⟨b, hb, hp⟩ | ⟨txid, ⟨ha, t, ht, rfl⟩, b, hb, hp⟩)
    · exact ⟨b, hb, .inl hp⟩
    · exact ⟨b, hb, .inr ⟨t, ht, ha, hp⟩⟩
  · rintro ⟨b, hb, hp | ⟨t, ht, ha, hp⟩⟩
    · exact .inl ⟨b, hb, hp⟩
    · exact .inr ⟨_, ⟨ha, t, ht, rfl⟩, b, hb, hp⟩

/-- Each transaction but the first is linked to one before it. -/
def Follows (lib : Crates) (txns packageTxns : List TxInfo) : Prop :=
  ∀ before a after, packageTxns = before ++ a :: after → before ≠ [] →
    ∃ b ∈ before, Linked lib txns a b

/-- The first transaction of the next package is not linked to this one. -/
def Breaks (lib : Crates) (txns packageTxns nextTxns : List TxInfo) : Prop :=
  ∀ a ∈ nextTxns.head?, ∀ b ∈ packageTxns, ¬ Linked lib txns a b

theorem follows_singleton (a : TxInfo) : Follows lib txns [a] := by
  intro before a' after h hne
  cases before with
  | nil => exact absurd rfl hne
  | cons b before => simp at h

theorem Follows.snoc {packageTxns : List TxInfo} (h : Follows lib txns packageTxns) {a : TxInfo}
    (ha : ∃ b ∈ packageTxns, Linked lib txns a b) : Follows lib txns (packageTxns ++ [a]) := by
  intro before a' after he hne
  obtain ⟨l, hl, hr⟩ | ⟨l, hl, hr⟩ := List.append_eq_append_iff.mp he
  · cases l with
    | nil =>
      cases hr
      rw [hl, List.append_nil]
      exact ha
    | cons x l => simp at hr
  · cases l with
    | nil =>
      cases hr
      rw [List.append_nil] at hl
      exact hl ▸ ha
    | cons x l =>
      cases hr
      exact h before a' _ hl hne

/-- What the closed packages and the open one are like after any number of rounds. -/
structure Cut (lib : Crates) (txns : List TxInfo) (state : List TxPackage × List TxInfo) :
    Prop where
  started : state.2 = [] → state.1 = []
  nonempty : ∀ p ∈ state.1, p.txns ≠ []
  follows : ∀ p ∈ state.1, Follows lib txns p.txns
  followsOpen : Follows lib txns state.2
  breaks : (state.1.map (fun p => p.txns) ++ [state.2]).IsChain (Breaks lib txns)

theorem cut_empty : Cut lib txns ([], []) where
  started _ := rfl
  nonempty _ hp := nomatch hp
  follows _ hp := nomatch hp
  followsOpen before a after h := by simp at h
  breaks := .singleton _

theorem Cut.step {state : List TxPackage × List TxInfo} (h : Cut lib txns state) (txInfo : TxInfo) :
    Cut lib txns (packageStep lib (HashSet.collect (txns.map (fun ti => lib.computeTxid ti.tx)))
      state txInfo) := by
  obtain ⟨packages, packageTxns⟩ := state
  unfold packageStep
  split_ifs with hempty hbelongs
  · have hnil := List.isEmpty_iff.mp hempty
    dsimp only at hnil ⊢
    subst hnil
    obtain rfl : packages = [] := h.started rfl
    exact ⟨fun hn => absurd hn (by simp), nofun, nofun, follows_singleton txInfo, .singleton _⟩
  · refine ⟨fun hn => absurd hn (by simp), h.nonempty, h.follows,
      h.followsOpen.snoc (belongsToPackage_iff.mp hbelongs), ?_⟩
    obtain ⟨hclosed, -, hlast⟩ := List.isChain_append.mp h.breaks
    refine List.isChain_append.mpr ⟨hclosed, .singleton _, fun p hp q hq a ha => ?_⟩
    cases hq
    apply hlast p hp packageTxns rfl a
    rw [List.head?_append_of_ne_nil _ (fun hn => hempty (List.isEmpty_iff.mpr hn))] at ha
    exact ha
  · have hne : packageTxns ≠ [] := fun hn => hempty (List.isEmpty_iff.mpr hn)
    have hbreak : Breaks lib txns packageTxns [txInfo] := by
      intro a ha b hb hl
      cases ha
      exact hbelongs (belongsToPackage_iff.mpr ⟨b, hb, hl⟩)
    refine ⟨fun hn => absurd hn (by simp), fun p hp => ?_, fun p hp => ?_,
      follows_singleton txInfo, ?_⟩
    · obtain hp | hp := List.mem_append.mp hp
      · exact h.nonempty p hp
      · exact List.mem_singleton.mp hp ▸ hne
    · obtain hp | hp := List.mem_append.mp hp
      · exact h.follows p hp
      · exact List.mem_singleton.mp hp ▸ h.followsOpen
    · rw [List.map_append, List.map_singleton]
      refine List.isChain_append.mpr ⟨h.breaks, .singleton _, fun p hp q hq => ?_⟩
      rw [List.getLast?_concat] at hp
      cases hp
      cases hq
      exact hbreak

theorem cut_foldl {l : List TxInfo} {state : List TxPackage × List TxInfo}
    (h : Cut lib txns state) : Cut lib txns (l.foldl (packageStep lib
      (HashSet.collect (txns.map (fun ti => lib.computeTxid ti.tx)))) state) := by
  induction l generalizing state with
  | nil => exact h
  | cons txInfo l ih => exact ih (h.step txInfo)

/-- The list is the segments one after the other. In a segment each transaction but the last is
linked to a later one, and the one before a segment is linked to none of it. -/
structure CutInto (lib : Crates) (txns : List TxInfo) (segments : List (List TxInfo)) : Prop where
  flatten : segments.flatten = txns
  nonempty : ∀ segment ∈ segments, segment ≠ []
  linked : ∀ segment ∈ segments, ∀ before a after, segment = before ++ a :: after → after ≠ [] →
    ∃ b ∈ after, Linked lib txns a b
  maximal : segments.IsChain (fun segment next =>
    ∀ a ∈ segment.getLast?, ∀ b ∈ next, ¬ Linked lib txns a b)

/-- The packages are in the order of the list, and the transactions of each the other way round. -/
def segmentsOf (packages : List TxPackage) : List (List TxInfo) :=
  packages.map (fun p => p.txns.reverse)

theorem cutInto_closed {state : List TxPackage × List TxInfo} (h : Cut lib txns state)
    (hp : packaged state = txns.reverse) :
    CutInto lib txns (segmentsOf (closed state).reverse) := by
  have hall : ∀ p ∈ closed state, p.txns ≠ [] ∧ Follows lib txns p.txns := by
    intro p hp
    unfold closed at hp
    split_ifs at hp with hempty
    · exact ⟨h.nonempty p hp, h.follows p hp⟩
    · obtain hp | hp := List.mem_append.mp hp
      · exact ⟨h.nonempty p hp, h.follows p hp⟩
      · obtain rfl := List.mem_singleton.mp hp
        exact ⟨fun hn => hempty (List.isEmpty_iff.mpr hn), h.followsOpen⟩
  have hmem : ∀ segment ∈ segmentsOf (closed state).reverse,
      ∃ p ∈ closed state, segment = p.txns.reverse := by
    intro segment hs
    obtain ⟨p, hp, rfl⟩ := List.mem_map.mp hs
    exact ⟨p, List.mem_reverse.mp hp, rfl⟩
  have hsegments : segmentsOf (closed state).reverse =
      (((closed state).map (fun p => p.txns)).map List.reverse).reverse := by
    rw [segmentsOf, List.map_reverse, List.map_map]
    rfl
  refine ⟨?_, fun segment hs => ?_, fun segment hs before a after he hne => ?_, ?_⟩
  · rw [hsegments, ← List.reverse_flatten, ← List.flatMap_def, flatMap_closed, hp,
      List.reverse_reverse]
  · obtain ⟨p, hp, rfl⟩ := hmem segment hs
    exact List.reverse_ne_nil_iff.mpr (hall p hp).1
  · obtain ⟨p, hp, rfl⟩ := hmem segment hs
    have hr : p.txns = after.reverse ++ a :: before.reverse := by
      rw [← List.reverse_reverse p.txns, he]
      simp
    obtain ⟨b, hb, hl⟩ := (hall p hp).2 _ _ _ hr (List.reverse_ne_nil_iff.mpr hne)
    exact ⟨b, List.mem_reverse.mp hb, hl⟩
  · have hchain : ((closed state).map (fun p => p.txns)).IsChain (Breaks lib txns) := by
      unfold closed
      split_ifs
      · exact h.breaks.left_of_append
      · rw [List.map_append]
        exact h.breaks
    rw [hsegments, List.isChain_reverse, List.isChain_map]
    refine hchain.imp (fun p q hb a ha b hbq => ?_)
    rw [List.getLast?_reverse] at ha
    exact hb a ha b (List.mem_reverse.mp hbq)

/-- The packages of any list are segments of it, as long as links allow to the left, and their
weights add up to that of the list. -/
theorem buildPackages_cutInto (lib : Crates) (txns : List TxInfo) :
    ∃ packages, buildPackages lib txns = .ok packages ∧ CutInto lib txns (segmentsOf packages) ∧
      (packages.map (fun p => p.weight lib)).sum = (txns.map (fun i => lib.weight i.tx)).sum := by
  obtain ⟨packages, h, -⟩ := buildPackages_perm lib txns
  refine ⟨packages, h, ?_, sum_weights h⟩
  let state := txns.reverse.foldl (packageStep lib
    (HashSet.collect (txns.map (fun ti => lib.computeTxid ti.tx)))) ([], [])
  have hpackages : (if txns.length = ((closed state).reverse.map (fun p => p.txns.length)).sum
      then .ok (closed state).reverse else .error Panic.packageLengths) = Except.ok packages := h
  split_ifs at hpackages
  cases hpackages
  exact cutInto_closed (cut_foldl cut_empty) (packaged_foldl txns.reverse ([], []))

end MiningpoolObserver.Processing.Packages
