import MiningpoolObserver.Library.CallTree
import MiningpoolObserver.Library.GrowingPages

namespace MiningpoolObserver.Library.PageWalks

open MiningpoolObserver.Library.CallTree MiningpoolObserver.Library.Queries
open MiningpoolObserver.Library.Pages MiningpoolObserver.Library.GrowingPages

variable {S : Signature} {σ δ α β κ ε : Type} [Preorder σ]

/-- Requests for page after page, each begun after the one before was answered, until no further
page is announced. -/
structure Walk (E : Environment S σ) (q : UInt32 → Prog S (Except ε (List α × UInt32))) where
  last : ℕ
  begun : ℕ → σ
  ended : ℕ → σ
  entries : ℕ → List α
  pages : ℕ → UInt32
  inRange : last < UInt32.size
  answered : ∀ n ≤ last, ∃ tr, Exec E (q (UInt32.ofNat n)) (begun n) tr
    (.ok (entries n, pages n)) (ended n)
  forward : ∀ n < last, E.drift (ended n) (begun (n + 1))
  complete : (pages last).toNat ≤ last + 1

/-- An item is on one of the pages. -/
def Walk.Shows {E : Environment S σ} {q : UInt32 → Prog S (Except ε (List α × UInt32))}
    (walk : Walk E q) (item : α → β) (a : β) : Prop :=
  ∃ n ≤ walk.last, ∃ e ∈ walk.entries n, item e = a

omit [Preorder σ] in
/-- A single page that announces no other one. -/
theorem Walk.exists_still {E : Environment S σ} {q : UInt32 → Prog S (Except ε (List α × UInt32))}
    {t : σ} {tr : List (Event S σ)} {entries : List α} {pages : UInt32}
    (hx : Exec E (q 0) t tr (.ok (entries, pages)) t) (hpages : pages.toNat ≤ 1) :
    ∃ walk : Walk E q, walk.begun 0 = t ∧ walk.ended walk.last = t := by
  refine ⟨⟨0, fun _ => t, fun _ => t, fun _ => entries, fun _ => pages, by decide, ?_, ?_, hpages⟩,
    rfl, rfl⟩
  · rintro n hn
    obtain rfl := Nat.le_zero.mp hn
    exact ⟨tr, hx⟩
  · exact fun n hn => absurd hn (Nat.not_lt_zero n)

variable [LinearOrder κ]

/-- A page is cut from the items of one moment, in the order of a key, and the number of pages is
that of the items of a later one. -/
def CutsPage (states : σ → δ) (size : ℕ) (pagesOf : ℕ → UInt32) (items : δ → List β)
    (item : α → β) (key : β → κ) (n : UInt32) (k : σ) (answer : List α × UInt32) (t : σ) : Prop :=
  ∃ i j s, k ≤ i ∧ i ≤ j ∧ j ≤ t ∧ Ordered key (items (states i)) s ∧
    (answer.1.map item).Perm (page size n.toNat s) ∧
    answer.2 = pagesOf (items (states j)).length

variable {E : Environment S σ} {states : σ → δ} {size : ℕ}
variable {pagesOf : ℕ → UInt32} {items : δ → List β} {item : α → β} {key : β → κ}
variable {q : UInt32 → Prog S (Except ε (List α × UInt32))}

theorem CutsPage.later {n : UInt32} {k t u : σ} {answer : List α × UInt32}
    (h : CutsPage states size pagesOf items item key n k answer t) (htu : t ≤ u) :
    CutsPage states size pagesOf items item key n k answer u := by
  obtain ⟨i, j, s, hki, hij, hjt, h⟩ := h
  exact ⟨i, j, s, hki, hij, hjt.trans htu, h⟩

theorem Walk.begun_le (walk : Walk E q) (hE : ∀ i j, E.drift i j → i ≤ j)
    (hq : ∀ n k, Ensures E (q n) k (OnOk (CutsPage states size pagesOf items item key n k)))
    {n : ℕ} (hn : n ≤ walk.last) : walk.begun 0 ≤ walk.begun n := by
  induction n with
  | zero => exact le_rfl
  | succ n ih =>
    obtain ⟨tr, hx⟩ := walk.answered n (by omega)
    obtain ⟨i, j, s, h₁, h₂, h₃, -⟩ := hq _ _ tr _ _ hx
    exact (ih (by omega)).trans ((h₁.trans (h₂.trans h₃)).trans (hE _ _ (walk.forward n hn)))

/-- While items are only added, a walk through the pages shows every item that was there when it
began and whose key no other one has at the end. -/
theorem Walk.shows_of_mem (walk : Walk E q) (hE : ∀ i j, E.drift i j → i ≤ j) (hsize : 0 < size)
    (hq : ∀ n k, Ensures E (q n) k (OnOk (CutsPage states size pagesOf items item key n k)))
    (hgrow : ∀ i j, i ≤ j → items (states i) ⊆ items (states j))
    (hnd : ∀ i, (items (states i)).Nodup)
    (hpages : ∀ i p, (pagesOf (items (states i)).length).toNat ≤ p →
      (items (states i)).length ≤ size * p)
    {a : β} (ha : a ∈ items (states (walk.begun 0)))
    (hne : a ∈ items (states (walk.ended walk.last)) →
      ∀ b ∈ items (states (walk.ended walk.last)), key b = key a → b = a) :
    walk.Shows item a := by
  have hcut : ∀ n, ∃ i j s, n ≤ walk.last → walk.begun n ≤ i ∧ i ≤ j ∧ j ≤ walk.ended n ∧
      Ordered key (items (states i)) s ∧ ((walk.entries n).map item).Perm (page size n s) ∧
      walk.pages n = pagesOf (items (states j)).length := by
    intro n
    by_cases hn : n ≤ walk.last
    · obtain ⟨tr, hx⟩ := walk.answered n hn
      obtain ⟨i, j, s, h⟩ := hq _ _ tr _ _ hx
      rw [UInt32.toNat_ofNat_of_lt' (hn.trans_lt walk.inRange)] at h
      exact ⟨i, j, s, fun _ => h⟩
    · exact ⟨walk.begun n, walk.begun n, [], fun h => absurd h hn⟩
  choose i j s hcut using hcut
  have hnext : ∀ n < walk.last, i n ≤ i (n + 1) := by
    intro n hn
    obtain ⟨-, h₁, h₂, -⟩ := hcut n hn.le
    obtain ⟨h₃, -⟩ := hcut (n + 1) hn
    exact (h₁.trans h₂).trans ((hE _ _ (walk.forward n hn)).trans h₃)
  have hstart : ∀ n ≤ walk.last, walk.begun 0 ≤ i n :=
    fun n hn => (walk.begun_le hE hq hn).trans (hcut n hn).1
  obtain ⟨-, hij, hend, -, -, hlast⟩ := hcut walk.last le_rfl
  have hlen : (items (states (i walk.last))).length ≤ size * (walk.last + 1) := by
    have hle := (List.subperm_of_subset (hnd _) (hgrow _ _ hij)).length_le
    exact hle.trans (hpages _ _ (hlast ▸ walk.complete))
  have hkey := hne (hgrow _ _ ((hstart _ le_rfl).trans (hij.trans hend)) ha)
  obtain ⟨n, hn, hmem⟩ : ∃ n ≤ walk.last, a ∈ page size n (s n) :=
    exists_mem_page hsize (fun n hn => (hcut n hn).2.2.2.1) (fun n _ => hnd _)
      (fun n hn => hgrow _ _ (hnext n hn)) (hgrow _ _ (hstart 0 (Nat.zero_le _)) ha)
      (fun b hb => hkey b (hgrow _ _ (hij.trans hend) hb)) hlen
  obtain ⟨e, he, rfl⟩ := List.mem_map.mp ((hcut n hn).2.2.2.2.1.mem_iff.mpr hmem)
  exact ⟨n, hn, e, he, rfl⟩

end MiningpoolObserver.Library.PageWalks
