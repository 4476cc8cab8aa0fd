import MiningpoolObserver.NoLostTemplate
import MiningpoolObserver.SanctionedSpends
import MiningpoolObserver.UtxoScan

namespace MiningpoolObserver.TableGaps

open MiningpoolObserver.Library.CallTree MiningpoolObserver.Library.LinkedChain
open MiningpoolObserver.Library.HashCollections MiningpoolObserver.Library.KeyedTable.Table
open MiningpoolObserver.Library.Runs
open MiningpoolObserver.Bitcoin MiningpoolObserver.SharedModel MiningpoolObserver.Db
open MiningpoolObserver.Daemon MiningpoolObserver.Process MiningpoolObserver.ProcessSpec
open MiningpoolObserver.MainLoop MiningpoolObserver.ChainView MiningpoolObserver.Simulation
open MiningpoolObserver.Processing.Sanctions MiningpoolObserver.SanctionedOutputs
open MiningpoolObserver.SanctionedSpends MiningpoolObserver.BlockProgress
open MiningpoolObserver.NoLostTemplate
open MiningpoolObserver.UtxoScan

variable {lib : Crates} {network : Network} {w w' w'' : World lib} {o : OutPoint}

/-- The address list stays, and no row of the table of sanctioned UTXOs is taken away. -/
structure RowsStay (w w' : World lib) : Prop where
  addresses : w'.db.sanctionedAddresses = w.db.sanctionedAddresses
  rows : w.db.sanctionedUtxo.rows ⊆ w'.db.sanctionedUtxo.rows

namespace RowsStay

theorem refl (w : World lib) : RowsStay w w := ⟨rfl, List.Subset.refl _⟩

theorem trans (h : RowsStay w w') (h' : RowsStay w' w'') : RowsStay w w'' where
  addresses := h'.addresses.trans h.addresses
  rows := List.Subset.trans h.rows h'.rows

theorem of_drift (h : Drift.noRescan.rel w w') : RowsStay w w' where
  addresses := h.2.1
  rows := by
    rw [h.2.2]
    exact List.Subset.refl _

theorem listed_eq (h : RowsStay w w') : listed w'.db = listed w.db := by
  unfold listed
  rw [h.addresses]

theorem hasRow (h : RowsStay w w') (ho : HasRow w.db o) : HasRow w'.db o := by
  obtain ⟨row, hrow, hro⟩ := ho
  exact ⟨row, h.rows hrow, hro⟩

end RowsStay

section Process

variable {rs : RandomState} {block : Bitcoin.Block} {fees : GetBlockTxFeesResult}
variable {lt : List GetBlockTemplateResult} {calls tr : Calls lib} {r : Except Abort Unit}

theorem rowsStay_of_issued {e : Event Daemon.signature (World lib)}
    (hi : ProcessSpec.Issues lib block tr e.call) (ha : Daemon.answer e.pre e.call e.reply w) :
    RowsStay e.pre w := by
  obtain ⟨v, c, r⟩ := e
  cases dbAnswer_of_answer ha with
  | same _ hdb => exact ⟨by rw [hdb], by rw [hdb]; exact List.Subset.refl _⟩
  | exec hs =>
    have hk := utxosKept_of_succeeds hs
    refine ⟨hk.addresses (fun addr hst => ?_), hk.utxos (fun utxos hst => ?_)⟩
    · subst hst
      exact hi
    · subst hst
      exact hi

variable (h : Exec (Daemon.environment Drift.noRescan)
  (process lib rs network block fees lt) w calls r w')
include h

theorem issued_of_exec {e : Event Daemon.signature (World lib)} (he : e ∈ calls) :
    ∃ tr ⊆ calls, ProcessSpec.Issues lib block tr e.call := by
  obtain ⟨tr₁, tr₂, rfl⟩ := List.append_of_mem he
  have hp : Prog.Always (ProcessSpec.Issues lib block) (Finishes lib block) []
      (process lib rs network block fees lt) := process_always block fees lt
  exact ⟨tr₁, List.subset_append_left _ _, hp.issued h.path⟩

theorem rowsStay_of_call {e : Event Daemon.signature (World lib)} (he : e ∈ calls) (v : World lib)
    (ha : Daemon.answer e.pre e.call e.reply v) : RowsStay e.pre v := by
  obtain ⟨tr, -, hi⟩ := issued_of_exec h he
  exact rowsStay_of_issued hi ha

theorem rowsStay_process : RowsStay w w' :=
  h.answers.relates_of_mem (fun _ _ _ => RowsStay.trans) (fun _ _ => RowsStay.of_drift)
    (fun _ he => rowsStay_of_call h he)

theorem rowsStay_around {e : Event Daemon.signature (World lib)} (he : e ∈ calls) :
    ∃ v, RowsStay w e.pre ∧ Daemon.answer e.pre e.call e.reply v ∧ RowsStay v w' :=
  h.answers.around (R := RowsStay) (fun _ _ _ => RowsStay.trans) (fun _ _ => RowsStay.of_drift)
    (fun _ he => rowsStay_of_call h he) he

/-- The list that a call has loaded is the list of before. -/
theorem mem_loaded {v : World lib} {list : Statement.sanctionedAddresses.Result}
    (hm : succeeded v .sanctionedAddresses list ∈ calls) (a : String) :
    a ∈ HashSet.collect (list.rows.map (fun a => a.address)) ↔ a ∈ listed w.db := by
  obtain ⟨v', hs, ha, -⟩ := rowsStay_around h hm
  rw [← hs.listed_eq]
  exact mem_collect_addresses (addresses_of_succeeds ha.1) a

/-- When no call of its own has failed, a call of process that ends well has loaded the list. -/
theorem exists_loaded (hr : r = .ok ()) (hf : ∀ e ∈ calls, ¬ CallFails e.call e.reply) :
    ∃ v list, succeeded v .sanctionedAddresses list ∈ calls := by
  obtain ⟨b, hb⟩ := (process_finishes h).stored hr
  obtain ⟨s, hs⟩ := (rowFor_of_stored h hb).loaded
  obtain ⟨e, he, hread⟩ := List.exists_of_findSome?_eq_some hs.addresses
  unfold readAddresses at hread
  split at hread
  · rename_i v reply
    cases reply with
    | error e => exact absurd trivial (hf _ he)
    | ok list => exact ⟨v, list, he⟩
  · cases hread

/-- Then it has stored a row for each output of its block to a listed address. -/
theorem hasRow_of_ok (hr : r = .ok ()) (hf : ∀ e ∈ calls, ¬ CallFails e.call e.reply)
    (ho : StoredAs lib (listed w.db) block o) : HasRow w'.db o := by
  obtain ⟨v, list, hm⟩ := exists_loaded h hr hf
  have ha : ∀ a, a ∈ addressesOf calls ↔ a ∈ listed w.db := by
    rw [addressesOf_of_path h.path hm]
    exact mem_loaded h hm
  obtain ⟨row, hrow, hro⟩ := (exists_new_row_iff ha).mpr ho
  obtain hnil | ⟨u, a, hu⟩ := (process_finishes h).utxosStored hr
  · rw [hnil] at hrow
    cases hrow
  · obtain ⟨v', -, ha', hstay⟩ := rowsStay_around h hu
    exact hstay.hasRow (hasRow_of_inserted ha'.1 hrow hro)

omit h in
theorem mem_addressesOf {a : String} (ha : a ∈ addressesOf tr) :
    ∃ v list, succeeded v .sanctionedAddresses list ∈ tr ∧
      a ∈ HashSet.collect (list.rows.map (fun a => a.address)) := by
  unfold addressesOf at ha
  cases hread : tr.findSome? readAddresses with
  | none =>
    simp [hread] at ha
  | some addresses =>
    rw [hread, Option.getD_some] at ha
    obtain ⟨e, he, hread⟩ := List.exists_of_findSome?_eq_some hread
    unfold readAddresses at hread
    split at hread
    · rename_i v reply
      cases hread
      cases reply with
      | error e => exact absurd ha HashSet.not_mem_empty
      | ok list => exact ⟨v, list, he, ha⟩
    · cases hread

/-- A new row is one that the call has inserted. -/
theorem mem_rows_process {row : SanctionedUtxo} (hrow : row ∈ w'.db.sanctionedUtxo.rows) :
    row ∈ w.db.sanctionedUtxo.rows ∨ ∃ v utxos a,
      succeeded v (.insertSanctionedUtxos utxos) a ∈ calls ∧ row ∈ utxos := by
  let R := fun (w w' : World lib) => ∀ row ∈ w'.db.sanctionedUtxo.rows,
    row ∈ w.db.sanctionedUtxo.rows ∨ ∃ v utxos a,
      succeeded v (.insertSanctionedUtxos utxos) a ∈ calls ∧ row ∈ utxos
  refine h.answers.relates_of_mem (R := R) ?_ ?_ ?_ row hrow
  · intro w₁ w₂ w₃ h₁ h₂ row hrow
    obtain hrow | hnew := h₂ row hrow
    · exact h₁ row hrow
    · exact .inr hnew
  · intro w₁ w₂ hd row hrow
    rw [hd.2.2] at hrow
    exact .inl hrow
  · intro e he v ha row hrow
    obtain ⟨u, c, r⟩ := e
    obtain ⟨tr, -, hi⟩ := issued_of_exec h he
    cases dbAnswer_of_answer ha with
    | same _ hdb =>
      rw [hdb] at hrow
      exact .inl hrow
    | @exec _ _ st a hs =>
      by_cases ht : st.target = some .sanctionedUtxo
      · cases st with
        | insertSanctionedUtxos utxos =>
          exact (mem_rows_of_insertSanctionedUtxos hs hrow).imp id
            (fun hnew => ⟨u, utxos, a, he, hnew⟩)
        | cleanAndInsertSanctionedUtxos utxos => exact hi.elim
        | _ => cases ht
      · rw [(kept_of_succeeds hs).utxos ht] at hrow
        exact .inl hrow

/-- What a call of process adds to the table are outputs of its block to listed addresses. -/
theorem hasRow_process (ho : HasRow w'.db o) :
    HasRow w.db o ∨ StoredAs lib (listed w.db) block o := by
  obtain ⟨row, hrow, hro⟩ := ho
  obtain hold | ⟨v, utxos, a, hm, hnew⟩ := mem_rows_process h hrow
  · exact .inl ⟨row, hold, hro⟩
  · obtain ⟨tr, hsub, hi⟩ := issued_of_exec h hm
    have hi : utxos = buildNewlyCreatedSanctionedUtxos lib block (addressesOf tr) := hi
    rw [hi] at hnew
    have hloaded : StoredAs lib {a | a ∈ addressesOf tr} block o :=
      (exists_new_row_iff (fun _ => Iff.rfl)).mp ⟨row, hnew, hro⟩
    refine .inr (hloaded.mono (fun a ha => ?_))
    obtain ⟨v, list, hlist, ha⟩ := mem_addressesOf ha
    exact (mem_loaded h (hsub hlist) a).mp ha

end Process

section Steps

variable {s s' : State lib} {tr : Trace lib} {q : Processed lib}

/-- What an iteration does to the table: no row is lost, and new ones are those of the block that
it processes. -/
structure Adds (lib : Crates) (tr : Trace lib) (w w' : World lib) : Prop where
  stay : RowsStay w w'
  origin : ∀ o, HasRow w'.db o → HasRow w.db o ∨
    ∃ q ∈ processedIn tr, StoredAs lib (listed w.db) q.block o

theorem Adds.trans (h : Adds lib tr w w') (h' : Adds lib tr w' w'') : Adds lib tr w w'' where
  stay := h.stay.trans h'.stay
  origin o ho := by
    obtain ho | ⟨q, hq, hs⟩ := h'.origin o ho
    · exact h.origin o ho
    · exact .inr ⟨q, hq, h.stay.listed_eq ▸ hs⟩

theorem Adds.of_drift (h : Drift.noRescan.rel w w') : Adds lib tr w w' where
  stay := .of_drift h
  origin o ho := by
    obtain ⟨row, hrow, hro⟩ := ho
    rw [h.2.2] at hrow
    exact .inl ⟨row, hrow, hro⟩

theorem adds_of_answer {e : Event (MainLoop.signature lib) (World lib)} (he : e ∈ tr)
    (ha : MainLoop.answer network Drift.noRescan e.pre e.call e.reply w) : Adds lib tr e.pre w := by
  by_cases hp : ∃ block fees lt, e.call = .process block fees lt
  · obtain ⟨v, c, run⟩ := e
    obtain ⟨block, fees, lt, rfl⟩ := hp
    obtain ⟨rs, hx⟩ := ha
    refine ⟨rowsStay_process hx, fun o ho => (hasRow_process hx ho).imp id (fun hs => ?_)⟩
    exact ⟨⟨block, lt, run⟩, List.mem_filterMap.mpr ⟨_, he, rfl⟩, hs⟩
  · rw [rpc_world_eq (fun block fees lt hc => hp ⟨block, fees, lt, hc⟩) ha]
    exact ⟨.refl _, fun o ho => .inl ho⟩

variable (h : Step network Drift.noRescan s tr s')
include h

theorem adds_of_step : Adds lib tr s.world s'.world := by
  obtain ⟨lt, -, hx⟩ := h
  exact hx.answers.relates_of_mem (fun _ _ _ => Adds.trans) (fun _ _ => Adds.of_drift)
    (fun _ he _ => adds_of_answer he)

/-- A call of process that ends well leaves a row for each listed output of its block. -/
theorem hasRow_of_processed (hf : FaultFree tr) (hq : q ∈ processedIn tr)
    (hr : q.run.result = .ok ()) (ho : StoredAs lib (listed s.world.db) q.block o) :
    HasRow s'.world.db o := by
  obtain ⟨lt, -, hx⟩ := h
  obtain ⟨e, he, hqe⟩ := List.mem_filterMap.mp hq
  obtain ⟨v, fees, rfl⟩ := processed_eq_some_iff.mp hqe
  obtain ⟨v', hs, ⟨rs, hrun⟩, hs'⟩ := hx.answers.around (R := Adds lib tr)
    (fun _ _ _ => Adds.trans) (fun _ _ => Adds.of_drift) (fun _ he _ => adds_of_answer he) he
  rw [← hs.stay.listed_eq] at ho
  exact hs'.stay.hasRow (hasRow_of_ok hrun hr (hf.process q hq) ho)

omit h in
/-- A call of process without a failure ends well, or the loop ends with it. -/
theorem result_of_templates {D : Drift lib} (h : Step network D s tr s') (hf : FaultFree tr)
    (hq : q ∈ processedIn tr) (hs : s'.templates.isSome) : q.run.result = .ok () := by
  obtain hr | ⟨p, hr⟩ := hf.ends h hq
  · exact hr
  · obtain ⟨lt, out, -, rfl, ho, -⟩ := h.cases
    obtain ⟨-, f, hout⟩ := ho.of_processed hq
    have hnone : afterProcess lt q.run.result = none := by
      rw [hr]
      rfl
    rw [hout, hnone] at hs
    cases hs

end Steps

/-- A run in which every call succeeds, over a chain that only grows, without a rescan and with one
address list. -/
abbrev QuietRun (lib : Crates) (network : Network) :=
  Run (@Initial lib) (fun s tr s' => Step network Drift.noRescan s tr s' ∧ FaultFree tr)

def QuietRun.faultFree (ρ : QuietRun lib network) : FaultFreeRun lib network where
  length := ρ.length
  state := ρ.state
  label := ρ.label
  starts := ρ.starts
  steps i hi := ⟨(ρ.steps i hi).1.mono (fun _ _ => Drift.sharedGrows_of_noRescan), (ρ.steps i hi).2⟩

/-- The table has every output to a listed address that the blocks below the height have created
and not spent. -/
def CompleteUpTo (w : World lib) (height : ℕ) : Prop :=
  TableHolds lib (listed w.db) (w.node.chain.blocks.take height) w.db.sanctionedUtxo.rows

/-- A call of process ends well in an iteration, for the block at the height. -/
structure Completes (ρ : QuietRun lib network) (i : ℕ) (q : Processed lib) (height : ℕ) : Prop where
  lt : i < ρ.length
  mem : q ∈ processedIn (ρ.label i)
  result : q.run.result = .ok ()
  at_height : (ρ.state (i + 1)).world.node.chain.at? height = some q.block

/-- After each call that ends well, the table is complete up to its block. -/
def TableComplete (ρ : QuietRun lib network) : Prop :=
  ∀ i q height, Completes ρ i q height → CompleteUpTo (ρ.state (i + 1)).world (height + 1)

/-- The block is not below the first template, and no iteration before has processed it. -/
structure Skipped (ρ : QuietRun lib network) (i height : ℕ) (b : Bitcoin.Block) : Prop where
  from_first : ∃ t, polled (ρ.label 0) = some t ∧ t.height ≤ height
  at_height : (ρ.state (i + 1)).world.node.chain.at? height = some b
  unprocessed : ∀ j < i, ∀ q ∈ processedIn (ρ.label j), q.block ≠ b

/-- One of the blocks processed before the iteration creates an output to a listed address that is
stored under the outpoint. -/
def StoredBefore (ρ : QuietRun lib network) (i : ℕ) (o : OutPoint) : Prop :=
  ∃ j < i, ∃ q ∈ processedIn (ρ.label j), StoredAs lib (listed (ρ.state 0).world.db) q.block o

/-- When a call ends well, the outputs of the blocks that were skipped below its own have been
spent, unless their rows were in the table from the start or come from a block that was
processed. -/
def GapsCovered (ρ : QuietRun lib network) : Prop :=
  ∀ i q height, Completes ρ i q height → ∀ g b, g < height → Skipped ρ i g b →
    ∀ o, PaidIn lib (listed (ρ.state 0).world.db) b o →
      ¬ Spent ((ρ.state (i + 1)).world.node.chain.blocks.take (height + 1)) o →
        HasRow (ρ.state 0).world.db o ∨ StoredBefore ρ (i + 1) o

section Runs

variable {ρ : QuietRun lib network} {i j height : ℕ} {q : Processed lib}

theorem adds_at (hi : i < ρ.length) :
    Adds lib (ρ.label i) (ρ.state i).world (ρ.state (i + 1)).world :=
  adds_of_step (ρ.steps i hi).1

theorem rowsStay_at (hij : i ≤ j) (hj : j ≤ ρ.length) :
    RowsStay (ρ.state i).world (ρ.state j).world :=
  ρ.relation (R := fun s s' => RowsStay s.world s'.world) (fun _ => .refl _)
    (fun _ _ _ => RowsStay.trans) (fun _ hk => (adds_at hk).stay) hij hj

theorem listed_at (hj : j ≤ ρ.length) :
    listed (ρ.state j).world.db = listed (ρ.state 0).world.db :=
  (rowsStay_at (ρ := ρ) (Nat.zero_le j) hj).listed_eq

/-- A row was in the table from the start, or a block that was processed has brought it. -/
theorem origin_at (hj : j ≤ ρ.length) (ho : HasRow (ρ.state j).world.db o) :
    HasRow (ρ.state 0).world.db o ∨ StoredBefore ρ j o := by
  induction j with
  | zero => exact .inl ho
  | succ j ih =>
    obtain hold | ⟨q, hq, hs⟩ := (adds_at (by omega)).origin o ho
    · apply (ih (by omega) hold).imp id
      rintro ⟨k, hk, q, hq, hs⟩
      exact ⟨k, by omega, q, hq, hs⟩
    · rw [listed_at (by omega)] at hs
      exact .inr ⟨j, by omega, q, hq, hs⟩

theorem mem_take_iff {n : Node lib} {b : Bitcoin.Block} {height : ℕ} :
    b ∈ n.chain.blocks.take height ↔ ∃ g < height, n.chain.at? g = some b := by
  simp only [List.mem_iff_getElem?, List.getElem?_take, Chain.at?]
  constructor
  · rintro ⟨g, hg⟩
    split_ifs at hg with hlt
    exact ⟨g, hlt, hg⟩
  · rintro ⟨g, hlt, hg⟩
    exact ⟨g, by rwa [if_pos hlt]⟩

/-- The first iteration only polls. -/
theorem first_poll (h : 0 < ρ.length) : ∃ t, polled (ρ.label 0) = some t ∧
    processedIn (ρ.label 0) = [] ∧ newest (ρ.state 1) = some t := by
  cases move_at ρ.faultFree h with
  | quiet ht hq _ hnew => exact ⟨_, ht, hq, hnew⟩
  | mined _ _ hp _ _ _ =>
    have hnone : newest (ρ.faultFree.state 0) = none := newest_of_empty ρ.starts
    rw [hnone] at hp
    cases hp

theorem length_of_first_poll (h : 0 < ρ.length) {t : GetBlockTemplateResult}
    (ht : polled (ρ.label 0) = some t) :
    0 < t.height ∧ t.height ≤ (ρ.state 1).world.node.chain.length := by
  obtain ⟨lt, -, hx⟩ := (ρ.steps 0 h).1
  obtain ⟨m, -, hm, hgrows⟩ := polled_facts follows_noRescan ht hx.answers
  exact ⟨height_pos hm, height_le hgrows hm⟩

theorem past_first (h : 0 < ρ.length) {t : GetBlockTemplateResult}
    (ht : polled (ρ.label 0) = some t) : Past (t.height - 1) (ρ.state 1) := by
  obtain ⟨hpos, hlen⟩ := length_of_first_poll h ht
  refine ⟨by omega, fun lt hlt p hp => ?_⟩
  obtain ⟨t', ht', -, hnew⟩ := first_poll h
  rw [ht] at ht'
  cases ht'
  rw [newest, hlt] at hnew
  cases hp.symm.trans hnew
  omega

theorem pos_of_processed (hi : i < ρ.length) (hq : q ∈ processedIn (ρ.label i)) : 1 ≤ i := by
  apply Nat.pos_of_ne_zero
  rintro rfl
  obtain ⟨-, -, hnil, -⟩ := first_poll hi
  rw [hnil] at hq
  exact List.not_mem_nil hq

/-- No block below the first template is processed. -/
theorem first_le (hc : Completes ρ i q height) {t : GetBlockTemplateResult}
    (ht : polled (ρ.label 0) = some t) : t.height ≤ height := by
  have hlt := hc.lt
  have hpast : ∀ j, 1 ≤ j → j ≤ i → Past (t.height - 1) (ρ.state j) := by
    intro j hj
    induction j, hj using Nat.le_induction with
    | base => exact fun _ => past_first (by omega) ht
    | succ j hj ih => exact fun hji => past_step (ih (by omega)) (ρ.faultFree.steps j (by
        change j < ρ.length
        omega)).1
  obtain ⟨p, u, htemplates, hp, -, -, hat⟩ := processed_at (polled_at ρ.faultFree i hlt.le)
    (ρ.faultFree.steps i hlt).1 hc.mem
  have hbelow := (hpast i (pos_of_processed hlt hc.mem) le_rfl).2 _ htemplates p hp
  have hh : p.height = height := Chain.height_unique (fun _ hk => hk) rfl hat hc.at_height
  omega

/-- Where the table was complete up to the first template it is so in every later state. -/
theorem hasRow_of_below (hi : i < ρ.length) {t : GetBlockTemplateResult}
    (ht : polled (ρ.label 0) = some t) (hT : CompleteUpTo (ρ.state 1).world t.height)
    (hle : t.height ≤ height) {b : Bitcoin.Block} {g : ℕ} (hg : g < t.height)
    (hb : (ρ.state (i + 1)).world.node.chain.at? g = some b)
    (hpaid : PaidIn lib (listed (ρ.state (i + 1)).world.db) b o)
    (hspent : ¬ Spent ((ρ.state (i + 1)).world.node.chain.blocks.take (height + 1)) o) :
    HasRow (ρ.state (i + 1)).world.db o := by
  have hstay := rowsStay_at (ρ := ρ) (i := 1) (j := i + 1) (by omega) (by omega)
  have hgrows := node_grows ρ.faultFree (i := 1) (j := i + 1) (by omega) hi
  have htake := Chain.take_of_grows hgrows.2 (length_of_first_poll (by omega) ht).2
  refine hstay.hasRow (hT o ⟨⟨b, ?_, hstay.listed_eq ▸ hpaid⟩, fun hs => hspent ?_⟩)
  · exact htake ▸ mem_take_iff.mpr ⟨g, hg, hb⟩
  · obtain ⟨b', hb', ho⟩ := hs
    obtain ⟨g', hg', hat⟩ := mem_take_iff.mp (htake.symm ▸ hb')
    exact ⟨b', mem_take_iff.mpr ⟨g', by omega, hat⟩, ho⟩

/-- A block that has been processed by the end of an iteration has its rows. -/
theorem hasRow_of_processedAt (hij : i ≤ j) (hj : j < ρ.length)
    (hq : q ∈ processedIn (ρ.label i)) (hr : q.run.result = .ok ())
    (ho : StoredAs lib (listed (ρ.state 0).world.db) q.block o) :
    HasRow (ρ.state (j + 1)).world.db o := by
  have hi : i < ρ.length := by omega
  have hstay := rowsStay_at (ρ := ρ) (i := i + 1) (j := j + 1) (by omega) hj
  rw [← listed_at hi.le] at ho
  exact hstay.hasRow (hasRow_of_processed (ρ.steps i hi).1 (ρ.steps i hi).2 hq hr ho)

/-- Where the next iteration begins, the call of process before it has ended well. -/
theorem result_at (hi : i + 1 < ρ.length) (hq : q ∈ processedIn (ρ.label i)) :
    q.run.result = .ok () := by
  have hs := ρ.steps i (by omega)
  obtain ⟨lt, hlt, -⟩ := (ρ.steps (i + 1) hi).1
  exact result_of_templates hs.1 hs.2 hq (by rw [hlt]; rfl)

theorem hasRow_of_storedBefore (hc : Completes ρ i q height) (ho : StoredBefore ρ (i + 1) o) :
    HasRow (ρ.state (i + 1)).world.db o := by
  have hi := hc.lt
  obtain ⟨j, hj, q', hq', hs⟩ := ho
  by_cases hlast : j = i
  · subst hlast
    obtain ⟨lt, out, -, -, hout, -⟩ := (ρ.steps j hi).1.cases
    rw [(hout.of_processed hc.mem).1] at hq'
    obtain rfl := List.mem_singleton.mp hq'
    exact hasRow_of_processedAt le_rfl hi hc.mem hc.result hs
  · exact hasRow_of_processedAt (by omega) hi hq' (result_at (by omega) hq') hs

theorem completeUpTo_of_covered (hT : ∀ t, polled (ρ.label 0) = some t →
      CompleteUpTo (ρ.state 1).world t.height) (hC : GapsCovered ρ)
    (hc : Completes ρ i q height) : CompleteUpTo (ρ.state (i + 1)).world (height + 1) := by
  have hi := hc.lt
  have hlisted := listed_at (ρ := ρ) hi
  obtain ⟨t, ht, -⟩ := first_poll (ρ := ρ) (by omega)
  rintro o ⟨⟨b, hb, hpaid⟩, hspent⟩
  obtain ⟨g, hg, hat⟩ := mem_take_iff.mp hb
  by_cases hfirst : g < t.height
  · exact hasRow_of_below hi ht (hT t ht) (first_le hc ht) hfirst hat hpaid hspent
  by_cases hlast : g = height
  · -- the block that has just been processed
    obtain rfl : q.block = b := Option.some.inj (hc.at_height.symm.trans (hlast ▸ hat))
    exact hasRow_of_storedBefore hc ⟨i, i.lt_succ_self, q, hc.mem, hlisted ▸ hpaid.storedAs⟩
  by_cases hdone : ∃ j < i, ∃ q' ∈ processedIn (ρ.label j), q'.block = b
  · obtain ⟨j, hj, q', hq', rfl⟩ := hdone
    exact hasRow_of_storedBefore hc ⟨j, by omega, q', hq', hlisted ▸ hpaid.storedAs⟩
  · have hskip : Skipped ρ i g b := ⟨⟨t, ht, by omega⟩, hat, fun j hj q' hq' he =>
      hdone ⟨j, hj, q', hq', he⟩⟩
    obtain hrow | hstored := hC i q height hc g b (by omega) hskip o (hlisted ▸ hpaid) hspent
    · exact (rowsStay_at (Nat.zero_le _) hi).hasRow hrow
    · exact hasRow_of_storedBefore hc hstored

theorem covered_of_complete (hP : TableComplete ρ) : GapsCovered ρ := by
  intro i q height hc g b hg hskip o hpaid hspent
  have hmem : b ∈ (ρ.state (i + 1)).world.node.chain.blocks.take (height + 1) :=
    mem_take_iff.mpr ⟨g, by omega, hskip.at_height⟩
  have hrow : HasRow (ρ.state (i + 1)).world.db o :=
    hP i q height hc o ⟨⟨b, hmem, (listed_at hc.lt).symm ▸ hpaid⟩, hspent⟩
  exact origin_at hc.lt hrow

/-- When the table starts complete, it stays so after every call that ends well exactly when no
skipped block has left an unspent output to a listed address without a row. -/
theorem tableComplete_iff (ρ : QuietRun lib network) (hT : ∀ t, polled (ρ.label 0) = some t →
      CompleteUpTo (ρ.state 1).world t.height) : TableComplete ρ ↔ GapsCovered ρ :=
  ⟨covered_of_complete, fun hC _ _ _ => completeUpTo_of_covered hT hC⟩

end Runs

section Samples

def chain₃ : Node sample :=
  nodeOf (by decide : IsActive sample [block₀, block₁, block₂, block₃]
    [block₁, block₂, block₃] block₀)

theorem chain₂_grows : chain₂.Grows chain₃ := ⟨List.subset_append_left _ _, [block₃], rfl⟩

/-- Every miner is listed, and the first block has its row. -/
def minersListed : Database :=
  { Database.empty with
    sanctionedAddresses := ⟨[⟨"other"⟩], by decide⟩
    sanctionedUtxo := ⟨[⟨(hashOfByte 101).reversed, 0, otherScript, 5000, 0⟩], by decide⟩ }

/-- The chain at the second poll, and from the third one on. -/
def arrivals (second third : Node sample) : Schedule sample where
  node
    | 0 => chain₀
    | 1 => second
    | _ => third
  outside i := { Outside.healthy with nextId := Int64.ofNat i }
  db := minersListed

theorem arrivals_grows {second third : Node sample} (h : chain₀.Grows second)
    (h' : second.Grows third) (i : ℕ) :
    ((arrivals second third).node i).Grows ((arrivals second third).node (i + 1)) := by
  cases i with
  | zero => exact h
  | succ i => cases i with
    | zero => exact h'
    | succ i => exact follows_grows.refl _

def arrivalsRun {second third : Node sample} (h : chain₀.Grows second) (h' : second.Grows third)
    (n : ℕ) (halive : (arrivals second third).Alive .bitcoin n)
    (hf : ∀ i < n, FaultFree ((arrivals second third).label .bitcoin i)) :
    QuietRun sample .bitcoin where
  length := n
  state := (arrivals second third).state .bitcoin
  label := (arrivals second third).label .bitcoin
  starts := rfl
  steps i hi := ⟨Schedule.step halive hi
    ⟨Schedule.node_follows follows_noRescan (arrivals_grows h h') halive hi, rfl, rfl⟩, hf i hi⟩

theorem minersListed_complete : TableHolds sample (listed minersListed) [block₀]
    minersListed.sanctionedUtxo.rows := by
  rintro o ⟨⟨b, hb, tx, htx, hid, output, hout, -⟩, -⟩
  obtain rfl := List.mem_singleton.mp hb
  obtain rfl := List.mem_singleton.mp htx
  refine ⟨_, List.mem_singleton_self _, by rw [← hid]; rfl, ?_⟩
  obtain ⟨hlt, -⟩ := List.getElem?_eq_some_iff.mp hout
  have hvout : o.vout = 0 := UInt32.toNat_inj.mp (Nat.lt_one_iff.mp hlt)
  rw [hvout]
  rfl

theorem one_block_alive : (arrivals chain₁ chain₁).Alive .bitcoin 2 := by decide +kernel

theorem one_block_faultFree (i : ℕ) (hi : i < 2) :
    FaultFree ((arrivals chain₁ chain₁).label .bitcoin i) where
  rpc := by
    have h : ∀ i < 2, ∀ e ∈ (arrivals chain₁ chain₁).label .bitcoin i,
        ¬ RpcFails e.call e.reply := by decide +kernel
    exact h i hi
  process := by
    have h : ∀ i < 2, ∀ q ∈ processedIn ((arrivals chain₁ chain₁).label .bitcoin i),
        ∀ e ∈ q.run.calls, ¬ CallFails e.call e.reply := by decide +kernel
    exact h i hi

/-- One block arrives. -/
def oneBlockRun : QuietRun sample .bitcoin :=
  arrivalsRun chain₀_grows (follows_grows.refl _) 2 one_block_alive one_block_faultFree

theorem two_blocks_alive : (arrivals chain₂ chain₃).Alive .bitcoin 3 := by decide +kernel

theorem two_blocks_faultFree (i : ℕ) (hi : i < 3) :
    FaultFree ((arrivals chain₂ chain₃).label .bitcoin i) where
  rpc := by
    have h : ∀ i < 3, ∀ e ∈ (arrivals chain₂ chain₃).label .bitcoin i,
        ¬ RpcFails e.call e.reply := by decide +kernel
    exact h i hi
  process := by
    have h : ∀ i < 3, ∀ q ∈ processedIn ((arrivals chain₂ chain₃).label .bitcoin i),
        ∀ e ∈ q.run.calls, ¬ CallFails e.call e.reply := by decide +kernel
    exact h i hi

/-- Two blocks arrive between two polls, and then one more. -/
def twoBlocksRun : QuietRun sample .bitcoin :=
  arrivalsRun (follows_grows.trans _ _ _ chain₀_grows chain₁_grows) chain₂_grows 3 two_blocks_alive
    two_blocks_faultFree

theorem arrivals_complete {second third : Node sample} :
    ∀ t, polled ((arrivals second third).label .bitcoin 0) = some t →
      CompleteUpTo ((arrivals second third).state .bitcoin 1).world t.height := by
  intro t ht
  cases ht
  exact minersListed_complete

/-- No block is skipped. -/
theorem tableComplete_oneBlock :
    (∃ q, Completes oneBlockRun 1 q 1) ∧ TableComplete oneBlockRun := by
  have hnode : (oneBlockRun.state 2).world.node = chain₁ :=
    Schedule.node_state (one_block_alive 1 (by decide))
  constructor
  · have hdone : ∃ q ∈ processedIn ((arrivals chain₁ chain₁).label .bitcoin 1),
        q.block = block₁ ∧ q.run.result = .ok () := by decide +kernel
    obtain ⟨q, hq, hb, hr⟩ := hdone
    refine ⟨q, by decide, hq, hr, ?_⟩
    rw [hnode, hb]
    rfl
  · apply (tableComplete_iff oneBlockRun arrivals_complete).mpr
    intro i q height hc g b hg hskip
    obtain ⟨t, ht, hle⟩ := hskip.from_first
    have hi := pos_of_processed hc.lt hc.mem
    obtain rfl : i = 1 := by
      have hlt : i < 2 := hc.lt
      omega
    -- the one block is that of the first template
    have hlt := Chain.lt_length_of_at hc.at_height
    rw [hnode] at hlt
    have hlen : chain₁.chain.length = 2 := rfl
    have ht' : t.height = 1 := by
      cases ht
      rfl
    omega

/-- The row of an output of the block that was skipped is missing. -/
theorem tableComplete_fails :
    (∀ t, polled (twoBlocksRun.label 0) = some t →
      CompleteUpTo (twoBlocksRun.state 1).world t.height) ∧ ¬ TableComplete twoBlocksRun := by
  refine ⟨arrivals_complete, fun h => ?_⟩
  have hdone : ∃ q ∈ processedIn ((arrivals chain₂ chain₃).label .bitcoin 2),
      q.block = block₃ ∧ q.run.result = .ok () := by decide +kernel
  have hnode : (twoBlocksRun.state 3).world.node = chain₃ :=
    Schedule.node_state (two_blocks_alive 2 (by decide))
  have hstay := rowsStay_at (ρ := twoBlocksRun) (i := 0) (j := 3) (by decide) le_rfl
  have hnone : ∀ row ∈ ((arrivals chain₂ chain₃).state .bitcoin 3).world.db.sanctionedUtxo.rows,
      ¬ RowOf row ⟨hashOfByte 103, 0⟩ := by decide +kernel
  obtain ⟨q, hq, hb, hr⟩ := hdone
  have hcomplete := h 2 q 3 ⟨by decide, hq, hr, by rw [hnode, hb]; rfl⟩
  obtain ⟨row, hrow, hro⟩ := hcomplete ⟨hashOfByte 103, 0⟩ (by
    rw [hnode, hstay.listed_eq]
    refine ⟨⟨block₂, by decide, coinbaseTx 103 otherScript, by decide, rfl, _, rfl,
      "other", ?_, rfl⟩, by decide⟩
    exact List.mem_singleton_self _)
  exact hnone row hrow hro

end Samples

end MiningpoolObserver.TableGaps
