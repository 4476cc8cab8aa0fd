import MiningpoolObserver.ProcessSpec
import MiningpoolObserver.SanctionedOutputs
import MiningpoolObserver.Simulation
import MiningpoolObserver.Threads

namespace MiningpoolObserver.UtxoScan

open MiningpoolObserver.Library MiningpoolObserver.Library.CallTree
open MiningpoolObserver.Library.HashCollections MiningpoolObserver.Library.Runs
open MiningpoolObserver.Bitcoin MiningpoolObserver.SharedModel MiningpoolObserver.Db
open MiningpoolObserver.Daemon MiningpoolObserver.Process MiningpoolObserver.ProcessSpec
open MiningpoolObserver.Threads MiningpoolObserver.Processing.Sanctions
open MiningpoolObserver.SanctionedOutputs MiningpoolObserver.Simulation

variable {lib : Crates} {C C' : Config lib} {l : Label lib}

/-- An address that is printed for a script is parsed to that script. -/
def ParsesBack (lib : Crates) : Prop :=
  ∀ script address, lib.addressFromScript script = some address →
    lib.parseAddress address = some script

/-- The main loop processes blocks of the active chain, next to the scan thread. -/
def Scanning : Thread → Job → World lib → Prop
  | .mainLoop, .process _ _ block _ _, w => block ∈ w.node.chain.blocks
  | .utxoScan, .scanSanctionedUtxos, _ => True
  | _, _, _ => False

/-- The two threads from any database, with a chain that only grows. -/
abbrev ScanRun (lib : Crates) := ThreadRun lib .grows Scanning (fun _ => True)

def HasRow (db : Database) (o : OutPoint) : Prop := ∃ row ∈ db.sanctionedUtxo.rows, RowOf row o

/-- A call of process for the block has ended well. -/
def Completed (C : Config lib) (b : Bitcoin.Block) : Prop :=
  ∃ e ∈ C.ended, e.result = .ok () ∧ ∃ rs network fees lt, e.job = .process rs network b fees lt

/-- Every output to a listed address that a processed block has created, and that no block has
spent, is a row of the table. -/
def OutputsKept (C : Config lib) : Prop :=
  ∀ b o, Completed C b → PaidIn lib (listed C.world.db) b o →
    ¬ Spent C.world.node.chain.blocks o → HasRow C.world.db o

/-- The thread that rewrites the table with success. -/
def rewrites : Label lib → Option Thread
  | .call i ⟨_, .sql (.cleanAndInsertSanctionedUtxos _), .ok _⟩ => some i
  | _ => none

/-- When the table is rewritten, the chain that was scanned had every unspent output to a listed
address that has a row. -/
def RewriteCovers (C : Config lib) (l : Label lib) : Prop :=
  ∀ i, rewrites l = some i → ∀ t, C.running i = some t → ∀ w descriptors result,
    ⟨w, Call.scanTxOutSetBlocking descriptors, Except.ok result⟩ ∈ t.trace →
      ∀ o, Unspent lib (listed C.world.db) C.world.node.chain.blocks o → HasRow C.world.db o →
        ∃ b ∈ w.node.chain.blocks, PaidIn lib (listed C.world.db) b o

/-- When a call of process ends well, it has loaded the address list, or its block pays no listed
address. -/
def ListLoaded (C : Config lib) (l : Label lib) : Prop :=
  ∀ i, l = .finish i → ∀ rs network b fees lt calls,
    C.running i = some ⟨.process rs network b fees lt, calls, .done (.ok ())⟩ →
      (∃ v list, succeeded v .sanctionedAddresses list ∈ calls) ∨
        ∀ o, ¬ PaidIn lib (listed C.world.db) b o

section Scan

theorem mem_outputsOf {blocks : List Bitcoin.Block} {b : Bitcoin.Block} (hb : b ∈ blocks)
    {tx : Bitcoin.Transaction} (htx : tx ∈ b.txdata) {vout : Nat} {output : TxOut}
    (hout : tx.output[vout]? = some output) :
    ∃ u ∈ outputsOf lib blocks, u.txid = lib.computeTxid tx ∧ u.vout = UInt32.ofNat vout ∧
      u.scriptPubKey = output.scriptPubkey := by
  obtain ⟨height, hheight⟩ := List.mem_iff_getElem?.mp hb
  refine ⟨⟨lib.computeTxid tx, UInt32.ofNat vout, output.scriptPubkey, output.value,
    UInt64.ofNat height⟩, ?_, rfl, rfl, rfl⟩
  refine List.mem_flatMap.mpr ⟨(b, height), List.mk_mem_zipIdx_iff_getElem?.mpr hheight, ?_⟩
  refine List.mem_flatMap.mpr ⟨tx, htx, List.mem_map.mpr ⟨(output, vout), ?_, rfl⟩⟩
  exact List.mk_mem_zipIdx_iff_getElem?.mpr hout

theorem matchesAny_descriptorsOf (hlib : ParsesBack lib) {listed : Set String}
    {addrs : List String} (ha : ∀ a ∈ listed, a ∈ addrs) {script : ScriptBuf}
    (h : PaysListed lib listed script) :
    matchesAny lib (descriptorsOf lib addrs) script = true := by
  obtain ⟨address, haddr, hscript⟩ := h
  have hp : lib.parseAddress address = some script := hlib script address hscript
  refine List.any_eq_true.mpr ⟨⟨address⟩, List.mem_map.mpr ⟨address, ?_, rfl⟩, by simp [hp]⟩
  exact List.mem_filter.mpr ⟨ha address haddr, by simp [hp]⟩

/-- A scan for the listed addresses finds every unspent output that pays one. -/
theorem exists_scanned (hlib : ParsesBack lib) {listed : Set String} {addrs : List String}
    (ha : ∀ a ∈ listed, a ∈ addrs) {blocks : List Bitcoin.Block} {o : OutPoint}
    (h : Unspent lib listed blocks o) :
    ∃ u ∈ scanTxOutSet lib blocks (descriptorsOf lib addrs), RowOf (scannedUtxo u) o := by
  obtain ⟨⟨b, hb, tx, htx, hid, output, hout, hpays⟩, hspent⟩ := h
  obtain ⟨u, hu, htxid, hvout, hscript⟩ : ∃ u ∈ outputsOf lib blocks,
      u.txid = lib.computeTxid tx ∧ u.vout = UInt32.ofNat o.vout.toNat ∧
        u.scriptPubKey = output.scriptPubkey := mem_outputsOf hb htx hout
  have ho : (⟨u.txid, u.vout⟩ : OutPoint) = o := by
    rw [htxid, hvout, hid, UInt32.ofNat_toNat]
  refine ⟨u, List.mem_filter.mpr ⟨hu, ?_⟩, ?_, ?_⟩
  · rw [hscript, matchesAny_descriptorsOf hlib ha hpays, ho]
    simp [hspent]
  · rw [scannedUtxo, htxid, hid]
  · rw [scannedUtxo, hvout, UInt32.ofNat_toNat]

/-- What the scan thread writes is what it has scanned for the addresses that it has read. -/
def ScanIssues (lib : Crates) (tr : Calls lib) : Daemon.Call → Prop
  | .sql (.cleanAndInsertSanctionedUtxos utxos) => ∃ v w,
    ∃ list : Statement.sanctionedAddresses.Result, ∃ result : ScanTxOutResult,
      succeeded v .sanctionedAddresses list ∈ tr ∧
      ⟨w, Call.scanTxOutSetBlocking (descriptorsOf lib (list.rows.map (fun a => a.address))),
        Except.ok result⟩ ∈ tr ∧ utxos = result.unspents.map scannedUtxo
  | .sql (.replaceSanctionedAddresses _) => False
  | _ => True

theorem scanSanctionedUtxos_always :
    Prog.Always (ScanIssues lib) (fun _ _ => True) [] (scanSanctionedUtxos lib) := by
  refine ⟨trivial, fun w r => ?_⟩
  cases r with
  | error e => trivial
  | ok u =>
    refine ⟨trivial, fun v r => ?_⟩
    cases r with
    | error e => trivial
    | ok list =>
      refine ⟨trivial, fun w r => ?_⟩
      cases r with
      | error e => trivial
      | ok result =>
        refine ⟨trivial, fun w₁ duration => ⟨trivial, fun w₂ now => ⟨trivial, fun w₃ r => ?_⟩⟩⟩
        cases r with
        | error e => trivial
        | ok u =>
          refine ⟨⟨v, w, list, result, ?_, ?_, rfl⟩, fun _ _ => trivial⟩
          · simp [succeeded]
          · simp

end Scan

section Steps

/-- The chain grows and the address list stays. -/
def Precedes (w w' : World lib) : Prop :=
  w.node.Grows w'.node ∧ w'.db.sanctionedAddresses = w.db.sanctionedAddresses

theorem precedes_trans (w₁ w₂ w₃ : World lib) (h : Precedes w₁ w₂) (h' : Precedes w₂ w₃) :
    Precedes w₁ w₃ :=
  ⟨⟨fun _ hb => h'.1.1 (h.1.1 hb), h.1.2.trans h'.1.2⟩, h'.2.trans h.2⟩

theorem Precedes.listed_eq {w w' : World lib} (h : Precedes w w') : listed w'.db = listed w.db := by
  unfold listed
  rw [h.2]

theorem Precedes.blocks_subset {w w' : World lib} (h : Precedes w w') :
    w.node.chain.blocks ⊆ w'.node.chain.blocks := h.1.2.subset

theorem Precedes.spent {w w' : World lib} (h : Precedes w w') {o : OutPoint}
    (hs : Spent w.node.chain.blocks o) : Spent w'.node.chain.blocks o := by
  obtain ⟨b, hb, ho⟩ := hs
  exact ⟨b, h.blocks_subset hb, ho⟩

/-- The two jobs, by what they may ask for. -/
theorem call_cases (hc : Tasks.Coherent (system lib .grows Scanning) C) {i : Thread} {j : Job}
    {tr : Calls lib} {c : Daemon.Call} {k : Daemon.Reply c → Routine Unit}
    (hi : C.running i = some ⟨j, tr, .call c k⟩) :
    (∃ rs network b fees lt, j = .process rs network b fees lt ∧ Issues lib b tr c) ∨
      j = .scanSanctionedUtxos ∧ ScanIssues lib tr c := by
  obtain ⟨w, hj⟩ := hc.admitted i _ hi
  dsimp only [system] at hj
  unfold Scanning at hj
  split at hj
  · exact .inl ⟨_, _, _, _, _, rfl, hc.call_spec hi (process_always _ _ _)⟩
  · exact .inr ⟨rfl, hc.call_spec hi scanSanctionedUtxos_always⟩
  · exact hj.elim

theorem precedes_of_step (hc : Tasks.Coherent (system lib .grows Scanning) C)
    (h : Tasks.Step (system lib .grows Scanning) C l C') : Precedes C.world C'.world := by
  have hrefl : C.world.node.Grows C.world.node := ⟨fun _ hb => hb, List.prefix_refl _⟩
  constructor
  · cases h with
    | start _ _ => exact hrefl
    | finish _ => exact hrefl
    | drift hd => exact hd.2
    | call _ ha => exact (node_of_answer ha) ▸ hrefl
  · cases dbStep_of_step Drift.keepsDb_grows h with
    | same _ hdb => rw [hdb]
    | exec hi hs =>
      refine (utxosKept_of_succeeds hs).addresses (fun addr hst => ?_)
      subst hst
      obtain ⟨_, _, _, _, _, _, hI⟩ | ⟨_, hI⟩ := call_cases hc hi
      · exact hI
      · exact hI

/-- What a step can do to the table of sanctioned UTXOs. -/
theorem rows_of_step (h : Tasks.Step (system lib .grows Scanning) C l C') :
    C.world.db.sanctionedUtxo.rows ⊆ C'.world.db.sanctionedUtxo.rows ∨
      ∃ i j tr utxos k, rewrites l = some i ∧
        C.running i = some ⟨j, tr, .call (.sql (.cleanAndInsertSanctionedUtxos utxos)) k⟩ ∧
        C'.world.node = C.world.node ∧ C'.world.db.sanctionedUtxo.rows = utxos := by
  cases dbStep_of_step Drift.keepsDb_grows h with
  | same _ hdb =>
    left
    rw [hdb]
    exact List.Subset.refl _
  | @exec i j tr s k a C' hi hs =>
    by_cases hu : ∃ utxos, s = .cleanAndInsertSanctionedUtxos utxos
    · obtain ⟨utxos, rfl⟩ := hu
      exact .inr ⟨i, j, tr, utxos, k, rfl, hi, node_of_call h, rows_of_cleanAndInsert hs⟩
    · exact .inl ((utxosKept_of_succeeds hs).utxos (fun utxos h => hu ⟨utxos, h⟩))

/-- A row of an unspent output survives every step, a rewriting because its scan was of a chain
that had the output already. -/
theorem hasRow_step (hlib : ParsesBack lib) (hc : Tasks.Coherent (system lib .grows Scanning) C)
    (ha : Tasks.Answered (system lib .grows Scanning) Precedes C) (hk : RewriteCovers C l)
    (h : Tasks.Step (system lib .grows Scanning) C l C') {o : OutPoint}
    (ho : Unspent lib (listed C'.world.db) C'.world.node.chain.blocks o)
    (hr : HasRow C.world.db o) : HasRow C'.world.db o := by
  obtain hsub | ⟨i, j, tr, utxos, k, hl, hi, hnode, hrows⟩ := rows_of_step h
  · obtain ⟨row, hrow, hro⟩ := hr
    exact ⟨row, hsub hrow, hro⟩
  · obtain ⟨_, _, _, _, _, _, hI⟩ | ⟨_, v, w, list, result, hv, hw, rfl⟩ := call_cases hc hi
    · exact hI.elim
    rw [hnode, (precedes_of_step hc h).listed_eq] at ho
    obtain ⟨hpv, v', hv'⟩ := ha i _ hi _ hv
    obtain ⟨hpw, w', hw'⟩ := ha i _ hi _ hw
    have hpaid := hk i hl _ hi w _ result hw o ho hr
    have hspent : ¬ Spent w.node.chain.blocks o := fun hs => ho.2 (hpw.spent hs)
    have haddr : ∀ a ∈ listed C.world.db, a ∈ list.rows.map (fun a => a.address) := by
      intro a hal
      rw [hpv.listed_eq] at hal
      exact ((addresses_of_succeeds hv'.1).map _).mem_iff.mpr hal
    obtain ⟨u, hu, hro⟩ := exists_scanned hlib haddr ⟨hpaid, hspent⟩
    refine ⟨scannedUtxo u, ?_, hro⟩
    rw [hrows]
    exact List.mem_map_of_mem (hw'.1.mem_iff.mpr hu)

end Steps

/-- An output to a listed address that the block has created and the active chain has not spent. -/
def UnspentOf (w : World lib) (b : Bitcoin.Block) (o : OutPoint) : Prop :=
  PaidIn lib (listed w.db) b o ∧ ¬ Spent w.node.chain.blocks o

/-- What carries the table through a run: the rows that a call has inserted stay until it ends, and
from then on those of its block do. -/
structure Kept (C : Config lib) : Prop where
  coherent : Tasks.Coherent (system lib .grows Scanning) C
  answered : Tasks.Answered (system lib .grows Scanning) Precedes C
  processing : ∀ i t, C.running i = some t → ∀ rs network b fees lt,
    t.job = .process rs network b fees lt → b ∈ C.world.node.chain.blocks
  inserted : ∀ i t, C.running i = some t → ∀ rs network b fees lt,
    t.job = .process rs network b fees lt → ∀ v utxos a,
      succeeded v (.insertSanctionedUtxos utxos) a ∈ t.trace → ∀ row ∈ utxos, ∀ o, RowOf row o →
        UnspentOf C.world b o → HasRow C.world.db o
  completed : ∀ b, Completed C b → b ∈ C.world.node.chain.blocks
  outputs : OutputsKept C

theorem kept_of_idle {P : World lib → Prop} (h : Tasks.Idle P C) : Kept C where
  coherent := Tasks.coherent_of_idle h
  answered i t ht := by simp [h.2.1 i] at ht
  processing i t ht := by simp [h.2.1 i] at ht
  inserted i t ht := by simp [h.2.1 i] at ht
  completed b hb := by
    obtain ⟨e, he, -⟩ := hb
    simp [h.2.2] at he
  outputs b o hb := by
    obtain ⟨e, he, -⟩ := hb
    simp [h.2.2] at he

theorem hasRow_of_inserted {w w' : World lib} {utxos : List SanctionedUtxo} {a : Unit}
    (h : (Statement.insertSanctionedUtxos utxos).Succeeds w.db a w'.db) {row : SanctionedUtxo}
    (hrow : row ∈ utxos) {o : OutPoint} (ho : RowOf row o) : HasRow w'.db o := by
  obtain ⟨row', hrow', hkey⟩ := List.mem_map.mp (keys_of_insertSanctionedUtxos h hrow)
  obtain ⟨hid, hvout⟩ := Prod.mk.inj hkey
  exact ⟨row', hrow', hid.trans ho.1, hvout.trans ho.2⟩

/-- The call has loaded the list and inserted the rows of its block, unless there are none. -/
theorem Kept.outputs_finish (h : Kept C) {i : Thread} (hl : ListLoaded C (.finish i))
    {rs : RandomState} {network : Network} {b : Bitcoin.Block} {fees : GetBlockTxFeesResult}
    {lt : List GetBlockTemplateResult} {calls : Calls lib}
    (hi : C.running i = some ⟨.process rs network b fees lt, calls, .done (.ok ())⟩)
    {o : OutPoint} (ho : UnspentOf C.world b o) : HasRow C.world.db o := by
  obtain ⟨v, list, hv⟩ | hn := hl i rfl rs network b fees lt calls hi
  · have hpath := h.coherent.running i _ hi
    have ha : ∀ a, a ∈ addressesOf calls ↔ a ∈ listed C.world.db := by
      intro a
      obtain ⟨hp, v', hv'⟩ := h.answered i _ hi _ hv
      rw [hp.listed_eq, addressesOf_of_path hpath hv]
      exact mem_collect_addresses (addresses_of_succeeds hv'.1) a
    obtain ⟨row, hrow, hro⟩ := exists_new_row ha ho.1
    have hf : Finishes lib b calls (.ok ()) := by
      have hp : Prog.Always (Issues lib b) (Finishes lib b) [] (process lib rs network b fees lt) :=
        process_always b fees lt
      simpa using hp.path hpath
    obtain hnil | ⟨u, a, hu⟩ := hf.utxosStored rfl
    · rw [hnil] at hrow
      cases hrow
    · exact h.inserted i _ hi rs network b fees lt rfl u _ a hu row hrow o hro ho
  · exact absurd ho.1 (hn o)

/-- A block whose call is completed after the step was completed before, or its call ends now. -/
theorem completed_cases (hs : Tasks.Step (system lib .grows Scanning) C l C')
    {b : Bitcoin.Block} (hb : Completed C' b) :
    Completed C b ∨ ∃ i rs network fees lt calls, l = .finish i ∧ C'.world = C.world ∧
      C.running i = some ⟨.process rs network b fees lt, calls, .done (.ok ())⟩ := by
  obtain ⟨⟨j, calls, r⟩, he, rfl, rs, network, fees, lt, rfl⟩ := hb
  obtain he | ⟨i, hl, hi, hw⟩ := Tasks.ended_of_step hs he
  · exact .inl ⟨_, he, rfl, rs, network, fees, lt, rfl⟩
  · exact .inr ⟨i, rs, network, fees, lt, calls, hl, hw, hi⟩

section Preservation

variable (hlib : ParsesBack lib) (h : Kept C) (hk : RewriteCovers C l)
variable (hs : Tasks.Step (system lib .grows Scanning) C l C')
include h hs

theorem Kept.unspentOf {b : Bitcoin.Block} {o : OutPoint} (ho : UnspentOf C'.world b o) :
    UnspentOf C.world b o := by
  have hp := precedes_of_step h.coherent hs
  exact ⟨hp.listed_eq ▸ ho.1, fun hspent => ho.2 (hp.spent hspent)⟩

include hlib hk

/-- A row of an output of a block in the chain survives the step. -/
theorem Kept.hasRow {b : Bitcoin.Block} (hb : b ∈ C.world.node.chain.blocks) {o : OutPoint}
    (ho : UnspentOf C'.world b o) (hr : HasRow C.world.db o) : HasRow C'.world.db o := by
  have hb' := (precedes_of_step h.coherent hs).blocks_subset hb
  exact hasRow_step hlib h.coherent h.answered hk hs ⟨⟨b, hb', ho.1⟩, ho.2⟩ hr

theorem Kept.inserted_step {i : Thread}
    {t : Tasks.Task Daemon.signature (World lib) Job (Except Abort Unit)}
    (ht : C'.running i = some t) {rs : RandomState} {network : Network} {b : Bitcoin.Block}
    {fees : GetBlockTxFeesResult} {lt : List GetBlockTemplateResult}
    (hj : t.job = .process rs network b fees lt) {v : World lib} {utxos : List SanctionedUtxo}
    {a : Unit} (he : succeeded v (.insertSanctionedUtxos utxos) a ∈ t.trace) {row : SanctionedUtxo}
    (hrow : row ∈ utxos) {o : OutPoint} (hro : RowOf row o) (ho : UnspentOf C'.world b o) :
    HasRow C'.world.db o := by
  obtain ⟨j, rfl, -⟩ | hi | ⟨j, tr, c, k, r, hi, rfl, ha⟩ := Tasks.running_of_step hs ht
  · cases he
  · have hb := h.processing i t hi rs network b fees lt hj
    apply h.hasRow hlib hk hs hb ho
    exact h.inserted i t hi rs network b fees lt hj v utxos a he row hrow o hro (h.unspentOf hs ho)
  · have hb := h.processing i _ hi rs network b fees lt hj
    obtain he | he := List.mem_append.mp he
    · apply h.hasRow hlib hk hs hb ho
      exact h.inserted i _ hi rs network b fees lt hj v utxos a he row hrow o hro
        (h.unspentOf hs ho)
    · -- the rows are being inserted
      cases List.mem_singleton.mp he
      exact hasRow_of_inserted ha.1 hrow hro

theorem Kept.step (hl : ListLoaded C l) : Kept C' := by
  have hp := precedes_of_step h.coherent hs
  refine ⟨h.coherent.step hs, h.answered.step precedes_trans hs hp, ?_, ?_, ?_, ?_⟩
  · intro i t ht rs network b fees lt hj
    apply hp.blocks_subset
    obtain ⟨j, rfl, hw⟩ | hi | ⟨j, tr, c, k, r, hi, rfl, -⟩ := Tasks.running_of_step hs ht
    · obtain rfl : j = .process rs network b fees lt := hj
      cases i with
      | mainLoop => exact hw
      | utxoScan => exact hw.elim
      | retag => exact hw.elim
      | addressUpdater => exact hw.elim
      | reidentification => exact hw.elim
    · exact h.processing i t hi rs network b fees lt hj
    · exact h.processing i _ hi rs network b fees lt hj
  · intro i t ht rs network b fees lt hj v utxos a he row hrow o hro ho
    exact h.inserted_step hlib hk hs ht hj he hrow hro ho
  · intro b hb
    obtain hb | ⟨i, rs, network, fees, lt, calls, -, -, hi⟩ := completed_cases hs hb
    · exact hp.blocks_subset (h.completed b hb)
    · exact hp.blocks_subset (h.processing i _ hi rs network b fees lt rfl)
  · intro b o hb hpaid hspent
    obtain hb | ⟨i, rs, network, fees, lt, calls, rfl, hw, hi⟩ := completed_cases hs hb
    · have ho := h.unspentOf hs ⟨hpaid, hspent⟩
      exact h.hasRow hlib hk hs (h.completed b hb) ⟨hpaid, hspent⟩ (h.outputs b o hb ho.1 ho.2)
    · rw [hw] at hpaid hspent ⊢
      exact h.outputs_finish hl hi ⟨hpaid, hspent⟩

end Preservation

/-- When every rewriting of the table was scanned for late enough, and every completed call has
loaded the address list, no unspent output is lost. -/
theorem outputsKept_of_covers (hlib : ParsesBack lib) (ρ : ScanRun lib)
    (h : ∀ i < ρ.length, RewriteCovers (ρ.state i) (ρ.label i) ∧
      ListLoaded (ρ.state i) (ρ.label i)) :
    ∀ i ≤ ρ.length, OutputsKept (ρ.state i) := by
  intro i hi
  have hkept := ρ.invariant_of_condition (I := Kept)
    (C := fun C l => RewriteCovers C l ∧ ListLoaded C l) (fun _ => kept_of_idle)
    (fun _ _ _ hC hc hs => hC.step hlib hc.1 hs hc.2) h i hi
  exact hkept.outputs

theorem parsesBack_sample : ParsesBack sample := by
  intro script address h
  simp only [sample] at h ⊢
  split_ifs at h with h₁ h₂
  · cases h
    rw [if_pos rfl, h₁]
  · cases h
    rw [if_neg (by decide), if_pos rfl, h₂]

/-- A block on the first one that pays the listed address. -/
def payingBlock : Bitcoin.Block := sampleBlock 1 30 [coinbaseTx 130 listedScript]

def payingNode : Node sample :=
  nodeOf (by decide : IsActive sample [block₀, payingBlock] [payingBlock] block₀)

theorem payingNode_grows : chain₀.Grows payingNode :=
  ⟨List.subset_append_left _ _, [payingBlock], rfl⟩

def listedDb : Database :=
  { Database.empty with sanctionedAddresses := ⟨[⟨"listed"⟩], List.nodup_singleton _⟩ }

def payingCall : List (Event Daemon.signature (World sample)) × Except Abort Unit × World sample :=
  ((Job.process .inserted .bitcoin payingBlock (feesOf sample payingBlock)
    [templateOf chain₀]).prog sample).runWith (respond .healthy) ⟨listedDb, payingNode⟩

theorem exec_payingCall : Exec (Daemon.environment Drift.grows)
    ((Job.process .inserted .bitcoin payingBlock (feesOf sample payingBlock)
      [templateOf chain₀]).prog sample) ⟨listedDb, payingNode⟩
    payingCall.1 payingCall.2.1 payingCall.2.2 := by
  unfold payingCall
  exact exec_respond Drift.grows .healthy _ ⟨listedDb, payingNode⟩

theorem payingCall_ok : payingCall.2.1 = .ok () := by decide +kernel
theorem payingCall_addresses :
    payingCall.2.2.db.sanctionedAddresses = listedDb.sanctionedAddresses := rfl

def paidOutpoint : OutPoint := ⟨hashOfByte 130, 0⟩

theorem paidIn_payingBlock {db : Database}
    (h : db.sanctionedAddresses = listedDb.sanctionedAddresses) :
    PaidIn sample (listed db) payingBlock paidOutpoint := by
  refine ⟨_, List.mem_singleton_self _, rfl, _, rfl, "listed", ?_, rfl⟩
  simp [listed, h, listedDb, KeyedTable.Table.keys]

theorem not_spent_paidOutpoint : ¬ Spent payingNode.chain.blocks paidOutpoint := by decide

abbrev payingJob : Job := .process .inserted .bitcoin payingBlock (feesOf sample payingBlock)
  [templateOf chain₀]

/-- The main loop processes the paying block while the scan thread does not move. -/
theorem reaches_payingCall {P : Config sample → Label sample → Prop} {C : Config sample}
    (hP : ∀ C l, Tasks.OnPath .mainLoop payingJob payingCall.1 C l → P C l)
    (hend : ∀ C : Config sample,
      C.running .mainLoop = some ⟨payingJob, payingCall.1, .done (.ok ())⟩ →
        P C (.finish .mainLoop))
    (hi : C.running .mainLoop = none) (hw : C.world = ⟨listedDb, payingNode⟩) :
    Tasks.Reaches (system sample .grows Scanning) P C { C with
      world := payingCall.2.2
      ended := C.ended ++ [⟨payingJob, payingCall.1, .ok ()⟩] } := by
  have hj : Scanning .mainLoop payingJob C.world := by
    rw [hw]
    exact List.mem_cons_of_mem _ (List.mem_singleton_self _)
  have hx := exec_payingCall
  rw [payingCall_ok, ← hw] at hx
  exact Tasks.reaches_of_exec hP hend hi hj hx

theorem onPath_condition {C : Config sample} {l : Label sample}
    (h : Tasks.OnPath .mainLoop payingJob payingCall.1 C l) :
    RewriteCovers C l ∧ ListLoaded C l := by
  cases h with
  | start => exact ⟨fun _ hl => (by cases hl), fun _ hl => (by cases hl)⟩
  | drift => exact ⟨fun _ hl => (by cases hl), fun _ hl => (by cases hl)⟩
  | @call tr₁ tr₂ e rest htr _ _ =>
    refine ⟨fun i hl => ?_, fun _ hl => (by cases hl)⟩
    have hp : Prog.Always (Issues sample payingBlock) (Finishes sample payingBlock) []
        (payingJob.prog sample) := process_always _ _ _
    have hI : Issues sample payingBlock tr₁ e.call := hp.issued (htr ▸ exec_payingCall.path)
    unfold rewrites at hl
    split at hl
    · rename_i heq
      cases heq
      exact hI.elim
    · cases hl

theorem finish_condition {C : Config sample}
    (h : C.running .mainLoop = some ⟨payingJob, payingCall.1, .done (.ok ())⟩) :
    RewriteCovers C (.finish .mainLoop) ∧ ListLoaded C (.finish .mainLoop) := by
  refine ⟨fun _ hl => (by cases hl), fun i hi rs network b fees lt calls hr => .inl ?_⟩
  cases hi
  obtain rfl : payingCall.1 = calls := by
    rw [h] at hr
    cases hr
    rfl
  have hread : succeeded ⟨listedDb, payingNode⟩ .sanctionedAddresses
      listedDb.sanctionedAddresses ∈ payingCall.1 := List.mem_of_getElem? (i := 1) (by rfl)
  exact ⟨_, _, hread⟩

def scanRequests : List ScanTxOutRequest := descriptorsOf sample ["listed"]

def scanOf (n : Node sample) : ScanTxOutResult :=
  ⟨none, scanTxOutSet sample n.chain.blocks scanRequests, 0⟩

def scannedRows (n : Node sample) : List SanctionedUtxo := (scanOf n).unspents.map scannedUtxo

/-- The scan thread up to the insertion of the scan information, on the chain of `n`. -/
def scanReadings (n : Node sample) : Calls sample :=
  let w : World sample := ⟨listedDb, n⟩
  [⟨w, Call.poolGet, Except.ok ()⟩, succeeded w .sanctionedAddresses listedDb.sanctionedAddresses,
    ⟨w, Call.scanTxOutSetBlocking scanRequests, Except.ok (scanOf n)⟩,
    ⟨w, Call.elapsed, (0 : UInt64)⟩, ⟨w, Call.utcNow, (0 : NaiveDateTime)⟩]

theorem scanReadings_path (n : Node sample) : Path (scanSanctionedUtxos sample) (scanReadings n)
    (storeScan (scannedRows n) (scanInfo (scanOf n) 0 0)) :=
  .cons (.cons (.cons (.cons (.cons (.nil _)))))

theorem scanReadings_answers {n : Node sample} (h : n.Grows payingNode) :
    Answers (Daemon.environment Drift.grows) ⟨listedDb, n⟩ (scanReadings n)
      ⟨listedDb, payingNode⟩ := by
  have hd : (Daemon.environment (Drift.grows : Drift sample)).drift ⟨listedDb, n⟩
      ⟨listedDb, n⟩ := Drift.grows.refl _
  exact .cons hd rfl (.cons hd ⟨⟨7, _, rfl, .refl⟩, rfl⟩ (.cons hd ⟨List.Perm.refl _, rfl⟩
    (.cons hd rfl (.cons hd rfl (.nil ⟨rfl, h⟩)))))

theorem pre_of_mem_scanReadings {n : Node sample} {e : Event Daemon.signature (World sample)}
    (he : e ∈ scanReadings n) : e.pre = ⟨listedDb, n⟩ := by
  simp only [scanReadings, succeeded, List.mem_cons, List.not_mem_nil, or_false] at he
  obtain rfl | rfl | rfl | rfl | rfl := he <;> rfl

theorem rewrites_of_mem_scanReadings {n : Node sample} {i : Thread}
    {e : Event Daemon.signature (World sample)} (he : e ∈ scanReadings n) :
    rewrites (.call i e) = none := by
  simp only [scanReadings, succeeded, List.mem_cons, List.not_mem_nil, or_false] at he
  obtain rfl | rfl | rfl | rfl | rfl := he <;> rfl

def insertedScan (n : Node sample) (w : World sample) : Event Daemon.signature (World sample) :=
  succeeded w (.insertSanctionedUtxoScanInfo (scanInfo (scanOf n) 0 0)) ()

/-- The scan thread before its statement that rewrites the table. -/
def rewriting (n : Node sample) (w : World sample) :
    Tasks.Task Daemon.signature (World sample) Job (Except Abort Unit) :=
  ⟨.scanSanctionedUtxos, scanReadings n ++ [insertedScan n w],
    .call (.sql (.cleanAndInsertSanctionedUtxos (scannedRows n))) (fun _ => .done (.ok ()))⟩

/-- The world once the block is processed and the scan information inserted. -/
def scannedWorld (n : Node sample) : World sample :=
  { payingCall.2.2 with db := { payingCall.2.2.db with
      sanctionedUtxoScanInfo :=
        (payingCall.2.2.db.sanctionedUtxoScanInfo.insertNew [scanInfo (scanOf n) 0 0]).1 } }

/-- Where the paying block has been processed, and the scan thread is about to write what it found
on the chain of `n`. -/
def beforeRewrite (n : Node sample) : Config sample where
  world := scannedWorld n
  running := Function.update (fun _ => none) .utxoScan (some (rewriting n payingCall.2.2))
  ended := [⟨payingJob, payingCall.1, .ok ()⟩]

theorem running_beforeRewrite (n : Node sample) :
    (beforeRewrite n).running .utxoScan = some (rewriting n payingCall.2.2) := rfl

theorem completed_beforeRewrite (n : Node sample) : Completed (beforeRewrite n) payingBlock :=
  ⟨_, List.mem_singleton_self _, rfl, _, _, _, _, rfl⟩

theorem scanning_condition {n : Node sample} {C : Config sample} {l : Label sample}
    (h : Tasks.OnPath .utxoScan .scanSanctionedUtxos (scanReadings n) C l) :
    RewriteCovers C l ∧ ListLoaded C l := by
  cases h with
  | start => exact ⟨fun _ hl => (by cases hl), fun _ hl => (by cases hl)⟩
  | drift => exact ⟨fun _ hl => (by cases hl), fun _ hl => (by cases hl)⟩
  | @call pre post e rest htr _ _ =>
    refine ⟨fun i hl => ?_, fun _ hl => (by cases hl)⟩
    have he : e ∈ scanReadings n := htr ▸ List.mem_append_right _ List.mem_cons_self
    rw [rewrites_of_mem_scanReadings he] at hl
    cases hl

/-- The scan is taken on the chain of `n`, the block is processed, and then the scan information is
inserted. -/
theorem reaches_beforeRewrite {n : Node sample} (h : n.Grows payingNode) :
    Tasks.Reaches (system sample .grows Scanning) (fun C l => RewriteCovers C l ∧ ListLoaded C l)
      ⟨⟨listedDb, n⟩, fun _ => none, []⟩ (beforeRewrite n) := by
  let C₀ : Config sample := ⟨⟨listedDb, n⟩, fun _ => none, []⟩
  have h₁ := Tasks.reaches_of_start (Y := system sample .grows Scanning)
    (P := fun C l => RewriteCovers C l ∧ ListLoaded C l) (C := C₀) (i := .utxoScan)
    (j := .scanSanctionedUtxos) (fun _ _ => scanning_condition) rfl trivial (scanReadings_path n)
    (scanReadings_answers h)
  let t : Tasks.Task Daemon.signature (World sample) Job (Except Abort Unit) :=
    ⟨.scanSanctionedUtxos, scanReadings n, storeScan (scannedRows n) (scanInfo (scanOf n) 0 0)⟩
  let C₁ : Config sample :=
    ⟨⟨listedDb, payingNode⟩, Function.update C₀.running .utxoScan (some t), []⟩
  have h₂ := reaches_payingCall (C := C₁) (fun _ _ => onPath_condition)
    (fun _ => finish_condition) rfl rfl
  let C₂ : Config sample := { C₁ with
    world := payingCall.2.2, ended := [⟨payingJob, payingCall.1, .ok ()⟩] }
  have ha : (system sample .grows Scanning).env.answer C₂.world
      (.sql (.insertSanctionedUtxoScanInfo (scanInfo (scanOf n) 0 0)))
      (Except.ok () : Except DbError Unit) (scannedWorld n) := ⟨⟨7, (), rfl, rfl⟩, rfl⟩
  have hr : C₂.running .utxoScan = some t := Function.update_self Thread.utxoScan _ C₀.running
  have h₃ := Tasks.Step.call hr ha
  simp only [C₂, C₁, Function.update_idem] at h₃
  refine (h₁.trans h₂).tail ⟨_, h₃, fun _ hl => ?_, fun _ hl => ?_⟩ <;> cases hl

abbrev UtxoTable := KeyedTable.Table SanctionedUtxo (List UInt8 × Int32) (fun r => (r.txid, r.vout))

/-- The statement that rewrites the table succeeds. -/
theorem step_rewrite {n : Node sample} {t : UtxoTable}
    (h : KeyedTable.Table.empty.insert (scannedRows n) = some t) :
    ∃ C, Tasks.Step (system sample .grows Scanning) (beforeRewrite n)
      (.call .utxoScan (succeeded (scannedWorld n)
        (.cleanAndInsertSanctionedUtxos (scannedRows n)) ())) C ∧
      C.world.node = payingNode ∧ C.ended = (beforeRewrite n).ended ∧
        C.world.db = { (scannedWorld n).db with sanctionedUtxo := t } := by
  let w : World sample :=
    { scannedWorld n with db := { (scannedWorld n).db with sanctionedUtxo := t } }
  have hexec : (Statement.cleanAndInsertSanctionedUtxos (scannedRows n)).exec 7
      (scannedWorld n).db = .ok ((), w.db) :=
    Database.insertRows_eq_ok_iff.mpr ⟨fun _ _ => rfl, t, h, rfl⟩
  have ha : (system sample .grows Scanning).env.answer (scannedWorld n)
      (.sql (.cleanAndInsertSanctionedUtxos (scannedRows n)))
      (Except.ok () : Except DbError Unit) w := ⟨⟨7, (), hexec, rfl⟩, rfl⟩
  exact ⟨_, Tasks.Step.call (running_beforeRewrite n) ha, rfl, rfl, rfl⟩

/-- A scan of the chain with the block covers all that is rewritten. -/
theorem rewriteCovers_payingNode {e : Event Daemon.signature (World sample)} :
    RewriteCovers (beforeRewrite payingNode) (.call .utxoScan e) := by
  intro i hl t ht w descriptors result hw o ho hr
  have hi : i = .utxoScan := by
    unfold rewrites at hl
    split at hl
    · rename_i heq
      cases heq
      cases hl
      rfl
    · cases hl
  subst hi
  obtain rfl : rewriting payingNode payingCall.2.2 = t := Option.some.inj ht
  obtain hw | hw := List.mem_append.mp hw
  · obtain rfl : w = ⟨listedDb, payingNode⟩ := pre_of_mem_scanReadings hw
    exact ho.1
  · cases List.mem_singleton.mp hw

/-- The scan is taken when the block has arrived, and written after the block has been
processed. -/
theorem outputsKept_payingCall : ∃ ρ : ScanRun sample, Completed ρ.last payingBlock ∧
    (∃ i < ρ.length, rewrites (ρ.label i) = some .utxoScan) ∧
      ∀ i ≤ ρ.length, OutputsKept (ρ.state i) := by
  have h0 : Tasks.Idle (fun _ => True)
      (⟨⟨listedDb, payingNode⟩, fun _ => none, []⟩ : Config sample) :=
    ⟨trivial, fun _ => rfl, rfl⟩
  have hinsert : ((KeyedTable.Table.empty : UtxoTable).insert (scannedRows payingNode)).isSome := by
    decide +kernel
  obtain ⟨t, ht⟩ := Option.isSome_iff_exists.mp hinsert
  obtain ⟨C, hs, -, hended, -⟩ := step_rewrite ht
  have hreach := reaches_beforeRewrite (n := payingNode) ⟨fun _ hb => hb, List.prefix_refl _⟩
  obtain ⟨ρ, rfl, ⟨i, hi, hl⟩, hρ⟩ := Run.exists_last_step h0 hreach hs
    ⟨rewriteCovers_payingNode, fun _ hl => by cases hl⟩
  refine ⟨ρ, ?_, ⟨i, hi, by rw [hl]; rfl⟩, outputsKept_of_covers parsesBack_sample ρ hρ⟩
  unfold Completed
  rw [hended]
  exact completed_beforeRewrite payingNode

/-- The scan is taken before the block, and written after the block has been processed. -/
theorem outputsKept_fails :
    ¬ ∀ ρ : ScanRun sample, ∀ i ≤ ρ.length, OutputsKept (ρ.state i) := by
  intro h
  have h0 : Tasks.Idle (fun _ => True) (⟨⟨listedDb, chain₀⟩, fun _ => none, []⟩ : Config sample) :=
    ⟨trivial, fun _ => rfl, rfl⟩
  obtain ⟨C, hs, hnode, hended, hdb⟩ := step_rewrite (n := chain₀) rfl
  obtain ⟨ρ, i, hi, -, hi'⟩ := Run.exists_step h0 (reaches_beforeRewrite payingNode_grows) hs
  have hkept := h ρ (i + 1) hi
  rw [hi'] at hkept
  have hdone : Completed C payingBlock := by
    unfold Completed
    rw [hended]
    exact completed_beforeRewrite chain₀
  have haddr : C.world.db.sanctionedAddresses = listedDb.sanctionedAddresses := by
    rw [hdb]
    exact payingCall_addresses
  obtain ⟨row, hrow, -⟩ := hkept payingBlock paidOutpoint hdone (paidIn_payingBlock haddr)
    (hnode ▸ not_spent_paidOutpoint)
  rw [hdb] at hrow
  cases hrow

end MiningpoolObserver.UtxoScan
