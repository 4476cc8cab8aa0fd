import MiningpoolObserver.Process

namespace MiningpoolObserver.ProcessSpec

open MiningpoolObserver.Library.CallTree MiningpoolObserver.Library.HashCollections
open MiningpoolObserver.Bitcoin MiningpoolObserver.DaemonModel MiningpoolObserver.Db
open MiningpoolObserver.Daemon MiningpoolObserver.Process
open MiningpoolObserver.Processing.Sanctions MiningpoolObserver.Processing.Transactions
open MiningpoolObserver.Processing.Builders

variable {lib : Crates} {α β : Type}

abbrev Calls (lib : Crates) := List (Event Daemon.signature (World lib))

def succeeded (w : World lib) (s : Statement) (a : s.Result) :
    Event Daemon.signature (World lib) := ⟨w, Call.sql s, Except.ok a⟩

def failed (w : World lib) (s : Statement) (e : DbError) :
    Event Daemon.signature (World lib) := ⟨w, Call.sql s, Except.error e⟩

theorem succeeded_ne_failed (w w' : World lib) (s s' : Statement) (a : s.Result) (e : DbError) :
    succeeded w s a ≠ failed w' s' e := by
  intro h
  cases h

/-- The two reads that process can do without. -/
def Tolerated : Statement → Prop
  | .sanctionedAddresses | .getSanctionedUtxos => True
  | _ => False

/-- A failure after which process may return. -/
def Stops : (c : Daemon.Call) → Daemon.Reply c → Prop
  | .poolGet, .error _ => True
  | .sql s, .error _ => ¬ Tolerated s
  | _, _ => False

/-- The last call was a failed one. -/
def LastStops (tr : Calls lib) : Prop := ∃ e, tr.getLast? = some e ∧ Stops e.call e.reply

@[simp] theorem not_lastStops_nil : ¬ LastStops ([] : Calls lib) := by
  rintro ⟨e, he, -⟩
  cases he

@[simp] theorem lastStops_snoc {tr : Calls lib} {e : Event Daemon.signature (World lib)} :
    LastStops (tr ++ [e]) ↔ Stops e.call e.reply := by
  simp [LastStops]

/-- Nothing was written. -/
def Harmless (tr : Calls lib) : Prop := ∀ w s a, succeeded w s a ∈ tr → s.Reads

/-- The statement was executed with success. -/
def Stored (tr : Calls lib) (s : Statement) : Prop := ∃ w a, succeeded w s a ∈ tr

theorem Stored.append {tr : Calls lib} {s : Statement} (h : Stored tr s) (tr' : Calls lib) :
    Stored (tr ++ tr') s := by
  obtain ⟨w, a, hs⟩ := h
  exact ⟨w, a, List.mem_append_left _ hs⟩

theorem stored_snoc (tr : Calls lib) (w : World lib) (s : Statement) (a : s.Result) :
    Stored (tr ++ [succeeded w s a]) s :=
  ⟨w, a, List.mem_append_right _ List.mem_cons_self⟩

def BlockStored (tr : Calls lib) : Prop := ∃ b, Stored tr (.insertBlock b)

def readAddresses : Event Daemon.signature (World lib) → Option (HashSet String)
  | ⟨_, .sql .sanctionedAddresses, r⟩ => some (addressesOfReply r)
  | _ => none

def readUtxoMap : Event Daemon.signature (World lib) → Option UtxoMap
  | ⟨_, .sql .getSanctionedUtxos, r⟩ => some (utxoMapOfReply r)
  | _ => none

/-- The address list that the calls so far have loaded. -/
def addressesOf (tr : Calls lib) : HashSet String := (tr.findSome? readAddresses).getD HashSet.empty

def utxoMapOf (tr : Calls lib) : UtxoMap := (tr.findSome? readUtxoMap).getD HashMap.empty

/-- Both lists have been loaded. -/
structure Loaded (s : Sanctions) (tr : Calls lib) : Prop where
  addresses : tr.findSome? readAddresses = some s.addresses
  utxoMap : tr.findSome? readUtxoMap = some s.utxoMap

theorem Loaded.append {s : Sanctions} {tr : Calls lib} (h : Loaded s tr) (tr' : Calls lib) :
    Loaded s (tr ++ tr') where
  addresses := by simp [List.findSome?_append, h.addresses]
  utxoMap := by simp [List.findSome?_append, h.utxoMap]

theorem Loaded.addressesOf_eq {s : Sanctions} {tr : Calls lib} (h : Loaded s tr) :
    addressesOf tr = s.addresses := by
  simp [addressesOf, h.addresses]

theorem Loaded.utxoMapOf_eq {s : Sanctions} {tr : Calls lib} (h : Loaded s tr) :
    utxoMapOf tr = s.utxoMap := by
  simp [utxoMapOf, h.utxoMap]

/-- The last two groups of records, conflicts and UTXOs. -/
def Late : Statement → Prop
  | .insertConflictingTransactions _ | .insertSanctionedUtxos _ => True
  | _ => False

def NotLate (tr : Calls lib) : Prop := ∀ w s a, succeeded w s a ∈ tr → ¬ Late s

theorem Harmless.notLate {tr : Calls lib} (h : Harmless tr) : NotLate tr := by
  intro w s a hs hl
  have hr := h w s a hs
  cases s <;> first | exact hl.elim | exact hr.elim

variable (lib) in
/-- The rows of a block's new sanctioned outputs are in the table, or there are none. -/
def UtxosStored (block : Bitcoin.Block) (tr : Calls lib) : Prop :=
  buildNewlyCreatedSanctionedUtxos lib block (addressesOf tr) = [] ∨
    Stored tr (.insertSanctionedUtxos
      (buildNewlyCreatedSanctionedUtxos lib block (addressesOf tr)))

variable (lib) in
/-- Every record of a block was stored. -/
structure StoredAll (block : Bitcoin.Block) (tr : Calls lib) : Prop where
  blockRow : BlockStored tr
  transactions : ∃ txns, Stored tr (.insertTransactions txns)
  onlyInBlock : ∃ rows, Stored tr (.insertTransactionsOnlyInBlock rows)
  onlyInTemplate : ∃ rows, Stored tr (.insertTransactionsOnlyInTemplate rows)
  sanctionedInfos : ∃ rows, Stored tr (.insertSanctionedTransactionInfos rows)
  conflicting : ∃ rows, Stored tr (.insertConflictingTransactions rows)
  newUtxos : UtxosStored lib block tr

/-- The last call was the insertion of the debug records, and it failed. -/
def DebugFailed (tr : Calls lib) : Prop :=
  ∃ w infos e, tr.getLast? = some (failed w (.insertDebugTemplateSelectionInfos infos) e)

def debugFails : Event Daemon.signature (World lib) → Bool
  | ⟨_, .sql (.insertDebugTemplateSelectionInfos _), .error _⟩ => true
  | _ => false

theorem debugFailed_iff {tr : Calls lib} :
    DebugFailed tr ↔ ∃ e ∈ tr.getLast?, debugFails e = true := by
  constructor
  · rintro ⟨w, infos, err, he⟩
    exact ⟨_, he, rfl⟩
  · rintro ⟨⟨w, c, r⟩, he, hd⟩
    unfold debugFails at hd
    split at hd
    · rename_i heq
      exact ⟨_, _, _, heq ▸ he⟩
    · cases hd

instance {tr : Calls lib} : Decidable (DebugFailed tr) := decidable_of_iff' _ debugFailed_iff

variable (lib) in
/-- The block row is that of the block, with its sanctioned transactions counted by what the
calls so far have loaded. -/
structure RowFor (block : Bitcoin.Block) (tr : Calls lib) (b : SharedModel.NewBlock) : Prop where
  loaded : ∃ s, Loaded s tr
  hash : b.hash = (hashOf lib block).reversed
  blockSanctioned : b.blockSanctioned = Int32.ofNat (block.txdata.countP
    (fun tx => isTxSanctioned lib tx (utxoMapOf tr) (addressesOf tr)))

variable (lib) in
/-- What process may ask for after the calls `tr`. -/
def Issues (block : Bitcoin.Block) (tr : Calls lib) : Daemon.Call → Prop
  | .sql (.insertBlock b) => RowFor lib block tr b ∧ Harmless tr
  | .sql .sanctionedAddresses => tr.findSome? readAddresses = none
  | .sql .getSanctionedUtxos => tr.findSome? readUtxoMap = none
  | .sql (.insertSanctionedUtxos utxos) =>
    utxos = buildNewlyCreatedSanctionedUtxos lib block (addressesOf tr)
  | .sql (.insertDebugTemplateSelectionInfos _) => StoredAll lib block tr
  | .sql (.cleanAndInsertSanctionedUtxos _) => False
  | .sql (.insertSanctionedUtxoScanInfo _) => False
  | .sql (.replaceSanctionedAddresses _) => False
  | .sql .allTransactions => False
  | .getRawTransaction _ => False
  | .scanTxOutSetBlocking _ => False
  | .httpGet => False
  | _ => True

variable (lib) in
/-- How a call of process ends. -/
structure Finishes (block : Bitcoin.Block) (tr : Calls lib) (r : Except Abort Unit) : Prop where
  returned : r = .error .returned ↔ LastStops tr
  stored : r = .ok () → BlockStored tr
  unwritten : BlockStored tr ∨ Harmless tr
  utxosStored : r = .ok () → UtxosStored lib block tr
  debugFailed : StoredAll lib block tr → r = .ok () ∨ DebugFailed tr

section Rules

variable {I : Calls lib → Daemon.Call → Prop} {D : Calls lib → Except Abort α → Prop}
variable {tr : Calls lib}

theorem always_orPanic {x : Except Panic α} (hok : ∀ a, x = .ok a → D tr (.ok a))
    (he : ∀ p, D tr (.error (.panicked p))) : Prog.Always I D tr (orPanic x) := by
  cases hx : x with
  | ok a => exact hok a hx
  | error p => exact he p

theorem always_orReturn {s : Statement} {D : Calls lib → Except Abort s.Result → Prop}
    (hc : I tr (.sql s)) (hok : ∀ w a, D (tr ++ [succeeded w s a]) (.ok a))
    (he : ∀ w e, D (tr ++ [failed w s e]) (.error .returned)) :
    Prog.Always I D tr (orReturn s) := by
  refine ⟨hc, fun w r => ?_⟩
  cases r with
  | ok a => exact hok w a
  | error e => exact he w e

end Rules

/-- A call that ends before the last two groups of records. -/
structure AbortsEarly (tr : Calls lib) (e : Abort) : Prop where
  returned : e = .returned ↔ LastStops tr
  unwritten : BlockStored tr ∨ Harmless tr
  notLate : NotLate tr

theorem AbortsEarly.finishes {block : Bitcoin.Block} {tr : Calls lib} {e : Abort}
    (h : AbortsEarly tr e) : Finishes lib block tr (.error e) where
  returned := by simpa using h.returned
  stored hr := by cases hr
  unwritten := h.unwritten
  utxosStored hr := by cases hr
  debugFailed hs := by
    obtain ⟨rows, w, a, hc⟩ := hs.conflicting
    exact absurd trivial (h.notLate _ _ _ hc)

/-- A part goes on with a post-condition, or ends the call early. -/
def Yields (Post : Calls lib → α → Prop) (tr : Calls lib) : Except Abort α → Prop
  | .ok a => Post tr a
  | .error e => AbortsEarly tr e

/-- Before the block row is inserted. -/
structure Loading (tr : Calls lib) : Prop where
  alive : ¬ LastStops tr
  harmless : Harmless tr

theorem Loading.panics {tr : Calls lib} (h : Loading tr) (p : Panic) :
    AbortsEarly tr (.panicked p) where
  returned := iff_of_false (fun he => by cases he) h.alive
  unwritten := .inr h.harmless
  notLate := h.harmless.notLate

theorem Harmless.snoc {tr : Calls lib} (h : Harmless tr)
    {e : Event Daemon.signature (World lib)} (he : ∀ w s a, e = succeeded w s a → s.Reads) :
    Harmless (tr ++ [e]) := by
  intro w s a hs
  obtain hs | hs := List.mem_append.mp hs
  · exact h w s a hs
  · exact he w s a (List.mem_singleton.mp hs).symm

theorem NotLate.snoc {tr : Calls lib} (h : NotLate tr)
    {e : Event Daemon.signature (World lib)} (he : ∀ w s a, e = succeeded w s a → ¬ Late s) :
    NotLate (tr ++ [e]) := by
  intro w s a hs
  obtain hs | hs := List.mem_append.mp hs
  · exact h w s a hs
  · exact he w s a (List.mem_singleton.mp hs).symm

theorem BlockStored.append {tr : Calls lib} (h : BlockStored tr) (tr' : Calls lib) :
    BlockStored (tr ++ tr') := by
  obtain ⟨b, hb⟩ := h
  exact ⟨b, hb.append tr'⟩

theorem not_succeeded_of_call {w w' : World lib} {c : Daemon.Call} {r : Daemon.Reply c}
    {P : Statement → Prop} (hc : ∀ s, c ≠ .sql s) (s : Statement) (a : s.Result)
    (he : (⟨w, c, r⟩ : Event Daemon.signature (World lib)) = succeeded w' s a) : P s := by
  have h : c = Call.sql s := congrArg Event.call he
  exact absurd h (hc s)

theorem succeeded_of_sql {w w' : World lib} {st : Statement} {r : Daemon.Reply (.sql st)}
    {P : Statement → Prop} (h : P st) (s : Statement) (a : s.Result)
    (he : (⟨w, Call.sql st, r⟩ : Event Daemon.signature (World lib)) = succeeded w' s a) : P s := by
  have hst : Call.sql st = Call.sql s := congrArg Event.call he
  cases hst
  exact h

/-- After the block row, before conflicts and UTXOs, with the statements that succeeded. -/
structure Recorded (s : Sanctions) (ws : List Statement) (tr : Calls lib) : Prop where
  alive : ¬ LastStops tr
  blockRow : BlockStored tr
  stored : ∀ st ∈ ws, Stored tr st
  loaded : Loaded s tr
  notLate : NotLate tr

theorem Recorded.snoc {s : Sanctions} {ws : List Statement} {tr : Calls lib}
    (h : Recorded s ws tr) {e : Event Daemon.signature (World lib)}
    (hs : ¬ Stops e.call e.reply) (he : ∀ w s a, e = succeeded w s a → ¬ Late s) :
    Recorded s ws (tr ++ [e]) where
  alive := by simpa using hs
  blockRow := h.blockRow.append _
  stored st hst := (h.stored st hst).append _
  loaded := h.loaded.append _
  notLate := h.notLate.snoc he

/-- A statement that succeeds joins the others. -/
theorem Recorded.write {s : Sanctions} {ws : List Statement} {tr : Calls lib}
    (h : Recorded s ws tr) (w : World lib) {st : Statement} (a : st.Result) (hl : ¬ Late st) :
    Recorded s (st :: ws) (tr ++ [succeeded w st a]) := by
  have hr := h.snoc (e := succeeded w st a) (fun hs => hs) (fun _ => succeeded_of_sql hl)
  refine ⟨hr.alive, hr.blockRow, fun st' hst => ?_, hr.loaded, hr.notLate⟩
  obtain rfl | hst := List.mem_cons.mp hst
  · exact stored_snoc tr w st' a
  · exact hr.stored st' hst

theorem Recorded.panics {s : Sanctions} {ws : List Statement} {tr : Calls lib}
    (h : Recorded s ws tr) (p : Panic) : AbortsEarly tr (.panicked p) where
  returned := iff_of_false (fun he => by cases he) h.alive
  unwritten := .inl h.blockRow
  notLate := h.notLate

theorem Recorded.returns {s : Sanctions} {ws : List Statement} {tr : Calls lib}
    (h : Recorded s ws tr) {w : World lib} (st : Statement) (ht : ¬ Tolerated st) (e : DbError) :
    AbortsEarly (tr ++ [failed w st e]) .returned where
  returned := iff_of_true rfl (lastStops_snoc.mpr ht)
  unwritten := .inl (h.blockRow.append _)
  notLate := h.notLate.snoc (fun _ _ _ he => by cases he)

theorem Loading.snoc {tr : Calls lib} (h : Loading tr)
    {e : Event Daemon.signature (World lib)} (hs : ¬ Stops e.call e.reply)
    (he : ∀ w s a, e = succeeded w s a → s.Reads) : Loading (tr ++ [e]) where
  alive := by simpa using hs
  harmless := h.harmless.snoc he

theorem Loading.returns {tr : Calls lib} (h : Loading tr)
    {e : Event Daemon.signature (World lib)} (hs : Stops e.call e.reply)
    (he : ∀ w s a, e = succeeded w s a → s.Reads) : AbortsEarly (tr ++ [e]) .returned where
  returned := iff_of_true rfl (lastStops_snoc.mpr hs)
  unwritten := .inr (h.harmless.snoc he)
  notLate := (h.harmless.snoc he).notLate

theorem UtxosStored.append {block : Bitcoin.Block} {tr : Calls lib} {s : Sanctions}
    (hl : Loaded s tr) (h : UtxosStored lib block tr) (tr' : Calls lib) :
    UtxosStored lib block (tr ++ tr') := by
  have he : addressesOf (tr ++ tr') = addressesOf tr := by
    rw [(hl.append tr').addressesOf_eq, hl.addressesOf_eq]
  unfold UtxosStored
  rw [he]
  obtain h | h := h
  · exact .inl h
  · exact .inr (h.append tr')

theorem loading_nil : Loading ([] : Calls lib) := ⟨not_lastStops_nil, fun _ _ _ h => by cases h⟩

section Parts

variable {block : Bitcoin.Block} {s : Sanctions} {tr : Calls lib}
variable {rs : RandomState} {network : Network}

/-- Neither list has been loaded. -/
def Fresh (tr : Calls lib) : Prop :=
  tr.findSome? readAddresses = none ∧ tr.findSome? readUtxoMap = none

theorem getConnection_always : Prog.Always (Issues lib block)
    (Yields (fun tr (_ : Unit) => Loading tr ∧ Fresh tr)) [] getConnection := by
  refine ⟨trivial, fun w r => ?_⟩
  have hn : ∀ (w : World lib) (r : Daemon.Reply .poolGet) (v : World lib) (st : Statement)
      (a : st.Result), (⟨w, Call.poolGet, r⟩ : Event Daemon.signature (World lib)) =
        succeeded v st a → st.Reads :=
    fun _ _ _ => not_succeeded_of_call (fun _ hc => by cases hc)
  cases r with
  | ok u => exact ⟨loading_nil.snoc (fun h => h) (hn w _), rfl, rfl⟩
  | error e =>
    have h₁ : Harmless ([] ++ [(⟨w, Call.poolGet, Except.error e⟩ : Event _ (World lib))]) :=
      loading_nil.harmless.snoc (hn w _)
    refine ⟨trivial, fun w' r' => ?_⟩
    cases r' with
    | ok u =>
      refine ⟨⟨?_, h₁.snoc (hn w' _)⟩, rfl, rfl⟩
      exact fun h => lastStops_snoc.mp h
    | error e' =>
      refine ⟨iff_of_true rfl (lastStops_snoc.mpr trivial), .inr (h₁.snoc (hn w' _)), ?_⟩
      exact (h₁.snoc (hn w' _)).notLate

theorem loadSanctions_always (h : Loading tr) (hf : Fresh tr) : Prog.Always (Issues lib block)
    (Yields (fun tr s => Loading tr ∧ Loaded s tr)) tr loadSanctions := by
  have hu : ∀ (w : World lib) (a : Daemon.Reply (.sql .sanctionedAddresses)),
      (tr ++ [(⟨w, Call.sql .sanctionedAddresses, a⟩ : Event _ _)]).findSome? readUtxoMap =
        none := by
    intro w a
    rw [List.findSome?_append, hf.2]
    rfl
  refine ⟨hf.1, fun w a => ⟨hu w a, fun w' u => ?_⟩⟩
  have ha : Loading (tr ++ [⟨w, Call.sql .sanctionedAddresses, a⟩]) := by
    refine h.snoc ?_ (fun _ => succeeded_of_sql trivial)
    cases a with
    | ok t => exact fun hs => hs
    | error e => exact fun hs => hs trivial
  refine ⟨ha.snoc ?_ (fun _ => succeeded_of_sql trivial), ?_, ?_⟩
  · cases u with
    | ok t => exact fun hs => hs
    | error e => exact fun hs => hs trivial
  · rw [List.append_assoc, List.findSome?_append, hf.1]
    rfl
  · rw [List.append_assoc, List.findSome?_append, hf.2]
    rfl

theorem rowFor_buildBlock {template : GetBlockTemplateResult}
    {templateMap : HashMap Txid TxInfo} {n : BlockNumbers} {pools : List Pool}
    {now : NaiveDateTime} {b : SharedModel.NewBlock} (hl : Loaded s tr)
    (h : buildBlock lib block template templateMap n s.utxoMap s.addresses pools network now =
      .ok b) : RowFor lib block tr b := by
  have hrow := rowOf_buildBlock h
  refine ⟨⟨s, hl⟩, hrow.hash, ?_⟩
  rw [hl.addressesOf_eq, hl.utxoMapOf_eq, hrow.blockSanctioned]

theorem recordBlock_always {fees : GetBlockTxFeesResult} {c : Comparison} (h : Loading tr)
    (hl : Loaded s tr) : Prog.Always (Issues lib block)
      (Yields (fun tr _ => ∃ b, Recorded s [.insertBlock b] tr)) tr
      (recordBlock lib network block fees c s) := by
  refine Prog.Always.andThen (D := Yields (fun tr' _ => tr' = tr)) ?_ ?_ (fun _ _ he => he)
  · exact always_orPanic (fun _ _ => rfl) (fun p => h.panics p)
  · rintro _ missing rfl
    refine ⟨trivial, fun w pools => ⟨trivial, fun w' now => ?_⟩⟩
    have h₁ := h.snoc (e := ⟨w, Call.lockPools, pools⟩) (fun hs => hs)
      (fun _ => not_succeeded_of_call (fun _ hc => by cases hc))
    have h₂ := h₁.snoc (e := ⟨w', Call.utcNow, now⟩) (fun hs => hs)
      (fun _ => not_succeeded_of_call (fun _ hc => by cases hc))
    refine Prog.Always.andThen (D := Yields (fun tr' b =>
      Loading tr' ∧ Loaded s tr' ∧ RowFor lib block tr' b)) ?_ ?_ (fun _ _ he => he)
    · have hl₂ := (hl.append [⟨w, Call.lockPools, pools⟩]).append [⟨w', Call.utcNow, now⟩]
      exact always_orPanic (fun b hb => ⟨h₂, hl₂, rowFor_buildBlock hl₂ hb⟩) (fun p => h₂.panics p)
    · rintro tr' b ⟨h₃, hl₃, hb⟩
      refine always_orReturn ⟨hb, h₃.harmless⟩ (fun v id => ?_) (fun v e => ?_)
      · have hb' := stored_snoc tr' v (.insertBlock b) id
        refine ⟨b, fun hs => lastStops_snoc.mp hs, ⟨b, hb'⟩, fun st hst => ?_, hl₃.append _, ?_⟩
        · rw [List.mem_singleton.mp hst]
          exact hb'
        · exact h₃.harmless.notLate.snoc (fun _ => succeeded_of_sql (fun hl => hl))
      · exact h₃.returns (fun ht => ht) (fun _ _ _ he => by cases he)

variable {ws : List Statement}

theorem mempoolAges_always {now : Int64} (txids : List Txid) (ages : HashMap Txid Int32)
    (h : Recorded s ws tr) : Prog.Always (Issues lib block) (fun tr _ => Recorded s ws tr) tr
      (mempoolAges now txids ages) := by
  induction txids generalizing tr ages with
  | nil => exact h
  | cons txid txids ih =>
    refine ⟨trivial, fun w r => ?_⟩
    have hr := h.snoc (e := ⟨w, Call.getMempoolEntry txid, r⟩) (fun hs => hs)
      (fun _ => not_succeeded_of_call (fun _ hc => by cases hc))
    cases r with
    | ok time => exact ih _ hr
    | error e => exact ih _ hr

theorem buildRecords_always {blockId : Int64} {c : Comparison}
    {lt : List GetBlockTemplateResult} (h : Recorded s ws tr) :
    Prog.Always (Issues lib block) (Yields (fun tr _ => Recorded s ws tr)) tr
      (buildRecords lib rs blockId c s lt) := by
  refine Prog.Always.andThen (D := Yields (fun tr _ => Recorded s ws tr)) ?_ ?_ (fun _ _ he => he)
  · exact always_orPanic (fun _ _ => h) (fun p => h.panics p)
  · intro tr' conflicting h'
    refine Prog.Always.bind (D := fun tr _ => Recorded s ws tr) ?_ ?_
    · refine ⟨trivial, fun w now => mempoolAges_always _ _ ?_⟩
      exact Recorded.snoc h' (fun hs => hs)
        (fun _ => not_succeeded_of_call (fun _ hc => by cases hc))
    · exact fun tr'' ages h'' => always_orPanic (fun _ _ => h'') (fun p => h''.panics p)

/-- A statement that ends the call when it fails, between the block row and the conflicts. -/
theorem Recorded.orReturn_always (h : Recorded s ws tr) (st : Statement)
    (hi : Issues lib block tr (.sql st)) (ht : ¬ Tolerated st) (hl : ¬ Late st) :
    Prog.Always (Issues lib block) (Yields (fun tr _ => Recorded s (st :: ws) tr)) tr
      (orReturn st) :=
  always_orReturn hi (fun w a => h.write w a hl) (fun _ e => h.returns st ht e)

theorem Recorded.execute_always (h : Recorded s ws tr) (st : Statement)
    (hi : Issues lib block tr (.sql st)) (ht : ¬ Tolerated st) (hl : ¬ Late st) :
    Prog.Always (Issues lib block)
      (fun tr r => Yields (fun tr _ => Recorded s (st :: ws) tr) tr (returnOnError r))
      tr (execute st) := by
  refine ⟨hi, fun w r => ?_⟩
  cases r with
  | ok a => exact h.write w a hl
  | error e => exact h.returns st ht e

theorem Recorded.tail {st : Statement} (h : Recorded s (st :: ws) tr) : Recorded s ws tr where
  alive := h.alive
  blockRow := h.blockRow
  stored st' hst := h.stored st' (List.mem_cons_of_mem _ hst)
  loaded := h.loaded
  notLate := h.notLate

theorem mergeInto_always (tx : SharedModel.Transaction) (dbTxTags : List Int)
    (h : Recorded s ws tr) : Prog.Always (Issues lib block)
      (fun tr r => Yields (fun tr _ => Recorded s ws tr) tr (returnOnError r)) tr
      (mergeInto tx dbTxTags) := by
  unfold mergeInto
  by_cases hne : dbTxTags ≠ tx.tags
  · rw [if_pos hne]
    refine (h.execute_always (.updateTransactionTags (unionTags dbTxTags tx.tags) tx.txid) trivial
      (fun ht => ht) (fun hl => hl)).mono (fun _ _ hi => hi) (fun tr' r hr => ?_)
    cases r with
    | ok a => exact hr.tail
    | error e => exact hr
  · rw [if_neg hne]
    exact h

theorem mergeTags_always (inserted : HashSet (List UInt8)) (txns : List SharedModel.Transaction)
    (h : Recorded s ws tr) : Prog.Always (Issues lib block)
      (fun tr r => Yields (fun tr _ => Recorded s ws tr) tr (returnOnError r)) tr
      (mergeTags inserted txns) := by
  induction txns generalizing tr with
  | nil => exact h
  | cons tx txns ih =>
    rw [mergeTags]
    by_cases hi : tx.txid ∈ inserted
    · rw [if_pos hi]
      exact ih h
    · rw [if_neg hi]
      refine (h.execute_always (.selectTransactionTags tx.txid) trivial (fun ht => ht)
        (fun hl => hl)).andThen ?_ (fun _ _ he => he)
      intro tr₁ dbTxTags h₁
      refine (mergeInto_always tx dbTxTags h₁.tail).andThen ?_ (fun _ _ he => he)
      exact fun tr₂ _ h₂ => ih h₂

theorem insertTransactions_always (txns : List SharedModel.Transaction) (h : Recorded s ws tr) :
    Prog.Always (Issues lib block)
      (fun tr r => Yields (fun tr _ => Recorded s (.insertTransactions txns :: ws) tr) tr
        (returnOnError r)) tr
      (insertTransactions txns) := by
  refine (h.execute_always (.insertTransactions txns) trivial (fun ht => ht)
    (fun hl => hl)).andThen ?_ (fun _ _ he => he)
  intro tr₁ insertedTxids h₁
  dsimp only
  split_ifs
  · exact mergeTags_always _ _ h₁
  · exact h₁

/-- After the conflicts. The UTXOs have not been inserted. -/
structure Detailed (s : Sanctions) (ws : List Statement) (tr : Calls lib) : Prop where
  blockRow : BlockStored tr
  stored : ∀ st ∈ ws, Stored tr st
  loaded : Loaded s tr
  noUtxos : ∀ utxos, ¬ Stored tr (.insertSanctionedUtxos utxos)

/-- Only the debug records are left. -/
structure Complete (block : Bitcoin.Block) (s : Sanctions) (ws : List Statement)
    (tr : Calls lib) : Prop where
  blockRow : BlockStored tr
  stored : ∀ st ∈ ws, Stored tr st
  loaded : Loaded s tr
  utxosStored : UtxosStored lib block tr

/-- How the last two parts end. -/
def Concludes (block : Bitcoin.Block) (Post : Calls lib → Prop) (tr : Calls lib) :
    Except Abort Unit → Prop
  | .ok () => Post tr
  | .error e => Finishes lib block tr (.error e)

theorem storeConflicts_always {rows : List SharedModel.ConflictingTransaction}
    (h : Recorded s ws tr) : Prog.Always (Issues lib block)
      (fun tr (r : Except Abort Unit) =>
        Concludes block (Detailed s (.insertConflictingTransactions rows :: ws)) tr r) tr
      (orReturn (.insertConflictingTransactions rows)) := by
  refine always_orReturn trivial (fun w a => ?_) (fun w e => ?_)
  · refine ⟨h.blockRow.append _, fun st hst => ?_, h.loaded.append _, ?_⟩
    · obtain rfl | hst := List.mem_cons.mp hst
      · exact stored_snoc tr w (.insertConflictingTransactions rows) a
      · exact (h.stored st hst).append _
    · rintro utxos ⟨v, u, hu⟩
      obtain hu | hu := List.mem_append.mp hu
      · exact h.notLate _ _ _ hu trivial
      · have hc := congrArg Event.call (List.mem_singleton.mp hu)
        cases hc
  · exact (h.returns (.insertConflictingTransactions rows) (fun ht => ht) e).finishes

theorem recordNewUtxos_always (h : Detailed s ws tr) : Prog.Always (Issues lib block)
    (Concludes block (Complete block s ws)) tr
      (recordNewUtxos (buildNewlyCreatedSanctionedUtxos lib block s.addresses)) := by
  have ha := h.loaded.addressesOf_eq
  unfold recordNewUtxos
  cases hu : buildNewlyCreatedSanctionedUtxos lib block s.addresses with
  | nil => exact ⟨h.blockRow, h.stored, h.loaded, .inl (ha ▸ hu)⟩
  | cons utxo utxos =>
    rw [← hu, if_neg (fun hn => by rw [hu] at hn; cases hn)]
    refine always_orReturn (by rw [Issues, ha]) (fun w a => ?_) (fun w e => ?_)
    · refine ⟨h.blockRow.append _, fun st hst => (h.stored st hst).append _, h.loaded.append _,
        .inr ?_⟩
      rw [(h.loaded.append _).addressesOf_eq]
      exact stored_snoc tr w _ a
    · have hl := (h.loaded.append [failed w (.insertSanctionedUtxos
        (buildNewlyCreatedSanctionedUtxos lib block s.addresses)) e]).addressesOf_eq
      refine ⟨iff_of_true rfl (lastStops_snoc.mpr (fun ht => ht)), (fun hr => by cases hr),
        .inl (h.blockRow.append _), (fun hr => by cases hr), fun hall => ?_⟩
      obtain hn | ⟨v, b, hv⟩ := hall.newUtxos
      · rw [hl, hu] at hn
        cases hn
      · obtain hv | hv := List.mem_append.mp hv
        · exact absurd ⟨v, b, hv⟩ (h.noUtxos _)
        · exact (succeeded_ne_failed _ _ _ _ _ _ (List.mem_singleton.mp hv)).elim

theorem storeDebug_always {infos : List SharedModel.DebugTemplateSelectionInfo}
    (h : StoredAll lib block tr) (hl : Loaded s tr) : Prog.Always (Issues lib block)
      (fun tr (r : Except Abort Unit) => Finishes lib block tr r) tr
      (orReturn (.insertDebugTemplateSelectionInfos infos)) := by
  refine always_orReturn h (fun w a => ?_) (fun w e => ?_)
  · refine ⟨iff_of_false (fun hr => by cases hr) (fun hs => lastStops_snoc.mp hs),
      fun _ => h.blockRow.append _, .inl (h.blockRow.append _), fun _ => ?_, fun _ => .inl rfl⟩
    exact h.newUtxos.append hl _
  · exact ⟨iff_of_true rfl (lastStops_snoc.mpr (fun ht => ht)), (fun hr => by cases hr),
      .inl (h.blockRow.append _), (fun hr => by cases hr), fun _ => .inr ⟨w, infos, e, by simp⟩⟩

theorem storeRecords_always {r : Records} (h : Recorded s ws tr) :
    Prog.Always (Issues lib block) (Finishes lib block) tr
      (storeRecords rs r (buildNewlyCreatedSanctionedUtxos lib block s.addresses)) := by
  have hE : ∀ {ws : List Statement} (tr' : Calls lib) (e : Abort),
      Yields (fun tr (_ : Unit) => Recorded s ws tr) tr' (.error e) →
        Finishes lib block tr' (.error e) := fun _ _ he => AbortsEarly.finishes he
  refine Prog.Always.andThen
    (D := Yields (fun tr _ => Recorded s (.insertTransactions (r.transactions.values rs) :: ws) tr))
    ((insertTransactions_always _ h).bind (fun _ _ hr => hr)) ?_ hE
  intro tr₁ _ h₁
  refine (Recorded.orReturn_always h₁ (.insertTransactionsOnlyInBlock r.onlyInBlock) trivial
    (fun ht => ht) (fun hl => hl)).andThen ?_ hE
  intro tr₂ _ h₂
  refine (Recorded.orReturn_always h₂ (.insertTransactionsOnlyInTemplate r.onlyInTemplate) trivial
    (fun ht => ht) (fun hl => hl)).andThen ?_ hE
  intro tr₃ _ h₃
  refine (Recorded.orReturn_always h₃ (.insertSanctionedTransactionInfos r.sanctionedInfos) trivial
    (fun ht => ht) (fun hl => hl)).andThen ?_ hE
  intro tr₄ _ h₄
  refine (storeConflicts_always h₄).andThen ?_ (fun _ _ he => he)
  intro tr₅ _ h₅
  refine (recordNewUtxos_always h₅).andThen ?_ (fun _ _ he => he)
  intro tr₆ _ h₆
  have h₆ : Complete block s _ tr₆ := h₆
  refine storeDebug_always ?_ h₆.loaded
  exact
    { blockRow := h₆.blockRow
      transactions := ⟨r.transactions.values rs, h₆.stored _ (by simp)⟩
      onlyInBlock := ⟨r.onlyInBlock, h₆.stored _ (by simp)⟩
      onlyInTemplate := ⟨r.onlyInTemplate, h₆.stored _ (by simp)⟩
      sanctionedInfos := ⟨r.sanctionedInfos, h₆.stored _ (by simp)⟩
      conflicting := ⟨r.conflicting, h₆.stored _ (by simp)⟩
      newUtxos := h₆.utxosStored }

/-- The spec of process: what it asks for, and how it ends. -/
theorem process_always (block : Bitcoin.Block) (fees : GetBlockTxFeesResult)
    (lt : List GetBlockTemplateResult) : Prog.Always (Issues lib block) (Finishes lib block) []
      (process lib rs network block fees lt) := by
  have hE : ∀ {α : Type} {Post : Calls lib → α → Prop} (tr' : Calls lib) (e : Abort),
      Yields Post tr' (.error e) → Finishes lib block tr' (.error e) :=
    fun _ _ he => AbortsEarly.finishes he
  refine Prog.Always.andThen (D := Yields (fun tr _ => tr = [])) ?_ ?_ hE
  · exact always_orPanic (fun _ _ => rfl) (fun p => loading_nil.panics p)
  · rintro _ c rfl
    refine getConnection_always.andThen (fun tr₁ _ h₁ => ?_) hE
    refine (loadSanctions_always h₁.1 h₁.2).andThen (fun tr₂ s h₂ => ?_) hE
    refine (recordBlock_always h₂.1 h₂.2).andThen (fun tr₃ blockId h₃ => ?_) hE
    obtain ⟨b, h₃⟩ := h₃
    refine (buildRecords_always h₃).andThen (fun tr₄ r h₄ => ?_) hE
    exact storeRecords_always h₄

end Parts

section Executions

variable {D : Drift lib} {rs : RandomState} {network : Network} {block : Bitcoin.Block}
variable {fees : GetBlockTxFeesResult} {lt : List GetBlockTemplateResult}
variable {w w' : World lib} {calls : Calls lib} {r : Except Abort Unit}

/-- A call of process that ran among the other threads ended in one of these ways. -/
theorem process_finishes
    (h : Exec (Daemon.environment D) (process lib rs network block fees lt) w calls r w') :
    Finishes lib block calls r :=
  h.always (process_always block fees lt)

/-- The debug records come last: when their insertion fails, the rest has been stored. -/
theorem storedAll_of_debugFailed
    (h : Exec (Daemon.environment D) (process lib rs network block fees lt) w calls r w')
    (hd : DebugFailed calls) : StoredAll lib block calls := by
  obtain ⟨v, infos, e, he⟩ := hd
  obtain ⟨tr, rfl⟩ := List.getLast?_eq_some_iff.mp he
  have hp : Prog.Always (Issues lib block) (Finishes lib block) []
      (process lib rs network block fees lt) := process_always block fees lt
  have hs : StoredAll lib block tr := by simpa [Issues, failed] using hp.issued h.path
  have ha : addressesOf (tr ++ [failed v (.insertDebugTemplateSelectionInfos infos) e]) =
      addressesOf tr := by
    simp [addressesOf, List.findSome?_append, readAddresses, failed]
  refine
    { blockRow := hs.blockRow.append _
      transactions := hs.transactions.imp (fun _ hx => hx.append _)
      onlyInBlock := hs.onlyInBlock.imp (fun _ hx => hx.append _)
      onlyInTemplate := hs.onlyInTemplate.imp (fun _ hx => hx.append _)
      sanctionedInfos := hs.sanctionedInfos.imp (fun _ hx => hx.append _)
      conflicting := hs.conflicting.imp (fun _ hx => hx.append _)
      newUtxos := ?_ }
  unfold UtxosStored
  rw [ha]
  exact hs.newUtxos.imp id (fun hx => hx.append _)

/-- A call of process reads the address list once, and works with what it read. -/
theorem addressesOf_of_path {p : Routine Unit}
    (h : Path (process lib rs network block fees lt) calls p) {v : World lib}
    {list : Statement.sanctionedAddresses.Result}
    (hm : succeeded v .sanctionedAddresses list ∈ calls) :
    addressesOf calls = HashSet.collect (list.rows.map (fun a => a.address)) := by
  obtain ⟨tr₁, tr₂, rfl⟩ := List.append_of_mem hm
  have hp : Prog.Always (Issues lib block) (Finishes lib block) []
      (process lib rs network block fees lt) := process_always block fees lt
  have hn : tr₁.findSome? readAddresses = none := hp.issued h
  unfold addressesOf
  rw [List.findSome?_append, hn]
  rfl

/-- It reads the table of sanctioned UTXOs once as well. -/
theorem utxoMapOf_of_mem
    (h : Exec (Daemon.environment D) (process lib rs network block fees lt) w calls r w')
    {v : World lib} {table : Statement.getSanctionedUtxos.Result}
    (hm : succeeded v .getSanctionedUtxos table ∈ calls) :
    utxoMapOf calls = buildOutpointToSanctionedUtxoMap table.rows := by
  obtain ⟨tr₁, tr₂, rfl⟩ := List.append_of_mem hm
  have hp : Prog.Always (Issues lib block) (Finishes lib block) []
      (process lib rs network block fees lt) := process_always block fees lt
  have hn : tr₁.findSome? readUtxoMap = none := hp.issued h.path
  unfold utxoMapOf
  rw [List.findSome?_append, hn]
  rfl

/-- The block row counts the transactions that are sanctioned by what the call has read. -/
theorem rowFor_of_stored
    (h : Exec (Daemon.environment D) (process lib rs network block fees lt) w calls r w')
    {b : SharedModel.NewBlock} (hb : Stored calls (.insertBlock b)) : RowFor lib block calls b := by
  obtain ⟨v, a, hm⟩ := hb
  obtain ⟨tr₁, tr₂, rfl⟩ := List.append_of_mem hm
  have hp : Prog.Always (Issues lib block) (Finishes lib block) []
      (process lib rs network block fees lt) := process_always block fees lt
  obtain ⟨⟨⟨s, hs⟩, hhash, hcount⟩, -⟩ :
      RowFor lib block tr₁ b ∧ Harmless tr₁ := by simpa [Issues, succeeded] using hp.issued h.path
  have hs' := hs.append (succeeded v (.insertBlock b) a :: tr₂)
  refine ⟨⟨s, hs'⟩, hhash, ?_⟩
  rw [hcount, hs.addressesOf_eq, hs.utxoMapOf_eq, hs'.addressesOf_eq, hs'.utxoMapOf_eq]

end Executions

end MiningpoolObserver.ProcessSpec
