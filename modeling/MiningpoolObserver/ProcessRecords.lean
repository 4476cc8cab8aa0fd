import MiningpoolObserver.BuiltRecords
import MiningpoolObserver.Footprint
import MiningpoolObserver.ProcessSpec

namespace MiningpoolObserver.ProcessRecords

open MiningpoolObserver.Library MiningpoolObserver.Library.CallTree
open MiningpoolObserver.Library.HashCollections
open MiningpoolObserver.Bitcoin MiningpoolObserver.DaemonModel MiningpoolObserver.SharedModel
open MiningpoolObserver.Db MiningpoolObserver.Daemon MiningpoolObserver.Process
open MiningpoolObserver.ProcessSpec MiningpoolObserver.BuiltRecords MiningpoolObserver.Footprint
open MiningpoolObserver.Threads
open MiningpoolObserver.Processing.Conflicts MiningpoolObserver.Processing.Builders

variable {lib : Crates} {rs : RandomState} {network : Network} {block : Bitcoin.Block}
variable {fees : GetBlockTxFeesResult} {lt : List GetBlockTemplateResult} {c : Comparison}
variable {s : Sanctions} {b : NewBlock} {blockId : Int64} {r : Records} {tr tr' : Calls lib}
variable {α : Type}

/-- No statement that writes to the table has succeeded. -/
def Untouched (tr : Calls lib) (t : TableName) : Prop :=
  ∀ w st a, succeeded w st a ∈ tr → st.target ≠ some t

theorem target_eq_none_iff {st : Statement} : st.target = none ↔ st.Reads := by
  cases st <;> simp [Statement.target, Statement.Reads]

theorem Harmless.untouched (h : Harmless tr) (t : TableName) : Untouched tr t := by
  intro w st a hs ht
  rw [target_eq_none_iff.mpr (h w st a hs)] at ht
  cases ht

theorem Harmless.extends (h : Harmless tr) (he : Extends (Within []) tr tr') : Harmless tr' := by
  intro w st a hs
  obtain hs | hs := he.mem_or hs
  · exact h w st a hs
  · have hn : st.target = none := by
      cases ht : st.target with
      | none => rfl
      | some t => exact absurd (hs t ht) (List.not_mem_nil)
    exact target_eq_none_iff.mp hn

theorem Untouched.extends {t : TableName} {ts : List TableName} (h : Untouched tr t)
    (ht : t ∉ ts) (he : Extends (Within ts) tr tr') : Untouched tr' t := by
  intro w st a hs hst
  obtain hs | hs := he.mem_or hs
  · exact h w st a hs hst
  · exact ht (hs t hst)

theorem Stored.extends {st : Statement} {Q : Daemon.Call → Prop} (h : Stored tr st)
    (he : Extends Q tr tr') : Stored tr' st := by
  obtain ⟨w, a, hs⟩ := h
  exact ⟨w, a, he.subset hs⟩

variable (lib network block fees c s b) in
/-- The block row is built with pools that the call has read. -/
def BuiltRow (tr : Calls lib) : Prop :=
  ∃ n w pools now, (⟨w, Call.lockPools, pools⟩ : Event Daemon.signature (World lib)) ∈ tr ∧
    getSanctionedMissingTxCount lib c.txidsOnlyInTemplate c.templateTxData s.utxoMap s.addresses =
      .ok n ∧
    buildBlock lib block c.template c.templateTxData.txidToTxinfoMap (blockNumbers lib fees c n)
      s.utxoMap s.addresses pools network now = .ok b

theorem BuiltRow.buildsRow (h : BuiltRow lib network block fees c s b tr) :
    BuildsRow lib network block fees c s b := by
  obtain ⟨n, -, pools, now, -, hn, hb⟩ := h
  exact ⟨n, pools, now, hn, hb⟩

variable (lib rs network block fees lt blockId r) in
/-- The records of a call that has inserted its block row under the id. -/
def RecordsOf (tr : Calls lib) : Prop :=
  ∃ c s b w, Computes lib rs network block fees lt c s b blockId r ∧
    succeeded w (.insertBlock b) blockId ∈ tr

theorem RecordsOf.extends {Q : Daemon.Call → Prop}
    (h : RecordsOf lib rs network block fees lt blockId r tr) (he : Extends Q tr tr') :
    RecordsOf lib rs network block fees lt blockId r tr' := by
  obtain ⟨c, s, b, w, hc, hs⟩ := h
  exact ⟨c, s, b, w, hc, he.subset hs⟩

variable (lib rs network block fees lt) in
/-- What a call of process may write to the tables of blocks and of their transactions. -/
def Issues (tr : Calls lib) : Daemon.Call → Prop
  | .sql (.insertBlock b) => Harmless tr ∧
      ∃ c s, compareBlock lib block fees lt = .ok c ∧ BuiltRow lib network block fees c s b tr
  | .sql (.updatePoolNameWithBlockId _ _) => False
  | .sql (.insertTransactionsOnlyInBlock rows) => Untouched tr .transactionOnlyInBlock ∧
      ∃ blockId r, RecordsOf lib rs network block fees lt blockId r tr ∧ rows = r.onlyInBlock
  | .sql (.insertTransactionsOnlyInTemplate rows) => Untouched tr .transactionOnlyInTemplate ∧
      ∃ blockId r, RecordsOf lib rs network block fees lt blockId r tr ∧ rows = r.onlyInTemplate
  | .sql (.insertConflictingTransactions rows) =>
      ∃ blockId r, RecordsOf lib rs network block fees lt blockId r tr ∧ rows = r.conflicting ∧
        Stored tr (.insertTransactionsOnlyInBlock r.onlyInBlock) ∧
        Stored tr (.insertTransactionsOnlyInTemplate r.onlyInTemplate)
  | _ => True

/-- The tables that `Issues` is about. -/
def recordTables : List TableName :=
  [.block, .transactionOnlyInBlock, .transactionOnlyInTemplate, .conflictingTransactions]

theorem issues_of_within {ts : List TableName} (hts : ∀ t ∈ ts, t ∉ recordTables)
    {c : Daemon.Call} (h : Within ts c) : Issues lib rs network block fees lt tr c := by
  cases c with
  | sql st =>
    have hn : ∀ t, st.target = some t → t ∉ recordTables := fun t ht => hts t (h t ht)
    cases st with
    | insertBlock _ | updatePoolNameWithBlockId _ _ | insertTransactionsOnlyInBlock _
    | insertTransactionsOnlyInTemplate _ | insertConflictingTransactions _ =>
      exact absurd (by simp [recordTables]) (hn _ rfl)
    | _ => trivial
  | _ => trivial

/-- A part that writes to other tables only. -/
theorem always_of_writes (ts : List TableName) {p : Prog Daemon.signature α}
    (hp : Footprint.Writes ts p) (hts : ∀ t ∈ ts, t ∉ recordTables) :
    Prog.Always (Issues lib rs network block fees lt)
      (fun tr' _ => Extends (Within ts) tr tr') tr p :=
  (hp.always (Extends.refl tr)).mono (fun _ _ h => issues_of_within hts h.2) (fun _ _ h => h)

/-- The block row is in, and nothing else. -/
def Opened (lib : Crates) (network : Network) (block : Bitcoin.Block) (fees : GetBlockTxFeesResult)
    (c : Comparison) (s : Sanctions) (tr : Calls lib) : Except Abort Int64 → Prop
  | .ok blockId => ∃ b w tr₀, BuildsRow lib network block fees c s b ∧ Harmless tr₀ ∧
      tr = tr₀ ++ [succeeded w (.insertBlock b) blockId]
  | .error _ => True

theorem recordBlock_issues (hc : compareBlock lib block fees lt = .ok c) (h : Harmless tr) :
    Prog.Always (Issues lib rs network block fees lt) (Opened lib network block fees c s) tr
      (recordBlock lib network block fees c s) := by
  refine Prog.Always.andThen (D := fun tr' x => tr' = tr ∧ ∀ n, x = .ok n →
    getSanctionedMissingTxCount lib c.txidsOnlyInTemplate c.templateTxData s.utxoMap s.addresses =
      .ok n) (always_orPanic (fun n hn => ⟨rfl, ?_⟩) (fun p => ⟨rfl, fun _ hn => by cases hn⟩)) ?_
    (fun _ _ _ => trivial)
  · rintro _ ⟨⟩
    exact hn
  · rintro tr₁ n ⟨rfl, hn⟩
    refine ⟨trivial, fun w pools => ⟨trivial, fun v now => ?_⟩⟩
    have h₁ : Harmless (tr₁ ++ [⟨w, Call.lockPools, pools⟩] ++ [⟨v, Call.utcNow, now⟩]) :=
      Harmless.extends h (((Extends.refl tr₁).snoc trivial).snoc trivial)
    refine Prog.Always.andThen (D := fun tr' x => Harmless tr' ∧ ∀ b, x = .ok b →
      BuiltRow lib network block fees c s b tr') ?_ ?_ (fun _ _ _ => trivial)
    · refine always_orPanic (fun b hb => ⟨h₁, ?_⟩) (fun p => ⟨h₁, fun _ hb => by cases hb⟩)
      rintro _ ⟨⟩
      exact ⟨n, w, pools, now, by simp, hn n rfl, hb⟩
    · rintro tr' b ⟨h₂, hb⟩
      have hrow := hb b rfl
      refine always_orReturn ⟨h₂, c, s, hc, hrow⟩ (fun v id => ?_) (fun _ _ => trivial)
      exact ⟨b, v, tr', hrow.buildsRow, h₂, rfl⟩

/-- How far the records of a call have been stored: by these statements, and not yet in these
tables. -/
structure Storing (lib : Crates) (rs : RandomState) (network : Network) (block : Bitcoin.Block)
    (fees : GetBlockTxFeesResult) (lt : List GetBlockTemplateResult) (blockId : Int64) (r : Records)
    (done : List Statement) (left : List TableName) (tr : Calls lib) : Prop where
  records : RecordsOf lib rs network block fees lt blockId r tr
  stored : ∀ st ∈ done, Stored tr st
  untouched : ∀ t ∈ left, Untouched tr t

variable {done : List Statement} {left left' : List TableName}

theorem Storing.extends {ts : List TableName} (left' : List TableName)
    (h : Storing lib rs network block fees lt blockId r done left tr)
    (hts : ∀ t ∈ left', t ∈ left ∧ t ∉ ts) (he : Extends (Within ts) tr tr') :
    Storing lib rs network block fees lt blockId r done left' tr' where
  records := h.records.extends he
  stored st hst := Stored.extends (h.stored st hst) he
  untouched t ht := (h.untouched t (hts t ht).1).extends (hts t ht).2 he

/-- A statement that succeeds joins the others. -/
theorem Storing.write {st : Statement} {t : TableName}
    (h : Storing lib rs network block fees lt blockId r done left tr) (hst : st.target = some t)
    (hleft : ∀ t' ∈ left', t' ∈ left ∧ t' ≠ t) (w : World lib) (a : st.Result) :
    Storing lib rs network block fees lt blockId r (st :: done) left'
      (tr ++ [succeeded w st a]) := by
  have he : Extends (Within [t]) tr (tr ++ [succeeded w st a]) :=
    (Extends.refl tr).snoc (within_of_target hst)
  have h' := h.extends left' (fun t' ht' => ⟨(hleft t' ht').1, fun hm =>
    (hleft t' ht').2 (List.mem_singleton.mp hm)⟩) he
  refine ⟨h'.records, fun st' hst' => ?_, h'.untouched⟩
  obtain rfl | hst' := List.mem_cons.mp hst'
  · exact stored_snoc tr w st' a
  · exact h'.stored st' hst'

theorem storeRecords_issues {utxos : List SanctionedUtxo}
    (h : Storing lib rs network block fees lt blockId r []
      [.transactionOnlyInBlock, .transactionOnlyInTemplate] tr) :
    Prog.Always (Issues lib rs network block fees lt) (fun _ _ => True) tr
      (storeRecords rs r utxos) := by
  have hi : Footprint.Writes [.transaction]
      ((Process.insertTransactions (r.transactions.values rs)).bind
        (fun x => .done (returnOnError x)) : Routine Unit) :=
    (insertTransactions_writes _).bind (fun _ => trivial)
  refine Prog.Always.andThen (always_of_writes _ hi (by simp [recordTables])) ?_
    (fun _ _ _ => trivial)
  intro tr₁ _ he₁
  have h₁ := h.extends [.transactionOnlyInBlock, .transactionOnlyInTemplate]
    (by simp) he₁
  refine Prog.Always.andThen (D := fun tr x => ∀ u, x = .ok u → Storing lib rs network block fees
    lt blockId r [.insertTransactionsOnlyInBlock r.onlyInBlock] [.transactionOnlyInTemplate] tr)
    (always_orReturn ⟨h₁.untouched _ (by simp), blockId, r, h₁.records, rfl⟩
      (fun w a _ _ => h₁.write rfl (by simp) w a) (fun _ _ _ hu => by cases hu)) ?_
    (fun _ _ _ => trivial)
  intro tr₂ u h₂
  have h₂ := h₂ u rfl
  refine Prog.Always.andThen (D := fun tr x => ∀ u, x = .ok u → Storing lib rs network block fees
    lt blockId r [.insertTransactionsOnlyInTemplate r.onlyInTemplate,
      .insertTransactionsOnlyInBlock r.onlyInBlock] [] tr)
    (always_orReturn ⟨h₂.untouched _ (by simp), blockId, r, h₂.records, rfl⟩
      (fun w a _ _ => h₂.write rfl (by simp) w a) (fun _ _ _ hu => by cases hu)) ?_
    (fun _ _ _ => trivial)
  intro tr₃ u h₃
  have hs : Footprint.Writes [.sanctionedTransactionInfo]
      (orReturn (.insertSanctionedTransactionInfos r.sanctionedInfos)) :=
    writes_orReturn (within_of_target rfl)
  refine Prog.Always.andThen (always_of_writes _ hs (by simp [recordTables])) ?_
    (fun _ _ _ => trivial)
  intro tr₄ _ he₄
  have h₄ := (h₃ u rfl).extends [] (by simp) he₄
  refine Prog.Always.andThen (D := fun _ _ => True)
    (always_orReturn ⟨blockId, r, h₄.records, rfl, h₄.stored _ (by simp), h₄.stored _ (by simp)⟩
      (fun _ _ => trivial) (fun _ _ => trivial)) ?_ (fun _ _ _ => trivial)
  intro tr₅ _ _
  have hu : Footprint.Writes [.sanctionedUtxo, .debugTemplateSelection]
      ((recordNewUtxos utxos).andThen
        (fun _ => orReturn (.insertDebugTemplateSelectionInfos r.debugInfos))) := by
    refine Prog.Only.andThen ?_ (fun _ => writes_orReturn ((within_of_target rfl).mono (by simp)))
    unfold recordNewUtxos
    split_ifs
    · trivial
    · exact writes_orReturn ((within_of_target rfl).mono (by simp))
  exact (always_of_writes _ hu (by simp [recordTables])).mono (fun _ _ h => h)
    (fun _ _ _ => trivial)

theorem process_issues : Prog.Always (Issues lib rs network block fees lt) (fun _ _ => True)
    ([] : Calls lib) (Process.process lib rs network block fees lt) := by
  refine Prog.Always.andThen (D := fun tr x => tr = [] ∧ ∀ c, x = .ok c →
    compareBlock lib block fees lt = .ok c)
    (always_orPanic (fun c hc => ⟨rfl, ?_⟩) (fun _ => ⟨rfl, fun _ hc => by cases hc⟩)) ?_
    (fun _ _ _ => trivial)
  · rintro _ ⟨⟩
    exact hc
  rintro _ c ⟨rfl, hc⟩
  have hc := hc c rfl
  refine Prog.Always.andThen (always_of_writes [] getConnection_writes (by simp)) ?_
    (fun _ _ _ => trivial)
  intro tr₁ _ he₁
  refine Prog.Always.andThen (always_of_writes [] loadSanctions_writes (by simp)) ?_
    (fun _ _ _ => trivial)
  intro tr₂ s he₂
  have h₂ : Harmless tr₂ :=
    Harmless.extends (Harmless.extends (fun _ _ _ hs => by cases hs) he₁) he₂
  refine Prog.Always.andThen (recordBlock_issues hc h₂) ?_ (fun _ _ _ => trivial)
  rintro _ blockId ⟨b, w, tr₃, hrow, h₃, rfl⟩
  refine Prog.Always.andThen (D := fun tr x => ∀ r, x = .ok r → Storing lib rs network block fees lt
    blockId r [] [.transactionOnlyInBlock, .transactionOnlyInTemplate] tr) ?_
    (fun tr₄ r hr => storeRecords_issues (hr r rfl)) (fun _ _ _ => trivial)
  have hopen : ∀ t, t ≠ .block → Untouched (tr₃ ++ [succeeded w (.insertBlock b) blockId]) t :=
    fun t ht => (Harmless.untouched h₃ t).extends (fun hm => ht (List.mem_singleton.mp hm))
      ((Extends.refl tr₃).snoc (within_of_target rfl))
  refine Prog.Always.andThen (D := fun tr x => tr = tr₃ ++ [succeeded w (.insertBlock b) blockId] ∧
    ∀ conflicting, x = .ok conflicting → buildConflictingTransactions lib rs blockId
      c.txidsOnlyInTemplate c.templateTxData.txidToTxinfoMap c.txidsOnlyInBlock
      c.blockTxData.txidToTxinfoMap HashMap.empty s.utxoMap s.addresses = .ok conflicting)
    (always_orPanic (fun a ha => ⟨rfl, ?_⟩) (fun _ => ⟨rfl, fun _ h => by cases h⟩)) ?_
    (fun _ _ _ _ h => by cases h)
  · rintro _ ⟨⟩
    exact ha
  rintro _ conflicting ⟨rfl, hconf⟩
  refine Prog.Always.bind (always_of_writes [] mempoolAgeSeconds_writes (by simp)) ?_
  intro tr₄ ages he₄
  refine always_orPanic (fun r hr => ?_) (fun _ _ h => by cases h)
  rintro _ ⟨⟩
  refine ⟨⟨c, s, b, w, ⟨hc, hrow, conflicting, ages, hconf conflicting rfl, hr⟩, ?_⟩, ?_, ?_⟩
  · exact he₄.subset (by simp)
  · exact fun st hst => by cases hst
  · intro t ht
    refine (hopen t ?_).extends (List.not_mem_nil) he₄
    rintro rfl
    simp at ht

/-- The tables that jobs other than process write to. -/
def otherTables : List TableName :=
  [.block, .transaction, .sanctionedUtxoScanInfo, .sanctionedUtxo, .sanctionedAddresses]

/-- A job under way that makes a call is process, or writes to none of the tables of a block's
transactions. -/
theorem issues_or_within {D : Drift lib} {allowed : Thread → Job → World lib → Prop}
    {C : Config lib} (hc : Tasks.Coherent (system lib D allowed) C) {i : Thread} {j : Job}
    {c : Daemon.Call} {k : Daemon.Reply c → Routine Unit}
    (hi : C.running i = some ⟨j, tr, .call c k⟩) :
    (∃ rs network block fees lt, j = .process rs network block fees lt ∧
      Issues lib rs network block fees lt tr c) ∨ Within otherTables c := by
  by_cases hp : ∃ rs network block fees lt, j = .process rs network block fees lt
  · obtain ⟨rs, network, block, fees, lt, rfl⟩ := hp
    exact .inl ⟨rs, network, block, fees, lt, rfl, hc.call_spec hi process_issues⟩
  right
  have hw : Footprint.Writes otherTables (j.prog lib) := by
    by_cases hr : ∃ network, j = .retryUnknownPoolIdentification network
    · obtain ⟨network, rfl⟩ := hr
      exact retryUnknownPoolIdentification_writes.mono
        (fun _ => Within.mono (by simp [otherTables]))
    · have h : Footprint.Writes _ (j.prog lib) := prog_writes
        (fun rs network block fees lt h => hp ⟨rs, network, block, fees, lt, h⟩)
        (fun network h => hr ⟨network, h⟩)
      exact h.mono (fun _ => Within.mono (by simp [otherTables]))
  exact (hc.call_spec hi (hw.always (.refl []))).2

end MiningpoolObserver.ProcessRecords
