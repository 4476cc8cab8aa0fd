import MiningpoolObserver.ProcessRecords
import MiningpoolObserver.Simulation

namespace MiningpoolObserver.PoolNames

open MiningpoolObserver.Library MiningpoolObserver.Library.CallTree
open MiningpoolObserver.Library.HashCollections MiningpoolObserver.Library.Runs
open MiningpoolObserver.Bitcoin MiningpoolObserver.DaemonModel MiningpoolObserver.SharedModel
open MiningpoolObserver.Db MiningpoolObserver.Daemon MiningpoolObserver.Process
open MiningpoolObserver.ProcessSpec MiningpoolObserver.ProcessRecords MiningpoolObserver.Threads
open MiningpoolObserver.Processing.Builders MiningpoolObserver.Simulation

variable {lib : Crates} {network : Network} {tr tr' : Calls lib}

/-- The columns of a block row that say who mined it. -/
def poolInfo (b : NewBlock) : String × String × String := (b.poolName, b.poolLink, b.poolIdMethod)

variable (lib) in
/-- The outcomes of a job's identifications: of the block that it processes, or of a block that it
has just fetched. -/
inductive Identifies : Job → Calls lib → BlockHash → Option IdentificationResult → Prop
  | process {rs : RandomState} {network : Network} {block : Bitcoin.Block}
      {fees : GetBlockTxFeesResult} {lt : List GetBlockTemplateResult} {tr : Calls lib}
      {w : World lib} {pools : List Pool} : ⟨w, Call.lockPools, pools⟩ ∈ tr →
      Identifies (.process rs network block fees lt) tr (hashOf lib block)
        (lib.identifyPool block network pools)
  | fetched {network : Network} {pre post : Calls lib} {w v : World lib} {hash : BlockHash}
      {block : Bitcoin.Block} {pools : List Pool} :
      Identifies (.retryUnknownPoolIdentification network)
        (pre ++ ⟨w, Call.getBlock hash, Except.ok block⟩ :: ⟨v, Call.lockPools, pools⟩ :: post)
        (hashOf lib block) (lib.identifyPool block network pools)

theorem Identifies.of_prefix {j : Job} {hash : BlockHash} {o : Option IdentificationResult}
    (h : Identifies lib j tr hash o) (hp : tr <+: tr') : Identifies lib j tr' hash o := by
  obtain ⟨new, rfl⟩ := hp
  cases h with
  | process hm => exact .process (List.mem_append_left _ hm)
  | fetched =>
    simp only [List.append_assoc, List.cons_append]
    exact .fetched

/-- The outcomes of identifications before the run and in it. -/
def Identified (past : BlockHash → Option IdentificationResult → Prop) (C : Config lib)
    (hash : BlockHash) (o : Option IdentificationResult) : Prop :=
  past hash o ∨ ∃ j tr, Tasks.Under C j tr ∧ Identifies lib j tr hash o

/-- What the row says of the pool is what one outcome says, of an identification of its block. -/
def RowOfOutcome (P : BlockHash → Option IdentificationResult → Prop) (row : NewBlock) : Prop :=
  ∃ hash o, row.hash = hash.reversed ∧ P hash o ∧ poolInfo row = getPoolInfoOrDefault o

def OneOutcome (past : BlockHash → Option IdentificationResult → Prop) (C : Config lib) : Prop :=
  ∀ row ∈ C.world.db.block.rows, RowOfOutcome (Identified past C) row.toNewBlock

/-- Different rows have different ids, and each is that of one outcome. -/
def Consistent (past : BlockHash → Option IdentificationResult → Prop) (w : World lib) : Prop :=
  w.db.blockIds.Nodup ∧ ∀ row ∈ w.db.block.rows, RowOfOutcome past row.toNewBlock

variable (lib network) in
/-- The last two calls have fetched a block and found its pool. -/
def Finds (tr : Calls lib) (block : Bitcoin.Block) (result : IdentificationResult) : Prop :=
  ∃ pre w hash v pools, tr = pre ++
      [⟨w, Call.getBlock hash, Except.ok block⟩, ⟨v, Call.lockPools, pools⟩] ∧
    lib.identifyPool block network pools = some result

theorem Finds.identifies {block : Bitcoin.Block} {result : IdentificationResult}
    (h : Finds lib network tr block result) :
    Identifies lib (.retryUnknownPoolIdentification network) tr (hashOf lib block)
      (some result) := by
  obtain ⟨pre, w, hash, v, pools, rfl, ho⟩ := h
  rw [← ho]
  exact .fetched

/-- When the re-identification thread sets a name, the row has that name already, or it has the link
and the method of the pool that the thread has found. -/
def RenameMatches (C : Config lib) : Label lib → Prop
  | .call i ⟨_, .sql (.updatePoolNameWithBlockId blockId newPoolName), .ok _⟩ =>
    ∀ t network block result, C.running i = some t →
      t.job = .retryUnknownPoolIdentification network → Finds lib network t.trace block result →
      ∀ row ∈ C.world.db.block.rows, row.id = blockId → row.poolName = newPoolName ∨
        (row.poolLink, row.poolIdMethod) = (getPoolInfoOrDefault (some result)).2
  | _ => True

/-- The thread sets the name of the pool that it has just found for a block, of which it has read
the row. -/
def Renames (lib : Crates) (network : Network) (tr : Calls lib) (blockId : Int64)
    (newPoolName : String) : Prop :=
  ∃ w rows row v hash block result, succeeded w .unknownPoolBlocks rows ∈ tr ∧ row ∈ rows ∧
    row.id = blockId ∧ hash.reversed = row.hash ∧
    ⟨v, Call.getBlock hash, Except.ok block⟩ ∈ tr ∧ Finds lib network tr block result ∧
    result.pool.name = newPoolName

/-- How a job may write to the block table. -/
def WritesBlocks (lib : Crates) (j : Job) (tr : Calls lib) : Daemon.Call → Prop
  | .sql (.insertBlock b) => RowOfOutcome (Identifies lib j tr) b
  | .sql (.updatePoolNameWithBlockId blockId newPoolName) => ∃ network,
      j = .retryUnknownPoolIdentification network ∧ Renames lib network tr blockId newPoolName
  | _ => True

theorem writesBlocks_of_within {j : Job} {ts : List TableName} (hts : .block ∉ ts)
    {c : Daemon.Call} (h : Footprint.Within ts c) : WritesBlocks lib j tr c := by
  cases c with
  | sql st =>
    cases st with
    | insertBlock _ | updatePoolNameWithBlockId _ _ => exact absurd (h _ rfl) hts
    | _ => trivial
  | _ => trivial

theorem process_writesBlocks {rs : RandomState} {block : Bitcoin.Block}
    {fees : GetBlockTxFeesResult} {lt : List GetBlockTemplateResult} :
    Prog.Always (WritesBlocks lib (.process rs network block fees lt)) (fun _ _ => True)
      ([] : Calls lib) (Process.process lib rs network block fees lt) := by
  refine process_issues.mono (fun tr c hc => ?_) (fun _ _ h => h)
  cases c with
  | sql st =>
    cases st with
    | insertBlock b =>
      obtain ⟨-, c, s, -, n, w, pools, now, hpools, -, hb⟩ := hc
      have hrow := rowOf_buildBlock hb
      exact ⟨hashOf lib block, lib.identifyPool block network pools, hrow.hash, .process hpools,
        hrow.pool⟩
    | updatePoolNameWithBlockId _ _ => exact hc.elim
    | _ => trivial
  | _ => trivial

theorem reidentifyBlocks_writesBlocks {w : World lib} {rows blocks : List SharedModel.Block}
    (hrows : succeeded w .unknownPoolBlocks rows ∈ tr) (hb : blocks ⊆ rows) :
    Prog.Always (WritesBlocks lib (.retryUnknownPoolIdentification network)) (fun _ _ => True) tr
      (reidentifyBlocks lib network blocks) := by
  induction blocks generalizing tr with
  | nil => trivial
  | cons row blocks ih =>
    have hb' : blocks ⊆ rows := fun b hm => hb (List.mem_cons_of_mem _ hm)
    rw [reidentifyBlocks]
    cases hh : Hash256.fromSlice row.hash.reverse with
    | none => exact ih hrows hb'
    | some hash =>
      refine ⟨trivial, fun v r => ?_⟩
      cases r with
      | error e => trivial
      | ok block =>
        refine Prog.Always.andThen
          (D := fun tr _ => succeeded w .unknownPoolBlocks rows ∈ tr) ⟨trivial, fun u pools => ?_⟩
          (fun tr' _ hm => ih hm hb') (fun _ _ _ => trivial)
        have hrows' : succeeded w .unknownPoolBlocks rows ∈
            tr ++ [⟨v, Call.getBlock hash, Except.ok block⟩] ++ [⟨u, Call.lockPools, pools⟩] :=
          List.mem_append_left _ (List.mem_append_left _ hrows)
        dsimp only
        cases ho : lib.identifyPool block network pools with
        | none => exact hrows'
        | some result =>
          refine ⟨⟨network, rfl, w, rows, row, v, hash, block, result, hrows',
            hb List.mem_cons_self, rfl, Hash256.reversed_of_fromSlice hh, by simp, ?_, rfl⟩,
            fun _ _ => List.mem_append_left _ hrows'⟩
          exact ⟨tr, v, hash, u, pools, by simp, ho⟩

theorem retry_writesBlocks :
    Prog.Always (WritesBlocks lib (.retryUnknownPoolIdentification network)) (fun _ _ => True)
      ([] : Calls lib) (retryUnknownPoolIdentification lib network) := by
  refine ⟨trivial, fun w r => ?_⟩
  cases r with
  | error e => trivial
  | ok u =>
    refine ⟨trivial, fun v r => ?_⟩
    cases r with
    | error e => trivial
    | ok rows =>
      exact reidentifyBlocks_writesBlocks (w := v) (by simp [succeeded]) (List.Subset.refl _)

theorem job_writesBlocks (j : Job) :
    Prog.Always (WritesBlocks lib j) (fun _ _ => True) ([] : Calls lib) (j.prog lib) := by
  by_cases hp : ∃ rs network block fees lt, j = .process rs network block fees lt
  · obtain ⟨rs, network, block, fees, lt, rfl⟩ := hp
    exact process_writesBlocks
  by_cases hr : ∃ network, j = .retryUnknownPoolIdentification network
  · obtain ⟨network, rfl⟩ := hr
    exact retry_writesBlocks
  · have hw : Footprint.Writes _ (j.prog lib) := Footprint.prog_writes
      (fun rs network block fees lt h => hp ⟨rs, network, block, fees, lt, h⟩)
      (fun network h => hr ⟨network, h⟩)
    exact (hw.always (.refl [])).mono (fun _ _ h => writesBlocks_of_within (by simp) h.2)
      (fun _ _ _ => trivial)

/-- Every row stays, with its id and its hash. -/
def Keeps (w w' : World lib) : Prop :=
  ∀ row ∈ w.db.block.rows, ∃ row' ∈ w'.db.block.rows, row'.id = row.id ∧ row'.hash = row.hash

theorem Keeps.trans (w w' w'' : World lib) (h : Keeps w w') (h' : Keeps w' w'') : Keeps w w'' := by
  intro row hrow
  obtain ⟨row', hrow', hid, hhash⟩ := h row hrow
  obtain ⟨row'', hrow'', hid', hhash'⟩ := h' row' hrow'
  exact ⟨row'', hrow'', hid'.trans hid, hhash'.trans hhash⟩

variable {D : Drift lib} {allowed : Thread → Job → World lib → Prop}
variable {past : BlockHash → Option IdentificationResult → Prop} {C C' : Config lib} {l : Label lib}

theorem keeps_of_step (hD : D.KeepsDb) (h : Tasks.Step (system lib D allowed) C l C') :
    Keeps C.world C'.world := by
  refine relates_of_step (R := fun db db' => ∀ row ∈ db.block.rows, ∃ row' ∈ db'.block.rows,
    row'.id = row.id ∧ row'.hash = row.hash) hD (fun _ row hrow => ⟨row, hrow, rfl, rfl⟩)
    (fun hs row hrow => ?_) h
  obtain ⟨row', hrow', rfl | ⟨blockId, newPoolName, rfl⟩⟩ := exists_row_of_succeeds hs hrow
  · exact ⟨row', hrow', rfl, rfl⟩
  · exact ⟨_, hrow', id_setPoolName _ _ row, hash_setPoolName _ _ row⟩

/-- No identification is forgotten. -/
theorem Identified.step {hash : BlockHash} {o : Option IdentificationResult}
    (h : Identified past C hash o) (hs : Tasks.Step (system lib D allowed) C l C') :
    Identified past C' hash o := by
  obtain h | ⟨j, tr, hu, hi⟩ := h
  · exact .inl h
  · obtain ⟨tr', hp, hu'⟩ := hu.step hs
    exact .inr ⟨j, tr', hu', hi.of_prefix hp⟩

theorem RowOfOutcome.mono {P Q : BlockHash → Option IdentificationResult → Prop} {row : NewBlock}
    (h : RowOfOutcome P row) (hPQ : ∀ hash o, P hash o → Q hash o) : RowOfOutcome Q row := by
  obtain ⟨hash, o, hhash, ho, hinfo⟩ := h
  exact ⟨hash, o, hhash, hPQ hash o ho, hinfo⟩

/-- What every run keeps to, whatever the names that are set. -/
structure Sound (D : Drift lib) (allowed : Thread → Job → World lib → Prop) (C : Config lib) :
    Prop where
  coherent : Tasks.Coherent (system lib D allowed) C
  answered : Tasks.Answered (system lib D allowed) Keeps C
  distinct : C.world.db.blockIds.Nodup

theorem Sound.step (h : Sound D allowed C) (hD : D.KeepsDb)
    (hs : Tasks.Step (system lib D allowed) C l C') : Sound D allowed C' where
  coherent := h.coherent.step hs
  answered := h.answered.step Keeps.trans hs (keeps_of_step hD hs)
  distinct := relates_of_step (R := fun db db' => db.blockIds.Nodup → db'.blockIds.Nodup) hD
    (fun _ => id) nodup_blockIds_of_succeeds hs h.distinct

/-- The row that the thread renames is that of the block that it has fetched. -/
theorem Sound.row_of_renames (h : Sound D allowed C) {i : Thread} {j : Job} {blockId : Int64}
    {newPoolName : String} {rest : Routine Unit} (hi : C.running i = some ⟨j, tr, rest⟩)
    (hr : Renames lib network tr blockId newPoolName) :
    ∃ block result, Finds lib network tr block result ∧ result.pool.name = newPoolName ∧
      ∀ row ∈ C.world.db.block.rows, row.id = blockId → row.hash = (hashOf lib block).reversed := by
  obtain ⟨w, rows, row, v, hash, block, result, hrows, hrow, hid, hhash, hblock, hf, hname⟩ := hr
  refine ⟨block, result, hf, hname, fun row' hrow' hid' => ?_⟩
  obtain ⟨hkeeps, w', hread⟩ := h.answered i _ hi _ hrows
  obtain ⟨-, v', hfetched⟩ := h.answered i _ hi _ hblock
  have hread : Daemon.answer w (.sql .unknownPoolBlocks) (Except.ok rows) w' := hread
  have hfetched : Daemon.answer v (.getBlock hash) (Except.ok block) v' := hfetched
  have hmem := ((unknownPoolBlocks_of_succeeds hread.1).mp hrow).1
  obtain ⟨row'', hrow'', hid'', hhash''⟩ := hkeeps row hmem
  have heq : row' = row'' := List.inj_on_of_nodup_map h.distinct hrow' hrow''
    (hid'.trans (hid.symm.trans hid''.symm))
  rw [heq, hhash'', ← hhash, hfetched.2.1]

theorem Sound.oneOutcome_step (h : Sound D allowed C) (hD : D.KeepsDb) (ho : OneOutcome past C)
    (hm : RenameMatches C l) (hs : Tasks.Step (system lib D allowed) C l C') :
    OneOutcome past C' := by
  have hkeep : ∀ row ∈ C.world.db.block.rows, RowOfOutcome (Identified past C') row.toNewBlock :=
    fun row hrow => (ho row hrow).mono (fun _ _ hi => hi.step hs)
  cases dbStep_of_step hD hs with
  | same _ hdb =>
    intro row hrow
    exact hkeep row (hdb ▸ hrow)
  | @exec i j tr st k a _ hi hx =>
    have hw := h.coherent.call_spec hi (job_writesBlocks j)
    have hunder : Tasks.Under C j tr := .inl ⟨i, _, hi⟩
    obtain ⟨tr', hp, hu⟩ := hunder.step hs
    cases blockChange_of_succeeds hx with
    | none _ hb =>
      intro row hrow
      exact hkeep row (hb ▸ hrow)
    | insert _ hrows =>
      intro row hrow
      rw [hrows] at hrow
      obtain hrow | hrow := List.mem_append.mp hrow
      · exact hkeep row hrow
      · obtain rfl := List.mem_singleton.mp hrow
        exact hw.mono (fun _ _ hi => .inr ⟨j, tr', hu, hi.of_prefix hp⟩)
    | @rename blockId newPoolName _ hrows =>
      obtain ⟨network, rfl, hr⟩ := hw
      obtain ⟨block, result, hf, hname, hhash⟩ := h.row_of_renames hi hr
      intro row' hrow'
      rw [hrows] at hrow'
      obtain ⟨row, hrow, rfl⟩ := List.mem_map.mp hrow'
      by_cases hid : row.id = blockId
      · rw [setPoolName, if_pos hid]
        obtain hn | hinfo := hm _ network block result hi rfl hf row hrow hid
        · rw [← hn]
          exact hkeep row hrow
        · refine ⟨hashOf lib block, some result, hhash row hrow hid,
            .inr ⟨_, tr', hu, hf.identifies.of_prefix hp⟩, ?_⟩
          rw [← hname]
          exact congrArg (Prod.mk result.pool.name) hinfo
      · rw [setPoolName, if_neg hid]
        exact hkeep row hrow

/-- Every block row says of the pool what one outcome says, as long as each name that the
re-identification thread sets is the one that the row has, or fits the link and the method that it
has. -/
theorem oneOutcome_of_renameMatches (hD : D.KeepsDb) (ρ : ThreadRun lib D allowed (Consistent past))
    (h : ∀ i < ρ.length, RenameMatches (ρ.state i) (ρ.label i)) :
    ∀ i ≤ ρ.length, OneOutcome past (ρ.state i) := by
  have hinv := ρ.invariant_of_condition (C := RenameMatches)
    (I := fun C => Sound D allowed C ∧ OneOutcome past C) (fun C hC => ?_)
    (fun C l C' hC hm hs => ⟨hC.1.step hD hs, hC.1.oneOutcome_step hD hC.2 hm hs⟩) h
  · exact fun i hi => (hinv i hi).2
  · refine ⟨⟨Tasks.coherent_of_idle hC, fun i t ht => ?_, hC.1.1⟩, fun row hrow => ?_⟩
    · rw [hC.2.1 i] at ht
      cases ht
    · exact (hC.1.2 row hrow).mono (fun _ _ hp => .inl hp)

/-- The main loop processes blocks, next to the re-identification thread. -/
def Interleaving : Thread → Job → World lib → Prop
  | .mainLoop, .process _ _ _ _ _, _ => True
  | .reidentification, .retryUnknownPoolIdentification _, _ => True
  | _, _, _ => False

/-- The two writers of block rows, from an empty table. -/
abbrev InterleavingRun (lib : Crates) :=
  ThreadRun lib .reorganises Interleaving (Consistent (fun _ _ => False))

/-- The first pool of the list is the one whose tag is in the coinbase. -/
def identifying : Crates :=
  { sample with identifyPool := fun _ _ pools => pools.head?.map (fun pool => ⟨pool, .tag⟩) }

def minedWorld : World identifying :=
  ⟨.empty, nodeOf (by decide : IsActive identifying [block₀, block₁] [block₁] block₀)⟩

def processJob : Job :=
  .process .inserted .bitcoin block₁ (feesOf identifying block₁) [templateOf chain₀]

/-- A healthy outside with this list of pools. -/
def respondWith (pools : List Pool) (w : World lib) :
    (c : Daemon.Call) → Daemon.Reply c × World lib
  | .lockPools => (pools, w)
  | c => respond .healthy w c

theorem respondWith_answers (pools : List Pool) (w : World lib) (c : Daemon.Call) :
    Daemon.answer w c (respondWith pools w c).1 (respondWith pools w c).2 := by
  unfold respondWith
  split
  · rfl
  · exact respond_answers .healthy w _

def runJob (j : Job) (pools : List Pool) (w : World identifying) :=
  (j.prog identifying).runWith (respondWith pools) w

/-- A block is processed while no pool is known. -/
def unidentified : World identifying := (runJob processJob [] minedWorld).2.2

def pool : Pool := ⟨"Pool", "https://pool.example", [], ["/pool/"]⟩

/-- The same pool, of which the list has no name yet. -/
def unnamed : Pool := { pool with name := "Unknown" }

/-- A block is processed while the pool has no name. -/
def namedUnknown : World identifying := (runJob processJob [unnamed] minedWorld).2.2

def retryJob : Job := .retryUnknownPoolIdentification .bitcoin

theorem poolInfo_renamed : ((runJob retryJob [pool] unidentified).2.2.db.block.rows.map
    (fun row => poolInfo row.toNewBlock)) = [("Pool", "", "")] := by
  decide +kernel

def renames : Event Daemon.signature (World lib) → Bool
  | ⟨_, .sql (.updatePoolNameWithBlockId _ _), .ok _⟩ => true
  | _ => false

/-- A call of process sets no name. -/
theorem renames_of_process {rs : RandomState} {block : Bitcoin.Block}
    {fees : GetBlockTxFeesResult} {lt : List GetBlockTemplateResult} {p : Routine Unit}
    (hp : Path (Process.process lib rs network block fees lt) tr p) {e} (he : e ∈ tr) :
    renames e = false := by
  obtain ⟨tr₁, tr₂, rfl⟩ := List.append_of_mem he
  have hi := process_issues.issued hp
  unfold renames
  split
  · exact hi.elim
  · rfl

theorem renameMatches_of_not_renames {i : Thread} {e : Event Daemon.signature (World lib)}
    (h : renames e = false) : RenameMatches C (.call i e) := by
  unfold RenameMatches
  split
  · rename_i heq
    cases heq
    cases h
  · trivial

/-- The main loop sets no name on the path of its job. -/
theorem processJob_renameMatches {C : Config identifying} {l : Label identifying}
    {pools : List Pool}
    (hl : Tasks.OnPath .mainLoop processJob (runJob processJob pools minedWorld).1 C l) :
    RenameMatches C l := by
  have hx := Prog.exec_runWith (E := Daemon.environment Drift.none) (respondWith_answers pools)
    (processJob.prog identifying) minedWorld
  cases hl with
  | start => trivial
  | drift => trivial
  | @call pre post e rest htr _ _ =>
    have he : e ∈ (runJob processJob pools minedWorld).1 :=
      htr ▸ List.mem_append_right _ List.mem_cons_self
    exact renameMatches_of_not_renames (renames_of_process hx.path he)

/-- The only pool that the thread finds is the one on the list. -/
theorem pool_of_finds {w : World identifying} {pre post : Calls identifying}
    (htr : (runJob retryJob [pool] w).1 = pre ++ post) {block : Bitcoin.Block}
    {result : IdentificationResult} (hf : Finds identifying network pre block result) :
    result = ⟨pool, .tag⟩ := by
  obtain ⟨tr, u, hash, v, pools, rfl, ho⟩ := hf
  have hm : (⟨v, Call.lockPools, pools⟩ : Event Daemon.signature (World identifying)) ∈
      (runJob retryJob [pool] w).1 := by simp [htr]
  obtain rfl : pools = [pool] := Prog.reply_of_mem_runWith hm
  exact (Option.some.inj ho).symm

/-- Every row that the thread meets has the link and the method of the pool that it finds. -/
theorem retryJob_renameMatches {C : Config identifying} {l : Label identifying}
    (hl : Tasks.OnPath .reidentification retryJob (runJob retryJob [pool] namedUnknown).1 C l) :
    RenameMatches C l := by
  have hrows : ∀ e ∈ (runJob retryJob [pool] namedUnknown).1, ∀ row ∈ e.pre.db.block.rows,
      (row.poolLink, row.poolIdMethod) = (getPoolInfoOrDefault (some ⟨pool, .tag⟩)).2 := by
    decide +kernel
  cases hl with
  | start => trivial
  | drift => trivial
  | @call pre post e rest htr hw hi =>
    have he : e ∈ (runJob retryJob [pool] namedUnknown).1 :=
      htr ▸ List.mem_append_right _ List.mem_cons_self
    unfold RenameMatches
    split
    · rename_i heq
      cases heq
      intro t network block result ht _ hf row hrow _
      rw [hi] at ht
      cases ht
      rw [pool_of_finds htr hf]
      exact .inr (hrows _ he row (hw ▸ hrow))
    · trivial

section Samples

variable {P : Config identifying → Label identifying → Prop}

/-- A thread runs a job while no other one moves. -/
theorem reaches_runJob {i : Thread} {j : Job} {C : Config identifying} (pools : List Pool)
    (hP : ∀ C' l, Tasks.OnPath i j (runJob j pools C.world).1 C' l → P C' l)
    (hend : ∀ C, P C (.finish i)) (hi : C.running i = none) (hj : Interleaving i j C.world) :
    ∃ ended, Tasks.Reaches (system identifying .reorganises Interleaving) P C
      { C with world := (runJob j pools C.world).2.2, ended := ended } := by
  obtain ⟨ended, h⟩ := Tasks.reaches_of_runWith (Y := system identifying .reorganises Interleaving)
    C (respondWith_answers pools) hP hend hi hj
  exact ⟨ended, h⟩

/-- A block is processed with one list of pools, and then the re-identification thread goes through
the table with the other. -/
theorem reaches_retry (pools pools' : List Pool) {w : World identifying}
    (hw : (runJob processJob pools minedWorld).2.2 = w)
    (hprocess : ∀ C l,
      Tasks.OnPath .mainLoop processJob (runJob processJob pools minedWorld).1 C l → P C l)
    (hretry : ∀ C l,
      Tasks.OnPath .reidentification retryJob (runJob retryJob pools' w).1 C l → P C l)
    (hend : ∀ C i, P C (.finish i)) :
    ∃ C₀ C : Config identifying, Tasks.Idle (Consistent (fun _ _ => False)) C₀ ∧
      Tasks.Reaches (system identifying .reorganises Interleaving) P C₀ C ∧
      C.world = (runJob retryJob pools' w).2.2 := by
  have h₀ : Tasks.Idle (Consistent (fun _ _ => False))
      (⟨minedWorld, fun _ => none, []⟩ : Config identifying) :=
    ⟨⟨List.nodup_nil, fun row hrow => by cases hrow⟩, fun _ => rfl, rfl⟩
  obtain ⟨ended₁, h₁⟩ := reaches_runJob (C := ⟨minedWorld, fun _ => none, []⟩) pools hprocess
    (fun C => hend C _) rfl trivial
  rw [hw] at h₁
  obtain ⟨ended₂, h₂⟩ := reaches_runJob (C := ⟨w, fun _ => none, ended₁⟩) pools' hretry
    (fun C => hend C _) rfl trivial
  exact ⟨_, _, h₀, h₁.trans h₂, rfl⟩

end Samples

/-- The list gets the name of the pool, and the thread writes it to the row. -/
theorem oneOutcome_renamed : ∃ ρ : InterleavingRun identifying,
    (ρ.last.world.db.block.rows.map (fun row => poolInfo row.toNewBlock) =
      [("Pool", "https://pool.example", "coinbase tag")]) ∧
      ∀ i ≤ ρ.length, OneOutcome (fun _ _ => False) (ρ.state i) := by
  obtain ⟨C₀, C, h₀, hreach, hw⟩ := reaches_retry (P := RenameMatches) [unnamed] [pool] rfl
    (fun _ _ => processJob_renameMatches) (fun _ _ => retryJob_renameMatches) (fun _ _ => trivial)
  obtain ⟨ρ, rfl, hρ⟩ := Run.exists_last .drift h₀ hreach
  refine ⟨ρ, ?_, oneOutcome_of_renameMatches Drift.keepsDb_reorganises ρ hρ⟩
  rw [hw]
  decide +kernel

theorem getPoolInfoOrDefault_ne (o : Option IdentificationResult) :
    getPoolInfoOrDefault o ≠ ("Pool", "", "") := by
  cases o with
  | none => simp [getPoolInfoOrDefault]
  | some result =>
    intro h
    have hm := congrArg (fun p => p.2.2) h
    simp only [getPoolInfoOrDefault] at hm
    split_ifs at hm <;> simp at hm

/-- The thread sets the name of the pool that it finds, and leaves link and method empty. -/
theorem oneOutcome_fails : ¬ ∀ ρ : InterleavingRun identifying, ∀ i ≤ ρ.length,
    OneOutcome (fun _ _ => False) (ρ.state i) := by
  intro h
  obtain ⟨C₀, C, h₀, hreach, hw⟩ := reaches_retry (P := fun _ _ => True) [] [pool] rfl
    (fun _ _ _ => trivial) (fun _ _ _ => trivial) (fun _ _ => trivial)
  obtain ⟨ρ, hρ, -⟩ := Run.exists_last .drift h₀ hreach
  have hrows : (ρ.state ρ.length).world.db.block.rows.map (fun row => poolInfo row.toNewBlock) =
      [("Pool", "", "")] := by
    rw [show ρ.state ρ.length = C from hρ, hw]
    exact poolInfo_renamed
  obtain ⟨row, hrow, hinfo⟩ := List.mem_map.mp (hrows ▸ List.mem_singleton_self _)
  obtain ⟨hash, o, -, -, ho⟩ := h ρ ρ.length le_rfl row hrow
  exact getPoolInfoOrDefault_ne o (ho.symm.trans hinfo)

end MiningpoolObserver.PoolNames
