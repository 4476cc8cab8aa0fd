import MiningpoolObserver.ChainView

namespace MiningpoolObserver.Simulation

open MiningpoolObserver.Library.CallTree MiningpoolObserver.Library.LinkedChain
open MiningpoolObserver.Library.HashCollections MiningpoolObserver.Library.Runs
open MiningpoolObserver.Bitcoin MiningpoolObserver.Db MiningpoolObserver.Daemon
open MiningpoolObserver.Process MiningpoolObserver.MainLoop MiningpoolObserver.ChainView

variable {lib : Crates} {network : Network}

/-- One way for the outside to answer: which calls fail, the next block id, the address list. -/
structure Outside where
  poolFails : Bool
  sqlFails : Statement → Bool
  nextId : Int64
  addressList : List String

def Outside.healthy : Outside := ⟨false, fun _ => false, 7, []⟩

def respondSql (o : Outside) (w : World lib) (s : Statement) :
    Except DbError s.Result × World lib :=
  if o.sqlFails s then (.error .other, w)
  else match s.exec o.nextId w.db with
    | .ok (r, db) => (.ok r, { w with db := db })
    | .error e => (.error e, w)

def findTransaction (w : World lib) (txid : Txid) : Except String Bitcoin.Transaction :=
  match (w.node.known.flatMap (fun b => b.txdata)).find? (fun tx => lib.computeTxid tx = txid) with
  | some tx => .ok tx
  | none => .error "No such mempool or blockchain transaction"

def findBlock (n : Node lib) (hash : BlockHash) : Except String Bitcoin.Block :=
  match n.known.find? (fun b => hashOf lib b = hash) with
  | some b => .ok b
  | none => .error "Block not found"

theorem findBlock_eq_ok {n : Node lib} {hash : BlockHash} {b : Bitcoin.Block}
    (h : findBlock n hash = .ok b) : b ∈ n.known ∧ hashOf lib b = hash := by
  unfold findBlock at h
  cases hx : n.known.find? (fun b => hashOf lib b = hash) with
  | none =>
    rw [hx] at h
    cases h
  | some c =>
    rw [hx] at h
    cases h
    exact ⟨List.mem_of_find?_eq_some hx, by simpa using List.find?_some hx⟩

def respond (o : Outside) (w : World lib) : (c : Daemon.Call) → Daemon.Reply c × World lib
  | .poolGet => (if o.poolFails then .error "timed out waiting for connection" else .ok (), w)
  | .sql s => respondSql o w s
  | .getMempoolEntry _ => (.ok 0, w)
  | .getRawTransaction txid => (findTransaction w txid, w)
  | .getBlock hash => (findBlock w.node hash, w)
  | .scanTxOutSetBlocking descriptors =>
    (.ok ⟨none, scanTxOutSet lib w.node.chain.blocks descriptors, 0⟩, w)
  | .httpGet => (.ok ⟨200, "OK", some o.addressList⟩, w)
  | .utcNow => (0, w)
  | .localNow => (0, w)
  | .elapsed => (0, w)
  | .lockPools => ([], w)

theorem respondSql_answers (o : Outside) (w : World lib) (s : Statement) :
    Daemon.answer w (.sql s) (respondSql o w s).1 (respondSql o w s).2 := by
  unfold respondSql
  by_cases hf : o.sqlFails s = true
  · rw [if_pos hf]
    rfl
  · rw [if_neg hf]
    cases hx : s.exec o.nextId w.db with
    | error e => rfl
    | ok r => exact ⟨⟨o.nextId, r.1, hx, .refl⟩, rfl⟩

theorem findTransaction_answers (w : World lib) (txid : Txid) :
    Daemon.answer w (.getRawTransaction txid) (findTransaction w txid) w := by
  unfold findTransaction
  cases hx : (w.node.known.flatMap (fun b => b.txdata)).find?
      (fun tx => lib.computeTxid tx = txid) with
  | none => rfl
  | some tx => exact ⟨by simpa using List.find?_some hx, rfl⟩

theorem respond_answers (o : Outside) (w : World lib) (c : Daemon.Call) :
    Daemon.answer w c (respond o w c).1 (respond o w c).2 := by
  cases c with
  | poolGet =>
    simp only [respond]
    cases o.poolFails <;> rfl
  | sql s => exact respondSql_answers o w s
  | getRawTransaction txid => exact findTransaction_answers w txid
  | getBlock hash =>
    simp only [respond]
    cases hx : findBlock w.node hash with
    | error e => rfl
    | ok b =>
      obtain ⟨hb, hh⟩ := findBlock_eq_ok hx
      exact ⟨hb, hh, rfl⟩
  | scanTxOutSetBlocking descriptors => exact ⟨List.Perm.refl _, rfl⟩
  | getMempoolEntry _ => rfl
  | httpGet => rfl
  | utcNow => rfl
  | localNow => rfl
  | elapsed => rfl
  | lockPools => rfl

/-- Running a program against one outside is an execution among quiet threads. -/
theorem exec_respond (D : Drift lib) (o : Outside) {α : Type} (p : Prog Daemon.signature α)
    (w : World lib) :
    Exec (Daemon.environment D) p w (p.runWith (respond o) w).1 (p.runWith (respond o) w).2.1
      (p.runWith (respond o) w).2.2 :=
  Prog.exec_runWith (E := Daemon.environment D) (respond_answers o) p w

/-- An empty template for the next block. -/
def templateOf (n : Node lib) : GetBlockTemplateResult where
  previousBlockHash := hashOf lib n.chain.tip
  height := n.chain.length
  currentTime := 0
  coinbaseValue := 0
  transactions := []

theorem isTemplate_templateOf (n : Node lib) : IsTemplate n (templateOf n) :=
  ⟨rfl, n.chain.tip, n.chain.at_tip, rfl⟩

def feesOf (lib : Crates) (b : Bitcoin.Block) : GetBlockTxFeesResult where
  tx := b.txdata.map (fun tx => ⟨lib.computeTxid tx, 0⟩)

def respondRpc (network : Network) (o : Outside) (w : World lib) :
    (c : MainLoop.Call) → MainLoop.Reply lib c × World lib
  | .getBlockTemplate => (.ok (templateOf w.node), w)
  | .getBlock hash => (findBlock w.node hash, w)
  | .getBlockHash height => (match w.node.chain.at? height with
      | some b => .ok (hashOf lib b)
      | none => .error "Block height out of range", w)
  | .getBlockTxidFee hash => ((findBlock w.node hash).map (feesOf lib), w)
  | .process block fees lt =>
    let run := (process lib .inserted network block fees lt).runWith (respond o) w
    (⟨run.1, run.2.1⟩, run.2.2)

theorem respondRpc_answers (D : Drift lib) (o : Outside) (w : World lib) (c : MainLoop.Call) :
    MainLoop.answer network D w c (respondRpc network o w c).1 (respondRpc network o w c).2 := by
  cases c with
  | getBlockTemplate => exact ⟨rfl, isTemplate_templateOf w.node⟩
  | getBlock hash =>
    simp only [respondRpc]
    cases hx : findBlock w.node hash with
    | error e => rfl
    | ok b => exact ⟨rfl, findBlock_eq_ok hx⟩
  | getBlockHash height =>
    simp only [respondRpc]
    cases hx : w.node.chain.at? height with
    | none => rfl
    | some b => exact ⟨rfl, b, hx, rfl⟩
  | getBlockTxidFee hash =>
    simp only [respondRpc]
    cases hx : findBlock w.node hash with
    | error e => rfl
    | ok b =>
      refine ⟨rfl, fun c hc hch => ?_⟩
      have hb := findBlock_eq_ok hx
      obtain rfl : c = b := w.node.chain.hash_injOn hc hb.1 (hch.trans hb.2.symm)
      simp [feesOf, Function.comp_def]
  | process block fees lt => exact ⟨.inserted, exec_respond D o _ w⟩

/-- What the outside does during a run: the chain and the answers in each iteration. -/
structure Schedule (lib : Crates) where
  node : ℕ → Node lib
  outside : ℕ → Outside
  db : Database

namespace Schedule

def iterate (σ : Schedule lib) (network : Network) (i : ℕ) (s : State lib) :
    Trace lib × State lib :=
  match s.templates with
  | none => ([], s)
  | some lt =>
    let run := (iteration lib lt).runWith (respondRpc network (σ.outside i))
      { s.world with node := σ.node i }
    (run.1, ⟨run.2.1, run.2.2⟩)

def state (σ : Schedule lib) (network : Network) : ℕ → State lib
  | 0 => ⟨some [], ⟨σ.db, σ.node 0⟩⟩
  | i + 1 => (σ.iterate network i (σ.state network i)).2

def label (σ : Schedule lib) (network : Network) (i : ℕ) : Trace lib :=
  (σ.iterate network i (σ.state network i)).1

/-- The thread has not panicked before the first `n` iterations are over. -/
def Alive (σ : Schedule lib) (network : Network) (n : ℕ) : Prop :=
  ∀ i < n, (σ.state network i).templates.isSome

instance (σ : Schedule lib) (n : ℕ) : Decidable (σ.Alive network n) :=
  inferInstanceAs (Decidable (∀ i < n, (σ.state network i).templates.isSome))

variable {σ : Schedule lib} {D : Drift lib} {R : Node lib → Node lib → Prop}

theorem exec_iterate (σ : Schedule lib) (network : Network) (D : Drift lib) (i : ℕ)
    {s : State lib} {lt : List GetBlockTemplateResult} (hs : s.templates = some lt) :
    Exec (MainLoop.environment network D) (iteration lib lt) { s.world with node := σ.node i }
      (σ.iterate network i s).1 (σ.iterate network i s).2.templates
      (σ.iterate network i s).2.world := by
  unfold iterate
  rw [hs]
  exact Prog.exec_runWith (E := MainLoop.environment network D)
    (respondRpc_answers D (σ.outside i)) _ _

theorem node_state {i : ℕ} (hi : (σ.state network i).templates.isSome) :
    (σ.state network (i + 1)).world.node = σ.node i := by
  obtain ⟨lt, hs⟩ := Option.isSome_iff_exists.mp hi
  exact (follows_none.answers (exec_iterate σ network Drift.none i hs).answers).symm

/-- The chain moves from one iteration to the next. -/
theorem node_follows (hR : Follows D R) (hnode : ∀ i, R (σ.node i) (σ.node (i + 1))) {i n : ℕ}
    (halive : σ.Alive network n) (hi : i < n) : R (σ.state network i).world.node (σ.node i) := by
  cases i with
  | zero => exact hR.refl _
  | succ i =>
    rw [node_state (halive i (by omega))]
    exact hnode i

theorem step {i n : ℕ} (halive : σ.Alive network n) (hi : i < n)
    (hd : D.rel (σ.state network i).world { (σ.state network i).world with node := σ.node i }) :
    Step network D (σ.state network i) (σ.label network i) (σ.state network (i + 1)) := by
  obtain ⟨lt, hs⟩ := Option.isSome_iff_exists.mp (halive i hi)
  have hx := exec_iterate σ network D i hs
  exact ⟨lt, hs, hx.path, hx.answers.drift_left hd⟩

/-- A schedule whose chain moves as the drift allows is a run of the loop. -/
def run (σ : Schedule lib) (network : Network) (n : ℕ) (hR : Follows D R)
    (hD : ∀ w w', R w.node w'.node → D.rel w w') (hnode : ∀ i, R (σ.node i) (σ.node (i + 1)))
    (halive : σ.Alive network n) : LoopRun lib network D where
  length := n
  state := σ.state network
  label := σ.label network
  starts := rfl
  steps _ hi := step halive hi (hD _ _ (node_follows hR hnode halive hi))

end Schedule

/-! A small chain to run schedules on. -/

def hashOfByte (n : UInt8) : Hash256 := ⟨n :: List.replicate 31 0, by simp⟩

def listedScript : ScriptBuf := [1]
def otherScript : ScriptBuf := [2]

/-- A transaction without a witness is told apart by its lock time, a block by its nonce. -/
def sample : Crates where
  computeTxid tx := hashOfByte tx.lockTime.toUInt8
  isCoinbase tx := tx.input.any (fun i => i.previousOutput = ⟨hashOfByte 0, 0xffffffff⟩)
  isLockTimeEnabled tx := tx.input.any (fun i => i.sequence ≠ 0xffffffff)
  vsize _ := 100
  weight _ := 400
  sigops _ := some 0
  isOpReturn script := script.head? = some 0x6a
  addressFromScript script :=
    if script = listedScript then some "listed"
    else if script = otherScript then some "other" else none
  parseAddress address :=
    if address = "listed" then some listedScript
    else if address = "other" then some otherScript else none
  deserialize _ := none
  blockHash h := hashOfByte h.nonce.toUInt8
  blockWeight _ := 1000
  bip34BlockHeight _ := none
  isSignallingSoftFork _ _ := false
  rawTxInfo tx := some
    { vsize := 100
      locktime := .fromConsensus tx.lockTime
      inputTypes := []
      outputTypes := []
      outputValueSum := 0
      hasNonOpreturnOutputSmallerThan := fun _ => false
      isSpendingSegwit := false
      isSpendingTaproot := false
      isSpendingMultisig := false
      isSignalingExplicitRbfReplicability := false
      potentiallyCoinjoin := false
      potentiallyConsolidation := false }
  isP2msCounterparty _ := false
  isOpreturnCounterparty _ := false
  isP2shCounterparty _ := false
  revealsInscription _ := some false
  displayScriptType _ := "unknown"
  identifyPool _ _ _ := none
  timestamp seconds := some seconds.toInt

def sampleTx (id : UInt32) (spends : OutPoint) (script : ScriptBuf) : Bitcoin.Transaction where
  version := 2
  lockTime := id
  input := [⟨spends, [], 0xffffffff, []⟩]
  output := [⟨5000, script⟩]

def coinbaseTx (id : UInt32) (script : ScriptBuf) : Bitcoin.Transaction :=
  sampleTx id ⟨hashOfByte 0, 0xffffffff⟩ script

def sampleBlock (prev : UInt8) (nonce : UInt32) (txdata : List Bitcoin.Transaction) :
    Bitcoin.Block where
  header :=
    { version := 0x20000000
      prevBlockhash := hashOfByte prev
      merkleRoot := hashOfByte 0
      time := 0
      bits := 0
      nonce := nonce }
  txdata := txdata

/-- A block that pays its miner, and nothing else. -/
def minedBlock (prev : UInt8) (nonce : UInt32) : Bitcoin.Block :=
  sampleBlock prev nonce [coinbaseTx (nonce + 100) otherScript]

/-- What makes a list of blocks the active chain of a node. -/
def IsActive (lib : Crates) (known rest : List Bitcoin.Block) (genesis : Bitcoin.Block) : Prop :=
  (∀ b ∈ genesis :: rest, b ∈ known) ∧
    (genesis :: rest).IsChain (fun a b => parentOf b = hashOf lib a) ∧
      (known.map (hashOf lib)).Nodup ∧ ∀ b ∈ known, hashOf lib b ≠ parentOf genesis

instance (lib : Crates) (known rest : List Bitcoin.Block) (genesis : Bitcoin.Block) :
    Decidable (IsActive lib known rest genesis) :=
  inferInstanceAs (Decidable (_ ∧ _))

def nodeOf {known rest : List Bitcoin.Block} {genesis : Bitcoin.Block}
    (h : IsActive lib known rest genesis) : Node lib where
  known := known
  chain :=
    { genesis := genesis
      rest := rest
      mem_known := h.1
      linked := h.2.1
      hash_injOn := fun _ ha _ hb he => List.inj_on_of_nodup_map h.2.2.1 ha hb he
      genesis_first := h.2.2.2 }

/-! Four blocks in a row, and the nodes that have seen some of them. -/

def block₀ : Bitcoin.Block := minedBlock 0 1
def block₁ : Bitcoin.Block := minedBlock 1 2
def block₂ : Bitcoin.Block := minedBlock 2 3
def block₃ : Bitcoin.Block := minedBlock 3 4

def chain₀ : Node sample :=
  nodeOf (by decide : IsActive sample [block₀] [] block₀)
def chain₁ : Node sample :=
  nodeOf (by decide : IsActive sample [block₀, block₁] [block₁] block₀)
def chain₂ : Node sample :=
  nodeOf (by decide : IsActive sample [block₀, block₁, block₂] [block₁, block₂] block₀)

theorem chain₀_grows : chain₀.Grows chain₁ := ⟨List.subset_append_left _ _, [block₁], rfl⟩
theorem chain₁_grows : chain₁.Grows chain₂ := ⟨List.subset_append_left _ _, [block₂], rfl⟩

/-- The node changes once, before iteration `k`. -/
def switch (k : ℕ) (n n' : Node lib) (i : ℕ) : Node lib := if i < k then n else n'

theorem switch_follows {D : Drift lib} {R : Node lib → Node lib → Prop} (hR : Follows D R)
    {n n' : Node lib} (h : R n n') (k i : ℕ) : R (switch k n n' i) (switch k n n' (i + 1)) := by
  unfold switch
  split_ifs with h₁ h₂
  · exact hR.refl _
  · exact h
  · omega
  · exact hR.refl _

def brokenPool : Outside := { Outside.healthy with poolFails := true }

/-- Two blocks arrive between two polls, and no call of process gets a connection. -/
def skippedBlock (k : ℕ) : Schedule sample :=
  ⟨switch k chain₀ chain₂, fun _ => brokenPool, .empty⟩

def skippedBlockRun (k n : ℕ) (h : (skippedBlock k).Alive .bitcoin n) :
    LoopRun sample .bitcoin Drift.sharedGrows :=
  (skippedBlock k).run .bitcoin n follows_grows (fun _ _ h => h)
    (switch_follows follows_grows (follows_grows.trans _ _ _ chain₀_grows chain₁_grows) k) h

end MiningpoolObserver.Simulation
