import MiningpoolObserver.Library.CallTree
import MiningpoolObserver.Library.LinkedChain
import MiningpoolObserver.Db

namespace MiningpoolObserver.Daemon

open MiningpoolObserver.Library.CallTree MiningpoolObserver.Library.LinkedChain
open MiningpoolObserver.Bitcoin MiningpoolObserver.Db

/-- What the threads of the daemon ask the outside for. -/
inductive Call where
  | poolGet
  | sql (s : Statement)
  | getMempoolEntry (txid : Txid)
  | getRawTransaction (txid : Txid)
  | getBlock (hash : BlockHash)
  | scanTxOutSetBlocking (descriptors : List ScanTxOutRequest)
  | httpGet
  | utcNow
  | localNow
  /-- Seconds since a clock was started. -/
  | elapsed
  | lockPools

/-- An RPC or a connection that fails says why, and the daemon only logs it. -/
abbrev Reply : Call → Type
  | .poolGet => Except String Unit
  | .sql s => Except DbError s.Result
  | .getMempoolEntry _ => Except String UInt64
  | .getRawTransaction _ => Except String Bitcoin.Transaction
  | .getBlock _ => Except String Bitcoin.Block
  | .scanTxOutSetBlocking _ => Except String ScanTxOutResult
  | .httpGet => Except String HttpResponse
  | .utcNow => NaiveDateTime
  | .localNow => Int64
  | .elapsed => UInt64
  | .lockPools => List Pool

abbrev signature : Signature := ⟨Call, Reply⟩

def execute (s : Statement) : Prog signature (Except DbError s.Result) :=
  .call (Call.sql s) (fun r => .done r)

variable (lib : Crates)

def hashOf (b : Bitcoin.Block) : BlockHash := lib.blockHash b.header

def parentOf (b : Bitcoin.Block) : BlockHash := b.header.prevBlockhash

/-- A Bitcoin node: every block it has seen, and the chain it takes to be the active one. -/
structure Node where
  known : List Bitcoin.Block
  chain : Chain (hashOf lib) parentOf {b | b ∈ known}

variable {lib}

theorem Node.known_of_at {n : Node lib} {i : Nat} {b : Bitcoin.Block}
    (h : n.chain.at? i = some b) : b ∈ n.known := by
  have hk := Chain.known_of_at h
  exact hk

theorem Node.prevBlockhash_eq {n : Node lib} {i : Nat} {a b : Bitcoin.Block}
    (ha : n.chain.at? i = some a) (hb : n.chain.at? (i + 1) = some b) :
    b.header.prevBlockhash = hashOf lib a := by
  have hp := Chain.parent_eq ha hb
  exact hp

/-- The active chain is extended by any number of blocks. -/
def Node.Grows (n n' : Node lib) : Prop :=
  n.known ⊆ n'.known ∧ n.chain.blocks <+: n'.chain.blocks

/-- The active chain is replaced by any other one from the same first block. -/
def Node.Reorganises (n n' : Node lib) : Prop :=
  n.known ⊆ n'.known ∧ n.chain.genesis = n'.chain.genesis

theorem Node.Grows.reorganises {n n' : Node lib} (h : n.Grows n') : n.Reorganises n' :=
  ⟨h.1, Chain.genesis_of_grows h.2⟩

variable (lib)

/-- Every output of some blocks, with the height of its block. -/
def outputsOf (blocks : List Bitcoin.Block) : List ScanTxOutUtxo :=
  blocks.zipIdx.flatMap (fun (b, height) => b.txdata.flatMap (fun tx =>
    tx.output.zipIdx.map (fun (output, vout) =>
      { txid := lib.computeTxid tx
        vout := UInt32.ofNat vout
        scriptPubKey := output.scriptPubkey
        amount := output.value
        height := UInt64.ofNat height })))

/-- The outpoints that a block spends. -/
def spentBy (b : Bitcoin.Block) : List OutPoint :=
  b.txdata.flatMap (fun tx => tx.input.map (fun input => input.previousOutput))

def Spent (blocks : List Bitcoin.Block) (o : OutPoint) : Prop := ∃ b ∈ blocks, o ∈ spentBy b

instance (blocks : List Bitcoin.Block) (o : OutPoint) : Decidable (Spent blocks o) :=
  inferInstanceAs (Decidable (∃ b ∈ blocks, o ∈ spentBy b))

def matchesAny (descriptors : List ScanTxOutRequest) (script : ScriptBuf) : Bool :=
  descriptors.any (fun d => lib.parseAddress d.addr = some script)

/-- The unspent outputs that a scan of the UTXO set finds. -/
def scanTxOutSet (blocks : List Bitcoin.Block) (descriptors : List ScanTxOutRequest) :
    List ScanTxOutUtxo :=
  (outputsOf lib blocks).filter
    (fun u => matchesAny lib descriptors u.scriptPubKey && !decide (Spent blocks ⟨u.txid, u.vout⟩))

/-- The shared state of the daemon's threads. -/
structure World where
  db : Database
  node : Node lib

variable {lib}

/-- How a call is answered. Every call may fail, and one that fails changes nothing. -/
def answer (w : World lib) : (c : Call) → Reply c → World lib → Prop
  | .sql s, .ok r, w' => s.Succeeds w.db r w'.db ∧ w'.node = w.node
  | .getRawTransaction txid, .ok tx, w' => lib.computeTxid tx = txid ∧ w' = w
  | .getBlock hash, .ok b, w' => b ∈ w.node.known ∧ hashOf lib b = hash ∧ w' = w
  | .scanTxOutSetBlocking descriptors, .ok result, w' =>
    result.unspents.Perm (scanTxOutSet lib w.node.chain.blocks descriptors) ∧ w' = w
  | _, _, w' => w' = w

/-- How the shared state may change while a thread is between two calls. -/
structure Drift (lib : Crates) where
  rel : World lib → World lib → Prop
  refl : ∀ w, rel w w
  trans : ∀ w w' w'', rel w w' → rel w' w'' → rel w w''

namespace Drift

def none : Drift lib := ⟨Eq, fun _ => rfl, fun _ _ _ => Eq.trans⟩

/-- Only the node moves, and only forward. -/
def grows : Drift lib where
  rel w w' := w.db = w'.db ∧ w.node.Grows w'.node
  refl _ := ⟨rfl, fun _ h => h, List.prefix_refl _⟩
  trans _ _ _ h h' :=
    ⟨h.1.trans h'.1, fun _ hb => h'.2.1 (h.2.1 hb), h.2.2.trans h'.2.2⟩

/-- Only the node moves, to any other chain from the same first block. -/
def reorganises : Drift lib where
  rel w w' := w.db = w'.db ∧ w.node.Reorganises w'.node
  refl _ := ⟨rfl, fun _ h => h, rfl⟩
  trans _ _ _ h h' :=
    ⟨h.1.trans h'.1, fun _ hb => h'.2.1 (h.2.1 hb), h.2.2.trans h'.2.2⟩

/-- The chain grows, and other threads write to the database. -/
def sharedGrows : Drift lib where
  rel w w' := w.node.Grows w'.node
  refl _ := ⟨fun _ h => h, List.prefix_refl _⟩
  trans _ _ _ h h' := ⟨fun _ hb => h'.1 (h.1 hb), h.2.trans h'.2⟩

/-- The chain may reorganise, and other threads write to the database. -/
def sharedReorganises : Drift lib where
  rel w w' := w.node.Reorganises w'.node
  refl _ := ⟨fun _ h => h, rfl⟩
  trans _ _ _ h h' := ⟨fun _ hb => h'.1 (h.1 hb), h.2.trans h'.2⟩

/-- The chain grows, and other threads write to the database, but neither to the address list nor to
the table of sanctioned UTXOs. -/
def noRescan : Drift lib where
  rel w w' := w.node.Grows w'.node ∧ w'.db.sanctionedAddresses = w.db.sanctionedAddresses ∧
    w'.db.sanctionedUtxo = w.db.sanctionedUtxo
  refl _ := ⟨⟨fun _ h => h, List.prefix_refl _⟩, rfl, rfl⟩
  trans _ _ _ h h' := ⟨⟨fun _ hb => h'.1.1 (h.1.1 hb), h.1.2.trans h'.1.2⟩,
    h'.2.1.trans h.2.1, h'.2.2.trans h.2.2⟩

theorem sharedGrows_of_noRescan {w w' : World lib} (h : noRescan.rel w w') :
    sharedGrows.rel w w' := h.1

/-- The database is left alone. -/
def KeepsDb (D : Drift lib) : Prop := ∀ w w', D.rel w w' → w.db = w'.db

theorem keepsDb_grows : KeepsDb (grows : Drift lib) := fun _ _ h => h.1
theorem keepsDb_reorganises : KeepsDb (reorganises : Drift lib) := fun _ _ h => h.1

end Drift

def environment (D : Drift lib) : Environment signature (World lib) where
  drift := D.rel
  answer w c r w' := answer w c r w'
  drift_refl := D.refl
  drift_trans := D.trans

/-- No call moves the node. -/
theorem node_of_answer {w w' : World lib} {c : Call} {r : Reply c} (h : answer w c r w') :
    w'.node = w.node := by
  unfold answer at h
  split at h
  · exact h.2
  · rw [h.2]
  · rw [h.2.2]
  · rw [h.2]
  · rw [h]

/-- What an answer does to the database: nothing, or what a statement does that succeeds. -/
inductive DbAnswer : Event signature (World lib) → World lib → Prop
  | same {e : Event signature (World lib)} {w' : World lib} :
      (∀ w s a, e ≠ ⟨w, Call.sql s, Except.ok a⟩) → w'.db = e.pre.db → DbAnswer e w'
  | exec {w w' : World lib} {s : Statement} {a : s.Result} : s.Succeeds w.db a w'.db →
      DbAnswer ⟨w, Call.sql s, Except.ok a⟩ w'

/-- Only statements touch the database. -/
theorem dbAnswer_of_answer {w w' : World lib} {c : Call} {r : Reply c} (h : answer w c r w') :
    DbAnswer ⟨w, c, r⟩ w' := by
  by_cases hs : ∃ s, c = .sql s
  · obtain ⟨s, rfl⟩ := hs
    cases r with
    | ok a => exact .exec h.1
    | error e =>
      have hw : w' = w := h
      exact .same (fun _ _ _ he => by cases he) (by rw [hw])
  · have hne : ∀ v s a,
        (⟨w, c, r⟩ : Event signature (World lib)) ≠ ⟨v, Call.sql s, Except.ok a⟩ := by
      intro v s a he
      cases he
      exact hs ⟨s, rfl⟩
    refine .same hne ?_
    unfold answer at h
    split at h
    · exact absurd ⟨_, rfl⟩ hs
    · rw [h.2]
    · rw [h.2.2]
    · rw [h.2]
    · rw [h]

end MiningpoolObserver.Daemon
