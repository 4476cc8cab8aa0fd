import MiningpoolObserver.Library.Tasks
import MiningpoolObserver.Process

namespace MiningpoolObserver.Threads

open MiningpoolObserver.Library MiningpoolObserver.Library.CallTree
open MiningpoolObserver.Library.HashCollections
open MiningpoolObserver.Bitcoin MiningpoolObserver.DaemonModel MiningpoolObserver.SharedModel
open MiningpoolObserver.Db MiningpoolObserver.Daemon MiningpoolObserver.Process
open MiningpoolObserver.Processing.Transactions

variable (lib : Crates)

/-- The addresses that parse, as descriptors. -/
def descriptorsOf (addrs : List String) : List ScanTxOutRequest :=
  (addrs.filter (fun addr => (lib.parseAddress addr).isSome)).map (fun addr => ⟨addr⟩)

def scannedUtxo (utxo : ScanTxOutUtxo) : SanctionedUtxo where
  txid := utxo.txid.reversed
  vout := utxo.vout.toInt32
  scriptPubkey := utxo.scriptPubKey
  amount := utxo.amount.toInt64
  height := utxo.height.toUInt32.toInt32

def scanInfo (result : ScanTxOutResult) (duration : UInt64) (now : NaiveDateTime) :
    SanctionedUtxoScanInfo where
  endTime := now
  endHeight := (result.height.getD 0).toUInt32.toInt32
  durationSeconds := duration.toUInt32.toInt32
  utxoCount := Int32.ofNat result.unspents.length
  utxoAmount := result.totalAmount.toInt64

def scantxoutsetSanctionedTx (addrs : List String) :
    Prog signature (Except String (List SanctionedUtxo × SanctionedUtxoScanInfo)) :=
  .call (.scanTxOutSetBlocking (descriptorsOf lib addrs)) (fun r =>
    match (r : Except String ScanTxOutResult) with
    | .error e => .done (.error e)
    | .ok result => .call .elapsed (fun duration => .call .utcNow (fun now =>
        .done (.ok (result.unspents.map scannedUtxo, scanInfo result duration now)))))

/-- The table is rewritten only when the scan information could be inserted. -/
def storeScan (utxos : List SanctionedUtxo) (info : SanctionedUtxoScanInfo) : Routine Unit :=
  .call (.sql (.insertSanctionedUtxoScanInfo info)) (fun r => match (r : Except DbError Unit) with
    | .error _ => .done (.ok ())
    | .ok () => .call (.sql (.cleanAndInsertSanctionedUtxos utxos)) (fun _ => .done (.ok ())))

/-- One round of the loop in start_sanctioned_utxos_scan_thread. -/
def scanSanctionedUtxos : Routine Unit :=
  .call .poolGet (fun r => match (r : Except String Unit) with
    | .error _ => .done (.ok ())
    | .ok () => (execute .sanctionedAddresses).bind (fun r => match r with
      | .error _ => .done (.ok ())
      | .ok t => (scantxoutsetSanctionedTx lib (t.rows.map (fun a => a.address))).bind
          (fun r => match r with
            | .error _ => .done (.ok ())
            | .ok (utxos, info) => storeScan utxos info)))

/-- The recomputed tags with those of the old ones that they lack, sorted. -/
def withOldTags (newTags oldTags : List Int) : List Int :=
  (oldTags.foldl (fun tags tag => if tag ∈ tags then tags else tags ++ [tag])
    newTags).insertionSort (· ≤ ·)

/-- A transaction that the node does not return is skipped. -/
def retagRow (sanctionedAddresses : HashSet String) (txInDb : SharedModel.Transaction) :
    Routine Unit :=
  match Hash256.fromSlice txInDb.txid.reverse with
  | none => .done (.error (.panicked .txidLength))
  | some txid => .call (.getRawTransaction txid) (fun r =>
      match (r : Except String Bitcoin.Transaction) with
      | .error _ => .done (.ok ())
      | .ok tx =>
        let oldTags := txInDb.tags.insertionSort (· ≤ ·)
        let newTags := withOldTags
          (retagTransaction lib tx ⟨txid, tx, -1, txInDb.fee.toUInt64⟩ sanctionedAddresses) oldTags
        if newTags ≠ oldTags then
          .call (.sql (.updateTransactionTags newTags txInDb.txid)) (fun _ => .done (.ok ()))
        else .done (.ok ()))

def retagRows (sanctionedAddresses : HashSet String) : List SharedModel.Transaction → Routine Unit
  | [] => .done (.ok ())
  | txInDb :: rest =>
    (retagRow lib sanctionedAddresses txInDb).andThen (fun _ => retagRows sanctionedAddresses rest)

def retagTransactions : Routine Unit :=
  .call .poolGet (fun r => match (r : Except String Unit) with
    | .error _ => .done (.ok ())
    | .ok () => (execute .allTransactions).bind (fun r => match r with
      | .error _ => .done (.ok ())
      | .ok transactionsInDb => (execute .sanctionedAddresses).bind (fun r => match r with
        | .error _ => .done (.ok ())
        | .ok addresses => retagRows lib (HashSet.collect (addresses.rows.map (fun a => a.address)))
            transactionsInDb.rows)))

def updateSanctionedAddresses : Routine Unit :=
  .call .httpGet (fun r => match (r : Except String HttpResponse) with
    | .error _ => .done (.ok ())
    | .ok response =>
      if response.statusCode ≥ 400 then .done (.ok ())
      else match response.lines with
        | none => .done (.ok ())
        | some lines => .call .poolGet (fun r => match (r : Except String Unit) with
          | .error _ => .done (.ok ())
          | .ok () =>
            .call (.sql (.replaceSanctionedAddresses
                ((lines.map (fun a => ⟨a⟩)).filter
                  (fun (a : SanctionedAddress) => (lib.parseAddress a.address).isSome))))
              (fun _ => .done (.ok ()))))

/-- A block that the node returns is identified again with the pools of the moment. -/
def reidentifyBlock (network : Network) (block : SharedModel.Block) (bitcoinBlock : Bitcoin.Block) :
    Routine Unit :=
  .call .lockPools (fun pools => match lib.identifyPool bitcoinBlock network pools with
    | none => .done (.ok ())
    | some result =>
      .call (.sql (.updatePoolNameWithBlockId block.id result.pool.name)) (fun _ => .done (.ok ())))

/-- A hash that does not parse skips its block, a block that the node does not return ends the
loop. -/
def reidentifyBlocks (network : Network) : List SharedModel.Block → Routine Unit
  | [] => .done (.ok ())
  | block :: rest => match Hash256.fromSlice block.hash.reverse with
    | none => reidentifyBlocks network rest
    | some hash => .call (.getBlock hash) (fun r => match (r : Except String Bitcoin.Block) with
      | .error _ => .done (.ok ())
      | .ok bitcoinBlock => (reidentifyBlock lib network block bitcoinBlock).andThen
          (fun _ => reidentifyBlocks network rest))

def retryUnknownPoolIdentification (network : Network) : Routine Unit :=
  .call .poolGet (fun r => match (r : Except String Unit) with
    | .error _ => .done (.ok ())
    | .ok () => (execute .unknownPoolBlocks).bind (fun r => match r with
      | .error _ => .done (.ok ())
      | .ok blocksWithUnknownPools => reidentifyBlocks lib network blocksWithUnknownPools))

/-- The work that the threads of the daemon do on the shared state. -/
inductive Job where
  | process (rs : RandomState) (network : Network) (block : Bitcoin.Block)
      (blockTxFees : GetBlockTxFeesResult) (lastTemplates : List GetBlockTemplateResult)
  | insertTransactions (txns : List SharedModel.Transaction)
  | scanSanctionedUtxos
  | retagTransactions
  | updateSanctionedAddresses
  | retryUnknownPoolIdentification (network : Network)

def Job.prog : Job → Routine Unit
  | .process rs network block blockTxFees lastTemplates =>
    Process.process lib rs network block blockTxFees lastTemplates
  | .insertTransactions txns =>
    (Process.insertTransactions txns).bind (fun r => .done (returnOnError r))
  | .scanSanctionedUtxos => Threads.scanSanctionedUtxos lib
  | .retagTransactions => Threads.retagTransactions lib
  | .updateSanctionedAddresses => Threads.updateSanctionedAddresses lib
  | .retryUnknownPoolIdentification network => Threads.retryUnknownPoolIdentification lib network

inductive Thread where
  | mainLoop
  | utxoScan
  | retag
  | addressUpdater
  | reidentification
deriving DecidableEq

/-- The work that main gives to each thread. -/
def Duty : Thread → Job → Prop
  | .mainLoop, .process _ _ _ _ _ => True
  | .utxoScan, .scanSanctionedUtxos => True
  | .retag, .retagTransactions => True
  | .addressUpdater, .updateSanctionedAddresses => True
  | .reidentification, .retryUnknownPoolIdentification _ => True
  | _, _ => False

/-- The threads with the work that each of them may begin. The node moves meanwhile. -/
def system (D : Drift lib) (allowed : Thread → Job → World lib → Prop) :
    Tasks.System signature (World lib) Thread Job (Except Abort Unit) where
  env := environment D
  prog := Job.prog lib
  allowed := allowed

abbrev Config (lib : Crates) :=
  Tasks.Config signature (World lib) Thread Job (Except Abort Unit)

abbrev Label (lib : Crates) := Tasks.Label signature (World lib) Thread Job

/-- A run of the threads from idle ones, in a world that satisfies `P`. -/
abbrev ThreadRun (D : Drift lib) (allowed : Thread → Job → World lib → Prop)
    (P : World lib → Prop) :=
  Runs.Run (Tasks.Idle P : Config lib → Prop) (Tasks.Step (system lib D allowed))

/-- What a step of the threads does to the database: nothing, or what a statement does that
succeeds. -/
inductive DbStep (C : Config lib) : Label lib → Config lib → Prop
  | same {l : Label lib} {C' : Config lib} :
      (∀ i w s a, l ≠ .call i ⟨w, Call.sql s, Except.ok a⟩) → C'.world.db = C.world.db →
      DbStep C l C'
  | exec {i : Thread} {j : Job} {tr : List (Event signature (World lib))} {s : Statement}
      {k : Reply (.sql s) → Routine Unit} {a : s.Result} {C' : Config lib} :
      C.running i = some ⟨j, tr, .call (.sql s) k⟩ → s.Succeeds C.world.db a C'.world.db →
      DbStep C (.call i ⟨C.world, Call.sql s, Except.ok a⟩) C'

variable {lib} {D : Drift lib} {allowed : Thread → Job → World lib → Prop}

theorem dbStep_of_step (hD : D.KeepsDb) {C C' : Config lib} {l : Label lib}
    (h : Tasks.Step (system lib D allowed) C l C') : DbStep lib C l C' := by
  cases h with
  | start _ _ => exact .same (fun _ _ _ _ hl => by cases hl) rfl
  | finish _ => exact .same (fun _ _ _ _ hl => by cases hl) rfl
  | drift hd => exact .same (fun _ _ _ _ hl => by cases hl) (hD _ _ hd).symm
  | call hi ha =>
    cases dbAnswer_of_answer ha with
    | exec hs => exact .exec hi hs
    | same hne hdb =>
      refine .same (fun i w s a hl => ?_) hdb
      cases hl
      exact hne _ _ _ rfl

/-- What no statement breaks, no step of the threads breaks. -/
theorem relates_of_step {R : Database → Database → Prop} (hD : D.KeepsDb) (hrefl : ∀ db, R db db)
    (hR : ∀ {s : Statement} {a : s.Result} {db db' : Database}, s.Succeeds db a db' → R db db')
    {C C' : Config lib} {l : Label lib} (h : Tasks.Step (system lib D allowed) C l C') :
    R C.world.db C'.world.db := by
  cases dbStep_of_step hD h with
  | same _ hdb =>
    rw [hdb]
    exact hrefl _
  | exec _ hs => exact hR hs

/-- No thread moves the node. -/
theorem node_of_call {C C' : Config lib} {i : Thread} {e : Event signature (World lib)}
    (h : Tasks.Step (system lib D allowed) C (.call i e) C') :
    C'.world.node = C.world.node := by
  cases h with
  | call _ ha => exact node_of_answer ha

end MiningpoolObserver.Threads
