import MiningpoolObserver.Library.Fallible
import MiningpoolObserver.Processing.Builders
import MiningpoolObserver.Processing.Merging

namespace MiningpoolObserver.Processing.Rounds

open MiningpoolObserver.Library.HashCollections MiningpoolObserver.Library.Fallible
open MiningpoolObserver.Bitcoin MiningpoolObserver.DaemonModel
open MiningpoolObserver.Processing.Sanctions MiningpoolObserver.Processing.Transactions
open MiningpoolObserver.Processing.Conflicts MiningpoolObserver.Processing.Builders
open MiningpoolObserver.Processing.Merging

variable {lib : Crates} {rs : RandomState} {utxoMap : UtxoMap} {addresses : HashSet String}
variable {m : TransactionMap} {blockId : Int64}

theorem lookup_eq_ok {txidToTxinfoMap : HashMap Txid TxInfo} {txid : Txid} {txInfo : TxInfo} :
    lookup txidToTxinfoMap txid = .ok txInfo ↔ txidToTxinfoMap.get? txid = some txInfo := by
  unfold lookup
  cases txidToTxinfoMap.get? txid with
  | none => exact ⟨nofun, nofun⟩
  | some i => simp

/-- The transactions that the ids stand for. -/
abbrev Looked (txidToTxinfoMap : HashMap Txid TxInfo) (txids : List Txid) (infos : List TxInfo) :
    Prop :=
  List.Forall₂ (fun txid txInfo => lookup txidToTxinfoMap txid = .ok txInfo) txids infos

theorem Looked.unique {txidToTxinfoMap : HashMap Txid TxInfo} {txids : List Txid}
    {infos infos' : List TxInfo} (h : Looked txidToTxinfoMap txids infos)
    (h' : Looked txidToTxinfoMap txids infos') : infos = infos' := by
  refine Relator.RightUnique.forall₂ (fun txid txInfo txInfo' hi hi' => ?_) h h'
  exact Except.ok.inj (hi.symm.trans hi')

theorem Looked.exists_of_mem {txidToTxinfoMap : HashMap Txid TxInfo} {txids : List Txid}
    {infos : List TxInfo} (h : Looked txidToTxinfoMap txids infos) {txInfo : TxInfo}
    (hi : txInfo ∈ infos) : ∃ txid ∈ txids, txidToTxinfoMap.get? txid = some txInfo := by
  obtain ⟨txid, ht, hl⟩ := exists_of_mem_forall₂ h hi
  exact ⟨txid, ht, lookup_eq_ok.mp hl⟩

theorem Looked.exists_of_mem_txids {txidToTxinfoMap : HashMap Txid TxInfo} {txids : List Txid}
    {infos : List TxInfo} (h : Looked txidToTxinfoMap txids infos) {txid : Txid}
    (ht : txid ∈ txids) : ∃ txInfo ∈ infos, txidToTxinfoMap.get? txid = some txInfo := by
  obtain ⟨txInfo, hi, hl⟩ := exists_of_mem_forall₂ h.flip ht
  exact ⟨txInfo, hi, lookup_eq_ok.mp hl⟩

theorem Looked.mem_iff {txidToTxinfoMap : HashMap Txid TxInfo} {txids : List Txid}
    {infos : List TxInfo} (h : Looked txidToTxinfoMap txids infos) {txInfo : TxInfo} :
    txInfo ∈ infos ↔ ∃ txid ∈ txids, txidToTxinfoMap.get? txid = some txInfo := by
  refine ⟨h.exists_of_mem, ?_⟩
  rintro ⟨txid, ht, hg⟩
  obtain ⟨txInfo', hi, hg'⟩ := h.exists_of_mem_txids ht
  obtain rfl := Option.some.inj (hg.symm.trans hg')
  exact hi

/-- Transactions that a builder tries to add, with the conflict flag that it passes on. -/
abbrev Tries := List (TxInfo × Bool)

def flagged (isConflictingTx : Bool) (infos : List TxInfo) : Tries :=
  infos.map (fun txInfo => (txInfo, isConflictingTx))

/-- Those of them that can be built. -/
def built (lib : Crates) (rs : RandomState) (utxoMap : UtxoMap) (addresses : HashSet String)
    (tries : Tries) : List SharedModel.Transaction :=
  tries.filterMap (fun t =>
    buildTransaction lib rs t.1.txid.reversed t.1 t.2 utxoMap addresses)

theorem built_append (tries tries' : Tries) : built lib rs utxoMap addresses (tries ++ tries') =
    built lib rs utxoMap addresses tries ++ built lib rs utxoMap addresses tries' :=
  List.filterMap_append ..

theorem foldl_buildAndAdd (tries : Tries) (m : TransactionMap) :
    tries.foldl (fun m t => buildAndAdd lib rs t.1 t.2 utxoMap addresses m) m =
      addEach (built lib rs utxoMap addresses tries) m := by
  induction tries generalizing m with
  | nil => rfl
  | cons t tries ih =>
    rw [List.foldl_cons, ih, built, built, List.filterMap_cons]
    unfold buildAndAdd
    cases buildTransaction lib rs t.1.txid.reversed t.1 t.2 utxoMap addresses with
    | none => rfl
    | some newTx => rfl

theorem foldl_flagged (isConflictingTx : Bool) (infos : List TxInfo) (m : TransactionMap) :
    infos.foldl (fun m txInfo =>
      buildAndAdd lib rs txInfo isConflictingTx utxoMap addresses m) m =
        addEach (built lib rs utxoMap addresses (flagged isConflictingTx infos)) m := by
  rw [← foldl_buildAndAdd, flagged, List.foldl_map]

theorem isSome_buildTransaction {txInfo : TxInfo} {isConflictingTx : Bool} {key : List UInt8} :
    (buildTransaction lib rs key txInfo isConflictingTx utxoMap addresses).isSome =
      (lib.rawTxInfo txInfo.tx).isSome := by
  rw [buildTransaction, Option.isSome_map]

theorem txid_of_buildTransaction {txInfo : TxInfo} {isConflictingTx : Bool} {key : List UInt8}
    {t : SharedModel.Transaction}
    (h : buildTransaction lib rs key txInfo isConflictingTx utxoMap addresses = some t) :
    t.txid = key := by
  obtain ⟨rawTxInfo, -, rfl⟩ := Option.map_eq_some_iff.mp h
  rfl

theorem exists_txid_mem_built {tries : Tries} {key : List UInt8} :
    (∃ t ∈ built lib rs utxoMap addresses tries, t.txid = key) ↔
      ∃ p ∈ tries, (lib.rawTxInfo p.1.tx).isSome ∧ p.1.txid.reversed = key := by
  constructor
  · rintro ⟨t, ht, rfl⟩
    obtain ⟨p, hp, hb⟩ := List.mem_filterMap.mp ht
    refine ⟨p, hp, ?_, (txid_of_buildTransaction hb).symm⟩
    rw [← isSome_buildTransaction, hb]
    rfl
  · rintro ⟨p, hp, hraw, rfl⟩
    obtain ⟨t, ht⟩ := Option.isSome_iff_exists.mp (isSome_buildTransaction.trans hraw)
    exact ⟨t, List.mem_filterMap.mpr ⟨p, hp, ht⟩, txid_of_buildTransaction ht⟩

/-- The loop of the two `only in` builders, over what it looks up. -/
theorem onlyInRows_eq_ok {ρ : Type} {row : TxInfo → Txid → ρ} {txids : List Txid}
    {txidToTxinfoMap : HashMap Txid TxInfo} {r : List ρ × TransactionMap}
    (h : onlyInRows lib rs row txids txidToTxinfoMap utxoMap addresses m = .ok r) :
    ∃ infos, Looked txidToTxinfoMap txids infos ∧
      r.1 = (txids.zip infos).map (fun p => row p.2 p.1) ∧
      r.2 = addEach (built lib rs utxoMap addresses (flagged false infos)) m := by
  obtain ⟨infos, hl, rfl⟩ := foldlM_eq_ok (g := lookup txidToTxinfoMap)
    (s := fun acc txid txInfo => (acc.1 ++ [row txInfo txid],
      buildAndAdd lib rs txInfo false utxoMap addresses acc.2)) (fun _ _ => rfl) h
  have hfold : ∀ (l : List (Txid × TxInfo)) (acc : List ρ × TransactionMap),
      l.foldl (fun acc p => (acc.1 ++ [row p.2 p.1],
        buildAndAdd lib rs p.2 false utxoMap addresses acc.2)) acc =
      (acc.1 ++ l.map (fun p => row p.2 p.1),
        addEach (built lib rs utxoMap addresses (flagged false (l.map Prod.snd))) acc.2) := by
    intro l
    induction l with
    | nil => simp [flagged, built, addEach]
    | cons p l ih =>
      intro acc
      rw [List.foldl_cons, ih, ← foldl_buildAndAdd, ← foldl_buildAndAdd]
      simp [flagged]
  refine ⟨infos, hl, ?_, ?_⟩
  · rw [hfold, List.nil_append]
  · rw [hfold, List.map_snd_zip hl.length_eq.ge]

def sanctionedRow (lib : Crates) (rs : RandomState) (utxoMap : UtxoMap)
    (addresses : HashSet String) (blockId : Int64) (inBlock : TxInfo → Bool) (inTemplate : Bool)
    (txInfo : TxInfo) : SharedModel.SanctionedTransactionInfo where
  blockId := blockId
  transactionTxid := txInfo.txid.reversed
  inBlock := inBlock txInfo
  inTemplate := inTemplate
  addresses := txSanctionedAddresses lib rs txInfo.tx utxoMap addresses

/-- What the two loops over sanctioned transactions do with one of them. -/
def sanctionedRound (lib : Crates) (rs : RandomState) (utxoMap : UtxoMap)
    (addresses : HashSet String) (row : TxInfo → SharedModel.SanctionedTransactionInfo)
    (acc : List SharedModel.SanctionedTransactionInfo × TransactionMap) (txInfo : TxInfo) :
    List SharedModel.SanctionedTransactionInfo × TransactionMap :=
  if isTxSanctioned lib txInfo.tx utxoMap addresses then
    match buildTransaction lib rs txInfo.txid.reversed txInfo false utxoMap addresses with
    | some t => (acc.1 ++ [row txInfo], addToTransactions t acc.2)
    | none => acc
  else acc

theorem sanctionedStep_eq {inBlock : TxInfo → Bool} {inTemplate : Bool}
    {txidToTxinfoMap : HashMap Txid TxInfo}
    (acc : List SharedModel.SanctionedTransactionInfo × TransactionMap) (txid : Txid) :
    sanctionedStep lib rs blockId inBlock inTemplate txidToTxinfoMap utxoMap addresses acc txid =
      lookup txidToTxinfoMap txid >>= fun txInfo => .ok (sanctionedRound lib rs utxoMap addresses
        (sanctionedRow lib rs utxoMap addresses blockId inBlock inTemplate) acc txInfo) := by
  unfold sanctionedStep
  congr 1
  funext txInfo
  unfold sanctionedRound
  by_cases hs : isTxSanctioned lib txInfo.tx utxoMap addresses = true
  · rw [if_pos hs, if_pos hs]
    cases buildTransaction lib rs txInfo.txid.reversed txInfo false utxoMap addresses <;> rfl
  · rw [if_neg hs, if_neg hs]
    rfl

/-- The transactions that get a row of the sanctioned ones, and are added with it. -/
def chosen (lib : Crates) (utxoMap : UtxoMap) (addresses : HashSet String) (infos : List TxInfo) :
    List TxInfo :=
  infos.filter (fun txInfo =>
    isTxSanctioned lib txInfo.tx utxoMap addresses && (lib.rawTxInfo txInfo.tx).isSome)

theorem foldl_sanctionedRound (row : TxInfo → SharedModel.SanctionedTransactionInfo)
    (infos : List TxInfo) (acc : List SharedModel.SanctionedTransactionInfo × TransactionMap) :
    infos.foldl (sanctionedRound lib rs utxoMap addresses row) acc =
      (acc.1 ++ (chosen lib utxoMap addresses infos).map row,
        addEach (built lib rs utxoMap addresses
          (flagged false (chosen lib utxoMap addresses infos))) acc.2) := by
  induction infos generalizing acc with
  | nil => simp [chosen, flagged, built, addEach]
  | cons txInfo infos ih =>
    have hraw : (buildTransaction lib rs txInfo.txid.reversed txInfo false utxoMap
        addresses).isSome = (lib.rawTxInfo txInfo.tx).isSome := isSome_buildTransaction
    rw [List.foldl_cons, ih, sanctionedRound, chosen, chosen, List.filter_cons, ← hraw]
    by_cases hs : isTxSanctioned lib txInfo.tx utxoMap addresses = true
    · cases hb : buildTransaction lib rs txInfo.txid.reversed txInfo false utxoMap addresses with
      | none => simp
      | some t => simp [hs, flagged, built, hb, addEach]
    · simp [hs]

/-- One of the two loops over sanctioned transactions. -/
theorem sanctionedSteps_eq_ok {inBlock : TxInfo → Bool} {inTemplate : Bool}
    {txidToTxinfoMap : HashMap Txid TxInfo} {txids : List Txid}
    {acc r : List SharedModel.SanctionedTransactionInfo × TransactionMap}
    (h : txids.foldlM (sanctionedStep lib rs blockId inBlock inTemplate txidToTxinfoMap utxoMap
      addresses) acc = .ok r) :
    ∃ infos, Looked txidToTxinfoMap txids infos ∧
      r.1 = acc.1 ++ (chosen lib utxoMap addresses infos).map
        (sanctionedRow lib rs utxoMap addresses blockId inBlock inTemplate) ∧
      r.2 = addEach (built lib rs utxoMap addresses
        (flagged false (chosen lib utxoMap addresses infos))) acc.2 := by
  let row := sanctionedRow lib rs utxoMap addresses blockId inBlock inTemplate
  obtain ⟨infos, hl, rfl⟩ := foldlM_eq_ok
    (s := fun acc _ txInfo => sanctionedRound lib rs utxoMap addresses row acc txInfo)
    sanctionedStep_eq h
  have hzip : (txids.zip infos).foldl (fun acc p =>
      sanctionedRound lib rs utxoMap addresses row acc p.2) acc =
        infos.foldl (sanctionedRound lib rs utxoMap addresses row) acc := by
    conv_rhs => rw [← List.map_snd_zip hl.length_eq.ge, List.foldl_map]
  rw [hzip, foldl_sanctionedRound]
  exact ⟨infos, hl, rfl, rfl⟩

theorem buildSanctionedTransactionInfos_eq_ok {blockTxData : BlockTxData}
    {templateTxids txidsOnlyInBlock : HashSet Txid} {templateTxidToTxinfoMap : HashMap Txid TxInfo}
    {r : List SharedModel.SanctionedTransactionInfo × TransactionMap}
    (h : buildSanctionedTransactionInfos lib rs blockId blockTxData templateTxids
      templateTxidToTxinfoMap txidsOnlyInBlock utxoMap addresses m = .ok r) :
    ∃ inTemplate onlyInBlock, Looked templateTxidToTxinfoMap (templateTxids.iter rs) inTemplate ∧
      Looked blockTxData.txidToTxinfoMap (txidsOnlyInBlock.iter rs) onlyInBlock ∧
      r.1 = (chosen lib utxoMap addresses inTemplate).map (sanctionedRow lib rs utxoMap addresses
          blockId (fun txInfo => txInfo.txid ∈ blockTxData.txids) true) ++
        (chosen lib utxoMap addresses onlyInBlock).map (sanctionedRow lib rs utxoMap addresses
          blockId (fun _ => true) false) ∧
      r.2 = addEach (built lib rs utxoMap addresses
        (flagged false (chosen lib utxoMap addresses inTemplate) ++
          flagged false (chosen lib utxoMap addresses onlyInBlock))) m := by
  obtain ⟨acc, hacc, h⟩ := bind_eq_ok.mp h
  obtain ⟨inTemplate, h₁, hrows, hmap⟩ := sanctionedSteps_eq_ok hacc
  obtain ⟨onlyInBlock, h₂, hrows', hmap'⟩ := sanctionedSteps_eq_ok h
  refine ⟨inTemplate, onlyInBlock, h₁, h₂, ?_, ?_⟩
  · rw [hrows', hrows, List.nil_append]
  · rw [hmap', hmap, built_append, addEach_append]

end MiningpoolObserver.Processing.Rounds
