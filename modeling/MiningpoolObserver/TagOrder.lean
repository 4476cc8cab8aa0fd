import MiningpoolObserver.Library.Inversions
import MiningpoolObserver.TagUnion

namespace MiningpoolObserver.TagOrder

open MiningpoolObserver.Library.HashCollections MiningpoolObserver.Library.MergedLists
open MiningpoolObserver.Library.Inversions
open MiningpoolObserver.Bitcoin MiningpoolObserver.DaemonModel MiningpoolObserver.Tags
open MiningpoolObserver.Daemon MiningpoolObserver.Process
open MiningpoolObserver.Processing.Sanctions MiningpoolObserver.Processing.Transactions
open MiningpoolObserver.Processing.Merging MiningpoolObserver.TagUnion
open MiningpoolObserver.Simulation

variable {lib : Crates} {txInfo : TxInfo} {rawTxInfo : RawTxInfo} {isConflictingTx : Bool}
variable {utxoMap : UtxoMap} {sanctionedAddresses : HashSet String}
variable {tags other stored : List Int} {tag : TxTag}

/-- The class of a tag: danger, warning, informational or secondary. -/
def severity (code : Int) : Int := code / 1000

theorem severity_le {a b : Int} (h : a ≤ b) : severity a ≤ severity b :=
  Int.ediv_le_ediv (by decide) h

/-- What the two merges make of a list and another one, on either side. -/
def merges (tags other : List Int) : List (List Int) :=
  [bothTags tags other, bothTags other tags, unionTags tags other, unionTags other tags]

/-- A list of tags shows the more severe ones first, as any list it is merged into. -/
structure SevereFirst (tags : List Int) : Prop where
  nodup : tags.Nodup
  classes : tags.Pairwise (fun a b => severity a ≤ severity b)
  merged : ∀ other, ∀ stored ∈ merges tags other,
    (stored.filter (fun tag => tag ∈ tags)).map severity = tags.map severity

theorem eq_ascending_of_mem_merges (h : stored ∈ merges tags other) :
    stored = ascending (tags ++ other) := by
  have hcomm : ascending (other ++ tags) = ascending (tags ++ other) :=
    ascending_congr (fun tag => by rw [List.mem_append, List.mem_append, or_comm])
  simp only [merges, List.mem_cons, List.not_mem_nil, or_false] at h
  obtain rfl | rfl | rfl | rfl := h
  · exact bothTags_eq tags other
  · exact (bothTags_eq other tags).trans hcomm
  · exact unionTags_eq tags other
  · exact (unionTags_eq other tags).trans hcomm

/-- The lists that the merges store are in order themselves. -/
theorem classes_of_mem_merges (h : stored ∈ merges tags other) :
    stored.Pairwise (fun a b => severity a ≤ severity b) := by
  rw [eq_ascending_of_mem_merges h]
  exact pairwise_ascending (fun _ _ => severity_le) _

theorem severeFirst_iff (hn : tags.Nodup) :
    SevereFirst tags ↔ tags.Pairwise (fun a b => severity a ≤ severity b) := by
  refine ⟨fun h => h.classes, fun h => ⟨hn, h, fun other stored hs => ?_⟩⟩
  rw [eq_ascending_of_mem_merges hs, filter_ascending (fun _ => List.mem_append_left other)]
  exact (map_ascending_eq_iff (fun _ _ => severity_le) hn).mpr h

/-- All tags that get_transaction_tags can push, from the first to the last. -/
def pushOrder : List TxTag :=
  [.conflicting, .toSanctioned, .fromSanctioned, .coinbase, .zeroFee, .highFeerate, .large,
    .dustOutput, .highValue, .manySigops, .segWit, .taproot, .multisig, .opReturn, .counterParty,
    .inscription, .rareScriptType, .rbfSignaling, .coinjoin, .consolidation, .lockByHeight,
    .lockByTimestamp]

theorem nodup_pushOrder : pushOrder.Nodup := by decide

/-- The tags that a more severe one is pushed after. -/
theorem inversions_pushOrder : inversions (fun tag => severity (TxTag.code tag)) pushOrder =
    [(.coinbase, .zeroFee), (.coinbase, .highFeerate), (.coinbase, .large),
      (.coinbase, .highValue), (.coinbase, .manySigops), (.dustOutput, .highValue),
      (.dustOutput, .manySigops)] := by decide

/-- The tags of a transaction, not yet as codes. -/
def pushed (lib : Crates) (txInfo : TxInfo) (rawTxInfo : RawTxInfo) (isConflictingTx : Bool)
    (utxoMap : UtxoMap) (sanctionedAddresses : HashSet String) : List TxTag :=
  ((tagConditions lib txInfo rawTxInfo isConflictingTx utxoMap sanctionedAddresses).filter
    (fun c => c.1)).map (fun c => c.2)

theorem getTransactionTags_eq :
    getTransactionTags lib txInfo rawTxInfo isConflictingTx utxoMap sanctionedAddresses =
      (pushed lib txInfo rawTxInfo isConflictingTx utxoMap sanctionedAddresses).map
        TxTag.code := by
  rw [getTransactionTags, pushed, List.map_map]
  rfl

theorem pushed_sublist :
    (pushed lib txInfo rawTxInfo isConflictingTx utxoMap sanctionedAddresses).Sublist
      pushOrder := List.filter_sublist.map _

theorem mem_pushed :
    tag ∈ pushed lib txInfo rawTxInfo isConflictingTx utxoMap sanctionedAddresses ↔
      (true, tag) ∈
        tagConditions lib txInfo rawTxInfo isConflictingTx utxoMap sanctionedAddresses := by
  rw [← code_mem_getTransactionTags, getTransactionTags_eq,
    List.mem_map_of_injective TxTag.code_injective]

theorem nodup_getTransactionTags : (getTransactionTags lib txInfo rawTxInfo isConflictingTx utxoMap
    sanctionedAddresses).Nodup := by
  rw [getTransactionTags_eq]
  exact (pushed_sublist.nodup nodup_pushOrder).map TxTag.code_injective

/-- The warnings that are pushed after a dust output. -/
def LateWarning (lib : Crates) (txInfo : TxInfo) (rawTxInfo : RawTxInfo) : Prop :=
  rawTxInfo.outputValueSum > THRESHOLD_VALUE_CONSIDERED_HIGH ∨
    (lib.sigops txInfo.tx).getD 0 > THRESHOLD_SIGOPS_CONSIDERED_MANY

/-- The warnings that a coinbase transaction can get. -/
def Warning (lib : Crates) (txInfo : TxInfo) (rawTxInfo : RawTxInfo) : Prop :=
  txInfo.feerate lib ≥ THRESHOLD_FEERATE_CONSIDERED_HIGH ∨
    rawTxInfo.vsize ≥ THRESHOLD_TRANSACTION_CONSIDERED_LARGE ∨ LateWarning lib txInfo rawTxInfo

section Pushed

variable (rawTxInfo isConflictingTx utxoMap sanctionedAddresses)

theorem coinbase_mem_pushed :
    .coinbase ∈ pushed lib txInfo rawTxInfo isConflictingTx utxoMap sanctionedAddresses ↔
      lib.isCoinbase txInfo.tx = true := by
  simp [mem_pushed, tagConditions]

theorem zeroFee_mem_pushed :
    .zeroFee ∈ pushed lib txInfo rawTxInfo isConflictingTx utxoMap sanctionedAddresses ↔
      txInfo.fee = 0 ∧ lib.isCoinbase txInfo.tx = false := by
  simp [mem_pushed, tagConditions]

theorem dustOutput_mem_pushed :
    .dustOutput ∈ pushed lib txInfo rawTxInfo isConflictingTx utxoMap sanctionedAddresses ↔
      rawTxInfo.hasNonOpreturnOutputSmallerThan THRESHOLD_OUTPUT_CONSIDERED_DUST = true := by
  simp [mem_pushed, tagConditions]

theorem lateWarning_iff : LateWarning lib txInfo rawTxInfo ↔
    .highValue ∈ pushed lib txInfo rawTxInfo isConflictingTx utxoMap sanctionedAddresses ∨
      .manySigops ∈
        pushed lib txInfo rawTxInfo isConflictingTx utxoMap sanctionedAddresses := by
  simp [mem_pushed, tagConditions, LateWarning]

theorem warning_iff : Warning lib txInfo rawTxInfo ↔
    .highFeerate ∈ pushed lib txInfo rawTxInfo isConflictingTx utxoMap sanctionedAddresses ∨
      .large ∈ pushed lib txInfo rawTxInfo isConflictingTx utxoMap sanctionedAddresses ∨
        LateWarning lib txInfo rawTxInfo := by
  simp [mem_pushed, tagConditions, Warning]

end Pushed

/-- The pushes of get_transaction_tags are in order unless one of its inversions is pushed. -/
theorem classes_getTransactionTags_iff :
    (getTransactionTags lib txInfo rawTxInfo isConflictingTx utxoMap sanctionedAddresses).Pairwise
        (fun a b => severity a ≤ severity b) ↔
      (lib.isCoinbase txInfo.tx = true → ¬ Warning lib txInfo rawTxInfo) ∧
        (rawTxInfo.hasNonOpreturnOutputSmallerThan THRESHOLD_OUTPUT_CONSIDERED_DUST = true →
          ¬ LateWarning lib txInfo rawTxInfo) := by
  -- a coinbase transaction never has the zero fee tag, so that pair cannot occur
  have hfee : lib.isCoinbase txInfo.tx = true →
      .zeroFee ∉ pushed lib txInfo rawTxInfo isConflictingTx utxoMap sanctionedAddresses := by
    rw [zeroFee_mem_pushed]
    exact fun hc hz => Bool.false_ne_true (hz.2.symm.trans hc)
  rw [← coinbase_mem_pushed rawTxInfo isConflictingTx utxoMap sanctionedAddresses] at hfee ⊢
  rw [getTransactionTags_eq, List.pairwise_map,
    pairwise_iff_of_sublist pushed_sublist nodup_pushOrder, inversions_pushOrder,
    warning_iff rawTxInfo isConflictingTx utxoMap sanctionedAddresses,
    lateWarning_iff rawTxInfo isConflictingTx utxoMap sanctionedAddresses,
    ← dustOutput_mem_pushed rawTxInfo isConflictingTx utxoMap sanctionedAddresses]
  simp only [List.forall_mem_cons, List.not_mem_nil, false_implies, implies_true, and_true, not_or]
  tauto

/-- The tags of a transaction are shown in order unless it is a coinbase transaction with a warning,
or has a dust output and one of the warnings that are pushed after it. -/
theorem severeFirst_getTransactionTags_iff :
    SevereFirst (getTransactionTags lib txInfo rawTxInfo isConflictingTx utxoMap
        sanctionedAddresses) ↔
      (lib.isCoinbase txInfo.tx = true → ¬ Warning lib txInfo rawTxInfo) ∧
        (rawTxInfo.hasNonOpreturnOutputSmallerThan THRESHOLD_OUTPUT_CONSIDERED_DUST = true →
          ¬ LateWarning lib txInfo rawTxInfo) := by
  rw [severeFirst_iff nodup_getTransactionTags, classes_getTransactionTags_iff]

/-- What RawTxInfo finds out about the outputs, for transactions that have nothing else to them. -/
def measuring : Crates :=
  { sample with
    rawTxInfo := fun tx => (sample.rawTxInfo tx).map (fun rawTxInfo =>
      { rawTxInfo with
        outputValueSum := (tx.output.map (fun (o : TxOut) => o.value)).sum
        hasNonOpreturnOutputSmallerThan := fun limit =>
          tx.output.any (fun o => !sample.isOpReturn o.scriptPubkey && o.value < limit) }) }

/-- Pays 500 satoshi and 200 bitcoin. -/
def payout : TxInfo where
  txid := hashOfByte 60
  tx := { sampleTx 60 ⟨hashOfByte 50, 0⟩ otherScript with
    output := [⟨500, otherScript⟩, ⟨20000000000, otherScript⟩] }
  pos := 1
  fee := 10

/-- The dust output is shown before the high value. -/
theorem severeFirst_fails : ∃ rawTxInfo, measuring.rawTxInfo payout.tx = some rawTxInfo ∧
    ¬ SevereFirst
      (getTransactionTags measuring payout rawTxInfo false HashMap.empty HashSet.empty) := by
  refine ⟨_, rfl, ?_⟩
  rw [severeFirst_iff nodup_getTransactionTags, classes_getTransactionTags_iff]
  rintro ⟨-, hdust⟩
  exact hdust (by decide) (.inl (by decide))

section Rows

variable {D : Drift lib} {w w' : World lib} {results : List (List SharedModel.Transaction)}
variable {txid : List UInt8} {row : SharedModel.Transaction}

theorem severeFirst_ascending (tags : List Int) : SevereFirst (ascending tags) :=
  (severeFirst_iff (sortedLT_ascending tags).nodup).mpr
    (pairwise_ascending (fun _ _ => severity_le) tags)

/-- After any sequence of results, a row is out of order only when every occurrence of the
transaction came with one and the same list, which is out of order. -/
theorem severeFirst_row_iff (hD : NoOtherWriter D) (h : Stores D w results w')
    (hrow : rowOf w' txid = some row) : SevereFirst row.tags ↔
      (Uniform (tagLists w results txid) → ∀ tags ∈ tagLists w results txid, SevereFirst tags) := by
  have hu := united_of_stores hD h
  by_cases hn : Uniform (tagLists w results txid)
  · have hm := hu.common txid row hrow hn
    exact ⟨fun hs _ tags ht => hn row.tags hm tags ht ▸ hs, fun hs => hs hn row.tags hm⟩
  · rw [hu.sorted txid row hrow hn]
    exact iff_of_true (severeFirst_ascending _) (fun hn' => absurd hn' hn)

end Rows

end MiningpoolObserver.TagOrder
