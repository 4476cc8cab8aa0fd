import MiningpoolObserver.BlockCounts

namespace MiningpoolObserver.TemplateChoice

open MiningpoolObserver.Library.HashCollections MiningpoolObserver.Library.Fallible
open MiningpoolObserver.Bitcoin MiningpoolObserver.DaemonModel MiningpoolObserver.Process
open MiningpoolObserver.SharedModel MiningpoolObserver.Processing.Comparison
open MiningpoolObserver.Processing.Builders MiningpoolObserver.Processing.Listing
open MiningpoolObserver.BuiltRecords MiningpoolObserver.Overlap MiningpoolObserver.SanctionCounts
open MiningpoolObserver.BlockCounts MiningpoolObserver.Simulation

section Lists

variable {α β : Type}

/-- The first of the members with the smallest value. -/
theorem exists_split_of_minOn? {f : α → ℕ} {l : List α} {a : α} (h : l.minOn? f = some a) :
    ∃ before after, l = before ++ a :: after ∧ (∀ b ∈ before, f a < f b) ∧
      ∀ b ∈ after, f a ≤ f b := by
  induction l generalizing a with
  | nil => cases h
  | cons x l ih =>
    rw [List.minOn?_cons] at h
    cases hl : l.minOn? f with
    | none =>
      rw [hl] at h
      cases h
      have hnil : l = [] := by
        cases l with
        | nil => rfl
        | cons y l => simp [List.minOn?_cons] at hl
      exact ⟨[], [], by rw [hnil]; rfl, by simp, by simp⟩
    | some y =>
      obtain ⟨before, after, rfl, hbefore, hafter⟩ := ih hl
      rw [hl, Option.elim_some, Option.some.injEq, minOn] at h
      split_ifs at h with hxy
      · subst h
        refine ⟨[], _, rfl, by simp, fun b hb => ?_⟩
        obtain hb | hb := List.mem_append.mp hb
        · exact hxy.trans (hbefore b hb).le
        · obtain rfl | hb := List.mem_cons.mp hb
          · exact hxy
          · exact hxy.trans (hafter b hb)
      · subst h
        refine ⟨x :: before, after, rfl, fun b hb => ?_, hafter⟩
        obtain rfl | hb := List.mem_cons.mp hb
        · omega
        · exact hbefore b hb

theorem countP_of_forall₂ {R : α → β → Prop} {p : α → Bool} {q : β → Bool} {l : List α}
    {l' : List β} (hR : ∀ a b, R a b → (q b = true ↔ p a = true)) (h : List.Forall₂ R l l') :
    l'.countP q = l.countP p := by
  induction h with
  | nil => rfl
  | cons hab _ ih => rw [List.countP_cons, List.countP_cons, ih, Bool.eq_iff_iff.mpr (hR _ _ hab)]

end Lists

variable {lib : Crates} {rs : RandomState} {network : Network} {block : Bitcoin.Block}
variable {fees : GetBlockTxFeesResult} {lt : List GetBlockTemplateResult} {c : Comparison}
variable {s : Sanctions} {b : NewBlock} {blockId : Int64} {r : Records}

def blockTxids (lib : Crates) (block : Bitcoin.Block) : HashSet Txid :=
  HashSet.collect (block.txdata.map lib.computeTxid)

def templateTxids (t : GetBlockTemplateResult) : HashSet Txid :=
  HashSet.collect (t.transactions.map (fun t => t.txid))

/-- How many transactions one of the two has and the other has not. -/
def distance (lib : Crates) (block : Bitcoin.Block) (t : GetBlockTemplateResult) : ℕ :=
  ((templateTxids t).difference (blockTxids lib block)).len +
    ((blockTxids lib block).difference (templateTxids t)).len

/-- The first of the templates that are nearest to the block. -/
structure Nearest (lib : Crates) (block : Bitcoin.Block) (before : List GetBlockTemplateResult)
    (t : GetBlockTemplateResult) (after : List GetBlockTemplateResult) : Prop where
  before : ∀ t' ∈ before, distance lib block t < distance lib block t'
  after : ∀ t' ∈ after, distance lib block t ≤ distance lib block t'

theorem Nearest.le {before after : List GetBlockTemplateResult} {t : GetBlockTemplateResult}
    (h : Nearest lib block before t after) :
    ∀ t' ∈ before ++ t :: after, distance lib block t ≤ distance lib block t' := by
  intro t' ht
  obtain ht | ht := List.mem_append.mp ht
  · exact (h.before t' ht).le
  · obtain rfl | ht := List.mem_cons.mp ht
    · exact le_rfl
    · exact h.after t' ht

theorem Nearest.not_before {before after before' after' l : List GetBlockTemplateResult}
    {t t' : GetBlockTemplateResult} (h : Nearest lib block before t after)
    (h' : Nearest lib block before' t' after') (hb : before' = before ++ l)
    (ha : t :: after = l ++ t' :: after') : l = [] := by
  cases l with
  | nil => rfl
  | cons x l =>
    rw [List.cons_append, List.cons.injEq] at ha
    obtain ⟨rfl, rfl⟩ := ha
    have hlt := h'.before t (hb ▸ List.mem_append_right _ List.mem_cons_self)
    have hle := h.after t' (List.mem_append_right _ List.mem_cons_self)
    omega

theorem Nearest.unique {before after before' after' : List GetBlockTemplateResult}
    {t t' : GetBlockTemplateResult} (h : Nearest lib block before t after)
    (h' : Nearest lib block before' t' after')
    (he : before ++ t :: after = before' ++ t' :: after') :
    before = before' ∧ t = t' ∧ after = after' := by
  have hb : before = before' := by
    obtain ⟨l, hl, hr⟩ | ⟨l, hl, hr⟩ := List.append_eq_append_iff.mp he
    · rw [hl, h.not_before h' hl hr, List.append_nil]
    · rw [hl, h'.not_before h hl hr, List.append_nil]
  subst hb
  exact ⟨rfl, List.cons.inj (List.append_cancel_left he)⟩

/-- The nearest template is the only one of its second. -/
def AloneInItsSecond (lib : Crates) (block : Bitcoin.Block) (lt : List GetBlockTemplateResult) :
    Prop :=
  ∃ before t after, lt = before ++ t :: after ∧ Nearest lib block before t after ∧
    ∀ t' ∈ before ++ after, t'.currentTime ≠ t.currentTime

/-- The counts fit the columns. -/
def Fits (block : Bitcoin.Block) (lt : List GetBlockTemplateResult) : Prop :=
  block.txdata.length < 2 ^ 31 ∧ ∀ t ∈ lt, t.transactions.length < 2 ^ 31

/-- One record is marked as selected, it has the counts of the block row, and none is nearer. -/
structure Marked (block : Bitcoin.Block) (lt : List GetBlockTemplateResult) (b : NewBlock)
    (infos : List DebugTemplateSelectionInfo) : Prop where
  one : infos.countP (fun info => info.selected) = 1
  counts : ∀ info ∈ infos, info.selected = true → info.countMissing = b.missingTx ∧
    info.countShared = b.sharedTx ∧ info.countExtra = b.extraTx
  nearest : Fits block lt → ∀ info ∈ infos, info.selected = true → ∀ other ∈ infos,
    info.countMissing.toInt + info.countExtra.toInt ≤
      other.countMissing.toInt + other.countExtra.toInt

/-- The record of a template. -/
structure RecordOf (lib : Crates) (block : Bitcoin.Block) (time : UInt64)
    (t : GetBlockTemplateResult) (info : DebugTemplateSelectionInfo) : Prop where
  missing : info.countMissing =
    Int32.ofNat ((templateTxids t).difference (blockTxids lib block)).len
  shared : info.countShared =
    Int32.ofNat ((blockTxids lib block).intersection (templateTxids t)).len
  extra : info.countExtra = Int32.ofNat ((blockTxids lib block).difference (templateTxids t)).len
  selected : info.selected = true ↔ t.currentTime = time

theorem txids_block (hc : Compared lib block fees lt c) :
    c.blockTxData.txids = blockTxids lib block := by
  obtain ⟨infos, h, hp⟩ := exists_dataOf_of_buildBlockTxData hc.block
  rw [h, txids_dataOf, hp.txidsOf_eq, blockTxids]
  conv_rhs => rw [← List.zipIdx_map_fst 0 block.txdata, List.map_map]
  rfl

theorem txids_template (hc : Compared lib block fees lt c) (h : Sound lib c.template) :
    c.templateTxData.txids = templateTxids c.template := by
  obtain ⟨infos, hd, hp⟩ := exists_dataOf_buildTemplateTxData h.declared
  rw [hc.templateTxData, hd, txids_dataOf, hp.txidsOf_eq, h.map_decoded, templateTxids]

theorem exists_nearest (h : compareBlock lib block fees lt = .ok c) :
    ∃ before after, lt = before ++ c.template :: after ∧
      Nearest lib block before c.template after := by
  have hb := txids_block (compared_of_compareBlock h)
  obtain ⟨blockTxData, -, h⟩ := bind_eq_ok.mp h
  obtain ⟨template, ht, h⟩ := bind_eq_ok.mp h
  obtain ⟨templateTxPackages, -, h⟩ := bind_eq_ok.mp h
  obtain ⟨blockTxPackages, -, h⟩ := bind_eq_ok.mp h
  cases h
  dsimp only at hb ⊢
  unfold selectBestTemplateForBlock at ht
  split at ht
  · rename_i t hmin
    cases ht
    obtain ⟨before, after, rfl, hbefore, hafter⟩ := exists_split_of_minOn? hmin
    rw [hb] at hbefore hafter
    exact ⟨before, after, rfl, hbefore, hafter⟩
  · cases ht

theorem recordsOf_debugInfos (hc : Compared lib block fees lt c)
    (h : BuildsRecords lib rs lt c s blockId r) :
    List.Forall₂ (RecordOf lib block c.template.currentTime) lt r.debugInfos := by
  obtain ⟨conflicting, ages, -, hrows⟩ := h
  obtain ⟨onlyInTemplate, -, hrows⟩ := bind_eq_ok.mp hrows
  obtain ⟨onlyInBlock, -, hrows⟩ := bind_eq_ok.mp hrows
  obtain ⟨infos, -, hrows⟩ := bind_eq_ok.mp hrows
  obtain ⟨debugInfos, hdebug, hrows⟩ := bind_eq_ok.mp hrows
  cases hrows
  refine (mapM_eq_ok hdebug).imp (fun t info ht => ?_)
  rw [txids_block hc] at ht
  dsimp only at ht
  split at ht
  · cases ht
    exact ⟨rfl, rfl, rfl, decide_eq_true_iff⟩
  · cases ht

theorem toInt_ofNat {n : ℕ} (h : n < 2 ^ 31) : (Int32.ofNat n).toInt = n :=
  Int32.toInt_ofNat_of_lt (by omega)

theorem RecordOf.sum_eq {time : UInt64} {t : GetBlockTemplateResult}
    {info : DebugTemplateSelectionInfo} (h : RecordOf lib block time t info) (hf : Fits block lt)
    (ht : t ∈ lt) :
    info.countMissing.toInt + info.countExtra.toInt = (distance lib block t : ℤ) := by
  have hm : ((templateTxids t).difference (blockTxids lib block)).len < 2 ^ 31 := by
    have h₁ := HashSet.len_difference_le (templateTxids t) (blockTxids lib block)
    have h₂ := HashSet.len_collect_le (t.transactions.map (fun t => t.txid))
    have h₃ := hf.2 t ht
    rw [List.length_map] at h₂
    exact lt_of_le_of_lt (h₁.trans h₂) h₃
  have he : ((blockTxids lib block).difference (templateTxids t)).len < 2 ^ 31 := by
    have h₁ := HashSet.len_difference_le (blockTxids lib block) (templateTxids t)
    have h₂ := HashSet.len_collect_le (block.txdata.map lib.computeTxid)
    rw [List.length_map] at h₂
    exact lt_of_le_of_lt (h₁.trans h₂) hf.1
  rw [h.missing, h.extra, toInt_ofNat hm, toInt_ofNat he, distance]
  push_cast
  rfl

/-- The record of the template that was compared has the counts of the block row. -/
theorem RecordOf.counts_eq (hc : Compared lib block fees lt c)
    (hrow : BuildsRow lib network block fees c s b) (hs : Sound lib c.template) {time : UInt64}
    {info : DebugTemplateSelectionInfo} (h : RecordOf lib block time c.template info) :
    info.countMissing = b.missingTx ∧ info.countShared = b.sharedTx ∧
      info.countExtra = b.extraTx := by
  obtain ⟨n, pools, now, -, hb⟩ := hrow
  have hr := rowOf_buildBlock hb
  have hbt := txids_block hc
  have htt := txids_template hc hs
  refine ⟨?_, ?_, ?_⟩
  · rw [h.missing, hr.missingTx, blockNumbers, hc.onlyInTemplate, hbt, htt]
  · rw [h.shared, hr.sharedTx, blockNumbers, hc.sharedTx, hbt, htt]
  · rw [h.extra, hr.extraTx, blockNumbers, hc.onlyInBlock, hbt, htt]

theorem countP_eq_one_iff {before after : List GetBlockTemplateResult}
    {t : GetBlockTemplateResult} :
    (before ++ t :: after).countP (fun t' => decide (t'.currentTime = t.currentTime)) = 1 ↔
      ∀ t' ∈ before ++ after, t'.currentTime ≠ t.currentTime := by
  rw [List.countP_append, List.countP_cons_of_pos (by simp), ← Nat.add_assoc, ← List.countP_append,
    Nat.add_eq_right, List.countP_eq_zero]
  simp

/-- One record is marked, with the counts of the block row and of a template that is nearest,
exactly when no other template was made in the second of the nearest one. -/
theorem marked_iff (h : compareBlock lib block fees lt = .ok c)
    (hrow : BuildsRow lib network block fees c s b) (hrec : BuildsRecords lib rs lt c s blockId r)
    (hs : ∀ t ∈ lt, Sound lib t) :
    Marked block lt b r.debugInfos ↔ AloneInItsSecond lib block lt := by
  have hc := compared_of_compareBlock h
  have hrecords := recordsOf_debugInfos hc hrec
  obtain ⟨before, after, rfl, hnear⟩ := exists_nearest h
  have hcount := countP_of_forall₂ (p := fun t => decide (t.currentTime = c.template.currentTime))
    (q := fun info => info.selected) (fun _ _ hr => hr.selected.trans decide_eq_true_iff.symm)
    hrecords
  constructor
  · intro hm
    refine ⟨before, c.template, after, rfl, hnear, ?_⟩
    rw [← countP_eq_one_iff, ← hcount]
    exact hm.one
  · rintro ⟨before', t, after', heq, hnear', halone⟩
    obtain ⟨rfl, rfl, rfl⟩ := hnear.unique hnear' heq
    have hown : ∀ info ∈ r.debugInfos, info.selected = true →
        RecordOf lib block c.template.currentTime c.template info := by
      intro info hinfo hsel
      obtain ⟨t, ht, hr⟩ := exists_of_mem_forall₂ hrecords hinfo
      have htime := hr.selected.mp hsel
      have hteq : t = c.template := by
        by_contra hne
        have hmem : t ∈ before ++ after := by simpa [hne] using ht
        exact halone t hmem htime
      exact hteq ▸ hr
    have hmem : c.template ∈ before ++ c.template :: after :=
      List.mem_append_right _ List.mem_cons_self
    refine ⟨?_, fun info hinfo hsel => ?_, fun hf info hinfo hsel other hother => ?_⟩
    · rw [hcount, countP_eq_one_iff]
      exact halone
    · exact (hown info hinfo hsel).counts_eq hc hrow (hs _ hmem)
    · obtain ⟨t, ht, hr⟩ := exists_of_mem_forall₂ hrecords hother
      rw [(hown info hinfo hsel).sum_eq hf hmem, hr.sum_eq hf ht]
      exact_mod_cast hnear.le t ht

theorem sound_empty (t : GetBlockTemplateResult) :
    Sound decoding { t with transactions := [] } :=
  ⟨fun _ he => (nomatch he), fun _ he => (nomatch he), List.nodup_nil⟩

theorem sound_of_mem (t' : GetBlockTemplateResult) {t : GetBlockTemplateResult}
    (ht : t ∈ [overlapTemplate, { t' with transactions := [] }]) : Sound decoding t := by
  obtain rfl | ht := List.mem_cons.mp ht
  · exact sound_overlap
  · obtain rfl := List.mem_singleton.mp ht
    exact sound_empty _

/-- Of two templates of one second, the one with a shared transaction is compared. -/
theorem computes_twice : ∃ c b r, Computes decoding .inserted .bitcoin overlapBlock
    (feesOf decoding overlapBlock)
    [overlapTemplate, { overlapTemplate with transactions := [] }] c listedOnly b 7 r ∧
      r.debugInfos.countP (fun info => info.selected) = 2 :=
  ⟨_, _, _, ⟨rfl, ⟨_, [], 0, rfl, rfl⟩, _, HashMap.empty, rfl, rfl⟩, rfl⟩

theorem marked_fails : ¬ ∀ (lt : List GetBlockTemplateResult) (c : Comparison) (b : NewBlock)
    (r : Records), Computes decoding .inserted .bitcoin overlapBlock (feesOf decoding overlapBlock)
      lt c listedOnly b 7 r → (∀ t ∈ lt, Sound decoding t) →
    Marked overlapBlock lt b r.debugInfos := by
  intro h
  obtain ⟨c, b, r, hcomp, htwo⟩ := computes_twice
  have hm := h _ c b r hcomp (fun t ht => sound_of_mem overlapTemplate ht)
  exact absurd (htwo.symm.trans hm.one) (by decide)

/-- A template of the next second. -/
def nextTemplate : GetBlockTemplateResult :=
  { overlapTemplate with currentTime := overlapTemplate.currentTime + 1 }

def nextSecond : List GetBlockTemplateResult :=
  [overlapTemplate, { nextTemplate with transactions := [] }]

theorem marked_iff_overlap : ∃ c b r, Computes decoding .inserted .bitcoin overlapBlock
    (feesOf decoding overlapBlock) nextSecond c listedOnly b 7 r ∧ r.debugInfos.length = 2 ∧
      (Marked overlapBlock nextSecond b r.debugInfos ↔
        AloneInItsSecond decoding overlapBlock nextSecond) := by
  obtain ⟨c, b, r, h, hlen⟩ : ∃ c b r, Computes decoding .inserted .bitcoin overlapBlock
      (feesOf decoding overlapBlock) nextSecond c listedOnly b 7 r ∧ r.debugInfos.length = 2 :=
    ⟨_, _, _, ⟨rfl, ⟨_, [], 0, rfl, rfl⟩, _, HashMap.empty, rfl, rfl⟩, rfl⟩
  exact ⟨c, b, r, h, hlen,
    marked_iff h.compared h.row h.records (fun t ht => sound_of_mem nextTemplate ht)⟩

end MiningpoolObserver.TemplateChoice
