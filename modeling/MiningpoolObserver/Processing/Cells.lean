import MiningpoolObserver.Library.RefCells
import MiningpoolObserver.Processing.Conflicts

namespace MiningpoolObserver.Processing.Cells

open MiningpoolObserver.Library.HashCollections MiningpoolObserver.Library.RefCells
open MiningpoolObserver.Bitcoin MiningpoolObserver.DaemonModel
open MiningpoolObserver.Processing.Sanctions MiningpoolObserver.Processing.Transactions
open MiningpoolObserver.Processing.Conflicts

/-- `Conflict` as the source has it, each list in a cell of its own. -/
structure ConflictCells where
  templateTransactions : RefCell (List TxInfo)
  blockTransactions : RefCell (List TxInfo)
  conflictingOutpoints : RefCell (List OutPoint)

def ConflictCells.new (c : Conflict) : ConflictCells :=
  ⟨.new c.templateTransactions, .new c.blockTransactions, .new c.conflictingOutpoints⟩

def templateTransactions : Place ConflictCells (List TxInfo) where
  get c := c.templateTransactions
  set cell c := { c with templateTransactions := cell }
  get_set _ _ := rfl
  set_get _ := rfl
  set_set _ _ _ := rfl

def blockTransactions : Place ConflictCells (List TxInfo) where
  get c := c.blockTransactions
  set cell c := { c with blockTransactions := cell }
  get_set _ _ := rfl
  set_get _ := rfl
  set_set _ _ _ := rfl

def conflictingOutpoints : Place ConflictCells (List OutPoint) where
  get c := c.conflictingOutpoints
  set cell c := { c with conflictingOutpoints := cell }
  get_set _ _ := rfl
  set_get _ := rfl
  set_set _ _ _ := rfl

/-- The vector of conflicts while references into it are alive: they are positions. -/
abbrev Memory (n : Nat) := Fin n → ConflictCells

variable {n : Nat}

section Scan

def eqCells {σ α : Type} [DecidableEq α] (p q : Place σ α) : Access σ Bool :=
  p.borrow (fun a => q.borrow (fun b => pure (decide (a = b))))

/-- The derived comparison, field by field. -/
def eqConflicts (e c : Fin n) : Access (Memory n) Bool := do
  if ← eqCells (templateTransactions.at e) (templateTransactions.at c) then
    if ← eqCells (blockTransactions.at e) (blockTransactions.at c) then
      eqCells (conflictingOutpoints.at e) (conflictingOutpoints.at c)
    else pure false
  else pure false

/-- One `if` of the scan; the guard of its first operand lives while the second is evaluated. -/
def addIfNew (p : Place (Memory n) (List TxInfo)) (tx : TxInfo) (c : Fin n)
    (existing : List (Fin n)) : Access (Memory n) (List (Fin n)) := do
  let isNew ← p.borrow (fun txns =>
    if tx ∈ txns then do
      let known ← existing.anyM (fun e => eqConflicts e c)
      pure (!known)
    else pure false)
  pure (if isNew then existing ++ [c] else existing)

def scan (templateTransaction blockTransaction : TxInfo) : Access (Memory n) (List (Fin n)) :=
  (List.finRange n).foldlM (fun existing c => do
    let existing ← addIfNew (templateTransactions.at c) templateTransaction c existing
    addIfNew (blockTransactions.at c) blockTransaction c existing) []

/-- Only readers borrow the cells, and they hold what `c` says. -/
def Readable (c : Conflict) (cells : ConflictCells) : Prop :=
  ∃ a b o : Nat, cells = ⟨⟨c.templateTransactions, .reading a⟩,
    ⟨c.blockTransactions, .reading b⟩, ⟨c.conflictingOutpoints, .reading o⟩⟩

theorem readable_new (c : Conflict) : Readable c (.new c) := ⟨0, 0, 0, rfl⟩

theorem shows_templateTransactions (c : Conflict) :
    Shows (Readable c) templateTransactions c.templateTransactions := by
  rintro _ ⟨a, b, o, rfl⟩
  exact ⟨a, rfl, a + 1, b, o, rfl⟩

theorem shows_blockTransactions (c : Conflict) :
    Shows (Readable c) blockTransactions c.blockTransactions := by
  rintro _ ⟨a, b, o, rfl⟩
  exact ⟨b, rfl, a, b + 1, o, rfl⟩

theorem shows_conflictingOutpoints (c : Conflict) :
    Shows (Readable c) conflictingOutpoints c.conflictingOutpoints := by
  rintro _ ⟨a, b, o, rfl⟩
  exact ⟨o, rfl, a, b, o + 1, rfl⟩

variable {v : Fin n → Conflict}

/-- A memory in which the conflicts are those of `v`. -/
def Holds (v : Fin n → Conflict) (m : Memory n) : Prop := ∀ i, Readable (v i) (m i)

theorem shows_at {α : Type} {p : Place ConflictCells α} {a : Conflict → α}
    (h : ∀ c, Shows (Readable c) p (a c)) (i : Fin n) : Shows (Holds v) (p.at i) (a (v i)) :=
  Shows.at (q := fun i => Readable (v i)) (h (v i))

theorem reads_eqCells {σ α : Type} [DecidableEq α] {q : σ → Prop} {p p' : Place σ α} {a b : α}
    (hp : Shows q p a) (hp' : Shows q p' b) : Reads q (eqCells p p') (decide (a = b)) :=
  Reads.borrow hp (Reads.borrow hp' (Reads.pure _))

theorem reads_eqConflicts (e c : Fin n) :
    Reads (Holds v) (eqConflicts e c) (decide (v e = v c)) := by
  have heq : decide (v e = v c) =
      if decide ((v e).templateTransactions = (v c).templateTransactions) = true then
        if decide ((v e).blockTransactions = (v c).blockTransactions) = true then
          decide ((v e).conflictingOutpoints = (v c).conflictingOutpoints)
        else false
      else false := by
    generalize v e = x, v c = y
    cases x
    cases y
    simp only [Conflict.mk.injEq, Bool.decide_and, decide_eq_true_eq]
    split_ifs <;> simp [*]
  rw [heq]
  refine Reads.bind (reads_eqCells (shows_at shows_templateTransactions e)
    (shows_at shows_templateTransactions c)) ?_
  refine Reads.ite (fun _ => ?_) (fun _ => Reads.pure false)
  refine Reads.bind (reads_eqCells (shows_at shows_blockTransactions e)
    (shows_at shows_blockTransactions c)) ?_
  refine Reads.ite (fun _ => ?_) (fun _ => Reads.pure false)
  exact reads_eqCells (shows_at shows_conflictingOutpoints e)
    (shows_at shows_conflictingOutpoints c)

/-- The conflicts found so far, with one more if it holds the transaction and is not known. -/
def withNew (v : Fin n → Conflict) (txns : List TxInfo) (tx : TxInfo) (c : Fin n)
    (existing : List (Fin n)) : List (Fin n) :=
  if tx ∈ txns && v c ∉ existing.map v then existing ++ [c] else existing

theorem reads_addIfNew {p : Place (Memory n) (List TxInfo)} {txns : List TxInfo}
    (hp : Shows (Holds v) p txns) (tx : TxInfo) (c : Fin n) (existing : List (Fin n)) :
    Reads (Holds v) (addIfNew p tx c existing) (withNew v txns tx c existing) := by
  have hknown : Reads (Holds v) (existing.anyM (fun e => eqConflicts e c))
      (existing.any (fun e => decide (v e = v c))) :=
    Reads.anyM (fun e _ => reads_eqConflicts e c)
  have hnew : withNew v txns tx c existing =
      if (if tx ∈ txns then !existing.any (fun e => decide (v e = v c)) else false) = true
      then existing ++ [c] else existing := by
    have hany : (existing.any (fun e => decide (v e = v c))) = decide (v c ∈ existing.map v) := by
      simp only [List.any_eq, List.mem_map, decide_eq_true_eq]
    rw [withNew, hany]
    by_cases htx : tx ∈ txns <;> simp [htx]
  rw [hnew]
  refine Reads.bind (Reads.borrow hp ?_) (Reads.pure _)
  exact Reads.ite (fun _ => Reads.bind hknown (Reads.pure _)) (fun _ => Reads.pure false)

/-- The positions of the conflicts that already hold one of the two transactions. -/
def found (v : Fin n → Conflict) (templateTransaction blockTransaction : TxInfo) : List (Fin n) :=
  (List.finRange n).foldl (fun existing c => withNew v (v c).blockTransactions blockTransaction c
    (withNew v (v c).templateTransactions templateTransaction c existing)) []

theorem reads_scan (v : Fin n → Conflict) (templateTransaction blockTransaction : TxInfo) :
    Reads (Holds v) (scan templateTransaction blockTransaction)
      (found v templateTransaction blockTransaction) := by
  refine Reads.foldlM (fun c _ existing => ?_) []
  apply Reads.bind (reads_addIfNew (shows_at shows_templateTransactions c) _ c existing)
  exact reads_addIfNew (shows_at shows_blockTransactions c) _ c _

theorem existingConflicts_eq_map (v : Fin n → Conflict)
    (templateTransaction blockTransaction : TxInfo) :
    existingConflicts (List.ofFn v) templateTransaction blockTransaction =
      (found v templateTransaction blockTransaction).map (fun i => (i.val, v i)) := by
  have hzip : (List.ofFn v).zipIdx = (List.finRange n).map (fun i => (v i, i.val)) :=
    List.ext_getElem (by simp) (by simp)
  have hnew : ∀ (txns : List TxInfo) tx c (existing : List (Fin n)),
      (withNew v txns tx c existing).map (fun i => (i.val, v i)) =
        if tx ∈ txns && v c ∉ (existing.map (fun i => (i.val, v i))).map Prod.snd then
          existing.map (fun i => (i.val, v i)) ++ [(c.val, v c)]
        else existing.map (fun i => (i.val, v i)) := by
    intro txns tx c existing
    rw [withNew, List.map_map]
    change _ = if (tx ∈ txns && v c ∉ existing.map v) = true then _ else _
    split_ifs
    · rw [List.map_append, List.map_singleton]
    · rfl
  rw [existingConflicts, hzip, List.foldl_map, found]
  refine @List.foldl_hom _ _ _ (List.map (fun i => (i.val, v i))) _ _ (List.finRange n) []
    (fun existing c => ?_)
  rw [hnew, hnew]

theorem nodup_withNew {existing : List (Fin n)} (h : (existing.map v).Nodup) (txns : List TxInfo)
    (tx : TxInfo) (c : Fin n) : ((withNew v txns tx c existing).map v).Nodup := by
  unfold withNew
  split_ifs with hc
  · have hnew : v c ∉ existing.map v := of_decide_eq_true (Bool.and_eq_true_iff.mp hc).2
    rw [List.map_append, List.map_singleton]
    exact List.nodup_append.mpr ⟨h, List.nodup_singleton _, fun a ha b hb hab =>
      hnew (List.mem_singleton.mp hb ▸ hab ▸ ha)⟩
  · exact h

theorem nodup_found (v : Fin n → Conflict) (templateTransaction blockTransaction : TxInfo) :
    (found v templateTransaction blockTransaction).Nodup := by
  apply List.Nodup.of_map v
  refine List.foldlRecOn (motive := fun existing : List (Fin n) => (existing.map v).Nodup) _ _
    List.nodup_nil ?_
  exact fun existing h c _ => nodup_withNew (nodup_withNew h _ _ _) _ _ _

end Scan

section Update

def pushIfNew {σ α : Type} [DecidableEq α] (p : Place σ (List α)) (a : α) : Access σ Unit := do
  let contains ← p.borrow (fun l => pure (decide (a ∈ l)))
  if contains then pure () else p.borrowMut (fun l => pure ((), l ++ [a]))

def extend (c : Fin n) (templateTransaction blockTransaction : TxInfo) (co : OutPoint) :
    Access (Memory n) Unit := do
  pushIfNew (templateTransactions.at c) templateTransaction
  pushIfNew (blockTransactions.at c) blockTransaction
  pushIfNew (conflictingOutpoints.at c) co

/-- `append(&mut cell.borrow_mut())` takes everything out of the cell. -/
def drain {σ α : Type} (p : Place σ (List α)) : Access σ (List α) :=
  p.borrowMut (fun l => pure (l, []))

def drainInto (acc : Conflict) (c : Fin n) : Access (Memory n) Conflict := do
  let templateTxns ← drain (templateTransactions.at c)
  let blockTxns ← drain (blockTransactions.at c)
  let outpoints ← drain (conflictingOutpoints.at c)
  pure ⟨acc.templateTransactions ++ templateTxns, acc.blockTransactions ++ blockTxns,
    acc.conflictingOutpoints ++ outpoints⟩

def merge (c : Fin n) (existing : List (Fin n)) (templateTransaction blockTransaction : TxInfo)
    (co : OutPoint) : Access (Memory n) Unit := do
  let new ← existing.foldlM drainInto ⟨[templateTransaction], [blockTransaction], [co]⟩
  discard ((templateTransactions.at c).replace (sortDedupTransactions new.templateTransactions))
  discard ((blockTransactions.at c).replace (sortDedupTransactions new.blockTransactions))
  discard ((conflictingOutpoints.at c).replace (sortDedupOutpoints new.conflictingOutpoints))

/-- `conflicts.retain(|c| !c.template_transactions.borrow().is_empty())`. -/
def retain : List ConflictCells → Except BorrowPanic (List ConflictCells)
  | [] => .ok []
  | c :: conflicts => do
    let (isEmpty, c) ← templateTransactions.borrow (fun txns => pure txns.isEmpty) c
    let kept ← retain conflicts
    pure (if isEmpty then kept else c :: kept)

def updateCells (memory : Memory n) (templateTransaction blockTransaction : TxInfo)
    (co : OutPoint) : List (Fin n) → Except BorrowPanic (List ConflictCells)
  | [] => pure (List.ofFn memory ++ [.new ⟨[templateTransaction], [blockTransaction], [co]⟩])
  | [c] => do
    let ((), memory) ← extend c templateTransaction blockTransaction co memory
    pure (List.ofFn memory)
  | c :: rest => do
    let ((), memory) ← merge c (c :: rest) templateTransaction blockTransaction co memory
    pure (List.ofFn memory)

def addConflictCells (conflicts : List ConflictCells)
    (templateTransaction blockTransaction : TxInfo) (co : OutPoint) :
    Except BorrowPanic (List ConflictCells) := do
  let (existing, memory) ← scan templateTransaction blockTransaction conflicts.get
  let updated ← updateCells memory templateTransaction blockTransaction co existing
  let updated ← retain updated
  let updated ← retain updated
  retain updated

/-- The memory of conflicts none of which is borrowed. -/
def quiet (v : Fin n → Conflict) : Memory n := fun i => .new (v i)

theorem update_quiet (v : Fin n → Conflict) (c : Fin n) (x : Conflict) :
    Function.update (quiet v) c (.new x) = quiet (Function.update v c x) :=
  (Function.comp_update ConflictCells.new v c x).symm

theorem pushIfNew_eq {σ α : Type} [DecidableEq α] {p : Place σ (List α)} {s : σ} {l : List α}
    (h : p.get s = .new l) (a : α) :
    pushIfNew p a s = .ok ((), p.set (.new (pushNew l a)) s) := by
  rw [pushIfNew, Access.bind_eq (Place.borrow_pure h (fun l => decide (a ∈ l))), pushNew]
  by_cases ha : a ∈ l
  · rw [if_pos ha, if_pos (decide_eq_true ha), ← h, p.set_get]
    rfl
  · rw [if_neg ha, if_neg (by rwa [decide_eq_true_eq])]
    exact Place.borrowMut_pure h (fun l => ((), l ++ [a]))

theorem extend_eq (v : Fin n → Conflict) (c : Fin n) (templateTransaction blockTransaction : TxInfo)
    (co : OutPoint) : extend c templateTransaction blockTransaction co (quiet v) =
      .ok ((), quiet (Function.update v c
        ⟨pushNew (v c).templateTransactions templateTransaction,
          pushNew (v c).blockTransactions blockTransaction,
          pushNew (v c).conflictingOutpoints co⟩)) := by
  rw [← update_quiet, extend, Access.bind_eq (pushIfNew_eq rfl _),
    Access.bind_eq (pushIfNew_eq (l := (v c).blockTransactions) ?_ _),
    pushIfNew_eq (l := (v c).conflictingOutpoints) ?_ _]
  · simp only [Place.set_at, Function.update_self, Function.update_idem]
    rfl
  · simp only [Place.set_at, Place.get_at, Function.update_self]
    rfl
  · simp only [Place.set_at, Place.get_at, Function.update_self]
    rfl

theorem drain_eq {σ α : Type} {p : Place σ (List α)} {s : σ} {l : List α} (h : p.get s = .new l) :
    drain p s = .ok (l, p.set (.new []) s) :=
  Place.borrowMut_pure h (fun l => (l, []))

theorem drainInto_eq (v : Fin n → Conflict) (acc : Conflict) (c : Fin n) :
    drainInto acc c (quiet v) = .ok
      (⟨acc.templateTransactions ++ (v c).templateTransactions,
        acc.blockTransactions ++ (v c).blockTransactions,
        acc.conflictingOutpoints ++ (v c).conflictingOutpoints⟩,
        quiet (Function.update v c ⟨[], [], []⟩)) := by
  rw [← update_quiet, drainInto, Access.bind_eq (drain_eq (l := (v c).templateTransactions) rfl),
    Access.bind_eq (drain_eq (l := (v c).blockTransactions) ?_),
    Access.bind_eq (drain_eq (l := (v c).conflictingOutpoints) ?_)]
  · simp only [Place.set_at, Function.update_self, Function.update_idem]
    rfl
  · simp only [Place.set_at, Place.get_at, Function.update_self]
    rfl
  · simp only [Place.set_at, Place.get_at, Function.update_self]
    rfl

/-- The conflicts after those of the list have been drained. -/
def emptied (v : Fin n → Conflict) (existing : List (Fin n)) (i : Fin n) : Conflict :=
  if i ∈ existing then ⟨[], [], []⟩ else v i

theorem emptied_update (v : Fin n → Conflict) (c : Fin n) (existing : List (Fin n)) :
    emptied (Function.update v c ⟨[], [], []⟩) existing = emptied v (c :: existing) := by
  funext i
  simp only [emptied, List.mem_cons]
  obtain rfl | hne := eq_or_ne i c
  · simp only [Function.update_self, ite_self, true_or, if_true]
  · simp only [Function.update_of_ne hne, hne, false_or]

theorem update_emptied (v : Fin n → Conflict) (c : Fin n) (existing : List (Fin n)) (x : Conflict) :
    Function.update (emptied v (c :: existing)) c x = Function.update (emptied v existing) c x := by
  rw [← emptied_update]
  funext i
  obtain rfl | hne := eq_or_ne i c
  · rw [Function.update_self, Function.update_self]
  · simp only [emptied, Function.update_of_ne hne]

theorem foldlM_drainInto {existing : List (Fin n)} (hnd : existing.Nodup) (v : Fin n → Conflict)
    (acc : Conflict) : existing.foldlM drainInto acc (quiet v) = .ok
      (⟨acc.templateTransactions ++ existing.flatMap (fun c => (v c).templateTransactions),
        acc.blockTransactions ++ existing.flatMap (fun c => (v c).blockTransactions),
        acc.conflictingOutpoints ++ existing.flatMap (fun c => (v c).conflictingOutpoints)⟩,
        quiet (emptied v existing)) := by
  induction existing generalizing acc v with
  | nil =>
    simp only [List.flatMap_nil, List.append_nil]
    rfl
  | cons c existing ih =>
    obtain ⟨hc, hnd⟩ := List.nodup_cons.mp hnd
    -- what the others hold does not change when the first is drained
    have hrest : ∀ {α : Type} (f : Conflict → List α),
        existing.flatMap (fun i => f (Function.update v c ⟨[], [], []⟩ i)) =
          existing.flatMap (fun i => f (v i)) := fun f =>
      List.flatMap_congr (fun i hi => by rw [Function.update_of_ne (ne_of_mem_of_not_mem hi hc)])
    rw [List.foldlM_cons, Access.bind_eq (drainInto_eq v acc c), ih hnd, emptied_update,
      hrest Conflict.templateTransactions, hrest Conflict.blockTransactions,
      hrest Conflict.conflictingOutpoints]
    simp only [List.flatMap_cons, List.append_assoc]

theorem discard_eq {σ α : Type} {m : Access σ α} {s s' : σ} {a : α} (h : m s = .ok (a, s')) :
    discard m s = .ok ((), s') := by
  change (m s >>= fun r => Except.ok ((), r.2)) = _
  rw [h]
  rfl

theorem merge_eq {c : Fin n} {rest : List (Fin n)} (hnd : (c :: rest).Nodup) (v : Fin n → Conflict)
    (templateTransaction blockTransaction : TxInfo) (co : OutPoint) :
    merge c (c :: rest) templateTransaction blockTransaction co (quiet v) =
      .ok ((), quiet (Function.update (emptied v rest) c
        (mergeConflicts ((c :: rest).map v) templateTransaction blockTransaction co))) := by
  have hlists : ∀ {α : Type} (f : Conflict → List α),
      ((c :: rest).map v).flatMap f = (c :: rest).flatMap (fun i => f (v i)) := fun f =>
    List.flatMap_map _ _ _
  have hget : emptied v (c :: rest) c = ⟨[], [], []⟩ := if_pos List.mem_cons_self
  rw [merge, Access.bind_eq (foldlM_drainInto hnd v _),
    Access.bind_eq (discard_eq (Place.replace_eq (a := []) ?_ _)),
    Access.bind_eq (discard_eq (Place.replace_eq (a := []) ?_ _)),
    discard_eq (Place.replace_eq (a := []) ?_ _), ← update_emptied, ← update_quiet, mergeConflicts,
    hlists, hlists, hlists]
  · simp only [Place.set_at, Function.update_self, Function.update_idem]
    rfl
  all_goals simp only [Place.set_at, Place.get_at, Function.update_self, quiet, hget]; rfl

theorem ofFn_quiet (v : Fin n → Conflict) : List.ofFn (quiet v) = (List.ofFn v).map .new :=
  List.map_ofFn.symm

theorem ofFn_set (v : Fin n → Conflict) (c : Fin n) (x : Conflict) :
    (List.ofFn v).set c.val x = List.ofFn (Function.update v c x) := by
  refine List.ext_getElem (by simp) (fun i hi _ => ?_)
  simp [List.getElem_set, Function.update_apply, Fin.ext_iff, eq_comm]

theorem ofFn_modify (v : Fin n → Conflict) (c : Fin n) (f : Conflict → Conflict) :
    (List.ofFn v).modify c.val f = List.ofFn (Function.update v c (f (v c))) := by
  rw [← ofFn_set, List.modify_eq_set_getElem?, List.getElem?_ofFn, dif_pos c.isLt]
  rfl

theorem foldl_set_ofFn (v : Fin n → Conflict) (existing : List (Fin n)) :
    existing.foldl (fun cs i => cs.set i.val ⟨[], [], []⟩) (List.ofFn v) =
      List.ofFn (emptied v existing) := by
  induction existing generalizing v with
  | nil => rfl
  | cons c existing ih => rw [List.foldl_cons, ofFn_set, ih, emptied_update]

/-- What one round makes of the conflicts, those with no template transaction included. -/
def updated (conflicts : List Conflict) (templateTransaction blockTransaction : TxInfo)
    (co : OutPoint) : List (Nat × Conflict) → List Conflict
  | [] => conflicts ++ [⟨[templateTransaction], [blockTransaction], [co]⟩]
  | [(i, _)] => conflicts.modify i (fun c =>
      ⟨pushNew c.templateTransactions templateTransaction,
        pushNew c.blockTransactions blockTransaction, pushNew c.conflictingOutpoints co⟩)
  | (i, c) :: rest =>
    (rest.foldl (fun cs e => cs.set e.1 ⟨[], [], []⟩) conflicts).set i
      (mergeConflicts (c :: rest.map Prod.snd) templateTransaction blockTransaction co)

theorem addConflict_eq_filter (conflicts : List Conflict)
    (templateTransaction blockTransaction : TxInfo) (co : OutPoint) :
    addConflict conflicts templateTransaction blockTransaction co =
      (updated conflicts templateTransaction blockTransaction co
        (existingConflicts conflicts templateTransaction blockTransaction)).filter
        (fun c => !c.templateTransactions.isEmpty) := rfl

theorem updateCells_eq {existing : List (Fin n)} (hnd : existing.Nodup) (v : Fin n → Conflict)
    (templateTransaction blockTransaction : TxInfo) (co : OutPoint) :
    updateCells (quiet v) templateTransaction blockTransaction co existing =
      .ok ((updated (List.ofFn v) templateTransaction blockTransaction co
        (existing.map (fun i => (i.val, v i)))).map .new) := by
  match existing, hnd with
  | [], _ =>
    rw [updateCells, ofFn_quiet, List.map_nil, updated, List.map_append, List.map_singleton]
    rfl
  | [c], _ =>
    rw [updateCells, extend_eq, List.map_singleton, updated, ofFn_modify, ← ofFn_quiet]
    rfl
  | c :: d :: rest, hnd =>
    have hset : ((d :: rest).map (fun i => (i.val, v i))).foldl
        (fun cs e => cs.set e.1 ⟨[], [], []⟩) (List.ofFn v) =
          List.ofFn (emptied v (d :: rest)) := by
      rw [List.foldl_map, foldl_set_ofFn]
    have hvalues : ((d :: rest).map (fun i => (i.val, v i))).map Prod.snd = (d :: rest).map v :=
      List.map_map
    change _ = Except.ok ((List.set (((d :: rest).map _).foldl _ _) c.val
      (mergeConflicts (v c :: ((d :: rest).map _).map Prod.snd) _ _ _)).map _)
    rw [hset, hvalues, ofFn_set, ← ofFn_quiet]
    change (merge c (c :: d :: rest) _ _ co (quiet v) >>= _) = _
    rw [merge_eq hnd]
    rfl

theorem retain_eq (conflicts : List Conflict) : retain (conflicts.map .new) =
    .ok ((conflicts.filter (fun c => !c.templateTransactions.isEmpty)).map .new) := by
  induction conflicts with
  | nil => rfl
  | cons c conflicts ih =>
    have hb : templateTransactions.borrow (fun txns => pure txns.isEmpty) (.new c) =
        .ok (c.templateTransactions.isEmpty, .new c) :=
      Place.borrow_pure (p := templateTransactions) (n := 0) rfl List.isEmpty
    rw [List.map_cons, retain, hb, ih, List.filter_cons]
    change Except.ok (if c.templateTransactions.isEmpty = true then _ else _) = _
    cases c.templateTransactions.isEmpty <;> rfl

/-- No borrow of one round fails, and the round does what `addConflict` says. -/
theorem addConflictCells_eq (conflicts : List Conflict)
    (templateTransaction blockTransaction : TxInfo) (co : OutPoint) :
    addConflictCells (conflicts.map .new) templateTransaction blockTransaction co =
      .ok ((addConflict conflicts templateTransaction blockTransaction co).map .new) := by
  let v : Fin (conflicts.map ConflictCells.new).length → Conflict :=
    fun i => conflicts.get (i.cast (List.length_map _))
  have hv : List.ofFn v = conflicts := List.ext_getElem (by simp) (by simp [v])
  have hm : (conflicts.map ConflictCells.new).get = quiet v := by
    funext i
    simp [quiet, v]
  have hscan := reads_scan v templateTransaction blockTransaction (quiet v)
    (fun i => readable_new (v i))
  have hupdate := updateCells_eq (nodup_found v templateTransaction blockTransaction) v
    templateTransaction blockTransaction co
  rw [← existingConflicts_eq_map, hv] at hupdate
  rw [addConflictCells, hm, hscan, addConflict_eq_filter]
  simp only [bind, Except.bind, hupdate, retain_eq, List.filter_filter, Bool.and_self]

end Update

section Rows

/-- The guards live until the row is pushed. -/
def conflictRowCells (blockId : Int64) : Access ConflictCells SharedModel.ConflictingTransaction :=
  templateTransactions.borrow (fun templateTxns => blockTransactions.borrow (fun blockTxns =>
    conflictingOutpoints.borrow (fun outpoints => conflictingOutpoints.borrow (fun outpoints' =>
      pure {
        blockId := blockId
        templateTxids := templateTxns.map (fun tx => tx.txid.reversed)
        blockTxids := blockTxns.map (fun tx => tx.txid.reversed)
        conflictingOutpointsTxids := outpoints.map (fun o => o.txid.reversed)
        conflictingOutpointsVouts := outpoints'.map (fun o => o.vout.toInt32) }))))

def emit (blockId : Int64) (add : TransactionMap → TxInfo → TransactionMap)
    (acc : List SharedModel.ConflictingTransaction × TransactionMap) :
    Access ConflictCells (List SharedModel.ConflictingTransaction × TransactionMap) := do
  let row ← conflictRowCells blockId
  let transactions ← templateTransactions.borrow (fun txns => pure (txns.foldl add acc.2))
  let transactions ← blockTransactions.borrow (fun txns => pure (txns.foldl add transactions))
  pure (acc.1 ++ [row], transactions)

/-- How build_conflicting_transactions can panic: in a lookup or in a borrow. -/
inductive CellPanic where
  | lookup (p : Panic)
  | borrow (p : BorrowPanic)
deriving DecidableEq

/-- build_conflicting_transactions with its cells and their borrows. -/
def buildConflictingTransactionsCells (lib : Crates) (rs : RandomState) (blockId : Int64)
    (txidsOnlyInTemplate : HashSet Txid) (templateTxidToTxinfoMap : HashMap Txid TxInfo)
    (txidsOnlyInBlock : HashSet Txid) (blockTxidToTxinfoMap : HashMap Txid TxInfo)
    (transactions : TransactionMap) (utxoMap : UtxoMap) (sanctionedAddresses : HashSet String) :
    Except CellPanic (List SharedModel.ConflictingTransaction × TransactionMap) := do
  let template ←
    (spentOutpoints (txidsOnlyInTemplate.iter rs) templateTxidToTxinfoMap).mapError .lookup
  let block ← (spentOutpoints (txidsOnlyInBlock.iter rs) blockTxidToTxinfoMap).mapError .lookup
  let conflictingOutpoints := (template.outpoints.intersection block.outpoints).iter rs
  if conflictingOutpoints.isEmpty then return ([], transactions)
  let conflicts ← conflictingOutpoints.foldlM (fun conflicts co => do
    let templateTransaction ← (findOutpoint template.toTxinfo co).mapError .lookup
    let blockTransaction ← (findOutpoint block.toTxinfo co).mapError .lookup
    (addConflictCells conflicts templateTransaction blockTransaction co).mapError .borrow) []
  let add := fun transactions txInfo =>
    buildAndAdd lib rs txInfo true utxoMap sanctionedAddresses transactions
  conflicts.foldlM (fun acc conflict =>
    ((emit blockId add acc conflict).map Prod.fst).mapError .borrow) ([], transactions)

theorem reads_conflictRowCells (blockId : Int64) (c : Conflict) :
    Reads (Readable c) (conflictRowCells blockId) (conflictRow blockId c) :=
  Reads.borrow (shows_templateTransactions c) (Reads.borrow (shows_blockTransactions c)
    (Reads.borrow (shows_conflictingOutpoints c) (Reads.borrow (shows_conflictingOutpoints c)
      (Reads.pure _))))

theorem reads_emit (blockId : Int64) (add : TransactionMap → TxInfo → TransactionMap)
    (acc : List SharedModel.ConflictingTransaction × TransactionMap) (c : Conflict) :
    Reads (Readable c) (emit blockId add acc) (acc.1 ++ [conflictRow blockId c],
      c.blockTransactions.foldl add (c.templateTransactions.foldl add acc.2)) := by
  apply Reads.bind (reads_conflictRowCells blockId c)
  refine Reads.bind (Reads.borrow (shows_templateTransactions c) (Reads.pure _)) ?_
  exact Reads.bind (Reads.borrow (shows_blockTransactions c) (Reads.pure _)) (Reads.pure _)

theorem foldlM_emit (blockId : Int64) (add : TransactionMap → TxInfo → TransactionMap)
    (conflicts : List Conflict) (acc : List SharedModel.ConflictingTransaction × TransactionMap) :
    (conflicts.map .new).foldlM (fun acc conflict =>
      ((emit blockId add acc conflict).map Prod.fst).mapError CellPanic.borrow) acc =
        .ok (acc.1 ++ conflicts.map (conflictRow blockId),
          conflicts.foldl (fun transactions c => c.blockTransactions.foldl add
            (c.templateTransactions.foldl add transactions)) acc.2) := by
  induction conflicts generalizing acc with
  | nil =>
    rw [List.map_nil, List.map_nil, List.append_nil]
    rfl
  | cons c conflicts ih =>
    rw [List.map_cons, List.foldlM_cons, reads_emit blockId add acc c (.new c) (readable_new c)]
    apply (ih _).trans
    rw [List.append_assoc, List.map_cons, List.foldl_cons]
    rfl

theorem foldlM_addConflictCells (template block : Outpoints) (outpoints : List OutPoint)
    (conflicts : List Conflict) :
    outpoints.foldlM (fun conflicts co => do
      let templateTransaction ← (findOutpoint template.toTxinfo co).mapError CellPanic.lookup
      let blockTransaction ← (findOutpoint block.toTxinfo co).mapError .lookup
      (addConflictCells conflicts templateTransaction blockTransaction co).mapError .borrow)
      (conflicts.map .new) =
        ((outpoints.foldlM (fun conflicts co => do
          let templateTransaction ← findOutpoint template.toTxinfo co
          let blockTransaction ← findOutpoint block.toTxinfo co
          pure (addConflict conflicts templateTransaction blockTransaction co))
          conflicts).map (List.map ConflictCells.new)).mapError .lookup := by
  induction outpoints generalizing conflicts with
  | nil => rfl
  | cons co outpoints ih =>
    rw [List.foldlM_cons, List.foldlM_cons]
    cases findOutpoint template.toTxinfo co with
    | error p => rfl
    | ok templateTransaction =>
      cases findOutpoint block.toTxinfo co with
      | error p => rfl
      | ok blockTransaction =>
        change ((addConflictCells (conflicts.map .new) templateTransaction blockTransaction
          co).mapError CellPanic.borrow >>= _) = _
        rw [addConflictCells_eq]
        exact ih (addConflict conflicts templateTransaction blockTransaction co)

/-- No borrow fails, for any arguments: with its cells the function does what it does without. -/
theorem buildConflictingTransactionsCells_eq (lib : Crates) (rs : RandomState) (blockId : Int64)
    (txidsOnlyInTemplate : HashSet Txid) (templateTxidToTxinfoMap : HashMap Txid TxInfo)
    (txidsOnlyInBlock : HashSet Txid) (blockTxidToTxinfoMap : HashMap Txid TxInfo)
    (transactions : TransactionMap) (utxoMap : UtxoMap) (sanctionedAddresses : HashSet String) :
    buildConflictingTransactionsCells lib rs blockId txidsOnlyInTemplate templateTxidToTxinfoMap
      txidsOnlyInBlock blockTxidToTxinfoMap transactions utxoMap sanctionedAddresses =
        (buildConflictingTransactions lib rs blockId txidsOnlyInTemplate templateTxidToTxinfoMap
          txidsOnlyInBlock blockTxidToTxinfoMap transactions utxoMap
          sanctionedAddresses).mapError .lookup := by
  unfold buildConflictingTransactionsCells buildConflictingTransactions
  cases spentOutpoints (txidsOnlyInTemplate.iter rs) templateTxidToTxinfoMap with
  | error p => rfl
  | ok template =>
    cases spentOutpoints (txidsOnlyInBlock.iter rs) blockTxidToTxinfoMap with
    | error p => rfl
    | ok block =>
      generalize hco : (template.outpoints.intersection block.outpoints).iter rs = outpoints
      change (if ((template.outpoints.intersection block.outpoints).iter rs).isEmpty = true then _
        else List.foldlM _ [] ((template.outpoints.intersection block.outpoints).iter rs) >>= _) =
          Except.mapError _ (List.foldlM _ [] _ >>= _)
      rw [hco, ← List.map_nil (f := ConflictCells.new), foldlM_addConflictCells]
      cases outpoints with
      | nil => rfl
      | cons co outpoints =>
        cases (List.foldlM _ [] (co :: outpoints) : Except Panic (List Conflict)) with
        | error p => rfl
        | ok conflicts => exact foldlM_emit blockId _ conflicts ([], transactions)

end Rows

end MiningpoolObserver.Processing.Cells
