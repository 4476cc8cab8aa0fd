import MiningpoolObserver.ListingWalks
import MiningpoolObserver.StoredRows

namespace MiningpoolObserver.Handlers

open MiningpoolObserver.Library MiningpoolObserver.Library.CallTree
open MiningpoolObserver.Library.Fallible MiningpoolObserver.Library.HashCollections
open MiningpoolObserver.Library.KeyedTable MiningpoolObserver.Library.Queries
open MiningpoolObserver.Bitcoin MiningpoolObserver.SharedModel MiningpoolObserver.Tags
open MiningpoolObserver.Db MiningpoolObserver.Daemon MiningpoolObserver.Threads
open MiningpoolObserver.Web MiningpoolObserver.PageSafety MiningpoolObserver.StoredRows
open MiningpoolObserver.Simulation MiningpoolObserver.SanctionCounts MiningpoolObserver.NoPanic
open MiningpoolObserver.ListingWalks

/-- The hex crate. -/
structure Hex where
  encode : List UInt8 → String
  decode : String → Option (List UInt8)
  decode_encode : ∀ bytes, decode (encode bytes) = some bytes
  size_encode : ∀ bytes, (encode bytes).utf8ByteSize = 2 * bytes.length

def ERROR_INVALID_BLOCK_HASH : String := "INVALID BLOCK HASH"
def ERROR_INVALID_TXID : String := "INVALID TXID"

/-- A handler answers with an error, or panics. -/
inductive Refusal where
  | notFound (message : String)
  /-- An internal server error: the query has failed. -/
  | query (e : Failure)
  /-- An `unwrap` of the handler itself. -/
  | panicked
deriving DecidableEq

variable (hex : Hex)

def parseBlockHashStr (hashStr : String) : Except Refusal (List UInt8) :=
  if hashStr.utf8ByteSize ≠ 64 ∨ hashStr.startsWith "000000" = false then
    .error (.notFound ERROR_INVALID_BLOCK_HASH)
  else match hex.decode hashStr with
    | none => .error (.notFound ERROR_INVALID_BLOCK_HASH)
    | some hash => .ok hash

def parseTxidStr (txidStr : String) : Except Refusal (List UInt8) :=
  if txidStr.utf8ByteSize ≠ 64 then .error (.notFound ERROR_INVALID_TXID)
  else match hex.decode txidStr with
    | none => .error (.notFound ERROR_INVALID_TXID)
    | some txid => .ok txid

abbrev Handler (α : Type) := Prog Web.signature (Except Refusal α)

/-- Run a query of the database. -/
def serve {S : Signature} {α : Type} (q : Prog S (Except Failure α)) : Prog S (Except Refusal α) :=
  q.bind (fun r => .done (r.mapError .query))

/-- A page for maintainers: without content where these are not enabled. -/
def debugPage {S : Signature} {α : Type} (debugPagesEnabled : Bool)
    (page : Prog S (Except Refusal α)) : Prog S (Except Refusal (Option α)) :=
  if !debugPagesEnabled then .done (.ok none)
  else page.andThen (fun a => .done (.ok (some a)))

structure TemplateAndBlockPage where
  blockWithTx : BlockWithTx
  sanctionedMissingTx : List MissingSanctionedTransaction

def singleTemplateAndBlock (hashStr : String) : Handler TemplateAndBlockPage :=
  (Prog.done (parseBlockHashStr hex hashStr)).andThen (fun hash =>
    (serve (blockWithTx hash)).andThen (fun blockWithTx =>
      if 0 < blockWithTx.block.sanctionedMissingTx then
        (serve (missingSanctionedTxnsForBlock hash)).andThen (fun sanctionedMissingTx =>
          .done (.ok ⟨blockWithTx, sanctionedMissingTx⟩))
      else .done (.ok ⟨blockWithTx, []⟩)))

def singleMissingTransaction (txidStr : String) : Handler MissingTransaction :=
  (Prog.done (parseTxidStr hex txidStr)).andThen (fun txid =>
    serve (Web.singleMissingTransaction txid))

def singleBlockWithConflictingTransactions (hashStr : String) :
    Handler ConflictingTranscationInfo :=
  (Prog.done (parseBlockHashStr hex hashStr)).andThen (fun hash =>
    serve (Web.singleBlockWithConflictingTransactions hash))

section Links

variable {hex}

end Links

section Safety

variable {hex} {σ α β : Type} [Preorder σ] {dbs : σ → Database} {k : σ}

/-- No `unwrap` has failed, neither in a query nor in the handler, and what was returned satisfies
`P`. -/
def Serves (P : α → Prop) : Except Refusal α → Prop
  | .ok a => P a
  | .error e => e ≠ .panicked ∧ e ≠ .query .unwrappedNone

variable {P : α → Prop} {P' : β → Prop}

omit [Preorder σ] in
theorem ensures_serve {S : Signature} {E : Environment S σ} {q : Prog S (Except Failure α)}
    (h : Ensures E q k (Loads (fun a _ => P a))) :
    Ensures E (serve q) k (fun r _ => Serves P r) := by
  refine h.bind fun r t hr => .done fun _ _ => ?_
  cases r with
  | ok a => exact hr
  | error e => exact ⟨nofun, fun he => hr (by cases he; rfl)⟩

omit [Preorder σ] in
/-- What a handler hands on, a query has returned. -/
theorem exec_serve {S : Signature} {E : Environment S σ} {q : Prog S (Except Failure α)} {i j : σ}
    {tr : List (Event S σ)} {a : α} (h : Exec E (serve q) i tr (.ok a) j) :
    ∃ tr' u, Exec E q i tr' (.ok a) u ∧ E.drift u j := by
  obtain ⟨tr₁, tr₂, r, u, -, h₁, h₂⟩ := Exec.bind_iff.mp h
  obtain ⟨-, hr, hu⟩ := Exec.done_iff.mp h₂
  cases r with
  | error e => cases hr
  | ok a' =>
    cases hr
    exact ⟨tr₁, u, h₁, hu⟩

theorem ensures_handler {p : Handler α} {f : α → Handler β}
    (hp : Ensures (reading dbs) p k (fun r _ => Serves P r))
    (hf : ∀ a i, P a → Ensures (reading dbs) (f a) i (fun r _ => Serves P' r)) :
    Ensures (reading dbs) (p.andThen f) k (fun r _ => Serves P' r) :=
  hp.andThen hf (fun _ _ _ h _ => h)

/-- A handler that starts with an argument that it cannot parse answers that. -/
theorem ensures_parsed {r : Except Refusal α} {f : α → Handler β}
    (h : ∀ e, r = .error e → ∃ m, e = .notFound m)
    (hf : ∀ a i, Ensures (reading dbs) (f a) i (fun r _ => Serves P' r)) :
    Ensures (reading dbs) ((Prog.done r).andThen f) k (fun r _ => Serves P' r) := by
  refine ensures_handler (P := fun _ => True) (.done fun u _ => ?_) (fun a i _ => hf a i)
  cases r with
  | ok a => trivial
  | error e =>
    obtain ⟨m, rfl⟩ := h e rfl
    exact ⟨nofun, nofun⟩

theorem parseTxidStr_error {txidStr : String} {e : Refusal}
    (h : parseTxidStr hex txidStr = .error e) : ∃ m, e = .notFound m := by
  unfold parseTxidStr at h
  split at h
  · cases h
    exact ⟨_, rfl⟩
  · split at h <;> cases h
    exact ⟨_, rfl⟩

theorem parseBlockHashStr_error {hashStr : String} {e : Refusal}
    (h : parseBlockHashStr hex hashStr = .error e) : ∃ m, e = .notFound m := by
  unfold parseBlockHashStr at h
  split at h
  · cases h
    exact ⟨_, rfl⟩
  · split at h <;> cases h
    exact ⟨_, rfl⟩

variable (hr : Reliable dbs) (hread : ∀ i, ∀ tx ∈ (dbs i).transaction.rows, Readable tx)

/-- The transaction of the page is one of the table. -/
theorem stored_of_exec {txid : List UInt8} {tr : List (Event Web.signature σ)}
    {missing : MissingTransaction} {t : σ}
    (h : Exec (reading dbs) (Web.singleMissingTransaction txid) k tr (.ok missing) t) :
    ∃ i, missing.transaction ∈ (dbs i).transaction.rows := by
  obtain ⟨tr₁, tr₂, data, u, -, hdata, h⟩ := Exec.andThen_ok_iff.mp h
  obtain ⟨tr₃, tr₄, tx, v, -, htx, hdata⟩ := Exec.andThen_ok_iff.mp hdata
  obtain ⟨tr₅, tr₆, rows, w, -, -, hdata⟩ := Exec.andThen_ok_iff.mp hdata
  obtain ⟨tr₇, tr₈, blocks, x, -, -, hdata⟩ := Exec.andThen_ok_iff.mp hdata
  obtain ⟨-, hdata, -⟩ := Exec.done_iff.mp hdata
  cases hdata
  obtain ⟨-, hm, -⟩ := Exec.done_iff.mp h
  obtain ⟨i, rs, -, -, hx⟩ := ensures_load (.transaction txid) k _ _ _ htx
  rw [transaction_of_missingTransaction hm.symm]
  exact ⟨i, ((dbs i).transaction.find?_eq_some_iff.mp (firstOf_eq_ok.mp hx)).1⟩

include hr hread in
theorem ensures_singleMissingTransaction (txidStr : String) :
    Ensures (reading dbs) (singleMissingTransaction hex txidStr) k
      (fun r _ => Serves (fun missing => Readable missing.transaction) r) := by
  refine ensures_parsed (fun _ => parseTxidStr_error) fun txid i => ensures_serve ?_
  intro tr r t hx
  have hloads := hr.singleMissingTransaction txid tr r t hx
  cases r with
  | error e => exact hloads
  | ok missing =>
    obtain ⟨j, hj⟩ := stored_of_exec hx
    exact hread j _ hj

include hr in
theorem ensures_singleBlockWithConflictingTransactions (hashStr : String) :
    Ensures (reading dbs) (singleBlockWithConflictingTransactions hex hashStr) k
      (fun r _ => Serves (fun _ => True) r) :=
  ensures_parsed (fun _ => parseBlockHashStr_error)
    fun hash _ => ensures_serve (hr.singleBlockWithConflictingTransactions hash)

end Safety

section Evaluation

variable {ε α β : Type} {db : Database} {rs : RandomState}

variable {hex} {tx : SharedModel.Transaction} {b : SharedModel.Block}

end Evaluation

section Runs

variable {hex} {lib : Crates} {α : Type}

/-- A database that the threads may start from. -/
def Servable (w : World lib) : Prop := Sound w ∧ Legible w

/-- A run from where references are kept and rows can be read. -/
abbrev ServedRun (lib : Crates) := ThreadRun lib .reorganises (Fit lib) Servable

end Runs

section Samples

/-- The value of a digit of either case. -/
def digitValue (c : Char) : Option Nat :=
  if '0' ≤ c ∧ c ≤ '9' then some (c.toNat - '0'.toNat)
  else if 'a' ≤ c ∧ c ≤ 'f' then some (c.toNat - 'a'.toNat + 10)
  else if 'A' ≤ c ∧ c ≤ 'F' then some (c.toNat - 'A'.toNat + 10)
  else none

def digitsOf : List UInt8 → List Char
  | [] => []
  | b :: bytes => (b.toNat / 16).digitChar :: (b.toNat % 16).digitChar :: digitsOf bytes

def bytesOf : List Char → Option (List UInt8)
  | [] => some []
  | [_] => none
  | c :: d :: digits => do
    let high ← digitValue c
    let low ← digitValue d
    let bytes ← bytesOf digits
    pure (UInt8.ofNat (16 * high + low) :: bytes)

theorem digitValue_digitChar {n : ℕ} (h : n < 16) : digitValue n.digitChar = some n := by
  have hall : ∀ n < 16, digitValue n.digitChar = some n := by decide
  exact hall n h

theorem bytesOf_digitsOf (bytes : List UInt8) : bytesOf (digitsOf bytes) = some bytes := by
  induction bytes with
  | nil => rfl
  | cons b bytes ih =>
    have hb : b.toNat < 256 := b.toNat_lt
    have hbyte : 16 * (b.toNat / 16) + b.toNat % 16 = b.toNat := Nat.div_add_mod _ _
    rw [digitsOf, bytesOf, digitValue_digitChar (by omega), digitValue_digitChar (by omega), ih]
    change some (UInt8.ofNat (16 * (b.toNat / 16) + b.toNat % 16) :: bytes) = some (b :: bytes)
    rw [hbyte, UInt8.ofNat_toNat]

theorem size_digitsOf (bytes : List UInt8) :
    (String.ofList (digitsOf bytes)).utf8ByteSize = 2 * bytes.length := by
  induction bytes with
  | nil => rfl
  | cons b bytes ih =>
    have hb : b.toNat < 256 := b.toNat_lt
    have hsize : ∀ n < 16, n.digitChar.utf8Size = 1 := by decide
    rw [digitsOf, String.ofList_cons, String.ofList_cons, String.utf8ByteSize_append,
      String.utf8ByteSize_append, String.utf8ByteSize_singleton, String.utf8ByteSize_singleton,
      hsize _ (by omega), hsize _ (by omega), ih, List.length_cons]
    omega

/-- Two lowercase digits a byte. -/
def lowercase : Hex where
  encode bytes := String.ofList (digitsOf bytes)
  decode text := bytesOf text.toList
  decode_encode bytes := by rw [String.toList_ofList, bytesOf_digitsOf]
  size_encode := size_digitsOf

end Samples

end MiningpoolObserver.Handlers
