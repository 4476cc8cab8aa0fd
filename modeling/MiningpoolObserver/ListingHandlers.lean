import MiningpoolObserver.Handlers
import MiningpoolObserver.Library.Interfaces
import MiningpoolObserver.ReportWalks

namespace MiningpoolObserver.ListingHandlers

open MiningpoolObserver.Library MiningpoolObserver.Library.CallTree
open MiningpoolObserver.Library.Interfaces MiningpoolObserver.Library.HashCollections
open MiningpoolObserver.Library.KeyedTable MiningpoolObserver.Library.Queries
open MiningpoolObserver.Library.Pages MiningpoolObserver.Library.PageWalks
open MiningpoolObserver.Bitcoin MiningpoolObserver.SharedModel MiningpoolObserver.Db
open MiningpoolObserver.Daemon MiningpoolObserver.Threads MiningpoolObserver.Web
open MiningpoolObserver.PageSafety MiningpoolObserver.Listings MiningpoolObserver.Pagination
open MiningpoolObserver.PoolRenames MiningpoolObserver.ListingWalks MiningpoolObserver.Reports
open MiningpoolObserver.ReportWalks MiningpoolObserver.Handlers MiningpoolObserver.StoredRows
open MiningpoolObserver.Simulation MiningpoolObserver.SanctionCounts MiningpoolObserver.Archive

def QUERY_PAGE : String := "page"
def QUERY_POOL : String := "pool"
def ERROR_INVALID_INT : String := "INVALID INT"

section Numbers

/-- Digits are read from the left, as long as the number fits. -/
def readDigits : List Char → Nat → Option Nat
  | [], n => some n
  | c :: cs, n =>
    if c.isDigit ∧ 10 * n + (c.toNat - '0'.toNat) < UInt32.size then
      readDigits cs (10 * n + (c.toNat - '0'.toNat))
    else none

/-- `str::parse::<u32>`: digits, and a plus sign before them or not. -/
def parseU32 (text : String) : Option UInt32 :=
  match text.toList with
  | [] => none
  | '+' :: c :: cs => (readDigits (c :: cs) 0).map UInt32.ofNat
  | cs => (readDigits cs 0).map UInt32.ofNat

def parseUint (uintStr : String) : Except Refusal UInt32 :=
  match parseU32 uintStr with
  | some uint => .ok uint
  | none => .error (.notFound ERROR_INVALID_INT)

theorem le_ofDigitChars {cs : List Char} {n : ℕ} : n ≤ Nat.ofDigitChars 10 cs n := by
  induction cs generalizing n with
  | nil => exact le_rfl
  | cons c cs ih =>
    rw [Nat.ofDigitChars_cons]
    exact le_trans (by omega) ih

theorem readDigits_eq {cs : List Char} {n : ℕ} (hdigits : ∀ c ∈ cs, c.isDigit = true)
    (hfits : Nat.ofDigitChars 10 cs n < UInt32.size) :
    readDigits cs n = some (Nat.ofDigitChars 10 cs n) := by
  induction cs generalizing n with
  | nil => rfl
  | cons c cs ih =>
    rw [Nat.ofDigitChars_cons] at hfits ⊢
    rw [readDigits, if_pos ⟨hdigits c List.mem_cons_self, le_ofDigitChars.trans_lt hfits⟩]
    exact ih (fun c hc => hdigits c (List.mem_cons_of_mem _ hc)) hfits

/-- A number that is written in decimal is read again. -/
theorem parseUint_repr {n : ℕ} (h : n < UInt32.size) :
    parseUint n.repr = .ok (UInt32.ofNat n) := by
  have hread : readDigits (Nat.toDigits 10 n) 0 = some n := by
    rw [readDigits_eq (fun c hc => Nat.isDigit_of_mem_toDigits (by decide) (by decide) hc),
      Nat.ofDigitChars_ten_toDigits]
    rwa [Nat.ofDigitChars_ten_toDigits]
  have hparse : parseU32 n.repr = some (UInt32.ofNat n) := by
    rw [parseU32, Nat.toList_repr]
    have hplus : '+' ∉ Nat.toDigits 10 n := by
      intro hmem
      have hdigit := Nat.isDigit_of_mem_toDigits (by decide) (by decide) hmem
      exact absurd hdigit (by decide)
    cases hd : Nat.toDigits 10 n with
    | nil => exact absurd hd Nat.toDigits_ne_nil
    | cons c cs =>
      have hc : c ≠ '+' := fun he => hplus (hd ▸ he ▸ List.mem_cons_self)
      split
      · rename_i he
        cases he
      · rename_i he
        exact absurd (List.cons.inj he).1 hc
      · rw [← hd, hread]
        rfl
  rw [parseUint, hparse]

/-- Other texts are not found. -/
theorem parseUint_error {text : String} {e : Refusal} (h : parseUint text = .error e) :
    e = .notFound ERROR_INVALID_INT := by
  unfold parseUint at h
  split at h
  · cases h
  · exact (Except.error.inj h).symm

end Numbers

/-- The query of an address. -/
abbrev Params := HashMap String String

abbrev siteSignature : Signature := both Web.signature reportSignature

abbrev SiteQuery (α : Type) := Prog siteSignature (Except Failure α)

abbrev SiteHandler (α : Type) := Prog siteSignature (Except Refusal α)

def pageOf (query : Params) : Except Refusal UInt32 :=
  match query.get? QUERY_PAGE with
  | none => .ok 0
  | some queryPage => parseUint queryPage

/-- What is shown of a listing. -/
structure Page (α : Type) where
  entries : List α
  maxPages : UInt32
  currentPage : UInt32

/-- A handler of a listing: the page is that of the query, or the first one. -/
def paged {α : Type} (q : UInt32 → SiteQuery (List α × UInt32)) (query : Params) :
    SiteHandler (Page α) :=
  (Prog.done (pageOf query)).andThen (fun page =>
    (serve (q page)).andThen (fun (entries, maxPages) => .done (.ok ⟨entries, maxPages, page⟩)))

structure BlocksPage extends Page SharedModel.Block where
  currentPool : String
  pools : List String

def miningPool (query : Params) : String := (query.get? QUERY_POOL).getD ""

/-- The blocks of all pools, or of one. -/
def blockListing (pool : String) (page : UInt32) : SiteQuery (List SharedModel.Block × UInt32) :=
  if pool ≠ "" then left (Web.blocksByPool page pool) else left (Web.blocks page)

def templatesAndBlocks (query : Params) : SiteHandler BlocksPage :=
  (paged (blockListing (miningPool query)) query).andThen (fun listing =>
    (serve (right Reports.pools)).andThen (fun pools =>
      .done (.ok { listing with currentPool := miningPool query, pools := pools })))

def missingTransactions : Params → SiteHandler (Page MissingTransaction) :=
  paged (fun page => left (Web.missingTransactions page))

def conflictingTransactions : Params → SiteHandler (Page ConflictingTranscationInfo) :=
  paged (fun page => left (Web.blocksWithConflictingTransactions page))

def debugUtxosetScans (debugPagesEnabled : Bool) (query : Params) :
    SiteHandler (Option (Page SanctionedUtxoScanInfo)) :=
  debugPage debugPagesEnabled (paged (fun page => right (Reports.sanctionedUtxoScanInfos page))
    query)

def debugTemplateSelectionInfos (debugPagesEnabled : Bool) (query : Params) :
    SiteHandler (Option (Page DebugTemplateSelectionInfosAndBlock)) :=
  debugPage debugPagesEnabled
    (paged (fun page => right (Reports.debugTemplateSelectionInfos page)) query)

def debugUnknownPoolBlocks (debugPagesEnabled : Bool) :
    SiteHandler (Option (List SharedModel.Block)) :=
  debugPage debugPagesEnabled (serve (right Reports.unknownPoolBlocks))

theorem pageOf_error {query : Params} {e : Refusal} (h : pageOf query = .error e) :
    e = .notFound ERROR_INVALID_INT := by
  unfold pageOf at h
  split at h
  · cases h
  · exact parseUint_error h

variable {σ α β : Type} [Preorder σ] {dbs : σ → Database} {k : σ} {query : Params}

/-- Every SELECT of the site reads the database of the moment. -/
def site (dbs : σ → Database) : Environment siteSignature σ :=
  answering (reading dbs) (reporting dbs)

theorem ensures_right_site {p : ReportQuery α} {Q : Except Failure α → σ → Prop}
    (h : Ensures (reporting dbs) p k Q) : Ensures (site dbs) (right p) k Q := by
  have hdrift : (reading dbs).drift = (reporting dbs).drift := rfl
  exact ensures_right hdrift h

/-- The blocks that a listing goes through. -/
def rowsOf (db : Database) (pool : String) : List SharedModel.Block :=
  if pool ≠ "" then poolRows db pool else db.block.rows

section Safety

omit [Preorder σ] in
theorem ensures_loads {S : Signature} {E : Environment S σ} {p : Prog S (Except Failure α)}
    {Q : α → σ → Prop} (h : Ensures E p k (Loads Q)) : Ensures E p k (Loads (fun _ _ => True)) := by
  refine h.mono (fun r t hr => ?_)
  cases r with
  | ok a => trivial
  | error e => exact hr

/-- The page that is shown is the one asked for. A listing is not found exactly when that is no
number, and no `unwrap` fails. -/
def Answers (query : Params) (Q : UInt32 → α → Prop) : Except Refusal α → Prop
  | .ok a => ∃ n, pageOf query = .ok n ∧ Q n a
  | .error e => e ≠ .panicked ∧ e ≠ .query .unwrappedNone ∧
    ∀ m, e = .notFound m ↔ pageOf query = .error (.notFound m)

theorem Answers.mono {Q Q' : UInt32 → α → Prop} {r : Except Refusal α} (h : Answers query Q r)
    (hQ : ∀ n a, Q n a → Q' n a) : Answers query Q' r := by
  cases r with
  | ok a =>
    obtain ⟨n, hn, ha⟩ := h
    exact ⟨n, hn, hQ n a ha⟩
  | error e => exact h

theorem answers_query {Q : UInt32 → α → Prop} {n : UInt32} (hn : pageOf query = .ok n)
    {e : Failure} (he : e ≠ .unwrappedNone) : Answers query Q (.error (.query e)) := by
  refine ⟨nofun, fun h => he (Refusal.query.inj h), fun m => ⟨nofun, fun h => ?_⟩⟩
  rw [hn] at h
  cases h

theorem answers_invalid {Q : UInt32 → α → Prop} {e : Refusal} (h : pageOf query = .error e) :
    Answers query Q (.error e) := by
  obtain rfl := pageOf_error h
  refine ⟨nofun, nofun, fun m => ?_⟩
  rw [h, Except.error.injEq]

/-- What was loaded, or a SELECT that has failed. -/
def Queried (Q : α → σ → Prop) : Except Refusal α → σ → Prop
  | .ok a, t => Q a t
  | .error e, _ => ∃ f, e = .query f ∧ f ≠ .unwrappedNone

theorem ensures_queried {Q : α → σ → Prop} (hQ : ∀ a t u, Q a t → t ≤ u → Q a u) {q : SiteQuery α}
    (hq : Ensures (site dbs) q k (Loads Q)) : Ensures (site dbs) (serve q) k (Queried Q) := by
  refine hq.bind fun r t hr => .done fun u hu => ?_
  cases r with
  | ok a => exact hQ a t u hr hu
  | error e => exact ⟨e, rfl, hr⟩

/-- A query of a handler that has read the page. -/
theorem ensures_answers {Q : UInt32 → β → Prop} {n : UInt32} (hn : pageOf query = .ok n)
    {q : SiteQuery α} {R : α → Prop} (hq : Ensures (site dbs) q k (Loads (fun a _ => R a)))
    {f : α → SiteHandler β}
    (hf : ∀ a i, R a → Ensures (site dbs) (f a) i (fun r _ => Answers query Q r)) :
    Ensures (site dbs) ((serve q).andThen f) k (fun r _ => Answers query Q r) := by
  have hserve := ensures_queried (Q := fun a _ => R a) (fun _ _ _ h _ => h) hq
  refine hserve.andThen (fun a i ha => hf a i ha) (fun e _ _ h _ => ?_)
  obtain ⟨f, rfl, hne⟩ := h
  exact answers_query hn hne

theorem ensures_paged {q : UInt32 → SiteQuery (List α × UInt32)} {R : List α → Prop}
    (hq : ∀ n k, Ensures (site dbs) (q n) k (Loads (fun a _ => R a.1))) (query : Params) (k : σ) :
    Ensures (site dbs) (paged q query) k (fun r _ =>
      Answers query (fun n page => page.currentPage = n ∧ R page.entries) r) := by
  unfold paged
  cases hn : pageOf query with
  | error e => exact .done fun _ _ => answers_invalid hn
  | ok n => exact ensures_answers hn (hq n k) fun a i ha => .done fun _ _ => ⟨n, hn, rfl, ha⟩

theorem ensures_page {q : UInt32 → SiteQuery (List α × UInt32)}
    {Q : UInt32 → σ → List α × UInt32 → σ → Prop}
    (hq : ∀ n k, Ensures (site dbs) (q n) k (Loads (Q n k))) (query : Params) (k : σ) :
    Ensures (site dbs) (paged q query) k (fun r _ =>
      Answers query (fun n page => page.currentPage = n) r) :=
  (ensures_paged (R := fun _ => True) (fun n k => ensures_loads (hq n k)) query k).mono
    (fun _ _ h => h.mono (fun _ _ h => h.1))

/-- A handler that goes on after the listing. -/
theorem ensures_continued {Q : UInt32 → α → Prop} {Q' : UInt32 → β → Prop} {p : SiteHandler α}
    {f : α → SiteHandler β} (hp : Ensures (site dbs) p k (fun r _ => Answers query Q r))
    (hf : ∀ n a i, pageOf query = .ok n → Q n a →
      Ensures (site dbs) (f a) i (fun r _ => Answers query Q' r)) :
    Ensures (site dbs) (p.andThen f) k (fun r _ => Answers query Q' r) :=
  hp.andThen (fun a i ⟨n, hn, ha⟩ => hf n a i hn ha) (fun _ _ _ h _ => h)

theorem ensures_blockListing (pool : String) (n : UInt32) (k : σ) :
    Ensures (site dbs) (blockListing pool n) k
      (Loads (CutsBlocks dbs (fun db => rowsOf db pool) n k)) := by
  unfold blockListing rowsOf
  split_ifs
  · exact ensures_left (cutsPage_blocksByPool dbs pool n k)
  · exact ensures_left (cutsPage_blocks dbs n k)

theorem ensures_templatesAndBlocks (query : Params) (k : σ) :
    Ensures (site dbs) (templatesAndBlocks query) k (fun r _ =>
      Answers query (fun n page => page.currentPage = n) r) := by
  refine ensures_continued (ensures_page (ensures_blockListing _) query k)
    fun n listing i hn h => ?_
  exact ensures_answers hn (ensures_loads (ensures_right_site (ensures_reported
    (s := .pools) (fun _ _ => rfl) i))) fun pools j _ => .done fun _ _ => ⟨n, hn, h⟩

theorem ensures_missingTransactions (hr : Reliable dbs) (query : Params) (k : σ) :
    Ensures (site dbs) (missingTransactions query) k (fun r _ => Answers query
      (fun n page => page.currentPage = n ∧ ∀ m ∈ page.entries, m.blocks ≠ []) r) :=
  ensures_paged (R := fun (entries : List MissingTransaction) => ∀ m ∈ entries, m.blocks ≠ [])
    (fun n k => ensures_left (F := reporting dbs) (hr.missingTransactions (k := k) n)) query k

end Safety

section Walks

variable {Q : UInt32 → σ → List α × UInt32 → σ → Prop} {address : UInt32 → Params}

/-- Addresses for the pages of a listing. The first one may leave the number out. -/
def Numbered (address : UInt32 → Params) : Prop := ∀ n, (address n).get? QUERY_PAGE =
  some n.toNat.repr ∨ n = 0 ∧ (address n).get? QUERY_PAGE = none

theorem pageOf_address (h : Numbered address) (n : UInt32) : pageOf (address n) = .ok n := by
  unfold pageOf
  obtain hn | ⟨rfl, hn⟩ := h n
  · rw [hn]
    dsimp only
    rw [parseUint_repr n.toNat_lt, UInt32.ofNat_toNat]
  · rw [hn]

/-- What a visitor sees of a listing, and how many pages are announced. -/
def browse (handler : Params → SiteHandler β) (view : β → Page α) (address : UInt32 → Params)
    (n : UInt32) : Prog siteSignature (Except Refusal (List α × UInt32)) :=
  (handler (address n)).andThen (fun b => .done (.ok ((view b).entries, (view b).maxPages)))

/-- A page that is asked for by its number is the page of the query with that number. -/
theorem onOk_paged (hQ : ∀ n k a t u, Q n k a t → t ≤ u → Q n k a u)
    {q : UInt32 → SiteQuery (List α × UInt32)} {n : UInt32}
    (hq : Ensures (site dbs) (q n) k (OnOk (Q n k))) (hn : pageOf query = .ok n) :
    Ensures (site dbs) (paged q query) k
      (OnOk (fun page t => Q n k (page.entries, page.maxPages) t)) := by
  have hserve : Ensures (site dbs) (serve (q n)) k (OnOk (Q n k)) := by
    refine hq.bind fun r t hr => .done fun u hu => ?_
    cases r with
    | ok a => exact hQ n k a t u hr hu
    | error e => trivial
  unfold paged
  rw [hn]
  exact hserve.andThen_onOk fun a t ha => .done fun u hu => hQ n k a t u ha hu

theorem onOk_browse (hQ : ∀ n k a t u, Q n k a t → t ≤ u → Q n k a u)
    {handler : Params → SiteHandler β} {view : β → Page α} {n : UInt32}
    (hh : Ensures (site dbs) (handler (address n)) k
      (OnOk (fun b t => Q n k ((view b).entries, (view b).maxPages) t))) :
    Ensures (site dbs) (browse handler view address n) k (OnOk (Q n k)) :=
  hh.andThen_onOk fun _ t hb => .done fun u hu => hQ n k _ t u hb hu

theorem drift_site {i j : σ} (h : (site dbs).drift i j) : i ≤ j := h

section Blocks

variable {pool : String}

/-- The names of the pools of one moment. -/
def NamesPools (dbs : σ → Database) (k : σ) (pools : List String) (t : σ) : Prop :=
  ∃ i, k ≤ i ∧ i ≤ t ∧ ∀ pool, pool ∈ pools ↔ ∃ b ∈ (dbs i).block.rows, b.poolName = pool

theorem ensures_pools (k : σ) :
    Ensures (site dbs) (serve (right Reports.pools)) k (Queried (NamesPools dbs k)) := by
  refine ensures_queried (fun _ t u ⟨i, hki, hit, h⟩ htu => ⟨i, hki, hit.trans htu, h⟩)
    (ensures_right_site ?_)
  refine (ensures_reported (s := .pools) (fun _ _ => rfl) k).mono (fun r t h => ?_)
  cases r with
  | error e => exact h
  | ok pools =>
    obtain ⟨i, rs, hki, hit, rfl⟩ := h
    refine ⟨i, hki, hit, fun pool => ?_⟩
    rw [rs.mem_order, List.mem_dedup, List.mem_map]

theorem cutsBlocks_later {rowsOf : Database → List SharedModel.Block} (n : UInt32) (k : σ)
    (answer : List SharedModel.Block × UInt32) (t u : σ)
    (h : CutsBlocks dbs rowsOf n k answer t) (htu : t ≤ u) : CutsBlocks dbs rowsOf n k answer u :=
  CutsPage.later h htu

/-- The blocks of the page asked for, and the pools of a later moment. -/
theorem onOk_templatesAndBlocks {n : UInt32} (hn : pageOf query = .ok n) (k : σ) :
    Ensures (site dbs) (templatesAndBlocks query) k (OnOk (fun page t =>
      CutsBlocks dbs (fun db => rowsOf db (miningPool query)) n k (page.entries, page.maxPages) t ∧
        NamesPools dbs k page.pools t)) := by
  have hlisting : Ensures (site dbs) (paged (blockListing (miningPool query)) query) k
      (OnOk (fun page t => CutsBlocks dbs (fun db => rowsOf db (miningPool query)) n k
        (page.entries, page.maxPages) t)) :=
    onOk_paged cutsBlocks_later (ensures_onOk (ensures_blockListing (miningPool query) n k)) hn
  refine hlisting.andThen_onOk fun listing t hcut => ?_
  refine (ensures_pools t).andThen (fun pools u h => .done fun v huv => ?_)
    (fun _ _ _ _ _ => trivial)
  obtain ⟨i, hti, hiu, hnames⟩ := h
  have hkt : k ≤ t := by
    obtain ⟨a, b, -, hka, hab, hbt, -⟩ := hcut
    exact hka.trans (hab.trans hbt)
  exact ⟨cutsBlocks_later n k _ t v hcut (hti.trans (hiu.trans huv)),
    i, hkt.trans hti, hiu.trans huv, hnames⟩

theorem onOk_blocks (hpool : ∀ n, miningPool (address n) = pool) (h : Numbered address)
    (n : UInt32) (k : σ) :
    Ensures (site dbs) (browse templatesAndBlocks BlocksPage.toPage address n) k
      (OnOk (CutsBlocks dbs (fun db => rowsOf db pool) n k)) := by
  refine onOk_browse cutsBlocks_later ?_
  refine (onOk_templatesAndBlocks (pageOf_address h n) k).mono (fun r t hr => ?_)
  cases r with
  | ok page => exact hpool n ▸ hr.1
  | error e => trivial

theorem rowsOf_sublist (db : Database) (pool : String) :
    (rowsOf db pool).Sublist db.block.rows := by
  unfold rowsOf
  split_ifs
  · exact List.filter_sublist
  · exact List.Sublist.refl _

variable {lib : Crates}

/-- The blocks of a pool that has a name stay its blocks. -/
theorem stamps_rowsOf (ρ : DutyRun lib) (hpool : pool ≠ "Unknown") (i j : Fin (ρ.length + 1))
    (hij : i ≤ j) :
    (rowsOf (databases ρ i) pool).map stamp ⊆ (rowsOf (databases ρ j) pool).map stamp := by
  unfold rowsOf
  split_ifs
  · exact stamps_poolRows ρ hpool i j hij
  · exact (historic_of_run ρ (fun _ h => h)).stamps_blocks i j hij

/-- Someone who pages through the blocks, or through those of a pool, while the daemon works sees
all of those that there were, save for equal times. -/
theorem blocks_shown (ρ : DutyRun lib) (hlt : ρ.last.world.db.block.rows.length < 2 ^ 24)
    (h : Numbered address) (hpool : ∀ n, miningPool (address n) = pool) (hname : pool ≠ "Unknown") :
    MissesNone (site (databases ρ)) (databases ρ)
      (browse templatesAndBlocks BlocksPage.toPage address) (fun db => rowsOf db pool) :=
  missesNone_of_cutsPage (fun _ _ => drift_site) (onOk_blocks hpool h)
    (stamps_rowsOf ρ hname) (fun _ => rowsOf_sublist _ pool)
    (fun i => (length_blocks_le ρ i).trans_lt hlt)

/-- The menu of a page has every pool that has a name and had a block, and each entry of it leads to
blocks, from then on. -/
structure MenuOpens (dbs : σ → Database) : Prop where
  complete : ∀ query i tr page j, Exec (site dbs) (templatesAndBlocks query) i tr (.ok page) j →
    ∀ b ∈ (dbs i).block.rows, b.poolName ≠ "Unknown" → b.poolName ∈ page.pools
  opens : ∀ query i tr page j, Exec (site dbs) (templatesAndBlocks query) i tr (.ok page) j →
    ∀ pool ∈ page.pools, pool ≠ "Unknown" → ∀ query', miningPool query' = pool →
      pageOf query' = .ok 0 → ∀ k tr' page' l, j ≤ k →
        Exec (site dbs) (templatesAndBlocks query') k tr' (.ok page') l → page'.entries ≠ []

/-- A page is only shown for a number. -/
theorem exists_pageOf {i j : σ} {tr : List (Event siteSignature σ)} {page : BlocksPage}
    (hx : Exec (site dbs) (templatesAndBlocks query) i tr (.ok page) j) :
    ∃ n, pageOf query = .ok n := by
  obtain ⟨n, hn, -⟩ := ensures_templatesAndBlocks query i tr _ j hx
  exact ⟨n, hn⟩

theorem menu_opens (ρ : DutyRun lib) : MenuOpens (databases ρ) := by
  refine ⟨fun query i tr page j hx b hb hname => ?_, ?_⟩
  · obtain ⟨n, hn⟩ := exists_pageOf hx
    obtain ⟨-, m, him, -, hnames⟩ := onOk_templatesAndBlocks hn i tr _ j hx
    obtain hb' | ⟨hunknown, -⟩ := namedOnce_of_run ρ him (Nat.le_of_lt_succ m.2) b hb
    · exact (hnames _).mpr ⟨b, hb', rfl⟩
    · exact absurd hunknown hname
  · intro query i tr shown j hx pool hpool hname query' hquery' hzero k tr' shown' l hjk hx'
    obtain ⟨n, hn⟩ := exists_pageOf hx
    obtain ⟨-, m, -, hmj, hnames⟩ := onOk_templatesAndBlocks hn i tr _ j hx
    obtain ⟨b, hb, rfl⟩ := (hnames _).mp hpool
    obtain ⟨⟨a, -, s, hka, -, -, hs, hperm, -⟩, -⟩ := onOk_templatesAndBlocks hzero k tr' _ l hx'
    have hstamp : stamp b ∈ (rowsOf (databases ρ m) b.poolName).map stamp := by
      refine List.mem_map_of_mem ?_
      unfold rowsOf
      split_ifs
      · exact List.mem_filter.mpr ⟨hb, decide_eq_true rfl⟩
      · exact hb
    have hlater : stamp b ∈ s := hs.perm.mem_iff.mpr
      (hquery' ▸ stamps_rowsOf ρ hname m a (hmj.trans (hjk.trans hka)) hstamp)
    intro hnil
    rw [hnil] at hperm
    have hfirst : page MAX_BLOCKS_PER_PAGE 0 s = [] := hperm.nil_eq.symm
    rw [page, Nat.mul_zero, List.drop_zero, List.take_eq_nil_iff] at hfirst
    obtain hfirst | rfl := hfirst
    · cases hfirst
    · cases hlater

/-- A row without a name has been there ever since its block was recorded. -/
theorem mem_rows_of_unknown (ρ : DutyRun lib) {i j : Fin (ρ.length + 1)} (hij : i ≤ j)
    {b : SharedModel.Block} (hb : b ∈ (databases ρ j).block.rows) (hname : b.poolName = "Unknown")
    (hid : b.id ∈ (databases ρ i).blockIds) : b ∈ (databases ρ i).block.rows := by
  obtain ⟨row, hrow, hid⟩ := List.mem_map.mp hid
  have hj : j ≤ ρ.length := Nat.le_of_lt_succ j.2
  have hdistinct := (pending_of_run ρ j hj).distinct
  obtain hrow' | ⟨hunknown, poolName, hrow'⟩ := namedOnce_of_run ρ hij hj row hrow
  · rwa [List.inj_on_of_nodup_map hdistinct hb hrow' hid.symm]
  · have hb' := List.inj_on_of_nodup_map hdistinct hb hrow' hid.symm
    have hpool : poolName = row.poolName := by
      rw [hunknown, ← hname, hb']
    rwa [hb', hpool]

/-- The page of the blocks whose pool is not known has those of one moment. A block that was on
record and was not shown is not shown later. -/
structure UnknownShrinks (dbs : σ → Database) : Prop where
  shown : ∀ i tr blocks j,
    Exec (site dbs) (debugUnknownPoolBlocks true) i tr (.ok (some blocks)) j →
      ∃ k, i ≤ k ∧ k ≤ j ∧
        blocks.Perm ((dbs k).block.rows.filter (fun b => b.poolName = "Unknown"))
  settled : ∀ i tr blocks j,
    Exec (site dbs) (debugUnknownPoolBlocks true) i tr (.ok (some blocks)) j →
      ∀ i' tr' blocks' j', j ≤ i' →
        Exec (site dbs) (debugUnknownPoolBlocks true) i' tr' (.ok (some blocks')) j' →
          ∀ b ∈ blocks', b.id ∈ (dbs i).blockIds → b ∈ blocks

theorem exec_debugUnknownPoolBlocks {i j : σ} {tr : List (Event siteSignature σ)}
    {blocks : List SharedModel.Block}
    (h : Exec (site dbs) (debugUnknownPoolBlocks true) i tr (.ok (some blocks)) j) :
    ∃ k, i ≤ k ∧ k ≤ j ∧
      blocks.Perm ((dbs k).block.rows.filter (fun b => b.poolName = "Unknown")) := by
  obtain ⟨tr', rest, blocks', u, -, hserve, h⟩ := Exec.andThen_ok_iff.mp h
  obtain ⟨-, hblocks, hu⟩ := Exec.done_iff.mp h
  cases hblocks
  obtain ⟨tr'', v, hx, hv⟩ := exec_serve hserve
  obtain ⟨k, rs, hik, hkv, rfl⟩ := ensures_right_site (ensures_reported (s := .unknownPoolBlocks)
    (fun _ _ => rfl) i) tr'' _ v hx
  exact ⟨k, hik, hkv.trans (hv.trans hu), perm_orderDesc.trans (rs.perm _)⟩

theorem unknown_shrinks (ρ : DutyRun lib) : UnknownShrinks (databases ρ) where
  shown _ _ _ _ hx := exec_debugUnknownPoolBlocks hx
  settled i tr blocks j hx i' tr' blocks' j' hj hx' b hb hid := by
    obtain ⟨k, hik, hkj, hperm⟩ := exec_debugUnknownPoolBlocks hx
    obtain ⟨k', hik', -, hperm'⟩ := exec_debugUnknownPoolBlocks hx'
    obtain ⟨hb, hname⟩ := List.mem_filter.mp (hperm'.mem_iff.mp hb)
    have hrow : b ∈ (databases ρ k).block.rows := by
      refine mem_rows_of_unknown ρ (hkj.trans (hj.trans hik')) hb (of_decide_eq_true hname) ?_
      obtain ⟨row, hrow, hid⟩ := List.mem_map.mp hid
      obtain ⟨poolName, hrow⟩ :=
        (archived_of_run Drift.keepsDb_reorganises ρ hik (Nat.le_of_lt_succ k.2)).blocks row hrow
      exact List.mem_map.mpr ⟨_, hrow, hid⟩
    exact hperm.mem_iff.mpr (List.mem_filter.mpr ⟨hrow, hname⟩)

end Blocks

section Others

variable {lib : Crates} {allowed : Thread → Job → World lib → Prop} {P : World lib → Prop}

theorem conflicts_shown (ρ : ThreadRun lib .reorganises allowed (fun w => Keys w.db))
    (hlt : ρ.last.world.db.block.rows.length < 2 ^ 24) (h : Numbered address) :
    MissesNoConflict (site (databases ρ)) (databases ρ)
      (browse conflictingTransactions id address) := by
  have hhist := historic_of_run ρ (fun _ h => h.blockIds)
  have hkeys : ∀ i, Keys (databases ρ i) :=
    fun i => keys_of_run ρ (fun _ h => h) i (Nat.le_of_lt_succ i.2)
  have hlater : ∀ n k answer t u, CutsConflicts (databases ρ) n k answer t → t ≤ u →
      CutsConflicts (databases ρ) n k answer u := fun _ _ _ _ _ => CutsPage.later
  refine hhist.missesNoConflict (fun _ _ => drift_site) (fun n k => ?_) hkeys
    (fun i => (length_blocks_le ρ i).trans_lt hlt)
  exact onOk_browse hlater (onOk_paged hlater
    (ensures_left (hhist.cutsPage_conflicts hkeys n k)) (pageOf_address h n))

/-- A page for maintainers, without entries where these are not enabled. -/
def debugView (page : Option (Page α)) : Page α := page.getD ⟨[], 0, 0⟩

theorem onOk_debugPage (hQ : ∀ n k a t u, Q n k a t → t ≤ u → Q n k a u) {n : UInt32}
    {p : SiteHandler (Page α)}
    (hp : Ensures (site dbs) p k (OnOk (fun page t => Q n k (page.entries, page.maxPages) t))) :
    Ensures (site dbs) (debugPage true p) k
      (OnOk (fun b t => Q n k ((debugView b).entries, (debugView b).maxPages) t)) :=
  hp.andThen_onOk fun _ t ha => .done fun u hu => hQ n k _ t u ha hu

/-- The records and the scans that the pages for maintainers go through. -/
structure MissesNoRecord (dbs : σ → Database) (address : UInt32 → Params) : Prop where
  debug : MissesNoDebug (site dbs) dbs (browse (debugTemplateSelectionInfos true) debugView address)
  scans : MissesNoScan (site dbs) dbs (browse (debugUtxosetScans true) debugView address)

theorem records_shown (ρ : ThreadRun lib .reorganises allowed (fun w => Keys w.db))
    (hlt : ρ.last.world.db.block.rows.length < 2 ^ 24)
    (hscans : ρ.last.world.db.sanctionedUtxoScanInfo.rows.length < 2 ^ 24) (h : Numbered address) :
    MissesNoRecord (databases ρ) address := by
  have hhist := historic_of_run ρ (fun _ h => h.blockIds)
  have hkeys : ∀ i, Keys (databases ρ i) :=
    fun i => keys_of_run ρ (fun _ h => h) i (Nat.le_of_lt_succ i.2)
  have hdebug : ∀ n k answer t u, CutsDebug (databases ρ) n k answer t → t ≤ u →
      CutsDebug (databases ρ) n k answer u := fun _ _ _ _ _ h htu => ⟨h.1.later htu, h.2⟩
  have hcuts : ∀ n k answer t u, CutsScans (databases ρ) n k answer t → t ≤ u →
      CutsScans (databases ρ) n k answer u := fun _ _ _ _ _ => CutsPage.later
  constructor
  · refine missesNoDebug_of_cutsDebug hhist (fun _ _ => drift_site) (fun n k => ?_) hkeys
      (fun i => (length_blocks_le ρ i).trans_lt hlt)
    exact onOk_browse hdebug (onOk_debugPage hdebug (onOk_paged hdebug
      (ensures_onOk (ensures_right_site (ensures_debugPage hhist hkeys n k)))
      (pageOf_address h n)))
  · refine missesNoScan_of_cutsScans hhist (fun _ _ => drift_site) (fun n k => ?_)
      (fun i => (length_scanInfos_le ρ i).trans_lt hscans)
    exact onOk_browse hcuts (onOk_debugPage hcuts (onOk_paged hcuts
      (ensures_onOk (ensures_right_site (cutsPage_scans (databases ρ) n k)))
      (pageOf_address h n)))

end Others

end Walks

section Runs

variable {lib : Crates}

/-- Whatever the handler reads while the threads of the daemon write. -/
def Gives (ρ : ServedRun lib) (p : SiteHandler α) (Q : Except Refusal α → Prop) : Prop :=
  ∀ i tr r j, Exec (site (databases ρ)) p i tr r j → Q r

end Runs

section Samples

/-- A site that reads one database without failures. -/
def respondSite (db : Database) (rs : RandomState) (u : Unit) :
    (c : siteSignature.Call) → siteSignature.Reply c × Unit
  | .inl s => (s.exec db rs, u)
  | .inr s => (s.exec db rs, u)

def evaluateSite (db : Database) (rs : RandomState) (p : Prog siteSignature α) : α :=
  (p.runWith (respondSite db rs) ()).2.1

theorem exec_evaluateSite (dbs : σ → Database) (i : σ) (rs : RandomState)
    (p : Prog siteSignature α) : ∃ tr, Exec (site dbs) p i tr (evaluateSite (dbs i) rs p) i := by
  induction p with
  | done a => exact ⟨[], Exec.done_iff.mpr ⟨rfl, rfl, le_refl i⟩⟩
  | call c k ih =>
    cases c with
    | inl s =>
      obtain ⟨tr, h⟩ := ih (s.exec (dbs i) rs)
      exact ⟨_, Exec.call_iff.mpr ⟨i, _, i, tr, rfl, le_refl i, ⟨rfl, .inr ⟨rs, rfl⟩⟩, h⟩⟩
    | inr s =>
      obtain ⟨tr, h⟩ := ih (s.exec (dbs i) rs)
      exact ⟨_, Exec.call_iff.mpr ⟨i, _, i, tr, rfl, le_refl i, ⟨rfl, .inr ⟨rs, rfl⟩⟩, h⟩⟩

/-- The address of a page, with nothing but its number. -/
def pageAddress (n : UInt32) : Params := HashMap.empty.insert QUERY_PAGE n.toNat.repr

theorem numbered_pageAddress : Numbered pageAddress := by
  intro n
  left
  rw [pageAddress, HashMap.get?_insert, if_pos rfl]

theorem miningPool_pageAddress (n : UInt32) : miningPool (pageAddress n) = "" := by
  rw [miningPool, pageAddress, HashMap.get?_insert, if_neg (by decide)]
  rfl

/-- A single page that is read from the database of one moment. -/
theorem exists_walk {q : UInt32 → Prog siteSignature (Except Refusal (List α × UInt32))} {t : σ}
    {db : Database} (ht : dbs t = db)
    (h : (evaluateSite db .inserted (q 0)).map Prod.snd = .ok 1) :
    ∃ walk : Walk (site dbs) q, walk.begun 0 = t ∧ walk.ended walk.last = t := by
  subst ht
  obtain ⟨tr, hx⟩ := exec_evaluateSite dbs t .inserted (q 0)
  cases he : evaluateSite (dbs t) .inserted (q 0) with
  | error e =>
    rw [he] at h
    cases h
  | ok answer =>
    obtain ⟨entries, pages⟩ := answer
    rw [he] at h hx
    cases h
    exact Walk.exists_still hx (by decide)

/-- One block has been stored, and its page is read. -/
theorem blocks_shown_overlap : ∃ (ρ : DutyRun decoding) (walk : Walk (site (databases ρ))
      (browse templatesAndBlocks BlocksPage.toPage pageAddress)),
    walk.Shows (fun b => b.hash) (hashOf decoding overlapBlock).reversed ∧
      MissesNone (site (databases ρ)) (databases ρ)
        (browse templatesAndBlocks BlocksPage.toPage pageAddress) (fun db => rowsOf db "") := by
  obtain ⟨ρ, hρ⟩ : ∃ ρ : DutyRun decoding, ρ.last.world.db = overlapDb .healthy :=
    exists_overlap (by decide) trivial .healthy
  have hlast : databases ρ (Fin.last ρ.length) = overlapDb .healthy := hρ
  have hrows : (overlapDb .healthy).block.rows.map (fun b => b.hash) =
      [(hashOf decoding overlapBlock).reversed] := by decide +kernel
  obtain ⟨block, hblock, hhash⟩ := List.map_eq_singleton_iff.mp hrows
  have hshown := blocks_shown ρ (by rw [hρ, hblock, List.length_singleton]; decide)
    numbered_pageAddress miningPool_pageAddress (by decide)
  have hpages : (evaluateSite (overlapDb .healthy) .inserted
      (browse templatesAndBlocks BlocksPage.toPage pageAddress 0)).map Prod.snd = .ok 1 := by
    decide +kernel
  obtain ⟨walk, hbegun, hended⟩ := exists_walk hlast hpages
  refine ⟨ρ, walk, hhash ▸ hshown walk block ?_ (fun other hother _ => ?_), hshown⟩
  · simp only [hbegun, hlast, rowsOf, hblock]
    exact List.mem_cons_self
  · simp only [hended, hlast, rowsOf, hblock] at hother
    rw [List.mem_singleton.mp hother]

/-- The block has conflicts. -/
theorem conflicts_shown_overlap : ∃ (ρ : ThreadRun decoding .reorganises (fun _ _ _ => True)
      (fun w => Keys w.db)) (walk : Walk (site (databases ρ))
      (browse conflictingTransactions id pageAddress)),
    walk.Shows (fun e => e.block.id) 7 ∧ MissesNoConflict (site (databases ρ)) (databases ρ)
      (browse conflictingTransactions id pageAddress) := by
  obtain ⟨ρ, hρ⟩ : ∃ ρ : ThreadRun decoding .reorganises (fun _ _ _ => True)
      (fun w => Keys w.db), ρ.last.world.db = overlapDb .healthy :=
    exists_overlap keys_overlapWorld trivial .healthy
  have hlast : databases ρ (Fin.last ρ.length) = overlapDb .healthy := hρ
  have hids : (overlapDb .healthy).block.rows.map (fun b => b.id) = [7] := by decide +kernel
  have hrows : (overlapDb .healthy).conflictingTransactions.rows.map (fun row => row.blockId) =
      [7] := by decide +kernel
  obtain ⟨block, hblock, hid⟩ := List.map_eq_singleton_iff.mp hids
  obtain ⟨row, hrow, hrowId⟩ := List.map_eq_singleton_iff.mp hrows
  have hshown := conflicts_shown ρ (by rw [hρ, hblock, List.length_singleton]; decide)
    numbered_pageAddress
  have hpages : (evaluateSite (overlapDb .healthy) .inserted
      (browse conflictingTransactions id pageAddress 0)).map Prod.snd = .ok 1 := by
    decide +kernel
  obtain ⟨walk, hbegun, hended⟩ := exists_walk hlast hpages
  refine ⟨ρ, walk, hid ▸ hshown walk block ?_ (fun other hother _ => ?_), hshown⟩
  · rw [hbegun, hlast]
    exact ⟨hblock ▸ List.mem_cons_self, row, hrow ▸ List.mem_cons_self, hrowId.trans hid.symm⟩
  · rw [hended, hlast, HasConflicts, hblock] at hother
    rw [List.mem_singleton.mp hother.1]

/-- The template that the block was compared with has a debug record. -/
theorem records_shown_overlap : ∃ (ρ : ThreadRun decoding .reorganises (fun _ _ _ => True)
      (fun w => Keys w.db)) (walk : Walk (site (databases ρ))
      (browse (debugTemplateSelectionInfos true) debugView pageAddress)),
    (∃ n ≤ walk.last, ∃ e ∈ walk.entries n, e.block.id = 7 ∧ e.infos ≠ []) ∧
      MissesNoRecord (databases ρ) pageAddress := by
  obtain ⟨ρ, hρ⟩ : ∃ ρ : ThreadRun decoding .reorganises (fun _ _ _ => True)
      (fun w => Keys w.db), ρ.last.world.db = overlapDb .healthy :=
    exists_overlap keys_overlapWorld trivial .healthy
  have hlast : databases ρ (Fin.last ρ.length) = overlapDb .healthy := hρ
  have hlen : (overlapDb .healthy).block.rows.length < 2 ^ 24 := by decide +kernel
  have hscans : (overlapDb .healthy).sanctionedUtxoScanInfo.rows.length < 2 ^ 24 := by
    decide +kernel
  have hrows : (overlapDb .healthy).debugTemplateSelection.rows.map (fun info => info.blockId) =
      [7] := by decide +kernel
  obtain ⟨info, hinfo, hid⟩ := List.map_eq_singleton_iff.mp hrows
  have hshown := records_shown ρ (by rw [hρ]; exact hlen) (by rw [hρ]; exact hscans)
    numbered_pageAddress
  have hpages : (evaluateSite (overlapDb .healthy) .inserted
      (browse (debugTemplateSelectionInfos true) debugView pageAddress 0)).map Prod.snd =
      .ok 1 := by decide +kernel
  obtain ⟨walk, hbegun, -⟩ := exists_walk hlast hpages
  obtain ⟨n, hn, e, he, hblock, hmem⟩ := hshown.debug walk info (by
    rw [hbegun, hlast, hinfo]
    exact List.mem_cons_self)
  exact ⟨ρ, walk, ⟨n, hn, e, he, hblock.trans hid, List.ne_nil_of_mem hmem⟩, hshown⟩

end Samples

end MiningpoolObserver.ListingHandlers
