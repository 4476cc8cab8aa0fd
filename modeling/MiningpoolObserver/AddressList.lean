import MiningpoolObserver.SanctionedOutputs
import MiningpoolObserver.Simulation
import MiningpoolObserver.Threads

namespace MiningpoolObserver.AddressList

open MiningpoolObserver.Library.CallTree MiningpoolObserver.Library.KeyedTable
open MiningpoolObserver.Library.HashCollections
open MiningpoolObserver.Bitcoin MiningpoolObserver.SharedModel MiningpoolObserver.Db
open MiningpoolObserver.Daemon MiningpoolObserver.Simulation
open MiningpoolObserver.Processing.Sanctions MiningpoolObserver.SanctionedOutputs

inductive UpdateSanctionedAddressesError where
  | database (e : DbError)
  | minReq (e : String)
  | dbPool (e : String)
  | http (e : String)
deriving DecidableEq

variable (lib : Crates)

/-- The lines of a body that parse as addresses. -/
def accepted (lines : List String) : List SanctionedAddress :=
  (lines.map (fun a => ⟨a⟩)).filter
    (fun (a : SanctionedAddress) => (lib.parseAddress a.address).isSome)

def updateSanctionedAddresses (sanctionedAddressesUrl : String) :
    Prog signature (Except UpdateSanctionedAddressesError Unit) :=
  .call .httpGet (fun r => match (r : Except String HttpResponse) with
    | .error e => .done (.error (.minReq e))
    | .ok response =>
      if response.statusCode ≥ 400 then
        .done (.error (.http (s!"{sanctionedAddressesUrl} returned: {response.statusCode} " ++
          response.reasonPhrase)))
      else match response.lines with
        | none => .done (.error (.minReq "Response body contained invalid UTF-8"))
        | some lines => .call .poolGet (fun r => match (r : Except String Unit) with
          | .error e => .done (.error (.dbPool e))
          | .ok () => .call (.sql (.replaceSanctionedAddresses (accepted lib lines)))
              (fun r => match (r : Except DbError Unit) with
                | .error e => .done (.error (.database e))
                | .ok () => .done (.ok ()))))

/-- The thread goes on after an update, whatever came of it. -/
theorem updateSanctionedAddresses_ignored (url : String) :
    (updateSanctionedAddresses lib url).bind (fun _ => .done (.ok ())) =
      Threads.updateSanctionedAddresses lib := by
  unfold updateSanctionedAddresses Threads.updateSanctionedAddresses
  simp only [Prog.bind_call]
  congr 1
  funext r
  cases r with
  | error e => rfl
  | ok response =>
    dsimp only
    split_ifs
    · rfl
    · cases response.lines with
      | none => rfl
      | some lines =>
        simp only [Prog.bind_call]
        congr 1
        funext r
        cases r with
        | error e => rfl
        | ok u =>
          simp only [Prog.bind_call]
          congr 1
          funext r
          cases r <;> rfl

variable {lib} {D : Drift lib} {url : String} {lines : List String} {w w' : World lib}
variable {tr : List (Event signature (World lib))} {r : Except UpdateSanctionedAddressesError Unit}

/-- The list is downloaded, with these lines. -/
def Downloads (lines : List String) (tr : List (Event signature (World lib))) : Prop :=
  ∃ v response, ⟨v, Call.httpGet, Except.ok response⟩ ∈ tr ∧ response.statusCode < 400 ∧
    response.lines = some lines

/-- Connections are there, and a statement fails only when the database rejects it. -/
def Available (tr : List (Event signature (World lib))) : Prop :=
  (∀ v e, ⟨v, Call.poolGet, Except.error e⟩ ∉ tr) ∧
    ∀ v s e, ⟨v, Call.sql s, Except.error e⟩ ∈ tr → ∃ blockId, s.exec blockId v.db = .error e

theorem replace_eq_ok_iff {addr : List SanctionedAddress} {db db' : Database} {blockId : Int64} :
    (Statement.replaceSanctionedAddresses addr).exec blockId db = .ok ((), db') ↔
      ∃ u, Table.empty.insert addr = some u ∧ db' = { db with sanctionedAddresses := u } := by
  simp [Statement.exec, Database.insertRows_eq_ok_iff]

theorem addresses_accepted :
    (accepted lib lines).map (fun a => a.address) =
      lines.filter (fun a => (lib.parseAddress a).isSome) := by
  rw [accepted, List.filter_map, List.map_map]
  exact List.map_id _

/-- The accepted lines can be stored when none of them is repeated. -/
theorem exists_insert_accepted_iff :
    (∃ u : Table SanctionedAddress String (fun a => a.address),
      Table.empty.insert (accepted lib lines) = some u) ↔
      (lines.filter (fun a => (lib.parseAddress a).isSome)).Nodup := by
  rw [Table.exists_insert_iff, addresses_accepted]
  rfl

/-- How an update ends: with an error and nothing changed, or with the accepted lines stored. -/
inductive Ends (w : World lib) (tr : List (Event signature (World lib))) :
    Except UpdateSanctionedAddressesError Unit → World lib → Prop
  | fails {e : UpdateSanctionedAddressesError} {w' : World lib} : w'.db = w.db →
      (∀ lines, Downloads lines tr → Available tr →
        ¬ (lines.filter (fun a => (lib.parseAddress a).isSome)).Nodup) → Ends w tr (.error e) w'
  | stores {lines : List String} {w' : World lib}
      {u : Table SanctionedAddress String (fun a => a.address)} :
      (∀ lines', Downloads lines' tr → lines' = lines) →
      Table.empty.insert (accepted lib lines) = some u →
      w'.db = { w.db with sanctionedAddresses := u } → Ends w tr (.ok ()) w'

theorem Available.mono {tr tr' : List (Event signature (World lib))} (h : Available tr')
    (hs : tr ⊆ tr') : Available tr :=
  ⟨fun v e he => h.1 v e (hs he), fun v s e he => h.2 v s e (hs he)⟩

variable (lib) in
/-- What is done with the lines of a body. -/
def storeLines (lines : List String) :
    Prog signature (Except UpdateSanctionedAddressesError Unit) :=
  .call .poolGet (fun r => match (r : Except String Unit) with
    | .error e => .done (.error (.dbPool e))
    | .ok () => .call (.sql (.replaceSanctionedAddresses (accepted lib lines)))
        (fun r => match (r : Except DbError Unit) with
          | .error e => .done (.error (.database e))
          | .ok () => .done (.ok ())))

/-- How the lines of a body are stored. -/
inductive Stores (w : World lib) (lines : List String) (tr : List (Event signature (World lib))) :
    Except UpdateSanctionedAddressesError Unit → World lib → Prop
  | fails {e : UpdateSanctionedAddressesError} {w' : World lib} : w'.db = w.db →
      (Available tr → ¬ (lines.filter (fun a => (lib.parseAddress a).isSome)).Nodup) →
      Stores w lines tr (.error e) w'
  | stores {w' : World lib} {u : Table SanctionedAddress String (fun a => a.address)} :
      Table.empty.insert (accepted lib lines) = some u →
      w'.db = { w.db with sanctionedAddresses := u } → Stores w lines tr (.ok ()) w'

theorem stores_of_exec (hD : D.KeepsDb)
    (h : Exec (environment D) (storeLines lib lines) w tr r w') : Stores w lines tr r w' := by
  obtain ⟨v, r₁, u, tr₁, rfl, hd, ha, h₁⟩ := Exec.call_iff.mp h
  obtain rfl : u = v := ha
  have hdb : u.db = w.db := (hD _ _ hd).symm
  cases r₁ with
  | error e =>
    obtain ⟨rfl, rfl, hd'⟩ := Exec.done_iff.mp h₁
    exact .fails ((hD _ _ hd').symm.trans hdb) (fun hav => absurd List.mem_cons_self (hav.1 u e))
  | ok _ =>
    obtain ⟨v', r₂, u', tr₂, rfl, hd', ha', h₂⟩ := Exec.call_iff.mp h₁
    have hdb' : v'.db = w.db := (hD _ _ hd').symm.trans hdb
    cases r₂ with
    | error e =>
      obtain ⟨rfl, rfl, hd''⟩ := Exec.done_iff.mp h₂
      obtain rfl : u' = v' := ha'
      refine .fails ((hD _ _ hd'').symm.trans hdb') (fun hav => ?_)
      obtain ⟨blockId, hexec⟩ := hav.2 u' _ e (List.mem_cons_of_mem _ List.mem_cons_self)
      rw [← exists_insert_accepted_iff]
      rintro ⟨t, ht⟩
      rw [replace_eq_ok_iff.mpr ⟨t, ht, rfl⟩] at hexec
      cases hexec
    | ok _ =>
      obtain ⟨rfl, rfl, hd''⟩ := Exec.done_iff.mp h₂
      obtain ⟨⟨blockId, _, hexec, -⟩, -⟩ := ha'
      obtain ⟨t, ht, hdb''⟩ := replace_eq_ok_iff.mp hexec
      refine .stores ht ?_
      rw [← hD _ _ hd'', hdb'', hdb']

theorem notMem_storeLines (h : Exec (environment D) (storeLines lib lines) w tr r w')
    (v : World lib) (response : Except String HttpResponse) :
    ⟨v, Call.httpGet, response⟩ ∉ tr := by
  have honly : Prog.Only (fun c => c ≠ Call.httpGet) (storeLines lib lines) := by
    refine ⟨Call.noConfusion, fun r => ?_⟩
    cases r with
    | error e => trivial
    | ok _ =>
      refine ⟨Call.noConfusion, fun r => ?_⟩
      cases r <;> trivial
  have hcalls : Extends (fun c => c ≠ Call.httpGet) [] tr := (honly.always (.refl [])).path h.path
  intro hmem
  obtain hmem | hne := hcalls.mem_or hmem
  · cases hmem
  · exact hne rfl

/-- The lines of the only download. -/
theorem lines_of_downloads {v : World lib} {a : Except String HttpResponse} {lines' : List String}
    (hn : ∀ v' (response : Except String HttpResponse), ⟨v', Call.httpGet, response⟩ ∉ tr)
    (h : Downloads lines' (⟨v, Call.httpGet, a⟩ :: tr)) :
    ∃ response, a = .ok response ∧ response.statusCode < 400 ∧ response.lines = some lines' := by
  obtain ⟨v', response, hmem, hstatus, hlines⟩ := h
  obtain he | hmem := List.mem_cons.mp hmem
  · cases he
    exact ⟨response, rfl, hstatus, hlines⟩
  · exact absurd hmem (hn _ _)

theorem ends_of_exec (hD : D.KeepsDb)
    (h : Exec (environment D) (updateSanctionedAddresses lib url) w tr r w') : Ends w tr r w' := by
  obtain ⟨v, r₁, u, tr₁, rfl, hd, ha, h₁⟩ := Exec.call_iff.mp h
  obtain rfl : u = v := ha
  have hdb : u.db = w.db := (hD _ _ hd).symm
  have hnone : ∀ v' (response : Except String HttpResponse),
      (⟨v', Call.httpGet, response⟩ : Event signature (World lib)) ∉ [] :=
    fun _ _ => List.not_mem_nil
  cases r₁ with
  | error e =>
    obtain ⟨rfl, rfl, hd'⟩ := Exec.done_iff.mp h₁
    refine .fails ((hD _ _ hd').symm.trans hdb) (fun lines hl => ?_)
    obtain ⟨response, he, -⟩ := lines_of_downloads hnone hl
    cases he
  | ok response =>
    dsimp only at h₁
    split_ifs at h₁ with hstatus
    · obtain ⟨rfl, rfl, hd'⟩ := Exec.done_iff.mp h₁
      refine .fails ((hD _ _ hd').symm.trans hdb) (fun lines hl => ?_)
      obtain ⟨response', he, hok, -⟩ := lines_of_downloads hnone hl
      cases he
      exact absurd hok (Int32.not_lt.mpr hstatus)
    · cases hlines : response.lines with
      | none =>
        rw [hlines] at h₁
        obtain ⟨rfl, rfl, hd'⟩ := Exec.done_iff.mp h₁
        refine .fails ((hD _ _ hd').symm.trans hdb) (fun lines hl => ?_)
        obtain ⟨response', he, -, hsome⟩ := lines_of_downloads hnone hl
        cases he
        rw [hlines] at hsome
        cases hsome
      | some lines =>
        rw [hlines] at h₁
        have hstores : Stores u lines tr₁ r w' := stores_of_exec hD h₁
        have hdown : ∀ lines', Downloads lines' (⟨u, Call.httpGet, Except.ok response⟩ :: tr₁) →
            lines' = lines := by
          intro lines' hl
          obtain ⟨response', he, -, hsome⟩ := lines_of_downloads (notMem_storeLines h₁) hl
          cases he
          rw [hlines] at hsome
          exact (Option.some.inj hsome).symm
        cases hstores with
        | fails hdb' hrep =>
          refine .fails (hdb'.trans hdb) (fun lines' hl hav => ?_)
          rw [hdown lines' hl]
          exact hrep (hav.mono (List.subset_cons_self _ _))
        | stores hu hdb' => exact .stores hdown hu (hdb'.trans (by rw [hdb]))

/-- After a successful update the table holds the accepted lines of the list. -/
theorem Ends.addresses (h : Ends w tr (.ok ()) w') (hl : Downloads lines tr) (a : String) :
    a ∈ w'.db.sanctionedAddresses.keys ↔ a ∈ lines ∧ (lib.parseAddress a).isSome = true := by
  cases h with
  | stores hlines hu hdb =>
    rw [hdb, hlines lines hl, Table.keys, Table.rows_of_insert hu, Table.empty, List.nil_append,
      addresses_accepted, List.mem_filter]

/-- What an update of the address list should come to. -/
def Replaced (lib : Crates) (lines : List String)
    (r : Except UpdateSanctionedAddressesError Unit) (db : Database) : Prop :=
  r = .ok () ∧
    ∀ a, a ∈ db.sanctionedAddresses.keys ↔ a ∈ lines ∧ (lib.parseAddress a).isSome = true

/-- An update that fails changes nothing, and one with the connection and the database at hand
succeeds exactly when no accepted line is repeated. -/
theorem replaced_iff (hD : D.KeepsDb)
    (h : Exec (environment D) (updateSanctionedAddresses lib url) w tr r w') :
    (r ≠ .ok () → w'.db.sanctionedAddresses = w.db.sanctionedAddresses) ∧
    ∀ lines, Downloads lines tr → Available tr → (Replaced lib lines r w'.db ↔
      (lines.filter (fun a => (lib.parseAddress a).isSome)).Nodup) := by
  have hends := ends_of_exec hD h
  cases hends with
  | fails hdb hrep =>
    refine ⟨fun _ => by rw [hdb], fun lines hl hav => ⟨fun hr => ?_, fun hn => ?_⟩⟩
    · cases hr.1
    · exact absurd hn (hrep lines hl hav)
  | stores hlines hu hdb =>
    refine ⟨fun hr => absurd rfl hr, fun lines hl _ => ⟨fun _ => ?_, fun _ => ⟨rfl, ?_⟩⟩⟩
    · rw [hlines lines hl]
      exact exists_insert_accepted_iff.mp ⟨_, hu⟩
    · exact (Ends.stores hlines hu hdb).addresses hl

/-- An update against one outside, from an empty database. -/
def updating (n : Node lib) (lines : List String) : List (Event signature (World lib)) ×
    Except UpdateSanctionedAddressesError Unit × World lib :=
  (updateSanctionedAddresses lib "https://example.com/list.txt").runWith
    (respond { Outside.healthy with addressList := lines }) ⟨.empty, n⟩

theorem exec_updating (n : Node lib) (lines : List String) :
    Exec (environment (Drift.grows : Drift lib))
      (updateSanctionedAddresses lib "https://example.com/list.txt") ⟨.empty, n⟩
      (updating n lines).1 (updating n lines).2.1 (updating n lines).2.2 :=
  exec_respond Drift.grows { Outside.healthy with addressList := lines } _ _

theorem downloads_updating (n : Node lib) (lines : List String) :
    Downloads lines (updating n lines).1 := by
  have hstatus : (200 : Int32) < 400 := by decide
  exact ⟨_, ⟨200, "OK", some lines⟩, List.mem_cons_self, hstatus, rfl⟩

/-- A statement that fails among otherwise healthy parts is rejected by the database. -/
theorem exec_of_respondSql {o : Outside} {w : World lib} {s : Statement} {e : DbError}
    (ho : o.sqlFails s = false) (h : (respondSql o w s).1 = .error e) :
    s.exec o.nextId w.db = .error e := by
  rw [respondSql, if_neg (by simp [ho])] at h
  cases hx : s.exec o.nextId w.db with
  | ok r =>
    rw [hx] at h
    cases h
  | error e' =>
    rw [hx] at h
    cases h
    rfl

theorem available_updating (n : Node lib) (lines : List String) :
    Available (updating n lines).1 := by
  refine ⟨fun v e he => ?_, fun v s e he => ?_⟩
  · cases Prog.reply_of_mem_runWith he
  · exact ⟨Outside.healthy.nextId, exec_of_respondSql (o := { Outside.healthy with
      addressList := lines }) rfl (Prog.reply_of_mem_runWith he).symm⟩

theorem replaced_iff_updating :
    let lines := ["listed", "no address", "other", "no address"]
    let run := updating chain₀ lines
    (run.2.1 ≠ .ok () → run.2.2.db.sanctionedAddresses = Database.empty.sanctionedAddresses) ∧
    (Replaced sample lines run.2.1 run.2.2.db ↔
      (lines.filter (fun a => (sample.parseAddress a).isSome)).Nodup) := by
  intro lines run
  obtain ⟨hkept, hiff⟩ := replaced_iff Drift.keepsDb_grows (exec_updating chain₀ lines)
  exact ⟨hkept, hiff lines (downloads_updating chain₀ lines) (available_updating chain₀ lines)⟩

/-- The list has one address twice. -/
theorem replaced_fails :
    ¬ ∀ (lines : List String) (w w' : World sample) (tr : List (Event signature (World sample)))
      (r : Except UpdateSanctionedAddressesError Unit),
      Exec (environment (Drift.grows : Drift sample))
        (updateSanctionedAddresses sample "https://example.com/list.txt") w tr r w' →
      Downloads lines tr → Available tr → Replaced sample lines r w'.db := by
  intro h
  have hr := h ["listed", "listed"] _ _ _ _ (exec_updating chain₀ _)
    (downloads_updating chain₀ _) (available_updating chain₀ _)
  exact absurd hr.1 (by decide)

/-! A stored line is compared with the mainnet address of a script, printed. -/

/-- The addresses as process reads them, in whatever order. -/
abbrev ReadBy (db : Database)
    (rows : Table SanctionedAddress String (fun a => a.address)) : Prop :=
  ∃ db', Statement.sanctionedAddresses.Succeeds db rows db'

def addressSet (rows : Table SanctionedAddress String (fun a => a.address)) : HashSet String :=
  HashSet.collect (rows.rows.map (fun a => a.address))

theorem mem_addressSet {db : Database}
    {rows : Table SanctionedAddress String (fun a => a.address)} (h : ReadBy db rows) (a : String) :
    a ∈ addressSet rows ↔ a ∈ listed db := by
  obtain ⟨db', blockId, r₀, hx, hs⟩ := h
  cases hx
  exact mem_collect_addresses hs a

/-- Every transaction that pays the script is told to pay a listed address. -/
def Enforced (lib : Crates) (addresses : HashSet String) (script : ScriptBuf) : Prop :=
  ∀ tx : Bitcoin.Transaction, (∃ output ∈ tx.output, output.scriptPubkey = script) →
    isTxToSanctioned lib tx addresses = true

theorem enforced_iff_paysListed {addresses : HashSet String} {listed : Set String}
    (ha : ∀ a, a ∈ addresses ↔ a ∈ listed) {script : ScriptBuf} :
    Enforced lib addresses script ↔ PaysListed lib listed script := by
  constructor
  · intro h
    have hto := h ⟨2, 0, [], [⟨0, script⟩]⟩ ⟨⟨0, script⟩, List.mem_singleton_self _, rfl⟩
    obtain ⟨output, hout, hpays⟩ := (isTxToSanctioned_iff ha).mp hto
    obtain rfl := List.mem_singleton.mp hout
    exact hpays
  · rintro h tx ⟨output, hout, rfl⟩
    exact (isTxToSanctioned_iff ha).mpr ⟨output, hout, h⟩

/-- An accepted line is enforced exactly when the address of its script, as it is printed for
mainnet, is an accepted line of the list too. -/
theorem enforced_iff (hD : D.KeepsDb)
    (h : Exec (environment D) (updateSanctionedAddresses lib url) w tr (.ok ()) w')
    (hl : Downloads lines tr) {rows : Table SanctionedAddress String (fun a => a.address)}
    (hrows : ReadBy w'.db rows) :
    ∀ line ∈ lines, ∀ script, lib.parseAddress line = some script →
      (Enforced lib (addressSet rows) script ↔
        ∃ printed ∈ lines, (lib.parseAddress printed).isSome = true ∧
          lib.addressFromScript script = some printed) := by
  intro line _ script _
  rw [enforced_iff_paysListed (mem_addressSet hrows), PaysListed]
  simp only [listed, Set.mem_ofPred_eq, (ends_of_exec hD h).addresses hl, and_assoc]

def segwitScript : ScriptBuf :=
  [0x00, 0x14, 0xe8, 0xdf, 0x01, 0x8c, 0x7e, 0x32, 0x6c, 0xc2, 0x53, 0xfa, 0xac, 0x7e, 0x46, 0xcd,
    0xc5, 0x1e, 0x68, 0x54, 0x2c, 0x42]

def lowerCase : String := "bc1qar0srrr7xfkvy5l643lydnw9re59gtzzwf5mdq"
def upperCase : String := "BC1QAR0SRRR7XFKVY5L643LYDNW9RE59GTZZWF5MDQ"

/-- An address that parses in either case. -/
def bech32 : Crates :=
  { sample with
    addressFromScript := fun script => if script = segwitScript then some lowerCase else none
    parseAddress := fun a => if a = lowerCase ∨ a = upperCase then some segwitScript else none }

def bech32Node : Node bech32 := nodeOf (by decide : IsActive bech32 [block₀] [] block₀)

theorem enforced_iff_upperCase :
    let run := updating bech32Node [upperCase]
    ∀ line ∈ [upperCase], ∀ script, bech32.parseAddress line = some script →
      (Enforced bech32 (addressSet run.2.2.db.sanctionedAddresses) script ↔
        ∃ printed ∈ [upperCase], (bech32.parseAddress printed).isSome = true ∧
          bech32.addressFromScript script = some printed) :=
  enforced_iff Drift.keepsDb_grows (exec_updating bech32Node [upperCase])
    (downloads_updating bech32Node [upperCase]) ⟨_, 0, _, rfl, List.Perm.refl _⟩

/-- The only line is a mainnet address in capitals. -/
theorem enforced_fails :
    ¬ ∀ (lines : List String) (w w' : World bech32) (tr : List (Event signature (World bech32)))
      (rows : Table SanctionedAddress String (fun a => a.address)),
      Exec (environment (Drift.grows : Drift bech32))
        (updateSanctionedAddresses bech32 "https://example.com/list.txt") w tr (.ok ()) w' →
      Downloads lines tr → ReadBy w'.db rows →
      ∀ line ∈ lines, ∀ script, bech32.parseAddress line = some script →
        Enforced bech32 (addressSet rows) script := by
  intro h
  have he := h [upperCase] _ _ _ _ (exec_updating bech32Node [upperCase])
    (downloads_updating bech32Node [upperCase]) ⟨_, 0, _, rfl, List.Perm.refl _⟩ upperCase
    (List.mem_singleton_self _) segwitScript (by decide)
  have hto := he (coinbaseTx 1 segwitScript) ⟨_, List.mem_singleton_self _, rfl⟩
  exact absurd hto (by decide)

end MiningpoolObserver.AddressList
