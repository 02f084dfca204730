import Geata.Lightning.Security
import Geata.Service.Programs

namespace Geata.Service

open Geata.Lib Geata.Lightning Geata.Payments Function

/-!
# The running system

The shared state of the service and what each operation does to it: the settlement database, the
wallets, the clock, and who holds which lock.  `machine` puts the programs, the operations, the
clock and the crashes together.

* A write transaction of the settlement database runs on a blocking thread and is atomic.  When
  its caller is dropped it may be committed, not committed, or still to come.
* `Outside` — what LDK nodes and mints may answer, and whether a cleanup pass may begin before a
  write of one that was cut off.
* `Happening` — the history of the database and of the mints' deposits, the latest first.
-/

/-! ### State -/

/-- Who holds the data directory. -/
inductive Owner where
  | server
  | command (call : ℕ)
  deriving DecidableEq

/-- What happened to the records a deposit or an admission leaves. -/
inductive Happening (κ : Type) where
  /-- a mint's wallet -/
  | wallet (mint : String) (note : Note)
  /-- an LDK node made an invoice -/
  | invoiced (invoice : String)
  /-- a mint was remembered -/
  | remembered (mint : String)
  /-- an association was stored -/
  | inserted (key : String) (deposit : Deposit)
  /-- an association was marked as retired -/
  | retired (key : String) (deposit : Deposit)
  /-- an association was removed -/
  | dropped (key : String) (deposit : Deposit)
  /-- a credential's root was stored -/
  | rooted (key : String) (record : κ × ℕ)
  /-- a call consumed a replay key -/
  | claimed (call : ℕ) (key : String) (retainUntil : ℕ)

structure System (κ : Type) where
  clock : ℕ
  directory : Option Owner := none
  store : Store κ := {}
  /-- whether the process has the settlement database open -/
  opened : Bool := false
  cursorLock : Option ℕ := none
  cursor : Option String := none
  /-- database transactions whose caller is gone and which have not run yet -/
  detached : List (LightningOp κ) := []
  wallets : String → Wallet := fun _ => {}
  history : List (Happening κ) := []

/-- The receivers: the nodes that are ever configured, which invoices a node, and which quotes a
    mint, may answer with.  And the blocking threads: whether a cleanup pass can begin while a write
    of a pass that was cut off is still to come. -/
structure Outside where
  nodes : LdkReceiverConfig → Prop
  invoices : LdkReceiverConfig → String → Prop
  quotes : String → MintQuote → Prop
  overtakes : Prop

namespace System

variable {κ : Type}

/-! ### Operations of the settlement database -/

/-- The quotes associated with a mint. -/
def associated (store : Store κ) (mint : String) : List String :=
  (store.quotes.rows.filter (fun row => row.2.mint = mint)).map (fun row => row.2.quote)

/-- The mints behind the given keys, each with its associated quotes; a mint seen before gets
    none. -/
def surveyMints (X : Payments.Crates) (store : Store κ) :
    List String → List String → Option (List (String × List String))
  | _, [] => some []
  | seen, key :: rest => do
    let mint ← X.parseMint key
    let others ← surveyMints X store (mint :: seen) rest
    return (mint, if mint ∈ seen then [] else associated store mint) :: others

/-- What a recovery pass sees: the mints ever asked, each with its associated quotes. -/
def survey (X : Payments.Crates) (store : Store κ) : Option (List (String × List String)) :=
  surveyMints X store [] (store.mints.rows.map Prod.fst)

/-- The writes of a cleanup pass that are still to come; its timer may fire while one is waited for. -/
def late (s : System κ) : List (LightningOp κ) := s.detached.filter LightningOp.cleans

/-- A write transaction is committed, if it does not fail by itself. -/
def commit (s : System κ) : LightningOp κ → System κ
  | .database | .prune => { s with store := s.store.prune s.clock }
  | .insertMint mint =>
    { s with store := s.store.insertMint mint, history := .remembered mint :: s.history }
  | .insertQuote key deposit =>
    match s.store.insertQuote key deposit with
    | .ok store => { s with store, history := .inserted key deposit :: s.history }
    | .error _ => s
  | .insertRoot key record =>
    match s.store.insertRoot key record with
    | .ok store => { s with store, history := .rooted key record :: s.history }
    | .error _ => s
  | .claim key retainUntil =>
    match s.store.claim key retainUntil s.clock with
    | .ok (_, store) => { s with store }
    | .error _ => s
  | .retireQuote key deposit =>
    { s with
      store := s.store.retireQuote key deposit
      history := .retired key deposit :: s.history }
  | .removeQuote key deposit =>
    { s with
      store := s.store.removeQuote key
      history := .dropped key deposit :: s.history }
  | _ => s

/-- A successful operation of `Lightning` and its answer. -/
def succeed (X : Payments.Crates) (out : Outside) (call : ℕ) (s : System κ) :
    (o : LightningOp κ) → o.Answer → System κ → Prop
  | .database, (), s' => s' = if s.opened then s else { s.commit .database with opened := true }
  | .checkCapacity needed, (), s' => s.store.checkCapacity needed = .ok () ∧ s' = s
  | .insertQuote key deposit, (), s' =>
      (∃ store, s.store.insertQuote key deposit = .ok store) ∧ s' = s.commit (.insertQuote key deposit)
  | .insertRoot key record, (), s' =>
      (∃ store, s.store.insertRoot key record = .ok store) ∧ s' = s.commit (.insertRoot key record)
  | .claim key retainUntil, claimed, s' =>
      ∃ store, s.store.claim key retainUntil s.clock = .ok (claimed, store) ∧
        s' = { s with
          store := store
          history := cond claimed (.claimed call key retainUntil :: s.history) s.history }
  | .getRoot key, record, s' => record = s.store.roots.lookup key ∧ s' = s
  | .getQuote key, record, s' => record = s.store.quotes.lookup key ∧ s' = s
  | .listQuotes, rows, s' => rows = s.store.quotes.rows ∧ s' = s
  | .survey, mints, s' => survey X s.store = some mints ∧ s' = s
  | .now, time, s' => time = s.clock ∧ s' = s
  | .requestInvoice node _ _, invoice, s' => out.invoices node invoice ∧
      s' = { s with history := .invoiced invoice :: s.history }
  | .tryCursor, cursor, s' => s.cursorLock = none ∧ (out.overtakes ∨ s.late = []) ∧
      cursor = s.cursor ∧ s' = { s with cursorLock := some call }
  | .setCursor key, (), s' => s' = { s with cursor := some key }
  | .insertMint mint, (), s' => s' = s.commit (.insertMint mint)
  | .retireQuote key deposit, (), s' => s' = s.commit (.retireQuote key deposit)
  | .removeQuote key deposit, (), s' => s' = s.commit (.removeQuote key deposit)
  | .prune, (), s' => s' = s.commit .prune
  | _, _, s' => s' = s

/-! ### What the database operations leave alone -/

section

variable {X : Payments.Crates} {out : Outside} {call : ℕ} {s s' : System κ}

@[simp] theorem commit_wallets (s : System κ) (o : LightningOp κ) :
    (s.commit o).wallets = s.wallets := by
  cases o <;> simp only [commit] <;> split <;> rfl

@[simp] theorem commit_directory (s : System κ) (o : LightningOp κ) :
    (s.commit o).directory = s.directory := by
  cases o <;> simp only [commit] <;> split <;> rfl

@[simp] theorem commit_clock (s : System κ) (o : LightningOp κ) : (s.commit o).clock = s.clock := by
  cases o <;> simp only [commit] <;> split <;> rfl

@[simp] theorem commit_detached (s : System κ) (o : LightningOp κ) :
    (s.commit o).detached = s.detached := by
  cases o <;> simp only [commit] <;> split <;> rfl

/-- A successful operation leaves the wallets, the directory and the clock alone, and leaves
    nothing behind. -/
theorem succeed_frame {o : LightningOp κ} {r : o.Answer} (h : s.succeed X out call o r s') :
    s'.wallets = s.wallets ∧ s'.directory = s.directory ∧ s'.clock = s.clock ∧
      s'.detached = s.detached := by
  cases o
  case database =>
    obtain rfl := (h : s' = _)
    split <;> simp
  case claim key retainUntil => obtain ⟨store, -, rfl⟩ := h; simp
  case tryCursor => obtain ⟨-, -, -, rfl⟩ := h; simp
  all_goals
    first
      | (obtain rfl := (h : s' = _); simp)
      | (obtain ⟨-, rfl⟩ := h; simp)

/-- A successful operation changes the tables as its transaction does, or not at all. -/
theorem succeed_store {o : LightningOp κ} {r : o.Answer} (h : s.succeed X out call o r s') :
    s'.store = s.store ∨ s'.store = (s.commit o).store := by
  cases o
  case database =>
    obtain rfl := (h : s' = _)
    split
    · exact .inl rfl
    · exact .inr rfl
  case claim key retainUntil =>
    obtain ⟨store, hstore, rfl⟩ := h
    refine .inr ?_
    simp only [commit, hstore]
  case tryCursor => obtain ⟨-, -, -, rfl⟩ := h; exact .inl rfl
  all_goals
    first
      | (obtain rfl := (h : s' = _); exact .inl rfl)
      | (obtain ⟨-, rfl⟩ := h; exact .inl rfl)
      | (obtain rfl := (h : s' = _); exact .inr rfl)
      | (obtain ⟨-, rfl⟩ := h; exact .inr rfl)

theorem succeed_wallets {o : LightningOp κ} {r : o.Answer} (h : s.succeed X out call o r s') :
    s'.wallets = s.wallets := (succeed_frame h).1

end

/-! ### Effects -/

/-- Replace one wallet, and note what happened to it. -/
def setWallet (s : System κ) (mint : String) (wallet : Wallet) (notes : List Note) : System κ :=
  { s with
    wallets := update s.wallets mint wallet
    history := notes.map (.wallet mint) ++ s.history }

/-- Give back every wallet lock of a call, as when its timer fires. -/
def leave (call : ℕ) (s : System κ) : System κ :=
  { s with wallets := fun mint => (s.wallets mint).unlock call }

/-- Everything a process keeps in memory is gone. -/
def exit (s : System κ) : System κ :=
  { s with
    directory := none
    opened := false
    cursorLock := none
    cursor := none
    detached := []
    wallets := fun mint => (s.wallets mint).restart }

/-- What a call gives back when it ends; a command ends its process. -/
def release (call : ℕ) (s : System κ) : System κ :=
  if s.directory = some (.command call) then s.exit
  else
    { s.leave call with cursorLock := if s.cursorLock = some call then none else s.cursorLock }

/-- The base operations. -/
def effects (X : Payments.Crates) (out : Outside) : Effects (BaseSig κ) (System κ) where
  exec call s (o : BaseOp κ) (r : (BaseSig κ).Res o) s' :=
    match o, r with
    | .lightning o, some r => s.succeed X out call o r s'
    -- a transaction that fails may still have been committed
    | .lightning o, none => s' = s ∨ s' = s.commit o
    | .wallet mint o, r => ∃ wallet notes, (s.wallets mint).exec (out.quotes mint) call s.clock
        (s.directory = some .server) o r wallet notes ∧ s' = s.setWallet mint wallet notes
    | .lockDirectory mint, true => s.directory = none ∧ s' = { s with
        directory := some (.command call)
        wallets := update s.wallets mint { s.wallets mint with lock := some call } }
    | .lockDirectory _, false => s.directory ≠ none ∧ s' = s
  cut _ s (o : BaseOp κ) s' :=
    match o with
    | .lightning o =>
        s' = s ∨ s' = s.commit o ∨ s' = { s with detached := o :: s.detached }
    | .wallet mint o => ∃ wallet notes, (s.wallets mint).cut (out.quotes mint) o wallet notes ∧
        s' = s.setWallet mint wallet notes
    | .lockDirectory _ => s' = s

/-- What happens by itself: time passes, a transaction left behind runs, a server starts. -/
inductive Env [DecidableEq κ] : System κ → System κ → Prop where
  | tick {s : System κ} {time : ℕ} (h : s.clock ≤ time) (hmax : time < 2 ^ 63) :
      Env s { s with clock := time }
  | transaction {s : System κ} {o : LightningOp κ} (h : o ∈ s.detached) :
      Env s { s.commit o with detached := s.detached.erase o }
  | ledger {s : System κ} {mint : String} {wallet : Wallet} (h : (s.wallets mint).settle wallet) :
      Env s (s.setWallet mint wallet [])
  | serve {s : System κ} (h : s.directory = none) : Env s { s with directory := some .server }

end System

/-! ### The machine -/

variable {κ : Type} [DecidableEq κ]

/-- Which calls arrive: a server's calls while it serves, a command at any time.  A node of a
    policy is a configured one, and a mint of a policy is a parsed one. -/
def Request.Arrives (X : Payments.Crates) (out : Outside) (s : System κ) : Request → Prop
  | .pay _ _ _ _ | .pending _ _ => True
  | .settle policy _ _ => s.directory = some .server ∧
      ∀ node, policy.receiver.ldk? = some node → out.nodes node
  | .challenge policy _ _ _ => s.directory = some .server ∧
      ∀ mint, policy.receiver.mint? = some mint → X.parseMint mint = some mint
  | _ => s.directory = some .server

/-- The service, from an empty data directory on. -/
def machine (X : Service.Crates κ) (out : Outside) :
    Machine (ServiceSig κ) (System κ) Request Answer where
  init s := ∃ time < 2 ^ 63, s = { clock := time }
  admits s q := q.Arrives X.payments out s
  code := code X
  effects := (System.effects X.payments out).timers System.leave
  release := System.release
  env := System.Env
  crash s s' := s' = s.exit

/-! ### A test instance -/

/-- The crates of the test challenge, with a wallet that knows one mint and no tokens. -/
def testService : Service.Crates (List UInt8) where
  l402 := testCrates L402.testHmac L402.testRoot
  parseToken _ := none
  proofs _ _ := none
  amountMintable quote := quote.amountPaid - quote.amountIssued
  parseMint mint := if mint = "https://mint.example" then some mint else none
  parseRequest _ := none
  httpTarget _ := false
  operationText o := o.toNat.repr
  parseOperation text := (parseNat text.toList).map (BitVec.ofNat 128)

/-- Operation IDs of the test instance can be read back. -/
theorem testService_operations (o : OperationId) :
    testService.parseOperation (testService.operationText o) = some o := by
  show (parseNat o.toNat.repr.toList).map (BitVec.ofNat 128) = some o
  rw [Nat.toList_repr, parseNat_toDigits, Option.map_some, BitVec.ofNat_toNat, BitVec.setWidth_eq]

/-- Receivers that never answer. -/
def testOutside : Outside where
  nodes _ := False
  invoices _ _ := False
  quotes _ _ := False
  overtakes := False

end Geata.Service
