import Geata.Lib.Concurrent
import Geata.Lib.Disk

namespace Geata.Storage

open Geata.Lib

/-!
# The storage directory

`Storage` keeps each value in a file of its own.  `write` prepares a temporary file, renames it over
the old one and syncs the directory; `read` takes what it finds.  Both are programs over the system
calls they make, so calls for different names, or for one name, may run at the same time, and any
system call may fail.

* `Serde` — how values are written and read as JSON.
* `write`, `read` — the two functions.
* `machine` — any number of calls, killed processes and power cuts.
-/

/-! ### System calls -/

/-- What a file was made for: a call of `write`, the name it writes and the text. -/
structure Purpose where
  call : ℕ
  name : String
  text : List UInt8

abbrev Directory : Type := Disk String Purpose

/-- Why a file cannot be opened. -/
inductive OpenError where
  | notFound
  | other

inductive StorageOp where
  /-- `NamedTempFile::new_in`.  What the file is for is recorded in its tag, and nowhere else. -/
  | createTemp (name : String) (text : List UInt8)
  | setPermissions (file mode : ℕ)
  | writeAll (file : ℕ) (bytes : List UInt8)
  | syncAll (file : ℕ)
  | rename (source target : String)
  | removeFile (name : String)
  | openDirectory
  | syncDirectory
  | openFile (name : String)
  | readToEnd (file : ℕ)

@[reducible] def StorageOp.Res : StorageOp → Type
  | .createTemp _ _ => Option (String × ℕ)
  | .setPermissions _ _ => Bool
  | .writeAll _ _ => Bool
  | .syncAll _ => Bool
  | .rename _ _ => Bool
  | .removeFile _ => Bool
  | .openDirectory => Bool
  | .syncDirectory => Bool
  | .openFile _ => Except OpenError ℕ
  | .readToEnd _ => Option (List UInt8)

@[reducible] def StorageSig : Sig where
  Op := StorageOp
  Res := StorageOp.Res

/-- The names `tempfile` makes up. -/
def temporary (name : String) : Bool := (".tmp".toList).isPrefixOf name.toList

/-! ### Values -/

/-- The JSON form of the stored values: the pieces a value is written in, and what bytes are read
    as.  Making the text of these values cannot fail. -/
structure Serde (α : Type) where
  toWriter : α → List (List UInt8)
  fromSlice : List UInt8 → Option α

/-- The text of a value. -/
def Serde.text {α : Type} (F : Serde α) (value : α) : List UInt8 := (F.toWriter value).flatten

inductive Error where
  /-- an error of the operating system -/
  | io
  /-- an error with the context that is added to it -/
  | context (text : String)
  deriving DecidableEq

abbrev Attempt (α : Type) : Type := Stage StorageSig Error α

section

variable {α : Type} (F : Serde α)

/-- Go on if a system call succeeded. -/
def check (ok : Bool) : Attempt Unit := Stage.stopIf (!ok) .io

/-! ### `Storage::write` -/

/-- Write the pieces of a text one after the other. -/
def fill (file : ℕ) : List (List UInt8) → Attempt Unit
  | [] => pure ()
  | piece :: rest => do
    check (← Stage.perform (S := StorageSig) (.writeAll file piece))
    fill file rest

/-- Everything before the new file takes its place; flushing a file does nothing. -/
def prepare (file : ℕ) (value : α) : Attempt Unit := do
  check (← Stage.perform (S := StorageSig) (.setPermissions file 0o600))
  fill file (F.toWriter value)
  check (← Stage.perform (S := StorageSig) (.syncAll file))

/-- A temporary file that is dropped is removed, whether that works or not. -/
def orRemove (source : String) (body : Attempt Unit) : Attempt Unit := do
  match ← Stage.attempt body with
  | .ok () => pure ()
  | .error e => do
    let _ ← Stage.perform (S := StorageSig) (.removeFile source)
    throw e

def write (name : String) (value : α) : Attempt Unit := do
  match ← Stage.perform (S := StorageSig) (.createTemp name (F.text value)) with
  | none => throw .io
  | some (source, file) => do
    orRemove source (do
      prepare F file value
      check (← Stage.perform (S := StorageSig) (.rename source name)))
    check (← Stage.perform (S := StorageSig) .openDirectory)
    check (← Stage.perform (S := StorageSig) .syncDirectory)

/-! ### `Storage::read` -/

def read (name : String) : Attempt (Option α) := do
  match ← Stage.perform (S := StorageSig) (.openFile name) with
  | .error .notFound => pure none
  | .error .other => throw (.context ("cannot read stored " ++ name))
  | .ok file =>
    match ← Stage.perform (S := StorageSig) (.readToEnd file) with
    | none => throw (.context ("cannot read stored " ++ name))
    | some bytes =>
      match F.fromSlice bytes with
      | some value => pure (some value)
      | none => throw (.context ("invalid stored " ++ name))

/-! ### Calls -/

inductive Request (α : Type) where
  | write (name : String) (value : α)
  | read (name : String)

inductive Answer (α : Type) where
  | written (result : Except Error Unit)
  | value (result : Except Error (Option α))

def code : Request α → Prog StorageSig (Answer α)
  | .write name value => (write F name value).run.bind (fun r => .ret (.written r))
  | .read name => (read F name).run.bind (fun r => .ret (.value r))

end

/-! ### What the system calls do -/

/-- A system call and its answer. -/
def exec (call : ℕ) (d : Directory) (o : StorageOp) (r : o.Res) (d' : Directory) : Prop :=
  match o, r with
  | .createTemp name text, some (source, file) => temporary source = true ∧
      d.entries source = none ∧ file = d.next ∧ ∃ mode, d' = d.create source mode ⟨call, name, text⟩
  | .setPermissions file mode, true => d' = d.chmod file mode
  | .writeAll file bytes, true => d' = d.append file bytes
  -- some of it may have been written
  | .writeAll file bytes, false => ∃ n, d' = d.append file (bytes.take n)
  | .syncAll file, true => d' = d.sync file
  | .rename source target, true => (d.entries source).isSome = true ∧ d' = d.rename source target
  | .removeFile name, true => d' = d.unlink name
  | .syncDirectory, true => d' = d.syncDirectory
  | .openFile name, .ok file => d.entries name = some file ∧ d' = d
  | .openFile name, .error .notFound => d.entries name = none ∧ d' = d
  | .readToEnd file, some bytes => bytes = (d.files file).content ∧ d' = d
  | _, _ => d' = d

/-- A directory as it is found: everything has reached the disk. -/
structure Found (d : Directory) : Prop where
  older : ∀ a, d.older a = []
  renamed : d.renamed = []
  fresh : ∀ a id, d.entries a = some id → id < d.next
  tag : ∀ id, (d.files id).tag = none
  synced : ∀ id, id < d.next → (d.files id).synced = true

/-- Calls for names that are not temporary ones.  A crash kills the process, and the power may go
    at the same moment; a call that panics ends during or after a system call. -/
def machine {α : Type} (F : Serde α) : Machine StorageSig Directory (Request α) (Answer α) where
  init := Found
  admits
    | _, .write name _ => temporary name = false
    | _, .read name => temporary name = false
  code := code F
  effects :=
    { exec := exec
      cut := fun call d o d' => d' = d ∨ ∃ r, exec call d o r d' }
  release _ d := d
  env _ _ := False
  crash d d' := d' = d ∨ d.PowerCut d'

end Geata.Storage
