import KaidaDB.Api.Grpc
import KaidaDB.Common.Text
import KaidaDB.Tui.Browse
import KaidaDB.Tui.Upload

/-!
# Renaming in the terminal UI

`execute_rename` moves the selected object, or all keys below the selected directory, one request for
each. The server of the client it is connected to lets it through.
-/

namespace KaidaDB

variable (X : Crates)

/-- The fields of `App` for a rename. -/
structure RenameState where
  items : List MediaItem
  renameInput : String
  renameCursor : Nat
  renameOriginalKey : String
  renameIsDir : Bool
  statusMessage : String
  inputMode : InputMode
deriving DecidableEq, Repr

/-- A call of `rename_media`. -/
def requestRename (fromKey toKey : String) : ServerM (Except Status RenameMediaResponse) :=
  Grpc.renameMedia X ⟨.ok (), ⟨fromKey, toKey⟩⟩

/-- What a key below the old prefix is renamed to. -/
def renamedKey (oldPrefix newPrefix oldKey : String) : String :=
  newPrefix ++ String.ofList (oldKey.toList.drop oldPrefix.toList.length)

/-- The loop over the keys, with the numbers of those renamed and of those not. -/
def renameKeys (oldPrefix newPrefix : String) : List String → Nat × Nat → ServerM (Nat × Nat)
  | [], counts => pure counts
  | oldKey :: keys, (success, failed) => do
    match ← requestRename X oldKey (renamedKey oldPrefix newPrefix oldKey) with
    | .ok _ => renameKeys oldPrefix newPrefix keys (success + 1, failed)
    | .error _ => renameKeys oldPrefix newPrefix keys (success, failed + 1)

namespace RenameState

/-- The end of `execute_rename`. -/
def close (app : RenameState) : RenameState :=
  { app with
    renameInput := ""
    renameCursor := 0
    renameOriginalKey := ""
    renameIsDir := false
    inputMode := .normal }

/-- The keys below the directory that is renamed. -/
def keysToRename (app : RenameState) : List String :=
  (app.items.map MediaItem.key).filter fun key => startsWith key (app.renameOriginalKey ++ "/")

/-- `execute_rename`, without the `refresh_media_list` at its end: the fields, and how many requests have
failed. `display` gives the text of a status. -/
def executeRename (display : Status → String) (app : RenameState) : ServerM (RenameState × Nat) := do
  let newPath := trim app.renameInput
  let oldPath := app.renameOriginalKey
  if newPath = "" then return ({ app with statusMessage := "Key cannot be empty" }, 0)
  if newPath = oldPath then
    return ({ app with statusMessage := "Name unchanged", inputMode := .normal }, 0)
  if app.renameIsDir then
    let oldPrefix := oldPath ++ "/"
    let newPrefix := newPath ++ "/"
    if app.keysToRename = [] then
      let statusMessage := s!"No items found under '{oldPrefix}'"
      return ({ app with statusMessage, inputMode := .normal }, 0)
    let (success, failed) ← renameKeys X oldPrefix newPrefix app.keysToRename (0, 0)
    let statusMessage :=
      if failed = 0 then s!"Renamed directory '{oldPath}' -> '{newPath}' ({success} items)"
      else s!"Renamed {success} items, {failed} failed ('{oldPath}' -> '{newPath}')"
    return ({ app with statusMessage }.close, failed)
  else
    match ← requestRename X oldPath newPath with
    | .ok _ =>
      return ({ app with statusMessage := s!"Renamed '{oldPath}' -> '{newPath}'" }.close, 0)
    | .error status =>
      return ({ app with statusMessage := s!"Rename failed: {display status}" }.close, 1)

end RenameState

/-! ## A directory in another place -/

/-- From `s` to `s'` every object below the old prefix is moved below the new one, and nothing else has
happened. -/
structure DirectoryMoved (oldPrefix newPrefix : String) (s s' : Store) : Prop where
  moved : ∀ key m, s.index.manifests[key]? = some m → startsWith key oldPrefix = true →
    ∃ m', s'.index.manifests[renamedKey oldPrefix newPrefix key]? = some m' ∧
      m' = { m with key := m'.key, updatedAt := m'.updatedAt } ∧
      m'.key = renamedKey oldPrefix newPrefix key
  left : ∀ key, startsWith key oldPrefix = true →
    (∀ key', (s.index.manifests[key']?).isSome → startsWith key' oldPrefix = true →
      renamedKey oldPrefix newPrefix key' ≠ key) → s'.index.manifests[key]? = none
  others : ∀ key, startsWith key oldPrefix = false →
    (∀ key', (s.index.manifests[key']?).isSome → startsWith key' oldPrefix = true →
      renamedKey oldPrefix newPrefix key' ≠ key) →
    s'.index.manifests[key]? = s.index.manifests[key]?
  files : s'.files = s.files

/-- A directory can be renamed as far as its keys go: no other key is where one of them is moved, and the
new keys are valid. -/
structure Relocatable (oldPrefix newPrefix : String) (s : IndexState) : Prop where
  free : ∀ key key', (s.manifests[key]?).isSome → startsWith key oldPrefix = true →
    (s.manifests[key']?).isSome → startsWith key' oldPrefix = false →
    renamedKey oldPrefix newPrefix key ≠ key'
  valid : ∀ key, (s.manifests[key]?).isSome → startsWith key oldPrefix = true →
    validateKey (renamedKey oldPrefix newPrefix key) = .ok ()

/-- Where a key of the directory is moved to the place of another one, that one is moved before. -/
def TargetsMoveFirst (oldPrefix newPrefix : String) (s : IndexState) : Prop :=
  ∀ key, (s.manifests[key]?).isSome → startsWith key oldPrefix = true →
    (s.manifests[renamedKey oldPrefix newPrefix key]?).isSome →
    renamedKey oldPrefix newPrefix key < key

end KaidaDB
