import KaidaDB.Lib.ByteIndex
import KaidaDB.Tui.Rename

/-!
# Text inputs of the terminal UI

The main loop hands each key to the function for the current mode. Four modes edit a text at a cursor,
which is a number of bytes, and the edits panic where it is not at a boundary of characters. Which
entry is selected, which files are marked and the like is left open: between any two keys the rest of
the app may be anything (`Surroundings`).
-/

namespace KaidaDB

open ByteIndex

/-- A text and a cursor: the fields `x_input` and `x_cursor` of `App`. -/
structure TextField where
  text : String
  cursor : Nat
deriving DecidableEq, Repr

namespace TextField

variable (field : TextField)

def empty : TextField := ⟨"", 0⟩

/-- The text is replaced and the cursor is at its end. -/
def filled (text : String) : TextField := ⟨text, text.utf8ByteSize⟩

def insertChar (c : Char) : Option TextField := do
  let text ← insert? field.text.toList field.cursor c
  return ⟨String.ofList text, field.cursor + c.utf8Size⟩

def backspace : Option TextField :=
  if 0 < field.cursor then do
    let before ← slice? field.text.toList 0 field.cursor
    let prev := (lastIndex before).getD 0
    let text ← drain? field.text.toList prev field.cursor
    return ⟨String.ofList text, prev⟩
  else some field

def delete : Option TextField :=
  if field.cursor < field.text.utf8ByteSize then do
    let after ← slice? field.text.toList field.cursor field.text.utf8ByteSize
    let next := ((nthIndex after 1).map fun i => field.cursor + i).getD field.text.utf8ByteSize
    let text ← drain? field.text.toList field.cursor next
    return { field with text := String.ofList text }
  else some field

def moveLeft : Option TextField :=
  if 0 < field.cursor then do
    let before ← slice? field.text.toList 0 field.cursor
    return { field with cursor := (lastIndex before).getD 0 }
  else some field

def moveRight : Option TextField :=
  if field.cursor < field.text.utf8ByteSize then do
    let after ← slice? field.text.toList field.cursor field.text.utf8ByteSize
    return { field with
      cursor := ((nthIndex after 1).map fun i => field.cursor + i).getD field.text.utf8ByteSize }
  else some field

def home : Option TextField := some { field with cursor := 0 }

def toEnd : Option TextField := some { field with cursor := field.text.utf8ByteSize }

end TextField

inductive KeyCode where
  | char (c : Char)
  | enter
  | esc
  | tab
  | left
  | right
  | up
  | down
  | home
  | endKey
  | backspace
  | delete
  | pageUp
  | pageDown
  | other
deriving DecidableEq, Repr

inductive TerminalEvent where
  /-- `control` is among the modifiers or not. -/
  | key (code : KeyCode) (control : Bool)
  | mouse (down : Bool)
  /-- Another event, or none within the time. -/
  | other
deriving DecidableEq, Repr

/-- How the main loop ends. -/
inductive Exit where
  | quit
  | panic
deriving DecidableEq, Repr

/-- What a step reads of the other fields of `App`, and what it finds outside. -/
structure Surroundings where
  browsePrefix : String
  pathPrefix : String
  /-- The name of `selected_browse_entry`, and whether it is a directory. -/
  browseEntry : Option (String × Bool)
  /-- The key of `selected_item`. -/
  selectedItem : Option String
  /-- The `file_name` of `browser_selected_entry`, and whether it is a directory. -/
  browserEntry : Option (Option String × Bool)
  /-- `selected_file_path` is there. -/
  fileSelected : Bool
  /-- `browser_marked` has paths. -/
  marked : Bool
  /-- The files of an upload that is prepared, or those below the marked paths, are not none. -/
  pending : Bool
  /-- There is a client. -/
  connected : Bool
  /-- There are items below the directory that is renamed. -/
  itemsBelow : Bool
  /-- The upload worker has finished. -/
  finished : Bool
deriving DecidableEq, Repr

/-- The fields of `App` for text inputs. -/
structure InputState where
  inputMode : InputMode
  storeKey : TextField
  newDir : TextField
  rename : TextField
  renameOriginalKey : String
  renameIsDir : Bool
  mkdir : TextField
deriving DecidableEq, Repr

namespace InputState

variable (seen : Surroundings) (app : InputState)

/-- `App::new`. -/
def new : InputState where
  inputMode := .normal
  storeKey := .empty
  newDir := .empty
  rename := .empty
  renameOriginalKey := ""
  renameIsDir := false
  mkdir := .empty

def toMode (inputMode : InputMode) : InputState := { app with inputMode }

/-! ## The new directory of the path browser -/

def enterNewDirMode : InputState := { app with newDir := .empty, inputMode := .newDirInput }

def onNewDir (edit : TextField → Option TextField) : Option InputState :=
  (edit app.newDir).map fun newDir => { app with newDir }

def newDirInsertChar (c : Char) : Option InputState := app.onNewDir (·.insertChar c)
def newDirBackspace : Option InputState := app.onNewDir (·.backspace)
def newDirDelete : Option InputState := app.onNewDir (·.delete)
def newDirMoveLeft : Option InputState := app.onNewDir (·.moveLeft)
def newDirMoveRight : Option InputState := app.onNewDir (·.moveRight)

/-- The path prefix gets the name of the directory, if that is not blank. -/
def confirmNewDir : InputState := app.toMode .pathBrowser

/-! ## The key of an upload -/

def enterStoreMode : InputState := { app with storeKey := .empty, inputMode := .fileBrowser }

def onStoreKey (edit : TextField → Option TextField) : Option InputState :=
  (edit app.storeKey).map fun storeKey => { app with storeKey }

def storeKeyInsertChar (c : Char) : Option InputState := app.onStoreKey (·.insertChar c)
def storeKeyBackspace : Option InputState := app.onStoreKey (·.backspace)
def storeKeyDelete : Option InputState := app.onStoreKey (·.delete)
def storeKeyMoveLeft : Option InputState := app.onStoreKey (·.moveLeft)
def storeKeyMoveRight : Option InputState := app.onStoreKey (·.moveRight)
def storeKeyHome : Option InputState := app.onStoreKey (·.home)
def storeKeyEnd : Option InputState := app.onStoreKey (·.toEnd)

def suggestKeyFromPath (fileName : Option String) : InputState :=
  match fileName with
  | some name => { app with storeKey := .filled (seen.pathPrefix ++ name) }
  | none => app

def beginUpload : InputState := app.toMode (if seen.connected then .uploading else .normal)

def executeStoreFile : InputState :=
  if app.storeKey.text = "" then app.toMode .normal
  else { app with storeKey := .empty }.beginUpload seen

/-- `store_key_input.clear()`, which leaves the cursor where it is. -/
def clearStoreKeyInput : InputState := { app with storeKey := { app.storeKey with text := "" } }

def stagePendingUpload : InputState := if seen.pending then app.toMode .uploadConfirm else app

def confirmPendingUpload : InputState :=
  if seen.pending then app.beginUpload seen else app.toMode .normal

def cancelPendingUpload : InputState := app.toMode .fileBrowser

def drainUploadEvents : InputState := if seen.finished then app.toMode .normal else app

/-! ## Renaming -/

def enterRenameMode : InputState :=
  match seen.browseEntry, seen.selectedItem with
  | some (name, true), _ =>
    let dirPath := seen.browsePrefix ++ name
    { app with
      renameOriginalKey := dirPath
      rename := .filled dirPath
      renameIsDir := true
      inputMode := .renameInput }
  | _, some key =>
    { app with
      renameOriginalKey := key
      rename := .filled key
      renameIsDir := false
      inputMode := .renameInput }
  | _, none => app

def onRename (edit : TextField → Option TextField) : Option InputState :=
  (edit app.rename).map fun rename => { app with rename }

def renameInsertChar (c : Char) : Option InputState := app.onRename (·.insertChar c)
def renameBackspace : Option InputState := app.onRename (·.backspace)
def renameDelete : Option InputState := app.onRename (·.delete)
def renameMoveLeft : Option InputState := app.onRename (·.moveLeft)
def renameMoveRight : Option InputState := app.onRename (·.moveRight)
def renameHome : Option InputState := app.onRename (·.home)
def renameEnd : Option InputState := app.onRename (·.toEnd)

/-- The requests of `execute_rename` are in `RenameState.executeRename`. -/
def executeRename : InputState :=
  let newPath := trim app.rename.text
  if newPath = "" then app
  else if newPath = app.renameOriginalKey then app.toMode .normal
  else if app.renameIsDir && !seen.itemsBelow then app.toMode .normal
  else
    { app with rename := .empty, renameOriginalKey := "", renameIsDir := false, inputMode := .normal }

def cancelRename : InputState :=
  { app with rename := .empty, renameOriginalKey := "", inputMode := .normal }

/-! ## A new directory -/

def enterMkdirMode : InputState := { app with mkdir := .empty, inputMode := .mkdirInput }

def onMkdir (edit : TextField → Option TextField) : Option InputState :=
  (edit app.mkdir).map fun mkdir => { app with mkdir }

def mkdirInsertChar (c : Char) : Option InputState := app.onMkdir (·.insertChar c)
def mkdirBackspace : Option InputState := app.onMkdir (·.backspace)
def mkdirDelete : Option InputState := app.onMkdir (·.delete)
def mkdirMoveLeft : Option InputState := app.onMkdir (·.moveLeft)
def mkdirMoveRight : Option InputState := app.onMkdir (·.moveRight)

def executeMkdir : InputState :=
  if trim app.mkdir.text = "" then app.toMode .normal
  else { app with mkdir := .empty, inputMode := .normal }

def cancelMkdir : InputState := { app with mkdir := .empty, inputMode := .normal }

/-! ## Other modes -/

def viewDetail : InputState :=
  match seen.browseEntry with
  | some (_, false) => if seen.selectedItem.isSome then app.toMode .detail else app
  | _ => app

def enterDeleteConfirm : InputState :=
  match seen.browseEntry with
  | some (_, true) => app.toMode .deleteDirConfirm
  | _ => if seen.selectedItem.isSome then app.toMode .deleteConfirm else app

/-! ## Keys -/

/-- An edit that panics ends the loop. -/
def orPanic : Option InputState → Except Exit InputState
  | some app => .ok app
  | none => .error .panic

def normalKey (control : Bool) : KeyCode → Except Exit InputState
  | .char 'q' => if seen.browsePrefix = "" then .error .quit else .ok app
  | .char 'c' => if control then .error .quit else .ok app
  | .enter | .right | .char 'l' => .ok (app.viewDetail seen)
  | .char 'd' => .ok (app.enterDeleteConfirm seen)
  | .char 'm' => .ok (app.enterRenameMode seen)
  | .char 'M' => .ok app.enterMkdirMode
  | .char 's' => .ok app.enterStoreMode
  | .char '/' => .ok (app.toMode .search)
  | _ => .ok app

def searchKey : KeyCode → InputState
  | .enter | .esc => app.toMode .normal
  | _ => app

def pathBrowserKey : KeyCode → InputState
  | .esc => app.toMode .normal
  | .char 'n' => app.enterNewDirMode
  | .tab | .char 'f' => app.toMode .fileBrowser
  | _ => app

def newDirKey : KeyCode → Option InputState
  | .enter => some app.confirmNewDir
  | .esc => some (app.toMode .pathBrowser)
  | .left => app.newDirMoveLeft
  | .right => app.newDirMoveRight
  | .backspace => app.newDirBackspace
  | .delete => app.newDirDelete
  | .char c => app.newDirInsertChar c
  | _ => some app

def storeKeyKey : KeyCode → Option InputState
  | .enter =>
    if app.storeKey.text ≠ "" ∧ seen.fileSelected then some (app.executeStoreFile seen) else some app
  | .esc => some (app.clearStoreKeyInput.toMode .normal)
  | .tab => some (app.toMode .fileBrowser)
  | .left => app.storeKeyMoveLeft
  | .right => app.storeKeyMoveRight
  | .home => app.storeKeyHome
  | .endKey => app.storeKeyEnd
  | .backspace => app.storeKeyBackspace
  | .delete => app.storeKeyDelete
  | .char c => app.storeKeyInsertChar c
  | _ => some app

def fileBrowserKey : KeyCode → InputState
  | .esc => app.clearStoreKeyInput.toMode .normal
  | .tab => app.toMode .pathBrowser
  | .enter =>
    match seen.browserEntry with
    | some (fileName, false) => (app.suggestKeyFromPath seen fileName).toMode .storeKey
    | _ => app
  | .char 'c' => if seen.marked then app.toMode .clearMarksConfirm else app
  | .char '/' => app.toMode .browserFilter
  | .char 'u' =>
    if seen.marked then app.stagePendingUpload seen
    else
      match seen.browserEntry with
      | some (_, true) => app.stagePendingUpload seen
      | _ => app
  | _ => app

def browserFilterKey : KeyCode → InputState
  | .enter | .esc | .down | .up => app.toMode .fileBrowser
  | _ => app

def uploadConfirmKey : KeyCode → InputState
  | .char 'y' | .char 'Y' | .enter => app.confirmPendingUpload seen
  | _ => app.cancelPendingUpload

def renameKey : KeyCode → Option InputState
  | .enter => some (app.executeRename seen)
  | .esc => some app.cancelRename
  | .left => app.renameMoveLeft
  | .right => app.renameMoveRight
  | .home => app.renameHome
  | .endKey => app.renameEnd
  | .backspace => app.renameBackspace
  | .delete => app.renameDelete
  | .char c => app.renameInsertChar c
  | _ => some app

def mkdirKey : KeyCode → Option InputState
  | .enter => some app.executeMkdir
  | .esc => some app.cancelMkdir
  | .left => app.mkdirMoveLeft
  | .right => app.mkdirMoveRight
  | .backspace => app.mkdirBackspace
  | .delete => app.mkdirDelete
  | .char c => app.mkdirInsertChar c
  | _ => some app

def detailKey : KeyCode → InputState
  | .esc | .char 'q' | .backspace => app.toMode .normal
  | .char 'd' => app.enterDeleteConfirm seen
  | .char 'm' => app.enterRenameMode seen
  | _ => app

def uploadingKey (control : Bool) : KeyCode → Except Exit InputState
  | .char 'c' => if control then .error .quit else .ok app
  | _ => .ok app

/-! ## The loop -/

def onKey (code : KeyCode) (control : Bool) : Except Exit InputState :=
  match app.inputMode with
  | .normal => app.normalKey seen control code
  | .search => .ok (app.searchKey code)
  | .pathBrowser => .ok (app.pathBrowserKey code)
  | .newDirInput => orPanic (app.newDirKey code)
  | .storeKey => orPanic (app.storeKeyKey seen code)
  | .fileBrowser => .ok (app.fileBrowserKey seen code)
  | .browserFilter => .ok (app.browserFilterKey code)
  | .uploadConfirm => .ok (app.uploadConfirmKey seen code)
  -- the marks are cleared or not
  | .clearMarksConfirm => .ok (app.toMode .fileBrowser)
  | .renameInput => orPanic (app.renameKey seen code)
  | .mkdirInput => orPanic (app.mkdirKey code)
  -- what is selected is deleted or not
  | .deleteConfirm | .deleteDirConfirm => .ok (app.toMode .normal)
  | .detail => .ok (app.detailKey seen code)
  | .uploading => app.uploadingKey control code

/-- An iteration of the loop of `run`. -/
def step : TerminalEvent → Except Exit InputState
  | .key code control => do
    let app ← app.onKey seen code control
    return app.drainUploadEvents seen
  | .mouse _ | .other => .ok (app.drainUploadEvents seen)

def run : List (Surroundings × TerminalEvent) → InputState → Except Exit InputState
  | [], app => .ok app
  | (seen, event) :: events, app => do run events (← app.step seen event)

end InputState

/-! ## Where the cursors are to be -/

/-- The cursor is in the text, at a boundary of its characters. -/
def TextField.OnBoundary (field : TextField) : Prop :=
  field.cursor ≤ field.text.utf8ByteSize ∧ IsBoundary field.text.toList field.cursor

/-- The input of the current mode, if it has one. -/
def InputState.current (app : InputState) : Option TextField :=
  match app.inputMode with
  | .storeKey => some app.storeKey
  | .newDirInput => some app.newDir
  | .renameInput => some app.rename
  | .mkdirInput => some app.mkdir
  | _ => none

end KaidaDB
