import Mathlib.Data.List.Infix
import KaidaDB.Api.Discovery
import KaidaDB.Lib.Replace

/-!
# Browsing in the terminal UI

The keys of the store are shown as a tree. `rebuild_browse_entries` makes the entries below the current
prefix from the items that match the search, `browse_into` and `browse_up` move the prefix, and
`execute_delete_directory` deletes what is below an entry. The conversion of texts to lower case is a
parameter.
-/

namespace KaidaDB

open Std (ExtTreeMap ExtTreeSet)

/-- What the browser reads of a `MediaMetadata`. -/
structure MediaItem where
  key : String
  contentType : String
  totalSize : Nat
deriving DecidableEq, Repr

structure BrowseEntry where
  name : String
  isDir : Bool
  fullKey : Option String
  itemCount : Nat
  size : Nat
deriving DecidableEq, Repr

/-- The fields of `App` for browsing. -/
structure BrowseState where
  items : List MediaItem
  filteredItems : List Nat
  searchQuery : String
  showHiddenFiles : Bool
  browsePrefix : String
  browseEntries : List BrowseEntry
  /-- The cursor at each prefix that has been left. -/
  browsePos : ExtTreeMap String Nat
  selected : Nat

/-- `str::contains`. -/
def containsStr (s p : String) : Bool := decide (p.toList <:+: s.toList)

/-! ## The entries -/

section
variable (showHidden : Bool) (browsePrefix : String)

/-- What an item adds to the directories and files. -/
def addEntry (found : ExtTreeSet String × List BrowseEntry) (item : MediaItem) :
    ExtTreeSet String × List BrowseEntry :=
  let file name := BrowseEntry.mk name false (some item.key) 0 item.totalSize
  if browsePrefix ≠ "" ∧ startsWith item.key browsePrefix = false then found
  else
    let suffix := item.key.toList.drop browsePrefix.toList.length
    if suffix = [] then found
    else if '/' ∈ suffix then
      let dirName := String.ofList (suffix.takeWhile (· ≠ '/'))
      if showHidden = false ∧ startsWith dirName "." = true then found
      else (found.1.insert dirName, found.2)
    else if suffix ≠ ".kaidadb_dir".toList then
      if showHidden = false ∧ startsWith (String.ofList suffix) "." = true then found
      else (found.1, found.2 ++ [file (String.ofList suffix)])
    else if showHidden = true then (found.1, found.2 ++ [file (String.ofList suffix)])
    else found

/-- The entries of the items below the prefix: directories in order, then files by lower-case name. -/
def entriesOf (lower : String → String) (items : List MediaItem) : List BrowseEntry :=
  let (dirs, files) := items.foldl (addEntry showHidden browsePrefix) (∅, [])
  dirs.toList.map (fun dirName =>
      let dirPrefix := browsePrefix ++ dirName ++ "/"
      { name := dirName
        isDir := true
        fullKey := none
        itemCount := (items.filter fun item => startsWith item.key dirPrefix).length
        size := 0 }) ++
    files.mergeSort fun a b => lower a.name ≤ lower b.name

end

namespace BrowseState

/-- The filtered items. -/
def visible (b : BrowseState) : List MediaItem := b.filteredItems.filterMap (b.items[·]?)

def rebuildBrowseEntries (lower : String → String) (b : BrowseState) : BrowseState :=
  let entries := entriesOf b.showHiddenFiles b.browsePrefix lower b.visible
  { b with
    browseEntries := entries
    selected := if entries.length ≤ b.selected then entries.length - 1 else b.selected }

end BrowseState

/-- The item has the query in its key or content type. -/
def MediaItem.matchesQuery (lower : String → String) (query : String) (item : MediaItem) : Bool :=
  query = "" || (containsStr (lower item.key) (lower query) ||
    containsStr (lower item.contentType) (lower query))

/-- The indices of the items that match the search. -/
def filterItems (lower : String → String) (query : String) (items : List MediaItem) : List Nat :=
  if query = "" then List.range items.length
  else (items.zipIdx.filter fun p => p.1.matchesQuery lower query).map Prod.snd

namespace BrowseState

def applyFilter (lower : String → String) (b : BrowseState) : BrowseState :=
  { b with filteredItems := filterItems lower b.searchQuery b.items }.rebuildBrowseEntries lower

def selectedBrowseEntry (b : BrowseState) : Option BrowseEntry := b.browseEntries[b.selected]?

/-! ## Moving -/

def next (b : BrowseState) : BrowseState :=
  if b.browseEntries = [] then b
  else { b with selected := min (b.selected + 1) (b.browseEntries.length - 1) }

def previous (b : BrowseState) : BrowseState := { b with selected := b.selected - 1 }

def first (b : BrowseState) : BrowseState := { b with selected := 0 }

def last (b : BrowseState) : BrowseState :=
  if b.browseEntries = [] then b else { b with selected := b.browseEntries.length - 1 }

def browseInto (lower : String → String) (b : BrowseState) : BrowseState :=
  match b.selectedBrowseEntry with
  | none => b
  | some entry =>
    if entry.isDir then
      -- remember where we were so going back lands on this directory
      let browsePos := b.browsePos.insert b.browsePrefix b.selected
      let browsePrefix := b.browsePrefix ++ entry.name ++ "/"
      { b with browsePos, browsePrefix, selected := browsePos.getD browsePrefix 0
        }.rebuildBrowseEntries lower
    else b

/-- The prefix that `browse_up` goes to. -/
def parentPrefix (browsePrefix : String) : String :=
  let trimmed := (trimEndSlashes browsePrefix).toList
  match Replace.rfind? ['/'] trimmed with
  | some pos => String.ofList (trimmed.take (pos + 1))
  | none => ""

def browseUp (lower : String → String) (b : BrowseState) : BrowseState :=
  if b.browsePrefix = "" then b
  else
    let browsePos := b.browsePos.insert b.browsePrefix b.selected
    let browsePrefix := parentPrefix b.browsePrefix
    -- restore the cursor to the directory we just came out of
    { b with browsePos, browsePrefix, selected := browsePos.getD browsePrefix 0
      }.rebuildBrowseEntries lower

def toggleHiddenFiles (lower : String → String) (b : BrowseState) : BrowseState :=
  { b with showHiddenFiles := !b.showHiddenFiles }.rebuildBrowseEntries lower

/-- `refresh_media_list` with the items it gets. -/
def refresh (lower : String → String) (items : List MediaItem) (b : BrowseState) : BrowseState :=
  { b with items }.applyFilter lower

def search (lower : String → String) (query : String) (b : BrowseState) : BrowseState :=
  { b with searchQuery := query }.applyFilter lower

/-! ## Deleting a directory -/

def selectedDirPrefix (b : BrowseState) : Option String :=
  b.selectedBrowseEntry.bind fun entry =>
    if entry.isDir then some (b.browsePrefix ++ entry.name ++ "/") else none

/-- The prefix and the number of items that `draw_delete_dir_confirm` shows. -/
def announced (b : BrowseState) : String × Nat :=
  match b.selectedBrowseEntry.filter BrowseEntry.isDir with
  | some entry => (b.browsePrefix ++ entry.name ++ "/", entry.itemCount)
  | none => ("?", 0)

/-- The items that are counted in the entry of a directory. -/
def countedItems (b : BrowseState) (dirPrefix : String) : List MediaItem :=
  b.visible.filter fun item => startsWith item.key dirPrefix

/-- The keys that `execute_delete_directory` asks the server to delete. -/
def deleteRequests (b : BrowseState) : List String :=
  match b.selectedDirPrefix with
  | some dirPrefix => (b.items.filter fun item => startsWith item.key dirPrefix).map MediaItem.key
  | none => []

end BrowseState

/-- What the user does while browsing. -/
inductive BrowseAct where
  | next
  | previous
  | first
  | last
  | browseInto
  | browseUp
  | toggleHiddenFiles
  | refresh (items : List MediaItem)
  | search (query : String)

def BrowseState.act (lower : String → String) (b : BrowseState) : BrowseAct → BrowseState
  | .next => b.next
  | .previous => b.previous
  | .first => b.first
  | .last => b.last
  | .browseInto => b.browseInto lower
  | .browseUp => b.browseUp lower
  | .toggleHiddenFiles => b.toggleHiddenFiles lower
  | .refresh items => b.refresh lower items
  | .search query => b.search lower query

/-- `App::new`. -/
def BrowseState.new : BrowseState :=
  ⟨[], [], "", false, "", [], ∅, 0⟩

end KaidaDB
