import Mathlib.Data.Set.Card
import KaidaDB.Tui.Browse

/-!
# The tree of keys

With hidden files shown and no search, the browser is to show a tree: every key is a file at one prefix,
the count of a directory is the number of the files below it, and going up leads back to where one went
in.
-/

namespace KaidaDB

namespace BrowseAct

/-- Moving the cursor or into a directory. -/
def Descends : BrowseAct → Prop
  | next | previous | first | last | browseInto => True
  | browseUp | toggleHiddenFiles | refresh _ | search _ => False

/-- Moving also up. -/
def Navigates : BrowseAct → Prop
  | browseUp => True
  | a => a.Descends

end BrowseAct

namespace BrowseState

variable (lower : String → String)

/-- A view at the top, with hidden files and without a search. -/
structure AtRoot (b : BrowseState) : Prop where
  view : b.applyFilter lower = b
  searchQuery : b.searchQuery = ""
  showHiddenFiles : b.showHiddenFiles = true
  browsePrefix : b.browsePrefix = ""

/-- The other view is reached by acts of a kind. -/
def Reaches (kind : BrowseAct → Prop) (b c : BrowseState) : Prop :=
  ∃ acts : List BrowseAct, (∀ a ∈ acts, kind a) ∧ acts.foldl (BrowseState.act lower) b = c

/-- There is a file entry for the key. -/
def ShowsFile (b : BrowseState) (key : String) : Prop :=
  ∃ e ∈ b.browseEntries, e.isDir = false ∧ e.fullKey = some key

/-- Every key is a file at exactly one prefix. -/
def ShowsEachOnce (b : BrowseState) : Prop :=
  ∀ item ∈ b.items, ∃! p, ∃ c, b.Reaches lower BrowseAct.Descends c ∧ c.browsePrefix = p ∧
    c.ShowsFile item.key

/-- The count of a directory is that of the files below it. -/
def CountsFiles (b : BrowseState) : Prop :=
  ∀ c, b.Reaches lower BrowseAct.Descends c → ∀ e ∈ c.browseEntries, e.isDir = true →
    e.itemCount = Set.ncard {key | ∃ d, c.Reaches lower BrowseAct.Descends d ∧
      startsWith d.browsePrefix (c.browsePrefix ++ e.name ++ "/") = true ∧ d.ShowsFile key}

/-- Going up after going in leads back. -/
def UpUndoesInto (b : BrowseState) : Prop :=
  ∀ c, b.Reaches lower BrowseAct.Navigates c → ∀ e, c.selectedBrowseEntry = some e →
    e.isDir = true →
    let back := (c.browseInto lower).browseUp lower
    back.browsePrefix = c.browsePrefix ∧ back.selectedBrowseEntry = some e

end BrowseState

end KaidaDB
