import Mathlib.Data.String.Basic
import KaidaDB.Storage.World

/-!
# Listing manifests

`Index::list_manifests` walks over the keys from the cursor (or the prefix) on, up to the first key
without the prefix, and returns the last key of a full page as the next cursor. Rust orders strings by
their bytes, which is the order of their characters. `scan` follows `next_cursor`, each call on the
index as it then is.
-/

namespace KaidaDB

open Std

/-- `str::starts_with`. -/
def startsWith (s p : String) : Bool := s.toList.take p.toList.length = p.toList

namespace Index

/-- The loop of `list_manifests` over the entries from the start on. -/
def listLoop (keyPrefix : String) (limit : Nat) (cursor : String) :
    List (String × MediaManifest) → List MediaManifest → List MediaManifest × Option String
  | [], results => (results, none)
  | (key, manifest) :: rest, results =>
    -- stop if past the prefix
    if keyPrefix ≠ "" ∧ startsWith key keyPrefix = false then (results, none)
    -- skip the cursor key itself
    else if cursor ≠ "" ∧ key = cursor then listLoop keyPrefix limit cursor rest results
    else
      let results := results ++ [manifest]
      if limit ≤ results.length then (results, some key)
      else listLoop keyPrefix limit cursor rest results

/-- `BTreeMap::range(start..)`. -/
def rangeFrom (start : String) (manifests : ExtTreeMap String MediaManifest) :
    List (String × MediaManifest) :=
  manifests.toList.filter fun p => start ≤ p.1

def listPage (keyPrefix : String) (limit : Nat) (cursor : String) (s : IndexState) :
    List MediaManifest × Option String :=
  let start := if cursor = "" then keyPrefix else cursor
  listLoop keyPrefix limit cursor (rangeFrom start s.manifests) []

def listManifests (keyPrefix : String) (limit : Nat) (cursor : String) :
    M (List MediaManifest × Option String) := do
  return listPage keyPrefix limit cursor (← get).index

end Index

/-- The pages of calls that follow `next_cursor`, one on each of the states, and the cursor left over
when the states are used up: `none` once the scan has ended. -/
def scan (keyPrefix : String) (limit : Nat) :
    List IndexState → String → List (List MediaManifest) × Option String
  | [], cursor => ([], some cursor)
  | s :: states, cursor =>
    match Index.listPage keyPrefix limit cursor s with
    | (page, none) => ([page], none)
    | (page, some next) =>
      let (pages, last) := scan keyPrefix limit states next
      (page :: pages, last)

/-- The states of an index before and after each group of calls on its engine. -/
def World.states (X : Crates) : World → List (List Call) → List IndexState
  | w, [] => [w.store.index]
  | w, calls :: rest => w.store.index :: (w.run X calls).1.states X rest

end KaidaDB
