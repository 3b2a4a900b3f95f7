import KaidaDB.Storage.Listing

/-!
# Listing streams

`streaming::list_streams`: the ids of the streams that have keys among those the engine lists from the
cursor on, in the order of ids, as many as `limit`. The cursor of a next call lies behind the keys of
the last id. `followStreams` makes calls until there is no next cursor.
-/

namespace KaidaDB

open Std (ExtTreeMap)

/-- What `list_streams` reads of the configuration. -/
structure StreamingConfig where
  streamPrefix : String

structure StreamListItem where
  streamId : String
  variantCount : Nat
deriving DecidableEq, Repr

/-- The part of a key between the prefix and the next `/`. -/
def streamId? (streamPrefix key : String) : Option String :=
  let after := key.toList.drop streamPrefix.toList.length
  if startsWith key streamPrefix = true ∧ '/' ∈ after then
    some (String.ofList (after.takeWhile (· ≠ '/')))
  else none

/-- The loop over the manifests, which counts the keys of each stream. -/
def countStreams (streamPrefix : String) :
    List MediaManifest → ExtTreeMap String Nat → ExtTreeMap String Nat
  | [], streamIds => streamIds
  | manifest :: manifests, streamIds =>
    match streamId? streamPrefix manifest.key with
    | some id => countStreams streamPrefix manifests (streamIds.insert id (streamIds.getD id 0 + 1))
    | none => countStreams streamPrefix manifests streamIds

/-- The number of keys that `list_streams` asks the engine for. -/
def streamWindow : Nat := 100000

def listStreams (config : StreamingConfig) (filter : String) (limit : Nat) (cursor : String)
    (s : IndexState) : List StreamListItem × Option String :=
  let scanPrefix := if filter = "" then config.streamPrefix else config.streamPrefix ++ filter
  let manifests := (Index.listPage scanPrefix streamWindow cursor s).1
  let streamIds := countStreams config.streamPrefix manifests ∅
  let items := (streamIds.toList.take limit).map fun p => StreamListItem.mk p.1 p.2
  let nextCursor :=
    if items.length = limit then
      -- "0" is the character after "/": to skip past the entries of the last stream
      items.getLast?.map fun i => config.streamPrefix ++ i.streamId ++ "0"
    else none
  (items, nextCursor)

/-- The pages of calls without a filter that follow `next_cursor`; `none` if it takes more calls. -/
def followStreams (config : StreamingConfig) (limit : Nat) (s : IndexState) :
    Nat → String → Option (List (List StreamListItem))
  | 0, _ => none
  | calls + 1, cursor =>
    match listStreams config "" limit cursor s with
    | (items, none) => some [items]
    | (items, some next) => (followStreams config limit s calls next).map (items :: ·)

/-- The streams that have a key. -/
def IndexState.HasStream (config : StreamingConfig) (s : IndexState) (id : String) : Prop :=
  ∃ key, (s.manifests[key]?).isSome ∧ streamId? config.streamPrefix key = some id

end KaidaDB
