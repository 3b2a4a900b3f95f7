import KaidaDB.Api.Discovery

/-!
# Counting variants

`variant_count` of a listed stream is documented as the number of its variants, which discovery tells
apart by their init segments. `list_streams` gets it by counting the keys that one call lists.
-/

namespace KaidaDB

/-- Under the prefix are only the init and media segments of variants. -/
def IndexState.LaidOut (config : StreamingConfig) (s : IndexState) : Prop :=
  ∀ key, (s.manifests[key]?).isSome → startsWith key config.streamPrefix = true →
    ∃ streamId variantId, '/' ∉ streamId.toList ∧ '/' ∉ variantId.toList ∧
      (key = documentedInit config streamId variantId ∨
        startsWith key (documentedSegments config streamId variantId) = true)

/-- The variants of a stream that have an init segment. -/
def IndexState.variants (config : StreamingConfig) (s : IndexState) (streamId : String) : Set String :=
  {v | '/' ∉ v.toList ∧ (s.manifests[documentedInit config streamId v]?).isSome}

/-- The key is that of an init segment of the stream. -/
def isInitOf (config : StreamingConfig) (streamId key : String) : Bool :=
  (variantId? (documentedVariants config streamId) key).any fun v => '/' ∉ v.toList

/-- The keys that one call of `list_streams` goes through: from the cursor (or the prefix) on, up to the
first one without the prefix, and no more than the engine lists. -/
def listedKeys (config : StreamingConfig) (filter cursor : String) (s : IndexState) : List String :=
  let scanPrefix := if filter = "" then config.streamPrefix else config.streamPrefix ++ filter
  let start := if cursor = "" then scanPrefix else cursor
  let found := ((s.manifests.toList.map Prod.fst).filter (start ≤ ·)).takeWhile (startsWith · scanPrefix)
  (found.filter fun key => cursor = "" ∨ key ≠ cursor).take streamWindow

/-- The listed keys of a stream that are no init segments of it. -/
def listedOthers (config : StreamingConfig) (filter cursor : String) (s : IndexState)
    (streamId : String) : Nat :=
  (listedKeys config filter cursor s).countP fun key =>
    streamId? config.streamPrefix key = some streamId ∧ isInitOf config streamId key = false

/-- The init segments of a stream that are not listed. -/
def unlistedInits (config : StreamingConfig) (filter cursor : String) (s : IndexState)
    (streamId : String) : Nat :=
  ((s.manifests.toList.map Prod.fst).filter (· ∉ listedKeys config filter cursor s)).countP
    (isInitOf config streamId)

end KaidaDB
