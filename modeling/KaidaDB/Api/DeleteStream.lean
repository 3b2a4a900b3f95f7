import KaidaDB.Api.Discovery

/-!
# Deleting a stream

`streaming::delete_stream` goes through the keys under a stream page by page and deletes each of them;
every page is listed after the keys of the one before are gone, from the last of these keys on.
-/

namespace KaidaDB

variable (X : Crates)

/-- The keys of one page: init segments are counted as variants, all others as segments. -/
def deletePage : List MediaManifest → Nat × Nat → M (Nat × Nat)
  | [], counts => pure counts
  | manifest :: manifests, (variantsDeleted, segmentsDeleted) => do
    let _ ← StorageEngine.delete X manifest.key
    deletePage manifests
      (if endsWith manifest.key "/init.mp4" then (variantsDeleted + 1, segmentsDeleted)
       else (variantsDeleted, segmentsDeleted + 1))

/-- The loop over the pages, for at most as many pages as the second argument. -/
def deletePages (keyPrefix : String) : Nat → String → Nat × Nat → M (Nat × Nat)
  | 0, _, _ => throw .diverges
  | pages + 1, cursor, counts => do
    let (manifests, nextCursor) ← Index.listManifests keyPrefix 1000 cursor
    if manifests.isEmpty then return counts
    let counts ← deletePage X manifests counts
    match nextCursor with
    | some c => deletePages keyPrefix pages c counts
    | none => return counts

/-- Delete all segments and variants for a stream; returns how many variants and segments. -/
def deleteStream (config : StreamingConfig) (streamId : String) (pages : Nat) : M (Nat × Nat) :=
  deletePages X (deletedPrefix config streamId) pages "" (0, 0)

end KaidaDB
