import KaidaDB.Api.Upload
import KaidaDB.Storage.SingleFault

/-!
# Uploads by any caller

`UploadCall`: an object is stored by a caller of the engine with `store_with_metadata`, or by a client
through one of the two handlers. `UploadCall.guarded` counts the pieces for which a failed operation
does not leave references behind: the handlers abort a session that fails in `write`, where the
pieces of full size are flushed, and nobody aborts one that fails in `finish`, nor one that
`store_with_metadata` has opened; but as long as no piece has been flushed there is nothing to leave.
-/

namespace KaidaDB

variable (X : Crates)

inductive UploadCall where
  | store (key : String) (data : Bytes) (contentType : String) (metadata : List (String × String))
  | request (request : UploadRequest)

namespace UploadCall

/-- What is to be stored; a request may be answered without that. -/
def job : UploadCall → Option Upload.Job
  | store key data contentType metadata => some ⟨key, contentType, metadata, [data]⟩
  | request r => r.job

def run (engine : StorageEngine) : UploadCall → M Unit
  | store key data contentType metadata =>
    discard (engine.storeWithMetadata X key data contentType metadata)
  | request r => r.run X engine

/-- What `store_with_metadata` or the worker returns. -/
def returned (engine : StorageEngine) (s : Store) : UploadCall → Option (Except Fail MediaManifest)
  | store key data contentType metadata =>
    some (Effects.returned (engine.storeWithMetadata X key data contentType metadata s))
  | request r => r.job.map fun job => Effects.returned (uploadWorker X engine job r.ending s)

/-- See above; `d` are the bytes of the object. -/
def guarded (engine : StorageEngine) (d : Bytes) : UploadCall → Nat
  | store .. => 1
  | request _ => max 1 (d.length / engine.chunkSize)

end UploadCall

/-- The world when the upload has ended. -/
def World.uploaded (w : World) (u : UploadCall) : World :=
  { w with store := storeAfter (u.run X w.engine w.store) }

end KaidaDB
