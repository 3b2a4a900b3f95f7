import Mathlib.Algebra.BigOperators.Group.List.Basic
import Mathlib.Algebra.GroupWithZero.Nat
import Mathlib.Algebra.Order.Monoid.Defs
import Mathlib.Data.List.Pairwise

/-!
# Uploads of the terminal UI

`run_upload_worker` uploads the pending files one after the other and tells the UI of its progress by
events; `drain_upload_events` turns them into the counters from which `upload_overall_sent` is shown.
A `Batch` is what the worker makes of a list of pending files: how the upload of each one goes
(`Attempt`) and, if the user cancels, where in a file that happens.
-/

namespace KaidaDB

inductive UploadEvent where
  | started (key : String) (totalBytes : Nat)
  | chunkSent (bytesSent : Nat)
  | fileCompleted
  | fileFailed (key error : String)
  | finished
deriving DecidableEq, Repr

/-! ## The worker -/

/-- The bytes of a message. -/
def uploadChunkSize : Nat := 2 * 1024 * 1024

/-- What has been sent with the header and with each of the chunks of a file. -/
def runningCounts (totalBytes : Nat) : List Nat :=
  0 :: (List.range ((totalBytes + uploadChunkSize - 1) / uploadChunkSize)).map fun i =>
    min ((i + 1) * uploadChunkSize) totalBytes

/-- A file that has been read, with the counts of the messages taken so far by the call. -/
structure Transfer where
  totalBytes : Nat
  counts : List Nat
  le : ∀ n ∈ counts, n ≤ totalBytes
  increasing : counts.Pairwise (· ≤ ·)

theorem runningCounts_le {totalBytes n : Nat} (h : n ∈ runningCounts totalBytes) : n ≤ totalBytes := by
  rcases List.mem_cons.1 h with rfl | h
  · exact Nat.zero_le _
  · obtain ⟨i, -, rfl⟩ := List.mem_map.1 h
    exact Nat.min_le_right _ _

theorem runningCounts_increasing (totalBytes : Nat) :
    (runningCounts totalBytes).Pairwise (· ≤ ·) := by
  refine List.pairwise_cons.2 ⟨fun n _ => Nat.zero_le n, List.pairwise_map.2 ?_⟩
  refine List.pairwise_lt_range.imp fun {i j} hij => ?_
  have hmul : (i + 1) * uploadChunkSize ≤ (j + 1) * uploadChunkSize :=
    Nat.mul_le_mul_right _ (by omega)
  omega

/-- A file of which so many messages have been taken. -/
def Transfer.ofFile (totalBytes taken : Nat) : Transfer where
  totalBytes
  counts := (runningCounts totalBytes).take taken
  le _ h := runningCounts_le (List.mem_of_mem_take h)
  increasing := (runningCounts_increasing totalBytes).sublist (List.take_sublist _ _)

/-- How the upload of a file goes. -/
inductive Attempt where
  /-- The file cannot be read. -/
  | unreadable (error : String)
  | completed (transfer : Transfer)
  | failed (transfer : Transfer) (error : String)

/-- What is known about a file when its upload is over. -/
def Attempt.totalBytes : Attempt → Nat
  | unreadable _ => 0
  | completed transfer | failed transfer _ => transfer.totalBytes

def Transfer.events (key : String) (transfer : Transfer) : List UploadEvent :=
  .started key transfer.totalBytes :: transfer.counts.map .chunkSent

def Attempt.events (key : String) : Attempt → List UploadEvent
  | unreadable error => [.started key 0, .fileFailed key error]
  | completed transfer => transfer.events key ++ [.fileCompleted]
  | failed transfer error => transfer.events key ++ [.fileFailed key error]

/-- What the worker makes of the pending files: those it is done with, and the one in which it is
cancelled, if any. -/
structure Batch where
  files : List (String × Attempt)
  cancelled : Option (String × Transfer)

/-- What `run_upload_worker` sends. -/
def Batch.events (batch : Batch) : List UploadEvent :=
  batch.files.flatMap (fun file => file.2.events file.1) ++
    batch.cancelled.elim [] (fun file => file.2.events file.1) ++ [.finished]

/-! ## The counters -/

inductive InputMode where
  | normal
  | search
  | pathBrowser
  | newDirInput
  | storeKey
  | fileBrowser
  | browserFilter
  | uploadConfirm
  | clearMarksConfirm
  | deleteConfirm
  | deleteDirConfirm
  | detail
  | renameInput
  | mkdirInput
  | uploading
deriving DecidableEq, Repr

/-- The fields of `App` for an upload. -/
structure UploadState where
  total : Nat
  current : Nat
  successes : Nat
  errors : List String
  uploading : Bool
  currentKey : String
  currentBytesSent : Nat
  currentBytesTotal : Nat
  totalBytes : Nat
  doneBytes : Nat
  needsRefresh : Bool
  statusMessage : String
  inputMode : InputMode
deriving DecidableEq, Repr

namespace UploadState

variable (s : UploadState)

/-- `App::new`. -/
def new : UploadState where
  total := 0
  current := 0
  successes := 0
  errors := []
  uploading := false
  currentKey := ""
  currentBytesSent := 0
  currentBytesTotal := 0
  totalBytes := 0
  doneBytes := 0
  needsRefresh := false
  statusMessage := "Connecting..."
  inputMode := .normal

/-- `begin_upload` with a client, for files of these sizes. -/
def beginUpload (sizes : List Nat) : UploadState :=
  { s with
    total := sizes.length
    current := 0
    successes := 0
    errors := []
    totalBytes := sizes.sum
    doneBytes := 0
    uploading := true
    inputMode := .uploading }

/-- The body of the loop of `drain_upload_events`. -/
def onEvent : UploadEvent → UploadState
  | .started key totalBytes =>
    { s with
      current := s.current + 1
      currentKey := key
      currentBytesSent := 0
      currentBytesTotal := totalBytes
      statusMessage := s!"Uploading {s.current + 1}/{s.total}: {key}" }
  | .chunkSent bytesSent => { s with currentBytesSent := bytesSent }
  | .fileCompleted =>
    { s with
      successes := s.successes + 1
      currentBytesSent := s.currentBytesTotal
      doneBytes := s.doneBytes + s.currentBytesTotal }
  | .fileFailed key error =>
    { s with
      errors := s.errors ++ [s!"{key}: {error}"]
      doneBytes := s.doneBytes + s.currentBytesTotal }
  | .finished => s

/-- What follows the loop when the worker has finished. -/
def finish : UploadState :=
  { s with
    uploading := false
    statusMessage :=
      if s.successes + s.errors.length < s.total then
        s!"Upload cancelled ({s.successes}/{s.total} completed, {s.errors.length} errors)"
      else if s.errors.length = 0 then s!"Uploaded {s.successes} files"
      else s!"Uploaded {s.successes}/{s.total} files ({s.errors.length} errors)"
    inputMode := .normal
    needsRefresh := true }

/-- `drain_upload_events` with these events in the channel, which may be closed. -/
def drainUploadEvents (closed : Bool) : List UploadEvent → UploadState → UploadState
  | [], s => if closed then s.finish else s
  | .finished :: _, s => s.finish
  | event :: events, s => drainUploadEvents closed events (s.onEvent event)

/-- Total bytes sent across the whole batch so far. -/
def overallSent : Nat := s.doneBytes + s.currentBytesSent

/-- Whole-batch completion percentage. -/
def overallPct : Nat :=
  if s.totalBytes = 0 then 0 else min s.overallSent s.totalBytes * 100 / s.totalBytes

end UploadState

/-! ## What the progress is to be -/

/-- The bytes of the files that have been started. -/
def startedBytes (events : List UploadEvent) : Nat :=
  (events.map fun
    | .started _ totalBytes => totalBytes
    | _ => 0).sum

/-- After every prefix of the events what is shown as sent is no more than the files started so far
have, and no event makes it less. -/
structure UploadState.Truthful (s : UploadState) (events : List UploadEvent) : Prop where
  bounded : ∀ seen, seen <+: events →
    (s.drainUploadEvents false seen).overallSent ≤ startedBytes seen
  increasing : ∀ seen event, seen ++ [event] <+: events →
    (s.drainUploadEvents false seen).overallSent ≤
      (s.drainUploadEvents false (seen ++ [event])).overallSent

/-- The upload is over without anything counted as sent. -/
def Attempt.Silent : Attempt → Prop
  | unreadable _ => True
  | completed transfer => transfer.totalBytes = 0
  | failed transfer _ => ∀ n ∈ transfer.counts, n = 0

instance : (attempt : Attempt) → Decidable attempt.Silent
  | .unreadable _ => .isTrue trivial
  | .completed transfer => inferInstanceAs (Decidable (transfer.totalBytes = 0))
  | .failed transfer _ => inferInstanceAs (Decidable (∀ n ∈ transfer.counts, n = 0))

end KaidaDB
