import KaidaDB.Storage.World

/-!
# What the engine is for

An object store is a map from keys to byte strings. `Spec` is that map together with the bytes each
open upload has received; its calls are those of `World`, with the answers a caller relies on:
what a read returns, whether a delete found something, and every failure. Nothing of chunks,
references or files is left in it, so `gc`, `compact` and the clock do nothing.
-/

namespace KaidaDB

open Std

/-- An upload: where it goes, how long it may get and what it has received. -/
structure Upload where
  key : String
  limit : Nat
  bytes : Bytes
deriving DecidableEq, Repr

/-- A reply without what depends on the clock and on the chunk files. -/
inductive Answer where
  | stored (key : String)
  | done
  | bytes (data : Bytes)
  | deleted (found : Bool)
  | failed (e : Fail)
  | badHandle
deriving DecidableEq, Repr

def Reply.answer : Reply → Answer
  | .manifest m => .stored m.key
  | .done => .done
  | .bytes data => .bytes data
  | .deleted found => .deleted found
  | .report _ => .done
  | .failed e => .failed e
  | .badHandle => .badHandle

structure Spec where
  engine : StorageEngine
  objects : ExtTreeMap String Bytes
  uploads : ExtTreeMap Nat Upload

namespace Spec

/-- An upload may begin: the key is valid, and a buffer of one chunk can be allocated. -/
def mayBegin (engine : StorageEngine) (key : String) : Except Fail Unit :=
  match validateKey key with
  | .error e => .error e
  | .ok () =>
    if isizeMax < engine.chunkSize then .error (.panic "capacity overflow") else .ok ()

/-- The upload may take the data. -/
def mayWrite (limit : Nat) (received data : Bytes) : Except Fail Unit :=
  if limit ≠ 0 ∧ limit < received.length + data.length then
    .error (.error (.tooLarge s!"object exceeds max_object_size of {limit} bytes"))
  else .ok ()

/-- The rename may take place. -/
def mayRename (objects : ExtTreeMap String Bytes) (fromKey toKey : String) : Except Fail Bytes :=
  match validateKey toKey with
  | .error e => .error e
  | .ok () =>
    if fromKey = toKey then
      .error (.error (.invalidKey "source and destination keys are the same"))
    else
      match objects[fromKey]? with
      | none => .error (.error (.notFound fromKey))
      | some data =>
        if (objects[toKey]?).isSome then .error (.error (.alreadyExists toKey)) else .ok data

def step (s : Spec) : Call → Spec × Answer
  | .store key data _ _ =>
    match mayBegin s.engine key, mayWrite s.engine.maxObjectSize [] data with
    | .error e, _ => (s, .failed e)
    | .ok (), .error e => (s, .failed e)
    | .ok (), .ok () => ({ s with objects := s.objects.insert key data }, .stored key)
  | .begin handle key _ _ =>
    if s.uploads.contains handle then (s, .badHandle)
    else
      match mayBegin s.engine key with
      | .error e => (s, .failed e)
      | .ok () => ({ s with
          uploads := s.uploads.insert handle ⟨key, s.engine.maxObjectSize, []⟩ }, .done)
  | .write handle data =>
    match s.uploads[handle]? with
    | none => (s, .badHandle)
    | some u =>
      match mayWrite u.limit u.bytes data with
      | .error e => (s, .failed e)
      | .ok () => ({ s with
          uploads := s.uploads.insert handle { u with bytes := u.bytes ++ data } }, .done)
  | .finish handle =>
    match s.uploads[handle]? with
    | none => (s, .badHandle)
    | some u => ({ s with
        objects := s.objects.insert u.key u.bytes, uploads := s.uploads.erase handle },
        .stored u.key)
  | .abort handle | .drop handle =>
    if s.uploads.contains handle then ({ s with uploads := s.uploads.erase handle }, .done)
    else (s, .badHandle)
  | .read key =>
    match s.objects[key]? with
    | none => (s, .failed (.error (.notFound key)))
    | some data => (s, .bytes data)
  | .delete key => ({ s with objects := s.objects.erase key }, .deleted (s.objects[key]?).isSome)
  | .rename fromKey toKey =>
    match mayRename s.objects fromKey toKey with
    | .error e => (s, .failed e)
    | .ok data => ({ s with objects := (s.objects.insert toKey data).erase fromKey }, .stored toKey)
  | .reopen engine _ => (⟨engine, s.objects, ∅⟩, .done)
  | .gc _ | .compact | .tick _ => (s, .done)

def run : Spec → List Call → Spec × List Answer
  | s, [] => (s, [])
  | s, call :: calls =>
    let (s1, answer) := s.step call
    let (s2, answers) := s1.run calls
    (s2, answer :: answers)

/-- All that the object which a call adds to has received with it. -/
def received (s : Spec) : Call → Bytes
  | .store _ data _ _ => data
  | .write handle data =>
    match s.uploads[handle]? with
    | none => []
    | some u => u.bytes ++ data
  | _ => []

theorem received_write {s : Spec} {handle : Nat} {u : Upload} (h : s.uploads[handle]? = some u)
    (data : Bytes) : s.received (.write handle data) = u.bytes ++ data := by
  rw [received, h]

/-- What the objects have received, call by call. -/
def receivedIn : Spec → List Call → List Bytes
  | _, [] => []
  | s, call :: calls => s.received call :: (s.step call).1.receivedIn calls

theorem receivedIn_append : ∀ (calls more : List Call) (s : Spec),
    s.receivedIn (calls ++ more) = s.receivedIn calls ++ (s.run calls).1.receivedIn more
  | [], _, _ => rfl
  | call :: calls, more, s =>
    congrArg (s.received call :: ·) (receivedIn_append calls more (s.step call).1)

/-- No objects and no uploads. -/
def fresh (engine : StorageEngine) : Spec := ⟨engine, ∅, ∅⟩

end Spec

/-- The contiguous pieces of some texts. A chunk is a piece of the object it is part of. -/
def pieces (texts : List Bytes) : Set Bytes := {d | ∃ b ∈ texts, d <:+: b}

theorem pieces_mono {texts more : List Bytes} (h : texts ⊆ more) : pieces texts ⊆ pieces more :=
  fun _ ⟨b, hb, hp⟩ => ⟨b, h hb, hp⟩

/-- No two different pieces of what an object receives in the run have the same SHA-256. -/
def CollisionFree (X : Crates) (engine : StorageEngine) (calls : List Call) : Prop :=
  Set.InjOn X.sha256 (pieces ((Spec.fresh engine).receivedIn calls))

end KaidaDB
