import KaidaDB.Concurrent.Machine
import KaidaDB.Lib.Linearizable
import KaidaDB.Storage.Spec

/-!
# What clients see of calls running at the same time

The history of a run of the machine has the calls that its actions make and what the calls return. `marks`
has besides where a call takes effect: an upload when its manifest is put, a removal when the manifest is
removed, a rename when the one under the old key is removed, and each of them where it finds out that it
cannot be done.
-/

namespace KaidaDB

open Linearizable

variable (X : Crates)

/-- The sequential object store. -/
def Spec.object : Object Spec Call Answer := ⟨Spec.step⟩

/-- A call takes effect and returns. -/
def returning (a : Nat) (answer : Answer) : List (Mark Nat Call Answer) :=
  [.effect a answer, .event (.respond a answer)]

/-- What the next step of an agent is in the history. -/
def Agent.marks (s : Store) (a : Nat) : Agent → List (Mark Nat Call Answer)
  | .writing _ [] => [.event (.respond a .done)]
  | .putting _ manifest _ => [.effect a (.stored manifest.key)]
  | .releasing (.replaced key) [] => [.event (.respond a (.stored key))]
  | .releasing .aborted [] => [.event (.respond a .done)]
  | .deleteLooking key =>
    if s.index.manifests.contains key then [] else returning a (.deleted false)
  | .removing _ _ => returning a (.deleted true)
  | .renameLooking fromKey _ =>
    if s.index.manifests.contains fromKey then []
    else returning a (.failed (.error (.notFound fromKey)))
  | .renameChecking _ toKey _ =>
    if s.index.manifests.contains toKey then returning a (.failed (.error (.alreadyExists toKey)))
    else []
  | .removingOld _ toKey _ => returning a (.stored toKey)
  | _ => []

namespace Machine

/-- What `begin_store` returns. -/
def began (m : Machine) (key contentType : String) (metadata : List (String × String)) : Answer :=
  match m.engine.beginStore key contentType metadata m.store with
  | .ok _ _ => .done
  | .error e _ => .failed e

/-- What an action is in the history; nothing if it is not possible. -/
def marks (m : Machine) : Action → List (Mark Nat Call Answer)
  | .begin a key contentType metadata =>
    if m.agents.contains a then []
    else .event (.invoke a (.begin a key contentType metadata)) ::
      returning a (m.began key contentType metadata)
  | .write a data =>
    match m.agents[a]? with
    | some (.idle session) =>
      if session.maxObjectSize ≠ 0 ∧ session.maxObjectSize < session.bytesWritten + data.length then
        .event (.invoke a (.write a data)) :: returning a (.failed (.error (.tooLarge
          s!"object exceeds max_object_size of {session.maxObjectSize} bytes")))
      else [.event (.invoke a (.write a data)), .effect a .done]
    | _ => []
  | .finish a =>
    match m.agents[a]? with
    | some (.idle _) => [.event (.invoke a (.finish a))]
    | _ => []
  | .abort a =>
    match m.agents[a]? with
    | some (.idle _) => [.event (.invoke a (.abort a)), .effect a .done]
    | _ => []
  | .delete a key => if m.agents.contains a then [] else [.event (.invoke a (.delete key))]
  | .rename a fromKey toKey =>
    if m.agents.contains a then []
    else .event (.invoke a (.rename fromKey toKey)) ::
      match validateKey toKey with
      | .error e => returning a (.failed e)
      | .ok () =>
        if fromKey = toKey then
          returning a (.failed (.error (.invalidKey "source and destination keys are the same")))
        else []
  | .advance a => (m.agents[a]?).elim [] (Agent.marks m.store a)
  | .tick _ => []

/-- The marks of a run. -/
def trace (m : Machine) : List Action → List (Mark Nat Call Answer)
  | [] => []
  | action :: actions => m.marks action ++ (m.step X action).trace actions

/-- The calls of a run and their returns. -/
def history (m : Machine) (actions : List Action) : List (Event Nat Call Answer) :=
  (m.trace X actions).filterMap Mark.event?

end Machine

end KaidaDB
