import KaidaDB.Concurrent.Proof.Files
import KaidaDB.Concurrent.Proof.Reader

/-!
# Calls that run one at a time

Where a call starts only when no other is in progress, at most one agent is not idle (`Solo.one`), so
nothing happens between finding that a chunk has no file and writing it, or between dropping the last
reference and removing the file (`Solo.ready`). No removal races.
-/

namespace KaidaDB

open Std Effects

variable {X : Crates}

def Agent.Idle (agent : Agent) : Prop := ∃ session, agent = .idle session

instance : (agent : Agent) → Decidable agent.Idle
  | .idle session => .isTrue ⟨session, rfl⟩
  | .writing .. | .checking .. | .creating .. | .referencing .. | .committing .. | .locking ..
  | .looking .. | .putting .. | .releasing .. | .unlinking .. | .deleting .. | .deleteLooking ..
  | .removing .. | .renameLocking .. | .renamingLocked .. | .renameLooking .. | .renameChecking ..
  | .moving .. | .removingOld .. => .isFalse fun ⟨_, h⟩ => by cases h

/-- What an agent has found out still holds. -/
def Agent.Ready (X : Crates) (s : Store) : Agent → Prop
  | .creating _ chunk _ => s.files[(ChunkId.fromData X chunk).toHex]? = none
  | .unlinking _ chunk _ => s.index.chunkLocations[chunk.toHex]? = none
  | _ => True

theorem Agent.Idle.ready {agent : Agent} (h : agent.Idle) (s : Store) : agent.Ready X s := by
  obtain ⟨session, rfl⟩ := h
  trivial

namespace Machine

instance (m : Machine) : Decidable m.Quiet :=
  decidable_of_iff (∀ p ∈ m.agents.toList, p.2.Idle)
    ⟨fun h a agent ha => h (a, agent) (ExtTreeMap.mem_toList_iff_getElem?_eq_some.2 ha),
      fun h p hp => h p.1 p.2 (ExtTreeMap.mem_toList_iff_getElem?_eq_some.1 hp)⟩

/-- A call starts when no other is in progress. -/
def OneAtATime (m : Machine) : Action → Prop
  | .advance _ | .tick _ => True
  | _ => m.Quiet

instance (m : Machine) : (action : Action) → Decidable (m.OneAtATime action)
  | .advance _ | .tick _ => .isTrue trivial
  | .begin .. | .write .. | .finish .. | .abort .. | .delete .. | .rename .. =>
    inferInstanceAs (Decidable m.Quiet)

/-- At most one agent is in a call. -/
structure Solo (X : Crates) (m : Machine) : Prop where
  one : ∀ {a b : Nat} {agent agent' : Agent}, m.agents[a]? = some agent → m.agents[b]? = some agent' →
    ¬ agent.Idle → ¬ agent'.Idle → a = b
  ready : ∀ {a : Nat} {agent : Agent}, m.agents[a]? = some agent → agent.Ready X m.store

variable {m m' : Machine} {a : Nat}

/-- One agent moves while all others are idle. -/
theorem Solo.of_onward (hothers : ∀ {b : Nat} {agent : Agent}, b ≠ a → m.agents[b]? = some agent →
    agent.Idle) (hon : Onward a (Agent.Ready X m'.store) m m') : m'.Solo X where
  one := by
    have hmoved : ∀ {b : Nat} {agent : Agent}, m'.agents[b]? = some agent → ¬ agent.Idle → b = a := by
      intro b agent hb hbusy
      by_contra hne
      have := hon b agent hb
      rw [if_neg hne] at this
      exact hbusy (hothers hne this)
    intro b c agent agent' hb hc hbusy hbusy'
    rw [hmoved hb hbusy, hmoved hc hbusy']
  ready := by
    intro b agent hb
    have := hon b agent hb
    split_ifs at this with hba
    · exact this
    · exact (hothers hba this).ready _

/-- From `m` to `m'` one agent has moved to where what it relies on holds. -/
def Moves (X : Crates) (a : Nat) (m m' : Machine) : Prop := Onward a (Agent.Ready X m'.store) m m'

namespace Moves

theorem become {new : Agent} (s : Store) (hnew : new.Ready X s) :
    Moves X a m (({ m with store := s } : Machine).become a new) := Onward.become s hnew

theorem stay {old : Agent} (s : Store) (ha : m.agents[a]? = some old) (hold : old.Ready X s) :
    Moves X a m { m with store := s } := Onward.refl fun agent hagent => by
  rw [ha] at hagent
  cases hagent
  exact hold

theorem leave (s : Store) (old : Agent) :
    Moves X a m (({ m with store := s } : Machine).leave a old) := Onward.leave s old

theorem resume (s : Store) (session : StoreSession) (next : Next) :
    Moves X a m (({ m with store := s } : Machine).resume a session next) := by
  cases next <;> exact become s trivial

theorem flush (session : StoreSession) (next : Next) : Moves X a m (m.flush a session next) := by
  unfold Machine.flush
  split_ifs
  · exact resume m.store session next
  · exact become m.store trivial

theorem flushFailed (s : Store) (session : StoreSession) (next : Next) :
    Moves X a m (({ m with store := s } : Machine).flushFailed a session next) := by
  cases next with
  | loop rest => exact become s trivial
  | commit =>
    intro b agent hb
    simp only [Machine.flushFailed, FinMap.get_erase] at hb
    split_ifs at hb with hba
    rw [if_neg (Ne.symm hba)]
    exact hb

theorem lock {old new : Agent} (ha : m.agents[a]? = some old) (hold : old.Ready X m.store)
    (hnew : new.Ready X m.store) (key : String) : Moves X a m (m.lock a key new) := by
  unfold Moves
  rw [show (m.lock a key new).store = m.store by unfold Machine.lock; split_ifs <;> rfl]
  exact Onward.lock ha hold hnew key

/-- Whether the operation succeeds or fails. -/
theorem exec {α : Type} {x : M α} {ok : Machine → α → Machine} {failed : Machine → Machine}
    (hok : ∀ s v, Moves X a m (ok { m with store := s } v))
    (hfailed : ∀ s, Moves X a m (failed { m with store := s })) : Moves X a m (m.exec x ok failed) := by
  unfold Machine.exec
  split
  · exact hok _ _
  · exact hfailed _

end Moves

section
variable (hm : m.store.attached = true) (hcalm : m.store.view.Calm)
include hm hcalm

theorem advance_moves {agent : Agent} (ha : m.agents[a]? = some agent)
    (hready : agent.Ready X m.store) : Moves X a m (m.advance X a agent) := by
  cases agent with
  | idle session => exact .stay m.store ha trivial
  | writing session rest =>
    simp only [advance]
    split_ifs
    · exact .become m.store trivial
    · exact .flush _ _
    · exact .become m.store trivial
  | checking session chunk next =>
    rw [advance]
    refine exec_of_does (P := Moves X a m) hm (does_chunkExists (X := X)) fun s hs hv => ?_
    have hfiles : s.files = m.store.files := congrArg View.files hv
    refine .become s ?_
    split_ifs with hfound
    · trivial
    · show s.files[(ChunkId.fromData X chunk).toHex]? = none
      rw [hfiles]
      simpa [show m.store.view.files = m.store.files from rfl] using hfound
  | creating session chunk next =>
    exact .exec (fun s _ => .become s trivial) fun s => .flushFailed s session next
  | referencing session chunk next =>
    exact .exec (fun s _ => .resume s _ next) fun s => .flushFailed s session next
  | committing session =>
    exact .exec (fun s _ => .become s trivial) fun s => .stay s ha trivial
  | locking session manifest => exact .lock ha hready (by trivial) _
  | looking session manifest =>
    exact .exec (fun s _ => .become s trivial) fun s => .leave s _
  | putting session manifest previous =>
    exact .exec (fun s _ => .become s trivial) fun s => .leave s _
  | releasing why chunks =>
    cases chunks with
    | nil =>
      cases why with
      | deleted key manifest => exact .become m.store trivial
      | _ => exact .leave m.store _
    | cons chunk chunks =>
      rw [advance]
      refine exec_of_does (P := Moves X a m) hm (does_decrement hcalm chunk) fun s hs hv => ?_
      refine .become s ?_
      split_ifs with hlast
      · show s.index.chunkLocations[chunk.toHex]? = none
        rw [show s.index = m.store.index.dropRef chunk from congrArg View.index hv,
          ← Option.not_isSome_iff_eq_none, dropRef_locations]
        exact fun h => h.2 ⟨hlast, rfl⟩
      · trivial
  | unlinking why chunk chunks =>
    refine .exec (fun s _ => .become s trivial) fun s => ?_
    cases why with
    | deleted key manifest => exact .leave s _
    | _ => exact .become s trivial
  | deleting key => exact .lock ha hready (by trivial) _
  | deleteLooking key =>
    refine .exec (fun s found => ?_) fun s => .leave s _
    cases found with
    | none => exact .leave s _
    | some manifest => exact .become s trivial
  | removing key manifest => exact .exec (fun s _ => .leave s _) fun s => .leave s _
  | renameLocking fromKey toKey => exact .lock ha hready (by trivial) _
  | renamingLocked fromKey toKey => exact .lock ha hready (by trivial) _
  | renameLooking fromKey toKey =>
    refine .exec (fun s found => ?_) fun s => .leave s _
    cases found with
    | none => exact .leave s _
    | some manifest => exact .become s trivial
  | renameChecking fromKey toKey manifest =>
    refine .exec (fun s found => ?_) fun s => .leave s _
    obtain ⟨found, now⟩ := found
    cases found with
    | some other => exact .leave s _
    | none => exact .become s trivial
  | moving fromKey toKey manifest =>
    exact .exec (fun s _ => .become s trivial) fun s => .leave s _
  | removingOld fromKey toKey manifest =>
    exact .exec (fun s _ => .leave s _) fun s => .leave s _

/-- **Each action keeps to one call.** -/
theorem Solo.step (h : m.Solo X) (action : Action) (hone : m.OneAtATime action) :
    (m.step X action).Solo X := by
  have hidle : ∀ {a : Nat} {call : StoreSession → Machine}, (∀ session, Moves X a m (call session)) →
      m.Quiet → (m.onIdle a call).Solo X := by
    intro a call hcall hquiet
    unfold Machine.onIdle
    split
    · exact .of_onward (fun _ hb => hquiet _ _ hb) (hcall _)
    · exact h
  have henter : ∀ {a : Nat} {call : Machine}, Moves X a m call → m.Quiet → (m.enter a call).Solo X := by
    intro a call hcall hquiet
    unfold Machine.enter
    split_ifs
    · exact h
    · exact .of_onward (fun _ hb => hquiet _ _ hb) hcall
  have hstay : ∀ (a : Nat) (s : Store), m.Quiet → Moves X a m { m with store := s } :=
    fun a s hquiet => Onward.refl fun agent ha => Agent.Idle.ready (hquiet a agent ha) _
  cases action with
  | begin a key contentType metadata =>
    refine henter ?_ hone
    exact .exec (fun s _ => .become s trivial) fun s => hstay a s hone
  | write a data =>
    refine hidle (fun session => ?_) hone
    split_ifs
    · exact hstay a m.store hone
    · exact .become m.store trivial
  | finish a => exact hidle (fun session => .flush session .commit) hone
  | abort a => exact hidle (fun session => .become m.store trivial) hone
  | delete a key => exact henter (.become m.store trivial) hone
  | rename a fromKey toKey =>
    refine henter (.exec (fun s _ => ?_) fun s => hstay a s hone) hone
    split_ifs
    · exact hstay a s hone
    · exact .become s trivial
  | advance a =>
    simp only [Machine.step]
    cases ha : m.agents[a]? with
    | none => exact h
    | some agent =>
      by_cases hbusy : agent.Idle
      · obtain ⟨session, rfl⟩ := hbusy
        exact h
      · refine .of_onward (a := a) (fun {b other} hne hb => ?_) (advance_moves hm hcalm ha (h.ready ha))
        by_contra hother
        exact hne (h.one hb ha hother hbusy)
  | tick now =>
    refine ⟨h.one, fun {b agent} hb => ?_⟩
    have hready := h.ready (show m.agents[b]? = some agent from hb)
    cases agent <;> exact hready

end

/-- A removal in the only call does not race. -/
theorem Solo.unraced (h : m.Solo X) (action : Action) : m.Unraced X action := by
  intro id hid
  obtain ⟨a, agent, ha, hdeed⟩ := deed_inv (show m.deed X action = _ from rfl) (by
    rintro hnothing
    rw [hnothing] at hid
    cases hid)
  have hunlinking : ∃ why chunks, agent = .unlinking why id chunks := by
    rw [← hdeed] at hid
    cases agent with
    | unlinking why chunk chunks =>
      cases hid
      exact ⟨why, chunks, rfl⟩
    | checking session chunk next =>
      simp only [Agent.deed] at hid
      split at hid <;> cases hid
    | releasing why chunks => cases chunks <;> cases hid
    | _ => cases hid
  obtain ⟨why, chunks, rfl⟩ := hunlinking
  refine ⟨Option.isNone_iff_eq_none.2 (h.ready ha), fun hin => ?_⟩
  obtain ⟨b, other, hb, hholding⟩ := inFlight_iff.1 hin
  have hbusy : ¬ other.Idle := by
    rintro ⟨session, rfl⟩
    cases hholding
  obtain rfl := h.one ha hb (by rintro ⟨session, hidle⟩; cases hidle) hbusy
  rw [ha] at hb
  cases hb
  cases hholding

end Machine

end KaidaDB
