import Mathlib.Logic.Function.Basic
import Mathlib.Order.WellFoundedSet

/-!
# Locks taken in an order

A `Prog` is what a thread does as far as others can notice: it takes and releases locks, waiting
until they are free, tries locks without waiting, and asks for data that it shares with others (`ask`),
on whose answer its further course depends. In a `System` any number of threads run such programs, a
step of one thread at a time. A `Deadlock` is a set of threads each of which waits for a lock that one
of the set holds. If every program takes its locks in a strict order and releases them last first
(`Orderly`), no reachable state has one (`no_deadlock`).
-/

namespace LockOrder

/-- A program that takes locks in `L` and asks questions in `Q`. -/
inductive Prog (L Q α : Type) where
  | pure (a : α)
  /-- Waits until the lock is free, or taken by shared holders only where `shared`. -/
  | acquire (shared : Bool) (lock : L) (rest : Prog L Q α)
  /-- Takes the lock if it is free. -/
  | attempt (lock : L) (rest : Bool → Prog L Q α)
  | release (shared : Bool) (lock : L) (rest : Prog L Q α)
  | ask (query : Q) (rest : Nat → Prog L Q α)

namespace Prog

variable {L Q α β : Type}

def bind : Prog L Q α → (α → Prog L Q β) → Prog L Q β
  | pure a, f => f a
  | acquire shared lock rest, f => acquire shared lock (rest.bind f)
  | attempt lock rest, f => attempt lock fun taken => (rest taken).bind f
  | release shared lock rest, f => release shared lock (rest.bind f)
  | ask query rest, f => ask query fun n => (rest n).bind f

instance : Monad (Prog L Q) where
  pure := pure
  bind := bind

/-- A guard: the lock is held while `body` runs. -/
def locked (shared : Bool) (lock : L) (body : Prog L Q α) : Prog L Q α :=
  acquire shared lock (body.bind fun a => release shared lock (pure a))

/-- `body` runs under the lock if it is free. -/
def lockedIfFree (lock : L) (body : Prog L Q Unit) : Prog L Q Unit :=
  attempt lock fun taken =>
    if taken then body.bind fun _ => release false lock (pure ()) else pure ()

/-- The lock the program waits for. -/
def awaits : Prog L Q α → Option L
  | acquire _ lock _ => some lock
  | _ => none

/-- From the locks `held` (the last one first), the program takes only locks that come after all it
holds, releases the last one first, and ends with `after`. -/
def Orderly (before : L → L → Prop) (after : List (Bool × L)) :
    List (Bool × L) → Prog L Q α → Prop
  | held, pure _ => held = after
  | held, acquire shared lock rest =>
    (∀ h ∈ held, before h.2 lock) ∧ Orderly before after ((shared, lock) :: held) rest
  | held, attempt lock rest =>
    Orderly before after ((false, lock) :: held) (rest true) ∧
      Orderly before after held (rest false)
  | held, release shared lock rest =>
    ∃ less, held = (shared, lock) :: less ∧ Orderly before after less rest
  | held, ask _ rest => ∀ n, Orderly before after held (rest n)

section
variable {before : L → L → Prop} {held mid after : List (Bool × L)}

theorem Orderly.bind {p : Prog L Q α} {f : α → Prog L Q β} (hp : Orderly before mid held p)
    (hf : ∀ a, Orderly before after mid (f a)) : Orderly before after held (p.bind f) := by
  induction p generalizing held with
  | pure a =>
    obtain rfl : held = mid := hp
    exact hf a
  | acquire shared lock rest ih => exact ⟨hp.1, ih hp.2⟩
  | attempt lock rest ih => exact ⟨ih true hp.1, ih false hp.2⟩
  | release shared lock rest ih =>
    obtain ⟨less, rfl, hrest⟩ := hp
    exact ⟨less, rfl, ih hrest⟩
  | ask query rest ih => exact fun n => ih n (hp n)

theorem Orderly.locked {shared : Bool} {lock : L} {body : Prog L Q α}
    (hlock : ∀ h ∈ held, before h.2 lock)
    (hbody : Orderly before ((shared, lock) :: held) ((shared, lock) :: held) body) :
    Orderly before held held (Prog.locked shared lock body) :=
  ⟨hlock, hbody.bind fun _ => ⟨held, rfl, rfl⟩⟩

theorem Orderly.lockedIfFree {lock : L} {body : Prog L Q Unit}
    (hbody : Orderly before ((false, lock) :: held) ((false, lock) :: held) body) :
    Orderly before held held (Prog.lockedIfFree lock body) :=
  ⟨hbody.bind fun _ => ⟨held, rfl, rfl⟩, rfl⟩

end

end Prog

/-! ## Systems of threads -/

/-- A thread's hold on a lock. -/
structure Hold (T L : Type) where
  thread : T
  shared : Bool
  lock : L
deriving DecidableEq

/-- Threads, the locks they hold and the data they share. -/
structure System (T L Q σ : Type) where
  thread : T → Prog L Q Unit
  held : List (Hold T L)
  data : σ

/-- What happens next: an idle thread starts a call in `C`, or a thread takes its next step. Where
that is a question, `choice` stands for whatever the answer depends on besides the data. -/
inductive Event (T C : Type) where
  | start (t : T) (call : C)
  | go (t : T) (choice : Nat)

namespace System

variable {T L Q C σ : Type} [DecidableEq T] [DecidableEq L]

/-- The lock can be taken. -/
def free (s : System T L Q σ) (shared : Bool) (lock : L) : Bool :=
  s.held.all fun h => h.lock ≠ lock || (shared && h.shared)

/-- The thread goes on with `p`. -/
def become (s : System T L Q σ) (t : T) (p : Prog L Q Unit) : System T L Q σ :=
  { s with thread := Function.update s.thread t p }

def take (s : System T L Q σ) (t : T) (shared : Bool) (lock : L) : System T L Q σ :=
  { s with held := ⟨t, shared, lock⟩ :: s.held }

variable (program : C → Prog L Q Unit) (answer : Q → σ → Nat → Option (Nat × σ))

/-- One event; one that is not possible changes nothing. -/
def step (s : System T L Q σ) : Event T C → System T L Q σ
  | .start t call =>
    match s.thread t with
    | .pure _ => s.become t (program call)
    | _ => s
  | .go t choice =>
    match s.thread t with
    | .pure _ => s
    | .acquire shared lock rest =>
      if s.free shared lock then (s.take t shared lock).become t rest else s
    | .attempt lock rest =>
      if s.free false lock then (s.take t false lock).become t (rest true)
      else s.become t (rest false)
    | .release shared lock rest =>
      { s with held := s.held.erase ⟨t, shared, lock⟩ }.become t rest
    | .ask query rest =>
      match answer query s.data choice with
      | some (n, data) => { s with data := data }.become t (rest n)
      | none => s

def run (s : System T L Q σ) : List (Event T C) → System T L Q σ
  | [] => s
  | event :: events => (s.step program answer event).run events

/-- All threads are idle. -/
def start (data : σ) : System T L Q σ := ⟨fun _ => .pure (), [], data⟩

/-- The thread waits for the lock. -/
def Waits (s : System T L Q σ) (t : T) (lock : L) : Prop := (s.thread t).awaits = some lock

def Holds (s : System T L Q σ) (t : T) (lock : L) : Prop :=
  ∃ h ∈ s.held, h.thread = t ∧ h.lock = lock

/-- Each thread of the set waits for a lock that a thread of the set holds. -/
def Deadlock (s : System T L Q σ) (S : Set T) : Prop :=
  S.Nonempty ∧ ∀ t ∈ S, ∃ lock, s.Waits t lock ∧ ∃ u ∈ S, s.Holds u lock

/-! ## The order -/

/-- The locks a thread holds, the last one first. -/
def own (s : System T L Q σ) (t : T) : List (Bool × L) :=
  (s.held.filter fun h => h.thread = t).map fun h => (h.shared, h.lock)

/-- Every thread goes on in order from the locks it holds. -/
def InOrder (before : L → L → Prop) (s : System T L Q σ) : Prop :=
  ∀ t, (s.thread t).Orderly before [] (s.own t)

section
variable {before : L → L → Prop} {s : System T L Q σ} {t : T}

section
omit [DecidableEq L]

@[simp] theorem become_held (p : Prog L Q Unit) : (s.become t p).held = s.held := rfl

theorem become_thread (p : Prog L Q Unit) (u : T) :
    (s.become t p).thread u = if u = t then p else s.thread u := Function.update_apply ..

@[simp] theorem own_become (p : Prog L Q Unit) (u : T) : (s.become t p).own u = s.own u := rfl

theorem own_take (shared : Bool) (lock : L) (u : T) :
    (s.take t shared lock).own u = if u = t then (shared, lock) :: s.own t else s.own u := by
  unfold own take
  rw [List.filter_cons]
  by_cases hu : u = t
  · subst hu
    simp
  · simp [hu, Ne.symm hu]

/-- One thread goes on, the others have and do what they did. -/
theorem InOrder.moves {s' : System T L Q σ} {p : Prog L Q Unit} (h : s.InOrder before)
    (hown : ∀ u, u ≠ t → s'.own u = s.own u) (hthread : s'.thread = s.thread)
    (hp : p.Orderly before [] (s'.own t)) : (s'.become t p).InOrder before := by
  intro u
  rw [become_thread, own_become]
  split_ifs with hu
  · subst hu
    exact hp
  · rw [hown u hu, hthread]
    exact h u

theorem inOrder_start (data : σ) : (start data : System T L Q σ).InOrder before := fun _ => rfl

theorem mem_own {lock : L} (h : s.Holds t lock) : ∃ shared, (shared, lock) ∈ s.own t := by
  obtain ⟨hold, hmem, rfl, rfl⟩ := h
  exact ⟨hold.shared, List.mem_map.2 ⟨hold, List.mem_filter.2 ⟨hmem, by simp⟩, rfl⟩⟩

/-- What a thread waits for comes after all it holds. -/
theorem InOrder.waits {lock l : L} (h : s.InOrder before) (hw : s.Waits t lock)
    (hh : s.Holds t l) : before l lock := by
  obtain ⟨shared, hmem⟩ := mem_own hh
  have ht := h t
  unfold Waits Prog.awaits at hw
  cases hp : s.thread t with
  | acquire shared' lock' rest =>
    rw [hp] at ht hw
    cases hw
    exact ht.1 _ hmem
  | pure | attempt | release | ask =>
    rw [hp] at hw
    cases hw

/-- **No deadlock in a state that is in order**: of the locks that threads of the set hold, a last one
cannot be waited for past it. -/
theorem InOrder.no_deadlock [IsStrictOrder L before] (h : s.InOrder before) (S : Set T) :
    ¬ s.Deadlock S := by
  rintro ⟨⟨t0, ht0⟩, hS⟩
  let taken : Set L := {l | ∃ t ∈ S, s.Holds t l}
  have hfinite : taken.Finite := by
    refine (s.held.map Hold.lock).finite_toSet.subset ?_
    rintro l ⟨t, -, hold, hmem, -, rfl⟩
    exact List.mem_map_of_mem hmem
  obtain ⟨lock0, -, u0, hu0, hh0⟩ := hS t0 ht0
  have hwf : taken.WellFoundedOn (Function.swap before) := hfinite.wellFoundedOn
  obtain ⟨⟨last, t, ht, hh⟩, -, hlast⟩ := hwf.has_min Set.univ ⟨⟨lock0, u0, hu0, hh0⟩, trivial⟩
  obtain ⟨lock, hw, u, hu, hhu⟩ := hS t ht
  exact hlast ⟨lock, u, hu, hhu⟩ trivial (h.waits hw hh)

end

/-- The last lock of a thread released. -/
theorem own_release {shared : Bool} {lock : L} {less : List (Bool × L)}
    (h : s.own t = (shared, lock) :: less) (u : T) :
    ({ s with held := s.held.erase ⟨t, shared, lock⟩ } : System T L Q σ).own u
      = if u = t then less else s.own u := by
  unfold own at h ⊢
  dsimp only
  rw [← List.erase_filter]
  by_cases hu : u = t
  · subst hu
    rw [if_pos rfl]
    obtain ⟨first, rest, hfilter, hfirst, hrest⟩ := List.map_eq_cons_iff.1 h
    have hmem : first ∈ s.held.filter fun h => h.thread = u := by
      rw [hfilter]
      exact List.mem_cons_self
    have hthread : first.thread = u := of_decide_eq_true (List.mem_filter.1 hmem).2
    obtain ⟨hs, hl⟩ := Prod.mk.inj hfirst
    have hhold : first = ⟨u, shared, lock⟩ := by
      rw [← hthread, ← hs, ← hl]
    rw [hfilter, ← hhold, List.erase_cons_head, hrest]
  · rw [if_neg hu, List.erase_of_not_mem]
    intro hmem
    exact hu (of_decide_eq_true (List.mem_filter.1 hmem).2).symm

/-- **A step keeps the order.** -/
theorem InOrder.step (hcalls : ∀ call, (program call).Orderly before [] []) (h : s.InOrder before)
    (event : Event T C) : (s.step program answer event).InOrder before := by
  cases event with
  | start t call =>
    have ht := h t
    cases hp : s.thread t with
    | pure a =>
      rw [hp] at ht
      simp only [System.step, hp]
      have hnone : s.own t = [] := ht
      exact h.moves (fun _ _ => rfl) rfl (by rw [hnone]; exact hcalls call)
    | acquire | attempt | release | ask =>
      simp only [System.step, hp]
      exact h
  | go t choice =>
    have ht := h t
    cases hp : s.thread t with
    | pure a =>
      simp only [System.step, hp]
      exact h
    | acquire shared lock rest =>
      rw [hp] at ht
      simp only [System.step, hp]
      split_ifs
      · refine h.moves (fun u hu => ?_) rfl ?_
        · rw [own_take, if_neg hu]
        · rw [own_take, if_pos rfl]
          exact ht.2
      · exact h
    | attempt lock rest =>
      rw [hp] at ht
      simp only [System.step, hp]
      split_ifs
      · refine h.moves (fun u hu => ?_) rfl ?_
        · rw [own_take, if_neg hu]
        · rw [own_take, if_pos rfl]
          exact ht.1
      · exact h.moves (fun _ _ => rfl) rfl ht.2
    | release shared lock rest =>
      rw [hp] at ht
      obtain ⟨less, hown, hrest⟩ := ht
      simp only [System.step, hp]
      refine h.moves (fun u hu => ?_) rfl ?_
      · rw [own_release hown, if_neg hu]
      · rw [own_release hown, if_pos rfl]
        exact hrest
    | ask query rest =>
      rw [hp] at ht
      simp only [System.step, hp]
      cases answer query s.data choice with
      | none => exact h
      | some r =>
        refine h.moves (fun _ _ => ?_) ?_ ?_
        · rfl
        · rfl
        · exact ht r.1

theorem InOrder.run (hcalls : ∀ call, (program call).Orderly before [] []) (h : s.InOrder before)
    (events : List (Event T C)) : (s.run program answer events).InOrder before := by
  induction events generalizing s with
  | nil => exact h
  | cons event events ih => exact ih (h.step program answer hcalls event)

end

/-- **Calls that take their locks in order cannot deadlock**, however many threads make them. -/
theorem no_deadlock {before : L → L → Prop} [IsStrictOrder L before]
    (hcalls : ∀ call, (program call).Orderly before [] []) (data : σ) (events : List (Event T C))
    (S : Set T) : ¬ ((start data : System T L Q σ).run program answer events).Deadlock S :=
  ((inOrder_start data).run program answer hcalls events).no_deadlock S

end System

end LockOrder
