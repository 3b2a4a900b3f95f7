import Mathlib.Data.List.Nodup
import Mathlib.Logic.Function.Basic

/-!
# Linearizability

Threads call the operations of one object. A history has the invocations of their calls and the responses in
the order in which they come, and a call is named by the place of its invocation. A `Linearization` is a
sequence of the calls, one after the other, in which the sequential object gives the same replies, with every
call that has been answered and possibly some that have not, such that a call that is answered before
another is invoked comes first. A `Monitor` reads a history with marks at which calls take effect: what it
accepts is linearizable, in the order of the marks (`Run.linearization`).
-/

namespace Linearizable

/-- What a call makes of the state, and its reply. -/
structure Object (σ C R : Type) where
  step : σ → C → σ × R

inductive Event (T C R : Type) where
  | invoke (thread : T) (call : C)
  | respond (thread : T) (reply : R)
deriving DecidableEq, Repr

def Event.thread {T C R : Type} : Event T C R → T
  | invoke thread _ | respond thread _ => thread

/-- A call with the place of its invocation, and the reply to it. -/
structure Entry (C R : Type) where
  place : Nat
  call : C
  reply : R
deriving DecidableEq, Repr

variable {σ T C R : Type} {obj : Object σ C R} {s s' : σ} {h : List (Event T C R)}
  {order : List (Entry C R)}

/-- The response at `j` is the next event of its thread after the invocation at `i`. -/
def Answers (h : List (Event T C R)) (i j : Nat) : Prop :=
  i < j ∧ ∃ t call reply, h[i]? = some (.invoke t call) ∧ h[j]? = some (.respond t reply) ∧
    ∀ k e, i < k → k < j → h[k]? = some e → e.thread ≠ t

/-- The calls made one after the other from `s` get these replies and lead to `s'`. -/
def Object.Runs (obj : Object σ C R) : σ → List (Entry C R) → σ → Prop
  | s, [], s' => s = s'
  | s, x :: order, s' => (obj.step s x.call).2 = x.reply ∧ obj.Runs (obj.step s x.call).1 order s'

structure Linearization (obj : Object σ C R) (s s' : σ) (h : List (Event T C R))
    (order : List (Entry C R)) : Prop where
  legal : obj.Runs s order s'
  once : (order.map Entry.place).Nodup
  invoked : ∀ x ∈ order, ∃ t, h[x.place]? = some (.invoke t x.call)
  answered : ∀ j t reply, h[j]? = some (.respond t reply) →
    ∃ x ∈ order, x.reply = reply ∧ Answers h x.place j
  realTime : ∀ x ∈ order, ∀ y ∈ order, ∀ j, Answers h x.place j → j < y.place → [x, y].Sublist order

theorem Object.Runs.snoc {s'' : σ} {x : Entry C R} : ∀ {order : List (Entry C R)} {s : σ},
    obj.Runs s order s' → obj.step s' x.call = (s'', x.reply) → obj.Runs s (order ++ [x]) s''
  | [], s, hrun, hx => by
    cases hrun
    exact ⟨congrArg Prod.snd hx, congrArg Prod.fst hx⟩
  | y :: order, s, hrun, hx => ⟨hrun.1, hrun.2.snoc hx⟩

/-! ## Histories that grow -/

theorem getElem?_snoc_lt {e : Event T C R} {i : Nat} (hi : i < h.length) : (h ++ [e])[i]? = h[i]? :=
  List.getElem?_append_left hi

theorem lt_of_get {i : Nat} {e : Event T C R} (hi : h[i]? = some e) : i < h.length :=
  (List.getElem?_eq_some_iff.1 hi).1

/-- What was answered stays answered, and nothing new before the end. -/
theorem answers_snoc {e : Event T C R} {i j : Nat} (hj : j < h.length) :
    Answers (h ++ [e]) i j ↔ Answers h i j := by
  unfold Answers
  refine and_congr_right fun hij => exists_congr fun t => exists_congr fun call => exists_congr fun reply => ?_
  rw [getElem?_snoc_lt (by omega), getElem?_snoc_lt hj]
  refine and_congr_right fun _ => and_congr_right fun _ => forall_congr' fun k => forall_congr' fun f => ?_
  refine forall_congr' fun _ => forall_congr' fun hk => ?_
  rw [getElem?_snoc_lt (by omega)]

/-- An event that is no response is added to a history. -/
theorem Linearization.event (hlin : Linearization obj s s' h order) {e : Event T C R}
    (hnew : ∀ t reply, e = .respond t reply →
      ∃ x ∈ order, x.reply = reply ∧ Answers (h ++ [e]) x.place h.length) :
    Linearization obj s s' (h ++ [e]) order where
  legal := hlin.legal
  once := hlin.once
  invoked x hx := by
    obtain ⟨t, ht⟩ := hlin.invoked x hx
    exact ⟨t, (getElem?_snoc_lt (lt_of_get ht)).trans ht⟩
  answered j t reply hj := by
    by_cases hlt : j < h.length
    · rw [getElem?_snoc_lt hlt] at hj
      obtain ⟨x, hx, hreply, hanswers⟩ := hlin.answered j t reply hj
      exact ⟨x, hx, hreply, (answers_snoc hlt).2 hanswers⟩
    · have hlast := lt_of_get hj
      obtain rfl : j = h.length := by
        rw [List.length_append, List.length_singleton] at hlast
        omega
      rw [List.getElem?_append_right (Nat.le_refl _), Nat.sub_self] at hj
      exact hnew t reply (Option.some.inj hj)
  realTime x hx y hy j hanswers hj := by
    obtain ⟨t, ht⟩ := hlin.invoked y hy
    have hlt := lt_of_get ht
    exact hlin.realTime x hx y hy j ((answers_snoc (by omega)).1 hanswers) hj

/-- A call takes effect that has no answer yet. -/
theorem Linearization.effect (hlin : Linearization obj s s' h order) {s'' : σ} {x : Entry C R} {t : T}
    (hx : h[x.place]? = some (.invoke t x.call))
    (hlast : ∀ k e, x.place < k → h[k]? = some e → e.thread ≠ t)
    (hfresh : ∀ y ∈ order, y.place ≠ x.place) (hstep : obj.step s' x.call = (s'', x.reply)) :
    Linearization obj s s'' h (order ++ [x]) where
  legal := hlin.legal.snoc hstep
  once := by
    rw [List.map_append, List.nodup_append]
    refine ⟨hlin.once, List.nodup_singleton _, fun i hi j hj => ?_⟩
    obtain ⟨y, hy, rfl⟩ := List.mem_map.1 hi
    rw [List.map_singleton, List.mem_singleton] at hj
    rw [hj]
    exact hfresh y hy
  invoked y hy := by
    rcases List.mem_append.1 hy with hy | hy
    · exact hlin.invoked y hy
    · rw [List.mem_singleton.1 hy]
      exact ⟨t, hx⟩
  answered j t reply hj := by
    obtain ⟨y, hy, hreply, hanswers⟩ := hlin.answered j t reply hj
    exact ⟨y, List.mem_append_left _ hy, hreply, hanswers⟩
  realTime y hy z hz j hanswers hj := by
    rcases List.mem_append.1 hy with hy | hy
    · rcases List.mem_append.1 hz with hz | hz
      · exact (hlin.realTime y hy z hz j hanswers hj).trans (List.sublist_append_left _ _)
      · rw [List.mem_singleton.1 hz]
        exact (List.singleton_sublist.2 hy).append (List.Sublist.refl [x])
    · -- the call has no answer
      rw [List.mem_singleton.1 hy] at hanswers
      obtain ⟨hlt, t', call, reply, hcall, hresponse, -⟩ := hanswers
      rw [hx] at hcall
      cases hcall
      exact absurd rfl (hlast j _ hlt hresponse)

/-! ## The monitor -/

/-- An event, or the point at which the call of a thread takes effect, with its reply. -/
inductive Mark (T C R : Type) where
  | event (e : Event T C R)
  | effect (thread : T) (reply : R)
deriving DecidableEq, Repr

def Mark.event? : Mark T C R → Option (Event T C R)
  | event e => some e
  | effect _ _ => none

structure Monitor (σ T C R : Type) where
  state : σ
  history : List (Event T C R)
  order : List (Entry C R)
  /-- The call each thread is in: its place, and the reply to it once it has taken effect. -/
  current : T → Option (Nat × C × Option R)

def Monitor.start (s : σ) : Monitor σ T C R := ⟨s, [], [], fun _ => none⟩

variable {m m' m'' : Monitor σ T C R}

/-- Where a thread is in its call. -/
structure Monitor.Current (m : Monitor σ T C R) (t : T) (i : Nat) (call : C) (reply : Option R) :
    Prop where
  invoked : m.history[i]? = some (.invoke t call)
  last : ∀ k e, i < k → m.history[k]? = some e → e.thread ≠ t
  pending : reply = none → ∀ x ∈ m.order, x.place ≠ i
  done : ∀ r, reply = some r → ⟨i, call, r⟩ ∈ m.order

structure Monitor.Sound (obj : Object σ C R) (s : σ) (m : Monitor σ T C R) : Prop where
  linear : Linearization obj s m.state m.history m.order
  current : ∀ t i call reply, m.current t = some (i, call, reply) → m.Current t i call reply

theorem Monitor.Sound.start (obj : Object σ C R) (s : σ) : (Monitor.start (T := T) s).Sound obj s where
  linear := ⟨rfl, List.nodup_nil, nofun, nofun, nofun⟩
  current := nofun

/-- Another thread's event ends nothing. -/
theorem Monitor.Current.event {t : T} {i : Nat} {call : C} {reply : Option R}
    (hcurrent : m.Current t i call reply) {e : Event T C R} (hne : e.thread ≠ t)
    (current : T → Option (Nat × C × Option R)) :
    ({ m with history := m.history ++ [e], current := current } : Monitor σ T C R).Current t i call
      reply where
  invoked := (getElem?_snoc_lt (lt_of_get hcurrent.invoked)).trans hcurrent.invoked
  last k f hk hf := by
    by_cases hlt : k < m.history.length
    · exact hcurrent.last k f hk ((getElem?_snoc_lt hlt).symm.trans hf)
    · rw [List.getElem?_append_right (by omega)] at hf
      have hf := List.mem_of_getElem? hf
      rw [List.mem_singleton.1 hf]
      exact hne
  pending := hcurrent.pending
  done := hcurrent.done

section
variable [DecidableEq T]

inductive Step (obj : Object σ C R) (m : Monitor σ T C R) : Mark T C R → Monitor σ T C R → Prop where
  | invoke {t : T} (call : C) (hfree : m.current t = none) :
    Step obj m (.event (.invoke t call)) { m with
      history := m.history ++ [.invoke t call]
      current := Function.update m.current t (some (m.history.length, call, none)) }
  | effect {t : T} {i : Nat} {call : C} {reply : R} {s' : σ}
      (hcurrent : m.current t = some (i, call, none)) (hstep : obj.step m.state call = (s', reply)) :
    Step obj m (.effect t reply) { m with
      state := s'
      order := m.order ++ [⟨i, call, reply⟩]
      current := Function.update m.current t (some (i, call, some reply)) }
  | respond {t : T} {i : Nat} {call : C} {reply : R}
      (hcurrent : m.current t = some (i, call, some reply)) :
    Step obj m (.event (.respond t reply)) { m with
      history := m.history ++ [.respond t reply]
      current := Function.update m.current t none }

/-- The monitor accepts the marks. -/
inductive Run (obj : Object σ C R) : Monitor σ T C R → List (Mark T C R) → Monitor σ T C R → Prop where
  | nil {m : Monitor σ T C R} : Run obj m [] m
  | cons {m m' m'' : Monitor σ T C R} {mark : Mark T C R} {marks : List (Mark T C R)}
      (hstep : Step obj m mark m') (hrun : Run obj m' marks m'') : Run obj m (mark :: marks) m''

theorem Run.append {marks marks' : List (Mark T C R)} (hrun : Run obj m marks m')
    (hrun' : Run obj m' marks' m'') : Run obj m (marks ++ marks') m'' := by
  induction hrun with
  | nil => exact hrun'
  | cons hstep _ ih => exact .cons hstep (ih hrun')

/-- **Each mark that is accepted keeps the linearization.** -/
theorem Monitor.Sound.step {mark : Mark T C R} (hm : m.Sound obj s) (hstep : Step obj m mark m') :
    m'.Sound obj s := by
  cases hstep with
  | @invoke t call hfree =>
    refine ⟨hm.linear.event (e := .invoke t call) nofun, fun t' i call' reply hcurrent => ?_⟩
    dsimp only at hcurrent
    by_cases hne : t' = t
    · subst hne
      rw [Function.update_self] at hcurrent
      cases hcurrent
      refine ⟨?_, fun k e hk he => ?_, fun _ x hx heq => ?_, nofun⟩
      · show (m.history ++ [.invoke t' call])[m.history.length]? = _
        rw [List.getElem?_append_right (Nat.le_refl _), Nat.sub_self]
        rfl
      · have := lt_of_get he
        rw [List.length_append, List.length_singleton] at this
        omega
      · obtain ⟨t, ht⟩ := hm.linear.invoked x hx
        have := lt_of_get ht
        omega
    · rw [Function.update_of_ne hne] at hcurrent
      exact (hm.current _ _ _ _ hcurrent).event (e := .invoke t call) (Ne.symm hne) _
  | @effect t i call reply s' hcurrent hstep =>
    have hcall := hm.current _ _ _ _ hcurrent
    refine ⟨hm.linear.effect (x := ⟨i, call, reply⟩) hcall.invoked hcall.last (hcall.pending rfl) hstep,
      fun t' i' call' reply' hcurrent' => ?_⟩
    dsimp only at hcurrent'
    by_cases hne : t' = t
    · subst hne
      rw [Function.update_self] at hcurrent'
      cases hcurrent'
      refine ⟨hcall.invoked, hcall.last, nofun, fun r hr => ?_⟩
      cases hr
      exact List.mem_append_right _ (List.mem_singleton_self _)
    · rw [Function.update_of_ne hne] at hcurrent'
      have hother := hm.current _ _ _ _ hcurrent'
      refine ⟨hother.invoked, hother.last, fun hr x hx => ?_,
        fun r hr => List.mem_append_left _ (hother.done r hr)⟩
      rcases List.mem_append.1 hx with hx | hx
      · exact hother.pending hr x hx
      · rw [List.mem_singleton.1 hx]
        rintro rfl
        have hsame := hcall.invoked.symm.trans hother.invoked
        cases hsame
        exact hne rfl
  | @respond t i call reply hcurrent =>
    have hcall := hm.current _ _ _ _ hcurrent
    refine ⟨hm.linear.event (e := .respond t reply) fun t' reply' heq => ?_,
      fun t' i' call' reply' hcurrent' => ?_⟩
    · cases heq
      refine ⟨_, hcall.done _ rfl, rfl, lt_of_get hcall.invoked, t, call, reply, ?_, ?_, ?_⟩
      · exact (getElem?_snoc_lt (lt_of_get hcall.invoked)).trans hcall.invoked
      · rw [List.getElem?_append_right (Nat.le_refl _), Nat.sub_self]
        rfl
      · intro k e hk hlt he
        exact hcall.last k e hk ((getElem?_snoc_lt hlt).symm.trans he)
    · dsimp only at hcurrent'
      by_cases hne : t' = t
      · subst hne
        rw [Function.update_self] at hcurrent'
        cases hcurrent'
      · rw [Function.update_of_ne hne] at hcurrent'
        exact (hm.current _ _ _ _ hcurrent').event (e := .respond t reply) (Ne.symm hne) _

theorem Monitor.Sound.run {marks : List (Mark T C R)} (hm : m.Sound obj s) (hrun : Run obj m marks m') :
    m'.Sound obj s := by
  induction hrun with
  | nil => exact hm
  | cons hstep _ ih => exact ih (hm.step hstep)

/-! What the monitor makes of marks of one thread. -/

/-- From `m` to `m'` the object goes on to `s`, and thread `t` to `current`. -/
structure Monitor.Turns (m m' : Monitor σ T C R) (t : T) (s : σ) (current : Option (Nat × C × Option R)) :
    Prop where
  state : m'.state = s
  current : m'.current = Function.update m.current t current

/-- Marks of a thread, and then more of them. -/
theorem Monitor.Turns.trans {t : T} {s s' : σ} {current current' : Option (Nat × C × Option R)}
    (hturns : m.Turns m' t s current) (hturns' : m'.Turns m'' t s' current') :
    m.Turns m'' t s' current' := by
  refine ⟨hturns'.state, ?_⟩
  rw [hturns'.current, hturns.current, Function.update_idem]

theorem Monitor.Turns.current_self {t : T} {current : Option (Nat × C × Option R)}
    (hturns : m.Turns m' t s current) : m'.current t = current := by
  rw [hturns.current, Function.update_self]

theorem exists_invoke (obj : Object σ C R) {t : T} (call : C) (hfree : m.current t = none) :
    ∃ m' i, Run obj m [.event (.invoke t call)] m' ∧ m.Turns m' t m.state (some (i, call, none)) :=
  ⟨_, _, .cons (.invoke call hfree) .nil, rfl, rfl⟩

theorem exists_effect (obj : Object σ C R) {t : T} {i : Nat} {call : C} {reply : R}
    (hcurrent : m.current t = some (i, call, none)) (hstep : obj.step m.state call = (s, reply)) :
    ∃ m', Run obj m [.effect t reply] m' ∧ m.Turns m' t s (some (i, call, some reply)) :=
  ⟨_, .cons (.effect hcurrent hstep) .nil, rfl, rfl⟩

theorem exists_respond (obj : Object σ C R) {t : T} {i : Nat} {call : C} {reply : R}
    (hcurrent : m.current t = some (i, call, some reply)) :
    ∃ m', Run obj m [.event (.respond t reply)] m' ∧ m.Turns m' t m.state none :=
  ⟨_, .cons (.respond hcurrent) .nil, rfl, rfl⟩

/-- A call that takes effect as soon as it is made. -/
theorem exists_invoke_effect (obj : Object σ C R) {t : T} (call : C) {reply : R} (hfree : m.current t = none)
    (hstep : obj.step m.state call = (s, reply)) :
    ∃ m' i, Run obj m [.event (.invoke t call), .effect t reply] m' ∧
      m.Turns m' t s (some (i, call, some reply)) := by
  obtain ⟨m1, i, hrun, hturns⟩ := exists_invoke obj call hfree
  obtain ⟨m2, hrun', hturns'⟩ := exists_effect obj hturns.current_self (hturns.state ▸ hstep)
  exact ⟨m2, i, hrun.append hrun', hturns.trans hturns'⟩

/-- A call that returns as soon as it takes effect. -/
theorem exists_effect_respond (obj : Object σ C R) {t : T} {i : Nat} {call : C} {reply : R}
    (hcurrent : m.current t = some (i, call, none)) (hstep : obj.step m.state call = (s, reply)) :
    ∃ m', Run obj m [.effect t reply, .event (.respond t reply)] m' ∧ m.Turns m' t s none := by
  obtain ⟨m1, hrun, hturns⟩ := exists_effect obj hcurrent hstep
  obtain ⟨m2, hrun', hturns'⟩ := exists_respond obj hturns.current_self
  exact ⟨m2, hrun.append hrun', hturns.state ▸ hturns.trans hturns'⟩

/-- A call that does both. -/
theorem exists_call (obj : Object σ C R) {t : T} (call : C) {reply : R} (hfree : m.current t = none)
    (hstep : obj.step m.state call = (s, reply)) :
    ∃ m', Run obj m [.event (.invoke t call), .effect t reply, .event (.respond t reply)] m' ∧
      m.Turns m' t s none := by
  obtain ⟨m1, i, hrun, hturns⟩ := exists_invoke obj call hfree
  obtain ⟨m2, hrun', hturns'⟩ := exists_effect_respond obj hturns.current_self (hturns.state ▸ hstep)
  exact ⟨m2, hrun.append hrun', hturns.trans hturns'⟩

end

end Linearizable
