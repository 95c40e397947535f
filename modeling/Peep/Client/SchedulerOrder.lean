import Peep.Client.Scheduler

/-!
# Which events run, and how often

The scheduler of the clients runs events in the order in which they are due. An event runs once
unless it is repeated; then it is put back when its handler returns. And the events of one
application can be removed.

The queue is sorted by doubles. Two times that are closer to each other than doubles are count as
one time, and the event that was added first is the first of them.

An event of the application `__SCHEDULER` has no handler that would be called: a wake-up takes it
out of the queue, and that is all.

`schedulerRemoveEventsForApp` looks for the application under a name that no entry has, and `!`
binds tighter than `eq`. So what is compared with the name of the application is always `1`.

## Choices

An operation that dies ends a run, and what it leaves is looked at as well. Events that look alike
are told apart by the number of the call of `schedulerAddEvent` that added them, which goes with the
data. The scheduler does not look at the data.

## Main results

* `runsInOrder_of_run` — the order of the events and how often they run
* `removesFor_iff` — when the events of an application are removed
-/

namespace Peep

open Decimal StepSystem

variable {η δ : Type}

/-! ## Events and their numbers -/

/-- The number of an event. -/
def SchedEvent.number (e : SchedEvent η (ℕ × δ)) : ℕ := e.data.1

/-- The time that an event is scheduled for. -/
def SchedEvent.time (e : SchedEvent η δ) : ℚ :=
  e.schedule_time.sec.value + e.schedule_time.usec.value / 1000000

/-- An action, where an event that is added gets this number. -/
def SchedAct.numbered (i : ℕ) : SchedAct η δ → SchedAct η (ℕ × δ)
  | .addEvent args now now' => .addEvent { args with data := (i, args.data) } now now'
  | .alarm now => .alarm now
  | .explicitWakeUp now => .explicitWakeUp now
  | .handlerReturns now now' => .handlerReturns now now'

/-- The actions with numbers from `i` on. -/
def numberedFrom : ℕ → List (SchedAct η δ) → List (SchedAct η (ℕ × δ))
  | _, [] => []
  | i, act :: acts => act.numbered i :: numberedFrom (i + 1) acts

/-- How often an event is in the queue. -/
def Scheduler.timesQueued (s : Scheduler η (ℕ × δ)) (i : ℕ) : ℕ :=
  (s.scheduler_queue.map SchedEvent.number).count i

/-- The events whose handlers are called between two states: they are running in addition. -/
def newlyRunning (s s' : Scheduler η δ) : List (SchedEvent η δ) :=
  s'.running.take (s'.running.length - s.running.length)

/-- The events whose handlers are called in a run, in order. -/
def handlerCalls : Scheduler η δ → List (SchedAct η δ) → List (SchedEvent η δ)
  | _, [] => []
  | s, act :: acts =>
    match s.step act with
    | none => []
    | some s' => newlyRunning s s' ++ handlerCalls s' acts

/-- The state at the end of a run, and if an action dies, the one that it leaves. -/
def Scheduler.endOf : Scheduler η δ → List (SchedAct η δ) → Scheduler η δ
  | s, [] => s
  | s, act :: acts =>
    match s.step act with
    | some s' => s'.endOf acts
    | none => if SchedEnabled s act then s.after act else s

/-- The numbers of those that are not repeated. -/
def oneShotCalls (s : Scheduler η (ℕ × δ)) (acts : List (SchedAct η (ℕ × δ))) : List ℕ :=
  ((handlerCalls s acts).filter fun e => !isTrue e.repeated).map SchedEvent.number

/-- What is asked of an action, whether it completes or dies. A wake-up with events in the queue
calls the handler of one whose time is the least, apart from those that may be skipped, and takes it
out of the queue. When the handler of an event returns, the event is in the queue once if it is
repeated, and not at all if it is not. -/
def RunsInOrder (time : SchedEvent η (ℕ × δ) → ℚ) (skipped : SchedEvent η (ℕ × δ) → Prop)
    (s : Scheduler η (ℕ × δ)) (act : SchedAct η (ℕ × δ)) : Prop :=
  SchedEnabled s act →
    match act with
    | .addEvent .. => True
    | .alarm _ | .explicitWakeUp _ => s.scheduler_queue ≠ [] → ∃ entry ∈ s.scheduler_queue,
        (∀ e ∈ s.scheduler_queue, time entry ≤ time e) ∧
          (s.after act).timesQueued entry.number = 0 ∧
          (¬ skipped entry → (s.after act).running = entry :: s.running)
    | .handlerReturns .. => ∀ entry ∈ s.running.head?,
        (s.after act).timesQueued entry.number = if isTrue entry.repeated then 1 else 0

/-- The events that are not repeated run once at most, and then they are not in the queue. -/
def OneShotsOnce (s : Scheduler η (ℕ × δ)) (acts : List (SchedAct η (ℕ × δ))) : Prop :=
  (oneShotCalls s acts).Nodup ∧ ∀ i ∈ oneShotCalls s acts, (s.endOf acts).timesQueued i = 0

variable {s s' t : Scheduler η δ} {act : SchedAct η δ} {args : SchedArgs η δ}
  {now now' : TimeVal} {queue : List (SchedEvent η δ)} {e entry : SchedEvent η δ}

/-! ## Steps -/

theorem newlyRunning_of_length_le (h : s'.running.length ≤ s.running.length) :
    newlyRunning s s' = [] := by
  rw [newlyRunning, Nat.sub_eq_zero_of_le h, List.take_zero]

theorem newlyRunning_of_cons (h : s'.running = entry :: s.running) :
    newlyRunning s s' = [entry] := by
  have hlength : (entry :: s.running).length - s.running.length = 1 := by
    rw [List.length_cons]
    omega
  rw [newlyRunning, h, hlength, List.take_succ_cons, List.take_zero]

theorem perm_enqueue (queue : List (SchedEvent η δ)) (e : SchedEvent η δ) :
    (enqueue queue e).Perm (e :: queue) :=
  (List.perm_insertionSort _ _).trans (List.perm_append_singleton e queue)

/-! ## Numbers -/

section Numbers

variable {s s' : Scheduler η (ℕ × δ)} {act : SchedAct η δ} {acts : List (SchedAct η δ)} {i j : ℕ}

/-- The numbers of the events in the queue and of those that are running. -/
def Scheduler.numbers (s : Scheduler η (ℕ × δ)) : List ℕ :=
  s.scheduler_queue.map SchedEvent.number ++ s.running.map SchedEvent.number

/-- The queue is in order, and the events have different numbers below `i`. -/
structure Ordered (i : ℕ) (s : Scheduler η (ℕ × δ)) : Prop where
  /-- The order. -/
  sorted : DueSorted s.scheduler_queue
  /-- The numbers are different. -/
  nodup : s.numbers.Nodup
  /-- They have been given. -/
  lt : ∀ j ∈ s.numbers, j < i

theorem ordered_new (clock : TimeVal) :
    Ordered 0 (Scheduler.new clock : Scheduler η (ℕ × δ)) where
  sorted := List.Pairwise.nil
  nodup := List.nodup_nil
  lt := fun _ hj => absurd hj List.not_mem_nil

/-- What an action does to the numbers: it gives the next one, or it takes some away. -/
theorem numbers_after (henabled : SchedEnabled s (act.numbered i)) :
    (s.after (act.numbered i)).numbers.Perm (i :: s.numbers) ∨
      ∃ gone, s.numbers.Perm (gone ++ (s.after (act.numbered i)).numbers) := by
  have hwakeUp (act' : SchedAct η (ℕ × δ)) (now : TimeVal)
      (hact : act' = .alarm now ∨ act' = .explicitWakeUp now) :
      ∃ gone, s.numbers.Perm (gone ++ (s.after act').numbers) := by
    rw [Scheduler.numbers, Scheduler.numbers]
    rcases after_wakeUp (s := s) hact with ⟨hempty, hqueue, hrunning⟩ | ⟨entry, hqueue, hrunning⟩
    · rw [hempty, hqueue, hrunning]
      exact ⟨[], .refl _⟩
    · rw [hqueue, hrunning]
      split_ifs
      · exact ⟨[entry.number], .refl _⟩
      · exact ⟨[], List.perm_middle.symm⟩
  rcases act with ⟨args, now, now'⟩ | now | now | ⟨now, now'⟩
  case addEvent =>
    rw [SchedAct.numbered, Scheduler.numbers, Scheduler.numbers]
    obtain ⟨hrunning, ⟨e, he, hqueue⟩ | ⟨-, hqueue⟩⟩ :=
      after_addEvent s { args with data := (i, args.data) } now now'
    · have hnumber : e.number = i := congrArg (fun args => args.data.1) he
      refine .inl ?_
      rw [hqueue, hrunning, ← hnumber]
      exact ((perm_enqueue _ e).map _).append_right _
    · rw [hqueue, hrunning]
      exact .inr ⟨[], .refl _⟩
  case alarm => exact .inr (hwakeUp _ now (.inl rfl))
  case explicitWakeUp => exact .inr (hwakeUp _ now (.inr rfl))
  case handlerReturns =>
    rw [SchedAct.numbered, Scheduler.numbers, Scheduler.numbers]
    obtain ⟨entry, hrunning, ⟨-, e, he, hqueue⟩ | ⟨-, hqueue⟩⟩ := after_handlerReturns henabled
    · have hnumber : e.number = entry.number := congrArg (fun args => args.data.1) he
      refine .inr ⟨[], ?_⟩
      rw [hqueue, hrunning, List.map_cons, ← hnumber]
      refine List.perm_middle.trans ?_
      exact (((perm_enqueue _ e).map _).append_right _).symm
    · refine .inr ⟨[entry.number], ?_⟩
      rw [hqueue, hrunning]
      exact List.perm_middle

/-- **Every action keeps the order.** -/
theorem Ordered.after (hs : Ordered i s) (henabled : SchedEnabled s (act.numbered i)) :
    Ordered (i + 1) (s.after (act.numbered i)) := by
  refine ⟨dueSorted_after hs.sorted henabled, ?_, fun j hj => ?_⟩
  · rcases numbers_after henabled with hperm | ⟨gone, hperm⟩
    · refine hperm.nodup_iff.mpr (List.nodup_cons.mpr ⟨fun hi => ?_, hs.nodup⟩)
      exact (hs.lt i hi).false
    · exact (hperm.nodup_iff.mp hs.nodup).of_append_right
  · rcases numbers_after henabled with hperm | ⟨gone, hperm⟩
    · rcases List.mem_cons.mp (hperm.mem_iff.mp hj) with rfl | hj
      · exact Nat.lt_succ_self _
      · exact (hs.lt j hj).trans (Nat.lt_succ_self i)
    · exact (hs.lt j (hperm.mem_iff.mpr (List.mem_append_right _ hj))).trans (Nat.lt_succ_self i)

theorem timesQueued_eq_zero_iff : s.timesQueued j = 0 ↔ ∀ e ∈ s.scheduler_queue, e.number ≠ j := by
  rw [Scheduler.timesQueued, List.count_eq_zero, List.mem_map]
  exact ⟨fun h e he hj => h ⟨e, he, hj⟩, fun h ⟨e, he, hj⟩ => h e he hj⟩

/-- An event that is running is not in the queue. -/
theorem Ordered.timesQueued_of_running (hs : Ordered i s) {entry : SchedEvent η (ℕ × δ)}
    (hentry : entry ∈ s.running) : s.timesQueued entry.number = 0 := by
  refine timesQueued_eq_zero_iff.mpr fun e he hnumber => ?_
  have hdisjoint := (List.nodup_append.mp hs.nodup).2.2
  exact hdisjoint _ (List.mem_map_of_mem he) _ (List.mem_map_of_mem hentry) hnumber

/-- A wake-up runs an event that was due first. -/
theorem wakeUp_of_ordered {act : SchedAct η (ℕ × δ)} {now : TimeVal} (hs : Ordered i s)
    (hact : act = .alarm now ∨ act = .explicitWakeUp now) (hne : s.scheduler_queue ≠ []) :
    ∃ entry ∈ s.scheduler_queue, (∀ e ∈ s.scheduler_queue, entry.due ≤ e.due) ∧
      (s.after act).timesQueued entry.number = 0 ∧
        (¬ entry.IsInternal → (s.after act).running = entry :: s.running) := by
  rcases after_wakeUp (s := s) hact with ⟨hempty, -, -⟩ | ⟨entry, hqueue, hrunning⟩
  · exact absurd hempty hne
  have hsorted := hs.sorted
  have hnodup := (List.nodup_append.mp hs.nodup).1
  rw [hqueue] at hsorted hnodup
  refine ⟨entry, by rw [hqueue]; exact List.mem_cons_self, ?_, ?_, fun hinternal => ?_⟩
  · intro e he
    rw [hqueue] at he
    rcases List.mem_cons.mp he with rfl | he
    · exact le_rfl
    · exact (List.pairwise_cons.mp hsorted).1 e he
  · exact List.count_eq_zero.mpr (List.nodup_cons.mp hnodup).1
  · rw [hrunning, if_neg hinternal]

/-- **Every action runs events in order**, those of the scheduler itself apart. -/
theorem runsInOrder_of_ordered (hs : Ordered i s) :
    RunsInOrder SchedEvent.due SchedEvent.IsInternal s (act.numbered i) := by
  intro henabled
  rcases act with ⟨args, now, now'⟩ | now | now | ⟨now, now'⟩
  case addEvent => trivial
  case alarm => exact wakeUp_of_ordered hs (.inl rfl)
  case explicitWakeUp => exact wakeUp_of_ordered hs (.inr rfl)
  case handlerReturns =>
    intro entry' hentry'
    obtain ⟨entry, hrunning, hqueue⟩ := after_handlerReturns henabled
    rw [hrunning] at hentry'
    obtain rfl : entry = entry' := Option.some.inj hentry'
    have hentry : entry ∈ s.running := by rw [hrunning]; exact List.mem_cons_self
    have hzero := hs.timesQueued_of_running hentry
    rw [SchedAct.numbered, Scheduler.timesQueued]
    rcases hqueue with ⟨hrepeated, e, he, hqueue⟩ | ⟨hrepeated, hqueue⟩
    · have hnumber : e.number = entry.number := congrArg (fun args => args.data.1) he
      rw [if_pos hrepeated, hqueue, ((perm_enqueue s.scheduler_queue e).map _).count_eq,
        List.map_cons, hnumber, List.count_cons_self]
      exact congrArg (· + 1) hzero
    · rw [if_neg hrepeated, hqueue]
      exact hzero

/-! ## Events that are not repeated -/

/-- The number has been given to an event that is not in the queue and will not be put back. -/
structure Retired (i j : ℕ) (s : Scheduler η (ℕ × δ)) : Prop where
  /-- It has been given. -/
  lt : j < i
  /-- The event is not in the queue. -/
  timesQueued_eq : s.timesQueued j = 0
  /-- If it is running, it is not repeated. -/
  not_repeated : ∀ e ∈ s.running, e.number = j → ¬ isTrue e.repeated

/-- A wake-up takes another event. -/
theorem Retired.wakeUp {act : SchedAct η (ℕ × δ)} {now : TimeVal} (hj : Retired i j s)
    (hact : act = .alarm now ∨ act = .explicitWakeUp now) :
    Retired (i + 1) j (s.after act) ∧ ∀ e ∈ newlyRunning s (s.after act), e.number ≠ j := by
  have hqueued := timesQueued_eq_zero_iff.mp hj.timesQueued_eq
  have hlt : j < i + 1 := hj.lt.trans (Nat.lt_succ_self i)
  rcases after_wakeUp (s := s) hact with ⟨-, hqueue, hrunning⟩ | ⟨entry, hqueue, hrunning⟩
  · refine ⟨⟨hlt, ?_, by rw [hrunning]; exact hj.not_repeated⟩, ?_⟩
    · rw [Scheduler.timesQueued, hqueue]
      rfl
    · rw [newlyRunning_of_length_le (by rw [hrunning])]
      exact List.forall_mem_nil _
  rw [hqueue] at hqueued
  have hentry := hqueued entry List.mem_cons_self
  have hrest : (s.after act).timesQueued j = 0 :=
    timesQueued_eq_zero_iff.mpr fun e he => hqueued e (List.mem_cons_of_mem _ he)
  by_cases hinternal : entry.IsInternal
  · rw [if_pos hinternal] at hrunning
    refine ⟨⟨hlt, hrest, by rw [hrunning]; exact hj.not_repeated⟩, ?_⟩
    rw [newlyRunning_of_length_le (by rw [hrunning])]
    exact List.forall_mem_nil _
  · rw [if_neg hinternal] at hrunning
    refine ⟨⟨hlt, hrest, ?_⟩, ?_⟩
    · rw [hrunning]
      exact List.forall_mem_cons.mpr ⟨fun h => absurd h hentry, hj.not_repeated⟩
    · rw [newlyRunning_of_cons hrunning]
      exact List.forall_mem_singleton.mpr hentry

/-- **An event that is gone** stays away, and its handler is not called. -/
theorem Retired.after (hj : Retired i j s) (henabled : SchedEnabled s (act.numbered i)) :
    Retired (i + 1) j (s.after (act.numbered i)) ∧
      ∀ e ∈ newlyRunning s (s.after (act.numbered i)), e.number ≠ j := by
  have hqueued := timesQueued_eq_zero_iff.mp hj.timesQueued_eq
  have hlt : j < i + 1 := hj.lt.trans (Nat.lt_succ_self i)
  rcases act with ⟨args, now, now'⟩ | now | now | ⟨now, now'⟩
  case addEvent =>
    rw [SchedAct.numbered]
    obtain ⟨hrunning, hqueue⟩ := after_addEvent s { args with data := (i, args.data) } now now'
    refine ⟨⟨hlt, ?_, by rw [hrunning]; exact hj.not_repeated⟩, ?_⟩
    · refine timesQueued_eq_zero_iff.mpr fun e' he' => ?_
      rcases hqueue with ⟨e, he, hqueue⟩ | ⟨-, hqueue⟩
      · rw [hqueue] at he'
        rcases mem_enqueue.mp he' with he' | rfl
        · exact hqueued e' he'
        · have hnumber : e'.number = i := congrArg (fun args => args.data.1) he
          rw [hnumber]
          exact hj.lt.ne'
      · rw [hqueue] at he'
        exact hqueued e' he'
    · rw [newlyRunning_of_length_le (by rw [hrunning])]
      exact List.forall_mem_nil _
  case alarm => exact hj.wakeUp (.inl rfl)
  case explicitWakeUp => exact hj.wakeUp (.inr rfl)
  case handlerReturns =>
    rw [SchedAct.numbered]
    obtain ⟨entry, hrunning, hqueue⟩ := after_handlerReturns henabled
    have hrepeated := hj.not_repeated
    rw [hrunning] at hrepeated
    obtain ⟨hentry, hrest⟩ := List.forall_mem_cons.mp hrepeated
    refine ⟨⟨hlt, ?_, hrest⟩, ?_⟩
    · refine timesQueued_eq_zero_iff.mpr fun e' he' => ?_
      rcases hqueue with ⟨hagain, e, he, hqueue⟩ | ⟨-, hqueue⟩
      · rw [hqueue] at he'
        rcases mem_enqueue.mp he' with he' | rfl
        · exact hqueued e' he'
        · have hnumber : e'.number = entry.number := congrArg (fun args => args.data.1) he
          rw [hnumber]
          exact fun h => hentry h hagain
      · rw [hqueue] at he'
        exact hqueued e' he'
    · rw [newlyRunning_of_length_le (by rw [hrunning]; exact Nat.le_succ _)]
      exact List.forall_mem_nil _

/-- It stays away in every run. -/
theorem Retired.run (hj : Retired i j s) (acts : List (SchedAct η δ)) :
    (∀ e ∈ handlerCalls s (numberedFrom i acts), e.number ≠ j) ∧
      (s.endOf (numberedFrom i acts)).timesQueued j = 0 := by
  induction acts generalizing i s with
  | nil => exact ⟨List.forall_mem_nil _, hj.timesQueued_eq⟩
  | cons act acts ih =>
    rw [numberedFrom, handlerCalls, Scheduler.endOf]
    rcases hstep : s.step (act.numbered i) with - | s'
    · refine ⟨List.forall_mem_nil _, ?_⟩
      simp only
      split_ifs with henabled
      · exact (hj.after henabled).1.timesQueued_eq
      · exact hj.timesQueued_eq
    · obtain ⟨henabled, rfl⟩ := step_eq_some hstep
      obtain ⟨hnext, hnew⟩ := hj.after henabled
      obtain ⟨hcalls, hend⟩ := ih hnext
      refine ⟨fun e he => ?_, hend⟩
      rcases List.mem_append.mp he with he | he
      · exact hnew e he
      · exact hcalls e he

/-- An action calls one handler at most. -/
theorem newlyRunning_cases {act : SchedAct η (ℕ × δ)} (henabled : SchedEnabled s act) :
    newlyRunning s (s.after act) = [] ∨
      ∃ entry, newlyRunning s (s.after act) = [entry] ∧ entry ∈ (s.after act).running := by
  have hwakeUp (now : TimeVal) (hact : act = .alarm now ∨ act = .explicitWakeUp now) :
      newlyRunning s (s.after act) = [] ∨
        ∃ entry, newlyRunning s (s.after act) = [entry] ∧ entry ∈ (s.after act).running := by
    rcases after_wakeUp (s := s) hact with ⟨-, -, hrunning⟩ | ⟨entry, -, hrunning⟩
    · exact .inl (newlyRunning_of_length_le (by rw [hrunning]))
    split_ifs at hrunning
    · exact .inl (newlyRunning_of_length_le (by rw [hrunning]))
    · exact .inr ⟨entry, newlyRunning_of_cons hrunning, by rw [hrunning]; exact List.mem_cons_self⟩
  rcases act with ⟨args, now, now'⟩ | now | now | ⟨now, now'⟩
  case addEvent =>
    exact .inl (newlyRunning_of_length_le (by rw [(after_addEvent s args now now').1]))
  case alarm => exact hwakeUp now (.inl rfl)
  case explicitWakeUp => exact hwakeUp now (.inr rfl)
  case handlerReturns =>
    obtain ⟨entry, hrunning, -⟩ := after_handlerReturns henabled
    exact .inl (newlyRunning_of_length_le (by rw [hrunning]; exact Nat.le_succ _))

/-- An event that is running and not repeated will not come back. -/
theorem Ordered.retired (hs : Ordered i s) {entry : SchedEvent η (ℕ × δ)}
    (hentry : entry ∈ s.running) (hrepeated : ¬ isTrue entry.repeated) :
    Retired i entry.number s where
  lt := hs.lt _ (List.mem_append_right _ (List.mem_map_of_mem hentry))
  timesQueued_eq := hs.timesQueued_of_running hentry
  not_repeated := by
    intro e he hnumber
    have hnodup := (List.nodup_append.mp hs.nodup).2.1
    rwa [List.inj_on_of_nodup_map hnodup he hentry hnumber]

/-- **Events that are not repeated** run once at most. -/
theorem oneShotsOnce_of_ordered (hs : Ordered i s) (acts : List (SchedAct η δ)) :
    OneShotsOnce s (numberedFrom i acts) := by
  induction acts generalizing i s with
  | nil => exact ⟨List.nodup_nil, fun j hj => absurd hj List.not_mem_nil⟩
  | cons act acts ih =>
    rw [numberedFrom, OneShotsOnce, oneShotCalls, handlerCalls, Scheduler.endOf]
    rcases hstep : s.step (act.numbered i) with - | s'
    · exact ⟨List.nodup_nil, fun j hj => absurd hj List.not_mem_nil⟩
    obtain ⟨henabled, rfl⟩ := step_eq_some hstep
    have hs' := hs.after henabled
    obtain ⟨hnodup, hgone⟩ := ih hs'
    simp only
    rcases newlyRunning_cases henabled with hnone | ⟨entry, hnew, hentry⟩
    · rw [hnone, List.nil_append]
      exact ⟨hnodup, hgone⟩
    rw [hnew, List.singleton_append, List.filter_cons]
    split_ifs with hrepeated
    · -- the event has been called now, and it is not called later on
      have hretired := hs'.retired hentry (by simpa using hrepeated)
      obtain ⟨hcalls, hend⟩ := hretired.run acts
      refine ⟨List.nodup_cons.mpr ⟨fun hmem => ?_, hnodup⟩, fun j hj => ?_⟩
      · obtain ⟨e, he, hnumber⟩ := List.mem_map.mp hmem
        exact hcalls e (List.mem_filter.mp he).1 hnumber
      · rcases List.mem_cons.mp hj with rfl | hj
        · exact hend
        · exact hgone j hj
    · exact ⟨hnodup, hgone⟩

end Numbers

/-- An event of this application, at this time from now. -/
def eventOf (application : String) (sleepsec sleepusec : ℤ) : SchedArgs Unit Unit where
  application := some (.str (ascii application))
  sleepsec := .int sleepsec
  sleepusec := .int sleepusec
  type := some (.int 1)
  handler := some ()
  data := ()
  repeated := none

/-- Every run is in order, by that time and apart from those events. -/
def AllInOrder (time : SchedEvent Unit (ℕ × Unit) → ℚ)
    (skipped : SchedEvent Unit (ℕ × Unit) → Prop) : Prop :=
  ∀ (clock : TimeVal) (acts : List (SchedAct Unit Unit)),
    Along Scheduler.step (RunsInOrder time skipped) (Scheduler.new clock) (numberedFrom 0 acts) ∧
      OneShotsOnce (Scheduler.new clock) (numberedFrom 0 acts)

/-- The handler of an event of the scheduler itself is not called. -/
theorem not_allInOrder_internal : ¬ AllInOrder SchedEvent.due fun _ => False := by
  intro h
  have hadded : (exec Scheduler.step (Scheduler.new ⟨0, 0⟩) (numberedFrom 0
      [.addEvent (eventOf "__SCHEDULER" 1 0) ⟨0, 0⟩ ⟨0, 0⟩])).map (fun s =>
        (s.scheduler_queue.length, s.running.length,
          (s.after (.explicitWakeUp ⟨0, 0⟩)).running.length,
          decide (SchedEnabled s (.explicitWakeUp ⟨0, 0⟩)))) = some (1, 0, 0, true) := by
    decide +kernel
  obtain ⟨s, hexec, hs⟩ := Option.map_eq_some_iff.mp hadded
  simp only [Prod.mk.injEq, decide_eq_true_iff] at hs
  obtain ⟨hqueue, hrunning, hafter, henabled⟩ := hs
  obtain ⟨s', hstep, hend⟩ := exec_cons_eq_some.mp hexec
  rw [Option.some.inj hend] at hstep
  obtain ⟨entry, -, -, -, hcalled⟩ := ((h ⟨0, 0⟩
    [.addEvent (eventOf "__SCHEDULER" 1 0) ⟨0, 0⟩ ⟨0, 0⟩, .explicitWakeUp ⟨0, 0⟩]).1.2 _ hstep).1
      henabled (List.ne_nil_of_length_pos (by omega))
  have hlength : (s.after (.explicitWakeUp ⟨0, 0⟩)).running.length = s.running.length + 1 :=
    congrArg List.length (hcalled not_false)
  omega

/-- Of two events in `2 ^ 33` seconds, a microsecond apart, the one that was added first is taken
first. -/
theorem not_allInOrder_tie : ¬ AllInOrder SchedEvent.time SchedEvent.IsInternal := by
  intro h
  have hadded : (exec Scheduler.step (Scheduler.new ⟨0, 0⟩) (numberedFrom 0
      [.addEvent (eventOf "client" (2 ^ 33) 2) ⟨0, 0⟩ ⟨0, 0⟩,
        .addEvent (eventOf "client" (2 ^ 33) 1) ⟨0, 0⟩ ⟨0, 0⟩])).map (fun s =>
        (s.scheduler_queue.map fun e => (e.number, e.time),
          (s.after (.explicitWakeUp ⟨0, 0⟩)).timesQueued 1,
          decide (SchedEnabled s (.explicitWakeUp ⟨0, 0⟩))))
      = some ([(0, 2 ^ 33 + 2 / 1000000), (1, 2 ^ 33 + 1 / 1000000)], 1, true) := by
    decide +kernel
  obtain ⟨s, hexec, hs⟩ := Option.map_eq_some_iff.mp hadded
  simp only [Prod.mk.injEq, decide_eq_true_iff] at hs
  obtain ⟨hqueue, hafter, henabled⟩ := hs
  obtain ⟨s₁, hstep₁, hexec⟩ := exec_cons_eq_some.mp hexec
  obtain ⟨s₂, hstep₂, hend⟩ := exec_cons_eq_some.mp hexec
  rw [Option.some.inj hend] at hstep₂
  have hwakeUp := (((h ⟨0, 0⟩ [.addEvent (eventOf "client" (2 ^ 33) 2) ⟨0, 0⟩ ⟨0, 0⟩,
    .addEvent (eventOf "client" (2 ^ 33) 1) ⟨0, 0⟩ ⟨0, 0⟩, .explicitWakeUp ⟨0, 0⟩]).1.2 _
      hstep₁).2 _ hstep₂).1
  have hne : (s.scheduler_queue.map fun e => (e.number, e.time)) ≠ [] := by
    rw [hqueue]
    exact List.cons_ne_nil _ _
  obtain ⟨entry, hentry, hleast, htaken, -⟩ :=
    hwakeUp henabled (mt (fun hnil => by rw [hnil, List.map_nil]) hne)
  have hfirst : (entry.number, entry.time) ∈
      [(0, (2 ^ 33 + 2 / 1000000 : ℚ)), (1, 2 ^ 33 + 1 / 1000000)] := by
    rw [← hqueue]
    exact List.mem_map_of_mem hentry
  obtain ⟨other, hother, hsecond⟩ : ∃ e ∈ s.scheduler_queue,
      (e.number, e.time) = (1, (2 ^ 33 + 1 / 1000000 : ℚ)) := by
    refine List.mem_map.mp ?_
    rw [hqueue]
    exact List.mem_cons_of_mem _ (List.mem_singleton_self _)
  have hle := hleast other hother
  rw [(Prod.mk.inj hsecond).2] at hle
  simp only [List.mem_cons, List.not_mem_nil, or_false, Prod.mk.injEq] at hfirst
  obtain ⟨-, htime⟩ | ⟨hnumber, -⟩ := hfirst
  · rw [htime] at hle
    norm_num at hle
  · -- the other event is still in the queue
    have hone : (s.after (.explicitWakeUp ⟨0, 0⟩)).timesQueued 1 = 0 := hnumber ▸ htaken
    omega

/-- A member of an entry of the queue that is a string. There is no member `app`. -/
def SchedEvent.member (e : SchedEvent η δ) (name : String) : Option Scalar :=
  if name = "application" then e.application
  else if name = "type" then e.type
  else if name = "repeated" then e.repeated
  else none

/-- A Perl scalar as a string. -/
def stringOf (v : Option Scalar) : CString := (v.map Scalar.text).getD []

/-- `!`, which is `1` or empty. -/
def notOf (v : Option Scalar) : CString := if isTrue v then [] else ascii "1"

/-- `schedulerRemoveEventsForApp`: `! $_->{'app'} eq $app` is `(! $_->{'app'}) eq $app`. -/
def Scheduler.schedulerRemoveEventsForApp (s : Scheduler η δ) (app : Option Scalar) :
    Except String (Scheduler η δ) :=
  if ¬ isTrue app then .error "Application name not found!"
  else .ok { s with scheduler_queue :=
    s.scheduler_queue.filter fun e => notOf (e.member "app") = stringOf app }

/-- What is asked of it: the events of the other applications are left, in their order. -/
def RemovesFor (s : Scheduler η δ) (app : Option Scalar) : Prop :=
  ∃ s', s.schedulerRemoveEventsForApp app = .ok s' ∧ s'.scheduler_queue =
    s.scheduler_queue.filter fun e => stringOf e.application ≠ stringOf app

/-- **What is left**: everything if the application is called `1`, and else nothing. -/
theorem schedulerRemoveEventsForApp_eq {app : Option Scalar} (h : isTrue app) :
    s.schedulerRemoveEventsForApp app = .ok { s with
      scheduler_queue := if stringOf app = ascii "1" then s.scheduler_queue else [] } := by
  rw [Scheduler.schedulerRemoveEventsForApp, if_neg (not_not.mpr h)]
  have hmember (e : SchedEvent η δ) : notOf (e.member "app") = ascii "1" := rfl
  simp only [hmember]
  by_cases happ : stringOf app = ascii "1"
  · simp [happ]
  · simp [happ, Ne.symm happ]

/-- **When the events of an application are removed**: if it has a name that counts as true, and
either it is `1`, and there are no events of it, or all events are of it. -/
theorem removesFor_iff (s : Scheduler η δ) (app : Option Scalar) : RemovesFor s app ↔
    isTrue app ∧ ∀ e ∈ s.scheduler_queue,
      (stringOf e.application = stringOf app ↔ stringOf app ≠ ascii "1") := by
  by_cases htrue : isTrue app
  · have hleft : RemovesFor s app ↔
        (if stringOf app = ascii "1" then s.scheduler_queue else [])
          = s.scheduler_queue.filter fun e => stringOf e.application ≠ stringOf app := by
      rw [RemovesFor, schedulerRemoveEventsForApp_eq htrue]
      constructor
      · rintro ⟨s', hs', hqueue⟩
        obtain rfl := Except.ok.inj hs'
        exact hqueue
      · exact fun hqueue => ⟨_, rfl, hqueue⟩
    rw [hleft, and_iff_right htrue]
    by_cases happ : stringOf app = ascii "1"
    · rw [if_pos happ, eq_comm, List.filter_eq_self]
      refine forall₂_congr fun e _ => ?_
      rw [decide_eq_true_iff]
      exact ⟨fun hne => iff_of_false hne (not_not.mpr happ), fun h heq => h.mp heq happ⟩
    · rw [if_neg happ, eq_comm, List.filter_eq_nil_iff]
      refine forall₂_congr fun e _ => ?_
      rw [decide_eq_true_iff, not_not]
      exact ⟨fun heq => iff_of_true heq happ, fun h => h.mpr happ⟩
  · rw [RemovesFor, Scheduler.schedulerRemoveEventsForApp, if_pos htrue]
    refine iff_of_false ?_ fun h => htrue h.1
    rintro ⟨s', hs', -⟩
    cases hs'

/-- With events of two applications in the queue, those of the other one are removed as well. -/
theorem not_removesFor_two : ¬ ∀ (acts : List (SchedAct Unit Unit)) (s : Scheduler Unit Unit)
    (app : Option Scalar), exec Scheduler.step (Scheduler.new ⟨0, 0⟩) acts = some s →
      RemovesFor s app := by
  intro h
  have hother : (exec Scheduler.step (Scheduler.new ⟨0, 0⟩)
      [.addEvent (eventOf "a" 1 0) ⟨0, 0⟩ ⟨0, 0⟩, .addEvent (eventOf "b" 1 0) ⟨0, 0⟩ ⟨0, 0⟩]).map (fun s =>
        (s.scheduler_queue.filter fun e =>
          stringOf e.application ≠ stringOf (some (.str (ascii "a")))).length) = some 1 := by
    decide +kernel
  obtain ⟨s, hexec, hlength⟩ := Option.map_eq_some_iff.mp hother
  obtain ⟨s', hs', hqueue⟩ := h _ s _ hexec
  have htrue : isTrue (some (.str (ascii "a"))) := by decide +kernel
  have hone : stringOf (some (.str (ascii "a"))) ≠ ascii "1" := by decide +kernel
  rw [schedulerRemoveEventsForApp_eq htrue, if_neg hone] at hs'
  obtain rfl := Except.ok.inj hs'
  rw [← hqueue] at hlength
  cases hlength

end Peep
