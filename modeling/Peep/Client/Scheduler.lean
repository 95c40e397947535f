import Mathlib.Data.List.Sort
import Peep.Client.Notice
import Peep.Library.StepSystem

/-!
# The scheduler of the clients

`Net::Peep::Scheduler` keeps its events in `@scheduler_queue`, sorted by the time they are due.
There is one alarm. `schedulerSleep` sets it to the interval from now to the time of the first
event, and `schedulerWakeUp`, which the alarm runs, takes the first event out and calls its handler.

The interval need not be positive. If the first event is due at the very moment `schedulerSleep`
reads the clock, the interval is zero, which counts as no interval at all, and no alarm is set. If
it was due before, the interval is negative, and `alarm` dies. If it is less than a microsecond,
`alarm` takes an alarm away that was set before. And an explicit wake-up that takes the last event
leaves the alarm as it is, which then wakes up a scheduler without events.

## Choices

The time of every reading of the clock is part of an action. A handler may do anything: the wake-up
that called it is over when it returns, and any number of other actions may come before. Seconds and
microseconds are numbers as in `Peep.Client.Numbers`, and two of them are compared as they are.
`sort` leaves what is equal in its order.

## Main results

* `along_neverDeaf_iff` — the runs in which no operation dies, and each leaves an alarm if it
  leaves an event
-/

namespace Peep

open Decimal Double Pcm StepSystem

/-! ## Time -/

/-- What `gettimeofday` returns. -/
structure TimeVal where
  /-- The seconds. -/
  sec : ℤ
  /-- The microseconds. -/
  usec : ℤ

/-- The seconds of both. -/
def TimeVal.seconds (t : TimeVal) : ℚ := t.sec + t.usec / 1000000

/-- A `schedule_time`. -/
structure ScheduleTime where
  /-- The seconds. -/
  sec : Number
  /-- The microseconds, of which there may be any number. -/
  usec : Number

/-- What the queue is sorted by. -/
def ScheduleTime.due (t : ScheduleTime) : ℚ :=
  (t.sec + .double (toDouble (1 / 1000000)) * t.usec).value

/-- `tv_interval` of `Time::HiRes`, from a reading of the clock. -/
def tv_interval (a : TimeVal) (b : ScheduleTime) : Number :=
  (b.sec - .int a.sec) + (b.usec - .int a.usec) / .int 1000000

/-- The microseconds that `alarm` of `Time::HiRes` hands to `setitimer`. -/
def alarmMicroseconds (delay : ℚ) : ℤ :=
  truncate delay * 1000000 + truncate (toDouble (1000000 * (delay - truncate delay)))

/-! ## Events -/

/-- Whether a Perl scalar counts as true. -/
def isTrue : Option Scalar → Bool
  | none => false
  | some (.int n) => n ≠ 0
  | some (.str s) => s ≠ [] ∧ s ≠ ascii "0"

variable {η δ : Type}

/-- The arguments of `schedulerAddEvent`. -/
structure SchedArgs (η δ : Type) where
  /-- `$app`. -/
  application : Option Scalar
  /-- `$sleepsec`. -/
  sleepsec : Number
  /-- `$sleepusec`. -/
  sleepusec : Number
  /-- `$type`. -/
  type : Option Scalar
  /-- `$handler`. -/
  handler : Option η
  /-- `$data`. -/
  data : δ
  /-- `$repeated`. -/
  repeated : Option Scalar

/-- The sanity checks of `schedulerAddEvent`. -/
def SchedArgs.check (args : SchedArgs η δ) : Except String Unit :=
  if ¬ isTrue args.application then
    .error "Error: No application name given to scheduler when adding event."
  else if ¬ (0 < args.sleepsec.value ∨ 0 < args.sleepusec.value) then
    .error "Error: Wakeup given to scheduler is in the past."
  else if ¬ isTrue args.type then
    .error "Error: No scheduled event type given to scheduler when adding event."
  else if args.handler.isNone then
    .error "Error: No handler given to scheduler when adding event."
  else .ok ()

/-- An event of the queue. -/
structure SchedEvent (η δ : Type) extends SchedArgs η δ where
  /-- `schedule_time`. -/
  schedule_time : ScheduleTime
  /-- The arguments passed the checks. -/
  checked : toSchedArgs.check = .ok ()

/-- The event is one of the scheduler itself. -/
def SchedEvent.IsInternal (e : SchedEvent η δ) : Prop :=
  e.application.map Scalar.text = some (ascii "__SCHEDULER")

instance (e : SchedEvent η δ) : Decidable e.IsInternal := inferInstanceAs (Decidable (_ = _))

/-- When the event is due, for the queue. -/
def SchedEvent.due (e : SchedEvent η δ) : ℚ := e.schedule_time.due

/-- The schedule time that an event added then has. -/
def SchedArgs.wakeup (args : SchedArgs η δ) (now : TimeVal) : ScheduleTime where
  sec := .int now.sec + args.sleepsec
  usec := .int now.usec + args.sleepusec

/-! ## The scheduler -/

/-- The state of the scheduler. -/
structure Scheduler (η δ : Type) where
  /-- `@scheduler_queue`. -/
  scheduler_queue : List (SchedEvent η δ)
  /-- The events whose handlers have been called and have not returned, the last one first. -/
  running : List (SchedEvent η δ)
  /-- When the alarm goes off, if it is set. -/
  alarm : Option ℚ
  /-- The last reading of the clock. -/
  clock : TimeVal

/-- The scheduler at the end of `new`. -/
def Scheduler.new (clock : TimeVal) : Scheduler η δ where
  scheduler_queue := []
  running := []
  alarm := none
  clock := clock

/-- What an operation comes to: it completes, or dies with a message. Either way it leaves the
scheduler in a state. -/
abbrev Outcome (η δ : Type) := Except (String × Scheduler η δ) (Scheduler η δ)

/-- The state that is left. -/
def Outcome.state : Outcome η δ → Scheduler η δ
  | .ok s => s
  | .error (_, s) => s

/-- `alarm` of `Time::HiRes`. -/
def Scheduler.setAlarm (s : Scheduler η δ) (now : TimeVal) (delay : ℚ) : Outcome η δ :=
  if delay < 0 then .error ("Time::HiRes::alarm: negative time not invented yet", s)
  else if 2 ^ 63 ≤ delay then
    .error ("Time::HiRes::alarm: seconds or interval too large to split correctly", s)
  else if alarmMicroseconds delay = 0 then .ok { s with alarm := none }
  else .ok { s with alarm := some (now.seconds + alarmMicroseconds delay / 1000000) }

/-- `schedulerCalcSleepTime`. -/
def Scheduler.schedulerCalcSleepTime (s : Scheduler η δ) (now : TimeVal) : Option Number :=
  s.scheduler_queue.head?.map fun nextent => tv_interval now nextent.schedule_time

/-- `schedulerSleep`, without an argument. -/
def Scheduler.schedulerSleep (s : Scheduler η δ) (now : TimeVal) : Outcome η δ :=
  match s.schedulerCalcSleepTime now with
  | none => .ok s
  | some sleeptime =>
    if sleeptime.value = 0 then .ok s else s.setAlarm now sleeptime.toDouble

/-- The queue after `push` and `sort`. -/
def enqueue (queue : List (SchedEvent η δ)) (e : SchedEvent η δ) : List (SchedEvent η δ) :=
  (queue ++ [e]).insertionSort fun a b => a.due ≤ b.due

/-- `schedulerAddEvent`; it reads the clock twice. -/
def Scheduler.schedulerAddEvent (s : Scheduler η δ) (args : SchedArgs η δ) (now now' : TimeVal) :
    Outcome η δ :=
  match h : args.check with
  | .error e => .error (e, s)
  | .ok () =>
    let entry := { args with schedule_time := args.wakeup now, checked := h }
    Scheduler.schedulerSleep { s with scheduler_queue := enqueue s.scheduler_queue entry } now'

/-- `schedulerWakeUp`, to the call of the handler. -/
def Scheduler.schedulerWakeUp (s : Scheduler η δ) (now : TimeVal) : Outcome η δ :=
  match s.scheduler_queue with
  | [] => .error ("Can't use an undefined value as a subroutine reference", s)
  | entry :: rest =>
    if entry.IsInternal then
      Scheduler.schedulerSleep { s with scheduler_queue := rest } now
    else .ok { s with scheduler_queue := rest, running := entry :: s.running }

/-- The rest of `schedulerWakeUp`, after the handler of that event. -/
def Scheduler.handlerReturned (s : Scheduler η δ) (entry : SchedEvent η δ) (now now' : TimeVal) :
    Outcome η δ :=
  if isTrue entry.repeated then s.schedulerAddEvent entry.toSchedArgs now now'
  else s.schedulerSleep now'

/-! ## Runs -/

/-- What happens to a scheduler. -/
inductive SchedAct (η δ : Type)
  /-- An event is added. -/
  | addEvent (args : SchedArgs η δ) (now now' : TimeVal)
  /-- The alarm goes off. -/
  | alarm (now : TimeVal)
  /-- `schedulerExplicitWakeUp` is called. -/
  | explicitWakeUp (now : TimeVal)
  /-- The handler that was called last returns. -/
  | handlerReturns (now now' : TimeVal)

/-- The readings of the clock. -/
def SchedAct.readings : SchedAct η δ → TimeVal × TimeVal
  | .addEvent _ now now' => (now, now')
  | .alarm now => (now, now)
  | .explicitWakeUp now => (now, now)
  | .handlerReturns now now' => (now, now')

/-- The clock does not go back, the alarm is set and due if it goes off, and a handler runs if it
returns. -/
def SchedEnabled (s : Scheduler η δ) (act : SchedAct η δ) : Prop :=
  s.clock.seconds ≤ act.readings.1.seconds ∧ act.readings.1.seconds ≤ act.readings.2.seconds ∧
    match act with
    | .alarm now => ∃ time ∈ s.alarm, time ≤ now.seconds
    | .handlerReturns _ _ => s.running ≠ []
    | _ => True

/-- Events need not be comparable for a list of them to be found empty. -/
instance decidableNoEvents (events : List (SchedEvent η δ)) : Decidable (events ≠ []) :=
  match events with
  | [] => .isFalse fun h => h rfl
  | _ :: _ => .isTrue (List.cons_ne_nil _ _)

instance (s : Scheduler η δ) (act : SchedAct η δ) : Decidable (SchedEnabled s act) :=
  match act with
  | .addEvent _ _ _ => inferInstanceAs (Decidable (_ ∧ _ ∧ True))
  | .alarm now => inferInstanceAs (Decidable (_ ∧ _ ∧ ∃ time ∈ s.alarm, time ≤ now.seconds))
  | .explicitWakeUp _ => inferInstanceAs (Decidable (_ ∧ _ ∧ True))
  | .handlerReturns _ _ => inferInstanceAs (Decidable (_ ∧ _ ∧ s.running ≠ []))

/-- What the action does. -/
def SchedAct.perform (s : Scheduler η δ) : SchedAct η δ → Outcome η δ
  | .addEvent args now now' => s.schedulerAddEvent args now now'
  | .alarm now => Scheduler.schedulerWakeUp { s with alarm := none } now
  | .explicitWakeUp now => s.schedulerWakeUp now
  | .handlerReturns now now' =>
    match s.running with
    | [] => .ok s
    | entry :: rest => Scheduler.handlerReturned { s with running := rest } entry now now'

/-- The state that the action leaves, also if it dies. -/
def Scheduler.after (s : Scheduler η δ) (act : SchedAct η δ) : Scheduler η δ :=
  (act.perform { s with clock := act.readings.2 }).state

/-- One step of a run. An operation that dies ends it. -/
def Scheduler.step (s : Scheduler η δ) (act : SchedAct η δ) : Option (Scheduler η δ) :=
  if SchedEnabled s act then
    (act.perform { s with clock := act.readings.2 }).toOption
  else none

/-- An alarm is set, with a positive delay. -/
def Scheduler.Armed (s : Scheduler η δ) : Prop := ∃ time ∈ s.alarm, s.clock.seconds < time

/-- The outcome of an action that completes, and that leaves no events without an alarm if no more
than so many handlers are running: if it does not end with the call of one. -/
def CompletesArmed (running : ℕ) (outcome : Outcome η δ) : Prop :=
  match outcome with
  | .error _ => False
  | .ok s => s.running.length ≤ running → s.scheduler_queue ≠ [] → s.Armed

instance (running : ℕ) (outcome : Outcome η δ) :
    Decidable (CompletesArmed running outcome) :=
  match outcome with
  | .error _ => .isFalse not_false
  | .ok s => inferInstanceAs
      (Decidable (_ ≤ _ → s.scheduler_queue ≠ [] → ∃ time ∈ s.alarm, s.clock.seconds < time))

/-- The action completes, and if it ends an operation that leaves events then an alarm is set. -/
def NeverDeaf (s : Scheduler η δ) (act : SchedAct η δ) : Prop :=
  SchedEnabled s act →
    CompletesArmed s.running.length (act.perform { s with clock := act.readings.2 })

instance (s : Scheduler η δ) (act : SchedAct η δ) : Decidable (NeverDeaf s act) :=
  inferInstanceAs (Decidable (_ → _))

/-- An alarm is set for this interval, of a microsecond at least, or the interval is zero and an
alarm is still to come. -/
def Ahead (alarm : Option ℚ) (now : TimeVal) (interval : Number) : Prop :=
  (0 < alarmMicroseconds interval.toDouble ∧ interval.toDouble < 2 ^ 63) ∨
    interval.value = 0 ∧ ∃ time ∈ alarm, now.seconds < time

/-- The first event is ahead. -/
def FirstAhead (alarm : Option ℚ) (now : TimeVal) (queue : List (SchedEvent η δ)) : Prop :=
  ∀ first ∈ queue.head?, Ahead alarm now (tv_interval now first.schedule_time)

/-- The same with a new event for this time: it is the first if it is due before the others. -/
def FirstAheadWith (alarm : Option ℚ) (now : TimeVal) (queue : List (SchedEvent η δ))
    (time : ScheduleTime) : Prop :=
  ((∀ first ∈ queue.head?, time.due < first.due) → Ahead alarm now (tv_interval now time)) ∧
    ∀ first ∈ queue.head?, first.due ≤ time.due →
      Ahead alarm now (tv_interval now first.schedule_time)

/-- `schedulerAddEvent` is given valid arguments, and the first event is ahead when it reads the
clock for the second time, the new one included. -/
def AddsAhead (s : Scheduler η δ) (args : SchedArgs η δ) (now now' : TimeVal) : Prop :=
  args.check = .ok () ∧ FirstAheadWith s.alarm now' s.scheduler_queue (args.wakeup now)

/-- There is an event to wake up for, and if it has no handler then the next one is ahead. -/
def WakesAhead (s : Scheduler η δ) (now : TimeVal) : Prop :=
  s.scheduler_queue ≠ [] ∧
    ∀ entry ∈ s.scheduler_queue.head?,
      entry.IsInternal → FirstAhead s.alarm now s.scheduler_queue.tail

/-- Operations are given valid arguments, wake-ups find an event, and when an operation last reads
the clock the first event that stays in the queue, or is put there, is ahead. -/
def OnTime (s : Scheduler η δ) (act : SchedAct η δ) : Prop :=
  SchedEnabled s act →
    match act with
    | .addEvent args now now' => AddsAhead s args now now'
    | .alarm now => WakesAhead { s with alarm := none } now
    | .explicitWakeUp now => WakesAhead s now
    | .handlerReturns now now' =>
      ∀ entry ∈ s.running.head?,
        if isTrue entry.repeated then
          FirstAheadWith s.alarm now' s.scheduler_queue (entry.wakeup now)
        else FirstAhead s.alarm now' s.scheduler_queue

variable {s s' : Scheduler η δ} {act : SchedAct η δ} {args : SchedArgs η δ}
  {now now' : TimeVal} {queue : List (SchedEvent η δ)} {e entry : SchedEvent η δ}

/-! ## Alarms -/

theorem alarmMicroseconds_nonneg {delay : ℚ} (h : 0 ≤ delay) : 0 ≤ alarmMicroseconds delay := by
  have htrunc := truncate_nonneg h
  have hrest : (0 : ℚ) ≤ delay - truncate delay := by
    rw [truncate_of_nonneg h]
    exact sub_nonneg.mpr (Int.floor_le delay)
  have hmicro := truncate_nonneg (toDouble_nonneg (mul_nonneg (by norm_num) hrest) :
    0 ≤ toDouble (1000000 * (delay - truncate delay)))
  rw [alarmMicroseconds]
  omega

theorem alarmMicroseconds_neg (delay : ℚ) :
    alarmMicroseconds (-delay) = -alarmMicroseconds delay := by
  have hrest : (1000000 : ℚ) * (-delay - ((-truncate delay : ℤ) : ℚ))
      = -(1000000 * (delay - truncate delay)) := by
    push_cast
    ring
  rw [alarmMicroseconds, alarmMicroseconds, truncate_neg, hrest, toDouble_neg, truncate_neg]
  ring

theorem alarmMicroseconds_nonpos {delay : ℚ} (h : delay ≤ 0) : alarmMicroseconds delay ≤ 0 := by
  have hneg := alarmMicroseconds_nonneg (neg_nonneg.mpr h)
  rw [alarmMicroseconds_neg] at hneg
  omega

/-! ## The queue -/

/-- The queue is sorted by the times the events are due. -/
def DueSorted (queue : List (SchedEvent η δ)) : Prop :=
  queue.Pairwise fun a b => a.due ≤ b.due

theorem mem_enqueue : e ∈ enqueue queue entry ↔ e ∈ queue ∨ e = entry := by
  rw [enqueue, List.mem_insertionSort, List.mem_append, List.mem_singleton]

instance : Std.Total fun a b : SchedEvent η δ => a.due ≤ b.due := ⟨fun a b => le_total a.due b.due⟩

instance : IsTrans (SchedEvent η δ) fun a b => a.due ≤ b.due := ⟨fun _ _ _ => le_trans⟩

theorem dueSorted_enqueue (queue : List (SchedEvent η δ)) (entry : SchedEvent η δ) :
    DueSorted (enqueue queue entry) :=
  List.pairwise_insertionSort _ _

/-- **The first event**: the new one if it is due before the others. -/
theorem head?_enqueue (hsorted : DueSorted queue) : (enqueue queue entry).head?
    = if ∀ first ∈ queue.head?, entry.due < first.due then some entry else queue.head? := by
  induction queue with
  | nil => simp [enqueue]
  | cons f rest ih =>
    obtain ⟨hf, hrest⟩ := List.pairwise_cons.mp hsorted
    have hinsert : enqueue (f :: rest) entry
        = (enqueue rest entry).orderedInsert (fun a b => a.due ≤ b.due) f := rfl
    have hhead (b : SchedEvent η δ) (hb : (enqueue rest entry).head? = some b) :
        (enqueue (f :: rest) entry).head? = if f.due ≤ b.due then some f else some b := by
      obtain ⟨l, hl⟩ := List.head?_eq_some_iff.mp hb
      rw [hinsert, hl, List.orderedInsert_cons]
      split_ifs <;> rfl
    rw [List.head?_cons]
    simp only [Option.mem_some_iff, forall_eq']
    rcases rest with - | ⟨g, rest⟩
    · rw [hhead entry (by simp [enqueue])]
      simp only [← not_le, ite_not]
    · have hfg := hf g List.mem_cons_self
      have ih := ih hrest
      simp only [List.head?_cons, Option.mem_some_iff, forall_eq'] at ih
      by_cases hg : entry.due < g.due
      · rw [if_pos hg] at ih
        rw [hhead entry ih]
        simp only [← not_le, ite_not]
      · -- the event behind the first one is not after the new one
        rw [if_neg hg] at ih
        rw [hhead g ih, if_pos hfg, if_neg (hfg.trans (not_lt.mp hg)).not_gt]

theorem firstAhead_enqueue {alarm : Option ℚ} (hsorted : DueSorted queue) :
    FirstAhead alarm now (enqueue queue entry) ↔
      FirstAheadWith alarm now queue entry.schedule_time := by
  rw [FirstAhead, head?_enqueue hsorted, FirstAheadWith]
  split_ifs with hfirst
  · simp only [Option.mem_some_iff, forall_eq']
    refine ⟨fun h => ⟨fun _ => h, fun first hmem hle => ?_⟩, fun h => h.1 hfirst⟩
    exact absurd (hfirst first hmem) hle.not_gt
  · refine ⟨fun h => ⟨fun hlt => absurd hlt hfirst, fun first hmem _ => h first hmem⟩,
      fun h first hmem => h.2 first hmem (not_lt.mp fun hlt => hfirst fun f hf => ?_)⟩
    obtain rfl := Option.mem_unique hf hmem
    exact hlt

/-! ## `schedulerSleep` -/

/-- The outcome of an operation that ends: it completes, and leaves an alarm if it leaves an
event. -/
def EndsArmed (outcome : Outcome η δ) : Prop :=
  match outcome with
  | .error _ => False
  | .ok s => s.scheduler_queue ≠ [] → s.Armed

/-- **`schedulerSleep` leaves an alarm exactly if the first event is ahead.** -/
theorem endsArmed_schedulerSleep (hclock : s.clock = now) :
    EndsArmed (s.schedulerSleep now) ↔ FirstAhead s.alarm now s.scheduler_queue := by
  obtain ⟨queue, running, alarm, clock⟩ := s
  obtain rfl : clock = now := hclock
  rcases queue with - | ⟨head, rest⟩
  · simp [Scheduler.schedulerSleep, Scheduler.schedulerCalcSleepTime, EndsArmed, FirstAhead]
  obtain ⟨interval, hinterval⟩ : ∃ i, i = tv_interval clock head.schedule_time := ⟨_, rfl⟩
  simp only [Scheduler.schedulerSleep, Scheduler.schedulerCalcSleepTime, List.head?_cons,
    Option.map_some, ← hinterval, Scheduler.setAlarm, FirstAhead, Option.mem_some_iff, forall_eq']
  have hnonempty : head :: rest ≠ [] := List.cons_ne_nil _ _
  split_ifs with hzero hneg hlarge hnone
  · -- no alarm is set, and the one before stays
    constructor
    · exact fun h => .inr ⟨hzero, h hnonempty⟩
    · rintro (⟨hpos, -⟩ | ⟨-, h⟩)
      · rw [Number.toDouble, hzero, toDouble_zero] at hpos
        exact absurd hpos (alarmMicroseconds_nonpos le_rfl).not_gt
      · exact fun _ => h
  · refine iff_of_false not_false ?_
    rintro (⟨hpos, -⟩ | ⟨h, -⟩)
    · exact hpos.not_ge (alarmMicroseconds_nonpos hneg.le)
    · exact hzero h
  · refine iff_of_false not_false ?_
    rintro (⟨-, hlt⟩ | ⟨h, -⟩)
    · exact hlt.not_ge hlarge
    · exact hzero h
  · constructor
    · intro h
      obtain ⟨time, htime, -⟩ := h hnonempty
      cases htime
    · rintro (⟨hpos, -⟩ | ⟨h, -⟩)
      · exact absurd hnone hpos.ne'
      · exact absurd h hzero
  · have hpos : 0 < alarmMicroseconds interval.toDouble :=
      (alarmMicroseconds_nonneg (not_lt.mp hneg)).lt_of_ne' hnone
    refine iff_of_true (fun _ => ⟨_, rfl, ?_⟩) (.inl ⟨hpos, not_le.mp hlarge⟩)
    have hcast : (0 : ℚ) < alarmMicroseconds interval.toDouble := by exact_mod_cast hpos
    exact lt_add_of_pos_right _ (by positivity)

/-- It changes the alarm only. -/
theorem state_schedulerSleep (s : Scheduler η δ) (now : TimeVal) :
    ∃ alarm, (s.schedulerSleep now).state = { s with alarm := alarm } := by
  rw [Scheduler.schedulerSleep]
  split
  · exact ⟨s.alarm, rfl⟩
  · split_ifs
    · exact ⟨s.alarm, rfl⟩
    · rw [Scheduler.setAlarm]
      split_ifs <;> exact ⟨_, rfl⟩

@[simp] theorem scheduler_queue_schedulerSleep (s : Scheduler η δ) (now : TimeVal) :
    (s.schedulerSleep now).state.scheduler_queue = s.scheduler_queue := by
  obtain ⟨alarm, h⟩ := state_schedulerSleep s now
  rw [h]

@[simp] theorem running_schedulerSleep (s : Scheduler η δ) (now : TimeVal) :
    (s.schedulerSleep now).state.running = s.running := by
  obtain ⟨alarm, h⟩ := state_schedulerSleep s now
  rw [h]

/-! ## The operations -/

/-- `schedulerAddEvent` leaves an alarm exactly if its arguments are valid and the first event is
ahead, the new one included. -/
theorem endsArmed_schedulerAddEvent (hsorted : DueSorted s.scheduler_queue)
    (hclock : s.clock = now') :
    EndsArmed (s.schedulerAddEvent args now now') ↔ AddsAhead s args now now' := by
  rw [Scheduler.schedulerAddEvent, AddsAhead]
  split
  next msg h =>
    refine iff_of_false not_false fun hadds => ?_
    rw [h] at hadds
    cases hadds.1
  next h =>
    refine (endsArmed_schedulerSleep ?_).trans ?_
    · exact hclock
    · rw [and_iff_right h]
      exact firstAhead_enqueue hsorted

/-- **What `schedulerAddEvent` leaves**, whether it dies or not: the event is in the queue if the
arguments are valid. -/
theorem schedulerAddEvent_cases (s : Scheduler η δ) (args : SchedArgs η δ) (now now' : TimeVal) :
    (s.schedulerAddEvent args now now').state.running = s.running ∧
      ((∃ e : SchedEvent η δ, e.toSchedArgs = args ∧
          (s.schedulerAddEvent args now now').state.scheduler_queue
            = enqueue s.scheduler_queue e) ∨
        args.check ≠ .ok () ∧
          (s.schedulerAddEvent args now now').state.scheduler_queue = s.scheduler_queue) := by
  rw [Scheduler.schedulerAddEvent]
  split
  next msg h => exact ⟨rfl, .inr ⟨by simp [h], rfl⟩⟩
  next h =>
    refine ⟨running_schedulerSleep _ _, .inl ⟨⟨args, args.wakeup now, h⟩, rfl, ?_⟩⟩
    exact scheduler_queue_schedulerSleep _ _

/-- After a handler, an alarm is left exactly if the first event is ahead, that one included if it
is repeated. -/
theorem endsArmed_handlerReturned (hsorted : DueSorted s.scheduler_queue)
    (hclock : s.clock = now') :
    EndsArmed (s.handlerReturned entry now now') ↔
      if isTrue entry.repeated then FirstAheadWith s.alarm now' s.scheduler_queue (entry.wakeup now)
      else FirstAhead s.alarm now' s.scheduler_queue := by
  rw [Scheduler.handlerReturned]
  split_ifs with hrepeated
  · -- the arguments passed the checks when the event was added
    rw [endsArmed_schedulerAddEvent hsorted hclock, AddsAhead, and_iff_right entry.checked]
  · exact endsArmed_schedulerSleep hclock

/-- **What is left when a handler has returned**: the event is back in the queue if it is
repeated. -/
theorem handlerReturned_cases (s : Scheduler η δ) (entry : SchedEvent η δ) (now now' : TimeVal) :
    (s.handlerReturned entry now now').state.running = s.running ∧
      ((isTrue entry.repeated ∧ ∃ e : SchedEvent η δ, e.toSchedArgs = entry.toSchedArgs ∧
          (s.handlerReturned entry now now').state.scheduler_queue
            = enqueue s.scheduler_queue e) ∨
        ¬ isTrue entry.repeated ∧
          (s.handlerReturned entry now now').state.scheduler_queue = s.scheduler_queue) := by
  rw [Scheduler.handlerReturned]
  split_ifs with hrepeated
  · obtain ⟨hrunning, hadded | ⟨hcheck, -⟩⟩ :=
      schedulerAddEvent_cases s entry.toSchedArgs now now'
    · exact ⟨hrunning, .inl ⟨hrepeated, hadded⟩⟩
    · exact absurd entry.checked hcheck
  · exact ⟨running_schedulerSleep _ _, .inr ⟨hrepeated, scheduler_queue_schedulerSleep _ _⟩⟩

/-- An action that calls no handler ends an operation. -/
theorem completesArmed_iff {running : ℕ} {outcome : Outcome η δ}
    (h : outcome.state.running.length ≤ running) :
    CompletesArmed running outcome ↔ EndsArmed outcome := by
  rcases outcome with died | s
  · rfl
  · exact ⟨fun hs => hs h, fun hs _ => hs⟩

/-- A wake-up finds an event, and leaves an alarm if it calls no handler, exactly if there is one
and then the next one is ahead. -/
theorem completesArmed_schedulerWakeUp (hclock : s.clock = now) :
    CompletesArmed s.running.length (s.schedulerWakeUp now) ↔ WakesAhead s now := by
  obtain ⟨queue, running, alarm, clock⟩ := s
  rcases queue with - | ⟨entry, rest⟩
  · exact iff_of_false not_false fun h => h.1 rfl
  · simp only [Scheduler.schedulerWakeUp, WakesAhead, List.head?_cons, List.tail_cons,
      Option.mem_some_iff, forall_eq', ne_eq, List.cons_ne_nil, not_false_iff, true_and]
    split_ifs with hinternal
    · rw [completesArmed_iff]
      · refine (endsArmed_schedulerSleep ?_).trans ?_
        · exact hclock
        · exact ⟨fun h _ => h, fun h => h hinternal⟩
      · rw [running_schedulerSleep]
    · refine iff_of_true (fun hlength => ?_) fun h => absurd h hinternal
      exact absurd hlength (Nat.not_succ_le_self _)

/-- **What a wake-up leaves**: it takes the first event, and calls its handler if it is not one of
the scheduler itself. -/
theorem schedulerWakeUp_cases (s : Scheduler η δ) (now : TimeVal) :
    (s.scheduler_queue = [] ∧ (s.schedulerWakeUp now).state = s) ∨
      ∃ entry, s.scheduler_queue = entry :: (s.schedulerWakeUp now).state.scheduler_queue ∧
        (s.schedulerWakeUp now).state.running
          = if entry.IsInternal then s.running else entry :: s.running := by
  obtain ⟨queue, running, alarm, clock⟩ := s
  rcases queue with - | ⟨entry, rest⟩
  · exact .inl ⟨rfl, rfl⟩
  · refine .inr ⟨entry, ?_⟩
    simp only [Scheduler.schedulerWakeUp]
    by_cases hinternal : entry.IsInternal
    · rw [if_pos hinternal, if_pos hinternal, scheduler_queue_schedulerSleep,
        running_schedulerSleep]
      exact ⟨rfl, rfl⟩
    · rw [if_neg hinternal, if_neg hinternal]
      exact ⟨rfl, rfl⟩

/-! ## Runs -/

theorem step_eq_some (h : s.step act = some s') : SchedEnabled s act ∧ s' = s.after act := by
  rw [Scheduler.step] at h
  split_ifs at h with henabled
  refine ⟨henabled, ?_⟩
  rw [Scheduler.after]
  cases hperform : act.perform { s with clock := act.readings.2 } with
  | error died =>
    rw [hperform] at h
    cases h
  | ok t =>
    rw [hperform] at h
    exact (Option.some.inj h).symm

/-- **An event is added.** -/
theorem after_addEvent (s : Scheduler η δ) (args : SchedArgs η δ) (now now' : TimeVal) :
    (s.after (.addEvent args now now')).running = s.running ∧
      ((∃ e : SchedEvent η δ, e.toSchedArgs = args ∧
          (s.after (.addEvent args now now')).scheduler_queue = enqueue s.scheduler_queue e) ∨
        args.check ≠ .ok () ∧
          (s.after (.addEvent args now now')).scheduler_queue = s.scheduler_queue) :=
  schedulerAddEvent_cases { s with clock := now' } args now now'

/-- **A wake-up.** -/
theorem after_wakeUp (hact : act = .alarm now ∨ act = .explicitWakeUp now) :
    (s.scheduler_queue = [] ∧ (s.after act).scheduler_queue = [] ∧
        (s.after act).running = s.running) ∨
      ∃ entry, s.scheduler_queue = entry :: (s.after act).scheduler_queue ∧
        (s.after act).running = if entry.IsInternal then s.running else entry :: s.running := by
  have hwake (t : Scheduler η δ) (hqueue : t.scheduler_queue = s.scheduler_queue)
      (hrunning : t.running = s.running) (hafter : s.after act = (t.schedulerWakeUp now).state) :
      (s.scheduler_queue = [] ∧ (s.after act).scheduler_queue = [] ∧
          (s.after act).running = s.running) ∨
        ∃ entry, s.scheduler_queue = entry :: (s.after act).scheduler_queue ∧
          (s.after act).running
            = if entry.IsInternal then s.running else entry :: s.running := by
    rw [hafter, ← hqueue, ← hrunning]
    rcases schedulerWakeUp_cases t now with ⟨hempty, hstate⟩ | h
    · exact .inl ⟨hempty, by rw [hstate, hempty], by rw [hstate]⟩
    · exact .inr h
  rcases hact with rfl | rfl
  · exact hwake { s with alarm := none, clock := now } rfl rfl rfl
  · exact hwake { s with clock := now } rfl rfl rfl

/-- **A handler returns.** -/
theorem after_handlerReturns (henabled : SchedEnabled s (.handlerReturns now now')) :
    ∃ entry, s.running = entry :: (s.after (.handlerReturns now now')).running ∧
      ((isTrue entry.repeated ∧ ∃ e : SchedEvent η δ, e.toSchedArgs = entry.toSchedArgs ∧
          (s.after (.handlerReturns now now')).scheduler_queue = enqueue s.scheduler_queue e) ∨
        ¬ isTrue entry.repeated ∧
          (s.after (.handlerReturns now now')).scheduler_queue = s.scheduler_queue) := by
  obtain ⟨queue, running, alarm, clock⟩ := s
  rcases running with - | ⟨entry, rest⟩
  · exact absurd rfl henabled.2.2
  · obtain ⟨hrunning, hqueue⟩ := handlerReturned_cases
      (⟨queue, rest, alarm, now'⟩ : Scheduler η δ) entry now now'
    exact ⟨entry, congrArg (entry :: ·) hrunning.symm, hqueue⟩

/-- Every action keeps the queue sorted, also if it dies. -/
theorem dueSorted_after (hsorted : DueSorted s.scheduler_queue) (henabled : SchedEnabled s act) :
    DueSorted (s.after act).scheduler_queue := by
  have hwakeUp (now : TimeVal) (hact : act = .alarm now ∨ act = .explicitWakeUp now) :
      DueSorted (s.after act).scheduler_queue := by
    rcases after_wakeUp hact with ⟨-, hqueue, -⟩ | ⟨entry, hqueue, -⟩
    · rw [hqueue]
      exact List.Pairwise.nil
    · rw [hqueue] at hsorted
      exact (List.pairwise_cons.mp hsorted).2
  rcases act with ⟨args, now, now'⟩ | now | now | ⟨now, now'⟩
  case addEvent =>
    obtain ⟨-, ⟨e, -, hqueue⟩ | ⟨-, hqueue⟩⟩ := after_addEvent s args now now'
    · rw [hqueue]
      exact dueSorted_enqueue _ _
    · rwa [hqueue]
  case alarm => exact hwakeUp now (.inl rfl)
  case explicitWakeUp => exact hwakeUp now (.inr rfl)
  case handlerReturns =>
    obtain ⟨entry, -, ⟨-, e, -, hqueue⟩ | ⟨-, hqueue⟩⟩ := after_handlerReturns henabled
    · rw [hqueue]
      exact dueSorted_enqueue _ _
    · rwa [hqueue]

theorem dueSorted_step (hsorted : DueSorted s.scheduler_queue) (h : s.step act = some s') :
    DueSorted s'.scheduler_queue := by
  obtain ⟨henabled, rfl⟩ := step_eq_some h
  exact dueSorted_after hsorted henabled

/-- **One action.** With a sorted queue, an action leaves the scheduler neither dead nor deaf if it
is on time, and only then. -/
theorem neverDeaf_iff_onTime (hsorted : DueSorted s.scheduler_queue) :
    NeverDeaf s act ↔ OnTime s act := by
  refine imp_congr_right fun henabled => ?_
  rcases act with ⟨args, now, now'⟩ | now | now | ⟨now, now'⟩
  case addEvent =>
    rw [completesArmed_iff]
    · refine endsArmed_schedulerAddEvent ?_ rfl
      exact hsorted
    · exact (congrArg List.length (after_addEvent s args now now').1).le
  case alarm => exact completesArmed_schedulerWakeUp rfl
  case explicitWakeUp => exact completesArmed_schedulerWakeUp rfl
  case handlerReturns =>
    obtain ⟨queue, running, alarm, clock⟩ := s
    rcases running with - | ⟨entry, rest⟩
    · exact absurd rfl henabled.2.2
    · rw [completesArmed_iff]
      · refine (endsArmed_handlerReturned ?_ rfl).trans ?_
        · exact hsorted
        · simp [SchedAct.readings]
      · refine (congrArg List.length (handlerReturned_cases _ _ _ _).1).le.trans ?_
        exact Nat.le_succ _

/-- **The runs in which the scheduler neither dies nor goes deaf.** They are those in which every
action is on time. -/
theorem along_neverDeaf_iff (clock : TimeVal) (acts : List (SchedAct η δ)) :
    Along Scheduler.step NeverDeaf (Scheduler.new clock) acts ↔
      Along Scheduler.step OnTime (Scheduler.new clock) acts :=
  along_iff_of_invariant (I := fun s : Scheduler η δ => DueSorted s.scheduler_queue)
    (fun _ _ _ hsorted _ => dueSorted_step hsorted) (fun _ _ => neverDeaf_iff_onTime)
    List.Pairwise.nil

/-- Two events of the same second: at the end of the handler of the first, the interval to the
second is zero, and no alarm is set for it. -/
theorem not_along_neverDeaf_same_second :
    let hello : SchedArgs Unit Unit :=
      ⟨some (.str (ascii "client")), .int 1, .int 0, some (.str (ascii "hello")), some (), (), none⟩
    ¬ Along Scheduler.step NeverDeaf (Scheduler.new ⟨0, 0⟩)
      [.addEvent hello ⟨0, 0⟩ ⟨0, 0⟩, .addEvent hello ⟨0, 0⟩ ⟨0, 0⟩, .alarm ⟨1, 0⟩,
        .handlerReturns ⟨1, 0⟩ ⟨1, 0⟩] := by
  decide +kernel

end Peep
