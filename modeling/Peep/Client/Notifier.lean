import Mathlib.Data.List.AList
import Peep.Client.Scheduler

/-!
# Notifications by mail

`Net::Peep::Notifier` stores a notification for its client, and sends what is stored for the client
in one mail: at once if it has sent the client no mail yet or the last one was long enough ago, and
with a later notification otherwise. If the mail is delivered, what was stored is deleted. When a
client program shuts down, `force` is to send what has been stored since the last mail.

`force` does so by a call of `notify` with the first of the stored notifications, and `notify`
stores what it is given. So that notification is stored a second time, and the mail has it twice.

## Choices

A notification is told from others by a number, given in the order of the calls of `notify` from
outside. The configuration is fixed. Whether a mail is delivered is part of an action: `send` of
`Net::Peep::Mail` tries the relays in turn and stops at the first that takes the mail. Of the text
of a mail, only the notifications in it are modelled. An undefined client is an empty one.

## Main results

* `Notifier.Conserves` — every copy of a notification that was stored is still there, or is in one
  mail that was sent: in all runs
* `exactlyOnce_of_nothingForced` — the runs in which no notification is stored twice
-/

namespace Peep

open Decimal StepSystem

/-! ## Notifications -/

/-- `Net::Peep::Notification`. -/
structure Notification where
  /-- The number of the call of `notify` it was given to. -/
  id : ℕ
  /-- `client`. -/
  client : CString
  /-- `status`. -/
  status : CString
  /-- `message`. -/
  message : CString
  /-- `datetime`. -/
  datetime : ℕ
  deriving DecidableEq

/-- A mail that was delivered. -/
structure Mail where
  /-- To whom. -/
  recipients : List CString
  /-- The client of its subject. -/
  client : CString
  /-- The notifications of its body, in that order. -/
  notifications : List Notification

/-- What is stored for a client. -/
structure ClientNotifications where
  /-- `NOTIFICATIONS`. -/
  notifications : Option (List Notification)
  /-- `SEND_TIME`. -/
  send_time : Option ℕ

/-- The package variables that the configuration sets. -/
structure NotifierConf where
  /-- `%NOTIFICATION_HOSTS`. -/
  hosts : CString → Option (List CString)
  /-- `%NOTIFICATION_RECIPIENTS`. -/
  recipients : CString → Option (List CString)
  /-- `%NOTIFICATION_LEVEL`. -/
  level : CString → Option CString
  /-- `@SMTP_RELAYS`. -/
  smtp_relays : List CString
  /-- `$NOTIFICATION_INTERVAL`. -/
  interval : ℕ
  /-- `$HOSTNAME`. -/
  hostname : CString

/-- `Net::Peep::Notifier`, with what it has done so far. -/
structure Notifier where
  /-- `$NOTIFICATIONS`. -/
  notifications : AList fun _ : CString => ClientNotifications
  /-- `time()`. -/
  time : ℕ
  /-- The number of the next notification. -/
  nextId : ℕ
  /-- What was given to `store`, the last first. -/
  stored : List Notification
  /-- The mails that were delivered, the last first. -/
  sent : List Mail

/-- The notifier of a program that starts. -/
def Notifier.start (time : ℕ) : Notifier where
  notifications := ∅
  time := time
  nextId := 0
  stored := []
  sent := []

variable {conf : NotifierConf} {s s' : Notifier} {n m : Notification} {client c : CString}

/-! ## The methods -/

/-- The pattern `/^(...|...)$/`; before `$`, one line feed is allowed. -/
def isOneOf (words : List CString) (s : CString) : Bool :=
  words.any fun word => s = word ∨ s = word ++ [10]

/-- `store`. -/
def Notifier.store (s : Notifier) (n : Notification) : Notifier :=
  let entry := (s.notifications.lookup n.client).getD ⟨none, none⟩
  { s with
    notifications := s.notifications.insert n.client
      { entry with notifications := some (entry.notifications.getD [] ++ [n]) }
    stored := n :: s.stored }

/-- `_timeToSend`. -/
def Notifier.timeToSend (conf : NotifierConf) (s : Notifier) (client : CString) : Bool :=
  match (s.notifications.lookup client).bind ClientNotifications.send_time with
  | none => true
  | some last_send_time => s.time - last_send_time > conf.interval

/-- `_getNotifications`. -/
def Notifier.getNotifications (conf : NotifierConf) (s : Notifier) (client : CString) :
    Except String (List Notification) :=
  match s.notifications.lookup client with
  | none => .ok []
  | some entry =>
    let all := entry.notifications.getD []
    match conf.level client with
    | none => .error "Notification level for client not found."
    | some level =>
      if ¬ isTrue (some (.str level)) then .error "Notification level for client not found."
      else if level = ascii "crit" then .ok (all.filter fun n => n.status = ascii "crit")
      else if level = ascii "warn" then
        .ok (all.filter fun n => ascii "warn" <:+: n.status ∨ ascii "crit" <:+: n.status)
      else .ok all

/-- `_setSendTime` and `_garbageCollect`. -/
def Notifier.setSendTimeAndCollect (s : Notifier) (client : CString) : Notifier :=
  { s with notifications := s.notifications.insert client ⟨some [], some s.time⟩ }

/-- `_notify`; the notifications of the body are in reverse order. A subroutine that dies within
`notify` returns nothing. -/
def Notifier.sendNotifications (conf : NotifierConf) (s : Notifier) (client : CString)
    (delivered : Bool) : Notifier × Option ℕ :=
  match s.getNotifications conf client with
  | .error _ => (s, none)
  | .ok [] => (s, some 0)
  | .ok (first :: rest) =>
    if delivered then
      let mail := ⟨(conf.recipients client).getD [], client, (first :: rest).reverse⟩
      (Notifier.setSendTimeAndCollect { s with sent := mail :: s.sent } client, some 1)
    else (s, some 0)

/-- The loop of `notify` over the hosts. -/
def okLoop (hostname : CString) : ℕ → List CString → ℕ
  | ok, [] => ok
  | ok, host :: hosts =>
    let ok := if host = hostname then ok + 1 else ok
    let ok :=
      if isOneOf [ascii "all", ascii "localhost", ascii "127.0.0.1"] host then ok + 1 else ok
    if host = ascii "none" then 0 else okLoop hostname ok hosts

/-- `notify`. -/
def Notifier.notify (conf : NotifierConf) (s : Notifier) (n : Notification)
    (force delivered : Bool) : Notifier × Except String (Option ℕ) :=
  if ¬ isTrue (some (.str n.client)) then (s, .error "client not found")
  else
    match conf.hosts n.client, conf.recipients n.client, conf.level n.client with
    | some hosts, some _, some level =>
      -- the recipients are tested as a reference, which is true also if there are none
      if hosts = [] then (s, .ok (some 0))
      else if level = ascii "crit" ∧ n.status ≠ ascii "crit" then (s, .ok (some 1))
      else if level = ascii "warn" ∧ ¬ isOneOf [ascii "warn", ascii "crit"] n.status then
        (s, .ok (some 1))
      else if okLoop conf.hostname 0 hosts = 0 then (s, .ok (some 1))
      else if conf.smtp_relays = [] then (s, .ok none)
      else
        -- `store` has made an entry for the client, so that `_notificationExists` is true
        let s := s.store n
        if s.timeToSend conf n.client ∨ force then
          let (s, r) := s.sendNotifications conf n.client delivered
          (s, .ok r)
        else (s, .ok (some 1))
    | _, _, _ => (s, .ok (some 1))

/-- The loop of `force` over the clients. -/
def Notifier.forceLoop (conf : NotifierConf) (delivered : CString → Bool) :
    Notifier → Option ℕ → List CString → Notifier × Except String (Option ℕ)
  | s, count, [] => (s, .ok count)
  | s, count, client :: clients =>
    match s.notifications.lookup client with
    | some ⟨some [], some _⟩ => forceLoop conf delivered s (some 0) clients
    | some ⟨some (first :: rest), some _⟩ =>
      match s.notify conf first true (delivered client) with
      | (s, .error e) => (s, .error e)
      | (s, .ok _) => forceLoop conf delivered s (some (rest.length + 1)) clients
    | _ => forceLoop conf delivered s count clients

/-! ## Runs -/

/-- What happens to a notifier. -/
inductive NotifierAct
  /-- Time passes. -/
  | tick (seconds : ℕ)
  /-- `notify` is called with a new notification. -/
  | notify (client status message : CString) (datetime : ℕ) (force delivered : Bool)
  /-- `force` is called; it takes the keys of `$NOTIFICATIONS` in that order. -/
  | force (clients : List CString) (delivered : CString → Bool)

/-- One step of a run. -/
def Notifier.step (conf : NotifierConf) (s : Notifier) : NotifierAct → Option Notifier
  | .tick seconds => some { s with time := s.time + seconds }
  | .notify client status message datetime force delivered =>
    let n := ⟨s.nextId, client, status, message, datetime⟩
    some (Notifier.notify conf { s with nextId := s.nextId + 1 } n force delivered).1
  | .force clients delivered =>
    if clients.Perm s.notifications.keys then some (s.forceLoop conf delivered none clients).1
    else none

/-- The notifications that are stored for a client. -/
def Notifier.pending (s : Notifier) (client : CString) : List Notification :=
  ((s.notifications.lookup client).bind ClientNotifications.notifications).getD []

/-- The notifications in the mails that were sent. -/
def Notifier.mailed (s : Notifier) : List Notification := s.sent.flatMap Mail.notifications

/-- Every notification that was given to `store` is still stored for its client and in no mail that
was sent, or in one such mail, once, and no longer stored. -/
def ExactlyOnce (s : Notifier) : Prop :=
  ∀ n ∈ s.stored, n ∈ s.pending n.client ∧ n ∉ s.mailed ∨
    (∀ client, n ∉ s.pending client) ∧ s.mailed.count n = 1

/-- No `force` finds a notification that is stored for a client that has been sent a mail. -/
def NothingForced (s : Notifier) : NotifierAct → Prop
  | .force _ _ => ∀ client ∈ s.notifications.keys,
      ((s.notifications.lookup client).bind ClientNotifications.send_time).isSome →
        s.pending client = []
  | _ => True

instance (s : Notifier) (act : NotifierAct) : Decidable (NothingForced s act) :=
  match act with
  | .tick _ => .isTrue trivial
  | .notify .. => .isTrue trivial
  | .force _ _ => inferInstanceAs (Decidable (∀ _ ∈ _, _ → _))

/-! ## What is stored -/

@[simp] theorem mailed_store : (s.store n).mailed = s.mailed := rfl

@[simp] theorem stored_store : (s.store n).stored = n :: s.stored := rfl

theorem pending_store :
    (s.store n).pending c = if c = n.client then s.pending c ++ [n] else s.pending c := by
  simp only [Notifier.pending, Notifier.store]
  split_ifs with h
  · subst h
    rw [AList.lookup_insert]
    cases s.notifications.lookup n.client <;> rfl
  · rw [AList.lookup_insert_ne h]

theorem pending_setSendTimeAndCollect :
    (s.setSendTimeAndCollect client).pending c = if c = client then [] else s.pending c := by
  simp only [Notifier.pending, Notifier.setSendTimeAndCollect]
  split_ifs with h
  · subst h
    rw [AList.lookup_insert]
    rfl
  · rw [AList.lookup_insert_ne h]

/-- The status of the notification is high enough for the level of its client. -/
def PassesLevel (conf : NotifierConf) (n : Notification) : Prop :=
  ∀ level ∈ conf.level n.client, (level = ascii "crit" → n.status = ascii "crit") ∧
    (level = ascii "warn" → isOneOf [ascii "warn", ascii "crit"] n.status)

/-- The pattern of `notify` allows no more than that of `_getNotifications`. -/
theorem infix_of_isOneOf (h : isOneOf [ascii "warn", ascii "crit"] n.status) :
    ascii "warn" <:+: n.status ∨ ascii "crit" <:+: n.status := by
  simp only [isOneOf, List.any_cons, List.any_nil, Bool.or_false, Bool.or_eq_true,
    decide_eq_true_eq] at h
  rcases h with (h | h) | (h | h) <;> rw [h]
  · exact .inl List.infix_rfl
  · exact .inl (List.prefix_append _ _).isInfix
  · exact .inr List.infix_rfl
  · exact .inr (List.prefix_append _ _).isInfix

/-- `_getNotifications` leaves none of the stored notifications out. -/
theorem getNotifications_eq {l : List Notification}
    (hown : ∀ n ∈ s.pending client, n.client = client)
    (hpass : ∀ n ∈ s.pending client, PassesLevel conf n)
    (h : s.getNotifications conf client = .ok l) : l = s.pending client := by
  rw [Notifier.getNotifications] at h
  have hpending : s.pending client =
      ((s.notifications.lookup client).bind ClientNotifications.notifications).getD [] := rfl
  split at h
  next hnone =>
    rw [hpending, hnone]
    exact (Except.ok.inj h).symm
  next entry hentry =>
    rw [hentry, Option.bind_some] at hpending
    simp only [← hpending] at h
    split at h
    · cases h
    next level hlevel =>
      have hlevelOf : ∀ n ∈ s.pending client, level ∈ conf.level n.client := by
        intro n hn
        rw [hown n hn]
        exact hlevel
      split_ifs at h with htrue hcrit hwarn
      · obtain rfl := Except.ok.inj h
        refine List.filter_eq_self.mpr fun n hn => ?_
        exact decide_eq_true ((hpass n hn level (hlevelOf n hn)).1 hcrit)
      · obtain rfl := Except.ok.inj h
        refine List.filter_eq_self.mpr fun n hn => decide_eq_true ?_
        exact infix_of_isOneOf ((hpass n hn level (hlevelOf n hn)).2 hwarn)
      · exact (Except.ok.inj h).symm

/-- The invariant: every copy of a notification that was stored is still there, or is in a mail
that was sent. -/
structure Notifier.Conserves (conf : NotifierConf) (s : Notifier) : Prop where
  /-- A notification is stored for its own client. -/
  own : ∀ client, ∀ n ∈ s.pending client, n.client = client
  /-- It passed the checks of `notify`. -/
  passes : ∀ client, ∀ n ∈ s.pending client, PassesLevel conf n
  /-- None is lost, and none is sent that is kept. -/
  count : ∀ n, (s.pending n.client).count n + s.mailed.count n = s.stored.count n
  /-- It was given before. -/
  before : ∀ n ∈ s.stored, n.id < s.nextId

theorem conserves_start (time : ℕ) : (Notifier.start time).Conserves conf where
  own _ _ h := absurd h List.not_mem_nil
  passes _ _ h := absurd h List.not_mem_nil
  count _ := rfl
  before _ h := absurd h List.not_mem_nil

/-- What is still there was stored. -/
theorem Notifier.Conserves.mem_stored (h : s.Conserves conf) (hn : n ∈ s.pending client) :
    n ∈ s.stored := by
  have hcount := h.count n
  rw [h.own client n hn] at hcount
  have : 0 < (s.pending client).count n := List.count_pos_iff.mpr hn
  exact List.count_pos_iff.mp (by omega)

theorem Notifier.Conserves.store (h : s.Conserves conf) (hpass : PassesLevel conf n)
    (hid : n.id < s.nextId) : (s.store n).Conserves conf where
  own client m hm := by
    rw [pending_store] at hm
    split_ifs at hm with hclient
    · rcases List.mem_append.mp hm with hm | hm
      · exact h.own client m hm
      · rw [List.mem_singleton.mp hm, hclient]
    · exact h.own client m hm
  passes client m hm := by
    rw [pending_store] at hm
    split_ifs at hm with hclient
    · rcases List.mem_append.mp hm with hm | hm
      · exact h.passes client m hm
      · rwa [List.mem_singleton.mp hm]
    · exact h.passes client m hm
  count m := by
    have hcount := h.count m
    rw [pending_store, mailed_store, stored_store, List.count_cons]
    split_ifs with hclient hm hm
    · rw [List.count_append, List.count_singleton, if_pos hm]
      omega
    · rw [List.count_append, List.count_singleton, if_neg hm]
      omega
    · exact absurd (congrArg Notification.client (eq_of_beq hm)).symm hclient
    · exact hcount
  before m hm := by
    rcases List.mem_cons.mp hm with rfl | hm
    · exact hid
    · exact h.before m hm

/-- Sending moves what is stored for the client into the mail, or leaves it. -/
theorem Notifier.Conserves.sendNotifications (h : s.Conserves conf) (client : CString)
    (delivered : Bool) : (s.sendNotifications conf client delivered).1.Conserves conf := by
  rw [Notifier.sendNotifications]
  split
  · exact h
  · exact h
  next first rest hget =>
    split_ifs
    · have hall := getNotifications_eq (h.own client) (h.passes client) hget
      constructor
      · intro c m hm
        rw [pending_setSendTimeAndCollect] at hm
        split_ifs at hm
        · exact absurd hm List.not_mem_nil
        · exact h.own c m hm
      · intro c m hm
        rw [pending_setSendTimeAndCollect] at hm
        split_ifs at hm
        · exact absurd hm List.not_mem_nil
        · exact h.passes c m hm
      · intro m
        have hcount := h.count m
        rw [pending_setSendTimeAndCollect]
        simp only [Notifier.mailed, Notifier.setSendTimeAndCollect, List.flatMap_cons,
          List.count_append, hall, List.count_reverse] at hcount ⊢
        split_ifs with hclient
        · rw [← hclient]
          simpa [add_assoc] using hcount
        · have hnone : (s.pending client).count m = 0 :=
            List.count_eq_zero.mpr fun hm => hclient (h.own client m hm)
          rw [hnone, zero_add]
          exact hcount
      · exact h.before
    · exact h

/-! ## `notify` -/

/-- `notify` does nothing, or stores the notification, which it then sends or not. -/
theorem notify_cases (conf : NotifierConf) (s : Notifier) (n : Notification)
    (force delivered : Bool) :
    (s.notify conf n force delivered).1 = s ∨ PassesLevel conf n ∧
      ((s.notify conf n force delivered).1 = s.store n ∨
        (s.notify conf n force delivered).1 =
          ((s.store n).sendNotifications conf n.client delivered).1) := by
  rw [Notifier.notify]
  by_cases hclient : isTrue (some (.str n.client))
  · rw [if_neg (not_not.mpr hclient)]
    split
    next hosts recipients level hhosts hrecipients hlevel =>
      split_ifs with hh hcrit hwarn hok hrelays
      iterate 5 exact .inl rfl
      refine .inr ⟨?_, ?_⟩
      · intro level' hlevel'
        obtain rfl : level = level' := Option.some.inj (hlevel.symm.trans hlevel')
        exact ⟨fun h => not_not.mp fun hne => hcrit ⟨h, hne⟩,
          fun h => not_not.mp fun hne => hwarn ⟨h, hne⟩⟩
      · dsimp only
        split_ifs with hsend
        · exact .inr rfl
        · exact .inl rfl
    · exact .inl rfl
  · rw [if_pos hclient]
    exact .inl rfl

theorem Notifier.Conserves.notify (h : s.Conserves conf) (hid : n.id < s.nextId)
    (force delivered : Bool) : (s.notify conf n force delivered).1.Conserves conf := by
  rcases notify_cases conf s n force delivered with heq | ⟨hpass, heq | heq⟩ <;> rw [heq]
  · exact h
  · exact h.store hpass hid
  · exact (h.store hpass hid).sendNotifications n.client delivered

theorem stored_sendNotifications (delivered : Bool) :
    (s.sendNotifications conf client delivered).1.stored = s.stored := by
  rw [Notifier.sendNotifications]
  split
  · rfl
  · rfl
  · split_ifs <;> rfl

/-- It stores no other notification. -/
theorem stored_notify (conf : NotifierConf) (s : Notifier) (n : Notification)
    (force delivered : Bool) :
    (s.notify conf n force delivered).1.stored = s.stored ∨
      (s.notify conf n force delivered).1.stored = n :: s.stored := by
  rcases notify_cases conf s n force delivered with heq | ⟨-, heq | heq⟩ <;> rw [heq]
  · exact .inl rfl
  · exact .inr rfl
  · exact .inr (stored_sendNotifications delivered)

/-! ## `force` -/

/-- The first notification of a client that `force` looks at is one that was stored. -/
theorem mem_pending_of_lookup {first : Notification} {rest : List Notification} {time : ℕ}
    (h : s.notifications.lookup client = some ⟨some (first :: rest), some time⟩) :
    first ∈ s.pending client := by
  rw [Notifier.pending, h]
  exact List.mem_cons_self

theorem Notifier.Conserves.forceLoop (h : s.Conserves conf) (delivered : CString → Bool)
    (count : Option ℕ) (clients : List CString) :
    (s.forceLoop conf delivered count clients).1.Conserves conf := by
  induction clients generalizing s count with
  | nil => exact h
  | cons client clients ih =>
    rw [Notifier.forceLoop]
    split
    · exact ih h _
    next first rest time hlookup =>
      have hid : first.id < s.nextId :=
        h.before first (h.mem_stored (mem_pending_of_lookup hlookup))
      have hnotify := h.notify hid true (delivered client)
      split
      next s' e heq =>
        rw [heq] at hnotify
        exact hnotify
      next s' r heq =>
        rw [heq] at hnotify
        exact ih hnotify _
    · exact ih h _

/-- A `force` that finds no notifications does nothing. -/
theorem forceLoop_eq_self (delivered : CString → Bool) (count : Option ℕ)
    (clients : List CString) (hnone : NothingForced s (.force clients delivered)) :
    (s.forceLoop conf delivered count clients).1 = s := by
  induction clients generalizing count with
  | nil => rfl
  | cons client clients ih =>
    rw [Notifier.forceLoop]
    split
    · exact ih _ hnone
    next first rest time hlookup =>
      have hkey : client ∈ s.notifications.keys :=
        AList.mem_keys.mpr (AList.lookup_isSome.mp (by rw [hlookup]; rfl))
      have hempty := hnone client hkey (by rw [hlookup]; rfl)
      exact absurd (hempty ▸ mem_pending_of_lookup hlookup) List.not_mem_nil
    · exact ih _ hnone

/-! ## Runs -/

/-- Every step conserves the notifications. -/
theorem Notifier.Conserves.step {act : NotifierAct} (h : s.Conserves conf)
    (hstep : s.step conf act = some s') : s'.Conserves conf := by
  rcases act with seconds | ⟨client, status, message, datetime, force, delivered⟩ |
    ⟨clients, delivered⟩
  case tick =>
    obtain rfl := Option.some.inj hstep
    exact ⟨h.own, h.passes, h.count, h.before⟩
  case notify =>
    obtain rfl := Option.some.inj hstep
    refine Notifier.Conserves.notify ?_ (Nat.lt_succ_self _) force delivered
    exact ⟨h.own, h.passes, h.count, fun n hn => (h.before n hn).trans (Nat.lt_succ_self _)⟩
  case force =>
    rw [Notifier.step] at hstep
    split_ifs at hstep
    obtain rfl := Option.some.inj hstep
    exact h.forceLoop delivered none clients

/-- **No copy is lost.** In every run, every copy of a notification that was stored is still there
or in a mail that was sent. -/
theorem conserves_of_exec {acts : List NotifierAct} {time : ℕ}
    (hs : exec (Notifier.step conf) (Notifier.start time) acts = some s) : s.Conserves conf :=
  exec_invariant (fun _ _ _ h _ => h.step) (conserves_start time) (along_trivial _ acts) hs

/-- A step that forces nothing stores no notification for the second time. -/
theorem nodup_stored_step {act : NotifierAct} (h : s.Conserves conf) (hnodup : s.stored.Nodup)
    (hforced : NothingForced s act) (hstep : s.step conf act = some s') : s'.stored.Nodup := by
  rcases act with seconds | ⟨client, status, message, datetime, force, delivered⟩ |
    ⟨clients, delivered⟩
  case tick =>
    obtain rfl := Option.some.inj hstep
    exact hnodup
  case notify =>
    obtain rfl := Option.some.inj hstep
    have hstored := stored_notify conf { s with nextId := s.nextId + 1 }
      ⟨s.nextId, client, status, message, datetime⟩ force delivered
    rcases hstored with heq | heq <;> rw [heq]
    · exact hnodup
    · exact hnodup.cons fun hmem => (h.before _ hmem).false
  case force =>
    rw [Notifier.step] at hstep
    split_ifs at hstep
    obtain rfl := Option.some.inj hstep
    rwa [forceLoop_eq_self delivered none clients hforced]

/-- If no notification was stored twice, then every one is in its place, once. -/
theorem Notifier.Conserves.exactlyOnce (h : s.Conserves conf) (hnodup : s.stored.Nodup) :
    ExactlyOnce s := by
  intro n hn
  have hcount := h.count n
  rw [List.count_eq_one_of_mem hnodup hn] at hcount
  rcases Nat.eq_zero_or_pos (s.mailed.count n) with hzero | hpos
  · refine .inl ⟨List.count_pos_iff.mp (by omega), List.count_eq_zero.mp hzero⟩
  · refine .inr ⟨fun client hmem => ?_, by omega⟩
    have : 0 < (s.pending client).count n := List.count_pos_iff.mpr hmem
    rw [h.own client n hmem] at hcount
    omega

/-- **Every notification is sent once, if nothing is forced.** In every run in which no `force`
finds a notification, every notification that was stored is still there, or is in one mail. -/
theorem exactlyOnce_of_nothingForced (conf : NotifierConf) (time : ℕ) (acts : List NotifierAct)
    (s : Notifier)
    (hforced : Along (Notifier.step conf) NothingForced (Notifier.start time) acts)
    (hs : exec (Notifier.step conf) (Notifier.start time) acts = some s) : ExactlyOnce s := by
  have hboth : s.Conserves conf ∧ s.stored.Nodup :=
    exec_invariant (I := fun s => s.Conserves conf ∧ s.stored.Nodup)
      (fun _ _ _ h hact hstep => ⟨h.1.step hstep, nodup_stored_step h.1 h.2 hact hstep⟩)
      ⟨conserves_start time, List.nodup_nil⟩ hforced hs
  exact hboth.1.exactlyOnce hboth.2

/-- Two notifications, the second of which waits for the interval to pass, and goes with a third. -/
theorem exactlyOnce_of_nothingForced_three :
    let conf : NotifierConf :=
      ⟨fun _ => some [ascii "all"], fun _ => some [ascii "root"], fun _ => some (ascii "info"),
        [ascii "localhost"], 1800, ascii "localhost"⟩
    let notify := NotifierAct.notify (ascii "uptime") (ascii "warn") (ascii "load") 0 false true
    let acts := [notify, notify, .tick 1801, notify, .force [ascii "uptime"] fun _ => true]
    ∃ s, exec (Notifier.step conf) (Notifier.start 0) acts = some s ∧ ExactlyOnce s := by
  intro conf notify acts
  have hsome : (exec (Notifier.step conf) (Notifier.start 0) acts).isSome := by decide
  have hforced : Along (Notifier.step conf) NothingForced (Notifier.start 0) acts := by
    decide
  obtain ⟨s, hs⟩ := Option.isSome_iff_exists.mp hsome
  exact ⟨s, hs, exactlyOnce_of_nothingForced conf 0 acts s hforced hs⟩

/-- A notification that waits when the program shuts down is twice in the mail. -/
theorem not_exactlyOnce_force :
    let conf : NotifierConf :=
      ⟨fun _ => some [ascii "all"], fun _ => some [ascii "root"], fun _ => some (ascii "info"),
        [ascii "localhost"], 1800, ascii "localhost"⟩
    let notify := NotifierAct.notify (ascii "uptime") (ascii "warn") (ascii "load") 0 false true
    ¬ ∀ s, exec (Notifier.step conf) (Notifier.start 0)
        [notify, notify, .force [ascii "uptime"] fun _ => true] = some s → ExactlyOnce s := by
  intro conf notify h
  have hsecond := h _ rfl ⟨1, ascii "uptime", ascii "warn", ascii "load", 0⟩ (by decide)
  rcases hsecond with ⟨hpending, -⟩ | ⟨-, hcount⟩
  · exact absurd hpending (by decide)
  · exact absurd hcount (by decide)

end Peep
