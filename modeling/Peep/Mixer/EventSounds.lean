import Peep.Library.StepSystem
import Peep.Mixer.Loop
import Peep.Server.Loading

/-!
# Playing the sounds of an event

The sounds of an event are the files of a directory, which `parserLoadEventSndDir` loads into an
entry. When an event gets a channel, one of them is picked at random (`engineIO` and
`mixerAddOldEvent`), and the loop of `mixer` plays it: each turn of the channel reads two samples,
moves the position on by two, and releases the channel if the position equals the length.

A file of any size can be in the directory, and the directory may have no file. The position never
equals an odd length, and it is past a length of `0` when it is compared. So the sounds that are
played as they should be are those with a positive even number of samples, and an entry without
sounds has nothing to pick from.

## Choices

A run consists of calls of `engineIO` that come to `mixerAddEvent` and of turns of the channels, in
any order. Either is taken as a whole; `Peep.Handoff` has what they do to each other. A step that
reads outside an array has no successor. What a channel does is kept in a log.

## Main results

* `Playing.turn_eq_mixEvent` — a turn is the body of the mixer's loop
* `Playing.along_plays_iff` — the directories whose sounds are played as they should be
-/

namespace Peep

open Decimal Pcm StepSystem

/-! ## Entries and calls -/

/-- An entry that `parserLoadEventSndDir` builds. -/
structure LoadedEvent (sys : System) where
  /-- The directory. -/
  sndPath : CString
  /-- Its sorted entries. -/
  namelist : List CString
  /-- They are what `scandir` returns. -/
  scanned : parserScanDir sys sndPath = some namelist
  /-- The entry of the sound table. -/
  entry : EventEntry
  /-- It is what the loop over the files leaves. -/
  loaded : loadEventSnds sys sndPath namelist.reverse 0
    (engineAllocEventEntry (namelist.length - 2)) = some (some entry)

/-- What `rand () / (RAND_MAX + 1.0)` can be. -/
abbrev RandFraction := { r : ℚ // 0 ≤ r ∧ r < 1 }

/-- `snd_cnt`. -/
def EventEntry.sndCnt (entry : EventEntry) : ℕ := entry.snds.size

/-- `next_snd`. -/
def EventEntry.nextSnd (entry : EventEntry) (r : RandFraction) : ℕ :=
  (truncate (entry.sndCnt * r.val)).toNat

variable {sys : System} {n k : ℕ}

/-- The paths of the files, in the order in which they are loaded. -/
def LoadedEvent.files (e : LoadedEvent sys) : List CString :=
  (e.namelist.reverse.filter fun name => !isDots name).map (inDir e.sndPath)

/-- An event that gets a channel. -/
structure EventCall (sys : System) where
  /-- Its sounds. -/
  event : LoadedEvent sys
  /-- The random fraction that picks one. -/
  rand : RandFraction
  /-- Stereo location. -/
  loc : UInt8
  /-- Effects flags. -/
  flags : Int32

/-- `next_snd`, for this call. -/
def EventCall.nextSnd (e : EventCall sys) : ℕ := e.event.entry.nextSnd e.rand

/-- The arguments of `mixerAddEvent`. -/
def EventCall.args? (e : EventCall sys) : Option EventArgs := do
  let snd ← e.event.entry.snds[e.nextSnd]?
  let len ← e.event.entry.lens[e.nextSnd]?
  some ⟨snd, len, e.loc.toNat / 255, e.flags⟩

/-! ## Runs -/

/-- What happens on a channel. -/
inductive ChannelEvent
  /-- A sound of this length is started. -/
  | start (len : ℕ)
  /-- The sample at this position is read. -/
  | read (pos : ℕ)
  /-- The channel is released. -/
  | release
  deriving DecidableEq

/-- The mixer, and what has happened on its event channels. -/
structure Playing (n k : ℕ) where
  /-- The tables of the mixer. -/
  mixer : Mixer n k
  /-- The log of a channel. -/
  log : Fin n → List ChannelEvent

/-- A step of a run. -/
inductive PlayStep (sys : System) (n : ℕ)
  /-- `engineIO` comes to `mixerAddEvent` with a channel. -/
  | event (e : EventCall sys) (c : Fin n)
  /-- The turn of a channel in the loop of `mixer`, and the event that `mixerAddOldEvent` would find
  in the queue. There is none if the queue is empty or the event has expired. -/
  | turn (j : Fin n) (waiting : Option (EventCall sys))

/-- The events of a step. -/
def PlayStep.calls : PlayStep sys n → Option (EventCall sys)
  | .event e _ => some e
  | .turn _ waiting => waiting

namespace Playing

/-- After `mixerInit`. -/
def start (n k : ℕ) : Playing n k := ⟨mixerInit n k, fun _ => []⟩

/-- `mixerAddEvent`. -/
def add (s : Playing n k) (args : EventArgs) (c : Fin n) : Playing n k where
  mixer := (s.mixer.mixerAddEvent args c).2
  log := if (s.mixer.mixerAddEvent args c).1 = .success then
      Function.update s.log c (s.log c ++ [.start args.len])
    else s.log

/-- Two samples are read, and the position moves on. -/
def read (s : Playing n k) (j : Fin n) : Playing n k where
  mixer := s.mixer.advance j
  log := Function.update s.log j
    (s.log j ++ [.read (s.mixer.ebuffs j).pos, .read ((s.mixer.ebuffs j).pos + 1)])

/-- `mixerRemoveEvent`. -/
def release (s : Playing n k) (j : Fin n) : Playing n k where
  mixer := s.mixer.mixerRemoveEvent j
  log := Function.update s.log j (s.log j ++ [.release])

/-- The body of the loop over the event channels. -/
def turn (s : Playing n k) (j : Fin n) (waiting : Option (EventCall sys)) : Option (Playing n k) :=
  match (s.mixer.ebuffs j).sndBuf with
  | none => some s
  | some snd => do
    let _ ← snd[(s.mixer.ebuffs j).pos]?
    let _ ← snd[(s.mixer.ebuffs j).pos + 1]?
    if (s.mixer.ebuffs j).pos + STEREO = (s.mixer.ebuffs j).len then
      match waiting with
      | none => some ((s.read j).release j)
      | some e => e.args?.map fun args => ((s.read j).release j).add args j
    else some (s.read j)

/-- One step. -/
def step (s : Playing n k) : PlayStep sys n → Option (Playing n k)
  | .event e c => e.args?.map fun args => s.add args c
  | .turn j waiting => s.turn j waiting

end Playing

/-! ## Playing as it should be -/

/-- A sound of which `p` samples have been read, in order. -/
def soFar (len p : ℕ) : List ChannelEvent := .start len :: (List.range p).map .read

/-- A sound that is played: each sample once, in order, and then the channel is released. -/
def playback (len : ℕ) : List ChannelEvent := soFar len len ++ [.release]

namespace Playing

/-- All sounds of the channel have been played, up to the current one, of which not all samples have
been read. -/
def WellPlayed (s : Playing n k) (j : Fin n) : Prop :=
  ∃ lens : List ℕ,
    if (s.mixer.ebuffs j).sndBuf.isNone then s.log j = lens.flatMap playback
    else ∃ p < (s.mixer.ebuffs j).len,
      s.log j = lens.flatMap playback ++ soFar (s.mixer.ebuffs j).len p

/-- The index of a sound is below the number of sounds, what is read is in the array, and every
channel is played as it should be. -/
def Plays (s : Playing n k) (a : PlayStep sys n) : Prop :=
  (∀ e ∈ a.calls, e.nextSnd < e.event.entry.sndCnt) ∧
    ∃ s', s.step a = some s' ∧ ∀ j, s'.WellPlayed j

end Playing

/-- The directory has a file, and all its files have whole frames. A size is an `int`, and the last
byte of a file with an odd size does not count. -/
def LoadedEvent.WholeFrames (e : LoadedEvent sys) : Prop :=
  e.files ≠ [] ∧ ∀ path ∈ e.files, ∀ bytes, sys.contents path = some bytes →
    4 ≤ bytes.length % 2 ^ 32 ∧ bytes.length % 4 < 2

/-! ## What is loaded -/

/-- A list is mapped to a list by mapping its elements. -/
theorem forall₂_of_mapM {α β : Type} {f : α → Option β} {as : List α} {bs : List β}
    (h : as.mapM f = some bs) : List.Forall₂ (fun a b => f a = some b) as bs := by
  induction as generalizing bs with
  | nil =>
    obtain rfl : [] = bs := by simpa using h
    exact .nil
  | cons a as ih =>
    rw [List.mapM_cons] at h
    obtain ⟨b, hb, h⟩ := Option.bind_eq_some_iff.mp h
    obtain ⟨bs, hbs, h⟩ := Option.bind_eq_some_iff.mp h
    obtain rfl := Option.some.inj h
    exact .cons hb (ih hbs)

/-- The number of samples of a file that can be loaded. -/
theorem size_parserLoadSoundFile {path : CString} {bytes : List UInt8} {sound : Sound}
    (hbytes : sys.contents path = some bytes) (h : parserLoadSoundFile sys path = some sound) :
    0 ≤ arraySize bytes ∧ (sound.size : ℤ) = arraySize bytes := by
  rw [parserLoadSoundFile, hbytes, Option.bind_eq_bind, Option.bind_some] at h
  split_ifs at h with hneg
  obtain rfl := Option.some.inj h
  rw [Array.size_ofFn]
  exact ⟨not_lt.mp hneg, Int.toNat_of_nonneg (not_lt.mp hneg)⟩

/-- **The files with whole frames** are those with a positive even number of samples. -/
theorem even_arraySize_iff (bytes : List UInt8) (h : 0 ≤ arraySize bytes) :
    (0 < arraySize bytes ∧ arraySize bytes % 2 = 0) ↔
      4 ≤ bytes.length % 2 ^ 32 ∧ bytes.length % 4 < 2 := by
  have hsize : (parserGetFileSize bytes).toInt = (bytes.length : ℤ).bmod (2 ^ 32) := by
    rw [parserGetFileSize, Int32.toInt_ofNat']
    rfl
  rw [Int.bmod_def] at hsize
  rw [arraySize] at *
  rcases lt_or_ge (parserGetFileSize bytes).toInt 0 with hneg | hpos
  · -- the size has wrapped, and halved it is `0` at most
    rw [← Int.neg_neg (parserGetFileSize bytes).toInt, Int.neg_tdiv,
      Int.tdiv_eq_ediv_of_nonneg (by omega)] at *
    split_ifs at hsize <;> omega
  · rw [Int.tdiv_eq_ediv_of_nonneg hpos] at *
    split_ifs at hsize <;> omega

namespace LoadedEvent

variable (e : LoadedEvent sys)

/-- The sounds of the entry are those of the files. -/
theorem exists_sounds : ∃ sounds, e.files.mapM (parserLoadSoundFile sys) = some sounds ∧
    e.entry = eventEntryOf sounds 0 := by
  have hloop := loadEventSnds_eq sys e.sndPath e.namelist.reverse []
  have halloc : eventEntryOf [] (e.namelist.length - 2)
      = engineAllocEventEntry (e.namelist.length - 2) := by
    rw [eventEntryOf, List.map_nil, List.map_nil, partly_nil, partly_nil]
    rfl
  rw [length_files e.scanned, halloc, List.length_nil, e.loaded, Option.some.injEq] at hloop
  obtain ⟨sounds, hsounds, hentry⟩ := Option.map_eq_some_iff.mp hloop.symm
  refine ⟨sounds, ?_, hentry.symm⟩
  rw [files, List.mapM_map]
  exact hsounds

/-- The entry is the one that `parserLoadEventSndDir` inserts. -/
theorem parserLoadEventSndDir_eq (name : CString) (s : Loader n k) :
    parserLoadEventSndDir sys name e.sndPath s
      = (engineSoundTableInsertEvent name e.entry >>= fun _ => pure true)
          { s with eventCnt := s.eventCnt + 1 } := by
  obtain ⟨sounds, hsounds, hentry⟩ := e.exists_sounds
  rw [hentry]
  refine parserLoadEventSndDir_of_some name s (Option.bind_eq_some_iff.mpr ⟨_, e.scanned, ?_⟩)
  rw [files, List.mapM_map] at hsounds
  exact hsounds

/-- There is a sound for each file. -/
theorem sndCnt_entry : e.entry.sndCnt = e.files.length := by
  obtain ⟨sounds, hsounds, hentry⟩ := e.exists_sounds
  rw [hentry, EventEntry.sndCnt, eventEntryOf, size_partly, List.length_map, Nat.add_zero]
  exact (forall₂_of_mapM hsounds).length_eq.symm

/-- The sound `i` of the entry is the file `i`, with its length. -/
theorem exists_sound {i : ℕ} (hi : i < e.files.length) : ∃ bytes sound,
    sys.contents e.files[i] = some bytes ∧ 0 ≤ arraySize bytes ∧
      (sound.size : ℤ) = arraySize bytes ∧ e.entry.snds[i]? = some (some sound) ∧
        e.entry.lens[i]? = some sound.size := by
  obtain ⟨sounds, hsounds, hentry⟩ := e.exists_sounds
  have hall := forall₂_of_mapM hsounds
  have hi' : i < sounds.length := hall.length_eq ▸ hi
  have hload : parserLoadSoundFile sys e.files[i] = some sounds[i] := hall.get hi hi'
  obtain ⟨bytes, hbytes, -⟩ := Option.bind_eq_some_iff.mp hload
  obtain ⟨hpos, hsize⟩ := size_parserLoadSoundFile hbytes hload
  refine ⟨bytes, sounds[i], hbytes, hpos, hsize, ?_, ?_⟩
  · simp [hentry, eventEntryOf, partly, hi']
  · simp [hentry, eventEntryOf, partly, hi']

end LoadedEvent

/-! ## The random index -/

namespace EventEntry

variable {entry : EventEntry}

/-- **The index of a sound** is below the number of sounds, if there is one. -/
theorem nextSnd_lt (h : 0 < entry.sndCnt) (r : RandFraction) :
    entry.nextSnd r < entry.sndCnt := toNat_truncate_mul_lt h r.2.1 r.2.2

/-- Every sound can be picked. -/
theorem exists_nextSnd {i : ℕ} (h : i < entry.sndCnt) : ∃ r, entry.nextSnd r = i := by
  have hcnt : (0 : ℚ) < entry.sndCnt := by exact_mod_cast i.zero_le.trans_lt h
  refine ⟨⟨i / entry.sndCnt, by positivity, ?_⟩, ?_⟩
  · rw [div_lt_one hcnt]
    exact_mod_cast h
  · rw [nextSnd, mul_div_cancel₀ _ hcnt.ne']
    exact congrArg Int.toNat (truncate_intCast (K := ℚ) i)

end EventEntry

/-- Arguments of `mixerAddEvent` with a sound of whole frames. -/
structure EventArgs.WholeFrames (args : EventArgs) (snd : Sound) : Prop where
  /-- The sound. -/
  hsnd : args.snd = some snd
  /-- The length is that of the array. -/
  hlen : args.len = snd.size
  /-- There is a sample. -/
  pos : 0 < args.len
  /-- The last frame is whole. -/
  even : args.len % 2 = 0

/-- **A call for a directory of whole frames** has a sound of whole frames. -/
theorem EventCall.exists_args (e : EventCall sys) (h : e.event.WholeFrames) :
    e.nextSnd < e.event.entry.sndCnt ∧ ∃ args snd, e.args? = some args ∧ args.WholeFrames snd := by
  have hlt : e.nextSnd < e.event.entry.sndCnt := by
    refine EventEntry.nextSnd_lt ?_ e.rand
    rw [LoadedEvent.sndCnt_entry]
    exact List.length_pos_iff.mpr h.1
  refine ⟨hlt, ?_⟩
  rw [LoadedEvent.sndCnt_entry] at hlt
  obtain ⟨bytes, sound, hbytes, hpos, hsize, hsnd, hlen⟩ := e.event.exists_sound hlt
  obtain ⟨hne, heven⟩ := (even_arraySize_iff bytes hpos).mpr
    (h.2 _ (List.getElem_mem hlt) bytes hbytes)
  refine ⟨⟨some sound, sound.size, e.loc.toNat / 255, e.flags⟩, sound, ?_, rfl, rfl, ?_, ?_⟩
  · rw [args?, hsnd, hlen]
    rfl
  · show 0 < sound.size
    omega
  · show sound.size % 2 = 0
    omega

/-! ## What a step does -/

namespace Playing

variable {s s' : Playing n k} {j c : Fin n} {args : EventArgs} {snd : Sound}
  {waiting : Option (EventCall sys)}

theorem add_of_idle (h : (s.mixer.ebuffs c).sndBuf = none) (args : EventArgs) :
    s.add args c = ⟨s.mixer.start args c,
      Function.update s.log c (s.log c ++ [.start args.len])⟩ := by
  simp [add, Mixer.mixerAddEvent, h]

theorem add_of_busy (h : (s.mixer.ebuffs c).sndBuf = some snd) (args : EventArgs) :
    s.add args c = s := by
  simp [add, Mixer.mixerAddEvent, h]

theorem turn_of_idle (h : (s.mixer.ebuffs j).sndBuf = none) : s.turn j waiting = some s := by
  rw [turn.eq_def, h]

/-- A read outside the array. -/
theorem turn_of_size_le (h : (s.mixer.ebuffs j).sndBuf = some snd)
    (hle : snd.size ≤ (s.mixer.ebuffs j).pos + 1) : s.turn j waiting = none := by
  have hright : snd[(s.mixer.ebuffs j).pos + 1]? = none := Array.getElem?_eq_none hle
  rw [turn.eq_def, h]
  simp only [hright, Option.bind_eq_bind, Option.bind_none]
  exact Option.bind_fun_none _

/-- The sound goes on. -/
theorem turn_of_ne (h : (s.mixer.ebuffs j).sndBuf = some snd)
    (hlt : (s.mixer.ebuffs j).pos + 1 < snd.size)
    (hne : (s.mixer.ebuffs j).pos + STEREO ≠ (s.mixer.ebuffs j).len) :
    s.turn j waiting = some (s.read j) := by
  have hleft := Array.getElem?_eq_getElem (Nat.lt_of_succ_lt hlt)
  have hright := Array.getElem?_eq_getElem hlt
  rw [turn.eq_def, h]
  simp only [hleft, hright, Option.bind_eq_bind, Option.bind_some, if_neg hne]

/-- The sound is done. -/
theorem turn_of_eq (h : (s.mixer.ebuffs j).sndBuf = some snd)
    (hlt : (s.mixer.ebuffs j).pos + 1 < snd.size)
    (heq : (s.mixer.ebuffs j).pos + STEREO = (s.mixer.ebuffs j).len) :
    s.turn j waiting = waiting.elim (some ((s.read j).release j))
      fun e => e.args?.map fun args => ((s.read j).release j).add args j := by
  have hleft := Array.getElem?_eq_getElem (Nat.lt_of_succ_lt hlt)
  have hright := Array.getElem?_eq_getElem hlt
  rw [turn.eq_def, h]
  simp only [hleft, hright, Option.bind_eq_bind, Option.bind_some, if_pos heq]
  cases waiting <;> rfl

/-- **A turn is the body of the mixer's loop.** -/
theorem turn_eq_mixEvent (h : s.turn j waiting = some s') : ∃ samples,
    s.mixer.mixEvent (fun _ => waiting.bind EventCall.args?) j = some (samples, s'.mixer) := by
  rw [turn.eq_def] at h
  rw [Mixer.mixEvent]
  cases hsnd : (s.mixer.ebuffs j).sndBuf with
  | none =>
    rw [hsnd] at h
    obtain rfl := Option.some.inj h
    exact ⟨_, rfl⟩
  | some snd =>
    simp only [hsnd, Option.bind_eq_bind, Option.bind_eq_some_iff] at h
    obtain ⟨left, hleft, right, hright, h⟩ := h
    simp only [hleft, hright, Option.bind_eq_bind, Option.bind_some]
    split_ifs at h ⊢
    · cases waiting with
      | none =>
        obtain rfl := Option.some.inj h
        exact ⟨_, rfl⟩
      | some e =>
        obtain ⟨args, hargs, rfl⟩ := Option.map_eq_some_iff.mp h
        rw [Option.bind_some, hargs]
        exact ⟨_, rfl⟩
    · obtain rfl := Option.some.inj h
      exact ⟨_, rfl⟩

end Playing

/-! ## The invariant -/

/-- What is kept of a channel: it is idle at position `0`, or in the middle of a sound of whole
frames, and the log says so. -/
inductive ChannelOk (b : EventBuf) (log : List ChannelEvent) : Prop
  /-- The channel is idle. -/
  | idle (lens : List ℕ) (hsnd : b.sndBuf = none) (hpos : b.pos = 0)
      (hlog : log = lens.flatMap playback)
  /-- The channel plays a sound. -/
  | busy (lens : List ℕ) (snd : Sound) (hsnd : b.sndBuf = some snd) (hlen : b.len = snd.size)
      (hlt : b.pos < b.len) (heven : b.len % 2 = 0) (hpos : b.pos % 2 = 0)
      (hlog : log = lens.flatMap playback ++ soFar b.len b.pos)

theorem soFar_add_two (len p : ℕ) :
    soFar len p ++ [.read p, .read (p + 1)] = soFar len (p + 2) := by
  simp [soFar, List.range_succ]

theorem flatMap_playback_concat (lens : List ℕ) (len : ℕ) :
    lens.flatMap playback ++ soFar len len ++ [.release] = (lens ++ [len]).flatMap playback := by
  simp [playback]

namespace Playing

/-- The invariant of the runs. -/
def Ok (s : Playing n k) : Prop := ∀ j, ChannelOk (s.mixer.ebuffs j) (s.log j)

variable {s s' : Playing n k} {j c : Fin n} {args : EventArgs} {snd : Sound}
  {waiting : Option (EventCall sys)}

theorem ok_start (n k : ℕ) : (start n k).Ok := fun _ => .idle [] rfl rfl rfl

theorem Ok.wellPlayed (h : s.Ok) (j : Fin n) : s.WellPlayed j := by
  cases h j with
  | idle lens hsnd hpos hlog => exact ⟨lens, by simpa [hsnd] using hlog⟩
  | busy lens snd hsnd hlen hlt heven hpos hlog =>
    exact ⟨lens, by simpa [hsnd] using ⟨_, hlt, hlog⟩⟩

/-- A sound of whole frames is added. -/
theorem Ok.add (h : s.Ok) (hargs : args.WholeFrames snd) (c : Fin n) : (s.add args c).Ok := by
  intro j
  cases h c with
  | busy lens snd' hsnd =>
    rw [add_of_busy hsnd]
    exact h j
  | idle lens hsnd hpos hlog =>
    rw [add_of_idle hsnd]
    rcases eq_or_ne j c with rfl | hne
    · refine .busy lens snd ?_ ?_ ?_ ?_ ?_ ?_
      · simp [Mixer.start, Mixer.occupy, hargs.hsnd]
      · simp [Mixer.start, Mixer.occupy, hargs.hlen]
      · simpa [Mixer.start, Mixer.occupy, hpos] using hargs.pos
      · simpa [Mixer.start, Mixer.occupy] using hargs.even
      · simp [Mixer.start, Mixer.occupy, hpos]
      · simp [Mixer.start, Mixer.occupy, hpos, hlog, soFar]
    · simpa [Mixer.start, Mixer.occupy, hne] using h j

/-- Two samples are read, and there are more. -/
theorem Ok.read (h : s.Ok) (hsnd : (s.mixer.ebuffs c).sndBuf = some snd)
    (hne : (s.mixer.ebuffs c).pos + STEREO ≠ (s.mixer.ebuffs c).len) : (s.read c).Ok := by
  intro j
  rcases eq_or_ne j c with rfl | hj
  · rw [STEREO] at hne
    cases h j with
    | idle lens hsnd' => simp [hsnd] at hsnd'
    | busy lens snd' hsnd' hlen hlt heven hpos hlog =>
      refine .busy lens snd' ?_ ?_ ?_ ?_ ?_ ?_
      · simpa [Playing.read, Mixer.advance] using hsnd'
      · simpa [Playing.read, Mixer.advance] using hlen
      · simp only [Playing.read, Mixer.advance, Function.update_self, STEREO]
        omega
      · simpa [Playing.read, Mixer.advance] using heven
      · simpa [Playing.read, Mixer.advance, STEREO] using hpos
      · simp only [Playing.read, Mixer.advance, Function.update_self, STEREO]
        rw [hlog, List.append_assoc, soFar_add_two]
  · simpa [Playing.read, Mixer.advance, hj] using h j

/-- The last two samples are read, and the channel is released. -/
theorem Ok.release (h : s.Ok) (hsnd : (s.mixer.ebuffs c).sndBuf = some snd)
    (heq : (s.mixer.ebuffs c).pos + STEREO = (s.mixer.ebuffs c).len) :
    ((s.read c).release c).Ok := by
  intro j
  rcases eq_or_ne j c with rfl | hj
  · rw [STEREO] at heq
    cases h j with
    | idle lens hsnd' => simp [hsnd] at hsnd'
    | busy lens snd' hsnd' hlen hlt heven hpos hlog =>
      refine .idle (lens ++ [(s.mixer.ebuffs j).len]) ?_ ?_ ?_
      · simp [Playing.release, Mixer.mixerRemoveEvent]
      · simp [Playing.release, Mixer.mixerRemoveEvent]
      · simp only [Playing.release, Playing.read, Function.update_self]
        rw [hlog, List.append_assoc (lens.flatMap playback), soFar_add_two, heq,
          flatMap_playback_concat]
  · simpa [Playing.release, Mixer.mixerRemoveEvent, Playing.read, Mixer.advance, hj] using h j

/-- **One step**, in which the events have sounds of whole frames. -/
theorem Ok.step {a : PlayStep sys n} (h : s.Ok) (ha : ∀ e ∈ a.calls, e.event.WholeFrames) :
    ∃ s', s.step a = some s' ∧ s'.Ok := by
  cases a with
  | event e c =>
    obtain ⟨-, args, snd, hargs, hwhole⟩ := e.exists_args (ha e rfl)
    exact ⟨s.add args c, by rw [Playing.step, hargs, Option.map_some], h.add hwhole c⟩
  | turn j waiting =>
    rw [Playing.step]
    cases h j with
    | idle lens hsnd => exact ⟨s, turn_of_idle hsnd, h⟩
    | busy lens snd hsnd hlen hlt heven hpos hlog =>
      have hright : (s.mixer.ebuffs j).pos + 1 < snd.size := by omega
      by_cases heq : (s.mixer.ebuffs j).pos + STEREO = (s.mixer.ebuffs j).len
      · rw [turn_of_eq hsnd hright heq]
        cases waiting with
        | none => exact ⟨_, rfl, h.release hsnd heq⟩
        | some e =>
          obtain ⟨-, args, snd', hargs, hwhole⟩ := e.exists_args (ha e rfl)
          refine ⟨((s.read j).release j).add args j, ?_, (h.release hsnd heq).add hwhole j⟩
          rw [Option.elim_some, hargs, Option.map_some]
      · exact ⟨_, turn_of_ne hsnd hright heq, h.read hsnd heq⟩

/-- **A run** in which the events have sounds of whole frames. -/
theorem along_plays {run : List (PlayStep sys n)}
    (h : ∀ a ∈ run, ∀ e ∈ a.calls, e.event.WholeFrames) : Along step Plays (start n k) run := by
  refine along_of_invariant (I := Ok) (C := fun _ a => ∀ e ∈ a.calls, e.event.WholeFrames)
    ?_ ?_ (ok_start n k) (along_of_forall (fun a ha _ => h a ha) _)
  · intro s a s' hs ha hs'
    obtain ⟨t, ht, hok⟩ := hs.step ha
    rw [hs'] at ht
    exact Option.some.inj ht ▸ hok
  · intro s a hs ha
    obtain ⟨s', hs', hok⟩ := hs.step ha
    exact ⟨fun e he => (e.exists_args (ha e he)).1, s', hs', hok.wellPlayed⟩

/-! ## Other sounds -/

/-- A sound on a channel of the mixer as it starts. -/
theorem ebuffs_add_start (args : EventArgs) (c : Fin n) :
    ((start n k).add args c).mixer.ebuffs c
      = ⟨args.snd, args.len, 0, args.loc, args.flags⟩ := by
  rw [add_of_idle rfl]
  exact Function.update_self ..

/-- A sound without whole frames is read until a read is outside the array. -/
theorem not_along_turns (m : ℕ) (hsnd : (s.mixer.ebuffs j).sndBuf = some snd)
    (hlen : (s.mixer.ebuffs j).len = snd.size) (hpos : (s.mixer.ebuffs j).pos % 2 = 0)
    (hle : (s.mixer.ebuffs j).pos ≤ snd.size)
    (hbad : snd.size % 2 = 1 ∨ snd.size ≤ (s.mixer.ebuffs j).pos)
    (hm : snd.size < (s.mixer.ebuffs j).pos + 2 * m) :
    ¬ Along step Plays s (List.replicate m (.turn j (none : Option (EventCall sys)))) := by
  induction m generalizing s with
  | zero => omega
  | succ m ih =>
    intro hplays
    rw [List.replicate_succ] at hplays
    by_cases hout : snd.size ≤ (s.mixer.ebuffs j).pos + 1
    · obtain ⟨-, s', hs', -⟩ := hplays.1
      rw [step, turn_of_size_le hsnd hout] at hs'
      cases hs'
    · have hturn : s.step (.turn j (none : Option (EventCall sys))) = some (s.read j) := by
        show s.turn j (none : Option (EventCall sys)) = some (s.read j)
        refine turn_of_ne hsnd (not_le.mp hout) ?_
        rw [STEREO, hlen]
        omega
      have hread : (s.read j).mixer.ebuffs j
          = { s.mixer.ebuffs j with pos := (s.mixer.ebuffs j).pos + 2 } :=
        Function.update_self ..
      refine ih (s := s.read j) ?_ ?_ ?_ ?_ ?_ ?_ (hplays.2 _ hturn)
      all_goals rw [hread]
      · exact hsnd
      · exact hlen
      · show ((s.mixer.ebuffs j).pos + 2) % 2 = 0
        omega
      · show (s.mixer.ebuffs j).pos + 2 ≤ snd.size
        omega
      · exact .inl (by omega)
      · show snd.size < (s.mixer.ebuffs j).pos + 2 + 2 * m
        omega

/-- **A directory without whole frames** has a sound that is not played as it should be, or none. -/
theorem exists_not_plays (n k : ℕ) (e : LoadedEvent sys) (h : ¬ e.WholeFrames) :
    ∃ run : List (PlayStep sys (n + 1)), (∀ a ∈ run, ∀ c ∈ a.calls, c.event = e) ∧
      ¬ Along step Plays (start (n + 1) k) run := by
  by_cases hfiles : e.files = []
  · refine ⟨[.event ⟨e, ⟨0, le_rfl, one_pos⟩, 0, 0⟩ 0], ?_, fun hplays => ?_⟩
    · simp [PlayStep.calls]
    · have hlt := hplays.1.1 _ rfl
      rw [LoadedEvent.sndCnt_entry, hfiles] at hlt
      exact Nat.not_lt_zero _ hlt
  · rw [LoadedEvent.WholeFrames, not_and] at h
    obtain ⟨path, hpath, h⟩ : ∃ path ∈ e.files, ∃ bytes, sys.contents path = some bytes ∧
        ¬ (4 ≤ bytes.length % 2 ^ 32 ∧ bytes.length % 4 < 2) := by
      simpa only [not_forall, exists_prop] using h hfiles
    obtain ⟨i, hi, rfl⟩ := List.getElem_of_mem hpath
    obtain ⟨bytes, hbytes, hframes⟩ := h
    obtain ⟨bytes', snd, hbytes', hsize₀, hsize, hsnd, hlen⟩ := e.exists_sound hi
    obtain rfl : bytes = bytes' := Option.some.inj (hbytes.symm.trans hbytes')
    rw [← even_arraySize_iff bytes hsize₀, ← hsize] at hframes
    obtain ⟨r, rfl⟩ := EventEntry.exists_nextSnd (hi.trans_eq e.sndCnt_entry.symm)
    refine ⟨.event ⟨e, r, 0, 0⟩ 0 :: List.replicate (snd.size / 2 + 1) (.turn 0 none), ?_, ?_⟩
    · simp [PlayStep.calls]
    · intro hplays
      have hstep : (start (n + 1) k).step (.event ⟨e, r, 0, 0⟩ 0)
          = some ((start (n + 1) k).add ⟨some snd, snd.size, (0 : UInt8).toNat / 255, 0⟩ 0) := by
        rw [step, EventCall.args?, EventCall.nextSnd, hsnd, hlen]
        rfl
      refine not_along_turns _ (congrArg EventBuf.sndBuf (ebuffs_add_start ..)) ?_ ?_ ?_ ?_ ?_
        (hplays.2 _ hstep)
      all_goals simp only [ebuffs_add_start]
      · exact Nat.zero_le _
      · omega
      · omega

/-- **The directories whose sounds are played as they should be.** In every run with events of these
directories, the index of the sound is below the number of sounds, every sample that is read is one
of the sound, each is read once and in order, and the channel is released with the last one, if and
only if each of the directories has a file, and all its files have whole frames. -/
theorem along_plays_iff (sys : System) (n k : ℕ) (entries : Set (LoadedEvent sys)) :
    (∀ run : List (PlayStep sys (n + 1)), (∀ a ∈ run, ∀ e ∈ a.calls, e.event ∈ entries) →
        Along step Plays (start (n + 1) k) run) ↔
      ∀ e ∈ entries, e.WholeFrames := by
  constructor
  · intro h e he
    by_contra hframes
    obtain ⟨run, hrun, hnot⟩ := exists_not_plays n k e hframes
    exact hnot (h run fun a ha c hc => hrun a ha c hc ▸ he)
  · intro h run hrun
    exact along_plays fun a ha e he => h e.event (hrun a ha e he)

/-- A file system whose directories have one sound of three samples. -/
def threeSamples : System where
  readdir := fun _ => some ⟨[ascii "a", ascii "..", ascii "."], by decide, by decide⟩
  contents := fun _ => some [0, 0, 0, 0, 0, 0]
  strtod := fun _ => 0
  expat := fun _ => ([], true)
  hostent := none
  inetAton := fun _ => none
  packageVersion := []

/-- The entry of such a directory. -/
def threeSamplesEvent : LoadedEvent threeSamples where
  sndPath := ascii "/sounds"
  namelist := [ascii "a", ascii "..", ascii "."]
  scanned := congrArg some (List.mergeSort_of_pairwise (by decide))
  entry := ⟨#[some #[0, 0, 0]], #[3]⟩
  loaded := by rfl

/-- **Three samples.** The second turn reads a sample behind the sound. -/
theorem not_plays_threeSamples :
    ¬ Along step Plays (start 1 0) [.event ⟨threeSamplesEvent, ⟨0, le_rfl, one_pos⟩, 0, 0⟩ 0,
      .turn 0 none, .turn 0 none] := by
  intro h
  have hargs : EventCall.args? ⟨threeSamplesEvent, ⟨0, le_rfl, one_pos⟩, 0, 0⟩
      = some ⟨some #[0, 0, 0], 3, (0 : UInt8).toNat / 255, 0⟩ := by
    have hnext : threeSamplesEvent.entry.nextSnd ⟨0, le_rfl, one_pos⟩ = 0 := by
      simp [EventEntry.nextSnd, truncate]
    rw [EventCall.args?, EventCall.nextSnd, hnext]
    rfl
  have hstep : (start 1 0).step (.event ⟨threeSamplesEvent, ⟨0, le_rfl, one_pos⟩, 0, 0⟩ 0)
      = some ((start 1 0).add ⟨some #[0, 0, 0], 3, (0 : UInt8).toNat / 255, 0⟩ 0) := by
    rw [step, hargs]
    rfl
  have hturns := ((along_cons_of_eq hstep).mp h).2
  refine not_along_turns 2 (congrArg EventBuf.sndBuf (ebuffs_add_start ..)) ?_ ?_ ?_ ?_ ?_ hturns
  all_goals simp [ebuffs_add_start]

end Playing

end Peep
