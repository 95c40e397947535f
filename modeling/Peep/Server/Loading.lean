import Peep.EngineLoop
import Peep.Library.Program
import Peep.Server.TransTable

/-!
# Loading sounds

What the two ways of configuring the server have in common: the counters of `parser.c`, which are
shared with `xml_theme.c`, and the functions that load the sounds of a directory into an entry of
the engine (`parserLoadEventSndDir`) or a threshold of the mixer (`parserLoadStateSndDir`).

The number of a state is `state_cnt`, which whoever registers a state increments. It is the index of
a channel in the calls of the mixer. `parserLoadStateSndDir` checks it; if there is no channel left,
it counts the state that it skips.

## Choices

The file system and the libraries are parameters: what a directory has, what is in a file, and
`strtod`. A directory has the entries `.` and `..`. A `double` is an exact rational, and so is a
`float`. Memory can be allocated if there are addresses for it.

A program that reads or writes outside an array, or through `NULL`, crashes. The numbers of the
states that the mixer is called with are recorded.

## Main results

* `parserLoadEventSndDir_of_some` — what is loaded into an event
* `parserLoadStateSndDir_of_some` — what is loaded into a threshold
* `stateEntries_insert` — the state entries of the sound table after an insert
* `Loader.Stable.carries_parserLoadStateSndDir` — what loading sounds does not change
-/

namespace Peep

open Bytes Decimal Program

/-! ## The system -/

/-- The entries of a directory, in the order of `readdir`. -/
structure Directory where
  /-- The names. -/
  names : List CString
  /-- Every directory has an entry for itself. -/
  self : names.count (ascii ".") = 1
  /-- And one for its parent. -/
  parent : names.count (ascii "..") = 1

/-- `struct hostent`. -/
structure HostEnt where
  /-- `h_name`. -/
  hName : CString
  /-- `h_aliases`. -/
  hAliases : List CString
  /-- `h_addr_list`: the pointers. -/
  hAddrList : List UInt64

/-- What the functions of the loader ask the system and its libraries. -/
structure System where
  /-- `opendir` and `readdir`. -/
  readdir : CString → Option Directory
  /-- `fopen`, and the bytes of the file. -/
  contents : CString → Option (List UInt8)
  /-- `strtod`. -/
  strtod : CString → ℚ
  /-- `XML_Parse`: the calls of the handlers, and whether the document is well formed. -/
  expat : CString → List XmlCall × Bool
  /-- `gethostname` and `gethostbyname`. -/
  hostent : Option HostEnt
  /-- `inet_aton`: `s_addr`. -/
  inetAton : CString → Option UInt32
  /-- `PACKAGE_VERSION`, which the build sets. -/
  packageVersion : CString

/-! ## The loader -/

/-- The variables of the loader, and the tables that it fills. -/
structure Loader (n k : ℕ) where
  /-- `sound_path`. -/
  soundPath : Option CString
  /-- `import_stack`. -/
  importStack : List CString
  /-- `event_cnt`. -/
  eventCnt : ℕ
  /-- `state_cnt`. -/
  stateCnt : ℕ
  /-- `trans_table`. -/
  transTable : List TransEntry
  /-- `sound_table` of the engine. -/
  table : SoundTable SoundData
  /-- The tables of the mixer. -/
  mixer : Mixer n k
  /-- `broadcast_list` of the server. -/
  ports : List Int32
  /-- `identifier` of the server. -/
  identifier : Option CString
  /-- `port` of the server. -/
  port : Int32
  /-- The state numbers that the functions of the mixer have been called with. -/
  called : List ℕ

variable {n k : ℕ}

/-- The loader when the program starts, after `parserInit`. -/
def Loader.start (n k : ℕ) (port : Int32) : Loader n k where
  soundPath := none
  importStack := [ascii "./"]
  eventCnt := 0
  stateCnt := 0
  transTable := []
  table := Chained.empty
  mixer := mixerInit n k
  ports := []
  identifier := none
  port := port
  called := []

/-- A call of the mixer for a state. -/
def callMixer (state : ℕ) (f : Mixer n k → Option (MixerStatus × Mixer n k)) :
    Program (Loader n k) MixerStatus := fun s =>
  match f s.mixer with
  | none => (none, { s with called := s.called ++ [state] })
  | some (status, m) => (some status, { s with mixer := m, called := s.called ++ [state] })

/-- A call of `engineSoundTableInsert`. -/
def callInsert (entry : SoundEntry SoundData) : Program (Loader n k) EngineStatus := fun s =>
  match engineSoundTableInsert s.table entry with
  | none => (none, s)
  | some (status, t) => (some status, { s with table := t })

/-- `engineSoundTableInsertEvent`. -/
def engineSoundTableInsertEvent (name : CString) (event : EventEntry) :
    Program (Loader n k) EngineStatus :=
  callInsert ⟨name, EVENT_T, .event event⟩

/-- `engineSoundTableInsertState`, with an entry of `engineAllocStateEntry (index)`. -/
def engineSoundTableInsertState (name : CString) (index : ℕ) : Program (Loader n k) EngineStatus :=
  callInsert ⟨name, STATE_T, .state index⟩

/-! ## Files -/

/-- `parserScanCompar`: `strcmp` with its arguments exchanged. -/
def parserScanCompar (d₁ d₂ : CString) : Ordering := compare d₂ d₁

/-- `parserScanDir`. -/
def parserScanDir (sys : System) (dir : CString) : Option (List CString) :=
  (sys.readdir dir).map fun d => d.names.mergeSort fun a b => (parserScanCompar a b).isLE

/-- `parserGetFileSize`: the size of a file as an `int`. -/
def parserGetFileSize (bytes : List UInt8) : Int32 := Int32.ofNat bytes.length

/-- `*array_size` in `parserLoadSoundFile`, before it is made a `size_t`. -/
def arraySize (bytes : List UInt8) : ℤ := (parserGetFileSize bytes).toInt.tdiv 2

/-- `parserLoadSoundFile`. The file has the least significant byte first. -/
def parserLoadSoundFile (sys : System) (path : CString) : Option Sound := do
  let bytes ← sys.contents path
  -- a negative number is a `size_t` for which `calloc` returns `NULL`
  if arraySize bytes < 0 then none
  else some (Array.ofFn fun i : Fin (arraySize bytes).toNat =>
    Int16.ofNat ((bytes.getD (2 * i) 0).toNat + 256 * (bytes.getD (2 * i + 1) 0).toNat))

/-- `.` and `..`, as `strcasecmp` finds them. -/
def isDots (name : CString) : Bool := strcaseeq name (ascii "..") || strcaseeq name (ascii ".")

/-- The path of a file in a directory. -/
def inDir (dir name : CString) : CString := dir ++ [47] ++ name

/-! ## Events -/

/-- `engineAllocEventEntry`. -/
def engineAllocEventEntry (noEvents : ℕ) : EventEntry where
  snds := Array.replicate noEvents none
  lens := Array.replicate noEvents 0

/-- `engineEventEntryAssignSnd`. -/
def engineEventEntryAssignSnd (entry : EventEntry) (eventNo : ℕ) (sound : Sound) :
    Option EventEntry :=
  if eventNo < entry.snds.size then
    some ⟨entry.snds.setIfInBounds eventNo (some sound),
      entry.lens.setIfInBounds eventNo sound.size⟩
  else none

/-- The loop of `parserLoadEventSndDir` over the names from the last to the first. The inner `none`
is a file that cannot be loaded. -/
def loadEventSnds (sys : System) (sndPath : CString) :
    List CString → ℕ → EventEntry → Option (Option EventEntry)
  | [], _, entry => some (some entry)
  | name :: rest, index, entry =>
    if isDots name then loadEventSnds sys sndPath rest index entry
    else
      match parserLoadSoundFile sys (inDir sndPath name) with
      | none => some none
      | some sound => do
        let entry ← engineEventEntryAssignSnd entry index sound
        loadEventSnds sys sndPath rest (index + 1) entry

/-- `parserLoadEventSndDir`. -/
def parserLoadEventSndDir (sys : System) (name sndPath : CString) : Program (Loader n k) Bool :=
  match parserScanDir sys sndPath with
  | none => pure false
  | some namelist => do
    let entry ← ofOption
      (loadEventSnds sys sndPath namelist.reverse 0 (engineAllocEventEntry (namelist.length - 2)))
    match entry with
    | none => pure false
    | some entry =>
      change fun s => { s with eventCnt := s.eventCnt + 1 }
      let _ ← engineSoundTableInsertEvent name entry
      pure true

/-! ## States -/

/-- The loop of `parserLoadStateSndDir` over the names from the last to the first. -/
def loadStateSnds (sys : System) (sndPath : CString) (threshCnt : ℕ) :
    List CString → ℕ → Program (Loader n k) Bool
  | [], _ => pure true
  | name :: rest, index =>
    if isDots name then loadStateSnds sys sndPath threshCnt rest index
    else
      match parserLoadSoundFile sys (inDir sndPath name) with
      | none => pure false
      | some sound => do
        let s ← get
        let _ ← callMixer s.stateCnt fun m =>
          m.mixerAddState s.stateCnt threshCnt index (some sound) sound.size
        loadStateSnds sys sndPath threshCnt rest (index + 1)

/-- `parserLoadStateSndDir`. The path may be `NULL`, which is not looked at if the state is
skipped. -/
def parserLoadStateSndDir (sys : System) (threshCnt : ℕ) (lBound hBound : ℚ)
    (sndPath : Option CString) (fade : ℚ) : Program (Loader n k) Bool := do
  let s ← get
  if k ≤ s.stateCnt then
    change fun s => { s with stateCnt := s.stateCnt + 1 }
    pure false
  else
    let sndPath ← ofOption sndPath
    match parserScanDir sys sndPath with
    | none => pure false
    | some namelist =>
      let _ ← callMixer s.stateCnt fun m =>
        m.mixerAddStateThreshold s.stateCnt threshCnt lBound hBound (namelist.length - 2)
      let loaded ← loadStateSnds sys sndPath threshCnt namelist.reverse 0
      if loaded then
        let _ ← callMixer s.stateCnt fun m => m.mixerSetFadeTime s.stateCnt fade
        pure true
      else pure false

/-- `mixerGetThresholdEntry (state, thresh)->h_bound`. -/
def getHBound (m : Mixer n k) (state thresh : ℕ) : Option ℚ :=
  if h : state < k then (deref? (m.states ⟨state, h⟩).buf.thresh thresh).map Threshold.hBound
  else none

/-! ## The sounds of a directory -/

/-- The sounds of a directory, in the order of their names, if all files can be loaded. -/
def directorySounds (sys : System) (path : CString) : Option (List Sound) := do
  let namelist ← parserScanDir sys path
  (namelist.reverse.filter fun name => !isDots name).mapM fun name =>
    parserLoadSoundFile sys (inDir path name)

/-- An array whose first elements are there. -/
def partly {α : Type} (xs : List α) (m : ℕ) (default : α) : Array α :=
  (xs ++ List.replicate m default).toArray

variable {sys : System} {path : CString} {names : List CString} {sounds done : List Sound}

theorem tolower_eq_dot {c : UInt8} : tolower c = 46 ↔ c = 46 := by
  rw [tolower]
  split_ifs with h
  · simp only [Bool.and_eq_true, decide_eq_true_eq, UInt8.le_iff_toNat_le] at h
    simp only [← UInt8.toNat_inj, UInt8.toNat_add]
    have h65 : (65 : UInt8).toNat = 65 := rfl
    have h90 : (90 : UInt8).toNat = 90 := rfl
    have h32 : (32 : UInt8).toNat = 32 := rfl
    have h46 : (46 : UInt8).toNat = 46 := rfl
    omega
  · exact Iff.rfl

theorem isDots_iff {name : CString} :
    isDots name = true ↔ name = ascii ".." ∨ name = ascii "." := by
  have hone : ascii "." = [46] := by decide
  have htwo : ascii ".." = [46, 46] := by decide
  have hlower : tolower 46 = 46 := rfl
  rw [isDots, Bool.or_eq_true, strcaseeq_iff, strcaseeq_iff, hone, htwo]
  rcases name with - | ⟨a, - | ⟨b, - | ⟨c, name⟩⟩⟩ <;> simp [tolower_eq_dot, hlower]

theorem countP_isDots (names : List CString) :
    names.countP isDots = names.count (ascii "..") + names.count (ascii ".") := by
  induction names with
  | nil => rfl
  | cons name names ih =>
    have hne : ascii ".." ≠ ascii "." := by decide
    rw [List.countP_cons, List.count_cons, List.count_cons, ih]
    by_cases hname : isDots name = true
    · rcases isDots_iff.mp hname with rfl | rfl
      · simp [hname, hne]
        omega
      · simp [hname, hne.symm]
        omega
    · obtain ⟨htwo, hone⟩ := not_or.mp (mt isDots_iff.mpr hname)
      simp [hname, htwo, hone]

/-- A directory has two entries that are not files. -/
theorem length_files {namelist : List CString} (h : parserScanDir sys path = some namelist) :
    (namelist.reverse.filter fun name => !isDots name).length = namelist.length - 2 := by
  obtain ⟨d, -, rfl⟩ := Option.map_eq_some_iff.mp h
  have hperm := List.mergeSort_perm d.names fun a b => (parserScanCompar a b).isLE
  have hdots : (d.names.mergeSort fun a b => (parserScanCompar a b).isLE).reverse.countP isDots
      = 2 := by
    rw [((List.reverse_perm _).trans hperm).countP_eq, countP_isDots, d.self, d.parent]
  have htotal := List.length_eq_countP_add_countP isDots
    (l := (d.names.mergeSort fun a b => (parserScanCompar a b).isLE).reverse)
  rw [List.length_reverse, hdots] at htotal
  rw [← List.countP_eq_length_filter]
  have hnot : ∀ l : List CString, l.countP (fun name => !isDots name)
      = l.countP fun name => ¬ isDots name = true := fun l => List.countP_congr fun a _ => by simp
  rw [hnot]
  omega

/-! ## What is loaded -/

theorem size_partly {α : Type} (xs : List α) (m : ℕ) (default : α) :
    (partly xs m default).size = xs.length + m := by simp [partly]

/-- The next element is written. -/
theorem setIfInBounds_partly {α : Type} (xs : List α) (m : ℕ) (default a : α) :
    (partly xs (m + 1) default).setIfInBounds xs.length a = partly (xs ++ [a]) m default := by
  rw [partly, partly, List.setIfInBounds_toArray, List.set_append_right _ _ le_rfl, Nat.sub_self,
    List.replicate_succ, List.set_cons_zero, List.append_assoc]
  rfl

theorem modify_partly {α : Type} (xs : List α) (m : ℕ) (default a : α) :
    (partly xs (m + 1) default).modify xs.length (fun _ => a) = partly (xs ++ [a]) m default := by
  rw [← setIfInBounds_partly]
  refine Array.ext (by simp) fun i h _ => ?_
  rw [Array.getElem_modify, Array.getElem_setIfInBounds]

theorem partly_nil {α : Type} (m : ℕ) (default : α) :
    partly [] m default = Array.replicate m default := by
  rw [partly, List.nil_append, List.toArray_replicate]

/-- An entry whose first sounds are there. -/
def eventEntryOf (done : List Sound) (m : ℕ) : EventEntry where
  snds := partly (done.map some) m none
  lens := partly (done.map Array.size) m 0

/-- What the loop makes of an entry. -/
theorem loadEventSnds_eq (sys : System) (path : CString) (names : List CString)
    (done : List Sound) :
    loadEventSnds sys path names done.length
        (eventEntryOf done (names.filter fun name => !isDots name).length)
      = some (((names.filter fun name => !isDots name).mapM fun name =>
          parserLoadSoundFile sys (inDir path name)).map fun sounds =>
        eventEntryOf (done ++ sounds) 0) := by
  induction names generalizing done with
  | nil => simp [loadEventSnds]
  | cons name names ih =>
    rw [loadEventSnds]
    by_cases hname : isDots name = true
    · rw [if_pos hname, List.filter_cons_of_neg (by simpa using hname)]
      exact ih done
    · rw [if_neg hname, List.filter_cons_of_pos (by simpa using hname), List.mapM_cons]
      cases hsound : parserLoadSoundFile sys (inDir path name) with
      | none => rfl
      | some sound =>
        have hassign : engineEventEntryAssignSnd (eventEntryOf done
            ((names.filter fun name => !isDots name).length + 1)) done.length sound
              = some (eventEntryOf (done ++ [sound])
                (names.filter fun name => !isDots name).length) := by
          rw [engineEventEntryAssignSnd, if_pos]
          · have hsnds := setIfInBounds_partly (done.map some)
              (names.filter fun name => !isDots name).length none (some sound)
            have hlens := setIfInBounds_partly (done.map Array.size)
              (names.filter fun name => !isDots name).length 0 sound.size
            rw [List.length_map] at hsnds hlens
            rw [eventEntryOf, eventEntryOf, hsnds, hlens, List.map_append, List.map_append]
            rfl
          · rw [eventEntryOf, size_partly, List.length_map]
            omega
        have hrest := ih (done ++ [sound])
        rw [List.length_append, List.length_singleton] at hrest
        simp only [List.length_cons, hassign, Option.bind_eq_bind, Option.bind_some, hrest]
        cases (names.filter fun name => !isDots name).mapM fun name =>
            parserLoadSoundFile sys (inDir path name) with
        | none => rfl
        | some sounds => simp

/-- **What is loaded into an event.** -/
theorem parserLoadEventSndDir_of_some (name : CString) (s : Loader n k)
    (h : directorySounds sys path = some sounds) :
    parserLoadEventSndDir sys name path s
      = (engineSoundTableInsertEvent name (eventEntryOf sounds 0) >>= fun _ => pure true)
          { s with eventCnt := s.eventCnt + 1 } := by
  obtain ⟨namelist, hnames, hsounds⟩ := Option.bind_eq_some_iff.mp h
  have hloop := loadEventSnds_eq sys path namelist.reverse []
  rw [hsounds, length_files hnames] at hloop
  simp only [parserLoadEventSndDir, hnames]
  have halloc : engineAllocEventEntry (namelist.length - 2)
      = eventEntryOf [] (namelist.length - 2) := by
    rw [eventEntryOf, List.map_nil, List.map_nil, partly_nil, partly_nil]
    rfl
  rw [halloc]
  exact bind_of_some (congrFun (congrArg ofOption hloop) s)

/-- If a file cannot be loaded, nothing is. -/
theorem parserLoadEventSndDir_of_none (name : CString) (s : Loader n k)
    (h : directorySounds sys path = none) :
    parserLoadEventSndDir sys name path s = (some false, s) := by
  rw [parserLoadEventSndDir]
  cases hnames : parserScanDir sys path with
  | none => rfl
  | some namelist =>
    have hsounds : ((namelist.reverse.filter fun name => !isDots name).mapM fun name =>
        parserLoadSoundFile sys (inDir path name)) = none := by
      rw [directorySounds, hnames] at h
      exact h
    have hloop := loadEventSnds_eq sys path namelist.reverse []
    rw [hsounds, length_files hnames] at hloop
    have halloc : engineAllocEventEntry (namelist.length - 2)
        = eventEntryOf [] (namelist.length - 2) := by
      rw [eventEntryOf, List.map_nil, List.map_nil, partly_nil, partly_nil]
      rfl
    simp only [halloc]
    exact bind_of_some (congrFun (congrArg ofOption hloop) s)

theorem callInsert_of_some {s : Loader n k} {entry : SoundEntry SoundData} {status : EngineStatus}
    {t : SoundTable SoundData} (h : engineSoundTableInsert s.table entry = some (status, t)) :
    callInsert entry s = (some status, { s with table := t }) := by
  rw [callInsert, h]

theorem callInsert_of_none {s : Loader n k} {entry : SoundEntry SoundData}
    (h : engineSoundTableInsert s.table entry = none) : callInsert entry s = (none, s) := by
  rw [callInsert, h]

/-! ## What is loaded into a threshold -/

/-- The segments of a threshold whose first sounds are there. -/
def stateSndOf (done : List Sound) (m : ℕ) : StateSnd where
  sndBuf := some (partly (done.map some) m none)
  len := partly (done.map Array.size) m 0
  sndNo := 0
  pos := 0

/-- A threshold with these sounds. -/
def thresholdOf (lBound hBound : ℚ) (sounds : List Sound) : Threshold where
  lBound := lBound
  hBound := hBound
  stateSnd := stateSndOf sounds 0

variable {m : Mixer n k} {i : Fin k} {ts : Array Threshold} {t : ℕ} {lBound hBound fade : ℚ}

/-- The mixer with other thresholds for a state. -/
def Mixer.withThresh (m : Mixer n k) (i : Fin k) (ts : Array Threshold) : Mixer n k :=
  { m with
    states := Function.update m.states i
      ⟨{ (m.states i).buf with thresh := some ts }, (m.states i).fade⟩ }

theorem Mixer.states_withThresh (m : Mixer n k) (i : Fin k) (ts : Array Threshold) :
    (m.withThresh i ts).states i
      = ⟨{ (m.states i).buf with thresh := some ts }, (m.states i).fade⟩ :=
  Function.update_self ..

@[simp] theorem Mixer.thresh_withThresh (m : Mixer n k) (i : Fin k) (ts : Array Threshold) :
    ((m.withThresh i ts).states i).buf.thresh = some ts := by
  rw [Mixer.states_withThresh]

@[simp] theorem Mixer.withThresh_withThresh (m : Mixer n k) (i : Fin k)
    (ts us : Array Threshold) : (m.withThresh i ts).withThresh i us = m.withThresh i us := by
  simp [Mixer.withThresh]

/-- A call on a state channel that returns. -/
theorem Mixer.onState_of_some {f : StateChannel → Option (MixerStatus × StateChannel)}
    {status : MixerStatus} {c : StateChannel} (h : f (m.states i) = some (status, c)) :
    m.onState i f = some (status, { m with states := Function.update m.states i c }) :=
  Mixer.onState_eq_some.mpr ⟨i.isLt, c, h, rfl⟩

/-- The thresholds with another one in a place. -/
def putThreshold (ts : Array Threshold) (t : ℕ) (th : Threshold) : Array Threshold :=
  ts.modify t fun _ => th

@[simp] theorem size_putThreshold (ts : Array Threshold) (t : ℕ) (th : Threshold) :
    (putThreshold ts t th).size = ts.size := Array.size_modify

theorem getElem?_putThreshold (ts : Array Threshold) (t : ℕ) (th : Threshold) (ht : t < ts.size) :
    (putThreshold ts t th)[t]? = some th := by
  rw [putThreshold, Array.getElem?_modify, if_pos rfl, Array.getElem?_eq_getElem ht]
  rfl

theorem putThreshold_modify (ts : Array Threshold) (t : ℕ) (th : Threshold)
    (f : Threshold → Threshold) :
    (putThreshold ts t th).modify t f = putThreshold ts t (f th) := by
  refine Array.ext (by simp) fun i h _ => ?_
  simp only [putThreshold, Array.getElem_modify]
  split_ifs <;> rfl

/-- A threshold is added. -/
theorem mixerAddStateThreshold_eq (h : (m.states i).buf.thresh = some ts) (ht : t < ts.size)
    (lBound hBound : ℚ) (cnt : ℕ) :
    m.mixerAddStateThreshold i t lBound hBound cnt = some (.success, m.withThresh i
      (putThreshold ts t ⟨lBound, hBound, stateSndOf [] cnt⟩)) := by
  have hcnt : ¬ (m.states i).buf.threshCnt < t := by
    rw [StateBuf.threshCnt, h]
    exact ht.not_gt
  refine Mixer.onState_of_some ?_
  rw [if_neg hcnt, h]
  have hmodify : modify? (some ts) t (fun _ => ⟨lBound, hBound,
      ⟨some (Array.replicate cnt none), Array.replicate cnt 0, 0, 0⟩⟩)
      = some (putThreshold ts t ⟨lBound, hBound, stateSndOf [] cnt⟩) := by
    rw [stateSndOf, List.map_nil, List.map_nil, partly_nil, partly_nil]
    exact if_pos ht
  rw [hmodify]
  rfl

/-- A sound is added to a threshold. -/
theorem mixerAddState_eq {a : ℕ}
    (h : (m.states i).buf.thresh
      = some (putThreshold ts t ⟨lBound, hBound, stateSndOf done (a + 1)⟩))
    (ht : t < ts.size) (sound : Sound) :
    m.mixerAddState i t done.length (some sound) sound.size = some (.success, m.withThresh i
      (putThreshold ts t ⟨lBound, hBound, stateSndOf (done ++ [sound]) a⟩)) := by
  have hcnt : ¬ (m.states i).buf.threshCnt < t := by
    rw [StateBuf.threshCnt, h]
    simpa using ht.le
  have hsnd : (m.states i).buf.stateSnd? t = some (stateSndOf done (a + 1)) := by
    have hget := getElem?_putThreshold ts t ⟨lBound, hBound, stateSndOf done (a + 1)⟩ ht
    rw [StateBuf.stateSnd?, h]
    exact congrArg (Option.map Threshold.stateSnd) hget
  have hsize : ¬ (stateSndOf done (a + 1)).sndCnt < done.length := by
    rw [StateSnd.sndCnt, stateSndOf, size_partly, List.length_map]
    omega
  have hthere : deref? (stateSndOf done (a + 1)).sndBuf done.length = some none := by
    show (partly (done.map some) (a + 1) none)[done.length]? = some none
    simp [partly]
  have hput : modify? (stateSndOf done (a + 1)).sndBuf done.length (fun _ => some sound)
      = some (partly ((done ++ [sound]).map some) a none) := by
    have hmodify := modify_partly (done.map some) a none (some sound)
    rw [List.length_map] at hmodify
    rw [List.map_append, List.map_singleton, ← hmodify]
    exact if_pos (by rw [size_partly, List.length_map]; omega)
  have hlen : (stateSndOf done (a + 1)).len.setIfInBounds done.length sound.size
      = partly ((done ++ [sound]).map Array.size) a 0 := by
    have hset := setIfInBounds_partly (done.map Array.size) a 0 sound.size
    rw [List.length_map] at hset
    rw [List.map_append, List.map_singleton, ← hset]
    rfl
  refine Mixer.onState_of_some ?_
  rw [if_neg hcnt, hsnd]
  simp only [Option.bind_eq_bind, Option.bind_some, if_neg hsize, hthere, hput, hlen]
  rw [if_neg (by simp), StateBuf.setStateSnd, h, Option.map_some, putThreshold_modify]
  rfl

/-- What `calloc` makes of a threshold. -/
def blankThreshold : Threshold := ⟨0, 0, ⟨none, #[], 0, 0⟩⟩

/-- A state is allocated. -/
theorem mixerAllocNewState_eq (h : (m.states i).buf.thresh = none) (cnt : ℕ) :
    ∃ m', m.mixerAllocNewState i cnt = some (.success, m') ∧
      (m'.states i).buf.thresh = some (partly [] cnt blankThreshold) := by
  have hstate : (if (m.states i).buf.thresh.isSome then
        some (MixerStatus.alreadyAlloc, m.states i)
      else some (.success, { m.states i with
        buf := { (m.states i).buf with
          thresh := some (Array.replicate cnt blankThreshold)
          stereoPos := 1 / 2 } })) = some (.success, { m.states i with
        buf := { (m.states i).buf with
          thresh := some (Array.replicate cnt blankThreshold)
          stereoPos := 1 / 2 } }) := by
    rw [h]
    rfl
  refine ⟨_, (congrArg (· >>= _) (Mixer.onState_of_some hstate)).trans rfl, ?_⟩
  show (Function.update m.states i _ i).buf.thresh = _
  rw [Function.update_self, partly_nil]

/-- The fade time of a state is set. -/
theorem mixerSetFadeTime_eq (m : Mixer n k) (i : Fin k) (fade : ℚ) :
    m.mixerSetFadeTime i fade = some (.success, { m with
      states := Function.update m.states i
        { m.states i with fade := { (m.states i).fade with fadeTime := fade } } }) := by
  rw [Mixer.mixerSetFadeTime, if_pos i.isLt.le]
  exact Mixer.onState_of_some rfl

/-- The loader with other thresholds for a state, after some calls. -/
def Loader.withThresh (s : Loader n k) (i : Fin k) (ts : Array Threshold) (called : List ℕ) :
    Loader n k :=
  { s with mixer := s.mixer.withThresh i ts, called := called }

theorem callMixer_of_some {s : Loader n k} {state : ℕ} {status : MixerStatus} {m : Mixer n k}
    {f : Mixer n k → Option (MixerStatus × Mixer n k)} (h : f s.mixer = some (status, m)) :
    callMixer state f s = (some status, { s with mixer := m, called := s.called ++ [state] }) := by
  rw [callMixer, h]

variable {s : Loader n k}

/-- What one sound does to the loader. -/
theorem callMixer_addState {a : ℕ} (hs : s.stateCnt = i) (ht : t < ts.size) (sound : Sound)
    (called : List ℕ) :
    callMixer s.stateCnt (fun m => m.mixerAddState s.stateCnt t done.length (some sound) sound.size)
        (s.withThresh i (putThreshold ts t ⟨lBound, hBound, stateSndOf done (a + 1)⟩) called)
      = (some .success, s.withThresh i
          (putThreshold ts t ⟨lBound, hBound, stateSndOf (done ++ [sound]) a⟩)
          (called ++ [i.val])) := by
  rw [hs]
  refine (callMixer_of_some (mixerAddState_eq (Mixer.thresh_withThresh ..) ht sound)).trans ?_
  rw [Loader.withThresh, Mixer.withThresh_withThresh]
  rfl

theorem loadStateSnds_of_some (lBound hBound : ℚ) (names : List CString) (done : List Sound)
    (hs : s.stateCnt = i) (ht : t < ts.size) (called : List ℕ)
    (h : ((names.filter fun name => !isDots name).mapM fun name =>
      parserLoadSoundFile sys (inDir path name)) = some sounds) :
    loadStateSnds sys path t names done.length (s.withThresh i (putThreshold ts t
        ⟨lBound, hBound, stateSndOf done (names.filter fun name => !isDots name).length⟩) called)
      = (some true, s.withThresh i
          (putThreshold ts t ⟨lBound, hBound, stateSndOf (done ++ sounds) 0⟩)
          (called ++ List.replicate sounds.length i.val)) := by
  induction names generalizing done sounds called with
  | nil =>
    obtain rfl : [] = sounds := by simpa using h
    simp [loadStateSnds]
  | cons name names ih =>
    rw [loadStateSnds]
    by_cases hname : isDots name = true
    · have hfilter : (name :: names).filter (fun name => !isDots name)
          = names.filter fun name => !isDots name := List.filter_cons_of_neg (by simpa using hname)
      rw [hfilter] at h ⊢
      rw [if_pos hname]
      exact ih done called h
    · have hfilter : (name :: names).filter (fun name => !isDots name)
          = name :: names.filter fun name => !isDots name :=
        List.filter_cons_of_pos (by simpa using hname)
      rw [hfilter, List.mapM_cons] at h
      obtain ⟨sound, hsound, h⟩ := Option.bind_eq_some_iff.mp h
      obtain ⟨rest, hrest, h⟩ := Option.bind_eq_some_iff.mp h
      obtain rfl := Option.some.inj h
      rw [hfilter, if_neg hname, hsound, List.length_cons]
      simp only [get_bind]
      refine (bind_of_some (callMixer_addState hs ht sound called)).trans ?_
      have hnext := ih (done ++ [sound]) (called ++ [i.val]) hrest
      rw [List.length_append, List.length_singleton] at hnext
      rw [hnext, List.append_assoc, List.append_assoc, List.length_cons, List.replicate_succ]
      rfl

theorem loadStateSnds_of_none (lBound hBound : ℚ) (names : List CString) (done : List Sound)
    (hs : s.stateCnt = i) (ht : t < ts.size) (called : List ℕ)
    (h : ((names.filter fun name => !isDots name).mapM fun name =>
      parserLoadSoundFile sys (inDir path name)) = none) :
    ∃ s', loadStateSnds sys path t names done.length (s.withThresh i (putThreshold ts t
        ⟨lBound, hBound, stateSndOf done (names.filter fun name => !isDots name).length⟩) called)
      = (some false, s') := by
  induction names generalizing done called with
  | nil => cases h
  | cons name names ih =>
    rw [loadStateSnds]
    by_cases hname : isDots name = true
    · have hfilter : (name :: names).filter (fun name => !isDots name)
          = names.filter fun name => !isDots name := List.filter_cons_of_neg (by simpa using hname)
      rw [hfilter] at h ⊢
      rw [if_pos hname]
      exact ih done called h
    · have hfilter : (name :: names).filter (fun name => !isDots name)
          = name :: names.filter fun name => !isDots name :=
        List.filter_cons_of_pos (by simpa using hname)
      rw [hfilter, List.mapM_cons] at h
      rw [hfilter, if_neg hname, List.length_cons]
      cases hsound : parserLoadSoundFile sys (inDir path name) with
      | none => exact ⟨_, rfl⟩
      | some sound =>
        have hrest : ((names.filter fun name => !isDots name).mapM fun name =>
            parserLoadSoundFile sys (inDir path name)) = none := by
          rw [hsound, Option.pure_def] at h
          exact Option.map_eq_none_iff.mp ((Option.map_eq_bind ..).trans h)
        obtain ⟨s', hnext⟩ := ih (done ++ [sound]) (called ++ [i.val]) hrest
        rw [List.length_append, List.length_singleton] at hnext
        exact ⟨s', (bind_of_some (callMixer_addState hs ht sound called)).trans hnext⟩

/-- A state with other thresholds and another fade time. -/
def Mixer.withState (m : Mixer n k) (i : Fin k) (ts : Array Threshold) (fade : ℚ) : Mixer n k :=
  { m with
    states := Function.update m.states i
      ⟨{ (m.states i).buf with thresh := some ts }, { (m.states i).fade with fadeTime := fade }⟩ }

theorem Mixer.thresh_withState (m : Mixer n k) (i : Fin k) (ts : Array Threshold) (fade : ℚ) :
    ((m.withState i ts fade).states i).buf.thresh = some ts := by
  show (Function.update m.states i _ i).buf.thresh = _
  rw [Function.update_self]

/-- The bound of a threshold of a state. -/
theorem getHBound_eq (h : (m.states i).buf.thresh = some ts) (t : ℕ) :
    getHBound m i t = ts[t]?.map Threshold.hBound := by
  rw [getHBound, dif_pos i.isLt, h]
  rfl

/-- The calls of the mixer before the sounds of a threshold are loaded. -/
theorem callMixer_addStateThreshold (hs : s.stateCnt = i)
    (hts : (s.mixer.states i).buf.thresh = some ts) (ht : t < ts.size) (lBound hBound : ℚ)
    (cnt : ℕ) :
    callMixer s.stateCnt (fun m => m.mixerAddStateThreshold s.stateCnt t lBound hBound cnt) s
      = (some .success, s.withThresh i (putThreshold ts t
          ⟨lBound, hBound, stateSndOf [] cnt⟩) (s.called ++ [i.val])) := by
  rw [hs]
  exact callMixer_of_some (mixerAddStateThreshold_eq hts ht lBound hBound cnt)

/-- **What is loaded into a threshold.** -/
theorem parserLoadStateSndDir_of_some (hs : s.stateCnt = i)
    (hts : (s.mixer.states i).buf.thresh = some ts) (ht : t < ts.size)
    (h : directorySounds sys path = some sounds) :
    parserLoadStateSndDir sys t lBound hBound (some path) fade s = (some true, { s with
      mixer := s.mixer.withState i (putThreshold ts t (thresholdOf lBound hBound sounds)) fade
      called := s.called ++ List.replicate (sounds.length + 2) i.val }) := by
  obtain ⟨namelist, hnames, hsounds⟩ := Option.bind_eq_some_iff.mp h
  have hinside : ¬ k ≤ s.stateCnt := by
    rw [hs]
    exact i.isLt.not_ge
  have hloop := loadStateSnds_of_some lBound hBound namelist.reverse [] hs ht
    (s.called ++ [i.val]) hsounds
  rw [length_files hnames, List.nil_append] at hloop
  have hcalled : s.called ++ [i.val] ++ List.replicate sounds.length i.val ++ [i.val]
      = s.called ++ List.replicate (sounds.length + 2) i.val := by
    rw [List.append_assoc, ← List.replicate_succ', List.append_assoc]
    rfl
  have hfade : callMixer s.stateCnt (fun m => m.mixerSetFadeTime s.stateCnt fade)
      (s.withThresh i (putThreshold ts t (thresholdOf lBound hBound sounds))
        (s.called ++ [i.val] ++ List.replicate sounds.length i.val))
      = (some .success, { s with
        mixer := s.mixer.withState i (putThreshold ts t (thresholdOf lBound hBound sounds)) fade
        called := s.called ++ List.replicate (sounds.length + 2) i.val }) := by
    rw [hs, ← hcalled]
    refine (callMixer_of_some (mixerSetFadeTime_eq _ i fade)).trans ?_
    simp [Loader.withThresh, Mixer.withThresh, Mixer.withState, hs]
  rw [parserLoadStateSndDir, get_bind, if_neg hinside, ofOption_some, pure_bind_apply, hnames]
  refine (bind_of_some (callMixer_addStateThreshold hs hts ht lBound hBound _)).trans ?_
  refine (bind_of_some hloop).trans ?_
  exact bind_of_some hfade

/-- If a file cannot be loaded, this is what is returned. -/
theorem parserLoadStateSndDir_of_none (hs : s.stateCnt = i)
    (hts : (s.mixer.states i).buf.thresh = some ts) (ht : t < ts.size)
    (h : directorySounds sys path = none) :
    ∃ s', parserLoadStateSndDir sys t lBound hBound (some path) fade s = (some false, s') := by
  have hinside : ¬ k ≤ s.stateCnt := by
    rw [hs]
    exact i.isLt.not_ge
  rw [parserLoadStateSndDir, get_bind, if_neg hinside, ofOption_some, pure_bind_apply]
  cases hnames : parserScanDir sys path with
  | none => exact ⟨_, rfl⟩
  | some namelist =>
    have hsounds : ((namelist.reverse.filter fun name => !isDots name).mapM fun name =>
        parserLoadSoundFile sys (inDir path name)) = none := by
      rw [directorySounds, hnames] at h
      exact h
    obtain ⟨s', hloop⟩ := loadStateSnds_of_none lBound hBound namelist.reverse [] hs ht
      (s.called ++ [i.val]) hsounds
    rw [length_files hnames] at hloop
    refine ⟨s', ?_⟩
    refine (bind_of_some (callMixer_addStateThreshold hs hts ht lBound hBound _)).trans ?_
    exact (bind_of_some hloop).trans rfl

/-! ## State entries -/

/-- The name and the index of a state entry. -/
def stateEntry (e : SoundEntry SoundData) : Option (CString × ℕ) :=
  match e.data with
  | .event _ => none
  | .state index => some (e.name, index)

/-- The state entries of a sound table: their names and the indices of their channels. -/
def stateEntries (t : SoundTable SoundData) : List (CString × ℕ) :=
  (List.finRange HASHES).flatMap fun i => (t i).filterMap stateEntry

@[simp] theorem stateEntries_empty : stateEntries Chained.empty = [] :=
  List.flatMap_eq_nil_iff.mpr fun _ _ => rfl

/-- What is put at the end of one list is put in the list of all. -/
theorem flatMap_update_perm {ι α : Type} [DecidableEq ι] (f : ι → List α) (i : ι) (xs : List α)
    (is : List ι) (hnodup : is.Nodup) (hi : i ∈ is) :
    (is.flatMap (Function.update f i (f i ++ xs))).Perm (xs ++ is.flatMap f) := by
  induction is with
  | nil => exact absurd hi List.not_mem_nil
  | cons j is ih =>
    rw [List.flatMap_cons, List.flatMap_cons]
    obtain ⟨hj, hnodup⟩ := List.nodup_cons.mp hnodup
    rcases eq_or_ne j i with rfl | hji
    · have hrest : is.flatMap (Function.update f j (f j ++ xs)) = is.flatMap f :=
        List.flatMap_congr fun a ha => Function.update_of_ne (ne_of_mem_of_not_mem ha hj) ..
      rw [Function.update_self, hrest, List.append_assoc]
      exact List.perm_append_comm_assoc ..
    · rw [Function.update_of_ne hji]
      have hmem : i ∈ is := (List.mem_cons.mp hi).resolve_left hji.symm
      exact ((ih hnodup hmem).append_left (f j)).trans (List.perm_append_comm_assoc ..)

/-- **The state entries after an insert.** -/
theorem stateEntries_insert {t t' : SoundTable SoundData} {e : SoundEntry SoundData}
    {status : EngineStatus} (h : engineSoundTableInsert t e = some (status, t')) :
    (stateEntries t').Perm
      ((if status = .success then (stateEntry e).toList else []) ++ stateEntries t) := by
  obtain ⟨i, -, h⟩ := Option.bind_eq_some_iff.mp h
  split_ifs at h with hloop
  · obtain ⟨rfl, rfl⟩ := Prod.mk.inj (Option.some.inj h)
    rfl
  · obtain ⟨rfl, rfl⟩ := Prod.mk.inj (Option.some.inj h)
    have happend : (fun j => (Chained.append t i e j).filterMap stateEntry)
        = Function.update (fun j => (t j).filterMap stateEntry) i
          ((t i).filterMap stateEntry ++ (stateEntry e).toList) := by
      funext j
      rcases eq_or_ne j i with rfl | hji
      · rw [Chained.append, Function.update_self, Function.update_self, List.filterMap_append]
        cases he : stateEntry e <;> simp [he]
      · rw [Chained.append, Function.update_of_ne hji, Function.update_of_ne hji]
    rw [if_pos rfl, stateEntries, happend]
    exact flatMap_update_perm _ i _ _ (List.nodup_finRange _) (List.mem_finRange i)

/-- An event is not a state. -/
theorem stateEntries_insert_event {t t' : SoundTable SoundData} {name : CString}
    {event : EventEntry} {status : EngineStatus}
    (h : engineSoundTableInsert t ⟨name, EVENT_T, .event event⟩ = some (status, t')) :
    (stateEntries t').Perm (stateEntries t) := by
  have hinsert := stateEntries_insert h
  rwa [show stateEntry ⟨name, EVENT_T, .event event⟩ = none from rfl, Option.toList_none, ite_self,
    List.nil_append] at hinsert

/-! ## What loading sounds keeps -/

/-- A predicate that nothing can change which loads a sound: not a call of the mixer for a state
that there is, a state that is skipped, an event in the sound table, a lookup, or a count of
events. -/
structure Loader.Stable (P : Loader n k → Prop) : Prop where
  /-- A call of the mixer. -/
  mixer : ∀ s m, P s → s.stateCnt < k →
    P { s with mixer := m, called := s.called ++ [s.stateCnt] }
  /-- A state that is skipped. -/
  skip : ∀ s, P s → k ≤ s.stateCnt → P { s with stateCnt := s.stateCnt + 1 }
  /-- An event. -/
  event : ∀ s name event status t, P s →
    engineSoundTableInsert s.table ⟨name, EVENT_T, .event event⟩ = some (status, t) →
    P { s with table := t }
  /-- A lookup. -/
  trans : ∀ s t, P s → P { s with transTable := t }
  /-- A count of events. -/
  count : ∀ s c, P s → P { s with eventCnt := c }

/-- Where a call of the mixer leads. -/
theorem callMixer_leads {P : Loader n k → Prop} {state : ℕ}
    {f : Mixer n k → Option (MixerStatus × Mixer n k)}
    (h : ∀ m, P { s with mixer := m, called := s.called ++ [state] }) :
    P (callMixer state f s).2 := by
  rw [callMixer]
  cases f s.mixer with
  | none => exact h s.mixer
  | some result => exact h result.2

namespace Loader.Stable

variable {P : Loader n k → Prop}

/-- A call of the mixer for a state that there is. -/
theorem carries_callMixer (hP : Stable P) (f : Mixer n k → Option (MixerStatus × Mixer n k))
    (j : ℕ) : Carries (fun s => P s ∧ s.stateCnt = j ∧ j < k)
      (fun s => P s ∧ s.stateCnt = j ∧ j < k) (callMixer j f) := by
  rintro s ⟨hs, rfl, hlt⟩
  exact callMixer_leads (P := fun s' => P s' ∧ s'.stateCnt = s.stateCnt ∧ s.stateCnt < k)
    fun m => ⟨hP.mixer s m hs hlt, rfl, hlt⟩

theorem carries_loadStateSnds (hP : Stable P) (sys : System) (path : CString) (t j : ℕ)
    (names : List CString) (index : ℕ) :
    Carries (fun s => P s ∧ s.stateCnt = j ∧ j < k) (fun s => P s ∧ s.stateCnt = j ∧ j < k)
      (loadStateSnds sys path t names index) := by
  induction names generalizing index with
  | nil => exact carries_pure (fun _ h => h) _
  | cons name names ih =>
    rw [loadStateSnds]
    refine carries_ite (fun _ => ih index) fun _ => ?_
    cases parserLoadSoundFile sys (inDir path name) with
    | none => exact carries_pure (fun _ h => h) _
    | some sound =>
      refine carries_get_bind fun s hs => ?_
      obtain ⟨hPs, rfl, hlt⟩ := hs
      exact Carries.bind (hP.carries_callMixer _ _) (fun _ => ih (index + 1)) (fun _ h => h) s
        ⟨hPs, rfl, hlt⟩

/-- **The sounds of a threshold.** -/
theorem carries_parserLoadStateSndDir (hP : Stable P) (sys : System) (t : ℕ) (lBound hBound : ℚ)
    (path : Option CString) (fade : ℚ) :
    Carries P P (parserLoadStateSndDir sys t lBound hBound path fade) := by
  refine carries_get_bind fun s hs => ?_
  by_cases hskip : k ≤ s.stateCnt
  · rw [if_pos hskip]
    exact hP.skip s hs hskip
  · rw [if_neg hskip]
    have hlt : s.stateCnt < k := not_le.mp hskip
    refine (Carries.bind (R := fun s' => P s' ∧ s'.stateCnt = s.stateCnt ∧ s.stateCnt < k)
      (carries_ofOption (fun _ h => h) path) (fun sndPath => ?_) fun _ h => h.1) s ⟨hs, rfl, hlt⟩
    cases parserScanDir sys sndPath with
    | none => exact carries_pure (fun _ h => h.1) _
    | some namelist =>
      refine Carries.bind (hP.carries_callMixer _ _) (fun _ => ?_) fun _ h => h.1
      refine Carries.bind (hP.carries_loadStateSnds sys sndPath t _ _ 0) (fun loaded => ?_)
        fun _ h => h.1
      refine carries_ite (fun _ => ?_) fun _ => carries_pure (fun _ h => h.1) _
      exact Carries.bind (hP.carries_callMixer _ _) (fun _ => carries_pure (fun _ h => h.1) _)
        fun _ h => h.1

/-- **The sounds of an event.** -/
theorem carries_parserLoadEventSndDir (hP : Stable P) (sys : System) (name path : CString) :
    Carries P P (parserLoadEventSndDir sys name path) := by
  rw [parserLoadEventSndDir]
  cases parserScanDir sys path with
  | none => exact carries_pure (fun _ h => h) _
  | some namelist =>
    refine Carries.bind (carries_ofOption (fun _ h => h) _) (fun entry => ?_) fun _ h => h
    cases entry with
    | none => exact carries_pure (fun _ h => h) _
    | some entry =>
      refine Carries.bind (carries_change fun s h => hP.count s _ h) (fun _ => ?_) fun _ h => h
      refine Carries.bind (fun s hs => ?_) (fun _ => carries_pure (fun _ h => h) _) fun _ h => h
      rw [engineSoundTableInsertEvent]
      cases h : engineSoundTableInsert s.table ⟨name, EVENT_T, .event entry⟩ with
      | none =>
        rw [callInsert_of_none h]
        exact hs
      | some result =>
        rw [callInsert_of_some h]
        exact hP.event s name entry result.1 result.2 hs h

end Loader.Stable

end Peep
