import Peep.Server.XmlNotice

/-!
# The command line of the server

`parseCmdlineOpts` goes through the arguments and fills in `args_info`. An option is either a
letter behind one dash, with its value in the same argument or in the next one, or a name behind two
dashes, with its value behind an equals sign.

The port and the number of voices go through `GET_INT_ARG` if they are given by a letter. In this
macro the `else` that was meant for the value in the next argument belongs to the inner `if`. So a
value in the same argument is read, and then the next argument is read as well; and if there is
nothing behind the letter, then nothing is read, and the value is met as an argument of its own,
which is none.

## Choices

The arguments are those behind the name of the program. Where the source lets `sscanf` read from a
null pointer the program crashes. `sscanf` is glibc's: a number is read as by `strtol` and cut off
to an `int`. The texts of the help and of the version are not spelled out.

## Main results

* `not_returns_detached` — the form with the value in the next argument never goes well
* `not_returns_same` — no two forms of an option leave the same `args_info`
-/

namespace Peep

open Decimal

/-! ## Numbers -/

/-- What `sscanf` with `%d` does. -/
inductive Scanned
  /-- `EOF`: there is nothing but blanks. -/
  | eof
  /-- `0`: there is no number. -/
  | failed
  /-- `1`: a number has been read. -/
  | int (n : Int32)
deriving DecidableEq

/-- `sscanf (s, "%d", …)`. -/
def sscanf (s : CString) : Scanned :=
  if s.dropWhile isspace = [] then .eof
  else if (unsigned (s.dropWhile isspace)).head?.any isDigit then .int (atoi s)
  else .failed

/-! ## What is filled in -/

/-- `struct args_info`. A null pointer is `none`. -/
structure ArgsInfo where
  /-- Server port to use. -/
  port_arg : Int32
  /-- Number of mixing voices. -/
  voices_arg : Int32
  /-- Solaris sound port: 1 = speaker, 2 = jack. -/
  snd_port_arg : Int32
  /-- Path to configuration file. -/
  config_arg : Option CString
  /-- File to store logging info. -/
  logfile_arg : Option CString
  /-- File to store server pid. -/
  pidfile_arg : Option CString
  /-- Recording file to use. -/
  record_file_arg : Option CString
  /-- Starting date/time (playback only). -/
  start_time_arg : Option CString
  /-- Ending date/time (playback only). -/
  end_time_arg : Option CString
  /-- The sound device to open. -/
  snd_device_arg : Option CString
  /-- Whether help was given. -/
  help_given : Bool
  /-- Whether version was given. -/
  version_given : Bool
  /-- Whether port was given. -/
  port_given : Bool
  /-- Whether config was given. -/
  config_given : Bool
  /-- Whether voices was given. -/
  voices_given : Bool
  /-- Whether logfile was given. -/
  logfile_given : Bool
  /-- Whether pidfile was given. -/
  pidfile_given : Bool
  /-- Whether record-file was given. -/
  record_file_given : Bool
  /-- Whether start-time was given. -/
  start_time_given : Bool
  /-- Whether end-time was given. -/
  end_time_given : Bool
  /-- Whether snd-device was given. -/
  snd_device_given : Bool
  /-- Whether snd-port was given. -/
  snd_port_given : Bool
  /-- Whether playback-mode was given. -/
  playback_mode_given : Bool
  /-- Whether record-mode was given. -/
  record_mode_given : Bool
  /-- Whether nodaemon was given. -/
  nodaemon_given : Bool
deriving DecidableEq

/-- After `memset`. -/
def ArgsInfo.cleared : ArgsInfo where
  port_arg := 0
  voices_arg := 0
  snd_port_arg := 0
  config_arg := none
  logfile_arg := none
  pidfile_arg := none
  record_file_arg := none
  start_time_arg := none
  end_time_arg := none
  snd_device_arg := none
  help_given := false
  version_given := false
  port_given := false
  config_given := false
  voices_given := false
  logfile_given := false
  pidfile_given := false
  record_file_given := false
  start_time_given := false
  end_time_given := false
  snd_device_given := false
  snd_port_given := false
  playback_mode_given := false
  record_mode_given := false
  nodaemon_given := false

/-- What is printed. -/
inductive Printed
  /-- By `printHelp`. -/
  | help
  /-- By `printVersion`. -/
  | version
  /-- By `optError`, which prints a message and the help. -/
  | error (string : String)
deriving DecidableEq

/-- How the parser stops early. -/
inductive Stop
  /-- `exit` with this status. -/
  | exit (status : ℕ) (printed : Printed)
  /-- `sscanf` reads from a null pointer. -/
  | crash
deriving DecidableEq

/-- `optError`. -/
def optError (string : String) : Stop := .exit 1 (.error string)

/-! ## Options with a name -/

/-- `GET_INT_FROM_STRING_ARG`, with the value that was there before. -/
def GET_INT_FROM_STRING_ARG (x : CString) (y : Int32) (z : String) : Except Stop Int32 :=
  match sscanf x with
  | .failed => .error (optError z)
  | .eof => .ok y
  | .int n => .ok n

/-- An option whose value is a number. -/
def longInt (given : Bool) (more must : String) (args_ptr : CString) (old : Int32) :
    Except Stop Int32 :=
  if given then .error (optError more)
  else if args_ptr = [] then .error (optError must)
  else GET_INT_FROM_STRING_ARG args_ptr old must

/-- An option whose value is a string. -/
def longString (given : Bool) (more must : String) (args_ptr : CString) : Except Stop CString :=
  if given then .error (optError more)
  else if args_ptr = [] then .error (optError must)
  else .ok args_ptr

/-- An option without a value. -/
def longFlag (given : Bool) (more : String) : Except Stop Unit :=
  if given then .error (optError more) else .ok ()

/-- An option with a name. One that is not known is passed over. -/
def parseLong (info : ArgsInfo) (string_ptr args_ptr : CString) : Except Stop ArgsInfo :=
  if string_ptr = ascii "help" then .error (.exit 0 .help)
  else if string_ptr = ascii "version" then .error (.exit 0 .version)
  else if string_ptr = ascii "port" then do
    let n ← longInt info.port_given "`--port' (`-p') option given more than once"
      "Must specify argument: --port=INT" args_ptr info.port_arg
    return { info with port_given := true, port_arg := n }
  else if string_ptr = ascii "config" then do
    let s ← longString info.config_given "`--config' (`-c') option given more than once"
      "Must specify argument: --config=STRING" args_ptr
    return { info with config_given := true, config_arg := some s }
  else if string_ptr = ascii "voices" then do
    let n ← longInt info.voices_given "`--voices' (`-v') option given more than once"
      "Must specify argument: --voices=INT" args_ptr info.voices_arg
    return { info with voices_given := true, voices_arg := n }
  else if string_ptr = ascii "logfile" then do
    let s ← longString info.logfile_given "`--logfile' (`-l') option given more than once"
      "Must specify argument: --logfile=STRING" args_ptr
    return { info with logfile_given := true, logfile_arg := some s }
  else if string_ptr = ascii "pidfile" then do
    let s ← longString info.pidfile_given "`--pidfile' option given more than once"
      "Must specify argument: --pidfile=STRING" args_ptr
    return { info with pidfile_given := true, pidfile_arg := some s }
  else if string_ptr = ascii "record-file" then do
    let s ← longString info.record_file_given "`--record-file' option given more than once"
      "Must specify argument: --record-file=STRING" args_ptr
    return { info with record_file_given := true, record_file_arg := some s }
  else if string_ptr = ascii "start-time" then do
    let s ← longString info.start_time_given "`--start-time' option given more than once"
      "Must specify argument: --start_time=STRING" args_ptr
    return { info with start_time_given := true, start_time_arg := some s }
  else if string_ptr = ascii "end-time" then do
    let s ← longString info.end_time_given "`--end-time' option given more than once"
      "Must specify argument: --end-time=STRING" args_ptr
    return { info with end_time_given := true, end_time_arg := some s }
  else if string_ptr = ascii "snd-device" then do
    let s ← longString info.snd_device_given "`--snd-device' option given more than once"
      "Must specify argument: --snd-device=STRING" args_ptr
    return { info with snd_device_given := true, snd_device_arg := some s }
  else if string_ptr = ascii "snd-port" then do
    let n ← longInt info.snd_port_given "`--snd-port' option given more than once"
      "Must specify argument: --snd-port=INT" args_ptr info.snd_port_arg
    return { info with snd_port_given := true, snd_port_arg := n }
  else if string_ptr = ascii "playback-mode" then do
    longFlag info.playback_mode_given "`--playback-mode' option given more than once"
    return { info with playback_mode_given := true }
  else if string_ptr = ascii "record-mode" then do
    longFlag info.record_mode_given "`--record-mode' option given more than once"
    return { info with record_mode_given := true }
  else if string_ptr = ascii "nodaemon" then do
    longFlag info.nodaemon_given "`--nodaemon' option given more than once"
    return { info with nodaemon_given := true }
  else .ok info

/-! ## Options with a letter -/

/-- `GET_STRING_ARG`: the value, and whether it is the next argument. Behind the last argument there
is a null pointer. -/
def GET_STRING_ARG (text : CString) (next : Option CString) : Option CString × Bool :=
  if text ≠ [] then (some text, false) else (next, true)

/-- `GET_INT_ARG`, with the value that was there before: the value, and whether the next argument
has been read. The `else` belongs to the inner `if`. -/
def GET_INT_ARG (text : CString) (next : Option CString) (x : Int32) (y : String) :
    Except Stop (Int32 × Bool) :=
  if text ≠ [] then do
    let x ← GET_INT_FROM_STRING_ARG text x y
    match next with
    | none => .error .crash
    | some next =>
      let x ← GET_INT_FROM_STRING_ARG next x y
      return (x, true)
  else .ok (x, false)

/-- An option with a letter, and the text behind it: what it fills in, and whether the next argument
belongs to it. -/
def parseShort (info : ArgsInfo) (letter : UInt8) (text : CString) (next : Option CString) :
    Except Stop (ArgsInfo × Bool) :=
  if letter = 104 then .error (.exit 0 .help)
  else if letter = 86 then .error (.exit 0 .version)
  else if letter = 112 then
    if info.port_given then .error (optError "`--port' (`-p') option given more than once")
    else do
      let (n, eaten) ← GET_INT_ARG text next info.port_arg "Must specify argument -pINT"
      return ({ info with port_given := true, port_arg := n }, eaten)
  else if letter = 99 then
    if info.config_given then .error (optError "`--config' ('c') option given more than once")
    else
      let (s, eaten) := GET_STRING_ARG text next
      .ok ({ info with config_given := true, config_arg := s }, eaten)
  else if letter = 118 then
    if info.voices_given then .error (optError "`--voices' ('v') option given more than once")
    else do
      let (n, eaten) ← GET_INT_ARG text next info.voices_arg "Must specify argument -vINT"
      return ({ info with voices_given := true, voices_arg := n }, eaten)
  else if letter = 108 then
    if info.logfile_given then .error (optError "`--logfile' ('l') option given more than once")
    else
      let (s, eaten) := GET_STRING_ARG text next
      .ok ({ info with logfile_given := true, logfile_arg := s }, eaten)
  else if letter = 110 then
    if info.nodaemon_given then .error (optError "`--nodaemon' ('n') option given more than once")
    else .ok ({ info with nodaemon_given := true }, false)
  else .error (optError "Invalid argument given.")

/-! ## All arguments -/

/-- One argument, with the next one at hand. -/
def parseArg (info : ArgsInfo) (arg : CString) (next : Option CString) :
    Except Stop (ArgsInfo × Bool) :=
  if arg.head? ≠ some 45 then .error (.exit 1 .help)
  else if arg.tail.head? = some 45 then do
    let text := arg.drop 2
    let info ← parseLong info (text.takeWhile fun c => c ≠ 61) (text.dropWhile fun c => c ≠ 61).tail
    return (info, false)
  else parseShort info (arg.tail.head?.getD 0) (arg.drop 2) next

/-- The loop of `parseCmdlineOpts`. -/
def parseLoop : ArgsInfo → List CString → Except Stop ArgsInfo
  | info, [] => .ok info
  | info, arg :: argv =>
    match parseArg info arg argv.head? with
    | .error stop => .error stop
    | .ok (info, false) => parseLoop info argv
    | .ok (info, true) =>
      match argv with
      | [] => .ok info
      | _ :: argv => parseLoop info argv

/-- `parseCmdlineOpts`: it leaves an `args_info`, or the program ends. -/
def parseCmdlineOpts (argv : List CString) : Except Stop ArgsInfo := parseLoop .cleared argv

/-! ## The forms of an option -/

/-- An option whose value is a number, and that has a letter. -/
inductive IntOption
  /-- The port. -/
  | port
  /-- The number of voices. -/
  | voices

/-- The letter. -/
def IntOption.letter : IntOption → UInt8
  | .port => 112
  | .voices => 118

/-- The name. -/
def IntOption.name : IntOption → CString
  | .port => ascii "port"
  | .voices => ascii "voices"

/-- The forms. -/
inductive OptionForm
  /-- The value stands behind the letter. -/
  | attached
  /-- The value is the next argument. -/
  | detached
  /-- The value stands behind the name. -/
  | long
deriving DecidableEq

/-- The arguments that an option takes. -/
def OptionForm.write (option : IntOption) (value : CString) : OptionForm → List CString
  | .attached => [45 :: option.letter :: value]
  | .detached => [[45, option.letter], value]
  | .long => [45 :: 45 :: (option.name ++ 61 :: value)]

variable {info info' : ArgsInfo} {arg a value string_ptr args_ptr text : CString}
  {next : Option CString} {argv rest before after : List CString} {option : IntOption}
  {eaten given : Bool} {more must : String} {letter c : UInt8} {x n : Int32}

/-! ## Values of options -/

theorem longString_eq_ok {v : CString} (h : longString given more must args_ptr = .ok v) :
    given = false := by
  rw [longString] at h
  split_ifs at h with hgiven
  exact Bool.eq_false_iff.mpr hgiven

/-- A value that is there stays: the option cannot be given again. -/
structure KeepsGiven (info info' : ArgsInfo) : Prop where
  /-- The configuration file. -/
  config : info.config_given → info'.config_given ∧ info'.config_arg = info.config_arg
  /-- The file to log to. -/
  logfile : info.logfile_given → info'.logfile_given ∧ info'.logfile_arg = info.logfile_arg

theorem KeepsGiven.trans {info'' : ArgsInfo} (h : KeepsGiven info info')
    (h' : KeepsGiven info' info'') : KeepsGiven info info'' where
  config hgiven :=
    have ⟨hgiven', heq⟩ := h.config hgiven
    ⟨(h'.config hgiven').1, (h'.config hgiven').2.trans heq⟩
  logfile hgiven :=
    have ⟨hgiven', heq⟩ := h.logfile hgiven
    ⟨(h'.logfile hgiven').1, (h'.logfile hgiven').2.trans heq⟩

theorem exists_of_bind_eq_ok {α β : Type} {result : Except Stop α} {f : α → Except Stop β} {b : β}
    (h : (result >>= f) = .ok b) : ∃ v, result = .ok v ∧ f v = .ok b := by
  rcases result with stop | v
  · cases h
  · exact ⟨v, rfl, h⟩

theorem keeps_of_bind {α : Type} {result : Except Stop α} {fill : α → ArgsInfo}
    (h : (do let v ← result; return fill v) = .ok info')
    (hfill : ∀ v, result = .ok v → KeepsGiven info (fill v)) : KeepsGiven info info' := by
  obtain ⟨v, hv, h⟩ := exists_of_bind_eq_ok h
  obtain rfl := Except.ok.inj h
  exact hfill v hv

/-- A chain of options is taken apart from the front. -/
theorem ite_ok_cases {α : Type} {b : Prop} [Decidable b] {yes no : Except Stop α} {result : α}
    {motive : Prop} (h : (if b then yes else no) = .ok result) (hyes : yes = .ok result → motive)
    (hno : no = .ok result → motive) : motive := by
  by_cases hb : b
  · rw [if_pos hb] at h
    exact hyes h
  · rw [if_neg hb] at h
    exact hno h

theorem keeps_of_same (hconfig : info'.config_given = info.config_given)
    (hconfig' : info'.config_arg = info.config_arg)
    (hlogfile : info'.logfile_given = info.logfile_given)
    (hlogfile' : info'.logfile_arg = info.logfile_arg) : KeepsGiven info info' where
  config hgiven := ⟨hconfig.trans hgiven, hconfig'⟩
  logfile hgiven := ⟨hlogfile.trans hgiven, hlogfile'⟩

theorem keeps_config (h : info.config_given = false) (v : Option CString) :
    KeepsGiven info { info with config_given := true, config_arg := v } where
  config hgiven := absurd hgiven (Bool.eq_false_iff.mp h)
  logfile hgiven := ⟨hgiven, rfl⟩

theorem keeps_logfile (h : info.logfile_given = false) (v : Option CString) :
    KeepsGiven info { info with logfile_given := true, logfile_arg := v } where
  config hgiven := ⟨hgiven, rfl⟩
  logfile hgiven := absurd hgiven (Bool.eq_false_iff.mp h)

theorem keeps_parseLong (h : parseLong info string_ptr args_ptr = .ok info') :
    KeepsGiven info info' := by
  have hsame {α : Type} {result : Except Stop α} {fill : α → ArgsInfo}
      (h : (do let v ← result; return fill v) = .ok info')
      (hfill : ∀ v, (fill v).config_given = info.config_given ∧
        (fill v).config_arg = info.config_arg ∧ (fill v).logfile_given = info.logfile_given ∧
        (fill v).logfile_arg = info.logfile_arg) : KeepsGiven info info' :=
    keeps_of_bind h fun v _ =>
      have ⟨h₁, h₂, h₃, h₄⟩ := hfill v
      keeps_of_same h₁ h₂ h₃ h₄
  rw [parseLong] at h
  refine ite_ok_cases h (fun h => nomatch h) fun h => ?_
  refine ite_ok_cases h (fun h => nomatch h) fun h => ?_
  refine ite_ok_cases h (fun h => hsame h fun _ => ⟨rfl, rfl, rfl, rfl⟩) fun h => ?_
  refine ite_ok_cases h (fun h => keeps_of_bind h fun v hv => keeps_config (longString_eq_ok hv) v)
    fun h => ?_
  refine ite_ok_cases h (fun h => hsame h fun _ => ⟨rfl, rfl, rfl, rfl⟩) fun h => ?_
  refine ite_ok_cases h (fun h => keeps_of_bind h fun v hv => keeps_logfile (longString_eq_ok hv) v)
    fun h => ?_
  iterate 9 refine ite_ok_cases h (fun h => hsame h fun _ => ⟨rfl, rfl, rfl, rfl⟩) fun h => ?_
  obtain rfl := Except.ok.inj h
  exact keeps_of_same rfl rfl rfl rfl

theorem keeps_parseShort (h : parseShort info letter text next = .ok (info', eaten)) :
    KeepsGiven info info' := by
  rw [parseShort] at h
  refine ite_ok_cases h (fun h => nomatch h) fun h => ?_
  refine ite_ok_cases h (fun h => nomatch h) fun h => ?_
  refine ite_ok_cases h (fun h => ite_ok_cases h (fun h => nomatch h) fun h => ?_) fun h => ?_
  · obtain ⟨⟨n, eaten'⟩, -, h⟩ := exists_of_bind_eq_ok h
    obtain ⟨rfl, rfl⟩ := Prod.mk.inj (Except.ok.inj h)
    exact keeps_of_same rfl rfl rfl rfl
  by_cases hletter : letter = 99
  · rw [if_pos hletter] at h
    split_ifs at h with hgiven
    obtain ⟨rfl, rfl⟩ := Prod.mk.inj (Except.ok.inj h)
    exact keeps_config (Bool.eq_false_iff.mpr hgiven) _
  rw [if_neg hletter] at h
  refine ite_ok_cases h (fun h => ite_ok_cases h (fun h => nomatch h) fun h => ?_) fun h => ?_
  · obtain ⟨⟨n, eaten'⟩, -, h⟩ := exists_of_bind_eq_ok h
    obtain ⟨rfl, rfl⟩ := Prod.mk.inj (Except.ok.inj h)
    exact keeps_of_same rfl rfl rfl rfl
  by_cases hletter : letter = 108
  · rw [if_pos hletter] at h
    split_ifs at h with hgiven
    obtain ⟨rfl, rfl⟩ := Prod.mk.inj (Except.ok.inj h)
    exact keeps_logfile (Bool.eq_false_iff.mpr hgiven) _
  rw [if_neg hletter] at h
  refine ite_ok_cases h (fun h => ite_ok_cases h (fun h => nomatch h) fun h => ?_)
    fun h => nomatch h
  obtain ⟨rfl, rfl⟩ := Prod.mk.inj (Except.ok.inj h)
  exact keeps_of_same rfl rfl rfl rfl

theorem keeps_parseArg (h : parseArg info arg next = .ok (info', eaten)) :
    KeepsGiven info info' := by
  rw [parseArg] at h
  refine ite_ok_cases h (fun h => nomatch h) fun h => ?_
  refine ite_ok_cases h (fun h => ?_) keeps_parseShort
  obtain ⟨info'', hlong, h⟩ := exists_of_bind_eq_ok h
  obtain ⟨rfl, rfl⟩ := Prod.mk.inj (Except.ok.inj h)
  exact keeps_parseLong hlong

/-! ## The loop -/

theorem parseLoop_of_error {stop : Stop} (h : parseArg info arg argv.head? = .error stop) :
    parseLoop info (arg :: argv) = .error stop := by
  rw [parseLoop, h]

theorem parseLoop_of_fills (h : parseArg info arg argv.head? = .ok (info', false)) :
    parseLoop info (arg :: argv) = parseLoop info' argv := by
  rw [parseLoop, h]

theorem parseLoop_of_takes (h : parseArg info arg (some a) = .ok (info', true)) :
    parseLoop info (arg :: a :: argv) = parseLoop info' argv := by
  rw [parseLoop, List.head?_cons, h]

theorem keeps_parseLoop (h : parseLoop info argv = .ok info') : KeepsGiven info info' := by
  induction info, argv using parseLoop.induct with
  | case1 info =>
    obtain rfl := Except.ok.inj h
    exact keeps_of_same rfl rfl rfl rfl
  | case2 info arg argv stop hstop =>
    rw [parseLoop_of_error hstop] at h
    cases h
  | case3 info arg argv info'' hfills ih =>
    rw [parseLoop_of_fills hfills] at h
    exact (keeps_parseArg hfills).trans (ih h)
  | case4 info arg info'' htakes =>
    rw [parseLoop, htakes] at h
    obtain rfl := Except.ok.inj h
    exact keeps_parseArg htakes
  | case5 info arg info'' a argv htakes ih =>
    rw [parseLoop_of_takes htakes] at h
    exact (keeps_parseArg htakes).trans (ih h)

/-! ## Between two arguments -/

/-- A string is filled in, as one of the two that can be the next argument. -/
def FillsString (fill : Option CString → ArgsInfo) : Prop :=
  (∀ v, (fill v).config_given ∧ (fill v).config_arg = v) ∨
    ∀ v, (fill v).logfile_given ∧ (fill v).logfile_arg = v

/-- What is done with an argument, whatever the next one is. -/
inductive ArgDoes (parse : Option CString → Except Stop (ArgsInfo × Bool)) : Prop
  /-- The program ends. -/
  | stops (stop : Stop) (h : ∀ next, parse next = .error stop)
  /-- The argument is complete. -/
  | fills (info' : ArgsInfo) (h : ∀ next, parse next = .ok (info', false))
  /-- The next argument is a string that belongs to it. -/
  | takesString (fill : Option CString → ArgsInfo) (hfill : FillsString fill)
      (h : ∀ next, parse next = .ok (fill next, true))
  /-- The next argument is read as a number. -/
  | takesInt (h : ∀ a, sscanf a = .failed → ∃ stop, parse (some a) = .error stop)

/-- What the arguments so far make of those that come. -/
inductive Between (info : ArgsInfo) (before : List CString) : Prop
  /-- The program has ended. -/
  | stopped (stop : Stop) (h : ∀ rest, parseLoop info (before ++ rest) = .error stop)
  /-- The next argument is an option. -/
  | ready (info' : ArgsInfo) (h : ∀ rest, parseLoop info (before ++ rest) = parseLoop info' rest)
  /-- The next argument is a string of the last one. -/
  | awaitsString (fill : Option CString → ArgsInfo) (hfill : FillsString fill)
      (h : ∀ a rest, parseLoop info (before ++ a :: rest) = parseLoop (fill (some a)) rest)
  /-- The next argument is read as a number. -/
  | awaitsInt (h : ∀ a rest, sscanf a = .failed →
      ∃ stop, parseLoop info (before ++ a :: rest) = .error stop)

theorem GET_INT_FROM_STRING_ARG_of_failed (h : sscanf a = .failed) (z : String) :
    GET_INT_FROM_STRING_ARG a x z = .error (optError z) := by
  rw [GET_INT_FROM_STRING_ARG, h]

theorem GET_INT_ARG_cases (text : CString) (x : Int32) (y : String) :
    (∀ next, GET_INT_ARG text next x y = .ok (x, false)) ∨
      ∀ a, sscanf a = .failed → ∃ stop, GET_INT_ARG text (some a) x y = .error stop := by
  by_cases htext : text = []
  · exact .inl fun _ => if_neg (not_not.mpr htext)
  refine .inr fun a ha => ?_
  rw [GET_INT_ARG, if_pos htext]
  rcases GET_INT_FROM_STRING_ARG text x y with stop | n
  · exact ⟨stop, rfl⟩
  · refine ⟨optError y, ?_⟩
    show (GET_INT_FROM_STRING_ARG a n y >>= fun x => pure (x, true)) = _
    rw [GET_INT_FROM_STRING_ARG_of_failed ha]
    rfl

theorem ArgDoes.ite {b : Prop} [Decidable b]
    {yes no : Option CString → Except Stop (ArgsInfo × Bool)} (hyes : ArgDoes yes)
    (hno : ArgDoes no) : ArgDoes fun next => if b then yes next else no next := by
  by_cases hb : b
  · simpa only [if_pos hb] using hyes
  · simpa only [if_neg hb] using hno

theorem argDoes_GET_INT_ARG (fill : Int32 → ArgsInfo) (text : CString) (x : Int32) (y : String) :
    ArgDoes fun next => do
      let r ← GET_INT_ARG text next x y
      return (fill r.1, r.2) := by
  rcases GET_INT_ARG_cases text x y with h | h
  · exact .fills (fill x) fun next => by rw [h]; rfl
  · refine .takesInt fun a ha => ?_
    obtain ⟨stop, hstop⟩ := h a ha
    exact ⟨stop, by rw [hstop]; rfl⟩

theorem argDoes_GET_STRING_ARG (fill : Option CString → ArgsInfo) (hfill : FillsString fill)
    (text : CString) : ArgDoes fun next =>
      let (s, eaten) := GET_STRING_ARG text next
      .ok (fill s, eaten) := by
  by_cases htext : text = []
  · exact .takesString fill hfill fun next => by rw [GET_STRING_ARG, if_neg (not_not.mpr htext)]
  · exact .fills (fill (some text)) fun next => by rw [GET_STRING_ARG, if_pos htext]

theorem argDoes_parseShort (info : ArgsInfo) (letter : UInt8) (text : CString) :
    ArgDoes (parseShort info letter text) := by
  show ArgDoes fun next => parseShort info letter text next
  simp only [parseShort]
  refine .ite (.stops _ fun _ => rfl) (.ite (.stops _ fun _ => rfl) ?_)
  refine .ite (.ite (.stops _ fun _ => rfl) ?_) ?_
  · exact argDoes_GET_INT_ARG (fun n => { info with port_given := true, port_arg := n }) _ _ _
  refine .ite (.ite (.stops _ fun _ => rfl) ?_) ?_
  · exact argDoes_GET_STRING_ARG (fun s => { info with config_given := true, config_arg := s })
      (.inl fun _ => ⟨rfl, rfl⟩) text
  refine .ite (.ite (.stops _ fun _ => rfl) ?_) ?_
  · exact argDoes_GET_INT_ARG (fun n => { info with voices_given := true, voices_arg := n }) _ _ _
  refine .ite (.ite (.stops _ fun _ => rfl) ?_) ?_
  · exact argDoes_GET_STRING_ARG (fun s => { info with logfile_given := true, logfile_arg := s })
      (.inr fun _ => ⟨rfl, rfl⟩) text
  exact .ite (.ite (.stops _ fun _ => rfl) (.fills _ fun _ => rfl)) (.stops _ fun _ => rfl)

theorem argDoes_parseArg (info : ArgsInfo) (arg : CString) : ArgDoes (parseArg info arg) := by
  show ArgDoes fun next => parseArg info arg next
  simp only [parseArg]
  refine .ite (.stops _ fun _ => rfl) (.ite ?_ (argDoes_parseShort _ _ _))
  rcases h : parseLong info ((arg.drop 2).takeWhile fun c => c ≠ 61)
    ((arg.drop 2).dropWhile fun c => c ≠ 61).tail with stop | info'
  · exact .stops stop fun _ => by rw [h]; rfl
  · exact .fills info' fun _ => by rw [h]; rfl

theorem Between.of_eq {before' : List CString}
    (h : ∀ rest, parseLoop info (before ++ rest) = parseLoop info' (before' ++ rest))
    (hbetween : Between info' before') : Between info before := by
  cases hbetween with
  | stopped stop h' => exact .stopped stop fun rest => (h rest).trans (h' rest)
  | ready info'' h' => exact .ready info'' fun rest => (h rest).trans (h' rest)
  | awaitsString fill hfill h' =>
    exact .awaitsString fill hfill fun a rest => (h _).trans (h' a rest)
  | awaitsInt h' => exact .awaitsInt fun a rest ha => (h' a rest ha).imp fun _ => (h _).trans

theorem between_singleton (info : ArgsInfo) (arg : CString) : Between info [arg] := by
  cases argDoes_parseArg info arg with
  | stops stop h => exact .stopped stop fun rest => parseLoop_of_error (h _)
  | fills info' h => exact .ready info' fun rest => parseLoop_of_fills (h _)
  | takesString fill hfill h =>
    exact .awaitsString fill hfill fun a rest => parseLoop_of_takes (h _)
  | takesInt h => exact .awaitsInt fun a rest ha => (h a ha).imp fun _ hstop =>
      parseLoop_of_error hstop

/-- **Any arguments** leave the parser in one of the four states. -/
theorem between : ∀ (before : List CString) (info : ArgsInfo), Between info before
  | [], info => .ready info fun _ => rfl
  | [arg], info => between_singleton info arg
  | arg :: a :: before, info => by
    rcases h : parseArg info arg (some a) with stop | ⟨info', - | -⟩
    · exact .stopped stop fun rest => parseLoop_of_error h
    · exact (between (a :: before) info').of_eq fun rest => parseLoop_of_fills h
    · exact (between before info').of_eq fun rest => parseLoop_of_takes h

/-! ## The forms, one by one -/

theorem sscanf_dash (text : CString) : sscanf (45 :: text) =
    if text.head?.any isDigit then .int (atoi (45 :: text)) else .failed := by
  have hblank : (45 :: text).dropWhile isspace = 45 :: text := rfl
  have hunsigned : unsigned (45 :: text) = text := if_pos (.inl rfl)
  rw [sscanf, hblank, if_neg (List.cons_ne_nil _ _), hunsigned]

/-- What can be read as a number, or is blank, is no option. -/
theorem parseArg_of_scanned (h : sscanf a ≠ .failed) (info : ArgsInfo) (next : Option CString) :
    ∃ stop, parseArg info a next = .error stop := by
  by_cases hdash : a.head? = some 45
  · obtain ⟨text, rfl⟩ : ∃ text, a = 45 :: text := by
      rcases a with - | ⟨c, text⟩
      · cases hdash
      · exact ⟨text, congrArg (· :: text) (Option.some.inj hdash)⟩
    rw [sscanf_dash] at h
    rcases text with - | ⟨c, text⟩
    · exact absurd rfl h
    have hdigit : isDigit c = true := by
      by_contra hc
      exact h (if_neg hc)
    -- no letter of an option is a digit
    have hne {d : UInt8} (hd : isDigit d = false) : c ≠ d := by
      rintro rfl
      rw [hdigit] at hd
      cases hd
    have hletter : (45 :: c :: text).tail.head? ≠ some 45 := fun heq =>
      hne (by decide) (Option.some.inj heq)
    refine ⟨optError "Invalid argument given.", ?_⟩
    rw [parseArg, if_neg (not_not.mpr hdash), if_neg hletter]
    show parseShort info c text next = _
    rw [parseShort, if_neg (hne (by decide)), if_neg (hne (by decide)), if_neg (hne (by decide)),
      if_neg (hne (by decide)), if_neg (hne (by decide)), if_neg (hne (by decide)),
      if_neg (hne (by decide))]
  · exact ⟨_, if_pos hdash⟩

theorem parseLoop_of_scanned (h : sscanf a ≠ .failed) : parseLoop info (a :: argv) ≠ .ok info' := by
  obtain ⟨stop, hstop⟩ := parseArg_of_scanned h info argv.head?
  rw [parseLoop_of_error hstop]
  exact fun h => nomatch h

theorem GET_INT_ARG_eq_ok {r : Int32 × Bool} {y : String} (htext : text ≠ [])
    (h : GET_INT_ARG text next x y = .ok r) :
    r.2 = true ∧ ∃ a, next = some a ∧ sscanf a ≠ .failed := by
  rw [GET_INT_ARG, if_pos htext] at h
  obtain ⟨n, -, h⟩ := exists_of_bind_eq_ok h
  rcases next with - | a
  · cases h
  obtain ⟨m, hm, h⟩ := exists_of_bind_eq_ok h
  obtain rfl := Except.ok.inj h
  refine ⟨rfl, a, rfl, fun hfailed => ?_⟩
  rw [GET_INT_FROM_STRING_ARG_of_failed hfailed] at hm
  cases hm

/-- An option by its letter goes through `GET_INT_ARG`. -/
theorem parseArg_letter
    (h : parseArg info (45 :: option.letter :: text) next = .ok (info', eaten)) :
    ∃ x y n, GET_INT_ARG text next x y = .ok (n, eaten) := by
  cases option with
  | port =>
    replace h : parseShort info 112 text next = .ok (info', eaten) := h
    rw [parseShort, if_neg (by decide), if_neg (by decide), if_pos rfl] at h
    refine ite_ok_cases h (fun h => nomatch h) fun h => ?_
    obtain ⟨⟨n, eaten'⟩, hn, h⟩ := exists_of_bind_eq_ok h
    obtain ⟨-, rfl⟩ := Prod.mk.inj (Except.ok.inj h)
    exact ⟨_, _, n, hn⟩
  | voices =>
    replace h : parseShort info 118 text next = .ok (info', eaten) := h
    rw [parseShort, if_neg (by decide), if_neg (by decide), if_neg (by decide),
      if_neg (by decide), if_pos rfl] at h
    refine ite_ok_cases h (fun h => nomatch h) fun h => ?_
    obtain ⟨⟨n, eaten'⟩, hn, h⟩ := exists_of_bind_eq_ok h
    obtain ⟨-, rfl⟩ := Prod.mk.inj (Except.ok.inj h)
    exact ⟨_, _, n, hn⟩

/-- **The value behind the letter**: the next argument is read as a number as well. -/
theorem attached_eq_ok (hvalue : value ≠ [])
    (h : parseLoop info ((45 :: option.letter :: value) :: argv) = .ok info') :
    ∃ a rest, argv = a :: rest ∧ sscanf a ≠ .failed := by
  rcases harg : parseArg info (45 :: option.letter :: value) argv.head? with stop | ⟨info'', eaten⟩
  · rw [parseLoop_of_error harg] at h
    cases h
  · obtain ⟨x, y, n, hget⟩ := parseArg_letter harg
    obtain ⟨-, a, ha, hscan⟩ := GET_INT_ARG_eq_ok hvalue hget
    rcases argv with - | ⟨a', rest⟩
    · cases ha
    · obtain rfl := Option.some.inj ha
      exact ⟨a', rest, rfl, hscan⟩

/-- **The value in the next argument**: it is not read, and it is no option. -/
theorem detached_ne_ok (hvalue : sscanf value ≠ .failed) :
    parseLoop info ([45, option.letter] :: value :: argv) ≠ .ok info' := by
  rcases h : parseArg info [45, option.letter] (value :: argv).head? with stop | ⟨info'', eaten⟩
  · rw [parseLoop_of_error h]
    exact fun h => nomatch h
  · obtain ⟨x, y, n, hget⟩ := parseArg_letter h
    rw [GET_INT_ARG, if_neg (not_not.mpr rfl)] at hget
    obtain ⟨-, rfl⟩ := Prod.mk.inj (Except.ok.inj hget)
    rw [parseLoop_of_fills h]
    exact parseLoop_of_scanned hvalue

/-- **The value behind the name**: the next argument is the next option. -/
theorem long_eq_ok (h : parseLoop info ((45 :: 45 :: text) :: argv) = .ok info') :
    ∃ info'', parseLoop info'' argv = .ok info' := by
  rcases harg : parseArg info (45 :: 45 :: text) argv.head? with stop | ⟨info'', eaten⟩
  · rw [parseLoop_of_error harg] at h
    cases h
  · obtain ⟨r, -, hr⟩ := exists_of_bind_eq_ok (harg : (parseLong info _ _ >>= _) = _)
    obtain ⟨-, rfl⟩ := Prod.mk.inj (Except.ok.inj hr)
    rw [parseLoop_of_fills harg] at h
    exact ⟨info'', h⟩

/-! ## The forms among other options -/

/-- The detached form never goes well. -/
theorem not_returns_detached (hvalue : sscanf value ≠ .failed) :
    parseCmdlineOpts (before ++ OptionForm.detached.write option value ++ after) ≠ .ok info' := by
  intro h
  rw [List.append_assoc] at h
  replace h : parseLoop .cleared (before ++ [45, option.letter] :: value :: after) = .ok info' := h
  cases between before .cleared with
  | stopped stop hstop =>
    rw [hstop] at h
    cases h
  | ready info hready =>
    rw [hready] at h
    exact detached_ne_ok hvalue h
  | awaitsString fill hfill hfilled =>
    rw [hfilled] at h
    exact parseLoop_of_scanned hvalue h
  | awaitsInt hint =>
    obtain ⟨stop, hstop⟩ := hint [45, option.letter] (value :: after) (by cases option <;> rfl)
    rw [hstop] at h
    cases h

/-- The other two do not go well together, or fill in different strings. -/
theorem not_returns_attached_long (hvalue : value ≠ [])
    (hattached : parseCmdlineOpts (before ++ OptionForm.attached.write option value ++ after)
      = .ok info') :
    parseCmdlineOpts (before ++ OptionForm.long.write option value ++ after) ≠ .ok info' := by
  intro hlong
  rw [List.append_assoc] at hattached hlong
  replace hattached : parseLoop .cleared (before ++ (45 :: option.letter :: value) :: after)
    = .ok info' := hattached
  replace hlong : parseLoop .cleared (before ++ (45 :: 45 :: (option.name ++ 61 :: value)) :: after)
    = .ok info' := hlong
  have hfailed : sscanf (45 :: option.letter :: value) = .failed := by
    rw [sscanf_dash]
    cases option <;> rfl
  cases between before .cleared with
  | stopped stop hstop =>
    rw [hstop] at hlong
    cases hlong
  | ready info hready =>
    rw [hready] at hattached hlong
    obtain ⟨a, rest, rfl, ha⟩ := attached_eq_ok hvalue hattached
    obtain ⟨info'', hrest⟩ := long_eq_ok hlong
    exact parseLoop_of_scanned ha hrest
  | awaitsString fill hfill hfilled =>
    rw [hfilled] at hattached hlong
    -- the one string begins with one dash, the other with two
    have hne : (45 :: option.letter :: value) ≠ 45 :: 45 :: (option.name ++ 61 :: value) := by
      intro h
      cases option <;> cases h
    have h₁ := keeps_parseLoop hattached
    have h₂ := keeps_parseLoop hlong
    rcases hfill with hfill | hfill
    · refine hne (Option.some.inj ?_)
      calc some (45 :: option.letter :: value)
          = info'.config_arg := ((h₁.config (hfill _).1).2.trans (hfill _).2).symm
        _ = _ := (h₂.config (hfill _).1).2.trans (hfill _).2
    · refine hne (Option.some.inj ?_)
      calc some (45 :: option.letter :: value)
          = info'.logfile_arg := ((h₁.logfile (hfill _).1).2.trans (hfill _).2).symm
        _ = _ := (h₂.logfile (hfill _).1).2.trans (hfill _).2
  | awaitsInt hint =>
    obtain ⟨stop, hstop⟩ := hint _ after hfailed
    rw [hstop] at hattached
    cases hattached

/-- **No two forms of an option leave the same `args_info`**, among whatever options. -/
theorem not_returns_same {form form' : OptionForm} (hvalue : sscanf value = .int n)
    (hform : form ≠ form') : ¬ ∃ info,
      parseCmdlineOpts (before ++ form.write option value ++ after) = .ok info ∧
      parseCmdlineOpts (before ++ form'.write option value ++ after) = .ok info := by
  rintro ⟨info, h, h'⟩
  have hscanned : sscanf value ≠ .failed := by
    rw [hvalue]
    exact fun h => nomatch h
  have hne : value ≠ [] := by
    rintro rfl
    cases hvalue
  cases form <;> cases form'
  case attached.attached | detached.detached | long.long => exact hform rfl
  case attached.detached | long.detached => exact not_returns_detached hscanned h'
  case detached.attached | detached.long => exact not_returns_detached hscanned h
  case attached.long => exact not_returns_attached_long hne h h'
  case long.attached => exact not_returns_attached_long hne h' h

theorem not_returns_same_port : ¬ ∃ info,
    parseCmdlineOpts ([] ++ OptionForm.attached.write .port (ascii "2000") ++ []) = .ok info ∧
    parseCmdlineOpts ([] ++ OptionForm.long.write .port (ascii "2000") ++ []) = .ok info :=
  not_returns_same (show sscanf (ascii "2000") = .int 2000 by decide) (by decide)

/-- With nothing but the port, given as `-p 2000`, the number is met as an argument. -/
theorem not_forms_agree : ¬ ∀ (option : IntOption) (before after : List CString) (value : CString)
    (n : Int32), sscanf value = .int n →
      ∃ info, ∀ form : OptionForm,
        parseCmdlineOpts (before ++ form.write option value ++ after) = .ok info := by
  intro h
  obtain ⟨info, hinfo⟩ := h .port [] [] (ascii "2000") 2000 (by decide)
  have hexits : parseCmdlineOpts ([] ++ OptionForm.detached.write .port (ascii "2000") ++ [])
      = .error (.exit 1 .help) := by decide
  rw [hinfo] at hexits
  cases hexits

end Peep
