import Peep.Server.Classes
import Peep.Server.Theme
import Peep.Server.Tokens

/-!
# The configuration file

The functions of `parser.c` that parse the sections of a configuration file. Each takes the lines up
to the `end` of its section. It compares the first token of a line with one keyword after the other,
and a test that succeeds does not skip the tests behind it: after a test for a port, a name or a
path, they see the token that was read last.

A state is parsed twice, first to count its thresholds.

## Choices

What a program that has called `shutDown` would have done after it does not count: it crashes. The
zero that the version check writes behind its buffer of five bytes hits nothing. Files are regular
files, so that the look-ahead for thresholds can go back.
-/

namespace Peep

open Bytes Decimal Program

variable {n k : ℕ}

/-! ## Tokens -/

/-- A call of `parserTokenize`. -/
def tokenize (remainder : Option CString) : Program (Loader n k) Tok :=
  ofOption (parserTokenize remainder)

/-- The test for `end` and the name of a section behind it. -/
def isEndOf (tok : Tok) (keyword : String) : Program (Loader n k) Bool :=
  if tok.is "end" then do
    let tok ← tokenize tok.remainder
    pure (tok.is keyword)
  else pure false

/-! ## The general section -/

/-- `strtok (s, ".")`, and what is in the string then. -/
def strtokDot (s : CString) : Option CString × CString :=
  let p := s.dropWhile fun c => c = 46
  if p = [] then (none, s)
  else
    (some (p.takeWhile fun c => c ≠ 46),
      (s.takeWhile fun c => c = 46) ++ p.takeWhile fun c => c ≠ 46)

/-- The numbers of a version, and what is in the string then. Each call of `strtok` gets the string
from its beginning on. -/
def versionNumbers (s : CString) : Option ((Int32 × Int32 × Int32) × CString) := do
  let major ← (strtokDot s).1
  let s := (strtokDot s).2
  let minor ← (strtokDot s).1
  let s := (strtokDot s).2
  some ((atoi major, atoi minor, atoi s), s)

/-- The check of a version, and what is in the token then. -/
def acceptsVersion (sys : System) (token : CString) : Option (Bool × CString) := do
  let ((configMajor, configMinor, configRelease), token) ← versionNumbers token
  let ((major, minor, release), _) ← versionNumbers (sys.packageVersion.take 5)
  some (!(major < configMajor || minor < configMinor || release < configRelease), token)

/-- `version` in the general section; `none` is a version that is not accepted. -/
def parseVersion (sys : System) (tok : Tok) : Program (Loader n k) (Option Tok) :=
  if tok.is "version" then do
    let tok ← tokenize tok.remainder
    let (accepted, token) ← ofOption (acceptsVersion sys tok.token)
    pure (if accepted then some { tok with token := token } else none)
  else pure (some tok)

/-- `sound-path` in the general section. The test for a `/` at the end reads the zero behind it. -/
def parseSoundPath (tok : Tok) : Program (Loader n k) Tok :=
  if tok.is "sound-path" then do
    let tok ← tokenize tok.remainder
    change fun s => { s with soundPath := some (tok.token ++ [47]) }
    pure tok
  else pure tok

/-- `parserParseGeneral`, with the lines that are left. -/
def parserParseGeneral (sys : System) :
    List CString → Program (Loader n k) (Bool × List CString)
  | [] => pure (false, [])
  | line :: lines => do
    let tok ← tokenize (some line)
    match ← parseVersion sys tok with
    | none => pure (false, lines)
    | some tok =>
      let tok ← parseSoundPath tok
      if ← isEndOf tok "general" then pure (true, lines) else parserParseGeneral sys lines

/-! ## Classes -/

/-- `parserIsMyClass`. It compares the address with the pointer to the one of the host. -/
def parserIsMyClass (sys : System) (host : CString) : Bool :=
  sys.hostent.any fun entry =>
    strcaseeq entry.hName host || (entry.hAliases.any fun other => strcaseeq other host) ||
      entry.hAddrList.any fun addr => (sys.inetAton host).any fun ip => ip.toUInt64 = addr

/-- `serverAddBroadcastPort`. -/
def serverAddBroadcastPort (port : Int32) : Program (Loader n k) Unit :=
  change fun s => { s with ports := s.ports ++ [port] }

/-- `serverAddIDClass` and `serverSetPort`. -/
def joinClass (cls : CString) (port : Int32) : Program (Loader n k) Unit :=
  change fun s => { s with identifier := serverAddIDClass s.identifier cls, port := port }

/-- The loop over the ports of a line. -/
def parsePortsLoop : List Tok → Program (Loader n k) Tok
  | [] => crash
  | tok :: toks =>
    if tok.isComment then parsePortsLoop toks
    else if tok.remainder = none then pure tok
    else do
      serverAddBroadcastPort (atoi tok.token)
      parsePortsLoop toks

/-- `port` in a class. -/
def parsePorts (tok : Tok) : Program (Loader n k) Tok :=
  if tok.is "port" then parsePortsLoop (tokens tok.remainder) else pure tok

/-- The loop that splits the entry of a server. At a colon, what stands in front of the first one is
the host. -/
def parseServerEntry (sys : System) (cls host : CString) : CString → Program (Loader n k) Unit
  | [] => pure ()
  | c :: q =>
    if c = 58 ∧ parserIsMyClass sys host then joinClass cls (atoi q)
    else parseServerEntry sys cls host q

/-- The loop over the servers of a line. -/
def parseServersLoop (sys : System) (cls : CString) : List Tok → Program (Loader n k) Tok
  | [] => crash
  | tok :: toks => do
    let host := tok.token.takeWhile fun c => c ≠ 58
    parseServerEntry sys cls host tok.token
    if tok.remainder = none then pure { tok with token := host } else parseServersLoop sys cls toks

/-- `server` in a class. -/
def parseServers (sys : System) (cls : CString) (tok : Tok) : Program (Loader n k) Tok :=
  if tok.is "server" then parseServersLoop sys cls (tokens tok.remainder) else pure tok

/-- `parserParseClass`, with the lines that are left. -/
def parserParseClass (sys : System) (cls : CString) :
    List CString → Program (Loader n k) (Bool × List CString)
  | [] => pure (false, [])
  | line :: lines => do
    let tok ← tokenize (some line)
    if tok.isComment then parserParseClass sys cls lines
    else
      let tok ← parsePorts tok
      let tok ← parseServers sys cls tok
      if ← isEndOf tok "class" then pure (true, lines) else parserParseClass sys cls lines

/-! ## Clients -/

/-- The loop that skips a client, with the token that was read last. -/
def skipClient (tok : Tok) : List CString → Program (Loader n k) (Tok × List CString)
  | [] => pure (tok, [])
  | line :: lines => do
    let tok ← tokenize (some line)
    if tok.is "end" then
      let tok ← tokenize tok.remainder
      if tok.is "client" then pure (tok, lines) else skipClient tok lines
    else skipClient tok lines

/-! ## Events -/

/-- `name` in an event or a state. -/
def parseName (tok : Tok) (name : Option CString) : Program (Loader n k) (Tok × Option CString) :=
  if tok.is "name" then do
    let tok ← tokenize tok.remainder
    pure (tok, some tok.token)
  else pure (tok, name)

/-- `path` in an event or a threshold: it is relative to `sound_path`. -/
def parsePath (tok : Tok) (path : Option CString) : Program (Loader n k) (Tok × Option CString) :=
  if tok.is "path" then do
    let tok ← tokenize tok.remainder
    let s ← get
    let soundPath ← ofOption s.soundPath
    pure (tok, some (soundPath ++ tok.token))
  else pure (tok, path)

/-- `parserParseEvent`, with the lines that are left. -/
def parserParseEvent (sys : System) : List CString → Option CString → Option CString →
    Program (Loader n k) (Bool × List CString)
  | [], _, _ => pure (false, [])
  | line :: lines, name, sndPath => do
    let tok ← tokenize (some line)
    if tok.isComment then parserParseEvent sys lines name sndPath
    else
      let (tok, name) ← parseName tok name
      let (tok, sndPath) ← parsePath tok sndPath
      if ← isEndOf tok "event" then
        match name, sndPath with
        | some name, some sndPath =>
          let loaded ← parserLoadEventSndDir sys name sndPath
          pure (loaded, lines)
        | _, _ => pure (false, lines)
      else parserParseEvent sys lines name sndPath

/-! ## States -/

/-- The look-ahead of `parserParseState`: the number of thresholds, and whether the end of the state
was found, so that the position is reset. -/
def lookAhead : List CString → ℕ → Option (ℕ × Bool)
  | [], threshCnt => some (threshCnt, false)
  | line :: lines, threshCnt => do
    let tok ← parserTokenize (some line)
    let threshCnt := if tok.is "threshold" then threshCnt + 1 else threshCnt
    if tok.is "end" then
      let tok ← parserTokenize tok.remainder
      if tok.is "state" then some (threshCnt, true) else lookAhead lines threshCnt
    else lookAhead lines threshCnt

/-- The variables of `parserParseThreshold`. -/
structure ThresholdVars where
  /-- `l_bound`. -/
  lBound : ℚ
  /-- `h_bound`. -/
  hBound : ℚ
  /-- `fade`. -/
  fade : ℚ
  /-- `path`. -/
  path : Option CString

/-- Their initial values. -/
def ThresholdVars.start : ThresholdVars := ⟨0, 0, 0, none⟩

/-- `level` in a threshold. -/
def parseLevel (sys : System) (threshCnt : ℕ) (tok : Tok) (v : ThresholdVars) :
    Program (Loader n k) (Tok × ThresholdVars) :=
  if tok.is "level" then do
    let tok ← tokenize tok.remainder
    let lBound ← lowerBound threshCnt
    pure (tok, { v with lBound := lBound, hBound := sys.strtod tok.token })
  else pure (tok, v)

/-- `fade` in a threshold. -/
def parseFade (sys : System) (tok : Tok) (v : ThresholdVars) :
    Program (Loader n k) (Tok × ThresholdVars) :=
  if tok.is "fade" then do
    let tok ← tokenize tok.remainder
    pure (tok, { v with fade := sys.strtod tok.token })
  else pure (tok, v)

/-- `parserParseThreshold`, with the lines that are left: whether it does not return zero. At the
end of the file it returns `PARSER_FAILURE`, which is not zero. -/
def parserParseThreshold (sys : System) (threshCnt : ℕ) :
    List CString → ThresholdVars → Program (Loader n k) (Bool × List CString)
  | [], _ => pure (true, [])
  | line :: lines, v => do
    let tok ← tokenize (some line)
    if tok.isComment then parserParseThreshold sys threshCnt lines v
    else
      let (tok, v) ← parseLevel sys threshCnt tok v
      let (tok, path) ← parsePath tok v.path
      let (tok, v) ← parseFade sys tok { v with path := path }
      if ← isEndOf tok "threshold" then
        if v.path ≠ none ∧ v.hBound ≠ 0 then
          let loaded ← parserLoadStateSndDir sys threshCnt v.lBound v.hBound v.path v.fade
          pure (loaded, lines)
        else crash
      else parserParseThreshold sys threshCnt lines v

/-- `threshold` in a state, with `t_count` and the lines that are left. -/
def parseThreshold (sys : System) (tok : Tok) (lines : List CString) (tCount : ℕ) :
    Program (Loader n k) (Bool × List CString × ℕ) :=
  if tok.is "threshold" then do
    let (loaded, lines) ← parserParseThreshold sys tCount lines .start
    pure (loaded, lines, tCount + 1)
  else pure (true, lines, tCount)

/-- The end of a state. -/
def registerState (name : Option CString) : Program (Loader n k) Bool :=
  match name with
  | none => pure false
  | some name => do
    let s ← get
    let _ ← engineSoundTableInsertState name s.stateCnt
    change fun s => { s with stateCnt := s.stateCnt + 1 }
    pure true

/-- The second loop of `parserParseState`. It takes a turn for a line at most. -/
def parseStateLoop (sys : System) : ℕ → List CString → Option CString → ℕ →
    Program (Loader n k) (Bool × List CString)
  | _, [], _, _ => pure (false, [])
  | 0, _ :: _, _, _ => crash
  | turns + 1, line :: lines, name, tCount => do
    let tok ← tokenize (some line)
    if tok.isComment then parseStateLoop sys turns lines name tCount
    else
      let (tok, name) ← parseName tok name
      let (loaded, lines, tCount) ← parseThreshold sys tok lines tCount
      if !loaded then pure (false, lines)
      else if ← isEndOf tok "state" then
        let registered ← registerState name
        pure (registered, lines)
      else parseStateLoop sys turns lines name tCount

/-- `parserParseState`, with the lines that are left. -/
def parserParseState (sys : System) (lines : List CString) :
    Program (Loader n k) (Bool × List CString) := do
  let (threshCnt, reset) ← ofOption (lookAhead lines 0)
  let s ← get
  let _ ← callMixer s.stateCnt fun m => m.mixerAllocNewState s.stateCnt threshCnt
  -- without the end of the state, the file has been read to its end
  let lines := if reset then lines else []
  parseStateLoop sys lines.length lines none 0

end Peep
