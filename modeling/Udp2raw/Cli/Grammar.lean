import Mathlib.Data.List.DropRight

/-!
# The command line

`parse_args` of `config.rs` up to the point where the option parser has bound its
values: the checks on the raw arguments, the expansion of `--conf-file`, and the
default grammar of the option parser over the options of `Cli`. Every token and
every bound value remembers the argument it was taken from. What follows the
binding (`validate`) sees the text of the key option only as present or absent.
-/

namespace Udp2raw

/-- A command-line argument. -/
abbrev Arg := List Char

/-! ## The options -/

/-- The fields of `Cli`. -/
inductive CliOpt where
  | client | server | localAddr | remote | key | keyFile | autoRule | genRule | genAdd | keepRule
  | clear | waitLock | rawMode | cipherMode | authMode | disableAntiReplay | fixGro | sourceIp
  | sourcePort | confFile | fifo | logLevel | logPosition | disableColor | enableColor | disableBpf
  | dev | sockBuf | forceSockBuf | seqMode | lowerLevel | hbMode | hbLen | mtuWarn | maxRstToShow
  | maxRstAllowed | setTtl | retryOnError | randomDrop | easyTcp | dnsResolve | dnsServer
  | dnsTimeout | underlayDev | underlayGateway | allowPrivateEndpoint | endpointCache
  | bootstrapAddr | lastGoodFallback | lastGoodFallbackAfter | lastGoodFallbackMaxAttempts
  | lastGoodFallbackCooldown | lastGoodFallbackMaxAge | lastGoodFallbackGlobalAttempts
  | lastGoodFallbackGlobalRefill | lastGoodFallbackRoundTimeout | lastGoodFallbackProbation
  | lastGoodFallbackRollbackWindow | simpleRule | debug | unitTest | threads | aesBackend
  | syscalls | help
  deriving DecidableEq

/-- How often an option may occur and whether it takes a value. -/
inductive OptKind where
  /-- A `bool` field. -/
  | flag
  /-- An `Option` field. -/
  | value
  /-- A `Vec` field. -/
  | values
  deriving DecidableEq

/-- The names and the kind of an option. -/
structure OptSpec where
  opt : CliOpt
  kind : OptKind
  short : Option Char
  long : Option String

/-- The option table, in the order of the fields of `Cli`. -/
def cliSpecs : List OptSpec := [
  ⟨.client, .flag, some 'c', none⟩,
  ⟨.server, .flag, some 's', none⟩,
  ⟨.localAddr, .value, some 'l', none⟩,
  ⟨.remote, .value, some 'r', none⟩,
  ⟨.key, .value, some 'k', some "key"⟩,
  ⟨.keyFile, .value, none, some "key-file"⟩,
  ⟨.autoRule, .flag, some 'a', some "auto-rule"⟩,
  ⟨.genRule, .flag, some 'g', some "gen-rule"⟩,
  ⟨.genAdd, .flag, none, some "gen-add"⟩,
  ⟨.keepRule, .flag, none, some "keep-rule"⟩,
  ⟨.clear, .flag, none, some "clear"⟩,
  ⟨.waitLock, .flag, none, some "wait-lock"⟩,
  ⟨.rawMode, .value, none, some "raw-mode"⟩,
  ⟨.cipherMode, .value, none, some "cipher-mode"⟩,
  ⟨.authMode, .value, none, some "auth-mode"⟩,
  ⟨.disableAntiReplay, .flag, none, some "disable-anti-replay"⟩,
  ⟨.fixGro, .flag, none, some "fix-gro"⟩,
  ⟨.sourceIp, .value, none, some "source-ip"⟩,
  ⟨.sourcePort, .value, none, some "source-port"⟩,
  ⟨.confFile, .value, none, some "conf-file"⟩,
  ⟨.fifo, .value, none, some "fifo"⟩,
  ⟨.logLevel, .value, none, some "log-level"⟩,
  ⟨.logPosition, .flag, none, some "log-position"⟩,
  ⟨.disableColor, .flag, none, some "disable-color"⟩,
  ⟨.enableColor, .flag, none, some "enable-color"⟩,
  ⟨.disableBpf, .flag, none, some "disable-bpf"⟩,
  ⟨.dev, .value, none, some "dev"⟩,
  ⟨.sockBuf, .value, none, some "sock-buf"⟩,
  ⟨.forceSockBuf, .flag, none, some "force-sock-buf"⟩,
  ⟨.seqMode, .value, none, some "seq-mode"⟩,
  ⟨.lowerLevel, .value, none, some "lower-level"⟩,
  ⟨.hbMode, .value, none, some "hb-mode"⟩,
  ⟨.hbLen, .value, none, some "hb-len"⟩,
  ⟨.mtuWarn, .value, none, some "mtu-warn"⟩,
  ⟨.maxRstToShow, .value, none, some "max-rst-to-show"⟩,
  ⟨.maxRstAllowed, .value, none, some "max-rst-allowed"⟩,
  ⟨.setTtl, .value, none, some "set-ttl"⟩,
  ⟨.retryOnError, .flag, none, some "retry-on-error"⟩,
  ⟨.randomDrop, .value, none, some "random-drop"⟩,
  ⟨.easyTcp, .flag, none, some "easy-tcp"⟩,
  ⟨.dnsResolve, .flag, none, some "dns-resolve"⟩,
  ⟨.dnsServer, .values, none, some "dns-server"⟩,
  ⟨.dnsTimeout, .value, none, some "dns-timeout"⟩,
  ⟨.underlayDev, .value, none, some "underlay-dev"⟩,
  ⟨.underlayGateway, .value, none, some "underlay-gateway"⟩,
  ⟨.allowPrivateEndpoint, .flag, none, some "allow-private-endpoint"⟩,
  ⟨.endpointCache, .value, none, some "endpoint-cache"⟩,
  ⟨.bootstrapAddr, .value, none, some "bootstrap-addr"⟩,
  ⟨.lastGoodFallback, .flag, none, some "last-good-fallback"⟩,
  ⟨.lastGoodFallbackAfter, .value, none, some "last-good-fallback-after"⟩,
  ⟨.lastGoodFallbackMaxAttempts, .value, none, some "last-good-fallback-max-attempts"⟩,
  ⟨.lastGoodFallbackCooldown, .value, none, some "last-good-fallback-cooldown"⟩,
  ⟨.lastGoodFallbackMaxAge, .value, none, some "last-good-fallback-max-age"⟩,
  ⟨.lastGoodFallbackGlobalAttempts, .value, none, some "last-good-fallback-global-attempts"⟩,
  ⟨.lastGoodFallbackGlobalRefill, .value, none, some "last-good-fallback-global-refill"⟩,
  ⟨.lastGoodFallbackRoundTimeout, .value, none, some "last-good-fallback-round-timeout"⟩,
  ⟨.lastGoodFallbackProbation, .value, none, some "last-good-fallback-probation"⟩,
  ⟨.lastGoodFallbackRollbackWindow, .value, none, some "last-good-fallback-rollback-window"⟩,
  ⟨.simpleRule, .flag, none, some "simple-rule"⟩,
  ⟨.debug, .flag, none, some "debug"⟩,
  ⟨.unitTest, .flag, none, some "unit-test"⟩,
  ⟨.threads, .value, none, some "threads"⟩,
  ⟨.aesBackend, .value, none, some "aes-backend"⟩,
  ⟨.syscalls, .value, none, some "syscalls"⟩,
  ⟨.help, .flag, some 'h', some "help"⟩]

/-- The option with the given one-letter name. -/
def findShort (c : Char) : Option OptSpec := cliSpecs.find? fun spec => spec.short = some c

/-- The option with the given long name. -/
def findLong (name : Arg) : Option OptSpec :=
  cliSpecs.find? fun spec => spec.long.map String.toList = some name

/-! ## Tokens and bindings -/

/-- An argument of the option parser, with its position on the command line. A token from a
configuration file has none. -/
structure Token where
  text : Arg
  origin : Option Nat
  deriving DecidableEq

/-- An occurrence of an option. The value is the text of its token from `offset` on. -/
structure Binding where
  opt : CliOpt
  value : Option Arg
  origin : Option Nat
  offset : Nat
  deriving DecidableEq

/-- What the option parser expects next. -/
inductive ArgState where
  | ready
  /-- The value of an option given in a token of its own. -/
  | pending (opt : CliOpt)
  /-- After `--` only positional arguments follow, and there are none to fill. -/
  | trailing
  deriving DecidableEq

/-- The token begins with a dash and is not the dash alone. -/
def isDashed (text : Arg) : Bool := text.head? = some '-' && text != ['-']

/-- `--name` or `--name=value`. -/
def bindLong (t : Token) : Option (List Binding × ArgState) := do
  let body := t.text.drop 2
  let name := body.takeWhile (· != '=')
  let spec ← findLong name
  if name.length < body.length then
    let offset := 2 + name.length + 1
    match spec.kind with
    | .flag => none
    | _ => some ([⟨spec.opt, some (t.text.drop offset), t.origin, offset⟩], .ready)
  else
    match spec.kind with
    | .flag => some ([⟨spec.opt, none, t.origin, 0⟩], .ready)
    | _ => some ([], .pending spec.opt)

/-- The rest of a cluster after the letter of an option that takes a value, at position
`offset`: the value, without a leading `=`. -/
def bindAttached (opt : CliOpt) (origin : Option Nat) (offset : Nat) :
    Arg → List Binding × ArgState
  | [] => ([], .pending opt)
  | '=' :: value => ([⟨opt, some value, origin, offset + 2⟩], .ready)
  | value => ([⟨opt, some value, origin, offset + 1⟩], .ready)

/-- The letters of a short cluster from position `offset` on: flags, and then possibly an
option that takes a value. -/
def bindShort (origin : Option Nat) (offset : Nat) : Arg → Option (List Binding × ArgState)
  | [] => some ([], .ready)
  | c :: rest => do
    let spec ← findShort c
    if spec.kind = .flag then
      let (bindings, state) ← bindShort origin (offset + 1) rest
      some (⟨spec.opt, none, origin, 0⟩ :: bindings, state)
    else some (bindAttached spec.opt origin offset rest)

/-- The option parser takes one token. -/
def argStep (state : ArgState) (t : Token) : Option (List Binding × ArgState) :=
  match state with
  | .trailing => none
  | .pending opt =>
    -- the values are not allowed to look like options
    if isDashed t.text then none else some ([⟨opt, some t.text, t.origin, 0⟩], .ready)
  | .ready =>
    if !isDashed t.text then none
    else if t.text = ['-', '-'] then some ([], .trailing)
    else if ['-', '-'].isPrefixOf t.text then bindLong t
    else bindShort t.origin 1 (t.text.drop 1)

/-- The option parser takes all tokens. -/
def argRun : ArgState → List Token → Option (List Binding × ArgState)
  | state, [] => some ([], state)
  | state, t :: tokens => do
    let (bindings, next) ← argStep state t
    let (more, last) ← argRun next tokens
    some (bindings ++ more, last)

/-- The kind of an option. -/
def CliOpt.kind (opt : CliOpt) : OptKind :=
  match cliSpecs.find? fun spec => spec.opt = opt with
  | some spec => spec.kind
  | none => .flag

/-- Only `Vec` options may be repeated. -/
def repeatsOk (opts : List CliOpt) : Bool :=
  (opts.filter fun opt => opt.kind ≠ .values).Nodup

/-- `Cli::try_parse_from`, up to the conversion of the values. -/
def tryParseFrom (tokens : List Token) : Option (List Binding) := do
  let (bindings, last) ← argRun .ready tokens
  match last with
  | .pending _ => none
  | _ => if repeatsOk (bindings.map Binding.opt) then some bindings else none

/-! ## The configuration file -/

/-- Why the command line is refused. -/
inductive ArgError where
  /-- An empty argument. -/
  | emptyArg
  /-- The argument `-` or `--`. -/
  | invalidArg (arg : Arg)
  | duplicatedConfFile
  | confFileNeedsParameter
  | openFailed (path reason : Arg)
  /-- A line of the configuration file that does not begin with `-`. -/
  | confLine (line : Arg)
  | nestedConfFile
  /-- The option parser's own errors. -/
  | options
  /-- A check on the bound values failed. -/
  | values
  deriving DecidableEq

/-- The option that names a configuration file. -/
def confFileOption : Arg := "--conf-file".toList

/-- The loop of `expand_conf_file`: the arguments without the option and its parameter, and
the parameter. -/
def takeConfFile (i : Nat) (conf : Option Arg) :
    List Arg → Except ArgError (List Token × Option Arg)
  | [] => .ok ([], conf)
  | arg :: rest =>
    if arg = confFileOption then
      if conf.isSome then .error .duplicatedConfFile
      else
        match rest with
        | [] => .error .confFileNeedsParameter
        | path :: rest =>
          if path.head? = some '-' then .error .confFileNeedsParameter
          else takeConfFile (i + 2) (some path) rest
    else do
      let (out, conf) ← takeConfFile (i + 1) conf rest
      return (⟨arg, some i⟩ :: out, conf)

/-- The separators inside a line of the configuration file. -/
def isBlank (c : Char) : Bool := c = ' ' || c = '\t'

/-- Split one line into at most two tokens. -/
def parseConfLine (line : Arg) : Except ArgError (List Arg) :=
  let s := (line.dropWhile isBlank).rdropWhile isBlank
  if s.isEmpty || s.head? = some '#' then .ok []
  else if s.head? ≠ some '-' then .error (.confLine s)
  else
    let a := s.takeWhile fun c => !isBlank c
    if a.length = s.length then .ok [s] else .ok [a, (s.drop a.length).dropWhile isBlank]

/-- `str::lines`: a line ends with a newline, before which one carriage return is dropped. -/
def textLines (text : List Char) : List Arg :=
  let pieces := text.splitOn '\n'
  pieces.dropLast.map (fun line =>
    if line.getLast? = some '\r' then line.dropLast else line) ++
    (pieces.getLast?.toList.filter fun line => !line.isEmpty)

/-- The tokens of the lines of the configuration file. -/
def confTokens : List Arg → Except ArgError (List Arg)
  | [] => .ok []
  | line :: lines => do
    let tokens ← parseConfLine line
    if confFileOption ∈ tokens then .error .nestedConfFile
    else
      let more ← confTokens lines
      return tokens ++ more

/-- What the program reads besides its arguments, and the checks after the option parser. The
checks see every bound value except the text of the key. -/
structure CliEnv where
  readFile : Arg → Except Arg (List Char)
  validate : List (CliOpt × Option Arg) → Bool

/-- The tokens of the named configuration file, if one is named. -/
def confFileTokens (env : CliEnv) : Option Arg → Except ArgError (List Token)
  | none => .ok []
  | some path =>
    match env.readFile path with
    | .error reason => .error (.openFailed path reason)
    | .ok text => do
      let tokens ← confTokens (textLines text)
      return tokens.map fun text => ⟨text, none⟩

/-- `expand_conf_file`: the tokens of the file go to the end. -/
def expandConfFile (env : CliEnv) (args : List Arg) : Except ArgError (List Token) := do
  let (out, conf) ← takeConfFile 0 none args
  let tokens ← confFileTokens env conf
  return out ++ tokens

/-! ## The whole command line -/

/-- The binding without the text of the key. -/
def Binding.hideKey (b : Binding) : Binding :=
  if b.opt = .key then { b with value := none } else b

/-- What `parse_args` decides. -/
inductive ParseOutcome where
  | run (bindings : List Binding)
  | help
  | unitTest
  deriving DecidableEq

/-- An argument that none of the checks on the raw arguments catches. -/
def isOrdinary (a : Arg) : Bool :=
  !(["--unit-test".toList, "-h".toList, "--help".toList, [], ['-'], ['-', '-']].contains a)

/-- `parse_args`. -/
def parseArgs (env : CliEnv) (args : List Arg) : Except ArgError ParseOutcome :=
  if args.any (· == "--unit-test".toList) then .ok .unitTest
  else if args.isEmpty || args.any (fun a => a == "-h".toList || a == "--help".toList) then
    .ok .help
  else
    match args.find? fun a => a.isEmpty || a == ['-'] || a == ['-', '-'] with
    | some a => .error (if a.isEmpty then .emptyArg else .invalidArg a)
    | none => do
      let tokens ← expandConfFile env args
      match tryParseFrom tokens with
      | none => .error .options
      | some bindings =>
        if env.validate (bindings.map fun b => (b.opt, b.hideKey.value)) then
          .ok (.run bindings)
        else .error .values

end Udp2raw
