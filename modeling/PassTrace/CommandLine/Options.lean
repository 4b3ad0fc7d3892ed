import PassTrace.Config
import PassTrace.Number.Integer
import PassTrace.Text.Digit

/-!
# Options of the command line

Long options start with two dashes and may be cut short where that is not ambiguous; their value
comes behind an equals sign or as the next argument. Options of one letter start with one dash, and
several may share it, also behind an equals sign; they are taken up only if each letter is one. Two
dashes behind an equals sign give an option, but no value. Exactly one of the options that name the
input must be given, and there are no arguments that are not options; these are refused only when
all options have been read, so that help can be asked for beside them.
-/

namespace PassTrace.CommandLine

/-- The options that are given or not. -/
inductive Flag
  | store
  | listSessions
  | list
  | stats
  | stripDebugInfo
  | verbose
  | quiet
  deriving DecidableEq, Repr

/-- The options with a text. -/
inductive TextOption
  | trace
  | session
  | save
  | sourceFile
  | report
  | logFile
  deriving DecidableEq, Repr

/-- The options with a number. -/
inductive NumberOption
  | show
  | nextChanged
  deriving DecidableEq, Repr

/-- All options. -/
inductive OptionKind
  | help
  | flag (flag : Flag)
  | text (option : TextOption)
  | number (option : NumberOption)
  deriving DecidableEq, Repr

/-- The options by their spellings. -/
def spellings : List (String × OptionKind) :=
  [("-h", .help), ("--help", .help), ("--trace", .text .trace), ("--session", .text .session),
    ("--save", .text .save), ("--source-file", .text .sourceFile), ("--store", .flag .store),
    ("--list-sessions", .flag .listSessions), ("--list", .flag .list), ("--show", .number .show),
    ("--next-changed", .number .nextChanged), ("--stats", .flag .stats),
    ("--report", .text .report), ("--strip-debug-metadata", .flag .stripDebugInfo),
    ("--log-file", .text .logFile), ("--verbose", .flag .verbose), ("-v", .flag .verbose),
    ("--quiet", .flag .quiet), ("-q", .flag .quiet)]

/-- The option of a spelling. -/
def kindOf? (spelling : String) : Option OptionKind :=
  (spellings.find? fun entry => entry.1 = spelling).map (·.2)

/-- Whether an option has a value. -/
def OptionKind.hasValue : OptionKind → Bool
  | .help | .flag _ => false
  | .text _ | .number _ => true

/-- What is attached to an option in the same argument. -/
inductive Attachment
  | nothing
  /-- A text behind the equals sign of a long option. -/
  | behindEquals (text : String)
  /-- A text behind an option of one letter, or behind the equals sign there. -/
  | joined (text : String)
  deriving DecidableEq, Repr

/-- What an argument is taken for. -/
inductive Role
  /-- A value. -/
  | value
  /-- An option. -/
  | option (kind : OptionKind) (attached : Attachment)
  /-- An option that there is not. -/
  | unknown
  deriving DecidableEq, Repr

/-- A text in front of its first equals sign, and what is behind that. -/
def splitEquals (text : String) : Option (String × String) :=
  let cs := text.toList
  match cs.dropWhile (· ≠ '=') with
  | [] => none
  | _ :: behind => some (String.ofList (cs.takeWhile (· ≠ '=')), String.ofList behind)

/-- Whether a text starts with two dashes. -/
def isLong (text : String) : Bool :=
  text.startsWith "--"

/-- The options that a text may be an abbreviation of, or that its first two characters are. -/
def candidates (text : String) : List Role :=
  if isLong text then
    let (start, attached) :=
      match splitEquals text with
      | some (start, attached) => (start, Attachment.behindEquals attached)
      | none => (text, .nothing)
    (spellings.filter fun entry => entry.1.startsWith start).map fun entry =>
      .option entry.2 attached
  else
    let short := String.ofList (text.toList.take 2)
    (spellings.filter fun entry => entry.1 = short).map fun entry =>
      .option entry.2 (.joined (String.ofList (text.toList.drop 2)))

/-- Whether a character is a digit of any script. -/
def isDecimal (c : Char) : Bool :=
  (Text.digitValue? c).isSome

/-- Whether a text is a negative number, with or without a fraction. -/
def isNegativeNumber (text : String) : Bool :=
  match text.toList with
  | '-' :: rest =>
    let rest := if rest.getLast? = some '\n' then rest.dropLast else rest
    match rest.dropWhile isDecimal with
    | [] => !rest.isEmpty
    | '.' :: fraction => !fraction.isEmpty && fraction.all isDecimal
    | _ => false
  | _ => false

/-- What an argument is taken for, or `none` if it is an ambiguous abbreviation. -/
def roleOf? (text : String) : Option Role :=
  if !text.startsWith "-" then some .value
  else
    match kindOf? text with
    | some kind => some (.option kind .nothing)
    | none =>
      if text = "-" then some .value
      else
        let exact : Option Role :=
          (splitEquals text).bind fun (spelling, attached) =>
            (kindOf? spelling).map fun kind =>
              .option kind (if isLong spelling then .behindEquals attached else .joined attached)
        match exact, candidates text with
        | some role, _ => some role
        | none, [role] => some role
        | none, _ :: _ :: _ => none
        | none, [] =>
          if isNegativeNumber text || text.toList.contains ' ' then some .value
          else some .unknown

/-- What an option is given. -/
inductive Argument (α : Type)
  | value (value : α)
  /-- Two dashes, which stand for no value. -/
  | dashes
  deriving DecidableEq, Repr

/-- The value that an option is given. -/
def Argument.value? {α : Type} : Argument α → Option α
  | value a => some a
  | dashes => none

/-- The options given. -/
structure Options where
  flags : List Flag := []
  trace : Option (Argument String) := none
  session : Option (Argument String) := none
  save : Option (Argument String) := none
  sourceFile : Option (Argument String) := none
  report : Option (Argument String) := none
  logFile : Option (Argument String) := none
  shown : Option (Argument Int) := none
  nextChanged : Option (Argument Int) := none
  deriving Repr

namespace Options

/-- Whether a flag is given. -/
def has (o : Options) (flag : Flag) : Bool :=
  o.flags.contains flag

/-- The options with that of a text. -/
def setText (o : Options) (text : Argument String) : TextOption → Options
  | .trace => { o with trace := some text }
  | .session => { o with session := some text }
  | .save => { o with save := some text }
  | .sourceFile => { o with sourceFile := some text }
  | .report => { o with report := some text }
  | .logFile => { o with logFile := some text }

/-- The options with that of a number. -/
def setNumber (o : Options) (number : Argument Int) : NumberOption → Options
  | .show => { o with shown := some number }
  | .nextChanged => { o with nextChanged := some number }

/-- Whether both options that name the input are given. -/
def hasTwoInputs (o : Options) : Bool :=
  o.trace.isSome && o.session.isSome

/-- Whether one of the options that name the input is given. -/
def hasInput (o : Options) : Bool :=
  o.trace.isSome || o.session.isSome

end Options

/-- Why the options end the program. -/
inductive Ending
  | help
  | badArguments
  deriving DecidableEq, Repr

/-- The program's exit code. -/
def Ending.exitCode : Ending → Nat
  | .help => 0
  | .badArguments => 2

/-- The text that stands as an option's argument. -/
def textArgument (text : String) : Argument String :=
  if text = "--" then .dashes else .value text

/-- The number that stands as an option's argument. -/
def numberArgument (text : String) : Except Ending (Argument Int) :=
  if text = "--" then .ok .dashes
  else
    match Numeral.read text with
    | .ok n => .ok (.value n)
    | .error _ => .error .badArguments

/-- The options with one more that has a value. -/
def applyValue (o : Options) (kind : OptionKind) (text : String) : Except Ending Options :=
  match kind with
  | .help | .flag _ => .error .badArguments
  | .text option =>
    let o := o.setText (textArgument text) option
    if o.hasTwoInputs then .error .badArguments else .ok o
  | .number option => do return o.setNumber (← numberArgument text) option

/-- The options with one more that has no value. -/
def applyAlone (o : Options) (kind : OptionKind) : Except Ending Options :=
  match kind with
  | .help => .error .help
  | .flag flag => .ok { o with flags := flag :: o.flags }
  | .text _ | .number _ => .error .badArguments

/-- The options of one letter that characters stand for, if each stands for one. -/
def clusterOf : List Char → Except Ending (List OptionKind)
  | [] => .ok []
  | c :: rest =>
    match kindOf? (String.ofList ['-', c]) with
    | none => .error .badArguments
    | some kind => do return kind :: (← clusterOf rest)

/-- The options with one of a letter and those that the text joined to it stands for, which must be
there. -/
def applyCluster (o : Options) (kind : OptionKind) (text : String) : Except Ending Options := do
  if text.isEmpty then .error .badArguments
  (kind :: (← clusterOf text.toList)).foldlM applyAlone o

/-- Reads arguments with their roles. The flag says whether there were arguments that are no
options. -/
def readFrom (o : Options) (extra : Bool) : List (String × Role) → Except Ending (Options × Bool)
  | [] => .ok (o, extra)
  | (_, .value) :: rest | (_, .unknown) :: rest => readFrom o true rest
  | (_, .option kind (.behindEquals text)) :: rest => do
    readFrom (← applyValue o kind text) extra rest
  | (_, .option kind (.joined text)) :: rest =>
    if kind.hasValue then do readFrom (← applyValue o kind text) extra rest
    else do readFrom (← applyCluster o kind text) extra rest
  | (_, .option kind .nothing) :: rest =>
    if kind.hasValue then
      match rest with
      | (text, .value) :: rest => do readFrom (← applyValue o kind text) extra rest
      | _ => .error .badArguments
    else do readFrom (← applyAlone o kind) extra rest

/-- The arguments in front of two dashes that stand alone, with their roles, and whether there are
such dashes. -/
def rolesOf : List String → Except Ending (List (String × Role) × Bool)
  | [] => .ok ([], false)
  | text :: rest =>
    if text = "--" then .ok ([], true)
    else
      match roleOf? text with
      | none => .error .badArguments
      | some role => do
        let (roles, dashes) ← rolesOf rest
        return ((text, role) :: roles, dashes)

/-- The options that the arguments give. -/
def readOptions (arguments : List String) : Except Ending Options := do
  let (roles, dashes) ← rolesOf arguments
  let (o, extra) ← readFrom {} dashes roles
  if extra || !o.hasInput then .error .badArguments else return o

/-- The configuration that options ask for. -/
def Options.config (o : Options) : Config :=
  { stripDebugInfo := o.has .stripDebugInfo, verbose := o.has .verbose, quiet := o.has .quiet }

end PassTrace.CommandLine
