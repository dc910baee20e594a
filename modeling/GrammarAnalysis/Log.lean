/-!
# Diagnostics

The analysis records what it finds about a grammar as a log of messages, in the order in which
they arise. A warning or an error can be attached to the part of the grammar that it is about;
a note stands on its own.

## Main definitions

* `Subject`, `Position` — the part of a grammar a message is about, and its place in the source;
* `Message`, `Log` — messages and their record, with the counts by severity;
* `Stage`, `BuildFailure` — the log of a build that was given up, and the stage that did so.
-/

namespace GrammarAnalysis

/-- A place in the source of the grammar. -/
structure Position where
  line : Nat := 0
  column : Nat := 0
deriving DecidableEq, Repr, Inhabited

/-- The text of a place. -/
def Position.render (p : Position) : String :=
  s!"line {p.line}, column {p.column}"

/-- The part of a grammar that a message is about. -/
inductive Subject where
  /-- The grammar as a whole. -/
  | grammar
  /-- A production. -/
  | production (id : Nat)
  /-- An expansion of a production. -/
  | expansion (id : Nat)
  /-- A regular expression. -/
  | regex (id : Nat)
  /-- The entry at position `index` of a token production. -/
  | entry (tokenProduction index : Nat)
  /-- A lexical state. -/
  | lexicalState (id : Nat)
deriving DecidableEq, Repr

/-- A message, or the notice that the messages were not kept. -/
inductive Message where
  | note (text : String)
  | warning (text : String)
  | error (text : String)
  | notStored
deriving DecidableEq, Repr

namespace Message

/-- The text of a message without its severity. -/
def text : Message → String
  | note text | warning text | error text => text
  | notStored => ""

/-- The text of a message with its severity. -/
def render : Message → String
  | note text => s!"Note   : {text}"
  | warning text => s!"Warning: {text}"
  | error text => s!"ERROR  : {text}"
  | notStored => "The log messages were not stored"

/-- The message is a note. -/
def isNote : Message → Bool
  | note _ => true
  | _ => false

/-- The message is a warning. -/
def isWarning : Message → Bool
  | warning _ => true
  | _ => false

/-- The message is an error. -/
def isError : Message → Bool
  | error _ => true
  | _ => false

end Message

/-- A recorded message. -/
structure LogEntry where
  message : Message
  subject : Option Subject := none
deriving DecidableEq, Repr

/-- The messages recorded so far, in the order in which they arose. -/
structure Log where
  entries : List LogEntry := []
deriving DecidableEq, Repr, Inhabited

namespace Log

/-- Records a message. A note is never attached to a part of the grammar. -/
def add (log : Log) (message : Message) (subject : Option Subject) : Log :=
  ⟨log.entries ++ [⟨message, if message.isNote then none else subject⟩]⟩

/-- Records an error about a part of the grammar. -/
def addError (log : Log) (subject : Subject) (text : String) : Log :=
  log.add (.error text) (some subject)

/-- Records a warning about a part of the grammar. -/
def addWarning (log : Log) (subject : Subject) (text : String) : Log :=
  log.add (.warning text) (some subject)

/-- The messages of `log`, then those of `other`. -/
def append (log other : Log) : Log := ⟨log.entries ++ other.entries⟩

instance : Append Log := ⟨append⟩

/-- The messages without the parts that they are about. -/
def messages (log : Log) : List Message := log.entries.map (·.message)

/-- There is no message. -/
def isEmpty (log : Log) : Bool := log.entries.isEmpty

/-- The texts of the notes. -/
def notes (log : Log) : List String := (log.messages.filter (·.isNote)).map (·.text)

/-- The texts of the warnings. -/
def warnings (log : Log) : List String := (log.messages.filter (·.isWarning)).map (·.text)

/-- The texts of the errors. -/
def errors (log : Log) : List String := (log.messages.filter (·.isError)).map (·.text)

/-- The number of notes. -/
def noteCount (log : Log) : Nat := log.notes.length

/-- The number of warnings. -/
def warningCount (log : Log) : Nat := log.warnings.length

/-- The number of errors. -/
def errorCount (log : Log) : Nat := log.errors.length

/-- No error was recorded. -/
def hasNoErrors (log : Log) : Bool := log.errorCount == 0

/-- No warning was recorded. -/
def hasNoWarnings (log : Log) : Bool := log.warningCount == 0

/-- The text of a log: a line with a dash for each message. -/
def render (log : Log) : String :=
  "\n".intercalate (log.messages.map fun m => "- " ++ m.render)

end Log

/-- A stage of the analysis, as the origin of errors. -/
inductive Stage where
  /-- The grammar itself. -/
  | grammar
  /-- The checks of the grammar. -/
  | checks
  /-- The construction of the lexer. -/
  | lexer
deriving DecidableEq, Repr

/-- The name of a stage in messages. -/
def Stage.name : Stage → String
  | .grammar => "Grammar"
  | .checks => "SanityChecker"
  | .lexer => "LexerData"

/-- A build that was given up: the log, and the stage that recorded the errors. -/
structure BuildFailure where
  log : Log
  stage : Stage
deriving DecidableEq, Repr

/-- The text of a failed build. -/
def BuildFailure.render (e : BuildFailure) : String :=
  s!"Errors have occurred in {e.stage.name}:\n{e.log.render}\n"

end GrammarAnalysis
