import ApiTypings.CommandLine.Arguments

/-!
The help text of the command line.
-/

namespace ApiTypings.CommandLine

/-- What an option is for. -/
def Action.purpose : Action → String
  | .help => "show this help and stop"
  | .store .input => "the API description, a JSON object of type names and records"
  | .store .output => "where the text is stored instead of being written to the standard output"
  | .store .format => "what is generated: " ++ Text.join " or " formatChoices
  | .set .noEventTypes => "leave out event types and narrowed subscriptions"
  | .set .inheritance => "write the extends clauses of classes"
  | .store .rootName => "the name of the global scope in the description"
  | .store .baseEventType => "the type of events without a payload"
  | .set .dumpConfig => "show the settings and stop"
  | .set .json => "show the result of the run instead of the text"
  | .store .logFile => "a file that the log is written to as well"
  | .set .debug => "log everything"

/-- How an option is written, with the word that stands for its value. -/
def Action.shape (a : Action) : String :=
  Text.join ", " a.names ++ (if a.takesValue then " VALUE" else "")

/-- The help text: one line for each option. -/
def helpText : String :=
  "usage: tidocgen [options]\n\n" ++
    String.join (Action.all.map fun a => "  " ++ a.shape ++ ": " ++ a.purpose ++ "\n")

end ApiTypings.CommandLine
