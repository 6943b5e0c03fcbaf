/-!
# Programs

What the system says when something fails, how programs are started, given their input and end, and
a machine as what starts them.
-/

namespace ArgdownLens

/-- An error of the system: its wording, and whether it says that nobody reads what is written. -/
structure IoFault where
  text : String
  isBrokenPipe : Bool := false
  deriving DecidableEq, Repr

/-- How a program ended. -/
inductive ExitStatus where
  | code (n : Nat)
  | signal (n : Nat)
  deriving DecidableEq, Repr

namespace ExitStatus

/-- The names of the signals, from the first one on. -/
def signalNames : List String :=
  ["SIGHUP", "SIGINT", "SIGQUIT", "SIGILL", "SIGTRAP", "SIGABRT", "SIGBUS", "SIGFPE", "SIGKILL",
    "SIGUSR1", "SIGSEGV", "SIGUSR2", "SIGPIPE", "SIGALRM", "SIGTERM", "SIGSTKFLT", "SIGCHLD",
    "SIGCONT", "SIGSTOP", "SIGTSTP", "SIGTTIN", "SIGTTOU", "SIGURG", "SIGXCPU", "SIGXFSZ",
    "SIGVTALRM", "SIGPROF", "SIGWINCH", "SIGIO", "SIGPWR", "SIGSYS"]

/-- Whether the program ended well. -/
def isSuccess : ExitStatus → Bool
  | .code n => n == 0
  | .signal _ => false

/-- The exit code, if the program was not stopped by a signal. -/
def code? : ExitStatus → Option Nat
  | .code n => some n
  | .signal _ => none

/-- The wording of an end. -/
def text : ExitStatus → String
  | .code n => s!"exit status: {n}"
  | .signal n =>
    match signalNames[n - 1]? with
    | some name => s!"signal: {n} ({name})"
    | none => s!"signal: {n}"

end ExitStatus

/-- What a program left behind: how it ended, and what it wrote to its two outputs. -/
structure Completion where
  status : ExitStatus
  stdout : List UInt8 := []
  stderr : List UInt8 := []
  deriving DecidableEq, Repr

/-- How the writing of a program's input ended. -/
inductive Delivery where
  | finished
  | failed (fault : IoFault)
  | panicked
  deriving DecidableEq, Repr

/-- What comes of an input: how its writing ended, and what the program left behind, unless waiting
for that failed. -/
structure Exchange where
  delivery : Delivery := .finished
  ending : Except IoFault Completion

/-- A program that was started: what comes of an input, if it can be given one. -/
structure Child where
  exchange? : Option (List UInt8 → Exchange)

/-- A machine starts the program that a name means with its arguments, or says why it cannot. -/
structure Machine where
  start : (name : String) → (args : List String) → Except IoFault Child

end ArgdownLens
