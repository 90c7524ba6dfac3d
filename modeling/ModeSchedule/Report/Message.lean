/-
ModeSchedule.Report.Message — messages and how much they matter.

A report is a list of messages, each of a severity. The text of a message is
written only if the reader asks for its severity, since the messages that list
candidates are many and long.
-/

namespace ModeSchedule

inductive Severity where
  | trace
  | debug
  | info
  | success
  | warning
  | error
  | critical
deriving Repr, DecidableEq

namespace Severity

def rank : Severity → Nat
  | trace => 5
  | debug => 10
  | info => 20
  | success => 25
  | warning => 30
  | error => 40
  | critical => 50

/-- Names are in capitals. -/
def ofName? : String → Option Severity
  | "TRACE" => some trace
  | "DEBUG" => some debug
  | "INFO" => some info
  | "SUCCESS" => some success
  | "WARNING" => some warning
  | "ERROR" => some error
  | "CRITICAL" => some critical
  | _ => none

end Severity

structure Message where
  severity : Severity
  text : Unit → String

namespace Message

def debug (text : Unit → String) : Message := ⟨.debug, text⟩
def info (text : Unit → String) : Message := ⟨.info, text⟩
def warning (text : Unit → String) : Message := ⟨.warning, text⟩

/-- The texts of the messages of at least a severity, in order. -/
def select (least : Severity) (messages : List Message) : List String :=
  (messages.filter fun m => least.rank ≤ m.severity.rank).map fun m => m.text ()

end Message
end ModeSchedule
