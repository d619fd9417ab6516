import TableVault.Database
import TableVault.CommandLine.Arguments
import TableVault.CommandLine.Failure
import TableVault.CommandLine.Report

namespace TableVault.CommandLine

/-!
# Running commands

* `Outcome` — the exit code of a command and what it writes;
* `inspect` — opens an existing database, looks at it, and closes it again, whether
  looking succeeded or not;
* `run` — runs a command line on a file system.
-/

open Storage

/-- What a command leaves behind: its exit code and what it writes. -/
structure Outcome where
  exit : Nat
  output : String
  errors : String
  deriving DecidableEq, Repr

namespace Outcome

/-- A command that went well. -/
def success (output : String) : Outcome := ⟨0, output, ""⟩

/-- A command that failed, with an account of the failure. -/
def failure (account : String) : Outcome := ⟨1, "", "Error: " ++ account ++ "\n"⟩

end Outcome

/-- How the command line is used. -/
def usage : String :=
  lines ["Usage: kvnest [-p PATH] [--padlock TEXT] [-v] COMMAND", "",
    "  tables [-n NAMESPACE] [-f FORMAT]           list tables with their key counts",
    "  keys TABLE [-n NAMESPACE] [-f FORMAT]       list the keys of a table",
    "  namespaces [-n NAMESPACE] [-a] [-f FORMAT]  list nested namespaces",
    "  crypt-reset --yes                           delete every encrypted value",
    "  version                                     show the version"]

/-- The outcome of an action that gives the text to write. -/
def outcomeOf (x : Action Disk String) (d : Disk) : Outcome × Disk :=
  match x d with
  | .ok output d => (.success output, d)
  | .error e d => (.failure (describe e), d)

/-- Opens an existing database, looks at it, and lets go of it. -/
def inspect {α : Type} (file padlock : String) (fresh : Fresh) (look : Store → Action Durable α) :
    Action Disk α := do
  let (h, s) ← Database.openStore (Config.withCreateIfMissing {} false) file fresh
    (Utf8.encode padlock)
  fun d =>
    match Disk.through h (look s) d with
    | .ok a d => .ok a (d.release h)
    | .error e d => .error e (d.release h)

/-- The text that the crypt reset writes. -/
def resetText (removed : Nat) : String :=
  lines ["Removed " ++ toString removed ++ " encrypted records",
    "The next open seals a new master key under the padlock it is given"]

/-- The name that a missing database path is reported for. -/
def Command.name : Command → String
  | .tables .. => "tables"
  | .keys .. => "keys"
  | .namespaces .. => "namespaces"
  | .cryptReset .. => "crypt-reset"
  | .version => "version"

/-- Runs a command on a database file. -/
def runOn (file padlock : String) (fresh : Fresh) : Command → Disk → Outcome × Disk
  | .tables path format => outcomeOf do
    let r ← inspect file padlock fresh fun s => Inspect.tables s path
    return inFormat format (tablesText r) (tablesJson r)
  | .keys table path format => outcomeOf do
    let r ← inspect file padlock fresh fun s => Inspect.keys s path table
    return inFormat format (keysText table r) (keysJson r)
  | .namespaces path all format => outcomeOf do
    let r ← inspect file padlock fresh fun s => Inspect.namespaces s path all
    return inFormat format (namespacesText r) (namespacesJson r)
  | .cryptReset confirmed => fun d =>
    if confirmed then
      outcomeOf (do return resetText (← Database.cryptReset {} file)) d
    else
      (.failure (Quoted.quote
        "crypt-reset deletes every encrypted value; pass --yes to continue"), d)
  | .version => fun d => (.success (line "kvnest CLI v0.3.0"), d)

/-- Runs what a command line asks for. Every command but that for the version needs the
    path of a database. -/
def runInvocation (i : Invocation) (fresh : Fresh) (d : Disk) : Outcome × Disk :=
  match i.command, i.file with
  | .version, _ => runOn "" i.padlock fresh .version d
  | command, some file => runOn file i.padlock fresh command d
  | command, none =>
    (.failure (Quoted.quote ("Database path required for " ++ command.name)), d)

/-- Runs a command line. -/
def run (arguments : List String) (fresh : Fresh) (d : Disk) : Outcome × Disk :=
  match Request.ofArguments arguments with
  | .run i => runInvocation i fresh d
  | .help => (.success usage, d)
  | .version => (.success (line "kvnest 0.3.0"), d)
  | .misuse => (⟨2, "", usage⟩, d)

end TableVault.CommandLine
