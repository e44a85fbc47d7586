import DeviceApi.Command.Quotation
import DeviceApi.Files.Files

/-!
# Outcomes of commands

A command reads octets, writes octets to two streams and ends with a code. A negative code is
the number of a signal.
-/

namespace DeviceApi.Command

/-- The two streams that a command writes to: one for its answer and one for complaints. -/
inductive Stream where
  | out | err
  deriving DecidableEq, Repr

/-- What a command leaves behind. -/
structure Outcome where
  code : Int := 0
  /-- What has been written, in order. -/
  written : List (Stream × Octets) := []
  /-- Whether the command read its input to the end. -/
  readsInput : Bool := false

namespace Outcome

/-- What has been written to one of the streams. -/
def on (o : Outcome) (stream : Stream) : Octets :=
  o.written.flatMap fun (s, bytes) => if s = stream then bytes else []

/-- The outcome of a command that only writes. -/
def writes (bytes : Octets) : Outcome := { written := [(.out, bytes)] }

/-- The outcome of a command that only answers yes or no. -/
def answers (yes : Bool) : Outcome := { code := if yes then 0 else 1 }

/-- The outcome of a command that complains. -/
def complains (code : Int) (line : String) : Outcome :=
  { code, written := [(.err, octets (line ++ "\n"))] }

/-- What two commands that follow each other leave behind. A code other than zero stays. -/
def andThen (first second : Outcome) : Outcome :=
  { code := if second.code = 0 then first.code else second.code
    written := first.written ++ second.written
    readsInput := first.readsInput || second.readsInput }

/-- The outcome of a command that writes its answer only when it ends. -/
def delayed (o : Outcome) : Outcome :=
  { o with written := [(.err, o.on .err), (.out, o.on .out)] }

end Outcome

/-- Why a file is not read, in the words of the commands. -/
def reason : FileFault → String
  | .notFound _ => "No such file or directory"
  | .isDirectory _ => "Is a directory"
  | .notDirectory _ => "Not a directory"
  | .alreadyExists _ => "File exists"
  | .notText _ => "Invalid or incomplete multibyte or wide character"

/-!
## Surroundings of a command

A command is started in a folder, from which its paths lead on, and has an input, to which a path
of its own leads.
-/

/-- Folders that every system has. -/
def systemFolders : List String :=
  ["/", "/bin", "/dev", "/etc", "/home", "/lib", "/opt", "/proc", "/root", "/run", "/sbin", "/srv",
   "/sys", "/tmp", "/usr", "/usr/bin", "/usr/lib", "/usr/local", "/usr/sbin", "/usr/share", "/var",
   "/var/log", "/var/tmp"]

/-- The path of a folder of the system that another path leads to. -/
def isSystemFolder (path : String) : Bool :=
  let cs := path.toList.reverse.dropWhile (· == '/')
  path.startsWith "/" && systemFolders.contains ("/" ++ String.ofList (cs.reverse.drop 1))

/-- The path that nothing is read from and that keeps nothing. -/
def nullPath : String := "/dev/null"

/-- The path of the input. -/
def inputPath : String := "/dev/stdin"

variable {m : Type → Type} [Monad m]

/-- The files as a command sees them that is started in a folder with an input. -/
@[reducible] def surroundings (files : Files m) (folder : String) (input : Octets) : Files m :=
  let resolved (path : String) : String :=
    if folder == "" || path == "" || path.startsWith "/" then path
    else if folder.endsWith "/" then folder ++ path
    else folder ++ "/" ++ path
  { look path := do
      match ← files.look (resolved path) with
      | .missing => return if isSystemFolder (resolved path) then .folder else .missing
      | found => return found
    read path := do
      if path == nullPath then return .ok []
      else if path == inputPath then return .ok input
      else if isSystemFolder (resolved path) then return .error (.isDirectory path)
      else files.read (resolved path)
    write path bytes := do
      if path == nullPath then return .ok ()
      else if isSystemFolder (resolved path) then return .error (.isDirectory path)
      else files.write (resolved path) bytes
    makeFolder path := files.makeFolder (resolved path)
    list path := files.list (resolved path) }

end DeviceApi.Command
