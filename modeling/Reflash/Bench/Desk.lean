import Reflash.Bench.Surroundings
import Reflash.Tool.Program
/-! # The tool on the bench

  A desk is all that a run of the tool needs: a directory of files, what was
  printed, and one port. What is at the far end of the port is up to the type of
  the desk: anything that takes frames and has something to say to them.
-/

namespace Reflash

/-- Something that can be at the far end of a port. -/
class FarEnd (π : Type) where
  /-- What becomes of a frame, and what the far end is like after it. -/
  take : π → Bytes → Delivery × π

/-- A desk. -/
structure Desk (π : Type) where
  /-- The files, each by the way to it from the directory. -/
  files : List (String × Bytes)
  printed : String
  warned : String
  /-- Whether the streams of the system are what is printed and warned of here, and not
      those of a program around the desk. -/
  ownStreams : Bool
  /-- The name of the port, if there is one. -/
  port : Option String
  /-- What is said about a port that is not there; if nothing is, it is what is
      said about the path. -/
  noPort : Option String
  farEnd : π
  /-- What has arrived and was not looked at. -/
  buffer : List Arrival
  /-- The frames sent, the latest first. -/
  frames : List Bytes
deriving Inhabited

namespace Desk

variable {π : Type}

/-- A desk with files and no port. -/
def bare (files : List (String × Bytes)) (farEnd : π) : Desk π :=
  { files, printed := "", warned := "", ownStreams := true, port := none, noPort := none, farEnd
    buffer := [], frames := [] }

/-! ### Files -/

/-- The longest path that can be followed, in bytes. -/
def longestPath : Nat := 4095

/-- What a path leads to. -/
inductive Place where
  | directory
  /-- A file, which need not be there, by the way to it from the directory. -/
  | file (name : String)
  | system (file : SystemFile)
  /-- Nothing, and no file can be made there for this reason. -/
  | barren (reason : PathError)
  /-- Something that is no directory, though a slash behind it says so. Nothing can
      be opened there, for this reason; saving there is refused without a look. -/
  | slashed (reason : PathError)
deriving DecidableEq, Inhabited

/-- The contents of a file, by the way to it from the directory. -/
def file? (d : Desk π) (name : String) : Option Bytes :=
  (d.files.find? fun f => f.1 = name).map Prod.snd

/-- The files that are in the directory itself. -/
def filesInside (d : Desk π) : List (String × Bytes) :=
  d.files.filter fun f => !f.1.contains '/'

/-- Why a name that the system does not have is no way to go on. The length of the
    name comes before the question of what is there. -/
def blocked (d : Desk π) (way name : String) : PathError :=
  if Surroundings.tooLong way name then .tooLong
  else if (d.file? (way ++ name)).isSome then .notDirectory
  else .missing

/-- What a name at the end of a path leads to, if the system does not have it. -/
def lastPlace (way name : String) : Except PathError Place :=
  if Surroundings.tooLong way name then .error .tooLong
  else match Surroundings.sealing? way with
    | some reason => .ok (.barren reason)
    | none => .ok (.file (way ++ name))

/-- Walk along names, from the directory at the end of a way; a slash may stand
    behind the last name. -/
def walk (d : Desk π) (slash : Bool) (way : String) : List String → Except PathError Place
  | [] => .ok .directory
  | name :: rest =>
    if name = "." then d.walk slash way rest
    else if name = ".." then d.walk slash (Surroundings.above way) rest
    else match Surroundings.find? way name with
      | some (.directory there) => d.walk slash there rest
      | some (.file file) =>
        if !rest.isEmpty then .error .notDirectory
        else .ok (if slash then .slashed .notDirectory else .system file)
      | none =>
        if !rest.isEmpty then .error (d.blocked way name)
        else if slash then .ok (.slashed (d.blocked way name))
        else lastPlace way name

/-- What a path leads to. A NUL in it is seen first, then its length, and then the
    names one by one. -/
def place (d : Desk π) (path : String) : Except PathError Place :=
  let parts := path.splitOn "/"
  if path.contains '\x00' then .error .nul
  else if longestPath < path.utf8ByteSize then .error .tooLong
  else if path.isEmpty then .error .missing
  else d.walk (parts.getLast? = some "") (if parts.head? = some "" then "/" else "")
    (parts.filter (· != ""))

/-- The contents of the file of a name. -/
def contents (d : Desk π) (name : String) : Except PathError Bytes :=
  match d.file? name with
  | some bytes => .ok bytes
  | none => .error .missing

/-- The contents of what is at a path, or what is said instead. -/
def fetch (d : Desk π) (path : String) : Except String Bytes :=
  Except.mapError PathError.message <|
    match d.place path with
    | .error reason | .ok (.slashed reason) => .error reason
    | .ok .directory => .error .isDirectory
    | .ok (.file name) => d.contents name
    | .ok (.system file) => (file.unreadable.map .error).getD (.ok [])
    | .ok (.barren _) => .error .missing

/-- Put bytes into the file of a name. -/
def withFile (d : Desk π) (name : String) (bytes : Bytes) : Desk π :=
  { d with files := d.files.filter (fun f => f.1 != name) ++ [(name, bytes)] }

/-- Print something. -/
def print (d : Desk π) (text : String) : Desk π := { d with printed := d.printed ++ text }

/-- Warn of something. -/
def warn (d : Desk π) (text : String) : Desk π := { d with warned := d.warned ++ text }

/-- Let bytes come out of a stream, to be seen as text. -/
def flow (d : Desk π) (stream : Option Stream) (bytes : Bytes) : Desk π :=
  if d.ownStreams then
    match stream with
    | none => d
    | some .output => d.print (Utf8.text bytes)
    | some .errors => d.warn (Utf8.text bytes)
  else d

/-- Put bytes into what is at a path. -/
def save (d : Desk π) (path : String) (bytes : Bytes) : Except String Unit × Desk π :=
  match d.place path with
  | .error reason | .ok (.barren reason) => (.error reason.message, d)
  | .ok .directory | .ok (.slashed _) => (.error PathError.isDirectory.message, d)
  | .ok (.file name) => (.ok (), d.withFile name bytes)
  | .ok (.system file) =>
    match file.give bytes with
    | .ok () => (.ok (), d.flow file.stream bytes)
    | .error reason => (.error reason.message, d)

/-! ### The port -/

/-- Why a path is no port. -/
def notPort (d : Desk π) (path : String) : PathError :=
  match d.place path with
  | .error reason | .ok (.slashed reason) => reason
  | .ok .directory => .isDirectory
  | .ok (.file name) => if (d.file? name).isSome then .notTerminal else .missing
  | .ok (.system file) => file.notPort
  | .ok (.barren _) => .missing

/-- What is said about a path that is no port. -/
def noPortText (d : Desk π) (path : String) : String :=
  d.noPort.getD (d.notPort path).text

/-- Open a port. -/
def connect (d : Desk π) (path : String) : Except String Unit :=
  if d.port = some path then .ok () else .error (d.noPortText path)

/-- Send a frame to the far end. -/
def transmit [FarEnd π] (d : Desk π) (frame : Bytes) : Delivery × Desk π :=
  let (delivery, farEnd) := FarEnd.take d.farEnd frame
  match delivery with
  | .notWritten _ => (delivery, { d with farEnd })
  | _ => (delivery, { d with farEnd, frames := frame :: d.frames })

/-- What it means at a desk that nothing more arrives. -/
def quiet : Failure := .portRead "line closed"

instance [FarEnd π] : Host (StateM (Desk π)) where
  fetch path := do return (← get).fetch path
  save path bytes := modifyGet fun d => d.save path bytes
  print text := modify fun d => d.print text
  warn text := modify fun d => d.warn text
  connect path := do return (← get).connect path
  arrived := do return (← get).buffer
  keep rest := modify fun d => { d with buffer := rest }
  transmit frame _ := modifyGet fun d => d.transmit frame
  quiet := return quiet

/-- Carry out a command line at the desk. -/
def run [FarEnd π] (d : Desk π) (invocation : Invocation) : Except Failure Unit × Desk π :=
  ((Tool.run invocation : ExceptT Failure (StateM (Desk π)) Unit).run).run d

end Desk

end Reflash
