/-! # Paths that cannot be opened

  The reasons for which a file or a port cannot be opened, each with the number
  and the words of the operating system. The words stand alone where a port is
  meant; with a file the number is said too.
-/

namespace Reflash

/-- Why nothing can be opened at a path, or no bytes be put there. -/
inductive PathError where
  /-- It leads to something, or through something, that is not there. -/
  | missing
  | failed
  /-- It leads to a device with nothing behind it. -/
  | noDevice
  | denied
  /-- It leads through a file as if that were a directory. -/
  | notDirectory
  | isDirectory
  /-- There is a NUL in it. -/
  | nul
  /-- It leads to a device that refuses what is asked of it. -/
  | invalid
  /-- It leads to a file, and a port is wanted. -/
  | notTerminal
  /-- It leads to a program that is running. -/
  | busy
  | noSpace
  /-- It is too long as a whole, or one name in it is. -/
  | tooLong
deriving DecidableEq, Inhabited

namespace PathError

/-- All the reasons. -/
def all : List PathError :=
  [missing, failed, noDevice, denied, notDirectory, isDirectory, nul, invalid, notTerminal, busy,
    noSpace, tooLong]

/-- The number that the operating system has for the reason. -/
def number : PathError → Nat
  | missing => 2
  | failed => 5
  | noDevice => 6
  | denied => 13
  | notDirectory => 20
  | isDirectory => 21
  | nul => 22
  | invalid => 22
  | notTerminal => 25
  | busy => 26
  | noSpace => 28
  | tooLong => 36

/-- The words that the operating system has for the reason. -/
def text : PathError → String
  | missing => "No such file or directory"
  | failed => "Input/output error"
  | noDevice => "No such device or address"
  | denied => "Permission denied"
  | notDirectory => "Not a directory"
  | isDirectory => "Is a directory"
  | nul => "Invalid argument"
  | invalid => "Invalid argument"
  | notTerminal => "Not a typewriter"
  | busy => "Text file busy"
  | noSpace => "No space left on device"
  | tooLong => "File name too long"

/-- What is said when a file cannot be opened or filled. A name with a NUL in it is
    not even shown to the operating system, so there is no number for it. -/
def message : PathError → String
  | nul => "file name contained an unexpected NUL byte"
  | e => e.text ++ " (os error " ++ toString e.number ++ ")"

/-- The reason with this number. -/
def ofNumber? (number : Nat) : Option PathError :=
  all.find? fun e => e.number = number

end PathError

end Reflash
