import Reflash.Word
import Reflash.Tool.PathError
/-! # What is around the directory

  The directory of a desk is one of many on a system. Of the others this much is
  known: which directories every system has, which of their names lead elsewhere,
  and which names stand for files of the system's own.

  The contents of those files are not known here and count as empty, and what is put
  into one is gone, unless it is one of the streams in which the program itself
  speaks.
  A way that ends in a slash leads to a directory; the empty way leads to the
  directory of the desk.
-/

namespace Reflash

/-- Where a run of the program says something. -/
inductive Stream where
  /-- What it prints. -/
  | output
  /-- What it warns of. -/
  | errors
deriving DecidableEq, Inhabited

/-- A file of the system itself: what comes of opening it. -/
structure SystemFile where
  /-- Why it cannot be read. -/
  unreadable : Option PathError := none
  /-- Why it cannot be opened to put something in. -/
  unwritable : Option PathError := none
  /-- Why it takes no bytes, though it can be opened to put something in. -/
  full : Option PathError := none
  /-- Where bytes put into it come out again. -/
  stream : Option Stream := none
  /-- Why it is no port. -/
  notPort : PathError := .notTerminal
deriving DecidableEq, Inhabited

namespace SystemFile

/-- What comes of putting bytes into a file of the system. To put none there always
    works once it is open. -/
def give (file : SystemFile) (bytes : Bytes) : Except PathError Unit :=
  match file.unwritable with
  | some reason => .error reason
  | none =>
    match file.full with
    | some reason => if bytes.isEmpty then .ok () else .error reason
    | none => .ok ()

end SystemFile

/-- What a name on the system stands for. -/
inductive Fixture where
  /-- A directory, and the way to it. -/
  | directory (way : String)
  | file (file : SystemFile)
deriving DecidableEq, Inhabited

namespace Surroundings

/-- The way to the directory that is above that of the desk. -/
def home : String := "/tmp/"

/-- The directories of the system, without the root. -/
def directories : List String :=
  ["/boot", "/dev", "/etc", "/home", "/media", "/mnt", "/opt", "/proc", "/root", "/run", "/srv",
    "/sys", "/tmp", "/usr", "/var",
    "/dev/pts", "/dev/shm",
    "/etc/alternatives", "/etc/apt", "/etc/cron.d", "/etc/default", "/etc/init.d", "/etc/opt",
    "/etc/pam.d", "/etc/profile.d", "/etc/security", "/etc/skel", "/etc/ssl", "/etc/ssl/certs",
    "/proc/1", "/proc/bus", "/proc/driver", "/proc/fs", "/proc/irq", "/proc/self",
    "/proc/self/attr", "/proc/self/fd", "/proc/self/fdinfo", "/proc/self/map_files",
    "/proc/self/net", "/proc/self/ns", "/proc/self/task", "/proc/sys",
    "/proc/sys/fs", "/proc/sys/kernel", "/proc/sys/net", "/proc/sys/vm", "/proc/sysvipc",
    "/proc/tty", "/run/lock",
    "/sys/block", "/sys/bus", "/sys/class", "/sys/class/net", "/sys/class/tty", "/sys/dev",
    "/sys/devices", "/sys/firmware", "/sys/fs", "/sys/fs/cgroup", "/sys/kernel", "/sys/module",
    "/sys/power",
    "/usr/bin", "/usr/games", "/usr/include", "/usr/lib", "/usr/lib64", "/usr/libexec",
    "/usr/local", "/usr/sbin", "/usr/share", "/usr/src",
    "/usr/local/bin", "/usr/local/etc", "/usr/local/games", "/usr/local/include",
    "/usr/local/lib", "/usr/local/sbin", "/usr/local/share", "/usr/local/src", "/usr/share/doc",
    "/usr/share/man",
    "/var/backups", "/var/cache", "/var/cache/apt", "/var/lib", "/var/lib/apt", "/var/lib/dpkg",
    "/var/local", "/var/log", "/var/mail", "/var/opt", "/var/spool", "/var/tmp"]

/-- The names that lead to a directory elsewhere, and the ways to those. -/
def links : List (String × String) :=
  [("/bin", "/usr/bin/"), ("/lib", "/usr/lib/"), ("/lib64", "/usr/lib64/"),
    ("/sbin", "/usr/sbin/"), ("/var/run", "/run/"), ("/var/lock", "/run/lock/"),
    ("/dev/fd", "/proc/self/fd/"), ("/proc/net", "/proc/self/net/"),
    ("/proc/thread-self", "/proc/self/"), ("/proc/self/root", "/"), ("/proc/self/cwd", "")]

/-- A file of which nothing more is known. -/
def plainFile : SystemFile := { }

/-- A file that only tells something about the system. -/
def report : SystemFile := { full := some .failed }

/-- A file that only tells something about the program that is running. -/
def selfReport : SystemFile := { full := some .invalid }

/-- What a run of the program says, as a file. -/
def streamFile (stream : Stream) : SystemFile := { stream := some stream }

/-- A source of chance. -/
def chance : SystemFile := { notPort := .invalid }

/-- The terminal of a program that has none. -/
def noTerminal : SystemFile :=
  { unreadable := some .noDevice, unwritable := some .noDevice, notPort := .noDevice }

/-- The program that is running. -/
def ownProgram : SystemFile := { unwritable := some .busy, notPort := .busy }

/-- The names of the files that tell something about the system. -/
def reports : List String :=
  ["buddyinfo", "cgroups", "cmdline", "consoles", "cpuinfo", "crypto", "devices", "diskstats",
    "filesystems", "interrupts", "iomem", "ioports", "kallsyms", "keys", "loadavg", "locks",
    "meminfo", "misc", "modules", "pagetypeinfo", "partitions", "slabinfo", "softirqs", "stat",
    "swaps", "timer_list", "uptime", "version", "vmallocinfo", "vmstat", "zoneinfo"]

/-- The names of the files that tell something about the program that is running. -/
def selfReports : List String :=
  ["auxv", "cgroup", "cmdline", "cpuset", "environ", "io", "limits", "maps", "mountinfo",
    "mounts", "mountstats", "numa_maps", "oom_score", "personality", "schedstat", "sessionid",
    "smaps", "smaps_rollup", "stack", "stat", "statm", "status", "syscall", "timers", "wchan"]

/-- The files of the system, by their full names. -/
def files : List (String × SystemFile) :=
  [("/dev/null", plainFile), ("/dev/zero", plainFile), ("/dev/full", { full := some .noSpace }),
    ("/dev/random", chance), ("/dev/urandom", chance), ("/dev/tty", noTerminal),
    ("/dev/stdin", plainFile), ("/dev/stdout", streamFile .output),
    ("/dev/stderr", streamFile .errors), ("/dev/ptmx", plainFile),
    ("/proc/self/fd/0", plainFile), ("/proc/self/fd/1", streamFile .output),
    ("/proc/self/fd/2", streamFile .errors), ("/proc/self/exe", ownProgram),
    ("/proc/self/comm", plainFile), ("/proc/mounts", selfReport),
    ("/etc/passwd", plainFile), ("/etc/group", plainFile), ("/etc/shadow", plainFile),
    ("/etc/hostname", plainFile), ("/etc/hosts", plainFile), ("/etc/resolv.conf", plainFile),
    ("/etc/os-release", plainFile), ("/etc/fstab", plainFile), ("/etc/profile", plainFile),
    ("/etc/shells", plainFile), ("/usr/bin/cat", plainFile), ("/usr/bin/env", plainFile),
    ("/usr/bin/false", plainFile), ("/usr/bin/ls", plainFile), ("/usr/bin/sh", plainFile),
    ("/usr/bin/true", plainFile), ("/usr/bin/tty", plainFile)]
  ++ reports.map (fun name => ("/proc/" ++ name, report))
  ++ selfReports.map (fun name => ("/proc/self/" ++ name, selfReport))

/-- What a name stands for, by the way to its directory. -/
def find? (way name : String) : Option Fixture :=
  let path := way ++ name
  if directories.contains path then some (.directory (path ++ "/"))
  else match links.lookup path with
    | some target => some (.directory target)
    | none => (files.lookup path).map .file

/-- The way to the directory above. Nothing is above the root. -/
def above (way : String) : String :=
  if way.isEmpty then home
  else "/".intercalate (way.splitOn "/").dropLast.dropLast ++ "/"

/-- Why no file can be made in a directory. -/
def sealing? (way : String) : Option PathError :=
  if way.startsWith "/proc/" then some .missing
  else if way.startsWith "/sys/" || way = "/dev/pts/" then some .denied
  else none

/-- The longest name that a file can have, in bytes. -/
def longestName : Nat := 255

/-- Whether a name is too long for a directory. What the system tells of itself has
    no limit on names. -/
def tooLong (way name : String) : Bool :=
  longestName < name.utf8ByteSize && !way.startsWith "/proc/" && !way.startsWith "/sys/"

end Surroundings

end Reflash
