import MiniC.CommandLine.Host

/-!
# A directory as surroundings

A `Directory` is a host that lives in memory : the files of one directory, and all that was printed.
It holds no directory, and those above it hold nothing that could be read or written. So a path
leads to a directory, to one of the files, through a file, or nowhere.
-/

namespace MiniC.CommandLine

/-- Where a path leads. -/
inductive Target where
  /-- To the directory itself or to one above it. -/
  | directory
  /-- To the file of that name; `slash` when a slash stands behind the name. -/
  | file (name : String) (slash : Bool)
  /-- Into a directory called `name`. -/
  | inside (name : String)
  | nowhere
deriving DecidableEq, Inhabited, Repr

namespace Target

/-- Whether a part of a path names no entry of a directory. -/
def isDots (part : String) : Bool := part = "" || part = "." || part = ".."

/-- Where the parts of a path lead from the directory on. -/
def ofParts : List String → Target
  | [] => .directory
  | part :: parts =>
    if part = "" ∨ part = "." then ofParts parts
    else if part = ".." then .nowhere
    else if parts = [] then .file part false
    else if parts.all (· = "") then .file part true
    else .inside part

/-- Where a path leads. -/
def ofPath (path : String) : Target :=
  let parts := path.splitOn "/"
  if parts.all isDots then .directory
  else if parts.head? = some "" then .nowhere
  else ofParts parts

end Target

/-- The files of a directory, and what was printed. -/
structure Directory where
  files : List (String × ByteArray)
  output : String
  complaints : List String
deriving Inhabited

namespace Directory

/-- A directory with these files, before anything is printed. -/
def ofFiles (files : List (String × ByteArray)) : Directory := ⟨files, "", []⟩

/-- The bytes of the file called `name`. -/
def find? (d : Directory) (name : String) : Option ByteArray := d.files.lookup name

/-- Whether there is a file called `name`. -/
def holds (d : Directory) (name : String) : Bool := (d.find? name).isSome

/-- The directory with `bytes` as the file called `name`. -/
def put (d : Directory) (name : String) (bytes : ByteArray) : Directory :=
  { d with files := d.files.filter (·.1 ≠ name) ++ [(name, bytes)] }

/-- The bytes of the file at a path. -/
def read (d : Directory) (path : String) : Except FileError ByteArray :=
  match Target.ofPath path with
  | .directory => .error .isDirectory
  | .file name slash =>
    match d.find? name with
    | some bytes => if slash then .error .notDirectory else .ok bytes
    | none => .error .notFound
  | .inside name => .error (if d.holds name then .notDirectory else .notFound)
  | .nowhere => .error .notFound

/-- The directory after a text was written to the file at a path. -/
def write (d : Directory) (path content : String) : Except FileError Directory :=
  match Target.ofPath path with
  | .directory => .error .isDirectory
  | .file name slash => if slash then .error .isDirectory else .ok (d.put name content.toUTF8)
  | .inside name => .error (if d.holds name then .notDirectory else .notFound)
  | .nowhere => .error .notFound

/-- A directory as surroundings of the program. -/
def host : Host (StateM Directory) where
  read path := do return (← get).read path
  write path content := do
    match (← get).write path content with
    | .ok d => do
      set d
      return .ok ()
    | .error e => return .error e
  print text := modify fun d => { d with output := d.output ++ text }
  complain line := modify fun d => { d with complaints := d.complaints ++ [line] }

end Directory

end MiniC.CommandLine
