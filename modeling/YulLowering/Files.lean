/-!
# Files

The few things the command line does with files, over any monad that provides them, and a system of
files in memory that provides them purely. A path is followed name by name from the root or from the
working directory; the first name that leads nowhere decides why a file cannot be had.
-/

namespace YulLowering

/-- Why a file cannot be read or written. -/
inductive FileFault where
  | notFound
  | notDirectory
  | isDirectory
  | nameTooLong
  /-- The path has a character in it that ends every path. -/
  | cutOff
  | notText
  | other (words : String)
deriving DecidableEq, Repr, Inhabited

/-- The words for a file fault, as the operating system has them where it is the one to find it. -/
def FileFault.message : FileFault → String
  | notFound => "No such file or directory (os error 2)"
  | notDirectory => "Not a directory (os error 20)"
  | isDirectory => "Is a directory (os error 21)"
  | nameTooLong => "File name too long (os error 36)"
  | cutOff => "file name contained an unexpected NUL byte"
  | notText => "stream did not contain valid UTF-8"
  | other words => words

/-- The text that the bytes of a file encode. -/
def decodeText (content : ByteArray) : Except FileFault String :=
  match String.fromUTF8? content with
  | some text => .ok text
  | none => .error .notText

/-- Access to files. -/
structure FileAccess (m : Type → Type) where
  /-- Whether there is a file, as opposed to a directory or nothing. -/
  isFile : String → m Bool
  read : String → m (Except FileFault ByteArray)
  /-- Make a text the whole content of a file, which need not be there yet. -/
  write : String → String → m (Except FileFault Unit)

/-- Read a file that holds text. -/
def FileAccess.readText {m : Type → Type} [Monad m] (files : FileAccess m) (path : String) :
    m (Except FileFault String) := do
  return (← files.read path) >>= decodeText

/-- A path taken apart. -/
structure Path where
  /-- Whether the path starts at the root. -/
  absolute : Bool
  /-- The names on the way, dots included. -/
  names : List String
  /-- Whether the path ends in a slash, which only a directory may. -/
  directory : Bool
deriving DecidableEq, Repr, Inhabited

namespace Path

/-- How many bytes a name may have. -/
def nameLimit : Nat := 255

/-- How many bytes a path may have. -/
def pathLimit : Nat := 4095

/-- Take a path apart. -/
def ofString (path : String) : Except FileFault Path :=
  if path.contains '\x00' then .error .cutOff
  else if path.isEmpty then .error .notFound
  else if path.utf8ByteSize > pathLimit then .error .nameTooLong
  else
    .ok
      { absolute := path.startsWith "/"
        names := (path.splitOn "/").filter fun name => name != ""
        directory := path.endsWith "/" }

end Path

/-- The names that lead from the root to a file or to a directory. -/
abbrev Place := List String

/-- Files in memory. -/
structure FileSystem where
  /-- The directory where relative paths start. -/
  workingDirectory : Place
  /-- Directories that are there whether or not they hold a file. -/
  directories : List Place
  /-- The content of files; the first one of a place counts. -/
  files : List (Place × ByteArray)

namespace FileSystem

/-- Put a file into the system, in place of the one that is there. -/
def insert (system : FileSystem) (place : Place) (content : ByteArray) : FileSystem :=
  { system with files := (place, content) :: system.files }

/-- The content of a file. -/
def content? (system : FileSystem) (place : Place) : Option ByteArray :=
  system.files.lookup place

/-- A file that has been put into the system is there, and the others are as they were. -/
theorem content?_insert (system : FileSystem) (place other : Place) (content : ByteArray) :
    (system.insert place content).content? other =
      if other = place then some content else system.content? other := by
  by_cases same : other = place
  · simp only [insert, content?, List.lookup_cons, same, beq_self_eq_true, if_true]
  · simp only [insert, content?, List.lookup_cons, beq_false_of_ne same, if_neg same]

/-- Whether there is a directory: one that is known of, or one that something else lies in. -/
def isDirectory (system : FileSystem) (place : Place) : Bool :=
  place.isPrefixOf system.workingDirectory ||
    system.directories.any (fun other => place.isPrefixOf other) ||
    system.files.any fun (other, _) => place.isPrefixOf other && place.length < other.length

/-- The root is a directory. -/
@[simp] theorem isDirectory_root (system : FileSystem) : system.isDirectory [] = true := by
  simp [isDirectory]

/-- Follow one name. Each directory leads to itself by one dot and to the one it lies in by two; the
root lies in itself. -/
def follow (system : FileSystem) (place : Place) (name : String) : Except FileFault Place :=
  if ¬ system.isDirectory place then .error .notDirectory
  else if name = "." then .ok place
  else if name = ".." then .ok place.dropLast
  else if name.utf8ByteSize > Path.nameLimit then .error .nameTooLong
  else
    let next := place ++ [name]
    if system.isDirectory next ∨ (system.content? next).isSome then .ok next else .error .notFound

/-- Where a path starts. -/
def start (system : FileSystem) (path : Path) : Place :=
  if path.absolute then [] else system.workingDirectory

/-- The content of the file that a path leads to. -/
def find (system : FileSystem) (text : String) : Except FileFault ByteArray := do
  let path ← Path.ofString text
  let place ← path.names.foldlM system.follow (system.start path)
  match system.content? place with
  | some content => if path.directory then .error .notDirectory else .ok content
  | none => .error .isDirectory

/-- The place of the file that a path names. All names but the last one have to lead to directories,
and the last one has to be a name that a file can have. -/
def placeOf (system : FileSystem) (text : String) : Except FileFault Place := do
  let path ← Path.ofString text
  let parent ← path.names.dropLast.foldlM system.follow (system.start path)
  if ¬ system.isDirectory parent then .error .notDirectory
  else
    match path.names.getLast? with
    | none | some "." | some ".." => .error .isDirectory
    | some name =>
      if path.directory ∨ system.isDirectory (parent ++ [name]) then .error .isDirectory
      else if name.utf8ByteSize > Path.nameLimit then .error .nameTooLong
      else .ok (parent ++ [name])

/-- Access to the files of a system. -/
def access : FileAccess (StateM FileSystem) where
  isFile path := do return (← get).find path |>.isOk
  read path := do return (← get).find path
  write path text := do
    match (← get).placeOf path with
    | .ok place =>
      modify fun system => system.insert place text.toUTF8
      return .ok ()
    | .error fault => return .error fault

end FileSystem

end YulLowering
