import Schemata.Text.Basic

/-! # Files

What commands ask of the file system, as a structure of operations, and an instance that keeps the
files in memory. -/

namespace Schemata.Cli

/-- Why a file cannot be read or written. -/
inductive FileFault
  | notFound
  | alreadyExists
  | notADirectory
  | isADirectory
  | other (text : String)
deriving DecidableEq, Repr

/-- The words for a fault. -/
def FileFault.message : FileFault → String
  | notFound => "No such file or directory (os error 2)"
  | alreadyExists => "File exists (os error 17)"
  | notADirectory => "Not a directory (os error 20)"
  | isADirectory => "Is a directory (os error 21)"
  | other text => text

/-- What commands need of their surroundings. -/
structure Host (m : Type → Type) where
  /-- The path of the working directory. -/
  directory : String
  /-- Whether a file or directory exists. -/
  exists? : String → m Bool
  /-- The text of a file. -/
  read : String → m (Except FileFault String)
  /-- Writes a file. -/
  write : String → String → m (Except FileFault Unit)
  /-- Makes a directory and those above it, unless they exist. -/
  makeDirectory : String → m (Except FileFault Unit)
  /-- The standard input. -/
  input : m String

/-! ### Paths -/

/-- Whether a path starts at the root. -/
def isAbsolute (path : String) : Bool := Text.headSatisfies (· == '/') path

/-- A path below a directory. -/
def joinPath (directory path : String) : String :=
  if isAbsolute path then path else directory ++ "/" ++ path

/-- The parts of a list between separators. -/
def splitAt (separator : Char) : List Char → List (List Char)
  | [] => [[]]
  | c :: r =>
    if c = separator then [] :: splitAt separator r
    else
      match splitAt separator r with
      | [] => [[c]]
      | part :: rest => (c :: part) :: rest

/-- The names in a path.  A slash at the end asks for a directory, as a last name `.` does. -/
def pathNames (path : String) : List String :=
  let parts := (splitAt '/' path.toList).map String.ofList
  parts.filter (!·.isEmpty) ++ if parts.getLast? = some "" then ["."] else []

/-- The path of the directory that a path lies in. -/
def parentPath (path : String) : String :=
  let names := (pathNames path).reverse.dropWhile (· == ".")
  (if isAbsolute path then "/" else "") ++ "/".intercalate (names.drop 1).reverse

/-- Whether a path is the one that stands for the standard input. -/
def isInputPath (path : String) : Bool :=
  !isAbsolute path && (pathNames path).head? == some "-" && (pathNames path).tail.all (· == ".")

/-- A character in a path between quotes. -/
def quotedPathChar (c : Char) : List Char :=
  if c = '"' ∨ c = '\\' then ['\\', c]
  else if c = '\n' then ['\\', 'n']
  else if c = '\r' then ['\\', 'r']
  else if c = '\t' then ['\\', 't']
  else if c.toNat = 0 then ['\\', '0']
  else if c.toNat < 0x20 ∨ (0x7F ≤ c.toNat ∧ c.toNat < 0xA0) then
    ['\\', 'u', '\x7b'] ++ Nat.toDigits 16 c.toNat ++ ['\x7d']
  else [c]

/-- A path between quotes, as messages give it. -/
def quotedPath (path : String) : String :=
  String.ofList ('"' :: path.toList.flatMap quotedPathChar ++ ['"'])

/-! ### Files in memory -/

/-- Files below a directory, by the names in their paths. -/
abbrev Files := List (List String × String)

/-- What a path leads to. -/
inductive Entry
  | file (text : String)
  | directory
deriving DecidableEq, Repr

namespace Files

/-- What the names lead to.  A directory exists where a file lies in it. -/
def entry? (files : Files) (names : List String) : Option Entry :=
  match files.lookup names with
  | some text => some (.file text)
  | none =>
    if names.isEmpty || files.any (fun (path, _) => names.isPrefixOf path) then some .directory
    else none

/-- Follows the names of a path from a place. -/
def walk (files : Files) (place : List String) : List String → Except FileFault (List String)
  | [] => .ok place
  | name :: rest =>
    match files.entry? place with
    | none => .error .notFound
    | some (.file _) => .error .notADirectory
    | some .directory =>
      if name = "." then files.walk place rest
      else if name = ".." then
        if place.isEmpty then .error .notFound else files.walk place.dropLast rest
      else files.walk (place ++ [name]) rest

/-- What a path leads to. -/
def find (files : Files) (names : List String) : Except FileFault Entry :=
  (files.walk [] names).bind fun place =>
    match files.entry? place with
    | some entry => .ok entry
    | none => .error .notFound

/-- The text of a file. -/
def read (files : Files) (names : List String) : Except FileFault String :=
  (files.find names).bind fun entry =>
    match entry with
    | .file text => .ok text
    | .directory => .error .isADirectory

/-- The place of a path, whether it exists or not; nothing for one outside. -/
def place? : List String → List String → Option (List String)
  | place, [] => some place
  | place, name :: rest =>
    if name = "." then place? place rest
    else if name = ".." then if place.isEmpty then none else place? place.dropLast rest
    else place? (place ++ [name]) rest

/-- Whether a directory can be made. -/
def makeDirectory (files : Files) (names : List String) : Except FileFault Unit :=
  match files.find names with
  | .ok .directory => .ok ()
  | .ok (.file _) => .error .alreadyExists
  | .error .notFound => .ok ()
  | .error fault => .error fault

/-- The files with one more, or with another text for one of them. -/
def write (files : Files) (names : List String) (text : String) : Except FileFault Files :=
  match place? [] names with
  | none => .ok files
  | some place =>
    match files.entry? place with
    | some .directory => .error .isADirectory
    | _ => .ok (files.filter (·.1 != place) ++ [(place, text)])

/-- The files that are not the same in `before`. -/
def changesSince (before files : Files) : Files :=
  files.filter fun (path, text) => before.lookup path != some text

/-- The path of a file. -/
def pathText (names : List String) : String := "/".intercalate names

/-- The files with the given paths. -/
def ofPaths (paths : List (String × String)) : Files :=
  paths.map fun (path, text) => (pathNames path, text)

/-- The names of a path below the working directory; nothing for one outside. -/
def below? (directory path : String) : Option (List String) :=
  let start := (directory ++ "/").toList
  if start.isPrefixOf path.toList then
    some (pathNames (String.ofList (path.toList.drop start.length)))
  else none

end Files

/-- Files in memory as surroundings, with the given standard input. -/
def memoryHost (directory input : String) : Host (StateM Files) where
  directory
  exists? path := do
    let files ← get
    match Files.below? directory path with
    | some names => pure (files.find names).isOk
    | none => pure false
  read path := do
    let files ← get
    match Files.below? directory path with
    | some names => pure (files.read names)
    | none => pure (.error .notFound)
  write path text := do
    let files ← get
    match Files.below? directory path with
    | none => pure (.ok ())
    | some names =>
      match files.write names text with
      | .ok files => do
        set files
        pure (.ok ())
      | .error fault => pure (.error fault)
  makeDirectory path := do
    let files ← get
    match Files.below? directory path with
    | some names => pure (files.makeDirectory names)
    | none => pure (.ok ())
  input := pure input

end Schemata.Cli
