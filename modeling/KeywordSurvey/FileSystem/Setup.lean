import KeywordSurvey.FileSystem.Resolve

/-!
# Making and removing things

How a file system comes to be: directories, files, links and pipes are made, and taken away. What
cannot be done changes nothing.
-/

namespace KeywordSurvey

namespace FileSystem

/-- Makes the directories on the way along the components that are missing, and yields the place at
the end of the way. -/
def makeAlong (fs : FileSystem) : Place → List Bytes → Option (FileSystem × Place)
  | place, [] => some (fs, place)
  | place, name :: rest =>
    if name = Path.here then makeAlong fs place rest
    else if name = Path.up then makeAlong fs place.dropLast rest
    else
      let inner := place ++ [name]
      match fs.node? inner with
      | none => makeAlong (fs.put inner .directory) inner rest
      | some .directory => makeAlong fs inner rest
      | some (.link target) =>
        match fs.resolve true mostLinks (startOf target place) (steps target) with
        | .ok reached => if fs.hasDirectory reached then makeAlong fs reached rest else none
        | .error _ => none
      | some _ => none

/-- Makes a directory and those above it that are missing. -/
def makeDirectory (fs : FileSystem) (path : Path) : FileSystem :=
  match makeAlong fs (startOf path.bytes fs.current) (steps path.bytes) with
  | some (made, _) => made
  | none => fs

/-- The place for a new thing in a directory, if it may have this name. -/
def freePlace? (directory : Place) (name : Bytes) : Option Place :=
  if name = Path.here ∨ name = Path.up ∨ longestName < name.length then none
  else some (directory ++ [name])

/-- The place that writing to a path writes to. A link at the end is followed, even one that leads
to nothing. -/
def writePlace? (fs : FileSystem) : Nat → Place → List Bytes → Option Place
  | links, start, names =>
    match names.getLast? with
    | none => none
    | some name =>
      match fs.resolve true mostLinks start names.dropLast with
      | .error _ => none
      | .ok directory =>
        match freePlace? directory name with
        | none => none
        | some place =>
          match fs.node? place with
          | some (.link target) =>
            match links with
            | 0 => none
            | links + 1 => writePlace? fs links (startOf target directory) (steps target)
          | some .directory => none
          | _ => if fs.hasDirectory directory then some place else none

/-- Writes a file, and makes the directories above it that are missing. -/
def write (fs : FileSystem) (path : Path) (contents : Bytes) : FileSystem :=
  let start := startOf path.bytes fs.current
  let names := steps path.bytes
  match makeAlong fs start names.dropLast with
  | none => fs
  | some (made, _) =>
    match made.writePlace? mostLinks start names with
    | some place => made.put place (.file contents)
    | none => made

/-- Puts something new at a path, in a directory that is there. -/
def create (fs : FileSystem) (path : Path) (node : Node) : FileSystem :=
  let names := steps path.bytes
  match names.getLast?, fs.resolve true mostLinks (startOf path.bytes fs.current) names.dropLast with
  | some name, .ok directory =>
    match freePlace? directory name with
    | some place =>
      if fs.hasDirectory directory && (fs.node? place).isNone then fs.put place node else fs
    | none => fs
  | _, _ => fs

/-- Takes away what a path leads to, and everything inside it. A link goes, and not what it points
to. -/
def remove (fs : FileSystem) (path : Path) : FileSystem :=
  match fs.placeOf false path with
  | .ok place => if place.isEmpty then fs else fs.clear place
  | .error _ => fs

end FileSystem

end KeywordSurvey
