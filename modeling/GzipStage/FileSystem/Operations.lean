import GzipStage.FileSystem.Walk

namespace GzipStage.FileSystem

def locate (fs : FileSystem) (p : Path) : Except IoError Inode := do
  match ← fs.resolve .follow p with
  | .node i => .ok i
  | .entry _ _ => .error .noEntry

/-- The contents of a node.  A device gives nothing, a directory cannot be read. -/
def contents (fs : FileSystem) (i : Inode) : Except IoError Bytes :=
  match fs.nodes[i]? with
  | some (.file contents) => .ok contents
  | some (.device _) => .ok []
  | some (.directory _ _) => .error .isDirectory
  | _ => .error .noEntry

def read (fs : FileSystem) (p : Path) : Except IoError Bytes := do
  fs.contents (← fs.locate p)

/-- Makes an empty file, or empties the one that is there: the file system and the node that is
to be written. -/
def create (fs : FileSystem) (p : Path) : Except IoError (FileSystem × Inode) := do
  match ← fs.resolve .create p with
  | .entry dir name => .ok (fs.addNode dir name (.file []))
  | .node i =>
    match fs.nodes[i]? with
    | some (.directory _ _) => .error .isDirectory
    | some (.file _) => .ok (fs.set i (.file []), i)
    | _ => .ok (fs, i)

def store (fs : FileSystem) (i : Inode) (contents : Bytes) : FileSystem :=
  match fs.nodes[i]? with
  | some (.file _) => fs.set i (.file contents)
  | _ => fs

/-- Writes a whole file, and says what went wrong; what has been done stays done. -/
def write (fs : FileSystem) (p : Path) (octets : Bytes) : Except IoError Unit × FileSystem :=
  match fs.create p with
  | .error e => (.error e, fs)
  | .ok (fs, i) =>
    if fs.nodes[i]? = some (.device .full) && octets ≠ [] then (.error .noSpace, fs)
    else (.ok (), fs.store i octets)

/-- The directory and the name for something new at a path.  A path that ends with a slash is
for directories only. -/
def vacancy (fs : FileSystem) (directory : Bool) (p : Path) : Except IoError (Inode × Bytes) := do
  match ← fs.resolve .place p with
  | .node _ => .error .entryExists
  | .entry dir name =>
    match ← fs.lookup? dir name with
    | some _ => .error .entryExists
    | none => if p.endsWithSlash && !directory then .error .noEntry else .ok (dir, name)

def makeDirectory (fs : FileSystem) (p : Path) : Except IoError FileSystem := do
  let (dir, name) ← fs.vacancy true p
  return (fs.addNode dir name (.directory dir [])).1

def leadsToDirectory (fs : FileSystem) (p : Path) : Bool :=
  match fs.locate p with
  | .ok i => fs.isDirectory i
  | .error _ => false

def ensureDirectory (fs : FileSystem) (p : Path) : Except IoError Unit × FileSystem :=
  match fs.makeDirectory p with
  | .ok fs => (.ok (), fs)
  | .error e => (if fs.leadsToDirectory p then .ok () else .error e, fs)

/-- Makes a directory and those above it that are missing.  Every directory above has a shorter
path, so `fuel` is enough when it exceeds the length of the path. -/
def makeDirectoriesWithin : (fuel : Nat) → FileSystem → Path → Except IoError Unit × FileSystem
  | 0, fs, _ => (.ok (), fs)
  | fuel + 1, fs, p =>
    if p.bytes = [] then (.ok (), fs)
    else match fs.ensureDirectory p with
      | (.ok (), fs) => (.ok (), fs)
      | (.error e, fs) =>
        if e.kind = .notFound then
          match p.parent? with
          | none => (.error e, fs)
          | some parent =>
            match makeDirectoriesWithin fuel fs parent with
            | (.ok (), fs) => fs.ensureDirectory p
            | (.error e, fs) => (.error e, fs)
        else (.error e, fs)

/-- Makes a directory and those above it that are missing, and says what went wrong; those that
have been made stay. -/
def makeDirectories (fs : FileSystem) (p : Path) : Except IoError Unit × FileSystem :=
  makeDirectoriesWithin (p.bytes.length + 1) fs p

def makeLink (fs : FileSystem) (p target : Path) : Except IoError FileSystem := do
  if target.bytes.contains Octet.nul || p.bytes.contains Octet.nul then .error .nulInPath
  else if target.bytes = [] then .error .noEntry
  else if pathLimit ≤ target.bytes.length then .error .nameTooLong
  else
    let (dir, name) ← fs.vacancy false p
    return (fs.addNode dir name (.link target.bytes)).1

/-- Gives what `existing` leads to a further name at `p`.  A symbolic link is not followed. -/
def addName (fs : FileSystem) (p existing : Path) : Except IoError FileSystem := do
  if existing.bytes.contains Octet.nul || p.bytes.contains Octet.nul then .error .nulInPath
  else
    match ← fs.resolve .keep existing with
    | .entry _ _ => .error .noEntry
    | .node i =>
      let (dir, name) ← fs.vacancy false p
      if fs.isDirectory i then .error .notPermitted else .ok (fs.addEntry dir name i)

def remove (fs : FileSystem) (p : Path) : Except IoError FileSystem := do
  match ← fs.resolve .place p with
  | .node _ => .error .isDirectory
  | .entry dir name =>
    match ← fs.lookup? dir name with
    | none => .error .noEntry
    | some i =>
      if fs.isDirectory i then .error .isDirectory
      else if p.endsWithSlash then .error .notDirectory
      else .ok (fs.dropEntry dir name)

/-- The paths below a directory, as seen from it: a slash marks a directory and an at sign a
symbolic link.  `fuel` bounds the depth. -/
def below (fs : FileSystem) : (fuel : Nat) → (dir : Inode) → (front : Bytes) → List Bytes
  | 0, _, _ => []
  | fuel + 1, dir, front =>
    match fs.nodes[dir]? with
    | some (.directory _ entries) =>
      entries.flatMap fun entry =>
        let path := front ++ entry.1
        match fs.nodes[entry.2]? with
        | some (.directory _ _) =>
          let path := path ++ [Octet.slash]
          path :: below fs fuel entry.2 path
        | some (.link _) => [path ++ [Octet.ofChar '@']]
        | _ => [path]
    | _ => []

def list (fs : FileSystem) (p : Path) : Except IoError (List String) := do
  let i ← fs.locate p
  if fs.isDirectory i then
    return ((fs.below fs.nodes.size i []).map Utf8.lossy).mergeSort (fun a b => decide (a ≤ b))
  else .error .notDirectory

end GzipStage.FileSystem
