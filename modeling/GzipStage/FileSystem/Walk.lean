import GzipStage.FileSystem.Basic

/-! From paths to nodes. At most forty symbolic links are followed. -/
namespace GzipStage.FileSystem

inductive Purpose where
  /-- The node, at the end of all links. -/
  | follow
  /-- The node; a link in the last place is meant itself unless a slash comes after it. -/
  | keep
  /-- A file to write, which need not exist yet; links are followed. -/
  | create
  /-- The place of the last name, whether something is there or not. -/
  | place
  deriving DecidableEq

inductive Found where
  /-- To a node. -/
  | node (i : Inode)
  /-- To a name in a directory, which need not stand for anything. -/
  | entry (dir : Inode) (name : Bytes)
  deriving DecidableEq

def maxName : Nat := 255

def pathLimit : Nat := 4096

def maxLinks : Nat := 40

def startOf (dir : Inode) (target : Path) : Inode := if target.isAbsolute then root else dir

/-- The node that a name that is not too long stands for in a directory. -/
def lookup? (fs : FileSystem) (dir : Inode) (name : Bytes) : Except IoError (Option Inode) :=
  match fs.nodes[dir]? with
  | some (.directory _ entries) =>
    if maxName < name.length then .error .nameTooLong else .ok (entries.lookup name)
  | _ => .error .notDirectory

/-- A link's way on: the start, the names, and whether a slash comes last. -/
abbrev Jump := Inode → List Bytes → Bool → Except IoError Found

def lastStep (fs : FileSystem) (purpose : Purpose) (jump : Jump) (dir : Inode) (name : Bytes)
    (slash : Bool) : Except IoError Found :=
  if name = Path.here then .ok (.node dir)
  else if name = Path.above then .ok (.node (fs.parentOf dir))
  else if purpose = .place then .ok (.entry dir name)
  else if purpose = .create && slash then .error .isDirectory
  else do
    match ← fs.lookup? dir name with
    | none => .ok (.entry dir name)
    | some i =>
      match fs.nodes[i]? with
      | some (.link target) =>
        if purpose = .keep && !slash then .ok (.node i)
        else
          jump (startOf dir ⟨target⟩) (Path.names ⟨target⟩) (slash || Path.endsWithSlash ⟨target⟩)
      | some (.directory _ _) => .ok (.node i)
      | _ => if slash then .error .notDirectory else .ok (.node i)

def steps (fs : FileSystem) (purpose : Purpose) (jump : Jump) (slash : Bool) :
    (dir : Inode) → List Bytes → Except IoError Found
  | dir, [] => .ok (.node dir)
  | dir, [name] => fs.lastStep purpose jump dir name slash
  | dir, name :: names =>
    if name = Path.here then steps fs purpose jump slash dir names
    else if name = Path.above then steps fs purpose jump slash (fs.parentOf dir) names
    else do
      match ← fs.lookup? dir name with
      | none => .error .noEntry
      | some i =>
        match fs.nodes[i]? with
        | some (.directory _ _) => steps fs purpose jump slash i names
        | some (.link target) =>
          jump (startOf dir ⟨target⟩) (Path.names ⟨target⟩ ++ names) slash
        | _ => .error .notDirectory

def walk (fs : FileSystem) (purpose : Purpose) : (links : Nat) → Jump
  | 0 => fun dir names slash =>
    fs.steps purpose (fun _ _ _ => .error .tooManyLinks) slash dir names
  | links + 1 => fun dir names slash => fs.steps purpose (fs.walk purpose links) slash dir names

def resolve (fs : FileSystem) (purpose : Purpose) (p : Path) : Except IoError Found :=
  if p.bytes.contains Octet.nul then .error .nulInPath
  else if p.bytes = [] then .error .noEntry
  else if pathLimit ≤ p.bytes.length then .error .nameTooLong
  else fs.walk purpose maxLinks (startOf fs.working p) p.names p.endsWithSlash

end GzipStage.FileSystem
