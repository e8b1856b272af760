import GzipStage.IoError
import GzipStage.Path

/-! File systems as numbered nodes, to which directories give names. -/
namespace GzipStage

abbrev Inode := Nat

inductive Device where
  /-- Takes everything. -/
  | null
  /-- Has no room. -/
  | full
  deriving DecidableEq

inductive Node where
  | file (contents : Bytes)
  | directory (parent : Inode) (entries : List (Bytes × Inode))
  | link (target : Bytes)
  | device (d : Device)
  deriving DecidableEq

/-- Nodes, and the directory that relative paths start from.  The root is node zero. -/
structure FileSystem where
  nodes : Array Node
  working : Inode
  deriving DecidableEq

namespace FileSystem

def root : Inode := 0

def parentOf (fs : FileSystem) (i : Inode) : Inode :=
  match fs.nodes[i]? with
  | some (.directory parent _) => parent
  | _ => root

def isDirectory (fs : FileSystem) (i : Inode) : Bool :=
  match fs.nodes[i]? with
  | some (.directory _ _) => true
  | _ => false

def set (fs : FileSystem) (i : Inode) (node : Node) : FileSystem :=
  { fs with nodes := fs.nodes.setIfInBounds i node }

def addEntry (fs : FileSystem) (dir : Inode) (name : Bytes) (i : Inode) : FileSystem :=
  match fs.nodes[dir]? with
  | some (.directory parent entries) => fs.set dir (.directory parent ((name, i) :: entries))
  | _ => fs

def dropEntry (fs : FileSystem) (dir : Inode) (name : Bytes) : FileSystem :=
  match fs.nodes[dir]? with
  | some (.directory parent entries) =>
    fs.set dir (.directory parent (entries.filter (·.1 ≠ name)))
  | _ => fs

def addNode (fs : FileSystem) (dir : Inode) (name : Bytes) (node : Node) : FileSystem × Inode :=
  let i := fs.nodes.size
  ({ fs with nodes := fs.nodes.push node }.addEntry dir name i, i)

def name (s : String) : Bytes := Utf8.encode s

/-- A root with the two devices, and an empty working directory three levels below a
directory of the root. -/
def initial : FileSystem where
  nodes :=
    #[.directory 0 [(name "dev", 1), (name "tmp", 4)],
      .directory 0 [(name "null", 2), (name "full", 3)],
      .device .null,
      .device .full,
      .directory 0 [(name "a", 5)],
      .directory 4 [(name "b", 6)],
      .directory 5 [(name "c", 7)],
      .directory 6 []]
  working := 7

end FileSystem

end GzipStage
