import GzipStage.Text.Utf8

namespace GzipStage

structure Path where
  bytes : Bytes
  deriving DecidableEq

namespace Path

def ofString (s : String) : Path := ⟨Utf8.encode s⟩

def display (p : Path) : String := Utf8.lossy p.bytes

def isAbsolute (p : Path) : Bool := p.bytes.head? = some Octet.slash

/-- The path `name` as seen from `base`: `base`, one slash unless it ends in one, and `name`.
An absolute name stays as it is. -/
def join (base name : Path) : Path :=
  if name.isAbsolute then name
  else if base.bytes = [] || base.bytes.getLast? = some Octet.slash then
    ⟨base.bytes ++ name.bytes⟩
  else ⟨base.bytes ++ Octet.slash :: name.bytes⟩

/-- The names between the slashes, latest first; `name` holds the octets of the open one, latest
first.  Empty names are left out. -/
def namesOnto (names : List Bytes) (name : Bytes) : Bytes → List Bytes
  | [] => if name = [] then names else name.reverse :: names
  | b :: bs =>
    if b = Octet.slash then namesOnto (if name = [] then names else name.reverse :: names) [] bs
    else namesOnto names (b :: name) bs

def names (p : Path) : List Bytes := (namesOnto [] [] p.bytes).reverse

/-- Whether a path ends with a slash, so that it has to be a directory. -/
def endsWithSlash (p : Path) : Bool := p.bytes.getLast? = some Octet.slash

def here : Bytes := [Octet.dot]

def above : Bytes := [Octet.dot, Octet.dot]

/-- Drops slashes and names `.` from the end of a path whose octets are given last first.  A
single slash stays, and so does a name `.` that the path begins with. -/
def trimEnd : Bytes → Bytes
  | b :: c :: rest =>
    if b = Octet.slash then trimEnd (c :: rest)
    else if b = Octet.dot && c = Octet.slash then trimEnd (c :: rest)
    else b :: c :: rest
  | bs => bs

/-- The path of the directory that the last name of a path is in, or `none` for the root. -/
def parent? (p : Path) : Option Path :=
  match trimEnd p.bytes.reverse with
  | [] => none
  | [b] => if b = Octet.slash then none else some ⟨[]⟩
  | bs => some ⟨(trimEnd (bs.dropWhile (· ≠ Octet.slash))).reverse⟩

end Path

end GzipStage
