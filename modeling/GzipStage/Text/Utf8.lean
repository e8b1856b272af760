import GzipStage.Octet

/-! Text as UTF-8. -/
namespace GzipStage.Utf8

/-- An octet that continues a sequence, with the low six bits of `n`. -/
def tail (n : Nat) : UInt8 := UInt8.ofNat (0x80 + n % 64)

def encodeChar (c : Char) : Bytes :=
  let n := c.toNat
  if n < 0x80 then [UInt8.ofNat n]
  else if n < 0x800 then [UInt8.ofNat (0xc0 + n / 64), tail n]
  else if n < 0x10000 then [UInt8.ofNat (0xe0 + n / 4096), tail (n / 64), tail n]
  else [UInt8.ofNat (0xf0 + n / 262144), tail (n / 4096), tail (n / 64), tail n]

def encode (s : String) : Bytes := s.toList.flatMap encodeChar

/-- A sequence that has begun: how many octets it still needs, the least and the greatest
octet that may come next, and the bits read so far. -/
structure Begun where
  owed : Nat
  least : UInt8
  greatest : UInt8
  bits : Nat
  deriving DecidableEq

/-- The sequence that an octet begins.  The bounds on the second octet leave out overlong
forms, surrogates and numbers above U+10FFFF. -/
def lead? (b : UInt8) : Option Begun :=
  if 0xc2 ≤ b && b ≤ 0xdf then some ⟨1, 0x80, 0xbf, b.toNat - 0xc0⟩
  else if b = 0xe0 then some ⟨2, 0xa0, 0xbf, 0⟩
  else if b = 0xed then some ⟨2, 0x80, 0x9f, 13⟩
  else if 0xe1 ≤ b && b ≤ 0xef then some ⟨2, 0x80, 0xbf, b.toNat - 0xe0⟩
  else if b = 0xf0 then some ⟨3, 0x90, 0xbf, 0⟩
  else if 0xf1 ≤ b && b ≤ 0xf3 then some ⟨3, 0x80, 0xbf, b.toNat - 0xf0⟩
  else if b = 0xf4 then some ⟨3, 0x80, 0x8f, 4⟩
  else none

/-- What has been read: the characters, latest first, with `none` for each malformed part, and
the sequence that is open. -/
structure Reading where
  pieces : List (Option Char)
  begun : Option Begun

def Reading.start (pieces : List (Option Char)) (b : UInt8) : Reading :=
  if b < 0x80 then ⟨some (Char.ofNat b.toNat) :: pieces, none⟩
  else match lead? b with
    | some begun => ⟨pieces, some begun⟩
    | none => ⟨none :: pieces, none⟩

def Reading.push (r : Reading) (b : UInt8) : Reading :=
  match r.begun with
  | none => .start r.pieces b
  | some g =>
    if g.least ≤ b && b ≤ g.greatest then
      let bits := g.bits * 64 + b.toNat % 64
      if g.owed ≤ 1 then ⟨some (Char.ofNat bits) :: r.pieces, none⟩
      else ⟨r.pieces, some ⟨g.owed - 1, 0x80, 0xbf, bits⟩⟩
    else .start (none :: r.pieces) b

/-- The pieces at the end of the octets: an open sequence is malformed. -/
def Reading.close (r : Reading) : List (Option Char) :=
  match r.begun with
  | none => r.pieces.reverse
  | some _ => (none :: r.pieces).reverse

/-- The characters of an octet string in order, with `none` for each malformed part. -/
def pieces (bs : Bytes) : List (Option Char) :=
  (bs.foldl Reading.push ⟨[], none⟩).close

def decode? (bs : Bytes) : Option String :=
  let ps := pieces bs
  if ps.all Option.isSome then some (String.ofList (ps.filterMap id)) else none

def lossy (bs : Bytes) : String :=
  String.ofList ((pieces bs).map (·.getD '\uFFFD'))

def validLength (bs : Bytes) : Nat :=
  ((pieces bs).takeWhile Option.isSome).foldl (fun n p => n + (p.elim 0 Char.utf8Size)) 0

end GzipStage.Utf8
