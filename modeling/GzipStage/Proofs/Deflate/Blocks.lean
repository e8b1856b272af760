import GzipStage.Deflate.Block
import GzipStage.Proofs.Deflate.Codes

/-! Compressed data is read back as the contents it was made from. -/
namespace GzipStage.Deflate

theorem readOctets_octetsBits (octets : Bytes) (out : Array UInt8) (tail : Bits) :
    readOctets octets.length out (octetsBits octets ++ tail) =
      some (out ++ octets.toArray, tail) := by
  induction octets generalizing out with
  | nil => simp [readOctets]
  | cons b octets ih =>
    have hread := takeNumber_bitsOf_of_lt 8 b.toNat_lt (octetsBits octets ++ tail)
    rw [octetsBits_cons, List.append_assoc, octetBits, List.length_cons, readOctets, hread]
    simp [ih]

/-- A stored block is read whatever number of bits comes before it, as long as the whole ends
with an octet. -/
theorem readBlock_storedBlock (final : Bool) (offset fuel : Nat) {octets : Bytes}
    (hlen : octets.length < 65536) (out : Array UInt8) {tail : Bits} (htail : tail.length % 8 = 0) :
    readBlock fuel out (storedBlock final offset octets ++ tail) =
      some (final, out ++ octets.toArray, tail) := by
  have hpad := length_padding_lt (offset + 3)
  have halign : align (padding (offset + 3) ++ (bitsOf 16 octets.length ++
      (bitsOf 16 (65535 - octets.length) ++ (octetsBits octets ++ tail)))) =
      bitsOf 16 octets.length ++
        (bitsOf 16 (65535 - octets.length) ++ (octetsBits octets ++ tail)) := by
    rw [align]
    apply List.drop_left'
    simp only [List.length_append, length_bitsOf, length_octetsBits]
    omega
  have hlength := takeNumber_bitsOf_of_lt 16 (by omega : octets.length < 2 ^ 16)
    (bitsOf 16 (65535 - octets.length) ++ (octetsBits octets ++ tail))
  have hinverse := takeNumber_bitsOf_of_lt 16
    (by omega : 65535 - octets.length < 2 ^ 16) (octetsBits octets ++ tail)
  have hsum : octets.length + (65535 - octets.length) = 65535 := by omega
  cases final <;>
    simp [readBlock, storedBlock, takeNumber, readStored, halign, hlength, hinverse, hsum,
      readOctets_octetsBits]

theorem readBlock_fixedBlock (final : Bool) {fuel : Nat} {tokens : List Token}
    (hbounds : ∀ token ∈ tokens, token.InBounds) {out result : Array UInt8}
    (happend : appendTokens out tokens = some result) {tail : Bits}
    (hfuel : (fixedBlock final tokens ++ tail).length < fuel) :
    readBlock fuel out (fixedBlock final tokens ++ tail) = some (final, result, tail) := by
  obtain ⟨trees, htrees, hreads⟩ := fixed_reads
  have hcount := length_le_flatMap_tokenBits tokens
  have htokens := hreads.readTokens_tokenBits hbounds happend fuel
    (by simp only [fixedBlock, List.length_append] at hfuel; omega) tail
  simp only [List.append_assoc] at htokens
  cases final <;> simp [readBlock, fixedBlock, takeNumber, htrees, htokens]

/-- Bits that are blocks of `out`, none of them the final one: reading goes on behind them. -/
def Spells (bits : Bits) (out : Array UInt8) : Prop :=
  ∀ tail fuel, (bits ++ tail).length % 8 = 0 → (bits ++ tail).length < fuel →
    ∃ left, tail.length < left ∧ readBlocks fuel #[] (bits ++ tail) = readBlocks left out tail

theorem spells_nil : Spells [] #[] := fun _ fuel _ hfuel => ⟨fuel, hfuel, rfl⟩

/-- A block that follows `bits` and extends the contents `out` to `result`. -/
structure BlockAfter (bits block : Bits) (final : Bool) (out result : Array UInt8) : Prop where
  length_pos : 0 < block.length
  read : ∀ tail fuel, (bits ++ (block ++ tail)).length % 8 = 0 → (block ++ tail).length < fuel →
    readBlock fuel out (block ++ tail) = some (final, result, tail)

theorem Spells.append {bits block : Bits} {out result : Array UInt8} (h : Spells bits out)
    (hblock : BlockAfter bits block false out result) : Spells (bits ++ block) result := by
  intro tail fuel hmod hfuel
  rw [List.append_assoc] at hmod hfuel
  obtain ⟨left, hleft, hread⟩ := h (block ++ tail) fuel hmod hfuel
  obtain ⟨left, rfl⟩ := Nat.exists_eq_add_one_of_ne_zero (Nat.ne_of_gt (Nat.zero_lt_of_lt hleft))
  refine ⟨left, ?_, ?_⟩
  · have := hblock.length_pos
    rw [List.length_append] at hleft
    omega
  · rw [List.append_assoc, hread, readBlocks, hblock.read tail (left + 1) hmod hleft]

theorem Spells.inflate {bits block : Bits} {out result : Array UInt8} (h : Spells bits out)
    (hblock : BlockAfter bits block true out result) {tail : Bits}
    (hmod : (bits ++ (block ++ tail)).length % 8 = 0) :
    inflate (bits ++ (block ++ tail)) = some (result, tail) := by
  obtain ⟨left, hleft, hread⟩ := h (block ++ tail) _ hmod (Nat.lt_succ_self _)
  obtain ⟨left, rfl⟩ := Nat.exists_eq_add_one_of_ne_zero (Nat.ne_of_gt (Nat.zero_lt_of_lt hleft))
  rw [Deflate.inflate, hread, readBlocks, hblock.read tail (left + 1) hmod hleft]

namespace Deflater

def endedBits (d : Deflater) : Bits := octetsBits d.settled.toList ++ d.rest

/-- The ended blocks are read as the contents before the open block, which is not too long to be
stored. -/
structure Sound (d : Deflater) : Prop where
  start_le : d.start ≤ d.contents.size
  open_lt : d.contents.size - d.start < blockSize
  spells : Spells d.endedBits (d.contents.extract 0 d.start)

theorem empty_sound : empty.Sound where
  start_le := le_rfl
  open_lt := by decide
  spells := by simpa [endedBits, empty] using spells_nil

theorem openBlock_after (d : Deflater) (final : Bool) (hstart : d.start ≤ d.contents.size)
    (hopen : d.contents.size - d.start ≤ blockSize) :
    BlockAfter d.endedBits (d.openBlock final).1 final (d.contents.extract 0 d.start)
      d.contents := by
  obtain ⟨hspells, hbounds⟩ := tokensFrom_spells d.chains hstart
  have hcount : (d.contents.toList.drop d.start).length = d.contents.size - d.start := by simp
  have hwhole : d.contents.extract 0 d.start ++ (d.contents.toList.drop d.start).toArray =
      d.contents := by
    apply Array.toList_inj.mp
    simp [Array.toList_extract]
  unfold openBlock
  dsimp only
  split
  · refine ⟨by simp [storedBlock], fun tail fuel hmod _ => ?_⟩
    have hpad := add_length_padding_mod (d.rest.length + 3)
    have htail : tail.length % 8 = 0 := by
      simp only [endedBits, storedBlock, List.length_append, length_octetsBits, length_bitsOf,
        List.length_cons, List.length_nil] at hmod
      omega
    have hlen : (d.contents.toList.drop d.start).length < 65536 := by
      rw [hcount]
      exact hopen.trans_lt (by decide)
    rw [readBlock_storedBlock final d.rest.length fuel hlen _ htail, hwhole]
  · exact ⟨by simp [fixedBlock],
      fun _ _ _ hfuel => readBlock_fixedBlock final hbounds hspells hfuel⟩

@[simp] theorem endBlock_contents (d : Deflater) (final : Bool) :
    (d.endBlock final).contents = d.contents := rfl

@[simp] theorem endBlock_start (d : Deflater) (final : Bool) :
    (d.endBlock final).start = d.contents.size := rfl

theorem endBlock_endedBits (d : Deflater) (final : Bool) :
    (d.endBlock final).endedBits = d.endedBits ++ (d.openBlock final).1 := by
  have hpack := pack_bits (d.rest ++ (d.openBlock final).1)
  simp only [endedBits, endBlock, Array.toList_appendList, octetsBits_append, List.append_assoc,
    hpack]

theorem Sound.push {d : Deflater} (h : d.Sound) (b : UInt8) : (d.push b).Sound := by
  let grown : Deflater := { d with contents := d.contents.push b }
  have hstart : d.start ≤ grown.contents.size := by
    simpa [grown] using Nat.le_succ_of_le h.start_le
  have hopen : grown.contents.size - d.start ≤ blockSize := by
    have := h.open_lt
    simp only [grown, Array.size_push]
    omega
  have hspells : Spells grown.endedBits (grown.contents.extract 0 d.start) := by
    rw [Array.extract_push_of_le h.start_le]
    exact h.spells
  unfold Deflater.push
  dsimp only
  split
  next hfull =>
    have hafter := grown.openBlock_after false hstart hopen
    refine ⟨le_rfl, by simp [blockSize], ?_⟩
    rw [endBlock_endedBits, endBlock_contents, endBlock_start, Array.extract_eq_self_of_le le_rfl]
    exact hspells.append hafter
  next hroom => exact ⟨hstart, Nat.lt_of_not_le hroom, hspells⟩

theorem Sound.pushAll {d : Deflater} (h : d.Sound) (bs : Bytes) : (d.pushAll bs).Sound := by
  induction bs generalizing d with
  | nil => exact h
  | cons b bs ih => exact ih (h.push b)

theorem push_contents (d : Deflater) (b : UInt8) : (d.push b).contents = d.contents.push b := by
  unfold Deflater.push
  dsimp only
  split <;> rfl

theorem pushAll_contents (d : Deflater) (bs : Bytes) :
    (d.pushAll bs).contents = d.contents ++ bs.toArray := by
  induction bs generalizing d with
  | nil => simp [pushAll]
  | cons b bs ih =>
    rw [show d.pushAll (b :: bs) = (d.push b).pushAll bs from rfl, ih, push_contents]
    simp

@[simp] theorem empty_pushAll_contents (bs : Bytes) :
    (empty.pushAll bs).contents.toList = bs := by simp [pushAll_contents, empty]

theorem settled_prefix_endBlock (d : Deflater) (final : Bool) :
    d.settled.toList <+: (d.endBlock final).settled.toList := by simp [endBlock]

theorem settled_prefix_push (d : Deflater) (b : UInt8) :
    d.settled.toList <+: (d.push b).settled.toList := by
  unfold Deflater.push
  dsimp only
  split
  · exact settled_prefix_endBlock { d with contents := d.contents.push b } false
  · exact List.prefix_rfl

theorem settled_prefix_pushAll (d : Deflater) (bs : Bytes) :
    d.settled.toList <+: (d.pushAll bs).settled.toList := by
  induction bs generalizing d with
  | nil => exact List.prefix_rfl
  | cons b bs ih => exact (d.settled_prefix_push b).trans (ih (d.push b))

theorem settled_prefix_finish (d : Deflater) : d.settled.toList <+: d.finish.settled.toList :=
  (d.settled_prefix_endBlock true).trans (by simp [finish])

end Deflater

/-- Compressed data is read back as its contents; up to seven bits fill up its last octet. -/
theorem inflate_deflate (contents more : Bytes) :
    ∃ fill, fill.length < 8 ∧ inflate (octetsBits (deflate contents ++ more)) =
      some (contents.toArray, fill ++ octetsBits more) := by
  let d := Deflater.empty.pushAll contents
  have hd : d.Sound := Deflater.empty_sound.pushAll contents
  have hcontents : d.contents = contents.toArray := by
    simp [d, Deflater.pushAll_contents, Deflater.empty]
  have hbits : octetsBits (deflate contents) =
      d.endedBits ++ ((d.openBlock true).1 ++ padding (d.endBlock true).rest.length) := by
    rw [← List.append_assoc, ← d.endBlock_endedBits]
    simp only [deflate, Deflater.finish, Array.toList_appendList, octetsBits_append]
    rw [packAll_bits, ← List.append_assoc]
    rfl
  refine ⟨padding (d.endBlock true).rest.length, length_padding_lt _, ?_⟩
  have hall : octetsBits (deflate contents ++ more) = d.endedBits ++ ((d.openBlock true).1 ++
      (padding (d.endBlock true).rest.length ++ octetsBits more)) := by
    rw [octetsBits_append, hbits]
    simp only [List.append_assoc]
  have hmod : (octetsBits (deflate contents ++ more)).length % 8 = 0 := by simp
  rw [hall] at hmod ⊢
  rw [hd.spells.inflate (d.openBlock_after true hd.start_le hd.open_lt.le) hmod, hcontents]

/-- A block with a code of its own, with repeated lengths and with copies. -/
example : (inflate (octetsBits [0x1d, 0x87, 0xc7, 0x0d, 0x00, 0x00, 0x10, 0x40, 0xa6, 0x16, 0xb1,
    0xfd, 0x15, 0xe1, 0x41, 0x81, 0xf2, 0x29, 0xbc, 0x07, 0xdb, 0xe8, 0x1c])).map (·.1.toList) =
    some [0x77, 0x77, 0x75, 0x75, 0x75, 0x79, 0x79, 0x77, 0x77, 0x77, 0x77, 0x77, 0x77, 0x79,
      0x79, 0x75, 0x77, 0x77, 0x75, 0x75, 0x75, 0x75, 0x75, 0x77, 0x79, 0x75, 0x75, 0x77, 0x75,
      0x79, 0x77, 0x75, 0x79, 0x77] := by
  decide +kernel

end GzipStage.Deflate
