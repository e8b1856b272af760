import GzipStage.Gzip.Member
import GzipStage.Proofs.Deflate.Blocks
import GzipStage.Proofs.Gzip.Checksum

namespace GzipStage.Gzip

open Deflate

/-- A DEFLATE decoder turns the octets into the contents, whatever follows them. -/
def Inflates (data contents : Bytes) : Prop :=
  ∀ more : Bytes, ∃ fill, fill.length < 8 ∧
    inflate (octetsBits (data ++ more)) = some (contents.toArray, fill ++ octetsBits more)

/-- The number that octets spell, least significant first. -/
def number (bs : Bytes) : Nat := Nat.ofDigits 256 (bs.map UInt8.toNat)

/-- The octets are one complete member for the contents and nothing else: a header without a name
and without a time, compressed data, the checksum of the contents and their length. -/
def IsMember (octets contents : Bytes) : Prop :=
  ∃ data sum size : Bytes,
    octets = [0x1f, 0x8b, 0x08, 0, 0, 0, 0, 0, 0, 0xff] ++ data ++ sum ++ size ∧
      Inflates data contents ∧ sum.length = 4 ∧ IsChecksum (number sum) contents ∧
      size.length = 4 ∧ number size = contents.length % 2 ^ 32

theorem number_cons (b : UInt8) (bs : Bytes) : number (b :: bs) = b.toNat + 256 * number bs := by
  rw [number, List.map_cons, Nat.ofDigits_cons]
  rfl

theorem ofLittleEndian_eq (bs : Bytes) : ofLittleEndian bs = number bs := by
  induction bs with
  | nil => rfl
  | cons b bs ih => rw [ofLittleEndian, ih, number_cons]

theorem number_littleEndian {count n : Nat} (h : n < 256 ^ count) :
    number (littleEndian count n) = n := by
  induction count generalizing n with
  | zero =>
    rw [pow_zero, Nat.lt_one_iff] at h
    subst h
    rfl
  | succ count ih =>
    have hrest : n / 256 < 256 ^ count := by
      rw [pow_succ] at h
      exact Nat.div_lt_of_lt_mul (by rwa [Nat.mul_comm])
    rw [littleEndian, number_cons, ih hrest, UInt8.toNat_ofNat']
    omega

theorem IsMember.length_le {octets contents : Bytes} (h : IsMember octets contents) :
    18 ≤ octets.length := by
  obtain ⟨data, sum, size, rfl, _, hsum, _, hsize, _⟩ := h
  simp only [List.length_append, List.length_cons, List.length_nil]
  omega

theorem encode_isMember (contents : Bytes) : IsMember (encode contents) contents := by
  refine ⟨deflate contents, littleEndian 4 (crc32 contents).toNat,
    littleEndian 4 (contents.length % lengthModulus), ?_, inflate_deflate contents,
    length_littleEndian _ _, ?_, length_littleEndian _ _, ?_⟩
  · rw [encode, trailer, ← List.append_assoc]
    rfl
  · rw [number_littleEndian (crc32 contents).toNat_lt]
    exact isChecksum_iff.mpr rfl
  · have hlt : contents.length % lengthModulus < 256 ^ 4 := Nat.mod_lt _ (by decide)
    rw [number_littleEndian hlt]
    rfl

theorem dropHeader_header (rest : Bytes) : dropHeader (header ++ rest) = some rest := by
  simp [header, dropHeader, dropOptional, flag]

theorem IsMember.read?_append {octets contents : Bytes} (h : IsMember octets contents)
    (more : Bytes) : read? (octets ++ more) = some ⟨header, contents, (crc32 contents).toNat,
      contents.length % 2 ^ 32, octets.length⟩ := by
  obtain ⟨data, sum, size, rfl, hinflates, hsum, hcrc, hsize, hlength⟩ := h
  have hall : [0x1f, 0x8b, 0x08, 0, 0, 0, 0, 0, 0, 0xff] ++ data ++ sum ++ size ++ more =
      header ++ (data ++ (sum ++ (size ++ more))) := by
    simp [header]
  obtain ⟨fill, hfill, hinflate⟩ := hinflates (sum ++ (size ++ more))
  have hrest : (data ++ (sum ++ (size ++ more))).drop
      ((data ++ (sum ++ (size ++ more))).length -
        (fill ++ octetsBits (sum ++ (size ++ more))).length / 8) = sum ++ (size ++ more) := by
    apply List.drop_left'
    simp only [List.length_append, length_octetsBits]
    omega
  have hfour : ((sum ++ (size ++ more)).drop 4).take 4 = size := by
    rw [List.drop_left' hsum, List.take_left' hsize]
  have hafter : dropExactly 8 (sum ++ (size ++ more)) = some more := by
    have hle : 8 ≤ (sum ++ (size ++ more)).length := by
      simp only [List.length_append]
      omega
    rw [dropExactly, if_pos hle, ← List.append_assoc, List.drop_left' (by simp [hsum, hsize])]
  have hcrc' : number ((sum ++ (size ++ more)).take 4) = (crc32 contents).toNat := by
    rw [List.take_left' hsum]
    exact isChecksum_iff.mp hcrc
  rw [hall]
  simp only [read?, dropHeader_header, hinflate, Option.bind_eq_bind, Option.bind_some, hrest,
    hafter, hcrc', hfour, ofLittleEndian_eq, hlength]
  simp [lengthModulus, header]
  omega

theorem IsMember.read? {octets contents : Bytes} (h : IsMember octets contents) :
    read? octets = some ⟨header, contents, (crc32 contents).toNat, contents.length % 2 ^ 32,
      octets.length⟩ := by
  have hread := h.read?_append []
  rwa [List.append_nil] at hread

theorem IsMember.eq_of_prefix {octets octets' contents contents' : Bytes}
    (h : IsMember octets contents) (h' : IsMember octets' contents')
    (hbegins : octets <+: octets') : octets = octets' ∧ contents = contents' := by
  obtain ⟨more, rfl⟩ := hbegins
  have hsame := (h.read?_append more).symm.trans h'.read?
  simp only [Option.some.injEq, Member.mk.injEq, List.length_append] at hsame
  obtain ⟨-, rfl, -, -, hlength⟩ := hsame
  obtain rfl : more = [] := List.eq_nil_of_length_eq_zero (by omega)
  exact ⟨(List.append_nil octets).symm, rfl⟩

/-- Members for different contents differ before their trailers begin. -/
theorem IsMember.trailer_le {out left octets contents contents' : Bytes}
    (h : IsMember (out ++ left) contents) (h' : IsMember octets contents')
    (hbegins : out <+: octets) (hother : contents ≠ contents') : 8 ≤ left.length := by
  obtain ⟨data, sum, size, hparts, hinflates, hsum, _, hsize, _⟩ := h
  obtain ⟨data', sum', size', rfl, hinflates', _⟩ := h'
  by_contra hshort
  have hlength := congrArg List.length hparts
  simp only [List.length_append] at hlength
  -- the part that has been written goes beyond the compressed data
  have hparts' : header ++ data <+: out ++ left := by
    rw [hparts, List.append_assoc]
    exact List.prefix_append _ _
  have hdata : header ++ data <+: out := by
    apply List.prefix_of_prefix_length_le hparts' (List.prefix_append out left)
    rw [List.length_append, show header.length = 10 from rfl]
    simp only [List.length_cons, List.length_nil] at hlength
    omega
  obtain ⟨more, hmore⟩ := hdata.trans hbegins
  have hsame : data ++ more = data' ++ (sum' ++ size') := by
    have hwhole : header ++ (data ++ more) = header ++ (data' ++ (sum' ++ size')) := by
      rw [← List.append_assoc, hmore]
      simp [header]
    exact List.append_cancel_left hwhole
  obtain ⟨_, _, hfirst⟩ := hinflates more
  obtain ⟨_, _, hsecond⟩ := hinflates' (sum' ++ size')
  rw [hsame, hsecond] at hfirst
  simp only [Option.some.injEq, Prod.mk.injEq] at hfirst
  exact hother (congrArg Array.toList hfirst.1).symm

end GzipStage.Gzip
