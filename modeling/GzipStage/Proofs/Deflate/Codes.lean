import GzipStage.Deflate.FixedCode
import GzipStage.Deflate.Inflate
import GzipStage.Proofs.Deflate.Bits
import GzipStage.Proofs.Deflate.Copies

/-! The words of the fixed code are read back as the tokens they stand for. -/
namespace GzipStage.Deflate

/-- The rows reach up to `limit` without a gap: no base lies beyond the end of the row before. -/
def Covers (limit : Nat) : List (Nat × Nat) → Prop
  | [] => False
  | [(base, extra)] => limit < base + 2 ^ extra
  | (base, extra) :: (next, more) :: rows =>
    next ≤ base + 2 ^ extra ∧ Covers limit ((next, more) :: rows)

theorem lengthRows_covers : Covers maxLength lengthRows := by
  simp [Covers, lengthRows, maxLength]

theorem distanceRows_covers : Covers maxDistance distanceRows := by
  simp [Covers, distanceRows, maxDistance]

/-- The row that is found is the one whose range has the number in it. -/
theorem findRow_of_covers {n limit : Nat} (hn : n ≤ limit) (rows : List (Nat × Nat))
    (first firstExtra index : Nat) (found : Nat × Nat × Nat)
    (hc : Covers limit ((first, firstExtra) :: rows)) (hfirst : first ≤ n) :
    ∃ k base extra,
      findRow n ((first, firstExtra) :: rows) index found = (index + k, base, extra) ∧
      ((first, firstExtra) :: rows)[k]? = some (base, extra) ∧
      base ≤ n ∧ n < base + 2 ^ extra := by
  induction rows generalizing first firstExtra index found with
  | nil =>
    refine ⟨0, first, firstExtra, by simp [findRow, hfirst], rfl, hfirst, ?_⟩
    exact lt_of_le_of_lt hn hc
  | cons row rows ih =>
    obtain ⟨next, more⟩ := row
    obtain ⟨hgap, hrest⟩ := hc
    by_cases hnext : next ≤ n
    · obtain ⟨k, base, extra, hfind, hget, hle, hlt⟩ :=
        ih next more (index + 1) (index, first, firstExtra) hrest hnext
      refine ⟨k + 1, base, extra, ?_, by simpa using hget, hle, hlt⟩
      rw [findRow, if_pos hfirst, hfind, Nat.add_right_comm, Nat.add_assoc]
    · refine ⟨0, first, firstExtra, ?_, rfl, hfirst, by omega⟩
      rw [findRow, if_pos hfirst, findRow, if_neg hnext, Nat.add_zero]

/-- A number is read back from its symbol and its extra bits, and the symbol is that of a row. -/
theorem ofSymbol_toSymbol {first firstExtra limit n : Nat} {rows : List (Nat × Nat)}
    (hc : Covers limit ((first, firstExtra) :: rows)) (hfirst : first ≤ n) (hn : n ≤ limit)
    (tail : Bits) :
    (toSymbol ((first, firstExtra) :: rows) n).1 < rows.length + 1 ∧
      ofSymbol ((first, firstExtra) :: rows) (toSymbol ((first, firstExtra) :: rows) n).1
        ((toSymbol ((first, firstExtra) :: rows) n).2 ++ tail) = some (n, tail) := by
  obtain ⟨k, base, extra, hfind, hget, hle, hlt⟩ :=
    findRow_of_covers hn rows first firstExtra 0 (0, 0, 0) hc hfirst
  have hsymbol : toSymbol ((first, firstExtra) :: rows) n = (k, bitsOf extra (n - base)) := by
    simp only [toSymbol, hfind, Nat.zero_add]
  have hextra := takeNumber_bitsOf_of_lt extra (show n - base < 2 ^ extra by omega) tail
  rw [hsymbol]
  constructor
  · simpa using (List.getElem?_eq_some_iff.mp hget).1
  · simp only [ofSymbol, hget, hextra, Option.bind_eq_bind, Option.bind_some]
    simp [Nat.add_sub_cancel' hle]

theorem ofSymbol_lengthRows {n : Nat} (hmin : minLength ≤ n) (hmax : n ≤ maxLength)
    (tail : Bits) :
    (toSymbol lengthRows n).1 < 29 ∧
      ofSymbol lengthRows (toSymbol lengthRows n).1 ((toSymbol lengthRows n).2 ++ tail) =
        some (n, tail) :=
  ofSymbol_toSymbol lengthRows_covers hmin hmax tail

theorem ofSymbol_distanceRows {n : Nat} (hmin : 0 < n) (hmax : n ≤ maxDistance) (tail : Bits) :
    (toSymbol distanceRows n).1 < 30 ∧
      ofSymbol distanceRows (toSymbol distanceRows n).1
        ((toSymbol distanceRows n).2 ++ tail) = some (n, tail) :=
  ofSymbol_toSymbol distanceRows_covers hmin hmax tail

theorem Huffman.Tree.decode_append {tree : Huffman.Tree} {bits rest : Bits} {symbol : Nat}
    (h : tree.decode bits = some (symbol, rest)) (tail : Bits) :
    tree.decode (bits ++ tail) = some (symbol, rest ++ tail) := by
  induction tree generalizing bits with
  | empty => simp [Tree.decode] at h
  | leaf s =>
    simp only [Tree.decode, Option.some.injEq, Prod.mk.injEq] at h ⊢
    exact ⟨h.1, by rw [h.2]⟩
  | node zero one ihZero ihOne =>
    match bits with
    | [] => simp [Tree.decode] at h
    | false :: bits => exact ihZero h
    | true :: bits => exact ihOne h

theorem fixed_words : ∃ trees, Trees.fixed = some trees ∧
    (∀ symbol : Fin 288, trees.literals.decode (FixedCode.literalWord symbol) =
      some (symbol.val, [])) ∧
    ∀ symbol : Fin 32, trees.distances.decode (FixedCode.distanceWord symbol) =
      some (symbol.val, []) := by
  have hsome : Trees.fixed.isSome = true := by decide +kernel
  have hliterals : ∀ symbol : Fin 288,
      (Trees.fixed.bind fun trees => trees.literals.decode (FixedCode.literalWord symbol)) =
        some (symbol.val, []) := by decide +kernel
  have hdistances : ∀ symbol : Fin 32,
      (Trees.fixed.bind fun trees => trees.distances.decode (FixedCode.distanceWord symbol)) =
        some (symbol.val, []) := by decide +kernel
  obtain ⟨trees, htrees⟩ := Option.isSome_iff_exists.mp hsome
  rw [htrees] at hliterals hdistances
  exact ⟨trees, htrees, hliterals, hdistances⟩

/-- Trees that read the words of the fixed code, whatever follows them. -/
structure Trees.ReadsFixed (trees : Trees) : Prop where
  literals : ∀ symbol < 288, ∀ tail,
    trees.literals.decode (FixedCode.literalWord symbol ++ tail) = some (symbol, tail)
  distances : ∀ symbol < 32, ∀ tail,
    trees.distances.decode (FixedCode.distanceWord symbol ++ tail) = some (symbol, tail)

theorem fixed_reads : ∃ trees, Trees.fixed = some trees ∧ trees.ReadsFixed := by
  obtain ⟨trees, htrees, hliterals, hdistances⟩ := fixed_words
  refine ⟨trees, htrees, ?_, ?_⟩
  · intro symbol hlt tail
    exact Huffman.Tree.decode_append (hliterals ⟨symbol, hlt⟩) tail
  · intro symbol hlt tail
    exact Huffman.Tree.decode_append (hdistances ⟨symbol, hlt⟩) tail

namespace Trees.ReadsFixed

variable {trees : Trees} (h : trees.ReadsFixed)
include h

theorem readToken_tokenBits {token : Token} (ht : token.InBounds) (tail : Bits) :
    readToken trees (FixedCode.tokenBits token ++ tail) = some (some token, tail) := by
  cases token with
  | literal b =>
    have hb : b.toNat < 256 := b.toNat_lt
    simp [readToken, FixedCode.tokenBits, h.literals b.toNat (by omega), endSymbol, hb]
  | copy length distance =>
    obtain ⟨hminLength, hmaxLength, hpos, hmaxDistance⟩ := ht
    obtain ⟨hl, hlength⟩ := ofSymbol_lengthRows hminLength hmaxLength
      (FixedCode.distanceWord (toSymbol distanceRows distance).1 ++
        (toSymbol distanceRows distance).2 ++ tail)
    obtain ⟨hd, hdistance⟩ := ofSymbol_distanceRows hpos hmaxDistance tail
    simp only [List.append_assoc] at hlength
    have hword := h.literals (firstLengthSymbol + (toSymbol lengthRows length).1)
      (by unfold firstLengthSymbol; omega)
    have hsmall : ¬ firstLengthSymbol + (toSymbol lengthRows length).1 < endSymbol := by
      unfold firstLengthSymbol endSymbol
      omega
    have hend : firstLengthSymbol + (toSymbol lengthRows length).1 ≠ endSymbol := by
      unfold firstLengthSymbol endSymbol
      omega
    simp [readToken, FixedCode.tokenBits, hword, hsmall, hend, hlength,
      h.distances _ (show (toSymbol distanceRows distance).1 < 32 by omega), hdistance]

theorem readToken_end (tail : Bits) :
    readToken trees (FixedCode.literalWord endSymbol ++ tail) = some (none, tail) := by
  simp [readToken, h.literals endSymbol (by decide)]

/-- A block body of words is read as the tokens that the words stand for. -/
theorem readTokens_tokenBits {tokens : List Token} (ht : ∀ token ∈ tokens, token.InBounds)
    {out result : Array UInt8} (happend : appendTokens out tokens = some result)
    (fuel : Nat) (hfuel : tokens.length < fuel) (tail : Bits) :
    readTokens trees fuel out
        (tokens.flatMap FixedCode.tokenBits ++ FixedCode.literalWord endSymbol ++ tail) =
      some (result, tail) := by
  induction tokens generalizing out fuel with
  | nil =>
    obtain ⟨fuel, rfl⟩ := Nat.exists_eq_succ_of_ne_zero (Nat.ne_of_gt hfuel)
    obtain rfl : out = result := by simpa [appendTokens] using happend
    simp [readTokens, h.readToken_end]
  | cons token tokens ih =>
    obtain ⟨fuel, rfl⟩ := Nat.exists_eq_succ_of_ne_zero (Nat.ne_of_gt (Nat.zero_lt_of_lt hfuel))
    obtain ⟨next, hnext, hrest⟩ : ∃ next, token.appendTo out = some next ∧
        appendTokens next tokens = some result := by
      simpa [appendTokens, List.foldlM_cons, Option.bind_eq_some_iff] using happend
    have hread := h.readToken_tokenBits (ht token List.mem_cons_self)
      (tokens.flatMap FixedCode.tokenBits ++ FixedCode.literalWord endSymbol ++ tail)
    have htail := ih (fun t hmem => ht t (List.mem_cons_of_mem _ hmem)) hrest fuel
      (show tokens.length < fuel by simpa using hfuel)
    simp only [List.append_assoc] at hread htail
    simp only [List.flatMap_cons, List.append_assoc, readTokens, hread, hnext, htail]

end Trees.ReadsFixed

theorem length_tokenBits_pos (token : Token) : 0 < (FixedCode.tokenBits token).length := by
  have hword (symbol : Nat) : 0 < (FixedCode.literalWord symbol).length := by
    unfold FixedCode.literalWord
    split_ifs <;> simp [length_bitsOf]
  cases token with
  | literal b => exact hword _
  | copy length distance =>
    simp only [FixedCode.tokenBits, List.length_append]
    have := hword (firstLengthSymbol + (toSymbol lengthRows length).1)
    omega

/-- Every token takes a bit, so the bits are fuel enough for reading the tokens. -/
theorem length_le_flatMap_tokenBits (tokens : List Token) :
    tokens.length ≤ (tokens.flatMap FixedCode.tokenBits).length := by
  induction tokens with
  | nil => simp
  | cons token tokens ih =>
    have hpos := length_tokenBits_pos token
    simp only [List.flatMap_cons, List.length_append, List.length_cons]
    omega

end GzipStage.Deflate
