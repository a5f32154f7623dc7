import Mathlib.Data.Set.Function
import XfsVolume.Proofs.Bytes
import XfsVolume.Proofs.Extent.Order
import XfsVolume.Proofs.Steps

/-!
# Packed extents

The fields of an extent fill its two words without a gap: the flag, the file block and the upper
bits of the address the high word, the other bits of the address and the length the low one. So
every pair of words is the packed form of exactly one extent whose fields fit their bits, and such
an extent is read back from its bytes wherever they stand (`Extent.packing_lossless`).
-/

namespace XfsVolume

namespace Extent

variable {e : Extent} {b : ByteArray} {off : Nat}

/-! ## Words -/

theorem Fits.toWords_toNat (h : e.Fits) :
    e.toWords.1.toNat = e.unwritten.toNat * 2 ^ 63 + e.start * 2 ^ 9 + e.address / 2 ^ 43 ∧
      e.toWords.2.toNat = e.address % 2 ^ 43 * 2 ^ 21 + e.count := by
  have hstart := h.start
  have haddress := h.address
  have hcount := h.count
  have hflag := Bool.toNat_le e.unwritten
  rw [toWords]
  dsimp only
  rw [Nat.one_shiftLeft, Nat.one_shiftLeft, Nat.one_shiftLeft, Nat.one_shiftLeft,
    Nat.mod_eq_of_lt hstart, Nat.mod_eq_of_lt haddress, Nat.mod_eq_of_lt hcount]
  simp only [startBits, addressBits, countBits] at hstart haddress hcount
  simp only [countBits, Nat.shiftLeft_eq, Nat.shiftRight_eq_div_pow]
  constructor
  · apply UInt64.toNat_ofNat_of_lt'
    rw [UInt64.size]
    omega
  · apply UInt64.toNat_ofNat_of_lt'
    rw [UInt64.size]
    omega

theorem Fits.ofWords_toWords (h : e.Fits) : ofWords e.toWords.1 e.toWords.2 = e := by
  have hstart := h.start
  have haddress := h.address
  have hcount := h.count
  obtain ⟨hhi, hlo⟩ := h.toWords_toNat
  simp only [startBits, addressBits, countBits] at hstart haddress hcount
  obtain ⟨start, address, count, unwritten⟩ := e
  simp only at hstart haddress hcount hhi hlo
  simp only [ofWords, hhi, hlo, startBits, countBits, Nat.shiftLeft_eq,
    Nat.shiftRight_eq_div_pow]
  cases unwritten with
  | false =>
    simp only [Bool.toNat_false, Extent.mk.injEq, bne_eq_false_iff_eq]
    refine ⟨by omega, by omega, by omega, by omega⟩
  | true =>
    simp only [Bool.toNat_true, Extent.mk.injEq, bne_iff_ne, ne_eq]
    refine ⟨by omega, by omega, by omega, by omega⟩

theorem toWords_ofWords (hi lo : UInt64) : (ofWords hi lo).toWords = (hi, lo) := by
  obtain ⟨hhi, hlo⟩ := (ofWords_fits hi lo).toWords_toNat
  have hhiLt := hi.toNat_lt
  have hloLt := lo.toNat_lt
  have hflag : (hi.toNat / 2 ^ 63 != 0).toNat = hi.toNat / 2 ^ 63 := by
    have hbit : hi.toNat / 2 ^ 63 = 0 ∨ hi.toNat / 2 ^ 63 = 1 := by omega
    rcases hbit with hbit | hbit
    · rw [hbit]
      rfl
    · rw [hbit]
      rfl
  simp only [ofWords, startBits, countBits, Nat.shiftLeft_eq, Nat.shiftRight_eq_div_pow,
    hflag] at hhi hlo
  refine Prod.ext (UInt64.toNat_inj.mp ?_) (UInt64.toNat_inj.mp ?_)
  · simp only [ofWords, startBits, countBits, Nat.shiftLeft_eq, Nat.shiftRight_eq_div_pow]
    rw [hhi]
    omega
  · simp only [ofWords, startBits, countBits, Nat.shiftLeft_eq, Nat.shiftRight_eq_div_pow]
    rw [hlo]
    omega

/-! ## Bytes -/

theorem length_encode (e : Extent) : e.encode.length = 16 := by
  rw [encode, List.length_append, length_beBytes, length_beBytes]

theorem Fits.decode_of_spells (h : e.Fits) (hb : b.size < wordLimit) (hroom : off + 16 ≤ b.size)
    (hspells : Spells b off e.encode) : decode b off = .ok e := by
  rw [encode, spells_append, length_beBytes] at hspells
  obtain ⟨hhi, hlo⟩ := hspells
  rw [decode, readU64_of_beNat hb (by omega) hhi.beNat, ok_bind,
    readU64_of_beNat hb (by omega) hlo.beNat, ok_bind, UInt64.ofNat_toNat, UInt64.ofNat_toNat,
    h.ofWords_toWords]
  rfl

/-- **Packed extents lose nothing.** The packed form of what two words say is the bytes of the
words; an extent that fits its bits is decoded from its packed form at any place of any buffer; and
what words say is a bijection from pairs of words onto the extents that fit their bits. -/
theorem packing_lossless :
    (∀ hi lo : UInt64, (ofWords hi lo).encode = beBytes 8 hi.toNat ++ beBytes 8 lo.toNat) ∧
    (∀ e : Extent, e.Fits → ∀ front rest : List UInt8,
      (front ++ e.encode ++ rest).length < wordLimit →
        decode (front ++ e.encode ++ rest).toByteArray front.length = .ok e) ∧
    Set.BijOn (fun words : UInt64 × UInt64 => ofWords words.1 words.2) Set.univ {e | e.Fits} := by
  refine ⟨fun hi lo => ?_, fun e hfits front rest hlength => ?_, ?_, ?_, ?_⟩
  · rw [encode, toWords_ofWords]
  · have hspells := spells_toByteArray (front ++ e.encode ++ rest)
    rw [spells_append, spells_append, Nat.zero_add] at hspells
    have hsize : (front ++ e.encode ++ rest).toByteArray.size =
        front.length + 16 + rest.length := by
      rw [List.size_toByteArray, List.length_append, List.length_append, length_encode]
    exact hfits.decode_of_spells (by rwa [List.size_toByteArray]) (by omega) hspells.1.2
  · intro words _
    exact ofWords_fits words.1 words.2
  · intro words _ words' _ hsame
    have hwords := congrArg toWords hsame
    simp only [toWords_ofWords] at hwords
    exact hwords
  · intro e hfits
    exact ⟨e.toWords, Set.mem_univ _, Fits.ofWords_toWords hfits⟩

/-- An extent that was not written, whose address has bits in both words, between other bytes. -/
theorem packing_lossless_straddling :
    (⟨2 ^ 54 - 1, 2 ^ 52 - 2, 5, true⟩ : Extent).Fits ∧
      decode ([0xaa, 0xbb, 0xcc] ++ (⟨2 ^ 54 - 1, 2 ^ 52 - 2, 5, true⟩ : Extent).encode ++
        [0xdd]).toByteArray 3 = .ok ⟨2 ^ 54 - 1, 2 ^ 52 - 2, 5, true⟩ := by
  have hfits : (⟨2 ^ 54 - 1, 2 ^ 52 - 2, 5, true⟩ : Extent).Fits :=
    ⟨by decide, by decide, by decide⟩
  refine ⟨hfits, packing_lossless.2.1 _ hfits [0xaa, 0xbb, 0xcc] [0xdd] ?_⟩
  rw [List.length_append, List.length_append, length_encode]
  decide

end Extent

end XfsVolume
