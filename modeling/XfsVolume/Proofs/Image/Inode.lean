import XfsVolume.Inode.Load
import XfsVolume.Proofs.Fields
import XfsVolume.Proofs.Image.Taking

/-!
# Inodes written and read back

An inode that is written fills its slot: the core of fixed layout, then the fork, then zeros. What
is decoded from the slot repeats what was asked for, the fork being followed by the zeros up to the
end of the slot (`InodeDraft.StoredAs`).
-/

namespace XfsVolume

theorem ForkFormat.ofCode?_code (f : ForkFormat) : ForkFormat.ofCode? f.code = some f := by
  cases f with
  | dev => rfl
  | inline => rfl
  | extents => rfl
  | btree => rfl
  | uuid => rfl

namespace InodeDraft

variable {o : ImageOptions} {d : InodeDraft} {ino : Nat}

theorem laid_coreFields (d : InodeDraft) (o : ImageOptions) (ino : Nat) :
    Field.Laid 0 o.coreLength (d.coreFields o ino) := by
  rw [coreFields, ImageOptions.coreLength]
  cases o.isV5 <;> simp [Field.Laid, Field.stop, coreLengthV3, coreLengthV2]

theorem laid_coreFields_slot (ho : o.Accepted) (d : InodeDraft) (ino : Nat) :
    Field.Laid 0 o.inodeSize (d.coreFields o ino) :=
  (d.laid_coreFields o ino).mono (by have := ho.literalLength_ge; omega)

theorem size_encode (ho : o.Accepted) (hfork : d.fork.size ≤ o.literalLength) :
    (d.encode o ino).size = o.inodeSize := by
  have hcore := (d.laid_coreFields_slot ho ino).size_blockOf
  have hliteral := ho.literalLength_ge.2
  rw [encode, size_overwrite (by rw [hcore]; omega), hcore]

theorem beNat_encode (ho : o.Accepted) (hfork : d.fork.size ≤ o.literalLength) {off n : Nat}
    (h : off + n ≤ o.coreLength) :
    beNat (d.encode o ino) off n = beNat (blockOf o.inodeSize (d.coreFields o ino)) off n := by
  have hcore := (d.laid_coreFields_slot ho ino).size_blockOf
  have hliteral := ho.literalLength_ge.2
  rw [encode, beNat_overwrite_of_apart (by rw [hcore]; omega) (Or.inl h)]

theorem beNat_encode_field (ho : o.Accepted) (hfork : d.fork.size ≤ o.literalLength)
    {off width v : Nat} (hf : ⟨off, width, v⟩ ∈ d.coreFields o ino) :
    beNat (d.encode o ino) off width = v % 256 ^ width := by
  have hlaid := d.laid_coreFields_slot ho ino
  have hstop := ((d.laid_coreFields o ino).bounds _ hf).2
  rw [beNat_encode ho hfork hstop]
  exact beNat_blockOf (fun f hf => (hlaid.bounds f hf).2) hlaid.pairwise hf

theorem beNat_encode_zero (ho : o.Accepted) (hfork : d.fork.size ≤ o.literalLength) {off n : Nat}
    (h : off + n ≤ o.coreLength)
    (ha : ∀ f ∈ d.coreFields o ino, off + n ≤ f.offset ∨ f.stop ≤ off) :
    beNat (d.encode o ino) off n = 0 % 256 ^ n := by
  rw [beNat_encode ho hfork h, Nat.zero_mod]
  exact beNat_blockOf_of_apart (fun f hf => ((d.laid_coreFields_slot ho ino).bounds f hf).2) ha

theorem byteAt_encode_fork (ho : o.Accepted) (hfork : d.fork.size ≤ o.literalLength) {i : Nat} :
    byteAt (d.encode o ino) (o.coreLength + i) = byteAt d.fork i := by
  have hcore := (d.laid_coreFields_slot ho ino).size_blockOf
  have hliteral := ho.literalLength_ge.2
  rw [encode, byteAt_overwrite (by rw [hcore]; omega)]
  split
  · rw [Nat.add_sub_cancel_left]
  · rw [byteAt_of_le (b := d.fork) (by omega)]
    rw [blockOf, byteAt_writeFields_of_outside, byteAt_zeros]
    · intro f hf
      rw [size_zeros]
      exact ((d.laid_coreFields_slot ho ino).bounds f hf).2
    · intro f hf
      have := ((d.laid_coreFields o ino).bounds f hf).2
      exact Or.inr (by omega)

/-- The inode that repeats the draft, with what every inode of a synthetic volume has in common. -/
def decoded (d : InodeDraft) (o : ImageOptions) (ino : Nat) : Inode where
  ino := UInt64.ofNat ino
  mode := d.mode
  version := if o.isV5 then 3 else 2
  format := d.format
  uid := UInt32.ofNat imageUid
  gid := UInt32.ofNat imageGid
  nlink := UInt32.ofNat d.nlink
  atime := ⟨imageTime, 0⟩
  mtime := ⟨imageTime, 0⟩
  ctime := ⟨imageTime, 0⟩
  crtime := if o.isV5 then some ⟨imageTime, 0⟩ else none
  size := UInt64.ofNat d.size
  blocks := UInt64.ofNat d.blocks
  extentSize := 0
  extents := (UInt32.ofNat d.extents).toUInt64
  attrExtents := 0
  forkOffset := 0
  attrFormat := ForkFormat.extents.code
  flags := 0
  flags2 := 0
  generation := 1
  fork := overwrite (zeros o.literalLength) 0 d.fork

theorem window_encode_fork (ho : o.Accepted) (hfork : d.fork.size ≤ o.literalLength) :
    window (d.encode o ino) o.coreLength o.literalLength =
      overwrite (zeros o.literalLength) 0 d.fork := by
  have hsize : (d.encode o ino).size = o.inodeSize := size_encode ho hfork
  have hliteral := ho.literalLength_ge.2
  have hroom : 0 + d.fork.size ≤ (zeros o.literalLength).size := by
    rw [size_zeros]
    omega
  apply bytes_ext
  · rw [size_window_of_le (by omega), size_overwrite hroom, size_zeros]
  · intro i hi
    rw [size_window_of_le (by omega)] at hi
    rw [byteAt_window hi, byteAt_encode_fork ho hfork, byteAt_overwrite hroom, byteAt_zeros,
      Nat.zero_add, Nat.sub_zero]
    split
    · rfl
    · exact byteAt_of_le (by omega)

/-! ## What the decoded inode counts -/

theorem toNat_size_decoded (o : ImageOptions) (ino : Nat) (h : d.size < UInt64.size) :
    (d.decoded o ino).size.toNat = d.size := UInt64.toNat_ofNat_of_lt' h

theorem toNat_blocks_decoded (o : ImageOptions) (ino : Nat) (h : d.blocks < UInt64.size) :
    (d.decoded o ino).blocks.toNat = d.blocks := UInt64.toNat_ofNat_of_lt' h

theorem toNat_extents_decoded (o : ImageOptions) (ino : Nat) (h : d.extents < UInt32.size) :
    (d.decoded o ino).extents.toNat = d.extents := UInt32.toNat_ofNat_of_lt' h

/-- The fork of the decoded inode is all of its slot behind the core. -/
theorem size_fork_decoded (ino : Nat) (hfork : d.fork.size ≤ o.literalLength) :
    (d.decoded o ino).fork.size = o.literalLength := by
  have hroom : 0 + d.fork.size ≤ (zeros o.literalLength).size := by
    rw [size_zeros, Nat.zero_add]
    exact hfork
  rw [decoded, size_overwrite hroom, size_zeros]

/-! ## Decoding -/

section

variable (ho : o.Accepted) (hfork : d.fork.size ≤ o.literalLength) (ino : Nat)
include ho hfork

theorem encode_lt_wordLimit : (d.encode o ino).size < wordLimit := by
  have hinode := ho.inodeSize
  rw [size_encode ho hfork, wordLimit, UInt64.size]
  omega

theorem core_le_encode : 100 ≤ o.coreLength ∧ o.coreLength ≤ (d.encode o ino).size := by
  have hliteral := ho.literalLength_ge.2
  rw [size_encode ho hfork, ImageOptions.coreLength, coreLengthV2, coreLengthV3]
  refine ⟨by split <;> omega, ?_⟩
  rw [ImageOptions.coreLength, coreLengthV2, coreLengthV3] at hliteral
  omega

theorem field_le_encode {off width v : Nat} (hf : ⟨off, width, v⟩ ∈ d.coreFields o ino) :
    off + width ≤ (d.encode o ino).size :=
  Nat.le_trans ((d.laid_coreFields o ino).bounds _ hf).2 (core_le_encode ho hfork ino).2

theorem readU8_encode {off v : Nat} (hf : ⟨off, 1, v⟩ ∈ d.coreFields o ino) :
    readU8 (d.encode o ino) off = .ok (UInt8.ofNat v) :=
  readU8_of_beNat (encode_lt_wordLimit ho hfork ino) (field_le_encode ho hfork ino hf)
    (beNat_encode_field ho hfork hf)

theorem readU16_encode {off v : Nat} (hf : ⟨off, 2, v⟩ ∈ d.coreFields o ino) :
    readU16 (d.encode o ino) off = .ok (UInt16.ofNat v) :=
  readU16_of_beNat (encode_lt_wordLimit ho hfork ino) (field_le_encode ho hfork ino hf)
    (beNat_encode_field ho hfork hf)

theorem readU32_encode {off v : Nat} (hf : ⟨off, 4, v⟩ ∈ d.coreFields o ino) :
    readU32 (d.encode o ino) off = .ok (UInt32.ofNat v) :=
  readU32_of_beNat (encode_lt_wordLimit ho hfork ino) (field_le_encode ho hfork ino hf)
    (beNat_encode_field ho hfork hf)

theorem readU64_encode {off v : Nat} (hf : ⟨off, 8, v⟩ ∈ d.coreFields o ino) :
    readU64 (d.encode o ino) off = .ok (UInt64.ofNat v) :=
  readU64_of_beNat (encode_lt_wordLimit ho hfork ino) (field_le_encode ho hfork ino hf)
    (beNat_encode_field ho hfork hf)

theorem decodeForm_encode : Inode.decodeForm (d.encode o ino) =
    .ok (if o.isV5 then 3 else 2, o.coreLength, d.format) := by
  have hcore := core_le_encode ho hfork ino
  have hversion : UInt8.ofNat (if o.isV5 then 3 else 2) = if o.isV5 then 3 else 2 := by
    split <;> rfl
  have hlength : Inode.coreLength? (if o.isV5 then 3 else 2) = some o.coreLength := by
    rw [ImageOptions.coreLength]
    split <;> rfl
  rw [Inode.decodeForm, readU16_encode ho hfork ino (v := inodeMagic.toNat) (by simp [coreFields]),
    ok_bind, UInt16.ofNat_toNat, if_neg (fun h => h rfl),
    readU8_encode ho hfork ino (v := if o.isV5 then 3 else 2) (by simp [coreFields]), ok_bind,
    hversion, hlength]
  dsimp only
  rw [if_neg (by omega), readU8_encode ho hfork ino (v := d.format.code.toNat)
    (by simp [coreFields]), ok_bind, UInt8.ofNat_toNat, ForkFormat.ofCode?_code]
  rfl

theorem decodeFlags2_encode : Inode.decodeFlags2 (d.encode o ino)
    ((if o.isV5 then 3 else 2 : UInt8) == 3) (UInt64.ofNat ino) = .ok 0 := by
  have hw := encode_lt_wordLimit ho hfork ino
  have hcore := core_le_encode ho hfork ino
  cases hv : o.isV5 with
  | false => rfl
  | true =>
    have hlength : o.coreLength = 176 := by rw [ImageOptions.coreLength, hv]; rfl
    show Inode.decodeFlags2 (d.encode o ino) true (UInt64.ofNat ino) = .ok 0
    rw [Inode.decodeFlags2, if_pos rfl, readU64_of_beNat hw (by omega)
        (beNat_encode_zero ho hfork (by omega) (by simp [coreFields, hv, Field.stop])),
      ok_bind, readU64_encode ho hfork ino (v := ino) (by simp [coreFields, hv]),
      ok_bind, if_neg (fun h => h rfl)]
    rfl

theorem decodeCounts_encode : Inode.decodeCounts (d.encode o ino) false =
    .ok ((UInt32.ofNat d.extents).toUInt64, 0) := by
  have hw := encode_lt_wordLimit ho hfork ino
  have hcore := core_le_encode ho hfork ino
  rw [Inode.decodeCounts, if_neg Bool.false_ne_true,
    readU32_encode ho hfork ino (v := d.extents) (by simp [coreFields]),
    ok_bind, readU16_of_beNat hw (by omega) (beNat_encode_zero ho hfork (by omega)
      (by cases hv : o.isV5 <;> simp [coreFields, hv, Field.stop]))]
  rfl

theorem decodeLinkCount_encode : Inode.decodeLinkCount (d.encode o ino)
    (if o.isV5 then 3 else 2) = .ok (UInt32.ofNat d.nlink) := by
  have hlate : ((if o.isV5 then 3 else 2 : UInt8) == 1) = false := by
    cases o.isV5 <;> rfl
  rw [Inode.decodeLinkCount, hlate, if_neg Bool.false_ne_true,
    readU32_encode ho hfork ino (v := d.nlink) (by simp [coreFields])]

theorem decodeForkLength_encode : Inode.decodeForkLength (d.encode o ino) o.literalLength =
    .ok (0, o.literalLength) := by
  have hw := encode_lt_wordLimit ho hfork ino
  have hcore := core_le_encode ho hfork ino
  rw [Inode.decodeForkLength, readU8_of_beNat hw (by omega) (beNat_encode_zero ho hfork (by omega)
    (by cases hv : o.isV5 <;> simp [coreFields, hv, Field.stop])), ok_bind]
  exact if_neg (Nat.lt_irrefl _)

theorem decodeTime_encode {off : Nat} (hf : ⟨off, 4, imageTime⟩ ∈ d.coreFields o ino)
    (h : off + 8 ≤ o.coreLength)
    (ha : ∀ f ∈ d.coreFields o ino, off + 4 + 4 ≤ f.offset ∨ f.stop ≤ off + 4) :
    Timestamp.decode (d.encode o ino) off false = .ok ⟨imageTime, 0⟩ := by
  have hw := encode_lt_wordLimit ho hfork ino
  have hcore := core_le_encode ho hfork ino
  have hsec : signed32 (UInt32.ofNat imageTime) = imageTime := by decide +kernel
  rw [Timestamp.decode, if_neg Bool.false_ne_true, readU32_encode ho hfork ino hf, ok_bind,
    readU32_of_beNat hw (by omega) (beNat_encode_zero ho hfork (by omega) ha), ok_bind, hsec]
  rfl

theorem decodeTimes_encode {off : Nat} (h : off = 32 ∨ off = 40 ∨ off = 48) :
    Timestamp.decode (d.encode o ino) off false = .ok ⟨imageTime, 0⟩ := by
  have hcore := core_le_encode ho hfork ino
  apply decodeTime_encode ho hfork ino
  · rcases h with rfl | rfl | rfl <;> simp [coreFields]
  · omega
  · rcases h with rfl | rfl | rfl <;>
      cases hv : o.isV5 <;> simp [coreFields, hv, Field.stop]

theorem decodeCreation_encode : Inode.decodeCreation (d.encode o ino)
    ((if o.isV5 then 3 else 2 : UInt8) == 3) false =
      .ok (if o.isV5 then some ⟨imageTime, 0⟩ else none) := by
  cases hv : o.isV5 with
  | false => rfl
  | true =>
    have hlength : o.coreLength = 176 := by rw [ImageOptions.coreLength, hv]; rfl
    show Inode.decodeCreation (d.encode o ino) true false = .ok (some ⟨imageTime, 0⟩)
    rw [Inode.decodeCreation, if_pos rfl, decodeTime_encode ho hfork ino
      (by simp [coreFields, hv]) (by omega) (by simp [coreFields, hv, Field.stop])]
    rfl

/-- What is decoded from a slot repeats what was written to it. -/
theorem decode_encode : Inode.decode (d.encode o ino) (UInt64.ofNat ino) =
    .ok (d.decoded o ino) := by
  have hw := encode_lt_wordLimit ho hfork ino
  have hcore := core_le_encode ho hfork ino
  have hliteral := ho.literalLength_ge.2
  have hrest : (d.encode o ino).size - o.coreLength = o.literalLength := by
    rw [size_encode ho hfork]
    omega
  have hmode : readU16 (d.encode o ino) 2 = .ok d.mode := by
    rw [readU16_encode ho hfork ino (v := d.mode.toNat) (by simp [coreFields]), UInt16.ofNat_toNat]
  have hattr : readU8 (d.encode o ino) 83 = .ok ForkFormat.extents.code := by
    rw [readU8_encode ho hfork ino (v := ForkFormat.extents.code.toNat) (by simp [coreFields]),
      UInt8.ofNat_toNat]
  have hextentSize : readU32 (d.encode o ino) 72 = .ok 0 :=
    readU32_of_beNat hw (by omega) (beNat_encode_zero ho hfork (by omega)
      (by cases hv : o.isV5 <;> simp [coreFields, hv, Field.stop]))
  have hflags : readU16 (d.encode o ino) 90 = .ok 0 :=
    readU16_of_beNat hw (by omega) (beNat_encode_zero ho hfork (by omega)
      (by cases hv : o.isV5 <;> simp [coreFields, hv, Field.stop]))
  have hnarrow : (((0 : UInt64) &&& wideTimeBit) != 0) = false := rfl
  have hfew : (((0 : UInt64) &&& wideCountBit) != 0) = false := rfl
  rw [Inode.decode, decodeForm_encode ho hfork ino, ok_bind]
  dsimp only
  rw [decodeFlags2_encode ho hfork ino, ok_bind, hfew, decodeCounts_encode ho hfork ino, ok_bind]
  dsimp only
  rw [decodeLinkCount_encode ho hfork ino, ok_bind, hrest, decodeForkLength_encode ho hfork ino,
    ok_bind]
  dsimp only
  rw [hnarrow, hmode, ok_bind,
    readU32_encode ho hfork ino (v := imageUid) (by simp [coreFields]), ok_bind,
    readU32_encode ho hfork ino (v := imageGid) (by simp [coreFields]), ok_bind,
    decodeTimes_encode ho hfork ino (by decide), ok_bind,
    decodeTimes_encode ho hfork ino (by decide), ok_bind,
    decodeTimes_encode ho hfork ino (by decide), ok_bind,
    decodeCreation_encode ho hfork ino, ok_bind,
    readU64_encode ho hfork ino (v := d.size) (by simp [coreFields]), ok_bind,
    readU64_encode ho hfork ino (v := d.blocks) (by simp [coreFields]), ok_bind, hextentSize,
    ok_bind, hattr, ok_bind, hflags, ok_bind,
    readU32_encode ho hfork ino (v := 1) (by simp [coreFields]), ok_bind,
    readBytes_eq hw (by rw [size_encode ho hfork]; omega), ok_bind,
    window_encode_fork ho hfork]
  rfl

end

end InodeDraft

end XfsVolume
