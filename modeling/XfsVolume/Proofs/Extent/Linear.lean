import XfsVolume.Proofs.Extent.Mapping
import XfsVolume.Proofs.Superblock

/-!
# Addresses that follow one another

The blocks of an extent have addresses that follow one another, but a reader that goes along an
extent goes along the blocks of the device. The two agree as long as each address passed names a
block of its group (`blockNamed_add`): past the end of a group they part. Likewise a reader that
asks for an extent once and takes further blocks from it relies on look-ups to agree along an extent
(`Consistent`). They do for a list in the inode and for a well-formed tree, but a damaged tree may
answer otherwise for the next block.
-/

namespace XfsVolume

namespace Geometry

/-- Device block of the place that an address gives, in its group or past its end. -/
def blockNamed (geo : Geometry) (address : Nat) : Nat :=
  geo.groupBlock (address / 2 ^ geo.agBlockLog.toNat) (address % 2 ^ geo.agBlockLog.toNat)

/-- The address names a block: its group is there, and its place lies in the group and in the
volume. -/
structure Names (geo : Geometry) (address : Nat) : Prop where
  group : address / 2 ^ geo.agBlockLog.toNat < geo.agCount.toNat
  inGroup : address % 2 ^ geo.agBlockLog.toNat < geo.agBlocks.toNat
  inVolume : geo.blockNamed address < geo.dataBlocks.toNat

/-- The bits of an address that name a block of a group can name each of them. -/
def Addressable (geo : Geometry) : Prop := geo.agBlocks.toNat ≤ 2 ^ geo.agBlockLog.toNat

variable {geo : Geometry} {address : Nat}

theorem deviceBlock_eq_ok {block : Nat} : geo.deviceBlock address = .ok block ↔
    address / 2 ^ geo.agBlockLog.toNat < geo.agCount.toNat ∧
      address % 2 ^ geo.agBlockLog.toNat < geo.agBlocks.toNat ∧
      block = geo.blockNamed address := by
  rw [deviceBlock, ite_error_eq_ok, ite_error_eq_ok, Nat.not_le, Nat.not_le,
    Nat.shiftRight_eq_div_pow, Nat.one_shiftLeft]
  refine and_congr_right fun _ => and_congr_right fun _ => ?_
  constructor
  · intro h
    exact (Except.ok.inj h).symm
  · rintro rfl
    rfl

/-- The address after that of a block of a group names the next place of the device. Where the
group fills its addresses, that is the first block of the next group. -/
theorem blockNamed_succ (hg : geo.Addressable)
    (h : address % 2 ^ geo.agBlockLog.toNat < geo.agBlocks.toNat) :
    geo.blockNamed (address + 1) = geo.blockNamed address + 1 := by
  have hpos := Nat.two_pow_pos geo.agBlockLog.toNat
  rw [Addressable] at hg
  rw [blockNamed, blockNamed, groupBlock, groupBlock]
  generalize 2 ^ geo.agBlockLog.toNat = bound at hg h hpos ⊢
  have hsplit : address + 1 = address % bound + 1 + bound * (address / bound) := by
    have := Nat.div_add_mod address bound
    omega
  rcases Nat.lt_or_eq_of_le (Nat.mod_lt address hpos) with hlt | hend
  · have hdiv : (address + 1) / bound = address / bound := by
      rw [hsplit, Nat.add_mul_div_left _ _ hpos, Nat.div_eq_of_lt hlt, Nat.zero_add]
    have hmod : (address + 1) % bound = address % bound + 1 := by
      rw [hsplit, Nat.add_mul_mod_self_left, Nat.mod_eq_of_lt hlt]
    rw [hdiv, hmod, Nat.add_assoc]
  · have hfull : geo.agBlocks.toNat = bound := by omega
    have hnext : address + 1 = bound * (address / bound + 1) := by
      rw [Nat.mul_succ, Nat.add_comm (bound * _)]
      omega
    have hdiv : (address + 1) / bound = address / bound + 1 := by
      rw [hnext, Nat.mul_div_cancel_left _ hpos]
    have hmod : (address + 1) % bound = 0 := by
      rw [hnext, Nat.mul_mod_right]
    rw [hdiv, hmod, hfull, Nat.add_mul]
    omega

/-- As far as every address passed names a block of its group, the blocks named follow one
another. -/
theorem blockNamed_add (hg : geo.Addressable) {count : Nat}
    (h : ∀ j < count, (address + j) % 2 ^ geo.agBlockLog.toNat < geo.agBlocks.toNat) :
    geo.blockNamed (address + count) = geo.blockNamed address + count := by
  induction count with
  | zero => rfl
  | succ count ih =>
    have hprefix := ih fun j hj => h j (by omega)
    rw [← Nat.add_assoc, blockNamed_succ hg (h count (by omega)), hprefix, Nat.add_assoc]

end Geometry

theorem Superblock.addressable_of_validate {sb : Superblock} {geo : Geometry}
    (hv : sb.validate = .ok ()) (hg : sb.geometry = .ok geo) : geo.Addressable := by
  obtain ⟨-, rfl⟩ := geometry_eq_ok.mp hg
  simp only [validate, bind_eq_ok] at hv
  obtain ⟨_, -, _, -, _, -, _, hgroups, -⟩ := hv
  rw [checkGroups, ite_error_eq_ok, ite_error_eq_ok] at hgroups
  have hlog : sb.agBlockLog.toNat = ceilLog2 sb.agBlocks.toNat := Decidable.not_not.mp hgroups.2.1
  have hle := le_two_pow_ceilLog2 sb.agBlocks.toNat
  rw [← hlog] at hle
  exact hle

/-- Address that an extent gives to a file block it holds. -/
def Extent.addressAt (e : Extent) (logical : Nat) : Nat := e.address + (logical - e.start)

theorem Extent.covers_iff_stop {e : Extent} {logical : Nat} :
    e.covers logical = true ↔ e.start ≤ logical ∧ logical < e.stop := by
  rw [covers, Bool.and_eq_true, decide_eq_true_eq, decide_eq_true_eq]

theorem Extent.addressAt_add {e : Extent} {logical : Nat} (hc : e.covers logical = true) (k : Nat) :
    e.addressAt (logical + k) = e.addressAt logical + k := by
  have hfirst := (covers_iff_stop.mp hc).1
  rw [addressAt, addressAt]
  omega

/-- An extent goes along the device as far as it names blocks. -/
theorem Geometry.blockNamed_addressAt_add {geo : Geometry} (hg : geo.Addressable) {e : Extent}
    {logical count : Nat} (hc : e.covers logical = true)
    (h : ∀ k < count, geo.Names (e.addressAt (logical + k))) :
    geo.blockNamed (e.addressAt (logical + count)) =
      geo.blockNamed (e.addressAt logical) + count := by
  rw [Extent.addressAt_add hc]
  refine blockNamed_add hg fun k hk => ?_
  rw [← Extent.addressAt_add hc]
  exact (h k hk).inGroup

theorem Extent.addressOf?_eq {e : Extent} {logical : Nat} (hc : e.covers logical = true) :
    e.addressOf? logical = some (e.addressAt logical) := by
  rw [addressOf?, if_pos hc, addressAt]

namespace Medium

variable {m : Medium} {inode : Inode} {e : Extent} {logical : Nat}

/-- A file block that an extent covers is mapped when its address names a block. -/
theorem mappingIn_eq_ok (hc : e.covers logical = true) {mapping : Mapping} :
    m.mappingIn e logical = .ok mapping ↔
      m.geometry.Names (e.addressAt logical) ∧
        mapping = ⟨logical, m.geometry.blockNamed (e.addressAt logical), e.unwritten⟩ := by
  rw [mappingIn, Extent.addressOf?_eq hc]
  simp only [bind_eq_ok, mapError_eq_ok, Geometry.deviceBlock_eq_ok, throw_bind, ite_error_eq_ok,
    pure_eq_ok]
  constructor
  · rintro ⟨block, ⟨hgroup, hin, rfl⟩, hvolume, heq⟩
    exact ⟨⟨hgroup, hin, Nat.not_le.mp hvolume⟩, (Except.ok.inj heq).symm⟩
  · rintro ⟨hnames, rfl⟩
    exact ⟨_, ⟨hnames.group, hnames.inGroup, rfl⟩, Nat.not_le.mpr hnames.inVolume, rfl⟩

theorem mappingIn_ne_notFound (hc : e.covers logical = true) {l : Nat} :
    m.mappingIn e logical ≠ .error (.extentNotFound l) := by
  intro h
  rw [mappingIn, Extent.addressOf?_eq hc] at h
  cases hb : m.geometry.deviceBlock (e.addressAt logical) with
  | error err =>
    simp only [hb, mapError_error, error_bind] at h
    cases h
  | ok block =>
    simp only [hb, mapError_ok, ok_bind] at h
    split at h
    · cases h
    · cases h

/-! ## One extent for all its blocks -/

/-- A scan that finds an extent finds it for every file block that the extent covers: the extents
before it end at its start or before. -/
theorem scanExtents_covers {block : Nat} : ∀ {es : List Extent} {prevEnd : Option Nat},
    (∀ x ∈ es, x.Fits) → scanExtents block logical prevEnd es = .ok (.found e) →
      (∀ p ∈ prevEnd, p ≤ e.start) ∧
        ∀ l, e.covers l = true → scanExtents block l prevEnd es = .ok (.found e)
  | [], _, _, h => by cases h
  | x :: es, prevEnd, hfits, h => by
      rw [scanExtents, bind_eq_ok] at h
      obtain ⟨u, hcheck, h⟩ := h
      obtain ⟨hcount, hafter⟩ := Extent.of_checkAfter hcheck
      by_cases hc : x.covers logical = true
      · rw [if_pos hc] at h
        cases h
        refine ⟨hafter, fun l hl => ?_⟩
        rw [scanExtents, hcheck]
        exact if_pos hl
      · rw [if_neg hc] at h
        split at h
        · cases h
        · obtain ⟨hstart, hall⟩ :=
            scanExtents_covers (fun y hy => hfits y (List.mem_cons_of_mem _ hy)) h
          have hx := hfits x List.mem_cons_self
          have hbefore : x.start + x.count ≤ e.start := by
            rw [← hx.stop_eq]
            exact hstart _ rfl
          refine ⟨fun p hp => ?_, fun l hl => ?_⟩
          · have := hafter p hp
            omega
          · have hle := (Extent.covers_iff_stop.mp hl).1
            have hno : ¬ x.covers l = true := by
              rw [hx.covers_iff, Extent.Holds]
              omega
            rw [scanExtents, hcheck]
            exact (if_neg hno).trans ((if_neg (by omega)).trans (hall l hl))

/-- A look-up that gives an extent gives the same for every other file block of the extent. -/
def Consistent (m : Medium) (inode : Inode) : Prop :=
  ∀ logical e, m.findExtent inode logical = .ok e →
    ∀ l, e.covers l = true → m.findExtent inode l = .ok e

/-- Look-ups in a list of the inode go along its extents, whether or not the rest of the list is
sound. -/
theorem consistent_of_inline (hf : inode.format = .extents) : m.Consistent inode := by
  intro logical e h l hl
  rw [findExtent, hf] at h ⊢
  simp only [bind_eq_ok] at h
  obtain ⟨es, hinline, outcome, hscan, h⟩ := h
  have hfits : ∀ x ∈ es, x.Fits := by
    rw [Inode.inlineExtents, bind_eq_ok] at hinline
    obtain ⟨-, -, hfork⟩ := hinline
    exact Extent.fits_of_ofFork (mapError_eq_ok.mp hfork)
  cases outcome with
  | found x =>
    cases h
    simp only [hinline, ok_bind, (scanExtents_covers hfits hscan).2 l hl, pure_eq_ok]
  | passed => cases h
  | ended => cases h

/-- So do look-ups in a fork that holds extents as it should, list or tree. -/
theorem ForkHolds.consistent {extents : List Extent} (hs : m.device.Sized)
    (h : m.ForkHolds inode extents) : m.Consistent inode := by
  intro logical e hfind l hl
  by_cases hn : ∀ x ∈ extents, ¬ x.Holds logical
  · rw [(h.findExtent_eq hs logical).2 hn] at hfind
    cases hfind
  · obtain ⟨x, hx, hh⟩ : ∃ x ∈ extents, x.Holds logical := by
      by_contra hno
      exact hn fun x hx hh => hno ⟨x, hx, hh⟩
    rw [(h.findExtent_eq hs logical).1 x hx hh] at hfind
    cases hfind
    exact (h.findExtent_eq hs l).1 e hx (((h.inOrder.fits e hx).covers_iff l).mp hl)

theorem covers_of_scanExtents {block : Nat} : ∀ {es : List Extent} {prevEnd : Option Nat},
    scanExtents block logical prevEnd es = .ok (.found e) → e.covers logical = true
  | [], _, h => by cases h
  | x :: es, prevEnd, h => by
      rw [scanExtents, bind_eq_ok] at h
      obtain ⟨-, -, h⟩ := h
      by_cases hc : x.covers logical = true
      · rw [if_pos hc] at h
        cases h
        exact hc
      · rw [if_neg hc] at h
        split at h
        · cases h
        · exact covers_of_scanExtents h

theorem covers_of_findFrom : ∀ {links : Nat} {prevEnd : Option Nat} {leaf : TreeLeaf},
    m.findFrom inode logical links prevEnd leaf = .ok e → e.covers logical = true
  | links, prevEnd, leaf, h => by
      rw [findFrom.eq_def, bind_eq_ok] at h
      obtain ⟨outcome, hscan, h⟩ := h
      cases outcome with
      | found x =>
        cases h
        exact covers_of_scanExtents hscan
      | passed => cases h
      | ended last =>
        dsimp only at h
        split at h
        · cases h
        · cases links with
          | zero => cases h
          | succ links =>
            rw [bind_eq_ok] at h
            obtain ⟨next, -, h⟩ := h
            exact covers_of_findFrom h

/-- The extent that a look-up gives covers the file block. -/
theorem covers_of_findExtent (h : m.findExtent inode logical = .ok e) :
    e.covers logical = true := by
  rw [findExtent] at h
  cases hf : inode.format with
  | extents =>
    simp only [hf, bind_eq_ok] at h
    obtain ⟨es, -, outcome, hscan, h⟩ := h
    cases outcome with
    | found x =>
      cases h
      exact covers_of_scanExtents hscan
    | passed => cases h
    | ended => cases h
  | btree =>
    simp only [hf, bind_eq_ok] at h
    obtain ⟨leaf, -, h⟩ := h
    exact covers_of_findFrom h
  | _ =>
    rw [hf] at h
    cases h

/-- A file block is mapped by the extent that is found for it, when its address names a block. -/
theorem mapBlock_eq_ok_of_findExtent (hf : m.findExtent inode logical = .ok e)
    {mapping : Mapping} : m.mapBlock inode logical = .ok mapping ↔
      m.geometry.Names (e.addressAt logical) ∧
        mapping = ⟨logical, m.geometry.blockNamed (e.addressAt logical), e.unwritten⟩ := by
  rw [mapBlock, hf, ok_bind]
  exact mappingIn_eq_ok (covers_of_findExtent hf)

end Medium

end XfsVolume
