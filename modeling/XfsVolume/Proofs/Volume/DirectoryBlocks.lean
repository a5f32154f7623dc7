import XfsVolume.Proofs.Directory.Reading
import XfsVolume.Proofs.Volume.Runs

/-!
# Directory blocks at once and in pieces

A directory block that lies in one extent is read at once, through the cache, and only its first
volume block is translated; one that is split over extents is put together from volume blocks that
are translated one by one. Both give what the block map gives, block by block
(`MapsTogether`), if and only if an extent that holds a whole directory block names a block of the
volume for every part of it, which the reading at once does not check.
-/

namespace XfsVolume

theorem Geometry.blocksPerDirBlock_pos (geo : Geometry) : 0 < geo.blocksPerDirBlock := by
  rw [blocksPerDirBlock, Nat.one_shiftLeft]
  exact Nat.two_pow_pos _

namespace Medium

variable {m : Medium} {dir : Inode} {fb count : Nat} {data : ByteArray}

/-- The block map gives a block of the volume for each of the `count` file blocks from `fb` on, and
`data` is what the device holds in these blocks, one after the other. -/
def MapsTogether (m : Medium) (dir : Inode) (fb count : Nat) (data : ByteArray) : Prop :=
  ∃ place : Nat → Nat,
    (∀ k < count, ∃ mapping, m.mapBlock dir (fb + k) = .ok mapping ∧
      mapping.physical = place k) ∧
    data = joinBytes ((List.range count).map fun k => m.device.block (place k))

theorem mapsTogether_zero : m.MapsTogether dir fb 0 data ↔ data = ByteArray.empty := by
  constructor
  · rintro ⟨place, -, rfl⟩
    rfl
  · rintro rfl
    exact ⟨id, nofun, rfl⟩

theorem mapsTogether_succ : m.MapsTogether dir fb (count + 1) data ↔
    ∃ mapping rest, m.mapBlock dir fb = .ok mapping ∧ m.MapsTogether dir (fb + 1) count rest ∧
      data = m.device.block mapping.physical ++ rest := by
  constructor
  · rintro ⟨place, hplace, rfl⟩
    obtain ⟨mapping, hmap, hfirst⟩ := hplace 0 (Nat.succ_pos count)
    refine ⟨mapping, _, hmap, ⟨fun k => place (k + 1), fun k hk => ?_, rfl⟩, ?_⟩
    · have hnext := hplace (k + 1) (by omega)
      rwa [← Nat.add_assoc, Nat.add_right_comm] at hnext
    · rw [List.range_succ_eq_map, List.map_cons, List.map_map, joinBytes_cons, hfirst]
      rfl
  · rintro ⟨mapping, -, hmap, ⟨place, hplace, rfl⟩, rfl⟩
    refine ⟨fun k => k.casesOn mapping.physical place, fun k hk => ?_, ?_⟩
    · cases k with
      | zero => exact ⟨mapping, hmap, rfl⟩
      | succ k =>
        obtain ⟨next, hnext, hat⟩ := hplace k (by omega)
        rw [Nat.add_right_comm, Nat.add_assoc] at hnext
        exact ⟨next, hnext, hat⟩
    · rw [List.range_succ_eq_map, List.map_cons, List.map_map, joinBytes_cons]
      rfl

/-- Every part is mapped. -/
theorem MapsTogether.mapBlock (h : m.MapsTogether dir fb count data) {k : Nat} (hk : k < count) :
    ∃ mapping, m.mapBlock dir (fb + k) = .ok mapping := by
  obtain ⟨place, hplace, -⟩ := h
  obtain ⟨mapping, hmap, -⟩ := hplace k hk
  exact ⟨mapping, hmap⟩

/-- The block map gives one answer. -/
theorem MapsTogether.unique (count : Nat) {a b : ByteArray} : ∀ {fb : Nat},
    m.MapsTogether dir fb count a → m.MapsTogether dir fb count b → a = b := by
  induction count generalizing a b with
  | zero =>
    intro fb ha hb
    rw [mapsTogether_zero.mp ha, mapsTogether_zero.mp hb]
  | succ count ih =>
    intro fb ha hb
    obtain ⟨mapping, rest, hmap, hrest, rfl⟩ := mapsTogether_succ.mp ha
    obtain ⟨mapping', rest', hmap', hrest', rfl⟩ := mapsTogether_succ.mp hb
    rw [hmap] at hmap'
    cases hmap'
    rw [ih hrest hrest']

theorem physical_lt_of_mapBlock {logical : Nat} {mapping : Mapping}
    (h : m.mapBlock dir logical = .ok mapping) :
    mapping.physical < m.geometry.dataBlocks.toNat := by
  have hmap := h
  rw [Medium.mapBlock, bind_eq_ok] at h
  obtain ⟨e, hfind, -⟩ := h
  obtain ⟨hnames, rfl⟩ := (mapBlock_eq_ok_of_findExtent hfind).mp hmap
  exact hnames.inVolume

theorem dirBlockPieces_eq_ok (hs : m.device.Sized)
    (hin : m.geometry.dataBlocks.toNat ≤ m.device.blockCount) (count : Nat) :
    ∀ {k : Nat} {data : ByteArray},
      m.dirBlockPieces dir fb count k = .ok data ↔ m.MapsTogether dir (fb + k) count data := by
  induction count with
  | zero =>
    intro k data
    rw [mapsTogether_zero, dirBlockPieces]
    constructor
    · intro h
      exact (Except.ok.inj h).symm
    · rintro rfl
      rfl
  | succ count ih =>
    intro k data
    rw [mapsTogether_succ, dirBlockPieces]
    simp only [bind_eq_ok, mapError_eq_ok, pure_eq_ok, ih, Nat.add_assoc fb k 1]
    constructor
    · rintro ⟨mapping, hmap, piece, hpiece, rest, hrest, hdata⟩
      have hlt := Nat.lt_of_lt_of_le (physical_lt_of_mapBlock hmap) hin
      rw [readBlock_eq hs hlt] at hpiece
      cases hpiece
      exact ⟨mapping, rest, hmap, hrest, (Except.ok.inj hdata).symm⟩
    · rintro ⟨mapping, rest, hmap, hrest, rfl⟩
      have hlt := Nat.lt_of_lt_of_le (physical_lt_of_mapBlock hmap) hin
      exact ⟨mapping, hmap, _, readBlock_eq hs hlt, rest, hrest, rfl⟩

theorem mapsTogether_span (count : Nat) : ∀ {fb first : Nat},
    first + count ≤ m.device.blockCount →
    (∀ k < count, ∃ mapping, m.mapBlock dir (fb + k) = .ok mapping ∧
      mapping.physical = first + k) →
    m.MapsTogether dir fb count (m.device.span first count) := by
  induction count with
  | zero =>
    intro fb first _ _
    rw [mapsTogether_zero]
    apply bytes_ext
    · rw [Device.span, size_window, ByteArray.size_empty]
      omega
    · intro i hi
      rw [Device.span, size_window] at hi
      omega
  | succ count ih =>
    intro fb first hin hmapped
    obtain ⟨mapping, hmap, hfirst⟩ := hmapped 0 (Nat.succ_pos count)
    rw [Device.span_succ (by omega)]
    refine mapsTogether_succ.mpr ⟨mapping, m.device.span (first + 1) count, hmap,
      ih (by omega) fun k hk => ?_, ?_⟩
    · obtain ⟨next, hnext, hat⟩ := hmapped (k + 1) (by omega)
      rw [← Nat.add_assoc, Nat.add_right_comm] at hnext
      exact ⟨next, hnext, by omega⟩
    · rw [Nat.add_zero] at hfirst
      rw [hfirst]

/-! ## A directory block in one extent -/

variable {e : Extent}

/-- The extent found for the first part of a directory block is found for all its parts, if it holds
them. -/
theorem Consistent.found (hc : m.Consistent dir) (hfind : m.findExtent dir fb = .ok e)
    (hstop : fb + count ≤ e.stop) {k : Nat} (hk : k < count) :
    m.findExtent dir (fb + k) = .ok e := by
  refine hc fb e hfind (fb + k) ?_
  have hfirst := covers_of_findExtent hfind
  rw [Extent.covers_iff_stop] at hfirst ⊢
  omega

theorem dirBlock_eq_ok_of_whole (hs : m.device.Sized) (hfind : m.findExtent dir fb = .ok e)
    (hstop : fb + m.geometry.blocksPerDirBlock ≤ e.stop) :
    m.dirBlock dir fb = .ok data ↔ m.geometry.Names (e.addressAt fb) ∧
      m.geometry.blockNamed (e.addressAt fb) + m.geometry.blocksPerDirBlock ≤
        m.device.blockCount ∧
      data = m.device.span (m.geometry.blockNamed (e.addressAt fb))
        m.geometry.blocksPerDirBlock := by
  have hpos := m.geometry.blocksPerDirBlock_pos
  rw [dirBlock_eq, hfind, mapError_ok, ok_bind, if_pos hstop]
  simp only [bind_eq_ok, mappingIn_eq_ok (covers_of_findExtent hfind), ite_error_eq_ok,
    readBlocks_eq_ok hs]
  constructor
  · rintro ⟨mapping, ⟨hnames, rfl⟩, -, -, hend, rfl⟩
    exact ⟨hnames, hend, rfl⟩
  · rintro ⟨hnames, hend, rfl⟩
    exact ⟨_, ⟨hnames, rfl⟩, Nat.not_lt.mpr hend, hpos, hend, rfl⟩

theorem mapsTogether_of_names (hg : m.geometry.Addressable) (hc : m.Consistent dir)
    (hfind : m.findExtent dir fb = .ok e) (hstop : fb + count ≤ e.stop)
    (hin : m.geometry.blockNamed (e.addressAt fb) + count ≤ m.device.blockCount)
    (hnames : ∀ k < count, m.geometry.Names (e.addressAt (fb + k))) :
    m.MapsTogether dir fb count
      (m.device.span (m.geometry.blockNamed (e.addressAt fb)) count) := by
  refine mapsTogether_span count hin fun k hk => ?_
  refine ⟨_, (mapBlock_eq_ok_of_findExtent (hc.found hfind hstop hk)).mpr ⟨hnames k hk, rfl⟩, ?_⟩
  exact Geometry.blockNamed_addressAt_add hg (covers_of_findExtent hfind) fun j hj =>
    hnames j (by omega)

/-- A part that the block map gives has an address that names a block. -/
theorem MapsTogether.names (h : m.MapsTogether dir fb count data) (hc : m.Consistent dir)
    (hfind : m.findExtent dir fb = .ok e) (hstop : fb + count ≤ e.stop) {k : Nat}
    (hk : k < count) : m.geometry.Names (e.addressAt (fb + k)) := by
  obtain ⟨mapping, hmap⟩ := h.mapBlock hk
  exact ((mapBlock_eq_ok_of_findExtent (hc.found hfind hstop hk)).mp hmap).1

end Medium

namespace Volume

variable {v : Volume} {dir : Inode} {dev : Device} {options : MountOptions}

/-- **Directory blocks and the block map.** On a volume that was checked when it was mounted, in a
directory whose look-ups agree on every extent (`Consistent`), and with any cache of what the device
holds, reading a directory block succeeds exactly when each of its volume blocks is mapped, and gives
these blocks, if and only if this holds: an extent that holds the whole directory block, and whose
first block and range of the device there are right, names a block of the volume for every part.
Nothing is asked of directory blocks that are split. In a tree with misleading keys, which need not
be `Consistent`, the later parts may be mapped by other extents, and the theorem says nothing. -/
theorem readDirBlock_maps_iff (hm : mount dev options = .ok v) (hs : dev.Sized)
    (hvalid : options.skipValidation = false) (hc : v.Consistent dir) (fb : Nat)
    {cache : BlockCache} (hcache : cache.Agrees v.device) :
    (∀ data, ((v.readDirBlock dir fb).run.run cache).1 = .ok data ↔
        v.MapsTogether dir fb v.geometry.blocksPerDirBlock data) ↔
      ∀ e, v.findExtent dir fb = .ok e → fb + v.geometry.blocksPerDirBlock ≤ e.stop →
        v.geometry.Names (e.addressAt fb) →
        v.geometry.blockNamed (e.addressAt fb) + v.geometry.blocksPerDirBlock ≤
          v.device.blockCount →
        ∀ k < v.geometry.blocksPerDirBlock, v.geometry.Names (e.addressAt (fb + k)) := by
  have hmounted := mounted_of_mount hs hm
  have hsized : v.device.Sized := (hmounted.blocked hs).sized
  have hg : v.geometry.Addressable :=
    Superblock.addressable_of_validate (hmounted.valid hvalid) hmounted.geometry
  have hin : v.geometry.dataBlocks.toNat ≤ v.device.blockCount := by
    rw [hmounted.device]
    exact hmounted.inDevice hvalid
  have hpos := v.geometry.blocksPerDirBlock_pos
  have hread : ((v.readDirBlock dir fb).run.run cache).1 = v.dirBlock dir fb :=
    (v.steady_readDirBlock dir fb cache hcache).1
  rw [hread]
  constructor
  · intro hagree e hfind hstop hnames hend k hk
    have hwhole := (Medium.dirBlock_eq_ok_of_whole hsized hfind hstop).mpr ⟨hnames, hend, rfl⟩
    exact ((hagree _).mp hwhole).names hc hfind hstop hk
  · intro hnames data
    cases hfind : v.findExtent dir fb with
    | error fault =>
      constructor
      · intro h
        rw [Medium.dirBlock_eq, hfind, mapError_error, error_bind] at h
        cases h
      · intro h
        obtain ⟨mapping, hmap⟩ := h.mapBlock hpos
        rw [Nat.add_zero, Medium.mapBlock, hfind] at hmap
        cases hmap
    | ok e =>
      by_cases hstop : fb + v.geometry.blocksPerDirBlock ≤ e.stop
      · rw [Medium.dirBlock_eq_ok_of_whole hsized hfind hstop]
        constructor
        · rintro ⟨hfirst, hend, rfl⟩
          exact Medium.mapsTogether_of_names hg hc hfind hstop hend
            (hnames e hfind hstop hfirst hend)
        · intro h
          have hall : ∀ k < v.geometry.blocksPerDirBlock,
              v.geometry.Names (e.addressAt (fb + k)) := fun k hk => h.names hc hfind hstop hk
          have hend : v.geometry.blockNamed (e.addressAt fb) + v.geometry.blocksPerDirBlock ≤
              v.device.blockCount := by
            have hlast := (hall (v.geometry.blocksPerDirBlock - 1) (by omega)).inVolume
            rw [Geometry.blockNamed_addressAt_add hg (Medium.covers_of_findExtent hfind)
              fun k hk => hall k (by omega)] at hlast
            omega
          exact ⟨hall 0 hpos, hend, h.unique _
            (Medium.mapsTogether_of_names hg hc hfind hstop hend hall)⟩
      · rw [Medium.dirBlock_eq, hfind, mapError_ok, ok_bind, if_neg (by omega)]
        exact Medium.dirBlockPieces_eq_ok hsized hin _

/-! ### A directory across two groups -/

theorem dirBlock_acrossGroups (hdevice : v.device = shortGroupsDevice)
    (hgeo : v.geometry = shortGroups.geometry 0) :
    v.dirBlock (acrossGroups 0x4000) 0 = .ok (v.device.span 16 2) := by
  have hrun : v.geometry.blocksPerDirBlock = 2 := by
    rw [hgeo]
    decide
  have hnamed : v.geometry.blockNamed (Extent.addressAt ⟨0, 16, 2, false⟩ 0) = 16 := by
    rw [hgeo]
    decide
  have hsized : v.device.Sized := by
    rw [hdevice]
    exact shortGroupsDevice_sized
  refine (Medium.dirBlock_eq_ok_of_whole hsized (findExtent_acrossGroups _ _ (by decide)) ?_).mpr
    ⟨?_, ?_, ?_⟩
  · rw [hrun]
    decide
  · rw [hgeo]
    exact ⟨by decide, by decide, by decide⟩
  · rw [hnamed, hrun, hdevice, Device.blockCount, size_shortGroupsDevice]
    decide
  · rw [hnamed, hrun]

/-- The directory block is read, though the block map refuses its second volume block. -/
theorem readDirBlock_refused_by_map : ∃ v,
    mount shortGroupsDevice {} = .ok v ∧ (acrossGroups 0x4000).isDirectory = true ∧
      ((v.readDirBlock (acrossGroups 0x4000) 0).run.run v.emptyCache).1 =
        .ok (v.device.span 16 2) ∧ 1 < v.geometry.blocksPerDirBlock ∧
      ∃ flaw, v.mapBlock (acrossGroups 0x4000) (0 + 1) = .error (.corruptTree 17 flaw) := by
  obtain ⟨v, hmount, hdevice, hgeo⟩ := mount_shortGroupsDevice
  have hcache : v.emptyCache.Agrees v.device := BlockCache.agrees_withCapacity _ _
  have hread := (v.steady_readDirBlock (acrossGroups 0x4000) 0 _ hcache).1
  refine ⟨v, hmount, by decide, hread.trans (dirBlock_acrossGroups hdevice hgeo), ?_,
    .extentAddress 0 (.invalidField "fsblock" "AG block beyond sb_agblocks"),
    mapBlock_acrossGroups hgeo _⟩
  rw [hgeo]
  decide

/-- The same directory block by the general statement: what is read is not what is mapped. -/
theorem readDirBlock_acrossGroups_unmapped : ∃ v,
    mount shortGroupsDevice {} = .ok v ∧ shortGroupsDevice.Sized ∧
      v.Consistent (acrossGroups 0x4000) ∧ v.emptyCache.Agrees v.device ∧
      ¬ ∀ data, ((v.readDirBlock (acrossGroups 0x4000) 0).run.run v.emptyCache).1 = .ok data ↔
        v.MapsTogether (acrossGroups 0x4000) 0 v.geometry.blocksPerDirBlock data := by
  obtain ⟨v, hmount, hdevice, hgeo⟩ := mount_shortGroupsDevice
  have hconsistent := consistent_acrossGroups v.toMedium 0x4000
  have hcache : v.emptyCache.Agrees v.device := BlockCache.agrees_withCapacity _ _
  refine ⟨v, hmount, shortGroupsDevice_sized, hconsistent, hcache, ?_⟩
  rw [readDirBlock_maps_iff hmount shortGroupsDevice_sized rfl hconsistent 0 hcache, hgeo, hdevice]
  intro hnames
  have hfirst : (shortGroups.geometry 0).Names 16 := ⟨by decide, by decide, by decide⟩
  have hend : 16 + 2 ≤ shortGroupsDevice.blockCount := by
    rw [Device.blockCount, size_shortGroupsDevice]
    decide
  have hin := (hnames _ (findExtent_acrossGroups _ _ (by decide)) (by decide) hfirst hend 1
    (by decide)).inGroup
  exact absurd hin (by decide)

end Volume

end XfsVolume
