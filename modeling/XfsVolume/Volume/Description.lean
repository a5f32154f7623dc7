import XfsVolume.Volume.Basic

/-!
# Description of a volume

One line that shows a volume's geometry, the length of its device, and the counters of its directory
cache.
-/

namespace XfsVolume

/-- A structure's name and the names and values of its fields, on one line. -/
def recordText (name : String) (fields : List (String × String)) : String :=
  name ++ " \x7b " ++ ", ".intercalate (fields.map fun (k, v) => k ++ ": " ++ v) ++ " \x7d"

/-- A geometry on one line. -/
def Geometry.description (geo : Geometry) : String :=
  recordText "XfsGeometry" [
    ("block_size", toString geo.blockSize.toNat),
    ("block_log", toString geo.blockLog.toNat),
    ("dblocks", toString geo.dataBlocks.toNat),
    ("ag_blocks", toString geo.agBlocks.toNat),
    ("ag_blk_log", toString geo.agBlockLog.toNat),
    ("ag_count", toString geo.agCount.toNat),
    ("inode_size", toString geo.inodeSize.toNat),
    ("inode_log", toString geo.inodeLog.toNat),
    ("inopb_log", toString geo.inodesPerBlockLog.toNat),
    ("dir_blk_log", toString geo.dirBlockLog.toNat),
    ("dir_block_size", toString geo.dirBlockSize.toNat),
    ("root_ino", s!"InodeNumber({geo.rootIno.toNat})"),
    ("is_v5", toString geo.isV5),
    ("has_ftype", toString geo.hasFtype)]

/-- Counters of a cache on one line. -/
def CacheStats.description (s : CacheStats) : String :=
  recordText "CacheStats" [
    ("hits", toString s.hits),
    ("misses", toString s.misses),
    ("evictions", toString s.evictions)]

/-- A volume on one line, with the counters of its directory cache. -/
def Volume.description (v : Volume) (stats : CacheStats) : String :=
  "Volume \x7b geometry: " ++ v.geometry.description ++
    ", block_count: " ++ toString v.device.blockCount ++
    ", dir_cache: " ++ stats.description ++ ", .. \x7d"

end XfsVolume
