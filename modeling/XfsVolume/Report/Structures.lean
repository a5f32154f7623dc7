import XfsVolume.Extent.Map
import XfsVolume.Report.Document
import XfsVolume.Volume.Attributes

/-!
# Reports of a volume's structures

Each structure as a record of its fields, in the order in which the structure holds them.
-/

namespace XfsVolume

open Document

/-- Bytes as a list of numbers. -/
def byteItems (bs : List UInt8) : Document := items (bs.map fun b => nat b.toNat)

/-- Fields of a superblock. -/
def Superblock.report (sb : Superblock) : Document := record [
  ("block_size", nat sb.blockSize.toNat),
  ("dblocks", nat sb.dataBlocks.toNat),
  ("rblocks", nat sb.realtimeBlocks.toNat),
  ("rextents", nat sb.realtimeExtents.toNat),
  ("uuid", byteItems sb.uuid),
  ("logstart", nat sb.logStart.toNat),
  ("root_ino", nat sb.rootIno.toNat),
  ("rbm_ino", nat sb.realtimeBitmapIno.toNat),
  ("rsum_ino", nat sb.realtimeSummaryIno.toNat),
  ("rextsize", nat sb.realtimeExtentSize.toNat),
  ("ag_blocks", nat sb.agBlocks.toNat),
  ("ag_count", nat sb.agCount.toNat),
  ("rbm_blocks", nat sb.realtimeBitmapBlocks.toNat),
  ("log_blocks", nat sb.logBlocks.toNat),
  ("version_num", nat sb.versionNum.toNat),
  ("sect_size", nat sb.sectorSize.toNat),
  ("inode_size", nat sb.inodeSize.toNat),
  ("inodes_per_block", nat sb.inodesPerBlock.toNat),
  ("fname", text sb.label),
  ("block_log", nat sb.blockLog.toNat),
  ("sect_log", nat sb.sectorLog.toNat),
  ("inode_log", nat sb.inodeLog.toNat),
  ("inopb_log", nat sb.inodesPerBlockLog.toNat),
  ("ag_blk_log", nat sb.agBlockLog.toNat),
  ("rexts_log", nat sb.realtimeExtentsLog.toNat),
  ("in_progress", nat sb.inProgress.toNat),
  ("imax_pct", nat sb.inodeMaxPercent.toNat),
  ("icount", nat sb.inodeCount.toNat),
  ("ifree", nat sb.freeInodes.toNat),
  ("fdblocks", nat sb.freeBlocks.toNat),
  ("frextents", nat sb.freeRealtimeExtents.toNat),
  ("features2", nat sb.features2.toNat),
  ("dir_blk_log", nat sb.dirBlockLog.toNat),
  ("features_compat", nat sb.compatFeatures.toNat),
  ("features_ro_compat", nat sb.readOnlyFeatures.toNat),
  ("features_incompat", nat sb.incompatFeatures.toNat),
  ("features_log_incompat", nat sb.logFeatures.toNat),
  ("meta_uuid", byteItems sb.metaUuid)]

/-- Fields of a geometry. -/
def Geometry.report (geo : Geometry) : Document := record [
  ("block_size", nat geo.blockSize.toNat),
  ("block_log", nat geo.blockLog.toNat),
  ("dblocks", nat geo.dataBlocks.toNat),
  ("ag_blocks", nat geo.agBlocks.toNat),
  ("ag_blk_log", nat geo.agBlockLog.toNat),
  ("ag_count", nat geo.agCount.toNat),
  ("inode_size", nat geo.inodeSize.toNat),
  ("inode_log", nat geo.inodeLog.toNat),
  ("inopb_log", nat geo.inodesPerBlockLog.toNat),
  ("dir_blk_log", nat geo.dirBlockLog.toNat),
  ("dir_block_size", nat geo.dirBlockSize.toNat),
  ("root_ino", nat geo.rootIno.toNat),
  ("is_v5", flag geo.isV5),
  ("has_ftype", flag geo.hasFtype)]

/-- Fields of an inode's place. -/
def InodeSlot.report (slot : InodeSlot) : Document := record [
  ("agno", nat slot.ag),
  ("agbno", nat slot.agBlock),
  ("index", nat slot.index),
  ("block", nat slot.block),
  ("offset", nat slot.offset)]

/-- Fields of an extent. -/
def Extent.report (e : Extent) : Document := record [
  ("startoff", nat e.start),
  ("startblock", nat e.address),
  ("blockcount", nat e.count),
  ("unwritten", flag e.unwritten)]

/-- Fields of a mapping. -/
def Mapping.report (m : Mapping) : Document := record [
  ("logical", nat m.logical),
  ("physical", nat m.physical),
  ("unwritten", flag m.unwritten)]

/-- Fields of a timestamp. -/
def Timestamp.report (t : Timestamp) : Document := record [
  ("sec", number t.sec),
  ("nsec", nat t.nsec.toNat)]

/-- Fields of an inode's core; the fork is not among them. -/
def Inode.coreFields (inode : Inode) : List (String × Document) := [
  ("ino", nat inode.ino.toNat),
  ("mode", nat inode.mode.toNat),
  ("version", nat inode.version.toNat),
  ("format", text inode.format.name),
  ("uid", nat inode.uid.toNat),
  ("gid", nat inode.gid.toNat),
  ("nlink", nat inode.nlink.toNat),
  ("atime", inode.atime.report),
  ("mtime", inode.mtime.report),
  ("ctime", inode.ctime.report),
  ("crtime", ofOption Timestamp.report inode.crtime),
  ("size", nat inode.size.toNat),
  ("nblocks", nat inode.blocks.toNat),
  ("extsize", nat inode.extentSize.toNat),
  ("nextents", nat inode.extents.toNat),
  ("anextents", nat inode.attrExtents.toNat),
  ("forkoff", nat inode.forkOffset.toNat),
  ("aformat", nat inode.attrFormat.toNat),
  ("flags", nat inode.flags.toNat),
  ("flags2", nat inode.flags2.toNat),
  ("generation", nat inode.generation.toNat)]

/-- A point in time, counted from the epoch. -/
def Timestamp.sinceEpoch (t : Timestamp) : Document := record [
  ("secs_since_epoch", number t.sec),
  ("nanos_since_epoch", nat t.nsec.toNat)]

/-- Fields of an inode's attributes, with each time shown by `time`. -/
def Attributes.fields (a : Attributes) (time : Timestamp → Document) :
    List (String × Document) := [
  ("ino", nat a.ino),
  ("size", nat a.size),
  ("blocks", nat a.units),
  ("atime", time a.atime),
  ("mtime", time a.mtime),
  ("ctime", time a.ctime),
  ("crtime", time a.crtime),
  ("kind", text a.kind.name),
  ("perm", nat a.permissions.toNat),
  ("nlink", nat a.nlink.toNat),
  ("uid", nat a.uid.toNat),
  ("gid", nat a.gid.toNat),
  ("rdev", nat a.device.toNat),
  ("blksize", nat a.blockSize)]

/-- Fields of a directory entry, its name shown as text. -/
def DirEntry.report (e : DirEntry) : Document := record [
  ("name", text (lossyText e.name)),
  ("ino", nat e.ino),
  ("entry_type", text e.kind.name)]

end XfsVolume
