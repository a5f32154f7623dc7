import XfsVolume.Device.Basic
import XfsVolume.Fault
import XfsVolume.Geometry

/-!
# Media

A medium is a device together with the geometry by which its blocks are addressed: all that is
needed to follow a block address, an inode number or an extent. Nothing ties the two to each other,
so every address is checked against both.
-/

namespace XfsVolume

/-- A device and the geometry of the volume on it. -/
structure Medium where
  device : Device
  geometry : Geometry

namespace Medium

/-- The `count` blocks of the device from `start` on. -/
def readBlocks (m : Medium) (start count : Nat) : Except Fault ByteArray :=
  (m.device.readBlocks start count).mapError Fault.io

/-- Block `block` of the device. -/
def readBlock (m : Medium) (block : Nat) : Except Fault ByteArray :=
  m.readBlocks block 1

end Medium

end XfsVolume
