import XfsVolume.Image.Directory
import XfsVolume.Image.Finish

/-!
# The sample volume

A small volume that has a directory of every format and a file of every kind of mapping:

- `/` is a leaf directory, `/boot` a block directory, `/boot/grub` and `/etc` inline ones, and
  `/home` a node directory of 300 entries;
- `/boot/vmlinuz` has three blocks in a row, `/sparse` holes and an unwritten extent, `/big` a tree
  of extents;
- `/etc/motd` is an inline symlink, `/long-link` one whose target lies in a block, `/null` a
  character device, and `/fifo` a pipe;
- `/file-00` to `/file-39` are links to one empty file.
-/

namespace XfsVolume

/-- Numbers of the sample volume's inodes. -/
structure SampleInodes where
  root : Nat
  boot : Nat
  vmlinuz : Nat
  grub : Nat
  grubCfg : Nat
  etc : Nat
  hostname : Nat
  motd : Nat
  home : Nat
  sparse : Nat
  big : Nat
  longLink : Nat
  nullDev : Nat
  deriving DecidableEq

namespace Sample

/-- Contents of `/etc/hostname`. -/
def hostname : String := "xfsr-sample\n"

/-- Contents of `/boot/grub/grub.cfg`. -/
def grubCfg : String := "set default=0\nset timeout=5\n"

/-- A text as the name of an entry. -/
def entry (name : String) (ino : Nat) : Name × Nat := (byteList name.toUTF8, ino)

/-- `n` in decimal with at least `width` digits. -/
def padded (width n : Nat) : String :=
  let ds := Nat.toDigits 10 n
  String.ofList (List.replicate (width - ds.length) '0' ++ ds)

/-- `count` entries for one inode, numbered from zero on. -/
def numbered (first : Name) (width count ino : Nat) : List (Name × Nat) :=
  (List.range count).map fun i => (first ++ byteList (padded width i).toUTF8, ino)

/-- Target of `/long-link`: the alphabet over and over, 600 letters. -/
def longTarget : ByteArray :=
  ((List.range 600).map fun i => UInt8.ofNat (97 + i % 26)).toByteArray

/-- Device number of `/null`: major 1, minor 3. -/
def nullDeviceNumber : UInt32 := 0x103

open BuildM

/-- Writes the sample volume. -/
def build : BuildM SampleInodes := do
  let root ← reserve
  let boot ← reserve
  let vmlinuz ← addPatterned (3 * 4096 - 100) [⟨0, 3, false⟩] none
  let grubCfg ← addFile grubCfg.toUTF8
  let grub ← addDir boot [entry "grub.cfg" grubCfg] .inline
  writeDir boot root [entry "vmlinuz" vmlinuz, entry "grub" grub] .block
  let hostname ← addFile hostname.toUTF8
  let motd ← addLink "/etc/hostname".toUTF8
  let etc ← addDir root [entry "hostname" hostname, entry "motd" motd] .inline
  let empty ← addFile ByteArray.empty
  let home ← addDir root (numbered (byteList "user".toUTF8) 4 300 empty) (.node 64 40 4)
  let sparse ← addPatterned (12 * 4096) [⟨1, 2, false⟩, ⟨5, 1, true⟩, ⟨8, 2, false⟩] none
  let bigExtents := (List.range 48).map fun i => (⟨i * 2, 1, false⟩ : ExtentDraft)
  let big ← addPatterned (96 * 4096) bigExtents (some ⟨6, 3⟩)
  let longLink ← addBlockLink longTarget
  let nullDev ← addSpecial (modeOf .charDevice 0o666) nullDeviceNumber
  let fifo ← addSpecial (modeOf .fifo 0o644) 0
  let named := [entry "boot" boot, entry "etc" etc, entry "home" home, entry "sparse" sparse,
    entry "big" big, entry "long-link" longLink, entry "null" nullDev, entry "fifo" fifo]
  let links := numbered (byteList "file-".toUTF8) 2 40 empty
  writeDir root root (named ++ links) (.leaf 20)
  setRoot root
  return { root, boot, vmlinuz, grub, grubCfg, etc, hostname, motd, home, sparse, big, longLink,
           nullDev }

end Sample

/-- Bytes of the sample volume laid out from `o`, and the numbers of its inodes. -/
def sampleImage (o : ImageOptions) : Except BuildFault (ByteArray × SampleInodes) :=
  buildImage o Sample.build

end XfsVolume
