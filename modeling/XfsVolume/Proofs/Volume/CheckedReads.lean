import XfsVolume.Proofs.Directory.Reading
import XfsVolume.Proofs.Volume.DirectoryBlocks
import XfsVolume.Proofs.Volume.ReadFaults

/-!
# Device faults of a medium

Where the volume ends inside its device (`Medium.Backed`), the readers of inodes, extent trees and
directories check every block number before they use it, so that they end with a fault of the volume
and not with one of the device: `NoIo` for a result, `Clean` for a computation that reads through
the cache. There is one lemma for each reader, which cites those of the readers it calls.
-/

namespace XfsVolume

variable {ε α β : Type}

/-! ## Results that are no device fault -/

/-- The fault is one of the device. -/
def Fault.isIo : Fault → Bool
  | .io _ => true
  | _ => false

/-- The result is no fault of the device. -/
def NoIo (r : Except Fault α) : Prop := ∀ f, r ≠ .error (.io f)

theorem noIo_iff {r : Except Fault α} : NoIo r ↔ FailsIn (·.isIo = false) r := by
  constructor
  · intro h e he
    cases e with
    | io f => exact absurd he (h f)
    | _ => rfl
  · intro h f hf
    cases h _ hf

theorem noIo_ok (a : α) : NoIo (.ok a) := noIo_iff.mpr (failsIn_ok a)

theorem noIo_error {e : Fault} (h : e.isIo = false) : NoIo (.error e : Except Fault α) :=
  noIo_iff.mpr (failsIn_error h)

/-- A fault that one result ends with is of the same kind where another ends with it. -/
theorem NoIo.error {e : Fault} (h : NoIo (.error e : Except Fault α)) :
    NoIo (.error e : Except Fault β) := noIo_error (noIo_iff.mp h e rfl)

theorem noIo_bind {x : Except Fault α} {f : α → Except Fault β} (hx : NoIo x)
    (hf : ∀ a, x = .ok a → NoIo (f a)) : NoIo (x >>= f) :=
  noIo_iff.mpr (failsIn_bind (noIo_iff.mp hx) fun a ha => noIo_iff.mp (hf a ha))

theorem noIo_mapError {x : Except ε α} {g : ε → Fault}
    (h : ∀ e, x = .error e → (g e).isIo = false) : NoIo (x.mapError g) :=
  noIo_iff.mpr (failsIn_mapError h)

theorem noIo_ite {p : Prop} [Decidable p] {x y : Except Fault α} (hx : NoIo x) (hy : NoIo y) :
    NoIo (if p then x else y) :=
  noIo_iff.mpr (failsIn_ite (fun _ => noIo_iff.mp hx) fun _ => noIo_iff.mp hy)

theorem noIo_guard {p : Prop} [Decidable p] {e : Fault} (he : e.isIo = false)
    {f : Unit → Except Fault β} (h : ¬ p → NoIo (f ())) :
    NoIo (if p then (throw e : Except Fault Unit) >>= f else f ()) :=
  noIo_iff.mpr (failsIn_guard he fun hp => noIo_iff.mp (h hp))

/-- On every cache that agrees with the device `x` ends with no fault of the device, and leaves a
cache that agrees. -/
def Clean (dev : Device) (x : CacheM α) : Prop :=
  ∀ c : BlockCache, c.Agrees dev → NoIo (x.run.run c).1 ∧ (x.run.run c).2.Agrees dev

variable {dev : Device}

theorem clean_of_steady {x : CacheM α} (hx : Steady dev x) (h : NoIo (fresh x)) : Clean dev x := by
  intro c hc
  obtain ⟨hvalue, hafter⟩ := hx c hc
  rw [hvalue]
  exact ⟨h, hafter⟩

theorem Clean.noIo {x : CacheM α} (h : Clean dev x) : NoIo (fresh x) :=
  (h _ (BlockCache.agrees_withCapacity _ dev)).1

theorem clean_pure (a : α) : Clean dev (pure a : CacheM α) := fun _ hc => ⟨noIo_ok a, hc⟩

theorem clean_throw {e : Fault} (he : e.isIo = false) : Clean dev (throw e : CacheM α) :=
  fun _ hc => ⟨noIo_error he, hc⟩

theorem clean_liftM {r : Except Fault α} (h : NoIo r) : Clean dev (liftM r : CacheM α) :=
  fun _ hc => ⟨h, hc⟩

theorem clean_bind {x : CacheM α} {f : α → CacheM β} (hx : Clean dev x)
    (hf : ∀ a, Clean dev (f a)) : Clean dev (x >>= f) := by
  intro c hc
  obtain ⟨hvalue, hafter⟩ := hx c hc
  rw [run_bind]
  generalize x.run.run c = after at hvalue hafter
  obtain ⟨e | a, c'⟩ := after
  · exact ⟨fun f heq => hvalue f (congrArg _ (Except.error.inj heq)), hafter⟩
  · exact hf a c' hafter

theorem clean_ite {p : Prop} [Decidable p] {x y : CacheM α} (hx : Clean dev x) (hy : Clean dev y) :
    Clean dev (if p then x else y) := by
  split
  · exact hx
  · exact hy

theorem clean_guard {p : Prop} [Decidable p] {e : Fault} (he : e.isIo = false)
    {f : Unit → CacheM β} (hf : Clean dev (f ())) :
    Clean dev (if p then (throw e : CacheM Unit) >>= f else f ()) :=
  clean_ite (clean_throw he) hf

namespace Medium

/-- The volume ends inside the device. -/
structure Backed (m : Medium) : Prop where
  sized : m.device.Sized
  inDevice : m.geometry.dataBlocks.toNat ≤ m.device.blockCount

variable {m : Medium} {inode dir : Inode}

theorem Backed.noIo_readBlock (h : m.Backed) {block : Nat} (hin : block < m.device.blockCount) :
    NoIo (m.readBlock block) := by
  rw [readBlock_eq h.sized hin]
  exact noIo_ok _

/-! ## Inodes -/

theorem Backed.noIo_readInode (h : m.Backed) (ino : Nat) : NoIo (m.readInode ino) := by
  rw [readInode]
  refine noIo_bind ?_ fun slot _ => noIo_bind ?_ fun bytes _ => noIo_bind ?_ fun inode _ => ?_
  · rw [Geometry.locate]
    refine noIo_bind (noIo_mapError fun _ _ => rfl) fun slot _ => ?_
    exact noIo_guard rfl fun _ => noIo_ok _
  · rw [readSlot]
    refine noIo_guard rfl fun hin => ?_
    refine noIo_bind (h.noIo_readBlock (Nat.not_le.mp hin)) fun block _ => ?_
    exact noIo_guard rfl fun _ => noIo_ok _
  · exact noIo_mapError fun _ _ => rfl
  · refine noIo_bind ?_ fun _ _ => noIo_ok _
    rw [Inode.checkFork]
    cases inode.forkFlaw? with
    | none => exact noIo_ok _
    | some flaw => exact noIo_error rfl

/-! ## Extents -/

theorem Backed.mapFaults (h : m.Backed) : m.MapFaults (·.isIo = false) where
  missing _ := rfl
  flawed _ _ _ := rfl
  unread _ hin := noIo_iff.mp (h.noIo_readBlock hin)

theorem noIo_list (inode : Inode) :
    inode.format = .extents → FailsIn (·.isIo = false) inode.inlineExtents :=
  fun _ => failsIn_inlineExtents (fun _ => rfl) inode

theorem Backed.noIo_mappingIn (h : m.Backed) (e : Extent) (logical : Nat) :
    NoIo (m.mappingIn e logical) := noIo_iff.mpr (h.mapFaults.mappingIn e logical)

theorem Backed.noIo_findExtent (h : m.Backed) (inode : Inode) (logical : Nat) :
    NoIo (m.findExtent inode logical) :=
  noIo_iff.mpr (h.mapFaults.findExtent (noIo_list inode) logical)

theorem Backed.noIo_mapBlock (h : m.Backed) (inode : Inode) (logical : Nat) :
    NoIo (m.mapBlock inode logical) :=
  noIo_iff.mpr (h.mapFaults.mapBlock (noIo_list inode) logical)

theorem Backed.noIo_lastExtent? (h : m.Backed) (inode : Inode) : NoIo (m.lastExtent? inode) :=
  noIo_iff.mpr (h.mapFaults.lastExtent? (noIo_list inode))

theorem Backed.noIo_allExtents (h : m.Backed) (inode : Inode) : NoIo (m.allExtents inode) :=
  noIo_iff.mpr (h.mapFaults.allExtents (noIo_list inode))

theorem Backed.physical_lt (h : m.Backed) {e : Extent} {logical : Nat} {mapping : Mapping}
    (hmap : m.mappingIn e logical = .ok mapping) : mapping.physical < m.device.blockCount := by
  rw [mappingIn] at hmap
  cases haddress : e.addressOf? logical with
  | none =>
    rw [haddress] at hmap
    cases hmap
  | some address =>
    simp only [haddress, throw_bind, bind_eq_ok, ite_error_eq_ok, pure_eq_ok] at hmap
    obtain ⟨physical, -, hin, heq⟩ := hmap
    cases heq
    exact Nat.lt_of_lt_of_le (Nat.not_le.mp hin) h.inDevice

/-! ## Blocks of a directory -/

theorem Backed.noIo_dirFormat (h : m.Backed) (dir : Inode) : NoIo (m.dirFormat dir) := by
  rw [dirFormat]
  refine noIo_guard rfl fun _ => ?_
  cases dir.format with
  | inline => exact noIo_ok _
  | extents | btree =>
    refine noIo_ite (noIo_ok _) (noIo_bind (h.noIo_lastExtent? dir) fun last _ => ?_)
    cases last with
    | none => exact noIo_error rfl
    | some last => exact noIo_ite (noIo_ok _) (noIo_ite (noIo_ok _) (noIo_ok _))
  | dev | uuid => exact noIo_error rfl

theorem Backed.noIo_readMapped (h : m.Backed) (inode : Inode) (logical : Nat) (mapping : Mapping)
    (hmap : m.mapBlock inode logical = .ok mapping) :
    FailsIn (·.isIo = false) (m.readBlock mapping.physical) := by
  obtain ⟨e, -, hmapping⟩ := bind_eq_ok.mp hmap
  exact noIo_iff.mp (h.noIo_readBlock (h.physical_lt hmapping))

theorem Backed.clean_readDirBlock (h : m.Backed) (dir : Inode) (fb : Nat) :
    Clean m.device (m.readDirBlock dir fb) := by
  refine clean_of_steady (m.steady_readDirBlock dir fb) ?_
  show NoIo (m.dirBlock dir fb)
  rw [dirBlock_eq]
  have hfind := noIo_iff.mp (h.noIo_findExtent dir fb)
  have hpieces : ∀ count k, FailsIn (·.isIo = false) (m.dirBlockPieces dir fb count k) :=
    h.mapFaults.dirBlockPieces (noIo_list dir) rfl (h.noIo_readMapped dir)
  refine noIo_bind (noIo_iff.mpr (failsIn_dirMapFault hfind rfl)) fun e _ => ?_
  refine noIo_ite (noIo_bind (h.noIo_mappingIn e fb) fun mapping _ => ?_)
    (noIo_iff.mpr (hpieces _ _))
  by_cases hpast : mapping.physical + m.geometry.blocksPerDirBlock > m.device.blockCount
  · rw [if_pos hpast]
    exact noIo_error rfl
  · rw [if_neg hpast, readBlocks_eq h.sized m.geometry.blocksPerDirBlock_pos (Nat.not_lt.mp hpast)]
    exact noIo_ok _

theorem clean_decodedIn (dir : Inode) (fb : Nat) (r : Except DecodeError α) :
    Clean dev (liftM (decodedIn dir fb r) : CacheM α) :=
  clean_liftM (noIo_mapError fun _ _ => rfl)

theorem Backed.clean_entryAt (h : m.Backed) (dir : Inode) (address : UInt32) :
    Clean m.device (m.entryAt dir address) := by
  rw [entryAt]
  refine clean_guard rfl ?_
  refine clean_bind (h.clean_readDirBlock dir _) fun block => ?_
  refine clean_bind (clean_decodedIn _ _ _) fun header => ?_
  refine clean_guard rfl ?_
  refine clean_bind (clean_decodedIn _ _ _) fun slot => ?_
  cases slot with
  | entry e => exact clean_pure _
  | free n => exact clean_throw rfl

theorem Backed.clean_readLeaf (h : m.Backed) (dir : Inode) (fb : Nat) (kind : LeafKind) :
    Clean m.device (m.readLeaf dir fb kind) := by
  rw [readLeaf]
  refine clean_bind (h.clean_readDirBlock dir fb) fun block => ?_
  refine clean_bind (clean_decodedIn _ _ _) fun header => ?_
  refine clean_guard rfl ?_
  exact clean_bind (clean_decodedIn _ _ _) fun entries => clean_pure _

theorem Backed.clean_blockWalk (h : m.Backed) (dir : Inode) : Clean m.device (m.blockWalk dir) := by
  rw [blockWalk]
  refine clean_bind (h.clean_readDirBlock dir 0) fun block => ?_
  refine clean_bind (clean_decodedIn _ _ _) fun header => ?_
  refine clean_guard rfl ?_
  exact clean_bind (clean_decodedIn _ _ _) fun tail => clean_pure _

theorem noIo_walkEnd (dir : Inode) (walk : SlotWalk) :
    NoIo (walkEnd dir walk : Except Fault (Option α)) := by
  rw [walkEnd]
  cases walk.stoppedBy with
  | none => exact noIo_ok _
  | some e => exact noIo_error rfl

theorem noIo_inlineListing (m : Medium) (dir : Inode) : NoIo (m.inlineListing dir) :=
  noIo_iff.mpr (m.failsIn_inlineListing (fun _ => rfl) (fun _ => rfl) fun _ _ => rfl)

/-! ## Look-ups -/

theorem Backed.clean_searchRun (h : m.Backed) (dir : Inode) (hash : UInt32) (name : Name) :
    ∀ entries : List HashEntry, Clean m.device (m.searchRun dir hash name entries)
  | [] => clean_pure _
  | e :: rest => by
      have ih := h.clean_searchRun dir hash name rest
      rw [searchRun]
      refine clean_ite (clean_pure _) (clean_ite ih ?_)
      refine clean_bind (h.clean_entryAt dir _) fun entry => ?_
      exact clean_ite (clean_pure _) ih

theorem noIo_checkIndexRegion (m : Medium) (dir : Inode) (fb : Nat) :
    NoIo (m.checkIndexRegion dir fb) := by
  rw [checkIndexRegion]
  exact noIo_ite (noIo_error rfl) (noIo_ok _)

theorem Backed.clean_readIndexBlock (h : m.Backed) (dir : Inode) (fb : Nat)
    (expected : Option Nat) : Clean m.device (m.readIndexBlock dir fb expected) := by
  rw [readIndexBlock]
  refine clean_bind (clean_liftM (m.noIo_checkIndexRegion dir fb)) fun _ => ?_
  refine clean_bind (h.clean_readDirBlock dir fb) fun block => ?_
  refine clean_bind (clean_decodedIn _ _ _) fun magic => ?_
  cases expected with
  | none =>
    exact clean_ite (clean_pure _) (clean_bind (clean_decodedIn _ _ _) fun _ => clean_pure _)
  | some level =>
    have hnode : Clean m.device
        (liftM (decodedIn dir fb (HashNode.decode block)) >>= fun node =>
          if node.level ≠ level then
            (throw (dirFault fb (.nodeLevel node.level level)) : CacheM Unit) >>= fun _ =>
              pure (IndexBlock.node node)
          else (pure (IndexBlock.node node) : CacheM IndexBlock)) :=
      clean_bind (clean_decodedIn _ _ _) fun node => clean_guard rfl (clean_pure _)
    refine clean_ite ?_ hnode
    cases level with
    | zero => exact clean_pure _
    | succ level => exact clean_bind (clean_throw rfl) fun _ => hnode

theorem Backed.clean_descendIndex (h : m.Backed) (dir : Inode)
    (pick : List NodeEntry → Option NodeEntry) :
    ∀ level fb : Nat, Clean m.device (m.descendIndex dir pick level fb)
  | level, fb => by
      rw [descendIndex.eq_def]
      refine clean_bind (h.clean_readIndexBlock dir fb _) fun block => ?_
      cases block with
      | leaf => exact clean_pure _
      | node n =>
        cases level with
        | zero => exact clean_throw rfl
        | succ level =>
          dsimp only
          cases pick n.entries with
          | none => exact clean_throw rfl
          | some child => exact h.clean_descendIndex dir pick level _

theorem Backed.clean_indexLeaf (h : m.Backed) (dir : Inode)
    (pick : List NodeEntry → Option NodeEntry) : Clean m.device (m.indexLeaf dir pick) := by
  rw [indexLeaf]
  refine clean_bind (h.clean_readIndexBlock dir _ _) fun block => ?_
  cases block with
  | leaf => exact clean_pure _
  | node n =>
    dsimp only
    cases pick n.entries with
    | none => exact clean_throw rfl
    | some child => exact h.clean_descendIndex dir pick _ _

theorem Backed.clean_searchChain (h : m.Backed) (dir : Inode) (hash : UInt32) (name : Name) :
    ∀ links fb : Nat, Clean m.device (m.searchChain dir hash name links fb)
  | links, fb => by
      rw [searchChain.eq_def]
      refine clean_bind (h.clean_readLeaf dir fb _) fun leaf => ?_
      refine clean_bind (h.clean_searchRun dir _ _ _) fun run => ?_
      cases run with
      | found target => exact clean_pure _
      | missing => exact clean_pure _
      | reachedEnd =>
        refine clean_ite (clean_pure _) ?_
        cases links with
        | zero => exact clean_throw rfl
        | succ links => exact h.clean_searchChain dir hash name links _

theorem Backed.clean_lookupName (h : m.Backed) (dir : Inode) (name : Name) :
    Clean m.device (m.lookupName dir name) := by
  rw [lookupName]
  refine clean_guard rfl (clean_ite (clean_pure _) ?_)
  refine clean_bind (clean_liftM (h.noIo_dirFormat dir)) fun format => ?_
  cases format with
  | inline => exact clean_liftM (noIo_bind (m.noIo_inlineListing dir) fun _ _ => noIo_ok _)
  | block =>
    refine clean_bind (h.clean_blockWalk dir) fun walk => ?_
    cases walk.entries.find? (·.name == name) with
    | some e => exact clean_pure _
    | none => exact clean_liftM (noIo_walkEnd dir walk)
  | leaf =>
    refine clean_bind (h.clean_readLeaf dir _ _) fun leaf => ?_
    refine clean_bind (h.clean_searchRun dir _ _ _) fun run => ?_
    cases run with
    | found target => exact clean_pure _
    | missing => exact clean_pure _
    | reachedEnd => exact clean_pure _
  | node =>
    exact clean_bind (h.clean_indexLeaf dir _) fun fb => h.clean_searchChain dir _ _ _ _

/-! ## Listings -/

theorem Backed.clean_liveEntryFrom (h : m.Backed) (dir : Inode) (entries : List HashEntry)
    (slot : Nat) : Clean m.device (m.liveEntryFrom dir entries slot) := by
  rw [liveEntryFrom]
  rcases liveFrom slot (entries.drop slot) with - | ⟨e, index⟩
  · exact clean_pure _
  · exact clean_bind (h.clean_entryAt dir _) fun entry => clean_pure _

theorem Backed.clean_nextInChain (h : m.Backed) (dir : Inode) :
    ∀ links fb slot : Nat, Clean m.device (m.nextInChain dir links fb slot)
  | links, fb, slot => by
      rw [nextInChain.eq_def]
      refine clean_bind (h.clean_readLeaf dir fb _) fun leaf => ?_
      refine clean_bind (h.clean_liveEntryFrom dir _ _) fun found => ?_
      rcases found with - | ⟨entry, slot⟩
      · refine clean_ite (clean_pure _) ?_
        cases links with
        | zero => exact clean_throw rfl
        | succ links =>
          exact clean_bind (clean_liftM (m.noIo_checkIndexRegion dir _)) fun _ =>
            h.clean_nextInChain dir links _ 0
      · exact clean_pure _

theorem Backed.clean_nextEntryAs (h : m.Backed) (format : DirFormat) (dir : Inode)
    (cursor : DirCursor) : Clean m.device (m.nextEntryAs format dir cursor) := by
  cases format with
  | inline => exact clean_liftM (noIo_bind (m.noIo_inlineListing dir) fun _ _ => noIo_ok _)
  | block =>
    refine clean_bind (h.clean_blockWalk dir) fun walk => ?_
    cases walk.entries[cursor]? with
    | none => exact clean_liftM (noIo_walkEnd dir walk)
    | some e => exact clean_pure _
  | leaf =>
    refine clean_bind (h.clean_readLeaf dir _ _) fun leaf => ?_
    refine clean_bind (h.clean_liveEntryFrom dir _ _) fun found => ?_
    rcases found with - | ⟨entry, slot⟩
    · exact clean_pure _
    · exact clean_pure _
  | node =>
    refine clean_ite ?_ ?_
    · exact clean_bind (h.clean_indexLeaf dir _) fun fb => h.clean_nextInChain dir _ _ _
    · refine clean_bind (clean_liftM (m.noIo_checkIndexRegion dir _)) fun _ => ?_
      exact clean_bind (clean_pure _) fun fb => h.clean_nextInChain dir _ _ _

theorem clean_listFrom {step : DirCursor → CacheM (Option (DirEntry × DirCursor))}
    (hstep : ∀ cursor, Clean dev (step cursor)) :
    ∀ fuel cursor acc, Clean dev (listFrom step fuel cursor acc)
  | 0, _, _ => clean_throw rfl
  | fuel + 1, cursor, acc => by
      rw [listFrom]
      refine clean_bind (hstep cursor) fun found => ?_
      rcases found with - | ⟨entry, next⟩
      · exact clean_pure _
      · exact clean_listFrom hstep fuel next _

end Medium

end XfsVolume
