import XfsVolume.Directory.Listing
import XfsVolume.Proofs.Directory.Cache

/-!
# Steady readers of a directory

Every reader of a directory sees the device through the cache only, so that each of them is steady.
What a reader gives is stated without the cache: the block it reads, and what the block decodes to.
-/

namespace XfsVolume

namespace Medium

variable {dev : Device}

/-! ## Blocks -/

theorem cachedBlocks_gives (m : Medium) (start count : Nat) :
    Steady m.device (m.cachedBlocks start count) ∧
      fresh (m.cachedBlocks start count) = m.readBlocks start count := by
  apply steady_of_gives
  intro c hc
  obtain ⟨hvalue, hafter⟩ := hc.get start count
  refine ⟨?_, hafter⟩
  show ((c.get m.device start count).1).mapError Fault.io = _
  rw [hvalue]
  rfl

theorem steady_readDirBlock (m : Medium) (dir : Inode) (fb : Nat) :
    Steady m.device (m.readDirBlock dir fb) := by
  rw [readDirBlock]
  refine steady_bind (steady_liftM _) fun extent => ?_
  refine steady_ite ?_ (steady_liftM _)
  refine steady_bind (steady_liftM _) fun mapping => ?_
  exact steady_guard _ fun _ => (m.cachedBlocks_gives _ _).1

/-- The bytes of the directory block at file block `fb`. -/
def dirBlock (m : Medium) (dir : Inode) (fb : Nat) : Except Fault ByteArray :=
  fresh (m.readDirBlock dir fb)

/-- A directory block in one extent is read at once, and any other one block by block. -/
theorem dirBlock_eq (m : Medium) (dir : Inode) (fb : Nat) :
    m.dirBlock dir fb = (do
      let extent ← (m.findExtent dir fb).mapError (dirMapFault dir fb)
      if extent.stop ≥ fb + m.geometry.blocksPerDirBlock then
        let mapping ← m.mappingIn extent fb
        if mapping.physical + m.geometry.blocksPerDirBlock > m.device.blockCount then
          .error (dirFault fb .pastDevice)
        else m.readBlocks mapping.physical m.geometry.blocksPerDirBlock
      else m.dirBlockPieces dir fb m.geometry.blocksPerDirBlock 0) := by
  have hwhole (mapping : Mapping) : Steady m.device
      (if mapping.physical + m.geometry.blocksPerDirBlock > m.device.blockCount then
        (throw (dirFault fb .pastDevice) : CacheM Unit) >>= fun _ =>
          m.cachedBlocks mapping.physical m.geometry.blocksPerDirBlock
      else m.cachedBlocks mapping.physical m.geometry.blocksPerDirBlock) :=
    steady_guard _ fun _ => (m.cachedBlocks_gives _ _).1
  rw [dirBlock, readDirBlock]
  dsimp only
  rw [fresh_bind (steady_liftM _) fun extent => steady_ite
    (steady_bind (steady_liftM _) hwhole) (steady_liftM _), fresh_liftM]
  congr 1
  funext extent
  rw [fresh_ite, fresh_bind (steady_liftM _) hwhole, fresh_liftM, fresh_liftM]
  congr 2
  funext mapping
  rw [fresh_guard (f := fun _ => m.cachedBlocks mapping.physical m.geometry.blocksPerDirBlock),
    (m.cachedBlocks_gives _ _).2]

/-! ## Entries and leaves -/

theorem steady_entryAt (m : Medium) (dir : Inode) (address : UInt32) :
    Steady m.device (m.entryAt dir address) := by
  rw [entryAt]
  refine steady_guard _ fun _ => ?_
  refine steady_bind (m.steady_readDirBlock dir _) fun block => ?_
  refine steady_bind (steady_liftM _) fun header => ?_
  refine steady_guard _ fun _ => ?_
  refine steady_bind (steady_liftM _) fun slot => ?_
  cases slot with
  | entry e => exact steady_pure _
  | free n => exact steady_throw _

theorem steady_readLeaf (m : Medium) (dir : Inode) (fb : Nat) (kind : LeafKind) :
    Steady m.device (m.readLeaf dir fb kind) := by
  rw [readLeaf]
  refine steady_bind (m.steady_readDirBlock dir fb) fun block => ?_
  refine steady_bind (steady_liftM _) fun header => ?_
  refine steady_guard _ fun _ => ?_
  exact steady_bind (steady_liftM _) fun entries => steady_pure _

theorem steady_blockWalk (m : Medium) (dir : Inode) : Steady m.device (m.blockWalk dir) := by
  rw [blockWalk]
  refine steady_bind (m.steady_readDirBlock dir 0) fun block => ?_
  refine steady_bind (steady_liftM _) fun header => ?_
  refine steady_guard _ fun _ => ?_
  exact steady_bind (steady_liftM _) fun tail => steady_pure _

/-- What the walk over a single block gives, of a block that is what it should be. -/
theorem fresh_blockWalk_eq_ok {m : Medium} {dir : Inode} {walk : SlotWalk} :
    fresh (m.blockWalk dir) = .ok walk ↔ ∃ block header tail, m.dirBlock dir 0 = .ok block ∧
      DataHeader.decode block = .ok header ∧ header.kind = .single ∧
      BlockTail.decode block header.length = .ok tail ∧
      walkSlots block header.length tail.indexOffset m.geometry.hasFtype = walk := by
  rw [blockWalk, fresh_bind (m.steady_readDirBlock dir 0) fun block =>
    steady_bind (steady_liftM _) fun header => steady_guard _ fun _ =>
      steady_bind (steady_liftM _) fun tail => steady_pure _]
  simp only [fresh_liftM_bind, fresh_guard, fresh_pure, bind_eq_ok, ite_error_eq_ok, decodedIn,
    mapError_eq_ok, not_not, Except.ok.injEq]
  constructor
  · rintro ⟨block, hblock, header, hheader, hkind, tail, htail, hwalk⟩
    exact ⟨block, header, tail, hblock, hheader, hkind, htail, hwalk⟩
  · rintro ⟨block, header, tail, hblock, hheader, hkind, htail, hwalk⟩
    exact ⟨block, hblock, header, hheader, hkind, tail, htail, hwalk⟩

/-! ## Look-ups -/

theorem steady_lookupBlock (m : Medium) (dir : Inode) (name : Name) :
    Steady m.device (m.lookupBlock dir name) := by
  rw [lookupBlock]
  refine steady_bind (m.steady_blockWalk dir) fun walk => ?_
  cases walk.entries.find? (·.name == name) with
  | some e => exact steady_pure _
  | none => exact steady_liftM _

theorem steady_searchRun (m : Medium) (dir : Inode) (hash : UInt32) (name : Name) :
    ∀ entries : List HashEntry, Steady m.device (m.searchRun dir hash name entries)
  | [] => steady_pure _
  | e :: rest => by
      have ih := steady_searchRun m dir hash name rest
      rw [searchRun]
      refine steady_ite (steady_pure _) (steady_ite ih ?_)
      refine steady_bind (m.steady_entryAt dir _) fun entry => ?_
      exact steady_ite (steady_pure _) ih

theorem steady_searchLeaf (m : Medium) (dir : Inode) (hash : UInt32) (name : Name)
    (entries : List HashEntry) : Steady m.device (m.searchLeaf dir hash name entries) :=
  m.steady_searchRun dir hash name _

theorem steady_lookupLeaf (m : Medium) (dir : Inode) (name : Name) :
    Steady m.device (m.lookupLeaf dir name) := by
  rw [lookupLeaf]
  refine steady_bind (m.steady_readLeaf dir _ _) fun leaf => ?_
  refine steady_bind (m.steady_searchLeaf dir _ _ _) fun run => ?_
  cases run with
  | found target => exact steady_pure _
  | missing => exact steady_pure _
  | reachedEnd => exact steady_pure _

theorem steady_readIndexBlock (m : Medium) (dir : Inode) (fb : Nat) (expected : Option Nat) :
    Steady m.device (m.readIndexBlock dir fb expected) := by
  rw [readIndexBlock]
  refine steady_bind (steady_liftM _) fun _ => ?_
  refine steady_bind (m.steady_readDirBlock dir fb) fun block => ?_
  refine steady_bind (steady_liftM _) fun magic => ?_
  cases expected with
  | none =>
    exact steady_ite (steady_pure _) (steady_bind (steady_liftM _) fun _ => steady_pure _)
  | some level =>
    refine steady_ite ?_
      (steady_bind (steady_liftM _) fun _ => steady_guard _ fun _ => steady_pure _)
    cases level with
    | zero => exact steady_pure _
    | succ level =>
      exact steady_bind (steady_throw _) fun _ =>
        steady_bind (steady_liftM _) fun _ => steady_guard _ fun _ => steady_pure _

theorem steady_descendIndex (m : Medium) (dir : Inode)
    (pick : List NodeEntry → Option NodeEntry) :
    ∀ level fb : Nat, Steady m.device (m.descendIndex dir pick level fb)
  | level, fb => by
      rw [descendIndex.eq_def]
      refine steady_bind (m.steady_readIndexBlock dir fb _) fun block => ?_
      cases block with
      | leaf => exact steady_pure _
      | node n =>
        cases level with
        | zero => exact steady_throw _
        | succ level =>
          dsimp only
          cases pick n.entries with
          | none => exact steady_throw _
          | some child => exact steady_descendIndex m dir pick level _

theorem steady_indexLeaf (m : Medium) (dir : Inode)
    (pick : List NodeEntry → Option NodeEntry) : Steady m.device (m.indexLeaf dir pick) := by
  rw [indexLeaf]
  refine steady_bind (m.steady_readIndexBlock dir _ _) fun block => ?_
  cases block with
  | leaf => exact steady_pure _
  | node n =>
    dsimp only
    cases pick n.entries with
    | none => exact steady_throw _
    | some child => exact m.steady_descendIndex dir pick _ _

theorem steady_searchChain (m : Medium) (dir : Inode) (hash : UInt32) (name : Name) :
    ∀ links fb : Nat, Steady m.device (m.searchChain dir hash name links fb)
  | links, fb => by
      rw [searchChain.eq_def]
      refine steady_bind (m.steady_readLeaf dir fb _) fun leaf => ?_
      refine steady_bind (m.steady_searchLeaf dir _ _ _) fun run => ?_
      cases run with
      | found target => exact steady_pure _
      | missing => exact steady_pure _
      | reachedEnd =>
        refine steady_ite (steady_pure _) ?_
        cases links with
        | zero => exact steady_throw _
        | succ links => exact steady_searchChain m dir hash name links _

theorem steady_afterSearch (m : Medium) (dir : Inode) (hash : UInt32) (name : Name)
    (links fb : Nat) (header : LeafHeader) (run : HashRun) : Steady m.device (match run with
      | .found target => (pure (some target) : CacheM (Option (Nat × FileKind)))
      | .missing => pure none
      | .reachedEnd =>
        if header.next == 0 then pure none
        else
          match links with
          | 0 => throw (dirFault fb .chainEndless)
          | links + 1 => m.searchChain dir hash name links header.next.toNat) := by
  cases run with
  | found target => exact steady_pure _
  | missing => exact steady_pure _
  | reachedEnd =>
    refine steady_ite (steady_pure _) ?_
    cases links with
    | zero => exact steady_throw _
    | succ links => exact m.steady_searchChain dir hash name links _

theorem steady_lookupNode (m : Medium) (dir : Inode) (name : Name) :
    Steady m.device (m.lookupNode dir name) := by
  rw [lookupNode]
  exact steady_bind (m.steady_indexLeaf dir _) fun fb => m.steady_searchChain dir _ _ _ _

theorem steady_lookupName (m : Medium) (dir : Inode) (name : Name) :
    Steady m.device (m.lookupName dir name) := by
  rw [lookupName]
  refine steady_guard _ fun _ => ?_
  refine steady_ite (steady_pure _) ?_
  refine steady_bind (steady_liftM _) fun format => ?_
  cases format with
  | inline => exact steady_liftM _
  | block => exact m.steady_lookupBlock dir name
  | leaf => exact m.steady_lookupLeaf dir name
  | node => exact m.steady_lookupNode dir name

/-! ## Listings -/

theorem steady_liveEntryFrom (m : Medium) (dir : Inode) (entries : List HashEntry) (slot : Nat) :
    Steady m.device (m.liveEntryFrom dir entries slot) := by
  rw [liveEntryFrom]
  rcases liveFrom slot (entries.drop slot) with - | ⟨e, index⟩
  · exact steady_pure _
  · exact steady_bind (m.steady_entryAt dir _) fun entry => steady_pure _

theorem steady_nextLeaf (m : Medium) (dir : Inode) (cursor : DirCursor) :
    Steady m.device (m.nextLeaf dir cursor) := by
  rw [nextLeaf]
  refine steady_bind (m.steady_readLeaf dir _ _) fun leaf => ?_
  refine steady_bind (m.steady_liveEntryFrom dir _ _) fun found => ?_
  rcases found with - | ⟨entry, slot⟩
  · exact steady_pure _
  · exact steady_pure _

theorem steady_nextInChain (m : Medium) (dir : Inode) :
    ∀ links fb slot : Nat, Steady m.device (m.nextInChain dir links fb slot)
  | links, fb, slot => by
      rw [nextInChain.eq_def]
      refine steady_bind (m.steady_readLeaf dir fb _) fun leaf => ?_
      refine steady_bind (m.steady_liveEntryFrom dir _ _) fun found => ?_
      rcases found with - | ⟨entry, slot⟩
      · refine steady_ite (steady_pure _) ?_
        cases links with
        | zero => exact steady_throw _
        | succ links =>
          exact steady_bind (steady_liftM _) fun _ => steady_nextInChain m dir links _ 0
      · exact steady_pure _

theorem steady_nextNode (m : Medium) (dir : Inode) (cursor : DirCursor) :
    Steady m.device (m.nextNode dir cursor) := by
  rw [nextNode]
  refine steady_ite ?_ ?_
  · exact steady_bind (m.steady_indexLeaf dir _) fun fb => m.steady_nextInChain dir _ _ _
  · refine steady_bind (steady_liftM _) fun _ => ?_
    exact steady_bind (steady_pure _) fun fb => m.steady_nextInChain dir _ _ _

theorem steady_nextEntryAs (m : Medium) (format : DirFormat) (dir : Inode) (cursor : DirCursor) :
    Steady m.device (m.nextEntryAs format dir cursor) := by
  cases format with
  | inline => exact steady_liftM _
  | block =>
    refine steady_bind (m.steady_blockWalk dir) fun walk => ?_
    cases walk.entries[cursor]? with
    | none => exact steady_liftM _
    | some e => exact steady_pure _
  | leaf => exact m.steady_nextLeaf dir cursor
  | node => exact m.steady_nextNode dir cursor

theorem steady_listFrom {step : DirCursor → CacheM (Option (DirEntry × DirCursor))}
    (hstep : ∀ cursor, Steady dev (step cursor)) :
    ∀ fuel cursor acc, Steady dev (listFrom step fuel cursor acc)
  | 0, _, _ => steady_throw _
  | fuel + 1, cursor, acc => by
      rw [listFrom]
      refine steady_bind (hstep cursor) fun found => ?_
      rcases found with - | ⟨entry, next⟩
      · exact steady_pure _
      · exact steady_listFrom hstep fuel next _

theorem steady_readAll (m : Medium) (dir : Inode) : Steady m.device (m.readAll dir) := by
  rw [readAll]
  refine steady_bind (steady_liftM _) fun format => ?_
  exact steady_bind (steady_listFrom (m.steady_nextEntryAs format dir) _ _ _) fun _ =>
    steady_pure _

end Medium

end XfsVolume
