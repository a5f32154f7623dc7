import XfsVolume.Proofs.Directory.Cursors
import XfsVolume.Proofs.Directory.IndexReads

/-!
# Listings in steps and in one pass

A directory can be read in one pass over what it stores (`OnePass`): the listing of its fork, the
entries of its one block, or what the live hash entries of its leaves point at. A pass ends where
all is read, or with the fault of the first thing on its way that cannot be decoded. An inline
directory is decoded as a whole, so that a flaw anywhere in it leaves nothing to hand out.

Stepping through the same directory gives the same entries and the same end (`Steps`), whatever the
caches keep that the steps go through; and so does going on from any cursor that was handed out.
-/

namespace XfsVolume

/-- What is read of a directory: its entries, and how the reading ends. -/
abbrev Reading := List DirEntry × Except Fault Unit

/-- Items resolved one by one up to the first that cannot be; `finish` is what comes after the last
of them. -/
def resolveAll {α : Type} (resolve : α → Except Fault DirEntry) (finish : Except Fault Unit) :
    List α → Reading
  | [] => ([], finish)
  | item :: items =>
    match resolve item with
    | .error fault => ([], .error fault)
    | .ok entry =>
      let (entries, out) := resolveAll resolve finish items
      (entry :: entries, out)

namespace Medium

/-- One pass over a directory. -/
inductive OnePass (m : Medium) (dir : Inode) : Reading → Prop
  /-- The directory has no format. -/
  | unformatted {fault : Fault} (format : m.dirFormat dir = .error fault) :
      OnePass m dir ([], .error fault)
  | inline {header : InlineHeader} {entries : List InlineEntry}
      (format : m.dirFormat dir = .ok .inline)
      (decoded : m.inlineEntries dir = .ok (header, entries)) :
      OnePass m dir ({ ino := dir.ino.toNat, name := dotName, kind := .directory } ::
        { ino := header.parent, name := dotDotName, kind := .directory } ::
        entries.map InlineEntry.toDirEntry, .ok ())
  | inlineFlawed {fault : Fault} (format : m.dirFormat dir = .ok .inline)
      (flawed : m.inlineEntries dir = .error fault) : OnePass m dir ([], .error fault)
  | block {walk : SlotWalk} (format : m.dirFormat dir = .ok .block)
      (decoded : fresh (m.blockWalk dir) = .ok walk) :
      OnePass m dir (walk.entries.map DataEntry.toDirEntry, SlotWalk.outcome walk dir)
  | blockFlawed {fault : Fault} (format : m.dirFormat dir = .ok .block)
      (flawed : fresh (m.blockWalk dir) = .error fault) : OnePass m dir ([], .error fault)
  | leaf {header : LeafHeader} {entries : List HashEntry} (format : m.dirFormat dir = .ok .leaf)
      (decoded : fresh (m.readLeaf dir m.geometry.indexRegion .single) = .ok (header, entries)) :
      OnePass m dir (resolveAll (fun e : HashEntry => fresh (m.entryAt dir e.address)) (.ok ())
        (liveEntries entries))
  | leafFlawed {fault : Fault} (format : m.dirFormat dir = .ok .leaf)
      (flawed : fresh (m.readLeaf dir m.geometry.indexRegion .single) = .error fault) :
      OnePass m dir ([], .error fault)
  | node {fb : Nat} {leaves : List IndexLeaf} {out : Except Fault Unit}
      (format : m.dirFormat dir = .ok .node) (entry : fresh (m.indexLeaf dir List.head?) = .ok fb)
      (chain : m.ForwardChain dir fb leaves out) :
      OnePass m dir (resolveAll (fun e : HashEntry => fresh (m.entryAt dir e.address)) out
        (liveEntries (chainEntries leaves)))
  | nodeFlawed {fault : Fault} (format : m.dirFormat dir = .ok .node)
      (flawed : fresh (m.indexLeaf dir List.head?) = .error fault) : OnePass m dir ([], .error fault)

/-- What stepping through a directory from a cursor on hands out, with the cursor after each entry,
and how it ends. Every step may find another cache that agrees with the device. -/
inductive Steps (m : Medium) (dir : Inode) :
    DirCursor → List (DirEntry × DirCursor) → Except Fault Unit → Prop
  | ended {cursor : DirCursor} {c : BlockCache} (agrees : c.Agrees m.device)
      (last : ((m.nextEntry dir cursor).run.run c).1 = .ok none) : Steps m dir cursor [] (.ok ())
  | failed {cursor : DirCursor} {c : BlockCache} {fault : Fault} (agrees : c.Agrees m.device)
      (last : ((m.nextEntry dir cursor).run.run c).1 = .error fault) :
      Steps m dir cursor [] (.error fault)
  | more {cursor next : DirCursor} {c : BlockCache} {entry : DirEntry}
      {handed : List (DirEntry × DirCursor)} {out : Except Fault Unit} (agrees : c.Agrees m.device)
      (found : ((m.nextEntry dir cursor).run.run c).1 = .ok (some (entry, next)))
      (rest : Steps m dir next handed out) : Steps m dir cursor ((entry, next) :: handed) out

variable {m : Medium} {dir : Inode}

/-! ## Steps -/

theorem steady_nextEntry (m : Medium) (dir : Inode) (cursor : DirCursor) :
    Steady m.device (m.nextEntry dir cursor) := by
  rw [nextEntry]
  exact steady_bind (steady_liftM _) fun format => m.steady_nextEntryAs format dir cursor

/-- Steps give one list of entries and one end. -/
theorem Steps.unique {cursor : DirCursor} {handed handed' : List (DirEntry × DirCursor)}
    {out out' : Except Fault Unit} (h : m.Steps dir cursor handed out)
    (h' : m.Steps dir cursor handed' out') : handed' = handed ∧ out' = out := by
  have hsame {cursor : DirCursor} {c c' : BlockCache} {r r' : Except Fault (Option _)}
      (hc : c.Agrees m.device) (hc' : c'.Agrees m.device)
      (hr : ((m.nextEntry dir cursor).run.run c).1 = r)
      (hr' : ((m.nextEntry dir cursor).run.run c').1 = r') : r' = r := by
    rw [← hr, ← hr', (m.steady_nextEntry dir cursor c hc).1,
      (m.steady_nextEntry dir cursor c' hc').1]
  induction h generalizing handed' out' with
  | ended agrees last =>
    cases h' with
    | ended agrees' last' => exact ⟨rfl, rfl⟩
    | failed agrees' last' => cases hsame agrees agrees' last last'
    | more agrees' found' rest' => cases hsame agrees agrees' last found'
  | failed agrees last =>
    cases h' with
    | ended agrees' last' => cases hsame agrees agrees' last last'
    | failed agrees' last' =>
      cases hsame agrees agrees' last last'
      exact ⟨rfl, rfl⟩
    | more agrees' found' rest' => cases hsame agrees agrees' last found'
  | more agrees found rest ih =>
    cases h' with
    | ended agrees' last' => cases hsame agrees agrees' found last'
    | failed agrees' last' => cases hsame agrees agrees' found last'
    | more agrees' found' rest' =>
      cases hsame agrees agrees' found found'
      obtain ⟨rfl, rfl⟩ := ih rest'
      exact ⟨rfl, rfl⟩

theorem Steps.resume {cursor : DirCursor} {handed : List (DirEntry × DirCursor)}
    {out : Except Fault Unit} (h : m.Steps dir cursor handed out) :
    ∀ {k : Nat} {entry : DirEntry} {next : DirCursor}, handed[k]? = some (entry, next) →
      m.Steps dir next (handed.drop (k + 1)) out := by
  induction h with
  | ended agrees last => exact fun hk => by cases hk
  | failed agrees last => exact fun hk => by cases hk
  | more agrees found rest ih =>
    intro k entry next hk
    cases k with
    | zero =>
      cases hk
      exact rest
    | succ k => exact ih hk

theorem steps_of_sequence {α : Type} {format : DirFormat} {resolve : α → Except Fault DirEntry}
    {finish : Except Fault Unit} {place : DirCursor → List α → Prop}
    (hformat : m.dirFormat dir = .ok format)
    (h : Sequence (m.listStep format dir) resolve finish place) :
    ∀ {items : List α} {cursor : DirCursor}, place cursor items →
      ∃ handed out, m.Steps dir cursor handed out ∧
        (handed.map Prod.fst, out) = resolveAll resolve finish items := by
  have hagrees := BlockCache.agrees_withCapacity defaultCacheSlots m.device
  have hrun (cursor : DirCursor) : ((m.nextEntry dir cursor).run.run
      (BlockCache.withCapacity defaultCacheSlots)).1 = m.listStep format dir cursor := by
    show fresh (m.nextEntry dir cursor) = _
    rw [nextEntry, fresh_liftM_bind, hformat]
    rfl
  intro items
  induction items with
  | nil =>
    intro cursor hplace
    have hstep := (hrun cursor).trans (h.last hplace)
    cases finish with
    | ok u => exact ⟨[], _, .ended hagrees hstep, rfl⟩
    | error fault => exact ⟨[], _, .failed hagrees hstep, rfl⟩
  | cons item items ih =>
    intro cursor hplace
    obtain ⟨next, hnext, hstep⟩ := h.next hplace
    replace hstep := (hrun cursor).trans hstep
    rw [resolveAll]
    cases hresolve : resolve item with
    | error fault =>
      rw [hresolve] at hstep
      exact ⟨[], _, .failed hagrees hstep, rfl⟩
    | ok entry =>
      rw [hresolve] at hstep
      obtain ⟨handed, out, hsteps, heq⟩ := ih hnext
      refine ⟨(entry, next) :: handed, out, .more hagrees hstep hsteps, ?_⟩
      rw [← heq]
      rfl

theorem resolveAll_ok {α : Type} (f : α → DirEntry) (finish : Except Fault Unit) (items : List α) :
    resolveAll (fun item => .ok (f item)) finish items = (items.map f, finish) := by
  induction items with
  | nil => rfl
  | cons item items ih => rw [resolveAll, ih, List.map_cons]

theorem steps_of_error {fault : Fault} (h : fresh (m.nextEntry dir 0) = .error fault) :
    ∃ handed out, m.Steps dir 0 handed out ∧
      (handed.map Prod.fst, out) = (([], .error fault) : Reading) :=
  ⟨[], _, .failed (BlockCache.agrees_withCapacity defaultCacheSlots m.device) h, rfl⟩

/-! ## Passes -/

/-- Where the directory is one with a tree of index nodes, the chain of leaves from the leftmost on
does not leave the index region, and has no more leaves than the directory has blocks, nor than the
volume has. -/
def ChainEnds (m : Medium) (dir : Inode) : Prop :=
  m.dirFormat dir = .ok .node → ∀ fb, fresh (m.indexLeaf dir List.head?) = .ok fb →
    ∃ leaves out, m.ForwardChain dir fb leaves out ∧
      leaves.length ≤ min dir.blocks.toNat m.geometry.dataBlocks.toNat ∧
      ∀ leaf ∈ leaves, leaf.next ≠ 0 → m.InIndexRegion leaf.next

theorem exists_onePass (hchain : m.ChainEnds dir) : ∃ reading, m.OnePass dir reading := by
  cases hformat : m.dirFormat dir with
  | error fault => exact ⟨_, .unformatted hformat⟩
  | ok format =>
    cases format with
    | inline =>
      cases hdecoded : m.inlineEntries dir with
      | error fault => exact ⟨_, .inlineFlawed hformat hdecoded⟩
      | ok decoded => exact ⟨_, .inline hformat hdecoded⟩
    | block =>
      cases hdecoded : fresh (m.blockWalk dir) with
      | error fault => exact ⟨_, .blockFlawed hformat hdecoded⟩
      | ok walk => exact ⟨_, .block hformat hdecoded⟩
    | leaf =>
      cases hdecoded : fresh (m.readLeaf dir m.geometry.indexRegion .single) with
      | error fault => exact ⟨_, .leafFlawed hformat hdecoded⟩
      | ok decoded => exact ⟨_, .leaf hformat hdecoded⟩
    | node =>
      cases hentry : fresh (m.indexLeaf dir List.head?) with
      | error fault => exact ⟨_, .nodeFlawed hformat hentry⟩
      | ok fb =>
        obtain ⟨leaves, out, hleaves, -⟩ := hchain hformat fb hentry
        exact ⟨_, .node hformat hentry hleaves⟩

theorem inlineListing_of_entries {header : InlineHeader} {entries : List InlineEntry}
    (h : m.inlineEntries dir = .ok (header, entries)) :
    m.inlineListing dir = .ok ({ ino := dir.ino.toNat, name := dotName, kind := .directory } ::
      { ino := header.parent, name := dotDotName, kind := .directory } ::
      entries.map InlineEntry.toDirEntry) := by
  rw [inlineListing, h]
  rfl

/-- The steps of a listing give what one pass gives. -/
theorem OnePass.steps {reading : Reading} (h : m.OnePass dir reading) (hchain : m.ChainEnds dir) :
    ∃ handed out, m.Steps dir 0 handed out ∧ (handed.map Prod.fst, out) = reading := by
  have hnext {format : DirFormat} (hformat : m.dirFormat dir = .ok format) :
      fresh (m.nextEntry dir 0) = m.listStep format dir 0 := by
    rw [nextEntry, fresh_liftM_bind, hformat]
    rfl
  cases h with
  | unformatted hformat =>
    refine steps_of_error ?_
    rw [nextEntry, fresh_liftM_bind, hformat]
    rfl
  | inline hformat hdecoded =>
    obtain ⟨handed, out, hsteps, heq⟩ := steps_of_sequence hformat
      (sequence_inline (inlineListing_of_entries hdecoded)) List.drop_zero.symm
    exact ⟨handed, out, hsteps, heq.trans ((resolveAll_ok id _ _).trans (by rw [List.map_id]))⟩
  | inlineFlawed hformat hflawed =>
    refine steps_of_error ((hnext hformat).trans ?_)
    show m.nextInline dir 0 = _
    rw [nextInline, inlineListing, hflawed]
    rfl
  | block hformat hdecoded =>
    obtain ⟨handed, out, hsteps, heq⟩ :=
      steps_of_sequence hformat (sequence_block hdecoded) List.drop_zero.symm
    exact ⟨handed, out, hsteps, heq.trans (resolveAll_ok _ _ _)⟩
  | blockFlawed hformat hflawed =>
    exact steps_of_error ((hnext hformat).trans (fresh_bind_error hflawed))
  | leaf hformat hdecoded =>
    exact steps_of_sequence hformat (sequence_leaf hdecoded) (by rw [List.drop_zero])
  | leafFlawed hformat hflawed =>
    exact steps_of_error ((hnext hformat).trans (fresh_bind_error hflawed))
  | node hformat hentry hleaves =>
    obtain ⟨leaves, out, hknown, hfew, hinside⟩ := hchain hformat _ hentry
    obtain ⟨rfl, rfl⟩ := hknown.unique hleaves
    have hlinks : m.LinksInside dir _ :=
      fun leaf hleaf hne => checkIndexRegion_eq_ok.mpr (hinside leaf hleaf hne)
    refine steps_of_sequence hformat
      (sequence_chain hentry (region_of_indexLeaf hentry) hleaves hlinks hfew) (Or.inl ⟨rfl, ?_⟩)
    exact (remaining_zero _).symm
  | nodeFlawed hformat hflawed =>
    refine steps_of_error ((hnext hformat).trans ?_)
    show fresh (m.nextNode dir 0) = _
    rw [nextNode_eq_bind, stepEntry_zero]
    exact fresh_bind_error hflawed

/-- **Stepping through a directory is one pass over it.** There is one pass, and the steps from the
start hand out its entries, in order and each once, and end as it does; the steps from the cursor
that came with an entry hand out those behind that entry. -/
theorem steps_iff_onePass (hchain : m.ChainEnds dir) :
    ∃ handed out, (∀ reading, m.OnePass dir reading ↔ reading = (handed.map Prod.fst, out)) ∧
      (∀ handed' out', m.Steps dir 0 handed' out' ↔ handed' = handed ∧ out' = out) ∧
      ∀ k entry next, handed[k]? = some (entry, next) → ∀ handed' out',
        m.Steps dir next handed' out' ↔ handed' = handed.drop (k + 1) ∧ out' = out := by
  obtain ⟨reading, hpass⟩ := exists_onePass hchain
  obtain ⟨handed, out, hsteps, rfl⟩ := hpass.steps hchain
  refine ⟨handed, out, fun reading => ⟨fun h => ?_, fun h => h ▸ hpass⟩, fun handed' out' => ?_,
    fun k entry next hk handed' out' => ?_⟩
  · obtain ⟨handed', out', hsteps', rfl⟩ := h.steps hchain
    obtain ⟨rfl, rfl⟩ := hsteps.unique hsteps'
    rfl
  · constructor
    · exact hsteps.unique
    · rintro ⟨rfl, rfl⟩
      exact hsteps
  · constructor
    · exact (hsteps.resume hk).unique
    · rintro ⟨rfl, rfl⟩
      exact hsteps.resume hk

/-! ### The small directory -/

/-- The two entries of the small directory, and the second of them from the cursor that came with
the first. -/
theorem steps_iff_onePass_smallDir :
    smallDir.ChainEnds smallDirInode ∧ ∃ handed,
      handed.map Prod.fst = [⟨11, [0x61], .unknown⟩, ⟨12, [0x62], .unknown⟩] ∧
      smallDir.Steps smallDirInode 0 handed (.ok ()) ∧
      ∀ entry next, handed[0]? = some (entry, next) →
        smallDir.Steps smallDirInode next (handed.drop 1) (.ok ()) := by
  have hformat : smallDir.dirFormat smallDirInode = .ok .node := by decide +kernel
  have hentry : fresh (smallDir.indexLeaf smallDirInode List.head?) = .ok 5 := by decide +kernel
  obtain ⟨hleaves, hlinks⟩ := forwardChain_of_chained smallDir_index.chained smallDir_index.leafAt
  have hends : smallDir.ChainEnds smallDirInode := by
    intro _ fb hfb
    cases hentry.symm.trans hfb
    exact ⟨_, _, hleaves, by decide, fun leaf hleaf hne =>
      checkIndexRegion_eq_ok.mp (hlinks leaf hleaf hne)⟩
  obtain ⟨handed, out, hpass, hsteps, hresume⟩ := steps_iff_onePass hends
  have hreading := (hpass _).mp (.node hformat hentry hleaves)
  have hresolved : resolveAll
      (fun e : HashEntry => fresh (smallDir.entryAt smallDirInode e.address)) (.ok ())
      (liveEntries (chainEntries smallLeaves)) =
        ([⟨11, [0x61], .unknown⟩, ⟨12, [0x62], .unknown⟩], .ok ()) := by decide +kernel
  obtain ⟨hentries, rfl⟩ := Prod.mk.inj (hreading.symm.trans hresolved)
  refine ⟨hends, handed, hentries, (hsteps _ _).mpr ⟨rfl, rfl⟩, fun entry next hk => ?_⟩
  exact (hresume 0 entry next hk _ _).mpr ⟨rfl, rfl⟩

/-! ### A flaw in an inline directory -/

/-- An inline directory with the name `a` and a second entry with no name. -/
def flawedInline : Inode := { smallDirInode with
  format := .inline
  size := 22
  fork := ⟨⟨[2, 0, 0, 0, 0, 3, 1, 0, 16, 0x61, 0, 0, 0, 11, 0, 0, 32, 0x62, 0, 0, 0, 12]⟩⟩ }

/-- Not every listing of an inline directory hands out what comes before the first flaw: the entries
of the directory itself, of its parent and of `a` are lost to the flaw behind them. -/
theorem steps_inline_not_partial :
    ¬ ∀ (m : Medium) (dir : Inode) (header : InlineHeader) (handed : List (DirEntry × DirCursor))
      (out : Except Fault Unit), m.dirFormat dir = .ok .inline →
      InlineHeader.decode (window dir.fork 0 dir.size.toNat) = .ok header →
      m.Steps dir 0 handed out →
      handed.map Prod.fst = { ino := dir.ino.toNat, name := dotName, kind := .directory } ::
        { ino := header.parent, name := dotDotName, kind := .directory } ::
        (walkInline (window dir.fork 0 dir.size.toNat) header.inoWidth m.geometry.hasFtype
          header.count.toNat header.length).entries.map InlineEntry.toDirEntry := by
  intro h
  have hformat : smallDir.dirFormat flawedInline = .ok .inline := rfl
  have hheader : InlineHeader.decode (window flawedInline.fork 0 flawedInline.size.toNat) =
      .ok ⟨2, 0, 3⟩ := by decide +kernel
  have hstep : ((smallDir.nextEntry flawedInline 0).run.run (BlockCache.withCapacity 2)).1 =
      .error (inlineDirFault flawedInline
        (.entry 14 (.invalidField "sfe_namelen" "zero-length name"))) := by
    decide +kernel
  have hsteps := Steps.failed (BlockCache.agrees_withCapacity 2 smallDir.device) hstep
  cases h smallDir flawedInline _ [] _ hformat hheader hsteps

end Medium

end XfsVolume
