import XfsVolume.Proofs.Directory.IndexReads

/-!
# How far a walk over the index goes

Nothing is asked of the index here: its nodes may point at themselves or at nodes above them, and
its leaves may be linked in a circle. A walk down comes to at most six blocks, since every node
below the root has to stand one level below the one that points at it; and along the leaves a walk
has so many links to follow (`Comes`, `Chases`).

The bound on links is no part of the answer where the chain ends in time (`ForwardChain`): a look-up
and a step give what comes of going through the leaves of the chain, one after the other.
-/

namespace XfsVolume

def IndexEvent.isRead : IndexEvent → Bool
  | .read _ => true
  | .followed _ _ => false

/-- What a walk notes that comes to at most so many blocks along the given routes, and reads each
before it comes to the next; the last one it may refuse to read. -/
inductive Comes (routes : List IndexRoute) : Nat → List IndexEvent → Prop
  | stays {blocks : Nat} : Comes routes blocks []
  | refuses {blocks fb : Nat} {route : IndexRoute} (along : route ∈ routes) :
      Comes routes (blocks + 1) [.followed route fb]
  | reads {blocks fb : Nat} {route : IndexRoute} {events : List IndexEvent} (along : route ∈ routes)
      (more : Comes routes blocks events) :
      Comes routes (blocks + 1) (.followed route fb :: .read fb :: events)

theorem Comes.countP_le {routes : List IndexRoute} {blocks : Nat} {events : List IndexEvent}
    (h : Comes routes blocks events) : events.countP IndexEvent.isRead ≤ blocks := by
  induction h with
  | stays => exact Nat.zero_le _
  | refuses along => exact Nat.zero_le _
  | reads along more ih => simpa [List.countP_cons, IndexEvent.isRead] using ih

theorem Comes.mono {routes : List IndexRoute} {blocks : Nat} {events : List IndexEvent}
    (h : Comes routes blocks events) : ∀ {more : Nat}, blocks ≤ more →
      Comes routes more events := by
  induction h with
  | stays => exact fun _ => .stays
  | refuses along =>
    intro more hle
    obtain ⟨k, rfl⟩ := Nat.exists_eq_add_of_lt (Nat.lt_of_succ_le hle)
    exact .refuses along
  | reads along _ ih =>
    intro more hle
    obtain ⟨k, rfl⟩ := Nat.exists_eq_add_of_lt (Nat.lt_of_succ_le hle)
    exact .reads along (ih (Nat.le_add_right _ k))

/-- What a walk along the leaves notes: it reads the leaf it starts from, and comes to at most so
many along links. -/
def Chases (links fb : Nat) (events : List IndexEvent) : Prop :=
  ∃ later, events = .read fb :: later ∧ Comes [.link] links later

theorem chases_read (links fb : Nat) : Chases links fb [.read fb] := ⟨[], rfl, .stays⟩

theorem Chases.link {links fb next : Nat} {events : List IndexEvent}
    (h : Chases links next events) :
    Chases (links + 1) fb (.read fb :: .followed .link next :: events) := by
  obtain ⟨later, rfl, hcomes⟩ := h
  exact ⟨_, rfl, .reads (List.mem_singleton.mpr rfl) hcomes⟩

theorem Chases.countP_le {links fb : Nat} {events : List IndexEvent} (h : Chases links fb events) :
    events.countP IndexEvent.isRead ≤ 1 + links := by
  obtain ⟨later, rfl, hcomes⟩ := h
  rw [List.countP_cons_of_pos (by rfl), Nat.add_comm]
  exact Nat.add_le_add_left hcomes.countP_le 1

namespace Medium

variable {m : Medium} {dir : Inode} {α β : Type}

/-! ## The walk down -/

/-- The routes of a walk to the leaf where the chain is entered. -/
def entryRoutes : List IndexRoute := [.root, .child, .cursor]

/-- What coming to one block notes: it is read, or else the walk ends there. -/
def Arrives (route : IndexRoute) (fb : Nat) (events : List IndexEvent) (r : Except Fault α) :
    Prop :=
  events = [.followed route fb, .read fb] ∨ events = [.followed route fb] ∧ ∃ e, r = .error e

theorem Arrives.comes_error {route : IndexRoute} {fb blocks : Nat} {events : List IndexEvent}
    {r : Except Fault α} {routes : List IndexRoute} (h : Arrives route fb events r)
    (hroute : route ∈ routes) : Comes routes (blocks + 1) events := by
  rcases h with rfl | ⟨rfl, -⟩
  · exact .reads hroute .stays
  · exact .refuses hroute

theorem Arrives.comes {route : IndexRoute} {fb blocks : Nat} {events later : List IndexEvent}
    {a : α} {routes : List IndexRoute} (h : Arrives route fb events (.ok a : Except Fault α))
    (hroute : route ∈ routes) (hlater : Comes routes blocks later) :
    Comes routes (blocks + 1) (events ++ later) := by
  rcases h with rfl | ⟨-, e, heq⟩
  · exact .reads hroute hlater
  · cases heq

theorem arrives_followed {route : IndexRoute} {fb : Nat} {f : Unit → NotedM α}
    {g : Unit → CacheM α} {Q : Except Fault α → Prop} (herror : ∀ e, Q (.error e))
    (h : Notes (f ()) (g ()) fun events r => events = [.read fb] ∧ Q r) :
    Notes (note (.followed route fb) >>= fun _ => liftM (m.checkIndexRegion dir fb) >>= f)
      (liftM (m.checkIndexRegion dir fb) >>= g)
      fun events r => Arrives route fb events r ∧ Q r := by
  by_cases hin : m.InIndexRegion fb
  · rw [checkIndexRegion_eq_ok.mpr hin]
    exact notes_note (h.mono fun _ _ hread => ⟨Or.inl (congrArg _ hread.1), hread.2⟩)
  · rw [checkIndexRegion_outside hin]
    exact notes_note (notes_throw ⟨Or.inr ⟨rfl, _, rfl⟩, herror _⟩)

/-- The block is a leaf, or a node at most five levels above the leaves. -/
def LowNode (r : Except Fault IndexBlock) : Prop := ∀ n, r = .ok (.node n) → n.level ≤ maxNodeDepth

theorem lowNode_error (e : Fault) : LowNode (.error e) := by
  intro n heq
  cases heq

theorem lowNode_leaf : LowNode (.ok .leaf) := by
  intro n heq
  cases heq

theorem arrives_indexBlock (route : IndexRoute) (fb : Nat) (expected : Option Nat) :
    Notes (m.notedIndexBlock dir route fb expected) (m.readIndexBlock dir fb expected)
      fun events r => Arrives route fb events r ∧ LowNode r := by
  have hlow {block : ByteArray} {node : HashNode}
      (h : decodedIn dir fb (HashNode.decode block) = .ok node) : LowNode (.ok (.node node)) := by
    rintro _ ⟨⟩
    exact HashNode.level_le (mapError_eq_ok.mp h)
  rw [notedIndexBlock, readIndexBlock]
  refine arrives_followed lowNode_error ?_
  refine notes_bind (P := fun events _ => events = [.read fb])
    (Q := fun _ events r => events = [] ∧ LowNode r) (notes_note (notes_quiet fun _ => rfl)) ?_
    (fun _ e h => ⟨h, lowNode_error e⟩) (fun _ _ _ _ h h' => ⟨by rw [h, h'.1]; rfl, h'.2⟩)
  intro block _
  refine notes_liftM_bind (fun e => ⟨rfl, lowNode_error e⟩) fun magic _ => ?_
  cases expected with
  | none =>
    refine notes_ite (notes_pure ⟨rfl, lowNode_leaf⟩) ?_
    exact notes_liftM_bind (fun e => ⟨rfl, lowNode_error e⟩) fun node hnode =>
      notes_pure ⟨rfl, hlow hnode⟩
  | some level =>
    refine notes_ite ?_ ?_
    · cases level with
      | zero => exact notes_pure ⟨rfl, lowNode_leaf⟩
      | succ level => exact notes_throw ⟨rfl, lowNode_error _⟩
    · refine notes_liftM_bind (fun e => ⟨rfl, lowNode_error e⟩) fun node hnode => ?_
      exact notes_ite (notes_throw ⟨rfl, lowNode_error _⟩) (notes_pure ⟨rfl, hlow hnode⟩)

theorem comes_descent {pick : List NodeEntry → Option NodeEntry} : ∀ level fb : Nat,
    Notes (m.notedDescent dir pick level fb) (m.descendIndex dir pick level fb)
      fun events _ => Comes entryRoutes (level + 1) events
  | level, fb => by
      rw [notedDescent.eq_def, descendIndex.eq_def]
      refine notes_bind (Q := fun _ events _ => Comes entryRoutes level events)
        (arrives_indexBlock _ _ _) ?_ (fun _ _ h => h.1.comes_error (by decide))
        fun _ _ _ _ h h' => h.1.comes (by decide) h'
      intro block _
      cases block with
      | leaf => exact notes_pure .stays
      | node n =>
        cases level with
        | zero => exact notes_throw .stays
        | succ level =>
          dsimp only
          cases pick n.entries with
          | none => exact notes_throw .stays
          | some child => exact comes_descent level _

theorem comes_indexLeaf {pick : List NodeEntry → Option NodeEntry} :
    Notes (m.notedIndexLeaf dir pick) (m.indexLeaf dir pick)
      fun events _ => Comes entryRoutes 6 events := by
  rw [notedIndexLeaf, indexLeaf]
  refine notes_bind (Q := fun _ events _ => Comes entryRoutes 5 events)
    (arrives_indexBlock _ _ _) ?_ (fun _ _ h => h.1.comes_error (by decide))
    fun _ _ _ _ h h' => h.1.comes (by decide) h'
  rintro block ⟨_, -, hlow⟩
  cases block with
  | leaf => exact notes_pure .stays
  | node n =>
    have hlevel : n.level ≤ 5 := hlow n rfl
    dsimp only
    cases pick n.entries with
    | none => exact notes_throw .stays
    | some child => exact (comes_descent _ _).mono fun _ _ h => h.mono (by omega)

/-! ## Along the leaves -/

theorem chases_search {hash : UInt32} {name : Name} : ∀ links fb : Nat,
    Notes (m.notedSearch dir hash name links fb) (m.searchChain dir hash name links fb)
      fun events _ => Chases links fb events
  | links, fb => by
      rw [notedSearch.eq_def, searchChain.eq_def]
      refine notes_bind (Q := fun _ events _ => Chases links fb (.read fb :: events))
        (notes_leaf fb _) ?_ (by rintro _ _ rfl; exact chases_read links fb)
        (by rintro _ _ _ _ rfl h; exact h)
      rintro ⟨header, entries⟩ -
      refine notes_quiet_bind (fun _ => chases_read links fb) fun run => ?_
      cases run with
      | found target => exact notes_pure (chases_read links fb)
      | missing => exact notes_pure (chases_read links fb)
      | reachedEnd =>
        refine notes_ite (notes_pure (chases_read links fb)) ?_
        cases links with
        | zero => exact notes_throw (chases_read 0 fb)
        | succ links => exact notes_note ((chases_search links _).mono fun _ _ h => h.link)

theorem chases_chain : ∀ links fb slot : Nat,
    Notes (m.notedChain dir links fb slot) (m.nextInChain dir links fb slot)
      fun events _ => Chases links fb events
  | links, fb, slot => by
      rw [notedChain.eq_def, nextInChain.eq_def]
      refine notes_bind (Q := fun _ events _ => Chases links fb (.read fb :: events))
        (notes_leaf fb _) ?_ (by rintro _ _ rfl; exact chases_read links fb)
        (by rintro _ _ _ _ rfl h; exact h)
      rintro ⟨header, entries⟩ -
      refine notes_quiet_bind (fun _ => chases_read links fb) fun found => ?_
      rcases found with - | ⟨entry, slot⟩
      · refine notes_ite (notes_pure (chases_read links fb)) ?_
        cases links with
        | zero => exact notes_throw (chases_read 0 fb)
        | succ links =>
          refine notes_note (notes_liftM_bind (fun _ => ?_) fun _ _ => ?_)
          · exact ⟨_, rfl, .refuses (List.mem_singleton.mpr rfl)⟩
          · exact (chases_chain links _ 0).mono fun _ _ h => h.link
      · exact notes_pure (chases_read links fb)

/-! ## Whole walks -/

/-- What a walk over the index notes: it goes down to a leaf in at most six blocks, and then goes
along the leaves. -/
def Walks (links : Nat) (events : List IndexEvent) : Prop :=
  ∃ descent chain, events = descent ++ chain ∧ Comes entryRoutes 6 descent ∧
    (chain = [] ∨ ∃ fb, Chases links fb chain)

theorem Comes.walks {links : Nat} {events : List IndexEvent} (h : Comes entryRoutes 6 events) :
    Walks links events :=
  ⟨events, [], (List.append_nil _).symm, h, Or.inl rfl⟩

theorem Comes.walks_append {links fb : Nat} {events later : List IndexEvent}
    (h : Comes entryRoutes 6 events) (hlater : Chases links fb later) :
    Walks links (events ++ later) :=
  ⟨events, later, rfl, h, Or.inr ⟨fb, hlater⟩⟩

theorem walks_lookup (name : Name) :
    Notes (m.notedLookup dir name) (m.lookupNode dir name)
      fun events _ => Walks (m.maxLeafLinks dir) events := by
  rw [notedLookup, lookupNode]
  exact notes_bind comes_indexLeaf (fun fb _ => chases_search _ fb) (fun _ _ h => Comes.walks h)
    fun _ _ _ _ h h' => Comes.walks_append h h'

theorem walks_next (cursor : DirCursor) :
    Notes (m.notedNext dir cursor) (m.nextNode dir cursor)
      fun events _ => Walks (m.maxLeafLinks dir) events := by
  rw [notedNext, nextNode]
  dsimp only
  split
  · exact notes_bind comes_indexLeaf (fun fb _ => chases_chain _ fb _) (fun _ _ h => Comes.walks h)
      fun _ _ _ _ h h' => Comes.walks_append h h'
  · have hcursor (fb : Nat) : Comes entryRoutes 6 [.followed .cursor fb] := .refuses (by decide)
    refine notes_note (notes_liftM_bind (fun _ => Comes.walks (hcursor _)) fun _ _ => ?_)
    exact (chases_chain _ _ _).mono fun _ _ h => Comes.walks_append (hcursor _) h

/-! ## Chains that end -/

/-- Search through the leaves of a chain, one after the other to its end `out`. -/
def searchLeaves (m : Medium) (dir : Inode) (hash : UInt32) (name : Name)
    (out : Except Fault Unit) : List IndexLeaf → Except Fault (Option (Nat × FileKind))
  | [] => out.map fun _ => none
  | leaf :: rest => do
    match ← fresh (m.searchLeaf dir hash name leaf.entries) with
    | .found target => .ok (some target)
    | .missing => .ok none
    | .reachedEnd => m.searchLeaves dir hash name out rest

theorem ForwardChain.searchChain_eq {fb : Nat} {leaves : List IndexLeaf}
    {out : Except Fault Unit} (h : m.ForwardChain dir fb leaves out) (hash : UInt32) (name : Name) :
    ∀ {links : Nat}, leaves.length ≤ links →
      fresh (m.searchChain dir hash name links fb) = m.searchLeaves dir hash name out leaves := by
  induction h with
  | broken unread =>
    intro links _
    rw [searchChain.eq_def]
    exact fresh_bind_error unread
  | last reads ends =>
    intro links _
    rw [fresh_searchChain reads, searchLeaves]
    congr 1
    funext run
    cases run with
    | found target => rfl
    | missing => rfl
    | reachedEnd => exact if_pos ends
  | link reads goes after ih =>
    intro links hlinks
    obtain ⟨k, rfl⟩ := Nat.exists_eq_add_of_lt (Nat.lt_of_succ_le hlinks)
    rw [fresh_searchChain reads, searchLeaves]
    congr 1
    funext run
    cases run with
    | found target => rfl
    | missing => rfl
    | reachedEnd =>
      dsimp only
      rw [if_neg goes]
      exact ih (Nat.le_add_right _ k)

/-- **Walks over the index end.** Whatever the medium, the inode and the cache hold, a look-up in a
node directory and a step of its listing come to at most six index blocks on the way down, and read
along the chain at most one leaf more than the directory claims blocks, or than the volume has. Where
the chain from the leaf that is entered ends within that many leaves, the bound is not met: the
answer is that of going through all the leaves of the chain. -/
theorem indexWalks_end (m : Medium) (dir : Inode) (c : BlockCache) :
    (∀ name, ∃ descent chain,
      ((m.notedLookup dir name).run.run []).run c =
        ((((m.lookupNode dir name).run.run c).1, descent ++ chain),
          ((m.lookupNode dir name).run.run c).2) ∧
      Comes entryRoutes 6 descent ∧ descent.countP IndexEvent.isRead ≤ 6 ∧
      (chain = [] ∨ ∃ fb, Chases (m.maxLeafLinks dir) fb chain) ∧
      chain.countP IndexEvent.isRead ≤ 1 + min dir.blocks.toNat m.geometry.dataBlocks.toNat) ∧
    (∀ cursor, ∃ descent chain,
      ((m.notedNext dir cursor).run.run []).run c =
        ((((m.nextNode dir cursor).run.run c).1, descent ++ chain),
          ((m.nextNode dir cursor).run.run c).2) ∧
      Comes entryRoutes 6 descent ∧ descent.countP IndexEvent.isRead ≤ 6 ∧
      (chain = [] ∨ ∃ fb, Chases (m.maxLeafLinks dir) fb chain) ∧
      chain.countP IndexEvent.isRead ≤ 1 + min dir.blocks.toNat m.geometry.dataBlocks.toNat) ∧
    (c.Agrees m.device → ∀ fb leaves out, m.ForwardChain dir fb leaves out →
      leaves.length ≤ min dir.blocks.toNat m.geometry.dataBlocks.toNat →
        (∀ name, fresh (m.indexLeaf dir fun entries => HashNode.childFor entries (nameHash name)) =
            .ok fb →
          ((m.lookupNode dir name).run.run c).1 =
            m.searchLeaves dir (nameHash name) name out leaves) ∧
        ∀ cursor, fresh (m.stepEntry dir cursor) = .ok fb →
          ((m.nextNode dir cursor).run.run c).1 =
            m.stepLeaves dir out leaves (cursor % (1 <<< slotBits))) := by
  have hreads {links : Nat} {chain : List IndexEvent}
      (h : chain = [] ∨ ∃ fb, Chases links fb chain) :
      chain.countP IndexEvent.isRead ≤ 1 + links := by
    rcases h with rfl | ⟨fb, h⟩
    · exact Nat.zero_le _
    · exact h.countP_le
  refine ⟨fun name => ?_, fun cursor => ?_, fun hc fb leaves out hchain hfew => ?_⟩
  · obtain ⟨_, hrun, descent, chain, rfl, hdown, halong⟩ := walks_lookup name c []
    exact ⟨descent, chain, hrun, hdown, hdown.countP_le, halong, hreads halong⟩
  · obtain ⟨_, hrun, descent, chain, rfl, hdown, halong⟩ := walks_next cursor c []
    exact ⟨descent, chain, hrun, hdown, hdown.countP_le, halong, hreads halong⟩
  · refine ⟨fun name hentry => ?_, fun cursor hentry => ?_⟩
    · rw [(m.steady_lookupNode dir name c hc).1, ← hchain.searchChain_eq _ name hfew]
      exact fresh_bind_ok (m.steady_indexLeaf dir _) (fun fb => m.steady_searchChain dir _ _ _ _)
        hentry
    · rw [(m.steady_nextNode dir cursor c hc).1, fresh_nextNode hentry]
      exact hchain.nextInChain_eq hfew

/-- The chain of the small directory, searched for `b` and listed from behind `a`. -/
theorem indexWalks_end_smallDir :
    (BlockCache.withCapacity 2).Agrees smallDir.device ∧
      smallDir.ForwardChain smallDirInode 5 smallLeaves (.ok ()) ∧
      smallLeaves.length ≤ min smallDirInode.blocks.toNat smallDir.geometry.dataBlocks.toNat ∧
      fresh (smallDir.indexLeaf smallDirInode fun entries =>
        HashNode.childFor entries (nameHash [0x62])) = .ok 5 ∧
      fresh (smallDir.stepEntry smallDirInode ((2 <<< slotBits) + 1)) = .ok 5 ∧
      ((smallDir.lookupNode smallDirInode [0x62]).run.run (BlockCache.withCapacity 2)).1 =
        .ok (some (12, .unknown)) ∧
      ((smallDir.nextNode smallDirInode ((2 <<< slotBits) + 1)).run.run
        (BlockCache.withCapacity 2)).1 =
          .ok (some (⟨12, [0x62], .unknown⟩, (3 <<< slotBits) + 1)) := by
  have hagrees := BlockCache.agrees_withCapacity 2 smallDir.device
  obtain ⟨hchain, -⟩ := forwardChain_of_chained smallDir_index.chained smallDir_index.leafAt
  have hfew : smallLeaves.length ≤
      min smallDirInode.blocks.toNat smallDir.geometry.dataBlocks.toNat := by decide
  have hlookup : fresh (smallDir.indexLeaf smallDirInode fun entries =>
      HashNode.childFor entries (nameHash [0x62])) = .ok 5 := by decide +kernel
  have hstep : fresh (smallDir.stepEntry smallDirInode ((2 <<< slotBits) + 1)) = .ok 5 := by
    decide +kernel
  obtain ⟨hfound, hnext⟩ := (indexWalks_end smallDir smallDirInode (BlockCache.withCapacity 2)).2.2
    hagrees 5 smallLeaves _ hchain hfew
  refine ⟨hagrees, hchain, hfew, hlookup, hstep, ?_, ?_⟩
  · rw [hfound [0x62] hlookup]
    decide +kernel
  · rw [hnext _ hstep]
    decide +kernel

end Medium

end XfsVolume
