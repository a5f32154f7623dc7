import XfsVolume.Proofs.Directory.Agreement

/-!
# Blocks read as index blocks

A node directory keeps its index between two places of the file, the index region. A walk over the
index comes to its blocks along four routes: the root, the child of a node, the link of a leaf and
the cursor of a listing. Each walk is run once more with a note of every block it comes to and of
every block it reads as one of the index (`NotedM`), and `Notes` relates it to the walk itself: same
answer, same cache, and notes of a given kind.

A listing checks every block it comes to before it reads it. A look-up does so on its way down, and
not for the links between the leaves: what it reads lies in the region exactly where the links that
it follows do.
-/

namespace XfsVolume

/-- How a walk comes to a block of the index. -/
inductive IndexRoute
  | root
  | child
  | link
  | cursor
  deriving DecidableEq

/-- What a walk over the index does. -/
inductive IndexEvent
  /-- It comes to a file block. -/
  | followed (route : IndexRoute) (fb : Nat)
  /-- It reads a file block as one of the index. -/
  | read (fb : Nat)
  deriving DecidableEq

/-- A computation on directory blocks that notes what it does on the index. -/
abbrev NotedM := ExceptT Fault (StateT (List IndexEvent) (StateM BlockCache))

variable {α β : Type}

def note (e : IndexEvent) : NotedM Unit := modify fun events => events ++ [e]

def quiet (x : CacheM α) : NotedM α := ExceptT.mk (StateT.lift x.run)

/-- `x` gives what `y` gives, leaves the cache that `y` leaves, and what it notes is related to the
answer by `P`. -/
def Notes (x : NotedM α) (y : CacheM α) (P : List IndexEvent → Except Fault α → Prop) : Prop :=
  ∀ (c : BlockCache) (before : List IndexEvent), ∃ events,
    (x.run.run before).run c = (((y.run.run c).1, before ++ events), (y.run.run c).2) ∧
      P events (y.run.run c).1

section Notes

variable {x : NotedM α} {y : CacheM α} {f : α → NotedM β} {g : α → CacheM β}
  {P : List IndexEvent → Except Fault α → Prop}

theorem run_noted_bind (x : NotedM α) (f : α → NotedM β) (before : List IndexEvent)
    (c : BlockCache) : ((x >>= f).run.run before).run c =
      match (x.run.run before).run c with
      | ((.ok a, events), c') => ((f a).run.run events).run c'
      | ((.error e, events), c') => ((.error e, events), c') := by
  show ((ExceptT.bind x f).run.run before).run c = _
  rw [ExceptT.bind, ExceptT.mk, ExceptT.run, StateT.run_bind, StateT.run_bind, ExceptT.run]
  rcases (StateT.run x before).run c with ⟨⟨a | a, events⟩, c'⟩
  · rfl
  · rfl

theorem notes_pure {a : α} (h : P [] (.ok a)) : Notes (pure a) (pure a) P :=
  fun _ before => ⟨[], by rw [List.append_nil]; rfl, h⟩

theorem notes_throw {e : Fault} (h : P [] (.error e)) : Notes (throw e) (throw e) P :=
  fun _ before => ⟨[], by rw [List.append_nil]; rfl, h⟩

theorem notes_quiet (h : ∀ r, P [] r) : Notes (quiet y) y P :=
  fun _ before => ⟨[], by rw [List.append_nil]; rfl, h _⟩

theorem notes_liftM {r : Except Fault α} (h : P [] r) : Notes (liftM r) (liftM r) P :=
  fun _ before => ⟨[], by rw [List.append_nil]; rfl, h⟩

theorem notes_note {e : IndexEvent} (h : Notes x y fun events r => P (e :: events) r) :
    Notes (note e >>= fun _ => x) y P := by
  intro c before
  obtain ⟨events, hrun, hP⟩ := h c (before ++ [e])
  refine ⟨e :: events, ?_, hP⟩
  rw [List.append_assoc] at hrun
  exact hrun

theorem notes_ite {p : Prop} [Decidable p] {x' : NotedM α} {y' : CacheM α} (h : Notes x y P)
    (h' : Notes x' y' P) : Notes (if p then x else x') (if p then y else y') P := by
  split
  · exact h
  · exact h'

theorem Notes.mono {Q : List IndexEvent → Except Fault α → Prop} (h : Notes x y P)
    (himp : ∀ events r, P events r → Q events r) : Notes x y Q := by
  intro c before
  obtain ⟨events, hrun, hP⟩ := h c before
  exact ⟨events, hrun, himp _ _ hP⟩

theorem notes_bind {Q : α → List IndexEvent → Except Fault β → Prop}
    {R : List IndexEvent → Except Fault β → Prop} (hx : Notes x y P)
    (hf : ∀ a, (∃ events, P events (.ok a)) → Notes (f a) (g a) (Q a))
    (herror : ∀ events e, P events (.error e) → R events (.error e))
    (hok : ∀ events a later r, P events (.ok a) → Q a later r → R (events ++ later) r) :
    Notes (x >>= f) (y >>= g) R := by
  intro c before
  obtain ⟨events, hrun, hP⟩ := hx c before
  rw [run_noted_bind, run_bind, hrun]
  generalize y.run.run c = after at hP
  obtain ⟨e | a, c'⟩ := after
  · exact ⟨events, rfl, herror _ _ hP⟩
  · obtain ⟨later, hlater, hQ⟩ := hf a ⟨events, hP⟩ c' (before ++ events)
    refine ⟨events ++ later, ?_, hok _ _ _ _ hP hQ⟩
    rw [← List.append_assoc]
    exact hlater

theorem notes_liftM_bind {r : Except Fault α} {R : List IndexEvent → Except Fault β → Prop}
    (herror : ∀ e, R [] (.error e)) (hok : ∀ a, r = .ok a → Notes (f a) (g a) R) :
    Notes (liftM r >>= f) (liftM r >>= g) R := by
  cases r with
  | error e => exact notes_throw (herror e)
  | ok a => exact hok a rfl

theorem notes_quiet_bind {R : List IndexEvent → Except Fault β → Prop}
    (herror : ∀ e, R [] (.error e)) (hok : ∀ a, Notes (f a) (g a) R) :
    Notes (quiet y >>= f) (y >>= g) R := by
  refine notes_bind (P := fun events _ => events = []) (Q := fun _ => R) (notes_quiet fun _ => rfl)
    (fun a _ => hok a) ?_ ?_
  · rintro _ e rfl
    exact herror e
  · rintro _ a later r rfl h
    exact h

end Notes

namespace Medium

/-! ## The walks with their notes -/

/-- The block `fb` of the index, with a note that it is read. -/
def notedBlock (m : Medium) (dir : Inode) (fb : Nat) : NotedM ByteArray := do
  note (.read fb)
  quiet (m.readDirBlock dir fb)

def notedLeaf (m : Medium) (dir : Inode) (fb : Nat) (kind : LeafKind) :
    NotedM (LeafHeader × List HashEntry) := do
  let block ← m.notedBlock dir fb
  let header ← decodedIn dir fb (LeafHeader.decode block)
  if header.kind ≠ kind then
    throw (dirFault fb (.leafKind dir.ino.toNat header.kind kind))
  let entries ← decodedIn dir fb (header.entries block)
  return (header, entries)

def notedIndexBlock (m : Medium) (dir : Inode) (route : IndexRoute) (fb : Nat)
    (expected : Option Nat) : NotedM IndexBlock := do
  note (.followed route fb)
  m.checkIndexRegion dir fb
  let block ← m.notedBlock dir fb
  let magic ← decodedIn dir fb (indexMagic block)
  if magic == LeafKind.chained.magic || magic == LeafKind.chained.magicCrc then
    match expected with
    | none | some 0 => return .leaf
    | some level => throw (dirFault fb (.leafAtLevel level))
  let node ← decodedIn dir fb (HashNode.decode block)
  match expected with
  | some level =>
    if node.level ≠ level then throw (dirFault fb (.nodeLevel node.level level))
    return .node node
  | none => return .node node

def notedDescent (m : Medium) (dir : Inode) (pick : List NodeEntry → Option NodeEntry) :
    (level fb : Nat) → NotedM Nat
  | level, fb => do
    match ← m.notedIndexBlock dir .child fb (some level) with
    | .leaf => return fb
    | .node n =>
      match level with
      | level + 1 =>
        let some child := pick n.entries | throw (dirFault fb .emptyNode)
        m.notedDescent dir pick level child.child.toNat
      | 0 => throw (dirFault fb (.nodeLevel n.level 0))

def notedIndexLeaf (m : Medium) (dir : Inode) (pick : List NodeEntry → Option NodeEntry) :
    NotedM Nat := do
  let root := m.geometry.indexRegion
  match ← m.notedIndexBlock dir .root root none with
  | .leaf => return root
  | .node n =>
    let some child := pick n.entries | throw (dirFault root .emptyNode)
    m.notedDescent dir pick (n.level - 1) child.child.toNat

def notedSearch (m : Medium) (dir : Inode) (hash : UInt32) (name : Name) :
    (links fb : Nat) → NotedM (Option (Nat × FileKind))
  | links, fb => do
    let (header, entries) ← m.notedLeaf dir fb .chained
    match ← quiet (m.searchLeaf dir hash name entries) with
    | .found target => return some target
    | .missing => return none
    | .reachedEnd =>
      if header.next == 0 then return none
      else
        match links with
        | 0 => throw (dirFault fb .chainEndless)
        | links + 1 =>
          note (.followed .link header.next.toNat)
          m.notedSearch dir hash name links header.next.toNat

def notedLookup (m : Medium) (dir : Inode) (name : Name) :
    NotedM (Option (Nat × FileKind)) := do
  let hash := nameHash name
  let fb ← m.notedIndexLeaf dir fun entries => HashNode.childFor entries hash
  m.notedSearch dir hash name (m.maxLeafLinks dir) fb

def notedChain (m : Medium) (dir : Inode) :
    (links fb slot : Nat) → NotedM (Option (DirEntry × DirCursor))
  | links, fb, slot => do
    let (header, entries) ← m.notedLeaf dir fb .chained
    match ← quiet (m.liveEntryFrom dir entries slot) with
    | some (entry, slot) =>
      return some (entry, ((fb - m.geometry.indexRegion + 1) <<< slotBits) + (slot + 1))
    | none =>
      if header.next == 0 then return none
      else
        match links with
        | 0 => throw (dirFault fb .chainEndless)
        | links + 1 =>
          let next := header.next.toNat
          note (.followed .link next)
          m.checkIndexRegion dir next
          m.notedChain dir links next 0

def notedNext (m : Medium) (dir : Inode) (cursor : DirCursor) :
    NotedM (Option (DirEntry × DirCursor)) := do
  let slot := cursor % (1 <<< slotBits)
  let place := cursor >>> slotBits
  let fb ←
    if place = 0 then m.notedIndexLeaf dir List.head?
    else do
      let fb := m.geometry.indexRegion + place - 1
      note (.followed .cursor fb)
      m.checkIndexRegion dir fb
      pure fb
  m.notedChain dir (m.maxLeafLinks dir) fb slot

/-! ## What the walks note -/

variable {m : Medium} {dir : Inode}

def InIndexRegion (m : Medium) (fb : Nat) : Prop :=
  m.geometry.indexRegion ≤ fb ∧ fb < m.geometry.freeRegion

/-- Blocks are come to along the given routes, and read in the index region only; coming to one
outside of it is the fault that the walk ends with. -/
structure Confined (m : Medium) (dir : Inode) (routes : List IndexRoute)
    (events : List IndexEvent) (r : Except Fault α) : Prop where
  along : ∀ route fb, .followed route fb ∈ events → route ∈ routes
  reads : ∀ fb, .read fb ∈ events → m.InIndexRegion fb
  outside : ∀ route fb, .followed route fb ∈ events → ¬ m.InIndexRegion fb →
    r = .error (dirFault fb (.outsideLeafRegion dir.ino.toNat))

variable {routes : List IndexRoute}

theorem confined_nil (r : Except Fault α) : m.Confined dir routes [] r where
  along _ _ hmem := absurd hmem List.not_mem_nil
  reads _ hmem := absurd hmem List.not_mem_nil
  outside _ _ hmem := absurd hmem List.not_mem_nil

theorem Confined.error {events : List IndexEvent} {e : Fault}
    (h : m.Confined dir routes events (.error e : Except Fault α)) :
    m.Confined dir routes events (.error e : Except Fault β) where
  along := h.along
  reads := h.reads
  outside route fb hmem hout := by
    cases h.outside route fb hmem hout
    rfl

theorem Confined.append {events later : List IndexEvent} {a : α} {r : Except Fault β}
    (h : m.Confined dir routes events (.ok a)) (h' : m.Confined dir routes later r) :
    m.Confined dir routes (events ++ later) r where
  along route fb hmem := (List.mem_append.mp hmem).elim (h.along route fb) (h'.along route fb)
  reads fb hmem := (List.mem_append.mp hmem).elim (h.reads fb) (h'.reads fb)
  outside route fb hmem hout := by
    rcases List.mem_append.mp hmem with hmem | hmem
    · cases h.outside route fb hmem hout
    · exact h'.outside route fb hmem hout

theorem Confined.mono {events : List IndexEvent} {r : Except Fault α} {routes' : List IndexRoute}
    (h : m.Confined dir routes events r) (hsub : routes ⊆ routes') :
    m.Confined dir routes' events r where
  along route fb hmem := hsub (h.along route fb hmem)
  reads := h.reads
  outside := h.outside

theorem Confined.followed {events : List IndexEvent} {r : Except Fault α} {fb : Nat}
    {route : IndexRoute} (h : m.Confined dir routes events r) (hroute : route ∈ routes)
    (hin : m.InIndexRegion fb) : m.Confined dir routes (.followed route fb :: events) r where
  along route' fb' hmem := by
    rcases List.mem_cons.mp hmem with heq | hmem
    · cases heq
      exact hroute
    · exact h.along route' fb' hmem
  reads fb' hmem := by
    rcases List.mem_cons.mp hmem with heq | hmem
    · cases heq
    · exact h.reads fb' hmem
  outside route' fb' hmem hout := by
    rcases List.mem_cons.mp hmem with heq | hmem
    · cases heq
      exact absurd hin hout
    · exact h.outside route' fb' hmem hout

theorem confined_outside {fb : Nat} {route : IndexRoute} (hroute : route ∈ routes) :
    m.Confined dir routes [.followed route fb]
      (.error (dirFault fb (.outsideLeafRegion dir.ino.toNat)) : Except Fault α) where
  along route' fb' hmem := by
    cases List.mem_singleton.mp hmem
    exact hroute
  reads fb' hmem := by cases List.mem_singleton.mp hmem
  outside route' fb' hmem _ := by
    cases List.mem_singleton.mp hmem
    rfl

/-- A computation that gives what the other gives, and whose notes are confined. -/
def Confines (m : Medium) (dir : Inode) (routes : List IndexRoute) (x : NotedM α) (y : CacheM α) :
    Prop := Notes x y (m.Confined dir routes)

theorem confines_bind {x : NotedM α} {y : CacheM α} {f : α → NotedM β} {g : α → CacheM β}
    (hx : m.Confines dir routes x y) (hf : ∀ a, m.Confines dir routes (f a) (g a)) :
    m.Confines dir routes (x >>= f) (y >>= g) :=
  notes_bind hx (fun a _ => hf a) (fun _ _ h => h.error) fun _ _ _ _ h h' => h.append h'

theorem confines_pure (a : α) : m.Confines dir routes (pure a) (pure a) :=
  notes_pure (confined_nil _)

theorem confines_throw (e : Fault) : m.Confines dir routes (throw e : NotedM α) (throw e) :=
  notes_throw (confined_nil _)

theorem confines_quiet (y : CacheM α) : m.Confines dir routes (quiet y) y :=
  notes_quiet confined_nil

theorem confines_liftM (r : Except Fault α) :
    m.Confines dir routes (liftM r : NotedM α) (liftM r : CacheM α) :=
  notes_liftM (confined_nil _)

theorem confines_ite {p : Prop} [Decidable p] {x x' : NotedM α} {y y' : CacheM α}
    (h : m.Confines dir routes x y) (h' : m.Confines dir routes x' y') :
    m.Confines dir routes (if p then x else x') (if p then y else y') := notes_ite h h'

theorem checkIndexRegion_outside {fb : Nat} (h : ¬ m.InIndexRegion fb) :
    m.checkIndexRegion dir fb = .error (dirFault fb (.outsideLeafRegion dir.ino.toNat)) := by
  rw [checkIndexRegion, if_pos]
  rw [Bool.or_eq_true, decide_eq_true_eq, decide_eq_true_eq]
  rw [InIndexRegion] at h
  omega

theorem confines_followed {route : IndexRoute} (hroute : route ∈ routes) {fb : Nat}
    {f : Unit → NotedM α} {g : Unit → CacheM α}
    (h : m.InIndexRegion fb → m.Confines dir routes (f ()) (g ())) :
    Notes (note (.followed route fb) >>= fun _ => liftM (m.checkIndexRegion dir fb) >>= f)
      (liftM (m.checkIndexRegion dir fb) >>= g)
      fun events r => m.Confined dir routes events r ∧ ∀ a, r = .ok a → m.InIndexRegion fb := by
  by_cases hin : m.InIndexRegion fb
  · rw [checkIndexRegion_eq_ok.mpr hin]
    exact notes_note ((h hin).mono fun events r hr => ⟨hr.followed hroute hin, fun _ _ => hin⟩)
  · rw [checkIndexRegion_outside hin]
    exact notes_note (notes_throw ⟨confined_outside hroute, fun _ heq => by cases heq⟩)

theorem confines_block {fb : Nat} (hin : m.InIndexRegion fb) :
    m.Confines dir routes (m.notedBlock dir fb) (m.readDirBlock dir fb) := by
  refine notes_note (notes_quiet fun r => ⟨?_, ?_, ?_⟩)
  · intro route fb' hmem
    cases List.mem_singleton.mp hmem
  · intro fb' hmem
    cases List.mem_singleton.mp hmem
    exact hin
  · intro route fb' hmem
    cases List.mem_singleton.mp hmem

theorem confines_leaf {fb : Nat} (hin : m.InIndexRegion fb) (kind : LeafKind) :
    m.Confines dir routes (m.notedLeaf dir fb kind) (m.readLeaf dir fb kind) := by
  rw [notedLeaf, readLeaf]
  refine confines_bind (confines_block hin) fun block => ?_
  refine confines_bind (confines_liftM _) fun header => ?_
  refine confines_ite (confines_bind (confines_throw _) fun _ => ?_) ?_
  · exact confines_bind (confines_liftM _) fun entries => confines_pure _
  · exact confines_bind (confines_liftM _) fun entries => confines_pure _

theorem notes_indexBlock {route : IndexRoute} (hroute : route ∈ routes) (fb : Nat)
    (expected : Option Nat) :
    Notes (m.notedIndexBlock dir route fb expected) (m.readIndexBlock dir fb expected)
      fun events r => m.Confined dir routes events r ∧ ∀ b, r = .ok b → m.InIndexRegion fb := by
  rw [notedIndexBlock, readIndexBlock]
  refine confines_followed hroute fun hin => ?_
  refine confines_bind (confines_block hin) fun block => ?_
  refine confines_bind (confines_liftM _) fun magic => ?_
  cases expected with
  | none =>
    exact confines_ite (confines_pure _)
      (confines_bind (confines_liftM _) fun _ => confines_pure _)
  | some level =>
    have hnode : m.Confines dir routes
        (liftM (decodedIn dir fb (HashNode.decode block)) >>= fun node =>
          if node.level ≠ level then
            (throw (dirFault fb (.nodeLevel node.level level)) : NotedM Unit) >>= fun _ =>
              pure (IndexBlock.node node)
          else (pure (IndexBlock.node node) : NotedM IndexBlock))
        (liftM (decodedIn dir fb (HashNode.decode block)) >>= fun node =>
          if node.level ≠ level then
            (throw (dirFault fb (.nodeLevel node.level level)) : CacheM Unit) >>= fun _ =>
              pure (IndexBlock.node node)
          else (pure (IndexBlock.node node) : CacheM IndexBlock)) :=
      confines_bind (confines_liftM _) fun node =>
        confines_ite (confines_bind (confines_throw _) fun _ => confines_pure _) (confines_pure _)
    refine confines_ite ?_ hnode
    cases level with
    | zero => exact confines_pure _
    | succ level => exact confines_bind (confines_throw _) fun _ => hnode

/-- What a walk down the index notes; it ends at a block of the region. -/
structure Descended (m : Medium) (dir : Inode) (events : List IndexEvent)
    (r : Except Fault Nat) : Prop extends m.Confined dir [.root, .child] events r where
  lands : ∀ fb, r = .ok fb → m.InIndexRegion fb

theorem Descended.error {events : List IndexEvent} {e : Fault}
    (h : m.Confined dir [.root, .child] events (.error e : Except Fault α)) :
    m.Descended dir events (.error e) :=
  ⟨h.error, fun _ heq => by cases heq⟩

theorem notes_descent {pick : List NodeEntry → Option NodeEntry} : ∀ level fb : Nat,
    Notes (m.notedDescent dir pick level fb) (m.descendIndex dir pick level fb) (m.Descended dir)
  | level, fb => by
      rw [notedDescent.eq_def, descendIndex.eq_def]
      refine notes_bind (Q := fun _ => m.Descended dir) (notes_indexBlock (by decide) _ _) ?_
        (fun _ _ h => .error h.1) fun _ _ _ _ h h' => ⟨h.1.append h'.1, h'.2⟩
      rintro block ⟨events, -, hland⟩
      have hin := hland block rfl
      cases block with
      | leaf =>
        refine notes_pure ⟨confined_nil _, ?_⟩
        rintro _ ⟨⟩
        exact hin
      | node n =>
        cases level with
        | zero => exact notes_throw (.error (confined_nil (.error _ : Except Fault Nat)))
        | succ level =>
          dsimp only
          cases pick n.entries with
          | none => exact notes_throw (.error (confined_nil (.error _ : Except Fault Nat)))
          | some child => exact notes_descent level _

theorem notes_indexLeaf {pick : List NodeEntry → Option NodeEntry} :
    Notes (m.notedIndexLeaf dir pick) (m.indexLeaf dir pick) (m.Descended dir) := by
  rw [notedIndexLeaf, indexLeaf]
  refine notes_bind (Q := fun _ => m.Descended dir) (notes_indexBlock (by decide) _ _) ?_
    (fun _ _ h => .error h.1) fun _ _ _ _ h h' => ⟨h.1.append h'.1, h'.2⟩
  rintro block ⟨events, -, hland⟩
  have hin := hland block rfl
  cases block with
  | leaf =>
    refine notes_pure ⟨confined_nil _, ?_⟩
    rintro _ ⟨⟩
    exact hin
  | node n =>
    dsimp only
    cases pick n.entries with
    | none => exact notes_throw (.error (confined_nil (.error _ : Except Fault Nat)))
    | some child => exact notes_descent _ _

/-! ## Listings -/

/-- The routes along which a listing comes to the blocks of the index. -/
def listingRoutes : List IndexRoute := [.root, .child, .link, .cursor]

theorem confines_chain : ∀ {links fb slot : Nat}, m.InIndexRegion fb →
    m.Confines dir listingRoutes (m.notedChain dir links fb slot) (m.nextInChain dir links fb slot)
  | links, fb, slot, hin => by
      rw [notedChain.eq_def, nextInChain.eq_def]
      refine confines_bind (confines_leaf hin _) fun leaf => ?_
      refine confines_bind (confines_quiet _) fun found => ?_
      rcases found with - | ⟨entry, slot⟩
      · refine confines_ite (confines_pure _) ?_
        cases links with
        | zero => exact confines_throw _
        | succ links =>
          exact (confines_followed (by decide) fun hnext => confines_chain hnext).mono
            fun _ _ h => h.1
      · exact confines_pure _

theorem confines_next (cursor : DirCursor) :
    m.Confines dir listingRoutes (m.notedNext dir cursor) (m.nextNode dir cursor) := by
  have hdown : [IndexRoute.root, .child] ⊆ listingRoutes := by decide
  rw [notedNext, nextNode]
  dsimp only
  split
  · refine notes_bind notes_indexLeaf (fun fb hdescended => confines_chain ?_) ?_ ?_
    · obtain ⟨_, h⟩ := hdescended
      exact h.lands fb rfl
    · exact fun _ _ h => (h.toConfined.mono hdown).error
    · exact fun _ _ _ _ h h' => (h.toConfined.mono hdown).append h'
  · exact (confines_followed (by decide) fun hin => confines_chain hin).mono fun _ _ h => h.1

/-! ## Look-ups -/

/-- What a search along the leaves from the block `fb` on notes: it reads that block and those that
it comes to along links, and comes to no other. -/
structure Chased (fb : Nat) (events : List IndexEvent) : Prop where
  starts : .read fb ∈ events
  reads : ∀ fb', .read fb' ∈ events → fb' = fb ∨ .followed .link fb' ∈ events
  links : ∀ route fb', .followed route fb' ∈ events → route = .link ∧ .read fb' ∈ events

theorem chased_read (fb : Nat) : Chased fb [.read fb] where
  starts := List.mem_singleton.mpr rfl
  reads fb' hmem := by
    cases List.mem_singleton.mp hmem
    exact Or.inl rfl
  links route fb' hmem := by cases List.mem_singleton.mp hmem

theorem Chased.link {fb next : Nat} {events : List IndexEvent} (h : Chased next events) :
    Chased fb (.read fb :: .followed .link next :: events) where
  starts := List.mem_cons_self
  reads fb' hmem := by
    simp only [List.mem_cons, reduceCtorEq, false_or, IndexEvent.read.injEq] at hmem
    rcases hmem with rfl | hmem
    · exact Or.inl rfl
    · refine Or.inr (List.mem_cons_of_mem _ ?_)
      rcases h.reads fb' hmem with rfl | hlink
      · exact List.mem_cons_self
      · exact List.mem_cons_of_mem _ hlink
  links route fb' hmem := by
    simp only [List.mem_cons, reduceCtorEq, false_or, IndexEvent.followed.injEq] at hmem
    rcases hmem with ⟨rfl, rfl⟩ | hmem
    · exact ⟨rfl, List.mem_cons_of_mem _ (List.mem_cons_of_mem _ h.starts)⟩
    · obtain ⟨rfl, hread⟩ := h.links route fb' hmem
      exact ⟨rfl, List.mem_cons_of_mem _ (List.mem_cons_of_mem _ hread)⟩

theorem notes_leaf (fb : Nat) (kind : LeafKind) :
    Notes (m.notedLeaf dir fb kind) (m.readLeaf dir fb kind)
      fun events _ => events = [.read fb] := by
  rw [notedLeaf, readLeaf]
  refine notes_bind (P := fun events _ => events = [.read fb]) (Q := fun _ events _ => events = [])
    (notes_note (notes_quiet fun _ => rfl)) ?_ (fun _ _ h => h) ?_
  · intro block _
    have hnil {α β : Type} {x : NotedM α} {y : CacheM α} {f : α → NotedM β} {g : α → CacheM β}
        (hx : Notes x y fun events _ => events = [])
        (hf : ∀ a, Notes (f a) (g a) fun events _ => events = []) :
        Notes (x >>= f) (y >>= g) fun events _ => events = [] :=
      notes_bind hx (fun a _ => hf a) (fun _ _ h => h) (by rintro _ _ _ _ rfl rfl; rfl)
    refine hnil (notes_liftM rfl) fun header => notes_ite (hnil (notes_throw rfl) fun _ => ?_) ?_
    · exact hnil (notes_liftM rfl) fun entries => notes_pure rfl
    · exact hnil (notes_liftM rfl) fun entries => notes_pure rfl
  · rintro _ _ _ _ rfl rfl
    rfl

theorem notes_search {hash : UInt32} {name : Name} : ∀ links fb : Nat,
    Notes (m.notedSearch dir hash name links fb) (m.searchChain dir hash name links fb)
      fun events _ => Chased fb events
  | links, fb => by
      rw [notedSearch.eq_def, searchChain.eq_def]
      refine notes_bind (Q := fun _ events _ => Chased fb (.read fb :: events)) (notes_leaf fb _) ?_
        (by rintro _ _ rfl; exact chased_read fb) (by rintro _ _ _ _ rfl h; exact h)
      rintro ⟨header, entries⟩ -
      refine notes_bind (P := fun events _ => events = [])
        (Q := fun _ events _ => Chased fb (.read fb :: events)) (notes_quiet fun _ => rfl) ?_
        (by rintro _ _ rfl; exact chased_read fb) (by rintro _ _ _ _ rfl h; exact h)
      intro run _
      cases run with
      | found target => exact notes_pure (chased_read fb)
      | missing => exact notes_pure (chased_read fb)
      | reachedEnd =>
        refine notes_ite (notes_pure (chased_read fb)) ?_
        cases links with
        | zero => exact notes_throw (chased_read fb)
        | succ links => exact notes_note ((notes_search links _).mono fun _ _ h => h.link)

/-- What a look-up notes: coming to a block outside the region on the way down is the fault it ends
with, and nothing is read through it; and all blocks that it reads are in the region where all links
that it follows lead there. -/
structure LookedUp (m : Medium) (dir : Inode) (events : List IndexEvent) (r : Except Fault α) :
    Prop where
  outside : ∀ route fb, route ≠ .link → .followed route fb ∈ events → ¬ m.InIndexRegion fb →
    r = .error (dirFault fb (.outsideLeafRegion dir.ino.toNat)) ∧ .read fb ∉ events
  reads : (∀ fb, .read fb ∈ events → m.InIndexRegion fb) ↔
    ∀ fb, .followed .link fb ∈ events → m.InIndexRegion fb

theorem notes_lookup (name : Name) :
    Notes (m.notedLookup dir name) (m.lookupNode dir name) (m.LookedUp dir) := by
  rw [notedLookup, lookupNode]
  refine notes_bind notes_indexLeaf (fun fb _ => notes_search _ fb) ?_ ?_
  · intro events e hdown
    refine ⟨?_, fun _ fb hlink => ?_, fun _ => hdown.reads⟩
    · intro route fb _ hmem hout
      exact ⟨hdown.toConfined.error.outside route fb hmem hout,
        fun hread => hout (hdown.reads fb hread)⟩
    · exact absurd (hdown.along _ fb hlink) (by decide)
  · intro events fb later r hdown hchase
    have hin := hdown.lands fb rfl
    refine ⟨?_, fun hreads fb' hlink => ?_, fun hlinks fb' hread => ?_⟩
    · intro route fb' hroute hmem hout
      rcases List.mem_append.mp hmem with hmem | hmem
      · cases hdown.outside route fb' hmem hout
      · exact absurd (hchase.links route fb' hmem).1 hroute
    · rcases List.mem_append.mp hlink with hmem | hmem
      · exact absurd (hdown.along _ fb' hmem) (by decide)
      · exact hreads fb' (List.mem_append_right _ (hchase.links _ fb' hmem).2)
    · rcases List.mem_append.mp hread with hmem | hmem
      · exact hdown.reads fb' hmem
      · rcases hchase.reads fb' hmem with rfl | hlink
        · exact hin
        · exact hlinks fb' (List.mem_append_right _ hlink)

/-- **Index blocks are read in the index region, but for links that a look-up follows out of it.**
A step of a listing of a node directory reads every index block in the region, and ends with the
fault of a pointer outside of it when it comes to one. A look-up does the same on its way down to a
leaf; along the leaves it checks no link, so that everything it reads lies in the region exactly
where all links that it follows lead there. -/
theorem indexReads_confined (c : BlockCache) :
    (∀ cursor, ∃ events,
      ((m.notedNext dir cursor).run.run []).run c =
        ((((m.nextNode dir cursor).run.run c).1, events), ((m.nextNode dir cursor).run.run c).2) ∧
      (∀ fb, .read fb ∈ events → m.InIndexRegion fb) ∧
      ∀ route fb, .followed route fb ∈ events → ¬ m.InIndexRegion fb →
        ((m.nextNode dir cursor).run.run c).1 =
          .error (dirFault fb (.outsideLeafRegion dir.ino.toNat)) ∧ .read fb ∉ events) ∧
    ∀ name, ∃ events,
      ((m.notedLookup dir name).run.run []).run c =
        ((((m.lookupNode dir name).run.run c).1, events), ((m.lookupNode dir name).run.run c).2) ∧
      ((∀ fb, .read fb ∈ events → m.InIndexRegion fb) ↔
        ∀ fb, .followed .link fb ∈ events → m.InIndexRegion fb) ∧
      ∀ route fb, route ≠ .link → .followed route fb ∈ events → ¬ m.InIndexRegion fb →
        ((m.lookupNode dir name).run.run c).1 =
          .error (dirFault fb (.outsideLeafRegion dir.ino.toNat)) ∧ .read fb ∉ events := by
  constructor
  · intro cursor
    obtain ⟨events, hrun, hconfined⟩ := confines_next cursor c []
    refine ⟨events, hrun, hconfined.reads, fun route fb hmem hout => ?_⟩
    exact ⟨hconfined.outside route fb hmem hout, fun hread => hout (hconfined.reads fb hread)⟩
  · intro name
    obtain ⟨events, hrun, hlooked⟩ := notes_lookup name c []
    exact ⟨events, hrun, hlooked.reads, hlooked.outside⟩

/-! ### A link out of the region -/

/-- The small directory with a link from its first leaf to the second block of its data, which is
made out as a leaf. -/
def strayDir : Medium := { smallDir with
  device := ⟨⟨⟨smallData ++ smallIndex 0 nodeMagic.toNat 1 1 [0x62, 5] ++
    smallIndex 1 LeafKind.chained.magic.toNat 2 1 [0x61, 2, 0x62, 0] ++
    smallIndex 0 LeafKind.chained.magic.toNat 1 0 [0x62, 4]⟩⟩, 64⟩ }

def strayInode : Inode := { smallDirInode with
  extents := 3
  fork := (Extent.encode ⟨0, 0, 1, false⟩ ++ Extent.encode ⟨1, 3, 1, false⟩ ++
    Extent.encode ⟨4, 1, 2, false⟩).toByteArray }

/-- Not every index block is read in the index region: a look-up of `b` follows the link, and finds
`b` through a block of the data. -/
theorem lookup_reads_outside :
    ¬ ∀ (m : Medium) (dir : Inode) (name : Name) (c : BlockCache) (fb : Nat),
      m.dirFormat dir = .ok .node →
      .read fb ∈ (((m.notedLookup dir name).run.run []).run c).1.2 → m.InIndexRegion fb := by
  intro h
  have hformat : strayDir.dirFormat strayInode = .ok .node := by decide +kernel
  have hrun : (((strayDir.notedLookup strayInode [0x62]).run.run []).run
      (BlockCache.withCapacity 2)).1 = (.ok (some (12, .unknown)),
        [.followed .root 4, .read 4, .followed .child 5, .read 5, .read 5, .followed .link 1,
          .read 1]) := by
    decide +kernel
  have hread := h strayDir strayInode [0x62] (BlockCache.withCapacity 2) 1 hformat
  rw [hrun] at hread
  exact absurd (hread (by decide)).1 (by decide)

end Medium

end XfsVolume
