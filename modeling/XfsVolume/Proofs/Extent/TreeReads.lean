import XfsVolume.Proofs.Extent.CursorRuns
import XfsVolume.Proofs.Extent.Walks

/-!
# Blocks read by a walk over an extent tree

Nothing is asked of the tree here: its nodes may point at themselves, stand at wrong levels or be
linked in a circle. Each walk is run once more with a note of every node it reads, of every level
that it goes down from, and of every time it turns from a leaf to the one on its right (`TracedM`),
and `Traces` relates it to the walk itself: same answer, and a trace of a given kind.

Two measures end a walk (`EndsWithin`). On the way down it is the level, which a node has to match
and which is at most seven below the root; along the leaves it is the number of turns that are left.

A cursor that is asked again and again (`Drains`) ends too. Over a tree its calls together do what
the walk over all extents does at once, though a call that turns to a leaf also hands out from it.
-/

namespace XfsVolume

/-- What a walk over an extent tree does. -/
inductive TreeEvent
  /-- It reads the node at an address, expecting it at a level. -/
  | read (address level : Nat)
  /-- It goes down from a level to the next. -/
  | lowered (level : Nat)
  /-- It is at the end of a leaf and turns to the leaf at the address of its link. -/
  | turned (address : Nat)
  deriving DecidableEq

namespace TreeEvent

def isRead : TreeEvent → Bool
  | .read _ _ => true
  | _ => false

def isTurn : TreeEvent → Bool
  | .turned _ => true
  | _ => false

end TreeEvent

/-- A walk over an extent tree that notes what it does. -/
abbrev TracedM := ExceptT Fault (StateM (List TreeEvent))

variable {α β : Type}

def traced (e : TreeEvent) : TracedM Unit := modify fun events => events ++ [e]

/-- `x` gives `y`, and what it notes, behind what was noted before, is related to it by `P`. -/
def Traces (x : TracedM α) (y : Except Fault α) (P : List TreeEvent → Except Fault α → Prop) :
    Prop :=
  ∃ events, P events y ∧ ∀ before, x.run.run before = (y, before ++ events)

section Traces

variable {x : TracedM α} {y : Except Fault α} {P Q : List TreeEvent → Except Fault α → Prop}

theorem traces_liftM (h : P [] y) : Traces (liftM y) y P := by
  refine ⟨[], h, fun before => ?_⟩
  rw [List.append_nil]
  rfl

theorem traces_pure {a : α} (h : P [] (.ok a)) : Traces (pure a) (.ok a) P := traces_liftM h

theorem traces_throw {e : Fault} (h : P [] (.error e)) : Traces (throw e) (.error e) P :=
  traces_liftM h

theorem traces_traced {e : TreeEvent} (h : Traces x y fun events r => P (e :: events) r) :
    Traces (traced e >>= fun _ => x) y P := by
  obtain ⟨events, hP, hrun⟩ := h
  refine ⟨e :: events, hP, fun before => (hrun (before ++ [e])).trans ?_⟩
  rw [List.append_assoc]
  rfl

theorem Traces.mono (h : Traces x y P) (himp : ∀ events r, P events r → Q events r) :
    Traces x y Q := by
  obtain ⟨events, hP, hrun⟩ := h
  exact ⟨events, himp _ _ hP, hrun⟩

theorem Traces.and (h : Traces x y P) (h' : Traces x y Q) :
    Traces x y fun events r => P events r ∧ Q events r := by
  obtain ⟨events, hP, hrun⟩ := h
  obtain ⟨events', hQ, hrun'⟩ := h'
  obtain rfl : events' = events := (Prod.mk.inj ((hrun' []).symm.trans (hrun []))).2
  exact ⟨events', ⟨hP, hQ⟩, hrun⟩

theorem traces_bind {f : α → TracedM β} {g : α → Except Fault β}
    {R : List TreeEvent → Except Fault β → Prop} (hx : Traces x y P)
    (herror : ∀ events e, y = .error e → P events (.error e) → R events (.error e))
    (hok : ∀ events a, y = .ok a → P events (.ok a) →
      Traces (f a) (g a) fun later r => R (events ++ later) r) :
    Traces (x >>= f) (y >>= g) R := by
  obtain ⟨events, hP, hrun⟩ := hx
  cases y with
  | error e =>
    refine ⟨events, herror events e rfl hP, fun before => ?_⟩
    rw [run_bind, hrun]
    rfl
  | ok a =>
    obtain ⟨later, hR, hlater⟩ := hok events a rfl hP
    refine ⟨events ++ later, hR, fun before => ?_⟩
    rw [run_bind, hrun, ← List.append_assoc]
    exact hlater _

theorem traces_liftM_bind {f : α → TracedM β} {g : α → Except Fault β}
    {R : List TreeEvent → Except Fault β → Prop} (herror : ∀ e, y = .error e → R [] (.error e))
    (hok : ∀ a, y = .ok a → Traces (f a) (g a) R) : Traces (liftM y >>= f) (y >>= g) R := by
  refine traces_bind (P := fun events _ => events = []) (traces_liftM rfl) ?_ ?_
  · rintro _ e he rfl
    exact herror e he
  · rintro _ a ha rfl
    exact hok a ha

theorem traces_map {f : α → β} {R : List TreeEvent → Except Fault β → Prop}
    (h : Traces x y fun events r => R events (f <$> r)) :
    Traces (x >>= fun a => pure (f a)) (y >>= fun a => pure (f a)) R := by
  refine traces_bind h (fun _ _ _ h => h) fun events a _ h => traces_pure ?_
  rw [List.append_nil]
  exact h

theorem traces_ite {p : Prop} [Decidable p] {x' : TracedM α} {y' : Except Fault α}
    (h : p → Traces x y P) (h' : ¬ p → Traces x' y' P) :
    Traces (if p then x else x') (if p then y else y') P := by
  by_cases hp : p
  · rw [if_pos hp, if_pos hp]
    exact h hp
  · rw [if_neg hp, if_neg hp]
    exact h' hp

theorem traces_guard {p : Prop} [Decidable p] {e : Fault} {f : Unit → TracedM α}
    {g : Unit → Except Fault α} (herror : P [] (.error e))
    (h : ¬ p → Traces (f ()) (g ()) P) :
    Traces (if p then (throw e : TracedM Unit) >>= f else f ())
      (if p then (throw e : Except Fault Unit) >>= g else g ()) P :=
  traces_ite (fun _ => traces_throw herror) h

end Traces

namespace Medium

/-! ## The walks with their traces -/

def tracedNode (m : Medium) (address level : Nat) : TracedM (Nat × TreeNode) := do
  traced (.read address level)
  m.readTreeNode address level

def tracedDescent (m : Medium) (pick : List Nat → Nat) :
    (level address : Nat) → TracedM TreeLeaf
  | level, address => do
    let (block, node) ← m.tracedNode address level
    match node.body with
    | .leaf extents => return { address, block, extents, right := node.right }
    | .interior links =>
      traced (.lowered level)
      match level with
      | level + 1 =>
        match links[pick (links.map TreeLink.key)]? with
        | some link => m.tracedDescent pick level link.address
        | none => throw (.corruptTree block .nodeChild)
      | 0 => throw (.corruptTree block .siblingNotLeaf)

def tracedEntry (m : Medium) (inode : Inode) (pick : List Nat → Nat) : TracedM TreeLeaf := do
  let root ← inode.treeRoot
  traced (.lowered root.level)
  match root.links[pick (root.links.map TreeLink.key)]? with
  | some link => m.tracedDescent pick (root.level - 1) link.address
  | none => throw (Inode.treeFault .rootChild)

def tracedRight (m : Medium) (leaf : TreeLeaf) : TracedM TreeLeaf := do
  let (block, node) ← m.tracedNode leaf.right 0
  if node.left ≠ leaf.address then
    throw (.corruptTree block (.leftLink node.left leaf.address))
  match node.body with
  | .leaf extents => return { address := leaf.right, block, extents, right := node.right }
  | .interior _ => throw (.corruptTree block .siblingNotLeaf)

def tracedFindFrom (m : Medium) (inode : Inode) (logical : Nat) :
    (links : Nat) → Option Nat → TreeLeaf → TracedM Extent
  | links, prevEnd, leaf => do
    match ← scanExtents leaf.block logical prevEnd leaf.extents with
    | .found e => return e
    | .passed => throw (.extentNotFound logical)
    | .ended prevEnd =>
      if leaf.right = nullAddress then throw (.extentNotFound logical)
      else
        traced (.turned leaf.right)
        match links with
        | 0 => throw (chainFault inode leaf)
        | links + 1 => m.tracedFindFrom inode logical links prevEnd (← m.tracedRight leaf)

def tracedLastFrom (m : Medium) (inode : Inode) :
    (links : Nat) → TreeLeaf → TracedM TreeLeaf
  | links, leaf =>
    if leaf.right = nullAddress then pure leaf
    else do
      traced (.turned leaf.right)
      match links with
      | 0 => throw (chainFault inode leaf)
      | links + 1 => m.tracedLastFrom inode links (← m.tracedRight leaf)

def tracedExtentsFrom (m : Medium) (inode : Inode) :
    (links : Nat) → Option Nat → TreeLeaf → TracedM (List Extent)
  | links, prevEnd, leaf => do
    let prevEnd ← checkExtents leaf.block prevEnd leaf.extents
    if leaf.right = nullAddress then return leaf.extents
    traced (.turned leaf.right)
    match links with
    | 0 => throw (chainFault inode leaf)
    | links + 1 =>
      return leaf.extents ++
        (← m.tracedExtentsFrom inode links prevEnd (← m.tracedRight leaf))

def tracedFind (m : Medium) (inode : Inode) (logical : Nat) : TracedM Extent := do
  match inode.format with
  | .extents =>
    match ← scanExtents 0 logical none (← inode.inlineExtents) with
    | .found e => return e
    | .passed | .ended _ => throw (.extentNotFound logical)
  | .btree =>
    let leaf ← m.tracedEntry inode (childIndex · logical)
    m.tracedFindFrom inode logical (m.maxLinks inode) none leaf
  | .dev | .inline | .uuid => throw inode.unmappedFault

def tracedLast (m : Medium) (inode : Inode) : TracedM (Option Extent) := do
  match inode.format with
  | .extents => return (← inode.inlineExtents).getLast?
  | .btree =>
    let leaf ← m.tracedEntry inode fun keys => keys.length - 1
    return (← m.tracedLastFrom inode (m.maxLinks inode) leaf).extents.getLast?
  | .dev | .inline | .uuid => throw inode.unmappedFault

def tracedAll (m : Medium) (inode : Inode) : TracedM (List Extent) := do
  match inode.format with
  | .extents =>
    let extents ← inode.inlineExtents
    let _ ← checkExtents 0 none extents
    return extents
  | .btree =>
    let leaf ← m.tracedEntry inode fun _ => 0
    m.tracedExtentsFrom inode (m.maxLinks inode - 1) none leaf
  | .dev | .inline | .uuid => throw inode.unmappedFault

/-! ## What the walks note -/

variable {m : Medium} {inode : Inode}

/-- What a walk does on its way down: it reads some nodes, and its level never falls below zero. -/
structure Descends (reads : Nat) (events : List TreeEvent) : Prop where
  reads_le : events.countP TreeEvent.isRead ≤ reads
  lowered : ∀ level, .lowered level ∈ events → 0 < level
  straight : events.countP TreeEvent.isTurn = 0

/-- What a walk does that ends: it reads at most so many nodes, its level never falls below zero,
and where it would follow more links than it may, the fault of a chain that does not end is its
answer. -/
structure EndsWithin (inode : Inode) (reads links : Nat) (events : List TreeEvent)
    (r : Except Fault α) : Prop where
  reads_le : events.countP TreeEvent.isRead ≤ reads
  lowered : ∀ level, .lowered level ∈ events → 0 < level
  stopped : links < events.countP TreeEvent.isTurn → ∃ leaf, r = .error (chainFault inode leaf)

variable {reads links : Nat} {events later : List TreeEvent} {r : Except Fault α}

theorem descends_nil : Descends reads [] where
  reads_le := Nat.zero_le _
  lowered := by simp
  straight := rfl

theorem Descends.read (h : Descends reads events) (address level : Nat) :
    Descends (reads + 1) (.read address level :: events) where
  reads_le := by simpa [List.countP_cons, TreeEvent.isRead] using h.reads_le
  lowered := by simpa using h.lowered
  straight := by simpa [List.countP_cons, TreeEvent.isTurn] using h.straight

theorem Descends.lower (h : Descends reads events) {level : Nat} (hlevel : 0 < level) :
    Descends reads (.lowered level :: events) where
  reads_le := by simpa [List.countP_cons, TreeEvent.isRead] using h.reads_le
  lowered := by simpa [hlevel] using h.lowered
  straight := by simpa [List.countP_cons, TreeEvent.isTurn] using h.straight

theorem Descends.mono (h : Descends reads events) {more : Nat} (hle : reads ≤ more) :
    Descends more events :=
  { h with reads_le := Nat.le_trans h.reads_le hle }

theorem endsWithin_nil (r : Except Fault α) : EndsWithin inode reads links [] r where
  reads_le := Nat.zero_le _
  lowered := by simp
  stopped := by simp

/-- A walk down and what follows it. -/
theorem Descends.append {down : Nat} (h : Descends down events)
    (h' : EndsWithin inode reads links later r) :
    EndsWithin inode (down + reads) links (events ++ later) r where
  reads_le := by
    rw [List.countP_append]
    exact Nat.add_le_add h.reads_le h'.reads_le
  lowered level hmem := (List.mem_append.mp hmem).elim (h.lowered level) (h'.lowered level)
  stopped := by
    rw [List.countP_append, h.straight, Nat.zero_add]
    exact h'.stopped

theorem EndsWithin.mono (h : EndsWithin inode reads links events r) {more : Nat}
    (hle : reads ≤ more) : EndsWithin inode more links events r :=
  { h with reads_le := Nat.le_trans h.reads_le hle }

theorem EndsWithin.map (h : EndsWithin inode reads links events r) (f : α → β) :
    EndsWithin inode reads links events (f <$> r) where
  reads_le := h.reads_le
  lowered := h.lowered
  stopped hlinks := by
    obtain ⟨leaf, rfl⟩ := h.stopped hlinks
    exact ⟨leaf, rfl⟩

theorem EndsWithin.turn (h : EndsWithin inode reads links events r) (address : Nat) :
    EndsWithin inode (reads + 1) (links + 1) (.turned address :: .read address 0 :: events) r where
  reads_le := by simpa [List.countP_cons, TreeEvent.isRead] using h.reads_le
  lowered := by simpa using h.lowered
  stopped := by simpa [List.countP_cons, TreeEvent.isTurn] using h.stopped

/-! ## One node -/

theorem traces_node (address level : Nat) :
    Traces (m.tracedNode address level) (m.readTreeNode address level)
      fun events _ => events = [.read address level] :=
  traces_traced (traces_liftM rfl)

theorem traces_right (leaf : TreeLeaf) :
    Traces (m.tracedRight leaf) (m.rightLeaf leaf)
      fun events _ => events = [.read leaf.right 0] := by
  rw [tracedRight, rightLeaf]
  refine traces_bind (traces_node _ _) (fun _ _ _ h => h) ?_
  rintro _ ⟨block, node⟩ - rfl
  refine traces_guard rfl fun _ => ?_
  cases node.body with
  | leaf extents => exact traces_pure rfl
  | interior links => exact traces_throw rfl

/-- A node above the leaves that was read is not at level zero: the decoder takes one for a leaf
there, and the level is the one that was asked for. -/
theorem level_pos_of_readTreeNode {address level block : Nat} {node : TreeNode}
    {links : List TreeLink} (h : m.readTreeNode address level = .ok (block, node))
    (hbody : node.body = .interior links) : 0 < level := by
  obtain ⟨rfl, bytes, hdecoded⟩ := decoded_of_readTreeNode h
  exact TreeNode.level_pos_of_decode hdecoded hbody

/-! ## Down to a leaf -/

theorem traces_descent {pick : List Nat → Nat} : ∀ level address : Nat,
    Traces (m.tracedDescent pick level address) (m.descendTree pick level address)
      fun events _ => Descends (level + 1) events
  | level, address => by
      rw [tracedDescent.eq_def, descendTree.eq_def]
      refine traces_bind (traces_node _ _) ?_ ?_
      · rintro _ _ - rfl
        exact descends_nil.read _ _
      · rintro _ ⟨block, node⟩ hread rfl
        dsimp only
        cases hbody : node.body with
        | leaf extents => exact traces_pure (descends_nil.read _ _)
        | interior links =>
          have hpos := level_pos_of_readTreeNode hread hbody
          refine traces_traced ?_
          cases level with
          | zero => exact absurd hpos (Nat.lt_irrefl 0)
          | succ level =>
            dsimp only
            cases links[pick (links.map TreeLink.key)]? with
            | none => exact traces_throw ((descends_nil.lower hpos).read _ _)
            | some link =>
              exact (traces_descent level link.address).mono fun _ _ h => (h.lower hpos).read _ _

theorem level_of_treeRoot {root : TreeRoot} (h : inode.treeRoot = .ok root) :
    0 < root.level ∧ root.level < maxTreeDepth := by
  simp only [Inode.treeRoot, bind_eq_ok, mapError_eq_ok, throw_bind, ite_error_eq_ok, pure_eq_ok,
    not_le] at h
  obtain ⟨decoded, hdecoded, hdepth, heq⟩ := h
  cases heq
  exact ⟨TreeRoot.level_pos_of_decode hdecoded, hdepth⟩

theorem traces_entry (m : Medium) (inode : Inode) (pick : List Nat → Nat) :
    Traces (m.tracedEntry inode pick) (m.entryLeaf inode pick)
      fun events _ => Descends 7 events := by
  rw [tracedEntry, entryLeaf]
  refine traces_liftM_bind (fun _ _ => descends_nil) fun root hroot => ?_
  obtain ⟨hpos, hdepth⟩ := level_of_treeRoot hroot
  refine traces_traced ?_
  cases root.links[pick (root.links.map TreeLink.key)]? with
  | none => exact traces_throw (descends_nil.lower hpos)
  | some link =>
    have hdown : root.level - 1 + 1 ≤ 7 := by
      rw [maxTreeDepth] at hdepth
      omega
    exact (traces_descent _ _).mono fun _ _ h => (h.mono hdown).lower hpos

/-! ## Along the leaves -/

theorem traces_stop (leaf : TreeLeaf) (address : Nat) :
    Traces (traced (.turned address) >>= fun _ => (throw (chainFault inode leaf) : TracedM α))
      (.error (chainFault inode leaf)) (EndsWithin inode 0 0) :=
  traces_traced <| traces_throw
    { reads_le := Nat.le_refl 0
      lowered := by simp
      stopped := fun _ => ⟨leaf, rfl⟩ }

theorem traces_turn {f : TreeLeaf → TracedM α} {g : TreeLeaf → Except Fault α} (leaf : TreeLeaf)
    (h : ∀ next, Traces (f next) (g next) (EndsWithin inode links links)) :
    Traces (traced (.turned leaf.right) >>= fun _ => m.tracedRight leaf >>= f)
      (m.rightLeaf leaf >>= g) (EndsWithin inode (links + 1) (links + 1)) := by
  refine traces_traced (traces_bind (traces_right leaf) ?_ ?_)
  · rintro _ e - rfl
    exact (endsWithin_nil _).turn _
  · rintro _ next - rfl
    exact (h next).mono fun _ _ h => h.turn _

theorem traces_findFrom {logical : Nat} : ∀ (links : Nat) (prevEnd : Option Nat) (leaf : TreeLeaf),
    Traces (m.tracedFindFrom inode logical links prevEnd leaf)
      (m.findFrom inode logical links prevEnd leaf) (EndsWithin inode links links)
  | links, prevEnd, leaf => by
      rw [tracedFindFrom.eq_def, findFrom.eq_def]
      refine traces_liftM_bind (fun _ _ => endsWithin_nil _) fun scan _ => ?_
      cases scan with
      | found e => exact traces_pure (endsWithin_nil _)
      | passed => exact traces_throw (endsWithin_nil _)
      | ended last =>
        refine traces_ite (fun _ => traces_throw (endsWithin_nil _)) fun _ => ?_
        cases links with
        | zero => exact traces_stop leaf _
        | succ links => exact traces_turn leaf fun next => traces_findFrom links last next

theorem traces_lastFrom : ∀ (links : Nat) (leaf : TreeLeaf),
    Traces (m.tracedLastFrom inode links leaf) (m.lastLeafFrom inode links leaf)
      (EndsWithin inode links links)
  | links, leaf => by
      rw [tracedLastFrom.eq_def, lastLeafFrom.eq_def]
      refine traces_ite (fun _ => traces_pure (endsWithin_nil _)) fun _ => ?_
      cases links with
      | zero => exact traces_stop leaf _
      | succ links => exact traces_turn leaf fun next => traces_lastFrom links next

theorem traces_extentsFrom : ∀ (links : Nat) (prevEnd : Option Nat) (leaf : TreeLeaf),
    Traces (m.tracedExtentsFrom inode links prevEnd leaf)
      (m.extentsFrom inode links prevEnd leaf) (EndsWithin inode links links)
  | links, prevEnd, leaf => by
      rw [tracedExtentsFrom.eq_def, extentsFrom.eq_def]
      refine traces_liftM_bind (fun _ _ => endsWithin_nil _) fun last _ => ?_
      refine traces_ite (fun _ => traces_pure (endsWithin_nil _)) fun _ => ?_
      cases links with
      | zero => exact traces_stop leaf _
      | succ links =>
        refine traces_turn leaf fun next => traces_map ?_
        exact (traces_extentsFrom links last next).mono fun _ _ h => h.map _

/-! ## Whole walks -/

theorem traces_walk {pick : List Nat → Nat} {f : TreeLeaf → TracedM α}
    {g : TreeLeaf → Except Fault α}
    (h : ∀ leaf, Traces (f leaf) (g leaf) (EndsWithin inode reads links)) :
    Traces (m.tracedEntry inode pick >>= f) (m.entryLeaf inode pick >>= g)
      (EndsWithin inode (7 + reads) links) := by
  refine traces_bind (m.traces_entry inode pick) ?_ ?_
  · intro events e _ hdown
    have hstop : EndsWithin inode reads links [] (.error e : Except Fault α) := endsWithin_nil _
    simpa using hdown.append hstop
  · intro events leaf _ hdown
    exact (h leaf).mono fun _ _ hrest => hdown.append hrest

theorem traces_find (logical : Nat) :
    Traces (m.tracedFind inode logical) (m.findExtent inode logical)
      (EndsWithin inode (7 + m.maxLinks inode) (m.maxLinks inode)) := by
  rw [tracedFind, findExtent]
  cases inode.format with
  | extents =>
    refine traces_liftM_bind (fun _ _ => endsWithin_nil _) fun extents _ => ?_
    refine traces_liftM_bind (fun _ _ => endsWithin_nil _) fun scan _ => ?_
    cases scan with
    | found e => exact traces_pure (endsWithin_nil _)
    | passed => exact traces_throw (endsWithin_nil _)
    | ended last => exact traces_throw (endsWithin_nil _)
  | btree => exact traces_walk fun leaf => traces_findFrom _ _ _
  | dev | inline | uuid => exact traces_throw (endsWithin_nil _)

theorem traces_last :
    Traces (m.tracedLast inode) (m.lastExtent? inode)
      (EndsWithin inode (7 + m.maxLinks inode) (m.maxLinks inode)) := by
  rw [tracedLast, lastExtent?]
  cases inode.format with
  | extents =>
    exact traces_liftM_bind (fun _ _ => endsWithin_nil _) fun _ _ => traces_pure (endsWithin_nil _)
  | btree =>
    refine traces_walk fun leaf => traces_map ?_
    exact (traces_lastFrom _ leaf).mono fun _ _ h => h.map _
  | dev | inline | uuid => exact traces_throw (endsWithin_nil _)

theorem traces_all :
    Traces (m.tracedAll inode) (m.allExtents inode)
      (EndsWithin inode (7 + (m.maxLinks inode - 1)) (m.maxLinks inode - 1)) := by
  rw [tracedAll, allExtents]
  cases inode.format with
  | extents =>
    refine traces_liftM_bind (fun _ _ => endsWithin_nil _) fun extents _ => ?_
    exact traces_liftM_bind (fun _ _ => endsWithin_nil _) fun _ _ => traces_pure (endsWithin_nil _)
  | btree => exact traces_walk fun leaf => traces_extentsFrom _ _ _
  | dev | inline | uuid => exact traces_throw (endsWithin_nil _)

end Medium

/-! ## Calls of a cursor -/

namespace ExtentCursor

/-- What a call does that enters a leaf. -/
def enter (c : ExtentCursor) (leaf : TreeLeaf) : Except Fault (Option Extent × ExtentCursor) :=
  match leaf.extents[0]? with
  | some e => c.emit leaf.block e (.leaf leaf 1)
  | none => return (none, c.finish)

def tracedInLeaf (c : ExtentCursor) (m : Medium) (inode : Inode) (leaf : TreeLeaf) (index : Nat) :
    TracedM (Option Extent × ExtentCursor) := do
  match leaf.extents[index]? with
  | some e => c.emit leaf.block e (.leaf leaf (index + 1))
  | none =>
    let c := { c with leaves := c.leaves + 1 }
    if leaf.right = nullAddress then return (none, c.finish)
    traced (.turned leaf.right)
    if c.leaves > m.maxLinks inode then throw (Medium.chainFault inode leaf)
    c.enter (← m.tracedRight leaf)

def tracedAdvance (c : ExtentCursor) (m : Medium) (inode : Inode) :
    TracedM (Option Extent × ExtentCursor) := do
  match c.place with
  | .done => return (none, c)
  | .start =>
    match inode.format with
    | .extents => c.nextInline inode 0
    | .btree =>
      let leaf ← m.tracedEntry inode fun _ => 0
      { c with leaves := 1 }.tracedInLeaf m inode leaf 0
    | .dev | .inline | .uuid => throw inode.unmappedFault
  | .inline index => c.nextInline inode index
  | .leaf leaf index => c.tracedInLeaf m inode leaf index

/-- A call that does `events` on the tree and ends with `r`. -/
def Calls (m : Medium) (inode : Inode) (c : ExtentCursor) (events : List TreeEvent)
    (r : Except Fault (Option Extent × ExtentCursor)) : Prop :=
  Traces (c.tracedAdvance m inode) (c.advance m inode) fun done answer =>
    done = events ∧ answer = r

/-- What comes out of a cursor that is asked again and again, with one medium and one inode, until
it says that there is no more or meets a fault; and what all the calls do on the tree. -/
inductive Drains (m : Medium) (inode : Inode) :
    ExtentCursor → List TreeEvent → Except Fault (List Extent) → Prop
  | ended {c c' : ExtentCursor} {events : List TreeEvent}
      (last : Calls m inode c events (.ok (none, c'))) : Drains m inode c events (.ok [])
  | failed {c : ExtentCursor} {events : List TreeEvent} {fault : Fault}
      (last : Calls m inode c events (.error fault)) : Drains m inode c events (.error fault)
  | more {c c' : ExtentCursor} {e : Extent} {events later : List TreeEvent}
      {rest : Except Fault (List Extent)} (found : Calls m inode c events (.ok (some e, c')))
      (drained : Drains m inode c' later rest) :
      Drains m inode c (events ++ later) ((e :: ·) <$> rest)

variable {m : Medium} {inode : Inode} {c c' : ExtentCursor} {events later : List TreeEvent}

/-- A call does one thing. -/
theorem Calls.unique {r r' : Except Fault (Option Extent × ExtentCursor)}
    (h : Calls m inode c events r) (h' : Calls m inode c later r') : later = events ∧ r' = r := by
  obtain ⟨_, ⟨rfl, rfl⟩, hrun⟩ := h
  obtain ⟨_, ⟨rfl, rfl⟩, hrun'⟩ := h'
  obtain ⟨-, heq⟩ := Prod.mk.inj ((hrun' []).symm.trans (hrun []))
  exact ⟨heq, rfl⟩

/-- Every call of the cursor does `events` first and then what a call of `c'` does. -/
def LeadsTo (m : Medium) (inode : Inode) (c : ExtentCursor) (events : List TreeEvent)
    (c' : ExtentCursor) : Prop :=
  ∀ later r, Calls m inode c' later r → Calls m inode c (events ++ later) r

theorem LeadsTo.drains (h : LeadsTo m inode c events c') {r : Except Fault (List Extent)}
    (hdrains : Drains m inode c' later r) : Drains m inode c (events ++ later) r := by
  cases hdrains with
  | ended last => exact .ended (h _ _ last)
  | failed last => exact .failed (h _ _ last)
  | more found drained =>
    rw [← List.append_assoc]
    exact .more (h _ _ found) drained

/-! ### In a leaf -/

variable {leaf next : TreeLeaf} {index leaves : Nat} {prevEnd last : Option Nat}

theorem calls_inLeaf {e : Extent} (h : leaf.extents[index]? = some e) :
    Calls m inode ⟨.leaf leaf index, prevEnd, leaves⟩ []
      (e.checkAfter leaf.block prevEnd >>= fun _ =>
        .ok (some e, ⟨.leaf leaf (index + 1), some e.stop, leaves⟩)) := by
  show Traces (tracedInLeaf _ m inode leaf index) (nextInLeaf _ m inode leaf index) _
  rw [tracedInLeaf, nextInLeaf, h]
  exact traces_liftM ⟨rfl, rfl⟩

theorem of_drop_eq_cons {e : Extent} {es : List Extent} (h : leaf.extents.drop index = e :: es) :
    leaf.extents[index]? = some e ∧ leaf.extents.drop (index + 1) = es := by
  constructor
  · rw [← List.head?_drop, h, List.head?_cons]
  · rw [← List.tail_drop, h, List.tail_cons]

theorem drains_inLeaf_error {f : Fault} : ∀ {es : List Extent} {index : Nat} {prevEnd : Option Nat},
    leaf.extents.drop index = es → checkExtents leaf.block prevEnd es = .error f →
      Drains m inode ⟨.leaf leaf index, prevEnd, leaves⟩ [] (.error f)
  | [], _, _, _, h => by cases h
  | e :: es, index, prevEnd, hdrop, h => by
      obtain ⟨hhere, hrest⟩ := of_drop_eq_cons hdrop
      have hcalls : Calls m inode ⟨.leaf leaf index, prevEnd, leaves⟩ [] _ := calls_inLeaf hhere
      rw [checkExtents] at h
      cases hcheck : e.checkAfter leaf.block prevEnd with
      | error f' =>
        rw [hcheck] at h hcalls
        cases h
        exact .failed hcalls
      | ok u =>
        rw [hcheck] at h hcalls
        exact .more hcalls (drains_inLeaf_error hrest h)

theorem drains_inLeaf_ok {r : Except Fault (List Extent)} :
    ∀ {es : List Extent} {index : Nat} {prevEnd : Option Nat}, leaf.extents.drop index = es →
      checkExtents leaf.block prevEnd es = .ok last →
      Drains m inode ⟨.leaf leaf (index + es.length), last, leaves⟩ events r →
        Drains m inode ⟨.leaf leaf index, prevEnd, leaves⟩ events ((es ++ ·) <$> r)
  | [], index, prevEnd, _, h, hend => by
      cases h
      simpa using hend
  | e :: es, index, prevEnd, hdrop, h, hend => by
      obtain ⟨hhere, hrest⟩ := of_drop_eq_cons hdrop
      have hcalls : Calls m inode ⟨.leaf leaf index, prevEnd, leaves⟩ [] _ := calls_inLeaf hhere
      rw [checkExtents, bind_eq_ok] at h
      obtain ⟨u, hcheck, h⟩ := h
      rw [hcheck] at hcalls
      rw [List.length_cons, Nat.add_comm es.length 1, ← Nat.add_assoc] at hend
      have hmore := Drains.more hcalls (drains_inLeaf_ok hrest h hend)
      simpa using hmore

/-! ### At the end of a leaf -/

theorem calls_end (hend : leaf.extents[index]? = none) (hright : leaf.right = nullAddress) :
    Calls m inode ⟨.leaf leaf index, prevEnd, leaves⟩ []
      (.ok (none, ⟨.done, prevEnd, leaves + 1⟩)) := by
  show Traces (tracedInLeaf _ m inode leaf index) (nextInLeaf _ m inode leaf index) _
  rw [tracedInLeaf, nextInLeaf, hend]
  dsimp only
  rw [if_pos hright, if_pos hright]
  exact traces_pure ⟨rfl, rfl⟩

theorem calls_stop (hend : leaf.extents[index]? = none) (hright : leaf.right ≠ nullAddress)
    (hlinks : m.maxLinks inode < leaves + 1) :
    Calls m inode ⟨.leaf leaf index, prevEnd, leaves⟩ [.turned leaf.right]
      (.error (Medium.chainFault inode leaf)) := by
  show Traces (tracedInLeaf _ m inode leaf index) (nextInLeaf _ m inode leaf index) _
  rw [tracedInLeaf, nextInLeaf, hend]
  dsimp only
  rw [if_neg hright, if_neg hright, if_pos hlinks, if_pos hlinks]
  exact traces_traced (traces_throw ⟨rfl, rfl⟩)

theorem calls_turn (hend : leaf.extents[index]? = none) (hright : leaf.right ≠ nullAddress)
    (hlinks : ¬ m.maxLinks inode < leaves + 1) :
    Calls m inode ⟨.leaf leaf index, prevEnd, leaves⟩ [.turned leaf.right, .read leaf.right 0]
      (m.rightLeaf leaf >>= enter ⟨.leaf leaf index, prevEnd, leaves + 1⟩) := by
  show Traces (tracedInLeaf _ m inode leaf index) (nextInLeaf _ m inode leaf index) _
  rw [tracedInLeaf, nextInLeaf, hend]
  dsimp only
  rw [if_neg hright, if_neg hright, if_neg hlinks, if_neg hlinks]
  refine traces_traced (traces_bind (Medium.traces_right leaf) ?_ ?_)
  · rintro _ f hf rfl
    rw [hf]
    exact ⟨rfl, rfl⟩
  · rintro _ next hnext rfl
    rw [hnext]
    exact traces_liftM ⟨rfl, rfl⟩

theorem leadsTo_right (hend : leaf.extents[index]? = none) (hright : leaf.right ≠ nullAddress)
    (hlinks : ¬ m.maxLinks inode < leaves + 1) (hnext : m.rightLeaf leaf = .ok next) :
    LeadsTo m inode ⟨.leaf leaf index, prevEnd, leaves⟩ [.turned leaf.right, .read leaf.right 0]
      ⟨.leaf next 0, prevEnd, leaves + 1⟩ := by
  intro later r hcalls
  obtain ⟨e, es, hextents⟩ := List.exists_cons_of_ne_nil (Medium.extents_ne_nil_of_rightLeaf hnext)
  have hfirst : next.extents[0]? = some e := by rw [hextents, List.getElem?_cons_zero]
  obtain ⟨rfl, rfl⟩ := (calls_inLeaf hfirst).unique hcalls
  have hturn : Calls m inode ⟨.leaf leaf index, prevEnd, leaves⟩ _ _ :=
    calls_turn hend hright hlinks
  rw [hnext, ok_bind, enter, hfirst] at hturn
  exact hturn

/-! ### Over a whole tree -/

theorem drains_extentsFrom : ∀ (links leaves : Nat) (prevEnd : Option Nat) (leaf : TreeLeaf),
    m.maxLinks inode - leaves = links →
      Traces (m.tracedExtentsFrom inode links prevEnd leaf) (m.extentsFrom inode links prevEnd leaf)
        (Drains m inode ⟨.leaf leaf 0, prevEnd, leaves⟩)
  | links, leaves, prevEnd, leaf, hlinks => by
      rw [Medium.tracedExtentsFrom.eq_def, Medium.extentsFrom.eq_def]
      refine traces_liftM_bind (fun f hf => drains_inLeaf_error List.drop_zero hf) ?_
      intro last hlast
      have hend : leaf.extents[0 + leaf.extents.length]? = none := by simp
      refine traces_ite (fun hright => traces_pure ?_) fun hright => ?_
      · simpa using drains_inLeaf_ok List.drop_zero hlast (.ended (calls_end hend hright))
      · cases links with
        | zero =>
          exact traces_traced (traces_throw
            (drains_inLeaf_ok List.drop_zero hlast (.failed (calls_stop hend hright (by omega)))))
        | succ links =>
          have hgoes : ¬ m.maxLinks inode < leaves + 1 := by omega
          refine traces_traced (traces_bind (Medium.traces_right leaf) ?_ ?_)
          · rintro _ f hf rfl
            have hturn : Calls m inode ⟨.leaf leaf _, last, leaves⟩ _ _ :=
              calls_turn hend hright hgoes
            rw [hf] at hturn
            exact drains_inLeaf_ok List.drop_zero hlast (.failed hturn)
          · rintro _ next hnext rfl
            have hrest := drains_extentsFrom links (leaves + 1) last next (by omega)
            refine traces_map (hrest.mono fun _ _ hrest => ?_)
            exact drains_inLeaf_ok List.drop_zero hlast
              ((leadsTo_right hend hright hgoes hnext).drains hrest)

theorem calls_start (hformat : inode.format = .btree)
    {r : Except Fault (Option Extent × ExtentCursor)}
    (h : Traces
      (do tracedInLeaf ⟨.start, none, 1⟩ m inode (← m.tracedEntry inode fun _ => 0) 0)
      (do nextInLeaf ⟨.start, none, 1⟩ m inode (← m.entryLeaf inode fun _ => 0) 0)
      fun done answer => done = events ∧ answer = r) : Calls m inode atStart events r := by
  rw [Calls, tracedAdvance, advance, atStart]
  dsimp only
  rw [hformat]
  exact h

theorem drains_allExtents (hformat : inode.format = .btree) :
    Traces (m.tracedAll inode) (m.allExtents inode) (Drains m inode atStart) := by
  obtain ⟨down, -, hrun⟩ := m.traces_entry inode fun _ => 0
  have hentry : Traces (m.tracedEntry inode fun _ => 0) (m.entryLeaf inode fun _ => 0)
      fun events _ => events = down := ⟨down, rfl, hrun⟩
  rw [Medium.tracedAll, Medium.allExtents, hformat]
  -- both go down the same way, so that the one ends in a leaf exactly where the other does
  refine traces_bind hentry ?_ ?_
  · rintro _ f hf rfl
    refine .failed (calls_start hformat (traces_bind hentry ?_ ?_))
    · rintro _ f' hf' rfl
      cases hf.symm.trans hf'
      exact ⟨rfl, rfl⟩
    · rintro _ leaf hleaf rfl
      cases hf.symm.trans hleaf
  · rintro events leaf hleaf rfl
    have hleads : LeadsTo m inode atStart events ⟨.leaf leaf 0, none, 1⟩ := by
      intro later r hcalls
      refine calls_start hformat (traces_bind hentry ?_ ?_)
      · rintro _ f hf rfl
        cases hf.symm.trans hleaf
      · rintro _ leaf' hleaf' rfl
        cases hleaf'.symm.trans hleaf
        have hinLeaf : Traces (tracedInLeaf ⟨.start, none, 1⟩ m inode leaf 0)
            (nextInLeaf ⟨.start, none, 1⟩ m inode leaf 0) _ := hcalls
        exact hinLeaf.mono fun _ _ h => ⟨congrArg _ h.1, h.2⟩
    exact (drains_extentsFrom _ 1 none leaf rfl).mono fun _ _ h => hleads.drains h

theorem next_of_nextInline {e : Extent} (h : c.nextInline inode index = .ok (some e, c')) :
    index < inode.extents.toNat ∧ c'.place = .inline (index + 1) := by
  rw [nextInline] at h
  split at h
  · cases h
  · rename_i hindex
    simp only [bind_eq_ok, emit, pure_eq_ok] at h
    obtain ⟨_, -, found, -, _, -, heq⟩ := h
    cases heq
    exact ⟨Nat.lt_of_not_le hindex, rfl⟩

theorem drains_inline : ∀ (left index : Nat) {c : ExtentCursor},
    inode.extents.toNat - index = left → Calls m inode c [] (c.nextInline inode index) →
      ∃ r, Drains m inode c [] r
  | left, index, c, hleft, hcalls => by
      rcases hnext : c.nextInline inode index with f | ⟨- | e, c'⟩
      · rw [hnext] at hcalls
        exact ⟨_, .failed hcalls⟩
      · rw [hnext] at hcalls
        exact ⟨_, .ended hcalls⟩
      · rw [hnext] at hcalls
        obtain ⟨hindex, hplace⟩ := next_of_nextInline hnext
        cases left with
        | zero => omega
        | succ left =>
          have hcalls' : Calls m inode c' [] (c'.nextInline inode (index + 1)) := by
            rw [Calls, tracedAdvance, advance, hplace]
            exact traces_liftM ⟨rfl, rfl⟩
          obtain ⟨r, hrest⟩ := drains_inline left (index + 1) (by omega) hcalls'
          exact ⟨_, .more hcalls hrest⟩

theorem drains_of_ne (hformat : inode.format ≠ .btree) : ∃ r, Drains m inode atStart [] r := by
  have hcalls : Calls m inode atStart [] (atStart.advance m inode) := by
    rw [Calls, tracedAdvance, advance, atStart]
    dsimp only
    cases hfork : inode.format with
    | extents => exact traces_liftM ⟨rfl, rfl⟩
    | btree => exact absurd hfork hformat
    | dev | inline | uuid => exact traces_throw ⟨rfl, rfl⟩
  rw [advance, atStart] at hcalls
  dsimp only at hcalls
  cases hfork : inode.format with
  | extents =>
    rw [hfork] at hcalls
    exact drains_inline _ 0 rfl hcalls
  | btree => exact absurd hfork hformat
  | dev | inline | uuid =>
    rw [hfork] at hcalls
    exact ⟨_, .failed hcalls⟩

end ExtentCursor

namespace Medium

/-- **Every walk over an extent tree ends.** Whatever the medium and the inode hold, a search, the
walk to the last extent, the walk over all extents and the calls of a cursor until its end read at
most seven nodes, and one more for each extent that the inode claims or for each block of the
volume, whichever are fewer; the level never falls below zero; and a walk that would follow its
links further than that ends with the fault of a chain that does not end. Over a tree the calls of a
cursor do what the walk over all extents does. -/
theorem treeWalks_end (m : Medium) (inode : Inode) :
    (∀ logical, Traces (m.tracedFind inode logical) (m.findExtent inode logical)
      (EndsWithin inode (7 + min inode.extents.toNat m.geometry.dataBlocks.toNat)
        (m.maxLinks inode))) ∧
    Traces (m.tracedLast inode) (m.lastExtent? inode)
      (EndsWithin inode (7 + min inode.extents.toNat m.geometry.dataBlocks.toNat)
        (m.maxLinks inode)) ∧
    Traces (m.tracedAll inode) (m.allExtents inode)
      (EndsWithin inode (7 + min inode.extents.toNat m.geometry.dataBlocks.toNat)
        (m.maxLinks inode - 1)) ∧
    ∃ events r, ExtentCursor.Drains m inode .atStart events r ∧
      EndsWithin inode (7 + min inode.extents.toNat m.geometry.dataBlocks.toNat)
        (m.maxLinks inode - 1) events r ∧
      (inode.format = .btree → Traces (m.tracedAll inode) (m.allExtents inode) fun done answer =>
        done = events ∧ answer = r) := by
  have hall : Traces (m.tracedAll inode) (m.allExtents inode)
      (EndsWithin inode (7 + min inode.extents.toNat m.geometry.dataBlocks.toNat)
        (m.maxLinks inode - 1)) :=
    traces_all.mono fun _ _ h => h.mono (Nat.add_le_add_left (Nat.sub_le _ 1) 7)
  refine ⟨traces_find, traces_last, hall, ?_⟩
  by_cases hformat : inode.format = .btree
  · obtain ⟨events, ⟨hdrains, hends⟩, hrun⟩ :=
      (ExtentCursor.drains_allExtents hformat).and hall
    exact ⟨events, _, hdrains, hends, fun _ => ⟨events, ⟨rfl, rfl⟩, hrun⟩⟩
  · obtain ⟨r, hdrains⟩ := ExtentCursor.drains_of_ne (m := m) hformat
    exact ⟨[], r, hdrains, endsWithin_nil r, fun h => absurd h hformat⟩

/-! ### A leaf that is its own neighbour -/

/-- The tree of two leaves with a second leaf that is linked with itself. -/
def circularLeaves : Medium := { twoLeaves with
  device := ⟨smallLeaf nullAddress 1 ⟨1, 0, 2, false⟩ ++ smallLeaf 1 1 ⟨5, 1, 3, true⟩, 40⟩ }

/-- The walk to the last extent reads the leaf once more for each of the two extents that the inode
claims, and is stopped when it turns to it again. -/
theorem treeWalks_end_circularLeaves :
    twoLeavesInode.format = .btree ∧
      (∃ events, ExtentCursor.Drains circularLeaves twoLeavesInode .atStart events
        (circularLeaves.allExtents twoLeavesInode)) ∧
      ((circularLeaves.tracedLast twoLeavesInode).run.run []).2 =
        [.lowered 1, .read 1 0, .turned 1, .read 1 0, .turned 1, .read 1 0, .turned 1] ∧
      ∃ leaf, circularLeaves.lastExtent? twoLeavesInode =
        .error (chainFault twoLeavesInode leaf) := by
  obtain ⟨-, hlast, -, events, r, hdrains, -, hall⟩ := treeWalks_end circularLeaves twoLeavesInode
  obtain ⟨_, ⟨rfl, rfl⟩, -⟩ := hall rfl
  have htrace : ((circularLeaves.tracedLast twoLeavesInode).run.run []).2 =
      [.lowered 1, .read 1 0, .turned 1, .read 1 0, .turned 1, .read 1 0, .turned 1] := by
    decide +kernel
  refine ⟨rfl, ⟨_, hdrains⟩, htrace, ?_⟩
  obtain ⟨events, hends, hrun⟩ := hlast
  rw [hrun] at htrace
  obtain rfl : events = _ := htrace
  exact hends.stopped (by decide)

end Medium

end XfsVolume
