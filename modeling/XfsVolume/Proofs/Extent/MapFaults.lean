import XfsVolume.Extent.Cursor
import XfsVolume.Proofs.Failures

/-!
# Faults of the block map

Whatever an inode and a device hold, the block map fails in a few ways only: the device fails to
give a block, the fork or its tree is flawed, or no extent holds the block asked for. There is one
lemma for each reader of the map, and it is about every class of faults that holds these
(`Medium.MapFaults`). The flaws of a list of extents in the inode are kept apart from the others,
since an inode that was loaded has a list that fits.
-/

namespace XfsVolume

/-- The flaw is one of a list of extents in an inode: it does not fit its fork, or cannot be
decoded. -/
def TreeFlaw.ofList : TreeFlaw → Bool
  | .inlineOverflow .. | .inlineList .. | .inlineRecord .. => true
  | _ => false

theorem Extent.ofList_of_flawAfter? {e : Extent} {prevEnd : Option Nat} {flaw : TreeFlaw}
    (h : e.flawAfter? prevEnd = some flaw) : flaw.ofList = false := by
  rw [flawAfter?.eq_def] at h
  by_cases hcount : e.count = 0
  · rw [if_pos hcount] at h
    cases h
    rfl
  · rw [if_neg hcount] at h
    cases prevEnd with
    | none => cases h
    | some p =>
      obtain ⟨-, hflaw⟩ := Option.ite_none_right_eq_some.mp h
      cases hflaw
      rfl

/-- Where flaws of every kind are in the class, so are those of a list of extents. -/
theorem failsIn_inlineExtents {P : Fault → Prop} (h : ∀ flaw, P (.corruptTree 0 flaw))
    (inode : Inode) : FailsIn P inode.inlineExtents := by
  rw [Inode.inlineExtents, Inode.checkInlineExtents]
  refine failsIn_bind ?_ fun _ _ => failsIn_mapError fun _ _ => h _
  exact failsIn_ite (fun _ => failsIn_error (h _)) fun _ => failsIn_ok _

namespace Medium

/-- The class `P` holds the faults with which the block map of `m` may fail, but for the flaws of a
list of extents in an inode. -/
structure MapFaults (m : Medium) (P : Fault → Prop) : Prop where
  missing : ∀ logical, P (.extentNotFound logical)
  flawed : ∀ block flaw, flaw.ofList = false → P (.corruptTree block flaw)
  unread : ∀ block, block < m.device.blockCount → FailsIn P (m.readBlock block)

namespace MapFaults

variable {m : Medium} {P : Fault → Prop}

theorem mappingIn (h : m.MapFaults P) (e : Extent) (logical : Nat) :
    FailsIn P (m.mappingIn e logical) := by
  rw [Medium.mappingIn]
  cases e.addressOf? logical with
  | none => exact failsIn_error (h.missing logical)
  | some address =>
    refine failsIn_bind (failsIn_mapError fun _ _ => h.flawed _ _ rfl) fun physical _ => ?_
    exact failsIn_guard (h.flawed _ _ rfl) fun _ => failsIn_ok _

/-! ## Lists of extents -/

theorem checkAfter (h : m.MapFaults P) (e : Extent) (block : Nat) (prevEnd : Option Nat) :
    FailsIn P (e.checkAfter block prevEnd) := by
  rw [Extent.checkAfter]
  cases hfound : e.flawAfter? prevEnd with
  | none => exact failsIn_ok _
  | some flaw => exact failsIn_error (h.flawed _ _ (Extent.ofList_of_flawAfter? hfound))

theorem scanExtents (h : m.MapFaults P) (block logical : Nat) :
    ∀ (prevEnd : Option Nat) (es : List Extent),
      FailsIn P (XfsVolume.scanExtents block logical prevEnd es)
  | _, [] => failsIn_ok _
  | _, e :: es => by
      rw [XfsVolume.scanExtents]
      refine failsIn_bind (h.checkAfter _ _ _) fun _ _ => ?_
      refine failsIn_ite (fun _ => failsIn_ok _) fun _ => ?_
      exact failsIn_ite (fun _ => failsIn_ok _) fun _ => h.scanExtents block logical _ es

theorem checkExtents (h : m.MapFaults P) (block : Nat) :
    ∀ (prevEnd : Option Nat) (es : List Extent),
      FailsIn P (XfsVolume.checkExtents block prevEnd es)
  | _, [] => failsIn_ok _
  | _, e :: es => by
      rw [XfsVolume.checkExtents]
      exact failsIn_bind (h.checkAfter _ _ _) fun _ _ => h.checkExtents block _ es

/-! ## Trees -/

theorem readTreeNode (h : m.MapFaults P) (address level : Nat) :
    FailsIn P (m.readTreeNode address level) := by
  rw [Medium.readTreeNode]
  refine failsIn_bind (failsIn_mapError fun _ _ => h.flawed _ _ rfl) fun block _ => ?_
  refine failsIn_guard (h.flawed _ _ rfl) fun hin => ?_
  rw [Bool.or_eq_true, decide_eq_true_eq, decide_eq_true_eq, not_or] at hin
  refine failsIn_bind (h.unread _ (Nat.not_le.mp hin.2)) fun bytes _ => ?_
  refine failsIn_bind (failsIn_mapError fun _ _ => h.flawed _ _ rfl) fun node _ => ?_
  refine failsIn_guard (h.flawed _ _ rfl) fun _ => ?_
  exact failsIn_guard (h.flawed _ _ rfl) fun _ => failsIn_ok _

theorem descendTree (h : m.MapFaults P) (pick : List Nat → Nat) :
    ∀ level address : Nat, FailsIn P (m.descendTree pick level address)
  | level, address => by
      rw [descendTree.eq_def]
      refine failsIn_bind (h.readTreeNode _ _) fun read _ => ?_
      obtain ⟨block, node⟩ := read
      dsimp only
      cases node.body with
      | leaf extents => exact failsIn_ok _
      | interior links =>
        cases level with
        | zero => exact failsIn_error (h.flawed _ _ rfl)
        | succ level =>
          dsimp only
          cases links[pick (links.map TreeLink.key)]? with
          | none => exact failsIn_error (h.flawed _ _ rfl)
          | some link => exact h.descendTree pick level link.address

theorem entryLeaf (h : m.MapFaults P) (inode : Inode) (pick : List Nat → Nat) :
    FailsIn P (m.entryLeaf inode pick) := by
  rw [Medium.entryLeaf]
  refine failsIn_bind ?_ fun root _ => ?_
  · rw [Inode.treeRoot]
    refine failsIn_bind (failsIn_mapError fun _ _ => h.flawed _ _ rfl) fun root _ => ?_
    exact failsIn_guard (h.flawed _ _ rfl) fun _ => failsIn_ok _
  · cases root.links[pick (root.links.map TreeLink.key)]? with
    | none => exact failsIn_error (h.flawed _ _ rfl)
    | some link => exact h.descendTree pick _ _

theorem rightLeaf (h : m.MapFaults P) (leaf : TreeLeaf) : FailsIn P (m.rightLeaf leaf) := by
  rw [Medium.rightLeaf]
  refine failsIn_bind (h.readTreeNode _ _) fun read _ => ?_
  obtain ⟨block, node⟩ := read
  refine failsIn_guard (h.flawed _ _ rfl) fun _ => ?_
  cases node.body with
  | leaf extents => exact failsIn_ok _
  | interior links => exact failsIn_error (h.flawed _ _ rfl)

theorem findFrom (h : m.MapFaults P) (inode : Inode) (logical : Nat) :
    ∀ (links : Nat) (prevEnd : Option Nat) (leaf : TreeLeaf),
      FailsIn P (m.findFrom inode logical links prevEnd leaf)
  | links, prevEnd, leaf => by
      rw [findFrom.eq_def]
      refine failsIn_bind (h.scanExtents _ _ _ _) fun scan _ => ?_
      cases scan with
      | found e => exact failsIn_ok _
      | passed => exact failsIn_error (h.missing _)
      | ended prevEnd =>
        refine failsIn_ite (fun _ => failsIn_error (h.missing _)) fun _ => ?_
        cases links with
        | zero => exact failsIn_error (h.flawed _ _ rfl)
        | succ links =>
          exact failsIn_bind (h.rightLeaf leaf) fun next _ =>
            h.findFrom inode logical links prevEnd next

theorem lastLeafFrom (h : m.MapFaults P) (inode : Inode) :
    ∀ (links : Nat) (leaf : TreeLeaf), FailsIn P (m.lastLeafFrom inode links leaf)
  | links, leaf => by
      rw [lastLeafFrom.eq_def]
      refine failsIn_ite (fun _ => failsIn_ok _) fun _ => ?_
      cases links with
      | zero => exact failsIn_error (h.flawed _ _ rfl)
      | succ links =>
        exact failsIn_bind (h.rightLeaf leaf) fun next _ => h.lastLeafFrom inode links next

theorem extentsFrom (h : m.MapFaults P) (inode : Inode) :
    ∀ (links : Nat) (prevEnd : Option Nat) (leaf : TreeLeaf),
      FailsIn P (m.extentsFrom inode links prevEnd leaf)
  | links, prevEnd, leaf => by
      rw [extentsFrom.eq_def]
      refine failsIn_bind (h.checkExtents _ _ _) fun prevEnd _ => ?_
      refine failsIn_ite (fun _ => failsIn_ok _) fun _ => ?_
      cases links with
      | zero => exact failsIn_error (h.flawed _ _ rfl)
      | succ links =>
        refine failsIn_bind (h.rightLeaf leaf) fun next _ => ?_
        exact failsIn_bind (h.extentsFrom inode links prevEnd next) fun _ _ => failsIn_ok _

/-! ## Questions about a fork -/

section

variable {inode : Inode}

theorem findExtent (h : m.MapFaults P)
    (hlist : inode.format = .extents → FailsIn P inode.inlineExtents) (logical : Nat) :
    FailsIn P (m.findExtent inode logical) := by
  rw [Medium.findExtent]
  cases hformat : inode.format with
  | extents =>
    refine failsIn_bind (hlist hformat) fun extents _ => ?_
    refine failsIn_bind (h.scanExtents _ _ _ _) fun scan _ => ?_
    cases scan with
    | found e => exact failsIn_ok _
    | passed | ended _ => exact failsIn_error (h.missing _)
  | btree => exact failsIn_bind (h.entryLeaf inode _) fun leaf _ => h.findFrom inode _ _ _ _
  | dev | inline | uuid => exact failsIn_error (h.flawed _ _ rfl)

theorem mapBlock (h : m.MapFaults P)
    (hlist : inode.format = .extents → FailsIn P inode.inlineExtents) (logical : Nat) :
    FailsIn P (m.mapBlock inode logical) :=
  failsIn_bind (h.findExtent hlist logical) fun e _ => h.mappingIn e logical

theorem lastExtent? (h : m.MapFaults P)
    (hlist : inode.format = .extents → FailsIn P inode.inlineExtents) :
    FailsIn P (m.lastExtent? inode) := by
  rw [Medium.lastExtent?]
  cases hformat : inode.format with
  | extents => exact failsIn_bind (hlist hformat) fun _ _ => failsIn_ok _
  | btree =>
    refine failsIn_bind (h.entryLeaf inode _) fun leaf _ => ?_
    exact failsIn_bind (h.lastLeafFrom inode _ leaf) fun _ _ => failsIn_ok _
  | dev | inline | uuid => exact failsIn_error (h.flawed _ _ rfl)

theorem allExtents (h : m.MapFaults P)
    (hlist : inode.format = .extents → FailsIn P inode.inlineExtents) :
    FailsIn P (m.allExtents inode) := by
  rw [Medium.allExtents]
  cases hformat : inode.format with
  | extents =>
    refine failsIn_bind (hlist hformat) fun extents _ => ?_
    exact failsIn_bind (h.checkExtents _ _ _) fun _ _ => failsIn_ok _
  | btree =>
    exact failsIn_bind (h.entryLeaf inode _) fun leaf _ => h.extentsFrom inode _ _ _
  | dev | inline | uuid => exact failsIn_error (h.flawed _ _ rfl)

end

/-! ## Cursors -/

theorem emit (h : m.MapFaults P) (c : ExtentCursor) (block : Nat) (e : Extent)
    (place : CursorPlace) : FailsIn P (c.emit block e place) := by
  rw [ExtentCursor.emit]
  exact failsIn_bind (h.checkAfter _ _ _) fun _ _ => failsIn_ok _

theorem nextInLeaf (h : m.MapFaults P) (c : ExtentCursor) (inode : Inode) (leaf : TreeLeaf)
    (index : Nat) : FailsIn P (c.nextInLeaf m inode leaf index) := by
  rw [ExtentCursor.nextInLeaf]
  cases leaf.extents[index]? with
  | some e => exact h.emit _ _ _ _
  | none =>
    refine failsIn_ite (fun _ => failsIn_ok _) fun _ => ?_
    refine failsIn_guard (h.flawed _ _ rfl) fun _ => ?_
    refine failsIn_bind (h.rightLeaf leaf) fun next _ => ?_
    cases next.extents[0]? with
    | some e => exact h.emit _ _ _ _
    | none => exact failsIn_ok _

/-- A cursor may stand in the list of an inode whose fork is no list; so the list is looked at
wherever the cursor stands in it. -/
theorem next (h : m.MapFaults P) {c : ExtentCursor} {inode : Inode}
    (hlist : ∀ index, inode.format = .extents ∨ c.place = .inline index →
      FailsIn P (c.nextInline inode index)) : FailsIn P (c.next m inode).1 := by
  have hadvance : FailsIn P (c.advance m inode) := by
    rw [ExtentCursor.advance]
    cases hplace : c.place with
    | start =>
      cases hformat : inode.format with
      | extents => exact hlist 0 (Or.inl hformat)
      | btree => exact failsIn_bind (h.entryLeaf inode _) fun leaf _ => h.nextInLeaf _ _ _ _
      | dev | inline | uuid => exact failsIn_error (h.flawed _ _ rfl)
    | inline index => exact hlist index (Or.inr hplace)
    | leaf leaf index => exact h.nextInLeaf _ _ _ _
    | done => exact failsIn_ok _
  rw [ExtentCursor.next]
  cases hafter : c.advance m inode with
  | ok after => exact failsIn_ok _
  | error e => exact failsIn_error (hadvance e hafter)

end MapFaults

end Medium

end XfsVolume
