import XfsVolume.Proofs.Extent.LeafChains

/-!
# Runs of a cursor

A cursor is asked for one extent after the other, and nothing promises that the inode and the device
are the same from call to call. What it has handed out so far is all that it needs: over any calls
the extents stand in file order without overlap, and the first call that hands out none exhausts the
cursor for good (`answers_in_order`).
-/

namespace XfsVolume

/-- A call for the next extent: the medium and the inode that it is made with. -/
abbrev ExtentCall := Medium × Inode

namespace ExtentCursor

/-- The cursor of a walk that has not begun. -/
def atStart : ExtentCursor := {}

def after (c : ExtentCursor) : List ExtentCall → ExtentCursor
  | [] => c
  | call :: calls => ((c.next call.1 call.2).2).after calls

def answers (c : ExtentCursor) : List ExtentCall → List (Except Fault (Option Extent))
  | [] => []
  | call :: calls => (c.next call.1 call.2).1 :: ((c.next call.1 call.2).2).answers calls

def extentOf? : Except Fault (Option Extent) → Option Extent
  | .ok e => e
  | .error _ => none

def handedOut (answers : List (Except Fault (Option Extent))) : List Extent :=
  answers.filterMap extentOf?

@[simp] theorem answers_nil (c : ExtentCursor) : c.answers [] = [] := rfl

@[simp] theorem answers_cons (c : ExtentCursor) (call : ExtentCall) (calls : List ExtentCall) :
    c.answers (call :: calls) =
      (c.next call.1 call.2).1 :: ((c.next call.1 call.2).2).answers calls := rfl

@[simp] theorem after_nil (c : ExtentCursor) : c.after [] = c := rfl

@[simp] theorem after_cons (c : ExtentCursor) (call : ExtentCall) (calls : List ExtentCall) :
    c.after (call :: calls) = ((c.next call.1 call.2).2).after calls := rfl

theorem after_append (c : ExtentCursor) (calls later : List ExtentCall) :
    c.after (calls ++ later) = (c.after calls).after later := by
  induction calls generalizing c with
  | nil => rfl
  | cons call calls ih => exact ih _

/-! ## One call -/

/-- The extents of the leaf that the cursor holds are within their bits. -/
def Sound (c : ExtentCursor) : Prop :=
  ∀ leaf index, c.place = .leaf leaf index → ∀ e ∈ leaf.extents, e.Fits

theorem sound_atStart : atStart.Sound := by
  intro leaf index h
  cases h

theorem sound_of_isDone {c : ExtentCursor} (h : c.isDone = true) : c.Sound := by
  intro leaf index hplace
  rw [isDone, hplace] at h
  cases h

/-- What a call may do when the extent handed out last ended at `prevEnd`: hand out a non-empty one
that starts there or behind, and remember where it ends, or else exhaust the cursor. -/
def Advances (prevEnd : Option Nat) : Except Fault (Option Extent × ExtentCursor) → Prop
  | .ok (some e, c) =>
    e.Fits ∧ 0 < e.count ∧ (∀ p ∈ prevEnd, p ≤ e.start) ∧ c.prevEnd = some e.stop ∧ c.Sound
  | .ok (none, c) => c.isDone = true
  | .error _ => True

variable {c : ExtentCursor} {m : Medium} {inode : Inode}

theorem isDone_finish (c : ExtentCursor) : c.finish.isDone = true := rfl

theorem advances_emit {block : Nat} {e : Extent} {place : CursorPlace} (hfits : e.Fits)
    (hplace : ∀ leaf index, place = .leaf leaf index → ∀ x ∈ leaf.extents, x.Fits) :
    Advances c.prevEnd (c.emit block e place) := by
  rw [emit]
  cases hcheck : e.checkAfter block c.prevEnd with
  | error f => trivial
  | ok u =>
    obtain ⟨hcount, hstart⟩ := Extent.of_checkAfter hcheck
    exact ⟨hfits, hcount, hstart, rfl, hplace⟩

theorem advances_nextInline (index : Nat) : Advances c.prevEnd (c.nextInline inode index) := by
  rw [nextInline]
  split
  · exact isDone_finish c
  · cases inode.checkInlineExtents with
    | error f => trivial
    | ok u =>
      rw [ok_bind]
      cases hdecode : Extent.decode inode.fork (index * extentLength) with
      | error f => trivial
      | ok e =>
        refine advances_emit (Extent.fits_of_decode hdecode) ?_
        intro leaf index h
        cases h

theorem advances_nextInLeaf {leaf : TreeLeaf} (hfits : ∀ e ∈ leaf.extents, e.Fits) (index : Nat) :
    Advances c.prevEnd (c.nextInLeaf m inode leaf index) := by
  have hplace {leaf : TreeLeaf} {index : Nat} (hfits : ∀ e ∈ leaf.extents, e.Fits) :
      ∀ leaf' index', CursorPlace.leaf leaf index = .leaf leaf' index' →
        ∀ x ∈ leaf'.extents, x.Fits := by
    rintro _ _ ⟨⟩
    exact hfits
  rw [nextInLeaf]
  cases hhere : leaf.extents[index]? with
  | some e => exact advances_emit (hfits e (List.mem_of_getElem? hhere)) (hplace hfits)
  | none =>
    dsimp only
    split
    · exact isDone_finish _
    · split
      · trivial
      · cases hright : m.rightLeaf leaf with
        | error f => trivial
        | ok next =>
          have hnext := Medium.fits_of_rightLeaf hright
          dsimp only [ok_bind]
          cases hfirst : next.extents[0]? with
          | some e => exact advances_emit (hnext e (List.mem_of_getElem? hfirst)) (hplace hnext)
          | none => exact isDone_finish _

theorem Sound.advances (h : c.Sound) (m : Medium) (inode : Inode) :
    Advances c.prevEnd (c.advance m inode) := by
  obtain ⟨place, prevEnd, leaves⟩ := c
  rw [advance]
  cases place with
  | start =>
    cases inode.format with
    | extents => exact advances_nextInline 0
    | btree =>
      dsimp only
      cases hentry : m.entryLeaf inode fun _ => 0 with
      | error f => trivial
      | ok leaf =>
        exact advances_nextInLeaf (c := ⟨.start, prevEnd, 1⟩) (Medium.fits_of_entryLeaf hentry) 0
    | dev => trivial
    | inline => trivial
    | uuid => trivial
  | inline index => exact advances_nextInline index
  | leaf leaf index => exact advances_nextInLeaf (h leaf index rfl) index
  | done => rfl

theorem next_of_isDone (h : c.isDone = true) (m : Medium) (inode : Inode) :
    (c.next m inode).1 = .ok none ∧ (c.next m inode).2.isDone = true := by
  have hplace : c.place = .done := by simpa [isDone] using h
  rw [next, advance, hplace]
  exact ⟨rfl, h⟩

theorem Sound.next_cases (h : c.Sound) (m : Medium) (inode : Inode) :
    (∃ e, (c.next m inode).1 = .ok (some e) ∧ e.Fits ∧ 0 < e.count ∧
      (∀ p ∈ c.prevEnd, p ≤ e.start) ∧ (c.next m inode).2.prevEnd = some e.stop ∧
      (c.next m inode).2.Sound) ∨
    (extentOf? (c.next m inode).1 = none ∧ (c.next m inode).2.isDone = true) := by
  have hadvances := h.advances m inode
  rw [next]
  generalize c.advance m inode = r at hadvances ⊢
  rcases r with f | ⟨- | e, c'⟩
  · exact Or.inr ⟨rfl, isDone_finish c⟩
  · exact Or.inr ⟨rfl, hadvances⟩
  · exact Or.inl ⟨e, rfl, hadvances⟩

/-! ## Any calls -/

theorem answers_of_isDone : ∀ {calls : List ExtentCall} {c : ExtentCursor}, c.isDone = true →
    ∀ a ∈ c.answers calls, a = .ok none
  | [], _, _, a, ha => by cases ha
  | call :: calls, c, h, a, ha => by
      obtain ⟨hnone, hdone⟩ := next_of_isDone h call.1 call.2
      rcases List.mem_cons.mp ha with rfl | ha
      · exact hnone
      · exact answers_of_isDone hdone a ha

theorem handedOut_of_isDone {calls : List ExtentCall} (h : c.isDone = true) :
    handedOut (c.answers calls) = [] := by
  rw [handedOut, List.filterMap_eq_nil_iff]
  intro a ha
  rw [answers_of_isDone h a ha]
  rfl

/-- What a cursor hands out stands in file order, behind what it handed out last. -/
theorem Sound.inOrder : ∀ (calls : List ExtentCall) {c : ExtentCursor}, c.Sound →
    InOrder (handedOut (c.answers calls)) ∧ StartsAfter c.prevEnd (handedOut (c.answers calls))
  | [], _, _ => ⟨InOrder.nil, fun _ _ _ he => by cases he⟩
  | call :: calls, c, h => by
      rcases h.next_cases call.1 call.2 with ⟨e, hsome, hfits, hcount, hstart, hend, hsound⟩ |
        ⟨hnone, hdone⟩
      · obtain ⟨hrest, hbehind⟩ := hsound.inOrder calls
        have hlist : handedOut (c.answers (call :: calls)) =
            e :: handedOut ((c.next call.1 call.2).2.answers calls) := by
          rw [answers_cons, hsome]
          rfl
        have hsingle : InOrder [e] := by
          refine ⟨?_, ?_, List.pairwise_singleton _ _⟩
          · exact List.forall_mem_singleton.mpr hfits
          · exact List.forall_mem_singleton.mpr hcount
        rw [hlist]
        refine InOrder.append hsingle ?_ hrest ?_
        · intro p hp
          exact List.forall_mem_singleton.mpr (hstart p hp)
        · rwa [hend] at hbehind
      · have hlist : handedOut (c.answers (call :: calls)) = [] := by
          rw [answers_cons, handedOut, List.filterMap_cons_none hnone]
          exact handedOut_of_isDone hdone
        rw [hlist]
        exact ⟨InOrder.nil, fun _ _ _ he => by cases he⟩

theorem Sound.after : ∀ (calls : List ExtentCall) {c : ExtentCursor}, c.Sound →
    (c.after calls).Sound
  | [], _, h => h
  | call :: calls, c, h => by
      rcases h.next_cases call.1 call.2 with ⟨-, -, -, -, -, -, hsound⟩ | ⟨-, hdone⟩
      · exact hsound.after calls
      · exact (sound_of_isDone hdone).after calls

/-- **Cursors move forward.** Whatever media and inodes the calls are made with, the extents that a
cursor hands out are not empty, and each starts at or behind the end of every one before it. A call
that hands out none, at the end or for a fault, leaves the cursor exhausted, and no later call gets
anything but the end from it. -/
theorem answers_in_order (calls : List ExtentCall) :
    (∀ e ∈ handedOut (atStart.answers calls), 1 ≤ e.count) ∧
    (handedOut (atStart.answers calls)).Pairwise (fun a b => a.start + a.count ≤ b.start) ∧
    ∀ call later, extentOf? ((atStart.after calls).next call.1 call.2).1 = none →
      (atStart.after (calls ++ [call])).isDone = true ∧
      ∀ a ∈ (atStart.after (calls ++ [call])).answers later, a = .ok none := by
  obtain ⟨hin, -⟩ := sound_atStart.inOrder calls
  refine ⟨hin.nonempty, hin.disjoint, ?_⟩
  intro call later hnone
  have hdone : (atStart.after (calls ++ [call])).isDone = true := by
    rw [after_append, after_cons, after_nil]
    rcases (sound_atStart.after calls).next_cases call.1 call.2 with
      ⟨e, hsome, -⟩ | ⟨-, hdone⟩
    · rw [hsome] at hnone
      cases hnone
    · exact hdone
  exact ⟨hdone, answers_of_isDone hdone⟩

end ExtentCursor

end XfsVolume
