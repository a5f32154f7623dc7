import XfsVolume.Directory.Listing
import XfsVolume.Proofs.Bytes
import XfsVolume.Proofs.Steps

/-!
# Walks over the slots of a data block

A slot that is decoded has at least eight bytes and ends inside the region it is looked for in, so
that a walk gets to the end of the region or stops at an error, and what it walked over to the end
tiles the region (`Tiled`). A walk hands the entries it meets, one by one, to a visitor that may
answer and end it. That loop is described by what it does at each slot (`Visits`): it always ends,
and its outcome is what comes of handing the entries of the whole walk over in order, with the error
of the walk behind them (`SlotWalk.handTo`). Look-ups and listings of block directories are such
loops.
-/

namespace XfsVolume

/-! ## One slot -/

theorem entryLength_bounds (n : Nat) (ftype : Bool) : n + 11 + ftype.toNat ≤ entryLength n ftype ∧
    entryLength n ftype ≤ n + 18 + ftype.toNat ∧ entryLength n ftype % 8 = 0 := by
  rw [entryLength, alignUp]
  omega

section

variable {block : ByteArray} {off stop : Nat} {ftype : Bool} {slot : DataSlot}

theorem DataSlot.bounds_of_decode (h : DataSlot.decode block off stop ftype = .ok slot) :
    8 ≤ slot.length ∧ off + slot.length ≤ stop := by
  rw [DataSlot.decode] at h
  obtain ⟨region, hregion, h⟩ := bind_eq_ok.mp h
  obtain ⟨hin, rfl⟩ := window_of_readBytes hregion
  have hsize : (window block 0 stop).size = stop := size_window_of_le hin
  obtain ⟨tag, -, h⟩ := bind_eq_ok.mp h
  by_cases htag : (tag == freeTag) = true
  · rw [if_pos htag] at h
    obtain ⟨len, -, h⟩ := bind_eq_ok.mp h
    simp only [throw_bind, ite_error_eq_ok, check_eq_ok, pure_eq_ok, Bool.or_eq_true,
      decide_eq_true_eq, not_or, not_lt] at h
    obtain ⟨⟨hlen, -⟩, hroom, heq⟩ := h
    cases heq
    have hend := le_of_need hroom
    rw [hsize] at hend
    exact ⟨hlen, hend⟩
  · rw [if_neg htag] at h
    obtain ⟨ino, -, h⟩ := bind_eq_ok.mp h
    obtain ⟨nameLength, -, h⟩ := bind_eq_ok.mp h
    simp only [throw_bind, ite_error_eq_ok, check_eq_ok] at h
    obtain ⟨-, hroom, h⟩ := h
    obtain ⟨name, -, h⟩ := bind_eq_ok.mp h
    have hlength : slot.length = entryLength nameLength.toNat ftype := by
      cases ftype with
      | false =>
        cases h
        rfl
      | true =>
        obtain ⟨code, -, heq⟩ := bind_eq_ok.mp h
        cases heq
        rfl
    have hend := le_of_need hroom
    have hbounds := entryLength_bounds nameLength.toNat ftype
    rw [hsize] at hend
    rw [hlength]
    omega

/-! ## Walks without their bound -/

theorem walkSlotsFor_of_le (h : stop ≤ off) (fuel : Nat) :
    walkSlotsFor block stop ftype fuel off = ⟨[], none⟩ := by
  cases fuel with
  | zero => rfl
  | succ fuel => rw [walkSlotsFor, if_neg (Nat.not_lt.mpr h)]

theorem walkSlotsFor_eq {fuel fuel' : Nat} (h : stop - off ≤ fuel) (h' : stop - off ≤ fuel') :
    walkSlotsFor block stop ftype fuel off = walkSlotsFor block stop ftype fuel' off := by
  induction fuel generalizing off fuel' with
  | zero => rw [walkSlotsFor_of_le (by omega), walkSlotsFor_of_le (by omega)]
  | succ fuel ih =>
    rcases Nat.lt_or_ge off stop with hlt | hle
    · obtain ⟨more, rfl⟩ : ∃ more, fuel' = more + 1 := ⟨fuel' - 1, by omega⟩
      rw [walkSlotsFor, walkSlotsFor, if_pos hlt, if_pos hlt]
      cases hslot : DataSlot.decode block off stop ftype with
      | error e => rfl
      | ok slot =>
        have hbounds := DataSlot.bounds_of_decode hslot
        have hrest : walkSlotsFor block stop ftype fuel (off + slot.length) =
            walkSlotsFor block stop ftype more (off + slot.length) := ih (by omega) (by omega)
        dsimp only
        rw [hrest]
    · rw [walkSlotsFor_of_le hle, walkSlotsFor_of_le hle]

theorem walkSlots_of_le (h : stop ≤ off) : walkSlots block off stop ftype = ⟨[], none⟩ :=
  walkSlotsFor_of_le h _

theorem walkSlots_of_error {e : DecodeError} (hlt : off < stop)
    (h : DataSlot.decode block off stop ftype = .error e) :
    walkSlots block off stop ftype = ⟨[], some e⟩ := by
  obtain ⟨more, hmore⟩ : ∃ more, stop - off = more + 1 := ⟨stop - off - 1, by omega⟩
  rw [walkSlots, hmore, walkSlotsFor, if_pos hlt, h]

theorem walkSlots_of_slot (hlt : off < stop)
    (h : DataSlot.decode block off stop ftype = .ok slot) :
    walkSlots block off stop ftype =
      ⟨slot :: (walkSlots block (off + slot.length) stop ftype).slots,
        (walkSlots block (off + slot.length) stop ftype).stoppedBy⟩ := by
  have hbounds := DataSlot.bounds_of_decode h
  obtain ⟨more, hmore⟩ : ∃ more, stop - off = more + 1 := ⟨stop - off - 1, by omega⟩
  have hrest : walkSlotsFor block stop ftype more (off + slot.length) =
      walkSlots block (off + slot.length) stop ftype := walkSlotsFor_eq (by omega) (Nat.le_refl _)
  rw [walkSlots, hmore, walkSlotsFor, if_pos hlt, h]
  dsimp only
  rw [hrest]

end

/-! ## Tilings -/

/-- Slots stand one behind the other from byte `off` to `stop`, each of at least eight bytes. -/
def Tiled (block : ByteArray) (stop : Nat) (ftype : Bool) : (off : Nat) → List DataSlot → Prop
  | off, [] => off = stop
  | off, slot :: rest => DataSlot.decode block off stop ftype = .ok slot ∧ 8 ≤ slot.length ∧
      Tiled block stop ftype (off + slot.length) rest

section

variable {block : ByteArray} {stop : Nat} {ftype : Bool}

theorem Tiled.cons {off : Nat} {slot : DataSlot} {rest : List DataSlot}
    (h : DataSlot.decode block off stop ftype = .ok slot)
    (hrest : Tiled block stop ftype (off + slot.length) rest) :
    Tiled block stop ftype off (slot :: rest) :=
  ⟨h, (DataSlot.bounds_of_decode h).1, hrest⟩

/-- A walk over a region that slots tile meets these slots. -/
theorem Tiled.walkSlots_eq : ∀ {slots : List DataSlot} {off : Nat},
    Tiled block stop ftype off slots → walkSlots block off stop ftype = ⟨slots, none⟩
  | [], _, h => walkSlots_of_le (Nat.le_of_eq h.symm)
  | slot :: rest, off, ⟨hslot, hlength, hrest⟩ => by
      have hbounds := DataSlot.bounds_of_decode hslot
      rw [walkSlots_of_slot (by omega) hslot, Tiled.walkSlots_eq hrest]

end

/-! ## Visitors -/

section

variable {σ τ : Type}

/-- Hands entries over, in order, until one is answered. -/
def handOver (visit : DataEntry → σ → Option τ × σ) : List DataEntry → σ → Option τ × σ
  | [], s => (none, s)
  | e :: rest, s =>
    match visit e s with
    | (some t, s') => (some t, s')
    | (none, s') => handOver visit rest s'

/-- What comes of handing over the entries of a walk: an answer, or the error that ended the walk. -/
def SlotWalk.handTo (walk : SlotWalk) (visit : DataEntry → σ → Option τ × σ) (s : σ) :
    Except DecodeError (Option τ) × σ :=
  match handOver visit walk.entries s with
  | (some t, s') => (.ok (some t), s')
  | (none, s') => (walk.stoppedBy.elim (.ok none) .error, s')

/-- The loop over the slots from byte `off` on, with the visitor in state `s`: the slots it decodes
and what it ends with. -/
inductive Visits (visit : DataEntry → σ → Option τ × σ) (block : ByteArray) (stop : Nat)
    (ftype : Bool) : Nat → σ → List DataSlot → Except DecodeError (Option τ) × σ → Prop
  | finished {off : Nat} {s : σ} (hend : stop ≤ off) :
      Visits visit block stop ftype off s [] (.ok none, s)
  | failed {off : Nat} {s : σ} {e : DecodeError} (hlt : off < stop)
      (hslot : DataSlot.decode block off stop ftype = .error e) :
      Visits visit block stop ftype off s [] (.error e, s)
  | free {off n : Nat} {s : σ} {slots : List DataSlot} {out : Except DecodeError (Option τ) × σ}
      (hlt : off < stop) (hslot : DataSlot.decode block off stop ftype = .ok (.free n))
      (hrest : Visits visit block stop ftype (off + n) s slots out) :
      Visits visit block stop ftype off s (.free n :: slots) out
  | answered {off : Nat} {s s' : σ} {e : DataEntry} {t : τ} (hlt : off < stop)
      (hslot : DataSlot.decode block off stop ftype = .ok (.entry e))
      (hvisit : visit e s = (some t, s')) :
      Visits visit block stop ftype off s [.entry e] (.ok (some t), s')
  | passed {off : Nat} {s s' : σ} {e : DataEntry} {slots : List DataSlot}
      {out : Except DecodeError (Option τ) × σ} (hlt : off < stop)
      (hslot : DataSlot.decode block off stop ftype = .ok (.entry e))
      (hvisit : visit e s = (none, s'))
      (hrest : Visits visit block stop ftype (off + e.length) s' slots out) :
      Visits visit block stop ftype off s (.entry e :: slots) out

variable {visit : DataEntry → σ → Option τ × σ} {block : ByteArray} {stop : Nat} {ftype : Bool}

theorem exists_visits (visit : DataEntry → σ → Option τ × σ) (block : ByteArray) (stop : Nat)
    (ftype : Bool) (off : Nat) (s : σ) :
    ∃ slots out, Visits visit block stop ftype off s slots out := by
  induction hleft : stop - off using Nat.strongRecOn generalizing off s with
  | ind left ih =>
    rcases Nat.lt_or_ge off stop with hlt | hend
    · cases hslot : DataSlot.decode block off stop ftype with
      | error e => exact ⟨_, _, .failed hlt hslot⟩
      | ok slot =>
        have hbounds := DataSlot.bounds_of_decode hslot
        cases slot with
        | free n =>
          rw [DataSlot.length] at hbounds
          obtain ⟨slots, out, hrest⟩ := ih (stop - (off + n)) (by omega) (off + n) s rfl
          exact ⟨_, _, .free hlt hslot hrest⟩
        | entry e =>
          rw [DataSlot.length] at hbounds
          rcases hvisit : visit e s with ⟨- | t, s'⟩
          · obtain ⟨slots, out, hrest⟩ :=
              ih (stop - (off + e.length)) (by omega) (off + e.length) s' rfl
            exact ⟨_, _, .passed hlt hslot hvisit hrest⟩
          · exact ⟨_, _, .answered hlt hslot hvisit⟩
    · exact ⟨_, _, .finished hend⟩

namespace Visits

variable {off : Nat} {s : σ} {slots : List DataSlot} {out : Except DecodeError (Option τ) × σ}

theorem eq_handTo (h : Visits visit block stop ftype off s slots out) :
    out = (walkSlots block off stop ftype).handTo visit s := by
  induction h with
  | finished hend =>
    rw [walkSlots_of_le hend]
    rfl
  | failed hlt hslot =>
    rw [walkSlots_of_error hlt hslot]
    rfl
  | free hlt hslot _ ih =>
    rw [walkSlots_of_slot hlt hslot]
    exact ih
  | answered hlt hslot hvisit =>
    rw [walkSlots_of_slot hlt hslot, SlotWalk.handTo, SlotWalk.entries]
    simp only [List.filterMap_cons, DataSlot.entry?, handOver, hvisit]
  | passed hlt hslot hvisit _ ih =>
    rw [walkSlots_of_slot hlt hslot, SlotWalk.handTo, SlotWalk.entries]
    simp only [List.filterMap_cons, DataSlot.entry?, handOver, hvisit]
    exact ih

/-- A loop that was neither answered nor stopped by an error went over slots that tile the region,
and handed over each entry among them once, in order. -/
theorem tiled (h : Visits visit block stop ftype off s slots out) (hout : out.1 = .ok none)
    (hle : off ≤ stop) : Tiled block stop ftype off slots ∧
      out.2 = (slots.filterMap DataSlot.entry?).foldl (fun s e => (visit e s).2) s := by
  induction h with
  | finished hend => exact ⟨Nat.le_antisymm hle hend, rfl⟩
  | failed => cases hout
  | answered => cases hout
  | free _ hslot _ ih =>
    have hbounds := DataSlot.bounds_of_decode hslot
    obtain ⟨hrest, hstate⟩ := ih hout hbounds.2
    exact ⟨.cons hslot hrest, hstate⟩
  | passed _ hslot hvisit _ ih =>
    have hbounds := DataSlot.bounds_of_decode hslot
    obtain ⟨hrest, hstate⟩ := ih hout hbounds.2
    refine ⟨.cons hslot hrest, ?_⟩
    simp only [List.filterMap_cons, DataSlot.entry?, List.foldl_cons, hvisit]
    exact hstate

end Visits

/-! ## The loops of block directories -/

def seekName (name : Name) (e : DataEntry) (_ : Unit) : Option (Nat × FileKind) × Unit :=
  (if e.name == name then some e.toDirEntry.target else none, ())

def seekCursor (cursor : DirCursor) (e : DataEntry) (ordinal : Nat) : Option DirEntry × Nat :=
  (if ordinal = cursor then some e.toDirEntry else none, ordinal + 1)

theorem handOver_seekName (name : Name) (entries : List DataEntry) :
    handOver (seekName name) entries () =
      ((entries.find? (·.name == name)).map fun e => e.toDirEntry.target, ()) := by
  induction entries with
  | nil => rfl
  | cons e rest ih =>
    rw [handOver, seekName, List.find?_cons]
    cases e.name == name with
    | true => rfl
    | false => exact ih

theorem handOver_seekCursor {cursor : Nat} : ∀ {entries : List DataEntry} {ordinal : Nat},
    ordinal ≤ cursor → (handOver (seekCursor cursor) entries ordinal).1 =
      entries[cursor - ordinal]?.map DataEntry.toDirEntry
  | [], _, _ => rfl
  | e :: rest, ordinal, hle => by
      rw [handOver, seekCursor]
      rcases Nat.eq_or_lt_of_le hle with rfl | hlt
      · rw [if_pos rfl, Nat.sub_self]
        rfl
      · have hplace : cursor - ordinal = cursor - (ordinal + 1) + 1 := by omega
        rw [if_neg (Nat.ne_of_lt hlt), hplace, List.getElem?_cons_succ]
        exact handOver_seekCursor hlt

end

namespace Medium

/-- What a loop over the slots of directory `dir` ends with. -/
def loopEnd {τ σ : Type} (dir : Inode) (out : Except DecodeError (Option τ) × σ) :
    Except Fault (Option τ) :=
  out.1.mapError fun e => dirFault 0 (.decode dir.ino.toNat e)

theorem lookupBlock_eq_handTo (m : Medium) (dir : Inode) (name : Name) :
    m.lookupBlock dir name =
      m.blockWalk dir >>= fun walk => liftM (loopEnd dir (walk.handTo (seekName name) ())) := by
  refine bind_congr fun walk => ?_
  rw [loopEnd, SlotWalk.handTo, handOver_seekName, walkEnd]
  cases walk.entries.find? (·.name == name) with
  | some e => rfl
  | none => cases walk.stoppedBy <;> rfl

theorem nextBlock_eq_handTo (m : Medium) (dir : Inode) (cursor : DirCursor) :
    m.nextBlock dir cursor = m.blockWalk dir >>= fun walk =>
      liftM ((loopEnd dir (walk.handTo (seekCursor cursor) 0)).map
        (Option.map fun e => (e, cursor + 1))) := by
  refine bind_congr fun walk => ?_
  have hover : (handOver (seekCursor cursor) walk.entries 0).1 =
      walk.entries[cursor]?.map DataEntry.toDirEntry := handOver_seekCursor (Nat.zero_le cursor)
  rw [loopEnd, SlotWalk.handTo, walkEnd]
  generalize handOver (seekCursor cursor) walk.entries 0 = after at hover ⊢
  obtain ⟨found, s⟩ := after
  obtain rfl : found = walk.entries[cursor]?.map DataEntry.toDirEntry := hover
  cases walk.entries[cursor]? with
  | some e => rfl
  | none => cases walk.stoppedBy <;> rfl
end Medium

end XfsVolume
