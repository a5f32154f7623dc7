import Mathlib.Data.List.Forall2
import XfsVolume.Proofs.Directory.Reading

/-!
# What a listing gives

A listing goes from cursor to cursor. `Lists` says which entries a step function gives from a cursor
on until it says that there are no more, and `readAll` succeeds exactly on those. Each format hands
out a list of items in order: `Sequence` states what its steps do at a cursor before which items are
still to come, and then the listing gives what these items resolve to.
-/

namespace XfsVolume

/-- A step of a listing. -/
abbrev ListStep := DirCursor → Except Fault (Option (DirEntry × DirCursor))

/-- `step` gives these entries from a cursor on, and then no more. -/
inductive Lists (step : ListStep) : DirCursor → List DirEntry → Prop
  | done {cursor : DirCursor} (last : step cursor = .ok none) : Lists step cursor []
  | more {cursor next : DirCursor} {entry : DirEntry} {entries : List DirEntry}
      (found : step cursor = .ok (some (entry, next))) (rest : Lists step next entries) :
      Lists step cursor (entry :: entries)

theorem Lists.step_ok {step : ListStep} {cursor : DirCursor} {entries : List DirEntry}
    (h : Lists step cursor entries) : ∃ r, step cursor = .ok r := by
  cases h with
  | done last => exact ⟨_, last⟩
  | more found _ => exact ⟨_, found⟩

theorem Lists.not_of_error {step : ListStep} {cursor : DirCursor} {entries : List DirEntry}
    {e : Fault} (h : step cursor = .error e) : ¬ Lists step cursor entries := by
  intro hl
  obtain ⟨r, hr⟩ := hl.step_ok
  rw [hr] at h
  cases h

theorem Lists.iff_of_last {step : ListStep} {cursor : DirCursor} {entries : List DirEntry}
    (h : step cursor = .ok none) : Lists step cursor entries ↔ entries = [] := by
  constructor
  · intro hl
    cases hl with
    | done _ => rfl
    | more found _ =>
      rw [found] at h
      cases h
  · rintro rfl
    exact .done h

theorem Lists.iff_of_found {step : ListStep} {cursor next : DirCursor} {entry : DirEntry}
    {entries : List DirEntry} (h : step cursor = .ok (some (entry, next))) :
    Lists step cursor entries ↔ ∃ rest, entries = entry :: rest ∧ Lists step next rest := by
  constructor
  · intro hl
    cases hl with
    | done last =>
      rw [last] at h
      cases h
    | more found rest =>
      rw [found] at h
      cases h
      exact ⟨_, rfl, rest⟩
  · rintro ⟨rest, rfl, hrest⟩
    exact .more h hrest

/-- Items handed out one by one: `place` says which items are still to come at a cursor, `resolve`
gives the entry of an item, and `finish` is what comes after the last one. -/
structure Sequence {α : Type} (step : ListStep) (resolve : α → Except Fault DirEntry)
    (finish : Except Fault Unit) (place : DirCursor → List α → Prop) : Prop where
  last : ∀ {cursor}, place cursor [] → step cursor = finish.map fun _ => none
  next : ∀ {cursor item items}, place cursor (item :: items) → ∃ next, place next items ∧
    step cursor = (resolve item).map fun entry => some (entry, next)

/-- A sequence lists what its items resolve to, if all of them do. -/
theorem Sequence.lists_iff {α : Type} {step : ListStep} {resolve : α → Except Fault DirEntry}
    {finish : Except Fault Unit} {place : DirCursor → List α → Prop}
    (h : Sequence step resolve finish place) : ∀ {items : List α} {cursor : DirCursor}
      {entries : List DirEntry}, place cursor items → (Lists step cursor entries ↔
        finish = .ok () ∧ List.Forall₂ (fun item entry => resolve item = .ok entry) items entries)
  | [], cursor, entries, hp => by
      have hstep := h.last hp
      rw [List.forall₂_nil_left_iff]
      cases hf : finish with
      | error e =>
        rw [hf] at hstep
        exact iff_of_false (Lists.not_of_error hstep) fun hok => by cases hok.1
      | ok u =>
        rw [hf] at hstep
        rw [Lists.iff_of_last hstep]
        exact (and_iff_right rfl).symm
  | item :: items, cursor, entries, hp => by
      obtain ⟨next, hnext, hstep⟩ := h.next hp
      rw [List.forall₂_cons_left_iff]
      cases hr : resolve item with
      | error e =>
        rw [hr] at hstep
        refine iff_of_false (Lists.not_of_error hstep) ?_
        rintro ⟨-, entry, rest, hentry, -⟩
        cases hentry
      | ok entry =>
        rw [hr] at hstep
        rw [Lists.iff_of_found hstep]
        constructor
        · rintro ⟨rest, rfl, hrest⟩
          obtain ⟨hf, htail⟩ := (h.lists_iff hnext).mp hrest
          exact ⟨hf, entry, rest, rfl, htail, rfl⟩
        · rintro ⟨hf, _, rest, hentry, htail, rfl⟩
          cases hentry
          exact ⟨rest, rfl, (h.lists_iff hnext).mpr ⟨hf, htail⟩⟩

namespace Medium

variable {m : Medium} {dir : Inode}

/-! ## Whole listings -/

/-- The steps of a listing of the given format. -/
def listStep (m : Medium) (format : DirFormat) (dir : Inode) : ListStep :=
  fun cursor => fresh (m.nextEntryAs format dir cursor)

theorem lists_of_listFrom {dev : Device} {step : DirCursor → CacheM (Option (DirEntry × DirCursor))}
    (hs : ∀ cursor, Steady dev (step cursor)) : ∀ {fuel : Nat} {cursor : DirCursor}
      {acc found : List (DirEntry × DirCursor)},
      fresh (listFrom step fuel cursor acc) = .ok found →
        ∃ entries, Lists (fun cursor => fresh (step cursor)) cursor entries ∧
          found.map Prod.fst = acc.reverse.map Prod.fst ++ entries
  | 0, _, _, _, h => by cases h
  | fuel + 1, cursor, acc, found, h => by
      rw [listFrom, fresh_bind_eq_ok (hs cursor) fun r => by
        rcases r with - | ⟨entry, next⟩
        · exact steady_pure _
        · exact steady_listFrom hs fuel next _] at h
      obtain ⟨r, hr, h⟩ := h
      rcases r with - | ⟨entry, next⟩
      · cases h
        exact ⟨[], .done hr, (List.append_nil _).symm⟩
      · obtain ⟨entries, hl, heq⟩ := lists_of_listFrom hs h
        refine ⟨entry :: entries, .more hr hl, ?_⟩
        rw [heq, List.reverse_cons, List.map_append, List.append_assoc]
        rfl

theorem listFrom_of_lists {dev : Device} {step : DirCursor → CacheM (Option (DirEntry × DirCursor))}
    (hs : ∀ cursor, Steady dev (step cursor)) {cursor : DirCursor} {entries : List DirEntry}
    (h : Lists (fun cursor => fresh (step cursor)) cursor entries) : ∀ (fuel : Nat)
      (acc : List (DirEntry × DirCursor)), entries.length < fuel →
      ∃ found, fresh (listFrom step fuel cursor acc) = .ok found ∧
        found.map Prod.fst = acc.reverse.map Prod.fst ++ entries := by
  induction h with
  | done last =>
    intro fuel acc hlt
    obtain ⟨fuel, rfl⟩ : ∃ k, fuel = k + 1 := ⟨fuel - 1, by omega⟩
    refine ⟨acc.reverse, ?_, (List.append_nil _).symm⟩
    rw [listFrom]
    refine (fresh_bind_ok (hs _) (fun r => ?_) last).trans rfl
    rcases r with - | ⟨entry, next⟩
    · exact steady_pure _
    · exact steady_listFrom hs fuel next _
  | @more cursor next entry entries found _ ih =>
    intro fuel acc hlt
    rw [List.length_cons] at hlt
    obtain ⟨fuel, rfl⟩ : ∃ k, fuel = k + 1 := ⟨fuel - 1, by omega⟩
    obtain ⟨all, hall, heq⟩ := ih fuel ((entry, next) :: acc) (by omega)
    refine ⟨all, ?_, ?_⟩
    · rw [listFrom]
      refine (fresh_bind_ok (hs _) (fun r => ?_) found).trans hall
      rcases r with - | ⟨entry, next⟩
      · exact steady_pure _
      · exact steady_listFrom hs fuel next _
    · rw [heq, List.reverse_cons, List.map_append, List.append_assoc]
      rfl

theorem lists_of_readAll {entries : List DirEntry} (h : fresh (m.readAll dir) = .ok entries) :
    ∃ format, m.dirFormat dir = .ok format ∧ Lists (m.listStep format dir) 0 entries := by
  have hlist (format : DirFormat) :=
    steady_listFrom (m.steady_nextEntryAs format dir) m.listingSteps 0 []
  rw [readAll, fresh_bind_eq_ok (show Steady m.device _ from steady_liftM _) fun format =>
    steady_bind (hlist format) fun _ => steady_pure _] at h
  obtain ⟨format, hformat, h⟩ := h
  rw [fresh_bind_eq_ok (hlist format) fun _ => steady_pure _] at h
  obtain ⟨found, hfound, h⟩ := h
  cases h
  obtain ⟨entries, hl, heq⟩ := lists_of_listFrom (m.steady_nextEntryAs format dir) hfound
  rw [heq]
  exact ⟨format, hformat, hl⟩

theorem readAll_of_lists {format : DirFormat} (hformat : m.dirFormat dir = .ok format)
    {entries : List DirEntry} (h : Lists (m.listStep format dir) 0 entries)
    (hfew : entries.length < m.listingSteps) : fresh (m.readAll dir) = .ok entries := by
  have hlist (format : DirFormat) :=
    steady_listFrom (m.steady_nextEntryAs format dir) m.listingSteps 0 []
  obtain ⟨found, hfound, heq⟩ := 
    listFrom_of_lists (m.steady_nextEntryAs format dir) h m.listingSteps [] hfew
  have hlisted : fresh (m.readAll dir) =
      fresh (listFrom (m.nextEntryAs format dir) m.listingSteps 0 [] >>= fun found =>
        pure (found.map Prod.fst)) := by
    rw [readAll]
    exact fresh_bind_ok (show Steady m.device _ from steady_liftM _) (fun format =>
      steady_bind (hlist format) fun _ => steady_pure _) hformat
  rw [hlisted, fresh_bind_ok (hlist format) (fun _ => steady_pure _) hfound, fresh_pure, heq]
  rfl

/-! ## Inline and block directories -/

/-- An inline directory hands out its listing. -/
theorem sequence_inline {listing : List DirEntry} (h : m.inlineListing dir = .ok listing) :
    Sequence (m.listStep .inline dir) Except.ok (.ok ())
      fun cursor items => items = listing.drop cursor where
  last {cursor} hp := by
    have hnone : listing[cursor]? = none :=
      List.getElem?_eq_none (List.drop_eq_nil_iff.mp hp.symm)
    show m.nextInline dir cursor = _
    rw [nextInline, h, ok_bind, hnone]
    rfl
  next {cursor item items} hp := by
    have hlt : cursor < listing.length := by
      apply Nat.lt_of_not_le
      intro hle
      rw [List.drop_eq_nil_of_le hle] at hp
      cases hp
    rw [List.drop_eq_getElem_cons hlt] at hp
    cases hp
    refine ⟨cursor + 1, rfl, ?_⟩
    show m.nextInline dir cursor = _
    rw [nextInline, h, ok_bind, List.getElem?_eq_getElem hlt]
    rfl

/-- What the end of a walk over a block says of the whole. -/
def SlotWalk.outcome (walk : SlotWalk) (dir : Inode) : Except Fault Unit :=
  match walk.stoppedBy with
  | some e => .error (dirFault 0 (.decode dir.ino.toNat e))
  | none => .ok ()

theorem walkEnd_eq {α : Type} (dir : Inode) (walk : SlotWalk) :
    (walkEnd dir walk : Except Fault (Option α)) = (SlotWalk.outcome walk dir).map fun _ => none := by
  rw [walkEnd, SlotWalk.outcome]
  cases walk.stoppedBy with
  | none => rfl
  | some e => rfl

/-- A block directory hands out the entries of its walk. -/
theorem sequence_block {walk : SlotWalk} (h : fresh (m.blockWalk dir) = .ok walk) :
    Sequence (m.listStep .block dir) (fun e => .ok (DataEntry.toDirEntry e))
      (SlotWalk.outcome walk dir) fun cursor items => items = walk.entries.drop cursor := by
  have hstep (cursor : DirCursor) : m.listStep .block dir cursor =
      walk.entries[cursor]?.elim (walkEnd dir walk)
        fun e => .ok (some (e.toDirEntry, cursor + 1)) := by
    show fresh (m.nextBlock dir cursor) = _
    rw [nextBlock, fresh_bind_ok (m.steady_blockWalk dir) (fun walk => ?_) h]
    · cases walk.entries[cursor]? with
      | some e => rfl
      | none => rfl
    · cases walk.entries[cursor]? with
      | some e => exact steady_pure _
      | none => exact steady_liftM _
  constructor
  · intro cursor hp
    have hnone : walk.entries[cursor]? = none :=
      List.getElem?_eq_none (List.drop_eq_nil_iff.mp hp.symm)
    rw [hstep, hnone]
    exact walkEnd_eq dir walk
  · intro cursor item items hp
    have hlt : cursor < walk.entries.length := by
      apply Nat.lt_of_not_le
      intro hle
      rw [List.drop_eq_nil_of_le hle] at hp
      cases hp
    rw [List.drop_eq_getElem_cons hlt] at hp
    cases hp
    refine ⟨cursor + 1, rfl, ?_⟩
    rw [hstep, List.getElem?_eq_getElem hlt]
    rfl

end Medium

end XfsVolume
