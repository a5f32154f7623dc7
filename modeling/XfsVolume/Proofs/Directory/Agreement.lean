import XfsVolume.Proofs.Directory.Chain
import XfsVolume.Proofs.Partition

/-!
# Look-ups agree with listings

In every format a look-up finds the first entry of the listing that has the wanted name, and nothing
when the listing has none. Inline and block directories need nothing for that. The other formats are
searched by hash, so that their index must be in order and its entries must carry the hashes of the
names that they point at (`SearchableAs`).
-/

namespace XfsVolume

/-- What a look-up of `name` finds in a listing. -/
def firstNamed (name : Name) (listing : List DirEntry) : Option (Nat × FileKind) :=
  (listing.find? (·.name == name)).map DirEntry.target

theorem firstNamed_eq_none {name : Name} {listing : List DirEntry}
    (h : ∀ d ∈ listing, d.name ≠ name) : firstNamed name listing = none := by
  rw [firstNamed, List.find?_eq_none.mpr, Option.map_none]
  intro d hd
  simpa using h d hd

theorem firstNamed_append {name : Name} {xs ys : List DirEntry} (h : firstNamed name xs = none) :
    firstNamed name (xs ++ ys) = firstNamed name ys := by
  rw [firstNamed, Option.map_eq_none_iff] at h
  rw [firstNamed, List.find?_append, h, Option.none_or, firstNamed]

theorem firstNamed_append_left {name : Name} {xs ys : List DirEntry} {target : Nat × FileKind}
    (h : firstNamed name xs = some target) : firstNamed name (xs ++ ys) = some target := by
  rw [firstNamed, Option.map_eq_some_iff] at h
  obtain ⟨d, hd, rfl⟩ := h
  rw [firstNamed, List.find?_append, hd, Option.some_or, Option.map_some]

namespace Medium

variable {m : Medium} {dir : Inode}

/-- Live hash entries and the entries that they point at. -/
def Resolves (m : Medium) (dir : Inode) (entries : List HashEntry) (listing : List DirEntry) :
    Prop :=
  List.Forall₂ (fun e d => fresh (m.entryAt dir e.address) = .ok d) (liveEntries entries) listing

/-- The parts of what a list of hash entries in two parts points at. -/
theorem Resolves.split {xs ys : List HashEntry} {listing : List DirEntry}
    (h : m.Resolves dir (xs ++ ys) listing) : ∃ front back, listing = front ++ back ∧
      m.Resolves dir xs front ∧ m.Resolves dir ys back := by
  rw [Resolves, liveEntries_append] at h
  refine ⟨_, _, (List.take_append_drop (liveEntries xs).length listing).symm, ?_, ?_⟩
  · have htake := List.forall₂_take (liveEntries xs).length h
    rwa [List.take_left] at htake
  · have hdrop := List.forall₂_drop (liveEntries xs).length h
    rwa [List.drop_left] at hdrop

theorem Resolves.hashOf {entries : List HashEntry} {listing : List DirEntry}
    (h : m.Resolves dir entries listing) (hh : m.Hashed dir entries) :
    ∀ d ∈ listing, ∃ e ∈ liveEntries entries, nameHash d.name = e.hash := by
  intro d hd
  obtain ⟨i, hi, rfl⟩ := List.getElem_of_mem hd
  have hlen := List.Forall₂.length_eq h
  have hpoint := (List.forall₂_iff_get.mp h).2 i (by omega) hi
  refine ⟨(liveEntries entries)[i], List.getElem_mem _, hh _ (List.getElem_mem _) _ hpoint⟩

theorem Resolves.firstNamed_none {entries : List HashEntry} {listing : List DirEntry}
    (h : m.Resolves dir entries listing) (hh : m.Hashed dir entries) {name : Name}
    (hne : ∀ e ∈ entries, e.hash ≠ nameHash name) : firstNamed name listing = none := by
  apply firstNamed_eq_none
  rintro d hd rfl
  obtain ⟨e, he, hhash⟩ := h.hashOf hh d hd
  exact hne e (List.mem_of_mem_filter he) hhash.symm

theorem Hashed.of_subset {xs ys : List HashEntry} (h : m.Hashed dir ys)
    (hsub : ∀ e ∈ xs, e ∈ ys) : m.Hashed dir xs := by
  intro e he
  apply h
  rw [liveEntries, List.mem_filter] at he ⊢
  exact ⟨hsub e he.1, he.2⟩

/-! ## One leaf -/

/-- What the outcome of searching hash entries means for what they point at. -/
def RunMeans (name : Name) (entries : List HashEntry) (listing : List DirEntry) : HashRun → Prop
  | .found target => firstNamed name listing = some target
  | .missing => firstNamed name listing = none ∧ ∃ e ∈ entries, nameHash name < e.hash
  | .reachedEnd => firstNamed name listing = none

theorem searchRun_eq {name : Name} : ∀ {entries : List HashEntry} {listing : List DirEntry},
    HashSorted entries → (∀ e ∈ entries, nameHash name ≤ e.hash) → m.Hashed dir entries →
      m.Resolves dir entries listing →
      ∃ run, fresh (m.searchRun dir (nameHash name) name entries) = .ok run ∧
        RunMeans name entries listing run
  | [], listing, _, _, _, hr => by
      cases hr
      exact ⟨.reachedEnd, rfl, rfl⟩
  | e :: rest, listing, hs, hge, hh, hr => by
      obtain ⟨hfirst, hsrest⟩ := List.pairwise_cons.mp hs
      have hgrest : ∀ x ∈ rest, nameHash name ≤ x.hash := fun x hx =>
        hge x (List.mem_cons_of_mem _ hx)
      have hhrest : m.Hashed dir rest := hh.of_subset fun x hx => List.mem_cons_of_mem _ hx
      rw [searchRun]
      by_cases hhash : e.hash = nameHash name
      · rw [if_neg (not_not.mpr hhash)]
        cases hstale : e.isStale with
        | true =>
          rw [Resolves, liveEntries_cons_stale hstale] at hr
          obtain ⟨run, hrun, hmeans⟩ := searchRun_eq hsrest hgrest hhrest hr
          refine ⟨run, hrun, ?_⟩
          cases run with
          | found target => exact hmeans
          | missing =>
            obtain ⟨hnone, x, hx, hlt⟩ := hmeans
            exact ⟨hnone, x, List.mem_cons_of_mem _ hx, hlt⟩
          | reachedEnd => exact hmeans
        | false =>
          rw [Resolves, liveEntries_cons_live hstale] at hr
          cases hr with
          | @cons _ d _ listing hpoint htail =>
            obtain ⟨run, hrun, hmeans⟩ := searchRun_eq hsrest hgrest hhrest htail
            rw [if_neg Bool.false_ne_true]
            have hafter (d : DirEntry) : Steady m.device (if d.name = name then
                (pure (HashRun.found d.target) : CacheM HashRun)
              else m.searchRun dir (nameHash name) name rest) :=
              steady_ite (steady_pure _) (m.steady_searchRun dir _ _ rest)
            have hstep := fresh_bind_ok (m.steady_entryAt dir e.address) hafter hpoint
            by_cases hname : d.name = name
            · refine ⟨.found d.target, ?_, ?_⟩
              · refine hstep.trans ?_
                rw [if_pos hname]
                rfl
              · rw [RunMeans, firstNamed, List.find?_cons_of_pos (by simpa using hname)]
                rfl
            · have hskip : firstNamed name (d :: listing) = firstNamed name listing := by
                rw [firstNamed, List.find?_cons_of_neg (by simpa using hname), firstNamed]
              refine ⟨run, ?_, ?_⟩
              · refine hstep.trans ?_
                rw [if_neg hname]
                exact hrun
              · cases run with
                | found target => exact hskip.trans hmeans
                | missing =>
                  obtain ⟨hnone, x, hx, hlt⟩ := hmeans
                  exact ⟨hskip.trans hnone, x, List.mem_cons_of_mem _ hx, hlt⟩
                | reachedEnd => exact hskip.trans hmeans
      · have hlt : ∀ x ∈ e :: rest, nameHash name < x.hash := by
          have he : nameHash name < e.hash :=
            UInt32.lt_of_le_of_ne (hge e List.mem_cons_self) (Ne.symm hhash)
          intro x hx
          rcases List.mem_cons.mp hx with rfl | hx
          · exact he
          · exact UInt32.lt_of_lt_of_le he (hfirst x hx)
        rw [if_pos hhash]
        refine ⟨.missing, rfl, ?_, e, List.mem_cons_self, hlt e List.mem_cons_self⟩
        apply hr.firstNamed_none hh
        intro x hx heq
        exact absurd (hlt x hx) (by rw [heq]; exact UInt32.lt_irrefl _)

theorem searchLeaf_eq (name : Name) {entries : List HashEntry} {listing : List DirEntry}
    (hs : HashSorted entries) (hh : m.Hashed dir entries) (hr : m.Resolves dir entries listing) :
    ∃ run, fresh (m.searchLeaf dir (nameHash name) name entries) = .ok run ∧
      RunMeans name entries listing run := by
  obtain ⟨small, hsmall⟩ : ∃ small : HashEntry → Bool,
      small = fun e : HashEntry => decide (e.hash < nameHash name) := ⟨_, rfl⟩
  have hsplit := List.takeWhile_append_dropWhile (p := small) (l := entries)
  have hdivided : entries.Pairwise fun e e' => small e' = true → small e = true := by
    refine hs.imp fun {e e'} hle hlt => ?_
    rw [hsmall, decide_eq_true_eq] at hlt ⊢
    exact UInt32.lt_of_le_of_lt hle hlt
  have hsdrop : HashSorted (entries.dropWhile small) := hs.sublist (List.dropWhile_sublist _)
  have hge : ∀ e ∈ entries.dropWhile small, nameHash name ≤ e.hash := by
    have hhead := List.head?_dropWhile_not small entries
    rcases hkept : entries.dropWhile small with - | ⟨first, rest⟩
    · intro e he
      cases he
    · rw [hkept] at hhead hsdrop
      have hfirst : nameHash name ≤ first.hash := by
        have hnot : small first = false := by simpa using hhead
        rw [hsmall, decide_eq_false_iff_not] at hnot
        exact UInt32.not_lt.mp hnot
      intro e he
      rcases List.mem_cons.mp he with rfl | he
      · exact hfirst
      · exact UInt32.le_trans hfirst ((List.pairwise_cons.mp hsdrop).1 e he)
  have hr' := hr
  rw [← hsplit] at hr'
  obtain ⟨front, back, rfl, hfront, hback⟩ := hr'.split
  have hnone : firstNamed name front = none := by
    apply hfront.firstNamed_none (hh.of_subset fun e he => (List.takeWhile_sublist _).mem he)
    intro e he heq
    have hlt := List.all_eq_true.mp List.all_takeWhile e he
    rw [hsmall, decide_eq_true_eq, heq] at hlt
    exact UInt32.lt_irrefl _ hlt
  have hdrop : ∀ e ∈ entries.dropWhile small, e ∈ entries := fun e he =>
    (List.dropWhile_sublist _).mem he
  obtain ⟨run, hrun, hmeans⟩ := searchRun_eq hsdrop hge (hh.of_subset hdrop) hback
  refine ⟨run, ?_, ?_⟩
  · rw [searchLeaf, ← hsmall, drop_partitionPoint hdivided]
    exact hrun
  · cases run with
    | found target => exact (firstNamed_append hnone).trans hmeans
    | missing =>
      obtain ⟨hmissing, e, he, hlt⟩ := hmeans
      exact ⟨(firstNamed_append hnone).trans hmissing, e, hdrop e he, hlt⟩
    | reachedEnd => exact (firstNamed_append hnone).trans hmeans

/-! ## The chain -/

theorem fresh_searchChain {leaf : IndexLeaf} (h : m.LeafReads dir leaf) (hash : UInt32)
    (name : Name) (links : Nat) :
    fresh (m.searchChain dir hash name links leaf.fileBlock) = (do
      match ← fresh (m.searchLeaf dir hash name leaf.entries) with
      | .found target => .ok (some target)
      | .missing => .ok none
      | .reachedEnd =>
        if leaf.next = 0 then .ok none
        else
          match links with
          | 0 => .error (dirFault leaf.fileBlock .chainEndless)
          | links + 1 => fresh (m.searchChain dir hash name links leaf.next)) := by
  obtain ⟨header, hread, hnext⟩ := h
  have hzero := next_beq_zero hnext
  rw [searchChain.eq_def]
  refine (fresh_bind_ok (m.steady_readLeaf dir _ _) (fun read =>
    steady_bind (m.steady_searchLeaf dir _ _ _)
      (m.steady_afterSearch dir hash name links leaf.fileBlock read.1)) hread).trans ?_
  refine (fresh_bind (m.steady_searchLeaf dir _ _ _)
    (m.steady_afterSearch dir hash name links leaf.fileBlock header)).trans ?_
  congr 1
  funext run
  cases run with
  | found target => rfl
  | missing => rfl
  | reachedEnd =>
    refine (fresh_ite _ _).trans ?_
    by_cases hn : leaf.next = 0
    · rw [if_pos (hzero.mpr hn)]
      dsimp only
      rw [if_pos hn, fresh_pure]
    · rw [if_neg (mt hzero.mp hn)]
      dsimp only
      rw [if_neg hn]
      cases links with
      | zero => rfl
      | succ links => rw [← hnext]

theorem searchChain_eq {name : Name} : ∀ {rest : List IndexLeaf} {leaf : IndexLeaf} {links : Nat}
    {listing : List DirEntry}, Chained (leaf :: rest) → (∀ l ∈ leaf :: rest, m.IndexLeafAt dir l) →
      HashSorted (chainEntries (leaf :: rest)) → m.Hashed dir (chainEntries (leaf :: rest)) →
      m.Resolves dir (chainEntries (leaf :: rest)) listing → rest.length ≤ links →
      fresh (m.searchChain dir (nameHash name) name links leaf.fileBlock) =
        .ok (firstNamed name listing)
  | rest, leaf, links, listing, hchain, hleaves, hs, hh, hr, hlinks => by
      rw [chainEntries_cons] at hs hh hr
      obtain ⟨front, back, rfl, hfront, hback⟩ := hr.split
      obtain ⟨hsleaf, hsrest, hcross⟩ := List.pairwise_append.mp hs
      obtain ⟨run, hrun, hmeans⟩ := searchLeaf_eq name hsleaf
        (hh.of_subset fun e he => List.mem_append_left _ he) hfront
      rw [fresh_searchChain (hleaves leaf List.mem_cons_self).2, hrun, ok_bind]
      -- after a larger hash in this leaf no leaf behind it has the hash, as the chain is in order
      cases run with
      | found target =>
        rw [firstNamed_append_left hmeans]
      | missing =>
        obtain ⟨hnone, e, he, hlt⟩ := hmeans
        rw [firstNamed_append hnone, hback.firstNamed_none
          (hh.of_subset fun e he => List.mem_append_right _ he)]
        intro x hx heq
        have hle := hcross e he x hx
        rw [heq] at hle
        exact absurd (UInt32.lt_of_lt_of_le hlt hle) (UInt32.lt_irrefl _)
      | reachedEnd =>
        rw [firstNamed_append hmeans]
        dsimp only
        cases rest with
        | nil =>
          cases hback
          have hend : leaf.next = 0 := hchain
          rw [if_pos hend]
          rfl
        | cons next rest =>
          obtain ⟨hne, hlink, htail⟩ := hchain
          obtain ⟨k, rfl⟩ : ∃ k, links = k + 1 :=
            ⟨links - 1, by rw [List.length_cons] at hlinks; omega⟩
          rw [if_neg hne, hlink]
          exact searchChain_eq htail (fun l hl => hleaves l (List.mem_cons_of_mem _ hl)) hsrest
            (hh.of_subset fun e he => List.mem_append_right _ he) hback
            (by rw [List.length_cons] at hlinks; omega)

/-! ## Each format -/

/-- What searching a directory of the given format by hash takes: an index in order, whose live
entries carry the hashes of the names that they point at. -/
def SearchableAs (m : Medium) (dir : Inode) : DirFormat → Prop
  | .inline | .block => True
  | .leaf => ∀ header entries,
      fresh (m.readLeaf dir m.geometry.indexRegion .single) = .ok (header, entries) →
        HashSorted entries ∧ m.Hashed dir entries
  | .node => ∃ leaves, m.HashIndex dir leaves

theorem lookupInline_eq {name : Name} {listing : List DirEntry}
    (h : Lists (m.listStep .inline dir) 0 listing) :
    m.lookupInline dir name = .ok (firstNamed name listing) := by
  obtain ⟨r, hr⟩ := h.step_ok
  have hr : m.nextInline dir 0 = .ok r := hr
  rw [nextInline, bind_eq_ok] at hr
  obtain ⟨all, hall, -⟩ := hr
  obtain ⟨-, hsame⟩ := ((sequence_inline hall).lists_iff rfl).mp h
  have heq : all = listing := List.forall₂_eq_eq_eq ▸ hsame.imp fun _ _ h => Except.ok.inj h
  rw [lookupInline, hall, heq]
  rfl

theorem lookupBlock_eq {name : Name} {listing : List DirEntry}
    (h : Lists (m.listStep .block dir) 0 listing) :
    fresh (m.lookupBlock dir name) = .ok (firstNamed name listing) := by
  obtain ⟨r, hr⟩ := h.step_ok
  have hr : fresh (m.nextBlock dir 0) = .ok r := hr
  rw [nextBlock, fresh_bind_eq_ok (m.steady_blockWalk dir) fun walk => by
    cases walk.entries[0]? with
    | some e => exact steady_pure _
    | none => exact steady_liftM _] at hr
  obtain ⟨walk, hwalk, -⟩ := hr
  obtain ⟨hend, hsame⟩ := ((sequence_block hwalk).lists_iff rfl).mp h
  rw [List.drop_zero] at hsame
  have heq : walk.entries.map DataEntry.toDirEntry = listing := by
    rw [← List.forall₂_eq_eq_eq, List.forall₂_map_left_iff]
    exact hsame.imp fun _ _ h => Except.ok.inj h
  rw [lookupBlock]
  refine (fresh_bind_ok (m.steady_blockWalk dir) (fun walk => ?_) hwalk).trans ?_
  · cases walk.entries.find? (·.name == name) with
    | some e => exact steady_pure _
    | none => exact steady_liftM _
  rw [← heq, firstNamed, List.find?_map]
  have hfind : walk.entries.find? (fun e => ((fun d : DirEntry => d.name == name) ∘
      DataEntry.toDirEntry) e) = walk.entries.find? (·.name == name) := rfl
  rw [hfind]
  cases walk.entries.find? (·.name == name) with
  | some e => rfl
  | none =>
    rw [walkEnd_eq, hend]
    rfl

theorem lookupLeaf_eq {name : Name} {listing : List DirEntry} (hs : m.SearchableAs dir .leaf)
    (h : Lists (m.listStep .leaf dir) 0 listing) :
    fresh (m.lookupLeaf dir name) = .ok (firstNamed name listing) := by
  have hafter (run : HashRun) : Steady m.device (match run with
      | .found target => (pure (some target) : CacheM (Option (Nat × FileKind)))
      | .missing => pure none
      | .reachedEnd => pure none) := by
    cases run with
    | found target => exact steady_pure _
    | missing => exact steady_pure _
    | reachedEnd => exact steady_pure _
  obtain ⟨r, hr⟩ := h.step_ok
  have hr : fresh (m.nextLeaf dir 0) = .ok r := hr
  rw [nextLeaf, fresh_bind_eq_ok (m.steady_readLeaf dir _ _) fun leaf =>
    steady_bind (m.steady_liveEntryFrom dir _ _) fun found => by
      rcases found with - | ⟨entry, slot⟩
      · exact steady_pure _
      · exact steady_pure _] at hr
  obtain ⟨⟨header, entries⟩, hread, -⟩ := hr
  obtain ⟨-, hpoints⟩ := ((sequence_leaf hread).lists_iff rfl).mp h
  rw [List.drop_zero] at hpoints
  obtain ⟨hsorted, hhashed⟩ := hs header entries hread
  obtain ⟨run, hrun, hmeans⟩ := searchLeaf_eq name hsorted hhashed hpoints
  rw [lookupLeaf]
  refine (fresh_bind_ok (m.steady_readLeaf dir _ _) (fun leaf =>
    steady_bind (m.steady_searchLeaf dir _ _ _) hafter) hread).trans ?_
  refine (fresh_bind_ok (m.steady_searchLeaf dir _ _ _) hafter hrun).trans ?_
  cases run with
  | found target =>
    rw [hmeans]
    rfl
  | missing =>
    rw [hmeans.1]
    rfl
  | reachedEnd =>
    rw [hmeans]
    rfl

theorem lookupNode_eq {name : Name} {listing : List DirEntry} (hs : m.SearchableAs dir .node)
    (h : Lists (m.listStep .node dir) 0 listing) :
    fresh (m.lookupNode dir name) = .ok (firstNamed name listing) := by
  obtain ⟨leaves, hindex⟩ := hs
  have hpoints : m.Resolves dir (chainEntries leaves) listing := by
    have hall := ((sequence_node hindex).lists_iff (Or.inl ⟨rfl, rfl⟩)).mp h
    rw [remaining_zero] at hall
    exact hall.2
  obtain ⟨pre, leaf, post, rfl, hpre, hrun⟩ :=
    indexLeaf_eq (indexChoice_childFor (nameHash name)) hindex
  have hfew := hindex.few
  rw [List.length_append, List.length_cons] at hfew
  have hsorted := hindex.sorted
  have hhashed := hindex.hashed
  rw [chainEntries_append] at hpoints hsorted hhashed
  obtain ⟨front, back, rfl, hfront, hback⟩ := hpoints.split
  have hnone : firstNamed name front = none := by
    apply hfront.firstNamed_none (hhashed.of_subset fun e he => List.mem_append_left _ he)
    intro e he heq
    have hlt := hpre e he
    rw [heq] at hlt
    exact UInt32.lt_irrefl _ hlt
  rw [lookupNode, firstNamed_append hnone]
  refine (fresh_bind_ok (m.steady_indexLeaf dir _) (fun fb => m.steady_searchChain dir _ _ _ _)
    hrun).trans ?_
  exact searchChain_eq hindex.chained.suffix
    (fun l hl => hindex.leafAt l (List.mem_append_right _ hl))
    (List.pairwise_append.mp hsorted).2.1
    (hhashed.of_subset fun e he => List.mem_append_right _ he) hback (by omega)

/-! ## Any directory -/

theorem fresh_lookupName {format : DirFormat} {listing : List DirEntry} {name : Name}
    (hformat : m.dirFormat dir = .ok format) (hs : m.SearchableAs dir format)
    (h : Lists (m.listStep format dir) 0 listing) (hne : name ≠ [])
    (hlen : name.length ≤ maxNameLength) :
    fresh (m.lookupName dir name) = .ok (firstNamed name listing) := by
  have hempty : name.isEmpty = false := by rwa [List.isEmpty_eq_false_iff]
  rw [lookupName, if_neg (Nat.not_lt.mpr hlen), hempty]
  refine (fresh_liftM_bind _ _).trans ?_
  rw [hformat, ok_bind]
  cases format with
  | inline => exact lookupInline_eq h
  | block => exact lookupBlock_eq h
  | leaf => exact lookupLeaf_eq hs h
  | node => exact lookupNode_eq hs h

/-- **Look-ups agree with listings.** Where a directory is listed, a look-up of any name gives the
first entry of the listing with that name, and nothing exactly where the listing has none; whatever
the caches keep that either goes through. -/
theorem lookup_agrees_with_listing {c c' : BlockCache} (hc : c.Agrees m.device)
    (hc' : c'.Agrees m.device) {listing : List DirEntry}
    (hlisting : ((m.readAll dir).run.run c).1 = .ok listing)
    (hs : ∀ format, m.dirFormat dir = .ok format → m.SearchableAs dir format) {name : Name}
    (hne : name ≠ []) (hlen : name.length ≤ maxNameLength) :
    ((m.lookupName dir name).run.run c').1 = .ok (firstNamed name listing) ∧
      (firstNamed name listing = none ↔ ∀ d ∈ listing, d.name ≠ name) := by
  rw [(m.steady_readAll dir c hc).1] at hlisting
  obtain ⟨format, hformat, hlists⟩ := lists_of_readAll hlisting
  refine ⟨?_, ?_, firstNamed_eq_none⟩
  · rw [(m.steady_lookupName dir name c' hc').1]
    exact fresh_lookupName hformat (hs format hformat) hlists hne hlen
  · intro hnone d hd hname
    rw [firstNamed, Option.map_eq_none_iff, List.find?_eq_none] at hnone
    exact hnone d hd (by simpa using hname)

/-! ### A small node directory -/

def smallIndex (next magic count more : Nat) (numbers : List Nat) : List UInt8 :=
  beBytes 4 next ++ beBytes 4 0 ++ beBytes 2 magic ++ beBytes 2 0 ++ beBytes 2 count ++
    beBytes 2 more ++ numbers.flatMap (beBytes 4) ++ List.replicate (48 - 4 * numbers.length) 0

def smallData : List UInt8 :=
  beBytes 4 DataKind.indexed.magic.toNat ++ List.replicate 12 0 ++
    beBytes 8 11 ++ [1, 0x61] ++ List.replicate 4 0 ++ beBytes 2 16 ++
    beBytes 8 12 ++ [1, 0x62] ++ List.replicate 4 0 ++ beBytes 2 32 ++ List.replicate 16 0

/-- A node over two leaves; the run of one hash ends the first leaf, stale, and starts the second. -/
def smallDir : Medium where
  device := ⟨⟨⟨smallData ++ smallIndex 0 nodeMagic.toNat 2 1 [0x62, 5, 0x62, 6] ++
    smallIndex 6 LeafKind.chained.magic.toNat 2 1 [0x61, 2, 0x62, 0] ++
    smallIndex 0 LeafKind.chained.magic.toNat 1 0 [0x62, 4]⟩⟩, 64⟩
  geometry := {
    blockSize := 64, blockLog := 33, dataBlocks := 4, agBlocks := 4, agBlockLog := 2, agCount := 1
    inodeSize := 0, inodeLog := 0, inodesPerBlockLog := 0, dirBlockLog := 0, dirBlockSize := 64
    rootIno := 0, isV5 := false, hasFtype := false }

def smallDirInode : Inode where
  ino := 3
  mode := 0x4000
  version := 2
  format := .extents
  uid := 0
  gid := 0
  nlink := 1
  atime := ⟨0, 0⟩
  mtime := ⟨0, 0⟩
  ctime := ⟨0, 0⟩
  crtime := none
  size := 64
  blocks := 4
  extentSize := 0
  extents := 2
  attrExtents := 0
  forkOffset := 0
  attrFormat := 0
  flags := 0
  flags2 := 0
  generation := 0
  fork := (Extent.encode ⟨0, 0, 1, false⟩ ++ Extent.encode ⟨4, 1, 3, false⟩).toByteArray

def smallLeaves : List IndexLeaf :=
  [⟨5, 6, [⟨0x61, 2⟩, ⟨0x62, 0⟩]⟩, ⟨6, 0, [⟨0x62, 4⟩]⟩]

theorem smallDir_index : smallDir.HashIndex smallDirInode smallLeaves where
  tree := by
    refine ⟨1, ⟨false, 0, 0, 1, [⟨0x62, 5⟩, ⟨0x62, 6⟩]⟩, [[_], [_]], by decide +kernel, rfl, ?_, rfl⟩
    refine .cons ⟨⟨_, rfl, ?_, rfl⟩, by decide⟩ (.cons ⟨⟨_, rfl, ?_, rfl⟩, by decide⟩ .nil)
    · exact ⟨by decide, ⟨.chained, false, 6, 0, 2, 1⟩, by decide +kernel, rfl⟩
    · exact ⟨by decide, ⟨.chained, false, 0, 0, 1, 0⟩, by decide +kernel, rfl⟩
  chained := ⟨by decide, rfl, rfl⟩
  sorted := by
    show List.Pairwise _ _
    decide
  hashed := by
    have ha : fresh (smallDir.entryAt smallDirInode 2) = .ok ⟨11, [0x61], .unknown⟩ := by
      decide +kernel
    have hb : fresh (smallDir.entryAt smallDirInode 4) = .ok ⟨12, [0x62], .unknown⟩ := by
      decide +kernel
    intro e he d hd
    have he : e ∈ [(⟨0x61, 2⟩ : HashEntry), ⟨0x62, 4⟩] := he
    rcases List.mem_cons.mp he with rfl | he
    · cases ha.symm.trans hd
      decide
    · cases List.mem_singleton.mp he
      cases hb.symm.trans hd
      decide
  few := by decide

/-- `b`, whose run of hashes starts with a stale entry at the end of one leaf and goes on in the
next. -/
theorem lookup_smallDir :
    (BlockCache.withCapacity 2).Agrees smallDir.device ∧
      ((smallDir.readAll smallDirInode).run.run (BlockCache.withCapacity 2)).1 =
        .ok [⟨11, [0x61], .unknown⟩, ⟨12, [0x62], .unknown⟩] ∧
      (∀ format, smallDir.dirFormat smallDirInode = .ok format →
        smallDir.SearchableAs smallDirInode format) ∧
      ((smallDir.lookupName smallDirInode [0x62]).run.run (BlockCache.withCapacity 2)).1 =
        .ok (some (12, .unknown)) := by
  have hagrees := BlockCache.agrees_withCapacity 2 smallDir.device
  have hlisting : ((smallDir.readAll smallDirInode).run.run (BlockCache.withCapacity 2)).1 =
      .ok [⟨11, [0x61], .unknown⟩, ⟨12, [0x62], .unknown⟩] := by decide +kernel
  have hnode : smallDir.dirFormat smallDirInode = .ok .node := by decide +kernel
  have hs : ∀ format, smallDir.dirFormat smallDirInode = .ok format →
      smallDir.SearchableAs smallDirInode format := by
    intro format hformat
    cases hnode.symm.trans hformat
    exact ⟨smallLeaves, smallDir_index⟩
  refine ⟨hagrees, hlisting, hs, ?_⟩
  exact (lookup_agrees_with_listing hagrees hagrees hlisting hs (by decide) (by decide)).1

end Medium

end XfsVolume
