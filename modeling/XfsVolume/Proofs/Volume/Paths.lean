import XfsVolume.Proofs.Volume.History

/-!
# Paths walked component by component

What counts of a path is the list of its non-empty parts. The walk along them takes one step for
each, into the inode that a directory holds under that name (`child`), and hands on what it came to:
so a path that goes on behind another is walked from where the other ends, with the same faults in
the same order, and an inode is found exactly where every name leads on (`Leads`).
-/

namespace XfsVolume

/-! ## Parts of a path -/

def IsAbsolute (path : String) : Prop := path.toList.head? = some '/'

instance (path : String) : Decidable (IsAbsolute path) := inferInstanceAs (Decidable (_ = _))

theorem splitSlash_eq_splitOn (cs : List Char) : splitSlash cs = cs.splitOn '/' := by
  induction cs with
  | nil => rfl
  | cons c cs ih =>
    rw [splitSlash, ih, List.splitOn, List.splitOn, List.splitOnP_cons_eq_if_modifyHead]
    cases hparts : cs.splitOnP (· == '/') with
    | nil => exact absurd hparts (List.splitOnP_ne_nil _ _)
    | cons part parts =>
      dsimp only
      by_cases hc : c = '/'
      · rw [if_pos hc, if_pos (beq_iff_eq.mpr hc)]
      · rw [if_neg hc, if_neg (mt beq_iff_eq.mp hc)]
        rfl

theorem pathComponents_eq (path : String) : pathComponents path =
    ((path.toList.splitOn '/').filter (!·.isEmpty)).map String.ofList := by
  rw [pathComponents, splitSlash_eq_splitOn]

theorem pathComponents_append (p q : String) :
    pathComponents (p ++ "/" ++ q) = pathComponents p ++ pathComponents q := by
  have hparts : (p ++ "/" ++ q).toList.splitOn '/' =
      p.toList.splitOn '/' ++ q.toList.splitOn '/' := by
    rw [String.toList_append, String.toList_append, List.append_assoc]
    exact List.splitOnP_append_cons _ _ rfl
  rw [pathComponents_eq, pathComponents_eq, pathComponents_eq, hparts, List.filter_append,
    List.map_append]

theorem IsAbsolute.append {p : String} (h : IsAbsolute p) (q : String) :
    IsAbsolute (p ++ "/" ++ q) := by
  rw [IsAbsolute] at h ⊢
  rw [String.toList_append, String.toList_append, List.append_assoc, List.head?_append, h]
  rfl

/-! ## Steps -/

namespace Volume

variable {v : Volume}

/-- The inode that `dir` holds under the name of a component, without the cache. -/
def child (v : Volume) (dir : Inode) (component : String) : Except Fault (Nat × Inode) := do
  if !dir.isDirectory then throw .notDirectory
  match ← fresh (v.lookupName dir (nameOfText component)) with
  | none => throw (.notFound component)
  | some (next, _) => return (next, ← v.readInode next)

theorem child_eq_ok {dir inode : Inode} {component : String} {next : Nat} :
    v.child dir component = .ok (next, inode) ↔ dir.isDirectory = true ∧
      (∃ kind, fresh (v.lookupName dir (nameOfText component)) = .ok (some (next, kind))) ∧
      v.readInode next = .ok inode := by
  simp only [child, throw_bind, ite_error_eq_ok, bind_eq_ok, Bool.not_eq_true', Bool.not_eq_false]
  constructor
  · rintro ⟨hdir, - | ⟨ino, kind⟩, hfound, h⟩
    · cases h
    · obtain ⟨child, hread, heq⟩ := bind_eq_ok.mp h
      cases heq
      exact ⟨hdir, ⟨kind, hfound⟩, hread⟩
  · rintro ⟨hdir, ⟨kind, hfound⟩, hread⟩
    exact ⟨hdir, _, hfound, bind_eq_ok.mpr ⟨inode, hread, rfl⟩⟩

def descend (v : Volume) (components : List String) (found : Nat × Inode) :
    Except Fault (Nat × Inode) :=
  components.foldlM (fun found component => v.child found.2 component) found

theorem descend_append (v : Volume) (front back : List String) (found : Nat × Inode) :
    v.descend (front ++ back) found = v.descend front found >>= v.descend back :=
  List.foldlM_append

theorem fresh_walk (v : Volume) : ∀ (components : List String) (ino : Nat) (inode : Inode),
    fresh (v.walk components ino inode) = v.descend components (ino, inode)
  | [], _, _ => rfl
  | component :: rest, ino, inode => by
      rw [descend, List.foldlM_cons, walk, child]
      by_cases hdir : inode.isDirectory = true
      · rw [hdir, Bool.not_true, if_neg Bool.false_ne_true, if_neg Bool.false_ne_true, bind_assoc,
          fresh_bind (v.steady_lookupName inode _) ?_]
        · congr 1
          funext found
          rcases found with - | ⟨next, kind⟩
          · rfl
          · rw [fresh_liftM_bind, bind_assoc]
            congr 1
            funext child
            exact fresh_walk v rest next child
        · rintro (- | ⟨next, kind⟩)
          · exact steady_throw _
          · exact steady_bind (steady_liftM _) fun child => v.steady_walk rest next child
      · rw [Bool.not_eq_true] at hdir
        rw [hdir]
        rfl

theorem fresh_resolve (v : Volume) {path : String} (h : IsAbsolute path) :
    fresh (v.resolve path) =
      v.readInode v.root >>= fun inode => v.descend (pathComponents path) (v.root, inode) := by
  rw [resolve, fresh_guard, if_neg fun hne : path.toList.head? ≠ some '/' => hne h,
    fresh_liftM_bind]
  simp only [fresh_walk]

/-! ## Chains of inodes -/

/-- From inode `ino` the names `components`, one after the other, lead to inode `target`: each inode
on the way decodes, each but the last is a directory, and it holds the next name with the number of
the inode after it. -/
inductive Leads (v : Volume) : Nat → List String → Nat → Prop
  | here {ino : Nat} {inode : Inode} (hread : v.readInode ino = .ok inode) : Leads v ino [] ino
  | step {ino next target : Nat} {dir : Inode} {component : String} {rest : List String}
      {kind : FileKind} (hread : v.readInode ino = .ok dir) (hdir : dir.isDirectory = true)
      (hfound : fresh (v.lookupName dir (nameOfText component)) = .ok (some (next, kind)))
      (hrest : Leads v next rest target) : Leads v ino (component :: rest) target

theorem isDirectory_of_dirFormat {dir : Inode} {format : DirFormat}
    (h : v.dirFormat dir = .ok format) : dir.isDirectory = true := by
  by_contra hdir
  rw [Bool.not_eq_true] at hdir
  rw [Medium.dirFormat, hdir] at h
  cases h

/-- What a block directory names is led to from it. -/
theorem HoldsDir.leads {ino parent next target : Nat} {entries : List (Name × Nat)}
    {component : String} {rest : List String} (h : v.HoldsDir ino parent entries)
    (hentry : (nameOfText component, next) ∈ BuildM.namedInodes ino parent entries)
    (hrest : v.Leads next rest target) : v.Leads ino (component :: rest) target := by
  obtain ⟨dir, hread, hnames⟩ := h
  obtain ⟨kind, hfound⟩ := hnames.found (BlockCache.agrees_withCapacity _ _) _ hentry
  exact .step hread (isDirectory_of_dirFormat hnames.classified) hfound hrest

theorem descend_eq_ok {target : Nat} {inode : Inode} : ∀ {components : List String} {ino : Nat},
    (v.readInode ino >>= fun start => v.descend components (ino, start)) = .ok (target, inode) ↔
      v.Leads ino components target ∧ v.readInode target = .ok inode
  | [], ino => by
      rw [bind_eq_ok]
      constructor
      · rintro ⟨start, hread, heq⟩
        cases heq
        exact ⟨.here hread, hread⟩
      · rintro ⟨hleads, hread⟩
        cases hleads
        exact ⟨inode, hread, rfl⟩
  | component :: rest, ino => by
      simp only [descend, List.foldlM_cons, bind_eq_ok (b := (target, inode))]
      constructor
      · rintro ⟨dir, hread, ⟨next, start⟩, hchild, hrest⟩
        obtain ⟨hdir, ⟨kind, hfound⟩, hnext⟩ := child_eq_ok.mp hchild
        obtain ⟨hleads, hend⟩ := descend_eq_ok.mp (bind_eq_ok.mpr ⟨start, hnext, hrest⟩)
        exact ⟨.step hread hdir hfound hleads, hend⟩
      · rintro ⟨hleads, hend⟩
        cases hleads with
        | step hread hdir hfound hrest =>
          obtain ⟨start, hnext, hgo⟩ := bind_eq_ok.mp (descend_eq_ok.mpr ⟨hrest, hend⟩)
          exact ⟨_, hread, _, child_eq_ok.mpr ⟨hdir, ⟨_, hfound⟩, hnext⟩, hgo⟩

/-! ## Resolution -/

/-- **Paths resolve component by component.** Whatever the volume was asked before, an absolute path
is answered like every other of the same non-empty parts; a path that goes on behind it is answered
with its fault, or with the walk along the further components from the inode that it found; and it
finds an inode exactly if its components lead from the root to that number. -/
theorem resolve_compositional (v : Volume) {p : String} (hp : IsAbsolute p)
    (before : List Question) :
    (∀ (p' : String) (before' : List Question), IsAbsolute p' →
      (p'.toList.splitOn '/').filter (!·.isEmpty) = (p.toList.splitOn '/').filter (!·.isEmpty) →
      v.answer (v.cacheOf before') (.resolve p') = v.answer (v.cacheOf before) (.resolve p)) ∧
    (∀ (q : String) (before' before'' : List Question),
      v.answer (v.cacheOf before') (.resolve (p ++ "/" ++ q)) =
        v.answer (v.cacheOf before) (.resolve p) >>= fun found =>
          ((v.walk (pathComponents q) found.1 found.2).run.run (v.cacheOf before'')).1) ∧
    ∀ (n : Nat) (inode : Inode), v.answer (v.cacheOf before) (.resolve p) = .ok (n, inode) ↔
      v.Leads v.root (pathComponents p) n ∧ v.readInode n = .ok inode := by
  have hanswer : ∀ (path : String) (history : List Question), IsAbsolute path →
      v.answer (v.cacheOf history) (.resolve path) =
        v.readInode v.root >>= fun inode => v.descend (pathComponents path) (v.root, inode) := by
    intro path history hpath
    rw [answer_eq_fresh]
    exact v.fresh_resolve hpath
  refine ⟨?_, ?_, ?_⟩
  · intro p' before' hp' hparts
    rw [hanswer p' before' hp', hanswer p before hp, pathComponents_eq, pathComponents_eq, hparts]
  · intro q before' before''
    rw [hanswer _ before' (hp.append q), hanswer p before hp, pathComponents_append, bind_assoc]
    simp only [descend_append]
    refine bind_congr fun inode => bind_congr fun found => ?_
    rw [(v.steady_walk _ _ _ _ (v.cacheOf_agrees before'')).1, fresh_walk]
  · intro n inode
    rw [hanswer p before hp]
    exact descend_eq_ok

/-- The directory `a`, spelled in two ways, and the path that leads back from there. -/
theorem resolve_threeDirs : ∃ (image : ByteArray) (v : Volume), v.MountedOn image ∧
    IsAbsolute "//a" ∧
      (∃ inode, v.answer (v.cacheOf []) (.resolve "//a") = .ok (9, inode) ∧
        v.answer (v.cacheOf [.listAll 8]) (.resolve "/a/") = .ok (9, inode) ∧
        v.answer (v.cacheOf []) (.resolve ("//a" ++ "/" ++ "/..")) =
          ((v.walk (pathComponents "/..") 9 inode).run.run (v.cacheOf [])).1) ∧
      v.Leads v.root (pathComponents "//a") 9 ∧
      v.Leads v.root (pathComponents ("//a" ++ "/" ++ "/..")) 8 := by
  obtain ⟨image, hmounts⟩ := BuildM.mounts_threeDirs
  obtain ⟨v, hmount, -, hdirs⟩ := hmounts {}
  obtain ⟨top, htop, -⟩ := hdirs.top
  obtain ⟨first, hfirst, -⟩ := hdirs.first
  have hdown : v.Leads 8 ["a"] 9 := hdirs.top.leads (by decide +kernel) (.here hfirst)
  have hback : v.Leads 8 ["a", ".."] 8 := hdirs.top.leads (by decide +kernel)
    (hdirs.first.leads (by decide +kernel) (.here htop))
  have hp : IsAbsolute "//a" := by decide
  have hcomponents : pathComponents "//a" = ["a"] := by decide +kernel
  have hfurther : pathComponents ("//a" ++ "/" ++ "/..") = ["a", ".."] := by decide +kernel
  obtain ⟨hparts, happend, hleads⟩ := resolve_compositional v hp []
  rw [hcomponents, hdirs.root] at hleads
  have hfound : v.answer (v.cacheOf []) (.resolve "//a") = .ok (9, first) :=
    (hleads 9 first).mpr ⟨hdown, hfirst⟩
  refine ⟨image, v, ⟨_, .inl hmount⟩, hp, ⟨first, hfound, ?_, ?_⟩, ?_, ?_⟩
  · rw [hparts "/a/" [.listAll 8] (by decide) (by decide +kernel), hfound]
  · rw [happend "/.." [] [], hfound, ok_bind]
  · rw [hcomponents, hdirs.root]
    exact hdown
  · rw [hfurther, hdirs.root]
    exact hback

end Volume

end XfsVolume
