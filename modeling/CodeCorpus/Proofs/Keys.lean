import CodeCorpus.Listing
import CodeCorpus.Proofs.Separators
import CodeCorpus.Proofs.Settling

/-!
# Paths as keys of listed files

A listed file is known by its path below the root, in which every backslash has become a slash. In a tree where each
node has a place of its own, the places of listed files differ, but their paths may not: a name with a backslash in it
can take the path of a file in a directory.
-/

namespace CodeCorpus

namespace Path

/-- A text that can be a name in a directory. -/
def IsName (name : String) : Prop := name ≠ "" ∧ '/' ∉ name.toList

def AreNames (ps : List String) : Prop := ∀ p ∈ ps, IsName p

instance : DecidablePred IsName := fun _ => inferInstanceAs (Decidable (_ ∧ _))

instance : DecidablePred AreNames := fun ps => inferInstanceAs (Decidable (∀ p ∈ ps, IsName p))

theorem areNames_append {ps qs : List String} : AreNames (ps ++ qs) ↔ AreNames ps ∧ AreNames qs :=
  List.forall_mem_append

theorem areNames_cons {p : String} {ps : List String} : AreNames (p :: ps) ↔ IsName p ∧ AreNames ps :=
  List.forall_mem_cons

theorem areNames_singleton {p : String} : AreNames [p] ↔ IsName p := List.forall_mem_singleton

theorem AreNames.snoc {done rest : List String} {part : String} (hdone : AreNames done)
    (hrest : AreNames (part :: rest)) : AreNames (done ++ [part]) :=
  areNames_append.mpr ⟨hdone, areNames_singleton.mpr (areNames_cons.mp hrest).1⟩

theorem AreNames.dropLast {ps : List String} (h : AreNames ps) : AreNames ps.dropLast :=
  fun p hp => h p ((List.dropLast_sublist ps).subset hp)

/-! ## Paths put together from names -/

theorem not_mem_splitFrom {part cs : List Char} (hpart : '/' ∉ part) : ∀ p ∈ splitFrom part cs, '/' ∉ p.toList := by
  induction cs generalizing part with
  | nil =>
    intro p hp
    rw [List.mem_singleton.mp hp, String.toList_ofList, List.mem_reverse]
    exact hpart
  | cons c cs ih =>
    unfold splitFrom
    by_cases hc : c = '/'
    · rw [if_pos hc]
      intro p hp
      rcases List.mem_cons.mp hp with rfl | hp
      · rw [String.toList_ofList, List.mem_reverse]
        exact hpart
      · exact ih List.not_mem_nil p hp
    · rw [if_neg hc]
      apply ih
      rw [List.mem_cons, not_or]
      exact ⟨Ne.symm hc, hpart⟩

theorem areNames_parts (path : String) : AreNames (parts path) := by
  intro p h
  obtain ⟨hmem, hne⟩ := List.mem_filter.mp h
  rw [Bool.and_eq_true, bne_iff_ne] at hne
  exact ⟨hne.1, not_mem_splitFrom List.not_mem_nil p hmem⟩

/-- A step that stays where it is. -/
def IsStay (step : String) : Prop := step = "" ∨ step = "."

theorem mem_steps {path p : String} (h : p ∈ steps path) : IsStay p ∨ p ∈ parts path := by
  rcases List.mem_append.mp h with h | h
  · exact .inr h
  · rw [Option.mem_toList, Option.filter_eq_some_iff] at h
    exact .inl (by simpa [IsStay] using h.2)

theorem not_mem_intercalate {ps : List String} {c : Char} (hc : c ≠ '/') (h : ∀ p ∈ ps, c ∉ p.toList) :
    c ∉ ("/".intercalate ps).toList := by
  induction ps with
  | nil => simp
  | cons p ps ih =>
    have hhead := h p List.mem_cons_self
    have htail := ih fun q hq => h q (List.mem_cons_of_mem p hq)
    cases ps with
    | nil => rwa [String.intercalate_singleton]
    | cons q ps =>
      rw [String.intercalate_cons_cons, String.toList_append, String.toList_append, List.mem_append, List.mem_append,
        not_or, not_or]
      exact ⟨⟨hhead, by simpa using hc⟩, htail⟩

/-- What is put before a path to take it below another. -/
def stem (base : String) : String :=
  if base.isEmpty then "" else if base.endsWith "/" then base else base ++ "/"

theorem join_eq {base path : String} (h : isAbsolute path = false) : join base path = stem base ++ path := by
  unfold join stem
  rw [h, Bool.false_or]
  by_cases hempty : base.isEmpty
  · rw [if_pos hempty, if_pos hempty, String.empty_append]
  · rw [if_neg hempty, if_neg hempty]
    by_cases hend : base.endsWith "/"
    · rw [if_pos hend, if_pos hend]
    · rw [if_neg hend, if_neg hend]

end Path

/-- Each node has a place of its own, which names lead to. -/
structure FileTree.Sound (t : FileTree) : Prop where
  distinct : (t.nodes.map Prod.fst).Nodup
  names : ∀ e ∈ t.nodes, Path.AreNames e.1

namespace FileTree

open CodeCorpus.Path (AreNames)

variable {t t' : FileTree}

/-! ## Trees that are changed -/

theorem exists_of_bind_eq_ok {ε α β : Type} {x : Except ε α} {f : α → Except ε β} {b : β} (h : (x >>= f) = .ok b) :
    ∃ a, x = .ok a ∧ f a = .ok b := by
  cases x with
  | error e => cases h
  | ok a => exact ⟨a, rfl, h⟩

/-- What holds for the parts of every path holds for those that a path is resolved to, if `follow` goes on to such
parts from where a link has to be followed. -/
theorem forall_resolveUntilLink {P : String → Prop} (hP : ∀ path, ∀ p ∈ Path.parts path, P p) {sought : Sought}
    {follow : List String → List String → Except FileFault (List String)}
    (hfollow : ∀ done rest ps, (∀ p ∈ done, P p) → (∀ p ∈ rest, Path.IsStay p ∨ P p) → follow done rest = .ok ps →
      ∀ p ∈ ps, P p)
    {done rest ps : List String} (hdone : ∀ p ∈ done, P p) (hrest : ∀ p ∈ rest, Path.IsStay p ∨ P p)
    (h : t.resolveUntilLink sought follow done rest = .ok ps) : ∀ p ∈ ps, P p := by
  have hsnoc {done : List String} {part : String} (hdone : ∀ p ∈ done, P p) (hempty : part ≠ "") (hdot : part ≠ ".")
      (hpart : Path.IsStay part ∨ P part) : ∀ p ∈ done ++ [part], P p := by
    rcases hpart with hstay | hpart
    · exact (hstay.elim hempty hdot).elim
    · exact List.forall_mem_append.mpr ⟨hdone, List.forall_mem_singleton.mpr hpart⟩
  fun_induction t.resolveUntilLink sought follow done rest with
  | case1 => exact Except.ok.inj h ▸ hdone
  | case2 _ _ ih | case3 _ _ ih => exact ih hdone (List.forall_mem_cons.mp hrest).2 h
  | case4 done _ ih =>
    exact ih (fun p hp => hdone p ((List.dropLast_sublist done).subset hp)) (List.forall_mem_cons.mp hrest).2 h
  | case5 | case7 | case10 => cases h
  | case6 _ _ _ hempty hdot | case9 _ _ _ hempty hdot | case11 _ _ _ hempty hdot =>
    exact Except.ok.inj h ▸ hsnoc hdone hempty hdot (List.forall_mem_cons.mp hrest).1
  | case8 _ _ _ hempty hdot _ _ _ ih =>
    exact ih (hsnoc hdone hempty hdot (List.forall_mem_cons.mp hrest).1) (List.forall_mem_cons.mp hrest).2 h
  | case12 done _ rest _ _ _ _ target =>
    apply hfollow _ _ _ _ _ h
    · by_cases htarget : Path.isAbsolute target
      · rw [if_pos htarget]
        exact List.forall_mem_nil _
      · rwa [if_neg htarget]
    · exact List.forall_mem_append.mpr
        ⟨fun p hp => (Path.mem_steps hp).imp_right (hP target p), (List.forall_mem_cons.mp hrest).2⟩

theorem forall_resolveFrom {P : String → Prop} (hP : ∀ path, ∀ p ∈ Path.parts path, P p) {sought : Sought}
    {links : Nat} {done rest ps : List String} (hdone : ∀ p ∈ done, P p) (hrest : ∀ p ∈ rest, Path.IsStay p ∨ P p)
    (h : t.resolveFrom sought links done rest = .ok ps) : ∀ p ∈ ps, P p := by
  induction links generalizing done rest ps with
  | zero =>
    apply forall_resolveUntilLink hP _ hdone hrest h
    intro _ _ _ _ _ hnone
    cases hnone
  | succ links ih => exact forall_resolveUntilLink hP (fun _ _ _ hd hr => ih hd hr) hdone hrest h

theorem seek_eq_ok_iff {sought : Sought} {directory path : String} {ps : List String} :
    t.seek sought directory path = .ok ps ↔
      (path ≠ "" ∧ '\x00' ∉ path.toList) ∧
        t.resolveFrom sought linkLimit [] (Path.steps (Path.join directory path)) = .ok ps := by
  unfold seek
  by_cases hempty : path = ""
  · simp [hempty]
  · by_cases hnul : '\x00' ∈ path.toList
    · simp [hempty, hnul]
    · simp [hempty, hnul]

theorem forall_seek {P : String → Prop} (hP : ∀ path, ∀ p ∈ Path.parts path, P p) {sought : Sought}
    {directory path : String} {ps : List String} (h : t.seek sought directory path = .ok ps) : ∀ p ∈ ps, P p :=
  forall_resolveFrom hP (List.forall_mem_nil _) (fun p hp => (Path.mem_steps hp).imp_right (hP _ p))
    (seek_eq_ok_iff.mp h).2

theorem areNames_resolveFrom {sought : Sought} {links : Nat} {done rest ps : List String} (hdone : AreNames done)
    (hrest : AreNames rest) (h : t.resolveFrom sought links done rest = .ok ps) : AreNames ps :=
  forall_resolveFrom Path.areNames_parts hdone (fun p hp => .inr (hrest p hp)) h

end FileTree

namespace FileTree.Sound

open CodeCorpus.Path (AreNames)

variable {t t' : FileTree}

/-! ## Trees that are changed -/

theorem empty : FileTree.Sound {} := ⟨List.nodup_nil, by simp⟩

theorem setNode (ht : t.Sound) {ps : List String} (hps : Path.AreNames ps) (n : FileNode) :
    (t.setNode ps n).Sound := by
  unfold FileTree.setNode
  by_cases h : (t.node? ps).isSome
  · have hkeys : (t.nodes.map fun e => if e.1 == ps then (ps, n) else e).map Prod.fst = t.nodes.map Prod.fst := by
      rw [List.map_map]
      apply List.map_congr_left
      intro e _
      by_cases he : e.1 = ps <;> simp [he]
    rw [if_pos h]
    refine ⟨hkeys ▸ ht.distinct, ?_⟩
    intro e he
    obtain ⟨e', he', hkey⟩ := List.mem_map.mp (hkeys ▸ List.mem_map_of_mem (f := Prod.fst) he)
    exact hkey ▸ ht.names e' he'
  · have hnew : ps ∉ t.nodes.map Prod.fst := by
      intro hmem
      obtain ⟨e, he, rfl⟩ := List.mem_map.mp hmem
      apply h
      unfold node?
      by_cases hroot : e.1.isEmpty
      · rw [if_pos hroot, Option.isSome_some]
      · rw [if_neg hroot, Option.isSome_map, List.find?_isSome]
        exact ⟨e, he, beq_self_eq_true e.1⟩
    rw [if_neg h]
    refine ⟨?_, ?_⟩
    · rw [List.map_append, List.map_singleton, List.nodup_append]
      refine ⟨ht.distinct, List.nodup_singleton _, ?_⟩
      intro k hk k' hk' he
      obtain rfl : k = ps := he.trans (List.mem_singleton.mp hk')
      exact hnew hk
    · intro e he
      rcases List.mem_append.mp he with he | he
      · exact ht.names e he
      · rw [List.mem_singleton.mp he]
        exact hps

theorem makeDirectories (ht : t.Sound) {done rest : List String} (hdone : AreNames done) (hrest : AreNames rest)
    (h : t.makeDirectories done rest = .ok t') : t'.Sound := by
  fun_induction t.makeDirectories done rest with
  | case1 => exact Except.ok.inj h ▸ ht
  | case2 _ _ _ ih => exact ih ht hdone.dropLast (Path.areNames_cons.mp hrest).2 h
  | case3 _ _ _ _ _ _ _ ih =>
    have hpart := hdone.snoc hrest
    exact ih (ht.setNode hpart _) hpart (Path.areNames_cons.mp hrest).2 h
  | case4 _ _ _ _ _ _ _ ih => exact ih ht (hdone.snoc hrest) (Path.areNames_cons.mp hrest).2 h
  | case5 | case7 | case8 => cases h
  | case6 _ _ _ _ _ _ _ _ _ hresolve _ ih =>
    have htarget := areNames_resolveFrom (List.forall_mem_nil _) (hdone.snoc hrest) hresolve
    exact ih ht htarget (Path.areNames_cons.mp hrest).2 h

theorem place (ht : t.Sound) {path : String} {n : FileNode} (h : t.place path n = .ok t') : t'.Sound := by
  have hparts := Path.areNames_parts path
  unfold FileTree.place at h
  obtain ⟨u, hmade, h⟩ := exists_of_bind_eq_ok h
  have hu := ht.makeDirectories (List.forall_mem_nil _) hparts.dropLast hmade
  split at h
  · exact Except.ok.inj h ▸ hu
  · rename_i name hlast
    obtain ⟨directory, hresolve, h⟩ := exists_of_bind_eq_ok h
    have hdirectory := areNames_resolveFrom (List.forall_mem_nil _) hparts.dropLast hresolve
    have hname := Path.areNames_singleton.mpr (hparts name (List.mem_of_getLast? hlast))
    exact Except.ok.inj h ▸ hu.setNode (Path.areNames_append.mpr ⟨hdirectory, hname⟩) n

theorem write (ht : t.Sound) {path : String} {bytes : ByteArray} (h : t.write path bytes = .ok t') : t'.Sound := by
  unfold FileTree.write at h
  obtain ⟨u, hmade, h⟩ := exists_of_bind_eq_ok h
  have hu := ht.makeDirectories (List.forall_mem_nil _) (Path.areNames_parts path).dropLast hmade
  obtain ⟨ps, hplace, h⟩ := exists_of_bind_eq_ok h
  split at h
  · cases h
  · exact Except.ok.inj h ▸ hu.setNode (forall_seek Path.areNames_parts hplace) _

theorem remove (ht : t.Sound) {path : String} (h : t.remove path = .ok t') : t'.Sound := by
  unfold FileTree.remove at h
  obtain ⟨ps, _, h⟩ := exists_of_bind_eq_ok h
  split at h
  · cases h
  · obtain rfl := Except.ok.inj h
    refine ⟨ht.distinct.sublist (List.filter_sublist.map _), ?_⟩
    intro e he
    exact ht.names e (List.mem_of_mem_filter he)

end FileTree.Sound

namespace Walker

/-! ## Listed files -/

/-- The file is at `ps` below the root. -/
structure Lists (w : Walker) (ps : List String) (f : SourceFile) : Prop where
  nonempty : ps ≠ []
  names : Path.AreNames ps
  path : f.path = Path.normalize ("/".intercalate ps)
  file : f.file = Path.join w.root ("/".intercalate ps)

section
variable {w : Walker} {t : FileTree} {ps qs : List String} {f g : SourceFile}

theorem Lists.path_of_not_mem (hf : w.Lists ps f) (h : ∀ p ∈ ps, '\\' ∉ p.toList) :
    f.path = "/".intercalate ps := by
  rw [hf.path]
  apply Path.normalize_of_not_mem
  exact Path.not_mem_intercalate (by decide) h

theorem listed?_lists {base : List String} {n : FileNode} (hps : ps ≠ []) (hnames : Path.AreNames ps)
    (h : w.listed? t base ps n = some f) : w.Lists ps f := by
  unfold listed? at h
  split at h
  · simp only [Option.ite_none_right_eq_some] at h
    obtain rfl := Option.some.inj h.2
    exact ⟨hps, hnames, rfl, rfl⟩
  · cases h

/-- The file that an entry of the tree stands for, if it lies below a directory and is listed. -/
def entry? (w : Walker) (t : FileTree) (base : List String) (e : List String × FileNode) : Option SourceFile :=
  if base.length < e.1.length && base.isPrefixOf e.1 then w.listed? t base (e.1.drop base.length) e.2 else none

theorem entry?_lists (ht : t.Sound) {base : List String} {e : List String × FileNode} (he : e ∈ t.nodes)
    (h : w.entry? t base e = some f) : ∃ ps, e.1 = base ++ ps ∧ w.Lists ps f := by
  unfold entry? at h
  by_cases hbelow : base.length < e.1.length && base.isPrefixOf e.1
  · rw [if_pos hbelow] at h
    rw [Bool.and_eq_true, decide_eq_true_eq, List.isPrefixOf_iff_prefix] at hbelow
    obtain ⟨hlength, ps, hps⟩ := hbelow
    have hnames := ht.names e he
    rw [← hps, Path.areNames_append] at hnames
    rw [← hps, List.drop_left] at h
    rw [← hps, List.length_append] at hlength
    have hne : ps ≠ [] := List.ne_nil_of_length_pos (by omega)
    exact ⟨ps, hps.symm, listed?_lists hne hnames.2 h⟩
  · rw [if_neg hbelow] at h
    cases h

theorem mem_filesBelow (ht : t.Sound) {base : List String} (hf : f ∈ w.filesBelow t base) :
    ∃ ps, (∃ e ∈ t.nodes, e.1 = base ++ ps) ∧ w.Lists ps f := by
  obtain ⟨e, he, hentry⟩ := List.mem_filterMap.mp hf
  obtain ⟨ps, hps, hlists⟩ := entry?_lists ht he hentry
  exact ⟨ps, ⟨e, he, hps⟩, hlists⟩

theorem list_eq {files : List SourceFile} (h : w.list t = .ok files) :
    ∃ base, files = (w.filesBelow t base).mergeSort precedes := by
  unfold list at h
  cases hroot : t.resolve "/" w.root with
  | error e =>
    rw [hroot] at h
    cases h
  | ok base =>
    rw [hroot] at h
    simp only at h
    split at h
    · exact ⟨base, (Except.ok.inj h).symm⟩
    · cases h

end

end Walker

namespace Session

/-- A session with files in and beside a directory. -/
def nested : Session :=
  { tree := ⟨[(["a"], .directory), (["a", "b.cs"], .file (classText "A").toUTF8),
      (["b.cs"], .file (classText "B").toUTF8)]⟩ }

end Session

end CodeCorpus
