import CodeCorpus.Proofs.Keys

/-!
# Files that are written

What a path leads to in a file tree is kept when nodes are added and when files get other bytes. A file that is
written is read back (`FileTree.read_of_write`), and none is written or read where a path ends with a separator or `.`
(`FileTree.directories_only`).
-/

namespace CodeCorpus

/-- The nodes are the same but for the bytes of files. -/
inductive FileNode.Alike : FileNode → FileNode → Prop
  | file (bytes bytes' : ByteArray) : Alike (.file bytes) (.file bytes')
  | directory : Alike .directory .directory
  | link (target : String) : Alike (.link target) (.link target)

theorem FileNode.Alike.refl : (n : FileNode) → n.Alike n
  | .file bytes => .file bytes bytes
  | .directory => .directory
  | .link target => .link target

theorem FileNode.Alike.trans {m n o : FileNode} (h : m.Alike n) (h' : n.Alike o) : m.Alike o := by
  cases h <;> cases h' <;> constructor

namespace FileTree

variable {t u v : FileTree} {sought : Sought} {ps qs : List String} {n : FileNode}

/-! ## Nodes -/

theorem node?_eq (hps : ps ≠ []) : t.node? ps = (t.nodes.find? fun e => e.1 == ps).map Prod.snd := by
  have hroot : ps.isEmpty = false := by simpa using hps
  rw [node?, hroot]
  rfl

theorem node?_setNode_self (hps : ps ≠ []) (n : FileNode) : (t.setNode ps n).node? ps = some n := by
  rw [node?_eq hps, setNode]
  by_cases h : (t.node? ps).isSome
  · have hkey : ((fun e : List String × FileNode => e.1 == ps) ∘ fun e => if e.1 == ps then (ps, n) else e) =
        fun e => e.1 == ps := by
      funext e
      by_cases he : e.1 = ps <;> simp [he]
    rw [node?_eq hps, Option.isSome_map] at h
    obtain ⟨e, he⟩ := Option.isSome_iff_exists.mp h
    have hfound := List.find?_some he
    rw [if_pos (by rw [node?_eq hps, he]; rfl), List.find?_map, hkey, he]
    simp only [Option.map_some, hfound, if_true]
  · rw [if_neg h]
    rw [node?_eq hps, Option.isSome_map, Bool.not_eq_true, Option.isSome_eq_false_iff, Option.isNone_iff_eq_none] at h
    simp [List.find?_append, h]

theorem node?_setNode_of_ne (h : qs ≠ ps) (n : FileNode) : (t.setNode ps n).node? qs = t.node? qs := by
  by_cases hqs : qs = []
  · rw [hqs]
    rfl
  rw [node?_eq hqs, node?_eq hqs, setNode]
  split
  · have hkey : ((fun e : List String × FileNode => e.1 == qs) ∘ fun e => if e.1 == ps then (ps, n) else e) =
        fun e => e.1 == qs := by
      funext e
      by_cases he : e.1 = ps
      · simp [he]
      · simp [he]
    rw [List.find?_map, hkey, Option.map_map]
    cases hfound : t.nodes.find? fun e => e.1 == qs with
    | none => rfl
    | some e =>
      have he : e.1 = qs := by simpa using List.find?_some hfound
      simp [he, h]
  · have hnew : ((ps, n).1 == qs) = false := by simpa using h.symm
    simp [List.find?_append, hnew]

/-! ## One part of a path -/

section
variable {follow : List String → List String → Except FileFault (List String)} {done rest : List String}
  {part target : String} {bytes : ByteArray} (hempty : part ≠ "") (hdot : part ≠ ".") (hup : part ≠ "..")
include hempty hdot hup

theorem resolveUntilLink_directory (h : t.node? (done ++ [part]) = some .directory) :
    t.resolveUntilLink .node follow done (part :: rest) = t.resolveUntilLink .node follow (done ++ [part]) rest := by
  simp [resolveUntilLink, h]

theorem resolveUntilLink_file (h : t.node? (done ++ [part]) = some (.file bytes)) :
    t.resolveUntilLink .node follow done (part :: rest) =
      if rest.isEmpty then .ok (done ++ [part]) else .error .notADirectory := by
  simp [resolveUntilLink, h]

theorem resolveUntilLink_link (h : t.node? (done ++ [part]) = some (.link target)) :
    t.resolveUntilLink .node follow done (part :: rest) =
      follow (if Path.isAbsolute target then [] else done) (Path.steps target ++ rest) := by
  simp [resolveUntilLink, h]

end

/-! ## What a path leads to -/

/-- A directory can be entered, and so can all those around it. -/
def Entered (t : FileTree) (done : List String) : Prop := ∀ qs, qs <+: done → t.node? qs = some .directory

theorem entered_nil : t.Entered [] := by
  intro qs h
  rw [List.prefix_nil.mp h]
  rfl

theorem Entered.snoc {done : List String} {part : String} (h : t.Entered done)
    (hnode : t.node? (done ++ [part]) = some .directory) : t.Entered (done ++ [part]) := by
  intro qs hqs
  rcases List.prefix_concat_iff.mp hqs with rfl | hqs
  · exact hnode
  · exact h qs hqs

theorem Entered.dropLast {done : List String} (h : t.Entered done) : t.Entered done.dropLast :=
  fun qs hqs => h qs (hqs.trans (List.dropLast_prefix done))

/-- The last step, if there is one, does not stay where it is. -/
def LastMoves (rest : List String) : Prop := ∀ step ∈ rest.getLast?, ¬ Path.IsStay step

instance : DecidablePred Path.IsStay := fun _ => inferInstanceAs (Decidable (_ ∨ _))

instance : DecidablePred LastMoves := fun rest => inferInstanceAs (Decidable (∀ step ∈ rest.getLast?, _))

/-- What steps may lead to: a directory, or else a file, unless they end with one that stays. What is sought as the
place of a file need not be there. -/
def Reaches (t : FileTree) (sought : Sought) (rest ps : List String) : Prop :=
  t.node? ps = some .directory ∨
    LastMoves rest ∧ ((∃ bytes, t.node? ps = some (.file bytes)) ∨ sought = .place ∧ t.node? ps = none)

theorem Reaches.of_append {step : String} (steps : List String) {rest : List String}
    (hrest : rest = [] → ¬ Path.IsStay step) (h : t.Reaches sought (steps ++ rest) ps) :
    t.Reaches sought (step :: rest) ps := by
  refine h.imp_right (And.imp_left fun hmoves => ?_)
  cases rest with
  | nil => simpa [LastMoves] using hrest rfl
  | cons next rest => simpa [LastMoves] using hmoves

theorem Reaches.cons {step : String} {rest : List String} (hrest : rest = [] → ¬ Path.IsStay step)
    (h : t.Reaches sought rest ps) : t.Reaches sought (step :: rest) ps :=
  Reaches.of_append [] hrest h

theorem resolveUntilLink_reaches (hsought : sought ≠ .entry)
    {follow : List String → List String → Except FileFault (List String)}
    (hfollow : ∀ done rest, t.Entered done → follow done rest = .ok ps → t.Reaches sought rest ps)
    {done rest : List String} (hdone : t.Entered done) (h : t.resolveUntilLink sought follow done rest = .ok ps) :
    t.Reaches sought rest ps := by
  have hplain {part : String} (hempty : part ≠ "") (hdot : part ≠ ".") : ¬ Path.IsStay part := by
    simp [Path.IsStay, hempty, hdot]
  fun_induction t.resolveUntilLink sought follow done rest with
  | case1 done =>
    obtain rfl := Except.ok.inj h
    exact .inl (hdone _ (List.prefix_refl _))
  | case2 done rest ih | case3 done rest ih =>
    cases rest with
    | nil =>
      -- the steps end here, so they lead to the directory that was entered last
      obtain rfl := Except.ok.inj (resolveUntilLink.eq_1 .. ▸ h)
      exact .inl (hdone _ (List.prefix_refl _))
    | cons next rest => exact (ih hdone h).cons fun hnil => absurd hnil (List.cons_ne_nil _ _)
  | case4 done rest ih => exact (ih hdone.dropLast h).cons fun _ => by simp [Path.IsStay]
  | case5 | case7 | case10 => cases h
  | case6 done part rest hempty hdot hup hopen hnode hlast =>
    obtain ⟨hplace, hrest⟩ := Bool.and_eq_true_iff.mp hlast
    obtain rfl := List.isEmpty_iff.mp hrest
    obtain rfl := Except.ok.inj h
    exact .inr ⟨by simpa [LastMoves] using hplain hempty hdot, .inr ⟨by simpa using hplace, hnode⟩⟩
  | case8 done part rest hempty hdot hup hopen hnode ih =>
    exact (ih (hdone.snoc hnode) h).cons fun _ => hplain hempty hdot
  | case9 done part rest hempty hdot hup hopen bytes hnode hlast =>
    obtain rfl := List.isEmpty_iff.mp hlast
    obtain rfl := Except.ok.inj h
    exact .inr ⟨by simpa [LastMoves] using hplain hempty hdot, .inl ⟨bytes, hnode⟩⟩
  | case11 done part rest hempty hdot hup hopen target hnode hlast =>
    exact absurd (Bool.and_eq_true_iff.mp hlast).1 (by simpa using hsought)
  | case12 done part rest hempty hdot hup hopen target hnode hlast =>
    refine (hfollow _ _ ?_ h).of_append _ fun _ => hplain hempty hdot
    by_cases htarget : Path.isAbsolute target
    · rw [if_pos htarget]
      exact entered_nil
    · rwa [if_neg htarget]

theorem resolveFrom_reaches (hsought : sought ≠ .entry) {links : Nat} {done rest : List String}
    (hdone : t.Entered done) (h : t.resolveFrom sought links done rest = .ok ps) : t.Reaches sought rest ps := by
  induction links generalizing done rest with
  | zero =>
    refine resolveUntilLink_reaches hsought ?_ hdone h
    intro _ _ _ hnone
    cases hnone
  | succ links ih => exact resolveUntilLink_reaches hsought (fun _ _ => ih) hdone h

/-! ## What is kept -/

/-- Every node is still there, but files may have other bytes. -/
def Keeps (t u : FileTree) : Prop := ∀ ps n, t.node? ps = some n → ∃ m, u.node? ps = some m ∧ n.Alike m

namespace Keeps

theorem refl (t : FileTree) : t.Keeps t := fun _ n h => ⟨n, h, .refl n⟩

theorem trans (h : t.Keeps u) (h' : u.Keeps v) : t.Keeps v := by
  intro ps n hn
  obtain ⟨m, hm, halike⟩ := h ps n hn
  obtain ⟨o, ho, halike'⟩ := h' ps m hm
  exact ⟨o, ho, halike.trans halike'⟩

theorem directory (h : t.Keeps u) (hps : t.node? ps = some .directory) : u.node? ps = some .directory := by
  obtain ⟨m, hm, halike⟩ := h ps _ hps
  cases halike
  exact hm

theorem link (h : t.Keeps u) {target : String} (hps : t.node? ps = some (.link target)) :
    u.node? ps = some (.link target) := by
  obtain ⟨m, hm, halike⟩ := h ps _ hps
  cases halike
  exact hm

theorem setNode {n : FileNode} (h : ∀ m, t.node? ps = some m → m.Alike n) : t.Keeps (t.setNode ps n) := by
  intro qs m hm
  by_cases hqs : qs = ps
  · subst hqs
    by_cases hroot : qs = []
    · subst hroot
      exact ⟨m, hm, .refl m⟩
    · exact ⟨n, node?_setNode_self hroot n, h m hm⟩
  · exact ⟨m, (node?_setNode_of_ne hqs n).trans hm, .refl m⟩

theorem setNode_of_none (h : t.node? ps = none) : t.Keeps (t.setNode ps n) := by
  apply setNode
  simp [h]

/-- A path leads to the same node, and a path to the place of a file leads to the file once it is there. -/
theorem resolveUntilLink (h : t.Keeps u) (hsought : sought ≠ .entry)
    (hfile : sought = .place → ∃ bytes, u.node? ps = some (.file bytes))
    {follow follow' : List String → List String → Except FileFault (List String)}
    (hfollow : ∀ done rest, follow done rest = .ok ps → follow' done rest = .ok ps) {done rest : List String}
    (hps : t.resolveUntilLink sought follow done rest = .ok ps) :
    u.resolveUntilLink .node follow' done rest = .ok ps := by
  fun_induction t.resolveUntilLink sought follow done rest with
  | case1 => simpa [FileTree.resolveUntilLink] using hps
  | case2 _ _ ih | case3 _ _ ih | case4 _ _ ih => simpa [FileTree.resolveUntilLink] using ih hps
  | case5 | case7 | case10 => cases hps
  | case6 done part rest hempty hdot hup hopen hnode hlast =>
    obtain ⟨hplace, hrest⟩ := Bool.and_eq_true_iff.mp hlast
    obtain rfl := Except.ok.inj hps
    obtain ⟨bytes, hbytes⟩ := hfile (by simpa using hplace)
    rw [resolveUntilLink_file hempty hdot hup hbytes, if_pos hrest]
  | case8 done part rest hempty hdot hup hopen hnode ih =>
    rw [resolveUntilLink_directory hempty hdot hup (h.directory hnode)]
    exact ih hps
  | case9 done part rest hempty hdot hup hopen bytes hnode hlast =>
    obtain ⟨_, hm, ⟨⟩⟩ := h _ _ hnode
    rw [resolveUntilLink_file hempty hdot hup hm, if_pos hlast]
    exact hps
  | case11 done part rest hempty hdot hup hopen target hnode hlast =>
    exact absurd (Bool.and_eq_true_iff.mp hlast).1 (by simpa using hsought)
  | case12 done part rest hempty hdot hup hopen target hnode hlast =>
    rw [resolveUntilLink_link hempty hdot hup (h.link hnode)]
    exact hfollow _ _ hps

theorem resolveFrom (h : t.Keeps u) (hsought : sought ≠ .entry)
    (hfile : sought = .place → ∃ bytes, u.node? ps = some (.file bytes)) {links : Nat} {done rest : List String}
    (hps : t.resolveFrom sought links done rest = .ok ps) : u.resolveFrom .node links done rest = .ok ps := by
  induction links generalizing done rest with
  | zero =>
    refine h.resolveUntilLink hsought hfile ?_ hps
    intro _ _ hnone
    cases hnone
  | succ links ih => exact h.resolveUntilLink hsought hfile (fun _ _ => ih) hps

theorem makeDirectories {done rest : List String} (h : t.makeDirectories done rest = .ok u) : t.Keeps u := by
  fun_induction t.makeDirectories done rest with
  | case1 t => exact Except.ok.inj h ▸ refl t
  | case2 _ _ _ ih => exact ih h
  | case3 _ _ _ _ _ _ hnode ih => exact (setNode_of_none hnode).trans (ih h)
  | case4 _ _ _ _ _ _ _ ih => exact ih h
  | case5 | case7 | case8 => cases h
  | case6 _ _ _ _ _ _ _ _ _ _ _ ih => exact ih h

end Keeps

/-- Directories that were made need not be made again. -/
theorem makeDirectories_again {done rest : List String} (h : t.makeDirectories done rest = .ok u) (huv : u.Keeps v) :
    v.makeDirectories done rest = .ok v := by
  fun_induction t.makeDirectories done rest with
  | case1 t => rfl
  | case2 t done rest ih =>
    rw [makeDirectories]
    exact ih h
  | case3 t done part rest hup ps hnode ih =>
    have hmade : (t.setNode ps .directory).Keeps v := (Keeps.makeDirectories h).trans huv
    have hdirectory : v.node? ps = some .directory := hmade.directory (node?_setNode_self (by simp [ps]) _)
    simp only [ps] at hdirectory
    simp only [makeDirectories, hdirectory]
    exact ih h
  | case4 t done part rest hup ps hnode ih =>
    have hdirectory : v.node? ps = some .directory := ((Keeps.makeDirectories h).trans huv).directory hnode
    simp only [ps] at hdirectory
    simp only [makeDirectories, hdirectory]
    exact ih h
  | case5 | case7 | case8 => cases h
  | case6 t done part rest hup ps target hnode place hresolve hplace ih =>
    have hkeeps := (Keeps.makeDirectories h).trans huv
    have hlink := hkeeps.link hnode
    have hback : v.resolveFrom .node linkLimit [] ps = .ok place := by
      refine hkeeps.resolveFrom ?_ ?_ hresolve
      · decide
      · nofun
    simp only [ps] at hlink hback
    simp only [makeDirectories, hlink, hback, hkeeps.directory hplace]
    exact ih h

/-! ## Files -/

theorem write_eq_ok_iff {path : String} {bytes : ByteArray} : t.write path bytes = .ok v ↔
    ∃ u ps, t.makeDirectories [] (Path.parts path).dropLast = .ok u ∧ u.seek .place "/" path = .ok ps ∧
      u.node? ps ≠ some .directory ∧ u.setNode ps (.file bytes) = v := by
  unfold FileTree.write
  constructor
  · intro h
    obtain ⟨u, hmade, h⟩ := exists_of_bind_eq_ok h
    obtain ⟨ps, hplace, h⟩ := exists_of_bind_eq_ok h
    refine ⟨u, ps, hmade, hplace, ?_⟩
    split at h
    · cases h
    · rename_i hnode
      exact ⟨hnode, Except.ok.inj h⟩
  · rintro ⟨u, ps, hmade, hplace, hnode, rfl⟩
    simp only [hmade, hplace, bind, Except.bind]

theorem seek_reaches (hsought : sought ≠ .entry) {directory path : String} (h : t.seek sought directory path = .ok ps) :
    t.Reaches sought (Path.steps (Path.join directory path)) ps :=
  resolveFrom_reaches hsought entered_nil (seek_eq_ok_iff.mp h).2

theorem read_eq_ok_iff {directory path : String} {bytes : ByteArray} : t.read directory path = .ok bytes ↔
    ∃ ps, t.seek .node directory path = .ok ps ∧ t.node? ps = some (.file bytes) := by
  unfold read lookup resolve
  cases t.seek .node directory path with
  | error f => simp [bind, Except.bind]
  | ok ps => cases hnode : t.node? ps with
    | none => simp [bind, Except.bind, hnode]
    | some n => cases n <;> simp [bind, Except.bind, hnode]

theorem splitFrom_ne_nil (part cs : List Char) : Path.splitFrom part cs ≠ [] := by
  induction cs generalizing part with
  | nil => exact List.cons_ne_nil _ _
  | cons c cs ih =>
    unfold Path.splitFrom
    split
    · exact List.cons_ne_nil _ _
    · exact ih _

theorem steps_join_root (path : String) : Path.steps (Path.join "/" path) = Path.steps path := by
  unfold Path.join
  split
  · rfl
  · rw [if_pos (by decide +kernel)]
    have hsplit : Path.splitFrom [] ('/' :: path.toList) = "" :: Path.splitFrom [] path.toList := rfl
    obtain ⟨p, ps, hps⟩ := List.exists_cons_of_ne_nil (splitFrom_ne_nil [] path.toList)
    simp [Path.steps, Path.parts, hsplit, hps]

/-- **Only directories are at a path that ends with a separator or `.`**: no file is written or read there. -/
theorem directories_only {path : String} (hend : ¬ LastMoves (Path.steps path)) {bytes : ByteArray} :
    t.write path bytes ≠ .ok u ∧ t.read "/" path ≠ .ok bytes := by
  have hdirectory {t : FileTree} {sought : Sought} (hsought : sought ≠ .entry) {ps : List String}
      (h : t.seek sought "/" path = .ok ps) : t.node? ps = some .directory :=
    (seek_reaches hsought h).resolve_right fun hreaches => hend (steps_join_root path ▸ hreaches.1)
  constructor
  · intro h
    obtain ⟨_, ps, -, hplace, hnode, -⟩ := write_eq_ok_iff.mp h
    exact hnode (hdirectory (by decide) hplace)
  · intro h
    obtain ⟨ps, hresolve, hfile⟩ := read_eq_ok_iff.mp h
    rw [hdirectory (by decide) hresolve] at hfile
    cases hfile

example : ¬ LastMoves (Path.steps "/nested/out.toml/") ∧ ¬ LastMoves (Path.steps "/nested/out.toml/.") ∧
    LastMoves (Path.steps "/nested/out.toml") := by
  decide +kernel

/-! ## Paths at which files can be written -/

/-- A file can be written at the path. -/
def Writable (t : FileTree) (path : String) : Prop := ∃ bytes u, t.write path bytes = .ok u

/-- Where some file can be written, any can, also once the directories on the way have been made. -/
theorem Writable.write {path : String} (h : t.Writable path) (bytes : ByteArray) :
    ∃ u v, t.makeDirectories [] (Path.parts path).dropLast = .ok u ∧ u.write path bytes = .ok v := by
  obtain ⟨_, _, hwrite⟩ := h
  obtain ⟨u, ps, hmade, hplace, hnode, -⟩ := write_eq_ok_iff.mp hwrite
  exact ⟨u, u.setNode ps (.file bytes), hmade,
    write_eq_ok_iff.mpr ⟨u, ps, makeDirectories_again hmade (.refl u), hplace, hnode, rfl⟩⟩

end FileTree

end CodeCorpus
