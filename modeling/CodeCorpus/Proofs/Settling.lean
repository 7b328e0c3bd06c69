import CodeCorpus.Proofs.Convergence
import CodeCorpus.Proofs.Idempotence
import CodeCorpus.Proofs.Surroundings
import Mathlib.Data.Set.Function

/-!
# Files that settle

Files are edited while runs go on, and a run that takes the digest of a file may find other bytes when it reads the
file again for its chunks. So what every history keeps about a document is weaker than that its chunks are those of
the bytes with its digest: they are those of bytes that some run found after it had taken the digest. Once the files
stay as they are, a run in which nothing fails rebuilds every file whose digest has changed, and leaves the others as
they are; where the digest is the present one, the chunks may still be those of other bytes (`stale_chunks_remain`), but
no run without an edit between its two reads leaves such chunks behind.
-/

namespace CodeCorpus

variable {ω : Type}

/-- The files stay as they are in the worlds of `I`: these are listed, and reading one gives what `bytes` says. -/
structure Files.Fixed (files : Files ω) (I : ω → Prop) (listed : List SourceFile)
    (bytes : String → Except String ByteArray) : Prop where
  list : ∀ w fs, I w → (files.list w).1 = .ok fs → fs = listed
  read : ∀ f ∈ listed, ∀ w, I w → (files.read f.file w).1 = bytes f.file

/-- Of the bytes `b` and `b'` that a listed file has in two worlds of `I`, `b` is among `contents`, and `torn` relates
the two. -/
def Files.Shifts (files : Files ω) (I : ω → Prop) (contents : Set ByteArray)
    (torn : String → ByteArray → ByteArray → Prop) : Prop :=
  ∀ w fs, I w → (files.list w).1 = .ok fs → ∀ f ∈ fs, ∀ b b', files.Has I f.file b → files.Has I f.file b' →
    b ∈ contents ∧ torn f.path b b'

section
variable {files : Files ω} {I : ω → Prop}

theorem Files.Sampled.has {f : SourceFile} {e : Listed} (h : files.Sampled I f e) {digest : String}
    (he : e.digest = .ok digest) : ∃ b, files.Has I f.file b ∧ digest = Digest.fingerprint b := by
  obtain ⟨w, hw, hdig⟩ := h.digest
  rw [he] at hdig
  cases hb : (files.read f.file w).1 with
  | error reason => rw [hb] at hdig; cases hdig
  | ok b =>
    rw [hb] at hdig
    exact ⟨b, ⟨w, hw, hb⟩, Except.ok.inj hdig⟩

theorem Files.map_path_of_sampled {fs : List SourceFile} {listing : List Listed}
    (h : List.Forall₂ (files.Sampled I) fs listing) : listing.map Listed.path = fs.map SourceFile.path := by
  induction h with
  | nil => rfl
  | cons he _ ih => rw [List.map_cons, List.map_cons, he.path, ih]

theorem Files.exists_sampled {fs : List SourceFile} {listing : List Listed}
    (h : List.Forall₂ (files.Sampled I) fs listing) {e : Listed} (he : e ∈ listing) :
    ∃ f ∈ fs, files.Sampled I f e := by
  induction h with
  | nil => cases he
  | cons hs _ ih =>
    rcases List.mem_cons.mp he with rfl | he
    · exact ⟨_, List.mem_cons_self, hs⟩
    · obtain ⟨f, hf, hs⟩ := ih he
      exact ⟨f, List.mem_cons_of_mem _ hf, hs⟩

theorem Files.sampled_of_path {fs : List SourceFile} {listing : List Listed}
    (h : List.Forall₂ (files.Sampled I) fs listing) (distinct : (fs.map SourceFile.path).Nodup) {f : SourceFile}
    (hf : f ∈ fs) {e : Listed} (he : e ∈ listing) (hpath : e.path = f.path) : files.Sampled I f e := by
  obtain ⟨g, hg, hs⟩ := Files.exists_sampled h he
  exact List.inj_on_of_nodup_map distinct hg hf (hs.path.symm.trans hpath) ▸ hs

theorem Files.Fixed.bytes_of_has {listed : List SourceFile} {bytes : String → Except String ByteArray}
    (h : files.Fixed I listed bytes) {f : SourceFile} (hf : f ∈ listed) {b : ByteArray} (hb : files.Has I f.file b) :
    bytes f.file = .ok b := by
  obtain ⟨w, hw, hread⟩ := hb
  rwa [h.read f hf w hw] at hread

end

namespace Ledger

variable {L : Ledger ω} {chunker : Chunker ω} {contents : Set ByteArray}
  {torn : String → ByteArray → ByteArray → Prop}

/-! ## What every history keeps -/

/-- A run of a corpus of files, in which anything may fail or be cancelled and the files may change at any moment. -/
def Rereads (L : Ledger ω) (chunker : Chunker ω) (contents : Set ByteArray)
    (torn : String → ByteArray → ByteArray → Prop) (I : ω → Prop) (s : Sync ω) (source : Source ω) : Prop :=
  ∃ env files, s = L.sync env ∧ source = Source.ofFiles env files chunker ∧
    L.Surrounds I env files chunker.provider ∧ files.Shifts I contents torn

/-- The digest of the document is that of some bytes, and its chunks are those of bytes found after them. -/
def Reread (chunker : Chunker ω) (contents : Set ByteArray) (torn : String → ByteArray → ByteArray → Prop)
    (d : Document) (cs : List Chunk) : Prop :=
  ∃ b ∈ contents, d.digest = Digest.fingerprint b ∧ ∃ b', torn d.path b b' ∧ chunker.BuiltFrom d b' cs

theorem Rereads.vouches {I : ω → Prop} {s : Sync ω} {source : Source ω}
    (h : L.Rereads chunker contents torn I s source) : L.Vouches (Reread chunker contents torn) I s source := by
  obtain ⟨env, files, rfl, rfl, hsurrounds, hshifts⟩ := h
  refine ⟨env, _, _, rfl, keeps_ofFiles hsurrounds, fun stored c ids hfound => ?_⟩
  obtain ⟨listing, now, ⟨w, fs, hw, hfs, hall⟩, hc⟩ := hfound c rfl
  refine ⟨hc.ids_sublist, fun p hp answer _ ids _ hsaid => ⟨hsaid.1, fun cs hcs => ?_⟩⟩
  obtain ⟨e, he, hdig, hpath, hfile⟩ := hc.entry_of_pending hp
  obtain ⟨f, hf, hs⟩ := Files.exists_sampled hall he
  -- the two reads of a run are of the same file
  obtain ⟨b, hb, hbd⟩ := hs.has hdig
  obtain ⟨b', hb', hbuilt⟩ := hsaid.2 cs hcs
  rw [hfile, hs.file] at hb'
  obtain ⟨hmem, htorn⟩ := hshifts w fs hw hfs f hf b b' hb hb'
  refine ⟨b, hmem, hbd, b', ?_, hbuilt⟩
  rwa [hpath, hs.path]

theorem Rereads.history {w₀ w : ω} (empty : L.slot.get w₀ = {})
    (history : L.History (L.Rereads chunker contents torn) w₀ w) (fresh : (L.made w).Nodup) :
    L.Known w ∧ L.Holding (Reread chunker contents torn) w :=
  history.induct fresh ⟨known_of_empty empty, holding_of_empty empty _⟩ fun h => h.holding Rereads.vouches

/-! ## The last run -/

theorem skip_failed (us : List (String × String)) (r : Run) :
    (r.skip us).report.failed = r.report.failed + us.length := by
  induction us generalizing r with
  | nil => rfl
  | cons u us ih =>
    rw [Run.skip, ih, List.length_cons, Nat.add_comm us.length, ← Nat.add_assoc]
    rfl

/-- If nothing failed in a run that was not cancelled, everything was read, and everything was built. -/
theorem Ingested.unfailed {I : ω → Prop} {env : Conditions ω} {source : Source ω}
    {found : List Document → Except Fault Changes → List Uuid → Prop}
    {said : Pending → Except Fault (List Chunk) → Bool → List Uuid → List (Uuid × List Chunk) → Prop}
    {w w' : ω} {r : Run} {c : Changes} {ids : List Uuid} {done : List Document} {hs : List Handled}
    (h : L.Ingested I env source found said w w' r c ids done hs) (uncancelled : r.report.cancelled = false)
    (unfailed : r.report.failed = 0) : c.unreadable = [] ∧ ∀ g ∈ hs, ∃ cs, g.outcome = .ok cs := by
  obtain ⟨r₁, hclear, hcourse⟩ := h.course
  obtain ⟨_, rfl⟩ := hcourse.all_of_not_cancelled uncancelled
  obtain ⟨hzero, hok⟩ := failed_eq_zero unfailed
  rw [foldl_count_cancelled] at uncancelled
  obtain ⟨_, rfl⟩ := hclear.all_of_not_cancelled uncancelled
  have hremoved (ds : List Document) (r : Run) :
      (ds.foldl (fun r d => r.removed.notify d.path) r).report.failed = r.report.failed := by
    induction ds generalizing r with
    | nil => rfl
    | cons d ds ih => exact ih _
  rw [hremoved, skip_failed] at hzero
  exact ⟨List.length_eq_zero_iff.mp (Nat.eq_zero_of_add_eq_zero_left hzero), hok⟩

/-- **Files that settle.** After any history of runs and edits from an empty store, let the listed files stay as they
are, with distinct paths, for one run that is not cancelled and in which nothing fails. Then each path holds one
document with the digest of the file's bytes. Its chunks are those of these bytes, unless the document was there
before the run already, and was made by a run that took the digest of these bytes and found others when it read the
file for its chunks. -/
theorem settled_files (collisionFree : Set.InjOn Digest.fingerprint contents) {w₀ w w' : ω}
    (empty : L.slot.get w₀ = {}) (history : L.History (L.Rereads chunker contents torn) w₀ w)
    {I : ω → Prop} {env : Conditions ω} {files : Files ω} (last : L.Surrounds I env files chunker.provider)
    {listed : List SourceFile} {bytes : String → Except String ByteArray} (settled : files.Fixed I listed bytes)
    (distinct : (listed.map SourceFile.path).Nodup)
    (known : ∀ f ∈ listed, ∀ b, bytes f.file = .ok b → b ∈ contents) (holds : I w) {r : Run}
    (run : (L.sync env).ingest (Source.ofFiles env files chunker) w = (.ok r, w'))
    (uncancelled : r.report.cancelled = false) (unfailed : r.report.failed = 0) (fresh : (L.made w').Nodup) :
    ∀ f ∈ listed, ∃ b d cs, bytes f.file = .ok b ∧ (L.records w').heldAt f.path = [(d, cs)] ∧
      d.digest = Digest.fingerprint b ∧
      (chunker.BuiltFrom d b cs ∨
        (d, cs) ∈ (L.records w).heldAt f.path ∧ ∃ b', b' ≠ b ∧ torn f.path b b' ∧ chunker.BuiltFrom d b' cs) := by
  have hkeeps := keeps_ofFiles last
  have hpre := made_prefix_ingest hkeeps holds
  rw [run] at hpre
  obtain ⟨hk, hheld⟩ := Rereads.history empty history (fresh.sublist hpre.sublist)
  obtain ⟨a, v, ha, _, ⟨_, rfl, _⟩ | ⟨r, c, ids, done, hs, rfl, h⟩⟩ := ingest_run hkeeps holds
  · rw [run] at ha; cases ha
  rw [run] at ha
  cases ha
  obtain ⟨stored, hp, hfound⟩ := h.found
  obtain ⟨listing, now, ⟨u, fs, hu, hfs, hall⟩, hc⟩ := hfound c rfl
  obtain rfl := settled.list u fs hu hfs
  obtain ⟨rfl, hpending⟩ := h.complete uncancelled
  obtain ⟨hreadable, hok⟩ := h.unfailed uncancelled unfailed
  have hread (e : Listed) (he : e ∈ listing) : ∃ digest, e.digest = .ok digest := by
    cases hd : e.digest with
    | error reason => exact absurd hreadable (hc.unreadable_of_error he hd)
    | ok digest => exact ⟨digest, rfl⟩
  have hpaths := Files.map_path_of_sampled hall
  have hup := Records.upToDate_run hk.sound.documents (hk.freshSince fresh _ h.made) hp hc hpending hok
    (hpaths ▸ distinct) hread
  rw [← h.records] at hup
  obtain ⟨hfr, _⟩ := h.known hk fresh hc.ids_sublist fun g hg => (h.said g hg).1
  intro f hf
  obtain ⟨e, he, hpath⟩ := List.mem_map.mp (hpaths ▸ List.mem_map_of_mem (f := SourceFile.path) hf)
  obtain ⟨d, hd, hdig⟩ := hup.held e he
  obtain ⟨b, hb, hbd⟩ := (Files.sampled_of_path hall distinct hf he hpath).has hdig
  have hbytes := settled.bytes_of_has hf hb
  have hone := Records.heldAt_of_holders hd
  rw [hpath] at hone
  refine ⟨b, d, _, hbytes, hone, hbd, ?_⟩
  rcases h.held hk.sound hfr (hone ▸ List.mem_singleton_self _) with hold | ⟨g, hg, rfl, hans, hgp⟩
  · -- the document was left alone: it has the digest of the present bytes, and chunks of what was found after them
    obtain ⟨b₀, hb₀, hbd₀, b', htorn, hbuilt⟩ := hheld _ d _ hold
    obtain rfl : b₀ = b := collisionFree hb₀ (known f hf b hbytes) (hbd₀.symm.trans hbd)
    rw [(Records.of_mem_heldAt hold).2.1] at htorn
    by_cases hsame : b' = b₀
    · exact .inl (hsame ▸ hbuilt)
    · exact .inr ⟨hold, b', hsame, htorn, hbuilt⟩
  · -- the document was built in this run, in which both reads gave the same
    obtain ⟨b', hb', hbuilt⟩ := (h.said g hg).2 _ hans
    obtain ⟨e', he', _, hpath', hfile⟩ := hc.entry_of_pending (hpending ▸ List.mem_map_of_mem hg)
    have hs' := Files.sampled_of_path hall distinct hf he' (hpath'.symm.trans hgp)
    rw [hfile, hs'.file] at hb'
    obtain rfl : b' = b := Except.ok.inj ((settled.bytes_of_has hf hb').symm.trans hbytes)
    exact .inl hbuilt

end Ledger

/-! ## Edited sessions -/

theorem Action.bind_run_congr {α β : Type} {x y : Action ω α} {f : α → Action ω β} {w w' : ω} (h : x w = y w') :
    (x >>= f) w = (y >>= f) w' := by
  cases hy : y w' with
  | mk r v =>
    cases r with
    | ok a => rw [Action.bind_run_ok (h.trans hy), Action.bind_run_ok hy]
    | error e => rw [Action.bind_run_error (h.trans hy), Action.bind_run_error hy]

theorem Action.within_run_congr {α : Type} {x y : Action ω α} {w w' : ω} (context : String) (h : x w = y w') :
    x.within context w = y.within context w' := by
  unfold Action.within
  rw [h]

theorem FileTree.mem_of_read {t : FileTree} {directory path : String} {b : ByteArray}
    (h : t.read directory path = .ok b) : ∃ ps, (ps, FileNode.file b) ∈ t.nodes := by
  unfold FileTree.read FileTree.lookup at h
  cases hps : t.resolve directory path with
  | error e => rw [hps] at h; cases h
  | ok ps =>
    simp only [hps, bind, Except.bind] at h
    cases hn : t.node? ps with
    | none => rw [hn] at h; cases h
    | some n =>
      rw [hn] at h
      cases n with
      | directory => cases h
      | link target => cases h
      | file bytes =>
        cases h
        unfold FileTree.node? at hn
        split at hn
        · cases hn
        · obtain ⟨e, he, hfile⟩ := Option.map_eq_some_iff.mp hn
          exact ⟨e.1, hfile ▸ List.mem_of_find?_eq_some he⟩

namespace Session

/-- The conditions of a session whose files are edited when a run looks whether it is cancelled. -/
def editedBy (edit : Session → FileTree) : Conditions Session :=
  { conditions with cancelled := fun s => (s.cancelled, { s with tree := edit s }) }

/-- The bytes of the files in some trees. -/
def bytesIn (trees : Set FileTree) : Set ByteArray := {b | ∃ t ∈ trees, ∃ ps, (ps, FileNode.file b) ∈ t.nodes}

section
variable {trees : Set FileTree} {edit : Session → FileTree} (walker : Walker)

theorem surrounds_editedBy (h : ∀ s, s.tree ∈ trees → edit s ∈ trees) (dimension : Nat) :
    ledger.Surrounds (fun s => s.tree ∈ trees) (editedBy edit) (walker.files (editedBy edit) treeSlot)
      (provider dimension) := by
  have still {s s' : Session} (hm : s'.memory = s.memory) (hmade : s'.made = s.made) (hc : s'.clock = s.clock) :
      ledger.Aside s s' [] [] := by
    refine ⟨⟨_, hm⟩, ?_, rfl⟩
    show (List.range s'.made).map (Uuid.atTime s'.clock) = _
    rw [hmade, hc]
    exact (List.append_nil _).symm
  refine ⟨fun _ _ hs _ => hs, fun s hs => ⟨h s hs, still rfl rfl rfl⟩, fun s hs => ⟨hs, aside_advance 1 s⟩,
    fun s hs => ⟨hs, .refl s⟩, fun s hs => ?_, fun _ s hs => ⟨hs, .refl s⟩, fun timeout text s hs => ?_⟩
  · -- the files are listed before the run looks
    unfold Walker.files editedBy
    cases hl : walker.list (treeSlot.get s) with
    | error f =>
      simp only [hl]
      exact ⟨hs, .refl s⟩
    | ok fs =>
      cases hc : s.cancelled with
      | true =>
        simp only [hl, hc, if_true]
        exact ⟨h s hs, still rfl rfl rfl⟩
      | false =>
        simp only [hl, hc, Bool.false_eq_true, if_false]
        exact ⟨h s hs, still rfl rfl rfl⟩
  · have hrecord : (s.record text).tree = s.tree ∧ (s.record text).memory = s.memory ∧
        (s.record text).made = s.made ∧ (s.record text).clock = s.clock := by
      unfold record
      cases s.patience with
      | none => exact ⟨rfl, rfl, rfl, rfl⟩
      | some n => dsimp only; split <;> exact ⟨rfl, rfl, rfl, rfl⟩
    obtain ⟨htree, hm, hmade, hclock⟩ := hrecord
    unfold provider
    cases hr : s.embedder.reply timeout text with
    | mk reply recorded =>
      cases recorded with
      | true =>
        simp only [hr]
        exact ⟨htree ▸ hs, still hm hmade hclock⟩
      | false =>
        simp only [hr]
        exact ⟨hs, .refl s⟩

theorem mem_bytesIn_of_has {env : Conditions Session} {file : String} {b : ByteArray}
    (h : (walker.files env treeSlot).Has (fun s => s.tree ∈ trees) file b) : b ∈ bytesIn trees := by
  obtain ⟨s, hs, hb⟩ := h
  change (s.tree.read "/" file).mapError FileFault.message = .ok b at hb
  cases hr : s.tree.read "/" file with
  | error e => rw [hr] at hb; cases hb
  | ok b' =>
    rw [hr] at hb
    cases hb
    exact ⟨s.tree, hs, FileTree.mem_of_read hr⟩

theorem rereads_editedBy (h : ∀ s, s.tree ∈ trees → edit s ∈ trees) {chunker : Chunker Session} {dimension : Nat}
    (hp : chunker.provider = provider dimension) :
    ledger.Rereads chunker (bytesIn trees) (fun _ b b' => b ∈ bytesIn trees ∧ b' ∈ bytesIn trees)
      (fun s => s.tree ∈ trees) (ledger.sync (editedBy edit))
      (.ofFiles (editedBy edit) (walker.files (editedBy edit) treeSlot) chunker) := by
  refine ⟨_, _, rfl, rfl, hp ▸ surrounds_editedBy walker h dimension, fun s fs _ _ f _ b b' hb hb' => ?_⟩
  have hmem := mem_bytesIn_of_has walker hb
  exact ⟨hmem, hmem, mem_bytesIn_of_has walker hb'⟩

theorem fixed_files (env : Conditions Session) {t : FileTree} {listed : List SourceFile}
    (h : walker.list t = .ok listed) :
    (walker.files env treeSlot).Fixed (fun s => s.tree ∈ ({t} : Set FileTree)) listed
      fun file => (t.read "/" file).mapError FileFault.message := by
  refine ⟨fun s fs hs hfs => ?_, fun f _ s hs => ?_⟩
  · obtain rfl : s.tree = t := hs
    unfold Walker.files at hfs
    simp only [show walker.list (treeSlot.get s) = .ok listed from h] at hfs
    split at hfs
    · cases hfs
    · exact (Except.ok.inj hfs).symm
  · obtain rfl : s.tree = t := hs
    rfl

end

/-- The walker of the files whose names end in `.cs`. -/
def sharp : Walker := ⟨"/", 1000, ⟨[.zeroOrMore, .literal '.', .literal 'c', .literal 's'], false⟩, []⟩

def wordwise : Chunker Session :=
  { splitter := ⟨Counter.ofUnit .words, 8, 0, by decide⟩, provider := provider 3, timeout := 30 }

/-- The files as they are, with edits whenever a run looks whether it is cancelled. -/
def sharpSource (edit : Session → FileTree) : Source Session :=
  .ofFiles (editedBy edit) (sharp.files (editedBy edit) treeSlot) wordwise

def runSharp (edit : Session → FileTree) (s : Session) : Except Fault Run × Session :=
  (ledger.sync (editedBy edit)).ingest (sharpSource edit) s

/-- The text of a file with an empty class. -/
def classText (name : String) : String := "class " ++ name ++ " \x7b\x7d"

/-- The snippet of an empty class. -/
def classSnippet (name : String) : String := "class " ++ name ++ "\n\x7b\n\x7d"

def treeOf (text : String) : FileTree := ⟨[(["A.cs"], .file text.toUTF8)]⟩

/-- Puts a class into the file as soon as its digest has been taken and an identifier been made for it. -/
def tearing (s : Session) : FileTree := if s.made = 0 then s.tree else treeOf (classText "A")

/-- A session in which a file, once empty, was edited between the two reads of a run, and is empty again. -/
def reverted : Session := { (runSharp tearing { tree := treeOf "" }).2 with tree := treeOf "" }

/-- A session with two files that have the same path once each backslash is a slash. -/
def doubled : Session :=
  { tree := ⟨[(["a"], .directory), (["a", "b.cs"], .file (classText "A").toUTF8),
      (["a\\b.cs"], .file (classText "B").toUTF8)]⟩ }

theorem sharp_list {t : FileTree} {fs : List SourceFile} (hroot : t.resolve "/" "/" = .ok [])
    (hfiles : sharp.filesBelow t [] = fs) (sorted : fs.Pairwise fun a b => Walker.precedes a b = true) :
    sharp.list t = .ok fs := by
  unfold Walker.list
  rw [show t.resolve "/" sharp.root = .ok [] from hroot]
  show Except.ok ((sharp.filesBelow t []).mergeSort Walker.precedes) = _
  rw [hfiles, List.mergeSort_of_pairwise sorted]

/-- A run over files that nothing edits ends uncancelled and without a failure, and leaves a listed file with one
document whose chunks are not those of the file's bytes. -/
def LeavesStale (s : Session) : Prop :=
  ∃ r w fs f b d cs, runSharp tree s = (.ok r, w) ∧ r.report.cancelled = false ∧ r.report.failed = 0 ∧
    sharp.list s.tree = .ok fs ∧ f ∈ fs ∧ s.tree.read "/" f.file = .ok b ∧
    (ledger.records w).heldAt f.path = [(d, cs)] ∧ ¬ wordwise.BuiltFrom d b cs

theorem leavesStale_of_snippets {s : Session} {x : Except Fault Run × Session} {fs : List SourceFile}
    {f : SourceFile} {t : String} {texts : List String} (hlist : sharp.list s.tree = .ok fs) (hf : f ∈ fs)
    (hread : s.tree.read "/" f.file = .ok t.toUTF8) (hx : runSharp tree s = x)
    (hreport : x.1.toOption.map (fun r => (r.report.cancelled, r.report.failed)) = some (false, 0))
    (hheld : ((ledger.records x.2).heldAt f.path).map (fun e => e.2.map Chunk.snippet) = [texts])
    (hother : (wordwise.planned (Corpus.dropMark t)).map (fun p => p.2.text) ≠ texts) : LeavesStale s := by
  obtain ⟨r, hr, he⟩ := Option.map_eq_some_iff.mp hreport
  obtain ⟨⟨d, cs⟩, hone, hcs⟩ := List.map_eq_singleton_iff.mp hheld
  obtain ⟨a, w⟩ := x
  cases a with
  | error e => cases hr
  | ok r' =>
    cases hr
    refine ⟨r, w, fs, f, _, d, cs, hx, congrArg Prod.fst he, congrArg Prod.snd he, hlist, hf, hread, hone, ?_⟩
    intro hbuilt
    obtain ⟨text, htext, hsnippets⟩ := hbuilt.snippets
    unfold Corpus.decode at htext
    rw [Text.decode?_toUTF8] at htext
    cases htext
    exact hother (hsnippets.symm.trans hcs)

theorem files_list_run {edit : Session → FileTree} {s : Session} {fs : List SourceFile}
    (hlist : sharp.list s.tree = .ok fs) (hc : s.cancelled = false) :
    (sharp.files (editedBy edit) treeSlot).list s = (.ok fs, { s with tree := edit s }) := by
  unfold Walker.files editedBy
  simp only [show sharp.list (treeSlot.get s) = .ok fs from hlist, hc]
  rfl

/-- A first run once its files are listed. -/
theorem runSharp_listed {s : Session} {fs : List SourceFile} (hm : s.memory = {}) (hc : s.cancelled = false)
    (hlist : sharp.list s.tree = .ok fs) :
    runSharp tree s = (do
      let changes ← Action.within "Failed to detect changes" do
        let listing ← (sharp.files (editedBy tree) treeSlot).digests fs
        Changes.detectNow (editedBy tree) listing []
      (ledger.sync (editedBy tree)).apply (sharpSource tree) changes : Action Session Run)
        { s with memory := { dimension := some 3 } } := by
  have hd : ledger.dimension s = none := congrArg MemoryStore.dimension hm
  obtain ⟨v, hv, _, _, _, _, hrun⟩ := @Ledger.ingest_begun Session ledger (fun _ => True) (sharpSource tree)
    (editedBy tree) (fun _ _ _ _ => trivial) s trivial (.inl hd)
  have hget : ledger.slot.get s = {} := hm
  have hnone : MemoryStore.selectDocuments .all none {} = [] := by simp [MemoryStore.selectDocuments, limited]
  rw [hget] at hv hrun
  rw [hnone] at hrun
  subst hv
  have hfiles : (sharp.files (editedBy tree) treeSlot).list { s with memory := { dimension := some 3 } } =
      (.ok fs, { s with memory := { dimension := some 3 } }) := files_list_run hlist hc
  refine hrun.trans (Action.bind_run_congr (Action.within_run_congr _ ?_))
  exact Action.bind_run_ok (f := fun listed => do
    let listing ← (sharp.files (editedBy tree) treeSlot).digests listed
    Changes.detectNow (editedBy tree) listing []) hfiles

theorem reverted_listed : sharp.list reverted.tree = .ok [⟨"A.cs", "/A.cs", 0⟩] :=
  sharp_list (by decide +kernel) (by decide +kernel) (List.pairwise_singleton _ _)

theorem reverted_report : (runSharp tree reverted).1.toOption.map (fun r => (r.report.cancelled, r.report.failed)) =
    some (false, 0) := by decide +kernel

theorem leavesStale_reverted : LeavesStale reverted := by
  have hheld : ((ledger.records (runSharp tree reverted).2).heldAt "A.cs").map (fun e => e.2.map Chunk.snippet) =
      [[classSnippet "A"]] := by decide +kernel
  have hother : (wordwise.planned (Corpus.dropMark "")).map (fun p => p.2.text) ≠ [classSnippet "A"] := by
    decide +kernel
  exact leavesStale_of_snippets reverted_listed List.mem_cons_self (by decide +kernel) rfl reverted_report hheld
    hother

theorem doubled_listed : sharp.list doubled.tree = .ok [⟨"a/b.cs", "/a/b.cs", 10⟩, ⟨"a/b.cs", "/a\\b.cs", 10⟩] :=
  sharp_list (by decide +kernel) (by decide +kernel) (by decide)

theorem leavesStale_doubled : LeavesStale doubled := by
  have hrun := runSharp_listed rfl rfl doubled_listed
  -- the document of the second file took the place of that of the first
  refine @leavesStale_of_snippets doubled _ _ ⟨"a/b.cs", "/a/b.cs", 10⟩ (classText "A") [classSnippet "B"]
    doubled_listed List.mem_cons_self ?_ hrun ?_ ?_ ?_ <;> decide +kernel

/-- The trees of a session whose file is edited and becomes empty again. -/
def revertedTrees : Set FileTree := {treeOf "", treeOf (classText "A")}

theorem bytesIn_revertedTrees {b : ByteArray} (h : b ∈ bytesIn revertedTrees) :
    b = "".toUTF8 ∨ b = (classText "A").toUTF8 := by
  obtain ⟨t, rfl | rfl, ps, hps⟩ := h
  · exact .inl (FileNode.file.inj (Prod.ext_iff.mp (List.mem_singleton.mp hps)).2)
  · exact .inr (FileNode.file.inj (Prod.ext_iff.mp (List.mem_singleton.mp hps)).2)

theorem fingerprint_revertedTrees : Set.InjOn Digest.fingerprint (bytesIn revertedTrees) := by
  have hne : Digest.fingerprint "".toUTF8 ≠ Digest.fingerprint (classText "A").toUTF8 := by decide +kernel
  intro b hb b' hb' he
  rcases bytesIn_revertedTrees hb with rfl | rfl <;> rcases bytesIn_revertedTrees hb' with rfl | rfl
  · rfl
  · exact absurd he hne
  · exact absurd he.symm hne
  · rfl

theorem reverted_history : ledger.History (ledger.Rereads wordwise (bytesIn revertedTrees)
    fun _ b b' => b ∈ bytesIn revertedTrees ∧ b' ∈ bytesIn revertedTrees) { tree := treeOf "" } reverted := by
  have hedit (s : Session) (hs : s.tree ∈ revertedTrees) : tearing s ∈ revertedTrees := by
    unfold tearing
    split
    · exact hs
    · exact .inr rfl
  have haside : ledger.Aside (runSharp tearing { tree := treeOf "" }).2 reverted [] [] :=
    ⟨⟨_, rfl⟩, (List.append_nil _).symm, rfl⟩
  exact (Relation.ReflTransGen.single (.ingest (rereads_editedBy sharp hedit rfl) (.inl rfl))).tail (.aside haside)

end Session

open Session in
theorem settled_files_reverted :
    ∃ b d cs, (treeOf "").read "/" "/A.cs" = .ok b ∧
      (ledger.records (runSharp tree reverted).2).heldAt "A.cs" = [(d, cs)] ∧ d.digest = Digest.fingerprint b := by
  obtain ⟨r, hr, he⟩ := Option.map_eq_some_iff.mp reverted_report
  have hfresh : (ledger.made (runSharp tree reverted).2).Nodup := by decide +kernel
  generalize hw : runSharp tree reverted = x at hr hfresh ⊢
  obtain ⟨a, w⟩ := x
  cases a with
  | error e => cases hr
  | ok r' =>
    cases hr
    have hread : (treeOf "").read "/" "/A.cs" = .ok "".toUTF8 := by decide +kernel
    have hknown : ∀ f ∈ [(⟨"A.cs", "/A.cs", 0⟩ : SourceFile)], ∀ b,
        ((treeOf "").read "/" f.file).mapError FileFault.message = .ok b → b ∈ bytesIn revertedTrees := by
      intro f hf b hb
      obtain rfl := List.mem_singleton.mp hf
      rw [hread] at hb
      cases hb
      exact ⟨treeOf "", .inl rfl, FileTree.mem_of_read hread⟩
    obtain ⟨b, d, cs, hb, hd, hdig, _⟩ := Ledger.settled_files fingerprint_revertedTrees rfl reverted_history
      (surrounds_editedBy sharp (fun _ hs => hs) 3) (fixed_files sharp _ reverted_listed) (by decide) hknown rfl hw
      (congrArg Prod.fst he) (congrArg Prod.snd he) hfresh _ List.mem_cons_self
    rw [show (reverted.tree.read "/" "/A.cs") = .ok "".toUTF8 from hread] at hb
    cases hb
    exact ⟨_, d, cs, hread, hd, hdig⟩

open Session in
theorem stale_chunks_remain : LeavesStale reverted ∧ LeavesStale doubled :=
  ⟨leavesStale_reverted, leavesStale_doubled⟩

end CodeCorpus
