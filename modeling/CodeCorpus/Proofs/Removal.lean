import CodeCorpus.Client
import CodeCorpus.Proofs.Memory
import CodeCorpus.Proofs.Separators
import CodeCorpus.Session

/-!
# Removal by path

To remove what is stored at a path, the documents there are looked up, then their chunks, which go by identifiers of
their own, and at last the documents go by theirs. Where identifiers are keys nothing else is touched on the way, and
a removal that finds nothing leaves the world as it was.
-/

namespace CodeCorpus

variable {ω : Type}

/-- What is put into the slot is what is read from it, and nothing else in the world depends on it. -/
structure Slot.Lawful {σ : Type} (slot : Slot ω σ) : Prop where
  get_set : ∀ s w, slot.get (slot.set s w) = s
  set_get : ∀ w, slot.set (slot.get w) w = w
  set_set : ∀ s s' w, slot.set s (slot.set s' w) = slot.set s w

namespace MemoryStore

/-- Identifiers are keys. -/
structure Keyed (m : MemoryStore) : Prop where
  documents : (m.documents.map Document.id).Nodup
  chunks : (m.chunks.map Chunk.id).Nodup

/-- The store without the documents at a path and their chunks. Either kind counts as one change if any are gone. -/
def withoutPath (path : String) (m : MemoryStore) : MemoryStore :=
  let gone := (Changes.holders m.documents path).map Document.id
  { m with
    documents := m.documents.filter fun d => d.path != path
    chunks := m.chunks.filter fun c => !gone.contains c.owner
    mutations := m.mutations + min 1 (m.chunks.countP fun c => gone.contains c.owner) + min 1 gone.length }

/-- The action tells how many documents are at the path and removes them with their chunks. Done again, it finds
none and changes nothing. -/
structure Forgets (slot : Slot ω MemoryStore) (path : String) (x : Action ω Nat) (w : ω) : Prop where
  first : x w = (.ok (Changes.holders (slot.get w).documents path).length, slot.set ((slot.get w).withoutPath path) w)
  again : x (slot.set ((slot.get w).withoutPath path) w) = (.ok 0, slot.set ((slot.get w).withoutPath path) w)

section
variable {m : MemoryStore}

/-! ## The store without a path -/

theorem removeChunksOf_eq (h : (m.chunks.map Chunk.id).Nodup) (owners : List Uuid) :
    (m.removeChunksOf owners).2 = { m with
      chunks := m.chunks.filter fun c => !owners.contains c.owner
      mutations := m.mutations + min 1 (m.chunks.countP fun c => owners.contains c.owner) } := by
  have hown (c : Chunk) (hc : c ∈ m.chunks) :
      ((m.selectChunks (.ownedBy owners) none).map Chunk.id).contains c.id = owners.contains c.owner :=
    Records.contains_map_filter h (fun c => owners.contains c.owner) hc
  unfold removeChunksOf
  rw [removeChunks_eq, List.filter_congr fun c hc => congrArg (! ·) (hown c hc),
    List.countP_congr fun c hc => by rw [hown c hc]]

theorem holders_withoutPath (path : String) (m : MemoryStore) :
    Changes.holders (m.withoutPath path).documents path = [] := by
  simp [Changes.holders, withoutPath, List.filter_filter]

theorem withoutPath_of_holders {path : String} (h : Changes.holders m.documents path = []) :
    m.withoutPath path = m := by
  have hdocs : (m.documents.filter fun d => d.path != path) = m.documents := by
    rw [List.filter_eq_self]
    intro d hd
    have hne := List.filter_eq_nil_iff.mp h d hd
    simpa using hne
  have hchunks : m.chunks.countP (fun c => ([] : List Uuid).contains c.owner) = 0 :=
    List.countP_eq_zero.mpr fun c _ => Bool.false_ne_true
  unfold withoutPath
  simp only [h, hdocs, List.map_nil, hchunks, filter_of_countP_eq_zero hchunks]
  rfl

theorem Keyed.withoutPath (h : m.Keyed) (path : String) : (m.withoutPath path).Keyed :=
  ⟨h.documents.sublist (List.filter_sublist.map _), h.chunks.sublist (List.filter_sublist.map _)⟩

/-- The chunks and then the documents go by the identifiers of the documents found. -/
theorem Keyed.removed (h : m.Keyed) {path : String} {ids : List Uuid}
    (hids : ids.Perm ((Changes.holders m.documents path).map Document.id)) :
    ((m.removeChunksOf ids).2.removeDocuments ids).2 = m.withoutPath path := by
  have hsame : ids.contains = ((Changes.holders m.documents path).map Document.id).contains := by
    funext id
    rw [Bool.eq_iff_iff, List.contains_iff_mem, List.contains_iff_mem, hids.mem_iff]
  have hat (d : Document) (hd : d ∈ m.documents) :
      ((Changes.holders m.documents path).map Document.id).contains d.id = (d.path == path) :=
    Records.contains_map_filter h.documents (fun d => d.path == path) hd
  have hkept : (m.documents.filter fun d => !((Changes.holders m.documents path).map Document.id).contains d.id) =
      m.documents.filter fun d => d.path != path := by
    apply List.filter_congr
    intro d hd
    rw [hat d hd]
    rfl
  have hgone : (m.documents.countP fun d => ((Changes.holders m.documents path).map Document.id).contains d.id) =
      ((Changes.holders m.documents path).map Document.id).length := by
    rw [List.length_map, Changes.holders, ← List.countP_eq_length_filter]
    apply List.countP_congr
    intro d hd
    rw [← hat d hd, Changes.holders]
  rw [removeDocuments_eq, removeChunksOf_eq h.chunks, hsame]
  simp only [hkept, hgone]
  rfl

end

/-! ## Runs -/

section
variable {slot : Slot ω MemoryStore} (hslot : slot.Lawful) {path : String} {w : ω}
include hslot

theorem remove_run (env : Conditions ω) {docs : List Document} {ids : List Uuid} (hdocs : docs ≠ [])
    (hids : docs.map Document.id = ids) : (⟨asStore slot, env⟩ : Sync ω).remove docs w =
      (.ok (), slot.set (((slot.get w).removeChunksOf ids).2.removeDocuments ids).2 w) := by
  have hchunks : (asStore slot).removeChunksOf ids w =
      (.ok ((slot.get w).removeChunksOf ids).1, slot.set ((slot.get w).removeChunksOf ids).2 w) := by
    obtain ⟨d, ds, rfl⟩ := List.exists_cons_of_ne_nil hdocs
    subst hids
    rfl
  unfold Sync.remove
  rw [hids, Action.bind_run_ok (Action.within_run_ok _ hchunks)]
  have hrecords := hslot.get_set ((slot.get w).removeChunksOf ids).2 w
  generalize hv : slot.set ((slot.get w).removeChunksOf ids).2 w = v at hrecords
  show (Except.ok (), slot.set ((slot.get v).removeDocuments ids).2 v) = _
  rw [hrecords, ← hv, hslot.set_set]

theorem removeAtPath_run (env : Conditions ω) (hkeys : (slot.get w).Keyed) :
    (⟨asStore slot, env⟩ : Sync ω).removeAtPath path w =
      (.ok (Changes.holders (slot.get w).documents path).length, slot.set ((slot.get w).withoutPath path) w) := by
  have hperm : ((slot.get w).selectDocuments (.atPath path) none).Perm
      (Changes.holders (slot.get w).documents path) := selectDocuments_perm _ _
  have hread : ((asStore slot).documents (.atPath path) none).within s!"Failed to look up {path}" w =
      (.ok ((slot.get w).selectDocuments (.atPath path) none), w) := Action.within_run_ok _ rfl
  unfold Sync.removeAtPath
  rw [Action.bind_run_ok hread, ← hperm.length_eq]
  by_cases hnone : (slot.get w).selectDocuments (.atPath path) none = []
  · rw [hnone] at hperm
    rw [hnone, withoutPath_of_holders hperm.symm.eq_nil, hslot.set_get]
    rfl
  · have hrun := remove_run hslot (w := w) env hnone rfl
    rw [hkeys.removed (hperm.map Document.id)] at hrun
    rw [if_neg (by rwa [List.isEmpty_iff]), Action.bind_run_ok hrun]
    rfl

theorem removeAtPath_forgets (env : Conditions ω) (hkeys : (slot.get w).Keyed) :
    Forgets slot path ((⟨asStore slot, env⟩ : Sync ω).removeAtPath path) w := by
  constructor
  · exact removeAtPath_run hslot env hkeys
  · have hrecords := hslot.get_set ((slot.get w).withoutPath path) w
    have hkeyed := hkeys.withoutPath path
    rw [← hrecords] at hkeyed
    rw [removeAtPath_run hslot env hkeyed, hrecords, holders_withoutPath,
      withoutPath_of_holders (holders_withoutPath path _), hslot.set_set]
    rfl

omit hslot in
theorem deleteDocument_forgets {c : Client ω} (hstore : c.store = asStore slot) {spelled : String}
    (hblank : Text.isBlankText spelled = false) (hpath : Path.normalize spelled = path)
    (h : Forgets slot path (c.sync.removeAtPath path) w) : Forgets slot path (c.deleteDocument spelled) w := by
  have hrun {n : Nat} {u v : ω} (hu : c.sync.removeAtPath path u = (.ok n, v)) :
      c.deleteDocument spelled u = (.ok n, v) := by
    unfold Client.deleteDocument
    rw [hblank, hpath, if_neg (by decide), Action.bind_run_ok hu, hstore]
    rfl
  exact ⟨hrun h.first, hrun h.again⟩

/-- **Removal by path.** Where identifiers are keys, a removal takes the documents at the path and their chunks,
leaves all others as they were, in their order, and tells how many documents it took; a second one finds nothing. A
client does the same however the separators of the path are written, and refuses a blank path at once. -/
theorem removal_exact (env : Conditions ω) (hkeys : (slot.get w).Keyed) :
    Forgets slot path ((⟨asStore slot, env⟩ : Sync ω).removeAtPath path) w ∧
    (∀ c : Client ω, c.store = asStore slot → Text.isBlankText path = false → '\\' ∉ path.toList →
      ∀ spelled, Path.Alike path spelled → Forgets slot path (c.deleteDocument spelled) w) ∧
    ∀ (c : Client ω) (blank : String), Text.isBlankText blank = true → ∀ v,
      c.deleteDocument blank v = (.error (.input (.empty "relative path")), v) := by
  refine ⟨removeAtPath_forgets hslot env hkeys, ?_, ?_⟩
  · intro c hstore hblank hpath spelled halike
    apply deleteDocument_forgets hstore
    · rw [← halike.isBlankText_eq, hblank]
    · exact halike.normalize_eq hpath
    · unfold Client.sync
      rw [hstore]
      exact removeAtPath_forgets hslot c.env hkeys
  · intro c blank hblank v
    unfold Client.deleteDocument
    rw [if_pos hblank]
    rfl

end

end MemoryStore

namespace Session

theorem lawful_memorySlot : memorySlot.Lawful := ⟨fun _ _ => rfl, fun _ => rfl, fun _ _ _ => rfl⟩

/-- A session with two documents at one path, whose chunks stand among those of other documents. -/
def shared : Session :=
  let chunk (id owner : Nat) : Chunk :=
    ⟨.ofNat id, .ofNat owner, "", "Greeter", none, "class Greeter", 2, [0, 1], false⟩
  { memory := {
      documents := [⟨.ofNat 1, "a/b.cs", "0", 5⟩, ⟨.ofNat 2, "c.cs", "1", 5⟩, ⟨.ofNat 3, "a/b.cs", "2", 6⟩]
      chunks := [chunk 11 3, chunk 12 2, chunk 13 1, chunk 14 9, chunk 15 3] } }

/-- A client of a session's store in memory. -/
def memoryClient : Client Session :=
  { config := .defaults ⟨"/data", "/cache", "/config"⟩
    env := conditions
    disk := disk
    store := MemoryStore.asStore memorySlot
    chunker := ⟨⟨Counter.ofUnit .words, 64, 0, by decide⟩, provider 2, 30, ""⟩ }

end Session

open Session in
/-- The chunk of a document that is not stored stays, and so does that of the other document. -/
theorem removal_exact_shared :
    (memorySlot.get shared).Keyed ∧
      MemoryStore.Forgets memorySlot "a/b.cs" (memoryClient.deleteDocument "a\\b.cs") shared ∧
      (memoryClient.deleteDocument "a\\b.cs" shared).1.toOption = some 2 ∧
      (memoryClient.deleteDocument "a\\b.cs" shared).2.memory.chunks.map Chunk.id = [.ofNat 12, .ofNat 14] := by
  have hkeys : (memorySlot.get shared).Keyed := ⟨by decide, by decide⟩
  have hforgets : MemoryStore.Forgets memorySlot "a/b.cs" (memoryClient.deleteDocument "a\\b.cs") shared :=
    (MemoryStore.removal_exact lawful_memorySlot conditions hkeys).2.1 memoryClient rfl (by decide) (by decide) _
      (by decide)
  refine ⟨hkeys, hforgets, ?_, ?_⟩ <;> rw [hforgets.first] <;> decide +kernel

end CodeCorpus
