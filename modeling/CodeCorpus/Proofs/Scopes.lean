import CodeCorpus.Proofs.Memory
import CodeCorpus.Search
import Mathlib.Data.List.Infix

/-!
# Searches within a scope

A search that is restricted to documents asks the store for their chunks only; one that is not finds the documents of
its results afterwards. Ranking keeps the order of equal scores, so that leaving chunks out before it or after it
comes to the same (`bestFirst_filter`), and both ways give the same results (`scoped_agrees`).
-/

namespace CodeCorpus

/-! ## Parts of texts -/

namespace Text

theorem afterStart_eq_some_iff {pat cs rest : List Char} : afterStart pat cs = some rest ↔ cs = pat ++ rest := by
  induction pat generalizing cs with
  | nil => simp [afterStart]
  | cons p pat ih =>
    cases cs with
    | nil => simp [afterStart]
    | cons c cs =>
      rw [afterStart]
      by_cases h : p = c
      · simp [h, ih]
      · simp [h, Ne.symm h]

theorem cutAt_isSome_iff {pat cs : List Char} : (cutAt pat cs).isSome = true ↔ pat <:+: cs := by
  induction cs with
  | nil => cases pat <;> simp [cutAt]
  | cons c cs ih =>
    rw [cutAt, List.infix_cons_iff]
    cases h : afterStart pat (c :: cs) with
    | some rest =>
      rw [afterStart_eq_some_iff] at h
      exact iff_of_true rfl (.inl ⟨rest, h.symm⟩)
    | none =>
      have hnot : ¬ pat <+: c :: cs := by
        rintro ⟨rest, hrest⟩
        rw [afterStart_eq_some_iff.mpr hrest.symm] at h
        cases h
      rw [Option.isSome_map, ih]
      simp [hnot]

theorem occursIn_iff {part s : String} : occursIn part s = true ↔ part.toList <:+: s.toList := cutAt_isSome_iff

end Text

/-! ## Ranking -/

namespace Similarity

variable {α : Type}

/-- The best first. -/
def Ordered (xs : List (α × Float32)) : Prop := xs.Pairwise fun a b => rank b.2 ≤ rank a.2

theorem bestFirst_perm (xs : List (α × Float32)) : (bestFirst xs).Perm xs := List.mergeSort_perm _ _

theorem bestFirst_trans (a b c : α × Float32) (hab : decide (rank b.2 ≤ rank a.2) = true)
    (hbc : decide (rank c.2 ≤ rank b.2) = true) : decide (rank c.2 ≤ rank a.2) = true := by
  simp only [decide_eq_true_eq] at *
  exact hbc.trans hab

theorem bestFirst_total (a b : α × Float32) :
    (decide (rank b.2 ≤ rank a.2) || decide (rank a.2 ≤ rank b.2)) = true := by
  simp only [Bool.or_eq_true, decide_eq_true_eq]
  exact Nat.le_total _ _

theorem bestFirst_ordered (xs : List (α × Float32)) : Ordered (bestFirst xs) := by
  apply (List.pairwise_mergeSort bestFirst_trans bestFirst_total xs).imp
  simp

/-- Those of one score. -/
def tied (x : Nat) (xs : List (α × Float32)) : List (α × Float32) := xs.filter fun a => rank a.2 = x

/-- Those of one score keep their order. -/
theorem tied_bestFirst (x : Nat) (xs : List (α × Float32)) : tied x (bestFirst xs) = tied x xs := by
  have hordered : (tied x xs).Pairwise fun a b => decide (rank b.2 ≤ rank a.2) = true := by
    apply List.pairwise_of_forall_mem_list
    intro a ha b hb
    simp only [tied, List.mem_filter, decide_eq_true_eq] at ha hb
    simp [ha.2, hb.2]
  have hsub : (tied x xs).Sublist (bestFirst xs) :=
    List.sublist_mergeSort bestFirst_trans bestFirst_total hordered List.filter_sublist
  have hfilter := hsub.filter fun a => decide (rank a.2 = x)
  have hself : (tied x xs).filter (fun a => rank a.2 = x) = tied x xs := by simp [tied]
  rw [hself] at hfilter
  exact (hfilter.eq_of_length ((bestFirst_perm xs).filter _).length_eq.symm).symm

theorem rank_le_of_tied {x y : α × Float32} {xs ys : List (α × Float32)} (hys : Ordered (y :: ys))
    (h : tied (rank x.2) (x :: xs) = tied (rank x.2) (y :: ys)) : rank x.2 ≤ rank y.2 := by
  have hmem : x ∈ tied (rank x.2) (y :: ys) := by
    rw [← h]
    simp [tied]
  rcases List.mem_cons.mp (List.mem_filter.mp hmem).1 with rfl | hmem
  · exact Nat.le_refl _
  · exact List.rel_of_pairwise_cons hys hmem

/-- Lists in order are the same if they hold the same of each score. -/
theorem eq_of_tied : ∀ {xs ys : List (α × Float32)}, Ordered xs → Ordered ys → (∀ x, tied x xs = tied x ys) → xs = ys
  | [], [], _, _, _ => rfl
  | [], y :: ys, _, _, h => by
    have hy := h (rank y.2)
    simp [tied] at hy
  | x :: xs, [], _, _, h => by
    have hx := h (rank x.2)
    simp [tied] at hx
  | x :: xs, y :: ys, hxs, hys, h => by
    have heq : rank x.2 = rank y.2 := Nat.le_antisymm (rank_le_of_tied hys (h _)) (rank_le_of_tied hxs (h _).symm)
    have hhead := h (rank x.2)
    simp only [tied, List.filter_cons, heq, decide_true, if_true, List.cons.injEq] at hhead
    obtain ⟨rfl, _⟩ := hhead
    congr 1
    apply eq_of_tied hxs.of_cons hys.of_cons
    intro z
    have hz := h z
    unfold tied at hz ⊢
    rw [List.filter_cons, List.filter_cons] at hz
    split at hz
    · exact (List.cons.inj hz).2
    · exact hz

/-- Leaving items out before they are ranked or after comes to the same. -/
theorem bestFirst_filter (p : α × Float32 → Bool) (xs : List (α × Float32)) :
    (bestFirst xs).filter p = bestFirst (xs.filter p) := by
  apply eq_of_tied
  · exact (bestFirst_ordered xs).filter p
  · exact bestFirst_ordered _
  · intro x
    rw [tied_bestFirst, tied, List.filter_filter]
    have hcomm := congrArg (List.filter p) (tied_bestFirst x xs)
    rw [tied, tied, List.filter_filter, List.filter_filter] at hcomm
    rw [tied, List.filter_filter, ← List.filter_congr (fun a _ => Bool.and_comm _ _), hcomm]
    exact List.filter_congr fun a _ => Bool.and_comm _ _

end Similarity

/-! ## Searches -/

namespace Search

variable {ω : Type} {s : Search ω} {slot : Slot ω MemoryStore} {query : String} {v : Vector32}

/-- The provider gives the query this vector in every world, and leaves the store as it is. -/
def Answers (s : Search ω) (slot : Slot ω MemoryStore) (query : String) (v : Vector32) : Prop :=
  ∀ w, ∃ u, s.provider.embed s.timeout query w = (.ok v, u) ∧ slot.get u = slot.get w

/-- What a search finds in a store. -/
def found (minScore : Float32) (v : Vector32) (m : MemoryStore) (part : Option String) (n : Nat) : List SearchResult :=
  let docs := m.selectDocuments (documentFilter part) none
  results minScore docs (m.nearest v n (chunkFilter part docs))

theorem found_zero (minScore : Float32) (v : Vector32) (m : MemoryStore) (part : Option String) :
    found minScore v m part 0 = [] := by
  simp [found, results, MemoryStore.nearest]

theorem found_of_no_document (minScore : Float32) (v : Vector32) {m : MemoryStore} {part : String} (n : Nat)
    (h : m.selectDocuments (.containing part) none = []) : found minScore v m (some part) n = [] := by
  have hnone : m.chunks.filter (ChunkFilter.ownedBy []).selects = [] :=
    List.filter_eq_nil_iff.mpr fun c _ => by simp [ChunkFilter.selects]
  have hnearest : m.nearest v n (.ownedBy []) = [] := by
    rw [MemoryStore.nearest, hnone]
    simp [Similarity.bestFirst]
  unfold found
  simp only [documentFilter, chunkFilter, h, Option.isSome_some, if_true, List.map_nil, hnearest]
  rfl

theorem run_found (hstore : s.store = MemoryStore.asStore slot) (hquery : Text.isBlankText query = false)
    (hv : s.Answers slot query v) (part : Option String) (n : Nat) (w : ω) :
    ∃ u, s.run query part n w = (.ok (found s.minScore v (slot.get w) part n), u) ∧ slot.get u = slot.get w := by
  rw [run, if_neg (by simp [hquery])]
  by_cases hn : n = 0
  · rw [if_pos hn, hn, found_zero]
    exact ⟨w, rfl, rfl⟩
  rw [if_neg hn, hstore]
  generalize hdocs : (slot.get w).selectDocuments (documentFilter part) none = docs
  have hread : ((MemoryStore.asStore slot).documents (documentFilter part) none).within
      "Failed to resolve document filter" w = (.ok docs, w) := Action.within_run_ok _ (by rw [← hdocs]; rfl)
  rw [Action.bind_run_ok hread]
  by_cases hempty : (part.isSome && docs.isEmpty) = true
  · rw [if_pos hempty]
    obtain ⟨hsome, hnil⟩ := Bool.and_eq_true_iff.mp hempty
    obtain ⟨part, rfl⟩ := Option.isSome_iff_exists.mp hsome
    rw [found_of_no_document _ _ _ (hdocs.trans (List.isEmpty_iff.mp hnil))]
    exact ⟨w, rfl, rfl⟩
  · rw [if_neg hempty]
    obtain ⟨u, hu, hget⟩ := hv w
    have hnearest : ((MemoryStore.asStore slot).nearest v n (chunkFilter part docs)).within "Failed to search" u =
        (.ok ((slot.get w).nearest v n (chunkFilter part docs)), u) :=
      Action.within_run_ok _ (by rw [← hget]; rfl)
    rw [Action.bind_run_ok (Action.within_run_ok _ hu), Action.bind_run_ok hnearest, found, hdocs]
    exact ⟨u, rfl, hget⟩

/-! ### Scopes -/

theorem pathOf_of_mem {docs : List Document} (hids : (docs.map Document.id).Nodup) {d : Document} (hd : d ∈ docs) :
    pathOf docs d.id = d.path := by
  unfold pathOf
  cases h : docs.reverse.find? fun e => e.id == d.id with
  | none =>
    rw [List.find?_eq_none] at h
    exact absurd (beq_self_eq_true d.id) (h d (List.mem_reverse.mpr hd))
  | some e =>
    have hid : e.id = d.id := by simpa using List.find?_some h
    have he : e ∈ docs := List.mem_reverse.mp (List.mem_of_find?_eq_some h)
    rw [List.inj_on_of_nodup_map hids he hd hid]
    rfl

/-- The chunk of a result belongs to a stored document whose path contains the text. -/
def InScope (m : MemoryStore) (part : String) (r : SearchResult) : Prop :=
  ∃ d ∈ m.documents, d.id = r.chunk.owner ∧ part.toList <:+: d.path.toList

instance (m : MemoryStore) (part : String) (r : SearchResult) : Decidable (InScope m part r) :=
  inferInstanceAs (Decidable (∃ d ∈ m.documents, d.id = r.chunk.owner ∧ part.toList <:+: d.path.toList))

/-- At most so many results, the best first, and those of one score in the order of the store. -/
structure Ranked (m : MemoryStore) (n : Nat) (rs : List SearchResult) : Prop where
  length : rs.length ≤ n
  ordered : rs.Pairwise fun a b => Similarity.rank b.score ≤ Similarity.rank a.score
  ties : ∀ x, ((rs.filter fun r => Similarity.rank r.score = x).map SearchResult.chunk).Sublist m.chunks

theorem found_take (minScore : Float32) (v : Vector32) (m : MemoryStore) (part : Option String) {k n : Nat}
    (h : k ≤ n) : found minScore v m part k <+: found minScore v m part n := by
  have htake : ∀ xs : List (Chunk × Float32), xs.take k <+: xs.take n := by
    intro xs
    rw [← Nat.min_eq_left h, ← List.take_take]
    exact List.take_prefix k _
  exact ((htake _).filter _).map _

/-- Chunks with their scores. -/
def scored (v : Vector32) (cs : List Chunk) : List (Chunk × Float32) := cs.map fun c => (c, Similarity.cosine v c.vector)

theorem scored_map_fst (v : Vector32) (cs : List Chunk) : (scored v cs).map Prod.fst = cs := by
  simp [scored, Function.comp_def]

theorem nearest_eq (v : Vector32) (n : Nat) (filter : ChunkFilter) (m : MemoryStore) :
    m.nearest v n filter = (Similarity.bestFirst (scored v (m.chunks.filter filter.selects))).take n := rfl

theorem results_ranked (minScore : Float32) (docs : List Document) (v : Vector32) (filter : ChunkFilter)
    (m : MemoryStore) (n : Nat) : Ranked m n (results minScore docs (m.nearest v n filter)) := by
  rw [nearest_eq]
  generalize hscored : scored v (m.chunks.filter filter.selects) = hits
  have hkept : (((Similarity.bestFirst hits).take n).filter fun h => decide (minScore ≤ h.2)).Sublist
      (Similarity.bestFirst hits) := List.filter_sublist.trans (List.take_sublist n _)
  unfold results
  refine ⟨?_, ?_, ?_⟩
  · rw [List.length_map]
    exact (List.length_filter_le _ _).trans (List.length_take_le n _)
  · rw [List.pairwise_map]
    exact (Similarity.bestFirst_ordered hits).sublist hkept
  · intro x
    have htied : ((Similarity.tied x _).map Prod.fst).Sublist ((Similarity.tied x (Similarity.bestFirst hits)).map _) :=
      (hkept.filter fun h => decide (Similarity.rank h.2 = x)).map Prod.fst
    rw [Similarity.tied_bestFirst] at htied
    rw [List.filter_map, List.map_map]
    have hchunks : ((Similarity.tied x hits).map Prod.fst).Sublist m.chunks := by
      apply (List.filter_sublist.map Prod.fst).trans
      rw [← hscored, scored_map_fst]
      exact List.filter_sublist
    exact htied.trans hchunks

theorem mem_containing {m : MemoryStore} {part : String} {d : Document} :
    d ∈ m.selectDocuments (.containing part) none ↔ d ∈ m.documents ∧ part.toList <:+: d.path.toList := by
  rw [(m.selectDocuments_perm _).mem_iff, List.mem_filter]
  exact and_congr_right fun _ => Text.occursIn_iff

theorem nearest_all (v : Vector32) (m : MemoryStore) (filter : ChunkFilter) {n : Nat} (hn : m.chunks.length ≤ n) :
    m.nearest v n filter = Similarity.bestFirst (scored v (m.chunks.filter filter.selects)) := by
  rw [nearest_eq, List.take_of_length_le]
  rw [(Similarity.bestFirst_perm _).length_eq, scored, List.length_map]
  exact (List.length_filter_le _ _).trans hn

/-- Chunks of some documents are ranked among themselves as they are among all. -/
theorem nearest_owned (v : Vector32) (m : MemoryStore) (ids : List Uuid) {n : Nat} (hn : m.chunks.length ≤ n) :
    (m.nearest v n .all).filter (fun h => ids.contains h.1.owner) = m.nearest v n (.ownedBy ids) := by
  have hall : m.chunks.filter ChunkFilter.all.selects = m.chunks := List.filter_eq_self.mpr fun _ _ => rfl
  rw [nearest_all v m .all hn, nearest_all v m (.ownedBy ids) hn, Similarity.bestFirst_filter, hall, scored,
    List.filter_map]
  rfl

theorem results_filter (minScore : Float32) (docs : List Document) (hits : List (Chunk × Float32))
    (p : Chunk → Bool) :
    (results minScore docs hits).filter (fun r => p r.chunk) = results minScore docs (hits.filter fun h => p h.1) := by
  unfold results
  rw [List.filter_map, List.filter_filter, List.filter_filter]
  congr 1
  exact List.filter_congr fun _ _ => Bool.and_comm _ _

theorem results_congr (minScore : Float32) {docs docs' : List Document} {hits : List (Chunk × Float32)}
    (h : ∀ a ∈ hits, pathOf docs a.1.owner = pathOf docs' a.1.owner) :
    results minScore docs hits = results minScore docs' hits := by
  apply List.map_congr_left
  intro a ha
  rw [h a (List.mem_of_mem_filter ha)]

theorem found_scoped (minScore : Float32) (v : Vector32) {m : MemoryStore} (hids : (m.documents.map Document.id).Nodup)
    (part : String) {n : Nat} (hn : m.chunks.length ≤ n) :
    found minScore v m (some part) n = (found minScore v m none n).filter fun r => InScope m part r := by
  have hall : ((m.selectDocuments .all none).map Document.id).Nodup := (m.selectAll_perm.map _).nodup_iff.mpr hids
  have hsome : ((m.selectDocuments (.containing part) none).map Document.id).Nodup := by
    rw [((m.selectDocuments_perm _).map _).nodup_iff]
    exact hids.sublist (List.filter_sublist.map _)
  generalize hids' : (m.selectDocuments (.containing part) none).map Document.id = ids
  have hscope : ∀ c : Chunk, ids.contains c.owner = true ↔ ∃ d ∈ m.documents, d.id = c.owner ∧
      part.toList <:+: d.path.toList := by
    intro c
    rw [← hids', List.contains_iff_mem, List.mem_map]
    simp only [mem_containing]
    exact exists_congr fun d => by rw [and_assoc, and_comm (a := d.id = _)]
  have hfilter : (fun r : SearchResult => decide (InScope m part r)) = fun r => ids.contains r.chunk.owner := by
    funext r
    rw [Bool.eq_iff_iff, decide_eq_true_eq, hscope]
    rfl
  rw [hfilter]
  unfold found
  simp only [documentFilter, chunkFilter, Option.isSome_some, Option.isSome_none, if_true, hids']
  rw [results_filter minScore _ _ fun c => ids.contains c.owner]
  rw [if_neg (by simp), nearest_owned v m ids hn]
  apply results_congr
  intro a ha
  rw [← nearest_owned v m ids hn, List.mem_filter] at ha
  have hmem := List.contains_iff_mem.mp ha.2
  rw [← hids', List.mem_map] at hmem
  obtain ⟨d, hd, hid⟩ := hmem
  rw [← hid, pathOf_of_mem hsome hd, pathOf_of_mem hall (m.selectAll_perm.mem_iff.mpr (mem_containing.mp hd).1)]

/-- All chunks that score high enough, each with its score and the path of its document. -/
structure Complete (m : MemoryStore) (v : Vector32) (minScore : Float32) (rs : List SearchResult) : Prop where
  chunks : (rs.map fun r => (r.chunk, r.score)).Perm
    ((m.chunks.map fun c => (c, Similarity.cosine v c.vector)).filter fun h => decide (minScore ≤ h.2))
  paths : ∀ r ∈ rs, ∀ d ∈ m.documents, d.id = r.chunk.owner → r.path = d.path
  orphans : ∀ r ∈ rs, (∀ d ∈ m.documents, d.id ≠ r.chunk.owner) → r.path = ""

theorem pathOf_of_not_mem {docs : List Document} {id : Uuid} (h : ∀ d ∈ docs, d.id ≠ id) : pathOf docs id = "" := by
  have hnone : docs.reverse.find? (fun d => d.id == id) = none := by
    rw [List.find?_eq_none]
    intro d hd
    simpa using h d (List.mem_reverse.mp hd)
  rw [pathOf, hnone]
  rfl

theorem path_of_mem_results {minScore : Float32} {docs : List Document} {hits : List (Chunk × Float32)}
    {r : SearchResult} (h : r ∈ results minScore docs hits) : r.path = pathOf docs r.chunk.owner := by
  obtain ⟨a, _, rfl⟩ := List.mem_map.mp h
  rfl

theorem found_complete (minScore : Float32) (v : Vector32) {m : MemoryStore}
    (hids : (m.documents.map Document.id).Nodup) {n : Nat} (hn : m.chunks.length ≤ n) :
    Complete m v minScore (found minScore v m none n) := by
  have hall : ((m.selectDocuments .all none).map Document.id).Nodup := (m.selectAll_perm.map _).nodup_iff.mpr hids
  have hmem : ∀ d, d ∈ m.selectDocuments .all none ↔ d ∈ m.documents := fun d => m.selectAll_perm.mem_iff
  unfold found
  refine ⟨?_, ?_, ?_⟩
  · have hself : m.chunks.filter ChunkFilter.all.selects = m.chunks := List.filter_eq_self.mpr fun _ _ => rfl
    show ((results _ _ (m.nearest v n .all)).map _).Perm _
    rw [nearest_all v m .all hn, hself, results, List.map_map]
    show (List.map id _).Perm _
    rw [List.map_id]
    exact (Similarity.bestFirst_perm _).filter _
  · intro r hr d hd hid
    rw [path_of_mem_results hr, ← hid]
    exact pathOf_of_mem hall ((hmem d).mpr hd)
  · intro r hr hnone
    rw [path_of_mem_results hr]
    exact pathOf_of_not_mem fun d hd => hnone d ((hmem d).mp hd)

/-- **A search within a scope agrees with one of everything.** Its results are those of the other that are in scope,
whatever the store keeps; and fewer results are the first of more. -/
theorem scoped_agrees (hstore : s.store = MemoryStore.asStore slot) (hquery : Text.isBlankText query = false)
    (hv : s.Answers slot query v) {m : MemoryStore} (hids : (m.documents.map Document.id).Nodup) :
    ∃ answer : Option String → Nat → List SearchResult,
      (∀ part n w, slot.get w = m → ∃ u, s.run query part n w = (.ok (answer part n), u) ∧ slot.get u = m) ∧
      (∀ part n, m.chunks.length ≤ n → answer (some part) n = (answer none n).filter fun r => InScope m part r) ∧
      (∀ n, m.chunks.length ≤ n → Complete m v s.minScore (answer none n)) ∧
      ∀ part k n, k ≤ n → answer part k <+: answer part n ∧ Ranked m k (answer part k) := by
  refine ⟨found s.minScore v m, ?_, ?_, ?_, ?_⟩
  · rintro part n w rfl
    exact run_found hstore hquery hv part n w
  · intro part n hn
    exact found_scoped s.minScore v hids part hn
  · intro n hn
    exact found_complete s.minScore v hids hn
  · intro part k n hkn
    exact ⟨found_take s.minScore v m part hkn, results_ranked s.minScore _ v _ m k⟩

/-- Two documents at one path, with chunks that score the same, and a chunk of no document. -/
def tiedStore : MemoryStore where
  documents := [⟨.ofNat 1, "src/a.cs", "", 0⟩, ⟨.ofNat 2, "src/a.cs", "", 0⟩]
  chunks := [⟨.ofNat 4, .ofNat 3, "", "A", none, "a", 1, [1, 0], false⟩,
    ⟨.ofNat 5, .ofNat 2, "", "A", none, "b", 1, [1, 0], false⟩,
    ⟨.ofNat 6, .ofNat 1, "", "A", none, "c", 1, [1, 0], false⟩]

def steady : Search MemoryStore where
  store := MemoryStore.asStore .whole
  provider := ⟨2, fun _ _ m => (.vectors [[1, 0]], m)⟩
  timeout := 30

theorem scoped_agrees_tied : (tiedStore.documents.map Document.id).Nodup ∧ Text.isBlankText "q" = false ∧
    steady.Answers .whole "q" [1, 0] ∧
    ∃ all, (steady.run "q" none 3 tiedStore).1 = .ok all ∧
      (steady.run "q" (some "src") 3 tiedStore).1 = .ok (all.filter fun r => InScope tiedStore "src" r) ∧
      (all.map fun r => r.chunk.snippet).Perm ["a", "b", "c"] := by
  have hids : (tiedStore.documents.map Document.id).Nodup := by decide
  have hquery : Text.isBlankText "q" = false := by decide +kernel
  have hv : steady.Answers .whole "q" [1, 0] := fun m => ⟨m, rfl, rfl⟩
  obtain ⟨answer, hrun, hscope, hall, _⟩ := scoped_agrees rfl hquery hv hids
  obtain ⟨_, hrun_all, _⟩ := hrun none 3 tiedStore rfl
  obtain ⟨_, hrun_part, _⟩ := hrun (some "src") 3 tiedStore rfl
  refine ⟨hids, hquery, hv, answer none 3, by rw [hrun_all], by rw [hrun_part, hscope "src" 3 (Nat.le_refl 3)], ?_⟩
  have hkept : ((tiedStore.chunks.map fun c => (c, Similarity.cosine [1, 0] c.vector)).filter fun h =>
      decide (steady.minScore ≤ h.2)).map (fun h => h.1.snippet) = ["a", "b", "c"] := by decide +kernel
  rw [← hkept]
  simpa [Function.comp_def] using (hall 3 (Nat.le_refl 3)).chunks.map fun h => h.1.snippet

end Search

end CodeCorpus
