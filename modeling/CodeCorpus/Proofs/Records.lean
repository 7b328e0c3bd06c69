import CodeCorpus.Changes
import CodeCorpus.Store.Memory
import Mathlib.Data.List.Nodup

/-!
# Records by path

What a synchronisation does to the records of a store, apart from everything else in a world. Records are
seen path by path (`heldAt`): each document at a path with its chunks in order. In sound records, where
identifiers are keys and no chunk is without its document, a removal by path and a rebuild act on one
path alone.
-/

namespace CodeCorpus

structure Records where
  documents : List Document
  chunks : List Chunk

namespace Records

def chunksOf (x : Records) (id : Uuid) : List Chunk := x.chunks.filter fun c => c.owner == id

/-- The documents at a path, each with its chunks in order. -/
def heldAt (x : Records) (path : String) : List (Document × List Chunk) :=
  (Changes.holders x.documents path).map fun d => (d, x.chunksOf d.id)

/-- Identifiers are keys, and no chunk is without its document. -/
structure Sound (x : Records) : Prop where
  documents : (x.documents.map Document.id).Nodup
  chunks : (x.chunks.map Chunk.id).Nodup
  owned : ∀ c ∈ x.chunks, ∃ d ∈ x.documents, d.id = c.owner

/-! ## What is done to records -/

/-- The records without the chunks of some documents, which are looked up first and then removed by their
own identifiers. -/
def withoutChunksOf (ids : List Uuid) (x : Records) : Records :=
  ⟨x.documents,
    x.chunks.filter fun c => !((x.chunks.filter fun c => ids.contains c.owner).map Chunk.id).contains c.id⟩

def withoutDocuments (ids : List Uuid) (x : Records) : Records :=
  ⟨x.documents.filter fun d => !ids.contains d.id, x.chunks⟩

def without (ids : List Uuid) (x : Records) : Records := (x.withoutChunksOf ids).withoutDocuments ids

/-- The records without the documents at a path and their chunks. -/
def withoutPath (path : String) (x : Records) : Records :=
  x.without ((Changes.holders x.documents path).map Document.id)

def put (d : Document) (x : Records) : Records := ⟨MemoryStore.insertDocument x.documents d, x.chunks⟩

def fill (cs : List Chunk) (x : Records) : Records :=
  ⟨x.documents, (x.chunks.filter fun c => !(cs.map Chunk.id).contains c.id) ++ cs⟩

/-- A document together with the chunks it was built with, or none if nothing is left of it. -/
abbrev Work := Document × Option (List Chunk)

/-- The records after a document has been built anew, or has failed and been rolled back. -/
def rebuild (h : Work) (x : Records) : Records :=
  match h.2 with
  | some cs => ((x.withoutPath h.1.path).put h.1).fill cs
  | none => ((x.withoutPath h.1.path).put h.1).without [h.1.id]

def rebuildAll (hs : List Work) (x : Records) : Records := hs.foldl (fun x h => x.rebuild h) x

def deleteAll (ds : List Document) (x : Records) : Records := ds.foldl (fun x d => x.without [d.id]) x

/-! ## Removal -/

theorem contains_map_filter {α β : Type} [DecidableEq β] {f : α → β} {l : List α} (h : (l.map f).Nodup)
    (p : α → Bool) {a : α} (ha : a ∈ l) : ((l.filter p).map f).contains (f a) = p a := by
  rw [Bool.eq_iff_iff, List.contains_iff_mem, List.mem_map]
  constructor
  · rintro ⟨b, hb, e⟩
    rw [List.mem_filter] at hb
    rw [← List.inj_on_of_nodup_map h hb.1 ha e]
    exact hb.2
  · exact fun hp => ⟨a, List.mem_filter.mpr ⟨ha, hp⟩, rfl⟩

theorem withoutChunksOf_chunks {x : Records} (hx : (x.chunks.map Chunk.id).Nodup) (ids : List Uuid) :
    (x.withoutChunksOf ids).chunks = x.chunks.filter fun c => !ids.contains c.owner := by
  unfold withoutChunksOf
  refine List.filter_congr fun c hc => ?_
  rw [contains_map_filter hx (fun c => ids.contains c.owner) hc]

theorem without_chunks {x : Records} (hx : (x.chunks.map Chunk.id).Nodup) (ids : List Uuid) :
    (x.without ids).chunks = x.chunks.filter fun c => !ids.contains c.owner := withoutChunksOf_chunks hx ids

theorem chunksOf_without {x : Records} (hx : (x.chunks.map Chunk.id).Nodup) {ids : List Uuid} {id : Uuid}
    (hi : ids.contains id = false) : (x.without ids).chunksOf id = x.chunksOf id := by
  unfold chunksOf
  rw [without_chunks hx, List.filter_filter]
  refine List.filter_congr fun c _ => ?_
  by_cases hc : c.owner = id
  · subst hc; simp only [hi]; simp
  · simp [hc]

theorem heldAt_without {x : Records} (hx : (x.chunks.map Chunk.id).Nodup) (ids : List Uuid) (path : String) :
    (x.without ids).heldAt path = (x.heldAt path).filter fun e => !ids.contains e.1.id := by
  have hh : Changes.holders (x.without ids).documents path =
      (Changes.holders x.documents path).filter fun d => !ids.contains d.id := by
    unfold Changes.holders without withoutDocuments withoutChunksOf
    rw [List.filter_filter, List.filter_filter]
    exact List.filter_congr fun d _ => Bool.and_comm _ _
  unfold heldAt
  rw [hh, List.filter_map]
  refine List.map_congr_left fun d hd => ?_
  have hd := (List.mem_filter.mp hd).2
  rw [chunksOf_without hx (by simpa using hd)]

theorem Sound.without {x : Records} (hx : x.Sound) (ids : List Uuid) : (x.without ids).Sound := by
  refine ⟨hx.documents.sublist (List.filter_sublist.map _), hx.chunks.sublist (List.filter_sublist.map _), ?_⟩
  intro c hc
  rw [without_chunks hx.chunks, List.mem_filter] at hc
  obtain ⟨d, hd, he⟩ := hx.owned c hc.1
  refine ⟨d, List.mem_filter.mpr ⟨hd, ?_⟩, he⟩
  rw [he]
  exact hc.2

theorem without_congr {x : Records} {ids ids' : List Uuid} (h : ∀ id, id ∈ ids ↔ id ∈ ids') :
    x.without ids = x.without ids' := by
  have hc : ∀ id, ids.contains id = ids'.contains id := fun id => by
    rw [Bool.eq_iff_iff, List.contains_iff_mem, List.contains_iff_mem, h id]
  unfold without withoutDocuments withoutChunksOf
  simp only [hc]

theorem withoutChunksOf_nil (x : Records) : x.withoutChunksOf [] = x := by
  simp [withoutChunksOf]

theorem without_nil (x : Records) : x.without [] = x := by
  simp [without, withoutDocuments, withoutChunksOf]

theorem spares_iff {x : Records} {ids : List Uuid} {c : Chunk} :
    (!((x.chunks.filter fun c => ids.contains c.owner).map Chunk.id).contains c.id) = true ↔
      ∀ k ∈ x.chunks, k.owner ∈ ids → k.id ≠ c.id := by
  simp only [Bool.not_eq_true', List.contains_eq_mem, decide_eq_false_iff_not, List.mem_map, List.mem_filter,
    decide_eq_true_eq, not_exists, not_and, and_imp]

theorem without_without (ids ids' : List Uuid) (x : Records) :
    (x.without ids).without ids' = x.without (ids ++ ids') := by
  have hdocs : ((x.without ids).without ids').documents = (x.without (ids ++ ids')).documents := by
    simp only [without, withoutDocuments, withoutChunksOf, List.filter_filter]
    refine List.filter_congr fun d _ => ?_
    rw [List.contains_append, Bool.not_or, Bool.and_comm]
  have hchunks : ((x.without ids).without ids').chunks = (x.without (ids ++ ids')).chunks := by
    show ((x.without ids).withoutChunksOf ids').chunks = (x.withoutChunksOf (ids ++ ids')).chunks
    unfold withoutChunksOf
    have hmem : ∀ k, k ∈ (x.without ids).chunks ↔
        k ∈ x.chunks ∧ ∀ j ∈ x.chunks, j.owner ∈ ids → j.id ≠ k.id := by
      intro k
      show k ∈ x.chunks.filter _ ↔ _
      rw [List.mem_filter, spares_iff]
    show (x.chunks.filter _).filter _ = x.chunks.filter _
    rw [List.filter_filter]
    refine List.filter_congr fun c _ => ?_
    rw [Bool.eq_iff_iff, Bool.and_eq_true, spares_iff, spares_iff, spares_iff]
    constructor
    · rintro ⟨hlater, hfirst⟩ k hk hown
      rcases List.mem_append.mp hown with hown | hown
      · exact hfirst k hk hown
      · -- a chunk that went the first time took the chunks of its identifier with it
        intro he
        exact hlater k ((hmem k).mpr ⟨hk, fun j hj ho => he ▸ hfirst j hj ho⟩) hown he
    · intro hall
      exact ⟨fun k hk ho => hall k ((hmem k).mp hk).1 (List.mem_append_right _ ho),
        fun k hk ho => hall k hk (List.mem_append_left _ ho)⟩
  calc (x.without ids).without ids'
      = ⟨((x.without ids).without ids').documents, ((x.without ids).without ids').chunks⟩ := rfl
    _ = x.without (ids ++ ids') := by rw [hdocs, hchunks]

theorem without_put (d : Document) (x : Records) : (x.put d).without [d.id] = x.without [d.id] := by
  have hdocs : (x.put d).documents.filter (fun e => !([d.id].contains e.id)) =
      x.documents.filter fun e => !([d.id].contains e.id) := by
    unfold put MemoryStore.insertDocument
    rw [List.filter_append, List.filter_filter]
    simp
  calc (x.put d).without [d.id]
      = ⟨(x.put d).documents.filter fun e => !([d.id].contains e.id), (x.withoutChunksOf [d.id]).chunks⟩ := rfl
    _ = x.without [d.id] := by rw [hdocs]; rfl

/-- Nothing is left of documents that are removed. -/
theorem not_mem_without {x : Records} {ids : List Uuid} :
    (∀ d ∈ (x.without ids).documents, d.id ∉ ids) ∧ ∀ c ∈ (x.without ids).chunks, c.owner ∉ ids := by
  constructor
  · intro d hd
    simpa using (List.mem_filter.mp hd).2
  · intro c hc ho
    obtain ⟨hmem, hspared⟩ := List.mem_filter.mp hc
    exact spares_iff.mp hspared c hmem ho rfl

theorem mem_holders {docs : List Document} {path : String} {d : Document} :
    d ∈ Changes.holders docs path ↔ d ∈ docs ∧ d.path = path := by
  simp [Changes.holders]

theorem mem_heldAt {x : Records} {path : String} {e : Document × List Chunk} :
    e ∈ x.heldAt path ↔ e.1 ∈ x.documents ∧ e.1.path = path ∧ x.chunksOf e.1.id = e.2 := by
  unfold heldAt
  rw [List.mem_map]
  constructor
  · rintro ⟨d, hd, rfl⟩
    obtain ⟨h1, h2⟩ := mem_holders.mp hd
    exact ⟨h1, h2, rfl⟩
  · rintro ⟨h1, h2, h3⟩
    exact ⟨e.1, mem_holders.mpr ⟨h1, h2⟩, Prod.ext rfl h3⟩

theorem of_mem_heldAt {x : Records} {path : String} {d : Document} {cs : List Chunk} (h : (d, cs) ∈ x.heldAt path) :
    d ∈ x.documents ∧ d.path = path ∧ x.chunksOf d.id = cs := mem_heldAt.mp h

theorem mem_heldAt_self {x : Records} {d : Document} (hd : d ∈ x.documents) :
    (d, x.chunksOf d.id) ∈ x.heldAt d.path := mem_heldAt.mpr ⟨hd, rfl, rfl⟩

theorem heldAt_of_holders {x : Records} {path : String} {d : Document} (h : Changes.holders x.documents path = [d]) :
    x.heldAt path = [(d, x.chunksOf d.id)] := by
  unfold heldAt
  rw [h]
  rfl

theorem Sound.exists_owner {x : Records} (hx : x.Sound) {c : Chunk} (hc : c ∈ x.chunks) :
    ∃ d ∈ x.documents, c ∈ x.chunksOf d.id := by
  obtain ⟨d, hd, ho⟩ := hx.owned c hc
  exact ⟨d, hd, List.mem_filter.mpr ⟨hc, beq_iff_eq.mpr ho.symm⟩⟩

theorem nodup_paths_iff {x : Records} :
    (x.documents.map Document.path).Nodup ↔ ∀ path, (x.heldAt path).length ≤ 1 := by
  rw [List.nodup_iff_count_le_one]
  refine forall_congr' fun path => ?_
  unfold heldAt Changes.holders
  rw [List.length_map, List.count, List.countP_map, List.countP_eq_length_filter]
  rfl

theorem heldAt_withoutPath {x : Records} (hx : x.Sound) (path q : String) :
    (x.withoutPath path).heldAt q = if q = path then [] else x.heldAt q := by
  have hc : ∀ e ∈ x.heldAt q,
      ((Changes.holders x.documents path).map Document.id).contains e.1.id = (q == path) := by
    intro e he
    obtain ⟨hd, hp, _⟩ := mem_heldAt.mp he
    rw [← hp]
    exact contains_map_filter hx.documents (fun d => d.path == path) hd
  unfold withoutPath
  rw [heldAt_without hx.chunks, List.filter_congr fun e he => by rw [hc e he]]
  by_cases hq : q = path <;> simp [hq]

theorem Sound.withoutPath {x : Records} (hx : x.Sound) (path : String) : (x.withoutPath path).Sound :=
  hx.without _

theorem heldAt_deleteAll : ∀ (ds : List Document) {x : Records}, (x.chunks.map Chunk.id).Nodup → ∀ path,
    (x.deleteAll ds).heldAt path = (x.heldAt path).filter fun e => !(ds.map Document.id).contains e.1.id
  | [], x, _, path => by simp [deleteAll]
  | d :: ds, x, hx, path => by
    have hw : ((x.without [d.id]).chunks.map Chunk.id).Nodup := hx.sublist (List.filter_sublist.map _)
    have ih := heldAt_deleteAll ds hw path
    simp only [deleteAll, List.foldl_cons] at ih ⊢
    rw [ih, heldAt_without hx, List.filter_filter]
    refine List.filter_congr fun e _ => ?_
    simp [Bool.and_comm]

theorem Sound.deleteAll : ∀ (ds : List Document) {x : Records}, x.Sound → (x.deleteAll ds).Sound
  | [], _, hx => hx
  | _ :: ds, _, hx => Sound.deleteAll ds (hx.without _)

/-! ## Rebuilding -/

/-- Identifiers that are new to the records and differ from one another, and chunks that carry the
identifier of their document. -/
structure Fresh (x : Records) (hs : List Work) : Prop where
  documents : (x.documents.map Document.id ++ hs.map fun h => h.1.id).Nodup
  chunks : (x.chunks.map Chunk.id ++ hs.flatMap fun h => (h.2.getD []).map Chunk.id).Nodup
  owners : ∀ h ∈ hs, ∀ c ∈ h.2.getD [], c.owner = h.1.id

theorem Fresh.sublist {x y : Records} {hs : List Work} (hf : x.Fresh hs)
    (hd : y.documents.Sublist x.documents) (hc : y.chunks.Sublist x.chunks) : y.Fresh hs :=
  ⟨hf.documents.sublist ((hd.map _).append (List.Sublist.refl _)),
    hf.chunks.sublist ((hc.map _).append (List.Sublist.refl _)), hf.owners⟩

theorem withoutPath_documents_sublist (x : Records) (path : String) :
    (x.withoutPath path).documents.Sublist x.documents := List.filter_sublist

theorem withoutPath_chunks_sublist (x : Records) (path : String) :
    (x.withoutPath path).chunks.Sublist x.chunks := List.filter_sublist

theorem Fresh.id_not_mem_of_mem {x : Records} {h : Work} {hs : List Work} (hf : x.Fresh hs) (hh : h ∈ hs) :
    h.1.id ∉ x.documents.map Document.id := by
  intro hd
  exact (List.nodup_append.mp hf.documents).2.2 _ hd _ (List.mem_map_of_mem (f := fun h => h.1.id) hh) rfl

theorem Fresh.id_not_mem {x : Records} {h : Work} {hs : List Work} (hf : x.Fresh (h :: hs)) :
    ∀ d ∈ x.documents, d.id ≠ h.1.id := by
  intro d hd he
  exact hf.id_not_mem_of_mem List.mem_cons_self (he ▸ List.mem_map_of_mem hd)

theorem put_documents {x : Records} {d : Document} (hd : ∀ e ∈ x.documents, e.id ≠ d.id) :
    (x.put d).documents = x.documents ++ [d] := by
  unfold put MemoryStore.insertDocument
  rw [List.filter_eq_self.mpr fun e he => by simpa using hd e he]

theorem fill_chunks {x : Records} {cs : List Chunk} (hc : (x.chunks.map Chunk.id ++ cs.map Chunk.id).Nodup) :
    (x.fill cs).chunks = x.chunks ++ cs := by
  unfold fill
  rw [List.filter_eq_self.mpr]
  intro c hm
  have := (List.nodup_append.mp hc).2.2 _ (List.mem_map_of_mem (f := Chunk.id) hm)
  simp only [Bool.not_eq_true', List.contains_eq_mem, decide_eq_false_iff_not]
  exact fun hin => this _ hin rfl

theorem rebuild_some {x : Records} {d : Document} {cs : List Chunk} {hs : List Work}
    (hf : x.Fresh ((d, some cs) :: hs)) :
    x.rebuild (d, some cs) =
      ⟨(x.withoutPath d.path).documents ++ [d], (x.withoutPath d.path).chunks ++ cs⟩ := by
  have hw := hf.sublist (withoutPath_documents_sublist x d.path) (withoutPath_chunks_sublist x d.path)
  have hc : ((x.withoutPath d.path).chunks.map Chunk.id ++ cs.map Chunk.id).Nodup :=
    hw.chunks.sublist ((List.Sublist.refl _).append (List.sublist_append_left _ _))
  have hp := put_documents hw.id_not_mem
  have hl := fill_chunks (x := (x.withoutPath d.path).put d) hc
  show Records.mk ((x.withoutPath d.path).put d).documents (((x.withoutPath d.path).put d).fill cs).chunks = _
  rw [hp, hl]
  rfl

/-- A rebuild that fails leaves the records as if the path had only been cleared. -/
theorem rebuild_none {x : Records} (hx : x.Sound) {d : Document} {hs : List Work}
    (hf : x.Fresh ((d, none) :: hs)) : x.rebuild (d, none) = x.withoutPath d.path := by
  have hx' := hx.withoutPath d.path
  have hw := hf.sublist (withoutPath_documents_sublist x d.path) (withoutPath_chunks_sublist x d.path)
  have hd : ∀ e ∈ (x.withoutPath d.path).documents, e.id ≠ d.id := hw.id_not_mem
  have hp := put_documents hd
  have hdocs : (((x.withoutPath d.path).put d).without [d.id]).documents = (x.withoutPath d.path).documents := by
    show List.filter _ ((x.withoutPath d.path).put d).documents = _
    rw [hp, List.filter_append, List.filter_eq_self.mpr fun e he => by simpa using hd e he]
    simp
  -- no chunk goes: each has its document among the old ones, and none of these has the new identifier
  have hchunks : (((x.withoutPath d.path).put d).without [d.id]).chunks = (x.withoutPath d.path).chunks := by
    rw [without_chunks (x := (x.withoutPath d.path).put d) hx'.chunks]
    refine List.filter_eq_self.mpr fun c hc => ?_
    obtain ⟨e, he, ho⟩ := hx'.owned c hc
    simpa [← ho] using hd e he
  show ((x.withoutPath d.path).put d).without [d.id] = _
  calc ((x.withoutPath d.path).put d).without [d.id]
      = ⟨(((x.withoutPath d.path).put d).without [d.id]).documents,
          (((x.withoutPath d.path).put d).without [d.id]).chunks⟩ := rfl
    _ = x.withoutPath d.path := by rw [hdocs, hchunks]

theorem Fresh.rebuild {x : Records} (hx : x.Sound) {h : Work} {hs : List Work} (hf : x.Fresh (h :: hs)) :
    (x.rebuild h).Fresh hs := by
  obtain ⟨d, o⟩ := h
  have hw := hf.sublist (withoutPath_documents_sublist x d.path) (withoutPath_chunks_sublist x d.path)
  have ho : ∀ h ∈ hs, ∀ c ∈ h.2.getD [], c.owner = h.1.id := fun h hh => hf.owners h (List.mem_cons_of_mem _ hh)
  cases o with
  | some cs =>
    rw [rebuild_some hf]
    refine ⟨?_, ?_, ho⟩
    · simpa using hw.documents
    · simpa using hw.chunks
  | none =>
    rw [rebuild_none hx hf]
    refine ⟨?_, by simpa using hw.chunks, ho⟩
    exact hw.documents.sublist ((List.Sublist.refl _).append (List.sublist_cons_self _ _))

theorem Sound.rebuild {x : Records} (hx : x.Sound) {h : Work} {hs : List Work} (hf : x.Fresh (h :: hs)) :
    (x.rebuild h).Sound := by
  obtain ⟨d, o⟩ := h
  have hx' := hx.withoutPath d.path
  have hw := hf.sublist (withoutPath_documents_sublist x d.path) (withoutPath_chunks_sublist x d.path)
  cases o with
  | none => rw [rebuild_none hx hf]; exact hx'
  | some cs =>
    rw [rebuild_some hf]
    refine ⟨?_, ?_, ?_⟩
    · rw [List.map_append]
      exact hw.documents.sublist ((List.Sublist.refl _).append (by simp))
    · rw [List.map_append]
      exact hw.chunks.sublist ((List.Sublist.refl _).append (List.sublist_append_left _ _))
    · intro c hc
      rcases List.mem_append.mp hc with hc | hc
      · obtain ⟨e, he, ho⟩ := hx'.owned c hc
        exact ⟨e, List.mem_append_left _ he, ho⟩
      · exact ⟨d, List.mem_append_right _ (List.mem_singleton_self _), (hf.owners (d, some cs) (by simp) c hc).symm⟩

/-- A rebuild acts on the path of its document alone: there it leaves the new document with its chunks, or
nothing. -/
theorem heldAt_rebuild {x : Records} (hx : x.Sound) {h : Work} {hs : List Work} (hf : x.Fresh (h :: hs))
    (q : String) :
    (x.rebuild h).heldAt q = if q = h.1.path then (h.2.map fun cs => (h.1, cs)).toList else x.heldAt q := by
  obtain ⟨d, o⟩ := h
  have hx' := hx.withoutPath d.path
  have hq := heldAt_withoutPath hx d.path q
  cases o with
  | none => rw [rebuild_none hx hf, hq]; rfl
  | some cs =>
    have hw := hf.sublist (withoutPath_documents_sublist x d.path) (withoutPath_chunks_sublist x d.path)
    have hd := hw.id_not_mem
    have hcs : ∀ c ∈ cs, c.owner = d.id := fun c hc => hf.owners (d, some cs) (by simp) c hc
    rw [rebuild_some hf]
    by_cases h : q = d.path
    · subst h
      rw [if_pos rfl] at hq ⊢
      have hh : Changes.holders (x.withoutPath d.path).documents d.path = [] := by
        unfold heldAt at hq; simpa using hq
      have hold : (x.withoutPath d.path).chunks.filter (fun c => c.owner == d.id) = [] := by
        refine List.filter_eq_nil_iff.mpr fun c hc => ?_
        obtain ⟨e, he, ho⟩ := hx'.owned c hc
        simpa [← ho] using hd e he
      have hnew : cs.filter (fun c => c.owner == d.id) = cs :=
        List.filter_eq_self.mpr fun c hc => by simp [hcs c hc]
      unfold Changes.holders at hh
      simp [heldAt, Changes.holders, chunksOf, hh, hold, hnew]
    · rw [if_neg h] at hq ⊢
      rw [← hq]
      have hne : ¬ d.path = q := fun e => h e.symm
      unfold heldAt Changes.holders
      simp only [List.filter_append, List.filter_cons, List.filter_nil, beq_iff_eq, hne, if_false,
        List.append_nil]
      refine List.map_congr_left fun e he => ?_
      have hid := hd e (List.mem_filter.mp he).1
      have hnew : cs.filter (fun c => c.owner == e.id) = [] :=
        List.filter_eq_nil_iff.mpr fun c hc => by rw [hcs c hc]; simpa using fun a => hid a.symm
      simp [chunksOf, hnew]

theorem Sound.rebuildAll : ∀ {hs : List Work} {x : Records}, x.Sound → x.Fresh hs → (x.rebuildAll hs).Sound
  | [], _, hx, _ => hx
  | h :: _, x, hx, hf => by
    have ih := Sound.rebuildAll (hx.rebuild hf) (hf.rebuild hx)
    exact ih

/-- The last rebuild of a path decides what is held there. -/
theorem heldAt_rebuildAll : ∀ {hs : List Work} {x : Records}, x.Sound → x.Fresh hs → ∀ q,
    (x.rebuildAll hs).heldAt q =
      match (hs.filter fun h => h.1.path == q).getLast? with
      | some h => (h.2.map fun cs => (h.1, cs)).toList
      | none => x.heldAt q
  | [], _, _, _, _ => rfl
  | h :: hs, x, hx, hf, q => by
    have ih := heldAt_rebuildAll (hx.rebuild hf) (hf.rebuild hx) q
    simp only [rebuildAll, List.foldl_cons] at ih ⊢
    rw [ih, heldAt_rebuild hx hf, List.filter_cons]
    by_cases hq : h.1.path = q
    · cases hl : (hs.filter fun h => h.1.path == q).getLast? with
      | none => simp [hq, List.getLast?_eq_none_iff.mp hl]
      | some l => simp [hq, List.getLast?_cons, hl]
    · have hq' : ¬ q = h.1.path := fun e => hq e.symm
      simp [hq, hq']

theorem heldAt_rebuildAll_other {hs : List Work} {x : Records} (hx : x.Sound) (hf : x.Fresh hs) {q : String}
    (hq : ∀ h ∈ hs, h.1.path ≠ q) : (x.rebuildAll hs).heldAt q = x.heldAt q := by
  have hnil : hs.filter (fun h => h.1.path == q) = [] :=
    List.filter_eq_nil_iff.mpr fun h hh => by simpa using hq h hh
  rw [heldAt_rebuildAll hx hf, hnil]
  rfl

theorem heldAt_rebuildAll_self {hs : List Work} {x : Records} (hx : x.Sound) (hf : x.Fresh hs)
    (hn : (hs.map fun h => h.1.path).Nodup) {h : Work} (hh : h ∈ hs) :
    (x.rebuildAll hs).heldAt h.1.path = (h.2.map fun cs => (h.1, cs)).toList := by
  have hm : h ∈ hs.filter fun g => g.1.path == h.1.path := List.mem_filter.mpr ⟨hh, beq_self_eq_true _⟩
  rw [heldAt_rebuildAll hx hf]
  cases hl : (hs.filter fun g => g.1.path == h.1.path).getLast? with
  | none => rw [List.getLast?_eq_none_iff.mp hl] at hm; cases hm
  | some g =>
    have hg := List.mem_filter.mp (List.mem_of_getLast? hl)
    rw [List.inj_on_of_nodup_map hn hg.1 hh (by simpa using hg.2)]

theorem mem_heldAt_rebuildAll {hs : List Work} {x : Records} (hx : x.Sound) (hf : x.Fresh hs) {q : String}
    {e : Document × List Chunk} (he : e ∈ (x.rebuildAll hs).heldAt q) :
    e ∈ x.heldAt q ∨ (e.1, some e.2) ∈ hs ∧ e.1.path = q := by
  rw [heldAt_rebuildAll hx hf] at he
  cases hl : (hs.filter fun h => h.1.path == q).getLast? with
  | none => rw [hl] at he; exact .inl he
  | some h =>
    rw [hl] at he
    have hm := List.mem_filter.mp (List.mem_of_getLast? hl)
    obtain ⟨d, o⟩ := h
    cases o with
    | none => cases he
    | some cs =>
      rw [List.mem_singleton.mp he]
      exact .inr ⟨hm.1, by simpa using hm.2⟩

theorem length_heldAt_rebuildAll {hs : List Work} {x : Records} (hx : x.Sound) (hf : x.Fresh hs) {q : String}
    (hle : (x.heldAt q).length ≤ 1) : ((x.rebuildAll hs).heldAt q).length ≤ 1 := by
  rw [heldAt_rebuildAll hx hf]
  split
  · exact Option.length_toList_le
  · exact hle

theorem deleteAll_documents_sublist : ∀ (ds : List Document) (x : Records),
    (x.deleteAll ds).documents.Sublist x.documents
  | [], _ => List.Sublist.refl _
  | d :: ds, x => (deleteAll_documents_sublist ds (x.without [d.id])).trans List.filter_sublist

theorem deleteAll_chunks_sublist : ∀ (ds : List Document) (x : Records),
    (x.deleteAll ds).chunks.Sublist x.chunks
  | [], _ => List.Sublist.refl _
  | d :: ds, x => (deleteAll_chunks_sublist ds (x.without [d.id])).trans List.filter_sublist

end Records

end CodeCorpus
