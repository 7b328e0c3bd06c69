import CodeCorpus.Proofs.Convergence

/-!
# What a run that breaks off leaves behind

When single operations fail, or a run stops between two of them, a document may be left without its chunks.
Nothing worse happens: the records stay sound, and each document has the digest of known bytes and either
all of the chunks cut from these or none.
-/

namespace CodeCorpus

/-- A document to build has the digest of known bytes, and what a corpus answers for it is cut from these. -/
def Pending.Promised (p : Pending) (cut : String → ByteArray → List Body) (contents : Set ByteArray)
    (files : List Content) : Prop :=
  ∃ b ∈ contents, p.document.digest = Digest.fingerprint b ∧
    ∀ answer, p.CutFrom cut files answer → ∀ cs, answer = .ok cs → cs.map Chunk.body = cut p.document.path b

namespace Records

/-- A document has the digest of known bytes, and has all of the chunks cut from these or none. -/
def Credible (cut : String → ByteArray → List Body) (contents : Set ByteArray) (x : Records) (d : Document) :
    Prop :=
  ∃ b ∈ contents, d.digest = Digest.fingerprint b ∧
    (x.chunksOf d.id = [] ∨ (x.chunksOf d.id).map Chunk.body = cut d.path b)

/-- What any run keeps, whatever fails in it; `made` are the identifiers made so far. -/
structure Sane (cut : String → ByteArray → List Body) (contents : Set ByteArray) (made : List Uuid)
    (x : Records) : Prop where
  sound : x.Sound
  documents : ∀ d ∈ x.documents, d.id ∈ made
  chunks : ∀ c ∈ x.chunks, c.id ∈ made
  credible : ∀ d ∈ x.documents, x.Credible cut contents d

/-- The documents still to build have distinct identifiers, made already but new to the records. -/
structure Awaits (cut : String → ByteArray → List Body) (contents : Set ByteArray) (files : List Content)
    (ps : List Pending) (made : List Uuid) (x : Records) : Prop where
  distinct : (ps.map fun p => p.document.id).Nodup
  made : ∀ p ∈ ps, p.document.id ∈ made
  absent : ∀ p ∈ ps, ∀ d ∈ x.documents, d.id ≠ p.document.id
  promised : ∀ p ∈ ps, p.Promised cut contents files

variable {cut : String → ByteArray → List Body} {contents : Set ByteArray} {files : List Content}
  {ps : List Pending} {made made' : List Uuid} {x y : Records}

theorem Sane.mono (h : x.Sane cut contents made) (hm : made ⊆ made') : x.Sane cut contents made' :=
  ⟨h.sound, fun d hd => hm (h.documents d hd), fun c hc => hm (h.chunks c hc), h.credible⟩

theorem Awaits.mono (h : x.Awaits cut contents files ps made) (hm : made ⊆ made')
    (hd : ∀ d ∈ y.documents, d ∈ x.documents) : y.Awaits cut contents files ps made' :=
  ⟨h.distinct, fun p hp => hm (h.made p hp), fun p hp d hd' => h.absent p hp d (hd d hd'), h.promised⟩

theorem Awaits.tail {p : Pending} (h : x.Awaits cut contents files (p :: ps) made) :
    x.Awaits cut contents files ps made :=
  ⟨(List.nodup_cons.mp h.distinct).2, fun q hq => h.made q (List.mem_cons_of_mem p hq),
    fun q hq => h.absent q (List.mem_cons_of_mem p hq), fun q hq => h.promised q (List.mem_cons_of_mem p hq)⟩

/-! ## Removals -/

theorem chunksOf_withoutChunksOf (hx : x.Sound) (ids : List Uuid) (id : Uuid) :
    (x.withoutChunksOf ids).chunksOf id = if id ∈ ids then [] else x.chunksOf id := by
  unfold chunksOf
  rw [withoutChunksOf_chunks hx.chunks, List.filter_filter]
  by_cases hi : id ∈ ids
  · rw [if_pos hi]
    refine List.filter_eq_nil_iff.mpr fun c _ => ?_
    by_cases hc : c.owner = id
    · simp [hc, hi]
    · simp [hc]
  · rw [if_neg hi]
    refine List.filter_congr fun c _ => ?_
    by_cases hc : c.owner = id
    · simp [hc, hi]
    · simp [hc]

theorem Sane.withoutChunksOf (h : x.Sane cut contents made) (ids : List Uuid) :
    (x.withoutChunksOf ids).Sane cut contents made ∧ ∀ c ∈ (x.withoutChunksOf ids).chunks, c.owner ∉ ids := by
  have hsub : (x.withoutChunksOf ids).chunks.Sublist x.chunks := List.filter_sublist
  refine ⟨⟨⟨h.sound.documents, h.sound.chunks.sublist (hsub.map _), ?_⟩, h.documents, ?_, ?_⟩, ?_⟩
  · exact fun c hc => h.sound.owned c (hsub.subset hc)
  · exact fun c hc => h.chunks c (hsub.subset hc)
  · intro d hd
    obtain ⟨b, hb, hdig, hcs⟩ := h.credible d hd
    refine ⟨b, hb, hdig, ?_⟩
    rw [chunksOf_withoutChunksOf h.sound]
    by_cases hi : d.id ∈ ids
    · exact .inl (if_pos hi)
    · rw [if_neg hi]; exact hcs
  · intro c hc
    rw [withoutChunksOf_chunks h.sound.chunks, List.mem_filter] at hc
    simpa using hc.2

theorem Sane.withoutDocuments (h : x.Sane cut contents made) {ids : List Uuid}
    (hc : ∀ c ∈ x.chunks, c.owner ∉ ids) : (x.withoutDocuments ids).Sane cut contents made := by
  have hsub : (x.withoutDocuments ids).documents.Sublist x.documents := List.filter_sublist
  refine ⟨⟨h.sound.documents.sublist (hsub.map _), h.sound.chunks, ?_⟩, ?_, h.chunks, ?_⟩
  · intro c hc'
    obtain ⟨d, hd, ho⟩ := h.sound.owned c hc'
    refine ⟨d, List.mem_filter.mpr ⟨hd, ?_⟩, ho⟩
    rw [ho]
    simpa using hc c hc'
  · exact fun d hd => h.documents d (hsub.subset hd)
  · exact fun d hd => h.credible d (hsub.subset hd)

theorem Sane.withoutPath (h : x.Sane cut contents made) (path : String) :
    (x.withoutPath path).Sane cut contents made := by
  obtain ⟨hs, hfree⟩ := h.withoutChunksOf ((Changes.holders x.documents path).map Document.id)
  exact hs.withoutDocuments hfree

/-! ## Additions -/

theorem Sane.put (h : x.Sane cut contents made) {d : Document} (hd : ∀ e ∈ x.documents, e.id ≠ d.id)
    (hm : d.id ∈ made) (hb : ∃ b ∈ contents, d.digest = Digest.fingerprint b) :
    (x.put d).Sane cut contents made ∧ (x.put d).chunksOf d.id = [] := by
  have hnone : x.chunksOf d.id = [] := by
    refine List.filter_eq_nil_iff.mpr fun c hc => ?_
    obtain ⟨e, he, ho⟩ := h.sound.owned c hc
    simpa [← ho] using hd e he
  have hdocs := put_documents hd
  refine ⟨⟨⟨?_, h.sound.chunks, ?_⟩, ?_, h.chunks, ?_⟩, hnone⟩
  · rw [hdocs, List.map_append]
    refine List.nodup_append.mpr ⟨h.sound.documents, List.nodup_singleton _, ?_⟩
    intro id hid id' hid'
    obtain ⟨e, he, rfl⟩ := List.mem_map.mp hid
    rw [List.mem_singleton.mp hid']
    exact hd e he
  · intro c hc
    obtain ⟨e, he, ho⟩ := h.sound.owned c hc
    exact ⟨e, hdocs ▸ List.mem_append_left _ he, ho⟩
  · intro e he
    rw [hdocs] at he
    rcases List.mem_append.mp he with he | he
    · exact h.documents e he
    · rw [List.mem_singleton.mp he]; exact hm
  · intro e he
    rw [hdocs] at he
    rcases List.mem_append.mp he with he | he
    · exact h.credible e he
    · rw [List.mem_singleton.mp he]
      obtain ⟨b, hb, hdig⟩ := hb
      exact ⟨b, hb, hdig, .inl hnone⟩

theorem Sane.fill (h : x.Sane cut contents made) {d : Document} (hd : d ∈ x.documents)
    (hnone : x.chunksOf d.id = []) {cs : List Chunk} (hn : (x.chunks.map Chunk.id ++ cs.map Chunk.id).Nodup)
    (hm : ∀ c ∈ cs, c.id ∈ made) (ho : ∀ c ∈ cs, c.owner = d.id)
    (hb : ∃ b ∈ contents, d.digest = Digest.fingerprint b ∧ cs.map Chunk.body = cut d.path b) :
    (x.fill cs).Sane cut contents made := by
  have hch := fill_chunks hn
  refine ⟨⟨h.sound.documents, ?_, ?_⟩, h.documents, ?_, ?_⟩
  · rw [hch, List.map_append]; exact hn
  · intro c hc
    rw [hch] at hc
    rcases List.mem_append.mp hc with hc | hc
    · exact h.sound.owned c hc
    · exact ⟨d, hd, (ho c hc).symm⟩
  · intro c hc
    rw [hch] at hc
    rcases List.mem_append.mp hc with hc | hc
    · exact h.chunks c hc
    · exact hm c hc
  · intro e he
    have hsplit : (x.fill cs).chunksOf e.id = x.chunksOf e.id ++ cs.filter fun c => c.owner == e.id := by
      unfold chunksOf
      rw [hch, List.filter_append]
    by_cases hed : e.id = d.id
    · have hee : e = d := List.inj_on_of_nodup_map h.sound.documents he hd hed
      have hall : cs.filter (fun c => c.owner == d.id) = cs :=
        List.filter_eq_self.mpr fun c hc => by simp [ho c hc]
      obtain ⟨b, hb, hdig, hcut⟩ := hb
      refine ⟨b, hb, hee ▸ hdig, .inr ?_⟩
      rw [hsplit, hee, hnone, hall, List.nil_append, hcut]
    · have hnil : cs.filter (fun c => c.owner == e.id) = [] :=
        List.filter_eq_nil_iff.mpr fun c hc => by rw [ho c hc]; simpa using fun a => hed a.symm
      obtain ⟨b, hb, hdig, hcs⟩ := h.credible e he
      refine ⟨b, hb, hdig, ?_⟩
      rw [hsplit, hnil, List.append_nil]
      exact hcs

end Records

end CodeCorpus
