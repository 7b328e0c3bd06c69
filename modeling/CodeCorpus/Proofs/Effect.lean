import CodeCorpus.Proofs.Changes
import CodeCorpus.Proofs.Course

/-!
# The effect of a run

A run that is not cancelled decides path by path what a store holds: nothing where no file is listed, what
was held before where the file is settled, and otherwise what became of the one document built for the
path. So the outcome of one file has no effect on any other.
-/

namespace CodeCorpus

/-- What a chunk says, apart from identifiers. -/
structure Body where
  namespaceName : String
  typeName : String
  memberName : Option String
  snippet : String
  tokens : Nat
  vector : Vector32
  oversized : Bool

def Chunk.body (c : Chunk) : Body :=
  ⟨c.namespaceName, c.typeName, c.memberName, c.snippet, c.tokens, c.vector, c.oversized⟩

/-- The chunks of an answer belong to the document, and have their identifiers out of `ids`. -/
def Pending.Owns (p : Pending) (answer : Except Fault (List Chunk)) (ids : List Uuid) : Prop :=
  ∀ cs, answer = .ok cs → (cs.map Chunk.id).Sublist ids ∧ ∀ c ∈ cs, c.owner = p.document.id

/-! ## Fresh identifiers -/

namespace Handled

theorem answer_of_outcome {h : Handled} {cs : List Chunk} (ho : h.outcome = .ok cs) : h.answer = .ok cs := by
  unfold outcome at ho
  cases ha : h.answer with
  | error f => rw [ha] at ho; cases ho
  | ok ds =>
    rw [ha] at ho
    dsimp only at ho
    split at ho <;> cases ho
    rfl

theorem owns_work {h : Handled} (ho : h.pending.Owns h.answer h.ids) :
    ((h.work.2.getD []).map Chunk.id).Sublist h.ids ∧ ∀ c ∈ h.work.2.getD [], c.owner = h.work.1.id := by
  unfold work
  cases hc : h.outcome with
  | error f => exact ⟨List.nil_sublist _, by simp [Except.toOption]⟩
  | ok cs => exact ho cs (answer_of_outcome hc)

theorem work_ids_sublist : ∀ {hs : List Handled}, (∀ h ∈ hs, h.pending.Owns h.answer h.ids) →
    ((hs.map work).flatMap fun e => (e.2.getD []).map Chunk.id).Sublist (hs.flatMap Handled.ids)
  | [], _ => List.Sublist.refl _
  | h :: hs, ho => by
    have ih := work_ids_sublist fun g hg => ho g (List.mem_cons_of_mem h hg)
    exact (owns_work (ho h List.mem_cons_self)).1.append ih

end Handled

namespace Records

/-- Identifiers that differ from one another and from all those in the records. -/
structure Unused (x : Records) (ids : List Uuid) : Prop where
  nodup : ids.Nodup
  documents : ∀ d ∈ x.documents, d.id ∉ ids
  chunks : ∀ c ∈ x.chunks, c.id ∉ ids

theorem Unused.fresh {x : Records} (hx : x.Sound) {ids : List Uuid} {hs : List Handled}
    (hu : x.Unused (ids ++ hs.flatMap Handled.ids))
    (hids : (hs.map fun h => h.pending.document.id).Sublist ids)
    (ho : ∀ h ∈ hs, h.pending.Owns h.answer h.ids) : x.Fresh (hs.map Handled.work) := by
  have hdoc : ((hs.map Handled.work).map fun e => e.1.id).Sublist (ids ++ hs.flatMap Handled.ids) := by
    rw [List.map_map]
    exact hids.trans (List.sublist_append_left _ _)
  have hchunk := (Handled.work_ids_sublist ho).trans (List.sublist_append_right ids _)
  refine ⟨?_, ?_, ?_⟩
  · refine List.nodup_append.mpr ⟨hx.documents, hu.nodup.sublist hdoc, ?_⟩
    rintro id hid _ hid' rfl
    obtain ⟨d, hd, rfl⟩ := List.mem_map.mp hid
    exact hu.documents d hd (hdoc.subset hid')
  · refine List.nodup_append.mpr ⟨hx.chunks, hu.nodup.sublist hchunk, ?_⟩
    rintro id hid _ hid' rfl
    obtain ⟨c, hc, rfl⟩ := List.mem_map.mp hid
    exact hu.chunks c hc (hchunk.subset hid')
  · intro e he
    obtain ⟨h, hh, rfl⟩ := List.mem_map.mp he
    exact (Handled.owns_work (ho h hh)).2

end Records

/-! ## Paths after a run -/

namespace Records

variable {x : Records} {listing : List Listed} {now : Int} {stored : List Document} {c : Changes}
  {ids : List Uuid}

theorem heldAt_deleted (hx : x.Sound) (hp : stored.Perm x.documents)
    (hc : Changes.Compared listing now stored c ids) (path : String) :
    (x.deleteAll c.deleted).heldAt path = if path ∈ listing.map Listed.path then x.heldAt path else [] := by
  have hn : (stored.map Document.id).Nodup := (hp.map Document.id).nodup_iff.mpr hx.documents
  have hl : (listing.any fun e => e.path == path) = decide (path ∈ listing.map Listed.path) := by
    rw [Bool.eq_iff_iff, List.any_eq_true, decide_eq_true_iff, List.mem_map]
    simp only [beq_iff_eq]
  have hg : ∀ e ∈ x.heldAt path, ((Changes.gone listing stored).map Document.id).contains e.1.id =
      !decide (path ∈ listing.map Listed.path) := by
    intro e he
    obtain ⟨hd, hpath, _⟩ := mem_heldAt.mp he
    rw [← hl, ← hpath]
    exact contains_map_filter hn (fun d => !listing.any fun e => e.path == d.path) (hp.mem_iff.mpr hd)
  rw [heldAt_deleteAll _ hx.chunks, hc.deleted_eq, List.filter_congr fun e he => by rw [hg e he]]
  by_cases hm : path ∈ listing.map Listed.path <;> simp [hm]

section
variable {hs : List Handled} (hx : x.Sound) (hp : stored.Perm x.documents)
  (hc : Changes.Compared listing now stored c ids) (hf : x.Fresh (hs.map Handled.work))
  (hall : hs.map Handled.pending = c.pending)
include hx hp hc hf hall

theorem heldAt_run_other {path : String} (hne : ∀ p ∈ c.pending, p.document.path ≠ path) :
    ((x.deleteAll c.deleted).rebuildAll (hs.map Handled.work)).heldAt path =
      if path ∈ listing.map Listed.path then x.heldAt path else [] := by
  have hf' := hf.sublist (deleteAll_documents_sublist c.deleted x) (deleteAll_chunks_sublist c.deleted x)
  rw [heldAt_rebuildAll_other (hx.deleteAll c.deleted) hf', heldAt_deleted hx hp hc]
  intro e he
  obtain ⟨h, hh, rfl⟩ := List.mem_map.mp he
  exact hne _ (hall ▸ List.mem_map_of_mem hh)

theorem heldAt_run_unlisted {path : String} (hu : path ∉ listing.map Listed.path) :
    ((x.deleteAll c.deleted).rebuildAll (hs.map Handled.work)).heldAt path = [] := by
  rw [heldAt_run_other hx hp hc hf hall, if_neg hu]
  rintro p hp' rfl
  exact hu (hc.paths_sublist.subset (List.mem_map_of_mem hp'))

theorem heldAt_run_settled (hn : (listing.map Listed.path).Nodup) {e : Listed} (he : e ∈ listing)
    (hs' : Changes.Settled x.documents e) :
    ((x.deleteAll c.deleted).rebuildAll (hs.map Handled.work)).heldAt e.path = x.heldAt e.path := by
  rw [heldAt_run_other hx hp hc hf hall, if_pos (List.mem_map_of_mem he)]
  intro p hp' hpath
  obtain ⟨e', he', _, hns, hpath', _⟩ := hc.of_pending hp'
  have hee : e' = e := List.inj_on_of_nodup_map hn he' he (hpath'.symm.trans hpath)
  exact hns (hee ▸ hs'.perm hp.symm)

theorem heldAt_run_built (hn : (listing.map Listed.path).Nodup) {e : Listed} (he : e ∈ listing)
    (hns : ¬ Changes.Settled x.documents e) :
    ∃ h ∈ hs, h.pending.document.path = e.path ∧ e.digest = .ok h.pending.document.digest ∧
      h.pending.document.indexedAt = now ∧
      ((x.deleteAll c.deleted).rebuildAll (hs.map Handled.work)).heldAt e.path =
        (h.outcome.toOption.map fun cs => (h.pending.document, cs)).toList := by
  have hf' := hf.sublist (deleteAll_documents_sublist c.deleted x) (deleteAll_chunks_sublist c.deleted x)
  obtain ⟨p, hp', hpath⟩ := hc.exists_pending he fun hs' => hns (hs'.perm hp)
  obtain ⟨h, hh, rfl⟩ := List.mem_map.mp (hall ▸ hp')
  obtain ⟨e', he', hdig, _, hpath', hnow⟩ := hc.of_pending hp'
  have hee : e' = e := List.inj_on_of_nodup_map hn he' he (hpath'.symm.trans hpath)
  have hpaths : ((hs.map Handled.work).map fun e => e.1.path).Nodup := by
    have hm : (hs.map Handled.work).map (fun e => e.1.path) = c.pending.map fun p => p.document.path := by
      rw [← hall, List.map_map, List.map_map]; rfl
    rw [hm]
    exact hn.sublist hc.paths_sublist
  refine ⟨h, hh, hpath, hee ▸ hdig, hnow, ?_⟩
  rw [← hpath]
  exact heldAt_rebuildAll_self (hx.deleteAll c.deleted) hf' hpaths (List.mem_map_of_mem hh)

end

end Records

/-! ## Runs that are made -/

namespace Ledger

variable {ω : Type} {L : Ledger ω} {I : ω → Prop} {env : Conditions ω} {source : Source ω}
  {found : List Document → Except Fault Changes → List Uuid → Prop}
  {said : Pending → Except Fault (List Chunk) → Bool → List Uuid → List (Uuid × List Chunk) → Prop}
  {w w' : ω} {r : Run} {c : Changes} {ids : List Uuid} {done : List Document} {hs : List Handled}

/-- The identifiers made on the way from `w` to `w'` are new to the records of `w`. -/
def FreshSince (L : Ledger ω) (w w' : ω) : Prop :=
  ∀ ids, L.made w' = L.made w ++ ids → (L.records w).Unused ids

theorem Ingested.fresh (h : L.Ingested I env source found said w w' r c ids done hs)
    (hx : (L.records w).Sound) (hu : L.FreshSince w w')
    (hids : (c.pending.map fun p => p.document.id).Sublist ids)
    (ho : ∀ h ∈ hs, h.pending.Owns h.answer h.ids) : (L.records w).Fresh (hs.map Handled.work) := by
  obtain ⟨r₁, _, hcourse⟩ := h.course
  have hpre := (hcourse.handled_prefix.map fun p => p.document.id).sublist
  rw [List.map_map] at hpre
  exact (hu _ h.made).fresh hx (hpre.trans hids) ho

theorem Ingested.sound (h : L.Ingested I env source found said w w' r c ids done hs)
    (hx : (L.records w).Sound) (hf : (L.records w).Fresh (hs.map Handled.work)) : (L.records w').Sound := by
  have hf' := hf.sublist (Records.deleteAll_documents_sublist done _) (Records.deleteAll_chunks_sublist done _)
  rw [h.records]
  exact (hx.deleteAll done).rebuildAll hf'

/-- Whatever is held after a run was held before, or is a document with the chunks of its answer. -/
theorem Ingested.held (h : L.Ingested I env source found said w w' r c ids done hs)
    (hx : (L.records w).Sound) (hf : (L.records w).Fresh (hs.map Handled.work)) {path : String}
    {d : Document} {cs : List Chunk} (he : (d, cs) ∈ (L.records w').heldAt path) :
    (d, cs) ∈ (L.records w).heldAt path ∨
      ∃ g ∈ hs, g.pending.document = d ∧ g.answer = .ok cs ∧ d.path = path := by
  have hf' := hf.sublist (Records.deleteAll_documents_sublist done _) (Records.deleteAll_chunks_sublist done _)
  rw [h.records] at he
  rcases Records.mem_heldAt_rebuildAll (hx.deleteAll done) hf' he with he | ⟨he, hp⟩
  · rw [Records.heldAt_deleteAll _ hx.chunks] at he
    exact .inl (List.mem_filter.mp he).1
  · obtain ⟨g, hg, hw⟩ := List.mem_map.mp he
    have ho : g.outcome.toOption = some cs := congrArg Prod.snd hw
    refine .inr ⟨g, hg, congrArg Prod.fst hw, ?_, hp⟩
    cases hout : g.outcome with
    | error f => rw [hout] at ho; cases ho
    | ok cs' => rw [hout] at ho; cases ho; exact Handled.answer_of_outcome hout

theorem Ingested.length_heldAt (h : L.Ingested I env source found said w w' r c ids done hs)
    (hx : (L.records w).Sound) (hf : (L.records w).Fresh (hs.map Handled.work)) {path : String}
    (hle : ((L.records w).heldAt path).length ≤ 1) : ((L.records w').heldAt path).length ≤ 1 := by
  have hf' := hf.sublist (Records.deleteAll_documents_sublist done _) (Records.deleteAll_chunks_sublist done _)
  rw [h.records]
  refine Records.length_heldAt_rebuildAll (hx.deleteAll done) hf' ?_
  rw [Records.heldAt_deleteAll _ hx.chunks]
  exact Nat.le_trans (List.length_filter_le _ _) hle

theorem foldl_count_cancelled : ∀ (hs : List Handled) (r : Run),
    (hs.foldl (fun r h => h.count r) r).report.cancelled = r.report.cancelled
  | [], _ => rfl
  | h :: hs, r => (foldl_count_cancelled hs (h.count r)).trans (h.count_cancelled r)

/-- A run that is not cancelled clears and handles everything it found to do. -/
theorem Ingested.complete (h : L.Ingested I env source found said w w' r c ids done hs)
    (hr : r.report.cancelled = false) : done = c.deleted ∧ hs.map Handled.pending = c.pending := by
  obtain ⟨r₁, hclear, hcourse⟩ := h.course
  obtain ⟨hall, hfold⟩ := hcourse.all_of_not_cancelled hr
  have hr₁ : r₁.report.cancelled = false := by
    rw [← foldl_count_cancelled hs r₁, ← hfold]; exact hr
  exact ⟨(hclear.all_of_not_cancelled hr₁).1, hall⟩

end Ledger

end CodeCorpus
