import CodeCorpus.Proofs.History

/-!
# The integrity of a store over histories

Over whole histories from an empty store, each path holds one document at most, each chunk belongs to a
stored document, the chunks of a document are those that were handed out for it, and the vectors have the
width that was accepted first. The store enforces none of this but the width.
-/

namespace CodeCorpus

/-- An answer is put on record under its document, and its vectors have a width. -/
def Pending.Supplied (p : Pending) (width : Nat) (answer : Except Fault (List Chunk)) (ids : List Uuid)
    (answers : List (Uuid × List Chunk)) : Prop :=
  p.Owns answer ids ∧
    match answer with
    | .ok cs => answers = [(p.document.id, cs)] ∧ ∀ c ∈ cs, c.vector.length = width
    | .error _ => answers = []

namespace Ledger

variable {ω : Type} {L : Ledger ω}

/-- Runs over any listings, in which anything may fail or be cancelled. -/
def Supplies (L : Ledger ω) (I : ω → Prop) (s : Sync ω) (source : Source ω) : Prop :=
  ∃ env, s = L.sync env ∧ L.Keeps I env source
    (fun stored answer ids => ∀ c, answer = .ok c → ∃ listing now, Changes.Compared listing now stored c ids)
    (fun p answer _ ids answers => p.Supplied source.dimension answer ids answers)

/-- What every history keeps. -/
structure Intact (L : Ledger ω) (w : ω) : Prop where
  known : L.Known w
  one : ∀ path, ((L.records w).heldAt path).length ≤ 1
  /-- No document was asked for twice. -/
  once : ((L.returned w).map Prod.fst).Nodup
  asked : ∀ id ∈ (L.returned w).map Prod.fst, id ∈ L.made w
  returned : ∀ d ∈ (L.records w).documents, (d.id, (L.records w).chunksOf d.id) ∈ L.returned w
  width : ∀ c ∈ (L.records w).chunks, L.dimension w = some c.vector.length

theorem Quiet.intact {w w' : ω} (h : L.Quiet w w') (hi : L.Intact w) : L.Intact w' := by
  refine ⟨h.known hi.known, fun path => ?_, ?_, ?_, ?_, ?_⟩
  · rcases h.heldAt hi.known path with he | he <;> rw [he]
    · exact hi.one path
    · exact Nat.zero_le 1
  · rw [h.returned]; exact hi.once
  · rw [h.returned]
    exact fun id hid => h.made.subset (hi.asked id hid)
  · intro d hd
    have he := Records.mem_heldAt_self hd
    rcases h.heldAt hi.known d.path with hs | hs <;> rw [hs] at he
    · obtain ⟨hd', _, hc⟩ := Records.of_mem_heldAt he
      rw [h.returned, ← hc]
      exact hi.returned d hd'
    · cases he
  · exact fun c hc => h.dimension _ (hi.width c (h.sublist.2.subset hc))

theorem answers_sublist {width : Nat} : ∀ {hs : List Handled},
    (∀ g ∈ hs, g.pending.Supplied width g.answer g.ids g.answers) →
    ((hs.flatMap Handled.answers).map Prod.fst).Sublist (hs.map fun g => g.pending.document.id)
  | [], _ => List.Sublist.refl _
  | g :: hs, hall => by
    have ih := answers_sublist fun h hh => hall h (List.mem_cons_of_mem g hh)
    have hg := (hall g List.mem_cons_self).2
    rw [List.flatMap_cons, List.map_append, List.map_cons]
    cases ha : g.answer with
    | error f =>
      rw [ha] at hg
      rw [hg]
      exact ih.cons _
    | ok cs =>
      rw [ha] at hg
      rw [hg.1]
      exact ih.cons_cons _

theorem Ingested.intact {I : ω → Prop} {env : Conditions ω} {source : Source ω}
    {found : List Document → Except Fault Changes → List Uuid → Prop} {w w' : ω} {r : Run} {c : Changes}
    {ids : List Uuid} {done : List Document} {hs : List Handled}
    (h : L.Ingested I env source found
      (fun p answer _ ids answers => p.Supplied source.dimension answer ids answers) w w' r c ids done hs)
    (hids : (c.pending.map fun p => p.document.id).Sublist ids) (hi : L.Intact w) (hn : (L.made w').Nodup) :
    L.Intact w' := by
  obtain ⟨hf, hk⟩ := h.known hi.known hn hids fun g hg => (h.said g hg).1
  obtain ⟨r₁, _, hcourse⟩ := h.course
  have hasked : ((hs.flatMap Handled.answers).map Prod.fst).Sublist ids := by
    have hpre := (hcourse.handled_prefix.map fun p => p.document.id).sublist
    rw [List.map_map] at hpre
    exact (answers_sublist h.said).trans (hpre.trans hids)
  have hret := h.returned
  have hmade := h.made
  refine ⟨hk, fun path => h.length_heldAt hi.known.sound hf (hi.one path), ?_, ?_, ?_, ?_⟩
  · rw [hret, List.map_append]
    have hn' := hn.sublist (hmade ▸ (List.Sublist.refl _).append (List.sublist_append_left ids _))
    refine List.nodup_append.mpr ⟨hi.once, ((List.nodup_append.mp hn').2.1).sublist hasked, ?_⟩
    intro id hid id' hid'
    exact (List.nodup_append.mp hn').2.2 id (hi.asked id hid) id' (hasked.subset hid')
  · intro id hid
    rw [hret, List.map_append] at hid
    rw [hmade]
    rcases List.mem_append.mp hid with hid | hid
    · exact List.mem_append_left _ (hi.asked id hid)
    · exact List.mem_append_right _ (List.mem_append_left _ (hasked.subset hid))
  · intro d hd
    -- a document in the store was there before, or was built in this run from its one answer
    rcases h.held hi.known.sound hf (Records.mem_heldAt_self hd) with he | ⟨g, hg, hdoc, hans, _⟩
    · obtain ⟨hd', _, hc⟩ := Records.of_mem_heldAt he
      rw [hret, ← hc]
      exact List.mem_append_left _ (hi.returned d hd')
    · have hs := (h.said g hg).2
      rw [hans] at hs
      rw [hret]
      refine List.mem_append_right _ (List.mem_flatMap.mpr ⟨g, hg, ?_⟩)
      rw [hs.1, hdoc]
      exact List.mem_singleton_self _
  · intro k hc
    obtain ⟨d, hd, hkd⟩ := hk.sound.exists_owner hc
    rcases h.held hi.known.sound hf (Records.mem_heldAt_self hd) with he | ⟨g, hg, _, hans, _⟩
    · have hsame : (L.records w).chunksOf d.id = (L.records w').chunksOf d.id := (Records.of_mem_heldAt he).2.2
      have hold := hi.width k (List.mem_filter.mp (hsame ▸ hkd)).1
      rcases h.accepted with ha | ha
      · rw [ha] at hold; cases hold
      · rw [h.dimension, ← ha, hold]
    · have hs := (h.said g hg).2
      rw [hans] at hs
      rw [h.dimension, hs.2 k hkd]

theorem Step.intact {v v' : ω} (h : L.Step L.Supplies v v') :
    L.made v <+: L.made v' ∧ (L.Intact v → (L.made v').Nodup → L.Intact v') := by
  have quiet (hq : L.Quiet v v') : L.made v <+: L.made v' ∧ (L.Intact v → (L.made v').Nodup → L.Intact v') :=
    ⟨hq.made, fun hi _ => hq.intact hi⟩
  rcases h.quiet_or_run with hq | ⟨I, s, source, ⟨env, rfl, hk⟩, hv, rfl⟩
  · exact quiet hq
  rcases quiet_or_ingested hk hv with hq | ⟨r, c, ids, done, hs, hg⟩
  · exact quiet hq
  obtain ⟨stored, _, hc⟩ := hg.found
  obtain ⟨listing, now, hc⟩ := hc c rfl
  exact ⟨⟨_, hg.made.symm⟩, fun hi hn => hg.intact hc.ids_sublist hi hn⟩

theorem Step.dimension_eq {v v' : ω} (h : L.Step L.Supplies v v') {k : Nat} (hk : L.dimension v = some k) :
    L.dimension v' = some k := by
  rcases h.quiet_or_run with hq | ⟨I, s, source, ⟨env, rfl, hkeep⟩, hv, rfl⟩
  · exact hq.dimension k hk
  rcases quiet_or_ingested hkeep hv with hq | ⟨r, c, ids, done, hs, hg⟩
  · exact hq.dimension k hk
  rcases hg.accepted with ha | ha
  · rw [hk] at ha; cases ha
  · rw [hg.dimension, ← ha, hk]

theorem History.dimension_eq {v w : ω} (h : L.History L.Supplies v w) {k : Nat} (hk : L.dimension v = some k) :
    L.dimension w = some k := by
  induction h with
  | refl => exact hk
  | tail _ hs ih => exact hs.dimension_eq ih

theorem first_dimension {I : ω → Prop} {s : Sync ω} {source : Source ω} (h : L.Supplies I s source) {v : ω}
    (hv : I v) (hd : L.dimension v = none) : L.dimension (s.ingest source v).2 = some source.dimension := by
  obtain ⟨env, rfl, hk⟩ := h
  obtain ⟨a, w', hrun, _, ⟨f, _, hs, _⟩ | ⟨r, c, ids, done, hs, _, hg⟩⟩ := ingest_run hk hv
  · rw [hrun, hs.dimension, hd, Option.getD_none]
  · rw [hrun, hg.dimension]

theorem intact_of_empty {w : ω} (empty : L.slot.get w = {}) (blank : L.returned w = []) : L.Intact w := by
  have hr : L.records w = ⟨[], []⟩ := by unfold Ledger.records; rw [empty]; rfl
  refine ⟨known_of_empty empty, ?_, ?_, ?_, ?_, ?_⟩
  · intro path; rw [hr]; exact Nat.zero_le 1
  · rw [blank]; exact List.nodup_nil
  · rw [blank]; exact fun id hid => absurd hid List.not_mem_nil
  · rw [hr]; exact fun d hd => absurd hd List.not_mem_nil
  · rw [hr]; exact fun c hc => absurd hc List.not_mem_nil

/-- **Integrity.** After any history from an empty store, paths are distinct, no chunk is without its
document, the chunks of a document are the one list handed out for it, and all vectors have the width of the
first run; a run over another width fails and leaves the records as they are. -/
theorem history_intact {w₀ w : ω} (empty : L.slot.get w₀ = {}) (blank : L.returned w₀ = [])
    (h : L.History L.Supplies w₀ w) (fresh : (L.made w).Nodup) :
    ((L.records w).documents.map Document.path).Nodup ∧
      (∀ c ∈ (L.records w).chunks, ∃ d ∈ (L.records w).documents, d.id = c.owner) ∧
      (∀ d ∈ (L.records w).documents, ∀ cs,
        (d.id, cs) ∈ L.returned w ↔ cs = (L.records w).chunks.filter fun c => c.owner == d.id) ∧
      (∀ c ∈ (L.records w).chunks, L.dimension w = some c.vector.length) ∧
      (∀ {I : ω → Prop} {s : Sync ω} {source : Source ω} {v : ω}, L.Supplies I s source → I v →
        L.dimension v = none → L.History L.Supplies (s.ingest source v).2 w →
        L.dimension w = some source.dimension) ∧
      ∀ (env : Conditions ω) (source : Source ω) (k : Nat), L.dimension w = some k → k ≠ source.dimension →
        ∃ f, ((L.sync env).ingest source w).1 = .error f ∧
          L.records ((L.sync env).ingest source w).2 = L.records w := by
  have hi : L.Intact w := h.induct fresh (intact_of_empty empty blank) Step.intact
  refine ⟨Records.nodup_paths_iff.mpr hi.one, hi.known.sound.owned, ?_, hi.width, ?_, ?_⟩
  · intro d hd cs
    refine ⟨fun hin => ?_, fun hcs => hcs ▸ hi.returned d hd⟩
    exact congrArg Prod.snd (List.inj_on_of_nodup_map hi.once hin (hi.returned d hd) rfl)
  · intro I s source v hs hv hd hw
    exact hw.dimension_eq (first_dimension hs hv hd)
  · intro env source k hk hne
    obtain ⟨f, hrun⟩ := ingest_refused env source hk hne
    rw [hrun]
    refine ⟨f, rfl, ?_⟩
    unfold Ledger.records
    rw [L.get_set]

/-! ## Journals -/

/-- A world beside a journal of the chunks that its corpora hand out. -/
abbrev Journalled (ω : Type) : Type := ω × List (Uuid × List Chunk)

def journalled (L : Ledger ω) : Ledger (Journalled ω) where
  slot := ⟨fun w => L.slot.get w.1, fun m w => (L.slot.set m w.1, w.2)⟩
  made w := L.made w.1
  returned w := w.2
  get_set m w := L.get_set m w.1
  made_set m w := L.made_set m w.1
  returned_set _ _ := rfl

end Ledger

open Ledger

variable {ω : Type}

def Conditions.journalled (env : Conditions ω) : Conditions (Journalled ω) where
  cancelled w := ((env.cancelled w.1).1, (env.cancelled w.1).2, w.2)
  freshId w := ((env.freshId w.1).1, (env.freshId w.1).2, w.2)
  now w := ((env.now w.1).1, (env.now w.1).2, w.2)

/-- What an answer adds to a journal. -/
def Pending.entry (p : Pending) : Except Fault (List Chunk) → List (Uuid × List Chunk)
  | .ok cs => [(p.document.id, cs)]
  | .error _ => []

def Source.journalled (source : Source ω) : Source (Journalled ω) where
  dimension := source.dimension
  changes stored w := ((source.changes stored w.1).1, (source.changes stored w.1).2, w.2)
  chunks p w := ((source.chunks p w.1).1, (source.chunks p w.1).2, w.2 ++ p.entry (source.chunks p w.1).1)

theorem Ledger.Aside.journalled {L : Ledger ω} {w w' : ω} {ids : List Uuid} {answers : List (Uuid × List Chunk)}
    (h : L.Aside w w' ids answers) {j k new : List (Uuid × List Chunk)} (hk : k = j ++ new) :
    L.journalled.Aside (w, j) (w', k) ids new := ⟨h.store, h.made, hk⟩

/-- Every world in which a run keeps its laws can keep a journal of the run. -/
theorem Ledger.Keeps.journalled {L : Ledger ω} {I : ω → Prop} {env : Conditions ω} {source : Source ω}
    {found : List Document → Except Fault Changes → List Uuid → Prop}
    {said : Pending → Except Fault (List Chunk) → Bool → List Uuid → List (Uuid × List Chunk) → Prop}
    (hk : L.Keeps I env source found said) :
    L.journalled.Keeps (fun w => I w.1) env.journalled source.journalled found
      (fun p answer refuses ids answers => answers = p.entry answer ∧ ∃ old, said p answer refuses ids old) := by
  refine ⟨fun m w hw => hk.write m w.1 hw, ?_, ?_, ?_⟩
  · rintro ⟨w, j⟩ hw
    obtain ⟨hI, ha⟩ := hk.asked w hw
    exact ⟨hI, ha.journalled (List.append_nil j).symm⟩
  · rintro stored ⟨w, j⟩ hw
    obtain ⟨hI, ids, ha, hf⟩ := hk.changes stored w hw
    exact ⟨hI, ids, ha.journalled (List.append_nil j).symm, hf⟩
  · rintro p ⟨w, j⟩ hw
    obtain ⟨hI, ids, answers, ha, hs⟩ := hk.chunks p w hw
    exact ⟨hI, ids, _, ha.journalled rfl, rfl, answers, hs⟩

namespace Session

theorem supplies_scripted {corpus : ScriptedCorpus} (hc : corpus.cancelling = none)
    (hu : corpus.unlistable = false) (clock : Nat) (refuses : Bool) :
    ledger.journalled.Supplies (fun w => Steady corpus clock refuses w.1)
      (ledger.journalled.sync conditions.journalled) scriptedSource.journalled := by
  refine ⟨_, rfl, (keeps_scripted hc hu clock refuses).journalled.mono ?_ ?_⟩
  · rintro stored a ids ⟨c, rfl, hcmp⟩ c' hc'
    cases hc'
    exact ⟨_, _, hcmp⟩
  · rintro p a r ids answers ⟨rfl, old, _, _, ho, hans⟩
    refine ⟨ho, ?_⟩
    cases a with
    | error f => rfl
    | ok cs =>
      refine ⟨rfl, ?_⟩
      by_cases hf : corpus.failing.contains p.document.path = true
      · rw [if_pos hf] at hans
        obtain ⟨f, hf⟩ := hans
        cases hf
      rw [if_neg hf] at hans
      obtain ⟨cs', he, hb⟩ := hans
      cases he
      intro k hk
      have hin : k.body ∈ bodies corpus p.document.path := hb ▸ List.mem_map_of_mem hk
      obtain ⟨line, _, hline⟩ := List.mem_map.mp hin
      have hv : k.vector = [1, 0] := congrArg Body.vector hline.symm
      rw [hv]
      rfl

def halfFailing : ScriptedCorpus := { files := [("A.cs", "a1\na2"), ("B.cs", "b")], failing := ["B.cs"] }

abbrev Half (w : Journalled Session) : Prop := Steady halfFailing 1750000000000 false w.1

def runOnce (w : Journalled Session) : Journalled Session :=
  ((ledger.journalled.sync conditions.journalled).ingest scriptedSource.journalled w).2

def clearOnce (w : Journalled Session) : Journalled Session :=
  ((ledger.journalled.sync conditions.journalled).removeAtPath "A.cs" w).2

theorem half_runOnce {w : Journalled Session} (hw : Half w) : Half (runOnce w) := by
  have hk := (@keeps_scripted halfFailing rfl rfl 1750000000000 false).journalled
  obtain ⟨a, w', hrun, hI, _⟩ := ingest_run hk hw
  unfold runOnce
  rw [hrun]
  exact hI

theorem half_clearOnce {w : Journalled Session} (hw : Half w) : Half (clearOnce w) := by
  have hk := (@keeps_scripted halfFailing rfl rfl 1750000000000 false).journalled
  obtain ⟨w', hrun, hl⟩ := removeAtPath_run conditions.journalled hk.write "A.cs" hw
  unfold clearOnce
  rw [hrun]
  exact hl.holds

end Session

open Session in
theorem history_intact_sample :
    ((ledger.journalled.records (runOnce (clearOnce (runOnce ({ corpus := halfFailing }, []))))).documents.map
        Document.path).Nodup ∧
      ∀ c ∈ (ledger.journalled.records (runOnce (clearOnce (runOnce ({ corpus := halfFailing }, []))))).chunks,
        ledger.journalled.dimension (runOnce (clearOnce (runOnce ({ corpus := halfFailing }, [])))) =
          some c.vector.length := by
  have hs := @supplies_scripted halfFailing rfl rfl 1750000000000 false
  have h₀ : Half ({ corpus := halfFailing }, []) := ⟨rfl, rfl, rfl, rfl⟩
  have h₂ := half_clearOnce (half_runOnce h₀)
  have history : ledger.journalled.History ledger.journalled.Supplies ({ corpus := halfFailing }, [])
      (runOnce (clearOnce (runOnce ({ corpus := halfFailing }, [])))) := by
    refine ((Relation.ReflTransGen.single (.ingest hs h₀)).tail ?_).tail (.ingest hs h₂)
    exact .removal conditions.journalled "A.cs" _
  obtain ⟨hpaths, _, _, hwidth, _⟩ := history_intact rfl rfl history (by decide +kernel)
  exact ⟨hpaths, hwidth⟩

end CodeCorpus
