import CodeCorpus.Proofs.Sessions
import Mathlib.Logic.Relation

/-!
# Histories

A store goes through runs, removals of paths, and whatever else leaves its records alone, in any order. A
world is known when its records are sound and all their identifiers are among those made. Every step keeps
it so as long as no identifier is made twice; then what a path holds after a step was held there before, or
comes from a document that the step built.
-/

namespace CodeCorpus

namespace Ledger

variable {ω : Type} {L : Ledger ω}

/-- A step of a history: one of the runs allowed, a removal, or something that leaves the records alone. -/
inductive Step (L : Ledger ω) (runs : (ω → Prop) → Sync ω → Source ω → Prop) : ω → ω → Prop where
  | ingest {I : ω → Prop} {s : Sync ω} {source : Source ω} {w : ω} (allowed : runs I s source) (holds : I w) :
    Step L runs w (s.ingest source w).2
  | removal (env : Conditions ω) (path : String) (w : ω) : Step L runs w ((L.sync env).removeAtPath path w).2
  | aside {w w' : ω} {ids : List Uuid} (h : L.Aside w w' ids []) : Step L runs w w'

abbrev History (L : Ledger ω) (runs : (ω → Prop) → Sync ω → Source ω → Prop) : ω → ω → Prop :=
  Relation.ReflTransGen (L.Step runs)

/-- A world whose records are sound and have all their identifiers among those made. -/
structure Known (L : Ledger ω) (w : ω) : Prop where
  sound : (L.records w).Sound
  documents : ∀ d ∈ (L.records w).documents, d.id ∈ L.made w
  chunks : ∀ c ∈ (L.records w).chunks, c.id ∈ L.made w

/-- A step that builds nothing: at most a path is cleared, and at most the width is set. -/
structure Quiet (L : Ledger ω) (w w' : ω) : Prop where
  records : L.records w' = L.records w ∨ ∃ path, L.records w' = (L.records w).withoutPath path
  dimension : ∀ k, L.dimension w = some k → L.dimension w' = some k
  made : L.made w <+: L.made w'
  returned : L.returned w' = L.returned w

theorem Spared.quiet {width : Nat} {w w' : ω} (h : L.Spared width w w') : L.Quiet w w' :=
  ⟨.inl h.records, fun k hk => by rw [h.dimension, hk, Option.getD_some], h.made, h.returned⟩

theorem Aside.quiet {w w' : ω} {ids : List Uuid} (h : L.Aside w w' ids []) : L.Quiet w w' := by
  have hl := h.leads (I := fun _ => True) trivial
  exact ⟨.inl hl.records, fun k hk => hl.dimension.trans hk, ⟨ids, hl.made.symm⟩, by simpa using hl.returned⟩

theorem quiet_removal (env : Conditions ω) (path : String) (w : ω) :
    L.Quiet w ((L.sync env).removeAtPath path w).2 := by
  have write : L.Writable fun _ => True := fun _ _ _ _ => trivial
  obtain ⟨w', hrun, hl⟩ := removeAtPath_run env write path (w := w) trivial
  rw [hrun]
  exact ⟨.inr ⟨path, hl.records⟩, fun k hk => hl.dimension.trans hk, ⟨[], hl.made.symm⟩, by simpa using hl.returned⟩

theorem Step.quiet_or_run {runs : (ω → Prop) → Sync ω → Source ω → Prop} {w w' : ω} (h : L.Step runs w w') :
    L.Quiet w w' ∨ ∃ I s source, runs I s source ∧ I w ∧ w' = (s.ingest source w).2 := by
  cases h with
  | ingest allowed holds => exact .inr ⟨_, _, _, allowed, holds, rfl⟩
  | removal env path => exact .inl (quiet_removal env path w)
  | aside h => exact .inl h.quiet

/-! ## Identifiers -/

theorem Known.freshSince {w w' : ω} (hk : L.Known w) (hn : (L.made w').Nodup) : L.FreshSince w w' := by
  intro ids hids
  rw [hids] at hn
  obtain ⟨_, hn, hd⟩ := List.nodup_append.mp hn
  exact ⟨hn, fun d hm hin => hd _ (hk.documents d hm) _ hin rfl, fun c hm hin => hd _ (hk.chunks c hm) _ hin rfl⟩

theorem known_of_empty {w : ω} (h : L.slot.get w = {}) : L.Known w := by
  have hr : L.records w = ⟨[], []⟩ := by unfold Ledger.records; rw [h]; rfl
  refine ⟨?_, ?_, ?_⟩ <;> rw [hr]
  · exact ⟨List.nodup_nil, List.nodup_nil, fun c hc => absurd hc List.not_mem_nil⟩
  · exact fun d hd => absurd hd List.not_mem_nil
  · exact fun c hc => absurd hc List.not_mem_nil

/-! ## Steps that build nothing -/

theorem Quiet.sublist {w w' : ω} (h : L.Quiet w w') :
    (L.records w').documents.Sublist (L.records w).documents ∧
      (L.records w').chunks.Sublist (L.records w).chunks := by
  rcases h.records with hr | ⟨path, hr⟩ <;> rw [hr]
  · exact ⟨List.Sublist.refl _, List.Sublist.refl _⟩
  · exact ⟨Records.withoutPath_documents_sublist _ path, Records.withoutPath_chunks_sublist _ path⟩

theorem Quiet.known {w w' : ω} (h : L.Quiet w w') (hk : L.Known w) : L.Known w' := by
  obtain ⟨hd, hc⟩ := h.sublist
  refine ⟨?_, fun d hd' => ?_, fun c hc' => ?_⟩
  · rcases h.records with hr | ⟨path, hr⟩ <;> rw [hr]
    · exact hk.sound
    · exact hk.sound.withoutPath path
  · exact h.made.subset (hk.documents d (hd.subset hd'))
  · exact h.made.subset (hk.chunks c (hc.subset hc'))

theorem Quiet.heldAt {w w' : ω} (h : L.Quiet w w') (hk : L.Known w) (path : String) :
    (L.records w').heldAt path = (L.records w).heldAt path ∨ (L.records w').heldAt path = [] := by
  rcases h.records with hr | ⟨cleared, hr⟩ <;> rw [hr]
  · exact .inl rfl
  · rw [Records.heldAt_withoutPath hk.sound]
    by_cases hp : path = cleared
    · exact .inr (if_pos hp)
    · exact .inl (if_neg hp)

/-! ## Runs -/

section
variable {I : ω → Prop} {env : Conditions ω} {source : Source ω}
  {found : List Document → Except Fault Changes → List Uuid → Prop}
  {said : Pending → Except Fault (List Chunk) → Bool → List Uuid → List (Uuid × List Chunk) → Prop}
  {w w' : ω} {r : Run} {c : Changes} {ids : List Uuid} {done : List Document} {hs : List Handled}

theorem quiet_or_ingested (hk : L.Keeps I env source found said) (hw : I w) :
    L.Quiet w ((L.sync env).ingest source w).2 ∨ ∃ r c ids done hs,
      L.Ingested I env source found said w ((L.sync env).ingest source w).2 r c ids done hs := by
  obtain ⟨a, w', hrun, _, ⟨f, _, h, _⟩ | ⟨r, c, ids, done, hs, _, h⟩⟩ := ingest_run hk hw
  · rw [hrun]; exact .inl h.quiet
  · rw [hrun]; exact .inr ⟨r, c, ids, done, hs, h⟩

theorem made_prefix_ingest (hk : L.Keeps I env source found said) (hw : I w) :
    L.made w <+: L.made ((L.sync env).ingest source w).2 := by
  rcases quiet_or_ingested hk hw with hq | ⟨r, c, ids, done, hs, hg⟩
  · exact hq.made
  · exact ⟨_, hg.made.symm⟩

theorem Ingested.known (h : L.Ingested I env source found said w w' r c ids done hs) (hk : L.Known w)
    (hn : (L.made w').Nodup) (hids : (c.pending.map fun p => p.document.id).Sublist ids)
    (ho : ∀ g ∈ hs, g.pending.Owns g.answer g.ids) :
    (L.records w).Fresh (hs.map Handled.work) ∧ L.Known w' := by
  have hf := h.fresh hk.sound (hk.freshSince hn) hids ho
  have hs' := h.sound hk.sound hf
  obtain ⟨r₁, _, hcourse⟩ := h.course
  have hold : ∀ id ∈ L.made w, id ∈ L.made w' := fun id hid => by rw [h.made]; exact List.mem_append_left _ hid
  refine ⟨hf, hs', ?_, ?_⟩
  · intro d hd
    rcases h.held hk.sound hf (Records.mem_heldAt_self hd) with he | ⟨g, hg, hdoc, _, _⟩
    · exact hold _ (hk.documents d (Records.mem_heldAt.mp he).1)
    · have hp : g.pending ∈ c.pending := hcourse.handled_prefix.subset (List.mem_map_of_mem hg)
      have hid := hids.subset (List.mem_map_of_mem (f := fun p => p.document.id) hp)
      rw [hdoc] at hid
      rw [h.made]
      exact List.mem_append_right _ (List.mem_append_left _ hid)
  · intro k hc
    obtain ⟨d, hd, hkd⟩ := hs'.exists_owner hc
    rcases h.held hk.sound hf (Records.mem_heldAt_self hd) with he | ⟨g, hg, _, hans, _⟩
    · have hsame : (L.records w).chunksOf d.id = (L.records w').chunksOf d.id := (Records.mem_heldAt.mp he).2.2
      exact hold _ (hk.chunks k (List.mem_filter.mp (hsame ▸ hkd)).1)
    · have hid := ((ho g hg _ hans).1).subset (List.mem_map_of_mem hkd)
      rw [h.made]
      exact List.mem_append_right _ (List.mem_append_right _ (List.mem_flatMap.mpr ⟨g, hg, hid⟩))

end

/-! ## Invariants -/

/-- What holds at the start and is kept by every step that makes no identifier twice holds at the end. -/
theorem History.induct {runs : (ω → Prop) → Sync ω → Source ω → Prop} {Good : ω → Prop} {w₀ w : ω}
    (h : L.History runs w₀ w) (hn : (L.made w).Nodup) (start : Good w₀)
    (step : ∀ {v v' : ω}, L.Step runs v v' →
      L.made v <+: L.made v' ∧ (Good v → (L.made v').Nodup → Good v')) : Good w := by
  -- identifiers made on the way are a prefix of those made in the end, so none of them is made twice
  induction h with
  | refl => exact start
  | tail _ hs ih =>
    obtain ⟨hpre, hgood⟩ := step hs
    exact hgood (ih (hn.sublist hpre.sublist)) hn

/-- What is held at any path satisfies `Q`. -/
def Holding (L : Ledger ω) (Q : Document → List Chunk → Prop) (w : ω) : Prop :=
  ∀ path d cs, (d, cs) ∈ (L.records w).heldAt path → Q d cs

theorem holding_of_empty {w : ω} (h : L.slot.get w = {}) (Q : Document → List Chunk → Prop) : L.Holding Q w := by
  intro path d cs he
  unfold Ledger.records at he
  rw [h] at he
  cases he

/-- A run that builds nothing but documents with chunks that satisfy `Q`. -/
def Vouches (L : Ledger ω) (Q : Document → List Chunk → Prop) (I : ω → Prop) (s : Sync ω) (source : Source ω) :
    Prop :=
  ∃ env found said, s = L.sync env ∧ L.Keeps I env source found said ∧
    ∀ stored c ids, found stored (.ok c) ids → (c.pending.map fun p => p.document.id).Sublist ids ∧
      ∀ p ∈ c.pending, ∀ answer refuses ids answers, said p answer refuses ids answers →
        p.Owns answer ids ∧ ∀ cs, answer = .ok cs → Q p.document cs

theorem Step.holding {runs : (ω → Prop) → Sync ω → Source ω → Prop} {Q : Document → List Chunk → Prop} {v v' : ω}
    (h : L.Step runs v v') (vouched : ∀ {I s source}, runs I s source → L.Vouches Q I s source) :
    L.made v <+: L.made v' ∧ (L.Known v ∧ L.Holding Q v → (L.made v').Nodup → L.Known v' ∧ L.Holding Q v') := by
  have quiet (hq : L.Quiet v v') :
      L.made v <+: L.made v' ∧ (L.Known v ∧ L.Holding Q v → (L.made v').Nodup → L.Known v' ∧ L.Holding Q v') := by
    refine ⟨hq.made, fun ⟨hk, hQ⟩ _ => ⟨hq.known hk, fun path d cs he => ?_⟩⟩
    rcases hq.heldAt hk path with hs | hs <;> rw [hs] at he
    · exact hQ path d cs he
    · cases he
  rcases h.quiet_or_run with hq | ⟨I, s, source, hrun, hv, rfl⟩
  · exact quiet hq
  obtain ⟨env, found, said, rfl, hkeep, hfound⟩ := vouched hrun
  rcases quiet_or_ingested hkeep hv with hq | ⟨r, c, ids, done, hs, hg⟩
  · exact quiet hq
  obtain ⟨stored, _, hc⟩ := hg.found
  obtain ⟨hids, hsaid⟩ := hfound stored c ids hc
  obtain ⟨r₁, _, hcourse⟩ := hg.course
  have hbuilt (g : Handled) (hg' : g ∈ hs) : g.pending.Owns g.answer g.ids ∧
      ∀ cs, g.answer = .ok cs → Q g.pending.document cs := by
    have hp : g.pending ∈ c.pending := hcourse.handled_prefix.subset (List.mem_map_of_mem hg')
    exact hsaid g.pending hp _ _ _ _ (hg.said g hg')
  refine ⟨⟨_, hg.made.symm⟩, fun ⟨hk, hQ⟩ hn => ?_⟩
  obtain ⟨hfr, hk'⟩ := hg.known hk hn hids fun g hg' => (hbuilt g hg').1
  refine ⟨hk', fun path d cs he => ?_⟩
  rcases hg.held hk.sound hfr he with he | ⟨g, hg', rfl, hans, _⟩
  · exact hQ path d cs he
  · exact (hbuilt g hg').2 cs hans

end Ledger

end CodeCorpus
