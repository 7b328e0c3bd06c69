import CodeCorpus.Proofs.Isolation

/-!
# A second run finds nothing to do

After a run that was not cancelled and in which nothing failed, one document with the digest of its file is at
each listed path and none elsewhere, whatever the store held before. The next run over the same listing compares
the same digests, finds nothing to do and writes nothing. Chunks play no part in this: documents go the same way
in records without any chunk, where no chunk can be without its document (`Records.bare`).
-/

namespace CodeCorpus

/-! ## Documents alone -/

namespace Records

theorem holders_eq (x : Records) (path : String) :
    Changes.holders x.documents path = (x.heldAt path).map Prod.fst := by
  unfold heldAt
  rw [List.map_map]
  exact (List.map_id _).symm

/-- The records without any chunk. -/
def bare (x : Records) : Records := ⟨x.documents, []⟩

theorem bare_sound {x : Records} (h : (x.documents.map Document.id).Nodup) : x.bare.Sound :=
  ⟨h, List.nodup_nil, nofun⟩

theorem bare_rebuild (h : Work) (x : Records) :
    (x.rebuild h).bare = x.bare.rebuild (h.1, h.2.map fun _ => []) := by
  obtain ⟨d, o⟩ := h
  cases o <;> rfl

theorem bare_deleteAll (ds : List Document) (x : Records) : (x.deleteAll ds).bare = x.bare.deleteAll ds := by
  induction ds generalizing x with
  | nil => rfl
  | cons d ds ih => exact ih (x.without [d.id])

end Records

namespace Handled

/-- The same, but as if the document had no chunks. -/
def bare (h : Handled) : Handled := ⟨h.pending, h.outcome.map fun _ => [], false, [], []⟩

theorem bare_outcome (h : Handled) : h.bare.outcome = h.outcome.map fun _ => [] := by
  unfold bare
  cases h.outcome <;> rfl

theorem bare_work (h : Handled) : h.bare.work = (h.work.1, h.work.2.map fun _ => []) := by
  unfold work
  rw [bare_outcome]
  cases h.outcome <;> rfl

theorem bare_owns (h : Handled) : h.bare.pending.Owns h.bare.answer h.bare.ids := by
  intro cs hcs
  have hnil : cs = [] := by
    unfold bare at hcs
    cases ho : h.outcome with
    | error f => rw [ho] at hcs; cases hcs
    | ok ds => rw [ho] at hcs; cases hcs; rfl
  rw [hnil]
  exact ⟨List.nil_sublist _, nofun⟩

end Handled

namespace Records

theorem bare_rebuildAll (hs : List Handled) (x : Records) :
    (x.rebuildAll (hs.map Handled.work)).bare = x.bare.rebuildAll ((hs.map Handled.bare).map Handled.work) := by
  induction hs generalizing x with
  | nil => rfl
  | cons h hs ih =>
    have hstep : (x.rebuild h.work).bare = x.bare.rebuild h.bare.work := by
      rw [h.bare_work]
      exact bare_rebuild h.work x
    calc ((x.rebuild h.work).rebuildAll (hs.map Handled.work)).bare
        = (x.rebuild h.work).bare.rebuildAll ((hs.map Handled.bare).map Handled.work) := ih _
      _ = x.bare.rebuildAll (((h :: hs).map Handled.bare).map Handled.work) := by rw [hstep]; rfl

theorem holders_run (x : Records) (ds : List Document) (hs : List Handled) (path : String) :
    Changes.holders ((x.deleteAll ds).rebuildAll (hs.map Handled.work)).documents path =
      (((x.bare.deleteAll ds).rebuildAll ((hs.map Handled.bare).map Handled.work)).heldAt path).map Prod.fst := by
  rw [← bare_deleteAll, ← bare_rebuildAll, ← holders_eq]
  rfl

theorem Unused.fresh_bare {x : Records} (hx : (x.documents.map Document.id).Nodup) {ids ids' : List Uuid}
    (hu : x.Unused (ids ++ ids')) {hs : List Handled}
    (hids : (hs.map fun h => h.pending.document.id).Sublist ids) :
    x.bare.Fresh ((hs.map Handled.bare).map Handled.work) := by
  have hnone : (hs.map Handled.bare).flatMap Handled.ids = [] := by simp [Handled.bare]
  have hbare : x.bare.Unused (ids ++ (hs.map Handled.bare).flatMap Handled.ids) := by
    rw [hnone, List.append_nil]
    exact ⟨hu.nodup.sublist (List.sublist_append_left _ _),
      fun d hd hm => hu.documents d hd (List.mem_append_left _ hm), nofun⟩
  refine hbare.fresh (bare_sound hx) ?_ ?_
  · rw [List.map_map]
    exact hids
  · intro g hg
    obtain ⟨h, _, rfl⟩ := List.mem_map.mp hg
    exact h.bare_owns

end Records

/-! ## Nothing to do -/

namespace Changes

/-- One document with the digest of its file is at each listed path, and none elsewhere. -/
structure UpToDate (listing : List Listed) (stored : List Document) : Prop where
  held : ∀ e ∈ listing, ∃ d, holders stored e.path = [d] ∧ e.digest = .ok d.digest
  listed : ∀ d ∈ stored, d.path ∈ listing.map Listed.path

variable {listing : List Listed} {stored : List Document}

theorem UpToDate.perm {stored' : List Document} (h : UpToDate listing stored) (hp : stored.Perm stored') :
    UpToDate listing stored' := by
  refine ⟨fun e he => ?_, fun d hd => h.listed d (hp.mem_iff.mpr hd)⟩
  obtain ⟨d, hd, hdig⟩ := h.held e he
  have hperm := holders_perm hp e.path
  rw [hd] at hperm
  exact ⟨d, (List.singleton_perm.mp hperm).symm, hdig⟩

theorem UpToDate.gone_eq (h : UpToDate listing stored) : gone listing stored = [] := by
  refine List.filter_eq_nil_iff.mpr fun d hd => ?_
  obtain ⟨e, he, hpath⟩ := List.mem_map.mp (h.listed d hd)
  have hany : listing.any (fun e => e.path == d.path) = true := List.any_eq_true.mpr ⟨e, he, by simp [hpath]⟩
  simp [hany]

theorem detectFrom_unchanged (stamp : Nat → Uuid) (now : Int) (deleted : List Document) (k : Nat)
    (h : ∀ e ∈ listing, ∃ d, holders stored e.path = [d] ∧ e.digest = .ok d.digest) :
    detectFrom stamp now stored deleted k listing = ⟨[], deleted, listing.length, []⟩ := by
  induction listing generalizing k with
  | nil => rfl
  | cons e listing ih =>
    obtain ⟨d, hd, hdig⟩ := h e List.mem_cons_self
    have hverdict : verdict stored e = .unchanged := by simp [verdict, hd, hdig]
    rw [detectFrom, cons, hverdict, ih (k + 1) fun e' he' => h e' (List.mem_cons_of_mem e he')]
    rfl

theorem UpToDate.compared (h : UpToDate listing stored) {now : Int} {c : Changes} {ids : List Uuid}
    (hc : Compared listing now stored c ids) : c = ⟨[], [], listing.length, []⟩ := by
  obtain ⟨stamp, rfl, _⟩ := hc
  unfold detect
  rw [detectFrom_unchanged stamp now _ 0 h.held, h.gone_eq]

end Changes

theorem Records.upToDate_run {x : Records} {listing : List Listed} {now : Int} {stored : List Document}
    {c : Changes} {ids ids' : List Uuid} {hs : List Handled} (hx : (x.documents.map Document.id).Nodup)
    (hu : x.Unused (ids ++ ids')) (hp : stored.Perm x.documents) (hc : Changes.Compared listing now stored c ids)
    (hall : hs.map Handled.pending = c.pending) (hok : ∀ g ∈ hs, ∃ cs, g.outcome = .ok cs)
    (hn : (listing.map Listed.path).Nodup) (hreadable : ∀ e ∈ listing, ∃ digest, e.digest = .ok digest) :
    Changes.UpToDate listing ((x.deleteAll c.deleted).rebuildAll (hs.map Handled.work)).documents := by
  have hids := hc.ids_sublist
  rw [← hall, List.map_map] at hids
  have hf := hu.fresh_bare hx hids
  have hx' := bare_sound hx
  have hall' : (hs.map Handled.bare).map Handled.pending = c.pending := by
    rw [List.map_map]
    exact hall
  refine ⟨fun e he => ?_, fun d hd => ?_⟩
  · rw [holders_run]
    by_cases hs' : Changes.Settled x.documents e
    · rw [heldAt_run_settled hx' hp hc hf hall' hn he hs', ← holders_eq]
      rcases hs' with ⟨reason, hr⟩ | hs'
      · obtain ⟨digest, hdig⟩ := hreadable e he
        rw [hr] at hdig
        cases hdig
      · exact hs'
    · obtain ⟨g, hg, _, hdig, _, hheld⟩ := heldAt_run_built hx' hp hc hf hall' hn he hs'
      obtain ⟨h, hh, rfl⟩ := List.mem_map.mp hg
      obtain ⟨cs, hcs⟩ := hok h hh
      refine ⟨h.pending.document, ?_, hdig⟩
      rw [hheld, h.bare_outcome, hcs]
      rfl
  · by_contra hpath
    have hnone := holders_run x c.deleted hs d.path
    rw [heldAt_run_unlisted hx' hp hc hf hall' hpath] at hnone
    exact List.not_mem_nil (hnone ▸ mem_holders.mpr ⟨hd, rfl⟩)

namespace Ledger

theorem failed_eq_zero {hs : List Handled} {r : Run}
    (h : (hs.foldl (fun r h => h.count r) r).report.failed = 0) :
    r.report.failed = 0 ∧ ∀ g ∈ hs, ∃ cs, g.outcome = .ok cs := by
  induction hs generalizing r with
  | nil => exact ⟨h, by simp⟩
  | cons g hs ih =>
    obtain ⟨hone, hall⟩ := ih h
    change (g.count r).report.failed = 0 at hone
    cases ho : g.outcome with
    | error f =>
      -- a failure is counted, and counts never go down again
      rw [Handled.count_error ho] at hone
      exact absurd hone (Nat.succ_ne_zero _)
    | ok cs =>
      rw [Handled.count_ok ho] at hone
      exact ⟨hone, List.forall_mem_cons.mpr ⟨⟨cs, ho⟩, hall⟩⟩

variable {ω : Type} {L : Ledger ω} {I I' : ω → Prop} {env env' : Conditions ω} {source source' : Source ω}
  {listing : List Listed}

/-- A corpus that can always be listed, with distinct paths and files that can be read. Nothing is said of
chunks. -/
structure Legible (L : Ledger ω) (I : ω → Prop) (env : Conditions ω) (source : Source ω) (listing : List Listed) :
    Prop where
  keeps : L.Keeps I env source
    (fun stored answer ids => ∃ c now, answer = .ok c ∧ Changes.Compared listing now stored c ids)
    (fun _ _ _ _ _ => True)
  readable : ∀ e ∈ listing, ∃ digest, e.digest = .ok digest
  distinct : (listing.map Listed.path).Nodup

theorem Legible.upToDate (hl : L.Legible I env source listing) {w w' : ω} {r : Run} (hw : I w)
    (hids : ((L.records w).documents.map Document.id).Nodup) (hfresh : L.FreshSince w w')
    (hrun : (L.sync env).ingest source w = (.ok r, w')) (hcancelled : r.report.cancelled = false)
    (hfailed : r.report.failed = 0) :
    I w' ∧ L.dimension w' = some source.dimension ∧ Changes.UpToDate listing (L.records w').documents := by
  obtain ⟨a, v, ha, hv, ⟨f, rfl, _⟩ | ⟨r, c, ids, done, hs, rfl, h⟩⟩ := ingest_run hl.keeps hw
  · rw [hrun] at ha; cases ha
  rw [hrun] at ha
  cases ha
  obtain ⟨stored, hp, _, now, he, hc⟩ := h.found
  cases he
  obtain ⟨rfl, hall⟩ := h.complete hcancelled
  obtain ⟨r₁, _, hcourse⟩ := h.course
  have hok : ∀ g ∈ hs, ∃ cs, g.outcome = .ok cs := by
    rw [(hcourse.all_of_not_cancelled hcancelled).2] at hfailed
    exact (failed_eq_zero hfailed).2
  refine ⟨hv, h.dimension, ?_⟩
  rw [h.records]
  exact Records.upToDate_run hids (hfresh _ h.made) hp hc hall hok hl.distinct hl.readable

theorem Legible.ingest_upToDate (hl : L.Legible I env source listing) {v : ω} (hv : I v)
    (hd : L.dimension v = some source.dimension) (hup : Changes.UpToDate listing (L.records v).documents) :
    ∃ r u, (L.sync env).ingest source v = (.ok r, u) ∧
      (∃ b, L.slot.get u = { L.slot.get v with refusesChunks := b }) ∧
      r.report = { unchanged := listing.length } ∧ r.progress = [] := by
  obtain ⟨v₁, _, hI, hget, _, _, hrun⟩ := ingest_begun env hl.keeps.write hv (.inr hd)
  obtain ⟨_, ids, ha, c, now, hc, hcmp⟩ := hl.keeps.changes ((L.slot.get v).selectDocuments .all none) v₁ hI
  have hnothing := (hup.perm (MemoryStore.selectAll_perm _).symm).compared hcmp
  subst hnothing
  obtain ⟨b, hb⟩ := ha.store
  refine ⟨Run.start ⟨[], [], listing.length, []⟩, _, ?_, ⟨b, hb.trans ?_⟩, rfl, rfl⟩
  · rw [hrun]
    exact Action.bind_run_ok (Action.within_run_ok _ (Prod.ext hc rfl))
  · have hdim : (L.slot.get v).dimension = some source.dimension := hd
    rw [hget, ← hdim]

/-- **Ingestion is idempotent.** Whatever a store held, with identifiers as keys, once a run over a listing has
ended uncancelled and without a failure, a second run over the same listing leaves the documents, the chunks and
the count of writes as they are, and reports every listed file as unchanged and nothing else. -/
theorem ingest_idempotent (first : L.Legible I env source listing) (second : L.Legible I' env' source' listing)
    (width : source'.dimension = source.dimension) {w w' v : ω} {r : Run} (holds : I w) (holds' : I' v)
    (keys : ((L.records w).documents.map Document.id).Nodup) (fresh : L.FreshSince w w')
    (run : (L.sync env).ingest source w = (.ok r, w')) (uncancelled : r.report.cancelled = false)
    (unfailed : r.report.failed = 0) (same : L.slot.get v = L.slot.get w') :
    ∃ r' v', (L.sync env').ingest source' v = (.ok r', v') ∧
      (L.slot.get v').documents = (L.slot.get v).documents ∧ (L.slot.get v').chunks = (L.slot.get v).chunks ∧
      (L.slot.get v').mutations = (L.slot.get v).mutations ∧
      r'.report = { unchanged := listing.length } ∧ r'.progress = [] := by
  obtain ⟨_, hd, hup⟩ := first.upToDate holds keys fresh run uncancelled unfailed
  have hd' : L.dimension v = some source'.dimension := by
    unfold Ledger.dimension
    rw [same, width]
    exact hd
  have hup' : Changes.UpToDate listing (L.records v).documents := by
    unfold Ledger.records
    rw [same]
    exact hup
  obtain ⟨r', v', hrun, ⟨b, hb⟩, hreport, hprogress⟩ := second.ingest_upToDate holds' hd' hup'
  refine ⟨r', v', hrun, ?_, ?_, ?_, hreport, hprogress⟩ <;> rw [hb]

end Ledger

namespace Session

theorem legible_scripted {corpus : ScriptedCorpus} (hc : corpus.cancelling = none)
    (hu : corpus.unlistable = false) (hr : corpus.unreadable = []) (hd : (corpus.listing.map Listed.path).Nodup)
    (clock : Nat) (refuses : Bool) :
    ledger.Legible (Steady corpus clock refuses) conditions scriptedSource corpus.listing := by
  refine ⟨(keeps_scripted hc hu clock refuses).mono ?_ fun _ _ _ _ _ _ => trivial, ?_, hd⟩
  · rintro stored a ids ⟨c, ha, hcmp⟩
    exact ⟨c, _, ha, hcmp⟩
  · intro e he
    unfold ScriptedCorpus.listing at he
    obtain ⟨f, _, rfl⟩ := List.mem_map.mp he
    rw [hr]
    exact ⟨_, rfl⟩

/-- A session with two files, an outdated record of one of them and a chunk without a document. -/
def untidy : Session :=
  { memory := {
      documents := [⟨.ofNat 1, "A.cs", "old", 0⟩]
      chunks := [⟨.ofNat 2, .ofNat 9, "", "", none, "o", 1, [], false⟩] }
    corpus := { files := [("A.cs", "a1\na2"), ("B.cs", "b")] } }

end Session

open Session in
theorem ingest_idempotent_untidy :
    ∃ r w r' w', (ledger.sync conditions).ingest scriptedSource untidy = (.ok r, w) ∧ r.report.failed = 0 ∧
      (ledger.sync conditions).ingest scriptedSource w = (.ok r', w') ∧
      w'.memory.documents = w.memory.documents ∧ w'.memory.chunks = w.memory.chunks ∧
      w'.memory.mutations = w.memory.mutations ∧ r'.report = { unchanged := 2 } := by
  have hl := @legible_scripted untidy.corpus rfl rfl rfl (by decide) 1750000000000 false
  have h₀ : Steady untidy.corpus 1750000000000 false untidy := ⟨rfl, rfl, rfl, rfl⟩
  have hfresh : ledger.FreshSince untidy ((ledger.sync conditions).ingest scriptedSource untidy).2 :=
    Ledger.freshSince_of_drop ⟨by decide +kernel, by decide +kernel, by decide +kernel⟩
  have hreport : (((ledger.sync conditions).ingest scriptedSource untidy).1.toOption.map
      fun r => (r.report.cancelled, r.report.failed)) = some (false, 0) := by decide +kernel
  obtain ⟨a, w, hrun, hw, _⟩ := Ledger.ingest_run hl.keeps h₀
  rw [hrun] at hfresh hreport
  obtain ⟨r, hr, he⟩ := Option.map_eq_some_iff.mp hreport
  cases a with
  | error f => cases hr
  | ok r' =>
    cases hr
    obtain ⟨r', w', hrun', hdocs, hchunks, hmut, hrep, _⟩ := Ledger.ingest_idempotent hl hl rfl h₀ hw (by decide)
      hfresh hrun (congrArg Prod.fst he) (congrArg Prod.snd he) rfl
    exact ⟨r, w, r', w', hrun, congrArg Prod.snd he, hrun', hdocs, hchunks, hmut, hrep⟩

end CodeCorpus
