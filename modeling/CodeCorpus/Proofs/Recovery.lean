import CodeCorpus.Proofs.Faltering

/-!
# Recovery after broken runs

A run in which nothing fails is meant to clean up whatever broken runs left behind. It does, but for one
kind of leftover: a document that stands alone at its path without chunks, and has the digest of its file,
is taken as unchanged. Such a document arises when a rollback fails after the document was stored, when a
run stops before the chunks are, and when a removal fails between the chunks and the document.
-/

namespace CodeCorpus

/-- The document at the path of a file has the digest of its bytes, but none of the chunks cut from them. -/
def Stranded (cut : String → ByteArray → List Body) (x : Records) (path : String) (b : ByteArray) : Prop :=
  ∃ d, x.heldAt path = [(d, [])] ∧ d.digest = Digest.fingerprint b ∧ cut path b ≠ []

section
variable {cut : String → ByteArray → List Body} {contents : Set ByteArray} {files : List Content}
  {fates : String → Fate} {f : Content} {b : ByteArray}

theorem Stranded.settled {x : Records} (hb : f.bytes = .ok b) (h : Stranded cut x f.path b) :
    Changes.Settled x.documents f.listed := by
  obtain ⟨d, hd, hdig, _⟩ := h
  refine .inr ⟨d, ?_, ?_⟩
  · have hh := congrArg (List.map Prod.fst) hd
    unfold Records.heldAt at hh
    rw [List.map_map] at hh
    show Changes.holders x.documents f.path = [d]
    simpa using hh
  · unfold Content.listed
    rw [hb, hdig]
    rfl

theorem Effect.complete_iff {x y : Records} {made : List Uuid} {now : Int}
    (he : Effect x (files.map Content.listed) now fates y) (hinj : Set.InjOn Digest.fingerprint contents)
    (hx : x.Sane cut contents made) (hfl : Flawless cut contents files fates) (hf : f ∈ files)
    (hb : f.bytes = .ok b) :
    ∃ d cs, y.heldAt f.path = [(d, cs)] ∧ d.digest = Digest.fingerprint b ∧
      (cs.map Chunk.body = cut f.path b ↔ ¬ Stranded cut x f.path b) := by
  obtain ⟨b', hbc, hb', hfate⟩ := hfl f hf
  rw [hb] at hb'
  cases hb'
  by_cases hs : Changes.Settled x.documents f.listed
  · -- the document is left as it is, with all of the chunks cut from these bytes or with none
    obtain ⟨d, hd, hpath, hdig⟩ := hs.held hb
    have hkeep : y.heldAt f.path = x.heldAt f.path := he.settled f.listed (List.mem_map_of_mem hf) hs
    obtain ⟨hdoc, _, _⟩ := Records.of_mem_heldAt (hd ▸ List.mem_singleton_self (d, x.chunksOf d.id))
    obtain ⟨b', hbc', hdig', hcs⟩ := hx.credible d hdoc
    have hbb : b' = b := hinj hbc' hbc (hdig'.symm.trans hdig)
    rw [hbb, hpath] at hcs
    refine ⟨d, x.chunksOf d.id, hkeep.trans hd, hdig, ?_, ?_⟩
    · rintro hcut ⟨d', hd', _, hne⟩
      have hnil : x.chunksOf d.id = [] := congrArg Prod.snd (List.head_eq_of_cons_eq (hd.symm.trans hd'))
      rw [hnil] at hcut
      exact hne hcut.symm
    · intro hnot
      rcases hcs with hnil | hcut
      · by_contra hne
        refine hnot ⟨d, ?_, hdig, fun hc => hne ?_⟩
        · rw [hd, hnil]
        · rw [hnil, hc]; rfl
      · exact hcut
  · obtain ⟨d, cs, hd, _, hdig, hcut⟩ := he.built_of_flawless hf hb hfate hs
    exact ⟨d, cs, hd, hdig, fun _ h => hs (h.settled hb), fun _ => hcut⟩

end

namespace Ledger

variable {ω : Type} {L : Ledger ω} {cut : String → ByteArray → List Body} {contents : Set ByteArray}

def Breaks (L : Ledger ω) (cut : String → ByteArray → List Body) (contents : Set ByteArray) (I : ω → Prop)
    (s : Sync ω) (source : Source ω) : Prop :=
  L.Falters I s.store ∧ L.Reads cut contents I s.env source

theorem Step.sane {v v' : ω} (h : L.Step (L.Breaks cut contents) v v') :
    L.made v <+: L.made v' ∧ ((L.records v).Sane cut contents (L.made v) → (L.made v').Nodup →
      (L.records v').Sane cut contents (L.made v')) := by
  rcases h.quiet_or_run with hq | ⟨I, s, source, ⟨hs, files, _, hb, hk⟩, hv, rfl⟩
  · refine ⟨hq.made, fun hx _ => ?_⟩
    have hx' := hx.mono hq.made.subset
    rcases hq.records with hr | ⟨path, hr⟩ <;> rw [hr]
    · exact hx'
    · exact hx'.withoutPath path
  · have hup : L.Preserves I (Sanity cut contents) (s.ingest source) := upholds_ingest hs hb hk
    obtain ⟨_, hpre, hpost⟩ := hup v hv
    refine ⟨hpre, fun hx hn => ?_⟩
    have hr := hpost hn hx
    cases ha : (s.ingest source v).1 with
    | ok r => rw [ha] at hr; exact hr
    | error e => rw [ha] at hr; exact hr

/-- **Recovery.** After any runs on a store that falters, a run in which nothing fails leaves exactly one
document for each of its files and nothing else, and the chunks of a file are complete if and only if its
document was not stranded before. -/
theorem recovery_iff (collisionFree : Set.InjOn Digest.fingerprint contents) {w₀ w : ω}
    (empty : L.slot.get w₀ = {}) (history : L.History (L.Breaks cut contents) w₀ w)
    {I : ω → Prop} {env : Conditions ω} {source : Source ω} {files : List Content} {now : Int}
    {fates : String → Fate} (last : L.Fated I env source (files.map Content.listed) now fates)
    (flawless : Flawless cut contents files fates) (holds : I w)
    (accepted : L.dimension w = none ∨ L.dimension w = some source.dimension)
    (fresh : (L.made ((L.sync env).ingest source w).2).Nodup) :
    (∃ r, ((L.sync env).ingest source w).1 = .ok r ∧ r.report.cancelled = false) ∧
      (L.records ((L.sync env).ingest source w).2).Sound ∧
      (∀ path ∉ files.map Content.path, (L.records ((L.sync env).ingest source w).2).heldAt path = []) ∧
      ∀ f ∈ files, ∀ b, f.bytes = .ok b →
        ∃ d cs, (L.records ((L.sync env).ingest source w).2).heldAt f.path = [(d, cs)] ∧
          d.digest = Digest.fingerprint b ∧
          (cs.map Chunk.body = cut f.path b ↔ ¬ Stranded cut (L.records w) f.path b) := by
  have hempty : (L.records w₀).Sane cut contents (L.made w₀) := by
    obtain ⟨hsound, hdocs, hchunks⟩ := known_of_empty empty
    refine ⟨hsound, hdocs, hchunks, fun d hd => ?_⟩
    unfold Ledger.records at hd
    rw [empty] at hd
    cases hd
  have hpre := made_prefix_ingest last.keeps holds
  have hsane : (L.records w).Sane cut contents (L.made w) :=
    history.induct (fresh.sublist hpre.sublist) hempty Step.sane
  have hk : L.Known w := ⟨hsane.sound, hsane.documents, hsane.chunks⟩
  obtain ⟨hrun, he⟩ := last.effect ⟨holds, accepted, hk.sound, hk.freshSince fresh⟩
  refine ⟨hrun, he.sound, fun path hp => he.unlisted path (by rwa [Content.map_listed_path]), ?_⟩
  exact fun f hf b hb => he.complete_iff collisionFree hsane flawless hf hb

end Ledger

/-! ## Stranded documents -/

namespace Session

/-- A store that refuses to write chunks and to remove documents, so that rollbacks fail too. -/
def withoutRollback : Store Session :=
  (MemoryStore.asStore memorySlot).refusing fun _ => [.putChunks, .removeDocuments]

/-- A store that stops for good after its first write. -/
def stopping : Store Session :=
  (MemoryStore.asStore memorySlot).refusing fun s => if 1 ≤ s.memory.mutations then StoreOperation.all else []

def single : ScriptedCorpus := { files := [("A.cs", "a1\na2")] }

/-- What a run over the corpus with a store leaves of an empty session. -/
def brokenBy (store : Store Session) : Session :=
  ((Sync.mk store conditions).ingest scriptedSource { corpus := single }).2

theorem single_steady : Steady single 1750000000000 false { corpus := single } := ⟨rfl, rfl, rfl, rfl⟩

theorem single_reads : ledger.Reads cutLines {"a1\na2".toUTF8} (Steady single 1750000000000 false) conditions
    scriptedSource := reads_scripted rfl rfl rfl (by decide) (by simp [single]) 1750000000000 false

theorem falters_single (refused : Session → List StoreOperation) :
    ledger.Falters (Steady single 1750000000000 false) ((MemoryStore.asStore memorySlot).refusing refused) :=
  Ledger.falters_refusing (L := ledger) (@keeps_scripted single rfl rfl 1750000000000 false).write refused

theorem brokenBy_history {store : Store Session} (hs : ledger.Falters (Steady single 1750000000000 false) store) :
    ledger.History (ledger.Breaks cutLines {"a1\na2".toUTF8}) { corpus := single } (brokenBy store) :=
  .single (.ingest ⟨hs, single_reads⟩ single_steady)

theorem brokenBy_steady {store : Store Session} (hs : ledger.Falters (Steady single 1750000000000 false) store) :
    Steady single 1750000000000 false (brokenBy store) := by
  obtain ⟨files, _, hb, hk⟩ := single_reads
  exact (Ledger.upholds_ingest (s := Sync.mk store conditions) hs hb hk _ single_steady).1

end Session

open Session in
theorem recovery_iff_withoutRollback :
    ∃ d cs, (ledger.records ((ledger.sync conditions).ingest scriptedSource (brokenBy withoutRollback)).2).heldAt
        "A.cs" = [(d, cs)] ∧ d.digest = Digest.fingerprint "a1\na2".toUTF8 ∧
      (cs.map Chunk.body = cutLines "A.cs" "a1\na2".toUTF8 ↔
        ¬ Stranded cutLines (ledger.records (brokenBy withoutRollback)) "A.cs" "a1\na2".toUTF8) := by
  have hs := falters_single fun _ => [.putChunks, .removeDocuments]
  have hd : (single.listing.map Listed.path).Nodup := by decide
  have hlast := @fated_scripted single rfl rfl hd 1750000000000 false
  have hdim : ledger.dimension (brokenBy withoutRollback) = some 2 := by decide +kernel
  rw [listing_eq rfl] at hlast
  obtain ⟨_, _, _, hall⟩ := Ledger.recovery_iff (Set.injOn_singleton _ _) rfl (brokenBy_history hs) hlast
    (flawless_scripted rfl (by decide) (by simp [single])) (brokenBy_steady hs) (.inr hdim) (by decide +kernel)
  exact hall _ List.mem_cons_self _ rfl

open Session in
/-- A document without chunks is left, by a rollback that fails or by a stop after the document was stored,
and the next run in which nothing fails leaves it so. -/
theorem stranded_remains :
    (ledger.History (ledger.Breaks cutLines {"a1\na2".toUTF8}) { corpus := single } (brokenBy withoutRollback) ∧
      ledger.History (ledger.Breaks cutLines {"a1\na2".toUTF8}) { corpus := single } (brokenBy stopping)) ∧
    (cutLines "A.cs" "a1\na2".toUTF8).length = 2 ∧
    (((ledger.records ((ledger.sync conditions).ingest scriptedSource (brokenBy withoutRollback)).2).heldAt
        "A.cs").map fun e => e.2.length) = [0] ∧
    (((ledger.records ((ledger.sync conditions).ingest scriptedSource (brokenBy stopping)).2).heldAt
        "A.cs").map fun e => e.2.length) = [0] := by
  refine ⟨⟨brokenBy_history (falters_single _), brokenBy_history (falters_single _)⟩, ?_, ?_, ?_⟩
  · unfold cutLines
    rw [Text.decode?_toUTF8]
    decide +kernel
  · decide +kernel
  · decide +kernel

end CodeCorpus
