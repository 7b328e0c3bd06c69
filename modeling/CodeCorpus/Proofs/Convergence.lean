import CodeCorpus.Proofs.History
import CodeCorpus.Proofs.Isolation
import Mathlib.Data.Set.Function

/-!
# Convergence

Whatever a store has been through, a run in which nothing fails makes it a mirror of the files of that run.
The reason is an invariant of every history: a document that is kept has the digest of some bytes, and its
chunks are those cut from these bytes. So a file may be taken as unchanged by its digest alone.
-/

namespace CodeCorpus

/-- A file with its bytes, or why it could not be read. -/
structure Content where
  path : String
  file : String
  bytes : Except String ByteArray

namespace Content

def listed (f : Content) : Listed := ⟨f.path, f.file, f.bytes.map Digest.fingerprint⟩

theorem map_listed_path (files : List Content) :
    (files.map listed).map Listed.path = files.map Content.path := by
  rw [List.map_map]; rfl

theorem bytes_of_digest {f : Content} {digest : String} (h : f.listed.digest = .ok digest) :
    ∃ b, f.bytes = .ok b ∧ Digest.fingerprint b = digest := by
  unfold listed at h
  cases hb : f.bytes with
  | error reason => rw [hb] at h; cases h
  | ok b => rw [hb] at h; cases h; exact ⟨b, rfl, rfl⟩

/-- What is to be seen at a path, apart from identifiers and times, when a store mirrors the files. -/
def mirrored (cut : String → ByteArray → List Body) (files : List Content) (path : String) :
    List (String × String × List Body) :=
  match files.find? fun f => f.path == path with
  | some f =>
    match f.bytes with
    | .ok b => [(path, Digest.fingerprint b, cut path b)]
    | .error _ => []
  | none => []

theorem mirrored_of_mem {cut : String → ByteArray → List Body} {files : List Content}
    (hn : (files.map Content.path).Nodup) {f : Content} (hf : f ∈ files) {b : ByteArray} (hb : f.bytes = .ok b) :
    mirrored cut files f.path = [(f.path, Digest.fingerprint b, cut f.path b)] := by
  unfold mirrored
  cases hg : files.find? fun g => g.path == f.path with
  | none => exact absurd (beq_self_eq_true f.path) (List.find?_eq_none.mp hg f hf)
  | some g =>
    have hpath : g.path = f.path := by simpa using List.find?_some hg
    have hgf : g = f := List.inj_on_of_nodup_map hn (List.mem_of_find?_eq_some hg) hf hpath
    simp only [hgf, hb]

theorem mirrored_of_not_mem {cut : String → ByteArray → List Body} {files : List Content} {path : String}
    (h : path ∉ files.map Content.path) : mirrored cut files path = [] := by
  have hg : files.find? (fun g => g.path == path) = none := by
    refine List.find?_eq_none.mpr fun g hg he => h ?_
    rw [← beq_iff_eq.mp he]
    exact List.mem_map_of_mem hg
  unfold mirrored
  rw [hg]

end Content

/-- The chunks for a file, where building them succeeds, are those cut from its bytes. -/
def Pending.CutFrom (p : Pending) (cut : String → ByteArray → List Body) (files : List Content)
    (answer : Except Fault (List Chunk)) : Prop :=
  ∀ f ∈ files, f.path = p.document.path → ∀ b, f.bytes = .ok b → ∀ cs, answer = .ok cs →
    cs.map Chunk.body = cut f.path b

/-- What is seen at a path apart from identifiers and times. -/
def Records.lookAt (x : Records) (path : String) : List (String × String × List Body) :=
  (x.heldAt path).map fun e => (e.1.path, e.1.digest, e.2.map Chunk.body)

/-- Each document kept has the digest of known bytes, and its chunks are those cut from these bytes. -/
def Records.Faithful (cut : String → ByteArray → List Body) (contents : Set ByteArray) (x : Records) : Prop :=
  ∀ path d cs, (d, cs) ∈ x.heldAt path →
    ∃ b ∈ contents, d.digest = Digest.fingerprint b ∧ cs.map Chunk.body = cut d.path b

namespace Ledger

variable {ω : Type} {L : Ledger ω} {cut : String → ByteArray → List Body} {contents : Set ByteArray}

/-- If changes are found at all, they are those of the files. -/
def Comparing (files : List Content) (stored : List Document) (answer : Except Fault Changes)
    (ids : List Uuid) : Prop :=
  ∀ c, answer = .ok c → ∃ now, Changes.Compared (files.map Content.listed) now stored c ids

/-- If chunks are built at all, they are those cut from the files. -/
def Cutting (cut : String → ByteArray → List Body) (files : List Content) (p : Pending)
    (answer : Except Fault (List Chunk)) (_ : Bool) (ids : List Uuid) (_ : List (Uuid × List Chunk)) : Prop :=
  p.Owns answer ids ∧ p.CutFrom cut files answer

/-- A run over some files with known bytes, in which anything may fail or be cancelled. -/
def Reads (L : Ledger ω) (cut : String → ByteArray → List Body) (contents : Set ByteArray) (I : ω → Prop)
    (env : Conditions ω) (source : Source ω) : Prop :=
  ∃ files : List Content, (files.map Content.path).Nodup ∧ (∀ f ∈ files, ∀ b, f.bytes = .ok b → b ∈ contents) ∧
    L.Keeps I env source (Comparing files) (Cutting cut files)

def Follows (L : Ledger ω) (cut : String → ByteArray → List Body) (contents : Set ByteArray) (I : ω → Prop)
    (s : Sync ω) (source : Source ω) : Prop :=
  ∃ env, s = L.sync env ∧ L.Reads cut contents I env source

theorem cut_of_pending (cut : String → ByteArray → List Body) {files : List Content}
    (hb : ∀ f ∈ files, ∀ b, f.bytes = .ok b → b ∈ contents) {now : Int} {stored : List Document} {c : Changes} {ids : List Uuid}
    (hc : Changes.Compared (files.map Content.listed) now stored c ids) {p : Pending} (hp : p ∈ c.pending) :
    ∃ b ∈ contents, p.document.digest = Digest.fingerprint b ∧
      ∀ answer, p.CutFrom cut files answer → ∀ cs, answer = .ok cs → cs.map Chunk.body = cut p.document.path b := by
  obtain ⟨e, he, hdig, _, hpath, _⟩ := hc.of_pending hp
  obtain ⟨f, hf, rfl⟩ := List.mem_map.mp he
  obtain ⟨b, hfb, hbd⟩ := Content.bytes_of_digest hdig
  refine ⟨b, hb f hf b hfb, hbd.symm, fun answer hcut cs hcs => ?_⟩
  rw [hpath]
  exact hcut f hf hpath.symm b hfb cs hcs

theorem Step.faithful {v v' : ω} (h : L.Step (L.Follows cut contents) v v') :
    L.made v <+: L.made v' ∧ (L.Known v ∧ (L.records v).Faithful cut contents → (L.made v').Nodup →
      L.Known v' ∧ (L.records v').Faithful cut contents) := by
  refine h.holding (Q := fun d cs =>
    ∃ b ∈ contents, d.digest = Digest.fingerprint b ∧ cs.map Chunk.body = cut d.path b) ?_
  rintro I s source ⟨env, rfl, files, _, hbytes, hkeep⟩
  refine ⟨env, _, _, rfl, hkeep, fun stored c ids hfound => ?_⟩
  obtain ⟨now, hc⟩ := hfound c rfl
  refine ⟨hc.ids_sublist, fun p hp answer refuses ids answers hsaid => ⟨hsaid.1, fun cs hcs => ?_⟩⟩
  obtain ⟨b, hb, hdig, hcut⟩ := cut_of_pending cut hbytes hc hp
  exact ⟨b, hb, hdig, hcut answer hsaid.2 cs hcs⟩

end Ledger

/-! ## The last run -/

theorem Changes.Settled.held {x : Records} {f : Content} {b : ByteArray} (hb : f.bytes = .ok b)
    (hs : Changes.Settled x.documents f.listed) :
    ∃ d, x.heldAt f.path = [(d, x.chunksOf d.id)] ∧ d.path = f.path ∧ d.digest = Digest.fingerprint b := by
  have hdig : f.listed.digest = .ok (Digest.fingerprint b) := by unfold Content.listed; rw [hb]; rfl
  rcases hs with ⟨reason, hr⟩ | ⟨d, hd, he⟩
  · rw [hdig] at hr; cases hr
  · have hpath : d.path = f.path := (Records.mem_holders.mp (hd ▸ List.mem_singleton_self d)).2
    rw [hdig] at he
    exact ⟨d, Records.heldAt_of_holders hd, hpath, (Except.ok.inj he).symm⟩

section
variable {cut : String → ByteArray → List Body} {contents : Set ByteArray} {files : List Content}
  {fates : String → Fate}

/-- Every file can be read, and its chunks are built from its bytes and written. -/
def Flawless (cut : String → ByteArray → List Body) (contents : Set ByteArray) (files : List Content)
    (fates : String → Fate) : Prop :=
  ∀ f ∈ files, ∃ b ∈ contents, f.bytes = .ok b ∧ fates f.path = .built (cut f.path b) false

theorem Effect.built_of_flawless {x y : Records} {now : Int}
    (he : Effect x (files.map Content.listed) now fates y) {f : Content} (hf : f ∈ files) {b : ByteArray}
    (hb : f.bytes = .ok b) (hfate : fates f.path = .built (cut f.path b) false)
    (hs : ¬ Changes.Settled x.documents f.listed) :
    ∃ d cs, y.heldAt f.path = [(d, cs)] ∧ d.path = f.path ∧ d.digest = Digest.fingerprint b ∧
      cs.map Chunk.body = cut f.path b := by
  have hst : (fates f.listed.path).stored = some (cut f.path b) := by
    rw [show f.listed.path = f.path from rfl, hfate]; rfl
  obtain ⟨d, cs, hd, hp, hg, _, _, hbody⟩ := he.built f.listed (List.mem_map_of_mem hf) hs _ hst
  refine ⟨d, cs, hd, hp, ?_, hbody⟩
  unfold Content.listed at hg
  rw [hb] at hg
  exact (Except.ok.inj hg).symm

theorem Effect.lookAt_eq {x y : Records} {now : Int} (he : Effect x (files.map Content.listed) now fates y)
    (hinj : Set.InjOn Digest.fingerprint contents) (hx : x.Faithful cut contents)
    (hn : (files.map Content.path).Nodup) (hfl : Flawless cut contents files fates) (path : String) :
    y.lookAt path = Content.mirrored cut files path := by
  unfold Records.lookAt
  by_cases hp : path ∈ files.map Content.path
  · obtain ⟨f, hf, rfl⟩ := List.mem_map.mp hp
    obtain ⟨b, hbc, hb, hfate⟩ := hfl f hf
    rw [Content.mirrored_of_mem hn hf hb]
    by_cases hs : Changes.Settled x.documents f.listed
    · -- the digest of the kept document is that of these bytes, so it was built from the same
      obtain ⟨d, hd, hdp, hdig⟩ := hs.held hb
      obtain ⟨b', hbc', hdig', hcut⟩ := hx f.path d _ (hd ▸ List.mem_singleton_self _)
      have hbb : b' = b := hinj hbc' hbc (hdig'.symm.trans hdig)
      have hkeep : y.heldAt f.path = x.heldAt f.path := he.settled f.listed (List.mem_map_of_mem hf) hs
      rw [hkeep, hd, List.map_singleton, hcut, hdp, hdig, hbb]
    · obtain ⟨d, cs, hd, hdp, hdig, hcut⟩ := he.built_of_flawless hf hb hfate hs
      rw [hd, List.map_singleton, hdp, hdig, hcut]
  · rw [Content.mirrored_of_not_mem hp, he.unlisted path (by rwa [Content.map_listed_path])]
    rfl

end

namespace Ledger

/-- **History independence.** After any history from an empty store, a run in which nothing fails leaves
exactly the documents and chunks of its own files: what is seen at a path is a function of these files, and
no chunk is without its document. -/
theorem history_independent {ω : Type} {L : Ledger ω} {cut : String → ByteArray → List Body}
    {contents : Set ByteArray} (collisionFree : Set.InjOn Digest.fingerprint contents) {w₀ w : ω}
    (empty : L.slot.get w₀ = {}) (history : L.History (L.Follows cut contents) w₀ w)
    {I : ω → Prop} {env : Conditions ω} {source : Source ω} {files : List Content} {now : Int}
    {fates : String → Fate} (last : L.Fated I env source (files.map Content.listed) now fates)
    (flawless : Flawless cut contents files fates) (holds : I w)
    (accepted : L.dimension w = none ∨ L.dimension w = some source.dimension)
    (fresh : (L.made ((L.sync env).ingest source w).2).Nodup) :
    (∃ r, ((L.sync env).ingest source w).1 = .ok r ∧ r.report.cancelled = false) ∧
      (L.records ((L.sync env).ingest source w).2).Sound ∧
      ∀ path, (L.records ((L.sync env).ingest source w).2).lookAt path = Content.mirrored cut files path := by
  have hpre := made_prefix_ingest last.keeps holds
  have hempty : (L.records w₀).Faithful cut contents := by
    intro path d cs he
    unfold Ledger.records at he
    rw [empty] at he
    cases he
  obtain ⟨hk, hf⟩ := history.induct (fresh.sublist hpre.sublist) ⟨known_of_empty empty, hempty⟩ Step.faithful
  obtain ⟨hrun, he⟩ := last.effect ⟨holds, accepted, hk.sound, hk.freshSince fresh⟩
  have hn := last.distinct
  rw [Content.map_listed_path] at hn
  exact ⟨hrun, he.sound, he.lookAt_eq collisionFree hf hn flawless⟩

end Ledger

/-! ## Scripted corpora -/

namespace Session

/-- The chunks of a line-by-line corpus, from the bytes of a file. -/
def cutLines (path : String) (bytes : ByteArray) : List Body :=
  (Text.lines ((Text.decode? bytes).getD "")).map (lineBody path)

def filesOf (corpus : ScriptedCorpus) : List Content := corpus.files.map fun f => ⟨f.1, f.1, .ok f.2.toUTF8⟩

theorem listing_eq {corpus : ScriptedCorpus} (hr : corpus.unreadable = []) :
    corpus.listing = (filesOf corpus).map Content.listed := by
  unfold ScriptedCorpus.listing filesOf
  rw [hr, List.map_map]
  rfl

theorem cutLines_eq {corpus : ScriptedCorpus} (hn : (corpus.files.map Prod.fst).Nodup) {f : String × String}
    (hf : f ∈ corpus.files) : cutLines f.1 f.2.toUTF8 = bodies corpus f.1 := by
  have ht : corpus.text f.1 = f.2 := by
    unfold ScriptedCorpus.text
    cases hg : corpus.files.find? fun g => g.1 == f.1 with
    | none => exact absurd (beq_self_eq_true f.1) (List.find?_eq_none.mp hg f hf)
    | some g =>
      have hgf : g.1 = f.1 := by simpa using List.find?_some hg
      rw [List.inj_on_of_nodup_map hn (List.mem_of_find?_eq_some hg) hf hgf]
      rfl
  unfold cutLines bodies
  rw [ht, Text.decode?_toUTF8, Option.getD_some]

theorem reads_scripted {contents : Set ByteArray} {corpus : ScriptedCorpus} (hc : corpus.cancelling = none)
    (hu : corpus.unlistable = false) (hr : corpus.unreadable = []) (hn : (corpus.files.map Prod.fst).Nodup)
    (hin : ∀ f ∈ corpus.files, f.2.toUTF8 ∈ contents) (clock : Nat) (refuses : Bool) :
    ledger.Reads cutLines contents (Steady corpus clock refuses) conditions scriptedSource := by
  refine ⟨filesOf corpus, ?_, ?_, (keeps_scripted hc hu clock refuses).mono ?_ ?_⟩
  · unfold filesOf
    rw [List.map_map]
    exact hn
  · intro f hf b hb
    obtain ⟨g, hg, rfl⟩ := List.mem_map.mp hf
    cases hb
    exact hin g hg
  · rintro stored a ids ⟨c, rfl, hcmp⟩ c' hc'
    cases hc'
    rw [listing_eq hr] at hcmp
    exact ⟨_, hcmp⟩
  · rintro p a r ids answers ⟨rfl, _, ho, hans⟩
    refine ⟨ho, ?_⟩
    intro f hf hpath b hb cs hcs
    obtain ⟨g, hg, rfl⟩ := List.mem_map.mp hf
    cases hb
    split at hans
    · obtain ⟨f, hf⟩ := hans
      rw [hcs] at hf
      cases hf
    · obtain ⟨cs', he, hbody⟩ := hans
      rw [hcs] at he
      cases he
      rw [hbody, ← hpath, cutLines_eq hn hg]

theorem flawless_scripted {contents : Set ByteArray} {corpus : ScriptedCorpus} (hf : corpus.failing = [])
    (hn : (corpus.files.map Prod.fst).Nodup) (hin : ∀ f ∈ corpus.files, f.2.toUTF8 ∈ contents) :
    Flawless cutLines contents (filesOf corpus) (fate corpus false) := by
  intro f hf'
  obtain ⟨g, hg, rfl⟩ := List.mem_map.mp hf'
  refine ⟨_, hin g hg, rfl, ?_⟩
  unfold fate
  rw [hf, cutLines_eq hn hg]
  rfl

def twins (failing : List String) : ScriptedCorpus :=
  { files := [("A.cs", "a1\na2"), ("B.cs", "a1\na2")], failing }

/-- A session whose first run fails for one of the files and which the failure has left since. -/
def recovering : Session :=
  { ((ledger.sync conditions).ingest scriptedSource { corpus := twins ["B.cs"] }).2 with corpus := twins [] }

theorem recovering_history : ledger.History (ledger.Follows cutLines {"a1\na2".toUTF8})
    { corpus := twins ["B.cs"] } recovering := by
  have hr := @reads_scripted {"a1\na2".toUTF8} (twins ["B.cs"]) rfl rfl rfl (by decide) (by simp [twins])
    1750000000000 false
  have h₀ : Steady (twins ["B.cs"]) 1750000000000 false { corpus := twins ["B.cs"] } := ⟨rfl, rfl, rfl, rfl⟩
  have ha : ledger.Aside ((ledger.sync conditions).ingest scriptedSource { corpus := twins ["B.cs"] }).2
      recovering [] [] := ⟨⟨_, rfl⟩, (List.append_nil _).symm, rfl⟩
  exact (Relation.ReflTransGen.single (.ingest ⟨conditions, rfl, hr⟩ h₀)).tail (.aside ha)

theorem recovering_steady : Steady (twins []) 1750000000000 false recovering := by
  have h₀ : Steady (twins ["B.cs"]) 1750000000000 false { corpus := twins ["B.cs"] } := ⟨rfl, rfl, rfl, rfl⟩
  have hk := @keeps_scripted (twins ["B.cs"]) rfl rfl 1750000000000 false
  obtain ⟨a, w, hrun, hw, _⟩ := Ledger.ingest_run hk h₀
  unfold recovering
  rw [hrun]
  exact ⟨rfl, hw.clock, hw.refuses, hw.cancelled⟩

end Session

open Session in
theorem history_independent_recovering :
    (ledger.records ((ledger.sync conditions).ingest scriptedSource recovering).2).Sound ∧
      ∀ path, (ledger.records ((ledger.sync conditions).ingest scriptedSource recovering).2).lookAt path =
        Content.mirrored cutLines (filesOf (twins [])) path := by
  have hd : ((twins []).listing.map Listed.path).Nodup := by decide
  have hlast := @fated_scripted (twins []) rfl rfl hd 1750000000000 false
  have hdim : ledger.dimension recovering = some 2 := by decide +kernel
  rw [listing_eq rfl] at hlast
  obtain ⟨_, hsound, hall⟩ := Ledger.history_independent (Set.injOn_singleton _ _) rfl recovering_history hlast
    (flawless_scripted rfl (by decide) (by simp [twins])) recovering_steady (.inr hdim) (by decide +kernel)
  exact ⟨hsound, hall⟩

end CodeCorpus
