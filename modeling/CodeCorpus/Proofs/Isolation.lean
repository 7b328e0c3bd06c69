import CodeCorpus.Proofs.Sessions

/-!
# The exact effect of a run, and the isolation of failures

For a run that nothing cancels, each path of its listing has a fate: its chunks are built, and the store
may refuse to write them, or building them fails. The fates decide what the store holds in the end, path by
path, and the fate of one path matters to no other.
-/

namespace CodeCorpus

/-- What becomes of a document that has to be built. -/
inductive Fate where
  | built (bodies : List Body) (refused : Bool)
  | failed

namespace Fate

/-- What the chunks say that are stored in the end, if the document is. Nothing is refused where there is
nothing to write. -/
def stored : Fate → Option (List Body)
  | .built bodies refused => if refused && !bodies.isEmpty then none else some bodies
  | .failed => none

/-- The answer for a document, and whether the store refuses chunks then, are as fated. -/
def Met (fate : Fate) (answer : Except Fault (List Chunk)) (refuses : Bool) : Prop :=
  match fate with
  | .built bodies refused => refuses = refused ∧ ∃ cs, answer = .ok cs ∧ cs.map Chunk.body = bodies
  | .failed => ∃ f, answer = .error f

theorem Met.outcome {fate : Fate} {h : Handled} (hm : fate.Met h.answer h.refuses) :
    h.outcome.toOption.map (List.map Chunk.body) = fate.stored := by
  unfold Handled.outcome
  cases fate with
  | failed =>
    obtain ⟨f, ha⟩ := hm
    rw [ha]
    rfl
  | built bodies refused =>
    obtain ⟨hr, cs, ha, rfl⟩ := hm
    rw [ha, hr]
    simp only [stored, List.isEmpty_map]
    split <;> rfl

end Fate

/-- What is seen at a path apart from identifiers. -/
def Records.seenAt (x : Records) (path : String) : List (String × String × Int × List Body) :=
  (x.heldAt path).map fun e => (e.1.path, e.1.digest, e.1.indexedAt, e.2.map Chunk.body)

/-- What a run over a listing makes of the records `x`. -/
structure Effect (x : Records) (listing : List Listed) (now : Int) (fates : String → Fate) (y : Records) :
    Prop where
  /-- No chunk is without its document, so that the paths below show everything. -/
  sound : y.Sound
  unlisted : ∀ path ∉ listing.map Listed.path, y.heldAt path = []
  settled : ∀ e ∈ listing, Changes.Settled x.documents e → y.heldAt e.path = x.heldAt e.path
  built : ∀ e ∈ listing, ¬ Changes.Settled x.documents e → ∀ bodies, (fates e.path).stored = some bodies →
    ∃ d cs, y.heldAt e.path = [(d, cs)] ∧ d.path = e.path ∧ e.digest = .ok d.digest ∧ d.indexedAt = now ∧
      d.id ∉ x.documents.map Document.id ∧ cs.map Chunk.body = bodies
  failed : ∀ e ∈ listing, ¬ Changes.Settled x.documents e → (fates e.path).stored = none →
    y.heldAt e.path = []

theorem Effect.seenAt_eq {x y z : Records} {listing : List Listed} {now : Int} {fates fates' : String → Fate}
    (hy : Effect x listing now fates y) (hz : Effect x listing now fates' z) {path : String}
    (h : fates' path = fates path) : z.seenAt path = y.seenAt path := by
  unfold Records.seenAt
  by_cases hl : path ∈ listing.map Listed.path
  · obtain ⟨e, he, rfl⟩ := List.mem_map.mp hl
    by_cases hs : Changes.Settled x.documents e
    · rw [hy.settled e he hs, hz.settled e he hs]
    · cases hf : (fates e.path).stored with
      | none =>
        have hf' : (fates' e.path).stored = none := by rw [h]; exact hf
        rw [hy.failed e he hs hf, hz.failed e he hs hf']
      | some bodies =>
        have hf' : (fates' e.path).stored = some bodies := by rw [h]; exact hf
        obtain ⟨d, cs, hd, hp, hg, hn, _, hb⟩ := hy.built e he hs bodies hf
        obtain ⟨d', cs', hd', hp', hg', hn', _, hb'⟩ := hz.built e he hs bodies hf'
        have hdig : d'.digest = d.digest := Except.ok.inj (hg'.symm.trans hg)
        rw [hd, hd']
        simp only [List.map_cons, List.map_nil, hp, hp', hn, hn', hb, hb', hdig]
  · rw [hy.unlisted path hl, hz.unlisted path hl]

namespace Ledger

variable {ω : Type} {L : Ledger ω} {I : ω → Prop} {env : Conditions ω} {source : Source ω}
  {listing : List Listed} {now : Int} {fates : String → Fate}

/-- A run over a listing of distinct paths that nothing cancels, where each listed document meets the fate of
its path. -/
structure Fated (L : Ledger ω) (I : ω → Prop) (env : Conditions ω) (source : Source ω)
    (listing : List Listed) (now : Int) (fates : String → Fate) : Prop where
  keeps : L.Keeps I env source
    (fun stored answer ids => ∃ c, answer = .ok c ∧ Changes.Compared listing now stored c ids)
    (fun p answer refuses ids _ => p.Owns answer ids ∧
      (p.document.path ∈ listing.map Listed.path → (fates p.document.path).Met answer refuses))
  calm : ¬ Cancellable I env
  distinct : (listing.map Listed.path).Nodup

/-- A run can be made in a world: the width is accepted, the records are sound, and the identifiers made are
new to them. -/
structure Ready (L : Ledger ω) (I : ω → Prop) (env : Conditions ω) (source : Source ω) (w : ω) : Prop where
  holds : I w
  accepted : L.dimension w = none ∨ L.dimension w = some source.dimension
  sound : (L.records w).Sound
  fresh : L.FreshSince w ((L.sync env).ingest source w).2

theorem Fated.effect (hf : L.Fated I env source listing now fates) {w : ω} (hw : L.Ready I env source w) :
    (∃ r, ((L.sync env).ingest source w).1 = .ok r ∧ r.report.cancelled = false) ∧
      Effect (L.records w) listing now fates (L.records ((L.sync env).ingest source w).2) := by
  have hfresh := hw.fresh
  obtain ⟨a, w', hrun, _, ⟨f, _, _, ⟨k, hk, hne⟩ | ⟨stored, f', ids, c, he, _⟩⟩ | ⟨r, c, ids, done, hs, rfl, h⟩⟩ :=
    ingest_run hf.keeps hw.holds
  · -- the width is accepted and changes are always found, so the run is made
    rcases hw.accepted with hd | hd
    · rw [hk] at hd; cases hd
    · rw [hk] at hd; cases hd; exact absurd rfl hne
  · cases he
  rw [hrun] at hfresh ⊢
  have hr : r.report.cancelled = false := by
    cases hb : r.report.cancelled with
    | false => rfl
    | true => exact absurd (h.cancelled hb) hf.calm
  obtain ⟨stored, hp, _, he, hc⟩ := h.found
  cases he
  obtain ⟨rfl, hall⟩ := h.complete hr
  have hfr := h.fresh hw.sound hfresh hc.ids_sublist fun g hg => (h.said g hg).1
  refine ⟨⟨r, rfl, hr⟩, h.sound hw.sound hfr, ?_, ?_, ?_, ?_⟩
  · intro path hl
    rw [h.records]
    exact Records.heldAt_run_unlisted hw.sound hp hc hfr hall hl
  · intro e he hs
    rw [h.records]
    exact Records.heldAt_run_settled hw.sound hp hc hfr hall hf.distinct he hs
  · intro e he hs bodies hb
    obtain ⟨g, hg, hpath, hdig, hnow, hheld⟩ :=
      Records.heldAt_run_built hw.sound hp hc hfr hall hf.distinct he hs
    have hout := ((h.said g hg).2 (hpath ▸ List.mem_map_of_mem he)).outcome
    rw [hpath, hb] at hout
    obtain ⟨cs, hcs, hbody⟩ := Option.map_eq_some_iff.mp hout
    refine ⟨g.pending.document, cs, ?_, hpath, hdig, hnow, hfr.id_not_mem_of_mem (List.mem_map_of_mem hg), hbody⟩
    rw [h.records, hheld, hcs]
    rfl
  · intro e he hs hb
    obtain ⟨g, hg, hpath, _, _, hheld⟩ :=
      Records.heldAt_run_built hw.sound hp hc hfr hall hf.distinct he hs
    have hout := ((h.said g hg).2 (hpath ▸ List.mem_map_of_mem he)).outcome
    rw [hpath, hb] at hout
    rw [h.records, hheld, Option.map_eq_none_iff.mp hout]
    rfl

theorem freshSince_of_drop {w w' : ω} (h : (L.records w).Unused ((L.made w').drop (L.made w).length)) :
    L.FreshSince w w' := by
  intro ids hids
  rwa [hids, List.drop_left] at h

/-- **The exact effect of a run.** A run that nothing cancels leaves nothing at paths that are not listed,
leaves settled paths as they were, and leaves at every other listed path the fresh document with its chunks,
or nothing where it failed. A second run from the same records that differs in the fate of one path alone
leaves the same to be seen at all others. -/
theorem ingest_effect (hf : L.Fated I env source listing now fates) {w : ω} (hw : L.Ready I env source w) :
    (∃ r, ((L.sync env).ingest source w).1 = .ok r ∧ r.report.cancelled = false) ∧
      Effect (L.records w) listing now fates (L.records ((L.sync env).ingest source w).2) ∧
      ∀ {I' : ω → Prop} {env' : Conditions ω} {source' : Source ω} {fates' : String → Fate} {v : ω},
        L.Fated I' env' source' listing now fates' → L.Ready I' env' source' v → L.records v = L.records w →
        ∀ one, (∀ path, path ≠ one → fates' path = fates path) →
        ∀ path, path ≠ one → (L.records ((L.sync env').ingest source' v).2).seenAt path =
          (L.records ((L.sync env).ingest source w).2).seenAt path := by
  obtain ⟨hrun, heffect⟩ := hf.effect hw
  refine ⟨hrun, heffect, ?_⟩
  intro I' env' source' fates' v hf' hv hrec one hsame path hpath
  obtain ⟨_, heffect'⟩ := hf'.effect hv
  rw [hrec] at heffect'
  exact heffect.seenAt_eq heffect' (hsame path hpath)

end Ledger

namespace Session

def fate (corpus : ScriptedCorpus) (refuses : Bool) (path : String) : Fate :=
  if corpus.failing.contains path then .failed else .built (bodies corpus path) refuses

theorem fated_scripted {corpus : ScriptedCorpus} (hc : corpus.cancelling = none)
    (hu : corpus.unlistable = false) (hd : (corpus.listing.map Listed.path).Nodup) (clock : Nat) (refuses : Bool) :
    ledger.Fated (Steady corpus clock refuses) conditions scriptedSource corpus.listing
      ((clock / 1000 : Nat) : Int) (fate corpus refuses) := by
  refine ⟨(keeps_scripted hc hu clock refuses).mono (fun _ _ _ h => h) ?_, ?_, hd⟩
  · rintro p a r ids answers ⟨rfl, _, ho, ha⟩
    refine ⟨ho, fun _ => ?_⟩
    unfold fate
    by_cases hf : corpus.failing.contains p.document.path = true
    · rw [if_pos hf] at ha ⊢; exact ha
    · rw [if_neg hf] at ha ⊢; exact ⟨rfl, ha⟩
  · rintro ⟨s, hs, hb⟩
    exact Bool.noConfusion (hs.cancelled.symm.trans hb)

/-- A store with a document whose file is gone, beside three files of which one cannot be read. -/
def mixed (failing : List String) : Session :=
  { memory := {
      documents := [⟨.ofNat 1, "gone.cs", "old", 0⟩]
      chunks := [⟨.ofNat 2, .ofNat 1, "", "", none, "g", 1, [], false⟩]
      dimension := some 2 }
    corpus := {
      files := [("A.cs", "a1\na2"), ("B.cs", "b"), ("C.cs", "c")]
      failing
      unreadable := [("C.cs", "denied")] } }

theorem mixed_fated (failing : List String) : ledger.Fated (Steady (mixed failing).corpus 1750000000000 false)
    conditions scriptedSource (mixed []).corpus.listing 1750000000 (fate (mixed failing).corpus false) :=
  have hd : ((mixed []).corpus.listing.map Listed.path).Nodup := by decide
  @fated_scripted (mixed failing).corpus rfl rfl hd 1750000000000 false

theorem mixed_ready (failing : List String)
    (hu : (ledger.records (mixed [])).Unused
      (ledger.made ((ledger.sync conditions).ingest scriptedSource (mixed failing)).2)) :
    ledger.Ready (Steady (mixed failing).corpus 1750000000000 false) conditions scriptedSource (mixed failing) :=
  have hs : (ledger.records (mixed [])).Sound := ⟨by decide, by decide, by decide⟩
  ⟨⟨rfl, rfl, rfl, rfl⟩, .inr rfl, hs, Ledger.freshSince_of_drop hu⟩

end Session

open Session in
theorem ingest_effect_mixed :
    Effect (ledger.records (mixed ["B.cs"])) (mixed []).corpus.listing 1750000000
        (fate (mixed ["B.cs"]).corpus false)
        (ledger.records ((ledger.sync conditions).ingest scriptedSource (mixed ["B.cs"])).2) ∧
      (ledger.records ((ledger.sync conditions).ingest scriptedSource (mixed [])).2).seenAt "A.cs" =
        (ledger.records ((ledger.sync conditions).ingest scriptedSource (mixed ["B.cs"])).2).seenAt "A.cs" := by
  have hw := mixed_ready ["B.cs"] ⟨by decide +kernel, by decide +kernel, by decide +kernel⟩
  have hv := mixed_ready [] ⟨by decide +kernel, by decide +kernel, by decide +kernel⟩
  obtain ⟨_, heffect, hother⟩ := Ledger.ingest_effect (mixed_fated _) hw
  refine ⟨heffect, hother (mixed_fated []) hv rfl "B.cs" ?_ "A.cs" (by decide)⟩
  intro path hne
  unfold fate
  rw [if_neg (by simp [mixed]), if_neg (by simp [mixed, hne])]
  rfl

end CodeCorpus
