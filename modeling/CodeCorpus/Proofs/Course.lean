import CodeCorpus.Proofs.Ledger

/-!
# The course of a run

What a synchronisation of a store in memory does, document by document. A run clears the documents whose
file is gone, then handles those that have to be built, and may be cancelled on the way (`Clearing`,
`Course`). The records go through exactly what was handled.
-/

namespace CodeCorpus

/-- What became of a document that had to be built: the answer for its chunks, whether the store refused
chunks then, and what was put on record meanwhile. -/
structure Handled where
  pending : Pending
  answer : Except Fault (List Chunk)
  refuses : Bool
  ids : List Uuid
  answers : List (Uuid × List Chunk)

namespace Handled

/-- The chunks that were stored, or why there are none. -/
def outcome (h : Handled) : Except Fault (List Chunk) :=
  match h.answer with
  | .ok cs =>
    if h.refuses && !cs.isEmpty then
      .error ((Fault.store (.storeFailed "chunk writes disabled")).within "Failed to store chunks")
    else .ok cs
  | .error f => .error f

def work (h : Handled) : Records.Work := (h.pending.document, h.outcome.toOption)

/-- The run after the document has been counted. -/
def count (h : Handled) (r : Run) : Run :=
  match h.outcome with
  | .ok cs => (r.rebuilt cs.length).notify h.pending.document.path
  | .error f => (r.fail h.pending.document.path f.message).notify h.pending.document.path

theorem count_cancelled (h : Handled) (r : Run) : (h.count r).report.cancelled = r.report.cancelled := by
  unfold count; split <;> rfl

section
variable {h : Handled} {cs : List Chunk} {f : Fault}

theorem work_ok (ho : h.outcome = .ok cs) : h.work = (h.pending.document, some cs) := by
  unfold work; rw [ho]; rfl

theorem work_error (ho : h.outcome = .error f) : h.work = (h.pending.document, none) := by
  unfold work; rw [ho]; rfl

theorem count_ok (ho : h.outcome = .ok cs) (r : Run) :
    h.count r = (r.rebuilt cs.length).notify h.pending.document.path := by
  unfold count; rw [ho]

theorem count_error (ho : h.outcome = .error f) (r : Run) :
    h.count r = (r.fail h.pending.document.path f.message).notify h.pending.document.path := by
  unfold count; rw [ho]

end

end Handled

/-- The documents cleared of those to clear, and the run before and after. -/
inductive Clearing : List Document → List Document → Run → Run → Prop where
  | done (r : Run) : Clearing [] [] r r
  | stop (d : Document) (ds : List Document) (r : Run) : Clearing (d :: ds) [] r r.cancel
  | next {d : Document} {ds done : List Document} {r r' : Run} :
    Clearing ds done (r.removed.notify d.path) r' → Clearing (d :: ds) (d :: done) r r'

/-- The documents handled of those to build, and the run before and after. A cancellation is seen before a
document, or after one that failed. -/
inductive Course : List Pending → List Handled → Run → Run → Prop where
  | done (r : Run) : Course [] [] r r
  | stop (p : Pending) (ps : List Pending) (r : Run) : Course (p :: ps) [] r r.cancel
  | abort {h : Handled} {f : Fault} (ps : List Pending) (r : Run) (failed : h.outcome = .error f) :
    Course (h.pending :: ps) [h] r r.cancel
  | next {h : Handled} {ps : List Pending} {hs : List Handled} {r r' : Run} :
    Course ps hs (h.count r) r' → Course (h.pending :: ps) (h :: hs) r r'

/-! ## What a course covers -/

theorem Clearing.all_of_not_cancelled {ds done : List Document} {r r' : Run} (h : Clearing ds done r r')
    (hc : r'.report.cancelled = false) :
    done = ds ∧ r' = ds.foldl (fun r d => r.removed.notify d.path) r := by
  induction h with
  | done => exact ⟨rfl, rfl⟩
  | stop => cases hc
  | next _ ih =>
    obtain ⟨rfl, hr⟩ := ih hc
    exact ⟨rfl, hr⟩

theorem Course.handled_prefix {ps : List Pending} {hs : List Handled} {r r' : Run} (h : Course ps hs r r') :
    hs.map Handled.pending <+: ps := by
  induction h with
  | done => exact List.prefix_rfl
  | stop => exact List.nil_prefix
  | abort ps => exact (List.prefix_cons_inj _).mpr List.nil_prefix
  | next _ ih => exact (List.prefix_cons_inj _).mpr ih

theorem Course.all_of_not_cancelled {ps : List Pending} {hs : List Handled} {r r' : Run}
    (h : Course ps hs r r') (hc : r'.report.cancelled = false) :
    hs.map Handled.pending = ps ∧ r' = hs.foldl (fun r h => h.count r) r := by
  induction h with
  | done => exact ⟨rfl, rfl⟩
  | stop => cases hc
  | abort => cases hc
  | next _ ih =>
    obtain ⟨rfl, hr⟩ := ih hc
    exact ⟨rfl, hr⟩

/-! ## One round of a loop -/

section
variable {ω : Type} {s : Sync ω} {source : Source ω} {p : Pending} {r : Run} {w v u : ω}

theorem Sync.rebuilds_of_cancelled (hr : r.report.cancelled = true) (ps : List Pending) (w : ω) :
    s.rebuilds source ps r w = (.ok r, w) := by
  cases ps with
  | nil => rfl
  | cons p ps => rw [Sync.rebuilds, if_pos hr]; rfl

theorem Sync.rebuilds_cons_ok {ps : List Pending} {n : Nat} (hr : ¬ r.report.cancelled = true)
    (hv : Action.ofState s.env.cancelled w = (.ok false, v)) (hu : s.rebuild source p v = (.ok n, u)) :
    s.rebuilds source (p :: ps) r w =
      s.rebuilds source ps ((r.rebuilt n).notify p.document.path) u := by
  rw [Sync.rebuilds, if_neg hr]
  exact (Action.bind_run_ok hv).trans (Action.bind_run_ok (Action.attempt_run hu))

theorem Sync.rebuilds_cons_error {ps : List Pending} {f : Fault} {r₂ : Run} {x y : ω} {b : Bool}
    (hr : ¬ r.report.cancelled = true) (hv : Action.ofState s.env.cancelled w = (.ok false, v))
    (hu : s.rebuild source p v = (.error f, u)) (hx : s.rollBack p.document r u = (.ok r₂, x))
    (hy : Action.ofState s.env.cancelled x = (.ok b, y)) :
    s.rebuilds source (p :: ps) r w =
      if b then (.ok r₂.cancel, y)
      else s.rebuilds source ps ((r₂.fail p.document.path f.message).notify p.document.path) y := by
  rw [Sync.rebuilds, if_neg hr]
  refine (Action.bind_run_ok hv).trans ((Action.bind_run_ok (Action.attempt_run hu)).trans ?_)
  refine (Action.bind_run_ok hx).trans ((Action.bind_run_ok hy).trans ?_)
  cases b <;> rfl

end

namespace Ledger

variable {ω : Type} {L : Ledger ω} {I : ω → Prop} {env : Conditions ω} {source : Source ω}
  {found : List Document → Except Fault Changes → List Uuid → Prop}
  {said : Pending → Except Fault (List Chunk) → Bool → List Uuid → List (Uuid × List Chunk) → Prop}

def left (h : Handled) (x : Records) : Records :=
  match h.outcome with
  | .ok cs => x.rebuild (h.pending.document, some cs)
  | .error _ => (x.withoutPath h.pending.document.path).put h.pending.document

theorem left_ok {h : Handled} {cs : List Chunk} (ho : h.outcome = .ok cs) :
    left h = Records.rebuild (h.pending.document, some cs) := by
  funext x; unfold left; rw [ho]

theorem left_error {h : Handled} {f : Fault} (ho : h.outcome = .error f) :
    left h = fun x => (x.withoutPath h.pending.document.path).put h.pending.document := by
  funext x; unfold left; rw [ho]

/-! ## One document -/

theorem put_run {cs : List Chunk} {w : ω} {m : MemoryStore} {r : Except Fault Unit}
    (h : (L.slot.get w).putChunks cs = (r, m)) :
    (L.sync env).store.putChunks cs w = (r, L.slot.set m w) := by
  show (((L.slot.get w).putChunks cs).1, L.slot.set ((L.slot.get w).putChunks cs).2 w) = _
  rw [h]

theorem rebuild_run (hk : L.Keeps I env source found said) (p : Pending) {w : ω} (hw : I w) :
    ∃ h w', h.pending = p ∧ said p h.answer h.refuses h.ids h.answers ∧
      (L.sync env).rebuild source p w = (h.outcome.map List.length, w') ∧
      L.Leads I w w' (left h) h.ids h.answers := by
  obtain ⟨w₁, hr₁, hl₁⟩ := removeAtPath_run env hk.write p.document.path hw
  have hl₂ := leads_set hk.write hl₁.holds (MemoryStore.putDocument_turns p.document (L.slot.get w₁))
  generalize hw₂ : L.slot.set ((L.slot.get w₁).putDocuments [p.document]) w₁ = w₂ at hl₂
  have hput : (L.sync env).store.putDocuments [p.document] w₁ = (.ok (), w₂) := hw₂ ▸ rfl
  obtain ⟨hI, ids, answers, ha, hs⟩ := hk.chunks p w₂ hl₂.holds
  have hl₃ := (hl₁.trans hl₂).trans (ha.leads hI)
  have hrun : (L.sync env).rebuild source p w = (do
      let chunks ← source.chunks p
      ((L.sync env).store.putChunks chunks).within "Failed to store chunks"
      pure chunks.length : Action ω Nat) w₂ :=
    (Action.bind_run_ok hr₁).trans (Action.bind_run_ok (Action.within_run_ok _ hput))
  rw [hrun]
  -- from here on the answer decides: no chunks, chunks that are refused, or chunks that are written
  cases hc : source.chunks p w₂ with
  | mk a w₃ =>
    rw [hc] at hI ha hs hl₃
    refine ⟨⟨p, a, (L.slot.get w₃).refusesChunks, ids, answers⟩, ?_⟩
    cases a with
    | error f => exact ⟨w₃, rfl, hs, Action.bind_run_error hc, hl₃⟩
    | ok cs =>
      rw [Action.bind_run_ok hc]
      generalize hh : Handled.mk p (.ok cs) (L.slot.get w₃).refusesChunks ids answers = h
      rcases MemoryStore.putChunks_cases cs (L.slot.get w₃) with ⟨hp, hb⟩ | ⟨hb, m, hp, ht⟩
      · have ho : h.outcome = .error ((Fault.store (.storeFailed "chunk writes disabled")).within
            "Failed to store chunks") := by rw [← hh]; exact if_pos hb
        have hst : (L.sync env).store.putChunks cs w₃ = (.error (.store (.storeFailed
            "chunk writes disabled")), L.slot.set (L.slot.get w₃) w₃) := put_run hp
        have hl₄ := leads_set (f := id) hk.write hI ⟨rfl, rfl, rfl⟩
        refine ⟨L.slot.set (L.slot.get w₃) w₃, by rw [← hh], by rw [← hh]; exact hs, ?_, ?_⟩
        · rw [ho]
          exact Action.bind_run_error (Action.within_run_error _ hst)
        · rw [left_error ho, ← hh]
          simpa using hl₃.trans hl₄
      · have ho : h.outcome = .ok cs := by rw [← hh]; exact if_neg (by simp [hb])
        have hst : (L.sync env).store.putChunks cs w₃ = (.ok (), L.slot.set m w₃) := put_run hp
        have hl₄ := leads_set hk.write hI ht
        refine ⟨L.slot.set m w₃, by rw [← hh], by rw [← hh]; exact hs, ?_, ?_⟩
        · rw [ho]
          exact Action.bind_run_ok (Action.within_run_ok _ hst)
        · rw [left_ok ho, ← hh]
          show L.Leads I w _ (fun x => ((x.withoutPath p.document.path).put p.document).fill cs) ids answers
          simpa using hl₃.trans hl₄

theorem rollBack_run (env : Conditions ω) (write : L.Writable I) (d : Document) (r : Run) {w : ω} (hw : I w) :
    ∃ w', (L.sync env).rollBack d r w = (.ok r, w') ∧ L.Leads I w w' (Records.without [d.id]) [] [] := by
  obtain ⟨w', hr, hl⟩ := remove_run env write [d] hw
  exact ⟨w', Action.bind_run_ok (Action.attempt_run hr), hl⟩

theorem asked_run (hk : L.Keeps I env source found said) {w : ω} (hw : I w) :
    ∃ b w', Action.ofState env.cancelled w = (.ok b, w') ∧ b = (env.cancelled w).1 ∧
      L.Leads I w w' id [] [] := by
  obtain ⟨hI, ha⟩ := hk.asked w hw
  exact ⟨_, _, rfl, rfl, ha.leads hI⟩

/-! ## All documents -/

/-- Some world of `I` says that the run is cancelled. -/
def Cancellable (I : ω → Prop) (env : Conditions ω) : Prop := ∃ v, I v ∧ (env.cancelled v).1 = true

theorem deletions_run (hk : L.Keeps I env source found said) : ∀ (ds : List Document) (r : Run) {w : ω}, I w →
    ∃ done r' w', (L.sync env).deletions ds r w = (.ok r', w') ∧ Clearing ds done r r' ∧
      L.Leads I w w' (Records.deleteAll done) [] [] ∧
      (r'.report.cancelled = true → r.report.cancelled = true ∨ Cancellable I env)
  | [], r, w, hw => ⟨[], r, w, rfl, .done r, .refl hw, .inl⟩
  | d :: ds, r, w, hw => by
    obtain ⟨b, v, hv, hb, hlv⟩ := asked_run hk hw
    cases b with
    | true =>
      refine ⟨[], r.cancel, v, ?_, .stop d ds r, hlv, fun _ => .inr ⟨w, hw, hb.symm⟩⟩
      exact Action.bind_run_ok hv
    | false =>
      obtain ⟨u, hu, hlu⟩ := remove_run env hk.write [d] hlv.holds
      obtain ⟨done, r', w', hrun, hc, hl, hcan⟩ := deletions_run hk ds (r.removed.notify d.path) hlu.holds
      refine ⟨d :: done, r', w', ?_, .next hc, (hlv.trans hlu).trans hl, hcan⟩
      exact (Action.bind_run_ok hv).trans ((Action.bind_run_ok (Action.attempt_run hu)).trans hrun)

theorem cancel_of_cancelled {r : Run} (hr : r.report.cancelled = true) : r.cancel = r := by
  unfold Run.cancel; rw [← hr]

theorem rebuilds_run (hk : L.Keeps I env source found said) : ∀ (ps : List Pending) (r : Run) {w : ω}, I w →
    ∃ hs r' w', (L.sync env).rebuilds source ps r w = (.ok r', w') ∧ Course ps hs r r' ∧
      L.Leads I w w' (Records.rebuildAll (hs.map Handled.work)) (hs.flatMap Handled.ids)
        (hs.flatMap Handled.answers) ∧
      (∀ h ∈ hs, said h.pending h.answer h.refuses h.ids h.answers) ∧
      (r'.report.cancelled = true → r.report.cancelled = true ∨ Cancellable I env)
  | [], r, w, hw => ⟨[], r, w, rfl, .done r, .refl hw, by simp, .inl⟩
  | p :: ps, r, w, hw => by
    by_cases hr : r.report.cancelled = true
    · -- a cancellation while clearing is not asked for again
      refine ⟨[], r, w, Sync.rebuilds_of_cancelled hr _ w, ?_, .refl hw, by simp, .inl⟩
      have hs := Course.stop p ps r
      rwa [cancel_of_cancelled hr] at hs
    obtain ⟨b, v, hv, hb, hlv⟩ := asked_run hk hw
    cases b with
    | true =>
      refine ⟨[], r.cancel, v, ?_, .stop p ps r, hlv, by simp, fun _ => .inr ⟨w, hw, hb.symm⟩⟩
      rw [Sync.rebuilds, if_neg hr]
      exact Action.bind_run_ok hv
    | false =>
      obtain ⟨h, u, rfl, hsaid, hu, hlu⟩ := rebuild_run hk p hlv.holds
      cases ho : h.outcome with
      | ok cs =>
        rw [ho] at hu
        obtain ⟨hs, r', w', hrun, hc, hl, hall, hcan⟩ := rebuilds_run hk ps (h.count r) hlu.holds
        refine ⟨h :: hs, r', w', ?_, .next hc, ?_, List.forall_mem_cons.mpr ⟨hsaid, hall⟩, ?_⟩
        · rw [Sync.rebuilds_cons_ok (s := L.sync env) hr hv hu, ← Handled.count_ok ho]
          exact hrun
        · rw [left_ok ho, ← Handled.work_ok ho] at hlu
          exact (hlv.trans hlu).trans hl
        · rw [← h.count_cancelled r]; exact hcan
      | error f =>
        rw [ho] at hu
        obtain ⟨x, hx, hlx⟩ := rollBack_run env hk.write h.pending.document r hlu.holds
        obtain ⟨b', y, hy, hb', hly⟩ := asked_run hk hlx.holds
        rw [left_error ho] at hlu
        have hone : L.Leads I w y (Records.rebuild h.work) h.ids h.answers := by
          have hall := ((hlv.trans hlu).trans hlx).trans hly
          simp only [List.nil_append, List.append_nil] at hall
          rw [Handled.work_error ho]
          exact hall
        rw [Sync.rebuilds_cons_error (s := L.sync env) hr hv hu hx hy]
        cases b' with
        | true =>
          refine ⟨[h], r.cancel, y, rfl, .abort ps r ho, ?_, by simpa using hsaid, ?_⟩
          · show L.Leads I w y (Records.rebuild h.work) ([h].flatMap Handled.ids) ([h].flatMap Handled.answers)
            simpa only [List.flatMap_cons, List.flatMap_nil, List.append_nil] using hone
          · exact fun _ => .inr ⟨x, hlx.holds, hb'.symm⟩
        | false =>
          obtain ⟨hs, r', w', hrun, hc, hl, hall, hcan⟩ := rebuilds_run hk ps (h.count r) hly.holds
          refine ⟨h :: hs, r', w', ?_, .next hc, hone.trans hl, List.forall_mem_cons.mpr ⟨hsaid, hall⟩, ?_⟩
          · rw [← Handled.count_error ho]; exact hrun
          · rw [← h.count_cancelled r]; exact hcan

/-! ## A whole run -/

theorem skip_cancelled : ∀ (us : List (String × String)) (r : Run),
    (r.skip us).report.cancelled = r.report.cancelled
  | [], _ => rfl
  | (path, reason) :: us, r => by
    rw [Run.skip, skip_cancelled us]; rfl

/-- How a run went from `w` to `w'` with the changes `c`: what it cleared, what it handled, and what that did
to the records. -/
structure Applied (L : Ledger ω) (I : ω → Prop) (env : Conditions ω)
    (said : Pending → Except Fault (List Chunk) → Bool → List Uuid → List (Uuid × List Chunk) → Prop)
    (c : Changes) (w w' : ω) (r : Run) (done : List Document) (hs : List Handled) : Prop where
  course : ∃ r₁, Clearing c.deleted done ((Run.start c).skip c.unreadable) r₁ ∧ Course c.pending hs r₁ r
  leads : L.Leads I w w' (fun x => (x.deleteAll done).rebuildAll (hs.map Handled.work))
    (hs.flatMap Handled.ids) (hs.flatMap Handled.answers)
  said : ∀ h ∈ hs, said h.pending h.answer h.refuses h.ids h.answers
  cancelled : r.report.cancelled = true → Cancellable I env

theorem apply_run (hk : L.Keeps I env source found said) (c : Changes) {w : ω} (hw : I w) :
    ∃ r w' done hs, (L.sync env).apply source c w = (.ok r, w') ∧ L.Applied I env said c w w' r done hs := by
  obtain ⟨done, r₁, v, hv, hc₁, hl₁, hcan₁⟩ :=
    deletions_run hk c.deleted ((Run.start c).skip c.unreadable) hw
  obtain ⟨hs, r, w', hw', hc₂, hl₂, hsaid, hcan₂⟩ := rebuilds_run hk c.pending r₁ hl₁.holds
  refine ⟨r, w', done, hs, ?_, ⟨r₁, hc₁, hc₂⟩, by simpa using hl₁.trans hl₂, hsaid, ?_⟩
  · exact (Action.bind_run_ok hv).trans (Action.bind_run_ok hw')
  · intro hr
    rcases hcan₂ hr with h₁ | h
    · rcases hcan₁ h₁ with h₀ | h
      · rw [skip_cancelled] at h₀; cases h₀
      · exact h
    · exact h

theorem ingest_refused (env : Conditions ω) (source : Source ω) {w : ω} {k : Nat} (hd : L.dimension w = some k)
    (hne : k ≠ source.dimension) :
    ∃ f, (L.sync env).ingest source w = (.error f, L.slot.set (L.slot.get w) w) := by
  rcases MemoryStore.prepare_cases source.dimension (L.slot.get w) with ⟨k', _, _, hp⟩ | ⟨h | h, _⟩
  · have hst : (L.sync env).store.prepare source.dimension w =
        (.error (.embedding (.dimensionMismatch k' source.dimension)), L.slot.set (L.slot.get w) w) := by
      show (((L.slot.get w).prepare source.dimension).1, L.slot.set ((L.slot.get w).prepare source.dimension).2 w) = _
      rw [hp]
    exact ⟨_, Action.bind_run_error (Action.within_run_error _ hst)⟩
  · unfold Ledger.dimension at hd; rw [h] at hd; cases hd
  · unfold Ledger.dimension at hd; rw [h] at hd; cases hd; exact absurd rfl hne

/-- A run of an accepted width begins with the changes of the documents that are stored. -/
theorem ingest_begun (env : Conditions ω) (write : L.Writable I) {w : ω} (hw : I w)
    (hd : L.dimension w = none ∨ L.dimension w = some source.dimension) :
    ∃ v, L.slot.set { L.slot.get w with dimension := some source.dimension } w = v ∧ I v ∧
      L.slot.get v = { L.slot.get w with dimension := some source.dimension } ∧
      L.made v = L.made w ∧ L.returned v = L.returned w ∧
      (L.sync env).ingest source w = (do
        let changes ← (source.changes ((L.slot.get w).selectDocuments .all none)).within
          "Failed to detect changes"
        (L.sync env).apply source changes : Action ω Run) v := by
  rcases MemoryStore.prepare_cases source.dimension (L.slot.get w) with ⟨k, hk', hne, _⟩ | ⟨_, hp⟩
  · unfold Ledger.dimension at hd; rw [hk'] at hd
    rcases hd with h | h <;> cases h
    exact absurd rfl hne
  generalize hv : L.slot.set { L.slot.get w with dimension := some source.dimension } w = v
  have hst : (L.sync env).store.prepare source.dimension w = (.ok (), v) := by
    show (((L.slot.get w).prepare source.dimension).1, L.slot.set ((L.slot.get w).prepare source.dimension).2 w) = _
    rw [hp, hv]
  have hget : L.slot.get v = { L.slot.get w with dimension := some source.dimension } := by
    rw [← hv, L.get_set]
  have hread : (L.sync env).store.documents .all none v =
      (.ok ((L.slot.get w).selectDocuments .all none), v) := by
    show (Except.ok ((L.slot.get v).selectDocuments .all none), v) = _
    rw [hget]; rfl
  refine ⟨v, rfl, hv ▸ write _ _ hw rfl, hget, by rw [← hv, L.made_set], by rw [← hv, L.returned_set], ?_⟩
  exact (Action.bind_run_ok (Action.within_run_ok _ hst)).trans
    (Action.bind_run_ok (Action.within_run_ok _ hread))

theorem ingest_accepted (hk : L.Keeps I env source found said) {w : ω} (hw : I w)
    (hd : L.dimension w = none ∨ L.dimension w = some source.dimension) :
    ∃ v ids, I v ∧ L.records v = L.records w ∧ L.dimension v = some source.dimension ∧
      L.made v = L.made w ++ ids ∧ L.returned v = L.returned w ∧
      ((∃ f f', found ((L.slot.get w).selectDocuments .all none) (.error f) ids ∧
          (L.sync env).ingest source w = (.error f', v)) ∨
        ∃ c, found ((L.slot.get w).selectDocuments .all none) (.ok c) ids ∧
          (L.sync env).ingest source w = (L.sync env).apply source c v) := by
  obtain ⟨w₁, _, hI₁, hget, hmade, hret, hrun⟩ := ingest_begun env hk.write hw hd
  generalize (L.slot.get w).selectDocuments .all none = stored at hrun ⊢
  obtain ⟨hI, ids, ha, hf⟩ := hk.changes stored w₁ hI₁
  have hl := ha.leads hI
  refine ⟨(source.changes stored w₁).2, ids, hI, ?_, ?_, ?_, ?_, ?_⟩
  · rw [hl.records]; unfold Ledger.records; rw [hget]; rfl
  · rw [hl.dimension]; unfold Ledger.dimension; rw [hget]
  · rw [hl.made, hmade]
  · rw [hl.returned, List.append_nil, hret]
  · rw [hrun]
    cases hc : source.changes stored w₁ with
    | mk a v =>
      rw [hc] at hf
      cases a with
      | error f => exact .inl ⟨f, _, hf, Action.bind_run_error (Action.within_run_error _ hc)⟩
      | ok c => exact .inr ⟨c, hf, Action.bind_run_ok (Action.within_run_ok _ hc)⟩

/-- Once the changes are found, a run is their application to a store that is as it was but for its width. -/
theorem ingest_found (hk : L.Keeps I env source found said) {w : ω} (hw : I w)
    (hd : L.dimension w = none ∨ L.dimension w = some source.dimension) {c : Changes} {u : ω}
    (hc : source.changes ((L.slot.get w).selectDocuments .all none)
      (L.slot.set { L.slot.get w with dimension := some source.dimension } w) = (.ok c, u)) :
    I u ∧ L.records u = L.records w ∧ (L.sync env).ingest source w = (L.sync env).apply source c u := by
  obtain ⟨v, hset, hv, hget, _, _, hrun⟩ := ingest_begun env hk.write hw hd
  rw [hset] at hc
  obtain ⟨hu, ids, ha, _⟩ := hk.changes ((L.slot.get w).selectDocuments .all none) v hv
  have hrec := (ha.leads hu).records
  rw [hc] at hu hrec
  refine ⟨hu, ?_, hrun.trans (Action.bind_run_ok (Action.within_run_ok _ hc))⟩
  rw [hrec]; unfold Ledger.records; rw [hget]; rfl

/-- A run that could not start: the records are as they were, and the width was set if there was none. -/
structure Spared (L : Ledger ω) (width : Nat) (w w' : ω) : Prop where
  records : L.records w' = L.records w
  dimension : L.dimension w' = some ((L.dimension w).getD width)
  made : L.made w <+: L.made w'
  returned : L.returned w' = L.returned w

/-- A run that was made: what it found to do, what it cleared and what it handled, with the identifiers
made for the changes. -/
structure Ingested (L : Ledger ω) (I : ω → Prop) (env : Conditions ω) (source : Source ω)
    (found : List Document → Except Fault Changes → List Uuid → Prop)
    (said : Pending → Except Fault (List Chunk) → Bool → List Uuid → List (Uuid × List Chunk) → Prop)
    (w w' : ω) (r : Run) (c : Changes) (ids : List Uuid) (done : List Document) (hs : List Handled) : Prop where
  found : ∃ stored : List Document, stored.Perm (L.records w).documents ∧ found stored (.ok c) ids
  course : ∃ r₁, Clearing c.deleted done ((Run.start c).skip c.unreadable) r₁ ∧ Course c.pending hs r₁ r
  said : ∀ h ∈ hs, said h.pending h.answer h.refuses h.ids h.answers
  cancelled : r.report.cancelled = true → Cancellable I env
  records : L.records w' = ((L.records w).deleteAll done).rebuildAll (hs.map Handled.work)
  accepted : L.dimension w = none ∨ L.dimension w = some source.dimension
  dimension : L.dimension w' = some source.dimension
  made : L.made w' = L.made w ++ (ids ++ hs.flatMap Handled.ids)
  returned : L.returned w' = L.returned w ++ hs.flatMap Handled.answers

/-- A run fails for the width or for want of changes and spares the records, or else it is made. -/
theorem ingest_run (hk : L.Keeps I env source found said) {w : ω} (hw : I w) :
    ∃ a w', (L.sync env).ingest source w = (a, w') ∧ I w' ∧
      ((∃ f, a = .error f ∧ L.Spared source.dimension w w' ∧
          ((∃ k, L.dimension w = some k ∧ k ≠ source.dimension) ∨
            ∃ stored f ids, found stored (.error f) ids)) ∨
        ∃ r c ids done hs, a = .ok r ∧ L.Ingested I env source found said w w' r c ids done hs) := by
  by_cases hd : L.dimension w = none ∨ L.dimension w = some source.dimension
  · obtain ⟨v, ids, hv, hrec, hdim, hmade, hret, ⟨f, f', hf, hrun⟩ | ⟨c, hf, hrun⟩⟩ := ingest_accepted hk hw hd
    · refine ⟨_, v, hrun, hv, .inl ⟨f', rfl, ⟨hrec, ?_, ⟨ids, hmade.symm⟩, hret⟩, .inr ⟨_, f, ids, hf⟩⟩⟩
      rcases hd with hd | hd <;> rw [hd] <;> exact hdim
    · obtain ⟨r, w', done, hs, hap, ha⟩ := apply_run hk c hv
      refine ⟨_, w', hrun.trans hap, ha.leads.holds, .inr ⟨r, c, ids, done, hs, rfl, ?_⟩⟩
      refine ⟨⟨_, MemoryStore.selectAll_perm _, hf⟩, ha.course, ha.said, ha.cancelled, ?_, hd, ?_, ?_, ?_⟩
      · rw [ha.leads.records, hrec]
      · rw [ha.leads.dimension, hdim]
      · rw [ha.leads.made, hmade, List.append_assoc]
      · rw [ha.leads.returned, hret]
  · obtain ⟨k, hk'⟩ := Option.ne_none_iff_exists'.mp fun h => hd (.inl h)
    have hne : k ≠ source.dimension := fun e => hd (.inr (by rw [hk', e]))
    obtain ⟨f, hrun⟩ := ingest_refused env source hk' hne
    have hl := leads_set (f := id) hk.write hw ⟨rfl, rfl, rfl⟩
    refine ⟨_, _, hrun, hl.holds, .inl ⟨f, rfl, ⟨hl.records, ?_, ⟨[], hl.made.symm⟩, ?_⟩, .inl ⟨k, hk', hne⟩⟩⟩
    · rw [hk', Option.getD_some, ← hk']; exact hl.dimension
    · rw [hl.returned, List.append_nil]

end Ledger

end CodeCorpus
