import CodeCorpus.Proofs.Course
import CodeCorpus.Proofs.Fractions

/-!
# Accounts of runs

What a run tells of itself, for every store, corpus and token. A run goes along its tasks, the files that could
not be read, then the documents to clear, then those to build, until one of them meets the cancellation
(`Trail`). Its report and what it made known are the account of the entries made on the way (`Accounted`); what
goes wrong besides, in a rollback or at the end, adds messages and no counts.
-/

namespace CodeCorpus

variable {ω : Type} {s : Sync ω} {source : Source ω}

/-! ## Actions that succeed -/

namespace Action

variable {α β : Type} {x : Action ω α} {f : α → Action ω β} {w w' : ω}

theorem of_bind_ok {b : β} (h : (x >>= f) w = (.ok b, w')) : ∃ a v, x w = (.ok a, v) ∧ f a v = (.ok b, w') := by
  cases hx : x w with
  | mk r v =>
    cases r with
    | ok a => exact ⟨a, v, rfl, (bind_run_ok hx).symm.trans h⟩
    | error e =>
      rw [bind_run_error hx] at h
      cases h

theorem of_within_ok {context : String} {a : α} (h : x.within context w = (.ok a, w')) : x w = (.ok a, w') := by
  cases hx : x w with
  | mk r v =>
    cases r with
    | ok b => exact (within_run_ok context hx).symm.trans h
    | error e =>
      rw [within_run_error context hx] at h
      cases h

theorem bind_assoc {γ : Type} (x : Action ω α) (f : α → Action ω β) (g : β → Action ω γ) :
    (x >>= f) >>= g = x >>= fun a => f a >>= g := by
  funext w
  cases hx : x w with
  | mk r v =>
    cases r with
    | error e => rw [bind_run_error (bind_run_error hx), bind_run_error hx]
    | ok a =>
      rw [bind_run_ok hx]
      cases hf : f a v with
      | mk r' u =>
        have hxf := (bind_run_ok hx).trans hf
        cases r' with
        | error e => rw [bind_run_error hxf, bind_run_error hf]
        | ok b => rw [bind_run_ok hxf, bind_run_ok hf]

end Action

/-! ## Tasks and what becomes of them -/

inductive Task where
  /-- A file that could not be read. -/
  | skip (path reason : String)
  | clear (d : Document)
  | build (p : Pending)

namespace Task

def path : Task → String
  | skip path _ => path
  | clear d => d.path
  | build p => p.document.path

def clears : Task → Bool
  | clear _ => true
  | _ => false

end Task

def Changes.tasks (c : Changes) : List Task :=
  c.unreadable.map (fun u => .skip u.1 u.2) ++ (c.deleted.map .clear ++ c.pending.map .build)

/-- What became of a task. -/
inductive Upshot where
  | failed (reason : String)
  | cleared
  | built (chunks : List Chunk)

namespace Upshot

def isFailed : Upshot → Bool
  | failed _ => true
  | _ => false

def isCleared : Upshot → Bool
  | cleared => true
  | _ => false

def isBuilt : Upshot → Bool
  | built _ => true
  | _ => false

def chunks : Upshot → List Chunk
  | built cs => cs
  | _ => []

end Upshot

/-- A task that was handled, and what became of it. -/
abbrev Entry := Task × Upshot

def failures (es : List Entry) : Nat := es.countP fun e => e.2.isFailed

namespace Sync

/-- The document was stored anew with the chunks that the corpus gave for it. -/
def Builds (s : Sync ω) (source : Source ω) (p : Pending) (cs : List Chunk) (w u : ω) : Prop :=
  ∃ n x y z, s.removeAtPath p.document.path w = (.ok n, x) ∧ s.store.putDocuments [p.document] x = (.ok (), y) ∧
    source.chunks p y = (.ok cs, z) ∧ s.store.putChunks cs z = (.ok (), u)

/-- How a task is handled from one world to another, with the questions whether the run is cancelled. -/
inductive Handles (s : Sync ω) (source : Source ω) : Task → ω → Upshot → ω → Prop where
  | skipped (path reason : String) (w : ω) :
    Handles s source (.skip path reason) w (.failed s!"unreadable file: {reason}") w
  | cleared {d : Document} {w v u : ω} (asked : s.env.cancelled w = (false, v))
    (removed : s.remove [d] v = (.ok (), u)) : Handles s source (.clear d) w .cleared u
  | kept {d : Document} {f : Fault} {w v u : ω} (asked : s.env.cancelled w = (false, v))
    (removed : s.remove [d] v = (.error f, u)) : Handles s source (.clear d) w (.failed f.message) u
  | built {p : Pending} {cs : List Chunk} {w v u : ω} (asked : s.env.cancelled w = (false, v))
    (rebuilt : s.Builds source p cs v u) : Handles s source (.build p) w (.built cs) u
  | failed {p : Pending} {f : Fault} {a : Except Fault Unit} {w v u x y : ω} (asked : s.env.cancelled w = (false, v))
    (rebuilt : s.rebuild source p v = (.error f, u)) (removed : s.remove [p.document] u = (a, x))
    (again : s.env.cancelled x = (false, y)) : Handles s source (.build p) w (.failed f.message) y

/-- How the cancellation is met at a task: before it, or when what was to be built has failed. -/
inductive Halts (s : Sync ω) (source : Source ω) : Task → ω → ω → Prop where
  | clear {d : Document} {w v : ω} (asked : s.env.cancelled w = (true, v)) : Halts s source (.clear d) w v
  | build {p : Pending} {w v : ω} (asked : s.env.cancelled w = (true, v)) : Halts s source (.build p) w v
  | abandon {p : Pending} {f : Fault} {a : Except Fault Unit} {w v u x y : ω} (asked : s.env.cancelled w = (false, v))
    (rebuilt : s.rebuild source p v = (.error f, u)) (removed : s.remove [p.document] u = (a, x))
    (again : s.env.cancelled x = (true, y)) : Halts s source (.build p) w y

/-- The entries made along tasks from one world to another, and whether the cancellation was met. -/
inductive Trail (s : Sync ω) (source : Source ω) : List Task → List Entry → ω → ω → Bool → Prop where
  | done (w : ω) : Trail s source [] [] w w false
  | halt {t : Task} {w v : ω} (ts : List Task) : s.Halts source t w v → Trail s source (t :: ts) [] w v true
  | next {t : Task} {f : Upshot} {ts : List Task} {es : List Entry} {w u z : ω} {b : Bool} :
    s.Handles source t w f u → Trail s source ts es u z b → Trail s source (t :: ts) ((t, f) :: es) w z b

namespace Trail

variable {ts ts' : List Task} {es es' : List Entry} {w u z : ω} {b : Bool}

theorem handled_prefix (h : s.Trail source ts es w u b) : es.map Prod.fst <+: ts := by
  induction h with
  | done => exact List.prefix_rfl
  | halt => exact List.nil_prefix
  | next _ _ ih => exact (List.prefix_cons_inj _).mpr ih

theorem all_of_not_halted (h : s.Trail source ts es w u b) (hb : b = false) : es.map Prod.fst = ts := by
  induction h with
  | done => rfl
  | halt => cases hb
  | next _ _ ih => rw [List.map_cons, ih hb]

theorem halted (h : s.Trail source ts es w u b) (hb : b = true) (ts' : List Task) :
    s.Trail source (ts ++ ts') es w u true := by
  induction h with
  | done => cases hb
  | halt ts hhalt => exact .halt (ts ++ ts') hhalt
  | next hhandled _ ih => exact .next hhandled (ih hb)

theorem through (h : s.Trail source ts es w u b) (hb : b = false) {c : Bool} (h' : s.Trail source ts' es' u z c) :
    s.Trail source (ts ++ ts') (es ++ es') w z c := by
  induction h with
  | done => exact h'
  | halt => cases hb
  | next hhandled _ ih => exact .next hhandled (ih hb h')

end Trail

theorem builds_of_rebuild {p : Pending} {n : Nat} {w u : ω} (h : s.rebuild source p w = (.ok n, u)) :
    ∃ cs, s.Builds source p cs w u ∧ n = cs.length := by
  obtain ⟨m, x, hremoved, h⟩ := Action.of_bind_ok h
  obtain ⟨_, y, hput, h⟩ := Action.of_bind_ok h
  obtain ⟨cs, z, hchunks, h⟩ := Action.of_bind_ok h
  obtain ⟨_, v, hstored, h⟩ := Action.of_bind_ok h
  cases h
  exact ⟨cs, ⟨m, x, y, z, hremoved, Action.of_within_ok hput, hchunks, Action.of_within_ok hstored⟩, rfl⟩

end Sync

/-! ## Counting -/

theorem failures_append (es es' : List Entry) : failures (es ++ es') = failures es + failures es' :=
  List.countP_append

/-- What is made known of entries one after another, each with the counts up to it. -/
structure Tells (total : Nat) (es : List Entry) (ps : List Progress) : Prop where
  length : ps.length = es.length
  each : ∀ k e, es[k]? = some e → ps[k]? = some (Progress.mk (k + 1) total (failures (es.take (k + 1))) e.1.path)

theorem Tells.snoc {total : Nat} {es : List Entry} {ps : List Progress} (h : Tells total es ps) (e : Entry) :
    Tells total (es ++ [e]) (ps ++ [⟨es.length + 1, total, failures (es ++ [e]), e.1.path⟩]) := by
  refine ⟨by simp [h.length], ?_⟩
  intro k e' hk
  rcases Nat.lt_trichotomy k es.length with hlt | rfl | hlt
  · rw [List.getElem?_append_left hlt] at hk
    rw [List.getElem?_append_left (by rw [h.length]; exact hlt), List.take_append_of_le_length hlt]
    exact h.each k e' hk
  · rw [List.getElem?_append_right (Nat.le_refl _), Nat.sub_self] at hk
    cases hk
    rw [← h.length, List.getElem?_append_right (Nat.le_refl _), Nat.sub_self, h.length, List.take_of_length_le (by simp)]
    rfl
  · rw [List.getElem?_eq_none (by simp; omega)] at hk
    cases hk

namespace Run

/-- The run shows the entries made so far, and nothing else but messages. -/
structure Shows (r : Run) (es : List Entry) : Prop where
  told : Tells r.total es r.progress
  succeeded : r.report.succeeded = es.countP fun e => e.2.isBuilt
  failed : r.report.failed = failures es
  deleted : r.report.deleted = es.countP fun e => e.2.isCleared
  chunks : r.report.chunksCreated = (es.map fun e => e.2.chunks.length).sum
  errors : failures es ≤ r.report.errors.length

variable {r r' r'' : Run} {es es' : List Entry}

theorem one_upshot (f : Upshot) : (if f.isBuilt then 1 else 0) + (if f.isFailed then 1 else 0) +
    (if f.isCleared then 1 else 0) = 1 := by
  cases f <;> rfl

theorem Shows.processed (h : r.Shows es) : r.report.processed = es.length := by
  have hsum : ∀ es : List Entry, (es.countP fun e => e.2.isBuilt) + failures es + (es.countP fun e => e.2.isCleared) =
      es.length := by
    intro es
    unfold failures
    induction es with
    | nil => rfl
    | cons e es ih =>
      have hone := one_upshot e.2
      simp only [List.countP_cons, List.length_cons]
      omega
  rw [Report.processed, h.succeeded, h.failed, h.deleted, hsum]

theorem Shows.note (h : r.Shows es) (line : String) : (r.note line).Shows es := by
  refine ⟨h.told, h.succeeded, h.failed, h.deleted, h.chunks, ?_⟩
  show failures es ≤ (r.report.errors ++ [line]).length
  rw [List.length_append]
  exact Nat.le_add_right_of_le h.errors

theorem Shows.cancel (h : r.Shows es) : r.cancel.Shows es :=
  ⟨h.told, h.succeeded, h.failed, h.deleted, h.chunks, h.errors⟩

/-- One more entry has been counted. -/
structure Counts (r : Run) (f : Upshot) (r' : Run) : Prop where
  total : r'.total = r.total
  progress : r'.progress = r.progress
  succeeded : r'.report.succeeded = r.report.succeeded + if f.isBuilt then 1 else 0
  failed : r'.report.failed = r.report.failed + if f.isFailed then 1 else 0
  deleted : r'.report.deleted = r.report.deleted + if f.isCleared then 1 else 0
  chunks : r'.report.chunksCreated = r.report.chunksCreated + f.chunks.length
  errors : r.report.errors.length + (if f.isFailed then 1 else 0) ≤ r'.report.errors.length

theorem counts_failed (r : Run) (path reason : String) : r.Counts (.failed reason) (r.fail path reason) := by
  refine ⟨rfl, rfl, rfl, rfl, rfl, rfl, ?_⟩
  show r.report.errors.length + 1 ≤ (r.report.errors ++ [_]).length
  simp

theorem counts_cleared (r : Run) : r.Counts .cleared r.removed := ⟨rfl, rfl, rfl, rfl, rfl, rfl, Nat.le_refl _⟩

theorem counts_built (r : Run) (cs : List Chunk) : r.Counts (.built cs) (r.rebuilt cs.length) :=
  ⟨rfl, rfl, rfl, rfl, rfl, rfl, Nat.le_refl _⟩

theorem Shows.notify (h : r.Shows es) {t : Task} {f : Upshot} (hc : r.Counts f r') :
    (r'.notify t.path).Shows (es ++ [(t, f)]) := by
  have hprocessed : r'.report.processed = es.length + 1 := by
    have hone := one_upshot f
    rw [← h.processed, Report.processed, Report.processed, hc.succeeded, hc.failed, hc.deleted]
    omega
  have hfailed : r'.report.failed = failures (es ++ [(t, f)]) := by
    rw [hc.failed, h.failed, failures_append]
    simp [failures, List.countP_cons]
  refine ⟨?_, ?_, hfailed, ?_, ?_, ?_⟩
  · show Tells r'.total _ (r'.progress ++ [⟨r'.report.processed, r'.total, r'.report.failed, t.path⟩])
    rw [hprocessed, hfailed, hc.total, hc.progress]
    exact h.told.snoc (t, f)
  · show r'.report.succeeded = _
    rw [hc.succeeded, h.succeeded]
    simp [List.countP_cons]
  · show r'.report.deleted = _
    rw [hc.deleted, h.deleted]
    simp [List.countP_cons]
  · show r'.report.chunksCreated = _
    rw [hc.chunks, h.chunks]
    simp
  · show _ ≤ r'.report.errors.length
    have herrors := hc.errors
    have hbefore := h.errors
    rw [← hfailed, hc.failed, h.failed]
    omega

/-- The entries have been made on the way from one run to the other. -/
structure Enters (r : Run) (es : List Entry) (r' : Run) : Prop where
  shows : ∀ before, r.Shows before → r'.Shows (before ++ es)
  total : r'.total = r.total
  documentsTotal : r'.report.documentsTotal = r.report.documentsTotal

theorem Enters.refl (r : Run) : r.Enters [] r := ⟨fun es h => by simpa using h, rfl, rfl⟩

theorem Enters.trans (h : r.Enters es r') (h' : r'.Enters es' r'') : r.Enters (es ++ es') r'' := by
  refine ⟨?_, h'.total.trans h.total, h'.documentsTotal.trans h.documentsTotal⟩
  intro before hb
  rw [← List.append_assoc]
  exact h'.shows _ (h.shows before hb)

theorem enters_note (r : Run) (line : String) : r.Enters [] (r.note line) :=
  ⟨fun es h => by simpa using h.note line, rfl, rfl⟩

theorem enters_cancel (r : Run) : r.Enters [] r.cancel := ⟨fun es h => by simpa using h.cancel, rfl, rfl⟩

theorem enters_notify {t : Task} {f : Upshot} (hc : r.Counts f r')
    (hd : r'.report.documentsTotal = r.report.documentsTotal) : r.Enters [(t, f)] (r'.notify t.path) :=
  ⟨fun _ h => h.notify hc, hc.total, hd⟩

end Run

/-! ## The loops -/

namespace Sync

theorem asked_run {w v : ω} {b : Bool} (h : s.env.cancelled w = (b, v)) :
    Action.ofState s.env.cancelled w = (.ok b, v) := by
  rw [Action.ofState, h]

/-- A loop leaves a trail along the tasks and counts what was handled on it. -/
def AccountsFor (s : Sync ω) (source : Source ω) (ts : List Task) (loop : Action ω Run) (r : Run) (w : ω) : Prop :=
  ∃ r' u es b, loop w = (.ok r', u) ∧ s.Trail source ts es w u b ∧ r.Enters es r' ∧ r'.report.cancelled = b

section
variable {t : Task} {ts : List Task} {f : Upshot} {loop rest : Action ω Run} {r r₁ r₂ : Run} {w u : ω}

theorem AccountsFor.halted (hrun : loop w = (.ok r₁.cancel, u)) (h : s.Halts source t w u) (hr : r.Enters [] r₁) :
    s.AccountsFor source (t :: ts) loop r w :=
  ⟨r₁.cancel, u, [], true, hrun, .halt ts h, hr.trans r₁.enters_cancel, rfl⟩

theorem AccountsFor.next (hrun : loop w = rest u) (h : s.Handles source t w f u) (hr : r.Enters [] r₁)
    (hcount : r₁.Counts f r₂) (htotal : r₂.report.documentsTotal = r₁.report.documentsTotal)
    (hrest : s.AccountsFor source ts rest (r₂.notify t.path) u) : s.AccountsFor source (t :: ts) loop r w := by
  obtain ⟨r', z, es, b, hloop, htrail, henters, hb⟩ := hrest
  exact ⟨r', z, (t, f) :: es, b, hrun.trans hloop, .next h htrail,
    (hr.trans (Run.enters_notify hcount htotal)).trans henters, hb⟩

end

theorem skip_enters (source : Source ω) (us : List (String × String)) (r : Run) (w : ω) :
    ∃ es, s.Trail source (us.map fun u => .skip u.1 u.2) es w w false ∧ r.Enters es (r.skip us) := by
  induction us generalizing r with
  | nil => exact ⟨[], .done w, .refl r⟩
  | cons u us ih =>
    obtain ⟨es, htrail, henters⟩ := ih ((r.fail u.1 s!"unreadable file: {u.2}").notify u.1)
    have hone := Run.enters_notify (t := .skip u.1 u.2) (r.counts_failed u.1 s!"unreadable file: {u.2}") rfl
    exact ⟨_ :: es, .next (.skipped u.1 u.2 w) htrail, hone.trans henters⟩

theorem deletions_accounts (ds : List Document) (r : Run) (w : ω) (hr : r.report.cancelled = false) :
    s.AccountsFor source (ds.map .clear) (s.deletions ds r) r w := by
  induction ds generalizing r w with
  | nil => exact ⟨r, w, [], false, rfl, .done w, .refl r, hr⟩
  | cons d ds ih =>
    cases hv : s.env.cancelled w with
    | mk b v =>
      cases b with
      | true => exact .halted (Action.bind_run_ok (asked_run hv)) (.clear hv) (.refl r)
      | false =>
        cases hu : s.remove [d] v with
        | mk a u =>
          have hone : s.deletions (d :: ds) r w = _ :=
            (Action.bind_run_ok (asked_run hv)).trans (Action.bind_run_ok (Action.attempt_run hu))
          cases a with
          | ok _ => exact .next hone (.cleared hv hu) (.refl r) r.counts_cleared rfl (ih _ u hr)
          | error f => exact .next hone (.kept hv hu) (.refl r) (r.counts_failed d.path _) rfl (ih _ u hr)

theorem rollBack_notes {d : Document} {a : Except Fault Unit} {w u : ω} (h : s.remove [d] w = (a, u)) (r : Run) :
    ∃ r₁, s.rollBack d r w = (.ok r₁, u) ∧ r.Enters [] r₁ ∧ r₁.report.cancelled = r.report.cancelled := by
  have hrun : s.rollBack d r w = _ := Action.bind_run_ok (Action.attempt_run h)
  cases a with
  | ok _ => exact ⟨r, hrun, .refl r, rfl⟩
  | error f => exact ⟨_, hrun, r.enters_note _, rfl⟩

theorem rebuilds_accounts (ps : List Pending) (r : Run) (w : ω) (hr : r.report.cancelled = false) :
    s.AccountsFor source (ps.map .build) (s.rebuilds source ps r) r w := by
  induction ps generalizing r w with
  | nil => exact ⟨r, w, [], false, rfl, .done w, .refl r, hr⟩
  | cons p ps ih =>
    have hflag : ¬ r.report.cancelled = true := by simp [hr]
    cases hv : s.env.cancelled w with
    | mk b v =>
      cases b with
      | true =>
        refine .halted ?_ (.build hv) (.refl r)
        rw [rebuilds, if_neg hflag]
        exact Action.bind_run_ok (asked_run hv)
      | false =>
        cases hu : s.rebuild source p v with
        | mk a u =>
          cases a with
          | ok n =>
            obtain ⟨cs, hbuilt, rfl⟩ := builds_of_rebuild hu
            exact .next (rebuilds_cons_ok hflag (asked_run hv) hu) (.built hv hbuilt) (.refl r) (r.counts_built cs) rfl
              (ih _ u hr)
          | error f =>
            cases hx : s.remove [p.document] u with
            | mk a x =>
              obtain ⟨r₁, hback, hnoted, hr₁⟩ := rollBack_notes hx r
              cases hy : s.env.cancelled x with
              | mk c y =>
                have hone : s.rebuilds source (p :: ps) r w = _ :=
                  rebuilds_cons_error hflag (asked_run hv) hu hback (asked_run hy)
                cases c with
                | true => exact .halted hone (.abandon hv hu hx hy) hnoted
                | false =>
                  exact .next hone (.failed hv hu hx hy) hnoted (r₁.counts_failed p.document.path _) rfl
                    (ih _ y (hr₁.trans hr))

/-- A loop that is left out once the cancellation has been met accounts for its tasks with the one before it. -/
theorem AccountsFor.andThen {ts ts' : List Task} {loop : Action ω Run} {rest : Run → Action ω Run} {r : Run} {w : ω}
    (h : s.AccountsFor source ts loop r w)
    (hleft : ∀ r₁ u, r₁.report.cancelled = true → rest r₁ u = (.ok r₁, u))
    (hrest : ∀ r₁ u, r₁.report.cancelled = false → s.AccountsFor source ts' (rest r₁) r₁ u) :
    s.AccountsFor source (ts ++ ts') (loop >>= rest) r w := by
  obtain ⟨r₁, u, es, b, hloop, htrail, henters, hb⟩ := h
  have hrun := Action.bind_run_ok (f := rest) hloop
  cases b with
  | true => exact ⟨r₁, u, es, true, hrun.trans (hleft r₁ u hb), htrail.halted rfl ts', henters, hb⟩
  | false =>
    obtain ⟨r', z, es', b, hloop', htrail', henters', hb'⟩ := hrest r₁ u hb
    exact ⟨r', z, es ++ es', b, hrun.trans hloop', htrail.through rfl htrail', henters.trans henters', hb'⟩

/-- What a run does before it handles anything. -/
def found (s : Sync ω) (source : Source ω) : Action ω Changes := do
  (s.store.prepare source.dimension).within "Failed to prepare vector store"
  let stored ← (s.store.documents .all none).within "Failed to load persisted documents"
  (source.changes stored).within "Failed to detect changes"

theorem ingest_eq (s : Sync ω) (source : Source ω) : s.ingest source = s.found source >>= s.apply source := by
  simp only [ingest, found, Action.bind_assoc]

theorem apply_accounts (s : Sync ω) (source : Source ω) (c : Changes) (w : ω) :
    ∃ r w' es u, s.apply source c w = (.ok r, w') ∧ s.Trail source c.tasks es w u r.report.cancelled ∧
      (s.store.flush u).2 = w' ∧ (Run.start c).Enters es r := by
  obtain ⟨es, htrail, henters⟩ := s.skip_enters source c.unreadable (Run.start c) w
  generalize hr : (Run.start c).skip c.unreadable = r at henters
  have hcancelled : r.report.cancelled = false := by
    rw [← hr, Ledger.skip_cancelled]
    rfl
  have hloops : s.AccountsFor source (c.deleted.map .clear ++ c.pending.map .build)
      (s.deletions c.deleted r >>= s.rebuilds source c.pending) r w := by
    apply (s.deletions_accounts c.deleted r w hcancelled).andThen
    · intro r₁ u hr₁
      exact rebuilds_of_cancelled hr₁ c.pending u
    · intro r₁ u hr₁
      exact s.rebuilds_accounts c.pending r₁ u hr₁
  obtain ⟨r₂, u, es', b, hrun, htrail', henters', rfl⟩ := hloops
  have happly : s.apply source c w = _ :=
    (congrFun (Action.bind_assoc _ _ _) w).symm.trans (Action.bind_run_ok (by rw [hr]; exact hrun))
  cases hflush : s.store.flush u with
  | mk a w' =>
    have hend := happly.trans (Action.bind_run_ok (Action.attempt_run hflush))
    have hall := henters.trans henters'
    cases a with
    | ok _ => exact ⟨r₂, w', es ++ es', u, hend, htrail.through rfl htrail', by rw [hflush], hall⟩
    | error f =>
      refine ⟨_, w', es ++ es', u, hend, htrail.through rfl htrail', by rw [hflush], ?_⟩
      simpa using hall.trans (r₂.enters_note _)

end Sync

/-! ## The account of a run -/

/-- The report of a run and what it made known are the account of these entries. -/
structure Accounted (c : Changes) (es : List Entry) (r : Run) : Prop where
  /-- The unreadable files come first, then what is cleared, then what is built. -/
  order : es.map Prod.fst <+: c.tasks
  total : r.total = c.deleted.length + c.pending.length + c.unreadable.length
  told : Tells r.total es r.progress
  within : ∀ p ∈ r.progress, p.processed ≤ p.total ∧ p.fractionBits ≤ Numeral.ratioBits64 1 1
  processed : r.report.processed = r.progress.length
  succeeded : r.report.succeeded = es.countP fun e => e.2.isBuilt
  failed : r.report.failed = failures es
  deleted : r.report.deleted = es.countP fun e => e.2.isCleared
  chunks : r.report.chunksCreated = (es.map fun e => e.2.chunks.length).sum
  errors : r.report.failed ≤ r.report.errors.length
  complete : r.report.cancelled = false → r.report.processed = r.total ∧
    r.report.documentsTotal = r.report.succeeded + es.countP fun e => e.2.isFailed && !e.1.clears

theorem Changes.length_tasks (c : Changes) :
    c.tasks.length = c.deleted.length + c.pending.length + c.unreadable.length := by
  simp [tasks]
  omega

theorem Changes.countP_tasks (c : Changes) :
    (c.tasks.countP fun t => !t.clears) = c.pending.length + c.unreadable.length := by
  have hskip : (c.unreadable.map fun u => Task.skip u.1 u.2).countP (fun t => !t.clears) = c.unreadable.length := by
    simp [List.countP_map, Function.comp_def, Task.clears]
  have hclear : (c.deleted.map Task.clear).countP (fun t => !t.clears) = 0 := by
    simp [Task.clears]
  have hbuild : (c.pending.map Task.build).countP (fun t => !t.clears) = c.pending.length := by
    simp [List.countP_map, Function.comp_def, Task.clears]
  rw [tasks, List.countP_append, List.countP_append, hskip, hclear, hbuild]
  omega

theorem Sync.Trail.sorted {ts : List Task} {es : List Entry} {w u : ω} {b : Bool} (h : s.Trail source ts es w u b) :
    (es.countP fun e => !e.1.clears) =
      (es.countP fun e => e.2.isBuilt) + es.countP fun e => e.2.isFailed && !e.1.clears := by
  induction h with
  | done => rfl
  | halt => rfl
  | @next t f _ _ _ _ _ _ hhandled _ ih =>
    have hone : (if !t.clears then 1 else 0) = (if f.isBuilt then 1 else 0) + if f.isFailed && !t.clears then 1 else 0 := by
      cases hhandled <;> rfl
    simp only [List.countP_cons]
    omega

theorem Run.start_shows (c : Changes) : (Run.start c).Shows [] :=
  ⟨⟨rfl, nofun⟩, rfl, rfl, rfl, rfl, Nat.le_refl _⟩

theorem Tells.within {total : Nat} {es : List Entry} {ps : List Progress} (h : Tells total es ps)
    (hle : es.length ≤ total) {p : Progress} (hp : p ∈ ps) :
    p.processed ≤ p.total ∧ p.fractionBits ≤ Numeral.ratioBits64 1 1 := by
  obtain ⟨k, hk, rfl⟩ := List.getElem_of_mem hp
  have hlt : k < es.length := h.length ▸ hk
  have heach := h.each k es[k] (List.getElem?_eq_getElem hlt)
  rw [List.getElem?_eq_getElem hk] at heach
  rw [Option.some.inj heach]
  refine ⟨hlt.trans_le hle, ?_⟩
  unfold Progress.fractionBits
  rw [if_neg (by show ¬ total = 0; omega)]
  exact Numeral.ratioBits64_le_one (hlt.trans_le hle) (by show total ≠ 0; omega)

theorem Sync.Trail.accounted {c : Changes} {es : List Entry} {r : Run} {w u : ω}
    (h : s.Trail source c.tasks es w u r.report.cancelled) (henters : (Run.start c).Enters es r) : Accounted c es r := by
  have hshows := henters.shows [] (Run.start_shows c)
  rw [List.nil_append] at hshows
  have htotal : r.total = c.deleted.length + c.pending.length + c.unreadable.length := by
    rw [henters.total]
    show c.pending.length + c.deleted.length + c.unreadable.length = _
    omega
  have hlength : es.length ≤ r.total := by
    rw [htotal, ← c.length_tasks, ← es.length_map Prod.fst]
    exact h.handled_prefix.length_le
  refine ⟨h.handled_prefix, htotal, hshows.told, fun p hp => hshows.told.within hlength hp, ?_, hshows.succeeded,
    hshows.failed, hshows.deleted, hshows.chunks, hshows.failed ▸ hshows.errors, ?_⟩
  · rw [hshows.processed, hshows.told.length]
  · intro hcancelled
    have hall := h.all_of_not_halted hcancelled
    constructor
    · rw [hshows.processed, htotal, ← c.length_tasks, ← hall, List.length_map]
    · rw [henters.documentsTotal, hshows.succeeded, ← h.sorted]
      show c.pending.length + c.unreadable.length = _
      rw [← c.countP_tasks, ← hall, List.countP_map]
      rfl

/-- **A run accounts for what it handles.** Once its changes are found it ends with a report, whatever fails and
whenever it is cancelled: each task handled was made known once, with the counts up to it, and the report counts them
all. -/
theorem run_accounted (s : Sync ω) (source : Source ω) (w : ω) :
    (∃ f v, s.found source w = (.error f, v) ∧ s.ingest source w = (.error f, v)) ∨
      ∃ c v r w' es u, s.found source w = (.ok c, v) ∧ s.ingest source w = (.ok r, w') ∧
        s.Trail source c.tasks es v u r.report.cancelled ∧ (s.store.flush u).2 = w' ∧ Accounted c es r := by
  rw [s.ingest_eq source]
  cases hfound : s.found source w with
  | mk a v =>
    cases a with
    | error f => exact .inl ⟨f, v, rfl, Action.bind_run_error hfound⟩
    | ok c =>
      obtain ⟨r, w', es, u, hrun, htrail, hflush, henters⟩ := s.apply_accounts source c v
      exact .inr ⟨c, v, r, w', es, u, rfl, (Action.bind_run_ok hfound).trans hrun, htrail, hflush,
        htrail.accounted henters⟩

end CodeCorpus
