import CodeCorpus.Proofs.Sessions

/-!
# Where a cancelled run stops

The token may be cancelled at any moment, and is asked before each document and after each failure. Whatever it
answers, a run has handled an initial segment of its work as if nothing had ever been cancelled, and may have
given up one more document, of which nothing is left. The run that is never cancelled is the same program under
conditions that ask the token as often and take every answer for a no, so that both go through the same worlds
until one of them stops.
-/

namespace CodeCorpus

variable {ω : Type}

/-- The same conditions, except that a cancellation is never told. -/
def Conditions.undisturbed (env : Conditions ω) : Conditions ω :=
  { env with cancelled := fun w => (false, (env.cancelled w).2) }

theorem Conditions.undisturbed_run (env : Conditions ω) {w v : ω} {b : Bool}
    (h : Action.ofState env.cancelled w = (.ok b, v)) :
    Action.ofState env.undisturbed.cancelled w = (.ok false, v) := by
  have hv : (env.cancelled w).2 = v := congrArg Prod.snd h
  exact Prod.ext rfl hv

/-- Handles the first `i` documents to clear, then the first `j` to build. -/
def Sync.segment (s : Sync ω) (source : Source ω) (c : Changes) (i j : Nat) : Action ω Run := do
  let r ← s.deletions (c.deleted.take i) ((Run.start c).skip c.unreadable)
  s.rebuilds source (c.pending.take j) r

/-! ## Counting -/

namespace Run

/-- So many more documents were handled and made known, and the run was not cancelled. -/
structure Advances (r : Run) (n : Nat) (r' : Run) : Prop where
  processed : r'.report.processed = r.report.processed + n
  progress : r'.progress.length = r.progress.length + n
  total : r'.total = r.total
  cancelled : r'.report.cancelled = r.report.cancelled

theorem Advances.refl (r : Run) : r.Advances 0 r := ⟨rfl, rfl, rfl, rfl⟩

theorem Advances.trans {r r' r'' : Run} {m n k : Nat} (h : r.Advances m r') (h' : r'.Advances n r'')
    (hk : k = m + n) : r.Advances k r'' := by
  refine ⟨?_, ?_, h'.total.trans h.total, h'.cancelled.trans h.cancelled⟩
  · rw [h'.processed, h.processed, hk, Nat.add_assoc]
  · rw [h'.progress, h.progress, hk, Nat.add_assoc]

theorem advances_notify {r r' : Run} (path : String) (hp : r'.report.processed = r.report.processed + 1)
    (ht : r'.total = r.total) (hc : r'.report.cancelled = r.report.cancelled) (hn : r'.progress = r.progress) :
    r.Advances 1 (r'.notify path) := by
  refine ⟨hp, ?_, ht, hc⟩
  rw [notify, List.length_append, hn]
  rfl

theorem advances_removed (r : Run) (path : String) : r.Advances 1 (r.removed.notify path) :=
  advances_notify path rfl rfl rfl rfl

theorem advances_fail (r : Run) (path reason : String) : r.Advances 1 ((r.fail path reason).notify path) := by
  refine advances_notify path ?_ rfl rfl rfl
  show r.report.succeeded + (r.report.failed + 1) + r.report.deleted =
    r.report.succeeded + r.report.failed + r.report.deleted + 1
  omega

theorem advances_rebuilt (r : Run) (n : Nat) (path : String) : r.Advances 1 ((r.rebuilt n).notify path) := by
  refine advances_notify path ?_ rfl rfl rfl
  show r.report.succeeded + 1 + r.report.failed + r.report.deleted =
    r.report.succeeded + r.report.failed + r.report.deleted + 1
  omega

theorem advances_skip (us : List (String × String)) (r : Run) : r.Advances us.length (r.skip us) := by
  induction us generalizing r with
  | nil => exact .refl r
  | cons u us ih =>
    have hlen : (u :: us).length = 1 + us.length := by
      rw [List.length_cons]
      omega
    exact (advances_fail r u.1 _).trans (ih _) hlen

end Run

/-! ## A document given up -/

/-- The records `y` are `x` without the documents at the path of `d`, without `d`, and without their chunks. -/
structure Records.Cleared (x : Records) (d : Document) (y : Records) : Prop where
  rest : y = x.without ((Changes.holders x.documents d.path).map Document.id ++ [d.id])
  documents : ∀ e ∈ y.documents, e.path ≠ d.path ∧ e.id ≠ d.id
  chunks : ∀ k ∈ y.chunks, k.owner ≠ d.id ∧ ∀ e ∈ x.documents, e.path = d.path → k.owner ≠ e.id

theorem Records.cleared_rolledBack (x : Records) (d : Document) :
    x.Cleared d (((x.withoutPath d.path).put d).without [d.id]) := by
  have heq : ((x.withoutPath d.path).put d).without [d.id] =
      x.without ((Changes.holders x.documents d.path).map Document.id ++ [d.id]) := by
    rw [without_put]
    exact without_without _ _ x
  rw [heq]
  have hold : ∀ e ∈ x.documents, e.path = d.path →
      e.id ∈ (Changes.holders x.documents d.path).map Document.id ++ [d.id] := by
    intro e he hpath
    exact List.mem_append_left _ (List.mem_map_of_mem (mem_holders.mpr ⟨he, hpath⟩))
  have hnew : d.id ∈ (Changes.holders x.documents d.path).map Document.id ++ [d.id] := by simp
  refine ⟨rfl, fun e he => ⟨fun hpath => ?_, fun hid => ?_⟩, fun k hk => ⟨fun ho => ?_, fun e he hpath ho => ?_⟩⟩
  · exact not_mem_without.1 e he (hold e (List.mem_filter.mp he).1 hpath)
  · exact not_mem_without.1 e he (hid ▸ hnew)
  · exact not_mem_without.2 k hk (ho ▸ hnew)
  · exact not_mem_without.2 k hk (ho ▸ hold e he hpath)

namespace Ledger

variable {L : Ledger ω} {I : ω → Prop} {env : Conditions ω} {source : Source ω}
  {found : List Document → Except Fault Changes → List Uuid → Prop}
  {said : Pending → Except Fault (List Chunk) → Bool → List Uuid → List (Uuid × List Chunk) → Prop}

structure GivenUp (L : Ledger ω) (d : Document) (x y : ω) : Prop where
  records : (L.records x).Cleared d (L.records y)
  dimension : L.dimension y = L.dimension x

/-! ## The two loops -/

/-- Where a loop over documents stops: it goes as far as the loop that nothing cancels, and is through then, or is
cancelled there and has at most given up one more document. -/
def Stops {α : Type} (L : Ledger ω) (I : ω → Prop) (loop free : List α → Run → Action ω Run)
    (givesUp : α → ω → ω → Prop) (xs : List α) (r : Run) (w : ω) : Prop :=
  ∃ n r' u, n ≤ xs.length ∧ I u ∧ r.Advances n r' ∧ free (xs.take n) r w = (.ok r', u) ∧
    ((n = xs.length ∧ loop xs r w = (.ok r', u)) ∨
      (n < xs.length ∧ ∃ v, loop xs r w = (.ok r'.cancel, v) ∧
        (L.Aside u v [] [] ∨ ∃ x, xs[n]? = some x ∧ givesUp x u v)))

section
variable {α : Type} {loop free : List α → Run → Action ω Run} {givesUp : α → ω → ω → Prop}
  {x : α} {xs : List α} {r r₁ : Run} {w v : ω}

theorem Stops.through (hw : I w) (hfree : free [] r w = (.ok r, w)) (hloop : loop [] r w = (.ok r, w)) :
    L.Stops I loop free givesUp [] r w :=
  ⟨0, r, w, Nat.le_refl _, hw, .refl r, hfree, .inl ⟨rfl, hloop⟩⟩

theorem Stops.atOnce (hw : I w) (hfree : free [] r w = (.ok r, w)) (hloop : loop (x :: xs) r w = (.ok r.cancel, v))
    (hleft : L.Aside w v [] [] ∨ givesUp x w v) : L.Stops I loop free givesUp (x :: xs) r w := by
  refine ⟨0, r, w, Nat.zero_le _, hw, .refl r, hfree, .inr ⟨Nat.succ_pos _, v, hloop, ?_⟩⟩
  rcases hleft with ha | hg
  · exact .inl ha
  · exact .inr ⟨x, rfl, hg⟩

/-- Both loops handle the first document alike, so that it is left to see where they stop after it. -/
theorem Stops.after (hadv : r.Advances 1 r₁) (hfree : ∀ ys, free (x :: ys) r w = free ys r₁ v)
    (hloop : loop (x :: xs) r w = loop xs r₁ v) (h : L.Stops I loop free givesUp xs r₁ v) :
    L.Stops I loop free givesUp (x :: xs) r w := by
  obtain ⟨n, r', u, hle, hu, hadv', hseg, hend⟩ := h
  refine ⟨n + 1, r', u, Nat.succ_le_succ hle, hu, hadv.trans hadv' (Nat.add_comm n 1), ?_, ?_⟩
  · rw [List.take_succ_cons, hfree]
    exact hseg
  · rw [hloop, List.length_cons]
    rcases hend with ⟨rfl, hend⟩ | ⟨hlt, hend⟩
    · exact .inl ⟨rfl, hend⟩
    · exact .inr ⟨Nat.succ_lt_succ hlt, hend⟩

end

theorem asked_aside (hk : L.Keeps I env source found said) {w : ω} (hw : I w) :
    ∃ b v, Action.ofState env.cancelled w = (.ok b, v) ∧ I v ∧ L.Aside w v [] [] :=
  ⟨_, _, rfl, hk.asked w hw⟩

theorem deletions_stop (hk : L.Keeps I env source found said) (ds : List Document) (r : Run) {w : ω} (hw : I w) :
    L.Stops I (L.sync env).deletions (L.sync env.undisturbed).deletions (fun _ _ _ => False) ds r w := by
  induction ds generalizing r w with
  | nil => exact .through hw rfl rfl
  | cons d ds ih =>
    obtain ⟨b, v, hv, hI, ha⟩ := asked_aside hk hw
    cases b with
    | true => exact .atOnce hw rfl (Action.bind_run_ok hv) (.inl ha)
    | false =>
      have hv' := env.undisturbed_run hv
      obtain ⟨u, hu, hlu⟩ := remove_run env hk.write [d] hI
      refine .after (r.advances_removed d.path) (fun es => ?_) ?_ (ih (r.removed.notify d.path) hlu.holds)
      · exact (Action.bind_run_ok hv').trans (Action.bind_run_ok (Action.attempt_run hu))
      · exact (Action.bind_run_ok hv).trans (Action.bind_run_ok (Action.attempt_run hu))

theorem rebuilds_stop (hk : L.Keeps I env source found said) (ps : List Pending) (r : Run) {w : ω} (hw : I w)
    (hr : ¬ r.report.cancelled = true) :
    L.Stops I ((L.sync env).rebuilds source) ((L.sync env.undisturbed).rebuilds source)
      (fun p x y => L.GivenUp p.document x y) ps r w := by
  induction ps generalizing r w with
  | nil => exact .through hw rfl rfl
  | cons p ps ih =>
    obtain ⟨b, v, hv, hI, ha⟩ := asked_aside hk hw
    cases b with
    | true =>
      refine .atOnce hw rfl ?_ (.inl ha)
      rw [Sync.rebuilds, if_neg hr]
      exact Action.bind_run_ok hv
    | false =>
      have hv' := env.undisturbed_run hv
      obtain ⟨h, u, rfl, _, hu, hlu⟩ := rebuild_run hk p hI
      cases ho : h.outcome with
      | ok cs =>
        rw [ho] at hu
        refine .after (r.advances_rebuilt cs.length h.pending.document.path) (fun qs => ?_) ?_
          (ih _ hlu.holds hr)
        · exact Sync.rebuilds_cons_ok (s := L.sync env.undisturbed) hr hv' hu
        · exact Sync.rebuilds_cons_ok (s := L.sync env) hr hv hu
      | error f =>
        rw [ho] at hu
        rw [left_error ho] at hlu
        obtain ⟨x, hx, hlx⟩ := rollBack_run env hk.write h.pending.document r hlu.holds
        obtain ⟨b', y, hy, hIy, hay⟩ := asked_aside hk hlx.holds
        have hy' := env.undisturbed_run hy
        cases b' with
        | true =>
          -- the token was set before the failure could be counted
          have hall := (((ha.leads hI).trans hlu).trans hlx).trans (hay.leads hIy)
          refine .atOnce hw rfl ?_ (.inr ⟨?_, hall.dimension⟩)
          · exact Sync.rebuilds_cons_error (s := L.sync env) hr hv hu hx hy
          · rw [hall.records]
            exact Records.cleared_rolledBack _ _
        | false =>
          refine .after (r.advances_fail h.pending.document.path f.message) (fun qs => ?_) ?_ (ih _ hIy hr)
          · exact Sync.rebuilds_cons_error (s := L.sync env.undisturbed) hr hv' hu hx hy'
          · exact Sync.rebuilds_cons_error (s := L.sync env) hr hv hu hx hy

/-! ## A whole run -/

/-- Of the changes `c` found in `u`, the first `i` documents to clear and then the first `j` to build have been
handled, which leads to `x` with the counts of `r`. -/
structure Reached (L : Ledger ω) (env : Conditions ω) (source : Source ω) (c : Changes) (u : ω) (i j : Nat)
    (r : Run) (x : ω) : Prop where
  cleared : i ≤ c.deleted.length
  built : j ≤ c.pending.length
  /-- Nothing is built before everything is cleared. -/
  order : 0 < j → i = c.deleted.length
  segment : (L.sync env.undisturbed).segment source c i j u = (.ok r, x)
  processed : r.report.processed = c.unreadable.length + (i + j)
  progress : r.progress.length = r.report.processed
  total : r.total = c.workTotal + c.unreadable.length
  cancelled : r.report.cancelled = false

/-- A run with the report `r` was through at `x`, or it was cancelled there and has at most given up the next
document to build. -/
def EndsAt (L : Ledger ω) (c : Changes) (i j : Nat) (r' : Run) (x : ω) (r : Run) (w : ω) : Prop :=
  (i + j = c.workTotal ∧ r = r' ∧ w = x) ∨
    (i + j < c.workTotal ∧ r = r'.cancel ∧
      (L.Aside x w [] [] ∨
        i = c.deleted.length ∧ ∃ p, c.pending[j]? = some p ∧ L.GivenUp p.document x w))

theorem Reached.of_loops {c : Changes} {u v x : ω} {i j : Nat} {r₁ r : Run} (hi : i ≤ c.deleted.length)
    (hj : j ≤ c.pending.length) (horder : 0 < j → i = c.deleted.length)
    (hd : (L.sync env.undisturbed).deletions (c.deleted.take i) ((Run.start c).skip c.unreadable) u = (.ok r₁, v))
    (hb : (L.sync env.undisturbed).rebuilds source (c.pending.take j) r₁ v = (.ok r, x))
    (hadv₁ : ((Run.start c).skip c.unreadable).Advances i r₁) (hadv : r₁.Advances j r) :
    L.Reached env source c u i j r x := by
  have hall := ((Run.start c).advances_skip c.unreadable).trans (hadv₁.trans hadv rfl) rfl
  have hprocessed : r.report.processed = c.unreadable.length + (i + j) := by
    rw [hall.processed]
    exact Nat.zero_add _
  refine ⟨hi, hj, horder, (Action.bind_run_ok hd).trans hb, hprocessed, ?_, hall.total, hall.cancelled⟩
  rw [hall.progress, hprocessed]
  exact Nat.zero_add _

theorem apply_prefix (hk : L.Keeps I env source found said) (c : Changes) {u : ω} (hu : I u) :
    ∃ r w, (L.sync env).apply source c u = (.ok r, w) ∧
      ∃ i j r' x, L.Reached env source c u i j r' x ∧ L.EndsAt c i j r' x r w := by
  have hwork : c.deleted.length + c.pending.length = c.workTotal := Nat.add_comm _ _
  obtain ⟨i, r₁, v, hi, hv, hadv₁, hfree₁, hend₁⟩ :=
    deletions_stop hk c.deleted ((Run.start c).skip c.unreadable) hu
  have hr₁ : ¬ r₁.report.cancelled = true := by
    rw [hadv₁.cancelled, skip_cancelled]
    exact nofun
  rcases hend₁ with ⟨rfl, hloop₁⟩ | ⟨hlt, y, hloop₁, hleft⟩
  · obtain ⟨j, r, x, hj, _, hadv, hfree, hend⟩ := rebuilds_stop hk c.pending r₁ hv hr₁
    have hreached := Reached.of_loops (Nat.le_refl _) hj (fun _ => rfl) hfree₁ hfree hadv₁ hadv
    rcases hend with ⟨rfl, hloop⟩ | ⟨hlt, y, hloop, hleft⟩
    · exact ⟨r, x, (Action.bind_run_ok hloop₁).trans (Action.bind_run_ok hloop), _, _, r, x, hreached,
        .inl ⟨hwork, rfl, rfl⟩⟩
    · refine ⟨r.cancel, y, (Action.bind_run_ok hloop₁).trans (Action.bind_run_ok hloop), _, j, r, x, hreached,
        .inr ⟨by omega, rfl, ?_⟩⟩
      exact hleft.imp_right fun hp => ⟨rfl, hp⟩
  · -- the loop over the documents to build sees the flag and does nothing
    have hskip : (L.sync env).rebuilds source c.pending r₁.cancel y = (.ok r₁.cancel, y) :=
      Sync.rebuilds_of_cancelled rfl c.pending y
    have hreached : L.Reached env source c u i 0 r₁ v :=
      .of_loops hi (Nat.zero_le _) (fun h => absurd h (Nat.lt_irrefl 0)) hfree₁ rfl hadv₁ (.refl r₁)
    refine ⟨r₁.cancel, y, (Action.bind_run_ok hloop₁).trans (Action.bind_run_ok hskip), i, 0, r₁, v, hreached,
      .inr ⟨by omega, rfl, ?_⟩⟩
    rcases hleft with ha | ⟨_, _, h⟩
    · exact .inl ha
    · exact h.elim

/-- **A cancelled run leaves a clean prefix.** Whenever it is cancelled, it leaves what a run that is never
cancelled has at some document, except that everything of the next document to build may be gone, old and new.
The counts and what was made known are those of the documents before, and a run says that it was cancelled just
when it has not handled them all. -/
theorem cancelled_prefix (hk : L.Keeps I env source found said) {w : ω} (hw : I w)
    (hd : L.dimension w = none ∨ L.dimension w = some source.dimension) {c : Changes} {u : ω}
    (hc : source.changes ((L.slot.get w).selectDocuments .all none)
      (L.slot.set { L.slot.get w with dimension := some source.dimension } w) = (.ok c, u)) :
    ∃ r w', (L.sync env).ingest source w = (.ok r, w') ∧ L.records u = L.records w ∧
      r.total = c.deleted.length + c.pending.length + c.unreadable.length ∧
      (r.report.cancelled = true ↔ r.report.processed < r.total) ∧
      ∃ i j r' x, L.Reached env source c u i j r' x ∧ L.EndsAt c i j r' x r w' := by
  obtain ⟨hu, hrec, hrun⟩ := ingest_found hk hw hd hc
  obtain ⟨r, w', hap, i, j, r', x, hreached, hends⟩ := apply_prefix hk c hu
  have hwork : c.deleted.length + c.pending.length = c.workTotal := Nat.add_comm _ _
  have htotal := hreached.total
  have hprocessed := hreached.processed
  refine ⟨r, w', hrun.trans hap, hrec, ?_, ?_, i, j, r', x, hreached, hends⟩
  · rw [hwork]
    rcases hends with ⟨_, rfl, _⟩ | ⟨_, rfl, _⟩ <;> exact htotal
  · rcases hends with ⟨hall, rfl, _⟩ | ⟨hlt, rfl, _⟩
    · rw [hreached.cancelled]
      exact iff_of_false nofun (by omega)
    · have hcount : r'.cancel.report.processed < r'.cancel.total := by
        show r'.report.processed < r'.total
        omega
      exact iff_of_true rfl hcount

end Ledger

namespace Session

theorem changes_aside (stored : List Document) (s : Session) :
    ∃ ids, ledger.Aside s (scriptedSource.changes stored s).2 ids [] := by
  by_cases hu : s.corpus.unlistable = true
  · have hrun : scriptedSource.changes stored s = (.error (.listing (.walkFailed "scripted")), s) := by
      refine (Action.bind_run_ok (corpus_read s)).trans ?_
      rw [if_pos hu]
      rfl
    rw [hrun]
    exact ⟨_, aside_advance 0 s⟩
  · obtain ⟨c, hrun, _⟩ := changes_run stored (by simpa using hu)
    rw [hrun]
    exact ⟨_, aside_advance _ s⟩

theorem chunks_aside (p : Pending) (s : Session) :
    ∃ ids, ledger.Aside s (scriptedSource.chunks p s).2 ids [] := by
  by_cases hc : s.corpus.cancelling = some p.document.path
  · have hrun : scriptedSource.chunks p s = (.error (.listing .cancelled), s.cancel) := by
      refine (Action.bind_run_ok (corpus_read s)).trans ?_
      rw [if_pos hc]
      rfl
    rw [hrun]
    exact ⟨[], ⟨_, rfl⟩, (List.append_nil _).symm, rfl⟩
  · obtain ⟨a, n, hrun, _⟩ := chunks_run p hc
    rw [hrun]
    exact ⟨_, aside_advance n s⟩

/-- A scripted corpus keeps to itself in every session, also where it cancels the run. -/
theorem keeps_any :
    ledger.Keeps (fun _ => True) conditions scriptedSource (fun _ _ _ => True) (fun _ _ _ _ _ => True) := by
  refine ⟨fun _ _ _ _ => trivial, fun s _ => ⟨trivial, aside_advance 0 s⟩, ?_, ?_⟩
  · intro stored s _
    obtain ⟨ids, ha⟩ := changes_aside stored s
    exact ⟨trivial, ids, ha, trivial⟩
  · intro p s _
    obtain ⟨ids, ha⟩ := chunks_aside p s
    exact ⟨trivial, ids, [], ha, trivial⟩

/-- A session that is cancelled while the second of its three files is read, of which there is an old record. -/
def interrupted : Session :=
  { memory := {
      documents := [⟨.ofNat 1, "B.cs", "old", 0⟩]
      chunks := [⟨.ofNat 2, .ofNat 1, "", "", none, "b", 1, [], false⟩]
      dimension := some 2 }
    corpus := { files := [("A.cs", "a1\na2"), ("B.cs", "b"), ("C.cs", "c")], cancelling := some "B.cs" } }

end Session

open Session in
theorem cancelled_prefix_interrupted :
    ∃ c u r w i j r' x, (ledger.sync conditions).ingest scriptedSource interrupted = (.ok r, w) ∧
      r.report.cancelled = true ∧ r.report.processed < r.total ∧
      ledger.Reached conditions scriptedSource c u i j r' x ∧ ledger.EndsAt c i j r' x r w := by
  obtain ⟨c, hc, _⟩ := changes_run (interrupted.memory.selectDocuments .all none) (s := interrupted) rfl
  obtain ⟨r, w, hrun, _, _, hflag, i, j, r', x, hreached, hends⟩ :=
    Ledger.cancelled_prefix keeps_any (w := interrupted) trivial (.inr rfl) hc
  have hcancelled : r.report.cancelled = true := by
    have hreport : (((ledger.sync conditions).ingest scriptedSource interrupted).1.toOption.map
        fun r => r.report.cancelled) = some true := by decide +kernel
    rw [hrun] at hreport
    exact Option.some.inj hreport
  exact ⟨c, _, r, w, i, j, r', x, hrun, hcancelled, hflag.mp hcancelled, hreached, hends⟩

end CodeCorpus
