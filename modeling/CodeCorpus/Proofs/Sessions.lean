import CodeCorpus.Proofs.Effect
import CodeCorpus.Session

/-!
# Runs in sessions

The scripted corpus of a session, unless it cancels the run, keeps the laws that a run relies on: it leaves
the store alone, makes its identifiers by counting on, and gives one chunk for each line of a text.
-/

namespace CodeCorpus

namespace Ledger

variable {ω : Type} {L : Ledger ω} {I : ω → Prop} {env : Conditions ω} {source : Source ω}
  {found found' : List Document → Except Fault Changes → List Uuid → Prop}
  {said said' : Pending → Except Fault (List Chunk) → Bool → List Uuid → List (Uuid × List Chunk) → Prop}

theorem Keeps.mono (hk : L.Keeps I env source found said)
    (hf : ∀ stored a ids, found stored a ids → found' stored a ids)
    (hs : ∀ p a refuses ids answers, said p a refuses ids answers → said' p a refuses ids answers) :
    L.Keeps I env source found' said' := by
  refine ⟨hk.write, hk.asked, ?_, ?_⟩
  · intro stored w hw
    obtain ⟨hI, ids, ha, h⟩ := hk.changes stored w hw
    exact ⟨hI, ids, ha, hf _ _ _ h⟩
  · intro p w hw
    obtain ⟨hI, ids, answers, ha, h⟩ := hk.chunks p w hw
    exact ⟨hI, ids, answers, ha, hs _ _ _ _ _ h⟩

end Ledger

namespace Session

/-- What is seen of a session: the identifiers made are the first of those of its time. -/
def ledger : Ledger Session where
  slot := memorySlot
  made s := (List.range s.made).map (Uuid.atTime s.clock)
  returned _ := []
  get_set _ _ := rfl
  made_set _ _ := rfl
  returned_set _ _ := rfl

def next (n : Nat) (s : Session) : List Uuid := (List.range' s.made n).map (Uuid.atTime s.clock)

def advance (n : Nat) (s : Session) : Session := { s with made := s.made + n }

theorem freshIds_run : ∀ (n : Nat) (s : Session), conditions.freshIds n s = (.ok (s.next n), s.advance n)
  | 0, s => rfl
  | n + 1, s => by
    have ih := freshIds_run n { s with made := s.made + 1 }
    have hid : Action.ofState conditions.freshId s =
        (.ok (Uuid.atTime s.clock s.made), { s with made := s.made + 1 }) := rfl
    have hmade : advance n { s with made := s.made + 1 } = s.advance (n + 1) := by
      unfold advance; simp only [Nat.add_assoc, Nat.add_comm 1 n]
    rw [Conditions.freshIds, Action.bind_run_ok hid, Action.bind_run_ok ih, hmade]
    rfl

theorem next_length (n : Nat) (s : Session) : (s.next n).length = n := by simp [next]

theorem aside_advance (n : Nat) (s : Session) : ledger.Aside s (s.advance n) (s.next n) [] := by
  refine ⟨⟨s.memory.refusesChunks, rfl⟩, ?_, rfl⟩
  show (List.range (s.made + n)).map (Uuid.atTime s.clock) = _
  rw [List.range_add, List.map_append, ← List.range'_eq_map_range]
  rfl

theorem detectNow_run (listing : List Listed) (stored : List Document) (s : Session) :
    ∃ c, Changes.detectNow conditions listing stored s = (.ok c, s.advance listing.length) ∧
      Changes.Compared listing ((s.clock / 1000 : Nat) : Int) stored c (s.next listing.length) := by
  have hnow : Action.ofState conditions.now (s.advance listing.length) =
      (.ok (((s.clock / 1000 : Nat) : Int)), s.advance listing.length) := rfl
  refine ⟨_, ?_, Changes.compared_detect (next_length _ _)⟩
  rw [Changes.detectNow, Action.bind_run_ok (freshIds_run _ _), Action.bind_run_ok hnow]
  rfl

theorem corpus_read (s : Session) : corpusSlot.read Except.ok s = (.ok s.corpus, s) := rfl

theorem changes_run (stored : List Document) {s : Session} (hu : s.corpus.unlistable = false) :
    ∃ c, scriptedSource.changes stored s = (.ok c, s.advance s.corpus.listing.length) ∧
      Changes.Compared s.corpus.listing ((s.clock / 1000 : Nat) : Int) stored c
        (s.next s.corpus.listing.length) := by
  obtain ⟨c, hrun, hcmp⟩ := detectNow_run s.corpus.listing stored s
  refine ⟨c, (Action.bind_run_ok (corpus_read s)).trans ?_, hcmp⟩
  rw [if_neg (by simp [hu])]
  exact hrun

def lineBody (path line : String) : Body :=
  ⟨"Fake", path, none, line, (Text.words line).length, [1, 0], false⟩

def bodies (corpus : ScriptedCorpus) (path : String) : List Body :=
  (Text.lines (corpus.text path)).map (lineBody path)

/-- The sessions in which a scripted corpus stays as it is and nothing cancels. -/
structure Steady (corpus : ScriptedCorpus) (clock : Nat) (refuses : Bool) (s : Session) : Prop where
  corpus : s.corpus = corpus
  clock : s.clock = clock
  refuses : s.memory.refusesChunks = refuses
  cancelled : s.cancelled = false

/-- The answer of a scripted corpus for a document to build. -/
def Answers (corpus : ScriptedCorpus) (refuses : Bool) (p : Pending) (answer : Except Fault (List Chunk))
    (refused : Bool) (ids : List Uuid) (answers : List (Uuid × List Chunk)) : Prop :=
  refused = refuses ∧ answers = [] ∧ p.Owns answer ids ∧
    if corpus.failing.contains p.document.path then ∃ f, answer = .error f
    else ∃ cs, answer = .ok cs ∧ cs.map Chunk.body = bodies corpus p.document.path

theorem chunks_run (p : Pending) {s : Session} (hc : s.corpus.cancelling ≠ some p.document.path) :
    ∃ a n, scriptedSource.chunks p s = (a, s.advance n) ∧
      Answers s.corpus s.memory.refusesChunks p a s.memory.refusesChunks (s.next n) [] := by
  have hrun : scriptedSource.chunks p s = _ := Action.bind_run_ok (corpus_read s)
  rw [hrun, if_neg hc]
  by_cases hf : s.corpus.failing.contains p.document.path = true
  · refine ⟨.error (.text "embedding backend unavailable"), 0, ?_, rfl, rfl, ?_, ?_⟩
    · rw [if_pos hf]; rfl
    · intro cs h; cases h
    · rw [if_pos hf]; exact ⟨_, rfl⟩
  · generalize hl : Text.lines (s.corpus.text p.document.path) = lines
    have hlen : (s.next lines.length).length = lines.length := next_length _ _
    refine ⟨.ok (((s.next lines.length).zip lines).map fun e => ScriptedCorpus.chunk e.1 p e.2), lines.length,
      ?_, rfl, rfl, ?_, ?_⟩
    · rw [if_neg hf]
      exact Action.bind_run_ok (freshIds_run _ _)
    · intro cs h
      cases h
      refine ⟨?_, ?_⟩
      · have hids : ((s.next lines.length).zip lines).map Prod.fst = s.next lines.length :=
          List.map_fst_zip (Nat.le_of_eq hlen)
        rw [List.map_map]
        show (((s.next lines.length).zip lines).map Prod.fst).Sublist _
        rw [hids]
      · intro c hc
        obtain ⟨e, _, rfl⟩ := List.mem_map.mp hc
        rfl
    · rw [if_neg hf]
      have hlines : ((s.next lines.length).zip lines).map Prod.snd = lines :=
        List.map_snd_zip (Nat.le_of_eq hlen.symm)
      refine ⟨_, rfl, ?_⟩
      calc _ = (((s.next lines.length).zip lines).map Prod.snd).map (lineBody p.document.path) := by
            rw [List.map_map, List.map_map]; rfl
        _ = bodies s.corpus p.document.path := by rw [hlines]; unfold bodies; rw [hl]

/-- A scripted corpus that cancels nothing and can be listed keeps the laws of a run. -/
theorem keeps_scripted {corpus : ScriptedCorpus} (hc : corpus.cancelling = none)
    (hu : corpus.unlistable = false) (clock : Nat) (refuses : Bool) :
    ledger.Keeps (Steady corpus clock refuses) conditions scriptedSource
      (fun stored a ids => ∃ c, a = .ok c ∧
        Changes.Compared corpus.listing ((clock / 1000 : Nat) : Int) stored c ids)
      (Answers corpus refuses) := by
  have advanced : ∀ n s, Steady corpus clock refuses s → Steady corpus clock refuses (s.advance n) :=
    fun _ _ h => ⟨h.corpus, h.clock, h.refuses, h.cancelled⟩
  refine ⟨?_, ?_, ?_, ?_⟩
  · exact fun m s h hm => ⟨h.corpus, h.clock, hm.trans h.refuses, h.cancelled⟩
  · exact fun s h => ⟨h, aside_advance 0 s⟩
  · intro stored s h
    obtain ⟨c, hall, hcmp⟩ := changes_run stored (s := s) (by rw [h.corpus]; exact hu)
    rw [hall]
    refine ⟨advanced _ _ h, _, aside_advance _ _, c, rfl, ?_⟩
    rw [h.clock, h.corpus] at hcmp
    rwa [h.corpus]
  · intro p s h
    obtain ⟨a, n, hrun, hans⟩ := chunks_run p (s := s) (by rw [h.corpus, hc]; exact nofun)
    rw [hrun]
    refine ⟨advanced _ _ h, _, [], aside_advance _ _, ?_⟩
    rw [h.corpus, h.refuses] at hans
    show Answers corpus refuses p a (s.advance n).memory.refusesChunks _ _
    rwa [show (s.advance n).memory.refusesChunks = refuses from h.refuses]

end Session

end CodeCorpus
