import CodeCorpus.Client
import CodeCorpus.Proofs.Embedding
import CodeCorpus.Proofs.Windows
import CodeCorpus.Session

/-!
# What the model receives

The prompt is put before a text in two places: where the text is counted and where it is handed out. A client takes
both from one configuration, so that the count with which a window was cut is the count of what the model receives for
it. Nothing is asked of the tokenizer: the tokens of a prompt and a text need not add up to those of both together.
-/

namespace CodeCorpus

variable {ω : Type}

/-- The counter that the settings ask for over a tokenizer, which is told whether special tokens count. -/
def TokenizerSettings.counterOver (s : TokenizerSettings) (tokenize : Bool → Counter) : Counter :=
  Counter.after s.prompt (tokenize s.countsSpecial)

theorem TokenizerSettings.counter_eq {s : TokenizerSettings} {contents : Option ByteArray} {count : Counter}
    (h : s.counter contents = .ok count) : ∃ t : Tokenizer, count = s.counterOver t.counter := by
  unfold TokenizerSettings.counter Counter.ofFile at h
  cases contents with
  | none => cases h
  | some bytes =>
    simp only at h
    split at h
    · rename_i t _
      exact ⟨t, (Except.ok.inj h).symm⟩
    · cases h

/-- The model receives the text for the chunk: the prompt and the snippet. The chunk tells its count and is marked just
if that is over the budget, and then the snippet is a single line. -/
structure Config.Receives (config : Config) (tokenize : Bool → Counter) (source text : String) (chunk : Chunk) :
    Prop where
  handed : text = config.tokenizer.prompt ++ chunk.snippet
  count : tokenize config.tokenizer.countsSpecial text = .ok chunk.tokens
  exceeds : chunk.oversized = true ↔ config.chunking.budget < chunk.tokens
  line : chunk.oversized = true → '\n' ∉ chunk.snippet.toList ∧
    ∃ s ∈ (Outline.ofSource source).snippets, chunk.snippet ∈ Text.lines s.text

namespace Chunker

/-! ## Chunks and what was handed out for them -/

theorem exists_of_forall₂ {α β : Type} {R : α → β → Prop} {l : List α} {l' : List β} (h : List.Forall₂ R l l') {b : β}
    (hb : b ∈ l') : ∃ a ∈ l, R a b := by
  induction h with
  | nil => cases hb
  | cons hab _ ih =>
    rcases List.mem_cons.mp hb with rfl | hb
    · exact ⟨_, List.mem_cons_self, hab⟩
    · obtain ⟨a, ha, hab⟩ := ih hb
      exact ⟨a, List.mem_cons_of_mem _ ha, hab⟩

theorem mem_handed_turns {c : Chunker ω} {ss : List Snippet} {s : Snippet} {w : Window} :
    (s, w) ∈ handed (c.turns ss) ↔ s ∈ ss ∧ .ok w ∈ c.splitter.windows s.text := by
  rw [handed_turns, List.mem_flatMap]
  constructor
  · intro ⟨s', hs, hw⟩
    obtain ⟨item, hitem, hpair⟩ := List.mem_filterMap.mp hw
    cases item with
    | error e => cases hpair
    | ok v =>
      cases hpair
      exact ⟨hs, hitem⟩
  · intro ⟨hs, hw⟩
    exact ⟨s, hs, List.mem_filterMap.mpr ⟨.ok w, hw, rfl⟩⟩

theorem Transcript.shows {c : Chunker ω} {owner : Uuid} {ts : List Turn} {log : List Event} {chunks : List Chunk}
    (h : Transcript c owner ts log (.ok chunks)) :
    List.Forall₂ (fun call chunk => ∃ p ∈ handed ts, Shows c owner p.1 p.2 call.1 call.2 chunk) (calls log) chunks := by
  obtain ⟨hshows, hlength⟩ := h.complete
  rw [List.forall₂_iff_zip]
  refine ⟨hlength, ?_⟩
  intro call chunk hmem
  exact exists_of_forall₂ hshows hmem

end Chunker

namespace Client

/-- A client over a tokenizer, where the budget is not zero. -/
def withTokenizer (config : Config) (hbudget : 0 < config.chunking.budget) (tokenize : Bool → Counter)
    (env : Conditions ω) (disk : Disk ω) (store : Store ω) (provider : Provider ω) : Client ω :=
  { config, env, disk, store
    chunker := {
      splitter := ⟨config.tokenizer.counterOver tokenize, config.chunking.budget, config.chunking.overlap, hbudget⟩
      provider
      timeout := config.embedding.timeout
      prompt := config.tokenizer.prompt } }

section
variable {config : Config} (hbudget : 0 < config.chunking.budget) (tokenize : Bool → Counter) (env : Conditions ω)
  (disk : Disk ω) (store : Store ω) (provider : Provider ω)

include hbudget

theorem make?_withTokenizer : make? config env disk store (config.tokenizer.counterOver tokenize) provider =
    .ok (withTokenizer config hbudget tokenize env disk store provider) := by
  unfold make? Chunker.make? Splitter.make?
  rw [dif_pos hbudget]
  rfl

theorem receives_of_shows {source text : String} {reply : Reply} {owner : Uuid} {chunk : Chunk} {s : Snippet}
    {w : Window} (hs : s ∈ (Outline.ofSource source).snippets)
    (hw : .ok w ∈ (withTokenizer config hbudget tokenize env disk store provider).chunker.splitter.windows s.text)
    (h : (withTokenizer config hbudget tokenize env disk store provider).chunker.Shows owner s w text reply chunk) :
    config.Receives tokenize source text chunk := by
  have htold := (Splitter.windowed _ s.text).told hw
  have hcount : tokenize config.tokenizer.countsSpecial (config.tokenizer.prompt ++ w.text) = .ok w.tokens :=
    htold.count
  have htext : text = config.tokenizer.prompt ++ w.text := h.text
  refine ⟨?_, ?_, ?_, ?_⟩
  · rw [htext, h.snippet]
  · rw [htext, hcount, h.tokens]
  · rw [h.oversized, h.tokens]
    exact htold.oversized_iff htold.count
  · rw [h.oversized, h.snippet]
    intro hover
    have hline := (htold.alone hover).1
    exact ⟨Text.newline_not_mem_lines hline, s, hs, hline⟩

/-- **What the model receives.** Whatever the tokenizer, the prompt and the source, each chunk of a document tells the
count of the very text that was handed out for it, which is the prompt and the chunk's snippet. It is within the
budget, unless the chunk is marked: then its snippet is a line that is over the budget behind the prompt. The counter
that the configuration loads is one over a tokenizer. -/
theorem received_within_budget :
    (∀ contents count, config.tokenizer.counter contents = .ok count →
      ∃ t : Tokenizer, count = config.tokenizer.counterOver t.counter) ∧
    ∃ client, make? config env disk store (config.tokenizer.counterOver tokenize) provider = .ok client ∧
      ∀ (env : Conditions ω) (source : String) (owner : Uuid) (start : ω), ∃ r next log,
        client.chunker.document env source owner start = (r, next) ∧
        client.chunker.logged.document env.logged source owner (start, []) = (r, next, log) ∧
        ∀ chunks, r = .ok chunks →
          List.Forall₂ (config.Receives tokenize source) ((calls log).map Prod.fst) chunks := by
  refine ⟨fun _ _ => TokenizerSettings.counter_eq, _, make?_withTokenizer hbudget tokenize env disk store provider, ?_⟩
  intro env' source owner start
  obtain ⟨r, next, log, hrun, hlogged, htranscript⟩ :=
    Chunker.snippets_logs (withTokenizer config hbudget tokenize env disk store provider).chunker env' owner
      (Outline.ofSource source).snippets start []
  refine ⟨r, next, log, hrun, hlogged, ?_⟩
  intro chunks hchunks
  subst hchunks
  rw [List.forall₂_map_left_iff]
  refine htranscript.shows.imp ?_
  intro call chunk ⟨⟨s, w⟩, hmem, hshows⟩
  obtain ⟨hs, hw⟩ := Chunker.mem_handed_turns.mp hmem
  exact receives_of_shows hbudget tokenize env disk store provider hs hw hshows

end

end Client

namespace Session

/-- Prompts are glued to what follows, and three tokens fit, of which two are special. -/
def glued : Config :=
  { Config.defaults ⟨"/data", "/cache", "/config"⟩ with
    tokenizer := { vocabulary := "", prompt := "query:", countsSpecial := true }
    chunking := { budget := 3, overlap := 0 } }

/-- Counts words, and two special tokens where these count. -/
def wordTokens (special : Bool) : Counter := fun s =>
  .ok (CountingUnit.words.measure s + if special then 2 else 0)

def gluedClient : Client Session :=
  Client.withTokenizer glued (by decide) wordTokens conditions disk memoryStore (provider 3)

theorem glued_chunks :
    ((gluedClient.chunker.document conditions "class A \x7b \x7d" (.ofNat 1) {}).1.toOption.map fun cs =>
      cs.map fun c => (c.snippet, c.tokens, c.oversized)) =
      some [("class A", 4, true), ("\x7b", 3, false), ("\x7d", 3, false)] := by
  decide +kernel

end Session

open Session in
/-- A prompt does not add a token of its own. Still, its line is over the budget with the special tokens. -/
theorem received_within_budget_glued : 0 < glued.chunking.budget ∧ ∃ texts chunks,
    List.Forall₂ (glued.Receives wordTokens "class A \x7b \x7d") texts chunks ∧
      (chunks.map fun c => (c.snippet, c.tokens, c.oversized)) =
        [("class A", 4, true), ("\x7b", 3, false), ("\x7d", 3, false)] := by
  have hbudget : 0 < glued.chunking.budget := by decide
  obtain ⟨client, hclient, hrun⟩ :=
    (Client.received_within_budget hbudget wordTokens conditions disk memoryStore (provider 3)).2
  rw [Client.make?_withTokenizer hbudget] at hclient
  obtain rfl : gluedClient = client := Except.ok.inj hclient
  obtain ⟨r, next, log, hdocument, _, hall⟩ := hrun conditions "class A \x7b \x7d" (.ofNat 1) {}
  have hchunks := glued_chunks
  rw [hdocument] at hchunks
  cases r with
  | error f => cases hchunks
  | ok chunks => exact ⟨hbudget, _, chunks, hall chunks rfl, Option.some.inj hchunks⟩

end CodeCorpus
