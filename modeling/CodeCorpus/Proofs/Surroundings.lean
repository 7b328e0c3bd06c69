import CodeCorpus.Proofs.Embedding
import CodeCorpus.Proofs.History
import CodeCorpus.Sync.Directory

/-!
# Corpora of files keep the laws of a run

A run over a directory reads each listed file for its digest, and reads those that have to be built once more for
their chunks. The files may change at any moment in between: all that is known of a read is that it took place in
one of the worlds of the run. Where the surroundings of a run leave the store alone, so does a corpus of files
(`keeps_ofFiles`), and what it finds and says comes from such reads.
-/

namespace CodeCorpus

namespace Ledger

variable {ω α β γ : Type} {L : Ledger ω} {I : ω → Prop}

theorem Aside.refl (w : ω) : L.Aside w w [] [] :=
  ⟨⟨_, rfl⟩, (List.append_nil _).symm, (List.append_nil _).symm⟩

theorem Aside.trans {w w' w'' : ω} {ids ids' : List Uuid} (h : L.Aside w w' ids []) (h' : L.Aside w' w'' ids' []) :
    L.Aside w w'' (ids ++ ids') [] := by
  obtain ⟨b, hb⟩ := h.store
  obtain ⟨b', hb'⟩ := h'.store
  refine ⟨⟨b', by rw [hb', hb]⟩, ?_, ?_⟩
  · rw [h'.made, h.made, List.append_assoc]
  · rw [h'.returned, h.returned, List.append_nil]

/-! ## Actions that leave the store alone -/

/-- The action stays in the worlds of `I` and leaves the store alone. If it does not fail, `P` holds of its value
and of the identifiers made. -/
def Spends (L : Ledger ω) (I : ω → Prop) (x : Action ω α) (P : α → List Uuid → Prop) : Prop :=
  ∀ w, I w → I (x w).2 ∧ ∃ ids, L.Aside w (x w).2 ids [] ∧ ∀ a, (x w).1 = .ok a → P a ids

variable {P : α → List Uuid → Prop} {x : Action ω α}

theorem spends_ofExcept {r : Except Fault α} (h : ∀ a, r = .ok a → P a []) :
    L.Spends I (Action.ofExcept r) P := fun w hw => ⟨hw, [], .refl w, h⟩

theorem spends_pure {a : α} (h : P a []) : L.Spends I (pure a) P :=
  spends_ofExcept (r := .ok a) fun _ ha => Except.ok.inj ha ▸ h

theorem spends_fail (f : Fault) : L.Spends I (Action.fail f) P :=
  spends_ofExcept (r := .error f) fun _ ha => nomatch ha

theorem spends_ofState {f : ω → α × ω}
    (h : ∀ w, I w → I (f w).2 ∧ ∃ ids, L.Aside w (f w).2 ids [] ∧ P (f w).1 ids) :
    L.Spends I (Action.ofState f) P := by
  intro w hw
  obtain ⟨hI, ids, ha, hp⟩ := h w hw
  exact ⟨hI, ids, ha, fun _ he => Except.ok.inj he ▸ hp⟩

theorem Spends.bind {Q : α → β → List Uuid → Prop} {R : β → List Uuid → Prop} {f : α → Action ω β}
    (hx : L.Spends I x P) (hf : ∀ a, L.Spends I (f a) (Q a))
    (h : ∀ a b ids ids', P a ids → Q a b ids' → R b (ids ++ ids')) : L.Spends I (x >>= f) R := by
  intro w hw
  obtain ⟨hI, ids, ha, hp⟩ := hx w hw
  cases hr : x w with
  | mk r v =>
    rw [hr] at hI ha hp
    cases r with
    | error e =>
      rw [Action.bind_run_error hr]
      exact ⟨hI, ids, ha, fun _ he => nomatch he⟩
    | ok a =>
      rw [Action.bind_run_ok hr]
      obtain ⟨hI', ids', ha', hq⟩ := hf a v hI
      exact ⟨hI', _, ha.trans ha', fun b hb => h a b ids ids' (hp a rfl) (hq b hb)⟩

theorem Spends.combine {Q : β → List Uuid → Prop} {R : γ → List Uuid → Prop} {y : Action ω β} {f : α → β → γ}
    (hx : L.Spends I x P) (hy : L.Spends I y Q)
    (h : ∀ a b ids ids', P a ids → Q b ids' → R (f a b) (ids ++ ids')) :
    L.Spends I (do let a ← x; let b ← y; return f a b) R := by
  refine hx.bind (fun a => hy.bind (fun b => spends_pure (P := fun c ids => c = f a b ∧ ids = []) ⟨rfl, rfl⟩)
    (R := fun c ids => ∃ b, c = f a b ∧ Q b ids) ?_) ?_
  · rintro b _ ids _ hq ⟨rfl, rfl⟩
    exact ⟨b, rfl, by rwa [List.append_nil]⟩
  · rintro a _ ids ids' hp ⟨b, rfl, hq⟩
    exact h a b ids ids' hp hq

theorem Spends.andThen {Q : β → List Uuid → Prop} {y : Action ω β} (hx : L.Spends I x fun _ ids => ids = [])
    (hy : L.Spends I y Q) : L.Spends I (do let _ ← x; y) Q := by
  refine hx.bind (fun _ => hy) ?_
  rintro _ b _ ids rfl hq
  exact hq

theorem Spends.within (hx : L.Spends I x P) (context : String) : L.Spends I (x.within context) P := by
  intro w hw
  obtain ⟨hI, ids, ha, hp⟩ := hx w hw
  refine ⟨hI, ids, ha, fun a he => hp a ?_⟩
  unfold Action.within at he
  cases hr : (x w).1 with
  | ok b => rw [hr] at he; exact he
  | error e => rw [hr] at he; cases he

theorem Spends.also (hx : L.Spends I x P) {Q : α → Prop} (h : ∀ w a, (x w).1 = .ok a → Q a) :
    L.Spends I x fun a ids => P a ids ∧ Q a := by
  intro w hw
  obtain ⟨hI, ids, ha, hp⟩ := hx w hw
  exact ⟨hI, ids, ha, fun a he => ⟨hp a he, h w a he⟩⟩

/-! ## Surroundings -/

/-- What surrounds a run over files: in the worlds of `I`, which they never leave, its conditions, its files and its
provider leave the store alone. The files may change with each of them. -/
structure Surrounds (L : Ledger ω) (I : ω → Prop) (env : Conditions ω) (files : Files ω) (provider : Provider ω) :
    Prop where
  write : L.Writable I
  cancelled : ∀ w, I w → I (env.cancelled w).2 ∧ L.Aside w (env.cancelled w).2 [] []
  freshId : ∀ w, I w → I (env.freshId w).2 ∧ L.Aside w (env.freshId w).2 [(env.freshId w).1] []
  now : ∀ w, I w → I (env.now w).2 ∧ L.Aside w (env.now w).2 [] []
  list : ∀ w, I w → I (files.list w).2 ∧ L.Aside w (files.list w).2 [] []
  read : ∀ file w, I w → I (files.read file w).2 ∧ L.Aside w (files.read file w).2 [] []
  reply : ∀ timeout text w, I w →
    I (provider.reply timeout text w).2 ∧ L.Aside w (provider.reply timeout text w).2 [] []

end Ledger

/-! ## What is read -/

section
variable {ω : Type} (files : Files ω) (I : ω → Prop)

/-- In some world of `I` the file has these bytes. -/
def Files.Has (file : String) (bytes : ByteArray) : Prop := ∃ w, I w ∧ (files.read file w).1 = .ok bytes

/-- An entry of a listing, for a listed file that was read in some world of `I`. -/
structure Files.Sampled (f : SourceFile) (e : Listed) : Prop where
  path : e.path = f.path
  file : e.file = f.file
  digest : ∃ w, I w ∧ e.digest = (files.read f.file w).1.map Digest.fingerprint

/-- A listing of files, each of which was read in some world of `I`. -/
def Files.Surveyed (listing : List Listed) : Prop :=
  ∃ w fs, I w ∧ (files.list w).1 = .ok fs ∧ List.Forall₂ (files.Sampled I) fs listing

end

/-- The chunks are those of the windows of a document's text, as these bytes write it. -/
def Chunker.BuiltFrom {ω : Type} (c : Chunker ω) (d : Document) (bytes : ByteArray) (cs : List Chunk) : Prop :=
  ∃ text, Corpus.decode d.path bytes = .ok text ∧
    List.Forall₂ (fun p chunk => ∃ reply, c.Shows d.id p.1 p.2 (c.prompt ++ p.2.text) reply chunk) (c.planned text) cs

theorem Chunker.BuiltFrom.snippets {ω : Type} {c : Chunker ω} {d : Document} {bytes : ByteArray} {cs : List Chunk}
    (h : c.BuiltFrom d bytes cs) :
    ∃ text, Corpus.decode d.path bytes = .ok text ∧
      cs.map Chunk.snippet = (c.planned text).map fun p => p.2.text := by
  obtain ⟨text, htext, hall⟩ := h
  refine ⟨text, htext, ?_⟩
  generalize c.planned text = ws at hall ⊢
  induction hall with
  | nil => rfl
  | cons hs _ ih =>
    obtain ⟨reply, hs⟩ := hs
    rw [List.map_cons, List.map_cons, hs.snippet, ih]

theorem Chunker.document_shows {ω : Type} {c : Chunker ω} {env : Conditions ω} {source : String} {owner : Uuid}
    {w : ω} {cs : List Chunk} (h : (c.document env source owner w).1 = .ok cs) :
    List.Forall₂ (fun p chunk => ∃ reply, c.Shows owner p.1 p.2 (c.prompt ++ p.2.text) reply chunk)
      (c.planned source) cs := by
  obtain ⟨r, _, log, hrun, _, ht⟩ := snippets_logs c env owner (Outline.ofSource source).snippets w []
  -- A run that fails has a transcript too, but only one that does not makes a chunk of every window.
  have hr : r = .ok cs := (congrArg Prod.fst hrun).symm.trans h
  subst hr
  obtain ⟨hshows, hlength⟩ := ht.complete
  have hchunks : ((calls log).zip cs).map Prod.snd = cs := List.map_snd_zip (Nat.le_of_eq hlength.symm)
  rw [handed_turns] at hshows
  rw [← hchunks, List.forall₂_map_right_iff]
  refine hshows.imp ?_
  rintro ⟨s, v⟩ ⟨⟨text, reply⟩, chunk⟩ hs
  obtain rfl := hs.text
  exact ⟨reply, hs⟩

namespace Ledger

variable {ω : Type} {L : Ledger ω} {I : ω → Prop} {env : Conditions ω} {files : Files ω}

/-! ## The changes of a corpus of files -/

section
variable {provider : Provider ω} (h : L.Surrounds I env files provider)
include h

theorem freshIds_spends (n : Nat) : L.Spends I (env.freshIds n) fun ids made => made = ids ∧ ids.length = n := by
  induction n with
  | zero => exact spends_pure ⟨rfl, rfl⟩
  | succ n ih =>
    have hid : L.Spends I (Action.ofState env.freshId) fun id made => made = [id] :=
      spends_ofState fun w hw => ⟨(h.freshId w hw).1, _, (h.freshId w hw).2, rfl⟩
    refine hid.combine ih ?_
    rintro id ids _ _ rfl ⟨rfl, rfl⟩
    exact ⟨rfl, rfl⟩

theorem detectNow_spends (listing : List Listed) (stored : List Document) :
    L.Spends I (Changes.detectNow env listing stored)
      fun c ids => ∃ now, Changes.Compared listing now stored c ids := by
  have hnow : L.Spends I (Action.ofState env.now) fun _ made => made = [] :=
    spends_ofState fun w hw => ⟨(h.now w hw).1, _, (h.now w hw).2, rfl⟩
  refine (freshIds_spends h listing.length).combine hnow ?_
  rintro ids now _ _ ⟨rfl, hn⟩ rfl
  rw [List.append_nil]
  exact ⟨now, Changes.compared_detect hn⟩

theorem digests_spends (fs : List SourceFile) :
    L.Spends I (files.digests fs) fun listing ids => ids = [] ∧ List.Forall₂ (files.Sampled I) fs listing := by
  induction fs with
  | nil => exact spends_pure ⟨rfl, .nil⟩
  | cons f fs ih =>
    have hread : L.Spends I (Action.ofState (files.read f.file)) fun bytes ids =>
        ids = [] ∧ ∃ w, I w ∧ bytes = (files.read f.file w).1 :=
      spends_ofState fun w hw => ⟨(h.read f.file w hw).1, _, (h.read f.file w hw).2, rfl, w, hw, rfl⟩
    refine hread.combine ih ?_
    rintro bytes others _ _ ⟨rfl, w, hw, rfl⟩ ⟨rfl, hothers⟩
    exact ⟨rfl, .cons ⟨rfl, rfl, w, hw, rfl⟩ hothers⟩

theorem changes_spends (chunker : Chunker ω) (stored : List Document) :
    L.Spends I ((Source.ofFiles env files chunker).changes stored) fun c ids =>
      ∃ listing now, files.Surveyed I listing ∧ Changes.Compared listing now stored c ids := by
  have hlist : L.Spends I files.list fun fs ids => ids = [] ∧ ∃ w, I w ∧ (files.list w).1 = .ok fs :=
    fun w hw => ⟨(h.list w hw).1, [], (h.list w hw).2, fun fs hfs => ⟨rfl, w, hw, hfs⟩⟩
  refine hlist.bind (fun fs => (digests_spends h fs).bind (fun listing => detectNow_spends h listing stored)
    (R := fun c ids => ∃ listing now, List.Forall₂ (files.Sampled I) fs listing ∧
      Changes.Compared listing now stored c ids) ?_) ?_
  · rintro listing c _ ids ⟨rfl, hall⟩ ⟨now, hc⟩
    exact ⟨listing, now, hall, hc⟩
  · rintro fs c _ ids ⟨rfl, w, hw, hfs⟩ ⟨listing, now, hall, hc⟩
    exact ⟨listing, now, ⟨w, fs, hw, hfs, hall⟩, hc⟩

theorem text_spends (path file : String) :
    L.Spends I (files.text path file) fun text ids => ids = [] ∧
      ∃ bytes, files.Has I file bytes ∧ Corpus.decode path bytes = .ok text := by
  have hread : L.Spends I (Action.ofState (files.read file)) fun bytes ids =>
      ids = [] ∧ ∃ w, I w ∧ (files.read file w).1 = bytes :=
    spends_ofState fun w hw => ⟨(h.read file w hw).1, _, (h.read file w hw).2, rfl, w, hw, rfl⟩
  refine hread.bind (Q := fun bytes text ids => ids = [] ∧ ∃ b, bytes = .ok b ∧ Corpus.decode path b = .ok text)
    (fun bytes => ?_) ?_
  · cases bytes with
    | error reason => exact spends_fail _
    | ok b => exact spends_ofExcept fun text ht => ⟨rfl, b, rfl, ht⟩
  · rintro _ text _ _ ⟨rfl, w, hw, hb⟩ ⟨rfl, b, rfl, ht⟩
    exact ⟨rfl, b, ⟨w, hw, hb⟩, ht⟩

end

/-! ## The chunks of a file -/

/-- Chunks of a document, with just their identifiers made. -/
def Numbered (owner : Uuid) (cs : List Chunk) (ids : List Uuid) : Prop :=
  ids = cs.map Chunk.id ∧ ∀ k ∈ cs, k.owner = owner

section
variable {c : Chunker ω} (h : L.Surrounds I env files c.provider)
include h

theorem checkCancelled_spends : L.Spends I (Chunker.checkCancelled env) fun _ ids => ids = [] := by
  intro w hw
  obtain ⟨hI, ha⟩ := h.cancelled w hw
  unfold Chunker.checkCancelled
  cases hc : env.cancelled w with
  | mk cancelled v =>
    rw [hc] at hI ha
    cases cancelled with
    | true => exact ⟨hI, [], ha, fun _ he => nomatch he⟩
    | false => exact ⟨hI, [], ha, fun _ _ => rfl⟩

theorem embed_spends (text : String) : L.Spends I (c.provider.embed c.timeout text) fun _ ids => ids = [] := by
  intro w hw
  obtain ⟨hI, ha⟩ := h.reply c.timeout text w hw
  unfold Provider.embed
  cases hr : c.provider.reply c.timeout text w with
  | mk reply v =>
    rw [hr] at hI ha
    cases hv : reply.vector c.provider.dimension c.timeout with
    | ok vector =>
      simp only [hv]
      exact ⟨hI, [], ha, fun _ _ => rfl⟩
    | error f =>
      simp only [hv]
      exact ⟨hI, [], ha, fun _ he => nomatch he⟩

theorem window_spends (owner : Uuid) (s : Snippet) (item : Except Fault Window) :
    L.Spends I (c.window env owner s item) fun chunk ids => ids = [chunk.id] ∧ chunk.owner = owner := by
  cases item with
  | error f => exact spends_fail _
  | ok w =>
    have hid : L.Spends I (Action.ofState env.freshId) fun id ids => ids = [id] :=
      spends_ofState fun v hv => ⟨(h.freshId v hv).1, _, (h.freshId v hv).2, rfl⟩
    have hembed := (embed_spends h (c.prompt ++ w.text)).within
      (s!"Failed to embed chunk of {s.typeName}." ++ s.memberName.getD "")
    refine (checkCancelled_spends h).andThen (hembed.combine hid ?_)
    rintro vector id _ _ rfl rfl
    exact ⟨rfl, rfl⟩

theorem windows_spends (owner : Uuid) (s : Snippet) (items : List (Except Fault Window)) :
    L.Spends I (c.windows env owner s items) (Numbered owner) := by
  induction items with
  | nil => exact spends_pure ⟨rfl, by simp⟩
  | cons item items ih =>
    refine (window_spends h owner s item).combine ih ?_
    rintro chunk others _ _ ⟨rfl, ho⟩ ⟨rfl, hall⟩
    exact ⟨rfl, List.forall_mem_cons.mpr ⟨ho, hall⟩⟩

theorem snippets_spends (owner : Uuid) (ss : List Snippet) :
    L.Spends I (c.snippets env owner ss) (Numbered owner) := by
  induction ss with
  | nil => exact spends_pure ⟨rfl, by simp⟩
  | cons s ss ih =>
    have hhere := windows_spends h owner s (c.splitter.windows s.text)
    refine (checkCancelled_spends h).andThen (hhere.combine ih ?_)
    rintro here others _ _ ⟨rfl, hhere⟩ ⟨rfl, hothers⟩
    exact ⟨List.map_append.symm, fun k hk => (List.mem_append.mp hk).elim (hhere k) (hothers k)⟩

theorem fileChunks_spends (p : Pending) :
    L.Spends I (Source.fileChunks env files c p) fun cs ids => p.Owns (.ok cs) ids ∧
      ∃ bytes, files.Has I p.file bytes ∧ c.BuiltFrom p.document bytes cs := by
  have hchunks (text : String) :=
    ((snippets_spends h p.document.id (Outline.ofSource text).snippets).also
      fun _ _ hcs => Chunker.document_shows hcs).within s!"Failed to chunk {p.document.path}"
  refine (text_spends h p.document.path p.file).bind hchunks ?_
  rintro text cs _ ids ⟨rfl, bytes, hhas, htext⟩ ⟨⟨rfl, howner⟩, hshows⟩
  refine ⟨fun cs' he => ?_, bytes, hhas, text, htext, hshows⟩
  cases he
  exact ⟨List.Sublist.refl _, howner⟩

/-- A corpus of files keeps the laws of a run where its surroundings leave the store alone. -/
theorem keeps_ofFiles :
    L.Keeps I env (Source.ofFiles env files c)
      (fun stored answer ids => ∀ ch, answer = .ok ch →
        ∃ listing now, files.Surveyed I listing ∧ Changes.Compared listing now stored ch ids)
      (fun p answer _ ids _ => p.Owns answer ids ∧ ∀ cs, answer = .ok cs →
        ∃ bytes, files.Has I p.file bytes ∧ c.BuiltFrom p.document bytes cs) := by
  refine ⟨h.write, h.cancelled, fun stored w hw => changes_spends h c stored w hw, fun p w hw => ?_⟩
  obtain ⟨hI, ids, ha, hcs⟩ := fileChunks_spends h p w hw
  exact ⟨hI, ids, [], ha, fun cs he => (hcs cs he).1 cs rfl, fun cs he => (hcs cs he).2⟩

end

end Ledger

end CodeCorpus
