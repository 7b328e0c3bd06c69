import CodeCorpus.Proofs.Leftovers

/-!
# Runs over a store that falters

Any single operation of a faltering store may fail and leave the store alone. A run that stops for good
between two operations is the case where all later ones fail. A small logic of assertions, with one rule for
each way to put actions together, shows what every run keeps.
-/

namespace CodeCorpus

namespace Ledger

variable {ω α β : Type} {L : Ledger ω} {I : ω → Prop}

/-- An operation that fails and leaves the store alone, or does to the store what `f` does. -/
def Attempts (L : Ledger ω) (I : ω → Prop) (x : Action ω α) (f : MemoryStore → Except Fault α × MemoryStore) :
    Prop :=
  ∀ w, I w → I (x w).2 ∧ L.made (x w).2 = L.made w ∧
    ((∃ e, (x w).1 = .error e ∧ L.slot.get (x w).2 = L.slot.get w) ∨
      ((x w).1, L.slot.get (x w).2) = f (L.slot.get w))

/-- A store that behaves as one in memory, but for operations that fail. The chunks of documents are removed
by reading and removing them, so that either may fail. -/
structure Falters (L : Ledger ω) (I : ω → Prop) (store : Store ω) : Prop where
  prepare : ∀ n, L.Attempts I (store.prepare n) (MemoryStore.prepare n)
  documents : ∀ filter, L.Attempts I (store.documents filter none) fun m => (.ok (m.selectDocuments filter none), m)
  putDocuments : ∀ docs, L.Attempts I (store.putDocuments docs) fun m => (.ok (), m.putDocuments docs)
  removeDocuments : ∀ ids, L.Attempts I (store.removeDocuments ids) fun m =>
    (.ok (m.removeDocuments ids).1, (m.removeDocuments ids).2)
  chunks : ∀ filter, L.Attempts I (store.chunks filter none) fun m => (.ok (m.selectChunks filter none), m)
  putChunks : ∀ cs, L.Attempts I (store.putChunks cs) (MemoryStore.putChunks cs)
  removeChunks : ∀ ids, L.Attempts I (store.removeChunks ids) fun m =>
    (.ok (m.removeChunks ids).1, (m.removeChunks ids).2)
  removeChunksOf : store.removeChunksOf = Store.removeChunksByReading store.chunks store.removeChunks
  flush : L.Attempts I store.flush fun m => (.ok (), m)

section
variable (write : L.Writable I)
include write

theorem attempts_run (f : MemoryStore → Except Fault α × MemoryStore)
    (hf : ∀ m, (f m).2.refusesChunks = m.refusesChunks) : L.Attempts I (L.slot.run f) f := by
  intro w hw
  exact ⟨write _ w hw (hf _), L.made_set _ _, .inr (Prod.ext rfl (L.get_set _ _))⟩

omit write in
theorem attempts_read (f : MemoryStore → Except Fault α) : L.Attempts I (L.slot.read f) fun m => (f m, m) :=
  fun _ hw => ⟨hw, rfl, .inr rfl⟩

omit write in
theorem Attempts.unlessRefused {x : Action ω α} {f : MemoryStore → Except Fault α × MemoryStore}
    (h : L.Attempts I x f) (refused : ω → List StoreOperation) (op : StoreOperation) :
    L.Attempts I (Store.unlessRefused refused op x) f := by
  intro w hw
  unfold Store.unlessRefused
  by_cases hop : (refused w).contains op = true
  · rw [if_pos hop]
    exact ⟨hw, rfl, .inl ⟨_, rfl, rfl⟩⟩
  · rw [if_neg hop]
    exact h w hw

/-- A store in memory falters when it refuses operations, whatever in a world decides which: for a run that
stops for good it is all operations once there have been so many writes. -/
theorem falters_refusing (refused : ω → List StoreOperation) :
    L.Falters I ((MemoryStore.asStore L.slot).refusing refused) := by
  refine ⟨?_, ?_, ?_, ?_, ?_, ?_, ?_, rfl, ?_⟩
  · intro n
    refine (attempts_run write (MemoryStore.prepare n) fun m => ?_).unlessRefused refused .prepare
    rcases MemoryStore.prepare_cases n m with ⟨k, _, _, hp⟩ | ⟨_, hp⟩ <;> rw [hp]
  · intro filter
    have hread : L.Attempts I (L.slot.read fun m => .ok (m.selectDocuments filter none)) _ := attempts_read _
    have hread := hread.unlessRefused refused .documents
    cases filter with
    | atPath path => exact hread.unlessRefused refused .documentsAtPath
    | all => exact hread
    | containing part => exact hread
  · intro docs
    refine (attempts_run write (fun m => (.ok (), m.putDocuments docs)) fun m => ?_).unlessRefused refused
      .putDocuments
    unfold MemoryStore.putDocuments
    by_cases hd : docs.isEmpty = true
    · rw [if_pos hd]
    · rw [if_neg hd]; rfl
  · intro ids
    refine (attempts_run write (fun m => (.ok (m.removeDocuments ids).1, (m.removeDocuments ids).2))
      fun m => ?_).unlessRefused refused .removeDocuments
    exact (MemoryStore.removeDocuments_turns ids m).refuses
  · intro filter
    have hread : L.Attempts I (L.slot.read fun m => .ok (m.selectChunks filter none)) _ := attempts_read _
    exact hread.unlessRefused refused .chunks
  · intro cs
    refine (attempts_run write (MemoryStore.putChunks cs) fun m => ?_).unlessRefused refused .putChunks
    rcases MemoryStore.putChunks_cases cs m with ⟨hp, _⟩ | ⟨_, m', hp, ht⟩ <;> rw [hp]
    exact ht.refuses
  · intro ids
    refine (attempts_run write (fun m => (.ok (m.removeChunks ids).1, (m.removeChunks ids).2))
      fun m => ?_).unlessRefused refused .removeChunks
    rw [MemoryStore.removeChunks_eq]
  · have hflush : L.Attempts I (pure ()) fun m => (.ok (), m) := fun _ hw => ⟨hw, rfl, .inr rfl⟩
    exact hflush.unlessRefused refused .flush

end

/-! ## Assertions -/

/-- What is said of the identifiers made and of the records. -/
abbrev Assertion : Type := List Uuid → Records → Prop

/-- From `φ` an action leads to `ψ`, or to `ε` if it fails, unless it makes an identifier twice. -/
def Upholds (L : Ledger ω) (I : ω → Prop) (φ : Assertion) (x : Action ω α) (ψ : α → Assertion) (ε : Assertion) :
    Prop :=
  ∀ w, I w → I (x w).2 ∧ L.made w <+: L.made (x w).2 ∧
    ((L.made (x w).2).Nodup → φ (L.made w) (L.records w) →
      match (x w).1 with
      | .ok a => ψ a (L.made (x w).2) (L.records (x w).2)
      | .error _ => ε (L.made (x w).2) (L.records (x w).2))

/-- An action that keeps an assertion whether it fails or not. -/
abbrev Preserves (L : Ledger ω) (I : ω → Prop) (φ : Assertion) (x : Action ω α) : Prop :=
  L.Upholds I φ x (fun _ => φ) φ

variable {φ φ' ε ε' : Assertion} {x : Action ω α}

theorem Upholds.mono {ψ ψ' : α → Assertion} (h : L.Upholds I φ x ψ ε) (hφ : ∀ made y, φ' made y → φ made y)
    (hψ : ∀ a made y, ψ a made y → ψ' a made y) (hε : ∀ made y, ε made y → ε' made y) :
    L.Upholds I φ' x ψ' ε' := by
  intro w hw
  obtain ⟨hI, hpre, hpost⟩ := h w hw
  refine ⟨hI, hpre, fun hn hp => ?_⟩
  have hr := hpost hn (hφ _ _ hp)
  cases hx : (x w).1 with
  | ok a => rw [hx] at hr; exact hψ _ _ _ hr
  | error e => rw [hx] at hr; exact hε _ _ hr

theorem upholds_pure {ψ : α → Assertion} (a : α) (h : ∀ made y, φ made y → ψ a made y) :
    L.Upholds I φ (pure a) ψ ε :=
  fun _ hw => ⟨hw, List.prefix_rfl, fun _ hp => h _ _ hp⟩

theorem Upholds.bind {ψ : β → Assertion} {χ : α → Assertion} {f : α → Action ω β} (hx : L.Upholds I φ x χ ε)
    (hf : ∀ a, L.Upholds I (χ a) (f a) ψ ε) : L.Upholds I φ (x >>= f) ψ ε := by
  intro w hw
  obtain ⟨hI, hpre, hpost⟩ := hx w hw
  cases hr : x w with
  | mk r v =>
    rw [hr] at hI hpre hpost
    cases r with
    | error e =>
      rw [Action.bind_run_error hr]
      exact ⟨hI, hpre, hpost⟩
    | ok a =>
      rw [Action.bind_run_ok hr]
      obtain ⟨hI', hpre', hpost'⟩ := hf a v hI
      exact ⟨hI', hpre.trans hpre', fun hn hp => hpost' hn (hpost (hn.sublist hpre'.sublist) hp)⟩

theorem Upholds.within {ψ : α → Assertion} (h : L.Upholds I φ x ψ ε) (context : String) :
    L.Upholds I φ (x.within context) ψ ε := by
  intro w hw
  obtain ⟨hI, hpre, hpost⟩ := h w hw
  refine ⟨hI, hpre, fun hn hp => ?_⟩
  have hr := hpost hn hp
  unfold Action.within
  cases hx : (x w).1 with
  | ok a => rw [hx] at hr; exact hr
  | error e => rw [hx] at hr; exact hr

-- whether the action failed does not matter, so both outcomes have to say the same
theorem Upholds.attempt {ψ : Assertion} (h : L.Upholds I φ x (fun _ => ψ) ψ) :
    L.Upholds I φ x.attempt (fun _ => ψ) ε := by
  intro w hw
  obtain ⟨hI, hpre, hpost⟩ := h w hw
  refine ⟨hI, hpre, fun hn hp => ?_⟩
  have hr := hpost hn hp
  unfold Action.attempt
  cases hx : (x w).1 with
  | ok a => rw [hx] at hr; exact hr
  | error e => rw [hx] at hr; exact hr

theorem Attempts.upholds {f : MemoryStore → Except Fault α × MemoryStore} (h : L.Attempts I x f)
    {ψ : α → Assertion} (same : ∀ made y, φ made y → ε made y)
    (acts : ∀ m made, φ made m.records →
      match (f m).1 with
      | .ok a => ψ a made (f m).2.records
      | .error _ => ε made (f m).2.records) : L.Upholds I φ x ψ ε := by
  intro w hw
  obtain ⟨hI, hmade, hcase⟩ := h w hw
  refine ⟨hI, hmade ▸ List.prefix_rfl, fun _ hp => ?_⟩
  rw [hmade]
  rcases hcase with ⟨e, he, hget⟩ | hdone
  · rw [he]
    unfold Ledger.records
    rw [hget]
    exact same _ _ hp
  · have ha := acts _ _ hp
    rw [← hdone] at ha
    exact ha

theorem Attempts.preserves {f : MemoryStore → α} (h : L.Attempts I x fun m => (.ok (f m), m)) :
    L.Preserves I φ x := h.upholds (fun _ _ h => h) fun _ _ h => h

/-! ## What every run keeps -/

section
variable {cut : String → ByteArray → List Body} {contents : Set ByteArray} {files : List Content}
  {ps : List Pending} {p : Pending} {s : Sync ω} {source : Source ω}

def Sanity (cut : String → ByteArray → List Body) (contents : Set ByteArray) : Assertion :=
  fun made y => y.Sane cut contents made

/-- The records are sane, and some documents are still to build. -/
def Keeping (cut : String → ByteArray → List Body) (contents : Set ByteArray) (files : List Content)
    (ps : List Pending) : Assertion :=
  fun made y => y.Sane cut contents made ∧ y.Awaits cut contents files ps made

/-- One document stands without chunks as yet. -/
def Building (cut : String → ByteArray → List Body) (contents : Set ByteArray) (files : List Content)
    (p : Pending) (ps : List Pending) : Assertion :=
  fun made y => Keeping cut contents files ps made y ∧ p.Promised cut contents files ∧
    p.document ∈ y.documents ∧ y.chunksOf p.document.id = []

theorem Keeping.tail {made : List Uuid} {y : Records} (h : Keeping cut contents files (p :: ps) made y) :
    Keeping cut contents files ps made y := ⟨h.1, h.2.tail⟩

theorem upholds_removeChunksOf (hs : L.Falters I s.store) (ids : List Uuid) :
    L.Upholds I (Keeping cut contents files ps) (s.store.removeChunksOf ids)
      (fun _ made y => Keeping cut contents files ps made y ∧ ∀ c ∈ y.chunks, c.owner ∉ ids)
      (Keeping cut contents files ps) := by
  rw [hs.removeChunksOf]
  unfold Store.removeChunksByReading
  by_cases hids : ids.isEmpty = true
  · rw [if_pos hids]
    refine upholds_pure 0 fun made y h => ⟨h, fun c _ => ?_⟩
    rw [List.isEmpty_iff.mp hids]
    exact List.not_mem_nil
  · rw [if_neg hids]
    have hread : L.Upholds I (Keeping cut contents files ps) (s.store.chunks (.ownedBy ids) none)
        (fun found made y => Keeping cut contents files ps made y ∧
          found = y.chunks.filter fun c => ids.contains c.owner) (Keeping cut contents files ps) :=
      (hs.chunks (.ownedBy ids)).upholds (fun _ _ h => h) fun m made h => ⟨h, rfl⟩
    refine hread.bind fun found => ?_
    refine (hs.removeChunks (found.map Chunk.id)).upholds (fun _ _ h => h.1) ?_
    rintro m made ⟨h, rfl⟩
    obtain ⟨hsane, hfree⟩ := h.1.withoutChunksOf ids
    show Keeping cut contents files ps made (m.removeChunks _).2.records ∧ ∀ c ∈ (m.removeChunks _).2.records.chunks, _
    rw [MemoryStore.removeChunks_eq]
    exact ⟨⟨hsane, h.2.mono (fun _ hm => hm) fun _ hd => hd⟩, hfree⟩

theorem upholds_remove (hs : L.Falters I s.store) (docs : List Document) :
    L.Preserves I (Keeping cut contents files ps) (s.remove docs) := by
  refine ((upholds_removeChunksOf hs _).within _).bind fun _ => ?_
  have hdocs : L.Upholds I (fun made y => Keeping cut contents files ps made y ∧
      ∀ c ∈ y.chunks, c.owner ∉ docs.map Document.id) (s.store.removeDocuments (docs.map Document.id))
      (fun _ => Keeping cut contents files ps) (Keeping cut contents files ps) := by
    refine (hs.removeDocuments _).upholds (fun _ _ h => h.1) ?_
    rintro m made ⟨⟨hsane, hwait⟩, hfree⟩
    have hsub : (m.records.withoutDocuments (docs.map Document.id)).documents.Sublist m.records.documents :=
      List.filter_sublist
    show Keeping cut contents files ps made (m.removeDocuments _).2.records
    rw [(MemoryStore.removeDocuments_turns _ m).records]
    exact ⟨hsane.withoutDocuments hfree, hwait.mono (fun _ hm => hm) fun _ hd => hsub.subset hd⟩
  exact (hdocs.within _).bind fun _ => upholds_pure () fun _ _ h => h

theorem upholds_removeAtPath (hs : L.Falters I s.store) (path : String) :
    L.Preserves I (Keeping cut contents files ps) (s.removeAtPath path) := by
  have hread : L.Preserves I (Keeping cut contents files ps) (s.store.documents (.atPath path) none) :=
    (hs.documents _).preserves
  refine (hread.within _).bind fun docs => ?_
  by_cases hd : docs.isEmpty = true
  · rw [if_pos hd]
    exact upholds_pure 0 fun _ _ h => h
  · rw [if_neg hd]
    exact (upholds_remove hs docs).bind fun _ => upholds_pure _ fun _ _ h => h

theorem upholds_rollBack (hs : L.Falters I s.store) (d : Document) (r : Run) :
    L.Upholds I (Keeping cut contents files ps) (s.rollBack d r) (fun _ => Keeping cut contents files ps) ε := by
  refine (upholds_remove hs [d]).attempt.bind fun a => ?_
  cases a <;> exact upholds_pure _ fun _ _ h => h

theorem upholds_putDocument (hs : L.Falters I s.store) :
    L.Upholds I (Keeping cut contents files (p :: ps)) (s.store.putDocuments [p.document])
      (fun _ => Building cut contents files p ps) (Keeping cut contents files ps) := by
  refine (hs.putDocuments _).upholds (fun _ _ h => h.tail) fun m made h => ?_
  have hp : p ∈ p :: ps := List.mem_cons_self
  have habsent := h.2.absent p hp
  have hdocs := Records.put_documents habsent
  have hpromise := h.2.promised p hp
  obtain ⟨hsane, hnone⟩ := h.1.put habsent (h.2.made p hp) (hpromise.imp fun b hb => ⟨hb.1, hb.2.1⟩)
  refine ⟨⟨hsane, h.2.tail.distinct, h.2.tail.made, ?_, h.2.tail.promised⟩, hpromise, ?_, hnone⟩
  · intro q hq d hd
    show d.id ≠ q.document.id
    rw [show (m.putDocuments [p.document]).records = m.records.put p.document from rfl, hdocs] at hd
    rcases List.mem_append.mp hd with hd | hd
    · exact h.2.tail.absent q hq d hd
    · rw [List.mem_singleton.mp hd]
      exact fun e => (List.nodup_cons.mp h.2.distinct).1 (List.mem_map.mpr ⟨q, hq, e.symm⟩)
  · show p.document ∈ (m.records.put p.document).documents
    rw [hdocs]
    exact List.mem_append_right _ (List.mem_singleton_self _)

/-- The chunks are those of the document that stands without any, with identifiers new to the records. -/
structure Fits (cut : String → ByteArray → List Body) (contents : Set ByteArray) (p : Pending) (cs : List Chunk)
    (made : List Uuid) (y : Records) : Prop where
  fresh : (y.chunks.map Chunk.id ++ cs.map Chunk.id).Nodup
  made : ∀ c ∈ cs, c.id ∈ made
  owners : ∀ c ∈ cs, c.owner = p.document.id
  cut : ∃ b ∈ contents, p.document.digest = Digest.fingerprint b ∧ cs.map Chunk.body = cut p.document.path b

theorem upholds_putChunks (hs : L.Falters I s.store) (cs : List Chunk) :
    L.Upholds I (fun made y => Building cut contents files p ps made y ∧ Fits cut contents p cs made y)
      (s.store.putChunks cs) (fun _ => Keeping cut contents files ps) (Keeping cut contents files ps) := by
  refine (hs.putChunks cs).upholds (fun _ _ h => h.1.1) ?_
  rintro m made ⟨⟨h, _, hd, hnone⟩, hfit⟩
  rcases MemoryStore.putChunks_cases cs m with ⟨hput, _⟩ | ⟨_, m', hput, ht⟩
  · rw [hput]
    exact h
  · rw [hput]
    show Keeping cut contents files ps made m'.records
    rw [ht.records]
    exact ⟨h.1.fill hd hnone hfit.fresh hfit.made hfit.owners hfit.cut, h.2.mono (fun _ hm => hm) fun _ hd => hd⟩

variable {found : List Document → Except Fault Changes → List Uuid → Prop}

theorem upholds_chunks (hk : L.Keeps I s.env source found (Cutting cut files)) :
    L.Upholds I (Building cut contents files p ps) (source.chunks p)
      (fun cs made y => Building cut contents files p ps made y ∧ Fits cut contents p cs made y)
      (Keeping cut contents files ps) := by
  intro w hw
  obtain ⟨hI, ids, answers, ha, howns, hcut⟩ := hk.chunks p w hw
  have hl := ha.leads hI
  refine ⟨hI, ⟨ids, hl.made.symm⟩, fun hn hb => ?_⟩
  rw [hl.made] at hn
  rw [hl.records, hl.made]
  obtain ⟨⟨hsane, hwait⟩, hpromise, hd, hnone⟩ := hb
  have hsub : L.made w ⊆ L.made w ++ ids := List.subset_append_left _ _
  have hsane' := hsane.mono hsub
  have hwait' := hwait.mono hsub fun _ hd => hd
  cases hc : (source.chunks p w).1 with
  | error f => exact ⟨hsane', hwait'⟩
  | ok cs =>
    obtain ⟨hids, ho⟩ := howns cs hc
    obtain ⟨b, hb, hdig, hall⟩ := hpromise
    refine ⟨⟨⟨hsane', hwait'⟩, ⟨b, hb, hdig, hall⟩, hd, hnone⟩, ?_, ?_, ho, b, hb, hdig, hall _ hcut cs hc⟩
    · obtain ⟨_, hnew, hdis⟩ := List.nodup_append.mp hn
      refine List.nodup_append.mpr ⟨hsane.sound.chunks, hnew.sublist hids, ?_⟩
      intro id hid id' hid'
      obtain ⟨c, hc, rfl⟩ := List.mem_map.mp hid
      exact hdis _ (hsane.chunks c hc) _ (hids.subset hid')
    · exact fun c hc => List.mem_append_right _ (hids.subset (List.mem_map_of_mem hc))

theorem upholds_rebuild (hs : L.Falters I s.store) (hk : L.Keeps I s.env source found (Cutting cut files)) :
    L.Upholds I (Keeping cut contents files (p :: ps)) (s.rebuild source p)
      (fun _ => Keeping cut contents files ps) (Keeping cut contents files ps) := by
  have hclear : L.Upholds I (Keeping cut contents files (p :: ps)) (s.removeAtPath p.document.path)
      (fun _ => Keeping cut contents files (p :: ps)) (Keeping cut contents files ps) :=
    (upholds_removeAtPath hs _).mono (fun _ _ h => h) (fun _ _ _ h => h) fun _ _ h => h.tail
  refine hclear.bind fun _ => ?_
  refine ((upholds_putDocument hs).within _).bind fun _ => ?_
  refine (upholds_chunks hk).bind fun cs => ?_
  exact ((upholds_putChunks hs cs).within _).bind fun _ => upholds_pure _ fun _ _ h => h

theorem upholds_asked (hk : L.Keeps I s.env source found (Cutting cut files)) :
    L.Upholds I φ (Action.ofState s.env.cancelled) (fun _ => φ) ε := by
  intro w hw
  obtain ⟨hI, ha⟩ := hk.asked w hw
  have hl := ha.leads hI
  have hmade : L.made (s.env.cancelled w).2 = L.made w := hl.made.trans (List.append_nil _)
  refine ⟨hI, hmade ▸ List.prefix_rfl, fun _ h => ?_⟩
  show φ (L.made (s.env.cancelled w).2) (L.records (s.env.cancelled w).2)
  rw [hmade, hl.records]
  exact h

theorem upholds_deletions (hs : L.Falters I s.store) (hk : L.Keeps I s.env source found (Cutting cut files)) :
    ∀ (ds : List Document) (r : Run), L.Preserves I (Keeping cut contents files ps) (s.deletions ds r)
  | [], r => upholds_pure r fun _ _ h => h
  | d :: ds, r => by
    refine (upholds_asked hk).bind fun b => ?_
    cases b with
    | true => exact upholds_pure _ fun _ _ h => h
    | false =>
      refine (upholds_remove hs [d]).attempt.bind fun a => ?_
      cases a with
      | ok _ => exact upholds_deletions hs hk ds _
      | error f => exact upholds_deletions hs hk ds _

theorem upholds_rebuilds (hs : L.Falters I s.store) (hk : L.Keeps I s.env source found (Cutting cut files)) :
    ∀ (ps : List Pending) (r : Run), L.Upholds I (Keeping cut contents files ps) (s.rebuilds source ps r)
      (fun _ => Sanity cut contents) (Sanity cut contents)
  | [], r => upholds_pure r fun _ _ h => h.1
  | p :: ps, r => by
    rw [Sync.rebuilds]
    by_cases hr : r.report.cancelled = true
    · rw [if_pos hr]
      exact upholds_pure r fun _ _ h => h.1
    rw [if_neg hr]
    refine (upholds_asked hk).bind fun b => ?_
    cases b with
    | true => exact upholds_pure _ fun _ _ h => h.1
    | false =>
      refine (upholds_rebuild hs hk).attempt.bind fun a => ?_
      cases a with
      | ok n => exact upholds_rebuilds hs hk ps _
      | error f =>
        -- the rollback may fail as well: its assertion allows for a document left without chunks
        refine (upholds_rollBack hs p.document r).bind fun r' => ?_
        refine (upholds_asked hk).bind fun b => ?_
        cases b with
        | true => exact upholds_pure _ fun _ _ h => h.1
        | false => exact upholds_rebuilds hs hk ps _

theorem upholds_apply (hs : L.Falters I s.store) (hk : L.Keeps I s.env source found (Cutting cut files))
    (c : Changes) :
    L.Upholds I (Keeping cut contents files c.pending) (s.apply source c)
      (fun _ => Sanity cut contents) (Sanity cut contents) := by
  have hdel : L.Upholds I (Keeping cut contents files c.pending)
      (s.deletions c.deleted ((Run.start c).skip c.unreadable)) (fun _ => Keeping cut contents files c.pending)
      (Sanity cut contents) :=
    (upholds_deletions hs hk _ _).mono (fun _ _ h => h) (fun _ _ _ h => h) fun _ _ h => h.1
  refine hdel.bind fun r₁ => (upholds_rebuilds hs hk c.pending r₁).bind fun r₂ => ?_
  have hflush : L.Preserves I (Sanity cut contents) s.store.flush := hs.flush.preserves
  refine hflush.attempt.bind fun a => ?_
  cases a <;> exact upholds_pure _ fun _ _ h => h

theorem upholds_changes (hb : ∀ f ∈ files, ∀ b, f.bytes = .ok b → b ∈ contents)
    (hk : L.Keeps I s.env source (Comparing files) (Cutting cut files)) (stored : List Document) :
    L.Upholds I (Sanity cut contents) (source.changes stored)
      (fun c => Keeping cut contents files c.pending) (Sanity cut contents) := by
  intro w hw
  obtain ⟨hI, ids, ha, hf⟩ := hk.changes stored w hw
  have hl := ha.leads hI
  refine ⟨hI, ⟨ids, hl.made.symm⟩, fun hn h => ?_⟩
  rw [hl.made] at hn
  rw [hl.records, hl.made]
  have h' := h.mono (List.subset_append_left (L.made w) ids)
  cases hc : (source.changes stored w).1 with
  | error f => exact h'
  | ok c =>
    obtain ⟨now, hcmp⟩ := hf c hc
    obtain ⟨_, hnew, hdis⟩ := List.nodup_append.mp hn
    have hin : ∀ p ∈ c.pending, p.document.id ∈ ids := fun p hp =>
      hcmp.ids_sublist.subset (List.mem_map.mpr ⟨p, hp, rfl⟩)
    refine ⟨h', hnew.sublist hcmp.ids_sublist, fun p hp => List.mem_append_right _ (hin p hp), ?_, ?_⟩
    · exact fun p hp d hd => hdis _ (h.documents d hd) _ (hin p hp)
    · exact fun p hp => cut_of_pending cut hb hcmp hp

theorem upholds_ingest (hs : L.Falters I s.store) (hb : ∀ f ∈ files, ∀ b, f.bytes = .ok b → b ∈ contents)
    (hk : L.Keeps I s.env source (Comparing files) (Cutting cut files)) :
    L.Preserves I (Sanity cut contents) (s.ingest source) := by
  have hprepare : L.Preserves I (Sanity cut contents) (s.store.prepare source.dimension) := by
    refine (hs.prepare _).upholds (fun _ _ h => h) fun m made h => ?_
    rcases MemoryStore.prepare_cases source.dimension m with ⟨k, _, _, hp⟩ | ⟨_, hp⟩ <;> rw [hp] <;> exact h
  have hread : L.Preserves I (Sanity cut contents) (s.store.documents .all none) := (hs.documents _).preserves
  refine (hprepare.within _).bind fun _ => (hread.within _).bind fun stored => ?_
  exact ((upholds_changes hb hk stored).within _).bind fun c => upholds_apply hs hk c

end

end Ledger

end CodeCorpus
