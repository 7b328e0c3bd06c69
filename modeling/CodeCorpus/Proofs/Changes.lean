import CodeCorpus.Proofs.Records

/-!
# What the changes of a listing are

The documents to build are those of the listed files that are not settled, each file in its turn; the
documents to delete are those at paths that are not listed. The order of the stored documents does not
matter.
-/

namespace CodeCorpus

namespace Changes

/-- A listed file whose stored documents are left alone: it cannot be read, or one document holds its path
and has its digest. -/
def Settled (stored : List Document) (e : Listed) : Prop :=
  (∃ reason, e.digest = .error reason) ∨ ∃ d, holders stored e.path = [d] ∧ e.digest = .ok d.digest

/-! ## Verdicts -/

theorem holders_perm {stored stored' : List Document} (h : stored.Perm stored') (path : String) :
    (holders stored path).Perm (holders stored' path) := h.filter _

theorem Settled.perm {stored stored' : List Document} (h : stored.Perm stored') {e : Listed}
    (hs : Settled stored e) : Settled stored' e := by
  rcases hs with hr | ⟨d, hd, he⟩
  · exact .inl hr
  · have hp := holders_perm h e.path
    rw [hd] at hp
    exact .inr ⟨d, List.singleton_perm.mp hp |>.symm, he⟩

theorem digest_of_pending {stored : List Document} {e : Listed} {kind : ChangeKind} {digest : String}
    (h : verdict stored e = .pending kind digest) : e.digest = .ok digest := by
  unfold verdict at h
  cases he : e.digest with
  | error reason => rw [he] at h; cases h
  | ok g =>
    rw [he] at h
    dsimp only at h
    split at h
    · cases h; rfl
    · split at h
      · cases h
      · cases h; rfl
    · cases h; rfl

theorem Settled.not_pending {stored : List Document} {e : Listed} (hs : Settled stored e) (kind : ChangeKind)
    (digest : String) : verdict stored e ≠ .pending kind digest := by
  rcases hs with ⟨reason, hr⟩ | ⟨d, hd, he⟩
  · simp [verdict, hr]
  · simp [verdict, hd, he]

theorem verdict_of_not_settled {stored : List Document} {e : Listed} (h : ¬ Settled stored e) :
    ∃ kind digest, verdict stored e = .pending kind digest := by
  unfold verdict
  cases he : e.digest with
  | error reason => exact absurd (.inl ⟨reason, he⟩) h
  | ok g =>
    cases hh : holders stored e.path with
    | nil => exact ⟨_, _, rfl⟩
    | cons d ds =>
      cases ds with
      | cons d' ds => exact ⟨_, _, rfl⟩
      | nil =>
        by_cases hg : d.digest = g
        · exact absurd (.inr ⟨d, hh, by rw [he, hg]⟩) h
        · exact ⟨.modified, g, by simp [hg]⟩

/-! ## The documents to build -/

variable (stamp : Nat → Uuid) (now : Int) (stored deleted : List Document)

theorem detectFrom_deleted : ∀ (k : Nat) (listing : List Listed),
    (detectFrom stamp now stored deleted k listing).deleted = deleted
  | _, [] => rfl
  | k, e :: listing => by
    have ih := detectFrom_deleted (k + 1) listing
    rw [detectFrom, cons]
    split <;> exact ih

theorem mem_detectFrom : ∀ (k : Nat) (listing : List Listed) {p : Pending},
    p ∈ (detectFrom stamp now stored deleted k listing).pending →
    ∃ e ∈ listing, verdict stored e = .pending p.kind p.document.digest ∧ p.document.path = e.path ∧
      p.file = e.file ∧ p.document.indexedAt = now
  | _, [], _, hp => by cases hp
  | k, e :: listing, p, hp => by
    have ih := @mem_detectFrom (k + 1) listing p
    rw [detectFrom, cons] at hp
    have hrest := fun h => (ih h).imp fun e' he' => And.imp_left (List.mem_cons_of_mem e) he'
    split at hp
    · exact hrest hp
    · exact hrest hp
    · rename_i hv
      rcases List.mem_cons.mp hp with rfl | hp
      · exact ⟨e, List.mem_cons_self, hv, rfl, rfl, rfl⟩
      · exact hrest hp

theorem exists_detectFrom : ∀ (k : Nat) {listing : List Listed} {e : Listed} {kind : ChangeKind}
    {digest : String}, e ∈ listing → verdict stored e = .pending kind digest →
    ∃ p ∈ (detectFrom stamp now stored deleted k listing).pending, p.document.path = e.path
  | k, e' :: listing, e, kind, digest, he, hv => by
    rcases List.mem_cons.mp he with rfl | he
    · refine ⟨⟨⟨stamp k, e.path, digest, now⟩, kind, e.file⟩, ?_, rfl⟩
      rw [detectFrom, cons, hv]
      exact List.mem_cons_self
    · obtain ⟨p, hp, hpath⟩ := exists_detectFrom (k + 1) he hv
      refine ⟨p, ?_, hpath⟩
      rw [detectFrom, cons]
      split
      · exact hp
      · exact hp
      · exact List.mem_cons_of_mem _ hp

theorem detectFrom_paths : ∀ (k : Nat) (listing : List Listed),
    ((detectFrom stamp now stored deleted k listing).pending.map fun p => p.document.path).Sublist
      (listing.map Listed.path)
  | _, [] => List.Sublist.refl _
  | k, e :: listing => by
    have ih := detectFrom_paths (k + 1) listing
    rw [detectFrom, cons]
    split
    · exact ih.cons _
    · exact ih.cons _
    · exact ih.cons_cons _

theorem detectFrom_ids : ∀ (k : Nat) (listing : List Listed),
    ((detectFrom stamp now stored deleted k listing).pending.map fun p => p.document.id).Sublist
      ((List.range' k listing.length).map stamp)
  | _, [] => List.Sublist.refl _
  | k, e :: listing => by
    have ih := detectFrom_ids (k + 1) listing
    rw [detectFrom, cons, List.length_cons, List.range'_succ, List.map_cons]
    split
    · exact ih.cons _
    · exact ih.cons _
    · exact ih.cons_cons _

theorem mem_unreadable : ∀ (k : Nat) {listing : List Listed} {e : Listed} {reason : String}, e ∈ listing →
    e.digest = .error reason → (e.path, reason) ∈ (detectFrom stamp now stored deleted k listing).unreadable
  | k, e' :: listing, e, reason, he, h => by
    rw [detectFrom, cons]
    rcases List.mem_cons.mp he with rfl | he
    · have hv : verdict stored e = .unreadable reason := by unfold verdict; rw [h]
      rw [hv]
      exact List.mem_cons_self
    · have ih := mem_unreadable (k + 1) he h
      split
      · exact List.mem_cons_of_mem _ ih
      · exact ih
      · exact ih

/-- The changes are those of a listing, and the documents to build have their identifiers out of `ids`. -/
def Compared (listing : List Listed) (now : Int) (stored : List Document) (c : Changes) (ids : List Uuid) :
    Prop :=
  ∃ stamp, c = detect stamp now listing stored ∧ (c.pending.map fun p => p.document.id).Sublist ids

section
variable {listing : List Listed} {now : Int} {stored : List Document} {c : Changes} {ids : List Uuid}

theorem Compared.deleted_eq (hc : Compared listing now stored c ids) : c.deleted = gone listing stored := by
  obtain ⟨stamp, rfl, _⟩ := hc
  exact detectFrom_deleted _ _ _ _ _ _

theorem Compared.ids_sublist (hc : Compared listing now stored c ids) :
    (c.pending.map fun p => p.document.id).Sublist ids := hc.choose_spec.2

theorem Compared.paths_sublist (hc : Compared listing now stored c ids) :
    (c.pending.map fun p => p.document.path).Sublist (listing.map Listed.path) := by
  obtain ⟨stamp, rfl, _⟩ := hc
  exact detectFrom_paths _ _ _ _ _ _

theorem Compared.of_pending (hc : Compared listing now stored c ids) {p : Pending} (hp : p ∈ c.pending) :
    ∃ e ∈ listing, e.digest = .ok p.document.digest ∧ ¬ Settled stored e ∧ p.document.path = e.path ∧
      p.document.indexedAt = now := by
  obtain ⟨stamp, rfl, _⟩ := hc
  obtain ⟨e, he, hv, hpath, _, hnow⟩ := mem_detectFrom _ _ _ _ _ _ hp
  exact ⟨e, he, digest_of_pending hv, fun hs => hs.not_pending _ _ hv, hpath, hnow⟩

theorem Compared.entry_of_pending (hc : Compared listing now stored c ids) {p : Pending} (hp : p ∈ c.pending) :
    ∃ e ∈ listing, e.digest = .ok p.document.digest ∧ p.document.path = e.path ∧ p.file = e.file := by
  obtain ⟨stamp, rfl, _⟩ := hc
  obtain ⟨e, he, hv, hpath, hfile, _⟩ := mem_detectFrom _ _ _ _ _ _ hp
  exact ⟨e, he, digest_of_pending hv, hpath, hfile⟩

theorem Compared.exists_pending (hc : Compared listing now stored c ids) {e : Listed} (he : e ∈ listing)
    (hs : ¬ Settled stored e) : ∃ p ∈ c.pending, p.document.path = e.path := by
  obtain ⟨stamp, rfl, _⟩ := hc
  obtain ⟨kind, digest, hv⟩ := verdict_of_not_settled hs
  exact exists_detectFrom _ _ _ _ _ he hv

theorem Compared.unreadable_of_error (hc : Compared listing now stored c ids) {e : Listed} (he : e ∈ listing)
    {reason : String} (h : e.digest = .error reason) : c.unreadable ≠ [] := by
  obtain ⟨stamp, rfl, _⟩ := hc
  exact List.ne_nil_of_mem (mem_unreadable _ _ _ _ _ he h)

/-- As many identifiers as there are entries are enough for the documents to build. -/
theorem compared_detect (hids : ids.length = listing.length) :
    Compared listing now stored (detect (fun k => ids.getD k default) now listing stored) ids := by
  refine ⟨fun k => ids.getD k default, rfl, ?_⟩
  have hsub := detectFrom_ids (fun k => ids.getD k default) now stored (gone listing stored) 0 listing
  have hall : (List.range' 0 listing.length).map (fun k => ids.getD k default) = ids := by
    refine List.ext_getElem (by simp [hids]) fun k h₁ h₂ => ?_
    rw [List.getElem_map, List.getElem_range', Nat.zero_add, Nat.one_mul]
    exact (List.getElem_eq_getD default).symm
  rw [hall] at hsub
  exact hsub

end

end Changes

end CodeCorpus
