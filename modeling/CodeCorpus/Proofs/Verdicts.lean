import CodeCorpus.Changes
import Mathlib.Data.List.Forall2

/-!
# One verdict for each listed file

What a listed file is depends on how many stored documents hold its path and on their digests, and on nothing
else (`Standing`), so the order of the stored documents does not matter. The changes are these verdicts sorted
by kind, each in the order of the listing, and the stored documents at no listed path.
-/

namespace CodeCorpus

namespace Changes

def heldTimes (stored : List Document) (path : String) : Nat := stored.countP fun d => d.path == path

/-- What a listed file is, with reasons. -/
inductive Standing (stored : List Document) (e : Listed) : Verdict → Prop where
  | unreadable {reason : String} : e.digest = .error reason → Standing stored e (.unreadable reason)
  | new {digest : String} : e.digest = .ok digest → heldTimes stored e.path = 0 →
    Standing stored e (.pending .new digest)
  | unchanged {d : Document} : e.digest = .ok d.digest → heldTimes stored e.path = 1 → d ∈ stored →
    d.path = e.path → Standing stored e .unchanged
  | altered {digest : String} {d : Document} : e.digest = .ok digest → heldTimes stored e.path = 1 → d ∈ stored →
    d.path = e.path → d.digest ≠ digest → Standing stored e (.pending .modified digest)
  | doubled {digest : String} : e.digest = .ok digest → 1 < heldTimes stored e.path →
    Standing stored e (.pending .modified digest)

/-! ## The verdict and the standing -/

theorem heldTimes_eq (stored : List Document) (path : String) :
    heldTimes stored path = (holders stored path).length := List.countP_eq_length_filter

theorem mem_holders_iff {stored : List Document} {path : String} {d : Document} :
    d ∈ holders stored path ↔ d ∈ stored ∧ d.path = path := by
  simp [holders]

theorem standing_verdict (stored : List Document) (e : Listed) : Standing stored e (verdict stored e) := by
  unfold verdict
  cases he : e.digest with
  | error reason => exact .unreadable he
  | ok digest =>
    have hlen := heldTimes_eq stored e.path
    cases hh : holders stored e.path with
    | nil =>
      rw [hh] at hlen
      exact .new he hlen
    | cons d ds =>
      have hmem : d ∈ holders stored e.path := by simp [hh]
      obtain ⟨hd, hpath⟩ := mem_holders_iff.mp hmem
      rw [hh] at hlen
      cases ds with
      | cons d' ds =>
        refine .doubled he ?_
        simp [hlen]
      | nil =>
        by_cases hg : d.digest = digest
        · subst hg
          simpa using Standing.unchanged he hlen hd hpath
        · simpa [hg] using Standing.altered he hlen hd hpath hg

theorem holders_single {stored : List Document} {path : String} {d : Document} (h : heldTimes stored path = 1)
    (hd : d ∈ stored) (hpath : d.path = path) : holders stored path = [d] := by
  rw [heldTimes_eq] at h
  obtain ⟨u, hu⟩ := List.length_eq_one_iff.mp h
  have hmem := mem_holders_iff.mpr ⟨hd, hpath⟩
  rw [hu, List.mem_singleton] at hmem
  rw [hu, hmem]

theorem Standing.verdict_eq {stored : List Document} {e : Listed} {v : Verdict} (h : Standing stored e v) :
    verdict stored e = v := by
  cases h with
  | unreadable he => simp [verdict, he]
  | new he hnone =>
    rw [heldTimes_eq, List.length_eq_zero_iff] at hnone
    simp [verdict, he, hnone]
  | unchanged he hone hd hpath => simp [verdict, he, holders_single hone hd hpath]
  | altered he hone hd hpath hne => simp [verdict, he, holders_single hone hd hpath, hne]
  | doubled he hmany =>
    rw [heldTimes_eq] at hmany
    cases hh : holders stored e.path with
    | nil => simp [hh] at hmany
    | cons d ds =>
      cases ds with
      | nil => simp [hh] at hmany
      | cons d' ds => simp [verdict, he, hh]

theorem standing_iff {stored : List Document} {e : Listed} {v : Verdict} :
    Standing stored e v ↔ v = verdict stored e := by
  constructor
  · intro h
    exact h.verdict_eq.symm
  · intro h
    rw [h]
    exact standing_verdict stored e

theorem standings_iff {stored : List Document} : ∀ {listing : List Listed} {vs : List Verdict},
    List.Forall₂ (Standing stored) listing vs ↔ vs = listing.map (verdict stored)
  | [], vs => by simp
  | e :: listing, [] => by simp
  | e :: listing, v :: vs => by
    rw [List.forall₂_cons, standing_iff, standings_iff, List.map_cons, List.cons_eq_cons]

theorem Standing.perm {stored stored' : List Document} (h : stored.Perm stored') {e : Listed} {v : Verdict}
    (hs : Standing stored e v) : Standing stored' e v := by
  have htimes : heldTimes stored' e.path = heldTimes stored e.path := (h.countP_eq _).symm
  cases hs with
  | unreadable he => exact .unreadable he
  | new he hnone => exact .new he (htimes.trans hnone)
  | unchanged he hone hd hpath => exact .unchanged he (htimes.trans hone) (h.mem_iff.mp hd) hpath
  | altered he hone hd hpath hne => exact .altered he (htimes.trans hone) (h.mem_iff.mp hd) hpath hne
  | doubled he hmany => exact .doubled he (htimes ▸ hmany)

/-! ## The changes as sorted verdicts -/

/-- The document to build for the entry with number `k` of a listing. -/
def Verdict.pending? (stamp : Nat → Uuid) (now : Int) (e : Listed) (k : Nat) : Verdict → Option Pending
  | .pending kind digest => some ⟨⟨stamp k, e.path, digest, now⟩, kind, e.file⟩
  | _ => none

def Verdict.unreadable? (e : Listed) : Verdict → Option (String × String)
  | .unreadable reason => some (e.path, reason)
  | _ => none

/-- The changes of a listing with these verdicts, from number `k` on. -/
def sorted (stamp : Nat → Uuid) (now : Int) (deleted : List Document) (k : Nat) (listing : List Listed)
    (vs : List Verdict) : Changes where
  pending := ((listing.zip vs).zipIdx k).filterMap fun x => x.1.2.pending? stamp now x.1.1 x.2
  deleted := deleted
  unchanged := vs.count .unchanged
  unreadable := (listing.zip vs).filterMap fun x => x.2.unreadable? x.1

section
variable (stamp : Nat → Uuid) (now : Int)

theorem detectFrom_eq_sorted (stored deleted : List Document) : ∀ (k : Nat) (listing : List Listed),
    detectFrom stamp now stored deleted k listing =
      sorted stamp now deleted k listing (listing.map (verdict stored))
  | _, [] => rfl
  | k, e :: listing => by
    rw [detectFrom, detectFrom_eq_sorted stored deleted (k + 1) listing, cons]
    cases hv : verdict stored e <;> simp [sorted, hv, Verdict.pending?, Verdict.unreadable?]

/-- Each entry is counted once. -/
theorem detectFrom_total (stored deleted : List Document) : ∀ (k : Nat) (listing : List Listed),
    (detectFrom stamp now stored deleted k listing).pending.length +
        (detectFrom stamp now stored deleted k listing).unchanged +
        (detectFrom stamp now stored deleted k listing).unreadable.length = listing.length
  | _, [] => rfl
  | k, e :: listing => by
    have ih := detectFrom_total stored deleted (k + 1) listing
    rw [detectFrom, cons, List.length_cons]
    split <;> simp only [List.length_cons] <;> omega

end

theorem gone_eq (listing : List Listed) (stored : List Document) :
    gone listing stored = stored.filter fun d => d.path ∉ listing.map Listed.path := by
  unfold gone
  apply List.filter_congr
  intro d _
  rw [Bool.eq_iff_iff]
  simp

/-- **One verdict for each listed file.** Each entry of a listing has one standing beside the stored documents,
and the changes are the entries sorted by it, in the order of the listing: those that cannot be read, those
that need nothing, and those to build, new or modified. The documents to delete are the stored ones at paths not
listed, in their order. So every entry counts once, no path is both listed and deleted, and another order of the
stored documents changes nothing but the order of those to delete. -/
theorem detect_sorts (stamp : Nat → Uuid) (now : Int) (listing : List Listed) (stored : List Document) :
    (∃ vs, (∀ vs', List.Forall₂ (Standing stored) listing vs' ↔ vs' = vs) ∧
      detect stamp now listing stored =
        sorted stamp now (stored.filter fun d => d.path ∉ listing.map Listed.path) 0 listing vs) ∧
      (detect stamp now listing stored).pending.length + (detect stamp now listing stored).unchanged +
        (detect stamp now listing stored).unreadable.length = listing.length ∧
      (∀ d ∈ (detect stamp now listing stored).deleted, ∀ e ∈ listing, d.path ≠ e.path) ∧
      ∀ stored', stored.Perm stored' → ∃ deleted,
        deleted.Perm (detect stamp now listing stored).deleted ∧
          detect stamp now listing stored' = { detect stamp now listing stored with deleted := deleted } := by
  have hsorted : ∀ stored, detect stamp now listing stored =
      sorted stamp now (stored.filter fun d => d.path ∉ listing.map Listed.path) 0 listing
        (listing.map (verdict stored)) := by
    intro stored
    rw [detect, detectFrom_eq_sorted, gone_eq]
  refine ⟨⟨listing.map (verdict stored), fun vs' => standings_iff, hsorted stored⟩, ?_, ?_, ?_⟩
  · exact detectFrom_total stamp now stored _ 0 listing
  · intro d hd e he hpath
    rw [hsorted] at hd
    have hnot := (List.mem_filter.mp hd).2
    rw [decide_eq_true_eq, hpath] at hnot
    exact hnot (List.mem_map_of_mem he)
  · intro stored' hperm
    have hverdict : listing.map (verdict stored') = listing.map (verdict stored) := by
      apply List.map_congr_left
      intro e _
      exact ((standing_verdict stored e).perm hperm).verdict_eq
    refine ⟨stored'.filter fun d => d.path ∉ listing.map Listed.path, ?_, ?_⟩
    · rw [hsorted]
      exact (hperm.filter _).symm
    · rw [hsorted, hsorted stored, hverdict]
      rfl

end Changes

end CodeCorpus
