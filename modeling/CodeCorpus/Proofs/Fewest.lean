import CodeCorpus.Counter.Tokenizer
import CodeCorpus.Proofs.Packing
import Mathlib.Data.List.Sublists

/-!
# As few windows as can be

Without overlap, and where a run of lines never has more tokens than a run around it, no cutting of the lines
into runs has fewer runs than there are windows: after as many steps, the cursor is at least as far as the
cutting (`windowAt_reaches`). Only a text that is within the budget as it is written may have fewer, since its
terminators count and those of its runs do not.
-/

namespace CodeCorpus

namespace Splitter

variable {ε : Type} {s : Splitter ε} {count : String → Nat} {ls : List String}

/-- A run of lines that may stand in a window of its own. -/
def Admits (s : Splitter ε) (count : String → Nat) (r : List String) : Prop :=
  count (Text.unlines r) ≤ s.budget ∨ r.length = 1

/-- The lines in consecutive runs, none of them empty. -/
structure Cutting (s : Splitter ε) (count : String → Nat) (ls : List String) (runs : List (List String)) : Prop where
  flatten : runs.flatten = ls
  nonempty : ∀ r ∈ runs, r ≠ []
  admits : ∀ r ∈ runs, s.Admits count r

/-- A run of the lines never has more tokens than a run around it. -/
def Grows (count : String → Nat) (ls : List String) : Prop :=
  ∀ r r', r ≠ [] → r <:+: r' → r' <:+: ls → count (Text.unlines r) ≤ count (Text.unlines r')

/-! ## Runs -/

theorem Cutting.tail {r : List String} {runs : List (List String)} {b : Nat}
    (h : s.Cutting count (ls.drop b) (r :: runs)) : s.Cutting count (ls.drop (b + r.length)) runs := by
  have hflat := h.flatten
  rw [List.flatten_cons] at hflat
  refine ⟨?_, fun r' hr' => h.nonempty r' (List.mem_cons_of_mem r hr'),
    fun r' hr' => h.admits r' (List.mem_cons_of_mem r hr')⟩
  rw [← List.drop_drop, ← hflat, List.drop_left]

theorem Cutting.head_isPrefix {r : List String} {runs : List (List String)} (h : s.Cutting count ls (r :: runs)) :
    r <+: ls := by
  rw [← h.flatten, List.flatten_cons]
  exact List.prefix_append r runs.flatten

/-- A run that begins at line `b` holds the lines from any later one on. -/
theorem run_isInfix {b c i : Nat} {r : List String} (hr : r <+: ls.drop b) (hb : b ≤ c) (hi : i < b + r.length) :
    (ls.drop c).take (i + 1 - c) <:+: r := by
  have htail : r.drop (c - b) = (ls.drop c).take (r.length - (c - b)) := by
    conv_lhs => rw [List.prefix_iff_eq_take.mp hr]
    rw [List.drop_take, List.drop_drop, Nat.add_sub_cancel' hb]
  have hshort : min (i + 1 - c) (r.length - (c - b)) = i + 1 - c := by omega
  have htake : (ls.drop c).take (i + 1 - c) = (r.drop (c - b)).take (i + 1 - c) := by
    rw [htail, List.take_take, hshort]
  rw [htake]
  exact (List.take_prefix _ _).isInfix.trans (List.drop_suffix _ _).isInfix

theorem Grows.run_le (grows : Grows count ls) {b c i : Nat} {r : List String} (hr : r <+: ls.drop b) (hb : b ≤ c)
    (hc : c ≤ i) (hi : i < b + r.length) : count (run ls c i) ≤ count (Text.unlines r) := by
  have hlen := hr.length_le
  rw [List.length_drop] at hlen
  refine grows _ _ ?_ (run_isInfix hr hb hi) (hr.isInfix.trans (List.drop_suffix _ _).isInfix)
  apply List.ne_nil_of_length_pos
  rw [List.length_take, List.length_drop]
  omega

/-! ## The greedy cursor is never behind -/

/-- Without overlap no line is repeated. -/
theorem eq_zero_of_mem_openings (single : s.overlap = 0) {c p k : Nat} (hk : k ∈ s.openings count ls c p) : k = 0 := by
  have hle := hk.1
  rw [single, Nat.min_zero] at hle
  exact Nat.le_zero.mp hle

section
variable (counts : ∀ t, s.count t = .ok (count t)) (single : s.overlap = 0)
include counts single

theorem windowAt_overlap {c p : Nat} {w : Window} (hc : c < ls.length) (hp : p ≤ c)
    (made : s.windowAt ls c p = .ok w) : w.overlap = 0 := by
  by_cases hopen : (s.openings count ls c p).Nonempty
  · obtain ⟨k, e, hk, _, hw⟩ := windowAt_packed counts hc hp hopen
    rw [hw] at made
    cases made
    exact eq_zero_of_mem_openings single hk.1
  · rw [windowAt_alone counts hopen] at made
    cases made
    rfl

/-- The step of the induction: a window from a line inside a run that may stand by itself goes at least to the
end of that run. -/
theorem windowAt_reaches (grows : Grows count ls) {b c p : Nat} {w : Window} {r : List String} (hc : c < ls.length)
    (hp : p ≤ c) (made : s.windowAt ls c p = .ok w) (hb : b ≤ c) (hr : r <+: ls.drop b) (ha : s.Admits count r) :
    b + r.length ≤ c + w.fresh := by
  have hpos := s.windowAt_fresh_pos made
  by_cases hbefore : b + r.length ≤ c
  · omega
  rcases ha with hfit | hone
  · have hlen := hr.length_le
    rw [List.length_drop] at hlen
    have hfits : ∀ i, c ≤ i → i < b + r.length → count (run ls c i) ≤ s.budget := by
      intro i h₁ h₂
      exact Nat.le_trans (grows.run_le hr hb h₁ h₂) hfit
    have hopen : (s.openings count ls c p).Nonempty := by
      refine ⟨0, Nat.zero_le _, ?_⟩
      rw [Nat.sub_zero]
      exact hfits c (Nat.le_refl c) (by omega)
    obtain ⟨k, e, hk, he, hw⟩ := windowAt_packed counts hc hp hopen
    obtain rfl := eq_zero_of_mem_openings single hk.1
    rw [hw] at made
    cases made
    obtain ⟨hce, hend⟩ := he.1
    rw [Nat.sub_zero] at hend
    by_contra hshort
    simp only at hshort
    rcases hend with hend | hend
    · omega
    · have := hfits e (by omega) (by omega)
      omega
  · omega

theorem Successive.length_le (grows : Grows count ls) {c p : Nat} {ws : List Window} (h : s.Successive ls c p ws)
    (hp : p ≤ c) {b : Nat} {runs : List (List String)} (hb : b ≤ c) (hcut : s.Cutting count (ls.drop b) runs) :
    ws.length ≤ runs.length := by
  -- the cutting may be behind the windows, never ahead
  induction h generalizing b runs with
  | done => exact Nat.zero_le _
  | @next c p w ws within made _ ih =>
    cases runs with
    | nil =>
      have hnil := hcut.flatten.symm
      rw [List.flatten_nil, List.drop_eq_nil_iff] at hnil
      omega
    | cons r runs =>
      have hreach := windowAt_reaches counts single grows within hp made hb hcut.head_isPrefix
        (hcut.admits r List.mem_cons_self)
      have := ih (Nat.le_add_left _ _) hreach hcut.tail
      simpa using this

/-- The windows are a cutting themselves. -/
theorem Successive.cutting (hls : ∀ l ∈ ls, '\n' ∉ l.toList) {c p : Nat} {ws : List Window}
    (h : s.Successive ls c p ws) (hp : p ≤ c) : s.Cutting count (ls.drop c) (ws.map Window.contributed) := by
  induction h with
  | done => exact ⟨by simp, nofun, nofun⟩
  | @next c p w ws within made _ ih =>
    have hopens := windowAt_ok within made
    have hpos := hopens.fresh_pos
    have hlines := hopens.contributed hls
    have hrest := ih (Nat.le_add_left _ _)
    have hlen := hopens.contributed_length hls
    have hadmits : s.Admits count w.contributed := by
      cases hover : w.oversized with
      | true => exact .inr (hlen.trans (hopens.alone hover).2.1)
      | false =>
        have htext := hopens.text
        rw [windowAt_overlap counts single within hp made, Nat.sub_zero, Nat.zero_add, ← hlines] at htext
        have hcount : count w.text = w.tokens := Except.ok.inj ((counts w.text).symm.trans hopens.count)
        refine .inl ?_
        rw [← htext, hcount]
        exact hopens.fits hover
    refine ⟨?_, ?_, ?_⟩
    · rw [List.map_cons, List.flatten_cons, hrest.flatten, hlines, ← List.drop_drop, List.take_append_drop]
    · intro r hr
      rcases List.mem_cons.mp hr with rfl | hr
      · exact List.ne_nil_of_length_pos (by omega)
      · exact hrest.nonempty r hr
    · intro r hr
      rcases List.mem_cons.mp hr with rfl | hr
      · exact hadmits
      · exact hrest.admits r hr

end

/-! ## The number of windows -/

/-- The numbers of runs that the lines can be cut into. -/
def cuttings (s : Splitter ε) (count : String → Nat) (ls : List String) : Set Nat :=
  {k | ∃ runs, s.Cutting count ls runs ∧ runs.length = k}

theorem one_mem_cuttings (hne : ls ≠ []) : 1 ∈ s.cuttings count ls ↔ s.Admits count ls := by
  constructor
  · rintro ⟨runs, hcut, hlen⟩
    obtain ⟨r, rfl⟩ := List.length_eq_one_iff.mp hlen
    have hr := hcut.admits r (List.mem_singleton_self r)
    have hflat := hcut.flatten
    rw [List.flatten_singleton] at hflat
    rwa [hflat] at hr
  · intro ha
    exact ⟨[ls], ⟨by simp, by simpa using hne, by simpa using ha⟩, rfl⟩

theorem one_le_of_cutting (hne : ls ≠ []) {k : Nat} (hk : k ∈ s.cuttings count ls) : 1 ≤ k := by
  obtain ⟨runs, hcut, rfl⟩ := hk
  cases runs with
  | nil => exact absurd hcut.flatten.symm hne
  | cons r runs => simp

/-- **Greedy packing is optimal.** Without overlap, and where a run of lines never has more tokens than a run
around it, a text with lines gives as few windows as its lines can be cut into runs that fit the budget or are
one line. The exception is a text that is within the budget as it is written, though its lines put together
again are not and are more than one: it is one window all the same. -/
theorem windows_fewest (s : Splitter ε) {count : String → Nat} (counts : ∀ t, s.count t = .ok (count t))
    (single : s.overlap = 0) {text : String} (hne : Text.lines text ≠ []) (grows : Grows count (Text.lines text)) :
    ∃ ws : List Window, s.windows text = ws.map .ok ∧ (count text ≤ s.budget → ws.length = 1) ∧
      (IsLeast (s.cuttings count (Text.lines text)) ws.length ↔
        (count text ≤ s.budget → s.Admits count (Text.lines text))) := by
  by_cases hfit : count text ≤ s.budget
  · refine ⟨[⟨text, count text, 0, (Text.lines text).length, false⟩], windows_passed (counts text) hfit,
      fun _ => rfl, ?_⟩
    constructor
    · intro hleast _
      exact (one_mem_cuttings hne).mp hleast.1
    · intro ha
      exact ⟨(one_mem_cuttings hne).mpr (ha hfit), fun k hk => one_le_of_cutting hne hk⟩
  · obtain ⟨ws, hitems, hws⟩ := items_counted counts (Text.lines text) (Nat.zero_le _) (Nat.le_refl 0)
    have hls : ∀ l ∈ Text.lines text, '\n' ∉ l.toList := fun l hl => Text.newline_not_mem_lines hl
    refine ⟨ws, (items_whole (counts text) (by omega)).trans hitems, fun h => absurd h hfit,
      fun _ h => absurd h hfit, fun _ => ⟨?_, ?_⟩⟩
    · exact ⟨ws.map Window.contributed, hws.cutting counts single hls (Nat.le_refl 0), List.length_map _⟩
    · rintro k ⟨runs, hcut, rfl⟩
      exact hws.length_le counts single grows (Nat.le_refl 0) (Nat.le_refl 0) hcut

/-- Words are counted, four at most to a window, and nothing is repeated. -/
def plain : Splitter Empty := ⟨fun t => .ok (CountingUnit.words.measure t), 4, 0, by decide⟩

theorem grows_of_sublists
    (h : ∀ r' ∈ ls.sublists, ∀ r ∈ r'.sublists, count (Text.unlines r) ≤ count (Text.unlines r')) :
    Grows count ls := by
  intro r r' _ hr hr'
  exact h r' (List.mem_sublists.mpr hr'.sublist) r (List.mem_sublists.mpr hr.sublist)

theorem windows_fewest_plain :
    Grows CountingUnit.words.measure (Text.lines "a b\nc\nd e f g h\ni") ∧
      IsLeast (plain.cuttings CountingUnit.words.measure (Text.lines "a b\nc\nd e f g h\ni")) 3 := by
  have hgrows : Grows CountingUnit.words.measure (Text.lines "a b\nc\nd e f g h\ni") :=
    grows_of_sublists (by decide +kernel)
  obtain ⟨ws, hws, _, hleast⟩ := plain.windows_fewest (fun _ => rfl) rfl (by decide) hgrows
  have hlen : (plain.windows "a b\nc\nd e f g h\ni").length = 3 := by decide +kernel
  rw [hws, List.length_map] at hlen
  rw [hlen] at hleast
  exact ⟨hgrows, hleast.mpr fun hfit => absurd hfit (by decide)⟩

/-! ## A text within the budget whose lines are not -/

/-- Words and signs are counted, but the two lines of `a\r\nb`, terminator and all, are one token. -/
def terminated : Tokenizer where
  vocabulary := ["[UNK]", "a\r\nb"]
  unknown := "[UNK]"
  addedVerbatim := ["a\r\nb"]
  addedNormalized := []
  lowers := false
  rule := .runs
  encloses := false

def terminatedCount (t : String) : Nat := ((terminated.counter false t).toOption).getD 0

def terminatedSplitter : Splitter Fault := ⟨terminated.counter false, 1, 0, by decide⟩

/-- Not every number of windows is that of a cutting: this text is one window, and its lines cannot be one run. -/
theorem whole_below_cuttings :
    (∀ t, terminatedSplitter.count t = .ok (terminatedCount t)) ∧ terminatedSplitter.overlap = 0 ∧
      Text.lines "a\r\nb" = ["a", "b"] ∧ Grows terminatedCount (Text.lines "a\r\nb") ∧
      ∃ ws : List Window, terminatedSplitter.windows "a\r\nb" = ws.map .ok ∧
        ¬ IsLeast (terminatedSplitter.cuttings terminatedCount (Text.lines "a\r\nb")) ws.length := by
  have hlines : Text.lines "a\r\nb" = ["a", "b"] := by decide
  have hcounts : ∀ t, terminatedSplitter.count t = .ok (terminatedCount t) := by
    intro t
    obtain ⟨n, hn⟩ := Tokenizer.counter_ok (t := terminated) (by decide) false t
    show terminated.counter false t = _
    unfold terminatedCount
    rw [hn]
    rfl
  have hne : Text.lines "a\r\nb" ≠ [] := by rw [hlines]; exact List.cons_ne_nil _ _
  have hgrows : Grows terminatedCount (Text.lines "a\r\nb") := grows_of_sublists (by decide +kernel)
  refine ⟨hcounts, rfl, hlines, hgrows, [⟨"a\r\nb", 1, 0, 2, false⟩], ?_, ?_⟩
  · have hone : terminatedCount "a\r\nb" = 1 := by decide +kernel
    have hcount := hcounts "a\r\nb"
    rw [hone] at hcount
    have hpassed := windows_passed hcount (Nat.le_refl 1)
    rw [hlines] at hpassed
    exact hpassed
  · intro hleast
    have hone := (one_mem_cuttings hne).mp hleast.1
    have hnot : ¬ (terminatedCount (Text.unlines (Text.lines "a\r\nb")) ≤ 1 ∨ (Text.lines "a\r\nb").length = 1) := by
      decide +kernel
    exact hnot hone

end Splitter

end CodeCorpus
