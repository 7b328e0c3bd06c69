import CodeCorpus.Proofs.Windows
import Mathlib.Algebra.Order.Ring.Nat
import Mathlib.Order.Bounds.Basic

/-!
# The shape of windows

Where the counter never fails, each window is determined by the lines before it. At the line where it begins to
contribute, the window repeats as many lines as the overlap allows and the budget lets stand in front of that
line, and it goes on until the next line would not fit. So all windows of a text are determined, though nothing
is asked of the counter: a longer run of lines may well have fewer tokens.
-/

namespace CodeCorpus

namespace Splitter

variable {ε : Type} {s : Splitter ε} {count : String → Nat} {ls : List String}

/-- The numbers of lines that may be repeated in front of line `c`, after a window that contributed `p`
lines: those with which line `c` fits the budget. -/
def openings (s : Splitter ε) (count : String → Nat) (ls : List String) (c p : Nat) : Set Nat :=
  {k | k ≤ min p s.overlap ∧ count (run ls (c - k) c) ≤ s.budget}

/-- The places behind line `c` at which the lines from `start` on are at their end, or at a line that would
not fit the budget. -/
def closings (s : Splitter ε) (count : String → Nat) (ls : List String) (start c : Nat) : Set Nat :=
  {e | c < e ∧ (e = ls.length ∨ s.budget < count (run ls start e))}

/-! ## One window -/

section
variable (counts : ∀ t, s.count t = .ok (count t))
include counts

theorem firstFit_counted (ls : List String) {cursor start : Nat} (hle : start ≤ cursor) :
    (∃ j, s.firstFit ls cursor start = .ok (some (j, run ls j cursor, count (run ls j cursor))) ∧ start ≤ j ∧
      j ≤ cursor ∧ count (run ls j cursor) ≤ s.budget ∧ ∀ i, start ≤ i → i < j → s.budget < count (run ls i cursor)) ∨
    s.firstFit ls cursor start = .ok none ∧ ∀ i, start ≤ i → i ≤ cursor → s.budget < count (run ls i cursor) := by
  fun_induction firstFit s ls cursor start with
  | case1 start _ e he =>
    rw [counts] at he
    cases he
  | case2 start _ n hn hfit =>
    rw [counts] at hn
    cases hn
    exact .inl ⟨start, rfl, Nat.le_refl _, hle, hfit, fun i h₁ h₂ => by omega⟩
  | case3 start _ n hn hover ih =>
    rw [counts] at hn
    cases hn
    have hfirst : ∀ i, start ≤ i → ¬ start + 1 ≤ i → s.budget < count (run ls i cursor) := by
      intro i h₁ h₂
      have he : i = start := by omega
      rw [he]
      omega
    by_cases hlast : start = cursor
    · -- no start is left, and the search says so without counting again
      refine .inr ⟨?_, fun i h₁ h₂ => hfirst i h₁ (by omega)⟩
      unfold firstFit
      rw [if_neg (by omega)]
    · rcases ih (by omega) with ⟨j, hj, hstart, hcursor, hfit, hbefore⟩ | ⟨hnone, hall⟩
      · refine .inl ⟨j, hj, by omega, hcursor, hfit, fun i h₁ h₂ => ?_⟩
        by_cases hi : start + 1 ≤ i
        · exact hbefore i hi h₂
        · exact hfirst i h₁ hi
      · refine .inr ⟨hnone, fun i h₁ h₂ => ?_⟩
        by_cases hi : start + 1 ≤ i
        · exact hall i hi h₂
        · exact hfirst i h₁ hi
  | case4 start hgt => exact absurd hle hgt

theorem extend_counted (start stop : Nat) (hstart : start < stop) (hle : stop ≤ ls.length) :
    ∃ e, s.extend ls start stop (run ls start (stop - 1)) (count (run ls start (stop - 1))) =
        .ok (e, run ls start (e - 1), count (run ls start (e - 1))) ∧
      stop ≤ e ∧ (e = ls.length ∨ s.budget < count (run ls start e)) ∧
      ∀ i, stop ≤ i → i < e → i ≠ ls.length ∧ count (run ls start i) ≤ s.budget := by
  generalize htext : run ls start (stop - 1) = text
  generalize hn : count text = n
  fun_induction extend s ls start stop text n with
  | case1 stop _ _ _ e he =>
    rw [counts] at he
    cases he
  | case2 stop text n hlt m hm hfit ih =>
    rw [counts] at hm
    cases hm
    obtain ⟨e, he, hstop, hclose, hall⟩ := ih (by omega) (by omega) (by rw [Nat.add_sub_cancel]) rfl
    refine ⟨e, he, by omega, hclose, fun i h₁ h₂ => ?_⟩
    by_cases hi : stop + 1 ≤ i
    · exact hall i hi h₂
    · have heq : i = stop := by omega
      rw [heq]
      exact ⟨by omega, hfit⟩
  | case3 stop text n hlt m hm hover =>
    rw [counts] at hm
    cases hm
    subst htext hn
    exact ⟨stop, rfl, Nat.le_refl _, .inr (by omega), fun i h₁ h₂ => by omega⟩
  | case4 stop text n hge =>
    subst htext hn
    exact ⟨stop, rfl, Nat.le_refl _, .inl (by omega), fun i h₁ h₂ => by omega⟩

/-- Where the line at the cursor fits at all, the window repeats as much as it may and contributes as much as
it may. -/
theorem windowAt_packed {c p : Nat} (hc : c < ls.length) (hp : p ≤ c) (hopen : (s.openings count ls c p).Nonempty) :
    ∃ k e, IsGreatest (s.openings count ls c p) k ∧ IsLeast (s.closings count ls (c - k) c) e ∧
      s.windowAt ls c p =
        .ok ⟨run ls (c - k) (e - 1), count (run ls (c - k) (e - 1)), k, e - c, false⟩ := by
  have hmin : min p s.overlap ≤ c := Nat.le_trans (Nat.min_le_left _ _) hp
  rcases firstFit_counted counts ls (Nat.sub_le c (min p s.overlap)) with
    ⟨j, hj, hstart, hcursor, hfit, hbefore⟩ | ⟨_, hall⟩
  · have hj' : c - (c - j) = j := by omega
    obtain ⟨e, he, hstop, hclose, hopened⟩ := extend_counted counts j (c + 1) (by omega) hc
    rw [Nat.add_sub_cancel] at he
    refine ⟨c - j, e, ⟨⟨by omega, by rwa [hj']⟩, ?_⟩, ⟨⟨hstop, by rwa [hj']⟩, ?_⟩, ?_⟩
    · -- a greater number would be an earlier start, and none of those fits
      rintro k ⟨hk, hkfit⟩
      by_contra hgt
      have := hbefore (c - k) (by omega) (by omega)
      omega
    · rintro i ⟨hi, hend⟩
      by_contra hlt
      obtain ⟨hne, hle⟩ := hopened i hi (by omega)
      rw [hj'] at hend
      rcases hend with hend | hend
      · exact hne hend
      · omega
    · rw [hj']
      unfold windowAt
      simp only [hj, he]
  · obtain ⟨k, hk, hkfit⟩ := hopen
    have := hall (c - k) (by omega) (by omega)
    omega

theorem windowAt_alone {c p : Nat} (hopen : ¬ (s.openings count ls c p).Nonempty) :
    s.windowAt ls c p = .ok ⟨run ls c c, count (run ls c c), 0, 1, true⟩ := by
  rcases firstFit_counted counts ls (Nat.sub_le c (min p s.overlap)) with
    ⟨j, _, hstart, hcursor, hfit, _⟩ | ⟨hnone, _⟩
  · refine absurd ⟨c - j, ?_, ?_⟩ hopen
    · omega
    · rwa [show c - (c - j) = j by omega]
  · unfold windowAt
    simp only [hnone, counts]

theorem windowAt_counted {c p : Nat} (hc : c < ls.length) (hp : p ≤ c) : ∃ w, s.windowAt ls c p = .ok w := by
  by_cases hopen : (s.openings count ls c p).Nonempty
  · obtain ⟨k, e, _, _, hw⟩ := windowAt_packed counts hc hp hopen
    exact ⟨_, hw⟩
  · exact ⟨_, windowAt_alone counts hopen⟩

end

/-! ## One window after another -/

/-- The windows from line `c` to the end, after a window that contributed `p` lines. -/
inductive Successive (s : Splitter ε) (ls : List String) : Nat → Nat → List Window → Prop where
  | done (p : Nat) : Successive s ls ls.length p []
  | next {c p : Nat} {w : Window} {ws : List Window} (within : c < ls.length) (made : s.windowAt ls c p = .ok w)
    (rest : Successive s ls (c + w.fresh) w.fresh ws) : Successive s ls c p (w :: ws)

theorem items_counted (counts : ∀ t, s.count t = .ok (count t)) (ls : List String) {c p : Nat} (hc : c ≤ ls.length)
    (hp : p ≤ c) : ∃ ws, (s.itemsFrom (.lines ls c p)).1 = ws.map .ok ∧ s.Successive ls c p ws := by
  -- each window leaves fewer lines
  induction hleft : ls.length - c using Nat.strongRecOn generalizing c p with
  | ind left ih =>
    by_cases hlt : c < ls.length
    · obtain ⟨w, hw⟩ := windowAt_counted counts hlt hp
      have hnext : s.next (.lines ls c p) = (some (.ok w), .lines ls (c + w.fresh) w.fresh) := by
        simp [next, nextLines, hlt, hw]
      have hopens := windowAt_ok hlt hw
      have hpos := hopens.fresh_pos
      obtain ⟨ws, hitems, hws⟩ := ih (ls.length - (c + w.fresh)) (by omega) hopens.within (Nat.le_add_left _ _) rfl
      refine ⟨w :: ws, ?_, .next hlt hw hws⟩
      rw [items_of_some hnext, hitems]
      rfl
    · have hend : c = ls.length := by omega
      have hnext : s.next (.lines ls c p) = (none, .ended) := by simp [next, nextLines, hlt]
      subst hend
      exact ⟨[], items_of_none hnext, .done p⟩

theorem Successive.fresh_sum {c p : Nat} {ws : List Window} (h : s.Successive ls c p ws) :
    c + (ws.map Window.fresh).sum = ls.length := by
  induction h with
  | done => rfl
  | next _ _ _ ih =>
    rw [List.map_cons, List.sum_cons]
    omega

/-- A window stands where those before it have brought the cursor, and goes by what the last of them
contributed. -/
theorem Successive.located {c p : Nat} {before after : List Window} {w : Window} (hls : ∀ l ∈ ls, '\n' ∉ l.toList)
    (h : s.Successive ls c p (before ++ w :: after)) {c' p' : Nat}
    (hc' : c' = c + (before.map Window.fresh).sum) (hp' : p' = (before.getLast?.map Window.fresh).getD p) :
    c' < ls.length ∧ s.windowAt ls c' p' = .ok w ∧ (p ≤ c → p' ≤ c') ∧
      ∀ v, before.getLast? = some v → v.contributed = (ls.drop (c' - p')).take p' := by
  induction before generalizing c p with
  | nil =>
    cases h with
    | next within made _ =>
      subst hc' hp'
      exact ⟨within, made, id, nofun⟩
  | cons v vs ih =>
    cases h with
    | next within made rest =>
      rw [List.map_cons, List.sum_cons, ← Nat.add_assoc] at hc'
      rw [List.getLast?_cons] at hp' ⊢
      have hopens := windowAt_ok within made
      cases vs with
      | nil =>
        obtain ⟨hlt, hw, _, _⟩ := ih rest hc' hp'
        refine ⟨hlt, hw, fun _ => ?_, ?_⟩
        · simp at hc' hp'
          omega
        · simp at hc' hp'
          rintro u hu
          cases hu
          rw [hc', hp', Nat.add_sub_cancel]
          exact hopens.contributed hls
      | cons u us =>
        obtain ⟨hlt, hw, hle, hlast⟩ := ih rest hc' (by simpa [List.getLast?_cons] using hp')
        exact ⟨hlt, hw, fun _ => hle (by omega), by simpa [List.getLast?_cons] using hlast⟩

/-- The rows of a window that are not its own are the last of those that the window before contributed. -/
theorem take_rows {c k e p : Nat} (hls : ∀ l ∈ ls, '\n' ∉ l.toList) (hk : k ≤ p) (hp : p ≤ c) (hce : c < e)
    (hc : c < ls.length) : (Text.rows (run ls (c - k) (e - 1))).take k = ((ls.drop (c - p)).take p).drop (p - k) := by
  have hne : (ls.drop (c - k)).take (e - 1 + 1 - (c - k)) ≠ [] := by
    apply List.ne_nil_of_length_pos
    rw [List.length_take, List.length_drop]
    omega
  have hmem : ∀ l ∈ (ls.drop (c - k)).take (e - 1 + 1 - (c - k)), '\n' ∉ l.toList :=
    fun l hl => hls l (List.mem_of_mem_drop (List.mem_of_mem_take hl))
  have hfrom : c - p + (p - k) = c - k := by omega
  have hcount : min k (e - 1 + 1 - (c - k)) = k := by omega
  have hleft : p - (p - k) = k := by omega
  unfold run
  rw [Text.rows_unlines hne hmem, List.take_take, List.drop_take, List.drop_drop, hfrom, hcount, hleft]

/-- **The shape of windows.** A text over the budget is cut into windows that contribute all of its lines. Let
`c` be the lines before a window and `p` those that the window before it contributed. If line `c` fits behind
some of these, within the overlap wanted, or by itself, the window repeats as many of them as can be, the last
ones, and ends where the text does or before the first line that would not fit. Otherwise it is line `c` alone,
oversized. -/
theorem windows_shape (s : Splitter ε) {count : String → Nat} (counts : ∀ t, s.count t = .ok (count t))
    {text : String} (exceeds : s.budget < count text) :
    ∃ ws, s.windows text = ws.map .ok ∧ (ws.map Window.fresh).sum = (Text.lines text).length ∧
      ∀ before w after, ws = before ++ w :: after → ∀ ls c p, ls = Text.lines text →
        c = (before.map Window.fresh).sum → p = (before.getLast?.map Window.fresh).getD 0 →
        ((s.openings count ls c p).Nonempty → ∃ k e, IsGreatest (s.openings count ls c p) k ∧
          IsLeast (s.closings count ls (c - k) c) e ∧
          w = ⟨run ls (c - k) (e - 1), count (run ls (c - k) (e - 1)), k, e - c, false⟩ ∧
          (Text.rows w.text).take k = ((before.getLast?.map Window.contributed).getD []).drop (p - k)) ∧
        (¬ (s.openings count ls c p).Nonempty →
          ∃ line, ls[c]? = some line ∧ w = ⟨line, count line, 0, 1, true⟩) := by
  obtain ⟨ws, hitems, hws⟩ := items_counted counts (Text.lines text) (Nat.zero_le _) (Nat.le_refl 0)
  refine ⟨ws, (items_whole (counts text) exceeds).trans hitems, by simpa using hws.fresh_sum, ?_⟩
  rintro before w after rfl ls c p rfl hc hp
  have hls : ∀ l ∈ Text.lines text, '\n' ∉ l.toList := fun l hl => Text.newline_not_mem_lines hl
  obtain ⟨hlt, hw, hle, hlast⟩ := hws.located hls (hc.trans (Nat.zero_add _).symm) hp
  have hpc := hle (Nat.le_refl 0)
  constructor
  · intro hopen
    obtain ⟨k, e, hk, he, hmade⟩ := windowAt_packed counts hlt hpc hopen
    rw [hmade] at hw
    cases hw
    refine ⟨k, e, hk, he, rfl, ?_⟩
    have hkp : k ≤ p := Nat.le_trans hk.1.1 (Nat.min_le_left _ _)
    rw [take_rows hls hkp hpc he.1.1 hlt]
    cases hb : before.getLast? with
    | none =>
      rw [hb] at hp
      simp [hp]
    | some v => rw [Option.map_some, Option.getD_some, hlast v hb]
  · intro hnone
    rw [windowAt_alone counts hnone, run_self hlt] at hw
    cases hw
    exact ⟨_, List.getElem?_eq_getElem hlt, rfl⟩

/-- Words are counted, three at most to a window, which repeats two lines if it can. -/
def narrow : Splitter Empty := ⟨fun t => .ok (CountingUnit.words.measure t), 3, 2, by decide⟩

theorem windows_shape_narrow :
    narrow.windows "a\nb\nc\nd d" = [.ok ⟨"a\nb\nc", 3, 0, 3, false⟩, .ok ⟨"c\nd d", 3, 1, 1, false⟩] ∧
      IsGreatest (narrow.openings CountingUnit.words.measure (Text.lines "a\nb\nc\nd d") 3 3) 1 := by
  have hvalues : (narrow.windows "a\nb\nc\nd d").filterMap Except.toOption =
      [⟨"a\nb\nc", 3, 0, 3, false⟩, ⟨"c\nd d", 3, 1, 1, false⟩] := by decide +kernel
  have hover : narrow.budget < CountingUnit.words.measure "a\nb\nc\nd d" := by decide
  obtain ⟨ws, hws, _, hshape⟩ := narrow.windows_shape (fun _ => rfl) hover
  have hws' : ws = [⟨"a\nb\nc", 3, 0, 3, false⟩, ⟨"c\nd d", 3, 1, 1, false⟩] := by
    rw [← hvalues, hws, List.filterMap_map]
    exact (List.filterMap_some).symm
  refine ⟨by rw [hws, hws']; rfl, ?_⟩
  obtain ⟨hpacked, _⟩ := hshape [⟨"a\nb\nc", 3, 0, 3, false⟩] ⟨"c\nd d", 3, 1, 1, false⟩ [] hws' _ 3 3 rfl rfl rfl
  obtain ⟨k, e, hk, _, hw, _⟩ := hpacked ⟨0, by decide, by decide⟩
  have hone : 1 = k := congrArg Window.overlap hw
  rwa [hone]

end Splitter

end CodeCorpus
