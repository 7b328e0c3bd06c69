import CodeCorpus.Counter
import CodeCorpus.Window

/-!
# What the windows of a text are

A text is a window by itself or is cut by lines. In the second case the windows, each less the lines it
repeats, are the lines of the text in order, and none goes over the budget unless it is one line that does so
alone. Nothing is asked of the counter but that it counts the same text the same way twice: a longer text may
well have fewer tokens. What one window is (`Opens`) is read off the two searches that make it, and what the
windows are together (`Cut`) is read off the way from one to the next.
-/

namespace CodeCorpus

namespace Text

/-! ## Lines and rows -/

/-- What stands in a text between its `\n`, empty rows included. -/
def rows (s : String) : List String := (s.toList.splitOn '\n').map String.ofList

theorem newline_not_mem_closeLine {line : List Char} (h : '\n' ∉ line) : '\n' ∉ closeLine line := by
  unfold closeLine
  split
  · simp only [List.mem_cons, not_or] at h
    simpa using h.2
  · simpa using h

theorem newline_not_mem_linesFrom (line cs : List Char) (h : '\n' ∉ line) :
    ∀ l ∈ linesFrom line cs, '\n' ∉ l := by
  fun_induction linesFrom line cs with
  | case1 => simp
  | case2 line _ => simpa using h
  | case3 line cs ih =>
    intro l hl
    rcases List.mem_cons.mp hl with rfl | hl
    · exact newline_not_mem_closeLine h
    · exact ih (by simp) l hl
  | case4 line c cs hc ih =>
    refine ih ?_
    simp only [List.mem_cons, not_or]
    exact ⟨fun e => hc e.symm, h⟩

theorem newline_not_mem_lines {s l : String} (h : l ∈ lines s) : '\n' ∉ l.toList := by
  obtain ⟨cs, hcs, rfl⟩ := List.mem_map.mp h
  rw [String.toList_ofList]
  exact newline_not_mem_linesFrom [] s.toList (by simp) cs hcs

theorem rows_unlines {ls : List String} (hne : ls ≠ []) (h : ∀ l ∈ ls, '\n' ∉ l.toList) :
    rows (unlines ls) = ls := by
  have hchars : (unlines ls).toList = ['\n'].intercalate (ls.map String.toList) := String.toList_intercalate
  have hcut : (['\n'].intercalate (ls.map String.toList)).splitOn '\n' = ls.map String.toList := by
    refine List.splitOn_intercalate '\n' ?_ (by simpa using hne)
    intro l hl
    obtain ⟨t, ht, rfl⟩ := List.mem_map.mp hl
    exact h t ht
  unfold rows
  rw [hchars, hcut, List.map_map]
  simp

end Text

/-- The lines that a window contributes, with those it repeats dropped. -/
def Window.contributed (w : Window) : List String := (Text.rows w.text).drop w.overlap

namespace Splitter

variable {ε : Type} {s : Splitter ε} {ls : List String}

/-! ## The two searches -/

theorem firstFit_some {cursor start k n : Nat} {text : String}
    (h : s.firstFit ls cursor start = .ok (some (k, text, n))) :
    k ≤ cursor ∧ text = run ls k cursor ∧ s.count text = .ok n ∧ n ≤ s.budget := by
  fun_induction firstFit s ls cursor start with
  | case1 => cases h
  | case2 start hle m hm hfit =>
    cases h
    exact ⟨hle, rfl, hm, hfit⟩
  | case3 _ _ _ _ _ ih => exact ih h
  | case4 => cases h

/-- Where no start is left, even the line at the cursor is over the budget by itself. -/
theorem firstFit_none {cursor start : Nat} (hle : start ≤ cursor) (h : s.firstFit ls cursor start = .ok none) :
    ∃ n, s.count (run ls cursor cursor) = .ok n ∧ s.budget < n := by
  fun_induction firstFit s ls cursor start with
  | case1 => cases h
  | case2 => cases h
  | case3 start _ n hn hover ih =>
    by_cases hlast : start = cursor
    · subst hlast
      exact ⟨n, hn, by omega⟩
    · exact ih (by omega) h
  | case4 start hgt => omega

theorem firstFit_error {cursor start : Nat} {e : ε} (h : s.firstFit ls cursor start = .error e) :
    ∃ first last, s.count (run ls first last) = .error e := by
  fun_induction firstFit s ls cursor start with
  | case1 start _ _ he =>
    cases h
    exact ⟨start, cursor, he⟩
  | case2 => cases h
  | case3 _ _ _ _ _ ih => exact ih h
  | case4 => cases h

/-- The text of the lines from `start` to before `stop`, which fit the budget with `n` tokens. -/
structure Fits (s : Splitter ε) (ls : List String) (start stop : Nat) (text : String) (n : Nat) : Prop where
  lines : text = Text.unlines ((ls.drop start).take (stop - start))
  count : s.count text = .ok n
  le : n ≤ s.budget

theorem extend_ok {start stop n stop' n' : Nat} {text text' : String} (hle : stop ≤ ls.length)
    (hfit : s.Fits ls start stop text n) (h : s.extend ls start stop text n = .ok (stop', text', n')) :
    stop' ≤ ls.length ∧ s.Fits ls start stop' text' n' := by
  fun_induction extend s ls start stop text n with
  | case1 => cases h
  | case2 stop _ _ hlt m hm hle' ih => exact ih hlt ⟨rfl, hm, hle'⟩ h
  | case3 =>
    cases h
    exact ⟨hle, hfit⟩
  | case4 =>
    cases h
    exact ⟨hle, hfit⟩

theorem extend_error {start stop n : Nat} {text : String} {e : ε}
    (h : s.extend ls start stop text n = .error e) : ∃ first last, s.count (run ls first last) = .error e := by
  fun_induction extend s ls start stop text n with
  | case1 stop _ _ _ _ he =>
    cases h
    exact ⟨start, stop, he⟩
  | case2 _ _ _ _ _ _ _ ih => exact ih h
  | case3 => cases h
  | case4 => cases h

/-! ## One window -/

/-- A window that contributes the lines from `cursor` on. -/
structure Opens (s : Splitter ε) (ls : List String) (cursor : Nat) (w : Window) : Prop where
  overlap_le : w.overlap ≤ cursor
  fresh_pos : 0 < w.fresh
  within : cursor + w.fresh ≤ ls.length
  text : w.text = Text.unlines ((ls.drop (cursor - w.overlap)).take (w.overlap + w.fresh))
  count : s.count w.text = .ok w.tokens
  fits : w.oversized = false → w.tokens ≤ s.budget
  alone : w.oversized = true → w.overlap = 0 ∧ w.fresh = 1 ∧ s.budget < w.tokens

theorem windowAt_ok {cursor previous : Nat} {w : Window} (hc : cursor < ls.length)
    (h : s.windowAt ls cursor previous = .ok w) : s.Opens ls cursor w := by
  have hpos := s.windowAt_fresh_pos h
  unfold windowAt at h
  split at h
  · cases h
  · rename_i start text n hfirst
    obtain ⟨hle, htext, hcount, hbudget⟩ := firstFit_some hfirst
    split at h
    · cases h
    · rename_i stop text' n' hext
      have hge := s.extend_ge hext
      obtain ⟨hstop, hfit⟩ := extend_ok hc ⟨htext, hcount, hbudget⟩ hext
      cases h
      simp only at hge hpos
      have hstart : cursor - (cursor - start) = start := by omega
      have hlines : cursor - start + (stop - cursor) = stop - start := by omega
      refine ⟨Nat.sub_le _ _, hpos, ?_, ?_, hfit.count, fun _ => hfit.le, nofun⟩
      · show cursor + (stop - cursor) ≤ ls.length
        omega
      · show text' = Text.unlines ((ls.drop (cursor - (cursor - start))).take (cursor - start + (stop - cursor)))
        rw [hstart, hlines]
        exact hfit.lines
  · rename_i hnone
    obtain ⟨m, hm, hover⟩ := firstFit_none (Nat.sub_le _ _) hnone
    rw [hm] at h
    cases h
    refine ⟨Nat.zero_le _, hpos, hc, ?_, hm, nofun, fun _ => ⟨rfl, rfl, hover⟩⟩
    show run ls cursor cursor = Text.unlines ((ls.drop (cursor - 0)).take (0 + 1))
    unfold run
    rw [Nat.sub_zero, Nat.add_sub_cancel_left]

theorem windowAt_error {cursor previous : Nat} {e : ε} (h : s.windowAt ls cursor previous = .error e) :
    ∃ first last, s.count (run ls first last) = .error e := by
  unfold windowAt at h
  split at h
  · rename_i hfirst
    cases h
    exact firstFit_error hfirst
  · split at h
    · rename_i hext
      cases h
      exact extend_error hext
    · cases h
  · split at h
    · rename_i hcount
      cases h
      exact ⟨cursor, cursor, hcount⟩
    · cases h

theorem Opens.contributed {cursor : Nat} {w : Window} (hw : s.Opens ls cursor w)
    (hls : ∀ l ∈ ls, '\n' ∉ l.toList) : w.contributed = (ls.drop cursor).take w.fresh := by
  have hpos := hw.fresh_pos
  have hfits := hw.within
  have hle := hw.overlap_le
  have hne : (ls.drop (cursor - w.overlap)).take (w.overlap + w.fresh) ≠ [] := by
    apply List.ne_nil_of_length_pos
    rw [List.length_take, List.length_drop]
    omega
  have hmem : ∀ l ∈ (ls.drop (cursor - w.overlap)).take (w.overlap + w.fresh), '\n' ∉ l.toList := by
    intro l hl
    exact hls l (List.mem_of_mem_drop (List.mem_of_mem_take hl))
  have hcursor : cursor - w.overlap + w.overlap = cursor := by omega
  unfold Window.contributed
  rw [hw.text, Text.rows_unlines hne hmem, List.drop_take, List.drop_drop, Nat.add_sub_cancel_left, hcursor]

theorem Opens.contributed_length {cursor : Nat} {w : Window} (hw : s.Opens ls cursor w)
    (hls : ∀ l ∈ ls, '\n' ∉ l.toList) : w.contributed.length = w.fresh := by
  have hwithin := hw.within
  rw [hw.contributed hls, List.length_take, List.length_drop]
  omega

theorem run_self {c : Nat} (hc : c < ls.length) : run ls c c = ls[c] := by
  have hone : (ls.drop c).take 1 = [ls[c]] := by
    rw [List.drop_eq_getElem_cons hc]
    rfl
  unfold run
  rw [Nat.add_sub_cancel_left, hone]
  rfl

theorem Opens.line {cursor : Nat} {w : Window} (hw : s.Opens ls cursor w) (h : w.oversized = true) :
    w.text ∈ ls := by
  obtain ⟨hoverlap, hfresh, _⟩ := hw.alone h
  have hlt := hw.within
  rw [hfresh] at hlt
  have htext : w.text = ls[cursor] := by
    rw [hw.text, hoverlap, hfresh, Nat.sub_zero, Nat.zero_add, ← run_self (by omega)]
    unfold run
    rw [Nat.add_sub_cancel_left]
  rw [htext]
  exact List.getElem_mem _

/-! ## All windows -/

/-- Windows one after another, which take the cursor from its first place to its last. -/
inductive Cut (s : Splitter ε) (ls : List String) : Nat → List Window → Nat → Prop where
  | done (cursor : Nat) : Cut s ls cursor [] cursor
  | next {cursor stop : Nat} {w : Window} {ws : List Window} :
    s.Opens ls cursor w → Cut s ls (cursor + w.fresh) ws stop → Cut s ls cursor (w :: ws) stop

theorem Cut.le {cursor stop : Nat} {ws : List Window} (h : s.Cut ls cursor ws stop) : cursor ≤ stop := by
  induction h with
  | done => exact Nat.le_refl _
  | next _ _ ih => omega

theorem Cut.opens {cursor stop : Nat} {ws : List Window} (h : s.Cut ls cursor ws stop) :
    ∀ w ∈ ws, ∃ k, s.Opens ls k w := by
  induction h with
  | done => simp
  | next hw _ ih =>
    intro v hv
    rcases List.mem_cons.mp hv with rfl | hv
    · exact ⟨_, hw⟩
    · exact ih v hv

theorem Cut.contributed {cursor stop : Nat} {ws : List Window} (hls : ∀ l ∈ ls, '\n' ∉ l.toList)
    (h : s.Cut ls cursor ws stop) : ws.flatMap Window.contributed = (ls.drop cursor).take (stop - cursor) := by
  induction h with
  | done => simp
  | @next cursor stop w ws hw hcut ih =>
    have hle := hcut.le
    have hsum : stop - cursor = w.fresh + (stop - (cursor + w.fresh)) := by omega
    rw [List.flatMap_cons, hw.contributed hls, ih, hsum, List.take_add, List.drop_drop]

/-- The items end when the lines do, or with a failure of the counter. -/
inductive Ending (s : Splitter ε) (ls : List String) (stop : Nat) : List (Except ε Window) → Prop where
  | complete : stop = ls.length → Ending s ls stop []
  | failed {e : ε} {first last : Nat} : s.count (run ls first last) = .error e → Ending s ls stop [.error e]

theorem items_of_some {stage stage' : Stage} {item : Except ε Window} (h : s.next stage = (some item, stage')) :
    (s.itemsFrom stage).1 = item :: (s.itemsFrom stage').1 := by
  rw [itemsFrom]
  split <;> simp_all

theorem items_of_none {stage stage' : Stage} (h : s.next stage = (none, stage')) :
    (s.itemsFrom stage).1 = [] := by
  rw [itemsFrom]
  split <;> simp_all

theorem items_ended : (s.itemsFrom .ended).1 = [] := items_of_none rfl

theorem items_lines (cursor previous : Nat) (hle : cursor ≤ ls.length) :
    ∃ ws stop tail, (s.itemsFrom (.lines ls cursor previous)).1 = ws.map .ok ++ tail ∧
      s.Cut ls cursor ws stop ∧ s.Ending ls stop tail := by
  -- each window leaves fewer lines
  induction hleft : ls.length - cursor using Nat.strongRecOn generalizing cursor previous with
  | ind left ih =>
    by_cases hc : cursor < ls.length
    · cases hw : s.windowAt ls cursor previous with
      | error e =>
        have hnext : s.next (.lines ls cursor previous) = (some (.error e), .ended) := by
          simp [next, nextLines, hc, hw]
        obtain ⟨first, last, he⟩ := windowAt_error hw
        refine ⟨[], cursor, [.error e], ?_, .done cursor, .failed he⟩
        rw [items_of_some hnext, items_ended]
        rfl
      | ok w =>
        have hnext : s.next (.lines ls cursor previous) =
            (some (.ok w), .lines ls (cursor + w.fresh) w.fresh) := by
          simp [next, nextLines, hc, hw]
        have hopens := windowAt_ok hc hw
        have hpos := hopens.fresh_pos
        obtain ⟨ws, stop, tail, hitems, hcut, hend⟩ :=
          ih (ls.length - (cursor + w.fresh)) (by omega) (cursor + w.fresh) w.fresh hopens.within rfl
        refine ⟨w :: ws, stop, tail, ?_, .next hopens hcut, hend⟩
        rw [items_of_some hnext, hitems]
        rfl
    · have hnext : s.next (.lines ls cursor previous) = (none, .ended) := by simp [next, nextLines, hc]
      refine ⟨[], cursor, [], ?_, .done cursor, .complete (by omega)⟩
      rw [items_of_none hnext]
      rfl

theorem items_whole {text : String} {n : Nat} (hn : s.count text = .ok n) (hover : s.budget < n) :
    s.windows text = (s.itemsFrom (.lines (Text.lines text) 0 0)).1 := by
  have hsame : s.next (.whole text) = s.next (.lines (Text.lines text) 0 0) := by
    simp only [next, hn, if_neg (Nat.not_le.mpr hover)]
  unfold windows
  cases hnext : s.next (.lines (Text.lines text) 0 0) with
  | mk item stage =>
    cases item with
    | none => rw [items_of_none (hsame.trans hnext), items_of_none hnext]
    | some item => rw [items_of_some (hsame.trans hnext), items_of_some hnext]

theorem windows_passed {text : String} {n : Nat} (hn : s.count text = .ok n) (hfit : n ≤ s.budget) :
    s.windows text = [.ok ⟨text, n, 0, (Text.lines text).length, false⟩] := by
  have hnext : s.next (.whole text) =
      (some (.ok ⟨text, n, 0, (Text.lines text).length, false⟩), .ended) := by simp [next, hn, hfit]
  rw [windows, items_of_some hnext, items_ended]

/-- The windows of a text: a failure to count it, the text by itself, or its lines cut into windows. -/
inductive Windowed (s : Splitter ε) (text : String) : Prop where
  | failed {e : ε} : s.count text = .error e → s.windows text = [.error e] → Windowed s text
  | passed {n : Nat} : s.count text = .ok n → n ≤ s.budget →
    s.windows text = [.ok ⟨text, n, 0, (Text.lines text).length, false⟩] → Windowed s text
  | cut {n stop : Nat} {ws : List Window} {tail : List (Except ε Window)} : s.count text = .ok n →
    s.budget < n → s.windows text = ws.map .ok ++ tail → s.Cut (Text.lines text) 0 ws stop →
    s.Ending (Text.lines text) stop tail → Windowed s text

theorem windowed (s : Splitter ε) (text : String) : s.Windowed text := by
  cases hn : s.count text with
  | error e =>
    have hnext : s.next (.whole text) = (some (.error e), .ended) := by simp [next, hn]
    refine .failed hn ?_
    rw [windows, items_of_some hnext, items_ended]
  | ok n =>
    by_cases hfit : n ≤ s.budget
    · exact .passed hn hfit (windows_passed hn hfit)
    · obtain ⟨ws, stop, tail, hitems, hcut, hend⟩ := items_lines (s := s) 0 0 (Nat.zero_le (Text.lines text).length)
      exact .cut hn (by omega) ((items_whole hn (by omega)).trans hitems) hcut hend

/-! ## Coverage -/

/-- **Coverage.** A text within the budget is passed on as it is, as the one window that is not oversized. Any
other is cut into windows, each of which contributes lines, as many as it says, and which contribute the lines
of the text one after another; so is a text of one line over the budget, whose only window is oversized. Only a
failure of the counter, on the text or on a run of its lines, ends the windows before. -/
theorem windows_cover (s : Splitter ε) (text : String) :
    (∃ (ws : List Window) (e : ε) (t : String), s.windows text = ws.map .ok ++ [.error e] ∧
      s.count t = .error e ∧ (t = text ∨ ∃ first last, t = run (Text.lines text) first last)) ∨
    ∃ (ws : List Window) (n : Nat), s.windows text = ws.map .ok ∧ s.count text = .ok n ∧
      (n ≤ s.budget → ws = [⟨text, n, 0, (Text.lines text).length, false⟩]) ∧
      ((∃ w, ws = [w] ∧ w.text = text ∧ w.oversized = false) ↔ n ≤ s.budget) ∧
      (s.budget < n → ws.flatMap Window.contributed = Text.lines text ∧
        ∀ w ∈ ws, w.contributed.length = w.fresh ∧ 0 < w.fresh) := by
  cases s.windowed text with
  | @failed e hn hall => exact .inl ⟨[], e, text, hall, hn, .inl rfl⟩
  | @passed n hn hfit hall =>
    refine .inr ⟨[⟨text, n, 0, (Text.lines text).length, false⟩], n, hall, hn, fun _ => rfl, ?_, ?_⟩
    · exact ⟨fun _ => hfit, fun _ => ⟨_, rfl, rfl, rfl⟩⟩
    · intro hover
      omega
  | @cut n stop ws tail hn hover hall hcut hend =>
    cases hend with
    | @failed e first last he => exact .inl ⟨ws, e, _, hall, he, .inr ⟨first, last, rfl⟩⟩
    | complete hstop =>
      have hls : ∀ l ∈ Text.lines text, '\n' ∉ l.toList := fun l hl => Text.newline_not_mem_lines hl
      have hopens := hcut.opens
      rw [List.append_nil] at hall
      refine .inr ⟨ws, n, hall, hn, fun hfit => by omega, ⟨?_, fun hfit => by omega⟩, fun _ => ⟨?_, ?_⟩⟩
      · -- a window that is not oversized is within the budget, so its text is not the whole
        rintro ⟨w, rfl, htext, hfits⟩
        obtain ⟨k, hw⟩ := hopens w (List.mem_singleton_self w)
        have hsame := hw.count
        rw [htext, hn] at hsame
        cases hsame
        exact hw.fits hfits
      · rw [hcut.contributed hls, hstop]
        simp
      · intro w hw
        obtain ⟨k, hw⟩ := hopens w hw
        have hwithin := hw.within
        refine ⟨?_, hw.fresh_pos⟩
        rw [hw.contributed hls, List.length_take, List.length_drop]
        omega

/-! ## Budget -/

/-- A window tells its own count, and is within the budget unless it is a line by itself and marked so. -/
structure Told (s : Splitter ε) (text : String) (w : Window) : Prop where
  count : s.count w.text = .ok w.tokens
  fits : w.oversized = false → w.tokens ≤ s.budget
  alone : w.oversized = true → w.text ∈ Text.lines text ∧ w.overlap = 0 ∧ w.fresh = 1 ∧ s.budget < w.tokens

theorem Windowed.told {text : String} {w : Window} (h : s.Windowed text) (hw : .ok w ∈ s.windows text) :
    s.Told text w := by
  cases h with
  | failed _ hall =>
    rw [hall] at hw
    simp at hw
  | passed hn hfit hall =>
    rw [hall] at hw
    simp only [List.mem_singleton, Except.ok.injEq] at hw
    subst hw
    exact ⟨hn, fun _ => hfit, nofun⟩
  | cut _ _ hall hcut hend =>
    rw [hall, List.mem_append] at hw
    rcases hw with hw | hw
    · obtain ⟨v, hv, he⟩ := List.mem_map.mp hw
      cases he
      obtain ⟨k, hopens⟩ := hcut.opens w hv
      exact ⟨hopens.count, hopens.fits, fun hover => ⟨hopens.line hover, hopens.alone hover⟩⟩
    · cases hend <;> simp at hw

/-- The mark follows from the text, since the same text is always counted the same. -/
theorem Told.oversized_iff {text : String} {w : Window} (h : s.Told text w) {n : Nat}
    (hn : s.count w.text = .ok n) : w.oversized = true ↔ s.budget < n := by
  have hsame := h.count
  rw [hn] at hsame
  cases hsame
  cases hb : w.oversized with
  | true => exact iff_of_true rfl (h.alone hb).2.2.2
  | false => exact iff_of_false nofun (Nat.not_lt.mpr (h.fits hb))

/-- **The budget is kept.** A window tells its own count. It is within the budget unless it is oversized, and
it is oversized just when it is a line of the text that alone is over the budget; then it repeats nothing. So a
line that fits by itself is never given up as oversized. -/
theorem windows_within_budget (s : Splitter ε) (text : String) {w : Window} (h : .ok w ∈ s.windows text) :
    s.count w.text = .ok w.tokens ∧
      (w.oversized = false → w.tokens ≤ s.budget) ∧
      (w.oversized = true ↔ w.text ∈ Text.lines text ∧ ∃ n, s.count w.text = .ok n ∧ s.budget < n) ∧
      (w.oversized = true → w.overlap = 0 ∧ w.fresh = 1) ∧
      ∀ line ∈ Text.lines text, ∀ n, s.count line = .ok n → n ≤ s.budget →
        ¬ (w.oversized = true ∧ w.text = line) := by
  have ht := (s.windowed text).told h
  refine ⟨ht.count, ht.fits, ⟨fun hover => ?_, ?_⟩, fun hover => ?_, ?_⟩
  · exact ⟨(ht.alone hover).1, w.tokens, ht.count, (ht.oversized_iff ht.count).mp hover⟩
  · rintro ⟨_, n, hn, hlt⟩
    exact (ht.oversized_iff hn).mpr hlt
  · exact ⟨(ht.alone hover).2.1, (ht.alone hover).2.2.1⟩
  · rintro line _ n hn hfit ⟨hover, rfl⟩
    exact absurd ((ht.oversized_iff hn).mp hover) (Nat.not_lt.mpr hfit)

/-- Words are counted, two at most to a window, which repeats one line. -/
def sample : Splitter Empty := ⟨fun t => .ok (CountingUnit.words.measure t), 2, 1, by decide⟩

theorem windows_within_budget_sample :
    Except.ok ⟨"c d e", 3, 0, 1, true⟩ ∈ sample.windows "a\nb\nc d e\nf" ∧
      "c d e" ∈ Text.lines "a\nb\nc d e\nf" ∧ ∃ n, sample.count "c d e" = .ok n ∧ sample.budget < n := by
  have hsome : Window.mk "c d e" 3 0 1 true ∈ (sample.windows "a\nb\nc d e\nf").filterMap Except.toOption := by
    decide +kernel
  obtain ⟨item, hmem, hitem⟩ := List.mem_filterMap.mp hsome
  cases item with
  | error e => cases hitem
  | ok w =>
    cases hitem
    obtain ⟨_, _, hover, _⟩ := sample.windows_within_budget _ hmem
    exact ⟨hmem, hover.mp rfl⟩

end Splitter

end CodeCorpus
