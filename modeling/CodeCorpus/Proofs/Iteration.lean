import CodeCorpus.Proofs.Windows
import Mathlib.Algebra.Order.Ring.Nat

/-!
# Windows call by call

A caller asks for one window after another, and may ask on after the last. Each answer is worked out from where
the calls before have left the cursor; here it is worked out a second time with every index and every difference
checked (`next?`), packing first and shedding only where not one line fits. In the stages where no more lines
have been contributed last than are behind the cursor, and no more are behind it than there are (`Stage.Sound`),
the checks pass and both agree, and calls never leave these stages.
-/

namespace CodeCorpus

namespace Splitter

variable {ε : Type} {s : Splitter ε} {ls : List String}

/-! ## Checked steps -/

inductive Checked (ε α : Type) where
  | ok (a : α)
  /-- The counter fails. -/
  | failed (e : ε)
  /-- An index or a difference is out of range. -/
  | astray

namespace Checked

instance : Monad (Checked ε) where
  pure := ok
  bind
    | ok a, f => f a
    | failed e, _ => failed e
    | astray, _ => astray

def ofExcept {α : Type} : Except ε α → Checked ε α
  | .ok a => ok a
  | .error e => failed e

@[simp] theorem ok_bind {α β : Type} (a : α) (f : α → Checked ε β) : (ok a >>= f) = f a := rfl

@[simp] theorem failed_bind {α β : Type} (e : ε) (f : α → Checked ε β) : (failed e >>= f) = failed e := rfl

@[simp] theorem pure_eq {α : Type} (a : α) : (pure a : Checked ε α) = ok a := rfl

end Checked

def difference? (a b : Nat) : Checked ε Nat := if b ≤ a then .ok (a - b) else .astray

def line? (ls : List String) (k : Nat) : Checked ε String :=
  match ls[k]? with
  | some line => .ok line
  | none => .astray

/-- The lines from `start` to `last`, if there is such a stretch. -/
def stretch? (ls : List String) (start last : Nat) : Checked ε String :=
  if start ≤ last + 1 ∧ last < ls.length then .ok (run ls start last) else .astray

def count? (s : Splitter ε) (text : String) : Checked ε Nat := .ofExcept (s.count text)

/-- The lines from `start` to before `stop`, extended line by line while they fit: where they end, and the last
text that fitted with its count. -/
def pack? (s : Splitter ε) (ls : List String) (start stop : Nat) (fitted : Option (String × Nat)) :
    Checked ε (Nat × Option (String × Nat)) :=
  if stop < ls.length then do
    let text ← stretch? ls start stop
    let n ← s.count? text
    if n ≤ s.budget then pack? s ls start (stop + 1) (some (text, n)) else return (stop, fitted)
  else return (stop, fitted)
termination_by ls.length - stop

/-- The first start from which the line at `cursor` fits. -/
def shed? (s : Splitter ε) (ls : List String) (cursor start : Nat) : Checked ε (Option (Nat × String × Nat)) :=
  if start ≤ cursor then do
    let text ← stretch? ls start cursor
    let n ← s.count? text
    if n ≤ s.budget then return some (start, text, n) else shed? s ls cursor (start + 1)
  else return none
termination_by cursor + 1 - start

/-- The window from `start` to before `stop`, if anything fitted. -/
def made? (cursor start stop : Nat) : Option (String × Nat) → Checked ε (Option Window)
  | none => return none
  | some (text, n) => do
    let fresh ← difference? stop cursor
    let overlap ← difference? cursor start
    return some ⟨text, n, overlap, fresh, false⟩

def windowAt? (s : Splitter ε) (ls : List String) (cursor previous : Nat) : Checked ε (Option Window) := do
  let start ← difference? cursor (min previous s.overlap)
  let (stop, fitted) ← s.pack? ls start cursor none
  if stop = cursor then
    match ← s.shed? ls cursor (start + 1) with
    | some (start, text, n) =>
      let (stop, packed) ← s.pack? ls start (cursor + 1) none
      made? cursor start stop (packed.or (some (text, n)))
    | none =>
      let line ← line? ls cursor
      let n ← s.count? line
      return some ⟨line, n, 0, 1, true⟩
  else made? cursor start stop fitted

def nextLines? (s : Splitter ε) (ls : List String) (cursor previous : Nat) :
    Option (Option (Except ε Window) × Stage) :=
  if cursor < ls.length then
    match s.windowAt? ls cursor previous with
    | .astray => none
    | .failed e => some (some (.error e), .ended)
    | .ok (some w) => some (some (.ok w), .lines ls (cursor + w.fresh) w.fresh)
    | .ok none => some (none, .lines ls cursor previous)
  else some (none, .ended)

/-- The next window, if all checks on the way pass. -/
def next? (s : Splitter ε) : Stage → Option (Option (Except ε Window) × Stage)
  | .whole text =>
    match s.count text with
    | .error e => some (some (.error e), .ended)
    | .ok n =>
      if n ≤ s.budget then some (some (.ok ⟨text, n, 0, (Text.lines text).length, false⟩), .ended)
      else s.nextLines? (Text.lines text) 0 0
  | .lines ls cursor previous => s.nextLines? ls cursor previous
  | .ended => some (none, .ended)

/-! ## The checks pass -/

theorem difference?_eq {a b : Nat} (h : b ≤ a) : difference? (ε := ε) a b = .ok (a - b) := if_pos h

theorem stretch?_eq {start last : Nat} (h : start ≤ last + 1) (hlast : last < ls.length) :
    stretch? (ε := ε) ls start last = .ok (run ls start last) := if_pos ⟨h, hlast⟩

theorem line?_eq {k : Nat} (hk : k < ls.length) : line? (ε := ε) ls k = .ok (run ls k k) := by
  rw [line?, List.getElem?_eq_getElem hk, run_self hk]

theorem made?_eq {cursor start stop n : Nat} {text : String} (hstart : start ≤ cursor) (hstop : cursor ≤ stop) :
    made? (ε := ε) cursor start stop (some (text, n)) = .ok (some ⟨text, n, cursor - start, stop - cursor, false⟩) := by
  simp [made?, difference?_eq hstart, difference?_eq hstop]

/-- Packing from a text that fits is extending it. -/
theorem pack?_some {start stop n : Nat} {text : String} (hstart : start ≤ stop) :
    s.pack? ls start stop (some (text, n)) =
      .ofExcept ((s.extend ls start stop text n).map fun r => (r.1, some r.2)) := by
  fun_induction extend s ls start stop text n with
  | case1 stop text n hlt e he =>
    rw [pack?]
    simp [hlt, stretch?_eq (Nat.le_succ_of_le hstart) hlt, count?, he, Checked.ofExcept, Except.map]
  | case2 stop text n hlt m hm hfit ih =>
    rw [pack?]
    simp [hlt, stretch?_eq (Nat.le_succ_of_le hstart) hlt, count?, hm, hfit, Checked.ofExcept,
      ih (Nat.le_succ_of_le hstart)]
  | case3 stop text n hlt m hm hover =>
    rw [pack?]
    simp [hlt, stretch?_eq (Nat.le_succ_of_le hstart) hlt, count?, hm, hover, Checked.ofExcept, Except.map]
  | case4 stop text n hge =>
    rw [pack?]
    simp [hge, Checked.ofExcept, Except.map]

theorem shed?_eq {cursor start : Nat} (hc : cursor < ls.length) :
    s.shed? ls cursor start = .ofExcept (s.firstFit ls cursor start) := by
  fun_induction firstFit s ls cursor start with
  | case1 start hle e he =>
    rw [shed?]
    simp [hle, stretch?_eq (Nat.le_succ_of_le hle) hc, count?, he, Checked.ofExcept]
  | case2 start hle n hn hfit =>
    rw [shed?]
    simp [hle, stretch?_eq (Nat.le_succ_of_le hle) hc, count?, hn, hfit, Checked.ofExcept]
  | case3 start hle n hn hover ih =>
    rw [shed?]
    simp [hle, stretch?_eq (Nat.le_succ_of_le hle) hc, count?, hn, hover, Checked.ofExcept, ih]
  | case4 start hgt =>
    rw [shed?]
    simp [hgt, Checked.ofExcept]

theorem pack?_none {start stop : Nat} (hstart : start ≤ stop) (hlt : stop < ls.length) :
    s.pack? ls start stop none =
      match s.count (run ls start stop) with
      | .error e => .failed e
      | .ok n =>
        if n ≤ s.budget then
          .ofExcept ((s.extend ls start (stop + 1) (run ls start stop) n).map fun r => (r.1, some r.2))
        else .ok (stop, none) := by
  rw [pack?]
  cases hn : s.count (run ls start stop) with
  | error e => simp [hlt, stretch?_eq (Nat.le_succ_of_le hstart) hlt, count?, hn, Checked.ofExcept]
  | ok n =>
    by_cases hfit : n ≤ s.budget
    · simp [hlt, stretch?_eq (Nat.le_succ_of_le hstart) hlt, count?, hn, hfit, Checked.ofExcept,
        pack?_some (Nat.le_succ_of_le hstart)]
    · simp [hlt, stretch?_eq (Nat.le_succ_of_le hstart) hlt, count?, hn, hfit, Checked.ofExcept]

/-- A window made of what packing has fitted. -/
theorem made?_extended {cursor start stop n : Nat} {text : String} (hstart : start ≤ cursor) (hstop : cursor ≤ stop)
    (last : Option (String × Nat)) :
    ((Checked.ofExcept ((s.extend ls start stop text n).map fun r => (r.1, some r.2)) :
        Checked ε (Nat × Option (String × Nat))) >>= fun r => made? cursor start r.1 (r.2.or last)) =
      .ofExcept ((s.extend ls start stop text n).map fun r =>
        some ⟨r.2.1, r.2.2, cursor - start, r.1 - cursor, false⟩) := by
  cases hext : s.extend ls start stop text n with
  | error e => rfl
  | ok r =>
    have hge := s.extend_ge hext
    simp [Except.map, Checked.ofExcept, made?_eq hstart (Nat.le_trans hstop hge)]

theorem repack?_eq {cursor start n : Nat} {text : String} (hstart : start ≤ cursor) :
    (s.pack? ls start (cursor + 1) none >>= fun r => made? cursor start r.1 (r.2.or (some (text, n)))) =
      .ofExcept ((s.extend ls start (cursor + 1) text n).map fun r =>
        some ⟨r.2.1, r.2.2, cursor - start, r.1 - cursor, false⟩) := by
  by_cases hlt : cursor + 1 < ls.length
  · rw [pack?_none (Nat.le_succ_of_le hstart) hlt, extend, if_pos hlt]
    cases hm : s.count (run ls start (cursor + 1)) with
    | error e => rfl
    | ok m =>
      by_cases hfit : m ≤ s.budget
      · simp only [hfit, if_true]
        exact made?_extended hstart (by omega) _
      · simp only [hfit, if_false]
        exact made?_eq hstart (Nat.le_succ cursor)
  · rw [pack?, if_neg hlt, extend, if_neg hlt]
    exact made?_eq hstart (Nat.le_succ cursor)

/-- Checked or not, the window is the same, and there is one. -/
theorem windowAt?_eq {cursor previous : Nat} (hp : previous ≤ cursor) (hc : cursor < ls.length) :
    s.windowAt? ls cursor previous = .ofExcept ((s.windowAt ls cursor previous).map some) := by
  have hstart : cursor - min previous s.overlap ≤ cursor := Nat.sub_le _ _
  rw [windowAt?, difference?_eq (Nat.le_trans (Nat.min_le_left _ _) hp), windowAt]
  generalize cursor - min previous s.overlap = start at hstart ⊢
  rw [Checked.ok_bind, pack?_none hstart hc, firstFit, if_pos hstart]
  cases hn : s.count (run ls start cursor) with
  | error e => rfl
  | ok n =>
    by_cases hfit : n ≤ s.budget
    · simp only [hfit, if_true]
      cases hext : s.extend ls start (cursor + 1) (run ls start cursor) n with
      | error e => rfl
      | ok r =>
        have hge := s.extend_ge hext
        have hne : r.1 ≠ cursor := by omega
        simp only [Except.map, Checked.ofExcept, Checked.ok_bind, hne, if_false]
        exact made?_eq hstart (by omega)
    · simp only [hfit, if_false, Checked.ok_bind, if_true, shed?_eq hc]
      cases hfirst : s.firstFit ls cursor (start + 1) with
      | error e => rfl
      | ok found =>
        cases found with
        | none =>
          simp only [Checked.ofExcept, Checked.ok_bind, line?_eq hc, count?]
          cases s.count (run ls cursor cursor) <;> rfl
        | some found =>
          obtain ⟨start', text, m⟩ := found
          have hle := (firstFit_some hfirst).1
          refine (repack?_eq hle).trans ?_
          dsimp only
          cases s.extend ls start' (cursor + 1) text m <;> rfl

/-! ## Stages that calls reach -/

/-- What the checks rely on. -/
def Stage.Sound (text : String) : Stage → Prop
  | .whole t => t = text
  | .lines ls cursor previous => ls = Text.lines text ∧ previous ≤ cursor ∧ cursor ≤ ls.length
  | .ended => True

theorem nextLines?_eq {cursor previous : Nat} (hp : previous ≤ cursor) :
    s.nextLines? ls cursor previous = some (s.nextLines ls cursor previous) := by
  unfold nextLines? nextLines
  by_cases hc : cursor < ls.length
  · rw [if_pos hc, if_pos hc, windowAt?_eq hp hc]
    cases s.windowAt ls cursor previous <;> rfl
  · rw [if_neg hc, if_neg hc]

theorem next?_eq {text : String} {stage : Stage} (h : stage.Sound text) : s.next? stage = some (s.next stage) := by
  cases stage with
  | whole t =>
    simp only [next?, next]
    cases s.count t with
    | error e => rfl
    | ok n =>
      by_cases hfit : n ≤ s.budget
      · simp only [hfit, if_true]
      · simp only [hfit, if_false]
        exact nextLines?_eq (Nat.le_refl 0)
  | lines ls cursor previous => exact nextLines?_eq h.2.1
  | ended => rfl

theorem nextLines_sound {text : String} {cursor previous : Nat} :
    (s.nextLines (Text.lines text) cursor previous).2.Sound text := by
  unfold nextLines
  by_cases hlt : cursor < (Text.lines text).length
  · rw [if_pos hlt]
    cases hw : s.windowAt (Text.lines text) cursor previous with
    | error e => trivial
    | ok w => exact ⟨rfl, Nat.le_add_left _ _, (windowAt_ok hlt hw).within⟩
  · rw [if_neg hlt]
    trivial

theorem next_sound {text : String} {stage : Stage} (h : stage.Sound text) : (s.next stage).2.Sound text := by
  cases stage with
  | whole t =>
    cases h
    simp only [next]
    cases s.count text with
    | error e => trivial
    | ok n =>
      by_cases hfit : n ≤ s.budget
      · simp only [hfit, if_true]
        trivial
      · simp only [hfit, if_false]
        exact nextLines_sound
  | lines ls cursor previous =>
    obtain ⟨rfl, _, _⟩ := h
    exact nextLines_sound
  | ended => trivial

/-! ## One call after another -/

/-- The stage after `n` calls. -/
def after (s : Splitter ε) : Nat → Stage → Stage
  | 0, stage => stage
  | n + 1, stage => after s n (s.next stage).2

theorem after_sound {text : String} : ∀ (n : Nat) {stage : Stage}, stage.Sound text → (s.after n stage).Sound text
  | 0, _, h => h
  | n + 1, _, h => after_sound n (next_sound h)

theorem after_ended : ∀ n, s.after n .ended = .ended
  | 0 => rfl
  | n + 1 => after_ended n

theorem ended_of_next_none {stage stage' : Stage} (h : s.next stage = (none, stage')) : stage' = .ended := by
  have hlines : ∀ {ls cursor previous}, s.nextLines ls cursor previous = (none, stage') → stage' = .ended := by
    intro ls cursor previous h
    unfold nextLines at h
    split at h
    · split at h <;> cases h
    · cases h
      rfl
  cases stage with
  | whole text =>
    simp only [next] at h
    split at h
    · cases h
    · split at h
      · cases h
      · exact hlines h
  | lines ls cursor previous => exact hlines h
  | ended =>
    cases h
    rfl

/-- Each call gives the next item, and all calls after the last item give none. -/
theorem next_after : ∀ (n : Nat) (stage : Stage), (s.next (s.after n stage)).1 = (s.itemsFrom stage).1[n]?
  | n, stage => by
    cases hnext : s.next stage with
    | mk item stage' =>
      cases item with
      | none =>
        rw [items_of_none hnext, List.getElem?_nil]
        cases n with
        | zero => exact congrArg Prod.fst hnext
        | succ n =>
          rw [after, hnext, ended_of_next_none hnext, after_ended]
          rfl
      | some item =>
        rw [items_of_some hnext]
        cases n with
        | zero => exact congrArg Prod.fst hnext
        | succ n =>
          rw [after, hnext, List.getElem?_cons_succ]
          exact next_after n stage'

/-! ## What the calls give -/

theorem Cut.stop_le {cursor stop : Nat} {ws : List Window} (h : s.Cut ls cursor ws stop) (hc : cursor ≤ ls.length) :
    stop ≤ ls.length := by
  induction h with
  | done => exact hc
  | next hw _ ih => exact ih hw.within

theorem Cut.length_le {cursor stop : Nat} {ws : List Window} (h : s.Cut ls cursor ws stop) :
    cursor + ws.length ≤ stop := by
  induction h with
  | done => exact Nat.le_refl _
  | next hw _ ih =>
    have := hw.fresh_pos
    rw [List.length_cons]
    omega

/-- Windows that contribute just these lines, each as many as it says. -/
structure Covering (ws : List Window) (ls : List String) : Prop where
  contributed : ws.flatMap Window.contributed = ls
  fresh : ∀ w ∈ ws, w.contributed.length = w.fresh ∧ 0 < w.fresh

theorem Covering.nil : Covering [] [] := ⟨rfl, by simp⟩

theorem Cut.covering (hls : ∀ l ∈ ls, '\n' ∉ l.toList) {stop : Nat} {ws : List Window} (h : s.Cut ls 0 ws stop) :
    Covering ws (ls.take stop) := by
  refine ⟨h.contributed hls, ?_⟩
  intro w hw
  obtain ⟨_, hopens⟩ := h.opens w hw
  exact ⟨hopens.contributed_length hls, hopens.fresh_pos⟩

theorem Covering.fresh_sum {ws : List Window} (h : Covering ws ls) : (ws.map Window.fresh).sum = ls.length := by
  rw [← h.contributed, List.length_flatMap]
  exact congrArg List.sum (List.map_congr_left fun w hw => (h.fresh w hw).1.symm)

/-- **Calls.** One call after another gives windows, no more than there are lines or one, then a failure if the
counter fails, and from then on nothing. Without a failure all lines are contributed; the windows before one
contribute the first lines and no others. No call has an index or a difference out of range. -/
theorem calls_in_range (s : Splitter ε) (text : String) :
    ∃ (ws : List Window) (failure : Option ε),
      (∀ n, (s.next (s.after n (.whole text))).1 = (ws.map Except.ok ++ failure.toList.map Except.error)[n]?) ∧
      ws.length ≤ max 1 (Text.lines text).length ∧
      (failure = none → (ws.map Window.fresh).sum = (Text.lines text).length ∧
        ((∃ n ≤ s.budget, ws = [⟨text, n, 0, (Text.lines text).length, false⟩]) ∨ Covering ws (Text.lines text))) ∧
      (∀ e, failure = some e → (∃ k, Covering ws ((Text.lines text).take k)) ∧
        ∃ t, s.count t = .error e ∧ (t = text ∨ ∃ first last, t = run (Text.lines text) first last)) ∧
      ∀ n, s.next? (s.after n (.whole text)) = some (s.next (s.after n (.whole text))) := by
  have hchecks : ∀ n, s.next? (s.after n (.whole text)) = some (s.next (s.after n (.whole text))) := by
    intro n
    have hsound : (s.after n (.whole text)).Sound text := after_sound n rfl
    exact next?_eq hsound
  have hls : ∀ l ∈ Text.lines text, '\n' ∉ l.toList := fun l hl => Text.newline_not_mem_lines hl
  cases s.windowed text with
  | @failed e hn hall =>
    refine ⟨[], some e, ?_, Nat.zero_le _, ?_, ?_, hchecks⟩
    · intro n
      rw [next_after, ← windows, hall]
      rfl
    · intro hnone
      cases hnone
    · intro e' he'
      cases he'
      exact ⟨⟨0, .nil⟩, text, hn, .inl rfl⟩
  | @passed n hn hfit hall =>
    refine ⟨[⟨text, n, 0, (Text.lines text).length, false⟩], none, ?_, Nat.le_max_left _ _, ?_, ?_, hchecks⟩
    · intro k
      rw [next_after, ← windows, hall]
      rfl
    · intro _
      exact ⟨rfl, .inl ⟨n, hfit, rfl⟩⟩
    · intro e he
      cases he
  | @cut n stop ws tail hn hover hall hcut hend =>
    have hlength : ws.length ≤ (Text.lines text).length := by
      have h₁ := hcut.length_le
      have h₂ := hcut.stop_le (Nat.zero_le _)
      omega
    have hcover := hcut.covering hls
    have hitems : ∀ k, (s.next (s.after k (.whole text))).1 = (ws.map Except.ok ++ tail)[k]? := by
      intro k
      rw [next_after, ← windows, hall]
    cases hend with
    | complete hstop =>
      rw [hstop, List.take_length] at hcover
      refine ⟨ws, none, hitems, Nat.le_trans hlength (Nat.le_max_right _ _), ?_, ?_, hchecks⟩
      · intro _
        exact ⟨hcover.fresh_sum, .inr hcover⟩
      · intro e he
        cases he
    | @failed e first last he =>
      refine ⟨ws, some e, hitems, Nat.le_trans hlength (Nat.le_max_right _ _), ?_, ?_, hchecks⟩
      · intro hnone
        cases hnone
      · intro e' he'
        cases he'
        exact ⟨⟨stop, hcover⟩, _, he, .inr ⟨first, last, rfl⟩⟩

end Splitter

end CodeCorpus
