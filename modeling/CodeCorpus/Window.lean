import CodeCorpus.Fault
import CodeCorpus.Text.Lines

/-!
# Windows

A text over the token budget is cut into windows of whole lines, packed greedily. A window opens with
up to `overlap` of the lines that the window before it contributed; the budget takes precedence, so
lines of that opening are shed from its front until the first new line fits behind the rest. A line
that exceeds the budget by itself becomes a window of its own, marked oversized.
-/

namespace CodeCorpus

structure Window where
  text : String
  tokens : Nat
  /-- Lines repeated from the window before. -/
  overlap : Nat
  /-- Lines contributed for the first time. -/
  fresh : Nat
  /-- A single line that exceeds the budget by itself. -/
  oversized : Bool
  deriving DecidableEq, Repr

/-- How texts are cut: a token counter that may fail, a budget, and the overlap wanted. -/
structure Splitter (ε : Type) where
  count : String → Except ε Nat
  budget : Nat
  overlap : Nat
  budget_pos : 0 < budget

namespace Splitter

/-- A splitter, unless the budget is zero. -/
def make? (count : String → Except Fault Nat) (budget overlap : Nat) : Except Fault (Splitter Fault) :=
  if h : 0 < budget then .ok ⟨count, budget, overlap, h⟩
  else .error (.chunking (.invalidTokenBudget "max_tokens must be greater than 0"))

variable {ε : Type} (s : Splitter ε)

/-- The lines from `start` to `last`, both included, as one text. -/
def run (ls : List String) (start last : Nat) : String :=
  Text.unlines ((ls.drop start).take (last + 1 - start))

/-- The first start from `start` to `cursor` from which the lines up to `cursor` fit the budget, with
their text and count. -/
def firstFit (ls : List String) (cursor start : Nat) : Except ε (Option (Nat × String × Nat)) :=
  if start ≤ cursor then
    match s.count (run ls start cursor) with
    | .error e => .error e
    | .ok n =>
      if n ≤ s.budget then .ok (some (start, run ls start cursor, n))
      else firstFit ls cursor (start + 1)
  else .ok none
termination_by cursor + 1 - start

/-- The lines from `start` to before `stop`, whose text and count are given, extended line by line
while they fit: the line after the last, the text and its count. -/
def extend (ls : List String) (start stop : Nat) (text : String) (n : Nat) :
    Except ε (Nat × String × Nat) :=
  if stop < ls.length then
    match s.count (run ls start stop) with
    | .error e => .error e
    | .ok m =>
      if m ≤ s.budget then extend ls start (stop + 1) (run ls start stop) m
      else .ok (stop, text, n)
  else .ok (stop, text, n)
termination_by ls.length - stop

theorem extend_ge {ls : List String} {start stop : Nat} {text : String} {n : Nat}
    {result : Nat × String × Nat} (h : s.extend ls start stop text n = .ok result) :
    stop ≤ result.1 := by
  fun_induction extend s ls start stop text n with
  | case1 => simp at h
  | case2 stop text n _ m _ _ ih => have := ih h; omega
  | case3 => cases h; exact Nat.le_refl _
  | case4 => cases h; exact Nat.le_refl _

/-- The window that contributes the line at `cursor` first, after one that contributed `previous`
lines. -/
def windowAt (ls : List String) (cursor previous : Nat) : Except ε Window :=
  match s.firstFit ls cursor (cursor - min previous s.overlap) with
  | .error e => .error e
  | .ok (some (start, text, n)) =>
    match s.extend ls start (cursor + 1) text n with
    | .error e => .error e
    | .ok (stop, text, n) => .ok ⟨text, n, cursor - start, stop - cursor, false⟩
  | .ok none =>
    match s.count (run ls cursor cursor) with
    | .error e => .error e
    | .ok n => .ok ⟨run ls cursor cursor, n, 0, 1, true⟩

theorem windowAt_fresh_pos {ls : List String} {cursor previous : Nat} {w : Window}
    (h : s.windowAt ls cursor previous = .ok w) : 0 < w.fresh := by
  unfold windowAt at h
  split at h
  · simp at h
  · split at h
    · simp at h
    · next he =>
      have := s.extend_ge he
      cases h
      simp only at this ⊢
      omega
  · split at h
    · simp at h
    · cases h; exact Nat.one_pos

/-! ## One window after another -/

/-- Where the cutting of a text is. -/
inductive Stage where
  /-- Nothing has been measured yet. -/
  | whole (text : String)
  /-- The lines before `cursor` are in windows, of which the last contributed `previous`. -/
  | lines (ls : List String) (cursor previous : Nat)
  /-- There are no more windows. -/
  | ended

/-- A bound on the windows left. -/
def Stage.left : Stage → Nat
  | .whole text => (Text.lines text).length + 2
  | .lines ls cursor _ => ls.length - cursor + 1
  | .ended => 0

def nextLines (ls : List String) (cursor previous : Nat) : Option (Except ε Window) × Stage :=
  if cursor < ls.length then
    match s.windowAt ls cursor previous with
    | .error e => (some (.error e), .ended)
    | .ok w => (some (.ok w), .lines ls (cursor + w.fresh) w.fresh)
  else (none, .ended)

/-- The next window. A text within the budget is a window by itself. After a failure of the counter
there are no more. -/
def next : Stage → Option (Except ε Window) × Stage
  | .whole text =>
    match s.count text with
    | .error e => (some (.error e), .ended)
    | .ok n =>
      if n ≤ s.budget then (some (.ok ⟨text, n, 0, (Text.lines text).length, false⟩), .ended)
      else s.nextLines (Text.lines text) 0 0
  | .lines ls cursor previous => s.nextLines ls cursor previous
  | .ended => (none, .ended)

theorem nextLines_left_lt {ls : List String} {cursor previous : Nat} {item : Except ε Window}
    {stage : Stage} (h : s.nextLines ls cursor previous = (some item, stage)) :
    stage.left < ls.length - cursor + 1 := by
  unfold nextLines at h
  split at h
  · split at h
    · cases h; simp [Stage.left]
    · next hw =>
      cases h
      have := s.windowAt_fresh_pos hw
      simp only [Stage.left]
      omega
  · simp at h

theorem next_left_lt {from_ stage : Stage} {item : Except ε Window}
    (h : s.next from_ = (some item, stage)) : stage.left < from_.left := by
  cases from_ with
  | whole text =>
    simp only [next] at h
    split at h
    · cases h; simp [Stage.left]
    · split at h
      · cases h; simp [Stage.left]
      · have := s.nextLines_left_lt h
        change stage.left < (Text.lines text).length + 2
        omega
  | lines ls cursor previous => exact s.nextLines_left_lt h
  | ended => simp [next] at h

/-- All items from a stage on, and the stage after the last. -/
def itemsFrom (stage : Stage) : List (Except ε Window) × Stage :=
  match _h : s.next stage with
  | (some item, stage') =>
    let (items, final) := itemsFrom stage'
    (item :: items, final)
  | (none, stage') => ([], stage')
termination_by stage.left
decreasing_by exact s.next_left_lt ‹_›

/-- The windows of a text in order, and a failure of the counter as the last item. -/
def windows (text : String) : List (Except ε Window) := (s.itemsFrom (.whole text)).1

end Splitter

end CodeCorpus
