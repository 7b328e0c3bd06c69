import CodeCorpus.Fault
import CodeCorpus.Uuid

/-!
# Actions

An action runs in a world of any type: it may fail, and the world it leaves behind counts also when it
fails. Stores, embedding providers and file systems are given as records of actions, so that one
definition of a run serves every world.
-/

namespace CodeCorpus

/-- What a run does to a world of type `ω`: a value or a fault, and the world after it. -/
def Action (ω α : Type) : Type := ω → Except Fault α × ω

namespace Action

variable {ω α β : Type}

instance : Monad (Action ω) where
  pure a := fun w => (.ok a, w)
  bind x f := fun w =>
    match x w with
    | (.ok a, w') => f a w'
    | (.error e, w') => (.error e, w')

/-- Fails and leaves the world as it is. -/
def fail (f : Fault) : Action ω α := fun w => (.error f, w)

/-- The value or fault of a computation without effects. -/
def ofExcept (r : Except Fault α) : Action ω α := fun w => (r, w)

/-- Reads something off the world and may change it; never fails. -/
def ofState (f : ω → α × ω) : Action ω α := fun w => (.ok (f w).1, (f w).2)

/-- Changes the world; never fails. -/
def change (f : ω → ω) : Action ω Unit := fun w => (.ok (), f w)

/-- The result of an action, whether it fails or not. -/
def attempt (x : Action ω α) : Action ω (Except Fault α) := fun w => (.ok (x w).1, (x w).2)

/-- An action whose fault, if any, stands under a message. -/
def within (context : String) (x : Action ω α) : Action ω α := fun w =>
  (Except.within context (x w).1, (x w).2)

theorem bind_run_ok {x : Action ω α} {f : α → Action ω β} {w w' : ω} {a : α}
    (h : x w = (.ok a, w')) : (x >>= f) w = f a w' := by
  change (match x w with | (.ok a, w') => f a w' | (.error e, w') => (.error e, w')) = _
  rw [h]

theorem bind_run_error {x : Action ω α} {f : α → Action ω β} {w w' : ω} {e : Fault}
    (h : x w = (.error e, w')) : (x >>= f) w = (.error e, w') := by
  change (match x w with | (.ok a, w') => f a w' | (.error e, w') => (.error e, w')) = _
  rw [h]

theorem within_run_ok {x : Action ω α} {w w' : ω} {a : α} (context : String) (h : x w = (.ok a, w')) :
    x.within context w = (.ok a, w') := by
  unfold within; rw [h]; rfl

theorem within_run_error {x : Action ω α} {w w' : ω} {e : Fault} (context : String)
    (h : x w = (.error e, w')) : x.within context w = (.error (e.within context), w') := by
  unfold within; rw [h]; rfl

theorem attempt_run {x : Action ω α} {w w' : ω} {r : Except Fault α} (h : x w = (r, w')) :
    x.attempt w = (.ok r, w') := by
  unfold attempt; rw [h]

end Action

/-- What a run depends on besides its input: whether it has been cancelled, fresh identifiers, and the
time in seconds. -/
structure Conditions (ω : Type) where
  cancelled : ω → Bool × ω
  freshId : ω → Uuid × ω
  now : ω → Int × ω

end CodeCorpus
