import CodeCorpus.Fault

/-!
# Exit statuses

The exit status of a failure is found on one walk along its causes, which ends at the first user fault. Still it
depends on nothing but which kinds of causes there are (`status_by_kinds`): not on their order, not on the messages
between them, and not on whether a cause is named a second time by the part it comes from.
-/

namespace CodeCorpus

/-- A bad argument or a bad value in the configuration. -/
inductive PartFault.OfUser : PartFault → Prop
  | input (f : InputFault) : OfUser (.input f)
  | value (key reason : String) : OfUser (.config (.invalidValue key reason))

/-- A fault that may be gone when the command is run again. -/
inductive PartFault.Passing : PartFault → Prop
  | timeout (seconds : Nat) : Passing (.embedding (.timeout seconds))
  | connection (reason : String) : Passing (.store (.connectionFailed reason))

namespace Cause

inductive OfUser : Cause → Prop
  | part {f : PartFault} (h : f.OfUser) : OfUser (.part f)
  | partOf {f : PartFault} (h : f.OfUser) : OfUser (.partOf f)

inductive Passing : Cause → Prop
  | part {f : PartFault} (h : f.Passing) : Passing (.part f)
  | partOf {f : PartFault} (h : f.Passing) : Passing (.partOf f)
  | system (reason : String) : Passing (.system reason)
  | systemOf (reason : String) : Passing (.systemOf reason)

/-- The first cause is a general one, and the others are what it encloses. -/
inductive Encloses : Cause → List Cause → Prop
  | part (f : PartFault) : Encloses (.partOf f) [.part f]
  | system (reason : String) : Encloses (.systemOf reason) [.system reason]
  | nothing (reason : String) : Encloses (.other reason) []

end Cause

/-! ## Kinds of causes -/

theorem PartFault.isUserFault_iff {f : PartFault} : f.isUserFault = true ↔ f.OfUser := by
  constructor
  · intro h
    cases f with
    | input f => exact .input f
    | config f =>
      cases f with
      | invalidValue key reason => exact .value key reason
      | _ => cases h
    | _ => cases h
  · rintro (_ | _) <;> rfl

theorem PartFault.isRetryable_iff {f : PartFault} : f.isRetryable = true ↔ f.Passing := by
  constructor
  · intro h
    cases f with
    | embedding f =>
      cases f with
      | timeout seconds => exact .timeout seconds
      | _ => cases h
    | store f =>
      cases f with
      | connectionFailed reason => exact .connection reason
      | _ => cases h
    | _ => cases h
  · rintro (_ | _) <;> rfl

namespace Cause

@[simp] theorem isUserFault_part (f : PartFault) : (Cause.part f).isUserFault = f.isUserFault := by
  cases f <;> rfl

@[simp] theorem isRetryable_part (f : PartFault) : (Cause.part f).isRetryable = f.isRetryable := by
  cases f <;> rfl

@[simp] theorem isUserFault_partOf (f : PartFault) : (Cause.partOf f).isUserFault = f.isUserFault := rfl

@[simp] theorem isRetryable_partOf (f : PartFault) : (Cause.partOf f).isRetryable = f.isRetryable := rfl

variable {c : Cause}

theorem isUserFault_iff : c.isUserFault = true ↔ c.OfUser := by
  constructor
  · intro h
    cases c with
    | part f => exact .part (PartFault.isUserFault_iff.mp (by simpa using h))
    | partOf f => exact .partOf (PartFault.isUserFault_iff.mp h)
    | _ => cases h
  · intro h
    cases h with
    | part h => simpa using PartFault.isUserFault_iff.mpr h
    | partOf h => exact PartFault.isUserFault_iff.mpr h

theorem isRetryable_iff : c.isRetryable = true ↔ c.Passing := by
  constructor
  · intro h
    cases c with
    | part f => exact .part (PartFault.isRetryable_iff.mp (by simpa using h))
    | partOf f => exact .partOf (PartFault.isRetryable_iff.mp h)
    | system reason => exact .system reason
    | systemOf reason => exact .systemOf reason
    | _ => cases h
  · intro h
    cases h with
    | part h => simpa using PartFault.isRetryable_iff.mpr h
    | partOf h => exact PartFault.isRetryable_iff.mpr h
    | _ => rfl

instance : DecidablePred OfUser := fun _ => decidable_of_iff _ isUserFault_iff

instance : DecidablePred Passing := fun _ => decidable_of_iff _ isRetryable_iff

/-- A fault that may be gone the next time is none that the user can mend. -/
theorem Passing.isUserFault_eq (h : c.Passing) : c.isUserFault = false := by
  cases h with
  | part h => cases h <;> rfl
  | partOf h => cases h <;> rfl
  | _ => rfl

/-- What a general cause encloses is of the same kind. -/
theorem Encloses.kinds {ds : List Cause} (h : c.Encloses ds) :
    ∀ d ∈ ds, d.isUserFault = c.isUserFault ∧ d.isRetryable = c.isRetryable := by
  cases h with
  | part f => simp
  | system reason => simp [isUserFault, isRetryable]
  | nothing reason => simp

theorem Encloses.any_eq {ds : List Cause} (h : c.Encloses ds) :
    (c :: ds).any isUserFault = c.isUserFault ∧ (c :: ds).any isRetryable = c.isRetryable := by
  cases h with
  | part f => simp
  | system reason => simp [isUserFault, isRetryable]
  | nothing reason => simp

end Cause

namespace Fault

/-! ## The walk along the causes -/

theorem statusFrom_eq (retryable : Bool) (cs : List Cause) :
    statusFrom retryable cs =
      if cs.any Cause.isUserFault then 2 else if retryable || cs.any Cause.isRetryable then 75 else 1 := by
  induction cs generalizing retryable with
  | nil => simp [statusFrom]
  | cons c cs ih =>
    unfold statusFrom
    by_cases hc : c.isUserFault <;> simp [hc, ih, Bool.or_assoc]

/-- The second chain has the causes of the first, with messages anywhere among them, and with general causes before
those that they enclose. -/
inductive Retold : List Cause → List Cause → Prop
  | nil : Retold [] []
  | keep (c : Cause) {cs ds : List Cause} (h : Retold cs ds) : Retold (c :: cs) (c :: ds)
  | context (text : String) {cs ds : List Cause} (h : Retold cs ds) : Retold cs (.doing text :: ds)
  | named {n c : Cause} (hn : n.Encloses [c]) {cs ds : List Cause} (h : Retold cs ds) : Retold (c :: cs) (n :: c :: ds)

theorem Retold.statusFrom_eq {cs ds : List Cause} (h : Retold cs ds) (retryable : Bool) :
    statusFrom retryable ds = statusFrom retryable cs := by
  induction h generalizing retryable with
  | nil => rfl
  | keep c _ ih => simp only [statusFrom, ih]
  | context text _ ih => simpa [statusFrom, Cause.isUserFault, Cause.isRetryable] using ih retryable
  | @named n c hn _ _ _ ih =>
    obtain ⟨huser, hretryable⟩ := hn.kinds c List.mem_cons_self
    by_cases hmend : n.isUserFault <;> simp [statusFrom, ih, huser, hretryable, hmend]

/-- **Exit statuses.** The status is 2 if any cause is a fault of the user, else 75 if any may be gone the next time,
else 1. So it stays the same when messages are added or causes are named by their parts, and that of a general cause
alone, with what it encloses, says of which kind it is. -/
theorem status_by_kinds :
    (∀ f : Fault, f.exitStatus =
      if ∃ c ∈ f.causes, c.OfUser then 2 else if ∃ c ∈ f.causes, c.Passing then 75 else 1) ∧
    (∀ cs ds, Retold cs ds → exitStatus ⟨ds⟩ = exitStatus ⟨cs⟩) ∧
    ∀ (c : Cause) (ds : List Cause), c.Encloses ds →
      (exitStatus ⟨c :: ds⟩ = 2 ↔ c.isUserFault = true) ∧ (exitStatus ⟨c :: ds⟩ = 75 ↔ c.isRetryable = true) := by
  refine ⟨?_, fun cs ds h => h.statusFrom_eq false, ?_⟩
  · intro f
    simp only [exitStatus, statusFrom_eq, List.any_eq_true, Cause.isUserFault_iff, Cause.isRetryable_iff, Bool.false_or]
  · intro c ds h
    have hstatus : exitStatus ⟨c :: ds⟩ = if c.isUserFault then 2 else if c.isRetryable then 75 else 1 := by
      rw [exitStatus, statusFrom_eq, h.any_eq.1, h.any_eq.2, Bool.false_or]
    rw [hstatus]
    by_cases hretry : c.isRetryable = true
    · have huser := (Cause.isRetryable_iff.mp hretry).isUserFault_eq
      simp [huser, hretry]
    · by_cases huser : c.isUserFault <;> simp [huser, hretry]

/-- A failed search, with a message below the named cause and one above it. -/
theorem status_by_kinds_search :
    let bare : List Cause := [.part (.embedding (.timeout 30)), .system "refused"]
    let told : List Cause := [.doing "Failed to search", .partOf (.embedding (.timeout 30)),
      .part (.embedding (.timeout 30)), .doing "Failed to connect", .systemOf "refused", .system "refused"]
    Retold bare told ∧ exitStatus ⟨told⟩ = exitStatus ⟨bare⟩ ∧ exitStatus ⟨bare⟩ = 75 ∧
      Cause.Encloses (.partOf (.input (.empty "query"))) [.part (.input (.empty "query"))] ∧
      exitStatus (.ofNamedPart (.input (.empty "query"))) = 2 := by
  intro bare told
  have htold : Retold bare told :=
    .context _ (.named (.part _) (.context _ (.named (.system _) .nil)))
  have hencloses := Cause.Encloses.part (.input (.empty "query"))
  refine ⟨htold, status_by_kinds.2.1 bare told htold, ?_, hencloses, ?_⟩
  · exact (status_by_kinds.1 ⟨bare⟩).trans (by decide)
  · exact (status_by_kinds.2.2 _ _ hencloses).1.mpr rfl

end Fault

end CodeCorpus
