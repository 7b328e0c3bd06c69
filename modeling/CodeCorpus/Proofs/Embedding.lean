import CodeCorpus.Chunking
import Mathlib.Data.List.Forall2

/-!
# What a document's embedding hands out and gives back

A run looks whether it is cancelled before each snippet and before each window, and hands a window's text to the
provider directly after the look that belongs to it. So a run is known from the turns that a source gives
(`Chunker.turns`) and from what was answered to them: a run in a world that keeps a log of the answers does the
same as in the world itself, and its log answers the turns one after another (`Transcript`). What has been handed
out, in which order the chunks come, and what a cancellation prevents are then read off the log.
-/

namespace CodeCorpus

variable {ω α β γ : Type}

/-! ## Worlds with a log -/

/-- What a run learns from its surroundings. -/
inductive Event where
  /-- Whether the run is cancelled. -/
  | looked (cancelled : Bool)
  /-- What the provider answers to a text. -/
  | answered (text : String) (reply : Reply)

/-- A world with the events so far, in order. -/
abbrev Logged (ω : Type) : Type := ω × List Event

def Conditions.logged (env : Conditions ω) : Conditions (Logged ω) :=
  { cancelled := fun w =>
      let (cancelled, next) := env.cancelled w.1
      (cancelled, next, w.2 ++ [.looked cancelled])
    freshId := fun w => ((env.freshId w.1).1, (env.freshId w.1).2, w.2)
    now := fun w => ((env.now w.1).1, (env.now w.1).2, w.2) }

def Provider.logged (p : Provider ω) : Provider (Logged ω) :=
  { dimension := p.dimension
    reply := fun timeout text w =>
      let (reply, next) := p.reply timeout text w.1
      (reply, next, w.2 ++ [.answered text reply]) }

def Chunker.logged (c : Chunker ω) : Chunker (Logged ω) :=
  { splitter := c.splitter, provider := c.provider.logged, timeout := c.timeout, prompt := c.prompt }

/-- The texts that were handed to the provider, with its answers. -/
def calls (log : List Event) : List (String × Reply) :=
  log.filterMap fun
    | .answered text reply => some (text, reply)
    | .looked _ => none

@[simp] theorem calls_nil : calls [] = [] := rfl

@[simp] theorem calls_looked (b : Bool) (log : List Event) : calls (.looked b :: log) = calls log := rfl

@[simp] theorem calls_answered (text : String) (reply : Reply) (log : List Event) :
    calls (.answered text reply :: log) = (text, reply) :: calls log := rfl

/-- The first action does in a world with a log what the second does in the world itself, and `P` holds of the
events that it adds and of its result. -/
def Action.Logs (x' : Action (Logged ω) α) (x : Action ω α) (P : List Event → Except Fault α → Prop) : Prop :=
  ∀ w log, ∃ r next new, x w = (r, next) ∧ x' (w, log) = (r, next, log ++ new) ∧ P new r

namespace Action.Logs

variable {x' : Action (Logged ω) α} {x : Action ω α} {P : List Event → Except Fault α → Prop}

theorem pure {a : α} (h : P [] (.ok a)) : Logs (ω := ω) (Pure.pure a) (Pure.pure a) P :=
  fun w log => ⟨.ok a, w, [], rfl, by rw [List.append_nil]; rfl, h⟩

theorem fail {f : Fault} (h : P [] (.error f)) : Logs (ω := ω) (Action.fail f) (Action.fail f) P :=
  fun w log => ⟨.error f, w, [], rfl, by rw [List.append_nil]; rfl, h⟩

theorem bind {f' : α → Action (Logged ω) β} {f : α → Action ω β} {Q : α → List Event → Except Fault β → Prop}
    {R : List Event → Except Fault β → Prop} (hx : Logs x' x P) (hf : ∀ a, Logs (f' a) (f a) (Q a))
    (herror : ∀ new e, P new (.error e) → R new (.error e))
    (hok : ∀ a new new' r, P new (.ok a) → Q a new' r → R (new ++ new') r) :
    Logs (x' >>= f') (x >>= f) R := by
  intro w log
  obtain ⟨r, next, new, hrun, hlogged, hP⟩ := hx w log
  cases r with
  | error e =>
    exact ⟨.error e, next, new, bind_run_error hrun, bind_run_error hlogged, herror new e hP⟩
  | ok a =>
    obtain ⟨r, last, new', hrun', hlogged', hQ⟩ := hf a next (log ++ new)
    refine ⟨r, last, new ++ new', ?_, ?_, hok a new new' r hP hQ⟩
    · rw [bind_run_ok hrun, hrun']
    · rw [bind_run_ok hlogged, hlogged', List.append_assoc]

theorem combine {y' : Action (Logged ω) β} {y : Action ω β} {Q : List Event → Except Fault β → Prop} {f : α → β → γ}
    {R : List Event → Except Fault γ → Prop} (hx : Logs x' x P) (hy : Logs y' y Q)
    (herror : ∀ new e, P new (.error e) → R new (.error e))
    (hok : ∀ a new new' r, P new (.ok a) → Q new' r → R (new ++ new') (r.map (f a))) :
    Logs (do let a ← x'; let b ← y'; return f a b) (do let a ← x; let b ← y; return f a b) R := by
  refine hx.bind (Q := fun a new' r => ∃ r₀, Q new' r₀ ∧ r = r₀.map (f a)) (fun a => ?_) herror ?_
  · refine hy.bind (Q := fun b new r => new = [] ∧ r = .ok (f a b)) (fun b => .pure ⟨rfl, rfl⟩) ?_ ?_
    · exact fun new e h => ⟨.error e, h, rfl⟩
    · rintro b new new' r h ⟨rfl, rfl⟩
      exact ⟨.ok b, by rwa [List.append_nil], rfl⟩
  · rintro a new new' r hP ⟨r₀, hQ, rfl⟩
    exact hok a new new' r₀ hP hQ

theorem freshId (env : Conditions ω) :
    Logs (ofState env.logged.freshId) (ofState env.freshId) fun new r => new = [] ∧ ∃ id, r = .ok id := by
  intro w log
  exact ⟨.ok (env.freshId w).1, (env.freshId w).2, [], rfl, by rw [List.append_nil]; rfl, rfl, _, rfl⟩

theorem checkCancelled (env : Conditions ω) :
    Logs (Chunker.checkCancelled env.logged) (Chunker.checkCancelled env) fun new r =>
      new = [.looked true] ∧ r = .error (.listing .cancelled) ∨ new = [.looked false] ∧ r = .ok () := by
  intro w log
  unfold Chunker.checkCancelled Conditions.logged
  cases h : env.cancelled w with
  | mk cancelled next =>
    cases cancelled with
    | true => exact ⟨_, next, _, rfl, by simp only [h]; rfl, .inl ⟨rfl, rfl⟩⟩
    | false => exact ⟨_, next, _, rfl, by simp only [h]; rfl, .inr ⟨rfl, rfl⟩⟩

theorem looking (env : Conditions ω) {R : List Event → Except Fault α → Prop} (hx : Logs x' x P)
    (hcancelled : R [.looked true] (.error (.listing .cancelled)))
    (hgo : ∀ new r, P new r → R (.looked false :: new) r) :
    Logs (do Chunker.checkCancelled env.logged; x') (do Chunker.checkCancelled env; x) R := by
  refine (checkCancelled env).bind (fun _ => hx) ?_ ?_
  · rintro new e (⟨rfl, ⟨⟩⟩ | ⟨-, ⟨⟩⟩)
    exact hcancelled
  · rintro _ new new' r (⟨-, ⟨⟩⟩ | ⟨rfl, -⟩) hP
    exact hgo new' r hP

theorem embed (p : Provider ω) (timeout : Nat) (text context : String) :
    Logs ((p.logged.embed timeout text).within context) ((p.embed timeout text).within context) fun new r =>
      ∃ reply, new = [.answered text reply] ∧ (∃ u, (p.reply timeout text u).1 = reply) ∧
        ((∃ v, reply.vector p.dimension timeout = .ok v ∧ r = .ok v) ∨
          ∃ f, reply.vector p.dimension timeout = .error f ∧ r = .error ((Fault.embedding f).within context)) := by
  intro w log
  unfold Action.within Provider.embed Provider.logged
  cases h : p.reply timeout text w with
  | mk reply next =>
    cases hv : reply.vector p.dimension timeout with
    | ok v => exact ⟨.ok v, next, [.answered text reply], by simp only [hv]; rfl, by simp only [h, hv]; rfl, reply, rfl,
        ⟨w, by rw [h]⟩, .inl ⟨v, hv, rfl⟩⟩
    | error f =>
      exact ⟨.error ((Fault.embedding f).within context), next, [.answered text reply], by simp only [hv]; rfl,
        by simp only [h, hv]; rfl, reply, rfl, ⟨w, by rw [h]⟩, .inr ⟨f, hv, rfl⟩⟩

end Action.Logs

/-! ## Turns -/

namespace Chunker

/-- What a run does next. -/
inductive Turn where
  /-- It looks whether it is cancelled. -/
  | look
  /-- It fails, as it could not measure. -/
  | fail (fault : Fault)
  /-- It hands out the text of a window. -/
  | embed (s : Snippet) (w : Window)

/-- The turns that an item of a snippet's cutting gives. -/
def Turn.ofItem (s : Snippet) : Except Fault Window → List Turn
  | .ok w => [.look, .embed s w]
  | .error f => [.fail (f.within s!"Failed to measure chunk of {s.typeName}")]

/-- The turns of a document, were nothing to stop it. -/
def turns (c : Chunker ω) (ss : List Snippet) : List Turn :=
  ss.flatMap fun s => .look :: (c.splitter.windows s.text).flatMap (Turn.ofItem s)

/-- The windows that a list of turns hands out. -/
def handed (ts : List Turn) : List (Snippet × Window) :=
  ts.filterMap fun
    | .embed s w => some (s, w)
    | _ => none

@[simp] theorem handed_nil : handed [] = [] := rfl

@[simp] theorem handed_look (ts : List Turn) : handed (.look :: ts) = handed ts := rfl

@[simp] theorem handed_fail (f : Fault) (ts : List Turn) : handed (.fail f :: ts) = handed ts := rfl

@[simp] theorem handed_embed (s : Snippet) (w : Window) (ts : List Turn) :
    handed (.embed s w :: ts) = (s, w) :: handed ts := rfl

/-- The chunk that a window of a snippet becomes with an identifier and a vector. -/
def chunkOf (owner : Uuid) (s : Snippet) (w : Window) (id : Uuid) (vector : Vector32) : Chunk :=
  { id, owner, vector
    namespaceName := s.namespaceName
    typeName := s.typeName
    memberName := s.memberName
    snippet := w.text
    tokens := w.tokens
    oversized := w.oversized }

/-- The turns `ts` taken one after another, with the events that answer them, up to the end or to the turn that
fails; and what the run results in. -/
inductive Transcript (c : Chunker ω) (owner : Uuid) : List Turn → List Event → Except Fault (List Chunk) → Prop
  | done : Transcript c owner [] [] (.ok [])
  | cancelled {ts} : Transcript c owner (.look :: ts) [.looked true] (.error (.listing .cancelled))
  | looked {ts log r} (rest : Transcript c owner ts log r) :
    Transcript c owner (.look :: ts) (.looked false :: log) r
  | unmeasured {f ts} : Transcript c owner (.fail f :: ts) [] (.error f)
  | refused {s w ts reply f} (refusal : reply.vector c.provider.dimension c.timeout = .error f) :
    Transcript c owner (.embed s w :: ts) [.answered (c.prompt ++ w.text) reply]
      (.error ((Fault.embedding f).within (s!"Failed to embed chunk of {s.typeName}." ++ s.memberName.getD "")))
  | embedded {s w ts reply v id log r} (given : ∃ u, (c.provider.reply c.timeout (c.prompt ++ w.text) u).1 = reply)
    (vector : reply.vector c.provider.dimension c.timeout = .ok v) (rest : Transcript c owner ts log r) :
    Transcript c owner (.embed s w :: ts) (.answered (c.prompt ++ w.text) reply :: log)
      (r.map (chunkOf owner s w id v :: ·))

section
variable {c : Chunker ω} {owner : Uuid} {ts ts' : List Turn} {log log' : List Event}

theorem Transcript.error_append {e : Fault} (h : Transcript c owner ts log (.error e)) (ts' : List Turn) :
    Transcript c owner (ts ++ ts') log (.error e) := by
  generalize hr : (Except.error e : Except Fault (List Chunk)) = r at h ⊢
  induction h with
  | done => cases hr
  | cancelled => exact .cancelled
  | looked _ ih => exact .looked (ih hr)
  | unmeasured => exact .unmeasured
  | refused refusal => exact .refused refusal
  | @embedded _ _ _ _ _ _ _ r given vector _ ih =>
    cases r with
    | ok => cases hr
    | error f =>
      cases hr
      exact .embedded given vector (ih rfl)

theorem Transcript.ok_append {chunks : List Chunk} {r : Except Fault (List Chunk)}
    (h : Transcript c owner ts log (.ok chunks)) (h' : Transcript c owner ts' log' r) :
    Transcript c owner (ts ++ ts') (log ++ log') (r.map (chunks ++ ·)) := by
  generalize hr : (Except.ok chunks : Except Fault (List Chunk)) = r₀ at h
  induction h generalizing chunks with
  | done =>
    cases hr
    cases r <;> exact h'
  | cancelled => cases hr
  | looked _ ih => exact .looked (ih hr)
  | unmeasured => cases hr
  | refused => cases hr
  | @embedded s w _ _ v id _ r₁ given vector _ ih =>
    cases r₁ with
    | error => cases hr
    | ok cs =>
      cases hr
      have hall := @Transcript.embedded _ c owner s w _ _ v id _ _ given vector (ih rfl)
      cases r <;> exact hall

end

/-! ## The turns of a run -/

section
variable (c : Chunker ω) (env : Conditions ω) (owner : Uuid)

theorem window_logs (s : Snippet) (item : Except Fault Window) :
    (c.logged.window env.logged owner s item).Logs (c.window env owner s item) fun new r =>
      Transcript c owner (Turn.ofItem s item) new (r.map ([·])) := by
  cases item with
  | error f => exact .fail .unmeasured
  | ok w =>
    have hmake (v : Vector32) : Action.Logs
        (do let id ← Action.ofState env.logged.freshId; return chunkOf owner s w id v)
        (do let id ← Action.ofState env.freshId; return chunkOf owner s w id v)
        fun new r => new = [] ∧ ∃ id, r = .ok (chunkOf owner s w id v) := by
      refine (Action.Logs.freshId env).bind (Q := fun id new r => new = [] ∧ r = .ok (chunkOf owner s w id v))
        (fun id => .pure ⟨rfl, rfl⟩) ?_ ?_
      · rintro new e ⟨-, id, hid⟩
        cases hid
      · rintro id new new' r ⟨rfl, -⟩ ⟨rfl, rfl⟩
        exact ⟨rfl, id, rfl⟩
    have hembed := (Action.Logs.embed c.provider c.timeout (c.prompt ++ w.text)
      (s!"Failed to embed chunk of {s.typeName}." ++ s.memberName.getD "")).bind hmake
      (R := fun new r => Transcript c owner [.embed s w] new (r.map ([·])))
      (by
        rintro new e ⟨reply, rfl, -, ⟨v, -, hv⟩ | ⟨f, hf, he⟩⟩
        · cases hv
        · cases he
          exact .refused hf)
      (by
        rintro v new new' r ⟨reply, rfl, hgiven, ⟨_, hv, ⟨⟩⟩ | ⟨f, -, he⟩⟩ ⟨rfl, id, rfl⟩
        · exact .embedded hgiven hv .done
        · cases he)
    exact hembed.looking env .cancelled fun _ _ h => .looked h

theorem windows_logs (s : Snippet) (items : List (Except Fault Window)) :
    (c.logged.windows env.logged owner s items).Logs (c.windows env owner s items)
      (Transcript c owner (items.flatMap (Turn.ofItem s))) := by
  induction items with
  | nil => exact .pure .done
  | cons item items ih =>
    exact (window_logs c env owner s item).combine ih (fun _ _ h => h.error_append _)
      fun _ _ _ _ h hrest => h.ok_append hrest

theorem snippets_logs (ss : List Snippet) :
    (c.logged.snippets env.logged owner ss).Logs (c.snippets env owner ss) (Transcript c owner (c.turns ss)) := by
  induction ss with
  | nil => exact .pure .done
  | cons s ss ih =>
    have hhere := (windows_logs c env owner s (c.splitter.windows s.text)).combine ih
      (R := Transcript c owner ((c.splitter.windows s.text).flatMap (Turn.ofItem s) ++ c.turns ss))
      (fun _ _ h => h.error_append _) fun _ _ _ _ h hrest => h.ok_append hrest
    exact hhere.looking env .cancelled fun _ _ h => .looked h

end

/-! ## What a transcript tells -/

/-- The event is one that the turn meets when it goes on. -/
def Answers (c : Chunker ω) : Turn → Event → Prop
  | .look, .looked _ => True
  | .embed _ w, .answered text _ => text = c.prompt ++ w.text
  | _, _ => False

/-- The chunk comes from the window and from the answer that was given to the window's text. -/
structure Shows (c : Chunker ω) (owner : Uuid) (s : Snippet) (w : Window) (text : String) (reply : Reply)
    (chunk : Chunk) : Prop where
  given : ∃ u, (c.provider.reply c.timeout text u).1 = reply
  text : text = c.prompt ++ w.text
  snippet : chunk.snippet = w.text
  tokens : chunk.tokens = w.tokens
  oversized : chunk.oversized = w.oversized
  owner : chunk.owner = owner
  namespaceName : chunk.namespaceName = s.namespaceName
  typeName : chunk.typeName = s.typeName
  memberName : chunk.memberName = s.memberName
  vector : ∃ others, reply = .vectors (chunk.vector :: others)
  width : chunk.vector.length = c.provider.dimension

theorem vector_ok {dimension timeout : Nat} {reply : Reply} {v : Vector32}
    (h : reply.vector dimension timeout = .ok v) :
    (∃ others, reply = .vectors (v :: others)) ∧ v.length = dimension := by
  unfold Reply.vector at h
  split at h
  · cases h
  · split at h
    · next hwidth =>
      cases h
      exact ⟨⟨_, rfl⟩, hwidth⟩
    · cases h
  · cases h
  · cases h
  · cases h

section
variable {c : Chunker ω} {owner : Uuid} {ts : List Turn} {log : List Event} {r : Except Fault (List Chunk)}

theorem Transcript.answers (h : Transcript c owner ts log r) :
    ∃ met, met <+: ts ∧ List.Forall₂ (Answers c) met log := by
  induction h with
  | done => exact ⟨[], List.nil_prefix, .nil⟩
  | @cancelled ts => exact ⟨[.look], ⟨ts, rfl⟩, .cons trivial .nil⟩
  | looked _ ih =>
    obtain ⟨met, hprefix, hmet⟩ := ih
    exact ⟨.look :: met, List.cons_prefix_cons.mpr ⟨rfl, hprefix⟩, .cons trivial hmet⟩
  | unmeasured => exact ⟨[], List.nil_prefix, .nil⟩
  | @refused s w ts => exact ⟨[.embed s w], ⟨ts, rfl⟩, .cons rfl .nil⟩
  | @embedded s w _ _ _ _ _ _ _ _ _ ih =>
    obtain ⟨met, hprefix, hmet⟩ := ih
    exact ⟨.embed s w :: met, List.cons_prefix_cons.mpr ⟨rfl, hprefix⟩, .cons rfl hmet⟩

theorem calls_of_answers (h : List.Forall₂ (Answers c) ts log) :
    (calls log).map Prod.fst = (handed ts).map fun p => c.prompt ++ p.2.text := by
  induction h with
  | nil => rfl
  | @cons t e _ _ hte _ ih =>
    cases t <;> cases e <;> simp_all [Answers]

theorem Transcript.complete {chunks : List Chunk} (h : Transcript c owner ts log (.ok chunks)) :
    List.Forall₂ (fun p q => Shows c owner p.1 p.2 q.1.1 q.1.2 q.2) (handed ts) ((calls log).zip chunks) ∧
      (calls log).length = chunks.length := by
  generalize hr : (Except.ok chunks : Except Fault (List Chunk)) = r at h
  induction h generalizing chunks with
  | done =>
    cases hr
    exact ⟨.nil, rfl⟩
  | cancelled => cases hr
  | looked _ ih => exact ih hr
  | unmeasured => cases hr
  | refused => cases hr
  | @embedded s w _ reply v id _ r given vector _ ih =>
    cases r with
    | error => cases hr
    | ok others =>
      cases hr
      obtain ⟨hshows, hlength⟩ := ih rfl
      obtain ⟨hreply, hwidth⟩ := vector_ok vector
      refine ⟨.cons ?_ hshows, congrArg (· + 1) hlength⟩
      exact ⟨given, rfl, rfl, rfl, rfl, rfl, rfl, rfl, rfl, hreply, hwidth⟩

theorem Transcript.ok_iff (h : Transcript c owner ts log r) :
    (∃ chunks, r = .ok chunks) ↔ (∀ f, .fail f ∉ ts) ∧ .looked true ∉ log ∧
      ∀ call ∈ calls log, ∃ v, call.2.vector c.provider.dimension c.timeout = .ok v := by
  induction h with
  | done => simp
  | cancelled => simp
  | looked _ ih => simpa using ih
  | @unmeasured f ts => exact ⟨(fun ⟨_, h⟩ => nomatch h), fun h => absurd List.mem_cons_self (h.1 f)⟩
  | refused refusal => simp [refusal]
  | @embedded _ _ _ _ _ _ _ r _ vector _ ih =>
    have hmap (g : List Chunk → List Chunk) : (∃ chunks, r.map g = .ok chunks) ↔ ∃ chunks, r = .ok chunks := by
      cases r <;> simp [Except.map]
    rw [hmap, ih]
    simp [vector]

/-- A look that finds the run cancelled is the last event. -/
theorem Transcript.cancelled_last (h : Transcript c owner ts log r) {i : Nat}
    (hi : log[i]? = some (.looked true)) : i + 1 = log.length ∧ r = .error (.listing .cancelled) := by
  induction h generalizing i with
  | done => simp at hi
  | cancelled => cases i <;> simp_all
  | looked _ ih =>
    cases i with
    | zero => simp at hi
    | succ i => simpa using ih hi
  | unmeasured => simp at hi
  | refused => cases i <;> simp at hi
  | @embedded _ _ _ _ _ _ _ r _ _ _ ih =>
    cases i with
    | zero => simp at hi
    | succ i =>
      obtain ⟨hlast, hr⟩ := ih hi
      exact ⟨by simpa using hlast, by rw [hr]; rfl⟩

end

/-! ## The turns of a document -/

/-- Each text is handed out directly after a look. -/
def Guarded (ts : List Turn) : Prop :=
  ∀ i s w, ts[i]? = some (.embed s w) → ∃ j, i = j + 1 ∧ ts[j]? = some .look

theorem Guarded.append {ts ts' : List Turn} (h : Guarded ts) (h' : Guarded ts') : Guarded (ts ++ ts') := by
  intro i s w hi
  by_cases hlt : i < ts.length
  · rw [List.getElem?_append_left hlt] at hi
    obtain ⟨j, rfl, hj⟩ := h i s w hi
    exact ⟨j, rfl, by rwa [List.getElem?_append_left (by omega)]⟩
  · rw [List.getElem?_append_right (by omega)] at hi
    obtain ⟨j, hj, hlook⟩ := h' _ s w hi
    refine ⟨ts.length + j, by omega, ?_⟩
    rw [List.getElem?_append_right (by omega)]
    simpa using hlook

theorem Guarded.flatMap {l : List α} {f : α → List Turn} (h : ∀ a ∈ l, Guarded (f a)) : Guarded (l.flatMap f) := by
  induction l with
  | nil => intro i s w hi; simp at hi
  | cons a l ih =>
    rw [List.flatMap_cons]
    exact (h a List.mem_cons_self).append (ih fun b hb => h b (List.mem_cons_of_mem a hb))

theorem guarded_ofItem (s : Snippet) (item : Except Fault Window) : Guarded (Turn.ofItem s item) := by
  intro i s' w hi
  cases item with
  | error f => cases i <;> simp [Turn.ofItem] at hi
  | ok v =>
    match i, hi with
    | 1, _ => exact ⟨0, rfl, rfl⟩

theorem guarded_look : Guarded [.look] := by
  intro i s w hi
  cases i <;> simp at hi

/-- The windows of a source in order, each with the snippet that it is cut from. -/
def planned (c : Chunker ω) (source : String) : List (Snippet × Window) :=
  (Outline.ofSource source).snippets.flatMap fun s =>
    (c.splitter.windows s.text).filterMap fun item => item.toOption.map (s, ·)

section
variable (c : Chunker ω) (ss : List Snippet)

theorem guarded_turns : Guarded (c.turns ss) :=
  .flatMap fun s _ => guarded_look.append (.flatMap fun item _ => guarded_ofItem s item)

theorem handed_turns :
    handed (c.turns ss) =
      ss.flatMap fun s => (c.splitter.windows s.text).filterMap fun item => item.toOption.map (s, ·) := by
  have hitems (s : Snippet) (items : List (Except Fault Window)) :
      handed (items.flatMap (Turn.ofItem s)) = items.filterMap fun item => item.toOption.map (s, ·) := by
    induction items with
    | nil => rfl
    | cons item items ih =>
      have happend : handed (Turn.ofItem s item ++ items.flatMap (Turn.ofItem s)) =
          handed (Turn.ofItem s item) ++ handed (items.flatMap (Turn.ofItem s)) := List.filterMap_append
      rw [List.flatMap_cons, happend, ih]
      cases item <;> rfl
  induction ss with
  | nil => rfl
  | cons s ss ih =>
    have happend : handed (c.turns (s :: ss)) =
        handed ((c.splitter.windows s.text).flatMap (Turn.ofItem s)) ++ handed (c.turns ss) :=
      List.filterMap_append
    rw [happend, hitems, ih, List.flatMap_cons]

theorem fail_not_mem_turns :
    (∀ f, .fail f ∉ c.turns ss) ↔ ∀ s ∈ ss, ∀ item ∈ c.splitter.windows s.text, ∃ w, item = .ok w := by
  have hitem (s : Snippet) (item : Except Fault Window) :
      (∃ w, item = .ok w) ↔ ∀ f, .fail f ∉ Turn.ofItem s item := by
    cases item <;> simp [Turn.ofItem]
  simp only [turns, List.mem_flatMap, List.mem_cons, reduceCtorEq, false_or]
  refine ⟨fun h s hs item hmem => (hitem s item).mpr fun f hf => h f ⟨s, hs, item, hmem, hf⟩, ?_⟩
  rintro h f ⟨s, hs, item, hmem, hf⟩
  exact (hitem s item).mp (h s hs item hmem) f hf

end

/-! ## All or nothing, and in order -/

/-- What the events of a run over a source and its result have to do with the windows of the source. -/
structure Embedded (c : Chunker ω) (source : String) (owner : Uuid) (log : List Event)
    (r : Except Fault (List Chunk)) : Prop where
  /-- The texts that were handed out are the first of those to be handed out, in order. -/
  order : (calls log).map Prod.fst <+: (c.planned source).map fun p => c.prompt ++ p.2.text
  /-- Where there are chunks, there is one for each window, made from the answer to the window's text. -/
  complete : ∀ chunks, r = .ok chunks →
    chunks.length = (c.planned source).length ∧ (calls log).length = (c.planned source).length ∧
      ∀ (k : Nat) s w text reply chunk, (c.planned source)[k]? = some (s, w) → (calls log)[k]? = some (text, reply) →
        chunks[k]? = some chunk → Shows c owner s w text reply chunk
  /-- There are chunks unless something failed: a measuring, a look or an answer. -/
  succeeds : (∃ chunks, r = .ok chunks) ↔
    (∀ s ∈ (Outline.ofSource source).snippets, ∀ item ∈ c.splitter.windows s.text, ∃ w, item = .ok w) ∧
      .looked true ∉ log ∧ ∀ call ∈ calls log, ∃ v, call.2.vector c.provider.dimension c.timeout = .ok v
  /-- A run that finds itself cancelled does nothing more. -/
  last : ∀ i, log[i]? = some (.looked true) → i + 1 = log.length ∧ r = .error (.listing .cancelled)
  /-- After a moment from which on the run is cancelled, no text is handed out. A moment is counted in events; it
  is before the start, while a text is being answered, or otherwise before a turn that does not hand out a text,
  as is the case while a text is being measured. -/
  cancelled : ∀ moment,
    (moment = 0 ∨ (∃ j text reply, moment = j + 1 ∧ log[j]? = some (.answered text reply)) ∨
      ∀ s w, (c.turns (Outline.ofSource source).snippets)[moment]? ≠ some (.embed s w)) →
    (∀ i ≥ moment, log[i]? ≠ some (.looked false)) →
    ∀ i ≥ moment, ∀ text reply, log[i]? ≠ some (.answered text reply)

section
variable {c : Chunker ω} {owner : Uuid} {source : String} {log : List Event} {r : Except Fault (List Chunk)}

/-- The events answer the turns one by one. -/
theorem Transcript.turn {ts : List Turn} (h : Transcript c owner ts log r) {i : Nat} {e : Event}
    (hi : log[i]? = some e) : ∃ t, ts[i]? = some t ∧ Answers c t e := by
  obtain ⟨met, hprefix, hmet⟩ := h.answers
  obtain ⟨hlog, rfl⟩ := List.getElem?_eq_some_iff.mp hi
  have hlt : i < met.length := by rwa [hmet.length_eq]
  obtain ⟨rest, rfl⟩ := hprefix
  refine ⟨met[i], ?_, hmet.get hlt hlog⟩
  rw [List.getElem?_append_left hlt, List.getElem?_eq_getElem hlt]

/-- Directly before a text is handed out, the run looked and was not cancelled. -/
theorem Transcript.looked_before {ss : List Snippet} (h : Transcript c owner (c.turns ss) log r) {i : Nat}
    {text : String} {reply : Reply} (hi : log[i]? = some (.answered text reply)) :
    (∃ s w, (c.turns ss)[i]? = some (.embed s w)) ∧ ∃ j, i = j + 1 ∧ log[j]? = some (.looked false) := by
  obtain ⟨t, ht, hanswer⟩ := h.turn hi
  cases t with
  | look => exact hanswer.elim
  | fail => exact hanswer.elim
  | embed s w =>
    obtain ⟨j, rfl, hlook⟩ := guarded_turns c ss i s w ht
    have hlt : j + 1 < log.length := (List.getElem?_eq_some_iff.mp hi).1
    have hj : log[j]? = some log[j] := List.getElem?_eq_getElem (by omega)
    obtain ⟨t, ht', hanswer'⟩ := h.turn hj
    cases hlook.symm.trans ht'
    cases he : log[j] with
    | answered =>
      rw [he] at hanswer'
      exact hanswer'.elim
    | looked cancelled =>
      rw [he] at hj
      cases cancelled with
      | true =>
        have := (h.cancelled_last hj).1
        omega
      | false => exact ⟨⟨s, w, ht⟩, j, rfl, hj⟩

theorem Transcript.embedded_in_order
    (h : Transcript c owner (c.turns (Outline.ofSource source).snippets) log r) : Embedded c source owner log r := by
  have hplanned : handed (c.turns (Outline.ofSource source).snippets) = c.planned source := handed_turns c _
  refine ⟨?_, ?_, ?_, fun i hi => h.cancelled_last hi, ?_⟩
  · obtain ⟨met, hstart, hmet⟩ := h.answers
    rw [calls_of_answers hmet, ← hplanned]
    exact (hstart.filterMap _).map _
  · rintro chunks rfl
    obtain ⟨hshows, hlength⟩ := h.complete
    rw [hplanned] at hshows
    have hcount : (c.planned source).length = (calls log).length := by
      rw [hshows.length_eq, List.length_zip, hlength, Nat.min_self]
    refine ⟨by rw [hcount, hlength], hcount.symm, fun k s w text reply chunk hk hcall hchunk => ?_⟩
    obtain ⟨hkp, hk⟩ := List.getElem?_eq_some_iff.mp hk
    have hpair : ((calls log).zip chunks)[k]? = some ((text, reply), chunk) :=
      List.getElem?_zip_eq_some.mpr ⟨hcall, hchunk⟩
    obtain ⟨hkz, hzip⟩ := List.getElem?_eq_some_iff.mp hpair
    have hshow := hshows.get hkp hkz
    rwa [List.get_eq_getElem, List.get_eq_getElem, hk, hzip] at hshow
  · rw [h.ok_iff, fail_not_mem_turns]
  · intro moment hfree hgone i hi text reply hcall
    obtain ⟨⟨s, w, hturn⟩, j, rfl, hj⟩ := h.looked_before hcall
    -- the look was before the moment, and so the text is the first thing after it
    have hmoment : moment = j + 1 := by
      by_contra hne
      exact hgone j (by omega) hj
    subst hmoment
    rcases hfree with h0 | ⟨j', _, _, hj', hanswered⟩ | hfree
    · cases h0
    · cases hj'
      cases hj.symm.trans hanswered
    · exact hfree s w hturn

end

/-- **A document is embedded in order.** Recording what is looked at and handed out changes nothing about its chunks,
and shows the texts of its windows going out one after another, each answer in the chunk of its window. -/
theorem document_embeds (c : Chunker ω) (env : Conditions ω) (source : String) (owner : Uuid) (start : ω) :
    ∃ r next log, c.document env source owner start = (r, next) ∧
      c.logged.document env.logged source owner (start, []) = (r, next, log) ∧ Embedded c source owner log r := by
  obtain ⟨r, next, log, hrun, hlogged, h⟩ := snippets_logs c env owner (Outline.ofSource source).snippets start []
  exact ⟨r, next, log, hrun, hlogged, h.embedded_in_order⟩

end Chunker

end CodeCorpus
