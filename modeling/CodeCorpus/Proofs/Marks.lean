import CodeCorpus.Proofs.Embedding
import CodeCorpus.Proofs.Encodings
import CodeCorpus.Sync.Directory

/-!
# What decoding drops

A file's bytes are decoded just if they are well formed, and all that decoding can drop is one byte order mark at
their start: what encodes the text again are the bytes without it. A file with other bytes has no chunks, and the
provider receives nothing of it.
-/

namespace CodeCorpus

namespace Corpus

def markBytes : List UInt8 := [0xEF, 0xBB, 0xBF]

/-- Bytes without one byte order mark at their start. -/
def withoutMark (bs : List UInt8) : List UInt8 :=
  if markBytes.isPrefixOf bs then bs.drop markBytes.length else bs

theorem encode_mark : String.utf8EncodeChar mark = markBytes := by
  decide

theorem eq_mark_of_isPrefix {c : Char} {cs : List Char}
    (h : markBytes <+: (c :: cs).flatMap String.utf8EncodeChar) : c = mark := by
  obtain ⟨rest, hrest⟩ := h
  have hencode : [mark].utf8Encode ++ rest.toByteArray = (c :: cs).utf8Encode := by
    rw [ByteArray.ext_iff, ← Array.toList_inj]
    unfold List.utf8Encode
    simp [encode_mark, ← hrest]
  -- no character's bytes begin with those of another one
  have hprefix := List.isPrefix_of_utf8Encode_append_eq_utf8Encode _ hencode
  exact (List.head_eq_of_cons_eq (List.prefix_iff_eq_append.mp hprefix)).symm

theorem toList_dropMark (s : String) :
    (dropMark s).toList = if s.toList.head? = some mark then s.toList.tail else s.toList := by
  unfold dropMark
  split
  · rename_i c cs hs
    by_cases hc : c = mark
    · simp [hc, hs]
    · simp [hc, hs]
  · rename_i hs
    simp [hs]

theorem bytes_dropMark (s : String) : (dropMark s).toUTF8.data.toList = withoutMark s.toUTF8.data.toList := by
  rw [Text.bytes_toUTF8, Text.bytes_toUTF8, toList_dropMark]
  unfold withoutMark
  cases s.toList with
  | nil => rfl
  | cons c cs =>
    simp only [List.head?_cons, List.tail_cons, Option.some.injEq]
    by_cases hc : c = mark
    · rw [if_pos hc, hc, List.flatMap_cons, encode_mark, if_pos, List.drop_left]
      exact List.isPrefixOf_iff_prefix.mpr (List.prefix_append _ _)
    · rw [if_neg hc, if_neg]
      exact fun h => hc (eq_mark_of_isPrefix (List.isPrefixOf_iff_prefix.mp h))

theorem decode_eq_ok_iff {path : String} {bytes : ByteArray} {text : String} :
    decode path bytes = .ok text ↔ ∃ s, Text.decode? bytes = some s ∧ dropMark s = text := by
  unfold decode
  cases Text.decode? bytes <;> simp

theorem decode_of_not_wellFormed {bytes : ByteArray} (h : ¬ Text.WellFormed bytes.data.toList) (path : String) :
    decode path bytes = .error (.listing (.invalidEncoding path)) := by
  rw [← Text.exists_decode?_iff, not_exists, ← Option.eq_none_iff_forall_ne_some] at h
  unfold decode
  rw [h]

end Corpus

/-- The files in a world with a log, to which reading them adds nothing. -/
def Files.logged {ω : Type} (files : Files ω) : Files (Logged ω) :=
  { list := fun w => ((files.list w.1).1, (files.list w.1).2, w.2)
    read := fun file w => ((files.read file w.1).1, (files.read file w.1).2, w.2) }

theorem Files.logged_read {ω : Type} (files : Files ω) (file : String) (w : ω) (log : List Event) :
    files.logged.read file (w, log) = ((files.read file w).1, (files.read file w).2, log) :=
  rfl

namespace Source

variable {ω : Type}

theorem fileChunks_of_not_wellFormed (env : Conditions ω) (files : Files ω) (chunker : Chunker ω) (p : Pending)
    {w next : ω} {bytes : ByteArray} (hread : files.read p.file w = (.ok bytes, next))
    (h : ¬ Text.WellFormed bytes.data.toList) :
    fileChunks env files chunker p w = (.error (.listing (.invalidEncoding p.document.path)), next) := by
  have hstate : Action.ofState (files.read p.file) w = (.ok (.ok bytes), next) := by
    unfold Action.ofState
    rw [hread]
  have htext : files.text p.document.path p.file w =
      (.error (.listing (.invalidEncoding p.document.path)), next) := by
    unfold Files.text
    rw [Action.bind_run_ok hstate]
    simp only [Corpus.decode_of_not_wellFormed h]
    rfl
  -- the chunker comes after the text, so the world is left as reading the file leaves it
  unfold fileChunks
  rw [Action.bind_run_error htext]

end Source

namespace Corpus

/-- **Decoding loses one mark at most.** Bytes are decoded just if they are well formed, and then the text is encoded in
the same bytes, without one byte order mark at their start. The fault of any others names the path; where a file turns
out to hold such bytes, its chunks fail with that fault, and nothing has been handed to the provider, nor was it
looked whether the run is cancelled. -/
theorem decode_drops_one_mark (path : String) (bytes : ByteArray) :
    ((∃ text, decode path bytes = .ok text) ↔ Text.WellFormed bytes.data.toList) ∧
    (∀ text, decode path bytes = .ok text → text.toUTF8.data.toList = withoutMark bytes.data.toList) ∧
    (¬ Text.WellFormed bytes.data.toList →
      decode path bytes = .error (.listing (.invalidEncoding path)) ∧
      ∀ {ω : Type} (env : Conditions ω) (files : Files ω) (chunker : Chunker ω) (p : Pending) (w next : ω),
        files.read p.file w = (.ok bytes, next) →
        (Source.ofFiles env files chunker).chunks p w =
          (.error (.listing (.invalidEncoding p.document.path)), next) ∧
        ∀ log, (Source.ofFiles env.logged files.logged chunker.logged).chunks p (w, log) =
          (.error (.listing (.invalidEncoding p.document.path)), next, log)) := by
  refine ⟨?_, ?_, ?_⟩
  · simp only [decode_eq_ok_iff, ← Text.exists_decode?_iff]
    constructor
    · intro ⟨_, s, hs, _⟩
      exact ⟨s, hs⟩
    · intro ⟨s, hs⟩
      exact ⟨dropMark s, s, hs, rfl⟩
  · intro text htext
    obtain ⟨s, hs, rfl⟩ := decode_eq_ok_iff.mp htext
    rw [bytes_dropMark, Text.decode?_eq_some_iff.mp hs]
  · intro h
    refine ⟨decode_of_not_wellFormed h path, ?_⟩
    intro ω env files chunker p w next hread
    refine ⟨Source.fileChunks_of_not_wellFormed env files chunker p hread h, fun log => ?_⟩
    apply Source.fileChunks_of_not_wellFormed env.logged files.logged chunker.logged p _ h
    rw [Files.logged_read, hread]

/-- Of two marks the second is kept, and a surrogate's three bytes are no text. -/
theorem decode_drops_one_mark_of_two :
    let marked : ByteArray := ⟨#[0xEF, 0xBB, 0xBF, 0xEF, 0xBB, 0xBF, 0x41]⟩
    let surrogate : ByteArray := ⟨#[0xED, 0xA0, 0x80]⟩
    let env : Conditions Unit := ⟨fun w => (false, w), fun w => (.ofNat 1, w), fun w => (0, w)⟩
    let files : Files Unit := ⟨pure [], fun _ w => (.ok surrogate, w)⟩
    let p : Pending := ⟨⟨.ofNat 1, "A.cs", "0", 5⟩, .new, "/A.cs"⟩
    (∃ text, decode "A.cs" marked = .ok text ∧ text.toUTF8.data.toList = [0xEF, 0xBB, 0xBF, 0x41]) ∧
      ¬ Text.WellFormed surrogate.data.toList ∧ files.read p.file () = (.ok surrogate, ()) ∧
      ∀ chunker, (Source.ofFiles env.logged files.logged (Chunker.logged chunker)).chunks p ((), []) =
        (.error (.listing (.invalidEncoding "A.cs")), (), []) := by
  intro marked surrogate env files p
  have hmark : Text.IsCharacter markBytes := encode_mark ▸ Text.isCharacter_encode mark
  have hmarked : Text.WellFormed marked.data.toList := .cons hmark (.cons hmark (.cons (.single (by decide)) .nil))
  have hsurrogate : ¬ Text.WellFormed surrogate.data.toList := by
    rw [← Text.exists_decode?_iff]
    have hnone : Text.decode? surrogate = none := by decide +kernel
    simp [hnone]
  obtain ⟨hok, hbytes, -⟩ := decode_drops_one_mark "A.cs" marked
  obtain ⟨text, htext⟩ := hok.mpr hmarked
  obtain ⟨-, hchunks⟩ := (decode_drops_one_mark "A.cs" surrogate).2.2 hsurrogate
  refine ⟨⟨text, htext, (hbytes text htext).trans (by decide)⟩, hsurrogate, rfl, fun chunker => ?_⟩
  exact (hchunks env files chunker p () () rfl).2 []

end Corpus

end CodeCorpus
