import CodeCorpus.CommandLine
import CodeCorpus.Proofs.Keys
import CodeCorpus.Proofs.Scopes
import CodeCorpus.Proofs.Tables
import Mathlib.Data.List.TakeWhile

/-!
# Spellings of a document's path

A document is known by its path below the root. On the command line it can be named by that path or by an absolute
one, of which the parts of the root are taken off. Links in the root are followed before that, those in the absolute
path are not, so the absolute path that starts with the root as it was given is understood only where the root is
without links (`spellings_agree`).
-/

namespace CodeCorpus

namespace Path

/-! ## The parts that characters write -/

/-- A text that is a part of a path as it stands. -/
def IsEntry (name : String) : Prop := IsName name ∧ name ≠ "."

def AreEntries (ps : List String) : Prop := ∀ p ∈ ps, IsEntry p

def pieces (cs : List Char) : List String := (splitFrom [] cs).filter fun p => p != "" && p != "."

theorem parts_eq (path : String) : parts path = pieces path.toList := rfl

theorem areEntries_parts (path : String) : AreEntries (parts path) := by
  intro p hp
  have hne := (List.mem_filter.mp hp).2
  rw [Bool.and_eq_true, bne_iff_ne, bne_iff_ne] at hne
  exact ⟨areNames_parts path p hp, hne.2⟩

theorem splitFrom_append_slash (part cs rest : List Char) :
    splitFrom part (cs ++ '/' :: rest) = splitFrom part cs ++ splitFrom [] rest := by
  induction cs generalizing part with
  | nil => simp [splitFrom]
  | cons c cs ih => by_cases hc : c = '/' <;> simp [splitFrom, hc, ih]

theorem splitFrom_of_not_mem {part cs : List Char} (h : '/' ∉ cs) :
    splitFrom part cs = [String.ofList (part.reverse ++ cs)] := by
  induction cs generalizing part with
  | nil => simp [splitFrom]
  | cons c cs ih =>
    rw [List.mem_cons, not_or] at h
    simp [splitFrom, Ne.symm h.1, ih h.2]

@[simp] theorem pieces_append_slash (cs rest : List Char) : pieces (cs ++ '/' :: rest) = pieces cs ++ pieces rest := by
  simp [pieces, splitFrom_append_slash]

@[simp] theorem pieces_nil : pieces [] = [] := rfl

@[simp] theorem pieces_slash (cs : List Char) : pieces ('/' :: cs) = pieces cs := pieces_append_slash [] cs

@[simp] theorem pieces_dot (cs : List Char) : pieces ('.' :: '/' :: cs) = pieces cs := pieces_append_slash ['.'] cs

theorem pieces_entry {p : String} (h : IsEntry p) : pieces p.toList = [p] := by
  simp [pieces, splitFrom_of_not_mem h.1.2, h.1.1, h.2]

/-- The characters are none or go on with a separator. -/
def Ends (cs : List Char) : Prop := cs = [] ∨ ∃ rest, cs = '/' :: rest

theorem pieces_entry_append {p : String} (h : IsEntry p) {rest : List Char} (hrest : Ends rest) :
    pieces (p.toList ++ rest) = p :: pieces rest := by
  rcases hrest with rfl | ⟨rest, rfl⟩ <;> simp [pieces_entry h]

theorem toList_intercalate_cons (p q : String) (ps : List String) :
    ("/".intercalate (p :: q :: ps)).toList = p.toList ++ '/' :: ("/".intercalate (q :: ps)).toList := by
  rw [String.intercalate_cons_cons]
  simp

theorem pieces_intercalate {ps : List String} (h : AreEntries ps) : pieces ("/".intercalate ps).toList = ps := by
  induction ps with
  | nil => rfl
  | cons p ps ih =>
    have hp := h p List.mem_cons_self
    cases ps with
    | nil => simp [String.intercalate_singleton, pieces_entry hp]
    | cons q ps =>
      rw [toList_intercalate_cons, pieces_append_slash, pieces_entry hp, ih fun r hr => h r (List.mem_cons_of_mem p hr)]
      rfl

theorem parts_ofParts {ps : List String} (h : AreEntries ps) : parts (ofParts ps) = ps := by
  have htext : (ofParts ps).toList = '/' :: ("/".intercalate ps).toList := by
    unfold ofParts
    rw [String.toList_append]
    rfl
  rw [parts_eq, htext, pieces_slash, pieces_intercalate h]

/-! ## Separators at the ends -/

/-- The characters start as a name does, which is not `.`. -/
inductive Solid : List Char → Prop
  | plain {c : Char} (rest : List Char) : c ≠ '/' → c ≠ '.' → Solid (c :: rest)
  | dotted {c : Char} (rest : List Char) : c ≠ '/' → Solid ('.' :: c :: rest)

namespace Solid

variable {cs : List Char}

theorem dropSeparators_eq (h : Solid cs) : dropSeparators cs = cs := by
  cases h <;> simp_all [dropSeparators]

theorem strip_eq (h : Solid cs) : dropTrailing.strip cs = cs := by
  cases h <;> simp_all [dropTrailing.strip]

theorem append (h : Solid cs) (rest : List Char) : Solid (cs ++ rest) := by
  cases h with
  | plain tail hslash hdot => exact .plain _ hslash hdot
  | dotted tail hslash => exact .dotted _ hslash

theorem of_not_mem (hne : cs ≠ []) (hdot : cs ≠ ['.']) (h : '/' ∉ cs) : Solid cs := by
  obtain ⟨c, rest, rfl⟩ := List.exists_cons_of_ne_nil hne
  rw [List.mem_cons, not_or] at h
  by_cases hc : c = '.'
  · subst hc
    obtain ⟨d, rest, rfl⟩ := List.exists_cons_of_ne_nil fun hrest => hdot (congrArg _ hrest)
    rw [List.mem_cons, not_or] at h
    exact .dotted _ (Ne.symm h.2.1)
  · exact .plain _ (Ne.symm h.1) hc

/-- What is taken off the end of solid characters leaves nothing, a single dot or solid characters. -/
theorem of_append {rest : List Char} (h : Solid (cs ++ rest)) (hne : cs ≠ []) (hdot : cs ≠ ['.']) : Solid cs := by
  match cs, h with
  | [c], .plain _ hslash hc => exact .plain _ hslash hc
  | [_], .dotted _ _ => exact absurd rfl hdot
  | _ :: _ :: _, .plain _ hslash hc => exact .plain _ hslash hc
  | _ :: _ :: _, .dotted _ hslash => exact .dotted _ hslash

theorem entry (h : Solid cs) : ∃ p tail, IsEntry p ∧ Ends tail ∧ cs = p.toList ++ tail := by
  have hcs : cs.takeWhile (· ≠ '/') ++ cs.dropWhile (· ≠ '/') = cs := List.takeWhile_append_dropWhile
  refine ⟨String.ofList (cs.takeWhile (· ≠ '/')), cs.dropWhile (· ≠ '/'), ⟨⟨?_, ?_⟩, ?_⟩, ?_, ?_⟩
  · cases h <;> simp_all
  · intro hmem
    rw [String.toList_ofList] at hmem
    simpa using List.mem_takeWhile_imp hmem
  · cases h <;> simp_all [← String.toList_inj]
  · rcases hrest : cs.dropWhile (· ≠ '/') with _ | ⟨c, rest⟩
    · exact .inl rfl
    · have hc := List.head?_dropWhile_not (· ≠ '/') cs
      rw [hrest] at hc
      simp only [List.head?_cons, Bool.not_eq_eq_eq_not, decide_not, Bool.not_false, decide_eq_true_eq] at hc
      exact .inr ⟨rest, by rw [hc]⟩
  · rw [String.toList_ofList, hcs]

end Solid

theorem solid_of_no_case {cs : List Char} (hslash : ∀ rest, cs ≠ '/' :: rest) (hdot : ∀ rest, cs ≠ '.' :: '/' :: rest)
    (hone : cs ≠ ['.']) : cs = [] ∨ Solid cs := by
  cases cs with
  | nil => exact .inl rfl
  | cons c cs =>
    right
    by_cases hc : c = '.'
    · subst hc
      cases cs with
      | nil => exact absurd rfl hone
      | cons d cs => exact .dotted _ fun hd => hdot cs (by rw [hd])
    · exact .plain _ (fun he => hslash cs (by rw [he])) hc

theorem dropSeparators_cases (cs : List Char) : dropSeparators cs = [] ∨ Solid (dropSeparators cs) := by
  fun_induction dropSeparators cs with
  | case1 cs ih | case2 cs ih => exact ih
  | case3 => exact .inl rfl
  | case4 cs hslash hdot hone => exact solid_of_no_case hslash hdot hone

theorem dropSeparators_append (cs rest : List Char) :
    dropSeparators (cs ++ '/' :: rest) =
      if dropSeparators cs = [] then dropSeparators rest else dropSeparators cs ++ '/' :: rest := by
  fun_induction dropSeparators cs with
  | case1 cs ih | case2 cs ih => exact ih
  | case3 => rfl
  | case4 cs hslash hdot hone =>
    rcases solid_of_no_case hslash hdot hone with rfl | hsolid
    · rfl
    · have hne : cs ≠ [] := by
        rintro rfl
        cases hsolid
      rw [(hsolid.append _).dropSeparators_eq, if_neg hne]

theorem pieces_dropSeparators (cs : List Char) : pieces (dropSeparators cs) = pieces cs := by
  fun_induction dropSeparators cs with
  | case1 cs ih => rw [ih, pieces_slash]
  | case2 cs ih => rw [ih, pieces_dot]
  | case3 | case4 => rfl

theorem dropSeparators_suffix (cs : List Char) : dropSeparators cs <:+ cs := by
  fun_induction dropSeparators cs with
  | case1 cs ih => exact ih.trans (List.suffix_cons _ _)
  | case2 cs ih => exact ih.trans ((List.suffix_cons _ _).trans (List.suffix_cons _ _))
  | case3 => exact List.nil_suffix
  | case4 => exact List.suffix_rfl

/-! ## Parts taken off -/

/-- What is left when parts are taken off stands at the end, and is what follows them. -/
theorem stripParts_spec {ps : List String} (hps : AreEntries ps) {cs left : List Char}
    (h : stripParts ps cs = some left) : pieces cs = ps ++ pieces left ∧ left <:+ cs := by
  induction ps generalizing cs with
  | nil =>
    obtain rfl := Option.some.inj h
    exact ⟨rfl, List.suffix_rfl⟩
  | cons p ps ih =>
    have hp := hps p List.mem_cons_self
    have hrest := fun q hq => hps q (List.mem_cons_of_mem p hq)
    have hnext {rest : List Char} (hcs : dropSeparators cs = p.toList ++ rest) (hends : Ends rest)
        (hstrip : stripParts ps rest = some left) : pieces cs = p :: ps ++ pieces left ∧ left <:+ cs := by
      obtain ⟨hpieces, hsuffix⟩ := ih hrest hstrip
      rw [← pieces_dropSeparators, hcs, pieces_entry_append hp hends, hpieces]
      exact ⟨rfl, (hsuffix.trans (List.suffix_append _ _)).trans (hcs ▸ dropSeparators_suffix cs)⟩
    unfold stripParts at h
    split at h
    · rename_i hafter
      exact hnext (Text.afterStart_eq_some_iff.mp hafter) (.inl rfl) h
    · rename_i rest hafter
      exact hnext (Text.afterStart_eq_some_iff.mp hafter) (.inr ⟨rest, rfl⟩) h
    · cases h

/-- The parts that characters write can be taken off them, whatever follows. -/
theorem stripParts_append (cs rest : List Char) : ∃ left, stripParts (pieces cs) (cs ++ '/' :: rest) = some left ∧
    dropSeparators left = dropSeparators rest := by
  induction hn : cs.length using Nat.strong_induction_on generalizing cs with
  | _ n ih =>
    have happend := dropSeparators_append cs rest
    rcases dropSeparators_cases cs with hnone | hsolid
    · rw [if_pos hnone] at happend
      refine ⟨_, ?_, happend⟩
      rw [← pieces_dropSeparators, hnone]
      rfl
    · obtain ⟨p, tail, hp, htail, hcs⟩ := hsolid.entry
      have hshort : tail.length < n := by
        have hle := (dropSeparators_suffix cs).length_le
        have hpos : 0 < p.toList.length := List.length_pos_of_ne_nil (mt String.toList_eq_nil_iff.mp hp.1.1)
        rw [hcs, List.length_append] at hle
        omega
      obtain ⟨left, hleft, hsame⟩ := ih tail.length hshort tail rfl
      refine ⟨left, ?_, hsame⟩
      have hne : dropSeparators cs ≠ [] := by
        intro hnone
        rw [hnone] at hsolid
        cases hsolid
      have hafter : Text.afterStart p.toList (dropSeparators (cs ++ '/' :: rest)) = some (tail ++ '/' :: rest) := by
        rw [Text.afterStart_eq_some_iff, happend, if_neg hne, hcs, List.append_assoc]
      rw [← pieces_dropSeparators, hcs, pieces_entry_append hp htail, stripParts, hafter]
      rcases htail with rfl | ⟨tail, rfl⟩ <;> exact hleft

theorem dropTrailing_eq {cs : List Char} (h : Solid cs.reverse) : dropTrailing cs = cs := by
  unfold dropTrailing
  rw [h.strip_eq, List.reverse_reverse]

/-- Nothing is taken off the end of solid characters where nothing can be taken off the whole. -/
theorem Solid.dropTrailing_eq {cs whole : List Char} (h : Solid cs) (hend : cs <:+ whole)
    (hwhole : Solid whole.reverse) : dropTrailing cs = cs := by
  obtain ⟨before, rfl⟩ := hend
  rw [List.reverse_append] at hwhole
  apply Path.dropTrailing_eq
  apply hwhole.of_append
  · intro hnone
    rw [List.reverse_eq_nil_iff.mp hnone] at h
    cases h
  · intro hdot
    rw [List.reverse_eq_iff.mp hdot] at h
    cases h
    contradiction

/-- The path neither starts nor ends with a separator or a part `.`. -/
structure Tidy (path : String) : Prop where
  start : Solid path.toList
  finish : Solid path.toList.reverse

theorem isAbsolute_iff {path : String} : isAbsolute path = true ↔ ∃ rest, path.toList = '/' :: rest := by
  unfold isAbsolute
  rw [String.startsWith_string_iff]
  constructor
  · intro ⟨rest, hrest⟩
    exact ⟨rest, hrest.symm⟩
  · intro ⟨rest, hrest⟩
    exact ⟨rest, hrest.symm⟩

theorem Tidy.isAbsolute_eq {path : String} (h : Tidy path) : isAbsolute path = false := by
  rw [Bool.eq_false_iff, ne_eq, isAbsolute_iff]
  intro ⟨rest, hrest⟩
  cases hrest ▸ h.start
  contradiction

theorem tidy_intercalate {ps : List String} (hps : ps ≠ []) (h : AreEntries ps) : Tidy ("/".intercalate ps) := by
  have hsolid {p : String} (hp : IsEntry p) : Tidy p := by
    have hne := mt String.toList_eq_nil_iff.mp hp.1.1
    have hdot : p.toList ≠ ['.'] := fun he => hp.2 (String.toList_inj.mp he)
    exact ⟨.of_not_mem hne hdot hp.1.2, .of_not_mem (by simpa using hp.1.1) (by simpa using hdot)
      (by simpa using hp.1.2)⟩
  induction ps with
  | nil => exact absurd rfl hps
  | cons p ps ih =>
    have hp := hsolid (h p List.mem_cons_self)
    cases ps with
    | nil => rwa [String.intercalate_singleton]
    | cons q ps =>
      have htail := ih (List.cons_ne_nil q ps) fun r hr => h r (List.mem_cons_of_mem p hr)
      constructor
      · rw [toList_intercalate_cons]
        exact hp.start.append _
      · rw [toList_intercalate_cons, List.reverse_append, List.reverse_cons, List.append_assoc]
        exact htail.finish.append _

/-- A path is put below a root with a separator between them. -/
theorem stem_toList {root : String} (hroot : isAbsolute root = true) :
    ∃ cs, (stem root).toList = cs ++ ['/'] ∧ pieces cs = parts root ∧ ∃ rest, cs ++ ['/'] = '/' :: rest := by
  obtain ⟨tail, htail⟩ := isAbsolute_iff.mp hroot
  have hempty : root.isEmpty = false := by
    rw [Bool.eq_false_iff, ne_eq, String.isEmpty_iff]
    rintro rfl
    cases htail
  unfold stem
  rw [hempty, if_neg Bool.false_ne_true]
  by_cases hend : root.endsWith "/"
  · rw [if_pos hend]
    rw [← String.endsWith_toSlice, String.Slice.endsWith_string_iff, String.copy_toSlice] at hend
    obtain ⟨cs, hcs⟩ := hend
    refine ⟨cs, hcs.symm, ?_, tail, hcs.trans htail⟩
    rw [parts_eq, ← hcs]
    simp
  · rw [if_neg hend]
    exact ⟨root.toList, by simp, rfl, tail ++ ['/'], by rw [htail]; rfl⟩

/-- The path below a root is found again in the path put below it, just if the root is spelled with the parts that are
taken off. -/
theorem below?_join {base : List String} (hbase : AreEntries base) {root path : String}
    (hroot : isAbsolute root = true) (hpath : Tidy path) (hplain : '\\' ∉ path.toList) :
    (below? (ofParts base) (join root path)).map normalize = some path ↔ parts root = base := by
  obtain ⟨cs, hcs, hparts, hstart⟩ := stem_toList hroot
  have htext : (join root path).toList = cs ++ '/' :: path.toList := by
    rw [join_eq hpath.isAbsolute_eq, String.toList_append, hcs, List.append_assoc]
    rfl
  have hbelow : below? (ofParts base) (join root path) = (stripParts base (cs ++ '/' :: path.toList)).map
      fun rest => String.ofList (dropTrailing (dropSeparators rest)) := by
    have habsolute : isAbsolute (ofParts base) = true := by simp [isAbsolute_iff, ofParts]
    have habsolute' : isAbsolute (join root path) = true := by
      obtain ⟨tail, htail⟩ := hstart
      rw [isAbsolute_iff, htext, List.append_cons, htail]
      exact ⟨_, rfl⟩
    unfold below?
    rw [habsolute, habsolute', parts_ofParts hbase, htext]
    rfl
  rw [hbelow, Option.map_map]
  constructor
  · intro h
    obtain ⟨left, hleft, hsame⟩ := Option.map_eq_some_iff.mp h
    obtain ⟨hpieces, hsuffix⟩ := stripParts_spec hbase hleft
    have hend := (dropSeparators_suffix left).trans hsuffix
    rcases dropSeparators_cases left with hnone | hsolid
    · have hstart := hpath.start
      rw [← hsame, Function.comp_apply, hnone, normalize_toList, String.toList_ofList] at hstart
      cases hstart
    · have hwhole : Solid (cs ++ '/' :: path.toList).reverse := by
        rw [List.reverse_append, List.reverse_cons, List.append_assoc]
        exact hpath.finish.append _
      rw [Function.comp_apply, hsolid.dropTrailing_eq hend hwhole, ← String.toList_inj, normalize_toList,
        String.toList_ofList] at hsame
      have hlength : (dropSeparators left).length = path.toList.length := by rw [← hsame, List.length_map]
      have hleft : dropSeparators left = path.toList :=
        (List.suffix_of_suffix_length_le hend ((List.suffix_cons _ _).trans (List.suffix_append _ _))
          hlength.le).eq_of_length hlength
      rw [pieces_append_slash, hparts, ← pieces_dropSeparators left, hleft] at hpieces
      exact List.append_cancel_right hpieces
  · rintro rfl
    obtain ⟨left, hleft, hsame⟩ := stripParts_append cs path.toList
    rw [hparts] at hleft
    rw [hleft]
    simp only [Option.map_some, Function.comp_apply, hsame, hpath.start.dropSeparators_eq, dropTrailing_eq hpath.finish,
      String.ofList_toList, normalize_of_not_mem hplain]

end Path

/-! ## Removal from tables -/

/-- The records without the documents at a path and the chunks that they own. -/
def Records.forget (path : String) (x : Records) : Records :=
  let gone := (Changes.holders x.documents path).map Document.id
  (x.dropChunksOf gone).withoutDocuments gone

theorem Records.forget_of_holders {path : String} {x : Records} (h : Changes.holders x.documents path = []) :
    x.forget path = x := by
  unfold forget dropChunksOf withoutDocuments
  simp [h]

section
variable {ω : Type} {slot : Slot ω Database} (hslot : ∀ db w, slot.get (slot.set db w) = db)
include hslot

theorem TableStore.Holds.removeAtPath_run {tables : TableStore} {width : Nat} {x : Records} {w : ω}
    (h : tables.Holds width x (slot.get w)) (env : Conditions ω) (path : String) :
    ∃ w', (⟨tables.asStore slot, env⟩ : Sync ω).removeAtPath path w =
        (.ok (Changes.holders x.documents path).length, w') ∧ tables.Holds width (x.forget path) (slot.get w') := by
  have hread : ((tables.asStore slot).documents (.atPath path) none).within s!"Failed to look up {path}" w =
      (.ok (Changes.holders x.documents path), w) :=
    Action.within_run_ok _ (congrArg (·, w) (h.documents_run (.atPath path)))
  unfold Sync.removeAtPath
  rw [Action.bind_run_ok hread]
  by_cases hnone : Changes.holders x.documents path = []
  · rw [hnone, Records.forget_of_holders hnone]
    exact ⟨w, rfl, h⟩
  · let gone := (Changes.holders x.documents path).map Document.id
    obtain ⟨db₁, hdrop, h₁⟩ := h.removeChunksOf_run gone
    obtain ⟨db₂, hremove, h₂⟩ := h₁.removeDocuments_run gone
    have hchunks : ((tables.asStore slot).removeChunksOf gone).within "Failed to delete chunks" w =
        (.ok (x.chunks.length - (x.dropChunksOf gone).chunks.length), slot.set db₁ w) := by
      apply Action.within_run_ok
      show (_, _) = _
      rw [hdrop]
    have hdocuments : ((tables.asStore slot).removeDocuments gone).within "Failed to delete document records"
        (slot.set db₁ w) = (.ok (x.documents.length - (x.forget path).documents.length),
          slot.set db₂ (slot.set db₁ w)) := by
      apply Action.within_run_ok
      show (_, _) = _
      rw [hslot, hremove]
      rfl
    have hrun : (⟨tables.asStore slot, env⟩ : Sync ω).remove (Changes.holders x.documents path) w =
        (.ok (), slot.set db₂ (slot.set db₁ w)) :=
      (Action.bind_run_ok hchunks).trans (Action.bind_run_ok hdocuments)
    rw [if_neg (by rwa [List.isEmpty_iff]), Action.bind_run_ok hrun]
    exact ⟨_, rfl, by rw [hslot]; exact h₂⟩

end

namespace Session

theorem databaseSlot_get_set (path : String) (db : Database) (s : Session) :
    (databaseSlot path).get ((databaseSlot path).set db s) = db := by
  have hothers : (s.databases.filter fun e => e.1 != s.absolute path).find? (fun e => e.1 == s.absolute path) =
      none := by
    rw [List.find?_eq_none]
    intro e he
    simpa using (List.mem_filter.mp he).2
  have hpath : (s.setDatabase path db).absolute path = s.absolute path := rfl
  show (s.setDatabase path db).databaseAt path = db
  unfold databaseAt
  rw [hpath]
  unfold setDatabase
  simp only [List.find?_append, hothers, Option.none_or, List.find?_singleton, beq_self_eq_true, if_true,
    Option.map_some, Option.getD_some]

end Session

namespace CommandLine

variable {s : Session} {c : Config} {root : String}

theorem delete_run {tables : TableStore} (htables : c.store.tables = .ok tables) {width : Nat} {x : Records}
    (h : tables.Holds width x (s.databaseAt c.store.database)) {spelled path : String}
    (hpath : relativeToRoot Session.disk root spelled s = .ok path) (models : Models) :
    ∃ s', execute models c (.delete root spelled) s =
        (.ok (asLine s!"Removed {(Changes.holders x.documents path).length} document record(s) for {path}"), s') ∧
      tables.Holds width (x.forget path) (s'.databaseAt c.store.database) := by
  obtain ⟨s', hrun, hheld⟩ := TableStore.Holds.removeAtPath_run (Session.databaseSlot_get_set c.store.database) h
    Session.conditions path
  refine ⟨s', ?_, hheld⟩
  have hstore : Action.ofExcept (openStore c) s = (.ok (Session.tableStore c.store.database tables), s) := by
    unfold openStore
    rw [htables]
    rfl
  have hspelled : (fun s => (relativeToRoot Session.disk root spelled s, s) : Action Session String) s =
      (.ok path, s) := congrArg (·, s) hpath
  exact (Action.bind_run_ok hspelled).trans ((Action.bind_run_ok hstore).trans (Action.bind_run_ok hrun))

theorem relativeToRoot_join_iff {canonical path : String} (hroot : Path.isAbsolute root = true)
    (hcanonical : Client.normalizeRoot Session.disk root s = .ok canonical) (hpath : Path.isAbsolute path = false) :
    relativeToRoot Session.disk root (Path.join root path) s = .ok path ↔
      (Path.below? canonical (Path.join root path)).map Path.normalize = some path := by
  obtain ⟨cs, hcs, -, tail, htail⟩ := Path.stem_toList hroot
  have habsolute : Path.isAbsolute (Path.join root path) = true := by
    rw [Path.isAbsolute_iff, Path.join_eq hpath, String.toList_append, hcs, htail]
    exact ⟨_, rfl⟩
  unfold relativeToRoot
  rw [habsolute, hcanonical]
  cases hbelow : Path.below? canonical (Path.join root path) with
  | none => simp [hbelow, bind, Except.bind]
  | some rest => simp [hbelow, bind, Except.bind, pure, Except.pure]

theorem canonical_eq {canonical : String} (h : Client.normalizeRoot Session.disk root s = .ok canonical) :
    ∃ base, Path.AreEntries base ∧ canonical = Path.ofParts base := by
  unfold Client.normalizeRoot at h
  split at h
  · rename_i path hpath
    obtain rfl := Except.ok.inj h
    change (s.tree.resolve s.directory root).map Path.ofParts = .ok path at hpath
    cases hresolve : s.tree.resolve s.directory root with
    | error e =>
      rw [hresolve] at hpath
      cases hpath
    | ok base =>
      rw [hresolve] at hpath
      exact ⟨base, FileTree.forall_seek Path.areEntries_parts hresolve, (Except.ok.inj hpath).symm⟩
  · cases h

theorem listed_lists (htree : s.tree.Sound) (hdots : ∀ e ∈ s.tree.nodes, "." ∉ e.1) {walker : Walker}
    {files : List SourceFile} (hlist : walker.list s.tree = .ok files) {f : SourceFile} (hf : f ∈ files) :
    ∃ ps, walker.Lists ps f ∧ Path.AreEntries ps := by
  obtain ⟨base, rfl⟩ := Walker.list_eq hlist
  rw [List.mem_mergeSort] at hf
  obtain ⟨ps, ⟨e, he, hkey⟩, hlists⟩ := Walker.mem_filesBelow htree hf
  refine ⟨ps, hlists, fun p hp => ⟨hlists.names p hp, ?_⟩⟩
  rintro rfl
  exact hdots e he (hkey ▸ List.mem_append_right base hp)

/-- **Spellings of a listed file.** A file that is listed below a root goes by its path there, unless a backslash in
its name puts a separator at an end of that path, which then is not tidy. A tidy path, given as it is, is understood;
given below the root it is so just if the root, as it was given, has the parts of the root without links. A removal
that understands a path takes the documents there and their chunks, and nothing else. -/
theorem spellings_agree {canonical : String} {files : List SourceFile} {f : SourceFile}
    (htree : s.tree.Sound) (hdots : ∀ e ∈ s.tree.nodes, "." ∉ e.1) (hroot : Path.isAbsolute root = true)
    (hcanonical : Client.normalizeRoot Session.disk root s = .ok canonical)
    (hlist : (c.source.walker canonical >>= fun walker => walker.list s.tree) = .ok files) (hf : f ∈ files) :
    (∃ walker ps, c.source.walker canonical = .ok walker ∧ walker.Lists ps f ∧
      ((∀ p ∈ ps, '\\' ∉ p.toList) → Path.Tidy f.path)) ∧
    (Path.Tidy f.path →
      relativeToRoot Session.disk root f.path s = .ok f.path ∧
      (relativeToRoot Session.disk root (Path.join root f.path) s = .ok f.path ↔
        Path.parts root = Path.parts canonical)) ∧
    ∀ models tables width x spelled, c.store.tables = .ok tables →
      tables.Holds width x (s.databaseAt c.store.database) →
      relativeToRoot Session.disk root spelled s = .ok f.path →
      ∃ s', execute models c (.delete root spelled) s =
          (.ok (asLine
            s!"Removed {(Changes.holders x.documents f.path).length} document record(s) for {f.path}"), s') ∧
        tables.Holds width (x.forget f.path) (s'.databaseAt c.store.database) := by
  obtain ⟨walker, hwalker, hlist⟩ := FileTree.exists_of_bind_eq_ok hlist
  obtain ⟨ps, hlists, hentries⟩ := listed_lists htree hdots hlist hf
  have hplain : '\\' ∉ f.path.toList := by
    rw [hlists.path]
    exact Path.not_mem_normalize _
  refine ⟨⟨walker, ps, hwalker, hlists, ?_⟩, ?_, ?_⟩
  · intro hnames
    rw [hlists.path_of_not_mem hnames]
    exact Path.tidy_intercalate hlists.nonempty hentries
  · intro htidy
    obtain ⟨base, hbase, rfl⟩ := canonical_eq hcanonical
    rw [relativeToRoot_join_iff hroot hcanonical htidy.isAbsolute_eq, Path.below?_join hbase hroot htidy hplain,
      Path.parts_ofParts hbase]
    refine ⟨?_, Iff.rfl⟩
    unfold relativeToRoot
    rw [htidy.isAbsolute_eq, Path.normalize_of_not_mem hplain]
    rfl
  · intro models tables width x spelled htables hheld hpath
    exact delete_run htables hheld hpath models

end CommandLine

namespace Session

/-- A session with a file in a directory that a link leads to, and with the document of that file. -/
def linked : Session :=
  { tree := ⟨[(["real"], .directory), (["real", "A.cs"], .file (classText "A").toUTF8), (["link"], .link "real")]⟩
    databases := [("/data/csharp-rag/lancedb", [("csharp_documents", .documents [⟨.ofNat 1, "A.cs", "0", 5⟩]),
      ("csharp_chunks", .chunks 2 [⟨.ofNat 2, .ofNat 1, "", "A", none, classText "A", 2, [0, 1], false⟩])])] }

theorem linked_sound : linked.tree.Sound := ⟨by decide, by decide⟩

def linkedConfig : Config := .defaults ⟨"/data", "/cache", "/config"⟩

theorem linked_listed : (linkedConfig.source.walker "/real" >>= fun walker => walker.list linked.tree) =
    .ok [⟨"A.cs", "/real/A.cs", 10⟩] := by decide +kernel

theorem linked_canonical {root : String} (hroot : root = "/real" ∨ root = "/link") :
    Client.normalizeRoot disk root linked = .ok "/real" := by
  rcases hroot with rfl | rfl <;> decide +kernel

theorem linked_holds : TableStore.Holds ⟨"csharp_documents", "csharp_chunks"⟩ 2
    ⟨[⟨.ofNat 1, "A.cs", "0", 5⟩], [⟨.ofNat 2, .ofNat 1, "", "A", none, classText "A", 2, [0, 1], false⟩]⟩
    (linked.databaseAt linkedConfig.store.database) := by
  have hdatabase : linked.absolute linkedConfig.store.database = "/data/csharp-rag/lancedb" := by decide +kernel
  unfold databaseAt
  rw [hdatabase]
  exact ⟨by decide, rfl, rfl⟩

end Session

open Session CommandLine in
/-- A file below a root without links is found by both spellings, and its document goes with its chunk. -/
theorem spellings_agree_real :
    relativeToRoot disk "/real" "A.cs" linked = .ok "A.cs" ∧
    relativeToRoot disk "/real" "/real/A.cs" linked = .ok "A.cs" ∧
    ∀ models, ∃ s', execute models linkedConfig (.delete "/real" "/real/A.cs") linked =
        (.ok "Removed 1 document record(s) for A.cs\n", s') ∧
      TableStore.Holds ⟨"csharp_documents", "csharp_chunks"⟩ 2 ⟨[], []⟩
        (s'.databaseAt linkedConfig.store.database) := by
  obtain ⟨-, hspelled, hdelete⟩ := spellings_agree linked_sound (by decide) (by decide +kernel)
    (linked_canonical (.inl rfl)) linked_listed List.mem_cons_self
  have htidy : Path.Tidy "A.cs" := ⟨.plain _ (by decide) (by decide), .plain _ (by decide) (by decide)⟩
  obtain ⟨hrelative, habsolute⟩ := hspelled htidy
  have hjoin : Path.join "/real" "A.cs" = "/real/A.cs" := by decide +kernel
  have hjoined : relativeToRoot disk "/real" "/real/A.cs" linked = .ok "A.cs" := hjoin ▸ habsolute.mpr rfl
  exact ⟨hrelative, hjoined, fun models => hdelete models _ _ _ "/real/A.cs" rfl linked_holds hjoined⟩

open Session CommandLine in
/-- Below a root that is a link, the path that starts with the link is refused. -/
theorem spelling_below_link :
    Client.normalizeRoot disk "/link" linked = .ok "/real" ∧
    (linkedConfig.source.walker "/real" >>= fun walker => walker.list linked.tree) =
      .ok [⟨"A.cs", "/real/A.cs", 10⟩] ∧
    relativeToRoot disk "/link" (Path.join "/link" "A.cs") linked =
      .error ((Fault.text "prefix not found").within "/link/A.cs is not inside /real") :=
  ⟨linked_canonical (.inr rfl), linked_listed, by decide +kernel⟩

end CodeCorpus
