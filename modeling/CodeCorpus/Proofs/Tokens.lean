import CodeCorpus.Proofs.Spans
import CodeCorpus.Syntax.Skip

/-!
# Places of tokens

The tokens that are cut from a source stand between places of it (`scan_placed`), and so do those that are left when
some have been passed over.
-/

namespace CodeCorpus.Syntax

def Token.Placed (source : String) (t : Token) : Prop := IsPlace source t.span.start ∧ IsPlace source t.span.stop

def AllPlaced (source : String) (ts : Tokens) : Prop := ∀ t ∈ ts, t.Placed source

namespace AllPlaced
variable {source : String} {t : Token} {ts rest : Tokens}

@[grind =]
theorem cons_iff : AllPlaced source (t :: ts) ↔ t.Placed source ∧ AllPlaced source ts := List.forall_mem_cons

@[grind .]
theorem nil : AllPlaced source [] := nofun

theorem peel (h : AllPlaced source ts) : AllPlaced source (peel ts) :=
  fun t ht => h t ((List.dropWhile_suffix _).mem ht)

theorem after? {text : String} (h : AllPlaced source ts) (ha : after? text ts = some rest) : AllPlaced source rest := by
  unfold Syntax.after? at ha
  have hpeel := h.peel
  grind

theorem getD {found : Option Tokens} (h : AllPlaced source ts) (hfound : ∀ rest, found = some rest → AllPlaced source rest) :
    AllPlaced source (found.getD ts) := by
  cases found with
  | none => exact h
  | some rest => exact hfound rest rfl

theorem orAfter {text : String} (h : AllPlaced source ts) : AllPlaced source (orAfter text ts) :=
  h.getD fun _ ha => h.after? ha

theorem getD_after? {text : String} (h : AllPlaced source ts) : AllPlaced source ((Syntax.after? text ts).getD []) := by
  cases ha : Syntax.after? text ts with
  | none => exact nil
  | some rest => exact h.after? ha

theorem skipBalanced {statement : Bool} {stack : List String} {ok : Bool} (h : AllPlaced source ts) :
    AllPlaced source (skipBalanced statement stack ok ts).1 := by
  fun_induction Syntax.skipBalanced statement stack ok ts <;> grind

theorem skipGroup {close : String} (h : AllPlaced source ts) : AllPlaced source (skipGroup close ts).1 := h.skipBalanced

theorem skipStatement (h : AllPlaced source ts) : AllPlaced source (skipStatement ts).1 := h.skipBalanced

theorem skipClauses {stack : List String} (h : AllPlaced source ts) : AllPlaced source (skipClauses stack ts) := by
  fun_induction Syntax.skipClauses stack ts <;> grind

theorem skipBody (h : AllPlaced source ts) : AllPlaced source (skipBody ts).1 := by
  have hpeel := h.peel
  unfold Syntax.skipBody
  split
  · rename_i t rest heq
    rw [heq, cons_iff] at hpeel
    split
    · exact hpeel.2.skipGroup
    · split
      · exact hpeel.2.skipStatement
      · split
        · exact hpeel.2
        · exact h
  · exact h

theorem skipAngles? {stack : List String} (h : AllPlaced source ts) (hs : skipAngles? stack ts = some rest) :
    AllPlaced source rest := by
  fun_induction Syntax.skipAngles? stack ts <;> grind

theorem orAngles (h : AllPlaced source ts) : AllPlaced source (orAngles ts) := by
  unfold Syntax.orAngles
  split
  · rename_i rest ha
    exact h.getD fun _ hs => (h.after? ha).skipAngles? hs
  · exact h

theorem skipRank? (h : AllPlaced source ts) (hs : skipRank? ts = some rest) : AllPlaced source rest := by
  fun_induction Syntax.skipRank? ts <;> grind

theorem skipSuffixes (fuel : Nat) (h : AllPlaced source ts) : AllPlaced source (skipSuffixes ts fuel) := by
  induction fuel generalizing ts with
  | zero => exact h
  | succ fuel ih =>
    unfold Syntax.skipSuffixes
    split
    · exact ih (h.after? (by assumption))
    · exact ih (h.after? (by assumption))
    · rename_i ha
      split
      · rename_i hr
        exact ih ((h.after? ha).peel.skipRank? hr)
      · exact h
    · exact h

theorem skipQualified (fuel : Nat) (h : AllPlaced source ts) : AllPlaced source (skipQualified ts fuel) := by
  induction fuel generalizing ts with
  | zero => exact h
  | succ fuel ih =>
    unfold Syntax.skipQualified
    dsimp only
    split
    · rename_i t rest hrest
      obtain ⟨found, hfound, hpeel⟩ := Option.map_eq_some_iff.mp hrest
      have hplaced : AllPlaced source found := by
        rcases Option.or_eq_some_iff.mp hfound with ha | ⟨_, ha⟩
        · exact h.after? ha
        · exact h.after? ha
      have hcons := hplaced.peel
      rw [hpeel, cons_iff] at hcons
      split
      · exact ih hcons.2.orAngles
      · exact h
    · exact h

theorem orConvention (h : AllPlaced source ts) : AllPlaced source (orConvention ts) := by
  unfold Syntax.orConvention
  dsimp only
  have hts : AllPlaced source (Syntax.orAfter "unmanaged" (Syntax.orAfter "managed" ts)) := h.orAfter.orAfter
  split
  · rename_i ha
    exact (hts.after? ha).skipGroup
  · exact hts

theorem skipType? (h : AllPlaced source ts) (hs : skipType? ts = some rest) : AllPlaced source rest := by
  unfold Syntax.skipType? at hs
  have hpeel : AllPlaced source (Syntax.peel (Syntax.orAfter "readonly" (Syntax.orAfter "ref" ts))) :=
    h.orAfter.orAfter.peel
  dsimp only at hs
  split at hs
  · cases hs
  · rename_i t inside heq
    rw [heq, cons_iff] at hpeel
    have hinside := hpeel.2
    split at hs
    · split at hs
      · cases hs
        exact hinside.skipGroup.skipSuffixes _
      · cases hs
    · split at hs
      · obtain ⟨_, hbind, rfl⟩ := Option.map_eq_some_iff.mp hs
        obtain ⟨_, hopening, hangles⟩ := Option.bind_eq_some_iff.mp hbind
        obtain ⟨_, hconvention, hopened⟩ := Option.bind_eq_some_iff.mp hopening
        obtain ⟨_, hstarred, rfl⟩ := Option.map_eq_some_iff.mp hconvention
        exact (((hinside.after? hstarred).orConvention.after? hopened).skipAngles? hangles).skipSuffixes _
      · split at hs
        · cases hs
          exact (hinside.orAngles.skipQualified _).skipSuffixes _
        · cases hs

end AllPlaced

section
variable {source : String}

/-! ## Scanning -/

theorem ofList_take_drop (before : String) (c : Char) (cs : List Char) (n : Nat) :
    before ++ String.ofList (c :: cs) = before ++ String.ofList (c :: cs.take n) ++ String.ofList (cs.drop n) := by
  rw [String.append_assoc, ← String.ofList_append, List.cons_append, List.take_append_drop]

theorem scanFrom_placed {before : String} {lineStart : Bool} {cs : List Char} {p : Position}
    (hsource : source = before ++ String.ofList cs) (hp : p = placeAfter before) :
    AllPlaced source (scanFrom p lineStart cs) := by
  fun_induction scanFrom p lineStart cs generalizing before with
  | case1 => exact .nil
  | case2 p lineStart c cs n taken next hkind =>
    rename_i ih
    apply ih (hsource.trans (ofList_take_drop before c cs n))
    rw [placeAfter_append, ← hp]
  | case3 p lineStart c cs n taken next kind hkind =>
    rename_i ih
    have hsplit := hsource.trans (ofList_take_drop before c cs n)
    have hnext : next = placeAfter (before ++ String.ofList taken) := by rw [placeAfter_append, ← hp]
    refine AllPlaced.cons_iff.mpr ⟨⟨⟨before, _, hsource, hp⟩, ⟨_, _, hsplit, hnext⟩⟩, ih hsplit hnext⟩

theorem scan_placed (source : String) : AllPlaced source (scan source) := by
  unfold scan
  split
  · rename_i cs heq
    have hsource : source = "" ++ String.ofList ('#' :: '!' :: cs) := by
      rw [← heq, String.ofList_toList, String.empty_append]
    have hsplit := hsource.trans (ofList_take_drop "" '#' ('!' :: cs) (restOfLine cs + 1))
    rw [List.take_succ_cons, List.drop_succ_cons] at hsplit
    have hstop := placeAfter_append "" ('#' :: '!' :: cs.take (restOfLine cs))
    exact AllPlaced.cons_iff.mpr ⟨⟨⟨"", _, hsource, rfl⟩, ⟨_, _, hsplit, hstop.symm⟩⟩, scanFrom_placed hsplit hstop.symm⟩
  · have hsource : source = "" ++ String.ofList source.toList := by rw [String.ofList_toList, String.empty_append]
    exact scanFrom_placed hsource rfl

end

end CodeCorpus.Syntax
