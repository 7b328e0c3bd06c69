import CodeCorpus.Proofs.Tokens
import CodeCorpus.Syntax.Tree

/-!
# Places of syntax trees

All nodes of the tree of a source stand between places of it (`parse_placed`). Each part of the parser gives nodes
whose spans come from the tokens it was given, and leaves tokens of the source; the parts that need each other are
proved together, by induction on the fuel (`Reads`).
-/

namespace CodeCorpus.Syntax

/-! ## Passing over items -/

namespace AllPlaced
variable {source : String} {ts rest : Tokens}

theorem skipValue {stack : List String} (h : AllPlaced source ts) : AllPlaced source (skipValue stack ts) := by
  fun_induction Syntax.skipValue stack ts <;> grind

theorem skipTopStatement {inExpression : Bool} {stack : List String} {ok : Bool} (h : AllPlaced source ts) :
    AllPlaced source (skipTopStatement inExpression stack ok ts).1 := by
  fun_induction Syntax.skipTopStatement inExpression stack ok ts <;> grind

theorem closing {stop : Position} (h : AllPlaced source ts) : AllPlaced source (closing stop ts) := by
  unfold Syntax.closing
  grind

theorem usingDirective? {ok : Bool} (h : AllPlaced source ts) (hu : usingDirective? ts = some (rest, ok)) :
    AllPlaced source rest := by
  unfold Syntax.usingDirective? at hu
  obtain ⟨named, hnamed, hu⟩ := Option.bind_eq_some_iff.mp hu
  obtain ⟨afterType, htype, hu⟩ := Option.bind_eq_some_iff.mp hu
  have hplaced := ((h.orAfter.after? hnamed).orAfter.orAfter).skipType? htype
  have htarget : ∀ b : Bool, AllPlaced source
      (if b then ((Syntax.after? "=" afterType).bind Syntax.skipType?).getD afterType else afterType) := by
    intro b
    split
    · apply hplaced.getD
      intro found hfound
      obtain ⟨_, ha, hfound⟩ := Option.bind_eq_some_iff.mp hfound
      exact (hplaced.after? ha).skipType? hfound
    · exact hplaced
  dsimp only at hu
  generalize ((Syntax.peel _).head?.map Token.isName == some true) = b at hu
  have hfits := htarget b
  generalize (if b then ((Syntax.after? "=" afterType).bind Syntax.skipType?).getD afterType else afterType) = target
    at hu hfits
  split at hu
  · rename_i ha
    cases hu
    exact hfits.after? ha
  · split at hu
    · cases hu
      exact hfits
    · cases hu

end AllPlaced

/-! ## Nodes -/

section
variable {source : String} {t : Token} {ts rest : Tokens}

def NodesPlaced (source : String) (ns : List Node) : Prop := ∀ n ∈ ns, n.Placed source

def Span.Placed (source : String) (s : Span) : Prop := IsPlace source s.start ∧ IsPlace source s.stop

namespace NodesPlaced
variable {n : Node} {ns ms : List Node}

theorem cons_iff : NodesPlaced source (n :: ns) ↔ n.Placed source ∧ NodesPlaced source ns := List.forall_mem_cons

theorem nil : NodesPlaced source [] := nofun

theorem append (h : NodesPlaced source ns) (h' : NodesPlaced source ms) : NodesPlaced source (ns ++ ms) :=
  List.forall_mem_append.mpr ⟨h, h'⟩

theorem singleton (h : n.Placed source) : NodesPlaced source [n] := cons_iff.mpr ⟨h, nil⟩

end NodesPlaced

theorem Span.Placed.node {n : Node} (h : n.span.Placed source) (hinside : NodesPlaced source n.children) : n.Placed source :=
  .mk h.1 h.2 hinside

theorem Span.Placed.leaf (kind : String) {span : Span} (h : span.Placed source) : (leaf kind span).Placed source :=
  .mk h.1 h.2 nofun

theorem AllPlaced.spanOf (h : AllPlaced source ts) (rest : Tokens) : (spanOf ts rest).Placed source := by
  have htaken : ∀ t ∈ (ts.take (ts.length - rest.length)).filter fun t => !t.isTrivia, t.Placed source :=
    fun t ht => h t (List.mem_of_mem_take (List.mem_of_mem_filter ht))
  unfold Syntax.spanOf
  dsimp only
  generalize (ts.take (ts.length - rest.length)).filter _ = taken at htaken
  constructor
  · cases hhead : taken.head? with
    | none => exact isPlace_default source
    | some t => exact (htaken t (List.mem_of_mem_head? hhead)).1
  · cases hlast : taken.getLast? with
    | none => exact isPlace_default source
    | some t => exact (htaken t (List.mem_of_mem_getLast? hlast)).2

theorem missingAt_placed {p : Position} (h : IsPlace source p) : (missingAt p).Placed source := .mk h h nofun

theorem marked_placed (ok : Bool) {stop : Position} {children : List Node} (h : NodesPlaced source children)
    (hstop : IsPlace source stop) : NodesPlaced source (marked ok stop children) := by
  unfold marked
  split
  · exact h
  · exact h.append (.singleton (missingAt_placed hstop))

theorem triviaNode_placed (h : t.Placed source) : (triviaNode t).Placed source := by
  unfold triviaNode
  split
  · exact Span.Placed.leaf _ h
  · exact Span.Placed.leaf _ h

theorem fixedNode_placed (h : t.Placed source) : (fixedNode t).Placed source := .mk h.1 h.2 nofun

theorem nameNode_placed (h : t.Placed source) : (nameNode t).Placed source := .mk h.1 h.2 nofun

theorem declaration_placed {span : Span} (hspan : span.Placed source) (h : t.Placed source) :
    (declaration span t).Placed source := by
  apply Span.Placed.node hspan
  apply NodesPlaced.singleton
  exact .mk h.1 h.2 (NodesPlaced.singleton (nameNode_placed h))

/-- Nodes that have been read and the tokens after them. -/
def Fits (source : String) (r : List Node × Tokens) : Prop := NodesPlaced source r.1 ∧ AllPlaced source r.2

theorem Fits.cons {n : Node} {r : List Node × Tokens} (hn : n.Placed source) (h : Fits source r) :
    Fits source (n :: r.1, r.2) := ⟨NodesPlaced.cons_iff.mpr ⟨hn, h.1⟩, h.2⟩

theorem AllPlaced.attributeLists (fuel : Nat) (h : AllPlaced source ts) : Fits source (attributeLists fuel ts) := by
  induction fuel generalizing ts with
  | zero => exact ⟨.nil, h⟩
  | succ fuel ih =>
    unfold Syntax.attributeLists
    split
    · rename_i inside ha
      have hspan := h.spanOf (Syntax.skipGroup "]" inside).1
      have hafter : AllPlaced source (Syntax.skipGroup "]" inside).1 := (h.after? ha).skipGroup
      refine ⟨NodesPlaced.cons_iff.mpr ⟨?_, (ih hafter).1⟩, (ih hafter).2⟩
      exact hspan.node (marked_placed _ .nil hspan.2)
    · exact ⟨.nil, h⟩

theorem AllPlaced.modifiers (fuel : Nat) (h : AllPlaced source ts) : Fits source (modifiers fuel ts) := by
  induction fuel generalizing ts with
  | zero => exact ⟨.nil, h⟩
  | succ fuel ih =>
    have hpeel := h.peel
    unfold Syntax.modifiers
    split
    · rename_i t rest heq
      rw [heq, cons_iff] at hpeel
      dsimp only
      split
      · exact ⟨NodesPlaced.cons_iff.mpr ⟨Span.Placed.leaf _ hpeel.1, (ih hpeel.2).1⟩, (ih hpeel.2).2⟩
      · exact ⟨.nil, h⟩
    · exact ⟨.nil, h⟩

theorem AllPlaced.typeParameters (h : AllPlaced source ts) : Fits source (typeParameters ts) := by
  unfold Syntax.typeParameters
  split
  · rename_i rest hs
    obtain ⟨_, ha, hs⟩ := Option.bind_eq_some_iff.mp hs
    exact ⟨.singleton ((h.spanOf rest).leaf _), (h.after? ha).skipAngles? hs⟩
  · exact ⟨.nil, h⟩

theorem AllPlaced.bracketed (kind opening closing : String) (h : AllPlaced source ts) :
    NodesPlaced source (bracketed kind opening closing ts).1 ∧ AllPlaced source (bracketed kind opening closing ts).2.1 := by
  unfold Syntax.bracketed
  split
  · rename_i inside ha
    exact ⟨.singleton ((h.spanOf _).leaf _), (h.after? ha).skipGroup⟩
  · exact ⟨.nil, h⟩

theorem AllPlaced.baseEntries (fuel : Nat) (h : AllPlaced source ts) : Fits source (baseEntries fuel ts) := by
  induction fuel generalizing ts with
  | zero => exact ⟨.nil, h⟩
  | succ fuel ih =>
    unfold Syntax.baseEntries
    split
    · rename_i rest hs
      have hspan := h.spanOf rest
      have hbracketed := (h.skipType? hs).bracketed "argument_list" "(" ")"
      have hentry := NodesPlaced.cons_iff.mpr ⟨hspan.leaf "type", marked_placed
        (Syntax.bracketed "argument_list" "(" ")" rest).2.2 hbracketed.1 hspan.2⟩
      dsimp only
      split
      · rename_i more ha
        have hmore := ih (hbracketed.2.after? ha)
        exact ⟨hentry.append hmore.1, hmore.2⟩
      · exact ⟨hentry, hbracketed.2⟩
    · exact ⟨.nil, h⟩

theorem AllPlaced.baseList (h : AllPlaced source ts) : Fits source (baseList ts) := by
  unfold Syntax.baseList
  split
  · rename_i inside ha
    have hentries := (h.after? ha).baseEntries inside.length
    exact ⟨.singleton ((h.spanOf _).node hentries.1), hentries.2⟩
  · exact ⟨.nil, h⟩

/-! ## Parts of declarations -/

theorem AllPlaced.memberName? (fuel : Nat) (h : AllPlaced source ts) {name : Token}
    (hm : memberName? fuel ts = some (name, rest)) : name.Placed source ∧ AllPlaced source rest := by
  induction fuel generalizing ts name rest with
  | zero => cases hm
  | succ fuel ih =>
    have hpeel := h.peel
    unfold Syntax.memberName? at hm
    split at hm
    · rename_i t rest' heq
      rw [heq, cons_iff] at hpeel
      split at hm
      · cases hm
      · split at hm
        · rename_i further hfurther
          have hplaced : AllPlaced source further := by
            rcases Option.or_eq_some_iff.mp hfurther with ha | ⟨_, ha⟩
            · exact hpeel.2.orAngles.after? ha
            · exact hpeel.2.orAngles.after? ha
          rcases Option.or_eq_some_iff.mp hm with hm | ⟨_, hm⟩
          · exact ih hplaced hm
          · cases hm
            exact hpeel
        · cases hm
          exact hpeel
    · cases hm

theorem AllPlaced.indexerStart? (fuel : Nat) (h : AllPlaced source ts) (hi : indexerStart? fuel ts = some rest) :
    AllPlaced source rest := by
  induction fuel generalizing ts with
  | zero => cases hi
  | succ fuel ih =>
    have hpeel := h.peel
    unfold Syntax.indexerStart? at hi
    split at hi
    · rename_i t rest' heq
      rw [heq, cons_iff] at hpeel
      split at hi
      · cases hi
        exact hpeel.2
      · split at hi
        · cases hi
        · obtain ⟨further, hfurther, hi⟩ := Option.bind_eq_some_iff.mp hi
          rcases Option.or_eq_some_iff.mp hfurther with ha | ⟨_, ha⟩
          · exact ih (hpeel.2.orAngles.after? ha) hi
          · exact ih (hpeel.2.orAngles.after? ha) hi
    · cases hi

theorem AllPlaced.operatorStart? (fuel : Nat) (h : AllPlaced source ts) (ho : operatorStart? fuel ts = some rest) :
    AllPlaced source rest := by
  induction fuel generalizing ts with
  | zero => cases ho
  | succ fuel ih =>
    have hpeel := h.peel
    unfold Syntax.operatorStart? at ho
    split at ho
    · rename_i t rest' heq
      rw [heq, cons_iff] at hpeel
      split at ho
      · cases ho
        exact hpeel.2.orAfter
      · split at ho
        · cases ho
        · obtain ⟨further, hfurther, ho⟩ := Option.bind_eq_some_iff.mp ho
          rcases Option.or_eq_some_iff.mp hfurther with ha | ⟨_, ha⟩
          · exact ih (hpeel.2.orAngles.after? ha) ho
          · exact ih (hpeel.2.orAngles.after? ha) ho
    · cases ho

def Parsed.Placed (source : String) (p : Parsed) : Prop := NodesPlaced source p.children ∧ AllPlaced source p.rest

section
variable {kind : String} {children : List Node} {p : Parsed}

theorem AllPlaced.callable (h : AllPlaced source ts) (hchildren : NodesPlaced source children)
    (hp : callable kind children ts = some p) : p.Placed source := by
  unfold Syntax.callable at hp
  split at hp
  · rename_i inside ha
    cases hp
    exact ⟨hchildren.append (.singleton ((h.spanOf _).leaf _)), ((h.after? ha).skipGroup.skipClauses).skipBody⟩
  · cases hp

theorem AllPlaced.accessible (h : AllPlaced source ts) (hchildren : NodesPlaced source children)
    (hp : accessible kind children ts = some p) : p.Placed source := by
  unfold Syntax.accessible at hp
  split at hp
  · rename_i inside ha
    dsimp only at hp
    split at hp
    · rename_i init hinit
      cases hp
      exact ⟨hchildren, ((h.after? ha).skipGroup.after? hinit).skipStatement⟩
    · cases hp
      exact ⟨hchildren, (h.after? ha).skipGroup⟩
  · split at hp
    · rename_i inside ha
      cases hp
      exact ⟨hchildren, (h.after? ha).skipStatement⟩
    · cases hp

theorem AllPlaced.operatorMember (h : AllPlaced source ts) (hp : operatorMember ts = some p) : p.Placed source :=
  AllPlaced.callable (fun t ht => h t ((List.dropWhile_suffix _).mem ht)) .nil hp

theorem AllPlaced.conversionMember (h : AllPlaced source ts) (hp : conversionMember ts = some p) : p.Placed source := by
  unfold Syntax.conversionMember at hp
  split at hp
  · rename_i rest hs
    obtain ⟨_, ho, hs⟩ := Option.bind_eq_some_iff.mp hs
    exact ((h.operatorStart? _ ho).skipType? hs).callable .nil hp
  · cases hp

theorem AllPlaced.eventMember (h : AllPlaced source ts) (hp : eventMember ts = some p) : p.Placed source := by
  unfold Syntax.eventMember at hp
  obtain ⟨afterType, htype, hp⟩ := Option.bind_eq_some_iff.mp hp
  obtain ⟨⟨name, rest⟩, hname, hp⟩ := Option.bind_eq_some_iff.mp hp
  obtain ⟨hname, hrest⟩ := (h.skipType? htype).memberName? _ hname
  dsimp only at hp
  split at hp
  · rename_i inside ha
    cases hp
    exact ⟨.singleton (nameNode_placed hname), (hrest.after? ha).skipGroup⟩
  · cases hp
    exact ⟨.singleton (declaration_placed (h.spanOf _) hname), hrest.skipStatement⟩

theorem AllPlaced.delegateMember (h : AllPlaced source ts) (hp : delegateMember ts = some p) : p.Placed source := by
  unfold Syntax.delegateMember at hp
  obtain ⟨afterType, htype, hp⟩ := Option.bind_eq_some_iff.mp hp
  obtain ⟨⟨name, rest⟩, hname, hp⟩ := Option.bind_eq_some_iff.mp hp
  obtain ⟨hname, hrest⟩ := (h.skipType? htype).memberName? _ hname
  exact hrest.typeParameters.2.callable (NodesPlaced.cons_iff.mpr ⟨nameNode_placed hname, hrest.typeParameters.1⟩) hp

theorem AllPlaced.typedMember (h : AllPlaced source ts) (hp : typedMember ts = some p) : p.Placed source := by
  unfold Syntax.typedMember at hp
  obtain ⟨afterType, htype, hp⟩ := Option.bind_eq_some_iff.mp hp
  have hafter := h.skipType? htype
  dsimp only at hp
  split at hp
  · exact (hafter.operatorStart? _ (by assumption)).operatorMember hp
  · rename_i hi
    have hbracketed := (hafter.indexerStart? _ hi).bracketed "bracketed_parameter_list" "[" "]"
    exact hbracketed.2.accessible hbracketed.1 hp
  · obtain ⟨⟨name, rest⟩, hname, hp⟩ := Option.bind_eq_some_iff.mp hp
    obtain ⟨hname, hrest⟩ := hafter.memberName? _ hname
    have hnode := nameNode_placed hname
    dsimp only at hp
    split at hp
    · exact hrest.typeParameters.2.callable (NodesPlaced.cons_iff.mpr ⟨hnode, hrest.typeParameters.1⟩) hp
    · split at hp
      · exact hrest.accessible (.singleton hnode) hp
      · split at hp
        · cases hp
          exact ⟨.singleton (declaration_placed (h.spanOf _) hname), hrest.skipStatement⟩
        · cases hp

theorem AllPlaced.plainMember (h : AllPlaced source ts) (hp : plainMember ts = some p) : p.Placed source := by
  have hpeel := h.peel
  unfold Syntax.plainMember at hp
  split at hp
  · cases hp
  · rename_i t rest heq
    rw [heq, cons_iff] at hpeel
    have hrest := hpeel.2
    split at hp
    · exact hrest.delegateMember hp
    · split at hp
      · exact hrest.eventMember hp
      · split at hp
        · exact hrest.conversionMember hp
        · split at hp
          · have hname := hrest.peel
            split at hp
            · rename_i name rest' heq'
              rw [heq', cons_iff] at hname
              split at hp
              · exact hname.2.callable (.singleton (nameNode_placed hname.1)) hp
              · cases hp
            · cases hp
          · split at hp
            · exact hrest.callable (.singleton (nameNode_placed hpeel.1)) hp
            · exact AllPlaced.typedMember (cons_iff.mpr hpeel) hp

theorem AllPlaced.enumMember (h : AllPlaced source ts) (hp : enumMember ts = some p) : p.Placed source := by
  have hpeel := h.peel
  unfold Syntax.enumMember at hp
  split at hp
  · rename_i t rest heq
    rw [heq, cons_iff] at hpeel
    have hend : ∀ after, AllPlaced source after →
        (if nextIs "," after || nextIs "\x7d" after || after.any (·.kind == .directive) then
          some (Parsed.mk "enum_member_declaration" [nameNode t] after true) else none) = some p → p.Placed source := by
      intro after hafter hend
      split at hend
      · cases hend
        exact ⟨.singleton (nameNode_placed hpeel.1), hafter⟩
      · cases hend
    split at hp
    · refine hend _ ?_ hp
      split
      · rename_i value ha
        exact (hpeel.2.after? ha).skipValue
      · exact hpeel.2
    · cases hp
  · cases hp

end

/-! ## Items -/

theorem AllPlaced.typeKeyword? (h : AllPlaced source ts) {kind : String} (hk : typeKeyword? ts = some (t, kind, rest)) :
    t.Placed source ∧ AllPlaced source rest := by
  unfold Syntax.typeKeyword? at hk
  dsimp only at hk
  split at hk
  · rename_i t rest heq
    have hpeel : AllPlaced source (t :: rest) := by
      rw [← heq]
      apply AllPlaced.peel
      split
      · rename_i ha
        split
        · exact (h.after? ha).orAfter
        · exact h
      · exact h
    rw [cons_iff] at hpeel
    split at hk
    · cases hk
    · split at hk
      · split at hk
        · cases hk
          exact ⟨hpeel.1, hpeel.2.orAfter.orAfter⟩
        · cases hk
      · obtain ⟨_, _, hk⟩ := Option.bind_eq_some_iff.mp hk
        split at hk
        · cases hk
          exact hpeel
        · cases hk
  · cases hk

theorem AllPlaced.typeHeader (h : AllPlaced source ts) : Fits source (typeHeader ts) := by
  have hpeel := h.peel
  unfold Syntax.typeHeader
  split
  · exact ⟨.nil, h⟩
  · rename_i name rest heq
    rw [heq, cons_iff] at hpeel
    have htypes := hpeel.2.typeParameters
    have hbracketed := htypes.2.bracketed "parameter_list" "(" ")"
    have hbases := hbracketed.2.baseList
    have hname := NodesPlaced.cons_iff.mpr ⟨nameNode_placed hpeel.1, htypes.1⟩
    refine ⟨(hname.append (marked_placed _ hbracketed.1 hpeel.1.2)).append hbases.1, ?_⟩
    dsimp only
    split
    · exact hbases.2.skipClauses
    · exact hbases.2

theorem AllPlaced.namespaceName? {n : Node} (h : AllPlaced source ts) (hn : namespaceName? ts = some (n, rest)) :
    n.Placed source ∧ AllPlaced source rest := by
  have hpeel := h.peel
  unfold Syntax.namespaceName? at hn
  split at hn
  · rename_i t inside heq
    rw [heq, cons_iff] at hpeel
    split at hn
    · cases hn
      have hspan := h.spanOf (Syntax.skipQualified inside inside.length)
      exact ⟨.mk hspan.1 hspan.2 nofun, hpeel.2.skipQualified _⟩
    · cases hn
  · cases hn

theorem AllPlaced.stopOf (h : AllPlaced source ts) (ht : t.Placed source) (rest : Tokens) :
    IsPlace source (stopOf t ts rest) := by
  unfold Syntax.stopOf
  cases hlast : (ts.take (ts.length - rest.length)).getLast? with
  | none => exact ht.2
  | some u => exact (h u (List.mem_of_mem_take (List.mem_of_mem_getLast? hlast))).2

/-- What is read, if anything is, stands between places of the text, and so does what is left. -/
def Gives (source : String) (read : Option (Node × Tokens)) : Prop :=
  ∀ n rest, read = some (n, rest) → n.Placed source ∧ AllPlaced source rest

/-- What is read with so much fuel stands between places of the text. -/
structure Reads (source : String) (fuel : Nat) : Prop where
  items : ∀ scope conditional {ts}, AllPlaced source ts → Fits source (items scope conditional fuel ts)
  branches : ∀ scope {ts}, AllPlaced source ts → Fits source (branches scope fuel ts)
  item : ∀ scope {ts}, AllPlaced source ts → Gives source (item? scope fuel ts)
  inNamespace : ∀ {ts p}, AllPlaced source ts → namespace? fuel ts = some p → p.Placed source
  inType : ∀ {kind ts p}, AllPlaced source ts → typeDeclaration? kind fuel ts = some p → p.Placed source
  body : ∀ {scope kind ts ns rest ok}, AllPlaced source ts → body? scope kind fuel ts = some (ns, rest, ok) →
    NodesPlaced source ns ∧ AllPlaced source rest

namespace Reads
variable {fuel : Nat} {scope : Scope} {conditional : Bool}

theorem items_step (ih : Reads source fuel) (h : AllPlaced source ts) :
    Fits source (Syntax.items scope conditional (fuel + 1) ts) := by
  cases ts with
  | nil => exact ⟨.nil, .nil⟩
  | cons t ts =>
    obtain ⟨ht, hts⟩ := AllPlaced.cons_iff.mp h
    rw [Syntax.items]
    split
    · have hbranches := ih.branches scope hts
      apply Fits.cons _ (ih.items scope conditional hbranches.2)
      exact .mk ht.1 (h.stopOf ht _) hbranches.1
    · split
      · split
        · exact ⟨.nil, h⟩
        · exact Fits.cons (Span.Placed.leaf _ ht) (ih.items scope conditional hts)
      · split
        · exact Fits.cons (triviaNode_placed ht) (ih.items scope conditional hts)
        · split
          · exact ⟨.nil, h⟩
          · split
            · exact Fits.cons (fixedNode_placed ht) (ih.items scope conditional hts)
            · split
              · rename_i n rest hitem
                obtain ⟨hn, hrest⟩ := ih.item scope h n rest hitem
                exact Fits.cons hn (ih.items scope conditional hrest)
              · exact Fits.cons (Span.Placed.leaf _ ht) (ih.items scope conditional hts)

theorem branches_step (ih : Reads source fuel) (h : AllPlaced source ts) :
    Fits source (Syntax.branches scope (fuel + 1) ts) := by
  have hitems := ih.items scope true h
  rw [Syntax.branches]
  dsimp only
  split
  · rename_i t rest heq
    have hrest := hitems.2
    rw [heq, AllPlaced.cons_iff] at hrest
    split
    · exact ⟨hitems.1, hrest.2⟩
    · split
      · have hmore := ih.branches scope hrest.2
        exact ⟨hitems.1.append hmore.1, hmore.2⟩
      · exact ⟨hitems.1.append (.singleton (missingAt_placed hrest.1.1)), AllPlaced.cons_iff.mpr hrest⟩
  · exact ⟨hitems.1.append (.singleton (missingAt_placed (isPlace_default source))), .nil⟩

theorem body_step {kind : String} {ns : List Node} {ok : Bool} (ih : Reads source fuel) (h : AllPlaced source ts)
    (hb : body? scope kind (fuel + 1) ts = some (ns, rest, ok)) : NodesPlaced source ns ∧ AllPlaced source rest := by
  have hpeel := h.peel
  rw [body?] at hb
  split at hb
  · rename_i opening inside heq
    rw [heq, AllPlaced.cons_iff] at hpeel
    have hitems := ih.items scope false hpeel.2
    have hopening := fixedNode_placed hpeel.1
    split at hb
    · dsimp only at hb
      split at hb
      · rename_i close after hclose
        have hafter := hitems.2
        rw [hclose, AllPlaced.cons_iff] at hafter
        cases hb
        have hinside := (NodesPlaced.cons_iff.mpr ⟨hopening, hitems.1⟩).append (.singleton (fixedNode_placed hafter.1))
        exact ⟨.singleton (.mk hpeel.1.1 hafter.1.2 hinside), hafter.2.closing⟩
      · cases hb
        exact ⟨NodesPlaced.cons_iff.mpr ⟨hopening, hitems.1⟩, .nil⟩
    · cases hb
  · cases hb

theorem inNamespace_step {p : Parsed} (ih : Reads source fuel) (h : AllPlaced source ts)
    (hp : namespace? (fuel + 1) ts = some p) : p.Placed source := by
  rw [namespace?] at hp
  obtain ⟨⟨name, rest⟩, hname, hp⟩ := Option.bind_eq_some_iff.mp hp
  obtain ⟨hname, hrest⟩ := h.namespaceName? hname
  dsimp only at hp
  split at hp
  · rename_i ha
    cases hp
    exact ⟨.singleton hname, hrest.after? ha⟩
  · obtain ⟨⟨body, rest', ok⟩, hbody, hp⟩ := Option.bind_eq_some_iff.mp hp
    obtain ⟨hbody, hrest⟩ := ih.body hrest hbody
    cases hp
    exact ⟨NodesPlaced.cons_iff.mpr ⟨hname, hbody⟩, hrest⟩

theorem inType_step {kind : String} {p : Parsed} (ih : Reads source fuel) (h : AllPlaced source ts)
    (hp : typeDeclaration? kind (fuel + 1) ts = some p) : p.Placed source := by
  have hheader := h.typeHeader
  rw [typeDeclaration?] at hp
  dsimp only at hp
  split at hp
  · cases hp
    exact ⟨hheader.1, hheader.2.after? (by assumption)⟩
  · cases hp
    exact hheader
  · obtain ⟨⟨body, rest', ok⟩, hbody, hp⟩ := Option.bind_eq_some_iff.mp hp
    obtain ⟨hbody, hrest⟩ := ih.body hheader.2 hbody
    cases hp
    exact ⟨hheader.1.append hbody, hrest⟩

/-- The node of an item with what was read of it, and the tokens after it. -/
def finished (ts : Tokens) (lead : List Node) (p : Parsed) : Node × Tokens :=
  (⟨p.kind, true, none, spanOf ts p.rest, marked p.ok (spanOf ts p.rest).stop (lead ++ p.children)⟩, p.rest)

theorem gives_map {lead : List Node} {read : Option Parsed} (h : AllPlaced source ts) (hlead : NodesPlaced source lead)
    (hread : ∀ p, read = some p → p.Placed source) : Gives source (read.map (finished ts lead)) := by
  intro n rest heq
  obtain ⟨p, hp, heq⟩ := Option.map_eq_some_iff.mp heq
  cases heq
  have hplaced := hread p hp
  have hspan := h.spanOf p.rest
  exact ⟨hspan.node (marked_placed p.ok (hlead.append hplaced.1) hspan.2), hplaced.2⟩

/-- An item of which nothing but its end matters. -/
theorem gives_plain {kind : String} {ok : Bool} (h : AllPlaced source ts) (hrest : AllPlaced source rest) :
    Gives source (some (finished ts [] ⟨kind, [], rest, ok⟩)) := by
  have hread : ∀ p, some (⟨kind, [], rest, ok⟩ : Parsed) = some p → p.Placed source := by
    intro p hp
    cases hp
    exact ⟨.nil, hrest⟩
  exact gives_map h .nil hread

/-- The items that both files and bodies hold, and others after attributes and modifiers. -/
theorem gives_item (other : List Node → Tokens → Option (Node × Tokens)) (ih : Reads source fuel)
    (h : AllPlaced source ts)
    (hother : ∀ lead rest, NodesPlaced source lead → AllPlaced source rest → Gives source (other lead rest)) :
    Gives source (match usingDirective? ts with
      | some (rest, ok) => some (finished ts [] ⟨"using_directive", [], rest, ok⟩)
      | none =>
        match after? "alias" ((after? "extern" ts).getD []) with
        | some rest =>
          let (rest, ok) := skipStatement rest
          some (finished ts [] ⟨"extern_alias_directive", [], rest, ok⟩)
        | none =>
          let attributes := attributeLists ts.length ts
          let (modifiers, rest) := modifiers attributes.2.length attributes.2
          let lead := attributes.1 ++ modifiers
          match after? "namespace" ts, typeKeyword? rest with
          | some name, _ => (namespace? fuel name).map (finished ts [])
          | none, some (keyword, kind, named) =>
            (typeDeclaration? kind fuel named).map (finished ts (lead ++ [fixedNode keyword]))
          | none, none => other lead rest) := by
  have hattributes := h.attributeLists ts.length
  have hmodifiers := hattributes.2.modifiers (attributeLists ts.length ts).2.length
  have hlead := hattributes.1.append hmodifiers.1
  split
  · exact gives_plain h (h.usingDirective? (by assumption))
  · split
    · rename_i ha
      exact gives_plain h (h.getD_after?.after? ha).skipStatement
    · dsimp only
      split
      · exact gives_map h .nil fun p hp => ih.inNamespace (h.after? (by assumption)) hp
      · rename_i hk
        obtain ⟨hkeyword, hnamed⟩ := hmodifiers.2.typeKeyword? hk
        exact gives_map h (hlead.append (.singleton (fixedNode_placed hkeyword))) fun p hp => ih.inType hnamed hp
      · exact hother _ _ hlead hmodifiers.2

/-- The other items of a file: attributes of the file as a whole, delegates and statements. -/
def otherInFile (ts : Tokens) (lead : List Node) (rest : Tokens) : Option (Node × Tokens) :=
  if globalAttribute ts then
    let (rest, ok) := skipGroup "]" ((after? "[" ts).getD [])
    some (finished ts [] ⟨"global_attribute", [], rest, ok⟩)
  else if nextIs "delegate" rest && (delegateMember (orAfter "delegate" rest)).isSome then
    (plainMember rest).map (finished ts lead)
  else if startsNothing ts then none
  else
    let (rest, ok) := skipTopStatement false [] true (orAfter "switch" ts)
    some (finished ts [] ⟨"global_statement", [], rest, ok⟩)

theorem gives_otherInFile {lead : List Node} (h : AllPlaced source ts) (hlead : NodesPlaced source lead)
    (hrest : AllPlaced source rest) : Gives source (otherInFile ts lead rest) := by
  unfold otherInFile
  split
  · exact gives_plain h (h.getD_after?).skipGroup
  · split
    · exact gives_map h hlead fun p hp => hrest.plainMember hp
    · split
      · exact nofun
      · exact gives_plain h h.orAfter.skipTopStatement

theorem item_step (ih : Reads source fuel) (h : AllPlaced source ts) : Gives source (item? scope (fuel + 1) ts) := by
  cases scope with
  | enumeration =>
    have hattributes := h.attributeLists ts.length
    rw [item?]
    exact gives_map h hattributes.1 fun p hp => hattributes.2.enumMember hp
  | declarations =>
    rw [item?]
    exact gives_item _ ih h fun lead rest hlead hrest => gives_map h hlead fun p hp => hrest.plainMember hp
  | file =>
    rw [item?]
    exact gives_item (otherInFile ts) ih h fun lead rest hlead hrest => gives_otherInFile h hlead hrest

end Reads

theorem reads (source : String) : ∀ fuel, Reads source fuel
  | 0 => ⟨fun _ _ _ h => ⟨.nil, h⟩, fun _ _ h => ⟨.nil, h⟩, fun _ _ _ => nofun, nofun, nofun, nofun⟩
  | fuel + 1 =>
    have ih := reads source fuel
    { items := fun _ _ _ h => ih.items_step h
      branches := fun _ _ h => ih.branches_step h
      item := fun _ _ h => ih.item_step h
      inNamespace := fun h hp => ih.inNamespace_step h hp
      inType := fun h hp => ih.inType_step h hp
      body := fun h hb => ih.body_step h hb }

/-- All that is read of a source stands between places of it. -/
theorem parse_placed (source : String) : (parse source).Placed source := by
  have hitems := (reads source (2 * (scan source).length + 4)).items .file false (scan_placed source)
  exact .mk (isPlace_default source) ⟨source, "", by simp, rfl⟩ hitems.1

end
end CodeCorpus.Syntax
