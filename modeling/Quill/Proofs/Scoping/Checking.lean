import Mathlib.Data.List.Forall2
import Quill.Proofs.Scoping.Rules
import Quill.Proofs.Tree.Names

/-!
# The scope check and the rules

`scopeIssues_eq_ruled`: the scope check of a program yields the issues of its mentions by the rules of
scopes, in their order and no others, and reports them in the words of the rules.

The proof follows the check through the tree. `Tracks` is what it carries along: each frame knows of
a name what the first earlier definition in its scope says (`Reflects`), and the check knows which
sorts of scopes are around. A statement keeps it, with its mentions behind the earlier ones, and
yields their issues (`Stmt.follows`). A scope starts with nothing defined in it since no mention stands
in it before it is entered (`Untouched`), and when it is left, nothing in it has defined a name in a
scope around it (`StandInside`).
-/

namespace Quill

/-! ## Mentions behind others -/

/-- The issues of mentions in order, behind earlier ones. -/
def issuesBehind (earlier : List Mention) : List Mention → List ScopeIssue
  | [] => []
  | mention :: rest =>
    (mention.issue? earlier).toList ++ issuesBehind (earlier ++ [mention]) rest

/-- The issues of mentions one after another are those of the first and then of the second. -/
theorem issuesBehind_append (earlier first second : List Mention) :
    issuesBehind earlier (first ++ second) =
      issuesBehind earlier first ++ issuesBehind (earlier ++ first) second := by
  induction first generalizing earlier with
  | nil => simp [issuesBehind]
  | cons mention rest ih => simp [issuesBehind, ih]

/-- A mention alone has its own issue, if it has one. -/
theorem issuesBehind_singleton (earlier : List Mention) (mention : Mention) :
    issuesBehind earlier [mention] = (mention.issue? earlier).toList := by
  simp [issuesBehind]

/-- Every mention is looked at behind those with smaller numbers. -/
theorem issuesBehind_eq (earlier mentions : List Mention) :
    issuesBehind earlier mentions =
      (mentions.zipIdx earlier.length).filterMap fun (mention, number) =>
        mention.issue? ((earlier ++ mentions).take number) := by
  induction mentions generalizing earlier with
  | nil => rfl
  | cons mention rest ih =>
    have hrest := ih (earlier ++ [mention])
    rw [List.length_append, List.length_singleton, List.append_assoc, List.singleton_append]
      at hrest
    have htake : (earlier ++ mention :: rest).take earlier.length = earlier := List.take_left
    rw [issuesBehind, hrest, List.zipIdx_cons, List.filterMap_cons]
    dsimp only
    rw [htake]
    cases mention.issue? earlier with
    | none => rfl
    | some issue => rfl

/-- The issues by the rules are those of all mentions behind none. -/
theorem ruledIssues_eq (mentions : List Mention) :
    ruledIssues mentions = issuesBehind [] mentions :=
  (issuesBehind_eq [] mentions).symm

/-! ## Definitions in scopes -/

/-- Definitions of further mentions come behind those of the earlier ones. -/
theorem definitions_append (first second : List Mention) (scope : TextScope) (name : String) :
    definitions (first ++ second) scope name =
      definitions first scope name ++ definitions second scope name :=
  List.filterMap_append

/-- A scope defines nothing where no mention stands directly inside of it. -/
theorem definitions_eq_nil {mentions : List Mention} {scope : TextScope}
    (h : ∀ mention ∈ mentions, mention.scopes.head? ≠ some scope) (name : String) :
    definitions mentions scope name = [] := by
  refine List.filterMap_eq_nil_iff.2 fun mention hmention => ?_
  unfold Mention.defines?
  split
  · exact if_neg fun hdefines => h mention hmention hdefines.1
  · rfl

/-- The mention defines nothing. -/
def Mention.IsUse (mention : Mention) : Prop :=
  ∀ sort name, mention.deed ≠ .define sort name

/-- What defines nothing adds no definitions. -/
theorem definitions_of_uses {mentions : List Mention} (h : ∀ mention ∈ mentions, mention.IsUse)
    (scope : TextScope) (name : String) : definitions mentions scope name = [] := by
  refine List.filterMap_eq_nil_iff.2 fun mention hmention => ?_
  unfold Mention.defines?
  split
  · next sort defined hdeed => exact absurd hdeed (h mention hmention sort defined)
  · rfl

/-! ## Frames and earlier definitions -/

/-- The frame knows of each name what the first definition in the scope says. The receiver's name is
left out: the frame of a class knows it, but no program mentions it as a name. -/
def Reflects (earlier : List Mention) (scope : TextScope) (frame : Frame) : Prop :=
  ∀ name, name ≠ receiverName → frame.get? name = (definitions earlier scope name).head?

/-- Mentions that define nothing in the scope leave the frame as it is. -/
theorem Reflects.append {earlier mentions : List Mention} {scope : TextScope} {frame : Frame}
    (h : Reflects earlier scope frame) (hnone : ∀ name, definitions mentions scope name = []) :
    Reflects (earlier ++ mentions) scope frame := by
  intro name hname
  rw [definitions_append, hnone, List.append_nil]
  exact h name hname

/-- What the innermost of some frames knows is what the nearest definition says. -/
theorem lookup?_eq_nearestDefinition? {earlier : List Mention} {scopes : List TextScope}
    {frames : List Frame} (h : List.Forall₂ (Reflects earlier) scopes frames) {name : String}
    (hname : name ≠ receiverName) :
    lookup? frames name = nearestDefinition? earlier scopes name := by
  induction h with
  | nil => rfl
  | cons hfirst _ ih =>
    unfold lookup? nearestDefinition? at ih ⊢
    rw [List.findSome?_cons, List.findSome?_cons, hfirst name hname, ih]

/-- No definition is near if none of the scopes around has one. -/
theorem nearestDefinition?_eq_none {earlier : List Mention} {scopes : List TextScope}
    {name : String} :
    nearestDefinition? earlier scopes name = none ↔
      ∀ scope ∈ scopes, definitions earlier scope name = [] := by
  simp [nearestDefinition?, List.findSome?_eq_none_iff]

/-- Declaring a name is an issue if it has been defined in the scope, and else the first definition
of it there. -/
theorem Reflects.declare {earlier : List Mention} {scope : TextScope} {frame : Frame}
    (h : Reflects earlier scope frame) (sort : SymbolSort) {name : Name}
    (hname : name.text ≠ receiverName) (outer : List TextScope) :
    (frame.declare name sort).2 =
        (Mention.issue? earlier ⟨.define sort name, scope :: outer⟩).toList
      ∧ Reflects (earlier ++ [⟨.define sort name, scope :: outer⟩]) scope
          (frame.declare name sort).1 := by
  have hget := h name.text hname
  have hone : ∀ key, definitions [⟨.define sort name, scope :: outer⟩] scope key =
      if name.text = key then [sort] else [] := by
    intro key
    by_cases hkey : name.text = key <;> simp [definitions, Mention.defines?, hkey]
  have hissue : Mention.issue? earlier ⟨.define sort name, scope :: outer⟩ =
      if definitions earlier scope name.text ≠ [] then
        some ⟨.duplicate sort name.text, name.line⟩ else none := by
    simp [Mention.issue?]
  unfold Frame.declare Bindings.contains
  rw [hissue, hget]
  cases hfirst : definitions earlier scope name.text with
  | nil =>
    refine ⟨by simp, fun key hkey => ?_⟩
    rw [definitions_append, hone]
    by_cases hsame : name.text = key
    · subst hsame
      simp [hfirst]
    · simp [Bindings.get?_insert, hsame, h key hkey]
  | cons first rest =>
    refine ⟨by simp, fun key hkey => ?_⟩
    rw [definitions_append, hone]
    by_cases hsame : name.text = key
    · subst hsame
      simp [hfirst, hget]
    · simp [hsame, h key hkey]


/-! ## Where mentions stand -/

/-- All that the mentions are directly inside of is at the place or inside of it. -/
def StandInside (place : List Nat) (mentions : List Mention) : Prop :=
  ∀ mention ∈ mentions, ∀ scope ∈ mention.scopes.head?, place <:+ scope.place

/-- All that the mentions are directly inside of is the innermost of the scopes, or at the place or
inside of it. -/
def StandAround (scopes : List TextScope) (place : List Nat) (mentions : List Mention) : Prop :=
  ∀ mention ∈ mentions, ∀ scope ∈ mention.scopes.head?,
    scope ∈ scopes.head? ∨ place <:+ scope.place

/-- Mentions that stand around the scopes may follow one another. -/
theorem StandAround.append {scopes : List TextScope} {place : List Nat}
    {first second : List Mention} (hfirst : StandAround scopes place first)
    (hsecond : StandAround scopes place second) : StandAround scopes place (first ++ second) := by
  intro mention hmention
  rcases List.mem_append.1 hmention with h | h
  · exact hfirst mention h
  · exact hsecond mention h

/-- What stands around a part stands around the whole. -/
theorem StandAround.part {scopes : List TextScope} {place : List Nat} {number : Nat}
    {mentions : List Mention} (h : StandAround scopes (number :: place) mentions) :
    StandAround scopes place mentions :=
  fun mention hmention scope hscope =>
    (h mention hmention scope hscope).imp_right (List.suffix_cons number place).trans

/-- What stands around a place inside a scope at that place stands inside of it. -/
theorem StandAround.inside {sort : ScopeSort} {place : List Nat} {outer : List TextScope}
    {mentions : List Mention} (h : StandAround (⟨sort, place⟩ :: outer) place mentions) :
    StandInside place mentions := by
  intro mention hmention scope hscope
  rcases h mention hmention scope hscope with hhead | hplace
  · rw [List.head?_cons, Option.mem_some_iff] at hhead
    exact hhead ▸ List.suffix_rfl
  · exact hplace

/-- What stands inside of a place stands around it too. -/
theorem StandInside.around {place : List Nat} {mentions : List Mention}
    (h : StandInside place mentions) (scopes : List TextScope) :
    StandAround scopes place mentions :=
  fun mention hmention scope hscope => .inr (h mention hmention scope hscope)

/-- A mention inside the scopes stands around every place. -/
theorem standAround_singleton (deed : Deed) (scopes : List TextScope) (place : List Nat) :
    StandAround scopes place [⟨deed, scopes⟩] := by
  intro mention hmention scope hscope
  rw [List.mem_singleton.1 hmention] at hscope
  exact .inl hscope

/-- The parameters of a function stand in its own scope. -/
theorem standAround_parameterMentions (scopes : List TextScope) (place : List Nat)
    (params : List Name) : StandAround scopes place (parameterMentions scopes params) := by
  intro mention hmention scope hscope
  obtain ⟨param, -, rfl⟩ := List.mem_map.1 hmention
  exact .inl hscope

mutual

/-- All that an expression mentions is mentioned in the scopes around it, and defines nothing. -/
theorem Expr.mentions_scopes (scopes : List TextScope) : (e : Expr) →
    ∀ mention ∈ e.mentions scopes, mention.scopes = scopes ∧ mention.IsUse
  | .literal _ _ => by simp [mentions]
  | .unary _ operand => mentions_scopes scopes operand
  | .binary left _ right => by
    rw [mentions]
    exact List.forall_mem_append.2 ⟨left.mentions_scopes scopes, right.mentions_scopes scopes⟩
  | .group inner => mentions_scopes scopes inner
  | .reference name => by simp [mentions, Mention.IsUse]
  | .assign name value => by
    rw [mentions]
    exact List.forall_mem_append.2 ⟨value.mentions_scopes scopes, by simp [Mention.IsUse]⟩
  | .call callee arguments _ => by
    rw [mentions]
    exact List.forall_mem_append.2
      ⟨callee.mentions_scopes scopes, listMentions_scopes scopes arguments⟩
  | .get object _ => mentions_scopes scopes object
  | .set object _ value => by
    rw [mentions]
    exact List.forall_mem_append.2 ⟨object.mentions_scopes scopes, value.mentions_scopes scopes⟩
  | .this line => by simp [mentions, Mention.IsUse]

/-- All that expressions mention is mentioned in the scopes around them, and defines nothing. -/
theorem Expr.listMentions_scopes (scopes : List TextScope) : (es : List Expr) →
    ∀ mention ∈ listMentions scopes es, mention.scopes = scopes ∧ mention.IsUse
  | [] => by simp [listMentions]
  | e :: rest => by
    rw [listMentions]
    exact List.forall_mem_append.2 ⟨e.mentions_scopes scopes, listMentions_scopes scopes rest⟩

end

/-- An expression that may be missing mentions nothing elsewhere, and defines nothing. -/
theorem Expr.optionMentions_scopes (scopes : List TextScope) (e : Option Expr) :
    ∀ mention ∈ optionMentions scopes e, mention.scopes = scopes ∧ mention.IsUse := by
  cases e with
  | none => simp [optionMentions]
  | some e => exact e.mentions_scopes scopes

/-- What is mentioned in the scopes themselves stands around them. -/
theorem standAround_of_scopes {scopes : List TextScope} {mentions : List Mention}
    (h : ∀ mention ∈ mentions, mention.scopes = scopes ∧ mention.IsUse) (place : List Nat) :
    StandAround scopes place mentions := by
  intro mention hmention scope hscope
  rw [(h mention hmention).1] at hscope
  exact .inl hscope

/-- The parameters and the body of a function stand inside of it. -/
theorem StandAround.inside_function {scopes : List TextScope} {place : List Nat}
    {body : List Mention} (hbody : StandAround (⟨.function, place⟩ :: scopes) place body)
    (params : List Name) :
    StandInside place (parameterMentions (⟨.function, place⟩ :: scopes) params ++ body) :=
  ((standAround_parameterMentions _ place params).append hbody).inside

/-- A function stands around the scopes if its body stands around its own one. -/
theorem StandAround.function {scopes : List TextScope} {place : List Nat} {body : List Mention}
    (hbody : StandAround (⟨.function, place⟩ :: scopes) place body) (name : Name)
    (params : List Name) :
    StandAround scopes place (⟨.define .function name, scopes⟩
      :: parameterMentions (⟨.function, place⟩ :: scopes) params ++ body) :=
  (standAround_singleton _ scopes place).append ((hbody.inside_function params).around scopes)

mutual

/-- All that a statement mentions stands in the innermost scope or inside of its place. -/
theorem Stmt.standAround_mentions (scopes : List TextScope) (place : List Nat) : (s : Stmt) →
    StandAround scopes place (s.mentions scopes place)
  | .expression value => by
    rw [Stmt.mentions]
    exact standAround_of_scopes (value.mentions_scopes scopes) place
  | .print value => by
    rw [Stmt.mentions]
    exact standAround_of_scopes (value.mentions_scopes scopes) place
  | .declare name initial => by
    rw [Stmt.mentions]
    exact (standAround_of_scopes (Expr.optionMentions_scopes scopes initial) place).append
      (standAround_singleton _ scopes place)
  | .block body => by
    rw [Stmt.mentions]
    exact (Stmt.standAround_listMentions (⟨.block, place⟩ :: scopes) place 0 body).inside.around scopes
  | .branch condition thenBranch none => by
    rw [Stmt.mentions]
    exact (standAround_of_scopes (condition.mentions_scopes scopes) place).append
      (thenBranch.standAround_mentions scopes (0 :: place)).part
  | .branch condition thenBranch (some elseBranch) => by
    rw [Stmt.mentions]
    exact ((standAround_of_scopes (condition.mentions_scopes scopes) place).append
      (thenBranch.standAround_mentions scopes (0 :: place)).part).append
      (elseBranch.standAround_mentions scopes (1 :: place)).part
  | .loop condition body => by
    rw [Stmt.mentions]
    exact (standAround_of_scopes (condition.mentions_scopes scopes) place).append
      (body.standAround_mentions scopes (0 :: place)).part
  | .leave line value => by
    rw [Stmt.mentions]
    exact (standAround_singleton _ scopes place).append
      (standAround_of_scopes (Expr.optionMentions_scopes scopes value) place)
  | .function ⟨name, params, body⟩ => by
    rw [Stmt.mentions]
    exact (Stmt.standAround_listMentions _ place 0 body).function name params
  | .classOf ⟨name, methods⟩ => by
    rw [Stmt.mentions]
    have hinside :=
      FunctionDecl.standAround_listMentions (⟨.classBody, place⟩ :: scopes) place 0 methods
    exact (standAround_singleton _ scopes place).append (hinside.inside.around scopes)

/-- All that statements mention stands in the innermost scope or inside of their places. -/
theorem Stmt.standAround_listMentions (scopes : List TextScope) (place : List Nat)
    (number : Nat) : (body : List Stmt) →
    StandAround scopes place (Stmt.listMentions scopes place number body)
  | [] => by simp [Stmt.listMentions, StandAround]
  | s :: rest => by
    rw [Stmt.listMentions]
    exact (s.standAround_mentions scopes (number :: place)).part.append
      (Stmt.standAround_listMentions scopes place (number + 1) rest)

/-- All that methods mention stands in the innermost scope or inside of their places. -/
theorem FunctionDecl.standAround_listMentions (scopes : List TextScope) (place : List Nat)
    (number : Nat) : (methods : List FunctionDecl) →
    StandAround scopes place (FunctionDecl.listMentions scopes place number methods)
  | [] => by simp [FunctionDecl.listMentions, StandAround]
  | ⟨name, params, body⟩ :: rest => by
    rw [FunctionDecl.listMentions]
    have hfirst := Stmt.standAround_listMentions (⟨.function, number :: place⟩ :: scopes)
      (number :: place) 0 body
    exact (hfirst.function name params).part.append
      (FunctionDecl.standAround_listMentions scopes place (number + 1) rest)

end

/-- No scope at the place or inside of it is around, and none has been mentioned in. -/
structure Untouched (earlier : List Mention) (scopes : List TextScope) (place : List Nat) :
    Prop where
  around : ∀ scope ∈ scopes, ¬place <:+ scope.place
  behind : ∀ mention ∈ earlier, ∀ scope ∈ mention.scopes.head?, ¬place <:+ scope.place

/-- Two parts of one thing have nothing inside of them in common. -/
theorem suffix_cons_inj {place inner : List Nat} {first second : Nat}
    (hfirst : first :: place <:+ inner) (hsecond : second :: place <:+ inner) : first = second := by
  have hsuffix := List.suffix_of_suffix_length_le hfirst hsecond (by simp)
  injection hsuffix.eq_of_length (by simp)

variable {earlier mentions : List Mention} {scopes : List TextScope} {place : List Nat}

/-- A part of an untouched place is untouched. -/
theorem Untouched.part (h : Untouched earlier scopes place) (number : Nat) :
    Untouched earlier scopes (number :: place) where
  around scope hscope hplace := h.around scope hscope ((List.suffix_cons number place).trans hplace)
  behind mention hmention scope hscope hplace :=
    h.behind mention hmention scope hscope ((List.suffix_cons number place).trans hplace)

/-- Mentions directly inside the scopes leave a place untouched. -/
theorem Untouched.append_around (h : Untouched earlier scopes place)
    (hmentions : ∀ mention ∈ mentions, mention.scopes = scopes) :
    Untouched (earlier ++ mentions) scopes place where
  around := h.around
  behind mention hmention scope hscope := by
    rcases List.mem_append.1 hmention with hearlier | hnew
    · exact h.behind mention hearlier scope hscope
    · rw [hmentions mention hnew] at hscope
      exact h.around scope (List.mem_of_mem_head? hscope)

/-- Mentions in one part of a thing leave another one untouched. -/
theorem Untouched.append_part {first second : Nat}
    (h : Untouched earlier scopes (second :: place))
    (hmentions : StandAround scopes (first :: place) mentions) (hne : first ≠ second) :
    Untouched (earlier ++ mentions) scopes (second :: place) where
  around := h.around
  behind mention hmention scope hscope hplace := by
    rcases List.mem_append.1 hmention with hearlier | hnew
    · exact h.behind mention hearlier scope hscope hplace
    · rcases hmentions mention hnew scope hscope with hhead | hinside
      · exact h.around scope (List.mem_of_mem_head? hhead) hplace
      · exact hne (suffix_cons_inj hinside hplace)

/-- The parts of a place are untouched in a scope there. -/
theorem Untouched.enter (h : Untouched earlier scopes place) (sort : ScopeSort) (number : Nat) :
    Untouched earlier (⟨sort, place⟩ :: scopes) (number :: place) where
  around scope hscope hplace := by
    rcases List.mem_cons.1 hscope with rfl | houter
    · exact absurd hplace.length_le (by simp)
    · exact (h.part number).around scope houter hplace
  behind := (h.part number).behind

/-! ## The check along the mentions -/

/-- The check stands where the mentions have come to: its frames know what the scopes have defined,
and it knows what is around. -/
structure Tracks (earlier : List Mention) (scopes : List TextScope) (around : Surroundings)
    (frame : Frame) : Prop where
  frames : List.Forall₂ (Reflects earlier) scopes (frame :: around.outer)
  nodup : scopes.Nodup
  inFunction : around.inFunction = true ↔ ∃ scope ∈ scopes, scope.sort = .function
  inClass : around.inClass = true ↔ ∃ scope ∈ scopes, scope.sort = .classBody

/-- From some mentions on, the check yields the issues of further ones and stands behind them. -/
structure Follows (earlier mentions : List Mention) (scopes : List TextScope)
    (around : Surroundings) (result : Frame × List ScopeIssue) : Prop where
  issues : result.2 = issuesBehind earlier mentions
  tracks : Tracks (earlier ++ mentions) scopes around result.1

variable {around : Surroundings} {frame : Frame} {first second : List Mention}
  {result result' : Frame × List ScopeIssue}

/-- The check of one stretch of mentions is continued by that of the next. -/
theorem Follows.append (hfirst : Follows earlier first scopes around result)
    (hsecond : Follows (earlier ++ first) second scopes around result') :
    Follows earlier (first ++ second) scopes around (result'.1, result.2 ++ result'.2) where
  issues := by rw [issuesBehind_append, ← hfirst.issues, ← hsecond.issues]
  tracks := List.append_assoc earlier first second ▸ hsecond.tracks

/-- Mentions that define nothing in the scopes leave the frames as they are. -/
theorem forall₂_reflects_append {frames : List Frame}
    (h : List.Forall₂ (Reflects earlier) scopes frames)
    (hnone : ∀ scope ∈ scopes, ∀ name, definitions mentions scope name = []) :
    List.Forall₂ (Reflects (earlier ++ mentions)) scopes frames := by
  induction h with
  | nil => exact .nil
  | cons hfirst _ ih =>
    exact .cons (hfirst.append (hnone _ List.mem_cons_self))
      (ih fun scope hscope => hnone scope (.tail _ hscope))

/-- What defines nothing in the scopes around leaves the check where it stands. -/
theorem Tracks.append (h : Tracks earlier scopes around frame)
    (hnone : ∀ scope ∈ scopes, ∀ name, definitions mentions scope name = []) :
    Tracks (earlier ++ mentions) scopes around frame :=
  { h with frames := forall₂_reflects_append h.frames hnone }

/-- What stands in a scope that has been left defines nothing in those around it. -/
theorem Tracks.append_inside (h : Tracks earlier scopes around frame)
    (hplace : Untouched earlier scopes place) (hmentions : StandInside place mentions) :
    Tracks (earlier ++ mentions) scopes around frame := by
  refine h.append fun scope hscope name => definitions_eq_nil (fun mention hmention hhead => ?_) name
  exact hplace.around scope hscope (hmentions mention hmention scope hhead)

/-- A scope is left with the frames as they were before it. -/
theorem Follows.leave {issues : List ScopeIssue}
    (hfirst : Follows earlier first scopes around result)
    (hplace : Untouched (earlier ++ first) scopes place) (hmentions : StandInside place second)
    (hissues : issues = issuesBehind (earlier ++ first) second) :
    Follows earlier (first ++ second) scopes around (result.1, result.2 ++ issues) where
  issues := by rw [issuesBehind_append, ← hfirst.issues, ← hissues]
  tracks := List.append_assoc earlier first second ▸ hfirst.tracks.append_inside hplace hmentions

/-- A use yields its issue. -/
theorem Tracks.use (h : Tracks earlier scopes around frame) {deed : Deed} {issues : List ScopeIssue}
    (huse : Mention.IsUse ⟨deed, scopes⟩)
    (hissues : issues = (Mention.issue? earlier ⟨deed, scopes⟩).toList) :
    Follows earlier [⟨deed, scopes⟩] scopes around (frame, issues) where
  issues := by rw [issuesBehind_singleton, hissues]
  tracks := h.append fun scope _ name => definitions_of_uses (by simpa using huse) scope name

/-- A definition yields its issue, and the frame knows of it if it is the first. -/
theorem Tracks.declare (h : Tracks earlier scopes around frame) (sort : SymbolSort) {name : Name}
    (hname : name.text ≠ receiverName) :
    Follows earlier [⟨.define sort name, scopes⟩] scopes around (frame.declare name sort) := by
  cases scopes with
  | nil => cases h.frames
  | cons scope outer =>
    obtain ⟨hfirst, hothers⟩ := List.forall₂_cons.1 h.frames
    obtain ⟨hissues, hreflects⟩ := hfirst.declare sort hname outer
    obtain ⟨hfresh, -⟩ := List.nodup_cons.1 h.nodup
    refine ⟨by rw [issuesBehind_singleton, hissues], { h with frames := .cons hreflects ?_ }⟩
    refine forall₂_reflects_append hothers fun scope' hscope' key => ?_
    refine definitions_eq_nil (fun mention hmention hhead => ?_) key
    rw [List.mem_singleton.1 hmention, List.head?_cons, Option.some_inj] at hhead
    exact hfresh (hhead ▸ hscope')

/-- The parameters of a function are checked one by one. -/
theorem Tracks.declareParameters {params : List Name} (h : Tracks earlier scopes around frame)
    (hnames : ∀ param ∈ params, param.text ≠ receiverName) :
    Follows earlier (parameterMentions scopes params) scopes around
      (frame.declareAll .parameter params) := by
  induction params generalizing earlier frame with
  | nil => exact ⟨rfl, (List.append_nil earlier).symm ▸ h⟩
  | cons param rest ih =>
    have hfirst := h.declare .parameter (hnames param List.mem_cons_self)
    exact hfirst.append (ih hfirst.tracks fun other hother => hnames other (.tail _ hother))

/-- A scope is entered with a frame that knows no name of the program. -/
theorem Tracks.enter (h : Tracks earlier scopes around frame)
    (hplace : Untouched earlier scopes place) (sort : ScopeSort) (inside : Surroundings)
    (inner : Frame) (houter : inside.outer = frame :: around.outer)
    (hinner : ∀ name, name ≠ receiverName → inner.get? name = none)
    (hfunction : inside.inFunction = true ↔ sort = .function ∨ around.inFunction = true)
    (hclass : inside.inClass = true ↔ sort = .classBody ∨ around.inClass = true) :
    Tracks earlier (⟨sort, place⟩ :: scopes) inside inner where
  frames := by
    rw [houter]
    refine .cons (fun name hname => ?_) h.frames
    rw [hinner name hname, definitions_eq_nil]
    · rfl
    · intro mention hmention hhead
      exact hplace.behind mention hmention _ hhead List.suffix_rfl
  nodup := List.nodup_cons.2 ⟨fun hmem => hplace.around _ hmem List.suffix_rfl, h.nodup⟩
  inFunction := by rw [hfunction, h.inFunction, List.exists_mem_cons_iff]
  inClass := by rw [hclass, h.inClass, List.exists_mem_cons_iff]

/-! ## Names that are not the receiver's -/

/-- No name among the marks is the receiver's. -/
def NamesOthers (marks : List Mark) : Prop :=
  ∀ name, Mark.name name ∈ marks → name.text ≠ receiverName

@[simp] theorem namesOthers_nil : NamesOthers [] :=
  fun _ hname => nomatch hname

@[simp] theorem namesOthers_cons {mark : Mark} {marks : List Mark} :
    NamesOthers (mark :: marks) ↔
      (∀ name, mark = .name name → name.text ≠ receiverName) ∧ NamesOthers marks := by
  simp only [NamesOthers, List.mem_cons]
  grind

@[simp] theorem namesOthers_append {first second : List Mark} :
    NamesOthers (first ++ second) ↔ NamesOthers first ∧ NamesOthers second := by
  simp only [NamesOthers, List.mem_append]
  grind

/-- The items of a list name others if the list does. -/
theorem NamesOthers.of_commaSeparated {lists : List (List Mark)}
    (h : NamesOthers (commaSeparated lists)) {marks : List Mark} (hmarks : marks ∈ lists) :
    NamesOthers marks :=
  fun name hname => h name (mem_commaSeparated hmarks hname)

/-- A function whose text names others does so in its name, its parameters and its body. -/
theorem namesOthers_function {name : Name} {params : List Name} {body : List Stmt}
    (h : NamesOthers (FunctionDecl.spelling ⟨name, params, body⟩)) :
    name.text ≠ receiverName ∧ (∀ param ∈ params, param.text ≠ receiverName)
      ∧ NamesOthers (Stmt.listSpelling body) := by
  refine ⟨h name (by simp [FunctionDecl.spelling]), fun param hparam => ?_, ?_⟩
  · have hlist : [Mark.name param] ∈ params.map fun p => [Mark.name p] :=
      List.mem_map_of_mem hparam
    have hmem := mem_commaSeparated hlist List.mem_cons_self
    exact h param (by simp [FunctionDecl.spelling, hmem])
  · rw [FunctionDecl.spelling, List.append_assoc, namesOthers_append] at h
    simp only [List.cons_append, namesOthers_cons, namesOthers_append] at h
    exact h.2.2.2.1

/-- Programs name nothing as the receiver is named. -/
theorem namesOthers_of_parse {source : String} {program : Program}
    (h : parse source = .ok program) : NamesOthers program.spelling := by
  intro name hname hreceiver
  have hnone := noReservedName_of_parse h _ hname name rfl
  rw [hreceiver] at hnone
  have hreserved : Keyword.ofText? receiverName = some .thisWord := rfl
  cases hreserved.symm.trans hnone

/-! ## The check follows the mentions -/

/-- Reading a name has the issue that the rules give it. -/
theorem Tracks.referenceIssues_eq (h : Tracks earlier scopes around frame) {name : Name}
    (hname : name.text ≠ receiverName) :
    referenceIssues (frame :: around.outer) name =
      (Mention.issue? earlier ⟨.read name, scopes⟩).toList := by
  simp only [referenceIssues, Mention.issue?, lookup?_eq_nearestDefinition? h.frames hname,
    ← nearestDefinition?_eq_none]
  cases nearestDefinition? earlier scopes name.text <;> simp

/-- Assigning to a name has the issue that the rules give it. -/
theorem Tracks.assignmentIssues_eq (h : Tracks earlier scopes around frame) {name : Name}
    (hname : name.text ≠ receiverName) :
    assignmentIssues (frame :: around.outer) name =
      (Mention.issue? earlier ⟨.assign name, scopes⟩).toList := by
  simp only [assignmentIssues, Mention.issue?, lookup?_eq_nearestDefinition? h.frames hname]
  cases nearestDefinition? earlier scopes name.text with
  | none => rfl
  | some sort => cases sort <;> simp [SymbolSort.isConstant]

/-- The receiver has the issue that the rules give it. -/
theorem Tracks.receiverIssues_eq (h : Tracks earlier scopes around frame) (line : Nat) :
    (if around.inClass then [] else [⟨.strayReceiver, line⟩]) =
      (Mention.issue? earlier ⟨.receiver line, scopes⟩).toList := by
  simp only [Mention.issue?, ← h.inClass]
  cases around.inClass <;> simp

/-- A return has the issue that the rules give it. -/
theorem Tracks.leaveIssues_eq (h : Tracks earlier scopes around frame) (line : Nat) :
    (if around.inFunction then [] else [⟨.topLevelReturn, line⟩]) =
      (Mention.issue? earlier ⟨.leave line, scopes⟩).toList := by
  simp only [Mention.issue?, ← h.inFunction]
  cases around.inFunction <;> simp

mutual

/-- The check of an expression follows its mentions, and the frame stays as it is. -/
theorem Expr.follows (e : Expr) {earlier : List Mention} (h : Tracks earlier scopes around frame)
    (hnames : NamesOthers e.spelling) :
    Follows earlier (e.mentions scopes) scopes around
      (frame, e.issues (frame :: around.outer) around.inClass) := by
  cases e with
  | literal value line => exact ⟨rfl, (List.append_nil earlier).symm ▸ h⟩
  | unary operator operand => exact operand.follows h (namesOthers_cons.1 hnames).2
  | binary left operator right =>
    rw [spelling, namesOthers_append, namesOthers_cons] at hnames
    have hleft := left.follows h hnames.1
    rw [mentions, Expr.issues]
    exact hleft.append (right.follows hleft.tracks hnames.2.2)
  | group inner =>
    rw [spelling, List.cons_append, namesOthers_cons, namesOthers_append] at hnames
    exact inner.follows h hnames.2.1
  | reference name =>
    refine h.use (by simp [Mention.IsUse]) (h.referenceIssues_eq ?_)
    exact hnames name (by simp [spelling])
  | assign name value =>
    have hname : name.text ≠ receiverName := hnames name (by simp [spelling])
    rw [spelling, namesOthers_cons, namesOthers_cons] at hnames
    have hvalue := value.follows h hnames.2.2
    rw [mentions, Expr.issues]
    exact hvalue.append
      (hvalue.tracks.use (by simp [Mention.IsUse]) (hvalue.tracks.assignmentIssues_eq hname))
  | call callee arguments line =>
    simp only [spelling, namesOthers_append, namesOthers_cons] at hnames
    have hcallee := callee.follows h hnames.1.1
    rw [mentions, Expr.issues]
    refine hcallee.append (listFollows arguments hcallee.tracks fun e he => ?_)
    refine hnames.1.2.2.of_commaSeparated ?_
    rw [listSpelling_eq_map]
    exact List.mem_map_of_mem he
  | get object property =>
    rw [spelling, namesOthers_append] at hnames
    exact object.follows h hnames.1
  | set object property value =>
    simp only [spelling, namesOthers_append, namesOthers_cons] at hnames
    have hobject := object.follows h hnames.1
    rw [mentions, Expr.issues]
    exact hobject.append (value.follows hobject.tracks hnames.2.2.2.2)
  | this line => exact h.use (by simp [Mention.IsUse]) (h.receiverIssues_eq line)

/-- The check of expressions follows their mentions. -/
theorem Expr.listFollows (es : List Expr) {earlier : List Mention}
    (h : Tracks earlier scopes around frame) (hnames : ∀ e ∈ es, NamesOthers e.spelling) :
    Follows earlier (listMentions scopes es) scopes around
      (frame, listIssues (frame :: around.outer) around.inClass es) := by
  cases es with
  | nil => exact ⟨rfl, (List.append_nil earlier).symm ▸ h⟩
  | cons e rest =>
    have hfirst := e.follows h (hnames e List.mem_cons_self)
    rw [listMentions, listIssues]
    exact hfirst.append
      (listFollows rest hfirst.tracks fun other hother => hnames other (.tail _ hother))

end

/-- The check of an expression that may be missing follows its mentions. -/
theorem Expr.optionFollows {e : Option Expr} {lead : List Mark}
    (h : Tracks earlier scopes around frame) (hnames : NamesOthers (optionSpelling lead e)) :
    Follows earlier (optionMentions scopes e) scopes around
      (frame, optionIssues (frame :: around.outer) around.inClass e) := by
  cases e with
  | none => exact ⟨rfl, (List.append_nil earlier).symm ▸ h⟩
  | some e => exact e.follows h (namesOthers_append.1 hnames).2

/-- The check follows the mentions of a function if it follows those of the body. -/
theorem Tracks.function (h : Tracks earlier scopes around frame)
    (hplace : Untouched earlier scopes place) {name : Name} {params : List Name} {body : List Stmt}
    (hnames : NamesOthers (FunctionDecl.spelling ⟨name, params, body⟩))
    (hbody : ∀ {earlier around frame}, Tracks earlier (⟨.function, place⟩ :: scopes) around frame →
      (∀ number, 0 ≤ number →
        Untouched earlier (⟨.function, place⟩ :: scopes) (number :: place)) →
      NamesOthers (Stmt.listSpelling body) →
      Follows earlier (Stmt.listMentions (⟨.function, place⟩ :: scopes) place 0 body)
        (⟨.function, place⟩ :: scopes) around (Stmt.listCheck around frame body)) :
    Follows earlier
      (⟨.define .function name, scopes⟩ :: parameterMentions (⟨.function, place⟩ :: scopes) params
        ++ Stmt.listMentions (⟨.function, place⟩ :: scopes) place 0 body) scopes around
      ((frame.declare name .function).1,
        (frame.declare name .function).2 ++ (Frame.declareAll .empty .parameter params).2
          ++ (Stmt.listCheck (around.insideFunction (frame.declare name .function).1)
            (Frame.declareAll .empty .parameter params).1 body).2) := by
  obtain ⟨hname, hparams, hbodyNames⟩ := namesOthers_function hnames
  have hdeclared := h.declare .function hname
  have hhere : Untouched (earlier ++ [⟨.define .function name, scopes⟩]) scopes place :=
    hplace.append_around (by simp)
  have hinside := hdeclared.tracks.enter hhere .function (around.insideFunction _) .empty rfl
    (fun _ _ => rfl)
    (by simp [Surroundings.insideFunction]) (by simp [Surroundings.insideFunction])
  have hparameters := hinside.declareParameters hparams
  have hall := hparameters.append (hbody hparameters.tracks (fun number _ =>
    (hhere.enter .function number).append_around fun mention hmention => by
      obtain ⟨param, -, rfl⟩ := List.mem_map.1 hmention
      rfl) hbodyNames)
  rw [List.append_assoc, List.cons_append]
  exact hdeclared.leave hhere ((Stmt.standAround_listMentions _ place 0 body).inside_function params)
    hall.issues

mutual

/-- The check of a statement follows its mentions. -/
theorem Stmt.follows (s : Stmt) {earlier : List Mention} {scopes : List TextScope}
    {place : List Nat} {around : Surroundings} {frame : Frame}
    (h : Tracks earlier scopes around frame) (hplace : Untouched earlier scopes place)
    (hnames : NamesOthers s.spelling) :
    Follows earlier (s.mentions scopes place) scopes around (s.check around frame) := by
  match s with
  | .expression value =>
    rw [Stmt.spelling, namesOthers_append] at hnames
    exact value.follows h hnames.1
  | .print value =>
    rw [Stmt.spelling, List.cons_append, namesOthers_cons, namesOthers_append] at hnames
    exact value.follows h hnames.2.1
  | .declare name initial =>
    have hname : name.text ≠ receiverName := hnames name (by simp [Stmt.spelling])
    simp only [Stmt.spelling, List.cons_append, namesOthers_append, namesOthers_cons] at hnames
    have hinitial := Expr.optionFollows h hnames.2.2.1
    rw [Stmt.mentions, Stmt.check]
    exact hinitial.append (hinitial.tracks.declare .var hname)
  | .block body =>
    rw [Stmt.spelling, List.cons_append, namesOthers_cons, namesOthers_append] at hnames
    have hinside : Tracks earlier (⟨.block, place⟩ :: scopes) (around.insideBlock frame) .empty :=
      h.enter hplace .block _ _ rfl (fun _ _ => rfl) (by simp [Surroundings.insideBlock])
        (by simp [Surroundings.insideBlock])
    have hbody := Stmt.listFollows body 0 hinside (fun other _ => hplace.enter .block other) hnames.2.1
    rw [Stmt.mentions, Stmt.check]
    exact ⟨hbody.issues,
      h.append_inside hplace (Stmt.standAround_listMentions _ place 0 body).inside⟩
  | .branch condition thenBranch none =>
    simp only [Stmt.spelling, List.cons_append, namesOthers_append, namesOthers_cons] at hnames
    have hcondition := condition.follows h hnames.2.2.1
    have hthen := thenBranch.follows hcondition.tracks ((hplace.part 0).append_around
      fun mention hmention => (condition.mentions_scopes scopes mention hmention).1)
      hnames.2.2.2.2
    rw [Stmt.mentions, Stmt.check]
    exact hcondition.append hthen
  | .branch condition thenBranch (some elseBranch) =>
    simp only [Stmt.spelling, List.cons_append, namesOthers_append, namesOthers_cons] at hnames
    obtain ⟨-, -, ⟨hcondNames, -, hthenNames⟩, -, helseNames⟩ := hnames
    have hcondition := condition.follows h hcondNames
    have hbranches : ∀ number,
        Untouched (earlier ++ condition.mentions scopes) scopes (number :: place) :=
      fun number => (hplace.part number).append_around
        fun mention hmention => (condition.mentions_scopes scopes mention hmention).1
    have hboth := hcondition.append
      (thenBranch.follows hcondition.tracks (hbranches 0) hthenNames)
    have hnew : Untouched (earlier ++ (condition.mentions scopes
        ++ thenBranch.mentions scopes (0 :: place))) scopes (1 :: place) := by
      rw [← List.append_assoc]
      exact (hbranches 1).append_part (thenBranch.standAround_mentions scopes (0 :: place))
        Nat.zero_ne_one
    rw [Stmt.mentions, Stmt.check]
    exact hboth.append (elseBranch.follows hboth.tracks hnew helseNames)
  | .loop condition body =>
    simp only [Stmt.spelling, List.cons_append, namesOthers_append, namesOthers_cons] at hnames
    have hcondition := condition.follows h hnames.2.2.1
    have hbody := body.follows hcondition.tracks ((hplace.part 0).append_around
      fun mention hmention => (condition.mentions_scopes scopes mention hmention).1)
      hnames.2.2.2.2
    rw [Stmt.mentions, Stmt.check]
    exact hcondition.append hbody
  | .leave line value =>
    simp only [Stmt.spelling, List.cons_append, namesOthers_append, namesOthers_cons] at hnames
    have hleave := h.use (by simp [Mention.IsUse]) (h.leaveIssues_eq line)
    rw [Stmt.mentions, Stmt.check]
    exact hleave.append (Expr.optionFollows hleave.tracks hnames.2.1)
  | .function ⟨name, params, body⟩ =>
    rw [Stmt.mentions, Stmt.check]
    exact h.function hplace (namesOthers_cons.1 hnames).2 (Stmt.listFollows body 0)
  | .classOf ⟨name, methods⟩ =>
    have hname : name.text ≠ receiverName := hnames name (by simp [Stmt.spelling])
    simp only [Stmt.spelling, List.cons_append, namesOthers_append, namesOthers_cons] at hnames
    obtain ⟨-, -, -, hmethodNames, -⟩ := hnames
    have hdeclared := h.declare .classSymbol hname
    have hhere : Untouched (earlier ++ [⟨.define .classSymbol name, scopes⟩]) scopes place :=
      hplace.append_around (by simp)
    have hinside := hdeclared.tracks.enter hhere .classBody (around.insideClass _) .ofClass rfl
      (fun key hkey => by simp [Frame.ofClass, Bindings.get?_insert, hkey.symm])
      (by simp [Surroundings.insideClass]) (by simp [Surroundings.insideClass])
    have hmethods := FunctionDecl.listFollows methods 0 hinside
      (fun other _ => hhere.enter .classBody other) hmethodNames
    have hstand :=
      FunctionDecl.standAround_listMentions (⟨.classBody, place⟩ :: scopes) place 0 methods
    rw [Stmt.mentions, Stmt.check]
    exact hdeclared.leave hhere hstand.inside hmethods

/-- The check of statements follows their mentions. -/
theorem Stmt.listFollows (body : List Stmt) (number : Nat) {earlier : List Mention}
    {scopes : List TextScope} {place : List Nat} {around : Surroundings} {frame : Frame}
    (h : Tracks earlier scopes around frame)
    (hplace : ∀ other, number ≤ other → Untouched earlier scopes (other :: place))
    (hnames : NamesOthers (Stmt.listSpelling body)) :
    Follows earlier (Stmt.listMentions scopes place number body) scopes around
      (Stmt.listCheck around frame body) := by
  match body with
  | [] => exact ⟨rfl, (List.append_nil earlier).symm ▸ h⟩
  | s :: rest =>
    obtain ⟨hfirstNames, hrestNames⟩ := namesOthers_append.1 hnames
    have hfirst := s.follows h (hplace number (Nat.le_refl number)) hfirstNames
    have hrest := Stmt.listFollows rest (number + 1) hfirst.tracks (fun other hother =>
      (hplace other (Nat.le_of_succ_le hother)).append_part
        (s.standAround_mentions scopes (number :: place)) (Nat.ne_of_lt hother)) hrestNames
    rw [Stmt.listMentions, Stmt.listCheck]
    exact hfirst.append hrest

/-- The check of methods follows their mentions. -/
theorem FunctionDecl.listFollows (methods : List FunctionDecl) (number : Nat)
    {earlier : List Mention} {scopes : List TextScope} {place : List Nat} {around : Surroundings}
    {frame : Frame} (h : Tracks earlier scopes around frame)
    (hplace : ∀ other, number ≤ other → Untouched earlier scopes (other :: place))
    (hnames : NamesOthers (FunctionDecl.methodSpelling methods)) :
    FunctionDecl.listCheck around frame methods =
      issuesBehind earlier (FunctionDecl.listMentions scopes place number methods) := by
  match methods with
  | [] => rfl
  | ⟨name, params, body⟩ :: rest =>
    simp only [FunctionDecl.methodSpelling, List.cons_append, namesOthers_append,
      namesOthers_cons] at hnames
    obtain ⟨-, -, hmethodNames, hrestNames⟩ := hnames
    have hfirst := h.function (hplace number (Nat.le_refl number)) hmethodNames
      (Stmt.listFollows body 0)
    have hstand := (Stmt.standAround_listMentions (⟨.function, number :: place⟩ :: scopes)
      (number :: place) 0 body).function name params
    have hrest := FunctionDecl.listFollows rest (number + 1) hfirst.tracks (fun other hother =>
      (hplace other (Nat.le_of_succ_le hother)).append_part hstand (Nat.ne_of_lt hother))
      hrestNames
    rw [FunctionDecl.listMentions, FunctionDecl.listCheck, issuesBehind_append, ← hfirst.issues,
      ← hrest]

end

/-- The check and the rules word an issue alike. -/
theorem ScopeCause.message_eq_wording (cause : ScopeCause) : cause.message = cause.wording := by
  cases cause with
  | duplicate sort name => cases sort <;> rfl
  | _ => rfl

/-- An issue is reported with its line and the text that the rules have for it. -/
theorem ScopeIssue.report_eq (issue : ScopeIssue) :
    issue.report = "[line " ++ toString issue.line ++ "] Error: " ++ issue.cause.wording := by
  rw [ScopeIssue.report, ScopeCause.message_eq_wording]
  rfl

/-- **The rules of scopes.** The scope check of a program yields the issues of all its mentions, each
by the rule for it, in the order of the mentions and no others, and its reports are those of the
rules. -/
theorem scopeIssues_eq_ruled {source : String} {program : Program}
    (h : parse source = .ok program) :
    program.scopeIssues = ruledIssues program.mentions
      ∧ program.scopeIssues.map ScopeIssue.report = ruledReports program.mentions := by
  have hstart : Tracks [] [.ofProgram] .top .empty :=
    ⟨.cons (fun _ _ => rfl) .nil, by simp, by simp [Surroundings.top, TextScope.ofProgram],
      by simp [Surroundings.top, TextScope.ofProgram]⟩
  have hplace : ∀ number, 0 ≤ number → Untouched [] [.ofProgram] (number :: []) :=
    fun number _ => ⟨by simp [TextScope.ofProgram], by simp⟩
  have hissues : program.scopeIssues = ruledIssues program.mentions := by
    rw [ruledIssues_eq]
    exact (Stmt.listFollows program.declarations 0 hstart hplace (namesOthers_of_parse h)).issues
  refine ⟨hissues, ?_⟩
  rw [hissues, ruledReports]
  exact List.map_congr_left fun issue _ => issue.report_eq

/-- A program that breaks every rule. Inside of the function `f` the name is a constant until it is
defined there, and the block may assign to its own `C`, while the class outside stays a constant
although a variable is defined under its name. -/
def doubtfulProgram : String :=
  "let a = a; fn f(a, a) \x7b f = a; let f; f = this; \x7d\n"
    ++ "class C \x7b fn m() \x7b m = n; return this; \x7d fn m() \x7b\x7d \x7d\n"
    ++ "\x7b let C; C = 1; \x7d let C; C = a; return;"

/-- Every rule yields its report. -/
theorem scopeIssues_eq_ruled_doubtful :
    ∃ program, parse doubtfulProgram = .ok program
      ∧ (program.scopeIssues = ruledIssues program.mentions
        ∧ program.scopeIssues.map ScopeIssue.report = ruledReports program.mentions)
      ∧ program.scopeIssues.map ScopeIssue.report =
        ["[line 1] Error: Undefined variable 'a'.",
          "[line 1] Error: Parameter 'a' is already defined in this scope.",
          "[line 1] Error: Cannot assign to constant 'f'.",
          "[line 1] Error: Cannot use 'this' outside of a class.",
          "[line 2] Error: Undefined variable 'n'.",
          "[line 2] Error: Cannot assign to constant 'm'.",
          "[line 2] Error: Function 'm' is already defined in this scope.",
          "[line 3] Error: Variable 'C' is already defined in this scope.",
          "[line 3] Error: Cannot assign to constant 'C'.",
          "[line 3] Error: Cannot return from top-level code."] := by
  have hissues : (parse doubtfulProgram).toOption.map Program.scopeIssues =
      some [⟨.undefined "a", 1⟩, ⟨.duplicate .parameter "a", 1⟩, ⟨.constant "f", 1⟩,
        ⟨.strayReceiver, 1⟩, ⟨.undefined "n", 2⟩, ⟨.constant "m", 2⟩,
        ⟨.duplicate .function "m", 2⟩, ⟨.duplicate .var "C", 3⟩, ⟨.constant "C", 3⟩,
        ⟨.topLevelReturn, 3⟩] := by
    decide +kernel
  obtain ⟨program, hsome, hvalue⟩ := Option.map_eq_some_iff.1 hissues
  have hparse := parse_eq_ok_of_toOption hsome
  refine ⟨program, hparse, scopeIssues_eq_ruled hparse, ?_⟩
  rw [hvalue]
  decide +kernel

end Quill
