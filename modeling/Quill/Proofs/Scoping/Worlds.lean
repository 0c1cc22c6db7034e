import Mathlib.Data.List.Forall2
import Mathlib.Logic.Function.Basic
import Quill.Proofs.Scoping.Sites
import Quill.Store

/-!
# Worlds

A running program knows of a scope only what it binds. A `World` knows more: which scope of the text
it stands for, how far that has come, and the scopes around it. Worlds grow as the program runs. New
scopes come in, and a scope that is known moves on from statement to statement (`Level.Le`,
`World.Le`); while an expression is evaluated, all scopes that are known stay where they are
(`World.Extends`).

What is said of values is said in a world. A function is in order if its body is settled inside of
levels that the scopes around it have reached, however far they have come since; this does not
change when the world grows. `Consistent` ties a world to a store.
-/

namespace Quill

/-! ## How levels move on -/

/-- A level moves on: it keeps the names that it has, and the functions and classes that it declares
in the meantime are among those to come. -/
structure Level.Le (a b : Level) : Prop where
  names : ∀ {name sort}, a.names.get? name = some sort → b.names.get? name = some sort
  constants : ∀ {name sort}, a.names.get? name = none → b.names.get? name = some sort →
    sort.isConstant = true → name ∈ a.later
  later : b.later ⊆ a.later
  classOf : b.classOf? = a.classOf?

namespace Level.Le

/-- A level that stands still has moved on. -/
theorem refl (a : Level) : Level.Le a a where
  names h := h
  constants := by
    intro name sort hnone hsome
    rw [hnone] at hsome
    cases hsome
  later := List.Subset.refl _
  classOf := rfl

/-- Moving on is done step by step. -/
theorem trans {a b c : Level} (hab : Level.Le a b) (hbc : Level.Le b c) : Level.Le a c where
  names h := hbc.names (hab.names h)
  constants := by
    intro name sort hnone hsome hconst
    cases hb : b.names.get? name with
    | none => exact hab.later (hbc.constants hb hsome hconst)
    | some sort' =>
      have hsame := hbc.names hb
      rw [hsome] at hsame
      cases hsame
      exact hab.constants hnone hb hconst
  later := List.Subset.trans hbc.later hab.later
  classOf := hbc.classOf.trans hab.classOf

/-- Declaring a new name moves a level on, if a function or class was to come. -/
theorem declare {a : Level} {name : String} {sort : SymbolSort} (hnew : a.names.get? name = none)
    (hlater : sort.isConstant = true → name ∈ a.later) : Level.Le a (a.declare name sort) where
  names := by
    intro other sort' h
    rw [Level.declare, Bindings.get?_insert]
    split
    · next hname =>
      rw [← hname, hnew] at h
      cases h
    · exact h
  constants := by
    intro other sort' hnone hsome hconst
    rw [Level.declare, Bindings.get?_insert] at hsome
    split at hsome
    · next hname =>
      cases hsome
      exact hname ▸ hlater hconst
    · rw [hnone] at hsome
      cases hsome
  later := by
    rw [Level.declare]
    dsimp only
    split
    · exact List.erase_subset
    · exact List.Subset.refl _
  classOf := rfl

end Level.Le

/-! ## Worlds -/

/-- What is known of a scope: its level, and the scopes around it. -/
structure Standing where
  /-- The scope of the text that it stands for, as far as it has come. -/
  level : Level
  /-- The scopes around it, nearest first. -/
  enclosing : List ScopeId

/-- What is known of scopes. Scopes of earlier runs are not known. -/
abbrev World := ScopeId → Option Standing

namespace World

/-- Everything that is known is still known, perhaps further on. -/
def Le (W W' : World) : Prop :=
  ∀ id g, W id = some g →
    ∃ g', W' id = some g' ∧ g.level.Le g'.level ∧ g'.enclosing = g.enclosing

/-- Everything that is known but for one scope stays as it is. -/
def ExtendsBut (scope : ScopeId) (W W' : World) : Prop :=
  ∀ id g, id ≠ scope → W id = some g → W' id = some g

/-- Everything that is known stays as it is. -/
def Extends (W W' : World) : Prop :=
  ∀ id g, W id = some g → W' id = some g

variable {W W' W'' : World}

/-- What is known is still known. -/
theorem Le.refl (W : World) : W.Le W := fun _ g h => ⟨g, h, .refl _, rfl⟩

/-- What is still known in a further world is so from step to step. -/
theorem Le.trans (h : W.Le W') (h' : W'.Le W'') : W.Le W'' := by
  intro id g hg
  obtain ⟨g₁, hg₁, hle₁, henc₁⟩ := h id g hg
  obtain ⟨g₂, hg₂, hle₂, henc₂⟩ := h' id g₁ hg₁
  exact ⟨g₂, hg₂, hle₁.trans hle₂, henc₂.trans henc₁⟩

/-- What is known stays as it is where nothing changes. -/
theorem Extends.refl (W : World) : W.Extends W := fun _ _ h => h

/-- What stays as it is does so from step to step. -/
theorem Extends.trans (h : W.Extends W') (h' : W'.Extends W'') : W.Extends W'' :=
  fun id g hg => h' id g (h id g hg)

/-- What stays as it is is still known. -/
theorem Extends.le (h : W.Extends W') : W.Le W' := fun id g hg => ⟨g, h id g hg, .refl _, rfl⟩

/-- What stays as it is does so apart from any scope. -/
theorem Extends.but (h : W.Extends W') (scope : ScopeId) : W.ExtendsBut scope W' :=
  fun id g _ hg => h id g hg

/-- What stays as it is apart from a scope does so from step to step. -/
theorem ExtendsBut.trans {scope : ScopeId} (h : W.ExtendsBut scope W')
    (h' : W'.ExtendsBut scope W'') : W.ExtendsBut scope W'' :=
  fun id g hid hg => h' id g hid (h id g hid hg)

/-- A scope comes in that was not known. -/
theorem extends_update {id : ScopeId} (hnew : W id = none) (g : Standing) :
    W.Extends (Function.update W id (some g)) := by
  intro other g' hg'
  have hne : other ≠ id := by
    rintro rfl
    rw [hnew] at hg'
    cases hg'
  rw [Function.update_of_ne hne]
  exact hg'

/-- A scope that is known moves on. -/
theorem extendsBut_update (id : ScopeId) (g : Standing) :
    W.ExtendsBut id (Function.update W id (some g)) := by
  intro other g' hne hg'
  rw [Function.update_of_ne hne]
  exact hg'

/-- A world is further on when the level of one scope has moved on. -/
theorem le_update {id : ScopeId} {g : Standing} (hg : W id = some g) {level : Level}
    (hle : g.level.Le level) : W.Le (Function.update W id (some ⟨level, g.enclosing⟩)) := by
  intro other g' hg'
  by_cases hid : other = id
  · subst hid
    rw [hg] at hg'
    cases hg'
    exact ⟨_, Function.update_self .., hle, rfl⟩
  · exact ⟨g', by rw [Function.update_of_ne hid]; exact hg', .refl _, rfl⟩

/-- The scope has declared the name as a function or class. -/
def HasConstant (W : World) (scope : ScopeId) (name : String) : Prop :=
  ∃ g sort, W scope = some g ∧ g.level.names.get? name = some sort ∧ sort.isConstant = true

/-- A name that was declared as a constant stays one. -/
theorem HasConstant.mono (h : W.Le W') {scope : ScopeId} {name : String}
    (hconst : W.HasConstant scope name) : W'.HasConstant scope name := by
  obtain ⟨g, sort, hg, hsort, hc⟩ := hconst
  obtain ⟨g', hg', hle, -⟩ := h scope g hg
  exact ⟨g', sort, hg', hle.names hsort, hc⟩

/-- A name that was declared as a variable or parameter is no constant. -/
theorem not_hasConstant {scope : ScopeId} {g : Standing} (hg : W scope = some g) {name : String}
    {sort : SymbolSort} (hname : g.level.names.get? name = some sort)
    (hsort : sort.isConstant = false) : ¬W.HasConstant scope name := by
  rintro ⟨g', sort', hg', hname', hc⟩
  rw [hg] at hg'
  cases hg'
  rw [hname] at hname'
  cases hname'
  rw [hsort] at hc
  cases hc

/-! ## Chains of scopes -/

/-- The scope has come at least as far as the level. -/
def Reached (W : World) (id : ScopeId) (level : Level) : Prop :=
  ∃ g, W id = some g ∧ level.Le g.level

/-- The scope is just at the level. -/
def IsAt (W : World) (id : ScopeId) (level : Level) : Prop :=
  ∃ g, W id = some g ∧ g.level = level

/-- Scopes, each of which has come at least as far as the level beside it. -/
def Aligned (W : World) : List ScopeId → List Level → Prop :=
  List.Forall₂ W.Reached

/-- A scope that is just at a level has come that far. -/
theorem IsAt.reached {id : ScopeId} {level : Level} (h : W.IsAt id level) : W.Reached id level := by
  obtain ⟨g, hg, rfl⟩ := h
  exact ⟨g, hg, .refl _⟩

/-- Every scope of a chain is known. -/
theorem Aligned.known {ids : List ScopeId} {levels : List Level} (h : W.Aligned ids levels) :
    ∀ id ∈ ids, ∃ g, W id = some g := by
  induction h with
  | nil => nofun
  | cons hreached _ ih =>
    intro id hid
    rcases List.mem_cons.1 hid with rfl | hid
    · obtain ⟨g, hg, -⟩ := hreached
      exact ⟨g, hg⟩
    · exact ih id hid

/-- Scopes that have come as far as their levels stay so in a further world. -/
theorem Aligned.mono (h : W.Le W') {ids : List ScopeId} {levels : List Level}
    (haligned : W.Aligned ids levels) : W'.Aligned ids levels := by
  refine List.Forall₂.imp (fun id level hreached => ?_) haligned
  obtain ⟨g, hg, hle⟩ := hreached
  obtain ⟨g', hg', hle', -⟩ := h id g hg
  exact ⟨g', hg', hle.trans hle'⟩

/-- A scope is the innermost one at a site of the text: the scopes of the function that is running
are just as far as the site, those around the function at least as far. -/
structure StandsAt (W : World) (scope : ScopeId) (p : Site) (g : Standing) : Prop where
  known : W scope = some g
  levels : ∃ inner outer, g.enclosing = inner ++ outer ∧ g.level = p.here
    ∧ List.Forall₂ W.IsAt inner p.around ∧ W.Aligned outer p.captured

/-- The scopes around a site have come as far as its levels. -/
theorem StandsAt.aligned {scope : ScopeId} {p : Site} {g : Standing} (h : W.StandsAt scope p g) :
    W.Aligned (scope :: g.enclosing) p.levels := by
  obtain ⟨inner, outer, henc, hhere, hinner, houter⟩ := h.levels
  refine .cons (IsAt.reached ⟨g, h.known, hhere⟩) ?_
  rw [henc]
  exact List.rel_append (List.Forall₂.imp (fun _ _ => IsAt.reached) hinner) houter

/-- A scope stays at its site where what is known stays as it is. -/
theorem StandsAt.extends (h : W.Extends W') {scope : ScopeId} {p : Site} {g : Standing}
    (hstands : W.StandsAt scope p g) : W'.StandsAt scope p g := by
  obtain ⟨hknown, inner, outer, henc, hhere, hinner, houter⟩ := hstands
  refine ⟨h scope g hknown, inner, outer, henc, hhere, ?_, houter.mono h.le⟩
  refine List.Forall₂.imp (fun id level hat => ?_) hinner
  obtain ⟨g', hg', hlevel⟩ := hat
  exact ⟨g', h id g' hg', hlevel⟩

end World

/-! ## Values in order -/

variable (uses : List Use) (base : Nat)

/-- The body of the function is settled inside of levels that the scopes around it have reached. -/
def FunctionValue.InOrder (W : World) (f : FunctionValue) : Prop :=
  ∃ g captured, W f.closure = some g ∧ W.Aligned (f.closure :: g.enclosing) captured
    ∧ FunctionSettled uses captured f.declaration.params f.declaration.body

/-- The methods of the class are settled inside of levels that the scopes around it have reached. -/
def ClassValue.InOrder (W : World) (c : ClassValue) : Prop :=
  ∃ g captured, W c.scope = some g ∧ W.Aligned (c.scope :: g.enclosing) captured
    ∧ ∀ method ∈ c.declaration.methods, MethodSettled uses captured c.declaration method

/-- A value of this run: functions and classes are in order, and objects are no older than it. -/
def Value.InOrder (W : World) : Value → Prop
  | .function f => f.InOrder uses W
  | .classValue c => c.InOrder uses W
  | .object id => base ≤ id.index
  | _ => True

variable {uses} {base} {W W' : World}

/-- A function in order stays so in a further world. -/
theorem FunctionValue.InOrder.mono (h : W.Le W') {f : FunctionValue} (hf : f.InOrder uses W) :
    f.InOrder uses W' := by
  obtain ⟨g, captured, hg, haligned, hsettled⟩ := hf
  obtain ⟨g', hg', -, henc⟩ := h _ g hg
  exact ⟨g', captured, hg', henc ▸ haligned.mono h, hsettled⟩

/-- A class in order stays so in a further world. -/
theorem ClassValue.InOrder.mono (h : W.Le W') {c : ClassValue} (hc : c.InOrder uses W) :
    c.InOrder uses W' := by
  obtain ⟨g, captured, hg, haligned, hsettled⟩ := hc
  obtain ⟨g', hg', -, henc⟩ := h _ g hg
  exact ⟨g', captured, hg', henc ▸ haligned.mono h, hsettled⟩

/-- A value in order stays so in a further world. -/
theorem Value.InOrder.mono (h : W.Le W') {v : Value} (hv : v.InOrder uses base W) :
    v.InOrder uses base W' := by
  cases v with
  | function f => exact FunctionValue.InOrder.mono h hv
  | classValue c => exact ClassValue.InOrder.mono h hv
  | object id => exact hv
  | _ => trivial

/-- A literal is in order. -/
theorem Value.inOrder_ofLiteral (W : World) (value : Literal) :
    (Value.ofLiteral value).InOrder uses base W := by
  cases value <;> trivial

/-! ## Worlds and stores -/

variable (uses) (base) in
/-- The scope of the store is what the world knows of it. It binds the names of its level and no
others; only methods, which a class body names, are bound nowhere. -/
structure Represents (W : World) (s : Store) (id : ScopeId) (g : Standing) : Prop where
  bounded : id.index < s.scopes.size
  enclosing : s.enclosing id = g.enclosing
  older : ∀ other ∈ g.enclosing, other.index < id.index
  bound : ∀ name, (s.own? id name).isSome = true → (g.level.names.get? name).isSome = true
  covered : ∀ name, (g.level.names.get? name).isSome = true → (s.own? id name).isSome = true
    ∨ ∃ c, g.level.classOf? = some c ∧ name ≠ receiverName
      ∧ ∃ method ∈ c.methods, method.name.text = name
  constant : g.level.classOf? ≠ none → ∀ {name sort},
    g.level.names.get? name = some sort → sort.isConstant = true
  receiver : g.level.classOf? ≠ none → (s.own? id receiverName).isSome = true
  values : ∀ name v, s.own? id name = some v → v.InOrder uses base W

variable (uses) (base) in
/-- The store is what the world knows of it, and objects of this run hold values of this run. -/
structure Consistent (W : World) (s : Store) : Prop where
  scopes : ∀ id g, W id = some g → Represents uses base W s id g
  objects : ∀ id o, base ≤ id.index → s.object? id = some o →
    o.classOf.InOrder uses W ∧ ∀ name v, o.fields.get? name = some v → v.InOrder uses base W
  count : base ≤ s.objects.size

/-! ## How consistency is kept -/

/-- What is known of a scope stays right as long as it binds the same names. -/
theorem Represents.mono {s s' : Store} {id : ScopeId} {g : Standing}
    (h : Represents uses base W s id g) (hle : W.Le W')
    (hsize : s.scopes.size ≤ s'.scopes.size) (henc : s'.enclosing id = s.enclosing id)
    (hown : ∀ name, s'.own? id name = s.own? id name) : Represents uses base W' s' id g where
  bounded := Nat.lt_of_lt_of_le h.bounded hsize
  enclosing := henc.trans h.enclosing
  older := h.older
  bound name := by
    rw [hown]
    exact h.bound name
  covered name := by
    rw [hown]
    exact h.covered name
  constant := h.constant
  receiver := by
    rw [hown]
    exact h.receiver
  values name v hv := by
    rw [hown] at hv
    exact (h.values name v hv).mono hle

/-- One scope moves on or comes in, and the others stay as they are. -/
theorem Consistent.update {s s' : Store} {id : ScopeId} {g : Standing}
    (h : Consistent uses base W s) (hle : W.Le (Function.update W id (some g)))
    (hsize : s.scopes.size ≤ s'.scopes.size)
    (hother : ∀ other, other ≠ id → other.index < s.scopes.size →
      s'.enclosing other = s.enclosing other ∧ ∀ name, s'.own? other name = s.own? other name)
    (hobjects : s'.objects = s.objects)
    (hid : Represents uses base (Function.update W id (some g)) s' id g) :
    Consistent uses base (Function.update W id (some g)) s' where
  scopes other g' hg' := by
    by_cases hne : other = id
    · subst hne
      rw [Function.update_self] at hg'
      cases hg'
      exact hid
    · rw [Function.update_of_ne hne] at hg'
      have hold := h.scopes other g' hg'
      obtain ⟨henc, hown⟩ := hother other hne hold.bounded
      exact hold.mono hle hsize henc hown
  objects other o hbase ho := by
    rw [Store.object?, hobjects] at ho
    obtain ⟨hclass, hfields⟩ := h.objects other o hbase ho
    exact ⟨hclass.mono hle, fun name v hv => (hfields name v hv).mono hle⟩
  count := by
    rw [hobjects]
    exact h.count

/-- Scopes that the store has not made yet are not known. -/
theorem Consistent.unknown {s : Store} (h : Consistent uses base W s) :
    W ⟨s.scopes.size⟩ = none := by
  cases hg : W ⟨s.scopes.size⟩ with
  | none => rfl
  | some g => exact absurd (h.scopes _ g hg).bounded (Nat.lt_irrefl _)

/-- The chain of a scope that is known is the one that is known of it. -/
theorem Consistent.chain_eq {s : Store} (h : Consistent uses base W s) {id : ScopeId}
    {g : Standing} (hg : W id = some g) : s.chain id = id :: g.enclosing := by
  rw [Store.chain, (h.scopes id g hg).enclosing]

/-- All scopes around a known one are older than the next scope. -/
theorem Consistent.chain_older {s : Store} (h : Consistent uses base W s) {id : ScopeId}
    {g : Standing} (hg : W id = some g) :
    ∀ other ∈ id :: g.enclosing, other.index < s.scopes.size := by
  intro other hother
  have hrep := h.scopes id g hg
  rcases List.mem_cons.1 hother with rfl | hother
  · exact hrep.bounded
  · exact Nat.lt_trans (hrep.older other hother) hrep.bounded

/-- A scope comes in that binds nothing yet. -/
theorem Consistent.addScope {s : Store} (h : Consistent uses base W s) {around : List ScopeId}
    (holder : ∀ other ∈ around, other.index < s.scopes.size) (later : List String) :
    Consistent uses base
      (Function.update W ⟨s.scopes.size⟩ (some ⟨⟨.empty, later, none⟩, around⟩))
      (s.addScope around).2 := by
  have hle := (World.extends_update h.unknown ⟨⟨.empty, later, none⟩, around⟩).le
  refine h.update hle (by simp) ?_ rfl ?_
  · intro other _ hlt
    exact ⟨s.enclosing_addScope around hlt, s.own?_addScope around hlt⟩
  · refine ⟨by simp, by simp, holder, ?_, ?_, ?_, ?_, ?_⟩
    · intro name hname
      simp at hname
    · intro name hname
      simp at hname
    · exact fun hclass => absurd rfl hclass
    · exact fun hclass => absurd rfl hclass
    · intro name v hv
      simp at hv

/-- A scope of statements declares a new name. The value may be a function that sees this name
already. -/
theorem Consistent.declare {s : Store} (h : Consistent uses base W s) {scope : ScopeId}
    {g : Standing} (hg : W scope = some g) (hclass : g.level.classOf? = none) {name : String}
    {sort : SymbolSort} (hle : g.level.Le (g.level.declare name sort)) {v : Value}
    (hv : v.InOrder uses base
      (Function.update W scope (some ⟨g.level.declare name sort, g.enclosing⟩))) :
    Consistent uses base
      (Function.update W scope (some ⟨g.level.declare name sort, g.enclosing⟩))
      (s.define scope name v) := by
  have hold := h.scopes scope g hg
  have hgrows := World.le_update hg hle
  have hown := fun key => s.own?_define_self hold.bounded name key v
  have hnames : ∀ key, (g.level.declare name sort).names.get? key =
      if name = key then some sort else g.level.names.get? key := fun key =>
    Bindings.get?_insert ..
  refine h.update hgrows (by simp) ?_ rfl ?_
  · intro other hne _
    exact ⟨s.enclosing_define .., fun key => s.own?_define_of_ne hne name key v⟩
  · refine ⟨by simpa using hold.bounded, (s.enclosing_define ..).trans hold.enclosing, hold.older,
      ?_, ?_, ?_, ?_, ?_⟩
    · intro key hkey
      rw [hown] at hkey
      rw [hnames]
      split
      · rfl
      · next hne =>
        rw [if_neg hne] at hkey
        exact hold.bound key hkey
    · intro key hkey
      rw [hnames] at hkey
      rw [hown]
      split
      · exact .inl rfl
      · next hne =>
        rw [if_neg hne] at hkey
        exact hold.covered key hkey
    · exact fun hsome => absurd hclass hsome
    · exact fun hsome => absurd hclass hsome
    · intro key v' hv'
      rw [hown] at hv'
      split at hv'
      · cases hv'
        exact hv
      · exact (hold.values key v' hv').mono hgrows

/-- The innermost scope moves on, and the site with it. -/
theorem Consistent.standsAt_update {s : Store} (h : Consistent uses base W s) {scope : ScopeId}
    {p : Site} {g : Standing} (hstands : W.StandsAt scope p g) {level : Level}
    (hle : p.here.Le level) :
    World.StandsAt (Function.update W scope (some ⟨level, g.enclosing⟩)) scope
      { p with here := level } ⟨level, g.enclosing⟩ := by
  obtain ⟨hknown, inner, outer, henc, hhere, hinner, houter⟩ := hstands
  have hgrows := World.le_update hknown (hhere ▸ hle)
  refine ⟨Function.update_self .., inner, outer, henc, rfl, ?_, houter.mono hgrows⟩
  have hother : ∀ id ∈ inner, id ≠ scope := by
    rintro id hid rfl
    have hlt := (h.scopes id g hknown).older id (henc ▸ List.mem_append_left outer hid)
    exact Nat.lt_irrefl _ hlt
  clear henc
  dsimp only
  generalize p.around = around at hinner
  induction hinner with
  | nil => exact .nil
  | cons hat _ ih =>
    obtain ⟨g', hg', hlevel⟩ := hat
    refine .cons ⟨g', ?_, hlevel⟩ (ih fun id hid => hother id (List.mem_cons_of_mem _ hid))
    rw [Function.update_of_ne (hother _ List.mem_cons_self)]
    exact hg'

/-- A scope gives a new value to a name that it binds. -/
theorem Consistent.assign {s : Store} (h : Consistent uses base W s) {owner : ScopeId}
    {g : Standing} (hg : W owner = some g) {name : String}
    (hbound : (s.own? owner name).isSome = true) {v : Value} (hv : v.InOrder uses base W) :
    Consistent uses base W (s.define owner name v) := by
  have hold := h.scopes owner g hg
  have hown := fun key => s.own?_define_self hold.bounded name key v
  have hkeeps : ∀ key, ((s.define owner name v).own? owner key).isSome
      = (s.own? owner key).isSome := by
    intro key
    rw [hown]
    split
    · next hname => rw [← hname, hbound]; rfl
    · rfl
  have hsame : Function.update W owner (some g) = W := by
    rw [← hg, Function.update_eq_self]
  rw [← hsame]
  refine h.update (by rw [hsame]; exact .refl W) (by simp) ?_ rfl ?_
  · intro other hne _
    exact ⟨s.enclosing_define .., fun key => s.own?_define_of_ne hne name key v⟩
  · rw [hsame]
    refine ⟨by simpa using hold.bounded, (s.enclosing_define ..).trans hold.enclosing, hold.older,
      ?_, ?_, hold.constant, ?_, ?_⟩
    · intro key hkey
      rw [hkeeps] at hkey
      exact hold.bound key hkey
    · intro key hkey
      rw [hkeeps]
      exact hold.covered key hkey
    · intro hclass
      rw [hkeeps]
      exact hold.receiver hclass
    · intro key v' hv'
      rw [hown] at hv'
      split at hv'
      · cases hv'
        exact hv
      · exact hold.values key v' hv'

/-- A new scope of a function takes its parameters, one after another. -/
theorem Consistent.defineAll {s : Store} (h : Consistent uses base W s) {scope : ScopeId}
    {g : Standing} (hg : W scope = some g) (hclass : g.level.classOf? = none)
    {params : List Name} {arguments : List Value} (hlength : arguments.length = params.length)
    (hvalues : ∀ v ∈ arguments, v.InOrder uses base W)
    (hclean : (Frame.declareAll g.level.names .parameter params).2 = []) :
    Consistent uses base
      (Function.update W scope (some
        ⟨{ g.level with names := (Frame.declareAll g.level.names .parameter params).1 },
          g.enclosing⟩))
      (s.defineAll scope ((params.map Name.text).zip arguments)) := by
  induction params generalizing W s g arguments with
  | nil =>
    have hsame : Function.update W scope (some g) = W := by rw [← hg, Function.update_eq_self]
    simpa [Frame.declareAll, Store.defineAll, hsame] using h
  | cons name params ih =>
    obtain ⟨v, arguments, rfl⟩ := List.exists_cons_of_length_eq_add_one hlength
    simp only [Frame.declareAll, List.append_eq_nil_iff] at hclean
    obtain ⟨hframe, hnew⟩ := Frame.declare_of_clean hclean.1
    have hle : g.level.Le (g.level.declare name.text .parameter) := by
      refine .declare hnew fun hconst => ?_
      cases hconst
    have hgrows := World.le_update hg hle
    have hdeclared := h.declare hg hclass hle ((hvalues v List.mem_cons_self).mono hgrows)
    have hrest := hclean.2
    rw [hframe] at hrest
    have hall := ih hdeclared (Function.update_self ..) hclass (Nat.succ.inj hlength)
      (fun v' hv' => (hvalues v' (List.mem_cons_of_mem _ hv')).mono hgrows) hrest
    rw [Function.update_idem] at hall
    simp only [Frame.declareAll, hframe]
    exact hall

/-- Only scopes and objects count. -/
theorem Consistent.congr {s s' : Store} (h : Consistent uses base W s)
    (hscopes : s'.scopes = s.scopes) (hobjects : s'.objects = s.objects) :
    Consistent uses base W s' where
  scopes id g hg := by
    have hown : ∀ name, s'.own? id name = s.own? id name := fun name => by
      rw [Store.own?, Store.own?, hscopes]
    have henc : s'.enclosing id = s.enclosing id := by
      rw [Store.enclosing, Store.enclosing, hscopes]
    exact (h.scopes id g hg).mono (.refl W) (Nat.le_of_eq (by rw [hscopes])) henc hown
  objects id o hbase ho := by
    rw [Store.object?, hobjects] at ho
    exact h.objects id o hbase ho
  count := by
    rw [hobjects]
    exact h.count

/-- A method is made into a function for an object of the run: its scope stands for the body of the
class. -/
theorem Consistent.bindMethod {s : Store} (h : Consistent uses base W s) {c : ClassValue}
    (hc : c.InOrder uses W) {method : FunctionDecl} (hmethod : method ∈ c.declaration.methods)
    {receiver : ObjectId} (hreceiver : base ≤ receiver.index) :
    ∃ W', W.Extends W' ∧ Consistent uses base W' (s.bindMethod c method receiver).2
      ∧ (s.bindMethod c method receiver).1.InOrder uses W' := by
  obtain ⟨g, captured, hg, haligned, hsettled⟩ := hc
  obtain ⟨names, hnames, hbody⟩ := hsettled method hmethod
  let g' : Standing := ⟨⟨names, [], some c.declaration⟩, c.scope :: g.enclosing⟩
  let W' := Function.update W ⟨s.scopes.size⟩ (some g')
  have hext : W.Extends W' := World.extends_update h.unknown g'
  have hnew : W' ⟨s.scopes.size⟩ = some g' := Function.update_self ..
  have hown : ∀ key, ((s.addScope (c.scope :: g.enclosing)).2.define ⟨s.scopes.size⟩ receiverName
      (.object receiver)).own? ⟨s.scopes.size⟩ key =
        if receiverName = key then some (.object receiver) else none := by
    intro key
    rw [Store.own?_define_self _ (by simp), Store.own?_addScope_self]
  have hstore : Consistent uses base W' ((s.addScope (c.scope :: g.enclosing)).2.define
      ⟨s.scopes.size⟩ receiverName (.object receiver)) := by
    refine h.update hext.le (by simp) ?_ rfl ?_
    · intro other hne hlt
      refine ⟨?_, fun name => ?_⟩
      · rw [Store.enclosing_define, Store.enclosing_addScope _ _ hlt]
      · rw [Store.own?_define_of_ne _ hne, Store.own?_addScope _ _ hlt]
    · refine ⟨by simp, by rw [Store.enclosing_define, Store.enclosing_addScope_self],
        h.chain_older hg, ?_, ?_, fun _ => hnames.constant, ?_, ?_⟩
      · intro name hname
        rw [hown] at hname
        split at hname
        · next heq => exact heq ▸ hnames.receiver
        · cases hname
      · intro name hname
        rw [hown]
        by_cases heq : receiverName = name
        · exact .inl (by rw [if_pos heq]; rfl)
        · obtain ⟨sort, hsort⟩ := Option.isSome_iff_exists.1 hname
          rcases hnames.known hsort with hthis | hother
          · exact absurd hthis.symm heq
          · exact .inr ⟨c.declaration, rfl, Ne.symm heq, hother⟩
      · intro _
        rw [hown, if_pos rfl]
        rfl
      · intro name v hv
        rw [hown] at hv
        split at hv
        · cases hv
          exact hreceiver
        · cases hv
  refine ⟨W', hext, ?_, ?_⟩
  · have hchild : s.addChild c.scope = s.addScope (c.scope :: g.enclosing) := by
      rw [Store.addChild, h.chain_eq hg]
    have hbind : (s.bindMethod c method receiver).2.scopes =
        ((s.addChild c.scope).2.define ⟨s.scopes.size⟩ receiverName (.object receiver)).scopes :=
      rfl
    refine hstore.congr ?_ rfl
    rw [hbind, hchild]
  · refine ⟨g', ⟨names, [], some c.declaration⟩ :: captured, hnew, ?_, hbody⟩
    exact .cons ⟨g', hnew, .refl _⟩ (haligned.mono hext.le)

/-! ## Objects -/

/-- A new object holds nothing, so it leaves the store consistent. -/
theorem Consistent.addObject {s : Store} (h : Consistent uses base W s) {c : ClassValue}
    (hc : c.InOrder uses W) : Consistent uses base W (s.addObject c).2 where
  scopes id g hg := (h.scopes id g hg).mono (.refl W) (Nat.le_refl _) rfl fun _ => rfl
  objects id o hbase ho := by
    rw [Store.object?, Store.addObject, Array.getElem?_push] at ho
    split at ho
    · cases ho
      exact ⟨hc, nofun⟩
    · exact h.objects id o hbase ho
  count := by
    rw [Store.addObject, Array.size_push]
    exact Nat.le_succ_of_le h.count

/-- A value in order may be put into a field of any object. -/
theorem Consistent.setField {s : Store} (h : Consistent uses base W s) {id : ObjectId}
    {name : String} {v : Value} (hv : v.InOrder uses base W) :
    Consistent uses base W (s.setField id name v) where
  scopes other g hg := (h.scopes other g hg).mono (.refl W) (Nat.le_refl _) rfl fun _ => rfl
  objects other o hbase ho := by
    rw [Store.object?, Store.setField, Array.getElem?_modify] at ho
    split at ho
    · obtain ⟨old, hold, rfl⟩ := Option.map_eq_some_iff.1 ho
      obtain ⟨hclass, hfields⟩ := h.objects other old hbase hold
      refine ⟨hclass, fun key v' hv' => ?_⟩
      rw [Bindings.get?_insert] at hv'
      split at hv'
      · cases hv'
        exact hv
      · exact hfields key v' hv'
    · exact h.objects other o hbase ho
  count := by
    rw [Store.setField, Array.size_modify]
    exact h.count

/-! ## Looking up names -/

/-- The innermost frame is asked first, then the others. -/
theorem lookup?_cons (frame : Frame) (frames : List Frame) (name : String) :
    lookup? (frame :: frames) name = (frame.get? name).or (lookup? frames name) := by
  rw [lookup?, List.findSome?_cons, lookup?]
  cases frame.get? name with
  | none => rfl
  | some sort => rfl

/-- A name that the scopes of the text have declared is bound in the scopes beside them, unless it
is that of a method of a class around. -/
theorem Consistent.bound_of_lookup? {s : Store} (h : Consistent uses base W s) {name : String}
    {ids : List ScopeId} {levels : List Level} (haligned : W.Aligned ids levels)
    (hfound : (lookup? (levels.map Level.names) name).isSome = true) :
    (ids.findSome? fun id => s.own? id name).isSome = true
      ∨ (name ≠ receiverName ∧ ∃ c ∈ levels.filterMap Level.classOf?,
        ∃ method ∈ c.methods, method.name.text = name) := by
  induction haligned with
  | nil => cases hfound
  | @cons id level ids levels hreached _ ih =>
    obtain ⟨g, hg, hle⟩ := hreached
    have hrep := h.scopes id g hg
    rw [List.findSome?_cons]
    cases hown : s.own? id name with
    | some v => exact .inl rfl
    | none =>
      have htail : (lookup? (levels.map Level.names) name).isSome = true →
          (ids.findSome? fun id => s.own? id name).isSome = true
            ∨ (name ≠ receiverName ∧ ∃ c ∈ (level :: levels).filterMap Level.classOf?,
              ∃ method ∈ c.methods, method.name.text = name) := by
        intro hfound'
        rcases ih hfound' with hbound | ⟨hne, c, hc, hmethod⟩
        · exact .inl hbound
        · refine .inr ⟨hne, c, ?_, hmethod⟩
          exact ((List.sublist_cons_self level levels).filterMap Level.classOf?).subset hc
      rw [List.map_cons, lookup?_cons] at hfound
      cases hlevel : level.names.get? name with
      | none =>
        rw [hlevel] at hfound
        exact htail hfound
      | some sort =>
        rcases hrep.covered name (by rw [hle.names hlevel]; rfl) with hbound | ⟨c, hc, hne, hmethod⟩
        · rw [hown] at hbound
          cases hbound
        · refine .inr ⟨hne, c, ?_, hmethod⟩
          rw [List.filterMap_cons_some (hle.classOf ▸ hc)]
          exact List.mem_cons_self

/-- Inside of a class the receiver is bound. -/
theorem Consistent.bound_receiver {s : Store} (h : Consistent uses base W s) {ids : List ScopeId}
    {levels : List Level} (haligned : W.Aligned ids levels)
    (hclass : (levels.any fun level => level.classOf?.isSome) = true) :
    (ids.findSome? fun id => s.own? id receiverName).isSome = true := by
  induction haligned with
  | nil => cases hclass
  | @cons id level ids levels hreached _ ih =>
    obtain ⟨g, hg, hle⟩ := hreached
    rw [List.findSome?_cons]
    cases hown : s.own? id receiverName with
    | some v => rfl
    | none =>
      rw [List.any_cons, Bool.or_eq_true] at hclass
      rcases hclass with hhere | hclass
      · have hsome : g.level.classOf? ≠ none := by
          rw [hle.classOf]
          exact Option.isSome_iff_ne_none.1 hhere
        have hbound := (h.scopes id g hg).receiver hsome
        rw [hown] at hbound
        cases hbound
      · exact ih hclass

/-- A scope whose level has declared a name as a variable binds it, and not as a constant. -/
theorem Represents.variable_bound {s : Store} {id : ScopeId} {g : Standing}
    (h : Represents uses base W s id g) {level : Level} (hle : level.Le g.level) {name : String}
    {sort : SymbolSort} (hlevel : level.names.get? name = some sort)
    (hsort : sort.isConstant = false) : (s.own? id name).isSome = true := by
  rcases h.covered name (by rw [hle.names hlevel]; rfl) with hbound | ⟨c, hc, -, -⟩
  · exact hbound
  · have hconst := h.constant (by rw [hc]; nofun) (hle.names hlevel)
    rw [hsort] at hconst
    cases hconst

/-- An assignment to a variable of scopes around the function finds a constant only if one of them
has declared it late. -/
theorem Consistent.lateIn_of_find? {s : Store} (h : Consistent uses base W s) {name : String}
    {owner : ScopeId} (hconst : W.HasConstant owner name) {sort : SymbolSort}
    (hsort : sort.isConstant = false) {ids : List ScopeId} {levels : List Level}
    (haligned : W.Aligned ids levels) (hfound : lookup? (levels.map Level.names) name = some sort)
    (hfind : ids.find? (fun id => (s.own? id name).isSome) = some owner) :
    lateIn levels name = true := by
  induction haligned with
  | nil => cases hfound
  | @cons id level ids levels hreached _ ih =>
    obtain ⟨g, hg, hle⟩ := hreached
    have hrep := h.scopes id g hg
    rw [List.map_cons, lookup?_cons] at hfound
    rw [List.find?_cons] at hfind
    cases hlevel : level.names.get? name with
    | some sort' =>
      -- the variable itself is found, and no constant
      rw [hlevel] at hfound
      cases hfound
      rw [hrep.variable_bound hle hlevel hsort] at hfind
      cases hfind
      exact absurd hconst (World.not_hasConstant hg (hle.names hlevel) hsort)
    | none =>
      rw [hlevel] at hfound
      have habsent : level.names.contains name = false := by
        rw [Bindings.contains, hlevel]
        rfl
      rw [lateIn, habsent, Bool.not_false, Bool.true_and, Bool.or_eq_true]
      cases hown : (s.own? id name).isSome with
      | true =>
        rw [hown] at hfind
        cases hfind
        obtain ⟨g', sort', hg', hnames, hc⟩ := hconst
        rw [hg] at hg'
        cases hg'
        exact .inl (List.contains_iff_mem.2 (hle.constants hlevel hnames hc))
      | false =>
        rw [hown] at hfind
        exact .inr (ih hfound hfind)

/-- The scopes of the function that is running have not moved on, so they hide nothing. -/
theorem Consistent.late_of_find? {s : Store} (h : Consistent uses base W s) {name : String}
    {owner : ScopeId} (hconst : W.HasConstant owner name) {sort : SymbolSort}
    (hsort : sort.isConstant = false) {outer : List ScopeId} {captured : List Level}
    (houter : W.Aligned outer captured) {inner : List ScopeId} {around : List Level}
    (hinner : List.Forall₂ W.IsAt inner around)
    (hfound : lookup? ((around ++ captured).map Level.names) name = some sort)
    (hfind : (inner ++ outer).find? (fun id => (s.own? id name).isSome) = some owner) :
    (around.any fun level => level.names.contains name) = false ∧ lateIn captured name = true := by
  induction hinner with
  | nil => exact ⟨rfl, h.lateIn_of_find? hconst hsort houter hfound hfind⟩
  | @cons id level inner around hat _ ih =>
    obtain ⟨g, hg, rfl⟩ := hat
    have hrep := h.scopes id g hg
    rw [List.cons_append, List.map_cons, lookup?_cons] at hfound
    rw [List.cons_append, List.find?_cons] at hfind
    cases hlevel : g.level.names.get? name with
    | some sort' =>
      rw [hlevel] at hfound
      cases hfound
      rw [hrep.variable_bound (.refl _) hlevel hsort] at hfind
      cases hfind
      exact absurd hconst (World.not_hasConstant hg hlevel hsort)
    | none =>
      rw [hlevel] at hfound
      have hfree : (s.own? id name).isSome = false := by
        cases hown : (s.own? id name).isSome with
        | false => rfl
        | true =>
          have hbound := hrep.bound name hown
          rw [hlevel] at hbound
          cases hbound
      rw [hfree] at hfind
      obtain ⟨hany, hlate⟩ := ih hfound hfind
      refine ⟨?_, hlate⟩
      rw [List.any_cons, hany, Bool.or_false, Bindings.contains, hlevel]
      rfl

end Quill
