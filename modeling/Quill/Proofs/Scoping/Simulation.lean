import Quill.Proofs.Scoping.Events
import Quill.Proofs.Scoping.Worlds

/-!
# Runs that keep step with the text

A run keeps step with what the text says of it. `Runs` is the statement of this for an action: from
a store that a world describes, the action comes to a store that a further world describes; what it
does to constants on the way is `Justified`, and if it stops, it does so for a reason that is
`Permitted`. Actions that do so can be put one after another (`Runs.bind`), and that is how the
proofs here go along the evaluation.

* `runs_readVariable`, `runs_writeVariable`: names without issues. All else about names comes down
  to these two.
* `Expr.runs`: settled expressions, if calls do the same (`CallsRun`).
-/

namespace Quill

variable (uses : List Use) (base : Nat)

/-! ## What may happen -/

/-- The name is read or assigned to on the line inside of a class that has a method of this name. -/
def NamesMethod (name : String) (line : Nat) : Prop :=
  ∃ use ∈ uses, use.name = ⟨name, line⟩
    ∧ ∃ c ∈ use.site.classes, ∃ method ∈ c.methods, method.name.text = name

/-- The name is assigned to where a function or class of this name may have been declared late. -/
def AssignedLate (name : Name) : Prop :=
  ∃ use ∈ uses, use.name = name ∧ use.isAssignment = true ∧ use.site.isLate name.text = true

/-- A run may stop for whatever it likes, but for an undefined variable only at the name of a
method. -/
def Permitted : Stop → Prop
  | .fault ⟨.undefinedVariable name, line⟩ => name ≠ receiverName ∧ NamesMethod uses name line
  | _ => True

/-- The events lead from one world to another. A declaration makes a constant, and an assignment
meets a constant only where this may have been declared late. -/
def Justified (W : World) : List Event → World → Prop
  | [], W' => W.Le W'
  | .introduced _ _ :: rest, W' => Justified W rest W'
  | .declared scope name :: rest, W' =>
    ∃ W₁, W.Le W₁ ∧ W₁.HasConstant scope name ∧ Justified W₁ rest W'
  | .assigned scope name :: rest, W' =>
    (W.HasConstant scope name.text → AssignedLate uses name) ∧ Justified W rest W'

variable {uses} {base} {W W' W'' : World}

namespace Justified

/-- Events that are justified from a later world are so from an earlier one. -/
theorem weaken {events : List Event} (hle : W.Le W') (h : Justified uses W' events W'') :
    Justified uses W events W'' := by
  induction events generalizing W W' with
  | nil => exact World.Le.trans hle h
  | cons event rest ih =>
    cases event with
    | introduced scope name => exact ih hle h
    | declared scope name =>
      obtain ⟨W₁, hle₁, hconst, hrest⟩ := h
      exact ⟨W₁, hle.trans hle₁, hconst, hrest⟩
    | assigned scope name =>
      exact ⟨fun hconst => h.1 (hconst.mono hle), ih hle h.2⟩

/-- Events that are justified may follow one another. -/
theorem append {first second : List Event} (h : Justified uses W first W')
    (h' : Justified uses W' second W'') : Justified uses W (first ++ second) W'' := by
  induction first generalizing W with
  | nil => exact h'.weaken h
  | cons event rest ih =>
    cases event with
    | introduced scope name => exact ih h
    | declared scope name =>
      obtain ⟨W₁, hle₁, hconst, hrest⟩ := h
      exact ⟨W₁, hle₁, hconst, ih hrest⟩
    | assigned scope name => exact ⟨h.1, ih h.2⟩

/-- Justified events lead from a world to one that is further on. -/
theorem le {events : List Event} (h : Justified uses W events W') : W.Le W' := by
  induction events generalizing W with
  | nil => exact h
  | cons event rest ih =>
    cases event with
    | introduced scope name => exact ih h
    | declared scope name =>
      obtain ⟨W₁, hle₁, -, hrest⟩ := h
      exact hle₁.trans (ih hrest)
    | assigned scope name => exact ih h.2

/-- What has been declared as a constant stays one. -/
theorem hasConstant {events : List Event} (h : Justified uses W events W') {scope : ScopeId}
    {name : String} (hmem : .declared scope name ∈ events) : W'.HasConstant scope name := by
  induction events generalizing W with
  | nil => cases hmem
  | cons event rest ih =>
    cases event with
    | introduced scope' name' =>
      rcases List.mem_cons.1 hmem with heq | hmem
      · cases heq
      · exact ih h hmem
    | declared scope' name' =>
      obtain ⟨W₁, -, hconst, hrest⟩ := h
      rcases List.mem_cons.1 hmem with heq | hmem
      · cases heq
        exact hconst.mono hrest.le
      · exact ih hrest hmem
    | assigned scope' name' =>
      rcases List.mem_cons.1 hmem with heq | hmem
      · cases heq
      · exact ih h.2 hmem

/-- Justified events are justified in two stretches. -/
theorem split {first second : List Event} (h : Justified uses W (first ++ second) W'') :
    ∃ W', Justified uses W first W' ∧ Justified uses W' second W'' := by
  induction first generalizing W with
  | nil => exact ⟨W, World.Le.refl W, h⟩
  | cons event rest ih =>
    cases event with
    | introduced scope name => exact ih h
    | declared scope name =>
      obtain ⟨W₁, hle₁, hconst, hrest⟩ := h
      obtain ⟨W₂, hfirst, hsecond⟩ := ih hrest
      exact ⟨W₂, ⟨W₁, hle₁, hconst, hfirst⟩, hsecond⟩
    | assigned scope name =>
      obtain ⟨W₂, hfirst, hsecond⟩ := ih h.2
      exact ⟨W₂, ⟨h.1, hfirst⟩, hsecond⟩

/-- An assignment that overwrites a function or class is one that may find it declared late. -/
theorem assignedLate {events : List Event} (h : Justified uses W events W') {scope : ScopeId}
    {name : Name} (hover : Overwrites events scope name) : AssignedLate uses name := by
  obtain ⟨before, after, rfl, hmem⟩ := hover
  obtain ⟨W₁, hfirst, hlate, -⟩ := h.split
  exact hlate (hfirst.hasConstant hmem)

end Justified

/-! ## Actions that keep worlds and stores in step -/

variable {α β : Type}

variable (uses) (base) in
/-- From a state that a world describes, the action comes to one that a further world describes, and
its events are justified. If it stops, it stops for what it may. -/
def Runs (W : World) (m : Machine) (action : Eval α) (events : Events)
    (Q : World → α → Machine → Prop) : Prop :=
  match action m with
  | .ok a m' => ∃ W', Justified uses W (events m) W' ∧ Consistent uses base W' m'.store ∧ Q W' a m'
  | .error stop _ => Permitted uses stop ∧ ∃ W', Justified uses W (events m) W'

namespace Runs

variable {m : Machine} {Q : World → α → Machine → Prop} {R : World → β → Machine → Prop}

/-- An action with a result runs well if its events are justified and the result is right. -/
theorem of_ok {action : Eval α} {events : Events} {a : α} {m' : Machine}
    (hok : action m = .ok a m') (hjust : Justified uses W (events m) W')
    (hstore : Consistent uses base W' m'.store) (hQ : Q W' a m') :
    Runs uses base W m action events Q := by
  rw [Runs, hok]
  exact ⟨W', hjust, hstore, hQ⟩

/-- An action that stops runs well if its events are justified and the stop is permitted. -/
theorem of_error {action : Eval α} {events : Events} {stop : Stop} {m' : Machine}
    (herror : action m = .error stop m') (hstop : Permitted uses stop)
    (hjust : Justified uses W (events m) W') : Runs uses base W m action events Q := by
  rw [Runs, herror]
  exact ⟨hstop, W', hjust⟩

/-- Only what an action does from the state matters. -/
theorem of_eq {action action' : Eval α} {events : Events} (heq : action m = action' m)
    (h : Runs uses base W m action' events Q) : Runs uses base W m action events Q := by
  rw [Runs, heq]
  exact h

/-- Only the events from the state matter. -/
theorem of_events {action : Eval α} {events events' : Events} (heq : events m = events' m)
    (h : Runs uses base W m action events' Q) : Runs uses base W m action events Q := by
  rw [Runs, heq]
  exact h

/-- What is said of the result may be weakened. -/
theorem mono {Q' : World → α → Machine → Prop} {action : Eval α} {events : Events}
    (h : Runs uses base W m action events Q) (hQ : ∀ W' a m', Q W' a m' → Q' W' a m') :
    Runs uses base W m action events Q' := by
  unfold Runs at h ⊢
  cases haction : action m with
  | ok a m' =>
    rw [haction] at h
    obtain ⟨W', hjust, hstore, hpost⟩ := h
    exact ⟨W', hjust, hstore, hQ W' a m' hpost⟩
  | error stop m' =>
    rw [haction] at h
    exact h

/-- However the action ends, its events are justified. -/
theorem justified {action : Eval α} {events : Events} (h : Runs uses base W m action events Q) :
    ∃ W', Justified uses W (events m) W' := by
  unfold Runs at h
  split at h
  · obtain ⟨W', hjust, -⟩ := h
    exact ⟨W', hjust⟩
  · exact h.2

/-- One action after another: the world goes along from the first to the second. -/
theorem bind {x : Eval α} {f : α → Eval β} {first : Events} {rest : α → Events}
    (hx : Runs uses base W m x first Q)
    (hf : ∀ W' a m', Consistent uses base W' m'.store → Q W' a m' →
      Runs uses base W' m' (f a) (rest a) R) :
    Runs uses base W m (x >>= f) (first.andThen x rest) R := by
  unfold Runs at hx
  cases haction : x m with
  | error stop m' =>
    rw [haction] at hx
    obtain ⟨hstop, W', hjust⟩ := hx
    have hevents : first.andThen x rest m = first m := Events.andThen_of_error haction
    rw [← hevents] at hjust
    exact of_error (Eval.bind_eq_of_error haction) hstop hjust
  | ok a m' =>
    rw [haction] at hx
    obtain ⟨W', hjust, hstore, hQ⟩ := hx
    have hrest := hf W' a m' hstore hQ
    unfold Runs at hrest ⊢
    rw [Eval.bind_eq_of_ok haction, Events.andThen_of_ok haction]
    cases hf' : f a m' with
    | ok b m'' =>
      rw [hf'] at hrest
      obtain ⟨W'', hjust', hstore', hR⟩ := hrest
      exact ⟨W'', hjust.append hjust', hstore', hR⟩
    | error stop m'' =>
      rw [hf'] at hrest
      obtain ⟨hstop, W'', hjust'⟩ := hrest
      exact ⟨hstop, W'', hjust.append hjust'⟩

/-- An action without events after another. -/
theorem bind_none {x : Eval α} {f : α → Eval β} {events : Events}
    (hx : Runs uses base W m x events Q)
    (hf : ∀ W' a m', Consistent uses base W' m'.store → Q W' a m' →
      Runs uses base W' m' (f a) .none R) :
    Runs uses base W m (x >>= f) events R := by
  rw [← Events.andThen_none events x]
  exact hx.bind hf

/-- Yielding a value runs well where it is right already. -/
theorem pure {a : α} (hstore : Consistent uses base W m.store) (hQ : Q W a m) :
    Runs uses base W m (pure a) .none Q :=
  of_ok rfl (World.Le.refl W) hstore hQ

/-- Stopping runs well if it is permitted. -/
theorem throw {stop : Stop} (h : Permitted uses stop) :
    Runs uses base W m (throw stop : Eval α) .none Q :=
  of_error rfl h (World.Le.refl W)

/-- An action that only changes the store, and the world with it. -/
theorem withStore {f : Store → α × Store} (hle : W.Le W')
    (hstore : Consistent uses base W' (f m.store).2)
    (hQ : Q W' (f m.store).1 { m with store := (f m.store).2 }) :
    Runs uses base W m (Eval.withStore f) .none Q :=
  of_ok rfl hle hstore hQ

/-- An action in another scope, which is left again. -/
theorem inScope {scope : ScopeId} {action : Eval α} {events : Events}
    (h : Runs uses base W { m with scope := scope } action events fun W' a m' =>
      Q W' a { m' with scope := m.scope }) :
    Runs uses base W m (Eval.inScope scope action) (.inScope scope events) Q := by
  unfold Runs at h ⊢
  unfold Eval.inScope Events.inScope
  dsimp only
  cases haction : action { m with scope := scope } with
  | ok a m' =>
    rw [haction] at h
    exact h
  | error stop m' =>
    rw [haction] at h
    exact h

end Runs

/-! ## Operators -/

/-- What an operator comes to is a plain value, or a stop that is permitted. -/
theorem Runs.ofExcept {m : Machine} {result : Except Fault Value}
    {Q : World → Value → Machine → Prop} (h : IsPlain result)
    (hstore : Consistent uses base W m.store)
    (hQ : ∀ v, v.InOrder uses base W → Q W v m) :
    Runs uses base W m (Eval.ofExcept result) .none Q := by
  cases result with
  | error fault =>
    refine Runs.throw ?_
    obtain ⟨cause, line⟩ := fault
    cases cause with
    | undefinedVariable name => exact absurd rfl (h.2 name)
    | _ => trivial
  | ok v =>
    refine Runs.pure hstore (hQ v ?_)
    cases v with
    | function f => cases h
    | classValue c => cases h
    | object id => cases h
    | _ => trivial

/-! ## Variables -/

variable (uses) (base) in
/-- What an expression leaves behind: a value in order, the scope that it started in, and all that
was known as it was. -/
structure Yields (W : World) (m : Machine) (W' : World) (v : Value) (m' : Machine) : Prop where
  scope : m'.scope = m.scope
  extends_ : W.Extends W'
  value : v.InOrder uses base W'

variable {m : Machine} {p : Site} {g : Standing}

/-- A variable is looked for through the scopes that are known to be around. -/
theorem Store.get?_eq (s : Store) (hstore : Consistent uses base W s) {scope : ScopeId}
    (hg : W scope = some g) (name : String) :
    s.get? scope name = (scope :: g.enclosing).findSome? fun id => s.own? id name := by
  rw [Store.get?, hstore.chain_eq hg]

/-- A bound name has a value in order. -/
theorem Consistent.inOrder_of_get? {s : Store} (h : Consistent uses base W s) {scope : ScopeId}
    (hstands : W.StandsAt scope p g) {name : String} {v : Value}
    (hv : s.get? scope name = some v) : v.InOrder uses base W := by
  rw [s.get?_eq h hstands.known] at hv
  obtain ⟨id, hid, hown⟩ := List.exists_of_findSome?_eq_some hv
  obtain ⟨g', hg'⟩ := hstands.aligned.known id hid
  exact (h.scopes id g' hg').values name v hown

/-- A name without issues has a value, unless it is that of a method of a class around. -/
theorem runs_readVariable (hstore : Consistent uses base W m.store)
    (hstands : W.StandsAt m.scope p g) {name : String} {line : Nat}
    (hunbound : (m.store.get? m.scope name).isSome = false →
      Permitted uses (.fault ⟨.undefinedVariable name, line⟩)) :
    Runs uses base W m (Eval.readVariable name line) .none (Yields uses base W m) := by
  cases hget : m.store.get? m.scope name with
  | some v =>
    have hok : Eval.readVariable name line m = .ok v m := by rw [Eval.readVariable, hget]
    exact .of_ok hok (World.Le.refl W) hstore
      ⟨rfl, .refl W, hstore.inOrder_of_get? hstands hget⟩
  | none =>
    have herror : Eval.readVariable name line m =
        .error (.fault ⟨.undefinedVariable name, line⟩) m := by rw [Eval.readVariable, hget]
    exact .of_error herror (hunbound (by rw [hget]; rfl)) (World.Le.refl W)

/-- A name that is known at the site but has no value yet is that of a method. -/
theorem permitted_of_lookup? (hstore : Consistent uses base W m.store)
    (hstands : W.StandsAt m.scope p g) {name : Name} {written : Bool}
    (hlookup : (lookup? p.frames name.text).isSome = true) (huse : ⟨name, p, written⟩ ∈ uses)
    (hget : (m.store.get? m.scope name.text).isSome = false) :
    Permitted uses (.fault ⟨.undefinedVariable name.text, name.line⟩) := by
  rcases hstore.bound_of_lookup? hstands.aligned hlookup with hbound | ⟨hne, hmethod⟩
  · rw [m.store.get?_eq hstore hstands.known, hbound] at hget
    cases hget
  · exact ⟨hne, _, huse, rfl, hmethod⟩

/-- A name that may be read is known at the site. -/
theorem lookup?_of_referenceIssues {frames : List Frame} {name : Name}
    (h : referenceIssues frames name = []) : (lookup? frames name.text).isSome = true := by
  unfold referenceIssues at h
  split at h
  · cases h
  · next hlookup =>
    rw [hlookup]
    rfl

/-- A name that may be assigned to is known at the site, and not as a constant there. -/
theorem lookup?_of_assignmentIssues {frames : List Frame} {name : Name}
    (h : assignmentIssues frames name = []) :
    ∃ sort, lookup? frames name.text = some sort ∧ sort.isConstant = false := by
  unfold assignmentIssues at h
  split at h
  · cases h
  · next sort hlookup =>
    refine ⟨sort, hlookup, ?_⟩
    split at h
    · cases h
    · next hsort => simpa using hsort

/-- A variable that no scope owns has no value. -/
theorem Store.get?_of_owner?_eq_none {s : Store} {scope : ScopeId} {name : String}
    (h : s.owner? scope name = none) : s.get? scope name = none := by
  rw [Store.owner?, List.find?_eq_none] at h
  rw [Store.get?, List.findSome?_eq_none_iff]
  intro id hid
  simpa using h id hid

/-- An assignment meets a constant only where this may have been declared late. -/
theorem runs_writeVariable (hstore : Consistent uses base W m.store)
    (hstands : W.StandsAt m.scope p g) {name : Name}
    (hclean : assignmentIssues p.frames name = []) (huse : ⟨name, p, true⟩ ∈ uses) {v : Value}
    (hv : v.InOrder uses base W) :
    Runs uses base W m (Eval.writeVariable name.text v name.line) (.ofAssignment name)
      fun W' _ m' => m'.scope = m.scope ∧ W' = W := by
  obtain ⟨sort, hlookup, hsort⟩ := lookup?_of_assignmentIssues hclean
  have hwrite := writeVariable_eq name.text v name.line m
  cases howner : m.store.owner? m.scope name.text with
  | none =>
    rw [howner] at hwrite
    have hevents : Events.ofAssignment name m = [] := by rw [Events.ofAssignment, howner]
    have hget := Store.get?_of_owner?_eq_none howner
    have hstop : Permitted uses (.fault ⟨.undefinedVariable name.text, name.line⟩) :=
      permitted_of_lookup? hstore hstands (by rw [hlookup]; rfl) huse (by rw [hget]; rfl)
    refine .of_error hwrite hstop (?_ : Justified uses W _ W)
    rw [hevents]
    exact World.Le.refl W
  | some owner =>
    rw [howner] at hwrite
    have hevents : Events.ofAssignment name m = [.assigned owner name] := by
      rw [Events.ofAssignment, howner]
    rw [Store.owner?, hstore.chain_eq hstands.known] at howner
    have hbound : (m.store.own? owner name.text).isSome = true := by
      have hfound := List.find?_some howner
      exact hfound
    obtain ⟨g', hg'⟩ := hstands.aligned.known owner (List.mem_of_find?_eq_some howner)
    have hlate : W.HasConstant owner name.text → AssignedLate uses name := by
      intro hconst
      refine ⟨_, huse, rfl, rfl, ?_⟩
      obtain ⟨inner, outer, henc, hhere, hinner, houter⟩ := hstands.levels
      rw [henc] at howner
      obtain ⟨hany, hlate⟩ := hstore.late_of_find? hconst hsort houter
        (.cons ⟨g, hstands.known, hhere⟩ hinner) hlookup howner
      rw [Site.isLate, hany, hlate]
      rfl
    refine .of_ok hwrite (?_ : Justified uses W _ W) (hstore.assign hg' hbound hv) ⟨rfl, rfl⟩
    rw [hevents]
    exact ⟨hlate, World.Le.refl W⟩

/-! ## Expressions -/

namespace Yields

variable {m' m'' : Machine} {v w : Value}

/-- A value in order is yielded where nothing has changed. -/
theorem refl (hv : v.InOrder uses base W) : Yields uses base W m W v m :=
  ⟨rfl, .refl W, hv⟩

/-- What is yielded is kept by what is yielded after it. -/
theorem trans (h : Yields uses base W m W' v m') (h' : Yields uses base W' m' W'' w m'') :
    Yields uses base W m W'' w m'' :=
  ⟨h'.scope.trans h.scope, h.extends_.trans h'.extends_, h'.value⟩

/-- Behind an expression the site is still the same. -/
theorem standsAt (h : Yields uses base W m W' v m') (hstands : W.StandsAt m.scope p g) :
    W'.StandsAt m'.scope p g := by
  rw [h.scope]
  exact hstands.extends h.extends_

end Yields

/-- A method that is found is one of those that the class declares. -/
theorem ClassValue.mem_of_method? {c : ClassValue} {name : String} {method : FunctionDecl}
    (h : c.method? name = some method) : method ∈ c.declaration.methods :=
  List.mem_reverse.1 (List.mem_of_find?_eq_some h)

/-- A method that is made into a function keeps everything in order. -/
theorem runs_bindMethod (hstore : Consistent uses base W m.store) {c : ClassValue}
    (hc : c.InOrder uses W) {name : String} {method : FunctionDecl}
    (hmethod : c.method? name = some method) {id : ObjectId} (hid : base ≤ id.index) :
    Runs uses base W m (Eval.withStore fun s => s.bindMethod c method id) .none
      fun W' f m' => Yields uses base W m W' (.function f) m' := by
  obtain ⟨W', hext, hstore', hf⟩ :=
    hstore.bindMethod hc (ClassValue.mem_of_method? hmethod) hid
  exact .withStore hext.le hstore' ⟨rfl, hext, hf⟩

/-- A property of an object of this run is in order. -/
theorem runs_readProperty (hstore : Consistent uses base W m.store) {id : ObjectId}
    (hid : base ≤ id.index) (property : Name) :
    Runs uses base W m (readProperty id property) .none (Yields uses base W m) := by
  have hget : (get : Eval Machine) m = .ok m m := rfl
  refine .of_eq (Eval.bind_eq_of_ok hget) ?_
  cases hobject : m.store.object? id with
  | none => exact .throw trivial
  | some object =>
    obtain ⟨hclass, hfields⟩ := hstore.objects id object hid hobject
    cases hfield : object.fields.get? property.text with
    | some v => simpa only [hfield] using .pure hstore (.refl (hfields _ v hfield))
    | none =>
      cases hmethod : object.classOf.method? property.text with
      | none => simpa only [hfield, hmethod] using .throw trivial
      | some method =>
        simp only [hfield, hmethod]
        refine (runs_bindMethod hstore hclass hmethod hid).bind_none fun W' f m' hstore' hf => ?_
        exact .pure hstore' hf

/-- An object in order is one of this run. -/
theorem runs_objectOf (hstore : Consistent uses base W m.store) {v : Value}
    (hv : v.InOrder uses base W) (line : Nat) :
    Runs uses base W m (objectOf v line) .none
      fun W' id m' => W' = W ∧ m' = m ∧ base ≤ id.index := by
  cases v with
  | object id => exact .pure hstore ⟨rfl, rfl, hv⟩
  | _ => exact .throw trivial

variable (uses) (base) in
/-- Calls of values in order with arguments in order go well. -/
def CallsRun (call : Caller) (calls : CallEvents) : Prop :=
  ∀ {W : World} {m : Machine} {f : Value} {arguments : List Value} (line : Nat),
    Consistent uses base W m.store → f.InOrder uses base W →
    (∀ v ∈ arguments, v.InOrder uses base W) →
      Runs uses base W m (call f arguments line) (calls f arguments) (Yields uses base W m)

variable (uses) (base) in
/-- What expressions in order leave behind. -/
structure YieldsAll (W : World) (m : Machine) (W' : World) (vs : List Value) (m' : Machine) :
    Prop where
  scope : m'.scope = m.scope
  extends_ : W.Extends W'
  values : ∀ v ∈ vs, v.InOrder uses base W'

mutual

/-- A settled expression runs well wherever its site is reached. -/
theorem Expr.runs {call : Caller} {calls : CallEvents} (hcalls : CallsRun uses base call calls) :
    (e : Expr) → ∀ {W : World} {m : Machine} {p : Site} {g : Standing}, e.Settled uses p →
      Consistent uses base W m.store → W.StandsAt m.scope p g →
      Runs uses base W m (e.evaluate call) (e.events call calls) (Yields uses base W m)
  | .literal value line, W, m, p, g, _, hstore, _ => by
    rw [Expr.evaluate, Expr.events]
    exact .pure hstore (.refl (Value.inOrder_ofLiteral W value))
  | .unary operator operand, W, m, p, g, h, hstore, hstands => by
    rw [Expr.evaluate, Expr.events]
    refine (Expr.runs hcalls operand h.unary hstore hstands).bind_none fun W' v m' hstore' hv => ?_
    exact .ofExcept (isPlain_applyUnary ..) hstore' fun w hw => hv.trans (.refl hw)
  | .binary left operator right, W, m, p, g, h, hstore, hstands => by
    rw [Expr.evaluate, Expr.events]
    refine (Expr.runs hcalls left h.binary.1 hstore hstands).bind fun W₁ a m₁ hstore₁ ha => ?_
    refine (Expr.runs hcalls right h.binary.2 hstore₁ (ha.standsAt hstands)).bind_none
      fun W₂ b m₂ hstore₂ hb => ?_
    exact .ofExcept (isPlain_applyBinary ..) hstore₂ fun w hw => (ha.trans hb).trans (.refl hw)
  | .group inner, W, m, p, g, h, hstore, hstands => by
    rw [Expr.evaluate, Expr.events]
    exact Expr.runs hcalls inner h.group hstore hstands
  | .reference name, W, m, p, g, h, hstore, hstands => by
    rw [Expr.evaluate, Expr.events]
    refine runs_readVariable hstore hstands fun hget => ?_
    exact permitted_of_lookup? hstore hstands (lookup?_of_referenceIssues h.clean)
      (h.listed List.mem_cons_self) hget
  | .assign name value, W, m, p, g, h, hstore, hstands => by
    rw [Expr.evaluate, Expr.events]
    obtain ⟨hvalue, hclean, huse⟩ := h.assign
    refine (Expr.runs hcalls value hvalue hstore hstands).bind fun W₁ v m₁ hstore₁ hv => ?_
    refine (runs_writeVariable hstore₁ (hv.standsAt hstands) hclean huse hv.value).bind_none
      fun W₂ _ m₂ hstore₂ hpost => ?_
    obtain ⟨hscope, rfl⟩ := hpost
    exact .pure hstore₂ ⟨hscope.trans hv.scope, hv.extends_, hv.value⟩
  | .call callee arguments line, W, m, p, g, h, hstore, hstands => by
    rw [Expr.evaluate, Expr.events]
    refine (Expr.runs hcalls callee h.call.1 hstore hstands).bind fun W₁ f m₁ hstore₁ hf => ?_
    refine (Expr.listRuns hcalls arguments h.call.2 hstore₁ (hf.standsAt hstands)).bind
      fun W₂ values m₂ hstore₂ hvalues => ?_
    refine (hcalls line hstore₂ (hf.value.mono hvalues.extends_.le) hvalues.values).mono
      fun W₃ v m₃ hv => ?_
    exact ⟨hv.scope.trans (hvalues.scope.trans hf.scope),
      (hf.extends_.trans hvalues.extends_).trans hv.extends_, hv.value⟩
  | .get object property, W, m, p, g, h, hstore, hstands => by
    rw [Expr.evaluate, Expr.events]
    refine (Expr.runs hcalls object h.get hstore hstands).bind_none fun W₁ v m₁ hstore₁ hv => ?_
    refine (runs_objectOf hstore₁ hv.value _).bind_none fun W₂ id m₂ hstore₂ hpost => ?_
    obtain ⟨rfl, rfl, hid⟩ := hpost
    exact (runs_readProperty hstore₂ hid property).mono fun W₃ w m₃ hw => hv.trans hw
  | .set object property value, W, m, p, g, h, hstore, hstands => by
    rw [Expr.evaluate, Expr.events]
    refine (Expr.runs hcalls object h.set.1 hstore hstands).bind fun W₁ target m₁ hstore₁ ht => ?_
    refine (runs_objectOf hstore₁ ht.value _).bind fun W₂ id m₂ hstore₂ hpost => ?_
    obtain ⟨rfl, rfl, hid⟩ := hpost
    refine (Expr.runs hcalls value h.set.2 hstore₂ (ht.standsAt hstands)).bind_none
      fun W₃ v m₃ hstore₃ hv => ?_
    have hset : Runs uses base W₃ m₃ (Eval.withStore fun s => ((), s.setField id property.text v))
        .none fun W' _ m' => W' = W₃ ∧ m'.scope = m₃.scope :=
      .withStore (.refl W₃) (hstore₃.setField hv.value) ⟨rfl, rfl⟩
    refine hset.bind_none fun W₄ _ m₄ hstore₄ hpost => ?_
    obtain ⟨rfl, hscope⟩ := hpost
    exact .pure hstore₄ ⟨hscope.trans (hv.scope.trans ht.scope), ht.extends_.trans hv.extends_,
      hv.value⟩
  | .this line, W, m, p, g, h, hstore, hstands => by
    rw [Expr.evaluate, Expr.events]
    refine runs_readVariable hstore hstands fun hget => ?_
    rw [m.store.get?_eq hstore hstands.known,
      hstore.bound_receiver hstands.aligned h.this] at hget
    cases hget

/-- Settled expressions run well one after another. -/
theorem Expr.listRuns {call : Caller} {calls : CallEvents}
    (hcalls : CallsRun uses base call calls) : (es : List Expr) →
      ∀ {W : World} {m : Machine} {p : Site} {g : Standing}, Expr.ListSettled uses p es →
      Consistent uses base W m.store → W.StandsAt m.scope p g →
      Runs uses base W m (Expr.evaluateAll call es) (Expr.listEvents call calls es)
        (YieldsAll uses base W m)
  | [], W, m, p, g, _, hstore, _ => by
    rw [Expr.evaluateAll, Expr.listEvents]
    exact .pure hstore ⟨rfl, .refl W, nofun⟩
  | e :: rest, W, m, p, g, h, hstore, hstands => by
    rw [Expr.evaluateAll, Expr.listEvents]
    refine (Expr.runs hcalls e h.cons.1 hstore hstands).bind fun W₁ v m₁ hstore₁ hv => ?_
    refine (Expr.listRuns hcalls rest h.cons.2 hstore₁ (hv.standsAt hstands)).bind_none
      fun W₂ vs m₂ hstore₂ hvs => ?_
    refine .pure hstore₂ ⟨hvs.scope.trans hv.scope, hv.extends_.trans hvs.extends_, ?_⟩
    intro w hw
    rcases List.mem_cons.1 hw with rfl | hw
    · exact hv.value.mono hvs.extends_.le
    · exact hvs.values w hw

end

/-- A settled expression that may be missing runs well. -/
theorem Expr.optionRuns {call : Caller} {calls : CallEvents}
    (hcalls : CallsRun uses base call calls) {e : Option Expr} (h : Expr.OptionSettled uses p e)
    (hstore : Consistent uses base W m.store) (hstands : W.StandsAt m.scope p g) :
    Runs uses base W m (Expr.evaluateOption call e) (Expr.optionEvents call calls e)
      (Yields uses base W m) := by
  cases e with
  | none => exact .pure hstore (.refl trivial)
  | some e => exact Expr.runs hcalls e h.some hstore hstands

end Quill
